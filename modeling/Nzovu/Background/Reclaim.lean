import Mathlib.Data.List.Range
import Nzovu.Background.Services
import Nzovu.Foundation.Drain
import Nzovu.Repository.Effects

/-!
# Reclaim Cycles

Translation of `reclaimQueueMessages` of `pkg/repository/sql/background/reclaim.go`: a cycle finds
up to a hundred expired messages of a queue and reclaims each in its own transaction; a message it
fails on is logged, and the loop goes on.

- Section 1: a cycle.
- Section 2: what a cycle leaves expired.
- Section 3: consecutive cycles.
-/

namespace Nzovu.Background

open Nzovu.Foundation
open Nzovu.Repository

/-! ## Section 1: A cycle -/

/-- The conditions of `FindExpiredMessages`. -/
def isExpired (queueName : String) (nowMs : Int) (row : MessageRow) : Bool :=
  row.queueName = queueName && row.state = .running && anyExpired nowMs row && row.deletedAt = none

/-- The messages that satisfy them. The query has no `ORDER BY`; `rank` is the order in which it
meets the rows. -/
def expiredMessages (db : Database) (rank : Nat → Nat) (nowMs : Int) (queueName : String) :
    List ExpiredMessage :=
  ((db.messages.rows.filter fun e => isExpired queueName nowMs e.2).insertionSort fun a b =>
    rank a.1 ≤ rank b.1).map fun e => ⟨e.2.messageId, e.2.currentAttemptId.getD ""⟩

/-- `FindExpiredMessages` of the repository meets the rows in the table's order. -/
theorem findExpiredMessages_eq (db : Database) (nowMs : Int) (queueName : String) (limit : Nat) :
    findExpiredMessages db nowMs queueName limit =
      (expiredMessages db (fun _ => 0) nowMs queueName).take limit := by
  have hsorted : (db.messages.rows.filter fun e => isExpired queueName nowMs e.2).Pairwise
      fun _ _ => (0 : Nat) ≤ 0 :=
    List.pairwise_iff_forall_sublist.mpr fun _ => Nat.le_refl 0
  rw [expiredMessages, hsorted.insertionSort_eq, ← List.map_take]
  rfl

/-- What a call of `ReclaimExpiredMessage` meets outside the database: the clock, and a failure of
its transaction. -/
structure ReclaimAttempt where
  clock : Readings
  fault : Option StorageError := none

/-- `ReclaimExpiredMessage`, in its transaction. -/
def ReclaimAttempt.run (attempt : ReclaimAttempt) (db : Database) (queueName : String)
    (message : ExpiredMessage) : Except StorageError (Database × ReclaimResult) :=
  match attempt.fault with
  | some err => .error err
  | none => reclaimExpiredMessage db attempt.clock queueName message

/-- The outcomes of a cycle's calls, in order. -/
abbrev ReclaimOutcomes := List (ExpiredMessage × Except StorageError ReclaimResult)

/-- The loop of `reclaimQueueMessages`. -/
def reclaimMessages (queueName : String) (attempts : ExpiredMessage → ReclaimAttempt) :
    List ExpiredMessage → Database → Database × ReclaimOutcomes :=
  attemptEach fun db message => (attempts message).run db queueName message

/-- The limit `reclaimQueueMessages` gives `FindExpiredMessages`. -/
def reclaimBatchSize : Nat := 100

/-- What a cycle meets: the clock of its query, and its calls. -/
structure ReclaimCycle where
  nowMs : Int
  attempts : ExpiredMessage → ReclaimAttempt

/-- `reclaimQueueMessages`: the database it leaves, and the outcomes. -/
def reclaimQueueMessages (db : Database) (rank : Nat → Nat) (cycle : ReclaimCycle)
    (queueName : String) : Database × ReclaimOutcomes :=
  reclaimMessages queueName cycle.attempts
    ((expiredMessages db rank cycle.nowMs queueName).take reclaimBatchSize) db

/-- The error it returns: that of the first message it failed on. -/
def reclaimErr (outcomes : ReclaimOutcomes) : Option String :=
  outcomes.findSome? fun
    | (message, .error err) =>
      some ("reclaim message " ++ message.messageId.quote ++ ": " ++ err.message)
    | (_, .ok _) => none

/-! ## Section 2: What a cycle leaves expired -/

theorem isExpired_iff {queueName : String} {nowMs : Int} {row : MessageRow} :
    isExpired queueName nowMs row = true ↔
      row.queueName = queueName ∧ row.state = .running ∧ anyExpired nowMs row = true ∧
        row.deletedAt = none := by
  simp [isExpired, and_assoc]

/-- A row that is not expired any more leaves the others. -/
theorem filter_setRow {rows : List (Nat × MessageRow)} {p : MessageRow → Bool} {i : Nat}
    {new : MessageRow} (hnew : p new = false) :
    (Table.setRow rows i new).filter (fun e => p e.2) =
      (rows.filter fun e => p e.2).filter fun e => e.1 ≠ i := by
  induction rows with
  | nil => rfl
  | cons e rows ih =>
    simp only [Table.setRow, List.map_cons] at ih ⊢
    by_cases hid : e.1 = i
    · rw [if_pos hid, List.filter_cons_of_neg (by simp [hnew]), ih]
      cases hp : p e.2 <;> simp [hp, hid]
    · rw [if_neg hid]
      cases hp : p e.2 <;> simp [hp, hid, ih]

/-- A reclaim takes its row out of the expired rows. -/
theorem reclaimExpiredMessage_filter {db db' : Database} {clock : Readings} {queueName : String}
    {message : ExpiredMessage} {result : ReclaimResult} (nowMs : Int)
    (h : reclaimExpiredMessage db clock queueName message = .ok (db', result)) :
    ∃ i old, (i, old) ∈ db.messages.rows ∧ old.queueName = queueName ∧
      old.messageId = message.messageId ∧
      (db'.messages.rows.filter fun e => isExpired queueName nowMs e.2) =
        (db.messages.rows.filter fun e => isExpired queueName nowMs e.2).filter
          fun e => e.1 ≠ i := by
  obtain ⟨metadata, i, old, -, hrec, houtcome, -⟩ := reclaimExpiredMessage_effect h
  have hupdated : ∀ new, new.state = reclaimState old → RowUpdated db db' i old new →
      ∃ i old, (i, old) ∈ db.messages.rows ∧ old.queueName = queueName ∧
        old.messageId = message.messageId ∧
        (db'.messages.rows.filter fun e => isExpired queueName nowMs e.2) =
          (db.messages.rows.filter fun e => isExpired queueName nowMs e.2).filter
            fun e => e.1 ≠ i := by
    intro new hstate hrow
    refine ⟨i, old, hrow.mem, hrec.queue, hrec.message, ?_⟩
    rw [hrow.rows]
    refine filter_setRow ?_
    rcases reclaimState_cases old with hpending | herrored
    · simp [isExpired, hstate, hpending]
    · simp [isExpired, hstate, herrored]
  rcases houtcome with ⟨-, hrow⟩ | ⟨-, ⟨-, -, hrow⟩ | ⟨-, -, hrow⟩ | ⟨-, hrow⟩⟩
  · exact hupdated _ rfl hrow
  · refine ⟨i, old, hrow.mem, hrec.queue, hrec.message, ?_⟩
    rw [hrow.rows, Table.dropRow, List.filter_filter, List.filter_filter]
    exact List.filter_congr fun e _ => Bool.and_comm ..
  · exact hupdated _ rfl hrow
  · exact hupdated _ rfl hrow

/-- Two expired rows with one message id are the same row. -/
theorem expired_inj {db : Database} {queueName : String} {d e : Nat × MessageRow}
    (hd : d ∈ db.messages.rows) (he : e ∈ db.messages.rows) (hdq : d.2.queueName = queueName)
    (heq : e.2.queueName = queueName) (hid : d.2.messageId = e.2.messageId) : d = e :=
  Table.eq_of_key hd he (by rw [MessageRow.uniqueKey, MessageRow.uniqueKey, hdq, heq, hid])

/-- A reclaim removes the message from the expired ones. -/
theorem expiredMessages_reclaim {db db' : Database} {clock : Readings} {queueName : String}
    {message : ExpiredMessage} {result : ReclaimResult} (rank : Nat → Nat) (nowMs : Int)
    (h : reclaimExpiredMessage db clock queueName message = .ok (db', result)) :
    expiredMessages db' rank nowMs queueName =
      (expiredMessages db rank nowMs queueName).filter
        fun other => other.messageId ≠ message.messageId := by
  obtain ⟨i, old, hmem, hqueue, hmessage, hfilter⟩ := reclaimExpiredMessage_filter nowMs h
  have htotal : Std.Total fun a b : Nat × MessageRow => rank a.1 ≤ rank b.1 :=
    ⟨fun a b => Nat.le_total _ _⟩
  have htrans : IsTrans (Nat × MessageRow) fun a b => rank a.1 ≤ rank b.1 :=
    ⟨fun _ _ _ => Nat.le_trans⟩
  simp only [expiredMessages]
  rw [hfilter, ← filter_insertionSort, List.filter_map]
  congr 1
  refine List.filter_congr fun e he => ?_
  have hrow := List.mem_filter.mp ((List.mem_insertionSort _).mp he)
  have hequeue := (isExpired_iff.mp hrow.2).1
  -- in one queue, the row and the message id determine each other
  have hiff : e.1 = i ↔ e.2.messageId = message.messageId := by
    constructor
    · intro hid
      rw [Table.eq_of_id hrow.1 hmem hid]
      exact hmessage
    · intro hid
      rw [expired_inj hrow.1 hmem hequeue hqueue (hid.trans hmessage.symm)]
  simp [hiff]

/-- The expired messages have different ids. -/
theorem nodup_expiredMessages (db : Database) (rank : Nat → Nat) (nowMs : Int)
    (queueName : String) :
    ((expiredMessages db rank nowMs queueName).map ExpiredMessage.messageId).Nodup := by
  rw [expiredMessages, List.map_map]
  have hrows : db.messages.rows.Nodup := db.messages.keys_nodup.of_map
  have hsorted := (List.perm_insertionSort (fun a b : Nat × MessageRow => rank a.1 ≤ rank b.1)
    (db.messages.rows.filter fun e => isExpired queueName nowMs e.2)).nodup_iff.mpr
      (hrows.filter _)
  refine hsorted.map_on fun d hd e he hid => ?_
  have hdrow := List.mem_filter.mp ((List.mem_insertionSort _).mp hd)
  have herow := List.mem_filter.mp ((List.mem_insertionSort _).mp he)
  exact expired_inj hdrow.1 herow.1 (isExpired_iff.mp hdrow.2).1 (isExpired_iff.mp herow.2).1 hid

section Cycle

variable {queueName : String} {attempts : ExpiredMessage → ReclaimAttempt}
  {failing : ExpiredMessage → Bool}

/-- The calls fail for the messages in `failing`, and for no others. -/
def FailsFor (failing : ExpiredMessage → Bool) (outcomes : ReclaimOutcomes) : Prop :=
  ∀ message outcome, (message, outcome) ∈ outcomes → outcome.isOk = !failing message

/-- The loop removes the messages that it does not fail on from the expired ones. -/
theorem expiredMessages_reclaimMessages (rank : Nat → Nat) (nowMs : Int)
    {messages : List ExpiredMessage} {db : Database}
    (h : FailsFor failing (reclaimMessages queueName attempts messages db).2) :
    expiredMessages (reclaimMessages queueName attempts messages db).1 rank nowMs queueName =
      (expiredMessages db rank nowMs queueName).filter fun other =>
        messages.all fun message => failing message || other.messageId ≠ message.messageId := by
  induction messages generalizing db with
  | nil =>
    exact (List.filter_eq_self.mpr fun _ _ => rfl).symm
  | cons message messages ih =>
    unfold reclaimMessages at h ih ⊢
    cases hrun : (attempts message).run db queueName message with
    | error err =>
      rw [attemptEach_error _ hrun] at h ⊢
      have hfails : failing message = true := by
        simpa [Except.isOk, Except.toBool] using (h message (.error err) List.mem_cons_self).symm
      simp only [ih fun m o hmem => h m o (List.mem_cons_of_mem _ hmem), List.all_cons, hfails,
        Bool.true_or, Bool.true_and]
    | ok reclaimed =>
      rw [attemptEach_ok _ hrun] at h ⊢
      have hfails : failing message = false := by
        simpa [Except.isOk, Except.toBool] using
          (h message (.ok reclaimed.2) List.mem_cons_self).symm
      have hreclaim : reclaimExpiredMessage db (attempts message).clock queueName message =
          .ok (reclaimed.1, reclaimed.2) := by
        unfold ReclaimAttempt.run at hrun
        split at hrun
        · cases hrun
        · exact hrun
      simp only [ih fun m o hmem => h m o (List.mem_cons_of_mem _ hmem),
        expiredMessages_reclaim rank nowMs hreclaim, List.filter_filter, List.all_cons, hfails,
        Bool.false_or]
      exact List.filter_congr fun _ _ => Bool.and_comm ..

/-- **One cycle**: it leaves expired what one batch leaves. -/
theorem expiredMessages_cycle {db : Database} {rank : Nat → Nat} {cycle : ReclaimCycle}
    (h : FailsFor failing (reclaimQueueMessages db rank cycle queueName).2) :
    expiredMessages (reclaimQueueMessages db rank cycle queueName).1 rank cycle.nowMs queueName =
      drainBatch reclaimBatchSize failing (expiredMessages db rank cycle.nowMs queueName) := by
  have hnodup := nodup_expiredMessages db rank cycle.nowMs queueName
  rw [reclaimQueueMessages, expiredMessages_reclaimMessages rank cycle.nowMs h,
    ← filter_eq_drainBatch _ _ hnodup.of_map]
  refine List.filter_congr fun other hother => ?_
  -- in the batch, the message id determines the message
  have hsame : ∀ message ∈ (expiredMessages db rank cycle.nowMs queueName).take
      reclaimBatchSize, other.messageId = message.messageId → other = message :=
    fun message hmessage => List.inj_on_of_nodup_map hnodup hother (List.mem_of_mem_take hmessage)
  rw [Bool.eq_iff_iff]
  simp only [List.all_eq_true, Bool.or_eq_true, decide_eq_true_eq]
  constructor
  · intro hall
    by_cases hfirst : other ∈ (expiredMessages db rank cycle.nowMs queueName).take reclaimBatchSize
    · exact .inl ((hall other hfirst).resolve_right fun hne => hne rfl)
    · exact .inr hfirst
  · rintro hkept message hmessage
    by_cases hid : other.messageId = message.messageId
    · obtain rfl := hsame message hmessage hid
      exact .inl (hkept.resolve_right fun hnot => hnot hmessage)
    · exact .inr hid

end Cycle

/-! ## Section 3: Consecutive cycles -/

/-- Consecutive cycles of `reclaimQueueMessages` on a queue. Between two cycles other operations
may run, but no message becomes due and what happens to the messages due is left to the cycles.
The messages in `failing` are those whose reclaim fails, always. -/
structure ReclaimRun where
  queueName : String
  rank : Nat → Nat
  db : Nat → Database
  cycle : Nat → ReclaimCycle
  undisturbed : ∀ k, expiredMessages (db (k + 1)) rank (cycle (k + 1)).nowMs queueName =
    expiredMessages (reclaimQueueMessages (db k) rank (cycle k) queueName).1 rank (cycle k).nowMs
      queueName
  failing : ExpiredMessage → Bool
  fails : ∀ k, FailsFor failing (reclaimQueueMessages (db k) rank (cycle k) queueName).2

namespace ReclaimRun

/-- The messages that are due at cycle `k`, in the order in which the query meets them. -/
def due (run : ReclaimRun) (k : Nat) : List ExpiredMessage :=
  expiredMessages (run.db k) run.rank (run.cycle k).nowMs run.queueName

/-- Cycle `k` reclaims the message. -/
def Reclaims (run : ReclaimRun) (k : Nat) (message : ExpiredMessage) : Prop :=
  ∃ result, (message, .ok result) ∈
    (reclaimQueueMessages (run.db k) run.rank (run.cycle k) run.queueName).2

/-- Every message whose reclaim does not fail is reclaimed, by as many cycles as there are messages
due. -/
def ReclaimsTheRest (run : ReclaimRun) : Prop :=
  ∀ message ∈ run.due 0, run.failing message = false →
    ∃ k < (run.due 0).length, run.Reclaims k message

theorem reclaims_iff (run : ReclaimRun) {k : Nat} {message : ExpiredMessage}
    (hfailing : run.failing message = false) :
    run.Reclaims k message ↔ message ∈ (run.due k).take reclaimBatchSize := by
  have htried : ((reclaimQueueMessages (run.db k) run.rank (run.cycle k) run.queueName).2.map
      Prod.fst) = (run.due k).take reclaimBatchSize := map_fst_attemptEach ..
  rw [← htried, List.mem_map]
  constructor
  · rintro ⟨result, hmem⟩
    exact ⟨_, hmem, rfl⟩
  · rintro ⟨⟨message, outcome⟩, hmem, rfl⟩
    have hok := run.fails k message outcome hmem
    cases outcome with
    | error err => simp [Except.isOk, Except.toBool, hfailing] at hok
    | ok result => exact ⟨result, hmem⟩

theorem drains (run : ReclaimRun) (n : Nat) :
    Drains reclaimBatchSize run.failing ((List.range (n + 1)).map run.due) := by
  refine (List.isChain_map _).mpr ((List.isChain_range_succ _ n).mpr fun k _ => ?_)
  exact (run.undisturbed k).trans (expiredMessages_cycle (run.fails k))

/-- A message is reclaimed exactly when the failing messages before it do not fill a batch. -/
theorem reclaimsTheRest_iff (run : ReclaimRun) :
    run.ReclaimsTheRest ↔ ∀ message ∈ run.due 0, run.failing message = false →
      failingAhead run.failing message (run.due 0) < reclaimBatchSize := by
  refine forall_congr' fun message => forall_congr' fun hdue => forall_congr' fun hfailing => ?_
  obtain ⟨n, hn⟩ := Nat.exists_eq_succ_of_ne_zero (Nat.ne_zero_of_lt (List.length_pos_of_mem hdue))
  have hdrains := run.drains n
  rw [List.range_succ_eq_map, List.map_cons] at hdrains
  rw [← hdrains.reached_iff hdue (by simp [hn]), ← List.map_cons, ← List.range_succ_eq_map]
  simp only [List.mem_map, List.mem_range, run.reclaims_iff hfailing, hn]
  constructor
  · rintro ⟨k, hk, hmem⟩
    exact ⟨_, ⟨k, hk, rfl⟩, hmem⟩
  · rintro ⟨_, ⟨k, hk, rfl⟩, hmem⟩
    exact ⟨k, hk, hmem⟩

end ReclaimRun

end Nzovu.Background
