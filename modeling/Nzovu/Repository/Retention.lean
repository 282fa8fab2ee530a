import Nzovu.Repository.KeepAlive
import Nzovu.Repository.QueueValidation
import Nzovu.Repository.Requeue

/-!
# Retention

A message that ends in a queue with a retention by duration is kept. The operation that ends it
writes the instant from which cleanup may delete it, a 64-bit sum of a clock reading and of a
64-bit product; the validator accepts every positive number of seconds.

- Section 1: the deletion instant.
- Section 2: the calls that end a message.
- Section 3: cleanup.
- Section 4: exactly when the row is kept long enough.
-/

namespace Nzovu.Repository

open Nzovu.Foundation
open Nzovu.Background

/-! ## Section 1: The deletion instant -/

/-- `nowMs + policy.RetentionSeconds * 1000`. -/
def deletionInstant (nowMs retentionSeconds : Int) : Int :=
  int64 (nowMs + int64 (retentionSeconds * 1000))

theorem calculateDeletion_retainDuration {policy : RetentionPolicy}
    (hmode : policy.mode = .retainDuration) (nowMs : Int) :
    calculateDeletion nowMs (some policy) =
      (false, some (deletionInstant nowMs policy.retentionSeconds)) := by
  simp [calculateDeletion, hmode, deletionInstant]

theorem isInstant_int64 (x : Int) : IsInstant (int64 x) := by
  have hlo := @Int.le_bmod x (2 ^ 64) (by decide)
  have hhi := @Int.bmod_lt x (2 ^ 64) (by decide)
  unfold int64 IsInstant
  omega

/-- An inner wrap is undone by the outer one. -/
theorem deletionInstant_eq (nowMs retentionSeconds : Int) :
    deletionInstant nowMs retentionSeconds = int64 (nowMs + retentionSeconds * 1000) :=
  Int.add_bmod_bmod ..

/-- The deletion instant leaves the retention, counted from `t`, exactly when the clock had not
moved on before `t` and the sum does not wrap. -/
theorem le_deletionInstant_iff {nowMs t retentionSeconds : Int} (hnow : IsInstant nowMs)
    (hpos : 0 < retentionSeconds) (ht : IsInstant t) :
    t + retentionSeconds * 1000 ≤ deletionInstant nowMs retentionSeconds ↔
      t ≤ nowMs ∧ nowMs + retentionSeconds * 1000 < 2 ^ 63 := by
  rw [deletionInstant_eq]
  by_cases hwraps : nowMs + retentionSeconds * 1000 < 2 ^ 63
  · rw [int64_eq_self (by have := hnow.1; omega) hwraps]
    omega
  · -- The wrapped sum is a multiple of 2^64 too small, and `t` is no less than -2^63.
    have hbelow : int64 (nowMs + retentionSeconds * 1000) <
        t + retentionSeconds * 1000 := by
      obtain ⟨k, hk⟩ : ∃ k, int64 (nowMs + retentionSeconds * 1000) =
          nowMs + retentionSeconds * 1000 - 2 ^ 64 * k := by
        refine ⟨(nowMs + retentionSeconds * 1000).bdiv (2 ^ 64), ?_⟩
        have hdiv := Int.bdiv_add_bmod (nowMs + retentionSeconds * 1000) (2 ^ 64)
        rw [Nat.cast_pow, Nat.cast_ofNat] at hdiv
        unfold int64
        omega
      have hrange := (isInstant_int64 (nowMs + retentionSeconds * 1000)).2
      have hlo := ht.1
      have hhi := hnow.2
      omega
    constructor
    · intro hle
      omega
    · intro h
      exact absurd h.2 hwraps

/-! ## Section 2: The calls that end a message -/

/-- A call that can end a message of a queue. -/
inductive TerminalCall
  | acknowledge (messageId attemptId workerId : String)
  | nack (messageId attemptId workerId : String)
  | reclaim (message : ExpiredMessage)
  | cancel (messageId reason : String)

namespace TerminalCall

/-- The database the call leaves. -/
def run (db : Database) (clock : Readings) (queueName : String) :
    TerminalCall → Except StorageError Database
  | acknowledge messageId attemptId workerId =>
    acknowledgeMessage db clock queueName messageId attemptId workerId
  | nack messageId attemptId workerId =>
    nackMessage db clock queueName messageId attemptId workerId
  | reclaim message => (reclaimExpiredMessage db clock queueName message).map Prod.fst
  | cancel messageId reason => cancelMessage db clock queueName messageId reason

/-- The clock reading from which the retention is counted. -/
def retentionTime (clock : Readings) : TerminalCall → Int
  | nack .. => clock 1
  | acknowledge .. | reclaim _ | cancel .. => clock 0

/-- The clock reading at which the message ends: the one written to `completed_at`. -/
def endTime (clock : Readings) : TerminalCall → Int
  | nack .. => clock 0
  | acknowledge .. | reclaim _ | cancel .. => clock 1

end TerminalCall

/-- The call ends row `i` of the queue, which then has the columns `row`. -/
structure Ends (db db' : Database) (clock : Readings) (queueName : String) (call : TerminalCall)
    (i : Nat) (row : MessageRow) : Prop where
  run : call.run db clock queueName = .ok db'
  live : ∀ old, (i, old) ∈ db.messages.rows → ¬ Terminal old.state
  mem : (i, row) ∈ db'.messages.rows
  terminal : Terminal row.state
  queue : row.queueName = queueName

/-- The queue keeps its messages for `policy.retentionSeconds` and has no dead letter queue of its
own name. -/
structure RetainsFor (db : Database) (queueName : String) (policy : RetentionPolicy) : Prop where
  mode : policy.mode = .retainDuration
  accepted : validateRetentionPolicy (some policy) = .ok ()
  range : IsInstant policy.retentionSeconds
  stored : ∃ metadata, db.queueMetadata? queueName = some metadata ∧
    metadata.messageRetentionPolicy = some policy ∧ metadata.deadLetterQueueName ≠ queueName

/-- The row that an update left at its place is the updated one. -/
theorem RowUpdated.eq_new {db db' : Database} {i j : Nat} {old new row : MessageRow}
    (h : RowUpdated db db' j old new) (hmem : (i, row) ∈ db'.messages.rows)
    (hchanged : (i, row) ∉ db.messages.rows) : i = j ∧ row = new := by
  rw [h.rows, Table.mem_setRow] at hmem
  rcases hmem with ⟨hold, -⟩ | ⟨heq, -⟩
  · exact absurd hold hchanged
  · exact Prod.mk.inj heq

theorem RowDeleted.mem_of_mem {db db' : Database} {j : Nat} {old : MessageRow}
    {e : Nat × MessageRow} (h : RowDeleted db db' j old) (hmem : e ∈ db'.messages.rows) :
    e ∈ db.messages.rows := by
  rw [h.rows, Table.mem_dropRow] at hmem
  exact hmem.1

section Ends

variable {db db' : Database} {clock : Readings} {queueName : String} {call : TerminalCall}
  {policy : RetentionPolicy} {i : Nat} {row : MessageRow}

theorem Ends.notMem (h : Ends db db' clock queueName call i row) : (i, row) ∉ db.messages.rows :=
  fun hold => h.live row hold h.terminal

/-- What the call wrote into the row: when it ended, and when it may be deleted. -/
def EndColumns (clock : Readings) (call : TerminalCall) (policy : RetentionPolicy)
    (row : MessageRow) : Prop :=
  row.completedAt = some (call.endTime clock) ∧
    row.deletedAt = some (deletionInstant (call.retentionTime clock) policy.retentionSeconds)

/-- **Call lemma**: each of the four calls writes both columns. -/
theorem Ends.columns (h : Ends db db' clock queueName call i row)
    (hqueue : RetainsFor db queueName policy) : EndColumns clock call policy row := by
  obtain ⟨metadata, hmeta, hpolicy, hdlq⟩ := hqueue.stored
  have hdeletion : ∀ nowMs, calculateDeletion nowMs metadata.messageRetentionPolicy =
      (false, some (deletionInstant nowMs policy.retentionSeconds)) := fun nowMs => by
    rw [hpolicy, calculateDeletion_retainDuration hqueue.mode]
  have hrun := h.run
  have hnot := h.notMem
  have hmem := h.mem
  have hsame : ∀ metadata', db.queueMetadata? queueName = some metadata' →
      metadata' = metadata := fun metadata' h' => Option.some.inj (h'.symm.trans hmeta)
  cases call with
  | acknowledge messageId attemptId workerId =>
    obtain ⟨metadata', j, old, hmeta', -, hcases⟩ := acknowledgeMessage_effect hrun
    obtain rfl := hsame metadata' hmeta'
    rcases hcases with ⟨-, hdel⟩ | ⟨-, hupd⟩
    · exact absurd (hdel.mem_of_mem hmem) hnot
    · obtain ⟨rfl, rfl⟩ := hupd.eq_new hmem hnot
      exact ⟨rfl, by simp only [completeRow, hdeletion, TerminalCall.retentionTime]⟩
  | nack messageId attemptId workerId =>
    obtain ⟨metadata', j, old, hmeta', -, hcases⟩ := nackMessage_effect hrun
    obtain rfl := hsame metadata' hmeta'
    rcases hcases with ⟨-, hupd⟩ | ⟨-, ⟨-, -, hdel⟩ | ⟨-, -, hupd⟩ | ⟨hne, hupd⟩⟩
    · obtain ⟨rfl, rfl⟩ := hupd.eq_new hmem hnot
      have hterminal := h.terminal
      simp [Terminal, retryRow] at hterminal
    · exact absurd (hdel.mem_of_mem hmem) hnot
    · obtain ⟨rfl, rfl⟩ := hupd.eq_new hmem hnot
      exact ⟨rfl, by simp only [exhaustRow, hdeletion, TerminalCall.retentionTime]⟩
    · obtain ⟨rfl, rfl⟩ := hupd.eq_new hmem hnot
      exact absurd h.queue hdlq
  | reclaim message =>
    simp only [TerminalCall.run] at hrun
    cases hreclaim : reclaimExpiredMessage db clock queueName message with
    | error err => simp [hreclaim, Except.map] at hrun
    | ok result =>
      obtain ⟨db₁, result⟩ := result
      obtain rfl : db₁ = db' := by simpa [hreclaim, Except.map] using hrun
      obtain ⟨metadata', j, old, hmeta', -, hcases, -⟩ := reclaimExpiredMessage_effect hreclaim
      obtain rfl := hsame metadata' hmeta'
      rcases hcases with ⟨hpending, hupd⟩ | ⟨-, ⟨-, -, hdel⟩ | ⟨-, -, hupd⟩ | ⟨hne, hupd⟩⟩
      · obtain ⟨rfl, rfl⟩ := hupd.eq_new hmem hnot
        have hterminal := h.terminal
        simp [Terminal, hpending] at hterminal
      · exact absurd (hdel.mem_of_mem hmem) hnot
      · obtain ⟨rfl, rfl⟩ := hupd.eq_new hmem hnot
        refine ⟨rfl, ?_⟩
        simp only [reclaimedRow, clearReclaimedRow, hdeletion, TerminalCall.retentionTime]
      · obtain ⟨rfl, rfl⟩ := hupd.eq_new hmem hnot
        exact absurd h.queue hdlq
  | cancel messageId reason =>
    obtain ⟨metadata', j, old, hmeta', -, -, -, hcases⟩ := cancelMessage_effect hrun
    obtain rfl := hsame metadata' hmeta'
    rcases hcases with ⟨-, hdel⟩ | ⟨-, hupd⟩
    · exact absurd (hdel.mem_of_mem hmem) hnot
    · obtain ⟨rfl, rfl⟩ := hupd.eq_new hmem hnot
      exact ⟨rfl, by simp only [cancelRow, hdeletion, TerminalCall.retentionTime]⟩

end Ends

/-! ## Section 3: Cleanup -/

/-- Cleanup never deletes a row before its deletion instant. -/
theorem mem_cleanupExpiredBatch {db after : Database} {nowMs deletedAt : Int} {limit n : Nat}
    {e : Nat × MessageRow} (h : cleanupExpiredBatch db nowMs limit = .ok (after, n))
    (hmem : e ∈ db.messages.rows) (hdeleted : e.2.deletedAt = some deletedAt)
    (hearly : nowMs < deletedAt) : e ∈ after.messages.rows := by
  obtain ⟨p, hremoved, hexpired⟩ := cleanupExpiredBatch_effect h
  rw [hremoved.rows]
  refine List.mem_filter.mpr ⟨hmem, ?_⟩
  cases hp : p e with
  | false => rfl
  | true =>
    have hdue := hexpired e hmem hp
    rw [hdeleted, Option.any_some, decide_eq_true_eq] at hdue
    omega

/-- The counters never stop a cleanup. -/
theorem removeGroupCounters_isOk (deleted : List (Nat × MessageRow)) (db : Database)
    (groups : List (String × MessageState)) :
    ∃ db', removeGroupCounters deleted db groups = .ok db' := by
  induction groups generalizing db with
  | nil => exact ⟨db, rfl⟩
  | cons group rest ih =>
    obtain ⟨queueName, state⟩ := group
    obtain ⟨db₁, hdb₁⟩ := removeCounters_isOk db queueName state
      (Table.tally_nonneg deleted (MessageRow.countsAs queueName state))
    obtain ⟨db', hdb'⟩ := ih db₁
    exact ⟨db', by simp only [removeGroupCounters, hdb₁, hdb']⟩

theorem removeGroupCounters_messages {deleted : List (Nat × MessageRow)} {db db' : Database}
    {groups : List (String × MessageState)}
    (h : removeGroupCounters deleted db groups = .ok db') : db'.messages = db.messages := by
  induction groups generalizing db with
  | nil =>
    cases h
    rfl
  | cons group rest ih =>
    simp only [removeGroupCounters] at h
    split at h
    · cases h
    · rename_i db₁ hremove
      rw [ih h]
      unfold removeCounters at hremove
      split at hremove
      · cases hremove
      · split at hremove <;> cases hremove <;> rfl

/-- The rows a cleanup keeps: all but the selected ones. -/
theorem cleanupExpiredBatch_rows (db : Database) (nowMs : Int) (limit : Nat) :
    ∃ after n, cleanupExpiredBatch db nowMs limit = .ok (after, n) ∧
      ∀ e ∈ after.messages.rows, e.1 ∉ (expiredRows db nowMs limit).map Prod.fst := by
  simp only [cleanupExpiredBatch]
  generalize (expiredRows db nowMs limit).map Prod.fst = ids
  generalize hdeleted : db.messages.rows.filter (fun e => decide (e.1 ∈ ids)) = deleted
  obtain ⟨after, hafter⟩ := removeGroupCounters_isOk deleted
    (db.deleteMessages fun e => decide (e.1 ∈ ids)) (countGroups deleted)
  refine ⟨after, deleted.length, by rw [hafter], fun e he => ?_⟩
  rw [removeGroupCounters_messages hafter] at he
  simpa using (List.mem_filter.mp he).2

/-- A batch that is large enough deletes every row that is due. -/
theorem cleanupExpiredBatch_deletes {db : Database} {nowMs deletedAt : Int} {e : Nat × MessageRow}
    (hmem : e ∈ db.messages.rows) (hdeleted : e.2.deletedAt = some deletedAt)
    (hdue : deletedAt ≤ nowMs) :
    ∃ after n, cleanupExpiredBatch db nowMs db.messages.rows.length = .ok (after, n) ∧
      e ∉ after.messages.rows := by
  obtain ⟨after, n, hcleanup, hkept⟩ :=
    cleanupExpiredBatch_rows db nowMs db.messages.rows.length
  refine ⟨after, n, hcleanup, fun hstays => hkept e hstays (List.mem_map_of_mem ?_)⟩
  have hexpired : e ∈ db.messages.rows.filter fun e => e.2.deletedAt.any (· ≤ nowMs) :=
    List.mem_filter.mpr ⟨hmem, by rw [hdeleted, Option.any_some]; exact decide_eq_true hdue⟩
  rw [expiredRows, List.take_of_length_le]
  · exact (List.mem_insertionSort _).mpr hexpired
  · rw [List.length_insertionSort]
    exact List.length_filter_le ..

/-! ## Section 4: Kept long enough -/

/-- Before `t` plus the retention no cleanup deletes the row, in whatever batch and beside
whatever other rows. -/
def KeptFrom (t : Int) (policy : RetentionPolicy) (e : Nat × MessageRow) : Prop :=
  ∀ (db after : Database) (nowMs : Int) (limit n : Nat), IsInstant nowMs →
    nowMs < t + policy.retentionSeconds * 1000 → e ∈ db.messages.rows →
      cleanupExpiredBatch db nowMs limit = .ok (after, n) → e ∈ after.messages.rows

/-- **Retention**: a row that ends in a queue with a retention is kept long enough exactly when the
retention is counted from the end or later and its end is an instant. -/
theorem keptFrom_iff {db db' : Database} {clock : Readings} {queueName : String}
    {policy : RetentionPolicy} {call : TerminalCall} {i : Nat} {row : MessageRow}
    (hclock : ∀ k, IsInstant (clock k)) (hqueue : RetainsFor db queueName policy)
    (hends : Ends db db' clock queueName call i row) :
    KeptFrom (call.endTime clock) policy (i, row) ↔
      call.endTime clock ≤ call.retentionTime clock ∧
        call.retentionTime clock + policy.retentionSeconds * 1000 < 2 ^ 63 := by
  obtain ⟨-, hdeleted⟩ := hends.columns hqueue
  have hpos := retentionSeconds_pos hqueue.accepted hqueue.mode
  have hend : IsInstant (call.endTime clock) := by cases call <;> exact hclock _
  have hretention : IsInstant (call.retentionTime clock) := by cases call <;> exact hclock _
  rw [← le_deletionInstant_iff hretention hpos hend]
  constructor
  · intro hkept
    by_contra hshort
    -- cleanup in the very instant the row carries
    obtain ⟨after, n, hcleanup, hgone⟩ :=
      cleanupExpiredBatch_deletes hends.mem hdeleted (Int.le_refl _)
    exact hgone (hkept db' after _ _ n (isInstant_int64 _) (Int.not_le.mp hshort) hends.mem
      hcleanup)
  · intro hlong nowMs after now limit n _ hearly hmem hcleanup
    exact mem_cleanupExpiredBatch hcleanup hmem hdeleted (by omega)

/-- A queue with this retention, and a message in it. -/
def retainingQueue (retentionSeconds : Int) : List Operation :=
  [.createQueue "jobs"
    { messageRetentionPolicy := some ⟨.retainDuration, retentionSeconds⟩ },
   .enqueue (fun _ => 0) "jobs" ⟨"m", some ⟨.pending, 3, 3, 0, none, some
    ⟨some ⟨30, 0⟩, none, none, none, 0⟩⟩⟩]

/-- Its row, cancelled after a second. -/
def canceledRow (retentionSeconds : Int) : MessageRow :=
  cancelRow 1000 (some (deletionInstant 1000 retentionSeconds)) none
    (newRow "jobs" "m" ⟨.pending, 3, 3, 0, none, some ⟨some ⟨30, 0⟩, none, none, none, 0⟩⟩
      none 0 0)

theorem ends_canceledRow {retentionSeconds : Int}
    (h : retentionSeconds = 3600 ∨ retentionSeconds = 9223372036854775) :
    ∃ db', RetainsFor (System.run (retainingQueue retentionSeconds)).db "jobs"
        ⟨.retainDuration, retentionSeconds⟩ ∧
      Ends (System.run (retainingQueue retentionSeconds)).db db' (fun _ => 1000) "jobs"
        (.cancel "m" "") 1 (canceledRow retentionSeconds) := by
  have hlive : ∀ old, (1, old) ∈ (System.run (retainingQueue retentionSeconds)).db.messages.rows →
      ¬ Terminal old.state := by
    intro old hold
    obtain rfl : old = newRow "jobs" "m" ⟨.pending, 3, 3, 0, none, some
        ⟨some ⟨30, 0⟩, none, none, none, 0⟩⟩ none 0 0 := by
      rcases h with rfl | rfl <;> exact (Prod.mk.inj (List.mem_singleton.mp hold)).2
    simp [Terminal, newRow]
  rcases h with rfl | rfl
  · exact ⟨_, ⟨rfl, by decide, by decide, _, rfl, rfl, by decide⟩,
      ⟨rfl, hlive, by decide, .inr (.inl rfl), rfl⟩⟩
  · exact ⟨_, ⟨rfl, by decide, by decide, _, rfl, rfl, by decide⟩,
      ⟨rfl, hlive, by decide, .inr (.inl rfl), rfl⟩⟩

/-- An hour. -/
theorem keptFrom_hour :
    KeptFrom 1000 ⟨.retainDuration, 3600⟩ (1, canceledRow 3600) := by
  obtain ⟨db', hqueue, hends⟩ := ends_canceledRow (.inl rfl)
  exact (keptFrom_iff (fun _ => by decide) hqueue hends).mpr (by decide)

/-- A retention of 292 million years is accepted, and over at once. -/
theorem not_keptFrom_wrapped :
    ¬ ∀ (db db' : Database) (clock : Readings) (queueName : String) (policy : RetentionPolicy)
      (call : TerminalCall) (i : Nat) (row : MessageRow), (∀ k, IsInstant (clock k)) →
      RetainsFor db queueName policy → Ends db db' clock queueName call i row →
        KeptFrom (call.endTime clock) policy (i, row) := by
  intro h
  obtain ⟨db', hqueue, hends⟩ := ends_canceledRow (.inr rfl)
  have hkept := h _ db' _ _ _ _ _ _ (fun _ => by decide) hqueue hends
  -- cleanup runs in the millisecond of the cancellation
  obtain ⟨after, n, hcleanup, hgone⟩ :=
    @cleanupExpiredBatch_deletes db' 1000 (deletionInstant 1000 9223372036854775)
      (1, canceledRow 9223372036854775) hends.mem rfl (by decide)
  exact hgone (hkept db' after 1000 _ n (by decide) (by decide) hends.mem hcleanup)

end Nzovu.Repository
