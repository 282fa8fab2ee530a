import Nzovu.Repository.History

/-!
# Attempt Accounting

How `attempts_left` and the number of deliveries of a message develop. Rejections recognise
unlimited retries by `attempts_left = -1`, reclaims by `max_attempts = -1`, and a requeue without
a reset returns a message to its queue with the `attempts_left` it had when it was exhausted.

- Section 1 states what accounting means and the invariant that carries it.
- Section 2 proves the invariant for each transition, Section 3 for runs.
- Section 4 shows that the runs whose rejections and reclaims spare exhausted messages are
  exactly those in which the accounting holds.
-/

namespace Nzovu.Repository

open Nzovu.Foundation
open Nzovu.Background

/-! ## Section 1: Accounting -/

/-- The attempt counters of every message are sound: unlimited ones keep the marker, the others
stay within their maximum and are delivered no more often than that before the next requeue. -/
structure AttemptsOk (h : History) : Prop where
  unlimited : ∀ e ∈ h.system.db.messages.rows, e.2.maxAttempts = -1 → e.2.attemptsLeft = -1
  bounded : ∀ e ∈ h.system.db.messages.rows, e.2.maxAttempts ≠ -1 →
    0 ≤ e.2.attemptsLeft ∧ e.2.attemptsLeft ≤ e.2.maxAttempts
  delivered : ∀ e ∈ h.system.db.messages.rows, e.2.maxAttempts ≠ -1 →
    deliveries e.1 h.log ≤ e.2.maxAttempts

/-- A message with `m` attempts: deliveries and remaining attempts together stay within `m`
while it waits, and within `m + 1` while an attempt is running. -/
structure FiniteAccount (delivered : Int) (row : MessageRow) : Prop where
  max_pos : 1 ≤ row.maxAttempts
  left_nonneg : 0 ≤ row.attemptsLeft
  left_le : row.attemptsLeft ≤ row.maxAttempts
  delivered_le : delivered ≤ row.maxAttempts
  waiting : row.state = .invisible ∨ row.state = .pending →
    delivered + row.attemptsLeft ≤ row.maxAttempts ∧ (row.attemptsLeft = 0 → delivered = 0)
  running : row.state = .running → delivered + row.attemptsLeft ≤ row.maxAttempts + 1

/-- The invariant of one row. -/
structure Account (delivered : Int) (row : MessageRow) : Prop where
  stored : row.metadata.maxAttempts = row.maxAttempts
  counted : (row.maxAttempts = -1 ∧ row.attemptsLeft = -1) ∨ FiniteAccount delivered row

/-- The invariant of the table. -/
structure Accounts (log : List (Nat × RowEvent)) (db : Database) : Prop where
  bounded : LogBounded log db
  rows : ∀ e ∈ db.messages.rows, Account (deliveries e.1 log) e.2

theorem Accounts.attemptsOk {h : History} (hacc : Accounts h.log h.system.db) :
    AttemptsOk h := by
  have hfinite : ∀ e ∈ h.system.db.messages.rows, e.2.maxAttempts ≠ -1 →
      FiniteAccount (deliveries e.1 h.log) e.2 := fun e he hmax =>
    (hacc.rows e he).counted.resolve_left fun hinf => hmax hinf.1
  refine ⟨fun e he hmax => ?_, fun e he hmax => ?_, fun e he hmax => ?_⟩
  · rcases (hacc.rows e he).counted with hinf | hfin
    · exact hinf.2
    · have hpos := hfin.max_pos
      omega
  · exact ⟨(hfinite e he hmax).left_nonneg, (hfinite e he hmax).left_le⟩
  · exact (hfinite e he hmax).delivered_le

/-! ## Section 2: Transitions -/

/-- A posted message with accepted attempt fields starts a sound account. -/
theorem account_newRow {metadata : MessageMetadata} (h : AttemptsAccepted metadata)
    (queueName messageId : String) (scheduledAt : Option Int) (createdAt updatedAt : Int) :
    Account 0 (newRow queueName messageId metadata scheduledAt createdAt updatedAt) := by
  refine ⟨rfl, ?_⟩
  rcases h with hinf | ⟨hleft, hmax⟩
  · exact .inl hinf
  · right
    constructor <;> simp only [newRow] <;> intros <;> omega

/-- An attempt that ends with an exhausted counter: the transition would make it `-1`. -/
def Overdraws (row : MessageRow) (event : Option RowEvent) : Prop :=
  (event = some .rejected ∨ event = some .reclaimed) ∧ row.maxAttempts ≠ -1 ∧
    row.attemptsLeft = 0

section Transitions

variable {delivered : Int} {old new : MessageRow} {event : Option RowEvent}

/-- Unlimited retries: every transition leaves the marker in place. -/
theorem RowTransition.unlimited (ht : RowTransition old event new)
    (hstored : old.metadata.maxAttempts = old.maxAttempts) (hmax : old.maxAttempts = -1)
    (hleft : old.attemptsLeft = -1) : new.maxAttempts = -1 ∧ new.attemptsLeft = -1 := by
  cases ht with
  | requeue target reset nowMs h =>
    cases reset with
    | true => exact ⟨hmax, hstored.trans hmax⟩
    | false => exact ⟨hmax, hleft⟩
  | retry nowMs h => simp [retryRow, clearLease, decrementAttempts, hmax, hleft]
  | exhaust queueName nowMs deletedAt h hexh =>
    rw [hleft] at hexh
    exact absurd rfl hexh.1
  | reclaim => simp [reclaimedRow, clearReclaimedRow, clearLease, reclaimRow, hmax]
  | _ => exact ⟨hmax, hleft⟩

/-- A claim takes a delivery, an ended attempt takes one off the counter, and only a requeue forgets
the deliveries. -/
theorem FiniteAccount.transition (hfin : FiniteAccount delivered old)
    (hstored : old.metadata.maxAttempts = old.maxAttempts) (ht : RowTransition old event new)
    (hspare : ¬ Overdraws old event) :
    FiniteAccount (event.elim delivered (deliveredAfter delivered)) new := by
  obtain ⟨hpos, hnonneg, hle, hdel, hwait, hrun⟩ := hfin
  have hfinite : old.maxAttempts ≠ -1 := by omega
  cases ht with
  | claim req runtime nowMs h =>
    -- with no attempts left, a waiting message has not been delivered since its requeue
    obtain ⟨hsum, hzero⟩ := hwait (.inr h.state)
    refine ⟨hpos, hnonneg, hle, ?_, by simp [claimRow], fun _ => ?_⟩
    · show delivered + 1 ≤ old.maxAttempts
      rcases eq_or_ne old.attemptsLeft 0 with hz | hz
      · have hfirst := hzero hz
        omega
      · omega
    · show delivered + 1 + old.attemptsLeft ≤ old.maxAttempts + 1
      omega
  | retry nowMs h hexh =>
    have hleft : old.attemptsLeft ≠ 0 := fun hz => hspare ⟨.inl rfl, hfinite, hz⟩
    have hsum := hrun h
    have hdec : decrementAttempts old.attemptsLeft = old.attemptsLeft - 1 :=
      if_pos (by omega)
    have hmore : 1 < old.attemptsLeft := by
      rw [NackExhausts, hdec] at hexh
      omega
    refine ⟨hpos, ?_, ?_, hdel, fun _ => ?_, by simp [retryRow]⟩ <;>
      simp only [retryRow, clearLease, hdec, Option.elim_some, deliveredAfter] <;> omega
  | exhaust queueName nowMs deletedAt h hexh =>
    -- the last attempt was running
    have hdec : decrementAttempts old.attemptsLeft = old.attemptsLeft - 1 :=
      if_pos (by omega)
    have hone : old.attemptsLeft = 1 := by
      rw [NackExhausts, hdec] at hexh
      omega
    refine ⟨hpos, ?_, ?_, hdel, by simp [exhaustRow], by simp [exhaustRow]⟩ <;>
      simp only [exhaustRow, clearLease, hdec] <;> omega
  | reclaim queueName completedAt deletedAt nowMs h =>
    have hleft : old.attemptsLeft ≠ 0 := fun hz => hspare ⟨.inr rfl, hfinite, hz⟩
    have hsum := hrun h
    have hnew : (reclaimedRow queueName completedAt deletedAt nowMs old).attemptsLeft =
        old.attemptsLeft - 1 := if_neg hfinite
    refine ⟨hpos, ?_, ?_, hdel, fun hstate => ?_, fun hstate => ?_⟩
    · omega
    · rw [hnew]
      exact Int.le_trans (by omega) hle
    · -- Only a message with more than one attempt left waits again.
      rw [hnew]
      have hmore : 1 < old.attemptsLeft := by
        by_contra hfew
        have herr : reclaimState old = .errored := if_neg (by omega)
        rw [reclaimedRow_state, herr] at hstate
        rcases hstate with h | h <;> cases h
      constructor
      · show delivered + (old.attemptsLeft - 1) ≤ old.maxAttempts
        omega
      · omega
    · rw [reclaimedRow_state] at hstate
      rcases reclaimState_cases old with hs | hs <;> rw [hs] at hstate <;> cases hstate
  | requeue target reset nowMs h =>
    -- deliveries count from the requeue on, with a full counter or with what was left
    cases reset with
    | true =>
      refine ⟨hpos, ?_, ?_, ?_, fun _ => ⟨?_, fun _ => rfl⟩, by simp [requeueRow]⟩ <;>
        simp only [requeueRow, requeueAttempts, Option.elim_some, deliveredAfter, hstored,
          if_true] <;> omega
    | false =>
      refine ⟨hpos, ?_, ?_, ?_, fun _ => ⟨?_, fun _ => rfl⟩, by simp [requeueRow]⟩ <;>
        simp only [requeueRow, requeueAttempts, Option.elim_some, deliveredAfter,
          Bool.false_eq_true, if_false] <;> omega
  | complete => exact ⟨hpos, hnonneg, hle, hdel, by simp [completeRow], by simp [completeRow]⟩
  | cancel => exact ⟨hpos, hnonneg, hle, hdel, by simp [cancelRow], by simp [cancelRow]⟩
  | extend runtime nowMs h => exact ⟨hpos, hnonneg, hle, hdel, hwait, hrun⟩
  | heartbeat nowMs expiry lease used renewals h =>
    exact ⟨hpos, hnonneg, hle, hdel, hwait, hrun⟩
  | activate nowMs h =>
    exact ⟨hpos, hnonneg, hle, hdel, fun _ => hwait (.inl h), by simp [activateRow]⟩

/-- **Transition lemma**: every transition that does not overdraw keeps the account. -/
theorem Account.transition (hacc : Account delivered old) (ht : RowTransition old event new)
    (hspare : ¬ Overdraws old event) :
    Account (event.elim delivered (deliveredAfter delivered)) new := by
  refine ⟨?_, ?_⟩
  · cases ht <;> exact hacc.stored
  · rcases hacc.counted with ⟨hmax, hleft⟩ | hfin
    · exact .inl (ht.unlimited hacc.stored hmax hleft)
    · exact .inr (hfin.transition hacc.stored ht hspare)

end Transitions

section Changes

variable {adds : Additions} {log : List (Nat × RowEvent)} {db db' : Database}
  {event : Option (Nat × RowEvent)}

/-- The event overdraws no message that stays in the table. -/
def SparesRows (db db' : Database) (event : Option (Nat × RowEvent)) : Prop :=
  ∀ i e, event = some (i, e) → ∀ old new, (i, old) ∈ db.messages.rows →
    (i, new) ∈ db'.messages.rows → ¬ Overdraws old (some e)

theorem Accounts.change (hacc : Accounts log db)
    (hadds : ∀ metadata, adds.message metadata → AttemptsAccepted metadata)
    (hspare : SparesRows db db' event) (h : Change adds db db' event) :
    Accounts (event.toList ++ log) db' := by
  refine ⟨hacc.bounded.change h, ?_⟩
  intro ⟨i, row⟩ hmem
  cases h.origin hmem with
  | kept hold hother =>
    rw [deliveries_other hother]
    exact hacc.rows (i, row) hold
  | inserted queueName messageId metadata scheduledAt createdAt updatedAt hid hnew hevent hrow =>
    -- A fresh id has no events yet.
    subst hid hevent hrow
    have hnone : deliveries db.messages.nextId log = 0 := deliveries_of_fresh hacc.bounded
    show Account (deliveries db.messages.nextId log) _
    rw [hnone]
    exact account_newRow (hadds metadata hnew) queueName messageId scheduledAt createdAt updatedAt
  | changed old e hold ht hevent =>
    subst hevent
    have hbefore : Account (deliveries i log) old := hacc.rows (i, old) hold
    cases e with
    | none =>
      apply hbefore.transition ht
      rintro ⟨hevent | hevent, -⟩ <;> cases hevent
    | some e =>
      have hafter := hbefore.transition ht (hspare i e rfl old row hold hmem)
      simpa [deliveries] using hafter

theorem Accounts.changes (hacc : Accounts log db)
    (hadds : ∀ metadata, adds.message metadata → AttemptsAccepted metadata)
    (hspare : SparesRows db db' event) (h : Changes adds db db' event) :
    Accounts (event.toList ++ log) db' := by
  have hsilent : ∀ db db', SparesRows db db' none := fun _ _ _ _ hevent => by cases hevent
  induction h with
  | refl => exact hacc
  | single hchange => exact hacc.change hadds hspare hchange
  | step hchange _ ih =>
    exact ih (hacc.change hadds (hsilent _ _) hchange) (hsilent _ _)

end Changes

/-! ## Section 3: Runs -/

/-- What the service checks before it calls the storage layer: `QueueValidator` on a new queue,
`RetryValidator` on a posted message. -/
def Operation.Accepted : Operation → Prop
  | .createQueue _ metadata => -1 ≤ metadata.defaultMaxAttempts
  | .enqueue _ _ message => ∀ m, message.metadata = some m → AttemptsAccepted m
  | .enqueueBulk _ _ messages _ =>
    ∀ message ∈ messages, ∀ m, message.metadata = some m → AttemptsAccepted m
  | _ => True

/-- The default attempts of a queue are `-1` or more. -/
def DefaultsValid (db : Database) : Prop :=
  ∀ c ∈ db.configs, -1 ≤ c.metadata.defaultMaxAttempts

theorem DefaultsValid.change {adds : Additions} {db db' : Database}
    {event : Option (Nat × RowEvent)} (hvalid : DefaultsValid db)
    (hadds : ∀ metadata, adds.queue metadata → -1 ≤ metadata.defaultMaxAttempts)
    (h : Change adds db db' event) : DefaultsValid db' := by
  cases h with
  | unchanged h => rwa [h]
  | inserted _ _ _ _ _ _ _ h => rwa [DefaultsValid, h.configs]
  | updated i old new event h => rwa [DefaultsValid, h.configs]
  | deleted i old event h => rwa [DefaultsValid, h.configs]
  | removed p h => rwa [DefaultsValid, h.configs]
  | queueInserted queue hnew _ h =>
    rw [DefaultsValid, configs_queueInserted h]
    intro c hc
    rcases List.mem_append.mp hc with hc | hc
    · exact hvalid c hc
    · cases List.mem_singleton.mp hc
      exact hadds _ hnew
  | queueDeleted name _ h =>
    subst h
    exact fun c hc => hvalid c (mem_configs_deleteQueueRow.mp hc).1

section Additions

variable {s : System} {op : Operation}

theorem queue_additions (hop : op.Accepted) {metadata : QueueMetadata}
    (h : (s.additions op).queue metadata) : -1 ≤ metadata.defaultMaxAttempts := by
  cases op with
  | createQueue name m =>
    rcases h with rfl | rfl
    · -- `CreateQueue` replaces a zero by the default of three attempts.
      have hm : -1 ≤ m.defaultMaxAttempts := hop
      simp only [completeQueueMetadata, defaultMaxRetryAttempts]
      split <;> omega
    · decide
  | _ => cases h

theorem message_additions (hop : op.Accepted) (hvalid : DefaultsValid s.db)
    {metadata : MessageMetadata} (h : (s.additions op).message metadata) :
    AttemptsAccepted metadata := by
  cases op with
  | enqueue clock queueName message => exact hop metadata h
  | enqueueBulk clock queueName messages mode =>
    obtain ⟨message, hmem, hm⟩ := h
    exact hop message hmem metadata hm
  | createRun clock run =>
    obtain ⟨queueMetadata, hqueue, rfl⟩ := h
    obtain ⟨c, hc, -, rfl⟩ := queueMetadata?_eq_some.mp hqueue
    have hdefault := hvalid c hc
    simp only [AttemptsAccepted, scheduleMessageMetadata]
    split <;> omega
  | _ => cases h

end Additions

/-- The reclaim of the row succeeds and leaves it in the table. -/
def ReclaimKeeps (db : Database) (clock : Readings) (queueName : String) (i : Nat)
    (row : MessageRow) : Prop :=
  ∀ metadata, db.queueMetadata? queueName = some metadata → ¬ HeldInDlq db metadata i row ∧
    ¬ (metadata.deadLetterQueueName = "" ∧
      (calculateDeletion (clock 0) metadata.messageRetentionPolicy).1 = true)

/-- The operation neither rejects nor reclaims a message with limited attempts and none left,
unless the reclaim is refused or deletes the message. -/
def SparesExhausted (h : History) : Operation → Prop
  | .nack clock queueName messageId attemptId workerId =>
    ∀ e ∈ h.system.db.messages.rows, Owns queueName messageId attemptId workerId (clock 0) e.2 →
      e.2.maxAttempts ≠ -1 → e.2.attemptsLeft ≠ 0
  | .reclaim clock queueName message =>
    ∀ e ∈ h.system.db.messages.rows,
      Reclaimable queueName message.messageId message.attemptId (clock 1) e.2 →
      ReclaimKeeps h.system.db clock queueName e.1 e.2 →
      e.2.maxAttempts ≠ -1 → e.2.attemptsLeft ≠ 0
  | _ => True

theorem reclaimState_of_spent {row : MessageRow} (hmax : row.maxAttempts ≠ -1)
    (hleft : row.attemptsLeft = 0) : reclaimState row = .errored :=
  if_neg (by omega)

/-- What a successful reclaim of a spent message does. -/
theorem reclaim_spent {db db' : Database} {clock : Readings} {queueName : String}
    {message : ExpiredMessage} {result : ReclaimResult} {i : Nat} {row : MessageRow}
    (hmem : (i, row) ∈ db.messages.rows)
    (hrec : Reclaimable queueName message.messageId message.attemptId (clock 1) row)
    (hexh : reclaimState row = .errored)
    (h : reclaimExpiredMessage db clock queueName message = .ok (db', result)) :
    ∃ metadata, db.queueMetadata? queueName = some metadata ∧
      ((metadata.deadLetterQueueName = "" ∧
          (calculateDeletion (clock 0) metadata.messageRetentionPolicy).1 = true ∧
          ∀ new, (i, new) ∉ db'.messages.rows) ∨
        (¬ (metadata.deadLetterQueueName = "" ∧
          (calculateDeletion (clock 0) metadata.messageRetentionPolicy).1 = true) ∧
          ∃ target completedAt deletedAt,
            (i, reclaimedRow target completedAt deletedAt (clock 1) row) ∈ db'.messages.rows)) := by
  obtain ⟨metadata, j, old, hmeta, hrec', hout, -⟩ := reclaimExpiredMessage_effect h
  have hold : (j, old) ∈ db.messages.rows := by
    rcases hout with ⟨-, h⟩ | ⟨-, ⟨-, -, h⟩ | ⟨-, -, h⟩ | ⟨-, h⟩⟩ <;> exact h.mem
  cases ((selects_reclaimable hmem hrec).2 _ hold).mp (reclaimable_iff.mpr hrec')
  refine ⟨metadata, hmeta, ?_⟩
  rcases hout with ⟨hpend, -⟩ | ⟨-, ⟨hdlq, hret, hdel⟩ | ⟨-, hret, hupd⟩ | ⟨hdlq, hupd⟩⟩
  · rw [hexh] at hpend
    cases hpend
  · exact .inl ⟨hdlq, hret, hdel.not_mem⟩
  · exact .inr ⟨fun hdel => by simp [hret] at hdel, _, _, _, hupd.mem_new⟩
  · exact .inr ⟨fun hdel => hdlq hdel.1, _, _, _, hupd.mem_new⟩

/-- A step that spares exhausted messages overdraws none. -/
theorem SparesExhausted.rows {h : History} {op : Operation} (hdlqs : DlqsExist h.system.db)
    (hspare : SparesExhausted h op) :
    SparesRows h.system.db (h.system.step op).db (h.system.event op) := by
  rintro i e hevent old new hold hnew ⟨hkind, hmax, hleft⟩
  cases op with
  | nack clock queueName messageId attemptId workerId =>
    obtain ⟨-, -, row, hmem, hown⟩ := touched_eq_some hevent
    cases Table.eq_of_id hold hmem rfl
    exact hspare (i, old) hold (owned_iff.mp hown) hmax hleft
  | reclaim clock queueName message =>
    obtain ⟨-, ⟨⟨db', result⟩, hok⟩, row, hmem, hp⟩ := touched_eq_some hevent
    cases Table.eq_of_id hold hmem rfl
    have hrec := reclaimable_iff.mp hp
    have hexh := reclaimState_of_spent hmax hleft
    have hnew' : (i, new) ∈ db'.messages.rows := by
      simpa [History.step, System.step, hok, System.commit, Except.map] using hnew
    apply hspare (i, old) hold hrec ?_ hmax hleft
    intro metadata hmeta
    constructor
    · have hqueue : old.queueName = queueName := hrec.queue
      subst hqueue
      exact (reclaimExpiredMessage_isOk_iff _ hdlqs hold hmeta hrec hexh).mp ⟨_, hok⟩
    · obtain ⟨metadata', hmeta', ⟨-, -, hgone⟩ | ⟨hkeep, -⟩⟩ := reclaim_spent hold hrec hexh hok
      · exact absurd hnew' (hgone new)
      · cases hmeta.symm.trans hmeta'
        exact hkeep
  | claim clock req =>
    simp only [System.event] at hevent
    split at hevent
    · obtain ⟨d, -, hd⟩ := Option.map_eq_some_iff.mp hevent
      cases hd
      rcases hkind with hkind | hkind <;> cases hkind
    · cases hevent
  | acknowledge | extend | heartbeat | retryDLQ =>
    obtain ⟨rfl, -⟩ := touched_eq_some hevent
    rcases hkind with hkind | hkind <;> cases hkind
  | _ => cases hevent

/-- **Step lemma**: an accepted operation that spares exhausted messages keeps the accounts. -/
theorem Accounts.step {h : History} {op : Operation} (hwf : WellFormed h.system)
    (hdlqs : DlqsExist h.system.db)
    (hacc : Accounts h.log h.system.db ∧ DefaultsValid h.system.db)
    (hop : SparesExhausted h op ∧ op.Accepted) :
    Accounts (h.step op).log (h.step op).system.db ∧ DefaultsValid (h.step op).system.db := by
  have hchanges := step_changes hwf op
  constructor
  · exact hacc.1.changes (fun _ => message_additions hop.2 hacc.2) (hop.1.rows hdlqs) hchanges
  · exact hchanges.preserves' (fun _ _ _ hvalid => hvalid.change fun _ => queue_additions hop.2)
      hacc.2

theorem accounts_run {ops : List Operation} (hops : ∀ op ∈ ops, op.Accepted)
    (hspare : Follows History.step SparesExhausted .empty ops) :
    Accounts (History.run ops).log (History.run ops).system.db ∧
      DefaultsValid (History.run ops).system.db := by
  refine invariant_history (P := fun h => Accounts h.log h.system.db ∧ DefaultsValid h.system.db)
    ?_ (fun h op hwf hdlqs => Accounts.step hwf hdlqs) (Follows.and_forall _ hspare hops)
  refine ⟨⟨?_, ?_⟩, ?_⟩ <;> exact fun _ hmem => absurd hmem List.not_mem_nil

/-! ## Section 4: When the accounting holds -/

/-- Rejecting a message with no attempts left puts it back with the marker of unlimited
retries. -/
theorem not_attemptsOk_nack {h : History} {clock : Readings}
    {queueName messageId attemptId workerId : String} {i : Nat} {row : MessageRow}
    (hmem : (i, row) ∈ h.system.db.messages.rows)
    (hown : Owns queueName messageId attemptId workerId (clock 0) row)
    (hmax : row.maxAttempts ≠ -1) (hleft : row.attemptsLeft = 0) :
    ¬ AttemptsOk (h.step (.nack clock queueName messageId attemptId workerId)) := by
  have hsome : (h.system.db.queueMetadata? queueName).isSome = true := by
    have hkey := h.system.db.foreignKey _ hmem
    rw [hown.queue, ← Table.lookup_isSome] at hkey
    simpa [Database.queueMetadata?] using hkey
  obtain ⟨metadata, hmeta⟩ := Option.isSome_iff_exists.mp hsome
  have hmore : ¬ NackExhausts row.attemptsLeft := by
    rw [hleft]
    decide
  obtain ⟨db', hok⟩ : ∃ db',
      nackMessage h.system.db clock queueName messageId attemptId workerId = .ok db' := by
    simp only [nackMessage, getQueueMetadata_of_eq hmeta, find?_owned hmem hown]
    exact ⟨_, if_neg hmore⟩
  obtain ⟨_, j, old, -, hown', ⟨-, hupd⟩ | ⟨hexh, hterm⟩⟩ := nackMessage_effect hok
  · cases ((selects_owned hmem hown).2 _ hupd.mem).mp (owned_iff.mpr hown')
    have hnew : (i, retryRow (decrementAttempts row.attemptsLeft) (clock 0) row) ∈
        (h.step (.nack clock queueName messageId attemptId workerId)).system.db.messages.rows := by
      simpa [History.step, System.step, hok, System.commit] using hupd.mem_new
    intro hatt
    have hbound := (hatt.bounded _ hnew hmax).1
    simp [retryRow, hleft, decrementAttempts] at hbound
  · have hold : (j, old) ∈ h.system.db.messages.rows := by
      rcases hterm with ⟨-, -, h⟩ | ⟨-, -, h⟩ | ⟨-, h⟩ <;> exact h.mem
    cases ((selects_owned hmem hown).2 _ hold).mp (owned_iff.mpr hown')
    exact absurd hexh hmore

/-- Reclaiming a message with no attempts left stores the marker with it. -/
theorem not_attemptsOk_reclaim {h : History} {clock : Readings} {queueName : String}
    {message : ExpiredMessage} {i : Nat} {row : MessageRow} (hdlqs : DlqsExist h.system.db)
    (hmem : (i, row) ∈ h.system.db.messages.rows)
    (hrec : Reclaimable queueName message.messageId message.attemptId (clock 1) row)
    (hkeeps : ReclaimKeeps h.system.db clock queueName i row)
    (hmax : row.maxAttempts ≠ -1) (hleft : row.attemptsLeft = 0) :
    ¬ AttemptsOk (h.step (.reclaim clock queueName message)) := by
  have hexh := reclaimState_of_spent hmax hleft
  obtain ⟨metadata, hmeta⟩ : ∃ metadata, h.system.db.queueMetadata? row.queueName =
      some metadata := by
    obtain ⟨c, hc, hname⟩ := hasKey_iff_configs.mp (h.system.db.foreignKey _ hmem)
    exact ⟨c.metadata, queueMetadata?_eq_some.mpr ⟨c, hc, hname, rfl⟩⟩
  have hqueue : row.queueName = queueName := hrec.queue
  subst hqueue
  obtain ⟨⟨db', result⟩, hok⟩ := (reclaimExpiredMessage_isOk_iff _ hdlqs hmem hmeta hrec hexh).mpr
    (hkeeps metadata hmeta).1
  obtain ⟨metadata', hmeta', ⟨hdlq, hret, -⟩ | ⟨-, target, completedAt, deletedAt, hnew⟩⟩ :=
    reclaim_spent hmem hrec hexh hok
  · cases hmeta.symm.trans hmeta'
    exact absurd ⟨hdlq, hret⟩ (hkeeps metadata hmeta).2
  · have hrow : (i, reclaimedRow target completedAt deletedAt (clock 1) row) ∈
        (h.step (.reclaim clock row.queueName message)).system.db.messages.rows := by
      simpa [History.step, System.step, hok, System.commit, Except.map] using hnew
    intro hatt
    have hbound := (hatt.bounded _ hrow hmax).1
    have hvalue : (reclaimedRow target completedAt deletedAt (clock 1) row).attemptsLeft =
        row.attemptsLeft - 1 := if_neg hmax
    rw [hvalue, hleft] at hbound
    exact absurd hbound (by decide)

/-- **Attempt accounting**: on a run of accepted operations the accounting holds in every state
if and only if every rejection and every reclaim of the run spares exhausted messages. -/
theorem attemptsOk_iff_sparesExhausted {ops : List Operation}
    (hops : ∀ op ∈ ops, op.Accepted) :
    (∀ xs, xs <+: ops → AttemptsOk (History.run xs)) ↔
      Follows History.step SparesExhausted .empty ops := by
  constructor
  · intro hall
    by_contra hnot
    obtain ⟨xs, op, ys, rfl, hxs, hviol⟩ := exists_first_violation History.step hnot
    have hprefix : AttemptsOk (History.run (xs ++ [op])) :=
      hall _ ⟨ys, by rw [List.append_assoc]; rfl⟩
    rw [History.run, runFrom_concat] at hprefix
    have hdlqs : DlqsExist (runFrom History.step .empty xs).system.db := by
      rw [system_runFrom]
      exact dlqsExist_run xs
    cases op with
    | nack clock queueName messageId attemptId workerId =>
      apply hviol
      intro e hmem hown hmax hleft
      exact not_attemptsOk_nack hmem hown hmax hleft hprefix
    | reclaim clock queueName message =>
      apply hviol
      intro e hmem hrec hkeeps hmax hleft
      exact not_attemptsOk_reclaim hdlqs hmem hrec hkeeps hmax hleft hprefix
    | _ => exact hviol trivial
  · rintro hspare xs ⟨ys, rfl⟩
    have hxs := (follows_append History.step).mp hspare
    have hacc := accounts_run (fun op hop => hops op (List.mem_append_left _ hop)) hxs.1
    exact hacc.1.attemptsOk

/-- A message whose only attempt fails, which is requeued without a reset and fails again. -/
def requeuedWithoutReset : List Operation :=
  onlyAttempt ++ [.nack (fun _ => 20) "jobs" "m" "a" "w",
    .retryDLQ (fun _ => 30) "jobs_dlq" "m" "jobs" false,
    .claim (fun _ => 40) ⟨"jobs", "w", "b", "", 0, 0, "g", "", generatedAttemptId_ne⟩,
    .nack (fun _ => 50) "jobs" "m" "b" "w"]

theorem accepted_onlyAttempt : ∀ op ∈ onlyAttempt, op.Accepted := by
  intro op hop
  simp only [onlyAttempt, List.mem_cons, List.not_mem_nil, or_false] at hop
  rcases hop with rfl | rfl | rfl
  · show -1 ≤ (0 : Int)
    decide
  · rintro m ⟨⟩
    exact .inr ⟨by decide, by decide⟩
  · trivial

theorem accepted_requeuedWithoutReset : ∀ op ∈ requeuedWithoutReset, op.Accepted := by
  intro op hop
  rcases List.mem_append.mp hop with hop | hop
  · exact accepted_onlyAttempt op hop
  · simp only [List.mem_cons, List.not_mem_nil, or_false] at hop
    rcases hop with rfl | rfl | rfl | rfl <;> trivial

/-- Up to its first failure the message is accounted for. -/
theorem attemptsOk_onlyAttempt :
    (∀ op ∈ onlyAttempt, op.Accepted) ∧ ∀ xs, xs <+: onlyAttempt → AttemptsOk (History.run xs) :=
  ⟨accepted_onlyAttempt, (attemptsOk_iff_sparesExhausted accepted_onlyAttempt).mpr
    ⟨trivial, trivial, trivial, trivial⟩⟩

/-- After the second failure it is retried without limit. -/
theorem not_attemptsOk_requeuedWithoutReset :
    ¬ (∀ ops : List Operation, (∀ op ∈ ops, op.Accepted) → AttemptsOk (History.run ops)) := by
  intro h
  have hbound := (h requeuedWithoutReset accepted_requeuedWithoutReset).bounded
  have hrow : ∃ e ∈ (History.run requeuedWithoutReset).system.db.messages.rows,
      e.2.maxAttempts ≠ -1 ∧ e.2.attemptsLeft < 0 := by decide
  obtain ⟨e, he, hmax, hneg⟩ := hrow
  exact absurd (hbound e he hmax).1 (Int.not_le.mpr hneg)

end Nzovu.Repository
