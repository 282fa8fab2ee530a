import Nzovu.Background.Services

/-!
# Effects of the Storage Operations

One theorem per operation: what a successful run of it did, as an effect on a single row (or on
a set of deleted rows), together with the guard the row satisfied. Everything later is derived
from these theorems; no other module unfolds an operation to find out what it changes.

## Layers

- Section 1 reads the guards back as structures with named fields.
- Sections 2 and 3 treat the operations on messages and on dead letters.
- Section 4 treats the background services and the queue operations.
-/

namespace Nzovu.Repository

open Nzovu.Foundation

/-! ## Section 1: Guards -/

/-- The row is held by `(attemptId, workerId)` and neither expiry has passed at `nowMs`. -/
structure Owns (queueName messageId attemptId workerId : String) (nowMs : Int)
    (row : MessageRow) : Prop where
  queue : row.queueName = queueName
  message : row.messageId = messageId
  state : row.state = .running
  attempt : row.currentAttemptId = some attemptId
  worker : row.currentWorkerId = some workerId
  lease : leaseLive nowMs row = true
  heartbeat : heartbeatLive nowMs row = true
  notDeleted : row.deletedAt = none

theorem addressed_iff {queueName messageId : String} {row : MessageRow} :
    addressed queueName messageId row = true ↔
      row.queueName = queueName ∧ row.messageId = messageId := by
  simp [addressed]

theorem owned_iff {queueName messageId attemptId workerId : String} {nowMs : Int}
    {row : MessageRow} :
    owned queueName messageId attemptId workerId nowMs row = true ↔
      Owns queueName messageId attemptId workerId nowMs row := by
  constructor
  · intro h
    simp only [owned, addressed, Bool.and_eq_true, decide_eq_true_eq] at h
    obtain ⟨⟨⟨⟨⟨⟨⟨hq, hm⟩, hs⟩, ha⟩, hw⟩, hl⟩, hh⟩, hd⟩ := h
    exact ⟨hq, hm, hs, ha, hw, hl, hh, hd⟩
  · intro h
    simp [owned, addressed, h.queue, h.message, h.state, h.attempt, h.worker, h.lease,
      h.heartbeat, h.notDeleted]

/-- The row is RUNNING under the captured attempt and one of its expiries has passed. -/
structure Reclaimable (queueName messageId attemptId : String) (nowMs : Int)
    (row : MessageRow) : Prop where
  queue : row.queueName = queueName
  message : row.messageId = messageId
  state : row.state = .running
  attempt : attemptMatches attemptId row = true
  expired : anyExpired nowMs row = true
  notDeleted : row.deletedAt = none

theorem reclaimable_iff {queueName messageId attemptId : String} {nowMs : Int}
    {row : MessageRow} :
    reclaimable queueName messageId attemptId nowMs row = true ↔
      Reclaimable queueName messageId attemptId nowMs row := by
  constructor
  · intro h
    simp only [reclaimable, addressed, Bool.and_eq_true, decide_eq_true_eq] at h
    obtain ⟨⟨⟨⟨⟨hq, hm⟩, hs⟩, ha⟩, he⟩, hd⟩ := h
    exact ⟨hq, hm, hs, ha, he, hd⟩
  · intro h
    simp [reclaimable, addressed, h.queue, h.message, h.state, h.attempt, h.expired,
      h.notDeleted]

/-- The row waits in the queue and its scheduled time has come. -/
structure Claimable (queueName : String) (nowMs : Int) (row : MessageRow) : Prop where
  queue : row.queueName = queueName
  state : row.state = .pending
  due : row.scheduledAt.all (· ≤ nowMs) = true
  notDeleted : row.deletedAt = none

theorem claimable_iff {queueName : String} {nowMs : Int} {row : MessageRow} :
    claimable queueName nowMs row = true ↔ Claimable queueName nowMs row := by
  constructor
  · intro h
    simp only [claimable, Bool.and_eq_true, decide_eq_true_eq] at h
    exact ⟨h.1.1.1, h.1.1.2, h.1.2, h.2⟩
  · intro h
    simp [claimable, h.queue, h.state, h.due, h.notDeleted]

/-- An expired heartbeat is exactly one that is not live. -/
theorem heartbeatExpired_eq_not (nowMs : Int) (row : MessageRow) :
    heartbeatExpired nowMs row = !heartbeatLive nowMs row := by
  unfold heartbeatExpired heartbeatLive
  cases row.heartbeatExpiry with
  | none => rfl
  | some expiry =>
    simp only [Option.any_some, Option.all_some, Bool.not_or]
    congr 1 <;> simp [← decide_not]

/-- A statement that fixes queue and message id selects one row. -/
theorem selects_of_addressed {db : Database} {p : Nat × MessageRow → Bool}
    {d : Nat × MessageRow} (queueName messageId : String) (hd : d ∈ db.messages.rows)
    (hp : p d = true)
    (haddr : ∀ e, p e = true → e.2.queueName = queueName ∧ e.2.messageId = messageId) :
    Table.Selects db.messages.rows p d := by
  refine Table.selects_of_key hd hp fun e he => ?_
  obtain ⟨hq, hm⟩ := haddr e he
  obtain ⟨hq', hm'⟩ := haddr d hp
  simp only [MessageRow.uniqueKey, hq, hm, hq', hm']

theorem selects_owned {db : Database} {d : Nat × MessageRow}
    {queueName messageId attemptId workerId : String} {nowMs : Int} (hd : d ∈ db.messages.rows)
    (h : Owns queueName messageId attemptId workerId nowMs d.2) :
    Table.Selects db.messages.rows
      (fun e => owned queueName messageId attemptId workerId nowMs e.2) d :=
  selects_of_addressed queueName messageId hd (owned_iff.mpr h) fun _ he =>
    ⟨(owned_iff.mp he).queue, (owned_iff.mp he).message⟩

theorem selects_addressed {db : Database} {d : Nat × MessageRow} {queueName messageId : String}
    (hd : d ∈ db.messages.rows) (hq : d.2.queueName = queueName)
    (hm : d.2.messageId = messageId) :
    Table.Selects db.messages.rows (fun e => addressed queueName messageId e.2) d :=
  selects_of_addressed queueName messageId hd (addressed_iff.mpr ⟨hq, hm⟩) fun _ he =>
    addressed_iff.mp he

theorem selects_addressed_state {db : Database} {d : Nat × MessageRow}
    {queueName messageId : String} {state : MessageState} (hd : d ∈ db.messages.rows)
    (hq : d.2.queueName = queueName) (hm : d.2.messageId = messageId) (hs : d.2.state = state) :
    Table.Selects db.messages.rows
      (fun e => addressed queueName messageId e.2 && e.2.state = state) d := by
  refine selects_of_addressed queueName messageId hd ?_ fun e he => ?_
  · simp [addressed, hq, hm, hs]
  · exact addressed_iff.mp (Bool.and_eq_true_iff.mp he).1

theorem getQueueMetadata_eq_ok {db : Database} {name : String} {metadata : QueueMetadata}
    (h : getQueueMetadata db name = .ok metadata) : db.queueMetadata? name = some metadata := by
  unfold getQueueMetadata at h
  split at h
  · cases h
    assumption
  · cases h

theorem find?_eq_some {db : Database} {p : Nat × MessageRow → Bool} {e : Nat × MessageRow}
    (h : db.messages.find? p = some e) : e ∈ db.messages.rows ∧ p e = true :=
  ⟨List.mem_of_find?_eq_some h, List.find?_some h⟩

/-! ## Section 2: Operations on messages -/

/-- An enqueued message becomes a row of its queue. -/
theorem enqueueMessageInTx_effect {db db' : Database} {clock : Readings} {queueName : String}
    {message : Message} (h : enqueueMessageInTx db clock queueName message = .ok db') :
    ∃ metadata, message.metadata = some metadata ∧
      RowInserted db db' (newRow queueName message.messageId metadata
        (metadata.scheduledTime.map unixMilli) (clock 0) (clock 1)) := by
  unfold enqueueMessageInTx at h
  split at h
  · cases h
  · rename_i metadata hmeta
    split at h
    · cases h
    · cases h
    · rename_i db₁ hins
      cases h
      exact ⟨metadata, hmeta, rowInserted_insertCounter hins⟩

theorem firstByPriority_mem {rows : List (Nat × MessageRow)} {e : Nat × MessageRow}
    (h : firstByPriority rows = some e) : e ∈ rows := by
  induction rows generalizing e with
  | nil => cases h
  | cons d rest ih =>
    simp only [firstByPriority] at h
    split at h
    · cases h
      exact List.mem_cons_self
    · rename_i d' hd'
      split at h
      · cases h
        exact List.mem_cons_of_mem _ (ih hd')
      · cases h
        exact List.mem_cons_self

theorem selectClaimable_eq_some {db : Database} {queueName : String} {nowMs : Int}
    {level : Option PriorityLevel} {e : Nat × MessageRow}
    (h : selectClaimable db queueName nowMs level = some e) :
    e ∈ db.messages.rows ∧ Claimable queueName nowMs e.2 := by
  obtain ⟨hmem, hp⟩ := List.mem_filter.mp (firstByPriority_mem h)
  rw [Bool.and_eq_true] at hp
  exact ⟨hmem, claimable_iff.mp hp.1⟩

theorem selectCandidate_eq_some {db : Database} {queueName : String} {nowMs : Int}
    {level : Option PriorityLevel} {e : Nat × MessageRow}
    (h : selectCandidate db queueName nowMs level = some e) :
    e ∈ db.messages.rows ∧ Claimable queueName nowMs e.2 := by
  unfold selectCandidate at h
  split at h
  -- The level's own candidate, or else the first of any level.
  · rename_i d hd
    cases h
    exact selectClaimable_eq_some hd
  · split at h
    · exact selectClaimable_eq_some h
    · cases h

/-- The row a claim returned, as it was and as it is now. -/
structure Claimed (db db' : Database) (clock : Readings) (req : ClaimRequest) (i : Nat)
    (old : MessageRow) (policy : LeasePolicy) : Prop where
  claimable : Claimable req.queueName (clock 2) old
  leasePolicy : old.metadata.leasePolicy = some policy
  updated : RowUpdated db db' i old
    (claimRow req.attempt req.worker (claimRuntime policy req.leaseDuration (clock 3))
      (clock 2) old)

theorem takeLease_effect {db db' : Database} {clock : Readings} {req : ClaimRequest}
    {e : Nat × MessageRow} {claimed : Option (Nat × MessageRow)} (hmem : e ∈ db.messages.rows)
    (hclaimable : Claimable req.queueName (clock 2) e.2)
    (h : takeLease db clock req e = .ok (db', claimed)) :
    ∃ policy, Claimed db db' clock req e.1 e.2 policy ∧
      claimed = some (e.1, claimRow req.attempt req.worker
        (claimRuntime policy req.leaseDuration (clock 3)) (clock 2) e.2) := by
  unfold takeLease at h
  split at h
  · cases h
  · rename_i policy hpolicy
    cases h
    refine ⟨policy, ⟨hclaimable, hpolicy, ?_⟩, rfl⟩
    -- The UPDATE addresses the selected candidate by its id.
    have hsel : Table.Selects db.messages.rows (fun d => decide (d.1 = e.1)) e :=
      Table.selects_of_id hmem (by simp) fun d hd => by simpa using hd
    have hrew := RowRewritten.of_modifyMessages (f := claimRow req.attempt req.worker
      (claimRuntime policy req.leaseDuration (clock 3)) (clock 2)) (fun _ => rfl) hsel
    have hupd := hrew.updateCounters rfl
    rw [hclaimable.queue] at hupd
    exact hupd

/-- A claim returns nothing and changes nothing, or takes one claimable row. -/
theorem claimMessageWithLeaseDuration_effect {db db' : Database} {clock : Readings}
    {req : ClaimRequest} {claimed : Option (Nat × MessageRow)}
    (h : claimMessageWithLeaseDuration db clock req = .ok (db', claimed)) :
    (claimed = none ∧ db' = db) ∨
      ∃ metadata i old policy, db.queueMetadata? req.queueName = some metadata ∧
        (metadata.type = .exclusive →
          hasActiveLease db.messages.rows req.queueName (clock 1) = false) ∧
        Claimed db db' clock req i old policy ∧
        claimed = some (i, claimRow req.attempt req.worker
          (claimRuntime policy req.leaseDuration (clock 3)) (clock 2) old) := by
  unfold claimMessageWithLeaseDuration at h
  split at h
  · cases h
  · rename_i metadata hmeta
    split at h
    · cases h
    · split at h
      · cases h
      · cases h
        exact .inl ⟨rfl, rfl⟩
      · split at h
        · cases h
          exact .inl ⟨rfl, rfl⟩
        · rename_i hactive
          split at h
          · cases h
            exact .inl ⟨rfl, rfl⟩
          · rename_i e he
            obtain ⟨hmem, hclaimable⟩ := selectCandidate_eq_some he
            obtain ⟨policy, hclaimed, hres⟩ := takeLease_effect hmem hclaimable h
            refine .inr ⟨metadata, e.1, e.2, policy, getQueueMetadata_eq_ok hmeta, ?_, hclaimed,
              hres⟩
            -- A queue that is not exclusive is claimed without this test.
            intro hexcl
            simpa [hexcl] using hactive

/-- The owner's row was completed: deleted, or kept until its retention ends. -/
theorem acknowledgeMessage_effect {db db' : Database} {clock : Readings}
    {queueName messageId attemptId workerId : String}
    (h : acknowledgeMessage db clock queueName messageId attemptId workerId = .ok db') :
    ∃ metadata i old, db.queueMetadata? queueName = some metadata ∧
      Owns queueName messageId attemptId workerId (clock 1) old ∧
      (((calculateDeletion (clock 0) metadata.messageRetentionPolicy).1 = true ∧
          RowDeleted db db' i old) ∨
        ((calculateDeletion (clock 0) metadata.messageRetentionPolicy).1 = false ∧
          RowUpdated db db' i old (completeRow (clock 1)
            (calculateDeletion (clock 0) metadata.messageRetentionPolicy).2 old))) := by
  unfold acknowledgeMessage at h
  split at h
  · cases h
  · rename_i metadata hmeta
    simp only at h
    split at h
    · cases h
    · rename_i hrows
      obtain ⟨e, hmem, hp⟩ := List.countP_pos_iff.mp (Nat.pos_of_ne_zero hrows)
      have hown := owned_iff.mp hp
      have hsel := selects_owned hmem hown
      refine ⟨metadata, e.1, e.2, getQueueMetadata_eq_ok hmeta, hown, ?_⟩
      obtain rfl := hown.queue
      split at h
      · rename_i hdel
        rw [← hown.state] at h
        exact .inl ⟨hdel, rowDeleted_removeCounter hsel h⟩
      · rename_i hdel
        cases h
        have hrew := RowRewritten.of_modifyMessages (f := completeRow (clock 1)
          (calculateDeletion (clock 0) metadata.messageRetentionPolicy).2) (fun _ => rfl) hsel
        have hupd := hrew.updateCounters rfl
        rw [hown.state] at hupd
        exact .inr ⟨by simpa using hdel, hupd⟩

/-- How an exhausted message leaves RUNNING: deleted by its retention policy, or kept ERRORED
in the dead letter queue or, without one, in its own queue. -/
def NackTerminal (db db' : Database) (clock : Readings) (metadata : QueueMetadata)
    (queueName : String) (i : Nat) (old : MessageRow) : Prop :=
  let dlqName := metadata.deadLetterQueueName
  let deletion := calculateDeletion (clock 1) metadata.messageRetentionPolicy
  (dlqName = "" ∧ deletion.1 = true ∧ RowDeleted db db' i old) ∨
  (dlqName = "" ∧ deletion.1 = false ∧ RowUpdated db db' i old
    (exhaustRow queueName (decrementAttempts old.attemptsLeft) (clock 0) deletion.2 old)) ∨
  (dlqName ≠ "" ∧ RowUpdated db db' i old
    (exhaustRow dlqName (decrementAttempts old.attemptsLeft) (clock 0) none old))

theorem nackExhausted_effect {db db' : Database} {clock : Readings} {metadata : QueueMetadata}
    {guard : Nat × MessageRow → Bool} {e : Nat × MessageRow}
    (hsel : Table.Selects db.messages.rows guard e)
    (h : nackExhausted db clock metadata e.2.queueName guard e.2 = .ok db') :
    NackTerminal db db' clock metadata e.2.queueName e.1 e.2 := by
  simp only [nackExhausted] at h
  -- The retention policy is only consulted for a queue without dead letter queue.
  by_cases hdlq : metadata.deadLetterQueueName = ""
  · simp only [hdlq, ne_eq, not_true_eq_false, if_false] at h
    split at h
    · rename_i hdel
      exact .inl ⟨hdlq, hdel, rowDeleted_removeCounter hsel h⟩
    · rename_i hdel
      split at h
      · cases h
      · rename_i db₁ hupd
        cases h
        have hrow := (RowRewritten.of_updateMessages hsel hupd).updateCounters rfl
        exact .inr (.inl ⟨hdlq, by simpa using hdel, hrow⟩)
  · simp only [hdlq, ne_eq, not_false_eq_true, if_true, Bool.false_eq_true, if_false] at h
    split at h
    · cases h
    · rename_i db₁ hupd
      cases h
      have hrow := (RowRewritten.of_updateMessages hsel hupd).moveCounter
      exact .inr (.inr ⟨hdlq, hrow⟩)

/-- The owner's row was returned to PENDING, or left RUNNING for good. -/
theorem nackMessage_effect {db db' : Database} {clock : Readings}
    {queueName messageId attemptId workerId : String}
    (h : nackMessage db clock queueName messageId attemptId workerId = .ok db') :
    ∃ metadata i old, db.queueMetadata? queueName = some metadata ∧
      Owns queueName messageId attemptId workerId (clock 0) old ∧
      ((¬ NackExhausts old.attemptsLeft ∧ RowUpdated db db' i old
          (retryRow (decrementAttempts old.attemptsLeft) (clock 0) old)) ∨
        (NackExhausts old.attemptsLeft ∧
          NackTerminal db db' clock metadata queueName i old)) := by
  unfold nackMessage at h
  split at h
  · cases h
  · rename_i metadata hmeta
    simp only at h
    split at h
    · cases h
    · rename_i i old hfind
      obtain ⟨hmem, hp⟩ := find?_eq_some hfind
      have hown := owned_iff.mp hp
      have hsel := selects_owned hmem hown
      refine ⟨metadata, i, old, getQueueMetadata_eq_ok hmeta, hown, ?_⟩
      obtain rfl := hown.queue
      split at h
      · rename_i hexh
        exact .inr ⟨hexh, nackExhausted_effect hsel h⟩
      · rename_i hexh
        cases h
        have hrew := RowRewritten.of_modifyMessages
          (f := retryRow (decrementAttempts old.attemptsLeft) (clock 0)) (fun _ => rfl) hsel
        exact .inl ⟨hexh, hrew.updateCounters rfl⟩

/-- A waiting row was cancelled: deleted, or kept until its retention ends. -/
theorem cancelMessage_effect {db db' : Database} {clock : Readings}
    {queueName messageId reason : String}
    (h : cancelMessage db clock queueName messageId reason = .ok db') :
    ∃ metadata i old, db.queueMetadata? queueName = some metadata ∧
      old.queueName = queueName ∧ old.messageId = messageId ∧
      (old.state = .invisible ∨ old.state = .pending) ∧
      (((calculateDeletion (clock 0) metadata.messageRetentionPolicy).1 = true ∧
          RowDeleted db db' i old) ∨
        ((calculateDeletion (clock 0) metadata.messageRetentionPolicy).1 = false ∧
          RowUpdated db db' i old (cancelRow (clock 1)
            (calculateDeletion (clock 0) metadata.messageRetentionPolicy).2
            (if reason ≠ "" then some reason else none) old))) := by
  unfold cancelMessage at h
  split at h
  · cases h
  · rename_i metadata hmeta
    split at h
    · cases h
    · rename_i i old hfind
      obtain ⟨hmem, hp⟩ := find?_eq_some hfind
      obtain ⟨hq, hm⟩ := addressed_iff.mp hp
      split at h
      · cases h
      · rename_i hstate
        have hwaiting : old.state = .invisible ∨ old.state = .pending := by
          by_contra hnot
          exact hstate (not_or.mp hnot)
        have hsel : Table.Selects db.messages.rows (fun e => addressed queueName messageId e.2 &&
            (e.2.state = .invisible || e.2.state = .pending)) (i, old) := by
          refine selects_of_addressed queueName messageId hmem ?_ fun e he => ?_
          · simpa [addressed_iff.mpr ⟨hq, hm⟩] using hwaiting
          · exact addressed_iff.mp (Bool.and_eq_true_iff.mp he).1
        refine ⟨metadata, i, old, getQueueMetadata_eq_ok hmeta, hq, hm, hwaiting, ?_⟩
        obtain rfl := hq
        simp only at h
        split at h
        · rename_i hdel
          exact .inl ⟨hdel, rowDeleted_removeCounter hsel h⟩
        · rename_i hdel
          cases h
          have hrew := RowRewritten.of_modifyMessages (f := cancelRow (clock 1)
            (calculateDeletion (clock 0) metadata.messageRetentionPolicy).2
            (if reason ≠ "" then some reason else none)) (fun _ => rfl) hsel
          exact .inr ⟨by simpa using hdel, hrew.updateCounters rfl⟩

/-- The owner's lease was extended. -/
theorem extendMessageLease_effect {db db' : Database} {clock : Readings}
    {queueName messageId attemptId workerId : String} {extensionMs remaining : Int}
    (h : extendMessageLease db clock queueName messageId attemptId workerId extensionMs =
      .ok (db', remaining)) :
    ∃ i old runtime, Owns queueName messageId attemptId workerId (clock 0) old ∧
      renewalLimitReached old.metadata.leasePolicy old.leaseRenewalCount = false ∧
      extendLease old.metadata.leasePolicy (old.leaseExpiry.getD 0) old.leaseExtensionUsed
        extensionMs = .ok runtime ∧
      RowUpdated db db' i old (extendRow runtime (clock 0) old) := by
  simp only [extendMessageLease] at h
  split at h
  · cases h
  · rename_i i old hfind
    obtain ⟨hmem, hp⟩ := find?_eq_some hfind
    have hown := owned_iff.mp hp
    split at h
    · cases h
    · rename_i hlimit
      split at h
      · cases h
      · rename_i runtime hextend
        cases h
        have hrew := RowRewritten.of_modifyMessages (f := extendRow runtime (clock 0))
          (fun _ => rfl) (selects_owned hmem hown)
        exact ⟨i, old, runtime, hown, by simpa using hlimit, hextend, hrew.uncounted rfl rfl⟩

/-- The owner's heartbeat was recorded; the lease moved on when the policy lets it. -/
theorem heartbeatMessage_effect {db db' : Database} {clock : Readings}
    {queueName messageId attemptId workerId : String} {state : MessageState} {remaining : Int}
    (h : heartbeatMessage db clock queueName messageId attemptId workerId =
      .ok (db', state, remaining)) :
    ∃ i old expiry used renewals,
      Owns queueName messageId attemptId workerId (clock 0) old ∧
      RowUpdated db db' i old (heartbeatRow (clock 0)
        (nextHeartbeatExpiry old.metadata.leasePolicy (clock 0)) expiry used renewals old) ∧
      ((heartbeatExtends old.metadata.leasePolicy old = true ∧ ∃ runtime,
          extendLease old.metadata.leasePolicy (old.leaseExpiry.getD 0) old.leaseExtensionUsed
            (milliseconds (asDuration (old.metadata.leasePolicy.bind (·.extendStep)))) =
              .ok runtime ∧
          expiry = runtime.leaseExpiry ∧ used = runtime.leaseExtensionUsed ∧
          renewals = old.leaseRenewalCount + 1) ∨
        (heartbeatExtends old.metadata.leasePolicy old = false ∧
          expiry = old.leaseExpiry.getD 0 ∧ used = old.leaseExtensionUsed ∧
          renewals = old.leaseRenewalCount)) := by
  simp only [heartbeatMessage] at h
  split at h
  · cases h
  · rename_i i old hfind
    obtain ⟨hmem, hp⟩ := find?_eq_some hfind
    have hown := owned_iff.mp hp
    have hsel := selects_owned hmem hown
    -- Extended or not, one UPDATE writes the heartbeat and the three lease columns.
    have hupdated : ∀ expiry used renewals, RowUpdated db
        (db.modifyMessages (fun e => owned queueName messageId attemptId workerId (clock 0) e.2)
          (heartbeatRow (clock 0) (nextHeartbeatExpiry old.metadata.leasePolicy (clock 0)) expiry
            used renewals) fun _ => rfl) i old
        (heartbeatRow (clock 0) (nextHeartbeatExpiry old.metadata.leasePolicy (clock 0)) expiry
          used renewals old) := fun expiry used renewals =>
      (RowRewritten.of_modifyMessages (f := heartbeatRow (clock 0) _ expiry used renewals)
        (fun _ => rfl) hsel).uncounted rfl rfl
    split at h
    · rename_i hext
      split at h
      · cases h
      · rename_i runtime hextend
        cases h
        exact ⟨i, old, _, _, _, hown, hupdated _ _ _, .inl ⟨hext, runtime, hextend, rfl, rfl, rfl⟩⟩
    · rename_i hext
      cases h
      exact ⟨i, old, _, _, _, hown, hupdated _ _ _, .inr ⟨by simpa using hext, rfl, rfl, rfl⟩⟩

/-! ## Section 3: Reclaiming and dead letters -/

/-- The row a reclaim leaves behind when it does not delete it. -/
def reclaimedRow (queueName : String) (completedAt deletedAt : Option Int) (nowMs : Int)
    (row : MessageRow) : MessageRow :=
  { clearReclaimedRow completedAt deletedAt (reclaimRow nowMs row) with queueName := queueName }

@[simp] theorem reclaimedRow_state (queueName : String) (completedAt deletedAt : Option Int)
    (nowMs : Int) (row : MessageRow) :
    (reclaimedRow queueName completedAt deletedAt nowMs row).state = reclaimState row := rfl

/-- What a reclaim did with the row: back to PENDING, or terminal in one of three ways. -/
def ReclaimOutcome (db db' : Database) (clock : Readings) (metadata : QueueMetadata)
    (queueName : String) (i : Nat) (old : MessageRow) : Prop :=
  let dlqName := metadata.deadLetterQueueName
  let deletion := calculateDeletion (clock 0) metadata.messageRetentionPolicy
  (reclaimState old = .pending ∧
    RowUpdated db db' i old (reclaimedRow queueName none none (clock 1) old)) ∨
  (reclaimState old = .errored ∧
    ((dlqName = "" ∧ deletion.1 = true ∧ RowDeleted db db' i old) ∨
     (dlqName = "" ∧ deletion.1 = false ∧ RowUpdated db db' i old
        (reclaimedRow queueName (some (clock 1)) deletion.2 (clock 1) old)) ∨
     (dlqName ≠ "" ∧ RowUpdated db db' i old
        (reclaimedRow dlqName none none (clock 1) old))))

theorem reclaimState_cases (row : MessageRow) :
    reclaimState row = .pending ∨ reclaimState row = .errored := by
  unfold reclaimState
  split
  · exact .inl rfl
  · exact .inr rfl

/-- The statements that run after the reclaim's `UPDATE … RETURNING` on a row that stays. -/
theorem settleReclaimed_effect {db db₂ db' : Database} {i : Nat} {old mid : MessageRow}
    {messageId dlqName : String} {newState : MessageState}
    (hrew : RowRewritten db db₂ i old mid) (hstate : old.state = .running)
    (hqueue : mid.queueName = old.queueName) (hmessage : mid.messageId = messageId)
    (hnew : mid.state = newState)
    (h : settleReclaimed db₂ old.queueName messageId dlqName newState = .ok db') :
    ((newState = .errored ∧ dlqName ≠ "") ∧
      RowUpdated db db' i old { mid with queueName := dlqName }) ∨
    (¬ (newState = .errored ∧ dlqName ≠ "") ∧ RowUpdated db db' i old mid) := by
  subst hnew
  unfold settleReclaimed at h
  split at h
  · rename_i hdlq
    split at h
    · cases h
    · rename_i db₃ hupd
      cases h
      have hsel := selects_addressed_state hrew.mem_new hqueue hmessage rfl
      have hall := hrew.trans (RowRewritten.of_updateMessages hsel hupd)
      have hmoved := hall.moveCounter
      -- The counter statement names RUNNING, the state before the reclaim.
      rw [hstate] at hmoved
      exact .inl ⟨hdlq, hmoved⟩
  · rename_i hdlq
    cases h
    have hcounted := hrew.updateCounters hqueue
    rw [hstate] at hcounted
    exact .inr ⟨hdlq, hcounted⟩

/-- A row that stays is PENDING again, or ERRORED in its queue or in the dead-letter queue. -/
theorem reclaimOutcome_of_stays {db db' : Database} {clock : Readings} {metadata : QueueMetadata}
    {i : Nat} {old : MessageRow} {terminal : Option Int × Option Int}
    (hstays : ¬ (reclaimState old = .errored ∧ metadata.deadLetterQueueName = "" ∧
      (calculateDeletion (clock 0) metadata.messageRetentionPolicy).1 = true))
    (hterm : reclaimTimestamps (reclaimState old) metadata.deadLetterQueueName (clock 1)
      (calculateDeletion (clock 0) metadata.messageRetentionPolicy).2 = terminal)
    (heffect : ((reclaimState old = .errored ∧ metadata.deadLetterQueueName ≠ "") ∧
        RowUpdated db db' i old
          (reclaimedRow metadata.deadLetterQueueName terminal.1 terminal.2 (clock 1) old)) ∨
      (¬ (reclaimState old = .errored ∧ metadata.deadLetterQueueName ≠ "") ∧
        RowUpdated db db' i old
          (reclaimedRow old.queueName terminal.1 terminal.2 (clock 1) old))) :
    ReclaimOutcome db db' clock metadata old.queueName i old := by
  unfold reclaimTimestamps at hterm
  rcases reclaimState_cases old with hpend | herr
  · left
    simp only [hpend, reduceCtorEq, false_and, if_false] at hterm
    subst hterm
    rcases heffect with ⟨⟨herr, -⟩, -⟩ | ⟨-, hupd⟩
    · exact absurd (hpend.symm.trans herr) (by decide)
    · exact ⟨hpend, hupd⟩
  · right
    refine ⟨herr, ?_⟩
    rcases heffect with ⟨⟨-, hdlq⟩, hupd⟩ | ⟨hnot, hupd⟩
    · simp only [herr, hdlq, and_false, if_false] at hterm
      subst hterm
      exact .inr (.inr ⟨hdlq, hupd⟩)
    · have hdlq : metadata.deadLetterQueueName = "" := by
        by_contra hne
        exact hnot ⟨herr, hne⟩
      simp only [herr, hdlq, and_self, if_true] at hterm
      subst hterm
      exact .inr (.inl ⟨hdlq, by simpa [herr, hdlq] using hstays, hupd⟩)

/-- A reclaim takes one row whose lease or heartbeat expired under the captured attempt. -/
theorem reclaimExpiredMessage_effect {db db' : Database} {clock : Readings} {queueName : String}
    {message : ExpiredMessage} {result : ReclaimResult}
    (h : reclaimExpiredMessage db clock queueName message = .ok (db', result)) :
    ∃ metadata i old, db.queueMetadata? queueName = some metadata ∧
      Reclaimable queueName message.messageId message.attemptId (clock 1) old ∧
      ReclaimOutcome db db' clock metadata queueName i old ∧
      result.state = reclaimState old := by
  unfold reclaimExpiredMessage at h
  split at h
  · cases h
  · rename_i metadata hmeta
    simp only at h
    split at h
    · cases h
    · rename_i i old hfind
      obtain ⟨hmem, hp⟩ := find?_eq_some hfind
      have hrec := reclaimable_iff.mp hp
      have hsel : Table.Selects db.messages.rows (fun e =>
          reclaimable queueName message.messageId message.attemptId (clock 1) e.2) (i, old) :=
        selects_of_addressed queueName message.messageId hmem hp fun e he =>
          ⟨(reclaimable_iff.mp he).queue, (reclaimable_iff.mp he).message⟩
      have hrew := RowRewritten.of_modifyMessages (f := reclaimRow (clock 1)) (fun _ => rfl) hsel
      refine ⟨metadata, i, old, getQueueMetadata_eq_ok hmeta, hrec, ?_⟩
      obtain rfl := hrec.queue
      split at h
      · rename_i hdel
        split at h
        · cases h
        · rename_i db₃ hrem
          cases h
          -- The row has been rewritten before: the DELETE finds it by its new state.
          have hsel₁ := selects_addressed_state hrew.mem_new rfl hrec.message rfl
          rw [← hrec.state] at hrem
          exact ⟨.inr ⟨hdel.1, .inl ⟨hdel.2.1, hdel.2.2, hrew.removeCounter hsel₁ hrem⟩⟩, rfl⟩
      · rename_i hdel
        split at h
        · cases h
        · rename_i db₃ hsettle
          cases h
          refine ⟨?_, rfl⟩
          have hsel₁ := selects_addressed hrew.mem_new rfl hrec.message
          generalize hterm : reclaimTimestamps (reclaimState old) metadata.deadLetterQueueName
            (clock 1) (calculateDeletion (clock 0) metadata.messageRetentionPolicy).2 = terminal
            at hsettle
          -- Three statements on one row, of which the last may move it.
          have hrew₂ := hrew.trans (RowRewritten.of_modifyMessages
            (f := clearReclaimedRow terminal.1 terminal.2) (fun _ => rfl) hsel₁)
          have heffect := settleReclaimed_effect hrew₂ hrec.state rfl hrec.message rfl hsettle
          exact reclaimOutcome_of_stays hdel hterm heffect

theorem findErrored_eq_ok {db : Database} {dlqName messageId : String} {e : Nat × MessageRow}
    (h : findErrored db dlqName messageId = .ok e) :
    e ∈ db.messages.rows ∧ e.2.queueName = dlqName ∧ e.2.messageId = messageId ∧
      e.2.state = .errored := by
  unfold findErrored at h
  split at h
  · cases h
  · rename_i d hfind
    obtain ⟨hmem, hp⟩ := find?_eq_some hfind
    obtain ⟨hq, hm⟩ := addressed_iff.mp hp
    split at h
    · cases h
    · rename_i hstate
      cases h
      exact ⟨hmem, hq, hm, not_not.mp hstate⟩

/-- A dead-lettered row was requeued. -/
theorem retryDLQMessage_effect {db db' : Database} {clock : Readings}
    {dlqName messageId targetQueueName : String} {resetRetries : Bool}
    (h : retryDLQMessage db clock dlqName messageId targetQueueName resetRetries = .ok db') :
    ∃ i old, old.queueName = dlqName ∧ old.messageId = messageId ∧ old.state = .errored ∧
      RowUpdated db db' i old (requeueRow targetQueueName
        (requeueAttempts resetRetries old) (clock 0) old) := by
  unfold retryDLQMessage at h
  split at h
  · cases h
  · rename_i i old hfound
    obtain ⟨hmem, hq, hm, hstate⟩ := findErrored_eq_ok hfound
    split at h
    · cases h
    · cases h
    · rename_i db₁ hupd
      cases h
      have hrew := RowRewritten.of_updateMessages (selects_addressed hmem hq hm) hupd
      obtain rfl := hq
      exact ⟨i, old, rfl, hm, hstate, hrew.moveCounter⟩

/-- A dead-lettered row was deleted. -/
theorem deleteDLQMessage_effect {db db' : Database} {queueName messageId : String}
    (h : deleteDLQMessage db queueName messageId = .ok db') :
    ∃ i old, old.queueName = queueName ∧ old.messageId = messageId ∧ old.state = .errored ∧
      RowDeleted db db' i old := by
  unfold deleteDLQMessage at h
  split at h
  · cases h
  · rename_i i old hfound
    obtain ⟨hmem, hq, hm, hstate⟩ := findErrored_eq_ok hfound
    have hsel := selects_addressed hmem hq hm
    obtain rfl := hq
    exact ⟨i, old, rfl, hm, hstate, rowDeleted_removeCounter hsel h⟩

/-- A purge batch removes ERRORED rows of the queue. -/
theorem purgeDLQBatch_effect {db db' : Database} {queueName : String} {limit deleted : Nat}
    (h : purgeDLQBatch db queueName limit = .ok (db', deleted)) :
    ∃ p, RowsRemoved db db' p ∧ ∀ e ∈ db.messages.rows, p e = true →
      e.2.queueName = queueName ∧ e.2.state = .errored := by
  simp only [purgeDLQBatch] at h
  split at h
  · cases h
  · rename_i db₁ hrem
    cases h
    have hsame : ∀ e ∈ db.messages.rows, decide (e.1 ∈ purgeBatchIds db queueName limit) = true →
        e.2.queueName = queueName ∧ e.2.state = .errored := by
      intro e he hid
      obtain ⟨d, hd, hde⟩ := List.mem_map.mp (of_decide_eq_true hid)
      obtain ⟨hmem, hp⟩ := List.mem_filter.mp (List.mem_of_mem_take hd)
      -- The ids come from a SELECT with the filter of the batch.
      obtain rfl := Table.eq_of_id hmem he hde
      simpa using hp
    have hcount : ((rowsAffected db fun e => decide (e.1 ∈ purgeBatchIds db queueName limit) :
        Nat) : Int) = ((db.messages.rows.filter fun e =>
          decide (e.1 ∈ purgeBatchIds db queueName limit)).length : Int) := by
      rw [rowsAffected, List.countP_eq_length_filter]
    exact ⟨_, rowsRemoved_removeCounters hsame hcount hrem, hsame⟩

/-! ## Section 4: Background services and queues -/

open Nzovu.Background

/-- An activation of a row that is still INVISIBLE rewrites it, then moves a unit between the
counters the collected message names. -/
theorem activateMessage_rewrites {db : Database} (clock : Readings) (message : ScheduledMessage)
    {row : MessageRow} (hmem : (message.id, row) ∈ db.messages.rows)
    (hinv : row.state = .invisible) (hdue : row.scheduledAt.any (· ≤ message.nowMs) = true) :
    ∃ db₁, RowRewritten db db₁ message.id row
        (activateRow { message.metadata with state := .pending } (clock 0) row) ∧
      activateMessage db clock message =
        (updateCounters db₁ message.queueName message.metadata.state .pending, true) := by
  have hsel : Table.Selects db.messages.rows (fun e => decide (e.1 = message.id) &&
      decide (e.2.state = .invisible) && e.2.scheduledAt.any (· ≤ message.nowMs))
      (message.id, row) := by
    refine Table.selects_of_id hmem (by simp [hinv, hdue]) fun d hd => ?_
    simp only [Bool.and_eq_true, decide_eq_true_eq] at hd
    exact hd.1.1
  have hrows : rowsAffected db (fun e => decide (e.1 = message.id) &&
      decide (e.2.state = .invisible) && e.2.scheduledAt.any (· ≤ message.nowMs)) ≠ 0 := by
    have hp := (hsel.2 _ hsel.1).mpr rfl
    exact Nat.ne_of_gt (List.countP_pos_iff.mpr ⟨_, hmem, hp⟩)
  refine ⟨_, RowRewritten.of_modifyMessages
    (f := activateRow { message.metadata with state := .pending } (clock 0)) (fun _ => rfl) hsel,
    ?_⟩
  unfold activateMessage
  rw [if_neg hrows]

/-- An activation turns the collected row PENDING, or changes nothing when it is no longer
INVISIBLE. The counters move correctly when the collected message names the row's queue and
the INVISIBLE state. -/
theorem activateMessage_effect {db : Database} (clock : Readings) {message : ScheduledMessage}
    (hstate : message.metadata.state = .invisible)
    (hqueue : ∀ row, (message.id, row) ∈ db.messages.rows → row.state = .invisible →
      row.queueName = message.queueName) :
    activateMessage db clock message = (db, false) ∨
      ∃ db' old, activateMessage db clock message = (db', true) ∧ old.state = .invisible ∧
        old.scheduledAt.any (· ≤ message.nowMs) = true ∧
        RowUpdated db db' message.id old
          (activateRow { message.metadata with state := .pending } (clock 0) old) := by
  by_cases hrows : rowsAffected db (fun e => decide (e.1 = message.id) &&
      decide (e.2.state = .invisible) && e.2.scheduledAt.any (· ≤ message.nowMs)) = 0
  · left
    unfold activateMessage
    rw [if_pos hrows]
  · right
    obtain ⟨⟨i, row⟩, hmem, hp⟩ := List.countP_pos_iff.mp (Nat.pos_of_ne_zero hrows)
    simp only [Bool.and_eq_true, decide_eq_true_eq] at hp
    obtain ⟨⟨rfl, hinv⟩, hdue⟩ := hp
    -- The counter statement names the collected queue and state: they are the row's.
    obtain ⟨db₁, hrew, heq⟩ := activateMessage_rewrites clock message hmem hinv hdue
    have hupd := hrew.updateCounters rfl
    rw [hqueue row hmem hinv, hinv, ← hstate] at hupd
    exact ⟨_, row, heq, hinv, hdue, hupd⟩

/-- The message of a schedule's run becomes an INVISIBLE row of its queue. -/
theorem createRunMessage_effect {db db' : Database} {clock : Readings} {run : ScheduleRun}
    (h : createRunMessage db clock run = .ok db') :
    ∃ queueMetadata, db.queueMetadata? run.queueName = some queueMetadata ∧
      RowInserted db db' (newRow run.queueName run.messageId
        (scheduleMessageMetadata queueMetadata run.priority run.leaseDuration run.runTime)
        (some (unixMilli run.runTime)) (clock 0) (clock 0)) := by
  unfold createRunMessage at h
  split at h
  · cases h
  · rename_i queueMetadata hmeta
    split at h
    · cases h
    · simp only at h
      split at h
      · cases h
      · rename_i db₁ hins
        cases h
        exact ⟨queueMetadata, hmeta, rowInserted_insertCounter hins⟩

/-- The loop over the groups of deleted rows takes each group off its counter. -/
theorem removeGroupCounters_eq_ok {deleted : List (Nat × MessageRow)}
    {groups : List (String × MessageState)} {db db' : Database} (hnodup : groups.Nodup)
    (hq : ∀ g ∈ groups, db.queues.hasKey g.1 = true)
    (h : removeGroupCounters deleted db groups = .ok db') :
    db'.messages = db.messages ∧ db'.configs = db.configs ∧
      ∀ q s, db'.counter q s = db.counter q s -
        (if (q, s) ∈ groups then Table.tally deleted (MessageRow.countsAs q s) else 0) := by
  induction groups generalizing db with
  | nil =>
    cases h
    exact ⟨rfl, rfl, fun q s => by simp⟩
  | cons g rest ih =>
    obtain ⟨q₀, s₀⟩ := g
    obtain ⟨hnotin, hrest⟩ := List.nodup_cons.mp hnodup
    simp only [removeGroupCounters] at h
    split at h
    · cases h
    · rename_i db₁ hrem
      have hq₀ := hq (q₀, s₀) List.mem_cons_self
      obtain ⟨hmsgs, hcounter⟩ := removeCounters_eq_ok (fun _ => hq₀) hrem
      have hkeys : ∀ g ∈ rest, db₁.queues.hasKey g.1 = true := by
        intro g hg
        rw [hasKey_removeCounters hrem]
        exact hq g (List.mem_cons_of_mem _ hg)
      obtain ⟨hmsgs', hconf', hcounter'⟩ := ih hrest hkeys h
      refine ⟨hmsgs'.trans hmsgs, hconf'.trans (configs_removeCounters hrem), fun q s => ?_⟩
      rw [hcounter', hcounter]
      -- A counter is adjusted once, since no group occurs twice.
      by_cases hg : q₀ = q ∧ s₀ = s
      · obtain ⟨rfl, rfl⟩ := hg
        simp only [hits, and_self, if_true, hnotin, if_false, List.mem_cons, true_or]
        ring
      · have hne : ¬ (q, s) = (q₀, s₀) := by
          rintro h
          cases h
          exact hg ⟨rfl, rfl⟩
        simp only [hits, hg, if_false, List.mem_cons, hne, false_or, mul_zero, sub_zero]

/-- A cleanup batch removes the rows it selects. -/
theorem cleanupExpiredBatch_removes {db db' : Database} {nowMs : Int} {limit deleted : Nat}
    (h : cleanupExpiredBatch db nowMs limit = .ok (db', deleted)) :
    RowsRemoved db db' fun e => decide (e.1 ∈ (expiredRows db nowMs limit).map Prod.fst) := by
  simp only [cleanupExpiredBatch] at h
  generalize (expiredRows db nowMs limit).map Prod.fst = ids at h ⊢
  split at h
  · cases h
  · rename_i db₁ hrem
    cases h
    have hgroups : ∀ g ∈ countGroups (db.messages.rows.filter fun e => decide (e.1 ∈ ids)),
        (db.deleteMessages fun e => decide (e.1 ∈ ids)).queues.hasKey g.1 = true := by
      intro g hg
      obtain ⟨e, he, rfl⟩ := mem_countGroups.mp hg
      exact db.foreignKey e (List.mem_of_mem_filter he)
    obtain ⟨hmsgs, hconf, hcounter⟩ :=
      removeGroupCounters_eq_ok (nodup_countGroups _) hgroups hrem
    refine ⟨by rw [hmsgs]; rfl, by rw [hmsgs]; rfl, fun q s => ?_, by rw [hconf]; rfl⟩
    rw [hcounter]
    -- A counter without a group belongs to no deleted row.
    by_cases hg : (q, s) ∈ countGroups (db.messages.rows.filter fun e => decide (e.1 ∈ ids))
    · rw [if_pos hg]
      rfl
    · rw [if_neg hg]
      have hnone : ∀ e ∈ db.messages.rows.filter fun e => decide (e.1 ∈ ids),
          e.2.countsAs q s = false := by
        intro e he
        by_contra hcount
        simp only [MessageRow.countsAs, Bool.not_eq_false, Bool.and_eq_true,
          decide_eq_true_eq] at hcount
        refine hg (mem_countGroups.mpr ⟨e, he, ?_⟩)
        rw [hcount.1, hcount.2]
      rw [Table.tally_eq_zero.mpr hnone]
      rfl

/-- The retention of these rows has ended. -/
theorem cleanupExpiredBatch_effect {db db' : Database} {nowMs : Int} {limit deleted : Nat}
    (h : cleanupExpiredBatch db nowMs limit = .ok (db', deleted)) :
    ∃ p, RowsRemoved db db' p ∧ ∀ e ∈ db.messages.rows, p e = true →
      e.2.deletedAt.any (· ≤ nowMs) = true := by
  refine ⟨_, cleanupExpiredBatch_removes h, fun e he hid => ?_⟩
  obtain ⟨d, hd, hde⟩ := List.mem_map.mp (of_decide_eq_true hid)
  obtain ⟨hmem, hp⟩ := List.mem_filter.mp
    ((List.mem_insertionSort _).mp (List.mem_of_mem_take hd))
  obtain rfl := Table.eq_of_id hmem he hde
  exact hp

end Nzovu.Repository
