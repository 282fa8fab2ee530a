import Nzovu.Repository.Effects

/-!
# Transitions

What any operation can do to the database, independently of which operation it was. A single
row goes through a `RowTransition`; the database goes through a `Change`, which names the event
it is for that row. Invariants are proved once per transition, not once per operation.

- Section 1 lists the transitions and the changes.
- Section 2 shows which changes each operation makes.
-/

namespace Nzovu.Repository

open Nzovu.Foundation
open Nzovu.Background

/-! ## Section 1: Events, transitions and changes -/

/-- What happened to a row, as far as its delivery is concerned. -/
inductive RowEvent where
  | claimed (attemptId workerId : String)
  | acknowledged
  | rejected
  | reclaimed
  | requeued
  | renewed
deriving DecidableEq, Repr

/-- The ways a row that stays in the table can change. -/
inductive RowTransition (old : MessageRow) : Option RowEvent → MessageRow → Prop where
  | claim (req : ClaimRequest) (runtime : LeaseRuntime) (nowMs : Int)
      (h : Claimable req.queueName nowMs old) :
      RowTransition old (some (.claimed req.attempt req.worker))
        (claimRow req.attempt req.worker runtime nowMs old)
  | complete (nowMs : Int) (deletedAt : Option Int) (h : old.state = .running) :
      RowTransition old (some .acknowledged) (completeRow nowMs deletedAt old)
  | retry (nowMs : Int) (h : old.state = .running) (hleft : ¬ NackExhausts old.attemptsLeft) :
      RowTransition old (some .rejected)
        (retryRow (decrementAttempts old.attemptsLeft) nowMs old)
  | exhaust (queueName : String) (nowMs : Int) (deletedAt : Option Int)
      (h : old.state = .running) (hleft : NackExhausts old.attemptsLeft) :
      RowTransition old (some .rejected)
        (exhaustRow queueName (decrementAttempts old.attemptsLeft) nowMs deletedAt old)
  | cancel (nowMs : Int) (deletedAt : Option Int) (reason : Option String)
      (h : old.state = .invisible ∨ old.state = .pending) :
      RowTransition old none (cancelRow nowMs deletedAt reason old)
  | extend (runtime : LeaseRuntime) (nowMs : Int) (h : old.state = .running) :
      RowTransition old (some .renewed) (extendRow runtime nowMs old)
  | heartbeat (nowMs : Int) (heartbeatExpiry : Option Int) (expiry used renewals : Int)
      (h : old.state = .running) :
      RowTransition old (some .renewed)
        (heartbeatRow nowMs heartbeatExpiry expiry used renewals old)
  | reclaim (queueName : String) (completedAt deletedAt : Option Int) (nowMs : Int)
      (h : old.state = .running) (hkept : reclaimState old = .pending → deletedAt = none) :
      RowTransition old (some .reclaimed)
        (reclaimedRow queueName completedAt deletedAt nowMs old)
  | requeue (targetQueueName : String) (resetRetries : Bool) (nowMs : Int)
      (h : old.state = .errored) :
      RowTransition old (some .requeued)
        (requeueRow targetQueueName (requeueAttempts resetRetries old) nowMs old)
  | activate (nowMs : Int) (h : old.state = .invisible) :
      RowTransition old none (activateRow { old.metadata with state := .pending } nowMs old)

/-- No transition touches the priority of a row. -/
theorem RowTransition.priority {old new : MessageRow} {event : Option RowEvent}
    (h : RowTransition old event new) : new.priority = old.priority := by
  cases h <;> rfl

/-- The ways a row can be deleted on its own. -/
inductive RowDeletion (old : MessageRow) : Option RowEvent → Prop where
  | acknowledged (h : old.state = .running) : RowDeletion old (some .acknowledged)
  | rejected (h : old.state = .running) : RowDeletion old (some .rejected)
  | reclaimed (h : old.state = .running) : RowDeletion old (some .reclaimed)
  | canceled : RowDeletion old none
  | deleted : RowDeletion old none

/-- No transition makes a row INVISIBLE. -/
theorem RowTransition.visible {old new : MessageRow} {event : Option RowEvent}
    (h : RowTransition old event new) : new.state ≠ .invisible := by
  cases h with
  | extend runtime nowMs h => simp [extendRow, h]
  | heartbeat nowMs heartbeatExpiry expiry used renewals h => simp [heartbeatRow, h]
  | reclaim =>
    show reclaimState old ≠ .invisible
    -- A reclaimed message goes back to PENDING or ends in ERRORED.
    rcases reclaimState_cases old with h | h <;> simp [h]
  | _ => simp [claimRow, completeRow, retryRow, exhaustRow, cancelRow, requeueRow, activateRow]

/-- What an operation may add: metadata of the messages it posts and of the queues it creates. -/
structure Additions where
  message : MessageMetadata → Prop
  queue : QueueMetadata → Prop

/-- An operation that only works on what is there. -/
def Additions.none : Additions := ⟨fun _ => False, fun _ => False⟩

/-- Everything a transaction can do to the database. The index names the row it has an event
for. -/
inductive Change (adds : Additions) (db db' : Database) : Option (Nat × RowEvent) → Prop where
  | unchanged (h : db' = db) : Change adds db db' none
  | inserted (queueName messageId : String) (metadata : MessageMetadata)
      (scheduledAt : Option Int) (createdAt updatedAt : Int) (hnew : adds.message metadata)
      (h : RowInserted db db'
        (newRow queueName messageId metadata scheduledAt createdAt updatedAt)) :
      Change adds db db' none
  | updated (i : Nat) (old new : MessageRow) (event : Option RowEvent)
      (h : RowUpdated db db' i old new) (ht : RowTransition old event new) :
      Change adds db db' (event.map fun e => (i, e))
  | deleted (i : Nat) (old : MessageRow) (event : Option RowEvent) (h : RowDeleted db db' i old)
      (ht : RowDeletion old event) : Change adds db db' (event.map fun e => (i, e))
  | removed (p : Nat × MessageRow → Bool) (h : RowsRemoved db db' p) : Change adds db db' none
  | queueInserted (queue : Queue) (hnew : adds.queue queue.metadata)
      (hdlq : queue.metadata.deadLetterQueueName ≠ "" →
        db.queues.hasKey queue.metadata.deadLetterQueueName = true)
      (h : db.queues.insert queue.toRow = some db'.queues)
      (hmessages : db'.messages = db.messages) : Change adds db db' none
  | queueDeleted (name : String)
      (hfree : ∀ e ∈ db.queues.rows, e.2.deadLetterQueueName ≠ some name)
      (h : db' = db.deleteQueueRow name) : Change adds db db' none

/-- Where a row comes from that is in the table after a change. -/
inductive RowOrigin (adds : Additions) (db : Database) (event : Option (Nat × RowEvent)) (i : Nat)
    (row : MessageRow) : Prop where
  | kept (h : (i, row) ∈ db.messages.rows) (hother : ∀ e, event ≠ some (i, e))
  | inserted (queueName messageId : String) (metadata : MessageMetadata)
      (scheduledAt : Option Int) (createdAt updatedAt : Int) (hid : i = db.messages.nextId)
      (hnew : adds.message metadata) (hevent : event = none)
      (hrow : row = newRow queueName messageId metadata scheduledAt createdAt updatedAt)
  | changed (old : MessageRow) (e : Option RowEvent) (h : (i, old) ∈ db.messages.rows)
      (ht : RowTransition old e row) (hevent : event = e.map fun e => (i, e))

/-- **Row rule**: a row after a change was there before, was inserted, or made a transition. -/
theorem Change.origin {adds : Additions} {db db' : Database} {event : Option (Nat × RowEvent)}
    (h : Change adds db db' event) {i : Nat} {row : MessageRow}
    (hmem : (i, row) ∈ db'.messages.rows) : RowOrigin adds db event i row := by
  cases h with
  | unchanged h => exact .kept (h ▸ hmem) (fun _ => by simp)
  | inserted queueName messageId metadata scheduledAt createdAt updatedAt hnew h =>
    rw [h.rows] at hmem
    rcases List.mem_append.mp hmem with hmem | hmem
    · exact .kept hmem (fun _ => by simp)
    · cases List.mem_singleton.mp hmem
      exact .inserted _ _ _ _ _ _ rfl hnew rfl rfl
  -- Only the row of the event has changed.
  | updated j old new e h ht =>
    rw [h.rows] at hmem
    rcases Table.mem_setRow.mp hmem with ⟨hmem, hne⟩ | ⟨heq, -⟩
    · refine .kept hmem (fun _ => ?_)
      have hji : ¬ j = i := fun hji => hne hji.symm
      simp [hji]
    · cases heq
      exact .changed old e h.mem ht rfl
  | deleted j old e h =>
    rw [h.rows] at hmem
    obtain ⟨hmem, hne⟩ := Table.mem_dropRow.mp hmem
    have hji : ¬ j = i := fun hji => hne hji.symm
    exact .kept hmem (fun _ => by simp [hji])
  | removed p h =>
    rw [h.rows] at hmem
    exact .kept (List.mem_of_mem_filter hmem) (fun _ => by simp)
  | queueInserted queue _ _ _ hmessages =>
    rw [hmessages] at hmem
    exact .kept hmem (fun _ => by simp)
  | queueDeleted name _ h =>
    rw [h] at hmem
    exact .kept (List.mem_of_mem_filter hmem) (fun _ => by simp)

/-- The event neither starts a lease nor moves one. -/
def Unleased (event : Option (Nat × RowEvent)) : Prop :=
  ∀ e, event = some e → e.2 ≠ .renewed ∧ ∀ attemptId workerId, e.2 ≠ .claimed attemptId workerId

/-- A RUNNING row after a change without claim or renewal was there before, or was posted so. -/
theorem Change.running_origin {adds : Additions} {db db' : Database}
    {event : Option (Nat × RowEvent)} (h : Change adds db db' event) (hevent : Unleased event)
    {i : Nat} {row : MessageRow} (hmem : (i, row) ∈ db'.messages.rows)
    (hstate : row.state = .running) :
    (i, row) ∈ db.messages.rows ∨
      ∃ queueName messageId metadata scheduledAt createdAt updatedAt, adds.message metadata ∧
        row = newRow queueName messageId metadata scheduledAt createdAt updatedAt := by
  cases h.origin hmem with
  | kept hold _ => exact .inl hold
  | inserted _ _ _ _ _ _ _ hnew _ hrow => exact .inr ⟨_, _, _, _, _, _, hnew, hrow⟩
  | changed old e hold ht hsome =>
    subst hsome
    cases ht with
    -- The three transitions into RUNNING are events with a lease.
    | claim req runtime nowMs hclaim => exact absurd rfl ((hevent _ rfl).2 req.attempt req.worker)
    | extend runtime nowMs hrun => exact absurd rfl (hevent _ rfl).1
    | heartbeat nowMs heartbeatExpiry expiry used renewals hrun =>
      exact absurd rfl (hevent _ rfl).1
    | reclaim target completedAt deletedAt nowMs hrun =>
      have hnow : reclaimState old = .running := hstate
      rcases reclaimState_cases old with hs | hs <;> rw [hs] at hnow <;> cases hnow
    | _ => cases hstate

/-- What one operation does: one change with an event, or a sequence of changes without. -/
inductive Changes (adds : Additions) : Database → Database → Option (Nat × RowEvent) → Prop where
  | refl (db : Database) : Changes adds db db none
  | single {db db' : Database} {event : Option (Nat × RowEvent)}
      (h : Change adds db db' event) : Changes adds db db' event
  | step {db₁ db₂ db₃ : Database} (h : Change adds db₁ db₂ none)
      (hrest : Changes adds db₂ db₃ none) : Changes adds db₁ db₃ none

/-- **Change rule**: what every change preserves, an operation preserves. The log grows by the
event. -/
theorem Changes.preserves {adds : Additions} {P : List (Nat × RowEvent) → Database → Prop}
    (hP : ∀ log db db' event, P log db → Change adds db db' event → P (event.toList ++ log) db')
    {log : List (Nat × RowEvent)} {db db' : Database} {event : Option (Nat × RowEvent)}
    (hinit : P log db) (h : Changes adds db db' event) : P (event.toList ++ log) db' := by
  induction h with
  | refl => exact hinit
  | single hchange => exact hP _ _ _ _ hinit hchange
  | step hchange _ ih => exact ih (hP _ _ _ none hinit hchange)

/-- The change rule for properties of the database, when the event satisfies `E`. -/
theorem Changes.preserves_when {adds : Additions} {E : Option (Nat × RowEvent) → Prop}
    {P : Database → Prop} (hnone : E none)
    (hP : ∀ db db' event, E event → P db → Change adds db db' event → P db')
    {db db' : Database} {event : Option (Nat × RowEvent)} (hevent : E event) (hinit : P db)
    (h : Changes adds db db' event) : P db' := by
  induction h with
  | refl => exact hinit
  | single hchange => exact hP _ _ _ hevent hinit hchange
  | step hchange _ ih => exact ih hnone (hP _ _ _ hnone hinit hchange)

/-- The change rule for properties of the database alone. -/
theorem Changes.preserves' {adds : Additions} {P : Database → Prop}
    (hP : ∀ db db' event, P db → Change adds db db' event → P db')
    {db db' : Database} {event : Option (Nat × RowEvent)} (hinit : P db)
    (h : Changes adds db db' event) : P db' :=
  h.preserves_when (E := fun _ => True) trivial (fun db db' event _ => hP db db' event) trivial
    hinit

/-- An operation with an event makes one change. -/
theorem Changes.change_of_some {adds : Additions} {db db' : Database} {e : Nat × RowEvent}
    (h : Changes adds db db' (some e)) : Change adds db db' (some e) := by
  cases h with
  | single h => exact h

/-! ## Section 2: The changes of each operation -/

section Operations

variable {adds : Additions} {db db' : Database}

theorem insertQueue_change {queue : Queue} (hnew : adds.queue queue.metadata)
    (hdlq : queue.metadata.deadLetterQueueName ≠ "" →
      db.queues.hasKey queue.metadata.deadLetterQueueName = true)
    (h : insertQueue db queue = .ok db') : Change adds db db' none := by
  unfold insertQueue at h
  split at h
  · cases h
  · rename_i db₁ hins
    cases h
    obtain ⟨hqueues, hmessages⟩ := Database.insertQueue_eq_ok hins
    exact .queueInserted queue hnew hdlq hqueues hmessages

theorem insertQueue_hasKey {queue : Queue} (h : insertQueue db queue = .ok db') :
    db'.queues.hasKey queue.name = true := by
  unfold insertQueue at h
  split at h
  · cases h
  · rename_i db₁ hins
    cases h
    obtain ⟨hqueues, -⟩ := Database.insertQueue_eq_ok hins
    rw [Table.hasKey_eq_true, (Table.insert_eq_some hqueues).2.1]
    exact ⟨_, List.mem_append_right _ List.mem_cons_self, rfl⟩

theorem createQueue_change {queue : Queue} (hnew : adds.queue queue.metadata)
    (hauto : queue.metadata.autoCreateDlq = false)
    (h : createQueue db queue = .ok db') : Change adds db db' none := by
  simp only [createQueue] at h
  split at h
  · cases h
  · rename_i hfound
    refine insertQueue_change hnew (fun hne => ?_) h
    simpa [hne, hauto] using hfound

theorem createQueueWithDLQ_changes {queue dlq : Queue} (hqueue : adds.queue queue.metadata)
    (hdlq : adds.queue dlq.metadata) (hlast : dlq.metadata.deadLetterQueueName = "")
    (h : createQueueWithDLQ db queue dlq = .ok db') : Changes adds db db' none := by
  unfold createQueueWithDLQ validateQueueDLQPair at h
  simp only at h
  split at h
  · cases h
  · rename_i hpair
    split at h
    · cases h
    · rename_i db₁ hins
      -- The pair was checked: the queue refers to the one inserted before it.
      have htarget : queue.metadata.deadLetterQueueName = dlq.name := by
        by_contra hne
        simp only [hne, ne_eq, not_false_eq_true, if_true] at hpair
        split at hpair <;> cases hpair
      have hfirst := insertQueue_change hdlq (fun hne => absurd hlast hne) hins
      refine .step hfirst (.single (insertQueue_change hqueue (fun _ => ?_) h))
      rw [htarget]
      exact insertQueue_hasKey hins

theorem createValidQueue_changes {name : String} {metadata : QueueMetadata}
    (hqueue : adds.queue (completeQueueMetadata name metadata)) (hdlq : adds.queue {})
    (h : createValidQueue db name metadata = .ok db') : Changes adds db db' none := by
  simp only [createValidQueue, storeQueue] at h
  split at h
  · exact createQueueWithDLQ_changes hqueue hdlq rfl h
  · rename_i hauto
    split at h
    · cases h
    · exact .single (createQueue_change hqueue (by simpa using hauto) h)

theorem deleteQueue_change {name : String} (h : deleteQueue db name = .ok db') :
    Change adds db db' none := by
  unfold deleteQueue at h
  split at h
  · cases h
  · split at h
    · cases h
    · rename_i hfind
      cases h
      -- No queue refers to the deleted one, or the deletion had been refused.
      refine .queueDeleted name (fun e he => ?_) rfl
      simpa using List.find?_eq_none.mp hfind e he

theorem enqueueMessageInTx_change {clock : Readings} {queueName : String} {message : Message}
    (hnew : ∀ metadata, message.metadata = some metadata → adds.message metadata)
    (h : enqueueMessageInTx db clock queueName message = .ok db') : Change adds db db' none := by
  obtain ⟨metadata, hmeta, hrow⟩ := enqueueMessageInTx_effect h
  exact .inserted _ _ _ _ _ _ (hnew metadata hmeta) hrow

theorem enqueueAll_changes {clock : Readings} {queueName : String} {messages : List Message}
    {i : Nat} (hnew : ∀ message ∈ messages, ∀ metadata, message.metadata = some metadata →
      adds.message metadata)
    (h : enqueueAll clock queueName db i messages = .ok db') : Changes adds db db' none := by
  induction messages generalizing db i with
  | nil =>
    cases h
    exact .refl _
  | cons message rest ih =>
    simp only [enqueueAll] at h
    split at h
    · cases h
    · rename_i db₁ hone
      have hrest := ih (fun m hm => hnew m (List.mem_cons_of_mem _ hm)) h
      exact .step (enqueueMessageInTx_change (hnew message List.mem_cons_self) hone) hrest

theorem enqueueEach_changes (clock : Readings) (queueName : String) (messages : List Message)
    (db : Database) (i : Nat) (hnew : ∀ message ∈ messages, ∀ metadata,
      message.metadata = some metadata → adds.message metadata) :
    Changes adds db (enqueueEach clock queueName db i messages).1 none := by
  induction messages generalizing db i with
  | nil => exact .refl db
  | cons message rest ih =>
    have hrest := fun m hm => hnew m (List.mem_cons_of_mem _ hm)
    simp only [enqueueEach]
    split
    · exact ih db (i + 1) hrest
    · rename_i db₁ hone
      exact .step (enqueueMessageInTx_change (hnew message List.mem_cons_self) hone)
        (ih db₁ (i + 1) hrest)

theorem enqueueMessagesBulk_changes (db : Database) (clock : Readings) (queueName : String)
    (messages : List Message) (mode : TransactionMode) (hnew : ∀ message ∈ messages,
      ∀ metadata, message.metadata = some metadata → adds.message metadata) :
    Changes adds db (enqueueMessagesBulk db clock queueName messages mode).1 none := by
  cases mode with
  | allOrNothing =>
    simp only [enqueueMessagesBulk]
    split
    · rename_i db' hall
      exact enqueueAll_changes hnew hall
    · exact .refl db
  | bestEffort => exact enqueueEach_changes clock queueName messages db 0 hnew

/-- The event of a claim. -/
def claimEvent (req : ClaimRequest) (claimed : Option (Nat × MessageRow)) :
    Option (Nat × RowEvent) :=
  claimed.map fun e => (e.1, .claimed req.attempt req.worker)

theorem claimMessageWithLeaseDuration_change {clock : Readings} {req : ClaimRequest}
    {claimed : Option (Nat × MessageRow)}
    (h : claimMessageWithLeaseDuration db clock req = .ok (db', claimed)) :
    Change adds db db' (claimEvent req claimed) := by
  rcases claimMessageWithLeaseDuration_effect h with ⟨rfl, hdb⟩ | ⟨_, i, old, _, -, -, hc, rfl⟩
  · exact .unchanged hdb
  · exact .updated i old _ _ hc.updated (.claim req _ _ hc.claimable)

/-- The row a worker's statement addresses. -/
theorem find?_owned {queueName messageId attemptId workerId : String} {nowMs : Int} {i : Nat}
    {old : MessageRow} (hmem : (i, old) ∈ db.messages.rows)
    (hown : Owns queueName messageId attemptId workerId nowMs old) :
    db.messages.find? (fun e => owned queueName messageId attemptId workerId nowMs e.2) =
      some (i, old) :=
  Table.find?_of_selects (selects_owned hmem hown)

theorem acknowledgeMessage_change {clock : Readings}
    {queueName messageId attemptId workerId : String}
    (h : acknowledgeMessage db clock queueName messageId attemptId workerId = .ok db') :
    ∃ e, db.messages.find? (fun e => owned queueName messageId attemptId workerId (clock 1) e.2) =
      some e ∧ Change adds db db' (some (e.1, .acknowledged)) := by
  obtain ⟨metadata, i, old, -, hown, hout⟩ := acknowledgeMessage_effect h
  rcases hout with ⟨-, hdel⟩ | ⟨-, hupd⟩
  · exact ⟨(i, old), find?_owned hdel.mem hown, .deleted i old _ hdel (.acknowledged hown.state)⟩
  · exact ⟨(i, old), find?_owned hupd.mem hown,
      .updated i old _ _ hupd (.complete _ _ hown.state)⟩

theorem nackMessage_change {clock : Readings} {queueName messageId attemptId workerId : String}
    (h : nackMessage db clock queueName messageId attemptId workerId = .ok db') :
    ∃ e, db.messages.find? (fun e => owned queueName messageId attemptId workerId (clock 0) e.2) =
      some e ∧ Change adds db db' (some (e.1, .rejected)) := by
  obtain ⟨metadata, i, old, -, hown, ⟨hleft, hupd⟩ | ⟨hleft, hterm⟩⟩ := nackMessage_effect h
  · exact ⟨(i, old), find?_owned hupd.mem hown,
      .updated i old _ _ hupd (.retry _ hown.state hleft)⟩
  -- Deleted, kept in its own queue, or moved to the dead letter queue.
  · rcases hterm with ⟨-, -, hdel⟩ | ⟨-, -, hupd⟩ | ⟨-, hupd⟩
    · exact ⟨(i, old), find?_owned hdel.mem hown, .deleted i old _ hdel (.rejected hown.state)⟩
    · exact ⟨(i, old), find?_owned hupd.mem hown,
        .updated i old _ _ hupd (.exhaust _ _ _ hown.state hleft)⟩
    · exact ⟨(i, old), find?_owned hupd.mem hown,
        .updated i old _ _ hupd (.exhaust _ _ _ hown.state hleft)⟩

theorem cancelMessage_change {clock : Readings} {queueName messageId reason : String}
    (h : cancelMessage db clock queueName messageId reason = .ok db') :
    Change adds db db' none := by
  obtain ⟨metadata, i, old, -, -, -, hwaiting, hout⟩ := cancelMessage_effect h
  rcases hout with ⟨-, hdel⟩ | ⟨-, hupd⟩
  · exact .deleted i old _ hdel .canceled
  · exact .updated i old _ _ hupd (.cancel _ _ _ hwaiting)

theorem extendMessageLease_change {clock : Readings}
    {queueName messageId attemptId workerId : String} {extensionMs remaining : Int}
    (h : extendMessageLease db clock queueName messageId attemptId workerId extensionMs =
      .ok (db', remaining)) :
    ∃ e, db.messages.find? (fun e => owned queueName messageId attemptId workerId (clock 0) e.2) =
      some e ∧ Change adds db db' (some (e.1, .renewed)) := by
  obtain ⟨i, old, runtime, hown, -, -, hupd⟩ := extendMessageLease_effect h
  exact ⟨(i, old), find?_owned hupd.mem hown, .updated i old _ _ hupd (.extend _ _ hown.state)⟩

theorem heartbeatMessage_change {clock : Readings}
    {queueName messageId attemptId workerId : String} {state : MessageState} {remaining : Int}
    (h : heartbeatMessage db clock queueName messageId attemptId workerId =
      .ok (db', state, remaining)) :
    ∃ e, db.messages.find? (fun e => owned queueName messageId attemptId workerId (clock 0) e.2) =
      some e ∧ Change adds db db' (some (e.1, .renewed)) := by
  obtain ⟨i, old, expiry, used, renewals, hown, hupd, -⟩ := heartbeatMessage_effect h
  exact ⟨(i, old), find?_owned hupd.mem hown,
    .updated i old _ _ hupd (.heartbeat _ _ _ _ _ hown.state)⟩

theorem selects_reclaimable {queueName messageId attemptId : String} {nowMs : Int} {i : Nat}
    {old : MessageRow} (hmem : (i, old) ∈ db.messages.rows)
    (hrec : Reclaimable queueName messageId attemptId nowMs old) :
    Table.Selects db.messages.rows
      (fun e => reclaimable queueName messageId attemptId nowMs e.2) (i, old) :=
  selects_of_addressed queueName messageId hmem (reclaimable_iff.mpr hrec) fun _ he =>
    ⟨(reclaimable_iff.mp he).queue, (reclaimable_iff.mp he).message⟩

theorem reclaimExpiredMessage_change {clock : Readings} {queueName : String}
    {message : ExpiredMessage} {result : ReclaimResult}
    (h : reclaimExpiredMessage db clock queueName message = .ok (db', result)) :
    ∃ e, db.messages.find? (fun e => reclaimable queueName message.messageId message.attemptId
      (clock 1) e.2) = some e ∧ Change adds db db' (some (e.1, .reclaimed)) := by
  obtain ⟨metadata, i, old, -, hrec, hout, -⟩ := reclaimExpiredMessage_effect h
  have hfind : ∀ hmem : (i, old) ∈ db.messages.rows, db.messages.find? (fun e =>
      reclaimable queueName message.messageId message.attemptId (clock 1) e.2) = some (i, old) :=
    fun hmem => Table.find?_of_selects (selects_reclaimable hmem hrec)
  have hupdated : ∀ {target completedAt deletedAt},
      (reclaimState old = .pending → deletedAt = none) → RowUpdated db db' i old
        (reclaimedRow target completedAt deletedAt (clock 1) old) →
          Change adds db db' (some (i, .reclaimed)) := fun hkept hupd =>
    .updated i old _ _ hupd (.reclaim _ _ _ _ hrec.state hkept)
  -- PENDING again; deleted; ERRORED in its own queue with a retention; ERRORED in the dead letter
  -- queue.
  rcases hout with ⟨-, hupd⟩ | ⟨herr, ⟨-, -, hdel⟩ | ⟨-, -, hupd⟩ | ⟨-, hupd⟩⟩
  · exact ⟨(i, old), hfind hupd.mem, hupdated (fun _ => rfl) hupd⟩
  · exact ⟨(i, old), hfind hdel.mem, .deleted i old _ hdel (.reclaimed hrec.state)⟩
  · have hkept : ∀ {d : Option Int}, reclaimState old = .pending → d = none :=
      fun hpend => absurd (hpend.symm.trans herr) (by decide)
    exact ⟨(i, old), hfind hupd.mem, hupdated hkept hupd⟩
  · exact ⟨(i, old), hfind hupd.mem, hupdated (fun _ => rfl) hupd⟩

theorem retryDLQMessage_change {clock : Readings} {dlqName messageId targetQueueName : String}
    {resetRetries : Bool}
    (h : retryDLQMessage db clock dlqName messageId targetQueueName resetRetries = .ok db') :
    ∃ e, db.messages.find? (fun e => addressed dlqName messageId e.2) = some e ∧
      Change adds db db' (some (e.1, .requeued)) := by
  obtain ⟨i, old, hq, hm, hstate, hupd⟩ := retryDLQMessage_effect h
  exact ⟨(i, old), Table.find?_of_selects (selects_addressed hupd.mem hq hm),
    .updated i old _ _ hupd (.requeue _ _ _ hstate)⟩

theorem deleteDLQMessage_change {queueName messageId : String}
    (h : deleteDLQMessage db queueName messageId = .ok db') : Change adds db db' none := by
  obtain ⟨i, old, -, -, -, hdel⟩ := deleteDLQMessage_effect h
  exact .deleted i old _ hdel .deleted

theorem purgeDLQLoop_changes (queueName : String) (fuel : Nat) (db : Database) :
    Changes adds db (purgeDLQLoop queueName fuel db).1 none := by
  induction fuel generalizing db with
  | zero => exact .refl db
  | succ fuel ih =>
    simp only [purgeDLQLoop]
    split
    · exact .refl db
    · rename_i db₁ deleted hbatch
      obtain ⟨p, hrem, -⟩ := purgeDLQBatch_effect hbatch
      split
      · exact .single (.removed p hrem)
      · -- The loop goes on whether or not the rest succeeds.
        have hrest := ih db₁
        split <;> rename_i hloop <;> rw [hloop] at hrest <;> exact .step (.removed p hrem) hrest

theorem createRunMessage_change {clock : Readings} {run : ScheduleRun}
    (hnew : ∀ queueMetadata, db.queueMetadata? run.queueName = some queueMetadata →
      adds.message
        (scheduleMessageMetadata queueMetadata run.priority run.leaseDuration run.runTime))
    (h : createRunMessage db clock run = .ok db') : Change adds db db' none := by
  obtain ⟨queueMetadata, hmeta, hrow⟩ := createRunMessage_effect h
  exact .inserted _ _ _ _ _ _ (hnew queueMetadata hmeta) hrow

/-- An activation needs a collected message that still describes its row. -/
theorem activateMessage_change {clock : Readings} {message : ScheduledMessage}
    (hstate : message.metadata.state = .invisible)
    (hrow : ∀ row, (message.id, row) ∈ db.messages.rows → row.state = .invisible →
      row.queueName = message.queueName ∧ row.metadata = message.metadata) :
    Change adds db (activateMessage db clock message).1 none := by
  have heffect := activateMessage_effect clock hstate
    fun row hmem hinv => (hrow row hmem hinv).1
  rcases heffect with hsame | ⟨db', old, heq, hinv, -, hupd⟩
  · exact .unchanged (congrArg Prod.fst hsame)
  -- The activation stores the collected metadata: it is the row's own.
  · rw [heq]
    rw [← (hrow old hupd.mem hinv).2] at hupd
    exact .updated _ old _ none hupd (.activate _ hinv)

theorem cleanupExpiredBatch_change {nowMs : Int} {limit deleted : Nat}
    (h : cleanupExpiredBatch db nowMs limit = .ok (db', deleted)) : Change adds db db' none := by
  obtain ⟨p, hrem, -⟩ := cleanupExpiredBatch_effect h
  exact .removed p hrem

end Operations

end Nzovu.Repository
