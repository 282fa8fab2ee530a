import Nzovu.Foundation.Run
import Nzovu.Repository.Transitions

/-!
# The Storage System

All operations of the storage layer and of the background services as steps of one machine.
Transactions run one at a time; a failed one is rolled back. The only state beside the database
is the batch of scheduled messages that the scheduler has collected but not yet activated:
other transactions may run in between.

Section 3 proves that every step is a change of the database, with the event the step is said
to have; for activations this rests on the invariant of the collected batch (Section 2).
-/

namespace Nzovu.Repository

open Nzovu.Foundation
open Nzovu.Background

/-! ## Section 1: Operations and steps -/

/-- The operations, with their arguments and clock readings. -/
inductive Operation where
  | createQueue (name : String) (metadata : QueueMetadata)
  | deleteQueue (name : String)
  | enqueue (clock : Readings) (queueName : String) (message : Message)
  | enqueueBulk (clock : Readings) (queueName : String) (messages : List Message)
      (mode : TransactionMode)
  | claim (clock : Readings) (req : ClaimRequest)
  | acknowledge (clock : Readings) (queueName messageId attemptId workerId : String)
  | nack (clock : Readings) (queueName messageId attemptId workerId : String)
  | cancel (clock : Readings) (queueName messageId reason : String)
  | extend (clock : Readings) (queueName messageId attemptId workerId : String)
      (extensionMs : Int)
  | heartbeat (clock : Readings) (queueName messageId attemptId workerId : String)
  | reclaim (clock : Readings) (queueName : String) (message : ExpiredMessage)
  | retryDLQ (clock : Readings) (dlqName messageId targetQueueName : String)
      (resetRetries : Bool)
  | deleteDLQ (queueName messageId : String)
  | purgeDLQ (queueName : String)
  | collectScheduled (nowMs : Int) (limit : Nat)
  | activate (clock : Readings) (message : ScheduledMessage)
  | createRun (clock : Readings) (run : ScheduleRun)
  | cleanup (nowMs : Int) (limit : Nat)

/-- The clock readings an operation may make, in order. -/
def Operation.readings : Operation → List Int
  | .createQueue _ _ | .deleteQueue _ | .deleteDLQ _ _ | .purgeDLQ _ => []
  | .enqueue clock _ _ => [clock 0, clock 1]
  | .enqueueBulk clock _ messages _ => (List.range (2 * messages.length)).map clock
  | .claim clock _ => [clock 0, clock 1, clock 2, clock 3]
  | .acknowledge clock _ _ _ _ | .nack clock _ _ _ _ | .cancel clock _ _ _
  | .extend clock _ _ _ _ _ | .reclaim clock _ _ => [clock 0, clock 1]
  | .heartbeat clock _ _ _ _ | .retryDLQ clock _ _ _ _ | .activate clock _
  | .createRun clock _ => [clock 0]
  | .collectScheduled nowMs _ | .cleanup nowMs _ => [nowMs]

/-- Messages are posted PENDING or INVISIBLE: the validators refuse a message with a state, and
`EnqueueMessage` then chooses one of the two. -/
def Operation.PostsWaiting : Operation → Prop
  | .enqueue _ _ message =>
    ∀ m, message.metadata = some m → m.state = .invisible ∨ m.state = .pending
  | .enqueueBulk _ _ messages _ =>
    ∀ message ∈ messages, ∀ m, message.metadata = some m → m.state = .invisible ∨ m.state = .pending
  | _ => True

/-- The clock readings of a run, in order. -/
def readings (ops : List Operation) : List Int := ops.flatMap Operation.readings

/-- The database and the scheduler's collected batch. -/
structure System where
  db : Database
  collected : List ScheduledMessage

namespace System

/-- A new installation. -/
def empty : System := ⟨.empty, []⟩

/-- Commit a successful transaction; roll back a failed one. -/
def commit {ε : Type} (s : System) : Except ε Database → System
  | .ok db => { s with db := db }
  | .error _ => s

/-- One operation. -/
def step (s : System) : Operation → System
  | .createQueue name metadata => s.commit (createValidQueue s.db name metadata)
  | .deleteQueue name => s.commit (Repository.deleteQueue s.db name)
  | .enqueue clock queueName message => s.commit (enqueueMessage s.db clock queueName message)
  | .enqueueBulk clock queueName messages mode =>
    { s with db := (enqueueMessagesBulk s.db clock queueName messages mode).1 }
  | .claim clock req => s.commit ((claimMessageWithLeaseDuration s.db clock req).map Prod.fst)
  | .acknowledge clock queueName messageId attemptId workerId =>
    s.commit (acknowledgeMessage s.db clock queueName messageId attemptId workerId)
  | .nack clock queueName messageId attemptId workerId =>
    s.commit (nackMessage s.db clock queueName messageId attemptId workerId)
  | .cancel clock queueName messageId reason =>
    s.commit (cancelMessage s.db clock queueName messageId reason)
  | .extend clock queueName messageId attemptId workerId extensionMs =>
    s.commit ((extendMessageLease s.db clock queueName messageId attemptId workerId
      extensionMs).map Prod.fst)
  | .heartbeat clock queueName messageId attemptId workerId =>
    s.commit ((heartbeatMessage s.db clock queueName messageId attemptId workerId).map Prod.fst)
  | .reclaim clock queueName message =>
    s.commit ((reclaimExpiredMessage s.db clock queueName message).map Prod.fst)
  | .retryDLQ clock dlqName messageId targetQueueName resetRetries =>
    s.commit (retryDLQMessage s.db clock dlqName messageId targetQueueName resetRetries)
  | .deleteDLQ queueName messageId => s.commit (deleteDLQMessage s.db queueName messageId)
  | .purgeDLQ queueName => { s with db := (Repository.purgeDLQ s.db queueName).1 }
  | .collectScheduled nowMs limit =>
    { s with collected := s.collected ++ collectScheduledMessages s.db nowMs limit }
  | .activate clock message =>
    -- Only a collected message is ever activated.
    if message ∈ s.collected then { s with db := (activateMessage s.db clock message).1 } else s
  | .createRun clock run => s.commit (createRunMessage s.db clock run)
  | .cleanup nowMs limit => s.commit ((cleanupExpiredBatch s.db nowMs limit).map Prod.fst)

/-- The event of a transaction on the row that `p` addresses, if it commits. -/
def touched {α ε : Type} (s : System) (r : Except ε α) (p : MessageRow → Bool)
    (event : RowEvent) : Option (Nat × RowEvent) :=
  match r with
  | .ok _ => (s.db.messages.find? fun e => p e.2).map fun e => (e.1, event)
  | .error _ => none

/-- The delivery event of one operation, with the id of its row. -/
def event (s : System) : Operation → Option (Nat × RowEvent)
  | .claim clock req =>
    match claimMessageWithLeaseDuration s.db clock req with
    | .ok (_, claimed) => claimEvent req claimed
    | .error _ => none
  | .acknowledge clock queueName messageId attemptId workerId =>
    s.touched (acknowledgeMessage s.db clock queueName messageId attemptId workerId)
      (owned queueName messageId attemptId workerId (clock 1)) .acknowledged
  | .nack clock queueName messageId attemptId workerId =>
    s.touched (nackMessage s.db clock queueName messageId attemptId workerId)
      (owned queueName messageId attemptId workerId (clock 0)) .rejected
  | .extend clock queueName messageId attemptId workerId extensionMs =>
    s.touched (extendMessageLease s.db clock queueName messageId attemptId workerId extensionMs)
      (owned queueName messageId attemptId workerId (clock 0)) .renewed
  | .heartbeat clock queueName messageId attemptId workerId =>
    s.touched (heartbeatMessage s.db clock queueName messageId attemptId workerId)
      (owned queueName messageId attemptId workerId (clock 0)) .renewed
  | .reclaim clock queueName message =>
    s.touched (reclaimExpiredMessage s.db clock queueName message)
      (reclaimable queueName message.messageId message.attemptId (clock 1)) .reclaimed
  | .retryDLQ clock dlqName messageId targetQueueName resetRetries =>
    s.touched (retryDLQMessage s.db clock dlqName messageId targetQueueName resetRetries)
      (addressed dlqName messageId) .requeued
  | _ => none

/-- What one operation may add. -/
def additions (s : System) : Operation → Additions
  | .createQueue name metadata =>
    ⟨fun _ => False, fun m => m = completeQueueMetadata name metadata ∨ m = {}⟩
  | .enqueue _ _ message => ⟨fun m => message.metadata = some m, fun _ => False⟩
  | .enqueueBulk _ _ messages _ =>
    ⟨fun m => ∃ message ∈ messages, message.metadata = some m, fun _ => False⟩
  | .createRun _ run =>
    ⟨fun m => ∃ queueMetadata, s.db.queueMetadata? run.queueName = some queueMetadata ∧
      m = scheduleMessageMetadata queueMetadata run.priority run.leaseDuration run.runTime,
      fun _ => False⟩
  | _ => .none

/-- The state after a list of operations on a new installation. -/
def run (ops : List Operation) : System := runFrom step empty ops

end System

/-! ## Section 2: Collected messages -/

/-- A collected message still describes its row for as long as that row is INVISIBLE. -/
structure Captures (db : Database) (message : ScheduledMessage) : Prop where
  state : message.metadata.state = .invisible
  used : message.id < db.messages.nextId
  row : ∀ row, (message.id, row) ∈ db.messages.rows → row.state = .invisible →
    row.queueName = message.queueName ∧ row.metadata = message.metadata

/-- The `state` in the protobuf of a scheduled INVISIBLE row agrees with its column. -/
def InvisibleStored (db : Database) : Prop :=
  ∀ e ∈ db.messages.rows, e.2.state = .invisible → e.2.scheduledAt.isSome = true →
    e.2.metadata.state = .invisible

section Collected

variable {adds : Additions} {db db' : Database} {event : Option (Nat × RowEvent)}

/-- An INVISIBLE row after a change was there, unchanged, before, or was just inserted. -/
theorem Change.invisible_row (h : Change adds db db' event) {i : Nat} {row : MessageRow}
    (hmem : (i, row) ∈ db'.messages.rows) (hinv : row.state = .invisible) :
    (i, row) ∈ db.messages.rows ∨
      (i = db.messages.nextId ∧ row.metadata.state = .invisible) := by
  cases h.origin hmem with
  | kept hmem => exact .inl hmem
  | inserted _ _ _ _ _ _ hid _ _ hrow =>
    subst hrow
    exact .inr ⟨hid, hinv⟩
  -- Nothing becomes INVISIBLE again, so a collected message cannot meet a changed row.
  | changed old e _ ht => exact absurd hinv ht.visible

theorem Change.nextId_le (h : Change adds db db' event) :
    db.messages.nextId ≤ db'.messages.nextId := by
  cases h with
  | unchanged h => rw [h]
  | inserted _ _ _ _ _ _ _ h =>
    rw [h.nextId]
    exact Nat.le_succ _
  | updated i old new event h => rw [h.nextId]
  | deleted i old event h => rw [h.nextId]
  | removed p h => rw [h.nextId]
  | queueInserted queue _ _ _ hmessages => rw [hmessages]
  | queueDeleted name _ h =>
    rw [h]
    exact Nat.le_refl _

theorem Captures.change {message : ScheduledMessage} (hcap : Captures db message)
    (h : Change adds db db' event) : Captures db' message := by
  refine ⟨hcap.state, Nat.lt_of_lt_of_le hcap.used h.nextId_le, fun row hmem hinv => ?_⟩
  rcases h.invisible_row hmem hinv with hmem | ⟨hid, -⟩
  · exact hcap.row row hmem hinv
  -- Ids are never used twice: a new row is not the collected one.
  · exact absurd hid (Nat.ne_of_lt hcap.used)

theorem InvisibleStored.change (hinv : InvisibleStored db) (h : Change adds db db' event) :
    InvisibleStored db' := by
  intro e hmem hstate hscheduled
  rcases h.invisible_row hmem hstate with hmem | ⟨-, hmeta⟩
  · exact hinv e hmem hstate hscheduled
  · exact hmeta

end Collected

theorem captures_collectScheduledMessages {db : Database} (hinv : InvisibleStored db)
    {nowMs : Int} {limit : Nat} {message : ScheduledMessage}
    (h : message ∈ collectScheduledMessages db nowMs limit) : Captures db message := by
  obtain ⟨e, he, rfl⟩ := List.mem_map.mp h
  obtain ⟨hmem, hp⟩ := List.mem_filter.mp
    ((List.mem_insertionSort _).mp (List.mem_of_mem_take he))
  simp only [Bool.and_eq_true, decide_eq_true_eq] at hp
  have hscheduled : e.2.scheduledAt.isSome = true := by
    obtain ⟨t, ht, -⟩ := (Option.any_eq_true _ _).mp hp.2
    simp [ht]
  refine ⟨hinv e hmem hp.1 hscheduled, db.messages.id_lt e hmem, fun row hrow _ => ?_⟩
  -- The collected message is a copy of its row, and the row has not moved yet.
  have hsame : (e.1, row) = e := Table.eq_of_id hrow hmem rfl
  rw [← hsame]
  exact ⟨rfl, rfl⟩

/-! ## Section 3: Every step is a change -/

/-- What the operations rely on and keep: the batch describes its rows. -/
structure WellFormed (s : System) : Prop where
  invisible : InvisibleStored s.db
  captured : ∀ message ∈ s.collected, Captures s.db message

section Steps

variable {ε β : Type} {s : System} {adds : Additions}

private theorem changes_commit {r : Except ε Database}
    (h : ∀ db', r = .ok db' → Changes adds s.db db' none) :
    Changes adds s.db (s.commit r).db none := by
  cases r with
  | ok db' => exact h db' rfl
  | error _ => exact .refl s.db

/-- An operation whose event is decided by the row its guard selects. -/
private theorem changes_touched {r : Except ε β} {p : MessageRow → Bool} {event : RowEvent}
    (f : β → Database)
    (h : ∀ b, r = .ok b → ∃ e, s.db.messages.find? (fun e => p e.2) = some e ∧
      Change adds s.db (f b) (some (e.1, event))) :
    Changes adds s.db (s.commit (r.map f)).db (s.touched r p event) := by
  cases r with
  | error _ => exact .refl s.db
  | ok b =>
    obtain ⟨e, hfind, hchange⟩ := h b rfl
    simp only [System.touched, hfind]
    exact .single hchange

/-- The same for an operation that returns the database only. -/
private theorem changes_touched_id {r : Except ε Database} {p : MessageRow → Bool}
    {event : RowEvent}
    (h : ∀ db', r = .ok db' → ∃ e, s.db.messages.find? (fun e => p e.2) = some e ∧
      Change adds s.db db' (some (e.1, event))) :
    Changes adds s.db (s.commit r).db (s.touched r p event) := by
  cases r with
  | error _ => exact .refl s.db
  | ok db' =>
    obtain ⟨e, hfind, hchange⟩ := h db' rfl
    simp only [System.touched, hfind]
    exact .single hchange

/-- **Step lemma**: whatever the operation, the database goes through changes only, with the
operation's event. -/
theorem step_changes (hwf : WellFormed s) (op : Operation) :
    Changes (s.additions op) s.db (s.step op).db (s.event op) := by
  cases op with
  | createQueue name metadata =>
    exact changes_commit fun _ => createValidQueue_changes (.inl rfl) (.inr rfl)
  | deleteQueue name => exact changes_commit fun _ h => .single (deleteQueue_change h)
  | enqueue clock queueName message =>
    exact changes_commit fun _ h => .single (enqueueMessageInTx_change (fun _ hm => hm) h)
  | enqueueBulk clock queueName messages mode =>
    exact enqueueMessagesBulk_changes s.db clock queueName messages mode
      fun message hmem _ hm => ⟨message, hmem, hm⟩
  | claim clock req =>
    simp only [System.step, System.event]
    cases hclaim : claimMessageWithLeaseDuration s.db clock req with
    | error _ => exact .refl s.db
    | ok result => exact .single (claimMessageWithLeaseDuration_change hclaim)
  | acknowledge => exact changes_touched_id fun _ h => acknowledgeMessage_change h
  | nack => exact changes_touched_id fun _ h => nackMessage_change h
  | cancel => exact changes_commit fun _ h => .single (cancelMessage_change h)
  | extend => exact changes_touched Prod.fst fun _ h => extendMessageLease_change h
  | heartbeat => exact changes_touched Prod.fst fun _ h => heartbeatMessage_change h
  | reclaim => exact changes_touched Prod.fst fun _ h => reclaimExpiredMessage_change h
  | retryDLQ => exact changes_touched_id fun _ h => retryDLQMessage_change h
  | deleteDLQ => exact changes_commit fun _ h => .single (deleteDLQMessage_change h)
  | purgeDLQ queueName => exact purgeDLQLoop_changes queueName _ s.db
  | collectScheduled nowMs limit => exact .refl s.db
  | activate clock message =>
    simp only [System.step, System.event]
    split
    · rename_i hmem
      have hcap := hwf.captured message hmem
      exact .single (activateMessage_change hcap.state hcap.row)
    · exact .refl s.db
  | createRun clock run =>
    exact changes_commit fun _ h =>
      .single (createRunMessage_change (fun qm hqm => ⟨qm, hqm, rfl⟩) h)
  | cleanup nowMs limit =>
    simp only [System.step, System.event]
    cases hclean : cleanupExpiredBatch s.db nowMs limit with
    | error _ => exact .refl s.db
    | ok result => exact .single (cleanupExpiredBatch_change hclean)

/-- A transaction's event is on a row its guard admits. -/
theorem touched_eq_some {α : Type} {r : Except ε α} {p : MessageRow → Bool}
    {event e : RowEvent} {i : Nat} (h : s.touched r p event = some (i, e)) :
    e = event ∧ (∃ a, r = .ok a) ∧
      ∃ row, (i, row) ∈ s.db.messages.rows ∧ p row = true := by
  cases r with
  | error _ => cases h
  | ok a =>
    obtain ⟨d, hfind, hd⟩ := Option.map_eq_some_iff.mp h
    cases hd
    obtain ⟨hmem, hp⟩ := find?_eq_some hfind
    exact ⟨rfl, ⟨a, rfl⟩, d.2, hmem, hp⟩

/-- The events of a transaction that neither claims nor renews. -/
theorem unleased_touched {α : Type} (r : Except ε α) (p : MessageRow → Bool) {e : RowEvent}
    (hrenewed : e ≠ .renewed) (hclaimed : ∀ attemptId workerId, e ≠ .claimed attemptId workerId) :
    Unleased (s.touched r p e) := by
  rintro ⟨i, d⟩ hd
  obtain ⟨rfl, -⟩ := touched_eq_some hd
  exact ⟨hrenewed, hclaimed⟩

theorem Operation.PostsWaiting.additions {s : System} {op : Operation} (hop : op.PostsWaiting)
    {m : MessageMetadata} (hm : (s.additions op).message m) :
    m.state = .invisible ∨ m.state = .pending := by
  cases op with
  | enqueue clock queueName message => exact hop m hm
  | enqueueBulk clock queueName messages mode =>
    obtain ⟨message, hmem, hm⟩ := hm
    exact hop message hmem m hm
  | createRun clock run =>
    obtain ⟨_, -, rfl⟩ := hm
    exact .inl rfl
  | createQueue => exact absurd hm id
  | _ => exact absurd hm id

private theorem commit_collected (r : Except ε Database) :
    (s.commit r).collected = s.collected := by
  cases r <;> rfl

/-- Only the scheduler's `SELECT` adds to the batch. -/
theorem step_collected (s : System) (op : Operation) :
    (s.step op).collected = s.collected ∨
      ∃ nowMs limit, (s.step op).db = s.db ∧
        (s.step op).collected = s.collected ++ collectScheduledMessages s.db nowMs limit := by
  cases op with
  | collectScheduled nowMs limit => exact .inr ⟨nowMs, limit, rfl, rfl⟩
  | activate clock message =>
    left
    simp only [System.step]
    split <;> rfl
  | enqueueBulk => exact .inl rfl
  | purgeDLQ => exact .inl rfl
  | _ => exact .inl (commit_collected _)

theorem WellFormed.step (hwf : WellFormed s) (op : Operation) : WellFormed (s.step op) := by
  have hchanges := step_changes hwf op
  have hinv : InvisibleStored (s.step op).db :=
    hchanges.preserves' (fun _ _ _ => InvisibleStored.change) hwf.invisible
  refine ⟨hinv, fun message hmem => ?_⟩
  rcases step_collected s op with hsame | ⟨nowMs, limit, hdb, hmore⟩
  · rw [hsame] at hmem
    exact hchanges.preserves' (P := fun db => Captures db message)
      (fun _ _ _ => Captures.change) (hwf.captured message hmem)
  · rw [hmore] at hmem
    rw [hdb] at hinv ⊢
    rcases List.mem_append.mp hmem with hmem | hmem
    · exact hwf.captured message hmem
    · exact captures_collectScheduledMessages hinv hmem

theorem wellFormed_empty : WellFormed System.empty :=
  ⟨fun _ he => absurd he List.not_mem_nil, fun _ hmem => absurd hmem List.not_mem_nil⟩

theorem wellFormed_run (ops : List Operation) : WellFormed (System.run ops) :=
  invariant_runFrom' System.step WellFormed (fun _ op h => h.step op) wellFormed_empty ops

/-- **Reachability rule**: what holds of the empty database and is preserved by every change
holds after every run. -/
theorem invariant_run {P : Database → Prop} (hempty : P .empty)
    (hP : ∀ adds db db' event, P db → Change adds db db' event → P db') (ops : List Operation) :
    P (System.run ops).db := by
  have hboth : WellFormed (System.run ops) ∧ P (System.run ops).db := by
    apply invariant_runFrom' System.step (fun s => WellFormed s ∧ P s.db)
    · intro s op ⟨hwf, hdb⟩
      exact ⟨hwf.step op, (step_changes hwf op).preserves' (hP _) hdb⟩
    · exact ⟨wellFormed_empty, hempty⟩
  exact hboth.2

end Steps

end Nzovu.Repository
