import Mathlib.Data.List.Dedup
import Mathlib.Data.List.Sort
import Nzovu.Repository.Validation

/-!
# Background Services on Messages

The transactions the background services run on messages
(`pkg/repository/sql/background`): activating messages whose scheduled time has come
(`scheduler.go`), inserting the message of a cron or calendar run (`cron_processor.go`,
`calendar.go`), and deleting messages whose retention has ended (`cleanup.go`).
-/

namespace Nzovu.Background

open Nzovu.Foundation
open Nzovu.Repository

/-! ## Section 1: Scheduled messages -/

/-- What `collectScheduledMessages` remembers of a row until it is activated: the queue, the
decoded message and the clock reading of the cycle are those of the time of collection. -/
structure ScheduledMessage where
  id : Nat
  queueName : String
  messageId : String
  metadata : MessageMetadata
  nowMs : Int
deriving DecidableEq, Repr

/-- `ORDER BY scheduled_at ASC, priority DESC`. -/
def activationOrder (a b : Nat × MessageRow) : Bool :=
  let ta := a.2.scheduledAt.getD 0
  let tb := b.2.scheduledAt.getD 0
  ta < tb || (ta = tb && b.2.priority ≤ a.2.priority)

/-- `collectScheduledMessages`. -/
def collectScheduledMessages (db : Database) (nowMs : Int) (limit : Nat) :
    List ScheduledMessage :=
  let due := db.messages.rows.filter fun e =>
    e.2.state = .invisible && e.2.scheduledAt.any (· ≤ nowMs)
  ((due.insertionSort fun a b => activationOrder a b = true).take limit).map fun e =>
    ⟨e.1, e.2.queueName, e.2.messageId, e.2.metadata, nowMs⟩

/-- The columns set by an activation. -/
def activateRow (metadata : MessageMetadata) (updatedAt : Int) (row : MessageRow) : MessageRow :=
  { row with
    state := .pending
    metadata := metadata
    updatedAt := updatedAt }

/-- `activateMessage`: whether the message was activated. The counters move from the state in
the collected message, not from the column. -/
def activateMessage (db : Database) (clock : Readings) (message : ScheduledMessage) :
    Database × Bool :=
  let guard := fun e : Nat × MessageRow =>
    e.1 = message.id && e.2.state = .invisible && e.2.scheduledAt.any (· ≤ message.nowMs)
  -- the message was cancelled or changed since it was collected
  if rowsAffected db guard = 0 then (db, false)
  else
    let metadata := { message.metadata with state := .pending }
    let db₁ := db.modifyMessages guard (activateRow metadata (clock 0)) fun _ => rfl
    (updateCounters db₁ message.queueName message.metadata.state .pending, true)

/-! ## Section 2: Messages of a schedule -/

/-- The lease policy a schedule's message is built with: the queue's, with the schedule's lease
duration as base lease when it has one. -/
def scheduleLeasePolicy (queueMetadata : QueueMetadata) (leaseDuration : Option Duration) :
    Option LeasePolicy :=
  match leaseDuration, queueMetadata.leasePolicy with
  | none, policy => policy
  | some d, some policy => some { policy with baseLease := some d }
  | some d, none => some ⟨some d, none, none, none, 0⟩

/-- The metadata of a schedule's message for the run at `runTime` (nanoseconds), as validation
leaves it. -/
def scheduleMessageMetadata (queueMetadata : QueueMetadata) (priority : Int)
    (leaseDuration : Option Duration) (runTime : Int) : MessageMetadata :=
  let maxAttempts :=
    if queueMetadata.defaultMaxAttempts = 0 then 3 else queueMetadata.defaultMaxAttempts
  { state := .invisible
    attemptsLeft := maxAttempts
    maxAttempts := maxAttempts
    priority := priority
    scheduledTime := some runTime
    leasePolicy := some (effectiveLeasePolicy queueMetadata
      ((scheduleLeasePolicy queueMetadata leaseDuration).map LeasePolicy.requested)
      leaseDuration) }

/-- A run's message as `createCronMessage` and `createScheduledMessage` build it. -/
structure ScheduleRun where
  queueName : String
  /-- `generateID()`. -/
  messageId : String
  priority : Int
  leaseDuration : Option Duration
  /-- Instant of the run, in nanoseconds. -/
  runTime : Int
  /-- The error text of the payload validation of the run's message, if it fails. -/
  validationFailure : Option String
deriving DecidableEq, Repr

/-- A failed insertion: the processors treat a validation failure differently. -/
inductive ScheduleRunError where
  | validation (message : String)
  | storage (err : StorageError)
deriving DecidableEq, Repr

/-- `createCronMessage` and `createScheduledMessage`, which are the same code: insert the
message of one run, INVISIBLE until the scheduler activates it. The history row they also
insert is kept by the schedule model. -/
def createRunMessage (db : Database) (clock : Readings) (run : ScheduleRun) :
    Except ScheduleRunError Database :=
  -- the metadata of the queue is read inside the transaction
  match db.queueMetadata? run.queueName with
  | none => .error (.storage (.plain "queue not found"))
  | some queueMetadata =>
    match run.validationFailure with
    | some text => .error (.validation ("scheduled message validation failed: " ++ text))
    | none =>
      let metadata :=
        scheduleMessageMetadata queueMetadata run.priority run.leaseDuration run.runTime
      match db.insertMessage (newRow run.queueName run.messageId metadata
          (some (unixMilli run.runTime)) (clock 0) (clock 0)) with
      | .error violated => .error (.storage (.plain ("insert message: " ++ violated.message)))
      | .ok db₁ => .ok (insertCounter db₁ run.queueName .invisible)

/-- A successful insertion adds the message of the run, INVISIBLE until its instant. -/
theorem createRunMessage_ok {db db' : Database} {clock : Readings} {run : ScheduleRun}
    (h : createRunMessage db clock run = .ok db') :
    ∃ row : MessageRow, row.queueName = run.queueName ∧ row.messageId = run.messageId ∧
      row.state = .invisible ∧ row.scheduledAt = some (unixMilli run.runTime) ∧
      db'.messages.rows = db.messages.rows ++ [(db.messages.nextId, row)] := by
  unfold createRunMessage at h
  cases hqueue : db.queueMetadata? run.queueName with
  | none => simp [hqueue] at h
  | some queueMetadata =>
    cases hvalid : run.validationFailure with
    | some text => simp [hqueue, hvalid] at h
    | none =>
      simp only [hqueue, hvalid] at h
      split at h
      · cases h
      next db₁ hinsert =>
        cases h
        have hrows := (Database.insertMessage_eq_ok hinsert).2.2.2.1
        refine ⟨_, ?_, ?_, ?_, ?_, hrows⟩ <;> rfl

/-! ## Section 3: Retention cleanup -/

/-- `ORDER BY deleted_at, id`. -/
def cleanupOrder (a b : Nat × MessageRow) : Bool :=
  let ta := a.2.deletedAt.getD 0
  let tb := b.2.deletedAt.getD 0
  ta < tb || (ta = tb && a.1 ≤ b.1)

/-- The rows of the `expired` common table expression. -/
def expiredRows (db : Database) (nowMs : Int) (limit : Nat) : List (Nat × MessageRow) :=
  let expired := db.messages.rows.filter fun e => e.2.deletedAt.any (· ≤ nowMs)
  (expired.insertionSort fun a b => cleanupOrder a b = true).take limit

/-- Queue and state of each deleted row, each pair once: the keys of the `counts` map. -/
def countGroups (deleted : List (Nat × MessageRow)) : List (String × MessageState) :=
  (deleted.map fun e => (e.2.queueName, e.2.state)).dedup

theorem nodup_countGroups (deleted : List (Nat × MessageRow)) : (countGroups deleted).Nodup :=
  List.nodup_dedup _

theorem mem_countGroups {deleted : List (Nat × MessageRow)} {g : String × MessageState} :
    g ∈ countGroups deleted ↔ ∃ e ∈ deleted, (e.2.queueName, e.2.state) = g := by
  rw [countGroups, List.mem_dedup, List.mem_map]

/-- The loop over the `counts` map. -/
def removeGroupCounters (deleted : List (Nat × MessageRow)) :
    Database → List (String × MessageState) → Except StorageError Database
  | db, [] => .ok db
  | db, (queueName, state) :: rest =>
    -- one statement for each queue and state
    let count := Table.tally deleted (MessageRow.countsAs queueName state)
    match removeCounters db queueName state count with
    | .error err => .error (err.wrap ("update " ++ queueName ++ " cleanup counters"))
    | .ok db₁ => removeGroupCounters deleted db₁ rest

/-- `cleanupExpiredBatch`: the database left and the number of deleted rows. -/
def cleanupExpiredBatch (db : Database) (nowMs : Int) (limit : Nat) :
    Except StorageError (Database × Nat) :=
  let ids := (expiredRows db nowMs limit).map Prod.fst
  let guard := fun e : Nat × MessageRow => decide (e.1 ∈ ids)
  let deleted := db.messages.rows.filter guard
  match removeGroupCounters deleted (db.deleteMessages guard) (countGroups deleted) with
  | .error err => .error err
  | .ok db' => .ok (db', deleted.length)

end Nzovu.Background
