import Nzovu.Repository.Messages

/-!
# Reclaiming and Dead Letters

Translation of `pkg/repository/sqlite/reclaim.go` and `dlq.go`: returning a message whose lease
or heartbeat has expired to its queue or to the dead letter queue, and requeueing, deleting and
purging dead-lettered messages.
-/

namespace Nzovu.Repository

open Nzovu.Foundation

/-! ## Section 1: Reclaiming expired messages -/

/-- What `FindExpiredMessages` reports about one message: the reclaimer carries the attempt id
it saw (`""` when the column was NULL) to `ReclaimExpiredMessage`. -/
structure ExpiredMessage where
  messageId : String
  attemptId : String
deriving DecidableEq, Repr

/-- `lease_expiry <= now OR (heartbeat_expiry IS NOT NULL AND … heartbeat_expiry <= now)`. -/
def anyExpired (nowMs : Int) (row : MessageRow) : Bool :=
  leaseExpired nowMs row || heartbeatExpired nowMs row

/-- `FindExpiredMessages`. -/
def findExpiredMessages (db : Database) (nowMs : Int) (queueName : String) (limit : Nat) :
    List ExpiredMessage :=
  let found := db.messages.rows.filter fun e =>
    e.2.queueName = queueName && e.2.state = .running && anyExpired nowMs e.2 &&
      e.2.deletedAt = none
  (found.take limit).map fun e => ⟨e.2.messageId, e.2.currentAttemptId.getD ""⟩

/-- `(? = '' AND current_attempt_id IS NULL) OR (? <> '' AND current_attempt_id = ?)`. -/
def attemptMatches (attemptId : String) (row : MessageRow) : Bool :=
  -- the reclaimer saw NULL
  if attemptId = "" then row.currentAttemptId = none else row.currentAttemptId = some attemptId

/-- The `WHERE` clause of the reclaim. -/
def reclaimable (queueName messageId attemptId : String) (nowMs : Int) (row : MessageRow) : Bool :=
  addressed queueName messageId row && row.state = .running && attemptMatches attemptId row &&
    anyExpired nowMs row && row.deletedAt = none

/-- The state a reclaimed message enters. -/
def reclaimState (row : MessageRow) : MessageState :=
  -- the attempt that ends here is still counted
  if row.maxAttempts = -1 ∨ 1 < row.attemptsLeft then .pending else .errored

/-- The columns set by the reclaim's `UPDATE … RETURNING`. -/
def reclaimRow (nowMs : Int) (row : MessageRow) : MessageRow :=
  { row with
    state := reclaimState row
    attemptsLeft := if row.maxAttempts = -1 then -1 else row.attemptsLeft - 1
    updatedAt := nowMs }

/-- The columns set by the statement that clears the lease. -/
def clearReclaimedRow (completedAt deletedAt : Option Int) (row : MessageRow) : MessageRow :=
  { clearLease row with
    completedAt := completedAt
    deletedAt := deletedAt }

/-- `ReclaimResult`. -/
structure ReclaimResult where
  state : MessageState
  leaseExpired : Bool
  heartbeatExpired : Bool
  dlqTarget : String
deriving DecidableEq, Repr

/-- The last part of `ReclaimExpiredMessage`, after the lease is cleared: move the exhausted
message to the dead letter queue, or only count it. -/
def settleReclaimed (db : Database) (queueName messageId dlqName : String)
    (newState : MessageState) : Except StorageError Database :=
  if newState = .errored ∧ dlqName ≠ "" then
    match db.updateMessages
        (fun e => addressed queueName messageId e.2 && e.2.state = newState)
        (fun row => { row with queueName := dlqName }) with
    | .error violated => .error (.plain ("move message to DLQ: " ++ violated.message))
    | .ok db₁ => .ok (moveCounter db₁ queueName .running dlqName newState)
  else .ok (updateCounters db queueName .running newState)

/-- `completed_at` and `deleted_at` of a reclaimed row: NULL unless it became terminal in its
own queue. -/
def reclaimTimestamps (newState : MessageState) (dlqName : String) (nowMs : Int)
    (deletedAt : Option Int) : Option Int × Option Int :=
  if newState = .errored ∧ dlqName = "" then (some nowMs, deletedAt) else (none, none)

/-- `ReclaimExpiredMessage`. Clock readings: `0` for the retention, `1` for the statements. -/
def reclaimExpiredMessage (db : Database) (clock : Readings) (queueName : String)
    (message : ExpiredMessage) : Except StorageError (Database × ReclaimResult) :=
  match getQueueMetadata db queueName with
  | .error err => .error (err.wrap "get queue metadata")
  | .ok metadata =>
    let dlqName := metadata.deadLetterQueueName
    let (shouldDelete, deletedAt) := calculateDeletion (clock 0) metadata.messageRetentionPolicy
    let nowMs := clock 1
    let guard := fun e : Nat × MessageRow =>
      reclaimable queueName message.messageId message.attemptId nowMs e.2
    match db.messages.find? guard with
    | none => .error (.plain "message is no longer expired")
    | some (_, row) =>
      let newState := reclaimState row
      let db₁ := db.modifyMessages guard (reclaimRow nowMs) fun _ => rfl
      let result : ReclaimResult :=
        { state := newState
          leaseExpired := leaseExpired nowMs row
          heartbeatExpired := heartbeatExpired nowMs row
          dlqTarget := if newState = .errored then dlqName else "" }
      -- an exhausted message without a dead letter queue is deleted, if the retention says so
      if newState = .errored ∧ dlqName = "" ∧ shouldDelete = true then
        let db₂ := db₁.deleteMessages fun e =>
          addressed queueName message.messageId e.2 && e.2.state = newState
        match removeCounter db₂ queueName .running with
        | .error err => .error err
        | .ok db' => .ok (db', result)
      else
        let terminal := reclaimTimestamps newState dlqName nowMs deletedAt
        let db₂ := db₁.modifyMessages (fun e => addressed queueName message.messageId e.2)
          (clearReclaimedRow terminal.1 terminal.2) fun _ => rfl
        match settleReclaimed db₂ queueName message.messageId dlqName newState with
        | .error err => .error err
        | .ok db' => .ok (db', result)

/-! ## Section 2: Dead-lettered messages -/

/-- The columns set when a dead-lettered message is requeued. -/
def requeueRow (targetQueueName : String) (attemptsLeft nowMs : Int) (row : MessageRow) :
    MessageRow :=
  { row with
    queueName := targetQueueName
    state := .pending
    attemptsLeft := attemptsLeft
    updatedAt := nowMs }

/-- The row `(queue, message)` of a DLQ operation, which must be ERRORED. -/
def findErrored (db : Database) (dlqName messageId : String) :
    Except StorageError (Nat × MessageRow) :=
  match db.messages.find? fun e => addressed dlqName messageId e.2 with
  | none => .error ⟨.notFound, "message not found: " ++ messageId⟩
  | some e =>
    -- a waiting or running message of the queue is not dead-lettered
    if e.2.state ≠ .errored then .error ⟨.failedPrecondition, "message is not in DLQ state"⟩
    else .ok e

/-- The `attempts_left` of a requeued message: the maximum in its protobuf when retries are
reset, else the column as it is. -/
def requeueAttempts (resetRetries : Bool) (row : MessageRow) : Int :=
  if resetRetries then row.metadata.maxAttempts else row.attemptsLeft

/-- `RetryDLQMessage`. The `UPDATE` repeats neither the state check nor looks at the number of
rows it affected. -/
def retryDLQMessage (db : Database) (clock : Readings)
    (dlqName messageId targetQueueName : String) (resetRetries : Bool) :
    Except StorageError Database :=
  match findErrored db dlqName messageId with
  | .error err => .error err
  | .ok (_, row) =>
    match db.updateMessages (fun e => addressed dlqName messageId e.2)
        (requeueRow targetQueueName (requeueAttempts resetRetries row) (clock 0)) with
    | .error .unique =>
      .error ⟨.alreadyExists, "message " ++ messageId.quote ++ " already exists in queue " ++
        targetQueueName.quote⟩
    | .error .foreignKey =>
      .error (.plain ("update message: " ++ Database.Constraint.foreignKey.message))
    | .ok db₁ => .ok (moveCounter db₁ dlqName row.state targetQueueName .pending)

/-- `DeleteDLQMessage`. -/
def deleteDLQMessage (db : Database) (queueName messageId : String) :
    Except StorageError Database :=
  match findErrored db queueName messageId with
  | .error err => .error err
  | .ok (_, row) =>
    removeCounter (db.deleteMessages fun e => addressed queueName messageId e.2) queueName row.state

/-- The ids a purge batch deletes: the first ERRORED rows of the queue. -/
def purgeBatchIds (db : Database) (queueName : String) (limit : Nat) : List Nat :=
  ((db.messages.rows.filter fun e =>
    e.2.queueName = queueName && e.2.state = .errored).take limit).map Prod.fst

/-- `purgeDLQBatch`: the database left and the number of deleted rows. -/
def purgeDLQBatch (db : Database) (queueName : String) (limit : Nat) :
    Except StorageError (Database × Nat) :=
  let ids := purgeBatchIds db queueName limit
  let guard := fun e : Nat × MessageRow => decide (e.1 ∈ ids)
  let deleted := rowsAffected db guard
  match removeCounters (db.deleteMessages guard) queueName .errored deleted with
  | .error err => .error (err.wrap "update state counts")
  | .ok db' => .ok (db', deleted)

/-- `dlqPurgeBatchSize`. -/
def dlqPurgeBatchSize : Nat := 100

/-- The batches of `PurgeDLQ`, each in its own transaction, until one is not full. -/
def purgeDLQLoop (queueName : String) : Nat → Database → Database × Except StorageError Nat
  | 0, db => (db, .ok 0)
  | fuel + 1, db =>
    match purgeDLQBatch db queueName dlqPurgeBatchSize with
    | .error err => (db, .error (err.wrap "purge DLQ batch"))
    | .ok (db₁, deleted) =>
      -- a batch that is not full was the last
      if deleted < dlqPurgeBatchSize then (db₁, .ok deleted)
      else
        match purgeDLQLoop queueName fuel db₁ with
        | (db', .error err) => (db', .error err)
        | (db', .ok total) => (db', .ok (deleted + total))

/-- `PurgeDLQ`. A full batch deletes `dlqPurgeBatchSize` rows, so there are fewer batches than
rows and the fuel does not run out. -/
def purgeDLQ (db : Database) (queueName : String) : Database × Except StorageError Nat :=
  purgeDLQLoop queueName (db.messages.rows.length + 1) db

/-! ## Section 3: The service operations -/

/-- `requireDLQ`. -/
def requireDLQ (db : Database) (name : String) : Except StorageError Unit :=
  match getQueueMetadata db name with
  | .error err => .error err
  | .ok _ =>
    if db.isDLQ name = true then .ok ()
    else .error ⟨.failedPrecondition,
      "queue " ++ name.quote ++ " is not configured as a dead letter queue"⟩

/-- `rejectDLQOperation`. -/
def rejectDLQOperation (db : Database) (name : String) : Except StorageError Unit :=
  if db.isDLQ name = true then
    .error ⟨.failedPrecondition, "queue " ++ name.quote ++ " is a dead letter queue"⟩
  else .ok ()

/-- `RequeueFromDLQ`: the target has to exist, whatever queue it is. -/
def requeueFromDLQ (db : Database) (clock : Readings)
    (dlqName messageId targetQueueName : String) (resetRetries : Bool) :
    Except StorageError Database :=
  if targetQueueName = "" then .error ⟨.invalidArgument, "target queue name is required"⟩
  else
    match requireDLQ db dlqName with
    | .error err => .error err
    | .ok () =>
      match getQueueMetadata db targetQueueName with
      | .error err => .error err
      | .ok _ => retryDLQMessage db clock dlqName messageId targetQueueName resetRetries

/-- `GetQueueMessage`, with the optional lease duration already decoded. -/
def getQueueMessage (db : Database) (clock : Readings) (req : ClaimRequest) :
    Except StorageError (Database × Option (Nat × MessageRow)) :=
  if req.queueName = "" then .error ⟨.invalidArgument, "queue name is required"⟩
  else
    match rejectDLQOperation db req.queueName with
    | .error err => .error err
    | .ok () => claimMessageWithLeaseDuration db clock req

end Nzovu.Repository
