import Nzovu.Foundation.Transaction.Program
import Nzovu.Repository.DeadLetter

/-!
# Transactions of the Postgres Backend

Translation of the concurrent operations of `pkg/repository/postgres` (`messages.go`,
`reclaim.go`, `dlq.go`) and of the counter statements of `pkg/repository/sql/state.go`,
statement by statement. What a statement does to a row is the same in both backends; the
functions on rows and the `WHERE` clauses are those of the SQLite translation.

Reads made before the transaction is opened are plain reads of the program: under READ
COMMITTED the two do not differ.
-/

namespace Nzovu.Postgres

open Nzovu.Foundation
open Nzovu.Repository

/-! ## Section 1: Tables -/

/-- The tables the transactions work on. -/
inductive Tab where
  | messages
  | queues
deriving DecidableEq, Repr

/-- The primary keys: `cq_messages.id` and `cq_queues.name`. -/
@[reducible] def Key : Tab → Type
  | .messages => Nat
  | .queues => String

/-- The rows. -/
@[reducible] def Row : Tab → Type
  | .messages => MessageRow
  | .queues => QueueRow

instance : ∀ T : Tab, DecidableEq (Key T)
  | .messages => inferInstanceAs (DecidableEq Nat)
  | .queues => inferInstanceAs (DecidableEq String)

/-- `UNIQUE (queue_name, message_id)`. -/
def clash : ∀ T, Row T → Row T → Bool
  | .messages => fun a b => a.uniqueKey = b.uniqueKey
  | .queues => fun _ _ => false

/-- `FOREIGN KEY (queue_name) REFERENCES cq_queues(name)`. -/
def requires : ∀ T, Row T → List (Ref Key)
  | .messages => fun row => [⟨.queues, row.queueName⟩]
  | .queues => fun _ => []

/-- The schema, with the ids and names that are in use. -/
def schema (ids : List Nat) (names : List String) (hids : ids.Nodup) (hnames : names.Nodup) :
    Schema Key Row where
  keys := fun
    | .messages => ids
    | .queues => names
  nodup := fun
    | .messages => hids
    | .queues => hnames
  clash := clash
  clash_symm := by
    intro T a b
    cases T with
    | messages => simp [clash, eq_comm]
    | queues => rfl
  requires := requires

/-- The body of a transaction. -/
abbrev Transaction := Program Key Row StorageError

/-- Text of the engine's error for a violated constraint. -/
def violationText : Violation → String
  | .unique => "pq: duplicate key value violates unique constraint"
  | .foreignKey => "pq: insert or update on table violates foreign key constraint"

/-- `fmt.Errorf("context: %w", err)` around the error of a refused statement. -/
def refused (context : String) (violation : Violation) : StorageError :=
  .plain (context ++ ": " ++ violationText violation)

/-- `SELECT … FROM cq_messages … FOR UPDATE`. -/
def selectMessages (s : Selection Key Row Tab.messages) :
    Transaction (List (Nat × MessageRow)) :=
  Program.selectForUpdate Tab.messages s

/-- `UPDATE cq_messages SET … WHERE …`. -/
def updateMessages (filter : Nat → MessageRow → Bool) (set : MessageRow → MessageRow)
    (refused : Violation → StorageError) : Transaction (List (Nat × MessageRow)) :=
  Program.update Tab.messages filter set refused

/-- `DELETE FROM cq_messages WHERE …`. -/
def deleteMessages (filter : Nat → MessageRow → Bool) (refused : Violation → StorageError) :
    Transaction (List (Nat × MessageRow)) :=
  Program.delete Tab.messages filter refused

/-! ## Section 2: Counters and shared pieces -/

/-- `GetQueueMetadata`, with its error wrapped by the caller. -/
def getQueueMetadata (queueName : String) : Transaction QueueMetadata := do
  let rows ← Program.readRows
  match (rows .queues).find? fun e => e.1 = queueName with
  | some e => pure e.2.metadata
  | none =>
    .fail (StorageError.wrap "get queue metadata"
      ⟨.notFound, "queue " ++ queueName.quote ++ " not found"⟩)

/-- `UPDATE cq_queues SET state_counts = … WHERE name = ?`. -/
def addCounter (queueName : String) (state : MessageState) (amount : Int) :
    Transaction Unit := do
  let _ ← Program.update Tab.queues (fun name _ => decide (name = queueName))
    (QueueRow.addCount (stateToKey state) amount) (refused "update counter")
  pure ()

/-- `UpdateCounters`. -/
def updateCounters (queueName : String) (oldState newState : MessageState) :
    Transaction Unit :=
  -- nothing moves
  if oldState = newState then pure ()
  else do
    addCounter queueName oldState (-1)
    addCounter queueName newState 1

/-- `MoveCounter`. -/
def moveCounter (sourceQueue : String) (sourceState : MessageState) (targetQueue : String)
    (targetState : MessageState) : Transaction Unit := do
  addCounter sourceQueue sourceState (-1)
  addCounter targetQueue targetState 1

/-- `RemoveCounters`. -/
def removeCounters (queueName : String) (state : MessageState) (count : Int) :
    Transaction Unit :=
  if count < 0 then .fail (.plain s!"counter decrement must be non-negative: {count}")
  else if count = 0 then pure ()
  else addCounter queueName state (-count)

/-- `RemoveCounter`. -/
def removeCounter (queueName : String) (state : MessageState) : Transaction Unit :=
  removeCounters queueName state 1

/-- `calculateDeletion`: the clock is read only when the message is kept. -/
def calculateDeletion (policy : Option RetentionPolicy) : Transaction (Bool × Option Int) :=
  if policy.all fun policy => policy.mode = .deleteImmediately then pure (true, none)
  else do
    let nowMs ← Program.readClock
    pure (Repository.calculateDeletion nowMs policy)

/-- The error of an operation that found no row it owns: `classifyOwnedMessageFailure`. -/
def ownedMessageFailure {α : Type} (queueName messageId attemptId workerId : String)
    (nowMs : Int) : Transaction α := do
  let rows ← Program.readRows
  .fail (classifyOwnedMessageFailure (rows .messages) queueName messageId attemptId workerId
    nowMs)

/-- `requireOneOwnedMessage`. -/
def requireOneOwnedMessage (found : List (Nat × MessageRow))
    (queueName messageId attemptId workerId : String) (nowMs : Int) : Transaction Unit :=
  if found.length ≠ 1 then ownedMessageFailure queueName messageId attemptId workerId nowMs
  else pure ()

/-- What a call returns, with the ids of the rows it worked on. -/
inductive Reply where
  | claimed (message : Option (Nat × MessageRow))
  | acknowledged (id : Nat)
  | rejected (id : Nat)
  | extended (id : Nat) (remainingMs : Int)
  | heartbeat (id : Nat) (state : MessageState) (remainingMs : Int)
  | reclaimed (id : Nat) (result : ReclaimResult)
  | requeued (ids : List Nat)
  | deleted (ids : List Nat)
deriving DecidableEq, Repr

/-! ## Section 3: Claiming -/

/-- The priority level a claim tries first, as in the SQLite translation. The three levels are
looked at by separate statements. -/
def claimLevel (metadata : QueueMetadata) (req : ClaimRequest) :
    Transaction (Option (Option PriorityLevel)) :=
  match metadata.priorityConfig with
  | none => pure none
  | some cfg =>
    if cfg.policy = .strict then pure none
    else do
      let nowMs ← Program.readClock
      -- one statement for each level, and each sees its own snapshot
      let high ← Program.readRows
      let medium ← Program.readRows
      let low ← Program.readRows
      let oldest := fun
        | .high => oldestCreatedAt (high .messages) req.queueName .high nowMs
        | .medium => oldestCreatedAt (medium .messages) req.queueName .medium nowMs
        | .low => oldestCreatedAt (low .messages) req.queueName .low nowMs
      match calculateWeights cfg nowMs oldest with
      | .error err => .fail err
      | .ok weights => pure (some (selectPriorityLevel weights req.randomSource))

/-- On an EXCLUSIVE queue: lock the queue's row, then look for an unexpired lease. The result
says whether the claim may go on. -/
def checkExclusive (metadata : QueueMetadata) (queueName : String) : Transaction Bool :=
  if metadata.type ≠ .exclusive then pure true
  else do
    -- claims on the queue wait for one another here
    let locked ← Program.selectForUpdate Tab.queues
      { filter := fun name _ => decide (name = queueName) }
    if locked.isEmpty then .fail (.plain "lock exclusive queue: sql: no rows in result set")
    else
      let nowMs ← Program.readClock
      let rows ← Program.readRows
      pure (!hasActiveLease (rows .messages) queueName nowMs)

/-- `ORDER BY priority DESC, id ASC LIMIT 1 FOR UPDATE SKIP LOCKED`, within a level if one is
given. -/
def claimSelection (queueName : String) (nowMs : Int) (level : Option PriorityLevel) :
    Selection Key Row Tab.messages where
  filter := fun _ row => claimable queueName nowMs row && level.all fun l => inLevel l row
  before := fun a b =>
    b.2.priority < a.2.priority || (b.2.priority = a.2.priority && decide (a.1 ≤ b.1))
  limit := some 1
  mode := .skipLocked

/-- The level query first, then the strict one when the level has no free row. -/
def selectCandidate (queueName : String) (level : Option PriorityLevel) :
    Transaction (Option (Nat × MessageRow)) := do
  let nowMs ← Program.readClock
  let found ← selectMessages (claimSelection queueName nowMs level)
  match found, level with
  -- the level has no free row
  | [], some _ => do
    let found ← selectMessages (claimSelection queueName nowMs none)
    pure found.head?
  | found, _ => pure found.head?

/-- The claim's update of the selected row, by its id, and its counters. -/
def takeLease (req : ClaimRequest) (e : Nat × MessageRow) : Transaction Reply :=
  match e.2.metadata.leasePolicy with
  | none => .fail (.plain "message has no lease policy")
  | some policy => do
    let leaseMs ← Program.readClock
    -- the lease begins before the row is written
    let runtime := claimRuntime policy req.leaseDuration leaseMs
    let nowMs ← Program.readClock
    let row := claimRow req.attempt req.worker runtime nowMs
    let _ ← updateMessages (fun id _ => decide (id = e.1)) row (refused "update message")
    updateCounters req.queueName e.2.state .running
    pure (.claimed (some (e.1, row e.2)))

/-- `ClaimMessageWithLeaseDuration`. -/
def claimMessageWithLeaseDuration (req : ClaimRequest) : Transaction Reply := do
  let metadata ← getQueueMetadata req.queueName
  match validateClaimExclusivity metadata req.exclusivityKey with
  | .error err => .fail err
  | .ok () =>
    let level ← claimLevel metadata req
    -- the weights select no level
    if level = some none then pure (.claimed none)
    else
      let free ← checkExclusive metadata req.queueName
      if free then
        let candidate ← selectCandidate req.queueName level.join
        match candidate with
        | none => pure (.claimed none)
        | some e => takeLease req e
      else pure (.claimed none)

/-! ## Section 4: Operations of the worker that holds a message -/

/-- `AcknowledgeMessage`. -/
def acknowledgeMessage (queueName messageId attemptId workerId : String) :
    Transaction Reply := do
  let metadata ← getQueueMetadata queueName
  let (shouldDelete, deletedAt) ← calculateDeletion metadata.messageRetentionPolicy
  let nowMs ← Program.readClock
  -- `lease_started_at`, for a metric.
  let _ ← Program.readRows
  let guard := fun (_ : Nat) row => owned queueName messageId attemptId workerId nowMs row
  if shouldDelete then
    let found ← deleteMessages guard (refused "delete message")
    -- the statement affects the one row that it owns, or none
    match found with
    | [] => ownedMessageFailure queueName messageId attemptId workerId nowMs
    | e :: _ => do
      removeCounter queueName .running
      pure (.acknowledged e.1)
  else
    let found ← updateMessages guard (completeRow nowMs deletedAt)
      (refused "soft delete message")
    match found with
    | [] => ownedMessageFailure queueName messageId attemptId workerId nowMs
    | e :: _ => do
      updateCounters queueName .running .completed
      pure (.acknowledged e.1)

/-- The exhausted branch of `NackMessage`. -/
def nackExhausted (metadata : QueueMetadata) (queueName messageId attemptId workerId : String)
    (nowMs : Int) (e : Nat × MessageRow) : Transaction Unit := do
  let guard := fun (_ : Nat) row => owned queueName messageId attemptId workerId nowMs row
  let dlqName := metadata.deadLetterQueueName
  let deletion ← calculateDeletion metadata.messageRetentionPolicy
  let (shouldDelete, deletedAt) := if dlqName ≠ "" then (false, none) else deletion
  if shouldDelete then
    let found ← deleteMessages guard (refused "delete errored message")
    requireOneOwnedMessage found queueName messageId attemptId workerId nowMs
    removeCounter queueName e.2.state
  else
    let terminalQueueName := if dlqName ≠ "" then dlqName else queueName
    let found ← updateMessages guard
      (exhaustRow terminalQueueName (decrementAttempts e.2.attemptsLeft) nowMs deletedAt)
      (refused "soft delete errored message")
    requireOneOwnedMessage found queueName messageId attemptId workerId nowMs
    if dlqName ≠ "" then moveCounter queueName e.2.state dlqName .errored
    else updateCounters queueName e.2.state .errored

/-- `NackMessage`. -/
def nackMessage (queueName messageId attemptId workerId : String) : Transaction Reply := do
  let metadata ← getQueueMetadata queueName
  let nowMs ← Program.readClock
  let guard := fun (_ : Nat) row => owned queueName messageId attemptId workerId nowMs row
  -- from here on nobody else changes the row
  let locked ← selectMessages { filter := guard }
  match locked with
  | [] => ownedMessageFailure queueName messageId attemptId workerId nowMs
  | e :: _ =>
    if NackExhausts e.2.attemptsLeft then do
      nackExhausted metadata queueName messageId attemptId workerId nowMs e
      pure (.rejected e.1)
    else do
      let found ← updateMessages guard
        (retryRow (decrementAttempts e.2.attemptsLeft) nowMs) (refused "update message")
      requireOneOwnedMessage found queueName messageId attemptId workerId nowMs
      updateCounters queueName e.2.state .pending
      pure (.rejected e.1)

/-- `ExtendMessageLease`. -/
def extendMessageLease (queueName messageId attemptId workerId : String) (extensionMs : Int) :
    Transaction Reply := do
  let nowMs ← Program.readClock
  let guard := fun (_ : Nat) row => owned queueName messageId attemptId workerId nowMs row
  let locked ← selectMessages { filter := guard }
  match locked with
  | [] => ownedMessageFailure queueName messageId attemptId workerId nowMs
  | e :: _ =>
    let policy := e.2.metadata.leasePolicy
    if renewalLimitReached policy e.2.leaseRenewalCount then
      .fail ⟨.failedPrecondition, "lease renewal limit reached: " ++
        toString e.2.leaseRenewalCount ++ "/" ++
        toString ((policy.map (·.maxRenewals)).getD 0) ++ " renewals used"⟩
    else
      match extendLease policy (e.2.leaseExpiry.getD 0) e.2.leaseExtensionUsed extensionMs with
      | .error _ => .fail ⟨.failedPrecondition, "lease cannot be extended"⟩
      | .ok runtime => do
        let updatedAt ← Program.readClock
        let found ← updateMessages guard (extendRow runtime updatedAt)
          (refused "update message")
        requireOneOwnedMessage found queueName messageId attemptId workerId nowMs
        let endMs ← Program.readClock
        pure (.extended e.1 (max (int64 (runtime.leaseExpiry - endMs)) 0))

/-- The lease columns a heartbeat writes: expiry, extension used, renewals. -/
def heartbeatLease (policy : Option LeasePolicy) (row : MessageRow) :
    Except StorageError (Int × Int × Int) :=
  let leaseExpiry := row.leaseExpiry.getD 0
  if heartbeatExtends policy row then
    let step := milliseconds (asDuration (policy.bind (·.extendStep)))
    match extendLease policy leaseExpiry row.leaseExtensionUsed step with
    | .error err => .error (.plain ("extend lease for heartbeat: " ++ err.message))
    | .ok runtime =>
      .ok (runtime.leaseExpiry, runtime.leaseExtensionUsed, row.leaseRenewalCount + 1)
  else .ok (leaseExpiry, row.leaseExtensionUsed, row.leaseRenewalCount)

/-- `HeartbeatMessage`. -/
def heartbeatMessage (queueName messageId attemptId workerId : String) :
    Transaction Reply := do
  let nowMs ← Program.readClock
  let guard := fun (_ : Nat) row => owned queueName messageId attemptId workerId nowMs row
  let locked ← selectMessages { filter := guard }
  match locked with
  | [] => ownedMessageFailure queueName messageId attemptId workerId nowMs
  | e :: _ =>
    let policy := e.2.metadata.leasePolicy
    let heartbeatExpiry := nextHeartbeatExpiry policy nowMs
    match heartbeatLease policy e.2 with
    | .error err => .fail err
    | .ok (leaseExpiry, extensionUsed, renewals) => do
      let found ← updateMessages guard
        (heartbeatRow nowMs heartbeatExpiry leaseExpiry extensionUsed renewals)
        (refused "update heartbeat")
      requireOneOwnedMessage found queueName messageId attemptId workerId nowMs
      pure (.heartbeat e.1 e.2.state (max (int64 (leaseExpiry - nowMs)) 0))

/-! ## Section 5: Reclaiming -/

/-- The `WHERE` clause of the reclaim's `SELECT`: like `reclaimable`, without the expiry. -/
def heldBy (queueName messageId attemptId : String) (row : MessageRow) : Bool :=
  addressed queueName messageId row && row.state = .running && attemptMatches attemptId row &&
    row.deletedAt = none

/-- `UPDATE … WHERE queue_name = ? AND message_id = ? AND state = ?`, which must affect one
row. -/
def settleReclaimed (queueName messageId : String) (newState : MessageState) (context : String)
    (set : MessageRow → Option MessageRow) : Transaction Unit := do
  let found ← Program.modify Tab.messages
    (fun (_ : Nat) row => addressed queueName messageId row && row.state = newState)
    set (refused context)
  if found.length ≠ 1 then
    .fail (.plain s!"{context}: expected one row, updated {found.length}")
  else pure ()

/-- What happens to the row and the counters once its lease is cleared. -/
def finishReclaim (metadata : QueueMetadata) (deletion : Bool × Option Int)
    (queueName messageId : String) (nowMs : Int) (newState : MessageState) : Transaction Unit :=
  let dlqName := metadata.deadLetterQueueName
  if newState = .errored ∧ dlqName = "" then
    if deletion.1 then do
      settleReclaimed queueName messageId newState "delete exhausted message" fun _ => none
      removeCounter queueName .running
    else do
      settleReclaimed queueName messageId newState "set exhausted message retention timestamps"
        fun row => some { row with completedAt := some nowMs, deletedAt := deletion.2 }
      updateCounters queueName .running newState
  else if newState = .errored then do
    settleReclaimed queueName messageId newState "move message to DLQ"
      fun row => some { row with queueName := dlqName }
    moveCounter queueName .running dlqName newState
  else updateCounters queueName .running newState

/-- `ReclaimExpiredMessage`. The first `UPDATE` sets the columns of `reclaimRow` and
`clearReclaimedRow` at once. -/
def reclaimExpiredMessage (queueName : String) (message : ExpiredMessage) :
    Transaction Reply := do
  let metadata ← getQueueMetadata queueName
  let deletion ← calculateDeletion metadata.messageRetentionPolicy
  let nowMs ← Program.readClock
  let locked ← selectMessages
    { filter := fun _ row => heldBy queueName message.messageId message.attemptId row }
  match locked with
  | [] => .fail (.plain "message is no longer expired")
  | e :: _ =>
    -- the row may have been renewed before it was locked
    if anyExpired nowMs e.2 then
      let found ← updateMessages
        (fun (_ : Nat) row =>
          reclaimable queueName message.messageId message.attemptId nowMs row)
        (fun row => clearReclaimedRow none none (reclaimRow nowMs row)) (refused "update message")
      if found.isEmpty then .fail (.plain "message is no longer expired")
      else
        let newState := reclaimState e.2
        finishReclaim metadata deletion queueName message.messageId nowMs newState
        pure (.reclaimed e.1
          { state := newState
            leaseExpired := leaseExpired nowMs e.2
            heartbeatExpired := heartbeatExpired nowMs e.2
            dlqTarget := if newState = .errored then metadata.deadLetterQueueName else "" })
    else .fail (.plain "message is no longer expired")

/-! ## Section 6: Dead letters -/

/-- The row of a DLQ operation as a plain `SELECT` sees it; it must be ERRORED. -/
def findErrored (dlqName messageId : String) : Transaction (Nat × MessageRow) := do
  let rows ← Program.readRows
  match (rows .messages).find? fun e => addressed dlqName messageId e.2 with
  | none => .fail ⟨.notFound, "message not found: " ++ messageId⟩
  | some e =>
    if e.2.state ≠ .errored then .fail ⟨.failedPrecondition, "message is not in DLQ state"⟩
    else pure e

/-- The error of a refused requeue. -/
def requeueRefused (messageId targetQueueName : String) : Violation → StorageError
  | .unique => ⟨.alreadyExists, "message " ++ messageId.quote ++ " already exists in queue " ++
      targetQueueName.quote⟩
  | .foreignKey => refused "update message" .foreignKey

/-- `RetryDLQMessage`. The row is read without a lock, the `UPDATE` repeats neither the state
check nor looks at the number of rows it affected. -/
def retryDLQMessage (dlqName messageId targetQueueName : String) (resetRetries : Bool) :
    Transaction Reply := do
  let e ← findErrored dlqName messageId
  let nowMs ← Program.readClock
  -- whatever the state of the row is by now
  let found ← updateMessages (fun (_ : Nat) row => addressed dlqName messageId row)
    (requeueRow targetQueueName (requeueAttempts resetRetries e.2) nowMs)
    (requeueRefused messageId targetQueueName)
  moveCounter dlqName e.2.state targetQueueName .pending
  pure (.requeued (found.map Prod.fst))

/-- `DeleteDLQMessage`. -/
def deleteDLQMessage (queueName messageId : String) : Transaction Reply := do
  let e ← findErrored queueName messageId
  let found ← deleteMessages (fun (_ : Nat) row => addressed queueName messageId row)
    (refused "delete message")
  -- another transaction has deleted it in between
  if found.length = 0 then .fail ⟨.notFound, "message not found: " ++ messageId⟩
  else do
    removeCounter queueName e.2.state
    pure (.deleted (found.map Prod.fst))

/-- `purgeDLQBatch`: `DELETE … WHERE id IN (SELECT … FOR UPDATE SKIP LOCKED)`. -/
def purgeDLQBatch (queueName : String) (limit : Nat) : Transaction Reply := do
  let found ← selectMessages
    { filter := fun _ row => row.queueName = queueName && row.state = .errored
      before := fun a b => decide (a.1 ≤ b.1)
      limit := some limit
      mode := .skipLocked }
  -- the rows that were locked
  Program.writeAll Tab.messages (fun _ => none) (refused "delete DLQ message batch") found
  removeCounters queueName .errored found.length
  pure (.deleted (found.map Prod.fst))

/-! ## Section 7: Calls -/

/-- The calls of workers, of the reclaimer and of an operator. `PurgeDLQ` makes one purge call
for each batch. -/
inductive Call where
  | claim (req : ClaimRequest)
  | acknowledge (queueName messageId attemptId workerId : String)
  | nack (queueName messageId attemptId workerId : String)
  | extend (queueName messageId attemptId workerId : String) (extensionMs : Int)
  | heartbeat (queueName messageId attemptId workerId : String)
  | reclaim (queueName : String) (message : ExpiredMessage)
  | retryDLQ (dlqName messageId targetQueueName : String) (resetRetries : Bool)
  | deleteDLQ (queueName messageId : String)
  | purgeDLQ (queueName : String) (limit : Nat)
deriving DecidableEq

/-- The transaction a call runs. -/
def Call.program : Call → Transaction Reply
  | .claim req => claimMessageWithLeaseDuration req
  | .acknowledge q m a w => acknowledgeMessage q m a w
  | .nack q m a w => nackMessage q m a w
  | .extend q m a w extensionMs => extendMessageLease q m a w extensionMs
  | .heartbeat q m a w => heartbeatMessage q m a w
  | .reclaim q message => reclaimExpiredMessage q message
  | .retryDLQ dlq m target reset => retryDLQMessage dlq m target reset
  | .deleteDLQ q m => deleteDLQMessage q m
  | .purgeDLQ q limit => purgeDLQBatch q limit

end Nzovu.Postgres
