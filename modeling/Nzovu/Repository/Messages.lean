import Nzovu.Repository.Priority

/-!
# Message Operations

Translation of `pkg/repository/sqlite/messages.go`: enqueueing (single and bulk), claiming,
acknowledging, rejecting, cancelling, extending and heartbeating a message. SQLite runs every
transaction alone (one connection), so an operation is a function from the database it sees to
its result and the database it leaves; an error leaves the database as it was, because
`WithTransaction` rolls back.

`clock i` is the `i`-th reading of the clock an operation makes, in milliseconds.
-/

namespace Nzovu.Repository

open Nzovu.Foundation

/-! ## Section 1: Shared pieces -/

/-- The clock readings of one operation, in order. -/
abbrev Readings := Nat → Int

/-- `GetQueueMetadata`. -/
def getQueueMetadata (db : Database) (name : String) : Except StorageError QueueMetadata :=
  match db.queueMetadata? name with
  | some metadata => .ok metadata
  | none => .error ⟨.notFound, "queue " ++ name.quote ++ " not found"⟩

/-- `fmt.Errorf("context: %w", err)`: the kind of the wrapped error stays visible. -/
def StorageError.wrap (context : String) (err : StorageError) : StorageError :=
  ⟨err.kind, context ++ ": " ++ err.message⟩

/-- Number of rows a `WHERE` clause selects. -/
def rowsAffected (db : Database) (p : Nat × MessageRow → Bool) : Nat :=
  db.messages.rows.countP p

/-- `calculateDeletion`: delete at once, or the instant from which cleanup may delete. -/
def calculateDeletion (nowMs : Int) (policy : Option RetentionPolicy) : Bool × Option Int :=
  -- without a policy a terminal message is deleted
  match policy with
  | none => (true, none)
  | some policy =>
    match policy.mode with
    | .deleteImmediately => (true, none)
    | .retainDuration => (false, some (int64 (nowMs + int64 (policy.retentionSeconds * 1000))))
    | .retainForever => (false, none)

/-- `lease_expiry > now`. -/
def leaseLive (nowMs : Int) (row : MessageRow) : Bool :=
  row.leaseExpiry.any fun expiry => nowMs < expiry

/-- `lease_expiry <= now`. -/
def leaseExpired (nowMs : Int) (row : MessageRow) : Bool :=
  row.leaseExpiry.any fun expiry => expiry ≤ nowMs

/-- `heartbeat_expiry IS NULL OR heartbeat_expiry <= 0 OR heartbeat_expiry > now`. -/
def heartbeatLive (nowMs : Int) (row : MessageRow) : Bool :=
  row.heartbeatExpiry.all fun expiry => expiry ≤ 0 || nowMs < expiry

/-- `heartbeat_expiry IS NOT NULL AND heartbeat_expiry > 0 AND heartbeat_expiry <= now`. -/
def heartbeatExpired (nowMs : Int) (row : MessageRow) : Bool :=
  row.heartbeatExpiry.any fun expiry => 0 < expiry && expiry ≤ nowMs

/-- `queue_name = ? AND message_id = ?`. -/
def addressed (queueName messageId : String) (row : MessageRow) : Bool :=
  row.queueName = queueName && row.messageId = messageId

/-- The `WHERE` clause of every statement a worker may run on the message it holds. -/
def owned (queueName messageId attemptId workerId : String) (nowMs : Int) (row : MessageRow) :
    Bool :=
  addressed queueName messageId row && row.state = .running &&
    row.currentAttemptId = some attemptId && row.currentWorkerId = some workerId &&
    leaseLive nowMs row && heartbeatLive nowMs row && row.deletedAt = none

/-- `classifyOwnedMessageFailure`: why no row satisfied `owned`. -/
def classifyOwnedMessageFailure (messages : List (Nat × MessageRow))
    (queueName messageId attemptId workerId : String) (nowMs : Int) : StorageError :=
  match messages.find? fun e => addressed queueName messageId e.2 && e.2.deletedAt = none with
  | none => ⟨.notFound, "message " ++ messageId.quote ++ " not found"⟩
  | some (_, row) =>
    if row.state ≠ .running then ⟨.failedPrecondition, "message is not running"⟩
    else if row.currentAttemptId ≠ some attemptId ∨ row.currentWorkerId ≠ some workerId then
      ⟨.failedPrecondition, "message is owned by another attempt"⟩
    -- a missing lease counts as an expired one
    else if leaseLive nowMs row = false ∨ heartbeatExpired nowMs row = true then
      ⟨.deadlineExceeded, "message lease has expired"⟩
    else ⟨.failedPrecondition, "message state changed during the operation"⟩

/-! ## Section 2: Enqueueing -/

/-- The columns of a row that was just inserted; the others are NULL or zero by default. -/
def newRow (queueName messageId : String) (metadata : MessageMetadata)
    (scheduledAt : Option Int) (createdAt updatedAt : Int) : MessageRow where
  queueName := queueName
  messageId := messageId
  metadata := metadata
  state := metadata.state
  priority := metadata.priority
  scheduledAt := scheduledAt
  leaseExpiry := none
  heartbeatExpiry := none
  attemptsLeft := metadata.attemptsLeft
  maxAttempts := metadata.maxAttempts
  currentAttemptId := none
  currentWorkerId := none
  leaseStartedAt := none
  leaseExtensionUsed := 0
  leaseRenewalCount := 0
  lastHeartbeatAt := none
  createdAt := createdAt
  updatedAt := updatedAt
  completedAt := none
  deletedAt := none
  cancellationReason := none

/-- `enqueueMessageInTx`. -/
def enqueueMessageInTx (db : Database) (clock : Readings) (queueName : String)
    (message : Message) : Except StorageError Database :=
  match message.metadata with
  | none => .error (.plain "message metadata is nil")
  | some metadata =>
    match db.insertMessage (newRow queueName message.messageId metadata
        (metadata.scheduledTime.map unixMilli) (clock 0) (clock 1)) with
    -- `ON CONFLICT DO NOTHING` inserts no row.
    | .error .unique => .error ⟨.duplicateMessageId, "duplicate message_id: " ++ message.messageId⟩
    | .error .foreignKey =>
      .error (.plain ("insert message: " ++ Database.Constraint.foreignKey.message))
    | .ok db' => .ok (insertCounter db' queueName metadata.state)

/-- `EnqueueMessage`: one message in its own transaction. -/
def enqueueMessage (db : Database) (clock : Readings) (queueName : String) (message : Message) :
    Except StorageError Database :=
  enqueueMessageInTx db clock queueName message

/-- `PostMessagesBulkRequest.TransactionMode`. -/
inductive TransactionMode where
  | allOrNothing
  | bestEffort
deriving DecidableEq, Repr

/-- The loop of the `ALL_OR_NOTHING` transaction: stops at the first message that fails,
with its index. Message `i` makes the clock readings `2 * i` and `2 * i + 1`. -/
def enqueueAll (clock : Readings) (queueName : String) :
    Database → Nat → List Message → Except (Nat × StorageError) Database
  | db, _, [] => .ok db
  | db, i, message :: rest =>
    match enqueueMessageInTx db (fun k => clock (2 * i + k)) queueName message with
    | .error err => .error (i, err)
    | .ok db' => enqueueAll clock queueName db' (i + 1) rest

/-- The loop of `BEST_EFFORT`: each message in a transaction of its own. -/
def enqueueEach (clock : Readings) (queueName : String) :
    Database → Nat → List Message → Database × List (Option StorageError)
  | db, _, [] => (db, [])
  | db, i, message :: rest =>
    match enqueueMessageInTx db (fun k => clock (2 * i + k)) queueName message with
    | .error err =>
      let (db', errors) := enqueueEach clock queueName db (i + 1) rest
      (db', some err :: errors)
    | .ok db₁ =>
      let (db', errors) := enqueueEach clock queueName db₁ (i + 1) rest
      (db', none :: errors)

/-- What `EnqueueMessagesBulk` returns: the error of each message, and the overall error. -/
structure BulkResult where
  messageErrors : List (Option StorageError)
  error : Option StorageError
deriving DecidableEq, Repr

/-- `EnqueueMessagesBulk`. -/
def enqueueMessagesBulk (db : Database) (clock : Readings) (queueName : String)
    (messages : List Message) (mode : TransactionMode) : Database × BulkResult :=
  match mode with
  | .allOrNothing =>
    match enqueueAll clock queueName db 0 messages with
    | .ok db' => (db', ⟨messages.map fun _ => none, none⟩)
    | .error (i, err) =>
      let txErr := err.wrap ("message[" ++ toString i ++ "] failed")
      let messageErrors := (List.range messages.length).map fun j =>
        -- the other messages are reported as rolled back
        some (if j = i then err else txErr.wrap "transaction failed")
      (db, ⟨messageErrors, some txErr⟩)
  | .bestEffort =>
    let (db', errors) := enqueueEach clock queueName db 0 messages
    (db', ⟨errors, none⟩)

/-! ## Section 3: Claiming -/

/-- `unicode.IsSpace`. -/
def isSpace (c : Char) : Bool :=
  let n := c.toNat
  (9 ≤ n && n ≤ 13) || n = 0x20 || n = 0x85 || n = 0xA0 || n = 0x1680 ||
    (0x2000 ≤ n && n ≤ 0x200A) || n = 0x2028 || n = 0x2029 || n = 0x202F || n = 0x205F ||
    n = 0x3000

/-- `strings.TrimSpace(s) == ""`. -/
def isBlank (s : String) : Bool := s.toList.all isSpace

/-- `ValidateClaimExclusivity`. -/
def validateClaimExclusivity (metadata : QueueMetadata) (exclusivityKey : String) :
    Except StorageError Unit :=
  -- the key of a claim on another queue is not looked at
  if metadata.type ≠ .exclusive then .ok ()
  else if isBlank metadata.exclusivityKey then
    .error ⟨.invalidArgument, "exclusivity key is required for an EXCLUSIVE queue"⟩
  else if exclusivityKey ≠ metadata.exclusivityKey then
    .error ⟨.invalidArgument, "exclusivity key does not match the queue"⟩
  else .ok ()

/-- The arguments of one claim, with the random values it may draw. -/
structure ClaimRequest where
  queueName : String
  workerId : String
  attemptId : String
  exclusivityKey : String
  /-- `time.Duration`; not positive means no override. -/
  leaseDuration : Int
  /-- Random source of the weighted level selection. -/
  randomSource : Nat
  /-- `generateID()`, used when `attemptId` is empty. -/
  generatedAttemptId : String
  /-- `"worker-" + generateID()[:8]`, used when `workerId` is empty. -/
  generatedWorkerId : String
  generated_ne : generatedAttemptId ≠ ""
deriving DecidableEq

/-- A generated id of the examples. -/
theorem generatedAttemptId_ne : "g" ≠ "" := by decide

/-- The attempt id a claim records. -/
def ClaimRequest.attempt (req : ClaimRequest) : String :=
  if req.attemptId = "" then req.generatedAttemptId else req.attemptId

theorem ClaimRequest.attempt_ne (req : ClaimRequest) : req.attempt ≠ "" := by
  unfold attempt
  split
  · exact req.generated_ne
  · assumption

/-- The worker id a claim records. -/
def ClaimRequest.worker (req : ClaimRequest) : String :=
  if req.workerId = "" then req.generatedWorkerId else req.workerId

/-- The `WHERE` clause of the claim's `SELECT`. -/
def claimable (queueName : String) (nowMs : Int) (row : MessageRow) : Bool :=
  row.queueName = queueName && row.state = .pending && row.scheduledAt.all (· ≤ nowMs) &&
    row.deletedAt = none

/-- `ORDER BY priority DESC, id ASC LIMIT 1` over rows listed by id. -/
def firstByPriority : List (Nat × MessageRow) → Option (Nat × MessageRow)
  | [] => none
  | e :: rest =>
    match firstByPriority rest with
    | none => some e
    -- among equals the first row stays ahead
    | some d => if e.2.priority < d.2.priority then some d else some e

/-- The strict query, or the weighted one when a level is selected. -/
def selectClaimable (db : Database) (queueName : String) (nowMs : Int)
    (level : Option PriorityLevel) : Option (Nat × MessageRow) :=
  firstByPriority (db.messages.rows.filter fun e =>
    claimable queueName nowMs e.2 && level.all fun l => inLevel l e.2)

/-- The level query first, then the strict one when the selected level has no row. -/
def selectCandidate (db : Database) (queueName : String) (nowMs : Int)
    (level : Option PriorityLevel) : Option (Nat × MessageRow) :=
  match selectClaimable db queueName nowMs level with
  | some e => some e
  -- the level is empty, so any priority will do
  | none => if level.isSome then selectClaimable db queueName nowMs none else none

/-- An unexpired lease exists in an EXCLUSIVE queue. -/
def hasActiveLease (messages : List (Nat × MessageRow)) (queueName : String) (nowMs : Int) :
    Bool :=
  messages.any fun e =>
    e.2.queueName = queueName && e.2.state = .running && leaseLive nowMs e.2 &&
      e.2.deletedAt = none

/-- The columns set by a claim. -/
def claimRow (attemptId workerId : String) (runtime : LeaseRuntime) (nowMs : Int)
    (row : MessageRow) : MessageRow :=
  { row with
    state := .running
    currentAttemptId := some attemptId
    currentWorkerId := some workerId
    leaseStartedAt := some runtime.leaseStartedAt
    leaseExpiry := some runtime.leaseExpiry
    leaseExtensionUsed := 0
    leaseRenewalCount := 0
    lastHeartbeatAt := some runtime.lastHeartbeatAt
    heartbeatExpiry := some runtime.heartbeatExpiry
    updatedAt := nowMs }

/-- The lease a claim grants: the override when positive, else the policy's base lease. -/
def claimRuntime (policy : LeasePolicy) (leaseDuration nowMs : Int) : LeaseRuntime :=
  -- an override is not bounded by the policy
  if 0 < leaseDuration then calculateLeaseRuntimeWithDuration nowMs policy leaseDuration
  else calculateLeaseRuntime nowMs policy

/-- The priority level a claim tries first: `none` for strict queues, and
`some none` when the weights select no level, which ends the claim without a message. -/
def claimLevel (db : Database) (metadata : QueueMetadata) (req : ClaimRequest) (nowMs : Int) :
    Except StorageError (Option (Option PriorityLevel)) :=
  match metadata.priorityConfig with
  | none => .ok none
  | some cfg =>
    if cfg.policy = .strict then .ok none
    else
      match calculateWeights cfg nowMs fun level =>
          oldestCreatedAt db.messages.rows req.queueName level nowMs with
      | .error err => .error err
      | .ok weights => .ok (some (selectPriorityLevel weights req.randomSource))

/-- The claim's update of the selected row, with its counters. -/
def takeLease (db : Database) (clock : Readings) (req : ClaimRequest) (e : Nat × MessageRow) :
    Except StorageError (Database × Option (Nat × MessageRow)) :=
  match e.2.metadata.leasePolicy with
  | none => .error (.plain "message has no lease policy")
  | some policy =>
    let runtime := claimRuntime policy req.leaseDuration (clock 3)
    let row := claimRow req.attempt req.worker runtime (clock 2)
    let db₁ := db.modifyMessages (fun d => d.1 = e.1) row fun _ => rfl
    .ok (updateCounters db₁ req.queueName e.2.state .running, some (e.1, row e.2))

/-- `ClaimMessageWithLeaseDuration`: the claimed row, or nothing when none is eligible.
Clock readings: `0` for the weights, `1` for the exclusive check, `2` for the selection, `3`
for the lease. -/
def claimMessageWithLeaseDuration (db : Database) (clock : Readings) (req : ClaimRequest) :
    Except StorageError (Database × Option (Nat × MessageRow)) :=
  match getQueueMetadata db req.queueName with
  | .error err => .error (err.wrap "get queue metadata")
  | .ok metadata =>
    match validateClaimExclusivity metadata req.exclusivityKey with
    | .error err => .error err
    | .ok () =>
      match claimLevel db metadata req (clock 0) with
      | .error err => .error err
      -- the weights select no level
      | .ok (some none) => .ok (db, none)
      | .ok level =>
        -- one live lease at a time on an EXCLUSIVE queue
        if metadata.type = .exclusive ∧
            hasActiveLease db.messages.rows req.queueName (clock 1) = true then
          .ok (db, none)
        else
          match selectCandidate db req.queueName (clock 2) level.join with
          | none => .ok (db, none)
          | some e => takeLease db clock req e

/-! ## Section 4: Acknowledging and rejecting -/

/-- The columns set when a message is completed and kept. -/
def completeRow (nowMs : Int) (deletedAt : Option Int) (row : MessageRow) : MessageRow :=
  { row with
    state := .completed
    completedAt := some nowMs
    deletedAt := deletedAt
    currentAttemptId := none
    currentWorkerId := none
    leaseStartedAt := none
    leaseExpiry := none
    updatedAt := nowMs }

/-- `AcknowledgeMessage`. Clock readings: `0` for the retention, `1` for the statement. -/
def acknowledgeMessage (db : Database) (clock : Readings)
    (queueName messageId attemptId workerId : String) : Except StorageError Database :=
  match getQueueMetadata db queueName with
  | .error err => .error (err.wrap "get queue metadata")
  | .ok metadata =>
    let (shouldDelete, deletedAt) := calculateDeletion (clock 0) metadata.messageRetentionPolicy
    let guard := fun e : Nat × MessageRow =>
      owned queueName messageId attemptId workerId (clock 1) e.2
    if rowsAffected db guard = 0 then
      .error (classifyOwnedMessageFailure db.messages.rows queueName messageId attemptId
        workerId (clock 1))
    -- a completed message is deleted or kept with its time of deletion
    else if shouldDelete then removeCounter (db.deleteMessages guard) queueName .running
    else
      let db₁ := db.modifyMessages guard (completeRow (clock 1) deletedAt) fun _ => rfl
      .ok (updateCounters db₁ queueName .running .completed)

/-- The lease columns cleared by a rejection or a reclaim. -/
def clearLease (row : MessageRow) : MessageRow :=
  { row with
    currentAttemptId := none
    currentWorkerId := none
    leaseStartedAt := none
    leaseExpiry := none
    leaseExtensionUsed := 0
    leaseRenewalCount := 0
    lastHeartbeatAt := none
    heartbeatExpiry := none }

/-- The columns set when a rejected message has attempts left. -/
def retryRow (attemptsLeft nowMs : Int) (row : MessageRow) : MessageRow :=
  { clearLease row with
    state := .pending
    attemptsLeft := attemptsLeft
    updatedAt := nowMs }

/-- The columns set when a rejected message is exhausted and kept. -/
def exhaustRow (terminalQueueName : String) (attemptsLeft nowMs : Int) (deletedAt : Option Int)
    (row : MessageRow) : MessageRow :=
  { clearLease row with
    queueName := terminalQueueName
    state := .errored
    attemptsLeft := attemptsLeft
    completedAt := some nowMs
    deletedAt := deletedAt
    updatedAt := nowMs }

/-- The counter after a rejection; `-1` marks unlimited retries. -/
def decrementAttempts (attemptsLeft : Int) : Int :=
  if attemptsLeft ≠ -1 then attemptsLeft - 1 else attemptsLeft

/-- A rejection finds no attempts left. -/
abbrev NackExhausts (attemptsLeft : Int) : Prop :=
  decrementAttempts attemptsLeft ≠ -1 ∧ decrementAttempts attemptsLeft ≤ 0

/-- The exhausted branch of `NackMessage`. -/
def nackExhausted (db : Database) (clock : Readings) (metadata : QueueMetadata)
    (queueName : String) (guard : Nat × MessageRow → Bool) (row : MessageRow) :
    Except StorageError Database :=
  let dlqName := metadata.deadLetterQueueName
  let (shouldDelete, deletedAt) :=
    if dlqName ≠ "" then (false, none)
    else calculateDeletion (clock 1) metadata.messageRetentionPolicy
  if shouldDelete then removeCounter (db.deleteMessages guard) queueName row.state
  else
    let terminalQueueName := if dlqName ≠ "" then dlqName else queueName
    match db.updateMessages guard
        (exhaustRow terminalQueueName (decrementAttempts row.attemptsLeft) (clock 0) deletedAt) with
    | .error violated =>
      .error (.plain ("soft delete errored message: " ++ violated.message))
    | .ok db₁ =>
      if dlqName ≠ "" then .ok (moveCounter db₁ queueName row.state dlqName .errored)
      else .ok (updateCounters db₁ queueName row.state .errored)

/-- `NackMessage`. Clock readings: `0` for the statements, `1` for the retention. The updates
repeat the guard of the `SELECT` inside one transaction, so they affect the selected row and
`requireOneOwnedMessage` passes. -/
def nackMessage (db : Database) (clock : Readings)
    (queueName messageId attemptId workerId : String) : Except StorageError Database :=
  match getQueueMetadata db queueName with
  | .error err => .error (err.wrap "get queue metadata")
  | .ok metadata =>
    let guard := fun e : Nat × MessageRow =>
      owned queueName messageId attemptId workerId (clock 0) e.2
    match db.messages.find? guard with
    | none =>
      .error (classifyOwnedMessageFailure db.messages.rows queueName messageId attemptId
        workerId (clock 0))
    | some (_, row) =>
      if NackExhausts row.attemptsLeft then
        nackExhausted db clock metadata queueName guard row
      else
        let newAttemptsLeft := decrementAttempts row.attemptsLeft
        let db₁ := db.modifyMessages guard (retryRow newAttemptsLeft (clock 0)) fun _ => rfl
        .ok (updateCounters db₁ queueName row.state .pending)

/-! ## Section 5: Cancelling -/

/-- The columns set when a message is cancelled and kept. -/
def cancelRow (nowMs : Int) (deletedAt : Option Int) (reason : Option String)
    (row : MessageRow) : MessageRow :=
  { row with
    state := .canceled
    completedAt := some nowMs
    deletedAt := deletedAt
    cancellationReason := reason
    currentAttemptId := none
    currentWorkerId := none
    leaseStartedAt := none
    leaseExpiry := none
    lastHeartbeatAt := none
    heartbeatExpiry := none
    updatedAt := nowMs }

/-- The state's name in the error of a refused cancellation. -/
def MessageState.name : MessageState → String
  | .invisible => "INVISIBLE"
  | .pending => "PENDING"
  | .running => "RUNNING"
  | .completed => "COMPLETED"
  | .canceled => "CANCELED"
  | .errored => "ERRORED"

/-- `CancelMessage`. Clock readings: `0` for the retention, `1` for the statement. -/
def cancelMessage (db : Database) (clock : Readings) (queueName messageId reason : String) :
    Except StorageError Database :=
  match getQueueMetadata db queueName with
  | .error err => .error (err.wrap "get queue metadata")
  | .ok metadata =>
    match db.messages.find? fun e => addressed queueName messageId e.2 with
    | none => .error ⟨.notFound, "message " ++ messageId.quote ++ " not found"⟩
    | some (_, current) =>
      if current.state ≠ .invisible ∧ current.state ≠ .pending then
        .error ⟨.failedPrecondition,
          "message cannot be canceled in state " ++ current.state.name⟩
      else
        let (shouldDelete, deletedAt) :=
          calculateDeletion (clock 0) metadata.messageRetentionPolicy
        let guard := fun e : Nat × MessageRow =>
          addressed queueName messageId e.2 &&
            (e.2.state = .invisible || e.2.state = .pending)
        if shouldDelete then removeCounter (db.deleteMessages guard) queueName current.state
        else
          let reason := if reason ≠ "" then some reason else none
          let db₁ := db.modifyMessages guard (cancelRow (clock 1) deletedAt reason) fun _ => rfl
          .ok (updateCounters db₁ queueName current.state .canceled)

/-! ## Section 6: Keeping a lease -/

/-- The columns set by a lease extension. -/
def extendRow (runtime : LeaseRuntime) (nowMs : Int) (row : MessageRow) : MessageRow :=
  { row with
    leaseExpiry := some runtime.leaseExpiry
    leaseExtensionUsed := runtime.leaseExtensionUsed
    leaseRenewalCount := row.leaseRenewalCount + 1
    updatedAt := nowMs }

/-- The policy limits renewals and the limit is reached. -/
def renewalLimitReached (policy : Option LeasePolicy) (renewalCount : Int) : Bool :=
  policy.any fun policy => 0 < policy.maxRenewals && policy.maxRenewals ≤ renewalCount

/-- `ExtendMessageLease`: the remaining lease time. Clock readings: `0` for the statements,
`1` for the result. -/
def extendMessageLease (db : Database) (clock : Readings)
    (queueName messageId attemptId workerId : String) (extensionMs : Int) :
    Except StorageError (Database × Int) :=
  let guard := fun e : Nat × MessageRow =>
    owned queueName messageId attemptId workerId (clock 0) e.2
  match db.messages.find? guard with
  | none =>
    .error (classifyOwnedMessageFailure db.messages.rows queueName messageId attemptId
      workerId (clock 0))
  | some (_, row) =>
    let policy := row.metadata.leasePolicy
    if renewalLimitReached policy row.leaseRenewalCount then
      .error ⟨.failedPrecondition, "lease renewal limit reached: " ++
        toString row.leaseRenewalCount ++ "/" ++
        toString ((policy.map (·.maxRenewals)).getD 0) ++ " renewals used"⟩
    else
      match extendLease policy (row.leaseExpiry.getD 0) row.leaseExtensionUsed extensionMs with
      | .error _ => .error ⟨.failedPrecondition, "lease cannot be extended"⟩
      | .ok runtime =>
        let db₁ := db.modifyMessages guard (extendRow runtime (clock 0)) fun _ => rfl
        .ok (db₁, max (int64 (runtime.leaseExpiry - clock 1)) 0)

/-- The columns set by a heartbeat. -/
def heartbeatRow (nowMs : Int) (heartbeatExpiry : Option Int)
    (leaseExpiry leaseExtensionUsed leaseRenewalCount : Int) (row : MessageRow) : MessageRow :=
  { row with
    lastHeartbeatAt := some nowMs
    heartbeatExpiry := heartbeatExpiry
    leaseExpiry := some leaseExpiry
    leaseExtensionUsed := leaseExtensionUsed
    leaseRenewalCount := leaseRenewalCount
    updatedAt := nowMs }

/-- The heartbeat expiry a heartbeat sets; NULL without a positive timeout. -/
def nextHeartbeatExpiry (policy : Option LeasePolicy) (nowMs : Int) : Option Int :=
  match policy.bind (·.heartbeatTimeout) with
  | none => none
  | some timeout =>
    if 0 < timeout.asDuration then some (int64 (nowMs + milliseconds timeout.asDuration))
    else none

/-- A heartbeat also extends the lease by one step when step, budget and renewals allow. -/
def heartbeatExtends (policy : Option LeasePolicy) (row : MessageRow) : Bool :=
  match policy with
  | none => false
  | some policy =>
    (policy.maxRenewals = 0 || row.leaseRenewalCount < policy.maxRenewals) &&
      policy.extendStep.any (fun step => 0 < step.asDuration) &&
      policy.maxExtension.any fun limit => row.leaseExtensionUsed < milliseconds limit.asDuration

/-- `HeartbeatMessage`: the message state and the remaining lease time. One clock reading. -/
def heartbeatMessage (db : Database) (clock : Readings)
    (queueName messageId attemptId workerId : String) :
    Except StorageError (Database × MessageState × Int) :=
  let guard := fun e : Nat × MessageRow =>
    owned queueName messageId attemptId workerId (clock 0) e.2
  match db.messages.find? guard with
  | none =>
    .error (classifyOwnedMessageFailure db.messages.rows queueName messageId attemptId
      workerId (clock 0))
  | some (_, row) =>
    let policy := row.metadata.leasePolicy
    let heartbeatExpiry := nextHeartbeatExpiry policy (clock 0)
    let leaseExpiry := row.leaseExpiry.getD 0
    if heartbeatExtends policy row then
      let step := milliseconds (asDuration (policy.bind (·.extendStep)))
      match extendLease policy leaseExpiry row.leaseExtensionUsed step with
      | .error err => .error (.plain ("extend lease for heartbeat: " ++ err.message))
      | .ok runtime =>
        let update := heartbeatRow (clock 0) heartbeatExpiry runtime.leaseExpiry
          runtime.leaseExtensionUsed (row.leaseRenewalCount + 1)
        .ok (db.modifyMessages guard update fun _ => rfl, row.state,
          max (int64 (runtime.leaseExpiry - clock 0)) 0)
    else
      let update := heartbeatRow (clock 0) heartbeatExpiry leaseExpiry
        row.leaseExtensionUsed row.leaseRenewalCount
      .ok (db.modifyMessages guard update fun _ => rfl, row.state,
        max (int64 (leaseExpiry - clock 0)) 0)

end Nzovu.Repository
