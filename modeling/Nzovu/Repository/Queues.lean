import Nzovu.Repository.DeadLetter

/-!
# Queues and Posting

Creating and deleting queues (`CreateQueue` and `DeleteQueue` of `pkg/repository/implementation.go`
with the storage methods of `pkg/repository/sqlite/queues.go`), and the attempt fields a posted
message ends up with (`RetryValidator.Validate` and `CreateQueueMessage`).
-/

namespace Nzovu.Repository

open Nzovu.Foundation

/-! ## Section 1: Queue rows -/

/-- `nullableDLQName`. -/
def nullableDLQName (name : String) : Option String :=
  if name = "" then none else some name

/-- The row `insertQueue` stores; `state_counts` defaults to `{}`. -/
def Queue.toRow (queue : Queue) : QueueRow where
  name := queue.name
  metadata := queue.metadata
  deadLetterQueueName := nullableDLQName queue.metadata.deadLetterQueueName
  stateCounts := ⟨[]⟩

/-- `insertQueue`. -/
def insertQueue (db : Database) (queue : Queue) : Except StorageError Database :=
  match db.insertQueue queue.toRow with
  | .error _ => .error ⟨.alreadyExists, "queue " ++ queue.name.quote ++ " already exists"⟩
  | .ok db' => .ok db'

/-- `Storage.CreateQueue`. -/
def createQueue (db : Database) (queue : Queue) : Except StorageError Database :=
  let dlqName := queue.metadata.deadLetterQueueName
  -- a queue that creates its dead letter queue comes in with `CreateQueueWithDLQ`
  if dlqName ≠ "" ∧ queue.metadata.autoCreateDlq = false ∧ db.queues.hasKey dlqName = false then
    .error ⟨.notFound, "dead letter queue " ++ dlqName.quote ++ " not found"⟩
  else insertQueue db queue

/-- `validateQueueDLQPair`. -/
def validateQueueDLQPair (queue dlq : Queue) : Except StorageError Unit :=
  let target := queue.metadata.deadLetterQueueName
  if target = "" ∨ dlq.name = "" then
    .error ⟨.invalidArgument, "dead letter queue target is required"⟩
  else if target ≠ dlq.name then
    .error ⟨.invalidArgument, "source queue dead letter target " ++ target.quote ++
      " does not match queue " ++ dlq.name.quote⟩
  else .ok ()

/-- `CreateQueueWithDLQ`: both queues in one transaction, the dead letter queue first. -/
def createQueueWithDLQ (db : Database) (queue dlq : Queue) : Except StorageError Database :=
  match validateQueueDLQPair queue dlq with
  | .error err => .error err
  | .ok () =>
    match insertQueue db dlq with
    | .error err => .error (err.wrap ("create automatic DLQ " ++ dlq.name.quote))
    | .ok db₁ => insertQueue db₁ queue

/-! ## Section 2: Creating and deleting queues -/

/-- `durationpb.New`. -/
def newDuration (d : Int) : Duration where
  seconds := d.tdiv 1000000000
  nanos := d.tmod 1000000000

/-- The lease step a queue gets when it names none: a fifth of the base lease, at least one
millisecond. -/
def defaultExtendStep (policy : LeasePolicy) : Duration :=
  newDuration (max ((asDuration policy.baseLease).tdiv 5) 1000000)

/-- `validator.DefaultMaxRetryAttempts`. -/
def defaultMaxRetryAttempts : Int := 3

/-- The lease policy `CreateQueue` stores. -/
def completeLeasePolicy (metadata : QueueMetadata) : LeasePolicy :=
  let baseLease := metadata.leaseDuration.getD (newDuration (30 * 1000000000))
  let policy : LeasePolicy :=
    match metadata.leasePolicy with
    | none =>
      { baseLease := some baseLease
        maxExtension := some (newDuration (5 * 60 * 1000000000))
        heartbeatTimeout := none
        extendStep := none
        maxRenewals := 0 }
    | some policy => { policy with baseLease := some (policy.baseLease.getD baseLease) }
  { policy with extendStep := some (policy.extendStep.getD (defaultExtendStep policy)) }

/-- The defaults `CreateQueue` fills in before validation. -/
def completeQueueMetadata (name : String) (metadata : QueueMetadata) : QueueMetadata :=
  { metadata with
    leasePolicy := some (completeLeasePolicy metadata)
    defaultMaxAttempts :=
      if metadata.defaultMaxAttempts = 0 then defaultMaxRetryAttempts
      else metadata.defaultMaxAttempts
    deadLetterQueueName :=
      -- a configured name is overwritten
      if metadata.autoCreateDlq then name ++ "_dlq" else metadata.deadLetterQueueName }

/-- `CreateQueue` from the point where `ValidateQueue` and the schema check have passed: look up
the configured dead letter queue, then store the queue, together with its dead letter queue
when that is created automatically. -/
def storeQueue (db : Database) (name : String) (metadata : QueueMetadata) :
    Except StorageError Database :=
  let dlqName := metadata.deadLetterQueueName
  let queue : Queue := ⟨name, metadata⟩
  if metadata.autoCreateDlq then createQueueWithDLQ db queue ⟨dlqName, {}⟩
  else if dlqName ≠ "" ∧ db.queues.hasKey dlqName = false then
    .error ⟨.notFound, "get configured dead letter queue: queue " ++ dlqName.quote ++ " not found"⟩
  else createQueue db queue

/-- `CreateQueue` for a request that passes validation. -/
def createValidQueue (db : Database) (name : String) (metadata : QueueMetadata) :
    Except StorageError Database :=
  storeQueue db name (completeQueueMetadata name metadata)

/-- `DeleteQueue`: refused while another queue names this one as its dead letter queue. The
schedules of the queue are archived in tables of their own. -/
def deleteQueue (db : Database) (name : String) : Except StorageError Database :=
  if db.queues.hasKey name = false then
    .error ⟨.notFound, "queue " ++ name.quote ++ " not found"⟩
  else
    match db.queues.find? fun e => e.2.deadLetterQueueName = some name with
    | some (_, referring) =>
      .error ⟨.failedPrecondition, "queue " ++ name.quote ++
        " is referenced as a dead letter queue by " ++ referring.name.quote⟩
    | none => .ok (db.deleteQueueRow name)

/-! ## Section 3: Attempt fields of a posted message -/

/-- `validator.InfiniteRetries`. -/
def infiniteRetries : Int := -1

/-- One error of a message validator. -/
structure ValidationError where
  field : String
  message : String
deriving DecidableEq, Repr

/-- The `max_attempts` a message gets from its queue when it sets none. -/
def effectiveMaxAttempts (queueDefault maxAttempts : Int) : Int :=
  if maxAttempts = 0 then
    -- the default of the queue, or that of the server
    if queueDefault ≠ 0 then queueDefault else defaultMaxRetryAttempts
  else maxAttempts

/-- `RetryValidator.Validate`: the message with its defaults, and the errors found. -/
def validateRetry (queueDefault : Int) (metadata : MessageMetadata) :
    MessageMetadata × List ValidationError :=
  let maxAttempts := effectiveMaxAttempts queueDefault metadata.maxAttempts
  let attemptsLeft := metadata.attemptsLeft
  let maxErrors : List ValidationError :=
    if maxAttempts < infiniteRetries ∨ maxAttempts = 0 then
      [⟨"metadata.max_attempts",
        "Max attempts must be -1 (infinite) or >= 1, got " ++ toString maxAttempts⟩]
    else []
  let leftErrors : List ValidationError :=
    if maxAttempts = infiniteRetries then []
    else
      (if attemptsLeft < 0 then
        [⟨"metadata.attempts_left",
          "Attempts left must be >= 0 for finite retries, got " ++ toString attemptsLeft⟩]
      else []) ++
      (if maxAttempts < attemptsLeft then
        [⟨"metadata.attempts_left", "Attempts left " ++ toString attemptsLeft ++
          " exceeds max attempts " ++ toString maxAttempts⟩]
      else [])
  ({ metadata with
      maxAttempts := maxAttempts
      attemptsLeft := if maxAttempts = infiniteRetries then infiniteRetries else attemptsLeft },
    maxErrors ++ leftErrors)

/-- What `CreateQueueMessage` sets after validation: the first state, `max_attempts`,
`attempts_left` and the lease policy. `now` is an instant in nanoseconds. -/
def completeMessageMetadata (queueMetadata : QueueMetadata) (now : Int)
    (metadata : MessageMetadata) : MessageMetadata :=
  let maxAttempts :=
    if metadata.maxAttempts = 0 then
      -- the validator has filled this in already
      if 0 < queueMetadata.defaultMaxAttempts then queueMetadata.defaultMaxAttempts else 3
    else metadata.maxAttempts
  { metadata with
    state := if metadata.scheduledTime.any (now < ·) then .invisible else .pending
    maxAttempts := maxAttempts
    attemptsLeft := if metadata.attemptsLeft = 0 then maxAttempts else metadata.attemptsLeft
    leasePolicy := metadata.leasePolicy <|> queueMetadata.leasePolicy }

/-- The attempt fields a message may be stored with: without limit, or with at least one
attempt left and at most the maximum. -/
def AttemptsAccepted (metadata : MessageMetadata) : Prop :=
  (metadata.maxAttempts = -1 ∧ metadata.attemptsLeft = -1) ∨
    (1 ≤ metadata.attemptsLeft ∧ metadata.attemptsLeft ≤ metadata.maxAttempts)

/-- A message that passes the retry validator is posted with accepted attempt fields. -/
theorem attemptsAccepted_of_validateRetry {queueDefault : Int} (queueMetadata : QueueMetadata)
    (now : Int) {metadata : MessageMetadata}
    (hvalid : (validateRetry queueDefault metadata).2 = []) :
    AttemptsAccepted (completeMessageMetadata queueMetadata now
      (validateRetry queueDefault metadata).1) := by
  simp only [validateRetry, infiniteRetries, List.append_eq_nil_iff] at hvalid ⊢
  obtain ⟨hmax, hleft⟩ := hvalid
  generalize effectiveMaxAttempts queueDefault metadata.maxAttempts = m
    at hmax hleft ⊢
  have hm : ¬ (m < -1 ∨ m = 0) := by
    intro h
    simp [h] at hmax
  have hm0 : m ≠ 0 := fun h => hm (.inr h)
  simp only [AttemptsAccepted, completeMessageMetadata, hm0, if_false]
  by_cases hinf : m = -1
  · simp [hinf]
  · right
    simp only [hinf, if_false, List.append_eq_nil_iff] at hleft ⊢
    have hlo : ¬ metadata.attemptsLeft < 0 := by
      intro h
      simp [h] at hleft
    have hhi : ¬ m < metadata.attemptsLeft := by
      intro h
      simp [h] at hleft
    -- A zero `attempts_left` means "not set" and is replaced by the maximum.
    by_cases hz : metadata.attemptsLeft = 0
    · simp only [hz, if_true]
      omega
    · simp only [hz, if_false]
      omega

end Nzovu.Repository
