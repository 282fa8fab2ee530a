import Nzovu.Repository.Queues

/-!
# Message Validation

Translation of the message validators (`pkg/validator`) that `NewPayloadValidator` chains. Every
validator of the chain runs, on the message as the ones before it left it: `LeasePolicyValidator`
and `RetryValidator` fill in what the message does not say, and the errors of all are collected.

The validators of headers, content type, sizes, JSON and schema are a parameter: of the message
they change only the content type of the payload. Error texts leave out the durations they print.
-/

namespace Nzovu.Repository

/-! ## Section 1: Posted messages -/

/-- `google.protobuf.Timestamp`. -/
structure Timestamp where
  seconds : Int
  nanos : Int
deriving DecidableEq, Repr

/-- `Timestamp.CheckValid`: the years 1 to 9999. -/
def Timestamp.isValid (t : Timestamp) : Bool :=
  -62135596800 ≤ t.seconds && t.seconds ≤ 253402300799 && 0 ≤ t.nanos && t.nanos < 1000000000

/-- `Timestamp.AsTime`, in nanoseconds since the Unix epoch. -/
def Timestamp.asTime (t : Timestamp) : Int := t.seconds * 1000000000 + t.nanos

/-- A lease policy as a client sends it: `max_renewals` is optional. -/
structure RequestedLeasePolicy where
  baseLease : Option Duration := none
  maxExtension : Option Duration := none
  heartbeatTimeout : Option Duration := none
  extendStep : Option Duration := none
  maxRenewals : Option Int := none
deriving DecidableEq, Repr

/-- The policy the getters of the protobuf message read. -/
def RequestedLeasePolicy.policy (requested : RequestedLeasePolicy) : LeasePolicy where
  baseLease := requested.baseLease
  maxExtension := requested.maxExtension
  heartbeatTimeout := requested.heartbeatTimeout
  extendStep := requested.extendStep
  maxRenewals := requested.maxRenewals.getD 0

/-- The protobuf message of a policy. -/
def LeasePolicy.requested (policy : LeasePolicy) : RequestedLeasePolicy where
  baseLease := policy.baseLease
  maxExtension := policy.maxExtension
  heartbeatTimeout := policy.heartbeatTimeout
  extendStep := policy.extendStep
  maxRenewals := some policy.maxRenewals

@[simp] theorem LeasePolicy.policy_requested (policy : LeasePolicy) :
    policy.requested.policy = policy := rfl

/-- `Message.Metadata` as a request carries it; `content` are its headers and its payload. -/
structure PostedMetadata (Content : Type) where
  content : Content
  state : MessageState := .invisible
  attemptsLeft : Int := 0
  maxAttempts : Int := 0
  priority : Int := 0
  scheduledTime : Option Timestamp := none
  leaseDuration : Option Duration := none
  leasePolicy : Option RequestedLeasePolicy := none
  leaseExpiry : Int := 0
  leaseRenewalCount : Int := 0
  hasCurrentAttempt : Bool := false
  priorityLevel : Int := 0
deriving DecidableEq, Repr

/-- `Message` as a request carries it. -/
structure PostedMessage (Content : Type) where
  messageId : String
  metadata : Option (PostedMetadata Content)
deriving DecidableEq, Repr

/-- The fields of the metadata that the storage layer reads. -/
def PostedMetadata.stored {Content : Type} (metadata : PostedMetadata Content) :
    MessageMetadata where
  state := metadata.state
  attemptsLeft := metadata.attemptsLeft
  maxAttempts := metadata.maxAttempts
  priority := metadata.priority
  scheduledTime := metadata.scheduledTime.map Timestamp.asTime
  leasePolicy := metadata.leasePolicy.map RequestedLeasePolicy.policy

/-- The message the storage layer receives. -/
def PostedMessage.stored {Content : Type} (message : PostedMessage Content) : Message :=
  ⟨message.messageId, message.metadata.map PostedMetadata.stored⟩

/-! ## Section 2: Validators -/

/-- `ValidationResult`. -/
structure ValidationResult where
  valid : Bool
  errors : List ValidationError
  schemaMismatch : Bool
deriving DecidableEq, Repr

/-- `NewValidationResult`. -/
def ValidationResult.accepted : ValidationResult := ⟨true, [], false⟩

/-- The result of a validator that reports these errors. -/
def ValidationResult.ofErrors (errors : List ValidationError) : ValidationResult :=
  ⟨errors.isEmpty, errors, false⟩

@[simp] theorem ValidationResult.valid_ofErrors (errors : List ValidationError) :
    (ofErrors errors).valid = true ↔ errors = [] := List.isEmpty_iff

/-- `Validator.Validate`: the message with its defaults, and what was found. -/
abbrev Validator (Content : Type) : Type :=
  PostedMessage Content → PostedMessage Content × ValidationResult

section Validators

variable {Content : Type}

/-- The result of the chain when a validator with this result runs before the others. -/
def ValidationResult.and (result later : ValidationResult) : ValidationResult :=
  -- The chain keeps the errors of all failed validators and goes on after each.
  if result.valid then later
  else ⟨false, result.errors ++ later.errors, result.schemaMismatch || later.schemaMismatch⟩

@[simp] theorem ValidationResult.valid_and (result later : ValidationResult) :
    (result.and later).valid = (result.valid && later.valid) := by
  unfold ValidationResult.and
  cases result.valid <;> rfl

/-- `ValidatorChain.Validate`. -/
def validatorChain : List (Validator Content) → Validator Content
  | [], message => (message, .accepted)
  | validate :: rest, message =>
    let (message, result) := validate message
    let (message, later) := validatorChain rest message
    (message, result.and later)

/-- `[a-zA-Z0-9_-]`. -/
def messageIdCharacter (c : Char) : Bool := c.isAlphanum || c = '_' || c = '-'

/-- `unicode.ToLower`, as far as the result is an ASCII letter of a reserved prefix. -/
def lowerLetter (c : Char) : Char := if c = 'İ' then 'i' else c.toLower

/-- The prefixes no message id may start with. -/
def reservedPrefixes : List String := ["system:", "internal:", "nzovu:"]

/-- The errors of `MessageIDValidator`. -/
def messageIdErrors (messageId : String) : List ValidationError :=
  if messageId = "" then [⟨"message_id", "Message ID is required and cannot be empty"⟩]
  else
    (if 256 < messageId.utf8ByteSize then
      [⟨"message_id", "Message ID too long (maximum 256 characters)"⟩]
    else []) ++
    (if messageId.toList.all messageIdCharacter then []
    else [⟨"message_id",
      "Message ID contains invalid characters (allowed: alphanumeric, underscore, hyphen)"⟩]) ++
    (match reservedPrefixes.find? fun reserved =>
        reserved.toList.isPrefixOf (messageId.toList.map lowerLetter) with
    | some reserved =>
      [⟨"message_id", "Message ID cannot start with reserved prefix: " ++ reserved⟩]
    | none => [])

/-- `MessageIDValidator.Validate`. -/
def validateMessageId : Validator Content := fun message =>
  (message, .ofErrors (messageIdErrors message.messageId))

/-- `RuntimeValidator.Validate`: the fields that only the server may set. -/
def validateRuntime : Validator Content := fun message =>
  match message.metadata with
  | none => (message, .accepted)
  | some metadata =>
    -- One error for each of these fields that the request sets.
    let serverManaged : List (String × Bool) :=
      [("metadata.state", metadata.state ≠ .invisible),
       ("metadata.lease_expiry", metadata.leaseExpiry ≠ 0),
       ("metadata.lease_renewal_count", metadata.leaseRenewalCount ≠ 0),
       ("metadata.current_attempt", metadata.hasCurrentAttempt),
       ("metadata.priority_level", metadata.priorityLevel ≠ 0)]
    (message, .ofErrors ((serverManaged.filter Prod.snd).map fun runtimeField =>
      ⟨runtimeField.1,
        "field is managed by the server and cannot be set when posting a message"⟩))

/-- The error of a validator that needs the metadata. -/
def metadataRequired : ValidationError := ⟨"metadata", "Message metadata is required"⟩

/-- `PriorityValidator.Validate`: a priority from 0 to 4. -/
def validatePriority : Validator Content := fun message =>
  match message.metadata with
  | none => (message, .ofErrors [metadataRequired])
  | some metadata =>
    let priority := metadata.priority
    (message, .ofErrors
      ((if priority < 0 then [⟨"metadata.priority", "Priority " ++ toString priority ++
          " is below minimum allowed value of 0"⟩] else []) ++
        (if 4 < priority then [⟨"metadata.priority", "Priority " ++ toString priority ++
          " exceeds maximum allowed value of 4"⟩] else [])))

/-- The queue's policy with the fields that the message's policy sets. -/
def mergeLeasePolicy (queuePolicy : Option LeasePolicy)
    (requested : Option RequestedLeasePolicy) : LeasePolicy :=
  let effective := queuePolicy.getD ⟨none, none, none, none, 0⟩
  match requested with
  | none => effective
  | some requested =>
    { baseLease := requested.baseLease <|> effective.baseLease
      maxExtension := requested.maxExtension <|> effective.maxExtension
      heartbeatTimeout := requested.heartbeatTimeout <|> effective.heartbeatTimeout
      extendStep := requested.extendStep <|> effective.extendStep
      maxRenewals := requested.maxRenewals.getD effective.maxRenewals }

/-- A lease duration with its default: the queue's, or 30 seconds. -/
def defaultedLeaseDuration (queueMetadata : QueueMetadata) (leaseDuration : Option Duration) :
    Duration :=
  leaseDuration.getD (queueMetadata.leaseDuration.getD (newDuration (30 * 1000000000)))

/-- The policy `LeasePolicyValidator` computes: `lease_duration` is the base lease when it is set,
and a policy without base lease gets the default one. -/
def effectiveLeasePolicy (queueMetadata : QueueMetadata) (requested : Option RequestedLeasePolicy)
    (leaseDuration : Option Duration) : LeasePolicy :=
  let merged := mergeLeasePolicy queueMetadata.leasePolicy requested
  { merged with
    baseLease := some (defaultedLeaseDuration queueMetadata (leaseDuration <|> merged.baseLease)) }

/-- `lease_duration` and `lease_policy.base_lease` are both set, to different durations. -/
def leaseConflict (requested : Option RequestedLeasePolicy) (leaseDuration : Option Duration) :
    Bool :=
  match leaseDuration, requested.bind (·.baseLease) with
  | some legacyLease, some baseLease => baseLease.asDuration ≠ legacyLease.asDuration
  | _, _ => false

/-- `LeasePolicyValidator.Validate`. -/
def validateLease (queueMetadata : QueueMetadata) : Validator Content := fun message =>
  match message.metadata with
  | none => (message, .accepted)
  | some metadata =>
    -- A rejected message keeps the policy it came with.
    if leaseConflict metadata.leasePolicy metadata.leaseDuration then
      (message, .ofErrors [⟨"metadata.lease_policy.base_lease",
        "lease_duration and lease_policy.base_lease must match when both are set"⟩])
    else
      let effective :=
        effectiveLeasePolicy queueMetadata metadata.leasePolicy metadata.leaseDuration
      match validateLeasePolicy (some effective) with
      | .error violation =>
        (message, .ofErrors
          [⟨"metadata.lease_policy", violation.field ++ " " ++ violation.rule⟩])
      | .ok () =>
        let metadata := { metadata with
          leasePolicy := some effective.requested
          leaseDuration := effective.baseLease }
        ({ message with metadata := some metadata }, .accepted)

/-- `DurationValidator.Validate`: at least one second. -/
def validateDuration (queueMetadata : QueueMetadata) : Validator Content := fun message =>
  match message.metadata with
  | none => (message, .ofErrors [metadataRequired])
  | some metadata =>
    -- The default is filled in also when the duration is rejected.
    let duration := defaultedLeaseDuration queueMetadata metadata.leaseDuration
    let errors : List ValidationError :=
      if duration.isValid = false then
        [⟨"metadata.lease_duration", "Lease duration is invalid"⟩]
      else if duration.asDuration < 1000000000 then
        [⟨"metadata.lease_duration", "Lease duration is below minimum allowed value"⟩]
      else []
    ({ message with metadata := some { metadata with leaseDuration := some duration } },
      .ofErrors errors)

/-- `RetryValidator.Validate` on the whole message. -/
def validateAttempts (queueMetadata : QueueMetadata) : Validator Content := fun message =>
  match message.metadata with
  | none => (message, .ofErrors [metadataRequired])
  | some metadata =>
    let (retried, errors) := validateRetry queueMetadata.defaultMaxAttempts metadata.stored
    let metadata := { metadata with
      maxAttempts := retried.maxAttempts
      attemptsLeft := retried.attemptsLeft }
    ({ message with metadata := some metadata }, .ofErrors errors)

/-- `TimestampValidator.Validate`. -/
def validateTimestamp : Validator Content := fun message =>
  let scheduledTime := message.metadata.bind (·.scheduledTime)
  (message, .ofErrors
    (if scheduledTime.all Timestamp.isValid then []
    else [⟨"metadata.scheduled_time", "scheduled_time is invalid"⟩]))

/-- What the validators of headers, content type, sizes, JSON and schema do: `normalize` sets the
content type of the payload, `check` is their verdict. -/
structure ContentValidator (Content : Type) where
  normalize : Content → Content
  check : PostedMessage Content → ValidationResult

/-- The validators of the content, as one. -/
def validateContent (content : ContentValidator Content) : Validator Content := fun message =>
  ({ message with
      metadata := message.metadata.map fun metadata =>
        { metadata with content := content.normalize metadata.content } },
    content.check message)

/-- `NewPayloadValidator`. -/
def newPayloadValidator (queueMetadata : QueueMetadata) (content : ContentValidator Content) :
    Validator Content :=
  validatorChain
    [validateMessageId, validateRuntime, validatePriority, validateLease queueMetadata,
     validateDuration queueMetadata, validateAttempts queueMetadata, validateTimestamp,
     validateContent content]

/-! ## Section 3: What validation keeps -/

/-- The validator keeps the message id and does not drop the metadata. -/
def Validator.Keeps (validate : Validator Content) : Prop :=
  ∀ message, (validate message).1.messageId = message.messageId ∧
    (validate message).1.metadata.isSome = message.metadata.isSome

theorem keeps_validatorChain {validators : List (Validator Content)}
    (h : ∀ validate ∈ validators, validate.Keeps) : (validatorChain validators).Keeps := by
  induction validators with
  | nil => exact fun message => ⟨rfl, rfl⟩
  | cons validate rest ih =>
    intro message
    obtain ⟨hfirst, hrest⟩ := List.forall_mem_cons.mp h
    obtain ⟨hid, hmeta⟩ := ih hrest (validate message).1
    exact ⟨hid.trans (hfirst message).1, hmeta.trans (hfirst message).2⟩

theorem keeps_validateRuntime : (validateRuntime : Validator Content).Keeps := by
  intro message
  unfold validateRuntime
  cases hmeta : message.metadata with
  | none => exact ⟨rfl, by rw [hmeta]⟩
  | some metadata => exact ⟨rfl, by rw [hmeta]⟩

theorem keeps_validatePriority : (validatePriority : Validator Content).Keeps := by
  intro message
  unfold validatePriority
  cases hmeta : message.metadata with
  | none => exact ⟨rfl, by rw [hmeta]⟩
  | some metadata => exact ⟨rfl, by rw [hmeta]⟩

theorem keeps_validateLease (queueMetadata : QueueMetadata) :
    (validateLease queueMetadata : Validator Content).Keeps := by
  intro message
  unfold validateLease
  cases hmeta : message.metadata with
  | none => exact ⟨rfl, by rw [hmeta]⟩
  | some metadata =>
    dsimp only
    split
    · exact ⟨rfl, by rw [hmeta]⟩
    · split
      · exact ⟨rfl, by rw [hmeta]⟩
      · exact ⟨rfl, rfl⟩

theorem keeps_validateDuration (queueMetadata : QueueMetadata) :
    (validateDuration queueMetadata : Validator Content).Keeps := by
  intro message
  unfold validateDuration
  cases hmeta : message.metadata with
  | none => exact ⟨rfl, by rw [hmeta]⟩
  | some metadata => exact ⟨rfl, rfl⟩

theorem keeps_validateAttempts (queueMetadata : QueueMetadata) :
    (validateAttempts queueMetadata : Validator Content).Keeps := by
  intro message
  unfold validateAttempts
  cases hmeta : message.metadata with
  | none => exact ⟨rfl, by rw [hmeta]⟩
  | some metadata => exact ⟨rfl, rfl⟩

theorem keeps_validateContent (content : ContentValidator Content) :
    (validateContent content).Keeps := fun message =>
  ⟨rfl, by simp [validateContent]⟩

theorem keeps_newPayloadValidator (queueMetadata : QueueMetadata)
    (content : ContentValidator Content) : (newPayloadValidator queueMetadata content).Keeps := by
  apply keeps_validatorChain
  simp only [List.forall_mem_cons]
  exact ⟨fun _ => ⟨rfl, rfl⟩, keeps_validateRuntime, keeps_validatePriority,
    keeps_validateLease queueMetadata, keeps_validateDuration queueMetadata,
    keeps_validateAttempts queueMetadata, fun _ => ⟨rfl, rfl⟩, keeps_validateContent content,
    fun _ h => absurd h List.not_mem_nil⟩

end Validators

end Nzovu.Repository
