import Nzovu.Repository.Queues

/-!
# Validation of Queue Settings

Translation of `ValidateQueue` (`pkg/validator/queue_validator.go`) and of the part of
`CreateQueue` (`pkg/repository/implementation.go`) that runs before the queue is stored. The numbers
outside the protobuf enumerations, which the validator refuses first, have no counterpart here.

Whether a content type is supported is a parameter: `mime.ParseMediaType` and the table of
supported types decide it from the text alone.
-/

namespace Nzovu.Repository

open Nzovu.Foundation

/-! ## Section 1: Retention and priorities -/

/-- `ConfigurationError`. -/
structure ConfigurationError where
  field : String
  message : String
deriving DecidableEq, Repr

/-- `validateRetentionPolicy`. -/
def validateRetentionPolicy : Option RetentionPolicy → Except ConfigurationError Unit
  | none => .ok ()
  | some policy =>
    -- a number of seconds goes with RETAIN_DURATION, and with nothing else
    if policy.mode = .retainDuration then
      if policy.retentionSeconds ≤ 0 then
        .error ⟨"metadata.message_retention_policy.retention_seconds",
          "message_retention_policy.retention_seconds must be > 0 for RETAIN_DURATION"⟩
      else .ok ()
    else if policy.retentionSeconds ≠ 0 then
      .error ⟨"metadata.message_retention_policy.retention_seconds",
        "message_retention_policy.retention_seconds must be 0 unless mode is RETAIN_DURATION"⟩
    else .ok ()

/-- The settings a policy does not accept: the cases of the `switch` on the policy. -/
def validatePolicySettings (config : PriorityConfig) : Except ConfigurationError Unit :=
  -- zero is an unset multiplier
  let hasAgeConfig := config.ageBoostThreshold ≠ none ∨ config.ageBoostMultiplier ≠ 0
  match config.policy with
  | .strict =>
    if config.priorityWeights ≠ [] ∨ hasAgeConfig then
      .error ⟨"metadata.priority_config",
        "STRICT priority policy does not accept weights or age-boost settings"⟩
    else .ok ()
  | .weighted =>
    if hasAgeConfig then
      .error ⟨"metadata.priority_config",
        "WEIGHTED priority policy does not accept age-boost settings"⟩
    else .ok ()
  | .aging =>
    if config.priorityWeights ≠ [] then
      .error ⟨"metadata.priority_config.priority_weights",
        "AGING priority policy does not accept priority weights"⟩
    else .ok ()
  | .hybrid => .ok ()

/-- The loop over `priority_weights`. -/
def validatePriorityWeights : List (Int × Int) → Except ConfigurationError Unit
  | [] => .ok ()
  | (priority, weight) :: rest =>
    -- LOW, MEDIUM and HIGH
    if priority ≠ 0 ∧ priority ≠ 2 ∧ priority ≠ 4 then
      .error ⟨"metadata.priority_config.priority_weights",
        s!"priority_config.priority_weights keys must be 0, 2, or 4, got {priority}"⟩
    else if weight ≤ 0 then
      .error ⟨"metadata.priority_config.priority_weights",
        "priority_config.priority_weights values must be > 0"⟩
    else validatePriorityWeights rest

/-- `age_boost_threshold`; the text of the error of `CheckValid` is left out. -/
def validateAgeBoostThreshold : Option Duration → Except ConfigurationError Unit
  | none => .ok ()
  | some threshold =>
    if threshold.isValid = false then
      .error ⟨"metadata.priority_config.age_boost_threshold",
        "priority_config.age_boost_threshold is invalid"⟩
    else if threshold.asDuration ≤ 0 then
      .error ⟨"metadata.priority_config.age_boost_threshold",
        "priority_config.age_boost_threshold must be > 0"⟩
    else .ok ()

/-- `validatePriorityConfig`. -/
def validatePriorityConfig : Option PriorityConfig → Except ConfigurationError Unit
  | none => .ok ()
  | some config => do
    validatePolicySettings config
    validatePriorityWeights config.priorityWeights
    validateAgeBoostThreshold config.ageBoostThreshold
    if config.ageBoostMultiplier < 0 then
      .error ⟨"metadata.priority_config.age_boost_multiplier",
        "priority_config.age_boost_multiplier must be >= 0"⟩
    else .ok ()

/-- An accepted retention by duration is positive. -/
theorem retentionSeconds_pos {policy : RetentionPolicy}
    (h : validateRetentionPolicy (some policy) = .ok ()) (hmode : policy.mode = .retainDuration) :
    0 < policy.retentionSeconds := by
  simp only [validateRetentionPolicy, hmode, if_true] at h
  split at h
  · cases h
  · omega

/-! ## Section 2: Queues -/

/-- What a request says about a queue: the metadata that the storage layer reads, and the settings
that only the checks of payloads read. -/
structure QueueConfiguration where
  metadata : QueueMetadata
  maxPayloadSize : Int := 0
  schemaId : String := ""
  schemaRequired : Bool := false
  allowedContentTypes : List String := []
deriving DecidableEq, Repr

/-- `validator.MaxQueueNameLength`. -/
def maxQueueNameLength : Nat := 255

/-- `[A-Za-z0-9._-]`. -/
def queueNameCharacter (c : Char) : Bool := c.isAlphanum || c = '.' || c = '_' || c = '-'

/-- `queueNamePattern.MatchString`: `^[A-Za-z0-9][A-Za-z0-9._-]*$`. -/
def matchesQueueNamePattern (name : String) : Bool :=
  match name.toList with
  | [] => false
  | first :: rest => first.isAlphanum && rest.all queueNameCharacter

/-- The checks of `ValidateQueue` on the name. -/
def validateQueueName (name : String) : Except ConfigurationError Unit :=
  if name = "" then .error ⟨"name", "queue name is required"⟩
  -- `len` counts bytes
  else if maxQueueNameLength < name.utf8ByteSize then
    .error ⟨"name", s!"queue name must not exceed {maxQueueNameLength} characters"⟩
  else if matchesQueueNamePattern name = false then
    .error ⟨"name", "queue name must start with an alphanumeric character and contain only " ++
      "alphanumeric characters, dots, underscores, or hyphens"⟩
  else .ok ()

/-- The checks of `ValidateQueue` between the name and the lease. -/
def validateQueueLimits (config : QueueConfiguration) : Except ConfigurationError Unit :=
  let metadata := config.metadata
  if metadata.type = .exclusive ∧ isBlank metadata.exclusivityKey = true then
    .error ⟨"metadata.exclusivity_key", "exclusivity key is required for an EXCLUSIVE queue"⟩
  else if metadata.defaultMaxAttempts < -1 then
    .error ⟨"metadata.default_max_attempts",
      "default_max_attempts must be -1, 0, or a positive integer"⟩
  else if config.maxPayloadSize < 0 then
    .error ⟨"metadata.max_payload_size", "max_payload_size must be >= 0"⟩
  else if config.schemaRequired = true ∧ isBlank config.schemaId = true then
    .error ⟨"metadata.schema_id", "schema_id is required when schema_required is true"⟩
  else .ok ()

/-- `validateLegacyLease`; the text of the error of `CheckValid` is left out. -/
def validateLegacyLease (metadata : QueueMetadata) : Except ConfigurationError Unit :=
  match metadata.leaseDuration with
  | none => .ok ()
  | some leaseDuration =>
    if leaseDuration.isValid = false then
      .error ⟨"metadata.lease_duration", "lease_duration is invalid"⟩
    else if leaseDuration.asDuration ≤ 0 then
      .error ⟨"metadata.lease_duration", "lease_duration must be > 0"⟩
    -- without a base lease there is nothing to match
    else if (metadata.leasePolicy.bind (·.baseLease)).any
        (·.asDuration ≠ leaseDuration.asDuration) = true then
      .error ⟨"metadata.lease_duration",
        "lease_duration and lease_policy.base_lease must match when both are set"⟩
    else .ok ()

/-- `util.ValidateLeasePolicy`, as `ValidateQueue` reports it. -/
def validateQueueLeasePolicy (metadata : QueueMetadata) : Except ConfigurationError Unit :=
  match validateLeasePolicy metadata.leasePolicy with
  | .error violation => .error ⟨"metadata.lease_policy", violation.field ++ " " ++ violation.rule⟩
  | .ok () => .ok ()

/-- The loop over `allowed_content_types`. -/
def validateContentTypes (supported : String → Bool) : List String →
    Except ConfigurationError Unit
  | [] => .ok ()
  | contentType :: rest =>
    if supported contentType = false then
      .error ⟨"metadata.allowed_content_types",
        "allowed_content_types contains unsupported content type " ++ contentType.quote⟩
    else validateContentTypes supported rest

/-- `ValidateQueue`. -/
def validateQueue (supported : String → Bool) (name : String) (config : QueueConfiguration) :
    Except ConfigurationError Unit := do
  validateQueueName name
  validateQueueLimits config
  validateLegacyLease config.metadata
  validateQueueLeasePolicy config.metadata
  validateRetentionPolicy config.metadata.messageRetentionPolicy
  validatePriorityConfig config.metadata.priorityConfig
  validateContentTypes supported config.allowedContentTypes

/-- The errors of `CreateQueue`: a setting that breaks a rule, or what the storage layer says. -/
inductive CreateQueueError where
  | configuration (err : ConfigurationError)
  | storage (err : StorageError)
deriving DecidableEq, Repr

/-- The check of the configured schema. A registry says of a schema whether it is active, or that it
has none of this name. -/
def checkQueueSchema (registry : Option (String → Option Bool)) (schemaId : String) :
    Except StorageError Unit :=
  if schemaId = "" then .ok ()
  else
    match registry with
    | none => .error ⟨.failedPrecondition, "configured schema registry is unavailable"⟩
    | some getLatest =>
      match getLatest schemaId with
      | none =>
        .error ⟨.failedPrecondition, "configured schema " ++ schemaId.quote ++ " is unavailable"⟩
      | some false =>
        .error ⟨.failedPrecondition, "configured schema " ++ schemaId.quote ++ " is inactive"⟩
      | some true => .ok ()

/-- `CreateQueue`: the queue with its defaults is validated, then stored. -/
def createConfiguredQueue (supported : String → Bool) (registry : Option (String → Option Bool))
    (db : Database) (name : String) (config : QueueConfiguration) :
    Except CreateQueueError Database :=
  -- the defaults come first, so that they are validated, too
  let metadata := completeQueueMetadata name config.metadata
  match validateQueue supported name { config with metadata } with
  | .error err => .error (.configuration err)
  | .ok () =>
    match checkQueueSchema registry config.schemaId with
    | .error err => .error (.storage err)
    | .ok () =>
      match storeQueue db name metadata with
      | .error err => .error (.storage err)
      | .ok db' => .ok db'

/-! ## Section 3: What an accepted queue guarantees -/

section Accepted

variable {supported : String → Bool} {name : String} {config : QueueConfiguration}

/-- A sequence of checks succeeds when every one does. -/
theorem check_then_eq_ok {ε : Type} {first rest : Except ε Unit} :
    (do first; rest) = .ok () ↔ first = .ok () ∧ rest = .ok () := by
  cases first with
  | error err => simp [bind, Except.bind]
  | ok => simp [bind, Except.bind]

/-- The checks of an accepted queue that the validators of its messages depend on. -/
structure AcceptedQueue (metadata : QueueMetadata) : Prop where
  defaultMaxAttempts : -1 ≤ metadata.defaultMaxAttempts
  legacyLease : validateLegacyLease metadata = .ok ()
  leasePolicy : validateLeasePolicy metadata.leasePolicy = .ok ()

theorem acceptedQueue_of_validateQueue (h : validateQueue supported name config = .ok ()) :
    AcceptedQueue config.metadata := by
  simp only [validateQueue, check_then_eq_ok] at h
  obtain ⟨-, hlimits, hlegacy, hpolicy, -⟩ := h
  refine ⟨?_, hlegacy, ?_⟩
  -- a default below -1 is refused by the limits, if nothing before refuses
  · by_contra hlow
    simp only [validateQueueLimits, if_pos (Int.not_le.mp hlow)] at hlimits
    split at hlimits <;> cases hlimits
  · unfold validateQueueLeasePolicy at hpolicy
    cases hcheck : validateLeasePolicy config.metadata.leasePolicy with
    | ok => rfl
    | error violation => simp [hcheck] at hpolicy

/-- A lease duration next to a base lease is the same duration. -/
theorem AcceptedQueue.leaseDuration_eq {metadata : QueueMetadata} (h : AcceptedQueue metadata)
    {policy : LeasePolicy} {baseLease leaseDuration : Duration}
    (hpolicy : metadata.leasePolicy = some policy) (hbase : policy.baseLease = some baseLease)
    (hlease : metadata.leaseDuration = some leaseDuration) :
    baseLease.asDuration = leaseDuration.asDuration := by
  have hlegacy := h.legacyLease
  simp only [validateLegacyLease, hlease, hpolicy, hbase, Option.bind_some, Option.any_some]
    at hlegacy
  -- the third check of `validateLegacyLease` refuses different durations
  by_contra hne
  rw [if_pos (c := decide _ = true) (by simpa using hne)] at hlegacy
  split at hlegacy
  · cases hlegacy
  · split at hlegacy <;> cases hlegacy

end Accepted

end Nzovu.Repository
