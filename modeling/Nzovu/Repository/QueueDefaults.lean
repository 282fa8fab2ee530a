import Nzovu.Repository.Claimable
import Nzovu.Repository.QueueValidation

/-!
# Messages with the Settings of Their Queue

`ValidateQueue` and the validators of messages check the same lease durations and attempt counts.
A message that sets none of these fields takes all of them from its queue, so what `CreateQueue`
accepts is what its messages are checked for. The two families agree except for one bound:
`ValidateLeasePolicy` accepts a base lease from one millisecond on, `DurationValidator` requires a
second. A queue with a shorter base lease accepts no such message.

- Section 1: the defaults of a queue and a message.
- Section 2: the validators on a message without settings of its own.
- Section 3: the agreement of the two families.
-/

namespace Nzovu.Repository

open Nzovu.Foundation

/-! ## Section 1: Settings -/

/-- The base lease a request asks for: the one of the lease policy, else `lease_duration`, else 30
seconds. -/
def requestedBaseLease (metadata : QueueMetadata) : Duration :=
  (metadata.leasePolicy.bind (·.baseLease)).getD
    (metadata.leaseDuration.getD (newDuration (30 * 1000000000)))

theorem baseLease_completeLeasePolicy (metadata : QueueMetadata) :
    (completeLeasePolicy metadata).baseLease = some (requestedBaseLease metadata) := by
  unfold completeLeasePolicy requestedBaseLease
  cases metadata.leasePolicy with
  | none => rfl
  | some policy => rfl

section Messages

variable {Content : Type}

/-- A message that leaves its lease and its retries to the queue. -/
structure PostedMetadata.Unset (metadata : PostedMetadata Content) : Prop where
  leaseDuration : metadata.leaseDuration = none
  leasePolicy : metadata.leasePolicy = none
  maxAttempts : metadata.maxAttempts = 0
  attemptsLeft : metadata.attemptsLeft = 0

/-- The validators of lease and retries, in their order in `NewPayloadValidator`. -/
def settingsValidators (queueMetadata : QueueMetadata) : List (Validator Content) :=
  [validateLease queueMetadata, validateDuration queueMetadata, validateAttempts queueMetadata]

/-- The settings of the message are those of the queue. -/
structure SettingsOf (queueMetadata : QueueMetadata) (metadata : PostedMetadata Content) :
    Prop where
  leasePolicy : metadata.leasePolicy = queueMetadata.leasePolicy.map LeasePolicy.requested
  leaseDuration : metadata.leaseDuration = queueMetadata.leasePolicy.bind (·.baseLease)
  queueLease : ∀ leaseDuration, queueMetadata.leaseDuration = some leaseDuration →
    asDuration metadata.leaseDuration = leaseDuration.asDuration
  maxAttempts : metadata.maxAttempts = queueMetadata.defaultMaxAttempts

/-- The message passes the three validators, and leaves them with the settings of its queue. -/
structure InheritsSettings (queueMetadata : QueueMetadata) (message : PostedMessage Content) :
    Prop where
  valid : (validatorChain (settingsValidators queueMetadata) message).2.valid = true
  settings : ∀ metadata,
    (validatorChain (settingsValidators queueMetadata) message).1.metadata = some metadata →
      SettingsOf queueMetadata metadata

/-! ## Section 2: Validating a message without settings -/

/-- What `CreateQueue` stores: every setting has a value that its own validator accepts. -/
structure CompleteQueue (queueMetadata : QueueMetadata) (policy : LeasePolicy)
    (baseLease : Duration) : Prop where
  stored : queueMetadata.leasePolicy = some policy
  base : policy.baseLease = some baseLease
  accepted : validateLeasePolicy (some policy) = .ok ()
  queueLease : ∀ leaseDuration, queueMetadata.leaseDuration = some leaseDuration →
    baseLease.asDuration = leaseDuration.asDuration
  defaultMaxAttempts : -1 ≤ queueMetadata.defaultMaxAttempts
  defaultMaxAttempts_ne : queueMetadata.defaultMaxAttempts ≠ 0

section Validate

variable {queueMetadata : QueueMetadata} {policy : LeasePolicy} {baseLease : Duration}
  {messageId : String} {metadata : PostedMetadata Content}

/-- The base lease of an accepted policy is a valid duration. -/
theorem isValid_baseLease (hpolicy : validateLeasePolicy (some policy) = .ok ())
    (hbase : policy.baseLease = some baseLease) : baseLease.isValid = true := by
  -- no rule of the policy is broken
  have hall : ∀ rule ∈ leasePolicyRules policy, rule.1 = false := by
    simp only [validateLeasePolicy] at hpolicy
    split at hpolicy
    · cases hpolicy
    · rename_i hnone
      simpa using List.find?_eq_none.mp hnone
  simp only [leasePolicyRules, List.forall_mem_cons, hbase, Option.any_some] at hall
  simpa using hall.1

/-- `LeasePolicyValidator` gives the message the policy of the queue. -/
theorem validateLease_unset (hqueue : CompleteQueue queueMetadata policy baseLease)
    (hunset : metadata.Unset) :
    validateLease queueMetadata ⟨messageId, some metadata⟩ =
      (⟨messageId, some { metadata with
        leasePolicy := some policy.requested
        leaseDuration := some baseLease }⟩, .accepted) := by
  have hbase := hqueue.base
  -- with nothing of its own, the message takes the policy as it is stored
  have heffective : effectiveLeasePolicy queueMetadata none none = policy := by
    cases policy
    simp only at hbase
    simp [effectiveLeasePolicy, mergeLeasePolicy, hqueue.stored, hbase,
      defaultedLeaseDuration]
  simp only [validateLease, hunset.leasePolicy, hunset.leaseDuration, leaseConflict, heffective,
    Bool.false_eq_true, if_false, hqueue.accepted, hqueue.base]

/-- `DurationValidator` accepts the base lease from one second on. -/
theorem valid_validateDuration (hvalid : baseLease.isValid = true)
    (hlease : metadata.leaseDuration = some baseLease) :
    (validateDuration queueMetadata ⟨messageId, some metadata⟩).1 =
        ⟨messageId, some metadata⟩ ∧
      ((validateDuration queueMetadata ⟨messageId, some metadata⟩).2.valid = true ↔
        1000000000 ≤ baseLease.asDuration) := by
  have hdefault : defaultedLeaseDuration queueMetadata metadata.leaseDuration = baseLease := by
    rw [hlease]
    rfl
  simp only [validateDuration, hdefault, ValidationResult.valid_ofErrors]
  constructor
  · rw [← hlease]
  · rw [if_neg (by simp [hvalid])]
    split
    · simpa using ‹baseLease.asDuration < 1000000000›
    · simpa using ‹¬ baseLease.asDuration < 1000000000›

/-- `RetryValidator` accepts a default that `ValidateQueue` accepts. -/
theorem validateAttempts_unset (hqueue : CompleteQueue queueMetadata policy baseLease)
    (hmax : metadata.maxAttempts = 0) (hleft : metadata.attemptsLeft = 0) :
    validateAttempts queueMetadata ⟨messageId, some metadata⟩ =
      (⟨messageId, some { metadata with
        maxAttempts := queueMetadata.defaultMaxAttempts
        attemptsLeft :=
          if queueMetadata.defaultMaxAttempts = infiniteRetries then infiniteRetries else 0 }⟩,
        .accepted) := by
  have hlow := hqueue.defaultMaxAttempts
  have hne := hqueue.defaultMaxAttempts_ne
  -- the default is neither zero nor below -1
  have heffective : effectiveMaxAttempts queueMetadata.defaultMaxAttempts 0 =
      queueMetadata.defaultMaxAttempts := by
    simp [effectiveMaxAttempts, hne]
  have hvalid : ¬ (queueMetadata.defaultMaxAttempts < infiniteRetries ∨
      queueMetadata.defaultMaxAttempts = 0) := by
    unfold infiniteRetries
    omega
  simp only [validateAttempts, validateRetry, PostedMetadata.stored, hmax, hleft, heffective,
    if_neg hvalid, List.nil_append]
  -- a default of -1 does not look at `attempts_left`; any other one is positive
  by_cases hinf : queueMetadata.defaultMaxAttempts = infiniteRetries
  · simp only [if_pos hinf]
    rfl
  · have hpos : ¬ queueMetadata.defaultMaxAttempts < 0 := by
      unfold infiniteRetries at hinf
      omega
    simp only [if_neg hinf, if_neg (Int.lt_irrefl 0), if_neg hpos, List.append_nil]
    rfl

/-- **Chain rule**: the message is accepted unless its lease is shorter than a second, and its
settings are those of the queue. -/
theorem inheritsSettings_iff_of_complete (hqueue : CompleteQueue queueMetadata policy baseLease)
    (hunset : metadata.Unset) :
    InheritsSettings queueMetadata ⟨messageId, some metadata⟩ ↔
      1000000000 ≤ baseLease.asDuration := by
  let leased : PostedMetadata Content := { metadata with
    leasePolicy := some policy.requested
    leaseDuration := some baseLease }
  obtain ⟨hsame, hduration⟩ := @valid_validateDuration Content queueMetadata baseLease messageId
    leased (isValid_baseLease hqueue.accepted hqueue.base) rfl
  have hlease : validateLease queueMetadata ⟨messageId, some metadata⟩ =
      (⟨messageId, some leased⟩, .accepted) := validateLease_unset hqueue hunset
  have hattempts := @validateAttempts_unset Content queueMetadata policy baseLease messageId leased
    hqueue hunset.maxAttempts hunset.attemptsLeft
  -- the duration validator is the only one that can refuse
  have hvalid : (validatorChain (settingsValidators queueMetadata)
      ⟨messageId, some metadata⟩).2.valid = true ↔ 1000000000 ≤ baseLease.asDuration := by
    simp only [settingsValidators, valid_validatorChain_cons, hlease, hsame, hattempts]
    exact ⟨fun h => hduration.mp h.2.1, fun h => ⟨rfl, hduration.mpr h, rfl, rfl⟩⟩
  -- what the three validators leave of the message
  have hleft : (validatorChain (settingsValidators queueMetadata)
      ⟨messageId, some metadata⟩).1 = ⟨messageId, some { leased with
        maxAttempts := queueMetadata.defaultMaxAttempts
        attemptsLeft :=
          if queueMetadata.defaultMaxAttempts = infiniteRetries then infiniteRetries else 0 }⟩ := by
    simp only [settingsValidators, fst_validatorChain_cons, fst_validatorChain_nil,
      hlease, hsame, hattempts]
  refine ⟨fun h => hvalid.mp h.valid, fun hlong => ⟨hvalid.mpr hlong, fun validated heq => ?_⟩⟩
  rw [hleft] at heq
  cases heq
  exact ⟨by rw [hqueue.stored]; rfl, by rw [hqueue.stored]; exact hqueue.base.symm,
    hqueue.queueLease, rfl⟩

end Validate

end Messages

/-! ## Section 3: Agreement -/

section Agreement

variable {db db' : Database} {name : String} {supported : String → Bool}
  {registry : Option (String → Option Bool)} {config : QueueConfiguration}

theorem insertQueue_stored {queue : Queue} (h : insertQueue db queue = .ok db') :
    getQueueMetadata db' queue.name = .ok queue.metadata := by
  unfold insertQueue at h
  split at h
  · cases h
  · rename_i db₁ hins
    cases h
    obtain ⟨hqueues, -⟩ := Database.insertQueue_eq_ok hins
    apply getQueueMetadata_of_eq
    rw [Database.queueMetadata?, Table.lookup_insert hqueues]
    simp [Queue.toRow]

theorem storeQueue_stored {metadata : QueueMetadata} (h : storeQueue db name metadata = .ok db') :
    getQueueMetadata db' name = .ok metadata := by
  simp only [storeQueue] at h
  split at h
  · -- the dead letter queue is inserted first, so the queue itself is the last row
    simp only [createQueueWithDLQ] at h
    split at h
    · cases h
    · split at h
      · cases h
      · exact insertQueue_stored h
  · split at h
    · cases h
    · simp only [createQueue] at h
      split at h
      · cases h
      · exact insertQueue_stored h

/-- `CreateQueue` has validated the metadata it stores. -/
theorem createConfiguredQueue_eq_ok
    (h : createConfiguredQueue supported registry db name config = .ok db') :
    AcceptedQueue (completeQueueMetadata name config.metadata) ∧
      getQueueMetadata db' name = .ok (completeQueueMetadata name config.metadata) := by
  simp only [createConfiguredQueue] at h
  split at h
  · cases h
  · rename_i hvalid
    split at h
    · cases h
    · split at h
      · cases h
      · rename_i hstored
        cases h
        exact ⟨acceptedQueue_of_validateQueue hvalid, storeQueue_stored hstored⟩

/-- The metadata of an accepted queue is complete. -/
theorem completeQueue_completeQueueMetadata
    (h : AcceptedQueue (completeQueueMetadata name config.metadata)) :
    CompleteQueue (completeQueueMetadata name config.metadata)
      (completeLeasePolicy config.metadata) (requestedBaseLease config.metadata) := by
  have hbase := baseLease_completeLeasePolicy config.metadata
  refine ⟨rfl, hbase, h.leasePolicy, fun _ => h.leaseDuration_eq rfl hbase, h.defaultMaxAttempts,
    ?_⟩
  simp only [completeQueueMetadata]
  split
  · decide
  · assumption

/-- **Queue and messages**: a message without settings of its own inherits those of an accepted
queue exactly when the queue's base lease is at least a second. -/
theorem inheritsSettings_iff {Content : Type} {stored : QueueMetadata}
    (hcreated : createConfiguredQueue supported registry db name config = .ok db')
    (hstored : getQueueMetadata db' name = .ok stored) (messageId : String)
    {metadata : PostedMetadata Content} (hunset : metadata.Unset) :
    InheritsSettings stored ⟨messageId, some metadata⟩ ↔
      1000000000 ≤ (requestedBaseLease config.metadata).asDuration := by
  -- the stored metadata is the completed one
  obtain ⟨haccepted, heq⟩ := createConfiguredQueue_eq_ok hcreated
  cases heq.symm.trans hstored
  exact inheritsSettings_iff_of_complete (completeQueue_completeQueueMetadata haccepted) hunset

end Agreement

/-- A queue `jobs` with this lease duration, in an empty database. -/
def leasedQueue (leaseDuration : Duration) : Except CreateQueueError Database :=
  createConfiguredQueue (fun _ => true) none .empty "jobs"
    { metadata := { leaseDuration := some leaseDuration } }

/-- A message without settings. -/
def plainMetadata : PostedMetadata Unit := { content := () }

theorem plainMetadata_unset : plainMetadata.Unset := ⟨rfl, rfl, rfl, rfl⟩

/-- A queue with leases of ten seconds. -/
theorem inheritsSettings_tenSeconds :
    ∃ db stored, leasedQueue ⟨10, 0⟩ = .ok db ∧ getQueueMetadata db "jobs" = .ok stored ∧
      InheritsSettings stored ⟨"m1", some plainMetadata⟩ := by
  obtain ⟨db, hdb⟩ : ∃ db, leasedQueue ⟨10, 0⟩ = .ok db := ⟨_, rfl⟩
  obtain ⟨stored, hstored⟩ : ∃ stored, getQueueMetadata db "jobs" = .ok stored :=
    ⟨_, (createConfiguredQueue_eq_ok hdb).2⟩
  exact ⟨db, stored, hdb, hstored,
    (inheritsSettings_iff hdb hstored "m1" plainMetadata_unset).mpr (by decide)⟩

/-- `CreateQueue` accepts leases of half a second, and every message of the queue is refused. -/
theorem not_inheritsSettings_halfSecond :
    ¬ ∀ (supported : String → Bool) (registry : Option (String → Option Bool)) (db db' : Database)
      (name : String) (config : QueueConfiguration) (stored : QueueMetadata) (messageId : String)
      (metadata : PostedMetadata Unit),
      createConfiguredQueue supported registry db name config = .ok db' →
        getQueueMetadata db' name = .ok stored → metadata.Unset →
          InheritsSettings stored ⟨messageId, some metadata⟩ := by
  intro h
  obtain ⟨db, hdb⟩ : ∃ db, leasedQueue ⟨0, 500000000⟩ = .ok db := ⟨_, rfl⟩
  have hinherits := h _ _ _ db _ _ _ "m1" plainMetadata hdb (createConfiguredQueue_eq_ok hdb).2
    plainMetadata_unset
  exact absurd hinherits.valid (by decide)

end Nzovu.Repository
