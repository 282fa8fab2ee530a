import Nzovu.Repository.BulkPosting

/-!
# Stored Messages Are Claimable

A claim fails on a message without lease policy, and one such message at the head of a queue would
make every claim of the queue fail. Four producers insert messages: a post, a bulk post in either
mode, and the processors of cron and calendar schedules. All of them run the chain of validators,
which also completes the message; what it leaves is `Validated` (Section 1), and with what the
producers set before and after it every inserted row is `StoredSound` (Sections 2 and 3). No other
operation touches the lease policy of a message (Section 4).
-/

namespace Nzovu.Repository

open Nzovu.Foundation
open Nzovu.Background

section Validation

variable {Content : Type}

/-! ## Section 1: What validation guarantees -/

/-- The metadata a valid message has after the validators, as far as the storage reads it. -/
structure Validated (queueMetadata : QueueMetadata) (metadata validated : PostedMetadata Content) :
    Prop where
  state : validated.state = .invisible
  priority : validated.priority = metadata.priority
  priority_range : 0 ≤ metadata.priority ∧ metadata.priority ≤ 4
  scheduledTime : validated.scheduledTime = metadata.scheduledTime
  leasePolicy : validated.leasePolicy = some (effectiveLeasePolicy queueMetadata
    metadata.leasePolicy metadata.leaseDuration).requested
  accepted : validateLeasePolicy (some (effectiveLeasePolicy queueMetadata metadata.leasePolicy
    metadata.leaseDuration)) = .ok ()
  retry : (validateRetry queueMetadata.defaultMaxAttempts metadata.stored).2 = []
  maxAttempts : validated.maxAttempts =
    (validateRetry queueMetadata.defaultMaxAttempts metadata.stored).1.maxAttempts
  attemptsLeft : validated.attemptsLeft =
    (validateRetry queueMetadata.defaultMaxAttempts metadata.stored).1.attemptsLeft

theorem valid_validatorChain_cons {validate : Validator Content} {rest : List (Validator Content)}
    {message : PostedMessage Content} :
    (validatorChain (validate :: rest) message).2.valid = true ↔
      (validate message).2.valid = true ∧
        (validatorChain rest (validate message).1).2.valid = true := by
  simp [validatorChain]

theorem fst_validatorChain_cons (validate : Validator Content) (rest : List (Validator Content))
    (message : PostedMessage Content) :
    (validatorChain (validate :: rest) message).1 =
      (validatorChain rest (validate message).1).1 := rfl

theorem fst_validatorChain_nil (message : PostedMessage Content) :
    (validatorChain [] message).1 = message := rfl

/-- A message that passes `RuntimeValidator` is INVISIBLE. -/
theorem valid_validateRuntime {messageId : String} {metadata : PostedMetadata Content}
    (h : (validateRuntime ⟨messageId, some metadata⟩).2.valid = true) :
    metadata.state = .invisible := by
  by_contra hstate
  simp [validateRuntime, hstate] at h

/-- The priority of a message that passes `PriorityValidator`. -/
theorem valid_validatePriority {messageId : String} {metadata : PostedMetadata Content}
    (h : (validatePriority ⟨messageId, some metadata⟩).2.valid = true) :
    0 ≤ metadata.priority ∧ metadata.priority ≤ 4 := by
  have herrors := (ValidationResult.valid_ofErrors _).mp h
  obtain ⟨hlow, hhigh⟩ := List.append_eq_nil_iff.mp herrors
  constructor
  · by_contra hlt
    rw [if_pos (Int.not_le.mp hlt)] at hlow
    cases hlow
  · by_contra hgt
    rw [if_pos (Int.not_le.mp hgt)] at hhigh
    cases hhigh

/-- What a message is after it has passed `LeasePolicyValidator`. -/
theorem valid_validateLease {queueMetadata : QueueMetadata} {messageId : String}
    {metadata : PostedMetadata Content}
    (h : (validateLease queueMetadata ⟨messageId, some metadata⟩).2.valid = true) :
    let effective := effectiveLeasePolicy queueMetadata metadata.leasePolicy metadata.leaseDuration
    validateLeasePolicy (some effective) = .ok () ∧
      (validateLease queueMetadata ⟨messageId, some metadata⟩).1 = ⟨messageId, some { metadata with
        leasePolicy := some effective.requested
        leaseDuration := effective.baseLease }⟩ := by
  intro effective
  simp only [validateLease] at h ⊢
  split at h
  · simp at h
  · rename_i hconflict
    rw [if_neg hconflict]
    cases hpolicy : validateLeasePolicy (some effective) with
    | error violation => simp [effective, hpolicy] at h
    | ok => exact ⟨rfl, rfl⟩

/-- **Chain rule**: a valid message comes out `Validated`. -/
theorem validated_newPayloadValidator {queueMetadata : QueueMetadata}
    {content : ContentValidator Content} {messageId : String} {metadata : PostedMetadata Content}
    (h : (newPayloadValidator queueMetadata content ⟨messageId, some metadata⟩).2.valid = true) :
    ∃ validated, (newPayloadValidator queueMetadata content ⟨messageId, some metadata⟩).1 =
        ⟨messageId, some validated⟩ ∧ Validated queueMetadata metadata validated := by
  unfold newPayloadValidator at h
  obtain ⟨-, h⟩ := valid_validatorChain_cons.mp h
  obtain ⟨hruntime, h⟩ := valid_validatorChain_cons.mp h
  obtain ⟨hpriority, h⟩ := valid_validatorChain_cons.mp h
  obtain ⟨hlease, h⟩ := valid_validatorChain_cons.mp h
  have hstate := valid_validateRuntime hruntime
  have hrange := valid_validatePriority hpriority
  obtain ⟨haccepted, hleased⟩ := valid_validateLease hlease
  obtain ⟨-, h⟩ := valid_validatorChain_cons.mp h
  obtain ⟨hretry, -⟩ := valid_validatorChain_cons.mp h
  -- The first three validators check the message as it came and change nothing.
  have hsame : (validatePriority (validateRuntime (validateMessageId
      (⟨messageId, some metadata⟩ : PostedMessage Content)).1).1).1 =
      ⟨messageId, some metadata⟩ := rfl
  rw [hsame, hleased] at hretry
  -- What the last validators leave: the lease, the attempts and the content are filled in.
  refine ⟨{ metadata with
      content := content.normalize metadata.content
      leasePolicy := some (effectiveLeasePolicy queueMetadata metadata.leasePolicy
        metadata.leaseDuration).requested
      leaseDuration := some (defaultedLeaseDuration queueMetadata
        (effectiveLeasePolicy queueMetadata metadata.leasePolicy metadata.leaseDuration).baseLease)
      maxAttempts :=
        (validateRetry queueMetadata.defaultMaxAttempts metadata.stored).1.maxAttempts
      attemptsLeft :=
        (validateRetry queueMetadata.defaultMaxAttempts metadata.stored).1.attemptsLeft }, ?_,
    ⟨hstate, rfl, hrange, rfl, rfl, haccepted, (ValidationResult.valid_ofErrors _).mp hretry, rfl,
      rfl⟩⟩
  simp only [newPayloadValidator, fst_validatorChain_cons, fst_validatorChain_nil]
  rw [hsame, hleased]
  rfl

/-! ## Section 2: Rows of posted messages -/

/-- The lease policy a message is stored with is there and valid. -/
def PolicySound (metadata : MessageMetadata) : Prop :=
  ∃ policy, metadata.leasePolicy = some policy ∧ validateLeasePolicy (some policy) = .ok ()

/-- What holds of every row when it is inserted. -/
structure StoredSound (row : MessageRow) : Prop where
  policy : PolicySound row.metadata
  maxAttempts : row.maxAttempts = -1 ∨ 1 ≤ row.maxAttempts
  unlimited : row.attemptsLeft = -1 ↔ row.maxAttempts = -1
  attemptsLeft : row.maxAttempts ≠ -1 → 1 ≤ row.attemptsLeft ∧ row.attemptsLeft ≤ row.maxAttempts
  attemptsLeft_stored : row.attemptsLeft = row.metadata.attemptsLeft
  maxAttempts_stored : row.maxAttempts = row.metadata.maxAttempts
  priority_stored : row.priority = row.metadata.priority
  scheduledAt_stored : row.scheduledAt = row.metadata.scheduledTime.map unixMilli

theorem storedSound_newRow {metadata : MessageMetadata} (hpolicy : PolicySound metadata)
    (hattempts : AttemptsAccepted metadata) (queueName messageId : String)
    (createdAt updatedAt : Int) :
    StoredSound (newRow queueName messageId metadata (metadata.scheduledTime.map unixMilli)
      createdAt updatedAt) := by
  refine ⟨hpolicy, ?_, ?_, ?_, rfl, rfl, rfl, rfl⟩ <;>
    simp only [newRow] <;> rcases hattempts with ⟨hmax, hleft⟩ | ⟨hlo, hhi⟩ <;> omega

/-- The metadata `CreateQueueMessage` stores: whatever metadata of the queue the server and the
service have read. -/
theorem sound_complete {queueMetadata : QueueMetadata} {metadata validated : PostedMetadata Content}
    (h : Validated queueMetadata metadata validated) (current : QueueMetadata) (now : Int) :
    PolicySound (completePosted current now validated).stored ∧
      AttemptsAccepted (completePosted current now validated).stored := by
  have hstored : (completePosted current now validated).stored =
      completeMessageMetadata current now validated.stored := stored_completePosted current now _
  constructor
  · refine ⟨_, ?_, h.accepted⟩
    rw [hstored]
    simp [completeMessageMetadata, PostedMetadata.stored, h.leasePolicy]
  · have hattempts := attemptsAccepted_of_validateRetry current now h.retry
    have hmax : validated.stored.maxAttempts =
        (validateRetry queueMetadata.defaultMaxAttempts metadata.stored).1.maxAttempts :=
      h.maxAttempts
    have hleft : validated.stored.attemptsLeft =
        (validateRetry queueMetadata.defaultMaxAttempts metadata.stored).1.attemptsLeft :=
      h.attemptsLeft
    rw [hstored]
    simp only [AttemptsAccepted, completeMessageMetadata, hmax, hleft] at hattempts ⊢
    exact hattempts

/-- The environment of a call through the server, which always validates. -/
structure ServerEnvironment (Content : Type) extends PostEnvironment Content where
  validates : validator.isSome = true

theorem PostedRow.storedSound {env : ServerEnvironment Content} {queueMetadata : QueueMetadata}
    {now : Int} {queueName : String} {message : Option (PostedMessage Content)} {row : MessageRow}
    (h : PostedRow env.toPostEnvironment queueMetadata now queueName message row) :
    StoredSound row := by
  obtain ⟨⟨messageId, postedMetadata⟩, metadata, createdAt, updatedAt, -, hsome, hvalid, hmeta,
    rfl⟩ := h
  -- The server always has a validator, so the stored metadata is what the chain left.
  obtain ⟨postedMetadata, rfl⟩ := Option.isSome_iff_exists.mp hsome
  obtain ⟨⟨read, content⟩, hvalidator⟩ := Option.isSome_iff_exists.mp env.validates
  simp only [PostEnvironment.validate, hvalidator] at hvalid hmeta
  obtain ⟨validated, hmessage, hvalidated⟩ := validated_newPayloadValidator hvalid
  rw [hmessage] at hmeta
  obtain rfl := Option.some.inj hmeta
  obtain ⟨hpolicy, hattempts⟩ := sound_complete hvalidated queueMetadata now
  exact storedSound_newRow hpolicy hattempts _ _ _ _

/-- The priority of the row is one that `PriorityValidator` admits. -/
def PriorityInRange (row : MessageRow) : Prop := 0 ≤ row.priority ∧ row.priority ≤ 4

instance (row : MessageRow) : Decidable (PriorityInRange row) :=
  inferInstanceAs (Decidable (_ ∧ _))

theorem PostedRow.priorityInRange {env : ServerEnvironment Content} {queueMetadata : QueueMetadata}
    {now : Int} {queueName : String} {message : Option (PostedMessage Content)} {row : MessageRow}
    (h : PostedRow env.toPostEnvironment queueMetadata now queueName message row) :
    PriorityInRange row := by
  obtain ⟨⟨messageId, postedMetadata⟩, metadata, createdAt, updatedAt, -, hsome, hvalid, hmeta,
    rfl⟩ := h
  obtain ⟨postedMetadata, rfl⟩ := Option.isSome_iff_exists.mp hsome
  obtain ⟨⟨read, content⟩, hvalidator⟩ := Option.isSome_iff_exists.mp env.validates
  simp only [PostEnvironment.validate, hvalidator] at hvalid hmeta
  obtain ⟨validated, hmessage, hvalidated⟩ := validated_newPayloadValidator hvalid
  rw [hmessage] at hmeta
  obtain rfl := Option.some.inj hmeta
  have hrange := hvalidated.priority_range
  rw [← hvalidated.priority] at hrange
  exact hrange

/-- A posted message is INVISIBLE when its scheduled time is in the future, else PENDING. -/
theorem PostedRow.invisible_iff {env : PostEnvironment Content} {queueMetadata : QueueMetadata}
    {now : Int} {queueName : String} {message : Option (PostedMessage Content)} {row : MessageRow}
    (h : PostedRow env queueMetadata now queueName message row) :
    row.state = .invisible ↔ ∃ t, row.metadata.scheduledTime = some t ∧ now < t := by
  obtain ⟨posted, metadata, createdAt, updatedAt, -, -, -, hmeta, rfl⟩ := h
  simp only [PostedMessage.stored, PostedMessage.complete, Option.map_map] at hmeta
  obtain ⟨validated, -, rfl⟩ := Option.map_eq_some_iff.mp hmeta
  simp only [Function.comp_apply, stored_completePosted, newRow, completeMessageMetadata]
  cases validated.stored.scheduledTime with
  | none => simp
  | some t => by_cases hfuture : now < t <;> simp [hfuture]

/-- What `CreateQueueMessage` stores. -/
theorem createQueueMessage_ok {env : PostEnvironment Content} {db db' : Database} {now : Int}
    {clock : Readings} {queueName : String} {message : Option (PostedMessage Content)}
    (h : createQueueMessage env db now clock queueName message = .ok db') :
    ∃ queueMetadata row, RowInserted db db' row ∧
      PostedRow env queueMetadata now queueName message row := by
  obtain ⟨queueMetadata, haccepts⟩ := accepts_of_createQueueMessage h
  have hoption := toOption_createQueueMessage env haccepts now clock 0 message
  rw [h] at hoption
  obtain ⟨stored, haccepted, hstore⟩ := Option.bind_eq_some_iff.mp hoption.symm
  cases hresult : enqueuePosted env queueName db clock stored with
  | error err => simp [hresult, Except.toOption] at hstore
  | ok db₁ =>
    obtain rfl : db₁ = db' := by simpa [hresult, Except.toOption] using hstore
    obtain ⟨row, hinserted, hposted⟩ := enqueuePosted_accepted haccepted hresult
    exact ⟨queueMetadata, row, hinserted, hposted⟩

/-! ## Section 3: Messages of a schedule -/

/-- `timestamppb.New`. -/
def newTimestamp (t : Int) : Timestamp := ⟨t.fdiv 1000000000, t.fmod 1000000000⟩

@[simp] theorem asTime_newTimestamp (t : Int) : (newTimestamp t).asTime = t := by
  have h := Int.mul_fdiv_add_fmod t 1000000000
  simp only [Timestamp.asTime, newTimestamp]
  omega

/-- What a processor of cron or calendar schedules knows of the message it is to insert. -/
structure ScheduleMessage (Content : Type) where
  queueName : String
  /-- `generateID()`. -/
  messageId : String
  content : Content
  priority : Int
  leaseDuration : Option Duration
  /-- Instant of the run, in nanoseconds. -/
  runTime : Int

/-- The message before its validation. -/
def ScheduleMessage.posted (message : ScheduleMessage Content) (queueMetadata : QueueMetadata) :
    PostedMessage Content :=
  let maxAttempts :=
    if queueMetadata.defaultMaxAttempts = 0 then 3 else queueMetadata.defaultMaxAttempts
  { messageId := message.messageId
    metadata := some
      { content := message.content
        state := .invisible
        attemptsLeft := maxAttempts
        maxAttempts := maxAttempts
        priority := message.priority
        scheduledTime := some (newTimestamp message.runTime)
        leasePolicy := (scheduleLeasePolicy queueMetadata message.leaseDuration).map
          LeasePolicy.requested
        leaseDuration := message.leaseDuration } }

/-- `validateScheduledMessage`, the error text. -/
def scheduledMessageFailure (errors : List ValidationError) : String :=
  "scheduled message validation failed: " ++
    String.intercalate "; " (errors.map fun err => err.field ++ ": " ++ err.message)

/-- `createCronMessage` and `createScheduledMessage` with the validators they run. -/
def createScheduleMessage (content : ContentValidator Content)
    (encrypt : Content → Except String Content) (db : Database) (clock : Readings)
    (message : ScheduleMessage Content) : Except ScheduleRunError Database :=
  match db.queueMetadata? message.queueName with
  | none => .error (.storage (.plain "queue not found"))
  | some queueMetadata =>
    match newPayloadValidator queueMetadata content (message.posted queueMetadata) with
    -- The validators never drop the metadata.
    | (⟨_, none⟩, result) => .error (.validation (scheduledMessageFailure result.errors))
    | (⟨messageId, some metadata⟩, result) =>
      if result.valid = false then .error (.validation (scheduledMessageFailure result.errors))
      else
        match encrypt metadata.content with
        | .error text => .error (.storage (.plain ("encrypt message payload: " ++ text)))
        | .ok _ =>
          match db.insertMessage (newRow message.queueName messageId metadata.stored
              (some (unixMilli message.runTime)) (clock 0) (clock 0)) with
          | .error violated => .error (.storage (.plain ("insert message: " ++ violated.message)))
          | .ok db₁ => .ok (insertCounter db₁ message.queueName metadata.state)

/-- A message with all its attempts keeps them. -/
theorem validateRetry_full {queueDefault : Int} {metadata : MessageMetadata}
    (hmax : metadata.maxAttempts ≠ 0) (hleft : metadata.attemptsLeft = metadata.maxAttempts) :
    (validateRetry queueDefault metadata).1.maxAttempts = metadata.maxAttempts ∧
      (validateRetry queueDefault metadata).1.attemptsLeft = metadata.maxAttempts := by
  simp only [validateRetry, effectiveMaxAttempts, hmax, if_false, hleft, true_and]
  split
  · rename_i hinfinite
    exact hinfinite.symm
  · rfl

section Schedule

variable {queueMetadata : QueueMetadata} {message : ScheduleMessage Content}
  {metadata validated : PostedMetadata Content}

/-- The metadata of a schedule's message after validation. -/
theorem Validated.stored_schedule
    (hmeta : (message.posted queueMetadata).metadata = some metadata)
    (h : Validated queueMetadata metadata validated) :
    validated.stored = scheduleMessageMetadata queueMetadata message.priority
      message.leaseDuration message.runTime := by
  obtain rfl := Option.some.inj hmeta
  have hnonzero : (if queueMetadata.defaultMaxAttempts = 0 then 3
      else queueMetadata.defaultMaxAttempts) ≠ 0 := by split <;> omega
  have hmax := h.maxAttempts.trans (validateRetry_full hnonzero rfl).1
  have hleft := h.attemptsLeft.trans (validateRetry_full hnonzero rfl).2
  simp only [PostedMetadata.stored, h.state, h.priority, h.scheduledTime, h.leasePolicy, hmax,
    hleft, Option.map_some, asTime_newTimestamp, LeasePolicy.policy_requested,
    scheduleMessageMetadata]

/-- The attempt fields of a schedule's message are accepted. -/
theorem Validated.accepted_schedule
    (hmeta : (message.posted queueMetadata).metadata = some metadata)
    (h : Validated queueMetadata metadata validated) :
    AttemptsAccepted validated.stored := by
  obtain rfl := Option.some.inj hmeta
  have hnonzero : (if queueMetadata.defaultMaxAttempts = 0 then 3
      else queueMetadata.defaultMaxAttempts) ≠ 0 := by split <;> omega
  have hmax := h.maxAttempts.trans (validateRetry_full hnonzero rfl).1
  have hleft := h.attemptsLeft.trans (validateRetry_full hnonzero rfl).2
  have hstored : AttemptsAccepted validated.stored ↔ AttemptsAccepted
      (completeMessageMetadata queueMetadata 0 validated.stored) := by
    rw [AttemptsAccepted, AttemptsAccepted]
    simp only [completeMessageMetadata, PostedMetadata.stored, hmax, hleft, hnonzero, if_false]
  exact hstored.mpr (sound_complete h queueMetadata 0 |>.2)

/-- The run of the existing model that a valid message stands for. -/
def ScheduleMessage.run (message : ScheduleMessage Content) : ScheduleRun where
  queueName := message.queueName
  messageId := message.messageId
  priority := message.priority
  leaseDuration := message.leaseDuration
  runTime := message.runTime
  validationFailure := none

variable {content : ContentValidator Content} {encrypt : Content → Except String Content}
  {db db' : Database} {clock : Readings}

/-- A processor that inserts a message has validated it, and the insertion is `createRunMessage`. -/
theorem createScheduleMessage_ok
    (h : createScheduleMessage content encrypt db clock message = .ok db') :
    createRunMessage db clock message.run = .ok db' ∧
      ∃ queueMetadata metadata validated, db.queueMetadata? message.queueName = some queueMetadata ∧
        (message.posted queueMetadata).metadata = some metadata ∧
        Validated queueMetadata metadata (validated : PostedMetadata Content) := by
  unfold createScheduleMessage at h
  cases hqueue : db.queueMetadata? message.queueName with
  | none => simp [hqueue] at h
  | some queueMetadata =>
    simp only [hqueue] at h
    split at h
    · cases h
    rename_i messageId metadata result hvalidate
    split at h
    · cases h
    rename_i hvalid
    -- The message has passed; its metadata are those of the run.
    have hresult : (newPayloadValidator queueMetadata content
        (message.posted queueMetadata)).2.valid = true := by
      rw [hvalidate]
      simpa using hvalid
    obtain ⟨validated, hmessage, hvalidated⟩ := validated_newPayloadValidator hresult
    have hfst : (⟨messageId, some metadata⟩ : PostedMessage Content) =
        ⟨message.messageId, some validated⟩ :=
      (congrArg Prod.fst hvalidate).symm.trans hmessage
    cases hfst
    have hstored := hvalidated.stored_schedule rfl
    refine ⟨?_, queueMetadata, _, metadata, rfl, rfl, hvalidated⟩
    split at h
    · cases h
    · split at h
      · cases h
      · rename_i db₁ hinsert
        cases h
        rw [hstored] at hinsert
        simp only [createRunMessage, ScheduleMessage.run, hqueue, hinsert, hvalidated.state]

theorem storedSound_createScheduleMessage
    (h : createScheduleMessage content encrypt db clock message = .ok db') :
    ∃ row, RowInserted db db' row ∧ StoredSound row ∧ PriorityInRange row := by
  obtain ⟨hrun, queueMetadata, metadata, validated, hqueue, hmeta, hvalidated⟩ :=
    createScheduleMessage_ok h
  obtain ⟨queueMetadata', hqueue', hinserted⟩ := createRunMessage_effect hrun
  obtain rfl := Option.some.inj (hqueue.symm.trans hqueue')
  have hstored := hvalidated.stored_schedule hmeta
  have hattempts := hvalidated.accepted_schedule hmeta
  rw [hstored] at hattempts
  have hpolicy : PolicySound (scheduleMessageMetadata queueMetadata message.priority
      message.leaseDuration message.runTime) := by
    rw [← hstored]
    exact ⟨_, by simp [PostedMetadata.stored, hvalidated.leasePolicy], hvalidated.accepted⟩
  have hrange := hvalidated.priority_range
  obtain rfl := Option.some.inj hmeta
  exact ⟨_, hinserted, storedSound_newRow hpolicy hattempts _ _ _ _, hrange⟩

end Schedule

end Validation

/-! ## Section 4: Runs -/

/-- Requests to a server, and everything else that happens to its database. -/
inductive Request (Content : Type) where
  | post (env : ServerEnvironment Content) (now : Int) (clock : Readings) (queueName : String)
      (message : Option (PostedMessage Content))
  | postBulk (env : ServerEnvironment Content) (now : Nat → Int) (clock : Readings)
      (queueName : String) (messages : List (Option (PostedMessage Content)))
      (transactionMode : Int)
  /-- A run of a cron or calendar schedule. -/
  | runSchedule (content : ContentValidator Content) (encrypt : Content → Except String Content)
      (clock : Readings) (message : ScheduleMessage Content)
  /-- An operation that inserts no message. -/
  | other (op : Operation) (hop : ∀ s : System, ∀ m, ¬ (s.additions op).message m)

/-- One request. -/
def System.serve {Content : Type} (s : System) : Request Content → System
  | .post env now clock queueName message =>
    s.commit (createQueueMessage env.toPostEnvironment s.db now clock queueName message)
  | .postBulk env now clock queueName messages transactionMode =>
    { s with db := (createQueueMessagesBulk env.toPostEnvironment s.db now clock queueName messages
        transactionMode).1 }
  | .runSchedule content encrypt clock message =>
    s.commit (createScheduleMessage content encrypt s.db clock message)
  | .other op _ => s.step op

section Runs

variable {Content : Type}

/-- The state after a list of requests on a new installation. -/
def System.served (requests : List (Request Content)) : System :=
  runFrom System.serve System.empty requests

/-- Any message may be posted. -/
def Additions.posts : Additions := ⟨fun _ => True, fun _ => False⟩

section Changes

variable {env : PostEnvironment Content} {queueName : String} {clock : Readings}

theorem enqueuePosted_change {db db' : Database} {message : PostedMessage Content}
    (h : enqueuePosted env queueName db clock message = .ok db') :
    Change .posts db db' none :=
  enqueueMessageInTx_change (fun _ _ => trivial) (enqueuePosted_ok h)

theorem enqueueAllWith_changes {messages : List (PostedMessage Content)} :
    ∀ {i : Nat} {db db' : Database},
      enqueueAllWith (enqueuePosted env queueName) clock db i messages = .ok db' →
        Changes .posts db db' none := by
  induction messages with
  | nil =>
    intro i db db' h
    cases h
    exact .refl db
  | cons message rest ih =>
    intro i db db' h
    simp only [enqueueAllWith] at h
    split at h
    · cases h
    · rename_i db₁ hfirst
      exact .step (enqueuePosted_change hfirst) (ih h)

theorem enqueueEachWith_changes (messages : List (PostedMessage Content)) :
    ∀ (i : Nat) (db : Database), Changes .posts db
      (enqueueEachWith (enqueuePosted env queueName) clock db i messages).1 none := by
  induction messages with
  | nil => exact fun _ db => .refl db
  | cons message rest ih =>
    intro i db
    simp only [enqueueEachWith]
    split
    · exact ih (i + 1) db
    · rename_i db₁ hfirst
      exact .step (enqueuePosted_change hfirst) (ih (i + 1) db₁)

theorem enqueueMessagesBulkWith_changes (db : Database) (messages : List (PostedMessage Content))
    (mode : TransactionMode) : Changes .posts db
      (enqueueMessagesBulkWith (enqueuePosted env queueName) clock db messages mode).1 none := by
  cases mode with
  | bestEffort => exact enqueueEachWith_changes messages 0 db
  | allOrNothing =>
    simp only [enqueueMessagesBulkWith]
    split
    · rename_i db' hall
      exact enqueueAllWith_changes hall
    · exact .refl db

end Changes

/-- What a request does to the rows: it appends sound ones, or it is an operation that inserts
none. -/
inductive Serves (s s' : System) : Prop where
  | inserts (rows : List (Nat × MessageRow))
      (hrows : s'.db.messages.rows = s.db.messages.rows ++ rows)
      (hsound : ∀ e ∈ rows, StoredSound e.2) (hchanges : Changes .posts s.db s'.db none)
      (hcollected : s'.collected = s.collected) (hrange : ∀ e ∈ rows, PriorityInRange e.2)
  | other (op : Operation) (hop : ∀ m, ¬ (s.additions op).message m) (hstep : s' = s.step op)

theorem Merged.storedSound {env : ServerEnvironment Content} {queueMetadata : QueueMetadata}
    {now : Nat → Int} {queueName : String} {i : Nat}
    {messages : List (Option (PostedMessage Content))} {results : List MessagePostResult}
    {rows : List (Nat × MessageRow)}
    (h : Merged env.toPostEnvironment queueMetadata now queueName i messages results rows) :
    ∀ e ∈ rows, StoredSound e.2 ∧ PriorityInRange e.2 := by
  induction h with
  | nil => exact fun _ he => absurd he List.not_mem_nil
  | failed _ _ _ ih => exact ih
  | stored _ _ hrow _ ih =>
    intro e he
    rcases List.mem_cons.mp he with rfl | he
    · exact ⟨hrow.storedSound, hrow.priorityInRange⟩
    · exact ih e he

/-- **Step lemma**: every request serves. -/
theorem serves_serve (s : System) (request : Request Content) : Serves s (s.serve request) := by
  have hsame : Serves s s :=
    .inserts [] (by simp) (fun _ he => absurd he List.not_mem_nil) (.refl s.db) rfl
      fun _ he => absurd he List.not_mem_nil
  cases request with
  | post env now clock queueName message =>
    simp only [System.serve]
    cases hcreate : createQueueMessage env.toPostEnvironment s.db now clock queueName message with
    | error err => exact hsame
    | ok db' =>
      obtain ⟨queueMetadata, row, hinserted, hposted⟩ := createQueueMessage_ok hcreate
      refine .inserts [(s.db.messages.nextId, row)] hinserted.rows (fun e he => ?_) ?_ rfl
        fun e he => ?_
      · cases List.mem_singleton.mp he
        exact hposted.storedSound
      · obtain ⟨_, metadata, _, _, -, -, -, -, rfl⟩ := hposted
        exact .single (.inserted _ _ metadata _ _ _ trivial hinserted)
      · cases List.mem_singleton.mp he
        exact hposted.priorityInRange
  | postBulk env now clock queueName messages transactionMode =>
    simp only [System.serve]
    rcases createQueueMessagesBulk_cases env.toPostEnvironment s.db now clock queueName messages
      transactionMode with ⟨err, h⟩ | ⟨queueMetadata, mode, prepared, haccepts, -, hprepared, h⟩
    · rw [h]
      exact hsame
    · obtain ⟨response, -, ⟨_, results, rows, -, -, -, hmerged, hrows, -⟩, -⟩ :=
        describes_enqueueMessagesBulkWith clock haccepts hprepared
      rw [h]
      exact .inserts rows hrows (fun e he => (hmerged.storedSound e he).1)
        (enqueueMessagesBulkWith_changes s.db (validMessages prepared) mode) rfl
        fun e he => (hmerged.storedSound e he).2
  | runSchedule content encrypt clock message =>
    simp only [System.serve]
    cases hcreate : createScheduleMessage content encrypt s.db clock message with
    | error err => exact hsame
    | ok db' =>
      obtain ⟨row, hinserted, hsound, hrange⟩ := storedSound_createScheduleMessage hcreate
      have hchange : Change .posts s.db db' none :=
        createRunMessage_change (fun _ _ => trivial) (createScheduleMessage_ok hcreate).1
      refine .inserts [(s.db.messages.nextId, row)] hinserted.rows (fun e he => ?_)
        (.single hchange) rfl fun e he => ?_
      · cases List.mem_singleton.mp he
        exact hsound
      · cases List.mem_singleton.mp he
        exact hrange
  | other op hop => exact .other op (hop s) rfl

theorem WellFormed.serve {s : System} (hwf : WellFormed s) (request : Request Content) :
    WellFormed (s.serve request) := by
  cases serves_serve s request with
  | inserts rows hrows hsound hchanges hcollected =>
    refine ⟨hchanges.preserves' (fun _ _ _ => InvisibleStored.change) hwf.invisible,
      fun message hmem => ?_⟩
    rw [hcollected] at hmem
    exact hchanges.preserves' (P := fun db => Captures db message)
      (fun _ _ _ => Captures.change) (hwf.captured message hmem)
  | other op hop hstep =>
    rw [hstep]
    exact hwf.step op

/-- The lease policy of a row is not touched by any transition. -/
theorem RowTransition.policy {old new : MessageRow} {event : Option RowEvent}
    (h : RowTransition old event new) : new.metadata.leasePolicy = old.metadata.leasePolicy := by
  cases h <;> rfl

/-- Every row has a valid lease policy. -/
def PoliciesSound (db : Database) : Prop := ∀ e ∈ db.messages.rows, PolicySound e.2.metadata

theorem PoliciesSound.change {adds : Additions} {db db' : Database}
    {event : Option (Nat × RowEvent)} (hadds : ∀ m, ¬ adds.message m) (h : PoliciesSound db)
    (hchange : Change adds db db' event) : PoliciesSound db' := by
  intro e he
  cases hchange.origin he with
  | kept hold _ => exact h e hold
  | inserted _ _ metadata _ _ _ _ hnew => exact absurd hnew (hadds metadata)
  | changed old _ hold ht _ =>
    obtain ⟨policy, hpolicy, hvalid⟩ := h _ hold
    exact ⟨policy, ht.policy.trans hpolicy, hvalid⟩

theorem policiesSound_serve {s : System} (hwf : WellFormed s) (h : PoliciesSound s.db)
    (request : Request Content) : PoliciesSound (s.serve request).db := by
  cases serves_serve s request with
  | inserts rows hrows hsound =>
    intro e he
    rw [hrows] at he
    rcases List.mem_append.mp he with he | he
    · exact h e he
    · exact (hsound e he).policy
  | other op hop hstep =>
    rw [hstep]
    exact (step_changes hwf op).preserves' (fun _ _ _ hdb => hdb.change hop) h

/-- Every row has a priority that `PriorityValidator` admits. -/
def PrioritiesInRange (db : Database) : Prop := ∀ e ∈ db.messages.rows, PriorityInRange e.2

theorem PrioritiesInRange.change {adds : Additions} {db db' : Database}
    {event : Option (Nat × RowEvent)} (hadds : ∀ m, ¬ adds.message m) (h : PrioritiesInRange db)
    (hchange : Change adds db db' event) : PrioritiesInRange db' := by
  intro e he
  cases hchange.origin he with
  | kept hold _ => exact h e hold
  | inserted _ _ metadata _ _ _ _ hnew => exact absurd hnew (hadds metadata)
  | changed old _ hold ht _ =>
    rw [PriorityInRange, ht.priority]
    exact h _ hold

theorem prioritiesInRange_serve {s : System} (hwf : WellFormed s) (h : PrioritiesInRange s.db)
    (request : Request Content) : PrioritiesInRange (s.serve request).db := by
  cases serves_serve s request with
  | inserts rows hrows _ _ _ hrange =>
    intro e he
    rw [hrows] at he
    rcases List.mem_append.mp he with he | he
    · exact h e he
    · exact hrange e he
  | other op hop hstep =>
    rw [hstep]
    exact (step_changes hwf op).preserves' (fun _ _ _ hdb => hdb.change hop) h

/-- In every run of the server the stored priorities are those of `PriorityValidator`. -/
theorem served_prioritiesInRange (requests : List (Request Content)) :
    PrioritiesInRange (System.served requests).db :=
  (invariant_runFrom' System.serve (fun s => WellFormed s ∧ PrioritiesInRange s.db)
    (fun _ request h => ⟨h.1.serve request, prioritiesInRange_serve h.1 h.2 request⟩)
    ⟨wellFormed_empty, fun _ he => absurd he List.not_mem_nil⟩ requests).2

theorem served_sound (requests : List (Request Content)) :
    WellFormed (System.served requests) ∧ PoliciesSound (System.served requests).db :=
  invariant_runFrom' System.serve (fun s => WellFormed s ∧ PoliciesSound s.db)
    (fun _ request h => ⟨h.1.serve request, policiesSound_serve h.1 h.2 request⟩)
    ⟨wellFormed_empty, fun _ he => absurd he List.not_mem_nil⟩ requests

/-- The rows that a request inserts. -/
theorem storedSound_inserted {s : System} (hwf : WellFormed s) (request : Request Content)
    {e : Nat × MessageRow} (hmem : e ∈ (s.serve request).db.messages.rows)
    (hnew : ∀ d ∈ s.db.messages.rows, d.1 ≠ e.1) : StoredSound e.2 := by
  cases serves_serve s request with
  | inserts rows hrows hsound =>
    rw [hrows] at hmem
    rcases List.mem_append.mp hmem with hold | hmem
    · exact absurd rfl (hnew e hold)
    · exact hsound e hmem
  | other op hop hstep =>
    -- Without insertions every row has the id of an earlier one.
    have hids : ∀ d ∈ (s.step op).db.messages.rows, ∃ d' ∈ s.db.messages.rows, d'.1 = d.1 := by
      refine (step_changes hwf op).preserves'
        (P := fun db => ∀ d ∈ db.messages.rows, ∃ d' ∈ s.db.messages.rows, d'.1 = d.1)
        (fun db db' event h hchange d hd => ?_) (fun d hd => ⟨d, hd, rfl⟩)
      cases hchange.origin hd with
      | kept hold _ => exact h d hold
      | inserted _ _ metadata _ _ _ _ hnew => exact absurd hnew (hop metadata)
      | changed old _ hold _ _ => exact h (d.1, old) hold
    rw [hstep] at hmem
    obtain ⟨d, hd, hid⟩ := hids e hmem
    exact absurd hid (hnew d hd)

end Runs

/-! ## Section 5: Claims -/

/-- The error of a claim on a message without lease policy. -/
def noLeasePolicy : StorageError := .plain "message has no lease policy"

theorem levelWeight_ne {cfg : PriorityConfig} {nowMs : Int} {level : PriorityLevel}
    {oldest : Option Int} : levelWeight cfg nowMs level oldest ≠ .error noLeasePolicy := by
  intro h
  simp only [levelWeight] at h
  split at h
  · cases h
  · split at h
    · split at h
      · cases level <;> exact absurd h (by decide)
      · cases h
    · cases h

theorem calculateWeights_ne {cfg : PriorityConfig} {nowMs : Int}
    {oldest : PriorityLevel → Option Int} :
    calculateWeights cfg nowMs oldest ≠ .error noLeasePolicy := by
  intro h
  simp only [calculateWeights, bind, Except.bind] at h
  split at h
  · rename_i err hhigh
    cases h
    exact levelWeight_ne hhigh
  split at h
  · rename_i err hmedium
    cases h
    exact levelWeight_ne hmedium
  split at h
  · rename_i err hlow
    cases h
    exact levelWeight_ne hlow
  · split at h
    · cases h
    · split at h <;> cases h

/-- A claim reports a missing lease policy only for a row without one. -/
theorem claim_ne_noLeasePolicy {db : Database} (h : PoliciesSound db) (clock : Readings)
    (req : ClaimRequest) : claimMessageWithLeaseDuration db clock req ≠ .error noLeasePolicy := by
  intro herror
  unfold claimMessageWithLeaseDuration at herror
  split at herror
  · rename_i err hqueue
    unfold getQueueMetadata at hqueue
    split at hqueue <;> cases hqueue
    cases herror
  split at herror
  · rename_i err hexclusive
    unfold validateClaimExclusivity at hexclusive
    split at hexclusive
    · cases hexclusive
    · split at hexclusive
      · cases hexclusive
        cases herror
      · split at hexclusive <;> cases hexclusive
        cases herror
  split at herror
  · rename_i err hlevel
    cases herror
    unfold claimLevel at hlevel
    split at hlevel
    · cases hlevel
    · split at hlevel
      · cases hlevel
      · split at hlevel
        · rename_i err hweights
          cases hlevel
          exact calculateWeights_ne hweights
        · cases hlevel
  · cases herror
  · split at herror
    · cases herror
    · split at herror
      · cases herror
      · rename_i e hselected
        obtain ⟨hmem, -⟩ := selectCandidate_eq_some hselected
        obtain ⟨policy, hpolicy, -⟩ := h e hmem
        -- Only here is the policy read, and the selected row has one.
        simp [takeLease, hpolicy] at herror

/-- **Stored messages are claimable**: in every run of the server, every row a request inserts is
sound, every row keeps a valid lease policy, and no claim fails for want of one. -/
theorem served_claimable {Content : Type} (requests : List (Request Content)) :
    (∀ request : Request Content,
      ∀ e ∈ ((System.served requests).serve request).db.messages.rows,
        (∀ d ∈ (System.served requests).db.messages.rows, d.1 ≠ e.1) → StoredSound e.2) ∧
    (∀ e ∈ (System.served requests).db.messages.rows, PolicySound e.2.metadata) ∧
    ∀ clock req, claimMessageWithLeaseDuration (System.served requests).db clock req ≠
      .error noLeasePolicy :=
  have hsound := served_sound requests
  ⟨fun request _ hmem hnew => storedSound_inserted hsound.1 request hmem hnew, hsound.2,
    claim_ne_noLeasePolicy hsound.2⟩

/-- A message posted to a new queue, without any field set. -/
theorem served_claimable_post :
    let queue : Request Unit := .other (.createQueue "jobs" {}) fun _ _ => id
    let env : ServerEnvironment Unit :=
      ⟨⟨some ({}, ⟨id, fun _ => .accepted⟩), .ok, fun _ => 0⟩, rfl⟩
    let post : Request Unit := .post env 0 (fun _ => 0) "jobs" (some ⟨"a", some { content := () }⟩)
    ∃ e ∈ ((System.served [queue]).serve post).db.messages.rows, StoredSound e.2 := by
  intro queue env post
  have hempty : (System.served [queue]).db.messages.rows = [] := by decide +kernel
  have hposted : ((System.served [queue]).serve post).db.messages.rows ≠ [] := by decide +kernel
  obtain ⟨e, he⟩ := List.exists_mem_of_ne_nil _ hposted
  refine ⟨e, he, (served_claimable [queue]).1 post e he fun d hd => ?_⟩
  rw [hempty] at hd
  exact absurd hd List.not_mem_nil

end Nzovu.Repository
