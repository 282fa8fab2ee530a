import Nzovu.Repository.Validation

/-!
# Posting Messages

`CreateQueueMessage` and `CreateQueueMessagesBulk` of `pkg/repository/implementation.go`, over
`EnqueueMessage` and `EnqueueMessagesBulk` of `pkg/repository/sqlite/messages.go`.

A bulk request is validated message by message first; the messages that passed are stored, and the
errors of both stages are merged back by the index of the request. Validator, payload encryption
and the size of the encoded message are parameters.
-/

namespace Nzovu.Repository

open Nzovu.Foundation

/-! ## Section 1: One message -/

/-- What a post meets outside the database. -/
structure PostEnvironment (Content : Type) where
  /-- What `NewPayloadValidator` is called with; the server always passes a validator. -/
  validator : Option (QueueMetadata × ContentValidator Content)
  /-- `EncryptMessagePayload`, which may fail. -/
  encrypt : Content → Except String Content
  /-- `proto.Size`. -/
  protoSize : PostedMessage Content → Nat

/-- An error of the service, with the fields it names. -/
structure PostError where
  error : StorageError
  violations : List ValidationError := []
deriving DecidableEq, Repr

section Post

variable {Content : Type}

/-- What `CreateQueueMessage` sets after validation. -/
def completePosted (queueMetadata : QueueMetadata) (now : Int) (metadata : PostedMetadata Content) :
    PostedMetadata Content :=
  let completed := completeMessageMetadata queueMetadata now metadata.stored
  { metadata with
    state := completed.state
    maxAttempts := completed.maxAttempts
    attemptsLeft := completed.attemptsLeft
    leasePolicy := metadata.leasePolicy <|> queueMetadata.leasePolicy.map LeasePolicy.requested }

/-- The message after validation and completion. -/
def PostedMessage.complete (queueMetadata : QueueMetadata) (now : Int)
    (message : PostedMessage Content) : PostedMessage Content :=
  { message with metadata := message.metadata.map (completePosted queueMetadata now) }

@[simp] theorem stored_completePosted (queueMetadata : QueueMetadata) (now : Int)
    (metadata : PostedMetadata Content) :
    (completePosted queueMetadata now metadata).stored =
      completeMessageMetadata queueMetadata now metadata.stored := by
  simp only [completePosted, PostedMetadata.stored, completeMessageMetadata]
  cases metadata.leasePolicy <;> cases queueMetadata.leasePolicy <;> rfl

/-- `v.Validate`, when there is a validator. -/
def PostEnvironment.validate (env : PostEnvironment Content) (message : PostedMessage Content) :
    PostedMessage Content × ValidationResult :=
  match env.validator with
  | none => (message, .accepted)
  | some (queueMetadata, content) => newPayloadValidator queueMetadata content message

/-- `enqueueMessageInTx`, the payload encryption included. -/
def enqueuePosted (env : PostEnvironment Content) (queueName : String) (db : Database)
    (clock : Readings) (message : PostedMessage Content) : Except StorageError Database :=
  match message.metadata.map fun metadata => env.encrypt metadata.content with
  -- A message that cannot be encrypted is not stored in the clear.
  | some (.error text) => .error (.plain ("encrypt message payload: " ++ text))
  | _ => enqueueMessageInTx db clock queueName message.stored

/-- `\n  - field: message` for each error. -/
def errorLines (errors : List ValidationError) : String :=
  errors.foldl (fun text err => text ++ "\n  - " ++ err.field ++ ": " ++ err.message) ""

/-- `CreateQueueMessage`. `now` is the instant compared with the scheduled time. -/
def createQueueMessage (env : PostEnvironment Content) (db : Database) (now : Int)
    (clock : Readings) (queueName : String) (message : Option (PostedMessage Content)) :
    Except PostError Database :=
  match message with
  | none => .error { error := ⟨.invalidArgument, "message is required"⟩ }
  | some message =>
    if queueName = "" then .error { error := ⟨.invalidArgument, "queue name is required"⟩ }
    else
      -- Dead letter queues take no posts: only failed messages get there.
      match rejectDLQOperation db queueName with
      | .error err => .error { error := err }
      | .ok () =>
        if message.metadata.isNone then
          .error
            { error := ⟨.invalidArgument, "message metadata is required"⟩
              violations := [⟨"message.metadata", "required field missing"⟩] }
        else
          match getQueueMetadata db queueName with
          | .error err => .error { error := err.wrap "get queue metadata" }
          | .ok queueMetadata =>
            let (message, result) := env.validate message
            if result.valid = false then
              .error
                { error := ⟨.invalidArgument,
                    "Message validation failed:" ++ errorLines result.errors⟩
                  violations := result.errors }
            else
              let message := message.complete queueMetadata now
              match enqueuePosted env queueName db clock message with
              | .ok db' => .ok db'
              | .error err =>
                -- The UNIQUE key of the table decides, not a lookup before the insertion.
                if err.kind = .duplicateMessageId then
                  .error { error := ⟨.alreadyExists,
                    "message " ++ message.messageId.quote ++ " already exists"⟩ }
                else .error { error := err }

end Post

/-! ## Section 2: Storing a batch -/

section Batch

variable {μ : Type} (enqueue : Database → Readings → μ → Except StorageError Database)
  (clock : Readings)

/-- The loop of the `ALL_OR_NOTHING` transaction for any way to enqueue one message. Message `i`
makes the clock readings `2 * i` and `2 * i + 1`. -/
def enqueueAllWith : Database → Nat → List μ → Except (Nat × StorageError) Database
  | db, _, [] => .ok db
  | db, i, message :: rest =>
    match enqueue db (fun k => clock (2 * i + k)) message with
    | .error err => .error (i, err)
    | .ok db' => enqueueAllWith db' (i + 1) rest

/-- The loop of `BEST_EFFORT` for any way to enqueue one message. -/
def enqueueEachWith : Database → Nat → List μ → Database × List (Option StorageError)
  | db, _, [] => (db, [])
  | db, i, message :: rest =>
    match enqueue db (fun k => clock (2 * i + k)) message with
    | .error err =>
      let (db', errors) := enqueueEachWith db (i + 1) rest
      (db', some err :: errors)
    | .ok db₁ =>
      let (db', errors) := enqueueEachWith db₁ (i + 1) rest
      (db', none :: errors)

/-- `EnqueueMessagesBulk` for any way to enqueue one message. -/
def enqueueMessagesBulkWith (db : Database) (messages : List μ) (mode : TransactionMode) :
    Database × BulkResult :=
  match mode with
  | .allOrNothing =>
    match enqueueAllWith enqueue clock db 0 messages with
    | .ok db' => (db', ⟨messages.map fun _ => none, none⟩)
    | .error (i, err) =>
      let txErr := err.wrap ("message[" ++ toString i ++ "] failed")
      let messageErrors := (List.range messages.length).map fun j =>
        some (if j = i then err else txErr.wrap "transaction failed")
      (db, ⟨messageErrors, some txErr⟩)
  | .bestEffort =>
    let (db', errors) := enqueueEachWith enqueue clock db 0 messages
    (db', ⟨errors, none⟩)

end Batch

section Unencrypted

variable (clock : Readings) (queueName : String)

private theorem enqueueAll_eq (messages : List Message) : ∀ (db : Database) (i : Nat),
    enqueueAll clock queueName db i messages =
      enqueueAllWith (fun db clock => enqueueMessageInTx db clock queueName) clock db i
        messages := by
  induction messages with
  | nil => exact fun _ _ => rfl
  | cons message rest ih =>
    intro db i
    simp only [enqueueAll, enqueueAllWith]
    cases enqueueMessageInTx db (fun k => clock (2 * i + k)) queueName message with
    | error err => rfl
    | ok db' => exact ih db' (i + 1)

private theorem enqueueEach_eq (messages : List Message) : ∀ (db : Database) (i : Nat),
    enqueueEach clock queueName db i messages =
      enqueueEachWith (fun db clock => enqueueMessageInTx db clock queueName) clock db i
        messages := by
  induction messages with
  | nil => exact fun _ _ => rfl
  | cons message rest ih =>
    intro db i
    simp only [enqueueEach, enqueueEachWith]
    cases enqueueMessageInTx db (fun k => clock (2 * i + k)) queueName message with
    | error err => simp only [ih]
    | ok db₁ => simp only [ih]

/-- The storage's bulk operation is the batch over its single insertion. -/
theorem enqueueMessagesBulk_eq (db : Database) (messages : List Message) (mode : TransactionMode) :
    enqueueMessagesBulk db clock queueName messages mode =
      enqueueMessagesBulkWith (fun db clock => enqueueMessageInTx db clock queueName) clock db
        messages mode := by
  cases mode with
  | allOrNothing =>
    cases hall : enqueueAllWith (fun db clock => enqueueMessageInTx db clock queueName) clock db 0
      messages with
    | ok db' => simp only [enqueueMessagesBulk, enqueueMessagesBulkWith, enqueueAll_eq, hall]
    | error failed => simp only [enqueueMessagesBulk, enqueueMessagesBulkWith, enqueueAll_eq, hall]
  | bestEffort => rw [enqueueMessagesBulk, enqueueMessagesBulkWith, enqueueEach_eq]

end Unencrypted

/-! ## Section 3: Bulk requests -/

/-- `MessagePostResult.ErrorCode`. -/
inductive PostErrorCode where
  | success
  | validationFailed
  | duplicateMessageId
  | schemaMismatch
  | internalError
deriving DecidableEq, Repr

/-- `PostMessagesBulkResponse.MessagePostResult`. -/
structure MessagePostResult where
  messageId : String
  success : Bool
  error : String
  errorCode : PostErrorCode
deriving DecidableEq, Repr

/-- `PostMessagesBulkResponse`; a missing result is a nil pointer. -/
structure PostMessagesBulkResponse where
  success : Bool
  successfulCount : Nat
  failedCount : Nat
  results : List (Option MessagePostResult)
deriving DecidableEq, Repr

/-- What `CreateQueueMessagesBulk` returns. -/
structure BulkOutcome where
  response : Option PostMessagesBulkResponse
  error : Option PostError
deriving DecidableEq, Repr

/-- `PostMessagesBulkRequest_TransactionMode_name`. -/
def TransactionMode.ofNumber (mode : Int) : Option TransactionMode :=
  if mode = 0 then some .allOrNothing else if mode = 1 then some .bestEffort else none

section Bulk

variable {Content : Type}

/-- A message of the request after the first stage: `failure` is its entry in `validationErrors`
and `validationErrorCodes`. -/
structure Prepared (Content : Type) where
  message : Option (PostedMessage Content)
  failure : Option (String × PostErrorCode)
deriving DecidableEq, Repr

/-- `message.MessageId`, empty for a nil message. -/
def Prepared.messageId (prepared : Prepared Content) : String :=
  (prepared.message.map (·.messageId)).getD ""

/-- What is handed to the storage: a message that has not failed. -/
def Prepared.accepted (prepared : Prepared Content) : Option (PostedMessage Content) :=
  if prepared.failure.isNone then prepared.message else none

/-- ` field: message;` for each error. -/
def errorList (errors : List ValidationError) : String :=
  errors.foldl (fun text err => text ++ " " ++ err.field ++ ": " ++ err.message ++ ";") ""

/-- The error that ends an `ALL_OR_NOTHING` request at message `i`. -/
def preparationError (i : Nat) (message : Option (PostedMessage Content))
    (result : ValidationResult) : PostError :=
  match message with
  | none => { error := ⟨.failedPrecondition, "message[" ++ toString i ++ "] is required"⟩ }
  | some message =>
    if message.metadata.isNone then
      { error := ⟨.failedPrecondition, "message metadata is required"⟩
        violations := [⟨"messages[" ++ toString i ++ "].metadata", "required field missing"⟩] }
    else
      { error := ⟨.failedPrecondition,
          "Message[" ++ toString i ++ "] validation failed:" ++ errorLines result.errors⟩
        violations := result.errors.map fun err =>
          ⟨"messages[" ++ toString i ++ "]." ++ err.field, err.message⟩ }

/-- The first stage on message `i`: what later stages see of it. -/
def prepareMessage (env : PostEnvironment Content) (queueMetadata : QueueMetadata) (now : Int)
    (i : Nat) (message : Option (PostedMessage Content)) : Prepared Content × ValidationResult :=
  match message with
  | none => (⟨none, some ("message[" ++ toString i ++ "] is required", .success)⟩, .accepted)
  | some message =>
    if message.metadata.isNone then
      (⟨some message, some ("message metadata is required", .success)⟩, .accepted)
    else
      let (validated, result) := env.validate message
      -- A message that failed is completed too; it counts for the size of the request.
      let completed := validated.complete queueMetadata now
      if result.valid then (⟨some completed, none⟩, result)
      else
        (⟨some completed, some ("validation failed:" ++ errorList result.errors,
          if result.schemaMismatch then .schemaMismatch else .success)⟩, result)

/-- The first stage on the whole request. -/
def prepareMessages (env : PostEnvironment Content) (queueMetadata : QueueMetadata)
    (now : Nat → Int) (mode : TransactionMode) :
    Nat → List (Option (PostedMessage Content)) → Except PostError (List (Prepared Content))
  | _, [] => .ok []
  | i, message :: rest =>
    let (prepared, result) := prepareMessage env queueMetadata (now i) i message
    if mode = .allOrNothing ∧ prepared.failure.isSome then
      .error (preparationError i message result)
    else
      match prepareMessages env queueMetadata now mode (i + 1) rest with
      | .error err => .error err
      | .ok others => .ok (prepared :: others)

/-- The result of a message that failed validation. -/
def Prepared.failedResult (prepared : Prepared Content) : Option MessagePostResult :=
  prepared.failure.map fun failure =>
    { messageId := prepared.messageId
      success := false
      error := failure.1
      errorCode := if failure.2 = .success then .validationFailed else failure.2 }

/-- The result of a message that was handed to the storage. -/
def Prepared.enqueuedResult (prepared : Prepared Content) (messageError : Option StorageError) :
    MessagePostResult :=
  match messageError with
  | none =>
    { messageId := prepared.messageId, success := true, error := "", errorCode := .success }
  | some err =>
    if err.kind = .duplicateMessageId then
      { messageId := prepared.messageId
        success := false
        error := "message id already exists"
        errorCode := .duplicateMessageId }
    else
      { messageId := prepared.messageId
        success := false
        error := "internal server error"
        errorCode := .internalError }

/-- `validMessages`. -/
def validMessages (prepared : List (Prepared Content)) : List (PostedMessage Content) :=
  prepared.filterMap Prepared.accepted

/-- `validIndices`, with the messages at these indices. -/
def validIndices (start : Nat) (prepared : List (Prepared Content)) :
    List (Prepared Content × Nat) :=
  (prepared.zipIdx start).filter fun e => e.1.failure.isNone

/-- The results: those of failed validations first, then those of the storage at their original
indices. -/
def mergeResults (prepared : List (Prepared Content)) (messageErrors : List (Option StorageError)) :
    List (Option MessagePostResult) :=
  ((validIndices 0 prepared).zip messageErrors).foldl
    (fun results e => results.set e.1.2 (some (e.1.1.enqueuedResult e.2)))
    (prepared.map Prepared.failedResult)

/-- The size of the request after the first stage. -/
def totalSize (env : PostEnvironment Content) (prepared : List (Prepared Content)) : Nat :=
  (prepared.map fun p => (p.message.map env.protoSize).getD 0).sum

/-- `maxPayloadBytes`. -/
def maxPayloadBytes : Nat := 1048576

/-- The response once the storage has answered. -/
def respond (prepared : List (Prepared Content)) (mode : TransactionMode)
    (bulk : BulkResult) : BulkOutcome :=
  if bulk.messageErrors.length ≠ (validMessages prepared).length then
    { response := none
      error := some { error := .plain "internal error: message errors count mismatch" } }
  else
    let successCount := bulk.messageErrors.countP Option.isNone
    let failedCount := prepared.length - successCount
    { response := some
        { success :=
            match mode with
            | .allOrNothing => failedCount = 0
            | .bestEffort => 0 < successCount
          successfulCount := successCount
          failedCount := failedCount
          results := mergeResults prepared bulk.messageErrors }
      error :=
        match mode, bulk.error with
        | .allOrNothing, some txErr => some { error := txErr.wrap "transaction failed" }
        | _, _ => none }

/-- A request that is refused as a whole. -/
def refuse (db : Database) (err : PostError) : Database × BulkOutcome := (db, ⟨none, some err⟩)

/-- `CreateQueueMessagesBulk`. `now i` is the instant compared with the scheduled time of
message `i`. -/
def createQueueMessagesBulk (env : PostEnvironment Content) (db : Database) (now : Nat → Int)
    (clock : Readings) (queueName : String) (messages : List (Option (PostedMessage Content)))
    (transactionMode : Int) : Database × BulkOutcome :=
  if queueName = "" then refuse db { error := ⟨.invalidArgument, "queue name is required"⟩ }
  else
    match rejectDLQOperation db queueName with
    | .error err => refuse db { error := err }
    | .ok () =>
      match TransactionMode.ofNumber transactionMode with
      | none =>
        refuse db { error := ⟨.invalidArgument,
          "invalid transaction mode: " ++ toString transactionMode⟩ }
      | some mode =>
        if messages.length = 0 then
          refuse db { error := ⟨.invalidArgument, "no messages provided"⟩ }
        else if 1000 < messages.length then
          refuse db { error := ⟨.invalidArgument,
            "too many messages: " ++ toString messages.length ++ " (max 1000)"⟩ }
        else
          match getQueueMetadata db queueName with
          | .error err => refuse db { error := err.wrap "get queue metadata" }
          | .ok queueMetadata =>
            match prepareMessages env queueMetadata now mode 0 messages with
            | .error err => refuse db err
            | .ok prepared =>
              if maxPayloadBytes < totalSize env prepared then
                refuse db { error := ⟨.invalidArgument, "total payload size " ++
                  toString (totalSize env prepared) ++ " bytes exceeds 1MB limit"⟩ }
              else
                let (db', bulk) := enqueueMessagesBulkWith (enqueuePosted env queueName) clock db
                  (validMessages prepared) mode
                (db', respond prepared mode bulk)

end Bulk

end Nzovu.Repository
