import Nzovu.Repository.Effects
import Nzovu.Repository.Posting
import Nzovu.Repository.Requeue

/-!
# Bulk Posts

What `CreateQueueMessagesBulk` answers and stores, in both modes. `Merged` says it of a list of
requests, of their results and of the inserted rows: the results follow the requests, and a
request has a row exactly when its result reports success.

The two stages of the code number the messages in their own ways: the results of the storage are
those of the valid messages only. `mergeResults_eq` removes the indices once; after it every proof
is by induction over the request.
-/

namespace Nzovu.Repository

open Nzovu.Foundation

section Bulk

variable {Content : Type} {env : PostEnvironment Content} {queueMetadata : QueueMetadata}
  {queueName : String}

/-! ## Section 1: Merging by index -/

/-- The results in the order of the request, without indices: the answers of the storage go to the
messages that have not failed. -/
def resultsOf : List (Prepared Content) → List (Option StorageError) → List MessagePostResult
  | [], _ => []
  | p :: rest, messageErrors =>
    match p.failedResult, messageErrors with
    | some result, messageErrors => result :: resultsOf rest messageErrors
    | none, messageError :: later => p.enqueuedResult messageError :: resultsOf rest later
    | none, [] => []

private theorem fill_eq (prepared : List (Prepared Content)) :
    ∀ (messageErrors : List (Option StorageError)) (done : List (Option MessagePostResult)),
      messageErrors.length = (validIndices done.length prepared).length →
      ((validIndices done.length prepared).zip messageErrors).foldl
          (fun results e => results.set e.1.2 (some (e.1.1.enqueuedResult e.2)))
          (done ++ prepared.map Prepared.failedResult) =
        done ++ (resultsOf prepared messageErrors).map some := by
  -- Induction over the request; `done` are the entries before the current message.
  induction prepared with
  | nil => intro messageErrors done _; simp [validIndices, resultsOf]
  | cons p rest ih =>
    intro messageErrors done hlength
    have hshift : ∀ x : Option MessagePostResult, (done ++ [x]).length = done.length + 1 :=
      fun x => by simp
    cases hfailed : p.failedResult with
    | some result =>
      have hfailure : p.failure.isNone = false := by
        cases hf : p.failure with
        | none => simp [Prepared.failedResult, hf] at hfailed
        | some _ => rfl
      have hindices : validIndices done.length (p :: rest) =
          validIndices (done.length + 1) rest := by
        simp [validIndices, List.zipIdx_cons, hfailure]
      have hrest := ih messageErrors (done ++ [some result])
      rw [hshift] at hrest
      rw [hindices] at hlength ⊢
      simpa [resultsOf, hfailed] using hrest hlength
    | none =>
      have hfailure : p.failure.isNone = true := by
        cases hf : p.failure with
        | none => rfl
        | some _ => simp [Prepared.failedResult, hf] at hfailed
      have hindices : validIndices done.length (p :: rest) =
          (p, done.length) :: validIndices (done.length + 1) rest := by
        simp [validIndices, List.zipIdx_cons, hfailure]
      rw [hindices] at hlength ⊢
      cases messageErrors with
      | nil => simp at hlength
      | cons messageError later =>
        have hrest := ih later (done ++ [some (p.enqueuedResult messageError)])
        rw [hshift] at hrest
        -- The storage's answer fills the first gap, which is this message's.
        have hset : (done ++ none :: rest.map Prepared.failedResult).set done.length
              (some (p.enqueuedResult messageError)) =
            done ++ [some (p.enqueuedResult messageError)] ++ rest.map Prepared.failedResult := by
          simp
        simp only [List.zip_cons_cons, List.foldl_cons, List.map_cons, hfailed, resultsOf, hset]
        rw [hrest (by simpa using hlength)]
        simp

/-- The indices of the two stages fit: the results are those of `resultsOf`. -/
theorem mergeResults_eq {prepared : List (Prepared Content)}
    {messageErrors : List (Option StorageError)}
    (hlength : messageErrors.length = (validIndices 0 prepared).length) :
    mergeResults prepared messageErrors = (resultsOf prepared messageErrors).map some := by
  have h := fill_eq prepared messageErrors [] hlength
  simpa [mergeResults] using h

/-! ## Section 2: The first stage -/

/-- The messages after the first stage, when it is not cut short. -/
def preparedFrom (env : PostEnvironment Content) (queueMetadata : QueueMetadata)
    (now : Nat → Int) : Nat → List (Option (PostedMessage Content)) → List (Prepared Content)
  | _, [] => []
  | i, message :: rest =>
    (prepareMessage env queueMetadata (now i) i message).1 ::
      preparedFrom env queueMetadata now (i + 1) rest

theorem prepareMessages_bestEffort (now : Nat → Int)
    (messages : List (Option (PostedMessage Content))) : ∀ i,
    prepareMessages env queueMetadata now .bestEffort i messages =
      .ok (preparedFrom env queueMetadata now i messages) := by
  induction messages with
  | nil => exact fun _ => rfl
  | cons message rest ih =>
    intro i
    simp [prepareMessages, preparedFrom, ih]

/-- An `ALL_OR_NOTHING` request passes the first stage when no message fails. -/
theorem prepareMessages_allOrNothing {now : Nat → Int}
    {messages : List (Option (PostedMessage Content))} : ∀ {i : Nat}
    {prepared : List (Prepared Content)},
    prepareMessages env queueMetadata now .allOrNothing i messages = .ok prepared →
      prepared = preparedFrom env queueMetadata now i messages ∧
        ∀ p ∈ prepared, p.failure = none := by
  induction messages with
  | nil =>
    intro i prepared h
    cases h
    exact ⟨rfl, fun _ hp => absurd hp List.not_mem_nil⟩
  | cons message rest ih =>
    intro i prepared h
    simp only [prepareMessages, true_and] at h
    split at h
    · cases h
    · rename_i hpassed
      cases hrest : prepareMessages env queueMetadata now .allOrNothing (i + 1) rest with
      | error err => simp [hrest] at h
      | ok others =>
        rw [hrest] at h
        cases h
        obtain ⟨rfl, hothers⟩ := ih hrest
        refine ⟨rfl, fun p hp => ?_⟩
        rcases List.mem_cons.mp hp with rfl | hp
        · simpa using hpassed
        · exact hothers p hp

/-- The id of the message of a request. -/
def requestId (message : Option (PostedMessage Content)) : String :=
  (message.map (·.messageId)).getD ""

theorem keeps_validate (env : PostEnvironment Content) : Validator.Keeps env.validate := by
  intro message
  unfold PostEnvironment.validate
  cases env.validator with
  | none => exact ⟨rfl, rfl⟩
  | some v => exact keeps_newPayloadValidator v.1 v.2 message

variable (env queueMetadata) in
@[simp] theorem messageId_prepareMessage (now : Int) (i : Nat)
    (message : Option (PostedMessage Content)) :
    (prepareMessage env queueMetadata now i message).1.messageId = requestId message := by
  unfold prepareMessage
  cases message with
  | none => rfl
  | some message =>
    have hid := (keeps_validate env message).1
    dsimp only
    split
    · rfl
    · split <;> simpa [Prepared.messageId, requestId, PostedMessage.complete] using hid

/-- A message that passes the first stage is the validated and completed one. -/
theorem accepted_prepareMessage {now : Int} {i : Nat} {message : Option (PostedMessage Content)}
    {stored : PostedMessage Content} :
    (prepareMessage env queueMetadata now i message).1.accepted = some stored ↔
      ∃ posted, message = some posted ∧ posted.metadata.isSome = true ∧
        (env.validate posted).2.valid = true ∧
        stored = (env.validate posted).1.complete queueMetadata now := by
  cases message with
  | none => simp [prepareMessage, Prepared.accepted]
  | some message =>
    cases hmeta : message.metadata with
    | none => simp [prepareMessage, Prepared.accepted, hmeta]
    | some metadata =>
      have hsome : message.metadata.isNone = false := by rw [hmeta]; rfl
      cases hvalid : (env.validate message).2.valid with
      | false =>
        simp only [prepareMessage, hsome, hvalid, Prepared.accepted]
        simp [hvalid]
      | true =>
        simp only [prepareMessage, hsome, hvalid, Prepared.accepted]
        simp [hmeta, hvalid, @eq_comm _ stored]

variable (env queueMetadata) in
/-- A message either fails the first stage or is handed to the storage. -/
theorem failure_prepareMessage (now : Int) (i : Nat) (message : Option (PostedMessage Content)) :
    let p := (prepareMessage env queueMetadata now i message).1
    (∃ failure, p.failure = some failure ∧ p.accepted = none) ∨
      ∃ stored, p.failure = none ∧ p.accepted = some stored := by
  intro p
  cases hf : p.failure with
  | some failure => exact .inl ⟨failure, rfl, by simp [Prepared.accepted, hf]⟩
  | none =>
    right
    -- A message without failure has been completed, so it is there to be handed on.
    have hmessage : p.message.isSome = true := by
      revert hf
      show (prepareMessage env queueMetadata now i message).1.failure = none →
        (prepareMessage env queueMetadata now i message).1.message.isSome = true
      unfold prepareMessage
      cases message with
      | none => simp
      | some message =>
        dsimp only
        split
        · simp
        · split <;> simp
    obtain ⟨stored, hstored⟩ := Option.isSome_iff_exists.mp hmessage
    exact ⟨stored, rfl, by simp [Prepared.accepted, hf, hstored]⟩

/-! ## Section 3: The second stage -/

/-- The row stored for a message of the request: the columns of the validated and completed
message. -/
def PostedRow (env : PostEnvironment Content) (queueMetadata : QueueMetadata) (now : Int)
    (queueName : String) (message : Option (PostedMessage Content)) (row : MessageRow) : Prop :=
  ∃ posted metadata createdAt updatedAt, message = some posted ∧
    posted.metadata.isSome = true ∧ (env.validate posted).2.valid = true ∧
    ((env.validate posted).1.complete queueMetadata now).stored.metadata = some metadata ∧
    row = newRow queueName posted.messageId metadata (metadata.scheduledTime.map unixMilli)
      createdAt updatedAt

/-- Requests from index `i` on, their results and the inserted rows: the results describe the
requests in order, and success means a row. -/
inductive Merged (env : PostEnvironment Content) (queueMetadata : QueueMetadata) (now : Nat → Int)
    (queueName : String) : Nat → List (Option (PostedMessage Content)) →
    List MessagePostResult → List (Nat × MessageRow) → Prop where
  | nil (i : Nat) : Merged env queueMetadata now queueName i [] [] []
  | failed {i : Nat} {message : Option (PostedMessage Content)} {result : MessagePostResult}
      {messages : List (Option (PostedMessage Content))} {results : List MessagePostResult}
      {rows : List (Nat × MessageRow)} :
      result.messageId = requestId message → result.success = false →
      Merged env queueMetadata now queueName (i + 1) messages results rows →
      Merged env queueMetadata now queueName i (message :: messages) (result :: results) rows
  | stored {i : Nat} {message : Option (PostedMessage Content)} {result : MessagePostResult}
      {e : Nat × MessageRow} {messages : List (Option (PostedMessage Content))}
      {results : List MessagePostResult} {rows : List (Nat × MessageRow)} :
      result.messageId = requestId message → result.success = true →
      PostedRow env queueMetadata (now i) queueName message e.2 →
      Merged env queueMetadata now queueName (i + 1) messages results rows →
      Merged env queueMetadata now queueName i (message :: messages) (result :: results)
        (e :: rows)

theorem enqueuePosted_ok {db db' : Database} {clock : Readings} {message : PostedMessage Content}
    (h : enqueuePosted env queueName db clock message = .ok db') :
    enqueueMessageInTx db clock queueName message.stored = .ok db' := by
  unfold enqueuePosted at h
  split at h
  · cases h
  · exact h

/-- What an accepted message leaves when it is stored. -/
theorem enqueuePosted_accepted {now : Int} {i : Nat} {message : Option (PostedMessage Content)}
    {stored : PostedMessage Content} {db db' : Database} {clock : Readings}
    (haccepted : (prepareMessage env queueMetadata now i message).1.accepted = some stored)
    (h : enqueuePosted env queueName db clock stored = .ok db') :
    ∃ row, RowInserted db db' row ∧ PostedRow env queueMetadata now queueName message row := by
  obtain ⟨metadata, hmeta, hinserted⟩ := enqueueMessageInTx_effect (enqueuePosted_ok h)
  obtain ⟨posted, rfl, hsome, hvalid, rfl⟩ := accepted_prepareMessage.mp haccepted
  have hid : ((env.validate posted).1.complete queueMetadata now).stored.messageId =
      posted.messageId := (keeps_validate env posted).1
  rw [hid] at hinserted
  exact ⟨_, hinserted, posted, metadata, _, _, rfl, hsome, hvalid, hmeta, rfl⟩

@[simp] theorem messageId_enqueuedResult (p : Prepared Content)
    (messageError : Option StorageError) :
    (p.enqueuedResult messageError).messageId = p.messageId := by
  unfold Prepared.enqueuedResult
  split
  · rfl
  · split <;> rfl

@[simp] theorem success_enqueuedResult (p : Prepared Content)
    (messageError : Option StorageError) :
    (p.enqueuedResult messageError).success = messageError.isNone := by
  unfold Prepared.enqueuedResult
  split
  · rfl
  · split <;> rfl

theorem failedResult_eq_some {p : Prepared Content} {failure : String × PostErrorCode}
    (h : p.failure = some failure) :
    ∃ result, p.failedResult = some result ∧ result.messageId = p.messageId ∧
      result.success = false := by
  simp [Prepared.failedResult, h]

theorem failedResult_eq_none {p : Prepared Content} (h : p.failure = none) :
    p.failedResult = none := by
  simp [Prepared.failedResult, h]

variable (env queueMetadata queueName) in
/-- `BEST_EFFORT`: the results and the rows of the messages from index `i` on. -/
theorem merged_enqueueEachWith (now : Nat → Int) (clock : Readings)
    (messages : List (Option (PostedMessage Content))) : ∀ (i j : Nat) (db : Database),
    let prepared := preparedFrom env queueMetadata now i messages
    let stored := enqueueEachWith (enqueuePosted env queueName) clock db j (validMessages prepared)
    stored.2.length = (validMessages prepared).length ∧
      ∃ rows, stored.1.messages.rows = db.messages.rows ++ rows ∧
        Merged env queueMetadata now queueName i messages (resultsOf prepared stored.2) rows := by
  induction messages with
  | nil => exact fun i _ db => ⟨rfl, [], by simp [preparedFrom, validMessages, enqueueEachWith],
      .nil i⟩
  | cons message rest ih =>
    intro i j db
    have hid := messageId_prepareMessage env queueMetadata (now i) i
      message
    simp only [preparedFrom]
    rcases failure_prepareMessage env queueMetadata (now i) i message
      with ⟨failure, hfailure, hnone⟩ | ⟨stored, hfailure, haccepted⟩
    · -- The message is not handed to the storage.
      obtain ⟨result, hresult, hresultId, hfailed⟩ := failedResult_eq_some hfailure
      obtain ⟨hlength, rows, hrows, hmerged⟩ := ih (i + 1) j db
      simp only [validMessages, List.filterMap_cons, hnone, resultsOf, hresult] at hlength ⊢
      exact ⟨hlength, rows, hrows, .failed (hresultId.trans hid) hfailed hmerged⟩
    · simp only [validMessages, List.filterMap_cons, haccepted, enqueueEachWith, resultsOf,
        failedResult_eq_none hfailure]
      cases hstore : enqueuePosted env queueName db (fun k => clock (2 * j + k)) stored with
      | error err =>
        obtain ⟨hlength, rows, hrows, hmerged⟩ := ih (i + 1) (j + 1) db
        exact ⟨congrArg (· + 1) hlength, rows, hrows,
          .failed (by rw [messageId_enqueuedResult, hid]) (success_enqueuedResult _ _) hmerged⟩
      | ok db₁ =>
        obtain ⟨row, hinserted, hposted⟩ := enqueuePosted_accepted haccepted hstore
        -- The next message sees the row of this one.
        obtain ⟨hlength, rows, hrows, hmerged⟩ := ih (i + 1) (j + 1) db₁
        refine ⟨congrArg (· + 1) hlength, (db.messages.nextId, row) :: rows, hrows.trans ?_,
          .stored (by rw [messageId_enqueuedResult, hid]) (success_enqueuedResult _ _) hposted
            hmerged⟩
        rw [hinserted.rows, List.append_assoc, List.singleton_append]

/-- `ALL_OR_NOTHING` that commits: every message has its row. -/
theorem merged_enqueueAllWith (now : Nat → Int) (clock : Readings)
    (messages : List (Option (PostedMessage Content))) : ∀ (i j : Nat) (db db' : Database),
    let prepared := preparedFrom env queueMetadata now i messages
    (∀ p ∈ prepared, p.failure = none) →
    enqueueAllWith (enqueuePosted env queueName) clock db j (validMessages prepared) = .ok db' →
      ∃ rows, db'.messages.rows = db.messages.rows ++ rows ∧
        Merged env queueMetadata now queueName i messages
          (resultsOf prepared ((validMessages prepared).map fun _ => none)) rows := by
  induction messages with
  | nil =>
    intro i j db db' prepared _ h
    cases h
    exact ⟨[], by simp, .nil i⟩
  | cons message rest ih =>
    intro i j db db' prepared hpassed h
    have hid := messageId_prepareMessage env queueMetadata (now i) i
      message
    obtain ⟨hfirst, hrest⟩ := List.forall_mem_cons.mp hpassed
    rcases failure_prepareMessage env queueMetadata (now i) i message
      with ⟨failure, hfailure, -⟩ | ⟨stored, -, haccepted⟩
    -- No message has failed the first stage here.
    · exact absurd (hfirst.symm.trans hfailure) nofun
    · simp only [prepared, preparedFrom, validMessages, List.filterMap_cons, haccepted,
        enqueueAllWith] at h
      cases hstore : enqueuePosted env queueName db (fun k => clock (2 * j + k)) stored with
      | error err => simp [hstore] at h
      | ok db₁ =>
        rw [hstore] at h
        obtain ⟨row, hinserted, hposted⟩ := enqueuePosted_accepted haccepted hstore
        obtain ⟨rows, hrows, hmerged⟩ := ih (i + 1) (j + 1) db₁ db' hrest h
        refine ⟨(db.messages.nextId, row) :: rows, ?_, ?_⟩
        · rw [hrows, hinserted.rows, List.append_assoc, List.singleton_append]
        · simp only [prepared, preparedFrom, validMessages, List.filterMap_cons, haccepted,
            List.map_cons, resultsOf, failedResult_eq_none hfirst]
          exact .stored (by rw [messageId_enqueuedResult, hid]) (success_enqueuedResult _ _)
            hposted hmerged

/-- When every answer of the storage is an error, no result reports success. -/
theorem merged_of_errors (now : Nat → Int) (messages : List (Option (PostedMessage Content))) :
    ∀ (i : Nat) (messageErrors : List (Option StorageError)),
    let prepared := preparedFrom env queueMetadata now i messages
    messageErrors.length = (validMessages prepared).length →
    (∀ messageError ∈ messageErrors, messageError.isSome = true) →
      Merged env queueMetadata now queueName i messages (resultsOf prepared messageErrors) [] := by
  induction messages with
  | nil => exact fun i _ _ _ => .nil i
  | cons message rest ih =>
    intro i messageErrors prepared hlength herrors
    have hid := messageId_prepareMessage env queueMetadata (now i) i
      message
    simp only [prepared, preparedFrom, resultsOf] at hlength ⊢
    rcases failure_prepareMessage env queueMetadata (now i) i message
      with ⟨failure, hfailure, hnone⟩ | ⟨stored, hfailure, haccepted⟩
    · obtain ⟨result, hresult, hresultId, hfailed⟩ := failedResult_eq_some hfailure
      simp only [validMessages, List.filterMap_cons, hnone, hresult] at hlength ⊢
      exact .failed (hresultId.trans hid) hfailed (ih (i + 1) messageErrors hlength herrors)
    · simp only [validMessages, List.filterMap_cons, haccepted] at hlength
      cases messageErrors with
      | nil => cases hlength
      | cons messageError later =>
        obtain ⟨herror, hlater⟩ := List.forall_mem_cons.mp herrors
        simp only [failedResult_eq_none hfailure]
        refine .failed (by rw [messageId_enqueuedResult, hid]) ?_
          (ih (i + 1) later (Nat.succ.inj hlength) hlater)
        rw [success_enqueuedResult, Option.isNone_eq_false_iff, herror]

/-! ## Section 4: Posting one at a time -/

/-- The messages posted one at a time with `CreateQueueMessage`, all at one clock reading: the
database left and which posts succeeded. -/
def postEach (env : PostEnvironment Content) (now : Int) (clock : Readings) (queueName : String) :
    Database → List (Option (PostedMessage Content)) → Database × List Bool
  | db, [] => (db, [])
  | db, message :: rest =>
    match createQueueMessage env db now clock queueName message with
    | .error _ =>
      let (db', posted) := postEach env now clock queueName db rest
      (db', false :: posted)
    | .ok db₁ =>
      let (db', posted) := postEach env now clock queueName db₁ rest
      (db', true :: posted)

/-- The queue accepts posts: it exists and is not a dead letter queue. -/
structure Accepts (db : Database) (queueName : String) (queueMetadata : QueueMetadata) : Prop where
  named : queueName ≠ ""
  posts : rejectDLQOperation db queueName = .ok ()
  metadata : getQueueMetadata db queueName = .ok queueMetadata

theorem queueMetadata?_of_configs {db db' : Database} (h : db'.configs = db.configs)
    (name : String) : db'.queueMetadata? name = db.queueMetadata? name := by
  have hlookup : ∀ d : Database, d.queueMetadata? name =
      (d.configs.find? fun c => decide (c.name = name)).map (·.metadata) := by
    intro d
    simp [Database.queueMetadata?, Table.lookup, Database.configs, QueueRow.config,
      List.find?_map, Function.comp_def]
  rw [hlookup, hlookup, h]

theorem Accepts.of_configs {db db' : Database} (haccepts : Accepts db queueName queueMetadata)
    (h : db'.configs = db.configs) : Accepts db' queueName queueMetadata where
  named := haccepts.named
  posts := by
    have hposts := haccepts.posts
    rwa [rejectDLQOperation, isDLQ_of_configs h]
  metadata := by
    have hmetadata := haccepts.metadata
    rwa [getQueueMetadata, queueMetadata?_of_configs h]

variable (env) in
/-- `CreateQueueMessage` on a queue that accepts posts stores what passes the first stage of a
bulk request. -/
theorem toOption_createQueueMessage {db : Database} (haccepts : Accepts db queueName queueMetadata)
    (now : Int) (clock : Readings) (i : Nat) (message : Option (PostedMessage Content)) :
    (createQueueMessage env db now clock queueName message).toOption =
      (prepareMessage env queueMetadata now i message).1.accepted.bind fun stored =>
        (enqueuePosted env queueName db clock stored).toOption := by
  cases message with
  | none => rfl
  | some message =>
    cases hmeta : message.metadata with
    | none =>
      simp [createQueueMessage, prepareMessage, Prepared.accepted, haccepts.named, haccepts.posts,
        hmeta, Except.toOption]
    | some metadata =>
      have hsome : message.metadata.isNone = false := by rw [hmeta]; rfl
      cases hvalid : (env.validate message).2.valid with
      | false =>
        simp [createQueueMessage, prepareMessage, Prepared.accepted, haccepts.named,
          haccepts.posts, haccepts.metadata, hsome, hvalid, Except.toOption]
      | true =>
        simp only [createQueueMessage, prepareMessage, Prepared.accepted, haccepts.named,
          haccepts.posts, haccepts.metadata, hsome, hvalid, if_false, if_true,
          Bool.true_eq_false, Bool.false_eq_true, Option.isNone_none, Option.bind_some]
        cases enqueuePosted env queueName db clock
            ((env.validate message).1.complete queueMetadata now) with
        | ok db' => rfl
        | error err =>
          dsimp only
          -- A duplicate id gets another error, but an error all the same.
          split <;> rfl

variable (env) in
/-- `BEST_EFFORT` at one clock reading stores what posting one at a time stores. -/
theorem enqueueEachWith_eq_postEach (now : Int) (clock : Int)
    (messages : List (Option (PostedMessage Content))) : ∀ (i j : Nat) (db : Database),
    Accepts db queueName queueMetadata →
    let prepared := preparedFrom env queueMetadata (fun _ => now) i messages
    let stored := enqueueEachWith (enqueuePosted env queueName) (fun _ => clock) db j
      (validMessages prepared)
    postEach env now (fun _ => clock) queueName db messages =
      (stored.1, (resultsOf prepared stored.2).map (·.success)) := by
  induction messages with
  | nil => exact fun _ _ _ _ => rfl
  | cons message rest ih =>
    intro i j db haccepts
    have hpost := toOption_createQueueMessage env haccepts now (fun _ => clock) i message
    simp only [preparedFrom, postEach, validMessages, List.filterMap_cons, resultsOf]
    rcases failure_prepareMessage env queueMetadata now i message
      with ⟨failure, hfailure, hnone⟩ | ⟨stored, hfailure, haccepted⟩
    · obtain ⟨result, hresult, -, hfailed⟩ := failedResult_eq_some hfailure
      rw [hnone] at hpost
      cases hcreate : createQueueMessage env db now (fun _ => clock) queueName message with
      | ok db₁ => simp [hcreate, Except.toOption] at hpost
      | error err =>
        have hrest := ih (i + 1) j db haccepts
        simp only [hnone, hresult, List.map_cons, hfailed]
        rw [hrest]
        rfl
    · rw [haccepted, Option.bind_some] at hpost
      simp only [haccepted, enqueueEachWith, failedResult_eq_none hfailure]
      cases hstore : enqueuePosted env queueName db (fun _ => clock) stored with
      | error err =>
        rw [hstore] at hpost
        cases hcreate : createQueueMessage env db now (fun _ => clock) queueName message with
        | ok db₁ => simp [hcreate, Except.toOption] at hpost
        | error err' =>
          have hrest := ih (i + 1) (j + 1) db haccepts
          simp only [List.map_cons, success_enqueuedResult]
          rw [hrest]
          rfl
      | ok db₁ =>
        rw [hstore] at hpost
        cases hcreate : createQueueMessage env db now (fun _ => clock) queueName message with
        | error err => simp [hcreate, Except.toOption] at hpost
        | ok db₂ =>
          obtain rfl : db₂ = db₁ := by simpa [hcreate, Except.toOption] using hpost
          obtain ⟨row, hinserted, -⟩ := enqueuePosted_accepted haccepted hstore
          -- A post changes counters only: the queue accepts the next one too.
          have hrest := ih (i + 1) (j + 1) db₂ (haccepts.of_configs hinserted.configs)
          simp only [List.map_cons, success_enqueuedResult]
          rw [hrest]
          rfl

/-- On a queue that accepts no posts nothing is stored. -/
theorem postEach_of_refused (now : Int) (clock : Readings) {db : Database}
    (hrefused :
      ∀ message, ∃ err, createQueueMessage env db now clock queueName message = .error err)
    (messages : List (Option (PostedMessage Content))) :
    postEach env now clock queueName db messages = (db, messages.map fun _ => false) := by
  induction messages with
  | nil => rfl
  | cons message rest ih =>
    obtain ⟨err, herr⟩ := hrefused message
    simp [postEach, herr, ih]

/-! ## Section 5: The contract -/

/-- The limits of a bulk request; its size is that of the completed messages. -/
def WithinLimits (env : PostEnvironment Content) (db : Database) (now : Nat → Int)
    (queueName : String) (messages : List (Option (PostedMessage Content))) : Prop :=
  messages.length ≤ 1000 ∧ ∀ queueMetadata, getQueueMetadata db queueName = .ok queueMetadata →
    totalSize env (preparedFrom env queueMetadata now 0 messages) ≤ maxPayloadBytes

/-- Which messages a bulk post reports as posted; an error answers for all of them. -/
def BulkOutcome.posted (outcome : BulkOutcome) (messages : List (Option (PostedMessage Content))) :
    List Bool :=
  match outcome.response with
  | none => messages.map fun _ => false
  | some response => response.results.map fun result => (result.map (·.success)).getD false

/-- A response that says what the call has stored. -/
def Describes (env : PostEnvironment Content) (db db' : Database) (now : Nat → Int)
    (queueName : String) (messages : List (Option (PostedMessage Content)))
    (response : PostMessagesBulkResponse) : Prop :=
  ∃ queueMetadata results rows, getQueueMetadata db queueName = .ok queueMetadata ∧
    response.results = results.map some ∧
    results.map (·.messageId) = messages.map requestId ∧
    Merged env queueMetadata now queueName 0 messages results rows ∧
    db'.messages.rows = db.messages.rows ++ rows ∧
    response.successfulCount = results.countP (·.success) ∧
    response.successfulCount + response.failedCount = messages.length

theorem Merged.messageIds {now : Nat → Int} {i : Nat}
    {messages : List (Option (PostedMessage Content))} {results : List MessagePostResult}
    {rows : List (Nat × MessageRow)}
    (h : Merged env queueMetadata now queueName i messages results rows) :
    results.map (·.messageId) = messages.map requestId := by
  induction h with
  | nil => rfl
  | failed hid _ _ ih => rw [List.map_cons, List.map_cons, hid, ih]
  | stored hid _ _ _ ih => rw [List.map_cons, List.map_cons, hid, ih]

theorem length_preparedFrom (now : Nat → Int) (messages : List (Option (PostedMessage Content))) :
    ∀ i, (preparedFrom env queueMetadata now i messages).length = messages.length := by
  induction messages with
  | nil => exact fun _ => rfl
  | cons message rest ih => exact fun i => congrArg (· + 1) (ih (i + 1))

/-- The two numberings of the valid messages are of one length. -/
theorem length_validIndices (now : Nat → Int) (messages : List (Option (PostedMessage Content))) :
    ∀ i n, (validIndices n (preparedFrom env queueMetadata now i messages)).length =
      (validMessages (preparedFrom env queueMetadata now i messages)).length := by
  induction messages with
  | nil => exact fun _ _ => rfl
  | cons message rest ih =>
    intro i n
    have hrest := ih (i + 1) (n + 1)
    simp only [validIndices, validMessages, preparedFrom, List.zipIdx_cons] at hrest ⊢
    rcases failure_prepareMessage env queueMetadata (now i) i message
      with ⟨failure, hfailure, hnone⟩ | ⟨stored, hfailure, haccepted⟩
    · simpa [hfailure, hnone] using hrest
    · simpa [hfailure, haccepted] using hrest

variable (env queueMetadata) in
/-- The counts of the storage are those of the results. -/
theorem countP_resultsOf (now : Nat → Int) (messages : List (Option (PostedMessage Content))) :
    ∀ (i : Nat) (messageErrors : List (Option StorageError)),
    let prepared := preparedFrom env queueMetadata now i messages
    messageErrors.length = (validMessages prepared).length →
    (resultsOf prepared messageErrors).countP (·.success) =
      messageErrors.countP Option.isNone := by
  induction messages with
  | nil =>
    intro i messageErrors prepared hlength
    rw [List.eq_nil_of_length_eq_zero hlength]
    rfl
  | cons message rest ih =>
    intro i messageErrors prepared hlength
    simp only [prepared, preparedFrom, resultsOf] at hlength ⊢
    rcases failure_prepareMessage env queueMetadata (now i) i message
      with ⟨failure, hfailure, hnone⟩ | ⟨stored, hfailure, haccepted⟩
    · obtain ⟨result, hresult, -, hfailed⟩ := failedResult_eq_some hfailure
      simp only [validMessages, List.filterMap_cons, hnone] at hlength
      rw [hresult, List.countP_cons_of_neg (by simp [hfailed])]
      exact ih (i + 1) messageErrors hlength
    · simp only [validMessages, List.filterMap_cons, haccepted] at hlength
      cases messageErrors with
      | nil => cases hlength
      | cons messageError later =>
        have hrest := ih (i + 1) later (Nat.succ.inj hlength)
        simp only [failedResult_eq_none hfailure]
        cases messageError <;> simp [hrest]

/-- The response over what both stages have left. -/
theorem describes_respond {db db' : Database} {now : Nat → Int}
    {messages : List (Option (PostedMessage Content))} (mode : TransactionMode) (bulk : BulkResult)
    {rows : List (Nat × MessageRow)}
    (hmetadata : getQueueMetadata db queueName = .ok queueMetadata)
    (hlength : bulk.messageErrors.length =
      (validMessages (preparedFrom env queueMetadata now 0 messages)).length)
    (hrows : db'.messages.rows = db.messages.rows ++ rows)
    (hmerged : Merged env queueMetadata now queueName 0 messages
      (resultsOf (preparedFrom env queueMetadata now 0 messages) bulk.messageErrors) rows) :
    ∃ response,
      (respond (preparedFrom env queueMetadata now 0 messages) mode bulk).response =
        some response ∧
      response.results =
        (resultsOf (preparedFrom env queueMetadata now 0 messages) bulk.messageErrors).map some ∧
      Describes env db db' now queueName messages response := by
  have hmerge := mergeResults_eq (hlength.trans (length_validIndices now messages 0 0).symm)
  have hcount := countP_resultsOf env queueMetadata now messages 0
    bulk.messageErrors hlength
  -- The count of failures is a difference of two lengths, so it must not be cut off at zero.
  have hle : bulk.messageErrors.countP Option.isNone ≤ messages.length := by
    have hresults := congrArg List.length hmerged.messageIds
    simp only [List.length_map] at hresults
    rw [← hcount, ← hresults]
    exact List.countP_le_length
  simp only [respond, hlength, ne_eq, not_true_eq_false, if_false]
  refine ⟨_, rfl, hmerge, queueMetadata, _, rows, hmetadata, hmerge, hmerged.messageIds, hmerged,
    hrows, hcount.symm, ?_⟩
  simp only [length_preparedFrom]
  omega

/-- When no stage reports an error, every result is a success. -/
theorem success_resultsOf {prepared : List (Prepared Content)}
    (hpassed : ∀ p ∈ prepared, p.failure = none) :
    ∀ {messageErrors : List (Option StorageError)},
      (∀ messageError ∈ messageErrors, messageError = none) →
      ∀ result ∈ resultsOf prepared messageErrors, result.success = true := by
  induction prepared with
  | nil => exact fun _ _ hresult => absurd hresult List.not_mem_nil
  | cons p rest ih =>
    intro messageErrors hnone result hresult
    obtain ⟨hp, hrest⟩ := List.forall_mem_cons.mp hpassed
    cases messageErrors with
    | nil => simp [resultsOf, failedResult_eq_none hp] at hresult
    | cons messageError later =>
      obtain ⟨rfl, hlater⟩ := List.forall_mem_cons.mp hnone
      simp only [resultsOf, failedResult_eq_none hp] at hresult
      rcases List.mem_cons.mp hresult with rfl | hresult
      · exact success_enqueuedResult p none
      · exact ih hrest hlater result hresult

/-- A request is refused before anything is stored, or both stages run. -/
theorem createQueueMessagesBulk_cases (env : PostEnvironment Content) (db : Database)
    (now : Nat → Int) (clock : Readings) (queueName : String)
    (messages : List (Option (PostedMessage Content))) (transactionMode : Int) :
    (∃ err, createQueueMessagesBulk env db now clock queueName messages transactionMode =
      refuse db err) ∨
    ∃ queueMetadata mode prepared, Accepts db queueName queueMetadata ∧
      TransactionMode.ofNumber transactionMode = some mode ∧
      prepareMessages env queueMetadata now mode 0 messages = .ok prepared ∧
      createQueueMessagesBulk env db now clock queueName messages transactionMode =
        let stored := enqueueMessagesBulkWith (enqueuePosted env queueName) clock db
          (validMessages prepared) mode
        (stored.1, respond prepared mode stored.2) := by
  unfold createQueueMessagesBulk
  split
  · exact .inl ⟨_, rfl⟩
  rename_i hnamed
  cases hposts : rejectDLQOperation db queueName with
  | error err => exact .inl ⟨_, rfl⟩
  | ok =>
    cases hmode : TransactionMode.ofNumber transactionMode with
    | none => exact .inl ⟨_, rfl⟩
    | some mode =>
      dsimp only
      split
      · exact .inl ⟨_, rfl⟩
      split
      · exact .inl ⟨_, rfl⟩
      cases hmetadata : getQueueMetadata db queueName with
      | error err => exact .inl ⟨_, rfl⟩
      | ok queueMetadata =>
        cases hprepared : prepareMessages env queueMetadata now mode 0 messages with
        | error err => exact .inl ⟨_, by simp only [hprepared]; rfl⟩
        | ok prepared =>
          simp only [hprepared]
          split
          · exact .inl ⟨_, rfl⟩
          · exact .inr ⟨queueMetadata, mode, prepared, ⟨hnamed, hposts, hmetadata⟩, rfl,
              hprepared, rfl⟩

/-- What an answered request of either mode leaves. -/
theorem describes_enqueueMessagesBulkWith {db : Database} {now : Nat → Int} (clock : Readings)
    {messages : List (Option (PostedMessage Content))} {mode : TransactionMode}
    {prepared : List (Prepared Content)} (haccepts : Accepts db queueName queueMetadata)
    (hprepared : prepareMessages env queueMetadata now mode 0 messages = .ok prepared) :
    let stored := enqueueMessagesBulkWith (enqueuePosted env queueName) clock db
      (validMessages prepared) mode
    ∃ response, (respond prepared mode stored.2).response = some response ∧
      Describes env db stored.1 now queueName messages response ∧
      (mode = .allOrNothing → (∀ result ∈ response.results, result.map (·.success) = some true) ∨
        stored.1 = db) := by
  intro stored
  cases mode with
  | bestEffort =>
    rw [prepareMessages_bestEffort] at hprepared
    cases hprepared
    obtain ⟨hlength, rows, hrows, hmerged⟩ :=
      merged_enqueueEachWith env queueMetadata queueName now clock messages 0 0 db
    obtain ⟨response, hresponse, -, hdescribes⟩ :=
      describes_respond .bestEffort stored.2 haccepts.metadata hlength hrows
        hmerged
    exact ⟨response, hresponse, hdescribes, nofun⟩
  | allOrNothing =>
    obtain ⟨rfl, hpassed⟩ := prepareMessages_allOrNothing hprepared
    cases hall : enqueueAllWith (enqueuePosted env queueName) clock db 0
        (validMessages (preparedFrom env queueMetadata now 0 messages)) with
    | ok db' =>
      have hstored : stored = (db', ⟨(validMessages
          (preparedFrom env queueMetadata now 0 messages)).map fun _ => none, none⟩) := by
        simp only [stored, enqueueMessagesBulkWith, hall]
      obtain ⟨rows, hrows, hmerged⟩ :=
        merged_enqueueAllWith now clock messages 0 0 db db' hpassed hall
      rw [hstored]
      obtain ⟨response, hresponse, hresults, hdescribes⟩ :=
        describes_respond .allOrNothing
          ⟨(validMessages (preparedFrom env queueMetadata now 0 messages)).map
            fun _ => none, none⟩ haccepts.metadata (by simp) hrows hmerged
      refine ⟨response, hresponse, hdescribes, fun _ => .inl ?_⟩
      rw [hresults]
      intro result hresult
      obtain ⟨merged, hmem, rfl⟩ := List.mem_map.mp hresult
      exact congrArg some (success_resultsOf hpassed (by simp) merged hmem)
    | error failed =>
      -- The transaction is rolled back and every message gets an error.
      have hdb : stored.1 = db := by simp only [stored, enqueueMessagesBulkWith, hall]
      have hlength : stored.2.messageErrors.length =
          (validMessages (preparedFrom env queueMetadata now 0 messages)).length := by
        simp [stored, enqueueMessagesBulkWith, hall]
      have hrows : stored.1.messages.rows = db.messages.rows ++ [] := by
        rw [hdb, List.append_nil]
      have herrors : ∀ messageError ∈ stored.2.messageErrors, messageError.isSome = true := by
        simp [stored, enqueueMessagesBulkWith, hall]
      obtain ⟨response, hresponse, -, hdescribes⟩ :=
        describes_respond .allOrNothing stored.2 haccepts.metadata hlength hrows
          (merged_of_errors now messages 0 stored.2.messageErrors hlength herrors)
      exact ⟨response, hresponse, hdescribes, fun _ => .inr hdb⟩

/-- Only a queue that accepts posts is posted to. -/
theorem accepts_of_createQueueMessage {db db' : Database} {now : Int} {clock : Readings}
    {message : Option (PostedMessage Content)}
    (h : createQueueMessage env db now clock queueName message = .ok db') :
    ∃ queueMetadata, Accepts db queueName queueMetadata := by
  cases message with
  | none => simp [createQueueMessage] at h
  | some message =>
    simp only [createQueueMessage] at h
    split at h
    · cases h
    rename_i hnamed
    cases hposts : rejectDLQOperation db queueName with
    | error err => simp [hposts] at h
    | ok =>
      cases hmetadata : getQueueMetadata db queueName with
      | error err =>
        simp only [hposts, hmetadata] at h
        split at h <;> cases h
      | ok queueMetadata => exact ⟨queueMetadata, hnamed, hposts, hmetadata⟩

/-- A `BEST_EFFORT` request within the limits, all at one clock reading, posts what posting its
messages one at a time does. -/
theorem bestEffort_eq_postEach {db : Database} {now clock : Int}
    {messages : List (Option (PostedMessage Content))}
    (hlimits : WithinLimits env db (fun _ => now) queueName messages) :
    let bulk := createQueueMessagesBulk env db (fun _ => now) (fun _ => clock) queueName messages 1
    (bulk.1, bulk.2.posted messages) = postEach env now (fun _ => clock) queueName db messages := by
  intro bulk
  by_cases haccepts : ∃ queueMetadata, Accepts db queueName queueMetadata
  · obtain ⟨queueMetadata, haccepts⟩ := haccepts
    by_cases hempty : messages.length = 0
    · obtain rfl := List.eq_nil_of_length_eq_zero hempty
      simp [bulk, createQueueMessagesBulk, haccepts.named, haccepts.posts,
        TransactionMode.ofNumber, refuse, BulkOutcome.posted, postEach]
    · obtain ⟨hcount, hsize⟩ := hlimits
      have hstored : bulk =
          ((enqueueEachWith (enqueuePosted env queueName) (fun _ => clock) db 0
              (validMessages (preparedFrom env queueMetadata (fun _ => now) 0 messages))).1,
            respond (preparedFrom env queueMetadata (fun _ => now) 0 messages) .bestEffort
              ⟨(enqueueEachWith (enqueuePosted env queueName) (fun _ => clock) db 0
                (validMessages (preparedFrom env queueMetadata (fun _ => now) 0 messages))).2,
                none⟩) := by
        simp only [bulk, createQueueMessagesBulk, haccepts.named, haccepts.posts,
          haccepts.metadata, TransactionMode.ofNumber, hempty, Nat.not_lt.mpr hcount,
          prepareMessages_bestEffort, Nat.not_lt.mpr (hsize queueMetadata haccepts.metadata),
          if_false, one_ne_zero, if_true, enqueueMessagesBulkWith]
      have heach := enqueueEachWith_eq_postEach env now clock messages 0 0 db haccepts
      obtain ⟨hlength, rows, hrows, hmerged⟩ :=
        merged_enqueueEachWith env queueMetadata queueName (fun _ => now) (fun _ => clock) messages
          0 0 db
      obtain ⟨response, hresponse, hresults, -⟩ :=
        describes_respond .bestEffort ⟨_, none⟩ haccepts.metadata hlength hrows
          hmerged
      rw [heach, hstored]
      simp only [BulkOutcome.posted, hresponse, hresults, List.map_map]
      rfl
  -- Both sides refuse: the bulk once, the posts each.
  · have hrefused : bulk = (db, bulk.2) ∧ bulk.2.response = none := by
      rcases createQueueMessagesBulk_cases env db (fun _ => now) (fun _ => clock) queueName
        messages 1 with ⟨err, h⟩ | ⟨queueMetadata, _, _, h, -⟩
      · simp [bulk, h, refuse]
      · exact absurd ⟨queueMetadata, h⟩ haccepts
    rw [hrefused.1, postEach_of_refused now (fun _ => clock) (fun message => ?_) messages]
    · simp only [BulkOutcome.posted, hrefused.2]
    · cases h : createQueueMessage env db now (fun _ => clock) queueName message with
      | ok db' => exact absurd (accepts_of_createQueueMessage h) haccepts
      | error err => exact ⟨err, rfl⟩

end Bulk

/-- **Bulk posts**: in both modes a response describes the requests in their order and reports
success exactly for the messages the call has inserted, without a response nothing has changed,
`ALL_OR_NOTHING` inserts every message or changes nothing, and `BEST_EFFORT` within the limits does
what posting the messages one at a time does. -/
theorem createQueueMessagesBulk_contract {Content : Type} (env : PostEnvironment Content)
    (db : Database) (queueName : String) (messages : List (Option (PostedMessage Content))) :
    (∀ now clock transactionMode,
      let bulk := createQueueMessagesBulk env db now clock queueName messages transactionMode
      (∀ response, bulk.2.response = some response →
        Describes env db bulk.1 now queueName messages response) ∧
      (bulk.2.response = none → bulk.1 = db) ∧
      (transactionMode = 0 → bulk.1 = db ∨ ∃ response, bulk.2.response = some response ∧
        ∀ result ∈ response.results, result.map (·.success) = some true)) ∧
    ∀ now, WithinLimits env db (fun _ => now) queueName messages →
      let bulk := createQueueMessagesBulk env db (fun _ => now) (fun _ => unixMilli now) queueName
        messages 1
      (bulk.1, bulk.2.posted messages) =
        postEach env now (fun _ => unixMilli now) queueName db messages := by
  refine ⟨fun now clock transactionMode => ?_, fun now => bestEffort_eq_postEach⟩
  rcases createQueueMessagesBulk_cases env db now clock queueName messages transactionMode with
    ⟨err, hbulk⟩ | ⟨queueMetadata, mode, prepared, haccepts, hmode, hprepared, hbulk⟩
  · simp only [hbulk]
    exact ⟨nofun, fun _ => rfl, fun _ => .inl rfl⟩
  · obtain ⟨response, hresponse, hdescribes, hall⟩ :=
      describes_enqueueMessagesBulkWith clock haccepts hprepared
    simp only [hbulk]
    refine ⟨fun response' h => ?_, fun h => ?_, fun hzero => ?_⟩
    · cases hresponse.symm.trans h
      exact hdescribes
    · exact absurd (hresponse.symm.trans h) nofun
    · subst hzero
      cases hmode
      exact (hall rfl).symm.imp id fun hsuccess => ⟨response, hresponse, hsuccess⟩

/-- A batch with a nil message and a repeated id: the first `a` and `b` are posted. -/
theorem createQueueMessagesBulk_contract_batch :
    let env : PostEnvironment Unit := ⟨none, .ok, fun _ => 100⟩
    let db := (createValidQueue .empty "jobs" {}).toOption.getD .empty
    let a : PostedMessage Unit := ⟨"a", some { content := () }⟩
    let b : PostedMessage Unit := ⟨"b", some { content := () }⟩
    let bulk := createQueueMessagesBulk env db (fun _ => 0) (fun _ => 0) "jobs"
      [some a, none, some a, some b] 1
    (bulk.1, bulk.2.posted [some a, none, some a, some b]) =
        postEach env 0 (fun _ => 0) "jobs" db [some a, none, some a, some b] ∧
      bulk.2.posted [some a, none, some a, some b] = [true, false, false, true] := by
  intro env db a b
  refine ⟨(createQueueMessagesBulk_contract env db "jobs" [some a, none, some a, some b]).2 0
    ⟨by decide, fun queueMetadata _ => ?_⟩, by decide +kernel⟩
  simp [totalSize, preparedFrom, prepareMessage, PostEnvironment.validate,
    ValidationResult.accepted, env, maxPayloadBytes, a, b]

end Nzovu.Repository
