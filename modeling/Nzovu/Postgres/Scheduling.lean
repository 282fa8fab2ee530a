import Nzovu.Background.Services
import Nzovu.Foundation.Transaction.Inserts
import Nzovu.Postgres.Commits
import Nzovu.Repository.Scheduled

/-!
# Posting, Canceling and the Scheduler on Postgres

Translation of `EnqueueMessage`, `EnqueueMessagesBulk` and `CancelMessage` of
`pkg/repository/postgres/messages.go` and of `collectScheduledMessages` and `activateMessage` of
`pkg/repository/sql/background/scheduler.go`, statement by statement, and the sessions in which
they run next to claims.

- Section 1: posting.
- Section 2: canceling.
- Section 3: the scheduler.
- Section 4: sessions.
-/

namespace Nzovu.Postgres

open Nzovu.Foundation
open Nzovu.Repository
open Nzovu.Background

/-! ## Section 1: Posting -/

/-- What a session returns, with the ids of the rows it worked on. -/
inductive Answer where
  | storage (reply : Reply)
  | posted (ids : List Nat)
  | canceled (id : Nat)
  | activated (id : Option Nat)
deriving DecidableEq, Repr

/-- The error of a refused `INSERT`. `ON CONFLICT DO NOTHING` inserts no row. -/
def insertRefused (messageId : String) : Violation → StorageError
  | .unique => ⟨.duplicateMessageId, "duplicate message_id: " ++ messageId⟩
  | .foreignKey => refused "insert message" .foreignKey

/-- `enqueueMessageInTx`, with the id the row gets. -/
def enqueueMessageInTx (id : Nat) (queueName : String) (message : Message) : Transaction Unit :=
  match message.metadata with
  | none => .fail (.plain "message metadata is nil")
  | some metadata => do
    let nowMs ← Program.readClock
    Program.insert Tab.messages id
      (newRow queueName message.messageId metadata (metadata.scheduledTime.map unixMilli) nowMs
        nowMs)
      (insertRefused message.messageId)
    -- `InsertCounter`.
    addCounter queueName metadata.state 1

/-- The loop of `EnqueueMessagesBulk` in mode `ALL_OR_NOTHING`, from message `i` on. -/
def enqueueAll (queueName : String) : Nat → List (Nat × Message) → Transaction Unit
  | _, [] => pure ()
  | i, (id, message) :: rest => do
    (enqueueMessageInTx id queueName message).mapError fun err =>
      err.wrap ("message[" ++ toString i ++ "] failed")
    enqueueAll queueName (i + 1) rest

/-! ## Section 2: Canceling -/

/-- `CancelMessage`. -/
def cancelMessage (queueName messageId reason : String) : Transaction Answer := do
  let metadata ← getQueueMetadata queueName
  let locked ← selectMessages { filter := fun _ row => addressed queueName messageId row }
  match locked with
  | [] => .fail ⟨.notFound, "message " ++ messageId.quote ++ " not found"⟩
  | e :: _ =>
    if e.2.state ≠ .invisible ∧ e.2.state ≠ .pending then
      .fail ⟨.failedPrecondition, "message cannot be canceled in state " ++ e.2.state.name⟩
    else
      let (shouldDelete, deletedAt) ← calculateDeletion metadata.messageRetentionPolicy
      let nowMs ← Program.readClock
      let guard := fun (_ : Nat) row => addressed queueName messageId row &&
        (row.state = .invisible || row.state = .pending)
      if shouldDelete then
        let found ← deleteMessages guard (refused "delete cancelled message")
        if found.length = 0 then
          .fail ⟨.failedPrecondition, "message state changed during cancellation"⟩
        else
          removeCounter queueName e.2.state
          pure (.canceled e.1)
      else
        let reason := if reason ≠ "" then some reason else none
        let found ← updateMessages guard (cancelRow nowMs deletedAt reason)
          (refused "soft delete cancelled message")
        if found.length = 0 then
          .fail ⟨.failedPrecondition, "message state changed during cancellation"⟩
        else
          updateCounters queueName e.2.state .canceled
          pure (.canceled e.1)

/-! ## Section 3: The scheduler -/

/-- `collectScheduledMessages`: the rows of a plain `SELECT`, kept in memory. -/
def collectScheduledMessages (nowMs : Int) (limit : Nat) :
    Transaction (List ScheduledMessage) := do
  let rows ← Program.readRows
  let due := (rows .messages).filter fun e =>
    e.2.state = .invisible && e.2.scheduledAt.any (· ≤ nowMs)
  pure (((due.insertionSort fun a b => activationOrder a b = true).take limit).map fun e =>
    ⟨e.1, e.2.queueName, e.2.messageId, e.2.metadata, nowMs⟩)

/-- `activateMessage`: the counters and the protobuf come from memory. -/
def activateMessage (message : ScheduledMessage) : Transaction Answer := do
  let metadata := { message.metadata with state := .pending }
  let updatedAt ← Program.readClock
  let found ← updateMessages
    (fun id row => id = message.id && row.state = .invisible &&
      row.scheduledAt.any (· ≤ message.nowMs))
    (activateRow metadata updatedAt) (refused "update message")
  if found.length = 0 then pure (.activated none)
  else if found.length ≠ 1 then
    .fail (.plain s!"activate message: expected one row, updated {found.length}")
  else
    updateCounters message.queueName message.metadata.state metadata.state
    pure (.activated (some message.id))

/-- What a replica of the scheduler does for candidate `index` of a batch, from the clock reading
of its cycle and the collection of the batch to the transaction of the candidate. -/
def processCandidate (batchSize index : Nat) : Transaction Answer := do
  let nowMs ← Program.readClock
  let messages ← collectScheduledMessages nowMs batchSize
  match messages[index]? with
  | none => pure (.activated none)
  | some message => activateMessage message

/-! ## Section 4: Sessions -/

/-- The event an answer stands for. -/
def Answer.event : Answer → Option (Nat × MessageEvent)
  | .storage (.claimed (some e)) => some (e.1, .claimed)
  | .canceled id => some (id, .canceled)
  | .activated (some id) => some (id, .activated)
  | _ => none

/-- What sessions do besides claiming. -/
inductive Request where
  /-- `EnqueueMessage`, or one message of `EnqueueMessagesBulk` in mode `BEST_EFFORT`. -/
  | enqueue (id : Nat) (queueName : String) (message : Message)
  /-- `EnqueueMessagesBulk` in mode `ALL_OR_NOTHING`. -/
  | enqueueAll (queueName : String) (messages : List (Nat × Message))
  | cancel (queueName messageId reason : String)
  /-- `processScheduledMessages` has one such session for each candidate of each of its batches:
  candidates do not share what they read. -/
  | activate (batchSize index : Nat)
deriving DecidableEq, Repr

/-- The ids a request draws from the sequence. -/
def Request.ids : Request → List Nat
  | .enqueue id _ _ => [id]
  | .enqueueAll _ messages => messages.map Prod.fst
  | _ => []

/-- The program of a request. -/
def Request.program : Request → Transaction Answer
  | .enqueue id queueName message => do
    enqueueMessageInTx id queueName message
    pure (.posted [id])
  | .enqueueAll queueName messages => do
    Postgres.enqueueAll queueName 0 messages
    pure (.posted (messages.map Prod.fst))
  | .cancel queueName messageId reason => cancelMessage queueName messageId reason
  | .activate batchSize index => processCandidate batchSize index

/-- A row as a post leaves it: `scheduled_at` is the scheduled time in milliseconds, and the
protobuf of an INVISIBLE message says so. -/
structure Stored (row : MessageRow) : Prop where
  scheduledAt : row.scheduledAt = row.metadata.scheduledTime.map unixMilli
  invisible : row.state = .invisible → row.metadata.state = .invisible

/-- A database and its sessions: each makes a request, else it is a claim. -/
structure Scheduling extends Setup where
  request : Nat → Option Request
  claims : ∀ t, request t = none → ∃ req, call t = .claim req
  /-- The session that draws an id from the sequence. -/
  drawnBy : Nat → Option Nat
  drawn : ∀ i t, drawnBy i = some t ↔ ∃ r, request t = some r ∧ i ∈ r.ids
  drawn_nodup : ∀ t r, request t = some r → r.ids.Nodup
  fresh : ∀ i t, drawnBy i = some t → i ∈ ids ∧ rows (message i) = none
  stored : ∀ i (row : MessageRow), rows (message i) = some row → Stored row

namespace Scheduling

variable (s : Scheduling)

/-- The program of session `t`. -/
def program (t : Nat) : Transaction Answer :=
  match s.request t with
  | some r => r.program
  | none => do
    let reply ← (s.call t).program
    pure (.storage reply)

/-- The ids drawn from the sequence are the sessions' own. -/
def owner : Ref Key → Option Nat
  | ⟨.messages, i⟩ => s.drawnBy i
  | ⟨.queues, _⟩ => none

/-- The world before any session has begun. -/
def start : World Key Row StorageError Answer :=
  World.startHolding s.clock s.rows s.program s.owner

/-- The world after the scheduler's choices. -/
def run (actions : List Action) : World Key Row StorageError Answer :=
  runFrom (World.step s.schema) s.start actions

end Scheduling

end Nzovu.Postgres
