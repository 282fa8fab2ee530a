import Nzovu.Foundation.EventLog
import Nzovu.Foundation.Run

/-!
# Attempt Tracking in the Client

Translation of the parts of `client/client.go` that remember the attempts of claimed messages and
run their heartbeats: two maps keyed by message id, a channel of work items, and the goroutines of
the callers and of the heartbeat workers. Every map or channel operation is a step of its own; what
a goroutine computes in between belongs to the next one. A request is built from one load of the
attempt map, so loading and sending are one step.

Deadlines and back-off times are left out: a tick, an answer or the end of a wait can come at any
time. `Close`, `SetAttemptInfo` and a custom `SendMessageHeartbeatFunc` are not modelled.

- Section 1: what goroutines remember.
- Section 2: the steps.
-/

namespace Nzovu.Client

open Nzovu.Foundation

/-! ## Section 1: What goroutines remember -/

/-- `attemptInfo`; `""` is no id. -/
structure AttemptInfo where
  attemptID : String
  workerID : String
deriving DecidableEq, Repr

/-- `WorkItem`. The number `ctx` stands for the context and its cancel function, which are made for
one claim. -/
structure WorkItem where
  ctx : Nat
  queue : String
  messageID : String
  attemptID : String
  workerID : String
deriving DecidableEq, Repr

/-- The attempt data of an item. -/
def WorkItem.info (item : WorkItem) : AttemptInfo := ⟨item.attemptID, item.workerID⟩

/-- The message in a `GetNextMessageResponse`, as far as the client reads it. -/
structure ReceivedMessage where
  messageId : String
  currentAttempt : Option AttemptInfo
deriving DecidableEq, Repr

/-- `GetNextMessageResponse`. -/
structure GetNextMessageResponse where
  workerId : String
  attemptId : String
  message : Option ReceivedMessage
deriving DecidableEq, Repr

/-- The ids a response names: its own, else those of the message's current attempt. -/
def GetNextMessageResponse.returned (res : GetNextMessageResponse) : AttemptInfo :=
  let currentAttempt := res.message.bind (·.currentAttempt)
  { attemptID :=
      if res.attemptId = "" then (currentAttempt.map (·.attemptID)).getD "" else res.attemptId
    workerID :=
      if res.workerId = "" then (currentAttempt.map (·.workerID)).getD "" else res.workerId }

/-- The requests that carry ids. -/
inductive RequestKind where
  | acknowledge
  | renew
  | heartbeat
deriving DecidableEq, Repr

/-- A request for a message. -/
structure Request where
  kind : RequestKind
  queue : String
  messageID : String
  info : AttemptInfo
deriving DecidableEq, Repr

/-- What has happened to the maps, and the requests sent. -/
inductive Event where
  /-- A claim recorded its attempt; the ids are those the response named. -/
  | claimed (item : WorkItem) (returned : AttemptInfo)
  /-- A heartbeat worker recorded the attempt of its item. -/
  | started (item : WorkItem)
  /-- A successful acknowledgement cleared the attempt. -/
  | acknowledged (messageID : String)
  | cancelStored (item : WorkItem)
  /-- A heartbeat worker is done with its item. -/
  | ended (item : WorkItem)
  /-- `StopHeartbeat`, called by `AcknowledgeMessage` for a queue or on its own, found the cancel
  function of a context or none. -/
  | stopped (queue : Option String) (messageID : String) (found : Option Nat)
  | sent (request : Request)
deriving DecidableEq, Repr

/-- A `GetNextMessage` call on its way to its heartbeat. -/
inductive ClaimPhase where
  | recorded
  | cancelStored
  | returned
deriving DecidableEq, Repr

/-- A heartbeat worker with an item. -/
inductive WorkerPhase where
  | received
  | beating
  | ending
deriving DecidableEq, Repr

/-- A busy heartbeat worker. -/
structure Worker where
  item : WorkItem
  phase : WorkerPhase
  retryCount : Nat
deriving DecidableEq, Repr

/-- An `AcknowledgeMessage` call after it stopped the heartbeat. -/
structure AckCall where
  queue : String
  messageID : String
  sent : Bool
deriving DecidableEq, Repr

/-- `ClientOptions`, after `checkDefaultClientOptions`. -/
structure ClientOptions where
  maxHeartBeatWorkers : Nat
  maxHeartbeatRetryCount : Nat
deriving DecidableEq, Repr

/-- `NzovuClient`, its goroutines, and the log of events, newest first. -/
structure NzovuClient where
  attemptTracker : String → Option AttemptInfo
  activeHeartbeats : String → Option Nat
  workerID : String
  /-- Whether `workerIDOnce` has run. -/
  workerIDDone : Bool
  workChan : List WorkItem
  claims : List (WorkItem × ClaimPhase)
  workers : List Worker
  acks : List AckCall
  cancelled : List Nat
  nextCtx : Nat
  log : List Event

namespace NzovuClient

/-- `NewNzovuClient`. -/
def new : NzovuClient where
  attemptTracker := fun _ => none
  activeHeartbeats := fun _ => none
  workerID := ""
  workerIDDone := false
  workChan := []
  claims := []
  workers := []
  acks := []
  cancelled := []
  nextCtx := 0
  log := []

/-! ## Section 2: The steps -/

/-- `recordAttemptInfo`. -/
def recordAttemptInfo (client : NzovuClient) (messageID : String) (info : AttemptInfo) :
    NzovuClient :=
  -- nothing is tracked without an id
  if messageID = "" then client
  else
    { client with
      attemptTracker := Function.update client.attemptTracker messageID (some info) }

/-- `getAttemptInfo`. -/
def getAttemptInfo (client : NzovuClient) (messageID : String) : AttemptInfo :=
  (client.attemptTracker messageID).getD ⟨"", ""⟩

/-- `clearAttemptInfo`. -/
def clearAttemptInfo (client : NzovuClient) (messageID : String) : NzovuClient :=
  if messageID = "" then client
  else { client with attemptTracker := Function.update client.attemptTracker messageID none }

/-- An event is logged. -/
def logged (client : NzovuClient) (e : Event) : NzovuClient :=
  { client with log := e :: client.log }

/-- The request of `AcknowledgeMessage`, `RenewMessageLease` and `SendMessageHeartbeat`: the tracked
ids, and the client's worker id when none is tracked. -/
def request (client : NzovuClient) (kind : RequestKind) (queue messageID : String) : Request :=
  let info := client.getAttemptInfo messageID
  let workerID := if info.workerID = "" then client.workerID else info.workerID
  ⟨kind, queue, messageID, ⟨info.attemptID, workerID⟩⟩

/-- A request is sent. -/
def send (client : NzovuClient) (kind : RequestKind) (queue messageID : String) : NzovuClient :=
  client.logged (.sent (client.request kind queue messageID))

/-- `StopHeartbeat`: `LoadAndDelete`, and the cancel function that was there is called. -/
def stopHeartbeat (client : NzovuClient) (queue : Option String) (messageID : String) :
    NzovuClient :=
  let found := client.activeHeartbeats messageID
  ({ client with
      activeHeartbeats := Function.update client.activeHeartbeats messageID none
      cancelled := found.toList ++ client.cancelled } : NzovuClient).logged
    (.stopped queue messageID found)

/-- `GetNextMessage` from the response to `recordAttemptInfo`. -/
def claim (client : NzovuClient) (queue : String) (res : GetNextMessageResponse)
    (enableHeartbeat : Bool) : NzovuClient :=
  let returned := res.returned
  let workerID := if returned.workerID = "" then client.workerID else returned.workerID
  let client :=
    -- the first worker id stays for the life of the client
    if workerID ≠ "" ∧ client.workerIDDone = false then
      { client with workerID := workerID, workerIDDone := true }
    else client
  match res.message with
  | none => client
  | some message =>
    let item : WorkItem :=
      ⟨client.nextCtx, queue, message.messageId, returned.attemptID, workerID⟩
    let client := (client.recordAttemptInfo item.messageID item.info).logged
      (.claimed item returned)
    let client := { client with nextCtx := client.nextCtx + 1 }
    if enableHeartbeat then { client with claims := client.claims ++ [(item, .recorded)] }
    else client

/-- One operation of a goroutine. -/
inductive Step where
  | getNextMessage (queue : String) (res : GetNextMessageResponse) (enableHeartbeat : Bool)
  | storeCancel (i : Nat)
  | sendWork (i : Nat)
  | receiveWork
  | recordWork (w : Nat)
  | tick (w : Nat) (ok : Bool)
  | contextDone (w : Nat)
  | deleteHeartbeat (w : Nat)
  | acknowledge (queue messageID : String)
  | sendAck (a : Nat)
  | ackAnswered (a : Nat) (ok : Bool)
  | renew (queue messageID : String)
  | sendHeartbeat (queue messageID : String)
  | stopHeartbeat (messageID : String)

/-- The workers after worker `w` moved to a phase. -/
def moveWorker (client : NzovuClient) (w : Nat) (worker : Worker) : NzovuClient :=
  { client with workers := client.workers.set w worker }

/-- One step; a goroutine that is not at this point does nothing. -/
def step (opts : ClientOptions) (client : NzovuClient) : Step → NzovuClient
  | .getNextMessage queue res enableHeartbeat => client.claim queue res enableHeartbeat
  | .storeCancel i =>
    match client.claims[i]? with
    | some (item, .recorded) =>
      ({ client with
          activeHeartbeats :=
            Function.update client.activeHeartbeats item.messageID (some item.ctx)
          claims := client.claims.set i (item, .cancelStored) } : NzovuClient).logged
        (.cancelStored item)
    | _ => client
  | .sendWork i =>
    match client.claims[i]? with
    | some (item, .cancelStored) =>
      -- The channel has room for as many items as there are workers.
      if client.workChan.length < opts.maxHeartBeatWorkers then
        { client with
          workChan := client.workChan ++ [item]
          claims := client.claims.set i (item, .returned) }
      else client
    | _ => client
  | .receiveWork =>
    match client.workChan with
    | [] => client
    | item :: rest =>
      -- a worker is free
      if client.workers.length < opts.maxHeartBeatWorkers then
        { client with
          workChan := rest
          workers := client.workers ++ [⟨item, .received, 0⟩] }
      else client
  | .recordWork w =>
    match client.workers[w]? with
    | some ⟨item, .received, retryCount⟩ =>
      let client := client.moveWorker w ⟨item, .beating, retryCount⟩
      -- an item without ids does not replace what is tracked
      if item.attemptID ≠ "" ∨ item.workerID ≠ "" then
        (client.recordAttemptInfo item.messageID item.info).logged (.started item)
      else client
    | _ => client
  | .tick w ok =>
    match client.workers[w]? with
    | some ⟨item, .beating, retryCount⟩ =>
      -- too many ticks have failed in a row
      if opts.maxHeartbeatRetryCount ≤ retryCount then
        client.moveWorker w ⟨item, .ending, retryCount⟩
      else
        (client.moveWorker w ⟨item, .beating, if ok then 0 else retryCount + 1⟩).send .heartbeat
          item.queue item.messageID
    | _ => client
  | .contextDone w =>
    match client.workers[w]? with
    | some ⟨item, .beating, retryCount⟩ =>
      -- the context of this item, whichever call has cancelled it
      if item.ctx ∈ client.cancelled then client.moveWorker w ⟨item, .ending, retryCount⟩
      else client
    | _ => client
  | .deleteHeartbeat w =>
    match client.workers[w]? with
    | some ⟨item, .ending, _⟩ =>
      ({ client with
          activeHeartbeats := Function.update client.activeHeartbeats item.messageID none
          workers := client.workers.eraseIdx w } : NzovuClient).logged (.ended item)
    | _ => client
  | .acknowledge queue messageID =>
    -- before the request is sent, and whatever comes of it
    let client := client.stopHeartbeat (some queue) messageID
    { client with acks := client.acks ++ [⟨queue, messageID, false⟩] }
  | .sendAck a =>
    match client.acks[a]? with
    | some ⟨queue, messageID, false⟩ =>
      ({ client with acks := client.acks.set a ⟨queue, messageID, true⟩ } : NzovuClient).send
        .acknowledge queue messageID
    | _ => client
  | .ackAnswered a ok =>
    match client.acks[a]? with
    | some ⟨_, messageID, true⟩ =>
      let client := { client with acks := client.acks.eraseIdx a }
      if ok then (client.clearAttemptInfo messageID).logged (.acknowledged messageID) else client
    | _ => client
  | .renew queue messageID => client.send .renew queue messageID
  | .sendHeartbeat queue messageID => client.send .heartbeat queue messageID
  | .stopHeartbeat messageID => client.stopHeartbeat none messageID

end NzovuClient

end Nzovu.Client
