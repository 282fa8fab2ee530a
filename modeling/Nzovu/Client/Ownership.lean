import Nzovu.Client.Tracking

/-!
# Ownership of Attempts

What the requests of a client carry, and what stopping a heartbeat stops, for every order in which
its goroutines run. The maps know a message only by its id, so they follow the last claim of that id
in any queue, the last heartbeat worker that got to its item, and the last worker that cleaned up.
The requests and stops are right as long as no such event of another claim has come in between.

- Section 1: the maps as replays of the log.
- Section 2: what requests and stops owe to the most recent claim.
- Section 3: the invariant.
- Section 4: what a run preserves.
-/

namespace Nzovu.Client

open Nzovu.Foundation

/-! ## Section 1: The maps as replays of the log -/

/-- What an event does to `attemptTracker`; the empty id is not tracked. -/
def touchAttempt : Event → Option (String × Option AttemptInfo)
  | .claimed item _ => if item.messageID = "" then none else some (item.messageID, some item.info)
  | .started item => if item.messageID = "" then none else some (item.messageID, some item.info)
  | .acknowledged messageID => if messageID = "" then none else some (messageID, none)
  | _ => none

/-- What an event does to `activeHeartbeats`. -/
def touchHeartbeat : Event → Option (String × Option Nat)
  | .cancelStored item => some (item.messageID, some item.ctx)
  | .ended item => some (item.messageID, none)
  | .stopped _ messageID _ => some (messageID, none)
  | _ => none

/-- Every stop found what the map held. -/
def StopsFound : List Event → Prop
  | [] => True
  | e :: log => (∀ queue messageID found, e = .stopped queue messageID found →
      found = replay touchHeartbeat log messageID) ∧ StopsFound log

/-! ## Section 2: What is owed to the most recent claim -/

/-- The most recent claim of a message, with the ids its response named. -/
def lastClaim (queue messageID : String) : List Event → Option (WorkItem × AttemptInfo)
  | [] => none
  | .claimed item returned :: log =>
    if item.queue = queue ∧ item.messageID = messageID then some (item, returned)
    else lastClaim queue messageID log
  | _ :: log => lastClaim queue messageID log

/-- The most recent claim with heartbeats of a message, in a queue or in any. -/
def lastHeartbeat (queue : Option String) (messageID : String) : List Event → Option WorkItem
  | [] => none
  | .cancelStored item :: log =>
    if item.messageID = messageID ∧ queue.all (· = item.queue) then some item
    else lastHeartbeat queue messageID log
  | _ :: log => lastHeartbeat queue messageID log

/-- The request carries the ids the response named. -/
def Carries (request : Request) (returned : AttemptInfo) : Prop :=
  request.info.attemptID = returned.attemptID ∧
    (returned.workerID ≠ "" → request.info.workerID = returned.workerID)

/-- The context an event cancels. -/
def Event.cancels : Event → Option Nat
  | .stopped _ _ found => found
  | _ => none

/-- The item whose attempt an event recorded. -/
def Event.recorded : Event → Option WorkItem
  | .claimed item _ => some item
  | .started item => some item
  | _ => none

/-- The item whose cancel function an event stored or whose worker it ended. -/
def Event.managed : Event → Option WorkItem
  | .cancelStored item => some item
  | .ended item => some item
  | _ => none

/-- The heartbeat of the item has been stopped, or has ended by itself. -/
def HasStopped (item : WorkItem) (log : List Event) : Prop :=
  ∃ e ∈ log, e.cancels = some item.ctx ∨ e = .ended item

/-- What an event owes to the claims before it: a request carries the ids of the most recent claim
of its message; a stop finds the heartbeat of the most recent claim with heartbeats, unless that one
has stopped already, and never another. -/
def Correct (e : Event) (log : List Event) : Prop :=
  match e with
  | .sent request => ∀ claim ∈ lastClaim request.queue request.messageID log,
      Carries request claim.2
  | .stopped queue messageID found => ∀ item ∈ lastHeartbeat queue messageID log,
      found = some item.ctx ∨ (found = none ∧ HasStopped item log)
  | _ => True

/-- Every event of the log is correct. -/
def AllCorrect : List Event → Prop
  | [] => True
  | e :: log => Correct e log ∧ AllCorrect log

/-- Nothing has changed the tracked attempt since the claim, or the worker of its heartbeat,
recorded it: no claim of an equal id, no heartbeat worker of another claim of that id, and no
acknowledgement. -/
def AttemptKept (item : WorkItem) (log : List Event) : Prop :=
  Since (fun e => (touchAttempt e).map Prod.fst ≠ some item.messageID)
    (fun e => e.recorded = some item) log

/-- Since the claim stored its cancel function, no other claim of an equal id did, and the worker of
no other one ended. -/
def HeartbeatKept (item : WorkItem) (log : List Event) : Prop :=
  Since (fun e => ∀ other ∈ e.managed, other.messageID = item.messageID → other = item)
    (fun e => e = .cancelStored item) log

/-- The cancel function that was last stored for an id is gone. -/
def Vacated (messageID : String) (log : List Event) : Prop :=
  Since (fun e => (touchHeartbeat e).map Prod.fst ≠ some messageID)
    (fun e => touchHeartbeat e = some (messageID, none)) log

/-- The condition on a request. -/
def MaySend (queue messageID : String) (log : List Event) : Prop :=
  ∀ claim ∈ lastClaim queue messageID log, messageID ≠ "" ∧ AttemptKept claim.1 log

/-- The condition on stopping a heartbeat. -/
def MayStop (queue : Option String) (messageID : String) (log : List Event) : Prop :=
  ∀ item ∈ lastHeartbeat queue messageID log,
    HeartbeatKept item log ∨ (HasStopped item log ∧ Vacated messageID log)

instance (item : WorkItem) (log : List Event) : Decidable (HasStopped item log) :=
  inferInstanceAs (Decidable (∃ e ∈ log, _))

instance (item : WorkItem) (log : List Event) : Decidable (AttemptKept item log) :=
  decidableSince log

instance (item : WorkItem) (log : List Event) : Decidable (HeartbeatKept item log) :=
  decidableSince log

instance (messageID : String) (log : List Event) : Decidable (Vacated messageID log) :=
  decidableSince log

instance (queue messageID : String) (log : List Event) : Decidable (MaySend queue messageID log) :=
  inferInstanceAs (Decidable (∀ claim ∈ lastClaim queue messageID log, _))

instance (queue : Option String) (messageID : String) (log : List Event) :
    Decidable (MayStop queue messageID log) :=
  inferInstanceAs (Decidable (∀ item ∈ lastHeartbeat queue messageID log, _))

/-- The condition on a step: nothing that belongs to another claim of an equal id, and no
acknowledgement, has come between a claim and the requests and stops it is followed by. -/
def Undisturbed (opts : ClientOptions) (client : NzovuClient) : NzovuClient.Step → Prop
  | .tick w _ => ∀ worker ∈ client.workers[w]?, worker.phase = .beating →
    worker.retryCount < opts.maxHeartbeatRetryCount →
    MaySend worker.item.queue worker.item.messageID client.log
  | .sendAck a => ∀ call ∈ client.acks[a]?, call.sent = false →
    MaySend call.queue call.messageID client.log
  | .renew queue messageID => MaySend queue messageID client.log
  | .sendHeartbeat queue messageID => MaySend queue messageID client.log
  | .acknowledge queue messageID => MayStop (some queue) messageID client.log
  | .stopHeartbeat messageID => MayStop none messageID client.log
  | _ => True

instance (opts : ClientOptions) (client : NzovuClient) :
    ∀ op : NzovuClient.Step, Decidable (Undisturbed opts client op)
  | .tick w _ => inferInstanceAs (Decidable (∀ worker ∈ client.workers[w]?,
      worker.phase = .beating → worker.retryCount < opts.maxHeartbeatRetryCount →
      MaySend worker.item.queue worker.item.messageID client.log))
  | .sendAck a => inferInstanceAs (Decidable (∀ call ∈ client.acks[a]?, call.sent = false →
      MaySend call.queue call.messageID client.log))
  | .renew queue messageID => inferInstanceAs (Decidable (MaySend queue messageID client.log))
  | .sendHeartbeat queue messageID =>
    inferInstanceAs (Decidable (MaySend queue messageID client.log))
  | .acknowledge queue messageID =>
    inferInstanceAs (Decidable (MayStop (some queue) messageID client.log))
  | .stopHeartbeat messageID => inferInstanceAs (Decidable (MayStop none messageID client.log))
  | .getNextMessage .. | .storeCancel _ | .sendWork _ | .receiveWork | .recordWork _
  | .contextDone _ | .deleteHeartbeat _ | .ackAnswered .. => .isTrue trivial

theorem lastClaim_mem {queue messageID : String} {log : List Event} {item : WorkItem}
    {returned : AttemptInfo} (h : lastClaim queue messageID log = some (item, returned)) :
    .claimed item returned ∈ log ∧ item.queue = queue ∧ item.messageID = messageID := by
  induction log with
  | nil => cases h
  | cons e log ih =>
    cases e with
    | claimed other ids =>
      simp only [lastClaim] at h
      split at h
      · rename_i hsame
        cases h
        exact ⟨List.mem_cons_self, hsame⟩
      · obtain ⟨hmem, hsame⟩ := ih h
        exact ⟨List.mem_cons_of_mem _ hmem, hsame⟩
    | _ =>
      obtain ⟨hmem, hsame⟩ := ih h
      exact ⟨List.mem_cons_of_mem _ hmem, hsame⟩

theorem lastHeartbeat_messageID {queue : Option String} {messageID : String} {log : List Event}
    {item : WorkItem} (h : lastHeartbeat queue messageID log = some item) :
    item.messageID = messageID := by
  induction log with
  | nil => cases h
  | cons e log ih =>
    cases e with
    | cancelStored other =>
      simp only [lastHeartbeat] at h
      split at h
      · rename_i hsame
        cases h
        exact hsame.1
      · exact ih h
    | _ => exact ih h

/-- While nothing has changed it, the tracked attempt is that of the claim. -/
theorem AttemptKept.replay_eq {item : WorkItem} {log : List Event} (hid : item.messageID ≠ "")
    (h : AttemptKept item log) : replay touchAttempt log item.messageID = some item.info := by
  refine Since.replay_eq (fun e he => ?_) (fun _ he => he) h
  cases e <;> cases he <;> simp [touchAttempt, hid]

/-- A heartbeat that nothing of another claim has disturbed can be found, unless it has stopped. -/
theorem HeartbeatKept.replay_eq {item : WorkItem} {log : List Event} (hfound : StopsFound log)
    (h : HeartbeatKept item log) :
    replay touchHeartbeat log item.messageID = some item.ctx ∨
      (replay touchHeartbeat log item.messageID = none ∧ HasStopped item log) := by
  revert hfound
  refine Since.rule
    (P := fun log => StopsFound log → replay touchHeartbeat log item.messageID = some item.ctx ∨
      (replay touchHeartbeat log item.messageID = none ∧ HasStopped item log)) ?_ ?_ h
  · rintro _ log rfl -
    exact .inl (replay_touched rfl)
  · intro e log hok ih hfound
    have hbefore := ih hfound.2
    have hlater : HasStopped item log → HasStopped item (e :: log) := fun ⟨d, hmem, hd⟩ =>
      ⟨d, List.mem_cons_of_mem _ hmem, hd⟩
    by_cases htouch : (touchHeartbeat e).map Prod.fst = some item.messageID
    · cases e with
      | cancelStored other =>
        have hsame := hok other rfl (by simpa [touchHeartbeat] using htouch)
        subst hsame
        exact .inl (replay_touched rfl)
      | ended other =>
        have hsame := hok other rfl (by simpa [touchHeartbeat] using htouch)
        subst hsame
        exact .inr ⟨replay_touched rfl, _, List.mem_cons_self, .inr rfl⟩
      | stopped queue messageID found =>
        have hid : messageID = item.messageID := by simpa [touchHeartbeat] using htouch
        subst hid
        refine .inr ⟨replay_touched rfl, ?_⟩
        -- The stop has found the cancel function, or there was none to be found.
        rcases hbefore with hset | ⟨-, hstopped⟩
        · have hctx := hfound.1 _ _ _ rfl
          rw [hset] at hctx
          exact ⟨_, List.mem_cons_self, .inl hctx⟩
        · exact hlater hstopped
      | _ => cases htouch
    · rw [replay_untouched htouch]
      exact hbefore.imp id fun ⟨hnone, hstopped⟩ => ⟨hnone, hlater hstopped⟩

/-! ## Section 3: The invariant -/

/-- The maps and the cancelled contexts are what the log made them; claims recorded what their
responses named. -/
structure Tracked (client : NzovuClient) : Prop where
  attempts : client.attemptTracker = replay touchAttempt client.log
  heartbeats : client.activeHeartbeats = replay touchHeartbeat client.log
  found : StopsFound client.log
  cancelled : ∀ ctx, ctx ∈ client.cancelled ↔ ∃ e ∈ client.log, e.cancels = some ctx
  returned : ∀ item returned, .claimed item returned ∈ client.log →
    item.attemptID = returned.attemptID ∧
      (returned.workerID ≠ "" → item.workerID = returned.workerID)

theorem tracked_new : Tracked NzovuClient.new where
  attempts := rfl
  heartbeats := rfl
  found := trivial
  cancelled := by simp [NzovuClient.new]
  returned := by simp [NzovuClient.new]

/-- A step that logs nothing leaves the maps alone. -/
structure Quiet (client client' : NzovuClient) : Prop where
  log : client'.log = client.log
  attempts : client'.attemptTracker = client.attemptTracker
  heartbeats : client'.activeHeartbeats = client.activeHeartbeats
  cancelled : client'.cancelled = client.cancelled

/-- A step that logs an event does to the maps what the event says. -/
structure Logs (client client' : NzovuClient) (e : Event) : Prop where
  log : client'.log = e :: client.log
  attempts : client'.attemptTracker = applyEvent touchAttempt e client.attemptTracker
  heartbeats : client'.activeHeartbeats = applyEvent touchHeartbeat e client.activeHeartbeats
  cancelled : client'.cancelled = e.cancels.toList ++ client.cancelled

/-- What an event says is what the client knew. -/
def Faithful (client : NzovuClient) : Event → Prop
  | .claimed item returned => item.attemptID = returned.attemptID ∧
      (returned.workerID ≠ "" → item.workerID = returned.workerID)
  | .stopped _ messageID found => found = client.activeHeartbeats messageID
  | .sent request => request = client.request request.kind request.queue request.messageID
  | _ => True

/-- The condition on a step, for the event it logs. -/
def Permitted (e : Event) (log : List Event) : Prop :=
  match e with
  | .sent request => MaySend request.queue request.messageID log
  | .stopped queue messageID _ => MayStop queue messageID log
  | _ => True

section Effects

variable {client client' : NzovuClient} {e : Event}

theorem Quiet.refl (client : NzovuClient) : Quiet client client := ⟨rfl, rfl, rfl, rfl⟩

theorem Tracked.quiet (ht : Tracked client) (h : Quiet client client') : Tracked client' where
  attempts := by rw [h.attempts, h.log, ht.attempts]
  heartbeats := by rw [h.heartbeats, h.log, ht.heartbeats]
  found := h.log ▸ ht.found
  cancelled := by rw [h.cancelled, h.log]; exact ht.cancelled
  returned := h.log ▸ ht.returned

theorem Tracked.logs (ht : Tracked client) (h : Logs client client' e) (hf : Faithful client e) :
    Tracked client' where
  attempts := by
    rw [h.attempts, h.log, ht.attempts]
    rfl
  heartbeats := by
    rw [h.heartbeats, h.log, ht.heartbeats]
    rfl
  found := by
    rw [h.log]
    refine ⟨fun queue messageID found he => ?_, ht.found⟩
    subst he
    rw [← ht.heartbeats]
    exact hf
  cancelled := fun ctx => by
    rw [h.cancelled, h.log]
    simp [ht.cancelled ctx]
  returned := fun item returned hmem => by
    rw [h.log] at hmem
    rcases List.mem_cons.mp hmem with rfl | hmem
    · exact hf
    · exact ht.returned item returned hmem

/-- An event that is permitted is correct. -/
theorem Tracked.correct (ht : Tracked client) (hf : Faithful client e)
    (hp : Permitted e client.log) : Correct e client.log := by
  cases e with
  | sent request =>
    rintro ⟨item, returned⟩ hclaim
    obtain ⟨hid, hkept⟩ := hp _ hclaim
    obtain ⟨hmem, -, hsame⟩ := lastClaim_mem hclaim
    obtain ⟨hattempt, hworker⟩ := ht.returned item returned hmem
    have htracked := hkept.replay_eq (hsame ▸ hid)
    rw [← ht.attempts, hsame] at htracked
    have hinfo :
        request.info = (client.request request.kind request.queue request.messageID).info :=
      congrArg Request.info hf
    simp only [NzovuClient.request, NzovuClient.getAttemptInfo, htracked, Option.getD_some,
      WorkItem.info] at hinfo
    refine ⟨by rw [hinfo, hattempt], fun hne => ?_⟩
    have hitem := hworker hne
    rw [hinfo]
    simp [hitem, hne]
  | stopped queue messageID found =>
    intro item hitem
    have hid := lastHeartbeat_messageID hitem
    have hfound : found = replay touchHeartbeat client.log messageID := ht.heartbeats ▸ hf
    rw [hfound, ← hid]
    rcases hp item hitem with hkept | ⟨hstopped, hvacated⟩
    · exact hkept.replay_eq ht.found
    · refine .inr ⟨?_, hstopped⟩
      rw [hid]
      exact Since.replay_eq (fun _ he => he) (fun _ he => he) hvacated
  | _ => trivial

end Effects

section Steps

variable (client : NzovuClient)

/-- What a step may do: log nothing, or an event that is faithful and, where the condition holds,
permitted. -/
def Effect (condition : Prop) (client client' : NzovuClient) : Prop :=
  Quiet client client' ∨
    ∃ e, Logs client client' e ∧ Faithful client e ∧ (condition → Permitted e client.log)

theorem effect_send (client' : NzovuClient) (hquiet : Quiet client client')
    (hworker : client'.workerID = client.workerID) (kind : RequestKind) (queue messageID : String)
    {condition : Prop} (h : condition → MaySend queue messageID client.log) :
    Effect condition client (client'.send kind queue messageID) := by
  have hrequest : client'.request kind queue messageID = client.request kind queue messageID := by
    simp only [NzovuClient.request, NzovuClient.getAttemptInfo, hquiet.attempts, hworker]
    rfl
  refine .inr ⟨.sent (client.request kind queue messageID), ?_, rfl, h⟩
  rw [NzovuClient.send, hrequest]
  exact ⟨congrArg _ hquiet.log, hquiet.attempts, hquiet.heartbeats, hquiet.cancelled⟩

theorem effect_stopHeartbeat (queue : Option String) (messageID : String) {condition : Prop}
    (h : condition → MayStop queue messageID client.log) :
    Effect condition client (client.stopHeartbeat queue messageID) :=
  .inr ⟨.stopped queue messageID (client.activeHeartbeats messageID), ⟨rfl, rfl, rfl, rfl⟩, rfl, h⟩

/-- Recording an attempt does to the map what the event says. -/
theorem recordAttemptInfo_attempts (item : WorkItem) (e : Event)
    (he : touchAttempt e =
      if item.messageID = "" then none else some (item.messageID, some item.info)) :
    (client.recordAttemptInfo item.messageID item.info).attemptTracker =
      applyEvent touchAttempt e client.attemptTracker := by
  rw [applyEvent, he, NzovuClient.recordAttemptInfo]
  split <;> rfl

theorem recordAttemptInfo_quiet (messageID : String) (info : AttemptInfo) :
    (client.recordAttemptInfo messageID info).log = client.log ∧
      (client.recordAttemptInfo messageID info).activeHeartbeats = client.activeHeartbeats ∧
      (client.recordAttemptInfo messageID info).cancelled = client.cancelled := by
  rw [NzovuClient.recordAttemptInfo]
  split <;> exact ⟨rfl, rfl, rfl⟩

theorem effect_claim (queue : String) (res : GetNextMessageResponse) (enableHeartbeat : Bool)
    (condition : Prop) : Effect condition client (client.claim queue res enableHeartbeat) := by
  simp only [NzovuClient.claim]
  generalize hworkerID : (if res.returned.workerID = "" then client.workerID
    else res.returned.workerID) = workerID
  generalize hknown : (if workerID ≠ "" ∧ client.workerIDDone = false then
    { client with workerID := workerID, workerIDDone := true } else client) = known
  have hquiet : Quiet client known := by
    subst hknown
    split <;> exact ⟨rfl, rfl, rfl, rfl⟩
  cases res.message with
  | none => exact .inl hquiet
  | some message =>
    let item : WorkItem :=
      ⟨known.nextCtx, queue, message.messageId, res.returned.attemptID, workerID⟩
    obtain ⟨hlog, hheartbeats, hcancelled⟩ := recordAttemptInfo_quiet known item.messageID item.info
    have hattempts := recordAttemptInfo_attempts known item (.claimed item res.returned) rfl
    rw [hquiet.attempts] at hattempts
    have hfaithful : Faithful client (.claimed item res.returned) := by
      refine ⟨rfl, fun hne => ?_⟩
      rw [if_neg hne] at hworkerID
      exact hworkerID.symm
    refine .inr ⟨.claimed item res.returned, ?_, hfaithful, fun _ => trivial⟩
    -- Whether a heartbeat follows makes no difference to the maps.
    cases enableHeartbeat <;>
      exact ⟨congrArg _ (hlog.trans hquiet.log), hattempts, hheartbeats.trans hquiet.heartbeats,
        hcancelled.trans hquiet.cancelled⟩

/-- **Step**: what each operation of a goroutine does. -/
theorem step_effect (opts : ClientOptions) (op : NzovuClient.Step) :
    Effect (Undisturbed opts client op) client (client.step opts op) := by
  cases op with
  | getNextMessage queue res enableHeartbeat =>
    exact effect_claim client queue res enableHeartbeat _
  | storeCancel i =>
    simp only [NzovuClient.step]
    split
    · exact .inr ⟨.cancelStored _, ⟨rfl, rfl, rfl, rfl⟩, trivial, fun _ => trivial⟩
    · exact .inl (.refl client)
  | sendWork i =>
    simp only [NzovuClient.step]
    split
    · split <;> exact .inl ⟨rfl, rfl, rfl, rfl⟩
    · exact .inl (.refl client)
  | receiveWork =>
    simp only [NzovuClient.step]
    split
    · exact .inl (.refl client)
    · split <;> exact .inl ⟨rfl, rfl, rfl, rfl⟩
  | recordWork w =>
    simp only [NzovuClient.step]
    split
    · rename_i item retryCount _
      split
      · let moved := client.moveWorker w ⟨item, .beating, retryCount⟩
        obtain ⟨hlog, hheartbeats, hcancelled⟩ :=
          recordAttemptInfo_quiet moved item.messageID item.info
        exact .inr ⟨.started item, ⟨congrArg _ hlog,
          recordAttemptInfo_attempts moved item (.started item) rfl, hheartbeats, hcancelled⟩,
          trivial, fun _ => trivial⟩
      · exact .inl ⟨rfl, rfl, rfl, rfl⟩
    · exact .inl (.refl client)
  | tick w ok =>
    simp only [NzovuClient.step]
    split
    · rename_i item retryCount hworker
      split
      · exact .inl ⟨rfl, rfl, rfl, rfl⟩
      · rename_i hretry
        let moved := client.moveWorker w ⟨item, .beating, if ok then 0 else retryCount + 1⟩
        refine effect_send client moved ⟨rfl, rfl, rfl, rfl⟩ rfl _ _ _ fun h => ?_
        exact h _ (Option.mem_def.mpr hworker) rfl (by simpa using hretry)
    · exact .inl (.refl client)
  | contextDone w =>
    simp only [NzovuClient.step]
    split
    · split <;> exact .inl ⟨rfl, rfl, rfl, rfl⟩
    · exact .inl (.refl client)
  | deleteHeartbeat w =>
    simp only [NzovuClient.step]
    split
    · exact .inr ⟨.ended _, ⟨rfl, rfl, rfl, rfl⟩, trivial, fun _ => trivial⟩
    · exact .inl (.refl client)
  | acknowledge queue messageID =>
    rcases effect_stopHeartbeat client (some queue) messageID (fun h => h) with hquiet | hevent
    · exact .inl ⟨hquiet.log, hquiet.attempts, hquiet.heartbeats, hquiet.cancelled⟩
    · obtain ⟨e, hlogs, hrest⟩ := hevent
      exact .inr ⟨e, ⟨hlogs.log, hlogs.attempts, hlogs.heartbeats, hlogs.cancelled⟩, hrest⟩
  | sendAck a =>
    simp only [NzovuClient.step]
    split
    · rename_i queue messageID hcall
      let moved : NzovuClient := { client with acks := client.acks.set a ⟨queue, messageID, true⟩ }
      refine effect_send client moved ⟨rfl, rfl, rfl, rfl⟩ rfl _ _ _ fun h => ?_
      exact h _ (Option.mem_def.mpr hcall) rfl
    · exact .inl (.refl client)
  | ackAnswered a ok =>
    simp only [NzovuClient.step]
    split
    · rename_i queue messageID _
      split
      · refine .inr ⟨.acknowledged messageID, ?_, trivial, fun _ => trivial⟩
        rw [NzovuClient.clearAttemptInfo]
        split
        · rename_i hempty
          refine ⟨rfl, ?_, rfl, rfl⟩
          simp [applyEvent, touchAttempt, hempty, NzovuClient.logged]
        · rename_i hid
          refine ⟨rfl, ?_, rfl, rfl⟩
          simp [applyEvent, touchAttempt, hid, NzovuClient.logged]
      · exact .inl ⟨rfl, rfl, rfl, rfl⟩
    · exact .inl (.refl client)
  | renew queue messageID =>
    exact effect_send client client (.refl client) rfl _ _ _ fun h => h
  | sendHeartbeat queue messageID =>
    exact effect_send client client (.refl client) rfl _ _ _ fun h => h
  | stopHeartbeat messageID => exact effect_stopHeartbeat client none messageID fun h => h

theorem Tracked.step {client : NzovuClient} (ht : Tracked client) (opts : ClientOptions)
    (op : NzovuClient.Step) : Tracked (client.step opts op) := by
  rcases step_effect client opts op with hquiet | ⟨e, hlogs, hfaithful, -⟩
  · exact ht.quiet hquiet
  · exact ht.logs hlogs hfaithful

/-- An undisturbed step logs a correct event, if any. -/
theorem allCorrect_step {client : NzovuClient} (ht : Tracked client)
    (hcorrect : AllCorrect client.log) {opts : ClientOptions} {op : NzovuClient.Step}
    (h : Undisturbed opts client op) : AllCorrect (client.step opts op).log := by
  rcases step_effect client opts op with hquiet | ⟨e, hlogs, hfaithful, hpermitted⟩
  · rw [hquiet.log]
    exact hcorrect
  · rw [hlogs.log]
    exact ⟨ht.correct hfaithful (hpermitted h), hcorrect⟩

end Steps

/-! ## Section 4: What a run preserves -/

/-- **Attempt tracking**: in every run whose steps are undisturbed, at every state of it, every
request has carried the ids of the most recent claim of its message, and every stop has cancelled
the heartbeat of the most recent claim with heartbeats and no other; nothing else cancels one. -/
theorem allCorrect_of_undisturbed (opts : ClientOptions) (ops : List NzovuClient.Step)
    (h : Follows (NzovuClient.step opts) (Undisturbed opts) .new ops) :
    ∀ xs, xs <+: ops →
      AllCorrect (runFrom (NzovuClient.step opts) .new xs).log ∧
      ∀ ctx, ctx ∈ (runFrom (NzovuClient.step opts) .new xs).cancelled ↔
        ∃ e ∈ (runFrom (NzovuClient.step opts) .new xs).log, e.cancels = some ctx := by
  rintro xs ⟨ys, rfl⟩
  have hrun := invariant_runFrom (NzovuClient.step opts)
    (fun client => Tracked client ∧ AllCorrect client.log)
    (fun client op hinv hop => ⟨hinv.1.step opts op, allCorrect_step hinv.1 hinv.2 hop⟩)
    ⟨tracked_new, trivial⟩ (follows_append (NzovuClient.step opts) |>.mp h).1
  exact ⟨hrun.2, hrun.1.cancelled⟩

/-- A claim whose heartbeat runs once, is stopped by the acknowledgement and cleans up after it. -/
theorem allCorrect_of_undisturbed_acknowledged :
    AllCorrect (runFrom (NzovuClient.step ⟨10, 10⟩) .new
      [.getNextMessage "q" ⟨"w", "x", some ⟨"m", none⟩⟩ true, .storeCancel 0, .sendWork 0,
        .receiveWork, .recordWork 0, .tick 0 true, .acknowledge "q" "m", .sendAck 0,
        .ackAnswered 0 true, .contextDone 0, .deleteHeartbeat 0]).log :=
  (allCorrect_of_undisturbed ⟨10, 10⟩ _ (by decide) _ (List.prefix_refl _)).1

/-- A claim from another queue of a message with an equal id: the request for the first message
carries the attempt of the second. -/
theorem not_allCorrect :
    ¬ ∀ (opts : ClientOptions) (ops : List NzovuClient.Step) (xs : List NzovuClient.Step),
      xs <+: ops → AllCorrect (runFrom (NzovuClient.step opts) .new xs).log := by
  intro h
  have hsent := (h ⟨10, 10⟩
    [.getNextMessage "a" ⟨"w", "x", some ⟨"m", none⟩⟩ false,
      .getNextMessage "b" ⟨"w", "y", some ⟨"m", none⟩⟩ false, .renew "a" "m"]
    _ (List.prefix_refl _)).1
  have hcarries := hsent (⟨0, "a", "m", "x", "w"⟩, ⟨"x", "w"⟩) (by decide)
  exact absurd hcarries.1 (by decide)

end Nzovu.Client
