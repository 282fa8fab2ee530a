import Nzovu.Foundation.Run
import Nzovu.Schedules.Changes
import Nzovu.Schedules.Operations

/-!
# The Life of a Schedule

Schedules under any sequence of committed calls: `CreateSchedule`, `PauseSchedule`,
`ResumeSchedule`, `DeleteSchedule` and `processSchedule` of the two processors. Each call concerns
one id; what has happened to the id is kept in a log.

- Section 1: calls.
- Section 2: all that a call can do.
- Section 3: runs.
-/

namespace Nzovu.Schedules

open Nzovu.Foundation
open Nzovu.Repository

/-! ## Section 1: Calls -/

/-- What is done to the schedule with some id, with all that the call meets outside the row. -/
inductive ScheduleCall where
  | create (ctx : CreateContext) (metadata : Option ScheduleMetadata)
  | pause (nowMs : Int)
  | resume (nowMs : Int)
  | delete
  | cron (c : Circumstances) (insert : RunRequest → Except CreateError (Created Unit))
  | calendar (backend : Backend) (engine : EngineCall) (c : Circumstances)
      (insert : RunRequest → Except CreateError (Created Unit)) (nowMs : Int)

/-- What has happened to a schedule. -/
inductive ScheduleEvent where
  | created (row : ScheduleRow)
  | paused
  | resumed
  | deleted
  /-- The message of the run at an instant, in nanoseconds, was inserted. -/
  | fired (runTime : Int)
deriving DecidableEq, Repr

/-- What a call commits: the row, if there is one afterwards, and an event. -/
structure Outcome where
  row : Option ScheduleRow
  event : Option ScheduleEvent
deriving DecidableEq, Repr

/-- The outcome of an operator's call. -/
def Outcome.ofResult (event : ScheduleRow → ScheduleEvent) :
    Except RequestError ScheduleRow → Option Outcome
  | .ok row => some ⟨some row, some (event row)⟩
  | .error _ => none

/-- The outcome of a processor's transaction. -/
def Processed.outcome {σ : Type} : Processed σ → Option Outcome
  | .committed row _ fired => some ⟨some row, fired.map fun insertion => .fired insertion.1.runTime⟩
  | .failed _ => none
  | .unchanged => none

/-- What the call commits when the id has the row `row`. -/
def ScheduleCall.apply (parse : CronParser) (id : String) :
    ScheduleCall → Option ScheduleRow → Option Outcome
  | .create ctx metadata, existing =>
    Outcome.ofResult .created (createSchedule parse ctx (some ⟨id, metadata⟩) existing)
  | .pause nowMs, some row => Outcome.ofResult (fun _ => .paused) (pauseSchedule nowMs row)
  | .resume nowMs, some row => Outcome.ofResult (fun _ => .resumed) (resumeSchedule nowMs row)
  | .delete, some _ => some ⟨none, some .deleted⟩
  | .cron c insert, some row => (CronProcessorService.processSchedule parse c insert id row).outcome
  | .calendar backend engine c insert nowMs, some row =>
    (CalendarService.processSchedule backend engine c insert id row nowMs).outcome
  -- without a row the operators get `scheduleNotFound`, and the processors have nothing to do
  | _, none => none

/-- An id: its row, and what has happened to it, the latest first. -/
structure Slot where
  row : Option ScheduleRow := none
  log : List ScheduleEvent := []
deriving DecidableEq, Repr

/-- One call on an id. -/
def Slot.step (parse : CronParser) (id : String) (slot : Slot) (call : ScheduleCall) : Slot :=
  match call.apply parse id slot.row with
  | none => slot
  | some outcome => { row := outcome.row, log := outcome.event.toList ++ slot.log }

/-! ## Section 2: All that a call can do -/

/-- What an accepted `CreateSchedule` has checked, and the metadata it stores. -/
structure Accepted (parse : CronParser) (ctx : CreateContext)
    (request metadata : ScheduleMetadata) : Prop where
  valid : validateRequest parse ctx request = .ok ()
  firstRun : scheduleFirstRun ctx request = .ok metadata

theorem runtimeFields_eq_nil {metadata : ScheduleMetadata} (h : runtimeFields metadata = []) :
    metadata.state = .scheduled ∧ metadata.nextRun = none ∧ metadata.lastRun = none := by
  simp only [runtimeFields, serverManagedFields, List.map_eq_nil_iff, List.filter_eq_nil_iff,
    List.mem_cons, List.not_mem_nil, or_false, forall_eq_or_imp, forall_eq, ne_eq,
    decide_not, Bool.not_eq_true', decide_eq_false_iff_not, Decidable.not_not] at h
  exact ⟨h.1, h.2.2.1, h.2.2.2.1⟩

theorem validateRequest_ok {parse : CronParser} {ctx : CreateContext} {metadata : ScheduleMetadata}
    (h : validateRequest parse ctx metadata = .ok ()) :
    runtimeFields metadata = [] ∧ (metadata.hasMaxMessages = true → 0 < metadata.maxMessages) := by
  unfold validateRequest at h
  split at h
  · cases h
  next hfields =>
    refine ⟨Decidable.not_not.mp hfields, fun hmax => ?_⟩
    split at h
    · cases h
    · cases hqueue : ctx.queueError with
      | some err => simp [hqueue] at h
      | none =>
        simp only [hqueue] at h
        split at h
        · cases h
        · split at h
          · cases h
          · split at h
            · cases h
            next hpositive =>
              exact Int.not_le.mp fun hle => hpositive ⟨hmax, hle⟩

/-- A schedule starts without runs, and with a positive message limit if it has one. -/
theorem Accepted.fresh {parse : CronParser} {ctx : CreateContext}
    {request metadata : ScheduleMetadata} (h : Accepted parse ctx request metadata) :
    request.state = .scheduled ∧ request.nextRun = none ∧ request.lastRun = none :=
  runtimeFields_eq_nil (validateRequest_ok h.valid).1

/-- What is stored: the request as it is, for a cron schedule; with its first run, or paused for
lack of one, for a calendar schedule. -/
theorem Accepted.stored {parse : CronParser} {ctx : CreateContext}
    {request metadata : ScheduleMetadata} (h : Accepted parse ctx request metadata) :
    (request.calendarSchedule = none ∧ metadata = request) ∨
      (∃ nextRun, request.calendarSchedule ≠ none ∧
        metadata = { request with nextRun := some nextRun }) ∨
        metadata = { request with state := .paused, stateMessage := "no future runs" } := by
  have hfirst := h.firstRun
  unfold scheduleFirstRun at hfirst
  cases hconfig : request.calendarSchedule with
  | none =>
    simp only [hconfig, Except.ok.injEq] at hfirst
    exact .inl ⟨rfl, hfirst.symm⟩
  | some schedule =>
    simp only [hconfig] at hfirst
    cases hvalid : ctx.engine.validate schedule with
    | some err => simp [hvalid] at hfirst
    | none =>
      simp only [hvalid] at hfirst
      cases hnext : ctx.engine.nextRun schedule ctx.now with
      | ok nextRun =>
        simp only [hnext, Except.ok.injEq] at hfirst
        exact .inr (.inl ⟨nextRun, nofun, hfirst.symm⟩)
      | error stop =>
        cases stop with
        | loops => simp [hnext] at hfirst
        | error err =>
          simp only [hnext] at hfirst
          split at hfirst
          · exact .inr (.inr (Except.ok.inj hfirst).symm)
          · cases hfirst

theorem createSchedule_ok {parse : CronParser} {ctx : CreateContext} {schedule : Option Schedule}
    {existing : Option ScheduleRow} {row : ScheduleRow}
    (h : createSchedule parse ctx schedule existing = .ok row) :
    existing = none ∧ ∃ request metadata, Accepted parse ctx request metadata ∧
      row = newScheduleRow metadata ctx.nowMs := by
  unfold createSchedule at h
  cases schedule with
  | none => cases h
  | some schedule =>
    simp only at h
    split at h
    · cases h
    · cases hmetadata : schedule.metadata with
      | none => simp [hmetadata] at h
      | some request =>
        cases hrequest : validateRequest parse ctx request with
        | error err => simp [hmetadata, hrequest] at h
        | ok u =>
          cases hfirst : scheduleFirstRun ctx request with
          | error err => simp [hmetadata, hrequest, hfirst] at h
          | ok metadata =>
            simp only [hmetadata, hrequest, hfirst] at h
            cases hencrypt : ctx.encryptError with
            | some text => simp [hencrypt] at h
            | none =>
              cases existing with
              | some other => simp [hencrypt] at h
              | none =>
                simp only [hencrypt, Except.ok.injEq] at h
                exact ⟨rfl, request, metadata, ⟨hrequest, hfirst⟩, h.symm⟩

theorem pauseSchedule_ok {nowMs : Int} {row row' : ScheduleRow}
    (h : pauseSchedule nowMs row = .ok row') :
    row.state = .scheduled ∧ row' =
      { row with
        state := .paused
        metadata := { row.metadata with state := .paused, updatedAt := some (ofUnixMilli nowMs) }
        updatedAt := nowMs } := by
  unfold pauseSchedule at h
  split at h
  · cases h
  next hstate => exact ⟨Decidable.not_not.mp hstate, (Except.ok.inj h).symm⟩

theorem resumeSchedule_ok {nowMs : Int} {row row' : ScheduleRow}
    (h : resumeSchedule nowMs row = .ok row') :
    row.state = .paused ∧ row' =
      { row with
        state := .scheduled
        metadata := { row.metadata with
          state := .scheduled
          stateMessage := ""
          updatedAt := some (ofUnixMilli nowMs) }
        executionCount := 0
        updatedAt := nowMs } := by
  unfold resumeSchedule at h
  split at h
  · cases h
  next hstate => exact ⟨Decidable.not_not.mp hstate, (Except.ok.inj h).symm⟩

theorem resumeSchedule_of_paused (nowMs : Int) {row : ScheduleRow} (h : row.state = .paused) :
    ∃ row', resumeSchedule nowMs row = .ok row' := by
  simp [resumeSchedule, h]

/-- All that a call can do to an id. -/
inductive Transition (parse : CronParser) (id : String) :
    ScheduleCall → Option ScheduleRow → Outcome → Prop where
  | created {ctx : CreateContext} {metadata : Option ScheduleMetadata}
      {request stored : ScheduleMetadata} (haccepted : Accepted parse ctx request stored) :
      Transition parse id (.create ctx metadata) none
        ⟨some (newScheduleRow stored ctx.nowMs), some (.created (newScheduleRow stored ctx.nowMs))⟩
  | paused {nowMs : Int} {row row' : ScheduleRow} (hpause : pauseSchedule nowMs row = .ok row') :
      Transition parse id (.pause nowMs) (some row) ⟨some row', some .paused⟩
  | resumed {nowMs : Int} {row row' : ScheduleRow} (hresume : resumeSchedule nowMs row = .ok row') :
      Transition parse id (.resume nowMs) (some row) ⟨some row', some .resumed⟩
  | deleted (row : ScheduleRow) :
      Transition parse id .delete (some row) ⟨none, some .deleted⟩
  | cron {c : Circumstances} {insert : RunRequest → Except CreateError (Created Unit)}
      {row row' : ScheduleRow} {history : List HistoryRow}
      {fired : Option (RunRequest × Created Unit)}
      (hchange : CronProcessorService.Change parse c insert id row row' history fired) :
      Transition parse id (.cron c insert) (some row)
        ⟨some row', fired.map fun insertion => .fired insertion.1.runTime⟩
  | calendar {backend : Backend} {engine : EngineCall} {c : Circumstances}
      {insert : RunRequest → Except CreateError (Created Unit)} {nowMs : Int}
      {row row' : ScheduleRow} {history : List HistoryRow}
      {fired : Option (RunRequest × Created Unit)}
      (hchange : CalendarService.Change engine c insert id row nowMs row' history fired) :
      Transition parse id (.calendar backend engine c insert nowMs) (some row)
        ⟨some row', fired.map fun insertion => .fired insertion.1.runTime⟩

theorem Processed.outcome_eq_some {σ : Type} {processed : Processed σ} {outcome : Outcome} :
    processed.outcome = some outcome ↔ ∃ row history fired,
      processed = .committed row history fired ∧
        outcome = ⟨some row, fired.map fun insertion => .fired insertion.1.runTime⟩ := by
  cases processed <;> simp [Processed.outcome, eq_comm]

theorem Outcome.ofResult_eq_some {event : ScheduleRow → ScheduleEvent}
    {result : Except RequestError ScheduleRow} {outcome : Outcome} :
    Outcome.ofResult event result = some outcome ↔
      ∃ row, result = .ok row ∧ outcome = ⟨some row, some (event row)⟩ := by
  cases result <;> simp [Outcome.ofResult, eq_comm]

/-- **Inversion**: what a call commits is one of the transitions. -/
theorem transition_of_apply {parse : CronParser} {id : String} {call : ScheduleCall}
    {row : Option ScheduleRow} {outcome : Outcome}
    (h : call.apply parse id row = some outcome) : Transition parse id call row outcome := by
  cases call with
  | create ctx metadata =>
    simp only [ScheduleCall.apply] at h
    obtain ⟨created, hcreate, rfl⟩ := Outcome.ofResult_eq_some.mp h
    obtain ⟨rfl, request, stored, haccepted, rfl⟩ := createSchedule_ok hcreate
    exact .created haccepted
  | pause nowMs =>
    cases row with
    | none => cases h
    | some row =>
      simp only [ScheduleCall.apply] at h
      obtain ⟨row', hpause, rfl⟩ := Outcome.ofResult_eq_some.mp h
      exact .paused hpause
  | resume nowMs =>
    cases row with
    | none => cases h
    | some row =>
      simp only [ScheduleCall.apply] at h
      obtain ⟨row', hresume, rfl⟩ := Outcome.ofResult_eq_some.mp h
      exact .resumed hresume
  | delete =>
    cases row with
    | none => cases h
    | some row =>
      cases h
      exact .deleted row
  | cron c insert =>
    cases row with
    | none => cases h
    | some row =>
      simp only [ScheduleCall.apply] at h
      obtain ⟨row', history, fired, hcommit, rfl⟩ := Processed.outcome_eq_some.mp h
      exact .cron (CronProcessorService.change_of_committed hcommit)
  | calendar backend engine c insert nowMs =>
    cases row with
    | none => cases h
    | some row =>
      simp only [ScheduleCall.apply] at h
      obtain ⟨row', history, fired, hcommit, rfl⟩ := Processed.outcome_eq_some.mp h
      exact .calendar (CalendarService.change_of_committed hcommit)

/-- What every transition preserves, every call preserves. -/
theorem Slot.step_induction {parse : CronParser} {id : String} {slot : Slot} {call : ScheduleCall}
    {inv : Slot → Prop} (hinv : inv slot)
    (h : ∀ outcome, Transition parse id call slot.row outcome →
      inv { row := outcome.row, log := outcome.event.toList ++ slot.log }) :
    inv (slot.step parse id call) := by
  unfold Slot.step
  cases happly : call.apply parse id slot.row with
  | none => exact hinv
  | some outcome => exact h outcome (transition_of_apply happly)

theorem Slot.step_of_apply {parse : CronParser} {id : String} {slot : Slot} {call : ScheduleCall}
    {outcome : Outcome} (h : call.apply parse id slot.row = some outcome) :
    slot.step parse id call = { row := outcome.row, log := outcome.event.toList ++ slot.log } := by
  simp only [Slot.step, h]

/-! ## Section 3: Runs -/

/-- One call, with the id it is for. -/
abbrev ScheduleOp := String × ScheduleCall

/-- All ids. -/
abbrev Slots := String → Slot

/-- One call. -/
def stepSchedules (parse : CronParser) : Slots → ScheduleOp → Slots :=
  stepFamily (Slot.step parse)

/-- The calls, one after another, from the empty table on. -/
def runSchedules (parse : CronParser) (ops : List ScheduleOp) : Slots :=
  runFrom (stepSchedules parse) (fun _ => {}) ops

/-- Every call of the run meets `cond` on the slot of its id. -/
def FollowsSchedules (parse : CronParser) (cond : Slot → ScheduleCall → Prop)
    (ops : List ScheduleOp) : Prop :=
  Follows (stepSchedules parse) (fun slots op => cond (slots op.1) op.2) (fun _ => {}) ops

/-- **Run rule**: what every admitted call preserves of a slot holds of every slot of a run. -/
theorem invariant_runSchedules {parse : CronParser} {cond : Slot → ScheduleCall → Prop}
    (inv : Slot → Prop) (hinit : inv {})
    (hstep : ∀ id slot call, inv slot → cond slot call → inv (slot.step parse id call))
    {ops : List ScheduleOp} (h : FollowsSchedules parse cond ops) (id : String) :
    inv (runSchedules parse ops id) :=
  invariant_runFamily (Slot.step parse) (fun _ => inv) hstep (fun _ => hinit) h id

/-- The run rule for calls without a condition. -/
theorem invariant_runSchedules' {parse : CronParser} (inv : Slot → Prop) (hinit : inv {})
    (hstep : ∀ id slot call, inv slot → inv (slot.step parse id call)) (ops : List ScheduleOp)
    (id : String) : inv (runSchedules parse ops id) := by
  have hfollows : FollowsSchedules parse (fun _ _ => True) ops :=
    follows_of_forall (stepSchedules parse) (fun _ _ => trivial) _ ops
  exact invariant_runSchedules inv hinit (fun id slot call h _ => hstep id slot call h) hfollows id

end Nzovu.Schedules
