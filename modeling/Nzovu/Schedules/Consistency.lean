import Nzovu.Calendar.Transparency
import Nzovu.Schedules.Lifecycle

/-!
# Columns and Metadata

The columns `state`, `next_run` and `last_run` of a schedule repeat its metadata. Whether they still
agree after a call, and whether a SCHEDULED calendar schedule still has a next run, is decided by
three of the calls alone; Section 3 says when they break it.
-/

namespace Nzovu.Schedules

open Nzovu.Foundation
open Nzovu.Repository

/-! ## Section 1: Consistent rows -/

/-- The columns agree with the metadata, and a SCHEDULED calendar schedule is selected as due once
its next run has passed. -/
structure ScheduleRow.Consistent (row : ScheduleRow) : Prop where
  state : row.state = row.metadata.state
  nextRun : row.nextRun = row.metadata.nextRun.map unixMilli
  lastRun : row.lastRun = row.metadata.lastRun.map unixMilli
  selected : row.state = .scheduled → row.metadata.calendarSchedule ≠ none →
    ∃ nextRun, row.nextRun = some nextRun ∧
      ∀ nowMs, nextRun ≤ nowMs → CalendarService.selects row nowMs = true

/-- A calendar schedule has no cron expression. -/
def ScheduleRow.Typed (row : ScheduleRow) : Prop :=
  row.metadata.calendarSchedule ≠ none → row.cronSchedule = none

theorem ScheduleRow.Typed.selected {row : ScheduleRow} (h : row.Typed)
    (hnext : row.state = .scheduled → row.metadata.calendarSchedule ≠ none → row.nextRun ≠ none)
    (hstate : row.state = .scheduled) (hcalendar : row.metadata.calendarSchedule ≠ none) :
    ∃ nextRun, row.nextRun = some nextRun ∧
      ∀ nowMs, nextRun ≤ nowMs → CalendarService.selects row nowMs = true := by
  obtain ⟨nextRun, hnextRun⟩ := Option.ne_none_iff_exists'.mp (hnext hstate hcalendar)
  refine ⟨nextRun, hnextRun, fun nowMs hpassed => ?_⟩
  simp [CalendarService.selects, hstate, hnextRun, hpassed, h hcalendar]

/-- The row of the slot, if it has one, satisfies `P`. -/
def Slot.All (P : ScheduleRow → Prop) (slot : Slot) : Prop :=
  ∀ row, slot.row = some row → P row

theorem Slot.all_empty (P : ScheduleRow → Prop) : Slot.All P {} :=
  fun _ h => by cases h

theorem Slot.all_some {P : ScheduleRow → Prop} {row : ScheduleRow} {log : List ScheduleEvent} :
    Slot.All P ⟨some row, log⟩ ↔ P row :=
  ⟨fun h => h row rfl, fun h _ heq => Option.some.inj heq ▸ h⟩

/-! ## Section 2: What the calls keep -/

section

variable (metadata : ScheduleMetadata) (executionCount runTime nextRun updatedAt : Int)
  (stateMessage message : String)

@[simp] theorem ScheduleMetadata.fire_nextRun :
    (metadata.fire executionCount runTime nextRun stateMessage updatedAt).nextRun =
      some nextRun := rfl

@[simp] theorem ScheduleMetadata.fire_lastRun :
    (metadata.fire executionCount runTime nextRun stateMessage updatedAt).lastRun =
      some runTime := by
  simp only [ScheduleMetadata.fire]
  split <;> rfl

@[simp] theorem ScheduleMetadata.fire_config :
    (metadata.fire executionCount runTime nextRun stateMessage updatedAt).config =
      metadata.config := by
  simp only [ScheduleMetadata.fire]
  split <;> rfl

@[simp] theorem ScheduleMetadata.failWith_config :
    (metadata.failWith message updatedAt).config = metadata.config := rfl

end

theorem ScheduleMetadata.calendarSchedule_congr {metadata metadata' : ScheduleMetadata}
    (h : metadata'.config = metadata.config) :
    metadata'.calendarSchedule = metadata.calendarSchedule := by
  simp only [ScheduleMetadata.calendarSchedule, h]

/-- Apart from an empty metadata, a call changes neither the configuration nor the column. -/
theorem ScheduleRow.Typed.congr {row row' : ScheduleRow} (h : row.Typed)
    (hconfig : row'.metadata.config = row.metadata.config)
    (hcolumn : row'.cronSchedule = row.cronSchedule) : row'.Typed := by
  intro hcalendar
  rw [ScheduleMetadata.calendarSchedule_congr hconfig] at hcalendar
  rw [hcolumn, h hcalendar]

theorem typed_newScheduleRow (metadata : ScheduleMetadata) (nowMs : Int) :
    (newScheduleRow metadata nowMs).Typed := by
  intro hcalendar
  have hcron : metadata.cronSchedule = "" := by
    cases hconfig : metadata.config with
    | none => simp [ScheduleMetadata.cronSchedule, hconfig]
    | some config =>
      cases config with
      | cron expression =>
        simp [newScheduleRow, ScheduleMetadata.calendarSchedule, hconfig] at hcalendar
      | calendar schedule => simp [ScheduleMetadata.cronSchedule, hconfig]
  simp [newScheduleRow, hcron]

/-- The type of a row never changes. -/
theorem typed_step {parse : CronParser} {id : String} {slot : Slot} {call : ScheduleCall}
    (h : slot.All ScheduleRow.Typed) : (slot.step parse id call).All ScheduleRow.Typed := by
  refine Slot.step_induction h fun outcome htransition => ?_
  obtain ⟨row, log⟩ := slot
  cases htransition with
  | created haccepted => exact Slot.all_some.mpr (typed_newScheduleRow _ _)
  | paused hpause =>
    have htyped := Slot.all_some.mp h
    obtain ⟨-, rfl⟩ := pauseSchedule_ok hpause
    exact Slot.all_some.mpr (htyped.congr rfl rfl)
  | resumed hresume =>
    have htyped := Slot.all_some.mp h
    obtain ⟨-, rfl⟩ := resumeSchedule_ok hresume
    exact Slot.all_some.mpr (htyped.congr rfl rfl)
  | deleted row => exact fun _ heq => by cases heq
  | cron hchange =>
    have htyped := Slot.all_some.mp h
    cases hchange with
    | missing hstate hcolumn hencrypt =>
      exact Slot.all_some.mpr fun hcalendar => absurd rfl hcalendar
    | limited hstate hlimit => exact Slot.all_some.mpr (htyped.congr rfl rfl)
    | rejected hstate message => exact Slot.all_some.mpr (htyped.congr rfl rfl)
    | planned hready hnext => exact Slot.all_some.mpr (htyped.congr rfl rfl)
    | fired hfires =>
      exact Slot.all_some.mpr (htyped.congr (ScheduleMetadata.fire_config ..) rfl)
  | calendar hchange =>
    have htyped := Slot.all_some.mp h
    cases hchange with
    | limited hstate hlimit => exact Slot.all_some.mpr (htyped.congr rfl rfl)
    | rejected hstate message => exact Slot.all_some.mpr (htyped.congr rfl rfl)
    | fired hfires hnext =>
      exact Slot.all_some.mpr (htyped.congr (ScheduleMetadata.fire_config ..) rfl)
    | firedLast hfires hnext => exact Slot.all_some.mpr (htyped.congr rfl rfl)

/-! ## Section 3: When the columns stay consistent -/

/-- The condition on a call: a calendar schedule is resumed only with a next run, a cron processor
does not find a row without an expression that has run before, and after a calendar run there is a
next one. -/
def KeepsColumns (slot : Slot) : ScheduleCall → Prop
  | .resume _ => ∀ row, slot.row = some row → row.state = .paused →
      row.metadata.calendarSchedule ≠ none → row.nextRun ≠ none
  | .cron c _ => ∀ row, slot.row = some row → row.state = .scheduled →
      (row.cronSchedule = none ∨ row.cronSchedule = some "") → c.encryptError = none →
        row.lastRun = none
  | .calendar _ engine c insert nowMs => ∀ row, slot.row = some row →
      ∀ nextRun schedule created, CalendarService.Fires c engine insert row nowMs nextRun schedule
        created → ∀ err, engine.nextRun schedule (ofUnixMilli nextRun) = .error (.error err) →
          row.lastRun = some nextRun
  | _ => True

theorem consistent_newScheduleRow {parse : CronParser} {ctx : CreateContext}
    {request stored : ScheduleMetadata} (h : Accepted parse ctx request stored) :
    (newScheduleRow stored ctx.nowMs).Consistent := by
  refine ⟨rfl, rfl, rfl, (typed_newScheduleRow stored ctx.nowMs).selected ?_⟩
  intro hstate hcalendar
  rcases h.stored with ⟨hnone, rfl⟩ | ⟨nextRun, -, rfl⟩ | rfl
  · exact absurd hnone hcalendar
  · simp [newScheduleRow]
  · cases hstate

/-- An error clears the next run in both places and leaves the last run. -/
theorem ScheduleRow.Consistent.failWith {row' : ScheduleRow} {metadata : ScheduleMetadata}
    {message : String} {updatedAt : Int}
    (hmetadata : row'.metadata = metadata.failWith message updatedAt)
    (hstate : row'.state = .errored) (hnext : row'.nextRun = none)
    (hlast : row'.lastRun = metadata.lastRun.map unixMilli) : row'.Consistent where
  state := by rw [hstate, hmetadata]; rfl
  nextRun := by rw [hnext, hmetadata]; rfl
  lastRun := by rw [hlast, hmetadata]; rfl
  selected := by
    intro hscheduled
    rw [hstate] at hscheduled
    cases hscheduled

theorem consistent_of_cron {parse : CronParser} {c : Circumstances}
    {insert : RunRequest → Except CreateError (Created Unit)} {id : String}
    {row row' : ScheduleRow} {history : List HistoryRow}
    {fired : Option (RunRequest × Created Unit)}
    (hchange : CronProcessorService.Change parse c insert id row row' history fired)
    (htyped : row.Typed) (h : row.Consistent)
    (hmissing : row.state = .scheduled →
      (row.cronSchedule = none ∨ row.cronSchedule = some "") → c.encryptError = none →
        row.lastRun = none) :
    row'.Consistent := by
  cases hchange with
  | missing hstate hcolumn hencrypt =>
    exact ScheduleRow.Consistent.failWith rfl rfl rfl (hmissing hstate hcolumn hencrypt)
  | limited hstate hlimit =>
    exact ⟨rfl, rfl, h.lastRun, fun hscheduled => by cases hscheduled⟩
  | rejected hstate message => exact ScheduleRow.Consistent.failWith rfl rfl rfl h.lastRun
  | @planned next hready hnext =>
    have htyped' : (CronProcessorService.plannedRow c row (next (c.clock 1))).Typed :=
      htyped.congr rfl rfl
    exact ⟨h.state, rfl, h.lastRun,
      htyped'.selected fun _ _ => by simp [CronProcessorService.plannedRow]⟩
  | @fired next nextRun created hfires =>
    have htyped' : (CronProcessorService.firedRow c row (ofUnixMilli nextRun)
        (next (ofUnixMilli nextRun))).Typed :=
      htyped.congr (ScheduleMetadata.fire_config ..) rfl
    refine ⟨rfl, ?_, ?_, htyped'.selected fun _ _ => ?_⟩ <;> simp [CronProcessorService.firedRow]

theorem consistent_of_calendar {engine : EngineCall} {c : Circumstances}
    {insert : RunRequest → Except CreateError (Created Unit)} {id : String}
    {row row' : ScheduleRow} {nowMs : Int} {history : List HistoryRow}
    {fired : Option (RunRequest × Created Unit)}
    (hchange : CalendarService.Change engine c insert id row nowMs row' history fired)
    (htyped : row.Typed) (h : row.Consistent)
    (hlast : ∀ nextRun schedule created,
      CalendarService.Fires c engine insert row nowMs nextRun schedule created →
        ∀ err, engine.nextRun schedule (ofUnixMilli nextRun) = .error (.error err) →
          row.lastRun = some nextRun) :
    row'.Consistent := by
  cases hchange with
  | limited hstate hlimit =>
    exact ⟨rfl, h.nextRun, h.lastRun, fun hscheduled => by cases hscheduled⟩
  | rejected hstate message => exact ScheduleRow.Consistent.failWith rfl rfl rfl h.lastRun
  | @fired nextRun schedule created t hfires hnext =>
    have htyped' : (CalendarService.firedRow row nowMs (ofUnixMilli nextRun) t).Typed :=
      htyped.congr (ScheduleMetadata.fire_config ..) rfl
    refine ⟨rfl, ?_, ?_, htyped'.selected fun _ _ => ?_⟩ <;> simp [CalendarService.firedRow]
  | @firedLast nextRun schedule created err hfires hnext =>
    have hlastRun : row.lastRun = some nextRun := hlast nextRun schedule created hfires err hnext
    refine ScheduleRow.Consistent.failWith rfl rfl rfl ?_
    simp [CalendarService.errorRow, hlastRun]

/-- Under the condition a call keeps the row consistent. -/
theorem consistent_step {parse : CronParser} {id : String} {slot : Slot} {call : ScheduleCall}
    (htyped : slot.All ScheduleRow.Typed) (h : slot.All ScheduleRow.Consistent)
    (hkeeps : KeepsColumns slot call) :
    (slot.step parse id call).All ScheduleRow.Consistent := by
  refine Slot.step_induction h fun outcome htransition => ?_
  obtain ⟨row, log⟩ := slot
  cases htransition with
  | created haccepted => exact Slot.all_some.mpr (consistent_newScheduleRow haccepted)
  | @paused nowMs row row' hpause =>
    have hrow := Slot.all_some.mp h
    obtain ⟨-, rfl⟩ := pauseSchedule_ok hpause
    exact Slot.all_some.mpr
      ⟨rfl, hrow.nextRun, hrow.lastRun, fun hscheduled => by cases hscheduled⟩
  | @resumed nowMs row row' hresume =>
    have hrow := Slot.all_some.mp h
    have htype := Slot.all_some.mp htyped
    obtain ⟨hstate, hrow'⟩ := resumeSchedule_ok hresume
    have htype' : row'.Typed := htype.congr (by rw [hrow']) (by rw [hrow'])
    subst hrow'
    exact Slot.all_some.mpr ⟨rfl, hrow.nextRun, hrow.lastRun,
      htype'.selected fun _ hcalendar => hkeeps row rfl hstate hcalendar⟩
  | deleted row => exact fun _ heq => by cases heq
  | cron hchange =>
    exact Slot.all_some.mpr (consistent_of_cron hchange (Slot.all_some.mp htyped)
      (Slot.all_some.mp h) (hkeeps _ rfl))
  | calendar hchange =>
    exact Slot.all_some.mpr (consistent_of_calendar hchange (Slot.all_some.mp htyped)
      (Slot.all_some.mp h) (hkeeps _ rfl))

/-! ### Where the condition is exact -/

theorem processSchedule_firedLast {σ : Type} {backend : Backend} {engine : EngineCall}
    {c : Circumstances} {insert : RunRequest → Except CreateError (Created σ)} {id : String}
    {row : ScheduleRow} {nowMs nextRun : Int} {schedule : Calendar.CalendarSchedule}
    {created : Created σ} {err : Calendar.CalendarError}
    (hfires : CalendarService.Fires c engine insert row nowMs nextRun schedule created)
    (hnext : engine.nextRun schedule (ofUnixMilli nextRun) = .error (.error err)) :
    CalendarService.processSchedule backend engine c insert id row nowMs =
      .committed
        (CalendarService.errorRow c row
          { row.metadata with messageIds := [], lastRun := some (ofUnixMilli nextRun) } err.text)
        [successHistory id created.messageId (ofUnixMilli nextRun),
          failureHistory id (unixMilli (c.clock 2)) err.text]
        (some (row.run (ofUnixMilli nextRun), created)) := by
  simp [CalendarService.processSchedule, CalendarService.processDue, CalendarService.finishRun,
    CalendarService.markScheduleError, Circumstances.encrypted, hfires.due, hfires.decrypted,
    hfires.encrypted, hfires.unlimited, hfires.config, hfires.valid, hfires.created, hnext]

theorem processSchedule_missing {σ : Type} {parse : CronParser} {c : Circumstances}
    {insert : RunRequest → Except CreateError (Created σ)} {id : String} {row : ScheduleRow}
    (hstate : row.state = .scheduled)
    (hcolumn : row.cronSchedule = none ∨ row.cronSchedule = some "")
    (hencrypt : c.encryptError = none) :
    CronProcessorService.processSchedule parse c insert id row =
      .committed
        (CronProcessorService.errorRow c row { config := none, queueName := "" }
          "missing cron schedule")
        [failureHistory id (unixMilli (c.clock 2)) "missing cron schedule"] none := by
  rcases hcolumn with hcolumn | hcolumn <;>
    simp [CronProcessorService.processSchedule, CronProcessorService.markScheduleError,
      Circumstances.encrypted, Option.filter, hstate, hcolumn, hencrypt]

/-- A call that leaves the row consistent has met the condition. -/
theorem keepsColumns_of_consistent {parse : CronParser} {id : String} {slot : Slot}
    {call : ScheduleCall} (h : (slot.step parse id call).All ScheduleRow.Consistent) :
    KeepsColumns slot call := by
  -- the row after a call that commits `outcome`
  have hafter : ∀ {row' : ScheduleRow} {event : Option ScheduleEvent},
      call.apply parse id slot.row = some ⟨some row', event⟩ → row'.Consistent := by
    intro row' event happly
    rw [Slot.step_of_apply happly] at h
    exact Slot.all_some.mp h
  cases call with
  | resume nowMs =>
    intro row hrow hstate hcalendar hnone
    obtain ⟨row', hresume⟩ := resumeSchedule_of_paused nowMs hstate
    have hresumed : row'.Consistent :=
      hafter (by rw [hrow, ScheduleCall.apply, hresume]; rfl)
    obtain ⟨-, rfl⟩ := resumeSchedule_ok hresume
    obtain ⟨nextRun, hnext, -⟩ := hresumed.selected rfl hcalendar
    rw [show row.nextRun = some nextRun from hnext] at hnone
    cases hnone
  | cron c insert =>
    intro row hrow hstate hcolumn hencrypt
    have herrored : (CronProcessorService.errorRow c row { config := none, queueName := "" }
        "missing cron schedule").Consistent :=
      hafter (by
        rw [hrow, ScheduleCall.apply, processSchedule_missing hstate hcolumn hencrypt]
        rfl)
    exact herrored.lastRun
  | calendar backend engine c insert nowMs =>
    intro row hrow nextRun schedule created hfires err hnext
    have herrored : (CalendarService.errorRow c row
        { row.metadata with messageIds := [], lastRun := some (ofUnixMilli nextRun) }
        err.text).Consistent :=
      hafter (by
        rw [hrow, ScheduleCall.apply, processSchedule_firedLast hfires hnext]
        rfl)
    have hlast : row.lastRun = some (unixMilli (ofUnixMilli nextRun)) := herrored.lastRun
    rw [hlast, unixMilli_ofUnixMilli]
  | create ctx metadata => trivial
  | pause nowMs => trivial
  | delete => trivial

/-- **Row consistency**: all rows are consistent all along a run, if and only if every call of the
run meets the condition. -/
theorem consistent_run_iff {parse : CronParser} {ops : List ScheduleOp} :
    (∀ xs, xs <+: ops → ∀ id row, (runSchedules parse xs id).row = some row → row.Consistent) ↔
      FollowsSchedules parse KeepsColumns ops :=
  forall_prefix_iff_followsFamily (Slot.step parse) (Slot.All ScheduleRow.Typed)
    (Slot.All ScheduleRow.Consistent) (fun _ _ _ htyped => typed_step htyped)
    (fun _ _ _ htyped h => ⟨keepsColumns_of_consistent, consistent_step htyped h⟩)
    (fun _ => Slot.all_empty _) (fun _ => Slot.all_empty _)

/-- An engine whose clock stands still, with an empty cache. -/
def utcEngine (now : Int) : EngineCall := ⟨Calendar.utcEnvironment, [], now, now⟩

/-- A request for a calendar schedule. -/
def calendarRequest (schedule : Calendar.CalendarSchedule) : ScheduleMetadata where
  config := some (.calendar (some schedule))
  queueName := "jobs"

/-- A run every day at nine, but for the one second at the epoch only. -/
def expiredDaily : Calendar.CalendarSchedule where
  type := .daily
  rules := [{
    rule := some (.daily ⟨1, false, none⟩)
    executionTimes := [{ hour := 9 }]
    validUntil := some ⟨0, 0⟩ }]
  timezone := "UTC"

/-- A schedule without future runs is created PAUSED; resumed, it is SCHEDULED and has no next
run. -/
def resumedWithoutRuns : List ScheduleOp :=
  [("daily", .create { engine := utcEngine CivilTime.day, now := CivilTime.day, nowMs := 86400000 }
      (some (calendarRequest expiredDaily))),
   ("daily", .resume 86400000)]

theorem not_consistent_resumedWithoutRuns :
    ¬ ∀ (parse : CronParser) (ops : List ScheduleOp) (id : String) (row : ScheduleRow),
      (runSchedules parse ops id).row = some row → row.Consistent := by
  intro h
  have hrow : ((runSchedules (fun _ => .error "") resumedWithoutRuns "daily").row.any fun row =>
      row.state = .scheduled && row.nextRun = none && row.metadata.calendarSchedule ≠ none) =
        true := by
    decide +kernel
  obtain ⟨row, hsome, hfacts⟩ := Option.any_eq_true .. |>.mp hrow
  simp only [Bool.and_eq_true, decide_eq_true_eq] at hfacts
  obtain ⟨nextRun, hnext, -⟩ := (h _ _ _ row hsome).selected hfacts.1.1 hfacts.2
  rw [hfacts.1.2] at hnext
  cases hnext

end Nzovu.Schedules
