import Nzovu.Schedules.Consistency

/-!
# The Account of a Schedule

What the log of a schedule says about its row: when its runs may be fired, how many there may be,
and, as long as each next run is later than the run before it, that their instants increase.
-/

namespace Nzovu.Schedules

open Nzovu.Foundation
open Nzovu.Repository

/-! ## Section 1: Logs -/

/-- The row that the schedule was created with. -/
def createdRow : List ScheduleEvent → Option ScheduleRow
  | [] => none
  | .created row :: _ => some row
  | _ :: log => createdRow log

/-- The instants of the runs since the schedule was created, the latest first. -/
def firedSince : List ScheduleEvent → List Int
  | [] => []
  | .created _ :: _ => []
  | .fired runTime :: log => runTime :: firedSince log
  | _ :: log => firedSince log

/-- The number of runs since the schedule was created or last resumed. -/
def firedCount : List ScheduleEvent → Int
  | [] => 0
  | .created _ :: _ => 0
  | .resumed :: _ => 0
  | .fired _ :: log => firedCount log + 1
  | _ :: log => firedCount log

/-- The schedule was created or resumed, and neither paused nor deleted since. -/
def activeAfter : List ScheduleEvent → Bool
  | [] => false
  | .created _ :: _ => true
  | .resumed :: _ => true
  | .paused :: _ => false
  | .deleted :: _ => false
  | .fired _ :: log => activeAfter log

/-- Every run was fired while the schedule was active. -/
def FiresWhileActive (log : List ScheduleEvent) : Prop :=
  ∀ later runTime earlier, log = later ++ .fired runTime :: earlier → activeAfter earlier = true

theorem firesWhileActive_cons {event : ScheduleEvent} {log : List ScheduleEvent} :
    FiresWhileActive (event :: log) ↔
      FiresWhileActive log ∧ ∀ runTime, event = .fired runTime → activeAfter log = true := by
  constructor
  · intro h
    refine ⟨fun later runTime earlier heq => ?_, fun runTime heq => ?_⟩
    · exact h (event :: later) runTime earlier (by rw [heq]; rfl)
    · exact h [] runTime log (by rw [heq]; rfl)
  · rintro ⟨hlog, hevent⟩ later runTime earlier heq
    cases later with
    | nil =>
      obtain ⟨rfl, rfl⟩ := List.cons.inj heq
      exact hevent runTime rfl
    | cons first later =>
      obtain ⟨rfl, hrest⟩ := List.cons.inj heq
      exact hlog later runTime earlier hrest

/-! ## Section 2: The account -/

/-- What the log says about the row of a schedule that was created as `origin`. An ERRORED schedule
stays ERRORED; its metadata and its count may be lost. -/
structure LivesSince (origin : ScheduleRow) (log : List ScheduleEvent) (row : ScheduleRow) :
    Prop where
  created : createdRow log = some origin
  state : row.state = row.metadata.state
  column : row.cronSchedule = origin.cronSchedule
  limit : row.state ≠ .errored →
    row.metadata.hasMaxMessages = origin.metadata.hasMaxMessages ∧
      row.metadata.maxMessages = origin.metadata.maxMessages
  count : row.state ≠ .errored → row.executionCount = firedCount log
  active : row.state = .scheduled → activeAfter log = true
  unlimited : row.state = .scheduled → row.metadata.limitReached row.executionCount = false
  ended : row.state = .errored → row.nextRun = none

/-- The account of a slot. -/
structure Slot.Accounted (slot : Slot) : Prop where
  started : createdRow slot.log = none → slot.log = []
  firesWhileActive : FiresWhileActive slot.log
  typed : ∀ origin, createdRow slot.log = some origin → origin.Typed
  positive : ∀ origin, createdRow slot.log = some origin →
    origin.metadata.hasMaxMessages = true → 0 < origin.metadata.maxMessages
  within : ∀ origin, createdRow slot.log = some origin →
    origin.metadata.hasMaxMessages = true → firedCount slot.log ≤ origin.metadata.maxMessages
  lives : ∀ row, slot.row = some row → ∃ origin, LivesSince origin slot.log row

theorem Slot.accounted_empty : Slot.Accounted {} where
  started := fun _ => rfl
  firesWhileActive := fun later _ _ heq => by cases later <;> cases heq
  typed := fun _ h => by cases h
  positive := fun _ h => by cases h
  within := fun _ h => by cases h
  lives := fun _ h => by cases h

section

variable (metadata : ScheduleMetadata) (executionCount runTime nextRun updatedAt : Int)
  (stateMessage : String)

theorem ScheduleMetadata.fire_state :
    (metadata.fire executionCount runTime nextRun stateMessage updatedAt).state =
      if metadata.limitReached executionCount then .paused else metadata.state := by
  cases hlimit : metadata.limitReached executionCount <;>
    simp only [ScheduleMetadata.limitReached] at hlimit <;>
    simp [ScheduleMetadata.fire, ScheduleMetadata.limitReached, hlimit]

@[simp] theorem ScheduleMetadata.fire_hasMaxMessages :
    (metadata.fire executionCount runTime nextRun stateMessage updatedAt).hasMaxMessages =
      metadata.hasMaxMessages := by
  simp only [ScheduleMetadata.fire]
  split <;> rfl

@[simp] theorem ScheduleMetadata.fire_maxMessages :
    (metadata.fire executionCount runTime nextRun stateMessage updatedAt).maxMessages =
      metadata.maxMessages := by
  simp only [ScheduleMetadata.fire]
  split <;> rfl

end

/-- An error keeps nothing but the column. -/
theorem LivesSince.errored {origin row row' : ScheduleRow} {log log' : List ScheduleEvent}
    (h : LivesSince origin log row) (hcreated : createdRow log' = createdRow log)
    (hcolumn : row'.cronSchedule = row.cronSchedule) (hstate : row'.state = .errored)
    (hmetadata : row'.metadata.state = .errored) (hnext : row'.nextRun = none) :
    LivesSince origin log' row' where
  created := hcreated.trans h.created
  state := by rw [hstate, hmetadata]
  column := by rw [hcolumn, h.column]
  limit := fun hne => absurd hstate hne
  count := fun hne => absurd hstate hne
  active := fun hscheduled => by rw [hstate] at hscheduled; cases hscheduled
  unlimited := fun hscheduled => by rw [hstate] at hscheduled; cases hscheduled
  ended := fun _ => hnext

theorem LivesSince.not_errored {origin row : ScheduleRow} {log : List ScheduleEvent}
    (_ : LivesSince origin log row) (hstate : row.state = .scheduled) : row.state ≠ .errored := by
  rw [hstate]
  decide

/-- A run leaves the schedule active, or paused at its limit. -/
theorem LivesSince.fire {origin row row' : ScheduleRow} {log : List ScheduleEvent}
    (h : LivesSince origin log row) (hstate : row.state = .scheduled)
    {runTime nextRun updatedAt : Int} {stateMessage : String}
    (hmetadata : row'.metadata =
      row.metadata.fire (row.executionCount + 1) runTime nextRun stateMessage updatedAt)
    (hstate' : row'.state = row'.metadata.state) (hcolumn : row'.cronSchedule = row.cronSchedule)
    (hcount : row'.executionCount = row.executionCount + 1) :
    LivesSince origin (.fired runTime :: log) row' := by
  have hlimit : row'.metadata.limitReached row'.executionCount =
      row.metadata.limitReached (row.executionCount + 1) := by
    simp [hmetadata, hcount, ScheduleMetadata.limitReached]
  constructor
  · exact h.created
  · exact hstate'
  · rw [hcolumn, h.column]
  · intro _
    rw [hmetadata, ScheduleMetadata.fire_hasMaxMessages, ScheduleMetadata.fire_maxMessages]
    exact h.limit (h.not_errored hstate)
  · intro _
    rw [hcount, h.count (h.not_errored hstate), firedCount]
  · exact fun _ => h.active hstate
  · intro hscheduled
    rw [hlimit]
    rw [hstate', hmetadata, ScheduleMetadata.fire_state] at hscheduled
    split at hscheduled
    · cases hscheduled
    next hopen => exact Bool.not_eq_true _ ▸ hopen
  · intro herrored
    rw [hstate', hmetadata, ScheduleMetadata.fire_state, ← h.state, hstate] at herrored
    split at herrored <;> cases herrored

/-- A change without an event concerns the row alone. -/
theorem Slot.Accounted.keep {row row' : ScheduleRow} {log : List ScheduleEvent}
    (h : Slot.Accounted ⟨some row, log⟩)
    (hlives : ∀ origin, LivesSince origin log row → LivesSince origin log row') :
    Slot.Accounted ⟨some row', log⟩ where
  started := h.started
  firesWhileActive := h.firesWhileActive
  typed := h.typed
  positive := h.positive
  within := h.within
  lives := by
    intro _ heq
    cases heq
    obtain ⟨origin, horigin⟩ := h.lives row rfl
    exact ⟨origin, hlives origin horigin⟩

/-- A run of an active schedule that has not reached its limit. -/
theorem Slot.Accounted.fire {row row' : ScheduleRow} {log : List ScheduleEvent} {runTime : Int}
    (h : Slot.Accounted ⟨some row, log⟩) (hstate : row.state = .scheduled)
    (hlives : ∀ origin, LivesSince origin log row →
      LivesSince origin (.fired runTime :: log) row') :
    Slot.Accounted ⟨some row', .fired runTime :: log⟩ := by
  obtain ⟨origin, horigin⟩ := h.lives row rfl
  refine ⟨fun hnone => ?_, ?_, h.typed, h.positive, ?_, ?_⟩
  · exact absurd (horigin.created.symm.trans hnone) nofun
  · refine firesWhileActive_cons.mpr ⟨h.firesWhileActive, fun _ _ => ?_⟩
    exact horigin.active hstate
  · intro other hother hmax
    obtain rfl : origin = other := Option.some.inj (horigin.created.symm.trans hother)
    have hlimit := horigin.limit (horigin.not_errored hstate)
    have hunlimited := horigin.unlimited hstate
    rw [ScheduleMetadata.limitReached, hlimit.1, hlimit.2, hmax, Bool.true_and,
      decide_eq_false_iff_not, horigin.count (horigin.not_errored hstate)] at hunlimited
    exact Int.not_le.mp hunlimited
  · intro _ heq
    cases heq
    exact ⟨origin, hlives origin horigin⟩

theorem accounted_created {parse : CronParser} {ctx : CreateContext}
    {request stored : ScheduleMetadata} {log : List ScheduleEvent}
    (hlog : FiresWhileActive log) (haccepted : Accepted parse ctx request stored) :
    Slot.Accounted ⟨some (newScheduleRow stored ctx.nowMs),
      .created (newScheduleRow stored ctx.nowMs) :: log⟩ := by
  have hmax : stored.hasMaxMessages = true → 0 < stored.maxMessages := by
    have hrequest := (validateRequest_ok haccepted.valid).2
    rcases haccepted.stored with ⟨-, rfl⟩ | ⟨nextRun, -, rfl⟩ | rfl <;> exact hrequest
  constructor
  · exact nofun
  · exact firesWhileActive_cons.mpr ⟨hlog, fun _ heq => by cases heq⟩
  · intro origin horigin
    cases horigin
    exact typed_newScheduleRow stored ctx.nowMs
  · intro origin horigin
    cases horigin
    exact hmax
  · intro origin horigin hlimited
    cases horigin
    exact Int.le_of_lt (hmax hlimited)
  · intro row hrow
    cases hrow
    refine ⟨newScheduleRow stored ctx.nowMs, rfl, rfl, rfl, fun _ => ⟨rfl, rfl⟩, fun _ => rfl,
      fun _ => rfl, fun _ => ?_, fun herrored => absurd herrored ?_⟩
    · cases hlimited : stored.hasMaxMessages with
      | false => simp [ScheduleMetadata.limitReached, newScheduleRow, hlimited]
      | true =>
        have hpositive := hmax hlimited
        simp [ScheduleMetadata.limitReached, newScheduleRow, hlimited, hpositive]
    · have hfresh := haccepted.fresh.1
      rcases haccepted.stored with ⟨-, rfl⟩ | ⟨nextRun, -, rfl⟩ | rfl <;>
        simp [newScheduleRow, hfresh]

theorem Slot.Accounted.pause {nowMs : Int} {row row' : ScheduleRow} {log : List ScheduleEvent}
    (h : Slot.Accounted ⟨some row, log⟩) (hpause : pauseSchedule nowMs row = .ok row') :
    Slot.Accounted ⟨some row', .paused :: log⟩ := by
  obtain ⟨hstate, rfl⟩ := pauseSchedule_ok hpause
  obtain ⟨origin, horigin⟩ := h.lives row rfl
  have hlives := horigin.not_errored hstate
  refine ⟨fun hnone => absurd (horigin.created.symm.trans hnone) nofun, ?_, h.typed, h.positive,
    h.within, ?_⟩
  · exact firesWhileActive_cons.mpr ⟨h.firesWhileActive, fun _ heq => by cases heq⟩
  · intro _ heq
    cases heq
    exact ⟨origin, horigin.created, rfl, horigin.column, fun _ => horigin.limit hlives,
      fun _ => horigin.count hlives, nofun, nofun, nofun⟩

theorem Slot.Accounted.resume {nowMs : Int} {row row' : ScheduleRow} {log : List ScheduleEvent}
    (h : Slot.Accounted ⟨some row, log⟩) (hresume : resumeSchedule nowMs row = .ok row') :
    Slot.Accounted ⟨some row', .resumed :: log⟩ := by
  obtain ⟨hstate, rfl⟩ := resumeSchedule_ok hresume
  obtain ⟨origin, horigin⟩ := h.lives row rfl
  have hlimit := horigin.limit (by rw [hstate]; decide)
  have hpositive := h.positive origin horigin.created
  refine ⟨fun hnone => absurd (horigin.created.symm.trans hnone) nofun, ?_, h.typed, h.positive,
    ?_, ?_⟩
  · exact firesWhileActive_cons.mpr ⟨h.firesWhileActive, fun _ heq => by cases heq⟩
  · intro other hother hmax
    exact Int.le_of_lt (h.positive other hother hmax)
  · intro _ heq
    cases heq
    refine ⟨origin, horigin.created, rfl, horigin.column, fun _ => hlimit, fun _ => rfl,
      fun _ => rfl, fun _ => ?_, nofun⟩
    simp only [ScheduleMetadata.limitReached, hlimit.1, hlimit.2]
    cases hlimited : origin.metadata.hasMaxMessages with
    | false => rfl
    | true => simp [hpositive hlimited]

/-- **The account is kept** by every call. -/
theorem accounted_step {parse : CronParser} {id : String} {slot : Slot} {call : ScheduleCall}
    (h : slot.Accounted) : (slot.step parse id call).Accounted := by
  refine Slot.step_induction h fun outcome htransition => ?_
  obtain ⟨row, log⟩ := slot
  cases htransition with
  | created haccepted => exact accounted_created h.firesWhileActive haccepted
  | paused hpause => exact h.pause hpause
  | resumed hresume => exact h.resume hresume
  | deleted row =>
    obtain ⟨origin, horigin⟩ := h.lives row rfl
    refine ⟨fun hnone => absurd (horigin.created.symm.trans hnone) nofun, ?_, h.typed, h.positive,
      h.within, fun _ heq => by cases heq⟩
    exact firesWhileActive_cons.mpr ⟨h.firesWhileActive, fun _ heq => by cases heq⟩
  | cron hchange =>
    cases hchange with
    | missing hstate hcolumn hencrypt =>
      exact h.keep fun _ hlives => hlives.errored rfl rfl rfl rfl rfl
    | limited hstate hlimit =>
      obtain ⟨origin, horigin⟩ := h.lives _ rfl
      rw [horigin.unlimited hstate] at hlimit
      cases hlimit
    | rejected hstate message => exact h.keep fun _ hlives => hlives.errored rfl rfl rfl rfl rfl
    | planned hready hnext =>
      exact h.keep fun _ hlives => ⟨hlives.created, hlives.state, hlives.column, hlives.limit,
        hlives.count, hlives.active, hlives.unlimited,
        fun herrored => absurd herrored (hlives.not_errored hready.state)⟩
    | fired hfires =>
      exact h.fire hfires.ready.state fun _ hlives =>
        hlives.fire hfires.ready.state rfl rfl rfl rfl
  | calendar hchange =>
    cases hchange with
    | limited hstate hlimit =>
      obtain ⟨origin, horigin⟩ := h.lives _ rfl
      rw [horigin.unlimited hstate] at hlimit
      cases hlimit
    | rejected hstate message => exact h.keep fun _ hlives => hlives.errored rfl rfl rfl rfl rfl
    | fired hfires hnext =>
      have hstate := (CalendarService.due_eq_some.mp hfires.due).1
      exact h.fire hstate fun _ hlives => hlives.fire hstate rfl rfl rfl rfl
    | firedLast hfires hnext =>
      have hstate := (CalendarService.due_eq_some.mp hfires.due).1
      exact h.fire hstate fun _ hlives => hlives.errored rfl rfl rfl rfl rfl

/-- The account holds in every state of every run. -/
theorem accounted_run (parse : CronParser) (ops : List ScheduleOp) (id : String) :
    (runSchedules parse ops id).Accounted :=
  invariant_runSchedules' Slot.Accounted Slot.accounted_empty (fun _ _ _ h => accounted_step h) ops
    id

end Nzovu.Schedules
