import Nzovu.Calendar.Progress
import Nzovu.Schedules.Accounting

/-!
# The Runs of a Schedule Advance

As long as every next run that is stored lies after the run just fired, the instants of the runs of
a schedule increase. Section 1 shows this for the schedules of a kind, given by the cron column;
Sections 2 and 3 say when cron and calendar schedules meet the condition.
-/

namespace Nzovu.Schedules

open Nzovu.Foundation
open Nzovu.Repository

/-! ## Section 1: Advancing -/

theorem ofUnixMilli_lt {a b : Int} : ofUnixMilli a < ofUnixMilli b ↔ a < b := by
  simp only [ofUnixMilli]
  omega

/-- The next run of the row is later than each of the runs. -/
def ScheduleRow.After (row : ScheduleRow) (runs : List Int) : Prop :=
  ∀ t ∈ runs, ∃ nextRun, row.nextRun = some nextRun ∧ t < ofUnixMilli nextRun

theorem ScheduleRow.After.eq_nil {row : ScheduleRow} {runs : List Int} (h : row.After runs)
    (hnext : row.nextRun = none) : runs = [] := by
  refine List.eq_nil_iff_forall_not_mem.mpr fun t ht => ?_
  obtain ⟨nextRun, hsome, -⟩ := h t ht
  rw [hnext] at hsome
  cases hsome

/-- The runs since the creation increase, and the next one is later. -/
structure Slot.Advanced (slot : Slot) : Prop where
  increasing : (firedSince slot.log).Pairwise (· > ·)
  after : ∀ row, slot.row = some row → row.state ≠ .errored → row.After (firedSince slot.log)

/-- The slot is advanced if its schedule is of the kind. -/
def AdvancedOf (kind : Option String → Prop) (slot : Slot) : Prop :=
  ∀ origin, createdRow slot.log = some origin → kind origin.cronSchedule → slot.Advanced

theorem advancedOf_empty (kind : Option String → Prop) : AdvancedOf kind {} :=
  fun _ horigin => by cases horigin

/-- The condition on a call: the next run it stores after firing one is later, in milliseconds. -/
def AdvancesOf (kind : Option String → Prop) (parse : CronParser) (slot : Slot) :
    ScheduleCall → Prop
  | .cron c insert => ∀ row, slot.row = some row → kind row.cronSchedule →
      ∀ next nextRun created, CronProcessorService.Fires parse c insert row next nextRun created →
        nextRun < unixMilli (next (ofUnixMilli nextRun))
  | .calendar _ engine c insert nowMs => ∀ row, slot.row = some row → kind row.cronSchedule →
      ∀ nextRun schedule created t,
        CalendarService.Fires c engine insert row nowMs nextRun schedule created →
          engine.nextRun schedule (ofUnixMilli nextRun) = .ok t → nextRun < unixMilli t
  | _ => True

theorem Slot.Advanced.fire {row row' : ScheduleRow} {log : List ScheduleEvent} {nextRun : Int}
    (h : Slot.Advanced ⟨some row, log⟩) (hstate : row.state = .scheduled)
    (hnext : row.nextRun = some nextRun)
    (hlater : row'.state ≠ .errored → ∃ n, row'.nextRun = some n ∧ nextRun < n) :
    Slot.Advanced ⟨some row', .fired (ofUnixMilli nextRun) :: log⟩ := by
  have hbefore : ∀ t ∈ firedSince log, t < ofUnixMilli nextRun := by
    intro t ht
    obtain ⟨n, hn, hlt⟩ := h.after row rfl (by rw [hstate]; decide) t ht
    rw [hnext] at hn
    exact Option.some.inj hn ▸ hlt
  constructor
  · exact List.pairwise_cons.mpr ⟨hbefore, h.increasing⟩
  · intro _ heq herrored t ht
    cases heq
    obtain ⟨n, hn, hlt⟩ := hlater herrored
    refine ⟨n, hn, ?_⟩
    rcases List.mem_cons.mp ht with rfl | ht
    · exact ofUnixMilli_lt.mpr hlt
    · exact Int.lt_trans (hbefore t ht) (ofUnixMilli_lt.mpr hlt)

/-- A change that fires nothing and keeps the next run, or ends in an error. -/
theorem Slot.Advanced.keep {row row' : ScheduleRow} {log log' : List ScheduleEvent}
    (h : Slot.Advanced ⟨some row, log⟩) (hlog : firedSince log' = firedSince log)
    (hnext : row'.state ≠ .errored → row.state ≠ .errored ∧ row'.nextRun = row.nextRun) :
    Slot.Advanced ⟨some row', log'⟩ := by
  refine ⟨by simpa only [hlog] using h.increasing, fun _ heq herrored t ht => ?_⟩
  cases heq
  obtain ⟨hstate, hsame⟩ := hnext herrored
  rw [hsame]
  exact h.after row rfl hstate t (hlog ▸ ht)

theorem advanced_of_cron {parse : CronParser} {c : Circumstances}
    {insert : RunRequest → Except CreateError (Created Unit)} {id : String}
    {row row' : ScheduleRow} {history : List HistoryRow} {log : List ScheduleEvent}
    {fired : Option (RunRequest × Created Unit)}
    (hchange : CronProcessorService.Change parse c insert id row row' history fired)
    (hunlimited : row.state = .scheduled → row.metadata.limitReached row.executionCount = false)
    (h : Slot.Advanced ⟨some row, log⟩)
    (hadvances : ∀ next nextRun created,
      CronProcessorService.Fires parse c insert row next nextRun created →
        nextRun < unixMilli (next (ofUnixMilli nextRun))) :
    Slot.Advanced ⟨some row',
      (fired.map fun insertion => .fired insertion.1.runTime).toList ++ log⟩ := by
  cases hchange with
  | missing hstate hcolumn hencrypt => exact h.keep rfl fun hne => absurd rfl hne
  | limited hstate hlimit =>
    rw [hunlimited hstate] at hlimit
    cases hlimit
  | rejected hstate message => exact h.keep rfl fun hne => absurd rfl hne
  | planned hready hnext =>
    -- nothing has been fired before the first run is planned
    have hnone : firedSince log = [] :=
      (h.after row rfl (by rw [hready.state]; decide)).eq_nil hnext
    refine ⟨h.increasing, fun _ _ _ t ht => ?_⟩
    have hmem : t ∈ firedSince log := ht
    rw [hnone] at hmem
    cases hmem
  | @fired next nextRun created hfires =>
    exact h.fire hfires.ready.state hfires.planned fun _ =>
      ⟨_, rfl, hadvances next nextRun created hfires⟩

theorem advanced_of_calendar {engine : EngineCall} {c : Circumstances}
    {insert : RunRequest → Except CreateError (Created Unit)} {id : String}
    {row row' : ScheduleRow} {nowMs : Int} {history : List HistoryRow} {log : List ScheduleEvent}
    {fired : Option (RunRequest × Created Unit)}
    (hchange : CalendarService.Change engine c insert id row nowMs row' history fired)
    (hunlimited : row.state = .scheduled → row.metadata.limitReached row.executionCount = false)
    (h : Slot.Advanced ⟨some row, log⟩)
    (hadvances : ∀ nextRun schedule created t,
      CalendarService.Fires c engine insert row nowMs nextRun schedule created →
        engine.nextRun schedule (ofUnixMilli nextRun) = .ok t → nextRun < unixMilli t) :
    Slot.Advanced ⟨some row',
      (fired.map fun insertion => .fired insertion.1.runTime).toList ++ log⟩ := by
  cases hchange with
  | limited hstate hlimit =>
    rw [hunlimited hstate] at hlimit
    cases hlimit
  | rejected hstate message => exact h.keep rfl fun hne => absurd rfl hne
  | @fired nextRun schedule created t hfires hnext =>
    obtain ⟨hstate, hdue, -⟩ := CalendarService.due_eq_some.mp hfires.due
    exact h.fire hstate hdue fun _ =>
      ⟨_, rfl, hadvances nextRun schedule created t hfires hnext⟩
  | firedLast hfires hnext =>
    obtain ⟨hstate, hdue, -⟩ := CalendarService.due_eq_some.mp hfires.due
    exact h.fire hstate hdue fun hne => absurd rfl hne

/-- Under the condition a call leaves the schedules of the kind advanced. -/
theorem advanced_step {kind : Option String → Prop} {parse : CronParser} {id : String}
    {slot : Slot} {call : ScheduleCall} (haccounted : slot.Accounted)
    (h : AdvancedOf kind slot) (hadvances : AdvancesOf kind parse slot call) :
    AdvancedOf kind (slot.step parse id call) := by
  refine Slot.step_induction h fun outcome htransition => ?_
  obtain ⟨row, log⟩ := slot
  cases htransition with
  | created haccepted =>
    intro origin _ _
    exact ⟨List.Pairwise.nil, fun _ _ _ t ht => by cases ht⟩
  | @paused nowMs row row' hpause =>
    intro origin horigin hkind
    obtain ⟨hstate, rfl⟩ := pauseSchedule_ok hpause
    exact (h origin horigin hkind).keep rfl fun _ => ⟨by rw [hstate]; decide, rfl⟩
  | @resumed nowMs row row' hresume =>
    intro origin horigin hkind
    obtain ⟨hstate, rfl⟩ := resumeSchedule_ok hresume
    exact (h origin horigin hkind).keep rfl fun _ => ⟨by rw [hstate]; decide, rfl⟩
  | deleted row =>
    intro origin horigin hkind
    exact ⟨(h origin horigin hkind).increasing, fun _ heq => by cases heq⟩
  | @cron c insert row row' history fired hchange =>
    intro origin horigin hkind
    have horigin : createdRow log = some origin := by
      cases fired <;> exact horigin
    obtain ⟨other, hlives⟩ := haccounted.lives row rfl
    obtain rfl := Option.some.inj (hlives.created.symm.trans horigin)
    exact advanced_of_cron hchange hlives.unlimited (h other horigin hkind)
      (hadvances row rfl (hlives.column ▸ hkind))
  | @calendar backend engine c insert nowMs row row' history fired hchange =>
    intro origin horigin hkind
    have horigin : createdRow log = some origin := by
      cases fired <;> exact horigin
    obtain ⟨other, hlives⟩ := haccounted.lives row rfl
    obtain rfl := Option.some.inj (hlives.created.symm.trans horigin)
    exact advanced_of_calendar hchange hlives.unlimited (h other horigin hkind)
      (hadvances row rfl (hlives.column ▸ hkind))

/-- **Runs advance**: if every call meets the condition, the schedules of the kind are advanced in
every state. -/
theorem advanced_run {kind : Option String → Prop} {parse : CronParser} {ops : List ScheduleOp}
    (h : FollowsSchedules parse (AdvancesOf kind parse) ops) (id : String) :
    AdvancedOf kind (runSchedules parse ops id) :=
  (invariant_runSchedules (fun slot => slot.Accounted ∧ AdvancedOf kind slot)
    ⟨Slot.accounted_empty, advancedOf_empty kind⟩
    (fun _ _ _ hslot hcall =>
      ⟨accounted_step hslot.1, advanced_step hslot.1 hslot.2 hcall⟩) h id).2

/-! ## Section 2: Cron schedules -/

/-- What `Next` is documented to return: a whole second strictly after its argument, or the zero
time when the expression has no activation. -/
def LawfulCron (parse : CronParser) : Prop :=
  ∀ expression next, parse expression = .ok next →
    ∀ t, next t = zeroTime ∨ (t < next t ∧ next t % CivilTime.second = 0)

/-- `t` is an activation that `Next` finds from an earlier instant. -/
structure Activation (next : Int → Int) (t : Int) : Prop where
  found : ∃ s, s < t ∧ next s = t
  nonzero : t ≠ zeroTime

/-- All runs of the slot's schedule, past and next, are activations. -/
structure Slot.Genuine (next : Int → Int) (slot : Slot) : Prop where
  fired : ∀ t ∈ firedSince slot.log, Activation next t
  planned : ∀ row, slot.row = some row → row.state ≠ .errored →
    ∀ nextRun, row.nextRun = some nextRun → Activation next (ofUnixMilli nextRun)

/-- The slot is genuine if it holds a cron schedule. -/
def GenuineOf (parse : CronParser) (slot : Slot) : Prop :=
  ∀ origin, createdRow slot.log = some origin → ∀ expression next,
    origin.cronSchedule = some expression → parse expression = .ok next → slot.Genuine next

theorem genuineOf_empty (parse : CronParser) : GenuineOf parse {} :=
  fun _ horigin => by cases horigin

/-- The condition on a call: when the cron processor asks for an activation, to plan the first run
or the run after one it has fired, there is one. -/
def FindsActivation (parse : CronParser) (slot : Slot) : ScheduleCall → Prop
  | .cron c insert => ∀ row, slot.row = some row → ∀ next,
      (CronProcessorService.Ready parse c row next → row.nextRun = none →
        next (c.clock 1) ≠ zeroTime) ∧
      ∀ nextRun created, CronProcessorService.Fires parse c insert row next nextRun created →
        next (ofUnixMilli nextRun) ≠ zeroTime
  | _ => True

/-- An activation is stored in milliseconds without loss. -/
theorem LawfulCron.activation {parse : CronParser} (h : LawfulCron parse) {expression : String}
    {next : Int → Int} (hparsed : parse expression = .ok next) {s : Int}
    (hnonzero : next s ≠ zeroTime) :
    s < next s ∧ ofUnixMilli (unixMilli (next s)) = next s := by
  obtain hzero | ⟨hlater, hwhole⟩ := h expression next hparsed s
  · exact absurd hzero hnonzero
  · refine ⟨hlater, ?_⟩
    have hsecond : CivilTime.second = 1000000000 := rfl
    rw [hsecond] at hwhole
    simp only [unixMilli, ofUnixMilli,
      Int.fdiv_eq_ediv_of_nonneg _ (by decide : (0 : Int) ≤ 1000000)]
    omega

theorem CronProcessorService.Ready.parsed {parse : CronParser} {c : Circumstances}
    {row : ScheduleRow} {next other : Int → Int} {expression : String}
    (h : CronProcessorService.Ready parse c row next)
    (hcolumn : row.cronSchedule = some expression) (hparsed : parse expression = .ok other) :
    next = other := by
  obtain ⟨expression', -, hcolumn', hparsed'⟩ := h.column
  obtain rfl := Option.some.inj (hcolumn.symm.trans hcolumn')
  exact Except.ok.inj (hparsed'.symm.trans hparsed)

/-- With activations found, cron schedules advance. -/
theorem advancesOf_cron {parse : CronParser} (hlawful : LawfulCron parse) {slot : Slot}
    {call : ScheduleCall} (htyped : slot.All ScheduleRow.Typed)
    (h : FindsActivation parse slot call) : AdvancesOf (· ≠ none) parse slot call := by
  cases call with
  | cron c insert =>
    intro row hrow _ next nextRun created hfires
    obtain ⟨expression, -, -, hparsed⟩ := hfires.ready.column
    obtain ⟨hlater, hexact⟩ :=
      hlawful.activation hparsed ((h row hrow next).2 nextRun created hfires)
    rw [← hexact] at hlater
    exact ofUnixMilli_lt.mp hlater
  | calendar backend engine c insert nowMs =>
    intro row hrow hcolumn nextRun schedule created t hfires
    -- the processor fires calendar schedules only
    have hcalendar : row.metadata.calendarSchedule ≠ none := by rw [hfires.config]; nofun
    exact absurd (htyped row hrow hcalendar) hcolumn
  | create ctx metadata => trivial
  | pause nowMs => trivial
  | resume nowMs => trivial
  | delete => trivial

theorem Slot.Genuine.keep {next : Int → Int} {row row' : ScheduleRow}
    {log log' : List ScheduleEvent} (h : Slot.Genuine next ⟨some row, log⟩)
    (hlog : firedSince log' = firedSince log)
    (hnext : row'.state ≠ .errored → row.state ≠ .errored ∧ row'.nextRun = row.nextRun) :
    Slot.Genuine next ⟨some row', log'⟩ := by
  refine ⟨by simpa only [hlog] using h.fired, fun _ heq herrored nextRun hsome => ?_⟩
  cases heq
  obtain ⟨hstate, hsame⟩ := hnext herrored
  exact h.planned row rfl hstate nextRun (hsame ▸ hsome)

theorem genuine_of_cron {parse : CronParser} {c : Circumstances}
    {insert : RunRequest → Except CreateError (Created Unit)} {id : String}
    {row row' : ScheduleRow} {history : List HistoryRow} {log : List ScheduleEvent}
    {fired : Option (RunRequest × Created Unit)} {expression : String} {next : Int → Int}
    (hchange : CronProcessorService.Change parse c insert id row row' history fired)
    (hlawful : LawfulCron parse) (hcolumn : row.cronSchedule = some expression)
    (hparsed : parse expression = .ok next) (h : Slot.Genuine next ⟨some row, log⟩)
    (hfinds : FindsActivation parse ⟨some row, log⟩ (.cron c insert)) :
    Slot.Genuine next ⟨some row',
      (fired.map fun insertion => .fired insertion.1.runTime).toList ++ log⟩ := by
  -- what `Next` finds from `s` on is an activation, also after it was stored
  have hfound : ∀ s, next s ≠ zeroTime → Activation next (ofUnixMilli (unixMilli (next s))) := by
    intro s hnonzero
    obtain ⟨hlater, hexact⟩ := hlawful.activation hparsed hnonzero
    rw [hexact]
    exact ⟨⟨s, hlater, rfl⟩, hnonzero⟩
  cases hchange with
  | missing hstate hcolumn hencrypt => exact h.keep rfl fun hne => absurd rfl hne
  | limited hstate hlimit =>
    refine ⟨h.fired, fun _ heq _ nextRun hsome => ?_⟩
    cases heq
    cases hsome
  | rejected hstate message => exact h.keep rfl fun hne => absurd rfl hne
  | planned hready hnext =>
    obtain rfl := hready.parsed hcolumn hparsed
    refine ⟨h.fired, fun _ heq _ nextRun hsome => ?_⟩
    cases heq
    cases hsome
    exact hfound _ ((hfinds row rfl _).1 hready hnext)
  | @fired _ nextRun created hfires =>
    obtain rfl := hfires.ready.parsed hcolumn hparsed
    constructor
    · intro t ht
      rcases List.mem_cons.mp ht with rfl | ht
      · exact h.planned row rfl (by rw [hfires.ready.state]; decide) nextRun hfires.planned
      · exact h.fired t ht
    · intro _ heq _ n hsome
      cases heq
      cases hsome
      exact hfound _ ((hfinds row rfl _).2 nextRun created hfires)

theorem genuine_step {parse : CronParser} (hlawful : LawfulCron parse) {id : String} {slot : Slot}
    {call : ScheduleCall} (haccounted : slot.Accounted) (htyped : slot.All ScheduleRow.Typed)
    (h : GenuineOf parse slot) (hfinds : FindsActivation parse slot call) :
    GenuineOf parse (slot.step parse id call) := by
  refine Slot.step_induction h fun outcome htransition => ?_
  obtain ⟨row, log⟩ := slot
  cases htransition with
  | @created ctx metadata request stored haccepted =>
    intro origin horigin expression next hcolumn _
    refine ⟨fun t ht => absurd ht List.not_mem_nil, fun row hrow _ nextRun hsome => ?_⟩
    cases horigin
    cases hrow
    -- a cron schedule is created without a next run
    have hnone : stored.nextRun = none := by
      rcases haccepted.stored with ⟨-, rfl⟩ | ⟨n, hcalendar, rfl⟩ | rfl
      · exact haccepted.fresh.2.1
      · have htype := typed_newScheduleRow { request with nextRun := some n } ctx.nowMs hcalendar
        rw [htype] at hcolumn
        cases hcolumn
      · exact haccepted.fresh.2.1
    rw [newScheduleRow, hnone] at hsome
    cases hsome
  | @paused nowMs row row' hpause =>
    intro origin horigin expression next hcolumn hparsed
    obtain ⟨hstate, rfl⟩ := pauseSchedule_ok hpause
    exact (h origin horigin expression next hcolumn hparsed).keep rfl
      fun _ => ⟨by rw [hstate]; decide, rfl⟩
  | @resumed nowMs row row' hresume =>
    intro origin horigin expression next hcolumn hparsed
    obtain ⟨hstate, rfl⟩ := resumeSchedule_ok hresume
    exact (h origin horigin expression next hcolumn hparsed).keep rfl
      fun _ => ⟨by rw [hstate]; decide, rfl⟩
  | deleted row =>
    intro origin horigin expression next hcolumn hparsed
    exact ⟨(h origin horigin expression next hcolumn hparsed).fired, fun _ heq => by cases heq⟩
  | @cron c insert row row' history fired hchange =>
    intro origin horigin expression next hcolumn hparsed
    have horigin : createdRow log = some origin := by
      cases fired <;> exact horigin
    obtain ⟨other, hlives⟩ := haccounted.lives row rfl
    obtain rfl := Option.some.inj (hlives.created.symm.trans horigin)
    exact genuine_of_cron hchange hlawful (hlives.column.trans hcolumn) hparsed
      (h other horigin expression next hcolumn hparsed) hfinds
  | @calendar backend engine c insert nowMs row row' history fired hchange =>
    intro origin horigin expression next hcolumn hparsed
    have horigin : createdRow log = some origin := by
      cases fired <;> exact horigin
    obtain ⟨other, hlives⟩ := haccounted.lives row rfl
    obtain rfl := Option.some.inj (hlives.created.symm.trans horigin)
    have hgenuine := h other horigin expression next hcolumn hparsed
    have hcron : row.metadata.calendarSchedule = none := by
      by_contra hcalendar
      have hnone := htyped row rfl hcalendar
      rw [hlives.column, hcolumn] at hnone
      cases hnone
    cases hchange with
    | limited hstate hlimit =>
      exact hgenuine.keep rfl fun _ => ⟨by rw [hstate]; decide, rfl⟩
    | rejected hstate message => exact hgenuine.keep rfl fun hne => absurd rfl hne
    | fired hfires hnext =>
      rw [hfires.config] at hcron
      cases hcron
    | firedLast hfires hnext =>
      rw [hfires.config] at hcron
      cases hcron

/-- What a cron schedule is meant to do: its runs increase, each is an activation, and the next run
is later than all of them unless the schedule is not selected any more. -/
structure CronProgress (next : Int → Int) (slot : Slot) : Prop where
  increasing : (firedSince slot.log).Pairwise (· > ·)
  genuine : ∀ t ∈ firedSince slot.log, Activation next t
  advanced : ∀ row, slot.row = some row → row.After (firedSince slot.log) ∨
    ∀ nowMs, CronProcessorService.selects row nowMs = false

/-- All cron schedules of the table progress. -/
def CronSchedulesProgress (parse : CronParser) (slots : Slots) : Prop :=
  ∀ id origin, createdRow (slots id).log = some origin → ∀ expression next,
    origin.cronSchedule = some expression → parse expression = .ok next →
      CronProgress next (slots id)

/-- **Cron schedules advance** in every run in which the activations that are asked for exist. -/
theorem cronSchedulesProgress_run {parse : CronParser} (hlawful : LawfulCron parse)
    {ops : List ScheduleOp} (h : FollowsSchedules parse (FindsActivation parse) ops) :
    CronSchedulesProgress parse (runSchedules parse ops) := by
  intro id origin horigin expression next hcolumn hparsed
  have hslot := invariant_runSchedules
    (fun slot => (slot.Accounted ∧ slot.All ScheduleRow.Typed) ∧
      AdvancedOf (· ≠ none) slot ∧ GenuineOf parse slot)
    ⟨⟨Slot.accounted_empty, Slot.all_empty _⟩, advancedOf_empty _, genuineOf_empty parse⟩
    (fun _ _ _ hslot hcall => ⟨⟨accounted_step hslot.1.1, typed_step hslot.1.2⟩,
      advanced_step hslot.1.1 hslot.2.1 (advancesOf_cron hlawful hslot.1.2 hcall),
      genuine_step hlawful hslot.1.1 hslot.1.2 hslot.2.2 hcall⟩) h id
  have hadvanced := hslot.2.1 origin horigin (by rw [hcolumn]; nofun)
  refine ⟨hadvanced.increasing, (hslot.2.2 origin horigin expression next hcolumn hparsed).fired,
    fun row hrow => ?_⟩
  by_cases hstate : row.state = .errored
  · exact .inr fun nowMs => by simp [CronProcessorService.selects, hstate]
  · exact .inl (hadvanced.after row hrow hstate)

/-- `Next` of `* * * * *`. -/
def everyMinute (t : Int) : Int := (t / CivilTime.minute + 1) * CivilTime.minute

/-- Two of the expressions: every minute, and the thirtieth of February. -/
def twoCrons : CronParser := fun expression =>
  if expression = "* * * * *" then .ok everyMinute
  else if expression = "0 0 30 2 *" then .ok fun _ => zeroTime
  else .error "unknown expression"

theorem everyMinute_spec (t : Int) :
    t < everyMinute t ∧ everyMinute t % CivilTime.second = 0 := by
  have hminute : CivilTime.minute = 60000000000 := rfl
  have hsecond : CivilTime.second = 1000000000 := rfl
  simp only [everyMinute, hminute, hsecond]
  omega

theorem lawful_twoCrons : LawfulCron twoCrons := by
  intro expression next hparsed t
  unfold twoCrons at hparsed
  split at hparsed
  · cases hparsed
    exact .inr (everyMinute_spec t)
  · split at hparsed
    · cases hparsed
      exact .inl rfl
    · cases hparsed

/-- A request for a cron schedule. -/
def cronRequest (expression : String) : ScheduleMetadata where
  config := some (.cron expression)
  queueName := "jobs"

/-- A call of the cron processor at an instant, in which the message is inserted. -/
def cronAt (now : Int) : ScheduleCall := .cron { clock := fun _ => now } fun _ => .ok ⟨"m", ()⟩

/-- A schedule is created, its first run is planned, and the run is fired. -/
def firstRuns (expression : String) : List ScheduleOp :=
  [("cron", .create { engine := utcEngine 0, now := 0, nowMs := 0 }
      (some (cronRequest expression))),
   ("cron", cronAt 0),
   ("cron", cronAt CivilTime.minute)]

theorem findsActivation_everyMinute {slot : Slot} {now : Int} (hnow : 0 ≤ now)
    (hcolumn : (slot.row.bind fun row => row.cronSchedule) = some "* * * * *")
    (hnext : ((slot.row.bind fun row => row.nextRun).all fun nextRun => 0 ≤ nextRun) = true) :
    FindsActivation twoCrons slot (cronAt now) := by
  intro row hrow next
  have hnonzero : ∀ t, 0 ≤ t → everyMinute t ≠ zeroTime := by
    intro t ht
    have hlater := (everyMinute_spec t).1
    have hzero : zeroTime = -62135596800000000000 := rfl
    omega
  simp only [hrow, Option.bind_some] at hcolumn hnext
  refine ⟨fun hready _ => ?_, fun nextRun created hfires => ?_⟩
  · rw [hready.parsed hcolumn rfl]
    exact hnonzero now hnow
  · rw [hfires.ready.parsed hcolumn rfl]
    apply hnonzero
    have hpositive : 0 ≤ nextRun := by simpa [hfires.planned] using hnext
    simp only [ofUnixMilli]
    omega

/-- The first runs of a schedule for every minute. -/
theorem cronSchedulesProgress_everyMinute :
    CronSchedulesProgress twoCrons (runSchedules twoCrons (firstRuns "* * * * *")) := by
  refine cronSchedulesProgress_run lawful_twoCrons ⟨trivial, ?_, ?_, trivial⟩
  · exact findsActivation_everyMinute (Int.le_refl 0) (by decide +kernel) (by decide +kernel)
  · exact findsActivation_everyMinute (by decide) (by decide +kernel) (by decide +kernel)

/-- An expression without activations is fired at the zero time. -/
theorem not_cronSchedulesProgress_neverActive :
    ¬ ∀ parse, LawfulCron parse → ∀ ops, CronSchedulesProgress parse (runSchedules parse ops) := by
  intro h
  have hlog : ((createdRow (runSchedules twoCrons (firstRuns "0 0 30 2 *") "cron").log).any
      fun origin => origin.cronSchedule = some "0 0 30 2 *") = true := by
    decide +kernel
  have hfired : zeroTime ∈
      firedSince (runSchedules twoCrons (firstRuns "0 0 30 2 *") "cron").log := by
    decide +kernel
  obtain ⟨origin, horigin, hcolumn⟩ := (Option.any_eq_true ..).mp hlog
  rw [decide_eq_true_eq] at hcolumn
  have hprogress := h twoCrons lawful_twoCrons (firstRuns "0 0 30 2 *") "cron" origin horigin
    "0 0 30 2 *" (fun _ => zeroTime) hcolumn rfl
  exact (hprogress.genuine zeroTime hfired).nonzero rfl

/-! ## Section 3: Calendar schedules -/

/-- The condition on a call: the calculation after a run that is fired finds no instant in its
millisecond or before, neither in the cache nor moved or added there by an exception. -/
def StaysAhead (slot : Slot) : ScheduleCall → Prop
  | .calendar _ engine c insert nowMs => ∀ row, slot.row = some row →
      ∀ nextRun schedule created,
        CalendarService.Fires c engine insert row nowMs nextRun schedule created →
          Calendar.NextRunAhead engine.env engine.now engine.cache (some schedule)
            (ofUnixMilli nextRun) (fun t => nextRun < unixMilli t)
  | _ => True

theorem unixMilli_mono {a b : Int} (h : a ≤ b) : unixMilli a ≤ unixMilli b := by
  simp only [unixMilli, Int.fdiv_eq_ediv_of_nonneg _ (by decide : (0 : Int) ≤ 1000000)]
  omega

/-- A whole second after a millisecond is in a later one. -/
theorem lt_unixMilli_of_runAfter {ms c : Int} (h : Calendar.RunAfter (ofUnixMilli ms) c) :
    ms < unixMilli c := by
  have hafter := h.after
  have hwhole := h.whole
  have hsecond : CivilTime.second = 1000000000 := rfl
  rw [hsecond] at hwhole
  simp only [ofUnixMilli] at hafter
  simp only [unixMilli, Int.fdiv_eq_ediv_of_nonneg _ (by decide : (0 : Int) ≤ 1000000)]
  omega

/-- Calendar schedules advance if no exception leads back. -/
theorem advancesOf_calendar {parse : CronParser} {slot : Slot} {call : ScheduleCall}
    (h : StaysAhead slot call) : AdvancesOf (· = none) parse slot call := by
  cases call with
  | cron c insert =>
    intro row hrow hnone next nextRun created hfires
    -- the processor fires cron schedules only
    obtain ⟨expression, -, hcolumn, -⟩ := hfires.ready.column
    rw [hnone] at hcolumn
    cases hcolumn
  | calendar backend engine c insert nowMs =>
    intro row hrow _ nextRun schedule created t hfires hnext
    have hahead := h row hrow nextRun schedule created hfires
    exact (Calendar.calculateNextRun_bound_iff (fun _ => lt_unixMilli_of_runAfter)
      fun _ _ hlt hle => Int.lt_of_lt_of_le hlt (unixMilli_mono hle)).mpr hahead t hnext
  | create ctx metadata => trivial
  | pause nowMs => trivial
  | resume nowMs => trivial
  | delete => trivial

/-- What a calendar schedule is meant to do: its runs increase, and the next run that is stored is
later than all of them. -/
structure CalendarProgress (slot : Slot) : Prop where
  increasing : (firedSince slot.log).Pairwise (· > ·)
  advanced : ∀ row, slot.row = some row → ∀ nextRun, row.nextRun = some nextRun →
    ∀ t ∈ firedSince slot.log, t < ofUnixMilli nextRun

/-- All calendar schedules of the table progress. -/
def CalendarSchedulesProgress (slots : Slots) : Prop :=
  ∀ id origin, createdRow (slots id).log = some origin →
    origin.metadata.calendarSchedule ≠ none → CalendarProgress (slots id)

theorem calendarProgress_of_advanced {slot : Slot} {origin : ScheduleRow}
    (haccounted : slot.Accounted) (horigin : createdRow slot.log = some origin)
    (hcalendar : origin.metadata.calendarSchedule ≠ none) (h : AdvancedOf (· = none) slot) :
    CalendarProgress slot := by
  have hadvanced := h origin horigin (haccounted.typed origin horigin hcalendar)
  refine ⟨hadvanced.increasing, fun row hrow nextRun hnext t ht => ?_⟩
  obtain ⟨other, hlives⟩ := haccounted.lives row hrow
  have hstate : row.state ≠ .errored := by
    intro herrored
    rw [hlives.ended herrored] at hnext
    cases hnext
  obtain ⟨n, hn, hlt⟩ := hadvanced.after row hrow hstate t ht
  exact Option.some.inj (hn.symm.trans hnext) ▸ hlt

theorem exceptionsAfter_nil (timezone : CivilTime.Location) (candidates : List Int)
    (bound : Int → Prop) : Calendar.ExceptionsAfter [] timezone candidates bound := by
  intro c _ exception hon
  simp [Calendar.exceptionOn] at hon

/-- A schedule without exceptions stays ahead, when nothing is cached. -/
theorem staysAhead_of_noExceptions {slot : Slot} {backend : Backend} {engine : EngineCall}
    {c : Circumstances} {insert : RunRequest → Except CreateError (Created Unit)} {nowMs : Int}
    (hcache : engine.cache = [])
    (h : ((slot.row.bind fun row => row.metadata.calendarSchedule).all fun schedule =>
      schedule.exceptions = []) = true) :
    StaysAhead slot (.calendar backend engine c insert nowMs) := by
  intro row hrow nextRun schedule created hfires s hrequest
  have hschedule : s = schedule := Calendar.checkRequest_eq hrequest
  have hexceptions : schedule.exceptions = [] := by
    simpa [hrow, hfires.config] using h
  subst hschedule
  simp only [hcache, Calendar.cacheHit_nil]
  intro timezone _ candidates _
  rw [hexceptions]
  exact exceptionsAfter_nil timezone candidates _

/-- A call of the calendar processor, in which the message is inserted. -/
def calendarAt (nowMs : Int) : ScheduleCall :=
  .calendar .postgres (utcEngine (ofUnixMilli nowMs)) { clock := fun _ => ofUnixMilli nowMs }
    (fun _ => .ok ⟨"m", ()⟩) nowMs

/-- A schedule for every midnight is created, and its first run is fired. -/
def firstMidnight : List ScheduleOp :=
  [("daily", .create { engine := utcEngine 0, now := 0, nowMs := 0 }
      (some (calendarRequest (Calendar.dailyAt 0)))),
   ("daily", calendarAt 86400000)]

/-- A run every day at nine, but the one of the epoch is moved to the day before. -/
def movedBack : Calendar.CalendarSchedule :=
  { Calendar.dailyAt 9 with
    exceptions := [{ date := some ⟨0, 0⟩, type := .reschedule, rescheduleTo := some ⟨-86400, 0⟩ }] }

end Nzovu.Schedules
