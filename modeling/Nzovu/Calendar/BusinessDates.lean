import Nzovu.Calendar.MonthWeekdays

/-!
# Business Days

A business calendar lists weekend days and holidays; a holiday is given by a date, once or every
year, or by a rule. `isBusinessDay` compares instants: the start of the UTC day of the holiday with
that of the date the search has come to, of which the local date is the day before when the offset
is negative. It never looks at a rule; a holiday without a date has the date of a nil timestamp,
January 1, 1970.

- Section 1: the dates a calendar closes.
- Section 2: the dates the evaluator takes for holidays.
- Section 3: the walk through the days.
- Section 4: when it keeps to the calendar.
-/

namespace Nzovu.Calendar

open Nzovu.Foundation
open Nzovu.Foundation.CivilTime

namespace BusinessDays

/-! ## Section 1: The dates a calendar closes -/

/-- Easter Sunday of the Gregorian calendar: the Sunday after the ecclesiastical full moon. -/
def easterSunday (year : Int) : Date :=
  let century := year / 100
  let golden := year % 19
  let moon :=
    (19 * golden + century - century / 4 - (century - (century + 8) / 25 + 1) / 3 + 15) % 30
  let sunday := (32 + 2 * (century % 4) + 2 * (year % 100 / 4) - moon - year % 100 % 4) % 7
  let late := (golden + 11 * moon + 22 * sunday) / 451
  let count := moon + sunday - 7 * late + 114
  ⟨year, count / 31, count % 31 + 1⟩

example : easterSunday 2024 = ⟨2024, 3, 31⟩ := by decide

end BusinessDays

open BusinessDays in
/-- The dates a holiday rule names, every year. -/
def HolidayRule.Closes (date : Date) : HolidayRule → Prop
  | .fixed month d => date.month = month ∧ date.day = d
  | .relative month weekday occurrence =>
    date.month = month ∧
      if occurrence = -1 then Monthly.LastWeekday weekday date
      else Monthly.NthWeekday weekday occurrence date
  | .easterOffset daysOffset =>
    ∃ year, dayNumber date.year date.month date.day =
      dayNumber year (easterSunday year).month (easterSunday year).day + daysOffset

/-- The dates of a holiday: those its rule names, if it has one; else its own date, or the one of
every year. -/
def Holiday.Closes (holiday : Holiday) (date : Date) : Prop :=
  match holiday.rule, holiday.date with
  | some rule, _ => rule.Closes date
  | none, some own =>
    if holiday.recurringYearly then
      date.month = (utc.dateOf own.asTime).month ∧ date.day = (utc.dateOf own.asTime).day
    else date = utc.dateOf own.asTime
  | none, none => False

/-- The calendar leaves the date open. -/
def BusinessCalendar.Opens (calendar : BusinessCalendar) (date : Date) : Prop :=
  Monthly.weekdayOf date ∉ calendar.weekendDays ∧
    ¬ ∃ holiday ∈ calendar.holidays, holiday.Closes date

/-! ## Section 2: The dates the evaluator takes for holidays -/

/-- The days fall on the same date of the year. -/
def SameDayOfYear (m n : Int) : Prop :=
  (dateOfDay m).month = (dateOfDay n).month ∧ (dateOfDay m).day = (dateOfDay n).day

theorem midnight_inj {m n : Int} : m * day = n * day ↔ m = n := by
  simp only [day, hour, minute, second]
  omega

theorem dateOf_midnight_utc (n : Int) : utc.dateOf (n * day) = dateOfDay n := by
  rw [Location.dateOf, civilDay_midnight Location.fixed_utc]
  simp

namespace BusinessDays

/-- The UTC day of a holiday. -/
def utcDay (holiday : Holiday) : Int := (holiday.date.getD ⟨0, 0⟩).asTime / day

/-- The evaluator takes the civil day for the holiday: it is the holiday's UTC day, one day earlier
when the offset is negative, or has its month and day every year. -/
def Marked (offset : Int) (holiday : Holiday) (number : Int) : Prop :=
  utcDay holiday + offset / 86400 = number ∨
  (holiday.recurringYearly = true ∧
    (dateOfDay (utcDay holiday)).month = (dateOfDay number).month ∧
    (dateOfDay (utcDay holiday)).day = (dateOfDay number).day)

/-- The weekday of a civil day as the schema numbers it. -/
theorem weekdayOf_dateOfDay (number : Int) :
    Monthly.weekdayOf (dateOfDay number) = Weekly.goWeekdayToOurs (weekdayOfDay number) := by
  rw [Monthly.weekdayOf, dayNumber_dateOfDay]

/-- The evaluator looks at the UTC day, and at the local date for holidays that recur. -/
theorem evaluator_iff {timezone : Location} (calendar : BusinessCalendar) (date : Int) :
    isBusinessDay timezone calendar date = true ↔
      Weekly.goWeekdayToOurs (weekdayOfDay (timezone.civilDay date)) ∉ calendar.weekendDays ∧
        ∀ holiday ∈ calendar.holidays, utcDay holiday ≠ date / day ∧
          ¬ (holiday.recurringYearly = true ∧
            SameDayOfYear (utcDay holiday) (timezone.civilDay date)) := by
  have hlocal : timezone.dateOf date = dateOfDay (timezone.civilDay date) := rfl
  simp only [isBusinessDay, Bool.and_eq_true, decide_eq_true_eq, List.all_eq_true]
  refine and_congr_right fun _ => forall₂_congr fun holiday _ => ?_
  simp only [truncateDay_eq, dateOf_midnight_utc, ne_eq, midnight_inj, hlocal, SameDayOfYear,
    utcDay]
  cases holiday.recurringYearly <;> simp [imp_iff_not_or]

/-- At the start of a UTC day both are known from the civil day. -/
theorem isBusinessDay_iff {timezone : Location} {offset : Int} (h : timezone.Fixed offset)
    (calendar : BusinessCalendar) (n : Int) :
    isBusinessDay timezone calendar (n * day) = true ↔
      Monthly.weekdayOf (dateOfDay (n + offset / 86400)) ∉ calendar.weekendDays ∧
        ∀ holiday ∈ calendar.holidays, ¬ Marked offset holiday (n + offset / 86400) := by
  have hutc : n * day / day = n := Int.mul_ediv_cancel n (by decide)
  rw [evaluator_iff, civilDay_midnight h, hutc, weekdayOf_dateOfDay]
  refine and_congr_right fun _ => forall₂_congr fun holiday _ => ?_
  rw [Marked, not_or, Int.add_left_inj]
  rfl

/-! ## Section 3: The walk through the days -/

section Walk

variable {ctx : EvaluationContext} {inlineCalendar : Option BusinessCalendar}
  {rule : CalendarRule} {business : BusinessDaysRule} {calendar : BusinessCalendar}
  {timezone : Location} {offset : Int}

/-- A valid business-day rule without an offset of days, its calendar, and a zone with a fixed
offset. -/
structure OnBusinessDays (ctx : EvaluationContext) (inlineCalendar : Option BusinessCalendar)
    (rule : CalendarRule) (business : BusinessDaysRule) (calendar : BusinessCalendar)
    (timezone : Location) (offset : Int) : Prop where
  config : rule.rule = some (.businessDays business)
  dayOffset : business.dayOffset = 0
  calendar : ruleCalendar ctx inlineCalendar business = .ok calendar
  valid : validateRule ctx inlineCalendar rule = .ok ()
  fixed : timezone.Fixed offset

/-- The civil day has an execution time after the start; by default it is nine o'clock. -/
abbrev Late (offset : Int) (rule : CalendarRule) (start number : Int) : Prop :=
  Calendar.Late offset (rule.timesOr { hour := 9 }) start number

/-- The evaluator takes the civil day for a business day. -/
def TakesFor (offset : Int) (calendar : BusinessCalendar) (number : Int) : Prop :=
  Monthly.weekdayOf (dateOfDay number) ∉ calendar.weekendDays ∧
    ∀ holiday ∈ calendar.holidays, ¬ Marked offset holiday number

namespace OnBusinessDays

variable (h : OnBusinessDays ctx inlineCalendar rule business calendar timezone offset)
include h

theorem validated (t : TimeOfDay) (ht : t ∈ rule.timesOr { hour := 9 }) :
    0 ≤ t.seconds ∧ t.seconds < 86400 := by
  have hvalid := h.valid
  simp only [validateRule, h.config, validate] at hvalid
  split at hvalid
  · cases hvalid
  · split at hvalid
    · cases hvalid
    · exact CalendarRule.mem_timesOr hvalid (by decide) ht

theorem candidates_eq (date : Int) :
    candidates ctx timezone business calendar (rule.timesOr { hour := 9 }) date =
      .ok (dayOffers timezone (isBusinessDay timezone calendar) (rule.timesOr { hour := 9 })
        date) := by
  have hstay : applyDayOffset ctx timezone calendar business.dayOffset date = .ok date := by
    rw [h.dayOffset, applyDayOffset, Int.natAbs_zero]
    cases ctx.offsetDays <;> rfl
  unfold candidates dayOffers
  rw [hstay]
  by_cases hopen : isBusinessDay timezone calendar date = true
  · simp only [hopen, if_true]
  · simp only [hopen, Bool.false_eq_true, if_false]

/-- The evaluator searches the days, for a year. -/
theorem findNextExecution_eq (s : Int) :
    findNextExecution ctx inlineCalendar rule timezone s =
      searchResult "no valid execution time found within 1 year"
        (search s (fun date => .ok (dayOffers timezone (isBusinessDay timezone calendar)
          (rule.timesOr { hour := 9 }) date)) (· + day) 365 (truncateDay s)) := by
  have hconfig : rule.pattern.rule = some (.businessDays business) := h.config
  have htimes : rule.pattern.timesOr { hour := 9 } = rule.timesOr { hour := 9 } := rfl
  simp only [findNextExecution, evaluateRule, hconfig, evaluate, pattern_evaluateFrom, htimes,
    h.calendar]
  rw [funext h.candidates_eq]

/-- The `n`-th day of the walk is taken for a business day. -/
theorem takes_iff (s : Int) (n : Nat) :
    isBusinessDay timezone calendar ((s / day + n) * day) = true ↔
      TakesFor offset calendar (firstDay offset s + n) := by
  have hnumber : s / day + n + offset / 86400 = firstDay offset s + n := by
    unfold firstDay
    omega
  rw [isBusinessDay_iff h.fixed, hnumber, TakesFor]

/-- What the evaluator finds: the first execution time after the start of the first civil day it
takes for a business day and that has one. -/
theorem found_spec {s t : Int}
    (hfound : findNextExecution ctx inlineCalendar rule timezone s = .ok t) :
    (firstDay offset s ≤ timezone.civilDay t ∧ timezone.civilDay t < firstDay offset s + 365) ∧
      TakesFor offset calendar (timezone.civilDay t) ∧
      Late offset rule s (timezone.civilDay t) ∧
      ∀ number, firstDay offset s ≤ number → number < timezone.civilDay t →
        TakesFor offset calendar number → ¬ Late offset rule s number := by
  rw [h.findNextExecution_eq] at hfound
  obtain ⟨n, hn, htakes, ht, hlate, hbefore⟩ := dayWalk_found h.fixed (searchResult_ok hfound)
  rw [h.takes_iff] at htakes
  rw [civilDay_of_mem_instantsOn h.fixed h.validated ht]
  refine ⟨by omega, htakes, ⟨t, ht, hlate⟩, fun number hle hlt htakes' => ?_⟩
  obtain ⟨m, rfl⟩ := Int.le.dest hle
  exact hbefore m (by omega) ((h.takes_iff s m).mpr htakes')

/-- The evaluator gets no further than a day it takes for a business day and that has an execution
time after the start. -/
theorem finds {s number : Int} (hle : firstDay offset s ≤ number)
    (hlt : number < firstDay offset s + 365) (htakes : TakesFor offset calendar number)
    (hlate : Late offset rule s number) :
    ∃ t, findNextExecution ctx inlineCalendar rule timezone s = .ok t ∧
      timezone.civilDay t ≤ number := by
  obtain ⟨n, rfl⟩ := Int.le.dest hle
  obtain ⟨t, m, hm, ht, hsearch⟩ := dayWalk_finds h.fixed (show n < 365 by omega)
    ((h.takes_iff s n).mpr htakes) hlate
  refine ⟨t, by rw [h.findNextExecution_eq, hsearch, searchResult_some], ?_⟩
  rw [civilDay_of_mem_instantsOn h.fixed h.validated ht]
  omega

end OnBusinessDays

end Walk

/-! ## Section 4: Keeping to the calendar -/

/-- The evaluator runs on open dates only, and passes over none in its search window that has an
execution time after the start. -/
structure KeepsToCalendar (next : Int → Result Int) (timezone : Location) (offset : Int)
    (calendar : BusinessCalendar) (executionTimes : List TimeOfDay) (start : Int) : Prop where
  sound : ∀ t, next start = .ok t → calendar.Opens (timezone.dateOf t)
  complete : ∀ number, firstDay offset start ≤ number → number < firstDay offset start + 365 →
    calendar.Opens (dateOfDay number) →
    (∃ u ∈ atTimes timezone (dateOfDay number) executionTimes, start < u) →
      ∃ t, next start = .ok t ∧ timezone.civilDay t ≤ number

/-- The condition: up to the first civil day of the search window that the calendar leaves open and
that has an execution time after the start, every working day with such a time is one that the
evaluator takes for a holiday exactly when the calendar lists it as one. -/
def HolidaysAgree (offset : Int) (calendar : BusinessCalendar) (rule : CalendarRule)
    (start : Int) : Prop :=
  ∀ number, firstDay offset start ≤ number → number < firstDay offset start + 365 →
    Late offset rule start number → Monthly.weekdayOf (dateOfDay number) ∉ calendar.weekendDays →
    (∀ m, firstDay offset start ≤ m → m < number → calendar.Opens (dateOfDay m) →
      ¬ Late offset rule start m) →
    ((∃ holiday ∈ calendar.holidays, Marked offset holiday number) ↔
      ∃ holiday ∈ calendar.holidays, holiday.Closes (dateOfDay number))

section Keeps

variable {ctx : EvaluationContext} {inlineCalendar : Option BusinessCalendar}
  {rule : CalendarRule} {business : BusinessDaysRule} {calendar : BusinessCalendar}
  {timezone : Location} {offset start : Int}

/-- Where the two agree, the evaluator takes an open date for a business day, and the other way
round. -/
theorem takesFor_iff_opens {number : Int}
    (h : Monthly.weekdayOf (dateOfDay number) ∉ calendar.weekendDays →
      ((∃ holiday ∈ calendar.holidays, Marked offset holiday number) ↔
        ∃ holiday ∈ calendar.holidays, holiday.Closes (dateOfDay number))) :
    TakesFor offset calendar number ↔ calendar.Opens (dateOfDay number) := by
  refine and_congr_right fun hweekday => ?_
  rw [← h hweekday]
  simp

/-- **Business days**: the evaluator keeps to the calendar exactly when the holidays agree. -/
theorem OnBusinessDays.keepsToCalendar_iff
    (h : OnBusinessDays ctx inlineCalendar rule business calendar timezone offset) :
    KeepsToCalendar (findNextExecution ctx inlineCalendar rule timezone) timezone offset calendar
      (rule.timesOr { hour := 9 }) start ↔ HolidaysAgree offset calendar rule start := by
  have hlate : ∀ number, (∃ u ∈ atTimes timezone (dateOfDay number) (rule.timesOr { hour := 9 }),
      start < u) ↔ Late offset rule start number := by
    intro number
    rw [atTimes_dateOfDay h.fixed]
    exact Iff.rfl
  constructor
  · intro hkeeps number hle hlt hnumber hweekday hnone
    -- neither side can be the first to leave the day open
    constructor
    · intro hmarked
      by_contra hopen
      obtain ⟨t, hfound, ht⟩ := hkeeps.complete number hle hlt ⟨hweekday, hopen⟩
        ((hlate number).mpr hnumber)
      obtain ⟨⟨hfirst, -⟩, htakes, hlate', -⟩ := h.found_spec hfound
      rcases Int.lt_or_eq_of_le ht with hbefore | heq
      · exact hnone _ hfirst hbefore (hkeeps.sound t hfound) hlate'
      · obtain ⟨holiday, hholiday, hmark⟩ := hmarked
        exact htakes.2 holiday hholiday (heq ▸ hmark)
    · intro hcloses
      by_contra hunmarked
      have htakes : TakesFor offset calendar number :=
        ⟨hweekday, fun holiday hholiday hmark => hunmarked ⟨holiday, hholiday, hmark⟩⟩
      obtain ⟨t, hfound, ht⟩ := h.finds hle hlt htakes hnumber
      obtain ⟨⟨hfirst, -⟩, -, hlate', -⟩ := h.found_spec hfound
      have hopens := hkeeps.sound t hfound
      rcases Int.lt_or_eq_of_le ht with hbefore | heq
      · exact hnone _ hfirst hbefore hopens hlate'
      · rw [Location.dateOf, heq] at hopens
        exact hopens.2 hcloses
  · intro hagree
    have hequal : ∀ number, firstDay offset start ≤ number →
        number < firstDay offset start + 365 → Late offset rule start number →
        (∀ m, firstDay offset start ≤ m → m < number →
          ¬ (calendar.Opens (dateOfDay m) ∧ Late offset rule start m)) →
        (TakesFor offset calendar number ↔ calendar.Opens (dateOfDay number)) := by
      intro number hle hlt hnumber hnone
      exact takesFor_iff_opens fun hweekday => hagree number hle hlt hnumber hweekday
        fun m hm hmn hopens hm' => hnone m hm hmn ⟨hopens, hm'⟩
    refine ⟨fun t hfound => ?_, fun number hle hlt hopens hexists => ?_⟩
    · obtain ⟨⟨hfirst, hwindow⟩, htakes, hlate', hearlier⟩ := h.found_spec hfound
      refine (hequal _ hfirst hwindow hlate' fun m hm hmt hboth => ?_).mp htakes
      -- an open day before it would have been taken
      obtain ⟨j, hj, hjm, ⟨hjopen, hjlate⟩, hjfirst⟩ := @exists_first
        (fun m => calendar.Opens (dateOfDay m) ∧ Late offset rule start m) _ _ hm hboth
      have hjtakes := (hequal j hj (by omega) hjlate hjfirst).mpr hjopen
      exact hearlier j hj (by omega) hjtakes hjlate
    · obtain ⟨j, hj, hjn, ⟨hjopen, hjlate⟩, hjfirst⟩ := @exists_first
        (fun m => calendar.Opens (dateOfDay m) ∧ Late offset rule start m) _ _ hle
        ⟨hopens, (hlate number).mp hexists⟩
      have hjtakes := (hequal j hj (by omega) hjlate hjfirst).mpr hjopen
      obtain ⟨t, hfound, ht⟩ := h.finds hj (by omega) hjtakes hjlate
      exact ⟨t, hfound, by omega⟩

/-- A holiday given by a date alone is taken for what it is where the offset is not negative. -/
theorem marked_iff_closes (hoffset : 0 ≤ offset ∧ offset < 86400) {holiday : Holiday}
    {own : Timestamp} (hdate : holiday.date = some own) (hrule : holiday.rule = none)
    (number : Int) : Marked offset holiday number ↔ holiday.Closes (dateOfDay number) := by
  have hshift : offset / 86400 = 0 := by omega
  have hown : utcDay holiday = utc.civilDay own.asTime := by
    rw [utcDay, hdate, Option.getD_some, Location.fixed_utc.civilDay_eq]
    simp
  have hinj : dateOfDay number = dateOfDay (utcDay holiday) ↔ utcDay holiday = number :=
    dateOfDay_inj.trans eq_comm
  simp only [Marked, Holiday.Closes, hrule, hdate, hshift, Int.add_zero, Location.dateOf, ← hown,
    hinj]
  cases holiday.recurringYearly with
  | false => simp
  | true =>
    simp only [true_and, if_true]
    constructor
    · rintro (rfl | hsame)
      · exact ⟨rfl, rfl⟩
      · exact ⟨hsame.1.symm, hsame.2.symm⟩
    · exact fun hsame => .inr ⟨hsame.1.symm, hsame.2.symm⟩

/-- So calendars with dated holidays only are kept to where the offset is not negative. -/
theorem holidaysAgree_of_dated (hoffset : 0 ≤ offset ∧ offset < 86400)
    (hdated : ∀ holiday ∈ calendar.holidays, (∃ own, holiday.date = some own) ∧ holiday.rule = none)
    (rule : CalendarRule) (start : Int) : HolidaysAgree offset calendar rule start := by
  intro number _ _ _ _ _
  refine exists_congr fun holiday => and_congr_right fun hholiday => ?_
  obtain ⟨⟨own, hdate⟩, hrule⟩ := hdated holiday hholiday
  exact marked_iff_closes hoffset hdate hrule number

end Keeps

/-! ### A dated calendar, and the calendar of the United States -/

/-- `CreateUSBusinessCalendar`. -/
def createUSBusinessCalendar : BusinessCalendar where
  calendarId := "us-business"
  weekendDays := [6, 7]
  timezone := "America/New_York"
  holidays :=
    [{ recurringYearly := true, rule := some (.fixed 1 1) },
     { recurringYearly := true, rule := some (.fixed 7 4) },
     { recurringYearly := true, rule := some (.fixed 12 25) },
     { recurringYearly := true, rule := some (.relative 9 1 1) },
     { recurringYearly := true, rule := some (.relative 11 4 4) }]

/-- A calendar with one holiday, July 4, 2024. -/
def datedCalendar : BusinessCalendar where
  calendarId := "dated"
  weekendDays := [6, 7]
  timezone := "UTC"
  holidays := [{ date := some ⟨1720051200, 0⟩, recurringYearly := false }]

/-- The business days of a calendar. -/
def businessDaysOf (calendar : BusinessCalendar) : CalendarRule :=
  { rule := some (.businessDays ⟨calendar.calendarId, 0⟩) }

theorem onBusinessDays_of {calendar : BusinessCalendar}
    (h : calendar = createUSBusinessCalendar ∨ calendar = datedCalendar) :
    OnBusinessDays ⟨none, 0⟩ (some calendar) (businessDaysOf calendar) ⟨calendar.calendarId, 0⟩
      calendar utc 0 := by
  refine ⟨rfl, rfl, ?_, ?_, Location.fixed_utc⟩ <;> rcases h with rfl | rfl <;> decide

/-- On July 4, 2024 it is not a business day. -/
theorem keepsToCalendar_dated :
    KeepsToCalendar (findNextExecution ⟨none, 0⟩ (some datedCalendar)
        (businessDaysOf datedCalendar) utc) utc 0 datedCalendar [{ hour := 9 }]
      (dayNumber 2024 7 4 * day) :=
  (onBusinessDays_of (.inr rfl)).keepsToCalendar_iff.mpr
    (holidaysAgree_of_dated (by decide) (by simp [datedCalendar]) _ _)

/-- By the calendar of the United States, it is. -/
theorem not_keepsToCalendar_unitedStates :
    ¬ ∀ (ctx : EvaluationContext) (inlineCalendar : Option BusinessCalendar) (rule : CalendarRule)
      (business : BusinessDaysRule) (calendar : BusinessCalendar) (timezone : Location)
      (offset start : Int),
      OnBusinessDays ctx inlineCalendar rule business calendar timezone offset →
        KeepsToCalendar (findNextExecution ctx inlineCalendar rule timezone) timezone offset
          calendar (rule.timesOr { hour := 9 }) start := by
  intro h
  have hkeeps := h _ _ _ _ _ _ _ (dayNumber 2024 7 4 * day) (onBusinessDays_of (.inl rfl))
  have hfound : findNextExecution ⟨none, 0⟩ (some createUSBusinessCalendar)
      (businessDaysOf createUSBusinessCalendar) utc (dayNumber 2024 7 4 * day) =
        .ok (dayNumber 2024 7 4 * day + 9 * hour) := by decide +kernel
  have hdate : utc.dateOf (dayNumber 2024 7 4 * day + 9 * hour) = ⟨2024, 7, 4⟩ := by decide +kernel
  obtain ⟨-, hopen⟩ := hkeeps.sound _ hfound
  rw [hdate] at hopen
  exact hopen ⟨{ recurringYearly := true, rule := some (.fixed 7 4) }, by decide, rfl, rfl⟩

end BusinessDays

end Nzovu.Calendar
