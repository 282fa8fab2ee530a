import Nzovu.Calendar.MonthDays

/-!
# Monthly Rules on a Weekday

The schema numbers the weekdays from 1 for Monday to 7 for Sunday. `evaluateWeekdayOfMonth` and
`evaluateLastWeekday` subtract one and read the result as a weekday of Go, where Sunday is 0: the
weekday before. Every run of such a rule is a day off.
-/

namespace Nzovu.Calendar

open Nzovu.Foundation
open Nzovu.Foundation.CivilTime

namespace Monthly

/-! ## Section 1: The weekdays of a month -/

/-- The weekday of a date as the schema numbers it. -/
def weekdayOf (date : Date) : Int :=
  Weekly.goWeekdayToOurs (weekdayOfDay (dayNumber date.year date.month date.day))

/-- The date is the `n`-th of its weekday in its month: the one in its `n`-th seven days. -/
structure NthWeekday (w n : Int) (date : Date) : Prop where
  valid : date.Valid
  weekday : weekdayOf date = w
  place : 7 * (n - 1) < date.day ∧ date.day ≤ 7 * n

/-- The date is the last of its weekday in its month. -/
structure LastWeekday (w : Int) (date : Date) : Prop where
  valid : date.Valid
  weekday : weekdayOf date = w
  last : lengthOfMonth date.year date.month < date.day + 7

/-- The date a rule on a weekday names, by its documentation. -/
def Names (monthly : MonthlyRule) (date : Date) : Prop :=
  match monthly.dayType with
  | .weekdayOfMonth => NthWeekday monthly.dayValue monthly.occurrence date
  | .lastWeekday => LastWeekday monthly.dayValue date
  | _ => False

theorem Names.weekdayOf_eq {monthly : MonthlyRule} {date : Date} (h : Names monthly date) :
    weekdayOf date = monthly.dayValue := by
  unfold Names at h
  split at h
  · exact h.weekday
  · exact h.weekday
  · exact h.elim

/-- The evaluator runs on a date of the month when some evaluation returns an instant of it. -/
def RunsOn (next : Int → Result Int) (timezone : Location) (date : Date) : Prop :=
  ∃ s t, next s = .ok t ∧ timezone.dateOf t = date

/-- The runs in a month are on the date the rule names, and there is none exactly when the month
has no such date. -/
structure RightInMonth (next : Int → Result Int) (timezone : Location) (monthly : MonthlyRule)
    (year month : Int) : Prop where
  named : ∀ d, RunsOn next timezone ⟨year, month, d⟩ → Names monthly ⟨year, month, d⟩
  skipped : (∀ d, ¬ RunsOn next timezone ⟨year, month, d⟩) ↔
    ∀ d, ¬ Names monthly ⟨year, month, d⟩

/-! ## Section 2: The weekday of a run -/

/-- A valid rule of type WEEKDAY_OF_MONTH or LAST_WEEKDAY in a zone with a fixed offset. -/
structure OnWeekday (ctx : EvaluationContext) (inlineCalendar : Option BusinessCalendar)
    (rule : CalendarRule) (monthly : MonthlyRule) (timezone : Location) (offset : Int) : Prop where
  config : rule.rule = some (.monthly monthly)
  dayType : monthly.dayType = .weekdayOfMonth ∨ monthly.dayType = .lastWeekday
  valid : validateRule ctx inlineCalendar rule = .ok ()
  fixed : timezone.Fixed offset

/-- The first of a weekday in a month, and those a number of weeks later. -/
theorem weekday_nthWeekday {timezone : Location} {offset : Int} (h : timezone.Fixed offset)
    (rule : MonthlyRule) (hday : 1 ≤ rule.dayValue ∧ rule.dayValue ≤ 7) (year month : Int) :
    weekdayOfDay (dayNumber year month (nthWeekday timezone rule year month)) =
      rule.dayValue - 1 := by
  have hfirst : timezone.weekday (timezone.date year month 1 0 0) =
      weekdayOfDay (dayNumber year month 1) := by
    rw [Location.weekday, h.civilDay_date (by decide) (by decide)]
  -- The difference of the two weekdays is taken modulo seven, in either order.
  simp only [nthWeekday, hfirst, dayNumber_eq, weekdayOfDay]
  split <;> omega

/-- The day `evaluateLastWeekday` finds falls on the weekday it looks for. -/
theorem weekday_lastWeekdayFrom {timezone : Location} {offset : Int} (h : timezone.Fixed offset)
    {rule : MonthlyRule} {year month d : Int} {dayOfMonth : Nat}
    (hfound : lastWeekdayFrom timezone rule year month dayOfMonth = some d) :
    weekdayOfDay (dayNumber year month d) = rule.dayValue - 1 := by
  induction dayOfMonth with
  | zero => cases hfound
  | succ dayOfMonth ih =>
    simp only [lastWeekdayFrom] at hfound
    split at hfound
    next hweekday =>
      cases hfound
      rwa [Location.weekday, h.civilDay_date (by decide) (by decide)] at hweekday
    next => exact ih hfound

section Runs

variable {ctx : EvaluationContext} {inlineCalendar : Option BusinessCalendar}
  {rule : CalendarRule} {monthly : MonthlyRule} {timezone : Location} {offset : Int}

namespace OnWeekday

variable (h : OnWeekday ctx inlineCalendar rule monthly timezone offset)
include h

theorem validated :
    (1 ≤ monthly.dayValue ∧ monthly.dayValue ≤ 7) ∧
      (monthly.dayType = .weekdayOfMonth → 1 ≤ monthly.occurrence ∧ monthly.occurrence ≤ 5) ∧
      (∀ m ∈ validMonths monthly, 1 ≤ m ∧ m ≤ 12) ∧
      ∀ t ∈ rule.timesOr {}, 0 ≤ t.seconds ∧ t.seconds < 86400 := by
  have hvalid := h.valid
  simp only [validateRule, h.config] at hvalid
  obtain ⟨hday, hmonths, htimes⟩ := validate_eq_ok hvalid
  unfold validateDay at hday
  rcases h.dayType with htype | htype <;> simp only [htype] at hday
  · split at hday
    · cases hday
    · split at hday
      · cases hday
      · exact ⟨by omega, fun _ => by omega, hmonths, htimes⟩
  · split at hday
    · cases hday
    · exact ⟨by omega, fun hother => (by rw [htype] at hother; cases hother), hmonths, htimes⟩

/-- The evaluator searches the months, for two years. -/
theorem findNextExecution_eq (s : Int) :
    findNextExecution ctx inlineCalendar rule timezone s =
      searchResult "no valid execution time found within 2 years"
        (search s (fun place => .ok (candidates timezone monthly (rule.timesOr {}) place))
          nextMonth 24 (placeOf (monthOf timezone s))) := by
  have hconfig : rule.pattern.rule = some (.monthly monthly) := h.config
  have htimes : rule.pattern.timesOr {} = rule.timesOr {} := rfl
  simp only [findNextExecution, evaluateRule, hconfig, evaluate, placeOf_monthOf,
    pattern_evaluateFrom, htimes]
  rcases h.dayType with htype | htype <;> simp only [htype]

/-- **Every run is a day off**: its weekday, as Go numbers it, is the listed number less one. -/
theorem weekday_of_found {s t : Int}
    (hfound : findNextExecution ctx inlineCalendar rule timezone s = .ok t) :
    timezone.weekday t = monthly.dayValue - 1 := by
  obtain ⟨hday, -, -, htimes⟩ := h.validated
  rw [h.findNextExecution_eq] at hfound
  obtain ⟨n, -, hmem, -⟩ := mem_of_search (searchResult_ok hfound)
  generalize nextMonth^[n] (placeOf (monthOf timezone s)) = place at hmem
  unfold candidates at hmem
  split at hmem
  next hlisted =>
    split at hmem
    next d hselected =>
      obtain ⟨time, htime, rfl⟩ := List.mem_map.mp hmem
      rw [Location.weekday, h.fixed.civilDay_date (htimes time htime) (by decide)]
      unfold selectedDay at hselected
      rcases h.dayType with htype | htype
      · simp only [htype] at hselected
        split at hselected
        · cases hselected
          exact weekday_nthWeekday h.fixed monthly hday _ _
        · cases hselected
      · simp only [htype] at hselected
        exact weekday_lastWeekdayFrom h.fixed hselected
    next => cases hmem
  next => cases hmem

/-- So no run is on a date the rule names. -/
theorem not_names_of_runsOn {date : Date}
    (hruns : RunsOn (findNextExecution ctx inlineCalendar rule timezone) timezone date) :
    ¬ Names monthly date := by
  obtain ⟨s, t, hfound, rfl⟩ := hruns
  intro hnames
  have hweekday := h.weekday_of_found hfound
  have hdocumented := hnames.weekdayOf_eq
  have hday := h.validated.1
  rw [weekdayOf, Location.dateOf, dayNumber_dateOfDay, Weekly.goWeekdayToOurs] at hdocumented
  rw [Location.weekday] at hweekday
  rw [hweekday] at hdocumented
  -- Sunday is 7 in the schema and 0 in Go; on the other days the numbers agree.
  split at hdocumented <;> omega

end OnWeekday

end Runs

/-! ## Section 3: No month is right -/

/-- Within 28 years every weekday falls on the 29th of every month. -/
theorem exists_weekday_29 : ∀ m ∈ (List.range' 1 12 : List Nat), ∀ w ∈ (List.range' 1 7 : List Nat),
    ∃ y ∈ (List.range' 2000 28 : List Nat),
      29 ≤ lengthOfMonth y m ∧ weekdayOf ⟨y, m, 29⟩ = w := by
  decide +kernel

/-- Days that are weeks apart fall on the same weekday. -/
theorem weekdayOf_sub_weeks (year month d n : Int) :
    weekdayOf ⟨year, month, d - 7 * n⟩ = weekdayOf ⟨year, month, d⟩ := by
  simp only [weekdayOf, dayNumber_eq, weekdayOfDay]
  congr 1
  omega

section Names

variable {ctx : EvaluationContext} {inlineCalendar : Option BusinessCalendar}
  {rule : CalendarRule} {monthly : MonthlyRule} {timezone : Location} {offset : Int}

namespace OnWeekday

variable (h : OnWeekday ctx inlineCalendar rule monthly timezone offset)
include h

/-- In some year every month has a date that the rule names. -/
theorem exists_names {month : Int} (hmonth : 1 ≤ month ∧ month ≤ 12) :
    ∃ year d, Names monthly ⟨year, month, d⟩ := by
  obtain ⟨hday, hoccurrence, -, -⟩ := h.validated
  obtain ⟨year, -, hlength, hweekday⟩ := exists_weekday_29 month.toNat
    (List.mem_range'_1.mpr (by omega)) monthly.dayValue.toNat (List.mem_range'_1.mpr (by omega))
  rw [Int.toNat_of_nonneg (by omega)] at hlength hweekday
  rw [Int.toNat_of_nonneg (by omega)] at hweekday
  have hmost : lengthOfMonth year month ≤ 31 := by
    rw [← lengthOf_monthIndex hmonth]
    exact (lengthOf_range _).2
  rcases h.dayType with htype | htype
  · have hrange := hoccurrence htype
    -- The fifth such weekday is the 29th, and the others lie weeks before it.
    refine ⟨year, 29 - 7 * (5 - monthly.occurrence), ?_⟩
    simp only [Names, htype]
    refine ⟨⟨hmonth, ?_⟩, ?_, ?_⟩
    · dsimp only
      omega
    · rw [weekdayOf_sub_weeks, hweekday]
    · dsimp only
      omega
  · refine ⟨year, 29, ?_⟩
    simp only [Names, htype]
    refine ⟨⟨hmonth, ?_⟩, hweekday, ?_⟩
    · dsimp only
      omega
    · dsimp only
      omega

/-- **Weekdays of the month**: no month that has the date the rule names is right, whatever the
rule, and every listed month has it in some year. -/
theorem not_rightInMonth :
    (∀ date, Names monthly date →
      ¬ RightInMonth (findNextExecution ctx inlineCalendar rule timezone) timezone monthly
        date.year date.month) ∧
    ¬ ∀ year, ∀ month ∈ validMonths monthly,
      RightInMonth (findNextExecution ctx inlineCalendar rule timezone) timezone monthly
        year month := by
  have hnever : ∀ date, Names monthly date →
      ¬ RightInMonth (findNextExecution ctx inlineCalendar rule timezone) timezone monthly
        date.year date.month := by
    intro date hnames hright
    have hsome : ¬ ∀ d, ¬ RunsOn (findNextExecution ctx inlineCalendar rule timezone) timezone
        ⟨date.year, date.month, d⟩ := fun hnone => hright.skipped.mp hnone date.day hnames
    push Not at hsome
    obtain ⟨d, hruns⟩ := hsome
    exact h.not_names_of_runsOn hruns (hright.named d hruns)
  refine ⟨hnever, fun hright => ?_⟩
  obtain ⟨month, hmonth⟩ := List.exists_mem_of_ne_nil _ (validMonths_ne_nil monthly)
  obtain ⟨year, d, hnames⟩ := h.exists_names (h.validated.2.2.1 month hmonth)
  exact hnever _ hnames (hright year month hmonth)

end OnWeekday

end Names

/-- The first Tuesday of every month. -/
def firstTuesday : CalendarRule := { rule := some (.monthly ⟨.weekdayOfMonth, 2, 1, []⟩) }

theorem onWeekday_firstTuesday :
    OnWeekday ⟨none, 0⟩ none firstTuesday ⟨.weekdayOfMonth, 2, 1, []⟩ utc 0 :=
  ⟨rfl, .inl rfl, by decide, Location.fixed_utc⟩

/-- In January 1970 it is the 6th. -/
theorem not_rightInMonth_firstTuesday :
    ¬ RightInMonth (findNextExecution ⟨none, 0⟩ none firstTuesday utc) utc
      ⟨.weekdayOfMonth, 2, 1, []⟩ 1970 1 :=
  onWeekday_firstTuesday.not_rightInMonth.1 ⟨1970, 1, 6⟩
    ⟨⟨by decide, by decide⟩, by decide, by decide⟩

/-- The rule runs on Monday, January 5. -/
theorem not_rightInMonth_monday :
    ¬ ∀ (ctx : EvaluationContext) (inlineCalendar : Option BusinessCalendar) (rule : CalendarRule)
      (monthly : MonthlyRule) (timezone : Location) (offset : Int),
      OnWeekday ctx inlineCalendar rule monthly timezone offset →
        ∀ year, ∀ month ∈ validMonths monthly,
          RightInMonth (findNextExecution ctx inlineCalendar rule timezone) timezone monthly
            year month := by
  intro h
  have hright := h _ _ _ _ _ _ onWeekday_firstTuesday 1970 1 (by decide)
  have hruns : RunsOn (findNextExecution ⟨none, 0⟩ none firstTuesday utc) utc ⟨1970, 1, 5⟩ :=
    ⟨0, 4 * day, by decide +kernel, by decide +kernel⟩
  exact absurd (hright.named 5 hruns).weekdayOf_eq (by decide)

end Monthly

end Nzovu.Calendar
