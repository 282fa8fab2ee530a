import Nzovu.Calendar.LocalDates

/-!
# Skipped Dates

Three evaluators look at nothing but the local dates at midnight UTC: those of daily and weekly
rules without an interval, and of business-day rules with the default calendar and without an
offset of days. Their walk passes over a date when the offset from UTC rises from below zero to
zero or above on its UTC day.

- Section 1: the rules.
- Section 2: what the evaluators find.
- Section 3: the earliest date.
- Section 4: offsets below a day.
-/

namespace Nzovu.Calendar

open Nzovu.Foundation
open Nzovu.Foundation.CivilTime

/-! ## Section 1: The rules -/

/-- Daily and weekly rules without an interval, and business-day rules with the default calendar
and without an offset of days. -/
def EveryDay : RuleConfig → Prop
  | .daily daily => daily.dayInterval ≤ 1
  | .weekly weekly => weekly.weekInterval ≤ 1
  | .businessDays business => business.businessCalendarId = "" ∧ business.dayOffset = 0
  | _ => False

/-- The rule runs on this weekday, as Go numbers it. -/
def runsOnWeekday : RuleConfig → Int → Bool
  | .daily daily, weekday => !(daily.weekdaysOnly && (weekday = 6 || weekday = 0))
  | .weekly weekly, weekday => Weekly.goWeekdayToOurs weekday ∈ weekly.daysOfWeek
  | .businessDays _, weekday =>
    Weekly.goWeekdayToOurs weekday ∉ BusinessDays.getDefaultBusinessCalendar.weekendDays
  | _, _ => false

/-- For so many days the evaluator searches. -/
def searchDays : RuleConfig → Nat
  | .weekly _ => 14
  | _ => 365

/-- A valid rule of this kind. -/
structure OnEveryDay (ctx : EvaluationContext) (inlineCalendar : Option BusinessCalendar)
    (rule : CalendarRule) (config : RuleConfig) : Prop where
  kind : EveryDay config
  config : rule.rule = some config
  valid : validateRule ctx inlineCalendar rule = .ok ()

section Walk

variable {ctx : EvaluationContext} {inlineCalendar : Option BusinessCalendar}
  {rule : CalendarRule} {config : RuleConfig} (timezone : Location) (start : Int)

/-- The evaluator looks at the weekday of the local date alone. -/
theorem OnEveryDay.visits_eq (h : OnEveryDay ctx inlineCalendar rule config) :
    visits ctx inlineCalendar timezone start rule.rule =
      (List.iterate (· + day) (truncateDay start) (searchDays config)).map fun currentDate =>
        .ok (if runsOnWeekday config (timezone.weekday currentDate) then
          some (timezone.dateOf currentDate)
        else none) := by
  have hkind := h.kind
  rw [h.config]
  cases config with
  | daily daily =>
    -- every day is due
    have hinterval : (if daily.dayInterval ≤ 0 then 1 else daily.dayInterval) = 1 := by
      simp only [EveryDay] at hkind
      split <;> omega
    simp only [visits, hinterval]
    refine List.map_congr_left fun currentDate _ => ?_
    have hruns : (Daily.isValidDay currentDate ((daily.startDate.map (·.asTime)).getD start) 1 &&
        !(daily.weekdaysOnly && Daily.isWeekend timezone currentDate)) =
          runsOnWeekday (.daily daily) (timezone.weekday currentDate) := by
      simp [Daily.isValidDay, runsOnWeekday, Daily.isWeekend]
    simp only [Daily.visit, hruns]
  | weekly weekly =>
    -- every week is due
    have hinterval : (if weekly.weekInterval ≤ 0 then 1 else weekly.weekInterval) = 1 := by
      simp only [EveryDay] at hkind
      split <;> omega
    have hdays : weekly.daysOfWeek ≠ [] := by
      intro hnone
      have hvalid := h.valid
      simp [validateRule, h.config, Weekly.validate, hnone] at hvalid
    simp only [visits, hinterval, if_neg hdays]
    refine List.map_congr_left fun currentDate _ => ?_
    have hruns : (Weekly.isValidWeek timezone currentDate
        ((weekly.startWeek.map (·.asTime)).getD start) 1 &&
        decide (Weekly.goWeekdayToOurs (timezone.weekday currentDate) ∈ weekly.daysOfWeek)) =
          runsOnWeekday (.weekly weekly) (timezone.weekday currentDate) := by
      simp [Weekly.isValidWeek, runsOnWeekday]
    simp only [Weekly.visit, hruns]
  | businessDays business =>
    obtain ⟨hcalendar, hoffset⟩ := hkind
    have hrule : BusinessDays.ruleCalendar ctx inlineCalendar business =
        .ok BusinessDays.getDefaultBusinessCalendar := if_pos hcalendar
    simp only [visits, hrule]
    refine List.map_congr_left fun currentDate _ => ?_
    -- a day is moved to itself
    have hstay : BusinessDays.applyDayOffset ctx timezone BusinessDays.getDefaultBusinessCalendar
        business.dayOffset currentDate = .ok currentDate := by
      rw [hoffset, BusinessDays.applyDayOffset, Int.natAbs_zero]
      cases ctx.offsetDays <;> rfl
    have hopen : BusinessDays.isBusinessDay timezone BusinessDays.getDefaultBusinessCalendar
        currentDate = runsOnWeekday (.businessDays business) (timezone.weekday currentDate) := by
      simp [BusinessDays.isBusinessDay, runsOnWeekday, BusinessDays.getDefaultBusinessCalendar]
    simp only [BusinessDays.visit, hopen, hstay]
    split
    · rfl
    · rfl
  | monthly _ => exact hkind.elim
  | yearly _ => exact hkind.elim
  | custom => exact hkind.elim

end Walk

/-! ## Section 2: What the evaluators find -/

/-- The rule allows the date of the civil day. -/
def Allows (config : RuleConfig) (number : Int) : Prop :=
  runsOnWeekday config (weekdayOfDay number) = true

/-- The `n`-th date of the walk is the first that the rule allows and that has an instant after the
start. -/
abbrev FirstServed (config : RuleConfig) (rule : CalendarRule) (timezone : Location)
    (start : Int) (n : Nat) : Prop :=
  FirstTaken timezone rule start (fun currentDate => runsOnWeekday config
    (timezone.weekday currentDate)) (searchDays config) n

/-- **What the evaluators find**: the first instant after the start of the first such date. -/
theorem OnEveryDay.findNextExecution_eq_ok {ctx : EvaluationContext}
    {inlineCalendar : Option BusinessCalendar} {rule : CalendarRule} {config : RuleConfig}
    {timezone : Location} {start t : Int} (h : OnEveryDay ctx inlineCalendar rule config) :
    findNextExecution ctx inlineCalendar rule timezone start = .ok t ↔
      ∃ n, FirstServed config rule timezone start n ∧
        firstLate timezone rule start (visitedDay timezone start n) = some t :=
  findNextExecution_eq_ok_iff (h.visits_eq timezone start)

/-! ## Section 3: The earliest date -/

/-- The earliest date that the rule allows and that has an instant after the start. -/
structure EarliestDate (config : RuleConfig) (rule : CalendarRule) (timezone : Location)
    (start number : Int) : Prop where
  allowed : Allows config number
  late : HasLate timezone rule start number
  first : ∀ m < number, Allows config m → ¬ HasLate timezone rule start m

/-- The result is an instant of the earliest date. -/
def ServesEarliest (next : Int → Result Int) (config : RuleConfig) (rule : CalendarRule)
    (timezone : Location) (start : Int) : Prop :=
  ∀ number, EarliestDate config rule timezone start number →
    ∃ t, next start = .ok t ∧ t ∈ offersOn timezone rule number

/-- The zone has an instant of one date for the first instant of another after the start, too. -/
def SharesInstant (rule : CalendarRule) (timezone : Location) (start number other : Int) : Prop :=
  ∃ t, firstLate timezone rule start other = some t ∧ t ∈ offersOn timezone rule number

/-- The walk comes to the earliest date in time, or to one with which it shares the instant. -/
def Reaches (config : RuleConfig) (rule : CalendarRule) (timezone : Location)
    (start number : Int) : Prop :=
  ∃ n, FirstServed config rule timezone start n ∧
    (visitedDay timezone start n = number ∨
      SharesInstant rule timezone start number (visitedDay timezone start n))

theorem OnEveryDay.servesEarliest_iff_reaches {ctx : EvaluationContext}
    {inlineCalendar : Option BusinessCalendar} {rule : CalendarRule} {config : RuleConfig}
    {timezone : Location} {start : Int} (h : OnEveryDay ctx inlineCalendar rule config) :
    ServesEarliest (findNextExecution ctx inlineCalendar rule timezone) config rule timezone
        start ↔
      ∀ number, EarliestDate config rule timezone start number →
        Reaches config rule timezone start number := by
  refine forall₂_congr fun number _ => ?_
  constructor
  · rintro ⟨t, hfound, ht⟩
    obtain ⟨n, hserved, hfirst⟩ := h.findNextExecution_eq_ok.mp hfound
    exact ⟨n, hserved, .inr ⟨t, hfirst, ht⟩⟩
  -- either the evaluator is at the date, or at one that shares the instant with it
  · rintro ⟨n, hserved, rfl | ⟨t, hfirst, ht⟩⟩
    · obtain ⟨t, hfirst⟩ := firstLate_isSome hserved.late
      exact ⟨t, h.findNextExecution_eq_ok.mpr ⟨n, hserved, hfirst⟩,
        mem_of_firstLate hfirst⟩
    · exact ⟨t, h.findNextExecution_eq_ok.mpr ⟨n, hserved, hfirst⟩, ht⟩

/-! ## Section 4: Offsets below a day -/

/-- The walk comes to the date: at the midnight with which its UTC day begins the offset is not
negative, or it is at the one with which that day ends. -/
def Shown (config : RuleConfig) (timezone : Location) (start number : Int) : Prop :=
  (start / day ≤ number ∧ number < start / day + searchDays config ∧
      0 ≤ timezone.offsetAt (number * 86400)) ∨
    (start / day ≤ number + 1 ∧ number + 1 < start / day + searchDays config ∧
      timezone.offsetAt ((number + 1) * 86400) < 0)

/-- The next date to which the walk comes, of those that the rule allows and that have an instant
after the start. -/
structure NextShown (config : RuleConfig) (rule : CalendarRule) (timezone : Location)
    (start number next : Int) : Prop where
  later : number < next
  allowed : Allows config next
  late : HasLate timezone rule start next
  shown : Shown config timezone start next
  first : ∀ m, number < m → m < next → Allows config m → HasLate timezone rule start m →
    ¬ Shown config timezone start m

section WithinDay

variable {ctx : EvaluationContext} {inlineCalendar : Option BusinessCalendar}
  {rule : CalendarRule} {config : RuleConfig} {timezone : Location} {start : Int}

section Walk

variable (hbound : WithinDay timezone)
include hbound

theorem shown_iff {number : Int} :
    Shown config timezone start number ↔
      ∃ n < searchDays config, visitedDay timezone start n = number := by
  constructor
  -- the date is that of its own UTC day, or of the next one
  · rintro (⟨hle, hlt, hoffset⟩ | ⟨hle, hlt, hoffset⟩)
    · obtain ⟨n, rfl⟩ := Int.le.dest hle
      exact ⟨n, by omega, by rw [visitedDay_eq hbound, if_pos hoffset]⟩
    · obtain ⟨n, hn⟩ := Int.le.dest hle
      refine ⟨n, by omega, ?_⟩
      rw [visitedDay_eq hbound, hn, if_neg (by omega)]
      omega
  · rintro ⟨n, hn, rfl⟩
    rw [visitedDay_eq hbound]
    split
    · next hoffset => exact .inl ⟨by omega, by omega, hoffset⟩
    · next hoffset =>
      refine .inr ⟨by omega, by omega, ?_⟩
      rw [Int.sub_add_cancel]
      omega

/-- The walk serves the first date it comes to, of those that the rule allows and that have an
instant after the start. -/
theorem exists_firstServed {number : Int} (hallowed : Allows config number)
    (hlate : HasLate timezone rule start number) (hshown : Shown config timezone start number)
    (hfirst : ∀ m < number, Allows config m → HasLate timezone rule start m →
      ¬ Shown config timezone start m) :
    ∃ n, FirstServed config rule timezone start n ∧ visitedDay timezone start n = number := by
  -- the date itself is taken, so some date up to it is the first
  obtain ⟨n, hn, rfl⟩ := (shown_iff hbound).mp hshown
  obtain ⟨m, hm, hserved⟩ : ∃ m ≤ n, FirstServed config rule timezone start m :=
    exists_firstTaken hn hallowed hlate
  refine ⟨m, hserved, ?_⟩
  rcases Int.lt_or_eq_of_le (visitedDay_mono hbound hm) with hlt | heq
  · exact absurd ((shown_iff hbound).mpr ⟨m, hserved.inWindow, rfl⟩)
      (hfirst _ hlt hserved.taken hserved.late)
  · exact heq

theorem reaches_iff {number : Int} (hearliest : EarliestDate config rule timezone start number) :
    Reaches config rule timezone start number ↔
      Shown config timezone start number ∨
        ∃ next, NextShown config rule timezone start number next ∧
          SharesInstant rule timezone start number next := by
  have hbefore : ∀ m < number, Allows config m → HasLate timezone rule start m →
      ¬ Shown config timezone start m :=
    fun m hm hallowed hlate => absurd hlate (hearliest.first m hm hallowed)
  by_cases hshown : Shown config timezone start number
  · obtain ⟨n, hserved, heq⟩ :=
      exists_firstServed hbound hearliest.allowed hearliest.late hshown hbefore
    exact ⟨fun _ => .inl hshown, fun _ => ⟨n, hserved, .inl heq⟩⟩
  · constructor
    · rintro ⟨n, hserved, heq | hshares⟩
      · exact .inl ((shown_iff hbound).mpr ⟨n, hserved.inWindow, heq⟩)
      -- the date was passed over, so the walk is at a later one
      · have hne : visitedDay timezone start n ≠ number := by
          rintro rfl
          exact hshown ((shown_iff hbound).mpr ⟨n, hserved.inWindow, rfl⟩)
        have hle : ¬ visitedDay timezone start n < number := fun hlt =>
          hearliest.first _ hlt hserved.taken hserved.late
        refine .inr ⟨visitedDay timezone start n, ⟨by omega, hserved.taken, hserved.late,
          (shown_iff hbound).mpr ⟨n, hserved.inWindow, rfl⟩, ?_⟩, hshares⟩
        -- the walk would have come to a date in between before
        intro m _ hlt hallowed hlate hshown'
        obtain ⟨k, -, rfl⟩ := (shown_iff hbound).mp hshown'
        refine hserved.first k ?_ hallowed hlate
        by_contra hafter
        have hmono : visitedDay timezone start n ≤ visitedDay timezone start k :=
          visitedDay_mono hbound (Nat.le_of_not_lt hafter)
        omega
    · rintro (hshown' | ⟨next, hnext, hshares⟩)
      · exact absurd hshown' hshown
      · obtain ⟨n, hserved, rfl⟩ :=
          exists_firstServed hbound hnext.allowed hnext.late hnext.shown fun m hm => by
            rcases Int.lt_trichotomy m number with hlt | rfl | hgt
            · exact hbefore m hlt
            · exact fun _ _ => hshown
            · exact hnext.first m hgt hm
        exact ⟨n, hserved, .inr hshares⟩

end Walk

/-! ### There is an earliest date -/

theorem OnEveryDay.times_range (h : OnEveryDay ctx inlineCalendar rule config) :
    ∀ t ∈ rule.times, 0 ≤ t.seconds ∧ t.seconds < 86400 := by
  intro t ht
  refine CalendarRule.mem_timesOr ?_ rule.defaultTime_range ht
  have hvalid := h.valid
  have hkind := h.kind
  simp only [validateRule, h.config] at hvalid
  cases config with
  | daily daily =>
    simp only [Daily.validate] at hvalid
    split at hvalid
    · cases hvalid
    · exact hvalid
  | weekly weekly =>
    simp only [Weekly.validate] at hvalid
    split at hvalid
    · cases hvalid
    · split at hvalid
      · cases hvalid
      · split at hvalid
        · cases hvalid
        · exact hvalid
  | businessDays business =>
    simp only [BusinessDays.validate] at hvalid
    split at hvalid
    · cases hvalid
    · split at hvalid
      · cases hvalid
      · exact hvalid
  | monthly _ => exact hkind.elim
  | yearly _ => exact hkind.elim
  | custom => exact hkind.elim

/-- The rule runs on some weekday. -/
theorem OnEveryDay.exists_weekday (h : OnEveryDay ctx inlineCalendar rule config) :
    ∃ w, 0 ≤ w ∧ w ≤ 6 ∧ runsOnWeekday config w = true := by
  have hkind := h.kind
  cases config with
  | daily daily => exact ⟨1, by decide, by decide, by simp [runsOnWeekday]⟩
  | weekly weekly =>
    have hvalid := h.valid
    simp only [validateRule, h.config, Weekly.validate] at hvalid
    split at hvalid
    · cases hvalid
    next hsome =>
      split at hvalid
      · cases hvalid
      next hrange =>
        obtain ⟨d, hd⟩ := List.exists_mem_of_ne_nil _ hsome
        have hd' := List.find?_eq_none.mp hrange d hd
        simp only [Bool.or_eq_true, decide_eq_true_eq, not_or] at hd'
        -- Sunday is a 7 in the schema
        refine ⟨if d = 7 then 0 else d, by split <;> omega, by split <;> omega, ?_⟩
        have hours : Weekly.goWeekdayToOurs (if d = 7 then 0 else d) = d := by
          unfold Weekly.goWeekdayToOurs
          split <;> split at * <;> omega
        simp only [runsOnWeekday, hours, hd, decide_true]
  | businessDays business => exact ⟨1, by decide, by decide, rfl⟩
  | monthly _ => exact hkind.elim
  | yearly _ => exact hkind.elim
  | custom => exact hkind.elim

theorem OnEveryDay.exists_earliest (h : OnEveryDay ctx inlineCalendar rule config)
    (hbound : WithinDay timezone) (start : Int) :
    ∃ number, EarliestDate config rule timezone start number := by
  obtain ⟨w, hw, hw', hruns⟩ := h.exists_weekday
  -- a date some days later, on that weekday
  obtain ⟨number, hlater, hweekday⟩ : ∃ number, start / day + 3 ≤ number ∧
      weekdayOfDay number = w := by
    refine ⟨start / day + 3 + (w - 4 - (start / day + 3)) % 7, by omega, ?_⟩
    unfold weekdayOfDay
    omega
  have hlate : HasLate timezone rule start number := hasLate_of_le hbound h.times_range hlater
  obtain ⟨first, -, -, ⟨hallowed, hlate'⟩, hnone⟩ := @exists_first
    (fun m => Allows config m ∧ HasLate timezone rule start m) (start / day - 2) number
    (by omega) ⟨by rwa [Allows, hweekday], hlate⟩
  refine ⟨first, hallowed, hlate', fun m hm hallowed' hlate'' => ?_⟩
  have hafter := hlate''.lt_number hbound h.times_range
  exact hnone m (by omega) hm ⟨hallowed', hlate''⟩

/-- **Skipped dates**: the evaluator serves the earliest date exactly when its walk reaches it.
Where offsets are below a day there is an earliest date; the walk comes to it unless the offset
rises from below zero on its UTC day, and then only a shared instant helps. -/
theorem OnEveryDay.servesEarliest_iff (h : OnEveryDay ctx inlineCalendar rule config)
    (timezone : Location) (start : Int) :
    (ServesEarliest (findNextExecution ctx inlineCalendar rule timezone) config rule timezone
        start ↔
      ∀ number, EarliestDate config rule timezone start number →
        Reaches config rule timezone start number) ∧
    (WithinDay timezone →
      (∃ number, EarliestDate config rule timezone start number) ∧
      (ServesEarliest (findNextExecution ctx inlineCalendar rule timezone) config rule timezone
          start ↔
        ∀ number, EarliestDate config rule timezone start number →
          Shown config timezone start number ∨
            ∃ next, NextShown config rule timezone start number next ∧
              SharesInstant rule timezone start number next)) := by
  refine ⟨h.servesEarliest_iff_reaches, fun hbound => ⟨h.exists_earliest hbound start, ?_⟩⟩
  rw [h.servesEarliest_iff_reaches]
  exact forall₂_congr fun number hearliest => reaches_iff hbound hearliest

end WithinDay

/-! ### The Azores -/

/-- The Azores in March 2024: an hour behind UTC, until the clocks go forward on the 31st. -/
def azores : Location := ⟨fun t => if t < 1711846800 then -3600 else 0⟩

/-- Every day at noon. -/
def everyNoon : CalendarRule where
  rule := some (.daily ⟨1, false, none⟩)
  executionTimes := [{ hour := 12 }]

theorem onEveryDay_everyNoon : OnEveryDay ⟨none, 0⟩ none everyNoon (.daily ⟨1, false, none⟩) :=
  ⟨Int.le_refl 1, rfl, by decide⟩

theorem withinDay_azores : WithinDay azores := by
  intro t
  simp only [azores]
  split <;> omega

/-- Noon in the Azores. -/
theorem offersOn_everyNoon (number : Int) :
    offersOn azores everyNoon number =
      [if number < 19813 then number * day + 13 * hour else number * day + 12 * hour] := by
  have htimes : everyNoon.times = [{ hour := 12 }] := rfl
  have hseconds : TimeOfDay.seconds { hour := 12 } = 43200 := by decide
  rw [offersOn, atTimes, htimes, List.map_singleton, Location.date, dayNumber_dateOfDay,
    Int.add_zero, hseconds, List.singleton_inj]
  simp only [Location.fromCivil, azores, day, hour, minute, second]
  split_ifs <;> first | contradiction | omega

theorem hasLate_everyNoon {start number : Int} :
    HasLate azores everyNoon start number ↔
      start < if number < 19813 then number * day + 13 * hour else number * day + 12 * hour := by
  rw [HasLate, offersOn_everyNoon]
  simp

theorem allows_everyNoon (number : Int) : Allows (.daily ⟨1, false, none⟩) number := rfl

/-- From April 1, 2024 on no date is skipped. -/
theorem servesEarliest_april :
    ServesEarliest (findNextExecution ⟨none, 0⟩ none everyNoon azores) (.daily ⟨1, false, none⟩)
      everyNoon azores (dayNumber 2024 4 1 * day) := by
  have hday : dayNumber 2024 4 1 = 19814 := by decide
  refine ((onEveryDay_everyNoon.servesEarliest_iff azores _).2 withinDay_azores).2.mpr
    fun number hearliest => .inl (.inl ?_)
  have hlate := hasLate_everyNoon.mp hearliest.late
  have hfirst : ¬ 19814 < number := fun hlt =>
    hearliest.first 19814 hlt (allows_everyNoon _) (hasLate_everyNoon.mpr (by rw [hday]; decide))
  rw [hday] at hlate ⊢
  simp only [day, hour, minute, second] at hlate
  obtain rfl : number = 19814 := by
    split at hlate <;> omega
  decide

/-- On the evening of March 30 the next run is on April 1. -/
theorem not_servesEarliest_march :
    ¬ ∀ (ctx : EvaluationContext) (inlineCalendar : Option BusinessCalendar) (rule : CalendarRule)
      (config : RuleConfig) (timezone : Location) (start : Int),
      OnEveryDay ctx inlineCalendar rule config →
        (rule.executionTimes.Pairwise fun s t => s.seconds ≤ t.seconds) →
        ServesEarliest (findNextExecution ctx inlineCalendar rule timezone) config rule timezone
          start := by
  intro hall
  have hserves := hall _ _ _ _ azores (19812 * day + 20 * hour) onEveryDay_everyNoon
    (List.pairwise_singleton _ _)
  have hearliest : EarliestDate (.daily ⟨1, false, none⟩) everyNoon azores
      (19812 * day + 20 * hour) 19813 := by
    refine ⟨rfl, hasLate_everyNoon.mpr (by decide), fun m hm _ hlate => ?_⟩
    have hlate := hasLate_everyNoon.mp hlate
    rw [if_pos hm] at hlate
    simp only [day, hour, minute, second] at hlate
    omega
  obtain ⟨t, hfound, ht⟩ := hserves 19813 hearliest
  have hnext : findNextExecution ⟨none, 0⟩ none everyNoon azores (19812 * day + 20 * hour) =
      .ok (19814 * day + 12 * hour) := by decide +kernel
  rw [hnext] at hfound
  cases hfound
  rw [offersOn_everyNoon] at ht
  exact absurd (List.mem_singleton.mp ht) (by decide)

end Nzovu.Calendar
