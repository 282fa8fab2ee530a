import Nzovu.Calendar.Pattern
import Nzovu.Calendar.Searching
import Nzovu.Foundation.FixedOffset

/-!
# Monthly Rules on a Day of the Month

`evaluateDayOfMonth` skips the months in which the day does not exist. It compares the day with the
length of the month before: `time.Date(year, month, 0, …)` is the last day of that one. The theorem
says for which days and months this makes no difference.

- Section 1: the walk through the months.
- Section 2: what a month offers.
- Section 3: the evaluator never stops.
- Section 4: the days it fires on.
-/

namespace Nzovu.Calendar

open Nzovu.Foundation
open Nzovu.Foundation.CivilTime

/-! ## Section 1: The walk through the months -/

namespace Monthly

/-- The year and the month with this number. -/
def placeOf (k : Int) : Int × Int := ((k + 2) / 12, (k + 2) % 12 + 1)

theorem monthIndex_placeOf (k : Int) : monthIndex (placeOf k).1 (placeOf k).2 = k := by
  simp only [placeOf, monthIndex]
  omega

theorem placeOf_monthIndex {year month : Int} (h : 1 ≤ month ∧ month ≤ 12) :
    placeOf (monthIndex year month) = (year, month) := by
  simp only [placeOf, monthIndex, Prod.mk.injEq]
  omega

theorem placeOf_month (k : Int) : 1 ≤ (placeOf k).2 ∧ (placeOf k).2 ≤ 12 := by
  simp only [placeOf]
  omega

theorem nextMonth_placeOf (k : Int) : nextMonth (placeOf k) = placeOf (k + 1) := by
  unfold nextMonth
  split
  next hdecember =>
    simp only [placeOf, Prod.mk.injEq] at hdecember ⊢
    omega
  next hother =>
    simp only [placeOf, Prod.mk.injEq] at hother ⊢
    omega

theorem nextMonth_iterate (k : Int) (n : Nat) : nextMonth^[n] (placeOf k) = placeOf (k + n) := by
  induction n generalizing k with
  | zero => simp
  | succ n ih =>
    rw [Function.iterate_succ_apply, nextMonth_placeOf, ih, Int.natCast_succ]
    congr 1
    omega

/-- The number of the month of an instant. -/
def monthOf (timezone : Location) (t : Int) : Int :=
  monthIndex (timezone.dateOf t).year (timezone.dateOf t).month

theorem placeOf_monthOf (timezone : Location) (t : Int) :
    placeOf (monthOf timezone t) = ((timezone.dateOf t).year, (timezone.dateOf t).month) :=
  placeOf_monthIndex (dateOfDay_month _)

/-- An instant lies in its month. -/
theorem civilDay_monthOf (timezone : Location) (t : Int) :
    monthStart (monthOf timezone t) ≤ timezone.civilDay t ∧
      timezone.civilDay t < monthStart (monthOf timezone t + 1) := by
  have hday := dayNumber_dateOfDay (timezone.civilDay t)
  have hpos := dateOfDay_day_pos (timezone.civilDay t)
  rw [dayNumber_eq] at hday
  exact ⟨by unfold monthOf Location.dateOf; omega, lt_monthStart_dateOfDay _⟩

/-- The months of a civil day are in order. -/
theorem monthOf_le {timezone : Location} {t k : Int}
    (h : timezone.civilDay t < monthStart (k + 1)) : monthOf timezone t ≤ k := by
  by_contra hlater
  have hle := monthStart_le (Int.not_le.mp hlater)
  have hmonth := (civilDay_monthOf timezone t).1
  omega

/-! ## Section 2: What a month offers -/

/-- The length of the month with this number. -/
def lengthOf (k : Int) : Int := monthStart (k + 1) - monthStart k

theorem lengthOf_range (k : Int) : 28 ≤ lengthOf k ∧ lengthOf k ≤ 31 := by
  have hnext := monthStart_succ k
  unfold lengthOf
  omega

theorem lengthOf_monthIndex {year month : Int} (h : 1 ≤ month ∧ month ≤ 12) :
    lengthOf (monthIndex year month) = lengthOfMonth year month := by
  rw [lengthOf, monthStart_lengthOfMonth h]
  omega

/-- `daysInMonth` is the length of the month before. -/
theorem daysInMonth_placeOf {timezone : Location} {offset : Int} (h : timezone.Fixed offset)
    (k : Int) : daysInMonth timezone (placeOf k).1 (placeOf k).2 = lengthOf (k - 1) := by
  have hrange := lengthOf_range (k - 1)
  unfold lengthOf at hrange ⊢
  rw [Int.sub_add_cancel] at hrange ⊢
  rw [daysInMonth, h.dateOf_date (by decide) (by decide), dayNumber_eq, monthIndex_placeOf]
  have hlast : monthStart k + (0 - 1) =
      monthStart (k - 1) + (monthStart k - monthStart (k - 1) - 1) := by omega
  rw [hlast, dateOfDay_monthStart (by omega) (by rw [Int.sub_add_cancel]; omega)]
  simp

/-- The day offered in the month with this number: beyond the end of the month, one of the next. -/
def offeredDay (rule : MonthlyRule) (k : Int) : Int := monthStart k + (rule.dayValue - 1)

/-- The month with this number is listed, and the month before is long enough. -/
def Offers (rule : MonthlyRule) (k : Int) : Prop :=
  (placeOf k).2 ∈ validMonths rule ∧ rule.dayValue ≤ lengthOf (k - 1)

instance (rule : MonthlyRule) (k : Int) : Decidable (Offers rule k) :=
  inferInstanceAs (Decidable ((placeOf k).2 ∈ validMonths rule ∧ rule.dayValue ≤ lengthOf (k - 1)))

/-- What the month with this number offers. -/
def offers (offset : Int) (rule : MonthlyRule) (executionTimes : List TimeOfDay) (k : Int) :
    List Int :=
  if Offers rule k then instantsOn offset executionTimes (offeredDay rule k) else []

theorem candidates_placeOf {timezone : Location} {offset : Int} (h : timezone.Fixed offset)
    {rule : MonthlyRule} (htype : rule.dayType = .dayOfMonth) (executionTimes : List TimeOfDay)
    (k : Int) :
    candidates timezone rule executionTimes (placeOf k) = offers offset rule executionTimes k := by
  have htimes : ∀ d, atTimes timezone ⟨(placeOf k).1, (placeOf k).2, d⟩ executionTimes =
      instantsOn offset executionTimes (monthStart k + (d - 1)) := by
    intro d
    simp only [atTimes, instantsOn, h.date_eq, dayNumber_eq, monthIndex_placeOf, Int.add_zero]
  simp only [candidates, selectedDay, htype, offers, Offers, daysInMonth_placeOf h, offeredDay]
  by_cases hlisted : (placeOf k).2 ∈ validMonths rule
  · by_cases hexists : rule.dayValue ≤ lengthOf (k - 1)
    · simp [hlisted, hexists, htimes]
    · simp [hlisted, hexists]
  · simp [hlisted]

/-! ## Section 3: The evaluator never stops -/

/-- What validation leaves of a monthly rule. -/
theorem validate_eq_ok {rule : CalendarRule} {monthly : MonthlyRule}
    (h : validate rule monthly = .ok ()) :
    validateDay monthly = .ok () ∧ (∀ m ∈ validMonths monthly, 1 ≤ m ∧ m ≤ 12) ∧
      ∀ t ∈ rule.timesOr {}, 0 ≤ t.seconds ∧ t.seconds < 86400 := by
  unfold validate at h
  split at h
  · cases h
  next hday =>
    split at h
    · cases h
    next hmonths =>
      refine ⟨hday, fun m hm => ?_, fun t ht => CalendarRule.mem_timesOr h (by decide) ht⟩
      unfold validMonths at hm
      split at hm
      · simp only [List.mem_cons, List.not_mem_nil, or_false] at hm
        omega
      · have hrefused := List.find?_eq_none.mp hmonths m hm
        simp only [Bool.or_eq_true, decide_eq_true_eq] at hrefused
        omega

section Walk

variable {ctx : EvaluationContext} {inlineCalendar : Option BusinessCalendar}
  {rule : CalendarRule} {monthly : MonthlyRule} {timezone : Location} {offset : Int}

/-- A valid rule of type DAY_OF_MONTH in a zone with a fixed offset. -/
structure OnDayOfMonth (ctx : EvaluationContext) (inlineCalendar : Option BusinessCalendar)
    (rule : CalendarRule) (monthly : MonthlyRule) (timezone : Location) (offset : Int) : Prop where
  config : rule.rule = some (.monthly monthly)
  dayType : monthly.dayType = .dayOfMonth
  valid : validateRule ctx inlineCalendar rule = .ok ()
  fixed : timezone.Fixed offset

namespace OnDayOfMonth

variable (h : OnDayOfMonth ctx inlineCalendar rule monthly timezone offset)
include h

theorem validated :
    (1 ≤ monthly.dayValue ∧ monthly.dayValue ≤ 31) ∧
      (∀ m ∈ validMonths monthly, 1 ≤ m ∧ m ≤ 12) ∧
      ∀ t ∈ rule.timesOr {}, 0 ≤ t.seconds ∧ t.seconds < 86400 := by
  have hvalid := h.valid
  simp only [validateRule, h.config] at hvalid
  obtain ⟨hday, hmonths, htimes⟩ := validate_eq_ok hvalid
  simp only [validateDay, h.dayType] at hday
  split at hday
  · cases hday
  next hrange => exact ⟨by omega, hmonths, htimes⟩

/-- The evaluator searches what the months offer, for two years. -/
theorem findNextExecution_eq (s : Int) :
    findNextExecution ctx inlineCalendar rule timezone s =
      searchResult "no valid execution time found within 2 years"
        (search s (fun place => .ok (candidates timezone monthly (rule.timesOr {}) place))
          nextMonth 24 (placeOf (monthOf timezone s))) := by
  simp only [findNextExecution, evaluateRule, CalendarRule.pattern, h.config, evaluate, h.dayType,
    placeOf_monthOf]
  rfl

theorem candidates_iterate (k : Int) (n : Nat) :
    candidates timezone monthly (rule.timesOr {}) (nextMonth^[n] (placeOf k)) =
      offers offset monthly (rule.timesOr {}) (k + n) := by
  rw [nextMonth_iterate, candidates_placeOf h.fixed h.dayType]

/-- A run is offered by some month. -/
theorem exists_offers {s t : Int} (hfound : findNextExecution ctx inlineCalendar rule timezone s =
    .ok t) : ∃ k, t ∈ offers offset monthly (rule.timesOr {}) k := by
  rw [h.findNextExecution_eq] at hfound
  obtain ⟨n, -, hmem, -⟩ := mem_of_search (searchResult_ok hfound)
  rw [h.candidates_iterate] at hmem
  exact ⟨_, hmem⟩

/-- The evaluator gets no further than a month within its reach that offers a later instant. -/
theorem finds {s K x : Int} (hle : monthOf timezone s ≤ K) (hreach : K < monthOf timezone s + 24)
    (hx : x ∈ offers offset monthly (rule.timesOr {}) K) (hlt : s < x) :
    ∃ t k, findNextExecution ctx inlineCalendar rule timezone s = .ok t ∧
      t ∈ offers offset monthly (rule.timesOr {}) k ∧ k ≤ K := by
  obtain ⟨n, rfl⟩ := Int.le.dest hle
  rw [← h.candidates_iterate] at hx
  obtain ⟨t, m, hm, ht, hsearch⟩ := @search_finds _ s _ nextMonth 24 _ n x (by omega) hx hlt
  rw [h.candidates_iterate] at ht
  exact ⟨t, _, by rw [h.findNextExecution_eq, hsearch, searchResult_some], ht, by omega⟩

theorem civilDay_of_mem_offers {k t : Int} (ht : t ∈ offers offset monthly (rule.timesOr {}) k) :
    Offers monthly k ∧ timezone.civilDay t = offeredDay monthly k := by
  unfold offers at ht
  split at ht
  next hoffers =>
    exact ⟨hoffers, civilDay_of_mem_instantsOn h.fixed h.validated.2.2 ht⟩
  next => cases ht

omit h in
theorem exists_mem_offers {k : Int} (hoffers : Offers monthly k) :
    ∃ t, t ∈ offers offset monthly (rule.timesOr {}) k := by
  obtain ⟨time, rest, htimes⟩ := List.exists_cons_of_ne_nil (rule.timesOr_ne_nil {})
  unfold offers
  rw [if_pos hoffers, htimes]
  exact ⟨_, List.mem_cons_self⟩

/-- Some listed month is always offered. -/
def Recurs (monthly : MonthlyRule) : Prop :=
  ∃ m ∈ validMonths monthly, ∀ k, (placeOf k).2 = m → monthly.dayValue ≤ lengthOf (k - 1)

/-- Then there is a run within a year. -/
theorem finds_of_recurs (hrecurs : Recurs monthly) (s : Int) :
    ∃ t k, findNextExecution ctx inlineCalendar rule timezone s = .ok t ∧
      t ∈ offers offset monthly (rule.timesOr {}) k ∧ k ≤ monthOf timezone s + 12 := by
  obtain ⟨m, hm, hlong⟩ := hrecurs
  obtain ⟨⟨hday, -⟩, hmonths, -⟩ := h.validated
  have hrange := hmonths m hm
  -- the next month of that name, after the current one
  obtain ⟨K, hK, hKle, hname⟩ : ∃ K, monthOf timezone s < K ∧ K ≤ monthOf timezone s + 12 ∧
      (placeOf K).2 = m := by
    refine ⟨monthOf timezone s + 1 + (m - 1 - (monthOf timezone s + 1 + 2)) % 12, by omega,
      by omega, ?_⟩
    simp only [placeOf]
    omega
  obtain ⟨x, hx⟩ : ∃ x, x ∈ offers offset monthly (rule.timesOr {}) K :=
    exists_mem_offers ⟨hname ▸ hm, hlong K hname⟩
  have hlater : s < x := by
    have hstart := monthStart_le hK
    have hlast := (civilDay_monthOf timezone s).2
    have hx' := (h.civilDay_of_mem_offers hx).2
    unfold offeredDay at hx'
    by_contra hnot
    have hmono := h.fixed.civilDay_mono (Int.not_lt.mp hnot)
    omega
  obtain ⟨t, k, hfound, ht, hk⟩ := h.finds (by omega) (by omega) hx hlater
  exact ⟨t, k, hfound, ht, by omega⟩

/-- **Run lemma**: every month that offers an instant after the start is run in. -/
theorem reaches_offers (hrecurs : Recurs monthly) {start stride K x : Int}
    (hstride : 0 ≤ stride ∧ stride ≤ day) (hmonth : monthOf timezone start ≤ K)
    (hx : x ∈ offers offset monthly (rule.timesOr {}) K) (hlt : start < x) :
    ∃ t ∈ offers offset monthly (rule.timesOr {}) K,
      Reaches (findNextExecution ctx inlineCalendar rule timezone) stride start t := by
  have hdayRange := h.validated.1
  have hxDay := (h.civilDay_of_mem_offers hx).2
  -- from any start before `x` in a month up to `K`, the next run is in a month up to `K`
  have hnext : ∀ s, s < x → monthOf timezone s ≤ K →
      ∃ t k, findNextExecution ctx inlineCalendar rule timezone s = .ok t ∧
        t ∈ offers offset monthly (rule.timesOr {}) k ∧ k ≤ K := by
    intro s hs hle
    by_cases hreach : K < monthOf timezone s + 24
    · exact h.finds hle hreach hx hs
    · obtain ⟨t, k, hfound, ht, hk⟩ := h.finds_of_recurs hrecurs s
      exact ⟨t, k, hfound, ht, by omega⟩
  -- a month's run, a day later at most, is still before `K`
  have hgap : ∀ k < K, ∀ t ∈ offers offset monthly (rule.timesOr {}) k,
      t + stride < x ∧ monthOf timezone (t + stride) ≤ K := by
    intro k hk t ht
    have htDay := (h.civilDay_of_mem_offers ht).2
    have hdayAfter : timezone.civilDay (t + stride) ≤ offeredDay monthly k + 1 := by
      have hmono := h.fixed.civilDay_mono (show t + stride ≤ t + 1 * day by omega)
      rw [h.fixed.civilDay_add] at hmono
      omega
    have hnextStart := monthStart_succ k
    have hnextNext := monthStart_succ (k + 1)
    have hK := monthStart_le hk
    unfold offeredDay at hdayAfter hxDay
    constructor
    · by_contra hnot
      have hmono := h.fixed.civilDay_mono (Int.not_lt.mp hnot)
      omega
    · have hle : monthOf timezone (t + stride) ≤ k + 1 := monthOf_le (by omega)
      omega
  refine Reaches.exists_mem (x := x) findsLater_findNextExecution hstride.1 (fun k hk t ht => ?_)
    (hnext start hlt hmonth) (fun k hk t ht _ => ?_)
  · have hbefore := (hgap k hk t ht).1
    omega
  · exact hnext _ (hgap k hk t ht).1 (hgap k hk t ht).2

end OnDayOfMonth

end Walk

/-! ## Section 4: The days it fires on -/

/-- The days and months for which the lengths of a month and of the one before make no
difference. -/
def DayFits (monthly : MonthlyRule) : Prop :=
  monthly.dayValue ≤ 28 ∨
  (monthly.dayValue ≤ 30 ∧ 2 ∉ validMonths monthly ∧ 3 ∉ validMonths monthly) ∨
  ∀ m ∈ validMonths monthly, m = 1 ∨ m = 8

instance (monthly : MonthlyRule) : Decidable (DayFits monthly) :=
  inferInstanceAs (Decidable (_ ∨ _ ∨ _))

theorem lengthOf_placeOf (k : Int) :
    lengthOf k = lengthOfMonth (placeOf k).1 (placeOf k).2 := by
  rw [← lengthOf_monthIndex (placeOf_month k), monthIndex_placeOf]

/-- The month before. -/
theorem placeOf_pred (k : Int) : placeOf (k - 1) =
    if (placeOf k).2 = 1 then ((placeOf k).1 - 1, 12) else ((placeOf k).1, (placeOf k).2 - 1) := by
  split
  next hjanuary =>
    simp only [placeOf, Prod.mk.injEq] at hjanuary ⊢
    omega
  next hother =>
    simp only [placeOf, Prod.mk.injEq] at hother ⊢
    omega

/-- The length of the month before a month of this name. -/
theorem lengthOf_pred (k : Int) : lengthOf (k - 1) =
    if (placeOf k).2 = 1 then 31 else lengthOfMonth (placeOf k).1 ((placeOf k).2 - 1) := by
  rw [lengthOf_placeOf, placeOf_pred]
  split
  · simp [lengthOfMonth]
  · rfl

/-- Under the condition every listed month has the day, and so has the month before it. -/
theorem le_lengthOf_of_dayFits {monthly : MonthlyRule} (hday : monthly.dayValue ≤ 31)
    (hfits : DayFits monthly) {k : Int} (hlisted : (placeOf k).2 ∈ validMonths monthly) :
    monthly.dayValue ≤ lengthOf (k - 1) ∧ monthly.dayValue ≤ lengthOf k := by
  have hmonth := placeOf_month k
  rcases hfits with hshort | ⟨hthirty, hfebruary, hmarch⟩ | hlong
  · have hbefore := (lengthOf_range (k - 1)).1
    have hrange := (lengthOf_range k).1
    omega
  · have htwo : (placeOf k).2 ≠ 2 := fun h => hfebruary (h ▸ hlisted)
    have hthree : (placeOf k).2 ≠ 3 := fun h => hmarch (h ▸ hlisted)
    rw [lengthOf_pred, lengthOf_placeOf]
    simp only [lengthOfMonth, htwo, if_false]
    have hpred : (placeOf k).2 - 1 ≠ 2 := by omega
    simp only [hpred, if_false]
    constructor
    · split
      · omega
      · split <;> omega
    · split <;> omega
  · rw [lengthOf_pred, lengthOf_placeOf]
    rcases hlong _ hlisted with h | h <;> rw [h] <;> simpa [lengthOfMonth] using hday

/-- The lengths of a month of this name and of the month before. -/
theorem lengthOf_named {k m : Int} (hk : (placeOf k).2 = m) :
    lengthOf (k - 1) = (if m = 1 then 31 else lengthOfMonth (placeOf k).1 (m - 1)) ∧
      lengthOf k = lengthOfMonth (placeOf k).1 m :=
  hk ▸ ⟨lengthOf_pred k, lengthOf_placeOf k⟩

/-- April, June, September and November. -/
theorem lengthOf_short {k : Int} {m : Int} (hk : (placeOf k).2 = m)
    (hm : m = 4 ∨ m = 6 ∨ m = 9 ∨ m = 11) : lengthOf (k - 1) = 31 ∧ lengthOf k = 30 := by
  obtain ⟨hpred, hown⟩ := lengthOf_named hk
  rw [hpred, hown]
  rcases hm with rfl | rfl | rfl | rfl <;> simp [lengthOfMonth]

/-- The months after those. -/
theorem lengthOf_afterShort {k : Int} {m : Int} (hk : (placeOf k).2 = m)
    (hm : m = 5 ∨ m = 7 ∨ m = 10 ∨ m = 12) : lengthOf (k - 1) = 30 ∧ lengthOf k = 31 := by
  obtain ⟨hpred, hown⟩ := lengthOf_named hk
  rw [hpred, hown]
  rcases hm with rfl | rfl | rfl | rfl <;> simp [lengthOfMonth]

/-- February, after January. -/
theorem lengthOf_february {k : Int} (hk : (placeOf k).2 = 2) :
    lengthOf (k - 1) = 31 ∧ (¬ IsLeap (placeOf k).1 → lengthOf k = 28) := by
  obtain ⟨hpred, hown⟩ := lengthOf_named hk
  rw [hpred, hown]
  refine ⟨by simp [lengthOfMonth], fun hleap => by simp [lengthOfMonth, hleap]⟩

/-- March, after February. -/
theorem lengthOf_march {k : Int} (hk : (placeOf k).2 = 3) :
    (¬ IsLeap (placeOf k).1 → lengthOf (k - 1) = 28) ∧ lengthOf k = 31 := by
  obtain ⟨hpred, hown⟩ := lengthOf_named hk
  rw [hpred, hown]
  refine ⟨fun hleap => by simp [lengthOfMonth, hleap], by simp [lengthOfMonth]⟩

/-- A listed month that has the day, after a month that has not. -/
def Missed (monthly : MonthlyRule) (m : Int) : Prop :=
  ∀ k, (placeOf k).2 = m → ¬ IsLeap (placeOf k).1 →
    lengthOf (k - 1) < monthly.dayValue ∧ monthly.dayValue ≤ lengthOf k

/-- A listed month that has not the day, always after one that has. -/
def RollsOver (monthly : MonthlyRule) (m : Int) : Prop :=
  (∀ k, (placeOf k).2 = m → monthly.dayValue ≤ lengthOf (k - 1)) ∧
    ∀ k, (placeOf k).2 = m → ¬ IsLeap (placeOf k).1 → lengthOf k < monthly.dayValue

/-- Without the condition there is such a month. -/
theorem exists_of_not_dayFits {monthly : MonthlyRule}
    (hday : monthly.dayValue ≤ 31) (hmonths : ∀ m ∈ validMonths monthly, 1 ≤ m ∧ m ≤ 12)
    (hfits : ¬ DayFits monthly) :
    ∃ m ∈ validMonths monthly, Missed monthly m ∨ RollsOver monthly m := by
  simp only [DayFits, not_or, not_and, not_not, not_forall] at hfits
  obtain ⟨hlong, hspring, m, hm, hjanuary, haugust⟩ := hfits
  by_cases hmarch : 3 ∈ validMonths monthly
  · refine ⟨3, hmarch, .inl fun k hk hleap => ?_⟩
    have hlengths := lengthOf_march hk
    rw [hlengths.1 hleap, hlengths.2]
    omega
  by_cases hfebruary : 2 ∈ validMonths monthly
  · refine ⟨2, hfebruary, .inr ⟨fun k hk => ?_, fun k hk hleap => ?_⟩⟩
    · rw [(lengthOf_february hk).1]
      exact hday
    · rw [(lengthOf_february hk).2 hleap]
      omega
  -- what is left is a 31st in neither February nor March
  have hlast : monthly.dayValue = 31 := by
    by_contra hne
    exact hmarch (hspring (by omega) hfebruary)
  have hrange := hmonths m hm
  have htwo : m ≠ 2 := fun h => hfebruary (h ▸ hm)
  have hthree : m ≠ 3 := fun h => hmarch (h ▸ hm)
  have hcases : (m = 4 ∨ m = 6 ∨ m = 9 ∨ m = 11) ∨ (m = 5 ∨ m = 7 ∨ m = 10 ∨ m = 12) := by omega
  refine ⟨m, hm, ?_⟩
  rcases hcases with hshort | hafter
  · refine .inr ⟨fun k hk => ?_, fun k hk _ => ?_⟩
    · rw [(lengthOf_short hk hshort).1, hlast]
    · rw [(lengthOf_short hk hshort).2, hlast]
      decide
  · refine .inl fun k hk _ => ?_
    rw [(lengthOf_afterShort hk hafter).1, (lengthOf_afterShort hk hafter).2, hlast]
    decide

/-- The evaluator, asked again and again from `start`, fires on the dates it should: on dates with
the day in the listed months only, and on every such date that has an execution time after
`start`. -/
structure FiresOnDays (next : Int → Result Int) (timezone : Location) (monthly : MonthlyRule)
    (executionTimes : List TimeOfDay) (stride start : Int) : Prop where
  sound : ∀ t, Reaches next stride start t →
    (timezone.dateOf t).day = monthly.dayValue ∧ (timezone.dateOf t).month ∈ validMonths monthly
  complete : ∀ date : Date, date.Valid → date.day = monthly.dayValue →
    date.month ∈ validMonths monthly →
    (∃ u ∈ atTimes timezone date executionTimes, start < u) →
      ∃ t, Reaches next stride start t ∧ timezone.dateOf t = date

/-- A day within its month. -/
theorem dateOfDay_offeredDay {monthly : MonthlyRule} {k : Int} (hpos : 1 ≤ monthly.dayValue)
    (hle : monthly.dayValue ≤ lengthOf k) :
    dateOfDay (offeredDay monthly k) = ⟨(placeOf k).1, (placeOf k).2, monthly.dayValue⟩ := by
  unfold lengthOf at hle
  rw [offeredDay, dateOfDay_monthStart (by omega) (by omega), placeOf, Int.sub_add_cancel]

/-- A day beyond the end of its month. -/
theorem day_offeredDay_ne {monthly : MonthlyRule} {k : Int} (hday : monthly.dayValue ≤ 31)
    (hlt : lengthOf k < monthly.dayValue) :
    (dateOfDay (offeredDay monthly k)).day ≠ monthly.dayValue := by
  have hrange := lengthOf_range k
  have hnext := lengthOf_range (k + 1)
  have hsplit : offeredDay monthly k =
      monthStart (k + 1) + (monthly.dayValue - 1 - lengthOf k) := by
    unfold offeredDay lengthOf
    omega
  rw [hsplit, dateOfDay_monthStart (by omega) (by unfold lengthOf at hnext; omega)]
  dsimp only
  omega

theorem monthStart_inj {j k : Int} (h : monthStart j = monthStart k) : j = k := by
  have hj := monthStart_succ j
  have hk := monthStart_succ k
  rcases Int.lt_trichotomy j k with hlt | heq | hgt
  · have hle := monthStart_le hlt
    omega
  · exact heq
  · have hle := monthStart_le hgt
    omega

section Fires

variable {ctx : EvaluationContext} {inlineCalendar : Option BusinessCalendar}
  {rule : CalendarRule} {monthly : MonthlyRule} {timezone : Location} {offset : Int}

theorem validMonths_ne_nil (monthly : MonthlyRule) : validMonths monthly ≠ [] := by
  unfold validMonths
  split
  · exact List.cons_ne_nil _ _
  · assumption

namespace OnDayOfMonth

variable (h : OnDayOfMonth ctx inlineCalendar rule monthly timezone offset)
include h

/-- A later month of this name, and an instant it offers if it offers any. -/
theorem exists_later {m : Int} (hm : m ∈ validMonths monthly) (start : Int) :
    ∃ K, (placeOf K).2 = m ∧ ¬ IsLeap (placeOf K).1 ∧ monthOf timezone start ≤ K ∧
      ∃ x ∈ instantsOn offset (rule.timesOr {}) (offeredDay monthly K), start < x := by
  obtain ⟨⟨hpos, -⟩, hmonths, htimes⟩ := h.validated
  have hrange := hmonths m hm
  obtain ⟨year, hleap, hafter⟩ := exists_monthStart_gt hrange.1 (timezone.civilDay start)
  obtain ⟨time, rest, heq⟩ := List.exists_cons_of_ne_nil (rule.timesOr_ne_nil {})
  have hplace := @placeOf_monthIndex year m hrange
  refine ⟨monthIndex year m, by rw [hplace], by rwa [hplace], ?_, ?_⟩
  · exact monthOf_le (by have hnext := monthStart_succ (monthIndex year m); omega)
  · obtain ⟨x, hx⟩ : ∃ x, x ∈ instantsOn offset (rule.timesOr {})
        (offeredDay monthly (monthIndex year m)) := by
      rw [heq]
      exact ⟨_, List.mem_cons_self⟩
    have hxDay := civilDay_of_mem_instantsOn h.fixed htimes hx
    refine ⟨x, hx, ?_⟩
    by_contra hnot
    have hmono := h.fixed.civilDay_mono (Int.not_lt.mp hnot)
    unfold offeredDay at hxDay
    omega

/-- A date the rule lists, of which the evaluator fires none of the instants. -/
theorem not_firesOnDays_of_missed {stride start m : Int} (hm : m ∈ validMonths monthly)
    (hmissed : Missed monthly m) :
    ¬ FiresOnDays (findNextExecution ctx inlineCalendar rule timezone) timezone monthly
      (rule.timesOr {}) stride start := by
  intro hfires
  obtain ⟨⟨hpos, -⟩, -, -⟩ := h.validated
  obtain ⟨K, rfl, hleap, -, x, hx, hlt⟩ := h.exists_later hm start
  obtain ⟨hbefore, hle⟩ := hmissed K rfl hleap
  have hdate := dateOfDay_offeredDay hpos hle
  have hnumber : dayNumber (placeOf K).1 (placeOf K).2 monthly.dayValue =
      offeredDay monthly K := by
    rw [dayNumber_eq, monthIndex_placeOf, offeredDay]
  have hvalid := dateOfDay_valid (offeredDay monthly K)
  rw [hdate] at hvalid
  obtain ⟨t, hreach, ht⟩ := hfires.complete _ hvalid rfl hm ⟨x, by
    simpa [atTimes, instantsOn, h.fixed.date_eq, hnumber] using hx, hlt⟩
  -- the run on that date is offered by a month, and only by its own
  obtain ⟨s, hfound⟩ := hreach.found
  obtain ⟨k, hmem⟩ := h.exists_offers hfound
  obtain ⟨⟨-, hoffers⟩, htDay⟩ := h.civilDay_of_mem_offers hmem
  have hsame : offeredDay monthly k = offeredDay monthly K := by
    have hback := dayNumber_dateOfDay (timezone.civilDay t)
    change dayNumber (timezone.dateOf t).year (timezone.dateOf t).month
      (timezone.dateOf t).day = _ at hback
    rw [ht] at hback
    exact (htDay.symm.trans hback.symm).trans hnumber
  have hk : k = K := monthStart_inj (by unfold offeredDay at hsame; omega)
  rw [hk] at hoffers
  omega

/-- A month that always offers an instant, of a date in the next month. -/
theorem not_firesOnDays_of_rolls {stride start m : Int} (hstride : 0 ≤ stride ∧ stride ≤ day)
    (hm : m ∈ validMonths monthly) (hrollsOver : RollsOver monthly m) :
    ¬ FiresOnDays (findNextExecution ctx inlineCalendar rule timezone) timezone monthly
      (rule.timesOr {}) stride start := by
  intro hfires
  obtain ⟨⟨-, hday⟩, -, -⟩ := h.validated
  obtain ⟨halways, hrolls⟩ := hrollsOver
  obtain ⟨K, rfl, hleap, hmonth, x, hx, hlt⟩ := h.exists_later hm start
  have hoffers : Offers monthly K := ⟨hm, halways K rfl⟩
  have hx' : x ∈ offers offset monthly (rule.timesOr {}) K := by
    rw [offers, if_pos hoffers]
    exact hx
  obtain ⟨t, ht, hreach⟩ := h.reaches_offers ⟨_, hm, halways⟩ hstride hmonth hx' hlt
  refine day_offeredDay_ne hday (hrolls K rfl hleap) ?_
  rw [← (h.civilDay_of_mem_offers ht).2]
  exact (hfires.sound t hreach).1

/-- Where every listed month is long enough, as is the one before it, each offers its own date. -/
theorem firesOnDays_of_fits {stride start : Int} (hstride : 0 ≤ stride ∧ stride ≤ day)
    (hlengths : ∀ k, (placeOf k).2 ∈ validMonths monthly →
      monthly.dayValue ≤ lengthOf (k - 1) ∧ monthly.dayValue ≤ lengthOf k) :
    FiresOnDays (findNextExecution ctx inlineCalendar rule timezone) timezone monthly
      (rule.timesOr {}) stride start := by
  obtain ⟨⟨hpos, -⟩, -, -⟩ := h.validated
  refine ⟨fun t hreach => ?_, fun date hvalid hdate hmonth hexists => ?_⟩
  · obtain ⟨s, hfound⟩ := hreach.found
    obtain ⟨k, hmem⟩ := h.exists_offers hfound
    obtain ⟨⟨hlisted, -⟩, htDay⟩ := h.civilDay_of_mem_offers hmem
    rw [Location.dateOf, htDay, dateOfDay_offeredDay hpos (hlengths k hlisted).2]
    exact ⟨rfl, hlisted⟩
  · -- the instants of the date are those that its month offers
    obtain ⟨u, hu, hlt⟩ := hexists
    obtain ⟨year, month, d⟩ := date
    dsimp only at hdate hmonth
    subst hdate
    obtain ⟨K, hK⟩ : ∃ K, K = monthIndex year month := ⟨_, rfl⟩
    have hplace : placeOf K = (year, month) := hK ▸ placeOf_monthIndex hvalid.month
    have hlisted : (placeOf K).2 ∈ validMonths monthly := by rwa [hplace]
    have hoffers : Offers monthly K := ⟨hlisted, (hlengths K hlisted).1⟩
    have hu' : u ∈ offers offset monthly (rule.timesOr {}) K := by
      rw [offers, if_pos hoffers]
      simpa [atTimes, instantsOn, h.fixed.date_eq, dayNumber_eq, ← hK, offeredDay] using hu
    have huDay := (h.civilDay_of_mem_offers hu').2
    have hbound : offeredDay monthly K < monthStart (K + 1) := by
      have hle := (hlengths K hlisted).2
      unfold offeredDay
      unfold lengthOf at hle
      omega
    have hmono := h.fixed.civilDay_mono (Int.le_of_lt hlt)
    obtain ⟨m, hm⟩ := List.exists_mem_of_ne_nil _ (validMonths_ne_nil monthly)
    obtain ⟨t, ht, hreach⟩ := h.reaches_offers
      ⟨m, hm, fun k hk => (hlengths k (hk ▸ hm)).1⟩ hstride (monthOf_le (by omega)) hu' hlt
    refine ⟨t, hreach, ?_⟩
    rw [Location.dateOf, (h.civilDay_of_mem_offers ht).2,
      dateOfDay_offeredDay hpos (hlengths K hlisted).2, hplace]

/-- **Days of the month**: the evaluator fires on the dates it should, exactly when the day fits
the listed months. -/
theorem firesOnDays_iff {stride start : Int} (hstride : 0 ≤ stride ∧ stride ≤ day) :
    FiresOnDays (findNextExecution ctx inlineCalendar rule timezone) timezone monthly
      (rule.timesOr {}) stride start ↔ DayFits monthly := by
  obtain ⟨⟨-, hday⟩, hmonths, -⟩ := h.validated
  constructor
  · intro hfires
    by_contra hfits
    obtain ⟨m, hm, hmissed | hrolls⟩ := exists_of_not_dayFits hday hmonths hfits
    · exact h.not_firesOnDays_of_missed hm hmissed hfires
    · exact h.not_firesOnDays_of_rolls hstride hm hrolls hfires
  · exact fun hfits => h.firesOnDays_of_fits hstride fun k hk =>
      le_lengthOf_of_dayFits hday hfits hk

end OnDayOfMonth

end Fires

/-- A rule for a day of every month. -/
def everyMonthOn (dayOfMonth : Int) : CalendarRule :=
  { rule := some (.monthly ⟨.dayOfMonth, dayOfMonth, 0, []⟩) }

theorem onDayOfMonth_everyMonthOn {dayOfMonth : Int} (h : dayOfMonth = 28 ∨ dayOfMonth = 31) :
    OnDayOfMonth ⟨none, 0⟩ none (everyMonthOn dayOfMonth) ⟨.dayOfMonth, dayOfMonth, 0, []⟩ utc
      0 := by
  refine ⟨rfl, rfl, ?_, Location.fixed_utc⟩
  rcases h with rfl | rfl <;> decide

/-- The 28th of every month. -/
theorem firesOnDays_28 :
    FiresOnDays (findNextExecution ⟨none, 0⟩ none (everyMonthOn 28) utc) utc
      ⟨.dayOfMonth, 28, 0, []⟩ ((everyMonthOn 28).timesOr {}) minute 0 :=
  ((onDayOfMonth_everyMonthOn (.inl rfl)).firesOnDays_iff (by decide)).mpr (by decide)

/-- The 31st of every month: after January 31, 1970, it is March 3. -/
theorem not_firesOnDays_31 :
    ¬ ∀ (ctx : EvaluationContext) (inlineCalendar : Option BusinessCalendar) (rule : CalendarRule)
      (monthly : MonthlyRule) (timezone : Location) (offset stride start : Int),
      OnDayOfMonth ctx inlineCalendar rule monthly timezone offset → 0 ≤ stride ∧ stride ≤ day →
        FiresOnDays (findNextExecution ctx inlineCalendar rule timezone) timezone monthly
          (rule.timesOr {}) stride start := by
  intro h
  have hfires := h _ _ _ _ _ _ 0 0 (onDayOfMonth_everyMonthOn (.inr rfl)) (by decide)
  have hfirst : findNextExecution ⟨none, 0⟩ none (everyMonthOn 31) utc 0 = .ok (30 * day) := by
    decide +kernel
  have hsecond : findNextExecution ⟨none, 0⟩ none (everyMonthOn 31) utc (30 * day + 0) =
      .ok (61 * day) := by decide +kernel
  exact absurd (hfires.sound _ ((Reaches.first hfirst).step hsecond)).1 (by decide)

end Monthly

end Nzovu.Calendar
