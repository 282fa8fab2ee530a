import Nzovu.Calendar.Pattern
import Nzovu.Calendar.Preview
import Nzovu.Calendar.Searching
import Nzovu.Foundation.Hours

/-!
# Intervals of Days

A daily rule runs every `n` days. `isValidDay` counts the days between a reference date and the
beginning of a UTC day, which is the elapsed time divided by 24 hours, rounded toward zero. The
reference is `start_date`, which need not be the beginning of a day; without one it is the instant
the evaluator is asked from, another one after each run.

- Section 1: counting days.
- Section 2: what the evaluator looks at.
- Section 3: the dates of a rule.
- Section 4: when it keeps to them.
-/

namespace Nzovu.Calendar

open Nzovu.Foundation
open Nzovu.Foundation.CivilTime

namespace Daily

/-! ## Section 1: Counting days -/

section Counting

variable {timezone : Location} {offset : Int} (h : timezone.Fixed offset)
include h

/-- The civil day of an instant is the one on which its UTC day begins, or the next. -/
theorem firstDay_le (s : Int) :
    firstDay offset s ≤ timezone.civilDay s ∧ timezone.civilDay s ≤ firstDay offset s + 1 := by
  rw [h.civilDay_eq, firstDay]
  simp only [day, hour, minute, second]
  omega

/-- Days are counted from the local date of `start_date` when this is the beginning of a UTC day.
Else they are counted from the beginning of the next UTC day on, and backwards from the one in which
it lies: that agrees for later dates if the local date is already the next one, and for earlier
dates if it is not. -/
theorem periods_since {reference number : Int}
    (hrange : |(number - offset / 86400) * day - reference| < 9223372036854775808)
    (hphase : reference % day = 0 ∨
      (day ≤ reference % day + offset % 86400 * second ∧
        timezone.civilDay reference ≤ number) ∨
      (reference % day + offset % 86400 * second < day ∧ reference % day + second ≤ day ∧
        number ≤ timezone.civilDay reference)) :
    periods (sub ((number - offset / 86400) * day) reference) 24 =
      number - timezone.civilDay reference := by
  rw [sub_eq hrange]
  rw [abs_lt] at hrange
  have hanchor := h.civilDay_eq reference
  -- The quotient is exact, rounded down after the reference, or rounded up before it.
  rcases hphase with hwhole | ⟨hahead, hle⟩ | ⟨hbehind, hroom, hle⟩
  · have hdays : (number - offset / 86400) * day - reference =
        (number - timezone.civilDay reference) * day := by
      rw [hanchor]
      simp only [day, hour, minute, second] at hwhole ⊢
      omega
    rw [hdays] at hrange ⊢
    refine periods_whole (abs_lt.mpr ?_)
    have hbounds : -106752 ≤ number - timezone.civilDay reference ∧
        number - timezone.civilDay reference ≤ 106752 := by
      simp only [day, hour, minute, second] at hrange
      omega
    have hlow : (-106752 : ℚ) ≤ ((number - timezone.civilDay reference : Int) : ℚ) := by
      exact_mod_cast hbounds.1
    have hhigh : ((number - timezone.civilDay reference : Int) : ℚ) ≤ 106752 := by
      exact_mod_cast hbounds.2
    constructor <;> linarith
  · simp only [day, hour, minute, second] at hahead hrange hanchor
    rw [periods_eq_ediv]
    all_goals
      simp only [day, hour, minute, second]
      omega
  · simp only [day, hour, minute, second] at hbehind hroom hrange hanchor
    have hback : (number - offset / 86400) * day - reference =
        -(reference - (number - offset / 86400) * day) := by omega
    rw [hback, periods_neg, periods_eq_ediv]
    all_goals
      simp only [day, hour, minute, second]
      omega

omit h in
/-- From an instant within a UTC day, at a whole second, the days are counted from the next one
on. -/
theorem periods_behind {s : Int} (hwhole : s % second = 0) (hmidnight : s % day ≠ 0) {k : Nat}
    (hpos : 0 < k) (hk : k < 365) : periods (sub ((s / day + k) * day) s) 24 = k - 1 := by
  have hrange : |(s / day + k) * day - s| < 9223372036854775808 := by
    rw [abs_lt]
    simp only [day, hour, minute, second]
    omega
  simp only [day, hour, minute, second] at hwhole hmidnight
  rw [sub_eq hrange, periods_eq_ediv]
  all_goals
    simp only [day, hour, minute, second]
    omega

/-- From a run, which falls on a whole second, the days are counted from its own date, if it is at
midnight of UTC or its local date is ahead of that of the UTC day; else the next date is not counted
either. -/
theorem periods_run {s : Int} (hwhole : s % second = 0) {k : Nat} (hk : k < 365)
    (hle : timezone.civilDay s ≤ firstDay offset s + k)
    (hphase : firstDay offset s + k = timezone.civilDay s ∨ s % day = 0 ∨
      firstDay offset s < timezone.civilDay s) :
    periods (sub ((s / day + k) * day) s) 24 = firstDay offset s + k - timezone.civilDay s := by
  have hbounds := firstDay_le h s
  have hcivil := h.civilDay_eq s
  have hrange : |(s / day + k) * day - s| < 9223372036854775808 := by
    rw [abs_lt]
    simp only [day, hour, minute, second]
    omega
  rw [sub_eq hrange]
  unfold firstDay at hbounds hle hphase ⊢
  by_cases hmidnight : s % day = 0
  · have hdays : (s / day + k) * day - s = k * day := by
      simp only [day, hour, minute, second] at hmidnight ⊢
      omega
    have hbound : |((k : Int) : ℚ)| < 2 ^ 40 := by
      have hsmall : ((k : Int) : ℚ) ≤ 365 := by exact_mod_cast Nat.le_of_lt hk
      have hnonneg : (0 : ℚ) ≤ ((k : Int) : ℚ) := by exact_mod_cast Int.natCast_nonneg k
      rw [abs_lt]
      constructor <;> linarith
    rw [hdays, periods_whole hbound]
    simp only [day, hour, minute, second] at hmidnight hcivil ⊢
    omega
  · have hsecond := hwhole
    have hwithin := hmidnight
    simp only [day, hour, minute, second] at hwhole hmidnight hphase hcivil hbounds hle
    rcases Nat.eq_zero_or_pos k with rfl | hpos
    · have hback : (s / day + (0 : Nat)) * day - s = -(s % day) := by
        simp only [day, hour, minute, second]
        omega
      rw [hback, periods_neg, periods_eq_ediv]
      all_goals
        simp only [day, hour, minute, second]
        omega
    · rw [← sub_eq hrange, periods_behind hsecond hwithin hpos hk]
      simp only [day, hour, minute, second]
      omega

end Counting

/-! ## Section 2: What the evaluator looks at -/

/-- The reference date: `start_date`, or the instant the evaluator is asked from. -/
def reference (daily : DailyRule) (s : Int) : Int := (daily.startDate.map (·.asTime)).getD s

/-- The evaluator takes the day that begins at `date`. -/
def takes (timezone : Location) (daily : DailyRule) (s date : Int) : Bool :=
  isValidDay date (reference daily s) daily.dayInterval &&
    !(daily.weekdaysOnly && isWeekend timezone date)

/-- A valid daily rule with an interval from 1 to 365 days, in a zone with a fixed offset. -/
structure OnInterval (ctx : EvaluationContext) (inlineCalendar : Option BusinessCalendar)
    (rule : CalendarRule) (daily : DailyRule) (timezone : Location) (offset : Int) : Prop where
  config : rule.rule = some (.daily daily)
  valid : validateRule ctx inlineCalendar rule = .ok ()
  interval : 1 ≤ daily.dayInterval ∧ daily.dayInterval ≤ 365
  fixed : timezone.Fixed offset

/-- `t` is neither a Saturday nor a Sunday. -/
def Weekday (number : Int) : Prop := weekdayOfDay number ≠ 6 ∧ weekdayOfDay number ≠ 0

theorem isValidDay_iff {date reference n : Int} (hn : 1 ≤ n) :
    isValidDay date reference n = true ↔ n ∣ periods (sub date reference) 24 := by
  rw [isValidDay, Bool.or_eq_true, decide_eq_true_eq, decide_eq_true_eq,
    ← Int.dvd_iff_tmod_eq_zero]
  constructor
  · rintro (hle | hdvd)
    · obtain rfl : n = 1 := by omega
      exact one_dvd _
    · exact hdvd
  · exact .inr

theorem isWeekend_iff {timezone : Location} {offset : Int} (h : timezone.Fixed offset) (s : Int)
    (k : Nat) : isWeekend timezone ((s / day + k) * day) = false ↔
      Weekday (firstDay offset s + k) := by
  have hnumber : s / day + k + offset / 86400 = firstDay offset s + k := by
    unfold firstDay
    omega
  rw [isWeekend, Location.weekday, civilDay_midnight h, hnumber, Bool.or_eq_false_iff,
    decide_eq_false_iff_not, decide_eq_false_iff_not, Weekday]

namespace OnInterval

variable {ctx : EvaluationContext} {inlineCalendar : Option BusinessCalendar}
  {rule : CalendarRule} {daily : DailyRule} {timezone : Location} {offset : Int}
  (h : OnInterval ctx inlineCalendar rule daily timezone offset)
include h

theorem validated : ∀ t ∈ rule.timesOr {}, 0 ≤ t.seconds ∧ t.seconds < 86400 := by
  have hvalid := h.valid
  simp only [validateRule, h.config, validate] at hvalid
  split at hvalid
  · cases hvalid
  · exact fun t => CalendarRule.mem_timesOr hvalid (by decide)

/-- The evaluator walks through the days, for a year. -/
theorem findNextExecution_eq (s : Int) :
    findNextExecution ctx inlineCalendar rule timezone s =
      searchResult "no valid execution time found within 1 year"
        (search s (fun date => .ok (dayOffers timezone (takes timezone daily s) (rule.timesOr {})
          date)) (· + day) 365 (truncateDay s)) := by
  have hinterval : ¬ daily.dayInterval ≤ 0 := by
    have hpos := h.interval.1
    omega
  simp only [findNextExecution, evaluateRule, CalendarRule.pattern, h.config, evaluate,
    if_neg hinterval]
  rfl

end OnInterval

/-! ## Section 3: The dates of a rule -/

/-- The local date from which the days are counted: that of `start_date`, or that of the run `t`. -/
def anchorDay (timezone : Location) (daily : DailyRule) (t : Int) : Int :=
  timezone.civilDay (reference daily t)

/-- The next date of a rule: the first one, at a multiple of `n` days from the anchor, that has an
execution time after `s`. -/
structure NextDate (offset : Int) (executionTimes : List TimeOfDay) (n anchor s number : Int) :
    Prop where
  multiple : n ∣ number - anchor
  late : Late offset executionTimes s number
  first : ∀ m < number, n ∣ m - anchor → ¬ Late offset executionTimes s m

section Dates

variable {timezone : Location} {offset : Int} (h : timezone.Fixed offset)
  {executionTimes : List TimeOfDay} {n anchor s number : Int}
  (hvalid : ∀ time ∈ executionTimes, 0 ≤ time.seconds ∧ time.seconds < 86400)
include h hvalid

/-- There is one within `n` days. -/
theorem exists_nextDate (hne : executionTimes ≠ []) (hn : 1 ≤ n) (anchor s : Int) :
    ∃ number, NextDate offset executionTimes n anchor s number ∧
      timezone.civilDay s ≤ number ∧ number ≤ timezone.civilDay s + n := by
  -- the first multiple of `n` days after the civil day of `s`
  obtain ⟨m, hm, hlt, hle⟩ : ∃ m, n ∣ m - anchor ∧ timezone.civilDay s < m ∧
      m ≤ timezone.civilDay s + n := by
    refine ⟨timezone.civilDay s + n - (timezone.civilDay s - anchor) % n, ?_, ?_, ?_⟩
    · have hparts := Int.emod_add_mul_ediv (timezone.civilDay s - anchor) n
      exact ⟨(timezone.civilDay s - anchor) / n + 1, by rw [Int.mul_add, Int.mul_one]; omega⟩
    · have hmod := Int.emod_lt_of_pos (timezone.civilDay s - anchor) (show 0 < n by omega)
      omega
    · have hmod := Int.emod_nonneg (timezone.civilDay s - anchor) (show n ≠ 0 by omega)
      omega
  obtain ⟨number, hfirst, hbefore, ⟨hmultiple, hlate⟩, hnone⟩ :=
    @exists_first (fun d => n ∣ d - anchor ∧ Late offset executionTimes s d) _ _ (Int.le_of_lt hlt)
      ⟨hm, late_of_lt h hne hvalid hlt⟩
  refine ⟨number, ⟨hmultiple, hlate, fun d hd hdvd hlate' => ?_⟩, hfirst, by omega⟩
  exact hnone d (hlate'.le h hvalid) hd ⟨hdvd, hlate'⟩

/-- After a run on one of the dates, it is the same date or the one `n` days later. -/
theorem NextDate.eq_or_eq (hne : executionTimes ≠ []) (hn : 1 ≤ n)
    (hrun : n ∣ timezone.civilDay s - anchor)
    (hnext : NextDate offset executionTimes n anchor s number) :
    number = timezone.civilDay s ∨ number = timezone.civilDay s + n := by
  have hle := hnext.late.le h hvalid
  have hdiff : n ∣ number - timezone.civilDay s := by
    have hdvd := dvd_sub hnext.multiple hrun
    rwa [sub_sub_sub_cancel_right] at hdvd
  have hmultiple : n ∣ timezone.civilDay s + n - anchor := by
    have hdvd := dvd_add hrun (dvd_refl n)
    rwa [sub_add_eq_add_sub] at hdvd
  have hlate : Late offset executionTimes s (timezone.civilDay s + n) :=
    late_of_lt h hne hvalid (by omega)
  have hfirst : number ≤ timezone.civilDay s + n := by
    by_contra hafter
    exact hnext.first _ (Int.not_le.mp hafter) hmultiple hlate
  rcases Int.lt_or_eq_of_le hle with hlt | heq
  · have hfar := Int.le_of_dvd (show 0 < number - timezone.civilDay s by omega) hdiff
    exact .inr (by omega)
  · exact .inl heq.symm

end Dates

/-! ## Section 4: Keeping to the dates -/

/-- The days are counted from the anchor, up to the next date. Without `start_date`: the next date
is that of `s`, or `s` is midnight of UTC, or its local date is ahead of that of its UTC day. With a
`start_date`: it is midnight of UTC; or its local date is ahead of that of its UTC day, and no
execution time is left on the date before; or it is not ahead, and the next date is not after it.
All the days it looks at lie less than 2^63 nanoseconds from `start_date`. -/
def InStep (timezone : Location) (offset : Int) (executionTimes : List TimeOfDay)
    (daily : DailyRule) (s number : Int) : Prop :=
  match daily.startDate with
  | none =>
    number = timezone.civilDay s ∨ s % day = 0 ∨ firstDay offset s < timezone.civilDay s
  | some startDate =>
    (startDate.asTime % day = 0 ∨
      (day ≤ startDate.asTime % day + offset % 86400 * second ∧
        ¬ Late offset executionTimes s (timezone.civilDay startDate.asTime - 1)) ∨
      (startDate.asTime % day + offset % 86400 * second < day ∧
        startDate.asTime % day + second ≤ day ∧
        number ≤ timezone.civilDay startDate.asTime)) ∧
    |(timezone.civilDay s - offset / 86400) * day - startDate.asTime| < 9223372036854775808 ∧
    |(number - offset / 86400) * day - startDate.asTime| < 9223372036854775808

/-- A step to the date `number` is within reach of the walk, keeps to working days if the rule does,
and the days are counted from the anchor. -/
structure StepFits (timezone : Location) (offset : Int) (executionTimes : List TimeOfDay)
    (daily : DailyRule) (s number : Int) : Prop where
  reach : number < firstDay offset s + 365
  weekday : daily.weekdaysOnly = true → Weekday number
  inStep : daily.dayInterval = 1 ∨ InStep timezone offset executionTimes daily s number

/-- The step from `s` fits, wherever the next date is. -/
def StepsFit (timezone : Location) (offset : Int) (executionTimes : List TimeOfDay)
    (daily : DailyRule) (s : Int) : Prop :=
  ∀ number, NextDate offset executionTimes daily.dayInterval (anchorDay timezone daily s) s number →
    StepFits timezone offset executionTimes daily s number

/-- The run `t` is on one of the dates. -/
def Aligned (timezone : Location) (daily : DailyRule) (t : Int) : Prop :=
  daily.dayInterval ∣ timezone.civilDay t - anchorDay timezone daily t

/-- The dates of two consecutive runs are the same, or `n` days apart. -/
def Apart (n d e : Int) : Prop := e = d ∨ e = d + n

/-- Dates `n` days apart: each is a multiple of `n` days from the first, and none in between is
left out. -/
theorem mem_of_isChain_apart {n : Int} (hn : 0 < n) {d : Int} {dates : List Int}
    (h : (d :: dates).IsChain (Apart n)) :
    (∀ e ∈ d :: dates, d ≤ e ∧ n ∣ e - d) ∧
      ∀ number, n ∣ number - d → d ≤ number → (∃ e ∈ d :: dates, number ≤ e) →
        number ∈ d :: dates := by
  induction dates generalizing d with
  | nil =>
    refine ⟨fun e he => ?_, fun number _ hle hexists => ?_⟩
    · obtain rfl := List.mem_singleton.mp he
      exact ⟨le_rfl, by simp⟩
    · obtain ⟨e, he, hnumber⟩ := hexists
      obtain rfl := List.mem_singleton.mp he
      exact List.mem_singleton.mpr (by omega)
  | cons next rest ih =>
    obtain ⟨hnext, hrest⟩ := List.isChain_cons_cons.mp h
    obtain ⟨hmultiples, hall⟩ := ih hrest
    have hstep : d ≤ next ∧ n ∣ next - d := by
      rcases hnext with rfl | rfl
      · exact ⟨le_rfl, by simp⟩
      · exact ⟨by omega, by simp⟩
    refine ⟨fun e he => ?_, fun number hdvd hle hexists => ?_⟩
    · rcases List.mem_cons.mp he with rfl | he
      · exact ⟨le_rfl, by simp⟩
      · obtain ⟨hlater, hmultiple⟩ := hmultiples e he
        have hsum := dvd_add hmultiple hstep.2
        rw [sub_add_sub_cancel] at hsum
        exact ⟨by omega, hsum⟩
    · rcases Int.lt_or_eq_of_le hle with hlt | rfl
      · -- a later multiple is not before the next date
        have hfar := Int.le_of_dvd (show 0 < number - d by omega) hdvd
        have hlater : next ≤ number := by
          rcases hnext with rfl | rfl <;> omega
        have hdiff := dvd_sub hdvd hstep.2
        rw [sub_sub_sub_cancel_right] at hdiff
        obtain ⟨e, he, hnumber⟩ := hexists
        refine List.mem_cons_of_mem _ (hall number hdiff hlater ?_)
        rcases List.mem_cons.mp he with rfl | he
        · exact ⟨next, List.mem_cons_self, by omega⟩
        · exact ⟨e, he, hnumber⟩
      · exact List.mem_cons_self

namespace OnInterval

variable {ctx : EvaluationContext} {inlineCalendar : Option BusinessCalendar}
  {rule : CalendarRule} {daily : DailyRule} {timezone : Location} {offset s number : Int}
  (h : OnInterval ctx inlineCalendar rule daily timezone offset)
include h

/-- The evaluator takes exactly the multiples of the interval, as far as it looks. -/
theorem isValidDay_iff_dvd (hwhole : daily.startDate = none → s % second = 0)
    (hfits : StepFits timezone offset (rule.timesOr {}) daily s number) {k : Nat}
    (hlate : Late offset (rule.timesOr {}) s (firstDay offset s + k))
    (hle : firstDay offset s + k ≤ number) :
    isValidDay ((s / day + k) * day) (reference daily s) daily.dayInterval = true ↔
      daily.dayInterval ∣ firstDay offset s + k - anchorDay timezone daily s := by
  have hcivil := hlate.le h.fixed h.validated
  rw [isValidDay_iff h.interval.1]
  rcases hfits.inStep with hone | hstep
  · simp [hone]
  · have hreach := hfits.reach
    unfold InStep at hstep
    unfold anchorDay reference
    cases hstart : daily.startDate with
    | none =>
      simp only [hstart] at hstep
      simp only [Option.map_none, Option.getD_none]
      rw [periods_run h.fixed (hwhole hstart) (by omega) hcivil (hstep.imp_left (by omega))]
    | some startDate =>
      simp only [hstart] at hstep
      simp only [Option.map_some, Option.getD_some]
      obtain ⟨hphase, hlow, hhigh⟩ := hstep
      have hplace : (s / day + k) * day = (firstDay offset s + k - offset / 86400) * day := by
        congr 1
        unfold firstDay
        omega
      rw [hplace, periods_since h.fixed]
      · rw [abs_lt] at hlow hhigh ⊢
        simp only [day, hour, minute, second] at hlow hhigh ⊢
        omega
      · rcases hphase with hmidnight | ⟨hahead, hnone⟩ | ⟨hbehind, hroom, hlast⟩
        · exact .inl hmidnight
        · refine .inr (.inl ⟨hahead, ?_⟩)
          by_contra hbefore
          exact hnone (hlate.mono (by omega))
        · exact .inr (.inr ⟨hbehind, hroom, by omega⟩)

/-- **One step**: where it fits, the evaluator finds a run on the next date. -/
theorem finds_nextDate (hwhole : daily.startDate = none → s % second = 0)
    (hnext : NextDate offset (rule.timesOr {}) daily.dayInterval (anchorDay timezone daily s) s
      number)
    (hfits : StepFits timezone offset (rule.timesOr {}) daily s number) :
    ∃ t, findNextExecution ctx inlineCalendar rule timezone s = .ok t ∧
      timezone.civilDay t = number := by
  have hcivil := hnext.late.le h.fixed h.validated
  have hfirst := firstDay_le h.fixed s
  have hreach := hfits.reach
  obtain ⟨k, rfl⟩ := Int.le.dest (show firstDay offset s ≤ number by omega)
  have hvalid := (h.isValidDay_iff_dvd hwhole hfits hnext.late le_rfl).mpr hnext.multiple
  have htakes : takes timezone daily s ((s / day + k) * day) = true := by
    rw [takes, hvalid, Bool.true_and, Bool.not_eq_true', Bool.and_eq_false_imp]
    exact fun honly => (isWeekend_iff h.fixed s k).mpr (hfits.weekday honly)
  obtain ⟨t, ht, hsearch⟩ := dayWalk_finds_first h.fixed h.validated (show k < 365 by omega) htakes
    hnext.late fun j hj htaken hlate => by
      have hdvd := (h.isValidDay_iff_dvd hwhole hfits hlate (by omega)).mp
        (Bool.and_eq_true_iff.mp htaken).1
      exact hnext.first _ (by omega) hdvd hlate
  exact ⟨t, by rw [h.findNextExecution_eq, hsearch, searchResult_some], ht⟩

/-- Without a `start_date` a step from a run goes to the next date only if it fits: from a run that
is not at midnight of UTC and whose local date is not ahead, the date `n` days later is counted as
one day less. -/
theorem finds_nextDate_iff (hstart : daily.startDate = none) (hwhole : s % second = 0)
    (hnext : NextDate offset (rule.timesOr {}) daily.dayInterval (anchorDay timezone daily s) s
      number) :
    (∃ t, findNextExecution ctx inlineCalendar rule timezone s = .ok t ∧
      timezone.civilDay t = number) ↔
        StepFits timezone offset (rule.timesOr {}) daily s number := by
  refine ⟨?_, h.finds_nextDate (fun _ => hwhole) hnext⟩
  rintro ⟨t, hfound, hday⟩
  rw [h.findNextExecution_eq] at hfound
  obtain ⟨k, hk, htakes, ht, -, -⟩ := dayWalk_found h.fixed (searchResult_ok hfound)
  obtain rfl : firstDay offset s + k = number :=
    (civilDay_of_mem_instantsOn h.fixed h.validated ht).symm.trans hday
  obtain ⟨hvalid, hweekday⟩ := Bool.and_eq_true_iff.mp htakes
  refine ⟨by omega, fun honly => ?_, ?_⟩
  · rw [honly, Bool.true_and, Bool.not_eq_true'] at hweekday
    exact (isWeekend_iff h.fixed s k).mp hweekday
  · by_contra hnot
    obtain ⟨hmany, hbehind⟩ := not_or.mp hnot
    unfold InStep at hbehind
    simp only [hstart, not_or] at hbehind
    obtain ⟨hother, hmidnight, hahead⟩ := hbehind
    have hanchor : anchorDay timezone daily s = timezone.civilDay s := by
      simp [anchorDay, reference, hstart]
    have hfirst := firstDay_le h.fixed s
    have hfar : firstDay offset s + k = timezone.civilDay s + daily.dayInterval := by
      have hcases := hnext.eq_or_eq h.fixed h.validated (rule.timesOr_ne_nil {}) h.interval.1
        (by simp [hanchor])
      exact hcases.resolve_left hother
    have hinterval := h.interval.1
    have hcount : periods (sub ((s / day + k) * day) s) 24 = k - 1 :=
      periods_behind hwhole hmidnight (by omega) hk
    have hreference : reference daily s = s := by simp [reference, hstart]
    rw [hreference, isValidDay_iff hinterval, hcount] at hvalid
    have hle := Int.le_of_dvd (by omega) hvalid
    omega

/-- The evaluator asked from `s` finds a run on the next date. -/
theorem finds (hwhole : daily.startDate = none → s % second = 0)
    (hfits : StepsFit timezone offset (rule.timesOr {}) daily s) :
    ∃ t number, findNextExecution ctx inlineCalendar rule timezone s = .ok t ∧
      timezone.civilDay t = number ∧ NextDate offset (rule.timesOr {}) daily.dayInterval
        (anchorDay timezone daily s) s number := by
  obtain ⟨number, hnext, -⟩ := exists_nextDate h.fixed h.validated (rule.timesOr_ne_nil {})
    h.interval.1 (anchorDay timezone daily s) s
  obtain ⟨t, ht, hday⟩ := h.finds_nextDate hwhole hnext (hfits number hnext)
  exact ⟨t, number, ht, hday, hnext⟩

/-- From a run on one of the dates, the evaluator finds a run on the same date or on the one after
`n` days. -/
theorem step {t : Int} (hwhole : t % second = 0) (haligned : Aligned timezone daily t)
    (hfits : StepsFit timezone offset (rule.timesOr {}) daily t) :
    ∃ u, findNextExecution ctx inlineCalendar rule timezone t = .ok u ∧ u % second = 0 ∧
      (timezone.civilDay u = timezone.civilDay t ∨
        timezone.civilDay u = timezone.civilDay t + daily.dayInterval) ∧
      Aligned timezone daily u := by
  obtain ⟨u, number, hu, rfl, hnext⟩ := h.finds (fun _ => hwhole) hfits
  have hday := hnext.eq_or_eq h.fixed h.validated (rule.timesOr_ne_nil {}) h.interval.1 haligned
  refine ⟨u, hu, (evaluateRule_spec hu).whole, hday, ?_⟩
  have hmultiple := hnext.multiple
  unfold Aligned anchorDay reference at haligned ⊢
  unfold anchorDay reference at hmultiple
  cases hstart : daily.startDate with
  | none => simp
  | some startDate =>
    simp only [hstart, Option.map_some, Option.getD_some] at hmultiple ⊢
    exact hmultiple

/-- The runs after one on one of the dates. -/
theorem runs_of_run {t : Int} {rest : List Int}
    (hwalk : Successive (findNextExecution ctx inlineCalendar rule timezone) 0 t rest)
    (hwhole : t % second = 0) (haligned : Aligned timezone daily t)
    (hfits : ∀ s ∈ t :: rest, StepsFit timezone offset (rule.timesOr {}) daily s) :
    ((t :: rest).map timezone.civilDay).IsChain (Apart daily.dayInterval) ∧
      ∃ u, findNextExecution ctx inlineCalendar rule timezone (rest.getLastD t) = .ok u := by
  induction rest generalizing t with
  | nil =>
    obtain ⟨u, hu, -⟩ := h.step hwhole haligned (hfits t List.mem_cons_self)
    exact ⟨List.isChain_singleton _, u, hu⟩
  | cons first rest ih =>
    cases hwalk with
    | cons hnext hrest =>
      rw [Int.add_zero] at hrest
      obtain ⟨u, hu, hsecond, hday, hagain⟩ := h.step hwhole haligned (hfits t List.mem_cons_self)
      obtain rfl : u = first := Except.ok.inj (hu.symm.trans hnext)
      obtain ⟨hchain, hlast⟩ := ih hrest hsecond hagain fun s hs =>
        hfits s (List.mem_cons_of_mem _ hs)
      exact ⟨List.isChain_cons_cons.mpr ⟨hday, hchain⟩, by rwa [List.getLastD_cons]⟩

end OnInterval

/-- The condition on the first step. Without `start_date` the first run gives the anchor: within
reach, the evaluator takes some day that has an execution time after the start. -/
def StartFits (timezone : Location) (offset : Int) (executionTimes : List TimeOfDay)
    (daily : DailyRule) (start : Int) : Prop :=
  match daily.startDate with
  | some _ => StepsFit timezone offset executionTimes daily start
  | none =>
    ∃ k : Nat, k < 365 ∧ takes timezone daily start ((start / day + k) * day) = true ∧
      Late offset executionTimes start (firstDay offset start + k)

/-- The runs of an iteration of `Evaluate` keep to the interval: the iteration goes on; the date of
every run is a multiple of `n` days from the anchor; with a `start_date`, the first one is the first
such date that has an execution time after the start; no such date is left out between two runs, the
dates of consecutive runs are the same or `n` days apart; and an iteration restarted from one of the
runs goes on like this one. -/
structure KeepsInterval (next : Int → Result Int) (timezone : Location) (offset : Int)
    (executionTimes : List TimeOfDay) (daily : DailyRule) (start : Int) (runs : List Int) :
    Prop where
  goesOn : ∃ t, next (runs.getLastD start) = .ok t
  multiples : ∀ t ∈ runs,
    daily.dayInterval ∣ timezone.civilDay t - anchorDay timezone daily (runs.headD start)
  first : daily.startDate ≠ none → ∀ t, runs.head? = some t → ∀ number,
    daily.dayInterval ∣ number - anchorDay timezone daily (runs.headD start) →
      Late offset executionTimes start number → timezone.civilDay t ≤ number
  exact : ∀ number, daily.dayInterval ∣ number - anchorDay timezone daily (runs.headD start) →
    (∃ t ∈ runs, timezone.civilDay t ≤ number) → (∃ t ∈ runs, number ≤ timezone.civilDay t) →
      ∃ t ∈ runs, timezone.civilDay t = number
  apart : (runs.map timezone.civilDay).IsChain (Apart daily.dayInterval)
  restart : ∀ earlier t later, runs = earlier ++ t :: later → Successive next 0 t later

section Keeps

variable {ctx : EvaluationContext} {inlineCalendar : Option BusinessCalendar}
  {rule : CalendarRule} {daily : DailyRule} {timezone : Location} {offset start : Int}
  (h : OnInterval ctx inlineCalendar rule daily timezone offset)
include h

theorem OnInterval.exists_first_run
    (hstart : StartFits timezone offset (rule.timesOr {}) daily start) :
    ∃ t, findNextExecution ctx inlineCalendar rule timezone start = .ok t := by
  unfold StartFits at hstart
  cases hcase : daily.startDate with
  | some startDate =>
    simp only [hcase] at hstart
    obtain ⟨t, -, ht, -⟩ := h.finds (fun hnone => absurd (hcase.symm.trans hnone) nofun) hstart
    exact ⟨t, ht⟩
  | none =>
    simp only [hcase] at hstart
    obtain ⟨k, hk, htakes, hlate⟩ := hstart
    obtain ⟨t, m, -, -, hsearch⟩ := dayWalk_finds h.fixed hk htakes hlate
    exact ⟨t, by rw [h.findNextExecution_eq, hsearch, searchResult_some]⟩

/-- The first run is on one of the dates, with a `start_date` on the first. -/
theorem OnInterval.first_run {t : Int}
    (hfound : findNextExecution ctx inlineCalendar rule timezone start = .ok t)
    (hstart : StartFits timezone offset (rule.timesOr {}) daily start) :
    Aligned timezone daily t ∧
      (daily.startDate ≠ none → ∀ number, daily.dayInterval ∣ number - anchorDay timezone daily t →
        Late offset (rule.timesOr {}) start number → timezone.civilDay t ≤ number) := by
  unfold StartFits at hstart
  cases hcase : daily.startDate with
  | none =>
    refine ⟨?_, fun hsome => absurd rfl hsome⟩
    simp [Aligned, anchorDay, reference, hcase]
  | some startDate =>
    simp only [hcase] at hstart
    obtain ⟨u, number, hu, rfl, hnext⟩ :=
      h.finds (fun hnone => absurd (hcase.symm.trans hnone) nofun) hstart
    obtain rfl : u = t := Except.ok.inj (hu.symm.trans hfound)
    have hsame : anchorDay timezone daily start = anchorDay timezone daily u := by
      simp [anchorDay, reference, hcase]
    rw [hsame] at hnext
    refine ⟨hnext.multiple, fun _ number hdvd hlate => ?_⟩
    by_contra hbefore
    exact hnext.first number (Int.not_le.mp hbefore) hdvd hlate

/-- **Daily intervals**: an iteration whose steps all fit keeps to the interval. -/
theorem OnInterval.keepsInterval {runs : List Int}
    (hwalk : Successive (findNextExecution ctx inlineCalendar rule timezone) 0 start runs)
    (hstart : StartFits timezone offset (rule.timesOr {}) daily start)
    (hfits : ∀ t ∈ runs, StepsFit timezone offset (rule.timesOr {}) daily t) :
    KeepsInterval (findNextExecution ctx inlineCalendar rule timezone) timezone offset
      (rule.timesOr {}) daily start runs := by
  have hrestart : ∀ earlier t later, runs = earlier ++ t :: later →
      Successive (findNextExecution ctx inlineCalendar rule timezone) 0 t later := by
    rintro earlier t later rfl
    exact hwalk.restart
  cases hwalk with
  | nil =>
    exact ⟨h.exists_first_run hstart, nofun, nofun, nofun, List.isChain_nil, hrestart⟩
  | @cons _ first rest hfound hrest =>
    rw [Int.add_zero] at hrest
    obtain ⟨haligned, hfirst⟩ := h.first_run hfound hstart
    obtain ⟨hchain, hlast⟩ := h.runs_of_run hrest (evaluateRule_spec hfound).whole haligned hfits
    obtain ⟨hmultiples, hall⟩ := mem_of_isChain_apart h.interval.1 hchain
    refine ⟨by rwa [List.getLastD_cons], fun t ht => ?_, fun hsome t ht => ?_,
      fun number hdvd hlow hhigh => ?_, hchain, hrestart⟩
    · have hsum := dvd_add (hmultiples _ (List.mem_map_of_mem ht)).2 haligned
      rwa [sub_add_sub_cancel] at hsum
    · obtain rfl : first = t := Option.some.inj ht
      exact hfirst hsome
    · have hdiff := dvd_sub hdvd haligned
      rw [List.headD_cons, sub_sub_sub_cancel_right] at hdiff
      obtain ⟨t, ht, hle⟩ := hlow
      obtain ⟨u, hu, hnumber⟩ := hhigh
      have hleast := (hmultiples _ (List.mem_map_of_mem ht)).1
      exact List.mem_map.mp (hall number hdiff (by omega) ⟨_, List.mem_map_of_mem hu, hnumber⟩)

/-- With a `start_date` at midnight of UTC, every step fits for more than 250 years before and
after it, if the interval is at most 363 days and the rule does not leave out weekends. -/
theorem OnInterval.stepsFit_of_midnight {startDate : Timestamp}
    (hsome : daily.startDate = some startDate) (hmidnight : startDate.asTime % day = 0)
    (hinterval : daily.dayInterval ≤ 363) (hweekends : daily.weekdaysOnly = false)
    (hnear : |timezone.civilDay start - timezone.civilDay startDate.asTime| ≤ 100000) :
    StepsFit timezone offset (rule.timesOr {}) daily start := by
  intro number hnext
  obtain ⟨other, hother, -, hle⟩ := exists_nextDate h.fixed h.validated (rule.timesOr_ne_nil {})
    h.interval.1 (anchorDay timezone daily start) start
  have hlow := hnext.late.le h.fixed h.validated
  have hhigh : number ≤ other := by
    by_contra hafter
    exact hnext.first other (Int.not_le.mp hafter) hother.multiple hother.late
  have hfirst := firstDay_le h.fixed start
  refine ⟨by omega, fun honly => by simp [hweekends] at honly, .inr ?_⟩
  unfold InStep
  simp only [hsome]
  have hcivil := h.fixed.civilDay_eq startDate.asTime
  rw [abs_le] at hnear
  refine ⟨.inl hmidnight, abs_lt.mpr ?_, abs_lt.mpr ?_⟩
  all_goals
    simp only [day, hour, minute, second] at hmidnight hcivil ⊢
    omega

end Keeps

/-- A run every other day at nine o'clock, counted from the Unix epoch or from the first run. -/
def everyOtherDay (startDate : Option Timestamp) : CalendarRule where
  rule := some (.daily ⟨2, false, startDate⟩)
  executionTimes := [{ hour := 9 }]

theorem onInterval_everyOtherDay (startDate : Option Timestamp) :
    OnInterval defaultEnvironment.evaluation none (everyOtherDay startDate) ⟨2, false, startDate⟩
      utc 0 where
  config := rfl
  valid := rfl
  interval := ⟨by norm_num, by norm_num⟩
  fixed := Location.fixed_utc

/-- From the epoch: the run of the first day and the one of the third. -/
theorem keepsInterval_fromEpoch :
    KeepsInterval (findNextExecution defaultEnvironment.evaluation none
      (everyOtherDay (some ⟨0, 0⟩)) utc) utc 0 [{ hour := 9 }] ⟨2, false, some ⟨0, 0⟩⟩ 0
      [9 * hour, 2 * day + 9 * hour] := by
  have hrule := onInterval_everyOtherDay (some ⟨0, 0⟩)
  have hfits : ∀ s, |utc.civilDay s - utc.civilDay 0| ≤ 100000 →
      StepsFit utc 0 [{ hour := 9 }] ⟨2, false, some ⟨0, 0⟩⟩ s := fun s hs =>
    hrule.stepsFit_of_midnight rfl (by decide) (by decide) rfl hs
  refine hrule.keepsInterval (.cons (by decide +kernel) (.cons (by decide +kernel) .nil))
    (hfits 0 (by decide)) fun t ht => hfits t ?_
  simp only [List.mem_cons, List.not_mem_nil, or_false] at ht
  rcases ht with rfl | rfl <;> decide

/-- Without a `start_date` the run of the first day is followed by one of the second. -/
theorem not_keepsInterval_fromFirstRun :
    Successive (findNextExecution defaultEnvironment.evaluation none (everyOtherDay none) utc) 0 0
        [9 * hour, day + 9 * hour] ∧
      ¬ KeepsInterval (findNextExecution defaultEnvironment.evaluation none (everyOtherDay none)
        utc) utc 0 [{ hour := 9 }] ⟨2, false, none⟩ 0 [9 * hour, day + 9 * hour] := by
  refine ⟨.cons (by decide +kernel) (.cons (by decide +kernel) .nil), fun hkeeps => ?_⟩
  have hmultiple := hkeeps.multiples (day + 9 * hour) (by simp)
  revert hmultiple
  decide

end Daily

end Nzovu.Calendar
