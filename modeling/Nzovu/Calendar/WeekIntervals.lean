import Nzovu.Calendar.LocalDates
import Nzovu.Foundation.Hours

/-!
# Weekly Rules with an Interval

A weekly rule with an interval of `k` weeks runs in every `k`-th week from its start week on. The
evaluator measures the distance of two weeks in elapsed time: from the midnight with which the one
begins to that of the other, in hours, divided by the hours of a week and rounded towards zero. An
hour that the clocks skip in between takes a whole week off the distance.

- Section 1: weeks.
- Section 2: what the evaluator finds.
- Section 3: keeping to the weeks.
- Section 4: offsets below a day.
- Section 5: which weeks the evaluator counts.
- Section 6: offsets that never change.
-/

namespace Nzovu.Calendar

open Nzovu.Foundation
open Nzovu.Foundation.CivilTime

namespace Weekly

/-! ## Section 1: Weeks -/

/-- The number of the week of a civil day; weeks begin on Monday. -/
def weekOf (number : Int) : Int := (number + 3) / 7

theorem weekOf_mono {m n : Int} (h : m ≤ n) : weekOf m ≤ weekOf n := by
  unfold weekOf
  omega

theorem lt_of_weekOf_lt {m n : Int} (h : weekOf m < weekOf n) : m < n := by
  unfold weekOf at h
  omega

/-- A week has a date of each weekday. -/
theorem exists_date {d : Int} (hd : 1 ≤ d ∧ d ≤ 7) (week : Int) :
    ∃ number, weekOf number = week ∧ goWeekdayToOurs (weekdayOfDay number) = d := by
  refine ⟨7 * week - 4 + d, ?_, ?_⟩
  · unfold weekOf
    omega
  · unfold goWeekdayToOurs weekdayOfDay
    split <;> omega

/-! ## Section 2: What the evaluator finds -/

/-- A valid weekly rule with an interval and a start week. -/
structure OnWeeks (ctx : EvaluationContext) (inlineCalendar : Option BusinessCalendar)
    (rule : CalendarRule) (weekly : WeeklyRule) (startWeek : Timestamp) : Prop where
  config : rule.rule = some (.weekly weekly)
  interval : 1 ≤ weekly.weekInterval
  startWeek : weekly.startWeek = some startWeek
  valid : validateRule ctx inlineCalendar rule = .ok ()

/-- The evaluator takes an instant in a week that it counts, on a listed weekday. -/
def takesDay (timezone : Location) (weekly : WeeklyRule) (startWeek : Timestamp)
    (currentDate : Int) : Bool :=
  isValidWeek timezone currentDate startWeek.asTime weekly.weekInterval &&
    goWeekdayToOurs (timezone.weekday currentDate) ∈ weekly.daysOfWeek

/-- The length of the search, in days. -/
def searchWindow (weekly : WeeklyRule) : Nat := (14 * weekly.weekInterval).toNat

/-- The rule lists the weekday of the civil day. -/
def Listed (weekly : WeeklyRule) (number : Int) : Prop :=
  goWeekdayToOurs (weekdayOfDay number) ∈ weekly.daysOfWeek

/-- The `n`-th day of the walk is the first that the evaluator takes and whose date has an instant
after the start. -/
abbrev FirstFound (timezone : Location) (rule : CalendarRule) (weekly : WeeklyRule)
    (startWeek : Timestamp) (start : Int) (n : Nat) : Prop :=
  FirstTaken timezone rule start (takesDay timezone weekly startWeek) (searchWindow weekly) n

section Found

variable {ctx : EvaluationContext} {inlineCalendar : Option BusinessCalendar}
  {rule : CalendarRule} {weekly : WeeklyRule} {startWeek : Timestamp} {timezone : Location}
  {start t : Int}

namespace OnWeeks

variable (h : OnWeeks ctx inlineCalendar rule weekly startWeek)
include h

theorem validated :
    weekly.daysOfWeek ≠ [] ∧ (∀ d ∈ weekly.daysOfWeek, 1 ≤ d ∧ d ≤ 7) ∧
      ∀ s ∈ rule.times, 0 ≤ s.seconds ∧ s.seconds < 86400 := by
  have hvalid := h.valid
  simp only [validateRule, h.config, validate] at hvalid
  split at hvalid
  · cases hvalid
  next hsome =>
    split at hvalid
    · cases hvalid
    next hrange =>
      split at hvalid
      · cases hvalid
      · refine ⟨hsome, fun d hd => ?_, fun s hs => ?_⟩
        · have hd' := List.find?_eq_none.mp hrange d hd
          simp only [Bool.or_eq_true, decide_eq_true_eq, not_or] at hd'
          omega
        · exact CalendarRule.mem_timesOr hvalid rule.defaultTime_range hs

theorem findNextExecution_eq_ok :
    findNextExecution ctx inlineCalendar rule timezone start = .ok t ↔
      ∃ n, FirstFound timezone rule weekly startWeek start n ∧
        firstLate timezone rule start (visitedDay timezone start n) = some t := by
  have hinterval : (if weekly.weekInterval ≤ 0 then 1 else weekly.weekInterval) =
      weekly.weekInterval := if_neg (by have hle := h.interval; omega)
  refine findNextExecution_eq_ok_iff ?_
  rw [h.config]
  simp only [visits, hinterval, if_neg h.validated.1, h.startWeek, Option.map_some,
    Option.getD_some]
  rfl

end OnWeeks

end Found

/-! ## Section 3: Keeping to the weeks -/

/-- The week of the civil day is a multiple of the interval away from the start week. -/
def InDueWeek (timezone : Location) (weekly : WeeklyRule) (startWeek : Timestamp)
    (number : Int) : Prop :=
  weekly.weekInterval ∣ weekOf number - weekOf (timezone.civilDay startWeek.asTime)

/-- The date is listed, in a due week, and has an instant after the start. -/
structure Due (timezone : Location) (rule : CalendarRule) (weekly : WeeklyRule)
    (startWeek : Timestamp) (start number : Int) : Prop where
  listed : Listed weekly number
  inDueWeek : InDueWeek timezone weekly startWeek number
  late : HasLate timezone rule start number

/-- The run lies in a due week, and in no later one than a date that is due. -/
structure KeepsWeeks (next : Int → Result Int) (timezone : Location) (rule : CalendarRule)
    (weekly : WeeklyRule) (startWeek : Timestamp) (start : Int) : Prop where
  sound : ∀ t, next start = .ok t → InDueWeek timezone weekly startWeek (timezone.civilDay t)
  complete : ∀ number, Due timezone rule weekly startWeek start number →
    ∃ t, next start = .ok t ∧ weekOf (timezone.civilDay t) ≤ weekOf number

/-- The first instant after the start on the first day that the evaluator takes lies in a due week,
and in no later one than a date that is due. -/
structure WalkFits (timezone : Location) (rule : CalendarRule) (weekly : WeeklyRule)
    (startWeek : Timestamp) (start : Int) : Prop where
  sound : ∀ n t, FirstFound timezone rule weekly startWeek start n →
    firstLate timezone rule start (visitedDay timezone start n) = some t →
      InDueWeek timezone weekly startWeek (timezone.civilDay t)
  complete : ∀ number, Due timezone rule weekly startWeek start number →
    ∃ n t, FirstFound timezone rule weekly startWeek start n ∧
      firstLate timezone rule start (visitedDay timezone start n) = some t ∧
      weekOf (timezone.civilDay t) ≤ weekOf number

theorem OnWeeks.keepsWeeks_iff_walkFits {ctx : EvaluationContext}
    {inlineCalendar : Option BusinessCalendar} {rule : CalendarRule} {weekly : WeeklyRule}
    {startWeek : Timestamp} {timezone : Location} {start : Int}
    (h : OnWeeks ctx inlineCalendar rule weekly startWeek) :
    KeepsWeeks (findNextExecution ctx inlineCalendar rule timezone) timezone rule weekly startWeek
        start ↔
      WalkFits timezone rule weekly startWeek start := by
  constructor
  · rintro ⟨hsound, hcomplete⟩
    refine ⟨fun n t hfirst ht => hsound t (h.findNextExecution_eq_ok.mpr ⟨n, hfirst, ht⟩),
      fun number hdue => ?_⟩
    obtain ⟨t, hfound, hweek⟩ := hcomplete number hdue
    obtain ⟨n, hfirst, ht⟩ := h.findNextExecution_eq_ok.mp hfound
    exact ⟨n, t, hfirst, ht, hweek⟩
  · rintro ⟨hsound, hcomplete⟩
    refine ⟨fun t hfound => ?_, fun number hdue => ?_⟩
    · obtain ⟨n, hfirst, ht⟩ := h.findNextExecution_eq_ok.mp hfound
      exact hsound n t hfirst ht
    · obtain ⟨n, t, hfirst, ht, hweek⟩ := hcomplete number hdue
      exact ⟨t, h.findNextExecution_eq_ok.mpr ⟨n, hfirst, ht⟩, hweek⟩

/-! ## Section 4: Offsets below a day -/

/-- The clocks leave every execution time in its week. -/
def InOwnWeek (timezone : Location) (rule : CalendarRule) : Prop :=
  ∀ number, ∀ t ∈ offersOn timezone rule number, weekOf (timezone.civilDay t) = weekOf number

/-- The first date that is due. -/
structure FirstDue (timezone : Location) (rule : CalendarRule) (weekly : WeeklyRule)
    (startWeek : Timestamp) (start number : Int) : Prop where
  due : Due timezone rule weekly startWeek start number
  first : ∀ m < number, ¬ Due timezone rule weekly startWeek start m

/-- The date at the `n`-th instant of the walk is listed and has an instant after the start. -/
structure Waiting (timezone : Location) (rule : CalendarRule) (weekly : WeeklyRule) (start : Int)
    (n : Nat) : Prop where
  inWindow : n < searchWindow weekly
  listed : Listed weekly (visitedDay timezone start n)
  late : HasLate timezone rule start (visitedDay timezone start n)

/-- The evaluator counts the week of the `n`-th instant of the walk. -/
def Counts (timezone : Location) (weekly : WeeklyRule) (startWeek : Timestamp) (start : Int)
    (n : Nat) : Prop :=
  isValidWeek timezone ((start / day + n) * day) startWeek.asTime weekly.weekInterval = true

/-- Of the dates on which the rule could run, the evaluator counts none in a week before the first
date that is due, and one in the week of that date. -/
structure TestFits (timezone : Location) (rule : CalendarRule) (weekly : WeeklyRule)
    (startWeek : Timestamp) (start number : Int) : Prop where
  none : ∀ n, Waiting timezone rule weekly start n →
    weekOf (visitedDay timezone start n) < weekOf number →
      ¬ Counts timezone weekly startWeek start n
  some : ∃ n, Waiting timezone rule weekly start n ∧
    weekOf (visitedDay timezone start n) = weekOf number ∧ Counts timezone weekly startWeek start n

section WithinDay

variable {ctx : EvaluationContext} {inlineCalendar : Option BusinessCalendar}
  {rule : CalendarRule} {weekly : WeeklyRule} {startWeek : Timestamp} {timezone : Location}
  {start : Int}

theorem takesDay_iff {n : Nat} :
    takesDay timezone weekly startWeek ((start / day + n) * day) = true ↔
      Counts timezone weekly startWeek start n ∧ Listed weekly (visitedDay timezone start n) := by
  simp only [takesDay, Bool.and_eq_true, decide_eq_true_eq]
  exact Iff.rfl

theorem waiting_of_firstFound {n : Nat} (h : FirstFound timezone rule weekly startWeek start n) :
    Waiting timezone rule weekly start n ∧ Counts timezone weekly startWeek start n :=
  have htakes := takesDay_iff.mp h.taken
  ⟨⟨h.inWindow, htakes.2, h.late⟩, htakes.1⟩

variable (h : OnWeeks ctx inlineCalendar rule weekly startWeek) (hbound : WithinDay timezone)
include h hbound

theorem OnWeeks.exists_firstDue (start : Int) :
    ∃ number, FirstDue timezone rule weekly startWeek start number := by
  obtain ⟨hsome, hdays, htimes⟩ := h.validated
  obtain ⟨d, hd⟩ := List.exists_mem_of_ne_nil _ hsome
  -- a due week some weeks later
  obtain ⟨week, hlater, hweek⟩ : ∃ week, start / day + 3 ≤ 7 * week - 3 ∧
      weekly.weekInterval ∣ week - weekOf (timezone.civilDay startWeek.asTime) := by
    generalize weekOf (timezone.civilDay startWeek.asTime) = first
    -- that many intervals are enough to get behind the start
    obtain ⟨steps, hsteps⟩ := Int.eq_ofNat_of_zero_le
      (show 0 ≤ max 0 (start / day + 10 - 7 * first) by omega)
    have hgrows : (steps : Int) ≤ weekly.weekInterval * steps :=
      le_mul_of_one_le_left (Int.natCast_nonneg steps) h.interval
    refine ⟨first + weekly.weekInterval * steps, by omega, ?_⟩
    rw [add_sub_cancel_left]
    exact Int.dvd_mul_right _ _
  obtain ⟨number, hin, hweekday⟩ := exists_date (hdays d hd) week
  have hdue : Due timezone rule weekly startWeek start number := by
    refine ⟨by rwa [Listed, hweekday], by rwa [InDueWeek, hin], hasLate_of_le hbound htimes ?_⟩
    unfold weekOf at hin
    omega
  obtain ⟨first, -, -, hfirst, hnone⟩ := @exists_first
    (Due timezone rule weekly startWeek start) (start / day - 2) number
    (by have hlt := hdue.late.lt_number hbound htimes; omega) hdue
  refine ⟨first, hfirst, fun m hm hdue' => ?_⟩
  have hlt := hdue'.late.lt_number hbound htimes
  exact hnone m (by omega) hm hdue'

omit h in
/-- Where the test fits, the first day that the evaluator takes is in the week of the first date
that is due. -/
theorem TestFits.firstFound {number : Int}
    (hfits : TestFits timezone rule weekly startWeek start number) :
    ∃ n, FirstFound timezone rule weekly startWeek start n ∧
      weekOf (visitedDay timezone start n) = weekOf number := by
  -- the evaluator takes some day of the week, so its first day is not later
  obtain ⟨m, hwaiting, hweek, hcounts⟩ := hfits.some
  obtain ⟨n, hle, hfirst⟩ : ∃ n ≤ m, FirstFound timezone rule weekly startWeek start n :=
    exists_firstTaken hwaiting.inWindow (takesDay_iff.mpr ⟨hcounts, hwaiting.listed⟩) hwaiting.late
  obtain ⟨hwaiting', hcounts'⟩ := waiting_of_firstFound hfirst
  have hmono := weekOf_mono (@visitedDay_mono timezone start hbound _ _ hle)
  refine ⟨n, hfirst, ?_⟩
  rcases Int.lt_or_eq_of_le (hweek ▸ hmono) with hlt | heq
  · exact absurd hcounts' (hfits.none n hwaiting' hlt)
  · exact heq

/-- Where the clocks leave every execution time in its week, the evaluator keeps to the weeks
exactly when the test fits. -/
theorem OnWeeks.keepsWeeks_iff_testFits (hweeks : InOwnWeek timezone rule) :
    KeepsWeeks (findNextExecution ctx inlineCalendar rule timezone) timezone rule weekly startWeek
        start ↔
      ∀ number, FirstDue timezone rule weekly startWeek start number →
        TestFits timezone rule weekly startWeek start number := by
  -- a run is in the week of the date it was found for
  have hrun : ∀ n t, firstLate timezone rule start (visitedDay timezone start n) = some t →
      weekOf (timezone.civilDay t) = weekOf (visitedDay timezone start n) :=
    fun n t ht => hweeks _ t (mem_of_firstLate ht)
  constructor
  · intro hkeeps number hnumber
    obtain ⟨t, hfound, hle⟩ := hkeeps.complete number hnumber.due
    obtain ⟨n, hfirst, ht⟩ := h.findNextExecution_eq_ok.mp hfound
    obtain ⟨hwaiting, hcounts⟩ := waiting_of_firstFound hfirst
    have hsame := hrun n t ht
    -- the date of the run is due, so that its week is not before that of the first due date
    have hdue : Due timezone rule weekly startWeek start (visitedDay timezone start n) := by
      refine ⟨hwaiting.listed, ?_, hwaiting.late⟩
      have hsound := hkeeps.sound t hfound
      rwa [InDueWeek, hsame] at hsound
    have hnot : ¬ visitedDay timezone start n < number := fun hlt => hnumber.first _ hlt hdue
    have hge := weekOf_mono (Int.not_lt.mp hnot)
    refine ⟨fun m hwaiting' hbefore hcounts' => ?_, n, hwaiting, by omega, hcounts⟩
    -- a day of an earlier week would have been taken before
    refine hfirst.first m ?_ (takesDay_iff.mpr ⟨hcounts', hwaiting'.listed⟩) hwaiting'.late
    by_contra hafter
    have hmono := weekOf_mono
      (@visitedDay_mono timezone start hbound _ _ (Nat.le_of_not_lt hafter))
    omega
  · intro hfits
    obtain ⟨number, hnumber⟩ := h.exists_firstDue hbound start
    obtain ⟨n, hfirst, hweek⟩ := (hfits number hnumber).firstFound hbound
    obtain ⟨t, ht⟩ := firstLate_isSome hfirst.late
    have hfound := h.findNextExecution_eq_ok.mpr ⟨n, hfirst, ht⟩
    have hsame := hrun n t ht
    refine ⟨fun t' hfound' => ?_, fun m hdue => ⟨t, hfound, ?_⟩⟩
    · rw [hfound] at hfound'
      cases hfound'
      rw [InDueWeek, hsame, hweek]
      exact hnumber.due.inDueWeek
    · have hnot : ¬ m < number := fun hlt => hnumber.first m hlt hdue
      have hle := weekOf_mono (Int.not_lt.mp hnot)
      omega

end WithinDay

/-- **Weekly intervals**: the evaluator keeps to the weeks exactly when its walk does. Where offsets
are below a day some date is due; and where the clocks leave every execution time in its week, it
depends on which weeks the evaluator counts. -/
theorem OnWeeks.keepsWeeks_iff {ctx : EvaluationContext} {inlineCalendar : Option BusinessCalendar}
    {rule : CalendarRule} {weekly : WeeklyRule} {startWeek : Timestamp}
    (h : OnWeeks ctx inlineCalendar rule weekly startWeek) (timezone : Location) (start : Int) :
    (KeepsWeeks (findNextExecution ctx inlineCalendar rule timezone) timezone rule weekly
        startWeek start ↔
      WalkFits timezone rule weekly startWeek start) ∧
    (WithinDay timezone → InOwnWeek timezone rule →
      (∃ number, FirstDue timezone rule weekly startWeek start number) ∧
      (KeepsWeeks (findNextExecution ctx inlineCalendar rule timezone) timezone rule weekly
          startWeek start ↔
        ∀ number, FirstDue timezone rule weekly startWeek start number →
          TestFits timezone rule weekly startWeek start number)) :=
  ⟨h.keepsWeeks_iff_walkFits, fun hbound hweeks =>
    ⟨h.exists_firstDue hbound start, h.keepsWeeks_iff_testFits hbound hweeks⟩⟩

/-! ## Section 5: Which weeks the evaluator counts -/

theorem whole_getWeekStart (timezone : Location) (date : Int) :
    getWeekStart timezone date % second = 0 := by
  simp [getWeekStart, Location.date]

/-- Whole weeks between two instants, rounded towards zero. -/
theorem periods_week {d : Int} (hwhole : d % second = 0) (hd : |d| < 9223372036854775808) :
    periods d (24 * 7) = d.tdiv (7 * day) := by
  have hperiod : (1 : Int) ≤ 24 * 7 ∧ (24 * 7 : Int) ≤ 168 := by decide
  have hweek : (24 * 7 : Int) * hour = 7 * day := by decide
  have hrange := abs_lt.mp hd
  by_cases hnonneg : 0 ≤ d
  · rw [periods_of_room hperiod hnonneg hrange.2 ?_, hweek, Int.tdiv_eq_ediv_of_nonneg hnonneg]
    rw [hweek]
    simp only [day, hour, minute, second] at hwhole ⊢
    omega
  -- a negative distance is truncated like its opposite
  · have hback : d = -(-d) := by omega
    rw [hback, periods_neg, periods_of_room hperiod (by omega) (by omega) ?_, hweek, Int.neg_tdiv,
      Int.tdiv_eq_ediv_of_nonneg (by omega : 0 ≤ -d)]
    rw [hweek]
    simp only [day, hour, minute, second] at hwhole ⊢
    omega

/-- **The truncation**: the evaluator counts a week when the time that has elapsed between the
beginnings of the two weeks, in whole weeks rounded towards zero, is a multiple of the interval. -/
theorem isValidWeek_iff {timezone : Location} {date reference k : Int} (hk : 1 ≤ k)
    (hnear : |getWeekStart timezone date - getWeekStart timezone reference| <
      9223372036854775808) :
    isValidWeek timezone date reference k = true ↔
      k ∣ (getWeekStart timezone date - getWeekStart timezone reference).tdiv (7 * day) := by
  have hdate := whole_getWeekStart timezone date
  have hreference := whole_getWeekStart timezone reference
  have hwhole : (getWeekStart timezone date - getWeekStart timezone reference) % second = 0 := by
    simp only [second] at hdate hreference ⊢
    omega
  unfold isValidWeek
  rw [sub_eq hnear, periods_week hwhole hnear]
  by_cases hone : k ≤ 1
  · obtain rfl : k = 1 := by omega
    simp
  · simp [hone, Int.dvd_iff_tmod_eq_zero]

/-! ## Section 6: Offsets that never change -/

section Fixed

variable {timezone : Location} {offset : Int} (hfixed : timezone.Fixed offset)
include hfixed

/-- The week of an instant begins with its Monday. -/
theorem getWeekStart_fixed (date : Int) :
    getWeekStart timezone date =
      (7 * weekOf (timezone.civilDay date) - 3) * day - offset * second := by
  generalize hback : (if timezone.weekday date - 1 < 0 then timezone.weekday date - 1 + 7
    else timezone.weekday date - 1) = back
  have hmonday : timezone.civilDay (date - back * day) =
      7 * weekOf (timezone.civilDay date) - 3 := by
    have hshift : date - back * day = date + -back * day := by
      simp only [day, hour, minute, second]
      omega
    rw [hshift, hfixed.civilDay_add]
    unfold Location.weekday weekdayOfDay at hback
    unfold weekOf
    split at hback <;> omega
  simp only [getWeekStart, hback]
  rw [hfixed.date_dateOf, hmonday]
  ring

/-- So the distance of two weeks comes out right. -/
theorem isValidWeek_fixed {date reference k : Int} (hk : 1 ≤ k)
    (hnear : |getWeekStart timezone date - getWeekStart timezone reference| <
      9223372036854775808) :
    isValidWeek timezone date reference k = true ↔
      k ∣ weekOf (timezone.civilDay date) - weekOf (timezone.civilDay reference) := by
  -- the offset cancels out
  have hdistance : getWeekStart timezone date - getWeekStart timezone reference =
      (weekOf (timezone.civilDay date) - weekOf (timezone.civilDay reference)) * (7 * day) := by
    rw [getWeekStart_fixed hfixed, getWeekStart_fixed hfixed]
    ring
  rw [isValidWeek_iff hk hnear, hdistance, Int.mul_tdiv_cancel _ (by decide)]

theorem withinDay_of_fixed (hoffset : -86400 < offset ∧ offset < 86400) : WithinDay timezone := by
  intro t
  rw [hfixed t]
  exact hoffset

theorem visitedDay_fixed (start : Int) (n : Nat) :
    visitedDay timezone start n = firstDay offset start + n := by
  rw [visitedDay, civilDay_midnight hfixed, firstDay]
  omega

section Rule

variable {ctx : EvaluationContext} {inlineCalendar : Option BusinessCalendar}
  {rule : CalendarRule} {weekly : WeeklyRule} {startWeek : Timestamp} {start : Int}
  (h : OnWeeks ctx inlineCalendar rule weekly startWeek)
include h

/-- An execution time is one of its date. -/
theorem OnWeeks.civilDay_offersOn {number t : Int} (ht : t ∈ offersOn timezone rule number) :
    timezone.civilDay t = number := by
  rw [offersOn, atTimes_dateOfDay hfixed] at ht
  exact civilDay_of_mem_instantsOn hfixed h.validated.2.2 ht

theorem OnWeeks.inOwnWeek_of_fixed : InOwnWeek timezone rule := by
  intro number t ht
  rw [h.civilDay_offersOn hfixed ht]

theorem OnWeeks.le_of_hasLate {number : Int} (hlate : HasLate timezone rule start number) :
    timezone.civilDay start ≤ number := by
  obtain ⟨u, hu, hafter⟩ := hlate
  rw [← h.civilDay_offersOn hfixed hu]
  exact hfixed.civilDay_mono (Int.le_of_lt hafter)

/-- Some date is due within as many weeks as the interval has. -/
theorem OnWeeks.exists_due (start : Int) :
    ∃ number, Due timezone rule weekly startWeek start number ∧
      number ≤ timezone.civilDay start + 7 * weekly.weekInterval := by
  obtain ⟨hsome, hdays, htimes⟩ := h.validated
  obtain ⟨d, hd⟩ := List.exists_mem_of_ne_nil _ hsome
  have hinterval := h.interval
  -- the first date of this weekday, in a due week, after the day of the start
  obtain ⟨base, hbase, hweekday⟩ :=
    exists_date (hdays d hd) (weekOf (timezone.civilDay startWeek.asTime))
  have hperiod : 0 < 7 * weekly.weekInterval := by omega
  generalize hsteps : (timezone.civilDay start - base) / (7 * weekly.weekInterval) + 1 = steps
  have hsplit := Int.mul_ediv_add_emod (timezone.civilDay start - base) (7 * weekly.weekInterval)
  have hrest := Int.emod_nonneg (timezone.civilDay start - base) (Int.ne_of_gt hperiod)
  have hless := Int.emod_lt_of_pos (timezone.civilDay start - base) hperiod
  have hnext : 7 * weekly.weekInterval * steps = 7 * weekly.weekInterval *
      ((timezone.civilDay start - base) / (7 * weekly.weekInterval)) +
        7 * weekly.weekInterval := by
    rw [← hsteps]
    ring
  have hshift : 7 * weekly.weekInterval * steps = 7 * (weekly.weekInterval * steps) := by ring
  have hweek : weekOf (base + 7 * (weekly.weekInterval * steps)) =
      weekOf base + weekly.weekInterval * steps := by
    unfold weekOf
    omega
  refine ⟨base + 7 * (weekly.weekInterval * steps), ⟨?_, ?_, ?_⟩, by omega⟩
  · have hsame : weekdayOfDay (base + 7 * (weekly.weekInterval * steps)) = weekdayOfDay base := by
      unfold weekdayOfDay
      omega
    rwa [Listed, hsame, hweekday]
  · rw [InDueWeek, hweek, hbase, add_sub_cancel_left]
    exact Int.dvd_mul_right _ _
  · have hlate := late_of_lt hfixed (rule.timesOr_ne_nil rule.defaultTime) htimes
      (show timezone.civilDay start < base + 7 * (weekly.weekInterval * steps) by omega)
    rw [HasLate, offersOn, atTimes_dateOfDay hfixed]
    exact hlate

/-- With one offset and a start week that is not too far, the test fits. -/
theorem OnWeeks.testFits_of_fixed
    (hnear : ∀ n < searchWindow weekly,
      |getWeekStart timezone ((start / day + (n : Nat)) * day) -
        getWeekStart timezone startWeek.asTime| < 9223372036854775808)
    {number : Int} (hnumber : FirstDue timezone rule weekly startWeek start number) :
    TestFits timezone rule weekly startWeek start number := by
  have hinterval := h.interval
  -- the evaluator counts the right weeks
  have hcounts : ∀ n < searchWindow weekly, (Counts timezone weekly startWeek start n ↔
      InDueWeek timezone weekly startWeek (visitedDay timezone start n)) := by
    intro n hn
    exact isValidWeek_fixed hfixed h.interval (hnear n hn)
  have hfirst : timezone.civilDay start ≤ firstDay offset start + 1 ∧
      firstDay offset start ≤ timezone.civilDay start := by
    rw [hfixed.civilDay_eq]
    simp only [firstDay, day, hour, minute, second]
    omega
  refine ⟨fun n hwaiting hbefore hcounted => ?_, ?_⟩
  · exact hnumber.first _ (lt_of_weekOf_lt hbefore)
      ⟨hwaiting.listed, (hcounts n hwaiting.inWindow).mp hcounted, hwaiting.late⟩
  -- the first due date is within the search window
  · obtain ⟨due, hdue, hsoon⟩ := h.exists_due hfixed start
    have hle : number ≤ due := by
      by_contra hlt
      exact hnumber.first due (by omega) hdue
    have hge := h.le_of_hasLate hfixed hnumber.due.late
    obtain ⟨n, hn⟩ := Int.le.dest (show firstDay offset start ≤ number by omega)
    have hvisited : visitedDay timezone start n = number := by
      rw [visitedDay_fixed hfixed, hn]
    have hwindow : n < searchWindow weekly := by
      unfold searchWindow
      omega
    refine ⟨n, ⟨hwindow, ?_, ?_⟩, by rw [hvisited], (hcounts n hwindow).mpr ?_⟩
    · rw [hvisited]
      exact hnumber.due.listed
    · rw [hvisited]
      exact hnumber.due.late
    · rw [hvisited]
      exact hnumber.due.inDueWeek

/-- With one offset below a day and a start week that is not too far, the evaluator keeps to the
weeks. -/
theorem OnWeeks.keepsWeeks_of_fixed (hoffset : -86400 < offset ∧ offset < 86400)
    (hnear : ∀ n < searchWindow weekly,
      |getWeekStart timezone ((start / day + (n : Nat)) * day) -
        getWeekStart timezone startWeek.asTime| < 9223372036854775808) :
    KeepsWeeks (findNextExecution ctx inlineCalendar rule timezone) timezone rule weekly startWeek
      start :=
  (h.keepsWeeks_iff_testFits (withinDay_of_fixed hfixed hoffset)
    (h.inOwnWeek_of_fixed hfixed)).mpr fun _ hnumber => h.testFits_of_fixed hfixed hnear hnumber

end Rule

end Fixed

/-! ### Every other Monday -/

/-- New York in spring 2024: the clocks go forward on Sunday, March 10. -/
def newYork : Location := ⟨fun t => if t < 1710054000 then -18000 else -14400⟩

/-- Every other Monday. -/
def everyOtherMonday (startWeek : Timestamp) : WeeklyRule where
  daysOfWeek := [1]
  weekInterval := 2
  startWeek := some startWeek

/-- At nine o'clock. -/
def mondayAtNine (startWeek : Timestamp) : CalendarRule where
  rule := some (.weekly (everyOtherMonday startWeek))
  executionTimes := [{ hour := 9 }]

theorem onWeeks_mondayAtNine (startWeek : Timestamp) :
    OnWeeks ⟨none, 0⟩ none (mondayAtNine startWeek) (everyOtherMonday startWeek) startWeek :=
  ⟨rfl, (by decide : (1 : Int) ≤ 2), rfl, rfl⟩

/-- Under UTC, from the first day of 1970 on, no week is wrong. -/
theorem keepsWeeks_utc :
    KeepsWeeks (findNextExecution ⟨none, 0⟩ none (mondayAtNine ⟨0, 0⟩) utc) utc
      (mondayAtNine ⟨0, 0⟩) (everyOtherMonday ⟨0, 0⟩) ⟨0, 0⟩ 0 := by
  have hrule := onWeeks_mondayAtNine ⟨0, 0⟩
  refine ((hrule.keepsWeeks_iff utc 0).2
    (withinDay_of_fixed Location.fixed_utc (by decide))
    (hrule.inOwnWeek_of_fixed Location.fixed_utc)).2.mpr fun number hnumber =>
      hrule.testFits_of_fixed Location.fixed_utc (fun n hn => ?_) hnumber
  have hn' : n < 28 := hn
  rw [getWeekStart_fixed Location.fixed_utc, getWeekStart_fixed Location.fixed_utc,
    Location.fixed_utc.civilDay_eq, Location.fixed_utc.civilDay_eq, abs_lt]
  simp only [Timestamp.asTime, weekOf, day, hour, minute, second]
  omega

/-- On the Sunday on which the clocks go forward, the next run of a rule that began on Monday,
March 4, is on March 11. -/
theorem not_keepsWeeks_newYork :
    ¬ ∀ (ctx : EvaluationContext) (inlineCalendar : Option BusinessCalendar) (rule : CalendarRule)
      (weekly : WeeklyRule) (startWeek : Timestamp) (timezone : Location) (start : Int),
      OnWeeks ctx inlineCalendar rule weekly startWeek →
        (rule.executionTimes.Pairwise fun s t => s.seconds ≤ t.seconds) →
        (∀ t, (timezone.offsetAt (t + 1) - timezone.offsetAt t).natAbs ≤ 7200) →
        KeepsWeeks (findNextExecution ctx inlineCalendar rule timezone) timezone rule weekly
          startWeek start := by
  intro hall
  have hchange : ∀ t, (newYork.offsetAt (t + 1) - newYork.offsetAt t).natAbs ≤ 7200 := by
    intro t
    simp only [newYork]
    split_ifs <;> omega
  have hkeeps := hall _ _ _ _ ⟨1709528400, 0⟩ newYork (19792 * day + 12 * hour)
    (onWeeks_mondayAtNine _) (List.pairwise_singleton _ _) hchange
  have hnext : findNextExecution ⟨none, 0⟩ none (mondayAtNine ⟨1709528400, 0⟩) newYork
      (19792 * day + 12 * hour) = .ok (19793 * day + 13 * hour) := by decide +kernel
  have hodd : ¬ (2 : Int) ∣ weekOf (newYork.civilDay (19793 * day + 13 * hour)) -
      weekOf (newYork.civilDay (Timestamp.asTime ⟨1709528400, 0⟩)) := by decide
  exact hodd (hkeeps.sound _ hnext)

end Weekly

end Nzovu.Calendar
