import Mathlib.Order.Bounds.Basic
import Nzovu.Calendar.DayShifts
import Nzovu.Calendar.VisitedDates

/-!
# Business Days with an Offset

A business-day rule may run some business days after each business day, or before it. The evaluator
visits the business days of one year from its start on and moves each of them by the offset. A
business day before its start that is moved beyond it is missed; and when the offset is negative
and large, the days that are moved to where the evaluator starts lie more than a year ahead.

- Section 1: the days the evaluator visits.
- Section 2: the first business day with an execution time.
- Section 3: when the evaluator returns the least instant.
-/

namespace Nzovu.Calendar

open Nzovu.Foundation
open Nzovu.Foundation.CivilTime

namespace BusinessDays

/-! ## Section 1: The days the evaluator visits -/

/-- The instant at which the evaluator visits a civil day: the start of the UTC day. -/
def visitedAt (offset number : Int) : Int := (number - offset / 86400) * day

theorem visitedAt_add (offset number n : Int) :
    visitedAt offset (number + n) = visitedAt offset number + n * day := by
  unfold visitedAt
  ring

section Visited

variable {timezone : Location} {offset : Int} (h : timezone.Fixed offset)
  {calendar : BusinessCalendar} {number : Int}

include h in
theorem isBusinessDay_visitedAt (number : Int) :
    isBusinessDay timezone calendar (visitedAt offset number) = true ↔
      TakesFor offset calendar number := by
  rw [visitedAt, isBusinessDay_iff h, TakesFor, Int.sub_add_cancel]

/-- Those it takes for business days go on forever, as they do in every zone with this offset. -/
theorem TakesFor.exists_later (h : TakesFor offset calendar number) (m : Int) :
    ∃ n, m < n ∧ TakesFor offset calendar n := by
  have hfixed : Location.Fixed ⟨fun _ => offset⟩ offset := fun _ => rfl
  obtain ⟨n, hlt, hopen⟩ := exists_businessDay_after hfixed
    ((isBusinessDay_visitedAt hfixed number).mpr h) (m - number)
  rw [← visitedAt_add, isBusinessDay_visitedAt hfixed] at hopen
  exact ⟨number + n, by omega, hopen⟩

theorem TakesFor.exists_earlier (h : TakesFor offset calendar number) (m : Int) :
    ∃ n, n < m ∧ TakesFor offset calendar n := by
  have hfixed : Location.Fixed ⟨fun _ => offset⟩ offset := fun _ => rfl
  obtain ⟨n, hlt, hopen⟩ := exists_businessDay_before hfixed
    ((isBusinessDay_visitedAt hfixed number).mpr h) (m - number)
  rw [← visitedAt_add, isBusinessDay_visitedAt hfixed] at hopen
  exact ⟨number + n, by omega, hopen⟩

include h in
/-- The evaluator moves a business day by the offset. -/
theorem applyDayOffset_visitedAt {ctx : EvaluationContext} {k m t : Int}
    (hshifted : Shifted (TakesFor offset calendar) k m t)
    (hfuel : (t - m).natAbs ≤ ctx.offsetDays) :
    applyDayOffset ctx timezone calendar k (visitedAt offset m) = .ok (visitedAt offset t) := by
  have hplace : ∀ m, visitedAt offset m + day = visitedAt offset (m + 1) := by
    intro m
    rw [visitedAt_add, Int.one_mul]
  rw [applyDayOffset_eq (isBusinessDay_visitedAt h) hplace hshifted, if_pos hfuel]

end Visited

/-! ## Section 2: The first business day with an execution time -/

section Search

variable {ctx : EvaluationContext} {inlineCalendar : Option BusinessCalendar}
  {rule : CalendarRule} {business : BusinessDaysRule} {calendar : BusinessCalendar}
  {timezone : Location} {offset start : Int}

/-- A valid business-day rule with sorted execution times, its calendar, and a zone with a fixed
offset. -/
structure OnShiftedDays (ctx : EvaluationContext) (inlineCalendar : Option BusinessCalendar)
    (rule : CalendarRule) (business : BusinessDaysRule) (calendar : BusinessCalendar)
    (timezone : Location) (offset : Int) : Prop where
  config : rule.rule = some (.businessDays business)
  calendar : ruleCalendar ctx inlineCalendar business = .ok calendar
  valid : validateRule ctx inlineCalendar rule = .ok ()
  sorted : rule.executionTimes.Pairwise fun s t => s.seconds ≤ t.seconds
  fixed : timezone.Fixed offset

/-- The day is `k` business days after the base, which is one. -/
abbrev MovedTo (offset : Int) (calendar : BusinessCalendar) (k base target : Int) : Prop :=
  Shifted (TakesFor offset calendar) k base target

/-- The loops get to the targets of the days in the search window. -/
def FarEnough (offset : Int) (calendar : BusinessCalendar) (k start : Int) (days : Nat) : Prop :=
  ∀ n < 365, ∀ target, MovedTo offset calendar k (firstDay offset start + (n : Nat)) target →
    (target - (firstDay offset start + n)).natAbs ≤ days

/-- However far the targets are, the loops end. -/
theorem exists_farEnough (offset : Int) (calendar : BusinessCalendar) (k start : Int) :
    ∃ enough, ∀ days, enough ≤ days → FarEnough offset calendar k start days := by
  have hbound : ∀ attempts : Nat, ∃ enough : Nat, ∀ n < attempts, ∀ target,
      MovedTo offset calendar k (firstDay offset start + (n : Nat)) target →
        (target - (firstDay offset start + n)).natAbs ≤ enough := by
    -- the largest distance, over more and more days of the window
    intro attempts
    induction attempts with
    | zero => exact ⟨0, fun n hn => absurd hn (Nat.not_lt_zero n)⟩
    | succ attempts ih =>
      obtain ⟨enough, hbefore⟩ := ih
      by_cases hmoved : ∃ target, MovedTo offset calendar k
          (firstDay offset start + (attempts : Nat)) target
      -- a business day is moved, however far that is
      · obtain ⟨target, htarget⟩ := hmoved
        refine ⟨max enough (target - (firstDay offset start + attempts)).natAbs,
          fun n hn target' htarget' => ?_⟩
        rcases Nat.lt_succ_iff_lt_or_eq.mp hn with hlt | rfl
        · have hle := hbefore n hlt target' htarget'
          omega
        · obtain rfl := htarget.unique htarget'
          omega
      · refine ⟨enough, fun n hn target' htarget' => ?_⟩
        rcases Nat.lt_succ_iff_lt_or_eq.mp hn with hlt | rfl
        · exact hbefore n hlt target' htarget'
        · exact absurd ⟨target', htarget'⟩ hmoved
  obtain ⟨enough, hall⟩ := hbound 365
  exact ⟨enough, fun days hdays n hn target htarget =>
    Nat.le_trans (hall n hn target htarget) hdays⟩

/-- The first business day that has an execution time after the start. -/
structure FirstLate (offset : Int) (calendar : BusinessCalendar) (rule : CalendarRule)
    (start number : Int) : Prop where
  takes : TakesFor offset calendar number
  late : Late offset rule start number
  first : ∀ m, TakesFor offset calendar m → Late offset rule start m → number ≤ m

namespace OnShiftedDays

variable (h : OnShiftedDays ctx inlineCalendar rule business calendar timezone offset)
include h

theorem times_eq : rule.times = rule.timesOr { hour := 9 } := by
  rw [CalendarRule.times, CalendarRule.defaultTime, h.config]

theorem validated (t : TimeOfDay) (ht : t ∈ rule.timesOr { hour := 9 }) :
    0 ≤ t.seconds ∧ t.seconds < 86400 := by
  have hvalid := h.valid
  simp only [validateRule, h.config, validate] at hvalid
  split at hvalid
  · cases hvalid
  · split at hvalid
    · cases hvalid
    · exact CalendarRule.mem_timesOr hvalid (by decide) ht

/-- Where there are business days, one of them is the first with an execution time after the
start. -/
theorem exists_firstLate {number : Int} (htakes : TakesFor offset calendar number) :
    ∃ first, FirstLate offset calendar rule start first := by
  -- a business day after the day of the start has all its times left
  obtain ⟨later, hlater, htakes'⟩ := htakes.exists_later (timezone.civilDay start)
  have hlate : Late offset rule start later :=
    late_of_lt h.fixed (rule.timesOr_ne_nil _) h.validated hlater
  obtain ⟨first, -, -, ⟨hfirst, hfirst'⟩, hnone⟩ := @exists_first
    (fun m => TakesFor offset calendar m ∧ Late offset rule start m) (timezone.civilDay start) _
    (Int.le_of_lt hlater) ⟨htakes', hlate⟩
  refine ⟨first, hfirst, hfirst', fun m hm hm' => ?_⟩
  by_contra hlt
  exact hnone m (Calendar.Late.le h.fixed h.validated hm') (by omega) ⟨hm, hm'⟩

/-- On a day with sorted execution times, the first one after the start is the earliest. -/
theorem find?_least {number r : Int}
    (hfind : (instantsOn offset (rule.timesOr { hour := 9 }) number).find?
      (fun t => start < t) = some r) :
    ∀ u ∈ instantsOn offset (rule.timesOr { hour := 9 }) number, start < u → r ≤ u := by
  have hsorted : (instantsOn offset (rule.timesOr { hour := 9 }) number).Pairwise (· ≤ ·) := by
    refine List.pairwise_map.mpr (List.Pairwise.imp (fun hle => ?_)
      (show (rule.timesOr { hour := 9 }).Pairwise fun s t => s.seconds ≤ t.seconds from ?_))
    · simp only [second]
      omega
    · unfold CalendarRule.timesOr
      split
      · exact List.pairwise_singleton _ _
      · exact h.sorted
  intro u hu hlate
  obtain ⟨-, before, after, heq, hbefore⟩ := List.find?_eq_some_iff_append.mp hfind
  rw [heq] at hu hsorted
  -- before the one that is found none lies after the start, behind it they are later
  rcases List.mem_append.mp hu with hearly | hlater
  · have hnot := hbefore u hearly
    simp only [Bool.not_eq_true', decide_eq_false_iff_not] at hnot
    exact absurd hlate hnot
  · rcases List.mem_cons.mp hlater with rfl | hafter
    · exact Int.le_refl _
    · exact (List.pairwise_cons.mp (List.pairwise_append.mp hsorted).2.1).1 u hafter

/-- What the evaluator makes of a day: it passes over a day that is no business day, and moves one
that is. -/
theorem visit_eq {base : Int}
    (hfar : ∀ target, MovedTo offset calendar business.dayOffset base target →
      (target - base).natAbs ≤ ctx.offsetDays) {found : Option Date} :
    visit ctx timezone business calendar (visitedAt offset base) = .ok found ↔
      (¬ TakesFor offset calendar base ∧ found = none) ∨
        ∃ target, MovedTo offset calendar business.dayOffset base target ∧
          found = some (dateOfDay target) := by
  unfold visit
  by_cases htakes : TakesFor offset calendar base
  · obtain ⟨target, htarget⟩ :=
      exists_shifted htakes.exists_later htakes.exists_earlier business.dayOffset htakes
    have hmoved := applyDayOffset_visitedAt h.fixed htarget (hfar target htarget)
    have hdate : timezone.dateOf (visitedAt offset target) = dateOfDay target := by
      rw [Location.dateOf, visitedAt, civilDay_midnight h.fixed, Int.sub_add_cancel]
    rw [if_pos ((isBusinessDay_visitedAt h.fixed base).mpr htakes), hmoved]
    simp only [(isBusinessDay_visitedAt h.fixed target).mpr htarget.target, if_true, hdate,
      Except.ok.injEq, htakes, not_true_eq_false, false_and, false_or]
    constructor
    · rintro rfl
      exact ⟨target, htarget, rfl⟩
    · rintro ⟨target', htarget', rfl⟩
      rw [htarget.unique htarget']
  · rw [if_neg fun hopen => htakes ((isBusinessDay_visitedAt h.fixed base).mp hopen)]
    simp only [Except.ok.injEq, htakes, not_false_eq_true, true_and, eq_comm]
    constructor
    · exact Or.inl
    · rintro (hnone | ⟨target, htarget, -⟩)
      · exact hnone
      · exact absurd htarget.base htakes

/-- The evaluator gets past a day that is not moved to one with an execution time after the
start. -/
theorem passes_iff {base : Int}
    (hfar : ∀ target, MovedTo offset calendar business.dayOffset base target →
      (target - base).natAbs ≤ ctx.offsetDays) :
    Passes start (fun date => atTimes timezone date (rule.timesOr { hour := 9 }))
        (visit ctx timezone business calendar (visitedAt offset base)) ↔
      ∀ target, MovedTo offset calendar business.dayOffset base target →
        ¬ Late offset rule start target := by
  have hoffers : ∀ number, atTimes timezone (dateOfDay number) (rule.timesOr { hour := 9 }) =
      instantsOn offset (rule.timesOr { hour := 9 }) number :=
    fun number => atTimes_dateOfDay h.fixed number _
  constructor
  -- what is offered lies before the start
  · rintro ⟨found, heq, hle⟩ target htarget ⟨u, hu, hlate⟩
    rw [(h.visit_eq hfar).mpr (.inr ⟨target, htarget, rfl⟩)] at heq
    cases heq
    rw [← hoffers target] at hu
    have hearly : u ≤ start := hle _ rfl u hu
    omega
  · intro hnone
    by_cases htakes : TakesFor offset calendar base
    · obtain ⟨target, htarget⟩ :=
        exists_shifted htakes.exists_later htakes.exists_earlier business.dayOffset htakes
      refine ⟨some (dateOfDay target), (h.visit_eq hfar).mpr (.inr ⟨target, htarget, rfl⟩), ?_⟩
      rintro _ ⟨⟩ u hu
      by_contra hlate
      refine hnone target htarget ⟨u, ?_, by omega⟩
      rw [← hoffers target]
      exact hu
    · exact ⟨none, (h.visit_eq hfar).mpr (.inl ⟨htakes, rfl⟩), by simp⟩

/-- **What the evaluator finds**: the first execution time after the start on the day to which the
first business day of its search window is moved that is moved to a day with such a time. -/
theorem findNextExecution_eq_ok
    (hfar : FarEnough offset calendar business.dayOffset start ctx.offsetDays) {r : Int} :
    findNextExecution ctx inlineCalendar rule timezone start = .ok r ↔
      ∃ n < 365, ∃ target,
        MovedTo offset calendar business.dayOffset (firstDay offset start + (n : Nat)) target ∧
        (instantsOn offset (rule.timesOr { hour := 9 }) target).find? (fun t => start < t) =
          some r ∧
        ∀ m < n, ∀ target',
          MovedTo offset calendar business.dayOffset (firstDay offset start + (m : Nat)) target' →
            ¬ Late offset rule start target' := by
  have hplace : ∀ n : Nat, (· + day)^[n] (truncateDay start) =
      visitedAt offset (firstDay offset start + n) := by
    intro n
    rw [iterate_day, truncateDay_eq, visitedAt, firstDay]
    simp only [day, hour, minute, second]
    omega
  have hresult : ∀ result : Result (Option Int),
      searchResult (searchDetails rule.rule) result = .ok r ↔ result = .ok (some r) := by
    intro result
    exact ⟨searchResult_ok, fun heq => by rw [heq, searchResult_some]⟩
  rw [findNextExecution_eq_firstRun, hresult, h.times_eq, h.config]
  simp only [visits, h.calendar]
  rw [firstRun_iterate_eq_some]
  -- both walks are at the same day
  refine exists_congr fun n => and_congr_right fun hn => ?_
  simp only [hplace]
  have hpasses := fun m (hm : m < n) => @passes_iff _ _ _ _ _ _ _ start h _ (hfar m (by omega))
  constructor
  · rintro ⟨date, hvisit, hfind, hbefore⟩
    rcases (h.visit_eq (hfar n hn)).mp hvisit with ⟨-, hnone⟩ | ⟨target, htarget, hdate⟩
    · cases hnone
    · cases hdate
      rw [atTimes_dateOfDay h.fixed] at hfind
      exact ⟨target, htarget, hfind, fun m hm => (hpasses m hm).mp (hbefore m hm)⟩
  · rintro ⟨target, htarget, hfind, hbefore⟩
    refine ⟨dateOfDay target, (h.visit_eq (hfar n hn)).mpr (.inr ⟨target, htarget, rfl⟩), ?_,
      fun m hm => (hpasses m hm).mpr (hbefore m hm)⟩
    rwa [atTimes_dateOfDay h.fixed]

end OnShiftedDays

/-! ## Section 3: The least instant -/

/-- The instants at the execution times of the days to which the business days are moved. -/
def movedInstants (timezone : Location) (offset : Int) (calendar : BusinessCalendar) (k : Int)
    (executionTimes : List TimeOfDay) : Set Int :=
  {u | ∃ base target, MovedTo offset calendar k base target ∧
    u ∈ atTimes timezone (dateOfDay target) executionTimes}

/-- The result is the least of the instants after the start; there is none when there is no such
instant. -/
def ReturnsLeast (next : Int → Result Int) (instants : Set Int) (start : Int) : Prop :=
  ∀ t, next start = .ok t ↔ IsLeast {u | u ∈ instants ∧ start < u} t

/-- The day that is moved to the first business day with an execution time after the start lies in
the search window. -/
def BaseVisited (offset : Int) (calendar : BusinessCalendar) (rule : CalendarRule)
    (k start : Int) : Prop :=
  ∀ number, FirstLate offset calendar rule start number →
    ∃ base, firstDay offset start ≤ base ∧ base < firstDay offset start + 365 ∧
      MovedTo offset calendar k base number

namespace OnShiftedDays

variable (h : OnShiftedDays ctx inlineCalendar rule business calendar timezone offset)
include h

/-- The least instant is on the first business day with an execution time after the start. -/
theorem exists_least {number base : Int} (hfirst : FirstLate offset calendar rule start number)
    (hbase : MovedTo offset calendar business.dayOffset base number) :
    ∃ r, (instantsOn offset (rule.timesOr { hour := 9 }) number).find? (fun t => start < t) =
        some r ∧
      IsLeast {u | u ∈ movedInstants timezone offset calendar business.dayOffset
        (rule.timesOr { hour := 9 }) ∧ start < u} r := by
  obtain ⟨u, hu, hlate⟩ := hfirst.late
  obtain ⟨r, hfind⟩ : ∃ r, (instantsOn offset (rule.timesOr { hour := 9 }) number).find?
      (fun t => start < t) = some r :=
    Option.isSome_iff_exists.mp (List.find?_isSome.mpr ⟨u, hu, by simpa using hlate⟩)
  have hr := List.mem_of_find?_eq_some hfind
  refine ⟨r, hfind, ⟨⟨base, number, hbase, ?_⟩, by simpa using List.find?_some hfind⟩, ?_⟩
  · rwa [atTimes_dateOfDay h.fixed]
  · rintro v ⟨⟨base', target', htarget', hv⟩, hlate'⟩
    rw [atTimes_dateOfDay h.fixed] at hv
    rcases Int.lt_or_eq_of_le (hfirst.first target' htarget'.target ⟨v, hv, hlate'⟩) with
      hlt | rfl
    · -- instants of a later day are later
      by_contra hbefore
      have hmono := h.fixed.civilDay_mono (Int.le_of_lt (Int.not_le.mp hbefore))
      rw [civilDay_of_mem_instantsOn h.fixed h.validated hr,
        civilDay_of_mem_instantsOn h.fixed h.validated hv] at hmono
      omega
    · exact h.find?_least hfind v hv hlate'

/-- A day that the evaluator visits is moved to the day of the run it returns. -/
theorem baseVisited_of_returnsLeast
    (hfar : FarEnough offset calendar business.dayOffset start ctx.offsetDays)
    (hleast : ReturnsLeast (findNextExecution ctx inlineCalendar rule timezone)
      (movedInstants timezone offset calendar business.dayOffset (rule.timesOr { hour := 9 }))
      start) :
    BaseVisited offset calendar rule business.dayOffset start := by
  intro number hfirst
  -- the base day of the least instant, wherever it is
  obtain ⟨base, hbase⟩ := exists_shifted_to hfirst.takes.exists_later hfirst.takes.exists_earlier
    business.dayOffset hfirst.takes
  obtain ⟨r, hfind, hr⟩ := h.exists_least hfirst hbase
  obtain ⟨n, hn, target, htarget, hfind', -⟩ :=
    (h.findNextExecution_eq_ok hfar).mp ((hleast r).mpr hr)
  have hday := civilDay_of_mem_instantsOn h.fixed h.validated (List.mem_of_find?_eq_some hfind)
  have hday' := civilDay_of_mem_instantsOn h.fixed h.validated (List.mem_of_find?_eq_some hfind')
  refine ⟨firstDay offset start + n, by omega, by omega, ?_⟩
  rwa [← hday, hday']

/-- From a base day in the search window the evaluator finds the least instant. -/
theorem finds_least (hfar : FarEnough offset calendar business.dayOffset start ctx.offsetDays)
    (hvisited : BaseVisited offset calendar rule business.dayOffset start) {number : Int}
    (htakes : TakesFor offset calendar number) :
    ∃ r, findNextExecution ctx inlineCalendar rule timezone start = .ok r ∧
      IsLeast {u | u ∈ movedInstants timezone offset calendar business.dayOffset
        (rule.timesOr { hour := 9 }) ∧ start < u} r := by
  obtain ⟨first, hfirst⟩ := @exists_firstLate _ _ _ _ _ _ _ start h _ htakes
  obtain ⟨base, hle, hlt, hbase⟩ := hvisited first hfirst
  obtain ⟨r, hfind, hr⟩ := h.exists_least hfirst hbase
  -- the `n`-th day of the window
  obtain ⟨n, rfl⟩ := Int.le.dest hle
  refine ⟨r, (h.findNextExecution_eq_ok hfar).mpr
    ⟨n, by omega, first, hbase, hfind, fun m hm target htarget hlate => ?_⟩, hr⟩
  -- earlier days are moved to earlier ones
  have hearlier := htarget.lt_of_lt hbase (by omega)
  have hle := hfirst.first target htarget.target hlate
  omega

theorem returnsLeast_of_baseVisited
    (hfar : FarEnough offset calendar business.dayOffset start ctx.offsetDays)
    (hvisited : BaseVisited offset calendar rule business.dayOffset start) :
    ReturnsLeast (findNextExecution ctx inlineCalendar rule timezone)
      (movedInstants timezone offset calendar business.dayOffset (rule.timesOr { hour := 9 }))
      start := by
  intro t
  constructor
  · intro hfound
    -- a run there is, so there are business days
    obtain ⟨n, -, target, htarget, -, -⟩ := (h.findNextExecution_eq_ok hfar).mp hfound
    obtain ⟨r, hfound', hr⟩ := h.finds_least hfar hvisited htarget.target
    rw [hfound] at hfound'
    exact Except.ok.inj hfound' ▸ hr
  · intro hleast
    obtain ⟨base, target, htarget, -⟩ := hleast.1.1
    obtain ⟨r, hfound, hr⟩ := h.finds_least hfar hvisited htarget.target
    rw [hfound, hr.unique hleast]

/-- The same rule, with loops that are followed for another number of days. -/
theorem withDays (days : Nat) :
    OnShiftedDays { ctx with offsetDays := days } inlineCalendar rule business calendar timezone
      offset := ⟨h.config, h.calendar, h.valid, h.sorted, h.fixed⟩

/-- **Business-day offsets**: when the loops are followed far enough, the evaluator returns the
least instant exactly when the day it belongs to lies in the search window. -/
theorem returnsLeast_iff (start : Int) :
    ∃ enough, ∀ days, enough ≤ days →
      (ReturnsLeast
          (findNextExecution { ctx with offsetDays := days } inlineCalendar rule timezone)
          (movedInstants timezone offset calendar business.dayOffset (rule.timesOr { hour := 9 }))
          start ↔
        BaseVisited offset calendar rule business.dayOffset start) := by
  obtain ⟨enough, henough⟩ := exists_farEnough offset calendar business.dayOffset start
  exact ⟨enough, fun days hdays =>
    ⟨(h.withDays days).baseVisited_of_returnsLeast (henough days hdays),
      (h.withDays days).returnsLeast_of_baseVisited (henough days hdays)⟩⟩

end OnShiftedDays

end Search

/-! ### The business day after each business day, at noon -/

/-- One business day after each day from Monday to Friday, at 12:00. -/
def dayAfter : CalendarRule where
  rule := some (.businessDays ⟨"", 1⟩)
  executionTimes := [{ hour := 12 }]

theorem onShiftedDays_dayAfter :
    OnShiftedDays ⟨none, 0⟩ none dayAfter ⟨"", 1⟩ getDefaultBusinessCalendar utc 0 :=
  ⟨rfl, rfl, by decide, by decide, Location.fixed_utc⟩

theorem takesFor_default {number : Int} :
    TakesFor 0 getDefaultBusinessCalendar number ↔
      Weekly.goWeekdayToOurs (weekdayOfDay number) ∉ [(6 : Int), 7] := by
  simp [TakesFor, weekdayOf_dateOfDay, getDefaultBusinessCalendar]

theorem late_dayAfter {start number : Int} :
    Late 0 dayAfter start number ↔ start < number * day + 12 * hour := by
  have hseconds : TimeOfDay.seconds { hour := 12 } = 12 * 3600 := by decide
  have hhour : 43200 * second = 12 * hour := by decide
  simp [Calendar.Late, instantsOn, CalendarRule.timesOr, dayAfter, hseconds, hhour]

/-- On Tuesday after noon, it is the turn of Tuesday itself: the next run is on Wednesday. -/
theorem returnsLeast_afterNoon :
    ∃ enough, ∀ days, enough ≤ days →
      ReturnsLeast (findNextExecution ⟨none, days⟩ none dayAfter utc)
        (movedInstants utc 0 getDefaultBusinessCalendar 1 [{ hour := 12 }])
        (dayNumber 1970 1 6 * day + 13 * hour) := by
  obtain ⟨enough, hiff⟩ :=
    onShiftedDays_dayAfter.returnsLeast_iff (dayNumber 1970 1 6 * day + 13 * hour)
  refine ⟨enough, fun days hdays => (hiff days hdays).mpr fun number hfirst => ?_⟩
  have hstart : dayNumber 1970 1 6 = 5 := by decide
  have hwednesday := hfirst.first 6 (takesFor_default.mpr (by decide))
    (late_dayAfter.mpr (by rw [hstart]; decide))
  have hlate := late_dayAfter.mp hfirst.late
  rw [hstart] at hlate ⊢
  simp only [day, hour, minute, second] at hlate
  obtain rfl : number = 6 := by omega
  have htuesday : TakesFor 0 getDefaultBusinessCalendar 5 := takesFor_default.mpr (by decide)
  refine ⟨5, by decide, by decide, htuesday, hfirst.takes, ?_⟩
  exact .step ⟨by decide, hfirst.takes, fun j hj hlt => by omega⟩ (.stay 6)

/-- On Tuesday before noon, the turn of Monday is missed: it lies before the search window. -/
theorem not_returnsLeast_beforeNoon :
    ¬ ∀ (ctx : EvaluationContext) (inlineCalendar : Option BusinessCalendar) (rule : CalendarRule)
      (business : BusinessDaysRule) (calendar : BusinessCalendar) (timezone : Location)
      (offset start : Int),
      OnShiftedDays ctx inlineCalendar rule business calendar timezone offset →
        (∀ holiday ∈ calendar.holidays, holiday.rule = none ∧ ∃ own, holiday.date = some own) →
        (∃ w, 1 ≤ w ∧ w ≤ 7 ∧ w ∉ calendar.weekendDays) →
        ∃ enough, ∀ days, enough ≤ days →
          ReturnsLeast
            (findNextExecution { ctx with offsetDays := days } inlineCalendar rule timezone)
            (movedInstants timezone offset calendar business.dayOffset
              (rule.timesOr { hour := 9 }))
            start := by
  intro hall
  obtain ⟨enough, hleast⟩ := hall _ _ _ _ _ _ _ (5 * day + 10 * hour) onShiftedDays_dayAfter
    (by simp [getDefaultBusinessCalendar]) ⟨1, by decide⟩
  obtain ⟨far, hfar⟩ := exists_farEnough 0 getDefaultBusinessCalendar 1 (5 * day + 10 * hour)
  have hvisited := (onShiftedDays_dayAfter.withDays (max enough far)).baseVisited_of_returnsLeast
    (hfar _ (Nat.le_max_right _ _)) (hleast _ (Nat.le_max_left _ _))
  have htuesday : FirstLate 0 getDefaultBusinessCalendar dayAfter (5 * day + 10 * hour) 5 := by
    refine ⟨takesFor_default.mpr (by decide), late_dayAfter.mpr (by decide), fun m _ hm => ?_⟩
    have hlate := late_dayAfter.mp hm
    simp only [day, hour, minute, second] at hlate
    omega
  obtain ⟨base, hle, -, -, -, hsteps⟩ := hvisited 5 htuesday
  rw [if_pos (by decide)] at hsteps
  have hfirst : firstDay 0 (5 * day + 10 * hour) = 5 := by decide
  -- one business day later than a day of the window is later than Tuesday
  cases hsteps with
  | step hnext hrest =>
    have hlt := hnext.lt
    have hend := hrest.le
    omega

end BusinessDays

end Nzovu.Calendar
