import Nzovu.Calendar.VisitedDates

/-!
# The Order of the Execution Times

Validation accepts execution times in any order, and an evaluator takes the first listed one that
lies after its start: not the earliest. The order is irrelevant as long as the date that the
evaluator gets to has only one instant left.

- Section 1: when the order is irrelevant.
- Section 2: one instant left.
- Section 3: several instants left.
-/

namespace Nzovu.Calendar

open Nzovu.Foundation
open Nzovu.Foundation.CivilTime

/-! ## Section 1: When the order is irrelevant -/

/-- The lists have the same elements, in whatever order and however often. -/
def SameTimes (times times' : List TimeOfDay) : Prop := ∀ t, t ∈ times' ↔ t ∈ times

theorem SameTimes.of_perm {times times' : List TimeOfDay} (h : times'.Perm times) :
    SameTimes times times' := fun _ => h.mem_iff

theorem SameTimes.cons {times : List TimeOfDay} {t : TimeOfDay} (h : t ∈ times) :
    SameTimes times (t :: times) := by
  intro u
  rw [List.mem_cons]
  constructor
  · rintro (rfl | hu)
    · exact h
    · exact hu
  · exact Or.inr

/-- The rule with other execution times. -/
def CalendarRule.withTimes (rule : CalendarRule) (times : List TimeOfDay) : CalendarRule :=
  { rule with executionTimes := times }

/-- Permuting or repeating the execution times does not change the next run. -/
def OrderIrrelevant (ctx : EvaluationContext) (inlineCalendar : Option BusinessCalendar)
    (rule : CalendarRule) (timezone : Location) (start : Int) : Prop :=
  ∀ times, SameTimes rule.executionTimes times →
    evaluateRule ctx inlineCalendar (rule.withTimes times) timezone start =
      evaluateRule ctx inlineCalendar rule timezone start

/-- The first of the dates that has an instant after the start has only one. -/
def OneInstant (start : Int) (offers : Date → List Int) (visits : List Visit) : Prop :=
  ∀ before date rest, visits = before ++ .ok (some date) :: rest → Passed start offers before →
    ∀ u ∈ offers date, ∀ v ∈ offers date, start < u → start < v → u = v

/-! ## Section 2: One instant left -/

section Walk

variable {start : Int} {offers offers' : Date → List Int}

theorem find?_eq_of_mem_iff {late late' : List Int} (hsame : ∀ t, t ∈ late' ↔ t ∈ late)
    (hone : ∀ u ∈ late, ∀ v ∈ late, start < u → start < v → u = v) :
    (late'.find? fun t => start < t) = late.find? fun t => start < t := by
  -- either list has an instant after the start when the other has
  cases hfind : late.find? fun t => start < t with
  | none =>
    have hnone : ∀ t ∈ late, t ≤ start := by simpa using hfind
    simpa using fun t ht => hnone t ((hsame t).mp ht)
  | some t =>
    have hmem := List.mem_of_find?_eq_some hfind
    have hlate : start < t := by simpa using List.find?_some hfind
    -- both find one, and it is the only one
    obtain ⟨u, hfind'⟩ : ∃ u, late'.find? (fun t => start < t) = some u :=
      Option.isSome_iff_exists.mp
        (List.find?_isSome.mpr ⟨t, (hsame t).mpr hmem, by simpa using hlate⟩)
    have hmem' := (hsame u).mp (List.mem_of_find?_eq_some hfind')
    rw [hfind', hone u hmem' t hmem (by simpa using List.find?_some hfind') hlate]

/-- The walk depends on the instants of a date alone, not on their order. -/
theorem firstRun_eq_of_oneInstant (hsame : ∀ date t, t ∈ offers' date ↔ t ∈ offers date)
    {visits : List Visit} (hone : OneInstant start offers visits) :
    firstRun start offers' visits = firstRun start offers visits := by
  induction visits with
  | nil => rfl
  | cons visit visits ih =>
    -- behind a visit that is passed, the walk is one through the rest
    have hrest : Passes start offers visit →
        firstRun start offers' visits = firstRun start offers visits := by
      intro hpassed
      refine ih fun before date rest heq hbefore => ?_
      exact hone (visit :: before) date rest (by rw [heq]; rfl) (passed_cons.mpr ⟨hpassed, hbefore⟩)
    cases visit with
    | error stop => rfl
    | ok found =>
      cases found with
      | none => exact hrest passes_none
      | some date =>
        have hfind := find?_eq_of_mem_iff (hsame date) (hone [] date visits rfl passed_nil)
        simp only [firstRun, hfind]
        cases hcase : (offers date).find? fun t => start < t with
        | some t => rfl
        | none => exact hrest (passes_some hcase)

end Walk

section Rules

variable {ctx : EvaluationContext} {inlineCalendar : Option BusinessCalendar}
  {rule : CalendarRule} {timezone : Location} {start : Int}

theorem evaluateRule_of_not_expired (h : rule.expired start = false) :
    evaluateRule ctx inlineCalendar rule timezone start =
      findNextExecution ctx inlineCalendar rule timezone (rule.start start) := by
  have hconfig : rule.pattern.rule = rule.rule := rfl
  have hfrom : ∀ next, rule.evaluateFrom start next = next (rule.start start) := by
    intro next
    rw [CalendarRule.evaluateFrom, h]
    rfl
  simp only [findNextExecution, evaluateRule, hconfig]
  cases rule.rule with
  | none => rfl
  | some config =>
    cases config with
    | custom => rfl
    | monthly _ => exact hfrom _
    | weekly _ => exact hfrom _
    | daily _ => exact hfrom _
    | yearly _ => exact hfrom _
    | businessDays _ => exact hfrom _

/-- An expired rule does not get to its execution times. -/
theorem evaluateRule_of_expired (h : rule.expired start = true) (times : List TimeOfDay) :
    evaluateRule ctx inlineCalendar (rule.withTimes times) timezone start =
      evaluateRule ctx inlineCalendar rule timezone start := by
  have hconfig : (rule.withTimes times).rule = rule.rule := rfl
  have hexpired : (rule.withTimes times).expired start = true := h
  have hfrom : ∀ next next', (rule.withTimes times).evaluateFrom start next =
      rule.evaluateFrom start next' := by
    intro next next'
    rw [CalendarRule.evaluateFrom, CalendarRule.evaluateFrom, h, hexpired]
    rfl
  simp only [evaluateRule, hconfig]
  cases rule.rule with
  | none => rfl
  | some config =>
    cases config with
    | custom => rfl
    | monthly _ => exact hfrom _ _
    | weekly _ => exact hfrom _ _
    | daily _ => exact hfrom _ _
    | yearly _ => exact hfrom _ _
    | businessDays _ => exact hfrom _ _

theorem CalendarRule.withTimes_times {times : List TimeOfDay} (h : times ≠ []) :
    (rule.withTimes times).times = times := if_neg h

/-- Lists with the same elements give the same execution times, default included. -/
theorem SameTimes.times {times : List TimeOfDay} (h : SameTimes rule.executionTimes times)
    (t : TimeOfDay) : t ∈ (rule.withTimes times).times ↔ t ∈ rule.times := by
  by_cases hnone : rule.executionTimes = []
  -- no times either way: the default stands in
  · obtain rfl : times = [] := List.eq_nil_iff_forall_not_mem.mpr fun t ht => by
      have hmem := (h t).mp ht
      rw [hnone] at hmem
      cases hmem
    unfold CalendarRule.times CalendarRule.timesOr CalendarRule.withTimes
    rw [if_pos rfl, if_pos hnone]
    rfl
  · have hsome : times ≠ [] := by
      rintro rfl
      obtain ⟨t, ht⟩ := List.exists_mem_of_ne_nil _ hnone
      cases (h t).mpr ht
    rw [CalendarRule.withTimes_times hsome, h t, CalendarRule.times, CalendarRule.timesOr,
      if_neg hnone]

theorem SameTimes.mem_atTimes {times : List TimeOfDay} (h : SameTimes rule.executionTimes times)
    (date : Date) (t : Int) :
    t ∈ atTimes timezone date (rule.withTimes times).times ↔
      t ∈ atTimes timezone date rule.times := by
  simp only [atTimes, List.mem_map, h.times]

/-- Where there is one instant left, the order is irrelevant. -/
theorem orderIrrelevant_of_oneInstant (hexpired : rule.expired start = false)
    (hone : OneInstant (rule.start start) (fun date => atTimes timezone date rule.times)
      (visits ctx inlineCalendar timezone (rule.start start) rule.rule)) :
    OrderIrrelevant ctx inlineCalendar rule timezone start := by
  intro times hsame
  have hexpired' : (rule.withTimes times).expired start = false := hexpired
  rw [evaluateRule_of_not_expired hexpired, evaluateRule_of_not_expired hexpired',
    findNextExecution_eq_firstRun, findNextExecution_eq_firstRun]
  have hwalk := firstRun_eq_of_oneInstant (fun date t => hsame.mem_atTimes date t) hone
  exact congrArg (searchResult (searchDetails rule.rule)) hwalk

/-! ## Section 3: Several instants left -/

/-- A listed time that is repeated in front is the next run, if it lies after the start on the date
that the evaluator gets to. -/
theorem findNextExecution_front {before rest : List Visit} {date : Date} {t : TimeOfDay}
    (ht : t ∈ rule.executionTimes)
    (hvisits : visits ctx inlineCalendar timezone start rule.rule =
      before ++ .ok (some date) :: rest)
    (hpassed : Passed start (fun date => atTimes timezone date rule.times) before)
    (hlate : start < timezone.date date.year date.month date.day t.seconds 0) :
    findNextExecution ctx inlineCalendar (rule.withTimes (t :: rule.executionTimes)) timezone
      start = .ok (timezone.date date.year date.month date.day t.seconds 0) := by
  have hsame : SameTimes rule.executionTimes (t :: rule.executionTimes) := .cons ht
  have hpassed' : Passed start (fun date => atTimes timezone date
      (rule.withTimes (t :: rule.executionTimes)).times) before := by
    intro visit hvisit
    obtain ⟨found, heq, hle⟩ := hpassed visit hvisit
    exact ⟨found, heq, fun date hdate u hu => hle date hdate u ((hsame.mem_atTimes date u).mp hu)⟩
  have hvisits' : visits ctx inlineCalendar timezone start
      (rule.withTimes (t :: rule.executionTimes)).rule = before ++ .ok (some date) :: rest :=
    hvisits
  -- the same visits are passed, and then the time in front is the first
  rw [findNextExecution_eq_firstRun, hvisits', firstRun_at hpassed', searchResult_some]
  rw [CalendarRule.withTimes_times (List.cons_ne_nil _ _), atTimes, List.map_cons,
    List.find?_cons_of_pos (by simpa using hlate)]

/-- Where the order is irrelevant, there is one instant left. -/
theorem oneInstant_of_orderIrrelevant (hexpired : rule.expired start = false)
    (hirrelevant : OrderIrrelevant ctx inlineCalendar rule timezone start) :
    OneInstant (rule.start start) (fun date => atTimes timezone date rule.times)
      (visits ctx inlineCalendar timezone (rule.start start) rule.rule) := by
  intro before date rest hvisits hpassed u hu v hv hlate hlate'
  obtain ⟨s, hs, rfl⟩ := List.mem_map.mp hu
  obtain ⟨t, ht, rfl⟩ := List.mem_map.mp hv
  by_cases hnone : rule.executionTimes = []
  · -- without listed times there is the default alone
    rw [CalendarRule.times, CalendarRule.timesOr, if_pos hnone, List.mem_singleton] at hs ht
    rw [hs, ht]
  · rw [CalendarRule.times, CalendarRule.timesOr, if_neg hnone] at hs ht
    -- each time that lies ahead would be the next run, were it listed first
    have hsame : ∀ time ∈ rule.executionTimes,
        rule.start start < timezone.date date.year date.month date.day time.seconds 0 →
        evaluateRule ctx inlineCalendar rule timezone start =
          .ok (timezone.date date.year date.month date.day time.seconds 0) := by
      intro time htime hafter
      have hexpired' : (rule.withTimes (time :: rule.executionTimes)).expired start = false :=
        hexpired
      rw [← hirrelevant _ (.cons htime), evaluateRule_of_not_expired hexpired']
      exact findNextExecution_front htime hvisits hpassed hafter
    exact Except.ok.inj ((hsame s hs hlate).symm.trans (hsame t ht hlate'))

end Rules

/-- **Order of the execution times**: it is irrelevant exactly when the rule has expired, or when
the first visited date with an instant after the start has one such instant. -/
theorem orderIrrelevant_iff (ctx : EvaluationContext) (inlineCalendar : Option BusinessCalendar)
    (rule : CalendarRule) (timezone : Location) (start : Int) :
    OrderIrrelevant ctx inlineCalendar rule timezone start ↔
      rule.expired start = true ∨
        OneInstant (rule.start start) (fun date => atTimes timezone date rule.times)
          (visits ctx inlineCalendar timezone (rule.start start) rule.rule) := by
  cases hexpired : rule.expired start with
  | true => exact ⟨fun _ => .inl rfl, fun _ times _ => evaluateRule_of_expired hexpired times⟩
  | false =>
    simp only [Bool.false_eq_true, false_or]
    exact ⟨oneInstant_of_orderIrrelevant hexpired, orderIrrelevant_of_oneInstant hexpired⟩

/-! ### Every day at six in the evening and at nine in the morning -/

/-- A daily rule that lists the later time first. -/
def eveningThenMorning : CalendarRule where
  rule := some (.daily ⟨1, false, none⟩)
  executionTimes := [{ hour := 18 }, { hour := 9 }]

/-- From midnight on the next run is at 18:00; were the times listed the other way round, it would
be at 9:00. -/
theorem not_orderIrrelevant_eveningThenMorning :
    ¬ ∀ (ctx : EvaluationContext) (inlineCalendar : Option BusinessCalendar) (rule : CalendarRule)
      (timezone : Location) (start : Int), validateRule ctx inlineCalendar rule = .ok () →
        OrderIrrelevant ctx inlineCalendar rule timezone start := by
  intro h
  have hirrelevant := h ⟨none, 0⟩ none eveningThenMorning utc 0 (by decide)
    [{ hour := 9 }, { hour := 18 }] (.of_perm (List.Perm.swap _ _ _))
  have hevening : evaluateRule ⟨none, 0⟩ none eveningThenMorning utc 0 = .ok (18 * hour) := by
    decide +kernel
  have hmorning : evaluateRule ⟨none, 0⟩ none
      (eveningThenMorning.withTimes [{ hour := 9 }, { hour := 18 }]) utc 0 = .ok (9 * hour) := by
    decide +kernel
  rw [hevening, hmorning] at hirrelevant
  exact absurd (Except.ok.inj hirrelevant) (by decide)

end Nzovu.Calendar
