import Nzovu.Calendar.Evaluators
import Nzovu.Foundation.Successive

/-!
# The Pattern of a Rule

The five evaluators share the treatment of `valid_from` and `valid_until`: they start at
`valid_from`, and refuse to start after `valid_until`. What is left of a rule without these bounds
is its pattern.

- Section 1: the rule without its bounds.
- Section 2: batches of runs.
-/

namespace Nzovu.Calendar

open Nzovu.Foundation
open Nzovu.Foundation.CivilTime

/-! ## Section 1: The rule without its bounds -/

/-- The pattern of a rule: the rule without `valid_from` and `valid_until`. -/
def CalendarRule.pattern (rule : CalendarRule) : CalendarRule :=
  { rule with validFrom := none, validUntil := none }

/-- `findNextExecution` of a rule: the next instant of its pattern after `start`. -/
def findNextExecution (ctx : EvaluationContext) (inlineCalendar : Option BusinessCalendar)
    (rule : CalendarRule) (timezone : Location) (start : Int) : Result Int :=
  evaluateRule ctx inlineCalendar rule.pattern timezone start

section Bounds

variable {ctx : EvaluationContext} {inlineCalendar : Option BusinessCalendar}
  {rule : CalendarRule} {timezone : Location} {start t : Int}

theorem evaluateFrom_eq_ok {next : Int → Result Int} :
    rule.evaluateFrom start next = .ok t ↔
      rule.expired start = false ∧ next (rule.start start) = .ok t := by
  unfold CalendarRule.evaluateFrom
  cases rule.expired start <;> simp [fail]

@[simp] theorem pattern_evaluateFrom (next : Int → Result Int) :
    rule.pattern.evaluateFrom start next = next start := rfl

/-- A rule runs where its pattern does, from `valid_from` on, until it has expired. -/
theorem evaluateRule_eq_ok :
    evaluateRule ctx inlineCalendar rule timezone start = .ok t ↔
      rule.expired start = false ∧
        findNextExecution ctx inlineCalendar rule timezone (rule.start start) = .ok t := by
  have hconfig : rule.pattern.rule = rule.rule := rfl
  simp only [findNextExecution, evaluateRule, hconfig]
  cases rule.rule with
  | none => simp [fail]
  | some config =>
    cases config with
    | custom => simp [fail]
    | monthly _ => exact evaluateFrom_eq_ok
    | weekly _ => exact evaluateFrom_eq_ok
    | daily _ => exact evaluateFrom_eq_ok
    | yearly _ => exact evaluateFrom_eq_ok
    | businessDays _ => exact evaluateFrom_eq_ok

theorem findsLater_findNextExecution :
    FindsLater (findNextExecution ctx inlineCalendar rule timezone) :=
  fun _ _ h => (evaluateRule_spec h).after

/-- From `valid_from` on, evaluation starts where it is asked to. -/
theorem CalendarRule.start_of_lt (h : rule.start start < t) : rule.start t = t := by
  cases hcase : rule.validFrom with
  | none => simp only [CalendarRule.start, hcase]
  | some validFrom =>
    simp only [CalendarRule.start, hcase] at h ⊢
    split at h
    · exact if_neg (by omega)
    · exact if_neg (by omega)

theorem CalendarRule.not_expired_of_le {s t : Int} (h : rule.expired t = false) (hle : s ≤ t) :
    rule.expired s = false := by
  unfold CalendarRule.expired at h ⊢
  cases hcase : rule.validUntil with
  | none => rfl
  | some validUntil =>
    simp only [hcase, Option.any_some, decide_eq_false_iff_not] at h ⊢
    omega

end Bounds

/-! ## Section 2: Batches of runs -/

theorem evaluateMultiple_eq_ok {next : Int → Result Int} {stride : Int} {count : Nat}
    {start : Int} {times : List Int} :
    evaluateMultiple next stride count start = .ok times ↔
      Successive next stride start times ∧ times.length = count := by
  induction count generalizing start times with
  | zero =>
    simp only [evaluateMultiple, Except.ok.injEq]
    constructor
    · rintro rfl
      exact ⟨.nil, rfl⟩
    · rintro ⟨-, hlength⟩
      exact (List.eq_nil_of_length_eq_zero hlength).symm
  | succ count ih =>
    simp only [evaluateMultiple]
    constructor
    · intro h
      cases hnext : next start with
      | error stop => simp [hnext] at h
      | ok t =>
        cases hrest : evaluateMultiple next stride count (t + stride) with
        | error stop => simp [hnext, hrest] at h
        | ok rest =>
          simp only [hnext, hrest, Except.ok.injEq] at h
          obtain ⟨hwalk, hlength⟩ := ih.mp hrest
          exact h ▸ ⟨.cons hnext hwalk, by simp [hlength]⟩
    · rintro ⟨hwalk, hlength⟩
      cases hwalk with
      | nil => simp at hlength
      | cons hnext hrest =>
        have hbatch := ih.mpr ⟨hrest, Nat.succ.inj hlength⟩
        simp only [hnext, hbatch]

/-- A rule with bounds walks like its pattern from the later of the start and `valid_from`; it
starts, and starts again after each run but the last, before it has expired. -/
theorem successive_evaluateRule {ctx : EvaluationContext}
    {inlineCalendar : Option BusinessCalendar} {rule : CalendarRule} {timezone : Location}
    {start stride : Int} (hstride : 0 ≤ stride) {times : List Int} :
    Successive (evaluateRule ctx inlineCalendar rule timezone) stride start times ↔
      Successive (findNextExecution ctx inlineCalendar rule timezone) stride (rule.start start)
          times ∧
        (times ≠ [] → rule.expired start = false) ∧
        ∀ t ∈ times.dropLast, rule.expired (t + stride) = false := by
  induction times generalizing start with
  | nil => simp [Successive.nil]
  | cons first rest ih =>
    constructor
    · intro h
      cases h with
      | cons hnext hrest =>
        obtain ⟨hexpired, hfound⟩ := evaluateRule_eq_ok.mp hnext
        have hlater := findsLater_findNextExecution _ _ hfound
        obtain ⟨hwalk, hagain, hlast⟩ := ih.mp hrest
        have hpast : rule.start start < first + stride := by omega
        rw [CalendarRule.start_of_lt hpast] at hwalk
        refine ⟨.cons hfound hwalk, fun _ => hexpired, fun t ht => ?_⟩
        cases rest with
        | nil => simp at ht
        | cons second others =>
          rcases List.mem_cons.mp ht with rfl | ht
          · exact hagain (List.cons_ne_nil _ _)
          · exact hlast t ht
    · rintro ⟨hwalk, hstart, hlast⟩
      cases hwalk with
      | cons hfound hrest =>
        have hlater := findsLater_findNextExecution _ _ hfound
        have hpast : rule.start start < first + stride := by omega
        refine .cons (evaluateRule_eq_ok.mpr ⟨hstart (List.cons_ne_nil _ _), hfound⟩)
          (ih.mpr ⟨?_, fun hne => ?_, fun t ht => ?_⟩)
        · rwa [CalendarRule.start_of_lt hpast]
        · obtain ⟨second, others, rfl⟩ := List.exists_cons_of_ne_nil hne
          exact hlast first List.mem_cons_self
        · cases rest with
          | nil => simp at ht
          | cons second others => exact hlast t (List.mem_cons_of_mem _ ht)

end Nzovu.Calendar
