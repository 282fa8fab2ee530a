import Nzovu.Calendar.Pattern
import Nzovu.Calendar.Preview

/-!
# The Validity of a Rule

`valid_from` and `valid_until` bound the runs of a rule, both inclusively. The evaluators start at
`valid_from` and refuse to start after `valid_until`; the engine asks each rule for a batch of runs
and leaves out a rule whose batch is not filled. The theorem compares what a rule contributes with
what its pattern does.
-/

namespace Nzovu.Calendar

open Nzovu.Foundation
open Nzovu.Foundation.CivilTime

section Contribution

variable (env : Environment) (schedule : CalendarSchedule) (timezone : Location)
  (rule : CalendarRule) (start : Int)

/-- The runs a rule contributes to `CalculateNextRuns`. -/
def contributed : List Int :=
  (ruleRuns env schedule timezone rule start).filter (· < start + env.maxLookahead)

/-- `t` lies in the closed interval of `valid_from` and `valid_until`. -/
def CalendarRule.InWindow (rule : CalendarRule) (t : Int) : Prop :=
  (∀ validFrom, rule.validFrom = some validFrom → validFrom.asTime ≤ t) ∧
    ∀ validUntil, rule.validUntil = some validUntil → t ≤ validUntil.asTime

/-- A matching instant of the rule that lies after the start, in the window and within the
lookahead: an instant that its pattern finds, from wherever. -/
structure Matching (t : Int) : Prop where
  found : ∃ s, findNextExecution env.evaluation schedule.businessCalendar rule timezone s = .ok t
  after : start < t
  window : rule.InWindow t
  lookahead : t < start + env.maxLookahead

/-- The earliest one. -/
def Earliest (t : Int) : Prop :=
  Matching env schedule timezone rule start t ∧
    ∀ u, Matching env schedule timezone rule start u → t ≤ u

/-- The rule contributes runs in its window only, and the earliest matching instant if there is
one. -/
structure WindowKept : Prop where
  sound : ∀ t ∈ contributed env schedule timezone rule start, rule.InWindow t
  complete : ∀ t, Earliest env schedule timezone rule start t →
    t ∈ contributed env schedule timezone rule start

/-- The pattern's runs from the later of the start and `valid_from`, each a stride past the one
before. -/
abbrev PatternRuns : List Int → Prop :=
  Successive (findNextExecution env.evaluation schedule.businessCalendar rule timezone) rule.stride
    (rule.start start)

/-- The condition: a batch of the pattern's runs fits into the window. When `valid_until` leaves
room for all of the batch but its last run, the last run does not lie between `valid_until` and
the end of the lookahead. When there is a matching instant, the pattern runs at the earliest one
first, and on until it has filled a batch of which all but the last run leave a stride before
`valid_until`. -/
structure BatchFits : Prop where
  last : ∀ runs t, PatternRuns env schedule timezone rule start (runs ++ [t]) →
    runs.length + 1 = env.maxFutureCalculations → rule.expired start = false →
    (∀ r ∈ runs, rule.expired (r + rule.stride) = false) → t < start + env.maxLookahead →
      rule.expired t = false
  filled : ∀ t, Earliest env schedule timezone rule start t →
    ∃ runs, PatternRuns env schedule timezone rule start (t :: runs) ∧
      runs.length + 1 = env.maxFutureCalculations ∧
      ∀ r ∈ (t :: runs).dropLast, rule.expired (r + rule.stride) = false

variable {env schedule timezone rule start} {t : Int} {times : List Int}

theorem CalendarRule.inWindow_iff :
    rule.InWindow t ↔
      (∀ validFrom, rule.validFrom = some validFrom → validFrom.asTime ≤ t) ∧
        rule.expired t = false := by
  unfold CalendarRule.InWindow CalendarRule.expired
  cases rule.validUntil with
  | none => simp
  | some validUntil => simp

/-- A run of the pattern lies after `valid_from`. -/
theorem CalendarRule.validFrom_le_of_start_lt (h : rule.start start < t) :
    ∀ validFrom, rule.validFrom = some validFrom → validFrom.asTime ≤ t := by
  intro validFrom hcase
  simp only [CalendarRule.start, hcase] at h
  split at h <;> omega

/-- The batch a rule contributes from, if it is filled. -/
theorem mem_ruleRuns :
    t ∈ ruleRuns env schedule timezone rule start ↔
      ∃ times, PatternRuns env schedule timezone rule start times ∧
        times.length = env.maxFutureCalculations ∧ rule.expired start = false ∧
        (∀ r ∈ times.dropLast, rule.expired (r + rule.stride) = false) ∧ t ∈ times := by
  have hbatch : ∀ times, evaluateRuleMultiple env.evaluation schedule.businessCalendar rule
      timezone start env.maxFutureCalculations = .ok times ↔ _ := fun times =>
    evaluateMultiple_eq_ok.trans
      (and_congr_left' (successive_evaluateRule (Int.le_of_lt rule.stride_pos)))
  unfold ruleRuns
  constructor
  · intro h
    split at h
    next times hok =>
      obtain ⟨⟨hwalk, hstart, hlast⟩, hlength⟩ := (hbatch times).mp hok
      exact ⟨times, hwalk, hlength, hstart (List.ne_nil_of_mem h), hlast, h⟩
    next => cases h
  · rintro ⟨times, hwalk, hlength, hstart, hlast, hmem⟩
    rw [(hbatch times).mpr ⟨⟨hwalk, fun _ => hstart, hlast⟩, hlength⟩]
    exact hmem

/-- The first run of a batch that reaches the earliest matching instant is that instant. -/
theorem head_of_earliest {first : Int} {rest : List Int}
    (h : Earliest env schedule timezone rule start t)
    (hwalk : PatternRuns env schedule timezone rule start (first :: rest))
    (hmem : t ∈ first :: rest) : first = t := by
  have hstride := Int.le_of_lt rule.stride_pos
  have hle := hwalk.head_le findsLater_findNextExecution hstride hmem
  have hlt := hwalk.lt findsLater_findNextExecution hstride List.mem_cons_self
  have hfirst : Matching env schedule timezone rule start first := by
    refine ⟨?_, ?_, ?_, ?_⟩
    · cases hwalk with
      | cons hnext _ => exact ⟨_, hnext⟩
    · have hstart := rule.le_start start
      omega
    · have hwindow := CalendarRule.inWindow_iff.mp h.1.window
      exact CalendarRule.inWindow_iff.mpr ⟨CalendarRule.validFrom_le_of_start_lt hlt,
        CalendarRule.not_expired_of_le hwindow.2 hle⟩
    · have hlookahead := h.1.lookahead
      omega
  have hearliest := h.2 first hfirst
  omega

/-- A rule keeps to its window, and misses nothing in it, exactly when its batch fits. -/
theorem windowKept_iff :
    WindowKept env schedule timezone rule start ↔ BatchFits env schedule timezone rule start := by
  have hstride := Int.le_of_lt rule.stride_pos
  constructor
  · intro h
    refine ⟨fun runs t hwalk hlength hstart hlast hlookahead => ?_, fun t ht => ?_⟩
    · have hmem : t ∈ contributed env schedule timezone rule start := by
        refine List.mem_filter.mpr ⟨mem_ruleRuns.mpr ⟨runs ++ [t], hwalk, by simpa using hlength,
          hstart, ?_, by simp⟩, by simpa using hlookahead⟩
        simpa using hlast
      exact (CalendarRule.inWindow_iff.mp (h.sound t hmem)).2
    · have hmem := (List.mem_filter.mp (h.complete t ht)).1
      obtain ⟨times, hwalk, hlength, -, hlast, hmem⟩ := mem_ruleRuns.mp hmem
      obtain ⟨first, rest, rfl⟩ := List.exists_cons_of_ne_nil (List.ne_nil_of_mem hmem)
      obtain rfl := head_of_earliest ht hwalk hmem
      exact ⟨rest, hwalk, by simpa using hlength, hlast⟩
  · rintro ⟨hlastRun, hfilled⟩
    refine ⟨fun t ht => ?_, fun t ht => ?_⟩
    · obtain ⟨hmem, hlookahead⟩ := List.mem_filter.mp ht
      obtain ⟨times, hwalk, hlength, hstart, hlast, hmem⟩ := mem_ruleRuns.mp hmem
      have hlt := hwalk.lt findsLater_findNextExecution hstride hmem
      refine CalendarRule.inWindow_iff.mpr ⟨CalendarRule.validFrom_le_of_start_lt hlt, ?_⟩
      -- every run but the last leaves a stride before `valid_until`
      have hne := List.ne_nil_of_mem hmem
      rw [← List.dropLast_append_getLast hne] at hmem hwalk
      rcases List.mem_append.mp hmem with hmem | hmem
      · exact CalendarRule.not_expired_of_le (hlast t hmem) (by omega)
      · obtain rfl := List.mem_singleton.mp hmem
        refine hlastRun _ _ hwalk ?_ hstart hlast (by simpa using hlookahead)
        have hpos := List.length_pos_of_ne_nil hne
        rw [List.length_dropLast]
        omega
    · obtain ⟨runs, hwalk, hlength, hlast⟩ := hfilled t ht
      have hstart : rule.expired start = false := CalendarRule.not_expired_of_le
        (CalendarRule.inWindow_iff.mp ht.1.window).2 (Int.le_of_lt ht.1.after)
      exact List.mem_filter.mpr ⟨mem_ruleRuns.mpr ⟨t :: runs, hwalk, by simpa using hlength, hstart,
        hlast, List.mem_cons_self⟩, by simpa using ht.1.lookahead⟩

end Contribution

/-- The rule that runs every midnight, until the tenth day. -/
def tenDaysRule : CalendarRule := { midnightRule with validUntil := some ⟨864000, 0⟩ }

/-- Its schedule. -/
def tenDays : CalendarSchedule where
  type := .daily
  rules := [tenDaysRule]
  timezone := "UTC"

/-- The first midnight after the epoch. -/
theorem earliest_tenDays : Earliest defaultEnvironment tenDays utc tenDaysRule 0 day := by
  have hfound : ∀ s, findNextExecution defaultEnvironment.evaluation tenDays.businessCalendar
      tenDaysRule utc s = .ok ((s / day + 1) * day) := evaluateRule_midnight _ _
  refine ⟨⟨⟨0, by rw [hfound]; rfl⟩, by decide, ⟨nofun, ?_⟩, by decide⟩, fun u hu => ?_⟩
  · rintro validUntil ⟨⟩
    decide
  · obtain ⟨⟨s, hs⟩, hafter, -, -⟩ := hu
    rw [hfound, Except.ok.injEq] at hs
    simp only [day, hour, minute, second] at hs ⊢
    omega

/-- It never contributes a run: a batch of a thousand does not fit into ten days. -/
theorem not_windowKept_tenDays :
    ¬ ∀ (env : Environment) (schedule : CalendarSchedule) (timezone : Location)
      (rule : CalendarRule) (start : Int), validateSchedule env (some schedule) = .ok () →
      rule ∈ schedule.rules → WindowKept env schedule timezone rule start := by
  intro h
  have hkept := h defaultEnvironment tenDays utc tenDaysRule 0 (by decide +kernel)
    (List.mem_singleton.mpr rfl)
  have hmem := hkept.complete day earliest_tenDays
  have hnone : contributed defaultEnvironment tenDays utc tenDaysRule 0 = [] := by decide +kernel
  rw [hnone] at hmem
  cases hmem

end Nzovu.Calendar
