import Mathlib.Data.List.Perm.Subperm
import Nzovu.Calendar.Transparency
import Nzovu.Foundation.Enumeration

/-!
# Preview and Execution

`CalculateNextRuns` lists the next runs at once, each rule moving its own cursor past the run it
has just found; the processor calls `CalculateNextRun` again and again, each time from the run it
has fired. Section 3 compares the two lists, Section 4 has a schedule on which they agree, and one
on which they do not.
-/

namespace Nzovu.Calendar

open Nzovu.Foundation
open Nzovu.Foundation.CivilTime

/-! ## Section 1: Sorted lists without duplicates -/

theorem mem_keepFirst {seen times : List Int} {t : Int} (h : t ∈ keepFirst seen times) :
    t ∈ times ∧ unix t ∉ seen := by
  induction times generalizing seen with
  | nil => simp [keepFirst] at h
  | cons first rest ih =>
    simp only [keepFirst] at h
    split at h
    next hseen =>
      exact ⟨List.mem_cons_of_mem _ (ih h).1, (ih h).2⟩
    next hnew =>
      rcases List.mem_cons.mp h with rfl | h
      · exact ⟨List.mem_cons_self, hnew⟩
      · exact ⟨List.mem_cons_of_mem _ (ih h).1, fun hmem =>
          (ih h).2 (List.mem_cons_of_mem _ hmem)⟩

/-- A time of a sorted list stays when no earlier one falls into its second. -/
theorem mem_keepFirst_of_first {seen times : List Int} (hsorted : times.Pairwise (· ≤ ·)) {t : Int}
    (ht : t ∈ times) (hseen : unix t ∉ seen) (hfirst : ∀ x ∈ times, x < t → unix x ≠ unix t) :
    t ∈ keepFirst seen times := by
  induction times generalizing seen with
  | nil => cases ht
  | cons first rest ih =>
    obtain ⟨hle, hrest⟩ := List.pairwise_cons.mp hsorted
    simp only [keepFirst]
    by_cases heq : first = t
    · rw [heq, if_neg hseen]
      exact List.mem_cons_self
    · have hmem : t ∈ rest := (List.mem_cons.mp ht).resolve_left (Ne.symm heq)
      -- An earlier time of the same second would be kept in the place of `t`.
      have hother : unix first ≠ unix t := by
        have hlater := hle t hmem
        exact hfirst first List.mem_cons_self (by omega)
      have hlater : ∀ x ∈ rest, x < t → unix x ≠ unix t :=
        fun x hx => hfirst x (List.mem_cons_of_mem _ hx)
      split
      · exact ih hrest hmem hseen hlater
      · refine List.mem_cons_of_mem _ (ih hrest hmem ?_ hlater)
        simp only [List.mem_cons, not_or]
        exact ⟨hother.symm, hseen⟩

/-- Of a sorted list a strictly sorted one is left. -/
theorem keepFirst_sorted {times : List Int} (seen : List Int)
    (hsorted : times.Pairwise (· ≤ ·)) : (keepFirst seen times).Pairwise (· < ·) := by
  induction times generalizing seen with
  | nil => simp [keepFirst]
  | cons first rest ih =>
    obtain ⟨hfirst, hrest⟩ := List.pairwise_cons.mp hsorted
    simp only [keepFirst]
    split
    · exact ih _ hrest
    · refine List.pairwise_cons.mpr ⟨fun t ht => ?_, ih _ hrest⟩
      obtain ⟨hmem, hsecond⟩ := mem_keepFirst ht
      have hle := hfirst t hmem
      have hne : first ≠ t := by
        rintro rfl
        exact hsecond List.mem_cons_self
      omega

/-- A sorted list begins with its elements below a bound. -/
theorem eq_filter_lt_append {times : List Int} (hsorted : times.Pairwise (· < ·)) (bound : Int) :
    times = times.filter (· < bound) ++ times.filter (bound ≤ ·) := by
  induction times with
  | nil => rfl
  | cons first rest ih =>
    obtain ⟨hfirst, hrest⟩ := List.pairwise_cons.mp hsorted
    by_cases hlt : first < bound
    · have hnot : ¬ bound ≤ first := by omega
      simpa [hlt, hnot] using ih hrest
    · have hle : bound ≤ first := by omega
      have hnone : rest.filter (· < bound) = [] := by
        refine List.filter_eq_nil_iff.mpr fun t ht => ?_
        have hlater := hfirst t ht
        simp only [decide_eq_true_eq]
        omega
      have hall : rest.filter (bound ≤ ·) = rest := by
        refine List.filter_eq_self.mpr fun t ht => ?_
        have hlater := hfirst t ht
        simp only [decide_eq_true_eq]
        omega
      simp [hlt, hle, hnone, hall]

theorem mem_ite_nil {p : Prop} [Decidable p] {times : List Int} {t : Int} :
    t ∈ (if p then times else []) ↔ p ∧ t ∈ times := by
  split <;> simp_all

/-! ## Section 2: The runs seen from an instant -/

section Runs

variable (env : Environment) (schedule : CalendarSchedule) (timezone : Location)

/-- The runs `EvaluateRuleMultiple` finds for a rule; a rule that fails has none. -/
def ruleRuns (rule : CalendarRule) (start : Int) : List Int :=
  match evaluateRuleMultiple env.evaluation schedule.businessCalendar rule timezone start
      env.maxFutureCalculations with
  | .ok times => times
  | .error _ => []

/-- The rule's evaluation comes to an end. -/
def RuleEnds (rule : CalendarRule) (start : Int) : Prop :=
  evaluateRuleMultiple env.evaluation schedule.businessCalendar rule timezone start
    env.maxFutureCalculations ≠ .error .loops

/-- A run of a rule or an extra time of an exception that is seen from an instant. -/
def Candidate (start c : Int) : Prop :=
  (∃ rule ∈ schedule.rules,
    c ∈ ruleRuns env schedule timezone rule start ∧ c < start + env.maxLookahead) ∨
  c ∈ extraCandidates schedule timezone start (start + env.maxLookahead)

/-- What the exceptions make of the candidates. -/
def Occurs (start x : Int) : Prop :=
  ∃ c, Candidate env schedule timezone start c ∧ x ∈ outcomes schedule.exceptions timezone c

variable {env schedule timezone}

theorem ruleCandidates_of_ends {start searchEnd : Int} {rules : List CalendarRule}
    (hends : ∀ rule ∈ rules, RuleEnds env schedule timezone rule start) :
    ruleCandidates env schedule timezone start searchEnd rules =
      .ok (rules.flatMap fun rule =>
        (ruleRuns env schedule timezone rule start).filter (· < searchEnd)) := by
  induction rules with
  | nil => rfl
  | cons rule rest ih =>
    have hrest := ih fun rule hrule => hends rule (List.mem_cons_of_mem _ hrule)
    have hrule := hends rule List.mem_cons_self
    simp only [ruleCandidates, RuleEnds, ruleRuns, List.flatMap_cons] at hrest hrule ⊢
    cases heval : evaluateRuleMultiple env.evaluation schedule.businessCalendar rule timezone start
        env.maxFutureCalculations with
    | error stop =>
      cases stop with
      | loops => exact absurd heval hrule
      | error err => simpa using hrest
    | ok times => simp [hrest]

theorem ends_of_ruleCandidates {start searchEnd : Int} {rules : List CalendarRule}
    {times : List Int}
    (h : ruleCandidates env schedule timezone start searchEnd rules = .ok times) :
    ∀ rule ∈ rules, RuleEnds env schedule timezone rule start := by
  induction rules generalizing times with
  | nil => simp
  | cons rule rest ih =>
    simp only [ruleCandidates] at h
    intro r hr
    cases heval : evaluateRuleMultiple env.evaluation schedule.businessCalendar rule timezone start
        env.maxFutureCalculations with
    | error stop =>
      cases stop with
      | loops => simp [heval] at h
      | error err =>
        simp only [heval] at h
        rcases List.mem_cons.mp hr with rfl | hr
        · simp [RuleEnds, heval]
        · exact ih h r hr
    | ok found =>
      cases hrest : ruleCandidates env schedule timezone start searchEnd rest with
      | error stop => simp [heval, hrest] at h
      | ok others =>
        rcases List.mem_cons.mp hr with rfl | hr
        · simp [RuleEnds, heval]
        · exact ih hrest r hr

theorem mem_extraCandidates {start searchEnd c : Int} :
    c ∈ extraCandidates schedule timezone start searchEnd ↔
      (∃ exception ∈ schedule.exceptions, (exception.type = .extra ∧ exception.date ≠ none) ∧
        c ∈ atTimes timezone (timezone.dateOf exception.day) exception.extraTimes) ∧
      start < c ∧ c < searchEnd := by
  simp only [extraCandidates, List.mem_flatMap, mem_ite_nil, List.mem_filter, Bool.and_eq_true,
    decide_eq_true_eq]
  constructor
  · rintro ⟨exception, hmem, hextra, hc, hwindow⟩
    exact ⟨⟨exception, hmem, hextra, hc⟩, hwindow⟩
  · rintro ⟨⟨exception, hmem, hextra, hc⟩, hwindow⟩
    exact ⟨exception, hmem, hextra, hc, hwindow⟩

theorem ruleRuns_spec {rule : CalendarRule} {start c : Int}
    (h : c ∈ ruleRuns env schedule timezone rule start) : RunAfter start c := by
  unfold ruleRuns at h
  split at h
  next times heval => exact evaluateRuleMultiple_spec heval c h
  next => cases h

theorem Candidate.runAfter {start c : Int} (h : Candidate env schedule timezone start c) :
    RunAfter start c := by
  rcases h with ⟨rule, -, hc, -⟩ | hc
  · exact ruleRuns_spec hc
  · exact extraCandidates_spec hc

theorem Candidate.lt_lookahead {start c : Int} (h : Candidate env schedule timezone start c) :
    c < start + env.maxLookahead := by
  rcases h with ⟨rule, -, -, hc⟩ | hc
  · exact hc
  · exact (mem_extraCandidates.mp hc).2.2

theorem eq_of_unix_eq {x y : Int} (hx : x % second = 0) (hy : y % second = 0)
    (h : unix x = unix y) : x = y := by
  simp only [unix, second] at hx hy h
  omega

/-- The candidates are computed when every rule comes to an end, and are those of the rules and of
the EXTRA exceptions. -/
theorem candidateTimes_of_ends {start : Int}
    (hends : ∀ rule ∈ schedule.rules, RuleEnds env schedule timezone rule start) :
    ∃ times, candidateTimes env schedule timezone start = .ok times ∧
      ∀ c, c ∈ times ↔ Candidate env schedule timezone start c := by
  refine ⟨_, by simp only [candidateTimes, ruleCandidates_of_ends hends]; rfl, fun c => ?_⟩
  have hcandidate : ∀ c, c ∈ sortTimes ((schedule.rules.flatMap fun rule =>
      (ruleRuns env schedule timezone rule start).filter (· < start + env.maxLookahead)) ++
      extraCandidates schedule timezone start (start + env.maxLookahead)) ↔
      Candidate env schedule timezone start c := by
    simp [mem_sortTimes, Candidate]
  constructor
  · exact fun h => (hcandidate c).mp (mem_keepFirst h).1
  · intro h
    refine mem_keepFirst_of_first (sortTimes_sorted _) ((hcandidate c).mpr h) (by simp)
      fun x hx hlt heq => ?_
    -- Candidates fall on whole seconds, so only equal ones share a second.
    have hsame := eq_of_unix_eq ((hcandidate x).mp hx).runAfter.whole h.runAfter.whole heq
    omega

theorem ends_of_candidateTimes {start : Int} {times : List Int}
    (h : candidateTimes env schedule timezone start = .ok times) :
    ∀ rule ∈ schedule.rules, RuleEnds env schedule timezone rule start := by
  unfold candidateTimes at h
  cases hrules : ruleCandidates env schedule timezone start (start + env.maxLookahead)
      schedule.rules with
  | error stop => simp [hrules] at h
  | ok ofRules => exact ends_of_ruleCandidates hrules

theorem mem_candidateTimes {start : Int} {times : List Int}
    (h : candidateTimes env schedule timezone start = .ok times) (c : Int) :
    c ∈ times ↔ Candidate env schedule timezone start c := by
  obtain ⟨others, hothers, hmem⟩ := candidateTimes_of_ends (ends_of_candidateTimes h)
  rw [h, Except.ok.injEq] at hothers
  exact hothers ▸ hmem c

/-! ## Section 3: Preview and execution -/

variable (env schedule)

/-- `CalculateNextRun` of an engine that does not cache; `none` when it fails. -/
def nextRun (start : Int) : Option Int :=
  (calculateNextRun env.uncached 0 0 [] (some schedule) start).2.toOption

/-- The runs that are executed: `CalculateNextRun` iterated, as far as the lookahead goes and up to
`count`. They are those of every long enough iteration. -/
def ExecutedRuns (start count : Int) (runs : List Int) : Prop :=
  ∃ enough, ∀ iterations, enough ≤ iterations →
    ((iterateNext (nextRun env schedule) iterations start).filter
      (· < start + env.maxLookahead)).take count.toNat = runs

/-- `CalculateNextRuns` of an engine that does not cache returns the runs that are executed, or
the error that there are none. -/
def PreviewAgrees (start count : Int) : Prop :=
  ∃ runs, ExecutedRuns env schedule start count runs ∧
    match (calculateNextRuns env.uncached 0 0 [] (some schedule) start count).2 with
    | .ok preview => preview = runs
    | .error (.error err) => runs = [] ∧ err.code = "NO_EXECUTION_TIME"
    | .error .loops => False

variable (timezone)

/-- A run from which another one before the horizon is looked for. -/
def Visited (start horizon t : Int) : Prop :=
  Occurs env schedule timezone start t ∧
    ∃ u, Occurs env schedule timezone start u ∧ t < u ∧ u < horizon

/-- Before the horizon, the later runs do not depend on the run they are looked for from. -/
structure Predictable (start horizon : Int) : Prop where
  within : horizon ≤ start + env.maxLookahead
  ends : ∀ t, t = start ∨ Visited env schedule timezone start horizon t →
    ∀ rule ∈ schedule.rules, RuleEnds env schedule timezone rule t
  /-- The rules find the runs they have found from the start, those that are still ahead. -/
  steady : ∀ t, Visited env schedule timezone start horizon t → ∀ c, c < horizon →
    (Candidate env schedule timezone t c ↔ Candidate env schedule timezone start c ∧ t < c)
  /-- No exception carries a run back past one that is visited, or from beyond the horizon. -/
  notBack : ∀ t, Visited env schedule timezone start horizon t →
    ∀ c, Candidate env schedule timezone t c →
      ∀ x ∈ outcomes schedule.exceptions timezone c, x < horizon →
        t < x ∧ (c < horizon ∨ Occurs env schedule timezone start x)
  /-- No exception carries a run forward past one that is visited, unless it also comes from a
  candidate that is ahead. -/
  notLost : ∀ t, Visited env schedule timezone start horizon t →
    ∀ x, Occurs env schedule timezone start x → t < x → x < horizon →
      ∃ c, x ∈ outcomes schedule.exceptions timezone c ∧
        (Candidate env schedule timezone start c ∧ t < c ∧ c < horizon ∨
          Candidate env schedule timezone t c)
  /-- No two runs fall into one second. -/
  distinct : ∀ x y, Occurs env schedule timezone start x → Occurs env schedule timezone start y →
    x < horizon → y < horizon → unix x = unix y → x = y

/-- All runs lie before the end of the lookahead, and from the last one on, none is carried back
before it. -/
structure Exhausted (start horizon : Int) : Prop where
  lookahead : horizon = start + env.maxLookahead
  before : ∀ x, Occurs env schedule timezone start x → x < horizon
  beyond : ∀ t, horizon ≤ t ∨ Occurs env schedule timezone start t ∧
    (∀ x, Occurs env schedule timezone start x → x ≤ t) →
      ∀ x, Occurs env schedule timezone t x → horizon ≤ x

/-- The horizon is far enough: `count` runs lie before it, or all of them do. -/
def FarEnough (start horizon count : Int) : Prop :=
  (∃ runs : List Int, runs.Nodup ∧ count ≤ runs.length ∧
    ∀ x ∈ runs, Occurs env schedule timezone start x ∧ x < horizon) ∨
  Exhausted env schedule timezone start horizon

variable {env schedule timezone}

theorem checkRequest_of_valid (hvalid : validateSchedule env (some schedule) = .ok ())
    {count : Int} (hpos : 0 < count) (hmax : count ≤ env.maxPreviewCount) :
    checkRequest env.uncached (some schedule) count = .ok schedule := by
  have hpos' : ¬ count ≤ 0 := by omega
  have hmax' : ¬ env.maxPreviewCount < count := by omega
  rw [checkRequest_uncached]
  simp only [checkRequest, if_neg hpos', if_neg hmax', hvalid]

theorem calculateNextRuns_uncached (hvalid : validateSchedule env (some schedule) = .ok ())
    {count : Int} (hpos : 0 < count) (hmax : count ≤ env.maxPreviewCount) (start : Int) :
    (calculateNextRuns env.uncached 0 0 [] (some schedule) start count).2 =
      computeNextRuns env schedule start count := by
  simp only [calculateNextRuns, checkRequest_of_valid hvalid hpos hmax]
  exact computeNextRuns_uncached schedule start count

theorem computeNextRuns_of_candidates (htimezone : env.getTimezone schedule.timezone = .ok timezone)
    {start : Int} {candidates : List Int}
    (hcandidates : candidateTimes env schedule timezone start = .ok candidates) (count : Int) :
    computeNextRuns env schedule start count =
      if candidates = [] then fail (.noExecutionTime "no rules produced valid execution times")
      else .ok ((finalTimes schedule timezone candidates).take count.toNat) := by
  simp only [computeNextRuns, htimezone, hcandidates]
  cases candidates with
  | nil => rfl
  | cons c rest => rfl

theorem finalTimes_nil : finalTimes schedule timezone [] = [] := by
  simp [finalTimes, applyExceptions, removeDuplicateTimes, keepFirst, sortTimes]

theorem finalTimes_sorted {start : Int} {candidates : List Int}
    (hcandidates : candidateTimes env schedule timezone start = .ok candidates) :
    (finalTimes schedule timezone candidates).Pairwise (· < ·) :=
  keepFirst_sorted _ (applyExceptions_sorted (candidateTimes_sorted hcandidates))

/-- The next run is the first of the final times. -/
theorem nextRun_of_candidates (hvalid : validateSchedule env (some schedule) = .ok ())
    (hmax : 1 ≤ env.maxPreviewCount)
    (htimezone : env.getTimezone schedule.timezone = .ok timezone) {start : Int}
    {candidates : List Int}
    (hcandidates : candidateTimes env schedule timezone start = .ok candidates) :
    nextRun env schedule start = (finalTimes schedule timezone candidates).head? := by
  have hruns := calculateNextRuns_uncached hvalid Int.one_pos hmax start
  rw [computeNextRuns_of_candidates htimezone hcandidates] at hruns
  unfold nextRun calculateNextRun
  generalize calculateNextRuns env.uncached 0 0 [] (some schedule) start 1 = result at hruns
  obtain ⟨cache, result⟩ := result
  dsimp only at hruns
  subst hruns
  by_cases hnone : candidates = []
  · simp [hnone, finalTimes_nil, fail, Except.toOption]
  · rw [if_neg hnone]
    cases finalTimes schedule timezone candidates with
    | nil => simp [fail, Except.toOption]
    | cons first rest => simp [Except.toOption]

/-- A next run comes from candidates. -/
theorem candidates_of_nextRun (hvalid : validateSchedule env (some schedule) = .ok ())
    (hmax : 1 ≤ env.maxPreviewCount)
    (htimezone : env.getTimezone schedule.timezone = .ok timezone) {start t : Int}
    (h : nextRun env schedule start = some t) :
    ∃ candidates, candidateTimes env schedule timezone start = .ok candidates := by
  cases hcandidates : candidateTimes env schedule timezone start with
  | ok candidates => exact ⟨candidates, rfl⟩
  | error stop =>
    have hruns := calculateNextRuns_uncached hvalid Int.one_pos hmax start
    simp only [computeNextRuns, htimezone, hcandidates] at hruns
    unfold nextRun calculateNextRun at h
    generalize calculateNextRuns env.uncached 0 0 [] (some schedule) start 1 = result at hruns h
    obtain ⟨cache, result⟩ := result
    dsimp only at hruns
    simp [hruns, Except.toOption] at h

/-- The next run is the least of what the exceptions make of the candidates. -/
theorem nextRun_some (hvalid : validateSchedule env (some schedule) = .ok ())
    (hmax : 1 ≤ env.maxPreviewCount)
    (htimezone : env.getTimezone schedule.timezone = .ok timezone) {start t : Int}
    (h : nextRun env schedule start = some t) :
    Occurs env schedule timezone start t ∧
      ∀ x, Occurs env schedule timezone start x → t ≤ x := by
  obtain ⟨candidates, hcandidates⟩ := candidates_of_nextRun hvalid hmax htimezone h
  rw [nextRun_of_candidates hvalid hmax htimezone hcandidates] at h
  obtain ⟨⟨c, hc, ht⟩, hleast⟩ := head_finalTimes (candidateTimes_sorted hcandidates) h
  refine ⟨⟨c, (mem_candidateTimes hcandidates c).mp hc, ht⟩, ?_⟩
  rintro x ⟨c', hc', hx⟩
  exact hleast c' ((mem_candidateTimes hcandidates c').mpr hc') x hx

theorem nextRun_none (hvalid : validateSchedule env (some schedule) = .ok ())
    (hmax : 1 ≤ env.maxPreviewCount)
    (htimezone : env.getTimezone schedule.timezone = .ok timezone) {start : Int}
    (hends : ∀ rule ∈ schedule.rules, RuleEnds env schedule timezone rule start)
    (h : nextRun env schedule start = none) (x : Int) :
    ¬ Occurs env schedule timezone start x := by
  obtain ⟨candidates, hcandidates, hmem⟩ := candidateTimes_of_ends hends
  rw [nextRun_of_candidates hvalid hmax htimezone hcandidates, List.head?_eq_none_iff] at h
  rintro ⟨c, hc, hx⟩
  have hoccurs := mem_applyExceptions.mpr ⟨c, (hmem c).mpr hc, hx⟩
  rw [removeDuplicateTimes_eq_nil.mp h] at hoccurs
  cases hoccurs

/-- The final times that lie before a horizon. -/
def timesBefore (schedule : CalendarSchedule) (timezone : Location) (candidates : List Int)
    (horizon : Int) : List Int :=
  (finalTimes schedule timezone candidates).filter (· < horizon)

namespace Predictable

variable {start horizon : Int}

/-- Before the horizon the same runs are seen from every visited one, as far as they are ahead. -/
theorem occurs_iff (h : Predictable env schedule timezone start horizon) {t : Int}
    (ht : Visited env schedule timezone start horizon t) {x : Int} (hx : x < horizon) :
    Occurs env schedule timezone t x ↔ Occurs env schedule timezone start x ∧ t < x := by
  constructor
  · rintro ⟨c, hc, hmem⟩
    obtain ⟨hlater, hbefore | hoccurs⟩ := h.notBack t ht c hc x hmem hx
    · exact ⟨⟨c, ((h.steady t ht c hbefore).mp hc).1, hmem⟩, hlater⟩
    · exact ⟨hoccurs, hlater⟩
  · rintro ⟨hoccurs, hlater⟩
    obtain ⟨c, hmem, ⟨hc, htc, hbefore⟩ | hc⟩ := h.notLost t ht x hoccurs hlater hx
    · exact ⟨c, (h.steady t ht c hbefore).mpr ⟨hc, htc⟩, hmem⟩
    · exact ⟨c, hc, hmem⟩

/-- The final times before the horizon are the instants that occur before it. -/
theorem mem_finalTimes_iff (h : Predictable env schedule timezone start horizon)
    {candidates : List Int}
    (hcandidates : candidateTimes env schedule timezone start = .ok candidates) {x : Int}
    (hx : x < horizon) :
    x ∈ finalTimes schedule timezone candidates ↔ Occurs env schedule timezone start x := by
  have happlied : ∀ y, y ∈ applyExceptions candidates schedule.exceptions timezone ↔
      Occurs env schedule timezone start y := by
    intro y
    rw [mem_applyExceptions]
    simp only [mem_candidateTimes hcandidates, Occurs]
  have hsorted : (applyExceptions candidates schedule.exceptions timezone).Pairwise (· ≤ ·) :=
    applyExceptions_sorted (candidateTimes_sorted hcandidates)
  constructor
  · exact fun hmem => (happlied x).mp (mem_keepFirst hmem).1
  · intro hoccurs
    -- what falls into the second of `x` and comes first lies before the horizon, too
    refine mem_keepFirst_of_first hsorted ((happlied x).mpr hoccurs) (by simp)
      fun y hy hlt heq => ?_
    have hsame := h.distinct y x ((happlied y).mp hy) hoccurs (by omega) hx heq
    omega

/-- The next run after a visited one is the next instant that occurs before the horizon. -/
theorem nextRun_of_least (h : Predictable env schedule timezone start horizon)
    (hvalid : validateSchedule env (some schedule) = .ok ()) (hmax : 1 ≤ env.maxPreviewCount)
    (htimezone : env.getTimezone schedule.timezone = .ok timezone) {t u : Int}
    (ht : Occurs env schedule timezone start t)
    (hu : Occurs env schedule timezone start u) (hbefore : u < horizon) (hlt : t < u)
    (hleast : ∀ v, Occurs env schedule timezone start v → v < horizon → t < v → u ≤ v) :
    nextRun env schedule t = some u := by
  have hvisited : Visited env schedule timezone start horizon t := ⟨ht, u, hu, hlt, hbefore⟩
  have hseen := (h.occurs_iff hvisited hbefore).mpr ⟨hu, hlt⟩
  cases hnext : nextRun env schedule t with
  | none =>
    exact absurd hseen (nextRun_none hvalid hmax htimezone (h.ends t (.inr hvisited)) hnext u)
  | some v =>
    obtain ⟨hv, hmin⟩ := nextRun_some hvalid hmax htimezone hnext
    have hvu := hmin u hseen
    obtain ⟨hv', htv⟩ := (h.occurs_iff hvisited (by omega : v < horizon)).mp hv
    have huv := hleast v hv' (by omega) htv
    rw [Int.le_antisymm hvu huv]

/-- From the start, it is the first one. -/
theorem nextRun_start (h : Predictable env schedule timezone start horizon)
    (hvalid : validateSchedule env (some schedule) = .ok ()) (hmax : 1 ≤ env.maxPreviewCount)
    (htimezone : env.getTimezone schedule.timezone = .ok timezone) {u : Int}
    (hu : Occurs env schedule timezone start u)
    (hleast : ∀ v, Occurs env schedule timezone start v → u ≤ v) :
    nextRun env schedule start = some u := by
  cases hnext : nextRun env schedule start with
  | none => exact absurd hu (nextRun_none hvalid hmax htimezone (h.ends start (.inl rfl)) hnext u)
  | some v =>
    obtain ⟨hv, hmin⟩ := nextRun_some hvalid hmax htimezone hnext
    rw [Int.le_antisymm (hmin u hu) (hleast v hv)]

theorem mem_timesBefore (h : Predictable env schedule timezone start horizon)
    {candidates : List Int}
    (hcandidates : candidateTimes env schedule timezone start = .ok candidates) {x : Int} :
    x ∈ timesBefore schedule timezone candidates horizon ↔
      Occurs env schedule timezone start x ∧ x < horizon := by
  rw [timesBefore, List.mem_filter, decide_eq_true_eq]
  constructor
  · rintro ⟨hx, hlt⟩
    exact ⟨(h.mem_finalTimes_iff hcandidates hlt).mp hx, hlt⟩
  · rintro ⟨hx, hlt⟩
    exact ⟨(h.mem_finalTimes_iff hcandidates hlt).mpr hx, hlt⟩

theorem horizon_le (h : Predictable env schedule timezone start horizon) {candidates : List Int}
    (hcandidates : candidateTimes env schedule timezone start = .ok candidates) {x : Int}
    (hx : Occurs env schedule timezone start x)
    (hnot : x ∉ timesBefore schedule timezone candidates horizon) : horizon ≤ x := by
  by_contra hlt
  exact hnot ((h.mem_timesBefore hcandidates).mpr ⟨hx, by omega⟩)

/-- The next runs from the start on are the final times, as far as the horizon. -/
theorem isChain_timesBefore (h : Predictable env schedule timezone start horizon)
    (hvalid : validateSchedule env (some schedule) = .ok ()) (hmax : 1 ≤ env.maxPreviewCount)
    (htimezone : env.getTimezone schedule.timezone = .ok timezone) {candidates : List Int}
    (hcandidates : candidateTimes env schedule timezone start = .ok candidates) :
    (start :: timesBefore schedule timezone candidates horizon).IsChain
      fun t u => nextRun env schedule t = some u := by
  have hmem := fun x => @mem_timesBefore _ _ _ _ _ h _ hcandidates x
  have hsorted : (timesBefore schedule timezone candidates horizon).Pairwise (· < ·) :=
    (finalTimes_sorted hcandidates).filter _
  refine List.IsChain.cons (isChain_of_successor hsorted fun t ht u hu hlt hleast => ?_)
    fun u hu => ?_
  · exact h.nextRun_of_least hvalid hmax htimezone ((hmem t).mp ht).1 ((hmem u).mp hu).1
      ((hmem u).mp hu).2 hlt fun v hv hvlt htv => hleast v ((hmem v).mpr ⟨hv, hvlt⟩) htv
  · -- the first of them is the least instant that occurs at all
    have hu' := List.mem_of_mem_head? hu
    refine h.nextRun_start hvalid hmax htimezone ((hmem u).mp hu').1 fun v hv => ?_
    by_cases hv' : v ∈ timesBefore schedule timezone candidates horizon
    · obtain ⟨rest, hrest⟩ := List.head?_eq_some_iff.mp hu
      rw [hrest] at hv' hsorted
      rcases List.mem_cons.mp hv' with rfl | hv'
      · exact Int.le_refl _
      · exact Int.le_of_lt ((List.pairwise_cons.mp hsorted).1 v hv')
    · have hfar := h.horizon_le hcandidates hv hv'
      have hlt := ((hmem u).mp hu').2
      omega

/-- What follows the times before a horizon that is far enough is not among the first `count`. -/
theorem take_timesBefore (h : Predictable env schedule timezone start horizon)
    {candidates : List Int}
    (hcandidates : candidateTimes env schedule timezone start = .ok candidates) {count : Int}
    (hfar : FarEnough env schedule timezone start horizon count) {others : List Int}
    (hothers : Exhausted env schedule timezone start horizon → others = []) :
    (timesBefore schedule timezone candidates horizon ++ others).take count.toNat =
      (timesBefore schedule timezone candidates horizon).take count.toNat := by
  rcases hfar with ⟨runs, hnodup, hcount, hruns⟩ | hend
  · have hsubset : runs ⊆ timesBefore schedule timezone candidates horizon :=
      fun x hx => (h.mem_timesBefore hcandidates).mpr (hruns x hx)
    have hlength := (List.subperm_of_subset hnodup hsubset).length_le
    exact List.take_append_of_le_length (by omega)
  · rw [hothers hend, List.append_nil]

/-- From the last of them on, nothing occurs before the horizon. -/
theorem beyond_getLast (h : Predictable env schedule timezone start horizon)
    {candidates : List Int}
    (hcandidates : candidateTimes env schedule timezone start = .ok candidates)
    (hend : Exhausted env schedule timezone start horizon) :
    ∀ x, Occurs env schedule timezone
      ((start :: timesBefore schedule timezone candidates horizon).getLast
        (List.cons_ne_nil _ _)) x → horizon ≤ x := by
  have hmem := fun x => @mem_timesBefore _ _ _ _ _ h _ hcandidates x
  have hsorted : (timesBefore schedule timezone candidates horizon).Pairwise (· < ·) :=
    (finalTimes_sorted hcandidates).filter _
  have hbeyond := fun x => @horizon_le _ _ _ _ _ h _ hcandidates x
  generalize timesBefore schedule timezone candidates horizon = before at hmem hsorted hbeyond
  cases before with
  | nil => exact fun x hx => hbeyond x hx List.not_mem_nil
  | cons first rest =>
    have hne : first :: rest ≠ [] := List.cons_ne_nil _ _
    rw [List.getLast_cons hne]
    refine hend.beyond _ (.inr ⟨((hmem _).mp (List.getLast_mem hne)).1, fun x hx => ?_⟩)
    have hx' : x ∈ first :: rest := (hmem x).mpr ⟨hx, hend.before x hx⟩
    exact (hsorted.imp Int.le_of_lt).rel_getLast hx'

end Predictable

/-- From an instant after which no run lies before the horizon, the iteration stays beyond it. -/
theorem Exhausted.forall_mem_iterateNext {start horizon : Int}
    (h : Exhausted env schedule timezone start horizon)
    (hvalid : validateSchedule env (some schedule) = .ok ()) (hmax : 1 ≤ env.maxPreviewCount)
    (htimezone : env.getTimezone schedule.timezone = .ok timezone) {t : Int}
    (ht : ∀ x, Occurs env schedule timezone t x → horizon ≤ x) (n : Nat) :
    ∀ u ∈ iterateNext (nextRun env schedule) n t, horizon ≤ u := by
  have hstep : ∀ t u, (∀ x, Occurs env schedule timezone t x → horizon ≤ x) →
      nextRun env schedule t = some u →
      (∀ x, Occurs env schedule timezone u x → horizon ≤ x) ∧ horizon ≤ u := by
    intro t u ht hnext
    have hu := ht u (nextRun_some hvalid hmax htimezone hnext).1
    exact ⟨h.beyond u (.inl hu), hu⟩
  exact Nzovu.Foundation.forall_mem_iterateNext hstep ht n

end Runs

/-! ## Section 4: A run every midnight, and two runs within a minute -/

/-- At midnight of a day of UTC, the date offers that instant. -/
theorem atTimes_midnight (k : Int) : atTimes utc (utc.dateOf (k * day)) [{ hour := 0 }] =
    [k * day] := by
  have hday : utc.civilDay (k * day) = k := by
    simp only [Location.civilDay, Location.civilSeconds, unix, utc, day, hour, minute, second]
    omega
  have hcivil : ∀ civil, utc.fromCivil civil = civil := fun _ => rfl
  simp only [atTimes, Location.dateOf, hday, Location.date, dayNumber_dateOfDay, List.map_cons,
    List.map_nil, TimeOfDay.seconds, hcivil]
  simp only [day, hour, minute, second]
  congr 1
  omega

/-- The rule that runs every midnight. -/
def midnightRule : CalendarRule :=
  { rule := some (.daily ⟨1, false, none⟩), executionTimes := [{ hour := 0 }] }

/-- Its next run is the next midnight. -/
theorem evaluateRule_midnight (ctx : EvaluationContext) (cal : Option BusinessCalendar)
    (t : Int) : evaluateRule ctx cal midnightRule utc t = .ok ((t / day + 1) * day) := by
  have hplace : truncateDay t = t / day * day := by
    simp only [truncateDay]
    have hdiv := Int.emod_add_mul_ediv t day
    have hcomm := Int.mul_comm day (t / day)
    omega
  have hcandidates : ∀ k, Daily.candidates utc ⟨1, false, none⟩ 1 t [{ hour := 0 }] (k * day) =
      [k * day] := by
    intro k
    simp [Daily.candidates, Daily.isValidDay, atTimes_midnight]
  -- The midnight of the day itself is not after `t`, the next one is.
  have hpast : ¬ t < t / day * day := by
    have hle := Int.ediv_mul_le t (b := day) (by decide)
    omega
  have hahead : t < t / day * day + day := by
    have hlt := Int.lt_ediv_add_one_mul_self t (b := day) (by decide)
    rw [Int.add_mul, Int.one_mul] at hlt
    exact hlt
  have hnext : t / day * day + day = (t / day + 1) * day := by
    rw [Int.add_mul, Int.one_mul]
  have hfrom : evaluateRule ctx cal midnightRule utc t =
      searchResult "no valid execution time found within 1 year" (search t
        (fun currentDate => .ok (Daily.candidates utc ⟨1, false, none⟩ 1 t [{ hour := 0 }]
          currentDate)) (· + day) (363 + 1 + 1) (truncateDay t)) := rfl
  rw [hfrom, hplace]
  generalize 363 = attempts
  simp only [search, hnext, hcandidates, List.find?_cons, hpast, decide_false, List.find?_nil]
  simp only [← hnext, hahead, decide_true, searchResult]

/-- The loop of `EvaluateMultiple` finds the midnights in order. -/
theorem evaluateMultiple_midnight (ctx : EvaluationContext) (cal : Option BusinessCalendar)
    (count : Nat) (t : Int) :
    evaluateMultiple (evaluateRule ctx cal midnightRule utc) minute count t =
      .ok ((List.range count).map fun i : Nat => (t / day + 1 + i) * day) := by
  induction count generalizing t with
  | zero => rfl
  | succ count ih =>
    have hnext : ((t / day + 1) * day + minute) / day = t / day + 1 := by
      simp only [day, hour, minute, second]
      omega
    simp only [evaluateMultiple, evaluateRule_midnight, ih, hnext, List.range_succ_eq_map,
      List.map_cons, List.map_map, Int.natCast_zero, Int.add_zero]
    congr 2
    refine List.map_congr_left fun i _ => ?_
    simp only [Function.comp, Nat.succ_eq_add_one, Int.natCast_add, Int.natCast_one]
    congr 1
    omega

/-- The candidates of a schedule that runs every midnight are the midnights of the lookahead. -/
theorem candidate_midnight {env : Environment}
    (hmany : env.maxLookahead ≤ env.maxFutureCalculations * day) (t c : Int) :
    Candidate env (dailyAt 0) utc t c ↔ c % day = 0 ∧ t < c ∧ c < t + env.maxLookahead := by
  have hextra : ¬ c ∈ extraCandidates (dailyAt 0) utc t (t + env.maxLookahead) := by
    simp [extraCandidates, dailyAt]
  have hruns : ruleRuns env (dailyAt 0) utc midnightRule t =
      (List.range env.maxFutureCalculations).map fun i : Nat => (t / day + 1 + i) * day := by
    have hmultiple := evaluateMultiple_midnight env.evaluation (dailyAt 0).businessCalendar
      env.maxFutureCalculations t
    have hstride : midnightRule.stride = minute := rfl
    simp only [ruleRuns, evaluateRuleMultiple, hstride, hmultiple]
  simp only [Candidate, hextra, or_false]
  have hrules : (dailyAt 0).rules = [midnightRule] := rfl
  simp only [hrules, List.mem_singleton, exists_eq_left, hruns, List.mem_map, List.mem_range]
  simp only [day, hour, minute, second] at hmany ⊢
  constructor
  · rintro ⟨⟨i, hi, rfl⟩, hlt⟩
    refine ⟨?_, ?_, hlt⟩ <;> omega
  · rintro ⟨hwhole, hlater, hlt⟩
    refine ⟨⟨(c / (24 * (60 * (60 * 1000000000))) - t / (24 * (60 * (60 * 1000000000))) - 1).toNat,
      ?_, ?_⟩, hlt⟩ <;> omega

theorem outcomes_dailyAt (c : Int) : outcomes (dailyAt 0).exceptions utc c = [c] :=
  outcomes_of_none rfl

theorem occurs_midnight {env : Environment} (t x : Int) :
    Occurs env (dailyAt 0) utc t x ↔ Candidate env (dailyAt 0) utc t x := by
  simp [Occurs, outcomes_dailyAt]

/-- An engine with the default limits. -/
def defaultEnvironment : Environment :=
  { utcEnvironment with maxFutureCalculations := 1000 }

theorem candidate_midnight_default (t c : Int) :
    Candidate defaultEnvironment (dailyAt 0) utc t c ↔
      c % day = 0 ∧ t < c ∧ c < t + defaultEnvironment.maxLookahead :=
  candidate_midnight (by decide) t c

/-- A run every midnight is predictable, up to the end of the lookahead. -/
theorem predictable_midnight (start : Int) :
    Predictable defaultEnvironment (dailyAt 0) utc start
      (start + defaultEnvironment.maxLookahead) := by
  have hends : ∀ t, ∀ rule ∈ (dailyAt 0).rules,
      RuleEnds defaultEnvironment (dailyAt 0) utc rule t := by
    intro t rule hrule
    obtain rfl : rule = midnightRule := List.mem_singleton.mp hrule
    have hmultiple := evaluateMultiple_midnight defaultEnvironment.evaluation
      (dailyAt 0).businessCalendar defaultEnvironment.maxFutureCalculations t
    have hstride : midnightRule.stride = minute := rfl
    simp [RuleEnds, evaluateRuleMultiple, hstride, hmultiple]
  have hlater : ∀ t, Visited defaultEnvironment (dailyAt 0) utc start
      (start + defaultEnvironment.maxLookahead) t → start < t := by
    rintro t ⟨ht, -⟩
    rw [occurs_midnight, candidate_midnight_default] at ht
    exact ht.2.1
  refine ⟨Int.le_refl _, fun t _ => hends t, fun t ht c hc => ?_, fun t ht c hc x hx hlt => ?_,
    fun t ht x hx htx hlt => ?_, fun x y hx hy _ _ heq => ?_⟩
  · have hstart := hlater t ht
    rw [candidate_midnight_default, candidate_midnight_default]
    omega
  -- Without exceptions a run is its own outcome.
  · rw [outcomes_dailyAt, List.mem_singleton] at hx
    exact ⟨hx ▸ hc.runAfter.after, .inl (hx ▸ hlt)⟩
  · rw [occurs_midnight] at hx
    exact ⟨x, by simp [outcomes_dailyAt], .inl ⟨hx, htx, hlt⟩⟩
  · rw [occurs_midnight] at hx hy
    exact eq_of_unix_eq hx.runAfter.whole hy.runAfter.whole heq

theorem exhausted_midnight (start : Int) :
    Exhausted defaultEnvironment (dailyAt 0) utc start
      (start + defaultEnvironment.maxLookahead) := by
  refine ⟨rfl, fun x hx => ?_, ?_⟩
  · rw [occurs_midnight] at hx
    exact hx.lt_lookahead
  · rintro t (hbeyond | ⟨ht, hlast⟩) x hx
    · rw [occurs_midnight] at hx
      have hlater := hx.runAfter.after
      omega
    · -- a midnight after the last one of the lookahead
      by_contra hbefore
      rw [occurs_midnight, candidate_midnight_default] at ht hx
      have hle := hlast x
        ((occurs_midnight _ _).mpr ((candidate_midnight_default _ _).mpr (by omega)))
      omega

/-- A daily schedule with two execution times in one minute. -/
def twiceAMinute : CalendarSchedule where
  type := .daily
  rules := [{ rule := some (.daily ⟨1, false, none⟩)
              executionTimes := [{ hour := 9 }, { hour := 9, second := 30 }] }]
  timezone := "UTC"

end Nzovu.Calendar
