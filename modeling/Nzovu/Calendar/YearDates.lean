import Nzovu.Calendar.Searching
import Nzovu.Calendar.Validity

/-!
# Yearly Rules

A yearly rule names one date of the year. Its evaluator looks at the year it is asked in and at the
years after it, and always finds a run, within two years. The engine asks it for a batch of runs and
keeps those before the end of its lookahead of 365 days: the next run after a run of the rule lies
365 or 366 days ahead.

- Section 1: the date in a year.
- Section 2: what the evaluator finds.
- Section 3: what the engine makes of a single rule.
- Section 4: when the next occurrence is returned.
- Section 5: after a run.
-/

namespace Nzovu.Calendar

open Nzovu.Foundation
open Nzovu.Foundation.CivilTime

namespace Yearly

/-! ## Section 1: The date in a year -/

/-- The day of the month in one year: February 29 is February 28 unless the year is a leap year. -/
def namedDay (yearly : YearlyRule) (year : Int) : Int :=
  if yearly.month = 2 ∧ yearly.day = 29 ∧ ¬ IsLeap year then 28 else yearly.day

/-- The civil day of the rule in one year. -/
def yearlyDay (yearly : YearlyRule) (year : Int) : Int :=
  dayNumber year yearly.month (namedDay yearly year)

/-- Month and day exist in every year. -/
def ExistsEveryYear (yearly : YearlyRule) : Prop :=
  ∀ year, namedDay yearly year ≤ lengthOfMonth year yearly.month

theorem isLeapYear_iff (year : Int) : isLeapYear year = true ↔ IsLeap year := by
  simp only [isLeapYear, IsLeap, ne_eq, Bool.and_eq_true, decide_eq_true_eq, Bool.or_eq_true,
    ← Int.dvd_iff_tmod_eq_zero, ← Int.dvd_iff_emod_eq_zero, decide_not, Bool.not_eq_true',
    decide_eq_false_iff_not]

/-- The length of the month, found as the day before the first of the next. -/
theorem daysInMonth_eq {year month : Int} (h : 1 ≤ month ∧ month ≤ 12) :
    daysInMonth year month = lengthOfMonth year month := by
  have hlength := @monthStart_lengthOfMonth year month h
  have hlong := monthStart_succ (monthIndex year month)
  have hnext : monthIndex year (month + 1) = monthIndex year month + 1 := by
    unfold monthIndex
    omega
  have hday : utc.civilDay (utc.date year (month + 1) 1 0 0 - day) =
      monthStart (monthIndex year month) + (lengthOfMonth year month - 1) := by
    rw [Location.fixed_utc.civilDay_eq, Location.fixed_utc.date_eq, dayNumber_eq, hnext]
    simp only [day, hour, minute, second]
    omega
  rw [daysInMonth, Location.dateOf, hday, dateOfDay_monthStart (by omega) (by omega)]
  exact Int.sub_add_cancel _ 1

theorem namedDay_pos {yearly : YearlyRule} (h : 1 ≤ yearly.day) (year : Int) :
    1 ≤ namedDay yearly year := by
  unfold namedDay
  split <;> omega

/-! ## Section 2: What the evaluator finds -/

/-- A valid yearly rule, for a date that exists in every year, in a zone with a fixed offset. -/
structure OnYears (ctx : EvaluationContext) (inlineCalendar : Option BusinessCalendar)
    (rule : CalendarRule) (yearly : YearlyRule) (timezone : Location) (offset : Int) : Prop where
  config : rule.rule = some (.yearly yearly)
  valid : validateRule ctx inlineCalendar rule = .ok ()
  everyYear : ExistsEveryYear yearly
  fixed : timezone.Fixed offset

/-- The instants of one year. -/
def offers (offset : Int) (rule : CalendarRule) (yearly : YearlyRule) (year : Int) : List Int :=
  instantsOn offset (rule.timesOr {}) (yearlyDay yearly year)

/-- The run after `s`: the first instant of its year that is later, in the order in which the
execution times are listed; else the first one listed of the next year. -/
def following (timezone : Location) (offset : Int) (rule : CalendarRule) (yearly : YearlyRule)
    (s : Int) : Int :=
  let year := (timezone.dateOf s).year
  ((offers offset rule yearly year).find? (s < ·)).getD
    ((offers offset rule yearly (year + 1)).headD 0)

namespace OnYears

variable {ctx : EvaluationContext} {inlineCalendar : Option BusinessCalendar}
  {rule : CalendarRule} {yearly : YearlyRule} {timezone : Location} {offset : Int}
  (h : OnYears ctx inlineCalendar rule yearly timezone offset)
include h

theorem validated :
    (1 ≤ yearly.month ∧ yearly.month ≤ 12) ∧ 1 ≤ yearly.day ∧
      (yearly.month = 2 ∧ yearly.day = 29 → yearly.adjustForLeapYear = true) ∧
      ∀ t ∈ rule.timesOr {}, 0 ≤ t.seconds ∧ t.seconds < 86400 := by
  have hvalid := h.valid
  simp only [validateRule, h.config, validate] at hvalid
  split at hvalid
  · cases hvalid
  next hmonth =>
    split at hvalid
    · cases hvalid
    next hday =>
      split at hvalid
      · cases hvalid
      next hleap =>
        refine ⟨by omega, by omega, fun hfebruary => ?_, fun t =>
          CalendarRule.mem_timesOr hvalid (by decide)⟩
        by_contra hadjust
        exact hleap ⟨hfebruary.1, hfebruary.2, by simpa using hadjust⟩

/-- Every year offers the instants of the rule's date. -/
theorem candidates_eq (year : Int) :
    candidates timezone yearly (rule.timesOr {}) year = offers offset rule yearly year := by
  obtain ⟨hmonth, -, hleap, -⟩ := h.validated
  have hadjusted : (if yearly.month = 2 ∧ yearly.day = 29 ∧ isLeapYear year = false then
      if yearly.adjustForLeapYear then some 28 else none else some yearly.day) =
      some (namedDay yearly year) := by
    unfold namedDay
    have hcases : isLeapYear year = false ↔ ¬ IsLeap year := by
      rw [← isLeapYear_iff, Bool.not_eq_true]
    simp only [hcases]
    split
    next hfebruary => rw [if_pos (hleap ⟨hfebruary.1, hfebruary.2.1⟩)]
    next => rfl
  have htarget : targetDay yearly year = some (namedDay yearly year) := by
    unfold targetDay
    rw [hadjusted]
    simp [Option.filter, daysInMonth_eq hmonth, h.everyYear year]
  simp only [candidates, htarget, atTimes_eq_instantsOn h.fixed]
  rfl

theorem civilDay_of_mem {year t : Int} (ht : t ∈ offers offset rule yearly year) :
    timezone.civilDay t = yearlyDay yearly year :=
  civilDay_of_mem_instantsOn h.fixed h.validated.2.2.2 ht

/-- The date lies in its year. -/
theorem inYear (year : Int) :
    yearStart year ≤ yearlyDay yearly year ∧ yearlyDay yearly year < yearStart (year + 1) := by
  obtain ⟨hmonth, hday, -, -⟩ := h.validated
  exact @Date.Valid.inYear ⟨year, yearly.month, namedDay yearly year⟩
    ⟨hmonth, namedDay_pos hday year, h.everyYear year⟩

/-- The instants of an earlier year come first. -/
theorem lt_of_year_lt {y z t u : Int} (hlt : y < z) (ht : t ∈ offers offset rule yearly y)
    (hu : u ∈ offers offset rule yearly z) : t < u := by
  have hearlier := h.civilDay_of_mem ht
  have hlater := h.civilDay_of_mem hu
  have hyear := (h.inYear y).2
  have hnext := (h.inYear z).1
  have hstarts : yearStart (y + 1) ≤ yearStart z := yearStart_mono (by omega)
  by_contra hle
  have hmono := h.fixed.civilDay_mono (Int.not_lt.mp hle)
  omega

/-- The instants of the years after that of `s` lie after `s`. -/
theorem lt_of_later_year {s t year : Int} (hlt : (timezone.dateOf s).year < year)
    (ht : t ∈ offers offset rule yearly year) : s < t := by
  have hday := h.civilDay_of_mem ht
  have hyear := (h.inYear year).1
  have hstart : timezone.civilDay s < yearStart ((timezone.dateOf s).year + 1) :=
    (inYear_dateOfDay _).2
  have hstarts : yearStart ((timezone.dateOf s).year + 1) ≤ yearStart year :=
    yearStart_mono (by omega)
  by_contra hle
  have hmono := h.fixed.civilDay_mono (Int.not_lt.mp hle)
  omega

theorem lt_of_earlier_year {s t year : Int} (hlt : year < (timezone.dateOf s).year)
    (ht : t ∈ offers offset rule yearly year) : t < s := by
  have hday := h.civilDay_of_mem ht
  have hyear := (h.inYear year).2
  have hstart : yearStart (timezone.dateOf s).year ≤ timezone.civilDay s := (inYear_dateOfDay _).1
  have hstarts : yearStart (year + 1) ≤ yearStart (timezone.dateOf s).year :=
    yearStart_mono (by omega)
  by_contra hle
  have hmono := h.fixed.civilDay_mono (Int.not_lt.mp hle)
  omega

omit h in
/-- Every year offers an instant. -/
theorem exists_cons (year : Int) : ∃ t rest, offers offset rule yearly year = t :: rest := by
  obtain ⟨time, rest, htimes⟩ := List.exists_cons_of_ne_nil (rule.timesOr_ne_nil {})
  simp only [offers, htimes, instantsOn, List.map_cons]
  exact ⟨_, _, rfl⟩

theorem findNextExecution_search (s : Int) :
    findNextExecution ctx inlineCalendar rule timezone s =
      searchResult "no valid execution time found within 10 years"
        (search s (fun year => .ok (offers offset rule yearly year)) (· + 1) 10
          (timezone.dateOf s).year) := by
  have hcandidates : candidates timezone yearly (rule.timesOr {}) =
      offers offset rule yearly := funext h.candidates_eq
  simp only [← hcandidates, findNextExecution, evaluateRule, CalendarRule.pattern, h.config,
    evaluate]
  rfl

/-- The evaluator always finds a run, in the year it is asked in or in the next. -/
theorem findNextExecution_eq (s : Int) :
    findNextExecution ctx inlineCalendar rule timezone s =
      .ok (following timezone offset rule yearly s) := by
  rw [h.findNextExecution_search, following]
  generalize hyear : (timezone.dateOf s).year = year
  cases hfind : (offers offset rule yearly year).find? (s < ·) with
  | some t =>
    have hsearch : search s (fun year => .ok (offers offset rule yearly year)) (· + 1) 10 year =
        .ok (some t) :=
      search_eq_some.mpr ⟨0, by decide, hfind, fun m hm => absurd hm (Nat.not_lt_zero m)⟩
    rw [hsearch, searchResult_some, Option.getD_some]
  | none =>
    -- Every year has the date, so the second step of the walk finds a run.
    obtain ⟨t, rest, hnext⟩ := @exists_cons rule yearly offset (year + 1)
    have hlater : s < t := by
      have hfirst : t ∈ offers offset rule yearly (year + 1) := hnext ▸ List.mem_cons_self
      exact h.lt_of_later_year (by omega) hfirst
    have hsearch : search s (fun year => .ok (offers offset rule yearly year)) (· + 1) 10 year =
        .ok (some t) := by
      refine search_eq_some.mpr ⟨1, by decide, ?_, fun m hm u hu => ?_⟩
      · simp [hnext, hlater]
      · obtain rfl : m = 0 := by omega
        have hnone := List.find?_eq_none.mp hfind u hu
        simpa using hnone
    rw [hsearch, searchResult_some, hnext]
    rfl

end OnYears

end Yearly

/-! ## Section 3: What the engine makes of a single rule -/

section Engine

variable {env : Environment} {schedule : CalendarSchedule} {timezone : Location} {start t : Int}

theorem validateRule_of_validateRules {i : Nat} {rules : List CalendarRule}
    (h : validateRules env schedule i rules = .ok ()) {rule : CalendarRule} (hmem : rule ∈ rules) :
    validateRule env.evaluation schedule.businessCalendar rule = .ok () := by
  induction rules generalizing i with
  | nil => cases hmem
  | cons first rest ih =>
    simp only [validateRules] at h
    split at h
    · cases h
    · split at h
      · split at h
        · cases h
        · split at h
          · cases h
          next hfirst =>
            rcases List.mem_cons.mp hmem with rfl | hmem
            · exact hfirst
            · exact ih h hmem
      · cases h

/-- The rules of a valid schedule are valid. -/
theorem validateRule_of_valid (h : validateSchedule env (some schedule) = .ok ())
    {rule : CalendarRule} (hmem : rule ∈ schedule.rules) :
    validateRule env.evaluation schedule.businessCalendar rule = .ok () := by
  simp only [validateSchedule] at h
  split at h
  · cases h
  · split at h
    · cases h
    · split at h
      · cases h
      · split at h
        · cases h
        · cases hrules : validateRules env schedule 0 schedule.rules with
          | error err => simp [hrules, bind, Except.bind] at h
          | ok _ => exact validateRule_of_validateRules hrules hmem

/-- Without exceptions, the next run is the earliest candidate. -/
theorem computeNextRuns_eq_ok_iff (htimezone : env.getTimezone schedule.timezone = .ok timezone)
    (hends : ∀ rule ∈ schedule.rules, RuleEnds env schedule timezone rule start)
    (hexceptions : schedule.exceptions = []) :
    (∃ rest, computeNextRuns env schedule start 1 = .ok (t :: rest)) ↔
      Candidate env schedule timezone start t ∧
        ∀ c, Candidate env schedule timezone start c → t ≤ c := by
  obtain ⟨candidates, hcandidates, hmem⟩ := candidateTimes_of_ends hends
  have hsorted := candidateTimes_sorted hcandidates
  have hfinal : finalTimes schedule timezone candidates = removeDuplicateTimes candidates := by
    simp [finalTimes, applyExceptions, hexceptions]
  rw [computeNextRuns_of_candidates htimezone hcandidates, hfinal]
  simp only [← hmem]
  cases candidates with
  | nil => simp [fail]
  | cons first rest =>
    have hleast : ∀ c ∈ first :: rest, first ≤ c := by
      intro c hc
      rcases List.mem_cons.mp hc with rfl | hc
      · exact Int.le_refl _
      · exact (List.pairwise_cons.mp hsorted).1 c hc
    simp only [List.cons_ne_nil, if_false, removeDuplicateTimes_cons, Int.toNat_one,
      List.take_succ_cons, List.take_zero, Except.ok.injEq, List.cons.injEq, exists_eq_right']
    constructor
    · rintro rfl
      exact ⟨List.mem_cons_self, hleast⟩
    · rintro ⟨hc, hle⟩
      have hfirst := hleast t hc
      have hback := hle first List.mem_cons_self
      omega

theorem evaluateMultiple_ne_loops {evaluate : Int → Result Int} {stride : Int}
    (h : ∀ s, evaluate s ≠ .error .loops) (count : Nat) (s : Int) :
    evaluateMultiple evaluate stride count s ≠ .error .loops := by
  induction count generalizing s with
  | zero => simp [evaluateMultiple]
  | succ count ih =>
    simp only [evaluateMultiple]
    cases hfound : evaluate s with
    | error stop =>
      intro heq
      cases heq
      exact h s hfound
    | ok t =>
      dsimp only
      cases hrest : evaluateMultiple evaluate stride count (t + stride) with
      | error stop =>
        intro heq
        cases heq
        exact ih _ hrest
      | ok rest =>
        intro heq
        cases heq

end Engine

/-! ## Section 4: When the next occurrence is returned -/

namespace Yearly

/-- An occurrence of the rule: an execution time of its date, in its window. -/
structure Occurrence (offset : Int) (rule : CalendarRule) (yearly : YearlyRule) (t : Int) :
    Prop where
  date : ∃ year, t ∈ offers offset rule yearly year
  window : rule.InWindow t

/-- The first one after `start`. -/
structure NextOccurrence (offset : Int) (rule : CalendarRule) (yearly : YearlyRule)
    (start t : Int) : Prop where
  occurs : Occurrence offset rule yearly t
  after : start < t
  least : ∀ u, Occurrence offset rule yearly u → start < u → t ≤ u

/-- The runs that follow one another, each found a minute after the one before. -/
def laterRun (timezone : Location) (offset : Int) (rule : CalendarRule) (yearly : YearlyRule)
    (t : Int) (k : Nat) : Int :=
  (fun r => following timezone offset rule yearly (r + minute))^[k] t

/-- What an engine without a cached result needs to return the next occurrence `t`: it lies within
365 days; of the execution times of its date that are later than `start` and `valid_from`, its own
is listed first; and each of the 999 runs from it on leaves a minute before `valid_until`. -/
structure WithinReach (timezone : Location) (offset : Int) (rule : CalendarRule)
    (yearly : YearlyRule) (start t : Int) : Prop where
  lookahead : t < start + 365 * day
  listed : (instantsOn offset (rule.timesOr {}) (timezone.civilDay t)).find?
    (rule.start start < ·) = some t
  batch : ∀ k < 999, rule.expired (laterRun timezone offset rule yearly t k + minute) = false

namespace OnYears

variable {ctx : EvaluationContext} {inlineCalendar : Option BusinessCalendar}
  {rule : CalendarRule} {yearly : YearlyRule} {timezone : Location} {offset s t : Int}
  (h : OnYears ctx inlineCalendar rule yearly timezone offset)
include h

/-- The evaluator finds the first instant after `s` when it is listed before the others of its
date that are later than `s`. -/
theorem following_eq_iff {year : Int} (hmem : t ∈ offers offset rule yearly year) (hlt : s < t)
    (hleast : ∀ year, ∀ u ∈ offers offset rule yearly year, s < u → t ≤ u) :
    following timezone offset rule yearly s = t ↔
      (instantsOn offset (rule.timesOr {}) (timezone.civilDay t)).find? (s < ·) = some t := by
  have hoffers : instantsOn offset (rule.timesOr {}) (timezone.civilDay t) =
      offers offset rule yearly year := by rw [h.civilDay_of_mem hmem, offers]
  rw [hoffers, following]
  generalize hyear : (timezone.dateOf s).year = current
  obtain ⟨first, rest, hnext⟩ := @exists_cons rule yearly offset (current + 1)
  have hfirst : first ∈ offers offset rule yearly (current + 1) := hnext ▸ List.mem_cons_self
  have hlater : s < first := h.lt_of_later_year (by omega) hfirst
  -- `t` belongs to the year of `s` or to the next
  have hcases : year = current ∨ year = current + 1 := by
    rcases Int.lt_trichotomy year current with hbefore | rfl | hafter
    · have hback := h.lt_of_earlier_year (s := s) (by omega) hmem
      omega
    · exact .inl rfl
    · by_contra hfar
      have hpast := h.lt_of_year_lt (show current + 1 < year by omega) hfirst hmem
      have hle := hleast _ first hfirst hlater
      omega
  rcases hcases with rfl | rfl
  · cases hfind : (offers offset rule yearly year).find? (s < ·) with
    | some u => simp
    | none =>
      have hnone := List.find?_eq_none.mp hfind t hmem
      simp [hlt] at hnone
  · have hnone : (offers offset rule yearly current).find? (s < ·) = none := by
      refine List.find?_eq_none.mpr fun u hu => ?_
      have hle := hleast _ u hu
      have hbefore := h.lt_of_year_lt (Int.lt_succ current) hu hmem
      simp only [decide_eq_true_eq]
      omega
    rw [hnone, hnext, Option.getD_none, List.headD_cons,
      List.find?_cons_of_pos (by simpa using hlater), Option.some.injEq]

/-- A rule without an end always has a next occurrence. -/
theorem exists_nextOccurrence (hend : rule.validUntil = none) (start : Int) :
    ∃ t, NextOccurrence offset rule yearly start t := by
  obtain ⟨first, rest, hnext⟩ :=
    @exists_cons rule yearly offset ((timezone.dateOf (rule.start start)).year + 1)
  have hfirst : first ∈ offers offset rule yearly ((timezone.dateOf (rule.start start)).year + 1) :=
    hnext ▸ List.mem_cons_self
  have hlater : rule.start start < first := h.lt_of_later_year (Int.lt_succ _) hfirst
  have hwindow : rule.InWindow first :=
    ⟨CalendarRule.validFrom_le_of_start_lt hlater, fun validUntil hsome => by simp [hend] at hsome⟩
  have hle := rule.le_start start
  obtain ⟨t, ⟨hoccurs, hafter⟩, hleast⟩ := Int.exists_least_of_bdd
    (P := fun t => Occurrence offset rule yearly t ∧ start < t)
    ⟨start, fun z hz => Int.le_of_lt hz.2⟩ ⟨first, ⟨⟨_, hfirst⟩, hwindow⟩, by omega⟩
  exact ⟨t, hoccurs, hafter, fun u hu hlt => hleast u ⟨hu, hlt⟩⟩

end OnYears

end Yearly

/-- The limits of `DefaultCalendarEngineConfig`. -/
structure DefaultLimits (env : Environment) : Prop where
  calculations : env.maxFutureCalculations = 999 + 1
  preview : env.maxPreviewCount = 100
  lookahead : env.maxLookahead = 365 * day

/-- A valid schedule of one yearly rule without exceptions, for a date that exists in every year, in
a zone with a fixed offset, and an engine with the default limits. -/
structure YearlySchedule (env : Environment) (schedule : CalendarSchedule) (rule : CalendarRule)
    (yearly : YearlyRule) (timezone : Location) (offset : Int) : Prop where
  limits : DefaultLimits env
  valid : validateSchedule env (some schedule) = .ok ()
  rules : schedule.rules = [rule]
  exceptions : schedule.exceptions = []
  config : rule.rule = some (.yearly yearly)
  everyYear : Yearly.ExistsEveryYear yearly
  located : env.getTimezone schedule.timezone = .ok timezone
  fixed : timezone.Fixed offset

namespace YearlySchedule

open Yearly

variable {env : Environment} {schedule : CalendarSchedule} {rule : CalendarRule}
  {yearly : YearlyRule} {timezone : Location} {offset start t : Int}
  (h : YearlySchedule env schedule rule yearly timezone offset)
include h

theorem onYears : OnYears env.evaluation schedule.businessCalendar rule yearly timezone offset where
  config := h.config
  valid := validateRule_of_valid h.valid (h.rules ▸ List.mem_cons_self)
  everyYear := h.everyYear
  fixed := h.fixed

theorem ruleEnds (start : Int) :
    ∀ r ∈ schedule.rules, RuleEnds env schedule timezone r start := by
  intro r hr
  rw [h.rules, List.mem_singleton] at hr
  subst hr
  refine evaluateMultiple_ne_loops (fun s => ?_) _ _
  have hfound := h.onYears.findNextExecution_eq (r.start s)
  simp only [findNextExecution, evaluateRule, CalendarRule.pattern, h.config, evaluate,
    CalendarRule.evaluateFrom] at hfound ⊢
  split
  · intro hloops
    cases hloops
  · intro hloops
    have hcontra := hloops.symm.trans hfound
    cases hcontra

theorem stride_eq : rule.stride = minute := by
  simp only [CalendarRule.stride, h.config]

theorem candidate_iff :
    Candidate env schedule timezone start t ↔
      t ∈ ruleRuns env schedule timezone rule start ∧ t < start + 365 * day := by
  simp [Candidate, h.rules, h.limits.lookahead, extraCandidates, h.exceptions]

/-- The runs of the pattern are those that follow one another. -/
theorem patternRuns_iff {times : List Int} :
    PatternRuns env schedule timezone rule start times ↔
      times = (List.range times.length).map (laterRun timezone offset rule yearly
        (following timezone offset rule yearly (rule.start start))) := by
  rw [PatternRuns, h.stride_eq]
  exact successive_iff_map h.onYears.findNextExecution_eq

/-- The next run without a cached result: the first run found, if a batch that begins with it is
filled and it lies before the end of the lookahead. -/
theorem computeNextRuns_iff :
    (∃ rest, computeNextRuns env schedule start 1 = .ok (t :: rest)) ↔
      rule.expired start = false ∧
        following timezone offset rule yearly (rule.start start) = t ∧
        (∀ k < 999, rule.expired (laterRun timezone offset rule yearly t k + minute) = false) ∧
        t < start + 365 * day := by
  rw [computeNextRuns_eq_ok_iff h.located (h.ruleEnds start) h.exceptions]
  simp only [h.candidate_iff]
  constructor
  · rintro ⟨⟨hmem, hlookahead⟩, hleast⟩
    obtain ⟨times, hwalk, hlength, hstart, hlast, hmem⟩ := mem_ruleRuns.mp hmem
    obtain ⟨first, rest, rfl⟩ := List.exists_cons_of_ne_nil (List.ne_nil_of_mem hmem)
    have hle := hwalk.head_le findsLater_findNextExecution (Int.le_of_lt rule.stride_pos) hmem
    have hback := hleast first ⟨mem_ruleRuns.mpr ⟨_, hwalk, hlength, hstart, hlast,
      List.mem_cons_self⟩, by omega⟩
    obtain rfl : first = t := by omega
    have hmap := h.patternRuns_iff.mp hwalk
    rw [hlength, h.limits.calculations] at hmap
    have hfirst : following timezone offset rule yearly (rule.start start) = first := by
      rw [List.range_succ_eq_map, List.map_cons, List.cons.injEq] at hmap
      exact hmap.1.symm
    refine ⟨hstart, hfirst, fun k hk => ?_, hlookahead⟩
    rw [← h.stride_eq]
    refine hlast _ ?_
    rw [hmap, hfirst, List.range_succ, List.map_append, List.map_singleton, List.dropLast_concat]
    exact List.mem_map_of_mem (List.mem_range.mpr hk)
  · rintro ⟨hstart, hfirst, hlast, hlookahead⟩
    obtain ⟨times, htimes⟩ : ∃ times, times = (List.range (999 + 1)).map
        (laterRun timezone offset rule yearly t) := ⟨_, rfl⟩
    have hlength : times.length = 999 + 1 := by
      rw [htimes, List.length_map, List.length_range]
    have hwalk : PatternRuns env schedule timezone rule start times := by
      rw [h.patternRuns_iff, hfirst, hlength]
      exact htimes
    have hroom : ∀ r ∈ times.dropLast, rule.expired (r + rule.stride) = false := by
      intro r hr
      rw [htimes, List.range_succ, List.map_append, List.map_singleton, List.dropLast_concat] at hr
      obtain ⟨k, hk, rfl⟩ := List.mem_map.mp hr
      rw [h.stride_eq]
      exact hlast k (List.mem_range.mp hk)
    obtain ⟨rest, hcons⟩ : ∃ rest, times = t :: rest := by
      rw [htimes, List.range_succ_eq_map, List.map_cons]
      exact ⟨_, rfl⟩
    refine ⟨⟨mem_ruleRuns.mpr ⟨times, hwalk, by rw [hlength, h.limits.calculations], hstart, hroom,
      hcons ▸ List.mem_cons_self⟩, hlookahead⟩, fun c hc => ?_⟩
    obtain ⟨others, hothers, hsame, -, -, hc⟩ := mem_ruleRuns.mp hc.1
    -- both batches are the same
    have hmap := h.patternRuns_iff.mp hothers
    rw [hsame, h.limits.calculations, hfirst, ← htimes] at hmap
    rw [hmap] at hc
    rw [hcons] at hwalk hc
    exact hwalk.head_le findsLater_findNextExecution (Int.le_of_lt rule.stride_pos) hc

/-- Where the next occurrence is in reach, it is the next run. -/
theorem computeNextRuns_iff_withinReach (hnext : NextOccurrence offset rule yearly start t) :
    (∃ rest, computeNextRuns env schedule start 1 = .ok (t :: rest)) ↔
      WithinReach timezone offset rule yearly start t := by
  obtain ⟨⟨⟨year, hmem⟩, hwindow⟩, hafter, hleast⟩ := hnext
  have hunexpired := (CalendarRule.inWindow_iff.mp hwindow).2
  have hle := rule.le_start start
  have hlisted : following timezone offset rule yearly (rule.start start) = t ↔
      (instantsOn offset (rule.timesOr {}) (timezone.civilDay t)).find?
        (rule.start start < ·) = some t := by
    by_cases hlt : rule.start start < t
    · refine h.onYears.following_eq_iff hmem hlt fun other u hu hbetween => ?_
      by_contra hbefore
      have hu' : Occurrence offset rule yearly u :=
        ⟨⟨other, hu⟩, CalendarRule.inWindow_iff.mpr
          ⟨CalendarRule.validFrom_le_of_start_lt hbetween,
            CalendarRule.not_expired_of_le hunexpired (by omega)⟩⟩
      exact hbefore (hleast u hu' (by omega))
    · -- an occurrence at `valid_from` is not looked for
      constructor
      · intro hfound
        have hlater := findsLater_findNextExecution _ _
          (h.onYears.findNextExecution_eq (rule.start start))
        omega
      · intro hfound
        have hlater : rule.start start < t := by simpa using List.find?_some hfound
        exact absurd hlater hlt
  rw [h.computeNextRuns_iff, hlisted]
  constructor
  · rintro ⟨-, hfirst, hbatch, hlookahead⟩
    exact ⟨hlookahead, hfirst, hbatch⟩
  · rintro ⟨hlookahead, hfirst, hbatch⟩
    exact ⟨CalendarRule.not_expired_of_le hunexpired (Int.le_of_lt hafter), hfirst, hbatch,
      hlookahead⟩

end YearlySchedule

section Firing

variable (env : Environment) (now later : Int) (cache : ExecutionCache)
  (schedule : CalendarSchedule) (rule : CalendarRule) (yearly : YearlyRule) (timezone : Location)
  (offset start : Int)

/-- `CalculateNextRun` returns the next occurrence of the rule whenever there is one. -/
def KeepsFiring : Prop :=
  ∀ t, Yearly.NextOccurrence offset rule yearly start t →
    (calculateNextRun env now later cache (some schedule) start).2 = .ok t

/-- The condition for an occurrence: what the cache holds for the request begins with it; when it
holds nothing, the occurrence is within reach. -/
def Answers (t : Int) : Prop :=
  match cacheHit env now cache schedule start 1 with
  | some times => times.head? = some t
  | none => Yearly.WithinReach timezone offset rule yearly start t

end Firing

section Firing

variable {env : Environment} {now later : Int} {cache : ExecutionCache}
  {schedule : CalendarSchedule} {rule : CalendarRule} {yearly : YearlyRule} {timezone : Location}
  {offset start : Int} (h : YearlySchedule env schedule rule yearly timezone offset)
include h

theorem YearlySchedule.checkRequest_eq : checkRequest env (some schedule) 1 = .ok schedule := by
  have hpreview := h.limits.preview
  have hrequest := checkRequest_of_valid h.valid Int.one_pos (by omega)
  rwa [checkRequest_uncached] at hrequest

/-- A yearly rule keeps firing exactly while its next occurrence is cached or within reach. -/
theorem YearlySchedule.keepsFiring_iff :
    KeepsFiring env now later cache schedule rule yearly offset start ↔
      ∀ t, Yearly.NextOccurrence offset rule yearly start t →
        Answers env now cache schedule rule yearly timezone offset start t := by
  refine forall_congr' fun t => imp_congr_right fun hnext => ?_
  rw [calculateNextRun_ok_iff, calculateNextRuns_of_request h.checkRequest_eq, Answers]
  cases hhit : cacheHit env now cache schedule start 1 with
  | none => exact h.computeNextRuns_iff_withinReach hnext
  | some times => cases times <;> simp

end Firing

/-! ## Section 5: After a run -/

namespace Yearly

/-- The dates of two consecutive years lie at least 365 days apart. -/
theorem yearlyDay_succ (yearly : YearlyRule) (year : Int) :
    yearlyDay yearly year + 365 ≤ yearlyDay yearly (year + 1) := by
  have hindex : monthIndex (year + 1) yearly.month = monthIndex year yearly.month + 12 := by
    unfold monthIndex
    omega
  have hparts : (monthIndex year yearly.month + 12) / 12 = monthIndex year yearly.month / 12 + 1 ∧
      (monthIndex year yearly.month + 12) % 12 = monthIndex year yearly.month % 12 := by omega
  have hyear := yearDays_succ (monthIndex year yearly.month / 12)
  unfold yearlyDay
  rw [dayNumber_eq, dayNumber_eq, hindex]
  unfold monthStart
  rw [hparts.1, hparts.2]
  by_cases hleap : (yearly.month = 2 ∧ yearly.day = 29) ∧ IsLeap year ∧ ¬ IsLeap (year + 1)
  · -- a leap day is followed by a February 28, after a year of 366 days
    obtain ⟨⟨hmonth, hday⟩, hthis, hnext⟩ := hleap
    have hfebruary := yearDays_february year
    have hbegins : monthIndex year yearly.month / 12 = year - 1 := by
      unfold monthIndex
      omega
    rw [if_pos hthis] at hfebruary
    rw [hbegins, Int.sub_add_cancel, namedDay, namedDay, if_neg fun hnot => hnot.2.2 hthis,
      if_pos ⟨hmonth, hday, hnext⟩]
    omega
  · have hday : namedDay yearly year ≤ namedDay yearly (year + 1) := by
      unfold namedDay
      split
      next hshort => split <;> omega
      next hlong =>
        split
        next hnext =>
          have hthis : IsLeap year := by_contra fun hnot => hlong ⟨hnext.1, hnext.2.1, hnot⟩
          exact absurd ⟨⟨hnext.1, hnext.2.1⟩, hthis, hnext.2.2⟩ hleap
        next => exact Int.le_refl _
    omega

namespace OnYears

variable {ctx : EvaluationContext} {inlineCalendar : Option BusinessCalendar}
  {rule : CalendarRule} {yearly : YearlyRule} {timezone : Location} {offset s t : Int}
  (h : OnYears ctx inlineCalendar rule yearly timezone offset)
include h

theorem exists_following (s : Int) :
    ∃ year, following timezone offset rule yearly s ∈ offers offset rule yearly year := by
  have hfound := h.findNextExecution_eq s
  rw [h.findNextExecution_search] at hfound
  obtain ⟨n, -, hmem, -⟩ := mem_of_search (searchResult_ok hfound)
  exact ⟨_, hmem⟩

/-- With a single execution time, two runs lie at least 365 days apart. -/
theorem le_of_single {time : TimeOfDay} (hone : rule.timesOr {} = [time]) {y z : Int}
    (hs : s ∈ offers offset rule yearly y) (ht : t ∈ offers offset rule yearly z) (hlt : s < t) :
    s + 365 * day ≤ t := by
  have hyears : y < z := by
    rcases Int.lt_trichotomy y z with hbefore | rfl | hafter
    · exact hbefore
    · simp only [offers, instantsOn, hone, List.map_singleton, List.mem_singleton] at hs ht
      omega
    · have hback := h.lt_of_year_lt hafter ht hs
      omega
  -- the dates of the years between only get later
  obtain ⟨n, rfl⟩ := Int.le.dest hyears
  have hdays : ∀ n : Nat, yearlyDay yearly y + 365 ≤ yearlyDay yearly (y + 1 + n) := by
    intro n
    induction n with
    | zero => simpa using yearlyDay_succ yearly y
    | succ n ih =>
      have hnext := yearlyDay_succ yearly (y + 1 + n)
      rw [Int.natCast_succ, ← Int.add_assoc]
      omega
  have hfar := hdays n
  simp only [offers, instantsOn, hone, List.map_singleton, List.mem_singleton] at hs ht
  simp only [day, hour, minute, second] at hs ht ⊢
  omega

end OnYears

end Yearly

/-- After a run of a rule with a single execution time, there is no next run. -/
theorem YearlySchedule.no_run_after_run {env : Environment} {now later : Int}
    {cache : ExecutionCache} {schedule : CalendarSchedule} {rule : CalendarRule}
    {yearly : YearlyRule} {timezone : Location} {offset start : Int}
    (h : YearlySchedule env schedule rule yearly timezone offset) {time : TimeOfDay}
    (hone : rule.timesOr {} = [time]) {year : Int}
    (hrun : start ∈ Yearly.offers offset rule yearly year)
    (hmiss : cacheHit env now cache schedule start 1 = none) (t : Int) :
    (calculateNextRun env now later cache (some schedule) start).2 ≠ .ok t := by
  rw [ne_eq, calculateNextRun_ok_iff, calculateNextRuns_of_request h.checkRequest_eq, hmiss,
    h.computeNextRuns_iff]
  -- The engine found the run of the next year, which lies beyond its lookahead.
  rintro ⟨-, rfl, -, hlookahead⟩
  obtain ⟨other, hmem⟩ := h.onYears.exists_following (rule.start start)
  have hlater := findsLater_findNextExecution _ _
    (h.onYears.findNextExecution_eq (rule.start start))
  have hle := rule.le_start start
  have hfar := h.onYears.le_of_single hone hrun hmem (by omega)
  omega

/-- A run at the beginning of every year. -/
def newYearRule : CalendarRule := { rule := some (.yearly ⟨1, 1, false⟩) }

/-- Its schedule. -/
def newYear : CalendarSchedule where
  type := .yearly
  rules := [newYearRule]
  timezone := "UTC"

theorem yearlySchedule_newYear :
    YearlySchedule defaultEnvironment newYear newYearRule ⟨1, 1, false⟩ utc 0 where
  limits := ⟨rfl, rfl, rfl⟩
  valid := by decide +kernel
  rules := rfl
  exceptions := rfl
  config := rfl
  everyYear := fun year => by simp [Yearly.namedDay, lengthOfMonth]
  located := rfl
  fixed := Location.fixed_utc

/-- From the second of January 1970, the next run is the first of January 1971. -/
theorem keepsFiring_newYear :
    KeepsFiring defaultEnvironment 0 0 [] newYear newYearRule ⟨1, 1, false⟩ 0 day := by
  refine yearlySchedule_newYear.keepsFiring_iff.mpr fun t hnext => ?_
  rw [Answers, cacheHit_nil]
  have hoccurs : Yearly.Occurrence 0 newYearRule ⟨1, 1, false⟩ (365 * day) :=
    ⟨⟨1971, by decide⟩, nofun, nofun⟩
  -- The occurrence of 1971 bounds the next one, which is therefore within the lookahead.
  have hle := hnext.least _ hoccurs (by decide)
  obtain ⟨⟨⟨year, hmem⟩, -⟩, hafter, -⟩ := hnext
  refine ⟨by simp only [day, hour, minute, second] at hle ⊢; omega, ?_, fun _ _ => rfl⟩
  have hday := yearlySchedule_newYear.onYears.civilDay_of_mem hmem
  have htimes : instantsOn 0 (newYearRule.timesOr {}) (utc.civilDay t) = [t] := by
    rw [hday]
    exact congrArg (· :: []) (List.mem_singleton.mp hmem).symm
  have hstart : newYearRule.start day < t := hafter
  rw [htimes, List.find?_cons_of_pos (by simpa using hstart)]

/-- From a run of its own there is no next one. -/
theorem not_keepsFiring_newYear :
    YearlySchedule defaultEnvironment newYear newYearRule ⟨1, 1, false⟩ utc 0 ∧
      ¬ KeepsFiring defaultEnvironment 0 0 [] newYear newYearRule ⟨1, 1, false⟩ 0 0 := by
  refine ⟨yearlySchedule_newYear, fun hfires => ?_⟩
  obtain ⟨t, hnext⟩ := yearlySchedule_newYear.onYears.exists_nextOccurrence rfl 0
  have hrun : 0 ∈ Yearly.offers 0 newYearRule ⟨1, 1, false⟩ 1970 := by decide
  exact yearlySchedule_newYear.no_run_after_run rfl hrun (cacheHit_nil _ _ _ _ _) t (hfires t hnext)

end Nzovu.Calendar
