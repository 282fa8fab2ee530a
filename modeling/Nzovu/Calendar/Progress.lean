import Nzovu.Calendar.Engine

/-!
# Progress of the Calculation

Whether the next run lies after the instant it is calculated from. The runs of the rules do; an
exception may move a run, or add one, to any instant at all, and a result from the cache is the one
of an earlier call. Section 3 says exactly when the result is strictly later.
-/

namespace Nzovu.Calendar

open Nzovu.Foundation
open Nzovu.Foundation.CivilTime

/-! ## Section 1: Sorting and removing duplicates -/

theorem mem_sortTimes {times : List Int} {t : Int} : t ∈ sortTimes times ↔ t ∈ times :=
  List.mem_insertionSort _

theorem sortTimes_sorted (times : List Int) : (sortTimes times).Pairwise (· ≤ ·) :=
  List.pairwise_insertionSort _ times

theorem keepFirst_sublist (seen times : List Int) : (keepFirst seen times).Sublist times := by
  induction times generalizing seen with
  | nil => exact List.Sublist.refl _
  | cons t rest ih =>
    simp only [keepFirst]
    split
    · exact (ih seen).cons t
    · exact (ih _).cons_cons t

theorem removeDuplicateTimes_sublist (times : List Int) :
    (removeDuplicateTimes times).Sublist times :=
  keepFirst_sublist [] times

theorem removeDuplicateTimes_cons (t : Int) (rest : List Int) :
    removeDuplicateTimes (t :: rest) = t :: keepFirst [unix t] rest := by
  simp [removeDuplicateTimes, keepFirst]

theorem removeDuplicateTimes_eq_nil {times : List Int} :
    removeDuplicateTimes times = [] ↔ times = [] := by
  cases times with
  | nil => simp [removeDuplicateTimes, keepFirst]
  | cons t rest => simp [removeDuplicateTimes_cons]

/-- The first of a sorted list stays the first. -/
theorem head_removeDuplicateTimes {times : List Int} (hsorted : times.Pairwise (· ≤ ·)) {t : Int}
    (h : (removeDuplicateTimes times).head? = some t) : t ∈ times ∧ ∀ x ∈ times, t ≤ x := by
  cases times with
  | nil => simp [removeDuplicateTimes, keepFirst] at h
  | cons first rest =>
    simp only [removeDuplicateTimes_cons, List.head?_cons, Option.some.injEq] at h
    subst h
    refine ⟨List.mem_cons_self, fun x hx => ?_⟩
    rcases List.mem_cons.mp hx with rfl | hx
    · exact Int.le_refl _
    · exact (List.pairwise_cons.mp hsorted).1 x hx

/-! ## Section 2: Candidates and what the exceptions make of them -/

theorem ruleCandidates_spec {env : Environment} {schedule : CalendarSchedule} {timezone : Location}
    {start searchEnd : Int} {rules : List CalendarRule} {times : List Int}
    (h : ruleCandidates env schedule timezone start searchEnd rules = .ok times) :
    ∀ t ∈ times, RunAfter start t := by
  induction rules generalizing times with
  | nil =>
    simp only [ruleCandidates, Except.ok.injEq] at h
    simp [← h]
  | cons rule rest ih =>
    simp only [ruleCandidates] at h
    cases hrule : evaluateRuleMultiple env.evaluation schedule.businessCalendar rule timezone start
        env.maxFutureCalculations with
    -- a rule that fails adds no candidates
    | error stop =>
      cases stop with
      | loops => simp [hrule] at h
      | error err =>
        simp only [hrule] at h
        exact ih h
    | ok found =>
      cases hrest : ruleCandidates env schedule timezone start searchEnd rest with
      | error stop => simp [hrule, hrest] at h
      | ok others =>
        simp only [hrule, hrest, Except.ok.injEq] at h
        subst h
        intro t ht
        -- of this rule, or of the rules after it
        rcases List.mem_append.mp ht with ht | ht
        · exact evaluateRuleMultiple_spec hrule t (List.mem_of_mem_filter ht)
        · exact ih hrest t ht

theorem extraCandidates_spec {schedule : CalendarSchedule} {timezone : Location}
    {start searchEnd t : Int} (h : t ∈ extraCandidates schedule timezone start searchEnd) :
    RunAfter start t := by
  obtain ⟨exception, -, h⟩ := List.mem_flatMap.mp h
  split at h
  · obtain ⟨hmem, hwindow⟩ := List.mem_filter.mp h
    simp only [Bool.and_eq_true, decide_eq_true_eq] at hwindow
    exact ⟨hwindow.1, atTimes_whole hmem⟩
  · cases h

/-- Every candidate is a whole second after the start. -/
theorem candidateTimes_spec {env : Environment} {schedule : CalendarSchedule}
    {timezone : Location} {start : Int} {times : List Int}
    (h : candidateTimes env schedule timezone start = .ok times) :
    ∀ t ∈ times, RunAfter start t := by
  unfold candidateTimes at h
  cases hrules : ruleCandidates env schedule timezone start (start + env.maxLookahead)
      schedule.rules with
  | error stop => simp [hrules] at h
  | ok ofRules =>
    simp only [hrules, Except.ok.injEq] at h
    subst h
    intro t ht
    have hmem := mem_sortTimes.mp ((removeDuplicateTimes_sublist _).subset ht)
    rcases List.mem_append.mp hmem with hmem | hmem
    · exact ruleCandidates_spec hrules t hmem
    · exact extraCandidates_spec hmem

theorem candidateTimes_sorted {env : Environment} {schedule : CalendarSchedule}
    {timezone : Location} {start : Int} {times : List Int}
    (h : candidateTimes env schedule timezone start = .ok times) : times.Pairwise (· ≤ ·) := by
  unfold candidateTimes at h
  cases hrules : ruleCandidates env schedule timezone start (start + env.maxLookahead)
      schedule.rules with
  | error stop => simp [hrules] at h
  | ok ofRules =>
    simp only [hrules, Except.ok.injEq] at h
    subst h
    exact (sortTimes_sorted _).sublist (removeDuplicateTimes_sublist _)

/-- What the exceptions make of one candidate. -/
def outcomes (exceptions : List CalendarException) (timezone : Location) (t : Int) : List Int :=
  keptTime exceptions timezone t ++ extraTimes exceptions timezone t

theorem outcomes_of_none {exceptions : List CalendarException} {timezone : Location} {t : Int}
    (h : exceptionOn exceptions timezone (timezone.dateOf t) = none) :
    outcomes exceptions timezone t = [t] := by
  simp [outcomes, keptTime, extraTimes, h]

theorem mem_applyExceptions {times : List Int} {exceptions : List CalendarException}
    {timezone : Location} {t : Int} :
    t ∈ applyExceptions times exceptions timezone ↔
      ∃ c ∈ times, t ∈ outcomes exceptions timezone c := by
  unfold applyExceptions
  split
  next hnone =>
    subst hnone
    have hsame : ∀ c, outcomes [] timezone c = [c] :=
      fun c => outcomes_of_none (by simp [exceptionOn])
    simp [hsame]
  next =>
    simp only [mem_sortTimes, List.mem_append, List.mem_flatMap, outcomes]
    constructor
    · rintro (⟨c, hc, ht⟩ | ⟨c, hc, ht⟩)
      · exact ⟨c, hc, .inl ht⟩
      · exact ⟨c, hc, .inr ht⟩
    · rintro ⟨c, hc, ht | ht⟩
      · exact .inl ⟨c, hc, ht⟩
      · exact .inr ⟨c, hc, ht⟩

theorem applyExceptions_sorted {times : List Int} {exceptions : List CalendarException}
    {timezone : Location} (h : times.Pairwise (· ≤ ·)) :
    (applyExceptions times exceptions timezone).Pairwise (· ≤ ·) := by
  unfold applyExceptions
  split
  · exact h
  · exact sortTimes_sorted _

/-- The first run is the least of what the exceptions make of the candidates. -/
theorem head_finalTimes {schedule : CalendarSchedule} {timezone : Location} {candidates : List Int}
    (hsorted : candidates.Pairwise (· ≤ ·)) {t : Int}
    (h : (finalTimes schedule timezone candidates).head? = some t) :
    (∃ c ∈ candidates, t ∈ outcomes schedule.exceptions timezone c) ∧
      ∀ c ∈ candidates, ∀ x ∈ outcomes schedule.exceptions timezone c, t ≤ x := by
  have hleast := head_removeDuplicateTimes (applyExceptions_sorted hsorted) h
  exact ⟨mem_applyExceptions.mp hleast.1, fun c hc x hx =>
    hleast.2 x (mem_applyExceptions.mpr ⟨c, hc, hx⟩)⟩

/-! ## Section 3: When the next run is later -/

/-- No exception carries a run to an instant that is not after `bound`, neither by moving one of
the candidates nor by extra times on its date. -/
def ExceptionsAfter (exceptions : List CalendarException) (timezone : Location)
    (candidates : List Int) (bound : Int → Prop) : Prop :=
  ∀ c ∈ candidates, ∀ exception,
    exceptionOn exceptions timezone (timezone.dateOf c) = some exception →
      (exception.type = .reschedule → ∀ target, exception.rescheduleTo = some target →
        bound (rescheduledTime timezone target c)) ∧
      (exception.type = .extra → ∀ x ∈ atTimes timezone (timezone.dateOf c) exception.extraTimes,
        bound x)

/-- Everything the exceptions make of candidates that satisfy `bound` satisfies it, exactly when
what they move or add does. -/
theorem exceptionsAfter_iff {exceptions : List CalendarException} {timezone : Location}
    {candidates : List Int} {bound : Int → Prop} (hbound : ∀ c ∈ candidates, bound c) :
    ExceptionsAfter exceptions timezone candidates bound ↔
      ∀ c ∈ candidates, ∀ x ∈ outcomes exceptions timezone c, bound x := by
  constructor
  · intro h c hc x hx
    cases hon : exceptionOn exceptions timezone (timezone.dateOf c) with
    | none =>
      rw [outcomes_of_none hon, List.mem_singleton] at hx
      exact hx ▸ hbound c hc
    | some exception =>
      obtain ⟨hmoved, hextra⟩ := h c hc exception hon
      -- one case for each type: a run is dropped, moved, joined by others or kept
      cases htype : exception.type with
      | skip => simp [outcomes, keptTime, extraTimes, hon, htype] at hx
      | reschedule =>
        cases htarget : exception.rescheduleTo with
        | none => simp [outcomes, keptTime, extraTimes, hon, htype, htarget] at hx
        | some target =>
          simp only [outcomes, keptTime, extraTimes, hon, htype, htarget, reduceCtorEq, if_false,
            List.append_nil, List.mem_singleton] at hx
          exact hx ▸ hmoved htype target htarget
      | extra =>
        simp only [outcomes, keptTime, extraTimes, hon, htype, if_true, List.singleton_append,
          List.mem_cons] at hx
        rcases hx with rfl | hx
        · exact hbound x hc
        · exact hextra htype x hx
      | unknown number =>
        simp only [outcomes, keptTime, extraTimes, hon, htype, reduceCtorEq, if_false,
          List.append_nil, List.mem_singleton] at hx
        exact hx ▸ hbound c hc
  · intro h c hc exception hon
    constructor
    · intro htype target htarget
      refine h c hc _ ?_
      simp [outcomes, keptTime, hon, htype, htarget]
    · intro htype x hx
      refine h c hc x ?_
      simp [outcomes, extraTimes, hon, htype, hx]

/-- The condition on a schedule and an instant: the exceptions stay after it. -/
def AheadOf (env : Environment) (schedule : CalendarSchedule) (start : Int)
    (bound : Int → Prop) : Prop :=
  ∀ timezone, env.getTimezone schedule.timezone = .ok timezone →
    ∀ candidates, candidateTimes env schedule timezone start = .ok candidates →
      ExceptionsAfter schedule.exceptions timezone candidates bound

/-- The calculation without a cache: its first result is bounded exactly under the condition. -/
theorem head_computeNextRuns_iff {env : Environment} {schedule : CalendarSchedule} {start : Int}
    {bound : Int → Prop} (hwhole : ∀ c, RunAfter start c → bound c)
    (hup : ∀ x y, bound x → x ≤ y → bound y) :
    (∀ t rest, computeNextRuns env schedule start 1 = .ok (t :: rest) → bound t) ↔
      AheadOf env schedule start bound := by
  cases htimezone : env.getTimezone schedule.timezone with
  | error err => simp [computeNextRuns, AheadOf, htimezone, fail]
  | ok timezone =>
    cases hcandidates : candidateTimes env schedule timezone start with
    | error stop => simp [computeNextRuns, AheadOf, htimezone, hcandidates]
    | ok candidates =>
      -- the candidates themselves are ahead
      have hbound : ∀ c ∈ candidates, bound c :=
        fun c hc => hwhole c (candidateTimes_spec hcandidates c hc)
      have hsorted := candidateTimes_sorted hcandidates
      have hiff : ExceptionsAfter schedule.exceptions timezone candidates bound ↔ _ :=
        exceptionsAfter_iff hbound
      simp only [AheadOf, htimezone, hcandidates, Except.ok.injEq, forall_eq', hiff]
      cases hcase : candidates with
      | nil => simp [computeNextRuns, htimezone, hcandidates, hcase, fail]
      | cons first others =>
        have hcompute : computeNextRuns env schedule start 1 =
            .ok ((finalTimes schedule timezone candidates).take 1) := by
          simp [computeNextRuns, htimezone, hcandidates, hcase]
        rw [hcompute, ← hcase]
        cases hfinal : finalTimes schedule timezone candidates with
        | nil =>
          have hnone : ∀ c ∈ candidates, ∀ x, x ∉ outcomes schedule.exceptions timezone c := by
            intro c hc x hx
            have hmem := mem_applyExceptions.mpr ⟨c, hc, hx⟩
            rw [removeDuplicateTimes_eq_nil.mp hfinal] at hmem
            cases hmem
          simp only [List.take_nil, Except.ok.injEq, reduceCtorEq, false_implies, implies_true,
            true_iff]
          exact fun c hc x hx => absurd hx (hnone c hc x)
        | cons t later =>
          -- the first run is the least, so it bounds all others
          have hhead := head_finalTimes (t := t) hsorted (by rw [hfinal]; rfl)
          obtain ⟨⟨c, hc, ht⟩, hleast⟩ := hhead
          simp only [List.take_succ_cons, List.take_zero, Except.ok.injEq, List.cons.injEq]
          constructor
          · intro h c hc x hx
            exact hup t x (h t [] ⟨rfl, rfl⟩) (hleast c hc x hx)
          · rintro h t' rest ⟨rfl, -⟩
            exact h c hc t ht

/-- What the cache returns to a request, if it has enough. -/
def cacheHit (env : Environment) (now : Int) (cache : ExecutionCache) (schedule : CalendarSchedule)
    (start count : Int) : Option (List Int) :=
  if env.enableCaching then
    (cache.get env.cacheTTL now (generateCacheKey schedule start count)).2.filter fun times =>
      count ≤ times.length
  else none

@[simp] theorem cacheHit_nil (env : Environment) (now : Int) (schedule : CalendarSchedule)
    (start count : Int) : cacheHit env now [] schedule start count = none := by
  simp [cacheHit, Cache.get, Cache.find]

/-- An admitted request is the one that was sent. -/
theorem checkRequest_eq {env : Environment} {schedule s : CalendarSchedule} {count : Int}
    (h : checkRequest env (some schedule) count = .ok s) : s = schedule := by
  unfold checkRequest at h
  split at h
  · cases h
  · split at h
    · cases h
    · cases hvalid : validateSchedule env (some schedule) with
      | error err => simp [hvalid, fail] at h
      | ok u =>
        simp only [hvalid, Except.ok.injEq] at h
        exact h.symm

theorem calculateNextRuns_of_request {env : Environment} {now later : Int}
    {cache : ExecutionCache} {schedule : Option CalendarSchedule} {s : CalendarSchedule}
    {start count : Int} (hrequest : checkRequest env schedule count = .ok s) :
    (calculateNextRuns env now later cache schedule start count).2 =
      match cacheHit env now cache s start count with
      | some times => .ok (times.take count.toNat)
      | none => computeNextRuns env s start count := by
  simp only [calculateNextRuns, hrequest, cacheHit]
  by_cases hcaching : env.enableCaching = true
  · rw [if_pos hcaching, if_pos hcaching, cachedNextRuns]
    rcases cache.get env.cacheTTL now (generateCacheKey s start count) with ⟨cache', cached⟩
    dsimp only
    generalize cached.filter _ = hit
    cases hit with
    | some times => rfl
    | none => cases computeNextRuns env s start count <;> rfl
  · rw [if_neg hcaching, if_neg hcaching]

/-- The condition on a call: what the cache returns is later, or no exception carries a run back. -/
def NextRunAhead (env : Environment) (now : Int) (cache : ExecutionCache)
    (schedule : Option CalendarSchedule) (start : Int) (bound : Int → Prop) : Prop :=
  ∀ s, checkRequest env schedule 1 = .ok s →
    match cacheHit env now cache s start 1 with
    | some times => ∀ t, times.head? = some t → bound t
    | none => AheadOf env s start bound

theorem calculateNextRun_ok_iff {env : Environment} {now later : Int} {cache : ExecutionCache}
    {schedule : Option CalendarSchedule} {start t : Int} :
    (calculateNextRun env now later cache schedule start).2 = .ok t ↔
      ∃ rest, (calculateNextRuns env now later cache schedule start 1).2 = .ok (t :: rest) := by
  unfold calculateNextRun
  rcases calculateNextRuns env now later cache schedule start 1 with ⟨cache', result⟩
  rcases result with stop | (_ | ⟨t', rest⟩)
  · simp
  · simp [fail]
  · simp

/-- Every result of `CalculateNextRun` satisfies the bound exactly under the condition. -/
theorem calculateNextRun_bound_iff {env : Environment} {now later : Int} {cache : ExecutionCache}
    {schedule : Option CalendarSchedule} {start : Int} {bound : Int → Prop}
    (hwhole : ∀ c, RunAfter start c → bound c) (hup : ∀ x y, bound x → x ≤ y → bound y) :
    (∀ t, (calculateNextRun env now later cache schedule start).2 = .ok t → bound t) ↔
      NextRunAhead env now cache schedule start bound := by
  simp only [calculateNextRun_ok_iff, forall_exists_index]
  cases hrequest : checkRequest env schedule 1 with
  | error stop => simp [NextRunAhead, calculateNextRuns, hrequest]
  | ok s =>
    rw [calculateNextRuns_of_request hrequest]
    simp only [NextRunAhead, hrequest, Except.ok.injEq, forall_eq']
    cases hhit : cacheHit env now cache s start 1 with
    | none => exact head_computeNextRuns_iff hwhole hup
    | some times =>
      cases times with
      | nil => simp
      | cons t rest =>
        simp only [List.head?_cons, Option.some.injEq, forall_eq']
        constructor
        · intro h
          exact h t [] rfl
        · intro h t' rest' heq
          cases heq
          exact h

end Nzovu.Calendar
