import Mathlib.Logic.Function.Basic
import Nzovu.Calendar.Progress
import Nzovu.Foundation.Run

/-!
# Transparency of the Calendar Cache

A sequence of calls on one engine, compared with the same calls on an engine without a cache. The
cache key names the timezone, the second of `from`, the count and the number of rules, but neither
the rules themselves, nor the exceptions, nor the part of `from` below a second.

The run keeps, beside the cache, which call stored what under each key (`origin`). A call is
answered as without a cache when the entry it finds, if any, was stored by a call for the same
schedule and the same instant.
-/

namespace Nzovu.Calendar

open Nzovu.Foundation
open Nzovu.Foundation.CivilTime (Location)

/-! ## Section 1: Sequences of calls -/

/-- A request to `CalculateNextRuns`, with the readings of the clock it makes. -/
structure NextRunsCall where
  schedule : Option CalendarSchedule
  start : Int
  count : Int
  now : Int
  later : Int
deriving DecidableEq

/-- What happens to an engine. -/
inductive EngineEvent where
  | call (call : NextRunsCall)
  /-- A tick of the cleanup goroutine. -/
  | cleanup (now : Int)

/-- The call that stored the entry of a key. -/
structure Origin where
  schedule : CalendarSchedule
  start : Int
  count : Int
deriving DecidableEq

/-- An engine, with the origin of what it has stored. -/
structure TracedEngine where
  cache : ExecutionCache
  origin : String → Option Origin

/-- An engine that has just been built. -/
def TracedEngine.new : TracedEngine := ⟨[], fun _ => none⟩

variable (env : Environment)

/-- The result of a call. -/
def TracedEngine.answer (engine : TracedEngine) (call : NextRunsCall) : Result (List Int) :=
  (calculateNextRuns env call.now call.later engine.cache call.schedule call.start call.count).2

/-- The call stores its result: it is valid, not answered by the cache, and has a result. -/
def TracedEngine.stores (engine : TracedEngine) (call : NextRunsCall) : Option Origin :=
  if env.enableCaching = false then none
  else
    match checkRequest env call.schedule call.count with
    | .error _ => none
    | .ok schedule =>
      match cacheHit env call.now engine.cache schedule call.start call.count,
          computeNextRuns env schedule call.start call.count with
      | none, .ok _ => some ⟨schedule, call.start, call.count⟩
      | _, _ => none

/-- The key of an origin. -/
def Origin.key (origin : Origin) : String :=
  generateCacheKey origin.schedule origin.start origin.count

/-- One event. -/
def TracedEngine.step (engine : TracedEngine) : EngineEvent → TracedEngine
  | .call call =>
    { cache := (calculateNextRuns env call.now call.later engine.cache call.schedule call.start
        call.count).1
      origin := match engine.stores env call with
        | none => engine.origin
        | some origin => Function.update engine.origin origin.key (some origin) }
  | .cleanup now => { engine with cache := engine.cache.cleanup env.cacheTTL now }

/-- The same engine with caching disabled. -/
def Environment.uncached : Environment := { env with enableCaching := false }

/-- A call is answered as by an engine with caching disabled. -/
def Transparent (engine : TracedEngine) : EngineEvent → Prop
  | .call call => engine.answer env call =
      (calculateNextRuns env.uncached call.now call.later [] call.schedule call.start
        call.count).2
  | .cleanup _ => True

/-- The entry that answers a call, if there is one, was stored by a call for the same schedule and
the same instant. -/
def SameOrigin (engine : TracedEngine) : EngineEvent → Prop
  | .call call => ∀ schedule, checkRequest env call.schedule call.count = .ok schedule →
      cacheHit env call.now engine.cache schedule call.start call.count ≠ none →
        engine.origin (generateCacheKey schedule call.start call.count) =
          some ⟨schedule, call.start, call.count⟩
  | .cleanup _ => True

/-! ## Section 2: What the cache holds -/

/-- Every entry is the result of the call that stored it. -/
def Faithful (engine : TracedEngine) : Prop :=
  ∀ entry ∈ engine.cache, ∃ origin, engine.origin entry.key = some origin ∧
    computeNextRuns env origin.schedule origin.start origin.count = .ok entry.value

variable {env}

theorem TracedEngine.faithful_new : Faithful env .new := by
  intro entry hentry
  cases hentry

/-- The cache after a call: what it was, with the new result under its key. -/
theorem mem_calculateNextRuns {engine : TracedEngine} {call : NextRunsCall}
    {entry : CacheEntry String (List Int)}
    (h : entry ∈ (calculateNextRuns env call.now call.later engine.cache call.schedule call.start
      call.count).1) :
    (entry ∈ engine.cache ∧ ∀ origin, engine.stores env call = some origin →
      entry.key ≠ origin.key) ∨
    ∃ origin, engine.stores env call = some origin ∧ entry.key = origin.key ∧
      computeNextRuns env origin.schedule origin.start origin.count = .ok entry.value := by
  cases hrequest : checkRequest env call.schedule call.count with
  | error stop =>
    simp only [calculateNextRuns, hrequest] at h
    exact .inl ⟨h, by simp [TracedEngine.stores, hrequest]⟩
  | ok schedule =>
    simp only [calculateNextRuns, hrequest] at h
    split at h
    next hcaching =>
      have hold : ∀ e ∈ (engine.cache.get env.cacheTTL call.now
          (generateCacheKey schedule call.start call.count)).1, e ∈ engine.cache :=
        fun e he => Cache.mem_of_mem_get he
      simp only [cachedNextRuns] at h
      split at h
      next times hhit =>
        exact .inl ⟨hold entry h, by
          simp [TracedEngine.stores, hrequest, cacheHit, hcaching, hhit]⟩
      next hmiss =>
        cases hcompute : computeNextRuns env schedule call.start call.count with
        | error stop =>
          simp only [hcompute] at h
          exact .inl ⟨hold entry h, by
            simp [TracedEngine.stores, hrequest, cacheHit, hcaching, hmiss, hcompute]⟩
        | ok times =>
          have hstores : engine.stores env call = some ⟨schedule, call.start, call.count⟩ := by
            simp [TracedEngine.stores, hrequest, cacheHit, hcaching, hmiss, hcompute]
          simp only [hcompute] at h
          -- Storing replaces the entry of the key and leaves the others.
          rcases Cache.mem_of_mem_set h with rfl | ⟨hmem, hkey⟩
          · exact .inr ⟨_, hstores, rfl, hcompute⟩
          · refine .inl ⟨hold entry hmem, fun origin horigin => ?_⟩
            rw [hstores, Option.some.injEq] at horigin
            exact horigin ▸ hkey
    next hcaching => exact .inl ⟨h, by simp [TracedEngine.stores, hcaching]⟩

/-- One event keeps the origins right. -/
theorem TracedEngine.faithful_step {engine : TracedEngine} (event : EngineEvent)
    (h : Faithful env engine) : Faithful env (engine.step env event) := by
  cases event with
  | cleanup now => exact fun entry hentry => h entry (Cache.mem_of_mem_cleanup hentry)
  | call call =>
    intro entry hentry
    rcases mem_calculateNextRuns hentry with ⟨hold, hkey⟩ | ⟨origin, hstores, hkey, hvalue⟩
    · obtain ⟨origin, horigin, hvalue⟩ := h entry hold
      refine ⟨origin, ?_, hvalue⟩
      cases hstores : engine.stores env call with
      | none => simpa [TracedEngine.step, hstores] using horigin
      | some stored =>
        simp only [TracedEngine.step, hstores]
        -- An old entry that is still there has another key than the new one.
        rw [Function.update_of_ne (hkey stored hstores)]
        exact horigin
    · refine ⟨origin, ?_, hvalue⟩
      simp only [TracedEngine.step, hstores, hkey, Function.update_self]

/-! ## Section 3: What the cache returns -/

/-- A hit has the value of an entry of its key. -/
theorem cacheHit_some {now : Int} {cache : ExecutionCache} {schedule : CalendarSchedule}
    {start count : Int} {times : List Int}
    (h : cacheHit env now cache schedule start count = some times) :
    env.enableCaching = true ∧ ∃ entry ∈ cache,
      entry.key = generateCacheKey schedule start count ∧ entry.value = times := by
  unfold cacheHit at h
  split at h
  next hcaching =>
    obtain ⟨hget, -⟩ := Option.filter_eq_some_iff.mp h
    obtain ⟨entry, hfind, hvalue, -⟩ := Cache.get_some hget
    exact ⟨hcaching, entry, (Cache.mem_of_find hfind).1, (Cache.mem_of_find hfind).2, hvalue⟩
  next => cases h

theorem computeNextRuns_take {schedule : CalendarSchedule} {start count : Int}
    {times : List Int} (h : computeNextRuns env schedule start count = .ok times) :
    times.take count.toNat = times := by
  unfold computeNextRuns at h
  split at h
  · cases h
  · split at h
    · cases h
    · cases h
    · simp only [Except.ok.injEq] at h
      rw [← h, List.take_take, Nat.min_self]

theorem validateRules_uncached (schedule : CalendarSchedule) (i : Nat)
    (rules : List CalendarRule) :
    validateRules env.uncached schedule i rules = validateRules env schedule i rules := by
  induction rules generalizing i with
  | nil => rfl
  | cons rule rest ih =>
    simp only [validateRules, ih]
    rfl

theorem checkRequest_uncached (schedule : Option CalendarSchedule) (count : Int) :
    checkRequest env.uncached schedule count = checkRequest env schedule count := by
  cases schedule with
  | none => rfl
  | some schedule =>
    simp only [checkRequest, validateSchedule, validateRules_uncached]
    rfl

theorem ruleCandidates_uncached (schedule : CalendarSchedule) (timezone : Location)
    (start searchEnd : Int) (rules : List CalendarRule) :
    ruleCandidates env.uncached schedule timezone start searchEnd rules =
      ruleCandidates env schedule timezone start searchEnd rules := by
  induction rules with
  | nil => rfl
  | cons rule rest ih =>
    simp only [ruleCandidates, ih]
    rfl

theorem computeNextRuns_uncached (schedule : CalendarSchedule) (start count : Int) :
    computeNextRuns env.uncached schedule start count =
      computeNextRuns env schedule start count := by
  simp only [computeNextRuns, candidateTimes, ruleCandidates_uncached]
  rfl

/-- A call is answered as without a cache when the entry it finds comes from the same request. -/
theorem TracedEngine.transparent_of_sameOrigin {engine : TracedEngine} {event : EngineEvent}
    (hfaithful : Faithful env engine) (hsame : SameOrigin env engine event) :
    Transparent env engine event := by
  cases event with
  | cleanup now => trivial
  | call call =>
    have hcheck : checkRequest env.uncached call.schedule call.count = _ :=
      checkRequest_uncached call.schedule call.count
    cases hrequest : checkRequest env call.schedule call.count with
    | error stop =>
      simp [Transparent, TracedEngine.answer, calculateNextRuns, hrequest, hcheck]
    | ok schedule =>
      have huncached : (calculateNextRuns env.uncached call.now call.later [] call.schedule
          call.start call.count).2 = computeNextRuns env schedule call.start call.count := by
        simp only [calculateNextRuns, hcheck, hrequest]
        exact computeNextRuns_uncached schedule call.start call.count
      simp only [Transparent, TracedEngine.answer, huncached,
        calculateNextRuns_of_request hrequest]
      cases hhit : cacheHit env call.now engine.cache schedule call.start call.count with
      | none => rfl
      | some times =>
        obtain ⟨-, entry, hentry, hkey, rfl⟩ := cacheHit_some hhit
        obtain ⟨origin, horigin, hvalue⟩ := hfaithful entry hentry
        have hsource := hsame schedule hrequest (by simp [hhit])
        -- The entry was stored by this very request, so its value is the one computed now.
        rw [← hkey, horigin, Option.some.injEq] at hsource
        subst hsource
        have htake : entry.value.take call.count.toNat = entry.value := computeNextRuns_take hvalue
        simp only [hvalue, htake]

/-- **Transparency**: a sequence of calls in which every hit comes from the same request is
answered as without a cache. -/
theorem transparent_of_follows {events : List EngineEvent}
    (h : Follows (TracedEngine.step env) (SameOrigin env) .new events) :
    Follows (TracedEngine.step env) (Transparent env) .new events := by
  -- The induction is over the calls, from any faithful engine.
  suffices hrun : ∀ engine, Faithful env engine →
      Follows (TracedEngine.step env) (SameOrigin env) engine events →
      Follows (TracedEngine.step env) (Transparent env) engine events from
    hrun _ TracedEngine.faithful_new h
  clear h
  induction events with
  | nil => exact fun _ _ _ => trivial
  | cons event rest ih =>
    rintro engine hfaithful ⟨hsame, hrest⟩
    exact ⟨TracedEngine.transparent_of_sameOrigin hfaithful hsame,
      ih _ (TracedEngine.faithful_step event hfaithful) hrest⟩

/-- An engine that reads every time zone as UTC and looks two runs of each rule ahead. -/
def utcEnvironment : Environment where
  evaluation := { businessCalendarProvider := none, offsetDays := 400 }
  validateTimezone := fun _ => none
  getTimezone := fun _ => .ok Nzovu.Foundation.CivilTime.utc
  maxFutureCalculations := 2

/-- A run every day at the hour. -/
def dailyAt (hour : Int) : CalendarSchedule where
  type := .daily
  rules := [{ rule := some (.daily ⟨1, false, none⟩), executionTimes := [{ hour := hour }] }]
  timezone := "UTC"

/-- The request for the next run of a daily schedule. -/
def nextDaily (hour : Int) : EngineEvent := .call ⟨some (dailyAt hour), 0, 1, 0, 0⟩

theorem checkRequest_dailyAt :
    checkRequest utcEnvironment (some (dailyAt 9)) 1 = .ok (dailyAt 9) := by
  decide +kernel

/-- A schedule asked for twice, the second time from the cache. -/
theorem transparent_daily :
    Follows (TracedEngine.step utcEnvironment) (Transparent utcEnvironment) .new
      [nextDaily 9, nextDaily 9] := by
  apply transparent_of_follows
  refine ⟨fun schedule _ hhit => ?_, fun schedule hrequest _ => ?_, trivial⟩
  · exact absurd rfl hhit
  · cases checkRequest_dailyAt.symm.trans hrequest
    have hstores : TracedEngine.new.stores utcEnvironment ⟨some (dailyAt 9), 0, 1, 0, 0⟩ =
        some ⟨dailyAt 9, 0, 1⟩ := by
      decide +kernel
    simp only [TracedEngine.step, nextDaily, hstores]
    exact Function.update_self ..

/-- Two daily schedules: the second one is answered with the run of the first. -/
theorem not_transparent_other_schedule :
    ¬ ∀ events, Follows (TracedEngine.step utcEnvironment) (Transparent utcEnvironment) .new
      events := by
  intro h
  obtain ⟨-, hsecond, -⟩ := h [nextDaily 9, nextDaily 10]
  change TracedEngine.answer _ _ _ = _ at hsecond
  revert hsecond
  decide +kernel

end Nzovu.Calendar
