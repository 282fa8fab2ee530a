import Mathlib.Data.List.Sort
import Nzovu.Calendar.Evaluators
import Nzovu.Foundation.ExpiringCache

/-!
# The Calendar Engine

Translation of `pkg/calendar/core_engine.go`, `exception_handler.go` and `cache.go`: validation of
a schedule, and the calculation of its next runs from the runs of its rules, with the exceptions
applied and the results cached.

- Section 1: exceptions.
- Section 2: validation.
- Section 3: the next runs.
- Section 4: the cache.
-/

namespace Nzovu.Calendar

open Nzovu.Foundation
open Nzovu.Foundation.CivilTime

/-! ## Section 1: Exceptions -/

/-- `exceptionMap[dateKey]`: the last exception listed for the date. -/
def exceptionOn (exceptions : List CalendarException) (timezone : Location) (date : Date) :
    Option CalendarException :=
  (exceptions.filter fun exception => timezone.dateOf exception.day = date).getLast?

/-- `isDateOnly`. -/
def isDateOnly (t : Int) : Bool := t % day = 0

/-- Where a RESCHEDULE moves a run: a date keeps the time of day of the run. -/
def rescheduledTime (timezone : Location) (rescheduleTo : Timestamp) (t : Int) : Int :=
  -- a target at midnight UTC is a date, read in UTC
  if isDateOnly rescheduleTo.asTime then
    let date := utc.dateOf rescheduleTo.asTime
    timezone.date date.year date.month date.day (timezone.secondOfDay t) (t % second)
  else rescheduleTo.asTime

/-- What becomes of one run, apart from extra times. -/
def keptTime (exceptions : List CalendarException) (timezone : Location) (t : Int) : List Int :=
  match exceptionOn exceptions timezone (timezone.dateOf t) with
  | none => [t]
  | some exception =>
    match exception.type with
    | .skip => []
    | .reschedule =>
      match exception.rescheduleTo with
      | some rescheduleTo => [rescheduledTime timezone rescheduleTo t]
      | none => []
    | .extra => [t]
    -- a type that is not known leaves the run alone
    | .unknown _ => [t]

/-- The extra times that come with one run. -/
def extraTimes (exceptions : List CalendarException) (timezone : Location) (t : Int) : List Int :=
  match exceptionOn exceptions timezone (timezone.dateOf t) with
  | none => []
  | some exception =>
    if exception.type = .extra then atTimes timezone (timezone.dateOf t) exception.extraTimes
    else []

/-- `sort.Slice` by `Before`. -/
def sortTimes (times : List Int) : List Int := times.insertionSort (· ≤ ·)

/-- `ApplyExceptions`. -/
def applyExceptions (times : List Int) (exceptions : List CalendarException)
    (timezone : Location) : List Int :=
  -- without exceptions nothing is sorted
  if exceptions = [] then times
  else sortTimes (times.flatMap (keptTime exceptions timezone) ++
    times.flatMap (extraTimes exceptions timezone))

/-! ## Section 2: Validation -/

/-- `validateTimeOfDay` of the extra times, with the index of each. -/
def validateExtraTimes : Nat → List TimeOfDay → Except CalendarError Unit
  | _, [] => .ok ()
  | j, t :: rest =>
    let refuse := fun text => .error
      ((CalendarError.plain text).wrap s!"extra_time {j} validation failed")
    if t.hour < 0 ∨ 23 < t.hour then refuse s!"invalid hour: {t.hour} (must be 0-23)"
    else if t.minute < 0 ∨ 59 < t.minute then
      refuse s!"invalid minute: {t.minute} (must be 0-59)"
    else if t.second < 0 ∨ 59 < t.second then
      refuse s!"invalid second: {t.second} (must be 0-59)"
    else validateExtraTimes (j + 1) rest

/-- `validateException`. -/
def validateException (exception : CalendarException) : Except CalendarError Unit :=
  if exception.date = none then .error (.plain "exception date is required")
  else
    match exception.type with
    | .skip => .ok ()
    | .reschedule =>
      if exception.rescheduleTo = none then
        .error (.plain "reschedule_to is required for RESCHEDULE exception")
      else .ok ()
    | .extra =>
      if exception.extraTimes = [] then
        .error (.plain "extra_times is required for EXTRA exception")
      else validateExtraTimes 0 exception.extraTimes
    | .unknown number => .error (.plain s!"unknown exception type: {number}")

/-- `ValidateExceptions`. -/
def validateExceptions : Nat → List CalendarException → Except CalendarError Unit
  | _, [] => .ok ()
  | i, exception :: rest =>
    match validateException exception with
    | .error err => .error (err.wrap s!"exception {i} validation failed")
    | .ok () => validateExceptions (i + 1) rest

/-- What an engine is built from. -/
structure Environment where
  evaluation : EvaluationContext
  /-- `timezoneProvider.ValidateTimezone`, the error if there is one. -/
  validateTimezone : String → Option CalendarError
  /-- `timezoneProvider.GetTimezone`. -/
  getTimezone : String → Except CalendarError Location
  maxFutureCalculations : Nat := 1000
  maxPreviewCount : Int := 100
  maxLookahead : Int := 365 * day
  enableCaching : Bool := true
  cacheTTL : Int := 24 * hour
  cacheMaxEntries : Nat := 10000

/-- `ruleMatchesScheduleType`. -/
def ruleMatchesScheduleType : ScheduleType → RuleConfig → Bool
  | .monthly, .monthly _ => true
  | .weekly, .weekly _ => true
  | .daily, .daily _ => true
  | .yearly, .yearly _ => true
  | .businessDays, .businessDays _ => true
  | _, _ => false

/-- `valid_from` and `valid_until` of rule `i`. -/
def validateValidity (i : Nat) (rule : CalendarRule) : Except CalendarError Unit :=
  match rule.validFrom.bind Timestamp.checkValid with
  | some text => .error (.invalidRule s!"rule {i} valid_from is invalid: {text}")
  | none =>
    match rule.validUntil.bind Timestamp.checkValid with
    | some text => .error (.invalidRule s!"rule {i} valid_until is invalid: {text}")
    | none =>
      if rule.validFrom.any fun validFrom => rule.expired validFrom.asTime then
        .error (.invalidRule s!"rule {i} valid_from must not be after valid_until")
      else .ok ()

/-- The loop of `ValidateSchedule` over the rules. -/
def validateRules (env : Environment) (schedule : CalendarSchedule) :
    Nat → List CalendarRule → Except CalendarError Unit
  | _, [] => .ok ()
  | i, rule :: rest =>
    match rule.rule with
    | none => .error (.invalidRule s!"rule {i} has no rule configuration")
    | some config =>
      -- every rule has the type of the schedule
      if ruleMatchesScheduleType schedule.type config then
        match validateValidity i rule with
        | .error err => .error err
        | .ok () =>
          match validateRule env.evaluation schedule.businessCalendar rule with
          | .error err => .error (err.wrap s!"rule {i} validation failed")
          | .ok () => validateRules env schedule (i + 1) rest
      else
        .error (.invalidRule
          s!"rule {i} does not match calendar schedule type {schedule.type.text}")

/-- `validateBusinessCalendar`. -/
def validateBusinessCalendar (env : Environment) (calendar : BusinessCalendar) :
    Except CalendarError Unit :=
  if calendar.calendarId = "" then .error (.plain "business calendar ID is required")
  else
    match calendar.weekendDays.find? fun weekendDay => weekendDay < 1 || 7 < weekendDay with
    | some weekendDay => .error (.plain s!"invalid weekend day: {weekendDay}")
    | none =>
      -- the timezone of a calendar is optional
      match if calendar.timezone = "" then none else env.validateTimezone calendar.timezone with
      | some err => .error (err.wrap "invalid business calendar timezone")
      | none => .ok ()

/-- `ValidateSchedule`; a nil schedule is `none`. -/
def validateSchedule (env : Environment) (schedule : Option CalendarSchedule) :
    Except CalendarError Unit :=
  match schedule with
  | none => .error (.invalidSchedule "calendar schedule is nil")
  | some schedule =>
    if schedule.timezone = "" then .error (.invalidTimezone "timezone is required")
    else
      match env.validateTimezone schedule.timezone with
      | some err =>
        .error (.invalidTimezone s!"invalid timezone {schedule.timezone}: {err.text}")
      | none =>
        if schedule.type = .custom then
          .error (.invalidSchedule "custom calendar schedules are not supported")
        else if schedule.rules = [] then .error (.invalidSchedule "no rules specified")
        else do
          validateRules env schedule 0 schedule.rules
          match schedule.businessCalendar with
          | none => pure ()
          | some calendar =>
            (validateBusinessCalendar env calendar).mapError
              (.wrap "business calendar validation failed")
          (validateExceptions 0 schedule.exceptions).mapError
            (.wrap "exceptions validation failed")

/-! ## Section 3: The next runs -/

/-- The runs of the rules that begin before `searchEnd`. A rule that returns an error is left
out. -/
def ruleCandidates (env : Environment) (schedule : CalendarSchedule) (timezone : Location)
    (start searchEnd : Int) : List CalendarRule → Result (List Int)
  | [] => .ok []
  | rule :: rest =>
    match evaluateRuleMultiple env.evaluation schedule.businessCalendar rule timezone start
        env.maxFutureCalculations with
    | .error .loops => .error .loops
    -- "Skip rules that error out"
    | .error (.error _) => ruleCandidates env schedule timezone start searchEnd rest
    | .ok times =>
      match ruleCandidates env schedule timezone start searchEnd rest with
      | .error stop => .error stop
      | .ok others => .ok ((times.filter fun t => t < searchEnd) ++ others)

/-- The extra times of all EXTRA exceptions that lie in the search window. -/
def extraCandidates (schedule : CalendarSchedule) (timezone : Location) (start searchEnd : Int) :
    List Int :=
  schedule.exceptions.flatMap fun exception =>
    if exception.type = .extra ∧ exception.date ≠ none then
      (atTimes timezone (timezone.dateOf exception.day) exception.extraTimes).filter fun t =>
        start < t && t < searchEnd
    else []

/-- `removeDuplicateTimes`: the first instant of each second. -/
def keepFirst (seen : List Int) : List Int → List Int
  | [] => []
  | t :: rest =>
    -- `Unix` drops the nanoseconds
    if unix t ∈ seen then keepFirst seen rest else t :: keepFirst (unix t :: seen) rest

/-- `removeDuplicateTimes`. -/
def removeDuplicateTimes (times : List Int) : List Int := keepFirst [] times

/-- The candidates of all rules and exceptions, sorted, one in each second. -/
def candidateTimes (env : Environment) (schedule : CalendarSchedule) (timezone : Location)
    (start : Int) : Result (List Int) :=
  match ruleCandidates env schedule timezone start (start + env.maxLookahead) schedule.rules with
  | .error stop => .error stop
  | .ok ofRules =>
    .ok (removeDuplicateTimes (sortTimes
      (ofRules ++ extraCandidates schedule timezone start (start + env.maxLookahead))))

/-- `CalculateNextRuns` from the candidates on: all runs it finds, before they are cut to the
requested count. -/
def finalTimes (schedule : CalendarSchedule) (timezone : Location) (candidates : List Int) :
    List Int :=
  removeDuplicateTimes (applyExceptions candidates schedule.exceptions timezone)

/-- `CalculateNextRuns` after the cache has been asked. -/
def computeNextRuns (env : Environment) (schedule : CalendarSchedule) (start : Int)
    (count : Int) : Result (List Int) :=
  match env.getTimezone schedule.timezone with
  | .error err => fail (err.wrap "failed to get timezone")
  | .ok timezone =>
    match candidateTimes env schedule timezone start with
    | .error stop => .error stop
    | .ok [] => fail (.noExecutionTime "no rules produced valid execution times")
    | .ok candidates => .ok ((finalTimes schedule timezone candidates).take count.toNat)

/-! ## Section 4: The cache -/

/-- The execution cache of an engine. -/
abbrev ExecutionCache := Cache String (List Int)

/-- `generateCacheKey`. -/
def generateCacheKey (schedule : CalendarSchedule) (start count : Int) : String :=
  s!"{schedule.timezone}_{unix start}_{count}_{schedule.rules.length}"

/-- What `CalculateNextRuns` checks before anything else. -/
def checkRequest (env : Environment) (schedule : Option CalendarSchedule) (count : Int) :
    Result CalendarSchedule :=
  if count ≤ 0 then fail (.plain s!"count must be positive, got {count}")
  else if env.maxPreviewCount < count then
    fail (.plain s!"count {count} exceeds maximum preview count {env.maxPreviewCount}")
  else
    match validateSchedule env schedule, schedule with
    | .error err, _ => fail (err.wrap "invalid calendar schedule")
    | .ok (), none => fail (.invalidSchedule "calendar schedule is nil")
    | .ok (), some schedule => .ok schedule

/-- `CalculateNextRuns` of an engine that caches: `now` is the clock when the cache is asked, and
`later` when the result is stored. -/
def cachedNextRuns (env : Environment) (now later : Int) (cache : ExecutionCache)
    (schedule : CalendarSchedule) (start count : Int) : ExecutionCache × Result (List Int) :=
  let key := generateCacheKey schedule start count
  match cache.get env.cacheTTL now key with
  | (cache, cached) =>
    -- an entry that is too short does not count as a hit
    match cached.filter fun times => count ≤ times.length with
    | some times => (cache, .ok (times.take count.toNat))
    | none =>
      match computeNextRuns env schedule start count with
      | .error stop => (cache, .error stop)
      | .ok times =>
        (cache.set env.cacheTTL env.cacheMaxEntries later key times, .ok times)

/-- `CalculateNextRuns`. -/
def calculateNextRuns (env : Environment) (now later : Int) (cache : ExecutionCache)
    (schedule : Option CalendarSchedule) (start count : Int) :
    ExecutionCache × Result (List Int) :=
  match checkRequest env schedule count with
  | .error stop => (cache, .error stop)
  | .ok schedule =>
    if env.enableCaching then cachedNextRuns env now later cache schedule start count
    else (cache, computeNextRuns env schedule start count)

/-- `CalculateNextRun`. -/
def calculateNextRun (env : Environment) (now later : Int) (cache : ExecutionCache)
    (schedule : Option CalendarSchedule) (start : Int) : ExecutionCache × Result Int :=
  match calculateNextRuns env now later cache schedule start 1 with
  | (cache, .error stop) => (cache, .error stop)
  | (cache, .ok []) =>
    (cache, fail (.noExecutionTime "all execution times were filtered out by exceptions"))
  | (cache, .ok (t :: _)) => (cache, .ok t)

end Nzovu.Calendar
