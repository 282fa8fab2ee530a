import Nzovu.Calendar.Schedule

/-!
# Rule Evaluators

Translation of `pkg/calendar/evaluators`: the next run of a rule after an instant, for the five
kinds of rules. Every evaluator walks through days, months or years, and takes the first of the
listed execution times there that lies after the instant it started from; the walk is `search`.

- Section 1: searching.
- Sections 2 to 6: the evaluators.
- Section 7: the registry.
- Section 8: a run lies after the instant it was asked for.
-/

namespace Nzovu.Calendar

open Nzovu.Foundation
open Nzovu.Foundation.CivilTime

/-! ## Section 1: Searching -/

/-- At most `attempts` places are visited; each offers candidates, and the first one after `start`
is taken. -/
def search {σ : Type} (start : Int) (candidates : σ → Result (List Int)) (advance : σ → σ) :
    Nat → σ → Result (Option Int)
  | 0, _ => .ok none
  | attempts + 1, place =>
    match candidates place with
    | .error stop => .error stop
    | .ok times =>
      -- the first that passes `candidate.After(from)`, in the order of the list
      match times.find? fun t => start < t with
      | some t => .ok (some t)
      | none => search start candidates advance attempts (advance place)

/-- The result of a search, with the error of a search without one. -/
def searchResult (details : String) : Result (Option Int) → Result Int
  | .ok (some t) => .ok t
  | .ok none => fail (.noExecutionTime details)
  | .error stop => .error stop

/-- The instants at the execution times of a date. -/
def atTimes (timezone : Location) (date : Date) (executionTimes : List TimeOfDay) : List Int :=
  executionTimes.map fun t => timezone.date date.year date.month date.day t.seconds 0

/-- The execution times of a rule, or the default. -/
def CalendarRule.timesOr (rule : CalendarRule) (default : TimeOfDay) : List TimeOfDay :=
  if rule.executionTimes = [] then [default] else rule.executionTimes

/-- `fromLocal`: a rule is evaluated from `valid_from` on. -/
def CalendarRule.start (rule : CalendarRule) (start : Int) : Int :=
  match rule.validFrom with
  | none => start
  | some validFrom => if start < validFrom.asTime then validFrom.asTime else start

/-- The rule's validity has ended. -/
def CalendarRule.expired (rule : CalendarRule) (start : Int) : Bool :=
  rule.validUntil.any fun validUntil => validUntil.asTime < start

/-- The part the evaluators share: no run after `valid_until`, else those from `fromLocal` on. -/
def CalendarRule.evaluateFrom (rule : CalendarRule) (start : Int) (next : Int → Result Int) :
    Result Int :=
  if rule.expired start then fail (.noExecutionTime "rule validity period has expired")
  else next (rule.start start)

/-- `validateTimeOfDay` of a list of execution times. -/
def validateExecutionTimes : List TimeOfDay → Except CalendarError Unit
  | [] => .ok ()
  | t :: rest =>
    if t.hour < 0 ∨ 23 < t.hour then .error (.invalidRule s!"invalid hour: {t.hour}")
    else if t.minute < 0 ∨ 59 < t.minute then .error (.invalidRule s!"invalid minute: {t.minute}")
    else if t.second < 0 ∨ 59 < t.second then .error (.invalidRule s!"invalid second: {t.second}")
    else validateExecutionTimes rest

/-! ## Section 2: Daily rules -/

namespace Daily

/-- `isValidDay`. -/
def isValidDay (date referenceDate dayInterval : Int) : Bool :=
  dayInterval ≤ 1 || (periods (sub date referenceDate) 24).tmod dayInterval = 0

/-- `isWeekend`. -/
def isWeekend (timezone : Location) (date : Int) : Bool :=
  timezone.weekday date = 6 || timezone.weekday date = 0

/-- What one day offers. -/
def candidates (timezone : Location) (rule : DailyRule) (dayInterval referenceDate : Int)
    (executionTimes : List TimeOfDay) (currentDate : Int) : List Int :=
  -- a day that is not due is passed over, and so is a weekend under `weekdays_only`
  if isValidDay currentDate referenceDate dayInterval &&
      !(rule.weekdaysOnly && isWeekend timezone currentDate) then
    atTimes timezone (timezone.dateOf currentDate) executionTimes
  else []

/-- `Evaluate`. -/
def evaluate (rule : CalendarRule) (daily : DailyRule) (timezone : Location) (start : Int) :
    Result Int :=
  rule.evaluateFrom start fun fromLocal =>
    let dayInterval := if daily.dayInterval ≤ 0 then 1 else daily.dayInterval
    let referenceDate := (daily.startDate.map (·.asTime)).getD fromLocal
    searchResult "no valid execution time found within 1 year"
      (search fromLocal
        (fun currentDate =>
          .ok (candidates timezone daily dayInterval referenceDate (rule.timesOr {}) currentDate))
        (· + day) 365 (truncateDay fromLocal))

/-- `Validate`. -/
def validate (rule : CalendarRule) (daily : DailyRule) : Except CalendarError Unit :=
  if daily.dayInterval < 0 then .error (.invalidRule "day interval cannot be negative")
  else validateExecutionTimes rule.executionTimes

end Daily

/-! ## Section 3: Weekly rules -/

namespace Weekly

/-- `goWeekdayToOurs`: Monday is `1`, Sunday `7`. -/
def goWeekdayToOurs (weekday : Int) : Int := if weekday = 0 then 7 else weekday

/-- `getWeekStart`. -/
def getWeekStart (timezone : Location) (date : Int) : Int :=
  let daysToSubtract := timezone.weekday date - 1
  let daysToSubtract := if daysToSubtract < 0 then daysToSubtract + 7 else daysToSubtract
  let weekStart := timezone.dateOf (date - daysToSubtract * day)
  timezone.date weekStart.year weekStart.month weekStart.day 0 0

/-- `isValidWeek`. -/
def isValidWeek (timezone : Location) (date referenceWeek weekInterval : Int) : Bool :=
  weekInterval ≤ 1 ||
    -- elapsed hours over the hours of a week, truncated by `int`
    (periods (sub (getWeekStart timezone date) (getWeekStart timezone referenceWeek)) (24 * 7)).tmod
      weekInterval = 0

/-- What one day offers. -/
def candidates (timezone : Location) (rule : WeeklyRule) (weekInterval referenceWeek : Int)
    (executionTimes : List TimeOfDay) (currentDate : Int) : List Int :=
  if isValidWeek timezone currentDate referenceWeek weekInterval then
    rule.daysOfWeek.flatMap fun validDay =>
      if goWeekdayToOurs (timezone.weekday currentDate) = validDay then
        atTimes timezone (timezone.dateOf currentDate) executionTimes
      else []
  else []

/-- `Evaluate`. -/
def evaluate (rule : CalendarRule) (weekly : WeeklyRule) (timezone : Location) (start : Int) :
    Result Int :=
  rule.evaluateFrom start fun fromLocal =>
    let weekInterval := if weekly.weekInterval ≤ 0 then 1 else weekly.weekInterval
    let referenceWeek := (weekly.startWeek.map (·.asTime)).getD fromLocal
    if weekly.daysOfWeek = [] then fail (.invalidRule "no days of week specified")
    else
      searchResult "no valid execution time found within search window"
        (search fromLocal
          (fun currentDate =>
            .ok (candidates timezone weekly weekInterval referenceWeek (rule.timesOr {})
              currentDate))
          (· + day) (14 * weekInterval).toNat (truncateDay fromLocal))

/-- `Validate`. -/
def validate (rule : CalendarRule) (weekly : WeeklyRule) : Except CalendarError Unit :=
  if weekly.daysOfWeek = [] then .error (.invalidRule "no days of week specified")
  else
    match weekly.daysOfWeek.find? fun day => day < 1 || 7 < day with
    | some day => .error (.invalidRule s!"invalid day of week: {day} (must be 1-7)")
    | none =>
      if weekly.weekInterval < 0 then .error (.invalidRule "week interval cannot be negative")
      else validateExecutionTimes rule.executionTimes

end Weekly

/-! ## Section 4: Monthly rules -/

namespace Monthly

/-- `rule.Months`, or all months. -/
def validMonths (rule : MonthlyRule) : List Int :=
  -- without months, all of them
  if rule.months = [] then [1, 2, 3, 4, 5, 6, 7, 8, 9, 10, 11, 12] else rule.months

/-- `time.Date(year, month, 0, 0, 0, 0, 0, timezone).Day()`, which is the length of the month
before. -/
def daysInMonth (timezone : Location) (year month : Int) : Int :=
  (timezone.dateOf (timezone.date year month 0 0 0)).day

/-- The day of the month `evaluateWeekdayOfMonth` looks at. -/
def nthWeekday (timezone : Location) (rule : MonthlyRule) (year month : Int) : Int :=
  let firstOfMonth := timezone.date year month 1 0 0
  let daysUntilWeekday := rule.dayValue - 1 - timezone.weekday firstOfMonth
  let daysUntilWeekday := if daysUntilWeekday < 0 then daysUntilWeekday + 7 else daysUntilWeekday
  1 + daysUntilWeekday + (rule.occurrence - 1) * 7

/-- The last days of the month down to the first, until one falls on the weekday. -/
def lastWeekdayFrom (timezone : Location) (rule : MonthlyRule) (year month : Int) :
    Nat → Option Int
  | 0 => none
  | dayOfMonth + 1 =>
    -- `day_value - 1` as a Go weekday: `1` is Sunday here
    if timezone.weekday (timezone.date year month (dayOfMonth + 1) 0 0) = rule.dayValue - 1 then
      some (dayOfMonth + 1)
    else lastWeekdayFrom timezone rule year month dayOfMonth

/-- The day of the month a rule selects, if the month has it: the cases of `Evaluate`. -/
def selectedDay (timezone : Location) (rule : MonthlyRule) (year month : Int) : Option Int :=
  match rule.dayType with
  | .dayOfMonth =>
    -- compared with the length of the month before
    if rule.dayValue ≤ daysInMonth timezone year month then some rule.dayValue else none
  | .weekdayOfMonth =>
    let targetDay := nthWeekday timezone rule year month
    if targetDay ≤ daysInMonth timezone year month then some targetDay else none
  | .lastWeekday =>
    lastWeekdayFrom timezone rule year month
      (timezone.dateOf (timezone.date year (month + 1) 0 86399 0)).day.toNat
  | .lastDay => some (timezone.dateOf (timezone.date year (month + 1) 0 0 0)).day
  | .unknown _ => none

/-- What one month offers. -/
def candidates (timezone : Location) (rule : MonthlyRule) (executionTimes : List TimeOfDay)
    (place : Int × Int) : List Int :=
  if place.2 ∈ validMonths rule then
    match selectedDay timezone rule place.1 place.2 with
    | some dayOfMonth => atTimes timezone ⟨place.1, place.2, dayOfMonth⟩ executionTimes
    | none => []
  else []

/-- The month after. -/
def nextMonth (place : Int × Int) : Int × Int :=
  -- after December comes January of the next year
  if 12 < place.2 + 1 then (place.1 + 1, 1) else (place.1, place.2 + 1)

/-- `Evaluate`. -/
def evaluate (rule : CalendarRule) (monthly : MonthlyRule) (timezone : Location) (start : Int) :
    Result Int :=
  rule.evaluateFrom start fun fromLocal =>
    match monthly.dayType with
    | .unknown number => fail (.invalidRule s!"unknown monthly rule day type: {number}")
    | _ =>
      searchResult "no valid execution time found within 2 years"
        (search fromLocal
          (fun place => .ok (candidates timezone monthly (rule.timesOr {}) place))
          nextMonth 24 ((timezone.dateOf fromLocal).year, (timezone.dateOf fromLocal).month))

/-- The constraints on `day_value` and `occurrence` of each day type. -/
def validateDay (monthly : MonthlyRule) : Except CalendarError Unit :=
  match monthly.dayType with
  | .dayOfMonth =>
    if monthly.dayValue < 1 ∨ 31 < monthly.dayValue then
      .error (.invalidRule "day_value must be between 1 and 31 for DAY_OF_MONTH")
    else .ok ()
  | .weekdayOfMonth =>
    if monthly.dayValue < 1 ∨ 7 < monthly.dayValue then
      .error (.invalidRule "day_value must be between 1 and 7 for WEEKDAY_OF_MONTH")
    else if monthly.occurrence < 1 ∨ 5 < monthly.occurrence then
      .error (.invalidRule "occurrence must be between 1 and 5 for WEEKDAY_OF_MONTH")
    else .ok ()
  | .lastWeekday =>
    if monthly.dayValue < 1 ∨ 7 < monthly.dayValue then
      .error (.invalidRule "day_value must be between 1 and 7 for LAST_WEEKDAY")
    else .ok ()
  | .lastDay => .ok ()
  | .unknown number => .error (.invalidRule s!"unknown day type: {number}")

/-- `Validate`. -/
def validate (rule : CalendarRule) (monthly : MonthlyRule) : Except CalendarError Unit :=
  match validateDay monthly with
  | .error err => .error err
  | .ok () =>
    match monthly.months.find? fun month => month < 1 || 12 < month with
    | some month => .error (.invalidRule s!"invalid month: {month}")
    | none => validateExecutionTimes rule.executionTimes

end Monthly

/-! ## Section 5: Yearly rules -/

namespace Yearly

/-- `isLeapYear`. -/
def isLeapYear (year : Int) : Bool :=
  year.tmod 4 = 0 && (year.tmod 100 ≠ 0 || year.tmod 400 = 0)

/-- `daysInMonth`. -/
def daysInMonth (year month : Int) : Int :=
  (utc.dateOf (utc.date year (month + 1) 1 0 0 - day)).day

/-- The day of the month in one year; `none` when the year is skipped. -/
def targetDay (rule : YearlyRule) (year : Int) : Option Int :=
  let adjusted :=
    -- a February 29 moves to the 28th, or the year is skipped
    if rule.month = 2 ∧ rule.day = 29 ∧ isLeapYear year = false then
      if rule.adjustForLeapYear then some 28 else none
    else some rule.day
  adjusted.filter fun day => day ≤ daysInMonth year rule.month

/-- What one year offers. -/
def candidates (timezone : Location) (rule : YearlyRule) (executionTimes : List TimeOfDay)
    (year : Int) : List Int :=
  match targetDay rule year with
  | some dayOfMonth => atTimes timezone ⟨year, rule.month, dayOfMonth⟩ executionTimes
  | none => []

/-- `Evaluate`. -/
def evaluate (rule : CalendarRule) (yearly : YearlyRule) (timezone : Location) (start : Int) :
    Result Int :=
  rule.evaluateFrom start fun fromLocal =>
    searchResult "no valid execution time found within 10 years"
      (search fromLocal
        (fun year => .ok (candidates timezone yearly (rule.timesOr {}) year))
        (· + 1) 10 (timezone.dateOf fromLocal).year)

/-- `Validate`. -/
def validate (rule : CalendarRule) (yearly : YearlyRule) : Except CalendarError Unit :=
  if yearly.month < 1 ∨ 12 < yearly.month then
    .error (.invalidRule s!"invalid month: {yearly.month} (must be 1-12)")
  else if yearly.day < 1 ∨ 31 < yearly.day then
    .error (.invalidRule s!"invalid day: {yearly.day} (must be 1-31)")
  else if yearly.month = 2 ∧ yearly.day = 29 ∧ yearly.adjustForLeapYear = false then
    .error (.invalidRule "February 29 requires adjust_for_leap_year to be true")
  else validateExecutionTimes rule.executionTimes

end Yearly

/-! ## Section 6: Business days -/

/-- What the evaluators take from outside: the provider of business calendars, and for how many
days `applyDayOffset` is followed before it is known never to end. -/
structure EvaluationContext where
  businessCalendarProvider : Option (String → Except CalendarError BusinessCalendar)
  offsetDays : Nat

namespace BusinessDays

/-- `isBusinessDay`. -/
def isBusinessDay (timezone : Location) (businessCalendar : BusinessCalendar) (date : Int) : Bool :=
  let weekday := Weekly.goWeekdayToOurs (timezone.weekday date)
  weekday ∉ businessCalendar.weekendDays &&
    businessCalendar.holidays.all fun holiday =>
      let holidayDate := truncateDay (holiday.date.getD ⟨0, 0⟩).asTime
      -- the holiday itself is compared by the UTC day
      holidayDate ≠ truncateDay date &&
        -- a holiday that recurs is compared by month and day, with those of the local date
        !(holiday.recurringYearly &&
          (utc.dateOf holidayDate).month = (timezone.dateOf date).month &&
          (utc.dateOf holidayDate).day = (timezone.dateOf date).day)

/-- The loops of `applyDayOffset`, with steps of a day forward or backward. -/
def moveDays (timezone : Location) (businessCalendar : BusinessCalendar) (step : Int) :
    Nat → Nat → Int → Result Int
  | _, 0, current => .ok current
  -- followed to the end of the given number of days
  | 0, _ + 1, _ => .error .loops
  | fuel + 1, remaining + 1, current =>
    -- only business days count
    if isBusinessDay timezone businessCalendar (current + step) then
      moveDays timezone businessCalendar step fuel remaining (current + step)
    else moveDays timezone businessCalendar step fuel (remaining + 1) (current + step)

/-- `applyDayOffset`. -/
def applyDayOffset (ctx : EvaluationContext) (timezone : Location)
    (businessCalendar : BusinessCalendar) (offset date : Int) : Result Int :=
  moveDays timezone businessCalendar (if 0 < offset then day else -day) ctx.offsetDays
    offset.natAbs date

/-- What one day offers. -/
def candidates (ctx : EvaluationContext) (timezone : Location) (rule : BusinessDaysRule)
    (businessCalendar : BusinessCalendar) (executionTimes : List TimeOfDay) (currentDate : Int) :
    Result (List Int) :=
  if isBusinessDay timezone businessCalendar currentDate then
    match applyDayOffset ctx timezone businessCalendar rule.dayOffset currentDate with
    | .error stop => .error stop
    | .ok targetDate =>
      -- checked once more on the date to which the day was moved
      if isBusinessDay timezone businessCalendar targetDate then
        .ok (atTimes timezone (timezone.dateOf targetDate) executionTimes)
      else .ok []
  else .ok []

/-- `getDefaultBusinessCalendar`. -/
def getDefaultBusinessCalendar : BusinessCalendar where
  calendarId := "default"
  holidays := []
  weekendDays := [6, 7]
  timezone := "UTC"

/-- The calendar of a rule: the inline one of the schedule, else the provider's. -/
def ruleCalendar (ctx : EvaluationContext) (inlineCalendar : Option BusinessCalendar)
    (rule : BusinessDaysRule) : Result BusinessCalendar :=
  -- without an identifier the default calendar is used
  if rule.businessCalendarId = "" then .ok getDefaultBusinessCalendar
  else
    -- the inline calendar goes before the provider's
    match inlineCalendar.filter fun calendar => calendar.calendarId = rule.businessCalendarId with
    | some calendar => .ok calendar
    | none =>
      match ctx.businessCalendarProvider with
      | none => fail (.plain "business calendar provider not configured")
      | some provider =>
        match provider rule.businessCalendarId with
        | .error err => fail (err.wrap "failed to get business calendar")
        | .ok calendar => .ok calendar

/-- `Evaluate`. -/
def evaluate (ctx : EvaluationContext) (inlineCalendar : Option BusinessCalendar)
    (rule : CalendarRule) (business : BusinessDaysRule) (timezone : Location) (start : Int) :
    Result Int :=
  rule.evaluateFrom start fun fromLocal =>
    match ruleCalendar ctx inlineCalendar business with
    | .error stop => .error stop
    | .ok businessCalendar =>
      searchResult "no valid execution time found within 1 year"
        (search fromLocal
          (candidates ctx timezone business businessCalendar (rule.timesOr { hour := 9 }))
          (· + day) 365 (truncateDay fromLocal))

/-- `Validate`. -/
def validate (ctx : EvaluationContext) (inlineCalendar : Option BusinessCalendar)
    (rule : CalendarRule) (business : BusinessDaysRule) : Except CalendarError Unit :=
  if business.dayOffset < -365 ∨ 365 < business.dayOffset then
    .error (.invalidRule s!"day offset out of range: {business.dayOffset}")
  else if business.businessCalendarId ≠ "" ∧
      inlineCalendar.all (fun calendar => calendar.calendarId ≠ business.businessCalendarId) ∧
      ctx.businessCalendarProvider.all (fun provider =>
        !(provider business.businessCalendarId).isOk) then
    .error (.businessCalendarNotFound
      s!"business calendar not found: {business.businessCalendarId}")
  else validateExecutionTimes rule.executionTimes

end BusinessDays

/-! ## Section 7: The registry -/

/-- The error of a rule that has no evaluator; its type counts as custom. -/
def evaluatorNotFound : CalendarError :=
  .ruleEvaluatorNotFound "no evaluator found for rule type: custom"

/-- `EvaluateRule`. -/
def evaluateRule (ctx : EvaluationContext) (inlineCalendar : Option BusinessCalendar)
    (rule : CalendarRule) (timezone : Location) (start : Int) : Result Int :=
  match rule.rule with
  | some (.monthly monthly) => Monthly.evaluate rule monthly timezone start
  | some (.weekly weekly) => Weekly.evaluate rule weekly timezone start
  | some (.daily daily) => Daily.evaluate rule daily timezone start
  | some (.yearly yearly) => Yearly.evaluate rule yearly timezone start
  | some (.businessDays business) =>
    BusinessDays.evaluate ctx inlineCalendar rule business timezone start
  -- no evaluator is registered for custom rules, nor for a rule that is not set
  | some .custom | none => fail evaluatorNotFound

/-- By how much `EvaluateMultiple` moves past a run: a minute, on business days a day. -/
def CalendarRule.stride (rule : CalendarRule) : Int :=
  match rule.rule with
  | some (.businessDays _) => day
  | _ => minute

/-- The loop of `EvaluateMultiple`. The error of a rule without further runs is compared with the
predefined value, of which `WithDetails` has made a copy: no error ends the loop early, each one
fails the call. -/
def evaluateMultiple (evaluate : Int → Result Int) (stride : Int) : Nat → Int → Result (List Int)
  | 0, _ => .ok []
  | count + 1, current =>
    match evaluate current with
    | .error stop => .error stop
    | .ok next =>
      -- `next.Add`: the next evaluation begins past this run
      match evaluateMultiple evaluate stride count (next + stride) with
      | .error stop => .error stop
      | .ok rest => .ok (next :: rest)

/-- `EvaluateRuleMultiple`. -/
def evaluateRuleMultiple (ctx : EvaluationContext) (inlineCalendar : Option BusinessCalendar)
    (rule : CalendarRule) (timezone : Location) (start : Int) (count : Nat) : Result (List Int) :=
  evaluateMultiple (evaluateRule ctx inlineCalendar rule timezone) rule.stride count start

/-- `ValidateRule`. -/
def validateRule (ctx : EvaluationContext) (inlineCalendar : Option BusinessCalendar)
    (rule : CalendarRule) : Except CalendarError Unit :=
  match rule.rule with
  | some (.monthly monthly) => Monthly.validate rule monthly
  | some (.weekly weekly) => Weekly.validate rule weekly
  | some (.daily daily) => Daily.validate rule daily
  | some (.yearly yearly) => Yearly.validate rule yearly
  | some (.businessDays business) => BusinessDays.validate ctx inlineCalendar rule business
  | some .custom | none => .error evaluatorNotFound

/-! ## Section 8: Runs lie ahead -/

/-- What is known of a run found from `start`: it lies after it, at a whole second. -/
structure RunAfter (start t : Int) : Prop where
  after : start < t
  whole : t % second = 0

theorem RunAfter.of_le {start fromLocal t : Int} (h : RunAfter fromLocal t)
    (hle : start ≤ fromLocal) : RunAfter start t :=
  ⟨Int.lt_of_le_of_lt hle h.after, h.whole⟩

theorem atTimes_whole {timezone : Location} {date : Date} {executionTimes : List TimeOfDay}
    {t : Int} (h : t ∈ atTimes timezone date executionTimes) : t % second = 0 := by
  obtain ⟨time, -, rfl⟩ := List.mem_map.mp h
  simp [Location.date]

/-- A search that is offered whole seconds only finds a run after the start. -/
theorem search_spec {σ : Type} {start : Int} {candidates : σ → Result (List Int)}
    {advance : σ → σ} (hwhole : ∀ place times, candidates place = .ok times →
      ∀ t ∈ times, t % second = 0)
    {attempts : Nat} {place : σ} {t : Int}
    (h : search start candidates advance attempts place = .ok (some t)) : RunAfter start t := by
  induction attempts generalizing place with
  | zero => simp [search] at h
  | succ attempts ih =>
    simp only [search] at h
    cases hplace : candidates place with
    | error stop => simp [hplace] at h
    | ok times =>
      cases hfind : times.find? fun t => start < t with
      | none =>
        simp only [hplace, hfind] at h
        exact ih h
      -- found here: it lies after the start, and is one of the candidates
      | some found =>
        simp only [hplace, hfind, Except.ok.injEq, Option.some.injEq] at h
        subst h
        exact ⟨by simpa using List.find?_some hfind,
          hwhole place times hplace _ (List.mem_of_find?_eq_some hfind)⟩

theorem searchResult_ok {details : String} {result : Result (Option Int)} {t : Int}
    (h : searchResult details result = .ok t) : result = .ok (some t) := by
  cases result with
  | error stop => simp [searchResult] at h
  | ok found =>
    cases found with
    | none => simp [searchResult, fail] at h
    | some t' => simpa [searchResult] using h

theorem CalendarRule.le_start (rule : CalendarRule) (start : Int) : start ≤ rule.start start := by
  unfold CalendarRule.start
  cases rule.validFrom with
  | none => exact Int.le_refl _
  | some validFrom =>
    simp only
    split <;> omega

/-- A run after `fromLocal` is one after `from` itself. -/
theorem CalendarRule.evaluateFrom_spec {rule : CalendarRule} {start t : Int}
    {next : Int → Result Int} (hnext : ∀ fromLocal, next fromLocal = .ok t → RunAfter fromLocal t)
    (h : rule.evaluateFrom start next = .ok t) : RunAfter start t := by
  unfold CalendarRule.evaluateFrom at h
  split at h
  · simp [fail] at h
  · exact (hnext _ h).of_le (rule.le_start start)

theorem Daily.candidates_whole {timezone : Location} {rule : DailyRule}
    {dayInterval referenceDate currentDate t : Int} {executionTimes : List TimeOfDay}
    (h : t ∈ Daily.candidates timezone rule dayInterval referenceDate executionTimes currentDate) :
    t % second = 0 := by
  unfold Daily.candidates at h
  split at h
  · exact atTimes_whole h
  · cases h

theorem Daily.evaluate_spec {rule : CalendarRule} {daily : DailyRule} {timezone : Location}
    {start t : Int} (h : Daily.evaluate rule daily timezone start = .ok t) : RunAfter start t := by
  refine CalendarRule.evaluateFrom_spec (fun fromLocal h => ?_) h
  refine search_spec (fun currentDate times htimes t ht => ?_) (searchResult_ok h)
  cases htimes
  exact Daily.candidates_whole ht

theorem Weekly.candidates_whole {timezone : Location} {rule : WeeklyRule}
    {weekInterval referenceWeek currentDate t : Int} {executionTimes : List TimeOfDay}
    (h : t ∈ Weekly.candidates timezone rule weekInterval referenceWeek executionTimes
      currentDate) : t % second = 0 := by
  unfold Weekly.candidates at h
  split at h
  · obtain ⟨validDay, -, h⟩ := List.mem_flatMap.mp h
    split at h
    · exact atTimes_whole h
    · cases h
  · cases h

theorem Weekly.evaluate_spec {rule : CalendarRule} {weekly : WeeklyRule} {timezone : Location}
    {start t : Int} (h : Weekly.evaluate rule weekly timezone start = .ok t) :
    RunAfter start t := by
  refine CalendarRule.evaluateFrom_spec (fun fromLocal h => ?_) h
  by_cases hdays : weekly.daysOfWeek = []
  · simp [hdays, fail] at h
  · simp only [hdays, if_false] at h
    refine search_spec (fun currentDate times htimes t ht => ?_) (searchResult_ok h)
    cases htimes
    exact Weekly.candidates_whole ht

theorem Monthly.candidates_whole {timezone : Location} {rule : MonthlyRule}
    {executionTimes : List TimeOfDay} {place : Int × Int} {t : Int}
    (h : t ∈ Monthly.candidates timezone rule executionTimes place) : t % second = 0 := by
  unfold Monthly.candidates at h
  split at h
  · split at h
    · exact atTimes_whole h
    · cases h
  · cases h

theorem Monthly.evaluate_spec {rule : CalendarRule} {monthly : MonthlyRule} {timezone : Location}
    {start t : Int} (h : Monthly.evaluate rule monthly timezone start = .ok t) :
    RunAfter start t := by
  refine CalendarRule.evaluateFrom_spec (fun fromLocal h => ?_) h
  split at h
  · simp [fail] at h
  · refine search_spec (fun place times htimes t ht => ?_) (searchResult_ok h)
    cases htimes
    exact Monthly.candidates_whole ht

theorem Yearly.candidates_whole {timezone : Location} {rule : YearlyRule}
    {executionTimes : List TimeOfDay} {year t : Int}
    (h : t ∈ Yearly.candidates timezone rule executionTimes year) : t % second = 0 := by
  unfold Yearly.candidates at h
  split at h
  · exact atTimes_whole h
  · cases h

theorem Yearly.evaluate_spec {rule : CalendarRule} {yearly : YearlyRule} {timezone : Location}
    {start t : Int} (h : Yearly.evaluate rule yearly timezone start = .ok t) :
    RunAfter start t := by
  refine CalendarRule.evaluateFrom_spec (fun fromLocal h => ?_) h
  refine search_spec (fun year times htimes t ht => ?_) (searchResult_ok h)
  cases htimes
  exact Yearly.candidates_whole ht

theorem BusinessDays.candidates_whole {ctx : EvaluationContext} {timezone : Location}
    {rule : BusinessDaysRule} {businessCalendar : BusinessCalendar}
    {executionTimes : List TimeOfDay} {currentDate : Int} {times : List Int}
    (h : BusinessDays.candidates ctx timezone rule businessCalendar executionTimes currentDate =
      .ok times) : ∀ t ∈ times, t % second = 0 := by
  unfold BusinessDays.candidates at h
  split at h
  · split at h
    · cases h
    · split at h
      · cases h
        exact fun t ht => atTimes_whole ht
      · cases h
        simp
  · cases h
    simp

theorem BusinessDays.evaluate_spec {ctx : EvaluationContext}
    {inlineCalendar : Option BusinessCalendar} {rule : CalendarRule} {business : BusinessDaysRule}
    {timezone : Location} {start t : Int}
    (h : BusinessDays.evaluate ctx inlineCalendar rule business timezone start = .ok t) :
    RunAfter start t := by
  refine CalendarRule.evaluateFrom_spec (fun fromLocal h => ?_) h
  split at h
  · cases h
  · exact search_spec (fun _ _ => BusinessDays.candidates_whole) (searchResult_ok h)

/-- The next run of a rule lies after the instant it was asked for. -/
theorem evaluateRule_spec {ctx : EvaluationContext} {inlineCalendar : Option BusinessCalendar}
    {rule : CalendarRule} {timezone : Location} {start t : Int}
    (h : evaluateRule ctx inlineCalendar rule timezone start = .ok t) : RunAfter start t := by
  unfold evaluateRule at h
  split at h
  · exact Monthly.evaluate_spec h
  · exact Weekly.evaluate_spec h
  · exact Daily.evaluate_spec h
  · exact Yearly.evaluate_spec h
  · exact BusinessDays.evaluate_spec h
  · simp [fail] at h
  · simp [fail] at h

theorem CalendarRule.stride_pos (rule : CalendarRule) : 0 < rule.stride := by
  unfold CalendarRule.stride
  split <;> decide

/-- So do all its next runs. -/
theorem evaluateMultiple_spec {evaluate : Int → Result Int} {stride : Int} (hstride : 0 ≤ stride)
    (hevaluate : ∀ start t, evaluate start = .ok t → RunAfter start t) {count : Nat}
    {current : Int} {times : List Int}
    (h : evaluateMultiple evaluate stride count current = .ok times) :
    ∀ t ∈ times, RunAfter current t := by
  induction count generalizing current times with
  | zero =>
    simp only [evaluateMultiple, Except.ok.injEq] at h
    simp [← h]
  | succ count ih =>
    simp only [evaluateMultiple] at h
    cases hnext : evaluate current with
    | error stop => simp [hnext] at h
    | ok next =>
      cases hrest : evaluateMultiple evaluate stride count (next + stride) with
      | error stop => simp [hnext, hrest] at h
      | ok rest =>
        simp only [hnext, hrest, Except.ok.injEq] at h
        subst h
        have hrun := hevaluate current next hnext
        intro t ht
        rcases List.mem_cons.mp ht with rfl | hmem
        · exact hrun
        · have hle : current ≤ next + stride := by
            have hlt := hrun.after
            omega
          exact (ih hrest t hmem).of_le hle

theorem evaluateRuleMultiple_spec {ctx : EvaluationContext}
    {inlineCalendar : Option BusinessCalendar} {rule : CalendarRule} {timezone : Location}
    {start : Int} {count : Nat} {times : List Int}
    (h : evaluateRuleMultiple ctx inlineCalendar rule timezone start count = .ok times) :
    ∀ t ∈ times, RunAfter start t :=
  evaluateMultiple_spec (Int.le_of_lt rule.stride_pos) (fun _ _ => evaluateRule_spec) h

end Nzovu.Calendar
