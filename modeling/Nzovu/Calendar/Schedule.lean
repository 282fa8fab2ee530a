import Nzovu.Foundation.CivilTime

/-!
# Calendar Schedules

The protobuf messages of `proto/schedule/v1/schedule.proto` that describe a calendar schedule, and
the errors of `pkg/calendar/types`. A list of messages has no nil elements, as decoding leaves it.
-/

namespace Nzovu.Calendar

open Nzovu.Foundation

/-! ## Section 1: Rules -/

/-- `google.protobuf.Timestamp`. -/
structure Timestamp where
  seconds : Int
  nanos : Int
deriving DecidableEq, Repr

/-- `AsTime`; a nil timestamp is the Unix epoch. -/
def Timestamp.asTime (t : Timestamp) : Int := t.seconds * CivilTime.second + t.nanos

/-- `CheckValid`, the error if there is one. -/
def Timestamp.checkValid (t : Timestamp) : Option String :=
  let text := s!"timestamp (seconds:{t.seconds} nanos:{t.nanos})"
  if t.seconds < -62135596800 then some (text ++ " before 0001-01-01")
  else if 253402300799 < t.seconds then some (text ++ " after 9999-12-31")
  else if t.nanos < 0 ∨ 1000000000 ≤ t.nanos then some (text ++ " has out-of-range nanos")
  else none

/-- `TimeOfDay`. -/
structure TimeOfDay where
  hour : Int := 0
  minute : Int := 0
  second : Int := 0
deriving DecidableEq, Repr

/-- The second of the day. -/
def TimeOfDay.seconds (t : TimeOfDay) : Int := t.hour * 3600 + t.minute * 60 + t.second

/-- `MonthlyRule.DayType`. -/
inductive DayType where
  | dayOfMonth
  | weekdayOfMonth
  | lastWeekday
  | lastDay
  | unknown (number : Int)
deriving DecidableEq, Repr

structure MonthlyRule where
  dayType : DayType
  dayValue : Int
  occurrence : Int
  months : List Int
deriving DecidableEq, Repr

structure WeeklyRule where
  daysOfWeek : List Int
  weekInterval : Int
  startWeek : Option Timestamp
deriving DecidableEq, Repr

structure DailyRule where
  dayInterval : Int
  weekdaysOnly : Bool
  startDate : Option Timestamp
deriving DecidableEq, Repr

structure YearlyRule where
  month : Int
  day : Int
  adjustForLeapYear : Bool
deriving DecidableEq, Repr

structure BusinessDaysRule where
  businessCalendarId : String
  dayOffset : Int
deriving DecidableEq, Repr

/-- The `oneof` of a rule. -/
inductive RuleConfig where
  | monthly (rule : MonthlyRule)
  | weekly (rule : WeeklyRule)
  | daily (rule : DailyRule)
  | yearly (rule : YearlyRule)
  | businessDays (rule : BusinessDaysRule)
  | custom
deriving DecidableEq, Repr

/-- `CalendarRule`. -/
structure CalendarRule where
  rule : Option RuleConfig
  executionTimes : List TimeOfDay := []
  validFrom : Option Timestamp := none
  validUntil : Option Timestamp := none
deriving DecidableEq, Repr

/-! ## Section 2: Schedules -/

/-- `HolidayRule`: `FixedDate`, `RelativeDate` or `EasterOffset`. -/
inductive HolidayRule where
  | fixed (month day : Int)
  | relative (month weekday occurrence : Int)
  | easterOffset (daysOffset : Int)
deriving DecidableEq, Repr

/-- `Holiday`. -/
structure Holiday where
  date : Option Timestamp := none
  recurringYearly : Bool
  rule : Option HolidayRule := none
deriving DecidableEq, Repr

/-- `BusinessCalendar`. -/
structure BusinessCalendar where
  calendarId : String
  holidays : List Holiday
  weekendDays : List Int
  timezone : String
deriving DecidableEq, Repr

/-- `CalendarException.ExceptionType`. -/
inductive ExceptionType where
  | skip
  | reschedule
  | extra
  | unknown (number : Int)
deriving DecidableEq, Repr

/-- `CalendarException`. -/
structure CalendarException where
  date : Option Timestamp
  type : ExceptionType
  rescheduleTo : Option Timestamp := none
  extraTimes : List TimeOfDay := []
deriving DecidableEq, Repr

/-- `exception.GetDate().AsTime()`. -/
def CalendarException.day (exception : CalendarException) : Int :=
  (exception.date.getD ⟨0, 0⟩).asTime

/-- `CalendarSchedule.ScheduleType`. -/
inductive ScheduleType where
  | monthly
  | weekly
  | daily
  | yearly
  | businessDays
  | custom
  | unknown (number : Int)
deriving DecidableEq, Repr

/-- `Type.String()`. -/
def ScheduleType.text : ScheduleType → String
  | .monthly => "MONTHLY"
  | .weekly => "WEEKLY"
  | .daily => "DAILY"
  | .yearly => "YEARLY"
  | .businessDays => "BUSINESS_DAYS"
  | .custom => "CUSTOM"
  | .unknown number => toString number

/-- `CalendarSchedule`. -/
structure CalendarSchedule where
  type : ScheduleType
  rules : List CalendarRule
  timezone : String
  businessCalendar : Option BusinessCalendar := none
  exceptions : List CalendarException := []
deriving DecidableEq, Repr

/-! ## Section 3: Errors -/

/-- An error of the calendar engine: its text, and the code of the `CalendarError` in its chain, or
`""` when there is none. -/
structure CalendarError where
  code : String
  text : String
deriving DecidableEq, Repr

namespace CalendarError

/-- `fmt.Errorf(text)`. -/
def plain (text : String) : CalendarError := ⟨"", text⟩

/-- `fmt.Errorf("context: %w", err)`. -/
def wrap (context : String) (err : CalendarError) : CalendarError :=
  { err with text := context ++ ": " ++ err.text }

/-- `ErrInvalidSchedule.WithDetails`. -/
def invalidSchedule (details : String) : CalendarError :=
  ⟨"INVALID_SCHEDULE", "Invalid calendar schedule: " ++ details⟩

/-- `ErrInvalidRule.WithDetails`. -/
def invalidRule (details : String) : CalendarError :=
  ⟨"INVALID_RULE", "Invalid calendar rule: " ++ details⟩

/-- `ErrInvalidTimezone.WithDetails`. -/
def invalidTimezone (details : String) : CalendarError :=
  ⟨"INVALID_TIMEZONE", "Invalid timezone: " ++ details⟩

/-- `ErrNoExecutionTime.WithDetails`. -/
def noExecutionTime (details : String) : CalendarError :=
  ⟨"NO_EXECUTION_TIME", "No execution time found: " ++ details⟩

/-- `ErrBusinessCalendarNotFound.WithDetails`. -/
def businessCalendarNotFound (details : String) : CalendarError :=
  ⟨"BUSINESS_CALENDAR_NOT_FOUND", "Business calendar not found: " ++ details⟩

/-- `ErrRuleEvaluatorNotFound.WithDetails`. -/
def ruleEvaluatorNotFound (details : String) : CalendarError :=
  ⟨"RULE_EVALUATOR_NOT_FOUND", "Rule evaluator not found: " ++ details⟩

end CalendarError

/-- Why a computation has no result. -/
inductive Stop where
  /-- It never ends. -/
  | loops
  | error (err : CalendarError)
deriving DecidableEq, Repr

instance decidableEqExcept {ε α : Type} [DecidableEq ε] [DecidableEq α] :
    DecidableEq (Except ε α)
  | .ok a, .ok b =>
    if h : a = b then isTrue (congrArg _ h) else isFalse fun heq => h (Except.ok.inj heq)
  | .error e, .error f =>
    if h : e = f then isTrue (congrArg _ h) else isFalse fun heq => h (Except.error.inj heq)
  | .ok _, .error _ => isFalse nofun
  | .error _, .ok _ => isFalse nofun

/-- The result of a computation of the engine. -/
abbrev Result := Except Stop

/-- Return an error. -/
def fail {α : Type} (err : CalendarError) : Result α := .error (.error err)

end Nzovu.Calendar
