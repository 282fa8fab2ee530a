import Nzovu.Background.Services
import Nzovu.Calendar.Engine
import Nzovu.Repository.Migration

/-!
# Schedule Rows

The rows of `cq_schedules` and `cq_schedule_history`, and the protobuf metadata stored with a
schedule (`proto/schedule/v1/schedule.proto`). The columns repeat parts of the metadata: state, next
run and last run, the instants in milliseconds.

Payload and headers of a schedule, which are only copied to its messages, and the archive of deleted
schedules are left out.
-/

namespace Nzovu.Schedules

open Nzovu.Foundation
open Nzovu.Repository
open Nzovu.Calendar (CalendarSchedule)

/-! ## Section 1: Schedules -/

/-- `Schedule.Metadata.State`. -/
inductive ScheduleState where
  | scheduled
  | canceled
  | errored
  | paused
deriving DecidableEq, Repr

/-- `schedule_config`; a calendar schedule may be sent empty. -/
inductive ScheduleConfig where
  | cron (expression : String)
  | calendar (schedule : Option CalendarSchedule)
deriving DecidableEq, Repr

/-- `Schedule.Metadata`. Instants are nanoseconds since the Unix epoch. -/
structure ScheduleMetadata where
  state : ScheduleState := .scheduled
  config : Option ScheduleConfig
  queueName : String
  messageIds : List String := []
  nextRun : Option Int := none
  lastRun : Option Int := none
  createdAt : Option Int := none
  updatedAt : Option Int := none
  stateMessage : String := ""
  priority : Int := 0
  hasMaxMessages : Bool := false
  maxMessages : Int := 0
  leaseDuration : Option Duration := none
  timezone : String := ""
  nextRuns : List Int := []
deriving DecidableEq, Repr

namespace ScheduleMetadata

/-- `GetCronSchedule`. -/
def cronSchedule (metadata : ScheduleMetadata) : String :=
  match metadata.config with
  | some (.cron expression) => expression
  | _ => ""

/-- `GetCalendarSchedule`. -/
def calendarSchedule (metadata : ScheduleMetadata) : Option CalendarSchedule :=
  match metadata.config with
  | some (.calendar schedule) => schedule
  | _ => none

/-- The schedule has had all the messages it may have. -/
def limitReached (metadata : ScheduleMetadata) (executionCount : Int) : Bool :=
  metadata.hasMaxMessages && metadata.maxMessages ≤ executionCount

end ScheduleMetadata

/-- A row of `cq_schedules`, without its id, which is the primary key. -/
structure ScheduleRow where
  queueName : String
  /-- The decoded `metadata_pb` column. -/
  metadata : ScheduleMetadata
  state : ScheduleState
  cronSchedule : Option String
  nextRun : Option Int
  lastRun : Option Int
  executionCount : Int
  createdAt : Int
  updatedAt : Int
deriving DecidableEq, Repr

/-- A row of `cq_schedule_history`. -/
structure HistoryRow where
  scheduleId : String
  messageId : String
  executedAt : Int
  success : Bool
  errorMessage : Option String := none
deriving DecidableEq, Repr

/-- `time.UnixMilli`. -/
def ofUnixMilli (ms : Int) : Int := ms * 1000000

@[simp] theorem unixMilli_ofUnixMilli (ms : Int) : unixMilli (ofUnixMilli ms) = ms := by
  simp only [unixMilli, ofUnixMilli, Int.fdiv_eq_ediv_of_nonneg _ (by decide : (0 : Int) ≤ 1000000)]
  omega

/-! ## Section 2: Calls -/

/-- The text of a wrapped error. -/
def wrapped (context text : String) : String := context ++ ": " ++ text

/-- What a transaction meets outside the database: the clock, in nanoseconds, and the errors of
the payload encryption. -/
structure Circumstances where
  clock : Nat → Int
  decryptError : Option String := none
  encryptError : Option String := none

/-- A call to the calendar engine: the engine, its cache, and the clock when it is asked and when it
stores a result. -/
structure EngineCall where
  env : Calendar.Environment
  cache : Calendar.ExecutionCache
  now : Int
  later : Int

/-- `ValidateSchedule`, the error if there is one. -/
def EngineCall.validate (engine : EngineCall) (schedule : CalendarSchedule) :
    Option Calendar.CalendarError :=
  match Calendar.validateSchedule engine.env (some schedule) with
  | .ok () => none
  | .error err => some err

/-- `CalculateNextRun`. -/
def EngineCall.nextRun (engine : EngineCall) (schedule : CalendarSchedule) (start : Int) :
    Calendar.Result Int :=
  (Calendar.calculateNextRun engine.env engine.now engine.later engine.cache (some schedule)
    start).2

/-- Why the message of a run is not inserted. -/
inductive CreateError where
  | queueNotFound
  | validation (text : String)
  /-- An error before any statement has failed. -/
  | unprepared (text : String)
  /-- A statement was refused. -/
  | refused (text : String)
deriving DecidableEq, Repr

/-- `err.Error()`. -/
def CreateError.text : CreateError → String
  | .queueNotFound => "queue not found"
  | .validation text => text
  | .unprepared text => text
  | .refused text => text

/-- After a refused statement Postgres refuses all others of the transaction. -/
def CreateError.aborts : Backend → CreateError → Bool
  | .postgres, .refused _ => true
  | _, _ => false

/-- What a processor asks for when it inserts the message of a run. -/
structure RunRequest where
  queueName : String
  priority : Int
  leaseDuration : Option Duration
  /-- Instant of the run, in nanoseconds. -/
  runTime : Int
deriving DecidableEq, Repr

/-- An inserted message: its id, and what the insertion has left behind. -/
structure Created (σ : Type) where
  messageId : String
  store : σ
deriving DecidableEq, Repr

/-- What a processor's transaction on a schedule amounts to. -/
inductive Processed (σ : Type) where
  /-- Rolled back with an error. -/
  | failed (error : String)
  /-- Committed without a change. -/
  | unchanged
  /-- Committed with a new row, new history rows, and a message with the request for it, if there
  is one. -/
  | committed (row : ScheduleRow) (history : List HistoryRow)
      (fired : Option (RunRequest × Created σ))

end Nzovu.Schedules
