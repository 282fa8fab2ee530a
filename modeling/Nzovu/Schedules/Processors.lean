import Nzovu.Schedules.Model

/-!
# Schedule Processors

What the background processors do to one schedule: `processSchedule` of
`pkg/repository/sql/background/calendar.go` and of `cron_processor.go`, each inside its transaction,
on the row it has found. The insertion of the run's message is a parameter, `create`; what it does
to the other tables is `createScheduledMessage` of `Database`.

- Section 1: the parts both have.
- Section 2: calendar schedules.
- Section 3: cron schedules.
-/

namespace Nzovu.Schedules

open Nzovu.Foundation
open Nzovu.Repository

/-! ## Section 1: Runs -/

/-- The request for a run of a schedule. -/
def ScheduleRow.run (row : ScheduleRow) (runTime : Int) : RunRequest where
  queueName := row.queueName
  priority := row.metadata.priority
  leaseDuration := row.metadata.leaseDuration
  runTime := runTime

/-- The history row of a run's message. -/
def successHistory (id messageId : String) (runTime : Int) : HistoryRow where
  scheduleId := id
  messageId := messageId
  executedAt := unixMilli runTime
  success := true

/-- The history row of a failure. -/
def failureHistory (id : String) (executedAt : Int) (message : String) : HistoryRow where
  scheduleId := id
  messageId := ""
  executedAt := executedAt
  success := false
  errorMessage := some message

/-- The state message of a schedule that has had all its messages. -/
def limitMessage : String := "maximum message count reached"

/-- The metadata of a failed schedule. -/
def ScheduleMetadata.failWith (metadata : ScheduleMetadata) (message : String) (updatedAt : Int) :
    ScheduleMetadata :=
  { metadata with
    state := .errored
    stateMessage := message
    nextRun := none
    updatedAt := some updatedAt }

/-- Encrypt the schedule's payload, then commit. -/
def Circumstances.encrypted {σ : Type} (c : Circumstances) (commit : Processed σ) : Processed σ :=
  match c.encryptError with
  | some text => .failed (wrapped "encrypt schedule payload" text)
  | none => commit

/-- The metadata after the run at `runTime`; a schedule that has had all its messages is paused. -/
def ScheduleMetadata.fire (metadata : ScheduleMetadata) (executionCount runTime nextRun : Int)
    (stateMessage : String) (updatedAt : Int) : ScheduleMetadata :=
  let metadata := { metadata with messageIds := [], lastRun := some runTime }
  let metadata :=
    if metadata.limitReached executionCount then
      { metadata with state := .paused, stateMessage := limitMessage }
    else { metadata with stateMessage := stateMessage }
  { metadata with nextRun := some nextRun, updatedAt := some updatedAt }

/-! ## Section 2: Calendar schedules -/

namespace CalendarService

variable {σ : Type}

/-- The row of `markScheduleError`. -/
def errorRow (c : Circumstances) (row : ScheduleRow) (metadata : ScheduleMetadata)
    (message : String) : ScheduleRow :=
  { row with
    metadata := metadata.failWith message (c.clock 0)
    state := .errored
    nextRun := none
    updatedAt := unixMilli (c.clock 1) }

/-- `markScheduleError`, after what the transaction has written before. -/
def markScheduleError (c : Circumstances) (id : String) (row : ScheduleRow)
    (metadata : ScheduleMetadata) (message : String) (history : List HistoryRow)
    (fired : Option (RunRequest × Created σ)) : Processed σ :=
  c.encrypted (.committed (errorRow c row metadata message)
    (history ++ [failureHistory id (unixMilli (c.clock 2)) message]) fired)

/-- The row of `pauseAtMessageLimit`: the next run stays. -/
def limitRow (row : ScheduleRow) (nowMs : Int) : ScheduleRow :=
  { row with
    metadata := { row.metadata with
      state := .paused
      stateMessage := limitMessage
      updatedAt := some (ofUnixMilli nowMs) }
    state := .paused
    updatedAt := nowMs }

/-- `pauseAtMessageLimit`. -/
def pauseAtMessageLimit (c : Circumstances) (row : ScheduleRow) (nowMs : Int) : Processed σ :=
  c.encrypted (.committed (limitRow row nowMs) [] none)

/-- The row after the run at `runTime`. -/
def firedRow (row : ScheduleRow) (nowMs runTime nextRun : Int) : ScheduleRow :=
  let metadata := row.metadata.fire (row.executionCount + 1) runTime nextRun
    row.metadata.stateMessage (ofUnixMilli nowMs)
  { row with
    metadata := metadata
    state := metadata.state
    nextRun := some (unixMilli nextRun)
    lastRun := some (unixMilli runTime)
    executionCount := row.executionCount + 1
    updatedAt := nowMs }

/-- The part of `processSchedule` after the message was inserted. `CalculateNextRun` returns a time
or an error; the branches for a nil time are never taken. -/
def finishRun (engine : EngineCall) (c : Circumstances) (id : String) (row : ScheduleRow)
    (schedule : Calendar.CalendarSchedule) (nowMs runTime : Int) (created : Created σ) :
    Processed σ :=
  let history := [successHistory id created.messageId runTime]
  let fired := some (row.run runTime, created)
  match engine.nextRun schedule runTime with
  -- the call does not return, and the transaction ends with its time limit
  | .error .loops => .failed "context deadline exceeded"
  | .error (.error err) =>
    markScheduleError c id row { row.metadata with messageIds := [], lastRun := some runTime }
      err.text history fired
  | .ok nextRun => c.encrypted (.committed (firedRow row nowMs runTime nextRun) history fired)

/-- `processSchedule` on a row that is due at `nextRun`. The next run that it writes into metadata
without one is overwritten on every path that commits. -/
def processDue (backend : Backend) (engine : EngineCall) (c : Circumstances)
    (create : RunRequest → Except CreateError (Created σ)) (id : String) (row : ScheduleRow)
    (nowMs nextRun : Int) : Processed σ :=
  match c.decryptError with
  | some text => .failed (wrapped "decrypt schedule payload" text)
  | none =>
    if row.metadata.limitReached row.executionCount then pauseAtMessageLimit c row nowMs
    else
      match row.metadata.calendarSchedule with
      | none =>
        if row.metadata.cronSchedule ≠ "" then .unchanged
        else markScheduleError c id row row.metadata "missing calendar schedule" [] none
      | some schedule =>
        match engine.validate schedule with
        | some err =>
          markScheduleError c id row row.metadata (wrapped "invalid calendar schedule" err.text)
            [] none
        | none =>
          match create (row.run (ofUnixMilli nextRun)) with
          | .error err =>
            if err.aborts backend then
              .failed "update schedule state: current transaction is aborted"
            else markScheduleError c id row row.metadata err.text [] none
          | .ok created => finishRun engine c id row schedule nowMs (ofUnixMilli nextRun) created

/-- The condition of `collectDueSchedules`. -/
def selects (row : ScheduleRow) (nowMs : Int) : Bool :=
  row.state = .scheduled && row.nextRun.any (fun nextRun => nextRun ≤ nowMs) &&
    (row.cronSchedule = none || row.cronSchedule = some "")

/-- The schedule is due at `nowMs`, and when. -/
def due (row : ScheduleRow) (nowMs : Int) : Option Int :=
  if row.state = .scheduled then row.nextRun.filter fun nextRun => nextRun ≤ nowMs else none

/-- `processSchedule`. -/
def processSchedule (backend : Backend) (engine : EngineCall) (c : Circumstances)
    (create : RunRequest → Except CreateError (Created σ)) (id : String) (row : ScheduleRow)
    (nowMs : Int) : Processed σ :=
  match due row nowMs with
  | none => .unchanged
  | some nextRun => processDue backend engine c create id row nowMs nextRun

end CalendarService

/-! ## Section 3: Cron schedules -/

/-- `cron.ParseStandard`: the function `Next` of an expression, from instant to instant, or the
error. -/
abbrev CronParser := String → Except String (Int → Int)

/-- `time.Time{}`: what `Next` returns when there is no activation. -/
def zeroTime : Int := ofUnixMilli (-62135596800000)

namespace CronProcessorService

variable {σ : Type}

/-- The row of `markScheduleError`. -/
def errorRow (c : Circumstances) (row : ScheduleRow) (metadata : ScheduleMetadata)
    (message : String) : ScheduleRow :=
  { row with
    metadata := metadata.failWith message (c.clock 2)
    state := .errored
    nextRun := none
    updatedAt := unixMilli (c.clock 2) }

/-- `markScheduleError`. -/
def markScheduleError (c : Circumstances) (id : String) (row : ScheduleRow)
    (metadata : ScheduleMetadata) (message : String) : Processed σ :=
  c.encrypted (.committed (errorRow c row metadata message)
    [failureHistory id (unixMilli (c.clock 2)) message] none)

/-- The row of `pauseAtMessageLimit`: the next run is cleared. -/
def limitRow (c : Circumstances) (row : ScheduleRow) : ScheduleRow :=
  { row with
    metadata := { row.metadata with
      state := .paused
      stateMessage := limitMessage
      nextRun := none
      updatedAt := some (c.clock 0) }
    state := .paused
    nextRun := none
    updatedAt := unixMilli (c.clock 0) }

/-- `pauseAtMessageLimit`. -/
def pauseAtMessageLimit (c : Circumstances) (row : ScheduleRow) : Processed σ :=
  c.encrypted (.committed (limitRow c row) [] none)

/-- The row of `updateNextRun`. -/
def plannedRow (c : Circumstances) (row : ScheduleRow) (nextRun : Int) : ScheduleRow :=
  { row with
    metadata := { row.metadata with nextRun := some nextRun, updatedAt := some (c.clock 3) }
    nextRun := some (unixMilli nextRun)
    updatedAt := unixMilli (c.clock 4) }

/-- `updateNextRun`. -/
def updateNextRun (c : Circumstances) (row : ScheduleRow) (nextRun : Int) : Processed σ :=
  c.encrypted (.committed (plannedRow c row nextRun) [] none)

/-- The row after the run at `runTime`. -/
def firedRow (c : Circumstances) (row : ScheduleRow) (runTime nextRun : Int) : ScheduleRow :=
  let metadata := row.metadata.fire (row.executionCount + 1) runTime nextRun "" (c.clock 1)
  { row with
    metadata := metadata
    state := metadata.state
    nextRun := some (unixMilli nextRun)
    lastRun := some (unixMilli runTime)
    executionCount := row.executionCount + 1
    updatedAt := unixMilli (c.clock 1) }

/-- `processSchedule` on a row that is due at `runTime`. -/
def processDue (next : Int → Int) (c : Circumstances)
    (create : RunRequest → Except CreateError (Created σ)) (id : String) (row : ScheduleRow)
    (runTime : Int) : Processed σ :=
  match create (row.run runTime) with
  | .ok created =>
    c.encrypted (.committed (firedRow c row runTime (next runTime))
      [successHistory id created.messageId runTime] (some (row.run runTime, created)))
  | .error .queueNotFound =>
    markScheduleError c id row row.metadata CreateError.queueNotFound.text
  | .error (.validation text) => markScheduleError c id row row.metadata text
  | .error err => .failed (wrapped "create message" err.text)

/-- The condition of `collectDueCronSchedules`. -/
def selects (row : ScheduleRow) (nowMs : Int) : Bool :=
  row.state = .scheduled && row.cronSchedule.any (fun expression => expression ≠ "") &&
    row.nextRun.all (fun nextRun => nextRun ≤ nowMs)

/-- `processSchedule`. -/
def processSchedule (parse : CronParser) (c : Circumstances)
    (create : RunRequest → Except CreateError (Created σ)) (id : String) (row : ScheduleRow) :
    Processed σ :=
  if row.state ≠ .scheduled then .unchanged
  else
    match row.cronSchedule.filter fun expression => expression ≠ "" with
    | none =>
      markScheduleError c id row { config := none, queueName := "" } "missing cron schedule"
    | some expression =>
      match c.decryptError with
      | some text => .failed (wrapped "decrypt schedule payload" text)
      | none =>
        if row.metadata.limitReached row.executionCount then pauseAtMessageLimit c row
        else
          match parse expression with
          | .error text =>
            markScheduleError c id row row.metadata (wrapped "invalid cron expression" text)
          | .ok next =>
            match row.nextRun with
            | none => updateNextRun c row (next (c.clock 1))
            | some nextRun =>
              -- a run is due when it is not after the clock
              if c.clock 1 < ofUnixMilli nextRun then .unchanged
              else processDue next c create id row (ofUnixMilli nextRun)

end CronProcessorService

end Nzovu.Schedules
