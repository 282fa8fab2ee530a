import Nzovu.Schedules.Processors

/-!
# Operations on Schedules

`CreateSchedule` of `pkg/repository/implementation.go`, and the storage methods `CreateSchedule`,
`PauseSchedule`, `ResumeSchedule` and `DeleteSchedule` of `pkg/repository/sqlite/schedules.go` and
`pkg/repository/postgres/schedules.go`, on the row that has the schedule's id, if there is one.
-/

namespace Nzovu.Schedules

open Nzovu.Foundation
open Nzovu.Repository

/-! ## Section 1: Requests -/

/-- A domain error: its kind, its text, and the fields it names with a description of each. -/
structure RequestError where
  kind : ErrorKind
  message : String
  fields : List (String × String) := []
deriving DecidableEq, Repr

/-- `domainerror.New(domainerror.InvalidArgument, message, …)`. -/
def invalidArgument (message : String) : RequestError := ⟨.invalidArgument, message, []⟩

/-- An error without a domain kind. -/
def plainError (message : String) : RequestError := ⟨.internal, message, []⟩

/-- `schedule.v1.Schedule`. -/
structure Schedule where
  scheduleId : String
  metadata : Option ScheduleMetadata
deriving DecidableEq, Repr

/-- What `CreateSchedule` meets outside the schedules: the queue, the header validation, the
calendar engine, `time.Now()`, and the storage's clock and encryption. -/
structure CreateContext where
  queueError : Option StorageError := none
  headerError : Option String := none
  engine : EngineCall
  now : Int
  nowMs : Int
  encryptError : Option String := none

/-- The fields only the server may set, each with whether it is set and what the error says. -/
def serverManagedFields (metadata : ScheduleMetadata) : List (Bool × String × String) :=
  let managed := "is managed by the server"
  [(metadata.state ≠ .scheduled, "schedule.metadata.state",
      "must be SCHEDULED when creating a schedule"),
   (metadata.messageIds ≠ [], "schedule.metadata.message_ids", managed),
   (metadata.nextRun ≠ none, "schedule.metadata.next_run", managed),
   (metadata.lastRun ≠ none, "schedule.metadata.last_run", managed),
   (metadata.createdAt ≠ none, "schedule.metadata.created_at", managed),
   (metadata.updatedAt ≠ none, "schedule.metadata.updated_at", managed),
   (metadata.stateMessage ≠ "", "schedule.metadata.state_message", managed),
   (metadata.nextRuns ≠ [], "schedule.metadata.next_runs", managed)]

/-- `runtimeFields`. -/
def runtimeFields (metadata : ScheduleMetadata) : List (String × String) :=
  ((serverManagedFields metadata).filter Prod.fst).map Prod.snd

/-- The checks of `schedule_config`. -/
def validateConfig (parse : CronParser) (metadata : ScheduleMetadata) :
    Except RequestError Unit :=
  match metadata.config with
  | none => .error (invalidArgument "schedule configuration is invalid")
  | some (.cron expression) =>
    match parse expression with
    | .error _ => .error (invalidArgument "cron schedule is invalid")
    | .ok _ => .ok ()
  | some (.calendar none) => .error (invalidArgument "calendar schedule is required")
  | some (.calendar (some schedule)) =>
    if metadata.timezone ≠ "" ∧ metadata.timezone ≠ schedule.timezone then
      .error ⟨.invalidArgument, "schedule timezone must match calendar schedule timezone",
        [("schedule.metadata.timezone",
          "must match schedule.metadata.calendar_schedule.timezone")]⟩
    else .ok ()

/-- `CreateSchedule` up to the configuration. -/
def validateRequest (parse : CronParser) (ctx : CreateContext) (metadata : ScheduleMetadata) :
    Except RequestError Unit :=
  if runtimeFields metadata ≠ [] then
    .error ⟨.invalidArgument, "schedule contains server-managed fields", runtimeFields metadata⟩
  else if metadata.queueName = "" then .error (invalidArgument "schedule queue name is required")
  else
    match ctx.queueError with
    | some err => .error ⟨err.kind, err.message, []⟩
    | none =>
      if metadata.config = none then
        .error (invalidArgument "schedule configuration is required")
      else if metadata.priority < 0 ∨ 4 < metadata.priority then
        .error (invalidArgument "schedule priority must be between 0 and 4")
      else if metadata.hasMaxMessages = true ∧ metadata.maxMessages ≤ 0 then
        .error (invalidArgument "schedule max messages must be greater than zero when enabled")
      else if metadata.leaseDuration.any fun d => !d.isValid || d.asDuration ≤ 0 then
        .error (invalidArgument "schedule lease duration must be greater than zero")
      else
        match ctx.headerError with
        | some text => .error (invalidArgument text)
        | none => validateConfig parse metadata

/-- The first run of a calendar schedule; without one the schedule is created PAUSED. -/
def scheduleFirstRun (ctx : CreateContext) (metadata : ScheduleMetadata) :
    Except RequestError ScheduleMetadata :=
  match metadata.calendarSchedule with
  | none => .ok metadata
  | some schedule =>
    match ctx.engine.validate schedule with
    | some _ => .error (invalidArgument "calendar schedule is invalid")
    | none =>
      match ctx.engine.nextRun schedule ctx.now with
      | .ok nextRun => .ok { metadata with nextRun := some nextRun }
      -- the call does not return
      | .error .loops => .error (plainError "context deadline exceeded")
      | .error (.error err) =>
        if err.code = "NO_EXECUTION_TIME" then
          .ok { metadata with state := .paused, stateMessage := "no future runs" }
        else .error (plainError (wrapped "calculate next run" err.text))

/-! ## Section 2: Storage -/

/-- The row `Storage.CreateSchedule` inserts. -/
def newScheduleRow (metadata : ScheduleMetadata) (nowMs : Int) : ScheduleRow where
  queueName := metadata.queueName
  metadata := { metadata with
    createdAt := some (metadata.createdAt.getD (ofUnixMilli nowMs))
    updatedAt := some (ofUnixMilli nowMs) }
  state := metadata.state
  cronSchedule := if metadata.cronSchedule ≠ "" then some metadata.cronSchedule else none
  nextRun := metadata.nextRun.map unixMilli
  lastRun := metadata.lastRun.map unixMilli
  executionCount := 0
  createdAt := nowMs
  updatedAt := nowMs

/-- `CreateSchedule`; a request without schedule is `none`, and `existing` is the row that has the
id already. The queue that the new row references exists when `queueError` is `none`. -/
def createSchedule (parse : CronParser) (ctx : CreateContext) (schedule : Option Schedule)
    (existing : Option ScheduleRow) : Except RequestError ScheduleRow :=
  match schedule with
  | none => .error (invalidArgument "schedule is required")
  | some schedule =>
    if schedule.scheduleId = "" then .error (invalidArgument "schedule id is required")
    else
      match schedule.metadata with
      | none => .error (invalidArgument "schedule metadata is required")
      | some metadata =>
        match validateRequest parse ctx metadata with
        | .error err => .error err
        | .ok () =>
          match scheduleFirstRun ctx metadata with
          | .error err => .error err
          | .ok metadata =>
            match ctx.encryptError with
            | some text => .error (plainError (wrapped "encrypt schedule payload" text))
            | none =>
              match existing with
              | some _ => .error ⟨.alreadyExists,
                  "schedule " ++ schedule.scheduleId.quote ++ " already exists", []⟩
              | none => .ok (newScheduleRow metadata ctx.nowMs)

/-- The error for an id without a row. -/
def scheduleNotFound (id : String) : RequestError :=
  ⟨.notFound, "schedule " ++ id.quote ++ " not found", []⟩

/-- `PauseSchedule`. -/
def pauseSchedule (nowMs : Int) (row : ScheduleRow) : Except RequestError ScheduleRow :=
  if row.state ≠ .scheduled then .error ⟨.failedPrecondition, "schedule is not scheduled", []⟩
  else .ok
    { row with
      state := .paused
      metadata := { row.metadata with state := .paused, updatedAt := some (ofUnixMilli nowMs) }
      updatedAt := nowMs }

/-- `ResumeSchedule`. -/
def resumeSchedule (nowMs : Int) (row : ScheduleRow) : Except RequestError ScheduleRow :=
  if row.state ≠ .paused then .error ⟨.failedPrecondition, "schedule is not paused", []⟩
  else .ok
    { row with
      state := .scheduled
      metadata := { row.metadata with
        state := .scheduled
        stateMessage := ""
        updatedAt := some (ofUnixMilli nowMs) }
      executionCount := 0
      updatedAt := nowMs }

end Nzovu.Schedules
