import Nzovu.Schedules.Consistency

/-!
# Schedules and Messages

The processors' transactions on the whole database: the schedules, their history, and the messages
and counters of the queues, into which the message of a run is inserted.

- Section 1: inserting the message of a run.
- Section 2: the processors on the database.
- Section 3: a calendar run is all or nothing.
-/

namespace Nzovu.Schedules

open Nzovu.Foundation
open Nzovu.Repository

/-! ## Section 1: Inserting the message of a run -/

/-- What the insertion of a run's message meets outside the database. -/
structure RunMessage where
  generateID : Except String String
  validationFailure : Option String := none
  encryptError : Option String := none
  clock : Readings

/-- `createScheduledMessage` and `createCronMessage`, up to the history row, which their callers'
model keeps. -/
def createScheduledMessage (store : Database) (message : RunMessage) (request : RunRequest) :
    Except CreateError (Created Database) :=
  match store.queueMetadata? request.queueName, message.generateID with
  | none, _ => .error .queueNotFound
  | some _, .error text => .error (.unprepared (wrapped "generate message id" text))
  | some _, .ok messageId =>
    let run : Background.ScheduleRun :=
      ⟨request.queueName, messageId, request.priority, request.leaseDuration, request.runTime,
        message.validationFailure⟩
    -- the payload is encrypted after the validation, and before the insertion
    match if message.validationFailure = none then message.encryptError else none with
    | some text => .error (.unprepared (wrapped "encrypt message payload" text))
    | none =>
      match Background.createRunMessage store message.clock run with
      | .error (.validation text) => .error (.validation text)
      | .error (.storage err) => .error (.refused err.message)
      | .ok store => .ok ⟨messageId, store⟩

/-- The row of the message of a run. -/
structure IsRunMessage (request : RunRequest) (messageId : String) (row : MessageRow) : Prop where
  queueName : row.queueName = request.queueName
  messageId : row.messageId = messageId
  state : row.state = .invisible
  scheduledAt : row.scheduledAt = some (unixMilli request.runTime)

/-- The insertion adds one message, and nothing else to the messages. -/
theorem createScheduledMessage_ok {store : Database} {message : RunMessage} {request : RunRequest}
    {created : Created Database}
    (h : createScheduledMessage store message request = .ok created) :
    ∃ i row, IsRunMessage request created.messageId row ∧
      created.store.messages.rows = store.messages.rows ++ [(i, row)] := by
  unfold createScheduledMessage at h
  split at h
  · cases h
  · cases h
  · simp only at h
    split at h
    · cases h
    · split at h
      · cases h
      · cases h
      next hrun =>
        cases h
        obtain ⟨row, hqueue, hid, hstate, hscheduled, hrows⟩ := Background.createRunMessage_ok hrun
        exact ⟨_, row, ⟨hqueue, hid, hstate, hscheduled⟩, hrows⟩

/-! ## Section 2: The processors on the database -/

/-- The database: the queues with their messages, the schedules by id, and the history. -/
structure ScheduleDatabase where
  store : Database
  schedules : String → Option ScheduleRow
  history : List HistoryRow

/-- The end of a processor's transaction on a schedule: the error that rolled it back, or the
database it has committed and whether it reports progress. -/
def ScheduleDatabase.conclude (db : ScheduleDatabase) (id : String) :
    Processed Database → Except String (ScheduleDatabase × Bool)
  | .failed error => .error error
  | .unchanged => .ok (db, false)
  | .committed row history fired =>
    .ok
      ({ store := (fired.map fun insertion => insertion.2.store).getD db.store
         schedules := Function.update db.schedules id (some row)
         history := db.history ++ history },
       true)

/-- What a call of the calendar processor meets outside the database. -/
structure CalendarCall where
  backend : Backend
  engine : EngineCall
  circumstances : Circumstances
  message : RunMessage
  nowMs : Int

/-- `processSchedule` of the calendar processor. -/
def ScheduleDatabase.processCalendar (db : ScheduleDatabase) (call : CalendarCall) (id : String) :
    Except String (ScheduleDatabase × Bool) :=
  match db.schedules id with
  -- the schedule was deleted after it was collected
  | none => .ok (db, false)
  | some row =>
    db.conclude id (CalendarService.processSchedule call.backend call.engine call.circumstances
      (createScheduledMessage db.store call.message) id row call.nowMs)

/-- `processSchedule` of the cron processor. -/
def ScheduleDatabase.processCron (db : ScheduleDatabase) (parse : CronParser) (c : Circumstances)
    (message : RunMessage) (id : String) : Except String (ScheduleDatabase × Bool) :=
  match db.schedules id with
  | none => .ok (db, false)
  | some row =>
    db.conclude id (CronProcessorService.processSchedule parse c
      (createScheduledMessage db.store message) id row)

/-! ### The life of the row -/

section

variable {σ : Type}

/-- An inserted message, without what the insertion has left behind. -/
def Created.forget (created : Created σ) : Created Unit := ⟨created.messageId, ()⟩

/-- An insertion, as far as the schedule is concerned. -/
def forgetStore (insert : RunRequest → Except CreateError (Created σ)) (request : RunRequest) :
    Except CreateError (Created Unit) :=
  (insert request).map Created.forget

/-- A processor's transaction, as far as the schedule is concerned. -/
def Processed.forget : Processed σ → Processed Unit
  | .failed error => .failed error
  | .unchanged => .unchanged
  | .committed row history fired =>
    .committed row history (fired.map fun insertion => (insertion.1, insertion.2.forget))

@[simp] theorem Processed.outcome_forget (processed : Processed σ) :
    processed.forget.outcome = processed.outcome := by
  cases processed with
  | failed error => rfl
  | unchanged => rfl
  | committed row history fired => cases fired <;> rfl

theorem Circumstances.forget_encrypted (c : Circumstances) (commit : Processed σ) :
    (c.encrypted commit).forget = c.encrypted commit.forget := by
  cases hencrypt : c.encryptError <;> simp [Circumstances.encrypted, hencrypt, Processed.forget]

theorem forgetStore_ok {insert : RunRequest → Except CreateError (Created σ)}
    {request : RunRequest} {created : Created σ} (h : insert request = .ok created) :
    forgetStore insert request = .ok created.forget := by
  simp [forgetStore, h, Except.map]

theorem forgetStore_error {insert : RunRequest → Except CreateError (Created σ)}
    {request : RunRequest} {err : CreateError} (h : insert request = .error err) :
    forgetStore insert request = .error err := by
  simp [forgetStore, h, Except.map]

variable (insert : RunRequest → Except CreateError (Created σ)) (id : String) (row : ScheduleRow)

/-- What the calendar processor does to the schedule does not depend on what the insertion leaves
elsewhere. -/
theorem forget_calendar (backend : Backend) (engine : EngineCall) (c : Circumstances)
    (nowMs : Int) :
    (CalendarService.processSchedule backend engine c insert id row nowMs).forget =
      CalendarService.processSchedule backend engine c (forgetStore insert) id row nowMs := by
  -- the processor looks at the insertion once, and at its message id alone
  unfold CalendarService.processSchedule
  cases CalendarService.due row nowMs with
  | none => rfl
  | some nextRun =>
    simp only [CalendarService.processDue]
    cases c.decryptError with
    | some text => rfl
    | none =>
      cases row.metadata.limitReached row.executionCount with
      | true => exact c.forget_encrypted _
      | false =>
        cases row.metadata.calendarSchedule with
        | none =>
          simp only [Bool.false_eq_true, if_false]
          split
          · rfl
          · exact c.forget_encrypted _
        | some schedule =>
          simp only [Bool.false_eq_true, if_false]
          cases engine.validate schedule with
          | some err => exact c.forget_encrypted _
          | none =>
            cases hinsert : insert (row.run (ofUnixMilli nextRun)) with
            | error err =>
              simp only [forgetStore_error hinsert]
              split
              · rfl
              · exact c.forget_encrypted _
            | ok created =>
              simp only [forgetStore_ok hinsert, CalendarService.finishRun]
              cases engine.nextRun schedule (ofUnixMilli nextRun) with
              | ok t => exact c.forget_encrypted _
              | error stop =>
                cases stop with
                | loops => rfl
                | error err => exact c.forget_encrypted _

/-- Nor does what the cron processor does. -/
theorem forget_cron (parse : CronParser) (c : Circumstances) :
    (CronProcessorService.processSchedule parse c insert id row).forget =
      CronProcessorService.processSchedule parse c (forgetStore insert) id row := by
  -- the cases of the cron processor, in its order
  unfold CronProcessorService.processSchedule
  split
  · rfl
  · cases row.cronSchedule.filter fun expression => expression ≠ "" with
    | none => exact c.forget_encrypted _
    | some expression =>
      cases c.decryptError with
      | some text => rfl
      | none =>
        cases row.metadata.limitReached row.executionCount with
        | true => exact c.forget_encrypted _
        | false =>
          simp only [Bool.false_eq_true, if_false]
          cases parse expression with
          | error text => exact c.forget_encrypted _
          | ok next =>
            simp only
            cases row.nextRun with
            | none => exact c.forget_encrypted _
            | some nextRun =>
              simp only
              split
              · rfl
              · unfold CronProcessorService.processDue
                cases hinsert : insert (row.run (ofUnixMilli nextRun)) with
                | ok created =>
                  simp only [forgetStore_ok hinsert]
                  exact c.forget_encrypted _
                | error err =>
                  simp only [forgetStore_error hinsert]
                  cases err with
                  | queueNotFound => exact c.forget_encrypted _
                  | validation text => exact c.forget_encrypted _
                  | unprepared text => rfl
                  | refused text => rfl

end

theorem ScheduleDatabase.conclude_row {db db' : ScheduleDatabase} {id : String}
    {processed : Processed Database} (h : db.conclude id processed = .ok (db', true)) :
    ∃ outcome, processed.outcome = some outcome ∧ db'.schedules id = outcome.row := by
  cases processed with
  | failed error => cases h
  -- only a commit reports progress
  | unchanged => cases h
  | committed row history fired =>
    cases h
    exact ⟨_, rfl, Function.update_self ..⟩

/-- What the calendar processor commits on the database is a call of the schedule's life. -/
theorem processCalendar_row {db db' : ScheduleDatabase} {call : CalendarCall} {id : String}
    {row : ScheduleRow} (parse : CronParser) (hrow : db.schedules id = some row)
    (h : db.processCalendar call id = .ok (db', true)) :
    ∃ outcome, (ScheduleCall.calendar call.backend call.engine call.circumstances
        (forgetStore (createScheduledMessage db.store call.message)) call.nowMs).apply parse id
          (some row) = some outcome ∧ db'.schedules id = outcome.row := by
  simp only [ScheduleDatabase.processCalendar, hrow] at h
  rw [ScheduleCall.apply, ← forget_calendar, Processed.outcome_forget]
  exact ScheduleDatabase.conclude_row h

/-- So is what the cron processor commits. -/
theorem processCron_row {db db' : ScheduleDatabase} {parse : CronParser} {c : Circumstances}
    {message : RunMessage} {id : String} {row : ScheduleRow} (hrow : db.schedules id = some row)
    (h : db.processCron parse c message id = .ok (db', true)) :
    ∃ outcome, (ScheduleCall.cron c (forgetStore (createScheduledMessage db.store message))).apply
        parse id (some row) = some outcome ∧ db'.schedules id = outcome.row := by
  simp only [ScheduleDatabase.processCron, hrow] at h
  rw [ScheduleCall.apply, ← forget_cron, Processed.outcome_forget]
  exact ScheduleDatabase.conclude_row h

/-! ## Section 3: A calendar run is all or nothing -/

/-- The next run is stored, or the schedule is paused for lack of one. -/
def NextRunStored (row : ScheduleRow) : Calendar.Result Int → Prop
  | .ok t => row.nextRun = some (unixMilli t)
  | .error (.error err) => err.code = "NO_EXECUTION_TIME" ∧ row.state = .paused ∧
      row.metadata.stateMessage = "no future runs" ∧ row.nextRun = none
  | .error .loops => False

/-- The run at `nextRun` has left everything it should. -/
structure RunDone (engine : EngineCall) (id : String) (row : ScheduleRow) (nextRun : Int)
    (db db' : ScheduleDatabase) : Prop where
  /-- One message, and one success entry for it. -/
  message : ∃ i messageId new, IsRunMessage (row.run (ofUnixMilli nextRun)) messageId new ∧
    db'.store.messages.rows = db.store.messages.rows ++ [(i, new)] ∧
    db'.history = db.history ++ [successHistory id messageId (ofUnixMilli nextRun)]
  recorded : ∃ row', db'.schedules id = some row' ∧
    row'.executionCount = row.executionCount + 1 ∧ row'.lastRun = some nextRun ∧
    ∃ schedule, row.metadata.calendarSchedule = some schedule ∧
      NextRunStored row' (engine.nextRun schedule (ofUnixMilli nextRun))

/-- No message has been enqueued, and no success entry added. -/
structure NothingDone (db db' : ScheduleDatabase) : Prop where
  store : db'.store = db.store
  history : ∃ more, db'.history = db.history ++ more ∧ ∀ entry ∈ more, entry.success = false

/-- All or nothing. -/
def AllOrNothing (engine : EngineCall) (id : String) (row : ScheduleRow) (nextRun : Int)
    (db db' : ScheduleDatabase) : Prop :=
  RunDone engine id row nextRun db db' ∨ NothingDone db db'

/-- The message of the run is inserted, and then there is no next run. -/
def EndsAfterInsertion (db : ScheduleDatabase) (call : CalendarCall) (row : ScheduleRow)
    (nextRun : Int) : Prop :=
  ∃ schedule created err,
    CalendarService.Fires call.circumstances call.engine
      (createScheduledMessage db.store call.message) row call.nowMs nextRun schedule created ∧
    call.engine.nextRun schedule (ofUnixMilli nextRun) = .error (.error err)

section

variable {db db' : ScheduleDatabase} {call : CalendarCall} {id : String} {row : ScheduleRow}
  {nextRun : Int} {progress : Bool}

/-- A run that ends after the insertion leaves the message and a failure entry. -/
theorem not_allOrNothing_of_ends (hrow : db.schedules id = some row)
    (hcommit : db.processCalendar call id = .ok (db', progress))
    (hends : EndsAfterInsertion db call row nextRun) :
    ¬ AllOrNothing call.engine id row nextRun db db' := by
  obtain ⟨schedule, created, err, hfires, hnext⟩ := hends
  simp only [ScheduleDatabase.processCalendar, hrow, processSchedule_firedLast hfires hnext,
    ScheduleDatabase.conclude] at hcommit
  cases hcommit
  obtain ⟨i, new, -, hrows⟩ := createScheduledMessage_ok hfires.created
  rintro (hdone | hnothing)
  · obtain ⟨_, _, _, _, _, hhistory⟩ := hdone.message
    have hlength := congrArg List.length hhistory
    simp at hlength
  · have hstore : created.store = db.store := hnothing.store
    rw [hstore] at hrows
    have hlength := congrArg List.length hrows
    simp at hlength

theorem allOrNothing_of_not_ends (hrow : db.schedules id = some row)
    (hdue : CalendarService.due row call.nowMs = some nextRun)
    (hcommit : db.processCalendar call id = .ok (db', progress))
    (hends : ¬ EndsAfterInsertion db call row nextRun) :
    AllOrNothing call.engine id row nextRun db db' := by
  simp only [ScheduleDatabase.processCalendar, hrow] at hcommit
  cases hprocessed : CalendarService.processSchedule call.backend call.engine call.circumstances
      (createScheduledMessage db.store call.message) id row call.nowMs with
  | failed error =>
    rw [hprocessed] at hcommit
    cases hcommit
  | unchanged =>
    rw [hprocessed] at hcommit
    cases hcommit
    exact .inr ⟨rfl, [], by simp, by simp⟩
  | committed row' history fired =>
    rw [hprocessed] at hcommit
    cases hcommit
    cases CalendarService.change_of_committed hprocessed with
    | limited hstate hlimit => exact .inr ⟨rfl, [], rfl, by simp⟩
    | rejected hstate message => exact .inr ⟨rfl, _, rfl, by simp [failureHistory]⟩
    | @fired n schedule created t hfires hnext =>
      obtain rfl : n = nextRun := Option.some.inj (hfires.due.symm.trans hdue)
      obtain ⟨i, new, hnew, hrows⟩ := createScheduledMessage_ok hfires.created
      refine .inl ⟨⟨i, created.messageId, new, hnew, hrows, rfl⟩, ?_⟩
      refine ⟨_, Function.update_self .., rfl, ?_, schedule, hfires.config, ?_⟩
      · simp [CalendarService.firedRow]
      · simp [NextRunStored, hnext, CalendarService.firedRow]
    | @firedLast n schedule created err hfires hnext =>
      obtain rfl : n = nextRun := Option.some.inj (hfires.due.symm.trans hdue)
      exact absurd ⟨schedule, created, err, hfires, hnext⟩ hends

/-- **All or nothing**: a committed call on a due schedule does all of a run or nothing, if and only
if the run is not one after whose insertion there is no next run. -/
theorem allOrNothing_iff (hrow : db.schedules id = some row)
    (hdue : CalendarService.due row call.nowMs = some nextRun)
    (hcommit : db.processCalendar call id = .ok (db', progress)) :
    AllOrNothing call.engine id row nextRun db db' ↔ ¬ EndsAfterInsertion db call row nextRun :=
  ⟨fun h hends => not_allOrNothing_of_ends hrow hcommit hends h,
    allOrNothing_of_not_ends hrow hdue hcommit⟩

end

/-- The row of a calendar schedule that is due at the first midnight. -/
def midnightRow (schedule : Calendar.CalendarSchedule) : ScheduleRow :=
  newScheduleRow { calendarRequest schedule with nextRun := some (ofUnixMilli 86400000) } 0

/-- A database with the queue `jobs` and one calendar schedule. -/
def oneSchedule (schedule : Calendar.CalendarSchedule) : ScheduleDatabase where
  store := (System.run [.createQueue "jobs" {}]).db
  schedules := fun id => if id = "daily" then some (midnightRow schedule) else none
  history := []

/-- The calendar processor at the first midnight. -/
def atMidnight : CalendarCall where
  backend := .sqlite
  engine := utcEngine (ofUnixMilli 86400000)
  circumstances := { clock := fun _ => ofUnixMilli 86400000 }
  message := { generateID := .ok "m", clock := fun _ => 86400000 }
  nowMs := 86400000

theorem due_midnightRow (schedule : Calendar.CalendarSchedule) :
    CalendarService.due (midnightRow schedule) atMidnight.nowMs = some 86400000 := by
  refine CalendarService.due_eq_some.mpr ⟨rfl, ?_, Int.le_refl _⟩
  simp [midnightRow, newScheduleRow]

/-- A run every midnight is followed by another one. -/
theorem allOrNothing_daily :
    ∃ db' progress,
      (oneSchedule (Calendar.dailyAt 0)).processCalendar atMidnight "daily" =
        .ok (db', progress) ∧
      AllOrNothing atMidnight.engine "daily" (midnightRow (Calendar.dailyAt 0)) 86400000
        (oneSchedule (Calendar.dailyAt 0)) db' := by
  have hok : ((oneSchedule (Calendar.dailyAt 0)).processCalendar atMidnight "daily").toBool =
      true := by
    decide +kernel
  cases hcommit : (oneSchedule (Calendar.dailyAt 0)).processCalendar atMidnight "daily" with
  | error err =>
    rw [hcommit] at hok
    cases hok
  | ok result =>
    refine ⟨result.1, result.2, rfl, (allOrNothing_iff rfl (due_midnightRow _) hcommit).mpr ?_⟩
    rintro ⟨schedule, created, err, hfires, hnext⟩
    obtain rfl : Calendar.dailyAt 0 = schedule := Option.some.inj hfires.config
    have hcalculated : atMidnight.engine.nextRun (Calendar.dailyAt 0) (ofUnixMilli 86400000) =
        .ok (ofUnixMilli 172800000) := by
      decide +kernel
    rw [hcalculated] at hnext
    cases hnext

/-- A run at the first midnight only. -/
def firstMidnightOnly : Calendar.CalendarSchedule where
  type := .daily
  rules := [{
    rule := some (.daily ⟨1, false, none⟩)
    executionTimes := [{}]
    validUntil := some ⟨86400, 0⟩ }]
  timezone := "UTC"

/-- The last run of a schedule is neither all nor nothing. -/
theorem not_allOrNothing_lastRun :
    ¬ ∀ (db db' : ScheduleDatabase) (call : CalendarCall) (id : String) (row : ScheduleRow)
      (nextRun : Int) (progress : Bool), db.schedules id = some row →
        CalendarService.due row call.nowMs = some nextRun →
          db.processCalendar call id = .ok (db', progress) →
            AllOrNothing call.engine id row nextRun db db' := by
  intro h
  let db := oneSchedule firstMidnightOnly
  let row := midnightRow firstMidnightOnly
  have hok : (db.processCalendar atMidnight "daily").toBool = true := by decide +kernel
  have hcreates : (createScheduledMessage db.store atMidnight.message
      (row.run (ofUnixMilli 86400000))).toBool = true := by
    decide +kernel
  have hcalculated : ∃ err, atMidnight.engine.nextRun firstMidnightOnly
      (ofUnixMilli 86400000) = .error (.error err) :=
    ⟨.noExecutionTime "no rules produced valid execution times", by decide +kernel⟩
  obtain ⟨err, hnext⟩ := hcalculated
  cases hcommit : db.processCalendar atMidnight "daily" with
  | error err =>
    rw [hcommit] at hok
    cases hok
  | ok result =>
    cases hcreated : createScheduledMessage db.store atMidnight.message
        (row.run (ofUnixMilli 86400000)) with
    | error err =>
      rw [hcreated] at hcreates
      cases hcreates
    | ok created =>
      have hends : EndsAfterInsertion db atMidnight row 86400000 :=
        ⟨firstMidnightOnly, created, err, ⟨due_midnightRow _, rfl, rfl, rfl, rfl,
          by decide +kernel, hcreated⟩, hnext⟩
      exact not_allOrNothing_of_ends rfl hcommit hends
        (h db result.1 atMidnight "daily" row 86400000 result.2 rfl (due_midnightRow _) hcommit)

end Nzovu.Schedules
