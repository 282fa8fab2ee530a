import Nzovu.Schedules.Processors

/-!
# What a Processor May Do to a Schedule

For each processor, all the ways in which its transaction commits a change: the schedule is paused
at its message limit, an error is written into it, its next run is planned, or the message of a run
is inserted. Everything later follows from these lists.
-/

namespace Nzovu.Schedules

open Nzovu.Foundation
open Nzovu.Repository

variable {σ : Type}

theorem Circumstances.encrypted_committed {c : Circumstances} {commit : Processed σ}
    {row : ScheduleRow} {history : List HistoryRow} {fired : Option (RunRequest × Created σ)}
    (h : c.encrypted commit = .committed row history fired) :
    c.encryptError = none ∧ commit = .committed row history fired := by
  cases hencrypt : c.encryptError with
  | none => exact ⟨rfl, by simpa only [Circumstances.encrypted, hencrypt] using h⟩
  | some text => simp [Circumstances.encrypted, hencrypt] at h

/-! ## Section 1: Calendar schedules -/

namespace CalendarService

theorem due_eq_some {row : ScheduleRow} {nowMs nextRun : Int} :
    due row nowMs = some nextRun ↔
      row.state = .scheduled ∧ row.nextRun = some nextRun ∧ nextRun ≤ nowMs := by
  unfold due
  split
  next hstate => simp [hstate, Option.filter_eq_some_iff]
  next hstate => simp [hstate]

/-- The processor inserts the message of the run at `nextRun`. -/
structure Fires (c : Circumstances) (engine : EngineCall)
    (create : RunRequest → Except CreateError (Created σ)) (row : ScheduleRow) (nowMs nextRun : Int)
    (schedule : Calendar.CalendarSchedule) (created : Created σ) : Prop where
  due : due row nowMs = some nextRun
  decrypted : c.decryptError = none
  encrypted : c.encryptError = none
  unlimited : row.metadata.limitReached row.executionCount = false
  config : row.metadata.calendarSchedule = some schedule
  valid : engine.validate schedule = none
  created : create (row.run (ofUnixMilli nextRun)) = .ok created

section

variable (engine : EngineCall) (c : Circumstances)
  (create : RunRequest → Except CreateError (Created σ)) (id : String) (row : ScheduleRow)
  (nowMs : Int)

/-- The changes of a calendar schedule that `processSchedule` commits. -/
inductive Change :
    ScheduleRow → List HistoryRow → Option (RunRequest × Created σ) → Prop where
  | limited (hstate : row.state = .scheduled)
      (hlimit : row.metadata.limitReached row.executionCount = true) :
      Change (limitRow row nowMs) [] none
  | rejected (hstate : row.state = .scheduled) (message : String) :
      Change (errorRow c row row.metadata message)
        [failureHistory id (unixMilli (c.clock 2)) message] none
  | fired {nextRun : Int} {schedule : Calendar.CalendarSchedule} {created : Created σ} {t : Int}
      (hfires : Fires c engine create row nowMs nextRun schedule created)
      (hnext : engine.nextRun schedule (ofUnixMilli nextRun) = .ok t) :
      Change (firedRow row nowMs (ofUnixMilli nextRun) t)
        [successHistory id created.messageId (ofUnixMilli nextRun)]
        (some (row.run (ofUnixMilli nextRun), created))
  /-- The message is inserted, and then there is no next run. -/
  | firedLast {nextRun : Int} {schedule : Calendar.CalendarSchedule} {created : Created σ}
      {err : Calendar.CalendarError}
      (hfires : Fires c engine create row nowMs nextRun schedule created)
      (hnext : engine.nextRun schedule (ofUnixMilli nextRun) = .error (.error err)) :
      Change
        (errorRow c row
          { row.metadata with messageIds := [], lastRun := some (ofUnixMilli nextRun) } err.text)
        [successHistory id created.messageId (ofUnixMilli nextRun),
          failureHistory id (unixMilli (c.clock 2)) err.text]
        (some (row.run (ofUnixMilli nextRun), created))

end

section

variable {engine : EngineCall} {c : Circumstances}
  {create : RunRequest → Except CreateError (Created σ)} {id : String} {row row' : ScheduleRow}
  {nowMs : Int} {history : List HistoryRow} {fired : Option (RunRequest × Created σ)}

theorem markScheduleError_committed {metadata : ScheduleMetadata} {message : String}
    {before : List HistoryRow} {inserted : Option (RunRequest × Created σ)}
    (h : markScheduleError c id row metadata message before inserted =
      .committed row' history fired) :
    c.encryptError = none ∧ row' = errorRow c row metadata message ∧
      history = before ++ [failureHistory id (unixMilli (c.clock 2)) message] ∧
      fired = inserted := by
  obtain ⟨hencrypt, hcommit⟩ := Circumstances.encrypted_committed h
  simp only [Processed.committed.injEq] at hcommit
  exact ⟨hencrypt, hcommit.1.symm, hcommit.2.1.symm, hcommit.2.2.symm⟩

theorem rejected_of_markScheduleError {message : String} (hstate : row.state = .scheduled)
    (h : markScheduleError c id row row.metadata message [] none =
      .committed row' history fired) :
    Change engine c create id row nowMs row' history fired := by
  obtain ⟨-, rfl, rfl, rfl⟩ := markScheduleError_committed h
  exact .rejected hstate message

theorem change_of_finishRun {nextRun : Int} {schedule : Calendar.CalendarSchedule}
    {created : Created σ}
    (hfires : c.encryptError = none → Fires c engine create row nowMs nextRun schedule created)
    (h : finishRun engine c id row schedule nowMs (ofUnixMilli nextRun) created =
      .committed row' history fired) :
    Change engine c create id row nowMs row' history fired := by
  unfold finishRun at h
  cases hnext : engine.nextRun schedule (ofUnixMilli nextRun) with
  | ok t =>
    simp only [hnext] at h
    obtain ⟨hencrypt, hcommit⟩ := Circumstances.encrypted_committed h
    simp only [Processed.committed.injEq] at hcommit
    obtain ⟨rfl, rfl, rfl⟩ := hcommit
    exact .fired (hfires hencrypt) hnext
  | error stop =>
    cases stop with
    | loops => simp [hnext] at h
    | error err =>
      simp only [hnext] at h
      obtain ⟨hencrypt, rfl, rfl, rfl⟩ := markScheduleError_committed h
      exact .firedLast (hfires hencrypt) hnext

/-- **Inversion**: what `processSchedule` commits is one of the changes. -/
theorem change_of_committed {backend : Backend}
    (h : processSchedule backend engine c create id row nowMs = .committed row' history fired) :
    Change engine c create id row nowMs row' history fired := by
  unfold processSchedule at h
  cases hdue : due row nowMs with
  | none => simp [hdue] at h
  | some nextRun =>
    have hstate := (due_eq_some.mp hdue).1
    simp only [hdue, processDue] at h
    cases hdecrypt : c.decryptError with
    | some text => simp [hdecrypt] at h
    | none =>
      simp only [hdecrypt] at h
      cases hlimit : row.metadata.limitReached row.executionCount with
      | true =>
        simp only [hlimit, if_true] at h
        obtain ⟨-, hcommit⟩ := Circumstances.encrypted_committed h
        simp only [Processed.committed.injEq] at hcommit
        obtain ⟨rfl, rfl, rfl⟩ := hcommit
        exact .limited hstate hlimit
      | false =>
        simp only [hlimit, Bool.false_eq_true, if_false] at h
        cases hconfig : row.metadata.calendarSchedule with
        | none =>
          simp only [hconfig] at h
          split at h
          · cases h
          · exact rejected_of_markScheduleError hstate h
        | some schedule =>
          simp only [hconfig] at h
          cases hvalid : engine.validate schedule with
          | some err =>
            simp only [hvalid] at h
            exact rejected_of_markScheduleError hstate h
          | none =>
            simp only [hvalid] at h
            cases hcreate : create (row.run (ofUnixMilli nextRun)) with
            | error err =>
              simp only [hcreate] at h
              split at h
              · cases h
              · exact rejected_of_markScheduleError hstate h
            | ok created =>
              simp only [hcreate] at h
              exact change_of_finishRun (fun hencrypt =>
                ⟨hdue, hdecrypt, hencrypt, hlimit, hconfig, hvalid, hcreate⟩) h

end

end CalendarService

/-! ## Section 2: Cron schedules -/

namespace CronProcessorService

/-- The schedule passes the checks of the processor, and `next` is its cron schedule. -/
structure Ready (parse : CronParser) (c : Circumstances) (row : ScheduleRow) (next : Int → Int) :
    Prop where
  state : row.state = .scheduled
  column : ∃ expression, expression ≠ "" ∧ row.cronSchedule = some expression ∧
    parse expression = .ok next
  decrypted : c.decryptError = none
  encrypted : c.encryptError = none
  unlimited : row.metadata.limitReached row.executionCount = false

/-- The processor inserts the message of the run at `nextRun`. -/
structure Fires (parse : CronParser) (c : Circumstances)
    (create : RunRequest → Except CreateError (Created σ)) (row : ScheduleRow)
    (next : Int → Int) (nextRun : Int) (created : Created σ) : Prop where
  ready : Ready parse c row next
  planned : row.nextRun = some nextRun
  due : ofUnixMilli nextRun ≤ c.clock 1
  created : create (row.run (ofUnixMilli nextRun)) = .ok created

section

variable (parse : CronParser) (c : Circumstances)
  (create : RunRequest → Except CreateError (Created σ)) (id : String) (row : ScheduleRow)

/-- The changes of a schedule that `processSchedule` commits. -/
inductive Change :
    ScheduleRow → List HistoryRow → Option (RunRequest × Created σ) → Prop where
  /-- The row has no cron expression; its metadata is replaced by an empty one. -/
  | missing (hstate : row.state = .scheduled)
      (hcolumn : row.cronSchedule = none ∨ row.cronSchedule = some "")
      (hencrypt : c.encryptError = none) :
      Change (errorRow c row { config := none, queueName := "" } "missing cron schedule")
        [failureHistory id (unixMilli (c.clock 2)) "missing cron schedule"] none
  | limited (hstate : row.state = .scheduled)
      (hlimit : row.metadata.limitReached row.executionCount = true) :
      Change (limitRow c row) [] none
  | rejected (hstate : row.state = .scheduled) (message : String) :
      Change (errorRow c row row.metadata message)
        [failureHistory id (unixMilli (c.clock 2)) message] none
  | planned {next : Int → Int} (hready : Ready parse c row next) (hnext : row.nextRun = none) :
      Change (plannedRow c row (next (c.clock 1))) [] none
  | fired {next : Int → Int} {nextRun : Int} {created : Created σ}
      (hfires : Fires parse c create row next nextRun created) :
      Change (firedRow c row (ofUnixMilli nextRun) (next (ofUnixMilli nextRun)))
        [successHistory id created.messageId (ofUnixMilli nextRun)]
        (some (row.run (ofUnixMilli nextRun), created))

end

section

variable {parse : CronParser} {c : Circumstances}
  {create : RunRequest → Except CreateError (Created σ)} {id : String} {row row' : ScheduleRow}
  {history : List HistoryRow} {fired : Option (RunRequest × Created σ)}

theorem rejected_of_markScheduleError {message : String} (hstate : row.state = .scheduled)
    (h : markScheduleError c id row row.metadata message = .committed row' history fired) :
    Change parse c create id row row' history fired := by
  obtain ⟨-, hcommit⟩ := Circumstances.encrypted_committed h
  simp only [Processed.committed.injEq] at hcommit
  obtain ⟨rfl, rfl, rfl⟩ := hcommit
  exact .rejected hstate message

theorem change_of_processDue {next : Int → Int} {nextRun : Int}
    (hready : c.encryptError = none → Ready parse c row next) (hstate : row.state = .scheduled)
    (hnext : row.nextRun = some nextRun) (hdue : ofUnixMilli nextRun ≤ c.clock 1)
    (h : processDue next c create id row (ofUnixMilli nextRun) = .committed row' history fired) :
    Change parse c create id row row' history fired := by
  unfold processDue at h
  cases hcreate : create (row.run (ofUnixMilli nextRun)) with
  | ok created =>
    simp only [hcreate] at h
    obtain ⟨hencrypt, hcommit⟩ := Circumstances.encrypted_committed h
    simp only [Processed.committed.injEq] at hcommit
    obtain ⟨rfl, rfl, rfl⟩ := hcommit
    exact .fired ⟨hready hencrypt, hnext, hdue, hcreate⟩
  | error err =>
    cases err with
    | queueNotFound =>
      simp only [hcreate] at h
      exact rejected_of_markScheduleError hstate h
    | validation text =>
      simp only [hcreate] at h
      exact rejected_of_markScheduleError hstate h
    | unprepared text => simp [hcreate] at h
    | refused text => simp [hcreate] at h

/-- **Inversion**: what `processSchedule` commits is one of the changes. -/
theorem change_of_committed
    (h : processSchedule parse c create id row = .committed row' history fired) :
    Change parse c create id row row' history fired := by
  unfold processSchedule at h
  split at h
  · cases h
  next hstate =>
    have hstate := Decidable.not_not.mp hstate
    cases hcolumn : row.cronSchedule.filter fun expression => expression ≠ "" with
    | none =>
      simp only [hcolumn] at h
      obtain ⟨hencrypt, hcommit⟩ := Circumstances.encrypted_committed h
      simp only [Processed.committed.injEq] at hcommit
      obtain ⟨rfl, rfl, rfl⟩ := hcommit
      refine .missing hstate ?_ hencrypt
      cases hexpression : row.cronSchedule with
      | none => exact .inl rfl
      | some expression => simpa [hexpression] using hcolumn
    | some expression =>
      simp only [hcolumn] at h
      have hcolumn := Option.filter_eq_some_iff.mp hcolumn
      simp only [decide_eq_true_eq] at hcolumn
      cases hdecrypt : c.decryptError with
      | some text => simp [hdecrypt] at h
      | none =>
        simp only [hdecrypt] at h
        cases hlimit : row.metadata.limitReached row.executionCount with
        | true =>
          simp only [hlimit, if_true] at h
          obtain ⟨-, hcommit⟩ := Circumstances.encrypted_committed h
          simp only [Processed.committed.injEq] at hcommit
          obtain ⟨rfl, rfl, rfl⟩ := hcommit
          exact .limited hstate hlimit
        | false =>
          simp only [hlimit, Bool.false_eq_true, if_false] at h
          cases hparsed : parse expression with
          | error text =>
            simp only [hparsed] at h
            exact rejected_of_markScheduleError hstate h
          | ok next =>
            simp only [hparsed] at h
            have hready : c.encryptError = none → Ready parse c row next := fun hencrypt =>
              ⟨hstate, ⟨expression, hcolumn.2, hcolumn.1, hparsed⟩, hdecrypt, hencrypt, hlimit⟩
            cases hnext : row.nextRun with
            | none =>
              simp only [hnext] at h
              obtain ⟨hencrypt, hcommit⟩ := Circumstances.encrypted_committed h
              simp only [Processed.committed.injEq] at hcommit
              obtain ⟨rfl, rfl, rfl⟩ := hcommit
              exact .planned (hready hencrypt) hnext
            | some nextRun =>
              simp only [hnext] at h
              split at h
              · cases h
              next hdue =>
                exact change_of_processDue hready hstate hnext (Int.not_lt.mp hdue) h

end

end CronProcessorService

end Nzovu.Schedules
