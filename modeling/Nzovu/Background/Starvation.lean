import Nzovu.Background.Reclaim
import Nzovu.Repository.Exhaustion
import Nzovu.Schedules.Cycles

/-!
# Starvation

Items that always fail stay in the selection of the next cycle. Both services process the others
exactly as long as the failing items that the query returns first do not fill a batch.
-/

namespace Nzovu.Background

open Nzovu.Foundation
open Nzovu.Repository
open Nzovu.Schedules

/-- The reclaimer and the calendar processor get past the failing items when those before any other
item do not fill a batch, and only then. -/
theorem pastFailures_iff (reclaim : ReclaimRun) (calendar : CalendarRun) :
    (reclaim.ReclaimsTheRest ↔ ∀ message ∈ reclaim.due 0, reclaim.failing message = false →
      failingAhead reclaim.failing message (reclaim.due 0) < reclaimBatchSize) ∧
    (calendar.ProcessesTheRest ↔ ∀ id ∈ calendar.due, calendar.failing id = false →
      failingAhead calendar.failing id calendar.due < calendar.batchSize) :=
  ⟨reclaim.reclaimsTheRest_iff, calendar.processesTheRest_iff⟩

/-! ### A hundred messages whose ids are in the dead letter queue already -/

/-- The id of message `i`. -/
def repeatedId (i : Nat) : String := String.ofList (List.replicate i 'm')

theorem repeatedId_injective : Function.Injective repeatedId := by
  intro i j h
  have hlength := congrArg (fun id : String => id.toList.length) h
  simpa [repeatedId] using hlength

/-- A message whose lease ended at instant 0. -/
def stoppedRow (queueName : String) (state : MessageState) (attempts : Int) (i : Nat) :
    MessageRow :=
  { newRow queueName (repeatedId i) ⟨state, attempts, attempts, 0, none, none⟩ none 0 0 with
    leaseExpiry := some 0
    currentAttemptId := some "a"
    currentWorkerId := some "w" }

/-- The messages of the queue: a hundred on their last attempt, and one with attempts left. -/
def jobsRows : List (Nat × MessageRow) :=
  (List.range 101).map fun i => (i, stoppedRow "jobs" .running (if i < 100 then 1 else 3) i)

/-- The messages in its dead letter queue, with the ids of the hundred. -/
def deadRows : List (Nat × MessageRow) :=
  (List.range 100).map fun i => (101 + i, stoppedRow "dead" .errored 1 i)

theorem map_fst_collidedRows : (jobsRows ++ deadRows).map Prod.fst = List.range 201 := by
  decide +kernel

/-- Both queues. -/
def collidedDb : Database where
  queues :=
    { rows :=
        [(1, ⟨"dead", {}, none, ⟨[]⟩⟩),
         (2, ⟨"jobs", { deadLetterQueueName := "dead" }, some "dead", ⟨[]⟩⟩)]
      nextId := 3
      id_lt := by decide
      ids_sorted := by decide
      keys_nodup := by decide }
  messages :=
    { rows := jobsRows ++ deadRows
      nextId := 201
      id_lt := by
        intro e he
        have hid : e.1 ∈ (jobsRows ++ deadRows).map Prod.fst := List.mem_map_of_mem he
        rw [map_fst_collidedRows] at hid
        exact List.mem_range.mp hid
      ids_sorted := by
        rw [map_fst_collidedRows]
        exact List.pairwise_lt_range
      keys_nodup := by
        rw [List.map_append, List.nodup_append]
        refine ⟨?_, ?_, ?_⟩
        · rw [jobsRows, List.map_map]
          exact List.nodup_range.map fun i j h => repeatedId_injective (congrArg Prod.snd h)
        · rw [deadRows, List.map_map]
          exact List.nodup_range.map fun i j h => repeatedId_injective (congrArg Prod.snd h)
        · rintro a ha b hb rfl
          simp only [jobsRows, deadRows, List.map_map, List.mem_map] at ha hb
          obtain ⟨i, -, rfl⟩ := ha
          obtain ⟨j, -, hj⟩ := hb
          exact absurd (congrArg Prod.fst hj) (by simp [MessageRow.uniqueKey, stoppedRow, newRow]) }
  foreignKey := by
    intro e he
    rcases List.mem_append.mp he with he | he
    · obtain ⟨i, -, rfl⟩ := List.mem_map.mp he
      rfl
    · obtain ⟨i, -, rfl⟩ := List.mem_map.mp he
      rfl

theorem expiredMessages_collided : expiredMessages collidedDb id 0 "jobs" =
    (List.range 101).map fun i => ⟨repeatedId i, "a"⟩ := by
  decide +kernel

/-- None of the hundred can be reclaimed. -/
theorem reclaim_collided {message : ExpiredMessage}
    (h : message ∈ (expiredMessages collidedDb id 0 "jobs").take reclaimBatchSize) :
    (∃ err, reclaimExpiredMessage collidedDb (fun _ => 0) "jobs" message = .error err) ∧
      message ≠ ⟨repeatedId 100, "a"⟩ := by
  rw [expiredMessages_collided, ← List.map_take, List.take_range] at h
  obtain ⟨i, hi, rfl⟩ := List.mem_map.mp h
  have hlt : i < 100 := List.mem_range.mp hi
  have hmem : (i, stoppedRow "jobs" .running 1 i) ∈ collidedDb.messages.rows := by
    refine List.mem_append_left _ (List.mem_map.mpr ⟨i, List.mem_range.mpr (by omega), ?_⟩)
    rw [if_pos hlt]
  have hheld : HeldInDlq collidedDb { deadLetterQueueName := "dead" } i
      (stoppedRow "jobs" .running 1 i) := by
    refine ⟨by decide, (101 + i, stoppedRow "dead" .errored 1 i), ?_, ?_, rfl, rfl⟩
    · exact List.mem_append_right _ (List.mem_map.mpr ⟨i, List.mem_range.mpr hlt, rfl⟩)
    · show 101 + i ≠ i
      omega
  have hexists : DlqsExist collidedDb := by
    show ∀ c ∈ collidedDb.configs, _
    decide +kernel
  have hmeta : collidedDb.queueMetadata? "jobs" = some { deadLetterQueueName := "dead" } := by
    decide +kernel
  have hrec : Reclaimable "jobs" (repeatedId i) "a" 0 (stoppedRow "jobs" .running 1 i) :=
    ⟨rfl, rfl, rfl, rfl, rfl, rfl⟩
  have hnot : (∃ r, reclaimExpiredMessage collidedDb (fun _ => 0) "jobs" ⟨repeatedId i, "a"⟩ =
      .ok r) ↔ ¬ HeldInDlq collidedDb { deadLetterQueueName := "dead" } i
        (stoppedRow "jobs" .running 1 i) :=
    reclaimExpiredMessage_isOk_iff _ hexists hmem hmeta hrec rfl
  constructor
  · cases hreclaim : reclaimExpiredMessage collidedDb (fun _ => 0) "jobs" ⟨repeatedId i, "a"⟩ with
    | error err => exact ⟨err, rfl⟩
    | ok result => exact absurd hheld (hnot.mp ⟨result, hreclaim⟩)
  · intro heq
    have hid := repeatedId_injective (congrArg ExpiredMessage.messageId heq)
    omega

/-- What every cycle meets at instant 0. -/
def atZero : ReclaimCycle where
  nowMs := 0
  attempts := fun _ => { clock := fun _ => 0 }

/-- A cycle leaves the database as it was. -/
theorem reclaimQueueMessages_collided :
    (reclaimQueueMessages collidedDb id atZero "jobs").1 = collidedDb ∧
      FailsFor (fun message => message ≠ ⟨repeatedId 100, "a"⟩)
        (reclaimQueueMessages collidedDb id atZero "jobs").2 := by
  have hattempts : ∀ message ∈ (expiredMessages collidedDb id 0 "jobs").take reclaimBatchSize,
      ∃ err, (atZero.attempts message).run collidedDb "jobs" message = .error err :=
    fun message hmem => (reclaim_collided hmem).1
  obtain ⟨hdb, hfails⟩ := attemptEach_of_error
    (fun (db : Database) message => (atZero.attempts message).run db "jobs" message) hattempts
  unfold reclaimQueueMessages reclaimMessages
  refine ⟨hdb, fun message outcome hmem => ?_⟩
  obtain ⟨hbatch, err, rfl⟩ := hfails message outcome hmem
  simp [Except.isOk, Except.toBool, (reclaim_collided hbatch).2]

/-- The cycles on the two queues. -/
def collidedRun : ReclaimRun where
  queueName := "jobs"
  rank := id
  db := fun _ => collidedDb
  cycle := fun _ => atZero
  undisturbed := by
    intro k
    rw [reclaimQueueMessages_collided.1]
  failing := fun message => message ≠ ⟨repeatedId 100, "a"⟩
  fails := fun _ => reclaimQueueMessages_collided.2

/-! ### A schedule whose payload cannot be decrypted -/

/-- Two schedules, the run of `broken` due a millisecond before that of `daily`. -/
def brokenFirst : ScheduleDatabase where
  store := .empty
  schedules := fun id =>
    if id = "broken" then
      some (newScheduleRow { calendarRequest (Calendar.dailyAt 0) with
        nextRun := some (ofUnixMilli 86399999) } 0)
    else if id = "daily" then some (midnightRow (Calendar.dailyAt 0))
    else none
  history := []

/-- A cycle in which the key of `broken` is missing. -/
def keyMissing : CalendarCycle where
  inTime := fun _ => true
  nowMs := fun _ => 86400000
  calls := fun _ id => { atMidnight with
    circumstances := { atMidnight.circumstances with
      decryptError := if id = "broken" then some "encryption key not found" else none } }

/-- The only batch of a cycle with batches of one. -/
def brokenBatch : CalendarBatch := keyMissing.runBatch ["broken", "daily"] 1 0 brokenFirst

theorem brokenBatch_fails : brokenBatch.after = brokenFirst ∧
    ∀ id outcome, (id, outcome) ∈ brokenBatch.outcomes →
      id ∈ ["broken"] ∧ ∃ err, outcome = .error err := by
  have hcollect : brokenFirst.collectDueSchedules ["broken", "daily"] 86400000 1 = ["broken"] := by
    decide +kernel
  have hcall : ∀ id ∈ ["broken"], ∃ err,
      brokenFirst.processCalendar { keyMissing.calls 0 id with nowMs := 86400000 } id =
        .error err := by
    intro id hid
    obtain rfl := List.mem_singleton.mp hid
    exact ⟨"decrypt schedule payload: encryption key not found", rfl⟩
  have hbatch := attemptEach_of_error
    (fun (db : ScheduleDatabase) id =>
      db.processCalendar { keyMissing.calls 0 id with nowMs := 86400000 } id) hcall
  rw [← hcollect] at hbatch
  exact hbatch

theorem processDueSchedules_broken :
    processDueSchedules brokenFirst ["broken", "daily"] ⟨1, 0⟩ keyMissing = [brokenBatch] := by
  have hnone : brokenBatch.progressed = 0 := by
    refine List.countP_eq_zero.mpr fun attempt hattempt => ?_
    obtain ⟨-, err, herr⟩ := brokenBatch_fails.2 attempt.1 attempt.2 hattempt
    simp [herr, Except.toOption]
  obtain ⟨rest, hrest⟩ : ∃ rest, processDueSchedules brokenFirst ["broken", "daily"] ⟨1, 0⟩
      keyMissing = brokenBatch :: if brokenBatch.progressed = 0 then [] else rest := ⟨_, rfl⟩
  rw [hrest, if_pos hnone]

/-- The cycles on the two schedules, with batches of one. -/
def brokenRun : CalendarRun where
  config := ⟨1, 0⟩
  scan := ["broken", "daily"]
  nodup := by decide
  db := fun _ => brokenFirst
  cycle := fun _ => keyMissing
  inTime := fun _ => rfl
  lists := by
    intro id row hrow
    by_cases hbroken : id = "broken"
    · simp [hbroken]
    · by_cases hdaily : id = "daily"
      · simp [hdaily]
      · simp [brokenFirst, hbroken, hdaily] at hrow
  undisturbed := by
    intro n
    have hall : ∀ batch ∈ (List.range n).flatMap fun _ =>
        processDueSchedules brokenFirst ["broken", "daily"] ⟨1, 0⟩ keyMissing,
        batch = brokenBatch := by
      intro batch hmem
      obtain ⟨k, -, hk⟩ := List.mem_flatMap.mp hmem
      rw [processDueSchedules_broken] at hk
      exact List.mem_singleton.mp hk
    refine (List.pairwise_of_forall_mem_list fun batch hbatch next hnext => ?_).isChain
    rw [hall batch hbatch, hall next hnext, CalendarBatch.left, brokenBatch_fails.1]
    rfl
  settled := by
    intro k batch hmem id hprocesses
    rw [processDueSchedules_broken] at hmem
    obtain rfl := List.mem_singleton.mp hmem
    obtain ⟨-, err, herr⟩ := brokenBatch_fails.2 id _ hprocesses
    cases herr
  failing := fun id => id = "broken"
  commits := by
    intro k batch hmem id outcome houtcome
    rw [processDueSchedules_broken] at hmem
    obtain rfl := List.mem_singleton.mp hmem
    obtain ⟨hid, err, rfl⟩ := brokenBatch_fails.2 id outcome houtcome
    simp [List.mem_singleton.mp hid]

/-- Neither service gets past a batch of failing items. -/
theorem not_pastFailures :
    (¬ ∀ run : ReclaimRun, run.ReclaimsTheRest) ∧
      ¬ ∀ run : CalendarRun, run.ProcessesTheRest := by
  constructor
  · intro h
    have hfew := collidedRun.reclaimsTheRest_iff.mp (h collidedRun) ⟨repeatedId 100, "a"⟩
    have hdue : collidedRun.due 0 = (List.range 101).map fun i => ⟨repeatedId i, "a"⟩ :=
      expiredMessages_collided
    rw [hdue] at hfew
    have hahead : failingAhead collidedRun.failing ⟨repeatedId 100, "a"⟩
        ((List.range 101).map fun i => ⟨repeatedId i, "a"⟩) = reclaimBatchSize := by
      decide +kernel
    rw [hahead] at hfew
    refine Nat.lt_irrefl _ (hfew ?_ ?_)
    · exact List.mem_map.mpr ⟨100, by decide, rfl⟩
    · simp [collidedRun]
  · intro h
    have hfew := brokenRun.processesTheRest_iff.mp (h brokenRun) "daily"
    have hdue : brokenRun.due = ["broken", "daily"] := by decide +kernel
    rw [hdue] at hfew
    exact absurd (hfew (by decide) (by decide)) (by decide)

end Nzovu.Background
