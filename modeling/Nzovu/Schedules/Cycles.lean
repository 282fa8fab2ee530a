import Mathlib.Data.List.Range
import Nzovu.Foundation.Drain
import Nzovu.Schedules.Database

/-!
# Calendar Cycles

Translation of `processDueSchedules` and `collectDueSchedules` of
`pkg/repository/sql/background/calendar.go`, with `normalizeDrainConfig` of `drain.go`: a cycle
takes batches of due schedules until there is nothing due, a batch commits nothing, or the cycle has
had its batches or its time.

- Section 1: a cycle.
- Section 2: what a batch leaves due.
- Section 3: consecutive cycles.
-/

namespace Nzovu.Schedules

open Nzovu.Foundation
open Nzovu.Repository

/-! ## Section 1: A cycle -/

/-- The limits of a cycle. -/
structure DrainConfig where
  batchSize : Int
  maxBatches : Int

/-- `normalizeDrainConfig`: the defaults replace values that are not positive. -/
def DrainConfig.normalize (config : DrainConfig) : DrainConfig where
  batchSize := if config.batchSize ≤ 0 then 100 else config.batchSize
  maxBatches := if config.maxBatches ≤ 0 then 10 else config.maxBatches

/-- The due schedule with this id, if it is one, and its next run. -/
def ScheduleDatabase.dueRow (db : ScheduleDatabase) (nowMs : Int) (id : String) :
    Option (String × Int) :=
  match db.schedules id with
  | none => none
  | some row =>
    if CalendarService.selects row nowMs then row.nextRun.map fun nextRun => (id, nextRun)
    else none

/-- The due schedules, `ORDER BY next_run ASC`; `scan` lists the ids of the table in the order in
which the query meets schedules that are due at the same time. -/
def ScheduleDatabase.dueSchedules (db : ScheduleDatabase) (scan : List String) (nowMs : Int) :
    List String :=
  ((scan.filterMap (db.dueRow nowMs)).insertionSort fun a b => a.2 ≤ b.2).map Prod.fst

/-- `collectDueSchedules`. -/
def ScheduleDatabase.collectDueSchedules (db : ScheduleDatabase) (scan : List String) (nowMs : Int)
    (limit : Nat) : List String :=
  (db.dueSchedules scan nowMs).take limit

/-- The outcomes of a batch's calls, in order: whether the schedule was processed, or the error. -/
abbrev BatchOutcomes := List (String × Except String Bool)

/-- The loop over a batch, each schedule in its own transaction. -/
def processBatch (calls : String → CalendarCall) :
    List String → ScheduleDatabase → ScheduleDatabase × BatchOutcomes :=
  attemptEach fun db id => db.processCalendar (calls id) id

/-- What a cycle meets outside the database: for each batch whether there is time for it, the
clock, and its calls. -/
structure CalendarCycle where
  inTime : Nat → Bool
  nowMs : Nat → Int
  calls : Nat → String → CalendarCall

/-- A batch, as it was run. -/
structure CalendarBatch where
  nowMs : Int
  before : ScheduleDatabase
  after : ScheduleDatabase
  outcomes : BatchOutcomes

/-- The number of schedules it has processed. -/
def CalendarBatch.progressed (batch : CalendarBatch) : Nat :=
  batch.outcomes.countP fun attempt => attempt.2.toOption = some true

/-- Batch `index` of a cycle. -/
def CalendarCycle.runBatch (cycle : CalendarCycle) (scan : List String) (batchSize index : Nat)
    (db : ScheduleDatabase) : CalendarBatch :=
  let nowMs := cycle.nowMs index
  let result := processBatch (fun id => { cycle.calls index id with nowMs := nowMs })
    (db.collectDueSchedules scan nowMs batchSize) db
  ⟨nowMs, db, result.1, result.2⟩

/-- The loop of `processDueSchedules`, from batch `index` on. A batch without schedules has not
progressed either. -/
def CalendarCycle.runBatches (cycle : CalendarCycle) (scan : List String) (batchSize : Nat) :
    Nat → Nat → ScheduleDatabase → List CalendarBatch
  | 0, _, _ => []
  | left + 1, index, db =>
    -- the budget of the cycle is spent
    if cycle.inTime index = false then []
    else
      let batch := cycle.runBatch scan batchSize index db
      batch ::
        -- nothing was due, or all of it failed
        if batch.progressed = 0 then []
        else cycle.runBatches scan batchSize left (index + 1) batch.after

/-- `processDueSchedules`: the batches it has run. -/
def processDueSchedules (db : ScheduleDatabase) (scan : List String) (config : DrainConfig)
    (cycle : CalendarCycle) : List CalendarBatch :=
  cycle.runBatches scan config.normalize.batchSize.toNat config.normalize.maxBatches.toNat 0 db

/-! ## Section 2: What a batch leaves due -/

theorem normalize_pos (config : DrainConfig) :
    0 < config.normalize.batchSize ∧ 0 < config.normalize.maxBatches := by
  simp only [DrainConfig.normalize]
  constructor
  · split <;> omega
  · split <;> omega

/-- A call that reports progress has committed its schedule; any other leaves the database. -/
theorem schedules_of_processCalendar {db db' : ScheduleDatabase} {call : CalendarCall}
    {id other : String} {processed : Bool}
    (h : db.processCalendar call id = .ok (db', processed))
    (hother : processed = true → other ≠ id) : db'.schedules other = db.schedules other := by
  unfold ScheduleDatabase.processCalendar at h
  split at h
  · cases h
    rfl
  · rename_i row hrow
    cases hprocessed : CalendarService.processSchedule call.backend call.engine call.circumstances
      (createScheduledMessage db.store call.message) id row call.nowMs with
    | failed error =>
      rw [hprocessed] at h
      cases h
    | unchanged =>
      rw [hprocessed] at h
      cases h
      rfl
    | committed row' history fired =>
      rw [hprocessed] at h
      cases h
      exact Function.update_of_ne (hother rfl) ..

/-- A schedule that the batch does not commit stays as it is. -/
theorem schedules_of_processBatch {calls : String → CalendarCall} {ids : List String}
    {db : ScheduleDatabase} {id : String} (h : (id, .ok true) ∉ (processBatch calls ids db).2) :
    (processBatch calls ids db).1.schedules id = db.schedules id := by
  -- every call of the batch keeps the row, since none of them commits it
  refine attemptEach_keeps _ (fun db' : ScheduleDatabase => db'.schedules id = db.schedules id)
    (fun other processed => processed = true → id ≠ other) ?_ ?_ rfl
  · intro db₁ other db₂ processed hcall hallowed hinv
    exact (schedules_of_processCalendar hcall hallowed).trans hinv
  · rintro other processed hmem rfl rfl
    exact h hmem

section Batch

variable {db : ScheduleDatabase} {scan : List String} {nowMs : Int} {id : String}

theorem dueRow_eq_some {p : String × Int} :
    db.dueRow nowMs id = some p ↔ p.1 = id ∧ ∃ row, db.schedules id = some row ∧
      CalendarService.selects row nowMs = true ∧ row.nextRun = some p.2 := by
  unfold ScheduleDatabase.dueRow
  cases db.schedules id with
  | none => simp
  | some row =>
    cases hselects : CalendarService.selects row nowMs with
    | false => simp [hselects]
    | true =>
      simp only [if_true, Option.map_eq_some_iff, Option.some.injEq, exists_eq_left', hselects,
        true_and]
      constructor
      · rintro ⟨nextRun, hnext, rfl⟩
        exact ⟨rfl, hnext⟩
      · rintro ⟨rfl, hnext⟩
        exact ⟨p.2, hnext, rfl⟩

/-- The due schedules are those that satisfy the conditions of the query. -/
theorem mem_dueSchedules :
    id ∈ db.dueSchedules scan nowMs ↔ id ∈ scan ∧ ∃ row, db.schedules id = some row ∧
      CalendarService.selects row nowMs = true := by
  simp only [ScheduleDatabase.dueSchedules, List.mem_map, List.mem_insertionSort,
    List.mem_filterMap]
  constructor
  · rintro ⟨p, ⟨other, hscan, hdue⟩, rfl⟩
    -- what is collected satisfies the query, with its own id
    obtain ⟨hid, row, hrow, hselects, -⟩ := dueRow_eq_some.mp hdue
    rw [hid]
    exact ⟨hscan, row, hrow, hselects⟩
  · rintro ⟨hscan, row, hrow, hselects⟩
    -- a schedule without a next run is not selected
    have hnext : ∃ nextRun, row.nextRun = some nextRun := by
      cases hnext : row.nextRun with
      | none => simp [CalendarService.selects, hnext] at hselects
      | some nextRun => exact ⟨nextRun, rfl⟩
    obtain ⟨nextRun, hnext⟩ := hnext
    exact ⟨(id, nextRun), ⟨id, hscan, dueRow_eq_some.mpr ⟨rfl, row, hrow, hselects, hnext⟩⟩, rfl⟩

theorem nodup_dueSchedules (h : scan.Nodup) : (db.dueSchedules scan nowMs).Nodup := by
  have hids : ((scan.filterMap (db.dueRow nowMs)).map Prod.fst).Nodup := by
    rw [List.map_filterMap]
    refine h.filterMap fun x y z hx hy => ?_
    obtain ⟨p, hp, rfl⟩ := Option.map_eq_some_iff.mp hx
    obtain ⟨q, hq, hpq⟩ := Option.map_eq_some_iff.mp hy
    exact ((dueRow_eq_some.mp hp).1.symm.trans hpq.symm).trans (dueRow_eq_some.mp hq).1
  exact ((List.perm_insertionSort _ _).map _).nodup_iff.mpr hids

/-- When the schedules in `gone` are not due any more and the others are as they were, the others
are due, in the same order. -/
theorem dueSchedules_of_gone {db' : ScheduleDatabase} {gone : String → Bool}
    (hkept : ∀ id, gone id = false → db'.schedules id = db.schedules id)
    (hgone : ∀ id ∈ db'.dueSchedules scan nowMs, gone id = false) :
    db'.dueSchedules scan nowMs = (db.dueSchedules scan nowMs).filter fun id => !gone id := by
  have htotal : Std.Total fun a b : String × Int => a.2 ≤ b.2 := ⟨fun a b => Int.le_total _ _⟩
  have htrans : IsTrans (String × Int) fun a b => a.2 ≤ b.2 := ⟨fun _ _ _ => Int.le_trans⟩
  have hrows : scan.filterMap (db'.dueRow nowMs) =
      (scan.filterMap (db.dueRow nowMs)).filter fun p => !gone p.1 := by
    rw [List.filter_filterMap]
    refine List.filterMap_congr fun id hscan => ?_
    cases hid : gone id with
    | false =>
      have hsame : db'.dueRow nowMs id = db.dueRow nowMs id := by
        simp only [ScheduleDatabase.dueRow, hkept id hid]
      rw [hsame]
      cases hdue : db.dueRow nowMs id with
      | none => rfl
      | some p =>
        rw [← (dueRow_eq_some.mp hdue).1] at hid
        simp [Option.filter, hid]
    | true =>
      have hnot : db'.dueRow nowMs id = none := by
        cases hdue : db'.dueRow nowMs id with
        | none => rfl
        | some p =>
          obtain ⟨-, row, hrow, hselects, -⟩ := dueRow_eq_some.mp hdue
          have hkeeps := hgone id (mem_dueSchedules.mpr ⟨hscan, row, hrow, hselects⟩)
          exact absurd (hid.symm.trans hkeeps) Bool.noConfusion
      rw [hnot]
      cases hdue : db.dueRow nowMs id with
      | none => rfl
      | some p =>
        rw [← (dueRow_eq_some.mp hdue).1] at hid
        simp [Option.filter, hid]
  simp only [ScheduleDatabase.dueSchedules]
  rw [hrows, ← filter_insertionSort, List.filter_map]
  rfl

end Batch

namespace CalendarBatch

/-- The schedules that were due, in the order of the query. -/
def due (batch : CalendarBatch) (scan : List String) : List String :=
  batch.before.dueSchedules scan batch.nowMs

/-- The schedules that it has left due. -/
def left (batch : CalendarBatch) (scan : List String) : List String :=
  batch.after.dueSchedules scan batch.nowMs

/-- The batch has processed the schedule. -/
def Processes (batch : CalendarBatch) (id : String) : Prop := (id, .ok true) ∈ batch.outcomes

/-- The calls on the schedules in `failing` do not commit, and those on the others do. -/
def CommitsBut (batch : CalendarBatch) (failing : String → Bool) : Prop :=
  ∀ id outcome, (id, outcome) ∈ batch.outcomes → (outcome = .ok true ↔ failing id = false)

/-- The runs it has committed leave no further run due. -/
def Settled (batch : CalendarBatch) (scan : List String) : Prop :=
  ∀ id, batch.Processes id → id ∉ batch.left scan

end CalendarBatch

section Batch

variable {cycle : CalendarCycle} {scan : List String} {batchSize index : Nat}
  {db : ScheduleDatabase} {failing : String → Bool}

/-- A batch processes the first due schedules, but for those that fail. -/
theorem processes_runBatch_iff {id : String}
    (h : (cycle.runBatch scan batchSize index db).CommitsBut failing) :
    (cycle.runBatch scan batchSize index db).Processes id ↔
      failing id = false ∧
        id ∈ ((cycle.runBatch scan batchSize index db).due scan).take batchSize := by
  have htried : (cycle.runBatch scan batchSize index db).outcomes.map Prod.fst =
      ((cycle.runBatch scan batchSize index db).due scan).take batchSize := map_fst_attemptEach ..
  rw [← htried, List.mem_map]
  constructor
  · intro hmem
    exact ⟨(h id _ hmem).mp rfl, _, hmem, rfl⟩
  · rintro ⟨hid, ⟨other, outcome⟩, hmem, rfl⟩
    have houtcome := (h other outcome hmem).mpr hid
    subst houtcome
    exact hmem

/-- **One batch**: its transactions take what they commit out of the due schedules, and what is
rolled back stays where it was. -/
theorem left_runBatch (hscan : scan.Nodup)
    (hcommits : (cycle.runBatch scan batchSize index db).CommitsBut failing)
    (hsettled : (cycle.runBatch scan batchSize index db).Settled scan) :
    (cycle.runBatch scan batchSize index db).left scan =
      drainBatch batchSize failing ((cycle.runBatch scan batchSize index db).due scan) := by
  let batch := cycle.runBatch scan batchSize index db
  let gone : String → Bool := fun id => !failing id && decide (id ∈ (batch.due scan).take batchSize)
  have hgone : ∀ id, gone id = true ↔ batch.Processes id := by
    intro id
    rw [processes_runBatch_iff hcommits]
    simp [gone, batch]
  have hleft : batch.left scan = (batch.due scan).filter fun id => !gone id := by
    refine dueSchedules_of_gone (fun id hid => ?_) (fun id hid => ?_)
    · refine schedules_of_processBatch fun hmem => ?_
      rw [(hgone id).mpr hmem] at hid
      cases hid
    · cases hg : gone id with
      | false => rfl
      | true => exact absurd hid (hsettled id ((hgone id).mp hg))
  have hnodup : (batch.due scan).Nodup := nodup_dueSchedules hscan
  rw [← filter_eq_drainBatch _ _ hnodup]
  refine hleft.trans (List.filter_congr fun id _ => ?_)
  simp [gone]

theorem mem_runBatches {batch : CalendarBatch} {fuel : Nat}
    (h : batch ∈ cycle.runBatches scan batchSize fuel index db) :
    ∃ index db, batch = cycle.runBatch scan batchSize index db := by
  induction fuel generalizing index db with
  | zero => cases h
  | succ fuel ih =>
    unfold CalendarCycle.runBatches at h
    split at h
    · cases h
    · rcases List.mem_cons.mp h with rfl | h
      · exact ⟨_, _, rfl⟩
      · split at h
        · cases h
        · exact ih h

/-- A cycle that has time runs its first batch. -/
theorem processDueSchedules_cons {config : DrainConfig} (htime : cycle.inTime 0 = true) :
    ∃ rest, processDueSchedules db scan config cycle =
      cycle.runBatch scan config.normalize.batchSize.toNat 0 db :: rest := by
  obtain ⟨fuel, hfuel⟩ : ∃ fuel, config.normalize.maxBatches.toNat = fuel + 1 :=
    Nat.exists_eq_succ_of_ne_zero (by have := (normalize_pos config).2; omega)
  simp only [processDueSchedules, hfuel, CalendarCycle.runBatches, htime, Bool.true_eq_false,
    if_false]
  exact ⟨_, rfl⟩

end Batch

/-! ## Section 3: Consecutive cycles -/

/-- Consecutive cycles of `processDueSchedules`. Between two batches other operations may run, but
no schedule becomes due, also not with its next run, and what happens to the due schedules is left
to the batches. The schedules in `failing` are those whose calls never commit. -/
structure CalendarRun where
  config : DrainConfig
  scan : List String
  nodup : scan.Nodup
  db : Nat → ScheduleDatabase
  cycle : Nat → CalendarCycle
  /-- The first look at the time is right after the start. -/
  inTime : ∀ k, (cycle k).inTime 0 = true
  lists : ∀ id row, (db 0).schedules id = some row → id ∈ scan
  undisturbed : ∀ n, ((List.range n).flatMap fun k =>
    processDueSchedules (db k) scan config (cycle k)).IsChain
      fun batch next => next.due scan = batch.left scan
  settled : ∀ k, ∀ batch ∈ processDueSchedules (db k) scan config (cycle k), batch.Settled scan
  failing : String → Bool
  commits : ∀ k, ∀ batch ∈ processDueSchedules (db k) scan config (cycle k),
    batch.CommitsBut failing

namespace CalendarRun

/-- The size of a batch. -/
def batchSize (run : CalendarRun) : Nat := run.config.normalize.batchSize.toNat

/-- The batches of cycle `k`. -/
def batches (run : CalendarRun) (k : Nat) : List CalendarBatch :=
  processDueSchedules (run.db k) run.scan run.config (run.cycle k)

/-- The schedules that are due at the first batch, in the order of the query. -/
def due (run : CalendarRun) : List String :=
  (run.db 0).dueSchedules run.scan ((run.cycle 0).nowMs 0)

/-- Cycle `k` processes the schedule. -/
def Processes (run : CalendarRun) (k : Nat) (id : String) : Prop :=
  ∃ batch ∈ run.batches k, batch.Processes id

/-- Every due schedule whose calls commit is processed, by as many cycles as there are schedules
due. -/
def ProcessesTheRest (run : CalendarRun) : Prop :=
  ∀ id row, (run.db 0).schedules id = some row →
    CalendarService.selects row ((run.cycle 0).nowMs 0) = true → run.failing id = false →
      ∃ k < run.due.length, run.Processes k id

variable (run : CalendarRun)

theorem mem_due {id : String} : id ∈ run.due ↔ ∃ row, (run.db 0).schedules id = some row ∧
    CalendarService.selects row ((run.cycle 0).nowMs 0) = true := by
  rw [due, mem_dueSchedules]
  constructor
  · exact fun h => h.2
  · rintro ⟨row, hrow, hselects⟩
    exact ⟨run.lists id row hrow, row, hrow, hselects⟩

theorem drains (n : Nat) : Drains run.batchSize run.failing
    (((List.range n).flatMap run.batches).map fun batch => batch.due run.scan) := by
  refine (List.isChain_map _).mpr ((run.undisturbed n).imp_of_mem_imp ?_)
  intro batch next hbatch _ hnext
  obtain ⟨k, -, hk⟩ := List.mem_flatMap.mp hbatch
  obtain ⟨index, db, rfl⟩ := mem_runBatches hk
  exact hnext.trans (left_runBatch run.nodup (run.commits k _ hk) (run.settled k _ hk))

theorem batches_cons (k : Nat) : ∃ rest, run.batches k =
    (run.cycle k).runBatch run.scan run.batchSize 0 (run.db k) :: rest :=
  processDueSchedules_cons (run.inTime k)

/-- Every cycle has a batch. -/
theorem le_length_batches (n : Nat) : n ≤ ((List.range n).flatMap run.batches).length := by
  induction n with
  | zero => exact Nat.zero_le _
  | succ n ih =>
    obtain ⟨rest, hrest⟩ := run.batches_cons n
    simp only [List.range_succ, List.flatMap_append, List.flatMap_singleton, List.length_append,
      hrest, List.length_cons]
    omega

theorem processes_iff {n : Nat} {id : String} (hfailing : run.failing id = false) :
    (∃ k < n, run.Processes k id) ↔
      ∃ items ∈ ((List.range n).flatMap run.batches).map fun batch => batch.due run.scan,
        id ∈ items.take run.batchSize := by
  have hbatch : ∀ k, ∀ batch ∈ run.batches k,
      (batch.Processes id ↔ id ∈ (batch.due run.scan).take run.batchSize) := by
    intro k batch hmem
    obtain ⟨index, db, rfl⟩ := mem_runBatches hmem
    refine (processes_runBatch_iff (run.commits k _ hmem)).trans ?_
    simp only [hfailing, true_and]
    rfl
  simp only [List.mem_map, List.mem_flatMap, List.mem_range]
  constructor
  · rintro ⟨k, hk, batch, hmem, hprocesses⟩
    exact ⟨_, ⟨batch, ⟨k, hk, hmem⟩, rfl⟩, (hbatch k batch hmem).mp hprocesses⟩
  · rintro ⟨_, ⟨batch, ⟨k, hk, hmem⟩, rfl⟩, htake⟩
    exact ⟨k, hk, batch, hmem, (hbatch k batch hmem).mpr htake⟩

/-- A schedule is processed exactly when the failing schedules before it do not fill a batch. -/
theorem processesTheRest_iff : run.ProcessesTheRest ↔ ∀ id ∈ run.due, run.failing id = false →
    failingAhead run.failing id run.due < run.batchSize := by
  have hid : ∀ id ∈ run.due, run.failing id = false →
      ((∃ k < run.due.length, run.Processes k id) ↔
        failingAhead run.failing id run.due < run.batchSize) := by
    intro id hdue hfailing
    obtain ⟨n, hn⟩ := Nat.exists_eq_succ_of_ne_zero
      (Nat.ne_zero_of_lt (List.length_pos_of_mem hdue))
    obtain ⟨rest, hrest⟩ := run.batches_cons 0
    have hlength := run.le_length_batches run.due.length
    have hdrains := run.drains run.due.length
    rw [run.processes_iff hfailing]
    rw [hn, List.range_succ_eq_map, List.flatMap_cons, hrest, List.cons_append] at hlength hdrains ⊢
    rw [List.map_cons] at hdrains ⊢
    exact hdrains.reached_iff hdue (by rw [List.length_map]; exact hn ▸ hlength)
  constructor
  · intro h id hdue hfailing
    obtain ⟨row, hrow, hselects⟩ := run.mem_due.mp hdue
    exact (hid id hdue hfailing).mp (h id row hrow hselects hfailing)
  · intro h id row hrow hselects hfailing
    have hdue := run.mem_due.mpr ⟨row, hrow, hselects⟩
    exact (hid id hdue hfailing).mpr (h id hdue hfailing)

end CalendarRun

end Nzovu.Schedules
