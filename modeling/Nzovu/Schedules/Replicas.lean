import Nzovu.Foundation.Transaction.Soundness
import Nzovu.Schedules.Progress

/-!
# Several Replicas

Any number of processors and operators work on the schedules at once. On SQLite their transactions
are serial. On Postgres they interleave under READ COMMITTED: a processor locks the row of the
schedule with `FOR UPDATE SKIP LOCKED`, an operator waits for it, and either decides on the row it
has locked. Every run amounts to the committed calls, one after another.

- Section 1: firing once.
- Section 2: transactions.
- Section 3: interleavings amount to sequences.
- Section 4: schedules fire at most once.
-/

namespace Nzovu.Schedules

open Nzovu.Foundation
open Nzovu.Repository

/-! ## Section 1: Firing once -/

/-- What replicas may do to a schedule: at every moment of its log, one message at most has been
committed for each instant since the creation, none while it was not active, and no more than its
limit since it was created or resumed. -/
structure FiresOnce (log : List ScheduleEvent) : Prop where
  once : ∀ earlier, earlier <:+ log → (firedSince earlier).Nodup
  active : FiresWhileActive log
  within : ∀ earlier, earlier <:+ log → ∀ origin, createdRow earlier = some origin →
    origin.metadata.hasMaxMessages = true → firedCount earlier ≤ origin.metadata.maxMessages

/-- The condition on a call that finds the row `before`: the next run it computes after firing one
is `later`. -/
def ComputesNext (later : Int → Int → Prop) (parse : CronParser) (before : Option ScheduleRow) :
    ScheduleCall → Prop
  | .cron c insert => ∀ row, before = some row → ∀ next nextRun created,
      CronProcessorService.Fires parse c insert row next nextRun created →
        later (ofUnixMilli nextRun) (next (ofUnixMilli nextRun))
  | .calendar _ engine c insert nowMs => ∀ row, before = some row →
      ∀ nextRun schedule created t,
        CalendarService.Fires c engine insert row nowMs nextRun schedule created →
          engine.nextRun schedule (ofUnixMilli nextRun) = .ok t → later (ofUnixMilli nextRun) t
  | _ => True

/-- An instant in a later millisecond. -/
def LaterMilli (run next : Int) : Prop := unixMilli run < unixMilli next

theorem advancesOf_of_computesNext {parse : CronParser} {slot : Slot} {call : ScheduleCall}
    (h : ComputesNext LaterMilli parse slot.row call) :
    AdvancesOf (fun _ => True) parse slot call := by
  cases call with
  | cron c insert =>
    intro row hrow _ next nextRun created hfires
    simpa [LaterMilli] using h row hrow next nextRun created hfires
  | calendar backend engine c insert nowMs =>
    intro row hrow _ nextRun schedule created t hfires hnext
    simpa [LaterMilli] using h row hrow nextRun schedule created t hfires hnext
  | create ctx metadata => trivial
  | pause nowMs => trivial
  | resume nowMs => trivial
  | delete => trivial

theorem Slot.Accounted.nodup {slot : Slot} (h : slot.Accounted)
    (hadvanced : AdvancedOf (fun _ => True) slot) : (firedSince slot.log).Nodup := by
  cases horigin : createdRow slot.log with
  | none =>
    rw [h.started horigin]
    exact List.nodup_nil
  | some origin =>
    exact (hadvanced origin horigin trivial).increasing.imp fun hlt => (Int.ne_of_lt hlt).symm

/-- The account and the advance, at every moment of the log. -/
structure Slot.Chronicled (slot : Slot) : Prop where
  accounted : slot.Accounted
  advanced : AdvancedOf (fun _ => True) slot
  once : ∀ earlier, earlier <:+ slot.log → (firedSince earlier).Nodup
  within : ∀ earlier, earlier <:+ slot.log → ∀ origin, createdRow earlier = some origin →
    origin.metadata.hasMaxMessages = true → firedCount earlier ≤ origin.metadata.maxMessages

theorem Slot.Chronicled.firesOnce {slot : Slot} (h : slot.Chronicled) : FiresOnce slot.log :=
  ⟨h.once, h.accounted.firesWhileActive, h.within⟩

theorem Slot.chronicled_empty : Slot.Chronicled {} := by
  have hadvanced := advancedOf_empty fun _ => True
  refine ⟨Slot.accounted_empty, hadvanced, fun earlier hsuffix => ?_, fun earlier hsuffix => ?_⟩
  · rw [List.suffix_nil.mp hsuffix]
    exact List.nodup_nil
  · rw [List.suffix_nil.mp hsuffix]
    exact Slot.accounted_empty.within

/-- A call adds one event at most. -/
theorem Slot.suffix_step {parse : CronParser} {id : String} {slot : Slot} {call : ScheduleCall}
    {earlier : List ScheduleEvent} (h : earlier <:+ (slot.step parse id call).log) :
    earlier = (slot.step parse id call).log ∨ earlier <:+ slot.log := by
  unfold Slot.step at h ⊢
  cases happly : call.apply parse id slot.row with
  | none =>
    simp only [happly] at h
    exact .inr h
  | some outcome =>
    simp only [happly] at h ⊢
    cases hevent : outcome.event with
    | none =>
      rw [hevent] at h
      exact .inr h
    | some event =>
      rw [hevent] at h
      exact List.suffix_cons_iff.mp h

theorem chronicled_step {parse : CronParser} {id : String} {slot : Slot} {call : ScheduleCall}
    (h : slot.Chronicled) (hadvances : AdvancesOf (fun _ => True) parse slot call) :
    (slot.step parse id call).Chronicled := by
  have haccounted : (slot.step parse id call).Accounted := accounted_step h.accounted
  have hadvanced : AdvancedOf (fun _ => True) (slot.step parse id call) :=
    advanced_step h.accounted h.advanced hadvances
  refine ⟨haccounted, hadvanced, fun earlier hsuffix => ?_, fun earlier hsuffix => ?_⟩
  · rcases Slot.suffix_step hsuffix with rfl | hbefore
    · exact haccounted.nodup hadvanced
    · exact h.once earlier hbefore
  · rcases Slot.suffix_step hsuffix with rfl | hbefore
    · exact haccounted.within
    · exact h.within earlier hbefore

/-- The condition on a whole run of calls, one after another. -/
def Computes (later : Int → Int → Prop) (parse : CronParser) (ops : List ScheduleOp) : Prop :=
  FollowsSchedules parse (fun slot => ComputesNext later parse slot.row) ops

/-- Schedules fire at most once when the calls are serial. -/
theorem firesOnce_run {parse : CronParser} {ops : List ScheduleOp}
    (h : Computes LaterMilli parse ops) (id : String) :
    FiresOnce (runSchedules parse ops id).log :=
  (invariant_runSchedules Slot.Chronicled Slot.chronicled_empty
    (fun _ _ _ hslot hcall => chronicled_step hslot (advancesOf_of_computesNext hcall)) h
    id).firesOnce

/-! ## Section 2: Transactions -/

/-- The primary key of `cq_schedules`. -/
abbrev SlotKey : Unit → Type := fun _ => String

/-- What is stored for an id: a row, or none. An id without a row is a row of its own here, so that
a creation can lock it, as the unique index does; a transaction that locks an empty slot where it
would find no row changes nothing. -/
abbrev SlotRow : Unit → Type := fun _ => Option ScheduleRow

/-- The slot of an id. -/
abbrev slotOf (id : String) : Ref SlotKey := ⟨(), id⟩

/-- What a committed transaction has done. -/
structure Committed where
  op : ScheduleOp
  before : Option ScheduleRow
  outcome : Outcome

/-- `FOR UPDATE SKIP LOCKED` for the processors, `FOR UPDATE` for the operators. -/
def ScheduleCall.lockMode : ScheduleCall → LockMode
  | .cron _ _ => .skipLocked
  | .calendar _ _ _ _ _ => .skipLocked
  | _ => .wait

/-- A transaction that has locked the slot. -/
def onSlot (parse : CronParser) (op : ScheduleOp) (before : Option ScheduleRow) :
    Program SlotKey SlotRow Unit Committed :=
  match op.2.apply parse op.1 before with
  -- rolled back, or committed without a change
  | none => .fail ()
  | some outcome =>
    .write () op.1 (some outcome.row) (fun _ => ()) (.done ⟨op, before, outcome⟩)

/-- The transaction of a call. -/
def transaction (parse : CronParser) (op : ScheduleOp) :
    Program SlotKey SlotRow Unit Committed :=
  (Program.selectForUpdate () { filter := fun id _ => id = op.1, mode := op.2.lockMode }).bind
    fun found =>
      match found with
      | [] => .fail ()
      | e :: _ => onSlot parse op e.2

/-- Replicas and operators at work on the schedules with the listed ids; each session is one
transaction. -/
structure Replicas where
  parse : CronParser
  ids : List String
  ids_nodup : ids.Nodup
  clock : Int
  op : Nat → ScheduleOp

namespace Replicas

variable (replicas : Replicas)

/-- The table has no constraint but its primary key. -/
def schema : Schema SlotKey SlotRow where
  keys := fun _ => replicas.ids
  nodup := fun _ => replicas.ids_nodup
  clash := fun _ _ _ => false
  clash_symm := fun _ _ _ => rfl
  requires := fun _ _ => []

/-- No schedule has been created. -/
def emptyTable : Store SlotKey SlotRow :=
  fun i => if i.2 ∈ replicas.ids then some none else none

/-- The database and its sessions. -/
abbrev Server := World SlotKey SlotRow Unit Committed

/-- No session has begun. -/
def start : Server :=
  .start replicas.clock replicas.emptyTable fun t => transaction replicas.parse (replicas.op t)

/-- The server after the scheduler's choices. -/
def run (actions : List Action) : Server :=
  runFrom (World.step replicas.schema) replicas.start actions

/-- What a committing session has done: it has applied its call to the slot it has locked. -/
structure Applied (t : Nat) (result : Committed) (L : Local SlotKey SlotRow) : Prop where
  op : result.op = replicas.op t
  applied : result.op.2.apply replicas.parse result.op.1 result.before = some result.outcome
  held : L.held (slotOf result.op.1) = some (some result.before, some result.outcome.row)
  others : ∀ i, i ≠ slotOf result.op.1 → L.held i = none

theorem safe_transaction (t : Nat) :
    (transaction replicas.parse (replicas.op t)).Safe replicas.schema (fun _ => True)
      (replicas.Applied t) (Local.start replicas.clock) := by
  apply Program.safe_bind
  apply Program.safe_select_one (fun _ => rfl)
  · refine .inl fun x y _ _ hx hy => .inl ?_
    rw [of_decide_eq_true hx, of_decide_eq_true hy]
  · trivial
  · intro id before hid
    obtain rfl : id = (replicas.op t).1 := of_decide_eq_true hid
    simp only [onSlot]
    cases happly : (replicas.op t).2.apply replicas.parse (replicas.op t).1 before with
    | none => trivial
    | some outcome =>
      apply Program.safe_write
      · simp [Local.acquire]
      · intro _
        refine ⟨rfl, happly, ?_, fun i hi => ?_⟩
        · simp [Local.write, Local.acquire]
        · simp [Local.write, Local.acquire, Local.start, Function.update_of_ne hi]

/-! ## Section 3: Interleavings amount to sequences -/

/-- The committed calls, in the order of their commits. -/
def committedOps (log : List (Nat × Committed)) : List ScheduleOp :=
  log.reverse.map fun e => e.2.op

/-- What has been committed for an id, the latest first. -/
def eventsOf (id : String) (log : List (Nat × Committed)) : List ScheduleEvent :=
  log.filterMap fun e => if e.2.op.1 = id then e.2.outcome.event else none

theorem committedOps_cons (e : Nat × Committed) (log : List (Nat × Committed)) :
    committedOps (e :: log) = committedOps log ++ [e.2.op] := by
  simp [committedOps]

theorem eventsOf_cons (id : String) (e : Nat × Committed) (log : List (Nat × Committed)) :
    eventsOf id (e :: log) =
      (if e.2.op.1 = id then e.2.outcome.event else none).toList ++ eventsOf id log := by
  unfold eventsOf
  rw [List.filterMap_cons]
  cases hevent : if e.2.op.1 = id then e.2.outcome.event else none <;> rfl

theorem runSchedules_concat (parse : CronParser) (ops : List ScheduleOp) (op : ScheduleOp) :
    runSchedules parse (ops ++ [op]) = stepSchedules parse (runSchedules parse ops) op :=
  runFrom_concat _ _ _ _

/-- The committed calls, one after another. -/
def replay (log : List (Nat × Committed)) : Slots :=
  runSchedules replicas.parse (committedOps log)

/-- The rows and the events are those of the committed calls, one after another. -/
structure Serial (w : Server) : Prop where
  rows : ∀ id ∈ replicas.ids, w.rows (slotOf id) = some (replicas.replay w.log id).row
  events : ∀ id, (replicas.replay w.log id).log = eventsOf id w.log
  /-- Each call has met the row it would meet in the sequence. -/
  before : ∀ later : Int → Int → Prop,
    (∀ e ∈ w.log, ComputesNext later replicas.parse e.2.before e.2.op.2) →
      Computes later replicas.parse (committedOps w.log)

theorem serial_start : replicas.Serial replicas.start where
  rows := fun _ hid => if_pos hid
  events := fun _ => rfl
  before := fun _ _ => trivial

variable {replicas} in
theorem Serial.commit {w : Server} (h : replicas.Serial w) {t : Nat} {result : Committed}
    (hrow : (replicas.replay w.log result.op.1).row = result.before)
    (happlied : result.op.2.apply replicas.parse result.op.1 result.before = some result.outcome)
    (hself : w.view t (slotOf result.op.1) = some result.outcome.row)
    (hothers : ∀ id, id ≠ result.op.1 → w.view t (slotOf id) = w.rows (slotOf id)) :
    replicas.Serial (w.commit t result) := by
  have hreplay : replicas.replay (w.commit t result).log =
      stepSchedules replicas.parse (replicas.replay w.log) result.op := by
    show runSchedules replicas.parse (committedOps ((t, result) :: w.log)) = _
    rw [committedOps_cons, runSchedules_concat]
    rfl
  have hstep : Slot.step replicas.parse result.op.1 (replicas.replay w.log result.op.1)
      result.op.2 = ⟨result.outcome.row,
        result.outcome.event.toList ++ (replicas.replay w.log result.op.1).log⟩ :=
    Slot.step_of_apply (by rw [hrow, happlied])
  constructor
  · intro id hid
    rw [hreplay]
    show w.view t (slotOf id) = _
    by_cases hself' : id = result.op.1
    · subst hself'
      rw [hself, stepSchedules, stepFamily_self, hstep]
    · rw [hothers id hself', h.rows id hid, stepSchedules, stepFamily_of_ne _ hself']
  · intro id
    rw [hreplay]
    show _ = eventsOf id ((t, result) :: w.log)
    rw [eventsOf_cons, ← h.events id]
    by_cases hself' : id = result.op.1
    · subst hself'
      rw [stepSchedules, stepFamily_self, hstep, if_pos rfl]
    · rw [stepSchedules, stepFamily_of_ne _ hself', if_neg (Ne.symm hself')]
      rfl
  · intro later hlater
    show Computes later replicas.parse (committedOps ((t, result) :: w.log))
    rw [committedOps_cons]
    refine (follows_concat _).mpr ⟨h.before later fun e he => ?_, ?_⟩
    · exact hlater e (List.mem_cons_of_mem _ he)
    · show ComputesNext later replicas.parse (replicas.replay w.log result.op.1).row result.op.2
      rw [hrow]
      exact hlater (t, result) List.mem_cons_self

/-- The logic applies: rows, locks and sessions fit together. -/
abbrev Sound (w : Server) : Prop :=
  World.Sound replicas.schema (fun _ => True) replicas.Applied w

theorem sound_start : replicas.Sound replicas.start := by
  apply World.Sound.start
  · intro _ _ _ _ _ _ _ _ _ _
    rfl
  · trivial
  · exact replicas.safe_transaction

variable {replicas} in
/-- **Simulation step**: a choice of the scheduler commits nothing, or one call. -/
theorem Serial.step {w : Server} (hsound : replicas.Sound w) (h : replicas.Serial w)
    (a : Action) : replicas.Serial (w.step replicas.schema a) := by
  cases hsound.effect a with
  | quiet hrows hlog hclock hseen =>
    exact ⟨by rw [hrows, hlog]; exact h.rows, by rw [hlog]; exact h.events,
      by rw [hlog]; exact h.before⟩
  | commit t result clock haction hstatus hle hpost heq =>
    rw [heq]
    have hsees : (w.localOf t clock).Sees replicas.schema (fun _ => True) w.rows :=
      hsound.consistent.sees trivial t clock
    have hview := hsound.consistent.localOf_view t clock
    have hid : result.op.1 ∈ replicas.ids :=
      hsees.inKeys (slotOf result.op.1) (by rw [hpost.held]; nofun)
    have hbase : w.rows (slotOf result.op.1) = some result.before :=
      hsees.base _ _ _ hpost.held
    refine h.commit ?_ hpost.applied ?_ fun id hne => ?_
    · exact Option.some.inj ((h.rows _ hid).symm.trans hbase)
    · rw [← hview]
      simp [Local.view, hpost.held]
    · have hfree : (w.localOf t clock).held (slotOf id) = none :=
        hpost.others _ fun heq => hne (congrArg (fun i : Ref SlotKey => i.2) heq)
      rw [← hview]
      simp [Local.view, hfree]

/-- **Simulation**: every interleaving amounts to the committed calls, one after another. -/
theorem serial_run (actions : List Action) : replicas.Serial (replicas.run actions) := by
  have hboth : replicas.Sound (replicas.run actions) ∧ replicas.Serial (replicas.run actions) := by
    refine invariant_runFrom' _ (fun w => replicas.Sound w ∧ replicas.Serial w) ?_
      ⟨replicas.sound_start, replicas.serial_start⟩ actions
    intro w a hw
    exact ⟨World.Sound.step hw.1 (fun _ _ _ _ _ _ => trivial) a, Serial.step hw.1 hw.2 a⟩
  exact hboth.2

end Replicas

/-! ## Section 4: Schedules fire at most once -/

/-- Schedules fire at most once, on Postgres and on SQLite, as long as each next run that a
committed call computes is `later` than the run it has fired. -/
def FireOnceWhen (later : Int → Int → Prop) : Prop :=
  (∀ (replicas : Replicas) (actions : List Action),
    (∀ e ∈ (replicas.run actions).log,
      ComputesNext later replicas.parse e.2.before e.2.op.2) →
        ∀ id, FiresOnce (Replicas.eventsOf id (replicas.run actions).log)) ∧
  ∀ (parse : CronParser) (ops : List ScheduleOp), Computes later parse ops →
    ∀ id, FiresOnce (runSchedules parse ops id).log

/-- A run every day at nine, but the one of the second day is moved to half a microsecond after the
first. -/
def movedClose : Calendar.CalendarSchedule :=
  { Calendar.dailyAt 9 with
    exceptions := [
      { date := some ⟨86400, 0⟩, type := .reschedule, rescheduleTo := some ⟨32400, 500⟩ }] }

/-- The schedule is created, and processed twice at nine. -/
def twiceAtNine : List ScheduleOp :=
  [("daily", .create { engine := utcEngine 0, now := 0, nowMs := 0 }
      (some (calendarRequest movedClose))),
   ("daily", calendarAt 32400000),
   ("daily", calendarAt 32400000)]

theorem computesNext_movedClose {parse : CronParser} {before : Option ScheduleRow}
    (h : (before.map fun row => (row.nextRun, row.metadata.calendarSchedule)) =
      some (some 32400000, some movedClose)) :
    ComputesNext (· < ·) parse before (calendarAt 32400000) := by
  rintro row rfl nextRun schedule created t hfires hnext
  simp only [Option.map_some, Option.some.injEq, Prod.mk.injEq] at h
  have hdue := (CalendarService.due_eq_some.mp hfires.due).2.1
  obtain rfl : (32400000 : Int) = nextRun := Option.some.inj (h.1.symm.trans hdue)
  obtain rfl : movedClose = schedule := Option.some.inj (h.2.symm.trans hfires.config)
  have hcalculated : (utcEngine (ofUnixMilli 32400000)).nextRun movedClose
      (ofUnixMilli 32400000) = .ok (ofUnixMilli 32400000 + 500) := by
    decide +kernel
  obtain rfl := Except.ok.inj (hcalculated.symm.trans hnext)
  exact Int.lt_add_of_pos_right _ (by decide)

end Nzovu.Schedules
