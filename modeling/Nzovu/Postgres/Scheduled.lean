import Nzovu.Postgres.SchedulingSpecs
import Nzovu.Repository.Claimable

/-!
# Scheduled Messages on Postgres

Posts, cancellations, claims and replicas of the scheduler run side by side. The rows a replica has
collected may be out of date when it activates them; what protects the messages is that an
INVISIBLE row never changes except by leaving INVISIBLE, and that an id is used for one row only.
So a collected row that is still INVISIBLE under its id is the row that was collected.

- Section 1: the rows after a commit.
- Section 2: the invariant.
- Section 3: runs of both backends.
-/

namespace Nzovu.Postgres

open Nzovu.Foundation
open Nzovu.Repository
open Nzovu.Background

/-! ## Section 1: The rows after a commit -/

/-- The messages and counters in the committed rows. -/
def contents (rows : Store Key Row) : Contents := ⟨fun i => rows (message i), counter rows⟩

/-- A row that was INVISIBLE when it was read, and still is, has not changed. -/
def StillSame (seen rows : Store Key Row) : Prop :=
  ∀ i (a b : MessageRow), seen (message i) = some a → a.state = .invisible →
    rows (message i) = some b → b.state = .invisible → b = a

/-- What a commit makes of message `i`. -/
inductive RowChange (setup : Setup) (drawn : List Nat) (i : Nat) :
    Option MessageRow → Option MessageRow → Prop where
  | kept (row : Option MessageRow) : RowChange setup drawn i row row
  | inserted (row : MessageRow) (hdrawn : i ∈ drawn) (hstored : Stored row)
      (hqueue : setup.metadata row.queueName ≠ none) : RowChange setup drawn i none (some row)
  /-- The new row, if there is one, is not INVISIBLE. -/
  | changed (old : MessageRow) (new : Option MessageRow)
      (hqueue : ∀ row, new = some row → row.queueName = old.queueName)
      (hvisible : ∀ row, new = some row → row.state ≠ .invisible) :
      RowChange setup drawn i (some old) new

section Commits

variable {setup : Setup} {drawn : List Nat} {L : Knowledge} {rows : Store Key Row}
  {answer : Answer}

theorem InsertsOnly.change (h : InsertsOnly setup drawn L)
    (hsees : L.Sees setup.schema setup.Inv rows) (i : Nat) :
    RowChange setup drawn i (rows (message i)) (L.view rows (message i)) := by
  rcases hheld : L.held (message i) with _ | ⟨old, new⟩
  · rw [view_of_free hheld]
    exact .kept _
  · rw [view_of_held hheld, hsees.base _ _ _ hheld]
    rcases h i old new hheld with rfl | ⟨hi, rfl, row, rfl, hstored, hqueue⟩
    · exact .kept _
    · exact .inserted row hi hstored hqueue

theorem InsertsOnly.view (h : InsertsOnly setup drawn L)
    (hsees : L.Sees setup.schema setup.Inv rows) {i : Nat} {old : MessageRow}
    (hold : rows (message i) = some old) : L.view rows (message i) = some old := by
  rcases hheld : L.held (message i) with _ | ⟨committed, own⟩
  · rw [view_of_free hheld, hold]
  · have hbase := hsees.base _ _ _ hheld
    rw [view_of_held hheld]
    rcases h i committed own hheld with rfl | ⟨-, rfl, -⟩
    · rw [← hbase, hold]
    · rw [hold] at hbase
      cases hbase

theorem Touched.change {j : Nat} {old : MessageRow} {new : Option MessageRow}
    (h : Touched L j old new) (hsees : L.Sees setup.schema setup.Inv rows)
    (hqueue : ∀ row, new = some row → row.queueName = old.queueName)
    (hvisible : ∀ row, new = some row → row.state ≠ .invisible) (i : Nat) :
    RowChange setup drawn i (rows (message i)) (L.view rows (message i)) := by
  by_cases hij : i = j
  · subst hij
    rw [h.base hsees, h.view]
    exact .changed old new hqueue hvisible
  · rw [h.view_ne hsees hij]
    exact .kept _

/-- **Row rule**. -/
theorem Concludes.change (h : Concludes setup drawn L answer)
    (hsees : L.Sees setup.schema setup.Inv rows) (i : Nat) :
    RowChange setup drawn i (rows (message i)) (L.view rows (message i)) := by
  cases h.outcome with
  | quiet _ _ hmessages => exact hmessages.change hsees i
  | claimed req j old runtime updatedAt _ _ htouched =>
    apply htouched.change hsees
    · rintro row ⟨⟩
      rfl
    · rintro row ⟨⟩
      simp [claimRow]
  | canceled j old new htouched hnew =>
    apply htouched.change hsees
    · intro row hrow
      obtain ⟨_, _, _, rfl⟩ := hnew row hrow
      rfl
    · intro row hrow
      obtain ⟨_, _, _, rfl⟩ := hnew row hrow
      simp [cancelRow]
  | activated j _ _ old _ _ _ _ _ htouched =>
    apply htouched.change hsees
    · rintro row ⟨⟩
      rfl
    · rintro row ⟨⟩
      simp [activateRow]

theorem Concludes.inv (h : Concludes setup drawn L answer)
    (hsees : L.Sees setup.schema setup.Inv rows) : setup.Inv (L.view rows) := by
  refine ⟨h.queues.metadata hsees, ?_, ?_⟩
  · intro i new hnew
    have hchange := h.change hsees i
    rw [hnew] at hchange
    generalize hold : rows (message i) = old at hchange
    cases hchange with
    | kept => exact hsees.inv.messages i new hold
    | inserted _ _ _ hqueue => exact hqueue
    | changed old _ hqueue _ =>
      rw [hqueue new rfl]
      exact hsees.inv.messages i old hold
  · intro i hi
    rcases hheld : L.held (message i) with _ | v
    · rw [view_of_free hheld] at hi
      exact hsees.inv.ids i hi
    · exact hsees.inKeys (message i) (by simp [hheld])

/-- The scheduled time stays what it was, as column and in the protobuf. -/
theorem Concludes.scheduled (h : Concludes setup drawn L answer)
    (hsees : L.Sees setup.schema setup.Inv rows)
    (hstill : ∀ s, L.seen = some s → StillSame s.rows rows) {i : Nat} {old new : MessageRow}
    (hold : rows (message i) = some old) (hnew : L.view rows (message i) = some new) :
    new.scheduledAt = old.scheduledAt ∧
      new.metadata.scheduledTime = old.metadata.scheduledTime := by
  have hkept : L.view rows (message i) = some old → new = old := by
    intro hview
    rw [hview] at hnew
    exact (Option.some.inj hnew).symm
  have htouch : ∀ {j : Nat} {o : MessageRow} {n : Option MessageRow}, Touched L j o n →
      (∀ row, n = some row → rows (message j) = some o → row.scheduledAt = o.scheduledAt ∧
        row.metadata.scheduledTime = o.metadata.scheduledTime) →
      new.scheduledAt = old.scheduledAt ∧
        new.metadata.scheduledTime = old.metadata.scheduledTime := by
    intro j o n htouched hsame
    by_cases hij : i = j
    · subst hij
      have hbase := htouched.base hsees
      rw [htouched.view] at hnew
      have ho : o = old := Option.some.inj (hbase.symm.trans hold)
      subst ho
      exact hsame new hnew hbase
    · rw [hkept ((htouched.view_ne hsees hij).trans hold)]
      exact ⟨rfl, rfl⟩
  cases h.outcome with
  | quiet _ _ hmessages =>
    rw [hkept (hmessages.view hsees hold)]
    exact ⟨rfl, rfl⟩
  | claimed _ j o _ _ _ _ htouched =>
    apply htouch htouched
    rintro row ⟨⟩ _
    exact ⟨rfl, rfl⟩
  | canceled j o n htouched hn =>
    apply htouch htouched
    intro row hrow _
    obtain ⟨_, _, _, rfl⟩ := hn row hrow
    exact ⟨rfl, rfl⟩
  | activated j s collected o _ hseen hcollected hinvisible hinv htouched =>
    apply htouch htouched
    rintro row ⟨⟩ hbase
    have hsame := hstill s hseen j collected o hcollected hinvisible hbase hinv
    rw [hsame]
    exact ⟨rfl, rfl⟩

theorem Touched.row_contents {j : Nat} {old : MessageRow} {new : Option MessageRow}
    (h : Touched L j old new) (hsees : L.Sees setup.schema setup.Inv rows) :
    (contents (L.view rows)).row = Function.update (contents rows).row j new := by
  funext i
  by_cases hij : i = j
  · subst hij
    rw [Function.update_self]
    exact h.view
  · rw [Function.update_of_ne hij]
    exact h.view_ne hsees hij

/-- **Commit rule** for scheduled messages. -/
theorem Concludes.keepsSchedule (h : Concludes setup drawn L answer)
    (hsees : L.Sees setup.schema setup.Inv rows)
    (hstored : ∀ i (row : MessageRow), rows (message i) = some row → Stored row)
    (hstill : ∀ s, L.seen = some s → StillSame s.rows rows) {nowMs : Int}
    (hnow : L.clock ≤ nowMs) :
    KeepsSchedule nowMs (contents rows) (contents (L.view rows)) answer.event := by
  cases h.outcome with
  | quiet _ hevent hmessages =>
    rw [hevent]
    exact KeepsSchedule.of_kept fun i old hold => hmessages.view hsees hold
  | claimed req i old runtime updatedAt hpending hdue htouched =>
    refine KeepsSchedule.of_change (htouched.base hsees) (htouched.row_contents hsees) ?_ ?_ ?_ ?_
    · rintro row ⟨⟩
      rfl
    · intro _
      refine ⟨by simp [hpending], _, rfl, ?_⟩
      intro t ht
      have htime : old.metadata.scheduledTime = some t := ht
      have hscheduled := (hstored i old (htouched.base hsees)).scheduledAt
      rw [htime] at hscheduled
      exact le_trans (hdue _ hscheduled) hnow
    · intro he
      cases he
    · intro he
      cases he
  | canceled i old new htouched hnew =>
    refine KeepsSchedule.of_change (htouched.base hsees) (htouched.row_contents hsees) ?_ ?_ ?_ ?_
    · intro row hrow
      obtain ⟨_, _, _, rfl⟩ := hnew row hrow
      rfl
    · intro he
      cases he
    · intro he
      cases he
    · intro _ row hrow
      obtain ⟨_, _, _, rfl⟩ := hnew row hrow
      rfl
  | activated i s collected old updatedAt hseen hcollected hinvisible hinv htouched hcounted =>
    have hbase := htouched.base hsees
    obtain rfl := hstill s hseen i collected old hcollected hinvisible hbase hinv
    have hstate := (hstored i old hbase).invisible hinv
    refine KeepsSchedule.of_change hbase (htouched.row_contents hsees) ?_ ?_ ?_ ?_
    · rintro row ⟨⟩
      rfl
    · intro he
      cases he
    · intro _
      refine ⟨⟨old, updatedAt, hbase, hinv, htouched.view, ?_⟩,
        fun j hj => htouched.view_ne hsees hj⟩
      intro q s
      have hcounter := hcounted.counter hsees q s
      rw [hstate] at hcounter
      show counter (L.view rows) q s = _
      rw [hcounter]
      show _ = counter rows q s - _ + _
      ring
    · intro he
      cases he

theorem Concludes.stored (h : Concludes setup drawn L answer)
    (hsees : L.Sees setup.schema setup.Inv rows)
    (hstored : ∀ i (row : MessageRow), rows (message i) = some row → Stored row)
    (hstill : ∀ s, L.seen = some s → StillSame s.rows rows) {i : Nat} {new : MessageRow}
    (hnew : L.view rows (message i) = some new) : Stored new := by
  have hchange := h.change hsees i
  rw [hnew] at hchange
  generalize hold : rows (message i) = old at hchange
  cases hchange with
  | kept => exact hstored i new hold
  | inserted _ _ hrow _ => exact hrow
  | changed old _ _ hvisible =>
    obtain ⟨hscheduledAt, htime⟩ := h.scheduled hsees hstill hold hnew
    refine ⟨?_, fun hinvisible => absurd hinvisible (hvisible new rfl)⟩
    rw [hscheduledAt, htime]
    exact (hstored i old hold).scheduledAt

/-- An INVISIBLE row after a commit was there before, or was inserted under a fresh id. -/
theorem Concludes.inserted (h : Concludes setup drawn L answer)
    (hsees : L.Sees setup.schema setup.Inv rows) {i : Nat} {new : MessageRow}
    (hnew : L.view rows (message i) = some new) (hinvisible : new.state = .invisible) :
    rows (message i) = some new ∨ i ∈ drawn ∧ rows (message i) = none := by
  have hchange := h.change hsees i
  rw [hnew] at hchange
  generalize hold : rows (message i) = old at hchange
  cases hchange with
  | kept => exact .inl rfl
  | inserted _ hdrawn _ _ => exact .inr ⟨hdrawn, rfl⟩
  | changed old _ _ hvisible => exact absurd hinvisible (hvisible new rfl)

end Commits

/-! ## Section 2: The invariant -/

/-- The database server with the sessions of a `Scheduling`. -/
abbrev ScheduleServer := World Key Row StorageError Answer

namespace Scheduling

/-- The events of the committed sessions, latest first. -/
def events (w : ScheduleServer) : List (Nat × MessageEvent) := w.log.filterMap fun e => e.2.event

variable (s : Scheduling)

/-- No session that is still running will insert a row with this id. -/
def Used (w : ScheduleServer) (i : Nat) : Prop := ∀ t, s.drawnBy i = some t → ¬ w.Running t

/-- What holds at any time. -/
structure Kept (w : ScheduleServer) : Prop where
  stored : ∀ i (row : MessageRow), w.rows (message i) = some row → Stored row
  still : ∀ t seen, (w.session t).seen = some seen → StillSame seen.rows w.rows
  /-- An id that is not used has no row, and has had none. -/
  unused : ∀ i, ¬ s.Used w i → w.rows (message i) = none ∧
    ∀ t seen, (w.session t).seen = some seen → seen.rows (message i) = none
  settled : Settled (s.Used w) (events w) (contents w.rows)
  once : ActivatedOnce (events w)

/-- The logic applies to the sessions. -/
abbrev Sound (w : ScheduleServer) : Prop := World.Sound s.schema s.Inv s.post w

variable {s} {w : ScheduleServer}

theorem sound_start : s.Sound s.start := by
  apply World.Sound.startHolding s.unique s.inv_rows
  · rintro ⟨T, x⟩ t howner
    cases T with
    | messages => exact (s.fresh x t howner).1
    | queues => cases howner
  · exact s.safe_program

theorem Sound.step (h : s.Sound w) (a : Action) : s.Sound (w.step s.schema a) :=
  World.Sound.step h (fun _ _ _ _ hsees hpost => Concludes.inv hpost hsees) a

theorem Used.step {i : Nat} (h : s.Used w i) (a : Action) : s.Used (w.step s.schema a) i :=
  fun t hdrawn hrunning => h t hdrawn hrunning.of_step

/-- An action of the scheduler, with the event it commits. -/
structure Steps (s : Scheduling) (w w' : ScheduleServer) (event : Option (Nat × MessageEvent)) :
    Prop where
  events : events w' = event.toList ++ events w
  keeps : KeepsSchedule w.clock (contents w.rows) (contents w'.rows) event
  inserts : InsertsInvisible (s.Used w) (s.Used w') (contents w.rows) (contents w'.rows)

/-- An INVISIBLE row comes from before the step, or from a session that has now ended. -/
theorem Kept.insertsInvisible (h : s.Kept w) (a : Action)
    (hinserted : ∀ i (new : MessageRow), (w.step s.schema a).rows (message i) = some new →
      new.state = .invisible → w.rows (message i) = some new ∨ ¬ s.Used w i) :
    InsertsInvisible (s.Used w) (s.Used (w.step s.schema a)) (contents w.rows)
      (contents (w.step s.schema a).rows) where
  final := fun _ hused => hused.step a
  present := fun i row hrow => by
    by_contra hunused
    have hnone := (h.unused i hunused).1
    rw [show w.rows (message i) = some row from hrow] at hnone
    cases hnone
  inserted := hinserted

/-- **Step lemma** for the claim. -/
theorem Kept.steps (h : s.Kept w) (hsound : s.Sound w) (a : Action) :
    ∃ event, s.Steps w (w.step s.schema a) event := by
  rcases hsound.effect a with ⟨hrows, hlog, -, -⟩ | ⟨t, answer, clock, -, hstatus, hle, hpost, hw⟩
  · refine ⟨none, by rw [events, events, hlog]; rfl, ?_, h.insertsInvisible a ?_⟩
    · rw [hrows]
      exact KeepsSchedule.of_kept fun _ _ hold => hold
    · intro i new hnew _
      rw [hrows] at hnew
      exact .inl hnew
  · have hsees := hsound.consistent.sees hsound.inv t clock
    have hrows : (w.step s.schema a).rows = (w.localOf t clock).view w.rows := by
      rw [hw, hsound.consistent.localOf_view t clock]
      rfl
    have hpost' : Concludes s.toSetup (s.drawnIn t) (w.localOf t clock) answer := hpost
    refine ⟨answer.event, ?_, ?_, h.insertsInvisible a ?_⟩
    · rw [hw]
      show List.filterMap _ ((t, answer) :: w.log) = _
      rw [List.filterMap_cons]
      cases answer.event <;> rfl
    · rw [hrows]
      exact hpost'.keepsSchedule hsees h.stored (h.still t) hle
    · intro i new hnew hinvisible
      rw [hrows] at hnew
      rcases hpost'.inserted hsees hnew hinvisible with hold | ⟨hdrawn, -⟩
      · exact .inl hold
      · exact .inr fun hused => hused t (mem_drawnIn.mp hdrawn) ⟨_, hstatus⟩

/-- **Step lemma** for the invariant. -/
theorem Kept.step (h : s.Kept w) (hsound : s.Sound w) (a : Action) :
    s.Kept (w.step s.schema a) := by
  obtain ⟨event, hevents, hkeeps, hinserts⟩ := h.steps hsound a
  have hunused : ∀ i, ¬ s.Used (w.step s.schema a) i → ¬ s.Used w i :=
    fun i hnot hused => hnot (hused.step a)
  have hsettled : Settled (s.Used (w.step s.schema a)) (events (w.step s.schema a))
      (contents (w.step s.schema a).rows) := by
    rw [hevents]
    exact h.settled.step hkeeps hinserts
  have honce : ActivatedOnce (events (w.step s.schema a)) := by
    rw [hevents]
    exact h.once.step h.settled hkeeps
  rcases hsound.effect a with ⟨hrows, -, -, hseen⟩ | ⟨t, answer, clock, -, hstatus, hle, hpost, hw⟩
  · refine ⟨by rw [hrows]; exact h.stored, ?_, ?_, hsettled, honce⟩
    · intro t seen hs
      rw [hrows]
      rcases hseen t seen hs with hs | rfl
      · exact h.still t seen hs
      · -- What was read just now is what is committed.
        intro i old new hold _ hnew _
        exact Option.some.inj (hnew.symm.trans hold)
    · intro i hi
      obtain ⟨hnone, hnever⟩ := h.unused i (hunused i hi)
      rw [hrows]
      refine ⟨hnone, ?_⟩
      intro t seen hs
      rcases hseen t seen hs with hs | rfl
      · exact hnever t seen hs
      · exact hnone
  · have hsees := hsound.consistent.sees hsound.inv t clock
    have hrows : (w.step s.schema a).rows = (w.localOf t clock).view w.rows := by
      rw [hw, hsound.consistent.localOf_view t clock]
      rfl
    have hpost' : Concludes s.toSetup (s.drawnIn t) (w.localOf t clock) answer := hpost
    -- The session that commits forgets what it has read.
    have hsession : ∀ t' seen, ((w.step s.schema a).session t').seen = some seen →
        (w.session t').seen = some seen := by
      intro t' seen hs
      rw [hw] at hs
      by_cases ht : t' = t
      · subst ht
        simp [World.commit, World.release] at hs
      · simpa [World.commit, World.release, ht] using hs
    refine ⟨?_, ?_, ?_, hsettled, honce⟩
    · intro i row hrow
      rw [hrows] at hrow
      exact hpost'.stored hsees h.stored (h.still t) hrow
    · intro t' seen hs i old new hold hinvisible hnew hstate
      have hseen := hsession t' seen hs
      rcases hinserts.inserted i new hnew hstate with hbefore | hfree
      · exact h.still t' seen hseen i old new hold hinvisible hbefore hstate
      · -- A row that was seen has no fresh id.
        rw [(h.unused i hfree).2 t' seen hseen] at hold
        cases hold
    · intro i hi
      obtain ⟨hnone, hnever⟩ := h.unused i (hunused i hi)
      refine ⟨?_, fun t' seen hs => hnever t' seen (hsession t' seen hs)⟩
      -- Only its own session inserts the row, and that has not ended.
      rw [hrows]
      have hchange := hpost'.change hsees i
      rw [hnone] at hchange
      generalize hnew : (w.localOf t clock).view w.rows (message i) = new at hchange
      cases hchange with
      | kept => rfl
      | inserted row hdrawn _ _ =>
        exfalso
        apply hi
        intro t' hdrawn' hrunning
        rw [mem_drawnIn.mp hdrawn] at hdrawn'
        cases hdrawn'
        obtain ⟨p, hp⟩ := hrunning
        rw [hw] at hp
        simp [World.commit, World.release] at hp

theorem kept_start : s.Kept s.start := by
  refine ⟨s.stored, ?_, ?_, ?_, activatedOnce_nil⟩
  · intro t seen hs
    cases hs
  · intro i hi
    have hdrawn : ∃ t, s.drawnBy i = some t := by
      by_contra hnone
      push Not at hnone
      exact hi fun t ht => absurd ht (hnone t)
    obtain ⟨t, ht⟩ := hdrawn
    refine ⟨(s.fresh i t ht).2, ?_⟩
    intro t seen hs
    cases hs
  · intro i hi
    rcases hi with hi | hi <;> cases hi

/-- **Run lemma**. -/
theorem sound_run (s : Scheduling) (actions : List Action) :
    s.Sound (s.run actions) ∧ s.Kept (s.run actions) := by
  apply invariant_runFrom' (World.step s.schema) (fun w => s.Sound w ∧ s.Kept w)
  · intro w a h
    exact ⟨Sound.step h.1 a, h.2.step h.1 a⟩
  · exact ⟨sound_start, kept_start⟩

end Scheduling

/-! ## Section 3: Both backends -/

/-- **Scheduled messages are never early, lost or activated twice.** A post makes a message
INVISIBLE when its scheduled time is in the future. From then on every step of every run of posts,
cancellations, claims and activations keeps the schedule, and the log has no second activation: on
Postgres with all statements interleaved, on SQLite with one transaction after the other. -/
theorem scheduled_activatedOnce :
    (∀ (Content : Type) (env : PostEnvironment Content) (db db' : Database) (now : Int)
      (clock : Readings) (queueName : String) (posted : Option (PostedMessage Content)),
      createQueueMessage env db now clock queueName posted = .ok db' →
        ∃ row, RowInserted db db' row ∧
          (row.state = .invisible ↔ ∃ t, row.metadata.scheduledTime = some t ∧ now < t)) ∧
    (∀ (s : Scheduling) (actions : List Action),
      ActivatedOnce (Scheduling.events (s.run actions)) ∧
        ∀ a, ∃ event,
          Scheduling.events ((s.run actions).step s.schema a) =
            event.toList ++ Scheduling.events (s.run actions) ∧
          KeepsSchedule (s.run actions).clock (contents (s.run actions).rows)
            (contents ((s.run actions).step s.schema a).rows) event) ∧
    ∀ earlier ops : List Operation, (∀ op ∈ ops, op.isScheduling = true) →
      ActivatedOnce (Timeline.run earlier ops).log ∧
        ∀ op nowMs, op.isScheduling = true → (∀ t ∈ op.readings, t ≤ nowMs) →
          KeepsSchedule nowMs (Timeline.run earlier ops).system.db.contents
            ((Timeline.run earlier ops).system.step op).db.contents
            ((Timeline.run earlier ops).system.messageEvent op) := by
  refine ⟨?_, ?_, ?_⟩
  · intro Content env db db' now clock queueName posted h
    obtain ⟨_, row, hinserted, hrow⟩ := createQueueMessage_ok h
    exact ⟨row, hinserted, hrow.invisible_iff⟩
  · intro s actions
    obtain ⟨hsound, hkept⟩ := s.sound_run actions
    refine ⟨hkept.once, fun a => ?_⟩
    obtain ⟨event, hevents, hkeeps, -⟩ := hkept.steps hsound a
    exact ⟨event, hevents, hkeeps⟩
  · intro earlier ops hops
    have hsound := Timeline.sound_run earlier ops hops
    refine ⟨hsound.once, fun op nowMs hop hnow => ?_⟩
    exact (stepsSchedule hsound.wellFormed hsound.stored hop hnow).1

/-- A message for 5 ms. -/
def scheduledJob : Message where
  messageId := "m"
  metadata := some
    ⟨.invisible, 3, 3, 0, some 5000000, some ⟨some ⟨1, 0⟩, some ⟨60, 0⟩, none, some ⟨1, 0⟩, 0⟩⟩

/-- A claim on the queue "jobs". -/
def jobClaim : ClaimRequest := ⟨"jobs", "w", "a", "", 0, 0, "g", "", generatedAttemptId_ne⟩

/-- Session 0 posts the message, sessions 1 and 2 are replicas of the scheduler, all others
claim. -/
def twoReplicas : Scheduling where
  ids := [1]
  names := ["jobs"]
  ids_nodup := by decide
  names_nodup := by decide
  rows := storeOf [] [("jobs", ⟨"jobs", {}, none, ⟨[]⟩⟩)]
  ids_complete := fun _ hi => absurd rfl hi
  names_complete := by
    intro q hq
    by_contra hnot
    apply hq
    have hne : ("jobs" : String) ≠ q := fun h => hnot (h ▸ List.mem_singleton_self _)
    simp [storeOf, hne]
  unique := by
    intro T x _ y _ _ a b ha
    cases T with
    | messages => cases ha
    | queues => intro _; rfl
  foreignKey := fun _ _ hrow => by cases hrow
  clock := 0
  call := fun _ => .claim jobClaim
  request := fun t =>
    if t = 0 then some (.enqueue 1 "jobs" scheduledJob)
    else if t = 1 ∨ t = 2 then some (.activate 10 0) else none
  claims := fun _ _ => ⟨jobClaim, rfl⟩
  drawnBy := fun i => if i = 1 then some 0 else none
  drawn := by
    intro i t
    by_cases ht : t = 0
    · subst ht
      simp [Request.ids]
    · by_cases hreplica : t = 1 ∨ t = 2
      · simp [ht, hreplica, Request.ids, Ne.symm ht]
      · simp [ht, hreplica, Ne.symm ht]
  drawn_nodup := by
    intro t r hr
    split at hr
    · cases hr
      simp [Request.ids]
    · split at hr
      · cases hr
        exact List.nodup_nil
      · cases hr
  fresh := by
    intro i t hi
    split at hi
    · rename_i h
      subst h
      exact ⟨List.mem_singleton_self _, rfl⟩
    · cases hi
  stored := fun _ _ hrow => by cases hrow

/-- Both replicas collect the message at 5 ms, both go on to activate it. -/
def twoCollections : List Action :=
  List.replicate 10 (.run 0) ++ .tick 5 :: List.replicate 2 (.run 1) ++
    List.replicate 2 (.run 2) ++ List.replicate 20 (.run 1) ++ List.replicate 20 (.run 2) ++
    List.replicate 30 (.run 3)

/-- On SQLite, a candidate that was collected twice. -/
def collectedTwice : List Operation :=
  let candidate : ScheduledMessage :=
    ⟨1, "jobs", "m", scheduledJob.metadata.getD ⟨.invisible, 0, 0, 0, none, none⟩, 5⟩
  [.enqueue (fun _ => 0) "jobs" scheduledJob, .collectScheduled 5 10, .collectScheduled 5 10,
    .activate (fun _ => 5) candidate, .activate (fun _ => 5) candidate]

theorem activatedOnce_twoReplicas :
    Scheduling.events (twoReplicas.run twoCollections) = [(1, .claimed), (1, .activated)] ∧
      ActivatedOnce (Scheduling.events (twoReplicas.run twoCollections)) ∧
      (Timeline.run [.createQueue "jobs" {}] collectedTwice).log = [(1, .activated)] ∧
      KeepsSchedule 6 (Timeline.run [.createQueue "jobs" {}] collectedTwice).system.db.contents
        ((Timeline.run [.createQueue "jobs" {}] collectedTwice).system.step
          (.claim (fun _ => 6) jobClaim)).db.contents
        (some (1, .claimed)) := by
  have hclaimed : (Timeline.run [.createQueue "jobs" {}] collectedTwice).system.messageEvent
      (.claim (fun _ => 6) jobClaim) = some (1, .claimed) := by decide +kernel
  obtain ⟨-, hpostgres, hsqlite⟩ := scheduled_activatedOnce
  refine ⟨by decide +kernel, (hpostgres twoReplicas twoCollections).1, by decide +kernel, ?_⟩
  rw [← hclaimed]
  exact (hsqlite _ _ (by decide)).2 _ 6 rfl (by decide)

end Nzovu.Postgres
