import Mathlib.Data.Finset.Dedup
import Mathlib.Data.Finset.Order
import Nzovu.Repository.System

/-!
# Scheduled Messages

What a backend owes to messages with a scheduled time: no claim returns them early, they are
activated once, and an activation moves one unit of a counter and leaves the message alone.
`KeepsSchedule` says it of one step and `ActivatedOnce` of the log of a run, for any backend that
shows its message rows and counters. The scheduler activates messages by row id from memory, so the
argument rests on ids: a row that has left INVISIBLE never returns, and its id is not used again.

- Section 1: steps and logs.
- Section 2: settled messages.
- Section 3: the tables of the SQLite backend.
- Section 4: its operations.
- Section 5: its runs.
-/

namespace Nzovu.Repository

open Nzovu.Foundation
open Nzovu.Background

/-! ## Section 1: Steps and logs -/

/-- What happens to a scheduled message. -/
inductive MessageEvent where
  | claimed
  | canceled
  | activated
deriving DecidableEq, Repr

/-- The message rows by id, and the counters of the queues. -/
structure Contents where
  row : Nat → Option MessageRow
  counter : String → MessageState → Int

/-- Message `i` goes from INVISIBLE to PENDING, with one unit of the counters of its queue. Of its
row only the copy of the state in the protobuf and `updated_at` follow. -/
structure Activation (before after : Contents) (i : Nat) : Prop where
  message : ∃ (old : MessageRow) (updatedAt : Int), before.row i = some old ∧
    old.state = .invisible ∧
    after.row i = some { old with
      state := .pending
      metadata := { old.metadata with state := .pending }
      updatedAt := updatedAt } ∧
    ∀ q s, after.counter q s =
      before.counter q s - hits old.queueName .invisible q s + hits old.queueName .pending q s
  others : ∀ j, j ≠ i → after.row j = before.row j

/-- One step that ends when the clock shows `nowMs`, with its event. -/
structure KeepsSchedule (nowMs : Int) (before after : Contents)
    (event : Option (Nat × MessageEvent)) : Prop where
  /-- A claimed message is due. -/
  due : ∀ i, event = some (i, .claimed) → ∃ row, after.row i = some row ∧
    ∀ t, row.metadata.scheduledTime = some t → unixMilli t ≤ nowMs
  activated : ∀ i, event = some (i, .activated) → Activation before after i
  canceled : ∀ i, event = some (i, .canceled) → (∃ old, before.row i = some old) ∧
    ∀ new, after.row i = some new → new.state = .canceled
  /-- An INVISIBLE message stays as it is until it is activated or canceled. -/
  kept : ∀ i old, before.row i = some old → old.state = .invisible →
    after.row i = some old ∨ event = some (i, .activated) ∨ event = some (i, .canceled)
  /-- The scheduled time of a message is final. -/
  scheduled : ∀ i old new, before.row i = some old → after.row i = some new →
    new.metadata.scheduledTime = old.metadata.scheduledTime

/-- The log, latest event first: no message is activated twice, or after it was canceled. -/
structure ActivatedOnce (log : List (Nat × MessageEvent)) : Prop where
  once : ∀ i, log.count (i, .activated) ≤ 1
  uncanceled : ∀ later earlier i, log = later ++ (i, .canceled) :: earlier →
    (i, .activated) ∉ later

/-- A step that changes no message that was there. -/
theorem KeepsSchedule.of_kept {nowMs : Int} {before after : Contents}
    (h : ∀ i old, before.row i = some old → after.row i = some old) :
    KeepsSchedule nowMs before after none where
  due := fun _ he => by cases he
  activated := fun _ he => by cases he
  canceled := fun _ he => by cases he
  kept := fun i old hold _ => .inl (h i old hold)
  scheduled := fun i old new hold hnew => by
    rw [h i old hold] at hnew
    cases hnew
    rfl

/-- A step that changes message `i` only, with an event for it. -/
theorem KeepsSchedule.of_change {nowMs : Int} {before after : Contents} {i : Nat}
    {old : MessageRow} {new : Option MessageRow} {e : MessageEvent} (hold : before.row i = some old)
    (hrow : after.row = Function.update before.row i new)
    (htime : ∀ row, new = some row → row.metadata.scheduledTime = old.metadata.scheduledTime)
    (hclaimed : e = .claimed → old.state ≠ .invisible ∧ ∃ row, new = some row ∧
      ∀ t, row.metadata.scheduledTime = some t → unixMilli t ≤ nowMs)
    (hactivated : e = .activated → Activation before after i)
    (hcanceled : e = .canceled → ∀ row, new = some row → row.state = .canceled) :
    KeepsSchedule nowMs before after (some (i, e)) := by
  have hself : after.row i = new := by rw [hrow, Function.update_self]
  have hother : ∀ j, j ≠ i → after.row j = before.row j := by
    intro j hj
    rw [hrow, Function.update_of_ne hj]
  refine ⟨?_, ?_, ?_, ?_, ?_⟩
  · rintro j he
    cases he
    obtain ⟨-, row, hnew, hdue⟩ := hclaimed rfl
    exact ⟨row, hself.trans hnew, hdue⟩
  · intro j he
    cases he
    exact hactivated rfl
  · intro j he
    cases he
    exact ⟨⟨old, hold⟩, fun row hnew => hcanceled rfl row (hself.symm.trans hnew)⟩
  · intro j row hrow' hinvisible
    by_cases hj : j = i
    · subst hj
      rw [hold] at hrow'
      cases hrow'
      cases e with
      -- A claimed message was PENDING, and the other two events leave INVISIBLE.
      | claimed => exact absurd hinvisible (hclaimed rfl).1
      | canceled => exact .inr (.inr rfl)
      | activated => exact .inr (.inl rfl)
    · exact .inl ((hother j hj).trans hrow')
  · intro j row row' hrow' hnew
    by_cases hj : j = i
    · subst hj
      rw [hold] at hrow'
      cases hrow'
      exact htime row' (hself.symm.trans hnew)
    · rw [hother j hj, hrow'] at hnew
      cases hnew
      rfl

theorem activatedOnce_nil : ActivatedOnce [] := by
  refine ⟨fun i => by simp, ?_⟩
  intro later earlier i h
  simp at h

/-- The log grows by an event: an activation needs a message that is in it neither as activated nor
as canceled. -/
theorem ActivatedOnce.cons {log : List (Nat × MessageEvent)} (h : ActivatedOnce log)
    {e : Nat × MessageEvent}
    (hfresh : e.2 = .activated → (e.1, .activated) ∉ log ∧ (e.1, .canceled) ∉ log) :
    ActivatedOnce (e :: log) := by
  obtain ⟨j, e⟩ := e
  constructor
  · intro i
    rw [List.count_cons]
    split
    · rename_i hsame
      obtain ⟨rfl, rfl⟩ : j = i ∧ e = .activated := by simpa using hsame
      rw [List.count_eq_zero_of_not_mem (hfresh rfl).1]
    · exact h.once i
  · intro later earlier i hlog
    -- The canceled entry is the new one, or it is further down.
    cases later with
    | nil => exact List.not_mem_nil
    | cons d later =>
      obtain ⟨hhead, htail⟩ := List.cons.inj hlog
      intro hmem
      rcases List.mem_cons.mp hmem with heq | hmem
      · rw [← hhead] at heq
        obtain ⟨rfl, rfl⟩ := Prod.mk.inj heq
        apply (hfresh rfl).2
        simp [htail]
      · exact h.uncanceled later earlier i htail hmem

/-! ## Section 2: Settled messages -/

/-- A message that was activated or canceled has left INVISIBLE, and its id is used up. -/
def Settled (used : Nat → Prop) (log : List (Nat × MessageEvent)) (contents : Contents) : Prop :=
  ∀ i, (i, .activated) ∈ log ∨ (i, .canceled) ∈ log →
    used i ∧ ∀ row, contents.row i = some row → row.state ≠ .invisible

/-- A message becomes INVISIBLE only when its row is inserted, and ids are used once. -/
structure InsertsInvisible (used used' : Nat → Prop) (before after : Contents) : Prop where
  final : ∀ i, used i → used' i
  present : ∀ i row, before.row i = some row → used i
  inserted : ∀ i new, after.row i = some new → new.state = .invisible →
    before.row i = some new ∨ ¬ used i

section Lifecycle

variable {used used' : Nat → Prop} {before after : Contents} {event : Option (Nat × MessageEvent)}
  {log : List (Nat × MessageEvent)} {nowMs : Int}

theorem Settled.step (h : Settled used log before) (hstep : KeepsSchedule nowMs before after event)
    (hinserts : InsertsInvisible used used' before after) :
    Settled used' (event.toList ++ log) after := by
  have hvisible : ∀ i, used i → (∀ row, before.row i = some row → row.state ≠ .invisible) →
      ∀ row, after.row i = some row → row.state ≠ .invisible := by
    intro i hi hbefore row hrow hstate
    rcases hinserts.inserted i row hrow hstate with hold | hfree
    · exact hbefore row hold hstate
    · exact hfree hi
  intro i hi
  by_cases hlog : (i, .activated) ∈ log ∨ (i, .canceled) ∈ log
  · obtain ⟨hused, hleft⟩ := h i hlog
    exact ⟨hinserts.final i hused, hvisible i hused hleft⟩
  · -- The event is the last step's.
    have hevent : event = some (i, .activated) ∨ event = some (i, .canceled) := by
      simp only [List.mem_append, Option.mem_toList] at hi
      rcases hi with (hi | hi) | (hi | hi)
      · exact .inl hi
      · exact absurd (.inl hi) hlog
      · exact .inr hi
      · exact absurd (.inr hi) hlog
    rcases hevent with hevent | hevent
    · obtain ⟨old, updatedAt, hold, -, hnew, -⟩ := (hstep.activated i hevent).message
      refine ⟨hinserts.final i (hinserts.present i old hold), ?_⟩
      intro row hrow hstate
      rw [hnew] at hrow
      cases hrow
      cases hstate
    · obtain ⟨⟨old, hold⟩, hcanceled⟩ := hstep.canceled i hevent
      refine ⟨hinserts.final i (hinserts.present i old hold), ?_⟩
      intro row hrow hstate
      rw [hcanceled row hrow] at hstate
      cases hstate

/-- **Step lemma** for the log. -/
theorem ActivatedOnce.step (h : ActivatedOnce log) (hsettled : Settled used log before)
    (hstep : KeepsSchedule nowMs before after event) : ActivatedOnce (event.toList ++ log) := by
  cases event with
  | none => exact h
  | some e =>
    refine h.cons fun hactivated => ?_
    obtain ⟨i, e⟩ := e
    -- An activation starts from an INVISIBLE row, which no settled message has.
    obtain rfl : e = .activated := hactivated
    obtain ⟨old, -, hold, hinvisible, -⟩ := (hstep.activated i rfl).message
    constructor
    · intro hmem
      exact (hsettled i (.inl hmem)).2 old hold hinvisible
    · intro hmem
      exact (hsettled i (.inr hmem)).2 old hold hinvisible

end Lifecycle

/-! ## Section 3: The tables of the SQLite backend -/

/-- The messages and counters of a database. -/
def Database.contents (db : Database) : Contents where
  row := fun i => (db.messages.find? fun e => e.1 = i).map Prod.snd
  counter := db.counter

theorem row_contents {db : Database} {i : Nat} {row : MessageRow} :
    db.contents.row i = some row ↔ (i, row) ∈ db.messages.rows := by
  constructor
  · intro h
    obtain ⟨e, hfind, rfl⟩ := Option.map_eq_some_iff.mp h
    obtain ⟨hmem, hi⟩ := find?_eq_some hfind
    obtain rfl : e.1 = i := by simpa using hi
    exact hmem
  · intro h
    have hsel : Table.Selects db.messages.rows (fun e => e.1 = i) (i, row) :=
      Table.selects_of_id h (by simp) fun e he => by simpa using he
    show (db.messages.find? fun e => e.1 = i).map Prod.snd = some row
    rw [Table.find?_of_selects hsel]
    rfl

section Tables

variable {db db' : Database} {i : Nat} {old new : MessageRow}

theorem RowUpdated.row_contents (h : RowUpdated db db' i old new) :
    db'.contents.row = Function.update db.contents.row i (some new) := by
  funext j
  ext row
  rw [Repository.row_contents, h.rows, Table.mem_setRow]
  by_cases hj : j = i
  · subst hj
    simp only [ne_eq, not_true_eq_false, and_false, Prod.mk.injEq, true_and, false_or,
      Function.update_self, Option.some.injEq]
    exact ⟨fun hnew => hnew.1.symm, fun hnew => ⟨hnew.symm, (j, old), h.mem, rfl⟩⟩
  · rw [Function.update_of_ne hj, Repository.row_contents]
    simp [hj]

theorem RowDeleted.row_contents (h : RowDeleted db db' i old) :
    db'.contents.row = Function.update db.contents.row i none := by
  funext j
  ext row
  rw [Repository.row_contents, h.rows, Table.mem_dropRow]
  by_cases hj : j = i
  · subst hj
    simp
  · rw [Function.update_of_ne hj, Repository.row_contents]
    simp [hj]

/-- Messages were posted: the others are as before, and `scheduled_at` is the scheduled time in
milliseconds. -/
structure Posted (db db' : Database) : Prop where
  kept : ∀ e ∈ db.messages.rows, e ∈ db'.messages.rows
  fresh : ∀ e ∈ db'.messages.rows, e ∈ db.messages.rows ∨ db.messages.nextId ≤ e.1 ∧
    e.2.scheduledAt = e.2.metadata.scheduledTime.map unixMilli
  nextId_le : db.messages.nextId ≤ db'.messages.nextId

theorem Posted.refl (db : Database) : Posted db db :=
  ⟨fun _ he => he, fun _ he => .inl he, Nat.le_refl _⟩

theorem Posted.trans {db'' : Database} (h : Posted db db') (h' : Posted db' db'') :
    Posted db db'' := by
  refine ⟨fun e he => h'.kept e (h.kept e he), ?_, Nat.le_trans h.nextId_le h'.nextId_le⟩
  intro e he
  rcases h'.fresh e he with he | ⟨hid, hscheduled⟩
  · exact h.fresh e he
  · exact .inr ⟨Nat.le_trans h.nextId_le hid, hscheduled⟩

theorem RowInserted.posted {row : MessageRow} (h : RowInserted db db' row)
    (hscheduled : row.scheduledAt = row.metadata.scheduledTime.map unixMilli) : Posted db db' := by
  refine ⟨?_, ?_, ?_⟩
  · intro e he
    rw [h.rows]
    exact List.mem_append_left _ he
  · intro e he
    rw [h.rows] at he
    rcases List.mem_append.mp he with he | he
    · exact .inl he
    · obtain rfl := List.mem_singleton.mp he
      exact .inr ⟨Nat.le_refl _, hscheduled⟩
  · rw [h.nextId]
    exact Nat.le_succ _

theorem posted_enqueueMessageInTx {clock : Readings} {queueName : String} {message : Message}
    (h : enqueueMessageInTx db clock queueName message = .ok db') : Posted db db' := by
  obtain ⟨metadata, -, hinserted⟩ := enqueueMessageInTx_effect h
  exact hinserted.posted rfl

theorem posted_enqueueAll {clock : Readings} {queueName : String} {messages : List Message}
    {k : Nat} (h : enqueueAll clock queueName db k messages = .ok db') : Posted db db' := by
  induction messages generalizing db k with
  | nil =>
    cases h
    exact .refl _
  | cons message rest ih =>
    simp only [enqueueAll] at h
    split at h
    · cases h
    · rename_i db₁ hone
      exact (posted_enqueueMessageInTx hone).trans (ih h)

theorem posted_enqueueEach (clock : Readings) (queueName : String) (messages : List Message)
    (db : Database) (k : Nat) : Posted db (enqueueEach clock queueName db k messages).1 := by
  induction messages generalizing db k with
  | nil => exact .refl db
  | cons message rest ih =>
    simp only [enqueueEach]
    split
    · exact ih db (k + 1)
    · rename_i db₁ hone
      exact (posted_enqueueMessageInTx hone).trans (ih db₁ (k + 1))

theorem posted_enqueueMessagesBulk (clock : Readings) (queueName : String)
    (messages : List Message) (mode : TransactionMode) (db : Database) :
    Posted db (enqueueMessagesBulk db clock queueName messages mode).1 := by
  cases mode with
  | allOrNothing =>
    simp only [enqueueMessagesBulk]
    split
    · rename_i db' hall
      exact posted_enqueueAll hall
    · exact .refl db
  | bestEffort => exact posted_enqueueEach clock queueName messages db 0

theorem Posted.keepsSchedule (h : Posted db db') (nowMs : Int) :
    KeepsSchedule nowMs db.contents db'.contents none := by
  apply KeepsSchedule.of_kept
  intro i old hold
  rw [Repository.row_contents] at hold ⊢
  exact h.kept _ hold

theorem Posted.insertsInvisible (h : Posted db db') :
    InsertsInvisible (· < db.messages.nextId) (· < db'.messages.nextId) db.contents
      db'.contents where
  final := fun _ hi => Nat.lt_of_lt_of_le hi h.nextId_le
  present := fun i row hrow => db.messages.id_lt _ (Repository.row_contents.mp hrow)
  inserted := fun i new hnew _ => by
    rcases h.fresh _ (Repository.row_contents.mp hnew) with hold | ⟨hid, -⟩
    · exact .inl (Repository.row_contents.mpr hold)
    · exact .inr (Nat.not_lt.mpr hid)

end Tables

/-- `scheduled_at` of every message is its scheduled time in milliseconds. -/
def ScheduledStored (db : Database) : Prop :=
  ∀ e ∈ db.messages.rows, e.2.scheduledAt = e.2.metadata.scheduledTime.map unixMilli

theorem RowTransition.scheduled {old new : MessageRow} {event : Option RowEvent}
    (h : RowTransition old event new) : new.scheduledAt = old.scheduledAt ∧
      new.metadata.scheduledTime = old.metadata.scheduledTime := by
  cases h <;> exact ⟨rfl, rfl⟩

theorem ScheduledStored.posted {db db' : Database} (hstored : ScheduledStored db)
    (h : Posted db db') : ScheduledStored db' := by
  intro e he
  rcases h.fresh e he with he | ⟨-, hscheduled⟩
  · exact hstored e he
  · exact hscheduled

theorem ScheduledStored.change {adds : Additions} {db db' : Database}
    {event : Option (Nat × RowEvent)} (hstored : ScheduledStored db)
    (hadds : ∀ metadata, ¬ adds.message metadata) (h : Change adds db db' event) :
    ScheduledStored db' := by
  rintro ⟨i, row⟩ he
  cases h.origin he with
  | kept hold => exact hstored _ hold
  | inserted _ _ metadata _ _ _ _ hnew => exact absurd hnew (hadds metadata)
  | changed old _ hold ht =>
    obtain ⟨hscheduledAt, htime⟩ := ht.scheduled
    rw [hscheduledAt, htime]
    exact hstored _ hold

/-! ## Section 4: The operations of the SQLite backend -/

section Operations

variable {s : System}

theorem ScheduledStored.commit {ε : Type} {r : Except ε Database} (hstored : ScheduledStored s.db)
    (h : ∀ db', r = .ok db' → Posted s.db db') : ScheduledStored (s.commit r).db := by
  cases r with
  | ok db' => exact hstored.posted (h db' rfl)
  | error _ => exact hstored

theorem ScheduledStored.step (hwf : WellFormed s) (hstored : ScheduledStored s.db)
    (op : Operation) : ScheduledStored (s.step op).db := by
  have hnone : (∀ metadata, ¬ (s.additions op).message metadata) →
      ScheduledStored (s.step op).db := fun hadds =>
    (step_changes hwf op).preserves' (fun _ _ _ h => h.change hadds) hstored
  cases op with
  | enqueue => exact hstored.commit fun _ h => posted_enqueueMessageInTx h
  | enqueueBulk clock queueName messages mode =>
    exact hstored.posted (posted_enqueueMessagesBulk clock queueName messages mode s.db)
  | createRun =>
    refine hstored.commit fun db' h => ?_
    obtain ⟨_, -, hinserted⟩ := createRunMessage_effect h
    exact hinserted.posted rfl
  | _ => exact hnone fun _ => id

/-- The operations a message meets until it is claimed: posts, claims, cancellations, and the
scheduler. -/
def Operation.isScheduling : Operation → Bool
  | .enqueue .. | .enqueueBulk .. | .claim .. | .cancel .. | .collectScheduled .. | .activate .. =>
    true
  | _ => false

/-- The event of an operation. -/
def System.messageEvent (s : System) : Operation → Option (Nat × MessageEvent)
  | .claim clock req =>
    match claimMessageWithLeaseDuration s.db clock req with
    | .ok (_, claimed) => claimed.map fun e => (e.1, .claimed)
    | .error _ => none
  | .cancel clock queueName messageId reason =>
    match cancelMessage s.db clock queueName messageId reason with
    | .ok _ => (s.db.messages.find? fun e => addressed queueName messageId e.2).map fun e =>
        (e.1, .canceled)
    | .error _ => none
  | .activate clock message =>
    if message ∈ s.collected ∧ (activateMessage s.db clock message).2 = true then
      some (message.id, .activated)
    else none
  | _ => none

/-- A row that changed on its own leaves ids and INVISIBLE messages as they were. -/
theorem insertsInvisible_of_update {db db' : Database} {i : Nat} {new : Option MessageRow}
    (hnext : db'.messages.nextId = db.messages.nextId)
    (hrow : db'.contents.row = Function.update db.contents.row i new)
    (hvisible : ∀ row, new = some row → row.state ≠ .invisible) :
    InsertsInvisible (· < db.messages.nextId) (· < db'.messages.nextId) db.contents
      db'.contents where
  final := fun _ hi => by rwa [hnext]
  present := fun _ _ hrow => db.messages.id_lt _ (row_contents.mp hrow)
  inserted := fun j row hnew hinvisible => by
    rw [hrow] at hnew
    by_cases hj : j = i
    · subst hj
      rw [Function.update_self] at hnew
      exact absurd hinvisible (hvisible row hnew)
    · rw [Function.update_of_ne hj] at hnew
      exact .inl hnew

/-- What an operation does, for the invariant and for the claim on it. -/
def StepsSchedule (nowMs : Int) (s : System) (op : Operation) : Prop :=
  KeepsSchedule nowMs s.db.contents (s.step op).db.contents (s.messageEvent op) ∧
    InsertsInvisible (· < s.db.messages.nextId) (· < (s.step op).db.messages.nextId)
      s.db.contents (s.step op).db.contents

theorem stepsSchedule_posted {nowMs : Int} {op : Operation} (h : Posted s.db (s.step op).db)
    (hevent : s.messageEvent op = none) : StepsSchedule nowMs s op := by
  refine ⟨?_, h.insertsInvisible⟩
  rw [hevent]
  exact h.keepsSchedule nowMs

theorem stepsSchedule_claim {nowMs : Int} (hstored : ScheduledStored s.db) (clock : Readings)
    (req : ClaimRequest) (hnow : ∀ t ∈ (Operation.claim clock req).readings, t ≤ nowMs) :
    StepsSchedule nowMs s (.claim clock req) := by
  cases hclaim : claimMessageWithLeaseDuration s.db clock req with
  | error err =>
    apply stepsSchedule_posted
    · simp only [System.step, hclaim]
      exact .refl _
    · simp only [System.messageEvent, hclaim]
  | ok result =>
    obtain ⟨db', claimed⟩ := result
    rcases claimMessageWithLeaseDuration_effect hclaim with
      ⟨rfl, rfl⟩ | ⟨_, i, old, policy, -, -, hclaimed, rfl⟩
    · apply stepsSchedule_posted
      · simp only [System.step, hclaim]
        exact .refl _
      · simp only [System.messageEvent, hclaim, Option.map_none]
    · have hupd := hclaimed.updated
      simp only [StepsSchedule, System.step, hclaim, System.messageEvent, Option.map_some]
      refine ⟨KeepsSchedule.of_change (row_contents.mpr hupd.mem) hupd.row_contents ?_ ?_ ?_ ?_,
        insertsInvisible_of_update hupd.nextId hupd.row_contents ?_⟩
      · intro row hrow
        cases hrow
        rfl
      · intro _
        refine ⟨by simp [hclaimed.claimable.state], _, rfl, ?_⟩
        -- The selected row was due at the third reading.
        intro t ht
        have hdue := hclaimed.claimable.due
        have htime : old.metadata.scheduledTime = some t := ht
        rw [hstored _ hupd.mem, htime] at hdue
        have hselected : unixMilli t ≤ clock 2 := by simpa using hdue
        exact le_trans hselected (hnow (clock 2) (by simp [Operation.readings]))
      · intro h
        cases h
      · intro h
        cases h
      · intro row hrow
        cases hrow
        simp [claimRow]

theorem stepsSchedule_cancel (nowMs : Int) (clock : Readings)
    (queueName messageId reason : String) :
    StepsSchedule nowMs s (.cancel clock queueName messageId reason) := by
  cases hcancel : cancelMessage s.db clock queueName messageId reason with
  | error err =>
    apply stepsSchedule_posted
    · simp only [System.step, hcancel]
      exact .refl _
    · simp only [System.messageEvent, hcancel]
  | ok db' =>
    obtain ⟨metadata, i, old, -, hqueue, hid, -, hout⟩ := cancelMessage_effect hcancel
    have hmem : (i, old) ∈ s.db.messages.rows := by
      rcases hout with ⟨-, hdel⟩ | ⟨-, hupd⟩
      · exact hdel.mem
      · exact hupd.mem
    have hfind : s.db.messages.find? (fun e => addressed queueName messageId e.2) =
        some (i, old) := Table.find?_of_selects (selects_addressed hmem hqueue hid)
    simp only [StepsSchedule, System.step, hcancel, System.messageEvent, hfind, Option.map_some]
    rcases hout with ⟨-, hdel⟩ | ⟨-, hupd⟩
    · refine ⟨KeepsSchedule.of_change (row_contents.mpr hmem) hdel.row_contents ?_ ?_ ?_ ?_,
        insertsInvisible_of_update hdel.nextId hdel.row_contents ?_⟩
      · intro row hrow
        cases hrow
      · intro h
        cases h
      · intro h
        cases h
      · intro _ row hrow
        cases hrow
      · intro row hrow
        cases hrow
    · refine ⟨KeepsSchedule.of_change (row_contents.mpr hmem) hupd.row_contents ?_ ?_ ?_ ?_,
        insertsInvisible_of_update hupd.nextId hupd.row_contents ?_⟩
      · intro row hrow
        cases hrow
        rfl
      · intro h
        cases h
      · intro h
        cases h
      · intro _ row hrow
        cases hrow
        rfl
      · intro row hrow
        cases hrow
        simp [cancelRow]

/-- A collected message that is still INVISIBLE is the one that was collected. -/
theorem stepsSchedule_activate (hwf : WellFormed s) (nowMs : Int) (clock : Readings)
    (message : ScheduledMessage) : StepsSchedule nowMs s (.activate clock message) := by
  by_cases hcollected : message ∈ s.collected
  · have hcaptures := hwf.captured message hcollected
    have heffect := activateMessage_effect clock hcaptures.state
      fun row hrow hinvisible => (hcaptures.row row hrow hinvisible).1
    rcases heffect with hsame | ⟨db', old, hok, hinvisible, -, hupd⟩
    · apply stepsSchedule_posted
      · simp only [System.step, hcollected, if_true, hsame]
        exact .refl _
      · simp [System.messageEvent, hsame]
    · have hmetadata := (hcaptures.row old hupd.mem hinvisible).2
      rw [← hmetadata] at hupd
      simp only [StepsSchedule, System.step, System.messageEvent, hcollected, hok, and_self,
        if_true]
      refine ⟨KeepsSchedule.of_change (row_contents.mpr hupd.mem) hupd.row_contents ?_ ?_ ?_ ?_,
        insertsInvisible_of_update hupd.nextId hupd.row_contents ?_⟩
      · intro row hrow
        cases hrow
        rfl
      · intro h
        cases h
      · intro _
        refine ⟨⟨old, clock 0, row_contents.mpr hupd.mem, hinvisible, ?_, ?_⟩, ?_⟩
        · rw [hupd.row_contents, Function.update_self]
          rfl
        · intro q s
          have hcounter := hupd.counter q s
          rw [hinvisible] at hcounter
          exact hcounter
        · intro j hj
          rw [hupd.row_contents, Function.update_of_ne hj]
      · intro h
        cases h
      · intro row hrow
        cases hrow
        simp [activateRow]
  · apply stepsSchedule_posted
    · simp only [System.step, hcollected, if_false]
      exact .refl _
    · simp [System.messageEvent, hcollected]

/-- **Step lemma**. -/
theorem stepsSchedule (hwf : WellFormed s) (hstored : ScheduledStored s.db) {op : Operation}
    (hop : op.isScheduling = true) {nowMs : Int} (hnow : ∀ t ∈ op.readings, t ≤ nowMs) :
    StepsSchedule nowMs s op := by
  have hcommit : ∀ {r : Except StorageError Database}, (∀ db', r = .ok db' → Posted s.db db') →
      Posted s.db (s.commit r).db := by
    intro r h
    cases r with
    | ok db' => exact h db' rfl
    | error _ => exact .refl _
  cases op with
  | enqueue =>
    exact stepsSchedule_posted (hcommit fun _ h => posted_enqueueMessageInTx h) rfl
  | enqueueBulk clock queueName messages mode =>
    exact stepsSchedule_posted (posted_enqueueMessagesBulk clock queueName messages mode s.db) rfl
  | claim clock req => exact stepsSchedule_claim hstored clock req hnow
  | cancel clock q m reason => exact stepsSchedule_cancel nowMs clock q m reason
  | collectScheduled => exact stepsSchedule_posted (.refl _) rfl
  | activate clock message => exact stepsSchedule_activate hwf nowMs clock message
  | _ => cases hop

end Operations

/-! ## Section 5: The runs of the SQLite backend -/

/-- A state with the events that led to it, latest first. -/
structure Timeline where
  system : System
  log : List (Nat × MessageEvent)

namespace Timeline

/-- One operation, with its event. -/
def step (t : Timeline) (op : Operation) : Timeline :=
  ⟨t.system.step op, (t.system.messageEvent op).toList ++ t.log⟩

/-- The operations `ops`, in any state the system has come to. -/
def run (earlier ops : List Operation) : Timeline := runFrom step ⟨System.run earlier, []⟩ ops

/-- What holds at any time. -/
structure Sound (t : Timeline) : Prop where
  wellFormed : WellFormed t.system
  stored : ScheduledStored t.system.db
  settled : Settled (· < t.system.db.messages.nextId) t.log t.system.db.contents
  once : ActivatedOnce t.log

theorem Sound.step {t : Timeline} (h : t.Sound) {op : Operation} (hop : op.isScheduling = true) :
    (t.step op).Sound := by
  obtain ⟨nowMs, hnow⟩ := op.readings.toFinset.exists_le
  obtain ⟨hkeeps, hinserts⟩ := stepsSchedule h.wellFormed h.stored hop
    fun r hr => hnow r (List.mem_toFinset.mpr hr)
  exact ⟨h.wellFormed.step op, h.stored.step h.wellFormed op, h.settled.step hkeeps hinserts,
    h.once.step h.settled hkeeps⟩

theorem sound_run (earlier ops : List Operation) (hops : ∀ op ∈ ops, op.isScheduling = true) :
    (run earlier ops).Sound := by
  have hstored : ScheduledStored (System.run earlier).db := by
    have hboth : WellFormed (System.run earlier) ∧ ScheduledStored (System.run earlier).db := by
      apply invariant_runFrom' System.step (fun s => WellFormed s ∧ ScheduledStored s.db)
      · intro s op h
        exact ⟨h.1.step op, h.2.step h.1 op⟩
      · exact ⟨wellFormed_empty, fun _ he => absurd he List.not_mem_nil⟩
    exact hboth.2
  have hstart : Sound ⟨System.run earlier, []⟩ := by
    refine ⟨wellFormed_run earlier, hstored, ?_, activatedOnce_nil⟩
    intro i hi
    simp at hi
  have hfollows : Follows step (fun _ op => True ∧ op.isScheduling = true)
      ⟨System.run earlier, []⟩ ops :=
    (follows_of_forall step (fun _ _ => trivial) _ ops).and_forall step hops
  exact invariant_runFrom step Sound (fun t op h hop => h.step hop.2) hstart hfollows

end Timeline

end Nzovu.Repository
