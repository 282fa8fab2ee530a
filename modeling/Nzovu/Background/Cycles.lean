import Nzovu.Background.Reclaim
import Nzovu.Repository.Retention
import Nzovu.Repository.System

/-!
# Cycles of the Scheduler and of the Cleanup

Translation of `processScheduledMessages` (`scheduler.go`) and of `cleanupExpiredMessages`
(`cleanup.go`): a cycle reads the clock once and works off what is due at that instant, batch after
batch, until a batch makes no progress or the budget of the cycle is used up.

- Section 1: a cycle of the scheduler.
- Section 2: what a batch of activations leaves due.
- Section 3: what a cycle of activations leaves due.
- Section 4: a cycle of the cleanup.
-/

namespace Nzovu.Background

open Nzovu.Foundation
open Nzovu.Repository

/-! ## Section 1: Activation -/

/-- The condition of `collectScheduledMessages`. -/
def timeHasCome (nowMs : Int) (row : MessageRow) : Bool :=
  row.state = .invisible && row.scheduledAt.any (· ≤ nowMs)

/-- `ORDER BY scheduled_at ASC, priority DESC`. The query does not order rows that agree in both;
`rank` is the order in which it meets them. -/
def DueOrder (rank : Nat → Nat) (a b : Nat × MessageRow) : Prop :=
  a.2.scheduledAt.getD 0 < b.2.scheduledAt.getD 0 ∨
    a.2.scheduledAt.getD 0 = b.2.scheduledAt.getD 0 ∧
      (b.2.priority < a.2.priority ∨ b.2.priority = a.2.priority ∧ rank a.1 ≤ rank b.1)

instance (rank : Nat → Nat) : DecidableRel (DueOrder rank) := fun a b =>
  inferInstanceAs (Decidable (a.2.scheduledAt.getD 0 < b.2.scheduledAt.getD 0 ∨
    a.2.scheduledAt.getD 0 = b.2.scheduledAt.getD 0 ∧
      (b.2.priority < a.2.priority ∨ b.2.priority = a.2.priority ∧ rank a.1 ≤ rank b.1)))

/-- What is kept of a row that is due. -/
def collected (nowMs : Int) (e : Nat × MessageRow) : ScheduledMessage :=
  ⟨e.1, e.2.queueName, e.2.messageId, e.2.metadata, nowMs⟩

/-- The messages that are due, in this order. -/
def dueMessages (db : Database) (rank : Nat → Nat) (nowMs : Int) : List ScheduledMessage :=
  ((db.messages.rows.filter fun e => timeHasCome nowMs e.2).insertionSort (DueOrder rank)).map
    (collected nowMs)

/-- What the activation of one message meets outside the database: the clock, and a message that
cannot be decoded or a failure of its transaction. -/
structure ActivationAttempt where
  clock : Readings
  fault : Option StorageError := none

/-- `activateMessage`, in its transaction. -/
def ActivationAttempt.run (attempt : ActivationAttempt) (db : Database)
    (message : ScheduledMessage) : Except StorageError (Database × Bool) :=
  match attempt.fault with
  | some err => .error err
  | none => .ok (activateMessage db attempt.clock message)

abbrev ActivationOutcomes := List (ScheduledMessage × Except StorageError Bool)

/-- The loop over the messages of a batch. -/
def activateMessages (attempts : ScheduledMessage → ActivationAttempt) :
    List ScheduledMessage → Database → Database × ActivationOutcomes :=
  attemptEach fun db message => (attempts message).run db message

/-- `progressed`: the number of activated messages. -/
def progressed (outcomes : ActivationOutcomes) : Nat :=
  outcomes.countP fun outcome =>
    match outcome.2 with
    | .ok activated => activated
    | .error _ => false

/-- `processScheduledMessages`, with a budget of so many batches. The clock reading `nowMs` is that
of the start; `attempts` are the attempts of each batch, from the last one in the budget on. -/
def processScheduledMessages (rank : Nat → Nat) (nowMs : Int) (limit : Nat)
    (attempts : Nat → ScheduledMessage → ActivationAttempt) :
    Nat → Database → Database × ActivationOutcomes
  | 0, db => (db, [])
  | budget + 1, db =>
    let batch := activateMessages (attempts budget) ((dueMessages db rank nowMs).take limit) db
    -- nothing was due, or nothing could be activated
    if progressed batch.2 = 0 then batch
    else
      let rest := processScheduledMessages rank nowMs limit attempts budget batch.1
      (rest.1, batch.2 ++ rest.2)

section Order

variable (rank : Nat → Nat)

instance : IsTrans (Nat × MessageRow) (DueOrder rank) :=
  ⟨fun a b c hab hbc => by
    unfold DueOrder at *
    omega⟩

instance : Std.Total (DueOrder rank) :=
  ⟨fun a b => by
    unfold DueOrder
    omega⟩

/-- `collectScheduledMessages` meets rows of one instant and priority in the table's order. -/
theorem collectScheduledMessages_eq (db : Database) (nowMs : Int) (limit : Nat) :
    collectScheduledMessages db nowMs limit = (dueMessages db (fun _ => 0) nowMs).take limit := by
  have horder : DueOrder (fun _ => 0) = fun a b => activationOrder a b = true := by
    funext a b
    simp only [DueOrder, activationOrder, Bool.or_eq_true, Bool.and_eq_true, decide_eq_true_eq]
    exact propext (by omega)
  rw [dueMessages, ← List.map_take]
  simp only [collectScheduledMessages]
  congr! 3
  exact horder.symm

end Order

/-! ## Section 2: A batch of activations -/

/-- The columns of an activated row. -/
def activatedRow (updatedAt : Int) (row : MessageRow) : MessageRow :=
  activateRow { row.metadata with state := .pending } updatedAt row

/-- A row that is due may have been activated; any other row stays as it is. -/
def MaybeActivated (nowMs : Int) (e d : Nat × MessageRow) : Prop :=
  d = e ∨ timeHasCome nowMs e.2 = true ∧ ∃ t, d = (e.1, activatedRow t e.2)

/-- The same rows, of which some have been activated. -/
def OnlyActivates (nowMs : Int) (db after : Database) : Prop :=
  List.Forall₂ (MaybeActivated nowMs) db.messages.rows after.messages.rows

theorem timeHasCome_activatedRow (nowMs t : Int) (row : MessageRow) :
    timeHasCome nowMs (activatedRow t row) = false := by
  simp [timeHasCome, activatedRow, activateRow]

theorem MaybeActivated.trans {nowMs : Int} {e d c : Nat × MessageRow} (h : MaybeActivated nowMs e d)
    (h₁ : MaybeActivated nowMs d c) : MaybeActivated nowMs e c := by
  rcases h with rfl | ⟨hdue, t, rfl⟩
  · exact h₁
  · rcases h₁ with rfl | ⟨hagain, -⟩
    · exact .inr ⟨hdue, t, rfl⟩
    · rw [timeHasCome_activatedRow] at hagain
      exact absurd hagain Bool.false_ne_true

theorem OnlyActivates.refl (nowMs : Int) (db : Database) : OnlyActivates nowMs db db :=
  List.forall₂_same.mpr fun _ _ => .inl rfl

theorem OnlyActivates.trans {nowMs : Int} {db db₁ db₂ : Database} (h : OnlyActivates nowMs db db₁)
    (h₁ : OnlyActivates nowMs db₁ db₂) : OnlyActivates nowMs db db₂ := by
  unfold OnlyActivates at *
  generalize db.messages.rows = rows at h
  generalize db₁.messages.rows = rows₁ at h h₁
  generalize db₂.messages.rows = rows₂ at h₁ ⊢
  induction h generalizing rows₂ with
  | nil => exact h₁
  | cons hhead _ ih =>
    obtain ⟨c, rest, hhead₁, htail₁, rfl⟩ := List.forall₂_cons_left_iff.mp h₁
    exact .cons (hhead.trans hhead₁) (ih _ htail₁)

section Batch

variable {rank : Nat → Nat} {nowMs : Int} {db : Database}

theorem mem_dueMessages {message : ScheduledMessage} : message ∈ dueMessages db rank nowMs ↔
    ∃ e ∈ db.messages.rows, timeHasCome nowMs e.2 = true ∧ collected nowMs e = message := by
  rw [dueMessages, List.mem_map]
  simp only [List.mem_insertionSort, List.mem_filter, and_assoc]

/-- The messages that are due have different ids. -/
theorem nodup_dueMessages (db : Database) (rank : Nat → Nat) (nowMs : Int) :
    ((dueMessages db rank nowMs).map ScheduledMessage.id).Nodup := by
  rw [dueMessages, List.map_map]
  have hids : (db.messages.rows.map Prod.fst).Nodup :=
    db.messages.ids_sorted.imp fun hlt => Nat.ne_of_lt hlt
  have hsorted := ((List.perm_insertionSort (DueOrder rank)
    (db.messages.rows.filter fun e => timeHasCome nowMs e.2)).map Prod.fst).nodup_iff
  exact hsorted.mpr (hids.sublist (List.filter_sublist.map Prod.fst))

/-- A message that is due is activated: its row gets the columns of an activation. -/
theorem activateMessage_due (clock : Readings) {message : ScheduledMessage}
    (h : message ∈ dueMessages db rank nowMs) :
    ∃ db' e, e ∈ db.messages.rows ∧ timeHasCome nowMs e.2 = true ∧ e.1 = message.id ∧
      activateMessage db clock message = (db', true) ∧
      db'.messages.rows = Table.setRow db.messages.rows e.1 (activatedRow (clock 0) e.2) := by
  obtain ⟨⟨i, row⟩, hmem, hdue, rfl⟩ := mem_dueMessages.mp h
  obtain ⟨hstate, htime⟩ : row.state = .invisible ∧ row.scheduledAt.any (· ≤ nowMs) = true := by
    simpa [timeHasCome] using hdue
  obtain ⟨db₁, hrewritten, hactivate⟩ :=
    activateMessage_rewrites clock (collected nowMs (i, row)) hmem hstate htime
  refine ⟨_, (i, row), hmem, hdue, rfl, hactivate, ?_⟩
  rw [messages_updateCounters]
  exact hrewritten.rows

/-- An activation takes its message out of those that are due. -/
theorem dueMessages_activate {db' : Database} {i : Nat} {row : MessageRow} {t : Int}
    (hrows : db'.messages.rows = Table.setRow db.messages.rows i (activatedRow t row)) :
    dueMessages db' rank nowMs = (dueMessages db rank nowMs).filter (·.id ≠ i) := by
  simp only [dueMessages]
  rw [hrows, filter_setRow (timeHasCome_activatedRow nowMs t row), ← filter_insertionSort,
    List.filter_map]
  rfl

theorem onlyActivates_activate {db' : Database} {e : Nat × MessageRow} {t : Int}
    (hmem : e ∈ db.messages.rows) (hdue : timeHasCome nowMs e.2 = true)
    (hrows : db'.messages.rows = Table.setRow db.messages.rows e.1 (activatedRow t e.2)) :
    OnlyActivates nowMs db db' := by
  rw [OnlyActivates, hrows, Table.setRow, List.forall₂_map_right_iff, List.forall₂_same]
  intro d hd
  split
  next hid =>
    obtain rfl := Table.eq_of_id hd hmem hid
    exact .inr ⟨hdue, t, rfl⟩
  · exact .inl rfl

variable {attempts : ScheduledMessage → ActivationAttempt} {failing : ScheduledMessage → Bool}

theorem activateMessages_cons_of_fault {message : ScheduledMessage}
    {messages : List ScheduledMessage} {err : StorageError}
    (h : (attempts message).fault = some err) :
    activateMessages attempts (message :: messages) db =
      ((activateMessages attempts messages db).1,
        (message, .error err) :: (activateMessages attempts messages db).2) :=
  attemptEach_error (fun db message => (attempts message).run db message)
    (by simp only [ActivationAttempt.run, h])

theorem activateMessages_cons_of_activate {message : ScheduledMessage}
    {messages : List ScheduledMessage} {db₁ : Database} (h : (attempts message).fault = none)
    (hactivate : activateMessage db (attempts message).clock message = (db₁, true)) :
    activateMessages attempts (message :: messages) db =
      ((activateMessages attempts messages db₁).1,
        (message, .ok true) :: (activateMessages attempts messages db₁).2) :=
  attemptEach_ok (fun db message => (attempts message).run db message)
    (by simp only [ActivationAttempt.run, h, hactivate])

/-- The loop activates the messages that do not fail. -/
theorem activateMessages_due (hfails : ∀ message, (attempts message).fault.isSome = failing message)
    {messages : List ScheduledMessage} (hdue : ∀ message ∈ messages,
      message ∈ dueMessages db rank nowMs) (hnodup : (messages.map ScheduledMessage.id).Nodup) :
    dueMessages (activateMessages attempts messages db).1 rank nowMs =
        (dueMessages db rank nowMs).filter (fun other =>
          messages.all fun message => failing message || other.id ≠ message.id) ∧
      OnlyActivates nowMs db (activateMessages attempts messages db).1 ∧
      progressed (activateMessages attempts messages db).2 =
        messages.countP fun message => !failing message := by
  induction messages generalizing db with
  | nil => exact ⟨(List.filter_eq_self.mpr fun _ _ => rfl).symm, .refl nowMs db, rfl⟩
  | cons message messages ih =>
    obtain ⟨hfirst, hrest⟩ := List.forall_mem_cons.mp hdue
    obtain ⟨hnotin, hnodup⟩ := List.nodup_cons.mp hnodup
    -- a failing message stays due, any other one leaves
    have hfault := hfails message
    cases hcase : (attempts message).fault with
    | some err =>
      rw [hcase, Option.isSome_some] at hfault
      obtain ⟨hleft, honly, hcount⟩ := ih hrest hnodup
      rw [activateMessages_cons_of_fault hcase]
      refine ⟨?_, honly, ?_⟩
      · simp only [hleft, List.all_cons, ← hfault, Bool.true_or, Bool.true_and]
      · rw [progressed, List.countP_cons_of_neg (by simp), ← progressed, hcount,
          List.countP_cons_of_neg (by simp [← hfault])]
    | none =>
      obtain ⟨db₁, e, hmem, he, hid, hactivate, hrows⟩ :=
        activateMessage_due (attempts message).clock hfirst
      rw [hcase, Option.isSome_none] at hfault
      have hdue₁ : dueMessages db₁ rank nowMs =
          (dueMessages db rank nowMs).filter (·.id ≠ message.id) :=
        hid ▸ dueMessages_activate hrows
      have honly₁ : OnlyActivates nowMs db db₁ := onlyActivates_activate hmem he hrows
      -- the others are still due
      have hrest₁ : ∀ other ∈ messages, other ∈ dueMessages db₁ rank nowMs := by
        intro other hother
        rw [hdue₁]
        refine List.mem_filter.mpr ⟨hrest other hother, decide_eq_true fun heq => hnotin ?_⟩
        exact heq ▸ List.mem_map_of_mem hother
      obtain ⟨hleft, honly, hcount⟩ := ih hrest₁ hnodup
      rw [activateMessages_cons_of_activate hcase hactivate]
      refine ⟨?_, honly₁.trans honly, ?_⟩
      · rw [hleft, hdue₁, List.filter_filter]
        refine List.filter_congr fun other _ => ?_
        rw [List.all_cons, ← hfault, Bool.false_or, Bool.and_comm]
      · rw [progressed, List.countP_cons_of_pos rfl, ← progressed, hcount,
          List.countP_cons_of_pos (by simp [← hfault])]

theorem activateMessages_take_due
    (hfails : ∀ message, (attempts message).fault.isSome = failing message) (limit : Nat) :
    let messages := (dueMessages db rank nowMs).take limit
    dueMessages (activateMessages attempts messages db).1 rank nowMs =
        (dueMessages db rank nowMs).filter (fun other =>
          messages.all fun message => failing message || other.id ≠ message.id) ∧
      OnlyActivates nowMs db (activateMessages attempts messages db).1 ∧
      progressed (activateMessages attempts messages db).2 =
        messages.countP fun message => !failing message :=
  activateMessages_due hfails (fun _ hmem => List.mem_of_mem_take hmem)
    ((nodup_dueMessages db rank nowMs).sublist ((List.take_sublist ..).map _))

/-- **One batch**: it leaves due what a batch of a list leaves. -/
theorem dueMessages_batch (hfails : ∀ message, (attempts message).fault.isSome = failing message)
    (limit : Nat) :
    dueMessages (activateMessages attempts ((dueMessages db rank nowMs).take limit) db).1 rank
        nowMs = drainBatch limit failing (dueMessages db rank nowMs) := by
  have hnodup := nodup_dueMessages db rank nowMs
  obtain ⟨hleft, -, -⟩ := activateMessages_take_due hfails limit
  rw [hleft, ← filter_eq_drainBatch _ _ hnodup.of_map]
  refine List.filter_congr fun other hother => ?_
  -- the id determines the message
  have hsame : ∀ message ∈ (dueMessages db rank nowMs).take limit, other.id = message.id →
      other = message :=
    fun message hmessage => List.inj_on_of_nodup_map hnodup hother (List.mem_of_mem_take hmessage)
  rw [Bool.eq_iff_iff]
  simp only [List.all_eq_true, Bool.or_eq_true, decide_eq_true_eq]
  constructor
  · intro hall
    by_cases hfirst : other ∈ (dueMessages db rank nowMs).take limit
    · exact .inl ((hall other hfirst).resolve_right fun hne => hne rfl)
    · exact .inr hfirst
  · rintro hkept message hmessage
    by_cases hid : other.id = message.id
    · obtain rfl := hsame message hmessage hid
      exact .inl (hkept.resolve_right fun hnot => hnot hmessage)
    · exact .inr hid

end Batch

/-! ## Section 3: A cycle of activations -/

section Cycle

variable {rank : Nat → Nat} {nowMs : Int} {limit : Nat} {db : Database}
  {attempts : Nat → ScheduledMessage → ActivationAttempt} {failing : ScheduledMessage → Bool}

/-- A cycle leaves due what so many batches of a list leave. -/
theorem dueMessages_cycle
    (hfails : ∀ k message, (attempts k message).fault.isSome = failing message) (budget : Nat) :
    dueMessages (processScheduledMessages rank nowMs limit attempts budget db).1 rank nowMs =
        (drainBatch limit failing)^[budget] (dueMessages db rank nowMs) ∧
      OnlyActivates nowMs db (processScheduledMessages rank nowMs limit attempts budget db).1 := by
  induction budget generalizing db with
  | zero => exact ⟨rfl, .refl nowMs db⟩
  | succ budget ih =>
    have hbatch : dueMessages (activateMessages (attempts budget)
        ((dueMessages db rank nowMs).take limit) db).1 rank nowMs =
          drainBatch limit failing (dueMessages db rank nowMs) :=
      dueMessages_batch (hfails budget) limit
    obtain ⟨-, honly, hprogressed⟩ :=
      @activateMessages_take_due rank nowMs db _ failing (hfails budget) limit
    rw [processScheduledMessages]
    split
    next hnone =>
      -- no batch after this one could do more
      rw [hprogressed, List.countP_eq_zero] at hnone
      have hself : drainBatch limit failing (dueMessages db rank nowMs) =
          dueMessages db rank nowMs :=
        drainBatch_eq_self fun message hmem => by simpa using hnone message hmem
      refine ⟨?_, honly⟩
      rw [hbatch, hself, Function.iterate_fixed hself]
    · obtain ⟨hrest, honlyRest⟩ := @ih (activateMessages (attempts budget)
        ((dueMessages db rank nowMs).take limit) db).1
      refine ⟨?_, honly.trans honlyRest⟩
      rw [Function.iterate_succ_apply, ← hbatch]
      exact hrest

/-- The row is due, its activation does not fail, and fewer failing messages are before it than a
batch takes. -/
def reaches (rank : Nat → Nat) (nowMs : Int) (limit : Nat) (failing : ScheduledMessage → Bool)
    (db : Database) (e : Nat × MessageRow) : Bool :=
  timeHasCome nowMs e.2 && !failing (collected nowMs e) &&
    failingAhead failing (collected nowMs e) (dueMessages db rank nowMs) < limit

/-- **Activation**: a cycle with a budget for every message that is due activates those, and only
those, whose activation does not fail and that have fewer failing messages before them than a batch
takes. -/
theorem processScheduledMessages_activates
    (hfails : ∀ k message, (attempts k message).fault.isSome = failing message) {budget : Nat}
    (hbudget : (dueMessages db rank nowMs).length ≤ budget) :
    List.Forall₂ (fun e d =>
        if reaches rank nowMs limit failing db e then ∃ t, d = (e.1, activatedRow t e.2) else d = e)
      db.messages.rows
      (processScheduledMessages rank nowMs limit attempts budget db).1.messages.rows := by
  obtain ⟨hleft, honly⟩ := @dueMessages_cycle rank nowMs limit db attempts failing hfails budget
  rw [iterate_drainBatch_of_le (nodup_dueMessages db rank nowMs).of_map hbudget] at hleft
  refine List.forall₂_iff_zip.mpr ⟨honly.length_eq, fun {e d} hzip => ?_⟩
  obtain ⟨he, hd⟩ := List.of_mem_zip hzip
  have hstill : timeHasCome nowMs d.2 = true → collected nowMs d ∈ _ :=
    fun hdue => hleft ▸ mem_dueMessages.mpr ⟨d, hd, hdue, rfl⟩
  rcases List.forall₂_zip honly hzip with rfl | ⟨hdue, t, rfl⟩
  · -- an activated row would not be due any more
    rw [if_neg fun hreaches => ?_]
    simp only [reaches, Bool.and_eq_true, decide_eq_true_eq, Bool.not_eq_true'] at hreaches
    obtain ⟨⟨hdue, hfailing⟩, hfew⟩ := hreaches
    have hkept := (List.mem_filter.mp (hstill hdue)).2
    rw [hfailing, Bool.false_or, decide_eq_true_eq] at hkept
    omega
  · rw [if_pos ?_]
    · exact ⟨t, rfl⟩
    · by_contra hstops
      have hmem : collected nowMs e ∈ dueMessages db rank nowMs :=
        mem_dueMessages.mpr ⟨e, he, hdue, rfl⟩
      -- otherwise the message would still be due
      have hdue' : collected nowMs e ∈ dueMessages
          (processScheduledMessages rank nowMs limit attempts budget db).1 rank nowMs := by
        rw [hleft]
        refine List.mem_filter.mpr ⟨hmem, ?_⟩
        simp only [reaches, hdue, Bool.true_and, Bool.and_eq_true, decide_eq_true_eq,
          Bool.not_eq_true', not_and, not_lt] at hstops
        cases hfailing : failing (collected nowMs e) with
        | true => rfl
        | false => exact decide_eq_true (hstops hfailing)
      obtain ⟨c, hc, hcdue, hceq⟩ := mem_dueMessages.mp hdue'
      have hid : c.1 = e.1 := congrArg ScheduledMessage.id hceq
      obtain rfl := Table.eq_of_id hc hd hid
      rw [timeHasCome_activatedRow] at hcdue
      exact absurd hcdue Bool.false_ne_true

end Cycle

/-- A queue with a message for 1000 and one for 2000. -/
def twoScheduled : Database :=
  (System.run [.createQueue "jobs" {},
    .enqueue (fun _ => 90) "jobs" ⟨"m", some ⟨.invisible, 3, 3, 0, some 1000000000, none⟩⟩,
    .enqueue (fun _ => 95) "jobs" ⟨"n", some ⟨.invisible, 3, 3, 0, some 2000000000, none⟩⟩]).db

/-- The first message cannot be decoded. -/
def undecodable (message : ScheduledMessage) : Bool := message.messageId = "m"

def undecodableAttempt (message : ScheduledMessage) : ActivationAttempt where
  clock := fun _ => 5001
  fault := if undecodable message then some (.plain "unmarshal") else none

theorem processScheduledMessages_pastUndecodable :
    twoScheduled.messages.rows.map (reaches id 5000 2 undecodable twoScheduled) = [false, true] ∧
    List.Forall₂ (fun e d => if reaches id 5000 2 undecodable twoScheduled e then
        ∃ t, d = (e.1, activatedRow t e.2) else d = e)
      twoScheduled.messages.rows
      (processScheduledMessages id 5000 2 (fun _ => undecodableAttempt) 2
        twoScheduled).1.messages.rows :=
  ⟨by decide, processScheduledMessages_activates
    (fun _ message => by cases h : undecodable message <;> simp [undecodableAttempt, h])
    (by decide)⟩

/-! ## Section 4: Cleanup -/

/-- `cleanupExpiredMessages`, with a budget of so many batches: the database left and the number of
deleted rows. -/
def cleanupExpiredMessages (nowMs : Int) (limit : Nat) :
    Nat → Database → Except StorageError (Database × Nat)
  | 0, db => .ok (db, 0)
  | budget + 1, db =>
    match cleanupExpiredBatch db nowMs limit with
    | .error err => .error (err.wrap "delete expired message batch")
    | .ok (db₁, deleted) =>
      -- a short batch was the last one
      if deleted < limit then .ok (db₁, deleted)
      else
        match cleanupExpiredMessages nowMs limit budget db₁ with
        | .error err => .error err
        | .ok (db₂, more) => .ok (db₂, deleted + more)

/-- The rows whose retention has ended, in the order of the query. -/
def endedRows (db : Database) (nowMs : Int) : List (Nat × MessageRow) :=
  (db.messages.rows.filter fun e => e.2.deletedAt.any (· ≤ nowMs)).insertionSort
    fun a b => cleanupOrder a b = true

instance : IsTrans (Nat × MessageRow) fun a b => cleanupOrder a b = true :=
  ⟨fun a b c hab hbc => by
    simp only [cleanupOrder, Bool.or_eq_true, Bool.and_eq_true, decide_eq_true_eq] at *
    omega⟩

instance : Std.Total fun a b : Nat × MessageRow => cleanupOrder a b = true :=
  ⟨fun a b => by
    simp only [cleanupOrder, Bool.or_eq_true, Bool.and_eq_true, decide_eq_true_eq]
    omega⟩

/-- One of these rows. -/
def isAmong (rows : List (Nat × MessageRow)) (e : Nat × MessageRow) : Bool :=
  decide (e.1 ∈ rows.map Prod.fst)

theorem nodup_endedRows (db : Database) (nowMs : Int) :
    ((endedRows db nowMs).map Prod.fst).Nodup := by
  have hids : (db.messages.rows.map Prod.fst).Nodup :=
    db.messages.ids_sorted.imp fun hlt => Nat.ne_of_lt hlt
  exact ((List.perm_insertionSort _ _).map Prod.fst).nodup_iff.mpr
    (hids.sublist (List.filter_sublist.map Prod.fst))

/-- Removing rows, and then further rows. -/
theorem rowsRemoved_trans {db db₁ db₂ : Database} {p q : Nat × MessageRow → Bool}
    (h : RowsRemoved db db₁ p) (h₁ : RowsRemoved db₁ db₂ q) :
    RowsRemoved db db₂ fun e => p e || q e where
  rows := by
    rw [h₁.rows, h.rows, List.filter_filter]
    exact List.filter_congr fun e _ => by rw [Bool.not_or, Bool.and_comm]
  nextId := h₁.nextId.trans h.nextId
  counter name state := by
    have hsplit : Table.tally (db.messages.rows.filter fun e => p e || q e)
          (MessageRow.countsAs name state) =
        Table.tally (db.messages.rows.filter p) (MessageRow.countsAs name state) +
          Table.tally (db₁.messages.rows.filter q) (MessageRow.countsAs name state) := by
      rw [h.rows]
      simp only [Table.tally, List.countP_filter, List.filter_filter]
      induction db.messages.rows with
      | nil => rfl
      | cons e rows ih =>
        simp only [List.countP_cons]
        cases p e <;> cases q e <;> cases MessageRow.countsAs name state e.2 <;> simp <;> omega
    rw [h₁.counter, h.counter, hsplit]
    ring
  configs := h₁.configs.trans h.configs

section Cleanup

variable (db : Database) (nowMs : Int)

/-- Of the rows of the table those among the first `limit` of the query are these. -/
theorem filter_isAmong_perm (limit : Nat) :
    (db.messages.rows.filter (isAmong ((endedRows db nowMs).take limit))).Perm
      ((endedRows db nowMs).take limit) := by
  have hrows : db.messages.rows.Nodup := db.messages.keys_nodup.of_map
  refine (List.perm_ext_iff_of_nodup (hrows.filter _)
    ((nodup_endedRows db nowMs).of_map.sublist (List.take_sublist ..))).mpr fun e => ?_
  rw [List.mem_filter, isAmong, decide_eq_true_eq]
  constructor
  · rintro ⟨he, hid⟩
    obtain ⟨d, hd, hde⟩ := List.mem_map.mp hid
    have hmem := (List.mem_filter.mp ((List.mem_insertionSort _).mp (List.mem_of_mem_take hd))).1
    exact Table.eq_of_id hmem he hde ▸ hd
  · intro he
    have hmem := (List.mem_filter.mp ((List.mem_insertionSort _).mp (List.mem_of_mem_take he))).1
    exact ⟨hmem, List.mem_map_of_mem he⟩

/-- **One batch** deletes the first rows of the query and leaves the others to the next one. -/
theorem cleanupExpiredBatch_eq (limit : Nat) :
    ∃ after, cleanupExpiredBatch db nowMs limit =
        .ok (after, ((endedRows db nowMs).take limit).length) ∧
      RowsRemoved db after (isAmong ((endedRows db nowMs).take limit)) ∧
      endedRows after nowMs = (endedRows db nowMs).drop limit := by
  obtain ⟨after, hafter⟩ := removeGroupCounters_isOk
    (db.messages.rows.filter (isAmong ((endedRows db nowMs).take limit)))
    (db.deleteMessages (isAmong ((endedRows db nowMs).take limit)))
    (countGroups (db.messages.rows.filter (isAmong ((endedRows db nowMs).take limit))))
  have hbatch : cleanupExpiredBatch db nowMs limit =
      .ok (after, ((endedRows db nowMs).take limit).length) := by
    rw [← (filter_isAmong_perm db nowMs limit).length_eq]
    unfold cleanupExpiredBatch
    simp only
    split
    next err hfailed => cases hfailed.symm.trans hafter
    next db' hdone =>
      cases hdone.symm.trans hafter
      rfl
  have hremoved : RowsRemoved db after (isAmong ((endedRows db nowMs).take limit)) :=
    cleanupExpiredBatch_removes hbatch
  refine ⟨after, hbatch, hremoved, ?_⟩
  have hnodup := nodup_endedRows db nowMs
  have hsplit : (((endedRows db nowMs).take limit).map Prod.fst ++
      ((endedRows db nowMs).drop limit).map Prod.fst).Nodup := by
    rwa [← List.map_append, List.take_append_drop]
  have hapart := List.nodup_append.mp hsplit
  calc endedRows after nowMs
      = (endedRows db nowMs).filter (!isAmong ((endedRows db nowMs).take limit) ·) := by
        rw [endedRows, hremoved.rows, List.filter_filter, endedRows, filter_insertionSort,
          List.filter_filter]
        congr 1
        exact List.filter_congr fun _ _ => Bool.and_comm ..
    _ = (endedRows db nowMs).drop limit := by
        conv_lhs =>
          arg 2
          rw [← List.take_append_drop limit (endedRows db nowMs)]
        rw [List.filter_append]
        have hfirst : ((endedRows db nowMs).take limit).filter
            (!isAmong ((endedRows db nowMs).take limit) ·) = [] :=
          List.filter_eq_nil_iff.mpr fun e he => by
            simp only [isAmong, decide_eq_true (List.mem_map_of_mem (f := Prod.fst) he)]
            simp
        have hrest : ((endedRows db nowMs).drop limit).filter
            (!isAmong ((endedRows db nowMs).take limit) ·) = (endedRows db nowMs).drop limit :=
          List.filter_eq_self.mpr fun e he => by
            rw [isAmong, Bool.not_eq_true', decide_eq_false_iff_not]
            exact fun hmem => hapart.2.2 _ hmem _ (List.mem_map_of_mem he) rfl
        rw [hfirst, hrest, List.nil_append]

/-- A cycle deletes as many rows as its batches take together. -/
theorem cleanupExpiredMessages_eq (limit budget : Nat) :
    ∃ after, cleanupExpiredMessages nowMs limit budget db =
        .ok (after, ((endedRows db nowMs).take (budget * limit)).length) ∧
      RowsRemoved db after (isAmong ((endedRows db nowMs).take (budget * limit))) := by
  induction budget generalizing db with
  | zero =>
    have hnone : isAmong ((endedRows db nowMs).take (0 * limit)) = fun _ => false := by
      funext e
      simp [isAmong]
    rw [hnone]
    refine ⟨db, by simp [cleanupExpiredMessages], (List.filter_eq_self.mpr fun _ _ => rfl).symm,
      rfl, fun q s => ?_, rfl⟩
    simp
  | succ budget ih =>
    obtain ⟨after₁, hbatch, hremoved₁, hleft⟩ := cleanupExpiredBatch_eq db nowMs limit
    rw [cleanupExpiredMessages, hbatch]
    -- the loop stops at the first short batch
    by_cases hshort : ((endedRows db nowMs).take limit).length < limit
    · -- nothing was left for a further batch
      have hall : (endedRows db nowMs).take ((budget + 1) * limit) =
          (endedRows db nowMs).take limit := by
        rw [List.length_take] at hshort
        have hlength : (endedRows db nowMs).length ≤ limit := by omega
        rw [List.take_of_length_le hlength, List.take_of_length_le]
        exact hlength.trans (Nat.succ_mul budget limit ▸ Nat.le_add_left ..)
      rw [hall]
      exact ⟨after₁, by simp only [hshort, if_true], hremoved₁⟩
    · obtain ⟨after, hrest, hremoved⟩ := ih after₁
      have htake : (endedRows db nowMs).take ((budget + 1) * limit) =
          (endedRows db nowMs).take limit ++
            (endedRows after₁ nowMs).take (budget * limit) := by
        rw [hleft, ← List.take_add, Nat.succ_mul, Nat.add_comm limit]
      have hamong : isAmong ((endedRows db nowMs).take ((budget + 1) * limit)) = fun e =>
          isAmong ((endedRows db nowMs).take limit) e ||
            isAmong ((endedRows after₁ nowMs).take (budget * limit)) e := by
        funext e
        rw [htake, isAmong, List.map_append, Bool.eq_iff_iff]
        simp [isAmong]
      refine ⟨after, ?_, hamong ▸ rowsRemoved_trans hremoved₁ hremoved⟩
      simp only [if_neg hshort, hrest]
      rw [htake, List.length_append]

/-- **Cleanup**: the batches of a cycle delete the rows that one batch of their size together would
delete, with the same number and the same counters; and they leave no row whose retention has ended
exactly when this is no more than they take. -/
theorem cleanupExpiredMessages_batches (limit budget : Nat) :
    ∃ after one n, cleanupExpiredMessages nowMs limit budget db = .ok (after, n) ∧
      cleanupExpiredBatch db nowMs (budget * limit) = .ok (one, n) ∧
      after.messages.rows = one.messages.rows ∧ (∀ q s, after.counter q s = one.counter q s) ∧
      ((∀ e ∈ after.messages.rows, e.2.deletedAt.all (nowMs < ·) = true) ↔
        (db.messages.rows.filter fun e => e.2.deletedAt.any (· ≤ nowMs)).length ≤
          budget * limit) := by
  obtain ⟨after, hcycle, hremoved⟩ := cleanupExpiredMessages_eq db nowMs limit budget
  obtain ⟨one, hone, honeRemoved, hleft⟩ := cleanupExpiredBatch_eq db nowMs (budget * limit)
  have hrows : after.messages.rows = one.messages.rows := hremoved.rows.trans honeRemoved.rows.symm
  refine ⟨after, one, _, hcycle, hone, hrows,
    fun q s => (hremoved.counter q s).trans (honeRemoved.counter q s).symm, ?_⟩
  have hlength : (db.messages.rows.filter fun e => e.2.deletedAt.any (· ≤ nowMs)).length =
      (endedRows db nowMs).length := (List.length_insertionSort ..).symm
  rw [hrows, hlength, ← List.drop_eq_nil_iff, ← hleft, ← List.length_eq_zero_iff, endedRows,
    List.length_insertionSort, List.length_eq_zero_iff, List.filter_eq_nil_iff]
  refine forall₂_congr fun e _ => ?_
  cases e.2.deletedAt <;> simp

end Cleanup

end Nzovu.Background
