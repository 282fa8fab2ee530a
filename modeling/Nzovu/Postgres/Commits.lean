import Nzovu.Foundation.Run
import Nzovu.Postgres.Specs

/-!
# Commits

The committed rows change only when a transaction commits, and then as its outcome says. This
module reads outcomes as changes of the committed rows and shows that they keep the database
valid, so that the program logic applies to every run of every mixture of calls.

- Section 1: the rows before and after a commit.
- Section 2: what becomes of a message.
- Section 3: runs.
- Section 4: databases given by their rows.
-/

namespace Nzovu.Postgres

open Nzovu.Foundation
open Nzovu.Repository

/-- The state of the database server and its sessions. -/
abbrev Server := World Key Row StorageError Reply

section Commits

variable {setup : Setup} {L : Knowledge} {rows : Store Key Row}

/-! ## Section 1: Rows before and after -/

/-- The counter of a queue in the committed rows. -/
def counter (rows : Store Key Row) (q : String) (s : MessageState) : Int :=
  ((rows (queue q)).map fun row : QueueRow => count row s).getD 0

theorem view_of_free {i : Ref Key} (h : L.held i = none) : L.view rows i = rows i := by
  simp [Local.view, h]

theorem view_of_held {i : Ref Key} {old new : Option (Row i.1)} (h : L.held i = some (old, new)) :
    L.view rows i = new := by
  simp [Local.view, h]

theorem Untouched.view {except : Nat → Prop} (h : Untouched L except)
    (hsees : L.Sees setup.schema setup.Inv rows) {i : Nat} (hi : ¬ except i) :
    L.view rows (message i) = rows (message i) := by
  rcases hheld : L.held (message i) with _ | ⟨old, new⟩
  · exact view_of_free hheld
  · rw [view_of_held hheld, h i hi old new hheld]
    exact (hsees.base _ _ _ hheld).symm

theorem Touched.base {i : Nat} {old : MessageRow} {new : Option MessageRow}
    (h : Touched L i old new) (hsees : L.Sees setup.schema setup.Inv rows) :
    rows (message i) = some old :=
  hsees.base _ _ _ h.held

theorem Touched.view {i : Nat} {old : MessageRow} {new : Option MessageRow}
    (h : Touched L i old new) : L.view rows (message i) = new :=
  view_of_held h.held

theorem Touched.view_ne {i j : Nat} {old : MessageRow} {new : Option MessageRow}
    (h : Touched L i old new) (hsees : L.Sees setup.schema setup.Inv rows) (hj : j ≠ i) :
    L.view rows (message j) = rows (message j) :=
  h.others.view hsees hj

/-- A commit adds to each counter what the transaction has counted. -/
theorem Counted.counter {delta : String → MessageState → Int} (h : Counted L delta)
    (hsees : L.Sees setup.schema setup.Inv rows) (q : String) (s : MessageState) :
    counter (L.view rows) q s = Postgres.counter rows q s + delta q s := by
  rcases hheld : L.held (queue q) with _ | ⟨old, new⟩
  · rw [h.free q hheld s, add_zero]
    simp only [Postgres.counter, view_of_free hheld]
  · obtain ⟨r, r', rfl, rfl, -, hcount⟩ := h.held q old new hheld
    simp only [Postgres.counter, view_of_held hheld, hsees.base _ _ _ hheld]
    exact hcount s

/-- Only the counters of queues that exist change. -/
theorem Counted.metadata_ne {delta : String → MessageState → Int} (h : Counted L delta)
    (hsees : L.Sees setup.schema setup.Inv rows) {q : String} {s : MessageState}
    (hne : delta q s ≠ 0) : setup.metadata q ≠ none := by
  rcases hheld : L.held (queue q) with _ | ⟨old, new⟩
  · exact absurd (h.free q hheld s) hne
  · obtain ⟨r, r', rfl, -, -⟩ := h.held q old new hheld
    apply hsees.inv.metadata_ne
    simp [hsees.base _ _ _ hheld]

theorem KeepsQueues.metadata (h : KeepsQueues L)
    (hsees : L.Sees setup.schema setup.Inv rows) (q : String) :
    (L.view rows (queue q)).map (fun row : QueueRow => row.metadata) = setup.metadata q := by
  rw [← hsees.inv.queues q]
  rcases hheld : L.held (queue q) with _ | ⟨old, new⟩
  · rw [view_of_free hheld]
  · obtain ⟨r, r', rfl, rfl, hmeta⟩ := h q old new hheld
    rw [view_of_held hheld, hsees.base _ _ _ hheld]
    simp [hmeta]

/-- A moved row is in a queue that exists: its counter there has changed. -/
theorem metadata_of_counted {old new : MessageRow} (hcounted : Counted L (rowDelta old (some new)))
    (hsees : L.Sees setup.schema setup.Inv rows) (hold : setup.metadata old.queueName ≠ none) :
    setup.metadata new.queueName ≠ none := by
  by_cases hq : new.queueName = old.queueName
  · rw [hq]
    exact hold
  · apply hcounted.metadata_ne hsees (s := new.state)
    simp [rowDelta, hits, Ne.symm hq]

/-! ## Section 2: What becomes of a message -/

/-- What becomes of a message when a transaction commits with `reply`. -/
inductive MessageChange (reply : Reply) (i : Nat) (old : MessageRow) :
    Option MessageRow → Prop where
  | claimed (req : ClaimRequest) (runtime : LeaseRuntime) (updatedAt : Int)
      (hpending : old.state = .pending)
      (hreply :
        reply = .claimed (some (i, claimRow req.attempt req.worker runtime updatedAt old))) :
      MessageChange reply i old
        (some (claimRow req.attempt req.worker runtime updatedAt old))
  | transition (e : RowEvent) (new : MessageRow) (hevent : reply.event = some (i, e))
      (hrunning : old.state = .running) (ht : RowTransition old (some e) new) :
      MessageChange reply i old (some new)
  /-- A requeue does not look at the state of the row. -/
  | requeued (target : String) (attemptsLeft updatedAt : Int)
      (hevent : reply.event = some (i, .requeued)) :
      MessageChange reply i old (some (requeueRow target attemptsLeft updatedAt old))
  | deleted : MessageChange reply i old none

/-- **Message rule**: a commit leaves a message as it is and has no event for it, or changes its
row. -/
theorem Outcome.change {call : Call} {reply : Reply} (h : Outcome setup L call reply)
    (hsees : L.Sees setup.schema setup.Inv rows) (i : Nat) :
    ((∀ e, reply.event ≠ some (i, e)) ∧ L.view rows (message i) = rows (message i)) ∨
      ∃ old, rows (message i) = some old ∧
        MessageChange reply i old (L.view rows (message i)) := by
  -- What a call that works on row `j` leaves behind.
  have hone : ∀ {j : Nat} {old : MessageRow} {new : Option MessageRow}, Touched L j old new →
      (∀ k e, reply.event = some (k, e) → k = j) → MessageChange reply j old new →
      ((∀ e, reply.event ≠ some (i, e)) ∧
        L.view rows (message i) = rows (message i)) ∨
      ∃ old, rows (message i) = some old ∧
        MessageChange reply i old (L.view rows (message i)) := by
    intro j old new htouched hevent hchange
    by_cases hij : i = j
    · subst hij
      refine Or.inr ⟨old, htouched.base hsees, ?_⟩
      rw [htouched.view]
      exact hchange
    · exact Or.inl ⟨fun e he => hij (hevent i e he), htouched.view_ne hsees hij⟩
  cases h with
  | unclaimed req hmessages =>
    exact Or.inl ⟨fun e => by simp [Reply.event], hmessages.view hsees not_false⟩
  | claimed req j old runtime selectedAt updatedAt hclaim htouched =>
    apply hone htouched
    · intro k e he
      simp only [Reply.event, Option.some.injEq, Prod.mk.injEq] at he
      exact he.1.symm
    · exact .claimed req runtime updatedAt (claimable_iff.mp hclaim).state rfl
  | worked _ _ j old new e _ hevent ht hrunning htouched =>
    apply hone htouched
    · intro k e' he
      rw [hevent] at he
      cases he
      rfl
    · exact .transition e new hevent hrunning ht
  | removed _ _ j old e _ hevent _ _ htouched =>
    apply hone htouched
    · intro k e' he
      rw [hevent] at he
      cases he
      rfl
    · exact .deleted
  | requeued dlqName messageId target reset j old attemptsLeft updatedAt _ htouched =>
    apply hone htouched
    · intro k e he
      simp only [Reply.event, List.head?_cons, Option.map_some, Option.some.injEq,
        Prod.mk.injEq] at he
      exact he.1.symm
    · exact .requeued target attemptsLeft updatedAt rfl
  | missed _ _ _ _ hmessages =>
    exact Or.inl ⟨fun e => by simp [Reply.event], view_of_free (hmessages i)⟩
  | deleted queueName messageId j old _ htouched =>
    apply hone htouched
    · intro k e he
      cases he
    · exact .deleted
  | purged queueName limit ids _ hheld hothers =>
    by_cases hi : i ∈ ids
    · obtain ⟨old, -, -, hheld⟩ := hheld i hi
      refine Or.inr ⟨old, hsees.base _ _ _ hheld, ?_⟩
      rw [view_of_held hheld]
      exact .deleted
    · exact Or.inl ⟨fun e => by simp [Reply.event], hothers.view hsees hi⟩

theorem Outcome.keepsQueues {call : Call} {reply : Reply} (h : Outcome setup L call reply) :
    KeepsQueues L := by
  cases h with
  | missed _ _ _ _ _ hqueues => exact hqueues
  | unclaimed _ _ hcounted => exact hcounted.keepsQueues
  | claimed _ _ _ _ _ _ _ _ hcounted => exact hcounted.keepsQueues
  | worked _ _ _ _ _ _ _ _ _ _ _ hcounted => exact hcounted.keepsQueues
  | removed _ _ _ _ _ _ _ _ _ _ hcounted => exact hcounted.keepsQueues
  | requeued _ _ _ _ _ _ _ _ _ _ hcounted => exact hcounted.keepsQueues
  | deleted _ _ _ _ _ _ hcounted => exact hcounted.keepsQueues
  | purged _ _ _ _ _ _ hcounted => exact hcounted.keepsQueues

/-- A message stays in a queue that exists. -/
theorem Outcome.inQueue {call : Call} {reply : Reply} (h : Outcome setup L call reply)
    (hsees : L.Sees setup.schema setup.Inv rows) {i : Nat} {new : MessageRow}
    (hnew : L.view rows (message i) = some new) : setup.metadata new.queueName ≠ none := by
  have hkept : L.view rows (message i) = rows (message i) →
      setup.metadata new.queueName ≠ none := by
    intro hview
    rw [hview] at hnew
    exact hsees.inv.messages i new hnew
  -- The row the call works on, when its new version is the one in question.
  have hrow : ∀ {j : Nat} {old : MessageRow} {row : MessageRow}, Touched L j old (some row) →
      (setup.metadata old.queueName ≠ none → setup.metadata row.queueName ≠ none) →
      setup.metadata new.queueName ≠ none := by
    intro j old row htouched hqueue
    by_cases hij : i = j
    · subst hij
      rw [htouched.view] at hnew
      cases hnew
      exact hqueue (hsees.inv.messages i old (htouched.base hsees))
    · exact hkept (htouched.view_ne hsees hij)
  have hgone : ∀ {j : Nat} {old : MessageRow}, Touched L j old none →
      setup.metadata new.queueName ≠ none := by
    intro j old htouched
    by_cases hij : i = j
    · subst hij
      rw [htouched.view] at hnew
      cases hnew
    · exact hkept (htouched.view_ne hsees hij)
  cases h with
  | unclaimed _ hmessages => exact hkept (hmessages.view hsees not_false)
  | claimed _ _ _ _ _ _ _ htouched => exact hrow htouched id
  | worked _ _ _ _ _ _ _ _ _ _ htouched hcounted =>
    exact hrow htouched (metadata_of_counted hcounted hsees)
  | removed _ _ _ _ _ _ _ _ _ htouched => exact hgone htouched
  | requeued dlqName _ target _ _ _ _ _ _ htouched hcounted =>
    apply hrow htouched
    intro _
    apply hcounted.metadata_ne hsees (s := .pending)
    simp [hits, requeueRow]
  | missed _ _ _ _ hmessages => exact hkept (view_of_free (hmessages i))
  | deleted _ _ _ _ _ htouched => exact hgone htouched
  | purged _ _ ids _ hheld hothers =>
    by_cases hi : i ∈ ids
    · obtain ⟨old, -, -, hheld⟩ := hheld i hi
      rw [view_of_held hheld] at hnew
      cases hnew
    · exact hkept (hothers.view hsees hi)

/-- **Commits keep the database valid.** -/
theorem Outcome.inv {call : Call} {reply : Reply} (h : Outcome setup L call reply)
    (hsees : L.Sees setup.schema setup.Inv rows) : setup.Inv (L.view rows) := by
  refine ⟨h.keepsQueues.metadata hsees, fun i row hrow => h.inQueue hsees hrow, ?_⟩
  intro i hi
  rcases h.change hsees i with ⟨-, hkept⟩ | ⟨old, hold, -⟩
  · rw [hkept] at hi
    exact hsees.inv.ids i hi
  · apply hsees.inv.ids i
    simp [hold]

end Commits

/-! ## Section 3: Runs -/

namespace Setup

variable (setup : Setup)

/-- The server after the scheduler's choices. -/
def run (actions : List Action) : Server :=
  runFrom (World.step setup.schema) setup.start actions

/-- What a committing session has established. -/
def post (t : Nat) (reply : Reply) (L : Knowledge) : Prop :=
  Outcome setup L (setup.call t) reply

/-- The logic applies: rows, locks and sessions fit together, and commits have their outcomes. -/
abbrev Sound (w : Server) : Prop := World.Sound setup.schema setup.Inv setup.post w

theorem sound_start : setup.Sound setup.start := by
  apply World.Sound.start setup.unique setup.inv_rows
  intro t
  exact safe_program (setup.call t) fun _ => rfl

variable {setup}

theorem Sound.step {w : Server} (h : setup.Sound w) (a : Action) :
    setup.Sound (w.step setup.schema a) :=
  World.Sound.step h (fun _ _ _ _ hsees hpost => Outcome.inv hpost hsees) a

/-- **Run lemma**. -/
theorem sound_run (setup : Setup) (actions : List Action) : setup.Sound (setup.run actions) :=
  invariant_runFrom' _ setup.Sound (fun _ a h => Sound.step h a) setup.sound_start actions

/-- An invariant of runs whose steps meet a condition, on top of soundness. -/
theorem invariant_run (inv : Server → Prop) {cond : Server → Action → Prop}
    (hstep : ∀ w a, setup.Sound w → inv w → cond w a → inv (w.step setup.schema a))
    (hstart : inv setup.start) {actions : List Action}
    (h : Follows (World.step setup.schema) cond setup.start actions) :
    inv (setup.run actions) := by
  have hboth : setup.Sound (setup.run actions) ∧ inv (setup.run actions) := by
    apply invariant_runFrom _ (fun w => setup.Sound w ∧ inv w) _ _ h
    · intro w a hw ha
      exact ⟨Sound.step hw.1 a, hstep w a hw.1 hw.2 ha⟩
    · exact ⟨setup.sound_start, hstart⟩
  exact hboth.2

/-- An invariant of all runs, on top of soundness. -/
theorem invariant_run' (inv : Server → Prop)
    (hstep : ∀ w a, setup.Sound w → inv w → inv (w.step setup.schema a))
    (hstart : inv setup.start) (actions : List Action) : inv (setup.run actions) := by
  have hboth : setup.Sound (setup.run actions) ∧ inv (setup.run actions) := by
    apply invariant_runFrom' _ (fun w => setup.Sound w ∧ inv w)
    · intro w a hw
      exact ⟨Sound.step hw.1 a, hstep w a hw.1 hw.2⟩
    · exact ⟨setup.sound_start, hstart⟩
  exact hboth.2

end Setup

/-! ## Section 4: Databases given by their rows -/

/-- The rows listed. -/
def storeOf (messages : List (Nat × MessageRow)) (queues : List (String × QueueRow)) :
    Store Key Row
  | ⟨.messages, i⟩ => (messages.find? fun e => e.1 = i).map Prod.snd
  | ⟨.queues, q⟩ => (queues.find? fun e => e.1 = q).map Prod.snd

theorem mem_of_storeOf {messages : List (Nat × MessageRow)} {queues : List (String × QueueRow)}
    {i : Nat} {row : MessageRow} (h : storeOf messages queues (message i) = some row) :
    (i, row) ∈ messages := by
  have hfind : (messages.find? fun e => e.1 = i).map Prod.snd = some row := h
  rw [Option.map_eq_some_iff] at hfind
  obtain ⟨e, he, rfl⟩ := hfind
  have hi := List.find?_some he
  simp only [decide_eq_true_eq] at hi
  rw [← hi]
  exact List.mem_of_find?_eq_some he

/-- The database with the listed rows, and the calls of a run. -/
def Setup.ofRows (messages : List (Nat × MessageRow)) (queues : List (String × QueueRow))
    (clock : Int) (call : Nat → Call) (hids : (messages.map Prod.fst).Nodup)
    (hnames : (queues.map Prod.fst).Nodup)
    (hkeys : (messages.map fun e => e.2.uniqueKey).Nodup)
    (hqueues : ∀ e ∈ messages, e.2.queueName ∈ queues.map Prod.fst) : Setup where
  ids := messages.map Prod.fst
  names := queues.map Prod.fst
  ids_nodup := hids
  names_nodup := hnames
  rows := storeOf messages queues
  ids_complete := by
    intro i hi
    obtain ⟨row, hrow⟩ := Option.ne_none_iff_exists'.mp hi
    exact List.mem_map.mpr ⟨_, mem_of_storeOf hrow, rfl⟩
  names_complete := by
    intro q hq
    have hfind : (queues.find? fun e => e.1 = q).map Prod.snd ≠ none := hq
    obtain ⟨row, hrow⟩ := Option.ne_none_iff_exists'.mp hfind
    rw [Option.map_eq_some_iff] at hrow
    obtain ⟨e, he, -⟩ := hrow
    have hq := List.find?_some he
    simp only [decide_eq_true_eq] at hq
    exact List.mem_map.mpr ⟨e, List.mem_of_find?_eq_some he, hq⟩
  unique := by
    intro T x _ y _ hne a b ha hb
    cases T with
    | messages =>
      by_contra hclash
      have hkey : a.uniqueKey = b.uniqueKey := by
        simpa [Postgres.schema, clash] using hclash
      have heq := List.inj_on_of_nodup_map hkeys (mem_of_storeOf ha) (mem_of_storeOf hb) hkey
      exact hne (congrArg Prod.fst heq)
    | queues => rfl
  foreignKey := by
    intro i row hrow
    obtain ⟨e, he, hq⟩ := List.mem_map.mp (hqueues _ (mem_of_storeOf hrow))
    intro hnone
    have hfind : (queues.find? fun e => e.1 = row.queueName).map Prod.snd = none := hnone
    rw [Option.map_eq_none_iff, List.find?_eq_none] at hfind
    exact hfind e he (by simpa using hq)
  clock := clock
  call := call

end Nzovu.Postgres
