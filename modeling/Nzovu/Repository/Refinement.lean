import Nzovu.Foundation.LeaseQueue
import Nzovu.Repository.Conservation
import Nzovu.Repository.History

/-!
# The Storage System Is a Lease Queue

The abstract queue of `Foundation.LeaseQueue` says what the storage layer is for. Here the tables
are read as a state of that queue, every change of the database as acts on jobs, and so every run
of the system as a trace of the queue. What the queue guarantees of a job then holds of a message:
it stays settled once it is, and the leases given out are those that ended and those that run.

- Section 1: the phase of a message.
- Section 2: acts of one change.
- Section 3: acts of one operation and of a run.
- Section 4: what follows for messages.
-/

namespace Nzovu.Repository

open Nzovu.Foundation
open Nzovu.Foundation.LeaseQueue

/-! ## Section 1: Phases -/

/-- The attempt and the worker of a lease. -/
abbrev Holder := String × String

/-- Who holds a RUNNING row. -/
def MessageRow.holder (row : MessageRow) : Holder :=
  (row.currentAttemptId.getD "", row.currentWorkerId.getD "")

/-- The phase of a stored message. -/
def MessageRow.phase (row : MessageRow) : Phase Holder :=
  match row.state with
  | .invisible => .waiting
  | .pending => .ready
  | .running => .leased row.holder
  | .completed => .finished
  | .canceled => .withdrawn
  | .errored => .dead

/-- The phase of every message id: an id is gone when it was handed out and has no row. -/
def phases (db : Database) (i : Nat) : Phase Holder :=
  match db.messages.rows.find? fun e => e.1 = i with
  | some e => e.2.phase
  | none => if i < db.messages.nextId then .gone else .absent

section Phases

variable {db db' : Database} {i : Nat} {row : MessageRow}

theorem phases_of_mem (h : (i, row) ∈ db.messages.rows) : phases db i = row.phase := by
  unfold phases
  cases hfind : db.messages.rows.find? fun e => e.1 = i with
  | none =>
    have hnone := List.find?_eq_none.mp hfind _ h
    simp at hnone
  | some e =>
    have hid : e.1 = i := by simpa using List.find?_some hfind
    have heq := Table.eq_of_id (List.mem_of_find?_eq_some hfind) h hid
    rw [heq]

theorem find?_id_of_missing (h : ∀ row, (i, row) ∉ db.messages.rows) :
    (db.messages.rows.find? fun e => e.1 = i) = none := by
  refine List.find?_eq_none.mpr fun e he => ?_
  intro hid
  have hid : e.1 = i := by simpa using hid
  exact h e.2 (hid ▸ he)

theorem phases_of_missing (h : ∀ row, (i, row) ∉ db.messages.rows) :
    phases db i = if i < db.messages.nextId then .gone else .absent := by
  unfold phases
  rw [find?_id_of_missing h]

/-- The rows of an id and whether it was handed out decide its phase. -/
theorem phases_congr (hrows : ∀ row, (i, row) ∈ db'.messages.rows ↔ (i, row) ∈ db.messages.rows)
    (hused : i < db'.messages.nextId ↔ i < db.messages.nextId) : phases db' i = phases db i := by
  by_cases h : ∃ row, (i, row) ∈ db.messages.rows
  · obtain ⟨row, hrow⟩ := h
    rw [phases_of_mem hrow, phases_of_mem ((hrows row).mpr hrow)]
  · have hmissing : ∀ row, (i, row) ∉ db.messages.rows := by simpa using h
    rw [phases_of_missing hmissing, phases_of_missing fun row hrow => hmissing row
      ((hrows row).mp hrow), if_congr hused rfl rfl]

theorem phase_ne_absent (row : MessageRow) : row.phase ≠ .absent := by
  unfold MessageRow.phase
  split <;> simp

theorem phase_ne_gone (row : MessageRow) : row.phase ≠ .gone := by
  unfold MessageRow.phase
  split <;> simp

theorem phase_of_running (h : row.state = .running) : row.phase = .leased row.holder := by
  simp [MessageRow.phase, h]

theorem running_of_phase {lease : Holder} (h : row.phase = .leased lease) :
    row.state = .running := by
  unfold MessageRow.phase at h
  split at h <;> first | assumption | cases h

end Phases

/-! ## Section 2: The acts of a change -/

/-- The event of the storage layer that an act is. -/
def eventOf : Nat × Act Holder → Option (Nat × RowEvent)
  | (i, .deliver holder) => some (i, .claimed holder.1 holder.2)
  | (i, .renew _) => some (i, .renewed)
  | (i, .finish _) => some (i, .acknowledged)
  | (i, .reject _) => some (i, .rejected)
  | (i, .expire _) => some (i, .reclaimed)
  | (i, .revive) => some (i, .requeued)
  | (_, .post) | (_, .release) | (_, .withdraw) | (_, .discard) | (_, .evict _) => none

/-- A message that is evicted was RUNNING before and is gone afterwards, without an event. -/
def EvictsGone (acts : List (Nat × Act Holder)) (db db' : Database)
    (event : Option (Nat × RowEvent)) : Prop :=
  ∀ i holder, (i, .evict holder) ∈ acts →
    event = none ∧ (∃ row, (i, row) ∈ db.messages.rows ∧ row.state = .running) ∧ Gone db' i

/-- The acts of the queue between two databases. -/
structure Acted (db db' : Database) (event : Option (Nat × RowEvent))
    (acts : List (Nat × Act Holder)) : Prop where
  trace : Trace Step (phases db) acts (phases db')
  events : acts.filterMap eventOf = event.toList
  evicts : EvictsGone acts db db' event

/-- The act of a transition. -/
theorem RowTransition.moves {old new : MessageRow} {event : Option RowEvent}
    (h : RowTransition old event new) : ∃ act, Moves old.phase act new.phase ∧
      (∀ i, eventOf (i, act) = event.map fun e => (i, e)) ∧ ∀ holder, act ≠ .evict holder := by
  have hrunning : ∀ row : MessageRow, row.state = .running → row.phase = .leased row.holder :=
    fun _ => phase_of_running
  cases h with
  | claim req runtime nowMs h =>
    refine ⟨.deliver (req.attempt, req.worker), ?_, fun _ => rfl, by simp⟩
    have hold : old.phase = .ready := by simp [MessageRow.phase, h.state]
    rw [hold]
    exact .deliver _
  | complete nowMs deletedAt h =>
    rw [hrunning _ h]
    exact ⟨_, .finish _ (.inl rfl), fun _ => rfl, by simp⟩
  | retry nowMs h =>
    rw [hrunning _ h]
    exact ⟨_, .reject _ (.inl rfl), fun _ => rfl, by simp⟩
  | exhaust queueName nowMs deletedAt h =>
    rw [hrunning _ h]
    exact ⟨_, .reject _ (.inr (.inl rfl)), fun _ => rfl, by simp⟩
  | cancel nowMs deletedAt reason h =>
    refine ⟨.withdraw, .withdraw ?_, fun _ => rfl, by simp⟩
    exact h.imp (fun h => by simp [MessageRow.phase, h]) fun h => by simp [MessageRow.phase, h]
  | extend runtime nowMs h =>
    -- The holder of the row does not change, so it is the same lease.
    have hnew : (extendRow runtime nowMs old).phase = .leased old.holder :=
      hrunning (extendRow runtime nowMs old) h
    rw [hrunning _ h, hnew]
    exact ⟨_, .renew _, fun _ => rfl, by simp⟩
  | heartbeat nowMs heartbeatExpiry expiry used renewals h =>
    have hnew : (heartbeatRow nowMs heartbeatExpiry expiry used renewals old).phase =
        .leased old.holder :=
      hrunning (heartbeatRow nowMs heartbeatExpiry expiry used renewals old) h
    rw [hrunning _ h, hnew]
    exact ⟨_, .renew _, fun _ => rfl, by simp⟩
  | reclaim queueName completedAt deletedAt nowMs h =>
    rw [hrunning _ h]
    refine ⟨_, .expire _ ?_, fun _ => rfl, by simp⟩
    rcases reclaimState_cases old with hs | hs
    · exact .inl (by simp [MessageRow.phase, hs])
    · exact .inr (.inl (by simp [MessageRow.phase, hs]))
  | requeue targetQueueName resetRetries nowMs h =>
    refine ⟨.revive, ?_, fun _ => rfl, by simp⟩
    have hold : old.phase = .dead := by simp [MessageRow.phase, h]
    rw [hold]
    exact .revive
  | activate nowMs h =>
    refine ⟨.release, ?_, fun _ => rfl, by simp⟩
    have hold : old.phase = .waiting := by simp [MessageRow.phase, h]
    rw [hold]
    exact .release

/-- The act of a deletion. -/
theorem RowDeletion.moves {old : MessageRow} {event : Option RowEvent}
    (h : RowDeletion old event) : ∃ act, Moves old.phase act .gone ∧
      (∀ i, eventOf (i, act) = event.map fun e => (i, e)) ∧
      ∀ holder, act = .evict holder → old.state = .running := by
  have hremoval : ∃ act, Moves old.phase act .gone ∧
      (∀ i, eventOf (i, act) = none) ∧ ∀ holder, act = .evict holder → old.state = .running := by
    refine ⟨old.phase.removal, moves_removal (phase_ne_absent old) (phase_ne_gone old), ?_,
      fun holder hact => running_of_phase (eq_leased_of_removal hact)⟩
    intro i
    cases old.phase <;> rfl
  cases h with
  | acknowledged h =>
    rw [phase_of_running h]
    exact ⟨_, .finish _ (.inr rfl), fun _ => rfl, fun _ hact => by cases hact⟩
  | rejected h =>
    rw [phase_of_running h]
    exact ⟨_, .reject _ (.inr (.inr rfl)), fun _ => rfl, fun _ hact => by cases hact⟩
  | reclaimed h =>
    rw [phase_of_running h]
    exact ⟨_, .expire _ (.inr (.inr rfl)), fun _ => rfl, fun _ hact => by cases hact⟩
  | canceled => exact hremoval
  | deleted => exact hremoval

section Change

variable {adds : Additions} {db db' : Database} {event : Option (Nat × RowEvent)}

/-- One act that moves the row of an id. -/
theorem acted_single {i : Nat} {act : Act Holder} (hmoves : Moves (phases db i) act (phases db' i))
    (hothers : ∀ j, j ≠ i → phases db' j = phases db j)
    (hevent : eventOf (i, act) = event)
    (hevicts : EvictsGone [(i, act)] db db' event) : Acted db db' event [(i, act)] where
  trace := .single ⟨hmoves, hothers⟩
  events := by
    subst hevent
    cases h : eventOf (i, act) <;> simp [h]
  evicts := hevicts

theorem acted_inserted {row : MessageRow} (h : RowInserted db db' row)
    (hposted : row.state = .invisible ∨ row.state = .pending) :
    Acted db db' none [(db.messages.nextId, .post)] := by
  have hfresh : ∀ old, (db.messages.nextId, old) ∉ db.messages.rows := fun old hold =>
    Nat.lt_irrefl _ (db.messages.id_lt _ hold)
  have hnew : (db.messages.nextId, row) ∈ db'.messages.rows := by
    rw [h.rows]
    exact List.mem_append_right _ List.mem_cons_self
  apply acted_single
  · rw [phases_of_missing hfresh, if_neg (Nat.lt_irrefl _), phases_of_mem hnew]
    apply Moves.post
    exact hposted.imp (fun h => by simp [MessageRow.phase, h]) fun h => by
      simp [MessageRow.phase, h]
  · intro j hj
    apply phases_congr
    · intro old
      rw [h.rows]
      simp [hj]
    · rw [h.nextId]
      omega
  · rfl
  · intro i holder hact
    simp at hact

theorem acted_updated {i : Nat} {old new : MessageRow} {e : Option RowEvent}
    (h : RowUpdated db db' i old new) (ht : RowTransition old e new) :
    ∃ acts, Acted db db' (e.map fun e => (i, e)) acts := by
  obtain ⟨act, hmoves, hevent, hnot⟩ := ht.moves
  have hnew : (i, new) ∈ db'.messages.rows := by
    rw [h.rows]
    exact Table.mem_setRow.mpr (.inr ⟨rfl, _, h.mem, rfl⟩)
  refine ⟨_, acted_single ?_ (fun j hj => ?_) (hevent i) fun j holder hact => ?_⟩
  · rw [phases_of_mem h.mem, phases_of_mem hnew]
    exact hmoves
  · apply phases_congr
    · intro row
      rw [h.rows, Table.mem_setRow]
      simp [hj]
    · rw [h.nextId]
  · simp only [List.mem_singleton, Prod.mk.injEq] at hact
    exact absurd hact.2.symm (hnot holder)

theorem RowDeleted.gone {i : Nat} {old : MessageRow} (h : RowDeleted db db' i old) :
    Gone db' i := by
  refine ⟨?_, fun row hrow => ?_⟩
  · rw [h.nextId]
    exact db.messages.id_lt _ h.mem
  · rw [h.rows] at hrow
    exact (Table.mem_dropRow.mp hrow).2 rfl

theorem Gone.phases {i : Nat} (h : Gone db i) : phases db i = .gone := by
  rw [phases_of_missing h.missing, if_pos h.used]

theorem acted_deleted {i : Nat} {old : MessageRow} {e : Option RowEvent}
    (h : RowDeleted db db' i old) (ht : RowDeletion old e) :
    ∃ acts, Acted db db' (e.map fun e => (i, e)) acts := by
  obtain ⟨act, hmoves, hevent, hrunning⟩ := ht.moves
  refine ⟨_, acted_single ?_ (fun j hj => ?_) (hevent i) fun j holder hact => ?_⟩
  · rw [phases_of_mem h.mem, h.gone.phases]
    exact hmoves
  · apply phases_congr
    · intro row
      rw [h.rows, Table.mem_dropRow]
      simp [hj]
    · rw [h.nextId]
  · simp only [List.mem_singleton, Prod.mk.injEq] at hact
    obtain ⟨rfl, rfl⟩ := hact
    exact ⟨(hevent j).symm, ⟨old, h.mem, hrunning holder rfl⟩, h.gone⟩

/-- Deleting rows removes their jobs one after the other. -/
theorem acted_filtered {p : Nat × MessageRow → Bool}
    (hrows : db'.messages.rows = db.messages.rows.filter fun e => !p e)
    (hnext : db'.messages.nextId = db.messages.nextId) : ∃ acts, Acted db db' none acts := by
  let ids := (db.messages.rows.filter p).map Prod.fst
  have hmem : ∀ i, i ∈ ids ↔ ∃ row, (i, row) ∈ db.messages.rows ∧ p (i, row) = true := by
    intro i
    simp [ids]
  have hnodup : ids.Nodup := by
    have hall : (db.messages.rows.map Prod.fst).Nodup :=
      db.messages.ids_sorted.imp fun h => Nat.ne_of_lt h
    exact hall.sublist (List.filter_sublist.map Prod.fst)
  have hgone : ∀ i ∈ ids, Gone db' i := by
    intro i hi
    obtain ⟨row, hrow, hp⟩ := (hmem i).mp hi
    refine ⟨hnext ▸ db.messages.id_lt _ hrow, fun row' hrow' => ?_⟩
    rw [hrows] at hrow'
    obtain ⟨hrow', hnot⟩ := List.mem_filter.mp hrow'
    rw [Table.eq_of_id hrow' hrow rfl, hp] at hnot
    cases hnot
  have htrace := trace_removals hnodup (phases db) fun i hi => by
    obtain ⟨row, hrow, -⟩ := (hmem i).mp hi
    rw [phases_of_mem hrow]
    exact ⟨phase_ne_absent row, phase_ne_gone row⟩
  have hend : (fun i => if i ∈ ids then .gone else phases db i) = phases db' := by
    funext i
    by_cases hi : i ∈ ids
    · rw [if_pos hi, (hgone i hi).phases]
    · rw [if_neg hi]
      refine (phases_congr (fun row => ?_) (by rw [hnext])).symm
      rw [hrows, List.mem_filter]
      refine ⟨fun h => h.1, fun h => ⟨h, ?_⟩⟩
      have hp : ¬ p (i, row) = true := fun hp => hi ((hmem i).mpr ⟨row, h, hp⟩)
      simpa using hp
  rw [hend] at htrace
  refine ⟨_, htrace, ?_, fun i holder hact => ?_⟩
  · refine List.filterMap_eq_nil_iff.mpr fun a ha => ?_
    obtain ⟨i, -, rfl⟩ := List.mem_map.mp ha
    show eventOf (i, (phases db i).removal) = none
    cases phases db i <;> rfl
  · obtain ⟨j, hj, heq⟩ := List.mem_map.mp hact
    simp only [Prod.mk.injEq] at heq
    obtain ⟨rfl, heq⟩ := heq
    obtain ⟨row, hrow, -⟩ := (hmem j).mp hj
    rw [phases_of_mem hrow] at heq
    exact ⟨rfl, ⟨row, hrow, running_of_phase (eq_leased_of_removal heq)⟩, hgone j hj⟩

/-- **Change lemma**: every change is made of acts of the queue, with its event. -/
theorem Change.acted (h : Change adds db db' event)
    (hposts : ∀ m, adds.message m → m.state = .invisible ∨ m.state = .pending) :
    ∃ acts, Acted db db' event acts := by
  have hsame : ∀ {db' : Database}, db'.messages = db.messages → ∃ acts, Acted db db' none acts := by
    intro db' hmessages
    refine ⟨[], ?_, rfl, fun _ _ hact => absurd hact List.not_mem_nil⟩
    have hphases : phases db' = phases db := by
      funext i
      apply phases_congr <;> simp [hmessages]
    rw [hphases]
    exact .nil _
  cases h with
  | unchanged h => exact hsame (by rw [h])
  | inserted _ _ metadata _ _ _ hnew h => exact ⟨_, acted_inserted h (hposts metadata hnew)⟩
  | updated i old new e h ht => exact acted_updated h ht
  | deleted i old e h ht => exact acted_deleted h ht
  | removed p h => exact acted_filtered h.rows h.nextId
  | queueInserted queue _ _ _ hmessages => exact hsame hmessages
  | queueDeleted name _ h =>
    subst h
    exact acted_filtered (p := fun e => e.2.queueName = name) rfl rfl

end Change

/-! ## Section 3: The acts of a run -/

section Runs

variable {adds : Additions} {db db₁ db' : Database}

/-- A row that is RUNNING after a change without an event was RUNNING before. -/
theorem running_of_change {i : Nat} {row : MessageRow} (h : Change adds db db' none)
    (hposts : ∀ m, adds.message m → m.state = .invisible ∨ m.state = .pending)
    (hrow : (i, row) ∈ db'.messages.rows) (hrunning : row.state = .running) :
    (i, row) ∈ db.messages.rows := by
  have hunleased : Unleased none := fun _ he => absurd he (by simp)
  rcases h.running_origin hunleased hrow hrunning with hold | ⟨_, _, metadata, _, _, _, hnew, rfl⟩
  · exact hold
  · rcases hposts metadata hnew with hs | hs <;>
      exact absurd (hs.symm.trans hrunning) (by simp)

theorem Acted.trans {acts acts' : List (Nat × Act Holder)} (h : Acted db db₁ none acts)
    (h' : Acted db₁ db' none acts') (hgone : ∀ i, Gone db₁ i → Gone db' i)
    (hrunning : ∀ i row, (i, row) ∈ db₁.messages.rows → row.state = .running →
      (i, row) ∈ db.messages.rows) : Acted db db' none (acts ++ acts') where
  trace := h.trace.append h'.trace
  events := by
    rw [List.filterMap_append, h.events, h'.events]
    rfl
  evicts := by
    intro i holder hact
    rcases List.mem_append.mp hact with hact | hact
    · obtain ⟨-, hrow, hi⟩ := h.evicts i holder hact
      exact ⟨rfl, hrow, hgone i hi⟩
    · obtain ⟨-, ⟨row, hrow, hstate⟩, hi⟩ := h'.evicts i holder hact
      exact ⟨rfl, ⟨row, hrunning i row hrow hstate, hstate⟩, hi⟩

theorem Changes.acted {event : Option (Nat × RowEvent)} (h : Changes adds db db' event)
    (hposts : ∀ m, adds.message m → m.state = .invisible ∨ m.state = .pending) :
    ∃ acts, Acted db db' event acts := by
  induction h with
  | refl db => exact ⟨[], .nil _, rfl, fun _ _ hact => absurd hact List.not_mem_nil⟩
  | single hchange => exact hchange.acted hposts
  | step hchange hrest ih =>
    obtain ⟨acts, hacts⟩ := hchange.acted hposts
    obtain ⟨acts', hacts'⟩ := ih
    refine ⟨acts ++ acts', hacts.trans hacts' (fun i hi => ?_) fun i row hrow hstate => ?_⟩
    · exact hrest.preserves' (P := fun db => Gone db i) (fun _ _ _ => Gone.change) hi
    · exact running_of_change hchange hposts hrow hstate

/-- An operation that deletes a RUNNING row has an event, or deletes the row's queue. -/
theorem deleteQueue_of_disposes {s : System} {op : Operation} {i : Nat} {row : MessageRow}
    (hrunning : RunningRows s.db) (hrow : (i, row) ∈ s.db.messages.rows)
    (hstate : row.state = .running) (hgone : ∀ row', (i, row') ∉ (s.step op).db.messages.rows)
    (hdisposes : Disposes s.db row op) (hevent : s.event op = none) :
    ∃ name, op = .deleteQueue name := by
  -- A committed transaction on the row it has found has an event.
  have htouched : ∀ {r : Except StorageError Database} {p : MessageRow → Bool} {e : RowEvent},
      p row = true → (∀ row', (i, row') ∉ (s.commit r).db.messages.rows) →
      s.touched r p e ≠ none := by
    intro r p e hp hgone hnone
    obtain ⟨db', rfl, -⟩ := committed_of_gone hrow hgone
    have hnone := Option.map_eq_none_iff.mp hnone
    exact List.find?_eq_none.mp hnone _ hrow hp
  cases hdisposes with
  | acknowledged clock queueName messageId attemptId workerId howns =>
    exact absurd hevent (htouched (owned_iff.mpr howns) hgone)
  | rejected clock queueName messageId attemptId workerId howns =>
    exact absurd hevent (htouched (owned_iff.mpr howns) hgone)
  | canceled _ _ _ _ _ hwaiting => rcases hwaiting with h | h <;> rw [hstate] at h <;> cases h
  | reclaimed clock queueName message hexpired =>
    obtain ⟨db', result, hok, -⟩ := committed_of_gone_map hrow hgone
    simp only [System.event, System.touched, hok] at hevent
    have hnone := Option.map_eq_none_iff.mp hevent
    exact absurd (reclaimable_iff.mpr hexpired) (List.find?_eq_none.mp hnone _ hrow)
  | deadLetter _ _ _ herrored => exact absurd (hstate.symm.trans herrored) (by simp)
  | purged _ _ herrored => exact absurd (hstate.symm.trans herrored) (by simp)
  | cleaned _ _ hdue =>
    rw [(hrunning _ hrow hstate).1] at hdue
    cases hdue
  | queueDeleted name => exact ⟨name, rfl⟩

/-- **Step lemma**: an operation is a sequence of acts, and only a queue deletion evicts. -/
theorem acted_step {s : System} (hwf : WellFormed s) (hrunning : RunningRows s.db)
    {op : Operation} (hposts : op.PostsWaiting) :
    ∃ acts, Acted s.db (s.step op).db (s.event op) acts ∧
      ∀ i holder, (i, .evict holder) ∈ acts → ∃ name, op = .deleteQueue name := by
  obtain ⟨acts, hacts⟩ := (step_changes hwf op).acted fun m => hposts.additions
  refine ⟨acts, hacts, fun i holder hact => ?_⟩
  obtain ⟨hevent, ⟨row, hrow, hstate⟩, hgone⟩ := hacts.evicts i holder hact
  exact deleteQueue_of_disposes hrunning hrow hstate hgone.missing
    (disposes_of_gone hwf op hrow hgone.missing) hevent

/-- The acts of a run between two histories, in order. -/
structure Played (h h' : History) (ops : List Operation) (acts : List (Nat × Act Holder)) :
    Prop where
  trace : Trace Step (phases h.system.db) acts (phases h'.system.db)
  log : h'.log = (acts.filterMap eventOf).reverse ++ h.log
  evicts : ∀ i holder, (i, .evict holder) ∈ acts → ∃ name, .deleteQueue name ∈ ops

/-- **Run lemma**: from a well-formed state on, every run is a trace of the queue. -/
theorem played_runFrom {h : History} (hwf : WellFormed h.system) (hrunning : RunningRows h.system.db)
    {ops : List Operation} (hposts : ∀ op ∈ ops, op.PostsWaiting) :
    ∃ acts, Played h (runFrom History.step h ops) ops acts := by
  induction ops generalizing h with
  | nil => exact ⟨[], .nil _, rfl, fun _ _ hact => absurd hact List.not_mem_nil⟩
  | cons op ops ih =>
    obtain ⟨acts, hacts, hevicts⟩ := acted_step hwf hrunning (hposts op List.mem_cons_self)
    have hrunning' : RunningRows (h.step op).system.db :=
      (step_changes hwf op).preserves' (fun _ _ _ => RunningRows.change) hrunning
    obtain ⟨later, hlater⟩ := ih (h := h.step op) (hwf.step op) hrunning' fun op' hop =>
      hposts op' (List.mem_cons_of_mem op hop)
    refine ⟨acts ++ later, hacts.trace.append hlater.trace, ?_, fun i holder hact => ?_⟩
    · have hstep : (h.step op).log = (h.system.event op).toList ++ h.log := rfl
      rw [runFrom_cons, hlater.log, hstep, List.filterMap_append, hacts.events,
        List.reverse_append, List.append_assoc]
      cases h.system.event op <;> rfl
    · rcases List.mem_append.mp hact with hact | hact
      · obtain ⟨name, hname⟩ := hevicts i holder hact
        exact ⟨name, hname ▸ List.mem_cons_self⟩
      · obtain ⟨name, hname⟩ := hlater.evicts i holder hact
        exact ⟨name, List.mem_cons_of_mem op hname⟩

theorem system_run (ops : List Operation) : (History.run ops).system = System.run ops :=
  system_runFrom History.empty ops

/-- A run on a new installation, and its continuation. -/
theorem played_run (ops : List Operation) {later : List Operation}
    (hposts : ∀ op ∈ ops ++ later, op.PostsWaiting) :
    ∃ acts, Played (History.run ops) (History.run (ops ++ later)) later acts := by
  have happend : History.run (ops ++ later) = runFrom History.step (History.run ops) later :=
    runFrom_append History.step History.empty ops later
  rw [happend]
  apply played_runFrom
  · rw [system_run]
    exact wellFormed_run ops
  · rw [system_run]
    exact runningRows_run ops
  · exact fun op hop => hposts op (List.mem_append_right ops hop)

end Runs

/-! ## Section 4: What follows for messages -/

/-- **Refinement**: every run of the storage system is a trace of the lease queue. The trace begins
with no job posted, its deliveries, renewals and endings are the events of the run in their order,
and a lease is lost with its job only when a queue is deleted. -/
theorem refines_leaseQueue (ops : List Operation) (hposts : ∀ op ∈ ops, op.PostsWaiting) :
    ∃ acts : List (Nat × Act Holder),
      Trace Step (phases .empty) acts (phases (System.run ops).db) ∧
      acts.filterMap eventOf = (History.run ops).log.reverse ∧
      ∀ i holder, (i, .evict holder) ∈ acts → ∃ name, .deleteQueue name ∈ ops := by
  obtain ⟨acts, hacts⟩ := played_run [] hposts
  refine ⟨acts, ?_, ?_, hacts.evicts⟩
  · rw [← system_run]
    exact hacts.trace
  · have hlog : (History.run ops).log = (acts.filterMap eventOf).reverse ++ [] := hacts.log
    rw [hlog, List.append_nil, List.reverse_reverse]

/-- A message that fails its only attempt is moved to the dead letter queue. -/
def failedOnce : List Operation := onlyAttempt ++ [.nack (fun _ => 20) "jobs" "m" "a" "w"]

/-- The same message, requeued and claimed by a second worker. -/
def claimedAgain : List Operation :=
  failedOnce ++ [.retryDLQ (fun _ => 30) "jobs_dlq" "m" "jobs" false,
    .claim (fun _ => 40) ⟨"jobs", "w", "b", "", 0, 0, "g", "", generatedAttemptId_ne⟩]

theorem postsWaiting_failedOnce : ∀ op ∈ failedOnce, op.PostsWaiting := by
  simp [failedOnce, onlyAttempt, Operation.PostsWaiting]

/-- In that run the queue delivers the job once and gets it back. -/
theorem refines_leaseQueue_failedOnce :
    ∃ acts : List (Nat × Act Holder),
      Trace Step (phases .empty) acts (phases (System.run failedOnce).db) ∧
      acts.filterMap eventOf = [(1, .claimed "a" "w"), (1, .rejected)] ∧
      ∀ i holder, (i, .evict holder) ∉ acts := by
  obtain ⟨acts, htrace, hevents, hevicts⟩ :=
    refines_leaseQueue failedOnce postsWaiting_failedOnce
  refine ⟨acts, htrace, ?_, fun i holder hact => ?_⟩
  · rw [hevents]
    decide
  · obtain ⟨name, hname⟩ := hevicts i holder hact
    simp [failedOnce, onlyAttempt] at hname

theorem state_of_phase {row row' : MessageRow} (h : row'.phase = row.phase) :
    row'.state = row.state := by
  unfold MessageRow.phase at h
  cases hs : row.state <;> cases hs' : row'.state <;> simp [hs, hs'] at h ⊢

/-- An event of a message is an act on it. -/
theorem mem_actsOn_of_event {acts : List (Nat × Act Holder)} {i : Nat} {e : RowEvent}
    (h : (i, e) ∈ acts.filterMap eventOf) :
    ∃ act ∈ actsOn i acts, eventOf (i, act) = some (i, e) := by
  obtain ⟨⟨j, act⟩, hact, hevent⟩ := List.mem_filterMap.mp h
  have hid : j = i := by
    cases act <;> simp [eventOf] at hevent <;> exact hevent.1
  subst hid
  exact ⟨act, mem_actsOn.mpr hact, hevent⟩

/-- **Settled messages**: a COMPLETED or CANCELED message has no further event and never changes
its state, and an ERRORED one leaves that state through a requeue only. -/
theorem settled_stays (ops later : List Operation)
    (hposts : ∀ op ∈ ops ++ later, op.PostsWaiting) {i : Nat} {row : MessageRow}
    (hrow : (i, row) ∈ (System.run ops).db.messages.rows) :
    ∃ events, (History.run (ops ++ later)).log = events ++ (History.run ops).log ∧
      (row.state = .completed ∨ row.state = .canceled → (∀ e, (i, e) ∉ events) ∧
        ∀ row', (i, row') ∈ (System.run (ops ++ later)).db.messages.rows →
          row'.state = row.state) ∧
      (row.state = .errored →
        ∀ row', (i, row') ∈ (System.run (ops ++ later)).db.messages.rows →
          row'.state = .errored ∨ (i, .requeued) ∈ events) := by
  obtain ⟨acts, hacts⟩ := played_run _ hposts
  have htrace := trace_actsOn hacts.trace i
  rw [system_run, system_run, phases_of_mem hrow] at htrace
  refine ⟨_, hacts.log, fun hsettled => ?_, fun herrored row' hrow' => ?_⟩
  · have hphase : row.phase.Settled := by
      rcases hsettled with h | h
      · exact .inl (by simp [MessageRow.phase, h])
      · exact .inr (.inl (by simp [MessageRow.phase, h]))
    obtain ⟨hend, hdiscards⟩ := settled_of_trace htrace hphase
    refine ⟨fun e he => ?_, fun row' hrow' => ?_⟩
    · obtain ⟨act, hact, hevent⟩ := mem_actsOn_of_event (List.mem_reverse.mp he)
      rw [hdiscards act hact] at hevent
      cases hevent
    · rw [phases_of_mem hrow'] at hend
      exact state_of_phase (hend.resolve_right (phase_ne_gone row'))
  · have hdead : row.phase = .dead := by simp [MessageRow.phase, herrored]
    rw [hdead, phases_of_mem hrow'] at htrace
    rcases dead_of_trace htrace with hend | hrevived | hend
    · exact .inl ((state_of_phase (hend.trans hdead.symm)).trans herrored)
    · right
      exact List.mem_reverse.mpr (List.mem_filterMap.mpr ⟨(i, .revive), mem_actsOn.mp hrevived, rfl⟩)
    · exact absurd hend (phase_ne_gone row')

/-- The dead message leaves the dead letter queue by a requeue. -/
theorem settled_stays_failedOnce :
    ∃ events, (History.run (failedOnce ++
        [.retryDLQ (fun _ => 30) "jobs_dlq" "m" "jobs" false])).log =
        events ++ (History.run failedOnce).log ∧ (1, .requeued) ∈ events := by
  have hposts : ∀ op ∈ failedOnce ++ [.retryDLQ (fun _ => 30) "jobs_dlq" "m" "jobs" false],
      op.PostsWaiting := by
    simp [failedOnce, onlyAttempt, Operation.PostsWaiting]
  have hrow : (1, exhaustRow "jobs_dlq" 0 20 none onlyAttemptRow) ∈
      (System.run failedOnce).db.messages.rows := by decide
  obtain ⟨events, hlog, -, hdead⟩ := settled_stays failedOnce _ hposts hrow
  refine ⟨events, hlog, ?_⟩
  have hrow' : (1, requeueRow "jobs" 0 30 (exhaustRow "jobs_dlq" 0 20 none onlyAttemptRow)) ∈
      (System.run (failedOnce ++
        [.retryDLQ (fun _ => 30) "jobs_dlq" "m" "jobs" false])).db.messages.rows := by decide
  exact (hdead rfl _ hrow').resolve_left (by decide)

/-- The event gives out a lease. -/
def RowEvent.isClaim : RowEvent → Bool
  | .claimed _ _ => true
  | _ => false

/-- The event ends a lease. -/
def RowEvent.endsLease : RowEvent → Bool
  | .acknowledged | .rejected | .reclaimed => true
  | _ => false

/-- Counting events of a message is counting acts on it. -/
theorem countP_events {acts : List (Nat × Act Holder)} {p : RowEvent → Bool}
    {q : Act Holder → Bool} (i : Nat)
    (hpq : ∀ j act, (j, act) ∈ acts → q act = ((eventOf (j, act)).map fun e => p e.2).getD false) :
    (acts.filterMap eventOf).countP (fun e => e.1 = i && p e.2) = (actsOn i acts).countP q := by
  unfold actsOn
  rw [List.countP_filterMap, List.countP_filterMap]
  refine List.countP_congr fun a ha => ?_
  obtain ⟨j, act⟩ := a
  have hact := hpq j act ha
  by_cases hj : j = i <;> cases act <;> simp [eventOf, hj] at hact ⊢ <;> simp [hact]

theorem countP_claims (acts : List (Nat × Act Holder)) (i : Nat) :
    (acts.filterMap eventOf).countP (fun e => e.1 = i && e.2.isClaim) =
      (actsOn i acts).countP Act.isDelivery := by
  refine countP_events i fun j act _ => ?_
  cases act <;> rfl

/-- Without evictions every lease ends with an event. -/
theorem countP_ends {acts : List (Nat × Act Holder)}
    (hevicts : ∀ i holder, (i, .evict holder) ∉ acts) (i : Nat) :
    (acts.filterMap eventOf).countP (fun e => e.1 = i && e.2.endsLease) =
      (actsOn i acts).countP Act.endsLease := by
  refine countP_events i fun j act hact => ?_
  cases act with
  | evict holder => exact absurd hact (hevicts j holder)
  | _ => rfl

/-- The lease of a stored message, counted by its rows. -/
theorem leases_phases (db : Database) (i : Nat) :
    (phases db i).leases =
      db.messages.rows.countP fun e => e.1 = i && e.2.state = .running := by
  by_cases h : ∃ row, (i, row) ∈ db.messages.rows
  · obtain ⟨row, hrow⟩ := h
    have hids : (db.messages.rows.map Prod.fst).Nodup :=
      db.messages.ids_sorted.imp fun h => Nat.ne_of_lt h
    have hcongr : ∀ e ∈ db.messages.rows, (decide (e.1 = i) && decide (e.2.state = .running)) =
        (decide (row.state = .running) && decide (e = (i, row))) := by
      intro e he
      by_cases hid : e.1 = i
      · have heq := Table.eq_of_id he hrow hid
        simp [heq]
      · have hne : e ≠ (i, row) := fun heq => hid (by rw [heq])
        simp [hid, hne]
    rw [phases_of_mem hrow, List.countP_congr fun e he => by rw [hcongr e he]]
    by_cases hrunning : row.state = .running
    · have hone := List.count_eq_one_of_mem hids.of_map hrow
      have hcount : (db.messages.rows.countP fun e => decide (e = (i, row))) = 1 := by
        rw [← hone, List.count]
        exact List.countP_congr fun e _ => by simp
      simp [phase_of_running hrunning, Phase.leases, hrunning, hcount]
    · have hfree : ∀ holder, row.phase ≠ .leased holder :=
        fun holder hphase => hrunning (running_of_phase hphase)
      cases hphase : row.phase with
      | leased holder => exact absurd hphase (hfree holder)
      | _ => simp [Phase.leases, hrunning]
  · have hmissing : ∀ row, (i, row) ∉ db.messages.rows := by simpa using h
    have hzero : (db.messages.rows.countP fun e => e.1 = i && e.2.state = .running) = 0 := by
      refine List.countP_eq_zero.mpr fun e he hp => ?_
      simp only [Bool.and_eq_true, decide_eq_true_eq] at hp
      exact hmissing e.2 (hp.1 ▸ he)
    rw [hzero, phases_of_missing hmissing]
    split <;> rfl

theorem logBounded_run (ops : List Operation) :
    LogBounded (History.run ops).log (System.run ops).db := by
  have hfollows : Follows History.step (fun _ _ => True) .empty ops :=
    follows_of_forall History.step (fun _ _ => trivial) _ ops
  have hrun := invariant_history (P := fun h => LogBounded h.log h.system.db)
    (fun _ he => absurd he List.not_mem_nil)
    (fun h op hwf _ hlog _ => (step_changes hwf op).preserves (P := LogBounded)
      (fun _ _ _ _ => LogBounded.change) hlog) hfollows
  rw [← system_run]
  exact hrun

/-- The leases of one message: those given out are those that ended and the one that runs. -/
theorem leases_of_message {ops : List Operation} (hposts : ∀ op ∈ ops, op.PostsWaiting)
    (hqueues : ∀ name, .deleteQueue name ∉ ops) (i : Nat) :
    (History.run ops).log.countP (fun e => e.1 = i && e.2.isClaim) =
      (History.run ops).log.countP (fun e => e.1 = i && e.2.endsLease) +
        (System.run ops).db.messages.rows.countP fun e => e.1 = i && e.2.state = .running := by
  obtain ⟨acts, hacts⟩ := played_run [] hposts
  have hlog : (History.run ops).log = (acts.filterMap eventOf).reverse ++ [] := hacts.log
  have hevicts : ∀ i holder, (i, .evict holder) ∉ acts := by
    intro i holder hact
    obtain ⟨name, hname⟩ := hacts.evicts i holder hact
    exact hqueues name hname
  have hstart : (phases (History.run []).system.db i).leases = 0 := by
    show (phases Database.empty i).leases = 0
    rw [leases_phases]
    rfl
  have hbalance := balance_of_trace (trace_actsOn hacts.trace i)
  rw [hstart, zero_add, ← countP_claims, ← countP_ends hevicts, List.nil_append, system_run,
    leases_phases] at hbalance
  rw [hlog, List.append_nil, List.countP_reverse, List.countP_reverse]
  exact hbalance

/-- **Balance of leases**: in every run that deletes no queue, the claims of a message are its
acknowledgements, rejections and reclaims, and one more exactly while it is RUNNING; and so all
claims together are all leases that ended and the messages that are RUNNING. -/
theorem leases_balance (ops : List Operation) (hposts : ∀ op ∈ ops, op.PostsWaiting)
    (hqueues : ∀ name, .deleteQueue name ∉ ops) :
    (∀ i, (History.run ops).log.countP (fun e => e.1 = i && e.2.isClaim) =
      (History.run ops).log.countP (fun e => e.1 = i && e.2.endsLease) +
        (System.run ops).db.messages.rows.countP fun e => e.1 = i && e.2.state = .running) ∧
    (History.run ops).log.countP (fun e => e.2.isClaim) =
      (History.run ops).log.countP (fun e => e.2.endsLease) +
        (System.run ops).db.messages.rows.countP fun e => e.2.state = .running := by
  have hone := leases_of_message hposts hqueues
  refine ⟨hone, ?_⟩
  have hlog : ∀ e ∈ (History.run ops).log, e.1 < (System.run ops).db.messages.nextId :=
    logBounded_run ops
  rw [countP_eq_sum hlog RowEvent.isClaim, countP_eq_sum hlog RowEvent.endsLease,
    countP_eq_sum (System.run ops).db.messages.id_lt fun row => row.state = .running,
    ← Finset.sum_add_distrib]
  exact Finset.sum_congr rfl fun i _ => hone i

/-- Two claims of one message: the first was rejected, the second is held. -/
theorem leases_balance_claimedAgain :
    (History.run claimedAgain).log.countP (fun e => e.2.isClaim) = 2 ∧
      (History.run claimedAgain).log.countP (fun e => e.2.endsLease) = 1 ∧
      ((System.run claimedAgain).db.messages.rows.countP fun e => e.2.state = .running) = 1 := by
  have hposts : ∀ op ∈ claimedAgain, op.PostsWaiting := by
    simp [claimedAgain, failedOnce, onlyAttempt, Operation.PostsWaiting]
  have hqueues : ∀ name, .deleteQueue name ∉ claimedAgain := by
    simp [claimedAgain, failedOnce, onlyAttempt]
  have hclaims : (History.run claimedAgain).log.countP (fun e => e.2.isClaim) = 2 := by decide
  have hends : (History.run claimedAgain).log.countP (fun e => e.2.endsLease) = 1 := by decide
  have htotal := (leases_balance claimedAgain hposts hqueues).2
  rw [hclaims, hends] at htotal
  refine ⟨hclaims, hends, ?_⟩
  omega

end Nzovu.Repository
