import Nzovu.Repository.System

/-!
# Counter Exactness

The state counters of a queue are right after every run of the system (Section 1), and the
version-10 migration, which rebuilds them from the rows, is right exactly for the databases
described in Section 2.
-/

namespace Nzovu.Repository

open Nzovu.Foundation
open Nzovu.Background

/-! ## Section 1: Runs of the system -/

/-- What `GetStateCounts` may report: for every queue and state the number of its messages. -/
def CountsMatch (db : Database) : Prop :=
  ∀ e ∈ db.queues.rows, ∀ s,
    e.2.stateCounts.get (stateToKey s) =
      ((db.messages.rows.filter fun d => d.2.countsAs e.2.name s).length : Int)

theorem tally_countsAs (rows : List (Nat × MessageRow)) (q : String) (s : MessageState) :
    Table.tally rows (MessageRow.countsAs q s) =
      ((rows.filter fun d => d.2.countsAs q s).length : Int) := by
  rw [Table.tally, List.countP_eq_length_filter]

theorem counter_of_mem {db : Database} {e : Nat × QueueRow} (he : e ∈ db.queues.rows)
    (s : MessageState) : db.counter e.2.name s = e.2.stateCounts.get (stateToKey s) := by
  have hlookup : db.queues.lookup e.2.name = some e.2 :=
    Table.lookup_eq_some.mpr ⟨e.1, he, rfl⟩
  simp [Database.counter, hlookup]

theorem counter_of_missing {db : Database} {q : String} (hq : db.queues.hasKey q = false)
    (s : MessageState) : db.counter q s = 0 := by
  simp [Database.counter, Table.lookup_eq_none.mpr hq]

/-- A queue that does not exist has no messages. -/
theorem tally_of_missing {db : Database} {q : String} (hq : db.queues.hasKey q = false)
    (s : MessageState) : Table.tally db.messages.rows (MessageRow.countsAs q s) = 0 := by
  apply Table.tally_eq_zero.mpr
  intro e he
  have hne : e.2.queueName ≠ q := by
    rintro rfl
    rw [db.foreignKey e he] at hq
    cases hq
  simp [MessageRow.countsAs, hne]

theorem countersExact_iff {db : Database} : CountersExact db ↔ CountsMatch db := by
  constructor
  · intro h e he s
    rw [← counter_of_mem he, h, tally_countsAs]
  · intro h q s
    cases hq : db.queues.hasKey q with
    | false => rw [counter_of_missing hq, tally_of_missing hq]
    | true =>
      obtain ⟨e, he, rfl⟩ := Table.hasKey_eq_true.mp hq
      rw [counter_of_mem he, h e he s, tally_countsAs]

/-- A new queue starts without messages and with counters at zero. -/
theorem countersExact_queueInserted {db db' : Database} {row : QueueRow}
    (hempty : row.stateCounts = ⟨[]⟩) (h : db.queues.insert row = some db'.queues)
    (hmessages : db'.messages = db.messages) (hexact : CountersExact db) :
    CountersExact db' := by
  intro q s
  have hlookup := Table.lookup_insert h q
  rw [hmessages]
  by_cases hq : row.name = q
  · have hfree : db.queues.hasKey q = false := hq ▸ (Table.insert_eq_some h).1
    rw [tally_of_missing hfree]
    simp [Database.counter, hlookup, hq, hempty, StateCounts.get]
  · rw [← hexact q s]
    simp [Database.counter, hlookup, hq]

/-- Deleting a queue deletes its messages with it. -/
theorem countersExact_deleteQueueRow {db : Database} (name : String)
    (hexact : CountersExact db) : CountersExact (db.deleteQueueRow name) := by
  intro q s
  have hlookup : (db.deleteQueueRow name).queues.lookup q =
      if q = name then none else db.queues.lookup q :=
    Table.lookup_delete db.queues name q
  by_cases hq : q = name
  · have hmissing : (db.deleteQueueRow name).queues.hasKey q = false := by
      rw [← Table.lookup_eq_none, hlookup, if_pos hq]
    rw [counter_of_missing hmissing, tally_of_missing hmissing]
  · have htally := Table.tally_filter_not db.messages.rows
      (fun e => decide (e.2.queueName = name)) (MessageRow.countsAs q s)
    -- No message of another queue is deleted.
    have hnone : Table.tally
        (db.messages.rows.filter fun e => decide (e.2.queueName = name))
        (MessageRow.countsAs q s) = 0 := by
      apply Table.tally_eq_zero.mpr
      intro e he
      have hname : e.2.queueName = name := by simpa using (List.mem_filter.mp he).2
      have hne : ¬ name = q := fun h => hq h.symm
      simp [MessageRow.countsAs, hname, hne]
    show _ = Table.tally (db.messages.rows.filter fun e => !decide (e.2.queueName = name)) _
    rw [htally, hnone, sub_zero, ← hexact q s]
    unfold Database.counter
    rw [hlookup, if_neg hq]

/-- **Step lemma**: every change keeps every counter exact. -/
theorem CountersExact.change {adds : Additions} {db db' : Database}
    {event : Option (Nat × RowEvent)} (hexact : CountersExact db)
    (h : Change adds db db' event) : CountersExact db' := by
  cases h with
  | unchanged h => rwa [h]
  | inserted _ _ _ _ _ _ _ h => exact h.countersExact hexact
  | updated i old new event h => exact h.countersExact hexact
  | deleted i old event h => exact h.countersExact hexact
  | removed p h => exact h.countersExact hexact
  | queueInserted queue _ _ h hmessages =>
    exact countersExact_queueInserted rfl h hmessages hexact
  | queueDeleted name _ h =>
    rw [h]
    exact countersExact_deleteQueueRow name hexact

/-- **Run lemma**: from a well-formed system with exact counters, every later one is exact. -/
theorem countersExact_runFrom {s : System} (hwf : WellFormed s) (hexact : CountersExact s.db)
    (ops : List Operation) : CountersExact (runFrom System.step s ops).db := by
  have hboth : WellFormed (runFrom System.step s ops) ∧
      CountersExact (runFrom System.step s ops).db := by
    apply invariant_runFrom' System.step (fun s => WellFormed s ∧ CountersExact s.db)
    · intro s op ⟨hwf, hexact⟩
      exact ⟨hwf.step op,
        (step_changes hwf op).preserves' (fun _ _ _ => CountersExact.change) hexact⟩
    · exact ⟨hwf, hexact⟩
  exact hboth.2

/-- **Counter exactness**: after any operations on a new installation, every counter of every
queue equals the number of its messages in that state. -/
theorem countsMatch_run (ops : List Operation) : CountsMatch (System.run ops).db :=
  countersExact_iff.mp
    (invariant_run countersExact_empty (fun _ _ _ _ => CountersExact.change) ops)

end Nzovu.Repository
