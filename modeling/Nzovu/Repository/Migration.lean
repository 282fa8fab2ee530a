import Nzovu.Repository.CounterExactness

/-!
# The Version-10 Migration

Translation of `migrateToV10` of both backends, which rebuild every queue's counters from the
rows of `cq_messages`. The SQLite migration also converts timestamps that old versions stored
as text; timestamps are integers here.

The rebuild leaves out rows that await retention cleanup, and it counts state `4` under
`errored` and state `5` under `canceled`, while the enumeration numbers them the other way
round. Section 2 shows for which databases this does no harm.
-/

namespace Nzovu.Repository

open Nzovu.Foundation
open Nzovu.Background

/-! ## Section 1: The migrations -/

/-- `queue_name = cq_queues.name AND state = ? AND deleted_at IS NULL`. -/
def rebuildFilter (queueName : String) (state : Int) (row : MessageRow) : Bool :=
  row.queueName = queueName && row.state.number = state && row.deletedAt = none

/-- The subquery `SELECT COUNT(*)` of one key. -/
def rebuildCount (db : Database) (queueName : String) (state : Int) : Int :=
  Table.tally db.messages.rows (rebuildFilter queueName state)

/-- The `json_object` (`jsonb_build_object`) of one queue. -/
def rebuiltCounts (db : Database) (queueName : String) : StateCounts :=
  ⟨[(.invisible, rebuildCount db queueName 0), (.pending, rebuildCount db queueName 1),
    (.running, rebuildCount db queueName 2), (.completed, rebuildCount db queueName 3),
    (.errored, rebuildCount db queueName 4), (.canceled, rebuildCount db queueName 5)]⟩

/-- A queue row with its counters rebuilt. -/
def QueueRow.rebuild (db : Database) (row : QueueRow) : QueueRow :=
  { row with stateCounts := rebuiltCounts db row.name }

/-- `UPDATE cq_queues SET state_counts = …`, on every queue. -/
def rebuildStateCounters (db : Database) : Database where
  queues := db.queues.modify (fun _ => true) (QueueRow.rebuild db) fun _ => rfl
  messages := db.messages
  foreignKey := fun e he =>
    (Table.hasKey_modify db.queues _ (QueueRow.rebuild db) (fun _ => rfl) _).trans
      (db.foreignKey e he)

/-- `migrateToV10_NormalizeMessageRuntime` (SQLite). -/
def migrateToV10NormalizeMessageRuntime (db : Database) : Database := rebuildStateCounters db

/-- `migrateToV10_RebuildStateCounters` (Postgres). -/
def migrateToV10RebuildStateCounters (db : Database) : Database := rebuildStateCounters db

/-- The two backends. -/
inductive Backend where
  | sqlite
  | postgres
deriving DecidableEq, Repr

/-- `migrateToV10` of a backend. -/
def migrateToV10 : Backend → Database → Database
  | .sqlite => migrateToV10NormalizeMessageRuntime
  | .postgres => migrateToV10RebuildStateCounters

theorem migrateToV10_eq (backend : Backend) (db : Database) :
    migrateToV10 backend db = rebuildStateCounters db := by
  cases backend <;> rfl

/-! ## Section 2: What the rebuild counts -/

/-- The state whose rows the rebuild counts under the key of `s`. -/
def rebuiltState : MessageState → MessageState
  | .errored => .canceled
  | .canceled => .errored
  | s => s

theorem rebuiltState_rebuiltState (s : MessageState) : rebuiltState (rebuiltState s) = s := by
  cases s <;> rfl

/-- The rows of a queue and state that the rebuild sees. -/
def liveAs (q : String) (s : MessageState) (row : MessageRow) : Bool :=
  row.countsAs q s && row.deletedAt = none

theorem rebuildFilter_number (q : String) (s : MessageState) :
    rebuildFilter q s.number = liveAs q s := by
  funext row
  have hnumber : decide (row.state.number = s.number) = decide (row.state = s) :=
    decide_eq_decide.mpr MessageState.number_injective.eq_iff
  simp [rebuildFilter, liveAs, MessageRow.countsAs, hnumber]

theorem rebuiltCounts_get (db : Database) (q : String) (s : MessageState) :
    (rebuiltCounts db q).get (stateToKey s) =
      Table.tally db.messages.rows (liveAs q (rebuiltState s)) := by
  rw [← rebuildFilter_number]
  cases s <;> rfl

theorem hasKey_rebuildStateCounters (db : Database) (q : String) :
    (rebuildStateCounters db).queues.hasKey q = db.queues.hasKey q :=
  Table.hasKey_modify _ _ (QueueRow.rebuild db) (fun _ => rfl) q

theorem counter_rebuildStateCounters {db : Database} {q : String}
    (hq : db.queues.hasKey q = true) (s : MessageState) :
    (rebuildStateCounters db).counter q s =
      Table.tally db.messages.rows (liveAs q (rebuiltState s)) := by
  obtain ⟨e, he, rfl⟩ := Table.hasKey_eq_true.mp hq
  have hmem : (e.1, e.2.rebuild db) ∈ (rebuildStateCounters db).queues.rows :=
    Table.mem_mapRows.mpr ⟨e, he, rfl⟩
  rw [← rebuiltCounts_get]
  exact counter_of_mem hmem s

/-- The rows of a queue and state that the rebuild misses. -/
def deletedAs (q : String) (s : MessageState) (row : MessageRow) : Bool :=
  row.countsAs q s && !decide (row.deletedAt = none)

theorem tally_liveAs_add (rows : List (Nat × MessageRow)) (q : String) (s : MessageState) :
    Table.tally rows (liveAs q s) + Table.tally rows (deletedAs q s) =
      Table.tally rows (MessageRow.countsAs q s) :=
  Table.tally_and_add_tally_and_not rows (MessageRow.countsAs q s) fun row => row.deletedAt = none

/-! ## Section 3: When the rebuild is right -/

/-- No row awaits retention cleanup, and in every queue as many messages are CANCELED as are
ERRORED. -/
structure Balanced (db : Database) : Prop where
  notDeleted : ∀ e ∈ db.messages.rows, e.2.deletedAt = none
  balanced : ∀ q, (db.messages.rows.filter fun e => e.2.countsAs q .canceled).length =
    (db.messages.rows.filter fun e => e.2.countsAs q .errored).length

private theorem tally_rebuiltState {db : Database} (h : Balanced db) (q : String)
    (s : MessageState) :
    Table.tally db.messages.rows (MessageRow.countsAs q (rebuiltState s)) =
      Table.tally db.messages.rows (MessageRow.countsAs q s) := by
  have hsame : Table.tally db.messages.rows (MessageRow.countsAs q .canceled) =
      Table.tally db.messages.rows (MessageRow.countsAs q .errored) := by
    rw [tally_countsAs, tally_countsAs, h.balanced q]
  cases s with
  | canceled => exact hsame.symm
  | errored => exact hsame
  | _ => rfl

/-- The rebuild is right at once exactly on balanced databases. -/
theorem countersExact_rebuildStateCounters_iff {db : Database} :
    CountersExact (rebuildStateCounters db) ↔ Balanced db := by
  constructor
  · intro hexact
    have hlive : ∀ q s, db.queues.hasKey q = true →
        Table.tally db.messages.rows (liveAs q (rebuiltState s)) =
          Table.tally db.messages.rows (MessageRow.countsAs q s) := fun q s hq => by
      rw [← counter_rebuildStateCounters hq]
      exact hexact q s
    -- Both counts of a pair of swapped states bound each other, so nothing was missed.
    have hnone : ∀ q s, db.queues.hasKey q = true →
        Table.tally db.messages.rows (deletedAs q s) = 0 ∧
          Table.tally db.messages.rows (MessageRow.countsAs q (rebuiltState s)) =
            Table.tally db.messages.rows (MessageRow.countsAs q s) := by
      intro q s hq
      have h₁ := hlive q s hq
      have h₂ := hlive q (rebuiltState s) hq
      have h₃ := tally_liveAs_add db.messages.rows q s
      have h₄ := tally_liveAs_add db.messages.rows q (rebuiltState s)
      have h₅ := Table.tally_nonneg db.messages.rows (deletedAs q s)
      have h₆ := Table.tally_nonneg db.messages.rows (deletedAs q (rebuiltState s))
      rw [rebuiltState_rebuiltState] at h₂
      constructor <;> omega
    refine ⟨fun e he => ?_, fun q => ?_⟩
    · have hzero := (hnone e.2.queueName e.2.state (db.foreignKey e he)).1
      simpa [deletedAs, MessageRow.countsAs] using Table.tally_eq_zero.mp hzero e he
    · cases hq : db.queues.hasKey q with
      | true =>
        have hsame := (hnone q .errored hq).2
        rw [tally_countsAs, tally_countsAs] at hsame
        exact_mod_cast hsame
      | false =>
        have hcanceled := tally_of_missing hq .canceled
        have herrored := tally_of_missing hq .errored
        rw [tally_countsAs] at hcanceled herrored
        omega
  · intro h q s
    show _ = Table.tally db.messages.rows _
    cases hq : db.queues.hasKey q with
    | false =>
      have hmissing : (rebuildStateCounters db).queues.hasKey q = false := by
        rw [hasKey_rebuildStateCounters, hq]
      rw [counter_of_missing hmissing, tally_of_missing hq]
    | true =>
      have hnone : Table.tally db.messages.rows (deletedAs q (rebuiltState s)) = 0 := by
        apply Table.tally_eq_zero.mpr
        intro e he
        simp [deletedAs, h.notDeleted e he]
      have hadd := tally_liveAs_add db.messages.rows q (rebuiltState s)
      rw [counter_rebuildStateCounters hq, ← tally_rebuiltState h q s]
      omega

/-! ## Section 4: Later runs -/

/-- A scheduled INVISIBLE row whose protobuf names another state is miscounted when the
scheduler activates it. -/
theorem invisibleStored_of_countersExact {db : Database}
    (h : ∀ ops, CountersExact (runFrom System.step ⟨db, []⟩ ops).db) : InvisibleStored db := by
  intro e
  obtain ⟨i, row⟩ := e
  intro hmem (hstate : row.state = .invisible) (hscheduled : row.scheduledAt.isSome = true)
  show row.metadata.state = .invisible
  by_contra hstored
  obtain ⟨t, ht⟩ := Option.isSome_iff_exists.mp hscheduled
  have hdue : row.scheduledAt.any (· ≤ t) = true := by simp [ht]
  let message : ScheduledMessage := ⟨i, row.queueName, row.messageId, row.metadata, t⟩
  have hcollected : message ∈ collectScheduledMessages db t db.messages.rows.length := by
    refine List.mem_map.mpr ⟨(i, row), ?_, rfl⟩
    rw [List.take_of_length_le]
    · exact (List.mem_insertionSort _).mpr (List.mem_filter.mpr ⟨hmem, by simp [hstate, hdue]⟩)
    · rw [List.length_insertionSort]
      exact List.length_filter_le _ _
  have hbefore : CountersExact db := h []
  have hafter := h [.collectScheduled t db.messages.rows.length, .activate (fun _ => 0) message]
  obtain ⟨db₁, hrew, heq⟩ := activateMessage_rewrites (fun _ => 0) message hmem hstate hdue
  have hrun : (runFrom System.step ⟨db, []⟩ [.collectScheduled t db.messages.rows.length,
      .activate (fun _ => 0) message]).db =
        updateCounters db₁ row.queueName row.metadata.state .pending := by
    simp [System.step, hcollected, heq, message]
  rw [hrun] at hafter
  -- One INVISIBLE row fewer, but its counter stays.
  have hrow : db₁.queues.hasKey row.queueName = true := by
    rw [hrew.queues]
    exact db.foreignKey _ hmem
  have hsame := counter_updateCounters hrow row.metadata.state .pending row.queueName .invisible
  have hcounter : db₁.counter row.queueName .invisible = db.counter row.queueName .invisible := by
    unfold Database.counter
    rw [hrew.queues]
  have htally := Table.tally_setRow
    (activateRow { message.metadata with state := .pending } 0 row)
    (MessageRow.countsAs row.queueName .invisible) hmem
  rw [hafter, messages_updateCounters, hrew.rows, hcounter, hbefore] at hsame
  rw [htally] at hsame
  simp [hits, MessageRow.countsAs, activateRow, hstored, hstate] at hsame

/-- The databases the migration is right for: balanced, and with INVISIBLE rows whose protobuf
says so. -/
structure MigrationSafe (db : Database) : Prop where
  balanced : Balanced db
  stored : InvisibleStored db

/-- **Migration**: the counters are right right after the migration and after any later run, and
never negative, if and only if the database was safe. -/
theorem migrateToV10_countsMatch_iff (backend : Backend) (db : Database) :
    (∀ ops, CountsMatch (runFrom System.step ⟨migrateToV10 backend db, []⟩ ops).db ∧
      ∀ e ∈ (runFrom System.step ⟨migrateToV10 backend db, []⟩ ops).db.queues.rows, ∀ s,
        0 ≤ e.2.stateCounts.get (stateToKey s)) ↔ MigrationSafe db := by
  rw [migrateToV10_eq]
  constructor
  · intro h
    have hexact : ∀ ops,
        CountersExact (runFrom System.step ⟨rebuildStateCounters db, []⟩ ops).db :=
      fun ops => countersExact_iff.mpr (h ops).1
    have hstored : InvisibleStored (rebuildStateCounters db) :=
      invisibleStored_of_countersExact hexact
    exact ⟨countersExact_rebuildStateCounters_iff.mp (hexact []), hstored⟩
  · intro hsafe ops
    have hwf : WellFormed ⟨rebuildStateCounters db, []⟩ :=
      ⟨hsafe.stored, fun _ hmem => absurd hmem List.not_mem_nil⟩
    have hexact := countersExact_runFrom hwf
      (countersExact_rebuildStateCounters_iff.mpr hsafe.balanced) ops
    have hmatch := countersExact_iff.mp hexact
    refine ⟨hmatch, fun e he s => ?_⟩
    rw [hmatch e he s]
    exact Int.natCast_nonneg _

/-- A queue that keeps a message for a minute after it was acknowledged. -/
def retainedMessage : List Operation :=
  [.createQueue "jobs" { messageRetentionPolicy := some ⟨.retainDuration, 60⟩ },
   .enqueue (fun _ => 0) "jobs" ⟨"m", some
    ⟨.pending, 1, 1, 0, none, some ⟨some ⟨30, 0⟩, none, none, none, 0⟩⟩⟩,
   .claim (fun _ => 10) ⟨"jobs", "w", "a", "", 0, 0, "g", "", generatedAttemptId_ne⟩,
   .acknowledge (fun _ => 20) "jobs" "m" "a" "w"]

/-- The migration loses the retained message; cleanup then drives the counter to `-1`. -/
theorem migrateToV10_not_countsMatch :
    ¬ (∀ (backend : Backend) (db : Database) (ops : List Operation),
      CountsMatch (runFrom System.step ⟨migrateToV10 backend db, []⟩ ops).db ∧
      ∀ e ∈ (runFrom System.step ⟨migrateToV10 backend db, []⟩ ops).db.queues.rows, ∀ s,
        0 ≤ e.2.stateCounts.get (stateToKey s)) := by
  intro h
  have hrun := (h .sqlite (System.run retainedMessage).db [.cleanup 100000 10]).2
  have hcounter : ∃ e ∈ (runFrom System.step
      ⟨migrateToV10 .sqlite (System.run retainedMessage).db, []⟩
      [.cleanup 100000 10]).db.queues.rows, e.2.stateCounts.get (stateToKey .completed) < 0 := by
    decide
  obtain ⟨e, he, hneg⟩ := hcounter
  exact absurd (hrun e he .completed) (Int.not_le.mpr hneg)

end Nzovu.Repository
