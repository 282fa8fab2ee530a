import Nzovu.Repository.Model

/-!
# State Counters

The `StateManager` of `pkg/repository/sql/state.go`: each queue row keeps, per message state,
the number of its messages, and every storage operation adjusts these numbers by hand.

After the translation of the manager (Section 1) the file fixes the vocabulary in which the
effect of a storage operation is described: a row inserted, a row replaced, a set of rows
removed, each together with what happened to the counters (Section 3). An operation that has
one of these effects keeps every counter equal to the number of rows it counts (Section 4).
-/

namespace Nzovu.Repository

open Nzovu.Foundation

/-! ## Section 1: The state manager -/

/-- Kinds of errors a storage operation returns. -/
inductive ErrorKind where
  | invalidArgument
  | notFound
  | alreadyExists
  | failedPrecondition
  | deadlineExceeded
  /-- The sentinel `ErrDuplicateMessageID`. -/
  | duplicateMessageId
  /-- A plain `fmt.Errorf`. -/
  | internal
deriving DecidableEq, Repr

/-- An error returned by a storage operation. -/
structure StorageError where
  kind : ErrorKind
  message : String
deriving DecidableEq, Repr

/-- A `fmt.Errorf` without a domain kind. -/
def StorageError.plain (message : String) : StorageError := ⟨.internal, message⟩

/-- `stateToKey`. -/
def stateToKey : MessageState → CounterKey
  | .pending => .pending
  | .running => .running
  | .invisible => .invisible
  | .errored => .errored
  | .completed => .completed
  | .canceled => .canceled

theorem stateToKey_injective : Function.Injective stateToKey := by
  intro a b h
  cases a <;> cases b <;> first | rfl | cases h

/-- The `SET state_counts = json_set(…)` assignment of every counter statement. -/
def QueueRow.addCount (key : CounterKey) (amount : Int) (row : QueueRow) : QueueRow :=
  { row with stateCounts := row.stateCounts.set key (row.stateCounts.get key + amount) }

/-- `UPDATE cq_queues SET state_counts = … WHERE name = ?`: no effect when no such queue. -/
def addCounter (db : Database) (queueName : String) (state : MessageState) (amount : Int) :
    Database :=
  db.modifyQueue queueName (QueueRow.addCount (stateToKey state) amount) fun _ => rfl

/-- `incrementCounter`. -/
def incrementCounter (db : Database) (queueName : String) (state : MessageState) : Database :=
  addCounter db queueName state 1

/-- `decrementCounter`. -/
def decrementCounter (db : Database) (queueName : String) (state : MessageState) : Database :=
  addCounter db queueName state (-1)

/-- `UpdateCounters`: a message of the queue changed its state. -/
def updateCounters (db : Database) (queueName : String) (oldState newState : MessageState) :
    Database :=
  -- A message that keeps its state needs no statement at all.
  if oldState = newState then db
  else incrementCounter (decrementCounter db queueName oldState) queueName newState

/-- `InsertCounter`: a message was inserted. -/
def insertCounter (db : Database) (queueName : String) (state : MessageState) : Database :=
  incrementCounter db queueName state

/-- `MoveCounter`: a message moved to another queue. -/
def moveCounter (db : Database) (sourceQueue : String) (sourceState : MessageState)
    (targetQueue : String) (targetState : MessageState) : Database :=
  incrementCounter (decrementCounter db sourceQueue sourceState) targetQueue targetState

/-- `RemoveCounters`: `count` messages of one queue and state were deleted. -/
def removeCounters (db : Database) (queueName : String) (state : MessageState) (count : Int) :
    Except StorageError Database :=
  if count < 0 then .error (.plain s!"counter decrement must be non-negative: {count}")
  -- Nothing was deleted: the manager runs no statement.
  else if count = 0 then .ok db
  else .ok (addCounter db queueName state (-count))

/-- `RemoveCounter`: one message was deleted. -/
def removeCounter (db : Database) (queueName : String) (state : MessageState) :
    Except StorageError Database :=
  removeCounters db queueName state 1

/-- The value `GetStateCounts` reports for one state; `0` for a missing queue. -/
def Database.counter (db : Database) (queueName : String) (state : MessageState) : Int :=
  ((db.queues.lookup queueName).map fun row => row.stateCounts.get (stateToKey state)).getD 0

/-! ## Section 2: What a counter statement changes -/

@[simp] theorem messages_addCounter (db : Database) (q : String) (s : MessageState) (n : Int) :
    (addCounter db q s n).messages = db.messages := rfl

@[simp] theorem hasKey_addCounter (db : Database) (q : String) (s : MessageState) (n : Int)
    (name : String) : (addCounter db q s n).queues.hasKey name = db.queues.hasKey name :=
  Table.hasKey_modify _ _ (QueueRow.addCount (stateToKey s) n) (fun _ => rfl) _

@[simp] theorem messages_updateCounters (db : Database) (q : String) (s s' : MessageState) :
    (updateCounters db q s s').messages = db.messages := by
  unfold updateCounters
  split <;> rfl

@[simp] theorem messages_moveCounter (db : Database) (q q' : String) (s s' : MessageState) :
    (moveCounter db q s q' s').messages = db.messages := rfl

@[simp] theorem messages_insertCounter (db : Database) (q : String) (s : MessageState) :
    (insertCounter db q s).messages = db.messages := rfl

/-- `1` when `(q₀, s₀)` is the counter `(q, s)`, else `0`. -/
def hits (q₀ : String) (s₀ : MessageState) (q : String) (s : MessageState) : Int :=
  if q₀ = q ∧ s₀ = s then 1 else 0

theorem hits_eq_countsAs (row : MessageRow) (q : String) (s : MessageState) :
    hits row.queueName row.state q s = if row.countsAs q s then 1 else 0 := by
  simp [hits, MessageRow.countsAs]

/-- A counter statement on an existing queue adds its amount to one counter. -/
theorem counter_addCounter {db : Database} {q₀ : String} (hq : db.queues.hasKey q₀ = true)
    (s₀ : MessageState) (n : Int) (q : String) (s : MessageState) :
    (addCounter db q₀ s₀ n).counter q s = db.counter q s + n * hits q₀ s₀ q s := by
  have hlookup := Table.lookup_modify db.queues q₀ q
    (QueueRow.addCount (stateToKey s₀) n) (fun _ => rfl)
  unfold Database.counter
  rw [show (addCounter db q₀ s₀ n).queues.lookup q =
    (db.queues.lookup q).map fun x => if q = q₀ then x.addCount (stateToKey s₀) n else x
    from hlookup]
  cases hl : db.queues.lookup q with
  | none =>
    -- A queue that is not there has no counter, and the statement names one that is.
    have hne : q₀ ≠ q := by
      rintro rfl
      rw [Table.lookup_eq_none.mp hl] at hq
      cases hq
    simp [hits, hne]
  | some row =>
    by_cases hqq : q = q₀
    · subst hqq
      by_cases hss : s = s₀
      · subst hss
        simp [hits, QueueRow.addCount, StateCounts.get_set]
      -- Two states never share a key of the JSON object.
      · have hkey : stateToKey s ≠ stateToKey s₀ := fun h => hss (stateToKey_injective h)
        have hne : ¬ s₀ = s := fun h => hss h.symm
        simp [hits, QueueRow.addCount, StateCounts.get_set, hkey, hne]
    · have hne : ¬ q₀ = q := fun h => hqq h.symm
      simp [hits, hqq, hne]

theorem counter_moveCounter {db : Database} {q₁ q₂ : String}
    (h₁ : db.queues.hasKey q₁ = true) (h₂ : db.queues.hasKey q₂ = true) (s₁ s₂ : MessageState)
    (q : String) (s : MessageState) :
    (moveCounter db q₁ s₁ q₂ s₂).counter q s =
      db.counter q s - hits q₁ s₁ q s + hits q₂ s₂ q s := by
  unfold moveCounter incrementCounter decrementCounter
  rw [counter_addCounter (by simpa using h₂), counter_addCounter h₁]
  ring

theorem counter_updateCounters {db : Database} {q₀ : String}
    (hq : db.queues.hasKey q₀ = true) (s₁ s₂ : MessageState) (q : String) (s : MessageState) :
    (updateCounters db q₀ s₁ s₂).counter q s =
      db.counter q s - hits q₀ s₁ q s + hits q₀ s₂ q s := by
  unfold updateCounters
  split
  · rename_i hss
    rw [hss]
    ring
  · exact counter_moveCounter hq hq s₁ s₂ q s

theorem removeCounters_eq_ok {db db' : Database} {q₀ : String} {s₀ : MessageState} {n : Int}
    (hq : 0 < n → db.queues.hasKey q₀ = true) (h : removeCounters db q₀ s₀ n = .ok db') :
    db'.messages = db.messages ∧
      ∀ q s, db'.counter q s = db.counter q s - n * hits q₀ s₀ q s := by
  unfold removeCounters at h
  split at h
  · cases h
  · split at h
    · rename_i hz
      cases h
      exact ⟨rfl, fun q s => by rw [hz]; ring⟩
    · cases h
      have hn : 0 < n := by omega
      exact ⟨rfl, fun q s => by rw [counter_addCounter (hq hn)]; ring⟩

theorem hasKey_removeCounters {db db' : Database} {q : String} {s : MessageState} {n : Int}
    (h : removeCounters db q s n = .ok db') (name : String) :
    db'.queues.hasKey name = db.queues.hasKey name := by
  unfold removeCounters at h
  split at h
  · cases h
  · split at h
    · cases h; rfl
    · cases h; simp

theorem removeCounters_isOk (db : Database) (q : String) (s : MessageState) {n : Int}
    (hn : 0 ≤ n) : ∃ db', removeCounters db q s n = .ok db' := by
  unfold removeCounters
  rw [if_neg (by omega)]
  split <;> exact ⟨_, rfl⟩

/-- A queue row without its counters. -/
structure QueueConfig where
  name : String
  metadata : QueueMetadata
  deadLetterQueueName : Option String

/-- The part of a queue row that counter statements leave alone. -/
def QueueRow.config (row : QueueRow) : QueueConfig :=
  ⟨row.name, row.metadata, row.deadLetterQueueName⟩

/-- The queues without their counters. -/
def Database.configs (db : Database) : List QueueConfig :=
  db.queues.rows.map fun e => e.2.config

theorem hasKey_iff_configs {db : Database} {name : String} :
    db.queues.hasKey name = true ↔ ∃ c ∈ db.configs, c.name = name := by
  rw [Table.hasKey_eq_true]
  constructor
  · rintro ⟨e, he, hname⟩
    exact ⟨e.2.config, List.mem_map.mpr ⟨e, he, rfl⟩, hname⟩
  · rintro ⟨c, hc, hname⟩
    obtain ⟨e, he, rfl⟩ := List.mem_map.mp hc
    exact ⟨e, he, hname⟩

theorem queueMetadata?_eq_some {db : Database} {name : String} {metadata : QueueMetadata} :
    db.queueMetadata? name = some metadata ↔
      ∃ c ∈ db.configs, c.name = name ∧ c.metadata = metadata := by
  unfold Database.queueMetadata?
  constructor
  · intro h
    obtain ⟨row, hrow, rfl⟩ := Option.map_eq_some_iff.mp h
    obtain ⟨i, hi, hname⟩ := Table.lookup_eq_some.mp hrow
    exact ⟨row.config, List.mem_map.mpr ⟨(i, row), hi, rfl⟩, hname, rfl⟩
  · rintro ⟨c, hc, hname, rfl⟩
    obtain ⟨e, he, rfl⟩ := List.mem_map.mp hc
    have hlookup : db.queues.lookup name = some e.2 :=
      Table.lookup_eq_some.mpr ⟨e.1, he, hname⟩
    rw [hlookup]
    rfl

@[simp] theorem configs_addCounter (db : Database) (q : String) (s : MessageState) (n : Int) :
    (addCounter db q s n).configs = db.configs := by
  show (Table.mapRows db.queues.rows _ _).map _ = _
  rw [Table.mapRows, List.map_map]
  refine List.map_congr_left fun e _ => ?_
  by_cases hp : e.2.name = q <;> simp [hp, QueueRow.addCount, QueueRow.config]

@[simp] theorem configs_updateCounters (db : Database) (q : String) (s s' : MessageState) :
    (updateCounters db q s s').configs = db.configs := by
  unfold updateCounters incrementCounter decrementCounter
  split <;> simp

@[simp] theorem configs_moveCounter (db : Database) (q q' : String) (s s' : MessageState) :
    (moveCounter db q s q' s').configs = db.configs := by
  simp [moveCounter, incrementCounter, decrementCounter]

@[simp] theorem configs_insertCounter (db : Database) (q : String) (s : MessageState) :
    (insertCounter db q s).configs = db.configs := by
  simp [insertCounter, incrementCounter]

theorem configs_removeCounters {db db' : Database} {q : String} {s : MessageState} {n : Int}
    (h : removeCounters db q s n = .ok db') : db'.configs = db.configs := by
  unfold removeCounters at h
  split at h
  · cases h
  · split at h
    · cases h; rfl
    · cases h; simp

/-! ## Section 3: Effects of storage operations -/

/-- A row was inserted and counted. -/
structure RowInserted (db db' : Database) (row : MessageRow) : Prop where
  fresh : db.messages.hasKey row.uniqueKey = false
  rows : db'.messages.rows = db.messages.rows ++ [(db.messages.nextId, row)]
  nextId : db'.messages.nextId = db.messages.nextId + 1
  counter : ∀ q s, db'.counter q s = db.counter q s + hits row.queueName row.state q s
  configs : db'.configs = db.configs

/-- Row `i` changed from `old` to `new` and its unit moved between the counters. -/
structure RowUpdated (db db' : Database) (i : Nat) (old new : MessageRow) : Prop where
  mem : (i, old) ∈ db.messages.rows
  rows : db'.messages.rows = Table.setRow db.messages.rows i new
  nextId : db'.messages.nextId = db.messages.nextId
  counter : ∀ q s, db'.counter q s =
    db.counter q s - hits old.queueName old.state q s + hits new.queueName new.state q s
  configs : db'.configs = db.configs

/-- Row `i` with the columns `old` was deleted and uncounted. -/
structure RowDeleted (db db' : Database) (i : Nat) (old : MessageRow) : Prop where
  mem : (i, old) ∈ db.messages.rows
  rows : db'.messages.rows = Table.dropRow db.messages.rows i
  nextId : db'.messages.nextId = db.messages.nextId
  counter : ∀ q s, db'.counter q s = db.counter q s - hits old.queueName old.state q s
  configs : db'.configs = db.configs

/-- The rows that satisfy `p` were removed and uncounted. -/
structure RowsRemoved (db db' : Database) (p : Nat × MessageRow → Bool) : Prop where
  rows : db'.messages.rows = db.messages.rows.filter fun e => !p e
  nextId : db'.messages.nextId = db.messages.nextId
  counter : ∀ q s, db'.counter q s =
    db.counter q s - Table.tally (db.messages.rows.filter p) (MessageRow.countsAs q s)
  configs : db'.configs = db.configs

/-- Statements inside a transaction that have rewritten row `i` but touched no counter yet. -/
structure RowRewritten (db db₁ : Database) (i : Nat) (old new : MessageRow) : Prop where
  mem : (i, old) ∈ db.messages.rows
  rows : db₁.messages.rows = Table.setRow db.messages.rows i new
  nextId : db₁.messages.nextId = db.messages.nextId
  queues : db₁.queues = db.queues

/-- Inserting a row and counting it. -/
theorem rowInserted_insertCounter {db db₁ : Database} {row : MessageRow}
    (h : db.insertMessage row = .ok db₁) :
    RowInserted db (insertCounter db₁ row.queueName row.state) row := by
  obtain ⟨hq, hfree, hqueues, hrows, hnext⟩ := Database.insertMessage_eq_ok h
  -- The INSERT itself touches no counter.
  have hcounter : ∀ q s, db₁.counter q s = db.counter q s := fun q s => by
    unfold Database.counter; rw [hqueues]
  refine ⟨hfree, hrows, hnext, fun q s => ?_, ?_⟩
  · unfold insertCounter incrementCounter
    rw [counter_addCounter (by rwa [hqueues]), hcounter]
    ring
  · rw [configs_insertCounter]
    simp [Database.configs, hqueues]

namespace RowRewritten

variable {db db₁ db₂ : Database} {i : Nat} {old mid new : MessageRow}

/-- No statement yet. -/
theorem refl (h : (i, old) ∈ db.messages.rows) : RowRewritten db db i old old :=
  ⟨h, (Table.setRow_self h).symm, rfl, rfl⟩

/-- An `UPDATE` that selects one row rewrites it. -/
theorem of_modifyMessages {p : Nat × MessageRow → Bool} {f : MessageRow → MessageRow}
    {d : Nat × MessageRow} (hf : ∀ row, (f row).uniqueKey = row.uniqueKey)
    (hsel : Table.Selects db.messages.rows p d) :
    RowRewritten db (db.modifyMessages p f hf) d.1 d.2 (f d.2) :=
  ⟨hsel.1, Table.mapRows_eq_setRow hsel, rfl, rfl⟩

/-- The same for an `UPDATE` that may move the row to another queue. -/
theorem of_updateMessages {p : Nat × MessageRow → Bool} {f : MessageRow → MessageRow}
    {d : Nat × MessageRow} (hsel : Table.Selects db.messages.rows p d)
    (h : db.updateMessages p f = .ok db₁) : RowRewritten db db₁ d.1 d.2 (f d.2) := by
  obtain ⟨hqueues, hrows, hnext⟩ := Database.updateMessages_eq_ok h
  rw [Table.mapRows_eq_setRow hsel] at hrows
  exact ⟨hsel.1, hrows, hnext, hqueues⟩

/-- The rewritten row is in the table under its old id. -/
theorem mem_new (h : RowRewritten db db₁ i old new) : (i, new) ∈ db₁.messages.rows := by
  rw [h.rows]
  exact Table.mem_setRow.mpr (.inr ⟨rfl, (i, old), h.mem, rfl⟩)

/-- Two statements on the same row, one after the other. -/
theorem trans (h₁ : RowRewritten db db₁ i old mid) (h₂ : RowRewritten db₁ db₂ i mid new) :
    RowRewritten db db₂ i old new := by
  refine ⟨h₁.mem, ?_, h₂.nextId.trans h₁.nextId, h₂.queues.trans h₁.queues⟩
  rw [h₂.rows, h₁.rows, Table.setRow_setRow]

private theorem counter_eq (h : RowRewritten db db₁ i old new) (q : String) (s : MessageState) :
    db₁.counter q s = db.counter q s := by
  unfold Database.counter
  rw [h.queues]

private theorem configs_eq (h : RowRewritten db db₁ i old new) : db₁.configs = db.configs := by
  unfold Database.configs
  rw [h.queues]

/-- The row's unit follows it to its new queue and state. -/
theorem moveCounter (h : RowRewritten db db₁ i old new) :
    RowUpdated db
      (moveCounter db₁ old.queueName old.state new.queueName new.state) i old new := by
  have hold : db₁.queues.hasKey old.queueName = true := by
    rw [h.queues]
    exact db.foreignKey _ h.mem
  have hnew : db₁.queues.hasKey new.queueName = true := db₁.foreignKey _ h.mem_new
  refine ⟨h.mem, h.rows, h.nextId, fun q s => ?_, ?_⟩
  · rw [counter_moveCounter hold hnew, h.counter_eq]
  · rw [configs_moveCounter, h.configs_eq]

/-- The same when the row stayed in its queue. -/
theorem updateCounters (h : RowRewritten db db₁ i old new)
    (hqueue : new.queueName = old.queueName) :
    RowUpdated db (updateCounters db₁ old.queueName old.state new.state) i old new := by
  have hold : db₁.queues.hasKey old.queueName = true := by
    rw [h.queues]
    exact db.foreignKey _ h.mem
  refine ⟨h.mem, ?_, ?_, fun q s => ?_, ?_⟩
  · rw [messages_updateCounters, h.rows]
  · rw [messages_updateCounters, h.nextId]
  · rw [counter_updateCounters hold, h.counter_eq, hqueue]
  · rw [configs_updateCounters, h.configs_eq]

/-- Rewriting columns that are not counted needs no counter statement. -/
theorem uncounted (h : RowRewritten db db₁ i old new) (hqueue : new.queueName = old.queueName)
    (hstate : new.state = old.state) : RowUpdated db db₁ i old new := by
  have hupd := h.updateCounters hqueue
  -- The manager skips the statements when the state stays, and so may the caller.
  rwa [Repository.updateCounters, if_pos hstate.symm] at hupd

end RowRewritten

/-- Deleting a row that an earlier statement of the transaction rewrote. -/
theorem RowRewritten.removeCounter {db db₁ db' : Database} {p : Nat × MessageRow → Bool}
    {i : Nat} {old mid : MessageRow} (hrew : RowRewritten db db₁ i old mid)
    (hsel : Table.Selects db₁.messages.rows p (i, mid))
    (h : removeCounter (db₁.deleteMessages p) old.queueName old.state = .ok db') :
    RowDeleted db db' i old := by
  have hq : db₁.queues.hasKey old.queueName = true := by
    rw [hrew.queues]
    exact db.foreignKey _ hrew.mem
  have hq' : 0 < (1 : Int) → (db₁.deleteMessages p).queues.hasKey old.queueName = true :=
    fun _ => hq
  obtain ⟨hmsgs, hcounter⟩ := removeCounters_eq_ok hq' h
  refine ⟨hrew.mem, ?_, ?_, fun q s => ?_, ?_⟩
  · rw [hmsgs]
    show (db₁.messages.rows.filter fun e => !p e) = _
    rw [Table.filter_eq_dropRow hsel, hrew.rows, Table.dropRow_setRow]
  · rw [hmsgs]
    exact hrew.nextId
  · rw [hcounter, one_mul]
    show db₁.counter q s - _ = _
    rw [hrew.counter_eq]
  · rw [configs_removeCounters h]
    exact hrew.configs_eq

/-- Deleting one row and uncounting it. -/
theorem rowDeleted_removeCounter {db db' : Database} {p : Nat × MessageRow → Bool} {i : Nat}
    {old : MessageRow} (hsel : Table.Selects db.messages.rows p (i, old))
    (h : removeCounter (db.deleteMessages p) old.queueName old.state = .ok db') :
    RowDeleted db db' i old :=
  (RowRewritten.refl hsel.1).removeCounter hsel h

/-- Deleting rows that all carry the same queue and state, and uncounting them. -/
theorem rowsRemoved_removeCounters {db db' : Database} {p : Nat × MessageRow → Bool}
    {q₀ : String} {s₀ : MessageState} {n : Int}
    (hsame : ∀ e ∈ db.messages.rows, p e = true → e.2.queueName = q₀ ∧ e.2.state = s₀)
    (hn : n = ((db.messages.rows.filter p).length : Int))
    (h : removeCounters (db.deleteMessages p) q₀ s₀ n = .ok db') : RowsRemoved db db' p := by
  -- Only a deleted row shows that the queue is there, and none is needed for an empty batch.
  have hq : 0 < n → (db.deleteMessages p).queues.hasKey q₀ = true := by
    intro hpos
    have hne : db.messages.rows.filter p ≠ [] := by
      rintro hnil
      rw [hn, hnil] at hpos
      simp at hpos
    obtain ⟨e, he⟩ := List.exists_mem_of_ne_nil _ hne
    obtain ⟨hmem, hp⟩ := List.mem_filter.mp he
    have hname := (hsame e hmem hp).1
    rw [Database.queues_deleteMessages, ← hname]
    exact db.foreignKey e hmem
  obtain ⟨hmsgs, hcounter⟩ := removeCounters_eq_ok hq h
  refine ⟨by rw [hmsgs]; rfl, by rw [hmsgs]; rfl, fun q s => ?_, ?_⟩
  · rw [hcounter]
    have htally : Table.tally (db.messages.rows.filter p) (MessageRow.countsAs q s) =
        n * hits q₀ s₀ q s := by
      -- The deleted rows all count under one counter, and under no other.
      by_cases hit : q₀ = q ∧ s₀ = s
      · have hall : ∀ e ∈ db.messages.rows.filter p, e.2.countsAs q s = true := by
          intro e he
          obtain ⟨hmem, hp⟩ := List.mem_filter.mp he
          obtain ⟨hqe, hse⟩ := hsame e hmem hp
          simp [MessageRow.countsAs, hqe, hse, hit.1, hit.2]
        have hcount := List.countP_eq_length.mpr hall
        simp [Table.tally, hits, hit, hn, hcount]
      · have hnone : ∀ e ∈ db.messages.rows.filter p, e.2.countsAs q s = false := by
          intro e he
          obtain ⟨hmem, hp⟩ := List.mem_filter.mp he
          obtain ⟨hqe, hse⟩ := hsame e hmem hp
          simpa [MessageRow.countsAs, hqe, hse] using hit
        rw [Table.tally_eq_zero.mpr hnone]
        simp [hits, hit]
    rw [htally]
    rfl
  · rw [configs_removeCounters h]
    rfl

/-! ## Section 4: Counter exactness -/

/-- Every counter equals the number of rows with its queue and state. -/
def CountersExact (db : Database) : Prop :=
  ∀ q s, db.counter q s = Table.tally db.messages.rows (MessageRow.countsAs q s)

theorem countersExact_empty : CountersExact Database.empty := by
  intro q s
  simp [Database.counter, Database.empty, Table.lookup]

theorem RowInserted.countersExact {db db' : Database} {row : MessageRow}
    (h : RowInserted db db' row) (hexact : CountersExact db) : CountersExact db' := by
  intro q s
  rw [h.counter, h.rows, Table.tally_append, Table.tally_cons, hexact q s, hits_eq_countsAs]
  simp

theorem RowUpdated.countersExact {db db' : Database} {i : Nat} {old new : MessageRow}
    (h : RowUpdated db db' i old new) (hexact : CountersExact db) : CountersExact db' := by
  intro q s
  have htally := Table.tally_setRow new (MessageRow.countsAs q s) h.mem
  rw [h.counter, h.rows, htally, hexact q s, hits_eq_countsAs, hits_eq_countsAs]

theorem RowDeleted.countersExact {db db' : Database} {i : Nat} {old : MessageRow}
    (h : RowDeleted db db' i old) (hexact : CountersExact db) : CountersExact db' := by
  intro q s
  have htally := Table.tally_dropRow (MessageRow.countsAs q s) h.mem
  rw [h.counter, h.rows, htally, hexact q s, hits_eq_countsAs]

theorem RowsRemoved.countersExact {db db' : Database} {p : Nat × MessageRow → Bool}
    (h : RowsRemoved db db' p) (hexact : CountersExact db) : CountersExact db' := by
  intro q s
  rw [h.counter, h.rows, Table.tally_filter_not, hexact q s]

end Nzovu.Repository
