import Nzovu.Foundation.Table
import Nzovu.Repository.Lease

/-!
# The Queue Database

The tables `cq_queues` and `cq_messages` of both backends, with the constraints of the schema
(`createQueuesTable`, `createMessagesTable`): the queue name is the primary key of a queue, a
message row has an AUTOINCREMENT id, `(queue_name, message_id)` is UNIQUE, and `queue_name`
references an existing queue with `ON DELETE CASCADE`. The constraints are part of the type
`Database`, so every statement either keeps them or is refused.

Columns that no modelled statement reads (`cq_queues.created_at`, payload bytes, headers) are
left out.
-/

namespace Nzovu.Repository

open Nzovu.Foundation

/-! ## Section 1: Messages -/

/-- `message.v1.Message.Metadata.State`. -/
inductive MessageState where
  | invisible
  | pending
  | running
  | completed
  | canceled
  | errored
deriving DecidableEq, Repr

/-- The number the protobuf enumeration and the `state` column give to a state. -/
def MessageState.number : MessageState → Int
  | .invisible => 0
  | .pending => 1
  | .running => 2
  | .completed => 3
  | .canceled => 4
  | .errored => 5

theorem MessageState.number_injective : Function.Injective MessageState.number := by
  intro a b h
  cases a <;> cases b <;> first | rfl | cases h

/-- The protobuf metadata stored with a message (`metadata_pb`). Instants are nanoseconds
since the Unix epoch. -/
structure MessageMetadata where
  state : MessageState
  attemptsLeft : Int
  maxAttempts : Int
  priority : Int
  scheduledTime : Option Int
  leasePolicy : Option LeasePolicy
deriving DecidableEq, Repr

/-- A message as the storage layer receives it. -/
structure Message where
  messageId : String
  metadata : Option MessageMetadata
deriving DecidableEq, Repr

/-- `time.Time.UnixMilli` of an instant in nanoseconds. -/
def unixMilli (instant : Int) : Int := instant.fdiv 1000000

/-- A row of `cq_messages`; its id is kept by the table. -/
structure MessageRow where
  queueName : String
  messageId : String
  /-- The decoded `metadata_pb` column. -/
  metadata : MessageMetadata
  state : MessageState
  priority : Int
  scheduledAt : Option Int
  leaseExpiry : Option Int
  heartbeatExpiry : Option Int
  attemptsLeft : Int
  maxAttempts : Int
  currentAttemptId : Option String
  currentWorkerId : Option String
  leaseStartedAt : Option Int
  leaseExtensionUsed : Int
  leaseRenewalCount : Int
  lastHeartbeatAt : Option Int
  createdAt : Int
  updatedAt : Int
  completedAt : Option Int
  deletedAt : Option Int
  cancellationReason : Option String
deriving DecidableEq, Repr

/-- The UNIQUE key `(queue_name, message_id)`. -/
def MessageRow.uniqueKey (row : MessageRow) : String × String := (row.queueName, row.messageId)

/-- The row is counted under queue `q` and state `s`. -/
def MessageRow.countsAs (q : String) (s : MessageState) (row : MessageRow) : Bool :=
  row.queueName = q && row.state = s

/-! ## Section 2: Queues -/

/-- `queue.v1.QueueType`. -/
inductive QueueType where
  | simple
  | exclusive
deriving DecidableEq, Repr

/-- `queue.v1.MessageRetentionPolicy.Mode`. -/
inductive RetentionMode where
  | deleteImmediately
  | retainDuration
  | retainForever
deriving DecidableEq, Repr

/-- `queue.v1.MessageRetentionPolicy`. -/
structure RetentionPolicy where
  mode : RetentionMode
  retentionSeconds : Int
deriving DecidableEq, Repr

/-- `queue.v1.FairnessPolicy`. -/
inductive FairnessPolicy where
  | strict
  | weighted
  | aging
  | hybrid
deriving DecidableEq, Repr

/-- `queue.v1.PriorityConfig`; `priorityWeights` is the protobuf map. -/
structure PriorityConfig where
  policy : FairnessPolicy
  priorityWeights : List (Int × Int)
  ageBoostThreshold : Option Duration
  ageBoostMultiplier : Int
deriving DecidableEq, Repr

/-- `queue.v1.QueueMetadata`, the fields the storage layer reads. -/
structure QueueMetadata where
  type : QueueType := .simple
  exclusivityKey : String := ""
  deadLetterQueueName : String := ""
  autoCreateDlq : Bool := false
  messageRetentionPolicy : Option RetentionPolicy := none
  priorityConfig : Option PriorityConfig := none
  leaseDuration : Option Duration := none
  leasePolicy : Option LeasePolicy := none
  defaultMaxAttempts : Int := 0
deriving DecidableEq, Repr

/-- `queue.v1.Queue`. -/
structure Queue where
  name : String
  metadata : QueueMetadata
deriving DecidableEq, Repr

/-- The keys of the JSON object in `cq_queues.state_counts`. -/
inductive CounterKey where
  | pending
  | running
  | invisible
  | errored
  | completed
  | canceled
deriving DecidableEq, Repr

/-- The JSON object in `cq_queues.state_counts`; a missing key reads as `0`. -/
structure StateCounts where
  entries : List (CounterKey × Int)
deriving DecidableEq, Repr

/-- `COALESCE(json_extract(state_counts, '$.key'), 0)`. -/
def StateCounts.get (c : StateCounts) (k : CounterKey) : Int :=
  ((c.entries.find? fun e => e.1 = k).map Prod.snd).getD 0

/-- `json_set(state_counts, '$.key', value)`. -/
def StateCounts.set (c : StateCounts) (k : CounterKey) (value : Int) : StateCounts :=
  -- A key of the object occurs once: the new entry replaces the old one.
  ⟨(k, value) :: c.entries.filter fun e => e.1 ≠ k⟩

theorem StateCounts.get_set (c : StateCounts) (k k' : CounterKey) (value : Int) :
    (c.set k value).get k' = if k' = k then value else c.get k' := by
  by_cases hk : k' = k
  · subst hk
    simp [StateCounts.get, StateCounts.set]
  · have hne : ¬ k = k' := fun h => hk h.symm
    have hfind : (c.entries.filter fun e => e.1 ≠ k).find? (fun e => e.1 = k') =
        c.entries.find? fun e => e.1 = k' := by
      rw [List.find?_filter]
      congr 1
      funext e
      by_cases he : e.1 = k'
      · simp [he, hk]
      · simp [he]
    simp only [StateCounts.get, StateCounts.set, List.find?_cons, hne, decide_false, hfind, hk,
      if_false]

/-- A row of `cq_queues`. -/
structure QueueRow where
  name : String
  /-- The decoded `metadata_pb` column. -/
  metadata : QueueMetadata
  deadLetterQueueName : Option String
  stateCounts : StateCounts
deriving DecidableEq, Repr

/-! ## Section 3: The database and its statements -/

/-- Both tables, with the foreign key from messages to queues. -/
structure Database where
  queues : Table QueueRow QueueRow.name
  messages : Table MessageRow MessageRow.uniqueKey
  foreignKey : ∀ e ∈ messages.rows, queues.hasKey e.2.queueName = true

namespace Database

/-- A database right after its tables were created. -/
def empty : Database where
  queues := .empty
  messages := .empty
  foreignKey := by simp

/-- The schema constraint a refused statement violated. -/
inductive Constraint where
  | unique
  | foreignKey
deriving DecidableEq, Repr

/-- Text of the engine's error for a violated constraint. -/
def Constraint.message : Constraint → String
  | .unique => "UNIQUE constraint failed"
  | .foreignKey => "FOREIGN KEY constraint failed"

/-- `INSERT INTO cq_messages`. -/
def insertMessage (db : Database) (row : MessageRow) : Except Constraint Database :=
  match h : db.messages.insert row with
  | none => .error .unique
  | some messages =>
    if hq : db.queues.hasKey row.queueName = true then
      .ok
        { queues := db.queues
          messages := messages
          foreignKey := by
            intro e he
            rw [(Table.insert_eq_some h).2.1] at he
            rcases List.mem_append.mp he with he | he
            · exact db.foreignKey e he
            · rw [List.mem_singleton.mp he]; exact hq }
    else .error .foreignKey

/-- `UPDATE cq_messages SET f WHERE p`, any columns. -/
def updateMessages (db : Database) (p : Nat × MessageRow → Bool) (f : MessageRow → MessageRow) :
    Except Constraint Database :=
  match db.messages.update p f with
  | none => .error .unique
  | some messages =>
    if hfk : ∀ e ∈ messages.rows, db.queues.hasKey e.2.queueName = true then
      .ok { queues := db.queues, messages := messages, foreignKey := hfk }
    else .error .foreignKey

/-- `UPDATE cq_messages SET f WHERE p` for assignments that leave `queue_name` and
`message_id` alone; no constraint can fail. -/
def modifyMessages (db : Database) (p : Nat × MessageRow → Bool) (f : MessageRow → MessageRow)
    (hf : ∀ row, (f row).uniqueKey = row.uniqueKey) : Database where
  queues := db.queues
  messages := db.messages.modify p f hf
  foreignKey := by
    intro e he
    obtain ⟨d, hd, rfl⟩ := Table.mem_mapRows.mp he
    have hname : (f d.2).queueName = d.2.queueName := congrArg Prod.fst (hf d.2)
    by_cases hp : p d = true
    · simpa [hp, hname] using db.foreignKey d hd
    · simpa [hp] using db.foreignKey d hd

/-- `DELETE FROM cq_messages WHERE p`. -/
def deleteMessages (db : Database) (p : Nat × MessageRow → Bool) : Database where
  queues := db.queues
  messages := db.messages.delete p
  foreignKey := fun e he => db.foreignKey e (List.mem_of_mem_filter he)

/-- `INSERT INTO cq_queues`. -/
def insertQueue (db : Database) (row : QueueRow) : Except Constraint Database :=
  match h : db.queues.insert row with
  | none => .error .unique
  | some queues =>
    .ok
      { queues := queues
        messages := db.messages
        foreignKey := by
          intro e he
          obtain ⟨d, hd, hk⟩ := Table.hasKey_eq_true.mp (db.foreignKey e he)
          rw [Table.hasKey_eq_true, (Table.insert_eq_some h).2.1]
          exact ⟨d, List.mem_append_left _ hd, hk⟩ }

/-- `UPDATE cq_queues SET f WHERE name = ?`. -/
def modifyQueue (db : Database) (name : String) (f : QueueRow → QueueRow)
    (hf : ∀ row, (f row).name = row.name) : Database where
  queues := db.queues.modify (fun e => e.2.name = name) f hf
  messages := db.messages
  foreignKey := by
    intro e he
    rw [Table.hasKey_modify]
    exact db.foreignKey e he

/-- `DELETE FROM cq_queues WHERE name = ?`; `ON DELETE CASCADE` removes its messages. -/
def deleteQueueRow (db : Database) (name : String) : Database where
  queues := db.queues.delete fun e => e.2.name = name
  messages := db.messages.delete fun e => e.2.queueName = name
  foreignKey := by
    intro e he
    obtain ⟨hmem, hne⟩ := List.mem_filter.mp he
    obtain ⟨d, hd, hk⟩ := Table.hasKey_eq_true.mp (db.foreignKey e hmem)
    refine Table.hasKey_eq_true.mpr ⟨d, List.mem_filter.mpr ⟨hd, ?_⟩, hk⟩
    simpa [hk] using hne

/-- `GetQueueMetadata`, the stored metadata of a queue. -/
def queueMetadata? (db : Database) (name : String) : Option QueueMetadata :=
  (db.queues.lookup name).map (·.metadata)

/-- `IsDLQ`: some queue names this one as its dead letter queue. -/
def isDLQ (db : Database) (name : String) : Bool :=
  db.queues.rows.any fun e => e.2.deadLetterQueueName = some name

/-! ### What the statements do to the rows -/

theorem insertMessage_eq_ok {db db' : Database} {row : MessageRow}
    (h : db.insertMessage row = .ok db') :
    db.queues.hasKey row.queueName = true ∧ db.messages.hasKey row.uniqueKey = false ∧
      db'.queues = db.queues ∧
      db'.messages.rows = db.messages.rows ++ [(db.messages.nextId, row)] ∧
      db'.messages.nextId = db.messages.nextId + 1 := by
  unfold insertMessage at h
  split at h
  · cases h
  · rename_i messages hins
    split at h
    · rename_i hq
      cases h
      obtain ⟨hfree, hrows, hnext⟩ := Table.insert_eq_some hins
      -- The row was stored, so both constraints were checked.
      exact ⟨hq, hfree, rfl, hrows, hnext⟩
    · cases h

theorem updateMessages_eq_ok {db db' : Database} {p : Nat × MessageRow → Bool}
    {f : MessageRow → MessageRow} (h : db.updateMessages p f = .ok db') :
    db'.queues = db.queues ∧ db'.messages.rows = Table.mapRows db.messages.rows p f ∧
      db'.messages.nextId = db.messages.nextId := by
  unfold updateMessages at h
  split at h
  · cases h
  · rename_i messages hupd
    split at h
    · cases h
      exact ⟨rfl, Table.update_eq_some hupd⟩
    · cases h

/-- Moving one row succeeds exactly when the target queue exists and no other row there has
its message id. -/
theorem updateMessages_isOk_of_selects {db : Database} {p : Nat × MessageRow → Bool}
    {f : MessageRow → MessageRow} {d : Nat × MessageRow}
    (hsel : Table.Selects db.messages.rows p d) :
    (∃ db', db.updateMessages p f = .ok db') ↔
      db.queues.hasKey (f d.2).queueName = true ∧
        ∀ e ∈ db.messages.rows, e ≠ d → e.2.uniqueKey ≠ (f d.2).uniqueKey := by
  rw [← Table.update_isSome_of_selects hsel]
  unfold updateMessages
  cases hupd : db.messages.update p f with
  | none => simp
  | some messages =>
    have hrows : messages.rows = Table.setRow db.messages.rows d.1 (f d.2) := by
      rw [(Table.update_eq_some hupd).1, Table.mapRows_eq_setRow hsel]
    simp only [Option.isSome_some, and_true]
    constructor
    -- A move that succeeded has put the row under a queue of the table.
    · rintro ⟨db', hdb'⟩
      split at hdb'
      · rename_i hfk
        exact hfk (d.1, f d.2)
          (hrows ▸ Table.mem_setRow.mpr (.inr ⟨rfl, d, hsel.1, rfl⟩))
      · cases hdb'
    -- All other rows refer to the queues they referred to before.
    · intro hq
      have hfk : ∀ e ∈ messages.rows, db.queues.hasKey e.2.queueName = true := by
        intro e he
        rw [hrows] at he
        rcases Table.mem_setRow.mp he with ⟨he, -⟩ | ⟨rfl, -⟩
        · exact db.foreignKey e he
        · exact hq
      exact ⟨_, dif_pos hfk⟩

theorem insertQueue_eq_ok {db db' : Database} {row : QueueRow} (h : db.insertQueue row = .ok db') :
    db.queues.insert row = some db'.queues ∧ db'.messages = db.messages := by
  unfold insertQueue at h
  split at h
  · cases h
  · rename_i queues hins
    cases h
    exact ⟨hins, rfl⟩

@[simp] theorem messages_modifyQueue (db : Database) (name : String) (f : QueueRow → QueueRow)
    (hf : ∀ row, (f row).name = row.name) : (db.modifyQueue name f hf).messages = db.messages :=
  rfl

@[simp] theorem queues_modifyMessages (db : Database) (p : Nat × MessageRow → Bool)
    (f : MessageRow → MessageRow) (hf : ∀ row, (f row).uniqueKey = row.uniqueKey) :
    (db.modifyMessages p f hf).queues = db.queues := rfl

@[simp] theorem queues_deleteMessages (db : Database) (p : Nat × MessageRow → Bool) :
    (db.deleteMessages p).queues = db.queues := rfl

end Database

end Nzovu.Repository
