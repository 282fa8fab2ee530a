import Nzovu.Foundation.Transaction.Alone
import Nzovu.Postgres.Commits

/-!
# The Two Backends on a Reclaim

The reclaim of an expired message is written twice, once for each backend, and split into different
statements. Run alone, both do the same: the same result or an error of the same kind, the same
row, the same counters.

- Section 1: the rows of a database as the Postgres transactions see them.
- Section 2: statements on one message, in both backends.
- Section 3: counters.
- Section 4: the reclaim.
-/

namespace Nzovu.Postgres

open Nzovu.Foundation
open Nzovu.Repository

/-! ## Section 1: A database and its rows -/

/-- The rows of a database, by their primary keys. -/
def stored (db : Database) : Store Key Row :=
  storeOf db.messages.rows (db.queues.rows.map fun e => (e.2.name, e.2))

/-- A transaction sees the rows of `db`; the schema knows their keys. -/
structure Shows (setup : Setup) (db : Database) (rows : Store Key Row) : Prop where
  messages : ∀ i row, rows (message i) = some row ↔ (i, row) ∈ db.messages.rows
  queues : ∀ q, rows (queue q) = db.queues.lookup q
  ids : ∀ e ∈ db.messages.rows, e.1 ∈ setup.ids
  names : ∀ q, db.queues.hasKey q = true → q ∈ setup.names

theorem stored_message {db : Database} {i : Nat} {row : MessageRow} :
    stored db (message i) = some row ↔ (i, row) ∈ db.messages.rows := by
  refine ⟨mem_of_storeOf, fun hmem => ?_⟩
  have hsel : Table.Selects db.messages.rows (fun e => e.1 = i) (i, row) :=
    Table.selects_of_id hmem (by simp) fun e he => by simpa using he
  show (db.messages.find? fun e => e.1 = i).map Prod.snd = some row
  rw [Table.find?_of_selects hsel]
  rfl

theorem stored_queue (db : Database) (q : String) :
    stored db (queue q) = db.queues.lookup q := by
  show ((db.queues.rows.map fun e => (e.2.name, e.2)).find? fun e => e.1 = q).map Prod.snd = _
  rw [List.find?_map, Option.map_map]
  rfl

/-- The database, and one call that is made on it at the instant `t`. -/
def Setup.ofDatabase (db : Database) (t : Int) (call : Call) : Setup :=
  Setup.ofRows db.messages.rows (db.queues.rows.map fun e => (e.2.name, e.2)) t (fun _ => call)
    (db.messages.ids_sorted.imp fun h => Nat.ne_of_lt h)
    (by simpa [Function.comp_def] using db.queues.keys_nodup) db.messages.keys_nodup
    (fun e he => by
      obtain ⟨d, hd, hname⟩ := Table.hasKey_eq_true.mp (db.foreignKey e he)
      simp only [List.map_map, List.mem_map]
      exact ⟨d, hd, hname⟩)

section Showing

variable {setup : Setup} {db db' : Database} {rows : Store Key Row}

theorem shows_ofDatabase (db : Database) (t : Int) (call : Call) :
    Shows (Setup.ofDatabase db t call) db (stored db) where
  messages := fun _ _ => stored_message
  queues := stored_queue db
  ids := fun _ he => List.mem_map_of_mem he
  names := fun q hq => by
    obtain ⟨e, he, hname⟩ := Table.hasKey_eq_true.mp hq
    simp only [Setup.ofDatabase, Setup.ofRows, List.map_map, List.mem_map]
    exact ⟨e, he, hname⟩

/-- A transaction that sees the rows of `db` commits exactly these. -/
theorem Shows.eq_stored (h : Shows setup db rows) : rows = stored db := by
  funext ⟨T, x⟩
  cases T with
  | messages =>
    refine Option.ext fun row => ?_
    exact (h.messages x row).trans stored_message.symm
  | queues => exact (h.queues x).trans (stored_queue db x).symm

theorem Shows.unique (h : Shows setup db rows) : setup.schema.Unique rows := by
  intro T x _ y _ hne a b ha hb
  cases T with
  | messages =>
    by_contra hclash
    have hkey : a.uniqueKey = b.uniqueKey := by
      simpa [Setup.schema, Postgres.schema, clash] using hclash
    have hsame := Table.eq_of_key ((h.messages x a).mp ha) ((h.messages y b).mp hb) hkey
    exact hne (congrArg Prod.fst hsame)
  | queues => rfl

/-- One message has a new version, in the database and in the rows. -/
theorem Shows.rewritten (h : Shows setup db rows) {i : Nat} {old new : MessageRow}
    (hrew : RowRewritten db db' i old new) :
    Shows setup db' (Function.update rows (message i) (some new)) where
  messages := by
    intro j row
    rw [hrew.rows, Table.mem_setRow]
    by_cases hj : j = i
    · subst hj
      simp only [Function.update_self, Option.some.injEq, ne_eq, not_true_eq_false, and_false,
        Prod.mk.injEq, true_and, false_or]
      exact ⟨fun hnew => ⟨hnew.symm, (j, old), hrew.mem, rfl⟩, fun hnew => hnew.1.symm⟩
    · rw [Function.update_of_ne (by simpa using hj)]
      simpa [hj] using h.messages j row
  queues := fun q => by
    rw [Function.update_of_ne (by simp), hrew.queues]
    exact h.queues q
  ids := fun e he => by
    rw [hrew.rows, Table.mem_setRow] at he
    rcases he with ⟨he, -⟩ | ⟨rfl, -⟩
    · exact h.ids e he
    · exact h.ids (i, old) hrew.mem
  names := fun q hq => h.names q (hrew.queues ▸ hq)

/-- One message is gone from both. -/
theorem Shows.dropped (h : Shows setup db rows) {i : Nat}
    (hrows : db'.messages.rows = Table.dropRow db.messages.rows i)
    (hqueues : db'.queues = db.queues) :
    Shows setup db' (Function.update rows (message i) none) where
  messages := by
    intro j row
    rw [hrows, Table.mem_dropRow]
    by_cases hj : j = i
    · subst hj
      simp
    · rw [Function.update_of_ne (by simpa using hj)]
      simpa [hj] using h.messages j row
  queues := fun q => by
    rw [Function.update_of_ne (by simp), hqueues]
    exact h.queues q
  ids := fun e he => by
    rw [hrows] at he
    exact h.ids e (Table.mem_dropRow.mp he).1
  names := fun q hq => h.names q (hqueues ▸ hq)

/-! ## Section 2: Statements on one message -/

variable (clock : Int) (held : Ref Key → Bool)

/-- `SELECT … FOR UPDATE` of a message by its key. -/
theorem alone_selectMessages (h : Shows setup db rows) {filter : Nat → MessageRow → Bool}
    (hone : SelectsOne (κ := Key) (T := Tab.messages) setup.schema filter) {i : Nat}
    {row : MessageRow} (hmem : (i, row) ∈ db.messages.rows) (hfilter : filter i row = true) :
    (selectMessages { filter := filter }).alone setup.schema clock ⟨rows, held⟩ =
      some (.ok ([(i, row)], ⟨rows, Function.update held (message i) true⟩)) :=
  Program.alone_select_one rfl h.unique hone (h.ids _ hmem) ((h.messages i row).mpr hmem) hfilter

theorem alone_selectMessages_none (h : Shows setup db rows) {filter : Nat → MessageRow → Bool}
    (hnone : ∀ e ∈ db.messages.rows, filter e.1 e.2 = false) :
    (selectMessages { filter := filter }).alone setup.schema clock ⟨rows, held⟩ =
      some (.ok ([], ⟨rows, held⟩)) :=
  Program.alone_select_none fun i _ row hrow => hnone (i, row) ((h.messages i row).mp hrow)

/-- The statement refuses a row exactly when the SQLite statement does, for the same reason. -/
theorem clashes_eq (h : Shows setup db rows) {i : Nat} {row new : MessageRow}
    (hmem : (i, row) ∈ db.messages.rows) :
    Private.clashes setup.schema ⟨rows, held⟩ Tab.messages i new = true ↔
      ∃ e ∈ db.messages.rows, e ≠ (i, row) ∧ e.2.uniqueKey = new.uniqueKey := by
  rw [Private.clashes, List.any_eq_true]
  constructor
  · rintro ⟨j, _, hj⟩
    simp only [ne_eq, decide_not, Bool.and_eq_true, Bool.not_eq_true',
      decide_eq_false_iff_not] at hj
    obtain ⟨hne, hclash⟩ := hj
    obtain ⟨other, hother, hclash⟩ := (Option.any_eq_true _ _).mp hclash
    refine ⟨(j, other), (h.messages j other).mp hother, fun heq => hne (congrArg Prod.fst heq), ?_⟩
    simpa [Setup.schema, Postgres.schema, clash, eq_comm] using hclash
  · rintro ⟨⟨j, other⟩, hother, hne, hkey⟩
    refine ⟨j, h.ids _ hother, ?_⟩
    have hji : j ≠ i := fun hji => hne (Table.eq_of_id hother hmem hji)
    simp [hji, (h.messages j other).mpr hother, Setup.schema, Postgres.schema, clash, hkey]

theorem dangling_eq (h : Shows setup db rows) (new : MessageRow) :
    Private.dangling setup.schema ⟨rows, held⟩ Tab.messages new =
      !db.queues.hasKey new.queueName := by
  simp [Private.dangling, Setup.schema, Postgres.schema, requires, h.queues,
    ← Table.lookup_isSome, Option.not_isSome]

/-- A statement that keeps the key of the message. -/
theorem alone_modify (h : Shows setup db rows) (new : MessageRow)
    {filter : Nat → MessageRow → Bool} {set : MessageRow → Option MessageRow}
    {refused : Violation → StorageError}
    (hone : SelectsOne (κ := Key) (T := Tab.messages) setup.schema filter) {i : Nat}
    {row : MessageRow} (hmem : (i, row) ∈ db.messages.rows) (hfilter : filter i row = true)
    (hset : set row = some new) (hkey : new.uniqueKey = row.uniqueKey) :
    (Program.modify Tab.messages filter set refused).alone setup.schema clock ⟨rows, held⟩ =
      some (.ok ([(i, row)], ⟨Function.update rows (message i) (some new),
        Function.update held (message i) true⟩)) := by
  have hclash : Private.clashes setup.schema ⟨rows, held⟩ Tab.messages i new = false := by
    rw [Bool.eq_false_iff, ne_eq, clashes_eq held h hmem]
    rintro ⟨e, he, hne, hsame⟩
    exact hne (Table.eq_of_key he hmem (hsame.trans hkey))
  have hdangling : Private.dangling setup.schema ⟨rows, held⟩ Tab.messages new = false := by
    have hname : new.queueName = row.queueName := congrArg Prod.fst hkey
    simp [dangling_eq held h, hname, db.foreignKey _ hmem]
  rw [Program.alone_modify_one h.unique hone (h.ids _ hmem) ((h.messages i row).mpr hmem) hfilter]
  simp only [hset, Option.any_some, hclash, hdangling, Bool.false_eq_true, if_false]
  rfl

/-- A statement that deletes the message. -/
theorem alone_delete (h : Shows setup db rows) {filter : Nat → MessageRow → Bool}
    {refused : Violation → StorageError}
    (hone : SelectsOne (κ := Key) (T := Tab.messages) setup.schema filter) {i : Nat}
    {row : MessageRow} (hmem : (i, row) ∈ db.messages.rows) (hfilter : filter i row = true) :
    (Program.modify Tab.messages filter (fun _ => none) refused).alone setup.schema clock
      ⟨rows, held⟩ =
        some (.ok ([(i, row)], ⟨Function.update rows (message i) none,
          Function.update held (message i) true⟩)) :=
  (Program.alone_modify_one h.unique hone (h.ids _ hmem) ((h.messages i row).mpr hmem)
    hfilter).trans rfl

/-- A statement that may move the message to another queue: both backends refuse it, or neither
does. -/
theorem alone_move (h : Shows setup db rows) (f : MessageRow → MessageRow)
    (refused : Violation → StorageError) {filter : Nat → MessageRow → Bool}
    (hone : SelectsOne (κ := Key) (T := Tab.messages) setup.schema filter) {i : Nat}
    {row : MessageRow} (hmem : (i, row) ∈ db.messages.rows) (hfilter : filter i row = true)
    (hsel : Table.Selects db.messages.rows (fun e => filter e.1 e.2) (i, row)) :
    match db.updateMessages (fun e => filter e.1 e.2) f with
    | .error _ => ∃ violation,
        (Program.modify Tab.messages filter (fun row => some (f row)) refused).alone setup.schema
          clock ⟨rows, held⟩ = some (.error (refused violation))
    | .ok _ =>
        (Program.modify Tab.messages filter (fun row => some (f row)) refused).alone setup.schema
          clock ⟨rows, held⟩ = some (.ok ([(i, row)],
            ⟨Function.update rows (message i) (some (f row)),
              Function.update held (message i) true⟩)) := by
  rw [Program.alone_modify_one h.unique hone (h.ids _ hmem) ((h.messages i row).mpr hmem) hfilter]
  simp only [Option.any_some, dangling_eq held h]
  have hok := Database.updateMessages_isOk_of_selects (f := f) hsel
  have hclash : Private.clashes setup.schema ⟨rows, held⟩ Tab.messages i (f row) = false ↔
      ∀ e ∈ db.messages.rows, e ≠ (i, row) → e.2.uniqueKey ≠ (f row).uniqueKey := by
    rw [Bool.eq_false_iff, ne_eq, clashes_eq held h hmem]
    constructor
    · intro hfree e he hne hsame
      exact hfree ⟨e, he, hne, hsame⟩
    · intro hfree hclashes
      obtain ⟨e, he, hne, hsame⟩ := hclashes
      exact hfree e he hne hsame
  cases hupd : db.updateMessages (fun e => filter e.1 e.2) f with
  | ok db' =>
    obtain ⟨hkey, hfree⟩ := hok.mp ⟨db', hupd⟩
    simp only [hclash.mpr hfree, hkey, Bool.not_true, Bool.false_eq_true, if_false]
    rfl
  | error constraint =>
    by_cases hfree : Private.clashes setup.schema ⟨rows, held⟩ Tab.messages i (f row) = true
    · exact ⟨.unique, if_pos hfree⟩
    · have hmissing : db.queues.hasKey (f row).queueName = false := by
        by_contra hkey
        obtain ⟨db', hdb'⟩ := hok.mpr ⟨by simpa using hkey, hclash.mp (by simpa using hfree)⟩
        rw [hupd] at hdb'
        cases hdb'
      refine ⟨.foreignKey, ?_⟩
      rw [if_neg hfree, hmissing]
      rfl

/-! ## Section 3: Counters -/

theorem Shows.addCounter (h : Shows setup db rows) {q : String} {old : QueueRow}
    (hold : db.queues.lookup q = some old) (state : MessageState) (amount : Int) :
    Shows setup (Repository.addCounter db q state amount)
      (Function.update rows (queue q) (some (old.addCount (stateToKey state) amount))) where
  messages := fun i row => by
    rw [Function.update_of_ne (by simp)]
    exact h.messages i row
  queues := fun q' => by
    have hlookup := Table.lookup_modify db.queues q q'
      (QueueRow.addCount (stateToKey state) amount) (fun _ => rfl)
    refine Eq.trans ?_ hlookup.symm
    by_cases hq : q' = q
    · subst hq
      simp [hold]
    · rw [Function.update_of_ne (by simpa using hq), h.queues]
      simp [hq]
  ids := h.ids
  names := fun q' hq' => h.names q' (by simpa using hq')

/-- The two backends count alike. -/
theorem alone_addCounter (h : Shows setup db rows) {q : String}
    (hq : db.queues.hasKey q = true) (state : MessageState) (amount : Int) :
    ∃ rows' held', (addCounter q state amount).alone setup.schema clock ⟨rows, held⟩ =
      some (.ok ((), ⟨rows', held'⟩)) ∧
      Shows setup (Repository.addCounter db q state amount) rows' := by
  obtain ⟨old, hold⟩ := Option.isSome_iff_exists.mp (Table.lookup_isSome.trans hq)
  have hone : SelectsOne (κ := Key) (T := Tab.queues) setup.schema
      fun name _ => decide (name = q) := fun x y _ _ hx hy =>
    .inl ((of_decide_eq_true hx).trans (of_decide_eq_true hy).symm)
  have hfree : ∀ row, Private.clashes setup.schema ⟨rows, held⟩ Tab.queues q row = false := by
    simp [Private.clashes, Setup.schema, Postgres.schema, clash]
  have hstatement : (Program.update Tab.queues (fun name _ => decide (name = q))
      (QueueRow.addCount (stateToKey state) amount) (refused "update counter")).alone setup.schema
        clock ⟨rows, held⟩ = some (.ok ([(q, old)],
          ⟨Function.update rows (queue q) (some (old.addCount (stateToKey state) amount)),
            Function.update held (queue q) true⟩)) := by
    rw [Program.update, Program.alone_modify_one h.unique hone (h.names q hq)
      ((h.queues q).trans hold) (decide_eq_true rfl)]
    simp only [Option.any_some, hfree, Bool.false_eq_true, if_false]
    rfl
  exact ⟨_, _, Program.alone_bind_ok hstatement _, h.addCounter hold state amount⟩

theorem alone_updateCounters (h : Shows setup db rows) {q : String}
    (hq : db.queues.hasKey q = true) (old new : MessageState) :
    ∃ rows' held', (updateCounters q old new).alone setup.schema clock ⟨rows, held⟩ =
      some (.ok ((), ⟨rows', held'⟩)) ∧
      Shows setup (Repository.updateCounters db q old new) rows' := by
  unfold updateCounters Repository.updateCounters
  split
  · exact ⟨rows, held, rfl, h⟩
  · obtain ⟨rows₁, held₁, hdecrement, h₁⟩ := alone_addCounter clock held h hq old (-1)
    obtain ⟨rows₂, held₂, hincrement, h₂⟩ :=
      alone_addCounter clock held₁ h₁ (by simpa using hq) new 1
    exact ⟨rows₂, held₂, (Program.alone_bind_ok hdecrement _).trans hincrement, h₂⟩

theorem alone_moveCounter (h : Shows setup db rows) {q q' : String}
    (hq : db.queues.hasKey q = true) (hq' : db.queues.hasKey q' = true)
    (old new : MessageState) :
    ∃ rows' held', (moveCounter q old q' new).alone setup.schema clock ⟨rows, held⟩ =
      some (.ok ((), ⟨rows', held'⟩)) ∧
      Shows setup (Repository.moveCounter db q old q' new) rows' := by
  obtain ⟨rows₁, held₁, hdecrement, h₁⟩ := alone_addCounter clock held h hq old (-1)
  obtain ⟨rows₂, held₂, hincrement, h₂⟩ :=
    alone_addCounter clock held₁ h₁ (by simpa using hq') new 1
  exact ⟨rows₂, held₂, (Program.alone_bind_ok hdecrement _).trans hincrement, h₂⟩

theorem alone_removeCounter (h : Shows setup db rows) {q : String}
    (hq : db.queues.hasKey q = true) (state : MessageState) :
    ∃ rows' held' db', (removeCounter q state).alone setup.schema clock ⟨rows, held⟩ =
      some (.ok ((), ⟨rows', held'⟩)) ∧
      Repository.removeCounter db q state = .ok db' ∧ Shows setup db' rows' := by
  obtain ⟨rows', held', hcount, h'⟩ := alone_addCounter clock held h hq state (-1)
  exact ⟨rows', held', _, hcount, rfl, h'⟩

/-! ## Section 4: The reclaim -/

theorem alone_calculateDeletion (policy : Option RetentionPolicy) :
    (calculateDeletion policy).alone setup.schema clock ⟨rows, held⟩ =
      some (.ok (Repository.calculateDeletion clock policy, ⟨rows, held⟩)) := by
  unfold calculateDeletion
  cases policy with
  | none => rfl
  | some policy =>
    cases hmode : policy.mode <;> simp [hmode, Repository.calculateDeletion] <;> rfl

theorem alone_getQueueMetadata (h : Shows setup db rows) (q : String) :
    (getQueueMetadata q).alone setup.schema clock ⟨rows, held⟩ =
      match Repository.getQueueMetadata db q with
      | .ok metadata => some (.ok (metadata, ⟨rows, held⟩))
      | .error err => some (.error (err.wrap "get queue metadata")) := by
  have hread : (Program.readRows : Transaction _).alone setup.schema clock ⟨rows, held⟩ =
      some (.ok (setup.schema.scan rows, ⟨rows, held⟩)) := rfl
  have hlookup := h.queues q
  refine (Program.alone_bind_ok hread _).trans ?_
  unfold Repository.getQueueMetadata Database.queueMetadata?
  cases hfind : (setup.schema.scan rows .queues).find? fun e => e.1 = q with
  | none =>
    cases hrow : db.queues.lookup q with
    | none => rfl
    | some row =>
      have hkey : q ∈ setup.names := h.names q (by rw [← Table.lookup_isSome, hrow]; rfl)
      have hmem : (q, row) ∈ setup.schema.scan rows .queues :=
        setup.schema.mem_scan.mpr ⟨hkey, hlookup.trans hrow⟩
      have hne := List.find?_eq_none.mp hfind (q, row) hmem
      simp at hne
  | some e =>
    have hname : e.1 = q := by simpa using List.find?_some hfind
    have hrow := (setup.schema.mem_scan.mp (List.mem_of_find?_eq_some hfind)).2
    rw [hname, hlookup] at hrow
    rw [hrow]
    rfl

/-- The Postgres outcome says the same as the SQLite result: the same reply and the same rows, or
an error of the same kind. -/
def Agrees (setup : Setup) (outcome : Option (Except StorageError (Reply × Private Key Row))) :
    Except StorageError (Database × ReclaimResult) → Prop
  | .ok (db', result) => ∃ i rows held, outcome = some (.ok (.reclaimed i result, ⟨rows, held⟩)) ∧
      Shows setup db' rows
  | .error err => ∃ err', outcome = some (.error err') ∧ err'.kind = err.kind

/-- The statement on a reclaimed row affects that row only. -/
theorem alone_settleReclaimed {queueName messageId context : String} {newState : MessageState}
    {set : MessageRow → Option MessageRow} {i : Nat} {row : MessageRow} {s : Private Key Row}
    (h : (Program.modify Tab.messages
      (fun (_ : Nat) row => addressed queueName messageId row && row.state = newState)
      set (refused context)).alone setup.schema clock ⟨rows, held⟩ = some (.ok ([(i, row)], s))) :
    (settleReclaimed queueName messageId newState context set).alone setup.schema clock
      ⟨rows, held⟩ = some (.ok ((), s)) :=
  (Program.alone_bind_ok h _).trans rfl

/-- However a message was rewritten before, deleting it gives the same database. -/
theorem deleteMessages_eq {db₁ db₂ : Database} {i : Nat} {old new₁ new₂ : MessageRow}
    {p : Nat × MessageRow → Bool} (h₁ : RowRewritten db db₁ i old new₁)
    (h₂ : RowRewritten db db₂ i old new₂) (hsel₁ : Table.Selects db₁.messages.rows p (i, new₁))
    (hsel₂ : Table.Selects db₂.messages.rows p (i, new₂)) :
    db₁.deleteMessages p = db₂.deleteMessages p := by
  have hrows : (db₁.messages.delete p).rows = (db₂.messages.delete p).rows := by
    rw [Table.rows_delete, Table.rows_delete, Table.filter_eq_dropRow hsel₁,
      Table.filter_eq_dropRow hsel₂, h₁.rows, h₂.rows, Table.dropRow_setRow, Table.dropRow_setRow]
  have hnext : db₁.messages.nextId = db₂.messages.nextId := h₁.nextId.trans h₂.nextId.symm
  have hqueues : db₁.queues = db₂.queues := h₁.queues.trans h₂.queues.symm
  simp only [Database.deleteMessages, hqueues, Table.delete] at hrows ⊢
  simp only [hrows, hnext]

section Finish

variable {queueName messageId : String} {metadata : QueueMetadata} {deletion : Bool × Option Int}
  {i : Nat} {row : MessageRow}

/-- The reclaimed row is the one a settling statement is about. -/
structure Reclaimed (db : Database) (queueName messageId : String) (newState : MessageState)
    (i : Nat) (row : MessageRow) : Prop where
  mem : (i, row) ∈ db.messages.rows
  queue : row.queueName = queueName
  message : row.messageId = messageId
  state : row.state = newState

theorem Reclaimed.filter {newState : MessageState}
    (hrow : Reclaimed db queueName messageId newState i row) :
    (addressed queueName messageId row && row.state = newState) = true := by
  simp [addressed, hrow.queue, hrow.message, hrow.state]

theorem Reclaimed.selects {newState : MessageState}
    (hrow : Reclaimed db queueName messageId newState i row) :
    Table.Selects db.messages.rows
      (fun e => addressed queueName messageId e.2 && e.2.state = newState) (i, row) :=
  selects_addressed_state hrow.mem hrow.queue hrow.message hrow.state

/-- An exhausted message without dead letter queue and retention is deleted and uncounted. -/
theorem alone_finishReclaim_deleted (h : Shows setup db rows)
    (hrow : Reclaimed db queueName messageId .errored i row)
    (hdlq : metadata.deadLetterQueueName = "") (hdelete : deletion.1 = true) :
    ∃ rows' held' db', (finishReclaim metadata deletion queueName messageId clock .errored).alone
      setup.schema clock ⟨rows, held⟩ = some (.ok ((), ⟨rows', held'⟩)) ∧
      Repository.removeCounter (db.deleteMessages fun e =>
        addressed queueName messageId e.2 && e.2.state = .errored) queueName .running = .ok db' ∧
      Shows setup db' rows' := by
  have hkey : db.queues.hasKey queueName = true := hrow.queue ▸ db.foreignKey _ hrow.mem
  have hdropped : Shows setup (db.deleteMessages fun e =>
      addressed queueName messageId e.2 && e.2.state = .errored)
      (Function.update rows (Postgres.message i) none) :=
    h.dropped (Table.filter_eq_dropRow hrow.selects) rfl
  obtain ⟨rows', held', db', hcount, hok, hshows⟩ := alone_removeCounter clock
    (Function.update held (Postgres.message i) true) hdropped hkey .running
  refine ⟨rows', held', db', ?_, hok, hshows⟩
  simp only [finishReclaim, hdlq, hdelete, and_self, if_true]
  exact (Program.alone_bind_ok (alone_settleReclaimed clock held (alone_delete clock held h
    (selectsOne_addressed_state queueName messageId .errored) hrow.mem hrow.filter)) _).trans hcount

/-- Without a dead letter queue it is kept until its retention ends. -/
theorem alone_finishReclaim_kept (h : Shows setup db rows)
    (hrow : Reclaimed db queueName messageId .errored i row)
    (hdlq : metadata.deadLetterQueueName = "") (hkeep : deletion.1 = false) {db₁ : Database}
    (hrew : RowRewritten db db₁ i row
      { row with completedAt := some clock, deletedAt := deletion.2 }) :
    ∃ rows' held', (finishReclaim metadata deletion queueName messageId clock .errored).alone
      setup.schema clock ⟨rows, held⟩ = some (.ok ((), ⟨rows', held'⟩)) ∧
      Shows setup (Repository.updateCounters db₁ queueName .running .errored) rows' := by
  have hkey : db₁.queues.hasKey queueName = true := by
    rw [hrew.queues, ← hrow.queue]
    exact db.foreignKey _ hrow.mem
  obtain ⟨rows', held', hcount, hshows⟩ := alone_updateCounters clock
    (Function.update held (Postgres.message i) true) (h.rewritten hrew) hkey .running .errored
  refine ⟨rows', held', ?_, hshows⟩
  simp only [finishReclaim, hdlq, hkeep, and_self, if_true, Bool.false_eq_true, if_false]
  exact (Program.alone_bind_ok (alone_settleReclaimed clock held (alone_modify clock held h
    { row with completedAt := some clock, deletedAt := deletion.2 }
    (selectsOne_addressed_state queueName messageId .errored) hrow.mem hrow.filter rfl rfl))
    _).trans hcount

/-- A message with attempts left goes back; an exhausted one goes to the dead letter queue if it
can. -/
theorem alone_finishReclaim_settled (h : Shows setup db rows) {newState : MessageState}
    (hrow : Reclaimed db queueName messageId newState i row)
    (hsettled : ¬ (newState = .errored ∧ metadata.deadLetterQueueName = "")) :
    match Repository.settleReclaimed db queueName messageId metadata.deadLetterQueueName
      newState with
    | .ok db' => ∃ rows' held',
        (finishReclaim metadata deletion queueName messageId clock newState).alone setup.schema
          clock ⟨rows, held⟩ = some (.ok ((), ⟨rows', held'⟩)) ∧ Shows setup db' rows'
    | .error err => ∃ err',
        (finishReclaim metadata deletion queueName messageId clock newState).alone setup.schema
          clock ⟨rows, held⟩ = some (.error err') ∧ err'.kind = err.kind := by
  have hkey : db.queues.hasKey queueName = true := hrow.queue ▸ db.foreignKey _ hrow.mem
  simp only [finishReclaim, if_neg hsettled, Repository.settleReclaimed]
  by_cases herr : newState = .errored
  · have hdlq : metadata.deadLetterQueueName ≠ "" := fun hdlq => hsettled ⟨herr, hdlq⟩
    have hmove := alone_move clock held h
      (fun row => { row with queueName := metadata.deadLetterQueueName })
      (refused "move message to DLQ") (selectsOne_addressed_state queueName messageId newState)
      hrow.mem hrow.filter hrow.selects
    rw [if_pos herr, if_pos ⟨herr, hdlq⟩]
    cases hupd : db.updateMessages
        (fun e => addressed queueName messageId e.2 && e.2.state = newState)
        (fun row => { row with queueName := metadata.deadLetterQueueName }) with
    | error constraint =>
      simp only [hupd] at hmove
      obtain ⟨violation, hmove⟩ := hmove
      exact ⟨_, Program.alone_bind_error (Program.alone_bind_error hmove _) _, rfl⟩
    | ok db₁ =>
      simp only [hupd] at hmove
      have hrew := RowRewritten.of_updateMessages hrow.selects hupd
      have htarget : db₁.queues.hasKey metadata.deadLetterQueueName = true :=
        db₁.foreignKey _ hrew.mem_new
      obtain ⟨rows', held', hcount, hshows⟩ := alone_moveCounter clock
        (Function.update held (Postgres.message i) true) (h.rewritten hrew)
        (hrew.queues ▸ hkey) htarget .running newState
      exact ⟨rows', held', (Program.alone_bind_ok (alone_settleReclaimed clock held hmove) _).trans
        hcount, hshows⟩
  · rw [if_neg herr, if_neg fun hboth => herr hboth.1]
    exact alone_updateCounters clock held h hkey .running newState

end Finish

section Tail

variable {queueName messageId attemptId : String} {metadata : QueueMetadata} {i : Nat}
  {row : MessageRow}

/-- What SQLite does once it has found the row, without the reply. -/
def settleExpired (db : Database) (queueName messageId attemptId : String)
    (metadata : QueueMetadata) (nowMs : Int) (row : MessageRow) : Except StorageError Database :=
  let (shouldDelete, deletedAt) :=
    Repository.calculateDeletion nowMs metadata.messageRetentionPolicy
  let newState := reclaimState row
  let db₁ := db.modifyMessages (fun e => reclaimable queueName messageId attemptId nowMs e.2)
    (reclaimRow nowMs) fun _ => rfl
  if newState = .errored ∧ metadata.deadLetterQueueName = "" ∧ shouldDelete = true then
    Repository.removeCounter (db₁.deleteMessages fun e =>
      addressed queueName messageId e.2 && e.2.state = newState) queueName .running
  else
    let terminal := reclaimTimestamps newState metadata.deadLetterQueueName nowMs deletedAt
    Repository.settleReclaimed (db₁.modifyMessages (fun e => addressed queueName messageId e.2)
      (clearReclaimedRow terminal.1 terminal.2) fun _ => rfl) queueName messageId
      metadata.deadLetterQueueName newState

theorem reclaimExpiredMessage_of_none {expired : ExpiredMessage}
    (hget : Repository.getQueueMetadata db queueName = .ok metadata)
    (hfind : db.messages.find? (fun e =>
      reclaimable queueName expired.messageId expired.attemptId clock e.2) = none) :
    Repository.reclaimExpiredMessage db (fun _ => clock) queueName expired =
      .error (.plain "message is no longer expired") := by
  unfold Repository.reclaimExpiredMessage
  simp only [hget, hfind]

theorem reclaimExpiredMessage_of_some {expired : ExpiredMessage}
    (hget : Repository.getQueueMetadata db queueName = .ok metadata)
    (hfind : db.messages.find? (fun e =>
      reclaimable queueName expired.messageId expired.attemptId clock e.2) = some (i, row)) :
    Repository.reclaimExpiredMessage db (fun _ => clock) queueName expired =
      (settleExpired db queueName expired.messageId expired.attemptId metadata clock row).map
        fun db' => (db', { state := reclaimState row
                           leaseExpired := leaseExpired clock row
                           heartbeatExpired := heartbeatExpired clock row
                           dlqTarget := if reclaimState row = .errored then
                             metadata.deadLetterQueueName else "" }) := by
  unfold Repository.reclaimExpiredMessage settleExpired
  simp only [hget, hfind]
  split
  · cases Repository.removeCounter _ queueName .running <;> rfl
  · cases Repository.settleReclaimed _ queueName expired.messageId metadata.deadLetterQueueName
      (reclaimState row) <;> rfl

/-- After Postgres has written the cleared row in one statement, both backends settle it alike. -/
theorem alone_finishReclaim (h : Shows setup db rows) (metadata : QueueMetadata)
    (hmem : (i, row) ∈ db.messages.rows)
    (hrec : reclaimable queueName messageId attemptId clock row = true) :
    match settleExpired db queueName messageId attemptId metadata clock row with
    | .ok db' => ∃ rows' held', (finishReclaim metadata
        (Repository.calculateDeletion clock metadata.messageRetentionPolicy) queueName messageId
        clock (reclaimState row)).alone setup.schema clock ⟨Function.update rows (message i)
          (some (clearReclaimedRow none none (reclaimRow clock row))), held⟩ =
            some (.ok ((), ⟨rows', held'⟩)) ∧ Shows setup db' rows'
    | .error err => ∃ err', (finishReclaim metadata
        (Repository.calculateDeletion clock metadata.messageRetentionPolicy) queueName messageId
        clock (reclaimState row)).alone setup.schema clock ⟨Function.update rows (message i)
          (some (clearReclaimedRow none none (reclaimRow clock row))), held⟩ =
            some (.error err') ∧ err'.kind = err.kind := by
  obtain ⟨hqueue, hmessage, hstate, -⟩ := reclaimable_iff.mp hrec
  have hsel : Table.Selects db.messages.rows
      (fun e => reclaimable queueName messageId attemptId clock e.2) (i, row) :=
    selects_of_addressed queueName messageId hmem hrec fun e he =>
      ⟨(reclaimable_iff.mp he).queue, (reclaimable_iff.mp he).message⟩
  have hfirst := RowRewritten.of_modifyMessages (f := reclaimRow clock) (fun _ => rfl) hsel
  -- The two statements of SQLite give the row Postgres writes in one.
  have hcleared : ∀ completedAt deletedAt, RowRewritten db ((db.modifyMessages
      (fun e => reclaimable queueName messageId attemptId clock e.2) (reclaimRow clock)
        fun _ => rfl).modifyMessages (fun e => addressed queueName messageId e.2)
        (clearReclaimedRow completedAt deletedAt) fun _ => rfl) i row
          (clearReclaimedRow completedAt deletedAt (reclaimRow clock row)) :=
    fun completedAt deletedAt => hfirst.trans
      (RowRewritten.of_modifyMessages (f := clearReclaimedRow completedAt deletedAt)
        (fun _ => rfl) (selects_addressed hfirst.mem_new hqueue hmessage))
  have hmid := hcleared none none
  have hshows := h.rewritten hmid
  have hrow : Reclaimed _ queueName messageId (reclaimState row) i _ :=
    ⟨hmid.mem_new, hqueue, hmessage, rfl⟩
  generalize hdeletion : Repository.calculateDeletion clock metadata.messageRetentionPolicy =
    deletion
  simp only [settleExpired, hdeletion]
  by_cases hterm : reclaimState row = .errored ∧ metadata.deadLetterQueueName = ""
  · obtain ⟨herr, hdlq⟩ := hterm
    rw [herr] at hrow ⊢
    by_cases hdelete : deletion.1 = true
    · have hselected : Table.Selects _ _ (i, reclaimRow clock row) :=
        selects_addressed_state hfirst.mem_new hqueue hmessage herr
      have hsame := deleteMessages_eq hfirst hmid hselected hrow.selects
      obtain ⟨rows', held', db', hfinish, hok, hshows'⟩ :=
        alone_finishReclaim_deleted clock held hshows hrow hdlq hdelete
      rw [if_pos ⟨rfl, hdlq, hdelete⟩, hsame, hok]
      exact ⟨rows', held', hfinish, hshows'⟩
    · have hkeep : deletion.1 = false := by simpa using hdelete
      have hkept := hcleared (some clock) deletion.2
      obtain ⟨rows', held', hfinish, hshows'⟩ := alone_finishReclaim_kept clock held hshows hrow
        hdlq hkeep ⟨hmid.mem_new, by rw [hkept.rows, hmid.rows, Table.setRow_setRow]; rfl,
          hkept.nextId.trans hmid.nextId.symm, hkept.queues.trans hmid.queues.symm⟩
      rw [if_neg fun hall => hdelete hall.2.2]
      simp only [reclaimTimestamps, Repository.settleReclaimed, hdlq, ne_eq, not_true_eq_false,
        and_false, and_self, if_true, if_false]
      exact ⟨rows', held', hfinish, hshows'⟩
  · rw [if_neg fun hall => hterm ⟨hall.1, hall.2.1⟩]
    simp only [reclaimTimestamps, if_neg hterm]
    exact alone_finishReclaim_settled clock held hshows hrow hterm

end Tail

/-- The `WHERE` clause of the SQLite statement is that of the Postgres `SELECT` with the expiry. -/
theorem reclaimable_eq (queueName messageId attemptId : String) (nowMs : Int) (row : MessageRow) :
    reclaimable queueName messageId attemptId nowMs row =
      (heldBy queueName messageId attemptId row && anyExpired nowMs row) :=
  Bool.and_right_comm _ _ _

/-- The row the session has locked has not expired, so SQLite does not find it either. -/
theorem find?_reclaimable_of_fresh {queueName messageId attemptId : String} {i : Nat}
    {row : MessageRow} (hmem : (i, row) ∈ db.messages.rows)
    (hheld : heldBy queueName messageId attemptId row = true)
    (hfresh : ¬ anyExpired clock row = true) :
    db.messages.find? (fun e => reclaimable queueName messageId attemptId clock e.2) = none := by
  obtain ⟨hqueue, hmessage, -⟩ := heldBy_iff.mp hheld
  refine List.find?_eq_none.mpr fun e he hrec => ?_
  have hrec' := reclaimable_iff.mp hrec
  have hsame : e = (i, row) := Table.eq_of_key he hmem (by
    rw [MessageRow.uniqueKey, MessageRow.uniqueKey, hrec'.queue, hrec'.message, hqueue, hmessage])
  rw [hsame] at hrec'
  exact hfresh hrec'.expired

/-- Postgres locks the row first and then looks whether it has expired. -/
theorem alone_lockExpired (h : Shows setup db rows) {queueName messageId attemptId : String}
    {i : Nat} {row : MessageRow} (hmem : (i, row) ∈ db.messages.rows)
    (hheld : heldBy queueName messageId attemptId row = true) :
    (selectMessages { filter := fun _ row => heldBy queueName messageId attemptId row }).alone
      setup.schema clock ⟨rows, held⟩ =
        some (.ok ([(i, row)], ⟨rows, Function.update held (message i) true⟩)) := by
  refine alone_selectMessages clock held h ?_ hmem hheld
  apply selectsOne_of_addressed queueName messageId
  intro _ row h
  obtain ⟨hqueue, hmessage, -⟩ := heldBy_iff.mp h
  exact addressed_iff.mpr ⟨hqueue, hmessage⟩

/-- Then it writes the reclaimed row. -/
theorem alone_updateReclaimed (h : Shows setup db rows) {queueName messageId attemptId : String}
    {i : Nat} {row : MessageRow} (hmem : (i, row) ∈ db.messages.rows)
    (hrec : reclaimable queueName messageId attemptId clock row = true) :
    (updateMessages (fun _ row => reclaimable queueName messageId attemptId clock row)
      (fun row => clearReclaimedRow none none (reclaimRow clock row))
      (refused "update message")).alone setup.schema clock ⟨rows, held⟩ =
        some (.ok ([(i, row)], ⟨Function.update rows (message i)
          (some (clearReclaimedRow none none (reclaimRow clock row))),
          Function.update held (message i) true⟩)) := by
  refine alone_modify clock held h (clearReclaimedRow none none (reclaimRow clock row)) ?_ hmem
    hrec rfl rfl
  apply selectsOne_of_addressed queueName messageId
  intro _ row h
  exact addressed_iff.mpr ⟨(reclaimable_iff.mp h).queue, (reclaimable_iff.mp h).message⟩

/-- **Agreement of the transactions**: on the same rows at one instant. -/
theorem agrees_reclaimExpiredMessage (h : Shows setup db rows) (queueName : String)
    (expired : ExpiredMessage) :
    Agrees setup
      ((reclaimExpiredMessage queueName expired).alone setup.schema clock ⟨rows, held⟩)
      (Repository.reclaimExpiredMessage db (fun _ => clock) queueName expired) := by
  unfold reclaimExpiredMessage
  have hmeta := alone_getQueueMetadata clock held h queueName
  cases hget : Repository.getQueueMetadata db queueName with
  | error err =>
    rw [hget] at hmeta
    have hsqlite : Repository.reclaimExpiredMessage db (fun _ => clock) queueName expired =
        .error (err.wrap "get queue metadata") := by
      unfold Repository.reclaimExpiredMessage
      rw [hget]
    rw [hsqlite]
    exact ⟨_, Program.alone_bind_error hmeta _, rfl⟩
  | ok metadata =>
    rw [hget] at hmeta
    have hclock : (Program.readClock : Transaction Int).alone setup.schema clock ⟨rows, held⟩ =
      some (.ok (clock, ⟨rows, held⟩)) := rfl
    rw [Program.alone_bind_ok hmeta, Program.alone_bind_ok (alone_calculateDeletion clock held _),
      Program.alone_bind_ok hclock]
    by_cases hsome : ∃ e ∈ db.messages.rows,
        heldBy queueName expired.messageId expired.attemptId e.2 = true
    · obtain ⟨⟨i, row⟩, hmem, hheld⟩ := hsome
      rw [Program.alone_bind_ok (alone_lockExpired clock held h hmem hheld)]
      simp only
      by_cases hexpired : anyExpired clock row = true
      · have hrec : reclaimable queueName expired.messageId expired.attemptId clock row = true := by
          rw [reclaimable_eq, hheld, hexpired]
          rfl
        have hsel : Table.Selects db.messages.rows (fun e =>
            reclaimable queueName expired.messageId expired.attemptId clock e.2) (i, row) :=
          selects_of_addressed queueName expired.messageId hmem hrec fun e he =>
            ⟨(reclaimable_iff.mp he).queue, (reclaimable_iff.mp he).message⟩
        have hfinish := alone_finishReclaim clock
          (Function.update (Function.update held (message i) true) (message i) true) h metadata hmem
          hrec
        rw [if_pos hexpired, Program.alone_bind_ok (alone_updateReclaimed clock _ h hmem hrec),
          reclaimExpiredMessage_of_some clock hget (Table.find?_of_selects hsel)]
        cases htail : settleExpired db queueName expired.messageId expired.attemptId metadata clock
            row with
        | ok db' =>
          simp only [htail] at hfinish
          obtain ⟨rows', held', hfinish, hshows⟩ := hfinish
          exact ⟨i, rows', held', Program.alone_bind_ok hfinish _, hshows⟩
        | error err =>
          simp only [htail] at hfinish
          obtain ⟨err', hfinish, hkind⟩ := hfinish
          exact ⟨err', Program.alone_bind_error hfinish _, hkind⟩
      · rw [if_neg hexpired, reclaimExpiredMessage_of_none clock hget
          (find?_reclaimable_of_fresh clock hmem hheld hexpired)]
        exact ⟨_, rfl, rfl⟩
    · -- Nothing is locked, and the SQLite statement updates nothing.
      have hnone : ∀ e ∈ db.messages.rows,
          heldBy queueName expired.messageId expired.attemptId e.2 = false := by
        intro e he
        by_contra hheld
        exact hsome ⟨e, he, by simpa using hheld⟩
      have hfind : db.messages.find? (fun e =>
          reclaimable queueName expired.messageId expired.attemptId clock e.2) = none := by
        refine List.find?_eq_none.mpr fun e he => ?_
        simp [reclaimable_eq, hnone e he]
      rw [Program.alone_bind_ok (alone_selectMessages_none clock held h fun e he => hnone e he)]
      rw [reclaimExpiredMessage_of_none clock hget hfind]
      exact ⟨_, rfl, rfl⟩

end Showing

/-- How a server on which one call ran alone compares with the result of the SQLite operation. -/
def SameOutcome (db : Database) (server : Server) :
    Except StorageError (Database × ReclaimResult) → Prop
  | .ok (db', result) => server.rows = stored db' ∧
      ∃ i, (server.session 0).status = .finished (.ok (.reclaimed i result))
  | .error err => server.rows = stored db ∧
      ∃ err', (server.session 0).status = .finished (.error err') ∧ err'.kind = err.kind

/-- **The backends agree on reclaims**: for every database, message and instant, the Postgres
transaction that runs alone ends after finitely many steps. It returns what the SQLite operation
returns, or an error of the same kind, and leaves the same messages and the same queues with the
same counters. -/
theorem reclaimExpiredMessage_backends (db : Database) (queueName : String)
    (expired : ExpiredMessage) (t : Int) :
    ∃ n, SameOutcome db
      ((Setup.ofDatabase db t (.reclaim queueName expired)).run (List.replicate n (.run 0)))
      (Repository.reclaimExpiredMessage db (fun _ => t) queueName expired) := by
  have hagrees := agrees_reclaimExpiredMessage t (fun _ => false)
    (shows_ofDatabase db t (.reclaim queueName expired)) queueName expired
  have hsolo : World.Solo (Setup.ofDatabase db t (.reclaim queueName expired)).start 0
      ⟨stored db, fun _ => false⟩ := ⟨rfl, fun _ => rfl⟩
  cases hsqlite : Repository.reclaimExpiredMessage db (fun _ => t) queueName expired with
  | ok r =>
    rw [hsqlite] at hagrees
    obtain ⟨i, rows, held, halone, hshows⟩ := hagrees
    obtain ⟨n, hstatus, hrows⟩ := World.reached_of_alone hsolo rfl rfl halone
    exact ⟨n, hrows.trans hshows.eq_stored, i, hstatus⟩
  | error err =>
    rw [hsqlite] at hagrees
    obtain ⟨err', halone, hkind⟩ := hagrees
    obtain ⟨n, hstatus, hrows⟩ := World.reached_of_alone hsolo rfl rfl halone
    exact ⟨n, hrows, err', hstatus, hkind⟩

end Nzovu.Postgres
