import Nzovu.Foundation.Transaction.Serial
import Nzovu.Postgres.Agreement

/-!
# The Two Backends, Call by Call

Every operation that workers, the reclaimer and operators make on messages is written twice, for
SQLite and for Postgres, in different statements. Run alone on the same rows at one instant, both
return the same, or an error of the same kind, and leave the same rows and counters.

- Section 1: what a call returns, and the call on SQLite.
- Section 2: the rows a statement scans.
- Section 3: operations of the worker that holds a message.
- Section 4: claims.
- Section 5: dead letters.
- Section 6: all calls.
-/

namespace Nzovu.Postgres

open Nzovu.Foundation
open Nzovu.Repository

/-! ## Section 1: Calls on SQLite -/

/-- What the caller of an operation sees. -/
inductive Returned where
  | message (claimed : Option (Nat × MessageRow))
  | done
  | remaining (remainingMs : Int)
  | alive (state : MessageState) (remainingMs : Int)
  | reclaimed (result : ReclaimResult)
  | removed (count : Nat)
deriving DecidableEq, Repr

/-- A reply without the ids of the rows it worked on. -/
def Reply.returned : Reply → Returned
  | .claimed message => .message message
  | .acknowledged _ => .done
  | .rejected _ => .done
  | .extended _ remainingMs => .remaining remainingMs
  | .heartbeat _ state remainingMs => .alive state remainingMs
  | .reclaimed _ result => .reclaimed result
  | .requeued _ => .done
  | .deleted ids => .removed ids.length

/-- The same call on the SQLite backend, at one instant. -/
def Call.onSqlite (db : Database) (t : Int) : Call → Except StorageError (Database × Returned)
  | .claim req =>
    (Repository.claimMessageWithLeaseDuration db (fun _ => t) req).map fun r => (r.1, .message r.2)
  | .acknowledge q m a w =>
    (Repository.acknowledgeMessage db (fun _ => t) q m a w).map fun db' => (db', .done)
  | .nack q m a w => (Repository.nackMessage db (fun _ => t) q m a w).map fun db' => (db', .done)
  | .extend q m a w extensionMs =>
    (Repository.extendMessageLease db (fun _ => t) q m a w extensionMs).map fun r =>
      (r.1, .remaining r.2)
  | .heartbeat q m a w =>
    (Repository.heartbeatMessage db (fun _ => t) q m a w).map fun r => (r.1, .alive r.2.1 r.2.2)
  | .reclaim q message =>
    (Repository.reclaimExpiredMessage db (fun _ => t) q message).map fun r => (r.1, .reclaimed r.2)
  | .retryDLQ dlq m target reset =>
    (Repository.retryDLQMessage db (fun _ => t) dlq m target reset).map fun db' => (db', .done)
  -- The operation returns no number; it has deleted the one row it found.
  | .deleteDLQ q m => (Repository.deleteDLQMessage db q m).map fun db' => (db', .removed 1)
  | .purgeDLQ q limit => (Repository.purgeDLQBatch db q limit).map fun r => (r.1, .removed r.2)

/-- The Postgres outcome says the same as the SQLite result: the same answer and the same rows, or
an error of the same kind. -/
def Matches (setup : Setup) (outcome : Option (Except StorageError (Reply × Private Key Row))) :
    Except StorageError (Database × Returned) → Prop
  | .ok (db', returned) => ∃ reply rows held, outcome = some (.ok (reply, ⟨rows, held⟩)) ∧
      reply.returned = returned ∧ Shows setup db' rows
  | .error err => ∃ err', outcome = some (.error err') ∧ err'.kind = err.kind

/-- The same for the tail of an operation, which has no answer of its own. -/
def Completes (setup : Setup) (outcome : Option (Except StorageError (Unit × Private Key Row))) :
    Except StorageError Database → Prop
  | .ok db' => ∃ rows held, outcome = some (.ok ((), ⟨rows, held⟩)) ∧ Shows setup db' rows
  | .error err => ∃ err', outcome = some (.error err') ∧ err'.kind = err.kind

section Showing

variable {setup : Setup} {db : Database} {rows : Store Key Row} (clock : Int)
  (held : Ref Key → Bool)

/-- An operation that answers once its tail is done. -/
theorem Completes.reply {p : Transaction Unit} {s : Private Key Row}
    {result : Except StorageError Database}
    (h : Completes setup (p.alone setup.schema clock s) result) (reply : Reply) :
    Matches setup ((p >>= fun _ => pure reply).alone setup.schema clock s)
      (result.map fun db' => (db', reply.returned)) := by
  cases result with
  | error err =>
    obtain ⟨err', hp, hkind⟩ := h
    exact ⟨err', Program.alone_bind_error hp _, hkind⟩
  | ok db' =>
    obtain ⟨rows, held, hp, hshows⟩ := h
    exact ⟨reply, rows, held, Program.alone_bind_ok hp _, rfl, hshows⟩

theorem completes_updateCounters (h : Shows setup db rows) {q : String}
    (hq : db.queues.hasKey q = true) (old new : MessageState) :
    Completes setup ((updateCounters q old new).alone setup.schema clock ⟨rows, held⟩)
      (.ok (Repository.updateCounters db q old new)) :=
  alone_updateCounters clock held h hq old new

theorem completes_removeCounter (h : Shows setup db rows) {q : String}
    (hq : db.queues.hasKey q = true) (state : MessageState) :
    Completes setup ((removeCounter q state).alone setup.schema clock ⟨rows, held⟩)
      (Repository.removeCounter db q state) := by
  obtain ⟨rows', held', db', hcount, hok, hshows⟩ := alone_removeCounter clock held h hq state
  rw [hok]
  exact ⟨rows', held', hcount, hshows⟩

theorem completes_removeCounters (h : Shows setup db rows) {q : String} (state : MessageState)
    {count : Nat} (hq : count ≠ 0 → db.queues.hasKey q = true) :
    Completes setup ((removeCounters q state count).alone setup.schema clock ⟨rows, held⟩)
      (Repository.removeCounters db q state count) := by
  have hnonneg : ¬ (count : Int) < 0 := by omega
  unfold removeCounters Repository.removeCounters
  rw [if_neg hnonneg, if_neg hnonneg]
  by_cases hzero : (count : Int) = 0
  · rw [if_pos hzero, if_pos hzero]
    exact ⟨rows, held, rfl, h⟩
  · rw [if_neg hzero, if_neg hzero]
    exact alone_addCounter clock held h (hq (by omega)) state (-count)

/-- A tail after a statement that succeeds. -/
theorem Completes.after {β : Type} {p : Transaction β} {f : β → Transaction Unit} {b : β}
    {s s' : Private Key Row} {result : Except StorageError Database}
    (h : Completes setup ((f b).alone setup.schema clock s') result)
    (hp : p.alone setup.schema clock s = some (.ok (b, s'))) :
    Completes setup ((p >>= f).alone setup.schema clock s) result := by
  rwa [Program.alone_bind_ok hp]

/-! ## Section 2: Scans -/

/-- A scan meets the messages in the order of their ids, as they are listed in the database. -/
theorem scan_messages (hids : setup.ids.Pairwise (· < ·)) (h : Shows setup db rows) :
    setup.schema.scan rows .messages = db.messages.rows := by
  have hscan : ((setup.schema.scan rows .messages).map Prod.fst).Pairwise (· < ·) :=
    hids.sublist (setup.schema.scan_fst_sublist rows .messages)
  have hmem : ∀ e, e ∈ setup.schema.scan rows .messages ↔ e ∈ db.messages.rows := by
    intro e
    rw [Schema.mem_scan, h.messages]
    exact ⟨fun he => he.2, fun he => ⟨h.ids e he, he⟩⟩
  have hperm : (setup.schema.scan rows .messages).Perm db.messages.rows :=
    (List.perm_ext_iff_of_nodup (List.Nodup.of_map Prod.fst (hscan.imp Nat.ne_of_lt))
      (List.Nodup.of_map Prod.fst (db.messages.ids_sorted.imp Nat.ne_of_lt))).mpr hmem
  have hrows : db.messages.rows.Pairwise fun a b => a.1 < b.1 :=
    List.pairwise_map.mp db.messages.ids_sorted
  refine hperm.eq_of_pairwise ?_ (List.pairwise_map.mp hscan) hrows
  intro a b _ _ hab hba
  exact absurd (Nat.lt_trans hab hba) (Nat.lt_irrefl _)

/-- A plain `SELECT` sees the messages of the database. -/
theorem alone_readRows (s : Private Key Row) :
    (Program.readRows : Transaction _).alone setup.schema clock s =
      some (.ok (setup.schema.scan s.rows, s)) := rfl

/-- A locking statement goes through the messages of the database. -/
theorem alone_selectScanned (hids : setup.ids.Pairwise (· < ·)) (h : Shows setup db rows)
    (s : Selection Key Row Tab.messages) :
    ∃ held', (selectMessages s).alone setup.schema clock ⟨rows, held⟩ =
        some (.ok (s.taken 0 ((db.messages.rows.filter fun e => s.filter e.1 e.2).insertionSort
          fun a b => s.before a b = true), ⟨rows, held'⟩)) ∧
      ∀ e ∈ s.taken 0 ((db.messages.rows.filter fun e => s.filter e.1 e.2).insertionSort
        fun a b => s.before a b = true), held' (message e.1) = true := by
  rw [← scan_messages hids h]
  exact Program.alone_select ⟨rows, held⟩ s

theorem alone_readClock (s : Private Key Row) :
    (Program.readClock : Transaction _).alone setup.schema clock s = some (.ok (clock, s)) := rfl

/-- Both backends explain alike why no row is owned. -/
theorem alone_ownedMessageFailure {α : Type} (hids : setup.ids.Pairwise (· < ·))
    (h : Shows setup db rows) (q m a w : String) :
    (ownedMessageFailure q m a w clock : Transaction α).alone setup.schema clock ⟨rows, held⟩ =
      some (.error (classifyOwnedMessageFailure db.messages.rows q m a w clock)) := by
  refine (Program.alone_bind_ok (alone_readRows clock _) _).trans ?_
  simp only [scan_messages hids h, Program.alone_fail]

/-- The owner's row is the only one its `WHERE` clause selects. -/
theorem owned_cases (db : Database) (q m a w : String) (t : Int) :
    (∃ i row, (i, row) ∈ db.messages.rows ∧ owned q m a w t row = true ∧
      Table.Selects db.messages.rows (fun e => owned q m a w t e.2) (i, row)) ∨
    ∀ e ∈ db.messages.rows, owned q m a w t e.2 = false := by
  by_cases hsome : ∃ e ∈ db.messages.rows, owned q m a w t e.2 = true
  · obtain ⟨⟨i, row⟩, hmem, howned⟩ := hsome
    exact .inl ⟨i, row, hmem, howned, selects_owned hmem (owned_iff.mp howned)⟩
  · refine .inr fun e he => ?_
    by_contra howned
    exact hsome ⟨e, he, by simpa using howned⟩

/-! ## Section 3: The worker that holds a message -/

theorem rowsAffected_eq_zero {p : Nat × MessageRow → Bool} :
    rowsAffected db p = 0 ↔ ∀ e ∈ db.messages.rows, p e = false := by
  rw [rowsAffected, List.countP_eq_zero]
  exact forall₂_congr fun e _ => by simp

section Owner

variable {q m a w : String} {i : Nat} {row : MessageRow}

/-- The message of a row is in a queue that exists. -/
theorem hasKey_of_owned (hmem : (i, row) ∈ db.messages.rows)
    (howned : owned q m a w clock row = true) : db.queues.hasKey q = true :=
  (owned_iff.mp howned).queue ▸ db.foreignKey _ hmem

/-- The owner's statement finds its row. -/
theorem alone_selectOwned (h : Shows setup db rows) (hmem : (i, row) ∈ db.messages.rows)
    (howned : owned q m a w clock row = true) :
    (selectMessages { filter := fun _ row => owned q m a w clock row }).alone setup.schema clock
      ⟨rows, held⟩ = some (.ok ([(i, row)], ⟨rows, Function.update held (message i) true⟩)) :=
  alone_selectMessages clock held h (selectsOne_owned setup q m a w clock) hmem howned

/-- The owner's update writes its row. -/
theorem alone_updateOwned (h : Shows setup db rows) (hmem : (i, row) ∈ db.messages.rows)
    (howned : owned q m a w clock row = true) (f : MessageRow → MessageRow)
    (hkey : ∀ row, (f row).uniqueKey = row.uniqueKey) (refused : Violation → StorageError) :
    (updateMessages (fun _ row => owned q m a w clock row) f refused).alone setup.schema clock
      ⟨rows, held⟩ = some (.ok ([(i, row)], ⟨Function.update rows (message i) (some (f row)),
        Function.update held (message i) true⟩)) :=
  alone_modify clock held h (f row) (selectsOne_owned setup q m a w clock) hmem howned rfl
    (hkey row)

/-- The owner's delete removes its row. -/
theorem alone_deleteOwned (h : Shows setup db rows) (hmem : (i, row) ∈ db.messages.rows)
    (howned : owned q m a w clock row = true) (refused : Violation → StorageError) :
    (deleteMessages (fun _ row => owned q m a w clock row) refused).alone setup.schema clock
      ⟨rows, held⟩ = some (.ok ([(i, row)], ⟨Function.update rows (message i) none,
        Function.update held (message i) true⟩)) :=
  alone_delete clock held h (selectsOne_owned setup q m a w clock) hmem howned

theorem Shows.withoutOwned (h : Shows setup db rows) {t : Int}
    (hsel : Table.Selects db.messages.rows (fun e => owned q m a w t e.2) (i, row)) :
    Shows setup (db.deleteMessages fun e => owned q m a w t e.2)
      (Function.update rows (message i) none) :=
  h.dropped (Table.filter_eq_dropRow hsel) rfl

/-- A statement of a worker that holds no such message selects nothing. -/
theorem alone_selectOwned_none (h : Shows setup db rows)
    (hnone : ∀ e ∈ db.messages.rows, owned q m a w clock e.2 = false) :
    (selectMessages { filter := fun _ row => owned q m a w clock row }).alone setup.schema clock
      ⟨rows, held⟩ = some (.ok ([], ⟨rows, held⟩)) :=
  alone_selectMessages_none clock held h hnone

theorem find?_owned (hnone : ∀ e ∈ db.messages.rows, owned q m a w clock e.2 = false) :
    db.messages.find? (fun e => owned q m a w clock e.2) = none :=
  List.find?_eq_none.mpr fun e he => by simp [hnone e he]

theorem alone_modifyOwned_none (h : Shows setup db rows)
    (hnone : ∀ e ∈ db.messages.rows, owned q m a w clock e.2 = false)
    (set : MessageRow → Option MessageRow) (refused : Violation → StorageError) :
    (Program.modify Tab.messages (fun _ row => owned q m a w clock row) set refused).alone
      setup.schema clock ⟨rows, held⟩ = some (.ok ([], ⟨rows, held⟩)) :=
  (Program.alone_bind_ok (alone_selectOwned_none clock held h hnone) _).trans rfl

/-- The check after an update of the one row that is owned. -/
theorem alone_requireOneOwnedMessage (e : Nat × MessageRow) (q m a w : String) (nowMs : Int)
    (s : Private Key Row) :
    (requireOneOwnedMessage [e] q m a w nowMs).alone setup.schema clock s =
      some (.ok ((), s)) := rfl

end Owner

/-- **`AcknowledgeMessage`.** -/
theorem matches_acknowledgeMessage (hids : setup.ids.Pairwise (· < ·)) (h : Shows setup db rows)
    (q m a w : String) :
    Matches setup ((acknowledgeMessage q m a w).alone setup.schema clock ⟨rows, held⟩)
      ((Repository.acknowledgeMessage db (fun _ => clock) q m a w).map
        fun db' => (db', .done)) := by
  have hmeta := alone_getQueueMetadata clock held h q
  unfold acknowledgeMessage Repository.acknowledgeMessage
  cases hget : Repository.getQueueMetadata db q with
  | error err =>
    rw [hget] at hmeta
    exact ⟨_, Program.alone_bind_error hmeta _, rfl⟩
  | ok metadata =>
    rw [hget] at hmeta
    rw [Program.alone_bind_ok hmeta, Program.alone_bind_ok (alone_calculateDeletion clock held _)]
    dsimp only
    generalize Repository.calculateDeletion clock metadata.messageRetentionPolicy = deletion
    obtain ⟨shouldDelete, deletedAt⟩ := deletion
    simp only
    rw [Program.alone_bind_ok (alone_readClock clock _),
      Program.alone_bind_ok (alone_readRows clock _)]
    rcases owned_cases db q m a w clock with ⟨i, row, hmem, howned, hsel⟩ | hnone
    · have hkey := hasKey_of_owned clock hmem howned
      have hfound : rowsAffected db (fun e => owned q m a w clock e.2) ≠ 0 := by
        intro hzero
        simp [rowsAffected_eq_zero.mp hzero _ hmem] at howned
      rw [if_neg hfound]
      cases shouldDelete with
      | true =>
        rw [if_pos rfl, if_pos rfl,
          Program.alone_bind_ok (alone_deleteOwned clock held h hmem howned _)]
        exact (completes_removeCounter clock _ (h.withoutOwned hsel) hkey .running).reply clock
          (.acknowledged i)
      | false =>
        rw [if_neg Bool.false_ne_true, if_neg Bool.false_ne_true, Program.alone_bind_ok
          (alone_updateOwned clock held h hmem howned (completeRow clock deletedAt) (fun _ => rfl)
            _)]
        have hrew := RowRewritten.of_modifyMessages (f := completeRow clock deletedAt)
          (fun _ => rfl) hsel
        exact (completes_updateCounters clock _ (h.rewritten hrew) hkey .running .completed).reply
          clock (.acknowledged i)
    · rw [if_pos (rowsAffected_eq_zero.mpr hnone)]
      have hfail := alone_ownedMessageFailure (α := Reply) clock held hids h q m a w
      cases shouldDelete with
      | true => exact ⟨_, (Program.alone_bind_ok (alone_modifyOwned_none clock held h hnone _ _)
          _).trans (hfail), rfl⟩
      | false => exact ⟨_, (Program.alone_bind_ok (alone_modifyOwned_none clock held h hnone _ _)
          _).trans (hfail), rfl⟩

/-- The exhausted branch of `NackMessage`, after the row was locked. -/
theorem completes_nackExhausted (h : Shows setup db rows) (metadata : QueueMetadata)
    {q m a w : String} {i : Nat} {row : MessageRow} (hmem : (i, row) ∈ db.messages.rows)
    (howned : owned q m a w clock row = true) :
    Completes setup ((nackExhausted metadata q m a w clock (i, row)).alone setup.schema clock
        ⟨rows, held⟩)
      (Repository.nackExhausted db (fun _ => clock) metadata q
        (fun e => owned q m a w clock e.2) row) := by
  have hkey := hasKey_of_owned clock hmem howned
  have hsel := selects_owned hmem (owned_iff.mp howned)
  unfold nackExhausted Repository.nackExhausted
  rw [Program.alone_bind_ok (alone_calculateDeletion clock held _)]
  dsimp only
  generalize hdeletion : (if metadata.deadLetterQueueName ≠ "" then (false, none)
    else Repository.calculateDeletion clock metadata.messageRetentionPolicy) = deletion
  obtain ⟨shouldDelete, deletedAt⟩ := deletion
  cases shouldDelete with
  | true =>
    rw [if_pos rfl, if_pos rfl,
      Program.alone_bind_ok (alone_deleteOwned clock held h hmem howned _),
      Program.alone_bind_ok (alone_requireOneOwnedMessage clock _ q m a w clock _)]
    exact completes_removeCounter clock _ (h.withoutOwned hsel) hkey row.state
  | false =>
    rw [if_neg Bool.false_ne_true, if_neg Bool.false_ne_true]
    -- The row may move to the dead letter queue, where its key may be taken.
    generalize hterminal : (if metadata.deadLetterQueueName ≠ "" then metadata.deadLetterQueueName
      else q) = terminal
    have hmove := alone_move clock held h
      (exhaustRow terminal (decrementAttempts row.attemptsLeft) clock deletedAt)
      (refused "soft delete errored message") (selectsOne_owned setup q m a w clock) hmem howned
      hsel
    cases hupd : db.updateMessages (fun e => owned q m a w clock e.2)
        (exhaustRow terminal (decrementAttempts row.attemptsLeft) clock deletedAt) with
    | error constraint =>
      simp only [hupd] at hmove
      obtain ⟨violation, hmove⟩ := hmove
      exact ⟨_, Program.alone_bind_error hmove _, rfl⟩
    | ok db₁ =>
      simp only [hupd] at hmove
      have hrew := RowRewritten.of_updateMessages hsel hupd
      have hshows := h.rewritten hrew
      have hkey₁ : db₁.queues.hasKey q = true := hrew.queues ▸ hkey
      refine Completes.after clock ?_ hmove
      refine Completes.after clock ?_ (alone_requireOneOwnedMessage clock _ q m a w clock _)
      by_cases hdlq : metadata.deadLetterQueueName ≠ ""
      · rw [if_pos hdlq] at hterminal
        subst hterminal
        simp only [if_pos hdlq]
        exact alone_moveCounter clock _ hshows hkey₁ (db₁.foreignKey _ hrew.mem_new) row.state
          .errored
      · simp only [if_neg hdlq]
        exact completes_updateCounters clock _ hshows hkey₁ row.state .errored

/-- **`NackMessage`.** -/
theorem matches_nackMessage (hids : setup.ids.Pairwise (· < ·)) (h : Shows setup db rows)
    (q m a w : String) :
    Matches setup ((nackMessage q m a w).alone setup.schema clock ⟨rows, held⟩)
      ((Repository.nackMessage db (fun _ => clock) q m a w).map fun db' => (db', .done)) := by
  have hmeta := alone_getQueueMetadata clock held h q
  unfold nackMessage Repository.nackMessage
  cases hget : Repository.getQueueMetadata db q with
  | error err =>
    rw [hget] at hmeta
    exact ⟨_, Program.alone_bind_error hmeta _, rfl⟩
  | ok metadata =>
    rw [hget] at hmeta
    rw [Program.alone_bind_ok hmeta, Program.alone_bind_ok (alone_readClock clock _)]
    dsimp only
    rcases owned_cases db q m a w clock with ⟨i, row, hmem, howned, hsel⟩ | hnone
    · have hkey := hasKey_of_owned clock hmem howned
      rw [Program.alone_bind_ok (alone_selectOwned clock held h hmem howned),
        Table.find?_of_selects hsel]
      dsimp only
      by_cases hexhausts : NackExhausts row.attemptsLeft
      · rw [if_pos hexhausts, if_pos hexhausts]
        exact (completes_nackExhausted clock _ h metadata hmem howned).reply clock (.rejected i)
      · rw [if_neg hexhausts, if_neg hexhausts]
        have hrew := RowRewritten.of_modifyMessages
          (f := retryRow (decrementAttempts row.attemptsLeft) clock) (fun _ => rfl) hsel
        rw [Program.alone_bind_ok (alone_updateOwned clock _ h hmem howned
            (retryRow (decrementAttempts row.attemptsLeft) clock) (fun _ => rfl) _),
          Program.alone_bind_ok (alone_requireOneOwnedMessage clock _ q m a w clock _)]
        exact (completes_updateCounters clock _ (h.rewritten hrew) hkey row.state .pending).reply
          clock (.rejected i)
    · rw [Program.alone_bind_ok (alone_selectOwned_none clock held h hnone),
        find?_owned clock hnone]
      exact ⟨_, alone_ownedMessageFailure (α := Reply) clock held hids h q m a w, rfl⟩

/-- **`ExtendMessageLease`.** -/
theorem matches_extendMessageLease (hids : setup.ids.Pairwise (· < ·)) (h : Shows setup db rows)
    (q m a w : String) (extensionMs : Int) :
    Matches setup ((extendMessageLease q m a w extensionMs).alone setup.schema clock ⟨rows, held⟩)
      ((Repository.extendMessageLease db (fun _ => clock) q m a w extensionMs).map
        fun r => (r.1, .remaining r.2)) := by
  unfold extendMessageLease Repository.extendMessageLease
  rw [Program.alone_bind_ok (alone_readClock clock _)]
  dsimp only
  rcases owned_cases db q m a w clock with ⟨i, row, hmem, howned, hsel⟩ | hnone
  · rw [Program.alone_bind_ok (alone_selectOwned clock held h hmem howned),
      Table.find?_of_selects hsel]
    dsimp only
    by_cases hlimit : renewalLimitReached row.metadata.leasePolicy row.leaseRenewalCount = true
    · rw [if_pos hlimit, if_pos hlimit]
      exact ⟨_, rfl, rfl⟩
    · rw [if_neg hlimit, if_neg hlimit]
      cases hextend : extendLease row.metadata.leasePolicy (row.leaseExpiry.getD 0)
          row.leaseExtensionUsed extensionMs with
      | error err => exact ⟨_, rfl, rfl⟩
      | ok runtime =>
        dsimp only
        have hrew := RowRewritten.of_modifyMessages (f := extendRow runtime clock)
          (fun _ => rfl) hsel
        rw [Program.alone_bind_ok (alone_readClock clock _),
          Program.alone_bind_ok (alone_updateOwned clock _ h hmem howned (extendRow runtime clock)
            (fun _ => rfl) _),
          Program.alone_bind_ok (alone_requireOneOwnedMessage clock _ q m a w clock _),
          Program.alone_bind_ok (alone_readClock clock _)]
        exact ⟨_, _, _, rfl, rfl, h.rewritten hrew⟩
  · rw [Program.alone_bind_ok (alone_selectOwned_none clock held h hnone), find?_owned clock hnone]
    exact ⟨_, alone_ownedMessageFailure (α := Reply) clock held hids h q m a w, rfl⟩

/-- The two translations of the heartbeat compute the same lease columns. -/
theorem heartbeatMessage_eq (db : Database) (t : Int) (q m a w : String) :
    Repository.heartbeatMessage db (fun _ => t) q m a w =
      match db.messages.find? fun e => owned q m a w t e.2 with
      | none => .error (classifyOwnedMessageFailure db.messages.rows q m a w t)
      | some (_, row) =>
        (heartbeatLease row.metadata.leasePolicy row).map fun lease =>
          (db.modifyMessages (fun e => owned q m a w t e.2)
            (heartbeatRow t (nextHeartbeatExpiry row.metadata.leasePolicy t) lease.1 lease.2.1
              lease.2.2) fun _ => rfl, row.state, max (int64 (lease.1 - t)) 0) := by
  unfold Repository.heartbeatMessage heartbeatLease
  dsimp only
  cases hfind : db.messages.find? fun e => owned q m a w t e.2 with
  | none => rfl
  | some e =>
    dsimp only
    split
    · cases hextend : extendLease e.2.metadata.leasePolicy (e.2.leaseExpiry.getD 0)
          e.2.leaseExtensionUsed
          (milliseconds (asDuration (e.2.metadata.leasePolicy.bind (·.extendStep)))) <;> rfl
    · rfl

/-- **`HeartbeatMessage`.** -/
theorem matches_heartbeatMessage (hids : setup.ids.Pairwise (· < ·)) (h : Shows setup db rows)
    (q m a w : String) :
    Matches setup ((heartbeatMessage q m a w).alone setup.schema clock ⟨rows, held⟩)
      ((Repository.heartbeatMessage db (fun _ => clock) q m a w).map
        fun r => (r.1, .alive r.2.1 r.2.2)) := by
  rw [heartbeatMessage_eq]
  unfold heartbeatMessage
  rw [Program.alone_bind_ok (alone_readClock clock _)]
  dsimp only
  rcases owned_cases db q m a w clock with ⟨i, row, hmem, howned, hsel⟩ | hnone
  · rw [Program.alone_bind_ok (alone_selectOwned clock held h hmem howned),
      Table.find?_of_selects hsel]
    dsimp only
    cases hlease : heartbeatLease row.metadata.leasePolicy row with
    | error err => exact ⟨_, rfl, rfl⟩
    | ok lease =>
      obtain ⟨leaseExpiry, extensionUsed, renewals⟩ := lease
      dsimp only
      have hrew := RowRewritten.of_modifyMessages (f := heartbeatRow clock
        (nextHeartbeatExpiry row.metadata.leasePolicy clock) leaseExpiry extensionUsed renewals)
        (fun _ => rfl) hsel
      rw [Program.alone_bind_ok (alone_updateOwned clock _ h hmem howned (heartbeatRow clock
          (nextHeartbeatExpiry row.metadata.leasePolicy clock) leaseExpiry extensionUsed renewals)
          (fun _ => rfl) _),
        Program.alone_bind_ok (alone_requireOneOwnedMessage clock _ q m a w clock _)]
      exact ⟨_, _, _, rfl, rfl, h.rewritten hrew⟩
  · rw [Program.alone_bind_ok (alone_selectOwned_none clock held h hnone), find?_owned clock hnone]
    exact ⟨_, alone_ownedMessageFailure (α := Reply) clock held hids h q m a w, rfl⟩

/-! ## Section 4: Claims -/

/-- The levels are weighed alike. -/
theorem alone_claimLevel (hids : setup.ids.Pairwise (· < ·)) (h : Shows setup db rows)
    (metadata : QueueMetadata) (req : ClaimRequest) :
    (claimLevel metadata req).alone setup.schema clock ⟨rows, held⟩ =
      match Repository.claimLevel db metadata req clock with
      | .ok level => some (.ok (level, ⟨rows, held⟩))
      | .error err => some (.error err) := by
  unfold claimLevel Repository.claimLevel
  cases metadata.priorityConfig with
  | none => rfl
  | some cfg =>
    dsimp only
    by_cases hstrict : cfg.policy = .strict
    · rw [if_pos hstrict, if_pos hstrict]
      rfl
    · rw [if_neg hstrict, if_neg hstrict, Program.alone_bind_ok (alone_readClock clock _),
        Program.alone_bind_ok (alone_readRows clock _),
        Program.alone_bind_ok (alone_readRows clock _),
        Program.alone_bind_ok (alone_readRows clock _)]
      simp only [scan_messages hids h]
      -- The three statements see the same rows.
      split
      · rename_i err hweights
        rw [(congrArg (calculateWeights cfg clock) (funext fun level => by
          cases level <;> rfl)).trans hweights]
        rfl
      · rename_i weights hweights
        rw [(congrArg (calculateWeights cfg clock) (funext fun level => by
          cases level <;> rfl)).trans hweights]
        rfl

/-- An EXCLUSIVE queue is checked alike; Postgres locks its row before. -/
theorem alone_checkExclusive (hids : setup.ids.Pairwise (· < ·)) (h : Shows setup db rows)
    (metadata : QueueMetadata) {q : String} (hq : db.queues.hasKey q = true) :
    ∃ held', (checkExclusive metadata q).alone setup.schema clock ⟨rows, held⟩ =
      some (.ok (!decide (metadata.type = .exclusive ∧
        hasActiveLease db.messages.rows q clock = true), ⟨rows, held'⟩)) := by
  unfold checkExclusive
  by_cases htype : metadata.type = .exclusive
  · rw [if_neg (not_not_intro htype)]
    obtain ⟨row, hrow⟩ := Option.isSome_iff_exists.mp (Table.lookup_isSome.trans hq)
    have hone : SelectsOne (κ := Key) (T := Tab.queues) setup.schema
        fun name _ => decide (name = q) := fun x y _ _ hx hy =>
      .inl ((of_decide_eq_true hx).trans (of_decide_eq_true hy).symm)
    have hlock : (Program.selectForUpdate Tab.queues { filter := fun name _ => decide (name = q) } :
        Transaction _).alone setup.schema clock ⟨rows, held⟩ =
          some (.ok ([(q, row)], ⟨rows, Function.update held (queue q) true⟩)) :=
      Program.alone_select_one rfl h.unique hone (h.names q hq) ((h.queues q).trans hrow)
        (decide_eq_true rfl)
    refine ⟨Function.update held (queue q) true, (Program.alone_bind_ok hlock _).trans ?_⟩
    simp only [List.isEmpty_cons, Bool.false_eq_true, if_false]
    rw [Program.alone_bind_ok (alone_readClock clock _),
      Program.alone_bind_ok (alone_readRows clock _), scan_messages hids h]
    simp [htype]
  · rw [if_pos htype]
    exact ⟨held, by simp [htype]⟩

/-- A row comes before a later one unless that one has a higher priority. -/
theorem claimSelection_before {q : String} {t : Int} {level : Option PriorityLevel}
    {e d : Nat × MessageRow} (hlt : e.1 < d.1) :
    (claimSelection q t level).before e d = true ↔ ¬ e.2.priority < d.2.priority := by
  have hle : e.1 ≤ d.1 := Nat.le_of_lt hlt
  simp only [claimSelection, hle, decide_true, Bool.and_true, Bool.or_eq_true, decide_eq_true_eq]
  omega

/-- Sorting by priority and taking the first row is looking for the first row of the highest
priority. -/
theorem head?_insertionSort {rows : List (Nat × MessageRow)}
    (hids : rows.Pairwise fun a b => a.1 < b.1) (q : String) (t : Int)
    (level : Option PriorityLevel) :
    (rows.insertionSort fun a b => (claimSelection q t level).before a b = true).head? =
      firstByPriority rows := by
  induction rows with
  | nil => rfl
  | cons e rest ih =>
    rw [List.pairwise_cons] at hids
    have ih := ih hids.2
    rw [List.insertionSort_cons, firstByPriority, ← ih]
    cases hsorted : rest.insertionSort fun a b => (claimSelection q t level).before a b = true with
    | nil => rfl
    | cons d ds =>
      have hd : d ∈ rest :=
        (List.mem_insertionSort _).mp (hsorted ▸ List.mem_cons_self)
      have hlt := hids.1 d hd
      rw [List.orderedInsert_cons]
      by_cases hbefore : (claimSelection q t level).before e d = true
      · have hprio : ¬ e.2.priority < d.2.priority := (claimSelection_before hlt).mp hbefore
        simp [hbefore, hprio]
      · have hprio : e.2.priority < d.2.priority := by
          by_contra hprio
          exact hbefore ((claimSelection_before hlt).mpr hprio)
        simp [hbefore, hprio]

/-- The `SELECT` of a claim takes the same row. -/
theorem alone_selectClaimable (hids : setup.ids.Pairwise (· < ·)) (h : Shows setup db rows)
    (q : String) (level : Option PriorityLevel) :
    ∃ found held', (selectMessages (claimSelection q clock level)).alone setup.schema clock
      ⟨rows, held⟩ = some (.ok (found, ⟨rows, held'⟩)) ∧
      found.head? = selectClaimable db q clock level := by
  obtain ⟨held', hselect, -⟩ :=
    alone_selectScanned clock held hids h (claimSelection q clock level)
  refine ⟨_, held', hselect, ?_⟩
  have hrows : (db.messages.rows.filter fun e =>
      (claimSelection q clock level).filter e.1 e.2).Pairwise fun a b => a.1 < b.1 :=
    (List.pairwise_map.mp db.messages.ids_sorted).filter _
  refine Eq.trans ?_ (head?_insertionSort hrows q clock level)
  exact List.head?_take

/-- The level first, then any priority. -/
theorem alone_selectCandidate (hids : setup.ids.Pairwise (· < ·)) (h : Shows setup db rows)
    (q : String) (level : Option PriorityLevel) :
    ∃ held', (selectCandidate q level).alone setup.schema clock ⟨rows, held⟩ =
      some (.ok (Repository.selectCandidate db q clock level, ⟨rows, held'⟩)) := by
  obtain ⟨found, held₁, hlevel, hfound⟩ := alone_selectClaimable clock held hids h q level
  unfold selectCandidate Repository.selectCandidate
  rw [Program.alone_bind_ok (alone_readClock clock _), Program.alone_bind_ok hlevel, ← hfound]
  cases found with
  | cons e rest => exact ⟨held₁, by cases level <;> rfl⟩
  | nil =>
    cases level with
    | none => exact ⟨held₁, rfl⟩
    | some l =>
      -- The level has no row.
      obtain ⟨found, held₂, hany, hfound⟩ := alone_selectClaimable clock held₁ hids h q none
      dsimp only [List.head?_nil, Option.isSome_some, if_true]
      rw [Program.alone_bind_ok hany, hfound]
      exact ⟨held₂, rfl⟩

/-- The update of the candidate. -/
theorem matches_takeLease (h : Shows setup db rows) {req : ClaimRequest} {e : Nat × MessageRow}
    (hmem : e ∈ db.messages.rows) (hqueue : e.2.queueName = req.queueName) :
    Matches setup ((takeLease req e).alone setup.schema clock ⟨rows, held⟩)
      ((Repository.takeLease db (fun _ => clock) req e).map fun r => (r.1, .message r.2)) := by
  unfold takeLease Repository.takeLease
  cases hpolicy : e.2.metadata.leasePolicy with
  | none => exact ⟨_, rfl, rfl⟩
  | some policy =>
    dsimp only
    rw [Program.alone_bind_ok (alone_readClock clock _),
      Program.alone_bind_ok (alone_readClock clock _)]
    generalize claimRuntime policy req.leaseDuration clock = runtime
    have hone : SelectsOne (κ := Key) (T := Tab.messages) setup.schema
        fun id _ => decide (id = e.1) := fun x y _ _ hx hy =>
      .inl ((of_decide_eq_true hx).trans (of_decide_eq_true hy).symm)
    have hupdate : (updateMessages (fun id _ => decide (id = e.1))
        (claimRow req.attempt req.worker runtime clock) (refused "update message")).alone
          setup.schema clock ⟨rows, held⟩ = some (.ok ([(e.1, e.2)], ⟨Function.update rows
            (message e.1) (some (claimRow req.attempt req.worker runtime clock e.2)),
            Function.update held (message e.1) true⟩)) :=
      alone_modify clock held h (claimRow req.attempt req.worker runtime clock e.2) hone hmem
        (decide_eq_true rfl) rfl rfl
    have hsel : Table.Selects db.messages.rows (fun d => decide (d.1 = e.1)) e :=
      Table.selects_of_id hmem (by simp) fun d hd => by simpa using hd
    have hrew := RowRewritten.of_modifyMessages
      (f := claimRow req.attempt req.worker runtime clock) (fun _ => rfl) hsel
    have hkey : db.queues.hasKey req.queueName = true := hqueue ▸ db.foreignKey _ hmem
    rw [Program.alone_bind_ok hupdate]
    exact (completes_updateCounters clock _ (h.rewritten hrew) hkey e.2.state .running).reply clock
      (.claimed (some (e.1, claimRow req.attempt req.worker runtime clock e.2)))

/-- Metadata belong to a queue that exists. -/
theorem hasKey_of_metadata {q : String} {metadata : QueueMetadata}
    (hget : Repository.getQueueMetadata db q = .ok metadata) : db.queues.hasKey q = true := by
  have hmetadata := getQueueMetadata_eq_ok hget
  unfold Database.queueMetadata? at hmetadata
  rw [← Table.lookup_isSome]
  cases hrow : db.queues.lookup q with
  | none => simp [hrow] at hmetadata
  | some row => rfl

/-- A claim on SQLite once its level is known. -/
theorem claim_of_level {req : ClaimRequest} {metadata : QueueMetadata}
    {level : Option (Option PriorityLevel)} {t : Int}
    (hget : Repository.getQueueMetadata db req.queueName = .ok metadata)
    (hvalid : validateClaimExclusivity metadata req.exclusivityKey = .ok ())
    (hlevel : Repository.claimLevel db metadata req t = .ok level) (hsome : level ≠ some none) :
    Repository.claimMessageWithLeaseDuration db (fun _ => t) req =
      if metadata.type = .exclusive ∧ hasActiveLease db.messages.rows req.queueName t = true then
        .ok (db, none)
      else
        match Repository.selectCandidate db req.queueName t level.join with
        | none => .ok (db, none)
        | some e => Repository.takeLease db (fun _ => t) req e := by
  unfold Repository.claimMessageWithLeaseDuration
  rcases level with _ | _ | l
  · cases hcandidate : Repository.selectCandidate db req.queueName t (Option.join none) with
    | none => simp only [hget, hvalid, hlevel, hcandidate]
    | some e => simp only [hget, hvalid, hlevel, hcandidate]
  · exact absurd rfl hsome
  · cases hcandidate :
        Repository.selectCandidate db req.queueName t (some (some l)).join with
    | none => simp only [hget, hvalid, hlevel, hcandidate]
    | some e => simp only [hget, hvalid, hlevel, hcandidate]

/-- **`ClaimMessageWithLeaseDuration`.** -/
theorem matches_claimMessageWithLeaseDuration (hids : setup.ids.Pairwise (· < ·))
    (h : Shows setup db rows) (req : ClaimRequest) :
    Matches setup ((claimMessageWithLeaseDuration req).alone setup.schema clock ⟨rows, held⟩)
      ((Repository.claimMessageWithLeaseDuration db (fun _ => clock) req).map
        fun r => (r.1, .message r.2)) := by
  have hmeta := alone_getQueueMetadata clock held h req.queueName
  unfold claimMessageWithLeaseDuration
  cases hget : Repository.getQueueMetadata db req.queueName with
  | error err =>
    rw [hget] at hmeta
    have hsqlite : Repository.claimMessageWithLeaseDuration db (fun _ => clock) req =
        .error (err.wrap "get queue metadata") := by
      simp only [Repository.claimMessageWithLeaseDuration, hget]
    rw [hsqlite]
    exact ⟨_, Program.alone_bind_error hmeta _, rfl⟩
  | ok metadata =>
    rw [hget] at hmeta
    rw [Program.alone_bind_ok hmeta]
    cases hvalid : validateClaimExclusivity metadata req.exclusivityKey with
    | error err =>
      have hsqlite : Repository.claimMessageWithLeaseDuration db (fun _ => clock) req =
          .error err := by
        simp only [Repository.claimMessageWithLeaseDuration, hget, hvalid]
      rw [hsqlite]
      exact ⟨err, rfl, rfl⟩
    | ok u =>
      have hlevel := alone_claimLevel clock held hids h metadata req
      cases hweighed : Repository.claimLevel db metadata req clock with
      | error err =>
        rw [hweighed] at hlevel
        have hsqlite : Repository.claimMessageWithLeaseDuration db (fun _ => clock) req =
            .error err := by
          simp only [Repository.claimMessageWithLeaseDuration, hget, hvalid, hweighed]
        rw [hsqlite]
        exact ⟨err, Program.alone_bind_error hlevel _, rfl⟩
      | ok level =>
        rw [hweighed] at hlevel
        dsimp only
        rw [Program.alone_bind_ok hlevel]
        by_cases hnone : level = some none
        · subst hnone
          have hsqlite : Repository.claimMessageWithLeaseDuration db (fun _ => clock) req =
              .ok (db, none) := by
            simp only [Repository.claimMessageWithLeaseDuration, hget, hvalid, hweighed]
          rw [hsqlite]
          exact ⟨.claimed none, rows, held, rfl, rfl, h⟩
        · obtain ⟨held₁, hcheck⟩ :=
            alone_checkExclusive clock held hids h metadata (hasKey_of_metadata hget)
          obtain ⟨held₂, hcandidate⟩ :=
            alone_selectCandidate clock held₁ hids h req.queueName level.join
          rw [if_neg hnone, Program.alone_bind_ok hcheck,
            claim_of_level hget hvalid hweighed hnone]
          by_cases hactive : metadata.type = .exclusive ∧
              hasActiveLease db.messages.rows req.queueName clock = true
          · rw [if_pos hactive]
            simp only [hactive, and_self, decide_true, Bool.not_true, Bool.false_eq_true, if_false]
            exact ⟨.claimed none, rows, held₁, rfl, rfl, h⟩
          · rw [if_neg hactive, decide_eq_false hactive, Bool.not_false, if_pos rfl,
              Program.alone_bind_ok hcandidate]
            cases hfound : Repository.selectCandidate db req.queueName clock level.join with
            | none => exact ⟨.claimed none, rows, held₂, rfl, rfl, h⟩
            | some e =>
              obtain ⟨hmem, hclaimable⟩ := selectCandidate_eq_some hfound
              exact matches_takeLease clock held₂ h hmem hclaimable.queue

/-! ## Section 5: Dead letters -/

/-- The row of a DLQ operation is found alike. -/
theorem alone_findErrored (hids : setup.ids.Pairwise (· < ·)) (h : Shows setup db rows)
    (q m : String) :
    (findErrored q m).alone setup.schema clock ⟨rows, held⟩ =
      match Repository.findErrored db q m with
      | .ok e => some (.ok (e, ⟨rows, held⟩))
      | .error err => some (.error err) := by
  unfold findErrored Repository.findErrored
  rw [Program.alone_bind_ok (alone_readRows clock _), scan_messages hids h]
  unfold Table.find?
  cases db.messages.rows.find? fun e => addressed q m e.2 with
  | none => rfl
  | some e =>
    dsimp only
    split <;> rfl

/-- The constraint of the Postgres schema with the same name. -/
def violationOf : Database.Constraint → Violation
  | .unique => .unique
  | .foreignKey => .foreignKey

/-- A move is refused for the UNIQUE index exactly when another row has the new key. -/
theorem updateMessages_eq_unique {p : Nat × MessageRow → Bool} {f : MessageRow → MessageRow}
    {d : Nat × MessageRow} (hsel : Table.Selects db.messages.rows p d) :
    db.updateMessages p f = .error .unique ↔
      ∃ e ∈ db.messages.rows, e ≠ d ∧ e.2.uniqueKey = (f d.2).uniqueKey := by
  have hfree := Table.update_isSome_of_selects (f := f) hsel
  unfold Database.updateMessages
  cases hupd : db.messages.update p f with
  | none =>
    rw [hupd] at hfree
    simp only [Option.isSome_none, Bool.false_eq_true, false_iff] at hfree
    push Not at hfree
    exact ⟨fun _ => hfree, fun _ => rfl⟩
  | some messages =>
    rw [hupd] at hfree
    simp only [Option.isSome_some, true_iff] at hfree
    dsimp only
    constructor
    · intro h
      by_cases hfk : ∀ e ∈ messages.rows, db.queues.hasKey e.2.queueName = true
      · rw [dif_pos hfk] at h
        cases h
      · rw [dif_neg hfk] at h
        cases h
    · rintro ⟨e, he, hne, hkey⟩
      exact absurd hkey (hfree e he hne)

/-- A move that SQLite refuses is refused by Postgres for the same reason. -/
theorem alone_moveRefused (h : Shows setup db rows) {f : MessageRow → MessageRow}
    {constraint : Database.Constraint} (refused : Violation → StorageError)
    {filter : Nat → MessageRow → Bool}
    (hone : SelectsOne (κ := Key) (T := Tab.messages) setup.schema filter) {i : Nat}
    {row : MessageRow} (hmem : (i, row) ∈ db.messages.rows) (hfilter : filter i row = true)
    (hsel : Table.Selects db.messages.rows (fun e => filter e.1 e.2) (i, row))
    (hupd : db.updateMessages (fun e => filter e.1 e.2) f = .error constraint) :
    (updateMessages filter f refused).alone setup.schema clock ⟨rows, held⟩ =
      some (.error (refused (violationOf constraint))) := by
  have hunique := updateMessages_eq_unique (f := f) hsel
  unfold updateMessages Program.update
  rw [Program.alone_modify_one h.unique hone (h.ids _ hmem) ((h.messages i row).mpr hmem) hfilter]
  simp only [Option.any_some, dangling_eq held h]
  cases constraint with
  | unique => exact if_pos ((clashes_eq held h hmem).mpr (hunique.mp hupd))
  | foreignKey =>
    have hclash : ¬ Private.clashes setup.schema ⟨rows, held⟩ Tab.messages i (f row) = true := by
      intro hclash
      rw [hunique.mpr ((clashes_eq held h hmem).mp hclash)] at hupd
      cases hupd
    have hmissing : db.queues.hasKey (f row).queueName = false := by
      by_contra hkey
      obtain ⟨db', hdb'⟩ := (Database.updateMessages_isOk_of_selects (f := f) hsel).mpr
        ⟨by simpa using hkey, fun e he hne hsame =>
          hclash ((clashes_eq held h hmem).mpr ⟨e, he, hne, hsame⟩)⟩
      rw [hupd] at hdb'
      cases hdb'
    rw [if_neg hclash, hmissing]
    rfl

/-- **`RetryDLQMessage`.** -/
theorem matches_retryDLQMessage (hids : setup.ids.Pairwise (· < ·)) (h : Shows setup db rows)
    (dlq m target : String) (reset : Bool) :
    Matches setup ((retryDLQMessage dlq m target reset).alone setup.schema clock ⟨rows, held⟩)
      ((Repository.retryDLQMessage db (fun _ => clock) dlq m target reset).map
        fun db' => (db', .done)) := by
  have hfind := alone_findErrored clock held hids h dlq m
  unfold retryDLQMessage Repository.retryDLQMessage
  cases hfound : Repository.findErrored db dlq m with
  | error err =>
    rw [hfound] at hfind
    exact ⟨_, Program.alone_bind_error hfind _, rfl⟩
  | ok e =>
    rw [hfound] at hfind
    obtain ⟨i, row⟩ := e
    obtain ⟨hmem, hqueue, hmessage, -⟩ := findErrored_eq_ok hfound
    have hsel := selects_addressed hmem hqueue hmessage
    have hone : SelectsOne (κ := Key) (T := Tab.messages) setup.schema fun _ => addressed dlq m :=
      selectsOne_of_addressed dlq m fun _ _ haddr => haddr
    have haddr : addressed dlq m row = true := addressed_iff.mpr ⟨hqueue, hmessage⟩
    have hkey : db.queues.hasKey dlq = true := hqueue ▸ db.foreignKey _ hmem
    rw [Program.alone_bind_ok hfind, Program.alone_bind_ok (alone_readClock clock _)]
    dsimp only
    have hmove := alone_move clock held h
      (requeueRow target (requeueAttempts reset row) clock) (requeueRefused m target) hone hmem
      haddr hsel
    cases hupd : db.updateMessages (fun e => addressed dlq m e.2)
        (requeueRow target (requeueAttempts reset row) clock) with
    | error constraint =>
      have hrefused := alone_moveRefused clock held h (requeueRefused m target) hone hmem haddr
        hsel hupd
      cases constraint with
      | unique => exact ⟨_, Program.alone_bind_error hrefused _, rfl⟩
      | foreignKey => exact ⟨_, Program.alone_bind_error hrefused _, rfl⟩
    | ok db₁ =>
      simp only [hupd] at hmove
      have hrew := RowRewritten.of_updateMessages hsel hupd
      have hcount : Completes setup _ (.ok (Repository.moveCounter db₁ dlq row.state target
          .pending)) :=
        alone_moveCounter clock (Function.update held (message i) true) (h.rewritten hrew)
          (hrew.queues ▸ hkey) (db₁.foreignKey _ hrew.mem_new) row.state .pending
      have hupdate : (updateMessages (fun _ row => addressed dlq m row)
          (requeueRow target (requeueAttempts reset row) clock) (requeueRefused m target)).alone
            setup.schema clock ⟨rows, held⟩ = some (.ok ([(i, row)],
              ⟨Function.update rows (message i)
                (some (requeueRow target (requeueAttempts reset row) clock row)),
                Function.update held (message i) true⟩)) := hmove
      rw [Program.alone_bind_ok hupdate]
      exact hcount.reply clock (.requeued [i])

/-- **`DeleteDLQMessage`.** -/
theorem matches_deleteDLQMessage (hids : setup.ids.Pairwise (· < ·)) (h : Shows setup db rows)
    (q m : String) :
    Matches setup ((deleteDLQMessage q m).alone setup.schema clock ⟨rows, held⟩)
      ((Repository.deleteDLQMessage db q m).map fun db' => (db', .removed 1)) := by
  have hfind := alone_findErrored clock held hids h q m
  unfold deleteDLQMessage Repository.deleteDLQMessage
  cases hfound : Repository.findErrored db q m with
  | error err =>
    rw [hfound] at hfind
    exact ⟨_, Program.alone_bind_error hfind _, rfl⟩
  | ok e =>
    rw [hfound] at hfind
    obtain ⟨i, row⟩ := e
    obtain ⟨hmem, hqueue, hmessage, -⟩ := findErrored_eq_ok hfound
    have hsel := selects_addressed hmem hqueue hmessage
    have hone : SelectsOne (κ := Key) (T := Tab.messages) setup.schema fun _ => addressed q m :=
      selectsOne_of_addressed q m fun _ _ haddr => haddr
    have hkey : db.queues.hasKey q = true := hqueue ▸ db.foreignKey _ hmem
    have hdropped : Shows setup (db.deleteMessages fun e => addressed q m e.2)
        (Function.update rows (message i) none) := h.dropped (Table.filter_eq_dropRow hsel) rfl
    have hdelete : (deleteMessages (fun _ row => addressed q m row)
        (refused "delete message")).alone setup.schema clock ⟨rows, held⟩ =
          some (.ok ([(i, row)], ⟨Function.update rows (message i) none,
            Function.update held (message i) true⟩)) :=
      alone_delete clock held h hone hmem (addressed_iff.mpr ⟨hqueue, hmessage⟩)
    rw [Program.alone_bind_ok hfind, Program.alone_bind_ok hdelete]
    exact (completes_removeCounter clock _ hdropped hkey row.state).reply clock (.deleted [i])

/-- Several messages are gone from both. -/
theorem Shows.droppedAll (h : Shows setup db rows) {p : Nat × MessageRow → Bool}
    {rows' : Store Key Row}
    (hgone : ∀ e ∈ db.messages.rows, rows' (message e.1) = if p e = true then none else some e.2)
    (hmissing : ∀ i, rows (message i) = none → rows' (message i) = none)
    (hqueues : ∀ q, rows' (queue q) = rows (queue q)) :
    Shows setup (db.deleteMessages p) rows' where
  messages := by
    intro i row
    have hmem : (i, row) ∈ (db.deleteMessages p).messages.rows ↔
        (i, row) ∈ db.messages.rows ∧ ¬ p (i, row) = true := by
      simp [Database.deleteMessages, Table.rows_delete]
    rw [hmem]
    constructor
    · intro hrow
      cases hold : rows (message i) with
      | none =>
        rw [hmissing i hold] at hrow
        cases hrow
      | some old =>
        have hold := (h.messages i old).mp hold
        rw [hgone _ hold] at hrow
        split at hrow
        · cases hrow
        · rename_i hp
          cases hrow
          exact ⟨hold, hp⟩
    · rintro ⟨hrow, hp⟩
      rw [hgone _ hrow, if_neg hp]
  queues := fun q => (hqueues q).trans (h.queues q)
  ids := fun e he => h.ids e (List.mem_of_mem_filter he)
  names := h.names

/-- Rows with the ids of some of the rows are these. -/
theorem mem_of_ids {found : List (Nat × MessageRow)} (hfound : found.Sublist db.messages.rows)
    {e : Nat × MessageRow} (he : e ∈ db.messages.rows) :
    e.1 ∈ found.map Prod.fst ↔ e ∈ found := by
  refine ⟨fun hid => ?_, fun hmem => List.mem_map_of_mem hmem⟩
  obtain ⟨d, hd, hde⟩ := List.mem_map.mp hid
  exact Table.eq_of_id (hfound.subset hd) he hde ▸ hd

theorem rowsAffected_ids {found : List (Nat × MessageRow)}
    (hfound : found.Sublist db.messages.rows) :
    rowsAffected db (fun e => decide (e.1 ∈ found.map Prod.fst)) = found.length := by
  have hnodup : db.messages.rows.Nodup := db.messages.keys_nodup.of_map _
  have hperm : (db.messages.rows.filter fun e => decide (e.1 ∈ found.map Prod.fst)).Perm found := by
    refine (List.perm_ext_iff_of_nodup (hnodup.filter _) (hnodup.sublist hfound)).mpr fun e => ?_
    rw [List.mem_filter, decide_eq_true_eq]
    constructor
    · rintro ⟨he, hid⟩
      exact (mem_of_ids hfound he).mp hid
    · intro he
      exact ⟨hfound.subset he, (mem_of_ids hfound (hfound.subset he)).mpr he⟩
  rw [rowsAffected, List.countP_eq_length_filter, hperm.length_eq]

/-- **`purgeDLQBatch`.** -/
theorem matches_purgeDLQBatch (hids : setup.ids.Pairwise (· < ·)) (h : Shows setup db rows)
    (q : String) (limit : Nat) :
    Matches setup ((purgeDLQBatch q limit).alone setup.schema clock ⟨rows, held⟩)
      ((Repository.purgeDLQBatch db q limit).map fun r => (r.1, .removed r.2)) := by
  unfold purgeDLQBatch Repository.purgeDLQBatch purgeBatchIds
  obtain ⟨held', hselect, hheld⟩ := alone_selectScanned clock held hids h
    { filter := fun _ row => row.queueName = q && row.state = .errored
      before := fun a b => decide (a.1 ≤ b.1)
      limit := some limit
      mode := .skipLocked }
  have hsorted : (db.messages.rows.filter fun e =>
      e.2.queueName = q && e.2.state = .errored).Pairwise fun a b => decide (a.1 ≤ b.1) = true :=
    ((List.pairwise_map.mp db.messages.ids_sorted).filter _).imp
      fun hlt => decide_eq_true (Nat.le_of_lt hlt)
  simp only [Selection.taken, Nat.sub_zero, hsorted.insertionSort_eq] at hselect hheld
  have hfound : ((db.messages.rows.filter fun e =>
      e.2.queueName = q && e.2.state = .errored).take limit).Sublist db.messages.rows :=
    (List.take_sublist _ _).trans List.filter_sublist
  have hqueue : ∀ e ∈ (db.messages.rows.filter fun e =>
      e.2.queueName = q && e.2.state = .errored).take limit, e.2.queueName = q := by
    intro e he
    have hfilter := (List.mem_filter.mp (List.mem_of_mem_take he)).2
    simp only [Bool.and_eq_true, decide_eq_true_eq] at hfilter
    exact hfilter.1
  rw [Program.alone_bind_ok hselect]
  generalize (db.messages.rows.filter fun e =>
    e.2.queueName = q && e.2.state = .errored).take limit = found at *
  have hdelete : (Program.writeAll Tab.messages (fun _ => none)
      (refused "delete DLQ message batch") found : Transaction Unit).alone setup.schema clock
        ⟨rows, held'⟩ = some (.ok ((), Private.dropAll (T := Tab.messages) ⟨rows, held'⟩ found)) :=
    Program.alone_deleteAll hheld
  have hshows : Shows setup (db.deleteMessages fun e => decide (e.1 ∈ found.map Prod.fst))
      (Private.dropAll (T := Tab.messages) ⟨rows, held'⟩ found).rows := by
    apply h.droppedAll
    · intro e he
      have hmem : (∃ d ∈ found, message e.1 = message d.1) ↔ e.1 ∈ found.map Prod.fst := by
        simp [eq_comm]
      rw [Private.dropAll_rows]
      by_cases hid : e.1 ∈ found.map Prod.fst
      · rw [if_pos (hmem.mpr hid), if_pos (decide_eq_true hid)]
      · rw [if_neg fun hgone => hid (hmem.mp hgone),
          if_neg fun hgone => hid (of_decide_eq_true hgone)]
        exact (h.messages e.1 e.2).mpr he
    · intro i hnone
      rw [Private.dropAll_rows]
      split
      · rfl
      · exact hnone
    · intro q'
      rw [Private.dropAll_rows, if_neg]
      rintro ⟨e, -, heq⟩
      cases heq
  have hkey : found.length ≠ 0 → db.queues.hasKey q = true := by
    intro hsome
    obtain ⟨e, he⟩ := List.exists_mem_of_length_pos (Nat.pos_of_ne_zero hsome)
    exact hqueue e he ▸ db.foreignKey e (hfound.subset he)
  have hcount := completes_removeCounters clock
    (Private.dropAll (T := Tab.messages) ⟨rows, held'⟩ found).held hshows .errored hkey
  dsimp only
  rw [rowsAffected_ids hfound, Program.alone_bind_ok hdelete]
  cases hremoved : Repository.removeCounters
      (db.deleteMessages fun e => decide (e.1 ∈ found.map Prod.fst)) q .errored found.length with
  | error err =>
    rw [hremoved] at hcount
    obtain ⟨err', hcount, hkind⟩ := hcount
    exact ⟨err', Program.alone_bind_error hcount _, hkind⟩
  | ok db' =>
    rw [hremoved] at hcount
    obtain ⟨rows', held'', hcount, hshows'⟩ := hcount
    exact ⟨.deleted (found.map Prod.fst), rows', held'', Program.alone_bind_ok hcount _,
      by simp [Reply.returned], hshows'⟩

/-! ## Section 6: All calls -/

theorem matches_reclaimExpiredMessage (h : Shows setup db rows) (q : String)
    (expired : ExpiredMessage) :
    Matches setup ((reclaimExpiredMessage q expired).alone setup.schema clock ⟨rows, held⟩)
      ((Repository.reclaimExpiredMessage db (fun _ => clock) q expired).map
        fun r => (r.1, .reclaimed r.2)) := by
  have hagrees := agrees_reclaimExpiredMessage clock held h q expired
  cases hsqlite : Repository.reclaimExpiredMessage db (fun _ => clock) q expired with
  | error err =>
    rw [hsqlite] at hagrees
    exact hagrees
  | ok r =>
    rw [hsqlite] at hagrees
    obtain ⟨i, rows', held', halone, hshows⟩ := hagrees
    exact ⟨.reclaimed i r.2, rows', held', halone, rfl, hshows⟩

/-- **Agreement of a call**: whatever the call, the transaction that runs alone says what SQLite
says and leaves the same rows. -/
theorem matches_call (hids : setup.ids.Pairwise (· < ·)) (h : Shows setup db rows) (call : Call) :
    Matches setup (call.program.alone setup.schema clock ⟨rows, held⟩)
      (call.onSqlite db clock) := by
  cases call with
  | claim req => exact matches_claimMessageWithLeaseDuration clock held hids h req
  | acknowledge q m a w => exact matches_acknowledgeMessage clock held hids h q m a w
  | nack q m a w => exact matches_nackMessage clock held hids h q m a w
  | extend q m a w extensionMs =>
    exact matches_extendMessageLease clock held hids h q m a w extensionMs
  | heartbeat q m a w => exact matches_heartbeatMessage clock held hids h q m a w
  | reclaim q expired => exact matches_reclaimExpiredMessage clock held h q expired
  | retryDLQ dlq m target reset =>
    exact matches_retryDLQMessage clock held hids h dlq m target reset
  | deleteDLQ q m => exact matches_deleteDLQMessage clock held hids h q m
  | purgeDLQ q limit => exact matches_purgeDLQBatch clock held hids h q limit

end Showing

end Nzovu.Postgres
