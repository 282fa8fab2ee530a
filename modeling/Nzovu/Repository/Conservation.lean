import Nzovu.Repository.System

/-!
# Conservation of Messages

A stored message stays in the table, as the message that was posted, until an operation disposes
of it; `Disposes` lists the operations that may and what has to hold of the message then. Nothing
else loses a message, in any order of operations.

- Section 1: what no operation changes about a message.
- Section 2: the operations that leave every row in place.
- Section 3: disposal, one operation.
- Section 4: runs.
-/

namespace Nzovu.Repository

open Nzovu.Foundation
open Nzovu.Background

/-! ## Section 1: The same message -/

/-- Both rows are versions of one message: its identity, its place in the order of claims and
what it was posted with agree. The queue, the attempts and the lease may differ. -/
structure SameMessage (old new : MessageRow) : Prop where
  messageId : new.messageId = old.messageId
  priority : new.priority = old.priority
  maxAttempts : new.maxAttempts = old.maxAttempts
  scheduledAt : new.scheduledAt = old.scheduledAt
  createdAt : new.createdAt = old.createdAt
  /-- An activation rewrites the state inside the stored metadata. -/
  metadata : new.metadata = { old.metadata with state := new.metadata.state }

theorem SameMessage.refl (row : MessageRow) : SameMessage row row :=
  ⟨rfl, rfl, rfl, rfl, rfl, rfl⟩

theorem SameMessage.trans {a b c : MessageRow} (h : SameMessage a b) (h' : SameMessage b c) :
    SameMessage a c where
  messageId := h'.messageId.trans h.messageId
  priority := h'.priority.trans h.priority
  maxAttempts := h'.maxAttempts.trans h.maxAttempts
  scheduledAt := h'.scheduledAt.trans h.scheduledAt
  createdAt := h'.createdAt.trans h.createdAt
  metadata := by
    have hb := h.metadata
    have hc := h'.metadata
    rw [hb] at hc
    exact hc

theorem RowTransition.sameMessage {old new : MessageRow} {event : Option RowEvent}
    (h : RowTransition old event new) : SameMessage old new := by
  cases h <;> exact ⟨rfl, rfl, rfl, rfl, rfl, rfl⟩

/-- The id has been handed out, and what is stored under it is a version of the message. -/
structure HoldsMessage (db : Database) (i : Nat) (message : MessageRow) : Prop where
  used : i < db.messages.nextId
  same : ∀ row, (i, row) ∈ db.messages.rows → SameMessage message row

/-- The id has been handed out, and its row is not in the table any more. -/
structure Gone (db : Database) (i : Nat) : Prop where
  used : i < db.messages.nextId
  missing : ∀ row, (i, row) ∉ db.messages.rows

section Changes

variable {adds : Additions} {db db' : Database} {event : Option (Nat × RowEvent)} {i : Nat}

theorem holdsMessage_of_mem {row : MessageRow} (h : (i, row) ∈ db.messages.rows) :
    HoldsMessage db i row := by
  refine ⟨db.messages.id_lt _ h, fun row' hrow' => ?_⟩
  have heq := Table.eq_of_id hrow' h rfl
  cases heq
  exact .refl row

theorem HoldsMessage.change {message : MessageRow} (hholds : HoldsMessage db i message)
    (h : Change adds db db' event) : HoldsMessage db' i message := by
  refine ⟨Nat.lt_of_lt_of_le hholds.used h.nextId_le, fun row hrow => ?_⟩
  cases h.origin hrow with
  | kept hkept => exact hholds.same row hkept
  -- A new row has an id that was never used.
  | inserted _ _ _ _ _ _ hid => exact absurd hid (Nat.ne_of_lt hholds.used)
  | changed old e hold ht => exact (hholds.same old hold).trans ht.sameMessage

theorem Gone.change (hgone : Gone db i) (h : Change adds db db' event) : Gone db' i := by
  refine ⟨Nat.lt_of_lt_of_le hgone.used h.nextId_le, fun row hrow => ?_⟩
  cases h.origin hrow with
  | kept hkept => exact hgone.missing row hkept
  | inserted _ _ _ _ _ _ hid => exact Nat.ne_of_lt hgone.used hid
  | changed old e hold => exact hgone.missing old hold

theorem HoldsMessage.step {s : System} {op : Operation} {message : MessageRow}
    (h : HoldsMessage s.db i message) (hwf : WellFormed s) :
    HoldsMessage (s.step op).db i message :=
  (step_changes hwf op).preserves' (P := fun db => HoldsMessage db i message)
    (fun _ _ _ => HoldsMessage.change) h

theorem Gone.step {s : System} {op : Operation} (h : Gone s.db i) (hwf : WellFormed s) :
    Gone (s.step op).db i :=
  (step_changes hwf op).preserves' (P := fun db => Gone db i) (fun _ _ _ => Gone.change) h

end Changes

/-! ## Section 2: Operations that keep every row -/

/-- Every id in use stays in use. -/
def KeepsIds (db db' : Database) : Prop :=
  ∀ i row, (i, row) ∈ db.messages.rows → ∃ row', (i, row') ∈ db'.messages.rows

section Keeping

variable {db db₁ db' : Database}

theorem KeepsIds.refl (db : Database) : KeepsIds db db := fun _ row hrow => ⟨row, hrow⟩

theorem KeepsIds.trans (h : KeepsIds db db₁) (h' : KeepsIds db₁ db') : KeepsIds db db' := by
  intro i row hrow
  obtain ⟨row₁, hrow₁⟩ := h i row hrow
  exact h' i row₁ hrow₁

theorem KeepsIds.of_messages (h : db'.messages = db.messages) : KeepsIds db db' := by
  intro i row hrow
  exact ⟨row, h ▸ hrow⟩

theorem RowInserted.keepsIds {row : MessageRow} (h : RowInserted db db' row) :
    KeepsIds db db' := by
  intro i row hrow
  refine ⟨row, ?_⟩
  rw [h.rows]
  exact List.mem_append_left _ hrow

theorem RowUpdated.keepsIds {j : Nat} {old new : MessageRow} (h : RowUpdated db db' j old new) :
    KeepsIds db db' := by
  intro i row hrow
  rw [h.rows]
  by_cases hij : i = j
  · subst hij
    exact ⟨new, Table.mem_setRow.mpr (.inr ⟨rfl, _, hrow, rfl⟩)⟩
  · exact ⟨row, Table.mem_setRow.mpr (.inl ⟨hrow, hij⟩)⟩

/-- A deletion takes its row only. -/
theorem RowDeleted.eq_of_gone {i j : Nat} {old row : MessageRow} (h : RowDeleted db db' j old)
    (hrow : (i, row) ∈ db.messages.rows) (hgone : ∀ row', (i, row') ∉ db'.messages.rows) :
    row = old := by
  have hij : i = j := by
    by_contra hne
    refine hgone row ?_
    rw [h.rows]
    exact Table.mem_dropRow.mpr ⟨hrow, hne⟩
  subst hij
  exact congrArg Prod.snd (Table.eq_of_id hrow h.mem rfl)

theorem RowsRemoved.of_gone {p : Nat × MessageRow → Bool} (h : RowsRemoved db db' p) {i : Nat}
    {row : MessageRow} (hrow : (i, row) ∈ db.messages.rows)
    (hgone : ∀ row', (i, row') ∉ db'.messages.rows) : p (i, row) = true := by
  by_contra hp
  refine hgone row ?_
  rw [h.rows]
  exact List.mem_filter.mpr ⟨hrow, by simpa using hp⟩

theorem insertQueue_messages {queue : Queue} (h : insertQueue db queue = .ok db') :
    db'.messages = db.messages := by
  unfold insertQueue at h
  split at h
  · cases h
  · rename_i db₁ hins
    cases h
    exact (Database.insertQueue_eq_ok hins).2

theorem createQueue_messages {queue : Queue} (h : createQueue db queue = .ok db') :
    db'.messages = db.messages := by
  simp only [createQueue] at h
  split at h
  · cases h
  · exact insertQueue_messages h

theorem createQueueWithDLQ_messages {queue dlq : Queue}
    (h : createQueueWithDLQ db queue dlq = .ok db') : db'.messages = db.messages := by
  unfold createQueueWithDLQ at h
  split at h
  · cases h
  · split at h
    · cases h
    · rename_i db₁ hins
      exact (insertQueue_messages h).trans (insertQueue_messages hins)

theorem createValidQueue_messages {name : String} {metadata : QueueMetadata}
    (h : createValidQueue db name metadata = .ok db') : db'.messages = db.messages := by
  simp only [createValidQueue, storeQueue] at h
  split at h
  · exact createQueueWithDLQ_messages h
  · split at h
    · cases h
    · exact createQueue_messages h

/-- The rows that are left after a queue was deleted. -/
theorem deleteQueue_eq_ok {name : String} (h : deleteQueue db name = .ok db') :
    db'.messages.rows = db.messages.rows.filter fun e => !decide (e.2.queueName = name) := by
  unfold deleteQueue at h
  split at h
  · cases h
  · split at h
    · cases h
    · cases h
      rfl

theorem enqueueMessageInTx_keepsIds {clock : Readings} {queueName : String} {message : Message}
    (h : enqueueMessageInTx db clock queueName message = .ok db') : KeepsIds db db' := by
  obtain ⟨metadata, -, hrow⟩ := enqueueMessageInTx_effect h
  exact hrow.keepsIds

theorem enqueueAll_keepsIds {clock : Readings} {queueName : String} {messages : List Message}
    {i : Nat} (h : enqueueAll clock queueName db i messages = .ok db') : KeepsIds db db' := by
  induction messages generalizing db i with
  | nil =>
    cases h
    exact .refl _
  | cons message rest ih =>
    simp only [enqueueAll] at h
    split at h
    · cases h
    · rename_i db₁ hone
      exact (enqueueMessageInTx_keepsIds hone).trans (ih h)

theorem enqueueEach_keepsIds (clock : Readings) (queueName : String) (messages : List Message)
    (db : Database) (i : Nat) : KeepsIds db (enqueueEach clock queueName db i messages).1 := by
  induction messages generalizing db i with
  | nil => exact .refl db
  | cons message rest ih =>
    simp only [enqueueEach]
    split
    · exact ih db (i + 1)
    · rename_i db₁ hone
      exact (enqueueMessageInTx_keepsIds hone).trans (ih db₁ (i + 1))

theorem enqueueMessagesBulk_keepsIds (db : Database) (clock : Readings) (queueName : String)
    (messages : List Message) (mode : TransactionMode) :
    KeepsIds db (enqueueMessagesBulk db clock queueName messages mode).1 := by
  cases mode with
  | allOrNothing =>
    simp only [enqueueMessagesBulk]
    split
    · rename_i db' hall
      exact enqueueAll_keepsIds hall
    · exact .refl db
  | bestEffort => exact enqueueEach_keepsIds clock queueName messages db 0

theorem claimMessageWithLeaseDuration_keepsIds {clock : Readings} {req : ClaimRequest}
    {claimed : Option (Nat × MessageRow)}
    (h : claimMessageWithLeaseDuration db clock req = .ok (db', claimed)) : KeepsIds db db' := by
  rcases claimMessageWithLeaseDuration_effect h with ⟨-, rfl⟩ | ⟨_, i, old, _, -, -, hc, -⟩
  · exact .refl _
  · exact hc.updated.keepsIds

theorem activateMessage_keepsIds {clock : Readings} {message : ScheduledMessage}
    (hcap : Captures db message) : KeepsIds db (activateMessage db clock message).1 := by
  have hqueue := fun row hmem hinv => (hcap.row row hmem hinv).1
  rcases activateMessage_effect clock hcap.state hqueue with hsame | ⟨db', old, heq, -, -, hupd⟩
  · rw [hsame]
    exact .refl db
  · rw [heq]
    exact hupd.keepsIds

end Keeping

/-! ## Section 3: Disposal -/

/-- The retention policy of the queue deletes a message that becomes terminal at `nowMs`. -/
def DeletesTerminal (db : Database) (queueName : String) (nowMs : Int) : Prop :=
  ∃ metadata, db.queueMetadata? queueName = some metadata ∧
    (calculateDeletion nowMs metadata.messageRetentionPolicy).1 = true

/-- The same, for a message that has failed: a queue with a dead letter queue keeps it there. -/
def DeletesFailed (db : Database) (queueName : String) (nowMs : Int) : Prop :=
  ∃ metadata, db.queueMetadata? queueName = some metadata ∧ metadata.deadLetterQueueName = "" ∧
    (calculateDeletion nowMs metadata.messageRetentionPolicy).1 = true

/-- The operation may delete the row `row` of `db`, and for this reason. -/
inductive Disposes (db : Database) (row : MessageRow) : Operation → Prop where
  | acknowledged (clock : Readings) (queueName messageId attemptId workerId : String)
      (howns : Owns queueName messageId attemptId workerId (clock 1) row)
      (hdeletes : DeletesTerminal db queueName (clock 0)) :
      Disposes db row (.acknowledge clock queueName messageId attemptId workerId)
  | rejected (clock : Readings) (queueName messageId attemptId workerId : String)
      (howns : Owns queueName messageId attemptId workerId (clock 0) row)
      (hleft : NackExhausts row.attemptsLeft)
      (hdeletes : DeletesFailed db queueName (clock 1)) :
      Disposes db row (.nack clock queueName messageId attemptId workerId)
  | canceled (clock : Readings) (queueName messageId reason : String)
      (haddr : addressed queueName messageId row = true)
      (hwaiting : row.state = .invisible ∨ row.state = .pending)
      (hdeletes : DeletesTerminal db queueName (clock 0)) :
      Disposes db row (.cancel clock queueName messageId reason)
  | reclaimed (clock : Readings) (queueName : String) (message : ExpiredMessage)
      (hexpired : Reclaimable queueName message.messageId message.attemptId (clock 1) row)
      (hleft : reclaimState row = .errored)
      (hdeletes : DeletesFailed db queueName (clock 0)) :
      Disposes db row (.reclaim clock queueName message)
  | deadLetter (queueName messageId : String) (haddr : addressed queueName messageId row = true)
      (herrored : row.state = .errored) : Disposes db row (.deleteDLQ queueName messageId)
  | purged (queueName : String) (hqueue : row.queueName = queueName)
      (herrored : row.state = .errored) : Disposes db row (.purgeDLQ queueName)
  | cleaned (nowMs : Int) (limit : Nat) (hdue : row.deletedAt.any (· ≤ nowMs) = true) :
      Disposes db row (.cleanup nowMs limit)
  | queueDeleted (queueName : String) (hqueue : row.queueName = queueName) :
      Disposes db row (.deleteQueue queueName)

/-- The rows a purge deletes are ERRORED rows of its queue, whatever batch they are in. -/
theorem purgeDLQLoop_disposes {queueName : String} {fuel : Nat} {db : Database} {i : Nat}
    {row : MessageRow} (hrow : (i, row) ∈ db.messages.rows)
    (hgone : ∀ row', (i, row') ∉ (purgeDLQLoop queueName fuel db).1.messages.rows) :
    row.queueName = queueName ∧ row.state = .errored := by
  induction fuel generalizing db with
  | zero => exact absurd hrow (hgone row)
  | succ fuel ih =>
    simp only [purgeDLQLoop] at hgone
    split at hgone
    · exact absurd hrow (hgone row)
    · rename_i db₁ deleted hbatch
      obtain ⟨p, hrem, herrored⟩ := purgeDLQBatch_effect hbatch
      by_cases hp : p (i, row) = true
      · exact herrored _ hrow hp
      -- A row that this batch has left is deleted by a later one.
      have hkept : (i, row) ∈ db₁.messages.rows := by
        rw [hrem.rows]
        exact List.mem_filter.mpr ⟨hrow, by simpa using hp⟩
      split at hgone
      · exact absurd hkept (hgone row)
      · apply ih hkept
        split at hgone <;> rename_i hloop <;> rw [hloop] <;> exact hgone

/-- A row is lost only by a transaction that commits. -/
theorem committed_of_gone {ε : Type} {s : System} {r : Except ε Database} {i : Nat}
    {row : MessageRow} (hrow : (i, row) ∈ s.db.messages.rows)
    (hgone : ∀ row', (i, row') ∉ (s.commit r).db.messages.rows) :
    ∃ db', r = .ok db' ∧ (∀ row', (i, row') ∉ db'.messages.rows) ∧ ¬ KeepsIds s.db db' := by
  cases r with
  | error _ => exact absurd hrow (hgone row)
  | ok db' =>
    refine ⟨db', rfl, hgone, fun hkeeps => ?_⟩
    obtain ⟨row', hrow'⟩ := hkeeps i row hrow
    exact hgone row' hrow'

/-- The same for a transaction that returns more than the database. -/
theorem committed_of_gone_map {ε β : Type} {s : System} {r : Except ε (Database × β)}
    {i : Nat} {row : MessageRow} (hrow : (i, row) ∈ s.db.messages.rows)
    (hgone : ∀ row', (i, row') ∉ (s.commit (r.map Prod.fst)).db.messages.rows) :
    ∃ db' b, r = .ok (db', b) ∧ (∀ row', (i, row') ∉ db'.messages.rows) ∧
      ¬ KeepsIds s.db db' := by
  obtain ⟨db', hok, hgone', hnot⟩ := committed_of_gone hrow hgone
  cases r with
  | error _ => cases hok
  | ok result =>
    cases hok
    exact ⟨result.1, result.2, rfl, hgone', hnot⟩

/-- **Step lemma**: a row that is in the table before an operation and not after it was disposed
of. -/
theorem disposes_of_gone {s : System} (hwf : WellFormed s) (op : Operation) {i : Nat}
    {row : MessageRow} (hrow : (i, row) ∈ s.db.messages.rows)
    (hgone : ∀ row', (i, row') ∉ (s.step op).db.messages.rows) : Disposes s.db row op := by
  -- An operation that keeps all ids has not lost this one.
  have hkeeps : KeepsIds s.db (s.step op).db → Disposes s.db row op := by
    intro hkeeps
    obtain ⟨row', hrow'⟩ := hkeeps i row hrow
    exact absurd hrow' (hgone row')
  cases op with
  | createQueue name metadata =>
    obtain ⟨db', h, -, hnot⟩ := committed_of_gone hrow hgone
    exact absurd (.of_messages (createValidQueue_messages h)) hnot
  | deleteQueue name =>
    obtain ⟨db', h, hgone', -⟩ := committed_of_gone hrow hgone
    refine .queueDeleted name (of_not_not fun hqueue => hgone' row ?_)
    rw [deleteQueue_eq_ok h]
    exact List.mem_filter.mpr ⟨hrow, by simpa using hqueue⟩
  | enqueue clock queueName message =>
    obtain ⟨db', h, -, hnot⟩ := committed_of_gone hrow hgone
    exact absurd (enqueueMessageInTx_keepsIds h) hnot
  | enqueueBulk clock queueName messages mode =>
    exact hkeeps (enqueueMessagesBulk_keepsIds s.db clock queueName messages mode)
  | claim clock req =>
    obtain ⟨db', claimed, h, -, hnot⟩ := committed_of_gone_map hrow hgone
    exact absurd (claimMessageWithLeaseDuration_keepsIds h) hnot
  | acknowledge clock queueName messageId attemptId workerId =>
    obtain ⟨db', h, hgone', hnot⟩ := committed_of_gone hrow hgone
    obtain ⟨metadata, j, old, hmeta, howns, ⟨hdel, hdeleted⟩ | ⟨-, hupd⟩⟩ :=
      acknowledgeMessage_effect h
    · rw [← hdeleted.eq_of_gone hrow hgone'] at howns
      exact .acknowledged clock queueName messageId attemptId workerId howns ⟨metadata, hmeta, hdel⟩
    · exact absurd hupd.keepsIds hnot
  | nack clock queueName messageId attemptId workerId =>
    obtain ⟨db', h, hgone', hnot⟩ := committed_of_gone hrow hgone
    obtain ⟨metadata, j, old, hmeta, howns, ⟨-, hupd⟩ | ⟨hleft, hterm⟩⟩ := nackMessage_effect h
    · exact absurd hupd.keepsIds hnot
    · rcases hterm with ⟨hdlq, hdel, hdeleted⟩ | ⟨-, -, hupd⟩ | ⟨-, hupd⟩
      · rw [← hdeleted.eq_of_gone hrow hgone'] at howns hleft
        exact .rejected clock queueName messageId attemptId workerId howns hleft
          ⟨metadata, hmeta, hdlq, hdel⟩
      · exact absurd hupd.keepsIds hnot
      · exact absurd hupd.keepsIds hnot
  | cancel clock queueName messageId reason =>
    obtain ⟨db', h, hgone', hnot⟩ := committed_of_gone hrow hgone
    obtain ⟨metadata, j, old, hmeta, hq, hm, hwaiting, ⟨hdel, hdeleted⟩ | ⟨-, hupd⟩⟩ :=
      cancelMessage_effect h
    · rw [← hdeleted.eq_of_gone hrow hgone'] at hq hm hwaiting
      exact .canceled clock queueName messageId reason (addressed_iff.mpr ⟨hq, hm⟩) hwaiting
        ⟨metadata, hmeta, hdel⟩
    · exact absurd hupd.keepsIds hnot
  | extend clock queueName messageId attemptId workerId extensionMs =>
    obtain ⟨db', remaining, h, -, hnot⟩ := committed_of_gone_map hrow hgone
    obtain ⟨j, old, runtime, -, -, -, hupd⟩ := extendMessageLease_effect h
    exact absurd hupd.keepsIds hnot
  | heartbeat clock queueName messageId attemptId workerId =>
    obtain ⟨db', result, h, -, hnot⟩ := committed_of_gone_map hrow hgone
    obtain ⟨j, old, expiry, used, renewals, -, hupd, -⟩ := heartbeatMessage_effect h
    exact absurd hupd.keepsIds hnot
  | reclaim clock queueName message =>
    obtain ⟨db', result, h, hgone', hnot⟩ := committed_of_gone_map hrow hgone
    obtain ⟨metadata, j, old, hmeta, hexpired, ⟨-, hupd⟩ | ⟨hleft, hterm⟩, -⟩ :=
      reclaimExpiredMessage_effect h
    · exact absurd hupd.keepsIds hnot
    · rcases hterm with ⟨hdlq, hdel, hdeleted⟩ | ⟨-, -, hupd⟩ | ⟨-, hupd⟩
      · rw [← hdeleted.eq_of_gone hrow hgone'] at hexpired hleft
        exact .reclaimed clock queueName message hexpired hleft ⟨metadata, hmeta, hdlq, hdel⟩
      · exact absurd hupd.keepsIds hnot
      · exact absurd hupd.keepsIds hnot
  | retryDLQ clock dlqName messageId targetQueueName resetRetries =>
    obtain ⟨db', h, -, hnot⟩ := committed_of_gone hrow hgone
    obtain ⟨j, old, -, -, -, hupd⟩ := retryDLQMessage_effect h
    exact absurd hupd.keepsIds hnot
  | deleteDLQ queueName messageId =>
    obtain ⟨db', h, hgone', -⟩ := committed_of_gone hrow hgone
    obtain ⟨j, old, hq, hm, herrored, hdeleted⟩ := deleteDLQMessage_effect h
    rw [← hdeleted.eq_of_gone hrow hgone'] at hq hm herrored
    exact .deadLetter queueName messageId (addressed_iff.mpr ⟨hq, hm⟩) herrored
  | purgeDLQ queueName =>
    obtain ⟨hqueue, herrored⟩ := purgeDLQLoop_disposes hrow hgone
    exact .purged queueName hqueue herrored
  | collectScheduled nowMs limit => exact hkeeps (.refl s.db)
  | activate clock message =>
    apply hkeeps
    simp only [System.step]
    split
    · rename_i hcollected
      exact activateMessage_keepsIds (hwf.captured message hcollected)
    · exact .refl s.db
  | createRun clock run =>
    obtain ⟨db', h, -, hnot⟩ := committed_of_gone hrow hgone
    obtain ⟨queueMetadata, -, hins⟩ := createRunMessage_effect h
    exact absurd hins.keepsIds hnot
  | cleanup nowMs limit =>
    obtain ⟨db', deleted, h, hgone', -⟩ := committed_of_gone_map hrow hgone
    obtain ⟨p, hrem, hdue⟩ := cleanupExpiredBatch_effect h
    exact .cleaned nowMs limit (hdue _ hrow (hrem.of_gone hrow hgone'))

/-! ## Section 4: Runs -/

theorem Gone.run {s : System} {i : Nat} (h : Gone s.db i) (hwf : WellFormed s)
    (ops : List Operation) : Gone (runFrom System.step s ops).db i := by
  have hboth : WellFormed (runFrom System.step s ops) ∧ Gone (runFrom System.step s ops).db i := by
    apply invariant_runFrom' System.step (fun s => WellFormed s ∧ Gone s.db i)
    · intro s op ⟨hwf, hgone⟩
      exact ⟨hwf.step op, hgone.step hwf⟩
    · exact ⟨hwf, h⟩
  exact hboth.2

/-- The message stored under the id is disposed of by one of the operations, and its id is not
used again. -/
def DisposedOf (s : System) (ops : List Operation) (i : Nat) (message : MessageRow) : Prop :=
  ∃ xs op ys row, ops = xs ++ op :: ys ∧
    (i, row) ∈ (runFrom System.step s xs).db.messages.rows ∧ SameMessage message row ∧
    Disposes (runFrom System.step s xs).db row op ∧
    ∀ zs, zs <+: ys → Gone (runFrom System.step s (xs ++ op :: zs)).db i

/-- **Run lemma**: a message under its id is still there after any operations, or was disposed
of. -/
theorem stored_or_disposedOf {s : System} (hwf : WellFormed s) {i : Nat} {message row : MessageRow}
    (hrow : (i, row) ∈ s.db.messages.rows) (hholds : HoldsMessage s.db i message)
    (ops : List Operation) :
    (∃ row', (i, row') ∈ (runFrom System.step s ops).db.messages.rows ∧
      SameMessage message row') ∨ DisposedOf s ops i message := by
  induction ops generalizing s row with
  | nil => exact .inl ⟨row, hrow, hholds.same row hrow⟩
  | cons op ops ih =>
    by_cases hstays : ∃ row', (i, row') ∈ (s.step op).db.messages.rows
    · obtain ⟨row', hrow'⟩ := hstays
      rcases ih (hwf.step op) hrow' (hholds.step hwf) with hstored | hdisposed
      · exact .inl hstored
      · obtain ⟨xs, op', ys, last, hops, hlast, hsame, hdisposes, hgone⟩ := hdisposed
        exact .inr ⟨op :: xs, op', ys, last, by rw [hops]; rfl, hlast, hsame, hdisposes, hgone⟩
    · have hmissing : ∀ row', (i, row') ∉ (s.step op).db.messages.rows := by
        simpa using hstays
      have hgone : Gone (s.step op).db i := ⟨(hholds.step hwf).used, hmissing⟩
      refine .inr ⟨[], op, ops, row, rfl, hrow, hholds.same row hrow,
        disposes_of_gone hwf op hrow hmissing, fun zs _ => ?_⟩
      exact hgone.run (hwf.step op) zs

/-- **No message is lost**: once a message is stored, then after any further operations it is
still stored, or one of them was entitled to dispose of it and did. -/
theorem message_conserved (ops later : List Operation) (i : Nat) (row : MessageRow)
    (hrow : (i, row) ∈ (System.run ops).db.messages.rows) :
    (∃ row', (i, row') ∈ (System.run (ops ++ later)).db.messages.rows ∧ SameMessage row row') ∨
      DisposedOf (System.run ops) later i row := by
  have hrun := stored_or_disposedOf (wellFormed_run ops) hrow (holdsMessage_of_mem hrow) later
  have happend : System.run (ops ++ later) = runFrom System.step (System.run ops) later :=
    runFrom_append System.step System.empty ops later
  rw [happend]
  exact hrun

/-- A new queue with one message. -/
def postedOnce : List Operation :=
  [.createQueue "jobs" {},
   .enqueue (fun _ => 0) "jobs" ⟨"m", some
    ⟨.pending, 1, 1, 0, none, some ⟨some ⟨30, 0⟩, none, none, none, 0⟩⟩⟩]

/-- A worker claims and acknowledges it. -/
def finishedOnce : List Operation :=
  [.claim (fun _ => 10) ⟨"jobs", "w", "a", "", 0, 0, "g", "", generatedAttemptId_ne⟩,
   .acknowledge (fun _ => 20) "jobs" "m" "a" "w"]

/-- The row of the message. -/
def postedRow : MessageRow :=
  newRow "jobs" "m" ⟨.pending, 1, 1, 0, none, some ⟨some ⟨30, 0⟩, none, none, none, 0⟩⟩ none 0 0

/-- The queue keeps no finished messages: the acknowledgement disposes of this one. -/
theorem message_conserved_finishedOnce :
    (1, postedRow) ∈ (System.run postedOnce).db.messages.rows ∧
      DisposedOf (System.run postedOnce) finishedOnce 1 postedRow := by
  have hrow : (1, postedRow) ∈ (System.run postedOnce).db.messages.rows := by decide
  refine ⟨hrow, ?_⟩
  rcases message_conserved postedOnce finishedOnce 1 postedRow hrow with ⟨row', hrow', -⟩ | h
  · have hempty : (System.run (postedOnce ++ finishedOnce)).db.messages.rows = [] := by decide
    simp [hempty] at hrow'
  · exact h

end Nzovu.Repository
