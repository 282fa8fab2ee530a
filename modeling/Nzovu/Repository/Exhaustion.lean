import Nzovu.Repository.System

/-!
# Exhausted Messages

What happens to a RUNNING message without attempts left when its lease expires or its worker
rejects it. Both end in one statement that may move the row to the dead letter queue, and that
statement is refused when the dead letter queue already holds the message id.

- Section 1 proves what every reachable database satisfies: dead letter queues exist, and a
  RUNNING row can be addressed by its attempt id.
- Sections 2 and 3 decide when the rejection and the reclaim of an exhausted message succeed.
- Section 4 collects both for every reachable state.
-/

namespace Nzovu.Repository

open Nzovu.Foundation

/-! ## Section 1: Invariants of the database -/

/-- The dead letter queue a queue names is in its column, and exists. -/
def DlqsExist (db : Database) : Prop :=
  ∀ c ∈ db.configs, c.deadLetterQueueName = nullableDLQName c.metadata.deadLetterQueueName ∧
    (c.metadata.deadLetterQueueName ≠ "" →
      ∃ d ∈ db.configs, d.name = c.metadata.deadLetterQueueName)

/-- A RUNNING row is not soft-deleted, and its attempt id is NULL or not empty. -/
def RunningRows (db : Database) : Prop :=
  ∀ e ∈ db.messages.rows, e.2.state = .running →
    e.2.deletedAt = none ∧ e.2.currentAttemptId ≠ some ""

section Invariants

variable {adds : Additions} {db db' : Database} {event : Option (Nat × RowEvent)}

theorem configs_queueInserted {row : QueueRow} (h : db.queues.insert row = some db'.queues) :
    db'.configs = db.configs ++ [row.config] := by
  simp [Database.configs, (Table.insert_eq_some h).2.1]

theorem mem_configs_deleteQueueRow {name : String} {c : QueueConfig} :
    c ∈ (db.deleteQueueRow name).configs ↔ c ∈ db.configs ∧ c.name ≠ name := by
  simp only [Database.configs, Database.deleteQueueRow, Table.rows_delete, List.mem_map,
    List.mem_filter]
  constructor
  · rintro ⟨e, ⟨he, hne⟩, rfl⟩
    exact ⟨⟨e, he, rfl⟩, by simpa [QueueRow.config] using hne⟩
  · rintro ⟨⟨e, he, rfl⟩, hne⟩
    exact ⟨e, ⟨he, by simpa [QueueRow.config] using hne⟩, rfl⟩

theorem DlqsExist.change (hdlqs : DlqsExist db) (h : Change adds db db' event) :
    DlqsExist db' := by
  cases h with
  | unchanged h => rwa [h]
  | inserted _ _ _ _ _ _ _ h => rwa [DlqsExist, h.configs]
  | updated i old new event h => rwa [DlqsExist, h.configs]
  | deleted i old event h => rwa [DlqsExist, h.configs]
  | removed p h => rwa [DlqsExist, h.configs]
  | queueInserted queue _ hdlq h =>
    rw [DlqsExist, configs_queueInserted h]
    intro c hc
    rcases List.mem_append.mp hc with hc | hc
    · refine ⟨(hdlqs c hc).1, fun hne => ?_⟩
      obtain ⟨d, hd, hname⟩ := (hdlqs c hc).2 hne
      exact ⟨d, List.mem_append_left _ hd, hname⟩
    · cases List.mem_singleton.mp hc
      refine ⟨rfl, fun hne => ?_⟩
      obtain ⟨d, hd, hname⟩ := hasKey_iff_configs.mp (hdlq hne)
      exact ⟨d, List.mem_append_left _ hd, hname⟩
  | queueDeleted name hfree h =>
    subst h
    intro c hc
    obtain ⟨hmem, -⟩ := mem_configs_deleteQueueRow.mp hc
    refine ⟨(hdlqs c hmem).1, fun hne => ?_⟩
    obtain ⟨d, hd, hname⟩ := (hdlqs c hmem).2 hne
    -- The deleted queue is nobody's dead letter queue.
    refine ⟨d, mem_configs_deleteQueueRow.mpr ⟨hd, fun hdel => ?_⟩, hname⟩
    obtain ⟨e, he, rfl⟩ := List.mem_map.mp hmem
    apply hfree e he
    have hcolumn := (hdlqs _ hmem).1
    rw [nullableDLQName, if_neg hne, ← hname, hdel] at hcolumn
    exact hcolumn

theorem RunningRows.change (hrows : RunningRows db) (h : Change adds db db' event) :
    RunningRows db' := by
  intro ⟨i, row⟩ hmem hstate
  cases h.origin hmem with
  | kept hmem => exact hrows (i, row) hmem hstate
  | inserted _ _ _ _ _ _ _ _ _ hrow =>
    subst hrow
    simp [newRow]
  | changed old e hold ht =>
    cases ht with
    | claim req runtime nowMs hclaim =>
      exact ⟨hclaim.notDeleted, by simpa [claimRow] using req.attempt_ne⟩
    | extend runtime nowMs hrun => exact hrows (i, old) hold hrun
    | heartbeat nowMs heartbeatExpiry expiry used renewals hrun =>
      exact hrows (i, old) hold hrun
    | reclaim queueName completedAt deletedAt nowMs hrun =>
      have hrun' : reclaimState old = .running := hstate
      rcases reclaimState_cases old with h | h <;> rw [h] at hrun' <;> cases hrun'
    | _ => cases hstate

theorem dlqsExist_run (ops : List Operation) : DlqsExist (System.run ops).db :=
  invariant_run (fun _ hc => absurd hc List.not_mem_nil) (fun _ _ _ _ => DlqsExist.change) ops

theorem runningRows_run (ops : List Operation) : RunningRows (System.run ops).db :=
  invariant_run (fun _ he => absurd he List.not_mem_nil) (fun _ _ _ _ => RunningRows.change) ops

/-- The dead letter queue of an existing queue exists. -/
theorem hasKey_deadLetterQueue {queueName : String} {metadata : QueueMetadata}
    (hdlqs : DlqsExist db) (hmeta : db.queueMetadata? queueName = some metadata)
    (hne : metadata.deadLetterQueueName ≠ "") :
    db.queues.hasKey metadata.deadLetterQueueName = true := by
  obtain ⟨c, hc, -, rfl⟩ := queueMetadata?_eq_some.mp hmeta
  exact hasKey_iff_configs.mpr ((hdlqs c hc).2 hne)

end Invariants

/-! ## Section 2: Rejecting an exhausted message -/

/-- The message is out of RUNNING for good: ERRORED in the dead letter queue, ERRORED in its own
queue when it has none, or deleted by the retention policy. -/
inductive Terminated (db' : Database) (metadata : QueueMetadata) (nowMs : Int) (i : Nat)
    (row : MessageRow) : Prop where
  | deadLettered (new : MessageRow) (hdlq : metadata.deadLetterQueueName ≠ "")
      (hmem : (i, new) ∈ db'.messages.rows) (hstate : new.state = .errored)
      (hqueue : new.queueName = metadata.deadLetterQueueName)
  | kept (new : MessageRow) (hdlq : metadata.deadLetterQueueName = "")
      (hmem : (i, new) ∈ db'.messages.rows) (hstate : new.state = .errored)
      (hqueue : new.queueName = row.queueName)
  | deleted (hdlq : metadata.deadLetterQueueName = "")
      (hretention : (calculateDeletion nowMs metadata.messageRetentionPolicy).1 = true)
      (hgone : ∀ new, (i, new) ∉ db'.messages.rows)

/-- Another row holds the message id in the dead letter queue. -/
def HeldInDlq (db : Database) (metadata : QueueMetadata) (i : Nat) (row : MessageRow) : Prop :=
  metadata.deadLetterQueueName ≠ "" ∧ ∃ e ∈ db.messages.rows, e.1 ≠ i ∧
    e.2.queueName = metadata.deadLetterQueueName ∧ e.2.messageId = row.messageId

section Effects

variable {db db' : Database} {metadata : QueueMetadata} {i : Nat} {row new : MessageRow}

theorem RowUpdated.mem_new (h : RowUpdated db db' i row new) : (i, new) ∈ db'.messages.rows := by
  rw [h.rows]
  exact Table.mem_setRow.mpr (.inr ⟨rfl, (i, row), h.mem, rfl⟩)

theorem RowDeleted.not_mem (h : RowDeleted db db' i row) (new : MessageRow) :
    (i, new) ∉ db'.messages.rows := by
  rw [h.rows]
  exact fun hmem => (Table.mem_dropRow.mp hmem).2 rfl

theorem NackTerminal.terminated {clock : Readings} {queueName : String}
    (hqueue : row.queueName = queueName)
    (h : NackTerminal db db' clock metadata queueName i row) :
    Terminated db' metadata (clock 1) i row := by
  rcases h with ⟨hdlq, hret, hdel⟩ | ⟨hdlq, -, hupd⟩ | ⟨hdlq, hupd⟩
  · exact .deleted hdlq hret hdel.not_mem
  · exact .kept _ hdlq hupd.mem_new rfl hqueue.symm
  · exact .deadLettered _ hdlq hupd.mem_new rfl rfl

/-- A row that is still in the table in another state has not terminated. -/
theorem not_terminated {nowMs : Int} (hmem : (i, new) ∈ db'.messages.rows)
    (hstate : new.state ≠ .errored) : ¬ Terminated db' metadata nowMs i row := by
  intro h
  cases h with
  | deadLettered other _ hother herr =>
    cases Table.eq_of_id hmem hother rfl
    exact hstate herr
  | kept other _ hother herr =>
    cases Table.eq_of_id hmem hother rfl
    exact hstate herr
  | deleted _ _ hgone => exact hgone new hmem

/-- The statement that moves a row to the dead letter queue succeeds when the id is free there. -/
theorem updateMessages_dlq_isOk_iff {p : Nat × MessageRow → Bool} {f : MessageRow → MessageRow}
    (hsel : Table.Selects db.messages.rows p (i, row)) (hdlq : metadata.deadLetterQueueName ≠ "")
    (hkey : db.queues.hasKey metadata.deadLetterQueueName = true)
    (hqueue : (f row).queueName = metadata.deadLetterQueueName)
    (hmessage : (f row).messageId = row.messageId) :
    (∃ db', db.updateMessages p f = .ok db') ↔ ¬ HeldInDlq db metadata i row := by
  rw [Database.updateMessages_isOk_of_selects hsel]
  have hne : ∀ e ∈ db.messages.rows, e ≠ (i, row) ↔ e.1 ≠ i := by
    intro e he
    constructor
    · exact fun h hid => h (Table.eq_of_id he hsel.1 hid)
    · rintro h rfl
      exact h rfl
  simp only [hqueue, hkey, true_and, MessageRow.uniqueKey, hmessage, HeldInDlq, hdlq, ne_eq,
    not_false_eq_true, not_exists, not_and, Prod.mk.injEq]
  constructor
  · intro h e he hid hq
    exact h e he ((hne e he).mpr hid) hq
  · intro h e he hed hq
    exact h e he ((hne e he).mp hed) hq

/-- In its own queue a row keeps its key, so the statement succeeds. -/
theorem updateMessages_same_isOk {p : Nat × MessageRow → Bool} {f : MessageRow → MessageRow}
    (hsel : Table.Selects db.messages.rows p (i, row)) (hkey : (f row).uniqueKey = row.uniqueKey) :
    ∃ db', db.updateMessages p f = .ok db' := by
  apply (Database.updateMessages_isOk_of_selects hsel).mpr
  constructor
  · have hname : (f row).queueName = row.queueName := congrArg Prod.fst hkey
    rw [hname]
    exact db.foreignKey _ hsel.1
  · intro e he hne heq
    exact hne (Table.eq_of_key he hsel.1 (heq.trans hkey))

theorem removeCounter_isOk (db : Database) (q : String) (s : MessageState) :
    ∃ db', removeCounter db q s = .ok db' :=
  removeCounters_isOk db q s (by decide)

theorem nackExhausted_isOk_iff (clock : Readings) {guard : Nat × MessageRow → Bool}
    (hdlqs : metadata.deadLetterQueueName ≠ "" →
      db.queues.hasKey metadata.deadLetterQueueName = true)
    (hsel : Table.Selects db.messages.rows guard (i, row)) :
    (∃ db', nackExhausted db clock metadata row.queueName guard row = .ok db') ↔
      ¬ HeldInDlq db metadata i row := by
  by_cases hdlq : metadata.deadLetterQueueName = ""
  · have hfree : ¬ HeldInDlq db metadata i row := fun h => h.1 hdlq
    simp only [hfree, not_false_eq_true, iff_true]
    simp only [nackExhausted, hdlq, ne_eq, not_true_eq_false, if_false]
    split
    · exact removeCounter_isOk _ _ _
    · obtain ⟨db₁, hupd⟩ := updateMessages_same_isOk
        (f := exhaustRow row.queueName (decrementAttempts row.attemptsLeft) (clock 0)
          (calculateDeletion (clock 1) metadata.messageRetentionPolicy).2) hsel rfl
      rw [hupd]
      exact ⟨_, rfl⟩
  · rw [← updateMessages_dlq_isOk_iff (f := exhaustRow metadata.deadLetterQueueName
      (decrementAttempts row.attemptsLeft) (clock 0) none) hsel hdlq (hdlqs hdlq) rfl rfl]
    simp only [nackExhausted, hdlq, ne_eq, not_false_eq_true, if_true, Bool.false_eq_true,
      if_false]
    cases db.updateMessages guard (exhaustRow metadata.deadLetterQueueName
      (decrementAttempts row.attemptsLeft) (clock 0) none) <;> simp

/-- The owner's rejection leaves the message terminated. -/
def NackTerminates (db : Database) (clock : Readings) (attemptId workerId : String)
    (metadata : QueueMetadata) (i : Nat) (row : MessageRow) : Prop :=
  ∃ db', nackMessage db clock row.queueName row.messageId attemptId workerId = .ok db' ∧
    Terminated db' metadata (clock 1) i row

theorem getQueueMetadata_of_eq {name : String} (h : db.queueMetadata? name = some metadata) :
    getQueueMetadata db name = .ok metadata := by
  unfold getQueueMetadata
  rw [h]

theorem nackMessage_eq {clock : Readings} {attemptId workerId : String}
    (hmem : (i, row) ∈ db.messages.rows)
    (hmeta : db.queueMetadata? row.queueName = some metadata)
    (hown : Owns row.queueName row.messageId attemptId workerId (clock 0) row)
    (hexh : NackExhausts row.attemptsLeft) :
    nackMessage db clock row.queueName row.messageId attemptId workerId =
      nackExhausted db clock metadata row.queueName
        (fun e => owned row.queueName row.messageId attemptId workerId (clock 0) e.2) row := by
  have hfind := find?_owned hmem hown
  simp only [nackMessage, getQueueMetadata_of_eq hmeta, hfind]
  exact if_pos hexh

theorem nackTerminates_iff {clock : Readings} {attemptId workerId : String}
    (hdlqs : DlqsExist db) (hmem : (i, row) ∈ db.messages.rows)
    (hmeta : db.queueMetadata? row.queueName = some metadata)
    (hown : Owns row.queueName row.messageId attemptId workerId (clock 0) row) :
    NackTerminates db clock attemptId workerId metadata i row ↔
      NackExhausts row.attemptsLeft ∧ ¬ HeldInDlq db metadata i row := by
  have hisOk := nackExhausted_isOk_iff clock
    (fun hne => hasKey_deadLetterQueue hdlqs hmeta hne) (selects_owned hmem hown)
  constructor
  · rintro ⟨db', hok, hterm⟩
    obtain ⟨_, j, old, -, hown', hout⟩ := nackMessage_effect hok
    have hsame : ∀ {old}, (j, old) ∈ db.messages.rows →
        Owns row.queueName row.messageId attemptId workerId (clock 0) old → (j, old) = (i, row) :=
      fun hold hown' => ((selects_owned hmem hown).2 _ hold).mp (owned_iff.mpr hown')
    rcases hout with ⟨-, hupd⟩ | ⟨hexh, hout⟩
    -- A message that goes back to PENDING has not terminated.
    · cases hsame hupd.mem hown'
      exact absurd hterm (not_terminated hupd.mem_new (by simp [retryRow]))
    · have hold : (j, old) ∈ db.messages.rows := by
        rcases hout with ⟨-, -, h⟩ | ⟨-, -, h⟩ | ⟨-, h⟩ <;> exact h.mem
      cases hsame hold hown'
      rw [nackMessage_eq hmem hmeta hown hexh] at hok
      exact ⟨hexh, hisOk.mp ⟨db', hok⟩⟩
  · rintro ⟨hexh, hfree⟩
    obtain ⟨db', hok⟩ := hisOk.mpr hfree
    refine ⟨db', ?_, (nackExhausted_effect (selects_owned hmem hown) hok).terminated rfl⟩
    rw [nackMessage_eq hmem hmeta hown hexh]
    exact hok

end Effects

/-! ## Section 3: Reclaiming an exhausted message -/

section Reclaim

variable {db : Database} {metadata : QueueMetadata} {i : Nat} {row : MessageRow}

/-- The reclaim of the message, as the reclaimer found it, leaves it terminated. -/
def ReclaimTerminates (db : Database) (clock : Readings) (metadata : QueueMetadata) (i : Nat)
    (row : MessageRow) : Prop :=
  ∃ db' result, reclaimExpiredMessage db clock row.queueName
    ⟨row.messageId, row.currentAttemptId.getD ""⟩ = .ok (db', result) ∧
      Terminated db' metadata (clock 0) i row

theorem reclaimable_of_running {nowMs : Int} (hrows : RunningRows db)
    (hmem : (i, row) ∈ db.messages.rows) (hstate : row.state = .running)
    (hexpired : anyExpired nowMs row = true) :
    Reclaimable row.queueName row.messageId (row.currentAttemptId.getD "") nowMs row := by
  obtain ⟨hdel, hattempt⟩ := hrows _ hmem hstate
  refine ⟨rfl, rfl, hstate, ?_, hexpired, hdel⟩
  unfold attemptMatches
  cases hcur : row.currentAttemptId with
  | none => simp
  | some attemptId =>
    have hne : attemptId ≠ "" := by
      rintro rfl
      exact hattempt hcur
    simp [hne]

/-- Moving the rewritten row succeeds when the dead letter queue is free for its id. -/
theorem settleReclaimed_isOk_iff {db₂ : Database} {mid : MessageRow}
    (hdlqs : metadata.deadLetterQueueName ≠ "" →
      db.queues.hasKey metadata.deadLetterQueueName = true)
    (hrew : RowRewritten db db₂ i row mid) (hqueue : mid.queueName = row.queueName)
    (hmessage : mid.messageId = row.messageId) (herr : mid.state = .errored) :
    (∃ db', settleReclaimed db₂ row.queueName row.messageId metadata.deadLetterQueueName
      .errored = .ok db') ↔ ¬ HeldInDlq db metadata i row := by
  by_cases hdlq : metadata.deadLetterQueueName = ""
  · have hfree : ¬ HeldInDlq db metadata i row := fun h => h.1 hdlq
    simp [settleReclaimed, hdlq, hfree]
  · have hsel := selects_addressed_state hrew.mem_new hqueue hmessage herr
    -- The earlier statements only rewrote the row itself, which does not hold its own id there.
    have hheld : HeldInDlq db₂ metadata i mid ↔ HeldInDlq db metadata i row := by
      simp only [HeldInDlq, hrew.rows, hmessage]
      refine and_congr_right fun _ => ⟨?_, ?_⟩
      · rintro ⟨e, he, hid, hkey⟩
        rcases Table.mem_setRow.mp he with ⟨he, -⟩ | ⟨rfl, -⟩
        · exact ⟨e, he, hid, hkey⟩
        · exact absurd rfl hid
      · rintro ⟨e, he, hid, hkey⟩
        exact ⟨e, Table.mem_setRow.mpr (.inl ⟨he, hid⟩), hid, hkey⟩
    have hkey : db₂.queues.hasKey metadata.deadLetterQueueName = true := by
      rw [hrew.queues]
      exact hdlqs hdlq
    rw [← hheld, ← updateMessages_dlq_isOk_iff
      (f := fun row => { row with queueName := metadata.deadLetterQueueName }) hsel hdlq hkey rfl
      rfl]
    simp only [settleReclaimed, hdlq, ne_eq, not_false_eq_true, and_self, if_true]
    cases db₂.updateMessages (fun e => addressed row.queueName row.messageId e.2 &&
      decide (e.2.state = .errored))
      (fun row => { row with queueName := metadata.deadLetterQueueName }) <;> simp

theorem reclaimExpiredMessage_isOk_iff {clock : Readings} (message : ExpiredMessage)
    (hdlqs : DlqsExist db) (hmem : (i, row) ∈ db.messages.rows)
    (hmeta : db.queueMetadata? row.queueName = some metadata)
    (hrec : Reclaimable row.queueName message.messageId message.attemptId (clock 1) row)
    (hexh : reclaimState row = .errored) :
    (∃ r, reclaimExpiredMessage db clock row.queueName message = .ok r) ↔
      ¬ HeldInDlq db metadata i row := by
  have hsel := selects_reclaimable hmem hrec
  have hfind := Table.find?_of_selects hsel
  have hrew := RowRewritten.of_modifyMessages (f := reclaimRow (clock 1)) (fun _ => rfl) hsel
  simp only [reclaimExpiredMessage, getQueueMetadata_of_eq hmeta, hfind, hexh, true_and]
  split
  · rename_i hdel
    have hfree : ¬ HeldInDlq db metadata i row := fun h => h.1 hdel.1
    obtain ⟨db', hrem⟩ := removeCounter_isOk
      (((db.modifyMessages (fun e => reclaimable row.queueName message.messageId
        message.attemptId (clock 1) e.2) (reclaimRow (clock 1)) fun _ => rfl).deleteMessages
          fun e => addressed row.queueName message.messageId e.2 &&
            decide (e.2.state = .errored))) row.queueName .running
    simp [hrem, hfree]
  · have hsel₁ := selects_addressed hrew.mem_new rfl hrec.message
    have hrew₂ := hrew.trans (RowRewritten.of_modifyMessages
      (f := clearReclaimedRow
        (reclaimTimestamps .errored metadata.deadLetterQueueName (clock 1)
          (calculateDeletion (clock 0) metadata.messageRetentionPolicy).2).1
        (reclaimTimestamps .errored metadata.deadLetterQueueName (clock 1)
          (calculateDeletion (clock 0) metadata.messageRetentionPolicy).2).2)
      (fun _ => rfl) hsel₁)
    have hsettle := settleReclaimed_isOk_iff
      (fun hne => hasKey_deadLetterQueue hdlqs hmeta hne) hrew₂ rfl rfl hexh
    simp only [hrec.message] at hsettle
    constructor
    · rintro ⟨r, hr⟩
      split at hr
      · cases hr
      · rename_i db' hok
        exact hsettle.mp ⟨db', hok⟩
    · intro hfree
      obtain ⟨db', hok⟩ := hsettle.mpr hfree
      split
      · rename_i err herr
        have hboth := herr.symm.trans hok
        cases hboth
      · exact ⟨_, rfl⟩

theorem ReclaimOutcome.terminated {db' : Database} {clock : Readings} {queueName : String}
    (hqueue : row.queueName = queueName) (hexh : reclaimState row = .errored)
    (h : ReclaimOutcome db db' clock metadata queueName i row) :
    Terminated db' metadata (clock 0) i row := by
  rcases h with ⟨hpend, -⟩ | ⟨-, ⟨hdlq, hret, hdel⟩ | ⟨hdlq, -, hupd⟩ | ⟨hdlq, hupd⟩⟩
  · rw [hexh] at hpend
    cases hpend
  · exact .deleted hdlq hret hdel.not_mem
  · exact .kept _ hdlq hupd.mem_new hexh hqueue.symm
  · exact .deadLettered _ hdlq hupd.mem_new hexh rfl

theorem reclaimTerminates_iff {clock : Readings} (hdlqs : DlqsExist db) (hrows : RunningRows db)
    (hmem : (i, row) ∈ db.messages.rows)
    (hmeta : db.queueMetadata? row.queueName = some metadata) (hstate : row.state = .running)
    (hexpired : anyExpired (clock 1) row = true) (hexh : reclaimState row = .errored) :
    ReclaimTerminates db clock metadata i row ↔ ¬ HeldInDlq db metadata i row := by
  have hrec := reclaimable_of_running hrows hmem hstate hexpired
  have hisOk := reclaimExpiredMessage_isOk_iff
    ⟨row.messageId, row.currentAttemptId.getD ""⟩ hdlqs hmem hmeta hrec hexh
  rw [← hisOk]
  constructor
  · rintro ⟨db', result, hok, -⟩
    exact ⟨(db', result), hok⟩
  · rintro ⟨⟨db', result⟩, hok⟩
    refine ⟨db', result, hok, ?_⟩
    obtain ⟨metadata', j, old, hmeta', hrec', hout, -⟩ := reclaimExpiredMessage_effect hok
    cases hmeta.symm.trans hmeta'
    have hold : (j, old) ∈ db.messages.rows := by
      rcases hout with ⟨-, h⟩ | ⟨-, ⟨-, -, h⟩ | ⟨-, -, h⟩ | ⟨-, h⟩⟩ <;> exact h.mem
    cases ((selects_reclaimable hmem hrec).2 _ hold).mp (reclaimable_iff.mpr hrec')
    exact hout.terminated rfl hexh

end Reclaim

/-! ## Section 4: Every reachable state -/

/-- A RUNNING message without attempts left. -/
structure Exhausted (db : Database) (metadata : QueueMetadata) (i : Nat) (row : MessageRow) :
    Prop where
  mem : (i, row) ∈ db.messages.rows
  state : row.state = .running
  queue : db.queueMetadata? row.queueName = some metadata
  finite : row.maxAttempts ≠ -1
  left : row.attemptsLeft ≤ 1

theorem Exhausted.reclaimState {db : Database} {metadata : QueueMetadata} {i : Nat}
    {row : MessageRow} (h : Exhausted db metadata i row) : reclaimState row = .errored := by
  apply if_neg
  rintro (hinf | hleft)
  · exact h.finite hinf
  · exact absurd h.left (Int.not_le.mpr hleft)

/-- A rejection takes the last attempt off the counter unless that makes it `-1`. -/
theorem nackExhausts_iff {attemptsLeft : Int} (hleft : attemptsLeft ≤ 1) :
    NackExhausts attemptsLeft ↔ attemptsLeft ≠ 0 ∧ attemptsLeft ≠ -1 := by
  unfold NackExhausts decrementAttempts
  split <;> omega

/-- **Exhausted messages**: in every reachable state, reclaiming an exhausted message whose lease
or heartbeat has expired terminates it exactly when no other row holds its id in the dead letter
queue; its owner's rejection needs an `attempts_left` other than `0` and `-1` as well. -/
theorem exhausted_terminates_iff (ops : List Operation) {metadata : QueueMetadata} {i : Nat}
    {row : MessageRow} (h : Exhausted (System.run ops).db metadata i row) :
    (∀ clock : Readings, anyExpired (clock 1) row = true →
      (ReclaimTerminates (System.run ops).db clock metadata i row ↔
        ¬ HeldInDlq (System.run ops).db metadata i row)) ∧
    (∀ (clock : Readings) (attemptId workerId : String),
      Owns row.queueName row.messageId attemptId workerId (clock 0) row →
      (NackTerminates (System.run ops).db clock attemptId workerId metadata i row ↔
        (row.attemptsLeft ≠ 0 ∧ row.attemptsLeft ≠ -1) ∧
          ¬ HeldInDlq (System.run ops).db metadata i row)) := by
  constructor
  · intro clock hexpired
    exact reclaimTerminates_iff (dlqsExist_run ops) (runningRows_run ops) h.mem h.queue h.state
      hexpired h.reclaimState
  -- The owner's rejection also depends on the counter it decrements.
  · intro clock attemptId workerId hown
    rw [nackTerminates_iff (dlqsExist_run ops) h.mem h.queue hown, nackExhausts_iff h.left]

/-- A queue with a dead letter queue, and its message `m` on its only attempt. -/
def onlyAttempt : List Operation :=
  [.createQueue "jobs" { autoCreateDlq := true },
   .enqueue (fun _ => 0) "jobs" ⟨"m", some
    ⟨.pending, 1, 1, 0, none, some ⟨some ⟨30, 0⟩, none, none, none, 0⟩⟩⟩,
   .claim (fun _ => 10) ⟨"jobs", "w", "a", "", 0, 0, "g", "", generatedAttemptId_ne⟩]

/-- The same after an earlier message `m` went to the dead letter queue. -/
def onlyAttemptAgain : List Operation :=
  onlyAttempt ++ [.nack (fun _ => 20) "jobs" "m" "a" "w"] ++ onlyAttempt.tail

/-- The metadata the queue of the two runs is stored with. -/
def jobsMetadata : QueueMetadata := completeQueueMetadata "jobs" { autoCreateDlq := true }

/-- The claimed row of the two runs. -/
def onlyAttemptRow : MessageRow :=
  claimRow "a" "w" ⟨10, 30010, 10, 0, 0⟩ 10
    (newRow "jobs" "m" ⟨.pending, 1, 1, 0, none, some ⟨some ⟨30, 0⟩, none, none, none, 0⟩⟩ none 0 0)

/-- On its first way out the message terminates. -/
theorem exhausted_terminates_onlyAttempt :
    ReclaimTerminates (System.run onlyAttempt).db (fun _ => 30010) jobsMetadata 1 onlyAttemptRow ∧
    NackTerminates (System.run onlyAttempt).db (fun _ => 20) "a" "w" jobsMetadata 1
      onlyAttemptRow := by
  have hfree : ¬ HeldInDlq (System.run onlyAttempt).db jobsMetadata 1 onlyAttemptRow := by
    rintro ⟨-, e, he, hid, -⟩
    have hone : ∀ e ∈ (System.run onlyAttempt).db.messages.rows, e.1 = 1 := by decide
    exact hid (hone e he)
  have hexh : Exhausted (System.run onlyAttempt).db jobsMetadata 1 onlyAttemptRow :=
    ⟨by decide, by decide, by decide, by decide, by decide⟩
  have hboth := exhausted_terminates_iff onlyAttempt hexh
  refine ⟨(hboth.1 _ (by decide)).mpr hfree, (hboth.2 _ "a" "w" ?_).mpr ⟨by decide, hfree⟩⟩
  exact owned_iff.mp (by decide)

/-- The second message with the same id can never be reclaimed. -/
theorem exhausted_not_terminates :
    ¬ (∀ (ops : List Operation) (metadata : QueueMetadata) (i : Nat) (row : MessageRow),
      Exhausted (System.run ops).db metadata i row →
        (∀ clock : Readings, anyExpired (clock 1) row = true →
          ReclaimTerminates (System.run ops).db clock metadata i row) ∧
        (∀ (clock : Readings) (attemptId workerId : String),
          Owns row.queueName row.messageId attemptId workerId (clock 0) row →
          NackTerminates (System.run ops).db clock attemptId workerId metadata i row)) := by
  intro h
  have hexh : Exhausted (System.run onlyAttemptAgain).db jobsMetadata 2 onlyAttemptRow :=
    ⟨by decide, by decide, by decide, by decide, by decide⟩
  have hheld : HeldInDlq (System.run onlyAttemptAgain).db jobsMetadata 2 onlyAttemptRow :=
    ⟨by decide, by decide⟩
  have hterm := (h onlyAttemptAgain jobsMetadata 2 onlyAttemptRow hexh).1 (fun _ => 30010)
    (by decide)
  exact (reclaimTerminates_iff (dlqsExist_run _) (runningRows_run _) hexh.mem hexh.queue
    hexh.state (by decide) hexh.reclaimState).mp hterm hheld

end Nzovu.Repository
