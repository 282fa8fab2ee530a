import Nzovu.Foundation.References
import Nzovu.Repository.Exhaustion

/-!
# The Dead Letter Graph

Queues refer to their dead letter queues. A queue is created after the dead letter queue it names
and deleted before it, so in the order of creation all references go to older queues. From this
follow the existence of every dead letter queue and the absence of cycles, and that dead-lettering
never brings a message back to a queue it has left.

- Section 1 keeps the references grounded.
- Section 2 follows one message: only dead-lettering and an operator's requeue move it.
- Section 3 is the theorem about runs.
-/

namespace Nzovu.Repository

open Nzovu.Foundation
open Nzovu.Background

/-! ## Section 1: References between queues -/

/-- The queue `name` has the dead letter queue `dlqName`. -/
def HasDlq (db : Database) (name dlqName : String) : Prop :=
  ∃ e ∈ db.queues.rows, e.2.name = name ∧ e.2.deadLetterQueueName = some dlqName

/-- The queues from the newest to the oldest. -/
def newestFirst (db : Database) : List QueueConfig := db.configs.reverse

/-- Every queue refers to an older one, if to any. -/
def DlqsGrounded (db : Database) : Prop :=
  Grounded QueueConfig.name QueueConfig.deadLetterQueueName (newestFirst db)

theorem hasDlq_iff_refers {db : Database} {name dlqName : String} :
    HasDlq db name dlqName ↔
      Refers QueueConfig.name QueueConfig.deadLetterQueueName (newestFirst db) name dlqName := by
  simp [HasDlq, Refers, newestFirst, Database.configs, QueueRow.config]

theorem newestFirst_nodup (db : Database) : ((newestFirst db).map QueueConfig.name).Nodup := by
  rw [newestFirst, List.map_reverse, List.nodup_reverse]
  simpa [Database.configs, QueueRow.config, Function.comp_def] using db.queues.keys_nodup

theorem hasKey_iff_newestFirst {db : Database} {name : String} :
    db.queues.hasKey name = true ↔ ∃ c ∈ newestFirst db, c.name = name := by
  simp [hasKey_iff_configs, newestFirst]

section Changes

variable {adds : Additions} {db db' : Database} {event : Option (Nat × RowEvent)}

theorem newestFirst_queueInserted {row : QueueRow}
    (h : db.queues.insert row = some db'.queues) :
    newestFirst db' = row.config :: newestFirst db := by
  simp [newestFirst, configs_queueInserted h]

theorem newestFirst_deleteQueueRow (name : String) :
    newestFirst (db.deleteQueueRow name) =
      (newestFirst db).filter fun c => c.name ≠ name := by
  simp [newestFirst, Database.configs, Database.deleteQueueRow, List.filter_map,
    Function.comp_def, QueueRow.config]

theorem newestFirst_of_configs (h : db'.configs = db.configs) :
    newestFirst db' = newestFirst db := by
  rw [newestFirst, h, newestFirst]

theorem DlqsGrounded.change (hgrounded : DlqsGrounded db) (h : Change adds db db' event) :
    DlqsGrounded db' := by
  unfold DlqsGrounded at hgrounded ⊢
  cases h with
  | unchanged h => rwa [h]
  | inserted _ _ _ _ _ _ _ h => rwa [newestFirst_of_configs h.configs]
  | updated i old new event h => rwa [newestFirst_of_configs h.configs]
  | deleted i old event h => rwa [newestFirst_of_configs h.configs]
  | removed p h => rwa [newestFirst_of_configs h.configs]
  | queueInserted queue _ hdlq h =>
    rw [newestFirst_queueInserted h]
    refine ⟨fun dlqName hname => ?_, hgrounded⟩
    -- A name in the column is not empty, and was looked up in the same transaction.
    obtain ⟨hne, rfl⟩ : queue.metadata.deadLetterQueueName ≠ "" ∧
        queue.metadata.deadLetterQueueName = dlqName := by
      simpa [QueueRow.config, Queue.toRow, nullableDLQName] using hname
    exact hasKey_iff_newestFirst.mp (hdlq hne)
  | queueDeleted name hfree h =>
    rw [h, newestFirst_deleteQueueRow]
    refine hgrounded.delete fun c hc => ?_
    obtain ⟨e, he, rfl⟩ := List.mem_map.mp (List.mem_reverse.mp hc)
    exact hfree e he

end Changes

theorem dlqsGrounded_run (ops : List Operation) : DlqsGrounded (System.run ops).db :=
  invariant_run trivial (fun _ _ _ _ => DlqsGrounded.change) ops

/-- The dead letter queue in a queue's stored metadata is the one in its column. -/
theorem hasDlq_of_metadata {db : Database} {name : String} {metadata : QueueMetadata}
    (hdlqs : DlqsExist db) (hmeta : db.queueMetadata? name = some metadata)
    (hne : metadata.deadLetterQueueName ≠ "") : HasDlq db name metadata.deadLetterQueueName := by
  obtain ⟨c, hc, rfl, rfl⟩ := queueMetadata?_eq_some.mp hmeta
  have hcolumn := (hdlqs c hc).1
  rw [nullableDLQName, if_neg hne] at hcolumn
  exact hasDlq_iff_refers.mpr ⟨c, List.mem_reverse.mpr hc, rfl, hcolumn⟩

/-! ## Section 2: One message -/

/-- The message is in a queue that has left `name` behind: no queue created before it is called
so. When it is `away`, its queue is another than `name`. -/
structure Tracks (away : Prop) (name : String) (i : Nat) (db : Database) : Prop where
  used : i < db.messages.nextId
  behind : ∀ row, (i, row) ∈ db.messages.rows →
    Behind QueueConfig.name name (newestFirst db) row.queueName ∧
      (away → row.queueName ≠ name)

/-- Events that leave a message in its queue. -/
def RowEvent.Stays : RowEvent → Prop
  | .rejected | .reclaimed | .requeued => False
  | .claimed _ _ | .acknowledged | .renewed => True

theorem RowTransition.queueName {old new : MessageRow} {event : Option RowEvent}
    (h : RowTransition old event new) (hevent : ∀ e, event = some e → e.Stays) :
    new.queueName = old.queueName := by
  cases h with
  | exhaust => exact (hevent _ rfl).elim
  | reclaim => exact (hevent _ rfl).elim
  | requeue => exact (hevent _ rfl).elim
  | _ => rfl

section Tracking

variable {adds : Additions} {db db' : Database} {event : Option (Nat × RowEvent)} {away : Prop}
  {name : String} {i : Nat}

/-- A change of the tables that leaves the message in its queue, if it leaves it at all. -/
theorem Tracks.change (htracks : Tracks away name i db) (h : Change adds db db' event)
    (hevent : ∀ e, event = some (i, e) → e.Stays) : Tracks away name i db' := by
  refine ⟨Nat.lt_of_lt_of_le htracks.used h.nextId_le, fun row hmem => ?_⟩
  obtain ⟨old, hold, hqueue⟩ : ∃ old, (i, old) ∈ db.messages.rows ∧
      row.queueName = old.queueName := by
    cases h.origin hmem with
    | kept hold _ => exact ⟨row, hold, rfl⟩
    | inserted _ _ _ _ _ _ hid => exact absurd hid (Nat.ne_of_lt htracks.used)
    | changed old e hold ht he =>
      refine ⟨old, hold, ht.queueName fun d hd => hevent d ?_⟩
      rw [he, hd]
      rfl
  obtain ⟨hbehind, haway⟩ := htracks.behind old hold
  rw [hqueue]
  refine ⟨?_, haway⟩
  cases h with
  | unchanged h => rwa [h]
  | inserted _ _ _ _ _ _ _ h => rwa [newestFirst_of_configs h.configs]
  | updated _ _ _ _ h => rwa [newestFirst_of_configs h.configs]
  | deleted _ _ _ h => rwa [newestFirst_of_configs h.configs]
  | removed _ h => rwa [newestFirst_of_configs h.configs]
  | queueInserted queue _ _ h =>
    rw [newestFirst_queueInserted h]
    refine hbehind.cons fun c hc hsame => ?_
    have hfree : db.queues.hasKey queue.toRow.name = false := (Table.insert_eq_some h).1
    exact Bool.false_ne_true (hfree.symm.trans (hasKey_iff_newestFirst.mpr ⟨c, hc, hsame⟩))
  | queueDeleted deleted _ h =>
    subst h
    rw [newestFirst_deleteQueueRow]
    -- The messages of the deleted queue went with it.
    have hother := (List.mem_filter.mp hmem).2
    exact hbehind.delete (hqueue ▸ by simpa using hother)

/-- A message that moved along a reference of its queue has left `name` for good. -/
theorem Tracks.updated (htracks : Tracks away name i db) (hgrounded : DlqsGrounded db) {j : Nat}
    {old new : MessageRow} (hupd : RowUpdated db db' j old new)
    (hmoved : new.queueName = old.queueName ∨ HasDlq db old.queueName new.queueName) :
    Tracks away name i db' := by
  refine ⟨hupd.nextId ▸ htracks.used, fun row hmem => ?_⟩
  rw [newestFirst_of_configs hupd.configs]
  rw [hupd.rows] at hmem
  rcases Table.mem_setRow.mp hmem with ⟨hmem, -⟩ | ⟨heq, -⟩
  · exact htracks.behind row hmem
  · cases heq
    obtain ⟨hbehind, haway⟩ := htracks.behind old hupd.mem
    rcases hmoved with hsame | hdlq
    · rw [hsame]
      exact ⟨hbehind, haway⟩
    · obtain ⟨hbehind', hne⟩ :=
        hbehind.refers hgrounded (newestFirst_nodup db) (hasDlq_iff_refers.mp hdlq)
      exact ⟨hbehind', fun _ => hne⟩

theorem Tracks.deleted (htracks : Tracks away name i db) {j : Nat} {old : MessageRow}
    (hdel : RowDeleted db db' j old) : Tracks away name i db' := by
  refine ⟨hdel.nextId ▸ htracks.used, fun row hmem => ?_⟩
  rw [newestFirst_of_configs hdel.configs]
  rw [hdel.rows] at hmem
  exact htracks.behind row (Table.mem_dropRow.mp hmem).1

theorem Tracks.nack (htracks : Tracks away name i db) (hgrounded : DlqsGrounded db)
    (hdlqs : DlqsExist db) {clock : Readings} {queueName messageId attemptId workerId : String}
    (h : nackMessage db clock queueName messageId attemptId workerId = .ok db') :
    Tracks away name i db' := by
  obtain ⟨metadata, j, old, hmeta, hown, ⟨-, hupd⟩ | ⟨-, hterminal⟩⟩ := nackMessage_effect h
  · exact htracks.updated hgrounded hupd (.inl rfl)
  · obtain rfl := hown.queue
    rcases hterminal with ⟨-, -, hdel⟩ | ⟨-, -, hupd⟩ | ⟨hdlq, hupd⟩
    · exact htracks.deleted hdel
    · exact htracks.updated hgrounded hupd (.inl rfl)
    · exact htracks.updated hgrounded hupd (.inr (hasDlq_of_metadata hdlqs hmeta hdlq))

theorem Tracks.reclaim (htracks : Tracks away name i db) (hgrounded : DlqsGrounded db)
    (hdlqs : DlqsExist db) {clock : Readings} {queueName : String} {message : ExpiredMessage}
    {result : ReclaimResult}
    (h : reclaimExpiredMessage db clock queueName message = .ok (db', result)) :
    Tracks away name i db' := by
  obtain ⟨metadata, j, old, hmeta, hrec, houtcome, -⟩ := reclaimExpiredMessage_effect h
  obtain rfl := hrec.queue
  rcases houtcome with ⟨-, hupd⟩ | ⟨-, ⟨-, -, hdel⟩ | ⟨-, -, hupd⟩ | ⟨hdlq, hupd⟩⟩
  · exact htracks.updated hgrounded hupd (.inl rfl)
  · exact htracks.deleted hdel
  · exact htracks.updated hgrounded hupd (.inl rfl)
  · exact htracks.updated hgrounded hupd (.inr (hasDlq_of_metadata hdlqs hmeta hdlq))

end Tracking

/-- No operator moves message `i` out of a dead letter queue. -/
def NotRequeued (i : Nat) (s : System) (op : Operation) : Prop :=
  s.event op ≠ some (i, .requeued)

/-- What tracking a message rests on. -/
structure Tracked (away : Prop) (name : String) (i : Nat) (s : System) : Prop where
  wellFormed : WellFormed s
  grounded : DlqsGrounded s.db
  dlqs : DlqsExist s.db
  tracks : Tracks away name i s.db

/-- **Step lemma**: whatever the operation, the message stays in its queue or moves along a
reference. -/
theorem Tracks.step {away : Prop} {name : String} {i : Nat} {s : System} (op : Operation)
    (h : Tracked away name i s) (hreq : NotRequeued i s op) :
    Tracks away name i (s.step op).db := by
  have hstays : (∀ e, s.event op = some (i, e) → e.Stays) → Tracks away name i (s.step op).db :=
    fun hevent => (step_changes h.wellFormed op).preserves_when
      (E := fun event => ∀ e, event = some (i, e) → e.Stays) (fun _ he => by cases he)
      (fun _ _ _ hevent htracks hchange => htracks.change hchange hevent) hevent h.tracks
  cases op with
  | nack clock queueName messageId attemptId workerId =>
    simp only [System.step]
    cases hnack : nackMessage s.db clock queueName messageId attemptId workerId with
    | error _ => exact h.tracks
    | ok db' => exact h.tracks.nack h.grounded h.dlqs hnack
  | reclaim clock queueName message =>
    simp only [System.step]
    cases hreclaim : reclaimExpiredMessage s.db clock queueName message with
    | error _ => exact h.tracks
    | ok result => exact h.tracks.reclaim h.grounded h.dlqs hreclaim
  | retryDLQ =>
    refine hstays fun e he => ?_
    obtain ⟨rfl, -⟩ := touched_eq_some he
    exact absurd he hreq
  | claim clock req =>
    refine hstays fun e he => ?_
    simp only [System.event] at he
    split at he
    · obtain ⟨d, -, hd⟩ := Option.map_eq_some_iff.mp he
      cases hd
      trivial
    · cases he
  | acknowledge | extend | heartbeat =>
    refine hstays fun e he => ?_
    obtain ⟨rfl, -⟩ := touched_eq_some he
    trivial
  | _ => exact hstays fun e he => by cases he

theorem Tracked.step {away : Prop} {name : String} {i : Nat} {s : System} {op : Operation}
    (h : Tracked away name i s) (hreq : NotRequeued i s op) :
    Tracked away name i (s.step op) := by
  have hchanges := step_changes h.wellFormed op
  exact ⟨h.wellFormed.step op,
    hchanges.preserves' (fun _ _ _ => DlqsGrounded.change) h.grounded,
    hchanges.preserves' (fun _ _ _ => DlqsExist.change) h.dlqs,
    Tracks.step op h hreq⟩

theorem tracked_run (ops : List Operation) {i : Nat} {row : MessageRow}
    (hmem : (i, row) ∈ (System.run ops).db.messages.rows) :
    Tracked False row.queueName i (System.run ops) := by
  refine ⟨wellFormed_run ops, dlqsGrounded_run ops, dlqsExist_run ops,
    (System.run ops).db.messages.id_lt _ hmem, fun row' hmem' => ?_⟩
  cases Table.eq_of_id hmem' hmem rfl
  refine ⟨behind_self (newestFirst_nodup _) ?_, False.elim⟩
  exact hasKey_iff_newestFirst.mp ((System.run ops).db.foreignKey _ hmem)

/-! ## Section 3: Runs -/

/-- Message `i` is in queue `name`. -/
def InQueue (db : Database) (i : Nat) (name : String) : Prop :=
  ∃ row, (i, row) ∈ db.messages.rows ∧ row.queueName = name

instance (db : Database) (i : Nat) (name : String) : Decidable (InQueue db i name) :=
  decidable_of_iff (∃ e ∈ db.messages.rows, e.1 = i ∧ e.2.queueName = name)
    ⟨fun ⟨e, he, hid, hname⟩ => ⟨e.2, hid ▸ he, hname⟩,
      fun ⟨row, hmem, hname⟩ => ⟨(i, row), hmem, rfl, hname⟩⟩

instance (i : Nat) (s : System) (op : Operation) : Decidable (NotRequeued i s op) :=
  inferInstanceAs (Decidable (¬ _ = _))

/-- **Soundness of the dead letter graph**: after every run of the operations, every dead letter
queue exists and no queue is reached from itself by following dead letter queues. A message that
is in a queue and later in another one is never again in the first, unless an operator requeues
it; and wherever it is, that queue exists. -/
theorem deadLetterGraph_sound (ops : List Operation) :
    (∀ name dlqName, HasDlq (System.run ops).db name dlqName →
      (System.run ops).db.queues.hasKey dlqName = true) ∧
    (∀ name, ¬ Relation.TransGen (HasDlq (System.run ops).db) name name) ∧
    ∀ i name, InQueue (System.run ops).db i name →
      (System.run ops).db.queues.hasKey name = true ∧
      ∀ before after, Follows System.step (NotRequeued i) (System.run ops) (before ++ after) →
        ∀ moved, InQueue (System.run (ops ++ before)).db i moved → moved ≠ name →
          ¬ InQueue (System.run (ops ++ before ++ after)).db i name := by
  have hgrounded := dlqsGrounded_run ops
  have hrefers : HasDlq (System.run ops).db = Refers QueueConfig.name
      QueueConfig.deadLetterQueueName (newestFirst (System.run ops).db) := by
    funext name dlqName
    exact propext hasDlq_iff_refers
  refine ⟨fun name dlqName hdlq => ?_, fun name => ?_, ?_⟩
  · exact hasKey_iff_newestFirst.mpr (hgrounded.exists_target (hasDlq_iff_refers.mp hdlq))
  · rw [hrefers]
    exact hgrounded.acyclic (newestFirst_nodup _) name
  · rintro i _ ⟨row, hmem, rfl⟩
    refine ⟨(System.run ops).db.foreignKey _ hmem, ?_⟩
    rintro before after hfollows _ ⟨row₁, hmem₁, rfl⟩ hne ⟨row₂, hmem₂, hback⟩
    obtain ⟨hbefore, hafter⟩ := (follows_append System.step).mp hfollows
    have hrun : ∀ {away : Prop} {s : System} {more : List Operation},
        Tracked away row.queueName i s → Follows System.step (NotRequeued i) s more →
          Tracked away row.queueName i (runFrom System.step s more) :=
      fun hinit h => invariant_runFrom System.step (Tracked _ row.queueName i)
        (fun _ _ => Tracked.step) hinit h
    -- Once it is away, it stays away.
    have hmid := hrun (tracked_run ops hmem) hbefore
    have haway : Tracked True row.queueName i (runFrom System.step (System.run ops) before) := by
      refine ⟨hmid.wellFormed, hmid.grounded, hmid.dlqs, hmid.tracks.used, fun row' hmem' => ?_⟩
      rw [System.run, runFrom_append] at hmem₁
      cases Table.eq_of_id hmem' hmem₁ rfl
      exact ⟨(hmid.tracks.behind _ hmem').1, fun _ => hne⟩
    have hend := hrun haway hafter
    rw [System.run, runFrom_append, runFrom_append] at hmem₂
    exact (hend.tracks.behind row₂ hmem₂).2 trivial hback

/-- A rejected message goes to `jobs_dlq`; its old queue is then deleted and created anew. -/
theorem deadLetterGraph_sound_recreated :
    InQueue (System.run (onlyAttempt ++ [.nack (fun _ => 20) "jobs" "m" "a" "w"])).db 1
      "jobs_dlq" ∧
    ¬ InQueue (System.run (onlyAttempt ++ [.nack (fun _ => 20) "jobs" "m" "a" "w"] ++
      [.deleteQueue "jobs", .createQueue "jobs" {}])).db 1 "jobs" := by
  have hmoved : InQueue (System.run (onlyAttempt ++
      [.nack (fun _ => 20) "jobs" "m" "a" "w"])).db 1 "jobs_dlq" := by decide
  obtain ⟨-, htrack⟩ := (deadLetterGraph_sound onlyAttempt).2.2 1 "jobs" (by decide)
  exact ⟨hmoved, htrack _ _ (by decide) "jobs_dlq" hmoved (by decide)⟩

end Nzovu.Repository
