import Nzovu.Repository.Exhaustion

/-!
# Row Well-Formedness and Requeueing

A waiting message carries no trace of an attempt and is not marked for deletion; only terminal
messages are. The one operation that can break this is the requeue of a dead-lettered message:
it resets the state and the attempts, and leaves `deleted_at` as it is. A row that was ERRORED in
its own queue under a retention policy has that column set, and becomes requeueable when another
queue names its queue as dead letter queue.

- Section 1 states well-formedness and its invariant.
- Section 2 is about the requeue: when it succeeds, and what can then be done with the message.
- Section 3 proves that the runs in which all is well are exactly those whose requeues are of
  unmarked messages into ordinary queues.
-/

namespace Nzovu.Repository

open Nzovu.Foundation
open Nzovu.Background

/-! ## Section 1: Well-formed rows -/

/-- No attempt, worker or lease column is set. -/
structure Unattended (row : MessageRow) : Prop where
  attempt : row.currentAttemptId = none
  worker : row.currentWorkerId = none
  started : row.leaseStartedAt = none
  expiry : row.leaseExpiry = none
  used : row.leaseExtensionUsed = 0
  renewals : row.leaseRenewalCount = 0
  heartbeat : row.lastHeartbeatAt = none
  heartbeatExpiry : row.heartbeatExpiry = none

/-- The terminal states. -/
def Terminal (state : MessageState) : Prop :=
  state = .completed ∨ state = .canceled ∨ state = .errored

/-- A PENDING row is not marked for deletion and unattended; only terminal rows are marked. -/
structure RowWellFormed (row : MessageRow) : Prop where
  pending : row.state = .pending → row.deletedAt = none ∧ Unattended row
  marked : row.deletedAt ≠ none → Terminal row.state

/-- Every row is well formed. -/
def RowsWellFormed (db : Database) : Prop := ∀ e ∈ db.messages.rows, RowWellFormed e.2

/-- The invariant: what will be PENDING next is unattended already. -/
structure RowClean (row : MessageRow) : Prop where
  unattended : row.state = .invisible ∨ row.state = .pending ∨ row.state = .errored → Unattended row
  marked : row.deletedAt ≠ none → Terminal row.state

theorem RowClean.wellFormed {row : MessageRow} (h : RowClean row) : RowWellFormed row := by
  refine ⟨fun hpending => ⟨?_, h.unattended (.inr (.inl hpending))⟩, h.marked⟩
  by_contra hmarked
  rcases h.marked hmarked with hs | hs | hs <;> rw [hpending] at hs <;> cases hs

theorem rowClean_newRow (queueName messageId : String) (metadata : MessageMetadata)
    (scheduledAt : Option Int) (createdAt updatedAt : Int) :
    RowClean (newRow queueName messageId metadata scheduledAt createdAt updatedAt) :=
  ⟨fun _ => ⟨rfl, rfl, rfl, rfl, rfl, rfl, rfl, rfl⟩, fun h => absurd rfl h⟩

/-- **Transition lemma**: every transition but the requeue of a marked row keeps a row clean. -/
theorem RowClean.transition {old new : MessageRow} {event : Option RowEvent} (h : RowClean old)
    (ht : RowTransition old event new) (hrequeue : event = some .requeued → old.deletedAt = none) :
    RowClean new := by
  have hunmarked : ¬ Terminal old.state → old.deletedAt = none := by
    intro hlive
    by_contra hmarked
    exact hlive (h.marked hmarked)
  cases ht with
  | claim req runtime nowMs hclaim =>
    exact ⟨by simp [claimRow], fun hmarked => absurd hclaim.notDeleted hmarked⟩
  | complete nowMs deletedAt hrun => exact ⟨by simp [completeRow], fun _ => .inl rfl⟩
  | retry nowMs hrun hleft =>
    have hdel := hunmarked (by simp [hrun, Terminal])
    exact ⟨fun _ => ⟨rfl, rfl, rfl, rfl, rfl, rfl, rfl, rfl⟩, fun hmarked => absurd hdel hmarked⟩
  | exhaust queueName nowMs deletedAt hrun hleft =>
    exact ⟨fun _ => ⟨rfl, rfl, rfl, rfl, rfl, rfl, rfl, rfl⟩, fun _ => .inr (.inr rfl)⟩
  | cancel nowMs deletedAt reason hwaiting => exact ⟨by simp [cancelRow], fun _ => .inr (.inl rfl)⟩
  | extend runtime nowMs hrun =>
    refine ⟨fun hstate => ?_, h.marked⟩
    rcases hstate with hs | hs | hs <;> cases hs.symm.trans hrun
  | heartbeat nowMs heartbeatExpiry expiry used renewals hrun =>
    refine ⟨fun hstate => ?_, h.marked⟩
    rcases hstate with hs | hs | hs <;> cases hs.symm.trans hrun
  -- A retention is only set on the way to ERRORED.
  | reclaim queueName completedAt deletedAt nowMs hrun hkept =>
    refine ⟨fun _ => ⟨rfl, rfl, rfl, rfl, rfl, rfl, rfl, rfl⟩, fun hmarked => ?_⟩
    rcases reclaimState_cases old with hpend | herr
    · exact absurd (hkept hpend) hmarked
    · exact .inr (.inr herr)
  -- The requeue leaves `deleted_at` as it is: that is what `hrequeue` is about.
  | requeue target reset nowMs herr =>
    obtain ⟨h₁, h₂, h₃, h₄, h₅, h₆, h₇, h₈⟩ := h.unattended (.inr (.inr herr))
    exact ⟨fun _ => ⟨h₁, h₂, h₃, h₄, h₅, h₆, h₇, h₈⟩, fun hmarked => absurd (hrequeue rfl) hmarked⟩
  | activate nowMs hinv =>
    obtain ⟨h₁, h₂, h₃, h₄, h₅, h₆, h₇, h₈⟩ := h.unattended (.inl hinv)
    have hdel := hunmarked (by simp [hinv, Terminal])
    exact ⟨fun _ => ⟨h₁, h₂, h₃, h₄, h₅, h₆, h₇, h₈⟩, fun hmarked => absurd hdel hmarked⟩

/-- The invariant of the table. -/
def RowsClean (db : Database) : Prop := ∀ e ∈ db.messages.rows, RowClean e.2

theorem RowsClean.change {adds : Additions} {db db' : Database} {event : Option (Nat × RowEvent)}
    (h : RowsClean db) (hchange : Change adds db db' event)
    (hrequeue : ∀ i old, event = some (i, .requeued) → (i, old) ∈ db.messages.rows →
      old.deletedAt = none) : RowsClean db' := by
  rintro ⟨i, row⟩ hmem
  cases hchange.origin hmem with
  | kept hold _ => exact h _ hold
  | inserted _ _ _ _ _ _ _ _ _ hrow =>
    subst hrow
    exact rowClean_newRow _ _ _ _ _ _
  | changed old e hold ht hevent =>
    subst hevent
    refine (h _ hold).transition ht fun he => hrequeue i old ?_ hold
    rw [he]
    rfl

/-! ## Section 2: Requeueing -/

/-- The queue `target` can take the dead-lettered message `(dlqName, messageId)`, row `e`. -/
structure Requeueable (db : Database) (dlqName messageId target : String)
    (e : Nat × MessageRow) : Prop where
  mem : e ∈ db.messages.rows
  addressed : addressed dlqName messageId e.2 = true
  state : e.2.state = .errored
  queue : db.queues.hasKey target = true
  free : ∀ d ∈ db.messages.rows, d ≠ e → d.2.uniqueKey ≠ (target, messageId)

section Requeue

variable {db db' : Database} {clock : Readings} {dlqName messageId target : String}
  {resetRetries : Bool}

theorem findErrored_eq {e : Nat × MessageRow} (hmem : e ∈ db.messages.rows)
    (haddr : addressed dlqName messageId e.2 = true) (hstate : e.2.state = .errored) :
    findErrored db dlqName messageId = .ok e := by
  obtain ⟨hq, hm⟩ := addressed_iff.mp haddr
  have hfind := Table.find?_of_selects (selects_addressed hmem hq hm)
  simp [findErrored, hfind, hstate]

/-- `RetryDLQMessage` succeeds exactly for a message the target can take. -/
theorem retryDLQMessage_isOk_iff :
    (∃ db', retryDLQMessage db clock dlqName messageId target resetRetries = .ok db') ↔
      ∃ e, Requeueable db dlqName messageId target e := by
  constructor
  · rintro ⟨db', h⟩
    have h' := h
    unfold retryDLQMessage at h'
    split at h'
    · cases h'
    · rename_i i old hfound
      obtain ⟨hmem, hq, hm, hstate⟩ := findErrored_eq_ok hfound
      split at h'
      · cases h'
      · cases h'
      · rename_i db₁ hupd
        obtain ⟨hkey, hfree⟩ := (Database.updateMessages_isOk_of_selects
          (selects_addressed hmem hq hm)).mp ⟨db₁, hupd⟩
        refine ⟨(i, old), hmem, addressed_iff.mpr ⟨hq, hm⟩, hstate, hkey, fun d hd hne => ?_⟩
        rw [← hm]
        exact hfree d hd hne
  · rintro ⟨e, hmem, haddr, hstate, hkey, hfree⟩
    obtain ⟨hq, hm⟩ := addressed_iff.mp haddr
    obtain ⟨db₁, hupd⟩ := (Database.updateMessages_isOk_of_selects (f := requeueRow target
      (requeueAttempts resetRetries e.2) (clock 0)) (selects_addressed hmem hq hm)).mpr
        ⟨hkey, fun d hd hne => by
          have hfree := hfree d hd hne
          rwa [← hm] at hfree⟩
    unfold retryDLQMessage
    rw [findErrored_eq hmem haddr hstate]
    simp only [hupd]
    exact ⟨_, rfl⟩

/-- `RequeueFromDLQ` adds the check that the source is a dead letter queue. -/
theorem requeueFromDLQ_eq_ok
    (h : requeueFromDLQ db clock dlqName messageId target resetRetries = .ok db') :
    target ≠ "" ∧ db.isDLQ dlqName = true ∧
      retryDLQMessage db clock dlqName messageId target resetRetries = .ok db' := by
  unfold requeueFromDLQ requireDLQ at h
  split at h
  · cases h
  · rename_i hne
    refine ⟨hne, ?_⟩
    split at h
    · cases h
    · rename_i hdlq
      split at h
      · cases h
      · refine ⟨?_, h⟩
        split at hdlq
        · cases hdlq
        · split at hdlq
          · assumption
          · cases hdlq

theorem requeueFromDLQ_eq (htarget : target ≠ "") (hdlq : db.isDLQ dlqName = true)
    {e : Nat × MessageRow} (h : Requeueable db dlqName messageId target e) :
    requeueFromDLQ db clock dlqName messageId target resetRetries =
      retryDLQMessage db clock dlqName messageId target resetRetries := by
  have hmetadata : ∀ name, db.queues.hasKey name = true →
      ∃ metadata, getQueueMetadata db name = .ok metadata := by
    intro name hname
    obtain ⟨c, hc, rfl⟩ := hasKey_iff_configs.mp hname
    exact ⟨_, getQueueMetadata_of_eq (queueMetadata?_eq_some.mpr ⟨c, hc, rfl, rfl⟩)⟩
  have hsource : db.queues.hasKey dlqName = true := by
    rw [← (addressed_iff.mp h.addressed).1]
    exact db.foreignKey e h.mem
  obtain ⟨m₁, hm₁⟩ := hmetadata dlqName hsource
  obtain ⟨m₂, hm₂⟩ := hmetadata target h.queue
  simp [requeueFromDLQ, requireDLQ, htarget, hdlq, hm₁, hm₂]

/-- `GetQueueMessage` can return the message from the queue: the queue is not refused as a dead
letter queue, the claim does not filter the row out at the instant, and the cleanup never
deletes it. -/
structure Deliverable (db : Database) (queueName : String) (nowMs : Int)
    (e : Nat × MessageRow) : Prop where
  mem : e ∈ db.messages.rows
  claims : rejectDLQOperation db queueName = .ok ()
  claimable : claimable queueName nowMs e.2 = true
  kept : ∀ t limit, e ∉ expiredRows db t limit

theorem not_mem_expiredRows {e : Nat × MessageRow} (h : e.2.deletedAt = none) (t : Int)
    (limit : Nat) : e ∉ expiredRows db t limit := by
  intro hmem
  have hfilter := (List.mem_insertionSort _).mp (List.mem_of_mem_take hmem)
  simpa [h] using (List.mem_filter.mp hfilter).2

theorem isDLQ_of_configs (h : db'.configs = db.configs) (name : String) :
    db'.isDLQ name = db.isDLQ name := by
  have hany : ∀ d : Database,
      d.isDLQ name = d.configs.any fun c => decide (c.deadLetterQueueName = some name) := by
    intro d
    simp [Database.isDLQ, Database.configs, QueueRow.config, Function.comp_def]
  rw [hany, hany, h]

end Requeue

/-! ## Section 3: Runs -/

/-- A message that was claimed was due by then. -/
def PastDue (nowMs : Int) (db : Database) : Prop :=
  ∀ e ∈ db.messages.rows, e.2.state = .running ∨ e.2.state = .errored →
    e.2.scheduledAt.all (· ≤ nowMs) = true

section Runs

variable {s : System} {nowMs : Int}

theorem PastDue.change {adds : Additions} {db db' : Database} {event : Option (Nat × RowEvent)}
    (h : PastDue nowMs db) (hadds : ∀ m, adds.message m → m.state = .invisible ∨ m.state = .pending)
    (hclaim : ∀ i attemptId workerId, event ≠ some (i, .claimed attemptId workerId))
    (hchange : Change adds db db' event) : PastDue nowMs db' := by
  rintro ⟨i, row⟩ hmem hstate
  cases hchange.origin hmem with
  | kept hold _ => exact h _ hold hstate
  | inserted queueName messageId metadata scheduledAt createdAt updatedAt _ hnew _ hrow =>
    subst hrow
    have hposted : metadata.state = .running ∨ metadata.state = .errored := hstate
    rcases hadds metadata hnew with hw | hw <;> rw [hw] at hposted <;>
      rcases hposted with hs | hs <;> cases hs
  | changed old e hold ht hevent =>
    subst hevent
    cases ht with
    | claim req runtime t hclaimable => exact absurd rfl (hclaim i req.attempt req.worker)
    | exhaust queueName t deletedAt hrun hleft => exact h (i, old) hold (.inl hrun)
    | extend runtime t hrun => exact h (i, old) hold (.inl hrun)
    | heartbeat t heartbeatExpiry expiry used renewals hrun =>
      exact h (i, old) hold (.inl hrun)
    | reclaim queueName completedAt deletedAt t hrun => exact h (i, old) hold (.inl hrun)
    | _ => rcases hstate with hs | hs <;> cases hs

theorem PastDue.step {op : Operation} (h : PastDue nowMs s.db) (hwf : WellFormed s)
    (hposts : op.PostsWaiting) (hnow : ∀ t ∈ op.readings, t ≤ nowMs) :
    PastDue nowMs (s.step op).db := by
  have hother : (∀ i attemptId workerId, s.event op ≠ some (i, .claimed attemptId workerId)) →
      PastDue nowMs (s.step op).db := fun hevent =>
    (step_changes hwf op).preserves_when (P := PastDue nowMs)
      (E := fun event => ∀ i a w, event ≠ some (i, .claimed a w)) (fun _ _ _ h => by cases h)
      (fun _ _ _ hevent hinv hchange => hinv.change (fun _ => hposts.additions) hevent hchange)
      hevent h
  cases op with
  | claim clock req =>
    simp only [System.step]
    cases hclaim : claimMessageWithLeaseDuration s.db clock req with
    | error _ => exact h
    | ok result =>
      rcases claimMessageWithLeaseDuration_effect hclaim with
        ⟨-, hsame⟩ | ⟨_, i, old, policy, -, -, hclaimed, -⟩
      · simpa [System.commit, Except.map, hsame] using h
      · rintro ⟨j, row⟩ hmem hstate
        have hmem' : (j, row) ∈ result.1.messages.rows := hmem
        rw [hclaimed.updated.rows] at hmem'
        rcases Table.mem_setRow.mp hmem' with ⟨hold, -⟩ | ⟨heq, -⟩
        · exact h _ hold hstate
        · cases heq
          -- The claim read the clock before it selected the row.
          have hle := hnow (clock 2) (by simp [Operation.readings])
          have hdue := hclaimed.claimable.due
          rw [Option.all_eq_true] at hdue ⊢
          intro t ht
          have hle' := of_decide_eq_true (hdue t ht)
          exact decide_eq_true (Int.le_trans hle' hle)
  | acknowledge | nack | extend | heartbeat | reclaim | retryDLQ =>
    refine hother fun i a w hevent => ?_
    have hkind := (touched_eq_some hevent).1
    cases hkind
  | _ => exact hother fun i a w hevent => by cases hevent

theorem pastDue_run {ops : List Operation} (hposts : ∀ op ∈ ops, op.PostsWaiting)
    (hnow : ∀ t ∈ readings ops, t ≤ nowMs) : PastDue nowMs (System.run ops).db := by
  induction ops using List.reverseRecOn with
  | nil => exact fun e he => absurd he List.not_mem_nil
  | append_singleton ops op ih =>
    rw [readings, List.flatMap_append] at hnow
    have hbefore := ih (fun o ho => hposts o (List.mem_append_left _ ho))
      fun t ht => hnow t (List.mem_append_left _ ht)
    rw [System.run, runFrom_concat]
    refine hbefore.step (wellFormed_run ops)
      (hposts op (List.mem_append_right _ (List.mem_singleton_self op))) fun t ht => ?_
    exact hnow t (List.mem_append_right _ (by simpa using ht))

/-- A requeue that works is of an unmarked message, and one from a dead letter queue goes to an
ordinary queue. -/
def RequeueSafe (s : System) : Operation → Prop
  | .retryDLQ _ dlqName messageId target _ =>
    ∀ e, Requeueable s.db dlqName messageId target e →
      e.2.deletedAt = none ∧
        (target ≠ "" → s.db.isDLQ dlqName = true → s.db.isDLQ target = false)
  | _ => True

theorem RowsClean.step {op : Operation} (h : RowsClean s.db) (hwf : WellFormed s)
    (hsafe : RequeueSafe s op) : RowsClean (s.step op).db := by
  have hother : (∀ i, s.event op ≠ some (i, .requeued)) → RowsClean (s.step op).db := fun hevent =>
    (step_changes hwf op).preserves_when (P := RowsClean)
      (E := fun event => ∀ i, event ≠ some (i, .requeued)) (fun _ h => by cases h)
      (fun _ _ _ hevent hinv hchange => hinv.change hchange fun i _ he _ => absurd he (hevent i))
      hevent h
  cases op with
  | retryDLQ clock dlqName messageId target reset =>
    simp only [System.step]
    cases hretry : retryDLQMessage s.db clock dlqName messageId target reset with
    | error _ => exact h
    | ok db' =>
      obtain ⟨e, hfind, (hchange : Change .none s.db db' _)⟩ := retryDLQMessage_change hretry
      obtain ⟨d, hd⟩ := retryDLQMessage_isOk_iff.mp ⟨db', hretry⟩
      refine h.change hchange fun i old hevent hold => ?_
      have hsel := find?_eq_some hfind
      obtain ⟨hq, hm⟩ := addressed_iff.mp hd.addressed
      have hsame : e = d := ((selects_addressed hd.mem hq hm).2 e hsel.1).mp hsel.2
      cases hevent
      have hrow : (e.1, old) = e := Table.eq_of_id hold hsel.1 rfl
      have hold' : old = d.2 := by rw [← hsame, ← hrow]
      rw [hold']
      exact (hsafe d hd).1
  | claim clock req =>
    refine hother fun i hevent => ?_
    simp only [System.event, claimEvent] at hevent
    split at hevent
    · obtain ⟨_, -, he⟩ := Option.map_eq_some_iff.mp hevent
      cases he
    · cases hevent
  | acknowledge | nack | extend | heartbeat | reclaim =>
    refine hother fun i hevent => ?_
    have hkind := (touched_eq_some hevent).1
    cases hkind
  | _ => exact hother fun i hevent => by cases hevent

theorem rowsClean_run {ops : List Operation} (hsafe : Follows System.step RequeueSafe .empty ops) :
    RowsClean (System.run ops).db := by
  have hboth : WellFormed (System.run ops) ∧ RowsClean (System.run ops).db := by
    refine invariant_runFrom System.step (fun s => WellFormed s ∧ RowsClean s.db) ?_ ?_ hsafe
    · exact fun s op ⟨hwf, hclean⟩ hop => ⟨hwf.step op, hclean.step hwf hop⟩
    · exact ⟨wellFormed_empty, fun e he => absurd he List.not_mem_nil⟩
  exact hboth.2

/-- What should hold after one more operation: the rows are well formed, and a requeued message
is PENDING in the target and can be delivered from then on. -/
def SoundAfter (past : List Operation) (op : Operation) : Prop :=
  RowsWellFormed (System.run (past ++ [op])).db ∧
    ∀ clock dlqName messageId target resetRetries db',
      op = .retryDLQ clock dlqName messageId target resetRetries →
      requeueFromDLQ (System.run past).db clock dlqName messageId target resetRetries = .ok db' →
      ∃ e, e.2.messageId = messageId ∧ e.2.queueName = target ∧ e.2.state = .pending ∧
        ∀ nowMs, (∀ t ∈ readings (past ++ [op]), t ≤ nowMs) → Deliverable db' target nowMs e

theorem exists_upper (ts : List Int) : ∃ bound, ∀ t ∈ ts, t ≤ bound := by
  induction ts with
  | nil => exact ⟨0, fun t ht => absurd ht List.not_mem_nil⟩
  | cons t ts ih =>
    obtain ⟨bound, hbound⟩ := ih
    refine ⟨max t bound, fun r hr => ?_⟩
    rcases List.mem_cons.mp hr with rfl | hr
    · exact le_max_left r bound
    · exact le_trans (hbound r hr) (le_max_right t bound)

/-- A requeue moves the message it addresses, and only the listed columns change. -/
theorem Requeueable.updated {db db' : Database} {clock : Readings}
    {dlqName messageId target : String} {resetRetries : Bool} {e : Nat × MessageRow}
    (he : Requeueable db dlqName messageId target e)
    (h : retryDLQMessage db clock dlqName messageId target resetRetries = .ok db') :
    RowUpdated db db' e.1 e.2
      (requeueRow target (requeueAttempts resetRetries e.2) (clock 0) e.2) := by
  obtain ⟨i, old, hq, hm, -, hupd⟩ := retryDLQMessage_effect h
  obtain ⟨hq', hm'⟩ := addressed_iff.mp he.addressed
  have hsel := selects_addressed he.mem hq' hm'
  have hsame : (i, old) = e := (hsel.2 _ hupd.mem).mp (addressed_iff.mpr ⟨hq, hm⟩)
  subst hsame
  exact hupd

theorem soundAfter_of_requeueSafe {past : List Operation} {op : Operation}
    (hposts : ∀ op ∈ past, op.PostsWaiting) (hclean : RowsClean (System.run past).db)
    (hsafe : RequeueSafe (System.run past) op) : SoundAfter past op := by
  refine ⟨?_, ?_⟩
  · intro e he
    rw [System.run, runFrom_concat] at he
    exact (hclean.step (wellFormed_run past) hsafe e he).wellFormed
  · rintro clock dlqName messageId target reset db' rfl h
    obtain ⟨htarget, hdlq, hretry⟩ := requeueFromDLQ_eq_ok h
    obtain ⟨e, he⟩ := retryDLQMessage_isOk_iff.mp ⟨db', hretry⟩
    have hupd := he.updated hretry
    obtain ⟨hunmarked, hordinary⟩ := hsafe e he
    have hnotDLQ : db'.isDLQ target = false := by
      rw [isDLQ_of_configs hupd.configs]
      exact hordinary htarget hdlq
    refine ⟨(e.1, requeueRow target (requeueAttempts reset e.2) (clock 0) e.2),
      (addressed_iff.mp he.addressed).2, rfl, rfl, fun nowMs hnow => ?_⟩
    have hdue : PastDue nowMs _ := pastDue_run hposts (fun t ht => hnow t (by
      rw [readings, List.flatMap_append]
      exact List.mem_append_left _ ht))
    replace hdue := hdue e he.mem (.inr he.state)
    have hclaimable : Claimable target nowMs
        (requeueRow target (requeueAttempts reset e.2) (clock 0) e.2) := ⟨rfl, rfl, hdue, hunmarked⟩
    exact ⟨hupd.mem_new, by simp [rejectDLQOperation, hnotDLQ], claimable_iff.mpr hclaimable,
      not_mem_expiredRows hclaimable.notDeleted⟩

theorem requeueSafe_of_soundAfter {past : List Operation} {op : Operation}
    (h : SoundAfter past op) : RequeueSafe (System.run past) op := by
  cases op with
  | retryDLQ clock dlqName messageId target reset =>
    intro e he
    obtain ⟨hrows, hdeliver⟩ := h
    obtain ⟨db', hretry⟩ : ∃ db', retryDLQMessage (System.run past).db clock dlqName messageId
        target reset = .ok db' := retryDLQMessage_isOk_iff.mpr ⟨e, he⟩
    have hupd := he.updated hretry
    have hstep :
        (System.run (past ++ [.retryDLQ clock dlqName messageId target reset])).db = db' := by
      rw [System.run, runFrom_concat]
      show (System.commit _ (retryDLQMessage (System.run past).db _ _ _ _ _)).db = db'
      rw [hretry]
      rfl
    rw [hstep] at hrows
    refine ⟨((hrows _ hupd.mem_new).pending rfl).1, fun htarget hdlq => ?_⟩
    obtain ⟨d, -, -, -, hd⟩ := hdeliver clock dlqName messageId target reset db' rfl
      (by rw [requeueFromDLQ_eq htarget hdlq he, hretry])
    obtain ⟨bound, hbound⟩ := exists_upper
      (readings (past ++ [.retryDLQ clock dlqName messageId target reset]))
    have hclaims := (hd bound hbound).claims
    rw [← isDLQ_of_configs hupd.configs]
    by_contra hmark
    simp [rejectDLQOperation, hmark] at hclaims
  | _ => trivial

/-- **Requeue liveness**: all is well after every operation of a run exactly when every requeue
of the run is safe. -/
theorem soundAfter_iff_requeueSafe {ops : List Operation}
    (hposts : ∀ op ∈ ops, op.PostsWaiting) :
    (∀ past op, past ++ [op] <+: ops → SoundAfter past op) ↔
      Follows System.step RequeueSafe .empty ops := by
  induction ops using List.reverseRecOn with
  | nil => simp [Follows]
  | append_singleton ops last ih =>
    have hposts' : ∀ op ∈ ops, op.PostsWaiting := fun op hop =>
      hposts op (List.mem_append_left _ hop)
    rw [follows_concat, ← ih hposts']
    constructor
    · intro h
      refine ⟨fun past op hpre => h past op (hpre.trans (List.prefix_append ops [last])), ?_⟩
      exact requeueSafe_of_soundAfter (h ops last (List.prefix_refl _))
    · rintro ⟨hbefore, hlast⟩ past op hpre
      rcases List.prefix_concat_iff.mp hpre with heq | hpre
      · obtain ⟨rfl, hop⟩ := List.append_inj' heq rfl
        cases hop
        exact soundAfter_of_requeueSafe hposts' (rowsClean_run ((ih hposts').mp hbefore)) hlast
      · exact hbefore past op hpre

end Runs

/-- A message fails in `jobs`, which keeps it for a minute; `orders` then names `jobs` as its dead
letter queue, and the message is requeued into `orders`. -/
def markedRequeue : List Operation :=
  [.createQueue "jobs" { messageRetentionPolicy := some ⟨.retainDuration, 60⟩ },
   .enqueue (fun _ => 0) "jobs" ⟨"m", some
    ⟨.pending, 1, 1, 0, none, some ⟨some ⟨30, 0⟩, none, none, none, 0⟩⟩⟩,
   .claim (fun _ => 10) ⟨"jobs", "w", "a", "", 0, 0, "g", "", generatedAttemptId_ne⟩,
   .nack (fun _ => 20) "jobs" "m" "a" "w",
   .createQueue "orders" { deadLetterQueueName := "jobs" },
   .retryDLQ (fun _ => 30) "jobs" "m" "orders" true]

/-- The same with a dead letter queue from the start. -/
def unmarkedRequeue : List Operation :=
  let retention : RetentionPolicy := ⟨.retainDuration, 60⟩
  [.createQueue "jobs" { autoCreateDlq := true, messageRetentionPolicy := some retention },
   .enqueue (fun _ => 0) "jobs" ⟨"m", some
    ⟨.pending, 1, 1, 0, none, some ⟨some ⟨30, 0⟩, none, none, none, 0⟩⟩⟩,
   .claim (fun _ => 10) ⟨"jobs", "w", "a", "", 0, 0, "g", "", generatedAttemptId_ne⟩,
   .nack (fun _ => 20) "jobs" "m" "a" "w",
   .retryDLQ (fun _ => 30) "jobs_dlq" "m" "jobs" true]

/-- Every step of the second run is sound. -/
theorem soundAfter_unmarkedRequeue :
    (∀ op ∈ unmarkedRequeue, op.PostsWaiting) ∧
      ∀ past op, past ++ [op] <+: unmarkedRequeue → SoundAfter past op := by
  have hposts : ∀ op ∈ unmarkedRequeue, op.PostsWaiting := by
    simp [unmarkedRequeue, Operation.PostsWaiting]
  refine ⟨hposts, (soundAfter_iff_requeueSafe hposts).mpr
    ⟨trivial, trivial, trivial, trivial, ?_, trivial⟩⟩
  · intro e he
    have hrows : ∀ e ∈ (System.run (unmarkedRequeue.take 4)).db.messages.rows,
        e.2.deletedAt = none := by decide
    exact ⟨hrows e he.mem, fun _ _ => by decide⟩

/-- In the first run the requeued message is PENDING, marked for deletion and never claimable. -/
theorem not_soundAfter_markedRequeue :
    ¬ ∀ ops : List Operation, (∀ op ∈ ops, op.PostsWaiting) →
      ∀ past op, past ++ [op] <+: ops → SoundAfter past op := by
  intro h
  have hposts : ∀ op ∈ markedRequeue, op.PostsWaiting := by
    simp [markedRequeue, Operation.PostsWaiting]
  have hrows := (h markedRequeue hposts (markedRequeue.take 5)
    (.retryDLQ (fun _ => 30) "jobs" "m" "orders" true) (List.prefix_refl _)).1
  have hmarked : ¬ ∀ e ∈ (System.run markedRequeue).db.messages.rows,
      e.2.state = .pending → e.2.deletedAt = none := by decide
  exact hmarked fun e he hpending => ((hrows e he).pending hpending).1

end Nzovu.Repository
