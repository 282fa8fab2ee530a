import Nzovu.Postgres.Commits

/-!
# Concurrent Dead Letter Operations

Retries, deletions and purges of the same dead letters, side by side. A retry or a deletion reads
the row without a lock, and its `UPDATE` or `DELETE` does not repeat the check that the row is
ERRORED; a retry does not even look at the number of rows it has updated. As long as the row that
is locked is still ERRORED in the queue, each message is settled by one call, and the counters
move once for it.

- Section 1: what it means that the calls took effect one after the other.
- Section 2: the commit of one call.
- Section 3: runs.
- Section 4: two retries of one message.
-/

namespace Nzovu.Postgres

open Nzovu.Foundation
open Nzovu.Repository

/-! ## Section 1: Settled messages -/

/-- `RetryDLQMessage`, `DeleteDLQMessage` and `PurgeDLQ`. -/
def Call.isDeadLetter : Call → Bool
  | .retryDLQ .. | .deleteDLQ .. | .purgeDLQ .. => true
  | _ => false

/-- The messages a dead letter call reports to have worked on. -/
def Reply.ids : Reply → List Nat
  | .requeued ids | .deleted ids => ids
  | _ => []

/-- The messages the committed calls have worked on. -/
def settled (log : List (Nat × Reply)) : List Nat := log.flatMap fun e => e.2.ids

/-- The counter changes that belong to a call. -/
def Call.moves : Call → Reply → String → MessageState → Int
  | .retryDLQ dlqName _ target _, _ =>
    fun q s => hits target .pending q s - hits dlqName .errored q s
  | .deleteDLQ queueName _, _ => fun q s => - hits queueName .errored q s
  | .purgeDLQ queueName _, reply => fun q s => - (reply.ids.length * hits queueName .errored q s)
  | _, _ => fun _ _ => 0

/-- A call has moved or deleted ERRORED rows: `initial` are the rows at the start, `rows` those
now. -/
inductive Settles (initial rows : Store Key Row) : Call → Reply → Prop where
  | retried (dlqName messageId target : String) (reset : Bool) (i : Nat) (old : MessageRow)
      (attemptsLeft updatedAt : Int) (hold : initial (message i) = some old)
      (haddr : addressed dlqName messageId old = true) (herrored : old.state = .errored)
      (hnew : rows (message i) = some (requeueRow target attemptsLeft updatedAt old)) :
      Settles initial rows (.retryDLQ dlqName messageId target reset) (.requeued [i])
  | deleted (queueName messageId : String) (i : Nat) (old : MessageRow)
      (hold : initial (message i) = some old) (haddr : addressed queueName messageId old = true)
      (herrored : old.state = .errored) (hnew : rows (message i) = none) :
      Settles initial rows (.deleteDLQ queueName messageId) (.deleted [i])
  | purged (queueName : String) (limit : Nat) (ids : List Nat)
      (h : ∀ i ∈ ids, ∃ old : MessageRow, initial (message i) = some old ∧
        old.queueName = queueName ∧ old.state = .errored ∧ rows (message i) = none) :
      Settles initial rows (.purgeDLQ queueName limit) (.deleted ids)

/-- The committed calls look as if they had been made one after the other: each has settled
messages that were ERRORED, no message was settled twice, all others are as they were, and each
call has moved the counters once. -/
structure Linearized (setup : Setup) (rows : Store Key Row) (log : List (Nat × Reply)) : Prop where
  settles : ∀ e ∈ log, Settles setup.rows rows (setup.call e.1) e.2
  once : (settled log).Nodup
  others : ∀ i, i ∉ settled log → rows (message i) = setup.rows (message i)
  counters : ∀ q s, counter rows q s = counter setup.rows q s +
    (log.map fun e => (setup.call e.1).moves e.2 q s).sum

/-- A message that went from ERRORED to PENDING was moved to its queue by a retry. -/
def MovedByRetry (setup : Setup) (w : Server) : Prop :=
  ∀ i (old new : MessageRow), setup.rows (message i) = some old → old.state = .errored →
    w.rows (message i) = some new → new.state = .pending →
      ∃ t dlqName messageId reset, (t, Reply.requeued [i]) ∈ w.log ∧
        setup.call t = .retryDLQ dlqName messageId new.queueName reset

section Settled

variable {initial rows rows' : Store Key Row} {call : Call} {reply : Reply}

theorem Settles.congr (h : Settles initial rows call reply)
    (hrows : ∀ i ∈ reply.ids, rows' (message i) = rows (message i)) :
    Settles initial rows' call reply := by
  cases h with
  | retried dlqName messageId target reset i old attemptsLeft updatedAt hold haddr herrored hnew =>
    rw [← hrows i List.mem_cons_self] at hnew
    exact .retried _ _ _ _ i old attemptsLeft updatedAt hold haddr herrored hnew
  | deleted queueName messageId i old hold haddr herrored hnew =>
    rw [← hrows i List.mem_cons_self] at hnew
    exact .deleted _ _ i old hold haddr herrored hnew
  | purged queueName limit ids h =>
    refine .purged _ _ ids ?_
    intro i hi
    obtain ⟨old, hold, hqueue, herrored, hnew⟩ := h i hi
    rw [← hrows i hi] at hnew
    exact ⟨old, hold, hqueue, herrored, hnew⟩

/-- A settled message is not ERRORED any more. -/
theorem Settles.not_errored (h : Settles initial rows call reply) {i : Nat} (hi : i ∈ reply.ids)
    {row : MessageRow} (hrow : rows (message i) = some row) : row.state ≠ .errored := by
  cases h with
  | retried _ _ target _ j old attemptsLeft updatedAt _ _ _ hnew =>
    rw [List.mem_singleton.mp hi, hnew] at hrow
    cases hrow
    simp [requeueRow]
  | deleted _ _ j old _ _ _ hnew =>
    rw [List.mem_singleton.mp hi, hnew] at hrow
    cases hrow
  | purged _ _ ids h =>
    obtain ⟨old, -, -, -, hnew⟩ := h i hi
    rw [hnew] at hrow
    cases hrow

theorem Linearized.not_errored {setup : Setup} {log : List (Nat × Reply)}
    (h : Linearized setup rows log) {i : Nat} (hi : i ∈ settled log) {row : MessageRow}
    (hrow : rows (message i) = some row) : row.state ≠ .errored := by
  obtain ⟨e, he, hi⟩ := List.mem_flatMap.mp hi
  exact (h.settles e he).not_errored hi hrow

/-- **Extension rule**: a call that settles ERRORED messages can be added at the end. -/
theorem Linearized.cons {setup : Setup} {log : List (Nat × Reply)} {t : Nat}
    (h : Linearized setup rows log) (hnodup : reply.ids.Nodup)
    (herrored : ∀ i ∈ reply.ids, ∃ old : MessageRow, rows (message i) = some old ∧
      old.state = .errored)
    (hothers : ∀ i, i ∉ reply.ids → rows' (message i) = rows (message i))
    (hsettles : (∀ i ∈ reply.ids, setup.rows (message i) = rows (message i)) →
      Settles setup.rows rows' (setup.call t) reply)
    (hcounters : ∀ q s, counter rows' q s = counter rows q s + (setup.call t).moves reply q s) :
    Linearized setup rows' ((t, reply) :: log) := by
  -- The messages are ERRORED, so no earlier call has settled them.
  have hfresh : ∀ i ∈ reply.ids, i ∉ settled log := by
    intro i hi hsettled
    obtain ⟨old, hold, hstate⟩ := herrored i hi
    exact h.not_errored hsettled hold hstate
  have hsettled : settled ((t, reply) :: log) = reply.ids ++ settled log := rfl
  refine ⟨?_, ?_, ?_, ?_⟩
  · intro e he
    rcases List.mem_cons.mp he with rfl | he
    · exact hsettles fun i hi => (h.others i (hfresh i hi)).symm
    · apply (h.settles e he).congr
      intro i hi
      apply hothers
      intro hi'
      exact hfresh i hi' (List.mem_flatMap.mpr ⟨e, he, hi⟩)
  · rw [hsettled, List.nodup_append']
    exact ⟨hnodup, h.once, fun i hi hi' => hfresh i hi hi'⟩
  · intro i hi
    rw [hsettled, List.mem_append, not_or] at hi
    rw [hothers i hi.1, h.others i hi.2]
  · intro q s
    rw [hcounters, h.counters, List.map_cons, List.sum_cons]
    ring

theorem Linearized.movedByRetry {setup : Setup} {w : Server}
    (h : Linearized setup w.rows w.log) : MovedByRetry setup w := by
  intro i old new hold herrored hnew hpending
  have hsettled : i ∈ settled w.log := by
    by_contra hi
    rw [h.others i hi, hold] at hnew
    cases hnew
    rw [herrored] at hpending
    cases hpending
  obtain ⟨⟨t, reply⟩, he, hi⟩ := List.mem_flatMap.mp hsettled
  have hcall := h.settles _ he
  generalize hc : setup.call t = call at hcall
  cases hcall with
  | retried dlqName messageId target reset j old' attemptsLeft updatedAt _ _ _ hnew' =>
    obtain rfl := List.mem_singleton.mp hi
    rw [hnew] at hnew'
    cases hnew'
    exact ⟨t, dlqName, messageId, reset, he, hc⟩
  | deleted _ _ j _ _ _ _ hnew' =>
    rw [List.mem_singleton.mp hi, hnew'] at hnew
    cases hnew
  | purged _ _ ids h =>
    obtain ⟨_, -, -, -, hnew'⟩ := h i hi
    rw [hnew'] at hnew
    cases hnew

end Settled

/-! ## Section 2: The commit of one call -/

/-- The queue and message id of a call that names one dead letter. -/
def Call.deadLetter : Call → Option (String × String)
  | .retryDLQ dlqName messageId _ _ => some (dlqName, messageId)
  | .deleteDLQ queueName messageId => some (queueName, messageId)
  | _ => none

/-- A retry or a deletion that commits has locked a row that is still ERRORED in its queue. -/
def StillErrored (setup : Setup) (w : Server) : Action → Prop
  | .run t => ∀ reply q m, (w.session t).status = .running (.done reply) →
      (setup.call t).deadLetter = some (q, m) →
        ∃ i, ∃ row : MessageRow, w.owner (message i) = some t ∧ w.rows (message i) = some row ∧
          addressed q m row = true ∧ row.state = .errored
  | _ => True

section Commit

variable {setup : Setup} {w : Server} {t : Nat}

/-- The one message of a queue with the given id. -/
theorem eq_of_addressed (hsound : setup.Sound w) {q m : String} {i j : Nat} {a b : MessageRow}
    (ha : w.rows (message i) = some a) (hb : w.rows (message j) = some b)
    (haddr : addressed q m a = true) (haddr' : addressed q m b = true) : i = j := by
  have hi : i ∈ setup.ids := hsound.inv.ids i (by simp [ha])
  have hj : j ∈ setup.ids := hsound.inv.ids j (by simp [hb])
  obtain ⟨hqa, hma⟩ := addressed_iff.mp haddr
  obtain ⟨hqb, hmb⟩ := addressed_iff.mp haddr'
  by_contra hne
  have hclash := hsound.consistent.uniqueRows Tab.messages i hi j hj hne a b ha hb
  simp [Setup.schema, schema, clash, MessageRow.uniqueKey, hqa, hma, hqb, hmb] at hclash

/-- The row that a committing call has changed is the ERRORED one. -/
theorem errored_of_touched (hsound : setup.Sound w) (herrored : StillErrored setup w (.run t))
    {reply : Reply} {clock : Int} (hstatus : (w.session t).status = .running (.done reply))
    {q m : String} (hcall : (setup.call t).deadLetter = some (q, m)) {i : Nat}
    {old : MessageRow} {new : Option MessageRow}
    (htouched : Touched (w.localOf t clock) i old new) (haddr : addressed q m old = true) :
    old.state = .errored := by
  obtain ⟨j, row, -, hrow, haddr', hstate⟩ := herrored reply q m hstatus hcall
  have hold := htouched.base (hsound.consistent.sees hsound.inv t clock)
  obtain rfl := eq_of_addressed hsound hold hrow haddr haddr'
  rw [hold] at hrow
  cases hrow
  exact hstate

/-- A call that has changed one ERRORED message can be added at the end. -/
theorem Linearized.cons_touched (h : Linearized setup w.rows w.log) (hsound : setup.Sound w)
    {reply : Reply} {i : Nat} {clock : Int} {old : MessageRow} {new : Option MessageRow}
    (hids : reply.ids = [i]) (htouched : Touched (w.localOf t clock) i old new)
    (hstate : old.state = .errored)
    (hsettles : setup.rows (message i) = some old →
      Settles setup.rows ((w.localOf t clock).view w.rows) (setup.call t) reply)
    (hcounters : ∀ q s, counter ((w.localOf t clock).view w.rows) q s =
      counter w.rows q s + (setup.call t).moves reply q s) :
    Linearized setup ((w.localOf t clock).view w.rows) ((t, reply) :: w.log) := by
  have hsees := hsound.consistent.sees hsound.inv t clock
  have hold := htouched.base hsees
  refine h.cons (hids ▸ List.nodup_singleton i) (fun j hj => ?_) (fun j hj => ?_)
    (fun hinitial => ?_) hcounters
  · rw [hids, List.mem_singleton] at hj
    exact ⟨old, hj ▸ hold, hstate⟩
  · rw [hids, List.mem_singleton] at hj
    exact htouched.view_ne hsees hj
  · have hi : i ∈ reply.ids := hids ▸ List.mem_cons_self
    exact hsettles ((hinitial i hi).trans hold)

/-- **Commit rule**: a committing call settles its messages. -/
theorem Linearized.commit (h : Linearized setup w.rows w.log) (hsound : setup.Sound w)
    (hdead : (setup.call t).isDeadLetter = true) (herrored : StillErrored setup w (.run t))
    {reply : Reply} {clock : Int} (hstatus : (w.session t).status = .running (.done reply))
    (hpost : setup.post t reply (w.localOf t clock)) :
    Linearized setup ((w.localOf t clock).view w.rows) ((t, reply) :: w.log) := by
  have hsees := hsound.consistent.sees hsound.inv t clock
  unfold Setup.post at hpost
  generalize hcall : setup.call t = call at hpost
  cases hpost with
  | unclaimed => simp [hcall, Call.isDeadLetter] at hdead
  | claimed => simp [hcall, Call.isDeadLetter] at hdead
  | worked _ _ _ _ _ _ hwork =>
    rw [hcall] at hdead
    cases call <;> simp [Call.isDeadLetter, Call.isWork] at hdead hwork
  | removed _ _ _ _ _ hwork =>
    rw [hcall] at hdead
    cases call <;> simp [Call.isDeadLetter, Call.isWork] at hdead hwork
  | requeued dlqName messageId target reset i old attemptsLeft updatedAt haddr htouched hcounted =>
    have hstate := errored_of_touched hsound herrored hstatus (by rw [hcall]; rfl) htouched haddr
    refine h.cons_touched hsound rfl htouched hstate (fun hinitial => ?_) fun q s => ?_
    · rw [hcall]
      exact .retried dlqName messageId target reset i old attemptsLeft updatedAt hinitial haddr
        hstate htouched.view
    · rw [hcall, hcounted.counter hsees]
      rfl
  | missed dlqName messageId target reset hmessages =>
    -- The `UPDATE` has locked no row.
    obtain ⟨i, row, howner, -⟩ := herrored _ dlqName messageId hstatus (by rw [hcall]; rfl)
    have hheld := hmessages i
    simp [World.localOf, howner] at hheld
  | deleted queueName messageId i old haddr htouched hcounted =>
    have hstate := errored_of_touched hsound herrored hstatus (by rw [hcall]; rfl) htouched haddr
    refine h.cons_touched hsound rfl htouched hstate (fun hinitial => ?_) fun q s => ?_
    · rw [hcall]
      exact .deleted queueName messageId i old hinitial haddr hstate htouched.view
    · rw [hcall, hcounted.counter hsees]
      rfl
  | purged queueName limit ids hnodup hheld hothers hcounted =>
    have hnodup' : (Reply.ids (.deleted ids)).Nodup := hnodup
    apply h.cons hnodup'
    · intro i hi
      obtain ⟨old, -, hstate, hheld⟩ := hheld i hi
      exact ⟨old, hsees.base _ _ _ hheld, hstate⟩
    · intro i hi
      exact hothers.view hsees hi
    · intro hinitial
      rw [hcall]
      refine .purged queueName limit ids ?_
      intro i hi
      obtain ⟨old, hqueue, hstate, hheld⟩ := hheld i hi
      refine ⟨old, ?_, hqueue, hstate, view_of_held hheld⟩
      rw [hinitial i hi]
      exact hsees.base _ _ _ hheld
    · intro q s
      rw [hcall, hcounted.counter hsees]
      rfl

/-! ## Section 3: Runs -/

/-- **Step lemma**. -/
theorem Linearized.step (h : Linearized setup w.rows w.log) (hsound : setup.Sound w)
    (hdead : ∀ t, (setup.call t).isDeadLetter = true) {a : Action}
    (herrored : StillErrored setup w a) :
    Linearized setup (w.step setup.schema a).rows (w.step setup.schema a).log := by
  rcases hsound.effect a with
    ⟨hrows, hlog, -, -⟩ | ⟨t, reply, clock, rfl, hstatus, -, hpost, hcommit⟩
  · rw [hrows, hlog]
    exact h
  · have hrows : (w.commit t reply).rows = (w.localOf t clock).view w.rows :=
      (hsound.consistent.localOf_view t clock).symm
    have hlog : (w.commit t reply).log = (t, reply) :: w.log := rfl
    rw [hcommit, hrows, hlog]
    exact h.commit hsound (hdead t) herrored hstatus hpost

theorem linearized_start (setup : Setup) : Linearized setup setup.start.rows setup.start.log := by
  refine ⟨?_, List.nodup_nil, fun _ _ => rfl, ?_⟩
  · intro e he
    cases he
  · intro q s
    show counter setup.rows q s = counter setup.rows q s + 0
    rw [add_zero]

/-- **Dead letter calls are linearizable as long as what they lock is still ERRORED.** -/
theorem linearized (hdead : ∀ t, (setup.call t).isDeadLetter = true) {actions : List Action}
    (h : Follows (World.step setup.schema) (StillErrored setup) setup.start actions) :
    Linearized setup (setup.run actions).rows (setup.run actions).log ∧
      MovedByRetry setup (setup.run actions) := by
  have hlinear : Linearized setup (setup.run actions).rows (setup.run actions).log := by
    refine Setup.invariant_run (fun w => Linearized setup w.rows w.log) ?_
      (linearized_start setup) h
    intro w a hsound hlinear herrored
    exact hlinear.step hsound hdead herrored
  exact ⟨hlinear, hlinear.movedByRetry⟩

end Commit

/-! ## Section 4: Two retries of one message -/

/-- If a retry or a deletion is about to commit, one of the locked rows is still ERRORED in its
queue. -/
def locksErrored (setup : Setup) (w : Server) : Action → Bool
  | .run t =>
    match (w.session t).status, (setup.call t).deadLetter with
    | .running (.done _), some (q, m) => setup.ids.any fun i =>
      decide (w.owner (message i) = some t) && (w.rows (message i)).any fun row : MessageRow =>
        addressed q m row && row.state = .errored
    | _, _ => true
  | _ => true

theorem stillErrored_of_locksErrored {setup : Setup} {w : Server} {a : Action}
    (h : locksErrored setup w a = true) : StillErrored setup w a := by
  cases a with
  | run t =>
    intro reply q m hstatus hcall
    simp only [locksErrored, hstatus, hcall, List.any_eq_true, Bool.and_eq_true,
      decide_eq_true_eq, Option.any_eq_true] at h
    obtain ⟨i, -, howner, row, hrow, haddr, hstate⟩ := h
    exact ⟨i, row, howner, hrow, haddr, hstate⟩
  | abort t => trivial
  | tick elapsed => trivial

/-- The message "m", out of attempts, in the dead letter queue of "jobs". -/
def deadJob : MessageRow where
  queueName := "jobs_dlq"
  messageId := "m"
  metadata := ⟨.pending, 1, 1, 0, none, none⟩
  state := .errored
  priority := 0
  scheduledAt := none
  leaseExpiry := none
  heartbeatExpiry := none
  attemptsLeft := 0
  maxAttempts := 1
  currentAttemptId := none
  currentWorkerId := none
  leaseStartedAt := none
  leaseExtensionUsed := 0
  leaseRenewalCount := 0
  lastHeartbeatAt := none
  createdAt := 0
  updatedAt := 0
  completedAt := none
  deletedAt := none
  cancellationReason := none

/-- Every call retries the message. -/
def retriedJob : Setup :=
  .ofRows [(1, deadJob)]
    [("jobs", ⟨"jobs", { deadLetterQueueName := "jobs_dlq" }, some "jobs_dlq", ⟨[]⟩⟩),
      ("jobs_dlq", ⟨"jobs_dlq", {}, none, ⟨[(.errored, 1)]⟩⟩)] 0
    (fun _ => .retryDLQ "jobs_dlq" "m" "jobs" false)
    (by decide) (by decide) (by decide) (by decide)

/-- The second retry begins when the first has committed, and finds no dead letter. -/
def retryTwice : List Action := List.replicate 20 (.run 0) ++ List.replicate 20 (.run 1)

theorem linearized_retryTwice :
    (retriedJob.run retryTwice).log = [(0, .requeued [1])] ∧
      Linearized retriedJob (retriedJob.run retryTwice).rows (retriedJob.run retryTwice).log ∧
      MovedByRetry retriedJob (retriedJob.run retryTwice) := by
  have hlocks : Follows (World.step retriedJob.schema)
      (fun w a => locksErrored retriedJob w a = true) retriedJob.start retryTwice := by
    decide +kernel
  have herrored := hlocks.mono _ fun w a => stillErrored_of_locksErrored
  exact ⟨by decide +kernel, linearized (fun _ => rfl) herrored⟩

/-- Retry 0 reads the row, then retry 1 moves it and commits; the `UPDATE` of retry 0 finds no
row. -/
def retriesRace : List Action :=
  .run 0 :: List.replicate 20 (.run 1) ++ List.replicate 20 (.run 0)

theorem not_linearized_retriesRace :
    ¬ ∀ setup : Setup, (∀ t, (setup.call t).isDeadLetter = true) → ∀ actions,
      Linearized setup (setup.run actions).rows (setup.run actions).log ∧
        MovedByRetry setup (setup.run actions) := by
  intro h
  have hlinear := (h retriedJob (fun _ => rfl) retriesRace).1
  -- Retry 0 has returned without an error.
  have hlog : (0, Reply.requeued []) ∈ (retriedJob.run retriesRace).log := by decide +kernel
  have hsettles := hlinear.settles _ hlog
  have hcall : retriedJob.call 0 = .retryDLQ "jobs_dlq" "m" "jobs" false := rfl
  simp only [hcall] at hsettles
  cases hsettles

end Nzovu.Postgres
