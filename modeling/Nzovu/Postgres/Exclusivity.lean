import Nzovu.Postgres.Commits

/-!
# Exclusive Queues

On an EXCLUSIVE queue at most one RUNNING message has a lease that has not expired. A claim sees
to that by holding the queue's row from its look at the leases to its commit. A renewal holds
only the message, and compares the lease with a time it read earlier: when it commits after the
lease has expired, another message may have been claimed.

- Section 1: live leases and the invariant.
- Section 2: where a live lease comes from.
- Section 3: runs whose renewals commit in time.
- Section 4: a renewal that commits in time, and one that does not.
-/

namespace Nzovu.Postgres

open Nzovu.Foundation
open Nzovu.Repository

/-! ## Section 1: Live leases -/

/-- The message is RUNNING and its lease expires later than `nowMs`. -/
def Live (nowMs : Int) (row : MessageRow) : Prop :=
  row.state = .running ∧ leaseLive nowMs row = true

theorem Live.earlier {nowMs earlierMs : Int} {row : MessageRow} (h : Live nowMs row)
    (hle : earlierMs ≤ nowMs) : Live earlierMs row := by
  obtain ⟨hrunning, hlive⟩ := h
  refine ⟨hrunning, ?_⟩
  unfold leaseLive at hlive ⊢
  rcases hexpiry : row.leaseExpiry with _ | expiry
  · simp [hexpiry] at hlive
  · simp only [hexpiry, Option.any_some, decide_eq_true_eq] at hlive ⊢
    omega

/-- The queue is of type EXCLUSIVE. -/
def Setup.IsExclusive (setup : Setup) (q : String) : Prop :=
  ∃ metadata, setup.metadata q = some metadata ∧ metadata.type = .exclusive

/-- No two messages of an EXCLUSIVE queue are live. -/
def MutuallyExclusive (setup : Setup) (w : Server) : Prop :=
  ∀ i j (a b : MessageRow), w.rows (message i) = some a → w.rows (message j) = some b →
    a.queueName = b.queueName → setup.IsExclusive a.queueName → Live w.clock a → Live w.clock b →
      i = j

/-- The session holds the row of the queue and has seen no active lease in it. -/
def PastCheck (setup : Setup) (w : Server) (t : Nat) (q : String) : Prop :=
  ∃ s, (w.session t).seen = some s ∧ s.locked (queue q) = true ∧
    hasActiveLease (setup.schema.scan s.rows .messages) q s.clock = false

/-- RUNNING messages are not marked as deleted. -/
def RunningKept (rows : Store Key Row) : Prop :=
  ∀ i (row : MessageRow), rows (message i) = some row → row.state = .running →
    row.deletedAt = none

/-- **The invariant**: besides mutual exclusion, a queue has no live message while a claim is
past its check. -/
structure Guarded (setup : Setup) (w : Server) : Prop where
  exclusive : MutuallyExclusive setup w
  checked : ∀ t q, setup.IsExclusive q → PastCheck setup w t q →
    ∀ i (row : MessageRow), w.rows (message i) = some row → row.queueName = q →
      ¬ Live w.clock row
  kept : RunningKept w.rows

/-- A scan that finds no active lease has met every live message. -/
theorem not_live_of_hasActiveLease {setup : Setup} {rows : Store Key Row} {q : String}
    {nowMs : Int} (hinv : setup.Inv rows) (hkept : RunningKept rows)
    (h : hasActiveLease (setup.schema.scan rows .messages) q nowMs = false) {i : Nat}
    {row : MessageRow} (hrow : rows (message i) = some row) (hq : row.queueName = q) :
    ¬ Live nowMs row := by
  intro hlive
  have hmem : (i, row) ∈ setup.schema.scan rows .messages := by
    rw [Schema.mem_scan]
    refine ⟨hinv.ids i ?_, hrow⟩
    simp [hrow]
  unfold hasActiveLease at h
  rw [List.any_eq_false] at h
  apply h _ hmem
  simp [hq, hlive.1, hlive.2, hkept i row hrow hlive.1]

/-! ## Section 2: Where a live lease comes from -/

section Origin

variable {setup : Setup} {L : Knowledge} {rows : Store Key Row} {call : Call} {reply : Reply}

/-- Where a RUNNING message after a commit comes from. -/
inductive RunningOrigin (setup : Setup) (L : Knowledge) (rows : Store Key Row) (call : Call)
    (reply : Reply) (i : Nat) (row : MessageRow) : Prop where
  | kept (h : rows (message i) = some row)
  | claimed (hexclusive : Exclusive setup L row.queueName) (hdeleted : row.deletedAt = none)
      (hothers : ∀ j, j ≠ i → L.view rows (message j) = rows (message j))
  | renewed (old : MessageRow) (hold : rows (message i) = some old)
      (hrunning : old.state = .running) (hqueue : row.queueName = old.queueName)
      (hdeleted : row.deletedAt = old.deletedAt) (hevent : reply.event = some (i, .renewed))
      (hlease : call.extendsLease old = false → row.leaseExpiry = old.leaseExpiry)
      (hothers : ∀ j, j ≠ i → L.view rows (message j) = rows (message j))

/-- **Origin rule**: a message is RUNNING after a commit because it was before, or because it was
claimed or renewed. -/
theorem Outcome.running (h : Outcome setup L call reply)
    (hsees : L.Sees setup.schema setup.Inv rows) {i : Nat} {row : MessageRow}
    (hrow : L.view rows (message i) = some row) (hrunning : row.state = .running) :
    RunningOrigin setup L rows call reply i row := by
  have hkept : L.view rows (message i) = rows (message i) →
      RunningOrigin setup L rows call reply i row := by
    intro hview
    rw [hview] at hrow
    exact .kept hrow
  have hgone : ∀ {j : Nat} {old : MessageRow}, Touched L j old none →
      RunningOrigin setup L rows call reply i row := by
    intro j old htouched
    by_cases hij : i = j
    · subst hij
      rw [htouched.view] at hrow
      cases hrow
    · exact hkept (htouched.view_ne hsees hij)
  cases h with
  | unclaimed _ hmessages => exact hkept (hmessages.view hsees not_false)
  | claimed req j old runtime selectedAt updatedAt hclaim htouched _ hexclusive =>
    by_cases hij : i = j
    · subst hij
      rw [htouched.view] at hrow
      cases hrow
      obtain ⟨hqueue, -, -, hdeleted⟩ := claimable_iff.mp hclaim
      refine .claimed ?_ hdeleted fun j hj => htouched.view_ne hsees hj
      rw [← hqueue] at hexclusive
      exact hexclusive
    · exact hkept (htouched.view_ne hsees hij)
  | worked _ _ j old new e _ hevent ht hold htouched _ hlease =>
    by_cases hij : i = j
    · subst hij
      rw [htouched.view] at hrow
      cases hrow
      have hothers : ∀ j, j ≠ i → L.view rows (message j) = rows (message j) :=
        fun j hj => htouched.view_ne hsees hj
      have hlease' : call.extendsLease old = false → row.leaseExpiry = old.leaseExpiry :=
        fun hkeeps => hlease hkeeps hrunning
      -- Of the transitions of a RUNNING row, only the renewals leave it RUNNING.
      cases ht with
      | claim req runtime nowMs hclaim =>
        rw [hclaim.state] at hold
        cases hold
      | extend =>
        exact .renewed old (htouched.base hsees) hold rfl rfl hevent hlease' hothers
      | heartbeat =>
        exact .renewed old (htouched.base hsees) hold rfl rfl hevent hlease' hothers
      | reclaim => exact absurd hrunning (reclaimState_ne_running old)
      | complete => cases hrunning
      | retry => cases hrunning
      | exhaust => cases hrunning
      | requeue => cases hrunning
    · exact hkept (htouched.view_ne hsees hij)
  | removed _ _ _ _ _ _ _ _ _ htouched => exact hgone htouched
  | requeued _ _ _ _ j _ _ _ _ htouched =>
    by_cases hij : i = j
    · subst hij
      rw [htouched.view] at hrow
      cases hrow
      cases hrunning
    · exact hkept (htouched.view_ne hsees hij)
  | missed _ _ _ _ hmessages => exact hkept (view_of_free (hmessages i))
  | deleted _ _ _ _ _ htouched => exact hgone htouched
  | purged _ _ ids _ hheld hothers =>
    by_cases hi : i ∈ ids
    · obtain ⟨old, -, -, hheld⟩ := hheld i hi
      rw [view_of_held hheld] at hrow
      cases hrow
    · exact hkept (hothers.view hsees hi)

end Origin

/-! ## Section 3: Renewals in time -/

/-- The queue has no live message, and no claim that is past its check. -/
def Idle (setup : Setup) (w : Server) (q : String) : Prop :=
  (∀ i (row : MessageRow), w.rows (message i) = some row → row.queueName = q →
    ¬ Live w.clock row) ∧ ∀ t, ¬ PastCheck setup w t q

/-- A transaction that extends a lease commits before the lease has expired, unless the queue is
idle. -/
def InTime (setup : Setup) (w : Server) : Action → Prop
  | .run t => ∀ reply i (old : MessageRow), (w.session t).status = .running (.done reply) →
      reply.event = some (i, .renewed) → w.rows (message i) = some old →
      setup.IsExclusive old.queueName → (setup.call t).extendsLease old = true →
      Live w.clock old ∨ Idle setup w old.queueName
  | _ => True

section Runs

variable {setup : Setup} {w : Server} {t t' : Nat} {q : String}

/-- Only one session can hold the queue's row. -/
theorem PastCheck.unique (hsound : setup.Sound w) (h : PastCheck setup w t q)
    (h' : PastCheck setup w t' q) : t = t' := by
  obtain ⟨s, hseen, hlocked, -⟩ := h
  obtain ⟨s', hseen', hlocked', -⟩ := h'
  have howner := hsound.consistent.seen t s hseen _ hlocked
  have howner' := hsound.consistent.seen t' s' hseen' _ hlocked'
  rw [howner] at howner'
  exact Option.some.inj howner'

theorem Exclusive.pastCheck {clock : Int} (h : Exclusive setup (w.localOf t clock) q)
    (hq : setup.IsExclusive q) : PastCheck setup w t q := by
  obtain ⟨metadata, hmeta, htype⟩ := hq
  exact h metadata hmeta htype

/-- A session that has committed is not past its check any more. -/
theorem PastCheck.of_commit {reply : Reply} (h : PastCheck setup (w.commit t reply) t' q) :
    t' ≠ t ∧ PastCheck setup w t' q := by
  obtain ⟨s, hseen, hlocked, hactive⟩ := h
  by_cases ht : t' = t
  · subst ht
    have hended : ((w.commit t' reply).session t').seen = none :=
      congrArg Session.seen (World.session_release (.finished (.ok reply)))
    rw [hended] at hseen
    cases hseen
  · have hother : (w.commit t reply).session t' = w.session t' :=
      World.session_release_ne (.finished (.ok reply)) ht
    rw [hother] at hseen
    exact ⟨ht, s, hseen, hlocked, hactive⟩

/-- **Live rule**: a live message after a commit was live before, or nothing else in its queue
is, and no other claim is past its check. -/
theorem Guarded.live_commit (h : Guarded setup w) (hsound : setup.Sound w)
    (htime : InTime setup w (.run t)) {reply : Reply} {clock : Int}
    (hstatus : (w.session t).status = .running (.done reply))
    (hpost : setup.post t reply (w.localOf t clock)) {i : Nat} {row : MessageRow}
    (hrow : (w.localOf t clock).view w.rows (message i) = some row)
    (hq : setup.IsExclusive row.queueName) (hlive : Live w.clock row) :
    (∃ old : MessageRow, w.rows (message i) = some old ∧ old.queueName = row.queueName ∧
      Live w.clock old) ∨
    ((∀ j (b : MessageRow), w.rows (message j) = some b → b.queueName = row.queueName →
        ¬ Live w.clock b) ∧
      (∀ t', t' ≠ t → ¬ PastCheck setup w t' row.queueName) ∧
      ∀ j, j ≠ i → (w.localOf t clock).view w.rows (message j) = w.rows (message j)) := by
  have hsees := hsound.consistent.sees hsound.inv t clock
  cases Outcome.running hpost hsees hrow hlive.1 with
  | kept hkept => exact Or.inl ⟨row, hkept, rfl, hlive⟩
  | claimed hexclusive _ hothers =>
    have hpast := hexclusive.pastCheck hq
    refine Or.inr ⟨fun j b hb hqueue => h.checked t _ hq hpast j b hb hqueue, ?_, hothers⟩
    intro t' ht hpast'
    exact ht (hpast'.unique hsound hpast)
  | renewed old hold hrunning hqueue _ hevent hlease hothers =>
    by_cases hextends : (setup.call t).extendsLease old = true
    · rw [hqueue] at hq ⊢
      rcases htime reply i old hstatus hevent hold hq hextends with hlive' | hidle
      · exact Or.inl ⟨old, hold, rfl, hlive'⟩
      · exact Or.inr ⟨hidle.1, fun t' _ => hidle.2 t', hothers⟩
    · refine Or.inl ⟨old, hold, hqueue.symm, hrunning, ?_⟩
      have hexpiry := hlease (by simpa using hextends)
      have hlive' := hlive.2
      unfold leaseLive at hlive' ⊢
      rw [← hexpiry]
      exact hlive'

/-- **Step lemma**. -/
theorem Guarded.step (hsound : setup.Sound w) (h : Guarded setup w) {a : Action}
    (htime : InTime setup w a) : Guarded setup (w.step setup.schema a) := by
  have hconsistent := hsound.consistent
  rcases hsound.effect a with
    ⟨hrows, -, hclock, hseen⟩ | ⟨t, reply, clock, rfl, hstatus, -, hpost, hcommit⟩
  · refine ⟨?_, ?_, ?_⟩
    · intro i j x y hx hy hqueue hq hlive hlive'
      rw [hrows] at hx hy
      exact h.exclusive i j x y hx hy hqueue hq (hlive.earlier hclock) (hlive'.earlier hclock)
    · intro t q hq hpast i row hrow hqueue hlive
      rw [hrows] at hrow
      obtain ⟨s, hs, hlocked, hactive⟩ := hpast
      rcases hseen t s hs with hold | rfl
      · exact h.checked t q hq ⟨s, hold, hlocked, hactive⟩ i row hrow hqueue
          (hlive.earlier hclock)
      · -- The session has just looked.
        exact not_live_of_hasActiveLease hsound.inv h.kept hactive hrow hqueue
          (hlive.earlier hclock)
    · rw [hrows]
      exact h.kept
  · have hsees := hconsistent.sees hsound.inv t clock
    have hrows : (w.commit t reply).rows = (w.localOf t clock).view w.rows :=
      (hconsistent.localOf_view t clock).symm
    rw [hcommit]
    refine ⟨?_, ?_, ?_⟩
    · intro i j x y hx hy hqueue hq hlive hlive'
      rw [hrows] at hx hy
      rcases h.live_commit hsound htime hstatus hpost hx hq hlive with
        ⟨x', hx', hqx, hlx⟩ | ⟨hidle, -, hothers⟩
      · rcases h.live_commit hsound htime hstatus hpost hy (hqueue ▸ hq) hlive' with
          ⟨y', hy', hqy, hly⟩ | ⟨hidle, -, -⟩
        · have hqueue' : x'.queueName = y'.queueName := by rw [hqx, hqy, hqueue]
          exact h.exclusive i j x' y' hx' hy' hqueue' (hqx ▸ hq) hlx hly
        · exact absurd hlx (hidle i x' hx' (hqx.trans hqueue))
      · -- The message was made live by this commit, so no other one is.
        by_contra hij
        rw [hothers j (Ne.symm hij)] at hy
        exact hidle j y hy hqueue.symm hlive'
    · intro t' q hq hpast i row hrow hqueue hlive
      obtain ⟨ht, hpast'⟩ := hpast.of_commit
      rw [hrows] at hrow
      subst hqueue
      rcases h.live_commit hsound htime hstatus hpost hrow hq hlive with
        ⟨old, hold, hqueue, hlive'⟩ | ⟨-, hpasts, -⟩
      · exact h.checked t' _ hq hpast' i old hold hqueue hlive'
      · exact hpasts t' ht hpast'
    · intro i row hrow hrunning
      rw [hrows] at hrow
      cases Outcome.running hpost hsees hrow hrunning with
      | kept hkept => exact h.kept i row hkept hrunning
      | claimed _ hdeleted _ => exact hdeleted
      | renewed old hold hold' _ hdeleted _ _ _ =>
        rw [hdeleted]
        exact h.kept i old hold hold'

/-- The database is in order at the start: mutual exclusion holds, and RUNNING messages are not
marked as deleted. -/
structure Orderly (setup : Setup) : Prop where
  exclusive : MutuallyExclusive setup setup.start
  kept : RunningKept setup.rows

theorem Orderly.guarded (h : Orderly setup) : Guarded setup setup.start := by
  refine ⟨h.exclusive, ?_, h.kept⟩
  intro t q _ hpast
  obtain ⟨s, hseen, -⟩ := hpast
  cases hseen

/-- **Exclusive queues are exclusive as long as leases are extended in time.** -/
theorem mutuallyExclusive (hstart : Orderly setup) {actions : List Action}
    (h : Follows (World.step setup.schema) (InTime setup) setup.start actions) :
    MutuallyExclusive setup (setup.run actions) := by
  have hguarded : Guarded setup (setup.run actions) := by
    apply Setup.invariant_run (Guarded setup) _ hstart.guarded h
    intro w a hsound hguarded htime
    exact hguarded.step hsound htime
  exact hguarded.exclusive

end Runs

/-! ## Section 4: A renewal in time, and a late one -/

/-- No renewal is about to commit, or only of a lease that has not expired. -/
def promptly (w : Server) : Action → Bool
  | .run t =>
    match (w.session t).status with
    | .running (.done reply) =>
      reply.event.all fun e => e.2 ≠ .renewed || (w.rows (message e.1)).all fun row : MessageRow =>
        row.state = .running && leaseLive w.clock row
    | _ => true
  | _ => true

theorem inTime_of_promptly {setup : Setup} {w : Server} {a : Action} (h : promptly w a = true) :
    InTime setup w a := by
  cases a with
  | run t =>
    intro reply i old hstatus hevent hold _ _
    simp only [promptly, hstatus, hevent, Option.all_some, ne_eq, not_true_eq_false, decide_false,
      Bool.false_or, hold, Bool.and_eq_true, decide_eq_true_eq] at h
    exact Or.inl h
  | abort t => trivial
  | tick elapsed => trivial

/-- A waiting message of the queue "jobs" with a lease of one second. -/
def waitingJob (messageId : String) : MessageRow where
  queueName := "jobs"
  messageId := messageId
  metadata := ⟨.pending, 3, 3, 0, none, some ⟨some ⟨1, 0⟩, some ⟨60, 0⟩, none, some ⟨1, 0⟩, 0⟩⟩
  state := .pending
  priority := 0
  scheduledAt := none
  leaseExpiry := none
  heartbeatExpiry := none
  attemptsLeft := 3
  maxAttempts := 3
  currentAttemptId := none
  currentWorkerId := none
  leaseStartedAt := none
  leaseExtensionUsed := 0
  leaseRenewalCount := 0
  lastHeartbeatAt := none
  createdAt := 0
  updatedAt := 0
  completedAt := none
  deletedAt := none
  cancellationReason := none

/-- "m" is RUNNING until 1000 ms, "n" waits. -/
def exclusiveMessages : List (Nat × MessageRow) :=
  [(1, { claimRow "a" "v" ⟨0, 1000, 0, 0, 0⟩ 0 (waitingJob "m") with heartbeatExpiry := none }),
    (2, waitingJob "n")]

def exclusiveQueues : List (String × QueueRow) :=
  [("jobs", ⟨"jobs", { type := .exclusive, exclusivityKey := "k" }, none, ⟨[]⟩⟩)]

/-- The EXCLUSIVE queue "jobs" at 500 ms. Call 0 extends the lease of "m", call 1 claims. -/
def exclusiveJobs : Setup :=
  .ofRows exclusiveMessages exclusiveQueues 500
    (fun t =>
      if t = 0 then .extend "jobs" "m" "a" "v" 5000
      else .claim ⟨"jobs", "w", "b", "k", 0, 0, "g", "", generatedAttemptId_ne⟩)
    (by decide) (by decide) (by decide) (by decide)

theorem orderly_exclusiveJobs : Orderly exclusiveJobs := by
  -- Only "m" is RUNNING.
  have honly : ∀ i (row : MessageRow), exclusiveJobs.rows (message i) = some row →
      row.state = .running → i = 1 ∧ row.deletedAt = none := by
    intro i row hrow hrunning
    have hstore : storeOf exclusiveMessages exclusiveQueues (message i) = some row := hrow
    have hmem := mem_of_storeOf hstore
    simp only [exclusiveMessages, List.mem_cons, List.not_mem_nil, or_false, Prod.mk.injEq] at hmem
    rcases hmem with ⟨rfl, rfl⟩ | ⟨rfl, rfl⟩
    · exact ⟨rfl, rfl⟩
    · cases hrunning
  constructor
  · intro i j a b ha hb _ _ hlive hlive'
    rw [(honly i a ha hlive.1).1, (honly j b hb hlive'.1).1]
  · intro i row hrow hrunning
    exact (honly i row hrow hrunning).2

/-- The extension commits at 500 ms, and the claim finds the queue taken. -/
def promptRenewal : List Action :=
  List.replicate 15 (.run 0) ++ .tick 1000 :: List.replicate 30 (.run 1)

theorem mutuallyExclusive_promptRenewal :
    (exclusiveJobs.run promptRenewal).log = [(1, .claimed none), (0, .extended 1 5500)] ∧
      MutuallyExclusive exclusiveJobs (exclusiveJobs.run promptRenewal) := by
  have hprompt : Follows (World.step exclusiveJobs.schema) (fun w a => promptly w a = true)
      exclusiveJobs.start promptRenewal := by decide +kernel
  have htime : Follows (World.step exclusiveJobs.schema) (InTime exclusiveJobs)
      exclusiveJobs.start promptRenewal := hprompt.mono _ fun w a => inTime_of_promptly
  exact ⟨by decide +kernel, mutuallyExclusive orderly_exclusiveJobs htime⟩

/-- The extension reads the clock at 500 ms. At 1500 ms the lease has expired and "n" is claimed;
then the extension commits. -/
def lateRenewal : List Action :=
  .run 0 :: .tick 1000 :: List.replicate 30 (.run 1) ++ List.replicate 15 (.run 0)

theorem not_mutuallyExclusive_lateRenewal :
    ¬ ∀ setup : Setup, Orderly setup → ∀ actions, MutuallyExclusive setup (setup.run actions) := by
  intro h
  have hexclusive := h exclusiveJobs orderly_exclusiveJobs lateRenewal
  have hlive : ∀ i, ((exclusiveJobs.run lateRenewal).rows (message i)).any
      (fun row : MessageRow => row.queueName = "jobs" && row.state = .running &&
        leaseLive (exclusiveJobs.run lateRenewal).clock row) = true →
      ∃ row : MessageRow, (exclusiveJobs.run lateRenewal).rows (message i) = some row ∧
        row.queueName = "jobs" ∧ Live (exclusiveJobs.run lateRenewal).clock row := by
    intro i hi
    obtain ⟨row, hrow, hi⟩ := (Option.any_eq_true _ _).mp hi
    simp only [Bool.and_eq_true, decide_eq_true_eq] at hi
    exact ⟨row, hrow, hi.1.1, hi.1.2, hi.2⟩
  -- Both messages are live at 1500 ms.
  obtain ⟨a, ha, hqa, hla⟩ := hlive 1 (by decide +kernel)
  obtain ⟨b, hb, hqb, hlb⟩ := hlive 2 (by decide +kernel)
  have hqueue : exclusiveJobs.IsExclusive a.queueName := by
    rw [hqa]
    exact ⟨_, rfl, rfl⟩
  have heq := hexclusive 1 2 a b ha hb (hqa.trans hqb.symm) hqueue hla hlb
  cases heq

end Nzovu.Postgres
