import Mathlib.Algebra.BigOperators.Group.Finset.Basic
import Mathlib.Algebra.BigOperators.Ring.Finset
import Nzovu.Postgres.DeadLetters

/-!
# Counters under Concurrency

The counter statements of a transaction run after its statement on the message, in rows of their
own, and other transactions commit in between. Whatever the interleaving, the committed counters are
the numbers of committed messages: a transaction that commits moves each counter by what it has done
to the messages. The one exception is a retry or a deletion of a dead letter that no longer is one.

- Section 1: the messages counted by queue and state.
- Section 2: one commit.
- Section 3: runs.
-/

namespace Nzovu.Postgres

open Nzovu.Foundation
open Nzovu.Repository

/-! ## Section 1: Totals -/

/-- What one message adds to the total of a queue and a state. -/
def rowHits (row : Option MessageRow) (q : String) (s : MessageState) : Int :=
  match row with
  | some row => hits row.queueName row.state q s
  | none => 0

/-- The number of committed messages of the queue in the state. -/
def total (setup : Setup) (rows : Store Key Row) (q : String) (s : MessageState) : Int :=
  ∑ i ∈ setup.ids.toFinset, rowHits (rows (message i)) q s

/-- Every counter is the number of committed messages of its queue in its state. -/
def CountersExact (setup : Setup) (rows : Store Key Row) : Prop :=
  ∀ q s, counter rows q s =
    ((setup.ids.filter fun i =>
      (rows (message i)).any fun row : MessageRow => row.countsAs q s).length : Int)

theorem rowHits_eq (row : Option MessageRow) (q : String) (s : MessageState) :
    rowHits row q s = if (row.any fun row => row.countsAs q s) = true then 1 else 0 := by
  cases row with
  | none => rfl
  | some row => simp [rowHits, hits_eq_countsAs]

theorem total_eq_length (setup : Setup) (rows : Store Key Row) (q : String) (s : MessageState) :
    total setup rows q s = ((setup.ids.filter fun i =>
      (rows (message i)).any fun row : MessageRow => row.countsAs q s).length : Int) := by
  unfold total
  rw [← List.toFinset_card_of_nodup (setup.ids_nodup.filter _), List.toFinset_filter,
    Finset.card_filter]
  push_cast
  exact Finset.sum_congr rfl fun i _ => rowHits_eq _ q s

theorem countersExact_iff_total {setup : Setup} {rows : Store Key Row} :
    CountersExact setup rows ↔ ∀ q s, counter rows q s = total setup rows q s := by
  simp only [CountersExact, total_eq_length]

/-! ## Section 2: One commit -/

section Commit

variable {setup : Setup} {L : Knowledge} {rows : Store Key Row}

/-- What a commit adds to a total, message by message. -/
theorem total_view (L : Knowledge) (rows : Store Key Row) (q : String) (s : MessageState) :
    total setup (L.view rows) q s = total setup rows q s +
      ∑ i ∈ setup.ids.toFinset,
        (rowHits (L.view rows (message i)) q s - rowHits (rows (message i)) q s) := by
  rw [Finset.sum_sub_distrib]
  unfold total
  omega

theorem Untouched.total (h : Untouched L fun _ => False)
    (hsees : L.Sees setup.schema setup.Inv rows) (q : String) (s : MessageState) :
    total setup (L.view rows) q s = Postgres.total setup rows q s :=
  Finset.sum_congr rfl fun i _ => by rw [h.view hsees not_false]

theorem Touched.total {i : Nat} {old : MessageRow} {new : Option MessageRow}
    (h : Touched L i old new) (hsees : L.Sees setup.schema setup.Inv rows) (q : String)
    (s : MessageState) :
    total setup (L.view rows) q s = Postgres.total setup rows q s + rowDelta old new q s := by
  have hi : i ∈ setup.ids.toFinset :=
    List.mem_toFinset.mpr (hsees.inv.ids i (by simp [h.base hsees]))
  have hone : ∑ j ∈ setup.ids.toFinset,
      (rowHits (L.view rows (message j)) q s - rowHits (rows (message j)) q s) =
        rowHits (L.view rows (message i)) q s - rowHits (rows (message i)) q s := by
    refine Finset.sum_eq_single_of_mem i hi fun j _ hj => ?_
    rw [h.view_ne hsees hj, sub_self]
  rw [total_view, hone, h.view, h.base hsees]
  cases new <;> rfl

/-- A purge takes one unit for each row. -/
theorem total_purged {q₀ : String} {ids : List Nat} (hnodup : ids.Nodup)
    (hheld : ∀ i ∈ ids, ∃ old : MessageRow, old.queueName = q₀ ∧ old.state = .errored ∧
      L.held (message i) = some (some old, none))
    (hothers : Untouched L (· ∈ ids)) (hsees : L.Sees setup.schema setup.Inv rows) (q : String)
    (s : MessageState) :
    total setup (L.view rows) q s = total setup rows q s - ids.length * hits q₀ .errored q s := by
  have hsub : ids.toFinset ⊆ setup.ids.toFinset := by
    intro i hi
    obtain ⟨old, -, -, hold⟩ := hheld i (List.mem_toFinset.mp hi)
    exact List.mem_toFinset.mpr (hsees.inv.ids i (by simp [hsees.base _ _ _ hold]))
  have hsum : ∑ i ∈ setup.ids.toFinset,
      (rowHits (L.view rows (message i)) q s - rowHits (rows (message i)) q s) =
        ∑ i ∈ ids.toFinset, -hits q₀ .errored q s := by
    rw [← Finset.sum_subset hsub]
    · refine Finset.sum_congr rfl fun i hi => ?_
      obtain ⟨old, hqueue, hstate, hold⟩ := hheld i (List.mem_toFinset.mp hi)
      rw [view_of_held hold, hsees.base _ _ _ hold]
      simp [rowHits, hqueue, hstate]
    · intro i _ hi
      rw [hothers.view hsees fun h => hi (List.mem_toFinset.mpr h), sub_self]
  rw [total_view, hsum, Finset.sum_const, List.toFinset_card_of_nodup hnodup]
  simp [sub_eq_add_neg]

/-- Counters and totals move together. -/
theorem countersExact_of_moves {delta : String → MessageState → Int}
    (hexact : CountersExact setup rows)
    (hcounter : ∀ q s, counter (L.view rows) q s = counter rows q s + delta q s)
    (htotal : ∀ q s, total setup (L.view rows) q s = total setup rows q s + delta q s) :
    CountersExact setup (L.view rows) := by
  rw [countersExact_iff_total] at hexact ⊢
  intro q s
  rw [hcounter, htotal, hexact]

end Commit

section Steps

variable {setup : Setup} {w : Server} {t : Nat}

/-- **Commit rule**: a commit moves the counters by what it has done to the messages. -/
theorem CountersExact.commit (h : CountersExact setup w.rows) (hsound : setup.Sound w)
    (herrored : StillErrored setup w (.run t)) {reply : Reply} {clock : Int}
    (hstatus : (w.session t).status = .running (.done reply))
    (hpost : setup.post t reply (w.localOf t clock)) :
    CountersExact setup ((w.localOf t clock).view w.rows) := by
  have hsees := hsound.consistent.sees hsound.inv t clock
  unfold Setup.post at hpost
  generalize hcall : setup.call t = call at hpost
  cases hpost with
  | unclaimed req hmessages hcounted =>
    refine countersExact_of_moves h (hcounted.counter hsees) fun q s => ?_
    rw [hmessages.total hsees, add_zero]
  | claimed req i old runtime selectedAt updatedAt hclaim htouched hcounted =>
    exact countersExact_of_moves h (hcounted.counter hsees) (htouched.total hsees)
  | worked _ _ i old new e _ _ _ _ htouched hcounted =>
    exact countersExact_of_moves h (hcounted.counter hsees) (htouched.total hsees)
  | removed _ _ i old e _ _ _ _ htouched hcounted =>
    exact countersExact_of_moves h (hcounted.counter hsees) (htouched.total hsees)
  | requeued dlqName messageId target reset i old attemptsLeft updatedAt haddr htouched hcounted =>
    -- The counters move for an ERRORED row of the dead letter queue: it is one.
    have hstate := errored_of_touched hsound herrored hstatus (by rw [hcall]; rfl) htouched haddr
    obtain ⟨hqueue, -⟩ := addressed_iff.mp haddr
    refine countersExact_of_moves h (hcounted.counter hsees) fun q s => ?_
    rw [htouched.total hsees]
    simp [rowDelta, requeueRow, hqueue, hstate]
  | missed dlqName messageId target reset hmessages =>
    obtain ⟨i, row, howner, -⟩ := herrored _ dlqName messageId hstatus (by rw [hcall]; rfl)
    have hheld := hmessages i
    simp [World.localOf, howner] at hheld
  | deleted queueName messageId i old haddr htouched hcounted =>
    have hstate := errored_of_touched hsound herrored hstatus (by rw [hcall]; rfl) htouched haddr
    obtain ⟨hqueue, -⟩ := addressed_iff.mp haddr
    refine countersExact_of_moves h (hcounted.counter hsees) fun q s => ?_
    rw [htouched.total hsees]
    simp [rowDelta, hqueue, hstate]
  | purged queueName limit ids hnodup hheld hothers hcounted =>
    refine countersExact_of_moves h (hcounted.counter hsees) fun q s => ?_
    rw [total_purged hnodup hheld hothers hsees, sub_eq_add_neg]

/-! ## Section 3: Runs -/

/-- **Step lemma**. -/
theorem CountersExact.step (h : CountersExact setup w.rows) (hsound : setup.Sound w) {a : Action}
    (herrored : StillErrored setup w a) :
    CountersExact setup (w.step setup.schema a).rows := by
  rcases hsound.effect a with
    ⟨hrows, -, -, -⟩ | ⟨t, reply, clock, rfl, hstatus, -, hpost, hcommit⟩
  · rw [hrows]
    exact h
  · have hrows : (w.commit t reply).rows = (w.localOf t clock).view w.rows :=
      (hsound.consistent.localOf_view t clock).symm
    rw [hcommit, hrows]
    exact h.commit hsound herrored hstatus hpost

end Steps

/-- **Counters are exact under every interleaving** of claims, acknowledgements, rejections,
extensions, heartbeats, reclaims and dead letter calls, as long as a retry or a deletion of a dead
letter that commits has locked a row that is still ERRORED. -/
theorem countersExact_run {setup : Setup} (hstart : CountersExact setup setup.rows)
    {actions : List Action}
    (h : Follows (World.step setup.schema) (StillErrored setup) setup.start actions) :
    CountersExact setup (setup.run actions).rows := by
  refine Setup.invariant_run (fun w => CountersExact setup w.rows) ?_ hstart h
  intro w a hsound hexact herrored
  exact hexact.step hsound herrored

theorem countersExact_retriedJob : CountersExact retriedJob retriedJob.rows := by
  rw [countersExact_iff_total]
  intro q s
  have htotal : total retriedJob retriedJob.rows q s = hits "jobs_dlq" .errored q s := by
    show ∑ i ∈ ([1] : List Nat).toFinset, _ = _
    rw [List.toFinset_cons, List.toFinset_nil, insert_empty_eq, Finset.sum_singleton]
    rfl
  rw [htotal]
  by_cases hdlq : "jobs_dlq" = q
  · subst hdlq
    cases s <;> decide
  · have hnone : hits "jobs_dlq" .errored q s = 0 := by simp [hits, hdlq]
    by_cases hjobs : "jobs" = q
    · subst hjobs
      rw [hnone]
      cases s <;> decide
    · have hrow : retriedJob.rows (queue q) = none := by
        show (List.find? _ _).map Prod.snd = none
        simp [hdlq, hjobs]
      rw [hnone]
      simp [counter, hrow]

/-- A retry and a second one that comes too late. -/
theorem countersExact_retryTwice :
    (retriedJob.run retryTwice).log = [(0, .requeued [1])] ∧
      CountersExact retriedJob (retriedJob.run retryTwice).rows := by
  have hlocks : Follows (World.step retriedJob.schema)
      (fun w a => locksErrored retriedJob w a = true) retriedJob.start retryTwice := by
    decide +kernel
  have herrored := hlocks.mono _ fun w a => stillErrored_of_locksErrored
  exact ⟨by decide +kernel, countersExact_run countersExact_retriedJob herrored⟩

end Nzovu.Postgres
