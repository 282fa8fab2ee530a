import Nzovu.Foundation.Trace
import Mathlib.Algebra.BigOperators.Group.Finset.Piecewise
import Mathlib.Data.List.Nodup
import Mathlib.Logic.Function.Basic
import Mathlib.Tactic.Cases

/-!
# Lease Queues

What a work queue with leases is, whatever it is made of: every job is in one phase, and a worker
that is handed a job holds a lease on it until the job is finished, rejected or taken back. The
jobs are told apart by keys `κ`, the leases are of any type `ω`.

- Section 1: phases, acts and the machine.
- Section 2: what happens to a single job.
- Section 3: discarding many jobs at once.
- Section 4: totals over all jobs.
-/

namespace Nzovu.Foundation.LeaseQueue

universe u v

/-! ## Section 1: The machine -/

/-- Where a job is. -/
inductive Phase (ω : Type v) where
  | absent
  | waiting
  | ready
  | leased (lease : ω)
  | finished
  | withdrawn
  | dead
  | gone

/-- What is done to a job. -/
inductive Act (ω : Type v) where
  | post
  | release
  | deliver (lease : ω)
  | renew (lease : ω)
  | finish (lease : ω)
  | reject (lease : ω)
  | expire (lease : ω)
  | withdraw
  | revive
  | discard
  | evict (lease : ω)

/-- The phases an act leads between. What ends a lease may also end the job, and a job that ends
may be kept or not. -/
inductive Moves {ω : Type v} : Phase ω → Act ω → Phase ω → Prop where
  | post {p : Phase ω} (hp : p = .waiting ∨ p = .ready) : Moves .absent .post p
  | release : Moves .waiting .release .ready
  | deliver (lease : ω) : Moves .ready (.deliver lease) (.leased lease)
  | renew (lease : ω) : Moves (.leased lease) (.renew lease) (.leased lease)
  | finish (lease : ω) {p : Phase ω} (hp : p = .finished ∨ p = .gone) :
      Moves (.leased lease) (.finish lease) p
  | reject (lease : ω) {p : Phase ω} (hp : p = .ready ∨ p = .dead ∨ p = .gone) :
      Moves (.leased lease) (.reject lease) p
  | expire (lease : ω) {p : Phase ω} (hp : p = .ready ∨ p = .dead ∨ p = .gone) :
      Moves (.leased lease) (.expire lease) p
  | withdraw {p : Phase ω} (hp : p = .waiting ∨ p = .ready) : Moves p .withdraw .withdrawn
  | revive : Moves .dead .revive .ready
  | discard {p : Phase ω} (habsent : p ≠ .absent) (hgone : p ≠ .gone)
      (hfree : ∀ lease, p ≠ .leased lease) : Moves p .discard .gone
  | evict (lease : ω) : Moves (.leased lease) (.evict lease) .gone

section Machine

variable {κ : Type u} {ω : Type v}

/-- One act on one job. -/
structure Step (s : κ → Phase ω) (a : κ × Act ω) (s' : κ → Phase ω) : Prop where
  moves : Moves (s a.1) a.2 (s' a.1)
  others : ∀ k, k ≠ a.1 → s' k = s k

/-! ## Section 2: A single job -/

/-- The acts on one job. -/
def actsOn [DecidableEq κ] (k : κ) (acts : List (κ × Act ω)) : List (Act ω) :=
  acts.filterMap fun a => if a.1 = k then some a.2 else none

/-- **Projection**: a trace of the queue is a trace of every job. -/
theorem trace_actsOn [DecidableEq κ] {s s' : κ → Phase ω} {acts : List (κ × Act ω)}
    (h : Trace Step s acts s') (k : κ) : Trace Moves (s k) (actsOn k acts) (s' k) := by
  induction h with
  | nil s => exact .nil (s k)
  | @cons s s₁ s' a acts hone hrest ih =>
    by_cases hk : a.1 = k
    · subst hk
      simpa [actsOn] using Trace.cons hone.moves ih
    · rw [hone.others k (Ne.symm hk)] at ih
      simpa [actsOn, hk] using ih

/-- A job that has come to its end: its phase can only be forgotten. -/
def Phase.Settled (p : Phase ω) : Prop := p = .finished ∨ p = .withdrawn ∨ p = .gone

theorem Moves.of_settled {p q : Phase ω} {a : Act ω} (h : Moves p a q) (hp : p.Settled) :
    a = .discard ∧ q = .gone := by
  cases h with
  | discard => exact ⟨rfl, rfl⟩
  | withdraw hq => rcases hq with rfl | rfl <;> rcases hp with hp | hp | hp <;> cases hp
  | _ => rcases hp with hp | hp | hp <;> cases hp

/-- A settled job stays as it is until it is discarded. -/
theorem settled_of_trace {p q : Phase ω} {acts : List (Act ω)} (h : Trace Moves p acts q)
    (hp : p.Settled) : (q = p ∨ q = .gone) ∧ ∀ a ∈ acts, a = .discard := by
  induction h with
  | nil => exact ⟨.inl rfl, fun _ ha => absurd ha List.not_mem_nil⟩
  | cons hone _ ih =>
    obtain ⟨hact, rfl⟩ := hone.of_settled hp
    obtain ⟨hq, hrest⟩ := ih (.inr (.inr rfl))
    refine ⟨.inr (hq.elim id id), fun a ha => ?_⟩
    rcases List.mem_cons.mp ha with rfl | ha
    · exact hact
    · exact hrest a ha

/-- A dead job that is not dead any more was revived or discarded. -/
theorem dead_of_trace {q : Phase ω} {acts : List (Act ω)} (h : Trace Moves .dead acts q) :
    q = .dead ∨ Act.revive ∈ acts ∨ q = .gone := by
  generalize hp : (Phase.dead : Phase ω) = p at h
  cases h with
  | nil => exact .inl rfl
  | cons hone hrest =>
    subst hp
    cases hone with
    | withdraw hq => rcases hq with hq | hq <;> cases hq
    | revive => exact .inr (.inl List.mem_cons_self)
    | discard =>
      have hgone := (settled_of_trace hrest (.inr (.inr rfl))).1
      exact .inr (.inr (hgone.elim id id))

/-- The act hands the job to a worker. -/
def Act.isDelivery : Act ω → Bool
  | .deliver _ => true
  | _ => false

/-- The act ends a lease. -/
def Act.endsLease : Act ω → Bool
  | .finish _ | .reject _ | .expire _ | .evict _ => true
  | _ => false

/-- The number of leases on a job in this phase. -/
def Phase.leases : Phase ω → Nat
  | .leased _ => 1
  | _ => 0

theorem Moves.balance {p q : Phase ω} {a : Act ω} (h : Moves p a q) :
    p.leases + (if a.isDelivery then 1 else 0) = (if a.endsLease then 1 else 0) + q.leases := by
  cases h with
  | post hp => rcases hp with rfl | rfl <;> rfl
  | finish lease hp => rcases hp with rfl | rfl <;> rfl
  | reject lease hp => rcases hp with rfl | rfl | rfl <;> rfl
  | expire lease hp => rcases hp with rfl | rfl | rfl <;> rfl
  | withdraw hp => rcases hp with rfl | rfl <;> rfl
  | discard habsent hgone hfree =>
    cases p with
    | leased lease => exact absurd rfl (hfree lease)
    | _ => rfl
  | _ => rfl

/-- **Balance of leases**: the leases a job has been given are those that have ended and the one
it is under. -/
theorem balance_of_trace {p q : Phase ω} {acts : List (Act ω)} (h : Trace Moves p acts q) :
    p.leases + acts.countP Act.isDelivery = acts.countP Act.endsLease + q.leases := by
  induction h with
  | nil => simp
  | cons hone _ ih =>
    have hact := hone.balance
    simp only [List.countP_cons]
    omega

theorem mem_actsOn [DecidableEq κ] {k : κ} {a : Act ω} {acts : List (κ × Act ω)} :
    a ∈ actsOn k acts ↔ (k, a) ∈ acts := by
  simp only [actsOn, List.mem_filterMap]
  constructor
  · rintro ⟨b, hb, hsome⟩
    by_cases hk : b.1 = k
    · simp only [hk, if_true, Option.some.injEq] at hsome
      rw [← hk, ← hsome]
      exact hb
    · simp [hk] at hsome
  · intro h
    exact ⟨(k, a), h, by simp⟩

/-! ## Section 3: Discarding -/

/-- The act that removes a job, whatever its phase. -/
def Phase.removal : Phase ω → Act ω
  | .leased lease => .evict lease
  | _ => .discard

theorem moves_removal {p : Phase ω} (habsent : p ≠ .absent) (hgone : p ≠ .gone) :
    Moves p p.removal .gone := by
  cases p with
  | leased lease => exact .evict lease
  | absent => exact absurd rfl habsent
  | gone => exact absurd rfl hgone
  | _ => exact .discard (by simp) (by simp) (by simp)

theorem eq_leased_of_removal {p : Phase ω} {lease : ω} (h : p.removal = .evict lease) :
    p = .leased lease := by
  cases p with
  | leased lease' =>
    cases h
    rfl
  | _ => cases h

/-- Jobs can be removed one after the other. -/
theorem trace_removals [DecidableEq κ] {ks : List κ} (hnodup : ks.Nodup) (s : κ → Phase ω)
    (hks : ∀ k ∈ ks, s k ≠ .absent ∧ s k ≠ .gone) :
    Trace Step s (ks.map fun k => (k, (s k).removal))
      (fun k => if k ∈ ks then .gone else s k) := by
  induction ks generalizing s with
  | nil => simpa using Trace.nil s
  | cons k ks ih =>
    obtain ⟨hk, hnodup⟩ := List.nodup_cons.mp hnodup
    have hfirst : Step s (k, (s k).removal) (Function.update s k .gone) := by
      refine ⟨?_, fun j hj => Function.update_of_ne hj _ s⟩
      rw [Function.update_self]
      exact moves_removal (hks k List.mem_cons_self).1 (hks k List.mem_cons_self).2
    -- The other jobs have not moved, so they are removed by the same acts.
    have hsame : ∀ j ∈ ks, Function.update s k .gone j = s j := by
      intro j hj
      have hne : j ≠ k := by
        rintro rfl
        exact hk hj
      exact Function.update_of_ne hne _ s
    have hrest := ih hnodup (Function.update s k .gone) fun j hj => by
      rw [hsame j hj]
      exact hks j (List.mem_cons_of_mem k hj)
    have hmap : ks.map (fun j => (j, (Function.update s k .gone j).removal)) =
        ks.map fun j => (j, (s j).removal) :=
      List.map_congr_left fun j hj => by rw [hsame j hj]
    have hend : (fun j => if j ∈ ks then .gone else Function.update s k .gone j) =
        fun j => if j ∈ k :: ks then .gone else s j := by
      funext j
      by_cases hj : j = k
      · subst hj
        simp
      · simp [hj]
    rw [hmap, hend] at hrest
    exact .cons hfirst hrest

end Machine

/-! ## Section 4: Totals -/

/-- Counting the entries of a list by their keys. -/
theorem countP_eq_sum {β : Type v} {l : List (Nat × β)} {n : Nat} (h : ∀ e ∈ l, e.1 < n)
    (p : β → Bool) :
    l.countP (fun e => p e.2) =
      ∑ i ∈ Finset.range n, l.countP fun e => decide (e.1 = i) && p e.2 := by
  induction l with
  | nil => simp
  | cons e l ih =>
    have hrest := ih fun d hd => h d (List.mem_cons_of_mem e hd)
    have he : e.1 ∈ Finset.range n := Finset.mem_range.mpr (h e List.mem_cons_self)
    have hone : ∑ i ∈ Finset.range n, (if (decide (e.1 = i) && p e.2) = true then 1 else 0) =
        if p e.2 = true then 1 else 0 := by
      by_cases hp : p e.2 = true
      · simp [hp, he]
      · simp [hp]
    simp only [List.countP_cons, Finset.sum_add_distrib, hrest, hone]

end Nzovu.Foundation.LeaseQueue
