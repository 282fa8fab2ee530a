import Mathlib.Data.List.Infix
import Mathlib.Logic.Function.Basic

/-!
# Runs

Runs of a machine that performs one operation after another (Section 1) and of a family of machines
that each perform their own (Section 2), with the induction rules for properties of every state of a
run.

A run may be restricted by a condition on each operation and the state it starts from
(`Follows`); the rules then require the step lemma only under that condition.
-/

namespace Nzovu.Foundation

universe u v w

/-! ## Section 1: Deterministic machines -/

section Deterministic

variable {σ : Type u} {α : Type v} (step : σ → α → σ)

/-- The state after performing the operations in order. -/
def runFrom (s : σ) (ops : List α) : σ := ops.foldl step s

/-- Every operation of the run meets `cond` in the state it starts from. -/
def Follows (cond : σ → α → Prop) : σ → List α → Prop
  | _, [] => True
  | s, op :: ops => cond s op ∧ Follows cond (step s op) ops

@[simp] theorem runFrom_nil (s : σ) : runFrom step s [] = s := rfl

@[simp] theorem runFrom_cons (s : σ) (op : α) (ops : List α) :
    runFrom step s (op :: ops) = runFrom step (step s op) ops := rfl

theorem runFrom_append (s : σ) (xs ys : List α) :
    runFrom step s (xs ++ ys) = runFrom step (runFrom step s xs) ys :=
  List.foldl_append

theorem runFrom_concat (s : σ) (xs : List α) (op : α) :
    runFrom step s (xs ++ [op]) = step (runFrom step s xs) op := by
  rw [runFrom_append]
  rfl

theorem follows_append {cond : σ → α → Prop} {s : σ} {xs ys : List α} :
    Follows step cond s (xs ++ ys) ↔
      Follows step cond s xs ∧ Follows step cond (runFrom step s xs) ys := by
  induction xs generalizing s with
  | nil => simp [Follows]
  | cons op xs ih =>
    simp only [List.cons_append, Follows, runFrom_cons, ih, and_assoc]

theorem follows_concat {cond : σ → α → Prop} {s : σ} {xs : List α} {op : α} :
    Follows step cond s (xs ++ [op]) ↔
      Follows step cond s xs ∧ cond (runFrom step s xs) op := by
  rw [follows_append]
  simp [Follows]

instance {cond : σ → α → Prop} [∀ s op, Decidable (cond s op)] :
    ∀ (s : σ) (ops : List α), Decidable (Follows step cond s ops)
  | _, [] => .isTrue trivial
  | s, op :: ops =>
    have : Decidable (Follows step cond (step s op) ops) := instDecidableFollows _ ops
    inferInstanceAs (Decidable (cond s op ∧ Follows step cond (step s op) ops))

/-- The condition on every operation and the state the run has reached before it. -/
theorem follows_iff_forall {cond : σ → α → Prop} {s : σ} {ops : List α} :
    Follows step cond s ops ↔
      ∀ xs op ys, ops = xs ++ op :: ys → cond (runFrom step s xs) op := by
  constructor
  · rintro h xs op ys rfl
    exact (follows_append step |>.mp h).2.1
  · intro h
    induction ops generalizing s with
    | nil => trivial
    | cons op ops ih =>
      refine ⟨h [] op ops rfl, ih fun xs op' ys hops => ?_⟩
      exact h (op :: xs) op' ys (by rw [hops]; rfl)

/-- Two conditions that agree on the states of an invariant that one of them keeps. -/
theorem follows_iff_of_invariant (inv : σ → Prop) {cond cond' : σ → α → Prop}
    (hiff : ∀ s op, inv s → (cond s op ↔ cond' s op))
    (hstep : ∀ s op, inv s → cond s op → inv (step s op)) {s : σ} {ops : List α} (hinit : inv s) :
    Follows step cond s ops ↔ Follows step cond' s ops := by
  induction ops generalizing s with
  | nil => exact Iff.rfl
  | cons op ops ih =>
    have hop := hiff s op hinit
    constructor
    · rintro ⟨h, hrest⟩
      exact ⟨hop.mp h, (ih (hstep s op hinit h)).mp hrest⟩
    · rintro ⟨h, hrest⟩
      exact ⟨hop.mpr h, (ih (hstep s op hinit (hop.mpr h))).mpr hrest⟩

theorem follows_of_forall {cond : σ → α → Prop} (h : ∀ s op, cond s op) (s : σ)
    (ops : List α) : Follows step cond s ops := by
  induction ops generalizing s with
  | nil => trivial
  | cons op ops ih => exact ⟨h s op, ih _⟩

theorem Follows.mono {cond cond' : σ → α → Prop} (himp : ∀ s op, cond s op → cond' s op)
    {s : σ} {ops : List α} (h : Follows step cond s ops) : Follows step cond' s ops := by
  induction ops generalizing s with
  | nil => trivial
  | cons op ops ih => exact ⟨himp s op h.1, ih h.2⟩

theorem Follows.and_forall {cond : σ → α → Prop} {allowed : α → Prop} {s : σ} {ops : List α}
    (h : Follows step cond s ops) (hall : ∀ op ∈ ops, allowed op) :
    Follows step (fun s op => cond s op ∧ allowed op) s ops := by
  induction ops generalizing s with
  | nil => trivial
  | cons op ops ih =>
    exact ⟨⟨h.1, hall op List.mem_cons_self⟩,
      ih h.2 fun op hop => hall op (List.mem_cons_of_mem _ hop)⟩

/-- **Invariant rule**: what every admitted operation preserves holds at the end of the run. -/
theorem invariant_runFrom (inv : σ → Prop) {cond : σ → α → Prop}
    (hstep : ∀ s op, inv s → cond s op → inv (step s op)) {s : σ} {ops : List α}
    (hinit : inv s) (h : Follows step cond s ops) : inv (runFrom step s ops) := by
  induction ops generalizing s with
  | nil => exact hinit
  | cons op ops ih => exact ih (hstep s op hinit h.1) h.2

/-- The invariant rule for runs without a condition. -/
theorem invariant_runFrom' (inv : σ → Prop) (hstep : ∀ s op, inv s → inv (step s op)) {s : σ}
    (hinit : inv s) (ops : List α) : inv (runFrom step s ops) := by
  induction ops generalizing s with
  | nil => exact hinit
  | cons op ops ih => exact ih (hstep s op hinit)

/-- A run that leaves the condition has a first operation that does. -/
theorem exists_first_violation {cond : σ → α → Prop} {s : σ} {ops : List α}
    (h : ¬ Follows step cond s ops) :
    ∃ xs op ys, ops = xs ++ op :: ys ∧ Follows step cond s xs ∧
      ¬ cond (runFrom step s xs) op := by
  induction ops generalizing s with
  | nil => exact absurd trivial h
  | cons op ops ih =>
    by_cases hop : cond s op
    · have hrest : ¬ Follows step cond (step s op) ops := fun hrest => h ⟨hop, hrest⟩
      obtain ⟨xs, op', ys, hops, hxs, hviol⟩ := ih hrest
      exact ⟨op :: xs, op', ys, by rw [hops]; rfl, ⟨hop, hxs⟩, hviol⟩
    · exact ⟨[], op, ops, rfl, trivial, hop⟩

/-- **Exactness rule**: when an operation keeps the invariant exactly under the condition, the
invariant holds all along a run exactly when every operation meets the condition. -/
theorem forall_prefix_iff_follows (base inv : σ → Prop) {cond : σ → α → Prop}
    (hbase : ∀ s op, base s → base (step s op))
    (hstep : ∀ s op, base s → inv s → (inv (step s op) ↔ cond s op)) {s : σ} {ops : List α}
    (hinit : base s) (hinv : inv s) :
    (∀ xs, xs <+: ops → inv (runFrom step s xs)) ↔ Follows step cond s ops := by
  induction ops generalizing s with
  | nil => simp [Follows, hinv]
  | cons op ops ih =>
    have hiff := hstep s op hinit hinv
    constructor
    · intro h
      have hone : inv (step s op) := h [op] ⟨ops, rfl⟩
      refine ⟨hiff.mp hone, (ih (hbase s op hinit) hone).mp fun xs hxs => ?_⟩
      exact h (op :: xs) (List.cons_prefix_cons.mpr ⟨rfl, hxs⟩)
    · rintro ⟨hop, hrest⟩ xs hxs
      have hone : inv (step s op) := hiff.mpr hop
      cases xs with
      | nil => exact hinv
      | cons op' xs =>
        obtain ⟨rfl, htail⟩ := List.cons_prefix_cons.mp hxs
        exact (ih (hbase s op' hinit) hone).mpr hrest xs htail

end Deterministic

/-! ## Section 2: Families of machines -/

section Family

variable {ι : Type w} {σ : Type u} {α : Type v} [DecidableEq ι] (step : ι → σ → α → σ)

/-- One operation on the machine it names; the others stay as they are. -/
def stepFamily (s : ι → σ) (op : ι × α) : ι → σ :=
  Function.update s op.1 (step op.1 (s op.1) op.2)

theorem stepFamily_self (s : ι → σ) (i : ι) (a : α) :
    stepFamily step s (i, a) i = step i (s i) a :=
  Function.update_self i _ s

theorem stepFamily_of_ne {s : ι → σ} {i : ι} {op : ι × α} (h : i ≠ op.1) :
    stepFamily step s op i = s i :=
  Function.update_of_ne h _ s

/-- **Invariant rule** for families: each machine keeps the invariant in its own operations. -/
theorem invariant_runFamily (inv : ι → σ → Prop) {cond : ι → σ → α → Prop}
    (hstep : ∀ i s a, inv i s → cond i s a → inv i (step i s a)) {s : ι → σ}
    (hinit : ∀ i, inv i (s i)) {ops : List (ι × α)}
    (h : Follows (stepFamily step) (fun s op => cond op.1 (s op.1) op.2) s ops) (i : ι) :
    inv i (runFrom (stepFamily step) s ops i) := by
  refine invariant_runFrom (stepFamily step) (fun s => ∀ i, inv i (s i)) ?_ hinit h i
  intro s op hinv hcond j
  by_cases hj : j = op.1
  · subst hj
    rw [stepFamily_self]
    exact hstep op.1 (s op.1) op.2 (hinv op.1) hcond
  · rw [stepFamily_of_ne step hj]
    exact hinv j

/-- A property of every machine, after an operation. -/
theorem forall_stepFamily_iff {inv : σ → Prop} {s : ι → σ} {op : ι × α} (h : ∀ i, inv (s i)) :
    (∀ i, inv (stepFamily step s op i)) ↔ inv (step op.1 (s op.1) op.2) := by
  constructor
  · intro hall
    have hone := hall op.1
    rwa [stepFamily_self] at hone
  · intro hone i
    by_cases hi : i = op.1
    · subst hi
      rwa [stepFamily_self]
    · rw [stepFamily_of_ne step hi]
      exact h i

/-- The exactness rule for families. -/
theorem forall_prefix_iff_followsFamily (base inv : σ → Prop) {cond : σ → α → Prop}
    (hbase : ∀ i s a, base s → base (step i s a))
    (hstep : ∀ i s a, base s → inv s → (inv (step i s a) ↔ cond s a)) {s : ι → σ}
    {ops : List (ι × α)} (hinit : ∀ i, base (s i)) (hinv : ∀ i, inv (s i)) :
    (∀ xs, xs <+: ops → ∀ i, inv (runFrom (stepFamily step) s xs i)) ↔
      Follows (stepFamily step) (fun s op => cond (s op.1) op.2) s ops := by
  refine forall_prefix_iff_follows (stepFamily step) (fun s => ∀ i, base (s i))
    (fun s => ∀ i, inv (s i)) ?_ ?_ hinit hinv
  · intro s op hs
    exact (forall_stepFamily_iff step hs).mpr (hbase op.1 (s op.1) op.2 (hs op.1))
  · intro s op hs hinvs
    rw [forall_stepFamily_iff step hinvs]
    exact hstep op.1 (s op.1) op.2 (hs op.1) (hinvs op.1)

end Family

end Nzovu.Foundation
