import Mathlib.Data.List.Chain
import Mathlib.Order.Basic

/-!
# Enumerating a Set by its Successor Function

A partial function that gives the next element after one can be iterated. When it gives, from the
start and from every element of a sorted list, the least later element of that list, the iteration
runs through the list.
-/

namespace Nzovu.Foundation

universe u

variable {α : Type u}

/-- The results of `next`, each from the previous one, at most so many. -/
def iterateNext (next : α → Option α) : Nat → α → List α
  | 0, _ => []
  | n + 1, t =>
    match next t with
    | none => []
    | some u => u :: iterateNext next n u

/-- Along a chain of successors the iteration reads the list, and goes on from its last element. -/
theorem iterateNext_of_chain {next : α → Option α} {start : α} {elems : List α}
    (h : (start :: elems).IsChain fun t u => next t = some u) (n : Nat) :
    iterateNext next (elems.length + n) start =
      elems ++ iterateNext next n ((start :: elems).getLast (List.cons_ne_nil _ _)) := by
  induction elems generalizing start with
  | nil => simp
  | cons u rest ih =>
    rw [List.isChain_cons_cons] at h
    rw [List.length_cons, Nat.add_right_comm, iterateNext, h.1]
    simp only [ih h.2, List.cons_append, List.getLast_cons_cons]

/-- What `next` leads to from every element it reaches holds of all results. -/
theorem forall_mem_iterateNext {next : α → Option α} {inv post : α → Prop}
    (hnext : ∀ t u, inv t → next t = some u → inv u ∧ post u) {start : α} (hstart : inv start)
    (n : Nat) : ∀ u ∈ iterateNext next n start, post u := by
  induction n generalizing start with
  | zero => simp [iterateNext]
  | succ n ih =>
    cases hcase : next start with
    | none => simp [iterateNext, hcase]
    | some u =>
      simp only [iterateNext, hcase]
      intro x hx
      rcases List.mem_cons.mp hx with rfl | hx
      · exact (hnext _ _ hstart hcase).2
      · exact ih (hnext _ _ hstart hcase).1 x hx

/-- In a sorted list, neighbours are successors. -/
theorem isChain_of_successor [Preorder α] {elems : List α} {R : α → α → Prop}
    (hsorted : elems.Pairwise (· < ·))
    (hR : ∀ t ∈ elems, ∀ u ∈ elems, t < u → (∀ v ∈ elems, t < v → u ≤ v) → R t u) :
    elems.IsChain R := by
  induction elems with
  | nil => exact .nil
  | cons first rest ih =>
    obtain ⟨hfirst, hrest⟩ := List.pairwise_cons.mp hsorted
    have htail : rest.IsChain R := by
      refine ih hrest fun t ht u hu hlt hleast =>
        hR t (List.mem_cons_of_mem _ ht) u (List.mem_cons_of_mem _ hu) hlt fun v hv htv => ?_
      -- the first element is below `t`
      rcases List.mem_cons.mp hv with rfl | hv
      · exact absurd htv (lt_asymm (hfirst t ht))
      · exact hleast v hv htv
    cases rest with
    | nil => exact .singleton first
    | cons second others =>
      refine .cons_cons (hR first List.mem_cons_self second (by simp)
        (hfirst second List.mem_cons_self) fun v hv hlt => ?_) htail
      rcases List.mem_cons.mp hv with rfl | hv
      · exact absurd hlt (lt_irrefl _)
      · rcases List.mem_cons.mp hv with rfl | hv
        · exact le_refl _
        · exact le_of_lt ((List.pairwise_cons.mp hrest).1 v hv)

end Nzovu.Foundation
