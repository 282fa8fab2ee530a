import Mathlib.Data.List.Basic

/-!
# Errors That Wrap Errors

An error carries a value and wraps any number of errors. It is searched in preorder: the error
itself, then what it wraps, from left to right.
-/

namespace Nzovu.Foundation

universe u v

/-- An error with its value and the errors it wraps. -/
inductive ErrorTree (α : Type u) where
  | node (value : α) (wrapped : List (ErrorTree α))

namespace ErrorTree

variable {α : Type u} {β : Type v}

/-- **Induction** over the wrapped errors. -/
@[elab_as_elim] theorem wrapped_induction {P : ErrorTree α → Prop}
    (node : ∀ value wrapped, (∀ t ∈ wrapped, P t) → P (.node value wrapped)) (t : ErrorTree α) :
    P t :=
  @ErrorTree.rec α P (fun wrapped => ∀ t ∈ wrapped, P t) node
    (fun _ ht => absurd ht List.not_mem_nil)
    (fun _ _ hhead htail => List.forall_mem_cons.mpr ⟨hhead, htail⟩) t

/-- The value of the outermost error. -/
def value : ErrorTree α → α
  | .node value _ => value

mutual

/-- The values of an error and of all it wraps, in the order of a search. -/
def values : ErrorTree α → List α
  | .node value wrapped => value :: valuesAll wrapped

def valuesAll : List (ErrorTree α) → List α
  | [] => []
  | t :: ts => t.values ++ valuesAll ts

end

mutual

/-- The same errors with other values. -/
def map (f : α → β) : ErrorTree α → ErrorTree β
  | .node value wrapped => .node (f value) (mapAll f wrapped)

def mapAll (f : α → β) : List (ErrorTree α) → List (ErrorTree β)
  | [] => []
  | t :: ts => t.map f :: mapAll f ts

end

/-- An error that wraps one other error. -/
def wrap (value : α) (t : ErrorTree α) : ErrorTree α := .node value [t]

/-- An error that wraps none. -/
def leaf (value : α) : ErrorTree α := .node value []

@[simp] theorem value_wrap (value : α) (t : ErrorTree α) : (wrap value t).value = value := rfl

@[simp] theorem value_leaf (value : α) : (leaf value).value = value := rfl

@[simp] theorem values_leaf (value : α) : (leaf value).values = [value] := rfl

@[simp] theorem values_wrap (value : α) (t : ErrorTree α) :
    (wrap value t).values = value :: t.values := by
  simp [wrap, values, valuesAll]

theorem values_eq_cons (t : ErrorTree α) : ∃ rest, t.values = t.value :: rest := by
  cases t
  exact ⟨_, rfl⟩

@[simp] theorem value_map (f : α → β) (t : ErrorTree α) : (t.map f).value = f t.value := by
  cases t
  rfl

theorem valuesAll_mapAll {f : α → β} {ts : List (ErrorTree α)}
    (h : ∀ t ∈ ts, (t.map f).values = t.values.map f) :
    valuesAll (mapAll f ts) = (valuesAll ts).map f := by
  induction ts with
  | nil => rfl
  | cons t ts ih =>
    obtain ⟨ht, hts⟩ := List.forall_mem_cons.mp h
    simp only [mapAll, valuesAll, ht, ih hts, List.map_append]

/-- A search meets the new values where it met the old ones. -/
@[simp] theorem values_map (f : α → β) (t : ErrorTree α) : (t.map f).values = t.values.map f := by
  induction t using wrapped_induction with
  | node value wrapped ih =>
    simp only [map, values, List.map_cons, valuesAll_mapAll ih]

end ErrorTree

end Nzovu.Foundation
