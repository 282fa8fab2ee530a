import Mathlib.Data.List.Basic
import Mathlib.Data.List.Nodup

/-!
# Finite Maps

Maps with finitely many keys, as lists of entries without a repeated key. The order of the entries
has no meaning.
-/

namespace Nzovu.Foundation

/-- A map from `κ` to `ν`; each key has at most one entry. -/
structure FiniteMap (κ ν : Type) where
  entries : List (κ × ν)
  nodup : (entries.map Prod.fst).Nodup

namespace FiniteMap

variable {κ ν : Type}

/-! ## Section 1: Operations -/

def empty : FiniteMap κ ν := ⟨[], List.nodup_nil⟩

/-- The map with one entry. -/
def single (key : κ) (value : ν) : FiniteMap κ ν := ⟨[(key, value)], List.nodup_singleton key⟩

/-- The number of keys. -/
def size (m : FiniteMap κ ν) : Nat := m.entries.length

/-- The entries that `keep` accepts. -/
def filter (m : FiniteMap κ ν) (keep : κ → ν → Bool) : FiniteMap κ ν where
  entries := m.entries.filter fun e => keep e.1 e.2
  nodup := m.nodup.sublist (List.filter_sublist.map Prod.fst)

variable [DecidableEq κ]

/-- The value of a key. -/
def get? (m : FiniteMap κ ν) (key : κ) : Option ν :=
  (m.entries.find? fun e => e.1 = key).map Prod.snd

/-- The map in which the key has the value. -/
def set (m : FiniteMap κ ν) (key : κ) (value : ν) : FiniteMap κ ν where
  entries := (key, value) :: m.entries.filter fun e => e.1 ≠ key
  nodup := by
    rw [List.map_cons, List.nodup_cons]
    refine ⟨fun hmem => ?_, m.nodup.sublist (List.filter_sublist.map Prod.fst)⟩
    obtain ⟨e, he, rfl⟩ := List.mem_map.mp hmem
    simpa using (List.mem_filter.mp he).2

/-! ## Section 2: Values of keys -/

theorem get?_eq_some {m : FiniteMap κ ν} {key : κ} {value : ν} :
    m.get? key = some value ↔ (key, value) ∈ m.entries := by
  constructor
  · intro h
    obtain ⟨e, hfind, rfl⟩ := Option.map_eq_some_iff.mp h
    obtain rfl : e.1 = key := by simpa using List.find?_some hfind
    exact List.mem_of_find?_eq_some hfind
  · intro hmem
    cases hfind : m.entries.find? fun e => e.1 = key with
    | none =>
      have hmissed := List.find?_eq_none.mp hfind _ hmem
      simp at hmissed
    | some e =>
      -- two entries of one key are the same entry
      have hkey : e.1 = key := by simpa using List.find?_some hfind
      have hsame : e = (key, value) :=
        List.inj_on_of_nodup_map m.nodup (List.mem_of_find?_eq_some hfind) hmem hkey
      rw [get?, hfind, hsame]
      rfl

theorem get?_filter (m : FiniteMap κ ν) (keep : κ → ν → Bool) (key : κ) :
    (m.filter keep).get? key = (m.get? key).filter (keep key) := by
  apply Option.ext
  intro value
  rw [get?_eq_some, Option.filter_eq_some_iff, get?_eq_some]
  exact List.mem_filter

theorem get?_set (m : FiniteMap κ ν) (key : κ) (value : ν) (key' : κ) :
    (m.set key value).get? key' = if key' = key then some value else m.get? key' := by
  apply Option.ext
  intro value'
  rw [get?_eq_some]
  simp only [set, List.mem_cons, List.mem_filter, decide_eq_true_eq]
  by_cases h : key' = key
  · subst h
    simp [eq_comm]
  · simp [h, get?_eq_some]

@[simp] theorem get?_empty (key : κ) : (empty : FiniteMap κ ν).get? key = none := rfl

@[simp] theorem get?_single (key : κ) (value : ν) : (single key value).get? key = some value :=
  get?_eq_some.mpr List.mem_cons_self

theorem set_single (key : κ) (value value' : ν) :
    (single key value).set key value' = single key value' := by
  simp [single, set]

end FiniteMap

end Nzovu.Foundation
