import Mathlib.Data.List.Nodup
import Mathlib.Logic.Relation

/-!
# References to Older Nodes

A collection of named nodes, listed from the newest to the oldest, in which a node may refer to
another by its name. When every reference goes to an older node (`Grounded`), references have a
target and no cycle. New nodes and the deletion of nodes that nothing refers to keep this.

`Behind q nodes r` says that no node older than `r` is named `q`. It is kept by the same
operations and by following a reference, so a walk along references that has left `q` never comes
back to it, even when `q` is deleted and created anew on the way.
-/

namespace Nzovu.Foundation

universe u v

variable {α : Type u} {κ : Type v} (name : α → κ) (ref : α → Option κ)

/-! ## Section 1: Grounded references -/

/-- Every reference goes to an older node. -/
def Grounded : List α → Prop
  | [] => True
  | a :: older => (∀ k, ref a = some k → ∃ b ∈ older, name b = k) ∧ Grounded older

/-- The node named `k` refers to `l`. -/
def Refers (nodes : List α) (k l : κ) : Prop := ∃ a ∈ nodes, name a = k ∧ ref a = some l

variable {name ref}

theorem Grounded.exists_target {nodes : List α} (h : Grounded name ref nodes) {k l : κ}
    (hrefers : Refers name ref nodes k l) : ∃ b ∈ nodes, name b = l := by
  induction nodes with
  | nil =>
    obtain ⟨a, ha, -⟩ := hrefers
    exact absurd ha List.not_mem_nil
  | cons a older ih =>
    obtain ⟨b, hb, hname, href⟩ := hrefers
    rcases List.mem_cons.mp hb with rfl | hb
    · obtain ⟨c, hc, hl⟩ := h.1 l href
      exact ⟨c, List.mem_cons_of_mem _ hc, hl⟩
    · obtain ⟨c, hc, hl⟩ := ih h.2 ⟨b, hb, hname, href⟩
      exact ⟨c, List.mem_cons_of_mem _ hc, hl⟩

/-- Deleting the nodes named `k` keeps the references to older nodes when there is none to `k`. -/
theorem Grounded.delete [DecidableEq κ] {nodes : List α} {k : κ} (h : Grounded name ref nodes)
    (hfree : ∀ a ∈ nodes, ref a ≠ some k) :
    Grounded name ref (nodes.filter fun a => name a ≠ k) := by
  induction nodes with
  | nil => trivial
  | cons a older ih =>
    obtain ⟨hfirst, holder⟩ := List.forall_mem_cons.mp hfree
    have hrest := ih h.2 holder
    by_cases ha : name a = k
    · simpa [ha] using hrest
    · rw [List.filter_cons_of_pos (by simpa using ha)]
      refine ⟨fun l hl => ?_, hrest⟩
      obtain ⟨b, hb, rfl⟩ := h.1 l hl
      have hne : name b ≠ k := fun hk => hfirst (hk ▸ hl)
      exact ⟨b, List.mem_filter.mpr ⟨hb, by simpa using hne⟩, rfl⟩

section Acyclic

variable [DecidableEq κ]

/-- How many nodes there are from the newest one named `k` on. -/
def age (name : α → κ) : List α → κ → Nat
  | [], _ => 0
  | a :: older, k => if name a = k then older.length + 1 else age name older k

theorem age_le (nodes : List α) (k : κ) : age name nodes k ≤ nodes.length := by
  induction nodes with
  | nil => exact Nat.le_refl 0
  | cons a older ih =>
    simp only [age, List.length_cons]
    split
    · exact Nat.le_refl _
    · exact Nat.le_succ_of_le ih

/-- A reference goes to a smaller age. -/
theorem Grounded.age_lt {nodes : List α} (h : Grounded name ref nodes)
    (hnodup : (nodes.map name).Nodup) {k l : κ} (hrefers : Refers name ref nodes k l) :
    age name nodes l < age name nodes k := by
  induction nodes with
  | nil =>
    obtain ⟨a, ha, -⟩ := hrefers
    exact absurd ha List.not_mem_nil
  | cons a older ih =>
    obtain ⟨hfresh, hnodup'⟩ := List.nodup_cons.mp hnodup
    have hother : ∀ b ∈ older, name a ≠ name b := fun b hb heq =>
      hfresh (heq ▸ List.mem_map_of_mem hb)
    obtain ⟨b, hb, rfl, href⟩ := hrefers
    rcases List.mem_cons.mp hb with rfl | hb
    · obtain ⟨c, hc, rfl⟩ := h.1 l href
      simp only [age, if_true, hother c hc, if_false]
      exact Nat.lt_succ_of_le (age_le older (name c))
    · obtain ⟨c, hc, rfl⟩ := h.2.exists_target ⟨b, hb, rfl, href⟩
      simp only [age, hother b hb, hother c hc, if_false]
      exact ih h.2 hnodup' ⟨b, hb, rfl, href⟩

/-- **Acyclicity**: no chain of references leads back to where it starts. -/
theorem Grounded.acyclic {nodes : List α} (h : Grounded name ref nodes)
    (hnodup : (nodes.map name).Nodup) (k : κ) :
    ¬ Relation.TransGen (Refers name ref nodes) k k := by
  have hdescends : ∀ {k l}, Relation.TransGen (Refers name ref nodes) k l →
      age name nodes l < age name nodes k := by
    intro k l hpath
    induction hpath with
    | single hstep => exact h.age_lt hnodup hstep
    | tail _ hstep ih => exact Nat.lt_trans (h.age_lt hnodup hstep) ih
  exact fun hcycle => Nat.lt_irrefl _ (hdescends hcycle)

end Acyclic

/-! ## Section 2: Leaving a name behind -/

section Behind

variable [DecidableEq κ]

/-- A node is named `r`, and no older one is named `q`. -/
def Behind (name : α → κ) (q : κ) : List α → κ → Prop
  | [], _ => False
  | a :: older, r => if name a = r then ∀ b ∈ older, name b ≠ q else Behind name q older r

theorem behind_self {nodes : List α} (hnodup : (nodes.map name).Nodup) {q : κ}
    (hmem : ∃ a ∈ nodes, name a = q) : Behind name q nodes q := by
  induction nodes with
  | nil =>
    obtain ⟨a, ha, -⟩ := hmem
    exact absurd ha List.not_mem_nil
  | cons a older ih =>
    obtain ⟨hfresh, hnodup'⟩ := List.nodup_cons.mp hnodup
    simp only [Behind]
    split
    · rename_i hq
      exact fun b hb hname => hfresh (hq ▸ hname ▸ List.mem_map_of_mem hb)
    · rename_i hq
      obtain ⟨b, hb, hname⟩ := hmem
      rcases List.mem_cons.mp hb with rfl | hb
      · exact absurd hname hq
      · exact ih hnodup' ⟨b, hb, hname⟩

theorem Behind.exists_mem {nodes : List α} {q r : κ} (h : Behind name q nodes r) :
    ∃ a ∈ nodes, name a = r := by
  induction nodes with
  | nil => exact h.elim
  | cons a older ih =>
    simp only [Behind] at h
    split at h
    · rename_i hr
      exact ⟨a, List.mem_cons_self, hr⟩
    · obtain ⟨b, hb, hname⟩ := ih h
      exact ⟨b, List.mem_cons_of_mem _ hb, hname⟩

/-- A new node does not come between. -/
theorem Behind.cons {nodes : List α} {q r : κ} (h : Behind name q nodes r) {a : α}
    (ha : ∀ b ∈ nodes, name b ≠ name a) : Behind name q (a :: nodes) r := by
  obtain ⟨b, hb, hname⟩ := h.exists_mem
  simp only [Behind]
  rwa [if_neg fun har => ha b hb (hname.trans har.symm)]

theorem Behind.delete {nodes : List α} {q r k : κ} (h : Behind name q nodes r) (hr : r ≠ k) :
    Behind name q (nodes.filter fun a => name a ≠ k) r := by
  induction nodes with
  | nil => exact h.elim
  | cons a older ih =>
    simp only [Behind] at h
    by_cases ha : name a = k
    · rw [List.filter_cons_of_neg (by simpa using ha)]
      rw [if_neg fun har => hr (har.symm.trans ha)] at h
      exact ih h
    · rw [List.filter_cons_of_pos (by simpa using ha)]
      simp only [Behind]
      split
      · rename_i har
        rw [if_pos har] at h
        exact fun b hb => h b (List.mem_of_mem_filter hb)
      · rename_i har
        rw [if_neg har] at h
        exact ih h

/-- An older node than one that has left `q` behind has left it behind, too. -/
private theorem behind_of_forall {nodes : List α} {q r : κ} (h : ∀ b ∈ nodes, name b ≠ q)
    (hmem : ∃ a ∈ nodes, name a = r) : Behind name q nodes r := by
  induction nodes with
  | nil =>
    obtain ⟨a, ha, -⟩ := hmem
    exact absurd ha List.not_mem_nil
  | cons a older ih =>
    obtain ⟨-, holder⟩ := List.forall_mem_cons.mp h
    simp only [Behind]
    split
    · exact holder
    · rename_i har
      obtain ⟨b, hb, hname⟩ := hmem
      rcases List.mem_cons.mp hb with rfl | hb
      · exact absurd hname har
      · exact ih holder ⟨b, hb, hname⟩

/-- **Following a reference** leaves `q` behind for good: the target is another node than `q`, and
nothing older is named `q`. -/
theorem Behind.refers {nodes : List α} {q r l : κ} (h : Behind name q nodes r)
    (hgrounded : Grounded name ref nodes) (hnodup : (nodes.map name).Nodup)
    (hrefers : Refers name ref nodes r l) : Behind name q nodes l ∧ l ≠ q := by
  induction nodes with
  | nil => exact h.elim
  | cons a older ih =>
    obtain ⟨hfresh, hnodup'⟩ := List.nodup_cons.mp hnodup
    have hother : ∀ b ∈ older, name a ≠ name b := fun b hb heq =>
      hfresh (heq ▸ List.mem_map_of_mem hb)
    obtain ⟨b, hb, hname, href⟩ := hrefers
    simp only [Behind] at h
    rcases List.mem_cons.mp hb with rfl | hb
    · -- The newest node refers to an older one.
      rw [if_pos hname] at h
      obtain ⟨c, hc, rfl⟩ := hgrounded.1 l href
      have hbehind := behind_of_forall h ⟨c, hc, rfl⟩
      refine ⟨?_, h c hc⟩
      simp only [Behind]
      rwa [if_neg (hother c hc)]
    · rw [if_neg fun har => hother b hb (har.trans hname.symm)] at h
      obtain ⟨hbehind, hne⟩ := ih h hgrounded.2 hnodup' ⟨b, hb, hname, href⟩
      obtain ⟨c, hc, hcl⟩ := hbehind.exists_mem
      refine ⟨?_, hne⟩
      simp only [Behind]
      rwa [if_neg fun hal => hother c hc (hal.trans hcl.symm)]

end Behind

end Nzovu.Foundation
