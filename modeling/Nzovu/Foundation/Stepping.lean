import Mathlib.Data.Int.ConditionallyCompleteOrder
import Mathlib.Data.Int.Interval
import Mathlib.Data.Nat.Find
import Mathlib.Order.ConditionallyCompleteLattice.Basic

/-!
# Stepping through a Set of Integers

The members of a set of integers follow one another. `Steps p k m t` says that `t` is `k` members
further than `m`; going back is going forward in the mirror image of the set.

- Section 1: one step.
- Section 2: several steps.
- Section 3: how far they lead.
- Section 4: steps in either direction.
- Section 5: how many members are passed.
-/

namespace Nzovu.Foundation

variable {p : Int → Prop} {k : Nat} {m n t u : Int}

/-! ## Section 1: One step -/

/-- `n` is the next member after `m`. -/
structure NextMember (p : Int → Prop) (m n : Int) : Prop where
  lt : m < n
  mem : p n
  between : ∀ j, m < j → j < n → ¬ p j

theorem NextMember.unique (h : NextMember p m n) (h' : NextMember p m t) : n = t := by
  -- the smaller of the two would lie between
  rcases Int.lt_trichotomy n t with hlt | heq | hlt
  · exact absurd h.mem (h'.between n h.lt hlt)
  · exact heq
  · exact absurd h'.mem (h.between t h'.lt hlt)

theorem exists_nextMember (h : ∃ n, m < n ∧ p n) : ∃ n, NextMember p m n := by
  obtain ⟨n, hlt, hn⟩ := h
  -- the smallest distance at which there is a member
  obtain ⟨d, rfl⟩ := Int.le.dest hlt
  have hsome : ∃ d : Nat, p (m + 1 + d) := ⟨d, hn⟩
  classical
  refine ⟨m + 1 + Nat.find hsome, by omega, Nat.find_spec hsome, fun j hj hlt => ?_⟩
  obtain ⟨i, rfl⟩ := Int.le.dest hj
  exact Nat.find_min hsome (by omega)

/-- In the mirror image the members follow one another the other way round. -/
theorem NextMember.mirror (h : NextMember p m n) (hm : p m) :
    NextMember (fun j => p (-j)) (-n) (-m) := by
  refine ⟨?_, ?_, fun j hj hlt hmem => ?_⟩
  · have hlt := h.lt
    omega
  · simpa using hm
  · exact h.between (-j) (by omega) (by omega) hmem

/-! ## Section 2: Several steps -/

/-- `t` is `k` members further than `m`. -/
inductive Steps (p : Int → Prop) : Nat → Int → Int → Prop where
  | stay (m : Int) : Steps p 0 m m
  | step {k : Nat} {m n t : Int} : NextMember p m n → Steps p k n t → Steps p (k + 1) m t

theorem Steps.unique (h : Steps p k m t) (h' : Steps p k m u) : t = u := by
  induction h with
  | stay =>
    cases h'
    rfl
  | step hnext _ ih =>
    cases h' with
    | step hnext' hrest => exact ih (hnext.unique hnext' ▸ hrest)

theorem Steps.mem (h : Steps p k m t) (hm : p m) : p t := by
  induction h with
  | stay => exact hm
  | step hnext _ ih => exact ih hnext.mem

theorem Steps.le (h : Steps p k m t) : m ≤ t := by
  induction h with
  | stay => exact Int.le_refl _
  | step hnext _ ih =>
    have hlt := hnext.lt
    omega

theorem Steps.lt (h : Steps p k m t) (hk : 0 < k) : m < t := by
  cases h with
  | stay => exact absurd hk (Nat.lt_irrefl 0)
  | step hnext hrest => exact Int.lt_of_lt_of_le hnext.lt hrest.le

/-- One more step at the end. -/
theorem Steps.snoc (h : Steps p k m t) (hnext : NextMember p t u) : Steps p (k + 1) m u := by
  induction h with
  | stay => exact .step hnext (.stay u)
  | step hfirst _ ih => exact .step hfirst (ih hnext)

/-- The way back. -/
theorem Steps.mirror (h : Steps p k m t) (hm : p m) :
    Steps (fun j => p (-j)) k (-t) (-m) := by
  induction h with
  | stay => exact .stay _
  | step hnext _ ih => exact (ih hnext.mem).snoc (hnext.mirror hm)

/-- Steps one after the other. -/
theorem Steps.append (h : Steps p j m t) (h' : Steps p k t u) : Steps p (j + k) m u := by
  induction h with
  | stay => rwa [Nat.zero_add]
  | step hnext _ ih =>
    rw [Nat.add_right_comm]
    exact .step hnext (ih h')

theorem Steps.split (h : Steps p (j + k) m u) : ∃ t, Steps p j m t ∧ Steps p k t u := by
  induction j generalizing m with
  | zero => exact ⟨m, .stay m, by rwa [Nat.zero_add] at h⟩
  | succ j ih =>
    rw [Nat.add_right_comm] at h
    cases h with
    | step hnext hrest =>
      obtain ⟨t, hfirst, hlater⟩ := ih hrest
      exact ⟨t, .step hnext hfirst, hlater⟩

/-- The next place is a member, or it is passed. -/
theorem steps_of_mem (h : p (m + 1)) : Steps p (k + 1) m t ↔ Steps p k (m + 1) t := by
  have hnext : NextMember p m (m + 1) := ⟨by omega, h, fun j hj hlt => by omega⟩
  constructor
  · rintro (_ | ⟨hfirst, hrest⟩)
    exact hnext.unique hfirst ▸ hrest
  · exact .step hnext

theorem steps_of_notMem (h : ¬ p (m + 1)) : Steps p (k + 1) m t ↔ Steps p (k + 1) (m + 1) t := by
  constructor
  · rintro (_ | ⟨hnext, hrest⟩)
    have hlt := hnext.lt
    have hne : _ ≠ m + 1 := fun heq => h (heq ▸ hnext.mem)
    exact .step ⟨by omega, hnext.mem, fun j hj => hnext.between j (by omega)⟩ hrest
  · rintro (_ | ⟨hnext, hrest⟩)
    refine .step ⟨by have := hnext.lt; omega, hnext.mem, fun j hj hlt => ?_⟩ hrest
    rcases Int.lt_or_eq_of_le (Int.add_one_le_of_lt hj) with hlater | heq
    · exact hnext.between j hlater hlt
    · exact heq ▸ h

theorem nextMember_add (c : Int) :
    NextMember (fun i => p (c + i)) m n ↔ NextMember p (c + m) (c + n) := by
  constructor
  · refine fun h => ⟨by have := h.lt; omega, h.mem, fun j hj hlt hmem => ?_⟩
    exact h.between (j - c) (by omega) (by omega) (by rwa [show c + (j - c) = j by omega])
  · exact fun h => ⟨by have := h.lt; omega, h.mem,
      fun j hj hlt => h.between _ (by omega) (by omega)⟩

/-- Steps do not depend on where the numbers begin. -/
theorem steps_add (c : Int) : Steps (fun i => p (c + i)) k m t ↔ Steps p k (c + m) (c + t) := by
  induction k generalizing m with
  | zero =>
    constructor
    · rintro ⟨⟩
      exact .stay _
    · intro h
      have hsame : c + m = c + t := (Steps.stay _).unique h
      obtain rfl : m = t := by omega
      exact .stay m
  | succ k ih =>
    constructor
    · rintro (_ | ⟨hnext, hrest⟩)
      exact .step ((nextMember_add c).mp hnext) (ih.mp hrest)
    · intro h
      cases h with
      | @step _ _ n _ hnext hrest =>
        have hplace : c + (n - c) = n := by omega
        rw [← hplace] at hnext hrest
        exact .step ((nextMember_add c).mpr hnext) (ih.mpr hrest)

/-! ## Section 3: How far they lead -/

/-- The same number of steps from a later member leads to a later one. -/
theorem Steps.lt_of_lt (h : Steps p k m t) (h' : Steps p k n u) (hn : p n) (hlt : m < n) :
    t < u := by
  induction h generalizing n with
  | stay =>
    cases h'
    exact hlt
  | step hnext _ ih =>
    cases h' with
    | step hnext' hrest =>
      -- the next member after `m` is `n` at the latest
      refine ih hrest hnext'.mem ?_
      by_contra hle
      have hlater := hnext'.lt
      exact hnext.between n hlt (by omega) hn

theorem Steps.injective (h : Steps p k m t) (h' : Steps p k n t) (hm : p m) (hn : p n) :
    m = n := by
  rcases Int.lt_trichotomy m n with hlt | heq | hlt
  · exact absurd (h.lt_of_lt h' hn hlt) (Int.lt_irrefl t)
  · exact heq
  · exact absurd (h'.lt_of_lt h hm hlt) (Int.lt_irrefl t)

/-- What is left of the steps after the first of them. -/
theorem Steps.cancel_left (h : Steps p (j + k) m u) (h' : Steps p j m t) : Steps p k t u := by
  obtain ⟨t', hfirst, hlater⟩ := h.split
  exact h'.unique hfirst ▸ hlater

/-- And before the last. -/
theorem Steps.cancel_right (h : Steps p (j + k) m u) (h' : Steps p k t u) (hm : p m) (ht : p t) :
    Steps p j m t := by
  obtain ⟨t', hfirst, hlater⟩ := h.split
  exact hlater.injective h' (hfirst.mem hm) ht ▸ hfirst

/-- In a set without a last member one can always go on. -/
theorem exists_steps (h : ∀ m, ∃ n, m < n ∧ p n) (k : Nat) (m : Int) : ∃ t, Steps p k m t := by
  induction k generalizing m with
  | zero => exact ⟨m, .stay m⟩
  | succ k ih =>
    obtain ⟨n, hnext⟩ := exists_nextMember (h m)
    obtain ⟨t, hsteps⟩ := ih n
    exact ⟨t, .step hnext hsteps⟩

/-- In a set without a first member one can always have come from somewhere. -/
theorem exists_steps_to (h : ∀ m, ∃ n, n < m ∧ p n) (k : Nat) (ht : p t) :
    ∃ m, p m ∧ Steps p k m t := by
  -- forward in the mirror image
  have hmirror : ∀ m, ∃ n, m < n ∧ p (-n) := by
    intro m
    obtain ⟨n, hlt, hn⟩ := h (-m)
    exact ⟨-n, by omega, by simpa using hn⟩
  obtain ⟨m, hsteps⟩ := exists_steps (p := fun j => p (-j)) hmirror k (-t)
  have hback := hsteps.mirror (by simpa using ht)
  simp only [Int.neg_neg] at hback
  exact ⟨-m, hsteps.mem (by simpa using ht), hback⟩

/-! ## Section 4: Steps in either direction -/

/-- `t` is the member `k` further than the member `m`; before it, if `k` is negative. -/
structure Shifted (p : Int → Prop) (k m t : Int) : Prop where
  base : p m
  target : p t
  steps : if 0 ≤ k then Steps p k.toNat m t else Steps p (-k).toNat t m

theorem Shifted.lt_of_lt {k : Int} (h : Shifted p k m t) (h' : Shifted p k n u) (hlt : m < n) :
    t < u := by
  obtain ⟨-, ht, hsteps⟩ := h
  obtain ⟨hn, hu, hsteps'⟩ := h'
  by_cases hk : 0 ≤ k
  · rw [if_pos hk] at hsteps hsteps'
    exact hsteps.lt_of_lt hsteps' hn hlt
  · rw [if_neg hk] at hsteps hsteps'
    -- were the target not earlier, the base would not be either
    rcases Int.lt_trichotomy t u with hbefore | rfl | hafter
    · exact hbefore
    · obtain rfl := hsteps.unique hsteps'
      exact absurd hlt (Int.lt_irrefl m)
    · have hback := hsteps'.lt_of_lt hsteps ht hafter
      omega

/-- A shift leads to the side that its sign says. -/
theorem Shifted.sign_sub {k : Int} (h : Shifted p k m t) : (t - m).sign = k.sign := by
  obtain ⟨-, -, hsteps⟩ := h
  rcases Int.lt_trichotomy k 0 with hneg | rfl | hpos
  · rw [if_neg (by omega)] at hsteps
    have hlt := hsteps.lt (by omega)
    rw [Int.sign_eq_neg_one_of_neg hneg, Int.sign_eq_neg_one_of_neg (by omega)]
  · -- no step at all
    rw [if_pos (Int.le_refl 0)] at hsteps
    obtain rfl := hsteps.unique (.stay m)
    rw [Int.sub_self]
  · rw [if_pos (by omega)] at hsteps
    have hlt := hsteps.lt (by omega)
    rw [Int.sign_eq_one_of_pos hpos, Int.sign_eq_one_of_pos (by omega)]

theorem Shifted.unique {k : Int} (h : Shifted p k m t) (h' : Shifted p k m u) : t = u := by
  by_cases hk : 0 ≤ k
  · have hsteps := h.steps
    have hsteps' := h'.steps
    rw [if_pos hk] at hsteps hsteps'
    exact hsteps.unique hsteps'
  · have hsteps := h.steps
    have hsteps' := h'.steps
    rw [if_neg hk] at hsteps hsteps'
    exact hsteps.injective hsteps' h.target h'.target

/-- Shifts add up. -/
theorem Shifted.add {a b : Int} (h : Shifted p a m t) (h' : Shifted p b t u) :
    Shifted p (a + b) m u := by
  refine ⟨h.base, h'.target, ?_⟩
  have hfirst := h.steps
  have hsecond := h'.steps
  by_cases ha : 0 ≤ a
  · rw [if_pos ha] at hfirst
    by_cases hb : 0 ≤ b
    · rw [if_pos hb] at hsecond
      rw [if_pos (by omega), Int.toNat_add ha hb]
      exact hfirst.append hsecond
    · -- the second shift takes back steps of the first, or more than these
      rw [if_neg hb] at hsecond
      by_cases hab : 0 ≤ a + b
      · rw [if_pos hab]
        rw [show a.toNat = (a + b).toNat + (-b).toNat by omega] at hfirst
        exact hfirst.cancel_right hsecond h.base h'.target
      · rw [if_neg hab]
        rw [show (-b).toNat = (-(a + b)).toNat + a.toNat by omega] at hsecond
        exact hsecond.cancel_right hfirst h'.target h.base
  · rw [if_neg ha] at hfirst
    by_cases hb : 0 ≤ b
    · rw [if_pos hb] at hsecond
      by_cases hab : 0 ≤ a + b
      · rw [if_pos hab]
        rw [show b.toNat = (-a).toNat + (a + b).toNat by omega] at hsecond
        exact hsecond.cancel_left hfirst
      · rw [if_neg hab]
        rw [show (-a).toNat = b.toNat + (-(a + b)).toNat by omega] at hfirst
        exact hfirst.cancel_left hsecond
    · rw [if_neg hb] at hsecond
      rw [if_neg (by omega), show (-(a + b)).toNat = (-b).toNat + (-a).toNat by omega]
      exact hsecond.append hfirst

section Unbounded

variable (habove : ∀ m, ∃ n, m < n ∧ p n) (hbelow : ∀ m, ∃ n, n < m ∧ p n)
include habove hbelow

theorem exists_shifted (k : Int) (hm : p m) : ∃ t, Shifted p k m t := by
  by_cases hk : 0 ≤ k
  · obtain ⟨t, hsteps⟩ := exists_steps habove k.toNat m
    exact ⟨t, hm, hsteps.mem hm, by rwa [if_pos hk]⟩
  · obtain ⟨t, ht, hsteps⟩ := exists_steps_to hbelow (-k).toNat hm
    exact ⟨t, hm, ht, by rwa [if_neg hk]⟩

/-- Every member is one to which another is shifted. -/
theorem exists_shifted_to (k : Int) (ht : p t) : ∃ m, Shifted p k m t := by
  by_cases hk : 0 ≤ k
  · obtain ⟨m, hm, hsteps⟩ := exists_steps_to hbelow k.toNat ht
    exact ⟨m, hm, ht, by rwa [if_pos hk]⟩
  · obtain ⟨m, hsteps⟩ := exists_steps habove (-k).toNat t
    exact ⟨m, hsteps.mem ht, ht, by rwa [if_neg hk]⟩

end Unbounded

/-! ## Section 5: How many members are passed -/

section Counting

variable [DecidablePred p]

/-- One step passes one member, the next. -/
theorem NextMember.filter_Ioc (h : NextMember p m n) : (Finset.Ioc m n).filter p = {n} := by
  ext j
  simp only [Finset.mem_filter, Finset.mem_Ioc, Finset.mem_singleton]
  constructor
  · rintro ⟨⟨hj, hle⟩, hmem⟩
    by_contra hne
    exact h.between j hj (by omega) hmem
  · rintro rfl
    exact ⟨⟨h.lt, Int.le_refl _⟩, h.mem⟩

/-- With the last member and without the first place, as many are passed as there are steps. -/
theorem Steps.card_Ioc (h : Steps p k m t) : ((Finset.Ioc m t).filter p).card = k := by
  induction h with
  | stay => simp
  | @step k m n t hnext hrest ih =>
    have hdisjoint : Disjoint ((Finset.Ioc m n).filter p) ((Finset.Ioc n t).filter p) :=
      Finset.disjoint_filter_filter (Finset.Ioc_disjoint_Ioc_of_le (Int.le_refl n))
    rw [← Finset.Ioc_union_Ioc_eq_Ioc (Int.le_of_lt hnext.lt) hrest.le, Finset.filter_union,
      Finset.card_union_of_disjoint hdisjoint, hnext.filter_Ioc, ih, Finset.card_singleton]
    omega

/-- With the first member instead of the last, as many. -/
theorem Steps.card_Ico (h : Steps p k m t) (hm : p m) :
    ((Finset.Ico m t).filter p).card = k := by
  have hfirst : (Finset.Icc m t).filter p = insert m ((Finset.Ioc m t).filter p) := by
    rw [← Finset.Ioc_insert_left h.le, Finset.filter_insert, if_pos hm]
  have hlast : (Finset.Icc m t).filter p = insert t ((Finset.Ico m t).filter p) := by
    rw [← Finset.Ico_insert_right h.le, Finset.filter_insert, if_pos (h.mem hm)]
  -- either end is one more
  have hcard := congrArg Finset.card (hfirst.symm.trans hlast)
  rw [Finset.card_insert_of_notMem (by simp), Finset.card_insert_of_notMem (by simp),
    h.card_Ioc] at hcard
  omega

/-- Forward or backward, as many members as the shift counts lie between its ends. -/
theorem Shifted.card_Ioc {k : Int} (h : Shifted p k m t) :
    ((Finset.Ioc (min m t) (max m t)).filter p).card = k.natAbs := by
  obtain ⟨-, -, hsteps⟩ := h
  split at hsteps
  · have hle := hsteps.le
    rw [min_eq_left hle, max_eq_right hle, hsteps.card_Ioc]
    omega
  · have hle := hsteps.le
    rw [min_eq_right hle, max_eq_left hle, hsteps.card_Ioc]
    omega

theorem Shifted.card_Ico {k : Int} (h : Shifted p k m t) :
    ((Finset.Ico (min m t) (max m t)).filter p).card = k.natAbs := by
  obtain ⟨hm, ht, hsteps⟩ := h
  split at hsteps
  · have hle := hsteps.le
    rw [min_eq_left hle, max_eq_right hle, hsteps.card_Ico hm]
    omega
  · have hle := hsteps.le
    rw [min_eq_right hle, max_eq_left hle, hsteps.card_Ico ht]
    omega

end Counting

end Nzovu.Foundation
