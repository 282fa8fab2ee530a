import Mathlib.Data.List.Basic
import Mathlib.Logic.Function.Iterate

/-!
# Finding One Value after the Other

A partial function `next` finds a value later than the one it is asked for. Asked again and again,
each time `stride` past the value it has just found, it walks through a sequence of values.

- Section 1: finite walks.
- Section 2: the values a walk reaches.
- Section 3: values in slots.
-/

namespace Nzovu.Foundation

variable {ε : Type*} {next : Int → Except ε Int} {stride start t : Int}

/-- A function that finds later values only. -/
def FindsLater (next : Int → Except ε Int) : Prop := ∀ s t, next s = .ok t → s < t

/-! ## Section 1: Finite walks -/

/-- The values found one after the other. -/
inductive Successive (next : Int → Except ε Int) (stride : Int) : Int → List Int → Prop
  | nil {start : Int} : Successive next stride start []
  | cons {start t : Int} {rest : List Int} (hnext : next start = .ok t)
      (hrest : Successive next stride (t + stride) rest) :
      Successive next stride start (t :: rest)

theorem Successive.lt {values : List Int} (h : Successive next stride start values)
    (hlater : FindsLater next) (hstride : 0 ≤ stride) {t : Int} (ht : t ∈ values) : start < t := by
  induction h with
  | nil => cases ht
  | cons hnext _ ih =>
    have hfirst := hlater _ _ hnext
    rcases List.mem_cons.mp ht with rfl | ht
    · exact hfirst
    · have hrest := ih ht
      omega

/-- The first value is the least. -/
theorem Successive.head_le {rest : List Int} {t : Int}
    (h : Successive next stride start (t :: rest)) (hlater : FindsLater next)
    (hstride : 0 ≤ stride) {u : Int} (hu : u ∈ t :: rest) : t ≤ u := by
  cases h with
  | cons _ hrest =>
    rcases List.mem_cons.mp hu with rfl | hu
    · exact Int.le_refl _
    · have hlt := hrest.lt hlater hstride hu
      omega

/-- A walk asked again from one of its values, without a stride, goes on as it did. -/
theorem Successive.restart {earlier later : List Int} {t : Int}
    (h : Successive next 0 start (earlier ++ t :: later)) : Successive next 0 t later := by
  induction earlier generalizing start with
  | nil =>
    cases h with
    | cons _ hrest => rwa [Int.add_zero] at hrest
  | cons first rest ih =>
    cases h with
    | cons _ hrest => exact ih hrest

/-- A function that always finds a value is walked through by iteration. -/
theorem successive_iff_map {f : Int → Int} (hnext : ∀ s, next s = .ok (f s)) {values : List Int} :
    Successive next stride start values ↔
      values = (List.range values.length).map fun n => (fun t => f (t + stride))^[n] (f start) := by
  induction values generalizing start with
  | nil => simp [Successive.nil]
  | cons t rest ih =>
    have hshift : ∀ n, (fun t => f (t + stride))^[n + 1] (f start) =
        (fun t => f (t + stride))^[n] (f (f start + stride)) :=
      fun n => Function.iterate_succ_apply _ _ _
    simp only [List.length_cons, List.range_succ_eq_map, List.map_cons, List.map_map,
      List.cons.injEq, Function.iterate_zero_apply, Function.comp_def, Nat.succ_eq_add_one, hshift]
    constructor
    · intro h
      cases h with
      | cons hfound hrest =>
        rw [hnext, Except.ok.injEq] at hfound
        subst hfound
        exact ⟨rfl, ih.mp hrest⟩
    · rintro ⟨rfl, hrest⟩
      exact .cons (hnext start) (ih.mpr hrest)

/-! ## Section 2: The values a walk reaches -/

/-- The walk from `start` comes to `t`. -/
inductive Reaches (next : Int → Except ε Int) (stride start : Int) : Int → Prop
  | first {t : Int} (hnext : next start = .ok t) : Reaches next stride start t
  | step {t u : Int} (h : Reaches next stride start t) (hnext : next (t + stride) = .ok u) :
      Reaches next stride start u

theorem Reaches.lt (h : Reaches next stride start t) (hlater : FindsLater next)
    (hstride : 0 ≤ stride) : start < t := by
  induction h with
  | first hnext => exact hlater _ _ hnext
  | step _ hnext ih =>
    have hlt := hlater _ _ hnext
    omega

/-- The value is found by one call. -/
theorem Reaches.found (h : Reaches next stride start t) : ∃ s, next s = .ok t := by
  cases h with
  | first hnext => exact ⟨_, hnext⟩
  | step _ hnext => exact ⟨_, hnext⟩

/-! ## Section 3: Slots -/

/-- Values come in slots. A walk that never gets past slot `K`, whose values are the first from `x`
on, comes to slot `K`. -/
theorem Reaches.exists_mem {offers : Int → List Int} {K x : Int} (hlater : FindsLater next)
    (hstride : 0 ≤ stride) (hbefore : ∀ k < K, ∀ t ∈ offers k, t < x)
    (hfirst : ∃ t k, next start = .ok t ∧ t ∈ offers k ∧ k ≤ K)
    (hstep : ∀ k < K, ∀ t ∈ offers k, start < t →
      ∃ u j, next (t + stride) = .ok u ∧ u ∈ offers j ∧ j ≤ K) :
    ∃ t ∈ offers K, Reaches next stride start t := by
  -- the distance to `x` shrinks with every value
  have hwalk : ∀ n : Nat, ∀ t k, Reaches next stride start t → t ∈ offers k → k ≤ K →
      (x - t).toNat ≤ n → ∃ t ∈ offers K, Reaches next stride start t := by
    intro n
    induction n with
    | zero =>
      intro t k hreach ht hk hn
      rcases Int.lt_or_eq_of_le hk with hlt | rfl
      · have hx := hbefore k hlt t ht
        omega
      · exact ⟨t, ht, hreach⟩
    | succ n ih =>
      intro t k hreach ht hk hn
      rcases Int.lt_or_eq_of_le hk with hlt | rfl
      · obtain ⟨u, j, hnext, hu, hj⟩ := hstep k hlt t ht (hreach.lt hlater hstride)
        have hgrows := hlater _ _ hnext
        have hx := hbefore k hlt t ht
        exact ih u j (hreach.step hnext) hu hj (by omega)
      · exact ⟨t, ht, hreach⟩
  obtain ⟨t, k, hnext, ht, hk⟩ := hfirst
  exact hwalk _ t k (.first hnext) ht hk (Nat.le_refl _)

end Nzovu.Foundation
