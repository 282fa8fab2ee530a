import Mathlib.Data.Rat.Defs
import Mathlib.Algebra.Order.Ring.Rat
import Mathlib.Tactic.Linarith
import Mathlib.Tactic.Ring
import Nzovu.Foundation.Run

/-!
# Budgets over Time

A machine accepts or refuses requests that arrive in the order of their times. It has a budget when
some level, between zero and a burst, grows at most at a rate and pays one for each accepted
request. It then accepts at most `burst + rate * length` of them in any window of time.
-/

namespace Nzovu.Foundation

variable {σ α : Type} (step : σ → α → Bool × σ) (time : α → ℚ) (counts : α → Bool)

/-- The requests arrive in the order of their times, none before `t`. -/
def Chronological : ℚ → List α → Prop
  | _, [] => True
  | t, a :: rest => t ≤ time a ∧ Chronological (time a) rest

/-- The machine accepts the request, and it counts. -/
def Accepts (s : σ) (a : α) : Prop := counts a = true ∧ (step s a).1 = true

instance (s : σ) (a : α) : Decidable (Accepts step counts s a) :=
  inferInstanceAs (Decidable (_ ∧ _))

/-- How many of the requests between two times count and are accepted. -/
def acceptedWithin (lo hi : ℚ) : σ → List α → Nat
  | _, [] => 0
  | s, a :: rest =>
    (if Accepts step counts s a ∧ lo ≤ time a ∧ time a ≤ hi then 1 else 0) +
      acceptedWithin lo hi (step s a).2 rest

/-- The budget of a machine. `inv s t` says that `s` is the state at the time `t`. -/
structure Budgeted (inv : σ → ℚ → Prop) (level : σ → ℚ → ℚ) (rate burst : ℚ) : Prop where
  rate_nonneg : 0 ≤ rate
  nonneg : ∀ s t, inv s t → 0 ≤ level s t
  le_burst : ∀ s t, inv s t → level s t ≤ burst
  grows : ∀ s t t', inv s t → t ≤ t' → inv s t' ∧ level s t' ≤ level s t + rate * (t' - t)
  pays : ∀ s a, inv s (time a) → inv (step s a).2 (time a) ∧
    level (step s a).2 (time a) + (if Accepts step counts s a then 1 else 0) ≤ level s (time a)

section Windows

variable {step time counts} {inv : σ → ℚ → Prop} {level : σ → ℚ → ℚ} {rate burst : ℚ}
  {lo hi : ℚ} {s : σ} {t : ℚ} {requests : List α}

/-- The requests after a first part of the run start from the state it leaves. -/
theorem acceptedWithin_append (s : σ) (first later : List α) :
    acceptedWithin step time counts lo hi s (first ++ later) =
      acceptedWithin step time counts lo hi s first +
        acceptedWithin step time counts lo hi (runFrom (fun s a => (step s a).2) s first)
          later := by
  induction first generalizing s with
  | nil => simp [acceptedWithin]
  | cons a rest ih => simp only [List.cons_append, acceptedWithin, ih, runFrom_cons, Nat.add_assoc]

/-- Requests of one instant, then later ones. -/
theorem chronological_replicate_append {a : α} (n : Nat) (hle : t ≤ time a)
    (h : Chronological time (time a) requests) :
    Chronological time t (List.replicate n a ++ requests) := by
  induction n generalizing t with
  | zero =>
    cases requests with
    | nil => trivial
    | cons b rest => exact ⟨hle.trans h.1, h.2⟩
  | succ n ih => exact ⟨hle, ih (le_refl _)⟩

/-- Requests after the window do not count. -/
theorem acceptedWithin_of_lt (h : Chronological time t requests) (hlt : hi < t) :
    acceptedWithin step time counts lo hi s requests = 0 := by
  -- requests that arrive later still
  induction requests generalizing s t with
  | nil => rfl
  | cons a rest ih =>
    have hlater : hi < time a := hlt.trans_le h.1
    rw [acceptedWithin, if_neg fun hin => absurd hin.2.2 hlater.not_ge, ih h.2 hlater]

/-- What is accepted until the end of a window is paid by the level and its growth. -/
theorem Budgeted.acceptedWithin_le_level
    (hbudget : Budgeted step time counts inv level rate burst) (hinv : inv s t) (hle : t ≤ hi)
    (h : Chronological time t requests) :
    (acceptedWithin step time counts lo hi s requests : ℚ) ≤ level s t + rate * (hi - t) := by
  -- the level grows up to each request, which takes its own off it
  induction requests generalizing s t with
  | nil =>
    have hlevel := hbudget.nonneg s t hinv
    have hgrowth : 0 ≤ rate * (hi - t) :=
      mul_nonneg hbudget.rate_nonneg (sub_nonneg.mpr hle)
    simp only [acceptedWithin, Nat.cast_zero]
    linarith
  | cons a rest ih =>
    obtain ⟨harrives, hrest⟩ := h
    obtain ⟨hinv', hgrowth⟩ := hbudget.grows s t (time a) hinv harrives
    obtain ⟨hnext, hpays⟩ := hbudget.pays s a hinv'
    by_cases hin : time a ≤ hi
    · have hlater := ih hnext hin hrest
      -- the request itself costs one if it is accepted, wherever the window begins
      have hone : ((if Accepts step counts s a ∧ lo ≤ time a ∧ time a ≤ hi then 1 else 0 : Nat) :
          ℚ) ≤ if Accepts step counts s a then 1 else 0 := by
        by_cases haccepts : Accepts step counts s a
        · rw [if_pos haccepts]
          split <;> simp
        · rw [if_neg haccepts, if_neg fun hboth => haccepts hboth.1]
          simp
      calc (acceptedWithin step time counts lo hi s (a :: rest) : ℚ)
          ≤ (if Accepts step counts s a then 1 else 0) +
              (level (step s a).2 (time a) + rate * (hi - time a)) := by
            rw [acceptedWithin, Nat.cast_add]
            exact add_le_add hone hlater
        _ ≤ level s (time a) + rate * (hi - time a) := by linarith
        _ ≤ level s t + rate * (time a - t) + rate * (hi - time a) := by linarith
        _ = level s t + rate * (hi - t) := by ring
    · have hzero : acceptedWithin step time counts lo hi s (a :: rest) = 0 :=
        acceptedWithin_of_lt (t := time a) ⟨le_refl _, hrest⟩ (not_le.mp hin)
      have hlevel := hbudget.nonneg s t hinv
      have hpos : 0 ≤ rate * (hi - t) := mul_nonneg hbudget.rate_nonneg (sub_nonneg.mpr hle)
      rw [hzero, Nat.cast_zero]
      linarith

/-- **Window rule**: a budget bounds what is accepted in every window. -/
theorem Budgeted.acceptedWithin_le (hbudget : Budgeted step time counts inv level rate burst)
    (hinv : inv s t) (hwindow : lo ≤ hi) (h : Chronological time t requests) :
    (acceptedWithin step time counts lo hi s requests : ℚ) ≤ burst + rate * (hi - lo) := by
  have hlength : 0 ≤ rate * (hi - lo) :=
    mul_nonneg hbudget.rate_nonneg (sub_nonneg.mpr hwindow)
  have hburst : 0 ≤ burst := (hbudget.nonneg s t hinv).trans (hbudget.le_burst s t hinv)
  induction requests generalizing s t with
  | nil =>
    simp only [acceptedWithin, Nat.cast_zero]
    linarith
  | cons a rest ih =>
    obtain ⟨harrives, hrest⟩ := h
    obtain ⟨hinv', -⟩ := hbudget.grows s t (time a) hinv harrives
    by_cases hbefore : time a < lo
    · have hout : ¬ (Accepts step counts s a ∧ lo ≤ time a ∧ time a ≤ hi) := fun hin =>
        absurd hin.2.1 hbefore.not_ge
      rw [acceptedWithin, if_neg hout, Nat.zero_add]
      exact ih (hbudget.pays s a hinv').1 hrest
    · have hchronological : Chronological time (time a) (a :: rest) := ⟨le_refl _, hrest⟩
      by_cases hin : time a ≤ hi
      · -- from the first request in the window on, the level is at most the burst
        have hlevel : (acceptedWithin step time counts lo hi s (a :: rest) : ℚ) ≤
            level s (time a) + rate * (hi - time a) :=
          hbudget.acceptedWithin_le_level hinv' hin hchronological
        have hshorter : rate * (hi - time a) ≤ rate * (hi - lo) :=
          mul_le_mul_of_nonneg_left (by linarith [not_lt.mp hbefore]) hbudget.rate_nonneg
        linarith [hbudget.le_burst s (time a) hinv']
      · rw [acceptedWithin_of_lt hchronological (not_le.mp hin), Nat.cast_zero]
        linarith

end Windows

end Nzovu.Foundation
