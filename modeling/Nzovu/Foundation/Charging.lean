import Mathlib.Algebra.Order.BigOperators.Group.List
import Nzovu.Foundation.Budget

/-!
# Charging Calls to Clients

A machine in front of which each call is either turned away or charged to a client as a request.

- Section 1: the machine behind the gate.
- Section 2: callers with several clients.
-/

namespace Nzovu.Foundation

/-! ## Section 1: Behind the gate -/

section Gate

variable {σ α γ : Type} (step : σ → α → Bool × σ) (charge : γ → Option α)

/-- A call that is turned away does not reach the machine. -/
def chargedStep (s : σ) (c : γ) : Bool × σ :=
  match charge c with
  | none => (false, s)
  | some a => step s a

variable {step charge}

/-- The machine only sees the requests that were charged. -/
theorem runFrom_chargedStep (s : σ) (calls : List γ) :
    runFrom (fun s c => (chargedStep step charge s c).2) s calls =
      runFrom (fun s a => (step s a).2) s (calls.filterMap charge) := by
  induction calls generalizing s with
  | nil => rfl
  | cons c rest ih =>
    rw [runFrom_cons, ih]
    cases hcharge : charge c with
    | none => rw [List.filterMap_cons_none hcharge, chargedStep, hcharge]
    | some a => rw [List.filterMap_cons_some hcharge, runFrom_cons, chargedStep, hcharge]

/-- Charged at the times of their calls, the requests are as chronological as the calls. -/
theorem chronological_filterMap {time : α → ℚ} {time' : γ → ℚ}
    (htime : ∀ c a, charge c = some a → time a = time' c) {t : ℚ} {calls : List γ}
    (h : Chronological time' t calls) : Chronological time t (calls.filterMap charge) := by
  -- what comes after a later time comes after an earlier one
  have hearlier : ∀ {t t' : ℚ} {requests : List α}, t ≤ t' → Chronological time t' requests →
      Chronological time t requests := by
    intro t t' requests hle hrequests
    cases requests with
    | nil => trivial
    | cons a rest => exact ⟨hle.trans hrequests.1, hrequests.2⟩
  induction calls generalizing t with
  | nil => trivial
  | cons c rest ih =>
    have hrest := ih h.2
    cases hcharge : charge c with
    | none =>
      rw [List.filterMap_cons_none hcharge]
      exact hearlier h.1 hrest
    | some a =>
      rw [List.filterMap_cons_some hcharge]
      have hsame := htime c a hcharge
      exact ⟨hsame ▸ h.1, hsame ▸ hrest⟩

/-- The budget of the machine is one for the calls. -/
theorem Budgeted.charged {time : α → ℚ} {time' : γ → ℚ} {counts : α → Bool}
    {inv : σ → ℚ → Prop} {level : σ → ℚ → ℚ} {rate burst : ℚ}
    (h : Budgeted step time counts inv level rate burst)
    (htime : ∀ c a, charge c = some a → time a = time' c) :
    Budgeted (chargedStep step charge) time' (fun c => (charge c).any counts) inv level rate
      burst where
  rate_nonneg := h.rate_nonneg
  nonneg := h.nonneg
  le_burst := h.le_burst
  grows := h.grows
  pays s c hinv := by
    cases hcharge : charge c with
    | none => simpa [chargedStep, Accepts, hcharge] using hinv
    | some a =>
      rw [← htime c a hcharge] at hinv ⊢
      have haccepts : Accepts (chargedStep step charge) (fun c => (charge c).any counts) s c ↔
          Accepts step counts s a := by
        simp only [Accepts, chargedStep, hcharge, Option.any_some]
      rw [if_congr haccepts rfl rfl, chargedStep, hcharge]
      exact h.pays s a hinv

end Gate

/-! ## Section 2: Several clients -/

section Several

variable {σ α κ : Type} {step : σ → α → Bool × σ} {time : α → ℚ} {counts : α → Bool}

/-- What is accepted is accepted for one of the clients. -/
theorem acceptedWithin_le_sum (clients : List κ) (of : κ → α → Bool) {lo hi : ℚ} {s : σ}
    {requests : List α}
    (h : ∀ a ∈ requests, ∀ s, Accepts step counts s a → ∃ k ∈ clients, of k a = true) :
    acceptedWithin step time counts lo hi s requests ≤
      (clients.map fun k => acceptedWithin step time (of k) lo hi s requests).sum := by
  induction requests generalizing s with
  | nil => simp [acceptedWithin]
  | cons a rest ih =>
    have hrest := @ih (step s a).2 fun b hb => h b (List.mem_cons_of_mem _ hb)
    simp only [acceptedWithin, List.sum_map_add]
    refine Nat.add_le_add ?_ hrest
    -- the request itself counts for the client it is accepted for
    split
    · rename_i hin
      obtain ⟨k, hk, hof⟩ := h a List.mem_cons_self s hin.1
      refine List.single_le_sum (fun _ _ => Nat.zero_le _) _ (List.mem_map.mpr ⟨k, hk, ?_⟩)
      exact if_pos ⟨⟨hof, hin.1.2⟩, hin.2⟩
    · exact Nat.zero_le _

/-- **Several clients**: a caller that is charged as several clients is granted as many times
what one of them is. -/
theorem acceptedWithin_le_length_mul (clients : List κ) (of : κ → α → Bool) {lo hi bound : ℚ}
    {s : σ} {requests : List α}
    (h : ∀ a ∈ requests, ∀ s, Accepts step counts s a → ∃ k ∈ clients, of k a = true)
    (hbound : ∀ k ∈ clients, (acceptedWithin step time (of k) lo hi s requests : ℚ) ≤ bound) :
    (acceptedWithin step time counts lo hi s requests : ℚ) ≤ clients.length * bound := by
  have hsum : ∀ ks : List κ, (∀ k ∈ ks, k ∈ clients) →
      (((ks.map fun k => acceptedWithin step time (of k) lo hi s requests).sum : Nat) : ℚ) ≤
        ks.length * bound := by
    intro ks hks
    induction ks with
    | nil => simp
    | cons k rest ih =>
      have hrest := ih fun k' hk' => hks k' (List.mem_cons_of_mem _ hk')
      have hfirst := hbound k (hks k List.mem_cons_self)
      rw [List.map_cons, List.sum_cons, List.length_cons, Nat.cast_add, Nat.cast_add, Nat.cast_one]
      linarith
  refine le_trans ?_ (hsum clients fun _ hk => hk)
  exact_mod_cast acceptedWithin_le_sum clients of h

end Several

end Nzovu.Foundation
