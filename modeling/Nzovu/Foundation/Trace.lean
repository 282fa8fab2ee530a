import Mathlib.Data.List.Basic

/-!
# Traces

Finite traces of a labelled transition relation.
-/

namespace Nzovu.Foundation

universe u v

variable {σ : Type u} {α : Type v} {step : σ → α → σ → Prop}

/-- The labels, in order, lead from one state to the other. -/
inductive Trace (step : σ → α → σ → Prop) : σ → List α → σ → Prop where
  | nil (s : σ) : Trace step s [] s
  | cons {s s₁ s' : σ} {a : α} {as : List α} (h : step s a s₁) (hrest : Trace step s₁ as s') :
      Trace step s (a :: as) s'

theorem Trace.single {s s' : σ} {a : α} (h : step s a s') : Trace step s [a] s' :=
  .cons h (.nil s')

theorem Trace.append {s s₁ s' : σ} {as bs : List α} (h : Trace step s as s₁)
    (h' : Trace step s₁ bs s') : Trace step s (as ++ bs) s' := by
  induction h with
  | nil => exact h'
  | cons hstep _ ih => exact .cons hstep (ih h')

end Nzovu.Foundation
