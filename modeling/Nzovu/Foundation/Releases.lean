import Mathlib.Data.List.GetD
import Mathlib.Logic.Function.Basic
import Nzovu.Foundation.Run

/-!
# Numbered Releases

What is published under a name is numbered `1, 2, 3, …` in the order of publication. A release can be
withdrawn, once and for all, and keeps its number and its content.

- Section 1: releases and what can be done with them.
- Section 2: what is read.
- Section 3: runs.
-/

namespace Nzovu.Foundation

universe u v w

/-! ## Section 1: Publishing and withdrawing -/

/-- What was published, and when it was withdrawn. -/
structure Release (α : Type u) (τ : Type v) where
  content : α
  withdrawnAt : Option τ := none
deriving DecidableEq, Repr

variable {ι : Type w} {α : Type u} {τ : Type v}

/-- A withdrawn release keeps the time of its first withdrawal. -/
def Release.withdraw (time : τ) (r : Release α τ) : Release α τ :=
  { r with withdrawnAt := r.withdrawnAt.or (some time) }

@[simp] theorem Release.content_withdraw (time : τ) (r : Release α τ) :
    (r.withdraw time).content = r.content := rfl

/-- The releases of every name, the first one first. -/
abbrev Releases (ι : Type w) (α : Type u) (τ : Type v) : Type (max u v w) := ι → List (Release α τ)

namespace Releases

variable [DecidableEq ι]

def empty : Releases ι α τ := fun _ => []

/-- One more release of the name. -/
def publish (s : Releases ι α τ) (name : ι) (content : α) : Releases ι α τ :=
  Function.update s name (s name ++ [⟨content, none⟩])

/-- The release with this number is withdrawn; without a number, every release of the name. -/
def withdraw (s : Releases ι α τ) (name : ι) (number : Option Nat) (time : τ) :
    Releases ι α τ :=
  Function.update s name ((s name).mapIdx fun i r =>
    if number = none ∨ number = some (i + 1) then r.withdraw time else r)

@[simp] theorem publish_self (s : Releases ι α τ) (name : ι) (content : α) :
    s.publish name content name = s name ++ [⟨content, none⟩] := Function.update_self name _ s

theorem publish_of_ne (s : Releases ι α τ) {name other : ι} (content : α) (h : other ≠ name) :
    s.publish name content other = s other := Function.update_of_ne h _ s

@[simp] theorem withdraw_self (s : Releases ι α τ) (name : ι) (number : Option Nat) (time : τ) :
    s.withdraw name number time name = (s name).mapIdx fun i r =>
      if number = none ∨ number = some (i + 1) then r.withdraw time else r :=
  Function.update_self name _ s

theorem withdraw_of_ne (s : Releases ι α τ) {name other : ι} (number : Option Nat) (time : τ)
    (h : other ≠ name) : s.withdraw name number time other = s other := Function.update_of_ne h _ s

/-! ## Section 2: Reading -/

/-- The release with a number. -/
def lookup (s : Releases ι α τ) (name : ι) (number : Nat) : Option (Release α τ) :=
  if number = 0 then none else (s name)[number - 1]?

/-- The last release that was not withdrawn, with its number. -/
def latest (s : Releases ι α τ) (name : ι) : Option (Nat × Release α τ) :=
  (((s name).mapIdx fun i r => (i + 1, r)).filter fun e => e.2.withdrawnAt.isNone).getLast?

end Releases

end Nzovu.Foundation
