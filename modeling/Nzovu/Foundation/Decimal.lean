import Mathlib.Data.Int.Order.Basic
import Mathlib.Tactic.NormNum

/-!
# Signed Decimals

Printing and parsing integers in base 10, as `strconv.FormatInt` and `strconv.ParseInt` do for
64-bit values, and fields that are separated by a character.
-/

namespace Nzovu.Foundation

/-! ## Section 1: Digits -/

/-- The number a nonempty sequence of decimal digits denotes. -/
def parseDigits (digits : List Char) : Option Nat :=
  if digits ≠ [] ∧ digits.all Char.isDigit then some (Nat.ofDigitChars 10 digits 0) else none

/-- Every number is read back from its digits. -/
theorem parseDigits_toDigits (n : Nat) : parseDigits (Nat.toDigits 10 n) = some n := by
  have hdigits : (Nat.toDigits 10 n).all Char.isDigit = true :=
    List.all_eq_true.mpr fun c hc => Nat.isDigit_of_mem_toDigits (by decide) (by decide) hc
  rw [parseDigits, if_pos ⟨Nat.toDigits_ne_nil, hdigits⟩, Nat.ofDigitChars_ten_toDigits]

theorem isDigit_of_mem_toDigits {n : Nat} {c : Char} (h : c ∈ Nat.toDigits 10 n) :
    c.isDigit = true :=
  Nat.isDigit_of_mem_toDigits (by decide) (by decide) h

/-! ## Section 2: Signed 64-bit integers -/

/-- `math.MinInt64`. -/
def minInt64 : Int := -9223372036854775808

/-- `math.MaxInt64`. -/
def maxInt64 : Int := 9223372036854775807

/-- The values of `int64`. -/
def FitsInt64 (i : Int) : Prop := minInt64 ≤ i ∧ i ≤ maxInt64

instance (i : Int) : Decidable (FitsInt64 i) := inferInstanceAs (Decidable (_ ∧ _))

/-- `strconv.FormatInt(i, 10)`. -/
def formatInt : Int → List Char
  | .ofNat n => Nat.toDigits 10 n
  | .negSucc n => '-' :: Nat.toDigits 10 (n + 1)

/-- An optional sign, then digits. -/
def parseSigned : List Char → Option Int
  | '-' :: digits => (parseDigits digits).map fun n => -(n : Int)
  | '+' :: digits => (parseDigits digits).map fun n => (n : Int)
  | digits => (parseDigits digits).map fun n => (n : Int)

/-- `strconv.ParseInt(text, 10, 64)`: a value out of range is an error. -/
def parseInt (text : List Char) : Option Int := (parseSigned text).filter fun i => FitsInt64 i

theorem parseSigned_formatInt (i : Int) : parseSigned (formatInt i) = some i := by
  cases i with
  | ofNat n =>
    -- The first character is a digit, not a sign.
    cases hdigits : Nat.toDigits 10 n with
    | nil => exact absurd hdigits Nat.toDigits_ne_nil
    | cons c rest =>
      have hc : c.isDigit = true := isDigit_of_mem_toDigits (n := n) (hdigits ▸ List.mem_cons_self)
      have hparse := parseDigits_toDigits n
      rw [hdigits] at hparse
      have hminus : c ≠ '-' := fun h => by subst h; exact absurd hc (by decide)
      have hplus : c ≠ '+' := fun h => by subst h; exact absurd hc (by decide)
      simp [formatInt, parseSigned, hdigits, hminus, hplus, hparse]
  | negSucc n =>
    simp [formatInt, parseSigned, parseDigits_toDigits, Int.negSucc_eq]

/-- **Round trip**: `ParseInt` returns what `FormatInt` was given, up to both ends of the range. -/
theorem parseInt_formatInt {i : Int} (h : FitsInt64 i) : parseInt (formatInt i) = some i := by
  simp [parseInt, parseSigned_formatInt, h]

theorem formatInt_injective : Function.Injective formatInt := fun i j h =>
  Option.some.inj ((parseSigned_formatInt i).symm.trans (h ▸ parseSigned_formatInt j))

/-- `%d` prints the same characters. -/
theorem toList_repr (i : Int) : i.repr.toList = formatInt i := by
  cases i with
  | ofNat n => simp [Int.repr_eq_if, Nat.repr_eq_ofList_toDigits, formatInt]
  | negSucc n => simp [Int.repr_eq_if, Int.neg_negSucc, Nat.repr_eq_ofList_toDigits, formatInt]

theorem formatInt_ne_nil (i : Int) : formatInt i ≠ [] := by
  cases i with
  | ofNat n => exact Nat.toDigits_ne_nil
  | negSucc n => exact List.cons_ne_nil _ _

/-- A character that is neither a digit nor the sign does not occur in a printed integer. -/
theorem not_mem_formatInt {c : Char} (hdigit : c.isDigit = false) (hsign : c ≠ '-') (i : Int) :
    c ∉ formatInt i := by
  have hdigits : ∀ n, c ∉ Nat.toDigits 10 n := fun n hc => by
    rw [isDigit_of_mem_toDigits hc] at hdigit
    cases hdigit
  cases i with
  | ofNat n => exact hdigits n
  | negSucc n =>
    intro hc
    rcases List.mem_cons.mp hc with rfl | hc
    · exact hsign rfl
    · exact hdigits _ hc

/-! ## Section 3: Separated fields -/

/-- The first field ends at the first separator. -/
theorem field_append_inj {α : Type} {c : α} {field field' rest rest' : List α} (hfield : c ∉ field)
    (hfield' : c ∉ field') (h : field ++ c :: rest = field' ++ c :: rest') :
    field = field' ∧ rest = rest' := by
  induction field generalizing field' with
  | nil =>
    cases field' with
    | nil => exact ⟨rfl, (List.cons.inj h).2⟩
    | cons d tail =>
      obtain ⟨rfl, -⟩ := List.cons.inj h
      exact absurd List.mem_cons_self hfield'
  | cons d tail ih =>
    cases field' with
    | nil =>
      obtain ⟨rfl, -⟩ := List.cons.inj h
      exact absurd List.mem_cons_self hfield
    | cons d' tail' =>
      obtain ⟨rfl, htail⟩ := List.cons.inj h
      obtain ⟨rfl, hrest⟩ := ih (fun hmem => hfield (List.mem_cons_of_mem _ hmem))
        (fun hmem => hfield' (List.mem_cons_of_mem _ hmem)) htail
      exact ⟨rfl, hrest⟩

end Nzovu.Foundation
