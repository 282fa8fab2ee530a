import Mathlib.Data.List.Basic

/-!
# Hexadecimal Text

Bytes written with two digits each, the higher one first. The writer uses small letters; the reader
takes letters of either case.
-/

namespace Nzovu.Foundation.Hex

/-- The digits in order of their values. -/
def alphabet : List Char := "0123456789abcdef".toList

/-- The digit of a value below 16. -/
def digit (n : Nat) : Char := alphabet.getD n '0'

/-- The value of a digit. -/
def value (c : Char) : Option Nat := alphabet.idxOf? c.toLower

/-- `EncodeToString`. -/
def encode : List UInt8 → List Char
  | [] => []
  | byte :: rest => digit (byte.toNat / 16) :: digit (byte.toNat % 16) :: encode rest

/-- `DecodeString`: an odd number of digits and any other character are refused. -/
def decode : List Char → Option (List UInt8)
  | [] => some []
  | [_] => none
  | high :: low :: rest => do
    let high ← value high
    let low ← value low
    let bytes ← decode rest
    return UInt8.ofNat (high * 16 + low) :: bytes

theorem value_digit_fin : ∀ n : Fin 16, value (digit n) = some n.val ∧ digit n ≠ ':' := by
  decide +kernel

/-- What is written is read back. -/
theorem decode_encode (bytes : List UInt8) : decode (encode bytes) = some bytes := by
  induction bytes with
  | nil => rfl
  | cons byte rest ih =>
    have hbyte : byte.toNat < 256 := byte.toNat_lt
    have hhigh : value (digit (byte.toNat / 16)) = some (byte.toNat / 16) :=
      (value_digit_fin ⟨byte.toNat / 16, by omega⟩).1
    have hlow : value (digit (byte.toNat % 16)) = some (byte.toNat % 16) :=
      (value_digit_fin ⟨byte.toNat % 16, by omega⟩).1
    have hjoin : byte.toNat / 16 * 16 + byte.toNat % 16 = byte.toNat := by omega
    simp only [encode, decode, hhigh, hlow, ih, hjoin, Option.bind_eq_bind, Option.bind_some,
      UInt8.ofNat_toNat]
    rfl

/-- A colon is no digit. -/
theorem colon_notMem_encode (bytes : List UInt8) : ':' ∉ encode bytes := by
  induction bytes with
  | nil => exact List.not_mem_nil
  | cons byte rest ih =>
    have hbyte : byte.toNat < 256 := byte.toNat_lt
    have hhigh := (value_digit_fin ⟨byte.toNat / 16, by omega⟩).2
    have hlow := (value_digit_fin ⟨byte.toNat % 16, by omega⟩).2
    simp only [encode, List.mem_cons, not_or]
    exact ⟨hhigh.symm, hlow.symm, ih⟩

end Nzovu.Foundation.Hex
