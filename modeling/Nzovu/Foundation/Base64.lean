import Mathlib.Algebra.Group.Nat.Defs
import Mathlib.Data.List.Basic

/-!
# Base64

The standard Base64 encoding with padding, of byte lists as character lists, and its decoder.
Three bytes form a group of twenty-four bits, written as four digits of six bits; the last group
may be short and is padded with `=`. The decoder skips line breaks and does not look at the bits
a short group leaves unused.
-/

namespace Nzovu.Foundation.Base64

/-! ## Section 1: Digits -/

/-- The digits in order of their values. -/
def alphabet : List Char :=
  "ABCDEFGHIJKLMNOPQRSTUVWXYZabcdefghijklmnopqrstuvwxyz0123456789+/".toList

/-- The digit of a value below 64. -/
def digit (n : Nat) : Char := alphabet.getD (n % 64) 'A'

/-- The value of a digit. -/
def value (c : Char) : Option Nat := alphabet.idxOf? c

theorem value_digit_fin : ∀ n : Fin 64, value (digit n) = some n.val ∧ digit n ≠ '=' ∧
    digit n ≠ '\n' ∧ digit n ≠ '\r' := by
  decide +kernel

theorem value_digit {n : Nat} (h : n < 64) : value (digit n) = some n :=
  (value_digit_fin ⟨n, h⟩).1

theorem digit_ne (n : Nat) : digit n ≠ '=' ∧ digit n ≠ '\n' ∧ digit n ≠ '\r' := by
  have h := (value_digit_fin ⟨n % 64, Nat.mod_lt n (by decide)⟩).2
  simpa [digit] using h

/-! ## Section 2: Encoding and decoding -/

/-- The group of up to three bytes as one number. -/
def group (a b c : UInt8) : Nat := a.toNat * 65536 + b.toNat * 256 + c.toNat

/-- Digit `i` of a group, from the most significant one. -/
def groupDigit (g i : Nat) : Char := digit (g / 64 ^ (3 - i))

/-- `EncodeToString`. -/
def encode : List UInt8 → List Char
  | [] => []
  | [a] => [groupDigit (group a 0 0) 0, groupDigit (group a 0 0) 1, '=', '=']
  | [a, b] =>
    [groupDigit (group a b 0) 0, groupDigit (group a b 0) 1, groupDigit (group a b 0) 2, '=']
  | a :: b :: c :: rest =>
    groupDigit (group a b c) 0 :: groupDigit (group a b c) 1 :: groupDigit (group a b c) 2 ::
      groupDigit (group a b c) 3 :: encode rest

/-- The three bytes of a number of twenty-four bits. -/
def bytesOf (g : Nat) : List UInt8 :=
  [UInt8.ofNat (g / 65536), UInt8.ofNat (g / 256), UInt8.ofNat g]

/-- The number that four digit values form. -/
def ungroup (p q r s : Nat) : Nat := p * 262144 + q * 4096 + r * 64 + s

/-- The decoder on a text without line breaks. -/
def decodeDigits : List Char → Option (List UInt8)
  | [] => some []
  | [p, q, '=', '='] => do
    let p ← value p
    let q ← value q
    return (bytesOf (ungroup p q 0 0)).take 1
  | [p, q, r, '='] => do
    let p ← value p
    let q ← value q
    let r ← value r
    return (bytesOf (ungroup p q r 0)).take 2
  | p :: q :: r :: s :: rest => do
    let p ← value p
    let q ← value q
    let r ← value r
    let s ← value s
    let bytes ← decodeDigits rest
    return bytesOf (ungroup p q r s) ++ bytes
  | _ => none

/-- `DecodeString`. -/
def decode (text : List Char) : Option (List UInt8) :=
  decodeDigits (text.filter fun c => c ≠ '\n' && c ≠ '\r')

/-! ## Section 3: Round trip -/

theorem value_groupDigit (g i : Nat) : value (groupDigit g i) = some (g / 64 ^ (3 - i) % 64) := by
  have h := value_digit (Nat.mod_lt (g / 64 ^ (3 - i)) (by decide : 64 > 0))
  simpa [groupDigit, digit] using h

theorem groupDigit_ne (g i : Nat) :
    groupDigit g i ≠ '=' ∧ groupDigit g i ≠ '\n' ∧ groupDigit g i ≠ '\r' :=
  digit_ne _

/-- The digits of a group give the group back. -/
theorem ungroup_digits {g : Nat} (h : g < 16777216) :
    ungroup (g / 262144 % 64) (g / 4096 % 64) (g / 64 % 64) (g % 64) = g := by
  simp only [ungroup]
  omega

theorem group_lt (a b c : UInt8) : group a b c < 16777216 := by
  have ha := a.toNat_lt
  have hb := b.toNat_lt
  have hc := c.toNat_lt
  simp only [group]
  omega

theorem bytesOf_group (a b c : UInt8) : bytesOf (group a b c) = [a, b, c] := by
  have hb := b.toNat_lt
  have hc := c.toNat_lt
  have h1 : UInt8.ofNat (group a b c / 65536) = a := by
    rw [show group a b c / 65536 = a.toNat by simp only [group]; omega]
    exact UInt8.ofNat_toNat
  have h2 : UInt8.ofNat (group a b c / 256) = b := by
    apply UInt8.toNat_inj.mp
    simp only [UInt8.toNat_ofNat', group]
    omega
  have h3 : UInt8.ofNat (group a b c) = c := by
    apply UInt8.toNat_inj.mp
    simp only [UInt8.toNat_ofNat', group]
    omega
  rw [bytesOf, h1, h2, h3]

/-- Encoded text has no line breaks to skip. -/
theorem filter_encode (bytes : List UInt8) :
    (encode bytes).filter (fun c => c ≠ '\n' && c ≠ '\r') = encode bytes := by
  induction bytes using encode.induct with
  | case1 => rfl
  | case2 a => simp [encode, groupDigit_ne]
  | case3 a b => simp [encode, groupDigit_ne]
  | case4 a b c rest ih =>
    simp only [List.filter_eq_self] at ih ⊢
    simpa [encode, groupDigit_ne] using ih

theorem decodeDigits_encode (bytes : List UInt8) : decodeDigits (encode bytes) = some bytes := by
  induction bytes using encode.induct with
  | case1 => rfl
  | case2 a =>
    -- the two missing bytes are zero in the group, so its last two digits are `A`
    have hzero : group a 0 0 / 64 % 64 = 0 ∧ group a 0 0 % 64 = 0 := by
      simp only [group, UInt8.toNat_zero]
      omega
    have h := ungroup_digits (group_lt a 0 0)
    rw [hzero.1, hzero.2] at h
    simp [encode, decodeDigits, value_groupDigit, h, bytesOf_group]
  | case3 a b =>
    have hzero : group a b 0 % 64 = 0 := by
      simp only [group, UInt8.toNat_zero]
      omega
    have h := ungroup_digits (group_lt a b 0)
    rw [hzero] at h
    simp [encode, decodeDigits, value_groupDigit, groupDigit_ne, h, bytesOf_group]
  | case4 a b c rest ih =>
    have h := ungroup_digits (group_lt a b c)
    simp [encode, decodeDigits, value_groupDigit, groupDigit_ne, ih, h, bytesOf_group]

/-- Decoding encoded bytes gives them back. -/
theorem decode_encode (bytes : List UInt8) : decode (encode bytes) = some bytes := by
  rw [decode, filter_encode, decodeDigits_encode]

theorem encode_eq_nil {bytes : List UInt8} : encode bytes = [] ↔ bytes = [] := by
  cases bytes using encode.fun_cases with
  | case1 => simp [encode]
  | case2 a => simp [encode]
  | case3 a b => simp [encode]
  | case4 a b c rest => simp [encode]

/-! ## Section 4: Length -/

theorem length_decodeDigits {text : List Char} {bytes : List UInt8}
    (h : decodeDigits text = some bytes) : bytes.length ≤ text.length := by
  induction text using decodeDigits.induct generalizing bytes with
  | case1 => simp [decodeDigits] at h; simp [← h]
  | case2 p q =>
    simp only [decodeDigits, Option.bind_eq_bind, Option.bind_eq_some_iff] at h
    obtain ⟨_, -, _, -, h⟩ := h
    simp [← Option.some.inj h, bytesOf]
  | case3 p q r hr =>
    simp only [decodeDigits, Option.bind_eq_bind, Option.bind_eq_some_iff] at h
    obtain ⟨_, -, _, -, _, -, h⟩ := h
    simp [← Option.some.inj h, bytesOf]
  | case4 p q r s rest hs hr ih =>
    simp only [decodeDigits, Option.bind_eq_bind, Option.bind_eq_some_iff] at h
    obtain ⟨_, -, _, -, _, -, _, -, tail, htail, h⟩ := h
    have hrest := ih htail
    simp only [← Option.some.inj h, bytesOf, List.length_append, List.length_cons, List.length_nil]
    omega
  | case5 text h1 h2 h3 h4 => simp [decodeDigits] at h

/-- Decoded bytes are no more than the characters they were decoded from. -/
theorem length_decode {text : List Char} {bytes : List UInt8} (h : decode text = some bytes) :
    bytes.length ≤ text.length :=
  Nat.le_trans (length_decodeDigits h) (List.length_filter_le _ _)

end Nzovu.Foundation.Base64
