import Nzovu.Foundation.Base64

/-!
# Base64 for URLs

The raw URL encoding: the digits `+` and `/` of the standard encoding are written `-` and `_`, and
short groups are not padded. The decoder restores both and decodes the standard text; padding in its
input is an error.
-/

namespace Nzovu.Foundation.Base64Url

/-! ## Section 1: Encoding and decoding -/

/-- The URL digit of a standard digit. -/
def urlDigit (c : Char) : Char := if c = '+' then '-' else if c = '/' then '_' else c

/-- The standard digit of a URL digit. -/
def standardDigit (c : Char) : Option Char :=
  if c = '-' then some '+'
  else if c = '_' then some '/'
  else if c.isAlphanum then some c
  else none

/-- The digits with the padding of the last group. -/
def pad (digits : List Char) : List Char :=
  digits ++ List.replicate ((4 - digits.length % 4) % 4) '='

/-- `RawURLEncoding.EncodeToString`. -/
def encode (bytes : List UInt8) : List Char :=
  ((Base64.encode bytes).filter (· ≠ '=')).map urlDigit

/-- `RawURLEncoding.DecodeString`. -/
def decode (text : List Char) : Option (List UInt8) := do
  -- line breaks are skipped anywhere
  let digits ← (text.filter fun c => c ≠ '\n' && c ≠ '\r').mapM standardDigit
  Base64.decodeDigits (pad digits)

/-! ## Section 2: Round trip -/

/-- A digit that the URL encoding keeps apart from all others and from line breaks. -/
def Restored (c : Char) : Prop :=
  standardDigit (urlDigit c) = some c ∧ urlDigit c ≠ '\n' ∧ urlDigit c ≠ '\r'

theorem restored_digit (n : Nat) : Restored (Base64.digit n) := by
  have hall : ∀ m : Fin 64, standardDigit (urlDigit (Base64.digit m)) = some (Base64.digit m) ∧
      urlDigit (Base64.digit m) ≠ '\n' ∧ urlDigit (Base64.digit m) ≠ '\r' := by
    decide +kernel
  have h := hall ⟨n % 64, Nat.mod_lt n (by decide)⟩
  simpa [Restored, Base64.digit] using h

/-- Every character of the standard encoding but the padding is a digit. -/
theorem restored_of_mem_encode {bytes : List UInt8} {c : Char}
    (h : c ∈ (Base64.encode bytes).filter (· ≠ '=')) : Restored c := by
  induction bytes using Base64.encode.induct with
  | case1 => simp [Base64.encode] at h
  | case2 a =>
    simp only [Base64.encode, List.mem_filter, List.mem_cons, List.not_mem_nil, or_false] at h
    obtain ⟨hmem, hne⟩ := h
    rcases hmem with rfl | rfl | rfl | rfl
    · exact restored_digit _
    · exact restored_digit _
    · simp at hne
    · simp at hne
  | case3 a b =>
    simp only [Base64.encode, List.mem_filter, List.mem_cons, List.not_mem_nil, or_false] at h
    obtain ⟨hmem, hne⟩ := h
    rcases hmem with rfl | rfl | rfl | rfl
    · exact restored_digit _
    · exact restored_digit _
    · exact restored_digit _
    · simp at hne
  | case4 a b c rest ih =>
    simp only [Base64.encode, List.mem_filter, List.mem_cons] at h
    obtain ⟨hmem, hne⟩ := h
    rcases hmem with rfl | rfl | rfl | rfl | hmem
    · exact restored_digit _
    · exact restored_digit _
    · exact restored_digit _
    · exact restored_digit _
    · exact ih (List.mem_filter.mpr ⟨hmem, hne⟩)

/-- Padding the stripped text gives the standard text back. -/
theorem pad_filter_encode (bytes : List UInt8) :
    pad ((Base64.encode bytes).filter (· ≠ '=')) = Base64.encode bytes := by
  induction bytes using Base64.encode.induct with
  | case1 => rfl
  | case2 a => simp [Base64.encode, Base64.groupDigit_ne, pad, List.replicate]
  | case3 a b => simp [Base64.encode, Base64.groupDigit_ne, pad]
  | case4 a b c rest ih =>
    -- a whole group does not change the length modulo four
    have hfour (n : Nat) : (n + 1 + 1 + 1 + 1) % 4 = n % 4 := by omega
    simp only [pad, ne_eq, decide_not] at ih
    simp [Base64.encode, Base64.groupDigit_ne, pad, hfour, ih]

theorem mapM_standardDigit {digits : List Char} (h : ∀ c ∈ digits, Restored c) :
    ((digits.map urlDigit).filter fun c => c ≠ '\n' && c ≠ '\r').mapM standardDigit =
      some digits := by
  induction digits with
  | nil => rfl
  | cons c rest ih =>
    obtain ⟨⟨hc, hnewline, hreturn⟩, hrest⟩ := List.forall_mem_cons.mp h
    -- a digit is no line break
    have hkept : (urlDigit c ≠ '\n' && urlDigit c ≠ '\r') = true := by simp [hnewline, hreturn]
    rw [List.map_cons, List.filter_cons, if_pos hkept, List.mapM_cons, hc, ih hrest]
    rfl

/-- Decoding encoded bytes gives them back. -/
theorem decode_encode (bytes : List UInt8) : decode (encode bytes) = some bytes := by
  rw [decode, encode, mapM_standardDigit fun c => restored_of_mem_encode]
  show Base64.decodeDigits (pad _) = some bytes
  rw [pad_filter_encode, Base64.decodeDigits_encode]

end Nzovu.Foundation.Base64Url
