import Mathlib.Data.List.Basic

/-!
# JSON Values

Trees of JSON, and the values within a value.
-/

namespace Nzovu.Foundation

/-- A JSON value; of a number its text. -/
inductive Json where
  | null
  | bool (value : Bool)
  | number (text : String)
  | string (text : String)
  | array (items : List Json)
  | object (entries : List (String × Json))

namespace Json

/-- **Induction** over the values within a value. -/
@[elab_as_elim] theorem nested_induction {P : Json → Prop} (null : P .null)
    (bool : ∀ value, P (.bool value)) (number : ∀ text, P (.number text))
    (string : ∀ text, P (.string text))
    (array : ∀ items, (∀ v ∈ items, P v) → P (.array items))
    (object : ∀ entries, (∀ e ∈ entries, P e.2) → P (.object entries)) (v : Json) : P v :=
  @Json.rec P (fun items => ∀ v ∈ items, P v) (fun entries => ∀ e ∈ entries, P e.2)
    (fun e => P e.2) null bool number string array object
    (fun _ hv => absurd hv List.not_mem_nil)
    (fun _ _ hhead htail => List.forall_mem_cons.mpr ⟨hhead, htail⟩)
    (fun _ he => absurd he List.not_mem_nil)
    (fun _ _ hhead htail => List.forall_mem_cons.mpr ⟨hhead, htail⟩)
    (fun _ _ hv => hv) v

/-- `inner` is the value itself, or somewhere inside it. -/
inductive Within (inner : Json) : Json → Prop where
  | here : Within inner inner
  | item {v : Json} {items : List Json} : v ∈ items → Within inner v → Within inner (.array items)
  | entry {key : String} {v : Json} {entries : List (String × Json)} :
      (key, v) ∈ entries → Within inner v → Within inner (.object entries)

/-- The value of a key of an object. -/
def get? (entries : List (String × Json)) (key : String) : Option Json := entries.lookup key

theorem within_array {inner : Json} {items : List Json} :
    Within inner (.array items) ↔ inner = .array items ∨ ∃ v ∈ items, Within inner v := by
  constructor
  · intro h
    cases h with
    | here => exact .inl rfl
    | item hv hin => exact .inr ⟨_, hv, hin⟩
  · rintro (rfl | ⟨v, hv, hin⟩)
    · exact .here
    · exact .item hv hin

theorem within_object {inner : Json} {entries : List (String × Json)} :
    Within inner (.object entries) ↔
      inner = .object entries ∨ ∃ e ∈ entries, Within inner e.2 := by
  constructor
  · intro h
    cases h with
    | here => exact .inl rfl
    | entry hv hin => exact .inr ⟨_, hv, hin⟩
  · rintro (rfl | ⟨⟨key, v⟩, he, hin⟩)
    · exact .here
    · exact .entry he hin

end Json

end Nzovu.Foundation
