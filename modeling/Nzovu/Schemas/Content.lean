import Nzovu.Foundation.Json
import Nzovu.Schemas.Versions

/-!
# Contents of Schemas

Translation of `validateSchemaContent` and `rejectExternalReferences` (`pkg/schema/validation.go`).
The JSON parser and the compiler of Draft 7 schemas are the parameters `unmarshal` and `draft7`.

- Section 1: the check.
- Section 2: what it accepts.
- Section 3: what the registry serves.
-/

namespace Nzovu.Schemas

open Nzovu.Foundation
open Nzovu.Repository
open Nzovu.Schedules

/-! ## Section 1: The check -/

/-- What the key `$ref` of an object refers to outside of the schema. -/
def externalReference? (entries : List (String × Json)) : Option String :=
  match Json.get? entries "$ref" with
  | some (.string ref) => if ref ≠ "" ∧ ref.toList.head? ≠ some '#' then some ref else none
  | _ => none

mutual

/-- `rejectExternalReferences`: the reason to refuse the value, if there is one. The entries of an
object are visited in any order, so that of several reasons it may be any one. -/
def rejectExternalReferences : Json → Option String
  | .object entries =>
    match externalReference? entries with
    | some ref => some ("external schema reference " ++ ref.quote ++ " is not allowed")
    | none => rejectEntries entries
  | .array items => rejectItems items
  | _ => none

/-- The loop over the entries of an object. -/
def rejectEntries : List (String × Json) → Option String
  | [] => none
  | (_, child) :: rest =>
    match rejectExternalReferences child with
    | some err => some err
    | none => rejectEntries rest

/-- The loop over the items of an array. -/
def rejectItems : List Json → Option String
  | [] => none
  | child :: rest =>
    match rejectExternalReferences child with
    | some err => some err
    | none => rejectItems rest

end

/-- What `validateSchemaContent` checks of a content of the right type and size. -/
def invalidContent (unmarshal : String → Except String Json) (draft7 : String → Option String)
    (content : String) : Option String :=
  match unmarshal content with
  | .error text => some ("invalid JSON: " ++ text)
  | .ok schema =>
    match rejectExternalReferences schema with
    | some err => some err
    | none => (draft7 content).map ("invalid Draft 7 schema: " ++ ·)

/-! ## Section 2: What it accepts -/

/-- No object in the value refers to another document. -/
def SelfContained (value : Json) : Prop :=
  ∀ entries, Json.Within (.object entries) value → externalReference? entries = none

theorem rejectEntries_eq_none {entries : List (String × Json)} :
    rejectEntries entries = none ↔ ∀ e ∈ entries, rejectExternalReferences e.2 = none := by
  induction entries with
  | nil => simp [rejectEntries]
  | cons e rest ih =>
    obtain ⟨key, child⟩ := e
    rw [rejectEntries, List.forall_mem_cons]
    cases rejectExternalReferences child with
    | none => simp [ih]
    | some err => simp

theorem rejectItems_eq_none {items : List Json} :
    rejectItems items = none ↔ ∀ v ∈ items, rejectExternalReferences v = none := by
  induction items with
  | nil => simp [rejectItems]
  | cons child rest ih =>
    rw [rejectItems, List.forall_mem_cons]
    cases rejectExternalReferences child with
    | none => simp [ih]
    | some err => simp

theorem selfContained_object {entries : List (String × Json)} :
    SelfContained (.object entries) ↔
      externalReference? entries = none ∧ ∀ e ∈ entries, SelfContained e.2 := by
  constructor
  · intro h
    refine ⟨h entries .here, fun e he inner hin => h inner ?_⟩
    exact Json.within_object.mpr (.inr ⟨e, he, hin⟩)
  · rintro ⟨hhere, hentries⟩ inner hin
    rcases Json.within_object.mp hin with heq | ⟨e, he, hin⟩
    · cases heq
      exact hhere
    · exact hentries e he inner hin

theorem selfContained_array {items : List Json} :
    SelfContained (.array items) ↔ ∀ v ∈ items, SelfContained v := by
  constructor
  · exact fun h v hv inner hin => h inner (Json.within_array.mpr (.inr ⟨v, hv, hin⟩))
  · intro h inner hin
    rcases Json.within_array.mp hin with heq | ⟨v, hv, hin⟩
    · cases heq
    · exact h v hv inner hin

theorem selfContained_of_leaf {value : Json} (harray : ∀ items, value ≠ .array items)
    (hobject : ∀ entries, value ≠ .object entries) : SelfContained value := by
  intro inner hin
  cases hin with
  | here => exact absurd rfl (hobject inner)
  | item => exact absurd rfl (harray _)
  | entry => exact absurd rfl (hobject _)

/-- A reference at any depth is found, and nothing else is refused. -/
theorem rejectExternalReferences_eq_none (value : Json) :
    rejectExternalReferences value = none ↔ SelfContained value := by
  induction value using Json.nested_induction with
  | null => exact iff_of_true rfl (selfContained_of_leaf nofun nofun)
  | bool value => exact iff_of_true rfl (selfContained_of_leaf nofun nofun)
  | number text => exact iff_of_true rfl (selfContained_of_leaf nofun nofun)
  | string text => exact iff_of_true rfl (selfContained_of_leaf nofun nofun)
  | array items ih =>
    rw [selfContained_array, rejectExternalReferences, rejectItems_eq_none]
    exact forall₂_congr ih
  | object entries ih =>
    rw [selfContained_object, rejectExternalReferences]
    cases hreference : externalReference? entries with
    | some ref => simp
    | none =>
      simp only [rejectEntries_eq_none, true_and]
      exact forall₂_congr ih

section Contents

variable (unmarshal : String → Except String Json) (draft7 : String → Option String)

/-- A content that stands for itself: JSON of at most a mebibyte, without references to other
documents, and a Draft 7 schema. -/
structure Standalone (content : String) : Prop where
  size : content.utf8ByteSize ≤ maxSchemaContentBytes
  parsed : ∃ schema, unmarshal content = .ok schema ∧ SelfContained schema
  compiled : draft7 content = none

/-- **The check**: what is accepted stands for itself, and what does so is accepted. -/
theorem validateSchemaContent_eq_none {contentType content : String} :
    validateSchemaContent (invalidContent unmarshal draft7) contentType content = none ↔
      (contentType = "" ∨ contentType = "json-schema") ∧
        Standalone unmarshal draft7 content := by
  have hinvalid : invalidContent unmarshal draft7 content = none ↔
      (∃ schema, unmarshal content = .ok schema ∧ SelfContained schema) ∧
        draft7 content = none := by
    unfold invalidContent
    cases unmarshal content with
    | error text => simp
    | ok schema =>
      have hself := rejectExternalReferences_eq_none schema
      cases hreject : rejectExternalReferences schema with
      | some err => simp [hreject, ← hself]
      | none => simp [hreject, ← hself]
  have hstandalone : Standalone unmarshal draft7 content ↔
      content.utf8ByteSize ≤ maxSchemaContentBytes ∧
        invalidContent unmarshal draft7 content = none :=
    ⟨fun h => ⟨h.size, hinvalid.mpr ⟨h.parsed, h.compiled⟩⟩, fun ⟨hsize, hnone⟩ =>
      ⟨hsize, (hinvalid.mp hnone).1, (hinvalid.mp hnone).2⟩⟩
  rw [hstandalone]
  unfold validateSchemaContent
  by_cases htype : contentType ≠ "" ∧ contentType ≠ "json-schema"
  · rw [if_pos htype]
    simp [htype.1, htype.2]
  · rw [if_neg htype]
    have hknown : contentType = "" ∨ contentType = "json-schema" := by
      by_contra hother
      exact htype (not_or.mp hother)
    by_cases hsize : maxSchemaContentBytes < content.utf8ByteSize
    · simp [hsize]
    · simp [if_neg hsize, hknown, Nat.not_lt.mp hsize]

/-! ## Section 3: What the registry serves -/

/-- Every content of the table stands for itself. -/
def AllStandalone (t : SchemaTable) : Prop :=
  ∀ row ∈ t.rows, Standalone unmarshal draft7 row.content

variable {unmarshal draft7}

/-- What is stored is the schema that was checked. -/
theorem storeSchema_content {backend : Backend} {t t' : SchemaTable} {schema row : Schema}
    (h : storeSchema backend t schema = .ok (t', row)) : row.content = schema.content := by
  by_cases hversion : schema.version = 0
  · rw [(storeSchema_eq_ok hversion h).1]
  · simp only [storeSchema, if_neg hversion] at h
    rw [(insertSchema_eq_ok h).1]

/-- **Step**: nothing else is registered, and contents do not change. -/
theorem AllStandalone.step {t : SchemaTable} (h : AllStandalone unmarshal draft7 t)
    (call : RegistryCall) :
    AllStandalone unmarshal draft7 (t.step (invalidContent unmarshal draft7) call) := by
  cases call with
  | register backend now schema =>
    simp only [SchemaTable.step]
    split
    · rename_i t' stored hregister
      unfold register at hregister
      split at hregister
      · cases hregister
      · rename_i hcheck
        -- the row that is added has the content that was checked
        have hcontent : Standalone unmarshal draft7 schema.content := by
          unfold checkSchema at hcheck
          split at hcheck
          · cases hcheck
          · split at hcheck
            · cases hcheck
            · rename_i hnone
              exact ((validateSchemaContent_eq_none _ _).mp hnone).2
        have hstored : stored.content = (completeSchema now schema).content :=
          storeSchema_content hregister
        intro row hrow
        rw [(storeSchema_rows hregister).1] at hrow
        rcases List.mem_append.mp hrow with hrow | hrow
        · exact h row hrow
        · rw [List.mem_singleton.mp hrow, hstored]
          exact hcontent
    · exact h
  | deactivate now schemaId version =>
    simp only [SchemaTable.step, deactivate]
    split
    · rename_i t' count hdeactivate
      split at hdeactivate
      · cases hdeactivate
      · cases hdeactivate
        intro row hrow
        obtain ⟨old, hold, rfl⟩ := List.mem_map.mp hrow
        rw [(ages_withdrawRow now schemaId version old).content_eq]
        exact h old hold
    · exact h

theorem getLatest_mem {t : SchemaTable} {schemaId : String} {row : Schema}
    (h : getLatest t schemaId = .ok row) : row ∈ t.rows := by
  unfold getLatest at h
  simp only at h
  split at h
  · cases h
  · rename_i found hhead
    cases h
    have hmem := List.mem_of_head? hhead
    rw [List.mem_insertionSort] at hmem
    exact List.mem_of_mem_filter hmem

theorem get_mem {t : SchemaTable} {schemaId : String} {version : Int} {row : Schema}
    (h : get t schemaId version = .ok row) : row ∈ t.rows := by
  by_cases hversion : version = 0
  · rw [get, if_pos hversion] at h
    exact getLatest_mem h
  · exact ((get_eq_ok hversion).mp h).1

theorem validationSchema_mem {t : SchemaTable} {schemaId : String} {version : Int} {row : Schema}
    (h : validationSchema t schemaId version = .ok row) : row ∈ t.rows := by
  unfold validationSchema at h
  split at h
  · exact get_mem h
  · exact getLatest_mem h

/-- The transaction fails for other reasons than the content. -/
theorem storeSchema_ne_invalid {backend : Backend} {t : SchemaTable} {schema : Schema} :
    storeSchema backend t schema ≠ .error (invalidArgument "invalid schema content") := by
  have hinsert : ∀ schema, insertSchema t schema ≠
      .error (invalidArgument "invalid schema content") := by
    intro schema herror
    unfold insertSchema at herror
    split at herror
    · simp [alreadyExists, invalidArgument] at herror
    · cases herror
  unfold storeSchema
  split
  · cases backend with
    | sqlite =>
      simp only
      split
      · exact hinsert _
      · simp [plainError, invalidArgument]
    | postgres => exact hinsert _
  · exact hinsert _

/-- The reason for which a registration is refused is the content, exactly when this does not stand
for itself. -/
theorem register_invalid_iff (backend : Backend) (now : Int) (t : SchemaTable) {schema : Schema}
    (htype : schema.contentType = "" ∨ schema.contentType = "json-schema") :
    register backend (invalidContent unmarshal draft7) now t schema =
        .error (invalidArgument "invalid schema content") ↔
      ¬ Standalone unmarshal draft7 schema.content := by
  have hknown : ¬ (schema.contentType ≠ "" ∧ schema.contentType ≠ "json-schema") := fun hother =>
    htype.elim hother.1 hother.2
  have hvalid := @validateSchemaContent_eq_none unmarshal draft7 schema.contentType schema.content
  simp only [htype, true_and] at hvalid
  rw [register, checkSchema, if_neg hknown, ← hvalid]
  cases validateSchemaContent (invalidContent unmarshal draft7) schema.contentType
      schema.content with
  | some err => simp
  | none =>
    simp only [not_true_eq_false, iff_false]
    exact storeSchema_ne_invalid

/-- **Contents**: whatever is registered and deactivated, every schema that the registry serves or
validates a payload with stands for itself, so that no other document is needed for it; and a
registration is refused for its content only if this does not stand for itself. -/
theorem served_standalone (unmarshal : String → Except String Json)
    (draft7 : String → Option String) (calls : List RegistryCall) :
    let t := runFrom (SchemaTable.step (invalidContent unmarshal draft7)) .empty calls
    (∀ schemaId version row,
        get t schemaId version = .ok row ∨ validationSchema t schemaId version = .ok row →
          Standalone unmarshal draft7 row.content) ∧
      ∀ backend now schema, schema.contentType = "" ∨ schema.contentType = "json-schema" →
        (register backend (invalidContent unmarshal draft7) now t schema =
            .error (invalidArgument "invalid schema content") ↔
          ¬ Standalone unmarshal draft7 schema.content) := by
  intro t
  have hall : AllStandalone unmarshal draft7 t :=
    invariant_runFrom' _ (AllStandalone unmarshal draft7) (fun _ call h => h.step call)
      (fun _ hrow => absurd hrow List.not_mem_nil) calls
  refine ⟨fun schemaId version row hserved => ?_, fun backend now schema htype => ?_⟩
  · rcases hserved with hget | hvalidation
    · exact hall row (get_mem hget)
    · exact hall row (validationSchema_mem hvalidation)
  · exact register_invalid_iff backend now t htype

end Contents

/-- A parser that knows the empty object, and a reference to another document. -/
def sampleUnmarshal (content : String) : Except String Json :=
  if content = "{}" then .ok (.object [])
  else if content = "ref" then
    .ok (.array [.object [("$ref", .string "https://schemas.example.test/schema.json")]])
  else .error "invalid character"

/-- A registry in which the one is registered and the other refused. -/
theorem served_standalone_order :
    let t := runFrom (SchemaTable.step (invalidContent sampleUnmarshal fun _ => none)) .empty
      [.register .sqlite 5 { orderRequest.schema with content := "ref" },
        .register .sqlite 6 orderRequest.schema]
    ∃ row, get t "order" 1 = .ok row ∧ Standalone sampleUnmarshal (fun _ => none) row.content := by
  intro t
  have h : get t "order" 1 = .ok { completeSchema 6 orderRequest.schema with version := 1 } := by
    decide
  exact ⟨_, h, (served_standalone sampleUnmarshal (fun _ => none) _).1 "order" 1 _ (.inl h)⟩

end Nzovu.Schemas
