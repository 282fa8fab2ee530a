import Nzovu.Foundation.Releases
import Nzovu.Schemas.Catalog

/-!
# Versions over Time

The registry under any sequence of registrations and deactivations. A version once stored keeps
everything but its activity, and is never active again after it was withdrawn, so what a payload is
told about a pinned version does not change. The registry that the handlers write is a refinement of
numbered releases.

- Section 1: what is read.
- Section 2: the registry as a machine.
- Section 3: pinned versions.
- Section 4: the registry and its releases.
- Section 5: what the releases say about reads.
-/

namespace Nzovu.Schemas

open Nzovu.Foundation
open Nzovu.Repository
open Nzovu.Schedules

variable {backend : Backend} {invalid : String → Option String} {t t' : SchemaTable}
  {row schema : Schema} {schemaId : String} {version : Int}

/-! ## Section 1: What is read -/

theorem SchemaTable.eq_of_key_eq {a b : Schema} (ha : a ∈ t.rows) (hb : b ∈ t.rows)
    (h : a.key = b.key) : a = b :=
  List.inj_on_of_nodup_map t.keys_nodup ha hb h

/-- A pinned version is read from the row with its key. -/
theorem get_eq_ok (hversion : version ≠ 0) :
    get t schemaId version = .ok row ↔ row ∈ t.rows ∧ row.key = (schemaId, version) := by
  simp only [get, if_neg hversion]
  cases hfind : t.rows.find? fun row => row.schemaId = schemaId && row.version = version with
  | none =>
    refine iff_of_false (fun h => by cases h) fun ⟨hmem, hkey⟩ => ?_
    have hno := List.find?_eq_none.mp hfind row hmem
    simp only [Schema.key, Prod.mk.injEq] at hkey
    simp [hkey.1, hkey.2] at hno
  | some found =>
    have hmem := List.mem_of_find?_eq_some hfind
    have hfound := List.find?_some hfind
    simp only [Bool.and_eq_true, decide_eq_true_eq] at hfound
    have hkey : found.key = (schemaId, version) := Prod.ext hfound.1 hfound.2
    simp only [Except.ok.injEq]
    refine ⟨fun heq => heq ▸ ⟨hmem, hkey⟩, fun ⟨hrow, hrowKey⟩ => ?_⟩
    exact SchemaTable.eq_of_key_eq hmem hrow (hkey.trans hrowKey.symm)

/-- Rows in the order of their versions, latest first, are the reversed list. -/
theorem insertionSort_versions {rows : List Schema}
    (hrows : rows.Pairwise fun a b => a.version < b.version) :
    (rows.insertionSort fun a b => b.version ≤ a.version) = rows.reverse := by
  have htotal : Std.Total fun a b : Schema => b.version ≤ a.version :=
    ⟨fun a b => le_total b.version a.version⟩
  have htrans : IsTrans Schema fun a b => b.version ≤ a.version :=
    ⟨fun _ _ _ h h' => le_trans h' h⟩
  have hperm := (List.perm_insertionSort (fun a b : Schema => b.version ≤ a.version) rows).trans
    rows.reverse_perm.symm
  refine hperm.eq_of_pairwise (fun a b ha hb hab hba => ?_) (List.pairwise_insertionSort _ _)
    (List.pairwise_reverse.mpr (hrows.imp fun h => h.le))
  -- two rows of one version are one row
  have hversion : a.version = b.version := le_antisymm hba hab
  have hnodup : (rows.map (·.version)).Nodup := List.pairwise_map.mpr (hrows.imp fun h => h.ne)
  exact List.inj_on_of_nodup_map hnodup ((List.mem_insertionSort _).mp ha)
    (List.mem_reverse.mp hb) hversion

/-! ## Section 2: The registry as a machine -/

/-- A call that writes: `Register` of any schema, or `Deactivate`. -/
inductive RegistryCall where
  | register (backend : Backend) (now : Int) (schema : Schema)
  | deactivate (now : Int) (schemaId : String) (version : Int)

/-- The table after a call; a refused call leaves it. -/
def SchemaTable.step (invalid : String → Option String) (t : SchemaTable) :
    RegistryCall → SchemaTable
  | .register backend now schema =>
    match register backend invalid now t schema with
    | .ok (t', _) => t'
    | .error _ => t
  | .deactivate now schemaId version =>
    match deactivate now t schemaId version with
    | .ok (t', _) => t'
    | .error _ => t

/-- What can become of a row: it is withdrawn, once. -/
def Ages (old new : Schema) : Prop :=
  new = old ∨ (old.isActive = true ∧ ∃ now, new = old.withdrawn now)

theorem Ages.refl (row : Schema) : Ages row row := .inl rfl

theorem Ages.trans {a b c : Schema} (h : Ages a b) (h' : Ages b c) : Ages a c := by
  rcases h with rfl | ⟨hactive, now, rfl⟩
  · exact h'
  · rcases h' with rfl | ⟨hwithdrawn, -⟩
    · exact .inr ⟨hactive, now, rfl⟩
    · -- it was withdrawn already
      cases hwithdrawn

theorem Ages.key_eq {old new : Schema} (h : Ages old new) : new.key = old.key := by
  rcases h with rfl | ⟨-, now, rfl⟩ <;> rfl

theorem Ages.content_eq {old new : Schema} (h : Ages old new) : new.content = old.content := by
  rcases h with rfl | ⟨-, now, rfl⟩ <;> rfl

theorem ages_withdrawRow (now : Int) (schemaId : String) (version : Int) (row : Schema) :
    Ages row (withdrawRow now schemaId version row) := by
  unfold withdrawRow
  split
  · rename_i h
    simp only [withdraws, Bool.and_eq_true] at h
    exact .inr ⟨h.1.2, now, rfl⟩
  · exact .refl row

/-- Every row of the one table is in the other, perhaps withdrawn. -/
def Keeps (t t' : SchemaTable) : Prop := ∀ row ∈ t.rows, ∃ row' ∈ t'.rows, Ages row row'

theorem Keeps.refl (t : SchemaTable) : Keeps t t := fun row hrow => ⟨row, hrow, .refl row⟩

theorem Keeps.trans {t t₁ t' : SchemaTable} (h : Keeps t t₁) (h' : Keeps t₁ t') : Keeps t t' := by
  intro row hrow
  obtain ⟨row₁, hrow₁, hages⟩ := h row hrow
  obtain ⟨row', hrow', hages'⟩ := h' row₁ hrow₁
  exact ⟨row', hrow', hages.trans hages'⟩

/-- A stored row is added to the others. -/
theorem storeSchema_rows (h : storeSchema backend t schema = .ok (t', row)) :
    t'.rows = t.rows ++ [row] ∧ row.key ∉ t.rows.map Schema.key := by
  by_cases hversion : schema.version = 0
  · exact (storeSchema_eq_ok hversion h).2
  · simp only [storeSchema, if_neg hversion] at h
    exact (insertSchema_eq_ok h).2

/-- **Step**: no call takes a row away or rewrites it. -/
theorem keeps_step (t : SchemaTable) (call : RegistryCall) : Keeps t (t.step invalid call) := by
  cases call with
  | register backend now schema =>
    simp only [SchemaTable.step]
    split
    · rename_i t' stored hregister
      unfold register at hregister
      split at hregister
      · cases hregister
      · have hrows := (storeSchema_rows hregister).1
        exact fun row hrow => ⟨row, hrows ▸ List.mem_append_left _ hrow, .refl row⟩
    · exact .refl t
  | deactivate now schemaId version =>
    simp only [SchemaTable.step, deactivate]
    split
    · rename_i t' count hdeactivate
      split at hdeactivate
      · cases hdeactivate
      · cases hdeactivate
        exact fun row hrow =>
          ⟨_, List.mem_map.mpr ⟨row, hrow, rfl⟩, ages_withdrawRow now schemaId version row⟩
    · exact .refl t

/-- **Run**: a row stays in the table and is withdrawn at most once. -/
theorem keeps_runFrom (t : SchemaTable) (calls : List RegistryCall) :
    Keeps t (runFrom (SchemaTable.step invalid) t calls) :=
  invariant_runFrom' (SchemaTable.step invalid) (Keeps t)
    (fun t' call h => h.trans (keeps_step t' call)) (.refl t) calls

/-! ## Section 3: Pinned versions -/

/-- What is told about a payload, apart from the time. -/
theorem validate_of_get {validateJSONSchema : String → String → Except String PayloadResult}
    (hversion : 0 < version) (h : get t schemaId version = .ok row) (now : Int)
    (payload : String) :
    validate validateJSONSchema now t schemaId version payload =
      match validateJSONSchema row.content payload with
      | .error text =>
        { valid := false
          errors :=
            [⟨"payload", "SCHEMA_VALIDATION_FAILED", "Validation failed: " ++ text, []⟩] }
      | .ok result =>
        { result with schemaId := row.schemaId, schemaVersion := row.version, validatedAt := now } := by
  cases hcontent : validateJSONSchema row.content payload with
  | error text => simp only [validate, validationSchema, if_pos hversion, h, hcontent]
  | ok result => simp only [validate, validationSchema, if_pos hversion, h, hcontent]

/-- **Pinned versions**: whatever is registered and deactivated after a version was read, it is read
again, with every field as it was unless it has been withdrawn since; a version withdrawn before is
exactly what it was; and every payload is told about it what it was told before. -/
theorem pinned_version_stable (invalid : String → Option String)
    (validateJSONSchema : String → String → Except String PayloadResult) (t : SchemaTable)
    (calls : List RegistryCall) (hversion : 0 < version) (h : get t schemaId version = .ok row) :
    let later := runFrom (SchemaTable.step invalid) t calls
    (∃ row', get later schemaId version = .ok row' ∧
        (row' = row ∨ row.isActive = true ∧ ∃ now, row' = row.withdrawn now)) ∧
      ∀ now payload, validatePayload validateJSONSchema now later schemaId version payload =
        validatePayload validateJSONSchema now t schemaId version payload := by
  intro later
  obtain ⟨hrow, hkey⟩ := (get_eq_ok hversion.ne').mp h
  obtain ⟨row', hrow', hages⟩ := @keeps_runFrom invalid t calls row hrow
  have hget : get later schemaId version = .ok row' :=
    (get_eq_ok hversion.ne').mpr ⟨hrow', hages.key_eq.trans hkey⟩
  refine ⟨⟨row', hget, hages⟩, fun now payload => ?_⟩
  have hid : row'.schemaId = row.schemaId := congrArg Prod.fst hages.key_eq
  have hnumber : row'.version = row.version := congrArg Prod.snd hages.key_eq
  simp only [validatePayload, validate_of_get hversion h, validate_of_get hversion hget,
    hages.content_eq, hid, hnumber]

/-- A schema for orders. -/
def orderRequest : RegisterSchemaRequest := ⟨"order", "Order", "{}", "", "", []⟩

/-- A table with one version, and a successor that replaces it. -/
theorem pinned_version_stable_order :
    let t := SchemaTable.empty.step (fun _ => none) (.register .sqlite 5 orderRequest.schema)
    let calls : List RegistryCall :=
      [.register .sqlite 6 { orderRequest.schema with content := "true" }, .deactivate 7 "order" 1]
    let later := runFrom (SchemaTable.step fun _ => none) t calls
    let row := { completeSchema 5 orderRequest.schema with version := 1 }
    get t "order" 1 = .ok row ∧ (∃ row', get later "order" 1 = .ok row' ∧
        (row' = row ∨ row.isActive = true ∧ ∃ now, row' = row.withdrawn now)) ∧
      get later "order" 1 = .ok (row.withdrawn 7) := by
  intro t calls later row
  have h : get t "order" 1 = .ok row := by decide
  have hstable := pinned_version_stable (fun _ => none)
    (fun _ _ => .ok { valid := true, errors := [] }) t calls (by decide) h
  exact ⟨h, hstable.1, by decide⟩

/-! ## Section 4: The registry and its releases -/

/-- A request of a client that writes. -/
inductive CatalogRequest where
  | registerSchema (now : Int) (request : RegisterSchemaRequest)
  | deleteSchema (now : Int) (schemaId : String) (version : Int)

/-- The table after a request; a refused request leaves it. -/
def SchemaTable.serve (backend : Backend) (invalid : String → Option String) (t : SchemaTable) :
    CatalogRequest → SchemaTable
  | .registerSchema now request =>
    match registerSchema backend invalid now t request with
    | .ok (t', _) => t'
    | .error _ => t
  | .deleteSchema now schemaId version =>
    match deleteSchema now t schemaId version with
    | .ok (t', _) => t'
    | .error _ => t

/-- What a registration publishes: its request, and when it was accepted. -/
structure Publication where
  request : RegisterSchemaRequest
  publishedAt : Int
deriving DecidableEq, Repr

/-- The schemas of every id as numbered releases. -/
abbrev Catalog : Type := Releases String Publication Int

instance (invalid : String → Option String) (request : RegisterSchemaRequest) :
    Decidable (Accepted invalid request) := inferInstanceAs (Decidable (_ ∧ _))

/-- The releases after a request: an accepted registration publishes, a deletion withdraws. -/
def releaseStep (invalid : String → Option String) (s : Catalog) : CatalogRequest → Catalog
  | .registerSchema now request =>
    if Accepted invalid request then s.publish request.schemaId ⟨request, now⟩ else s
  | .deleteSchema now schemaId version =>
    if schemaId = "" ∨ version < 0 then s
    else s.withdraw schemaId (if version = 0 then none else some version.toNat) now

/-- The row of a release. -/
def releaseRow (number : Nat) (r : Release Publication Int) : Schema :=
  let row := completeSchema r.content.publishedAt r.content.request.schema
  let row := { row with version := number }
  match r.withdrawnAt with
  | none => row
  | some time => row.withdrawn time

/-- The rows of every id are its releases. -/
structure Represents (s : Catalog) (t : SchemaTable) : Prop where
  rows : ∀ schemaId, t.versionRows schemaId = (s schemaId).mapIdx fun i r => releaseRow (i + 1) r
  names : ∀ schemaId, ∀ r ∈ s schemaId, r.content.request.schemaId = schemaId

@[simp] theorem releaseRow_version (number : Nat) (r : Release Publication Int) :
    (releaseRow number r).version = number := by
  unfold releaseRow
  cases r.withdrawnAt <;> rfl

@[simp] theorem releaseRow_schemaId (number : Nat) (r : Release Publication Int) :
    (releaseRow number r).schemaId = r.content.request.schemaId := by
  unfold releaseRow
  cases r.withdrawnAt <;> rfl

@[simp] theorem releaseRow_isActive (number : Nat) (r : Release Publication Int) :
    (releaseRow number r).isActive = r.withdrawnAt.isNone := by
  unfold releaseRow
  cases r.withdrawnAt <;> rfl

section Representing

variable {s : Catalog}

theorem represents_empty : Represents .empty .empty := ⟨fun _ => rfl, by simp [Releases.empty]⟩

/-- The releases of an id carry the numbers `1, 2, 3, …`. -/
theorem Represents.maxVersion (h : Represents s t) (schemaId : String) :
    (t.maxVersion schemaId).getD 0 = ((s schemaId).length : Int) := by
  have hmem : ∀ e, e ∈ t.rows ∧ e.schemaId = schemaId ↔
      ∃ i, ∃ hi : i < (s schemaId).length, releaseRow (i + 1) (s schemaId)[i] = e := by
    intro e
    have hview : e ∈ t.versionRows schemaId ↔ e ∈ t.rows ∧ e.schemaId = schemaId := by
      simp [SchemaTable.versionRows]
    rw [← hview, h.rows schemaId, List.mem_mapIdx]
  cases hmax : t.maxVersion schemaId with
  | none =>
    have hnone := maxVersion_eq_none.mp hmax
    cases hlength : (s schemaId).length with
    | zero => rfl
    | succ n =>
      have hlt : 0 < (s schemaId).length := by omega
      obtain ⟨hrow, hid⟩ := (hmem _).mpr ⟨0, hlt, rfl⟩
      exact absurd hid (hnone _ hrow)
  | some m =>
    obtain ⟨⟨e, he, hid, rfl⟩, hbound⟩ := maxVersion_eq_some.mp hmax
    obtain ⟨i, hi, rfl⟩ := (hmem e).mp ⟨he, hid⟩
    -- the last release bounds the version from below
    have hlt : (s schemaId).length - 1 < (s schemaId).length := by omega
    obtain ⟨hlast, hlastId⟩ := (hmem _).mpr ⟨_, hlt, rfl⟩
    have hle := hbound _ hlast hlastId
    simp only [releaseRow_version, Option.getD_some] at hle ⊢
    omega

/-- Less than the largest version many releases leave a version for the next one. -/
theorem Represents.nextVersion_eq (h : Represents s t) {schemaId : String}
    (hfew : ((s schemaId).length : Int) < maxInt32) :
    nextVersion backend t schemaId = ((s schemaId).length + 1 : Nat) := by
  have hmax := h.maxVersion schemaId
  cases backend with
  | sqlite => simp [nextVersion, hmax]
  | postgres =>
    simp only [maxInt32] at hfew
    simp only [nextVersion, hmax, wrapInt32]
    rw [Int.bmod_eq_of_le (by omega) (by omega)]
    rfl

/-- The row of an accepted registration. -/
def nextRow (backend : Backend) (t : SchemaTable) (now : Int) (request : RegisterSchemaRequest) :
    Schema :=
  { completeSchema now request.schema with version := nextVersion backend t request.schemaId }

/-- An accepted registration stores the next version of its id. -/
theorem registerSchema_of_accepted {now : Int} {request : RegisterSchemaRequest}
    (haccepted : Accepted invalid request)
    (hfresh : (nextRow backend t now request).key ∉ t.rows.map Schema.key)
    (hfits : FitsInt32 (nextVersion backend t request.schemaId)) :
    ∃ t', registerSchema backend invalid now t request = .ok (t', nextRow backend t now request) ∧
      t'.rows = t.rows ++ [nextRow backend t now request] := by
  obtain ⟨t', hinsert⟩ : ∃ t', t.insert (nextRow backend t now request) = some t' :=
    SchemaTable.insert_isSome hfresh hfits
  have hstore : storeSchema backend t (completeSchema now request.schema) =
      insertSchema t (nextRow backend t now request) := by
    have hzero : (completeSchema now request.schema).version = 0 := rfl
    cases backend with
    | sqlite =>
      simp only [storeSchema, if_pos hzero]
      exact if_pos hfits
    | postgres =>
      simp only [storeSchema, if_pos hzero]
      rfl
  refine ⟨t', ?_, (SchemaTable.insert_eq_some hinsert).1⟩
  simp only [registerSchema, haccepted.1, register, haccepted.2, hstore, insertSchema, hinsert,
    Except.mapError]

/-- An accepted registration publishes its request. -/
theorem Represents.publish (h : Represents s t) {now : Int} {request : RegisterSchemaRequest}
    (haccepted : Accepted invalid request)
    (hfew : ((s request.schemaId).length : Int) < maxInt32) :
    ∃ t' row, registerSchema backend invalid now t request = .ok (t', row) ∧
      Represents (s.publish request.schemaId ⟨request, now⟩) t' := by
  have hnext : nextVersion backend t request.schemaId = ((s request.schemaId).length + 1 : Nat) :=
    h.nextVersion_eq hfew
  have hnumber : (nextRow backend t now request).version =
      ((s request.schemaId).length + 1 : Nat) := hnext
  have hid : (nextRow backend t now request).schemaId = request.schemaId := rfl
  have hrow : nextRow backend t now request =
      releaseRow ((s request.schemaId).length + 1) ⟨⟨request, now⟩, none⟩ := by
    simp only [nextRow, hnext, releaseRow]
  have hfresh : (nextRow backend t now request).key ∉ t.rows.map Schema.key := by
    intro hmem
    obtain ⟨e, he, hkey⟩ := List.mem_map.mp hmem
    have heid : e.schemaId = request.schemaId := congrArg Prod.fst hkey
    have hversion : e.version = (nextRow backend t now request).version := congrArg Prod.snd hkey
    -- the numbers in use are smaller
    have hview : e ∈ t.versionRows request.schemaId := List.mem_filter.mpr ⟨he, by simp [heid]⟩
    rw [h.rows, List.mem_mapIdx] at hview
    obtain ⟨i, hi, rfl⟩ := hview
    rw [releaseRow_version, hnumber] at hversion
    omega
  have hfits : FitsInt32 (nextVersion backend t request.schemaId) := by
    simp only [FitsInt32, minInt32, maxInt32, hnext] at hfew ⊢
    omega
  obtain ⟨t', hregister, hrows⟩ := registerSchema_of_accepted haccepted hfresh hfits
  refine ⟨t', _, hregister, fun schemaId => ?_, fun schemaId r hr => ?_⟩
  · rw [SchemaTable.versionRows, hrows, List.filter_append]
    have hold := h.rows schemaId
    rw [SchemaTable.versionRows] at hold
    by_cases hname : schemaId = request.schemaId
    · subst hname
      rw [hold, Releases.publish_self, List.mapIdx_append]
      simp [hrow]
    · rw [hold, Releases.publish_of_ne _ _ hname]
      simp [hid, Ne.symm hname]
  · by_cases hname : schemaId = request.schemaId
    · subst hname
      rw [Releases.publish_self] at hr
      rcases List.mem_append.mp hr with hr | hr
      · exact h.names _ r hr
      · rw [List.mem_singleton.mp hr]
    · rw [Releases.publish_of_ne _ _ hname] at hr
      exact h.names _ r hr

/-- Withdrawing a release is what the `UPDATE` does to its row. -/
theorem withdrawRow_releaseRow {now : Int} {number : Nat} {r : Release Publication Int}
    (hname : r.content.request.schemaId = schemaId) (hversion : 0 ≤ version)
    (hnumber : number ≠ 0) :
    withdrawRow now schemaId version (releaseRow number r) =
      releaseRow number (if (if version = 0 then none else some version.toNat) = none ∨
        (if version = 0 then none else some version.toNat) = some number then r.withdraw now
        else r) := by
  have hmatch : (version = 0 ∨ (number : Int) = version) ↔
      ((if version = 0 then none else some version.toNat) = none ∨
        (if version = 0 then none else some version.toNat) = some number) := by
    split
    · simp [*]
    · simp only [reduceCtorEq, Option.some.injEq, false_or]
      omega
  by_cases hwithdraws : version = 0 ∨ (number : Int) = version
  · rw [if_pos (hmatch.mp hwithdraws)]
    simp only [withdrawRow, withdraws, releaseRow_schemaId, hname, releaseRow_isActive,
      releaseRow_version, decide_true, Bool.true_and]
    cases hr : r.withdrawnAt with
    | none =>
      simp [hwithdraws, releaseRow, Release.withdraw, hr]
    | some time =>
      -- it was withdrawn already
      simp [releaseRow, Release.withdraw, hr]
  · rw [if_neg fun h => hwithdraws (hmatch.mpr h)]
    rw [not_or] at hwithdraws
    simp [withdrawRow, withdraws, hwithdraws.1, hwithdraws.2]

/-- An accepted deletion withdraws releases; when there is none to withdraw, nothing changes. -/
theorem Represents.withdraw (h : Represents s t) (now : Int) {schemaId : String} {version : Int}
    (hversion : 0 ≤ version) :
    Represents (s.withdraw schemaId (if version = 0 then none else some version.toNat) now)
      (t.withdraw now schemaId version) := by
  refine ⟨fun other => ?_, fun other r hr => ?_⟩
  · -- the ids of the rows do not change
    have hview : (t.withdraw now schemaId version).versionRows other =
        (t.versionRows other).map (withdrawRow now schemaId version) := by
      simp only [SchemaTable.versionRows, SchemaTable.withdraw, List.filter_map]
      congr 1
      refine List.filter_congr fun row _ => ?_
      have hid : (withdrawRow now schemaId version row).schemaId = row.schemaId :=
        congrArg Prod.fst (key_withdrawRow now schemaId version row)
      simp [hid]
    rw [hview, h.rows other]
    by_cases hname : other = schemaId
    · subst hname
      rw [Releases.withdraw_self]
      refine List.ext_getElem (by simp) fun i hi hi' => ?_
      simp only [List.length_map, List.length_mapIdx] at hi
      simp only [List.getElem_map, List.getElem_mapIdx]
      exact withdrawRow_releaseRow (h.names other _ (List.getElem_mem hi)) hversion (by omega)
    · rw [Releases.withdraw_of_ne _ _ _ hname]
      refine List.ext_getElem (by simp) fun i hi hi' => ?_
      simp only [List.length_map, List.length_mapIdx] at hi
      have hid := h.names other _ (List.getElem_mem hi)
      simp [withdrawRow, withdraws, hid, hname]
  · by_cases hname : other = schemaId
    · subst hname
      rw [Releases.withdraw_self, List.mem_mapIdx] at hr
      obtain ⟨i, hi, rfl⟩ := hr
      rw [apply_ite Release.content, Release.content_withdraw, ite_self]
      exact h.names other _ (List.getElem_mem hi)
    · rw [Releases.withdraw_of_ne _ _ _ hname] at hr
      exact h.names other r hr

/-- Only the rows count. -/
theorem Represents.of_rows_eq (h : Represents s t') (hrows : t'.rows = t.rows) :
    Represents s t := by
  refine ⟨fun schemaId => ?_, h.names⟩
  have hview := h.rows schemaId
  rwa [SchemaTable.versionRows, hrows] at hview

/-- **Step**: a request does to the table what it does to the releases. -/
theorem Represents.step (h : Represents s t)
    (hfew : ∀ schemaId, ((s schemaId).length : Int) < maxInt32) (request : CatalogRequest) :
    Represents (releaseStep invalid s request) (t.serve backend invalid request) := by
  cases request with
  | registerSchema now request =>
    simp only [releaseStep, SchemaTable.serve]
    split
    · rename_i haccepted
      obtain ⟨t', row, hregister, hpublish⟩ := h.publish haccepted (hfew _)
      rw [hregister]
      exact hpublish
    · rename_i haccepted
      cases hregister : registerSchema backend invalid now t request with
      | error err => exact h
      | ok answer => exact absurd (registerSchema_eq_ok hregister).accepted haccepted
  | deleteSchema now schemaId version =>
    by_cases hchecked : schemaId = "" ∨ version < 0
    · simp only [releaseStep, SchemaTable.serve, deleteSchema, checkVersionRequest, if_pos hchecked]
      exact h
    · simp only [releaseStep, SchemaTable.serve, deleteSchema, checkVersionRequest, deactivate,
        if_neg hchecked]
      rw [not_or, not_lt] at hchecked
      have hwithdraw : Represents _ (t.withdraw now schemaId version) := h.withdraw now hchecked.2
      by_cases hnone : t.rows.countP (withdraws schemaId version) = 0
      · -- no row is active, so the update finds none
        have hrows : (t.withdraw now schemaId version).rows = t.rows :=
          (List.map_congr_left fun row hrow =>
            if_neg (List.countP_eq_zero.mp hnone row hrow)).trans (List.map_id _)
        rw [if_pos hnone]
        exact hwithdraw.of_rows_eq hrows
      · rw [if_neg hnone]
        exact hwithdraw

/-- A request publishes at most one release. -/
theorem length_releaseStep (s : Catalog) (request : CatalogRequest) (schemaId : String) :
    (releaseStep invalid s request schemaId).length ≤ (s schemaId).length + 1 := by
  cases request with
  | registerSchema now request =>
    simp only [releaseStep]
    split
    · by_cases hname : schemaId = request.schemaId
      · subst hname
        simp
      · rw [Releases.publish_of_ne _ _ hname]
        omega
    · omega
  | deleteSchema now name version =>
    by_cases hchecked : name = "" ∨ version < 0
    · simp only [releaseStep, if_pos hchecked]
      omega
    · simp only [releaseStep, if_neg hchecked]
      by_cases hname : schemaId = name
      · subst hname
        simp
      · rw [Releases.withdraw_of_ne _ _ _ hname]
        omega

/-- **Run**: the table and the releases stay related as long as there is a version for every
registration. -/
theorem Represents.runFrom (h : Represents s t) {requests : List CatalogRequest}
    (hfew : ∀ schemaId, ((s schemaId).length : Int) + requests.length ≤ maxInt32) :
    Represents (Foundation.runFrom (releaseStep invalid) s requests)
      (Foundation.runFrom (SchemaTable.serve backend invalid) t requests) := by
  induction requests generalizing s t with
  | nil => exact h
  | cons request requests ih =>
    have hone : ∀ schemaId, ((s schemaId).length : Int) < maxInt32 := fun schemaId => by
      have := hfew schemaId
      simp only [List.length_cons] at this
      omega
    refine ih (h.step hone request) fun schemaId => ?_
    have hgrow := @length_releaseStep invalid s request schemaId
    have := hfew schemaId
    simp only [List.length_cons] at this
    omega

end Representing

/-! ## Section 5: What the releases say about reads -/

section Reads

variable {s : Catalog}

/-- A row of the table is a release. -/
theorem Represents.mem_iff (h : Represents s t) :
    row ∈ t.rows ∧ row.schemaId = schemaId ↔
      ∃ i, ∃ hi : i < (s schemaId).length, releaseRow (i + 1) (s schemaId)[i] = row := by
  have hview : row ∈ t.versionRows schemaId ↔ row ∈ t.rows ∧ row.schemaId = schemaId := by
    simp [SchemaTable.versionRows]
  rw [← hview, h.rows schemaId, List.mem_mapIdx]

/-- `Get` finds the release with the number. -/
theorem Represents.get (h : Represents s t) (schemaId : String) {version : Int}
    (hversion : 0 < version) :
    (Schemas.get t schemaId version).toOption =
      (s.lookup schemaId version.toNat).map (releaseRow version.toNat) := by
  have hpos : version.toNat ≠ 0 := by omega
  simp only [Releases.lookup, if_neg hpos]
  cases hlookup : (s schemaId)[version.toNat - 1]? with
  | some r =>
    obtain ⟨hlt, rfl⟩ := List.getElem?_eq_some_iff.mp hlookup
    have hnumber : version.toNat - 1 + 1 = version.toNat := by omega
    obtain ⟨hrow, hid⟩ := h.mem_iff.mpr ⟨_, hlt, rfl⟩
    rw [hnumber] at hrow hid
    have hkey : (releaseRow version.toNat (s schemaId)[version.toNat - 1]).key =
        (schemaId, version) := Prod.ext hid (by simp [Schema.key, hversion.le])
    rw [(get_eq_ok hversion.ne').mpr ⟨hrow, hkey⟩]
    rfl
  | none =>
    cases hget : Schemas.get t schemaId version with
    | error err => rfl
    | ok row =>
      obtain ⟨hrow, hkey⟩ := (get_eq_ok hversion.ne').mp hget
      have hid : row.schemaId = schemaId := congrArg Prod.fst hkey
      obtain ⟨i, hi, rfl⟩ := h.mem_iff.mp ⟨hrow, hid⟩
      have hnumber : ((i + 1 : Nat) : Int) = version := by
        simpa [Schema.key] using congrArg Prod.snd hkey
      have hnone := List.getElem?_eq_none_iff.mp hlookup
      omega

/-- `GetLatest` finds the last release that was not withdrawn. -/
theorem Represents.getLatest (h : Represents s t) (schemaId : String) :
    (Schemas.getLatest t schemaId).toOption =
      (s.latest schemaId).map fun e => releaseRow e.1 e.2 := by
  let numbered := (s schemaId).mapIdx fun i r => (i + 1, r)
  have hrows : t.versionRows schemaId = numbered.map fun e => releaseRow e.1 e.2 := by
    rw [h.rows schemaId]
    exact List.ext_getElem (by simp [numbered]) fun i hi hi' => by simp [numbered]
  have hactive : (t.rows.filter fun row => row.schemaId = schemaId && row.isActive) =
      (numbered.filter fun e => e.2.withdrawnAt.isNone).map fun e => releaseRow e.1 e.2 := by
    have hfilter : (t.rows.filter fun row => row.schemaId = schemaId && row.isActive) =
        (t.versionRows schemaId).filter (·.isActive) := by
      rw [SchemaTable.versionRows, List.filter_filter]
      exact List.filter_congr fun row _ => Bool.and_comm _ _
    rw [hfilter, hrows, List.filter_map]
    congr 1
    exact List.filter_congr fun e _ => releaseRow_isActive e.1 e.2
  have hsorted : ((numbered.filter fun e => e.2.withdrawnAt.isNone).map
      fun e => releaseRow e.1 e.2).Pairwise fun a b => a.version < b.version := by
    refine List.pairwise_map.mpr ((List.Pairwise.filter _ ?_))
    refine List.pairwise_iff_getElem.mpr fun i j hi hj hij => ?_
    simp only [numbered, List.getElem_mapIdx, releaseRow_version]
    omega
  have hlatest : s.latest schemaId = (numbered.filter fun e => e.2.withdrawnAt.isNone).getLast? :=
    rfl
  rw [hlatest, Schemas.getLatest, hactive, insertionSort_versions hsorted, List.head?_reverse,
    List.getLast?_map]
  cases (numbered.filter fun e => e.2.withdrawnAt.isNone).getLast? <;> rfl

/-- `getMetadata` counts the releases. -/
theorem Represents.getMetadata (h : Represents s t) (schemaId : String) :
    ((Schemas.getMetadata t schemaId).toOption.map fun m => (m.latestVersion, m.totalVersions)) =
      if s schemaId = [] then none
      else some (((s schemaId).length : Int), (s schemaId).length) := by
  have hmax := h.maxVersion schemaId
  have hlength : (t.versionRows schemaId).length = (s schemaId).length := by
    rw [h.rows schemaId, List.length_mapIdx]
  by_cases hempty : s schemaId = []
  · have hview : t.versionRows schemaId = [] := by
      rw [h.rows schemaId, hempty]
      rfl
    have hnone : t.maxVersion schemaId = none := by
      rw [SchemaTable.maxVersion, hview]
      rfl
    rw [if_pos hempty, Schemas.getMetadata, hnone]
    rfl
  · have hview : t.versionRows schemaId ≠ [] := fun hview => by
      rw [hview] at hlength
      exact hempty (List.length_eq_zero_iff.mp hlength.symm)
    have hsome : ∀ f : Schema → Int, (t.versionRows schemaId).map f ≠ [] := fun f hmap =>
      hview (List.map_eq_nil_iff.mp hmap)
    obtain ⟨m, hm⟩ := Option.ne_none_iff_exists'.mp
      fun hnone => hsome (·.version) (List.max?_eq_none_iff.mp hnone)
    obtain ⟨c, hc⟩ := Option.ne_none_iff_exists'.mp
      fun hnone => hsome (·.createdAt) (List.min?_eq_none_iff.mp hnone)
    obtain ⟨u, hu⟩ := Option.ne_none_iff_exists'.mp
      fun hnone => hsome (·.updatedAt) (List.max?_eq_none_iff.mp hnone)
    have hversion : t.maxVersion schemaId = some m := hm
    rw [hversion, Option.getD_some] at hmax
    rw [if_neg hempty]
    simp only [Schemas.getMetadata, hversion, hc, hu, Except.toOption, Option.map_some, hmax,
      hlength]

/-- **Refinement**: whatever clients register and delete, the registry of either backend reads as
numbered releases: a version is the release of that number, the latest schema is the last release
that was not withdrawn, and the metadata count the releases. A version for every registration is
needed, since Postgres starts again from the smallest number. -/
theorem catalog_refines_releases (backend : Backend) (invalid : String → Option String)
    (requests : List CatalogRequest) (hfew : (requests.length : Int) ≤ maxInt32) :
    let t := Foundation.runFrom (SchemaTable.serve backend invalid) .empty requests
    let s := Foundation.runFrom (releaseStep invalid) .empty requests
    (∀ schemaId version, 0 < version → (Schemas.get t schemaId version).toOption =
        (s.lookup schemaId version.toNat).map (releaseRow version.toNat)) ∧
      (∀ schemaId, (Schemas.getLatest t schemaId).toOption =
        (s.latest schemaId).map fun e => releaseRow e.1 e.2) ∧
      ∀ schemaId, ((Schemas.getMetadata t schemaId).toOption.map fun m =>
          (m.latestVersion, m.totalVersions)) =
        if s schemaId = [] then none
        else some (((s schemaId).length : Int), (s schemaId).length) := by
  intro t s
  have h : Represents s t := represents_empty.runFrom fun schemaId => by
    simpa [Releases.empty] using hfew
  exact ⟨fun schemaId version hversion => h.get schemaId hversion, h.getLatest, h.getMetadata⟩

/-- Two versions of a schema, the second one withdrawn: the first is the latest again. -/
theorem catalog_refines_releases_order :
    let requests : List CatalogRequest :=
      [.registerSchema 5 orderRequest, .registerSchema 6 { orderRequest with content := "true" },
       .deleteSchema 7 "order" 2]
    let t := Foundation.runFrom (SchemaTable.serve .postgres fun _ => none) .empty requests
    let s := Foundation.runFrom (releaseStep fun _ => none) .empty requests
    (Schemas.getLatest t "order").toOption =
        (s.latest "order").map (fun e => releaseRow e.1 e.2) ∧
      s.latest "order" = some (1, ⟨⟨orderRequest, 5⟩, none⟩) := by
  intro requests t s
  have h := catalog_refines_releases .postgres (fun _ => none) requests (by decide)
  exact ⟨h.2.1 "order", by decide⟩

end Reads

end Nzovu.Schemas
