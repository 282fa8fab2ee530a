import Nzovu.Repository.NamePages
import Nzovu.Schemas.Versions

/-!
# Reading Through the Registry

What the pages of `ListSchemas` hold while schemas are registered and deleted. Every schema id comes
with its greatest version, among the active ones if only these are asked for.

- Section 1: the listed versions.
- Section 2: the pages.
-/

namespace Nzovu.Schemas

open Nzovu.Foundation
open Nzovu.Repository
open Nzovu.Schedules

variable {t : SchemaTable} {row : Schema} {idPrefix : String} {activeOnly : Bool}

/-! ## Section 1: The listed versions -/

/-- The first row of a partition is the listed one with the greatest version. -/
theorem mem_latestRows :
    row ∈ latestRows t idPrefix activeOnly ↔
      row ∈ t.rows ∧ listed idPrefix activeOnly row = true ∧
        ∀ other ∈ t.rows, listed idPrefix activeOnly other = true →
          other.schemaId = row.schemaId → other.version ≤ row.version := by
  simp only [latestRows, rowNumber, List.mem_filter, Nat.add_eq_right, decide_eq_true_eq,
    List.countP_eq_zero, Bool.and_eq_true, not_and, not_lt, and_imp, and_assoc]

/-- Every schema id is listed once. -/
theorem latestRows_nodup (t : SchemaTable) (idPrefix : String) (activeOnly : Bool) :
    ((latestRows t idPrefix activeOnly).map (·.schemaId)).Nodup := by
  have hrows : (latestRows t idPrefix activeOnly).Nodup :=
    ((List.Nodup.of_map _ t.keys_nodup).filter _).filter _
  refine hrows.map_on fun a ha b hb hid => ?_
  obtain ⟨ha, halisted, hamax⟩ := mem_latestRows.mp ha
  obtain ⟨hb, hblisted, hbmax⟩ := mem_latestRows.mp hb
  -- each has the greater version
  have hversion : a.version = b.version :=
    le_antisymm (hbmax a ha halisted hid) (hamax b hb hblisted hid.symm)
  exact SchemaTable.eq_of_key_eq ha hb (Prod.ext hid hversion)

/-- A schema id with a version that may be listed is listed. -/
theorem exists_mem_latestRows (hrow : row ∈ t.rows)
    (hlisted : listed idPrefix activeOnly row = true) :
    ∃ latest ∈ latestRows t idPrefix activeOnly, latest.schemaId = row.schemaId := by
  let versions := t.rows.filter fun other =>
    listed idPrefix activeOnly other && other.schemaId = row.schemaId
  have hmem : row ∈ versions := List.mem_filter.mpr ⟨hrow, by simp [hlisted]⟩
  obtain ⟨latest, hlatest⟩ := Option.ne_none_iff_exists'.mp fun hnone : versions.argmax
    (fun other => other.version) = none => List.ne_nil_of_mem hmem (List.argmax_eq_none.mp hnone)
  obtain ⟨hin, hselected⟩ := List.mem_filter.mp (List.argmax_mem hlatest)
  simp only [Bool.and_eq_true, decide_eq_true_eq] at hselected
  refine ⟨latest, mem_latestRows.mpr ⟨hin, hselected.1, fun other hother holisted hid => ?_⟩,
    hselected.2⟩
  exact List.le_of_mem_argmax (List.mem_filter.mpr
    ⟨hother, by simp [holisted, hid.trans hselected.2]⟩) hlatest

/-! ## Section 2: The pages -/

/-- What the list says about a listed row. -/
def rowInfo (t : SchemaTable) (row : Schema) : SchemaInfo :=
  let metadata := familyMetadata t row
  ⟨row.name, row.schemaId, row.description, row.version, metadata.createdAt, metadata.updatedAt,
    metadata.totalVersions, row.isActive⟩

/-- The list without pages. -/
def listedSchemas (idPrefix : String) (activeOnly : Bool) (t : SchemaTable) : List SchemaInfo :=
  (latestRows t idPrefix activeOnly).map (rowInfo t)

theorem lookup_map {α β : Type} {rows : List α} {name : α → String} (f : α → β)
    (hnames : (rows.map name).Nodup) {row : α} (hrow : row ∈ rows) :
    (rows.map fun row => (name row, f row)).lookup (name row) = some (f row) := by
  induction rows with
  | nil => cases hrow
  | cons first rest ih =>
    rw [List.map_cons, List.nodup_cons] at hnames
    rw [List.map_cons, List.lookup_cons]
    rcases List.mem_cons.mp hrow with rfl | hrest
    · simp
    · have hne : name row ≠ name first := fun heq =>
        hnames.1 (heq ▸ List.mem_map.mpr ⟨row, hrest, rfl⟩)
      rw [beq_false_of_ne hne]
      exact ih hnames.2 hrest

section Pages

variable {κ : Type} [LinearOrder κ] (collate : String → κ) (idPrefix : String) (activeOnly : Bool)

/-- A page of the registry is a page by name of the listed rows. -/
theorem listWithOptions_eq (t : SchemaTable) {limit : Int} (cursor : String) (hlimit : 0 < limit) :
    let result := listWithOptions collate t ⟨idPrefix, limit, cursor, activeOnly⟩
    (result.schemas, result.nextCursor) =
      namePage collate (·.schemaId) (latestRows t idPrefix activeOnly) limit cursor := by
  simp only [listWithOptions, namePage, if_neg (not_le.mpr hlimit)]
  generalize (((latestRows t idPrefix activeOnly).filter fun row =>
    collate cursor < collate row.schemaId).insertionSort fun a b =>
      collate a.schemaId ≤ collate b.schemaId).take (limit + 1).toNat = found
  by_cases hlength : found.length ≤ limit.toNat
  · rw [if_pos hlength, if_neg (not_lt.mpr hlength), List.take_of_length_le hlength]
  · rw [if_neg hlength, if_pos (not_le.mp hlength)]

/-- The metadata of a page describe its schemas. -/
theorem map_schemaInfo (t : SchemaTable) (limit : Int) (cursor : String) :
    let result := listWithOptions collate t ⟨idPrefix, limit, cursor, activeOnly⟩
    result.schemas.map (schemaInfo result.metadata) = result.schemas.map (rowInfo t) := by
  intro result
  refine List.map_congr_left fun row hrow => ?_
  have hlookup : result.metadata.lookup row.schemaId = some (familyMetadata t row) := by
    refine lookup_map (familyMetadata t) ?_ (List.mem_of_mem_take hrow)
    -- the rows of the page are among the listed ones
    refine List.Nodup.sublist (List.Sublist.map _ (List.take_sublist _ _)) ?_
    refine ((List.perm_insertionSort _ _).map _).nodup_iff.mpr ?_
    exact (latestRows_nodup t idPrefix activeOnly).sublist (List.filter_sublist.map _)
  simp only [schemaInfo, hlookup, rowInfo, Option.getD_some]

/-- The page of a request. -/
def schemaPage (t : SchemaTable) (limit : Int) (cursor : String) : List SchemaInfo × String :=
  let result := listWithOptions collate t ⟨idPrefix, limit, cursor, activeOnly⟩
  (result.schemas.map (schemaInfo result.metadata), result.nextCursor)

theorem schemaPage_eq (t : SchemaTable) {limit : Int} (cursor : String) (hlimit : 0 < limit) :
    schemaPage collate idPrefix activeOnly t limit cursor =
      namePage collate SchemaInfo.schemaId (listedSchemas idPrefix activeOnly t) limit cursor := by
  obtain ⟨hschemas, hnext⟩ :=
    Prod.mk.inj (listWithOptions_eq collate idPrefix activeOnly t cursor hlimit)
  rw [schemaPage, map_schemaInfo, hschemas, hnext, listedSchemas, namePage_map]
  rfl

/-- The total is the length of the list without pages, whatever the page. -/
theorem totalCount_eq (t : SchemaTable) (limit : Int) (cursor : String) :
    (listWithOptions collate t ⟨idPrefix, limit, cursor, activeOnly⟩).totalCount =
      (listedSchemas idPrefix activeOnly t).length := by
  let ids := (t.rows.filter (listed idPrefix activeOnly)).map (·.schemaId)
  have hsame : ids.dedup.Perm ((latestRows t idPrefix activeOnly).map (·.schemaId)) := by
    refine (List.perm_ext_iff_of_nodup (List.nodup_dedup _) (latestRows_nodup _ _ _)).mpr
      fun schemaId => ?_
    simp only [ids, List.mem_dedup, List.mem_map, List.mem_filter]
    constructor
    · rintro ⟨row, ⟨hrow, hlisted⟩, rfl⟩
      exact exists_mem_latestRows hrow hlisted
    · rintro ⟨row, hrow, rfl⟩
      obtain ⟨hin, hlisted, -⟩ := mem_latestRows.mp hrow
      exact ⟨row, ⟨hin, hlisted⟩, rfl⟩
  have hlength := hsame.length_eq
  rwa [List.length_map, ← List.length_map (rowInfo t)] at hlength

/-- One request of a traversal. -/
def schemaRequest (t : SchemaTable) (requested : Int) (token : Option PageToken) :
    Except StorageError (List SchemaInfo × Option PageToken) :=
  (listSchemas collate t ⟨idPrefix, requested, token, activeOnly⟩).map fun response =>
    (response.schemas, response.nextPageToken)

theorem schemaRequest_eq (t : SchemaTable) (requested : Int) (token : Option PageToken) :
    schemaRequest collate idPrefix activeOnly t requested token =
      nameRequest "schemas" (listFilter idPrefix activeOnly)
        (schemaPage collate idPrefix activeOnly t) requested token := by
  simp only [schemaRequest, listSchemas, nameRequest, bind, Except.bind]
  cases positionPageRequest requested token "schemas" (listFilter idPrefix activeOnly) with
  | error err => rfl
  | ok request =>
    simp only [schemaPage]
    cases positionPageToken "schemas" (listFilter idPrefix activeOnly)
      (listWithOptions collate t ⟨idPrefix, request.1, request.2, activeOnly⟩).nextCursor <;> rfl

variable {collate idPrefix activeOnly}

theorem listedSchemas_nodup (t : SchemaTable) :
    ((listedSchemas idPrefix activeOnly t).map SchemaInfo.schemaId).Nodup := by
  rw [listedSchemas, List.map_map]
  exact latestRows_nodup t idPrefix activeOnly

/-- **Registry traversal**: whatever is registered and deactivated between the requests, the pages of
`ListSchemas` hold schema ids in their order, none twice, each as it was at one of the requests; once
no token is returned they hold every id that had a version to list at each request exactly once, and
if inactive versions are listed too, every id that was there at the first request; and a returned
token is always answered. -/
theorem schemaTraversal (invalid : String → Option String) (hcollate : Collates collate)
    (t : SchemaTable) {visits : List (SchemaTable × Int)} {schemas : List SchemaInfo}
    {next : Option PageToken}
    (h : Paging (SchemaTable.step invalid) (schemaRequest collate idPrefix activeOnly) t none visits
      schemas next) :
    schemas.Pairwise (fun a b => collate a.schemaId < collate b.schemaId) ∧
      (∀ info ∈ schemas, ∃ v ∈ visits, info ∈ listedSchemas idPrefix activeOnly v.1) ∧
      (next = none → ∀ schemaId, schemaId ≠ "" →
        (∀ v ∈ visits, ∃ row ∈ v.1.rows, row.schemaId = schemaId ∧
          listed idPrefix activeOnly row = true) →
        (schemas.map (·.schemaId)).count schemaId = 1) ∧
      (next = none → activeOnly = false → ∀ first ∈ visits.head?, ∀ row ∈ first.1.rows,
        row.schemaId ≠ "" → hasNamePrefix idPrefix row.schemaId = true →
          (schemas.map (·.schemaId)).count row.schemaId = 1) ∧
      ∀ token, next = some token → ∀ later requested, 0 ≤ requested → requested ≤ maxPageSize →
        ∃ answer, schemaRequest collate idPrefix activeOnly later requested (some token) =
          .ok answer := by
  have hpaging : Paging (SchemaTable.step invalid) (fun t requested token =>
      nameRequest "schemas" (listFilter idPrefix activeOnly)
        (namePage collate SchemaInfo.schemaId (listedSchemas idPrefix activeOnly t)) requested token)
      t none visits schemas next := by
    have hrequest : schemaRequest collate idPrefix activeOnly = fun t requested token =>
        nameRequest "schemas" (listFilter idPrefix activeOnly)
          (namePage collate SchemaInfo.schemaId (listedSchemas idPrefix activeOnly t)) requested
            token := by
      funext t requested token
      rw [schemaRequest_eq]
      exact nameRequest_congr fun limit cursor hlimit => schemaPage_eq _ _ _ t cursor hlimit
    exact hrequest ▸ h
  obtain ⟨horder, -, hmet, hcomplete, hanswered⟩ :=
    nameTraversal hcollate (fun s => listedSchemas_nodup s) hpaging
  have hlists : next = none → ∀ schemaId, schemaId ≠ "" →
      (∀ v ∈ visits, ∃ row ∈ v.1.rows, row.schemaId = schemaId ∧
        listed idPrefix activeOnly row = true) →
      (schemas.map (·.schemaId)).count schemaId = 1 := by
    intro hnone schemaId hne hstays
    refine hcomplete hnone schemaId hne fun v hv => ?_
    obtain ⟨row, hrow, rfl, hlisted⟩ := hstays v hv
    obtain ⟨latest, hlatest, hid⟩ := exists_mem_latestRows hrow hlisted
    exact ⟨rowInfo v.1 latest, List.mem_map.mpr ⟨latest, hlatest, rfl⟩, hid⟩
  refine ⟨horder, hmet, hlists, fun hnone hall first hfirst row hrow hne hprefix => ?_,
    fun token hnext later requested hlow hhigh => ?_⟩
  · refine hlists hnone row.schemaId hne fun v hv => ?_
    -- no call takes a row away
    have hkeeps : Keeps first.1 v.1 := by
      cases visits with
      | nil => cases hfirst
      | cons head rest =>
        cases hfirst
        rcases List.mem_cons.mp hv with rfl | hv
        · exact .refl _
        · obtain ⟨calls, hcalls⟩ := (List.pairwise_cons.mp h.reached.2).1 v hv
          exact hcalls ▸ keeps_runFrom _ calls
    obtain ⟨row', hrow', hages⟩ := hkeeps row hrow
    have hid : row'.schemaId = row.schemaId := congrArg Prod.fst hages.key_eq
    exact ⟨row', hrow', hid, by simpa [listed, hall, hid, hasNamePrefix] using hprefix⟩
  · rw [schemaRequest_eq]
    exact hanswered token hnext _ requested hlow hhigh

/-- What the list says of a schema with one version. -/
def orderInfo (schemaId : String) (updatedAt : Int) (isActive : Bool) : SchemaInfo :=
  ⟨"Order", schemaId, "", 1, 5, updatedAt, 1, isActive⟩

/-- A schema is withdrawn and another one registered between the pages. -/
theorem schemaTraversal_withdrawn :
    let request (schemaId : String) : RegistryCall :=
      .register .sqlite 5 { orderRequest.schema with schemaId := schemaId }
    ∃ visits schemas,
      Paging (SchemaTable.step fun _ => none) (schemaRequest String.toList "" false)
        (runFrom (SchemaTable.step fun _ => none) .empty [request "order", request "payment"]) none
          visits schemas none ∧
      schemas.map (·.schemaId) = ["order", "parcel", "payment"] ∧
      (schemas.map (·.schemaId)).count "payment" = 1 := by
  intro request
  let t := runFrom (SchemaTable.step fun _ => none) .empty [request "order", request "payment"]
  let later := runFrom (SchemaTable.step fun _ => none) t
    [.deactivate 6 "payment" 0, request "parcel"]
  have hfirst : schemaRequest String.toList "" false t 1 none = .ok ([orderInfo "order" 5 true],
      some { version := 1, scope := "schemas", filter := ":false", position := "order" }) := by
    decide +kernel
  have hsecond : schemaRequest String.toList "" false later 2
      (some { version := 1, scope := "schemas", filter := ":false", position := "order" }) =
        .ok ([orderInfo "parcel" 5 true, orderInfo "payment" 6 false], none) := by
    decide +kernel
  have h := Paging.more [] (1 : Int) hfirst (.page _ (2 : Int) hsecond)
  obtain ⟨-, -, -, hcomplete, -⟩ := schemaTraversal (fun _ => none) collates_toList t h
  refine ⟨_, _, h, by decide, hcomplete rfl rfl _ rfl
    { completeSchema 5 orderRequest.schema with schemaId := "payment", version := 1 } ?_ (by decide)
      (by decide)⟩
  decide +kernel

end Pages

end Nzovu.Schemas
