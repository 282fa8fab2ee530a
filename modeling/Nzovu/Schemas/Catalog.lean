import Nzovu.Repository.PageTokens
import Nzovu.Schemas.Registration

/-!
# Reading and Withdrawing Schemas

Translation of the other methods of both registries, `Get`, `GetLatest`, `ListWithOptions`, `List`,
`Deactivate` and `Validate`, and of their handlers in `pkg/nzovu/server.go`. The library that
validates a payload against the text of a schema is a parameter, and so is the order of texts in the
database, which `collate` maps to that of some type.

- Section 1: one schema.
- Section 2: lists of schemas.
- Section 3: withdrawing versions.
- Section 4: validating payloads.
-/

namespace Nzovu.Schemas

open Nzovu.Foundation
open Nzovu.Repository
open Nzovu.Schedules

/-! ## Section 1: One schema -/

/-- `GetLatest`: the active version with the greatest number. -/
def getLatest (t : SchemaTable) (schemaId : String) : Except RequestError Schema :=
  let active := t.rows.filter fun row => row.schemaId = schemaId && row.isActive
  match (active.insertionSort fun a b => b.version ≤ a.version).head? with
  | none => .error ⟨.notFound, "schema " ++ schemaId.quote ++ " not found", []⟩
  | some row => .ok row

/-- `Get`: the version, active or not; version `0` is the latest active one. -/
def get (t : SchemaTable) (schemaId : String) (version : Int) : Except RequestError Schema :=
  if version = 0 then getLatest t schemaId
  else
    match t.rows.find? fun row => row.schemaId = schemaId && row.version = version with
    | none =>
      .error ⟨.notFound, "schema not found: " ++ schemaId ++ " version " ++ toString version, []⟩
    | some row => .ok row

/-- The check of the handlers that name a version. -/
def checkVersionRequest (schemaId : String) (version : Int) : Except RequestError Unit :=
  if schemaId = "" ∨ version < 0 then
    .error (Schedules.invalidArgument "schema id is required and version must be >= 0")
  else .ok ()

/-- `GetSchema`. -/
def getSchema (t : SchemaTable) (schemaId : String) (version : Int) : Except RequestError Schema :=
  match checkVersionRequest schemaId version with
  | .error err => .error err
  | .ok _ => (get t schemaId version).mapError (prefixMessage "failed to get schema")

/-! ## Section 2: Lists of schemas -/

/-- `ListOptions`. -/
structure ListOptions where
  idPrefix : String
  limit : Int
  cursor : String
  activeOnly : Bool
deriving DecidableEq, Repr

/-- `ListResult`; its map of metadata is a list of pairs. -/
structure ListResult where
  schemas : List Schema
  totalCount : Nat
  metadata : List (String × SchemaMetadata)
  nextCursor : String
deriving DecidableEq, Repr

/-- `instr(schema_id, ?) = 1 AND (? = 0 OR is_active = 1)`. -/
def listed (idPrefix : String) (activeOnly : Bool) (row : Schema) : Bool :=
  idPrefix.toList.isPrefixOf row.schemaId.toList && (!activeOnly || row.isActive)

/-- `ROW_NUMBER() OVER (PARTITION BY schema_id ORDER BY version DESC)`. -/
def rowNumber (rows : List Schema) (row : Schema) : Nat :=
  rows.countP (fun other => other.schemaId = row.schemaId && row.version < other.version) + 1

/-- The rows of `latest`, without the condition on the cursor. -/
def latestRows (t : SchemaTable) (idPrefix : String) (activeOnly : Bool) : List Schema :=
  let ranked := t.rows.filter (listed idPrefix activeOnly)
  ranked.filter fun row => rowNumber ranked row = 1

/-- The metadata of a listed row: its version, and the aggregates over all versions. -/
def familyMetadata (t : SchemaTable) (row : Schema) : SchemaMetadata :=
  let rows := t.versionRows row.schemaId
  ⟨row.schemaId, row.version, rows.length, ((rows.map (·.createdAt)).min?).getD 0,
    ((rows.map (·.updatedAt)).max?).getD 0⟩

section Listing

variable {κ : Type} [LinearOrder κ] (collate : String → κ)

/-- `ListWithOptions`. -/
def listWithOptions (t : SchemaTable) (options : ListOptions) : ListResult :=
  let limit := if options.limit ≤ 0 then maxInt32 else options.limit
  let ids := (t.rows.filter (listed options.idPrefix options.activeOnly)).map (·.schemaId)
  let behind := (latestRows t options.idPrefix options.activeOnly).filter fun row =>
    collate options.cursor < collate row.schemaId
  let found := (behind.insertionSort fun a b => collate a.schemaId ≤ collate b.schemaId).take
    (limit + 1).toNat
  let schemas := found.take limit.toNat
  { schemas := schemas
    totalCount := ids.dedup.length
    metadata := found.map fun row => (row.schemaId, familyMetadata t row)
    nextCursor :=
      if limit.toNat < found.length then ((schemas.getLast?).map (·.schemaId)).getD "" else "" }

/-- `List`. -/
def list (t : SchemaTable) : List Schema :=
  (listWithOptions collate t ⟨"", maxInt32, "", true⟩).schemas

/-- `SchemaInfo`. -/
structure SchemaInfo where
  name : String
  schemaId : String
  description : String
  latestVersion : Int
  createdAt : Int
  updatedAt : Int
  versionCount : Nat
  isActive : Bool
deriving DecidableEq, Repr

/-- `time.Time{}.UnixMilli()`. -/
def zeroTimeMilli : Int := -62135596800000

/-- The information about a listed schema; the metadata of an id that is not in the map is zero. -/
def schemaInfo (metadata : List (String × SchemaMetadata)) (schema : Schema) : SchemaInfo :=
  let found := (metadata.lookup schema.schemaId).getD ⟨"", 0, 0, zeroTimeMilli, zeroTimeMilli⟩
  ⟨schema.name, schema.schemaId, schema.description, schema.version, found.createdAt,
    found.updatedAt, found.totalVersions, schema.isActive⟩

/-- `ListSchemasRequest`. -/
structure ListSchemasRequest where
  idPrefix : String
  pageSize : Int
  pageToken : Option PageToken
  activeOnly : Bool
deriving DecidableEq, Repr

/-- `ListSchemasResponse`. -/
structure ListSchemasResponse where
  schemas : List SchemaInfo
  totalCount : Nat
  nextPageToken : Option PageToken
deriving DecidableEq, Repr

/-- `fmt.Sprintf("%s:%t", prefix, activeOnly)`. -/
def listFilter (idPrefix : String) (activeOnly : Bool) : String :=
  idPrefix ++ ":" ++ (if activeOnly then "true" else "false")

/-- `ListSchemas`. -/
def listSchemas (t : SchemaTable) (request : ListSchemasRequest) :
    Except StorageError ListSchemasResponse := do
  let filter := listFilter request.idPrefix request.activeOnly
  let (size, cursor) ← positionPageRequest request.pageSize request.pageToken "schemas" filter
  let result := listWithOptions collate t ⟨request.idPrefix, size, cursor, request.activeOnly⟩
  let nextPageToken ← positionPageToken "schemas" filter result.nextCursor
  pure ⟨result.schemas.map (schemaInfo result.metadata), result.totalCount, nextPageToken⟩

end Listing

/-! ## Section 3: Withdrawing versions -/

/-- The rows that `Deactivate` changes; version `0` is every version. -/
def withdraws (schemaId : String) (version : Int) (row : Schema) : Bool :=
  row.schemaId = schemaId && row.isActive && (version = 0 || row.version = version)

/-- A row after its deactivation. -/
def Schema.withdrawn (now : Int) (row : Schema) : Schema :=
  { row with isActive := false, updatedAt := now }

/-- The `UPDATE` of `Deactivate` on one row. -/
def withdrawRow (now : Int) (schemaId : String) (version : Int) (row : Schema) : Schema :=
  if withdraws schemaId version row then row.withdrawn now else row

@[simp] theorem key_withdrawRow (now : Int) (schemaId : String) (version : Int) (row : Schema) :
    (withdrawRow now schemaId version row).key = row.key := by
  unfold withdrawRow
  split <;> rfl

/-- The `UPDATE` of `Deactivate`. -/
def SchemaTable.withdraw (t : SchemaTable) (now : Int) (schemaId : String) (version : Int) :
    SchemaTable where
  rows := t.rows.map (withdrawRow now schemaId version)
  keys_nodup := by
    rw [List.map_map]
    have hkeys : Schema.key ∘ withdrawRow now schemaId version = Schema.key :=
      funext (key_withdrawRow now schemaId version)
    rw [hkeys]
    exact t.keys_nodup
  fits := by
    intro row hrow
    obtain ⟨old, hold, rfl⟩ := List.mem_map.mp hrow
    have hversion : (withdrawRow now schemaId version old).version = old.version :=
      congrArg Prod.snd (key_withdrawRow now schemaId version old)
    rw [hversion]
    exact t.fits old hold

/-- `Deactivate`: the table and the number of versions it has withdrawn, an `int32`. -/
def deactivate (now : Int) (t : SchemaTable) (schemaId : String) (version : Int) :
    Except RequestError (SchemaTable × Int) :=
  let rowsAffected := t.rows.countP (withdraws schemaId version)
  if rowsAffected = 0 then
    .error ⟨.notFound, "active schema not found: " ++ schemaId ++ " version " ++ toString version,
      []⟩
  else .ok (t.withdraw now schemaId version, wrapInt32 rowsAffected)

/-- `DeleteSchema`, with the `versions_deleted` of its answer. -/
def deleteSchema (now : Int) (t : SchemaTable) (schemaId : String) (version : Int) :
    Except RequestError (SchemaTable × Int) :=
  match checkVersionRequest schemaId version with
  | .error err => .error err
  | .ok _ => (deactivate now t schemaId version).mapError (prefixMessage "failed to delete schema")

/-! ## Section 4: Validating payloads -/

/-- `schema.v1.ValidationError`. -/
structure PayloadError where
  field : String
  errorCode : String
  message : String
  details : List (String × String) := []
deriving DecidableEq, Repr

/-- `schema.v1.ValidationResult`. -/
structure PayloadResult where
  valid : Bool
  errors : List PayloadError
  schemaId : String := ""
  schemaVersion : Int := 0
  validatedAt : Int := 0
deriving DecidableEq, Repr

/-- The schema that `Validate` reads: only a positive version is looked up as such. -/
def validationSchema (t : SchemaTable) (schemaId : String) (version : Int) :
    Except RequestError Schema :=
  if 0 < version then get t schemaId version else getLatest t schemaId

/-- `Validate`. `validateJSONSchema` is what the library says of the content and the payload. -/
def validate (validateJSONSchema : String → String → Except String PayloadResult) (now : Int)
    (t : SchemaTable) (schemaId : String) (version : Int) (payload : String) : PayloadResult :=
  match validationSchema t schemaId version with
  | .error _ =>
    { valid := false
      errors := [⟨"schema", "SCHEMA_NOT_FOUND", "Schema not found: " ++ schemaId, []⟩]
      schemaId := schemaId
      schemaVersion := version }
  | .ok schema =>
    match validateJSONSchema schema.content payload with
    | .error text =>
      { valid := false
        errors := [⟨"payload", "SCHEMA_VALIDATION_FAILED", "Validation failed: " ++ text, []⟩] }
    | .ok result =>
      { result with
        schemaId := schema.schemaId
        schemaVersion := schema.version
        validatedAt := now }

/-- `ValidatePayloadResponse`. -/
structure ValidatePayloadResponse where
  valid : Bool
  errors : List PayloadError
  schemaId : String
  schemaVersion : Int
deriving DecidableEq, Repr

/-- The response that is made of a result. -/
def PayloadResult.response (result : PayloadResult) : ValidatePayloadResponse :=
  ⟨result.valid, result.errors, result.schemaId, result.schemaVersion⟩

/-- `ValidatePayload`. -/
def validatePayload (validateJSONSchema : String → String → Except String PayloadResult)
    (now : Int) (t : SchemaTable) (schemaId : String) (version : Int) (payload : String) :
    Except RequestError ValidatePayloadResponse :=
  match checkVersionRequest schemaId version with
  | .error err => .error err
  | .ok _ => .ok (validate validateJSONSchema now t schemaId version payload).response

end Nzovu.Schemas
