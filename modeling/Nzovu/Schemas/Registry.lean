import Nzovu.Foundation.Run
import Nzovu.Repository.Migration
import Nzovu.Schedules.Operations

/-!
# The Schema Registry

Translation of `Register` and `getMetadata` of both registries (`pkg/schema/sqlite_storage.go`,
`postgres_storage.go`) and of the handler `RegisterSchema` (`pkg/nzovu/server.go`). Whether a text
is a Draft 7 schema without external references is decided by JSON libraries; the model takes the
answer as the parameter `invalid`.

A registration is a transaction and a later read: `registerSchema` is the first, `schemaRegistered`
the second.

- Section 1: the table.
- Section 2: registering.
- Section 3: what a registration stores.
-/

namespace Nzovu.Schemas

open Nzovu.Foundation
open Nzovu.Repository
open Nzovu.Schedules

/-! ## Section 1: The table -/

/-- `schema.v1.Schema`, and a row of `cq_schemas`, which has the same fields. -/
structure Schema where
  schemaId : String
  version : Int
  name : String
  description : String
  content : String
  contentType : String
  metadata : List (String × String)
  isActive : Bool
  createdAt : Int
  updatedAt : Int
deriving DecidableEq, Repr

/-- `PRIMARY KEY (schema_id, version)`. -/
def Schema.key (row : Schema) : String × Int := (row.schemaId, row.version)

def minInt32 : Int := -2147483648

def maxInt32 : Int := 2147483647

/-- The values of `int32`. -/
def FitsInt32 (i : Int) : Prop := minInt32 ≤ i ∧ i ≤ maxInt32

instance (i : Int) : Decidable (FitsInt32 i) := inferInstanceAs (Decidable (_ ∧ _))

/-- `int32` arithmetic wraps around. -/
def wrapInt32 (i : Int) : Int := Int.bmod i (2 ^ 32)

/-- `cq_schemas`, in insertion order. -/
structure SchemaTable where
  rows : List Schema
  keys_nodup : (rows.map Schema.key).Nodup
  fits : ∀ row ∈ rows, FitsInt32 row.version

namespace SchemaTable

/-- The table without rows. -/
def empty : SchemaTable := ⟨[], by simp, by simp⟩

/-- The rows of one schema id. -/
def versionRows (t : SchemaTable) (schemaId : String) : List Schema :=
  t.rows.filter fun row => row.schemaId = schemaId

/-- `SELECT MAX(version) … WHERE schema_id = ?`; NULL without rows. -/
def maxVersion (t : SchemaTable) (schemaId : String) : Option Int :=
  ((t.versionRows schemaId).map (·.version)).max?

/-- `INSERT INTO cq_schemas`; nothing is inserted over an existing key. -/
def insert (t : SchemaTable) (row : Schema) : Option SchemaTable :=
  if h : row.key ∉ t.rows.map Schema.key ∧ FitsInt32 row.version then
    some
      { rows := t.rows ++ [row]
        keys_nodup := by
          rw [List.map_append]
          refine List.nodup_append.mpr ⟨t.keys_nodup, List.nodup_singleton _, ?_⟩
          intro k hk k' hk' heq
          rw [List.mem_singleton.mp hk'] at heq
          exact h.1 (heq ▸ hk)
        fits := by
          intro e he
          rcases List.mem_append.mp he with he | he
          · exact t.fits e he
          · rw [List.mem_singleton.mp he]
            exact h.2 }
  else none

end SchemaTable

/-! ## Section 2: Registering -/

/-- `maxSchemaContentBytes`. -/
def maxSchemaContentBytes : Nat := 1048576

/-- `validateSchemaContent`: the reason to refuse the content, if there is one. -/
def validateSchemaContent (invalid : String → Option String) (contentType content : String) :
    Option String :=
  if contentType ≠ "" ∧ contentType ≠ "json-schema" then
    some ("unsupported content type " ++ contentType.quote ++ ": only json-schema is supported")
  else if maxSchemaContentBytes < content.utf8ByteSize then
    some ("schema exceeds maximum size of " ++ toString maxSchemaContentBytes ++ " bytes")
  else invalid content

def unsupportedContentType : RequestError :=
  ⟨.invalidArgument, "unsupported schema content type", [("content_type", "must be json-schema")]⟩

/-- The checks of `Register` before its transaction. -/
def checkSchema (invalid : String → Option String) (schema : Schema) : Option RequestError :=
  if schema.contentType ≠ "" ∧ schema.contentType ≠ "json-schema" then some unsupportedContentType
  else
    match validateSchemaContent invalid schema.contentType schema.content with
    | some _ => some (invalidArgument "invalid schema content")
    | none => none

/-- The fields `Register` sets before it inserts. -/
def completeSchema (now : Int) (schema : Schema) : Schema :=
  { schema with
    createdAt := if schema.createdAt = 0 then now else schema.createdAt
    updatedAt := now
    isActive := true
    contentType := if schema.contentType = "" then "json-schema" else schema.contentType }

/-- `schema already exists`. -/
def alreadyExists (schema : Schema) : RequestError :=
  ⟨.alreadyExists, "schema already exists: " ++ schema.schemaId ++ " version " ++
    toString schema.version, []⟩

/-- The insertion of a row that is not there yet. -/
def insertSchema (t : SchemaTable) (schema : Schema) : Except RequestError (SchemaTable × Schema) :=
  match t.insert schema with
  | none => .error (alreadyExists schema)
  | some t' => .ok (t', schema)

/-- The transaction of `Register`: the table with the new row, and the row. Version `0` asks for the
next one: SQLite computes it in the `INSERT`, and a result that is no `int32` cannot be scanned, so
the transaction is rolled back; Postgres computes it in Go. -/
def storeSchema (backend : Backend) (t : SchemaTable) (schema : Schema) :
    Except RequestError (SchemaTable × Schema) :=
  let latestVersion := (t.maxVersion schema.schemaId).getD 0
  if schema.version = 0 then
    match backend with
    | .sqlite =>
      if FitsInt32 (latestVersion + 1) then
        insertSchema t { schema with version := latestVersion + 1 }
      else .error (plainError "failed to insert schema: value out of range")
    | .postgres => insertSchema t { schema with version := wrapInt32 (latestVersion + 1) }
  else insertSchema t schema

/-- `Register` up to its commit. -/
def register (backend : Backend) (invalid : String → Option String) (now : Int) (t : SchemaTable)
    (schema : Schema) : Except RequestError (SchemaTable × Schema) :=
  match checkSchema invalid schema with
  | some err => .error err
  | none => storeSchema backend t (completeSchema now schema)

/-- `SchemaMetadata`. -/
structure SchemaMetadata where
  schemaId : String
  latestVersion : Int
  totalVersions : Nat
  createdAt : Int
  updatedAt : Int
deriving DecidableEq, Repr

/-- `getMetadata`: the aggregates over all versions; without a row the NULLs cannot be scanned. -/
def getMetadata (t : SchemaTable) (schemaId : String) : Except RequestError SchemaMetadata :=
  let rows := t.versionRows schemaId
  match t.maxVersion schemaId, (rows.map (·.createdAt)).min?, (rows.map (·.updatedAt)).max? with
  | some latestVersion, some createdAt, some updatedAt =>
    .ok ⟨schemaId, latestVersion, rows.length, createdAt, updatedAt⟩
  | _, _, _ => .error (plainError "failed to get metadata")

/-- `RegisterSchemaRequest`. -/
structure RegisterSchemaRequest where
  schemaId : String
  name : String
  content : String
  description : String
  contentType : String
  metadata : List (String × String)
deriving DecidableEq, Repr

/-- `RegisterSchemaResponse`. -/
structure RegisterSchemaResponse where
  schemaId : String
  version : Int
  createdAt : Int
deriving DecidableEq, Repr

/-- The checks of the handler. -/
def checkRequest (request : RegisterSchemaRequest) : Option RequestError :=
  if request.schemaId = "" ∨ request.name = "" ∨ request.content = "" then
    some (invalidArgument "schema id, name, and content are required")
  else if request.contentType ≠ "" ∧ request.contentType ≠ "json-schema" then
    some unsupportedContentType
  else none

/-- The schema the handler registers: its version is not set. -/
def RegisterSchemaRequest.schema (request : RegisterSchemaRequest) : Schema :=
  { schemaId := request.schemaId, version := 0, name := request.name,
    description := request.description, content := request.content,
    contentType := request.contentType, metadata := request.metadata, isActive := false,
    createdAt := 0, updatedAt := 0 }

/-- `domainerror.PrefixMessage`. -/
def prefixMessage (context : String) (err : RequestError) : RequestError :=
  { err with message := wrapped context err.message }

/-- `RegisterSchema` up to the commit of the registration. -/
def registerSchema (backend : Backend) (invalid : String → Option String) (now : Int)
    (t : SchemaTable) (request : RegisterSchemaRequest) :
    Except RequestError (SchemaTable × Schema) :=
  match checkRequest request with
  | some err => .error err
  | none => (register backend invalid now t request.schema).mapError
      (prefixMessage "failed to register schema")

/-- The rest of `RegisterSchema`: the answer is made from metadata that is read after the commit. -/
def schemaRegistered (t : SchemaTable) (schema : Schema) :
    Except RequestError RegisterSchemaResponse :=
  match getMetadata t schema.schemaId with
  | .error err => .error (prefixMessage "failed to register schema" err)
  | .ok metadata => .ok ⟨metadata.schemaId, metadata.latestVersion, metadata.createdAt⟩

end Nzovu.Schemas
