import Nzovu.Foundation.Json
import Nzovu.Encryption.KeyManager

/-!
# Key Sources

Translation of `internal/encryption/adapters`: the key set of the environment (`LocalAdapter`) and
that of a Vault secret (`VaultAdapter`), and of the constructor of the key manager, which fetches
from the source its configuration names.

What is read from outside is a parameter: the variables of the environment, the list of strings
that `json.Unmarshal` reads from one of them, and the data of the secret.
-/

namespace Nzovu.Encryption

open Nzovu.Foundation

/-- `[]byte(key)`. -/
def stringBytes (key : String) : Bytes := key.toUTF8.data.toList

/-! ## Section 1: The environment -/

/-- `LocalAdapter.FetchKeys`. `unmarshal` reads a JSON array of strings; it returns `none` for
`null`, which leaves the slice nil. -/
def LocalAdapter.fetchKeys (unmarshal : String → Except String (Option (List String)))
    (getenv : String → String) : Except String KeySet :=
  let key := getenv "ENCRYPTION_KEY"
  if key = "" then
    .error "encryption key not set in environment variable"
  else
    let history := getenv "ENCRYPTION_PREVIOUS_KEYS"
    if history = "" then
      .ok ⟨stringBytes key, []⟩
    else
      match unmarshal history with
      | .error err => .error s!"parse ENCRYPTION_PREVIOUS_KEYS: {err}"
      | .ok none => .error "ENCRYPTION_PREVIOUS_KEYS must be a JSON array"
      | .ok (some previousKeys) => .ok ⟨stringBytes key, previousKeys.map stringBytes⟩

/-! ## Section 2: Vault -/

/-- The data of a secret. -/
abbrev SecretData := List (String × Json)

/-- The loop of `vaultKeySet` over `previous_keys`. -/
def previousKeys : List Json → Except String (List Bytes)
  | [] => .ok []
  | .string previousKey :: values => (previousKeys values).map (stringBytes previousKey :: ·)
  | _ :: _ => .error "previous encryption key is not a string"

/-- The keys of the data themselves (KV v1) or of its object `data` (KV v2). -/
def secretFields (data : SecretData) : SecretData :=
  match Json.get? data "data" with
  | some (.object nested) => nested
  | _ => data

/-- `vaultKeySet`. -/
def vaultKeySet (data : SecretData) : Except String KeySet :=
  match Json.get? (secretFields data) "key" with
  | some (.string key) =>
    match Json.get? (secretFields data) "previous_keys" with
    | none => .ok ⟨stringBytes key, []⟩
    | some (.array values) => (previousKeys values).map (⟨stringBytes key, ·⟩)
    | some _ => .error "previous encryption keys are not an array"
  | _ => .error "encryption key is not present or not a string"

/-- `VaultAdapter.FetchKeys` once it is logged in. `read` is what `client.Logical().Read` returns:
a secret without data is `none`. -/
def VaultAdapter.fetchKeys (read : Except String (Option SecretData)) : Except String KeySet :=
  match read with
  | .error err => .error err
  | .ok none => .error "no secret data returned"
  | .ok (some data) => vaultKeySet data

/-! ## Section 3: The constructor -/

/-- `Config`. -/
structure Config where
  enabled : Bool
  sourceType : String
deriving DecidableEq

/-- The manager of a process that does not encrypt. -/
def disabledKeyManager : EncryptionKeyManager where
  enabled := false
  source := .error "no key source"
  currentID := ""
  keys := []

/-- `NewEncryptionKeyManagerWithConfig`: a manager that encrypts starts with a refresh. The two
sources are what their adapters return at the time. -/
def newEncryptionKeyManagerWithConfig (encryptionKeyID : Bytes → String)
    (localKeys vaultKeys : Except String KeySet) (config : Config) :
    Except String EncryptionKeyManager :=
  if !config.enabled then
    .ok disabledKeyManager
  else
    let start := fun source : Except String KeySet =>
      (⟨true, source.map some, "", []⟩ : EncryptionKeyManager).refreshKey encryptionKeyID
    match config.sourceType with
    | "LOCAL" => start localKeys
    | "VAULT" => start vaultKeys
    | _ => .error "unsupported key source type"

/-! ## Section 4: Rotated secrets -/

theorem previousKeys_map_string (keys : List String) :
    previousKeys (keys.map Json.string) = .ok (keys.map stringBytes) := by
  induction keys with
  | nil => rfl
  | cons key keys ih =>
    simp only [List.map_cons, previousKeys, ih]
    rfl

/-- A secret with the active key and the keys retained for reads. -/
def secretOf (key : String) (retained : List String) : SecretData :=
  [("key", .string key), ("previous_keys", .array (retained.map .string))]

theorem vaultKeySet_secretOf (key : String) (retained : List String) :
    vaultKeySet (secretOf key retained) =
      .ok ⟨stringBytes key, retained.map stringBytes⟩ := by
  have hkey : Json.get? (secretFields (secretOf key retained)) "key" = some (.string key) := rfl
  have hprevious : Json.get? (secretFields (secretOf key retained)) "previous_keys" =
      some (.array (retained.map .string)) := rfl
  simp only [vaultKeySet, hkey, hprevious, previousKeys_map_string]
  rfl

/-- The data of a KV v2 path is that of KV v1 under `data`. -/
theorem vaultKeySet_nested {data : SecretData} (h : ∀ nested, Json.get? data "data" ≠
    some (.object nested)) : vaultKeySet [("data", .object data)] = vaultKeySet data := by
  have hnested : secretFields [("data", .object data)] = data := rfl
  have hplain : secretFields data = data := by
    unfold secretFields
    split
    next nested hdata => exact absurd hdata (h nested)
    next => rfl
  simp only [vaultKeySet, hnested, hplain]

end Nzovu.Encryption
