import Nzovu.Foundation.Base64
import Nzovu.Encryption.KeyManager

/-!
# Payload Encryption

Translation of `internal/encryption/encryption.go` (Section 2) and of `encryptPayload` and
`decryptPayload` of `pkg/repository/common/encryption.go` (Section 3, in a namespace of its own).
AES-GCM, SHA-256 and `protojson` are parameters.

An encrypted payload is a payload with three metadata entries, and `decryptPayload` recognises one
by these entries alone. Section 4 shows that a payload comes back as it was stored exactly when
this guess is right: encryption was on, or the payload does not happen to carry both entries.
-/

namespace Nzovu.Encryption

open Nzovu.Foundation

/-! ## Section 1: Payloads -/

/-- `google.protobuf.Value`. A number is its sixty-four bits; a struct lists its fields in key
order. -/
inductive Value where
  | unset
  | null
  | number (bits : UInt64)
  | string (value : String)
  | bool (value : Bool)
  | struct (fields : List (String × Value))
  | list (values : List Value)

/-- `GetStringValue`, also of an entry that is absent. -/
def getStringValue : Option Value → String
  | some (.string value) => value
  | _ => ""

/-- `commonpb.Payload`. The metadata map is listed in key order. -/
structure Payload where
  metadata : List (String × Value)
  data : Option (List (String × Value))
  contentType : String
  schemaId : String
  schemaVersion : Int

/-- A map access `metadata[key]`. -/
def Payload.entry (payload : Payload) (key : String) : Option Value := payload.metadata.lookup key

/-- The nonce of AES-GCM, twelve bytes from the random source. -/
structure Nonce where
  bytes : Bytes
  size : bytes.length = 12

/-- The functions that the source takes from its libraries. -/
structure Primitives where
  /-- `aesgcm.Seal(nil, nonce, plaintext, nil)`. -/
  gcmSeal : EncryptionKey → Bytes → Bytes → Bytes
  /-- `aesgcm.Open(nil, nonce, ciphertext, nil)`. -/
  gcmOpen : EncryptionKey → Bytes → Bytes → Option Bytes
  /-- The hex digest of `sha256.Sum256`. -/
  encryptionKeyID : Bytes → String
  /-- `marshalOptions.Marshal`. -/
  marshal : Payload → Except String Bytes
  /-- `unmarshalOptions.Unmarshal`. -/
  unmarshal : Bytes → Except String Payload

/-- What is known of the libraries. Sealing appends a tag, so a ciphertext is longer than its
plaintext; the text of a JSON document is no shorter than a string that occurs in it. -/
structure Primitives.Lawful (P : Primitives) : Prop where
  open_seal : ∀ key nonce plaintext,
    P.gcmOpen key nonce (P.gcmSeal key nonce plaintext) = some plaintext
  open_length : ∀ key nonce ciphertext plaintext,
    P.gcmOpen key nonce ciphertext = some plaintext → plaintext.length < ciphertext.length
  keyID_ne : ∀ key, P.encryptionKeyID key ≠ ""
  unmarshal_length : ∀ bytes payload, P.unmarshal bytes = .ok payload →
    ∀ key value, (key, Value.string value) ∈ payload.metadata → value.length ≤ bytes.length

variable (P : Primitives)

/-! ## Section 2: Package `encryption` -/

/-- `EncryptPayload`: the ciphertext and the nonce in Base64, and the identifier of the key. Every
cached key has a size that `aes.NewCipher` accepts. -/
def encryptPayload (nonce : Nonce) (payload : Bytes) (keyManager : EncryptionKeyManager) :
    Except String (String × String × String) :=
  match keyManager.getCurrentEncryptionKey P.encryptionKeyID with
  | .error err => .error err
  | .ok (keyID, encryptionKey) =>
    .ok (String.ofList (Base64.encode (P.gcmSeal encryptionKey nonce.bytes payload)),
      String.ofList (Base64.encode nonce.bytes), keyID)

/-- The loop of `DecryptPayload` over the keys at hand. -/
def tryKeys (nonce ciphertext : Bytes) : List EncryptionKey → Except String Bytes
  | [] => .error "unable to decrypt payload with available encryption keys"
  | encryptionKey :: rest =>
    if nonce.length ≠ 12 then
      .error "invalid nonce length for AES-GCM decryption"
    else
      match P.gcmOpen encryptionKey nonce ciphertext with
      | some plaintext => .ok plaintext
      | none => tryKeys nonce ciphertext rest

/-- `DecryptPayload`, with the key manager as the call leaves it. -/
def decryptPayload (base64Ciphertext base64Nonce keyID : String)
    (keyManager : EncryptionKeyManager) : EncryptionKeyManager × Except String Bytes :=
  match keyManager.getDecryptionKeys P.encryptionKeyID keyID with
  | (keyManager, .error err) => (keyManager, .error err)
  | (keyManager, .ok encryptionKeys) =>
    match Base64.decode base64Ciphertext.toList, Base64.decode base64Nonce.toList with
    | none, _ => (keyManager, .error "failed to decode encryptedPayload from base64")
    | _, none => (keyManager, .error "failed to decode nonce from base64")
    | some ciphertext, some nonce => (keyManager, tryKeys P nonce ciphertext encryptionKeys)

variable {P}

theorem tryKeys_ok {nonce ciphertext plaintext : Bytes} {keys : List EncryptionKey}
    (h : tryKeys P nonce ciphertext keys = .ok plaintext) :
    ∃ key ∈ keys, P.gcmOpen key nonce ciphertext = some plaintext := by
  induction keys with
  | nil => simp [tryKeys] at h
  | cons key rest ih =>
    simp only [tryKeys] at h
    split at h
    · cases h
    · cases hopen : P.gcmOpen key nonce ciphertext with
      | some opened =>
        simp only [hopen, Except.ok.injEq] at h
        exact ⟨key, by simp, by rw [hopen, h]⟩
      | none =>
        simp only [hopen] at h
        obtain ⟨other, hother, hopened⟩ := ih h
        exact ⟨other, by simp [hother], hopened⟩

/-- The plaintext is shorter than the Base64 text it was decrypted from. -/
theorem decryptPayload_length (hP : P.Lawful) {cipher nonce keyID : String}
    {m : EncryptionKeyManager} {plaintext : Bytes}
    (h : (decryptPayload P cipher nonce keyID m).2 = .ok plaintext) :
    plaintext.length < cipher.length := by
  cases hkeys : m.getDecryptionKeys P.encryptionKeyID keyID with
  | mk m' result =>
    cases result with
    | error err => simp [decryptPayload, hkeys] at h
    | ok keys =>
      cases hcipher : Base64.decode cipher.toList with
      | none => simp [decryptPayload, hkeys, hcipher] at h
      | some ciphertext =>
        cases hnonce : Base64.decode nonce.toList with
        | none => simp [decryptPayload, hkeys, hcipher, hnonce] at h
        | some nonceBytes =>
          simp only [decryptPayload, hkeys, hcipher, hnonce] at h
          obtain ⟨key, -, hopen⟩ := tryKeys_ok h
          have hshort := hP.open_length key nonceBytes ciphertext plaintext hopen
          have hbase64 := Base64.length_decode hcipher
          simp only [String.length_toList] at hbase64
          omega

theorem encryptPayload_ok {nonce : Nonce} {payload : Bytes} {m : EncryptionKeyManager}
    {cipher nonceText keyID : String}
    (h : encryptPayload P nonce payload m = .ok (cipher, nonceText, keyID)) :
    ∃ key, m.getCurrentEncryptionKey P.encryptionKeyID = .ok (keyID, key) ∧
      cipher = String.ofList (Base64.encode (P.gcmSeal key nonce.bytes payload)) ∧
      nonceText = String.ofList (Base64.encode nonce.bytes) := by
  cases hcurrent : m.getCurrentEncryptionKey P.encryptionKeyID with
  | error err => simp [encryptPayload, hcurrent] at h
  | ok current =>
    simp only [encryptPayload, hcurrent, Except.ok.injEq, Prod.mk.injEq] at h
    obtain ⟨hcipher, hnonce, rfl⟩ := h
    exact ⟨current.2, rfl, hcipher.symm, hnonce.symm⟩

/-- What was sealed with a key that is still held is opened again. -/
theorem decryptPayload_encryptPayload (hP : P.Lawful) {nonce : Nonce} {payload : Bytes}
    {stored reading : EncryptionKeyManager} {cipher nonceText keyID : String}
    (h : encryptPayload P nonce payload stored = .ok (cipher, nonceText, keyID))
    (hheld : ∀ key, stored.getCurrentEncryptionKey P.encryptionKeyID = .ok (keyID, key) →
      reading.Holds P.encryptionKeyID key) :
    (decryptPayload P cipher nonceText keyID reading).2 = .ok payload := by
  obtain ⟨key, hcurrent, rfl, rfl⟩ := encryptPayload_ok h
  have hid : P.encryptionKeyID key.bytes = keyID := getCurrentEncryptionKey_ok hcurrent
  have hkeys := (hheld key hcurrent).getDecryptionKeys (hP.keyID_ne key.bytes)
  rw [hid] at hkeys
  cases hget : reading.getDecryptionKeys P.encryptionKeyID keyID with
  | mk m' result =>
    rw [hget] at hkeys
    subst hkeys
    simp [decryptPayload, hget, Base64.decode_encode, tryKeys, nonce.size, hP.open_seal]

/-- Neither text is empty: the nonce has twelve bytes and the ciphertext its tag. -/
theorem encryptPayload_ne (hP : P.Lawful) {nonce : Nonce} {payload : Bytes}
    {m : EncryptionKeyManager} {cipher nonceText keyID : String}
    (h : encryptPayload P nonce payload m = .ok (cipher, nonceText, keyID)) :
    ¬ (cipher = "" ∨ nonceText = "") := by
  obtain ⟨key, -, rfl, rfl⟩ := encryptPayload_ok h
  have htag := hP.open_length _ _ _ _ (hP.open_seal key nonce.bytes payload)
  have hcipher : P.gcmSeal key nonce.bytes payload ≠ [] := by
    intro hnil
    simp [hnil] at htag
  have hnonce : nonce.bytes ≠ [] := by
    intro hnil
    simpa [hnil] using nonce.size
  simp [String.ofList_eq_empty_iff, Base64.encode_eq_nil, hcipher, hnonce]

/-! ## Section 3: Package `common` -/

namespace Common

variable (P)

/-- The payload that stands for an encrypted one. -/
def envelope (encryptedPayload nonce keyID : String) : Payload where
  metadata := [("encryptedPayload", .string encryptedPayload),
    ("encryptionKeyId", .string keyID), ("nonce", .string nonce)]
  data := none
  contentType := ""
  schemaId := ""
  schemaVersion := 0

@[simp] theorem entry_envelope_cipher (cipher nonce keyID : String) :
    (envelope cipher nonce keyID).entry "encryptedPayload" = some (.string cipher) := rfl

@[simp] theorem entry_envelope_nonce (cipher nonce keyID : String) :
    (envelope cipher nonce keyID).entry "nonce" = some (.string nonce) := rfl

@[simp] theorem entry_envelope_keyID (cipher nonce keyID : String) :
    (envelope cipher nonce keyID).entry "encryptionKeyId" = some (.string keyID) := rfl

/-- `encryptPayload`; a nil payload or key manager is `none`. -/
def encryptPayload (nonce : Nonce) (payload : Option Payload)
    (keyManager : Option EncryptionKeyManager) : Except String (Option Payload) :=
  match payload with
  | none => .ok none
  | some payload =>
    match keyManager.filter (·.enabled) with
    | none => .ok (some payload)
    | some keyManager =>
      match P.marshal payload with
      | .error err => .error s!"marshal payload for encryption: {err}"
      | .ok payloadBytes =>
        match Encryption.encryptPayload P nonce payloadBytes keyManager with
        | .error err => .error s!"encrypt payload: {err}"
        | .ok (encryptedPayload, nonce, keyID) =>
          if encryptedPayload = "" ∨ nonce = "" then
            .error "encrypt payload: empty ciphertext or nonce"
          else
            .ok (some (envelope encryptedPayload nonce keyID))

/-- `decryptPayload`, with the key manager as the call leaves it. -/
def decryptPayload (payload : Option Payload) (keyManager : Option EncryptionKeyManager) :
    Option EncryptionKeyManager × Except String (Option Payload) :=
  match payload with
  | none => (keyManager, .ok none)
  | some payload =>
    match payload.entry "encryptedPayload", payload.entry "nonce" with
    | some encryptedValue, some nonceValue =>
      let encryptedPayload := getStringValue encryptedValue
      let nonce := getStringValue nonceValue
      let keyID := getStringValue (payload.entry "encryptionKeyId")
      if encryptedPayload = "" ∨ nonce = "" then
        (keyManager, .error "decrypt payload: missing ciphertext or nonce")
      else
        match keyManager.filter (·.enabled) with
        | none => (keyManager, .error "decrypt payload: encryption key manager disabled")
        | some enabled =>
          match Encryption.decryptPayload P encryptedPayload nonce keyID enabled with
          | (enabled, .error err) => (some enabled, .error s!"decrypt payload: {err}")
          | (enabled, .ok decryptedBytes) =>
            match P.unmarshal decryptedBytes with
            | .error err => (some enabled, .error s!"unmarshal decrypted payload: {err}")
            | .ok decrypted => (some enabled, .ok (some decrypted))
    | _, _ => (keyManager, .ok (some payload))

/-! ## Section 4: The round trip -/

/-- A key manager that encrypts. -/
def EncryptionEnabled (keyManager : Option EncryptionKeyManager) : Prop :=
  (keyManager.filter (·.enabled)).isSome

/-- The two entries by which `decryptPayload` recognises an encrypted payload. -/
def LooksEncrypted (payload : Payload) : Prop :=
  (payload.entry "encryptedPayload").isSome ∧ (payload.entry "nonce").isSome

/-- The key that `stored` encrypts with, if it encrypts, is still held by `reading`. -/
def StillHolds (stored reading : Option EncryptionKeyManager) : Prop :=
  ∀ m, stored.filter (·.enabled) = some m →
    ∀ id key, m.getCurrentEncryptionKey P.encryptionKeyID = .ok (id, key) →
      ∃ m', reading = some m' ∧ m'.Holds P.encryptionKeyID key

/-- Whatever `encryptPayload` stores under one key manager, `decryptPayload` turns back into the
payload under the other. -/
def RoundTrips (nonce : Nonce) (payload : Option Payload)
    (stored reading : Option EncryptionKeyManager) : Prop :=
  ∀ encrypted, encryptPayload P nonce payload stored = .ok encrypted →
    (decryptPayload P encrypted reading).2 = .ok payload

variable {P}

/-- A payload that does not look encrypted is returned as it is. -/
theorem decryptPayload_plain {payload : Payload} (h : ¬ LooksEncrypted payload)
    (keyManager : Option EncryptionKeyManager) :
    decryptPayload P (some payload) keyManager = (keyManager, .ok (some payload)) := by
  simp only [LooksEncrypted] at h
  cases hcipher : payload.entry "encryptedPayload" with
  | none => simp [decryptPayload, hcipher]
  | some cipher =>
    cases hnonce : payload.entry "nonce" with
    | none => simp [decryptPayload, hcipher, hnonce]
    | some nonce => simp [hcipher, hnonce] at h

theorem mem_of_entry {payload : Payload} {key : String} {value : Value}
    (h : payload.entry key = some value) : (key, value) ∈ payload.metadata := by
  obtain ⟨front, back, hsplit, -⟩ := List.lookup_eq_some_iff.mp h
  simp [hsplit]

/-- A payload that looks encrypted never decrypts to itself: it would have to contain a Base64
text of more than itself. -/
theorem decryptPayload_ne_self (hP : P.Lawful) {payload : Payload} (h : LooksEncrypted payload)
    (keyManager : Option EncryptionKeyManager) :
    (decryptPayload P (some payload) keyManager).2 ≠ .ok (some payload) := by
  obtain ⟨cipher, hcipher⟩ := Option.isSome_iff_exists.mp h.1
  obtain ⟨nonce, hnonce⟩ := Option.isSome_iff_exists.mp h.2
  intro hself
  simp only [decryptPayload, hcipher, hnonce] at hself
  split at hself
  · cases hself
  next hpresent =>
    cases henabled : keyManager.filter (·.enabled) with
    | none => simp [henabled] at hself
    | some m =>
      cases hdecrypt : Encryption.decryptPayload P (getStringValue cipher) (getStringValue nonce)
          (getStringValue (payload.entry "encryptionKeyId")) m with
      | mk m' result =>
        cases result with
        | error err => simp [henabled, hdecrypt] at hself
        | ok bytes =>
          cases hunmarshal : P.unmarshal bytes with
          | error err => simp [henabled, hdecrypt, hunmarshal] at hself
          | ok decrypted =>
            simp only [henabled, hdecrypt, hunmarshal, Except.ok.injEq, Option.some.injEq]
              at hself
            have hlength := Encryption.decryptPayload_length hP (by rw [hdecrypt])
            -- the ciphertext is a string of the payload that came out of the shorter plaintext
            cases cipher with
            | string text =>
              have hin := hP.unmarshal_length bytes payload (hself ▸ hunmarshal) _ text
                (mem_of_entry hcipher)
              simp only [getStringValue] at hlength
              omega
            | _ => simp [getStringValue] at hpresent

/-- A payload that can be marshalled is stored while the current key is available. -/
theorem encryptPayload_isOk (hP : P.Lawful) {nonce : Nonce} {payload : Payload}
    {stored : Option EncryptionKeyManager} {m : EncryptionKeyManager} {bytes : Bytes}
    {id : String} {key : EncryptionKey} (henabled : stored.filter (·.enabled) = some m)
    (hmarshal : P.marshal payload = .ok bytes)
    (hcurrent : m.getCurrentEncryptionKey P.encryptionKeyID = .ok (id, key)) :
    ∃ encrypted, encryptPayload P nonce (some payload) stored = .ok encrypted := by
  have hseal : Encryption.encryptPayload P nonce bytes m =
      .ok (String.ofList (Base64.encode (P.gcmSeal key nonce.bytes bytes)),
        String.ofList (Base64.encode nonce.bytes), id) := by
    simp only [Encryption.encryptPayload, hcurrent]
  have hne := encryptPayload_ne hP hseal
  simp only [encryptPayload, henabled, hmarshal, hseal, hne, if_false]
  exact ⟨_, rfl⟩

/-- With encryption on, a payload comes back whatever its metadata. -/
theorem roundTrips_enabled (hP : P.Lawful) {nonce : Nonce} {payload : Payload}
    {stored reading : Option EncryptionKeyManager} (henabled : EncryptionEnabled stored)
    (hjson : ∀ bytes, P.marshal payload = .ok bytes → P.unmarshal bytes = .ok payload)
    (hheld : StillHolds P stored reading) :
    RoundTrips P nonce (some payload) stored reading := by
  obtain ⟨m, hm⟩ := Option.isSome_iff_exists.mp henabled
  intro encrypted hstore
  simp only [encryptPayload, hm] at hstore
  cases hmarshal : P.marshal payload with
  | error err => simp [hmarshal] at hstore
  | ok bytes =>
    cases hseal : Encryption.encryptPayload P nonce bytes m with
    | error err => simp [hmarshal, hseal] at hstore
    | ok parts =>
      obtain ⟨cipher, nonceText, keyID⟩ := parts
      have hne := encryptPayload_ne hP hseal
      simp only [hmarshal, hseal, hne, if_false, Except.ok.injEq] at hstore
      subst hstore
      obtain ⟨key, hcurrent, -⟩ := encryptPayload_ok hseal
      obtain ⟨m', rfl, hholds⟩ := hheld m hm keyID key hcurrent
      have hopen : (Encryption.decryptPayload P cipher nonceText keyID m').2 = .ok bytes := by
        refine decryptPayload_encryptPayload hP hseal fun other hother => ?_
        rw [hcurrent] at hother
        cases hother
        exact hholds
      cases hdecrypt : Encryption.decryptPayload P cipher nonceText keyID m' with
      | mk m'' result =>
        rw [hdecrypt] at hopen
        subst hopen
        have hfilter : (some m').filter (·.enabled) = some m' := by
          simp [Option.filter, hholds.enabled]
        simp only [decryptPayload, entry_envelope_cipher, entry_envelope_nonce,
          entry_envelope_keyID, getStringValue, hfilter, hdecrypt, hjson bytes hmarshal, hne,
          if_false]

/-- A payload comes back as it was stored exactly when encryption was on at the time or the
payload does not carry both entries that mark an encrypted one. -/
theorem roundTrips_iff (hP : P.Lawful) (nonce : Nonce) (payload : Option Payload)
    (stored reading : Option EncryptionKeyManager)
    (hjson : ∀ p, payload = some p → ∀ bytes, P.marshal p = .ok bytes → P.unmarshal bytes = .ok p)
    (hheld : StillHolds P stored reading) :
    RoundTrips P nonce payload stored reading ↔
      (EncryptionEnabled stored ∨ ∀ p, payload = some p → ¬ LooksEncrypted p) := by
  cases payload with
  | none =>
    refine ⟨fun _ => .inr (by simp), fun _ encrypted hstore => ?_⟩
    cases hstore
    rfl
  | some payload =>
    by_cases henabled : EncryptionEnabled stored
    · exact ⟨fun _ => .inl henabled,
        fun _ => roundTrips_enabled hP henabled (hjson payload rfl) hheld⟩
    · -- stored as it is, the payload is read by its looks
      have hnone : stored.filter (·.enabled) = none := by
        simpa only [EncryptionEnabled, Bool.not_eq_true, Option.isSome_eq_false_iff,
          Option.isNone_iff_eq_none] using henabled
      have hstore : encryptPayload P nonce (some payload) stored = .ok (some payload) := by
        simp only [encryptPayload, hnone]
      constructor
      · intro hround
        refine .inr fun p hp hlooks => ?_
        cases hp
        exact decryptPayload_ne_self hP hlooks reading (hround _ hstore)
      · rintro (habsurd | hplain) encrypted henc
        · exact absurd habsurd henabled
        · rw [hstore] at henc
          cases henc
          rw [decryptPayload_plain (hplain payload rfl)]

/-! ## Section 5: A payload read after a rotation -/

/-- The key `abcdef0123456789`. -/
def retiredKey : EncryptionKey where
  bytes := [97, 98, 99, 100, 101, 102, 48, 49, 50, 51, 52, 53, 54, 55, 56, 57]
  size := by decide

/-- The key `0123456789abcdef`. -/
def activeKey : EncryptionKey where
  bytes := [48, 49, 50, 51, 52, 53, 54, 55, 56, 57, 97, 98, 99, 100, 101, 102]
  size := by decide

/-- The nonce `01 02 … 0c`. -/
def firstNonce : Nonce where
  bytes := [1, 2, 3, 4, 5, 6, 7, 8, 9, 10, 11, 12]
  size := by decide

/-- The payload without any content. -/
def emptyPayload : Payload := ⟨[], none, "", "", 0⟩

/-- The JSON document of the empty payload. -/
def emptyDocument : Bytes :=
  [123, 34, 109, 101, 116, 97, 100, 97, 116, 97, 34, 58, 123, 125, 44, 34, 100, 97, 116, 97,
    34, 58, 110, 117, 108, 108, 44, 34, 99, 111, 110, 116, 101, 110, 116, 84, 121, 112, 101,
    34, 58, 34, 34, 44, 34, 115, 99, 104, 101, 109, 97, 73, 100, 34, 58, 34, 34, 44, 34,
    115, 99, 104, 101, 109, 97, 86, 101, 114, 115, 105, 111, 110, 34, 58, 48, 125]

/-- `emptyDocument` sealed with `retiredKey` and `firstNonce`. -/
def sealedDocument : Bytes :=
  [49, 26, 42, 220, 213, 137, 192, 142, 56, 154, 234, 4, 98, 157, 41, 59, 151, 7, 1, 10, 42,
    205, 41, 211, 199, 209, 240, 125, 196, 36, 143, 74, 219, 106, 147, 42, 218, 118, 174,
    70, 120, 159, 5, 192, 11, 119, 40, 16, 37, 215, 20, 240, 6, 117, 115, 133, 62, 139, 39,
    201, 251, 66, 83, 43, 101, 155, 122, 216, 238, 29, 119, 235, 120, 236, 212, 198, 250,
    29, 222, 217, 8, 167, 120, 232, 50, 10, 229, 134, 165, 240, 21, 81]

/-- Libraries with the true results on the empty payload under `retiredKey`; any other sealing
appends a tag of zeros. -/
def sampleLibraries : Primitives where
  gcmSeal key nonce plaintext :=
    if key = retiredKey ∧ nonce = firstNonce.bytes ∧ plaintext = emptyDocument then
      sealedDocument
    else
      plaintext ++ List.replicate 16 0
  gcmOpen key nonce ciphertext :=
    if key = retiredKey ∧ nonce = firstNonce.bytes ∧ ciphertext = sealedDocument then
      some emptyDocument
    else if ciphertext.drop (ciphertext.length - 16) = List.replicate 16 0 then
      some (ciphertext.take (ciphertext.length - 16))
    else
      none
  encryptionKeyID key :=
    if key = retiredKey.bytes then
      "f445801e0cb899262c9b9e219836880d73ca2d1b0b9c15fb959c90eb121234e3"
    else if key = activeKey.bytes then
      "9f9f5111f7b27a781f1f1ddde5ebc2dd2b796bfc7365c9c28b548e564176929f"
    else
      "unknown"
  marshal
    | ⟨[], none, "", "", 0⟩ => .ok emptyDocument
    | _ => .error "not the empty payload"
  unmarshal bytes := if bytes = emptyDocument then .ok emptyPayload else .error "syntax error"

theorem sampleLibraries_lawful : sampleLibraries.Lawful where
  open_seal key nonce plaintext := by
    simp only [sampleLibraries]
    by_cases h : key = retiredKey ∧ nonce = firstNonce.bytes ∧ plaintext = emptyDocument
    · simp [h]
    · -- the sealed document does not end in a tag of zeros
      have hne : plaintext ++ List.replicate 16 0 ≠ sealedDocument := by
        intro heq
        have hlength := congrArg List.length heq
        have hdrop := congrArg (List.drop 76) heq
        have h76 : plaintext.length = 76 := by
          simpa [sealedDocument] using hlength
        rw [← h76, List.drop_left, h76] at hdrop
        exact absurd hdrop (by decide)
      rw [if_neg h, if_neg fun hsealed => hne hsealed.2.2]
      simp
  open_length key nonce ciphertext plaintext h := by
    simp only [sampleLibraries] at h
    split at h
    next hsealed =>
      rw [← Option.some.inj h, hsealed.2.2]
      decide
    next =>
      split at h
      next htag =>
        have hlength := congrArg List.length htag
        simp only [List.length_drop, List.length_replicate] at hlength
        rw [← Option.some.inj h, List.length_take]
        omega
      next => cases h
  keyID_ne key := by
    simp only [sampleLibraries]
    split
    · decide
    · split <;> decide
  unmarshal_length bytes payload h key value hmem := by
    simp only [sampleLibraries] at h
    split at h
    · cases h
      simp [emptyPayload] at hmem
    · cases h

/-- The manager that stored the payload. -/
def storingManager : EncryptionKeyManager where
  enabled := true
  source := .ok (some ⟨retiredKey.bytes, []⟩)
  currentID := sampleLibraries.encryptionKeyID retiredKey.bytes
  keys := [retiredKey]

/-- The manager that reads it: it has cached the new key only, and its source lists both. -/
def readingManager : EncryptionKeyManager where
  enabled := true
  source := .ok (some ⟨activeKey.bytes, [retiredKey.bytes]⟩)
  currentID := sampleLibraries.encryptionKeyID activeKey.bytes
  keys := [activeKey]

theorem readingManager_holds :
    readingManager.Holds sampleLibraries.encryptionKeyID retiredKey where
  enabled := rfl
  held := .inr ⟨_, rfl, by decide, by decide⟩
  distinct_cached := by decide
  distinct_source keySet h := by
    cases h
    decide

theorem storingManager_current :
    storingManager.getCurrentEncryptionKey sampleLibraries.encryptionKeyID =
      .ok (storingManager.currentID, retiredKey) := by
  simp [EncryptionKeyManager.getCurrentEncryptionKey, lookupKey, storingManager]

theorem roundTrips_rotated :
    (∃ encrypted, encryptPayload sampleLibraries firstNonce (some emptyPayload)
      (some storingManager) = .ok encrypted) ∧
    RoundTrips sampleLibraries firstNonce (some emptyPayload) (some storingManager)
      (some readingManager) := by
  refine ⟨encryptPayload_isOk sampleLibraries_lawful rfl rfl storingManager_current,
    (roundTrips_iff sampleLibraries_lawful firstNonce _ _ _ ?_ ?_).mpr (.inl rfl)⟩
  · intro p hp bytes hbytes
    cases hp
    cases hbytes
    rfl
  · intro m hm id key hkey
    cases hm
    rw [storingManager_current] at hkey
    obtain ⟨-, rfl⟩ := Prod.mk.inj (Except.ok.inj hkey)
    exact ⟨readingManager, rfl, readingManager_holds⟩

/-- A user's payload whose metadata has the two entries. -/
def reportPayload : Payload where
  metadata := [("encryptedPayload", .string "report"), ("nonce", .string "7")]
  data := none
  contentType := ""
  schemaId := ""
  schemaVersion := 0

/-- Stored and read with encryption disabled, it is not returned at all. -/
theorem not_roundTrips_disabled :
    encryptPayload sampleLibraries firstNonce (some reportPayload) none =
      .ok (some reportPayload) ∧
    (decryptPayload sampleLibraries (some reportPayload) none).2 =
      .error "decrypt payload: encryption key manager disabled" ∧
    ¬ RoundTrips sampleLibraries firstNonce (some reportPayload) none none := by
  refine ⟨rfl, rfl, fun hround => ?_⟩
  cases hround _ rfl

end Common

end Nzovu.Encryption
