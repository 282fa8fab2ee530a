import Mathlib.Data.List.Basic

/-!
# The Encryption Key Manager

Translation of `internal/encryption/keymanager`: the cache of the current key and of every
historical key, its refresh from the key source, and the lookups that encryption and decryption
make. A key is cached under the hex SHA-256 of its bytes. The digest is a parameter.
-/

namespace Nzovu.Encryption

/-- `[]byte`. -/
abbrev Bytes := List UInt8

/-! ## Section 1: Keys -/

/-- An AES key has 16, 24 or 32 bytes. -/
def validKeySize (size : Nat) : Prop := size = 16 ∨ size = 24 ∨ size = 32

instance (size : Nat) : Decidable (validKeySize size) :=
  inferInstanceAs (Decidable (size = 16 ∨ size = 24 ∨ size = 32))

/-- A key that passed the size check of `refreshKey`; `aes.NewCipher` accepts it. -/
structure EncryptionKey where
  bytes : Bytes
  size : validKeySize bytes.length
deriving DecidableEq

/-- What a key source returns. -/
structure KeySet where
  currentKey : Bytes
  historicalKeys : List Bytes

/-- The keys of a key set in the order in which `refreshKey` visits them. -/
def KeySet.allKeys (keySet : KeySet) : List Bytes := keySet.currentKey :: keySet.historicalKeys

/-! ## Section 2: The manager -/

/-- `EncryptionKeyManager`. The map `cache.keys` is the list of its values: each is filed under
the identifier of its own bytes. `source` is what `adapter.FetchKeys` returns at present. -/
structure EncryptionKeyManager where
  enabled : Bool
  source : Except String (Option KeySet)
  currentID : String
  keys : List EncryptionKey

variable (encryptionKeyID : Bytes → String)

/-- `m.cache.keys[id]`. -/
def lookupKey (keys : List EncryptionKey) (id : String) : Option EncryptionKey :=
  keys.find? fun key => encryptionKeyID key.bytes = id

/-- `keys[encryptionKeyID(key)] = key`. -/
def storeKey (keys : List EncryptionKey) (key : EncryptionKey) : List EncryptionKey :=
  key :: keys.filter fun other => encryptionKeyID other.bytes ≠ encryptionKeyID key.bytes

/-- The loop of `refreshKey` over the keys of the key set. -/
def collectKeys (keys : List EncryptionKey) : List Bytes → Except String (List EncryptionKey)
  | [] => .ok keys
  | key :: rest =>
    if h : validKeySize key.length then
      collectKeys (storeKey encryptionKeyID keys ⟨key, h⟩) rest
    else
      .error s!"invalid encryption key size: {key.length} bytes"

/-- `refreshKey`. -/
def EncryptionKeyManager.refreshKey (m : EncryptionKeyManager) :
    Except String EncryptionKeyManager :=
  match m.source with
  | .error err => .error err
  | .ok none => .error "encryption key source returned no key set"
  | .ok (some keySet) =>
    match collectKeys encryptionKeyID [] keySet.allKeys with
    | .error err => .error err
    | .ok keys => .ok { m with currentID := encryptionKeyID keySet.currentKey, keys }

/-- `GetCurrentEncryptionKey`. -/
def EncryptionKeyManager.getCurrentEncryptionKey (m : EncryptionKeyManager) :
    Except String (String × EncryptionKey) :=
  match lookupKey encryptionKeyID m.keys m.currentID with
  | none => .error "current encryption key is not available"
  | some key => .ok (m.currentID, key)

/-- `cachedDecryptionKeys`. Without an identifier the current key comes first; the order of the
others is the order of a map iteration in the source. -/
def EncryptionKeyManager.cachedDecryptionKeys (m : EncryptionKeyManager) (keyID : String) :
    List EncryptionKey :=
  if keyID ≠ "" then
    (lookupKey encryptionKeyID m.keys keyID).toList
  else
    (lookupKey encryptionKeyID m.keys m.currentID).toList ++
      m.keys.filter fun key => encryptionKeyID key.bytes ≠ m.currentID

/-- `GetDecryptionKeys`: an identifier that is not cached asks the source once. The manager is
returned as the refresh leaves it. -/
def EncryptionKeyManager.getDecryptionKeys (m : EncryptionKeyManager) (keyID : String) :
    EncryptionKeyManager × Except String (List EncryptionKey) :=
  let keys := m.cachedDecryptionKeys encryptionKeyID keyID
  if keys.length > 0 ∨ keyID = "" then
    (m, .ok keys)
  else
    match m.refreshKey encryptionKeyID with
    | .error err => (m, .error s!"refresh encryption keys: {err}")
    | .ok m' =>
      match m'.cachedDecryptionKeys encryptionKeyID keyID with
      | [] => (m', .error s!"encryption key {keyID.quote} is not available")
      | keys => (m', .ok keys)

/-! ## Section 3: Held keys -/

/-- `key` is still held: it is cached or the source would return it with a key set that
`refreshKey` accepts, and no other key at hand has its identifier. -/
structure EncryptionKeyManager.Holds (m : EncryptionKeyManager) (key : EncryptionKey) : Prop where
  enabled : m.enabled = true
  held : key ∈ m.keys ∨ ∃ keySet, m.source = .ok (some keySet) ∧
    (∀ bytes ∈ keySet.allKeys, validKeySize bytes.length) ∧ key.bytes ∈ keySet.allKeys
  distinct_cached : ∀ other ∈ m.keys,
    encryptionKeyID other.bytes = encryptionKeyID key.bytes → other = key
  distinct_source : ∀ keySet, m.source = .ok (some keySet) → ∀ other ∈ keySet.allKeys,
    encryptionKeyID other = encryptionKeyID key.bytes → other = key.bytes

variable {encryptionKeyID}

theorem lookupKey_of_mem {keys : List EncryptionKey} {key : EncryptionKey} (hmem : key ∈ keys)
    (hdistinct : ∀ other ∈ keys,
      encryptionKeyID other.bytes = encryptionKeyID key.bytes → other = key) :
    lookupKey encryptionKeyID keys (encryptionKeyID key.bytes) = some key := by
  cases hfind : lookupKey encryptionKeyID keys (encryptionKeyID key.bytes) with
  | none => simpa using List.find?_eq_none.mp hfind key hmem
  | some other =>
    have hid := List.find?_some hfind
    rw [hdistinct other (List.mem_of_find?_eq_some hfind) (by simpa using hid)]

theorem mem_of_lookupKey {keys : List EncryptionKey} {id : String} {key : EncryptionKey}
    (h : lookupKey encryptionKeyID keys id = some key) :
    key ∈ keys ∧ encryptionKeyID key.bytes = id :=
  ⟨List.mem_of_find?_eq_some h, by simpa using List.find?_some h⟩

theorem getCurrentEncryptionKey_ok {m : EncryptionKeyManager} {id : String} {key : EncryptionKey}
    (h : m.getCurrentEncryptionKey encryptionKeyID = .ok (id, key)) :
    encryptionKeyID key.bytes = id := by
  cases hlookup : lookupKey encryptionKeyID m.keys m.currentID with
  | none => simp [EncryptionKeyManager.getCurrentEncryptionKey, hlookup] at h
  | some current =>
    simp only [EncryptionKeyManager.getCurrentEncryptionKey, hlookup, Except.ok.injEq,
      Prod.mk.injEq] at h
    rw [← h.1, ← h.2]
    exact (mem_of_lookupKey hlookup).2

theorem mem_storeKey {keys : List EncryptionKey} {key other : EncryptionKey}
    (h : other ∈ storeKey encryptionKeyID keys key) : other = key ∨ other ∈ keys := by
  simp only [storeKey, List.mem_cons, List.mem_filter] at h
  exact h.imp_right And.left

theorem storeKey_keeps {keys : List EncryptionKey} {key other : EncryptionKey}
    (hmem : other ∈ keys)
    (hdistinct : encryptionKeyID key.bytes = encryptionKeyID other.bytes → key = other) :
    other ∈ storeKey encryptionKeyID keys key := by
  simp only [storeKey, List.mem_cons, List.mem_filter, decide_eq_true_eq]
  by_cases hid : encryptionKeyID key.bytes = encryptionKeyID other.bytes
  · exact .inl (hdistinct hid).symm
  · exact .inr ⟨hmem, fun h => hid h.symm⟩

/-- The loop keeps a key it has seen, and all it collects comes from the key set. -/
theorem collectKeys_spec {pending : List Bytes} {keys : List EncryptionKey} {key : EncryptionKey}
    (hsize : ∀ bytes ∈ pending, validKeySize bytes.length)
    (hmem : key ∈ keys ∨ key.bytes ∈ pending)
    (hkeys : ∀ other ∈ keys, encryptionKeyID other.bytes = encryptionKeyID key.bytes →
      other = key)
    (hpending : ∀ other ∈ pending, encryptionKeyID other = encryptionKeyID key.bytes →
      other = key.bytes) :
    ∃ collected, collectKeys encryptionKeyID keys pending = .ok collected ∧ key ∈ collected ∧
      ∀ other ∈ collected, encryptionKeyID other.bytes = encryptionKeyID key.bytes →
        other = key := by
  induction pending generalizing keys with
  | nil => exact ⟨keys, rfl, by simpa using hmem, hkeys⟩
  | cons bytes rest ih =>
    have hbytes : validKeySize bytes.length := hsize bytes (by simp)
    have hsame : encryptionKeyID bytes = encryptionKeyID key.bytes →
        (⟨bytes, hbytes⟩ : EncryptionKey) = key := by
      intro hid
      cases key
      simpa using hpending bytes (by simp) hid
    simp only [collectKeys, hbytes, dif_pos]
    refine ih (fun b hb => hsize b (by simp [hb])) ?_ ?_ fun b hb => hpending b (by simp [hb])
    · rcases hmem with hcached | hsource
      · exact .inl (storeKey_keeps hcached hsame)
      · rcases List.mem_cons.mp hsource with heq | hrest
        · refine .inl (List.mem_cons.mpr (.inl ?_))
          cases key
          simpa using heq
        · exact .inr hrest
    · intro other hother hid
      rcases mem_storeKey hother with rfl | hcached
      · exact hsame hid
      · exact hkeys other hcached hid

/-- Refreshing from a source that returns a held key succeeds and keeps it. -/
theorem EncryptionKeyManager.Holds.refreshKey {m : EncryptionKeyManager} {key : EncryptionKey}
    {keySet : KeySet} (h : m.Holds encryptionKeyID key) (hsource : m.source = .ok (some keySet))
    (hsize : ∀ bytes ∈ keySet.allKeys, validKeySize bytes.length)
    (hmem : key.bytes ∈ keySet.allKeys) :
    ∃ m', m.refreshKey encryptionKeyID = .ok m' ∧ key ∈ m'.keys ∧ m'.Holds encryptionKeyID key := by
  have hnone : ∀ other ∈ ([] : List EncryptionKey),
      encryptionKeyID other.bytes = encryptionKeyID key.bytes → other = key := by simp
  obtain ⟨collected, hcollect, hkey, hdistinct⟩ :=
    collectKeys_spec hsize (.inr hmem) hnone (h.distinct_source keySet hsource)
  refine ⟨_, by simp only [EncryptionKeyManager.refreshKey, hsource, hcollect]; rfl, hkey, ?_⟩
  exact ⟨h.enabled, .inl hkey, hdistinct, fun other hother =>
    h.distinct_source other (hsource.trans hother)⟩

/-- A held key is what its identifier looks up, if need be after one refresh. -/
theorem EncryptionKeyManager.Holds.getDecryptionKeys {m : EncryptionKeyManager}
    {key : EncryptionKey} (h : m.Holds encryptionKeyID key)
    (hid : encryptionKeyID key.bytes ≠ "") :
    (m.getDecryptionKeys encryptionKeyID (encryptionKeyID key.bytes)).2 = .ok [key] := by
  have hcached : ∀ m' : EncryptionKeyManager, key ∈ m'.keys → m'.Holds encryptionKeyID key →
      m'.cachedDecryptionKeys encryptionKeyID (encryptionKeyID key.bytes) = [key] := by
    intro m' hmem hm'
    simp [EncryptionKeyManager.cachedDecryptionKeys, hid,
      lookupKey_of_mem hmem hm'.distinct_cached]
  by_cases hmem : key ∈ m.keys
  · simp [EncryptionKeyManager.getDecryptionKeys, hcached m hmem h]
  · obtain ⟨keySet, hsource, hsize, hkey⟩ := h.held.resolve_left hmem
    obtain ⟨m', hrefresh, hmem', hm'⟩ := h.refreshKey hsource hsize hkey
    -- a key that is not cached cannot share its identifier with one that is
    have hnone : lookupKey encryptionKeyID m.keys (encryptionKeyID key.bytes) = none := by
      cases hfind : lookupKey encryptionKeyID m.keys (encryptionKeyID key.bytes) with
      | none => rfl
      | some other =>
        obtain ⟨hother, hsame⟩ := mem_of_lookupKey hfind
        exact absurd (h.distinct_cached other hother hsame ▸ hother) hmem
    have hmiss : m.cachedDecryptionKeys encryptionKeyID (encryptionKeyID key.bytes) = [] := by
      simp [EncryptionKeyManager.cachedDecryptionKeys, hid, hnone]
    simp [EncryptionKeyManager.getDecryptionKeys, hmiss, hid, hrefresh, hcached m' hmem' hm']

/-! ## Section 4: Refreshed caches -/

/-- A key set whose keys all have a size that `refreshKey` accepts. -/
def KeySet.Accepted (keySet : KeySet) : Prop :=
  ∀ bytes ∈ keySet.allKeys, validKeySize bytes.length

/-- The loop collects only keys of the key set, and ends only if all their sizes are valid. -/
theorem collectKeys_ok {pending : List Bytes} {keys collected : List EncryptionKey}
    (h : collectKeys encryptionKeyID keys pending = .ok collected) :
    (∀ bytes ∈ pending, validKeySize bytes.length) ∧
      ∀ key ∈ collected, key ∈ keys ∨ key.bytes ∈ pending := by
  induction pending generalizing keys with
  | nil =>
    cases h
    exact ⟨by simp, fun key hkey => .inl hkey⟩
  | cons bytes rest ih =>
    by_cases hsize : validKeySize bytes.length
    · simp only [collectKeys, hsize, dif_pos] at h
      obtain ⟨hrest, hfrom⟩ := ih h
      refine ⟨List.forall_mem_cons.mpr ⟨hsize, hrest⟩, fun key hkey => ?_⟩
      rcases hfrom key hkey with hstored | hpending
      · rcases mem_storeKey hstored with rfl | hkeys
        · exact .inr List.mem_cons_self
        · exact .inl hkeys
      · exact .inr (List.mem_cons_of_mem _ hpending)
    · simp [collectKeys, hsize] at h

/-- A refresh succeeds only with an accepted key set, and caches no key but those of the set. -/
theorem EncryptionKeyManager.refreshKey_ok {m m' : EncryptionKeyManager}
    (h : m.refreshKey encryptionKeyID = .ok m') :
    ∃ keySet, m.source = .ok (some keySet) ∧ keySet.Accepted ∧ m'.enabled = m.enabled ∧
      m'.currentID = encryptionKeyID keySet.currentKey ∧
      ∀ key ∈ m'.keys, key.bytes ∈ keySet.allKeys := by
  cases hsource : m.source with
  | error err => simp [refreshKey, hsource] at h
  | ok fetched =>
    cases fetched with
    | none => simp [refreshKey, hsource] at h
    | some keySet =>
      cases hcollect : collectKeys encryptionKeyID [] keySet.allKeys with
      | error err => simp [refreshKey, hsource, hcollect] at h
      | ok keys =>
        simp only [refreshKey, hsource, hcollect, Except.ok.injEq] at h
        subst h
        obtain ⟨haccepted, hfrom⟩ := collectKeys_ok hcollect
        exact ⟨keySet, rfl, haccepted, rfl, rfl, fun key hkey =>
          (hfrom key hkey).resolve_left List.not_mem_nil⟩

/-- After a refresh every key of the set is cached whose identifier no other key of it has. -/
theorem EncryptionKeyManager.refreshKey_caches {m m' : EncryptionKeyManager} {keySet : KeySet}
    {key : EncryptionKey} (h : m.refreshKey encryptionKeyID = .ok m')
    (hsource : m.source = .ok (some keySet)) (hkey : key.bytes ∈ keySet.allKeys)
    (hdistinct : ∀ other ∈ keySet.allKeys,
      encryptionKeyID other = encryptionKeyID key.bytes → other = key.bytes) :
    key ∈ m'.keys := by
  obtain ⟨keySet', hsource', haccepted, -⟩ := refreshKey_ok h
  cases hsource.symm.trans hsource'
  obtain ⟨collected, hcollect, hmem, -⟩ := collectKeys_spec haccepted (.inr hkey)
    (fun other hother => absurd hother List.not_mem_nil) hdistinct
  simp only [refreshKey, hsource, hcollect, Except.ok.injEq] at h
  rw [← h]
  exact hmem

/-- A lookup leaves the manager as it is or as a refresh left it. -/
theorem EncryptionKeyManager.getDecryptionKeys_manager (m : EncryptionKeyManager) (id : String) :
    (m.getDecryptionKeys encryptionKeyID id).1 = m ∨
      m.refreshKey encryptionKeyID = .ok (m.getDecryptionKeys encryptionKeyID id).1 := by
  simp only [getDecryptionKeys]
  split
  · exact .inl rfl
  · cases hrefresh : m.refreshKey encryptionKeyID with
    | error err => exact .inl rfl
    | ok m' =>
      right
      cases hcached : m'.cachedDecryptionKeys encryptionKeyID id with
      | nil => simp only [hcached]
      | cons key keys => simp only [hcached]

/-- An identifier that is neither cached nor in the key set of the source is an error. -/
theorem EncryptionKeyManager.getDecryptionKeys_error {m : EncryptionKeyManager} {id : String}
    (hid : id ≠ "") (hcached : ∀ key ∈ m.keys, encryptionKeyID key.bytes ≠ id)
    (hsource : ∀ keySet, m.source = .ok (some keySet) → keySet.Accepted →
      ∀ bytes ∈ keySet.allKeys, encryptionKeyID bytes ≠ id) :
    ∃ err, (m.getDecryptionKeys encryptionKeyID id).2 = .error err := by
  have hmiss : ∀ m' : EncryptionKeyManager, (∀ key ∈ m'.keys, encryptionKeyID key.bytes ≠ id) →
      m'.cachedDecryptionKeys encryptionKeyID id = [] := by
    intro m' hm'
    have hnone : lookupKey encryptionKeyID m'.keys id = none :=
      List.find?_eq_none.mpr fun key hkey => by simpa using hm' key hkey
    simp [cachedDecryptionKeys, hid, hnone]
  cases hrefresh : m.refreshKey encryptionKeyID with
  | error err => exact ⟨_, by simp [getDecryptionKeys, hmiss m hcached, hid, hrefresh]; rfl⟩
  | ok m' =>
    obtain ⟨keySet, hoffered, haccepted, -, -, hfrom⟩ := refreshKey_ok hrefresh
    have hcached' : ∀ key ∈ m'.keys, encryptionKeyID key.bytes ≠ id := fun key hkey =>
      hsource keySet hoffered haccepted key.bytes (hfrom key hkey)
    exact ⟨_, by simp [getDecryptionKeys, hmiss m hcached, hmiss m' hcached', hid, hrefresh]; rfl⟩

end Nzovu.Encryption
