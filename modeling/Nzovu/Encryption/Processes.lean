import Mathlib.Data.Set.Function
import Nzovu.Foundation.Run
import Nzovu.Encryption.Adapters
import Nzovu.Encryption.Payload

/-!
# Processes That Share a Store

Processes that share one store and one Vault secret. Each caches the keys of the secret when it
starts, when its refresher ticks and when it meets an identifier it does not know; in between its
cache may be of any age. Any of these fetches can fail.

- Section 1: the processes and their operations.
- Section 2: what one process reads of a stored payload.
- Section 3: what a step makes of the processes and of the store.
-/

namespace Nzovu.Encryption

open Nzovu.Foundation

/-! ## Section 1: Processes and their store -/

/-- A payload of the store: as it was handed in and as it was written, with the key that sealed it
unless it was written as it is. -/
structure StoredPayload where
  payload : Payload
  written : Payload
  key : Option EncryptionKey

/-- The secret as Vault returns it, the key managers of the running processes and the store. -/
structure Deployment where
  secret : Except String (Option SecretData)
  processes : Nat → Option EncryptionKeyManager
  stored : Nat → Option StoredPayload

/-- Nothing runs yet, and there is no secret. -/
def Deployment.initial : Deployment := ⟨.ok none, fun _ => none, fun _ => none⟩

def Deployment.setProcess (d : Deployment) (i : Nat) (m : Option EncryptionKeyManager) :
    Deployment :=
  { d with processes := Function.update d.processes i m }

def Deployment.setStored (d : Deployment) (id : Nat) (r : Option StoredPayload) : Deployment :=
  { d with stored := Function.update d.stored id r }

@[simp] theorem Deployment.setProcess_secret (d : Deployment) (i : Nat)
    (m : Option EncryptionKeyManager) : (d.setProcess i m).secret = d.secret := rfl

@[simp] theorem Deployment.setProcess_stored (d : Deployment) (i : Nat)
    (m : Option EncryptionKeyManager) : (d.setProcess i m).stored = d.stored := rfl

@[simp] theorem Deployment.setStored_secret (d : Deployment) (id : Nat)
    (r : Option StoredPayload) : (d.setStored id r).secret = d.secret := rfl

@[simp] theorem Deployment.setStored_processes (d : Deployment) (id : Nat)
    (r : Option StoredPayload) : (d.setStored id r).processes = d.processes := rfl

theorem Deployment.setProcess_processes {d : Deployment} {i j : Nat}
    {m' : Option EncryptionKeyManager} {m : EncryptionKeyManager}
    (h : (d.setProcess j m').processes i = some m) :
    (i = j ∧ m' = some m) ∨ d.processes i = some m := by
  by_cases hij : i = j
  · subst hij
    simp only [setProcess, Function.update_self] at h
    exact .inl ⟨rfl, h⟩
  · simp only [setProcess, Function.update_of_ne hij] at h
    exact .inr h

theorem Deployment.setStored_stored {d : Deployment} {id other : Nat}
    {r' : Option StoredPayload} {r : StoredPayload}
    (h : (d.setStored other r').stored id = some r) :
    (id = other ∧ r' = some r) ∨ d.stored id = some r := by
  by_cases hid : id = other
  · subst hid
    simp only [setStored, Function.update_self] at h
    exact .inl ⟨rfl, h⟩
  · simp only [setStored, Function.update_of_ne hid] at h
    exact .inr h

/-- The operations. A fetch from Vault fails with the error of an outage. -/
inductive Operation where
  /-- The operator publishes a secret. -/
  | publish (secret : Except String (Option SecretData))
  /-- A process starts, with encryption enabled or not. -/
  | start (i : Nat) (enabled : Bool) (outage : Option String)
  | stop (i : Nat)
  /-- A tick of `keyRefresher`. -/
  | refresh (i : Nat) (outage : Option String)
  /-- A process stores a payload under an identifier. -/
  | encrypt (i id : Nat) (nonce : Nonce) (payload : Payload)
  /-- A process reads a stored payload. -/
  | decrypt (i id : Nat) (outage : Option String)
  | delete (id : Nat)

/-- What `FetchKeys` returns to a process. -/
def Deployment.fetchKeys (d : Deployment) : Option String → Except String KeySet
  | some err => .error err
  | none => VaultAdapter.fetchKeys d.secret

/-- The manager with what its adapter returns at present. -/
def EncryptionKeyManager.fetching (m : EncryptionKeyManager) (fetched : Except String KeySet) :
    EncryptionKeyManager :=
  { m with source := fetched.map some }

@[simp] theorem EncryptionKeyManager.fetching_keys (m : EncryptionKeyManager)
    (fetched : Except String KeySet) : (m.fetching fetched).keys = m.keys := rfl

@[simp] theorem EncryptionKeyManager.fetching_enabled (m : EncryptionKeyManager)
    (fetched : Except String KeySet) : (m.fetching fetched).enabled = m.enabled := rfl

variable (P : Primitives)

/-- The key that a process seals with. -/
def EncryptionKeyManager.sealingKey (m : EncryptionKeyManager) : Option EncryptionKey :=
  if m.enabled then
    match m.getCurrentEncryptionKey P.encryptionKeyID with
    | .ok (_, key) => some key
    | .error _ => none
  else
    none

/-- `decryptPayload` of a stored payload by a process, with the manager as the call leaves it. -/
def EncryptionKeyManager.read (m : EncryptionKeyManager) (fetched : Except String KeySet)
    (r : StoredPayload) : Option EncryptionKeyManager × Except String (Option Payload) :=
  Common.decryptPayload P (some r.written) (some (m.fetching fetched))

/-- One operation of the deployment. A process that cannot fetch its first keys does not start; a
refresh that fails is logged. -/
def Deployment.step (d : Deployment) : Operation → Deployment
  | .publish secret => { d with secret }
  | .start i enabled outage =>
    match newEncryptionKeyManagerWithConfig P.encryptionKeyID (.error "not a local source")
      (d.fetchKeys outage) ⟨enabled, "VAULT"⟩ with
    | .ok m => d.setProcess i (some m)
    | .error _ => d.setProcess i none
  | .stop i => d.setProcess i none
  | .refresh i outage =>
    match (d.processes i).filter (·.enabled) with
    | none => d
    | some m =>
      match (m.fetching (d.fetchKeys outage)).refreshKey P.encryptionKeyID with
      | .ok m' => d.setProcess i (some m')
      | .error _ => d
  | .encrypt i id nonce payload =>
    match d.processes i with
    | none => d
    | some m =>
      match Common.encryptPayload P nonce (some payload) (some m) with
      | .ok (some written) =>
        d.setStored id (some ⟨payload, written, m.sealingKey P⟩)
      | _ => d
  | .decrypt i id outage =>
    match d.processes i, d.stored id with
    | some m, some r => d.setProcess i (m.read P (d.fetchKeys outage) r).1
    | _, _ => d
  | .delete id => d.setStored id none

/-! ## Section 2: Reading a stored payload -/

/-- A stored payload as `encryptPayload` writes it, under a key of the ring or as it is. -/
inductive StoredPayload.Sound (ring : Set Bytes) : StoredPayload → Prop where
  | plain {payload : Payload} (hplain : ¬ Common.LooksEncrypted payload) :
      Sound ring ⟨payload, payload, none⟩
  | encrypted {m : EncryptionKeyManager} {nonce : Nonce} {payload written : Payload}
      {key : EncryptionKey} (hring : key.bytes ∈ ring) (hseals : m.sealingKey P = some key)
      (hwritten : Common.encryptPayload P nonce (some payload) (some m) = .ok (some written)) :
      Sound ring ⟨payload, written, some key⟩

/-- A fetch that brings the key. -/
def Offered (fetched : Except String KeySet) (key : EncryptionKey) : Prop :=
  ∃ keySet, fetched = .ok keySet ∧ keySet.Accepted ∧ key.bytes ∈ keySet.allKeys

/-- A process has the key that a payload was sealed with, or can fetch it. -/
def EncryptionKeyManager.CanOpen (m : EncryptionKeyManager) (fetched : Except String KeySet)
    (r : StoredPayload) : Prop :=
  ∀ key, r.key = some key → m.enabled = true ∧ (key ∈ m.keys ∨ Offered fetched key)

variable {P}

theorem sealingKey_eq_some {m : EncryptionKeyManager} {key : EncryptionKey} :
    m.sealingKey P = some key ↔
      m.enabled = true ∧
        m.getCurrentEncryptionKey P.encryptionKeyID = .ok (P.encryptionKeyID key.bytes, key) := by
  simp only [EncryptionKeyManager.sealingKey]
  by_cases henabled : m.enabled = true
  · cases hcurrent : m.getCurrentEncryptionKey P.encryptionKeyID with
    | error err => simp [henabled]
    | ok current =>
      have hid := getCurrentEncryptionKey_ok hcurrent
      simp only [henabled, if_true, Option.some.injEq, true_and, Except.ok.injEq]
      constructor
      · rintro rfl
        rw [hid]
      · intro h
        rw [h]
  · simp [henabled]

/-- A process that encrypts writes an envelope with the identifier of its sealing key. -/
theorem encryptPayload_enabled {m : EncryptionKeyManager} {nonce : Nonce}
    {payload written : Payload} (henabled : m.enabled = true)
    (h : Common.encryptPayload P nonce (some payload) (some m) = .ok (some written)) :
    ∃ key cipher nonceText, m.sealingKey P = some key ∧
      written = Common.envelope cipher nonceText (P.encryptionKeyID key.bytes) := by
  have hsome : (some m).filter (·.enabled) = some m := by simp [henabled]
  simp only [Common.encryptPayload, hsome] at h
  cases hmarshal : P.marshal payload with
  | error err => simp [hmarshal] at h
  | ok bytes =>
    cases hseal : encryptPayload P nonce bytes m with
    | error err => simp [hmarshal, hseal] at h
    | ok parts =>
      obtain ⟨cipher, nonceText, keyID⟩ := parts
      obtain ⟨key, hcurrent, -⟩ := encryptPayload_ok hseal
      have hid := getCurrentEncryptionKey_ok hcurrent
      simp only [hmarshal, hseal] at h
      split at h
      · cases h
      · simp only [Except.ok.injEq, Option.some.injEq] at h
        refine ⟨key, cipher, nonceText, sealingKey_eq_some.mpr ⟨henabled, ?_⟩, ?_⟩
        · rw [hid]
          exact hcurrent
        · rw [hid]
          exact h.symm

/-- A process without encryption writes the payload as it is. -/
theorem encryptPayload_disabled {m : EncryptionKeyManager} {nonce : Nonce} {payload : Payload}
    (hdisabled : m.enabled = false) :
    Common.encryptPayload P nonce (some payload) (some m) = .ok (some payload) ∧
      m.sealingKey P = none := by
  have hnone : (some m).filter (·.enabled) = none := by simp [hdisabled]
  simp [Common.encryptPayload, hnone, EncryptionKeyManager.sealingKey, hdisabled]

/-- An envelope whose key is not at hand is not opened. -/
theorem decryptPayload_envelope_error {m : EncryptionKeyManager} {cipher nonceText keyID : String}
    (h : m.enabled = true → ∃ err, (m.getDecryptionKeys P.encryptionKeyID keyID).2 = .error err) :
    ∃ err, (Common.decryptPayload P (some (Common.envelope cipher nonceText keyID))
      (some m)).2 = .error err := by
  simp only [Common.decryptPayload, Common.entry_envelope_cipher, Common.entry_envelope_nonce,
    Common.entry_envelope_keyID, getStringValue]
  by_cases hempty : cipher = "" ∨ nonceText = ""
  · simp only [hempty, if_true]
    exact ⟨_, rfl⟩
  · simp only [hempty, if_false]
    by_cases henabled : m.enabled = true
    · obtain ⟨err, herr⟩ := h henabled
      cases hget : m.getDecryptionKeys P.encryptionKeyID keyID with
      | mk m' result =>
        rw [hget] at herr
        subst herr
        simp only [Option.filter, henabled, if_true, decryptPayload, hget]
        exact ⟨_, rfl⟩
    · simp only [Option.filter, henabled]
      exact ⟨_, rfl⟩

section Reading

variable {ring : Set Bytes} {m : EncryptionKeyManager} {fetched : Except String KeySet}

theorem fetching_source {keySet : KeySet}
    (h : (m.fetching fetched).source = .ok (some keySet)) : fetched = .ok keySet := by
  cases fetched with
  | error err => cases h
  | ok other =>
    simp only [EncryptionKeyManager.fetching, Except.map, Except.ok.injEq, Option.some.injEq] at h
    rw [h]

/-- Within a ring of keys with distinct identifiers, a key that is cached or offered is held. -/
theorem holds_fetching (hring : Set.InjOn P.encryptionKeyID ring)
    (hcached : ∀ key ∈ m.keys, key.bytes ∈ ring)
    (hfetched : ∀ keySet, fetched = .ok keySet → ∀ bytes ∈ keySet.allKeys, bytes ∈ ring)
    {key : EncryptionKey} (hkey : key.bytes ∈ ring) (henabled : m.enabled = true)
    (hheld : key ∈ m.keys ∨ Offered fetched key) :
    (m.fetching fetched).Holds P.encryptionKeyID key where
  enabled := henabled
  held := hheld.imp_right fun ⟨keySet, hoffer, haccepted, hmem⟩ =>
    ⟨keySet, by rw [hoffer]; rfl, haccepted, hmem⟩
  distinct_cached other hother hid := by
    have hbytes := hring (hcached other hother) hkey hid
    cases other
    cases key
    cases hbytes
    rfl
  distinct_source keySet hsource other hother hid :=
    hring (hfetched keySet (fetching_source hsource) other hother) hkey hid

/-- A process that has the key, or can fetch it, reads what was stored. -/
theorem StoredPayload.Sound.read_ok {r : StoredPayload} (h : r.Sound P ring) (hP : P.Lawful)
    (hjson : ∀ p bytes, P.marshal p = .ok bytes → P.unmarshal bytes = .ok p)
    (hring : Set.InjOn P.encryptionKeyID ring) (hcached : ∀ key ∈ m.keys, key.bytes ∈ ring)
    (hfetched : ∀ keySet, fetched = .ok keySet → ∀ bytes ∈ keySet.allKeys, bytes ∈ ring)
    (hopen : m.CanOpen fetched r) : (m.read P fetched r).2 = .ok (some r.payload) := by
  cases h with
  | plain hplain =>
    rw [EncryptionKeyManager.read, Common.decryptPayload_plain hplain]
  | @encrypted writer nonce payload written key hkey hseals hwritten =>
    obtain ⟨henabled, hheld⟩ := hopen key rfl
    obtain ⟨hwriter, hcurrent⟩ := sealingKey_eq_some.mp hseals
    have hholds := holds_fetching hring hcached hfetched hkey henabled hheld
    have hencrypts : Common.EncryptionEnabled (some writer) := by
      simp [Common.EncryptionEnabled, hwriter]
    refine Common.roundTrips_enabled hP hencrypts (hjson payload) ?_ _ hwritten
    intro writer' hwriter' id other hother
    have heq : writer = writer' := (by simpa using hwriter' : _ ∧ _).1
    rw [← heq, hcurrent] at hother
    cases hother
    exact ⟨_, rfl, hholds⟩

/-- A process that neither has the key nor can fetch it gets an error. -/
theorem StoredPayload.Sound.read_error {r : StoredPayload} (h : r.Sound P ring) (hP : P.Lawful)
    (hring : Set.InjOn P.encryptionKeyID ring) (hcached : ∀ key ∈ m.keys, key.bytes ∈ ring)
    (hfetched : ∀ keySet, fetched = .ok keySet → ∀ bytes ∈ keySet.allKeys, bytes ∈ ring)
    (hclosed : ¬ m.CanOpen fetched r) : ∃ err, (m.read P fetched r).2 = .error err := by
  cases h with
  | plain hplain => exact absurd (fun key hkey => nomatch hkey) hclosed
  | @encrypted writer nonce payload written key hkey hseals hwritten =>
    obtain ⟨hwriter, -⟩ := sealingKey_eq_some.mp hseals
    obtain ⟨key', cipher, nonceText, hseals', rfl⟩ := encryptPayload_enabled hwriter hwritten
    cases hseals.symm.trans hseals'
    refine decryptPayload_envelope_error fun henabled => ?_
    have hmissing : ¬ (key ∈ m.keys ∨ Offered fetched key) := fun hheld =>
      hclosed fun other hother => by
        cases hother
        exact ⟨henabled, hheld⟩
    -- by the ring, what has the identifier of the key is the key
    refine EncryptionKeyManager.getDecryptionKeys_error (hP.keyID_ne key.bytes) ?_ ?_
    · intro other hother hid
      have hbytes := hring (hcached other hother) hkey hid
      refine hmissing (.inl ?_)
      cases other
      cases key
      cases hbytes
      exact hother
    · intro keySet hsource haccepted bytes hbytes hid
      have hoffer := fetching_source hsource
      have heq := hring (hfetched keySet hoffer bytes hbytes) hkey hid
      exact hmissing (.inr ⟨keySet, hoffer, haccepted, heq ▸ hbytes⟩)

end Reading

/-! ## Section 3: Steps -/

theorem sealingKey_mem {m : EncryptionKeyManager} {key : EncryptionKey}
    (h : m.sealingKey P = some key) : m.enabled = true ∧ key ∈ m.keys := by
  obtain ⟨henabled, hcurrent⟩ := sealingKey_eq_some.mp h
  cases hlookup : lookupKey P.encryptionKeyID m.keys m.currentID with
  | none => simp [EncryptionKeyManager.getCurrentEncryptionKey, hlookup] at hcurrent
  | some current =>
    simp only [EncryptionKeyManager.getCurrentEncryptionKey, hlookup, Except.ok.injEq,
      Prod.mk.injEq] at hcurrent
    exact ⟨henabled, hcurrent.2 ▸ (mem_of_lookupKey hlookup).1⟩

theorem sealingKey_congr {m m' : EncryptionKeyManager} (henabled : m.enabled = m'.enabled)
    (hcurrent : m.currentID = m'.currentID) (hkeys : m.keys = m'.keys) :
    m.sealingKey P = m'.sealingKey P := by
  simp only [EncryptionKeyManager.sealingKey, EncryptionKeyManager.getCurrentEncryptionKey,
    henabled, hcurrent, hkeys]

theorem decryptPayload_manager (cipher nonceText keyID : String) (m : EncryptionKeyManager) :
    (decryptPayload P cipher nonceText keyID m).1 =
      (m.getDecryptionKeys P.encryptionKeyID keyID).1 := by
  cases hget : m.getDecryptionKeys P.encryptionKeyID keyID with
  | mk m' result =>
    cases result with
    | error err => simp [decryptPayload, hget]
    | ok keys =>
      cases hcipher : Base64.decode cipher.toList with
      | none => simp [decryptPayload, hget, hcipher]
      | some ciphertext =>
        cases hnonce : Base64.decode nonceText.toList with
        | none => simp [decryptPayload, hget, hcipher, hnonce]
        | some nonce => simp [decryptPayload, hget, hcipher, hnonce]

/-- The manager after a read is as before, or refreshed with the key set that was fetched. -/
theorem read_manager (m : EncryptionKeyManager) (fetched : Except String KeySet)
    (r : StoredPayload) :
    ∃ m', (m.read P fetched r).1 = some m' ∧
      (m' = m.fetching fetched ∨
        (m.fetching fetched).refreshKey P.encryptionKeyID = .ok m') := by
  simp only [EncryptionKeyManager.read, Common.decryptPayload]
  split
  next encryptedValue nonceValue hcipher hnonce =>
    split
    · exact ⟨_, rfl, .inl rfl⟩
    · split
      · exact ⟨_, rfl, .inl rfl⟩
      next enabled hsome =>
        obtain rfl : m.fetching fetched = enabled := (by simpa using hsome : _ ∧ _).1
        refine ⟨_, ?_, decryptPayload_manager (getStringValue encryptedValue)
          (getStringValue nonceValue) (getStringValue (r.written.entry "encryptionKeyId")) _ ▸
          EncryptionKeyManager.getDecryptionKeys_manager _ _⟩
        split
        next m' err hresult => rw [hresult]
        next m' bytes hresult =>
          rw [hresult]
          split <;> rfl
  next => exact ⟨_, rfl, .inl rfl⟩

/-- Only a fetch without an outage brings a key set, that of the secret. -/
theorem fetchKeys_ok {d : Deployment} {outage : Option String} {keySet : KeySet}
    (h : d.fetchKeys outage = .ok keySet) : VaultAdapter.fetchKeys d.secret = .ok keySet := by
  cases outage with
  | none => exact h
  | some err => cases h

theorem refreshKey_fetching {d : Deployment} {outage : Option String}
    {m m' : EncryptionKeyManager}
    (h : (m.fetching (d.fetchKeys outage)).refreshKey P.encryptionKeyID = .ok m') :
    ∃ keySet, VaultAdapter.fetchKeys d.secret = .ok keySet ∧
      (m.fetching (.ok keySet)).refreshKey P.encryptionKeyID = .ok m' := by
  obtain ⟨keySet, hsource, -⟩ := EncryptionKeyManager.refreshKey_ok h
  have hfetched := fetching_source hsource
  exact ⟨keySet, fetchKeys_ok hfetched, hfetched ▸ h⟩

/-- The constructor returns a manager without encryption or one that has fetched its keys. -/
theorem newEncryptionKeyManagerWithConfig_vault {encryptionKeyID : Bytes → String}
    {localKeys fetched : Except String KeySet} {enabled : Bool} {m : EncryptionKeyManager}
    (h : newEncryptionKeyManagerWithConfig encryptionKeyID localKeys fetched ⟨enabled, "VAULT"⟩ =
      .ok m) :
    m = disabledKeyManager ∨
      ((⟨true, .error "", "", []⟩ : EncryptionKeyManager).fetching fetched).refreshKey
        encryptionKeyID = .ok m := by
  cases enabled with
  | false =>
    cases h
    exact .inl rfl
  | true => exact .inr h

/-- What a step makes of a process: its cache stays, it starts without encryption, or it caches the
key set that Vault returns. -/
theorem processes_step {d : Deployment} {op : Operation} {i : Nat} {m : EncryptionKeyManager}
    (h : (d.step P op).processes i = some m) :
    (∃ m₀, d.processes i = some m₀ ∧ m.enabled = m₀.enabled ∧ m.currentID = m₀.currentID ∧
      m.keys = m₀.keys) ∨
    m = disabledKeyManager ∨
    ∃ m₀ keySet, VaultAdapter.fetchKeys d.secret = .ok keySet ∧
      (EncryptionKeyManager.fetching m₀ (.ok keySet)).refreshKey P.encryptionKeyID = .ok m := by
  have hsame : d.processes i = some m → ∃ m₀, d.processes i = some m₀ ∧
      m.enabled = m₀.enabled ∧ m.currentID = m₀.currentID ∧ m.keys = m₀.keys :=
    fun hm => ⟨m, hm, rfl, rfl, rfl⟩
  cases op with
  | publish secret => exact .inl (hsame h)
  | delete id => exact .inl (hsame h)
  | stop j =>
    rcases Deployment.setProcess_processes h with ⟨-, hnone⟩ | hm
    · cases hnone
    · exact .inl (hsame hm)
  | encrypt j id nonce payload =>
    simp only [Deployment.step] at h
    split at h
    · exact .inl (hsame h)
    · split at h <;> exact .inl (hsame h)
  | start j enabled outage =>
    simp only [Deployment.step] at h
    split at h
    next m' hnew =>
      rcases Deployment.setProcess_processes h with ⟨-, hm⟩ | hm
      · cases hm
        rcases newEncryptionKeyManagerWithConfig_vault hnew with hdisabled | hrefresh
        · exact .inr (.inl hdisabled)
        · exact .inr (.inr ⟨_, refreshKey_fetching hrefresh⟩)
      · exact .inl (hsame hm)
    next err hnew =>
      rcases Deployment.setProcess_processes h with ⟨-, hnone⟩ | hm
      · cases hnone
      · exact .inl (hsame hm)
  | refresh j outage =>
    simp only [Deployment.step] at h
    split at h
    · exact .inl (hsame h)
    next m₀ hm₀ =>
      split at h
      next m' hrefresh =>
        rcases Deployment.setProcess_processes h with ⟨-, hm⟩ | hm
        · cases hm
          exact .inr (.inr ⟨m₀, refreshKey_fetching hrefresh⟩)
        · exact .inl (hsame hm)
      next => exact .inl (hsame h)
  | decrypt j id outage =>
    simp only [Deployment.step] at h
    split at h
    next m₀ r hm₀ hr =>
      rcases Deployment.setProcess_processes h with ⟨rfl, hm⟩ | hm
      · obtain ⟨m', hm', hmanager⟩ := read_manager (P := P) m₀ (d.fetchKeys outage) r
        rw [hm', Option.some.injEq] at hm
        subst hm
        rcases hmanager with rfl | hrefresh
        · exact .inl ⟨m₀, hm₀, rfl, rfl, rfl⟩
        · exact .inr (.inr ⟨m₀, refreshKey_fetching hrefresh⟩)
      · exact .inl (hsame hm)
    next => exact .inl (hsame h)

/-- A payload of the store was there before, or the step has written it. -/
theorem stored_step {d : Deployment} {op : Operation} {id : Nat} {r : StoredPayload}
    (h : (d.step P op).stored id = some r) :
    d.stored id = some r ∨
    ∃ i nonce payload m written, op = .encrypt i id nonce payload ∧ d.processes i = some m ∧
      Common.encryptPayload P nonce (some payload) (some m) = .ok (some written) ∧
      r = ⟨payload, written, m.sealingKey P⟩ := by
  cases op with
  | publish secret => exact .inl h
  | stop j => exact .inl h
  | delete other =>
    rcases Deployment.setStored_stored h with ⟨-, hnone⟩ | hr
    · cases hnone
    · exact .inl hr
  | start j enabled outage =>
    simp only [Deployment.step] at h
    split at h <;> exact .inl h
  | refresh j outage =>
    simp only [Deployment.step] at h
    split at h
    · exact .inl h
    · split at h <;> exact .inl h
  | decrypt j other outage =>
    simp only [Deployment.step] at h
    split at h <;> exact .inl h
  | encrypt j other nonce payload =>
    simp only [Deployment.step] at h
    split at h
    · exact .inl h
    next m hm =>
      split at h
      next written hwritten =>
        rcases Deployment.setStored_stored h with ⟨rfl, hr⟩ | hr
        · cases hr
          exact .inr ⟨j, nonce, payload, m, written, rfl, hm, hwritten, rfl⟩
        · exact .inl hr
      next => exact .inl h

theorem secret_step {d : Deployment} {op : Operation} :
    (d.step P op).secret = d.secret ∨ ∃ secret, op = .publish secret ∧
      (d.step P op).secret = secret := by
  cases op with
  | publish secret => exact .inr ⟨secret, rfl, rfl⟩
  | stop i => exact .inl rfl
  | delete id => exact .inl rfl
  | start i enabled outage =>
    simp only [Deployment.step]
    split <;> exact .inl rfl
  | refresh i outage =>
    simp only [Deployment.step]
    split
    · exact .inl rfl
    · split <;> exact .inl rfl
  | encrypt i id nonce payload =>
    simp only [Deployment.step]
    split
    · exact .inl rfl
    · split <;> exact .inl rfl
  | decrypt i id outage =>
    simp only [Deployment.step]
    split <;> exact .inl rfl

/-- The operations that change what is stored under an identifier. -/
def Operation.Overwrites (id : Nat) : Operation → Prop
  | .encrypt _ other _ _ => other = id
  | .delete other => other = id
  | _ => False

theorem stored_step_of_not_overwrites {d : Deployment} {op : Operation} {id : Nat}
    (h : ¬ op.Overwrites id) : (d.step P op).stored id = d.stored id := by
  cases op with
  | publish secret => rfl
  | stop i => rfl
  | delete other => exact Function.update_of_ne (Ne.symm h) _ _
  | start i enabled outage =>
    simp only [Deployment.step]
    split <;> rfl
  | refresh i outage =>
    simp only [Deployment.step]
    split
    · rfl
    · split <;> rfl
  | encrypt i other nonce payload =>
    simp only [Deployment.step]
    split
    · rfl
    · split
      · exact Function.update_of_ne (Ne.symm h) _ _
      · rfl
  | decrypt i other outage =>
    simp only [Deployment.step]
    split <;> rfl

end Nzovu.Encryption
