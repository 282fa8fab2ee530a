import Nzovu.Encryption.Processes

/-!
# Key Rotation

The operator rotates the keys of the secret while the processes go on with caches of any age.

- Section 1: what is read in every run.
- Section 2: rotations that keep stored payloads readable.
- Section 3: a rotation.
-/

namespace Nzovu.Encryption

open Nzovu.Foundation

variable {P : Primitives}

/-! ## Section 1: Reads in every run -/

variable (P) in
/-- What is expected of an operation: the operator takes keys from a ring, and a process without
encryption stores no payload that looks encrypted. -/
def Admitted (ring : Set Bytes) (d : Deployment) : Operation → Prop
  | .publish secret => ∀ keySet, VaultAdapter.fetchKeys secret = .ok keySet →
      ∀ bytes ∈ keySet.allKeys, bytes ∈ ring
  | .encrypt i _ _ payload => ∀ m, d.processes i = some m → m.enabled = false →
      ¬ Common.LooksEncrypted payload
  | _ => True

variable (P) in
/-- All keys of the deployment are from the ring, and its store is sound. -/
structure Deployment.Sound (ring : Set Bytes) (d : Deployment) : Prop where
  secret : ∀ keySet, VaultAdapter.fetchKeys d.secret = .ok keySet →
    ∀ bytes ∈ keySet.allKeys, bytes ∈ ring
  cached : ∀ i m, d.processes i = some m → ∀ key ∈ m.keys, key.bytes ∈ ring
  stored : ∀ id r, d.stored id = some r → r.Sound P ring

theorem Deployment.sound_initial (ring : Set Bytes) : Deployment.initial.Sound P ring where
  secret _ h := by cases h
  cached _ _ h := by cases h
  stored _ _ h := by cases h

theorem Deployment.Sound.step {ring : Set Bytes} {d : Deployment} {op : Operation}
    (h : d.Sound P ring) (hop : Admitted ring d op) : (d.step P op).Sound P ring where
  secret keySet hfetch := by
    rcases @secret_step P d op with hsame | ⟨secret, rfl, hsecret⟩
    · exact h.secret keySet (hsame ▸ hfetch)
    · exact hop keySet (hsecret ▸ hfetch)
  cached i m hm key hkey := by
    rcases processes_step hm with ⟨m₀, hm₀, -, -, hkeys⟩ | rfl | ⟨m₀, keySet, hfetch, hrefresh⟩
    · exact h.cached i m₀ hm₀ key (hkeys ▸ hkey)
    · exact absurd hkey List.not_mem_nil
    · obtain ⟨keySet', hsource, -, -, -, hfrom⟩ := EncryptionKeyManager.refreshKey_ok hrefresh
      cases fetching_source hsource
      exact h.secret keySet hfetch key.bytes (hfrom key hkey)
  stored id r hr := by
    rcases stored_step hr with hr | ⟨i, nonce, payload, m, written, rfl, hm, hwritten, rfl⟩
    · exact h.stored id r hr
    · cases henabled : m.enabled with
      | false =>
        obtain ⟨hplain, hkey⟩ := @encryptPayload_disabled P m nonce payload henabled
        rw [hplain] at hwritten
        cases hwritten
        rw [hkey]
        exact .plain (hop m hm henabled)
      | true =>
        obtain ⟨key, -, -, hseals, -⟩ := encryptPayload_enabled henabled hwritten
        rw [hseals]
        exact .encrypted (h.cached i m hm key (sealingKey_mem hseals).2) hseals hwritten

theorem sound_run {ring : Set Bytes} {ops : List Operation}
    (h : Follows (Deployment.step P) (Admitted ring) .initial ops) :
    (runFrom (Deployment.step P) .initial ops).Sound P ring :=
  invariant_runFrom (Deployment.step P) (Deployment.Sound P ring)
    (fun _ _ hd hop => hd.step hop) (Deployment.sound_initial ring) h

/-- What a process of a sound deployment fetches is from the ring. -/
theorem Deployment.Sound.fetched {ring : Set Bytes} {d : Deployment} (h : d.Sound P ring)
    (outage : Option String) : ∀ keySet, d.fetchKeys outage = .ok keySet →
      ∀ bytes ∈ keySet.allKeys, bytes ∈ ring :=
  fun keySet hfetch => h.secret keySet (fetchKeys_ok hfetch)

variable (P) in
/-- A key is needed while a stored payload is sealed with it or a process seals with it. -/
def Deployment.Needed (d : Deployment) (key : EncryptionKey) : Prop :=
  (∃ id r, d.stored id = some r ∧ r.key = some key) ∨
    ∃ i m, d.processes i = some m ∧ m.sealingKey P = some key

variable (P) in
/-- The secret has every key that is needed, if the processes can use it at all. -/
def Deployment.Retains (d : Deployment) (secret : Except String (Option SecretData)) : Prop :=
  ∀ keySet, VaultAdapter.fetchKeys secret = .ok keySet → keySet.Accepted →
    ∀ key, d.Needed P key → key.bytes ∈ keySet.allKeys

variable (P) in
/-- An operation of a rotation: what is published retains the needed keys. -/
def Rotating (ring : Set Bytes) (d : Deployment) (op : Operation) : Prop :=
  Admitted ring d op ∧ ∀ secret, op = .publish secret → d.Retains P secret

/-- A key that a step makes needed is one that Vault offers. -/
theorem needed_step {d : Deployment} {op : Operation} {key : EncryptionKey}
    (h : (d.step P op).Needed P key) :
    d.Needed P key ∨ ∃ keySet, VaultAdapter.fetchKeys d.secret = .ok keySet ∧
      key.bytes ∈ keySet.allKeys := by
  rcases h with ⟨id, r, hr, hkey⟩ | ⟨i, m, hm, hseals⟩
  · rcases stored_step hr with hr | ⟨i, nonce, payload, m, written, rfl, hm, -, rfl⟩
    · exact .inl (.inl ⟨id, r, hr, hkey⟩)
    · exact .inl (.inr ⟨i, m, hm, hkey⟩)
  · rcases processes_step hm with ⟨m₀, hm₀, henabled, hcurrent, hkeys⟩ | rfl |
      ⟨m₀, keySet, hfetch, hrefresh⟩
    · exact .inl (.inr ⟨i, m₀, hm₀, sealingKey_congr henabled hcurrent hkeys ▸ hseals⟩)
    · cases hseals
    · obtain ⟨keySet', hsource, -, -, -, hfrom⟩ := EncryptionKeyManager.refreshKey_ok hrefresh
      cases fetching_source hsource
      exact .inr ⟨keySet, hfetch, hfrom key (sealingKey_mem hseals).2⟩

/-- A rotation leaves a secret with every needed key. -/
theorem retains_step {ring : Set Bytes} {d : Deployment} {op : Operation}
    (h : d.Retains P d.secret) (hop : Rotating P ring d op) :
    (d.step P op).Retains P (d.step P op).secret := by
  intro keySet hfetch haccepted key hneeded
  rcases @secret_step P d op with hsame | ⟨secret, rfl, hsecret⟩
  · rw [hsame] at hfetch
    rcases needed_step hneeded with hneeded | ⟨keySet', hfetch', hmem⟩
    · exact h keySet hfetch haccepted key hneeded
    · cases hfetch.symm.trans hfetch'
      exact hmem
  · exact hop.2 secret rfl keySet hfetch haccepted key hneeded

theorem rotating_run {ring : Set Bytes} {ops : List Operation}
    (h : Follows (Deployment.step P) (Rotating P ring) .initial ops) :
    (runFrom (Deployment.step P) .initial ops).Sound P ring ∧
      (runFrom (Deployment.step P) .initial ops).Retains P
        (runFrom (Deployment.step P) .initial ops).secret := by
  refine invariant_runFrom (Deployment.step P)
    (fun d => d.Sound P ring ∧ d.Retains P d.secret)
    (fun _ _ hd hop => ⟨hd.1.step hop.1, retains_step hd.2 hop⟩)
    ⟨Deployment.sound_initial ring, fun keySet hfetch => ?_⟩ h
  cases hfetch

/-- The payload is stored, and the process has its key in the cache whenever it runs with
encryption. -/
structure Deployment.Keeps (i id : Nat) (r : StoredPayload) (d : Deployment) : Prop where
  stored : d.stored id = some r
  cached : ∀ m, d.processes i = some m → m.enabled = true → ∀ key, r.key = some key →
    key ∈ m.keys

theorem StoredPayload.Sound.key_mem {ring : Set Bytes} {r : StoredPayload} (h : r.Sound P ring)
    {key : EncryptionKey} (hkey : r.key = some key) : key.bytes ∈ ring := by
  cases h with
  | plain => cases hkey
  | encrypted hring =>
    cases hkey
    exact hring

/-- A rotation takes no cached key from a process while a stored payload needs it. -/
theorem keeps_step {ring : Set Bytes} (hring : Set.InjOn P.encryptionKeyID ring) {d : Deployment}
    (hsound : d.Sound P ring) (hretains : d.Retains P d.secret) {i id : Nat} {r : StoredPayload}
    (h : d.Keeps i id r) {op : Operation} (hop : ¬ op.Overwrites id) :
    (d.step P op).Keeps i id r where
  stored := (stored_step_of_not_overwrites hop).trans h.stored
  cached m hm henabled key hkey := by
    rcases processes_step hm with ⟨m₀, hm₀, heq, -, hkeys⟩ | rfl |
      ⟨m₀, keySet, hfetch, hrefresh⟩
    · exact hkeys ▸ h.cached m₀ hm₀ (heq ▸ henabled) key hkey
    · cases henabled
    · obtain ⟨keySet', hsource, haccepted, -⟩ := EncryptionKeyManager.refreshKey_ok hrefresh
      cases fetching_source hsource
      have hmem := hretains keySet hfetch haccepted key (.inl ⟨id, r, h.stored, hkey⟩)
      exact EncryptionKeyManager.refreshKey_caches hrefresh rfl hmem fun other hother hid =>
        hring (hsound.secret keySet hfetch other hother)
          ((hsound.stored id r h.stored).key_mem hkey) hid

/-- The operations of a rotation that leave the payload of an identifier in place. -/
abbrev RotatingAround (P : Primitives) (ring : Set Bytes) (id : Nat) (d : Deployment)
    (op : Operation) : Prop :=
  Rotating P ring d op ∧ ¬ op.Overwrites id

theorem stored_run {ring : Set Bytes} {d : Deployment} (hsound : d.Sound P ring)
    (hretains : d.Retains P d.secret) {id : Nat} {r : StoredPayload}
    (h : d.stored id = some r) {ops : List Operation}
    (hops : Follows (Deployment.step P) (RotatingAround P ring id) d ops) :
    (runFrom (Deployment.step P) d ops).Sound P ring ∧
      (runFrom (Deployment.step P) d ops).Retains P (runFrom (Deployment.step P) d ops).secret ∧
      (runFrom (Deployment.step P) d ops).stored id = some r :=
  invariant_runFrom (Deployment.step P)
    (fun d => d.Sound P ring ∧ d.Retains P d.secret ∧ d.stored id = some r)
    (fun _ _ ⟨hd, hr, hid⟩ hop => ⟨hd.step hop.1.1, retains_step hr hop.1,
      (stored_step_of_not_overwrites hop.2).trans hid⟩)
    ⟨hsound, hretains, h⟩ hops

theorem keeps_run {ring : Set Bytes} (hring : Set.InjOn P.encryptionKeyID ring) {d : Deployment}
    (hsound : d.Sound P ring) (hretains : d.Retains P d.secret) {i id : Nat} {r : StoredPayload}
    (h : d.Keeps i id r) {ops : List Operation}
    (hops : Follows (Deployment.step P) (RotatingAround P ring id) d ops) :
    (runFrom (Deployment.step P) d ops).Keeps i id r :=
  (invariant_runFrom (Deployment.step P)
    (fun d => d.Sound P ring ∧ d.Retains P d.secret ∧ d.Keeps i id r)
    (fun _ _ ⟨hd, hr, hk⟩ hop => ⟨hd.step hop.1.1, retains_step hr hop.1,
      keeps_step hring hd hr hk hop.2⟩)
    ⟨hsound, hretains, h⟩ hops).2.2

/-- A process reads from its cache what it has written itself. -/
theorem read_own (hP : P.Lawful)
    (hjson : ∀ p bytes, P.marshal p = .ok bytes → P.unmarshal bytes = .ok p) {ring : Set Bytes}
    (hring : Set.InjOn P.encryptionKeyID ring) {d : Deployment} (hsound : d.Sound P ring)
    {i id : Nat} {nonce : Nonce} {payload : Payload} {m : EncryptionKeyManager} {r : StoredPayload}
    (hop : Admitted ring d (.encrypt i id nonce payload)) (hm : d.processes i = some m)
    (hwritten : ∃ written, Common.encryptPayload P nonce (some payload) (some m) =
      .ok (some written))
    (hr : (d.step P (.encrypt i id nonce payload)).stored id = some r) (err : String) :
    (m.read P (.error err) r).2 = .ok (some payload) := by
  obtain ⟨written, hwritten⟩ := hwritten
  have hstep : d.step P (.encrypt i id nonce payload) =
      d.setStored id (some ⟨payload, written, m.sealingKey P⟩) := by
    simp only [Deployment.step, hm, hwritten]
  have hrsound := (hsound.step hop).stored id r hr
  rw [hstep] at hr
  obtain rfl : ⟨payload, written, m.sealingKey P⟩ = r := by
    simpa [Deployment.setStored] using hr
  exact hrsound.read_ok hP hjson hring (hsound.cached i m hm) (fun _ heq => by cases heq)
    fun key hkey => ⟨(sealingKey_mem hkey).1, .inl (sealingKey_mem hkey).2⟩

/-- A secret that keeps every key of the present one retains the needed keys. -/
theorem retains_of_superset {d : Deployment} {secret : Except String (Option SecretData)}
    {keySet : KeySet} (h : d.Retains P d.secret)
    (hfetch : VaultAdapter.fetchKeys d.secret = .ok keySet) (haccepted : keySet.Accepted)
    (hkeeps : ∀ keySet', VaultAdapter.fetchKeys secret = .ok keySet' →
      ∀ bytes ∈ keySet.allKeys, bytes ∈ keySet'.allKeys) : d.Retains P secret :=
  fun keySet' hfetch' _ key hneeded =>
    hkeeps keySet' hfetch' key.bytes (h keySet hfetch haccepted key hneeded)

/-- The documented rotation: the new key becomes the active one, and the old one is appended to
`previous_keys`. -/
theorem retains_rotated {d : Deployment} {key newKey : String} {retained : List String}
    (h : d.Retains P d.secret) (hsecret : d.secret = .ok (some (secretOf key retained)))
    (haccepted : ∀ k ∈ key :: retained, validKeySize (stringBytes k).length) :
    d.Retains P (.ok (some (secretOf newKey (retained ++ [key])))) := by
  have hfetch : VaultAdapter.fetchKeys d.secret =
      .ok ⟨stringBytes key, retained.map stringBytes⟩ := by
    rw [hsecret]
    exact vaultKeySet_secretOf key retained
  refine retains_of_superset h hfetch ?_ ?_
  · intro bytes hbytes
    obtain ⟨k, hk, rfl⟩ := List.mem_map.mp
      (show bytes ∈ (key :: retained).map stringBytes from hbytes)
    exact haccepted k hk
  · intro keySet' hfetch' bytes hbytes
    cases (vaultKeySet_secretOf newKey (retained ++ [key])).symm.trans hfetch'
    obtain ⟨k, hk, rfl⟩ := List.mem_map.mp
      (show bytes ∈ (key :: retained).map stringBytes from hbytes)
    refine List.mem_cons_of_mem _ (List.mem_map_of_mem ?_)
    simpa [or_comm] using hk

/-! ## Section 3: A rotation -/

open Common

theorem sampleLibraries_roundTrips (p : Payload) (bytes : Bytes)
    (h : sampleLibraries.marshal p = .ok bytes) : sampleLibraries.unmarshal bytes = .ok p := by
  simp only [sampleLibraries] at h ⊢
  split at h
  · cases h
    rfl
  · cases h

/-- The two keys of the sample payload's rotation. -/
def sampleRing : Set Bytes := {retiredKey.bytes, activeKey.bytes}

theorem sampleRing_injOn : Set.InjOn sampleLibraries.encryptionKeyID sampleRing := by
  rintro a (rfl | rfl) b (rfl | rfl) h
  · rfl
  · exact absurd h (by decide)
  · exact absurd h (by decide)
  · rfl

/-- A payload is stored under the first key. -/
def storing : List Operation :=
  [.publish (.ok (some (secretOf "abcdef0123456789" []))), .start 0 true none,
    .encrypt 0 7 firstNonce emptyPayload]

/-- The key is rotated, and the process learns of it. -/
def rotating : List Operation :=
  [.publish (.ok (some (secretOf "0123456789abcdef" ["abcdef0123456789"]))), .refresh 0 none]

/-- The payload as it is stored. -/
def storedSample : StoredPayload where
  payload := emptyPayload
  written := envelope (String.ofList (Base64.encode sealedDocument))
    (String.ofList (Base64.encode firstNonce.bytes))
    (sampleLibraries.encryptionKeyID retiredKey.bytes)
  key := some retiredKey

/-- The manager of the process after the rotation. -/
def rotatedManager : EncryptionKeyManager where
  enabled := true
  source := .ok (some ⟨activeKey.bytes, [retiredKey.bytes]⟩)
  currentID := sampleLibraries.encryptionKeyID activeKey.bytes
  keys := [retiredKey, activeKey]

theorem encryptPayload_storedSample :
    Common.encryptPayload sampleLibraries firstNonce (some emptyPayload) (some storingManager) =
      .ok (some storedSample.written) := by
  have hsealed : sampleLibraries.gcmSeal retiredKey firstNonce.bytes emptyDocument =
      sealedDocument := by simp [sampleLibraries]
  have hseal : encryptPayload sampleLibraries firstNonce emptyDocument storingManager =
      .ok (String.ofList (Base64.encode sealedDocument),
        String.ofList (Base64.encode firstNonce.bytes), storingManager.currentID) := by
    simp only [encryptPayload, storingManager_current, hsealed]
  have hne := encryptPayload_ne sampleLibraries_lawful hseal
  have hmarshal : sampleLibraries.marshal emptyPayload = .ok emptyDocument := rfl
  have hsome : (some storingManager).filter (·.enabled) = some storingManager := rfl
  simp only [Common.encryptPayload, hsome, hmarshal, hseal, hne, if_false]
  rfl

theorem sealingKey_storingManager :
    storingManager.sealingKey sampleLibraries = some retiredKey :=
  sealingKey_eq_some.mpr ⟨rfl, storingManager_current⟩

/-- The deployment once the payload is stored. -/
def storedDeployment : Deployment :=
  ((Deployment.mk (.ok (some (secretOf "abcdef0123456789" []))) (fun _ => none)
    fun _ => none).setProcess 0 (some storingManager)).setStored 7 (some storedSample)

theorem runFrom_storing :
    runFrom (Deployment.step sampleLibraries) .initial storing = storedDeployment := by
  have hstart : runFrom (Deployment.step sampleLibraries) .initial (storing.take 2) =
      (Deployment.mk (.ok (some (secretOf "abcdef0123456789" []))) (fun _ => none)
        fun _ => none).setProcess 0 (some storingManager) := by rfl
  rw [show storing = storing.take 2 ++ [.encrypt 0 7 firstNonce emptyPayload] from rfl,
    runFrom_concat, hstart]
  have hprocess : ((Deployment.mk (.ok (some (secretOf "abcdef0123456789" []))) (fun _ => none)
    fun _ => none).setProcess 0 (some storingManager)).processes 0 = some storingManager := rfl
  simp only [Deployment.step, hprocess, encryptPayload_storedSample, sealingKey_storingManager]
  rfl

theorem processes_rotating :
    (runFrom (Deployment.step sampleLibraries) .initial (storing ++ rotating)).processes 0 =
      some rotatedManager := by
  rw [runFrom_append, runFrom_storing]
  rfl

theorem follows_storing :
    Follows (Deployment.step sampleLibraries) (Rotating sampleLibraries sampleRing) .initial
      storing := by
  refine ⟨⟨?_, ?_⟩, ⟨trivial, fun _ h => nomatch h⟩, ⟨?_, fun _ h => nomatch h⟩, trivial⟩
  · intro keySet hfetch bytes hbytes
    cases (vaultKeySet_secretOf "abcdef0123456789" []).symm.trans hfetch
    exact .inl (List.mem_singleton.mp hbytes)
  · rintro secret - keySet - - key (⟨id, r, hr, -⟩ | ⟨i, m, hm, -⟩)
    · cases hr
    · cases hm
  · rintro m - - ⟨hcipher, -⟩
    cases hcipher

theorem follows_rotating :
    Follows (Deployment.step sampleLibraries) (RotatingAround sampleLibraries sampleRing 7)
      (runFrom (Deployment.step sampleLibraries) .initial storing) rotating := by
  refine ⟨⟨⟨?_, ?_⟩, fun h => h⟩, ⟨⟨trivial, fun _ h => nomatch h⟩, fun h => h⟩, trivial⟩
  · intro keySet hfetch bytes hbytes
    cases (vaultKeySet_secretOf "0123456789abcdef" ["abcdef0123456789"]).symm.trans hfetch
    rcases List.mem_cons.mp hbytes with rfl | hbytes
    · exact .inr rfl
    · exact .inl (List.mem_singleton.mp hbytes)
  · rintro secret hsecret
    cases hsecret
    refine @retains_rotated _ _ "abcdef0123456789" "0123456789abcdef" []
      (rotating_run follows_storing).2 ?_ (by decide)
    rw [runFrom_storing]
    rfl

theorem admitted_sample :
    Follows (Deployment.step sampleLibraries) (Admitted sampleRing) .initial
      (storing ++ rotating) :=
  (follows_append _).mpr ⟨follows_storing.mono _ fun _ _ h => h.1,
    follows_rotating.mono _ fun _ _ h => h.1.1⟩

theorem stored_rotating :
    (runFrom (Deployment.step sampleLibraries) .initial (storing ++ rotating)).stored 7 =
      some storedSample := by
  rw [runFrom_append, runFrom_storing]
  rfl

end Nzovu.Encryption
