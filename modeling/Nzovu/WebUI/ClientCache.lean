import Nzovu.Foundation.FiniteMap
import Nzovu.WebUI.ClusterStore

/-!
# The Client Cache of the Web UI

Translation of the cache of gRPC clients in `Store` (`cmd/nzovu/web-ui/cluster/store.go`).
`ActiveClient` reads the active cluster under one lock and looks into the cache under the next one;
in between, other calls can change the clusters and the cache.

- Section 1: clients.
- Section 2: the store with its cache.
- Section 3: fresh caches, and what disturbs them.
- Section 4: runs.
-/

namespace Nzovu.WebUI

open Nzovu.Foundation

/-! ## Section 1: Clients -/

/-- `tls.VersionTLS12`. -/
def versionTLS12 : Nat := 0x0303

/-- `tls.Config`, with the texts of its files. -/
structure TLSConfig where
  minVersion : Nat
  serverName : String
  insecureSkipVerify : Bool
  rootCAs : Option String := none
  certificate : Option String := none
deriving DecidableEq

/-- `client.ClientOptions`. -/
structure ClientOptions where
  maxRetries : Nat
  apiKey : String
  tlsConfig : Option TLSConfig := none
deriving DecidableEq

/-- `client.NzovuClient`. -/
structure NzovuClient where
  address : String
  options : ClientOptions
deriving DecidableEq

/-- What a client is made with beside its cluster: environment variables, files, certificates and
the connection. -/
structure Environment where
  getenv : String → String
  readFile : String → Except String String
  appendCertsFromPEM : String → Bool
  loadX509KeyPair : String → String → Except String String
  connector : String → ClientOptions → Except String Unit

/-- `connectionConfigChanged`. -/
def connectionConfigChanged (current updated : Cluster) : Bool :=
  current.brokerAddress ≠ updated.brokerAddress ||
    current.transportMode ≠ updated.transportMode ||
    current.skipTLSVerify ≠ updated.skipTLSVerify ||
    current.tlsServerName ≠ updated.tlsServerName ||
    current.caCertFile ≠ updated.caCertFile ||
    current.clientCertFile ≠ updated.clientCertFile ||
    current.clientKeyFile ≠ updated.clientKeyFile ||
    current.apiKeyEnv ≠ updated.apiKeyEnv

section Clients

variable (env : Environment)

/-- The roots that `clusterTLSConfig` reads. -/
def rootPool (caCertFile : String) : Except String (Option String) :=
  if caCertFile = "" then .ok none
  else
    match env.readFile caCertFile with
    | .error err => .error ("read CA certificate: " ++ err)
    | .ok caPEM =>
      if env.appendCertsFromPEM caPEM = true then .ok (some caPEM)
      else .error "parse CA certificate"

/-- The certificate that `clusterTLSConfig` loads. -/
def clientCertificate (clientCertFile clientKeyFile : String) : Except String (Option String) :=
  if clientCertFile = "" then .ok none
  else
    match env.loadX509KeyPair clientCertFile clientKeyFile with
    | .error err => .error ("load client certificate: " ++ err)
    | .ok certificate => .ok (some certificate)

/-- `clusterTLSConfig`. -/
def clusterTLSConfig (cluster : Cluster) : Except String TLSConfig :=
  match rootPool env cluster.caCertFile with
  | .error err => .error err
  | .ok rootCAs =>
    match clientCertificate env cluster.clientCertFile cluster.clientKeyFile with
    | .error err => .error err
    | .ok certificate =>
      .ok ⟨versionTLS12, cluster.tlsServerName, cluster.skipTLSVerify, rootCAs, certificate⟩

/-- `clientOptions`. -/
def clientOptions (cluster : Cluster) : Except String ClientOptions :=
  let cluster := normalizeCluster cluster
  match validateCluster cluster with
  | .error err => .error err
  | .ok () =>
    let apiKey := env.getenv (if cluster.apiKeyEnv = "" then "NZOVU_API_KEY" else cluster.apiKeyEnv)
    -- only a variable that the cluster names must be set
    if cluster.apiKeyEnv ≠ "" ∧ apiKey = "" then
      .error ("API key environment variable " ++ cluster.apiKeyEnv.quote ++ " is not set")
    else if cluster.transportMode = transportPlaintext then .ok ⟨3, apiKey, none⟩
    else
      match clusterTLSConfig env cluster with
      | .error err => .error err
      | .ok tlsConfig => .ok ⟨3, apiKey, some tlsConfig⟩

/-- The client that `ActiveClient` makes for a cluster. -/
def makeClient (cluster : Cluster) : Except String NzovuClient :=
  match clientOptions env cluster with
  | .error err => .error ("configure client for cluster " ++ cluster.name.quote ++ ": " ++ err)
  | .ok opts =>
    match env.connector cluster.brokerAddress opts with
    | .error err => .error ("create client for cluster " ++ cluster.name.quote ++ ": " ++ err)
    | .ok () => .ok ⟨cluster.brokerAddress, opts⟩

end Clients

/-! ## Section 2: The store with its cache -/

/-- A client in the cache, with what it was made with. -/
structure CachedClient where
  client : NzovuClient
  environment : Environment

/-- `Store` with its cache, and the `ActiveClient` calls that have read the active cluster and not
yet looked into the cache. -/
structure ClientStore where
  store : Store
  clients : FiniteMap String CachedClient
  calls : FiniteMap Nat Cluster

def newClientStore (filePath : String) : ClientStore := ⟨newStore filePath, .empty, .empty⟩

/-- `ActiveCluster`. -/
def Store.activeCluster (s : Store) : Option Cluster :=
  (s.clusters.find? (·.isActive)).or s.clusters.head?

def errNoActiveCluster : String := "no active cluster configured"

/-- The first half of an `ActiveClient` call. -/
def Store.readActive (s : Store) : Except String Cluster :=
  match s.activeCluster with
  | none => .error errNoActiveCluster
  | some active =>
    match validateBrokerAddress active.brokerAddress with
    | .error err =>
      .error ("invalid broker address for cluster " ++ active.name.quote ++ ": " ++ err)
    | .ok () => .ok active

/-- The second half, for a call that has read the cluster: what it returns, and the cache. -/
def ClientStore.lookup (s : ClientStore) (active : Cluster) (env : Environment) :
    Except String NzovuClient × FiniteMap String CachedClient :=
  match s.clients.get? active.slug with
  -- whatever the settings are that the call has read
  | some cached => (.ok cached.client, s.clients)
  | none =>
    match makeClient env active with
    | .error err => (.error err, s.clients)
    | .ok client => (.ok client, s.clients.set active.slug ⟨client, env⟩)

section Steps

variable (fold : Char → Char)

/-- The cluster whose client an operation closes. -/
def evicted (s : Store) : Operation → Option String
  | .update slug updated _ =>
    let updated := normalizeCluster updated
    match validateCluster updated with
    | .error _ => none
    | .ok () =>
      -- the name is checked before a client is closed
      if s.clusters.any fun c => c.slug ≠ slug && equalFold fold c.name updated.name then none
      else
        ((s.clusters.find? fun c => c.slug = slug).filter
          (connectionConfigChanged · updated)).map fun _ => slug
  | .delete slug _ =>
    ((s.clusters.find? fun c => c.slug = slug).filter (!·.isActive)).map fun _ => slug
  | _ => none

/-- The cache without the client of this cluster. -/
def evict (clients : FiniteMap String CachedClient) (slug : Option String) :
    FiniteMap String CachedClient :=
  clients.filter fun key _ => slug ≠ some key

/-- One critical section of the store. -/
inductive Step where
  | operation (op : Operation)
  | readActive (call : Nat)
  | lookup (call : Nat) (env : Environment)
  | closeAll

def ClientStore.step (s : ClientStore) : Step → ClientStore
  | .operation op =>
    { s with store := s.store.step fold op, clients := evict s.clients (evicted fold s.store op) }
  | .readActive call =>
    match s.store.readActive with
    | .error _ => s
    | .ok active => { s with calls := s.calls.set call active }
  | .lookup call env =>
    match s.calls.get? call with
    | none => s
    | some active =>
      { s with
        clients := (s.lookup active env).2
        calls := s.calls.filter fun key _ => key ≠ call }
  | .closeAll => { s with clients := .empty }

/-! ## Section 3: Fresh caches -/

/-- The client would be made for a cluster of the list that has the slug. -/
def MadeFor (clusters : List Cluster) (slug : String) (cached : CachedClient) : Prop :=
  ∃ c ∈ clusters, c.slug = slug ∧ makeClient cached.environment c = .ok cached.client

/-- Every client in the cache is made for the cluster as it is now. -/
def Fresh (s : ClientStore) : Prop :=
  ∀ slug cached, s.clients.get? slug = some cached → MadeFor s.store.clusters slug cached

/-- Nothing comes between the file and the cache or between the two halves of an `ActiveClient`
call. -/
def undisturbed (s : ClientStore) : Step → Bool
  -- the file is read before the first client is made
  | .operation (.load _) => s.clients.entries.isEmpty
  -- a call that makes a client finds the connection settings that it has read
  | .lookup call _ => (s.calls.get? call).all fun active =>
      (s.clients.get? active.slug).isSome || s.store.clusters.any fun c =>
        c.slug = active.slug &&
          !connectionConfigChanged (normalizeCluster active) (normalizeCluster c)
  | _ => true

end Steps

/-- Equal connection settings make equal clusters, but for what only the Web UI shows. -/
theorem normalizeCluster_of_unchanged {a b : Cluster}
    (h : connectionConfigChanged (normalizeCluster a) (normalizeCluster b) = false) :
    normalizeCluster b = { normalizeCluster a with
      slug := b.slug, name := b.name, description := b.description, isActive := b.isActive } := by
  simp only [connectionConfigChanged, Bool.or_eq_false_iff, decide_eq_false_iff_not,
    not_not] at h
  obtain ⟨⟨⟨⟨⟨⟨⟨haddress, hmode⟩, hskip⟩, hserver⟩, hca⟩, hcert⟩, hkey⟩, henv⟩ := h
  simp only [haddress, hmode, hskip, hserver, hca, hcert, hkey, henv]
  rfl

/-- Clusters with the same connection settings have the same clients. -/
theorem makeClient_congr {env : Environment} {a b : Cluster} {client : NzovuClient}
    (hsame : connectionConfigChanged (normalizeCluster a) (normalizeCluster b) = false)
    (h : makeClient env a = .ok client) : makeClient env b = .ok client := by
  have hnormal := normalizeCluster_of_unchanged hsame
  -- options depend on the normalized cluster, but not on its name
  have hoptions : clientOptions env a = clientOptions env b := by
    unfold clientOptions
    rw [hnormal]
    rfl
  have haddress : (normalizeCluster b).brokerAddress = a.brokerAddress := by
    rw [hnormal]
    rfl
  change b.brokerAddress = a.brokerAddress at haddress
  unfold makeClient at h ⊢
  rw [← hoptions, haddress]
  cases hopts : clientOptions env a with
  | error err => simp [hopts] at h
  | ok opts =>
    simp only [hopts] at h ⊢
    cases hconnect : env.connector a.brokerAddress opts with
    | error err => simp [hconnect] at h
    | ok _ =>
      simp only [hconnect] at h ⊢
      exact h

theorem address_of_makeClient {env : Environment} {cluster : Cluster} {client : NzovuClient}
    (h : makeClient env cluster = .ok client) : client.address = cluster.brokerAddress := by
  unfold makeClient at h
  split at h
  · cases h
  · split at h
    · cases h
    · obtain rfl := Except.ok.inj h
      rfl

theorem connectionConfigChanged_self (cluster : Cluster) :
    connectionConfigChanged cluster cluster = false := by
  simp [connectionConfigChanged]

theorem transportMode_normalizeCluster (cluster : Cluster) :
    (normalizeCluster cluster).transportMode ≠ "" := by
  simp only [normalizeCluster]
  split
  · cases cluster.skipSSLCheck <;> decide
  · assumption

theorem normalizeCluster_of_ne {cluster : Cluster} (h : cluster.transportMode ≠ "") :
    normalizeCluster cluster = { cluster with skipSSLCheck := false } := by
  simp only [normalizeCluster, if_neg h]

/-- An update that keeps the client gives the cluster the connection settings it had. -/
theorem unchanged_edited {cluster updated : Cluster}
    (h : connectionConfigChanged cluster (normalizeCluster updated) = false) :
    connectionConfigChanged (normalizeCluster cluster)
      (normalizeCluster (edited (normalizeCluster updated) cluster)) = false := by
  have hupdated := transportMode_normalizeCluster updated
  -- so the cluster has a transport mode of its own, and both are normalized already
  have hmode : cluster.transportMode = (normalizeCluster updated).transportMode := by
    simp only [connectionConfigChanged, Bool.or_eq_false_iff, decide_eq_false_iff_not,
      not_not] at h
    exact h.1.1.1.1.1.1.2
  have hcluster : cluster.transportMode ≠ "" := hmode ▸ hupdated
  have hedited : (edited (normalizeCluster updated) cluster).transportMode ≠ "" := hupdated
  rw [normalizeCluster_of_ne hcluster, normalizeCluster_of_ne hedited]
  exact h

/-- The first element that `p` accepts may have changed; the others are still there. -/
theorem mem_modifyFirst {α : Type} {p : α → Bool} {f : α → α} {l : List α} {a : α} (h : a ∈ l) :
    a ∈ modifyFirst p f l ∨ l.find? p = some a ∧ f a ∈ modifyFirst p f l := by
  induction l with
  | nil => cases h
  | cons b rest ih =>
    by_cases hb : p b = true
    · rw [modifyFirst, if_pos hb, List.find?_cons_of_pos hb]
      rcases List.mem_cons.mp h with rfl | hrest
      · exact .inr ⟨rfl, List.mem_cons_self⟩
      · exact .inl (List.mem_cons_of_mem _ hrest)
    · rw [modifyFirst, if_neg hb, List.find?_cons_of_neg hb]
      rcases List.mem_cons.mp h with rfl | hrest
      · exact .inl List.mem_cons_self
      · rcases ih hrest with hstays | ⟨hfirst, hmodified⟩
        · exact .inl (List.mem_cons_of_mem _ hstays)
        · exact .inr ⟨hfirst, List.mem_cons_of_mem _ hmodified⟩

theorem get?_evict {clients : FiniteMap String CachedClient} {gone : Option String} {slug : String}
    {cached : CachedClient} : (evict clients gone).get? slug = some cached ↔
      clients.get? slug = some cached ∧ gone ≠ some slug := by
  rw [evict, FiniteMap.get?_filter, Option.filter_eq_some_iff]
  simp

section Fresh

variable {fold : Char → Char} {s : ClientStore}

/-- A cache stays fresh when each cluster that keeps its client is followed by one with the same
slug and the same clients. -/
theorem Fresh.of_clusters (h : Fresh s) {s' : ClientStore} {gone : Option String}
    (hclients : s'.clients = evict s.clients gone)
    (hclusters : ∀ c ∈ s.store.clusters, gone ≠ some c.slug → ∃ c' ∈ s'.store.clusters,
      c'.slug = c.slug ∧ ∀ env client, makeClient env c = .ok client →
        makeClient env c' = .ok client) : Fresh s' := by
  intro slug cached hcached
  rw [hclients, get?_evict] at hcached
  obtain ⟨c, hc, rfl, hmade⟩ := h slug cached hcached.1
  obtain ⟨c', hc', hslug, hsame⟩ := hclusters c hc hcached.2
  exact ⟨c', hc', hslug, hsame _ _ hmade⟩

/-- The same cluster is still there. -/
theorem Fresh.of_mem (h : Fresh s) {s' : ClientStore} {gone : Option String}
    (hclients : s'.clients = evict s.clients gone)
    (hclusters : ∀ c ∈ s.store.clusters, gone ≠ some c.slug → c ∈ s'.store.clusters) : Fresh s' :=
  h.of_clusters hclients fun c hc hgone => ⟨c, hclusters c hc hgone, rfl, fun _ _ hmade => hmade⟩

theorem fresh_seed (h : Fresh s) (name brokerAddr : String) (skipSSL : Bool) :
    Fresh (s.step fold (.operation (.seed name brokerAddr skipSSL))) := by
  refine h.of_mem rfl fun c hc _ => ?_
  -- a store with a cluster is not seeded
  have hne : s.store.clusters ≠ [] := List.ne_nil_of_mem hc
  simpa [ClientStore.step, Store.step, Store.perform, Store.seed, hne] using hc

theorem fresh_add (h : Fresh s) (cluster : Cluster) (written : Except String Unit) :
    Fresh (s.step fold (.operation (.add cluster written))) := by
  refine h.of_mem rfl fun c hc _ => ?_
  simp only [ClientStore.step, Store.step, Store.perform, Store.add]
  split
  · exact hc
  · split
    · exact hc
    · exact List.mem_append_left _ hc

theorem fresh_setActive (h : Fresh s) (slug : String) (written : Except String Unit) :
    Fresh (s.step fold (.operation (.setActive slug written))) := by
  -- the switch touches no connection setting
  refine h.of_clusters rfl fun c hc _ => ⟨{ c with isActive := c.slug = slug }, ?_, rfl, ?_⟩
  · simp only [ClientStore.step, Store.step, Store.perform, Store.setActive]
    split <;> exact List.mem_map_of_mem hc
  · intro env client hmade
    exact makeClient_congr (connectionConfigChanged_self _) hmade

theorem fresh_delete (h : Fresh s) (slug : String) (written : Except String Unit) :
    Fresh (s.step fold (.operation (.delete slug written))) := by
  refine h.of_mem rfl fun c hc hgone => ?_
  simp only [ClientStore.step, Store.step, Store.perform, Store.delete]
  cases hfind : s.store.clusters.find? fun c => c.slug = slug with
  | none => exact hc
  | some cluster =>
    by_cases hactive : cluster.isActive = true
    · simpa [hactive] using hc
    · -- the client of the deleted cluster is closed
      have hother : c.slug ≠ slug := by
        intro hsame
        refine hgone ?_
        simp [evicted, hfind, hactive, Option.filter, hsame]
      simp only [if_neg hactive]
      exact (List.mem_eraseP_of_neg (by simpa using hother)).mpr hc

theorem fresh_update (h : Fresh s) (slug : String) (updated : Cluster)
    (written : Except String Unit) :
    Fresh (s.step fold (.operation (.update slug updated written))) := by
  refine h.of_clusters rfl fun c hc hgone => ?_
  simp only [ClientStore.step, Store.step, Store.perform, Store.update]
  simp only [evicted] at hgone
  have hstays : ∃ c' ∈ s.store.clusters, c'.slug = c.slug ∧ ∀ env client,
      makeClient env c = .ok client → makeClient env c' = .ok client :=
    ⟨c, hc, rfl, fun _ _ hmade => hmade⟩
  cases hvalid : validateCluster (normalizeCluster updated) with
  | error err => exact hstays
  | ok _ =>
    simp only [hvalid] at hgone ⊢
    split
    · exact hstays
    next hfree =>
      rw [if_neg hfree] at hgone
      split
      · rcases mem_modifyFirst (p := fun c => c.slug = slug)
          (f := edited (normalizeCluster updated)) hc with hsame | ⟨hfirst, hmodified⟩
        · exact ⟨c, hsame, rfl, fun _ _ hmade => hmade⟩
        · -- a client that is kept has the settings of the update
          have hslug : c.slug = slug := by simpa using List.find?_some hfirst
          have hunchanged : connectionConfigChanged c (normalizeCluster updated) = false := by
            by_contra hchanged
            refine hgone ?_
            rw [Bool.not_eq_false] at hchanged
            simp [hfirst, Option.filter, hchanged, hslug]
          exact ⟨_, hmodified, rfl, fun env client hmade =>
            makeClient_congr (unchanged_edited hunchanged) hmade⟩
      · exact hstays

theorem fresh_load {file : StoredFile} (hstep : undisturbed s (.operation (.load file))) :
    Fresh (s.step fold (.operation (.load file))) := by
  intro slug cached hcached
  -- there is no client that the loaded file could contradict
  have hempty : s.clients.entries = [] := List.isEmpty_iff.mp hstep
  have hclient := (get?_evict.mp hcached).1
  rw [FiniteMap.get?, hempty] at hclient
  exact absurd hclient (Option.some_ne_none _).symm

theorem fresh_operation (h : Fresh s) (op : Operation) (hstep : undisturbed s (.operation op)) :
    Fresh (s.step fold (.operation op)) := by
  cases op with
  | load file => exact fresh_load hstep
  | seed name brokerAddr skipSSL => exact fresh_seed h name brokerAddr skipSSL
  | add cluster written => exact fresh_add h cluster written
  | update slug updated written => exact fresh_update h slug updated written
  | delete slug written => exact fresh_delete h slug written
  | setActive slug written => exact fresh_setActive h slug written

variable {call : Nat} {env : Environment} {active : Cluster}

/-- The client that an undisturbed call makes is made for the cluster as it is now. -/
theorem madeFor_of_undisturbed (hstep : undisturbed s (.lookup call env))
    (hcall : s.calls.get? call = some active) (hmiss : s.clients.get? active.slug = none)
    {client : NzovuClient} (hmade : makeClient env active = .ok client) :
    MadeFor s.store.clusters active.slug ⟨client, env⟩ := by
  simp only [undisturbed, hcall, Option.all_some, hmiss, Option.isSome_none, Bool.false_or,
    List.any_eq_true, Bool.and_eq_true, decide_eq_true_eq, Bool.not_eq_true'] at hstep
  obtain ⟨c, hc, hslug, hsame⟩ := hstep
  exact ⟨c, hc, hslug, makeClient_congr hsame hmade⟩

/-- The two outcomes of a call that returns a client. -/
theorem lookup_ok {client : NzovuClient} (h : (s.lookup active env).1 = .ok client) :
    (∃ cached, s.clients.get? active.slug = some cached ∧ cached.client = client ∧
      (s.lookup active env).2 = s.clients) ∨
    (s.clients.get? active.slug = none ∧ makeClient env active = .ok client ∧
      (s.lookup active env).2 = s.clients.set active.slug ⟨client, env⟩) := by
  cases hcached : s.clients.get? active.slug with
  | some cached =>
    have hlookup : s.lookup active env = (.ok cached.client, s.clients) := by
      simp only [ClientStore.lookup, hcached]
    rw [hlookup] at h ⊢
    exact .inl ⟨cached, rfl, Except.ok.inj h, rfl⟩
  | none =>
    cases hmade : makeClient env active with
    | error err =>
      simp only [ClientStore.lookup, hcached, hmade] at h
      cases h
    | ok made =>
      have hlookup : s.lookup active env =
          (.ok made, s.clients.set active.slug ⟨made, env⟩) := by
        simp only [ClientStore.lookup, hcached, hmade]
      rw [hlookup] at h ⊢
      obtain rfl := Except.ok.inj h
      exact .inr ⟨rfl, rfl, rfl⟩

theorem lookup_error {err : String} (h : (s.lookup active env).1 = .error err) :
    (s.lookup active env).2 = s.clients := by
  unfold ClientStore.lookup at h ⊢
  split at h
  · cases h
  · split at h
    · rfl
    · cases h

theorem fresh_lookup (h : Fresh s) (hstep : undisturbed s (.lookup call env)) :
    Fresh (s.step fold (.lookup call env)) := by
  cases hcall : s.calls.get? call with
  | none => simpa only [ClientStore.step, hcall] using h
  | some active =>
    have hclients : (s.step fold (.lookup call env)).clients = (s.lookup active env).2 := by
      simp only [ClientStore.step, hcall]
    have hstore : (s.step fold (.lookup call env)).store = s.store := by
      simp only [ClientStore.step, hcall]
    intro slug cached hcached
    rw [hclients] at hcached
    rw [hstore]
    cases hresult : (s.lookup active env).1 with
    | error err =>
      rw [lookup_error hresult] at hcached
      exact h slug cached hcached
    | ok client =>
      -- a hit leaves the cache as it is, a miss adds the client that was made
      rcases lookup_ok hresult with ⟨_, _, _, hsame⟩ | ⟨hmiss, hmade, hset⟩
      · rw [hsame] at hcached
        exact h slug cached hcached
      · rw [hset, FiniteMap.get?_set] at hcached
        split at hcached
        next hslug =>
          obtain rfl := Option.some.inj hcached
          rw [hslug]
          exact madeFor_of_undisturbed hstep hcall hmiss hmade
        · exact h slug cached hcached

theorem fresh_step (h : Fresh s) (step : Step) (hstep : undisturbed s step) :
    Fresh (s.step fold step) := by
  cases step with
  | operation op => exact fresh_operation h op hstep
  | readActive call =>
    have hsame : (s.step fold (.readActive call)).clients = s.clients ∧
        (s.step fold (.readActive call)).store = s.store := by
      simp only [ClientStore.step]
      split <;> exact ⟨rfl, rfl⟩
    intro slug cached hcached
    rw [hsame.1] at hcached
    rw [hsame.2]
    exact h slug cached hcached
  | lookup call env => exact fresh_lookup h hstep
  | closeAll =>
    intro slug cached hcached
    exact absurd hcached (Option.some_ne_none _).symm

/-- What an undisturbed call returns is made for the cluster as it is now. -/
theorem madeFor_of_lookup (h : Fresh s) (hstep : undisturbed s (.lookup call env))
    (hcall : s.calls.get? call = some active) {client : NzovuClient}
    (hclient : (s.lookup active env).1 = .ok client) :
    ∃ env', MadeFor s.store.clusters active.slug ⟨client, env'⟩ := by
  rcases lookup_ok hclient with ⟨cached, hcached, rfl, -⟩ | ⟨hmiss, hmade, -⟩
  · exact ⟨cached.environment, h active.slug cached hcached⟩
  · exact ⟨env, madeFor_of_undisturbed hstep hcall hmiss hmade⟩

end Fresh

/-! ## Section 4: Runs -/

/-- The cache is fresh all along the run, and each call returns a client that is made for the
cluster as it is when the call returns. -/
structure FreshRun (fold : Char → Char) (filePath : String) (steps : List Step) : Prop where
  cache : ∀ xs, xs <+: steps →
    Fresh (runFrom (ClientStore.step fold) (newClientStore filePath) xs)
  calls : ∀ xs call env ys active client, steps = xs ++ .lookup call env :: ys →
    (runFrom (ClientStore.step fold) (newClientStore filePath) xs).calls.get? call = some active →
    ((runFrom (ClientStore.step fold) (newClientStore filePath) xs).lookup active env).1 =
      .ok client →
    ∃ env', MadeFor (runFrom (ClientStore.step fold) (newClientStore filePath) xs).store.clusters
      active.slug ⟨client, env'⟩

/-- **Client cache**: the clients of an undisturbed run are those of the clusters as they are. -/
theorem freshRun_of_undisturbed {fold : Char → Char} {filePath : String} {steps : List Step}
    (h : Follows (ClientStore.step fold) (fun s step => undisturbed s step)
      (newClientStore filePath) steps) :
    FreshRun fold filePath steps := by
  have hempty : Fresh (newClientStore filePath) := fun slug cached hcached =>
    absurd hcached (Option.some_ne_none _).symm
  have hfresh : ∀ xs, xs <+: steps →
      Fresh (runFrom (ClientStore.step fold) (newClientStore filePath) xs) := by
    rintro xs ⟨ys, rfl⟩
    exact invariant_runFrom (ClientStore.step fold) Fresh
      (fun _ step hs hstep => fresh_step hs step hstep) hempty ((follows_append _).mp h).1
  refine ⟨hfresh, fun xs call env ys active client hsteps hcall hclient => ?_⟩
  have hstep := (follows_iff_forall _).mp h xs (.lookup call env) ys hsteps
  exact madeFor_of_lookup (hfresh xs ⟨_, hsteps.symm⟩) hstep hcall hclient

/-- An environment without variables and files, in which each broker answers. -/
def plainEnvironment : Environment where
  getenv _ := ""
  readFile path := .error (path ++ ": no such file")
  appendCertsFromPEM _ := false
  loadX509KeyPair certFile _ := .error (certFile ++ ": no such file")
  connector _ _ := .ok ()

/-- The broker of the seeded cluster moves. -/
def movedBroker : Cluster where
  slug := ""
  name := "local"
  description := ""
  brokerAddress := "localhost:9100"
  transportMode := transportPlaintext

/-- A client is made, the broker moves, and the client is made again. -/
def moveBetweenCalls : List Step :=
  [.operation (.seed "local" "localhost:9000" true), .readActive 0, .lookup 0 plainEnvironment,
    .operation (.update "localhost-9000" movedBroker (.ok ())), .readActive 1,
    .lookup 1 plainEnvironment]

theorem freshRun_moveBetweenCalls : FreshRun Char.toLower "" moveBetweenCalls :=
  freshRun_of_undisturbed (by decide)

/-- The broker moves while a client is made. -/
def moveDuringCall : List Step :=
  [.operation (.seed "local" "localhost:9000" true), .readActive 0,
    .operation (.update "localhost-9000" movedBroker (.ok ())), .lookup 0 plainEnvironment]

/-- The client of the old broker stays in the cache. -/
theorem not_freshRun_moveDuringCall :
    ¬ ∀ (fold : Char → Char) (filePath : String) (steps : List Step),
      FreshRun fold filePath steps := by
  intro h
  have hfresh := (h Char.toLower "" moveDuringCall).cache _ (List.prefix_refl _)
  have hmoved : ∀ c ∈ (runFrom (ClientStore.step Char.toLower) (newClientStore "")
      moveDuringCall).store.clusters, c.brokerAddress = "localhost:9100" := by decide
  obtain ⟨c, hc, -, hmade⟩ := hfresh "localhost-9000"
    ⟨⟨"localhost:9000", 3, "", none⟩, plainEnvironment⟩ (by rfl)
  have haddress := address_of_makeClient hmade
  rw [hmoved c hc] at haddress
  exact absurd haddress (by decide)

end Nzovu.WebUI
