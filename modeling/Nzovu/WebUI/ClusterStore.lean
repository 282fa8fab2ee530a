import Mathlib.Data.List.Nodup
import Nzovu.Foundation.Run
import Nzovu.WebUI.Cluster

/-!
# The Cluster Store of the Web UI

Translation of the operations of `Store` (`cmd/nzovu/web-ui/cluster/store.go`) on its list of
clusters. The list is shared with the readers of the store and is changed before it is saved; the
cache of gRPC clients is left out.

`strings.EqualFold` compares characters up to case folding: a parameter `fold` maps every character
to the one that stands for all its cases.

- Section 1: operations.
- Section 2: consistent lists.
- Section 3: what each operation does to a consistent list.
- Section 4: runs.
-/

namespace Nzovu.WebUI

open Nzovu.Foundation

/-! ## Section 1: Operations -/

/-- What `os.ReadFile` and `json.Unmarshal` make of the stored file; an entry of the list may be
`null`. -/
inductive StoredFile where
  | missing
  | unreadable (err : String)
  | malformed (err : String)
  | clusters (list : List (Option Cluster))
deriving DecidableEq, Repr

/-- `Store`. -/
structure Store where
  filePath : String
  clusters : List Cluster
deriving DecidableEq, Repr

/-- `NewStore`. -/
def newStore (filePath : String) : Store := ⟨filePath, []⟩

/-- `save`; `written` is what the file system says when there is a path. -/
def Store.save (s : Store) (written : Except String Unit) : Except String Unit :=
  if s.filePath = "" then .ok () else written

/-- The loop of `Load` over the entries of the file, from this index on. -/
def checkLoaded (index : Nat) : List (Option Cluster) → Except String (List Cluster)
  | [] => .ok []
  | none :: _ => .error s!"parse cluster store: cluster at index {index} is null"
  | some cluster :: rest =>
    let cluster := normalizeCluster cluster
    match validateCluster cluster with
    | .error err => .error ("validate cluster " ++ cluster.name.quote ++ ": " ++ err)
    | .ok () =>
      match checkLoaded (index + 1) rest with
      | .error err => .error err
      | .ok clusters => .ok (cluster :: clusters)

/-- `Load`. -/
def Store.load (s : Store) (file : StoredFile) : Except String Unit × Store :=
  if s.filePath = "" then (.ok (), s)
  else
    match file with
    | .missing => (.ok (), s)
    | .unreadable err => (.error ("read cluster store: " ++ err), s)
    | .malformed err => (.error ("parse cluster store: " ++ err), s)
    | .clusters list =>
      match checkLoaded 0 list with
      | .error err => (.error err, s)
      | .ok clusters => (.ok (), { s with clusters := clusters })

/-- `Seed`. -/
def Store.seed (s : Store) (name brokerAddr : String) (skipSSL : Bool) : Store :=
  if s.clusters = [] then
    { s with clusters :=
        [{ slug := slugFor brokerAddr
           name := name
           description := "Default Nzovu server"
           brokerAddress := brokerAddr
           transportMode := mapLegacyTransport skipSSL
           isActive := true }] }
  else s

section Operations

variable (fold : Char → Char)

/-- `strings.EqualFold`. -/
def equalFold (a b : String) : Bool := a.toList.map fold = b.toList.map fold

/-- The error of `Add` when a cluster of the list is in the way. -/
def conflict (cluster : Cluster) : List Cluster → Option String
  | [] => none
  | existing :: rest =>
    if existing.slug = cluster.slug then
      some ("a cluster with address " ++ cluster.brokerAddress.quote ++ " already exists")
    else if equalFold fold existing.name cluster.name = true then
      some ("a cluster named " ++ cluster.name.quote ++ " already exists")
    else conflict cluster rest

/-- The cluster as `Add` compares it. -/
def addressed (cluster : Cluster) : Cluster :=
  let cluster := normalizeCluster cluster
  if cluster.slug = "" then { cluster with slug := slugFor cluster.brokerAddress } else cluster

/-- `Add`. -/
def Store.add (s : Store) (cluster : Cluster) (written : Except String Unit) :
    Except String Unit × Store :=
  match validateCluster (normalizeCluster cluster) with
  | .error err => (.error err, s)
  | .ok () =>
    let cluster := addressed cluster
    match conflict fold cluster s.clusters with
    | some err => (.error err, s)
    | none =>
      let cluster := if s.clusters = [] then { cluster with isActive := true } else cluster
      let s := { s with clusters := s.clusters ++ [cluster] }
      (s.save written, s)

/-- The editable fields of a cluster. -/
def edited (updated cluster : Cluster) : Cluster :=
  { cluster with
    name := updated.name
    description := updated.description
    brokerAddress := updated.brokerAddress
    transportMode := updated.transportMode
    skipTLSVerify := updated.skipTLSVerify
    tlsServerName := updated.tlsServerName
    caCertFile := updated.caCertFile
    clientCertFile := updated.clientCertFile
    clientKeyFile := updated.clientKeyFile
    apiKeyEnv := updated.apiKeyEnv
    skipSSLCheck := false }

/-- The first element that `p` accepts is changed. -/
def modifyFirst {α : Type} (p : α → Bool) (f : α → α) : List α → List α
  | [] => []
  | a :: rest => if p a then f a :: rest else a :: modifyFirst p f rest

/-- `Update`. -/
def Store.update (s : Store) (slug : String) (updated : Cluster) (written : Except String Unit) :
    Except String Unit × Store :=
  let updated := normalizeCluster updated
  match validateCluster updated with
  | .error err => (.error err, s)
  | .ok () =>
    if s.clusters.any fun c => c.slug ≠ slug && equalFold fold c.name updated.name then
      (.error ("a cluster named " ++ updated.name.quote ++ " already exists"), s)
    else if s.clusters.any fun c => c.slug = slug then
      let s := { s with clusters := modifyFirst (·.slug = slug) (edited updated) s.clusters }
      (s.save written, s)
    else (.error ("cluster " ++ slug.quote ++ " not found"), s)

/-- `Delete`. -/
def Store.delete (s : Store) (slug : String) (written : Except String Unit) :
    Except String Unit × Store :=
  match s.clusters.find? fun c => c.slug = slug with
  | none => (.error ("cluster " ++ slug.quote ++ " not found"), s)
  | some cluster =>
    if cluster.isActive = true then
      (.error "cannot delete the active cluster; switch to another cluster first", s)
    else
      let s := { s with clusters := s.clusters.eraseP fun c => c.slug = slug }
      (s.save written, s)

/-- `SetActive`: the flags are set whether or not the cluster is found. -/
def Store.setActive (s : Store) (slug : String) (written : Except String Unit) :
    Except String Unit × Store :=
  let found := s.clusters.any fun c => c.slug = slug
  let s := { s with clusters := s.clusters.map fun c => { c with isActive := c.slug = slug } }
  if found then (s.save written, s)
  else (.error ("cluster " ++ slug.quote ++ " not found"), s)

/-- An operation with what the file system answers. -/
inductive Operation where
  | load (file : StoredFile)
  | seed (name brokerAddr : String) (skipSSL : Bool)
  | add (cluster : Cluster) (written : Except String Unit)
  | update (slug : String) (updated : Cluster) (written : Except String Unit)
  | delete (slug : String) (written : Except String Unit)
  | setActive (slug : String) (written : Except String Unit)

/-- One operation: what it returns, and the store it leaves. -/
def Store.perform (s : Store) : Operation → Except String Unit × Store
  | .load file => s.load file
  | .seed name brokerAddr skipSSL => (.ok (), s.seed name brokerAddr skipSSL)
  | .add cluster written => s.add fold cluster written
  | .update slug updated written => s.update fold slug updated written
  | .delete slug written => s.delete slug written
  | .setActive slug written => s.setActive slug written

/-- The store after an operation. -/
def Store.step (s : Store) (op : Operation) : Store := (s.perform fold op).2

/-! ## Section 2: Consistent lists -/

/-- Slugs and names are distinct, and one cluster is active unless there is none. -/
structure Consistent (clusters : List Cluster) : Prop where
  slugs : (clusters.map (·.slug)).Nodup
  names : clusters.Pairwise fun a b => equalFold fold a.name b.name = false
  active : clusters ≠ [] → clusters.countP (·.isActive) = 1

/-- The operation leaves a consistent list, and the same one when it returns an error. -/
structure SafeStep (s : Store) (op : Operation) : Prop where
  consistent : Consistent fold (s.step fold op).clusters
  atomic : ∀ err, (s.perform fold op).1 = .error err → (s.step fold op).clusters = s.clusters

/-- What a run promises: every store it reaches is consistent, and no operation that returns an
error has changed the list. -/
structure SafeRun (filePath : String) (ops : List Operation) : Prop where
  consistent : ∀ xs, xs <+: ops →
    Consistent fold (runFrom (Store.step fold) (newStore filePath) xs).clusters
  atomic : ∀ xs op ys, ops = xs ++ op :: ys → ∀ err,
    ((runFrom (Store.step fold) (newStore filePath) xs).perform fold op).1 = .error err →
      (runFrom (Store.step fold) (newStore filePath) (xs ++ [op])).clusters =
        (runFrom (Store.step fold) (newStore filePath) xs).clusters

/-- Saving succeeds, or there is nothing to save to. -/
def Store.Saves (s : Store) (written : Except String Unit) : Prop :=
  s.filePath = "" ∨ written = .ok ()

/-- The condition under which an operation is safe. -/
def Allowed (s : Store) : Operation → Prop
  -- a stored file that passes the checks of `Load` lists a consistent set of clusters
  | .load file => s.filePath = "" ∨ ∀ listed, file = .clusters (listed.map some) →
      (∀ c ∈ listed, validateCluster (normalizeCluster c) = .ok ()) → Consistent fold listed
  | .seed _ _ _ => True
  -- a cluster that is added to others is not active, and is saved
  | .add cluster written => validateCluster (normalizeCluster cluster) = .ok () →
      conflict fold (addressed cluster) s.clusters = none →
        (s.clusters = [] ∨ cluster.isActive = false) ∧ s.Saves written
  -- an update that changes something is saved
  | .update slug updated written =>
      validateCluster (normalizeCluster updated) = .ok () →
        (∀ c ∈ s.clusters, c.slug ≠ slug → equalFold fold c.name updated.name = false) →
          s.Saves written ∨
            ∀ c ∈ s.clusters, c.slug = slug → edited (normalizeCluster updated) c = c
  -- the deletion of an inactive cluster is saved
  | .delete slug written =>
      (∃ c ∈ s.clusters, c.slug = slug ∧ c.isActive = false) → s.Saves written
  -- the cluster exists, and a new active one is saved
  | .setActive slug written => s.clusters = [] ∨
      ∃ c ∈ s.clusters, c.slug = slug ∧ (s.Saves written ∨ c.isActive = true)

end Operations

section Lists

variable {fold : Char → Char} {clusters : List Cluster}

theorem equalFold_comm (a b : String) : equalFold fold a b = equalFold fold b a := by
  simp only [equalFold, eq_comm]

/-- The elements of a list without repeated keys that have the key: at most the first one. -/
theorem modifyFirst_eq_map {κ α : Type} [DecidableEq κ] {key : α → κ} {k : κ} {f : α → α}
    {l : List α} (h : (l.map key).Nodup) :
    modifyFirst (fun a => key a = k) f l = l.map fun a => if key a = k then f a else a := by
  induction l with
  | nil => rfl
  | cons a rest ih =>
    rw [List.map_cons, List.nodup_cons] at h
    rw [modifyFirst, List.map_cons]
    by_cases ha : key a = k
    · rw [if_pos (by simpa using ha), if_pos ha]
      have hrest : ∀ b ∈ rest, (if key b = k then f b else b) = id b := by
        intro b hb
        exact if_neg fun hbk => h.1 (List.mem_map.mpr ⟨b, hb, hbk.trans ha.symm⟩)
      rw [List.map_congr_left hrest, List.map_id]
    · rw [if_neg (by simpa using ha), if_neg ha, ih h.2]

/-- A list is unchanged when each of its elements is. -/
theorem map_eq_self_iff {α : Type} {f : α → α} {l : List α} :
    l.map f = l ↔ ∀ a ∈ l, f a = a := by
  conv_lhs => rhs; rw [← List.map_id l]
  exact List.map_inj_left

/-- The only element that is counted. -/
theorem eq_of_countP_eq_one {α : Type} {p : α → Bool} {l : List α} (h : l.countP p = 1) {a b : α}
    (ha : a ∈ l) (hb : b ∈ l) (hpa : p a = true) (hpb : p b = true) : a = b := by
  rw [List.countP_eq_length_filter] at h
  obtain ⟨c, hc⟩ := List.length_eq_one_iff.mp h
  have hone : ∀ x ∈ l, p x = true → x = c := fun x hx hpx => by
    have hmem := List.mem_filter.mpr ⟨hx, hpx⟩
    rw [hc] at hmem
    exact List.mem_singleton.mp hmem
  rw [hone a ha hpa, hone b hb hpb]

theorem conflict_eq_none {cluster : Cluster} :
    conflict fold cluster clusters = none ↔
      ∀ c ∈ clusters, c.slug ≠ cluster.slug ∧ equalFold fold c.name cluster.name = false := by
  induction clusters with
  | nil => simp [conflict]
  | cons c rest ih =>
    rw [List.forall_mem_cons, ← ih, conflict]
    by_cases hslug : c.slug = cluster.slug
    · simp [hslug]
    · by_cases hname : equalFold fold c.name cluster.name = true
      · simp [hslug, hname]
      · simp [hslug, hname]

theorem consistent_nil : Consistent fold [] :=
  ⟨List.nodup_nil, List.Pairwise.nil, fun h => absurd rfl h⟩

/-- Fields other than slug, name and flag do not matter. -/
theorem consistent_map_iff {f : Cluster → Cluster} (hslug : ∀ c, (f c).slug = c.slug)
    (hname : ∀ c, (f c).name = c.name) (hactive : ∀ c, (f c).isActive = c.isActive) :
    Consistent fold (clusters.map f) ↔ Consistent fold clusters := by
  have hslugs : (clusters.map f).map (·.slug) = clusters.map (·.slug) := by
    simp only [List.map_map, Function.comp_def, hslug]
  have hcount : (clusters.map f).countP (·.isActive) = clusters.countP (·.isActive) := by
    simp only [List.countP_map, Function.comp_def, hactive]
  constructor
  · rintro ⟨h₁, h₂, h₃⟩
    rw [List.pairwise_map] at h₂
    simp only [hname] at h₂
    exact ⟨hslugs ▸ h₁, h₂, fun hne => hcount ▸ h₃ (by simpa using hne)⟩
  · rintro ⟨h₁, h₂, h₃⟩
    refine ⟨hslugs.symm ▸ h₁, ?_, fun hne => hcount.symm ▸ h₃ (by simpa using hne)⟩
    rw [List.pairwise_map]
    simpa only [hname] using h₂

/-- A cluster in nobody's way is added: it has to be the only active one. -/
theorem consistent_concat_iff {cluster : Cluster} (h : Consistent fold clusters)
    (hfree : ∀ c ∈ clusters, c.slug ≠ cluster.slug ∧ equalFold fold c.name cluster.name = false) :
    Consistent fold (clusters ++ [cluster]) ↔
      (cluster.isActive = true ↔ clusters = []) := by
  have hslugs : ((clusters ++ [cluster]).map (·.slug)).Nodup := by
    rw [List.map_append, List.nodup_append]
    refine ⟨h.slugs, List.nodup_singleton _, fun a ha b hb => ?_⟩
    obtain ⟨c, hc, rfl⟩ := List.mem_map.mp ha
    rw [List.map_singleton, List.mem_singleton] at hb
    exact hb ▸ (hfree c hc).1
  have hnames : (clusters ++ [cluster]).Pairwise
      fun a b => equalFold fold a.name b.name = false := by
    rw [List.pairwise_append]
    refine ⟨h.names, List.pairwise_singleton _ _, fun a ha b hb => ?_⟩
    rw [List.mem_singleton.mp hb]
    exact (hfree a ha).2
  have hcount : (clusters ++ [cluster]).countP (·.isActive) =
      clusters.countP (·.isActive) + if cluster.isActive = true then 1 else 0 := by
    rw [List.countP_append, List.countP_singleton]
  have hiff : Consistent fold (clusters ++ [cluster]) ↔
      clusters.countP (·.isActive) + (if cluster.isActive = true then 1 else 0) = 1 :=
    ⟨fun hnew => hcount ▸ hnew.active (by simp),
      fun hone => ⟨hslugs, hnames, fun _ => hcount ▸ hone⟩⟩
  rw [hiff]
  by_cases hempty : clusters = []
  · subst hempty
    cases cluster.isActive <;> simp
  · rw [h.active hempty]
    cases cluster.isActive <;> simp [hempty]

/-- A slug names at most one cluster. -/
theorem Consistent.eq_of_slug (h : Consistent fold clusters) {a b : Cluster} (ha : a ∈ clusters)
    (hb : b ∈ clusters) (hslug : a.slug = b.slug) : a = b :=
  List.inj_on_of_nodup_map h.slugs ha hb hslug

/-- The slug is taken. -/
theorem hasSlug_iff {slug : String} :
    (clusters.any fun c => c.slug = slug) = true ↔ ∃ c ∈ clusters, c.slug = slug := by
  simp

/-- The name is free for the cluster of the slug. -/
theorem nameFree_iff {slug name : String} :
    (clusters.any fun c => c.slug ≠ slug && equalFold fold c.name name) = false ↔
      ∀ c ∈ clusters, c.slug ≠ slug → equalFold fold c.name name = false := by
  simp

/-- Without an inactive cluster the list stays consistent. -/
theorem consistent_eraseP (h : Consistent fold clusters) {cluster : Cluster}
    (hmem : cluster ∈ clusters) (hinactive : ¬ cluster.isActive = true) :
    Consistent fold (clusters.eraseP fun c => c.slug = cluster.slug) := by
  have hsublist : List.Sublist (clusters.eraseP fun c => c.slug = cluster.slug) clusters :=
    List.eraseP_sublist
  refine ⟨h.slugs.sublist (hsublist.map _), h.names.sublist hsublist, fun _ => ?_⟩
  obtain ⟨c, before, after, -, hc, hsplit, herased⟩ :=
    List.exists_of_eraseP (p := fun c => c.slug = cluster.slug) hmem (by simp)
  -- the cluster that goes is this one
  have hin : c ∈ clusters := hsplit ▸ List.mem_append_right _ List.mem_cons_self
  obtain rfl : c = cluster := h.eq_of_slug hin hmem (by simpa using hc)
  have hcount := h.active (List.ne_nil_of_mem hmem)
  rw [hsplit, List.countP_append, List.countP_cons, if_neg hinactive, Nat.add_zero] at hcount
  rw [herased, List.countP_append]
  exact hcount

/-- With the flag on the cluster of one slug the list stays consistent. -/
theorem consistent_setActive (h : Consistent fold clusters) {cluster : Cluster}
    (hmem : cluster ∈ clusters) :
    Consistent fold (clusters.map fun c => { c with isActive := c.slug = cluster.slug }) := by
  refine ⟨?_, List.pairwise_map.mpr h.names, fun _ => ?_⟩
  · rw [List.map_map]
    exact h.slugs
  · rw [List.countP_map]
    -- one cluster has the slug
    have hone : (clusters.map (·.slug)).count cluster.slug = 1 :=
      List.count_eq_one_of_mem h.slugs (List.mem_map.mpr ⟨cluster, hmem, rfl⟩)
    rw [List.count, List.countP_map] at hone
    rw [← hone]
    exact List.countP_congr fun c _ => by simp

/-- Nothing changes when the cluster is active already. -/
theorem map_setActive_eq_self_iff (h : Consistent fold clusters) {cluster : Cluster}
    (hmem : cluster ∈ clusters) :
    (clusters.map fun c => { c with isActive := c.slug = cluster.slug }) = clusters ↔
      cluster.isActive = true := by
  have hcount := h.active (List.ne_nil_of_mem hmem)
  rw [map_eq_self_iff]
  constructor
  · intro hall
    have hflag := congrArg Cluster.isActive (hall cluster hmem)
    simpa using hflag.symm
  · intro hactive c hc
    have hflag : decide (c.slug = cluster.slug) = c.isActive := by
      rw [Bool.eq_iff_iff, decide_eq_true_eq]
      constructor
      · exact fun hslug => h.eq_of_slug hc hmem hslug ▸ hactive
      · exact fun hcactive => eq_of_countP_eq_one hcount hmem hc hactive hcactive ▸ rfl
    rw [hflag]

end Lists

/-! ## Section 3: Operations on a consistent list -/

section Steps

variable {fold : Char → Char} {s : Store} {op : Operation}

/-- An operation that leaves the store alone is safe. -/
theorem safeStep_of_unchanged (h : Consistent fold s.clusters) (hsame : s.step fold op = s) :
    SafeStep fold s op :=
  ⟨hsame.symm ▸ h, fun _ _ => by rw [hsame]⟩

theorem saves_iff (clusters : List Cluster) {written : Except String Unit} :
    s.Saves written ↔ ∀ err, ({ s with clusters } : Store).save written ≠ .error err := by
  unfold Store.Saves Store.save
  by_cases hpath : s.filePath = ""
  · simp [hpath]
  · cases written <;> simp [hpath]

/-- An operation that ends with saving a list is safe when the list is consistent, and saved unless
it is the one before. -/
theorem safeStep_iff_of_saved {clusters : List Cluster} {written : Except String Unit}
    (hperform : s.perform fold op =
      (({ s with clusters } : Store).save written, { s with clusters })) :
    SafeStep fold s op ↔ Consistent fold clusters ∧ (s.Saves written ∨ clusters = s.clusters) := by
  have hstep : s.step fold op = { s with clusters } := congrArg Prod.snd hperform
  constructor
  · rintro ⟨hconsistent, hatomic⟩
    rw [hstep] at hconsistent hatomic
    refine ⟨hconsistent, ?_⟩
    by_cases hsame : clusters = s.clusters
    · exact .inr hsame
    · refine .inl ((saves_iff clusters).mpr fun err herr => hsame (hatomic err ?_))
      rw [hperform]
      exact herr
  · rintro ⟨hconsistent, hsaved⟩
    refine ⟨by rw [hstep]; exact hconsistent, fun err herr => ?_⟩
    rw [hstep]
    rw [hperform] at herr
    exact hsaved.resolve_left fun hsaves => (saves_iff clusters).mp hsaves err herr

/-- `Load` accepts a list of valid clusters, and normalizes them. -/
theorem checkLoaded_map {listed : List Cluster} (index : Nat)
    (h : ∀ c ∈ listed, validateCluster (normalizeCluster c) = .ok ()) :
    checkLoaded index (listed.map some) = .ok (listed.map normalizeCluster) := by
  induction listed generalizing index with
  | nil => rfl
  | cons c rest ih =>
    obtain ⟨hc, hrest⟩ := List.forall_mem_cons.mp h
    simp only [List.map_cons, checkLoaded, hc, ih (index + 1) hrest]

/-- It accepts nothing else. -/
theorem exists_listed {index : Nat} {list : List (Option Cluster)} {clusters : List Cluster}
    (h : checkLoaded index list = .ok clusters) :
    ∃ listed : List Cluster, list = listed.map some ∧
      ∀ c ∈ listed, validateCluster (normalizeCluster c) = .ok () := by
  induction list generalizing index clusters with
  | nil => exact ⟨[], rfl, fun _ hc => absurd hc List.not_mem_nil⟩
  | cons entry rest ih =>
    cases entry with
    | none => cases h
    | some c =>
      simp only [checkLoaded] at h
      split at h
      · cases h
      · rename_i hc
        split at h
        · cases h
        · rename_i hrest
          obtain ⟨listed, rfl, hall⟩ := ih hrest
          exact ⟨c :: listed, rfl, List.forall_mem_cons.mpr ⟨hc, hall⟩⟩

theorem safeStep_load_iff (h : Consistent fold s.clusters) (file : StoredFile) :
    SafeStep fold s (.load file) ↔ Allowed fold s (.load file) := by
  simp only [Allowed]
  by_cases hpath : s.filePath = ""
  · have hsame : s.step fold (.load file) = s := by
      simp [Store.step, Store.perform, Store.load, hpath]
    exact ⟨fun _ => .inl hpath, fun _ => safeStep_of_unchanged h hsame⟩
  · simp only [hpath, false_or]
    cases file with
    | missing | unreadable err | malformed err =>
      refine ⟨fun _ listed heq => (by cases heq), fun _ => safeStep_of_unchanged h ?_⟩
      simp [Store.step, Store.perform, Store.load, hpath]
    | clusters list =>
      cases hcheck : checkLoaded 0 list with
      | error err =>
        constructor
        · intro _ listed heq hall
          cases heq
          cases hcheck.symm.trans (checkLoaded_map 0 hall)
        · intro _
          refine safeStep_of_unchanged h ?_
          simp [Store.step, Store.perform, Store.load, hpath, hcheck]
      | ok clusters =>
        obtain ⟨listed, rfl, hall⟩ := exists_listed hcheck
        have hperform : s.perform fold (.load (.clusters (listed.map some))) =
            (.ok (), { s with clusters := listed.map normalizeCluster }) := by
          simp [Store.perform, Store.load, hpath, checkLoaded_map 0 hall]
        have hnormal : Consistent fold (listed.map normalizeCluster) ↔ Consistent fold listed :=
          consistent_map_iff (fun _ => rfl) (fun _ => rfl) fun _ => rfl
        constructor
        · rintro ⟨hconsistent, -⟩ listed' heq -
          rw [Store.step, hperform] at hconsistent
          have hsame := List.map_injective_iff.mpr (Option.some_injective _)
            (StoredFile.clusters.inj heq)
          exact hsame ▸ hnormal.mp hconsistent
        · intro hallowed
          refine ⟨?_, fun err herr => ?_⟩
          · rw [Store.step, hperform]
            exact hnormal.mpr (hallowed listed rfl hall)
          · rw [hperform] at herr
            cases herr

theorem safeStep_seed (h : Consistent fold s.clusters) (name brokerAddr : String)
    (skipSSL : Bool) : SafeStep fold s (.seed name brokerAddr skipSSL) := by
  refine ⟨?_, fun err herr => by cases herr⟩
  simp only [Store.step, Store.perform, Store.seed]
  split
  · exact ⟨List.nodup_singleton _, List.pairwise_singleton _ _, fun _ => rfl⟩
  · exact h

theorem safeStep_add_iff (h : Consistent fold s.clusters) (cluster : Cluster)
    (written : Except String Unit) :
    SafeStep fold s (.add cluster written) ↔ Allowed fold s (.add cluster written) := by
  simp only [Allowed]
  cases hvalid : validateCluster (normalizeCluster cluster) with
  | error err =>
    refine ⟨fun _ herr => (by cases herr), fun _ => safeStep_of_unchanged h ?_⟩
    simp [Store.step, Store.perform, Store.add, hvalid]
  | ok =>
    cases hconflict : conflict fold (addressed cluster) s.clusters with
    | some err =>
      refine ⟨fun _ _ herr => (by cases herr), fun _ => safeStep_of_unchanged h ?_⟩
      simp [Store.step, Store.perform, Store.add, hvalid, hconflict]
    | none =>
      have hactive : (addressed cluster).isActive = cluster.isActive := by
        simp only [addressed]
        split <;> rfl
      let added : Cluster := if s.clusters = [] then { addressed cluster with isActive := true }
        else addressed cluster
      have hfree : ∀ c ∈ s.clusters, c.slug ≠ added.slug ∧
          equalFold fold c.name added.name = false := by
        have hnone := conflict_eq_none.mp hconflict
        simp only [added]
        split <;> exact hnone
      have hperform : s.perform fold (.add cluster written) =
          (({ s with clusters := s.clusters ++ [added] } : Store).save written,
            { s with clusters := s.clusters ++ [added] }) := by
        simp [Store.perform, Store.add, hvalid, hconflict, added]
      have hone : (added.isActive = true ↔ s.clusters = []) ↔
          (s.clusters = [] ∨ cluster.isActive = false) := by
        by_cases hempty : s.clusters = []
        · simp [added, hempty]
        · simp [added, hempty, hactive]
      rw [safeStep_iff_of_saved hperform, consistent_concat_iff h hfree, hone]
      simp

/-- An update keeps the slugs and the active cluster; its name is nobody else's. -/
theorem consistent_edited {clusters : List Cluster} (h : Consistent fold clusters) {slug : String}
    {updated : Cluster} (hname : ∀ c ∈ clusters, c.slug ≠ slug →
      equalFold fold c.name updated.name = false) :
    Consistent fold (clusters.map fun c => if c.slug = slug then edited updated c else c) := by
  have hslugs : (clusters.map fun c => if c.slug = slug then edited updated c else c).map (·.slug) =
      clusters.map (·.slug) := by
    rw [List.map_map]
    refine List.map_congr_left fun c _ => ?_
    simp only [Function.comp_apply]
    split <;> rfl
  have hcount : (clusters.map fun c => if c.slug = slug then edited updated c else c).countP
      (·.isActive) = clusters.countP (·.isActive) := by
    rw [List.countP_map]
    refine List.countP_congr fun c _ => ?_
    simp only [Function.comp_apply]
    split <;> rfl
  refine ⟨hslugs.symm ▸ h.slugs, ?_, fun hne => hcount.symm ▸ h.active (by simpa using hne)⟩
  have hdistinct : clusters.Pairwise fun a b => a.slug ≠ b.slug := List.pairwise_map.mp h.slugs
  rw [List.pairwise_map]
  refine (hdistinct.and h.names).imp_of_mem ?_
  rintro a b ha hb ⟨hslug, hnames⟩
  -- at most one of the two is the updated cluster
  by_cases haslug : a.slug = slug
  · have hbslug : b.slug ≠ slug := fun hb => hslug (haslug.trans hb.symm)
    rw [if_pos haslug, if_neg hbslug]
    exact (equalFold_comm _ _).trans (hname b hb hbslug)
  · rw [if_neg haslug]
    by_cases hbslug : b.slug = slug
    · rw [if_pos hbslug]
      exact hname a ha haslug
    · rw [if_neg hbslug]
      exact hnames

theorem safeStep_update_iff (h : Consistent fold s.clusters) (slug : String) (updated : Cluster)
    (written : Except String Unit) :
    SafeStep fold s (.update slug updated written) ↔
      Allowed fold s (.update slug updated written) := by
  simp only [Allowed]
  cases hvalid : validateCluster (normalizeCluster updated) with
  | error err =>
    refine ⟨fun _ herr => (by cases herr), fun _ => safeStep_of_unchanged h ?_⟩
    simp [Store.step, Store.perform, Store.update, hvalid]
  | ok =>
    by_cases hfree : ∀ c ∈ s.clusters, c.slug ≠ slug → equalFold fold c.name updated.name = false
    · have hname : (s.clusters.any fun c =>
          c.slug ≠ slug && equalFold fold c.name (normalizeCluster updated).name) = false :=
        nameFree_iff.mpr hfree
      by_cases hfound : ∃ c ∈ s.clusters, c.slug = slug
      · have hperform : s.perform fold (.update slug updated written) =
            (({ s with clusters := s.clusters.map fun c =>
                if c.slug = slug then edited (normalizeCluster updated) c else c } : Store).save
              written, { s with clusters := s.clusters.map fun c =>
                if c.slug = slug then edited (normalizeCluster updated) c else c }) := by
          simp only [Store.perform, Store.update, hvalid, hname, hasSlug_iff.mpr hfound,
            modifyFirst_eq_map h.slugs]
          rfl
        have hsame : (s.clusters.map fun c =>
            if c.slug = slug then edited (normalizeCluster updated) c else c) = s.clusters ↔
              ∀ c ∈ s.clusters, c.slug = slug → edited (normalizeCluster updated) c = c := by
          rw [map_eq_self_iff]
          refine forall₂_congr fun c _ => ?_
          by_cases hslug : c.slug = slug <;> simp [hslug]
        rw [safeStep_iff_of_saved hperform, hsame]
        have hconsistent := @consistent_edited fold _ h slug (normalizeCluster updated) hfree
        exact ⟨fun hsafe _ _ => hsafe.2, fun hallowed => ⟨hconsistent, hallowed rfl hfree⟩⟩
      · have hnone := Bool.eq_false_of_not_eq_true (mt hasSlug_iff.mp hfound)
        refine ⟨fun _ _ _ => .inr fun c hc hslug => absurd ⟨c, hc, hslug⟩ hfound,
          fun _ => safeStep_of_unchanged h ?_⟩
        simp only [Store.step, Store.perform, Store.update, hvalid, hname, hnone]
        rfl
    · have htaken : (s.clusters.any fun c =>
          c.slug ≠ slug && equalFold fold c.name (normalizeCluster updated).name) = true :=
        Bool.eq_true_of_not_eq_false (mt nameFree_iff.mp hfree)
      refine ⟨fun _ _ hall => absurd hall hfree, fun _ => safeStep_of_unchanged h ?_⟩
      simp only [Store.step, Store.perform, Store.update, hvalid, htaken]
      rfl

theorem safeStep_delete_iff (h : Consistent fold s.clusters) (slug : String)
    (written : Except String Unit) :
    SafeStep fold s (.delete slug written) ↔ Allowed fold s (.delete slug written) := by
  simp only [Allowed]
  cases hfind : s.clusters.find? fun c => c.slug = slug with
  | none =>
    refine ⟨fun _ hfound => ?_, fun _ => safeStep_of_unchanged h ?_⟩
    · obtain ⟨c, hc, hslug, -⟩ := hfound
      have hmissed := List.find?_eq_none.mp hfind c hc
      simp [hslug] at hmissed
    · simp [Store.step, Store.perform, Store.delete, hfind]
  | some cluster =>
    have hmem : cluster ∈ s.clusters := List.mem_of_find?_eq_some hfind
    obtain rfl : cluster.slug = slug := by simpa using List.find?_some hfind
    by_cases hactive : cluster.isActive = true
    · refine ⟨fun _ hfound => ?_, fun _ => safeStep_of_unchanged h ?_⟩
      · obtain ⟨c, hc, hslug, hinactive⟩ := hfound
        rw [h.eq_of_slug hc hmem hslug, hactive] at hinactive
        cases hinactive
      · simp [Store.step, Store.perform, Store.delete, hfind, hactive]
    · have hperform : s.perform fold (.delete cluster.slug written) =
          (({ s with clusters := s.clusters.eraseP fun c => c.slug = cluster.slug } : Store).save
            written,
          { s with clusters := s.clusters.eraseP fun c => c.slug = cluster.slug }) := by
        simp [Store.perform, Store.delete, hfind, hactive]
      have hchanged : (s.clusters.eraseP fun c => c.slug = cluster.slug) ≠ s.clusters := by
        intro hsame
        have hlength : (s.clusters.eraseP fun c => c.slug = cluster.slug).length + 1 =
            s.clusters.length := List.length_eraseP_add_one hmem (by simp)
        rw [hsame] at hlength
        omega
      rw [safeStep_iff_of_saved hperform]
      constructor
      · exact fun hsafe _ => hsafe.2.resolve_right hchanged
      · exact fun hallowed => ⟨consistent_eraseP h hmem hactive,
          .inl (hallowed ⟨cluster, hmem, rfl, by simpa using hactive⟩)⟩

theorem safeStep_setActive_iff (h : Consistent fold s.clusters) (slug : String)
    (written : Except String Unit) :
    SafeStep fold s (.setActive slug written) ↔ Allowed fold s (.setActive slug written) := by
  simp only [Allowed]
  by_cases hfound : ∃ c ∈ s.clusters, c.slug = slug
  · have hany := hasSlug_iff.mpr hfound
    obtain ⟨cluster, hmem, rfl⟩ := hfound
    have hperform : s.perform fold (.setActive cluster.slug written) =
        (({ s with clusters := s.clusters.map fun c =>
              { c with isActive := c.slug = cluster.slug } } : Store).save written,
          { s with clusters := s.clusters.map fun c =>
              { c with isActive := c.slug = cluster.slug } }) := by
      simp only [Store.perform, Store.setActive, hany, if_true]
    rw [safeStep_iff_of_saved hperform, map_setActive_eq_self_iff h hmem]
    constructor
    · exact fun hsafe => .inr ⟨cluster, hmem, rfl, hsafe.2⟩
    · rintro (hempty | ⟨c, hc, hslug, hallowed⟩)
      · exact absurd hempty (List.ne_nil_of_mem hmem)
      · exact ⟨consistent_setActive h hmem, h.eq_of_slug hc hmem hslug ▸ hallowed⟩
  · have hnone := Bool.eq_false_of_not_eq_true (mt hasSlug_iff.mp hfound)
    have hperform : s.perform fold (.setActive slug written) =
        (.error ("cluster " ++ slug.quote ++ " not found"),
          { s with clusters := s.clusters.map fun c => { c with isActive := c.slug = slug } }) := by
      simp only [Store.perform, Store.setActive, hnone]
      rfl
    constructor
    · intro hsafe
      by_contra hallowed
      have hne : s.clusters ≠ [] := fun hempty => hallowed (.inl hempty)
      have hsame := hsafe.atomic _ (by rw [hperform])
      rw [Store.step, hperform] at hsame
      -- nobody is active any more
      have hcount := h.active hne
      rw [← hsame, List.countP_map, List.countP_eq_zero.mpr fun c hc => ?_] at hcount
      · cases hcount
      · simpa using fun hslug => hfound ⟨c, hc, hslug⟩
    · rintro (hempty | ⟨c, hc, hslug, -⟩)
      · refine safeStep_of_unchanged h ?_
        rw [Store.step, hperform, hempty]
        cases s
        simp_all
      · exact absurd ⟨c, hc, hslug⟩ hfound

/-- **Step**: an operation on a consistent list is safe exactly under its condition. -/
theorem safeStep_iff (h : Consistent fold s.clusters) : SafeStep fold s op ↔ Allowed fold s op := by
  cases op with
  | load file => exact safeStep_load_iff h file
  | seed name brokerAddr skipSSL =>
    exact ⟨fun _ => trivial, fun _ => safeStep_seed h name brokerAddr skipSSL⟩
  | add cluster written => exact safeStep_add_iff h cluster written
  | update slug updated written => exact safeStep_update_iff h slug updated written
  | delete slug written => exact safeStep_delete_iff h slug written
  | setActive slug written => exact safeStep_setActive_iff h slug written

end Steps

/-! ## Section 4: Runs -/

section Runs

variable (fold : Char → Char) (filePath : String) (ops : List Operation)

theorem safeRun_iff_follows : SafeRun fold filePath ops ↔
    Follows (Store.step fold) (SafeStep fold) (newStore filePath) ops := by
  constructor
  · intro h
    rw [follows_iff_forall]
    rintro xs op ys hops
    have hprefix : xs ++ [op] <+: ops := ⟨ys, by rw [hops, List.append_assoc]; rfl⟩
    refine ⟨?_, fun err herr => ?_⟩
    · rw [← runFrom_concat (Store.step fold)]
      exact h.consistent _ hprefix
    · rw [← runFrom_concat (Store.step fold)]
      exact h.atomic xs op ys hops err herr
  · intro h
    refine ⟨fun xs hxs => ?_, fun xs op ys hops err herr => ?_⟩
    · obtain ⟨ys, rfl⟩ := hxs
      exact invariant_runFrom (Store.step fold) (fun s => Consistent fold s.clusters)
        (fun _ _ _ hsafe => hsafe.consistent) consistent_nil ((follows_append _).mp h).1
    · rw [runFrom_concat]
      exact ((follows_iff_forall _).mp h xs op ys hops).atomic err herr

/-- **Cluster store**: a run is safe exactly when each of its operations meets its condition. -/
theorem safeRun_iff : SafeRun fold filePath ops ↔
    Follows (Store.step fold) (Allowed fold) (newStore filePath) ops := by
  rw [safeRun_iff_follows]
  exact follows_iff_of_invariant _ (fun s => Consistent fold s.clusters)
    (fun _ _ hconsistent => safeStep_iff hconsistent) (fun _ _ _ hsafe => hsafe.consistent)
    consistent_nil

end Runs

/-- The first cluster is seeded, then one that does not exist is made the active one. -/
def switchToMissing : List Operation :=
  [.seed "local" "localhost:9000" true, .setActive "staging" (.ok ())]

/-- `SetActive` returns an error, and no cluster is active any more. -/
theorem not_safeRun_switchToMissing :
    ¬ ∀ (fold : Char → Char) (filePath : String) (ops : List Operation),
      SafeRun fold filePath ops := by
  intro h
  have hconsistent := (h Char.toLower "" switchToMissing).consistent _ (List.prefix_refl _)
  exact absurd (hconsistent.active (by decide)) (by decide)

end Nzovu.WebUI
