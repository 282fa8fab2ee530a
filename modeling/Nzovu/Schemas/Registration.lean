import Nzovu.Schemas.Registry

/-!
# Concurrent Registrations

Any number of `RegisterSchema` calls in progress at once. A call commits its row in one step and
reads the metadata for its answer in another, so other calls may commit in between. The versions of
a schema id are distinct and grow in the order of the commits; the answer names the version of the
call's own row exactly when no other row of that id was committed before the read.

- Section 1: what one registration stores.
- Section 2: calls and their steps.
- Section 3: what a step preserves.
- Section 4: what a run preserves.
-/

namespace Nzovu.Schemas

open Nzovu.Foundation
open Nzovu.Repository
open Nzovu.Schedules

/-! ## Section 1: What one registration stores -/

/-- The request passes the checks of the handler and of `Register`. -/
def Accepted (invalid : String → Option String) (request : RegisterSchemaRequest) : Prop :=
  checkRequest request = none ∧ checkSchema invalid request.schema = none

/-- The version a registration computes. -/
def nextVersion (backend : Backend) (t : SchemaTable) (schemaId : String) : Int :=
  let latestVersion := (t.maxVersion schemaId).getD 0
  match backend with
  | .sqlite => latestVersion + 1
  | .postgres => wrapInt32 (latestVersion + 1)

/-- A registration from the largest version there is: Postgres stores the smallest one next. -/
def WrapsAround (backend : Backend) (t : SchemaTable) (schemaId : String) : Prop :=
  backend = .postgres ∧ t.maxVersion schemaId = some maxInt32

/-- What a committed registration has done. -/
structure Registered (backend : Backend) (invalid : String → Option String) (t : SchemaTable)
    (request : RegisterSchemaRequest) (t' : SchemaTable) (row : Schema) : Prop where
  accepted : Accepted invalid request
  rows : t'.rows = t.rows ++ [row]
  fresh : row.key ∉ t.rows.map Schema.key
  schemaId : row.schemaId = request.schemaId
  content : row.content = request.content
  version : row.version = nextVersion backend t request.schemaId

section Registering

variable {backend : Backend} {invalid : String → Option String} {now : Int} {t t' : SchemaTable}
  {request : RegisterSchemaRequest} {row schema : Schema}

theorem SchemaTable.insert_eq_some (h : t.insert row = some t') :
    t'.rows = t.rows ++ [row] ∧ row.key ∉ t.rows.map Schema.key := by
  unfold SchemaTable.insert at h
  split at h
  · rename_i hrow
    cases h
    exact ⟨rfl, hrow.1⟩
  · cases h

theorem SchemaTable.insert_isSome (hfresh : row.key ∉ t.rows.map Schema.key)
    (hfits : FitsInt32 row.version) : ∃ t', t.insert row = some t' := by
  simp only [SchemaTable.insert, hfresh, hfits, not_false_eq_true, and_self, dite_true]
  exact ⟨_, rfl⟩

theorem insertSchema_eq_ok (h : insertSchema t schema = .ok (t', row)) :
    row = schema ∧ t'.rows = t.rows ++ [row] ∧ row.key ∉ t.rows.map Schema.key := by
  unfold insertSchema at h
  split at h
  · cases h
  · rename_i hinsert
    cases h
    exact ⟨rfl, SchemaTable.insert_eq_some hinsert⟩

/-- The row of a version-`0` registration is the schema with the next version. -/
theorem storeSchema_eq_ok (hversion : schema.version = 0)
    (h : storeSchema backend t schema = .ok (t', row)) :
    row = { schema with version := nextVersion backend t schema.schemaId } ∧
      t'.rows = t.rows ++ [row] ∧ row.key ∉ t.rows.map Schema.key := by
  simp only [storeSchema, hversion, if_true] at h
  cases backend with
  | sqlite =>
    simp only at h
    split at h
    · exact insertSchema_eq_ok h
    · cases h
  | postgres => exact insertSchema_eq_ok h

theorem registerSchema_eq_ok (h : registerSchema backend invalid now t request = .ok (t', row)) :
    Registered backend invalid t request t' row := by
  unfold registerSchema at h
  split at h
  · cases h
  · rename_i hrequest
    cases hchecked : checkSchema invalid request.schema with
    | some err =>
      rw [register, hchecked] at h
      cases h
    | none =>
      simp only [register, hchecked] at h
      cases hstore : storeSchema backend t (completeSchema now request.schema) with
      | error err =>
        rw [hstore] at h
        cases h
      | ok stored =>
        rw [hstore] at h
        cases h
        obtain ⟨rfl, hrows, hfresh⟩ := storeSchema_eq_ok rfl hstore
        exact ⟨⟨hrequest, hchecked⟩, hrows, hfresh, rfl, rfl, rfl⟩

/-- `MAX(version)` bounds the versions and is one of them. -/
theorem maxVersion_eq_some {schemaId : String} {m : Int} :
    t.maxVersion schemaId = some m ↔ (∃ e ∈ t.rows, e.schemaId = schemaId ∧ e.version = m) ∧
      ∀ e ∈ t.rows, e.schemaId = schemaId → e.version ≤ m := by
  simp only [SchemaTable.maxVersion, SchemaTable.versionRows, List.max?_eq_some_iff, List.mem_map,
    List.mem_filter, decide_eq_true_eq, and_assoc]
  refine and_congr_right fun _ => ⟨fun h e he hid => h _ ⟨e, he, hid, rfl⟩, ?_⟩
  rintro h _ ⟨e, he, hid, rfl⟩
  exact h e he hid

theorem maxVersion_eq_none {schemaId : String} :
    t.maxVersion schemaId = none ↔ ∀ e ∈ t.rows, e.schemaId ≠ schemaId := by
  simp [SchemaTable.maxVersion, SchemaTable.versionRows]

/-- The new version is greater than all earlier ones, unless it has wrapped around. -/
theorem Registered.grows_iff (h : Registered backend invalid t request t' row) :
    (∀ e ∈ t.rows, e.schemaId = row.schemaId → e.version < row.version) ↔
      ¬ WrapsAround backend t request.schemaId := by
  simp only [h.schemaId, h.version, nextVersion, WrapsAround]
  cases hmax : t.maxVersion request.schemaId with
  | none =>
    have hnone := maxVersion_eq_none.mp hmax
    constructor
    · rintro - ⟨-, hsome⟩
      cases hsome
    · exact fun _ e he hid => absurd hid (hnone e he)
  | some m =>
    obtain ⟨⟨e, he, hid, rfl⟩, hbound⟩ := maxVersion_eq_some.mp hmax
    obtain ⟨hlow, hhigh⟩ := t.fits e he
    simp only [Option.getD_some, Option.some.injEq]
    cases backend with
    | sqlite =>
      refine iff_of_true (fun d hd hdid => ?_) (fun hwraps => by cases hwraps.1)
      have := hbound d hd hdid
      show d.version < e.version + 1
      omega
    | postgres =>
      by_cases hlast : e.version = maxInt32
      · -- The largest version wraps around to the smallest.
        refine iff_of_false (fun hall => ?_) (fun hnot => hnot ⟨rfl, hlast⟩)
        have hless := hall e he hid
        rw [hlast] at hless
        exact absurd hless (by decide)
      · refine iff_of_true (fun d hd hdid => ?_) (fun hwraps => hlast hwraps.2)
        have hd := hbound d hd hdid
        have hwrap : wrapInt32 (e.version + 1) = e.version + 1 := by
          simp only [minInt32, maxInt32] at hlow hhigh hlast
          rw [wrapInt32, Int.bmod_eq_of_le (by omega) (by omega)]
        show d.version < wrapInt32 (e.version + 1)
        omega

/-- An accepted registration that wraps around is committed, unless its version is taken. -/
theorem exists_registerSchema_of_wrapsAround (haccepted : Accepted invalid request)
    (hwraps : WrapsAround backend t request.schemaId)
    (hfree : (request.schemaId, minInt32) ∉ t.rows.map Schema.key) :
    ∃ answer, registerSchema backend invalid now t request = .ok answer := by
  obtain ⟨rfl, hmax⟩ := hwraps
  have hwrap : wrapInt32 (maxInt32 + 1) = minInt32 := by decide
  obtain ⟨t', hinsert⟩ : ∃ t', t.insert
      { completeSchema now request.schema with version := minInt32 } = some t' :=
    SchemaTable.insert_isSome hfree (by show FitsInt32 minInt32; decide)
  have hstore : storeSchema .postgres t (completeSchema now request.schema) =
      .ok (t', { completeSchema now request.schema with version := minInt32 }) := by
    have hzero : (completeSchema now request.schema).version = 0 := rfl
    have hid : (completeSchema now request.schema).schemaId = request.schemaId := rfl
    simp only [storeSchema, if_pos hzero]
    rw [hid, hmax, Option.getD_some, hwrap, insertSchema, ← hid, hinsert]
  simp only [registerSchema, haccepted.1, register, haccepted.2, hstore]
  exact ⟨_, rfl⟩

end Registering

/-! ## Section 2: Calls and their steps -/

/-- How far a call has come. A stored row is not yet answered for. -/
inductive Progress where
  | received
  | stored (row : Schema)
  | answered (row : Schema) (response : RegisterSchemaResponse)
  | failed (err : RequestError)
deriving DecidableEq, Repr

/-- A `RegisterSchema` call. -/
structure Call where
  request : RegisterSchemaRequest
  progress : Progress
deriving DecidableEq, Repr

/-- The row of a call that has committed it. -/
def Call.row (call : Call) : Option Schema :=
  match call.progress with
  | .stored row => some row
  | .answered row _ => some row
  | _ => none

/-- The table and the calls so far. -/
structure Service where
  table : SchemaTable
  calls : List Call

/-- The next step of some call: it comes in, its transaction runs at a time, or it reads the
metadata and answers. -/
inductive CallStep where
  | receive (request : RegisterSchemaRequest)
  | store (i : Nat) (now : Int)
  | answer (i : Nat)

/-- The call `i` after its transaction. -/
def Service.stored (s : Service) (i : Nat) (request : RegisterSchemaRequest) :
    Except RequestError (SchemaTable × Schema) → Service
  | .error err => { s with calls := s.calls.set i ⟨request, .failed err⟩ }
  | .ok (table, row) => ⟨table, s.calls.set i ⟨request, .stored row⟩⟩

/-- The call `i` after its answer. -/
def Service.answered (s : Service) (i : Nat) (request : RegisterSchemaRequest) (row : Schema) :
    Except RequestError RegisterSchemaResponse → Service
  | .error err => { s with calls := s.calls.set i ⟨request, .failed err⟩ }
  | .ok response => { s with calls := s.calls.set i ⟨request, .answered row response⟩ }

/-- One step; a call that is not at this point does nothing. -/
def Service.step (backend : Backend) (invalid : String → Option String) (s : Service) :
    CallStep → Service
  | .receive request => { s with calls := s.calls ++ [⟨request, .received⟩] }
  | .store i now =>
    match s.calls[i]? with
    | some ⟨request, .received⟩ =>
      s.stored i request (registerSchema backend invalid now s.table request)
    | _ => s
  | .answer i =>
    match s.calls[i]? with
    | some ⟨request, .stored row⟩ => s.answered i request row (schemaRegistered s.table row)
    | _ => s

/-- The rows added to the initial ones each have a greater version than all earlier rows of their
schema id. -/
def VersionsGrow (initial added : List Schema) : Prop :=
  added.Pairwise (fun a b => a.schemaId = b.schemaId → a.version < b.version) ∧
    ∀ a ∈ initial, ∀ b ∈ added, a.schemaId = b.schemaId → a.version < b.version

/-- What registrations promise: distinct and growing versions, and answers with the version of the
call's own row, which holds the content of its request. -/
structure Sound (initial : List Schema) (s : Service) : Prop where
  distinct : ∀ schemaId, ((s.table.versionRows schemaId).map (·.version)).Nodup
  grow : ∃ added, s.table.rows = initial ++ added ∧ VersionsGrow initial added
  own : ∀ call ∈ s.calls, ∀ row response, call.progress = .answered row response →
    row ∈ s.table.rows ∧ row.schemaId = call.request.schemaId ∧
      row.content = call.request.content ∧ response.version = row.version

/-- The condition on a step: a registration does not wrap around, and an answer is made while the
row of the call is still the last one of its schema id. -/
def InOrder (backend : Backend) (invalid : String → Option String) (s : Service) : CallStep → Prop
  | .receive _ => True
  | .store i _ => ∀ request, s.calls[i]? = some ⟨request, .received⟩ →
    ¬ (WrapsAround backend s.table request.schemaId ∧ Accepted invalid request ∧
      (request.schemaId, minInt32) ∉ s.table.rows.map Schema.key)
  | .answer i => ∀ request row, s.calls[i]? = some ⟨request, .stored row⟩ →
    (s.table.versionRows row.schemaId).getLast? = some row

/-! ## Section 3: What a step preserves -/

section Steps

variable {backend : Backend} {invalid : String → Option String} {initial added : List Schema}
  {s : Service} {row : Schema}

/-- The rows of calls were added by them. -/
structure Added (initial : List Schema) (s : Service) (added : List Schema) : Prop where
  rows : s.table.rows = initial ++ added
  calls : ∀ call ∈ s.calls, ∀ row, call.row = some row →
    row ∈ added ∧ row.schemaId = call.request.schemaId ∧ row.content = call.request.content

/-- The primary key: the versions of a schema id are distinct. -/
theorem SchemaTable.versions_nodup (t : SchemaTable) (schemaId : String) :
    ((t.versionRows schemaId).map (·.version)).Nodup := by
  have hkeys := (List.pairwise_map.mp t.keys_nodup).filter fun e => e.schemaId = schemaId
  refine List.pairwise_map.mpr (hkeys.imp_of_mem fun {a b} ha hb hne hversion => hne ?_)
  have hid := (of_decide_eq_true (List.mem_filter.mp ha).2).trans
    (of_decide_eq_true (List.mem_filter.mp hb).2).symm
  exact Prod.ext hid hversion

/-- One more row keeps the versions growing when it has the greatest of its schema id. -/
theorem versionsGrow_concat : VersionsGrow initial (added ++ [row]) ↔
    VersionsGrow initial added ∧
      ∀ e ∈ initial ++ added, e.schemaId = row.schemaId → e.version < row.version := by
  simp only [VersionsGrow, List.pairwise_append, List.pairwise_singleton, List.mem_singleton,
    forall_eq, true_and, List.mem_append, or_imp, forall_and]
  tauto

/-- Of an added row, `MAX(version)` is the version exactly when it is the last of its schema id. -/
theorem maxVersion_eq_iff {t : SchemaTable} (hrows : t.rows = initial ++ added)
    (hgrow : VersionsGrow initial added) (hrow : row ∈ added) :
    t.maxVersion row.schemaId = some row.version ↔
      (t.versionRows row.schemaId).getLast? = some row := by
  have hview : t.versionRows row.schemaId =
      initial.filter (fun e => e.schemaId = row.schemaId) ++
        added.filter fun e => e.schemaId = row.schemaId := by
    rw [SchemaTable.versionRows, hrows, List.filter_append]
  have hmem : row ∈ added.filter fun e => e.schemaId = row.schemaId :=
    List.mem_filter.mpr ⟨hrow, by simp⟩
  have hne := List.ne_nil_of_mem hmem
  -- The last row of the id and those before it.
  obtain ⟨before, last, hsplit⟩ : ∃ before last,
      (added.filter fun e => e.schemaId = row.schemaId) = before ++ [last] :=
    ⟨_, _, (List.dropLast_append_getLast hne).symm⟩
  have hid : ∀ e ∈ before ++ [last], e ∈ added ∧ e.schemaId = row.schemaId := fun e he => by
    obtain ⟨hmem, hid⟩ := List.mem_filter.mp (hsplit ▸ he)
    exact ⟨hmem, of_decide_eq_true hid⟩
  obtain ⟨hlastAdded, hlastId⟩ := hid last (by simp)
  have hless : ∀ e ∈ before, e.version < last.version := fun e he => by
    have hpairs := hgrow.1.filter fun e => e.schemaId = row.schemaId
    rw [hsplit] at hpairs
    obtain ⟨-, heid⟩ := hid e (List.mem_append_left _ he)
    exact (List.pairwise_append.mp hpairs).2.2 e he last (by simp) (heid.trans hlastId.symm)
  have hmax : t.maxVersion row.schemaId = some last.version := by
    refine maxVersion_eq_some.mpr ⟨⟨last, ?_, hlastId, rfl⟩, fun e he heid => ?_⟩
    · rw [hrows]
      exact List.mem_append_right _ hlastAdded
    · rw [hrows] at he
      rcases List.mem_append.mp he with he | he
      · exact (hgrow.2 e he last hlastAdded (heid.trans hlastId.symm)).le
      · have hmem : e ∈ before ++ [last] := hsplit ▸ List.mem_filter.mpr ⟨he, by simp [heid]⟩
        rcases List.mem_append.mp hmem with he | he
        · exact (hless e he).le
        · rw [List.mem_singleton.mp he]
  rw [hmax, hview, hsplit, ← List.append_assoc, List.getLast?_concat, Option.some.injEq,
    Option.some.injEq]
  refine ⟨fun hversion => ?_, fun heq => congrArg Schema.version heq⟩
  rcases List.mem_append.mp (hsplit ▸ hmem) with hbefore | hlast
  · exact absurd hversion (hless row hbefore).ne'
  · exact (List.mem_singleton.mp hlast).symm

/-- The answer of a stored row names `MAX(version)`. -/
theorem schemaRegistered_eq_ok {t : SchemaTable} (hrow : row ∈ t.rows) :
    ∃ response, schemaRegistered t row = .ok response ∧
      t.maxVersion row.schemaId = some response.version := by
  have hmem : row ∈ t.versionRows row.schemaId := List.mem_filter.mpr ⟨hrow, by simp⟩
  have hsome : ∀ f : Schema → Int, ((t.versionRows row.schemaId).map f) ≠ [] := fun f h =>
    List.ne_nil_of_mem hmem (List.map_eq_nil_iff.mp h)
  obtain ⟨m, hm⟩ := Option.ne_none_iff_exists'.mp
    fun h => hsome (·.version) (List.max?_eq_none_iff.mp h)
  obtain ⟨c, hc⟩ := Option.ne_none_iff_exists'.mp
    fun h => hsome (·.createdAt) (List.min?_eq_none_iff.mp h)
  obtain ⟨u, hu⟩ := Option.ne_none_iff_exists'.mp
    fun h => hsome (·.updatedAt) (List.max?_eq_none_iff.mp h)
  have hmax : t.maxVersion row.schemaId = some m := hm
  refine ⟨⟨row.schemaId, m, c⟩, ?_, hmax⟩
  simp only [schemaRegistered, getMetadata, hmax, hc, hu]

/-- A call changes; the rows stay. -/
theorem Added.set (h : Added initial s added) (i : Nat) {call : Call}
    (hcall : ∀ row, call.row = some row → row ∈ added ∧ row.schemaId = call.request.schemaId ∧
      row.content = call.request.content) :
    Added initial { s with calls := s.calls.set i call } added := by
  refine ⟨h.rows, fun c hc row hrow => ?_⟩
  rcases List.mem_or_eq_of_mem_set hc with hc | rfl
  · exact h.calls c hc row hrow
  · exact hcall row hrow

theorem Added.stored (h : Added initial s added) {t' : SchemaTable}
    {request : RegisterSchemaRequest} (i : Nat)
    (hr : Registered backend invalid s.table request t' row) :
    Added initial ⟨t', s.calls.set i ⟨request, .stored row⟩⟩ (added ++ [row]) := by
  refine ⟨by rw [hr.rows, h.rows, List.append_assoc], fun c hc r hrow => ?_⟩
  rcases List.mem_or_eq_of_mem_set hc with hc | rfl
  · obtain ⟨hmem, hsame⟩ := h.calls c hc r hrow
    exact ⟨List.mem_append_left _ hmem, hsame⟩
  · cases hrow
    exact ⟨by simp, hr.schemaId, hr.content⟩

/-- Every step keeps the initial rows, and adds the rows of its calls. -/
theorem Added.step (h : Added initial s added) (op : CallStep) :
    ∃ added', Added initial (s.step backend invalid op) added' := by
  cases op with
  | receive request =>
    refine ⟨added, h.rows, fun c hc row hrow => ?_⟩
    rcases List.mem_append.mp hc with hc | hc
    · exact h.calls c hc row hrow
    · rw [List.mem_singleton.mp hc] at hrow
      cases hrow
  | store i now =>
    simp only [Service.step]
    split
    · rename_i request _
      cases hreg : registerSchema backend invalid now s.table request with
      | error err => exact ⟨added, h.set i fun row hrow => by cases hrow⟩
      | ok answer => exact ⟨_, h.stored i (registerSchema_eq_ok hreg)⟩
    · exact ⟨added, h⟩
  | answer i =>
    simp only [Service.step]
    split
    · rename_i request row hcall
      obtain hrow := h.calls _ (List.mem_of_getElem? hcall) row rfl
      cases hanswer : schemaRegistered s.table row with
      | error err => exact ⟨added, h.set i fun r hr => by cases hr⟩
      | ok response =>
        refine ⟨added, h.set i fun r hr => ?_⟩
        cases hr
        exact hrow
    · exact ⟨added, h⟩

/-- A registration keeps the promise exactly when its version is greater than the earlier ones. -/
theorem sound_stored_iff (hadded : Added initial s added) (hsound : Sound initial s)
    {t' : SchemaTable} {request : RegisterSchemaRequest} (i : Nat)
    (hr : Registered backend invalid s.table request t' row) :
    Sound initial ⟨t', s.calls.set i ⟨request, .stored row⟩⟩ ↔
      ¬ WrapsAround backend s.table request.schemaId := by
  obtain ⟨added₀, hrows, hgrow⟩ := hsound.grow
  cases List.append_cancel_left (hrows.symm.trans hadded.rows)
  rw [← hr.grows_iff]
  constructor
  · intro h e he hid
    obtain ⟨added', hrows', hgrow'⟩ := h.grow
    rw [show (⟨t', s.calls.set i ⟨request, .stored row⟩⟩ : Service).table.rows = t'.rows from rfl,
      hr.rows, hrows, List.append_assoc] at hrows'
    cases List.append_cancel_left hrows'
    exact (versionsGrow_concat.mp hgrow').2 e (hrows ▸ he) hid
  · intro hless
    refine ⟨t'.versions_nodup, ⟨added ++ [row], by rw [hr.rows, hrows, List.append_assoc],
      versionsGrow_concat.mpr ⟨hgrow, hrows ▸ hless⟩⟩, fun call hcall r response hanswered => ?_⟩
    rcases List.mem_or_eq_of_mem_set hcall with hcall | rfl
    · obtain ⟨hmem, hrest⟩ := hsound.own call hcall r response hanswered
      refine ⟨?_, hrest⟩
      rw [hr.rows]
      exact List.mem_append_left _ hmem
    · cases hanswered

/-- An answer keeps the promise exactly when it names the version of the row. -/
theorem sound_answered_iff (hadded : Added initial s added) (hsound : Sound initial s)
    {request : RegisterSchemaRequest} {i : Nat} {response : RegisterSchemaResponse}
    (hcall : s.calls[i]? = some ⟨request, .stored row⟩) :
    Sound initial { s with calls := s.calls.set i ⟨request, .answered row response⟩ } ↔
      response.version = row.version := by
  obtain ⟨hrow, hid, hcontent⟩ := hadded.calls _ (List.mem_of_getElem? hcall) row rfl
  constructor
  · intro h
    obtain ⟨hlt, -⟩ := List.getElem?_eq_some_iff.mp hcall
    exact (h.own _ (List.mem_set hlt _) row response rfl).2.2.2
  · intro hversion
    refine ⟨hsound.distinct, hsound.grow, fun call hmem r other hanswered => ?_⟩
    rcases List.mem_or_eq_of_mem_set hmem with hmem | rfl
    · exact hsound.own call hmem r other hanswered
    · cases hanswered
      refine ⟨?_, hid, hcontent, hversion⟩
      rw [hadded.rows]
      exact List.mem_append_right _ hrow

/-- A refused call has nothing to answer for. -/
theorem Sound.fail (h : Sound initial s) (i : Nat) (request : RegisterSchemaRequest)
    (err : RequestError) :
    Sound initial { s with calls := s.calls.set i ⟨request, .failed err⟩ } := by
  refine ⟨h.distinct, h.grow, fun call hcall row response hanswered => ?_⟩
  rcases List.mem_or_eq_of_mem_set hcall with hcall | rfl
  · exact h.own call hcall row response hanswered
  · cases hanswered

/-- **Step**: a step keeps the promise exactly when it is in order. -/
theorem sound_step_iff (hadded : Added initial s added) (hsound : Sound initial s) (op : CallStep) :
    Sound initial (s.step backend invalid op) ↔ InOrder backend invalid s op := by
  cases op with
  | receive request =>
    refine iff_of_true
      ⟨hsound.distinct, hsound.grow, fun call hcall row response hanswered => ?_⟩ trivial
    rcases List.mem_append.mp hcall with hcall | hcall
    · exact hsound.own call hcall row response hanswered
    · rw [List.mem_singleton.mp hcall] at hanswered
      cases hanswered
  | store i now =>
    simp only [Service.step, InOrder]
    split
    · rename_i request hcall
      simp only [hcall, Option.some.injEq, Call.mk.injEq, and_true, forall_eq']
      cases hreg : registerSchema backend invalid now s.table request with
      | error err =>
        refine iff_of_true (hsound.fail i request err) fun hwraps => ?_
        obtain ⟨answer, hok⟩ :=
          exists_registerSchema_of_wrapsAround hwraps.2.1 hwraps.1 hwraps.2.2
        rw [hreg] at hok
        cases hok
      | ok answer =>
        have hr := registerSchema_eq_ok hreg
        refine (sound_stored_iff hadded hsound i hr).trans (not_congr ⟨fun hwraps => ?_, And.left⟩)
        -- The version that wraps around was free, since the row is stored.
        refine ⟨hwraps, hr.accepted, ?_⟩
        have hversion : answer.2.version = minInt32 := by
          obtain ⟨rfl, hmax⟩ := hwraps
          rw [hr.version]
          simp only [nextVersion, hmax, Option.getD_some]
          decide
        simpa [Schema.key, hr.schemaId, hversion] using hr.fresh
    · rename_i hother
      exact iff_of_true hsound fun request hcall => absurd hcall (hother request)
  | answer i =>
    simp only [Service.step, InOrder]
    split
    · rename_i request row hcall
      simp only [hcall, Option.some.injEq, Call.mk.injEq, Progress.stored.injEq, and_imp,
        forall_apply_eq_imp_iff, forall_eq']
      obtain ⟨hrow, -⟩ := hadded.calls _ (List.mem_of_getElem? hcall) row rfl
      have hmem : row ∈ s.table.rows := by
        rw [hadded.rows]
        exact List.mem_append_right _ hrow
      obtain ⟨response, hanswer, hmax⟩ := schemaRegistered_eq_ok hmem
      obtain ⟨added₀, hrows, hgrow⟩ := hsound.grow
      cases List.append_cancel_left (hrows.symm.trans hadded.rows)
      rw [hanswer, Service.answered, sound_answered_iff hadded hsound hcall,
        ← maxVersion_eq_iff hrows hgrow hrow, hmax, Option.some.injEq]
    · rename_i hother
      exact iff_of_true hsound fun request row hcall => absurd hcall (hother request row)

end Steps

/-! ## Section 4: What a run preserves -/

/-- **Registrations**: from any table and for any interleaving of calls, the versions grow and every
answer names the version of the call's own row, in every state reached, exactly when every step of
the run is in order. -/
theorem registrations_sound_iff (backend : Backend) (invalid : String → Option String)
    (initial : SchemaTable) (ops : List CallStep) :
    (∀ xs, xs <+: ops →
      Sound initial.rows (runFrom (Service.step backend invalid) ⟨initial, []⟩ xs)) ↔
      Follows (Service.step backend invalid) (InOrder backend invalid) ⟨initial, []⟩ ops := by
  refine forall_prefix_iff_follows (Service.step backend invalid)
    (fun s => ∃ added, Added initial.rows s added) (Sound initial.rows)
    (fun s op h => ?_) (fun s op h hsound => ?_) ?_ ?_
  · obtain ⟨added, hadded⟩ := h
    exact hadded.step op
  · obtain ⟨added, hadded⟩ := h
    exact sound_step_iff hadded hsound op
  · exact ⟨[], by simp, by simp⟩
  · exact ⟨initial.versions_nodup, ⟨[], by simp, by simp [VersionsGrow]⟩, by simp⟩

/-- Two registrations of one schema id: both commit before the first one reads its metadata. -/
def overtaken : List CallStep :=
  let request : RegisterSchemaRequest := ⟨"order", "Order", "{}", "", "", []⟩
  [.receive request, .receive request, .store 0 1, .store 1 2, .answer 0]

/-- The first caller is told version `2`; its schema is version `1`. -/
theorem not_registrations_sound :
    ¬ ∀ backend invalid initial ops, ∀ xs, xs <+: ops →
      Sound initial.rows (runFrom (Service.step backend invalid) ⟨initial, []⟩ xs) := by
  intro h
  have hsound := h .sqlite (fun _ => none) .empty overtaken overtaken (List.prefix_refl _)
  have hcalls : ∃ call row response,
      call ∈ (runFrom (Service.step .sqlite fun _ => none) ⟨.empty, []⟩ overtaken).calls ∧
        call.progress = .answered row response ∧ response.version ≠ row.version :=
    ⟨_, _, _, List.mem_cons_self, rfl, by decide⟩
  obtain ⟨call, row, response, hcall, hanswered, hversion⟩ := hcalls
  exact hversion (hsound.own call hcall row response hanswered).2.2.2

end Nzovu.Schemas
