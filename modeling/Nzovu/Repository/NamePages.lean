import Mathlib.Data.String.Basic
import Nzovu.Repository.Paging

/-!
# Lists in the Order of Names

Queues, schedules and schemas are listed in pages in the order of their names, each page behind the
last name of the one before. SQLite orders texts by their bytes and Postgres by the collation of the
database; `collate` maps a text to its place in that order.

- Section 1: pages by name.
- Section 2: what a traversal of such pages returns.
- Section 3: queues.
-/

namespace Nzovu.Repository

open Nzovu.Foundation

/-! ## Section 1: Pages by name -/

section Pages

variable {α β κ : Type} [LinearOrder κ] (collate : String → κ) (name : α → String)

/-- `… AND name > ? ORDER BY name LIMIT ?` on the selected rows, with one row more than the limit,
and the cut after the limit: the rows of the page, and the last name if any are left. -/
def namePage (rows : List α) (limit : Int) (cursor : String) : List α × String :=
  let found := ((rows.filter fun row => collate cursor < collate (name row)).insertionSort
    fun a b => collate (name a) ≤ collate (name b)).take (limit + 1).toNat
  if found.length ≤ limit.toNat then (found, "")
  else
    let items := found.take limit.toNat
    (items, ((items.getLast?).map name).getD "")

/-- What the database promises of its order of texts: different texts have different places, and the
empty text comes first. -/
structure Collates : Prop where
  injective : Function.Injective collate
  empty_le : ∀ text, collate "" ≤ collate text

variable {collate name}

theorem Collates.empty_lt (h : Collates collate) {text : String} (hne : text ≠ "") :
    collate "" < collate text :=
  lt_of_le_of_ne (h.empty_le text) fun heq => hne (h.injective heq).symm

/-- A page by name is a keyset page, and the cursor it returns is the last name. -/
theorem namePage_eq (hcollate : Collates collate) (rows : List α) {limit : Int} (cursor : String)
    (hlimit : 0 < limit) :
    ∃ items next, namePage collate name rows limit cursor = (items, next) ∧
      ((page (collate ∘ name) (some (collate cursor)) limit.toNat rows = (items, none) ∧
          next = "") ∨
        (page (collate ∘ name) (some (collate cursor)) limit.toNat rows =
            (items, some (collate next)) ∧ next ≠ "")) := by
  have hsucc : (limit + 1).toNat = limit.toNat + 1 := by omega
  simp only [namePage, page, remaining, beyond_some, Function.comp_apply, hsucc]
  generalize hfound : ((rows.filter fun row => collate cursor < collate (name row)).insertionSort
    fun a b => collate (name a) ≤ collate (name b)).take (limit.toNat + 1) = found
  by_cases hlength : found.length ≤ limit.toNat
  · exact ⟨found, "", if_pos hlength, .inl ⟨if_pos hlength, rfl⟩⟩
  · have hlt : limit.toNat - 1 < found.length := by omega
    obtain ⟨last, hget⟩ : ∃ last, found[limit.toNat - 1]? = some last :=
      ⟨_, List.getElem?_eq_getElem hlt⟩
    have hlast : (found.take limit.toNat).getLast? = some last := by
      rw [List.getLast?_eq_getElem?, List.length_take, min_eq_left (by omega),
        List.getElem?_take_of_lt (by omega), hget]
    have hmem : last ∈ found := List.mem_of_getElem? hget
    rw [← hfound] at hmem
    obtain ⟨-, hbehind⟩ :=
      List.mem_filter.mp ((List.mem_insertionSort _).mp (List.mem_of_mem_take hmem))
    refine ⟨found.take limit.toNat, name last, ?_, .inr ⟨?_, fun hempty => ?_⟩⟩
    · rw [if_neg hlength, hlast]
      rfl
    · rw [if_neg hlength, hget]
      rfl
    · -- a row behind the cursor has a name
      rw [hempty] at hbehind
      exact absurd (of_decide_eq_true hbehind) (not_lt.mpr (hcollate.empty_le cursor))

/-- Rows may be turned into answers before or after they are paged. -/
theorem namePage_map (f : β → α) (rows : List β) (limit : Int) (cursor : String) :
    namePage collate name (rows.map f) limit cursor =
      ((namePage collate (name ∘ f) rows limit cursor).1.map f,
        (namePage collate (name ∘ f) rows limit cursor).2) := by
  have hfound : ((rows.map f).filter fun row => collate cursor < collate (name row)).insertionSort
      (fun a b => collate (name a) ≤ collate (name b)) =
      ((rows.filter fun row => collate cursor < collate (name (f row))).insertionSort
        fun a b => collate (name (f a)) ≤ collate (name (f b))).map f := by
    rw [List.filter_map]
    exact (List.map_insertionSort _ _ f _ fun _ _ _ _ => Iff.rfl).symm
  simp only [namePage, hfound, ← List.map_take, List.length_map, List.getLast?_map,
    Function.comp_apply, Option.map_map, Function.comp_def]
  split <;> rfl

end Pages

/-! ## Section 2: Traversals -/

/-- A request for a page by name: the form of `ListQueues`, `ListSchedules` and `ListSchemas`. -/
def nameRequest {α : Type} (scope filter : String) (pageOf : Int → String → List α × String)
    (requested : Int) (token : Option PageToken) :
    Except StorageError (List α × Option PageToken) := do
  let (size, cursor) ← positionPageRequest requested token scope filter
  let (items, nextCursor) := pageOf size cursor
  let next ← positionPageToken scope filter nextCursor
  pure (items, next)

/-- A token stands for the name the next page starts behind. -/
def NameResumes {κ : Type} (collate : String → κ) (scope filter : String)
    (token : Option PageToken) (cursor : Option κ) : Prop :=
  ∃ position, positionPageToken scope filter position = .ok token ∧
    cursor = some (collate position)

section Traversals

variable {α κ σ δ : Type} [LinearOrder κ] {collate : String → κ} {name : α → String}
  {scope filter : String} {requested : Int} {token next : Option PageToken} {items : List α}
  {step : σ → δ → σ} {view : σ → List α}

/-- What an answered request has read. -/
theorem nameRequest_eq_ok {pageOf : Int → String → List α × String} {position : String}
    (htoken : positionPageToken scope filter position = .ok token)
    (h : nameRequest scope filter pageOf requested token = .ok (items, next)) :
    ∃ size nextPosition, pageSize requested = .ok size ∧
      pageOf size position = (items, nextPosition) ∧
      positionPageToken scope filter nextPosition = .ok next := by
  cases hsize : pageSize requested with
  | error text => simp [nameRequest, positionPageRequest, hsize, invalidPage, bind, Except.bind] at h
  | ok size =>
    simp only [nameRequest, positionPageRequest_positionPageToken hsize htoken, bind,
      Except.bind] at h
    split at h
    · cases h
    · rename_i nextToken hnext
      cases h
      exact ⟨size, _, rfl, rfl, hnext⟩

/-- A request with a returned token is answered. -/
theorem nameRequest_answered {pageOf : Int → String → List α × String} {position : String}
    (htoken : positionPageToken scope filter position = .ok token) (hlow : 0 ≤ requested)
    (hhigh : requested ≤ maxPageSize) :
    ∃ answer, nameRequest scope filter pageOf requested token = .ok answer := by
  obtain ⟨size, hsize⟩ := exists_pageSize hlow hhigh
  obtain ⟨nextToken, hnext⟩ := exists_positionPageToken scope filter (pageOf size position).2
  refine ⟨((pageOf size position).1, nextToken), ?_⟩
  simp only [nameRequest, positionPageRequest_positionPageToken hsize htoken, bind, Except.bind,
    hnext]
  rfl

/-- Only pages of a positive size are asked for. -/
theorem nameRequest_congr {f g : Int → String → List α × String}
    (h : ∀ limit cursor, 0 < limit → f limit cursor = g limit cursor) :
    nameRequest scope filter f requested token = nameRequest scope filter g requested token := by
  cases hsize : pageSize requested with
  | error text => simp [nameRequest, positionPageRequest, hsize, invalidPage, bind, Except.bind]
  | ok size =>
    cases hposition : decodePosition token scope filter with
    | error text =>
      simp [nameRequest, positionPageRequest, hsize, hposition, invalidPage, bind, Except.bind]
    | ok cursor =>
      simp only [nameRequest, positionPageRequest, hsize, hposition, invalidPage, bind,
        Except.bind, pure, Except.pure, h size cursor (pageSize_pos hsize)]

variable (step view) in
/-- Rows with different names are served in keyset pages, whatever happens between the requests. -/
theorem names_servesPages (scope filter : String) (hcollate : Collates collate)
    (hnames : ∀ s, ((view s).map name).Nodup) :
    ServesPages step
      (fun s requested token => nameRequest scope filter (namePage collate name (view s))
        requested token)
      (fun _ => True) (collate ∘ name) name (fun s (_ : Int) => view s)
      (NameResumes collate scope filter) where
  keeps _ _ _ := trivial
  page {s requested token cursor items next} _ hresumes h := by
    obtain ⟨position, htoken, rfl⟩ := hresumes
    obtain ⟨size, nextPosition, hsize, hpage, hnext⟩ := nameRequest_eq_ok htoken h
    have hpos := pageSize_pos hsize
    obtain ⟨found, nextName, hfound, hkeyset⟩ :=
      @namePage_eq _ _ _ collate name hcollate (view s) size position hpos
    cases hpage.symm.trans hfound
    rcases hkeyset with ⟨hkeyset, rfl⟩ | ⟨hkeyset, hne⟩
    · exact ⟨size.toNat, none, by omega, hkeyset, fun _ => rfl, fun t hsome => by
        cases hsome.symm.trans ((positionPageToken_none hnext).mpr rfl)⟩
    · exact ⟨size.toNat, _, by omega, hkeyset,
        fun hnone => absurd ((positionPageToken_none hnext).mp hnone) hne,
        fun t hsome => ⟨_, rfl, _, hsome ▸ hnext, rfl⟩⟩
  keys s _ _ := by
    rw [← List.map_map]
    exact (hnames s).map hcollate.injective
  stable _ _ _ _ _ _ _ _ _ hab := congrArg collate hab

/-- **Traversal by name**: whatever happens between the requests, the items come in the order of
their names, none twice, each as it was at one of the requests; once no token is returned, every
name that was there at each request came exactly once; and a returned token is always answered. -/
theorem nameTraversal (hcollate : Collates collate) (hnames : ∀ s, ((view s).map name).Nodup)
    {s : σ} {visits : List (σ × Int)}
    (h : Paging step (fun s requested token => nameRequest scope filter
      (namePage collate name (view s)) requested token) s none visits items next) :
    items.Pairwise (fun a b => collate (name a) < collate (name b)) ∧ (items.map name).Nodup ∧
      (∀ a ∈ items, ∃ v ∈ visits, a ∈ view v.1) ∧
      (next = none → ∀ n, n ≠ "" → (∀ v ∈ visits, ∃ a ∈ view v.1, name a = n) →
        (items.map name).count n = 1) ∧
      ∀ token, next = some token → ∀ (pageOf : Int → String → List α × String) (requested : Int),
        0 ≤ requested → requested ≤ maxPageSize →
          ∃ answer, nameRequest scope filter pageOf requested (some token) = .ok answer := by
  have hserves := names_servesPages step view scope filter hcollate hnames
  have hstart : NameResumes collate scope filter none (some (collate "")) := ⟨"", rfl, rfl⟩
  obtain ⟨horder, hnodup, hcount⟩ := hserves.exact trivial hstart h
  obtain ⟨last, htraversal, -⟩ := hserves.traversal trivial hstart h
  refine ⟨horder, hnodup, fun a ha => ?_, fun hnone n hne hstays => ?_,
    fun token hnext pageOf requested hlow hhigh => ?_⟩
  · obtain ⟨rows, hrows, hmem⟩ := htraversal.mem_view a ha
    obtain ⟨v, hv, rfl⟩ := List.mem_map.mp hrows
    exact ⟨v, hv, hmem⟩
  · refine hcount hnone n fun v hv => ?_
    obtain ⟨a, ha, rfl⟩ := hstays v hv
    exact ⟨a, ha, rfl, beyond_some.mpr (hcollate.empty_lt hne)⟩
  · obtain ⟨_, position, htoken, -⟩ := hserves.resumes_next trivial hstart h hnext
    exact nameRequest_answered htoken hlow hhigh

end Traversals

/-! ## Section 3: Queues -/

/-- `instr(name, ?) = 1`. -/
def hasNamePrefix (namePrefix name : String) : Bool := namePrefix.toList.isPrefixOf name.toList

/-- `cq_queues` with the names that have the prefix, as the queues their metadata decode to. -/
def listedQueues (namePrefix : String) (s : System) : List Queue :=
  ((s.db.queues.rows.map Prod.snd).filter fun row => hasNamePrefix namePrefix row.name).map
    fun row => ⟨row.name, row.metadata⟩

section Queues

variable {κ : Type} [LinearOrder κ] (collate : String → κ)

/-- `ListQueuesPage`. -/
def listQueuesPage (db : Database) (namePrefix : String) (limit : Int) (cursor : String) :
    List Queue × String :=
  if limit ≤ 0 then ([], "")
  else
    let rows := (db.queues.rows.map Prod.snd).filter fun row => hasNamePrefix namePrefix row.name
    let (rows, nextCursor) := namePage collate QueueRow.name rows limit cursor
    (rows.map fun row => ⟨row.name, row.metadata⟩, nextCursor)

/-- `ListQueuesRequest`. -/
structure ListQueuesRequest where
  namePrefix : String
  pageSize : Int
  pageToken : Option PageToken
deriving DecidableEq, Repr

/-- `ListQueues`. -/
def listQueues (db : Database) (request : ListQueuesRequest) :
    Except StorageError (List Queue × Option PageToken) :=
  nameRequest "queues" request.namePrefix (listQueuesPage collate db request.namePrefix)
    request.pageSize request.pageToken

variable {collate}

theorem listQueues_eq (s : System) (namePrefix : String) (requested : Int)
    (token : Option PageToken) :
    listQueues collate s.db ⟨namePrefix, requested, token⟩ =
      nameRequest "queues" namePrefix
        (namePage collate Queue.name (listedQueues namePrefix s)) requested token :=
  nameRequest_congr fun limit cursor hlimit => by
    rw [listQueuesPage, if_neg (not_le.mpr hlimit), listedQueues, namePage_map]
    rfl

theorem listedQueues_nodup (namePrefix : String) (s : System) :
    ((listedQueues namePrefix s).map Queue.name).Nodup := by
  have hnames : ((s.db.queues.rows.map Prod.snd).map QueueRow.name).Nodup := by
    rw [List.map_map]
    exact s.db.queues.keys_nodup
  rw [listedQueues, List.map_map]
  exact hnames.sublist (List.filter_sublist.map QueueRow.name)

/-- **Queue traversal**: with any operations between the requests, the pages of `ListQueues` hold
queues in the order of their names, each as it was at one of the requests; once no token is returned
they hold every queue that was there at each request, and has the prefix, exactly once; and a
returned token is always answered. -/
theorem queueTraversal (hcollate : Collates collate) (namePrefix : String) (past : List Operation)
    {visits : List (System × Int)} {queues : List Queue} {next : Option PageToken}
    (h : Paging System.step (fun s requested token =>
      listQueues collate s.db ⟨namePrefix, requested, token⟩) (System.run past) none visits queues
        next) :
    queues.Pairwise (fun a b => collate a.name < collate b.name) ∧
      (∀ queue ∈ queues, ∃ v ∈ visits, queue ∈ listedQueues namePrefix v.1) ∧
      (next = none → ∀ name, name ≠ "" → hasNamePrefix namePrefix name = true →
        (∀ v ∈ visits, v.1.db.queues.hasKey name = true) →
          (queues.map Queue.name).count name = 1) ∧
      ∀ token, next = some token → ∀ later requested, 0 ≤ requested → requested ≤ maxPageSize →
        ∃ answer, listQueues collate later ⟨namePrefix, requested, some token⟩ = .ok answer := by
  simp only [listQueues_eq] at h
  obtain ⟨horder, -, hmet, hcomplete, hanswered⟩ :=
    nameTraversal hcollate (listedQueues_nodup namePrefix) h
  refine ⟨horder, hmet, fun hnone name hne hprefix hstays => hcomplete hnone name hne fun v hv => ?_,
    fun token hnext later requested hlow hhigh =>
      hanswered token hnext (listQueuesPage collate later namePrefix) requested hlow hhigh⟩
  -- the queue of that name is selected
  obtain ⟨e, he, rfl⟩ := Table.hasKey_eq_true.mp (hstays v hv)
  have hmem : e.2 ∈ (v.1.db.queues.rows.map Prod.snd).filter fun row =>
      hasNamePrefix namePrefix row.name :=
    List.mem_filter.mpr ⟨List.mem_map.mpr ⟨e, he, rfl⟩, hprefix⟩
  exact ⟨⟨e.2.name, e.2.metadata⟩, List.mem_map.mpr ⟨e.2, hmem, rfl⟩, rfl⟩

/-- The order of the characters. -/
theorem collates_toList : Collates String.toList :=
  ⟨fun _ _ h => String.toList_injective h, fun _ => not_lt.mp (List.not_lt_nil _)⟩

/-- A queue is created behind the first page, and comes with the second one. -/
theorem queueTraversal_created :
    ∃ (visits : List (System × Int)) (queues : List Queue),
      Paging System.step (fun s requested token =>
        listQueues String.toList s.db ⟨"", requested, token⟩)
          (System.run [.createQueue "jobs" {}, .createQueue "orders" {}]) none visits queues none ∧
      queues.Pairwise (fun a b => a.name.toList < b.name.toList) ∧
      queues.map Queue.name = ["jobs", "mails", "orders"] ∧
      (queues.map Queue.name).count "orders" = 1 := by
  have h : Paging System.step (fun s requested token =>
      listQueues String.toList s.db ⟨"", requested, token⟩)
        (System.run [.createQueue "jobs" {}, .createQueue "orders" {}]) none _ _ none :=
    .more [] (1 : Int) rfl (.page [.createQueue "mails" {}] (2 : Int) rfl)
  obtain ⟨horder, -, hcomplete, -⟩ := queueTraversal collates_toList "" _ h
  refine ⟨_, _, h, horder, by decide, hcomplete rfl "orders" (by decide) (by decide) fun v hv => ?_⟩
  rcases List.mem_cons.mp hv with rfl | hv
  · decide
  · rw [List.mem_singleton.mp hv]
    decide

end Queues

end Nzovu.Repository
