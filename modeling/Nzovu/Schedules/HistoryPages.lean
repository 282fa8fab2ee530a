import Mathlib.Data.Prod.Lex
import Nzovu.Repository.DeadLetterPages
import Nzovu.Schedules.Model

/-!
# Reading Through a Schedule's History

Translation of `GetScheduleHistoryPage` and of the codec of its cursor (`history_cursor.go`), and
what a traversal of the history returns while entries are appended.

- Section 1: the cursor.
- Section 2: the table and its pages.
- Section 3: what the pages of a traversal contain.
-/

namespace Nzovu.Schedules

open Nzovu.Foundation
open Nzovu.Repository

/-! ## Section 1: The cursor -/

/-- `EncodeHistoryCursor`. -/
def encodeHistoryCursor (executedAt id : Int) : String :=
  String.ofList (formatInt executedAt ++ ':' :: formatInt id)

/-- `DecodeHistoryCursor`: `(0, 0)` for the empty cursor. -/
def decodeHistoryCursor (cursor : String) : Except String (Int × Int) :=
  if cursor = "" then .ok (0, 0)
  else
    match cursor.toList.splitOn ':' with
    | [time, id] =>
      match parseInt time with
      | none => .error "parse history cursor time"
      | some executedAt =>
        match parseInt id with
        | none => .error "parse history cursor id"
        | some id => .ok (executedAt, id)
    | _ => .error "invalid history cursor"

theorem encodeHistoryCursor_ne_empty (executedAt id : Int) :
    encodeHistoryCursor executedAt id ≠ "" := fun h => by
  have hlist := congrArg String.toList h
  simp [encodeHistoryCursor] at hlist

/-- **Round trip** of the codec, for all 64-bit pairs. -/
theorem decodeHistoryCursor_encodeHistoryCursor {executedAt id : Int} (htime : FitsInt64 executedAt)
    (hid : FitsInt64 id) :
    decodeHistoryCursor (encodeHistoryCursor executedAt id) = .ok (executedAt, id) := by
  have hfields : (formatInt executedAt ++ ':' :: formatInt id).splitOn ':' =
      [formatInt executedAt, formatInt id] := by
    have hcolon := not_mem_formatInt (c := ':') (by decide) (by decide)
    have hparts : ∀ part ∈ [formatInt executedAt, formatInt id], ':' ∉ part := by simp [hcolon]
    have hsplit := List.splitOn_intercalate ':' hparts (by simp)
    simpa [List.intercalate] using hsplit
  simp [decodeHistoryCursor, encodeHistoryCursor, hfields, parseInt_formatInt htime,
    parseInt_formatInt hid]

/-! ## Section 2: The table and its pages -/

/-- `cq_schedule_history`: rows with an AUTOINCREMENT id. Ids and times are 64-bit columns. -/
structure HistoryTable where
  rows : List (Nat × HistoryRow)
  nextId : Nat
  id_lt : ∀ e ∈ rows, e.1 < nextId
  ids_sorted : (rows.map Prod.fst).Pairwise (· < ·)
  fits : ∀ e ∈ rows, FitsInt64 e.1 ∧ FitsInt64 e.2.executedAt

namespace HistoryTable

/-- The table without rows. -/
def empty : HistoryTable := ⟨[], 1, by simp, by simp, by simp⟩

/-- `INSERT INTO cq_schedule_history`; refused when the ids are used up, or for a value that is no
64-bit integer. -/
def insert (t : HistoryTable) (row : HistoryRow) : HistoryTable :=
  if h : FitsInt64 t.nextId ∧ FitsInt64 row.executedAt then
    { rows := t.rows ++ [(t.nextId, row)]
      nextId := t.nextId + 1
      id_lt := by
        intro e he
        rcases List.mem_append.mp he with he | he
        · exact Nat.lt_succ_of_lt (t.id_lt e he)
        · rw [List.mem_singleton.mp he]
          exact Nat.lt_succ_self _
      ids_sorted := by
        rw [List.map_append]
        refine List.pairwise_append.mpr ⟨t.ids_sorted, List.pairwise_singleton _ _, ?_⟩
        intro i hi j hj
        obtain ⟨e, he, rfl⟩ := List.mem_map.mp hi
        rw [List.mem_singleton.mp hj]
        exact t.id_lt e he
      fits := by
        intro e he
        rcases List.mem_append.mp he with he | he
        · exact t.fits e he
        · rw [List.mem_singleton.mp he]
          exact h }
  else t

theorem mem_insert {t : HistoryTable} {row : HistoryRow} {e : Nat × HistoryRow}
    (h : e ∈ t.rows) : e ∈ (t.insert row).rows := by
  unfold insert
  split
  · exact List.mem_append_left _ h
  · exact h

end HistoryTable

/-- What history requests read. A deleted schedule is archived, so a schedule once created stays
known. -/
structure HistoryStore where
  known : List String
  history : HistoryTable

/-- What happens to the store: schedules are created and entries appended. -/
inductive HistoryOperation where
  | create (scheduleId : String)
  | append (row : HistoryRow)

/-- One operation. -/
def HistoryStore.step (s : HistoryStore) : HistoryOperation → HistoryStore
  | .create scheduleId => { s with known := scheduleId :: s.known }
  | .append row => { s with history := s.history.insert row }

/-- `? = '' OR executed_at < ? OR (executed_at = ? AND id < ?)`. -/
def afterHistoryCursor (cursor : String) (cursorTime cursorID : Int) (e : Nat × HistoryRow) :
    Bool :=
  cursor = "" || e.2.executedAt < cursorTime ||
    (e.2.executedAt = cursorTime && (e.1 : Int) < cursorID)

/-- `ORDER BY executed_at DESC, id DESC`. -/
def historyOrder (a b : Nat × HistoryRow) : Bool :=
  b.2.executedAt < a.2.executedAt || (a.2.executedAt = b.2.executedAt && b.1 ≤ a.1)

/-- `GetScheduleHistoryPage`: the executions and the next cursor. -/
def getScheduleHistoryPage (s : HistoryStore) (scheduleId : String) (limit : Int)
    (cursor : String) : Except StorageError (List (Nat × HistoryRow) × String) :=
  if limit < 0 then
    .error ⟨.invalidArgument, "schedule history limit must not be negative"⟩
  else if scheduleId ∉ s.known then
    .error ⟨.notFound, "schedule " ++ scheduleId.quote ++ " not found"⟩
  else
    match decodeHistoryCursor cursor with
    | .error _ => .error ⟨.invalidArgument, "invalid schedule history cursor"⟩
    | .ok (cursorTime, cursorID) =>
      let selected := s.history.rows.filter fun e =>
        e.2.scheduleId = scheduleId && afterHistoryCursor cursor cursorTime cursorID e
      let executions :=
        (selected.insertionSort fun a b => historyOrder a b = true).take (limit + 1).toNat
      if limit = 0 then .ok ([], "")
      else if executions.length ≤ limit.toNat then .ok (executions, "")
      else
        -- The time in the cursor has gone through the timestamp of the execution.
        let next := (executions[limit.toNat - 1]?).map fun e =>
          encodeHistoryCursor (unixMilli (ofUnixMilli e.2.executedAt)) e.1
        .ok (executions.take limit.toNat, next.getD "")

/-- `GetScheduleHistoryRequest`. -/
structure HistoryRequest where
  scheduleId : String
  pageSize : Int
  pageToken : Option PageToken
deriving DecidableEq, Repr

/-- `GetScheduleHistory` of the service. -/
def getScheduleHistory (s : HistoryStore) (request : HistoryRequest) :
    Except StorageError (List (Nat × HistoryRow) × Option PageToken) :=
  if request.scheduleId = "" then .error ⟨.invalidArgument, "schedule id is required"⟩
  else do
    let (size, cursor) ← positionPageRequest request.pageSize request.pageToken "schedule-history"
      request.scheduleId
    let (executions, nextCursor) ← getScheduleHistoryPage s request.scheduleId size cursor
    let nextToken ← positionPageToken "schedule-history" request.scheduleId nextCursor
    pure (executions, nextToken)

/-! ## Section 3: What the pages of a traversal contain -/

/-- The place of an entry in `ORDER BY executed_at DESC, id DESC`. -/
def historyKey (e : Nat × HistoryRow) : Intᵒᵈ ×ₗ Intᵒᵈ :=
  toLex (OrderDual.toDual e.2.executedAt, OrderDual.toDual (e.1 : Int))

/-- An entry comes before another in history order. -/
def HistoryBefore (a b : Nat × HistoryRow) : Prop :=
  b.2.executedAt < a.2.executedAt ∨ (a.2.executedAt = b.2.executedAt ∧ b.1 < a.1)

theorem historyKey_lt {a b : Nat × HistoryRow} :
    historyKey a < historyKey b ↔ HistoryBefore a b := by
  simp only [historyKey, Prod.Lex.toLex_lt_toLex, OrderDual.toDual_lt_toDual, OrderDual.toDual_inj,
    Nat.cast_lt, HistoryBefore]

theorem historyOrder_eq_true {a b : Nat × HistoryRow} :
    historyOrder a b = true ↔ historyKey a ≤ historyKey b := by
  rw [← not_lt, historyKey_lt]
  simp only [historyOrder, HistoryBefore, Bool.or_eq_true, Bool.and_eq_true, decide_eq_true_eq]
  omega

/-- The key a cursor names; the empty cursor names none. -/
def HistoryCursorKey (cursor : String) (key : Option (Intᵒᵈ ×ₗ Intᵒᵈ)) : Prop :=
  (cursor = "" ∧ key = none) ∨ ∃ e : Nat × HistoryRow,
    FitsInt64 e.1 ∧ FitsInt64 e.2.executedAt ∧ cursor = encodeHistoryCursor e.2.executedAt e.1 ∧
      key = some (historyKey e)

/-- One request of a traversal, with the page size it asks for. -/
def historyRequest (scheduleId : String) (s : HistoryStore) (requested : Int)
    (token : Option PageToken) : Except StorageError (List (Nat × HistoryRow) × Option PageToken) :=
  getScheduleHistory s ⟨scheduleId, requested, token⟩

/-- The entries of a schedule. -/
def historyView (scheduleId : String) (s : HistoryStore) (_ : Int) : List (Nat × HistoryRow) :=
  s.history.rows.filter fun e => e.2.scheduleId = scheduleId

section Traversal

variable {scheduleId : String} {s : HistoryStore} {requested : Int}
  {token next : Option PageToken} {executions : List (Nat × HistoryRow)}

/-- The condition on the cursor selects the entries behind the key it names. -/
theorem HistoryCursorKey.decode {cursor : String} {key : Option (Intᵒᵈ ×ₗ Intᵒᵈ)}
    (h : HistoryCursorKey cursor key) : ∃ time id, decodeHistoryCursor cursor = .ok (time, id) ∧
      ∀ e, afterHistoryCursor cursor time id e = true ↔ Beyond key (historyKey e) := by
  rcases h with ⟨rfl, rfl⟩ | ⟨last, hid, htime, rfl, rfl⟩
  · exact ⟨0, 0, rfl, fun e => by simp [afterHistoryCursor]⟩
  · refine ⟨_, _, decodeHistoryCursor_encodeHistoryCursor htime hid, fun e => ?_⟩
    simp only [afterHistoryCursor, encodeHistoryCursor_ne_empty, decide_false, Bool.false_or,
      Bool.or_eq_true, Bool.and_eq_true, decide_eq_true_eq, beyond_some, historyKey_lt,
      HistoryBefore, Nat.cast_lt]
    tauto

/-- The statement of `GetScheduleHistoryPage` reads a keyset page. -/
theorem getScheduleHistoryPage_eq (requested : Int) {limit : Int} {cursor : String}
    {key : Option (Intᵒᵈ ×ₗ Intᵒᵈ)} (hlimit : 0 < limit) (hcursor : HistoryCursorKey cursor key)
    {nextCursor : String}
    (h : getScheduleHistoryPage s scheduleId limit cursor = .ok (executions, nextCursor)) :
    ∃ key', page historyKey key limit.toNat (historyView scheduleId s requested) =
      (executions, key') ∧ HistoryCursorKey nextCursor key' := by
  obtain ⟨time, id, hdecode, hafter⟩ := hcursor.decode
  have hselected : (historyView scheduleId s requested).filter
      (fun e => Beyond key (historyKey e)) = s.history.rows.filter fun e =>
        e.2.scheduleId = scheduleId && afterHistoryCursor cursor time id e := by
    rw [historyView, List.filter_filter]
    refine List.filter_congr fun e _ => Bool.eq_iff_iff.mpr ?_
    simp only [Bool.and_eq_true, decide_eq_true_eq, ← hafter e]
    tauto
  have hsorted : ∀ items : List (Nat × HistoryRow),
      (items.insertionSort fun a b => historyOrder a b = true) =
        items.insertionSort fun a b => historyKey a ≤ historyKey b :=
    insertionSort_congr fun a b => historyOrder_eq_true
  have hsucc : (limit + 1).toNat = limit.toNat + 1 := by omega
  simp only [getScheduleHistoryPage, if_neg (not_lt.mpr hlimit.le), if_neg hlimit.ne', hdecode,
    hsucc, hsorted] at h
  simp only [page, remaining, hselected]
  split at h
  · cases h
  · generalize hfound : ((s.history.rows.filter fun e =>
      e.2.scheduleId = scheduleId && afterHistoryCursor cursor time id e).insertionSort
        fun a b => historyKey a ≤ historyKey b).take (limit.toNat + 1) = found at h ⊢
    split at h
    · rename_i hlength
      cases h
      exact ⟨none, by simp [hlength], .inl ⟨rfl, rfl⟩⟩
    · rename_i hlength
      have hlt : limit.toNat - 1 < found.length := by omega
      have hmem : found[limit.toNat - 1] ∈ found := List.getElem_mem hlt
      generalize hlast : found[limit.toNat - 1] = last at hmem
      have hget : found[limit.toNat - 1]? = some last := by
        rw [List.getElem?_eq_getElem hlt, hlast]
      have hrow := (List.mem_insertionSort _).mp (List.mem_of_mem_take (hfound ▸ hmem))
      obtain ⟨hid, htime⟩ := s.history.fits last (List.mem_filter.mp hrow).1
      rw [hget] at h
      cases h
      refine ⟨some (historyKey last), by simp [hlength, hget], .inr ⟨last, hid, htime, ?_, rfl⟩⟩
      simp

/-- A token stands for the key its cursor names. -/
def HistoryResumes (scheduleId : String) (token : Option PageToken)
    (key : Option (Intᵒᵈ ×ₗ Intᵒᵈ)) : Prop :=
  ∃ cursor, positionPageToken "schedule-history" scheduleId cursor = .ok token ∧
    HistoryCursorKey cursor key

/-- What an answered request has checked and read. -/
theorem historyRequest_eq_ok {cursor : String}
    (htoken : positionPageToken "schedule-history" scheduleId cursor = .ok token)
    (h : historyRequest scheduleId s requested token = .ok (executions, next)) :
    scheduleId ≠ "" ∧ ∃ size nextCursor, pageSize requested = .ok size ∧
      getScheduleHistoryPage s scheduleId size cursor = .ok (executions, nextCursor) ∧
      positionPageToken "schedule-history" scheduleId nextCursor = .ok next := by
  simp only [historyRequest, getScheduleHistory] at h
  split at h
  · cases h
  · rename_i hname
    cases hsize : pageSize requested with
    | error text => simp [positionPageRequest, hsize, invalidPage, bind, Except.bind] at h
    | ok size =>
      rw [positionPageRequest_positionPageToken hsize htoken] at h
      simp only [bind, Except.bind] at h
      split at h
      · cases h
      · rename_i answer hpage
        split at h
        · cases h
        · rename_i nextToken hnext
          cases h
          exact ⟨hname, size, answer.2, rfl, hpage, hnext⟩

/-- Entries stay as they were appended. -/
theorem HistoryStore.mem_runFrom {e : Nat × HistoryRow} (h : e ∈ s.history.rows)
    (ops : List HistoryOperation) : e ∈ (runFrom HistoryStore.step s ops).history.rows := by
  refine invariant_runFrom' HistoryStore.step (fun s => e ∈ s.history.rows) (fun s op h => ?_) h ops
  cases op with
  | create scheduleId => exact h
  | append row =>
    show e ∈ (s.history.insert row).rows
    exact HistoryTable.mem_insert h

/-- The history is served in keyset pages. An entry never changes, so it is its own name. -/
theorem history_servesPages (scheduleId : String) :
    ServesPages HistoryStore.step (historyRequest scheduleId) (fun _ => True) historyKey id
      (historyView scheduleId) (HistoryResumes scheduleId) where
  keeps _ _ _ := trivial
  page {s requested token key executions next} _ hresumes h := by
    obtain ⟨cursor, htoken, hcursor⟩ := hresumes
    obtain ⟨-, size, nextCursor, hsize, hpage, hnext⟩ := historyRequest_eq_ok htoken h
    have hpos := pageSize_pos hsize
    obtain ⟨key', hkeyset, hcursor'⟩ :=
      getScheduleHistoryPage_eq requested hpos hcursor hpage
    refine ⟨size.toNat, key', by omega, hkeyset, fun hnone => ?_, fun t hsome => ?_⟩
    · rcases hcursor' with ⟨-, hkey⟩ | ⟨last, -, -, hlast, -⟩
      · exact hkey
      · have hempty := (positionPageToken_none hnext).mp hnone
        exact absurd (hlast.symm.trans hempty) (encodeHistoryCursor_ne_empty _ _)
    · rcases id hcursor' with ⟨hempty, -⟩ | ⟨last, -, -, -, hkey⟩
      · cases hsome.symm.trans ((positionPageToken_none hnext).mpr hempty)
      · exact ⟨_, hkey, nextCursor, hsome ▸ hnext, hkey ▸ hcursor'⟩
  keys s requested _ := by
    refine List.pairwise_map.mpr ?_
    have hids := (List.pairwise_map.mp s.history.ids_sorted).filter fun e =>
      e.2.scheduleId = scheduleId
    refine hids.imp fun {a b} hlt heq => ?_
    have hsnd := congrArg (fun k => OrderDual.ofDual (ofLex k).2) heq
    simp only [historyKey, ofLex_toLex, OrderDual.ofDual_toDual, Nat.cast_inj] at hsnd
    omega
  stable _ _ _ _ _ a _ b _ hab := congrArg historyKey hab

theorem historyRequest_checked {answer : List (Nat × HistoryRow) × Option PageToken}
    (h : historyRequest scheduleId s requested token = .ok answer) : scheduleId ≠ "" := by
  simp only [historyRequest, getScheduleHistory] at h
  split at h
  · cases h
  · assumption

/-- A request with a token of the traversal is answered as long as the schedule is known. -/
theorem historyRequest_answered {cursor : String} {key : Option (Intᵒᵈ ×ₗ Intᵒᵈ)}
    (hname : scheduleId ≠ "") (hknown : scheduleId ∈ s.known) (hlow : 0 ≤ requested)
    (hhigh : requested ≤ maxPageSize)
    (htoken : positionPageToken "schedule-history" scheduleId cursor = .ok token)
    (hcursor : HistoryCursorKey cursor key) :
    ∃ answer, historyRequest scheduleId s requested token = .ok answer := by
  obtain ⟨size, hsize⟩ := exists_pageSize hlow hhigh
  have hpos := pageSize_pos hsize
  obtain ⟨time, id, hdecode, -⟩ := hcursor.decode
  obtain ⟨⟨found, nextCursor⟩, hpage⟩ :
      ∃ answer, getScheduleHistoryPage s scheduleId size cursor = .ok answer := by
    simp only [getScheduleHistoryPage, if_neg (not_lt.mpr hpos.le), if_neg hpos.ne', hknown,
      not_true_eq_false, if_false, hdecode]
    split <;> exact ⟨_, rfl⟩
  obtain ⟨nextToken, hnext⟩ := exists_positionPageToken "schedule-history" scheduleId nextCursor
  refine ⟨(found, nextToken), ?_⟩
  simp only [historyRequest, getScheduleHistory, if_neg hname, bind, Except.bind, hpage, hnext,
    positionPageRequest_positionPageToken hsize htoken]
  rfl

/-- **History traversal**: with any schedules created and any entries appended between the
requests, whatever their times, the pages hold entries strictly latest first, and once no token is
returned they hold every entry of the first request exactly once; and a returned token is answered
as long as the schedule is known. -/
theorem historyTraversal (scheduleId : String) (s : HistoryStore)
    {visits : List (HistoryStore × Int)}
    (h : Paging HistoryStore.step (historyRequest scheduleId) s none visits executions next) :
    executions.Pairwise HistoryBefore ∧
      (next = none → ∀ first ∈ visits.head?, ∀ e ∈ first.1.history.rows,
        e.2.scheduleId = scheduleId → executions.count e = 1) ∧
      ∀ token, next = some token → ∀ later requested, 0 ≤ requested → requested ≤ maxPageSize →
        scheduleId ∈ later.known →
        ∃ answer, historyRequest scheduleId later requested (some token) = .ok answer := by
  have hserves := history_servesPages scheduleId
  have hstart : HistoryResumes scheduleId none none := ⟨"", rfl, .inl ⟨rfl, rfl⟩⟩
  obtain ⟨horder, -, hcount⟩ := hserves.exact trivial hstart h
  rw [List.map_id] at hcount
  refine ⟨horder.imp fun hlt => historyKey_lt.mp hlt, fun hnone first hfirst e he hid => ?_,
    fun token hnext later requested hlow hhigh hknown => ?_⟩
  · refine hcount hnone e fun v hv =>
      ⟨e, List.mem_filter.mpr ⟨?_, by simp [hid]⟩, rfl, beyond_none _⟩
    -- Every later request meets what the first one met.
    cases visits with
    | nil => cases hfirst
    | cons head rest =>
      cases hfirst
      rcases List.mem_cons.mp hv with rfl | hv
      · exact he
      · obtain ⟨ops, hops⟩ := (List.pairwise_cons.mp h.reached.2).1 v hv
        exact hops ▸ HistoryStore.mem_runFrom he ops
  · obtain ⟨_, cursor, htoken, hcursor⟩ := hserves.resumes_next trivial hstart h hnext
    obtain ⟨_, _, _, _, hanswered⟩ := h.answered
    exact historyRequest_answered (historyRequest_checked hanswered) hknown hlow hhigh htoken
      hcursor

end Traversal

/-- **Pages of the history and of dead letter queues**: the cursor of the history is read back for
all 64-bit pairs, and traversals of both lose and repeat nothing. -/
theorem pages_exact :
    (∀ executedAt id, FitsInt64 executedAt → FitsInt64 id →
      decodeHistoryCursor (encodeHistoryCursor executedAt id) = .ok (executedAt, id)) ∧
    (∀ scheduleId s visits executions next,
      Paging HistoryStore.step (historyRequest scheduleId) s none visits executions next →
      executions.Pairwise HistoryBefore ∧
        (next = none → ∀ first ∈ visits.head?, ∀ e ∈ first.1.history.rows,
          e.2.scheduleId = scheduleId → executions.count e = 1)) ∧
    ∀ dlqName past visits messages next,
      Paging System.step (dlqRequest dlqName) (System.run past) none visits messages next →
      (messages.map Prod.fst).Pairwise (· > ·) ∧
        (next = none → ∀ i : Nat, (i : Int) < maxInt64 →
          (∀ v ∈ visits, ∃ row, (i, row) ∈ v.1.db.messages.rows ∧
            deadLettered dlqName row = true) → (messages.map Prod.fst).count i = 1) := by
  refine ⟨fun executedAt id htime hid => decodeHistoryCursor_encodeHistoryCursor htime hid,
    fun scheduleId s visits executions next h => ?_, fun dlqName past visits messages next h => ?_⟩
  · obtain ⟨horder, hcomplete, -⟩ := historyTraversal scheduleId s h
    exact ⟨horder, hcomplete⟩
  · obtain ⟨horder, hcomplete, -⟩ := dlqTraversal dlqName past h
    exact ⟨horder, hcomplete⟩

/-- Two entries of one time. -/
def sameTime : HistoryStore :=
  let first := HistoryTable.empty.insert ⟨"s", "a", 7, true, none⟩
  ⟨["s"], first.insert ⟨"s", "b", 7, true, none⟩⟩

/-- An older and a newer entry arrive between two pages, of which only the older one is still to
come; and a message in the dead letter queue is the only one of its page. -/
theorem pages_exact_sameTime :
    decodeHistoryCursor (encodeHistoryCursor minInt64 maxInt64) = .ok (minInt64, maxInt64) ∧
      (∃ visits executions next,
        Paging HistoryStore.step (historyRequest "s") sameTime none visits executions next ∧
          executions.Pairwise HistoryBefore ∧ executions.map Prod.fst = [2, 1, 3]) ∧
      ∃ visits messages,
        Paging System.step (dlqRequest "jobs_dlq") (deadJob 2) none visits messages none ∧
          (messages.map Prod.fst).count 2 = 1 := by
  obtain ⟨hcodec, hhistory, hdlq⟩ := pages_exact
  refine ⟨hcodec _ _ (by decide) (by decide), ?_, ?_⟩
  · have h : Paging HistoryStore.step (historyRequest "s") sameTime none _ _ _ :=
      .more [] 1 rfl (.page [.append ⟨"s", "old", -5, true, none⟩,
        .append ⟨"s", "new", 9, true, none⟩] 2 rfl)
    exact ⟨_, _, _, h, (hhistory _ _ _ _ _ h).1, rfl⟩
  · obtain ⟨past, hpast⟩ := exists_run_deadJob 0
    have h : Paging System.step (dlqRequest "jobs_dlq") (deadJob 2) none _ _ none :=
      .page [] ⟨0, 0⟩ rfl
    let row := ((deadJob 2).db.messages.rows.head (by decide)).2
    have hpages := hdlq "jobs_dlq" past
    rw [hpast] at hpages
    refine ⟨_, _, h, (hpages _ _ _ h).2 rfl 2 (by decide) ?_⟩
    exact List.forall_mem_singleton.mpr ⟨row, by decide, by decide⟩

end Nzovu.Schedules
