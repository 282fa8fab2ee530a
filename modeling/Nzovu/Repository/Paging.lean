import Nzovu.Foundation.Decimal
import Nzovu.Foundation.Keyset
import Nzovu.Repository.System

/-!
# Pages of Messages

Translation of `internal/pagination`, of `PeekMessagesPage` and `GetDLQMessagesPage`, and of the
requests that call them. A page token is the base64 text of a JSON object; the model keeps the
object (`PageToken`) and writes `none` for the empty text.

A page holds the scanned rows with their ids; what a response shows of a row is its message.

- Section 1: page tokens.
- Section 2: peeking at a queue.
- Section 3: the dead letter queue.
- Section 4: what a token stands for.
- Section 5: what paging relies on in every reachable state.
-/

namespace Nzovu.Repository

open Nzovu.Foundation

/-! ## Section 1: Page tokens -/

/-- `pagination.cursor`. -/
structure PageToken where
  version : Int
  scope : String
  filter : String
  offset : Int := 0
  position : String := ""
  priority : Option Int := none
  rowID : Option Int := none
deriving DecidableEq, Repr

def defaultPageSize : Int := 100

def maxPageSize : Int := 1000

/-- `pagination.PageSize`. -/
def pageSize (requested : Int) : Except String Int :=
  if requested < 0 ∨ maxPageSize < requested then
    .error ("page size must be between 0 and " ++ toString maxPageSize)
  else if requested = 0 then .ok defaultPageSize
  else .ok requested

/-- `pagination.DecodePeek`: `(0, 0)` without a token. -/
def decodePeek (token : Option PageToken) (scope filter : String) : Except String (Int × Int) :=
  match token with
  | none => .ok (0, 0)
  | some value =>
    match value.priority, value.rowID with
    | some priority, some rowID =>
      if value.version ≠ 2 ∨ value.scope ≠ scope ∨ value.filter ≠ filter ∨ rowID ≤ 0 ∨
          value.offset ≠ 0 ∨ value.position ≠ "" then
        .error "page token does not match this request"
      else .ok (priority, rowID)
    | _, _ => .error "page token does not match this request"

/-- `pagination.EncodePeek`. -/
def encodePeek (scope filter : String) (priority rowID : Int) : Except String PageToken :=
  if rowID ≤ 0 then .error "page token row id must be positive"
  else .ok
    { version := 2, scope := scope, filter := filter, priority := some priority,
      rowID := some rowID }

/-- `pagination.DecodePosition`: the empty position without a token. -/
def decodePosition (token : Option PageToken) (scope filter : String) : Except String String :=
  match token with
  | none => .ok ""
  | some value =>
    if value.version ≠ 1 ∨ value.scope ≠ scope ∨ value.filter ≠ filter ∨ value.position = "" ∨
        value.offset ≠ 0 ∨ value.priority ≠ none ∨ value.rowID ≠ none then
      .error "page token does not match this request"
    else .ok value.position

/-- `pagination.EncodePosition`. -/
def encodePosition (scope filter position : String) : Except String PageToken :=
  if position = "" then .error "page token position must not be empty"
  else .ok { version := 1, scope := scope, filter := filter, position := position }

/-- An error text as an `InvalidArgument`. -/
def invalidPage {α : Type} : Except String α → Except StorageError α
  | .error text => .error ⟨.invalidArgument, text⟩
  | .ok value => .ok value

/-- `positionPageRequest`. -/
def positionPageRequest (requested : Int) (token : Option PageToken) (scope filter : String) :
    Except StorageError (Int × String) := do
  let size ← invalidPage (pageSize requested)
  let cursor ← invalidPage (decodePosition token scope filter)
  pure (size, cursor)

/-- `positionPageToken`. -/
def positionPageToken (scope filter cursor : String) : Except StorageError (Option PageToken) :=
  if cursor = "" then .ok none
  else
    match encodePosition scope filter cursor with
    | .error text => .error (.plain text)
    | .ok token => .ok (some token)

/-! ## Section 2: Peeking at a queue -/

/-- `repositorysql.PeekCursor`. -/
structure PeekCursor where
  priority : Int
  rowID : Int
deriving DecidableEq, Repr

/-- `repositorysql.PriorityRange`. -/
structure PriorityRange where
  min : Int
  max : Int
deriving DecidableEq, Repr

/-- The cursor of a scanned row. -/
def peekCursor (e : Nat × MessageRow) : PeekCursor := ⟨e.2.priority, e.1⟩

/-- `queue_name = ? AND state = PENDING`, and `priority BETWEEN ? AND ?` with a range. -/
def peekMatches (queueName : String) (priorityRange : Option PriorityRange) (row : MessageRow) :
    Bool :=
  row.queueName = queueName && row.state = .pending &&
    priorityRange.all fun range => range.min ≤ row.priority && row.priority ≤ range.max

/-- `deleted_at IS NULL OR deleted_at > ?`. -/
def notDeleted (nowMs : Int) (row : MessageRow) : Bool := row.deletedAt.all (nowMs < ·)

/-- `priority < ? OR (priority = ? AND id > ?)`. -/
def afterPeekCursor (cursor : Option PeekCursor) (e : Nat × MessageRow) : Bool :=
  cursor.all fun c =>
    e.2.priority < c.priority || (e.2.priority = c.priority && c.rowID < (e.1 : Int))

/-- `ORDER BY priority DESC, id ASC`. -/
def peekOrder (a b : Nat × MessageRow) : Bool :=
  b.2.priority < a.2.priority || (a.2.priority = b.2.priority && a.1 ≤ b.1)

/-- `PeekMessagesPage`. -/
def peekMessagesPage (db : Database) (nowMs : Int) (queueName : String) (limit : Int)
    (cursor : Option PeekCursor) (priorityRange : Option PriorityRange) :
    List (Nat × MessageRow) × Option PeekCursor :=
  if limit ≤ 0 then ([], none)
  else
    let selected := db.messages.rows.filter fun e =>
      peekMatches queueName priorityRange e.2 && notDeleted nowMs e.2 && afterPeekCursor cursor e
    let messages := (selected.insertionSort fun a b => peekOrder a b = true).take (limit + 1).toNat
    if messages.length ≤ limit.toNat then (messages, none)
    else (messages.take limit.toNat, (messages[limit.toNat - 1]?).map peekCursor)

def defaultMinPriority : Int := 0

def defaultMaxPriority : Int := 4

/-- `PeekQueueMessagesRequest`. -/
structure PeekRequest where
  queueName : String
  priorityRange : Option PriorityRange
  pageSize : Int
  pageToken : Option PageToken
deriving DecidableEq, Repr

/-- The checks of `PeekQueueMessages` on the range. -/
def checkPriorityRange : Option PriorityRange → Except StorageError Unit
  | none => .ok ()
  | some range =>
    if range.min < defaultMinPriority ∨ defaultMaxPriority < range.max then
      .error ⟨.invalidArgument, "priority range must be between " ++ toString defaultMinPriority ++
        " and " ++ toString defaultMaxPriority⟩
    else if range.max < range.min then
      .error ⟨.invalidArgument, "priority range minimum must not exceed maximum"⟩
    else .ok ()

/-- The filter a token is bound to. -/
def peekFilter (queueName : String) : Option PriorityRange → String
  | none => queueName
  | some range => queueName ++ ":" ++ toString range.min ++ ":" ++ toString range.max

/-- `peekPageRequest`: the page size and the cursor, which is absent when the row id is `0`. -/
def peekPageRequest (requested : Int) (token : Option PageToken) (scope filter : String) :
    Except StorageError (Int × Option PeekCursor) := do
  let size ← invalidPage (pageSize requested)
  let (priority, rowID) ← invalidPage (decodePeek token scope filter)
  pure (size, if rowID = 0 then none else some ⟨priority, rowID⟩)

/-- `peekPageToken`. -/
def peekPageToken (scope filter : String) :
    Option PeekCursor → Except StorageError (Option PageToken)
  | none => .ok none
  | some cursor =>
    match encodePeek scope filter cursor.priority cursor.rowID with
    | .error text => .error (.plain ("encode peek page token: " ++ text))
    | .ok token => .ok (some token)

/-- `PeekQueueMessages`: the messages with the next page token. -/
def peekQueueMessages (db : Database) (nowMs : Int) (request : PeekRequest) :
    Except StorageError (List (Nat × MessageRow) × Option PageToken) :=
  if request.queueName = "" then .error ⟨.invalidArgument, "queue name is required"⟩
  else do
    checkPriorityRange request.priorityRange
    let filter := peekFilter request.queueName request.priorityRange
    let (size, cursor) ← peekPageRequest request.pageSize request.pageToken "peek" filter
    let (messages, nextCursor) :=
      peekMessagesPage db nowMs request.queueName size cursor request.priorityRange
    let nextToken ← peekPageToken "peek" filter nextCursor
    pure (messages, nextToken)

/-! ## Section 3: The dead letter queue -/

/-- `queue_name = ? AND state = ERRORED`. -/
def deadLettered (queueName : String) (row : MessageRow) : Bool :=
  row.queueName = queueName && row.state = .errored

/-- The row id `GetDLQMessagesPage` reads from its cursor; pages go down from it. -/
def dlqCursorID (cursor : String) : Except StorageError Int :=
  if cursor = "" then .ok maxInt64
  else
    match parseInt cursor.toList with
    | none => .error ⟨.invalidArgument, "invalid DLQ cursor"⟩
    | some cursorID =>
      if cursorID < 1 then .error ⟨.invalidArgument, "invalid DLQ cursor"⟩ else .ok cursorID

/-- `GetDLQMessagesPage` of the backend. -/
def getDLQMessagesPage (db : Database) (queueName : String) (limit : Int) (cursor : String) :
    Except StorageError (List (Nat × MessageRow) × String) :=
  if limit ≤ 0 then .ok ([], "")
  else do
    let cursorID ← dlqCursorID cursor
    let selected := db.messages.rows.filter fun e =>
      deadLettered queueName e.2 && decide ((e.1 : Int) < cursorID)
    -- `ORDER BY id DESC`.
    let messages := (selected.insertionSort fun a b => b.1 ≤ a.1).take (limit + 1).toNat
    if messages.length ≤ limit.toNat then pure (messages, "")
    else
      let rowID := (messages[limit.toNat - 1]?).map fun e => (e.1 : Int)
      pure (messages.take limit.toNat, String.ofList (formatInt (rowID.getD 0)))

/-- `GetDLQMessagesRequest`. -/
structure DLQPageRequest where
  dlqName : String
  pageSize : Int
  pageToken : Option PageToken
deriving DecidableEq, Repr

/-- `GetDLQMessagesPage` of the service. -/
def getDLQMessages (db : Database) (request : DLQPageRequest) :
    Except StorageError (List (Nat × MessageRow) × Option PageToken) :=
  if request.dlqName = "" then .error ⟨.invalidArgument, "DLQ name is required"⟩
  else do
    let (size, cursor) ← positionPageRequest request.pageSize request.pageToken "dlq"
      request.dlqName
    requireDLQ db request.dlqName
    let (messages, nextCursor) ← getDLQMessagesPage db request.dlqName size cursor
    let nextToken ← positionPageToken "dlq" request.dlqName nextCursor
    pure (messages, nextToken)

/-! ## Section 4: Tokens -/

/-- Clock reading and page size of one request. -/
structure PageCall where
  nowMs : Int
  pageSize : Int
deriving DecidableEq, Repr

theorem pageSize_pos {requested size : Int} (h : pageSize requested = .ok size) : 0 < size := by
  simp only [pageSize] at h
  split at h
  · cases h
  · rename_i hrange
    split at h <;> cases h
    · decide
    · omega

theorem exists_pageSize {requested : Int} (hlow : 0 ≤ requested) (hhigh : requested ≤ maxPageSize) :
    ∃ size, pageSize requested = .ok size := by
  simp only [pageSize]
  split
  · omega
  · split <;> exact ⟨_, rfl⟩

/-- A token is accepted by the next request with the same filter, as the cursor it was made
from. -/
theorem peekPageRequest_peekPageToken {filter : String} {cursor : Option PeekCursor}
    {token : Option PageToken} {requested size : Int} (hsize : pageSize requested = .ok size)
    (htoken : peekPageToken "peek" filter cursor = .ok token) :
    peekPageRequest requested token "peek" filter = .ok (size, cursor) := by
  cases cursor with
  | none =>
    cases htoken
    simp [peekPageRequest, hsize, invalidPage, decodePeek, bind, Except.bind, pure, Except.pure]
  | some c =>
    simp only [peekPageToken, encodePeek] at htoken
    split at htoken
    · rename_i herr
      split at herr <;> cases herr
      cases htoken
    · rename_i hok
      split at hok
      · cases hok
      · rename_i hpos
        cases hok
        cases htoken
        have hne : c.rowID ≠ 0 := by omega
        simp [peekPageRequest, hsize, invalidPage, decodePeek, bind, Except.bind, pure,
          Except.pure, hpos, hne]

/-- A token is returned exactly when there is a cursor. -/
theorem peekPageToken_none {scope filter : String} {cursor : Option PeekCursor}
    {token : Option PageToken}
    (h : peekPageToken scope filter cursor = .ok token) : token = none ↔ cursor = none := by
  cases cursor with
  | none =>
    cases h
    simp
  | some c =>
    simp only [peekPageToken] at h
    split at h <;> cases h
    simp

/-- A token made from a position is decoded to it by the next request with the same filter. -/
theorem positionPageRequest_positionPageToken {scope filter cursor : String}
    {token : Option PageToken} {requested size : Int} (hsize : pageSize requested = .ok size)
    (htoken : positionPageToken scope filter cursor = .ok token) :
    positionPageRequest requested token scope filter = .ok (size, cursor) := by
  by_cases hcursor : cursor = ""
  · simp only [positionPageToken, if_pos hcursor] at htoken
    cases htoken
    simp [positionPageRequest, hsize, invalidPage, decodePosition, hcursor, bind, Except.bind, pure,
      Except.pure]
  · simp only [positionPageToken, encodePosition, if_neg hcursor] at htoken
    cases htoken
    simp [positionPageRequest, hsize, invalidPage, decodePosition, hcursor, bind, Except.bind, pure,
      Except.pure]

/-- A token is returned exactly when there is a position. -/
theorem positionPageToken_none {scope filter cursor : String} {token : Option PageToken}
    (h : positionPageToken scope filter cursor = .ok token) : token = none ↔ cursor = "" := by
  by_cases hcursor : cursor = ""
  · simp only [positionPageToken, if_pos hcursor] at h
    cases h
    simp [hcursor]
  · simp only [positionPageToken, encodePosition, if_neg hcursor] at h
    cases h
    simp [hcursor]

theorem exists_positionPageToken (scope filter cursor : String) :
    ∃ token, positionPageToken scope filter cursor = .ok token := by
  simp only [positionPageToken, encodePosition]
  split <;> exact ⟨_, rfl⟩

/-! ## Section 5: Invariants of paging -/

/-- The row with id `i` has priority `p`, as long as it is there. -/
def KeepsPriority (i : Nat) (p : Int) (db : Database) : Prop :=
  i < db.messages.nextId ∧ ∀ row, (i, row) ∈ db.messages.rows → row.priority = p

theorem KeepsPriority.change {i : Nat} {p : Int} {adds : Additions} {db db' : Database}
    {event : Option (Nat × RowEvent)} (h : KeepsPriority i p db)
    (hchange : Change adds db db' event) : KeepsPriority i p db' := by
  refine ⟨Nat.lt_of_lt_of_le h.1 hchange.nextId_le, fun row hmem => ?_⟩
  cases hchange.origin hmem with
  | kept hold => exact h.2 row hold
  | inserted _ _ _ _ _ _ hid => exact absurd hid (Nat.ne_of_lt h.1)
  | changed old e hold ht => rw [ht.priority, h.2 old hold]

/-- A row has one priority all along a run. -/
theorem System.priority_eq {s : System} (hwf : WellFormed s) {i : Nat} {row row' : MessageRow}
    {ops : List Operation} (hrow : (i, row) ∈ s.db.messages.rows)
    (hrow' : (i, row') ∈ (runFrom System.step s ops).db.messages.rows) :
    row'.priority = row.priority := by
  have hkeeps : KeepsPriority i row.priority s.db := by
    refine ⟨s.db.messages.id_lt _ hrow, fun other hother => ?_⟩
    have hsame : (i, other) = (i, row) := Table.eq_of_id hother hrow rfl
    rw [(Prod.mk.inj hsame).2]
  have hrun := invariant_runFrom' System.step
    (fun s => WellFormed s ∧ KeepsPriority i row.priority s.db)
    (fun s op h => ⟨h.1.step op, (step_changes h.1 op).preserves'
      (fun _ _ _ h hchange => h.change hchange) h.2⟩) ⟨hwf, hkeeps⟩ ops
  exact hrun.2.2 row' hrow'

/-- Row ids start at `1`. -/
def PositiveIds (db : Database) : Prop :=
  0 < db.messages.nextId ∧ ∀ e ∈ db.messages.rows, 0 < e.1

theorem PositiveIds.change {adds : Additions} {db db' : Database}
    {event : Option (Nat × RowEvent)} (h : PositiveIds db) (hchange : Change adds db db' event) :
    PositiveIds db' := by
  refine ⟨Nat.lt_of_lt_of_le h.1 hchange.nextId_le, fun e hmem => ?_⟩
  cases hchange.origin hmem with
  | kept hold => exact h.2 e hold
  | inserted _ _ _ _ _ _ hid => exact hid ▸ h.1
  | changed old _ hold => exact h.2 (e.1, old) hold

/-- What paging relies on, in every reachable state. -/
def Pageable (s : System) : Prop := WellFormed s ∧ PositiveIds s.db

theorem Pageable.step {s : System} (h : Pageable s) (op : Operation) : Pageable (s.step op) :=
  ⟨h.1.step op, (step_changes h.1 op).preserves' (fun _ _ _ h hchange => h.change hchange) h.2⟩

theorem pageable_run (ops : List Operation) : Pageable (System.run ops) :=
  invariant_runFrom' System.step Pageable (fun _ op h => h.step op)
    ⟨wellFormed_empty, by simp [PositiveIds, System.empty, Database.empty, Table.empty]⟩ ops

end Nzovu.Repository
