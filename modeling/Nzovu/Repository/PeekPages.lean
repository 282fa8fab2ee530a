import Mathlib.Data.Prod.Lex
import Nzovu.Repository.Paging
import Nzovu.Repository.Requeue

/-!
# Peeking Through a Queue

A traversal of a queue with `PeekQueueMessages` reads keyset pages in the order priority descending,
row id ascending, whatever happens to the queue between its requests.
-/

namespace Nzovu.Repository

open Nzovu.Foundation

/-- The place of a row in `ORDER BY priority DESC, id ASC`. -/
def PeekCursor.key (c : PeekCursor) : Intᵒᵈ ×ₗ Int := toLex (OrderDual.toDual c.priority, c.rowID)

/-- The key of a row. -/
def peekKey (e : Nat × MessageRow) : Intᵒᵈ ×ₗ Int := (peekCursor e).key

/-- A row comes before another in peek order. -/
def PeekBefore (a b : Nat × MessageRow) : Prop :=
  b.2.priority < a.2.priority ∨ (a.2.priority = b.2.priority ∧ a.1 < b.1)

theorem PeekCursor.key_lt {c d : PeekCursor} :
    c.key < d.key ↔ d.priority < c.priority ∨ (c.priority = d.priority ∧ c.rowID < d.rowID) := by
  simp [PeekCursor.key, Prod.Lex.toLex_lt_toLex]

theorem peekKey_lt {a b : Nat × MessageRow} : peekKey a < peekKey b ↔ PeekBefore a b := by
  simp [peekKey, PeekCursor.key_lt, peekCursor, PeekBefore]

theorem peekOrder_eq_true {a b : Nat × MessageRow} :
    peekOrder a b = true ↔ peekKey a ≤ peekKey b := by
  rw [← not_lt, peekKey_lt]
  simp only [peekOrder, PeekBefore, Bool.or_eq_true, Bool.and_eq_true, decide_eq_true_eq]
  omega

theorem afterPeekCursor_eq_true {cursor : Option PeekCursor} {e : Nat × MessageRow} :
    afterPeekCursor cursor e = true ↔ Beyond (cursor.map PeekCursor.key) (peekKey e) := by
  cases cursor with
  | none => simp [afterPeekCursor]
  | some c =>
    simp only [afterPeekCursor, Option.all_some, Bool.or_eq_true, Bool.and_eq_true,
      decide_eq_true_eq, Option.map_some, beyond_some, peekKey, PeekCursor.key_lt, peekCursor]
    omega

/-- One request of a traversal. -/
def peekRequest (queueName : String) (priorityRange : Option PriorityRange) (s : System)
    (call : PageCall) (token : Option PageToken) :
    Except StorageError (List (Nat × MessageRow) × Option PageToken) :=
  peekQueueMessages s.db call.nowMs ⟨queueName, priorityRange, call.pageSize, token⟩

/-- The rows a request can return. -/
def peekView (queueName : String) (priorityRange : Option PriorityRange) (s : System)
    (call : PageCall) : List (Nat × MessageRow) :=
  s.db.messages.rows.filter fun e =>
    peekMatches queueName priorityRange e.2 && notDeleted call.nowMs e.2

variable {queueName : String} {priorityRange : Option PriorityRange} {s : System}
  {call : PageCall} {token next : Option PageToken} {messages : List (Nat × MessageRow)}

/-- The statement of `PeekMessagesPage` reads a keyset page. -/
theorem peekMessagesPage_eq (s : System) (queueName : String)
    (priorityRange : Option PriorityRange) (call : PageCall) {limit : Int} (hlimit : 0 < limit)
    (cursor : Option PeekCursor) :
    page peekKey (cursor.map PeekCursor.key) limit.toNat (peekView queueName priorityRange s call) =
      ((peekMessagesPage s.db call.nowMs queueName limit cursor priorityRange).1,
        (peekMessagesPage s.db call.nowMs queueName limit cursor priorityRange).2.map
          PeekCursor.key) := by
  have hselected : (peekView queueName priorityRange s call).filter
      (fun e => Beyond (cursor.map PeekCursor.key) (peekKey e)) =
      s.db.messages.rows.filter fun e => peekMatches queueName priorityRange e.2 &&
        notDeleted call.nowMs e.2 && afterPeekCursor cursor e := by
    rw [peekView, List.filter_filter]
    refine List.filter_congr fun e _ => Bool.eq_iff_iff.mpr ?_
    simp only [Bool.and_eq_true, decide_eq_true_eq, afterPeekCursor_eq_true]
    tauto
  have hsucc : (limit + 1).toNat = limit.toNat + 1 := by omega
  simp only [page, remaining, hselected, peekMessagesPage, if_neg (not_le.mpr hlimit), hsucc,
    insertionSort_congr (r := fun a b => peekOrder a b = true) (fun a b => peekOrder_eq_true)]
  split
  · rfl
  · simp only [Option.map_map]
    rfl

/-- A token stands for a cursor of the same traversal. -/
def PeekResumes (queueName : String) (priorityRange : Option PriorityRange)
    (token : Option PageToken) (cursor : Option (Intᵒᵈ ×ₗ Int)) : Prop :=
  ∃ c : Option PeekCursor, cursor = c.map PeekCursor.key ∧
    peekPageToken "peek" (peekFilter queueName priorityRange) c = .ok token

/-- What an answered request has checked and read. -/
theorem peekRequest_eq_ok {cursor : Option PeekCursor}
    (htoken : peekPageToken "peek" (peekFilter queueName priorityRange) cursor = .ok token)
    (h : peekRequest queueName priorityRange s call token = .ok (messages, next)) :
    queueName ≠ "" ∧ checkPriorityRange priorityRange = .ok () ∧
      ∃ size, pageSize call.pageSize = .ok size ∧
        messages = (peekMessagesPage s.db call.nowMs queueName size cursor priorityRange).1 ∧
        peekPageToken "peek" (peekFilter queueName priorityRange)
          (peekMessagesPage s.db call.nowMs queueName size cursor priorityRange).2 = .ok next := by
  simp only [peekRequest, peekQueueMessages] at h
  split at h
  · cases h
  · rename_i hname
    cases hrange : checkPriorityRange priorityRange with
    | error err => simp [hrange, bind, Except.bind] at h
    | ok =>
      cases hsize : pageSize call.pageSize with
      | error text =>
        simp [hrange, peekPageRequest, hsize, invalidPage, bind, Except.bind] at h
      | ok size =>
        rw [hrange, peekPageRequest_peekPageToken hsize htoken] at h
        simp only [bind, Except.bind] at h
        split at h
        · cases h
        · rename_i nextToken hnext
          cases h
          exact ⟨hname, rfl, size, rfl, rfl, hnext⟩

/-- Peeking serves keyset pages in the order of the keys. -/
theorem peek_servesPages (queueName : String) (priorityRange : Option PriorityRange) :
    ServesPages System.step (peekRequest queueName priorityRange) Pageable peekKey Prod.fst
      (peekView queueName priorityRange) (PeekResumes queueName priorityRange) where
  keeps _ op h := h.step op
  page {s call token cursor messages next} _ hresumes h := by
    obtain ⟨c, rfl, htoken⟩ := hresumes
    obtain ⟨-, -, size, hsize, hmessages, hnext⟩ := peekRequest_eq_ok htoken h
    have hpos := pageSize_pos hsize
    have hpage := peekMessagesPage_eq s queueName priorityRange call hpos c
    rw [← hmessages] at hpage
    have hnone := peekPageToken_none hnext
    generalize (peekMessagesPage s.db call.nowMs queueName size c priorityRange).2 = c'
      at hpage hnext hnone
    refine ⟨size.toNat, c'.map PeekCursor.key, by omega, hpage, fun hlast => ?_, fun t hmore => ?_⟩
    · rw [hnone.mp hlast]
      rfl
    · cases c' with
      | none => cases hmore.symm.trans (hnone.mpr rfl)
      | some c' => exact ⟨c'.key, rfl, some c', rfl, hmore ▸ hnext⟩
  keys s call _ := by
    refine List.pairwise_map.mpr ?_
    -- Ids break the ties of priority, so no two rows have one key.
    have hids := (List.pairwise_map.mp s.db.messages.ids_sorted).filter fun e =>
      peekMatches queueName priorityRange e.2 && notDeleted call.nowMs e.2
    refine hids.imp fun {a b} hlt heq => ?_
    have hsnd := congrArg (fun k => (ofLex k).2) heq
    simp only [peekKey, PeekCursor.key, peekCursor, ofLex_toLex, Nat.cast_inj] at hsnd
    omega
  stable s ops call call' hinv a ha b hb hab := by
    have hrow := (List.mem_filter.mp ha).1
    have hrow' := (List.mem_filter.mp hb).1
    obtain ⟨i, row⟩ := a
    obtain ⟨j, row'⟩ := b
    obtain rfl : i = j := hab
    -- The key of a message is final: its priority and its id never change.
    have hpriority := System.priority_eq hinv.1 hrow hrow'
    simp [peekKey, peekCursor, hpriority]

/-- The cursor of a page is the cursor of a scanned row. -/
theorem peekMessagesPage_cursor {db : Database} {nowMs limit : Int} {c : PeekCursor}
    {before : Option PeekCursor} (hpos : PositiveIds db)
    (h : (peekMessagesPage db nowMs queueName limit before priorityRange).2 = some c) :
    0 < c.rowID := by
  simp only [peekMessagesPage] at h
  split at h
  · cases h
  · split at h
    · cases h
    · obtain ⟨e, he, rfl⟩ := Option.map_eq_some_iff.mp h
      have hmem := List.mem_of_mem_take (List.mem_of_getElem? he)
      have hrow := (List.mem_filter.mp ((List.mem_insertionSort _).mp hmem)).1
      have hid := hpos.2 e hrow
      simpa [peekCursor] using hid

/-- A request with a token of the traversal is answered in every reachable state. -/
theorem peekRequest_answered {cursor : Option PeekCursor} (hinv : Pageable s)
    (hname : queueName ≠ "") (hrange : checkPriorityRange priorityRange = .ok ())
    (hsize : 0 ≤ call.pageSize ∧ call.pageSize ≤ maxPageSize)
    (htoken : peekPageToken "peek" (peekFilter queueName priorityRange) cursor = .ok token) :
    ∃ answer, peekRequest queueName priorityRange s call token = .ok answer := by
  obtain ⟨size, hok⟩ := exists_pageSize hsize.1 hsize.2
  have hnext : ∃ nextToken, peekPageToken "peek" (peekFilter queueName priorityRange)
      (peekMessagesPage s.db call.nowMs queueName size cursor priorityRange).2 = .ok nextToken := by
    cases hcursor : (peekMessagesPage s.db call.nowMs queueName size cursor priorityRange).2 with
    | none => exact ⟨none, rfl⟩
    | some c =>
      -- The encoding refuses row ids that are not positive; the table has none.
      have hid := peekMessagesPage_cursor hinv.2 hcursor
      exact ⟨_, by simp [peekPageToken, encodePeek, not_le.mpr hid]; rfl⟩
  obtain ⟨nextToken, hnext⟩ := hnext
  refine ⟨((peekMessagesPage s.db call.nowMs queueName size cursor priorityRange).1, nextToken), ?_⟩
  simp only [peekRequest, peekQueueMessages, if_neg hname, hrange,
    peekPageRequest_peekPageToken hok htoken, bind, Except.bind, hnext]
  rfl

/-- An answered request has a queue name and a valid range. -/
theorem peekRequest_checked {answer : List (Nat × MessageRow) × Option PageToken}
    (h : peekRequest queueName priorityRange s call token = .ok answer) :
    queueName ≠ "" ∧ checkPriorityRange priorityRange = .ok () := by
  simp only [peekRequest, peekQueueMessages] at h
  split at h
  · cases h
  · rename_i hname
    cases hrange : checkPriorityRange priorityRange with
    | error err => simp [hrange, bind, Except.bind] at h
    | ok => exact ⟨hname, rfl⟩

/-- **Peek traversal**: with any operations between the requests, the pages hold their messages in
peek order and none twice; once no token is returned they hold, exactly once, every message that
was PENDING in the filter and not deleted at each request; and a returned token is answered. -/
theorem peekTraversal_exact (queueName : String) (priorityRange : Option PriorityRange)
    (past : List Operation) {visits : List (System × PageCall)}
    {messages : List (Nat × MessageRow)} {next : Option PageToken}
    (h : Paging System.step (peekRequest queueName priorityRange) (System.run past) none visits
      messages next) :
    messages.Pairwise PeekBefore ∧ (messages.map Prod.fst).Nodup ∧
      (next = none → ∀ i, (∀ v ∈ visits, ∃ row, (i, row) ∈ v.1.db.messages.rows ∧
        peekMatches queueName priorityRange row = true ∧ notDeleted v.2.nowMs row = true) →
        (messages.map Prod.fst).count i = 1) ∧
      ∀ token, next = some token → ∀ ops call,
        0 ≤ call.pageSize → call.pageSize ≤ maxPageSize → ∃ answer,
          peekRequest queueName priorityRange (runFrom System.step (System.run past) ops) call
            (some token) = .ok answer := by
  have hserves := peek_servesPages queueName priorityRange
  have hstart : PeekResumes queueName priorityRange none none := ⟨none, rfl, rfl⟩
  obtain ⟨horder, hnodup, hcount⟩ := hserves.exact (pageable_run past) hstart h
  obtain ⟨_, _, _, _, hanswered⟩ := h.answered
  obtain ⟨hname, hrange⟩ := peekRequest_checked hanswered
  refine ⟨horder.imp fun hlt => peekKey_lt.mp hlt, hnodup, fun hnone i hstays => ?_, ?_⟩
  · refine hcount hnone i fun v hv => ?_
    obtain ⟨row, hmem, hmatches, hkept⟩ := hstays v hv
    refine ⟨(i, row), List.mem_filter.mpr ⟨hmem, ?_⟩, rfl, beyond_none _⟩
    simp [hmatches, hkept]
  · intro token hnext ops call hlow hhigh
    obtain ⟨_, last, -, hlast⟩ := hserves.resumes_next (pageable_run past) hstart h hnext
    have hinv := invariant_runFrom' System.step Pageable (fun _ op h => h.step op)
      (pageable_run past) ops
    exact peekRequest_answered hinv hname hrange ⟨hlow, hhigh⟩ hlast

/-- Two waiting messages of different priority. -/
def waitingOrders : List Operation :=
  let policy : LeasePolicy := ⟨some ⟨30, 0⟩, none, none, none, 0⟩
  [.createQueue "orders" {},
   .enqueue (fun _ => 0) "orders" ⟨"slow", some ⟨.pending, 1, 1, 1, none, some policy⟩⟩,
   .enqueue (fun _ => 0) "orders" ⟨"fast", some ⟨.pending, 1, 1, 3, none, some policy⟩⟩]

/-- Pages of one message; the second message is canceled after the first page showed it. -/
theorem peekTraversal_exact_canceled : ∃ visits messages,
    Paging System.step (peekRequest "orders" none) (System.run waitingOrders) none visits
      messages none ∧ messages.Pairwise PeekBefore ∧ (messages.map Prod.fst).count 1 = 1 := by
  have h : Paging System.step (peekRequest "orders" none) (System.run waitingOrders) none _ _
      none :=
    .more [] ⟨0, 1⟩ rfl (.page [.cancel (fun _ => 5) "orders" "fast" "late"] ⟨9, 1⟩ rfl)
  obtain ⟨horder, -, hcount, -⟩ := peekTraversal_exact "orders" none waitingOrders h
  refine ⟨_, _, h, horder, hcount rfl 1 ?_⟩
  let slow := ((System.run waitingOrders).db.messages.rows.head (by decide)).2
  refine List.forall_mem_cons.mpr ⟨⟨slow, by decide, by decide, by decide⟩, ?_⟩
  exact List.forall_mem_singleton.mpr ⟨slow, by decide, by decide, by decide⟩

/-- The requeued message that is still marked for deletion is PENDING, and no page shows it. -/
theorem not_peekTraversal_complete :
    ¬ ∀ queueName priorityRange past visits messages,
      Paging System.step (peekRequest queueName priorityRange) (System.run past) none visits
        messages none →
      ∀ i, (∀ v ∈ visits, ∃ row, (i, row) ∈ v.1.db.messages.rows ∧
        peekMatches queueName priorityRange row = true) → (messages.map Prod.fst).count i = 1 := by
  intro h
  let marked := ((System.run markedRequeue).db.messages.rows.head (by decide)).2
  have hcount := h "orders" none markedRequeue _ _ (.page [] ⟨60020, 0⟩ rfl) 1
    (List.forall_mem_singleton.mpr ⟨marked, by decide, by decide⟩)
  exact absurd hcount (by decide)

end Nzovu.Repository
