import Nzovu.Repository.Paging

/-!
# Reading Through a Dead Letter Queue

A traversal of a dead letter queue reads keyset pages in the order of descending row ids. A row
keeps its id when it leaves the queue and comes back, so it is met at its old place.
-/

namespace Nzovu.Repository

open Nzovu.Foundation

/-- The place of a row in `ORDER BY id DESC`. -/
def dlqKey (e : Nat × MessageRow) : Intᵒᵈ := OrderDual.toDual (e.1 : Int)

/-- One request of a traversal. -/
def dlqRequest (dlqName : String) (s : System) (call : PageCall) (token : Option PageToken) :
    Except StorageError (List (Nat × MessageRow) × Option PageToken) :=
  getDLQMessages s.db ⟨dlqName, call.pageSize, token⟩

/-- The rows a request can return. -/
def dlqView (dlqName : String) (s : System) (_ : PageCall) : List (Nat × MessageRow) :=
  s.db.messages.rows.filter fun e => deadLettered dlqName e.2

variable {dlqName : String} {s : System} {call : PageCall} {token next : Option PageToken}
  {messages : List (Nat × MessageRow)}

/-- The statement of `GetDLQMessagesPage` reads a keyset page; its cursor is the printed id of the
last row, which lies below the id it started from. -/
theorem getDLQMessagesPage_eq (s : System) (dlqName : String) (call : PageCall)
    {limit cursorID : Int} {cursor : String} (hlimit : 0 < limit)
    (hcursor : dlqCursorID cursor = .ok cursorID) (hpos : PositiveIds s.db) :
    ∃ found nextCursor, getDLQMessagesPage s.db dlqName limit cursor = .ok (found, nextCursor) ∧
      ((page dlqKey (some (OrderDual.toDual cursorID)) limit.toNat (dlqView dlqName s call) =
          (found, none) ∧ nextCursor = "") ∨
        ∃ id : Int, page dlqKey (some (OrderDual.toDual cursorID)) limit.toNat
            (dlqView dlqName s call) = (found, some (OrderDual.toDual id)) ∧
          0 < id ∧ id < cursorID ∧ nextCursor = String.ofList (formatInt id)) := by
  have hselected : (dlqView dlqName s call).filter
      (fun e => Beyond (some (OrderDual.toDual cursorID)) (dlqKey e)) =
      s.db.messages.rows.filter fun e =>
        deadLettered dlqName e.2 && decide ((e.1 : Int) < cursorID) := by
    rw [dlqView, List.filter_filter]
    refine List.filter_congr fun e _ => Bool.eq_iff_iff.mpr ?_
    simp only [Bool.and_eq_true, decide_eq_true_eq, beyond_some, dlqKey, OrderDual.toDual_lt_toDual]
    tauto
  have hsucc : (limit + 1).toNat = limit.toNat + 1 := by omega
  have hsorted : ∀ items : List (Nat × MessageRow), (items.insertionSort fun a b => b.1 ≤ a.1) =
      items.insertionSort fun a b => dlqKey a ≤ dlqKey b :=
    insertionSort_congr fun a b => by
      simp only [dlqKey, OrderDual.toDual_le_toDual, Nat.cast_le]
  simp only [page, remaining, hselected, ← hsorted, getDLQMessagesPage, if_neg (not_le.mpr hlimit),
    hcursor, bind, Except.bind, hsucc]
  generalize hfound : ((s.db.messages.rows.filter fun e =>
    deadLettered dlqName e.2 && decide ((e.1 : Int) < cursorID)).insertionSort
      fun a b => b.1 ≤ a.1).take (limit.toNat + 1) = found
  by_cases hlength : found.length ≤ limit.toNat
  · exact ⟨found, "", by simp [hlength, pure, Except.pure]⟩
  · have hlt : limit.toNat - 1 < found.length := by omega
    have hmem : found[limit.toNat - 1] ∈ found := List.getElem_mem hlt
    generalize hlast : found[limit.toNat - 1] = last at hmem
    have hget : found[limit.toNat - 1]? = some last := by rw [List.getElem?_eq_getElem hlt, hlast]
    have hrow := (List.mem_insertionSort _).mp (List.mem_of_mem_take (hfound ▸ hmem))
    obtain ⟨hrow, hp⟩ := List.mem_filter.mp hrow
    simp only [Bool.and_eq_true, decide_eq_true_eq] at hp
    refine ⟨found.take limit.toNat, String.ofList (formatInt last.1), ?_, .inr ⟨last.1, ?_⟩⟩
    · simp [hlength, hget, pure, Except.pure]
    · have hid := hpos.2 last hrow
      simp [hlength, hget, dlqKey, hp.2, hid]

/-- A token stands for the id the next page starts below. -/
def DLQResumes (dlqName : String) (token : Option PageToken) (cursor : Option Intᵒᵈ) : Prop :=
  ∃ (position : String) (id : Int), positionPageToken "dlq" dlqName position = .ok token ∧
    dlqCursorID position = .ok id ∧ id ≤ maxInt64 ∧ cursor = some (OrderDual.toDual id)

theorem dlqResumes_none (dlqName : String) :
    DLQResumes dlqName none (some (OrderDual.toDual maxInt64)) :=
  ⟨"", maxInt64, rfl, rfl, le_refl _, rfl⟩

/-- The printed id of a row is read back. -/
theorem dlqCursorID_formatInt {id : Int} (hpos : 0 < id) (hmax : id ≤ maxInt64) :
    dlqCursorID (String.ofList (formatInt id)) = .ok id := by
  have hfits : FitsInt64 id := ⟨by simp only [minInt64]; omega, hmax⟩
  have hne : String.ofList (formatInt id) ≠ "" := fun h =>
    formatInt_ne_nil id (by simpa using congrArg String.toList h)
  have hlow : ¬ id < 1 := by omega
  simp [dlqCursorID, hne, parseInt_formatInt hfits, hlow]

/-- What an answered request has checked and read. -/
theorem dlqRequest_eq_ok {position : String}
    (htoken : positionPageToken "dlq" dlqName position = .ok token)
    (h : dlqRequest dlqName s call token = .ok (messages, next)) :
    dlqName ≠ "" ∧ ∃ size nextPosition, pageSize call.pageSize = .ok size ∧
      getDLQMessagesPage s.db dlqName size position = .ok (messages, nextPosition) ∧
      positionPageToken "dlq" dlqName nextPosition = .ok next := by
  simp only [dlqRequest, getDLQMessages] at h
  split at h
  · cases h
  · rename_i hname
    cases hsize : pageSize call.pageSize with
    | error text => simp [positionPageRequest, hsize, invalidPage, bind, Except.bind] at h
    | ok size =>
      rw [positionPageRequest_positionPageToken hsize htoken] at h
      simp only [bind, Except.bind] at h
      split at h
      · cases h
      · split at h
        · cases h
        · rename_i answer hpage
          split at h
          · cases h
          · rename_i nextToken hnext
            cases h
            exact ⟨hname, size, answer.2, rfl, hpage, hnext⟩

/-- The dead letter queue is served in keyset pages. -/
theorem dlq_servesPages (dlqName : String) :
    ServesPages System.step (dlqRequest dlqName) Pageable dlqKey Prod.fst (dlqView dlqName)
      (DLQResumes dlqName) where
  keeps _ op h := h.step op
  page {s call token cursor messages next} hinv hresumes h := by
    obtain ⟨position, id, htoken, hcursor, hmax, rfl⟩ := hresumes
    obtain ⟨-, size, nextPosition, hsize, hpage, hnext⟩ := dlqRequest_eq_ok htoken h
    have hpos := pageSize_pos hsize
    obtain ⟨found, nextCursor, hfound, hkeyset⟩ :=
      getDLQMessagesPage_eq s dlqName call hpos hcursor hinv.2
    cases hpage.symm.trans hfound
    rcases hkeyset with ⟨hkeyset, rfl⟩ | ⟨last, hkeyset, hlast, hless, rfl⟩
    · exact ⟨size.toNat, none, by omega, hkeyset, fun _ => rfl, fun t hsome => by
        cases hsome.symm.trans ((positionPageToken_none hnext).mpr rfl)⟩
    · have hread := dlqCursorID_formatInt hlast (by omega)
      refine ⟨size.toNat, _, by omega, hkeyset, fun hnone => ?_, fun t hsome => ?_⟩
      · have hempty := (positionPageToken_none hnext).mp hnone
        exact absurd (by simpa using congrArg String.toList hempty) (formatInt_ne_nil last)
      · exact ⟨_, rfl, _, last, hsome ▸ hnext, hread, by omega, rfl⟩
  keys s call _ := by
    refine List.pairwise_map.mpr ?_
    have hids := (List.pairwise_map.mp s.db.messages.ids_sorted).filter fun e =>
      deadLettered dlqName e.2
    refine hids.imp fun {a b} hlt heq => ?_
    simp only [dlqKey, OrderDual.toDual_inj, Nat.cast_inj] at heq
    omega
  stable s ops call call' _ a _ b _ hab := by simp only [dlqKey, hab]

theorem dlqRequest_checked {answer : List (Nat × MessageRow) × Option PageToken}
    (h : dlqRequest dlqName s call token = .ok answer) : dlqName ≠ "" := by
  simp only [dlqRequest, getDLQMessages] at h
  split at h
  · cases h
  · assumption

/-- A request with a token of the traversal is answered as long as the queue is a dead letter
queue. -/
theorem dlqRequest_answered {position : String} {id : Int} (hinv : Pageable s)
    (hname : dlqName ≠ "") (hdlq : requireDLQ s.db dlqName = .ok ())
    (hlow : 0 ≤ call.pageSize) (hhigh : call.pageSize ≤ maxPageSize)
    (htoken : positionPageToken "dlq" dlqName position = .ok token)
    (hposition : dlqCursorID position = .ok id) :
    ∃ answer, dlqRequest dlqName s call token = .ok answer := by
  obtain ⟨size, hsize⟩ := exists_pageSize hlow hhigh
  obtain ⟨found, nextCursor, hpage, -⟩ :=
    getDLQMessagesPage_eq s dlqName call (pageSize_pos hsize) hposition hinv.2
  obtain ⟨nextToken, hnext⟩ := exists_positionPageToken "dlq" dlqName nextCursor
  refine ⟨(found, nextToken), ?_⟩
  simp only [dlqRequest, getDLQMessages, if_neg hname, bind, Except.bind, hdlq, hpage, hnext,
    positionPageRequest_positionPageToken hsize htoken]
  rfl

/-- **Dead letter traversal**: with any operations between the requests, the pages hold rows with
strictly decreasing ids; once no token is returned they hold, exactly once, every message below the
last row id that was in the dead letter queue at each request; and a returned token is answered as
long as the queue is a dead letter queue. -/
theorem dlqTraversal (dlqName : String) (past : List Operation) {visits : List (System × PageCall)}
    (h : Paging System.step (dlqRequest dlqName) (System.run past) none visits messages next) :
    (messages.map Prod.fst).Pairwise (· > ·) ∧
      (next = none → ∀ i : Nat, (i : Int) < maxInt64 →
        (∀ v ∈ visits, ∃ row, (i, row) ∈ v.1.db.messages.rows ∧
          deadLettered dlqName row = true) → (messages.map Prod.fst).count i = 1) ∧
      ∀ token, next = some token → ∀ ops call, 0 ≤ call.pageSize → call.pageSize ≤ maxPageSize →
        requireDLQ (runFrom System.step (System.run past) ops).db dlqName = .ok () →
        ∃ answer, dlqRequest dlqName (runFrom System.step (System.run past) ops) call
          (some token) = .ok answer := by
  have hserves := dlq_servesPages dlqName
  have hstart := dlqResumes_none dlqName
  obtain ⟨horder, -, hcount⟩ := hserves.exact (pageable_run past) hstart h
  refine ⟨List.pairwise_map.mpr (horder.imp fun {a b} hlt => ?_), fun hnone i hi hstays => ?_,
    fun token hnext ops call hlow hhigh hdlq => ?_⟩
  · exact Nat.cast_lt.mp (OrderDual.toDual_lt_toDual.mp hlt)
  · refine hcount hnone i fun v hv => ?_
    obtain ⟨row, hmem, hdead⟩ := hstays v hv
    refine ⟨(i, row), List.mem_filter.mpr ⟨hmem, hdead⟩, rfl, beyond_some.mpr ?_⟩
    exact OrderDual.toDual_lt_toDual.mpr hi
  · obtain ⟨_, position, id, htoken, hposition, -⟩ :=
      hserves.resumes_next (pageable_run past) hstart h hnext
    have hinv := invariant_runFrom' System.step Pageable (fun _ op h => h.step op)
      (pageable_run past) ops
    obtain ⟨_, _, _, _, hanswered⟩ := h.answered
    exact dlqRequest_answered hinv (dlqRequest_checked hanswered) hdlq hlow hhigh htoken hposition

/-! ## The last row id -/

/-- The message of the runs below. -/
def failingJob : Message :=
  ⟨"m", some ⟨.pending, 1, 1, 0, none, some ⟨some ⟨30, 0⟩, none, none, none, 0⟩⟩⟩

/-- A message is posted and canceled, which uses up a row id. -/
def withdrawnJob : List Operation :=
  [.enqueue (fun _ => 0) "jobs" failingJob, .cancel (fun _ => 0) "jobs" "m" ""]

/-- A queue that deletes finished messages, with a dead letter queue. -/
def jobsQueue : List Operation :=
  .createQueue "jobs"
    { autoCreateDlq := true, messageRetentionPolicy := some ⟨.deleteImmediately, 0⟩ } ::
    withdrawnJob

/-- The two queues are empty, and `n` is the next row id. -/
def idleJobs (n : Nat) : System where
  db :=
    { queues := (System.run jobsQueue).db.queues
      messages := ⟨[], n, by simp, by simp, by simp⟩
      foreignKey := by simp }
  collected := []

theorem exists_run_idleJobs (n : Nat) : ∃ past, System.run past = idleJobs (n + 2) := by
  induction n with
  | zero => exact ⟨jobsQueue, rfl⟩
  | succ n ih =>
    obtain ⟨past, hpast⟩ := ih
    refine ⟨past ++ withdrawnJob, ?_⟩
    rw [System.run, runFrom_append, ← System.run, hpast]
    rfl

/-- The message fails its only attempt. -/
def failedJob : List Operation :=
  [.enqueue (fun _ => 0) "jobs" failingJob,
   .claim (fun _ => 10) ⟨"jobs", "w", "a", "", 0, 0, "g", "", generatedAttemptId_ne⟩,
   .nack (fun _ => 20) "jobs" "m" "a" "w"]

/-- The message with row id `n` is dead-lettered. -/
def deadJob (n : Nat) : System := runFrom System.step (idleJobs n) failedJob

/-- The largest row id there is. -/
def maxRowId : Nat := maxInt64.toNat

theorem exists_run_deadJob (n : Nat) : ∃ past, System.run past = deadJob (n + 2) := by
  obtain ⟨past, hpast⟩ := exists_run_idleJobs n
  refine ⟨past ++ failedJob, ?_⟩
  rw [System.run, runFrom_append, ← System.run, hpast]
  rfl

/-- A dead-lettered message in the last row is on no page: the first one starts below it. -/
theorem not_dlqTraversal_complete :
    ¬ ∀ dlqName past visits messages,
      Paging System.step (dlqRequest dlqName) (System.run past) none visits messages none →
      ∀ i, (∀ v ∈ visits, ∃ row, (i, row) ∈ v.1.db.messages.rows ∧
        deadLettered dlqName row = true) → (messages.map Prod.fst).count i = 1 := by
  intro h
  obtain ⟨past, hpast⟩ : ∃ past, System.run past = deadJob maxRowId :=
    exists_run_deadJob (maxRowId - 2)
  have hjobs := h "jobs_dlq" past
  rw [hpast] at hjobs
  let row := ((deadJob maxRowId).db.messages.rows.head (by decide)).2
  have hcount := hjobs _ _ (.page [] ⟨0, 0⟩ rfl) maxRowId
    (List.forall_mem_singleton.mpr ⟨row, by decide, by decide⟩)
  exact absurd hcount (by decide)

end Nzovu.Repository
