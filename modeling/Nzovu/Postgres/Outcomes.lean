import Nzovu.Foundation.Transaction.Soundness
import Nzovu.Postgres.Transactions
import Nzovu.Repository.Transitions

/-!
# Outcomes of the Postgres Transactions

What a transaction may have done when it commits, in terms of what it knows: the rows it holds,
with their committed and its own versions. `Outcome` covers all calls; that every program ends
in one of its outcomes, whatever the other transactions do in between, is the subject of
`Specs`.

- Section 1: the database the calls start from, and what never changes.
- Section 2: outcomes.
- Section 3: the counter statements.
-/

namespace Nzovu.Postgres

open Nzovu.Foundation
open Nzovu.Repository

/-! ## Section 1: Databases and calls -/

/-- A message row by its id. -/
abbrev message (i : Nat) : Ref Key := ⟨.messages, i⟩

/-- A queue row by its name. -/
abbrev queue (name : String) : Ref Key := ⟨.queues, name⟩

/-- A database that satisfies the constraints of the schema, a clock, and the calls that are
made: call `t` runs in session `t`. -/
structure Setup where
  ids : List Nat
  names : List String
  ids_nodup : ids.Nodup
  names_nodup : names.Nodup
  rows : Store Key Row
  ids_complete : ∀ i, rows (message i) ≠ none → i ∈ ids
  names_complete : ∀ q, rows (queue q) ≠ none → q ∈ names
  unique : (schema ids names ids_nodup names_nodup).Unique rows
  foreignKey : ∀ i (row : MessageRow), rows (message i) = some row →
    rows (queue row.queueName) ≠ none
  clock : Int
  call : Nat → Call

namespace Setup

variable (setup : Setup)

/-- The schema of the database. -/
def schema : Schema Key Row :=
  Postgres.schema setup.ids setup.names setup.ids_nodup setup.names_nodup

/-- The metadata of a queue; no call changes it. -/
def metadata (q : String) : Option QueueMetadata :=
  (setup.rows (queue q)).map fun row : QueueRow => row.metadata

/-- What holds of the committed rows at any time: queues and their metadata are those of the
start, and every message is in one of them. -/
structure Inv (rows : Store Key Row) : Prop where
  queues : ∀ q, (rows (queue q)).map (fun row : QueueRow => row.metadata) = setup.metadata q
  messages : ∀ i (row : MessageRow), rows (message i) = some row →
    setup.metadata row.queueName ≠ none
  ids : ∀ i, rows (message i) ≠ none → i ∈ setup.ids

/-- The world before any call has begun. -/
def start : World Key Row StorageError Reply :=
  World.start setup.clock setup.rows fun t => (setup.call t).program

theorem inv_rows : setup.Inv setup.rows := by
  refine ⟨fun _ => rfl, ?_, setup.ids_complete⟩
  intro i row hrow
  have hqueue := setup.foreignKey i row hrow
  simpa [metadata] using hqueue

variable {setup}

theorem Inv.queue_isSome {rows : Store Key Row} (h : setup.Inv rows) {q : String}
    (hq : setup.metadata q ≠ none) : rows (queue q) ≠ none := by
  intro hnone
  rw [← h.queues q, hnone] at hq
  exact hq rfl

theorem Inv.metadata_ne {rows : Store Key Row} (h : setup.Inv rows) {q : String}
    (hq : rows (queue q) ≠ none) : setup.metadata q ≠ none := by
  rw [← h.queues q]
  simpa using hq

theorem mem_names {q : String} (hq : setup.metadata q ≠ none) : q ∈ setup.names := by
  apply setup.names_complete
  intro hnone
  simp [metadata, hnone] at hq

end Setup

/-! ## Section 2: Outcomes -/

/-- What a session knows of this database. -/
abbrev Knowledge := Local Key Row

/-- The value of a counter. -/
def count (row : QueueRow) (s : MessageState) : Int := row.stateCounts.get (stateToKey s)

/-- The counters of each queue, as the session leaves them, differ by `delta` from the committed
ones. -/
structure Counted (L : Knowledge) (delta : String → MessageState → Int) : Prop where
  free : ∀ q, L.held (queue q) = none → ∀ s, delta q s = 0
  held : ∀ q old new, L.held (queue q) = some (old, new) → ∃ r r' : QueueRow,
    old = some r ∧ new = some r' ∧ r'.metadata = r.metadata ∧
      ∀ s, count r' s = count r s + delta q s

/-- The session has not changed the metadata of a queue, nor added or deleted one. -/
def KeepsQueues (L : Knowledge) : Prop :=
  ∀ q old new, L.held (queue q) = some (old, new) → ∃ r r' : QueueRow,
    old = some r ∧ new = some r' ∧ r'.metadata = r.metadata

/-- The session has not written the messages other than `except`. -/
def Untouched (L : Knowledge) (except : Nat → Prop) : Prop :=
  ∀ i, ¬ except i → ∀ old new, L.held (message i) = some (old, new) → new = old

/-- The session has changed one message. -/
structure Touched (L : Knowledge) (i : Nat) (old : MessageRow) (new : Option MessageRow) :
    Prop where
  held : L.held (message i) = some (some old, new)
  others : Untouched L (· = i)

/-- The counters a change of one row calls for. -/
def rowDelta (old : MessageRow) (new : Option MessageRow) (q : String) (s : MessageState) : Int :=
  (match new with
    | some row => hits row.queueName row.state q s
    | none => 0) - hits old.queueName old.state q s

/-- The row and the event a reply stands for. -/
def Reply.event : Reply → Option (Nat × RowEvent)
  | .claimed (some e) =>
    some (e.1, .claimed (e.2.currentAttemptId.getD "") (e.2.currentWorkerId.getD ""))
  | .claimed none => none
  | .acknowledged i => some (i, .acknowledged)
  | .rejected i => some (i, .rejected)
  | .extended i _ => some (i, .renewed)
  | .heartbeat i _ _ => some (i, .renewed)
  | .reclaimed i _ => some (i, .reclaimed)
  | .requeued ids => ids.head?.map fun i => (i, .requeued)
  | .deleted _ => none

/-- A claim on an EXCLUSIVE queue has seen, while it held the queue's row, that no lease was
live. -/
def Exclusive (setup : Setup) (L : Knowledge) (queueName : String) : Prop :=
  ∀ metadata, setup.metadata queueName = some metadata → metadata.type = .exclusive →
    ∃ s, L.seen = some s ∧ s.locked (queue queueName) = true ∧
      hasActiveLease (setup.schema.scan s.rows .messages) queueName s.clock = false

/-- The calls that take no part in dead-letter handling. -/
def Call.isWork : Call → Bool
  | .acknowledge .. | .nack .. | .extend .. | .heartbeat .. | .reclaim .. => true
  | _ => false

/-- The call moves the lease expiry of the row: an extension does, and a heartbeat that extends. -/
def Call.extendsLease (row : MessageRow) : Call → Bool
  | .extend .. => true
  | .heartbeat .. => heartbeatExtends row.metadata.leasePolicy row
  | _ => false

/-- What a call may have done when it commits. -/
inductive Outcome (setup : Setup) (L : Knowledge) : Call → Reply → Prop where
  /-- No message is eligible, or the queue is taken. -/
  | unclaimed (req : ClaimRequest) (hmessages : Untouched L fun _ => False)
      (hcounted : Counted L fun _ _ => 0) : Outcome setup L (.claim req) (.claimed none)
  | claimed (req : ClaimRequest) (i : Nat) (old : MessageRow) (runtime : LeaseRuntime)
      (selectedAt updatedAt : Int) (hclaim : claimable req.queueName selectedAt old = true)
      (htouched : Touched L i old
        (some (claimRow req.attempt req.worker runtime updatedAt old)))
      (hcounted : Counted L
        (rowDelta old (some (claimRow req.attempt req.worker runtime updatedAt old))))
      (hexclusive : Exclusive setup L req.queueName) :
      Outcome setup L (.claim req)
        (.claimed (some (i, claimRow req.attempt req.worker runtime updatedAt old)))
  /-- A worker or the reclaimer changed the row. -/
  | worked (call : Call) (reply : Reply) (i : Nat) (old new : MessageRow) (e : RowEvent)
      (hcall : call.isWork = true) (hevent : reply.event = some (i, e))
      (ht : RowTransition old (some e) new) (hrunning : old.state = .running)
      (htouched : Touched L i old (some new)) (hcounted : Counted L (rowDelta old (some new)))
      (hlease : call.extendsLease old = false → new.state = .running →
        new.leaseExpiry = old.leaseExpiry) : Outcome setup L call reply
  /-- A worker or the reclaimer deleted the row. -/
  | removed (call : Call) (reply : Reply) (i : Nat) (old : MessageRow) (e : RowEvent)
      (hcall : call.isWork = true) (hevent : reply.event = some (i, e))
      (ht : RowDeletion old (some e)) (hrunning : old.state = .running)
      (htouched : Touched L i old none) (hcounted : Counted L (rowDelta old none)) :
      Outcome setup L call reply
  /-- The requeue's `UPDATE` found a row. The counters move as if it were ERRORED. -/
  | requeued (dlqName messageId target : String) (reset : Bool) (i : Nat) (old : MessageRow)
      (attemptsLeft updatedAt : Int) (haddr : addressed dlqName messageId old = true)
      (htouched : Touched L i old (some (requeueRow target attemptsLeft updatedAt old)))
      (hcounted : Counted L fun q s => hits target .pending q s - hits dlqName .errored q s) :
      Outcome setup L (.retryDLQ dlqName messageId target reset) (.requeued [i])
  /-- The requeue's `UPDATE` found no row; the counters have moved all the same. -/
  | missed (dlqName messageId target : String) (reset : Bool)
      (hmessages : ∀ i, L.held (message i) = none) (hqueues : KeepsQueues L) :
      Outcome setup L (.retryDLQ dlqName messageId target reset) (.requeued [])
  | deleted (queueName messageId : String) (i : Nat) (old : MessageRow)
      (haddr : addressed queueName messageId old = true) (htouched : Touched L i old none)
      (hcounted : Counted L fun q s => - hits queueName .errored q s) :
      Outcome setup L (.deleteDLQ queueName messageId) (.deleted [i])
  | purged (queueName : String) (limit : Nat) (ids : List Nat) (hnodup : ids.Nodup)
      (hheld : ∀ i ∈ ids, ∃ old : MessageRow, old.queueName = queueName ∧
        old.state = .errored ∧ L.held (message i) = some (some old, none))
      (hothers : Untouched L (· ∈ ids))
      (hcounted : Counted L fun q s => - (ids.length * hits queueName .errored q s)) :
      Outcome setup L (.purgeDLQ queueName limit) (.deleted ids)

/-! ## Section 3: Counter statements -/

section Counters

variable {setup : Setup} {L L' : Knowledge}

/-- Only the session's knowledge of the queues differs. -/
structure SameMessages (L L' : Knowledge) : Prop where
  clock : L'.clock = L.clock
  seen : L'.seen = L.seen
  messages : ∀ i, L'.held (message i) = L.held (message i)

theorem SameMessages.refl (L : Knowledge) : SameMessages L L := ⟨rfl, rfl, fun _ => rfl⟩

theorem SameMessages.trans {L'' : Knowledge} (h : SameMessages L L') (h' : SameMessages L' L'') :
    SameMessages L L'' :=
  ⟨h'.clock.trans h.clock, h'.seen.trans h.seen, fun i => (h'.messages i).trans (h.messages i)⟩

theorem SameMessages.untouched {except : Nat → Prop} (h : SameMessages L L')
    (hmessages : Untouched L except) : Untouched L' except := by
  intro i hi old new hheld
  rw [h.messages] at hheld
  exact hmessages i hi old new hheld

theorem SameMessages.touched {i : Nat} {old : MessageRow} {new : Option MessageRow}
    (h : SameMessages L L') (ht : Touched L i old new) : Touched L' i old new :=
  ⟨(h.messages i).trans ht.held, h.untouched ht.others⟩

theorem Counted.keepsQueues {delta : String → MessageState → Int} (h : Counted L delta) :
    KeepsQueues L := by
  intro q old new hheld
  obtain ⟨r, r', hold, hnew, hmeta, -⟩ := h.held q old new hheld
  exact ⟨r, r', hold, hnew, hmeta⟩

theorem count_addCount (row : QueueRow) (state : MessageState) (amount : Int) (s : MessageState) :
    count (row.addCount (stateToKey state) amount) s =
      count row s + if state = s then amount else 0 := by
  have hkey : stateToKey s = stateToKey state ↔ state = s :=
    ⟨fun h => (stateToKey_injective h).symm, fun h => by rw [h]⟩
  simp only [count, QueueRow.addCount, StateCounts.get_set, hkey]
  by_cases hs : state = s
  · subst hs
    simp
  · simp [hs]

/-- What is known after a counter statement wrote the queue's row. -/
def countedLocal (L : Knowledge) (q : String) (old : Option QueueRow) (new : QueueRow) :
    Knowledge :=
  { L with held := Function.update L.held (queue q) (some (old, some new)) }

theorem sameMessages_countedLocal (L : Knowledge) (q : String) (old : Option QueueRow)
    (new : QueueRow) : SameMessages L (countedLocal L q old new) := by
  refine ⟨rfl, rfl, ?_⟩
  intro i
  simp [countedLocal]

theorem Counted.countedLocal {delta : String → MessageState → Int} (h : Counted L delta)
    {q : String} {state : MessageState} {amount : Int} {committed own : QueueRow}
    (hmeta : own.metadata = committed.metadata)
    (hcount : ∀ s, count own s = count committed s + delta q s) :
    Counted (countedLocal L q (some committed) (own.addCount (stateToKey state) amount))
      fun q' s => delta q' s + amount * hits q state q' s := by
  constructor
  · intro q' hfree s
    by_cases hq : q' = q
    · subst hq
      simp [Postgres.countedLocal] at hfree
    · have hne : queue q' ≠ queue q := by simpa [queue] using hq
      simp only [Postgres.countedLocal, Function.update_of_ne hne] at hfree
      simp [h.free q' hfree s, hits, Ne.symm hq]
  · intro q' old new hheld
    by_cases hq : q' = q
    · subst hq
      simp only [Postgres.countedLocal, Function.update_self, Option.some.injEq,
        Prod.mk.injEq] at hheld
      refine ⟨committed, own.addCount (stateToKey state) amount, hheld.1.symm, hheld.2.symm,
        hmeta, ?_⟩
      intro s
      rw [count_addCount, hcount]
      by_cases hs : state = s <;> simp [hits, hs]
      ring
    · have hne : queue q' ≠ queue q := by simpa [queue] using hq
      simp only [Postgres.countedLocal, Function.update_of_ne hne] at hheld
      obtain ⟨r, r', hold, hnew, hmeta', hcount'⟩ := h.held q' old new hheld
      refine ⟨r, r', hold, hnew, hmeta', ?_⟩
      intro s
      simp [hcount' s, hits, Ne.symm hq]

theorem acquire_write_queue (L : Knowledge) (q : String) (row new : QueueRow) :
    (L.acquire Tab.queues q row).write Tab.queues q (some new) =
      countedLocal L q (some row) new := by
  simp [Local.acquire, Local.write, Postgres.countedLocal, queue]

theorem write_queue {q : String} {old own : Option QueueRow} {new : QueueRow}
    (hheld : L.held (queue q) = some (old, own)) :
    L.write Tab.queues q (some new) = countedLocal L q old new := by
  have hheld' : L.held ⟨Tab.queues, q⟩ = some (old, own) := hheld
  simp [Local.write, Postgres.countedLocal, queue, hheld']

/-- **Counter rule**: a counter statement on an existing queue adds its amount. -/
theorem safe_addCounter {q : String} {state : MessageState} {amount : Int}
    {delta : String → MessageState → Int} {post : Unit → Knowledge → Prop}
    (hcounted : Counted L delta) (hq : setup.metadata q ≠ none)
    (h : ∀ L', SameMessages L L' →
      Counted L' (fun q' s => delta q' s + amount * hits q state q' s) → post () L') :
    (addCounter q state amount).Safe setup.schema setup.Inv post L := by
  apply Program.safe_bind
  rcases hheld : L.held (queue q) with _ | ⟨old, own⟩
  · refine Program.safe_modify_key (κ := Key) (T := Tab.queues) (x := q) ?_ hheld ?_ ?_
    · intro name row
      simp
    · intro hmissing
      rcases hmissing with hkeys | ⟨rows, hsees, hnone⟩
      · exact absurd (Setup.mem_names hq) hkeys
      · exact absurd hnone (hsees.inv.queue_isSome hq)
    · intro row
      rw [acquire_write_queue]
      apply h _ (sameMessages_countedLocal _ _ _ _)
      apply hcounted.countedLocal rfl
      intro s
      rw [hcounted.free q hheld s, add_zero]
  · obtain ⟨r, r', rfl, rfl, hmeta, hcount⟩ := hcounted.held q old own hheld
    apply Program.safe_modify_held hheld (by simp)
    · intro x y a b hx hy
      rw [decide_eq_true_eq] at hx hy
      exact Or.inl (hx.trans hy.symm)
    · intro _
      rw [write_queue hheld]
      exact h _ (sameMessages_countedLocal _ _ _ _) (hcounted.countedLocal hmeta hcount)

theorem KeepsQueues.countedLocal (h : KeepsQueues L) {q : String} {committed own : QueueRow}
    {state : MessageState} {amount : Int} (hmeta : own.metadata = committed.metadata) :
    KeepsQueues
      (countedLocal L q (some committed) (own.addCount (stateToKey state) amount)) := by
  intro q' old new hheld
  by_cases hq : q' = q
  · subst hq
    simp only [Postgres.countedLocal, Function.update_self, Option.some.injEq,
      Prod.mk.injEq] at hheld
    exact ⟨committed, _, hheld.1.symm, hheld.2.symm, hmeta⟩
  · have hne : queue q' ≠ queue q := by simpa [queue] using hq
    simp only [Postgres.countedLocal, Function.update_of_ne hne] at hheld
    exact h q' old new hheld

/-- A counter statement on a queue that may not exist. -/
theorem safe_addCounter_any {q : String} {state : MessageState} {amount : Int}
    {post : Unit → Knowledge → Prop} (hkeeps : KeepsQueues L)
    (h : ∀ L', SameMessages L L' → KeepsQueues L' → post () L') :
    (addCounter q state amount).Safe setup.schema setup.Inv post L := by
  apply Program.safe_bind
  rcases hheld : L.held (queue q) with _ | ⟨old, own⟩
  · refine Program.safe_modify_key (κ := Key) (T := Tab.queues) (x := q) ?_ hheld ?_ ?_
    · intro name row
      simp
    · intro _
      exact h L (SameMessages.refl L) hkeeps
    · intro row
      rw [acquire_write_queue]
      exact h _ (sameMessages_countedLocal _ _ _ _) (hkeeps.countedLocal rfl)
  · obtain ⟨r, r', rfl, rfl, hmeta⟩ := hkeeps q old own hheld
    apply Program.safe_modify_held hheld (by simp)
    · intro x y a b hx hy
      rw [decide_eq_true_eq] at hx hy
      exact Or.inl (hx.trans hy.symm)
    · intro _
      rw [write_queue hheld]
      exact h _ (sameMessages_countedLocal _ _ _ _) (hkeeps.countedLocal hmeta)

/-! ### The statements of the state manager -/

theorem safe_moveCounter {q q₁ : String} {s s₁ : MessageState}
    {post : Unit → Knowledge → Prop} (hcounted : Counted L fun _ _ => 0)
    (hq : setup.metadata q ≠ none) (hq₁ : setup.metadata q₁ ≠ none)
    (h : ∀ L', SameMessages L L' →
      Counted L' (fun q' s' => hits q₁ s₁ q' s' - hits q s q' s') → post () L') :
    (moveCounter q s q₁ s₁).Safe setup.schema setup.Inv post L := by
  apply Program.safe_bind
  apply safe_addCounter hcounted hq
  intro L₁ hsame₁ hcounted₁
  apply safe_addCounter hcounted₁ hq₁
  intro L₂ hsame₂ hcounted₂
  apply h L₂ (hsame₁.trans hsame₂)
  convert hcounted₂ using 3
  ring

theorem safe_updateCounters {q : String} {s s₁ : MessageState} {post : Unit → Knowledge → Prop}
    (hcounted : Counted L fun _ _ => 0) (hq : setup.metadata q ≠ none)
    (h : ∀ L', SameMessages L L' →
      Counted L' (fun q' s' => hits q s₁ q' s' - hits q s q' s') → post () L') :
    (updateCounters q s s₁).Safe setup.schema setup.Inv post L := by
  unfold updateCounters
  by_cases hs : s = s₁
  · subst hs
    rw [if_pos rfl]
    apply h L (SameMessages.refl L)
    simpa using hcounted
  · rw [if_neg hs]
    exact safe_moveCounter hcounted hq hq h

theorem safe_removeCounters {q : String} {s : MessageState} {n : Nat}
    {post : Unit → Knowledge → Prop} (hcounted : Counted L fun _ _ => 0)
    (hq : n ≠ 0 → setup.metadata q ≠ none)
    (h : ∀ L', SameMessages L L' →
      Counted L' (fun q' s' => -(n * hits q s q' s')) → post () L') :
    (removeCounters q s n).Safe setup.schema setup.Inv post L := by
  unfold removeCounters
  rw [if_neg (by omega)]
  by_cases hn : n = 0
  · subst hn
    rw [if_pos (by simp)]
    apply h L (SameMessages.refl L)
    simpa using hcounted
  · rw [if_neg (by omega)]
    apply safe_addCounter hcounted (hq hn)
    intro L' hsame hcounted'
    apply h L' hsame
    convert hcounted' using 3
    ring

end Counters

end Nzovu.Postgres
