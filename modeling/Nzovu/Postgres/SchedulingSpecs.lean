import Nzovu.Postgres.Scheduling

/-!
# Outcomes of Posts, Cancellations and Activations

What a session of a `Scheduling` may have done when it commits, and that its program ends in no
other way. A scheduler has collected its candidate with a plain `SELECT`, so the outcome of an
activation speaks of the collected row and of the row it has found under the same id; nothing is
said yet on how the two are related.

- Section 1: outcomes.
- Section 2: posts.
- Section 3: cancellations and activations.
- Section 4: all sessions.
-/

namespace Nzovu.Postgres

open Nzovu.Foundation
open Nzovu.Repository
open Nzovu.Background

/-! ## Section 1: Outcomes -/

section Outcomes

variable (setup : Setup) (drawn : List Nat) (L : Knowledge)

/-- Of the messages, the session has only inserted rows, under ids it has drawn. -/
def InsertsOnly : Prop :=
  ∀ i old new, L.held (message i) = some (old, new) → new = old ∨ i ∈ drawn ∧ old = none ∧
    ∃ row : MessageRow, new = some row ∧ Stored row ∧ setup.metadata row.queueName ≠ none

/-- What a session may have done when it commits. -/
inductive ScheduleOutcome : Answer → Prop where
  /-- A post, a claim without a message, or a candidate that was not activated. -/
  | quiet (answer : Answer) (hevent : answer.event = none)
      (hmessages : InsertsOnly setup drawn L) : ScheduleOutcome answer
  | claimed (req : ClaimRequest) (i : Nat) (old : MessageRow) (runtime : LeaseRuntime)
      (updatedAt : Int) (hpending : old.state = .pending)
      (hdue : ∀ t, old.scheduledAt = some t → t ≤ L.clock)
      (htouched : Touched L i old
        (some (claimRow req.attempt req.worker runtime updatedAt old))) :
      ScheduleOutcome
        (.storage (.claimed (some (i, claimRow req.attempt req.worker runtime updatedAt old))))
  | canceled (i : Nat) (old : MessageRow) (new : Option MessageRow) (htouched : Touched L i old new)
      (hnew : ∀ row, new = some row →
        ∃ nowMs deletedAt reason, row = cancelRow nowMs deletedAt reason old) :
      ScheduleOutcome (.canceled i)
  /-- The state of the counters is the one in the collected row. -/
  | activated (i : Nat) (s : Snapshot Key Row) (collected old : MessageRow) (updatedAt : Int)
      (hseen : L.seen = some s) (hcollected : s.rows (message i) = some collected)
      (hinvisible : collected.state = .invisible) (hstill : old.state = .invisible)
      (htouched : Touched L i old
        (some (activateRow { collected.metadata with state := .pending } updatedAt old)))
      (hcounted : Counted L fun q s => hits collected.queueName .pending q s -
        hits collected.queueName collected.metadata.state q s) :
      ScheduleOutcome (.activated (some i))

/-- The outcome, and that queues stay with their metadata. -/
structure Concludes (answer : Answer) : Prop where
  queues : KeepsQueues L
  outcome : ScheduleOutcome setup drawn L answer

/-- A post that is under way: it holds its ids, under which there were no rows. -/
structure Inserting : Prop where
  queues : KeepsQueues L
  messages : InsertsOnly setup drawn L
  own : ∀ i ∈ drawn, ∃ new, L.held (message i) = some (none, new)

end Outcomes

section Specs

variable {setup : Setup} {drawn : List Nat} {L L' : Knowledge}

theorem KeepsQueues.of_held (h : KeepsQueues L)
    (hheld : ∀ q, L'.held (queue q) = L.held (queue q)) : KeepsQueues L' := by
  intro q old new hq
  rw [hheld] at hq
  exact h q old new hq

theorem Untouched.insertsOnly (h : Untouched L fun _ => False) : InsertsOnly setup drawn L :=
  fun i old new hheld => .inl (h i not_false old new hheld)

/-! ## Section 2: Posts -/

theorem Inserting.of_messages (h : Inserting setup drawn L) (hqueues : KeepsQueues L')
    (hmessages : ∀ i, L'.held (message i) = L.held (message i)) : Inserting setup drawn L' := by
  refine ⟨hqueues, ?_, ?_⟩
  · intro i old new hheld
    rw [hmessages] at hheld
    exact h.messages i old new hheld
  · intro i hi
    rw [hmessages]
    exact h.own i hi

/-- One more row. -/
theorem Inserting.write (h : Inserting setup drawn L) {i : Nat} (hi : i ∈ drawn) {row : MessageRow}
    (hstored : Stored row) (hqueue : setup.metadata row.queueName ≠ none) :
    Inserting setup drawn (L.write Tab.messages i (some row)) := by
  have hother : ∀ j, j ≠ i →
      (L.write Tab.messages i (some row)).held (message j) = L.held (message j) := by
    intro j hj
    exact Function.update_of_ne (by simpa [message] using hj) _ _
  obtain ⟨own, hown⟩ := h.own i hi
  have hself : (L.write Tab.messages i (some row)).held (message i) = some (none, some row) := by
    have hown' : L.held ⟨Tab.messages, i⟩ = some (none, own) := hown
    simp [Local.write, hown']
  refine ⟨h.queues.of_held fun q => held_write_message i (some row) q, ?_, ?_⟩
  · intro j old new hheld
    by_cases hj : j = i
    · subst hj
      rw [hself] at hheld
      cases hheld
      exact .inr ⟨hi, rfl, row, rfl, hstored, hqueue⟩
    · rw [hother j hj] at hheld
      exact h.messages j old new hheld
  · intro j hj
    by_cases hji : j = i
    · subst hji
      exact ⟨_, hself⟩
    · rw [hother j hji]
      exact h.own j hj

theorem stored_newRow (queueName messageId : String) (metadata : MessageMetadata) (nowMs : Int) :
    Stored (newRow queueName messageId metadata (metadata.scheduledTime.map unixMilli) nowMs
      nowMs) :=
  ⟨rfl, id⟩

theorem safe_enqueueMessageInTx {id : Nat} {queueName : String} {message : Message}
    {post : Unit → Knowledge → Prop} (h : Inserting setup drawn L) (hid : id ∈ drawn)
    (hpost : ∀ L', Inserting setup drawn L' → post () L') :
    (enqueueMessageInTx id queueName message).Safe setup.schema setup.Inv post L := by
  unfold enqueueMessageInTx
  split
  · trivial
  · rename_i metadata _
    apply Program.safe_bind
    intro nowMs _
    have hclock : Inserting setup drawn (L.atClock nowMs) :=
      h.of_messages (h.queues.of_held fun _ => rfl) fun _ => rfl
    obtain ⟨own, hown⟩ := h.own id hid
    have hheld : (L.atClock nowMs).held ⟨Tab.messages, id⟩ ≠ none := by
      intro hnone
      have : L.held (Postgres.message id) = none := hnone
      rw [hown] at this
      cases this
    apply Program.safe_bind
    apply Program.safe_insert hheld
    intro hrefers
    have hwritten := hclock.write hid (stored_newRow queueName message.messageId metadata nowMs)
      (metadata_of_refers hclock.queues hrefers)
    apply safe_addCounter_any hwritten.queues
    intro L' hsame hkeeps
    exact hpost L' (hwritten.of_messages hkeeps hsame.messages)

theorem safe_enqueueAll {queueName : String} {messages : List (Nat × Message)}
    {post : Unit → Knowledge → Prop} (hids : ∀ e ∈ messages, e.1 ∈ drawn)
    (hpost : ∀ L', Inserting setup drawn L' → post () L') :
    ∀ (k : Nat) (L : Knowledge), Inserting setup drawn L →
      (enqueueAll queueName k messages).Safe setup.schema setup.Inv post L := by
  induction messages with
  | nil => exact fun _ L h => hpost L h
  | cons e rest ih =>
    intro k L h
    apply Program.safe_bind
    apply Program.safe_mapError
    apply safe_enqueueMessageInTx h (hids e List.mem_cons_self)
    intro L' h'
    exact ih (fun d hd => hids d (List.mem_cons_of_mem _ hd)) (k + 1) L' h'

/-! ## Section 3: Cancellations and activations -/

theorem safe_cancelMessage (queueName messageId reason : String) (hfree : Free L) :
    (cancelMessage queueName messageId reason).Safe setup.schema setup.Inv
      (fun answer L => Concludes setup drawn L answer) L := by
  apply Program.safe_bind
  apply safe_getQueueMetadata hfree
  intro metadata L₁ hmeta hfree₁
  have hq : setup.metadata queueName ≠ none := by simp [hmeta]
  apply Program.safe_bind
  apply safe_selectMessage (fun i => hfree₁ (message i)) hfree₁.counted
  · exact .inl (selectsOne_of_addressed queueName messageId fun _ _ h => h)
  · trivial
  · intro i old L₂ haddr _ htouched hcounted
    dsimp only
    split
    · trivial
    · rename_i hstate
      apply Program.safe_bind
      apply safe_calculateDeletion
      intro deletion L₃ hheld₃
      obtain ⟨shouldDelete, deletedAt⟩ := deletion
      apply Program.safe_bind
      intro nowMs _
      have htouched₃ : Touched (L₃.atClock nowMs) i old (some old) :=
        (htouched.of_held hheld₃).of_held rfl
      have hcounted₃ : Counted (L₃.atClock nowMs) fun _ _ => 0 :=
        hcounted.of_held fun q => congrFun hheld₃ (queue q)
      -- The locked row is still INVISIBLE or PENDING.
      have hguard : (addressed queueName messageId old &&
          (old.state = .invisible || old.state = .pending)) = true := by
        have haddr' : addressed queueName messageId old = true := haddr
        cases hs : old.state <;> simp_all
      have hone : SelectsOne (κ := Key) (T := Tab.messages) setup.schema fun (_ : Nat) row =>
          addressed queueName messageId row &&
            (row.state = .invisible || row.state = .pending) := by
        apply selectsOne_of_addressed queueName messageId
        intro _ row h
        exact (Bool.and_eq_true_iff.mp h).1
      rcases shouldDelete with _ | _
      · simp only [Program.safe_done, Bool.false_eq_true, if_false]
        apply Program.safe_bind
        apply safe_modifyTouched htouched₃ hcounted₃ hguard hone
        intro L₄ _ htouched₄ hcounted₄ _
        apply Program.safe_bind
        apply safe_updateCounters hcounted₄ hq
        intro L₅ hsame hcounted₅
        refine ⟨hcounted₅.keepsQueues, .canceled i old _ (hsame.touched htouched₄) ?_⟩
        intro row hrow
        cases hrow
        exact ⟨_, _, _, rfl⟩
      · simp only [Program.safe_done, if_true]
        apply Program.safe_bind
        apply safe_modifyTouched htouched₃ hcounted₃ hguard hone
        intro L₄ _ htouched₄ hcounted₄ _
        apply Program.safe_bind
        apply safe_removeCounters (n := 1) hcounted₄ (fun _ => hq)
        intro L₅ hsame hcounted₅
        refine ⟨hcounted₅.keepsQueues, .canceled i old none (hsame.touched htouched₄) ?_⟩
        intro row hrow
        cases hrow

/-- What the scheduler remembers of a row. -/
structure Collected (L : Knowledge) (candidate : ScheduledMessage) (s : Snapshot Key Row)
    (row : MessageRow) : Prop where
  seen : L.seen = some s
  found : s.rows (message candidate.id) = some row
  invisible : row.state = .invisible
  queueName : candidate.queueName = row.queueName
  metadata : candidate.metadata = row.metadata

theorem safe_collectScheduledMessages {nowMs : Int} {limit : Nat}
    {post : List ScheduledMessage → Knowledge → Prop} (hfree : Free L)
    (h : ∀ candidates L', Free L' → (∀ candidate ∈ candidates, ∃ s row,
      Collected L' candidate s row ∧ setup.metadata candidate.queueName ≠ none) →
        post candidates L') :
    (collectScheduledMessages nowMs limit).Safe setup.schema setup.Inv post L := by
  apply Program.safe_bind
  intro rows clock hsees _
  rw [hfree.view]
  apply h
  · exact hfree.of_held rfl
  · intro candidate hcandidate
    obtain ⟨e, he, rfl⟩ := List.mem_map.mp hcandidate
    have hdue := List.mem_filter.mp ((List.mem_insertionSort _).mp (List.mem_of_mem_take he))
    obtain ⟨hscan, hinvisible⟩ := hdue
    have hrow : rows (message e.1) = some e.2 := (Schema.mem_scan _).mp hscan |>.2
    simp only [Bool.and_eq_true, decide_eq_true_eq] at hinvisible
    exact ⟨_, e.2, ⟨rfl, hrow, hinvisible.1, rfl, rfl⟩, hsees.inv.messages e.1 e.2 hrow⟩

theorem safe_activateMessage {candidate : ScheduledMessage} {s : Snapshot Key Row}
    {row : MessageRow} (hfree : Free L) (hcollected : Collected L candidate s row)
    (hq : setup.metadata candidate.queueName ≠ none) :
    (activateMessage candidate).Safe setup.schema setup.Inv
      (fun answer L => Concludes setup drawn L answer) L := by
  apply Program.safe_bind
  intro updatedAt _
  have hfree₁ : Free (L.atClock updatedAt) := hfree.of_held rfl
  apply Program.safe_bind
  apply safe_modifyMessage hfree₁
  · intro x y a b hx hy
    simp only [Bool.and_eq_true, decide_eq_true_eq] at hx hy
    exact .inl (hx.1.1.trans hy.1.1.symm)
  · exact ⟨hfree₁.counted.keepsQueues, .quiet _ rfl hfree₁.untouched.insertsOnly⟩
  · intro i old L₂ hguard htouched hcounted _ hsame₂
    simp only [Bool.and_eq_true, decide_eq_true_eq] at hguard
    obtain ⟨⟨rfl, hstill⟩, -⟩ := hguard
    apply Program.safe_bind
    apply safe_updateCounters hcounted hq
    intro L₃ hsame₃ hcounted₃
    refine ⟨hcounted₃.keepsQueues, .activated candidate.id s row old updatedAt ?_ hcollected.found
      hcollected.invisible hstill ?_ ?_⟩
    · rw [hsame₃.seen, hsame₂.seen]
      exact hcollected.seen
    · rw [← hcollected.metadata]
      exact hsame₃.touched htouched
    · rw [← hcollected.metadata, ← hcollected.queueName]
      exact hcounted₃

theorem safe_processCandidate (batchSize index : Nat) (hfree : Free L) :
    (processCandidate batchSize index).Safe setup.schema setup.Inv
      (fun answer L => Concludes setup drawn L answer) L := by
  apply Program.safe_bind
  intro nowMs _
  have hfree₁ : Free (L.atClock nowMs) := hfree.of_held rfl
  apply Program.safe_bind
  apply safe_collectScheduledMessages hfree₁
  intro candidates L₂ hfree₂ hcollected
  split
  · exact ⟨hfree₂.counted.keepsQueues, .quiet _ rfl hfree₂.untouched.insertsOnly⟩
  · rename_i candidate hcandidate
    obtain ⟨s, row, hrow, hq⟩ := hcollected candidate (List.mem_of_getElem? hcandidate)
    exact safe_activateMessage hfree₂ hrow hq

/-- A claim, in the terms of this module. -/
theorem concludes_claim {req : ClaimRequest} {reply : Reply}
    (h : Outcome setup L (.claim req) reply) (hdue : Due L reply) :
    Concludes setup drawn L (.storage reply) := by
  cases h with
  | unclaimed _ hmessages hcounted =>
    exact ⟨hcounted.keepsQueues, .quiet _ rfl hmessages.insertsOnly⟩
  | claimed _ i old runtime selectedAt updatedAt hclaim htouched hcounted _ =>
    have hdue' : ∀ t, old.scheduledAt = some t → t ≤ L.clock := fun t ht => hdue _ rfl t ht
    exact ⟨hcounted.keepsQueues,
      .claimed req i old runtime updatedAt (claimable_iff.mp hclaim).state hdue' htouched⟩
  | worked _ _ _ _ _ _ hcall => cases hcall
  | removed _ _ _ _ _ hcall => cases hcall

end Specs

/-! ## Section 4: All sessions -/

namespace Scheduling

variable (s : Scheduling)

/-- The ids session `t` draws. -/
def drawnIn (t : Nat) : List Nat := ((s.request t).map Request.ids).getD []

variable {s} in
theorem mem_drawnIn {t i : Nat} : i ∈ s.drawnIn t ↔ s.drawnBy i = some t := by
  rw [s.drawn]
  unfold drawnIn
  cases s.request t with
  | none => simp
  | some r => simp

/-- What session `t` knows at the start. -/
abbrev startLocal (t : Nat) : Knowledge := .startHolding s.clock s.rows s.owner t

theorem held_queue_startLocal (t : Nat) (q : String) : (s.startLocal t).held (queue q) = none :=
  rfl

theorem held_message_startLocal (t i : Nat) : (s.startLocal t).held (message i) =
    if s.drawnBy i = some t then some (s.rows (message i), s.rows (message i)) else none :=
  rfl

theorem inserting_startLocal (t : Nat) :
    Inserting s.toSetup (s.drawnIn t) (s.startLocal t) := by
  refine ⟨?_, ?_, ?_⟩
  · intro q old new hheld
    rw [held_queue_startLocal] at hheld
    cases hheld
  · intro i old new hheld
    rw [held_message_startLocal] at hheld
    split at hheld
    · cases hheld
      exact .inl rfl
    · cases hheld
  · intro i hi
    have hdrawn := mem_drawnIn.mp hi
    rw [held_message_startLocal, if_pos hdrawn, (s.fresh i t hdrawn).2]
    exact ⟨_, rfl⟩

theorem free_startLocal {t : Nat} (h : s.drawnIn t = []) : Free (s.startLocal t) := by
  rintro ⟨T, x⟩
  cases T with
  | queues => rfl
  | messages =>
    have hnot : ¬ s.drawnBy x = some t := by
      rw [← mem_drawnIn, h]
      exact List.not_mem_nil
    exact (s.held_message_startLocal t x).trans (if_neg hnot)

/-- What a committing session has established. -/
def post (t : Nat) (answer : Answer) (L : Knowledge) : Prop :=
  Concludes s.toSetup (s.drawnIn t) L answer

/-- **Every session ends in one of its outcomes.** -/
theorem safe_program (t : Nat) :
    (s.program t).Safe s.schema s.Inv (s.post t) (s.startLocal t) := by
  have hposted : ∀ ids L, Inserting s.toSetup (s.drawnIn t) L → s.post t (.posted ids) L :=
    fun _ _ h => ⟨h.queues, .quiet _ rfl h.messages⟩
  unfold program
  cases hrequest : s.request t with
  | none =>
    obtain ⟨req, hcall⟩ := s.claims t hrequest
    have hdrawn : s.drawnIn t = [] := by simp [drawnIn, hrequest]
    simp only [hcall]
    apply Program.safe_bind
    apply (safe_claimDue req (s.free_startLocal hdrawn)).mono
    intro reply L h
    exact concludes_claim h.1 h.2
  | some r =>
    cases r with
    | enqueue id queueName m =>
      have hid : id ∈ s.drawnIn t := by simp [drawnIn, hrequest, Request.ids]
      apply Program.safe_bind
      exact safe_enqueueMessageInTx (s.inserting_startLocal t) hid (hposted _)
    | enqueueAll queueName messages =>
      have hids : ∀ e ∈ messages, e.1 ∈ s.drawnIn t := by
        intro e he
        simpa [drawnIn, hrequest, Request.ids] using ⟨e.2, he⟩
      apply Program.safe_bind
      exact safe_enqueueAll hids (hposted _) 0 _ (s.inserting_startLocal t)
    | cancel queueName messageId reason =>
      have hdrawn : s.drawnIn t = [] := by simp [drawnIn, hrequest, Request.ids]
      exact safe_cancelMessage queueName messageId reason (s.free_startLocal hdrawn)
    | activate batchSize index =>
      have hdrawn : s.drawnIn t = [] := by simp [drawnIn, hrequest, Request.ids]
      exact safe_processCandidate batchSize index (s.free_startLocal hdrawn)

end Scheduling

end Nzovu.Postgres
