import Nzovu.Postgres.Outcomes

/-!
# Specifications of the Postgres Transactions

Every call ends in an `Outcome`, or not at all. Each proof follows the statements of its
program: at a plain read nothing is known of the rows but what never changes; at a locking
statement the row is acquired; a later statement with the same guard finds the acquired row
again, because a locked row stays as it is.

- Section 1: rules for the statements on messages.
- Section 2: claiming.
- Section 3: the holder's operations and the reclaimer.
- Section 4: dead letters, and all calls.
-/

namespace Nzovu.Postgres

open Nzovu.Foundation
open Nzovu.Repository

section Rules

variable {setup : Setup} {L : Knowledge}

/-! ## Section 1: Statements on messages -/

/-- The session has locked nothing. -/
def Free (L : Knowledge) : Prop := ∀ i, L.held i = none

theorem Free.of_held {L' : Knowledge} (h : Free L) (hheld : L'.held = L.held) : Free L' := by
  intro i
  rw [hheld]
  exact h i

theorem Free.counted (h : Free L) : Counted L fun _ _ => 0 := by
  refine ⟨fun _ _ _ => rfl, ?_⟩
  intro q old new hheld
  rw [h] at hheld
  cases hheld

theorem Free.untouched (h : Free L) : Untouched L fun _ => False := by
  intro i _ old new hheld
  rw [h] at hheld
  cases hheld

theorem Free.view (h : Free L) (rows : Store Key Row) : L.view rows = rows := by
  funext i
  simp [Local.view, h i]

/-- The session has read nothing more. -/
structure SameReads (L L' : Knowledge) : Prop where
  clock : L'.clock = L.clock
  seen : L'.seen = L.seen

theorem Touched.of_held {L' : Knowledge} {i : Nat} {old : MessageRow} {new : Option MessageRow}
    (h : Touched L i old new) (hheld : L'.held = L.held) : Touched L' i old new := by
  constructor
  · rw [hheld]
    exact h.held
  · intro j hj o n hj'
    rw [hheld] at hj'
    exact h.others j hj o n hj'

theorem Counted.of_held {L' : Knowledge} {delta : String → MessageState → Int}
    (h : Counted L delta) (hheld : ∀ q, L'.held (queue q) = L.held (queue q)) :
    Counted L' delta := by
  constructor
  · intro q hfree
    rw [hheld] at hfree
    exact h.free q hfree
  · intro q old new hq
    rw [hheld] at hq
    exact h.held q old new hq

theorem held_acquire_message (i : Nat) (row : MessageRow) (q : String) :
    (L.acquire Tab.messages i row).held (queue q) = L.held (queue q) := by
  simp [Local.acquire]

theorem held_write_message (i : Nat) (row : Option MessageRow) (q : String) :
    (L.write Tab.messages i row).held (queue q) = L.held (queue q) := by
  simp [Local.write]

/-- A locked row is its own committed version. -/
theorem touched_acquire (hfree : ∀ j, L.held (message j) = none) (i : Nat) (row : MessageRow) :
    Touched (L.acquire Tab.messages i row) i row (some row) := by
  constructor
  · simp [Local.acquire]
  · intro j hj old new hheld
    have hne : message j ≠ message i := by simpa [message] using hj
    simp only [Local.acquire] at hheld
    rw [Function.update_of_ne hne, hfree] at hheld
    cases hheld

theorem Touched.write {i : Nat} {old : MessageRow} {own : Option MessageRow}
    (h : Touched L i old own) (new : Option MessageRow) :
    Touched (L.write Tab.messages i new) i old new := by
  have hheld' : L.held ⟨Tab.messages, i⟩ = some (some old, own) := h.held
  constructor
  · simp [Local.write, hheld']
  · intro j hj old' new' hheld
    have hne : message j ≠ message i := by simpa [message] using hj
    simp only [Local.write] at hheld
    rw [Function.update_of_ne hne] at hheld
    exact h.others j hj old' new' hheld

/-- A `WHERE` clause that fixes queue and message id selects one row. -/
theorem selectsOne_of_addressed {filter : Nat → MessageRow → Bool} (queueName messageId : String)
    (h : ∀ i row, filter i row = true → addressed queueName messageId row = true) :
    SelectsOne (κ := Key) (T := Tab.messages) setup.schema filter := by
  intro i j a b ha hb
  obtain ⟨hqa, hma⟩ := addressed_iff.mp (h i a ha)
  obtain ⟨hqb, hmb⟩ := addressed_iff.mp (h j b hb)
  refine Or.inr ?_
  simp [Setup.schema, schema, clash, MessageRow.uniqueKey, hqa, hma, hqb, hmb]

theorem addressed_of_owned {queueName messageId attemptId workerId : String} {nowMs : Int}
    {row : MessageRow} (h : owned queueName messageId attemptId workerId nowMs row = true) :
    addressed queueName messageId row = true :=
  addressed_iff.mpr ⟨(owned_iff.mp h).queue, (owned_iff.mp h).message⟩

/-- A written message is in a queue that exists. -/
theorem metadata_of_refers {row : MessageRow} (hkeeps : KeepsQueues L)
    (h : L.Refers setup.schema setup.Inv Tab.messages (some row)) :
    setup.metadata row.queueName ≠ none := by
  obtain ⟨rows, hsees, hrefs⟩ := h
  have hview := hrefs row rfl (queue row.queueName) (by simp [Setup.schema, schema, requires])
  apply hsees.inv.metadata_ne
  rcases hheld : L.held (queue row.queueName) with _ | ⟨old, new⟩
  · simpa [Local.view, hheld] using hview
  · obtain ⟨r, r', rfl, -, -⟩ := hkeeps _ old new hheld
    rw [hsees.base _ _ _ hheld]
    simp

/-- **Rule for a statement on the message the session holds**. -/
theorem safe_modifyTouched {i : Nat} {old row : MessageRow} {delta : String → MessageState → Int}
    {filter : Nat → MessageRow → Bool} {set : MessageRow → Option MessageRow}
    {refused : Violation → StorageError} {post : List (Nat × MessageRow) → Knowledge → Prop}
    (htouched : Touched L i old (some row)) (hcounted : Counted L delta)
    (hfilter : filter i row = true)
    (hone : SelectsOne (κ := Key) (T := Tab.messages) setup.schema filter)
    (h : ∀ L', SameReads L L' → Touched L' i old (set row) → Counted L' delta →
      (∀ new, set row = some new → setup.metadata new.queueName ≠ none) →
        post [(i, row)] L') :
    (Program.modify Tab.messages filter set refused : Transaction _).Safe setup.schema setup.Inv
      post L := by
  apply Program.safe_modify_held htouched.held hfilter hone
  intro hrefers
  refine h (L.write Tab.messages i (set row)) ⟨rfl, rfl⟩ (htouched.write (set row)) ?_ ?_
  · apply hcounted.of_held
    intro q
    exact held_write_message i (set row) q
  · intro new hnew
    rw [hnew] at hrefers
    exact metadata_of_refers hcounted.keepsQueues hrefers

/-- **Rule for a locking `SELECT` of one message**. -/
theorem safe_selectMessage {s : Selection Key Row Tab.messages}
    {post : List (Nat × MessageRow) → Knowledge → Prop}
    (hfresh : ∀ i, L.held (message i) = none) (hcounted : Counted L fun _ _ => 0)
    (hone : SelectsOne setup.schema s.filter ∨ s.limit = some 1) (hnone : post [] L)
    (hsome : ∀ i row L', s.filter i row = true → SameReads L L' →
      Touched L' i row (some row) → Counted L' (fun _ _ => 0) → post [(i, row)] L') :
    (selectMessages s).Safe setup.schema setup.Inv post L := by
  apply Program.safe_select_one hfresh hone hnone
  intro i row hfilter
  refine hsome i row (L.acquire Tab.messages i row) hfilter ⟨rfl, rfl⟩
    (touched_acquire hfresh i row) ?_
  apply hcounted.of_held
  intro q
  exact held_acquire_message i row q

/-- **Rule for a statement on one message that is not locked yet**. -/
theorem safe_modifyMessage {filter : Nat → MessageRow → Bool}
    {set : MessageRow → Option MessageRow} {refused : Violation → StorageError}
    {post : List (Nat × MessageRow) → Knowledge → Prop} (hfree : Free L)
    (hone : SelectsOne (κ := Key) (T := Tab.messages) setup.schema filter) (hnone : post [] L)
    (hsome : ∀ i row L', filter i row = true → Touched L' i row (set row) →
      Counted L' (fun _ _ => 0) →
      (∀ new, set row = some new → setup.metadata new.queueName ≠ none) → SameReads L L' →
        post [(i, row)] L') :
    (Program.modify Tab.messages filter set refused : Transaction _).Safe setup.schema setup.Inv
      post L := by
  apply Program.safe_modify_one (fun i => hfree (message i)) hone hnone
  intro i row hfilter hrefers
  have hcounted : Counted (L.acquire Tab.messages i row) fun _ _ => 0 := by
    apply hfree.counted.of_held
    intro q
    exact held_acquire_message i row q
  refine hsome i row _ hfilter ?_ ?_ ?_ ⟨rfl, rfl⟩
  · exact (touched_acquire (fun j => hfree (message j)) i row).write (set row)
  · apply hcounted.of_held
    intro q
    exact held_write_message i (set row) q
  · intro new hnew
    rw [hnew] at hrefers
    exact metadata_of_refers hcounted.keepsQueues hrefers

/-- The metadata a call reads are those of the start. -/
theorem safe_getQueueMetadata {q : String} {post : QueueMetadata → Knowledge → Prop}
    (hfree : Free L)
    (h : ∀ metadata L', setup.metadata q = some metadata → Free L' → post metadata L') :
    (getQueueMetadata q).Safe setup.schema setup.Inv post L := by
  apply Program.safe_bind
  intro rows clock hsees _
  rw [hfree.view]
  rcases hfind : (setup.schema.scan rows Tab.queues).find? (fun e => decide (e.1 = q))
    with _ | ⟨name, row⟩
  · simp only [Program.safe_done, hfind, Program.safe_fail]
  · have hmem := List.mem_of_find?_eq_some hfind
    have hname := List.find?_some hfind
    rw [Schema.mem_scan] at hmem
    simp only [decide_eq_true_eq] at hname
    subst hname
    simp only [Program.safe_done, hfind, Program.safe_pure]
    apply h row.metadata
    · have hrow : rows (queue name) = some row := hmem.2
      rw [← hsees.inv.queues name, hrow]
      rfl
    · exact hfree.of_held rfl

theorem safe_calculateDeletion {policy : Option RetentionPolicy}
    {post : Bool × Option Int → Knowledge → Prop}
    (h : ∀ deletion L', L'.held = L.held → post deletion L') :
    (calculateDeletion policy).Safe setup.schema setup.Inv post L := by
  unfold calculateDeletion
  split
  · exact h _ L rfl
  · intro clock _
    exact h _ _ rfl

theorem safe_ownedMessageFailure {α : Type} {queueName messageId attemptId workerId : String}
    {nowMs : Int} {post : α → Knowledge → Prop} :
    (ownedMessageFailure queueName messageId attemptId workerId nowMs : Transaction α).Safe
      setup.schema setup.Inv post L := by
  intro rows clock _ _
  trivial

end Rules

section Calls

variable {setup : Setup} {L : Knowledge}

theorem rowDelta_some {old new : MessageRow} {q q₁ : String} {s s₁ : MessageState}
    (hq : old.queueName = q) (hs : old.state = s) (hq₁ : new.queueName = q₁)
    (hs₁ : new.state = s₁) :
    rowDelta old (some new) = fun q' s' => hits q₁ s₁ q' s' - hits q s q' s' := by
  funext q' s'
  simp [rowDelta, hq, hs, hq₁, hs₁]

theorem rowDelta_none {old : MessageRow} {q : String} {s : MessageState}
    (hq : old.queueName = q) (hs : old.state = s) :
    rowDelta old none = fun q' s' => -((1 : Nat) * hits q s q' s') := by
  funext q' s'
  simp [rowDelta, hq, hs]

/-! ## Section 2: Claiming -/

theorem safe_claimLevel {metadata : QueueMetadata} {req : ClaimRequest}
    {post : Option (Option PriorityLevel) → Knowledge → Prop} (hfree : Free L)
    (h : ∀ level L', Free L' → post level L') :
    (claimLevel metadata req).Safe setup.schema setup.Inv post L := by
  unfold claimLevel
  split
  · exact h _ L hfree
  · split
    · exact h _ L hfree
    · apply Program.safe_bind
      intro nowMs _
      apply Program.safe_bind
      intro high _ _ _
      apply Program.safe_bind
      intro medium _ _ _
      apply Program.safe_bind
      intro low _ _ _
      simp only [Program.safe_done]
      split
      · trivial
      · exact h _ _ (hfree.of_held rfl)

/-- Time only ends leases. -/
theorem hasActiveLease_mono {messages : List (Nat × MessageRow)} {q : String} {t t' : Int}
    (hle : t ≤ t') (h : hasActiveLease messages q t = false) :
    hasActiveLease messages q t' = false := by
  simp only [hasActiveLease, List.any_eq_false] at h ⊢
  intro e he hactive
  apply h e he
  simp only [Bool.and_eq_true] at hactive ⊢
  refine ⟨⟨hactive.1.1, ?_⟩, hactive.2⟩
  have hlive := hactive.1.2
  unfold leaseLive at hlive ⊢
  rcases hexpiry : e.2.leaseExpiry with _ | expiry
  · simp [hexpiry] at hlive
  · simp only [hexpiry, Option.any_some, decide_eq_true_eq] at hlive ⊢
    omega

theorem safe_checkExclusive {metadata : QueueMetadata} {queueName : String}
    {post : Bool → Knowledge → Prop} (hmeta : setup.metadata queueName = some metadata)
    (hfree : Free L)
    (h : ∀ free L', (∀ i, L'.held (message i) = none) → Counted L' (fun _ _ => 0) →
      (free = true → Exclusive setup L' queueName) → post free L') :
    (checkExclusive metadata queueName).Safe setup.schema setup.Inv post L := by
  unfold checkExclusive
  by_cases hexclusive : metadata.type = .exclusive
  · rw [if_neg (by simpa using hexclusive)]
    apply Program.safe_bind
    apply Program.safe_select_one (fun q => hfree (queue q))
    · apply Or.inl
      intro x y a b hx hy
      simp only [decide_eq_true_eq] at hx hy
      exact Or.inl (hx.trans hy.symm)
    · trivial
    · intro name row hname
      simp only [decide_eq_true_eq] at hname
      subst hname
      simp only [List.isEmpty_cons, Bool.false_eq_true, if_false]
      apply Program.safe_bind
      intro nowMs _
      apply Program.safe_bind
      intro rows clock hsees hle
      simp only [Program.safe_done, Program.safe_pure]
      have hmessages : ∀ i, (L.acquire Tab.queues name row).held (message i) = none := by
        intro i
        simp only [Local.acquire]
        rw [Function.update_of_ne (by simp)]
        exact hfree (message i)
      -- The session has written nothing, so it sees the committed messages.
      have hscan : setup.schema.scan
          (((L.acquire Tab.queues name row).atClock nowMs).view rows) Tab.messages =
          setup.schema.scan rows Tab.messages := by
        unfold Schema.scan
        congr 1
        funext i
        have hview : ((L.acquire Tab.queues name row).atClock nowMs).view rows ⟨Tab.messages, i⟩ =
            rows ⟨Tab.messages, i⟩ := by
          have hheld : ((L.acquire Tab.queues name row).atClock nowMs).held (message i) = none :=
            hmessages i
          simp [Local.view, hheld]
        rw [hview]
      rw [hscan]
      apply h
      · exact hmessages
      · constructor
        · intro q _ s
          rfl
        · intro q old new hheld
          by_cases hq : q = name
          · subst hq
            simp only [Local.observe, Local.atClock, Local.acquire, Function.update_self,
              Option.some.injEq, Prod.mk.injEq] at hheld
            exact ⟨row, row, hheld.1.symm, hheld.2.symm, rfl, fun s => (add_zero _).symm⟩
          · have hne : queue q ≠ queue name := by simpa [queue] using hq
            simp only [Local.observe, Local.atClock, Local.acquire] at hheld
            rw [Function.update_of_ne hne, hfree] at hheld
            cases hheld
      · intro hactive metadata' _ _
        refine ⟨_, rfl, ?_, ?_⟩
        · simp [Local.atClock, Local.acquire]
        · apply hasActiveLease_mono hle
          show hasActiveLease (setup.schema.scan rows Tab.messages) name nowMs = false
          simpa using hactive
  · rw [if_pos hexclusive]
    apply h true L (fun i => hfree (message i)) hfree.counted
    intro _ metadata' hmeta' hexclusive'
    rw [hmeta] at hmeta'
    cases hmeta'
    exact absurd hexclusive' hexclusive

theorem safe_selectCandidate {queueName : String} {level : Option PriorityLevel}
    {post : Option (Nat × MessageRow) → Knowledge → Prop}
    (hfresh : ∀ i, L.held (message i) = none) (hcounted : Counted L fun _ _ => 0)
    (hnone : ∀ L', L'.held = L.held → L'.seen = L.seen → post none L')
    (hsome : ∀ i row nowMs L', claimable queueName nowMs row = true → nowMs ≤ L'.clock →
      L'.seen = L.seen → Touched L' i row (some row) → Counted L' (fun _ _ => 0) →
        post (some (i, row)) L') :
    (selectCandidate queueName level).Safe setup.schema setup.Inv post L := by
  apply Program.safe_bind
  intro nowMs _
  have hfresh₁ : ∀ i, (L.atClock nowMs).held (message i) = none := hfresh
  have hcounted₁ : Counted (L.atClock nowMs) fun _ _ => 0 := hcounted.of_held fun _ => rfl
  -- Both queries lock a row that is claimable at the same reading of the clock.
  have htaken : ∀ level i row L', (claimSelection queueName nowMs level).filter i row = true →
      SameReads (L.atClock nowMs) L' → Touched L' i row (some row) → Counted L' (fun _ _ => 0) →
        post (some (i, row)) L' := by
    intro level i row L' hfilter hsame htouched hcounted'
    simp only [claimSelection, Bool.and_eq_true] at hfilter
    exact hsome i row nowMs L' hfilter.1 (le_of_eq hsame.clock.symm) hsame.seen htouched hcounted'
  apply Program.safe_bind
  apply safe_selectMessage (s := claimSelection queueName nowMs level) hfresh₁ hcounted₁
    (Or.inr rfl)
  · -- The level has no free row: the strict query, if it has not been tried.
    rcases level with _ | l
    · exact hnone _ rfl rfl
    · apply Program.safe_bind
      apply safe_selectMessage (s := claimSelection queueName nowMs none) hfresh₁ hcounted₁
        (Or.inr rfl)
      · exact hnone _ rfl rfl
      · exact htaken none
  · exact htaken level

theorem Exclusive.of_seen {L' : Knowledge} {queueName : String}
    (h : Exclusive setup L queueName) (hseen : L'.seen = L.seen) :
    Exclusive setup L' queueName := by
  intro metadata hmeta hexclusive
  rw [hseen]
  exact h metadata hmeta hexclusive

/-- The scheduled time of a claimed message is not later than what the session has read from the
clock. -/
def Due (L : Knowledge) (reply : Reply) : Prop :=
  ∀ e, reply = .claimed (some e) → ∀ t, e.2.scheduledAt = some t → t ≤ L.clock

theorem safe_takeLease {req : ClaimRequest} {i : Nat} {old : MessageRow} {nowMs : Int}
    (hq : setup.metadata req.queueName ≠ none)
    (hclaim : claimable req.queueName nowMs old = true) (hnow : nowMs ≤ L.clock)
    (htouched : Touched L i old (some old)) (hcounted : Counted L fun _ _ => 0)
    (hexclusive : Exclusive setup L req.queueName) :
    (takeLease req (i, old)).Safe setup.schema setup.Inv
      (fun reply L => Outcome setup L (.claim req) reply ∧ Due L reply) L := by
  have hqueue := (claimable_iff.mp hclaim).queue
  unfold takeLease
  split
  · trivial
  · rename_i policy _
    apply Program.safe_bind
    intro leaseMs hlease
    apply Program.safe_bind
    intro updatedAt hupdated
    have htouched₁ : Touched ((L.atClock leaseMs).atClock updatedAt) i old (some old) :=
      htouched.of_held rfl
    apply Program.safe_bind
    apply safe_modifyTouched htouched₁ (hcounted.of_held fun _ => rfl)
    · simp
    · intro x y a b hx hy
      simp only [decide_eq_true_eq] at hx hy
      exact Or.inl (hx.trans hy.symm)
    · intro L₁ hsame₁ htouched₁ hcounted₁ _
      apply Program.safe_bind
      apply safe_updateCounters hcounted₁ hq
      intro L₂ hsame hcounted₂
      have hclock : L₂.clock = updatedAt := hsame.clock.trans hsame₁.clock
      have hdue : Due L₂ (.claimed (some (i, claimRow req.attempt req.worker
          (claimRuntime policy req.leaseDuration leaseMs) updatedAt old))) := by
        intro e he t ht
        cases he
        have hdue := (claimable_iff.mp hclaim).due
        have hscheduled : old.scheduledAt = some t := ht
        simp only [hscheduled, Option.all_some, decide_eq_true_eq] at hdue
        -- The clock has not gone back since the row was found due.
        have hlease' : L.clock ≤ leaseMs := hlease
        have hupdated' : leaseMs ≤ updatedAt := hupdated
        omega
      have hdelta : rowDelta old (some (claimRow req.attempt req.worker
          (claimRuntime policy req.leaseDuration leaseMs) updatedAt old)) = _ :=
        rowDelta_some hqueue rfl hqueue rfl
      refine ⟨Outcome.claimed req i old _ nowMs updatedAt hclaim (hsame.touched htouched₁) ?_ ?_,
        hdue⟩
      · rwa [hdelta]
      · apply hexclusive.of_seen
        rw [hsame.seen, hsame₁.seen]
        rfl

theorem safe_claimDue (req : ClaimRequest) (hfree : Free L) :
    (claimMessageWithLeaseDuration req).Safe setup.schema setup.Inv
      (fun reply L => Outcome setup L (.claim req) reply ∧ Due L reply) L := by
  have hunclaimed : ∀ L : Knowledge, Due L (.claimed none) := fun L e he => by cases he
  apply Program.safe_bind
  apply safe_getQueueMetadata hfree
  intro metadata L₁ hmeta hfree₁
  have hq : setup.metadata req.queueName ≠ none := by simp [hmeta]
  split
  · trivial
  · apply Program.safe_bind
    apply safe_claimLevel hfree₁
    intro level L₂ hfree₂
    split
    · exact ⟨Outcome.unclaimed req hfree₂.untouched hfree₂.counted, hunclaimed _⟩
    · apply Program.safe_bind
      apply safe_checkExclusive hmeta hfree₂
      intro free L₃ hfresh hcounted hexclusive
      have huntouched : ∀ L' : Knowledge, L'.held = L₃.held → Untouched L' fun _ => False := by
        intro L' hheld i _ old new hheld'
        rw [hheld, hfresh] at hheld'
        cases hheld'
      rcases free with _ | _
      · simp only [Bool.false_eq_true, if_false]
        exact ⟨Outcome.unclaimed req (huntouched L₃ rfl) hcounted, hunclaimed _⟩
      · simp only [if_true]
        apply Program.safe_bind
        apply safe_selectCandidate hfresh hcounted
        · intro L₄ hheld _
          exact ⟨Outcome.unclaimed req (huntouched L₄ hheld)
            (hcounted.of_held fun q => congrFun hheld (queue q)), hunclaimed _⟩
        -- The queue row is locked since the check, so no other claim of an exclusive queue can
        -- commit.
        · intro i old nowMs L₄ hclaim hnow hseen htouched hcounted₄
          exact safe_takeLease hq hclaim hnow htouched hcounted₄
            ((hexclusive rfl).of_seen hseen)

theorem safe_claimMessage (req : ClaimRequest) (hfree : Free L) :
    (claimMessageWithLeaseDuration req).Safe setup.schema setup.Inv
      (fun reply L => Outcome setup L (.claim req) reply) L :=
  (safe_claimDue req hfree).mono fun _ _ h => h.1

/-! ## Section 3: The holder's operations and the reclaimer -/

variable (setup) in
theorem selectsOne_owned (queueName messageId attemptId workerId : String) (nowMs : Int) :
    SelectsOne (κ := Key) (T := Tab.messages) setup.schema
      fun (_ : Nat) row => owned queueName messageId attemptId workerId nowMs row :=
  selectsOne_of_addressed queueName messageId fun _ _ h => addressed_of_owned h

theorem safe_acknowledgeMessage (queueName messageId attemptId workerId : String)
    (hfree : Free L) :
    (acknowledgeMessage queueName messageId attemptId workerId).Safe setup.schema setup.Inv
      (fun reply L => Outcome setup L (.acknowledge queueName messageId attemptId workerId) reply)
      L := by
  apply Program.safe_bind
  apply safe_getQueueMetadata hfree
  intro metadata L₁ hmeta hfree₁
  have hq : setup.metadata queueName ≠ none := by simp [hmeta]
  apply Program.safe_bind
  apply safe_calculateDeletion
  intro deletion L₂ hheld₂
  obtain ⟨shouldDelete, deletedAt⟩ := deletion
  apply Program.safe_bind
  intro nowMs _
  apply Program.safe_bind
  intro rows clock _ _
  have hfree₃ : Free ((L₂.atClock nowMs).observe rows clock) :=
    (hfree₁.of_held hheld₂).of_held rfl
  have hone := selectsOne_owned setup queueName messageId attemptId workerId nowMs
  rcases shouldDelete with _ | _
  · simp only [Program.safe_done, Bool.false_eq_true, if_false]
    apply Program.safe_bind
    apply safe_modifyMessage hfree₃ hone
    · exact safe_ownedMessageFailure
    · intro i old L₄ hown htouched hcounted _ _
      obtain ⟨hqueue, -, hstate, -, -, -, -, -⟩ := owned_iff.mp hown
      apply Program.safe_bind
      apply safe_updateCounters hcounted hq
      intro L₅ hsame hcounted₅
      have hdelta : rowDelta old (some (completeRow nowMs deletedAt old)) = _ :=
        rowDelta_some hqueue hstate hqueue rfl
      refine Outcome.worked _ _ i old _ .acknowledged rfl rfl
        (.complete nowMs deletedAt hstate) hstate (hsame.touched htouched) ?_ ?_
      · rwa [hdelta]
      · intro _ hrunning
        cases hrunning
  · simp only [Program.safe_done, if_true]
    apply Program.safe_bind
    apply safe_modifyMessage hfree₃ hone
    · exact safe_ownedMessageFailure
    · intro i old L₄ hown htouched hcounted _ _
      obtain ⟨hqueue, -, hstate, -, -, -, -, -⟩ := owned_iff.mp hown
      apply Program.safe_bind
      apply safe_removeCounters (n := 1) hcounted (fun _ => hq)
      intro L₅ hsame hcounted₅
      refine Outcome.removed _ _ i old .acknowledged rfl rfl (.acknowledged hstate) hstate
        (hsame.touched htouched) ?_
      rwa [rowDelta_none hqueue hstate]

theorem safe_requireOneOwnedMessage {e : Nat × MessageRow}
    {queueName messageId attemptId workerId : String} {nowMs : Int}
    {post : Unit → Knowledge → Prop} (h : post () L) :
    (requireOneOwnedMessage [e] queueName messageId attemptId workerId nowMs).Safe setup.schema
      setup.Inv post L := by
  simpa [requireOneOwnedMessage] using h

/-- The exhausted message is kept, here or in the dead letter queue, or deleted. -/
theorem safe_nackExhausted {metadata : QueueMetadata}
    {queueName messageId attemptId workerId : String} {nowMs : Int} {i : Nat} {old : MessageRow}
    {post : Unit → Knowledge → Prop} (hq : setup.metadata queueName ≠ none)
    (htouched : Touched L i old (some old)) (hcounted : Counted L fun _ _ => 0)
    (hown : owned queueName messageId attemptId workerId nowMs old = true)
    (hkept : ∀ target deletedAt L', Touched L' i old
        (some (exhaustRow target (decrementAttempts old.attemptsLeft) nowMs deletedAt old)) →
      Counted L' (rowDelta old
        (some (exhaustRow target (decrementAttempts old.attemptsLeft) nowMs deletedAt old))) →
      post () L')
    (hdeleted : ∀ L', Touched L' i old none → Counted L' (rowDelta old none) → post () L') :
    (nackExhausted metadata queueName messageId attemptId workerId nowMs (i, old)).Safe
      setup.schema setup.Inv post L := by
  obtain ⟨hqueue, -, hstate, -, -, -, -, -⟩ := owned_iff.mp hown
  have hone := selectsOne_owned setup queueName messageId attemptId workerId nowMs
  apply Program.safe_bind
  apply safe_calculateDeletion
  intro deletion L₁ hheld
  have htouched₁ := htouched.of_held hheld
  have hcounted₁ := hcounted.of_held fun q => congrFun hheld (queue q)
  by_cases hdlq : metadata.deadLetterQueueName = ""
  · simp only [hdlq, ne_eq, not_true_eq_false, if_false]
    rcases deletion with ⟨_ | _, deletedAt⟩
    · simp only [Bool.false_eq_true, if_false]
      apply Program.safe_bind
      apply safe_modifyTouched htouched₁ hcounted₁ hown hone
      intro L₂ _ htouched₂ hcounted₂ _
      apply Program.safe_bind
      apply safe_requireOneOwnedMessage
      apply safe_updateCounters hcounted₂ hq
      intro L₃ hsame hcounted₃
      apply hkept queueName deletedAt L₃ (hsame.touched htouched₂)
      rwa [rowDelta_some hqueue rfl rfl rfl]
    · simp only [if_true]
      apply Program.safe_bind
      apply safe_modifyTouched htouched₁ hcounted₁ hown hone
      intro L₂ _ htouched₂ hcounted₂ _
      apply Program.safe_bind
      apply safe_requireOneOwnedMessage
      apply safe_removeCounters (n := 1) hcounted₂ (fun _ => hq)
      intro L₃ hsame hcounted₃
      apply hdeleted L₃ (hsame.touched htouched₂)
      rwa [rowDelta_none hqueue rfl]
  · simp only [hdlq, ne_eq, not_false_eq_true, if_true, Bool.false_eq_true, if_false]
    apply Program.safe_bind
    apply safe_modifyTouched htouched₁ hcounted₁ hown hone
    intro L₂ _ htouched₂ hcounted₂ hrefers
    apply Program.safe_bind
    apply safe_requireOneOwnedMessage
    -- The moved row references the dead letter queue, so its counter exists.
    have hdlq₁ : setup.metadata metadata.deadLetterQueueName ≠ none := hrefers _ rfl
    apply safe_moveCounter hcounted₂ hq hdlq₁
    intro L₃ hsame hcounted₃
    apply hkept metadata.deadLetterQueueName none L₃ (hsame.touched htouched₂)
    rwa [rowDelta_some hqueue rfl rfl rfl]

theorem safe_nackMessage (queueName messageId attemptId workerId : String) (hfree : Free L) :
    (nackMessage queueName messageId attemptId workerId).Safe setup.schema setup.Inv
      (fun reply L => Outcome setup L (.nack queueName messageId attemptId workerId) reply) L := by
  apply Program.safe_bind
  apply safe_getQueueMetadata hfree
  intro metadata L₁ hmeta hfree₁
  have hq : setup.metadata queueName ≠ none := by simp [hmeta]
  apply Program.safe_bind
  intro nowMs _
  have hone := selectsOne_owned setup queueName messageId attemptId workerId nowMs
  apply Program.safe_bind
  have hfree₂ : Free (L₁.atClock nowMs) := hfree₁.of_held rfl
  apply safe_selectMessage (fun j => hfree₂ (message j)) hfree₂.counted (Or.inl hone)
  · exact safe_ownedMessageFailure
  · intro i old L₂ hown _ htouched hcounted
    obtain ⟨hqueue, -, hstate, -, -, -, -, -⟩ := owned_iff.mp hown
    simp only
    by_cases hexh : NackExhausts old.attemptsLeft
    · rw [if_pos hexh]
      apply Program.safe_bind
      apply safe_nackExhausted hq htouched hcounted hown
      · intro target deletedAt L₃ htouched₃ hcounted₃
        exact Outcome.worked _ _ i old _ .rejected rfl rfl
          (.exhaust target nowMs deletedAt hstate hexh) hstate htouched₃ hcounted₃
          (fun _ hrunning => by cases hrunning)
      · intro L₃ htouched₃ hcounted₃
        exact Outcome.removed _ _ i old .rejected rfl rfl (.rejected hstate) hstate htouched₃
          hcounted₃
    · rw [if_neg hexh]
      apply Program.safe_bind
      apply safe_modifyTouched htouched hcounted hown hone
      intro L₃ _ htouched₃ hcounted₃ _
      apply Program.safe_bind
      apply safe_requireOneOwnedMessage
      apply Program.safe_bind
      apply safe_updateCounters hcounted₃ hq
      intro L₄ hsame hcounted₄
      have hdelta : rowDelta old
          (some (retryRow (decrementAttempts old.attemptsLeft) nowMs old)) = _ :=
        rowDelta_some hqueue rfl hqueue rfl
      refine Outcome.worked _ _ i old _ .rejected rfl rfl (.retry nowMs hstate hexh) hstate
        (hsame.touched htouched₃) ?_ ?_
      · rwa [hdelta]
      · intro _ hrunning
        cases hrunning

/-- Renewals change no counter. -/
theorem rowDelta_same {old new : MessageRow} (hq : new.queueName = old.queueName)
    (hs : new.state = old.state) : rowDelta old (some new) = fun _ _ => 0 := by
  funext q s
  simp [rowDelta, hq, hs]

theorem safe_extendMessageLease (queueName messageId attemptId workerId : String)
    (extensionMs : Int) (hfree : Free L) :
    (extendMessageLease queueName messageId attemptId workerId extensionMs).Safe setup.schema
      setup.Inv (fun reply L =>
        Outcome setup L (.extend queueName messageId attemptId workerId extensionMs) reply)
      L := by
  apply Program.safe_bind
  intro nowMs _
  have hone := selectsOne_owned setup queueName messageId attemptId workerId nowMs
  apply Program.safe_bind
  have hfree₁ : Free (L.atClock nowMs) := hfree.of_held rfl
  apply safe_selectMessage (fun j => hfree₁ (message j)) hfree₁.counted (Or.inl hone)
  · exact safe_ownedMessageFailure
  · intro i old L₂ hown _ htouched hcounted
    have hstate := (owned_iff.mp hown).state
    simp only
    split
    · trivial
    · split
      · trivial
      · rename_i runtime _
        apply Program.safe_bind
        intro updatedAt _
        have htouched' : Touched (L₂.atClock updatedAt) i old (some old) := htouched.of_held rfl
        apply Program.safe_bind
        apply safe_modifyTouched htouched' (hcounted.of_held fun _ => rfl) hown hone
        intro L₃ _ htouched₃ hcounted₃ _
        apply Program.safe_bind
        apply safe_requireOneOwnedMessage
        apply Program.safe_bind
        intro endMs _
        have hdelta : rowDelta old (some (extendRow runtime updatedAt old)) = fun _ _ => 0 :=
          rowDelta_same rfl rfl
        refine Outcome.worked _ _ i old _ .renewed rfl rfl (.extend runtime updatedAt hstate)
          hstate (htouched₃.of_held rfl) ?_ ?_
        · rw [hdelta]
          exact hcounted₃.of_held fun _ => rfl
        · intro hkeeps
          cases hkeeps

/-- A heartbeat that does not extend writes the lease back as it found it. -/
theorem heartbeatLease_keeps {policy : Option LeasePolicy} {row : MessageRow}
    {expiry used renewals nowMs : Int}
    (h : heartbeatLease policy row = .ok (expiry, used, renewals))
    (hkeeps : heartbeatExtends policy row = false) (hlive : leaseLive nowMs row = true) :
    some expiry = row.leaseExpiry := by
  unfold heartbeatLease at h
  simp only [hkeeps, Bool.false_eq_true, if_false, Except.ok.injEq, Prod.mk.injEq] at h
  -- A live lease has an expiry, so the default is never written.
  rcases hexpiry : row.leaseExpiry with _ | e
  · simp [leaseLive, hexpiry] at hlive
  · rw [← h.1, hexpiry]
    rfl

theorem safe_heartbeatMessage (queueName messageId attemptId workerId : String)
    (hfree : Free L) :
    (heartbeatMessage queueName messageId attemptId workerId).Safe setup.schema setup.Inv
      (fun reply L => Outcome setup L (.heartbeat queueName messageId attemptId workerId) reply)
      L := by
  apply Program.safe_bind
  intro nowMs _
  have hone := selectsOne_owned setup queueName messageId attemptId workerId nowMs
  apply Program.safe_bind
  have hfree₁ : Free (L.atClock nowMs) := hfree.of_held rfl
  apply safe_selectMessage (fun j => hfree₁ (message j)) hfree₁.counted (Or.inl hone)
  · exact safe_ownedMessageFailure
  · intro i old L₂ hown _ htouched hcounted
    have hstate := (owned_iff.mp hown).state
    simp only
    split
    · trivial
    · rename_i expiry used renewals hlease
      apply Program.safe_bind
      apply safe_modifyTouched htouched hcounted hown hone
      intro L₃ _ htouched₃ hcounted₃ _
      apply Program.safe_bind
      apply safe_requireOneOwnedMessage
      have hdelta : rowDelta old (some (heartbeatRow nowMs
          (nextHeartbeatExpiry old.metadata.leasePolicy nowMs) expiry used renewals old)) =
          fun _ _ => 0 := rowDelta_same rfl rfl
      refine Outcome.worked _ _ i old _ .renewed rfl rfl
        (.heartbeat nowMs _ expiry used renewals hstate) hstate htouched₃ ?_ ?_
      · rwa [hdelta]
      · intro hkeeps _
        exact heartbeatLease_keeps hlease hkeeps (owned_iff.mp hown).lease

theorem selectsOne_addressed_state (queueName messageId : String) (state : MessageState) :
    SelectsOne (κ := Key) (T := Tab.messages) setup.schema
      fun (_ : Nat) row => addressed queueName messageId row && row.state = state := by
  apply selectsOne_of_addressed queueName messageId
  intro _ row h
  simp only [Bool.and_eq_true] at h
  exact h.1

/-- The last statement on a reclaimed row finds it in its new state. -/
theorem safe_settleReclaimed {queueName messageId context : String} {newState : MessageState}
    {set : MessageRow → Option MessageRow} {i : Nat} {old row : MessageRow}
    {post : Unit → Knowledge → Prop} (htouched : Touched L i old (some row))
    (hcounted : Counted L fun _ _ => 0) (hqueue : row.queueName = queueName)
    (hmessage : row.messageId = messageId) (hstate : row.state = newState)
    (h : ∀ L', Touched L' i old (set row) → Counted L' (fun _ _ => 0) →
      (∀ new, set row = some new → setup.metadata new.queueName ≠ none) → post () L') :
    (settleReclaimed queueName messageId newState context set).Safe setup.schema setup.Inv post
      L := by
  apply Program.safe_bind
  apply safe_modifyTouched htouched hcounted
  · simp [addressed, hqueue, hmessage, hstate]
  · exact selectsOne_addressed_state queueName messageId newState
  · intro L' _ htouched' hcounted' hrefers
    simpa using h L' htouched' hcounted' hrefers

/-- After the lease is cleared the row goes back, to the dead letter queue, or away. -/
theorem safe_finishReclaim {metadata : QueueMetadata} {deletion : Bool × Option Int}
    {queueName messageId : String} {nowMs : Int} {i : Nat} {old : MessageRow}
    {post : Unit → Knowledge → Prop} (hq : setup.metadata queueName ≠ none)
    (hqueue : old.queueName = queueName) (hmessage : old.messageId = messageId)
    (hstate : old.state = .running)
    (htouched : Touched L i old (some (reclaimedRow queueName none none nowMs old)))
    (hcounted : Counted L fun _ _ => 0)
    (hkept : ∀ target completedAt deletedAt L', (reclaimState old = .pending → deletedAt = none) →
      Touched L' i old (some (reclaimedRow target completedAt deletedAt nowMs old)) →
      Counted L' (rowDelta old (some (reclaimedRow target completedAt deletedAt nowMs old))) →
      post () L')
    (hdeleted : ∀ L', Touched L' i old none → Counted L' (rowDelta old none) → post () L') :
    (finishReclaim metadata deletion queueName messageId nowMs (reclaimState old)).Safe
      setup.schema setup.Inv post L := by
  -- What the counters owe the row does not depend on its timestamps.
  have hdelta : ∀ target completedAt deletedAt,
      rowDelta old (some (reclaimedRow target completedAt deletedAt nowMs old)) = fun q s =>
        hits target (reclaimState old) q s - hits queueName .running q s :=
    fun _ _ _ => rowDelta_some hqueue hstate rfl rfl
  unfold finishReclaim
  simp only
  by_cases herr : reclaimState old = .errored
  · by_cases hdlq : metadata.deadLetterQueueName = ""
    · rw [if_pos ⟨herr, hdlq⟩]
      rcases deletion with ⟨_ | _, deletedAt⟩
      · simp only [Bool.false_eq_true, if_false]
        apply Program.safe_bind
        apply safe_settleReclaimed htouched hcounted rfl hmessage rfl
        intro L₁ htouched₁ hcounted₁ _
        apply safe_updateCounters hcounted₁ hq
        intro L₂ hsame hcounted₂
        have hterminal : reclaimState old = .pending → deletedAt = none :=
          fun hpend => absurd (hpend.symm.trans herr) (by decide)
        apply hkept queueName (some nowMs) deletedAt L₂ hterminal (hsame.touched htouched₁)
        rwa [hdelta]
      · simp only [if_true]
        apply Program.safe_bind
        apply safe_settleReclaimed htouched hcounted rfl hmessage rfl
        intro L₁ htouched₁ hcounted₁ _
        apply safe_removeCounters (n := 1) hcounted₁ (fun _ => hq)
        intro L₂ hsame hcounted₂
        apply hdeleted L₂ (hsame.touched htouched₁)
        rwa [rowDelta_none hqueue hstate]
    · rw [if_neg (fun h => hdlq h.2), if_pos herr]
      apply Program.safe_bind
      apply safe_settleReclaimed htouched hcounted rfl hmessage rfl
      intro L₁ htouched₁ hcounted₁ hrefers
      -- The moved row references the dead letter queue, so its counter exists.
      have hdlq₁ : setup.metadata metadata.deadLetterQueueName ≠ none := hrefers _ rfl
      apply safe_moveCounter hcounted₁ hq hdlq₁
      intro L₂ hsame hcounted₂
      apply hkept metadata.deadLetterQueueName none none L₂ (fun _ => rfl)
        (hsame.touched htouched₁)
      rwa [hdelta]
  -- A message with attempts left is PENDING in its queue, as the UPDATE left it.
  · rw [if_neg (fun h => herr h.1), if_neg herr]
    apply safe_updateCounters hcounted hq
    intro L₁ hsame hcounted₁
    apply hkept queueName none none L₁ (fun _ => rfl) (hsame.touched htouched)
    rwa [hdelta]

theorem reclaimState_ne_running (row : MessageRow) : reclaimState row ≠ .running := by
  rcases reclaimState_cases row with h | h <;> simp [h]

theorem heldBy_iff {queueName messageId attemptId : String} {row : MessageRow} :
    heldBy queueName messageId attemptId row = true ↔
      row.queueName = queueName ∧ row.messageId = messageId ∧ row.state = .running ∧
        attemptMatches attemptId row = true ∧ row.deletedAt = none := by
  simp [heldBy, addressed, and_assoc]

theorem safe_reclaimExpiredMessage (queueName : String) (expired : ExpiredMessage)
    (hfree : Free L) :
    (reclaimExpiredMessage queueName expired).Safe setup.schema setup.Inv
      (fun reply L => Outcome setup L (.reclaim queueName expired) reply) L := by
  apply Program.safe_bind
  apply safe_getQueueMetadata hfree
  intro metadata L₁ hmeta hfree₁
  have hq : setup.metadata queueName ≠ none := by simp [hmeta]
  apply Program.safe_bind
  apply safe_calculateDeletion
  intro deletion L₂ hheld₂
  apply Program.safe_bind
  intro nowMs _
  have hfree₃ : Free (L₂.atClock nowMs) := (hfree₁.of_held hheld₂).of_held rfl
  apply Program.safe_bind
  apply safe_selectMessage (fun j => hfree₃ (message j)) hfree₃.counted
  · apply Or.inl
    apply selectsOne_of_addressed queueName expired.messageId
    intro _ row h
    obtain ⟨hqueue, hmessage, -⟩ := heldBy_iff.mp h
    exact addressed_iff.mpr ⟨hqueue, hmessage⟩
  · trivial
  · intro i old L₄ hheld _ htouched hcounted
    obtain ⟨hqueue, hmessage, hstate, hattempt, hdeleted⟩ := heldBy_iff.mp hheld
    simp only
    by_cases hexpired : anyExpired nowMs old = true
    · rw [if_pos hexpired]
      have hrec : reclaimable queueName expired.messageId expired.attemptId nowMs old = true :=
        reclaimable_iff.mpr ⟨hqueue, hmessage, hstate, hattempt, hexpired, hdeleted⟩
      apply Program.safe_bind
      apply safe_modifyTouched htouched hcounted hrec
      · apply selectsOne_of_addressed queueName expired.messageId
        intro _ row h
        exact addressed_iff.mpr ⟨(reclaimable_iff.mp h).queue, (reclaimable_iff.mp h).message⟩
      · intro L₅ _ htouched₅ hcounted₅ _
        have hrow : clearReclaimedRow none none (reclaimRow nowMs old) =
            reclaimedRow queueName none none nowMs old := by
          rw [← hqueue]
          rfl
        simp only [hrow] at htouched₅
        apply Program.safe_bind
        apply safe_finishReclaim hq hqueue hmessage hstate htouched₅ hcounted₅
        · intro target completedAt deletedAt L₆ hkept htouched₆ hcounted₆
          exact Outcome.worked _ _ i old _ .reclaimed rfl rfl
            (.reclaim target completedAt deletedAt nowMs hstate hkept) hstate htouched₆ hcounted₆
            (fun _ hrunning => absurd hrunning (reclaimState_ne_running old))
        · intro L₆ htouched₆ hcounted₆
          exact Outcome.removed _ _ i old .reclaimed rfl rfl (.reclaimed hstate) hstate htouched₆
            hcounted₆
    -- The row is locked but still alive: the transaction fails, and its lock goes.
    · rw [if_neg hexpired]
      trivial

/-! ## Section 4: Dead letters -/

/-- What a plain `SELECT` has found says only that the queue exists. -/
theorem safe_findErrored {dlqName messageId : String}
    {post : Nat × MessageRow → Knowledge → Prop} (hfree : Free L)
    (h : ∀ e L', setup.metadata dlqName ≠ none → e.2.state = .errored → Free L' → post e L') :
    (findErrored dlqName messageId).Safe setup.schema setup.Inv post L := by
  apply Program.safe_bind
  intro rows clock hsees _
  rw [hfree.view]
  rcases hfind : (setup.schema.scan rows Tab.messages).find?
      (fun e => addressed dlqName messageId e.2) with _ | ⟨i, row⟩
  · simp only [Program.safe_done, hfind, Program.safe_fail]
  · have hmem := List.mem_of_find?_eq_some hfind
    have haddr := List.find?_some hfind
    rw [Schema.mem_scan] at hmem
    simp only [Program.safe_done, hfind]
    by_cases hstate : row.state = .errored
    · rw [if_neg (by simpa using hstate)]
      refine h (i, row) (L.observe rows clock) ?_ hstate (hfree.of_held rfl)
      rw [← (addressed_iff.mp haddr).1]
      exact hsees.inv.messages i row hmem.2
    · rw [if_pos (by simpa using hstate)]
      trivial

theorem safe_retryDLQMessage (dlqName messageId target : String) (reset : Bool)
    (hfree : Free L) :
    (retryDLQMessage dlqName messageId target reset).Safe setup.schema setup.Inv
      (fun reply L => Outcome setup L (.retryDLQ dlqName messageId target reset) reply) L := by
  apply Program.safe_bind
  apply safe_findErrored hfree
  intro e L₁ hdlq herr hfree₁
  apply Program.safe_bind
  intro nowMs _
  have hfree₂ : Free (L₁.atClock nowMs) := hfree₁.of_held rfl
  apply Program.safe_bind
  apply safe_modifyMessage hfree₂
  · exact selectsOne_of_addressed dlqName messageId fun _ _ h => h
  · -- No row is found; the counters are moved without looking.
    apply Program.safe_bind
    apply Program.safe_bind
    apply safe_addCounter_any hfree₂.counted.keepsQueues
    intro L₃ hsame₃ hkeeps₃
    apply safe_addCounter_any hkeeps₃
    intro L₄ hsame₄ hkeeps₄
    refine Outcome.missed dlqName messageId target reset ?_ hkeeps₄
    intro i
    rw [(hsame₃.trans hsame₄).messages]
    exact hfree₂ (message i)
  · intro i old L₃ haddr htouched hcounted hrefers _
    have htarget : setup.metadata target ≠ none := hrefers _ rfl
    apply Program.safe_bind
    apply safe_moveCounter hcounted hdlq htarget
    intro L₄ hsame hcounted₄
    rw [herr] at hcounted₄
    exact Outcome.requeued dlqName messageId target reset i old _ nowMs haddr
      (hsame.touched htouched) hcounted₄

theorem safe_deleteDLQMessage (queueName messageId : String) (hfree : Free L) :
    (deleteDLQMessage queueName messageId).Safe setup.schema setup.Inv
      (fun reply L => Outcome setup L (.deleteDLQ queueName messageId) reply) L := by
  apply Program.safe_bind
  apply safe_findErrored hfree
  intro e L₁ hq herr hfree₁
  apply Program.safe_bind
  apply safe_modifyMessage hfree₁
  · exact selectsOne_of_addressed queueName messageId fun _ _ h => h
  · simp only [List.length_nil, if_true]
    trivial
  · intro i old L₂ haddr htouched hcounted _ _
    simp only [List.length_cons, List.length_nil, Nat.zero_add, one_ne_zero, if_false]
    apply Program.safe_bind
    apply safe_removeCounters (n := 1) hcounted (fun _ => hq)
    intro L₃ hsame hcounted₃
    refine Outcome.deleted queueName messageId i old haddr (hsame.touched htouched) ?_
    rw [herr] at hcounted₃
    simpa using hcounted₃

theorem safe_purgeDLQBatch (queueName : String) (limit : Nat) (hfree : Free L) :
    (purgeDLQBatch queueName limit).Safe setup.schema setup.Inv
      (fun reply L => Outcome setup L (.purgeDLQ queueName limit) reply) L := by
  apply Program.safe_bind
  apply Program.safe_select (fun i => hfree (message i))
  intro rows hsees found hsub hfilter _
  have hnodup : (found.map Prod.fst).Nodup := candidates_nodup.sublist hsub
  have herrored : ∀ e ∈ found, e.2.queueName = queueName ∧ e.2.state = .errored := by
    intro e he
    simpa using hfilter e he
  have hids : ∀ j, j ∉ found.map Prod.fst → ∀ e ∈ found, message j ≠ message e.1 := by
    intro j hj e he heq
    simp only [message, Sigma.mk.injEq, heq_eq_eq, true_and] at heq
    exact hj (List.mem_map.mpr ⟨e, he, heq.symm⟩)
  have hqueues : ∀ q, ∀ e ∈ found, queue q ≠ message e.1 := by
    intro q e _ heq
    cases heq
  apply Program.safe_bind
  apply Program.safe_writeAll
  · intro e he
    rw [Local.held_acquireAll hnodup he]
    simp
  have hcounted : Counted ((L.acquireAll Tab.messages found).writeAll Tab.messages
      (fun _ => none) found) fun _ _ => 0 := by
    apply hfree.counted.of_held
    intro q
    rw [Local.held_writeAll_of_ne (hqueues q), Local.held_acquireAll_of_ne (hqueues q)]
  apply Program.safe_bind
  apply safe_removeCounters hcounted
  · -- A deleted row was in the queue when the statement looked.
    intro hn
    obtain ⟨e, he⟩ := List.exists_mem_of_length_pos (Nat.pos_of_ne_zero hn)
    have hcandidate := hsub.subset (List.mem_map.mpr ⟨e, he, rfl⟩)
    obtain ⟨-, row, hrow, hselected⟩ := mem_candidates.mp hcandidate
    rw [hfree.view] at hrow
    have hrow' : row.queueName = queueName ∧ row.state = .errored := by simpa using hselected
    rw [← hrow'.1]
    exact hsees.inv.messages e.1 row hrow
  · intro L' hsame hcounted'
    refine Outcome.purged queueName limit _ hnodup ?_ ?_ ?_
    · intro i hi
      obtain ⟨e, he, rfl⟩ := List.mem_map.mp hi
      refine ⟨e.2, (herrored e he).1, (herrored e he).2, ?_⟩
      rw [hsame.messages]
      exact Local.held_writeAll hnodup he (Local.held_acquireAll hnodup he)
    · apply hsame.untouched
      intro j hj old new hheld
      rw [Local.held_writeAll_of_ne (hids j hj), Local.held_acquireAll_of_ne (hids j hj),
        hfree] at hheld
      cases hheld
    · rw [List.length_map]
      exact hcounted'

/-- **Every call ends in one of its outcomes.** -/
theorem safe_program (call : Call) (hfree : Free L) :
    call.program.Safe setup.schema setup.Inv (fun reply L => Outcome setup L call reply) L := by
  cases call with
  | claim req => exact safe_claimMessage req hfree
  | acknowledge q m a w => exact safe_acknowledgeMessage q m a w hfree
  | nack q m a w => exact safe_nackMessage q m a w hfree
  | extend q m a w extensionMs => exact safe_extendMessageLease q m a w extensionMs hfree
  | heartbeat q m a w => exact safe_heartbeatMessage q m a w hfree
  | reclaim q expired => exact safe_reclaimExpiredMessage q expired hfree
  | retryDLQ dlq m target reset => exact safe_retryDLQMessage dlq m target reset hfree
  | deleteDLQ q m => exact safe_deleteDLQMessage q m hfree
  | purgeDLQ q limit => exact safe_purgeDLQBatch q limit hfree

end Calls

end Nzovu.Postgres
