import Nzovu.Repository.Exhaustion

/-!
# Exclusive Queues

An EXCLUSIVE queue lends out at most one message at a time. A claim looks for a live lease before
it grants one; heartbeats and extensions move a lease forward, but only one that is still live.
With one transaction at a time and a clock that does not run backwards this is enough.

- Section 1 states mutual exclusion at one instant and how a live row relates to the state
  before a change.
- Section 2 is the step lemma, one case for each kind of operation.
- Section 3 is the theorem about runs.
-/

namespace Nzovu.Repository

open Nzovu.Foundation
open Nzovu.Background

/-! ## Section 1: Live leases -/

/-- A RUNNING message of the queue whose lease lasts beyond the instant. -/
def LiveIn (queueName : String) (nowMs : Int) (row : MessageRow) : Prop :=
  row.queueName = queueName ∧ row.state = .running ∧ leaseLive nowMs row = true

/-- At most one live message in every EXCLUSIVE queue. -/
def MutuallyExclusive (db : Database) (nowMs : Int) : Prop :=
  ∀ queueName metadata, db.queueMetadata? queueName = some metadata →
    metadata.type = .exclusive →
      ∀ d ∈ db.messages.rows, ∀ e ∈ db.messages.rows,
        LiveIn queueName nowMs d.2 → LiveIn queueName nowMs e.2 → d = e

section Changes

variable {adds : Additions} {db db' : Database} {event : Option (Nat × RowEvent)}

theorem leaseLive.mono {t nowMs : Int} (hle : t ≤ nowMs) {row : MessageRow}
    (h : leaseLive nowMs row = true) : leaseLive t row = true := by
  obtain ⟨expiry, hexpiry, hlt⟩ := (Option.any_eq_true _ _).mp h
  refine (Option.any_eq_true _ _).mpr ⟨expiry, hexpiry, ?_⟩
  simp only [decide_eq_true_eq] at hlt ⊢
  exact Int.lt_of_le_of_lt hle hlt

theorem LiveIn.mono {queueName : String} {t nowMs : Int} (hle : t ≤ nowMs) {row : MessageRow}
    (h : LiveIn queueName nowMs row) : LiveIn queueName t row :=
  ⟨h.1, h.2.1, leaseLive.mono hle h.2.2⟩

/-- A live lease that no event of this change granted was there before. -/
theorem Change.live_kept (h : Change adds db db' event) (hevent : Unleased event) {i : Nat}
    {row : MessageRow} (hmem : (i, row) ∈ db'.messages.rows) {queueName : String} {nowMs : Int}
    (hlive : LiveIn queueName nowMs row) : (i, row) ∈ db.messages.rows := by
  obtain ⟨-, hstate, hlease⟩ := hlive
  rcases h.running_origin hevent hmem hstate with hold | ⟨_, _, _, _, _, _, -, rfl⟩
  · exact hold
  · simp [newRow, leaseLive] at hlease

/-- A queue that has messages keeps its metadata for as long as it exists. -/
theorem Change.metadata_kept (h : Change adds db db' event) {queueName : String}
    {metadata : QueueMetadata} (hkey : db.queues.hasKey queueName = true)
    (hmeta : db'.queueMetadata? queueName = some metadata) :
    db.queueMetadata? queueName = some metadata := by
  have hconfigs : ∀ c ∈ db'.configs, c ∈ db.configs ∨ c.name ≠ queueName := by
    intro c hc
    cases h with
    | unchanged h => exact .inl (h ▸ hc)
    | inserted _ _ _ _ _ _ _ h => exact .inl (h.configs ▸ hc)
    | updated _ _ _ _ h => exact .inl (h.configs ▸ hc)
    | deleted _ _ _ h => exact .inl (h.configs ▸ hc)
    | removed _ h => exact .inl (h.configs ▸ hc)
    | queueInserted queue _ _ h _ =>
      rw [configs_queueInserted h] at hc
      rcases List.mem_append.mp hc with hc | hc
      · exact .inl hc
      · right
        cases List.mem_singleton.mp hc
        rintro rfl
        -- The name of a new queue was free.
        have hfree : db.queues.hasKey queue.name = false := (Table.insert_eq_some h).1
        exact Bool.false_ne_true (hfree.symm.trans hkey)
    | queueDeleted name _ h =>
      subst h
      exact .inl (mem_configs_deleteQueueRow.mp hc).1
  obtain ⟨c, hc, hname, hm⟩ := queueMetadata?_eq_some.mp hmeta
  rcases hconfigs c hc with hold | hne
  · exact queueMetadata?_eq_some.mpr ⟨c, hold, hname, hm⟩
  · exact absurd hname hne

/-- **Carrying rule**: when every live message was live at some instant before, mutual exclusion
then gives mutual exclusion now. -/
theorem MutuallyExclusive.of_live_before {t nowMs : Int} (hexcl : MutuallyExclusive db t)
    (h : Change adds db db' event)
    (hbefore : ∀ queueName, ∀ e ∈ db'.messages.rows, LiveIn queueName nowMs e.2 →
      ∃ old, (e.1, old) ∈ db.messages.rows ∧ LiveIn queueName t old) :
    MutuallyExclusive db' nowMs := by
  intro queueName metadata hmeta htype d hd e he hlived hlivee
  obtain ⟨oldd, holdd, hlived'⟩ := hbefore queueName d hd hlived
  obtain ⟨olde, holde, hlivee'⟩ := hbefore queueName e he hlivee
  have hkey : db.queues.hasKey queueName = true := hlived'.1 ▸ db.foreignKey _ holdd
  have hsame := hexcl queueName metadata (h.metadata_kept hkey hmeta) htype _ holdd _ holde
    hlived' hlivee'
  exact Table.eq_of_id hd he (Prod.mk.inj hsame).1

theorem MutuallyExclusive.change {nowMs : Int} (hexcl : MutuallyExclusive db nowMs)
    (h : Change adds db db' event) (hevent : Unleased event) : MutuallyExclusive db' nowMs :=
  hexcl.of_live_before h fun _ e he hlive => ⟨e.2, h.live_kept hevent he hlive, hlive⟩

end Changes

/-! ## Section 2: The operations -/

section Operations

variable {adds : Additions} {db db' : Database} {event : Option (Nat × RowEvent)} {nowMs : Int}

/-- A claim found no live lease in an EXCLUSIVE queue, so only the message it takes is live. -/
theorem MutuallyExclusive.claim {clock : Readings} {req : ClaimRequest}
    {claimed : Option (Nat × MessageRow)} (hexcl : MutuallyExclusive db nowMs)
    (hrows : RunningRows db) (hle : clock 1 ≤ nowMs)
    (h : claimMessageWithLeaseDuration db clock req = .ok (db', claimed)) :
    MutuallyExclusive db' nowMs := by
  rcases claimMessageWithLeaseDuration_effect h with
    ⟨-, rfl⟩ | ⟨metadata, i, old, policy, hmeta, hfree, hclaimed, -⟩
  · exact hexcl
  intro queueName m hm htype d hd e he hlived hlivee
  have hm' : db.queueMetadata? queueName = some m := by
    rw [queueMetadata?_eq_some] at hm ⊢
    rwa [hclaimed.updated.configs] at hm
  have hother : ∀ r ∈ db'.messages.rows, r.1 ≠ i → r ∈ db.messages.rows := by
    intro r hr hne
    rw [hclaimed.updated.rows] at hr
    rcases Table.mem_setRow.mp hr with ⟨hold, -⟩ | ⟨rfl, -⟩
    · exact hold
    · exact absurd rfl hne
  by_cases hq : queueName = req.queueName
  · subst hq
    have hsame : metadata = m := Option.some.inj (hmeta.symm.trans hm')
    have hnone := hfree (hsame ▸ htype)
    have hid : ∀ r ∈ db'.messages.rows, LiveIn req.queueName nowMs r.2 → r.1 = i := by
      intro r hr hlive
      by_contra hne
      have hold := hother r hr hne
      obtain ⟨hrq, hstate, hlease⟩ := hlive.mono hle
      have hactive := List.any_eq_false.mp hnone r hold
      simp [hrq, hstate, hlease, (hrows r hold hstate).1] at hactive
    exact Table.eq_of_id hd he ((hid d hd hlived).trans (hid e he hlivee).symm)
  · have hold : ∀ r ∈ db'.messages.rows, LiveIn queueName nowMs r.2 → r ∈ db.messages.rows := by
      intro r hr hlive
      refine hother r hr fun hri => hq ?_
      obtain rfl : r = (i, _) := Table.eq_of_id hr hclaimed.updated.mem_new hri
      exact hlive.1.symm.trans hclaimed.claimable.queue
    exact hexcl queueName m hm' htype d (hold d hd hlived) e (hold e he hlivee) hlived hlivee

/-- A renewal moves a lease that is live at its clock reading. -/
theorem MutuallyExclusive.renewed {t : Int} {i : Nat} {old new : MessageRow}
    (hexcl : MutuallyExclusive db t) (hle : t ≤ nowMs) (h : Change adds db db' event)
    (hupd : RowUpdated db db' i old new) (hqueue : new.queueName = old.queueName)
    (hlive : LiveIn old.queueName t old) : MutuallyExclusive db' nowMs := by
  refine hexcl.of_live_before h fun queueName e he hlivee => ?_
  rw [hupd.rows] at he
  rcases Table.mem_setRow.mp he with ⟨hold, -⟩ | ⟨rfl, -⟩
  · exact ⟨e.2, hold, hlivee.mono hle⟩
  · refine ⟨old, hupd.mem, ?_⟩
    have hname : old.queueName = queueName := hqueue.symm.trans hlivee.1
    rwa [← hname]

theorem Owns.liveIn {queueName messageId attemptId workerId : String} {t : Int}
    {row : MessageRow} (h : Owns queueName messageId attemptId workerId t row) :
    LiveIn row.queueName t row :=
  ⟨rfl, h.state, h.lease⟩

variable {s : System}

/-- The operations that neither claim nor renew have no event that concerns a lease. -/
theorem MutuallyExclusive.unleased {op : Operation} (hexcl : MutuallyExclusive s.db nowMs)
    (hwf : WellFormed s) (hevent : Unleased (s.event op)) :
    MutuallyExclusive (s.step op).db nowMs :=
  (step_changes hwf op).preserves_when (P := fun db => MutuallyExclusive db nowMs)
    (fun _ h => by cases h) (fun _ _ _ hevent hinv h => MutuallyExclusive.change hinv h hevent)
    hevent hexcl

/-- **Step lemma**: from mutual exclusion at the clock readings of the operation and at a later
instant, the operation leads to mutual exclusion at that instant. -/
theorem MutuallyExclusive.step {op : Operation} (hwf : WellFormed s) (hrows : RunningRows s.db)
    (hexcl : ∀ t, t ∈ op.readings ∨ t = nowMs → MutuallyExclusive s.db t)
    (hnow : ∀ t ∈ op.readings, t ≤ nowMs) : MutuallyExclusive (s.step op).db nowMs := by
  have hbefore := hexcl nowMs (.inr rfl)
  cases op with
  | claim clock req =>
    simp only [System.step]
    cases hclaim : claimMessageWithLeaseDuration s.db clock req with
    | error _ => exact hbefore
    | ok result =>
      exact hbefore.claim hrows (hnow (clock 1) (by simp [Operation.readings])) hclaim
  | extend clock queueName messageId attemptId workerId extensionMs =>
    simp only [System.step]
    cases hext : extendMessageLease s.db clock queueName messageId attemptId workerId
        extensionMs with
    | error _ => exact hbefore
    | ok result =>
      obtain ⟨i, old, runtime, hown, -, -, hupd⟩ := extendMessageLease_effect hext
      obtain ⟨_, -, (hchange : Change .none _ _ _)⟩ := extendMessageLease_change hext
      have hreading : clock 0 ∈ [clock 0, clock 1] := List.mem_cons_self
      exact (hexcl (clock 0) (.inl hreading)).renewed (hnow _ hreading) hchange hupd rfl
        hown.liveIn
  | heartbeat clock queueName messageId attemptId workerId =>
    simp only [System.step]
    cases hbeat : heartbeatMessage s.db clock queueName messageId attemptId workerId with
    | error _ => exact hbefore
    | ok result =>
      obtain ⟨i, old, expiry, used, renewals, hown, hupd, -⟩ := heartbeatMessage_effect hbeat
      obtain ⟨_, -, (hchange : Change .none _ _ _)⟩ := heartbeatMessage_change hbeat
      have hreading : clock 0 ∈ [clock 0] := List.mem_cons_self
      exact (hexcl (clock 0) (.inl hreading)).renewed (hnow _ hreading) hchange hupd rfl
        hown.liveIn
  | acknowledge | nack | reclaim | retryDLQ =>
    exact hbefore.unleased hwf (unleased_touched _ _ (by simp) (by simp))
  | _ => exact hbefore.unleased hwf (fun _ h => by cases h)

end Operations

/-! ## Section 3: Runs -/

/-- **Exclusive queues**: in every run with a clock that does not run backwards, after every
operation and at every later instant, an EXCLUSIVE queue has at most one RUNNING message whose
lease is not over. -/
theorem mutuallyExclusive_run (ops : List Operation) (hclock : (readings ops).Pairwise (· ≤ ·))
    (past : List Operation) (hpast : past <+: ops) (nowMs : Int)
    (hnow : ∀ t ∈ readings past, t ≤ nowMs) : MutuallyExclusive (System.run past).db nowMs := by
  obtain ⟨later, rfl⟩ := hpast
  have hclock' : (readings past).Pairwise (· ≤ ·) := by
    rw [readings, List.flatMap_append] at hclock
    exact (List.pairwise_append.mp hclock).1
  clear hclock
  -- Along the past, with the instant free: an operation needs the instants it reads.
  induction past using List.reverseRecOn generalizing nowMs with
  | nil =>
    intro queueName metadata _ _ d hd
    cases hd
  | append_singleton past op ih =>
    rw [readings, List.flatMap_append] at hclock' hnow
    obtain ⟨hbefore, -, hle⟩ := List.pairwise_append.mp hclock'
    have hop : ∀ t ∈ op.readings, t ∈ [op].flatMap Operation.readings := by simp
    show MutuallyExclusive (runFrom System.step _ _).db nowMs
    rw [runFrom_concat]
    refine MutuallyExclusive.step (wellFormed_run past) (runningRows_run past) ?_ ?_
    · rintro t (ht | rfl)
      · exact ih t (fun r hr => hle r hr t (hop t ht)) hbefore
      · exact ih t (fun r hr => hnow r (List.mem_append_left _ hr)) hbefore
    · exact fun t ht => hnow t (List.mem_append_right _ (hop t ht))

/-- An EXCLUSIVE queue with two messages. The first is claimed for 50 ms and its lease runs out
unnoticed; the second is claimed and kept alive. -/
def exclusiveHandover : List Operation :=
  let policy : LeasePolicy := ⟨some ⟨30, 0⟩, some ⟨60, 0⟩, none, some ⟨10, 0⟩, 0⟩
  [.createQueue "jobs" { type := .exclusive, exclusivityKey := "k" },
   .enqueue (fun _ => 0) "jobs" ⟨"m", some ⟨.pending, 3, 3, 0, none, some policy⟩⟩,
   .enqueue (fun _ => 0) "jobs" ⟨"n", some ⟨.pending, 3, 3, 0, none, some policy⟩⟩,
   .claim (fun _ => 100) ⟨"jobs", "w", "a", "k", 50000000, 0, "g", "", generatedAttemptId_ne⟩,
   .claim (fun _ => 150) ⟨"jobs", "v", "b", "k", 0, 0, "g", "", generatedAttemptId_ne⟩,
   .heartbeat (fun _ => 200) "jobs" "n" "b" "v"]

/-- Both messages are RUNNING, one of them lives. -/
theorem mutuallyExclusive_run_handover :
    ((System.run exclusiveHandover).db.messages.rows.map fun e => (e.2.state, e.2.leaseExpiry)) =
        [(.running, some 150), (.running, some 40150)] ∧
      MutuallyExclusive (System.run exclusiveHandover).db 200 :=
  ⟨by decide, mutuallyExclusive_run exclusiveHandover (by decide) exclusiveHandover
    (List.prefix_refl _) 200 (by decide)⟩

end Nzovu.Repository
