import Nzovu.Postgres.Commits
import Nzovu.Repository.Fencing

/-!
# Delivery

No message is given to two workers at once: however the statements of claims, acknowledgements,
rejections, reclaims and requeues interleave, two claims of a message have a rejection, a
reclaim or a requeue of it between them, and each claim moves the counters of one row. Events
are recorded in the order of the commits.

- Section 1: the log of events, and what the commit of a claim has done.
- Section 2: the rows the log describes.
- Section 3: claims and counters, step by step.
-/

namespace Nzovu.Postgres

open Nzovu.Foundation
open Nzovu.Repository

/-! ## Section 1: Events and claims -/

/-- The events of the committed calls, latest first. -/
def events (log : List (Nat × Reply)) : List (Nat × RowEvent) :=
  log.filterMap fun e => e.2.event

theorem events_cons (t : Nat) (reply : Reply) (log : List (Nat × Reply)) :
    events ((t, reply) :: log) = reply.event.toList ++ events log := by
  rcases h : reply.event with _ | e <;> simp [events, h]

section Claims

variable {setup : Setup} {L : Knowledge} {rows : Store Key Row} {call : Call} {reply : Reply}

/-- A reply with a message comes from a claim that has locked its waiting row. -/
theorem Outcome.of_claimed {i : Nat} {row : MessageRow}
    (h : Outcome setup L call (.claimed (some (i, row)))) :
    ∃ (req : ClaimRequest) (old : MessageRow) (runtime : LeaseRuntime) (updatedAt : Int),
      old.state = .pending ∧ old.queueName = req.queueName ∧
      row = claimRow req.attempt req.worker runtime updatedAt old ∧ Touched L i old (some row) ∧
      Counted L (rowDelta old (some row)) ∧ Exclusive setup L req.queueName := by
  generalize hreply : Reply.claimed (some (i, row)) = reply at h
  cases h with
  | claimed req j old runtime selectedAt updatedAt hclaim htouched hcounted hexclusive =>
    cases hreply
    obtain ⟨hqueue, hpending, -, -⟩ := claimable_iff.mp hclaim
    exact ⟨req, old, runtime, updatedAt, hpending, hqueue, rfl, htouched, hcounted, hexclusive⟩
  | worked _ _ j old new e _ hevent ht hrunning =>
    subst hreply
    -- Only the claim of a waiting row has this event.
    cases ht with
    | claim req runtime nowMs hclaim =>
      rw [hclaim.state] at hrunning
      cases hrunning
    | _ => simp [Reply.event] at hevent
  | removed _ _ j old e _ hevent ht =>
    subst hreply
    cases ht with
    | _ => simp [Reply.event] at hevent
  | unclaimed => cases hreply
  | requeued => cases hreply
  | missed => cases hreply
  | deleted => cases hreply
  | purged => cases hreply

theorem Reply.eq_claimed {i : Nat} {attemptId workerId : String}
    (h : reply.event = some (i, .claimed attemptId workerId)) :
    ∃ row, reply = .claimed (some (i, row)) := by
  cases reply with
  | claimed message =>
    rcases message with _ | ⟨j, row⟩
    · cases h
    · simp only [Reply.event, Option.some.injEq, Prod.mk.injEq] at h
      exact ⟨row, by rw [h.1]⟩
  | requeued ids => rcases ids with _ | ⟨j, ids⟩ <;> cases h
  | _ => cases h

/-- Only a waiting message is claimed. -/
theorem Outcome.pending_of_claimed {i : Nat} {attemptId workerId : String}
    (h : Outcome setup L call reply) (hsees : L.Sees setup.schema setup.Inv rows)
    (hevent : reply.event = some (i, .claimed attemptId workerId)) :
    ∃ old : MessageRow, rows (message i) = some old ∧ old.state = .pending := by
  obtain ⟨row, rfl⟩ := Reply.eq_claimed hevent
  obtain ⟨req, old, -, -, hpending, -, -, htouched, -⟩ := h.of_claimed
  exact ⟨old, htouched.base hsees, hpending⟩

end Claims

/-! ## Section 2: The rows the log describes -/

/-- A message that is held is RUNNING or was completed, and no message was claimed while it was
held. -/
structure Delivered (w : Server) : Prop where
  rows : ∀ i (row : MessageRow), w.rows (message i) = some row →
    held i (events w.log) = true → row.state = .running ∨ row.state = .completed
  alternate : ClaimsAlternate (events w.log)

/-- A row is RUNNING or completed after an event that leaves it held. -/
theorem state_of_held {old new : MessageRow} {e : RowEvent} {held : Bool}
    (ht : RowTransition old (some e) new) (hrunning : old.state = .running)
    (hheld : heldAfter held e = true) : new.state = .running ∨ new.state = .completed := by
  cases ht with
  | claim => exact Or.inl rfl
  | complete => exact Or.inr rfl
  | extend => exact Or.inl hrunning
  | heartbeat => exact Or.inl hrunning
  | retry => cases hheld
  | exhaust => cases hheld
  | reclaim => cases hheld
  | requeue => cases hheld

section Step

variable {setup : Setup} {L : Knowledge} {rows : Store Key Row} {call : Call} {reply : Reply}

theorem claimsAlternate_commit {log : List (Nat × RowEvent)} (h : Outcome setup L call reply)
    (hsees : L.Sees setup.schema setup.Inv rows)
    (hrows : ∀ i (row : MessageRow), rows (message i) = some row → held i log = true →
      row.state = .running ∨ row.state = .completed) (halternate : ClaimsAlternate log) :
    ClaimsAlternate (reply.event.toList ++ log) := by
  rcases hevent : reply.event with _ | ⟨i, e⟩
  · exact halternate
  · cases e with
    | claimed attemptId workerId =>
      obtain ⟨old, hold, hpending⟩ := h.pending_of_claimed hsees hevent
      refine ⟨?_, halternate⟩
      by_contra hheld
      rw [Bool.not_eq_false] at hheld
      rcases hrows i old hold hheld with hstate | hstate <;> rw [hpending] at hstate <;>
        cases hstate
    | _ => exact halternate

/-- The rows after a commit are as the longer log says. -/
theorem Outcome.held_rows {log : List (Nat × RowEvent)} (h : Outcome setup L call reply)
    (hsees : L.Sees setup.schema setup.Inv rows)
    (hrows : ∀ i (row : MessageRow), rows (message i) = some row → held i log = true →
      row.state = .running ∨ row.state = .completed) {i : Nat} {row : MessageRow}
    (hrow : L.view rows (message i) = some row)
    (hheld : held i (reply.event.toList ++ log) = true) :
    row.state = .running ∨ row.state = .completed := by
  rcases h.change hsees i with ⟨hother, hkept⟩ | ⟨old, -, hchange⟩
  · rw [held_other hother] at hheld
    rw [hkept] at hrow
    exact hrows i row hrow hheld
  · rw [hrow] at hchange
    generalize hnew : some row = new at hchange
    cases hchange with
    | claimed =>
      cases hnew
      exact Or.inl rfl
    | transition e new hevent hrunning ht =>
      cases hnew
      rw [hevent] at hheld
      simp only [Option.toList_some, List.singleton_append, held, if_true] at hheld
      exact state_of_held ht hrunning hheld
    | requeued _ _ _ hevent =>
      rw [hevent] at hheld
      simp [held, heldAfter] at hheld
    | deleted => cases hnew

/-- **Step lemma**. -/
theorem Delivered.step {w : Server} (hsound : setup.Sound w) (h : Delivered w) (a : Action) :
    Delivered (w.step setup.schema a) := by
  rcases hsound.effect a with ⟨hrows, hlog, -, -⟩ | ⟨t, reply, clock, -, -, -, hpost, hcommit⟩
  · obtain ⟨hheld, halternate⟩ := h
    constructor
    · rw [hrows, hlog]
      exact hheld
    · rw [hlog]
      exact halternate
  · have hsees := hsound.consistent.sees hsound.inv t clock
    have hview := hsound.consistent.localOf_view t clock
    have hlog : (w.commit t reply).log = (t, reply) :: w.log := rfl
    rw [hcommit]
    constructor
    · intro i row hrow hheld
      have hrow' : w.view t (message i) = some row := hrow
      rw [← hview] at hrow'
      rw [hlog, events_cons] at hheld
      exact Outcome.held_rows hpost hsees h.rows hrow' hheld
    · rw [hlog, events_cons]
      exact claimsAlternate_commit hpost hsees h.rows h.alternate

theorem delivered_run (setup : Setup) (actions : List Action) :
    Delivered (setup.run actions) := by
  apply Setup.invariant_run' Delivered
  · intro w a hsound h
    exact h.step hsound a
  · constructor
    · intro i row _ hheld
      cases hheld
    · trivial

end Step

/-! ## Section 3: Claims and counters -/

/-- The claim of row `i` took a waiting message, made it `row`, and moved one message from
PENDING to RUNNING in the counters of its queue; nothing else changed. -/
structure ClaimMoves (w w' : Server) (i : Nat) (row : MessageRow) : Prop where
  pending : ∃ old : MessageRow, w.rows (message i) = some old ∧ old.state = .pending ∧
    old.queueName = row.queueName
  running : w'.rows (message i) = some row ∧ row.state = .running
  others : ∀ j, j ≠ i → w'.rows (message j) = w.rows (message j)
  counters : ∀ q s, counter w'.rows q s =
    counter w.rows q s + (hits row.queueName .running q s - hits row.queueName .pending q s)

/-- Between two states: the commit of a claim moves one row and its counters, and no row goes
from PENDING to RUNNING in another way. -/
structure ClaimsMoveOnce (w w' : Server) : Prop where
  moves : ∀ t i row, w'.log = (t, .claimed (some (i, row))) :: w.log → ClaimMoves w w' i row
  only : ∀ i (old new : MessageRow), w.rows (message i) = some old → old.state = .pending →
    w'.rows (message i) = some new → new.state = .running →
      ∃ t, w'.log = (t, .claimed (some (i, new))) :: w.log

theorem ClaimsMoveOnce.step {setup : Setup} {w : Server} (hsound : setup.Sound w) (a : Action) :
    ClaimsMoveOnce w (w.step setup.schema a) := by
  rcases hsound.effect a with ⟨hrows, hlog, -, -⟩ | ⟨t, reply, clock, -, -, -, hpost, hcommit⟩
  · constructor
    · intro t i row hlog'
      rw [hlog] at hlog'
      exact absurd hlog'.symm (List.cons_ne_self _ _)
    · intro i old new hold hpending hnew hrunning
      rw [hrows, hold] at hnew
      cases hnew
      rw [hpending] at hrunning
      cases hrunning
  · have hsees := hsound.consistent.sees hsound.inv t clock
    have hview := hsound.consistent.localOf_view t clock
    have hrows : (w.commit t reply).rows = (w.localOf t clock).view w.rows := hview.symm
    rw [hcommit]
    constructor
    · intro t' i row hlog
      have hentry : (t, reply) = (t', .claimed (some (i, row))) := (List.cons.inj hlog).1
      cases hentry
      obtain ⟨req, old, runtime, updatedAt, hpending, hqueue, hrow, htouched, hcounted, -⟩ :=
        Outcome.of_claimed hpost
      have hqueue' : row.queueName = old.queueName := by rw [hrow]; rfl
      have hrunning : row.state = .running := by rw [hrow]; rfl
      refine ⟨⟨old, htouched.base hsees, hpending, hqueue'.symm⟩, ?_, ?_, ?_⟩
      · rw [hrows]
        exact ⟨htouched.view, hrunning⟩
      · intro j hj
        rw [hrows]
        exact htouched.view_ne hsees hj
      · intro q s
        rw [hrows, hcounted.counter hsees]
        simp [rowDelta, hrunning, hpending, hqueue']
    · intro i old new hold hpending hnew hrunning
      rw [hrows] at hnew
      rcases Outcome.change hpost hsees i with ⟨-, hkept⟩ | ⟨old', hold', hchange⟩
      · rw [hkept, hold] at hnew
        cases hnew
        rw [hpending] at hrunning
        cases hrunning
      · rw [hold] at hold'
        cases hold'
        rw [hnew] at hchange
        generalize hsome : some new = new' at hchange
        cases hchange with
        | claimed req runtime updatedAt _ hreply =>
          cases hsome
          exact ⟨t, by rw [hreply]; rfl⟩
        | transition e new _ hold _ =>
          rw [hpending] at hold
          cases hold
        | requeued =>
          cases hsome
          cases hrunning
        | deleted => cases hsome

/-- **No message is delivered twice at once.** In every run, two claims of a message are
separated, and the next step, whatever it is, moves the counters of a claim as it moves its
row. -/
theorem delivery (setup : Setup) (actions : List Action) :
    ClaimsSeparated (events (setup.run actions).log) ∧
      ∀ a, ClaimsMoveOnce (setup.run actions) ((setup.run actions).step setup.schema a) := by
  constructor
  · exact (delivered_run setup actions).alternate.separated
  · intro a
    exact ClaimsMoveOnce.step (Setup.sound_run setup actions) a

end Nzovu.Postgres
