import Nzovu.Repository.Attempts

/-!
# Fencing

Only the worker that holds a message can act on it. A worker is recognised by the attempt id of
its claim; a claim records a new attempt id, and every operation of a worker or of the reclaimer
repeats the id it knows in its `WHERE` clause.

- Section 1 defines what the log says about a claim: who made it, and whether it still holds.
- Section 2 is the invariant that ties the log to the rows.
- Section 3 follows an attempt id after its attempt has ended.
- Section 4 states the three fencing properties.
-/

namespace Nzovu.Repository

open Nzovu.Foundation
open Nzovu.Background

/-! ## Section 1: Claims in the log -/

/-- Whether a row is held after one more event. -/
def heldAfter (held : Bool) : RowEvent → Bool
  | .claimed _ _ => true
  | .rejected | .reclaimed | .requeued => false
  | .acknowledged | .renewed => held

/-- The row was claimed, and neither rejected, reclaimed nor requeued since. -/
def held (i : Nat) : List (Nat × RowEvent) → Bool
  | [] => false
  | (j, e) :: log => if j = i then heldAfter (held i log) e else held i log

/-- No claim is made of a row that is held. -/
def ClaimsAlternate : List (Nat × RowEvent) → Prop
  | [] => True
  | (i, .claimed _ _) :: log => held i log = false ∧ ClaimsAlternate log
  | _ :: log => ClaimsAlternate log

/-- The attempt id an event records. -/
def RowEvent.attempt? : RowEvent → Option String
  | .claimed attemptId _ => some attemptId
  | _ => none

/-- The attempt ids of all claims, latest first. -/
def claimedAttempts (log : List (Nat × RowEvent)) : List String :=
  log.filterMap fun e => e.2.attempt?

section Log

variable {i : Nat} {event : Option (Nat × RowEvent)} {log : List (Nat × RowEvent)}

theorem held_other (h : ∀ e, event ≠ some (i, e)) (log : List (Nat × RowEvent)) :
    held i (event.toList ++ log) = held i log := by
  cases event with
  | none => rfl
  | some e =>
    obtain ⟨j, e⟩ := e
    have hne : ¬ j = i := by
      rintro rfl
      exact h e rfl
    simp [held, hne]

theorem lastClaim_other (h : ∀ e, event ≠ some (i, e)) (log : List (Nat × RowEvent)) :
    lastClaim i (event.toList ++ log) = lastClaim i log := by
  cases event with
  | none => rfl
  | some e =>
    obtain ⟨j, e⟩ := e
    have hne : ¬ j = i := by
      rintro rfl
      exact h e rfl
    cases e <;> simp [lastClaim, hne]

theorem held_of_fresh (h : ∀ entry ∈ log, entry.1 < i) : held i log = false := by
  induction log with
  | nil => rfl
  | cons entry log ih =>
    have hne : ¬ entry.1 = i := Nat.ne_of_lt (h entry List.mem_cons_self)
    simp only [held, hne, if_false]
    exact ih fun e he => h e (List.mem_cons_of_mem _ he)

theorem mem_of_lastClaim {attemptId workerId : String}
    (h : lastClaim i log = some (attemptId, workerId)) :
    (i, .claimed attemptId workerId) ∈ log := by
  induction log with
  | nil => cases h
  | cons entry log ih =>
    obtain ⟨j, e⟩ := entry
    cases e with
    | claimed a w =>
      simp only [lastClaim] at h
      split at h
      · rename_i hji
        cases h
        rw [hji]
        exact List.mem_cons_self
      · exact List.mem_cons_of_mem _ (ih h)
    | _ => exact List.mem_cons_of_mem _ (ih h)

theorem mem_claimedAttempts {attemptId workerId : String}
    (h : (i, .claimed attemptId workerId) ∈ log) : attemptId ∈ claimedAttempts log :=
  List.mem_filterMap.mpr ⟨_, h, rfl⟩

/-- With fresh ids, an attempt id belongs to one row. -/
theorem row_of_attempt {j : Nat} {attemptId v w : String} (hnodup : (claimedAttempts log).Nodup)
    (hi : (i, .claimed attemptId v) ∈ log) (hj : (j, .claimed attemptId w) ∈ log) : i = j := by
  induction log with
  | nil => cases hi
  | cons entry log ih =>
    -- The latest claim is either of the two, or neither; ids are not repeated further down.
    rcases List.mem_cons.mp hi with rfl | hi' <;> rcases List.mem_cons.mp hj with hj' | hj'
    · cases hj'
      rfl
    · exact absurd (mem_claimedAttempts hj') (List.nodup_cons.mp hnodup).1
    · subst hj'
      exact absurd (mem_claimedAttempts hi') (List.nodup_cons.mp hnodup).1
    · refine ih ?_ hi' hj'
      exact hnodup.sublist ((List.sublist_cons_self _ _).filterMap _)

/-- While a row stays unreleased it stays held. -/
theorem held_append {between : List (Nat × RowEvent)} (hheld : held i log = true)
    (h : ∀ e, (i, e) ∈ between → ¬ (e = .rejected ∨ e = .reclaimed ∨ e = .requeued)) :
    held i (between ++ log) = true := by
  induction between with
  | nil => exact hheld
  | cons entry between ih =>
    obtain ⟨j, e⟩ := entry
    have hrest := ih fun e he => h e (List.mem_cons_of_mem _ he)
    simp only [List.cons_append, held]
    split
    · rename_i hji
      subst hji
      have hkind := h e List.mem_cons_self
      cases e <;> simp_all [heldAfter]
    · exact hrest

theorem ClaimsAlternate.tail {entry : Nat × RowEvent} (h : ClaimsAlternate (entry :: log)) :
    ClaimsAlternate log := by
  obtain ⟨j, e⟩ := entry
  cases e with
  | claimed a w => exact h.2
  | _ => exact h

theorem ClaimsAlternate.suffix {newer : List (Nat × RowEvent)}
    (h : ClaimsAlternate (newer ++ log)) : ClaimsAlternate log := by
  induction newer with
  | nil => exact h
  | cons entry newer ih => exact ih h.tail

end Log

/-! ## Section 2: The log and the rows -/

/-- The log describes the row: RUNNING, it carries the ids of its last claim; held, it is still
RUNNING or was completed. -/
structure RowTraced (log : List (Nat × RowEvent)) (i : Nat) (row : MessageRow) : Prop where
  worker : row.state = .running → ∀ attemptId, row.currentAttemptId = some attemptId →
    ∃ workerId, row.currentWorkerId = some workerId
  holder : row.state = .running → ∀ attemptId workerId, row.currentAttemptId = some attemptId →
    row.currentWorkerId = some workerId → lastClaim i log = some (attemptId, workerId)
  held : held i log = true → row.state = .running ∨ row.state = .completed

/-- The log describes the table. -/
structure Traced (log : List (Nat × RowEvent)) (db : Database) : Prop where
  bounded : LogBounded log db
  rows : ∀ e ∈ db.messages.rows, RowTraced log e.1 e.2
  alternate : ClaimsAlternate log

section Traced

variable {adds : Additions} {log : List (Nat × RowEvent)} {db db' : Database}
  {event : Option (Nat × RowEvent)}

/-- Only a waiting row is claimed. -/
theorem Change.pending_of_claimed {i : Nat} {attemptId workerId : String}
    (h : Change adds db db' (some (i, .claimed attemptId workerId))) :
    ∃ old, (i, old) ∈ db.messages.rows ∧ old.state = .pending := by
  generalize hevent : some (i, RowEvent.claimed attemptId workerId) = event at h
  cases h with
  | updated j old new e h ht =>
    cases ht with
    | claim req runtime nowMs hclaim =>
      cases hevent
      exact ⟨old, h.mem, hclaim.state⟩
    | _ => cases hevent
  | deleted j old e h ht => cases ht <;> cases hevent
  | _ => cases hevent

theorem ClaimsAlternate.change (htr : Traced log db) (h : Change adds db db' event) :
    ClaimsAlternate (event.toList ++ log) := by
  cases event with
  | none => exact htr.alternate
  | some e =>
    obtain ⟨i, e⟩ := e
    cases e with
    | claimed attemptId workerId =>
      obtain ⟨old, hold, hpending⟩ := h.pending_of_claimed
      refine ⟨?_, htr.alternate⟩
      by_contra hheld
      rw [Bool.not_eq_false] at hheld
      -- A held row is RUNNING or COMPLETED, and a claimed one was PENDING.
      rcases (htr.rows _ hold).held hheld with hstate | hstate <;> rw [hpending] at hstate <;>
        cases hstate
    | _ => exact htr.alternate

theorem RowTraced.change (htr : Traced log db) (h : Change adds db db' event) {i : Nat}
    {row : MessageRow} (hmem : (i, row) ∈ db'.messages.rows) :
    RowTraced (event.toList ++ log) i row := by
  cases h.origin hmem with
  | kept hold hother =>
    obtain ⟨hworker, hholder, hheld⟩ := htr.rows (i, row) hold
    constructor
    · exact hworker
    · rw [lastClaim_other hother]
      exact hholder
    · rw [held_other hother]
      exact hheld
  | inserted queueName messageId metadata scheduledAt createdAt updatedAt hid _ hevent hrow =>
    -- A new row has no attempt, and its id is not in the log.
    subst hid hevent hrow
    have hfresh : Repository.held db.messages.nextId log = false := held_of_fresh htr.bounded
    constructor <;> simp [newRow, hfresh]
  | changed old e hold ht hevent =>
    subst hevent
    obtain ⟨hworker, hholder, hheld⟩ := htr.rows (i, old) hold
    cases ht with
    -- The claim has just put its ids into the row and on top of the log.
    | claim req runtime nowMs hclaim => constructor <;> simp [claimRow, lastClaim]
    | complete nowMs deletedAt hrun => constructor <;> simp [completeRow]
    | retry nowMs hrun hleft => constructor <;> simp [retryRow, Repository.held, heldAfter]
    | exhaust queueName nowMs deletedAt hrun hleft =>
      constructor <;> simp [exhaustRow, Repository.held, heldAfter]
    | cancel nowMs deletedAt reason hwaiting =>
      refine ⟨by simp [cancelRow], by simp [cancelRow], fun hnow => ?_⟩
      rcases hheld hnow with hstate | hstate <;> rcases hwaiting with hw | hw <;>
        exact absurd (hw.symm.trans hstate) (by decide)
    | extend runtime nowMs hrun => exact ⟨hworker, hholder, fun _ => .inl hrun⟩
    | heartbeat nowMs heartbeatExpiry expiry used renewals hrun =>
      exact ⟨hworker, hholder, fun _ => .inl hrun⟩
    | reclaim queueName completedAt deletedAt nowMs hrun =>
      have hstate : reclaimState old ≠ .running := by
        rcases reclaimState_cases old with hs | hs <;> simp [hs]
      refine ⟨fun hnow => absurd hnow hstate, fun hnow => absurd hnow hstate, fun hnow => ?_⟩
      simp [Repository.held, heldAfter] at hnow
    | requeue target reset nowMs herr =>
      constructor <;> simp [requeueRow, Repository.held, heldAfter]
    | activate nowMs hinv =>
      refine ⟨by simp [activateRow], by simp [activateRow], fun hnow => ?_⟩
      rcases hheld hnow with hstate | hstate <;>
        exact absurd (hinv.symm.trans hstate) (by decide)

/-- **Step lemma**: every change keeps log and rows in step. -/
theorem Traced.change (htr : Traced log db) (h : Change adds db db' event) :
    Traced (event.toList ++ log) db' :=
  ⟨htr.bounded.change h, fun _ hmem => RowTraced.change htr h hmem, ClaimsAlternate.change htr h⟩

end Traced

/-! ## Section 3: Attempts that have ended -/

/-- The attempt of the row's holder is over after the event. -/
def RowEvent.Ends : RowEvent → Prop
  | .claimed _ _ | .acknowledged | .rejected | .reclaimed => True
  | .requeued | .renewed => False

/-- No message is running under the attempt id. -/
def Retired (attemptId : String) (db : Database) : Prop :=
  ∀ e ∈ db.messages.rows, e.2.state = .running → e.2.currentAttemptId ≠ some attemptId

/-- The event is no claim under the attempt id. -/
def NotClaimedAs (attemptId : String) (event : Option (Nat × RowEvent)) : Prop :=
  ∀ e, event = some e → e.2.attempt? ≠ some attemptId

section Retired

variable {adds : Additions} {log : List (Nat × RowEvent)} {db db' : Database}
  {event : Option (Nat × RowEvent)} {attemptId : String}

theorem Retired.change (hret : Retired attemptId db) (hother : NotClaimedAs attemptId event)
    (h : Change adds db db' event) : Retired attemptId db' := by
  intro ⟨i, row⟩ hmem hrun
  cases h.origin hmem with
  | kept hold => exact hret _ hold hrun
  | inserted _ _ _ _ _ _ _ _ _ hrow =>
    subst hrow
    simp [newRow]
  | changed old e hold ht hevent =>
    subst hevent
    cases ht with
    | claim req runtime nowMs hclaim => exact hother _ rfl
    | extend runtime nowMs hold_run => exact hret (i, old) hold hold_run
    | heartbeat nowMs heartbeatExpiry expiry used renewals hold_run =>
      exact hret (i, old) hold hold_run
    | reclaim queueName completedAt deletedAt nowMs hold_run =>
      have hnow : reclaimState old = .running := hrun
      rcases reclaimState_cases old with hs | hs <;> rw [hs] at hnow <;> cases hnow
    | _ => cases hrun

/-- An event that ends the attempt retires its id: ids are fresh, so no other row has it. -/
theorem retired_of_ends (htr : Traced log db) (hnodup : (claimedAttempts log).Nodup) {i : Nat}
    {workerId : String} {e : RowEvent} (hclaimed : (i, .claimed attemptId workerId) ∈ log)
    (hends : e.Ends) (hother : NotClaimedAs attemptId (some (i, e)))
    (h : Change adds db db' (some (i, e))) : Retired attemptId db' := by
  intro ⟨j, row⟩ hmem hrun hattempt
  cases h.origin hmem with
  | kept hold hkept =>
    have hrow := htr.rows (j, row) hold
    obtain ⟨w, hw⟩ := hrow.worker hrun attemptId hattempt
    have hlast := mem_of_lastClaim (hrow.holder hrun attemptId w hattempt hw)
    -- A row still running under the id would be the one whose attempt has just ended.
    have hij : i = j := row_of_attempt hnodup hclaimed hlast
    exact hkept e (by rw [hij])
  | inserted _ _ _ _ _ _ _ _ _ hrow =>
    subst hrow
    cases hattempt
  | changed old e' hold ht hevent =>
    cases ht with
    | claim req runtime nowMs hclaim =>
      cases hevent
      exact hother _ rfl hattempt
    | extend runtime nowMs hold_run =>
      cases hevent
      exact hends
    | heartbeat nowMs heartbeatExpiry expiry used renewals hold_run =>
      cases hevent
      exact hends
    | reclaim queueName completedAt deletedAt nowMs hold_run =>
      have hnow : reclaimState old = .running := hrun
      rcases reclaimState_cases old with hs | hs <;> rw [hs] at hnow <;> cases hnow
    | _ => cases hrun

end Retired

/-! ## Section 4: Fencing -/

/-- The operation is no claim, or its attempt id was never used by a claim before. -/
def FreshClaim (h : History) : Operation → Prop
  | .claim _ req => req.attempt ∉ claimedAttempts h.log
  | _ => True

/-- The invariant of a run with fresh attempt ids. -/
structure Fenced (h : History) : Prop where
  wellFormed : WellFormed h.system
  traced : Traced h.log h.system.db
  nodup : (claimedAttempts h.log).Nodup

theorem event_attempt? {s : System} {op : Operation} {e : Nat × RowEvent} {attemptId : String}
    (h : s.event op = some e) (hattempt : e.2.attempt? = some attemptId) :
    ∃ clock req, op = .claim clock req ∧ attemptId = req.attempt := by
  cases op with
  | claim clock req =>
    refine ⟨clock, req, rfl, ?_⟩
    simp only [System.event] at h
    split at h
    · obtain ⟨d, -, rfl⟩ := Option.map_eq_some_iff.mp h
      cases hattempt
      rfl
    · cases h
  | acknowledge | nack | extend | heartbeat | reclaim | retryDLQ =>
    obtain ⟨hevent, -⟩ := touched_eq_some (e := e.2) (i := e.1) h
    rw [hevent] at hattempt
    cases hattempt
  | _ => cases h

theorem notClaimedAs_of_fresh {h : History} {op : Operation} (hfresh : FreshClaim h op)
    {attemptId : String} (hused : attemptId ∈ claimedAttempts h.log) :
    NotClaimedAs attemptId (h.system.event op) := by
  intro e hevent hattempt
  obtain ⟨clock, req, rfl, rfl⟩ := event_attempt? hevent hattempt
  exact hfresh hused

theorem Fenced.step {h : History} {op : Operation} (hf : Fenced h) (hfresh : FreshClaim h op) :
    Fenced (h.step op) := by
  have hchanges := step_changes hf.wellFormed op
  refine ⟨hf.wellFormed.step op, hchanges.preserves (fun _ _ _ _ => Traced.change) hf.traced, ?_⟩
  show (claimedAttempts ((h.system.event op).toList ++ h.log)).Nodup
  cases hevent : h.system.event op with
  | none => exact hf.nodup
  | some e =>
    cases hattempt : e.2.attempt? with
    | none =>
      have hsame : claimedAttempts ((some e).toList ++ h.log) = claimedAttempts h.log :=
        List.filterMap_cons_none hattempt
      rw [hsame]
      exact hf.nodup
    | some attemptId =>
      have hcons : claimedAttempts ((some e).toList ++ h.log) =
          attemptId :: claimedAttempts h.log := List.filterMap_cons_some hattempt
      rw [hcons]
      refine List.nodup_cons.mpr ⟨fun hused => ?_, hf.nodup⟩
      exact notClaimedAs_of_fresh hfresh hused e hevent hattempt

theorem fenced_runFrom {h : History} {ops : List Operation} (hf : Fenced h)
    (hfresh : Follows History.step FreshClaim h ops) : Fenced (runFrom History.step h ops) :=
  invariant_runFrom History.step Fenced (fun _ _ hf hop => hf.step hop) hf hfresh

theorem fenced_empty : Fenced .empty := by
  refine ⟨wellFormed_empty, ⟨?_, ?_, trivial⟩, List.nodup_nil⟩ <;>
    exact fun _ hmem => absurd hmem List.not_mem_nil

/-- A retired attempt id stays retired. -/
theorem retired_runFrom {h : History} {ops : List Operation} {attemptId : String} (hf : Fenced h)
    (hfresh : Follows History.step FreshClaim h ops)
    (hused : attemptId ∈ claimedAttempts h.log) (hret : Retired attemptId h.system.db) :
    Retired attemptId (runFrom History.step h ops).system.db := by
  have hall : Fenced (runFrom History.step h ops) ∧
      attemptId ∈ claimedAttempts (runFrom History.step h ops).log ∧
      Retired attemptId (runFrom History.step h ops).system.db := by
    refine invariant_runFrom History.step (fun h => Fenced h ∧
      attemptId ∈ claimedAttempts h.log ∧ Retired attemptId h.system.db) ?_ ⟨hf, hused, hret⟩ hfresh
    intro h op ⟨hf, hused, hret⟩ hop
    have hother := notClaimedAs_of_fresh hop hused
    refine ⟨hf.step hop, ?_, ?_⟩
    · exact List.mem_filterMap.mpr (by
        obtain ⟨e, he, ha⟩ := List.mem_filterMap.mp hused
        exact ⟨e, List.mem_append_right _ he, ha⟩)
    · refine (step_changes hf.wellFormed op).preserves_when (E := NotClaimedAs attemptId)
        (fun e he => by cases he) (fun _ _ _ hE hret hc => hret.change hE hc) hother hret
  exact hall.2.2

/-- Once an event ended the attempt, its id is retired for the rest of the run. -/
theorem retired_of_log {h : History} {ops : List Operation} {i : Nat}
    {attemptId workerId : String} (hf : Fenced h)
    (hfresh : Follows History.step FreshClaim h ops)
    (hclaimed : (i, .claimed attemptId workerId) ∈ h.log) {later : List (Nat × RowEvent)}
    (hlog : (runFrom History.step h ops).log = later ++ h.log) {e : RowEvent}
    (hmem : (i, e) ∈ later) (hends : e.Ends) :
    Retired attemptId (runFrom History.step h ops).system.db := by
  induction ops generalizing h later with
  | nil =>
    have hnil : later = [] := by simpa using hlog
    rw [hnil] at hmem
    cases hmem
  | cons op ops ih =>
    obtain ⟨hop, hrest⟩ := hfresh
    obtain ⟨later', hlater'⟩ := log_runFrom (h.step op) ops
    have hsplit : later = later' ++ (h.system.event op).toList := by
      apply (List.append_left_inj h.log).mp
      rw [← hlog, runFrom_cons, hlater', List.append_assoc]
      rfl
    rw [hsplit] at hmem
    rcases List.mem_append.mp hmem with hmem | hmem
    · exact ih (hf.step hop) hrest (List.mem_append_right _ hclaimed) hlater' hmem
    · have hevent : h.system.event op = some (i, e) := Option.mem_toList.mp hmem
      have hused := mem_claimedAttempts hclaimed
      have hother := notClaimedAs_of_fresh hop hused
      have hchanges := step_changes hf.wellFormed op
      rw [hevent] at hother hchanges
      have hret := retired_of_ends hf.traced hf.nodup hclaimed hends hother
        hchanges.change_of_some
      refine retired_runFrom (h := h.step op) (hf.step hop) hrest ?_ hret
      exact mem_claimedAttempts (List.mem_append_right _ hclaimed)

/-- Attempt id, worker id and the clock reading of its guard, for an operation of a worker. -/
def Operation.credentials : Operation → Option (String × String × Int)
  | .acknowledge clock _ _ attemptId workerId => some (attemptId, workerId, clock 1)
  | .nack clock _ _ attemptId workerId => some (attemptId, workerId, clock 0)
  | .extend clock _ _ attemptId workerId _ => some (attemptId, workerId, clock 0)
  | .heartbeat clock _ _ attemptId workerId => some (attemptId, workerId, clock 0)
  | _ => none

/-- A worker's operation changes only a row whose most recent claim is the worker's own, which
is RUNNING, and neither of whose expiries has passed. -/
def OnlyHolderActs (h : History) : Prop :=
  ∀ op attemptId workerId nowMs, op.credentials = some (attemptId, workerId, nowMs) →
    ∀ i row, (i, row) ∈ h.system.db.messages.rows →
      (i, row) ∉ (h.step op).system.db.messages.rows →
        lastClaim i h.log = some (attemptId, workerId) ∧ row.state = .running ∧
          leaseLive nowMs row = true ∧ heartbeatExpired nowMs row = false

/-- The reclaimer saw row `i` RUNNING under the attempt id it carries. -/
def Captured (db : Database) (queueName : String) (i : Nat) (message : ExpiredMessage) : Prop :=
  ∃ row, (i, row) ∈ db.messages.rows ∧ row.queueName = queueName ∧
    row.messageId = message.messageId ∧ row.state = .running ∧
    row.currentAttemptId = some message.attemptId

/-- A reclaim captured in `h` does nothing in the later state `h'` when the row's attempt has
ended since, or when neither of the row's expiries has passed. -/
def StaleReclaimIdle (h h' : History) : Prop :=
  ∀ clock queueName i message later, Captured h.system.db queueName i message →
    h'.log = later ++ h.log →
    ((∃ e : RowEvent, (i, e) ∈ later ∧ e.Ends) ∨
      ∀ row, (i, row) ∈ h'.system.db.messages.rows → anyExpired (clock 1) row = false) →
    (h'.step (.reclaim clock queueName message)).system = h'.system

/-- Two claims of a row have a rejection, a reclaim or a requeue of it between them. -/
def ClaimsSeparated (log : List (Nat × RowEvent)) : Prop :=
  ∀ newer between older i attemptId workerId attemptId' workerId',
    log = newer ++ (i, .claimed attemptId workerId) ::
      (between ++ (i, .claimed attemptId' workerId') :: older) →
    ∃ e : RowEvent, (i, e) ∈ between ∧ (e = .rejected ∨ e = .reclaimed ∨ e = .requeued)

theorem ClaimsAlternate.separated {log : List (Nat × RowEvent)} (h : ClaimsAlternate log) :
    ClaimsSeparated log := by
  intro newer between older i attemptId workerId attemptId' workerId' hlog
  subst hlog
  by_contra hnone
  have hfree := h.suffix.1
  have hheld : held i (between ++ (i, .claimed attemptId' workerId') :: older) = true := by
    apply held_append
    · simp [held, heldAfter]
    · intro e he hkind
      exact hnone ⟨e, he, hkind⟩
  rw [hheld] at hfree
  cases hfree

/-- A change with an event leaves every other row alone. -/
theorem Change.kept_of_other {adds : Additions} {db db' : Database} {i j : Nat} {e : RowEvent}
    {row : MessageRow} (h : Change adds db db' (some (j, e)))
    (hmem : (i, row) ∈ db.messages.rows) (hne : i ≠ j) : (i, row) ∈ db'.messages.rows := by
  generalize hevent : some (j, e) = event at h
  cases h with
  | updated k old new e' h =>
    cases e' with
    | none => cases hevent
    | some e' =>
      cases hevent
      rw [h.rows]
      exact Table.mem_setRow.mpr (.inl ⟨hmem, hne⟩)
  | deleted k old e' h =>
    cases e' with
    | none => cases hevent
    | some e' =>
      cases hevent
      rw [h.rows]
      exact Table.mem_dropRow.mpr ⟨hmem, hne⟩
  | _ => cases hevent

theorem touched_eq_none {α ε : Type} {s : System} {r : Except ε α} {p : MessageRow → Bool}
    {ev : RowEvent} (h : s.touched r p ev = none)
    (hok : ∀ b, r = .ok b → ∃ e, s.db.messages.find? (fun e => p e.2) = some e) :
    ∃ err, r = .error err := by
  cases r with
  | error err => exact ⟨err, rfl⟩
  | ok b =>
    obtain ⟨e, hfind⟩ := hok b rfl
    simp [System.touched, hfind] at h

/-- A worker's operation without an event changes nothing. -/
theorem step_of_event_none {h : History} {op : Operation} {credentials : String × String × Int}
    (hcred : op.credentials = some credentials) (hevent : h.system.event op = none) :
    (h.step op).system.db = h.system.db := by
  cases op with
  | acknowledge =>
    obtain ⟨err, herr⟩ := touched_eq_none hevent fun b hb => by
      obtain ⟨e, hfind, -⟩ : ∃ e, _ ∧ Change .none _ _ _ := acknowledgeMessage_change hb
      exact ⟨e, hfind⟩
    simp [History.step, System.step, herr, System.commit]
  | nack =>
    obtain ⟨err, herr⟩ := touched_eq_none hevent fun b hb => by
      obtain ⟨e, hfind, -⟩ : ∃ e, _ ∧ Change .none _ _ _ := nackMessage_change hb
      exact ⟨e, hfind⟩
    simp [History.step, System.step, herr, System.commit]
  | extend =>
    obtain ⟨err, herr⟩ := touched_eq_none hevent fun b hb => by
      obtain ⟨e, hfind, -⟩ : ∃ e, _ ∧ Change .none _ _ _ := extendMessageLease_change hb
      exact ⟨e, hfind⟩
    simp [History.step, System.step, herr, System.commit, Except.map]
  | heartbeat =>
    obtain ⟨err, herr⟩ := touched_eq_none hevent fun b hb => by
      obtain ⟨e, hfind, -⟩ : ∃ e, _ ∧ Change .none _ _ _ := heartbeatMessage_change hb
      exact ⟨e, hfind⟩
    simp [History.step, System.step, herr, System.commit, Except.map]
  | _ => cases hcred

/-- The row of a worker's event is the one its guard finds. -/
theorem event_owned {h : History} {op : Operation} {attemptId workerId : String} {nowMs : Int}
    {i : Nat} {ev : RowEvent} (hcred : op.credentials = some (attemptId, workerId, nowMs))
    (hevent : h.system.event op = some (i, ev)) :
    ∃ queueName messageId row, (i, row) ∈ h.system.db.messages.rows ∧
      Owns queueName messageId attemptId workerId nowMs row := by
  cases op with
  | acknowledge | nack | extend | heartbeat =>
    cases hcred
    obtain ⟨-, -, row, hmem, hp⟩ := touched_eq_some hevent
    exact ⟨_, _, row, hmem, owned_iff.mp hp⟩
  | _ => cases hcred

theorem Fenced.onlyHolderActs {h : History} (hf : Fenced h) : OnlyHolderActs h := by
  intro op attemptId workerId nowMs hcred i row hmem hgone
  cases hevent : h.system.event op with
  | none =>
    rw [step_of_event_none hcred hevent] at hgone
    exact absurd hmem hgone
  | some e =>
    obtain ⟨j, ev⟩ := e
    have hchanges := step_changes hf.wellFormed op
    rw [hevent] at hchanges
    obtain rfl : i = j := by
      by_contra hne
      exact hgone (hchanges.change_of_some.kept_of_other hmem hne)
    obtain ⟨queueName, messageId, row', hmem', hown⟩ := event_owned hcred hevent
    cases Table.eq_of_id hmem hmem' rfl
    refine ⟨?_, hown.state, hown.lease, ?_⟩
    · exact (hf.traced.rows _ hmem).holder hown.state _ _ hown.attempt hown.worker
    · rw [heartbeatExpired_eq_not, hown.heartbeat]
      rfl

theorem step_reclaim_of_none {h : History} {clock : Readings} {queueName : String}
    {message : ExpiredMessage}
    (hnone : ∀ e ∈ h.system.db.messages.rows,
      ¬ Reclaimable queueName message.messageId message.attemptId (clock 1) e.2) :
    (h.step (.reclaim clock queueName message)).system = h.system := by
  have hfind : h.system.db.messages.find? (fun e => reclaimable queueName message.messageId
      message.attemptId (clock 1) e.2) = none :=
    List.find?_eq_none.mpr fun e he => fun hp => hnone e he (reclaimable_iff.mp hp)
  simp only [History.step, System.step, reclaimExpiredMessage, hfind]
  split <;> rfl

theorem staleReclaimIdle {xs ys : List Operation}
    (hfresh : Follows History.step FreshClaim .empty (xs ++ ys)) :
    StaleReclaimIdle (History.run xs) (History.run (xs ++ ys)) := by
  intro clock queueName i message later ⟨row, hrow, _, _, hrun, hattempt⟩ hlog hstale
  obtain ⟨hxs, hys⟩ := (follows_append History.step).mp hfresh
  have hf : Fenced (History.run xs) := fenced_runFrom fenced_empty hxs
  have hf' : Fenced (History.run (xs ++ ys)) := fenced_runFrom fenced_empty hfresh
  have hsplit : History.run (xs ++ ys) = runFrom History.step (History.run xs) ys :=
    runFrom_append ..
  obtain ⟨workerId, hworker⟩ := (hf.traced.rows _ hrow).worker hrun _ hattempt
  have hclaimed := mem_of_lastClaim
    ((hf.traced.rows _ hrow).holder hrun _ _ hattempt hworker)
  have hne : message.attemptId ≠ "" := by
    have hrows : RunningRows (History.run xs).system.db := by
      rw [History.run, system_runFrom]
      exact runningRows_run xs
    intro hempty
    rw [hempty] at hattempt
    exact (hrows _ hrow hrun).2 hattempt
  apply step_reclaim_of_none
  intro e he hrec
  have hcurrent : e.2.currentAttemptId = some message.attemptId := by
    simpa [attemptMatches, hne] using hrec.attempt
  rcases hstale with ⟨ev, hev, hends⟩ | hlive
  · rw [hsplit] at hlog he
    exact retired_of_log hf hys hclaimed hlog hev hends e he hrec.state hcurrent
  · -- The attempt id belongs to one row, whose expiries have not passed.
    obtain ⟨w, hw⟩ := (hf'.traced.rows e he).worker hrec.state _ hcurrent
    have hlast := mem_of_lastClaim
      ((hf'.traced.rows e he).holder hrec.state _ _ hcurrent hw)
    have hold : (i, .claimed message.attemptId workerId) ∈ (History.run (xs ++ ys)).log := by
      rw [hlog]
      exact List.mem_append_right _ hclaimed
    have hid : i = e.1 := row_of_attempt hf'.nodup hold hlast
    have hexpired := hlive e.2 (by rw [hid]; exact he)
    rw [hrec.expired] at hexpired
    cases hexpired

/-- **Fencing**: in every run with fresh attempt ids, only the holder of a message acts on it, a
reclaim that comes too late does nothing, and claims of a message are separated. -/
theorem fencing {ops : List Operation} (hfresh : Follows History.step FreshClaim .empty ops) :
    OnlyHolderActs (History.run ops) ∧
      (∀ xs ys, ops = xs ++ ys → StaleReclaimIdle (History.run xs) (History.run ops)) ∧
      ClaimsSeparated (History.run ops).log := by
  have hf : Fenced (History.run ops) := fenced_runFrom fenced_empty hfresh
  refine ⟨hf.onlyHolderActs, ?_, hf.traced.alternate.separated⟩
  rintro xs ys rfl
  exact staleReclaimIdle hfresh

/-- A message that two workers hold one after the other, under attempts `a` and `b`. -/
theorem fencing_requeuedWithoutReset :
    Follows History.step FreshClaim .empty requeuedWithoutReset ∧
      OnlyHolderActs (History.run requeuedWithoutReset) ∧
      (History.run requeuedWithoutReset).log =
        [(1, .rejected), (1, .claimed "b" "w"), (1, .requeued), (1, .rejected),
          (1, .claimed "a" "w")] ∧
      ClaimsSeparated (History.run requeuedWithoutReset).log := by
  have hfresh : Follows History.step FreshClaim .empty requeuedWithoutReset := by
    refine ⟨trivial, trivial, ?_, trivial, trivial, ?_, trivial, trivial⟩
    · show "a" ∉ claimedAttempts (History.run (onlyAttempt.take 2)).log
      decide
    · show "b" ∉ claimedAttempts (History.run (requeuedWithoutReset.take 5)).log
      decide
  have hall := fencing hfresh
  exact ⟨hfresh, hall.1, by decide, hall.2.2⟩

end Nzovu.Repository
