import Nzovu.Repository.Exhaustion

/-!
# Histories

A run together with the log of its delivery events. The log is what statements about the past
of a message are about: its most recent claim, the claims since it was last requeued, and what
happened between two points of the run.
-/

namespace Nzovu.Repository

open Nzovu.Foundation

/-! ## Section 1: Runs with a log -/

/-- A state with the events that led to it, latest first; each names the id of its row. -/
structure History where
  system : System
  log : List (Nat × RowEvent)

namespace History

/-- A new installation. -/
def empty : History := ⟨.empty, []⟩

/-- One operation, with its event. -/
def step (h : History) (op : Operation) : History :=
  ⟨h.system.step op, (h.system.event op).toList ++ h.log⟩

/-- The history of a list of operations on a new installation. -/
def run (ops : List Operation) : History := runFrom step empty ops

end History

theorem system_runFrom (h : History) (ops : List Operation) :
    (runFrom History.step h ops).system = runFrom System.step h.system ops := by
  induction ops generalizing h with
  | nil => rfl
  | cons op ops ih => exact ih (h.step op)

/-- The log only grows. -/
theorem log_runFrom (h : History) (ops : List Operation) :
    ∃ later, (runFrom History.step h ops).log = later ++ h.log := by
  induction ops generalizing h with
  | nil => exact ⟨[], rfl⟩
  | cons op ops ih =>
    obtain ⟨later, hlater⟩ := ih (h.step op)
    refine ⟨later ++ (h.system.event op).toList, ?_⟩
    rw [runFrom_cons, hlater, List.append_assoc]
    rfl

/-! ## Section 2: Reading the log -/

/-- The attempt and worker id of the row's most recent claim. -/
def lastClaim (i : Nat) : List (Nat × RowEvent) → Option (String × String)
  | [] => none
  -- The log is latest first, so the first claim of the row is its last one.
  | (j, .claimed attemptId workerId) :: log =>
    if j = i then some (attemptId, workerId) else lastClaim i log
  | _ :: log => lastClaim i log

/-- The number of claims after one more event. -/
def deliveredAfter (delivered : Int) : RowEvent → Int
  | .claimed _ _ => delivered + 1
  | .requeued => 0
  | _ => delivered

/-- How often the row was claimed since it was inserted or last requeued. -/
def deliveries (i : Nat) : List (Nat × RowEvent) → Int
  | [] => 0
  | (j, e) :: log => if j = i then deliveredAfter (deliveries i log) e else deliveries i log

theorem deliveries_other {i : Nat} {event : Option (Nat × RowEvent)}
    (h : ∀ e, event ≠ some (i, e)) (log : List (Nat × RowEvent)) :
    deliveries i (event.toList ++ log) = deliveries i log := by
  cases event with
  | none => rfl
  | some e =>
    obtain ⟨j, e⟩ := e
    have hne : ¬ j = i := by
      rintro rfl
      exact h e rfl
    simp [deliveries, hne]

theorem deliveries_of_fresh {i : Nat} {log : List (Nat × RowEvent)}
    (h : ∀ entry ∈ log, entry.1 < i) : deliveries i log = 0 := by
  induction log with
  | nil => rfl
  | cons entry log ih =>
    have hne : ¬ entry.1 = i := Nat.ne_of_lt (h entry List.mem_cons_self)
    simp only [deliveries, hne, if_false]
    exact ih fun e he => h e (List.mem_cons_of_mem _ he)

/-! ## Section 3: Every event names a row -/

section Fresh

variable {adds : Additions} {db db' : Database}

theorem Change.event_mem {i : Nat} {e : RowEvent} (h : Change adds db db' (some (i, e))) :
    ∃ old, (i, old) ∈ db.messages.rows := by
  generalize hevent : some (i, e) = event at h
  cases h with
  | updated j old new event h =>
    cases event with
    | none => cases hevent
    | some e' =>
      cases hevent
      exact ⟨old, h.mem⟩
  | deleted j old event h =>
    cases event with
    | none => cases hevent
    | some e' =>
      cases hevent
      exact ⟨old, h.mem⟩
  | _ => cases hevent

/-- Ids in the log have been handed out. -/
def LogBounded (log : List (Nat × RowEvent)) (db : Database) : Prop :=
  ∀ entry ∈ log, entry.1 < db.messages.nextId

theorem LogBounded.change {log : List (Nat × RowEvent)} {event : Option (Nat × RowEvent)}
    (hlog : LogBounded log db) (h : Change adds db db' event) :
    LogBounded (event.toList ++ log) db' := by
  intro entry hentry
  refine Nat.lt_of_lt_of_le ?_ h.nextId_le
  rcases List.mem_append.mp hentry with hentry | hentry
  · obtain rfl := Option.mem_toList.mp hentry
    -- The event is on a row of the table, and ids of rows are below `nextId`.
    obtain ⟨old, hold⟩ := h.event_mem
    exact db.messages.id_lt _ hold
  · exact hlog entry hentry

end Fresh

/-- **History rule**: what holds of the empty history and is preserved by every step from a
well-formed system holds after every run. -/
theorem invariant_history {P : History → Prop} {cond : History → Operation → Prop}
    (hempty : P .empty)
    (hP : ∀ h op, WellFormed h.system → DlqsExist h.system.db → P h → cond h op → P (h.step op))
    {ops : List Operation} (hcond : Follows History.step cond .empty ops) :
    P (History.run ops) := by
  have hall : WellFormed (History.run ops).system ∧ DlqsExist (History.run ops).system.db ∧
      P (History.run ops) := by
    refine invariant_runFrom History.step
      (fun h => WellFormed h.system ∧ DlqsExist h.system.db ∧ P h) ?_ ?_ hcond
    · intro h op ⟨hwf, hdlqs, hinv⟩ hop
      exact ⟨hwf.step op, (step_changes hwf op).preserves' (fun _ _ _ => DlqsExist.change) hdlqs,
        hP h op hwf hdlqs hinv hop⟩
    · exact ⟨wellFormed_empty, fun _ hc => absurd hc List.not_mem_nil, hempty⟩
  exact hall.2.2

end Nzovu.Repository
