import Nzovu.Foundation.Transaction.Alone
import Nzovu.Foundation.Transaction.Inserts

/-!
# Serial Schedules

Sessions that take turns, each from its first statement to its end. A turn leaves no locks behind
and does not touch the other sessions, so the next session finds what it needs to run alone; a
machine that performs one call after another is then simulated by the world, session by session.

- Section 1: what a step of one session can be.
- Section 2: a turn.
- Section 3: schedules of turns.
- Section 4: statements on several rows.
-/

namespace Nzovu.Foundation

section Serial

variable {τ : Type} {κ ρ : τ → Type} {ε α : Type}

namespace World

/-! ## Section 1: Steps of one session -/

section Steps

variable [DecidableEq τ] [∀ T, DecidableEq (κ T)] {schema : Schema κ ρ}

/-- The world after a step of session `t`. -/
inductive Stepped (t : Nat) (w : World κ ρ ε α) : World κ ρ ε α → Prop where
  | waits : Stepped t w w
  | proceeds (p : Program κ ρ ε α) : Stepped t w (w.proceed t p)
  | reads (p : Program κ ρ ε α) : Stepped t w ((w.observe t).proceed t p)
  | locks (i : Ref κ) (p : Program κ ρ ε α) : Stepped t w ((w.lock t i).proceed t p)
  | writes (i : Ref κ) (row : Option (ρ i.1)) (p : Program κ ρ ε α) :
      Stepped t w ((w.put t i row).proceed t p)
  | commits (result : α) : Stepped t w (w.commit t result)
  | fails (error : ε) : Stepped t w (w.release t (.finished (.error error)))

theorem stepped_examine (w : World κ ρ ε α) (t : Nat) {T : τ} (s : Selection κ ρ T) (x : κ T)
    (rest : List (κ T)) (found : List (κ T × ρ T)) (next : List (κ T × ρ T) → Program κ ρ ε α) :
    Stepped t w (w.examine t T s x rest found next) := by
  unfold examine
  split
  · exact .proceeds _
  · split
    · exact .locks ⟨T, x⟩ _
    · exact .proceeds _

/-- Every step of a program is one of these. -/
theorem stepped_advance (w : World κ ρ ε α) (t : Nat) (p : Program κ ρ ε α) :
    Stepped t w (w.advance schema t p) := by
  cases p with
  | done result => exact .commits result
  | fail error => exact .fails error
  | now next => exact .proceeds _
  | read next => exact .reads _
  | select T s next => exact .proceeds _
  | fetch T s cursor found next =>
    cases cursor with
    | nil => exact .proceeds _
    | cons x rest =>
      simp only [advance]
      split
      · exact .proceeds _
      · split
        · exact stepped_examine ..
        · split
          · exact stepped_examine ..
          -- The row belongs to another session.
          · split
            · exact .waits
            · exact .proceeds _
  | write T x row refused next =>
    simp only [advance]
    split
    · split
      · exact .waits
      · split
        · exact .proceeds _
        · split
          · exact .proceeds _
          · exact .writes ⟨T, x⟩ row _
    · exact .waits

end Steps

/-! ## Section 2: A turn -/

/-- Nobody has locked a row. -/
def Idle (w : World κ ρ ε α) : Prop := ∀ i, w.owner i = none

/-- Only session `t` has locks, and only while it runs. -/
def Sole (w : World κ ρ ε α) (t : Nat) : Prop :=
  ∀ i t', w.owner i = some t' → t' = t ∧ w.Running t

/-- The session has not begun its program. -/
def Fresh (w : World κ ρ ε α) (t : Nat) (p : Program κ ρ ε α) : Prop :=
  w.session t = ⟨.running p, fun _ => none, none⟩

/-- The clock and the sessions other than `t` are as before. -/
structure Aside (t : Nat) (w w' : World κ ρ ε α) : Prop where
  clock : w'.clock = w.clock
  session : ∀ t', t' ≠ t → w'.session t' = w.session t'

theorem Aside.refl (t : Nat) (w : World κ ρ ε α) : Aside t w w := ⟨rfl, fun _ _ => rfl⟩

theorem Aside.trans {t : Nat} {w₁ w₂ w₃ : World κ ρ ε α} (h₁ : Aside t w₁ w₂)
    (h₂ : Aside t w₂ w₃) : Aside t w₁ w₃ :=
  ⟨h₂.clock.trans h₁.clock, fun t' ht' => (h₂.session t' ht').trans (h₁.session t' ht')⟩

/-- After a session has ended nobody has a lock. -/
theorem Sole.idle {w : World κ ρ ε α} {t : Nat} {result : Except ε α} (h : w.Sole t)
    (hended : (w.session t).status = .finished result) : w.Idle := by
  intro i
  cases howner : w.owner i with
  | none => rfl
  | some t' =>
    obtain ⟨-, p, hp⟩ := h i t' howner
    rw [hended] at hp
    cases hp

variable [DecidableEq τ] [∀ T, DecidableEq (κ T)] {schema : Schema κ ρ}
  {w w' : World κ ρ ε α} {t : Nat}

omit [DecidableEq τ] [∀ T, DecidableEq (κ T)] in
theorem Idle.solo (h : w.Idle) {p : Program κ ρ ε α} (hfresh : w.Fresh t p) :
    w.Solo t ⟨w.rows, fun _ => false⟩ := by
  refine ⟨?_, fun i => by simpa using h i⟩
  funext i
  rw [World.view, hfresh]
  rfl

omit [DecidableEq τ] [∀ T, DecidableEq (κ T)] in
theorem running_proceed (w : World κ ρ ε α) (t : Nat) (p : Program κ ρ ε α) :
    (w.proceed t p).Running t :=
  ⟨p, status_proceed w t p⟩

theorem Stepped.aside (h : Stepped t w w') : Aside t w w' := by
  refine ⟨by cases h <;> rfl, fun t' ht' => ?_⟩
  cases h with
  | waits => rfl
  | proceeds p => exact session_proceed_ne p ht'
  | reads p =>
    rw [session_proceed_ne p ht']
    exact Function.update_of_ne ht' _ _
  | locks i p => exact session_proceed_ne p ht'
  | writes i row p =>
    rw [session_proceed_ne p ht']
    exact session_put_ne ht'
  | commits result => exact session_release_ne (.finished (.ok result)) ht'
  | fails error => exact session_release_ne _ ht'

omit [DecidableEq τ] [∀ T, DecidableEq (κ T)] in
/-- The locks of a session that ends are gone. -/
theorem Sole.release (h : w.Sole t) (status : Status κ ρ ε α) : (w.release t status).Idle := by
  intro i
  by_cases howner : w.owner i = some t
  · simp [World.release, howner]
  · cases hi : w.owner i with
    | none => simp [World.release, hi]
    | some t' =>
      obtain ⟨rfl, -⟩ := h i t' hi
      exact absurd hi howner

omit [DecidableEq τ] [∀ T, DecidableEq (κ T)] in
theorem Idle.sole (h : w.Idle) : w.Sole t := by
  intro i t' howner
  rw [h i] at howner
  cases howner

theorem Stepped.sole (h : Stepped t w w') (hsole : w.Sole t) : w'.Sole t := by
  cases h with
  | waits => exact hsole
  | proceeds p =>
    intro i t' howner
    exact ⟨(hsole i t' howner).1, running_proceed _ t p⟩
  | reads p =>
    intro i t' howner
    exact ⟨(hsole i t' howner).1, running_proceed _ t p⟩
  | locks j p =>
    intro i t' howner
    refine ⟨?_, running_proceed _ t p⟩
    by_cases hi : i = j
    · subst hi
      have hown : some t = some t' := by simpa [World.proceed, World.lock] using howner
      exact (Option.some.inj hown).symm
    · exact (hsole i t' (by simpa [World.proceed, World.lock, hi] using howner)).1
  | writes j row p =>
    intro i t' howner
    exact ⟨(hsole i t' howner).1, running_proceed _ t p⟩
  | commits result => exact Idle.sole (hsole.release (.finished (.ok result)))
  | fails error => exact Idle.sole (hsole.release _)

/-- **A step of a turn**. -/
theorem stepped_run (w : World κ ρ ε α) (t : Nat) : Stepped t w (w.step schema (.run t)) := by
  simp only [step]
  split
  · exact stepped_advance w t _
  · exact .waits

/-- **A turn** leaves the clock and the other sessions alone. -/
theorem aside_turns (n : Nat) (w : World κ ρ ε α) : Aside t w (turns schema w t n) := by
  induction n generalizing w with
  | zero => exact .refl t w
  | succ n ih => exact (stepped_run w t).aside.trans (ih _)

theorem sole_turns (n : Nat) {w : World κ ρ ε α} (h : w.Sole t) :
    (turns schema w t n).Sole t := by
  induction n generalizing w with
  | zero => exact h
  | succ n ih => exact ih ((stepped_run w t).sole h)

/-- What is committed once a program has ended. -/
def settled (committed : Store κ ρ) : Except ε (α × Private κ ρ) → Store κ ρ
  | .ok (_, s) => s.rows
  | .error _ => committed

/-- **A whole turn**: the session ends with its computed outcome and commits the computed rows,
and nobody has a lock. -/
theorem exists_turn (hidle : w.Idle) {p : Program κ ρ ε α} (hfresh : w.Fresh t p)
    {r : Except ε (α × Private κ ρ)}
    (halone : p.alone schema w.clock ⟨w.rows, fun _ => false⟩ = some r) :
    ∃ n, ((turns schema w t n).session t).status = .finished (r.map Prod.fst) ∧
      (turns schema w t n).rows = settled w.rows r ∧ (turns schema w t n).Idle := by
  have hstatus : (w.session t).status = .running p := by rw [hfresh]
  obtain ⟨n, hreached⟩ := reached_of_alone (hidle.solo hfresh) hstatus rfl halone
  have hsole : (turns schema w t n).Sole t := sole_turns n hidle.sole
  cases r with
  | error error => exact ⟨n, hreached.1, hreached.2, hsole.idle hreached.1⟩
  | ok result => exact ⟨n, hreached.1, hreached.2, hsole.idle hreached.1⟩

/-! ## Section 3: Schedules of turns -/

/-- The first `n` sessions take their turns in order: the clock advances by `elapsed t`, then
session `t` is chosen `turns t` times. -/
def serial (elapsed turns : Nat → Nat) : Nat → List Action
  | 0 => []
  | t + 1 =>
    serial elapsed turns t ++ .tick (elapsed t) :: List.replicate (turns t) (.run t)

theorem turns_add (w : World κ ρ ε α) (t n k : Nat) :
    turns schema w t (n + k) = turns schema (turns schema w t n) t k := by
  rw [turns, List.replicate_add, runFrom_append]
  rfl

/-- A session that has ended uses no turns. -/
theorem turns_finished {result : Except ε α} (h : (w.session t).status = .finished result)
    (n : Nat) : turns schema w t n = w := by
  induction n with
  | zero => rfl
  | succ n ih =>
    rw [turns_succ, step, h]
    exact ih

end World

section Simulation

variable {σ β γ : Type} (perform : Int → σ → β → σ × γ) (elapsed : Nat → Nat) (job : Nat → β)

/-- The clock when a machine that performs one job after another has done the first `n`, and the
state it has reached. -/
def afterJobs (start : Int × σ) : Nat → Int × σ
  | 0 => start
  | n + 1 =>
    let before := afterJobs start n
    (before.1 + elapsed n, (perform (before.1 + elapsed n) before.2 (job n)).1)

/-- What it answers to job `n`. -/
def answerAt (start : Int × σ) (n : Nat) : γ :=
  let before := afterJobs perform elapsed job start n
  (perform (before.1 + elapsed n) before.2 (job n)).2

variable [DecidableEq τ] [∀ T, DecidableEq (κ T)] {schema : Schema κ ρ}

/-- A program that runs alone does what the machine does on a job. -/
def Simulates (schema : Schema κ ρ) (shows : σ → Store κ ρ → Prop) (agrees : γ → Except ε α → Prop)
    (clock : Int) (rows : Store κ ρ) (p : Program κ ρ ε α) (done : σ × γ) : Prop :=
  ∃ r, p.alone schema clock ⟨rows, fun _ => false⟩ = some r ∧
    shows done.1 (World.settled rows r) ∧ agrees done.2 (r.map Prod.fst)

/-- The world has come as far as the machine: the first `n` sessions have ended. -/
structure Caught (shows : σ → Store κ ρ → Prop) (agrees : γ → Except ε α → Prop)
    (program : β → Program κ ρ ε α) (start : Int × σ) (n : Nat) (w : World κ ρ ε α) : Prop where
  idle : w.Idle
  clock : w.clock = (afterJobs perform elapsed job start n).1
  rows : shows (afterJobs perform elapsed job start n).2 w.rows
  fresh : ∀ t, n ≤ t → w.Fresh t (program (job t))
  ended : ∀ t, t < n → ∃ r, (w.session t).status = .finished r ∧
    agrees (answerAt perform elapsed job start t) r

variable {perform elapsed job} {shows : σ → Store κ ρ → Prop} {agrees : γ → Except ε α → Prop}
  {program : β → Program κ ρ ε α} {start : Int × σ}

/-- **Step**: the next session takes its turn. -/
theorem Caught.turn {n : Nat} {w : World κ ρ ε α}
    (h : Caught perform elapsed job shows agrees program start n w)
    (hsimulates : ∀ clock s rows b, shows s rows →
      Simulates schema shows agrees clock rows (program b) (perform clock s b)) :
    ∃ k, Caught perform elapsed job shows agrees program start (n + 1)
      (World.turns schema (w.step schema (.tick (elapsed n))) n k) := by
  obtain ⟨r, halone, hshows, hagrees⟩ := hsimulates (w.clock + elapsed n) _ w.rows (job n) h.rows
  have hidle : (w.step schema (.tick (elapsed n))).Idle := h.idle
  have hfresh : (w.step schema (.tick (elapsed n))).Fresh n (program (job n)) :=
    h.fresh n (Nat.le_refl n)
  obtain ⟨k, hstatus, hrows, hidle'⟩ := World.exists_turn hidle hfresh halone
  have haside : World.Aside n (w.step schema (.tick (elapsed n)))
      (World.turns schema (w.step schema (.tick (elapsed n))) n k) := World.aside_turns k _
  refine ⟨k, hidle', ?_, ?_, fun t ht => ?_, fun t ht => ?_⟩
  · rw [haside.clock, afterJobs, ← h.clock]
    rfl
  · rw [hrows, afterJobs, ← h.clock]
    exact hshows
  · have hne : t ≠ n := by omega
    exact (haside.session t hne).trans (h.fresh t (by omega))
  · by_cases hne : t = n
    · subst hne
      refine ⟨_, hstatus, ?_⟩
      rw [answerAt, ← h.clock]
      exact hagrees
    · obtain ⟨r', hended, hagrees'⟩ := h.ended t (by omega)
      refine ⟨r', ?_, hagrees'⟩
      rw [haside.session t hne]
      exact hended

/-- **Simulation of serial runs**: when every session is chosen often enough, the world comes as
far as the machine; more turns change nothing. -/
theorem exists_serial {w : World κ ρ ε α}
    (h : Caught perform elapsed job shows agrees program start 0 w)
    (hsimulates : ∀ clock s rows b, shows s rows →
      Simulates schema shows agrees clock rows (program b) (perform clock s b)) (n : Nat) :
    ∃ (needed : Nat → Nat) (w' : World κ ρ ε α),
      Caught perform elapsed job shows agrees program start n w' ∧
      ∀ turns : Nat → Nat, (∀ t, t < n → needed t ≤ turns t) →
        runFrom (World.step schema) w (World.serial elapsed turns n) = w' := by
  induction n with
  | zero => exact ⟨fun _ => 0, w, h, fun _ _ => rfl⟩
  | succ n ih =>
    obtain ⟨needed, w₁, hcaught, hrun⟩ := ih
    obtain ⟨k, hnext⟩ := hcaught.turn hsimulates
    refine ⟨Function.update needed n k, _, hnext, fun turns hturns => ?_⟩
    have hbefore := hrun turns fun t ht => by
      simpa [Nat.ne_of_lt ht] using hturns t (Nat.lt_succ_of_lt ht)
    have hk : k ≤ turns n := by simpa using hturns n (Nat.lt_succ_self n)
    obtain ⟨r, hended, -⟩ := hnext.ended n (Nat.lt_succ_self n)
    rw [World.serial, runFrom_append, hbefore, runFrom_cons]
    show World.turns schema _ n (turns n) = _
    rw [← Nat.add_sub_of_le hk, World.turns_add, World.turns_finished hended]

end Simulation

/-! ## Section 4: Statements on several rows -/

section Several

variable {T : τ}

/-- The rows a locking statement goes through, in its order. -/
def Selection.entries (schema : Schema κ ρ) (sel : Selection κ ρ T) (rows : Store κ ρ) :
    List (κ T × ρ T) :=
  ((schema.scan rows T).filter fun e => sel.filter e.1 e.2).insertionSort
    fun a b => sel.before a b = true

/-- Those of them the limit leaves when `found` rows were taken before. -/
def Selection.taken (sel : Selection κ ρ T) (found : Nat) (entries : List (κ T × ρ T)) :
    List (κ T × ρ T) :=
  match sel.limit with
  | none => entries
  | some n => entries.take (n - found)

theorem Selection.mem_entries {schema : Schema κ ρ} {sel : Selection κ ρ T} {rows : Store κ ρ}
    {e : κ T × ρ T} (h : e ∈ sel.entries schema rows) :
    rows ⟨T, e.1⟩ = some e.2 ∧ sel.filter e.1 e.2 = true := by
  obtain ⟨hscan, hfilter⟩ := List.mem_filter.mp ((List.mem_insertionSort _).mp h)
  exact ⟨(schema.mem_scan.mp hscan).2, hfilter⟩

variable [DecidableEq τ] [∀ T, DecidableEq (κ T)] {schema : Schema κ ρ} {clock : Int}

namespace Private

/-- After locking several rows. -/
def lockAll (s : Private κ ρ) (entries : List (κ T × ρ T)) : Private κ ρ :=
  entries.foldl (fun s e => s.lock ⟨T, e.1⟩) s

/-- After deleting several rows. -/
def dropAll (s : Private κ ρ) (entries : List (κ T × ρ T)) : Private κ ρ :=
  entries.foldl (fun s e => s.put ⟨T, e.1⟩ none) s

@[simp] theorem lockAll_rows (s : Private κ ρ) (entries : List (κ T × ρ T)) :
    (s.lockAll entries).rows = s.rows := by
  induction entries generalizing s with
  | nil => rfl
  | cons e rest ih => exact ih _

theorem held_lockAll {s : Private κ ρ} {entries : List (κ T × ρ T)} {i : Ref κ}
    (h : s.held i = true ∨ ∃ e ∈ entries, i = ⟨T, e.1⟩) : (s.lockAll entries).held i = true := by
  induction entries generalizing s with
  | nil => simpa [lockAll] using h
  | cons e rest ih =>
    apply ih
    by_cases hi : i = ⟨T, e.1⟩
    · exact .inl (by simp [lock, hi])
    · rcases h with hheld | ⟨d, hd, rfl⟩
      · exact .inl (by simpa [lock, hi] using hheld)
      · rcases List.mem_cons.mp hd with rfl | hd
        · exact absurd rfl hi
        · exact .inr ⟨d, hd, rfl⟩

/-- A deleted row is gone, and the others are as before. -/
theorem dropAll_rows (s : Private κ ρ) (entries : List (κ T × ρ T)) (i : Ref κ) :
    (s.dropAll entries).rows i = if ∃ e ∈ entries, i = ⟨T, e.1⟩ then none else s.rows i := by
  induction entries generalizing s with
  | nil => simp [dropAll]
  | cons e rest ih =>
    refine (ih _).trans ?_
    by_cases hrest : ∃ d ∈ rest, i = ⟨T, d.1⟩
    · obtain ⟨d, hd, rfl⟩ := hrest
      rw [if_pos ⟨d, hd, rfl⟩, if_pos ⟨d, List.mem_cons_of_mem _ hd, rfl⟩]
    · rw [if_neg hrest]
      by_cases hi : i = ⟨T, e.1⟩
      · subst hi
        rw [if_pos ⟨e, List.mem_cons_self, rfl⟩]
        exact Function.update_self _ _ _
      · rw [if_neg]
        · exact Function.update_of_ne hi _ _
        · rintro ⟨d, hd, hd'⟩
          rcases List.mem_cons.mp hd with rfl | hd
          · exact hi hd'
          · exact hrest ⟨d, hd, hd'⟩

/-- A locking statement takes the rows in its order, until its limit. -/
theorem fetch_entries {sel : Selection κ ρ T} {entries : List (κ T × ρ T)} {s : Private κ ρ}
    (found : List (κ T × ρ T))
    (h : ∀ e ∈ entries, s.rows ⟨T, e.1⟩ = some e.2 ∧ sel.filter e.1 e.2 = true) :
    fetch sel (entries.map Prod.fst) found s =
      (found ++ sel.taken found.length entries, s.lockAll (sel.taken found.length entries)) := by
  induction entries generalizing found s with
  | nil => cases hlimit : sel.limit <;> simp [fetch, Selection.taken, hlimit, lockAll]
  | cons e rest ih =>
    obtain ⟨hrow, hfilter⟩ := h e List.mem_cons_self
    have hrest := ih (s := s.lock ⟨T, e.1⟩) (found ++ [e]) fun d hd =>
      h d (List.mem_cons_of_mem _ hd)
    simp only [List.map_cons, fetch]
    by_cases hfull : sel.full found = true
    · rw [if_pos hfull]
      obtain ⟨n, hlimit, hn⟩ := (Option.any_eq_true _ _).mp hfull
      have hzero : n - found.length = 0 := Nat.sub_eq_zero_of_le (of_decide_eq_true hn)
      simp [Selection.taken, hlimit, hzero, lockAll]
    · rw [if_neg hfull, hrow]
      simp only [if_pos hfilter]
      rw [hrest]
      -- One more row was taken.
      have htaken : sel.taken found.length (e :: rest) =
          e :: sel.taken (found ++ [e]).length rest := by
        unfold Selection.taken
        cases hlimit : sel.limit with
        | none => rfl
        | some n =>
          have hlt : found.length < n := by simpa [Selection.full, hlimit] using hfull
          have hsucc : n - found.length = n - (found ++ [e]).length + 1 := by
            rw [List.length_append, List.length_singleton]
            omega
          simp only [hsucc, List.take_succ_cons]
      rw [htaken, List.append_assoc]
      rfl

end Private

/-- What `SELECT … FOR UPDATE` returns, and that it has locked it. -/
theorem Program.alone_select (s : Private κ ρ) (sel : Selection κ ρ T) :
    ∃ held, (Program.selectForUpdate T sel : Program κ ρ ε _).alone schema clock s =
        some (.ok (sel.taken 0 (sel.entries schema s.rows), ⟨s.rows, held⟩)) ∧
      ∀ e ∈ sel.taken 0 (sel.entries schema s.rows), held ⟨T, e.1⟩ = true := by
  have hentries : ∀ e ∈ sel.entries schema s.rows,
      s.rows ⟨T, e.1⟩ = some e.2 ∧ sel.filter e.1 e.2 = true := fun _ he => sel.mem_entries he
  have hfetch : Private.fetch sel (World.candidates schema sel s.rows) [] s =
      (sel.taken 0 (sel.entries schema s.rows), s.lockAll (sel.taken 0
        (sel.entries schema s.rows))) := Private.fetch_entries [] hentries
  generalize sel.taken 0 (sel.entries schema s.rows) = taken at hfetch ⊢
  refine ⟨(s.lockAll taken).held, ?_, fun e he => Private.held_lockAll (.inr ⟨e, he, rfl⟩)⟩
  show some (Except.ok (Private.fetch sel (World.candidates schema sel s.rows) [] s)) = _
  rw [hfetch]
  exact congrArg (fun rows => some (Except.ok (taken, Private.mk rows (s.lockAll taken).held)))
    (s.lockAll_rows taken)

/-- Locked rows can all be deleted. -/
theorem Program.alone_deleteAll {refused : Violation → ε} {entries : List (κ T × ρ T)}
    {s : Private κ ρ} (h : ∀ e ∈ entries, s.held ⟨T, e.1⟩ = true) :
    (Program.writeAll T (fun _ => none) refused entries).alone schema clock s =
      some (.ok ((), s.dropAll entries)) := by
  induction entries generalizing s with
  | nil => rfl
  | cons e rest ih =>
    have hheld := h e List.mem_cons_self
    simp only [writeAll, alone, hheld, if_true, Option.any_none, Bool.false_eq_true, if_false]
    exact ih fun d hd => h d (List.mem_cons_of_mem _ hd)

end Several

end Serial

end Nzovu.Foundation
