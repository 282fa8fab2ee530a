import Nzovu.Foundation.Run
import Nzovu.Foundation.Transaction.Soundness

/-!
# Transactions That Run Alone

When no other session moves and the clock stands still, a transaction is an ordinary program: each
statement finds what the one before it has left. `Program.alone` computes its outcome; the machine
reaches the same outcome when the scheduler chooses the one session over and over.

- Section 1: the outcome of a program that runs alone.
- Section 2: composition, and locking statements.
- Section 3: the machine agrees.
-/

namespace Nzovu.Foundation

/-! ## Section 1: Outcomes -/

section Alone

variable {τ : Type} (κ ρ : τ → Type)

/-- The rows as the transaction sees them, and the rows it has locked. -/
structure Private where
  rows : Store κ ρ
  held : Ref κ → Bool

variable {κ ρ} {ε α β : Type} [DecidableEq τ] [∀ T, DecidableEq (κ T)]

namespace Private

/-- After locking a row. -/
def lock (s : Private κ ρ) (i : Ref κ) : Private κ ρ :=
  { s with held := Function.update s.held i true }

/-- After writing a row. -/
def put (s : Private κ ρ) (i : Ref κ) (row : Option (ρ i.1)) : Private κ ρ :=
  { s with rows := Function.update s.rows i row }

variable (schema : Schema κ ρ)

/-- The new version of row `x` clashes with another row. -/
def clashes (s : Private κ ρ) (T : τ) (x : κ T) (row : ρ T) : Bool :=
  (schema.keys T).any fun y => y ≠ x && (s.rows ⟨T, y⟩).any (schema.clash T row)

/-- A referenced row is missing. -/
def dangling (s : Private κ ρ) (T : τ) (row : ρ T) : Bool :=
  (schema.requires T row).any fun j => (s.rows j).isNone

/-- A locking statement goes through its keys and takes the rows that satisfy the `WHERE`
clause. -/
def fetch {T : τ} (sel : Selection κ ρ T) :
    List (κ T) → List (κ T × ρ T) → Private κ ρ → List (κ T × ρ T) × Private κ ρ
  | [], found, s => (found, s)
  | x :: rest, found, s =>
    if sel.full found then (found, s)
    else
      match s.rows ⟨T, x⟩ with
      | none => fetch sel rest found s
      | some row =>
        if sel.filter x row then fetch sel rest (found ++ [(x, row)]) (s.lock ⟨T, x⟩)
        else fetch sel rest found s

end Private

/-- The outcome of a program that runs alone while the clock shows `clock`; `none` when it writes
a row it has not locked. -/
def Program.alone (schema : Schema κ ρ) (clock : Int) :
    Program κ ρ ε α → Private κ ρ → Option (Except ε (α × Private κ ρ))
  | .done result, s => some (.ok (result, s))
  | .fail error, _ => some (.error error)
  | .now next, s => (next clock).alone schema clock s
  | .read next, s => (next (schema.scan s.rows)).alone schema clock s
  | .select _ sel next, s =>
    let (found, s') := Private.fetch sel (World.candidates schema sel s.rows) [] s
    (next found).alone schema clock s'
  | .fetch _ sel cursor found next, s =>
    let (found', s') := Private.fetch sel cursor found s
    (next found').alone schema clock s'
  | .write T x row refused next, s =>
    if s.held ⟨T, x⟩ then
      if row.any (s.clashes schema T x) then some (.error (refused .unique))
      else if row.any (s.dangling schema T) then some (.error (refused .foreignKey))
      else next.alone schema clock (s.put ⟨T, x⟩ row)
    else none

/-! ## Section 2: Rules -/

variable {schema : Schema κ ρ} {clock : Int} {s : Private κ ρ} {T : τ}

@[simp] theorem Program.alone_pure (a : α) :
    (pure a : Program κ ρ ε α).alone schema clock s = some (.ok (a, s)) := rfl

@[simp] theorem Program.alone_fail (error : ε) :
    (Program.fail error : Program κ ρ ε α).alone schema clock s = some (.error error) := rfl

/-- **Sequential composition**: the second program starts where the first has ended; an error ends
both. -/
theorem Program.alone_bind (p : Program κ ρ ε α) (f : α → Program κ ρ ε β) :
    (p.bind f).alone schema clock s =
      match p.alone schema clock s with
      | none => none
      | some (.error error) => some (.error error)
      | some (.ok (a, s')) => (f a).alone schema clock s' := by
  induction p generalizing s with
  | done result => rfl
  | fail error => rfl
  | now next ih => exact ih clock
  | read next ih => exact ih _
  | select T sel next ih => exact ih _
  | fetch T sel cursor found next ih => exact ih _
  | write T x row refused next ih =>
    simp only [Program.bind, Program.alone]
    split
    · split
      · rfl
      · split
        · rfl
        · exact ih
    · rfl

/-- Composition after a program that succeeds. -/
theorem Program.alone_bind_ok {p : Program κ ρ ε α} {a : α} {s' : Private κ ρ}
    (h : p.alone schema clock s = some (.ok (a, s'))) (f : α → Program κ ρ ε β) :
    (p >>= f).alone schema clock s = (f a).alone schema clock s' := by
  show (p.bind f).alone schema clock s = _
  rw [Program.alone_bind, h]

/-- Composition after a program that fails. -/
theorem Program.alone_bind_error {p : Program κ ρ ε α} {error : ε}
    (h : p.alone schema clock s = some (.error error)) (f : α → Program κ ρ ε β) :
    (p >>= f).alone schema clock s = some (.error error) := by
  show (p.bind f).alone schema clock s = _
  rw [Program.alone_bind, h]

/-- A statement whose `WHERE` clause no row satisfies. -/
theorem Program.alone_select_none {sel : Selection κ ρ T}
    (hnone : ∀ x ∈ schema.keys T, ∀ row, s.rows ⟨T, x⟩ = some row → sel.filter x row = false) :
    (Program.selectForUpdate T sel : Program κ ρ ε _).alone schema clock s =
      some (.ok ([], s)) := by
  have hcandidates : World.candidates schema sel s.rows = [] := by
    rw [List.eq_nil_iff_forall_not_mem]
    intro x hx
    obtain ⟨hkeys, row, hrow, hfilter⟩ := mem_candidates.mp hx
    rw [hnone x hkeys row hrow] at hfilter
    cases hfilter
  simp [Program.selectForUpdate, Program.alone, hcandidates, Private.fetch]

/-- A statement without a limit that selects one row. -/
theorem Program.alone_select_one {sel : Selection κ ρ T} (hlimit : sel.limit = none)
    (hunique : schema.Unique s.rows) (hone : SelectsOne schema sel.filter) {x : κ T} {row : ρ T}
    (hkeys : x ∈ schema.keys T) (hrow : s.rows ⟨T, x⟩ = some row)
    (hfilter : sel.filter x row = true) :
    (Program.selectForUpdate T sel : Program κ ρ ε _).alone schema clock s =
      some (.ok ([(x, row)], s.lock ⟨T, x⟩)) := by
  have hcandidates := candidates_eq_singleton hunique hone hkeys hrow hfilter
  simp [Program.selectForUpdate, Program.alone, hcandidates, Private.fetch, Selection.full,
    hlimit, hrow, hfilter]

/-- `UPDATE` or `DELETE` of one row, as far as the constraints allow. -/
theorem Program.alone_modify_one {filter : κ T → ρ T → Bool} {set : ρ T → Option (ρ T)}
    {refused : Violation → ε} (hunique : schema.Unique s.rows) (hone : SelectsOne schema filter)
    {x : κ T} {row : ρ T} (hkeys : x ∈ schema.keys T) (hrow : s.rows ⟨T, x⟩ = some row)
    (hfilter : filter x row = true) :
    (Program.modify T filter set refused).alone schema clock s =
      if (set row).any (s.clashes schema T x) then some (.error (refused .unique))
      else if (set row).any (s.dangling schema T) then some (.error (refused .foreignKey))
      else some (.ok ([(x, row)], (s.lock ⟨T, x⟩).put ⟨T, x⟩ (set row))) := by
  have hselect : (Program.selectForUpdate T { filter := filter } : Program κ ρ ε _).alone schema
      clock s = some (.ok ([(x, row)], s.lock ⟨T, x⟩)) :=
    Program.alone_select_one rfl hunique hone hkeys hrow hfilter
  have hheld : (s.lock ⟨T, x⟩).held ⟨T, x⟩ = true := by simp [Private.lock]
  rw [Program.modify, Program.alone_bind, hselect]
  simp only [Program.writeAll, Program.bind, Program.alone, hheld, if_true]
  rfl

/-! ## Section 3: The machine -/

namespace World

/-- Session `t` sees `s.rows` and has locked what `s` says; no other session has a lock. -/
structure Solo (w : World κ ρ ε α) (t : Nat) (s : Private κ ρ) : Prop where
  view : w.view t = s.rows
  owner : ∀ i, w.owner i = if s.held i then some t else none

variable {w : World κ ρ ε α} {t : Nat}

omit [DecidableEq τ] [∀ T, DecidableEq (κ T)] in
theorem Solo.proceed (h : w.Solo t s) (p : Program κ ρ ε α) : (w.proceed t p).Solo t s :=
  ⟨by rw [view_proceed, h.view], h.owner⟩

omit [DecidableEq τ] [∀ T, DecidableEq (κ T)] in
theorem Solo.observe (h : w.Solo t s) : (w.observe t).Solo t s := by
  refine ⟨?_, h.owner⟩
  rw [← h.view]
  funext i
  simp [World.view, World.observe]

theorem Solo.lock (h : w.Solo t s) (i : Ref κ) : (w.lock t i).Solo t (s.lock i) := by
  refine ⟨h.view, fun j => ?_⟩
  by_cases hj : j = i
  · subst hj
    simp [World.lock, Private.lock]
  · simpa [World.lock, Private.lock, hj] using h.owner j

theorem Solo.put (h : w.Solo t s) (i : Ref κ) (row : Option (ρ i.1)) :
    (w.put t i row).Solo t (s.put i row) :=
  ⟨by rw [view_put, h.view]; rfl, h.owner⟩

omit [DecidableEq τ] in
/-- Nobody else has a row, so no write is undecided. -/
theorem Solo.undecided (h : w.Solo t s) (T : τ) (x : κ T) (row : ρ T) :
    w.undecided schema t T x row = false := by
  rw [World.undecided, List.any_eq_false]
  intro y _ hundecided
  rw [h.owner ⟨T, y⟩] at hundecided
  split at hundecided <;> simp at hundecided

/-- What the machine shows once session `t` has ended as computed. -/
def Reached (w' : World κ ρ ε α) (t : Nat) (committed : Store κ ρ) :
    Except ε (α × Private κ ρ) → Prop
  | .ok (a, s) => (w'.session t).status = .finished (.ok a) ∧ w'.rows = s.rows
  | .error error => (w'.session t).status = .finished (.error error) ∧ w'.rows = committed

/-- The scheduler chooses session `t` for `n` steps. -/
def turns (schema : Schema κ ρ) (w : World κ ρ ε α) (t n : Nat) : World κ ρ ε α :=
  runFrom (World.step schema) w (List.replicate n (.run t))

theorem turns_succ (n : Nat) :
    turns schema w t (n + 1) = turns schema (w.step schema (.run t)) t n :=
  rfl

omit [DecidableEq τ] [∀ T, DecidableEq (κ T)] in
theorem status_proceed (w : World κ ρ ε α) (t : Nat) (p : Program κ ρ ε α) :
    ((w.proceed t p).session t).status = .running p := by
  rw [session_proceed]

/-- An error ends the session, and nothing is committed. -/
private theorem reached_fail {error : ε} (hstatus : (w.session t).status = .running (.fail error)) :
    ∃ n, Reached (turns schema w t n) t w.rows (.error error) := by
  refine ⟨1, ?_⟩
  rw [turns_succ, World.step, hstatus]
  exact ⟨by simp [turns, World.advance, World.release], rfl⟩

/-- A step that only changes the program is one turn more. -/
private theorem reached_of_step {w₁ : World κ ρ ε α} {p : Program κ ρ ε α}
    (hstatus : (w.session t).status = .running p) (hstep : w.advance schema t p = w₁)
    (hrows : w₁.rows = w.rows) {r : Except ε (α × Private κ ρ)}
    (h : ∃ n, Reached (turns schema w₁ t n) t w₁.rows r) :
    ∃ n, Reached (turns schema w t n) t w.rows r := by
  obtain ⟨n, hn⟩ := h
  refine ⟨n + 1, ?_⟩
  rw [turns_succ, World.step, hstatus]
  simp only
  rwa [hstep, ← hrows]

/-- A locking statement takes its rows one by one. -/
private theorem reached_fetch {sel : Selection κ ρ T} {next : List (κ T × ρ T) → Program κ ρ ε α}
    {r : Except ε (α × Private κ ρ)}
    (hnext : ∀ found (w : World κ ρ ε α) (s : Private κ ρ), w.Solo t s →
      (w.session t).status = .running (next found) → w.clock = clock →
      (next found).alone schema clock s = some r → ∃ n, Reached (turns schema w t n) t w.rows r)
    (cursor : List (κ T)) :
    ∀ (found : List (κ T × ρ T)) (w : World κ ρ ε α) (s : Private κ ρ), w.Solo t s →
      (w.session t).status = .running (.fetch T sel cursor found next) → w.clock = clock →
      (Program.fetch T sel cursor found next).alone schema clock s = some r →
      ∃ n, Reached (turns schema w t n) t w.rows r := by
  induction cursor with
  | nil =>
    intro found w s hsolo hstatus hclock halone
    refine reached_of_step hstatus rfl rfl ?_
    exact hnext found _ s (hsolo.proceed _) (status_proceed _ _ _) hclock halone
  | cons x rest ih =>
    intro found w s hsolo hstatus hclock halone
    by_cases hfull : sel.full found = true
    · have hstep : w.advance schema t (.fetch T sel (x :: rest) found next) =
          w.proceed t (next found) := by simp [World.advance, hfull]
      refine reached_of_step hstatus hstep rfl
        (hnext found _ s (hsolo.proceed _) (status_proceed _ _ _) hclock ?_)
      simpa [Program.alone, Private.fetch, hfull] using halone
    · -- The row is free or locked by the session itself.
      have hexamine : w.advance schema t (.fetch T sel (x :: rest) found next) =
          w.examine t T sel x rest found next := by
        have howner := hsolo.owner ⟨T, x⟩
        by_cases hheld : s.held ⟨T, x⟩ = true
        · rw [if_pos hheld] at howner
          simp [World.advance, hfull, howner]
        · rw [if_neg hheld] at howner
          simp [World.advance, hfull, howner]
      have hview : w.view t ⟨T, x⟩ = s.rows ⟨T, x⟩ := by rw [hsolo.view]
      cases hrow : s.rows ⟨T, x⟩ with
      | none =>
        have hstep : w.advance schema t (.fetch T sel (x :: rest) found next) =
            w.proceed t (.fetch T sel rest found next) := by
          simp [hexamine, World.examine, hview, hrow]
        refine reached_of_step hstatus hstep rfl
          (ih found _ s (hsolo.proceed _) (status_proceed _ _ _) hclock ?_)
        simpa [Program.alone, Private.fetch, hfull, hrow] using halone
      | some row =>
        by_cases hfilter : sel.filter x row = true
        · have hstep : w.advance schema t (.fetch T sel (x :: rest) found next) =
              (w.lock t ⟨T, x⟩).proceed t (.fetch T sel rest (found ++ [(x, row)]) next) := by
            simp [hexamine, World.examine, hview, hrow, hfilter]
          refine reached_of_step hstatus hstep rfl (ih (found ++ [(x, row)]) _ (s.lock ⟨T, x⟩)
            ((hsolo.lock _).proceed _) (status_proceed _ _ _) hclock ?_)
          simpa [Program.alone, Private.fetch, hfull, hrow, hfilter] using halone
        · have hstep : w.advance schema t (.fetch T sel (x :: rest) found next) =
              w.proceed t (.fetch T sel rest found next) := by
            simp [hexamine, World.examine, hview, hrow, hfilter]
          refine reached_of_step hstatus hstep rfl
            (ih found _ s (hsolo.proceed _) (status_proceed _ _ _) hclock ?_)
          simpa [Program.alone, Private.fetch, hfull, hrow, hfilter] using halone

/-- **Agreement**: a session that runs alone ends with the computed outcome, and commits the
computed rows. -/
theorem reached_of_alone {p : Program κ ρ ε α} {r : Except ε (α × Private κ ρ)}
    (hsolo : w.Solo t s) (hstatus : (w.session t).status = .running p) (hclock : w.clock = clock)
    (halone : p.alone schema clock s = some r) :
    ∃ n, Reached (turns schema w t n) t w.rows r := by
  induction p generalizing w s with
  | done a =>
    cases halone
    refine ⟨1, ?_⟩
    rw [turns_succ, World.step, hstatus]
    exact ⟨by simp [turns, World.advance, World.commit, World.release], hsolo.view⟩
  | fail error =>
    cases halone
    exact reached_fail hstatus
  | now next ih =>
    refine reached_of_step hstatus rfl rfl (ih _ (hsolo.proceed _) (status_proceed _ _ _) hclock ?_)
    rw [hclock]
    exact halone
  | read next ih =>
    refine reached_of_step hstatus rfl rfl
      (ih _ (hsolo.observe.proceed _) (status_proceed _ _ _) hclock ?_)
    rw [hsolo.view]
    exact halone
  | select T sel next ih =>
    refine reached_of_step hstatus rfl rfl ?_
    refine reached_fetch (fun found w s hsolo hstatus => ih found hsolo hstatus) _ _ _ s
      (hsolo.proceed _) (status_proceed _ _ _) hclock ?_
    rw [hsolo.view]
    exact halone
  | fetch T sel cursor found next ih =>
    exact reached_fetch (fun found w s hsolo hstatus => ih found hsolo hstatus) cursor found w s
      hsolo hstatus hclock halone
  | write T x row refused next ih =>
    have hclashes : w.clashes schema t T x = s.clashes schema T x := by
      funext new
      rw [World.clashes, hsolo.view, Private.clashes]
    have hdangling : w.dangling schema t T = s.dangling schema T := by
      funext new
      rw [World.dangling, hsolo.view, Private.dangling]
    have hdecided : row.any (w.undecided schema t T x) = false := by
      cases row with
      | none => rfl
      | some new => exact hsolo.undecided T x new
    simp only [Program.alone] at halone
    split at halone
    · rename_i hheld
      have howner : w.owner ⟨T, x⟩ = some t := by rw [hsolo.owner, if_pos hheld]
      split at halone
      · rename_i hclash
        have hstep : w.advance schema t (.write T x row refused next) =
            w.proceed t (.fail (refused .unique)) := by
          simp [World.advance, howner, hdecided, hclashes, hclash]
        cases halone
        exact reached_of_step hstatus hstep rfl (reached_fail (status_proceed _ _ _))
      · rename_i hclash
        split at halone
        · rename_i hdangle
          have hstep : w.advance schema t (.write T x row refused next) =
              w.proceed t (.fail (refused .foreignKey)) := by
            simp [World.advance, howner, hdecided, hclashes, hclash, hdangling, hdangle]
          cases halone
          exact reached_of_step hstatus hstep rfl (reached_fail (status_proceed _ _ _))
        · rename_i hdangle
          have hstep : w.advance schema t (.write T x row refused next) =
              (w.put t ⟨T, x⟩ row).proceed t next := by
            simp [World.advance, howner, hdecided, hclashes, hclash, hdangling, hdangle]
          exact reached_of_step hstatus hstep rfl
            (ih ((hsolo.put _ _).proceed _) (status_proceed _ _ _) hclock halone)
    · cases halone

end World

end Alone

end Nzovu.Foundation
