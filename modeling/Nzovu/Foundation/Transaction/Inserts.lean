import Nzovu.Foundation.Transaction.Soundness

/-!
# Transactions that Insert Rows

The primary key of an inserted row is drawn from a sequence, which gives no key twice. A world
where the sessions hold the keys they will draw from the start has the same runs: no statement
meets a key that has no row.

- Section 1: programs that insert rows, and errors with a context.
- Section 2: sessions that hold keys from the start.
- Section 3: what runs stays the session's own.
-/

namespace Nzovu.Foundation

/-! ## Section 1: Programs -/

namespace Program

section Programs

variable {τ : Type} {κ ρ : τ → Type} {ε ε' α : Type}

/-- `INSERT` under a key the session holds. -/
def insert (T : τ) (x : κ T) (row : ρ T) (refused : Violation → ε) : Program κ ρ ε Unit :=
  write T x (some row) refused (done ())

/-- The errors of a program, seen by its caller. -/
def mapError (f : ε → ε') : Program κ ρ ε α → Program κ ρ ε' α
  | done result => done result
  | fail error => fail (f error)
  | now next => now fun clock => (next clock).mapError f
  | read next => read fun rows => (next rows).mapError f
  | select T s next => select T s fun found => (next found).mapError f
  | fetch T s cursor found next => fetch T s cursor found fun found => (next found).mapError f
  | write T key row refused next => write T key row (fun v => f (refused v)) (next.mapError f)

variable [DecidableEq τ] [∀ T, DecidableEq (κ T)] {schema : Schema κ ρ} {Inv : Store κ ρ → Prop}
  {L : Local κ ρ}

/-- Naming an error changes nothing that is committed. -/
theorem safe_mapError {f : ε → ε'} {post : α → Local κ ρ → Prop} {p : Program κ ρ ε α}
    (h : p.Safe schema Inv post L) : (p.mapError f).Safe schema Inv post L := by
  induction p generalizing L with
  | done result => exact h
  | fail error => trivial
  | now next ih => exact fun clock hle => ih clock (h clock hle)
  | read next ih => exact fun rows clock hsees hle => ih _ (h rows clock hsees hle)
  | select T s next ih => exact fun rows hsees => (h rows hsees).mono fun found L => ih found
  | fetch T s cursor found next ih => exact ⟨h.1, h.2.mono fun found L => ih found⟩
  | write T x row refused next ih => exact ⟨h.1, fun rows hsees hrefs => ih (h.2 rows hsees hrefs)⟩

/-- **Rule for an insertion**. -/
theorem safe_insert {T : τ} {x : κ T} {row : ρ T} {refused : Violation → ε}
    {post : Unit → Local κ ρ → Prop} (hheld : L.held ⟨T, x⟩ ≠ none)
    (h : L.Refers schema Inv T (some row) → post () (L.write T x (some row))) :
    (insert T x row refused).Safe schema Inv post L :=
  safe_write hheld h

end Programs

end Program

/-! ## Section 2: Keys held from the start -/

section Holding

variable {τ : Type} {κ ρ : τ → Type} {ε α : Type}

/-- What session `t` knows at the start, when `owner` says whose the keys are. -/
def Local.startHolding (clock : Int) (rows : Store κ ρ) (owner : Ref κ → Option Nat) (t : Nat) :
    Local κ ρ where
  clock := clock
  held := fun i => if owner i = some t then some (rows i, rows i) else none
  seen := none

/-- No session has begun its program, and `owner` says whose the keys are. -/
def World.startHolding (clock : Int) (rows : Store κ ρ) (program : Nat → Program κ ρ ε α)
    (owner : Ref κ → Option Nat) : World κ ρ ε α :=
  { World.start clock rows program with owner := owner }

variable [DecidableEq τ] [∀ T, DecidableEq (κ T)] {schema : Schema κ ρ} {Inv : Store κ ρ → Prop}
  {post : Nat → α → Local κ ρ → Prop}

theorem World.Sound.startHolding {clock : Int} {rows : Store κ ρ} {program : Nat → Program κ ρ ε α}
    {owner : Ref κ → Option Nat} (hunique : schema.Unique rows) (hinv : Inv rows)
    (hkeys : ∀ i t, owner i = some t → i.2 ∈ schema.keys i.1)
    (hsafe : ∀ t, (program t).Safe schema Inv (post t) (.startHolding clock rows owner t)) :
    Sound schema Inv post (World.startHolding clock rows program owner) := by
  refine ⟨⟨?_, hkeys, ?_, hunique, fun _ => hunique, ?_⟩, hinv, ?_⟩
  · intro t i hversion
    exact absurd rfl hversion
  · intro t s hs
    cases hs
  · intro t t' _ T x y _ a b ha
    cases ha
  · intro t p hp
    cases hp
    exact ⟨clock, le_refl _, hsafe t⟩

end Holding

/-! ## Section 3: Running sessions -/

namespace World

variable {τ : Type} {κ ρ : τ → Type} {ε α : Type}

/-- The session has not ended. -/
def Running (w : World κ ρ ε α) (t : Nat) : Prop :=
  ∃ p, (w.session t).status = .running p

variable {schema : Schema κ ρ} {w : World κ ρ ε α} {t t' : Nat}

theorem status_proceed_ne (p : Program κ ρ ε α) (hne : t' ≠ t) :
    ((w.proceed t p).session t').status = (w.session t').status := by
  rw [session_proceed_ne p hne]

variable [DecidableEq τ] [∀ T, DecidableEq (κ T)]

/-- A step of one session leaves the others where they are. -/
theorem status_advance_ne (p : Program κ ρ ε α) (hne : t' ≠ t) :
    ((w.advance schema t p).session t').status = (w.session t').status := by
  have hexamine : ∀ (T : τ) (s : Selection κ ρ T) x rest found next,
      ((w.examine t T s x rest found next).session t').status = (w.session t').status := by
    intro T s x rest found next
    unfold World.examine
    split
    · exact status_proceed_ne _ hne
    · split <;> exact status_proceed_ne _ hne
  cases p with
  | done result => exact congrArg Session.status (session_release_ne (.finished (.ok result)) hne)
  | fail error => exact congrArg Session.status (session_release_ne _ hne)
  | now next => exact status_proceed_ne _ hne
  | read next =>
    simp only [World.advance]
    rw [status_proceed_ne _ hne]
    simp [World.observe, hne]
  | select T s next => exact status_proceed_ne _ hne
  | fetch T s cursor found next =>
    cases cursor with
    | nil => exact status_proceed_ne _ hne
    | cons x rest =>
      simp only [World.advance]
      split
      · exact status_proceed_ne _ hne
      · split
        · exact hexamine ..
        · split
          · exact hexamine ..
          · split
            · rfl
            · exact status_proceed_ne _ hne
  | write T x row refused next =>
    simp only [World.advance]
    split
    · split
      · rfl
      · split
        · exact status_proceed_ne _ hne
        · split
          · exact status_proceed_ne _ hne
          · rw [status_proceed_ne _ hne, session_put_ne hne]
    · rfl

/-- **A session that has ended does not run again.** -/
theorem Running.of_step {a : Action} (h : (w.step schema a).Running t) : w.Running t := by
  have hother : ∀ (p : Program κ ρ ε α) t', (w.session t').status = .running p →
      (w.advance schema t' p).Running t → w.Running t := by
    intro p t' hp h
    by_cases ht : t = t'
    · subst ht
      exact ⟨p, hp⟩
    · obtain ⟨p', hp'⟩ := h
      rw [status_advance_ne p ht] at hp'
      exact ⟨p', hp'⟩
  cases a with
  | run t' =>
    simp only [World.step] at h
    split at h
    · rename_i p hp
      exact hother p t' hp h
    · exact h
  | abort t' =>
    simp only [World.step] at h
    split at h
    · rename_i p hp
      by_cases ht : t = t'
      · subst ht
        exact ⟨p, hp⟩
      · obtain ⟨p', hp'⟩ := h
        rw [session_release_ne _ ht] at hp'
        exact ⟨p', hp'⟩
    · exact h
  | tick elapsed => exact h

end World

end Nzovu.Foundation
