import Nzovu.Foundation.Transaction.Program

/-!
# Concurrent Transactions

Transactions running side by side under READ COMMITTED with row locks. A scheduler chooses which
session performs its next statement, when a session is cut off, and how the clock advances; a
statement that has to wait for a lock leaves the world as it is.

- A plain `SELECT` sees the rows committed at that moment and the session's own writes, and
  takes no lock.
- `SELECT … FOR UPDATE`, `UPDATE` and `DELETE` scan what they see, then lock the rows they found
  one by one. A row that is locked by another session is waited for, or skipped; once it is free
  its latest version is checked against the `WHERE` clause again.
- Written versions become visible to others, and locks are released, when the session ends.

The rows a failed re-check leaves are not kept locked, which only allows more interleavings.
-/

namespace Nzovu.Foundation

/-! ## Section 1: Sessions and the world -/

section World

variable {τ : Type} (κ ρ : τ → Type) (ε α : Type)

/-- Where a session is. -/
inductive Status where
  | running (program : Program κ ρ ε α)
  | finished (result : Except ε α)
  /-- Cut off: cancelled, disconnected, or chosen as deadlock victim. -/
  | aborted

/-- What the database looked like when a session last read it. -/
structure Snapshot where
  rows : Store κ ρ
  /-- The rows the session had locked. -/
  locked : Ref κ → Bool
  clock : Int

/-- One transaction. -/
structure Session where
  status : Status κ ρ ε α
  /-- Its own versions of the rows it has written. -/
  version : ∀ i : Ref κ, Option (Option (ρ i.1))
  /-- Its last plain `SELECT`. -/
  seen : Option (Snapshot κ ρ)

/-- The committed rows, the locks, and all sessions. -/
structure World where
  clock : Int
  rows : Store κ ρ
  /-- The session that has locked the row. -/
  owner : Ref κ → Option Nat
  session : Nat → Session κ ρ ε α
  /-- The committed sessions with their results, latest first. -/
  log : List (Nat × α)

/-- The choices of the scheduler. -/
inductive Action where
  | run (t : Nat)
  | abort (t : Nat)
  | tick (elapsed : Nat)
deriving DecidableEq, Repr

end World

/-! ## Section 2: Steps -/

namespace World

variable {τ : Type} {κ ρ : τ → Type} {ε α : Type}

/-- No session has begun its program. -/
def start (clock : Int) (rows : Store κ ρ) (program : Nat → Program κ ρ ε α) :
    World κ ρ ε α where
  clock := clock
  rows := rows
  owner := fun _ => none
  session := fun t => ⟨.running (program t), fun _ => none, none⟩
  log := []

/-- The rows session `t` sees: its own versions, else the committed ones. -/
def view (w : World κ ρ ε α) (t : Nat) : Store κ ρ :=
  fun i => ((w.session t).version i).getD (w.rows i)

variable [DecidableEq τ] [∀ T, DecidableEq (κ T)]

/-- The session continues with `program`. -/
def proceed (w : World κ ρ ε α) (t : Nat) (program : Program κ ρ ε α) : World κ ρ ε α :=
  { w with
    session := Function.update w.session t { w.session t with status := .running program } }

/-- The session ends: its versions and locks are gone. -/
def release (w : World κ ρ ε α) (t : Nat) (status : Status κ ρ ε α) : World κ ρ ε α :=
  { w with
    owner := fun i => if w.owner i = some t then none else w.owner i
    session := Function.update w.session t ⟨status, fun _ => none, none⟩ }

/-- The session installs its versions and ends. -/
def commit (w : World κ ρ ε α) (t : Nat) (result : α) : World κ ρ ε α :=
  { w.release t (.finished (.ok result)) with
    rows := w.view t
    log := (t, result) :: w.log }

/-- The session locks a row. -/
def lock (w : World κ ρ ε α) (t : Nat) (i : Ref κ) : World κ ρ ε α :=
  { w with owner := Function.update w.owner i (some t) }

/-- The session records what a plain `SELECT` returned from. -/
def observe (w : World κ ρ ε α) (t : Nat) : World κ ρ ε α :=
  { w with
    session := Function.update w.session t
      { w.session t with seen := some ⟨w.rows, fun i => w.owner i = some t, w.clock⟩ } }

/-- The session writes a version of a row. -/
def put (w : World κ ρ ε α) (t : Nat) (i : Ref κ) (row : Option (ρ i.1)) : World κ ρ ε α :=
  { w with
    session := Function.update w.session t
      { w.session t with version := Function.update (w.session t).version i (some row) } }

variable (schema : Schema κ ρ)

/-- The keys a locking statement goes through. -/
def candidates {T : τ} (s : Selection κ ρ T) (rows : Store κ ρ) : List (κ T) :=
  (((schema.scan rows T).filter fun e => s.filter e.1 e.2).insertionSort
    fun a b => s.before a b = true).map Prod.fst

/-- A referenced row is missing in what the session sees. -/
def dangling (w : World κ ρ ε α) (t : Nat) (T : τ) (row : ρ T) : Bool :=
  (schema.requires T row).any fun j => (w.view t j).isNone

/-- The new version of row `x` clashes with a row the session sees. -/
def clashes (w : World κ ρ ε α) (t : Nat) (T : τ) (x : κ T) (row : ρ T) : Bool :=
  (schema.keys T).any fun y => y ≠ x && (w.view t ⟨T, y⟩).any (schema.clash T row)

/-- It may clash with a row another session has written but not committed: the outcome of that
session decides. -/
def undecided (w : World κ ρ ε α) (t : Nat) (T : τ) (x : κ T) (row : ρ T) : Bool :=
  (schema.keys T).any fun y => y ≠ x && (w.owner ⟨T, y⟩).any fun t' =>
    t' ≠ t && ((w.session t').version ⟨T, y⟩).any fun version =>
      version.any (schema.clash T row) || (w.rows ⟨T, y⟩).any (schema.clash T row)

/-- The session looks at the next row of a locking statement: it takes the row when its latest
version satisfies the `WHERE` clause, else leaves it alone. -/
def examine (w : World κ ρ ε α) (t : Nat) (T : τ) (s : Selection κ ρ T) (x : κ T)
    (rest : List (κ T)) (found : List (κ T × ρ T))
    (next : List (κ T × ρ T) → Program κ ρ ε α) : World κ ρ ε α :=
  match w.view t ⟨T, x⟩ with
  | none => w.proceed t (.fetch T s rest found next)
  | some row =>
    if s.filter x row then
      (w.lock t ⟨T, x⟩).proceed t (.fetch T s rest (found ++ [(x, row)]) next)
    else w.proceed t (.fetch T s rest found next)

/-- Session `t` performs the next step of its program. -/
def advance (w : World κ ρ ε α) (t : Nat) : Program κ ρ ε α → World κ ρ ε α
  | .done result => w.commit t result
  | .fail error => w.release t (.finished (.error error))
  | .now next => w.proceed t (next w.clock)
  | .read next => (w.observe t).proceed t (next (schema.scan (w.view t)))
  -- The scan fixes the keys to visit; their rows are looked at later, one by one.
  | .select T s next => w.proceed t (.fetch T s (candidates schema s (w.view t)) [] next)
  | .fetch _ _ [] found next => w.proceed t (next found)
  | .fetch T s (x :: rest) found next =>
    if s.full found then w.proceed t (next found)
    else
      match w.owner ⟨T, x⟩ with
      | none => w.examine t T s x rest found next
      | some t' =>
        if t' = t then w.examine t T s x rest found next
        else
          match s.mode with
          -- The session waits: the step is tried again when it is chosen again.
          | .wait => w
          | .skipLocked => w.proceed t (.fetch T s rest found next)
  | .write T x row refused next =>
    if w.owner ⟨T, x⟩ = some t then
      -- An uncommitted row in the way is waited for, a committed one refuses the write.
      if row.any (w.undecided schema t T x) then w
      else if row.any (w.clashes schema t T x) then w.proceed t (.fail (refused .unique))
      else if row.any (w.dangling schema t T) then w.proceed t (.fail (refused .foreignKey))
      else (w.put t ⟨T, x⟩ row).proceed t next
    -- Only a row the session has locked is written.
    else w

/-- One choice of the scheduler. A choice that is not possible changes nothing. -/
def step (w : World κ ρ ε α) : Action → World κ ρ ε α
  | .run t =>
    match (w.session t).status with
    | .running program => w.advance schema t program
    | _ => w
  | .abort t =>
    match (w.session t).status with
    | .running _ => w.release t .aborted
    | _ => w
  | .tick elapsed => { w with clock := w.clock + elapsed }

end World

end Nzovu.Foundation
