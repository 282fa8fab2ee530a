import Mathlib.Data.List.Sort
import Mathlib.Data.Sigma.Basic
import Mathlib.Logic.Function.Basic

/-!
# Transaction Programs

The body of a database transaction as a sequence of statements: plain `SELECT`s,
`SELECT … FOR UPDATE`, `UPDATE`s and `DELETE`s over several tables, with the ordinary code
between them. A program says only what the transaction asks for; what it gets depends on the
other transactions and is the subject of `Machine`.

- Section 1: tables, rows and the schema.
- Section 2: programs, which form a monad.
- Section 3: `UPDATE` and `DELETE`, made of the basic statements.
-/

namespace Nzovu.Foundation

/-! ## Section 1: Rows -/

section Rows

variable {τ : Type} (κ ρ : τ → Type)

/-- A row by its table and primary key. -/
abbrev Ref := Σ T, κ T

/-- A version of every row; `none` where there is no row. -/
abbrev Store := ∀ i : Ref κ, Option (ρ i.1)

/-- What a schema says about the rows. -/
structure Schema where
  /-- The primary keys, in the order a scan meets them. -/
  keys : ∀ T, List (κ T)
  nodup : ∀ T, (keys T).Nodup
  /-- Two rows of a table that a UNIQUE index does not allow together. -/
  clash : ∀ T, ρ T → ρ T → Bool
  clash_symm : ∀ T a b, clash T a b = clash T b a
  /-- The rows a row references by its foreign keys. -/
  requires : ∀ T, ρ T → List (Ref κ)

variable {κ ρ} (schema : Schema κ ρ)

/-- The rows of one table, as a scan returns them. -/
def Schema.scan (rows : Store κ ρ) (T : τ) : List (κ T × ρ T) :=
  (schema.keys T).filterMap fun x => (rows ⟨T, x⟩).map fun row => (x, row)

theorem Schema.mem_scan {rows : Store κ ρ} {T : τ} {e : κ T × ρ T} :
    e ∈ schema.scan rows T ↔ e.1 ∈ schema.keys T ∧ rows ⟨T, e.1⟩ = some e.2 := by
  unfold scan
  rw [List.mem_filterMap]
  constructor
  · intro h
    rcases h with ⟨x, hx, he⟩
    rcases hrow : rows ⟨T, x⟩ with _ | row
    · simp [hrow] at he
    · simp only [hrow, Option.map_some, Option.some.injEq] at he
      subst he
      exact ⟨hx, hrow⟩
  · intro h
    exact ⟨e.1, h.1, by simp [h.2]⟩

theorem Schema.scan_fst_sublist (rows : Store κ ρ) (T : τ) :
    ((schema.scan rows T).map Prod.fst).Sublist (schema.keys T) := by
  unfold scan
  induction schema.keys T with
  | nil => simp
  | cons x xs ih =>
    rcases hrow : rows ⟨T, x⟩ with _ | row
    · simpa [hrow] using ih.cons x
    · simpa [hrow] using ih

/-- No UNIQUE index is violated. -/
def Schema.Unique (rows : Store κ ρ) : Prop :=
  ∀ T, ∀ x ∈ schema.keys T, ∀ y ∈ schema.keys T, x ≠ y → ∀ a b, rows ⟨T, x⟩ = some a →
    rows ⟨T, y⟩ = some b → schema.clash T a b = false

end Rows

/-! ## Section 2: Programs -/

/-- What a locking statement does at a row another transaction has locked. -/
inductive LockMode where
  | wait
  | skipLocked
deriving DecidableEq, Repr

/-- `WHERE`, `ORDER BY` and `LIMIT` of a locking statement on table `T`. -/
structure Selection {τ : Type} (κ ρ : τ → Type) (T : τ) where
  filter : κ T → ρ T → Bool
  /-- The first row may come before the second; by default the order of the scan is kept. -/
  before : κ T × ρ T → κ T × ρ T → Bool := fun _ _ => true
  limit : Option Nat := none
  mode : LockMode := .wait

/-- The `LIMIT` is reached. -/
def Selection.full {τ : Type} {κ ρ : τ → Type} {T : τ} (s : Selection κ ρ T)
    (found : List (κ T × ρ T)) : Bool :=
  s.limit.any fun n => n ≤ found.length

/-- The constraint that refuses a written row. -/
inductive Violation where
  | unique
  | foreignKey
deriving DecidableEq, Repr

/-- The statements a transaction still has to perform, with errors in `ε` and a result in
`α`. -/
inductive Program {τ : Type} (κ ρ : τ → Type) (ε α : Type) : Type where
  /-- Commit and return. -/
  | done (result : α)
  /-- Return an error: the transaction is rolled back. -/
  | fail (error : ε)
  /-- Read the clock. -/
  | now (next : Int → Program κ ρ ε α)
  /-- A plain `SELECT`: the rows of every table, at one moment. -/
  | read (next : (∀ T, List (κ T × ρ T)) → Program κ ρ ε α)
  /-- `SELECT … FOR UPDATE`. -/
  | select (T : τ) (s : Selection κ ρ T) (next : List (κ T × ρ T) → Program κ ρ ε α)
  /-- A `FOR UPDATE` that has made its scan and locks the rows at `cursor` one by one. -/
  | fetch (T : τ) (s : Selection κ ρ T) (cursor : List (κ T)) (found : List (κ T × ρ T))
      (next : List (κ T × ρ T) → Program κ ρ ε α)
  /-- Write a locked row; `none` deletes it. -/
  | write (T : τ) (key : κ T) (row : Option (ρ T)) (refused : Violation → ε)
      (next : Program κ ρ ε α)

namespace Program

variable {τ : Type} {κ ρ : τ → Type} {ε α β : Type}

/-- Sequential composition. -/
def bind (p : Program κ ρ ε α) (f : α → Program κ ρ ε β) : Program κ ρ ε β :=
  match p with
  | done result => f result
  | fail error => fail error
  | now next => now fun clock => (next clock).bind f
  | read next => read fun rows => (next rows).bind f
  | select T s next => select T s fun found => (next found).bind f
  | fetch T s cursor found next => fetch T s cursor found fun found => (next found).bind f
  | write T key row refused next => write T key row refused (next.bind f)

instance : Monad (Program κ ρ ε) where
  pure := done
  bind := bind

/-! ## Section 3: Statements -/

/-- One reading of the clock. -/
def readClock : Program κ ρ ε Int := now done

/-- The rows a plain `SELECT` sees. -/
def readRows : Program κ ρ ε (∀ T, List (κ T × ρ T)) := read done

/-- `SELECT … FOR UPDATE`: the locked rows. -/
def selectForUpdate (T : τ) (s : Selection κ ρ T) : Program κ ρ ε (List (κ T × ρ T)) :=
  select T s done

/-- Write the new version of each locked row. -/
def writeAll (T : τ) (set : ρ T → Option (ρ T)) (refused : Violation → ε) :
    List (κ T × ρ T) → Program κ ρ ε Unit
  | [] => done ()
  | e :: rest => write T e.1 (set e.2) refused (writeAll T set refused rest)

/-- A statement that locks the rows its `WHERE` clause selects and writes each of them; the
result are the rows as it found them. -/
def modify (T : τ) (filter : κ T → ρ T → Bool) (set : ρ T → Option (ρ T))
    (refused : Violation → ε) : Program κ ρ ε (List (κ T × ρ T)) :=
  (selectForUpdate T { filter := filter }).bind fun found =>
    (writeAll T set refused found).bind fun _ => done found

/-- `UPDATE … SET … WHERE …`. -/
def update (T : τ) (filter : κ T → ρ T → Bool) (set : ρ T → ρ T) (refused : Violation → ε) :
    Program κ ρ ε (List (κ T × ρ T)) :=
  modify T filter (fun row => some (set row)) refused

/-- `DELETE … WHERE …`. -/
def delete (T : τ) (filter : κ T → ρ T → Bool) (refused : Violation → ε) :
    Program κ ρ ε (List (κ T × ρ T)) :=
  modify T filter (fun _ => none) refused

end Program

end Nzovu.Foundation
