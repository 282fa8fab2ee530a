import Nzovu.Postgres.SerialCalls

/-!
# The Two Backends in Serial Runs

A server that performs its calls one after another, and the SQLite backend on the same calls: the
same answers and, at the end, the same rows. Calls begin at any distance from one another, so
leases and heartbeats expire in between as they like.

- Section 1: a run on SQLite.
- Section 2: the server.
-/

namespace Nzovu.Postgres

open Nzovu.Foundation
open Nzovu.Repository

/-! ## Section 1: SQLite -/

/-- The database after a call, and the answer; an error changes nothing. -/
def performOnSqlite (t : Int) (db : Database) (call : Call) :
    Database × Except StorageError Returned :=
  match call.onSqlite db t with
  | .ok (db', returned) => (db', .ok returned)
  | .error err => (db, .error err)

/-- The clock and the database once the first `n` calls are done; call `k` is made `elapsed k`
milliseconds after the one before. -/
def sqliteAfter (db : Database) (start : Int) (elapsed : Nat → Nat) (call : Nat → Call) (n : Nat) :
    Int × Database :=
  afterJobs performOnSqlite elapsed call (start, db) n

/-- The answer to call `n`. -/
def sqliteAnswer (db : Database) (start : Int) (elapsed : Nat → Nat) (call : Nat → Call)
    (n : Nat) : Except StorageError Returned :=
  answerAt performOnSqlite elapsed call (start, db) n

/-! ## Section 2: Postgres -/

/-- The database, and the calls that are made on it: call `t` in session `t`. -/
def Setup.ofCalls (db : Database) (start : Int) (call : Nat → Call) : Setup :=
  { Setup.ofDatabase db start (call 0) with call := call }

/-- The caller sees no difference: the same answer, or an error of the same kind. -/
def SameAnswer : Except StorageError Returned → Except StorageError Reply → Prop
  | .ok returned, .ok reply => reply.returned = returned
  | .error err, .error err' => err'.kind = err.kind
  | _, _ => False

variable {setup : Setup} {db : Database} {rows : Store Key Row}

/-- What is simulated, call by call. -/
theorem simulates_call (hids : setup.ids.Pairwise (· < ·)) (clock : Int)
    (h : Shows setup db rows) (call : Call) :
    Simulates setup.schema (Shows setup) SameAnswer clock rows call.program
      (performOnSqlite clock db call) := by
  have hmatches := matches_call clock (fun _ => false) hids h call
  unfold performOnSqlite
  cases hsqlite : call.onSqlite db clock with
  | error err =>
    rw [hsqlite] at hmatches
    obtain ⟨err', halone, hkind⟩ := hmatches
    exact ⟨.error err', halone, h, hkind⟩
  | ok r =>
    rw [hsqlite] at hmatches
    obtain ⟨reply, rows', held', halone, hreturned, hshows⟩ := hmatches
    exact ⟨.ok (reply, ⟨rows', held'⟩), halone, hshows, hreturned⟩

/-- **The backends agree on serial runs**: whatever the database, the calls and the times between
them, a Postgres server that performs the calls one after another, each with as many turns as it
needs, answers every call as SQLite does and ends with the same messages, queues and counters. -/
theorem backends_serialRun (db : Database) (start : Int) (elapsed : Nat → Nat)
    (call : Nat → Call) (n : Nat) :
    ∃ needed : Nat → Nat, ∀ turns : Nat → Nat, (∀ t, t < n → needed t ≤ turns t) →
      let server := (Setup.ofCalls db start call).run (World.serial elapsed turns n)
      server.rows = stored (sqliteAfter db start elapsed call n).2 ∧
        ∀ t, t < n → ∃ result, (server.session t).status = .finished result ∧
          SameAnswer (sqliteAnswer db start elapsed call t) result := by
  have hshows : Shows (Setup.ofCalls db start call) db (stored db) :=
    let h := shows_ofDatabase db start (call 0)
    ⟨h.messages, h.queues, h.ids, h.names⟩
  have hcaught : Caught performOnSqlite elapsed call (Shows (Setup.ofCalls db start call))
      SameAnswer Call.program (start, db) 0 (Setup.ofCalls db start call).start :=
    { idle := fun _ => rfl
      clock := rfl
      rows := hshows
      fresh := fun _ _ => rfl
      ended := fun t ht => absurd ht (Nat.not_lt_zero t) }
  have hids : (Setup.ofCalls db start call).ids.Pairwise (· < ·) := db.messages.ids_sorted
  obtain ⟨needed, w', hcaught', hrun⟩ := exists_serial hcaught
    (fun clock s rows b h => simulates_call hids clock h b) n
  refine ⟨needed, fun turns hturns => ?_⟩
  dsimp only
  rw [Setup.run, hrun turns hturns]
  exact ⟨hcaught'.rows.eq_stored, hcaught'.ended⟩

end Nzovu.Postgres
