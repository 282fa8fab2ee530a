import Mathlib.Logic.Function.Basic
import Mathlib.Data.List.Basic

/-!
# Event Logs

What has happened so far, newest first. A map that is only written through events is the replay of
the log; `Since` is the past-time operator of temporal logic: at some event `start` held, and at all
later ones `ok` did.
-/

namespace Nzovu.Foundation

universe u v w

section EventLog

variable {ε : Type u} {κ : Type v} {ν : Type w}

/-! ## Section 1: Replay -/

section Replay

variable [DecidableEq κ] (touch : ε → Option (κ × Option ν))

/-- The map after one more event: an event may set a key, delete it, or leave the map alone. -/
def applyEvent (e : ε) (map : κ → Option ν) : κ → Option ν :=
  match touch e with
  | none => map
  | some (k, v) => Function.update map k v

/-- The map after the events of the log. -/
def replay : List ε → κ → Option ν
  | [] => fun _ => none
  | e :: log => applyEvent touch e (replay log)

variable {touch} {e : ε} {k : κ} {v : Option ν} {log : List ε}

/-- An event that touches the key determines its value. -/
theorem replay_touched (h : touch e = some (k, v)) : replay touch (e :: log) k = v := by
  simp [replay, applyEvent, h]

/-- An event that does not touch the key leaves its value. -/
theorem replay_untouched (h : (touch e).map Prod.fst ≠ some k) :
    replay touch (e :: log) k = replay touch log k := by
  cases he : touch e with
  | none => simp [replay, applyEvent, he]
  | some write =>
    have hne : k ≠ write.1 := fun hk => h (by rw [he, hk]; rfl)
    simp [replay, applyEvent, he, Function.update_of_ne hne]

end Replay

/-! ## Section 2: Since -/

/-- Some event started it, and every later event was in order. -/
def Since (ok start : ε → Prop) : List ε → Prop
  | [] => False
  | e :: log => start e ∨ (ok e ∧ Since ok start log)

variable {ok start : ε → Prop} {log : List ε}

instance decidableSince [DecidablePred ok] [DecidablePred start] :
    ∀ log : List ε, Decidable (Since ok start log)
  | [] => .isFalse id
  | e :: log =>
    have : Decidable (Since ok start log) := decidableSince log
    inferInstanceAs (Decidable (start e ∨ (ok e ∧ Since ok start log)))

/-- **Since rule**: what the starting event brings about, and events in order keep, holds now. -/
theorem Since.rule {P : List ε → Prop} (hstart : ∀ e log, start e → P (e :: log))
    (hok : ∀ e log, ok e → P log → P (e :: log)) (h : Since ok start log) : P log := by
  induction log with
  | nil => cases h
  | cons e log ih =>
    rcases h with h | ⟨he, hrest⟩
    · exact hstart e log h
    · exact hok e log he (ih hrest)

/-- The value a key was given stays while no event touches it. -/
theorem Since.replay_eq [DecidableEq κ] {touch : ε → Option (κ × Option ν)} {k : κ} {v : Option ν}
    (hstart : ∀ e, start e → touch e = some (k, v))
    (hok : ∀ e, ok e → (touch e).map Prod.fst ≠ some k) (h : Since ok start log) :
    replay touch log k = v :=
  h.rule (P := fun log => replay touch log k = v) (fun _ _ he => replay_touched (hstart _ he))
    fun _ _ he ih => (replay_untouched (hok _ he)).trans ih

end EventLog

end Nzovu.Foundation
