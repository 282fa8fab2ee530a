import Mathlib.Data.List.Chain
import Mathlib.Data.List.Range
import Mathlib.Data.List.Sort
import Mathlib.Logic.Function.Iterate

/-!
# Draining a List in Batches

A service that takes the first items of a list, again and again. The items it fails on stay where
they are, and take places of the next batch.

- Section 1: one batch.
- Section 2: consecutive batches. An item is reached exactly when fewer items than a batch takes
  stand before it and fail, and then by as many batches as there are items.
- Section 3: trying each item of a batch in its own transaction.
- Section 4: filtering a sorted list.
-/

namespace Nzovu.Foundation

universe u v w

section Batches

variable {α : Type u} (limit : Nat) (fails : α → Bool)

/-! ## Section 1: One batch -/

/-- What a batch leaves: of the first `limit` items those that fail, and all the others. -/
def drainBatch (items : List α) : List α :=
  (items.take limit).filter fails ++ items.drop limit

theorem drainBatch_append {items : List α} (h : limit ≤ items.length) (more : List α) :
    drainBatch limit fails (items ++ more) = drainBatch limit fails items ++ more := by
  simp only [drainBatch]
  rw [List.take_append_of_le_length h, List.drop_append_of_le_length h, List.append_assoc]

theorem mem_of_mem_drainBatch {items : List α} {x : α} (h : x ∈ drainBatch limit fails items) :
    x ∈ items := by
  rcases List.mem_append.mp h with hfirst | hrest
  · exact List.mem_of_mem_take (List.mem_of_mem_filter hfirst)
  · exact List.mem_of_mem_drop hrest

/-- A batch keeps all the items that fail. -/
theorem countP_drainBatch (items : List α) :
    (drainBatch limit fails items).countP fails = items.countP fails := by
  conv_rhs => rw [← List.take_append_drop limit items, List.countP_append]
  simp [drainBatch, List.countP_append, List.countP_filter]

/-- Fewer failing items than a batch takes do not fill it. -/
theorem length_drainBatch_lt {items : List α} (hfew : items.countP fails < limit)
    (hfull : limit ≤ items.length) :
    (drainBatch limit fails items).length < items.length := by
  have hkept : ((items.take limit).filter fails).length ≤ items.countP fails := by
    rw [← List.countP_eq_length_filter]
    exact (List.take_sublist limit items).countP_le
  simp only [drainBatch, List.length_append, List.length_drop]
  omega

/-- Without duplicates, a batch removes the items that it takes and does not fail on. -/
theorem filter_eq_drainBatch [DecidableEq α] {items : List α} (h : items.Nodup) :
    items.filter (fun x => fails x || decide (x ∉ items.take limit)) =
      drainBatch limit fails items := by
  have hsplit : (items.take limit ++ items.drop limit).Nodup := by
    rwa [List.take_append_drop]
  have hapart := List.nodup_append.mp hsplit
  conv_lhs => rw [← List.take_append_drop limit items, List.filter_append]
  simp only [drainBatch, List.take_append_drop]
  congr 1
  · refine List.filter_congr fun x hx => ?_
    simp [hx]
  · refine List.filter_eq_self.mpr fun x hx => ?_
    have hnot : x ∉ items.take limit := fun hfirst => hapart.2.2 x hfirst x hx rfl
    simp [hnot]

/-! ## Section 2: Consecutive batches -/

/-- The lists at consecutive batches. -/
def Drains (lists : List (List α)) : Prop :=
  lists.IsChain fun items next => next = drainBatch limit fails items

/-- The number of failing items before `x`. -/
def failingAhead [DecidableEq α] (x : α) (items : List α) : Nat :=
  (items.takeWhile fun y => y ≠ x).countP fails

variable {limit fails}

theorem failingAhead_append_cons [DecidableEq α] {x : α} {ahead : List α} (h : x ∉ ahead)
    (behind : List α) : failingAhead fails x (ahead ++ x :: behind) = ahead.countP fails := by
  have hne : ∀ y ∈ ahead, decide (y ≠ x) = true := by
    intro y hy
    exact decide_eq_true fun heq => h (heq ▸ hy)
  rw [failingAhead, List.takeWhile_append_of_pos hne]
  simp

/-- Failing items that fill a batch are all that any batch takes. -/
theorem Drains.starved {x : α} {ahead behind : List α} {rest : List (List α)}
    (h : Drains limit fails ((ahead ++ x :: behind) :: rest)) (hx : x ∉ ahead)
    (hfull : limit ≤ ahead.countP fails) :
    ∀ items ∈ (ahead ++ x :: behind) :: rest, x ∉ items.take limit := by
  have hlength : limit ≤ ahead.length := hfull.trans List.countP_le_length
  have hmissed : x ∉ (ahead ++ x :: behind).take limit := by
    rw [List.take_append_of_le_length hlength]
    exact fun hmem => hx (List.mem_of_mem_take hmem)
  induction rest generalizing ahead with
  | nil =>
    intro items hitems
    rwa [List.mem_singleton.mp hitems]
  | cons next rest ih =>
    obtain ⟨hnext, hrest⟩ := List.isChain_cons_cons.mp h
    rw [drainBatch_append limit fails hlength] at hnext
    subst hnext
    -- the next list has the same failing items before `x`
    have hx' : x ∉ drainBatch limit fails ahead := fun hmem =>
      hx (mem_of_mem_drainBatch limit fails hmem)
    have hfull' : limit ≤ (drainBatch limit fails ahead).countP fails := by
      rwa [countP_drainBatch]
    have hlength' : limit ≤ (drainBatch limit fails ahead).length :=
      hfull'.trans List.countP_le_length
    intro items hitems
    rcases List.mem_cons.mp hitems with rfl | hitems
    · exact hmissed
    · refine ih hrest hx' hfull' hlength' ?_ items hitems
      rw [List.take_append_of_le_length hlength']
      exact fun hmem => hx' (List.mem_of_mem_take hmem)

/-- Otherwise every batch that does not reach `x` brings it forward. -/
theorem Drains.reached {x : α} {ahead behind : List α} {rest : List (List α)}
    (h : Drains limit fails ((ahead ++ x :: behind) :: rest))
    (hfew : ahead.countP fails < limit) (hlong : ahead.length ≤ rest.length) :
    ∃ items ∈ (ahead ++ x :: behind) :: rest, x ∈ items.take limit := by
  induction rest generalizing ahead with
  | nil =>
    obtain rfl : ahead = [] := List.length_eq_zero_iff.mp (Nat.le_zero.mp hlong)
    refine ⟨_, List.mem_cons_self, ?_⟩
    obtain ⟨n, rfl⟩ := Nat.exists_eq_succ_of_ne_zero (Nat.ne_zero_of_lt hfew)
    simp
  | cons next rest ih =>
    by_cases hshort : ahead.length < limit
    · refine ⟨_, List.mem_cons_self, ?_⟩
      obtain ⟨n, hn⟩ := Nat.exists_eq_add_of_lt hshort
      have hsucc : limit - ahead.length = n + 1 := by omega
      rw [List.take_append, hsucc, List.take_succ_cons]
      exact List.mem_append_right _ List.mem_cons_self
    · obtain ⟨hnext, hrest⟩ := List.isChain_cons_cons.mp h
      rw [drainBatch_append limit fails (Nat.le_of_not_lt hshort)] at hnext
      subst hnext
      have hcloser := length_drainBatch_lt limit fails hfew (Nat.le_of_not_lt hshort)
      have hfew' : (drainBatch limit fails ahead).countP fails < limit := by
        rwa [countP_drainBatch]
      simp only [List.length_cons] at hlong
      obtain ⟨items, hitems, hx⟩ := ih hrest hfew' (by omega)
      exact ⟨items, List.mem_cons_of_mem _ hitems, hx⟩

/-- **Starvation**: `x` is reached exactly when the failing items before it do not fill a batch. -/
theorem Drains.reached_iff [DecidableEq α] {x : α} {items : List α} {rest : List (List α)}
    (h : Drains limit fails (items :: rest)) (hx : x ∈ items)
    (hlong : items.length ≤ rest.length + 1) :
    (∃ batch ∈ items :: rest, x ∈ batch.take limit) ↔ failingAhead fails x items < limit := by
  obtain ⟨ahead, behind, rfl, hfirst⟩ := List.eq_append_cons_of_mem hx
  rw [failingAhead_append_cons hfirst]
  constructor
  · rintro ⟨batch, hbatch, hmem⟩
    by_contra hfull
    exact h.starved hfirst (Nat.le_of_not_lt hfull) batch hbatch hmem
  · intro hfew
    simp only [List.length_append, List.length_cons] at hlong
    exact h.reached hfew (by omega)

/-- A batch that fails on all it takes leaves the list as it is. -/
theorem drainBatch_eq_self {items : List α} (h : ∀ x ∈ items.take limit, fails x = true) :
    drainBatch limit fails items = items := by
  rw [drainBatch, List.filter_eq_self.mpr h, List.take_append_drop]

theorem drains_iterate (items : List α) (n : Nat) :
    Drains limit fails ((List.range (n + 1)).map fun k => (drainBatch limit fails)^[k] items) :=
  (List.isChain_map _).mpr ((List.isChain_range_succ _ n).mpr fun k _ =>
    Function.iterate_succ_apply' (drainBatch limit fails) k items)

/-- What `n` batches leave: the items that fail, and those that none of the batches has taken. -/
theorem iterate_drainBatch [DecidableEq α] {items : List α} (h : items.Nodup) (n : Nat) :
    (drainBatch limit fails)^[n] items = items.filter fun x =>
      fails x || decide (∀ k < n, x ∉ ((drainBatch limit fails)^[k] items).take limit) := by
  induction n with
  | zero => simp
  | succ n ih =>
    have hnodup : ((drainBatch limit fails)^[n] items).Nodup := by
      rw [ih]
      exact h.filter _
    rw [Function.iterate_succ_apply', ← filter_eq_drainBatch limit fails hnodup]
    conv_lhs => rw [ih, List.filter_filter]
    refine List.filter_congr fun x _ => ?_
    rw [← ih]
    simp only [Nat.lt_succ_iff_lt_or_eq, or_imp, forall_and, forall_eq]
    cases fails x <;> simp [and_comm]

/-- **Enough batches** leave the items that fail, and those with failing items before them that fill
a batch. -/
theorem iterate_drainBatch_of_le [DecidableEq α] {items : List α} (h : items.Nodup) {n : Nat}
    (hlong : items.length ≤ n) :
    (drainBatch limit fails)^[n] items = items.filter fun x =>
      fails x || decide (limit ≤ failingAhead fails x items) := by
  rw [iterate_drainBatch h]
  refine List.filter_congr fun x hx => ?_
  obtain ⟨m, rfl⟩ := Nat.exists_eq_succ_of_ne_zero
    (Nat.ne_zero_of_lt ((List.length_pos_of_mem hx).trans_le hlong))
  have hlists : (List.range (m + 1)).map (fun k => (drainBatch limit fails)^[k] items) =
      items :: (List.range m).map fun k => (drainBatch limit fails)^[k + 1] items := by
    rw [List.range_succ_eq_map, List.map_cons, List.map_map]
    rfl
  have hreached := (hlists ▸ drains_iterate items m).reached_iff hx (by simpa using hlong)
  rw [← hlists] at hreached
  congr 1
  rw [decide_eq_decide, ← Nat.not_lt, ← hreached]
  constructor
  · rintro hnone ⟨_, hbatch, hmem⟩
    obtain ⟨k, hk, rfl⟩ := List.mem_map.mp hbatch
    exact hnone k (List.mem_range.mp hk) hmem
  · intro hnone k hk hmem
    exact hnone ⟨_, List.mem_map.mpr ⟨k, List.mem_range.mpr hk, rfl⟩, hmem⟩

end Batches

/-! ## Section 3: The items of a batch -/

section Attempts

variable {σ : Type u} {α : Type v} {ε : Type w} {β : Type w} (attempt : σ → α → Except ε (σ × β))

/-- Try each item in its own transaction: an error leaves the state as it was, and the loop goes
on. Returned are the last state and the outcomes, in order. -/
def attemptEach : List α → σ → σ × List (α × Except ε β)
  | [], s => (s, [])
  | item :: items, s =>
    match attempt s item with
    | .error err =>
      let rest := attemptEach items s
      (rest.1, (item, .error err) :: rest.2)
    | .ok (s₁, result) =>
      let rest := attemptEach items s₁
      (rest.1, (item, .ok result) :: rest.2)

@[simp] theorem attemptEach_nil (s : σ) : attemptEach attempt [] s = (s, []) := rfl

theorem attemptEach_error {item : α} {items : List α} {s : σ} {err : ε}
    (h : attempt s item = .error err) :
    attemptEach attempt (item :: items) s =
      ((attemptEach attempt items s).1, (item, .error err) :: (attemptEach attempt items s).2) := by
  simp [attemptEach, h]

theorem attemptEach_ok {item : α} {items : List α} {s s₁ : σ} {result : β}
    (h : attempt s item = .ok (s₁, result)) :
    attemptEach attempt (item :: items) s =
      ((attemptEach attempt items s₁).1,
        (item, .ok result) :: (attemptEach attempt items s₁).2) := by
  simp [attemptEach, h]

/-- The outcomes are those of the items. -/
theorem map_fst_attemptEach (items : List α) (s : σ) :
    (attemptEach attempt items s).2.map Prod.fst = items := by
  induction items generalizing s with
  | nil => rfl
  | cons item items ih =>
    cases h : attempt s item with
    | error err => simp [attemptEach_error attempt h, ih]
    | ok result => simp [attemptEach_ok attempt h, ih]

/-- **Loop rule**: what every transaction with an allowed outcome keeps, the loop keeps. -/
theorem attemptEach_keeps (inv : σ → Prop) (allowed : α → β → Prop)
    (hstep : ∀ s item s' result, attempt s item = .ok (s', result) → allowed item result →
      inv s → inv s')
    {items : List α} {s : σ}
    (hallowed : ∀ item result, (item, .ok result) ∈ (attemptEach attempt items s).2 →
      allowed item result)
    (hinit : inv s) : inv (attemptEach attempt items s).1 := by
  induction items generalizing s with
  | nil => exact hinit
  | cons item items ih =>
    cases h : attempt s item with
    | error err =>
      rw [attemptEach_error attempt h] at hallowed ⊢
      exact ih (fun i r hmem => hallowed i r (List.mem_cons_of_mem _ hmem)) hinit
    | ok result =>
      rw [attemptEach_ok attempt h] at hallowed ⊢
      have hfirst := hstep s item result.1 result.2 h (hallowed _ _ List.mem_cons_self) hinit
      exact ih (fun i r hmem => hallowed i r (List.mem_cons_of_mem _ hmem)) hfirst

/-- When every transaction fails, nothing happens. -/
theorem attemptEach_of_error {items : List α} {s : σ}
    (h : ∀ item ∈ items, ∃ err, attempt s item = .error err) :
    (attemptEach attempt items s).1 = s ∧
      ∀ item outcome, (item, outcome) ∈ (attemptEach attempt items s).2 →
        item ∈ items ∧ ∃ err, outcome = .error err := by
  induction items with
  | nil => exact ⟨rfl, fun _ _ hmem => nomatch hmem⟩
  | cons first items ih =>
    obtain ⟨err, hfirst⟩ := h first List.mem_cons_self
    obtain ⟨hstate, houtcomes⟩ := ih fun item hitem => h item (List.mem_cons_of_mem _ hitem)
    rw [attemptEach_error attempt hfirst]
    refine ⟨hstate, fun item outcome hmem => ?_⟩
    rcases List.mem_cons.mp hmem with heq | hmem
    · cases heq
      exact ⟨List.mem_cons_self, err, rfl⟩
    · obtain ⟨hitem, herr⟩ := houtcomes item outcome hmem
      exact ⟨List.mem_cons_of_mem _ hitem, herr⟩

end Attempts

/-! ## Section 4: Filtering a sorted list -/

section Sorting

variable {α : Type u} (r : α → α → Prop) [DecidableRel r] [IsTrans α r]

theorem filter_orderedInsert (p : α → Bool) (a : α) {items : List α} (h : items.Pairwise r) :
    (items.orderedInsert r a).filter p =
      if p a = true then (items.filter p).orderedInsert r a else items.filter p := by
  induction items with
  | nil => cases hp : p a <;> simp [hp]
  | cons b items ih =>
    obtain ⟨hb, hitems⟩ := List.pairwise_cons.mp h
    by_cases hab : r a b
    · rw [List.orderedInsert_cons_of_le r items hab]
      cases hp : p a with
      | false => simp [hp]
      | true =>
        -- `a` stays before everything that is left
        have hleast : ∀ c ∈ (b :: items).filter p, r a c := by
          intro c hc
          rcases List.mem_cons.mp (List.mem_of_mem_filter hc) with rfl | hc
          · exact hab
          · exact IsTrans.trans a b c hab (hb c hc)
        rw [List.filter_cons_of_pos hp, if_pos rfl]
        cases hrest : (b :: items).filter p with
        | nil => rfl
        | cons c rest =>
          rw [hrest] at hleast
          rw [List.orderedInsert_cons_of_le r rest (hleast c List.mem_cons_self)]
    · rw [List.orderedInsert_of_not_le r items hab]
      cases hp : p b with
      | false => simp [hp, ih hitems]
      | true =>
        rw [List.filter_cons_of_pos hp, List.filter_cons_of_pos hp, ih hitems]
        split
        · rw [List.orderedInsert_of_not_le r _ hab]
        · rfl

/-- Sorting is stable: it commutes with filtering. -/
theorem filter_insertionSort [Std.Total r] (p : α → Bool) (items : List α) :
    (items.insertionSort r).filter p = (items.filter p).insertionSort r := by
  induction items with
  | nil => rfl
  | cons a items ih =>
    rw [List.insertionSort_cons, filter_orderedInsert r p a (List.pairwise_insertionSort r items),
      ih]
    cases hp : p a <;> simp [hp]

end Sorting

end Nzovu.Foundation
