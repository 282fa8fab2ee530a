import Mathlib.Data.List.Nodup
import Mathlib.Data.List.Perm.Basic
import Mathlib.Data.List.Count
import Mathlib.Algebra.Order.Ring.Int
import Mathlib.Tactic.Ring

/-!
# Keyed Tables

A relational table with an auto-incremented row id and one UNIQUE key, as an SQL engine
maintains it: row ids are never reused, and a statement that would give two rows the same
key is refused as a whole.

The constraints are fields of the structure, so a table that violates them cannot be built.
Statements are `insert`, `update` and `delete`; the second half of the file describes what
each of them does to the rows, to a lookup by id, and to the number of rows with a property.
-/

namespace Nzovu.Foundation

universe u v w

/-! ## Section 1: Tables and their constraints -/

/-- Rows with an auto-incremented id and a UNIQUE key. -/
structure Table (ρ : Type u) {κ : Type v} (key : ρ → κ) where
  /-- The rows in insertion order, each with its id. -/
  rows : List (Nat × ρ)
  /-- The id the next inserted row receives (AUTOINCREMENT: never one used before). -/
  nextId : Nat
  /-- Every id in use has been handed out. -/
  id_lt : ∀ e ∈ rows, e.1 < nextId
  /-- Ids grow in insertion order. -/
  ids_sorted : (rows.map Prod.fst).Pairwise (· < ·)
  /-- The UNIQUE constraint. -/
  keys_nodup : (rows.map fun e => key e.2).Nodup

namespace Table

variable {ρ : Type u} {κ : Type v} {key : ρ → κ}

/-- The table without rows. -/
def empty : Table ρ key where
  rows := []
  nextId := 1
  id_lt := by simp
  ids_sorted := by simp
  keys_nodup := by simp

/-- Whether some row holds the key `k`. -/
def hasKey [DecidableEq κ] (t : Table ρ key) (k : κ) : Bool :=
  t.rows.any fun e => key e.2 = k

/-- First row, in id order, that satisfies `p`. -/
def find? (t : Table ρ key) (p : Nat × ρ → Bool) : Option (Nat × ρ) :=
  t.rows.find? p

theorem hasKey_eq_true [DecidableEq κ] {t : Table ρ key} {k : κ} :
    t.hasKey k = true ↔ ∃ e ∈ t.rows, key e.2 = k := by
  simp [hasKey]

theorem hasKey_eq_false [DecidableEq κ] {t : Table ρ key} {k : κ} :
    t.hasKey k = false ↔ ∀ e ∈ t.rows, key e.2 ≠ k := by
  simp [hasKey]

/-- Two rows with the same id are the same row. -/
theorem eq_of_id {t : Table ρ key} {d e : Nat × ρ} (hd : d ∈ t.rows) (he : e ∈ t.rows)
    (hid : d.1 = e.1) : d = e := by
  have hnodup : (t.rows.map Prod.fst).Nodup := t.ids_sorted.imp (fun h => Nat.ne_of_lt h)
  exact List.inj_on_of_nodup_map hnodup hd he hid

/-- Two rows with the same key are the same row. -/
theorem eq_of_key {t : Table ρ key} {d e : Nat × ρ} (hd : d ∈ t.rows) (he : e ∈ t.rows)
    (hkey : key d.2 = key e.2) : d = e :=
  List.inj_on_of_nodup_map t.keys_nodup hd he hkey

/-! ## Section 2: Statements -/

/-- `INSERT`: the new row gets the next id; refused when its key is taken. -/
def insert [DecidableEq κ] (t : Table ρ key) (x : ρ) : Option (Table ρ key) :=
  if h : t.hasKey (key x) = false then
    some
      { rows := t.rows ++ [(t.nextId, x)]
        nextId := t.nextId + 1
        id_lt := by
          intro e he
          rcases List.mem_append.mp he with he | he
          · exact Nat.lt_succ_of_lt (t.id_lt e he)
          · simp_all
        ids_sorted := by
          rw [List.map_append, List.pairwise_append]
          refine ⟨t.ids_sorted, by simp, ?_⟩
          intro a ha b hb
          obtain ⟨e, he, rfl⟩ := List.mem_map.mp ha
          simp only [List.map_cons, List.map_nil, List.mem_singleton] at hb
          exact hb ▸ t.id_lt e he
        keys_nodup := by
          rw [List.map_append, List.nodup_append]
          refine ⟨t.keys_nodup, by simp, ?_⟩
          intro a ha b hb
          obtain ⟨e, he, rfl⟩ := List.mem_map.mp ha
          simp only [List.map_cons, List.map_nil, List.mem_singleton] at hb
          exact hb ▸ hasKey_eq_false.mp h e he }
  else none

/-- Rewrite the columns of the rows that satisfy `p`; ids stay. -/
def mapRows (rows : List (Nat × ρ)) (p : Nat × ρ → Bool) (f : ρ → ρ) : List (Nat × ρ) :=
  rows.map fun e => if p e then (e.1, f e.2) else e

theorem map_fst_mapRows (rows : List (Nat × ρ)) (p : Nat × ρ → Bool) (f : ρ → ρ) :
    (mapRows rows p f).map Prod.fst = rows.map Prod.fst := by
  rw [mapRows, List.map_map]
  refine List.map_congr_left fun e _ => ?_
  by_cases hp : p e = true <;> simp [hp]

theorem mem_mapRows {rows : List (Nat × ρ)} {p : Nat × ρ → Bool} {f : ρ → ρ} {e : Nat × ρ} :
    e ∈ mapRows rows p f ↔ ∃ d ∈ rows, (if p d then (d.1, f d.2) else d) = e := by
  simp [mapRows]

private theorem mapRows_id_lt (t : Table ρ key) (p : Nat × ρ → Bool) (f : ρ → ρ) :
    ∀ e ∈ mapRows t.rows p f, e.1 < t.nextId := by
  intro e he
  obtain ⟨d, hd, rfl⟩ := mem_mapRows.mp he
  by_cases hp : p d = true <;> simpa [hp] using t.id_lt d hd

/-- `UPDATE … SET f WHERE p`: refused when two rows would share a key afterwards. -/
def update [DecidableEq κ] (t : Table ρ key) (p : Nat × ρ → Bool) (f : ρ → ρ) :
    Option (Table ρ key) :=
  if h : ((mapRows t.rows p f).map fun e => key e.2).Nodup then
    some
      { rows := mapRows t.rows p f
        nextId := t.nextId
        id_lt := mapRows_id_lt t p f
        ids_sorted := by rw [map_fst_mapRows]; exact t.ids_sorted
        keys_nodup := h }
  else none

/-- An `UPDATE` that cannot touch the key and therefore always succeeds. -/
def modify (t : Table ρ key) (p : Nat × ρ → Bool) (f : ρ → ρ) (hf : ∀ x, key (f x) = key x) :
    Table ρ key where
  rows := mapRows t.rows p f
  nextId := t.nextId
  id_lt := mapRows_id_lt t p f
  ids_sorted := by rw [map_fst_mapRows]; exact t.ids_sorted
  keys_nodup := by
    have hkeys : ((mapRows t.rows p f).map fun e => key e.2) = t.rows.map fun e => key e.2 := by
      rw [mapRows, List.map_map]
      refine List.map_congr_left fun e _ => ?_
      by_cases hp : p e = true <;> simp [hp, hf]
    rw [hkeys]
    exact t.keys_nodup

/-- `DELETE … WHERE p`. -/
def delete (t : Table ρ key) (p : Nat × ρ → Bool) : Table ρ key where
  rows := t.rows.filter fun e => !p e
  nextId := t.nextId
  id_lt := fun e he => t.id_lt e (List.mem_of_mem_filter he)
  ids_sorted := t.ids_sorted.sublist (List.filter_sublist.map Prod.fst)
  keys_nodup := t.keys_nodup.sublist (List.filter_sublist.map fun e : Nat × ρ => key e.2)

@[simp] theorem rows_modify (t : Table ρ key) (p : Nat × ρ → Bool) (f : ρ → ρ)
    (hf : ∀ x, key (f x) = key x) : (t.modify p f hf).rows = mapRows t.rows p f := rfl

@[simp] theorem rows_delete (t : Table ρ key) (p : Nat × ρ → Bool) :
    (t.delete p).rows = t.rows.filter fun e => !p e := rfl

@[simp] theorem nextId_delete (t : Table ρ key) (p : Nat × ρ → Bool) :
    (t.delete p).nextId = t.nextId := rfl

@[simp] theorem rows_empty : (empty : Table ρ key).rows = [] := rfl

theorem insert_eq_some [DecidableEq κ] {t t' : Table ρ key} {x : ρ} (h : t.insert x = some t') :
    t.hasKey (key x) = false ∧ t'.rows = t.rows ++ [(t.nextId, x)] ∧
      t'.nextId = t.nextId + 1 := by
  unfold insert at h
  split at h
  · rename_i hk
    cases h
    exact ⟨hk, rfl, rfl⟩
  · cases h

theorem insert_isSome [DecidableEq κ] {t : Table ρ key} {x : ρ} :
    (t.insert x).isSome = true ↔ t.hasKey (key x) = false := by
  unfold insert
  split <;> simp_all

theorem update_eq_some [DecidableEq κ] {t t' : Table ρ key} {p : Nat × ρ → Bool} {f : ρ → ρ}
    (h : t.update p f = some t') :
    t'.rows = mapRows t.rows p f ∧ t'.nextId = t.nextId := by
  unfold update at h
  split at h
  · cases h
    exact ⟨rfl, rfl⟩
  · cases h

/-! ## Section 3: Statements that address one row

A `WHERE` clause that fixes the unique key or the id selects at most one row `d`; the
statement then replaces or removes exactly that row.
-/

/-- `p` holds of the row `d` and of no other row. -/
def Selects (rows : List (Nat × ρ)) (p : Nat × ρ → Bool) (d : Nat × ρ) : Prop :=
  d ∈ rows ∧ ∀ e ∈ rows, p e = true ↔ e = d

/-- The rows with the columns of row `i` replaced by `x`. -/
def setRow (rows : List (Nat × ρ)) (i : Nat) (x : ρ) : List (Nat × ρ) :=
  rows.map fun e => if e.1 = i then (i, x) else e

/-- The rows without row `i`. -/
def dropRow (rows : List (Nat × ρ)) (i : Nat) : List (Nat × ρ) :=
  rows.filter fun e => e.1 ≠ i

theorem selects_of_key {t : Table ρ key} {p : Nat × ρ → Bool} {d : Nat × ρ} (hd : d ∈ t.rows)
    (hp : p d = true) (hkey : ∀ e, p e = true → key e.2 = key d.2) : Selects t.rows p d :=
  ⟨hd, fun e he => ⟨fun h => eq_of_key he hd (hkey e h), fun h => h ▸ hp⟩⟩

theorem selects_of_id {t : Table ρ key} {p : Nat × ρ → Bool} {d : Nat × ρ} (hd : d ∈ t.rows)
    (hp : p d = true) (hid : ∀ e, p e = true → e.1 = d.1) : Selects t.rows p d :=
  ⟨hd, fun e he => ⟨fun h => eq_of_id he hd (hid e h), fun h => h ▸ hp⟩⟩

/-- `SELECT` finds the selected row. -/
theorem find?_of_selects {t : Table ρ key} {p : Nat × ρ → Bool} {d : Nat × ρ}
    (h : Selects t.rows p d) : t.find? p = some d := by
  have hp : p d = true := (h.2 d h.1).mpr rfl
  cases hfind : t.find? p with
  | none => exact absurd hp (List.find?_eq_none.mp hfind d h.1)
  | some e =>
    have hmem : e ∈ t.rows := List.mem_of_find?_eq_some hfind
    rw [(h.2 e hmem).mp (List.find?_some hfind)]

theorem mapRows_eq_setRow {t : Table ρ key} {p : Nat × ρ → Bool} {f : ρ → ρ} {d : Nat × ρ}
    (h : Selects t.rows p d) : mapRows t.rows p f = setRow t.rows d.1 (f d.2) := by
  refine List.map_congr_left fun e he => ?_
  by_cases hid : e.1 = d.1
  · have hed : e = d := eq_of_id he h.1 hid
    have hp : p d = true := (h.2 d h.1).mpr rfl
    simp [hed, hp]
  · have hp : ¬ p e = true := fun hp => hid ((h.2 e he).mp hp ▸ rfl)
    simp [hid, hp]

theorem filter_eq_dropRow {t : Table ρ key} {p : Nat × ρ → Bool} {d : Nat × ρ}
    (h : Selects t.rows p d) : (t.rows.filter fun e => !p e) = dropRow t.rows d.1 := by
  refine List.filter_congr fun e he => ?_
  by_cases hed : e = d
  · have hp : p d = true := (h.2 d h.1).mpr rfl
    simp [hed, hp]
  · have hp : p e = false := by
      cases hpe : p e with
      | false => rfl
      | true => exact absurd ((h.2 e he).mp hpe) hed
    have hid : e.1 ≠ d.1 := fun hid => hed (eq_of_id he h.1 hid)
    simp [hp, hid]

theorem mem_setRow {rows : List (Nat × ρ)} {i : Nat} {x : ρ} {e : Nat × ρ} :
    e ∈ setRow rows i x ↔ (e ∈ rows ∧ e.1 ≠ i) ∨ (e = (i, x) ∧ ∃ d ∈ rows, d.1 = i) := by
  simp only [setRow, List.mem_map]
  constructor
  · rintro ⟨d, hd, rfl⟩
    by_cases hid : d.1 = i
    · right
      exact ⟨by simp [hid], d, hd, hid⟩
    · left
      simp [hid, hd]
  · rintro (⟨he, hid⟩ | ⟨rfl, d, hd, hid⟩)
    · exact ⟨e, he, by simp [hid]⟩
    · exact ⟨d, hd, by simp [hid]⟩

theorem mem_dropRow {rows : List (Nat × ρ)} {i : Nat} {e : Nat × ρ} :
    e ∈ dropRow rows i ↔ e ∈ rows ∧ e.1 ≠ i := by
  simp [dropRow]

theorem setRow_setRow (rows : List (Nat × ρ)) (i : Nat) (x y : ρ) :
    setRow (setRow rows i x) i y = setRow rows i y := by
  simp only [setRow, List.map_map]
  refine List.map_congr_left fun e _ => ?_
  by_cases hid : e.1 = i <;> simp [hid]

theorem setRow_self {t : Table ρ key} {i : Nat} {x : ρ} (h : (i, x) ∈ t.rows) :
    setRow t.rows i x = t.rows := by
  unfold setRow
  conv_rhs => rw [← List.map_id t.rows]
  refine List.map_congr_left fun e he => ?_
  by_cases hid : e.1 = i
  · have hsame : e = (i, x) := eq_of_id he h hid
    simp [hsame]
  · simp [hid]

theorem dropRow_setRow (rows : List (Nat × ρ)) (i : Nat) (x : ρ) :
    dropRow (setRow rows i x) i = dropRow rows i := by
  induction rows with
  | nil => rfl
  | cons e rows ih =>
    simp only [setRow, dropRow, List.map_cons] at ih ⊢
    by_cases hid : e.1 = i
    · simpa [hid] using ih
    · simpa [hid] using ih

/-- Moving one row to another key succeeds exactly when no other row holds that key. -/
theorem update_isSome_of_selects [DecidableEq κ] {t : Table ρ key} {p : Nat × ρ → Bool}
    {f : ρ → ρ} {d : Nat × ρ} (h : Selects t.rows p d) :
    (t.update p f).isSome = true ↔ ∀ e ∈ t.rows, e ≠ d → key e.2 ≠ key (f d.2) := by
  have hnodup : t.rows.Nodup := t.keys_nodup.of_map _
  unfold update
  split
  case isTrue hk =>
    rw [mapRows_eq_setRow h] at hk
    simp only [Option.isSome_some, true_iff]
    intro e he hed heq
    have hmem_e : e ∈ setRow t.rows d.1 (f d.2) :=
      mem_setRow.mpr (.inl ⟨he, fun hid => hed (eq_of_id he h.1 hid)⟩)
    have hmem_d : (d.1, f d.2) ∈ setRow t.rows d.1 (f d.2) :=
      mem_setRow.mpr (.inr ⟨rfl, d, h.1, rfl⟩)
    have hsame := List.inj_on_of_nodup_map hk hmem_e hmem_d heq
    exact hed (eq_of_id he h.1 (by rw [hsame]))
  case isFalse hk =>
    simp only [Option.isSome_none, Bool.false_eq_true, false_iff]
    intro hfree
    apply hk
    rw [mapRows_eq_setRow h, setRow, List.map_map]
    refine List.Nodup.map_on ?_ hnodup
    intro a ha b hb hab
    -- Only `d` gets a new key, and by assumption that key is free.
    by_cases had : a = d <;> by_cases hbd : b = d
    · rw [had, hbd]
    · have hid : b.1 ≠ d.1 := fun hid => hbd (eq_of_id hb h.1 hid)
      subst had
      simp only [Function.comp, hid, if_true, if_false] at hab
      exact absurd hab.symm (hfree b hb hbd)
    · have hid : a.1 ≠ d.1 := fun hid => had (eq_of_id ha h.1 hid)
      subst hbd
      simp only [Function.comp, hid, if_true, if_false] at hab
      exact absurd hab (hfree a ha had)
    · have hida : a.1 ≠ d.1 := fun hid => had (eq_of_id ha h.1 hid)
      have hidb : b.1 ≠ d.1 := fun hid => hbd (eq_of_id hb h.1 hid)
      simp only [Function.comp, hida, hidb, if_false] at hab
      exact eq_of_key ha hb hab

/-! ## Section 4: Counting rows

Each statement changes the number of rows with a property `q` by what it does to the rows
it touches. These are the facts that counters kept beside a table rest on.
-/

/-- Number of rows that satisfy `q`. -/
def tally (rows : List (Nat × ρ)) (q : ρ → Bool) : Int :=
  (rows.countP fun e => q e.2 : Nat)

@[simp] theorem tally_nil (q : ρ → Bool) : tally ([] : List (Nat × ρ)) q = 0 := rfl

theorem tally_append (xs ys : List (Nat × ρ)) (q : ρ → Bool) :
    tally (xs ++ ys) q = tally xs q + tally ys q := by
  simp [tally, List.countP_append]

theorem tally_cons (e : Nat × ρ) (rows : List (Nat × ρ)) (q : ρ → Bool) :
    tally (e :: rows) q = tally rows q + (if q e.2 then 1 else 0) := by
  by_cases hq : q e.2 = true <;> simp [tally, hq]

theorem tally_nonneg (rows : List (Nat × ρ)) (q : ρ → Bool) : 0 ≤ tally rows q := by
  simp [tally]

theorem tally_eq_zero {rows : List (Nat × ρ)} {q : ρ → Bool} :
    tally rows q = 0 ↔ ∀ e ∈ rows, q e.2 = false := by
  simp [tally, List.countP_eq_zero]

/-- The rows with a property split into those that also satisfy `r` and those that do not. -/
theorem tally_and_add_tally_and_not (rows : List (Nat × ρ)) (q r : ρ → Bool) :
    tally rows (fun x => q x && r x) + tally rows (fun x => q x && !r x) = tally rows q := by
  induction rows with
  | nil => simp
  | cons e rows ih =>
    rw [tally_cons, tally_cons, tally_cons, ← ih]
    cases q e.2 <;> cases r e.2 <;> simp <;> ring

/-- Deleting rows lowers a tally by the number of deleted rows that were counted. -/
theorem tally_filter_not (rows : List (Nat × ρ)) (p : Nat × ρ → Bool) (q : ρ → Bool) :
    tally (rows.filter fun e => !p e) q =
      tally rows q - tally (rows.filter p) q := by
  induction rows with
  | nil => simp
  | cons e rows ih =>
    cases hp : p e with
    | true =>
      rw [List.filter_cons_of_neg (by simp [hp]), List.filter_cons_of_pos hp, tally_cons,
        tally_cons, ih]
      ring
    | false =>
      rw [List.filter_cons_of_pos (by simp [hp]), List.filter_cons_of_neg (by simp [hp]),
        tally_cons, tally_cons, ih]
      ring

private theorem tally_setRow_aux {rows : List (Nat × ρ)} {d : Nat × ρ} (x : ρ) (q : ρ → Bool)
    (hsorted : (rows.map Prod.fst).Nodup) (hd : d ∈ rows) :
    tally (setRow rows d.1 x) q =
      tally rows q - (if q d.2 then 1 else 0) + (if q x then 1 else 0) := by
  induction rows with
  | nil => cases hd
  | cons e rows ih =>
    obtain ⟨hnotin, hrest⟩ := List.nodup_cons.mp hsorted
    have hhead : setRow (e :: rows) d.1 x =
        (if e.1 = d.1 then (d.1, x) else e) :: setRow rows d.1 x := rfl
    rw [hhead, tally_cons, tally_cons]
    rcases List.mem_cons.mp hd with rfl | hd
    · have hrows : setRow rows d.1 x = rows := by
        unfold setRow
        conv_rhs => rw [← List.map_id rows]
        refine List.map_congr_left fun e he => ?_
        have hne : e.1 ≠ d.1 := fun hid => hnotin (List.mem_map.mpr ⟨e, he, hid⟩)
        simp [hne]
      rw [hrows]
      simp only [if_true]
      ring
    · have hne : e.1 ≠ d.1 := fun hid => hnotin (List.mem_map.mpr ⟨d, hd, hid.symm⟩)
      rw [ih hrest hd, if_neg hne]
      ring

/-- Replacing one row moves one unit from the tallies of the old columns to the new ones'. -/
theorem tally_setRow {t : Table ρ key} {d : Nat × ρ} (x : ρ) (q : ρ → Bool) (hd : d ∈ t.rows) :
    tally (setRow t.rows d.1 x) q =
      tally t.rows q - (if q d.2 then 1 else 0) + (if q x then 1 else 0) :=
  tally_setRow_aux x q (t.ids_sorted.imp fun h => Nat.ne_of_lt h) hd

private theorem tally_dropRow_aux {rows : List (Nat × ρ)} {d : Nat × ρ} (q : ρ → Bool)
    (hsorted : (rows.map Prod.fst).Nodup) (hd : d ∈ rows) :
    tally (dropRow rows d.1) q = tally rows q - (if q d.2 then 1 else 0) := by
  induction rows with
  | nil => cases hd
  | cons e rows ih =>
    obtain ⟨hnotin, hrest⟩ := List.nodup_cons.mp hsorted
    rcases List.mem_cons.mp hd with rfl | hd
    · have hrows : dropRow (d :: rows) d.1 = rows := by
        have hkeep : ∀ e ∈ rows, decide (e.1 ≠ d.1) = true := fun e he =>
          decide_eq_true fun hid => hnotin (List.mem_map.mpr ⟨e, he, hid⟩)
        rw [dropRow, List.filter_cons_of_neg (by simp)]
        exact List.filter_eq_self.mpr hkeep
      rw [hrows, tally_cons]
      ring
    · have hne : e.1 ≠ d.1 := fun hid => hnotin (List.mem_map.mpr ⟨d, hd, hid.symm⟩)
      have hhead : dropRow (e :: rows) d.1 = e :: dropRow rows d.1 :=
        List.filter_cons_of_pos (by simpa using hne)
      rw [hhead, tally_cons, tally_cons, ih hrest hd]
      ring

/-- Removing one row takes one unit from the tallies that counted it. -/
theorem tally_dropRow {t : Table ρ key} {d : Nat × ρ} (q : ρ → Bool) (hd : d ∈ t.rows) :
    tally (dropRow t.rows d.1) q = tally t.rows q - (if q d.2 then 1 else 0) :=
  tally_dropRow_aux q (t.ids_sorted.imp fun h => Nat.ne_of_lt h) hd

/-! ## Section 5: Lookup by key -/

/-- The row that holds the key `k`, if any. -/
def lookup [DecidableEq κ] (t : Table ρ key) (k : κ) : Option ρ :=
  (t.rows.find? fun e => key e.2 = k).map Prod.snd

theorem lookup_eq_some [DecidableEq κ] {t : Table ρ key} {k : κ} {x : ρ} :
    t.lookup k = some x ↔ ∃ i, (i, x) ∈ t.rows ∧ key x = k := by
  unfold lookup
  constructor
  · intro h
    obtain ⟨e, he, rfl⟩ := Option.map_eq_some_iff.mp h
    exact ⟨e.1, List.mem_of_find?_eq_some he, by simpa using List.find?_some he⟩
  · rintro ⟨i, hi, hk⟩
    cases hfind : t.rows.find? fun e => key e.2 = k with
    | none =>
      have hnone := List.find?_eq_none.mp hfind (i, x) hi
      exact absurd hk (by simpa using hnone)
    | some e =>
      have hke : key e.2 = k := by simpa using List.find?_some hfind
      have hsame := eq_of_key (List.mem_of_find?_eq_some hfind) hi (hke.trans hk.symm)
      simp [hsame]

theorem lookup_eq_none [DecidableEq κ] {t : Table ρ key} {k : κ} :
    t.lookup k = none ↔ t.hasKey k = false := by
  simp [lookup, hasKey]

theorem lookup_isSome [DecidableEq κ] {t : Table ρ key} {k : κ} :
    (t.lookup k).isSome = t.hasKey k := by
  cases h : t.hasKey k with
  | false => rw [lookup_eq_none.mpr h]; rfl
  | true =>
    cases hl : t.lookup k with
    | some x => rfl
    | none => rw [lookup_eq_none.mp hl] at h; cases h

/-- An update of the row with key `k₀` changes the lookup of `k₀` only. -/
theorem lookup_modify [DecidableEq κ] (t : Table ρ key) (k₀ k : κ) (f : ρ → ρ)
    (hf : ∀ x, key (f x) = key x) :
    (t.modify (fun e => key e.2 = k₀) f hf).lookup k =
      (t.lookup k).map fun x => if k = k₀ then f x else x := by
  cases hl : t.lookup k with
  | none =>
    rw [lookup_eq_none, hasKey_eq_false] at hl
    refine lookup_eq_none.mpr (hasKey_eq_false.mpr fun e he => ?_)
    obtain ⟨d, hd, rfl⟩ := mem_mapRows.mp he
    by_cases hp : key d.2 = k₀
    · simpa [hp, hf] using hl d hd
    · simpa [hp] using hl d hd
  | some x =>
    obtain ⟨i, hi, hk⟩ := lookup_eq_some.mp hl
    subst hk
    refine lookup_eq_some.mpr ⟨i, mem_mapRows.mpr ⟨(i, x), hi, ?_⟩, ?_⟩
    · by_cases hp : key x = k₀ <;> simp [hp]
    · by_cases hp : key x = k₀ <;> simp [hp, hf]

theorem hasKey_modify [DecidableEq κ] (t : Table ρ key) (p : Nat × ρ → Bool) (f : ρ → ρ)
    (hf : ∀ x, key (f x) = key x) (k : κ) : (t.modify p f hf).hasKey k = t.hasKey k := by
  rw [Bool.eq_iff_iff, hasKey_eq_true, hasKey_eq_true]
  constructor
  · rintro ⟨e, he, hk⟩
    obtain ⟨d, hd, rfl⟩ := mem_mapRows.mp he
    refine ⟨d, hd, ?_⟩
    by_cases hp : p d = true <;> simpa [hp, hf] using hk
  · rintro ⟨d, hd, hk⟩
    refine ⟨_, mem_mapRows.mpr ⟨d, hd, rfl⟩, ?_⟩
    by_cases hp : p d = true <;> simpa [hp, hf] using hk

theorem lookup_insert [DecidableEq κ] {t t' : Table ρ key} {x : ρ} (h : t.insert x = some t')
    (k : κ) : t'.lookup k = if key x = k then some x else t.lookup k := by
  obtain ⟨hfree, hrows, -⟩ := insert_eq_some h
  unfold lookup
  rw [hrows, List.find?_append]
  by_cases hk : key x = k
  · subst hk
    have hnone : t.rows.find? (fun e => key e.2 = key x) = none :=
      List.find?_eq_none.mpr fun e he => by simpa using hasKey_eq_false.mp hfree e he
    simp [hnone]
  · simp [hk]

/-- Deleting the row with key `k₀` removes the lookup of `k₀` only. -/
theorem lookup_delete [DecidableEq κ] (t : Table ρ key) (k₀ k : κ) :
    (t.delete fun e => key e.2 = k₀).lookup k = if k = k₀ then none else t.lookup k := by
  unfold lookup
  rw [rows_delete, List.find?_filter]
  by_cases hk : k = k₀
  · subst hk
    simp
  · rw [if_neg hk]
    congr 2
    funext e
    by_cases he : key e.2 = k
    · simp [he, hk]
    · simp [he]

end Table

end Nzovu.Foundation
