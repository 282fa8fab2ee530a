import Nzovu.Foundation.Transaction.Machine

/-!
# A Program Logic for Transactions

What a transaction may rely on under READ COMMITTED: a row it has locked stays as it is until
the transaction ends, and nothing else does. `Program.Safe` is the weakest precondition of a
program in these terms: whatever the other transactions commit in between, the program reaches
its end only with a result and a set of written rows that satisfy the postcondition.

- Section 1: what a session knows.
- Section 2: the keys a statement finds.
- Section 3: the weakest precondition.
- Section 4: rules for composition and for the statements.
-/

namespace Nzovu.Foundation

/-! ## Section 1: What a session knows -/

section Local

variable {τ : Type} (κ ρ : τ → Type)

/-- What a session knows for certain: a lower bound of the clock, its locked rows (the committed
version and its own), and what it last read. -/
structure Local where
  clock : Int
  held : ∀ i : Ref κ, Option (Option (ρ i.1) × Option (ρ i.1))
  seen : Option (Snapshot κ ρ)

variable {κ ρ}

namespace Local

/-- A session that has done nothing. -/
def start (clock : Int) : Local κ ρ := ⟨clock, fun _ => none, none⟩

/-- What the session sees when `rows` are committed. -/
def view (L : Local κ ρ) (rows : Store κ ρ) : Store κ ρ :=
  fun i => ((L.held i).map Prod.snd).getD (rows i)

/-- Later knowledge of the clock. -/
def atClock (L : Local κ ρ) (clock : Int) : Local κ ρ := { L with clock := clock }

/-- After a plain `SELECT`. -/
def observe (L : Local κ ρ) (rows : Store κ ρ) (clock : Int) : Local κ ρ :=
  { L with
    clock := clock
    seen := some ⟨rows, fun i => (L.held i).isSome, clock⟩ }

variable [DecidableEq τ] [∀ T, DecidableEq (κ T)]

/-- After locking a row. -/
def acquire (L : Local κ ρ) (T : τ) (x : κ T) (row : ρ T) : Local κ ρ :=
  { L with held := Function.update L.held ⟨T, x⟩ (some (some row, some row)) }

/-- After writing a locked row. -/
def write (L : Local κ ρ) (T : τ) (x : κ T) (row : Option (ρ T)) : Local κ ρ :=
  { L with
    held := Function.update L.held ⟨T, x⟩ ((L.held ⟨T, x⟩).map fun v => (v.1, row)) }

/-- After locking several rows. -/
def acquireAll (L : Local κ ρ) (T : τ) (found : List (κ T × ρ T)) : Local κ ρ :=
  found.foldl (fun L e => L.acquire T e.1 e.2) L

/-- After writing several locked rows. -/
def writeAll (L : Local κ ρ) (T : τ) (set : ρ T → Option (ρ T)) (found : List (κ T × ρ T)) :
    Local κ ρ :=
  found.foldl (fun L e => L.write T e.1 (set e.2)) L

/-- The session can be in a world with these committed rows. `Inv` is what holds of the
committed rows at any time. -/
structure Sees (schema : Schema κ ρ) (Inv : Store κ ρ → Prop) (L : Local κ ρ)
    (rows : Store κ ρ) : Prop where
  inv : Inv rows
  base : ∀ i old new, L.held i = some (old, new) → rows i = old
  unique : schema.Unique (L.view rows)
  inKeys : ∀ i, L.held i ≠ none → i.2 ∈ schema.keys i.1

end Local

end Local

/-! ## Section 2: The keys a statement finds -/

section Candidates

variable {τ : Type} {κ ρ : τ → Type} {schema : Schema κ ρ} {T : τ} {s : Selection κ ρ T}
  {rows : Store κ ρ}

theorem mem_candidates {x : κ T} : x ∈ World.candidates schema s rows ↔
    x ∈ schema.keys T ∧ ∃ row, rows ⟨T, x⟩ = some row ∧ s.filter x row = true := by
  unfold World.candidates
  simp only [List.mem_map, List.mem_insertionSort, List.mem_filter, Schema.mem_scan]
  constructor
  · intro h
    rcases h with ⟨e, ⟨⟨hkeys, hrow⟩, hfilter⟩, rfl⟩
    exact ⟨hkeys, e.2, hrow, hfilter⟩
  · intro h
    rcases h with ⟨hkeys, row, hrow, hfilter⟩
    exact ⟨(x, row), ⟨⟨hkeys, hrow⟩, hfilter⟩, rfl⟩

theorem candidates_subset {x : κ T} (hx : x ∈ World.candidates schema s rows) :
    x ∈ schema.keys T :=
  (mem_candidates.mp hx).1

theorem candidates_nodup : (World.candidates schema s rows).Nodup := by
  unfold World.candidates
  have hsorted := List.perm_insertionSort (fun a b => s.before a b = true)
    ((schema.scan rows T).filter fun e => s.filter e.1 e.2)
  apply (hsorted.map Prod.fst).nodup_iff.mpr
  apply List.Nodup.sublist (List.filter_sublist.map Prod.fst)
  exact (schema.nodup T).sublist (schema.scan_fst_sublist rows T)

/-- Two rows the `WHERE` clause selects would violate a UNIQUE index. -/
def SelectsOne (schema : Schema κ ρ) (filter : κ T → ρ T → Bool) : Prop :=
  ∀ x y a b, filter x a = true → filter y b = true → x = y ∨ schema.clash T a b = true

theorem candidates_length_le_one (hunique : schema.Unique rows)
    (hone : SelectsOne schema s.filter) : (World.candidates schema s rows).length ≤ 1 := by
  have hsame : ∀ x ∈ World.candidates schema s rows, ∀ y ∈ World.candidates schema s rows,
      x = y := by
    intro x hx y hy
    obtain ⟨hkx, a, ha, hfa⟩ := mem_candidates.mp hx
    obtain ⟨hky, b, hb, hfb⟩ := mem_candidates.mp hy
    rcases hone x y a b hfa hfb with heq | hclash
    · exact heq
    · by_contra hne
      rw [hunique T x hkx y hky hne a b ha hb] at hclash
      cases hclash
  have hnodup : (World.candidates schema s rows).Nodup := candidates_nodup
  rcases hc : World.candidates schema s rows with _ | ⟨x, _ | ⟨y, rest⟩⟩
  · simp
  · simp
  · rw [hc] at hsame hnodup
    have hxy : x = y := hsame x (by simp) y (by simp)
    simp [hxy] at hnodup

/-- The statement finds exactly the row it selects. -/
theorem candidates_eq_singleton (hunique : schema.Unique rows)
    (hone : SelectsOne schema s.filter) {x : κ T} {row : ρ T} (hkeys : x ∈ schema.keys T)
    (hrow : rows ⟨T, x⟩ = some row) (hfilter : s.filter x row = true) :
    World.candidates schema s rows = [x] := by
  have hmem := mem_candidates.mpr ⟨hkeys, row, hrow, hfilter⟩
  have hlength := candidates_length_le_one hunique hone
  rcases hc : World.candidates schema s rows with _ | ⟨y, _ | ⟨z, rest⟩⟩
  · rw [hc] at hmem
    cases hmem
  · rw [hc, List.mem_singleton] at hmem
    rw [hmem]
  · rw [hc] at hlength
    simp at hlength

end Candidates

/-! ## Section 3: The weakest precondition -/


section Safe

variable {τ : Type} {κ ρ : τ → Type} {ε α β : Type} [DecidableEq τ] [∀ T, DecidableEq (κ T)]
  (schema : Schema κ ρ) (Inv : Store κ ρ → Prop)

/-- The rest of a locking statement is safe: each row of the cursor may have been changed or
deleted by others since the scan, unless the session has locked it before. -/
def FetchSafe {T : τ} (s : Selection κ ρ T) (post : List (κ T × ρ T) → Local κ ρ → Prop) :
    List (κ T) → List (κ T × ρ T) → Local κ ρ → Prop
  | [], found, L => post found L
  | x :: rest, found, L =>
    if s.full found then post found L
    else
      match L.held ⟨T, x⟩ with
      | some (_, none) => FetchSafe s post rest found L
      | some (_, some row) =>
        if s.filter x row then FetchSafe s post rest (found ++ [(x, row)]) L
        else FetchSafe s post rest found L
      | none =>
        (∀ rows, L.Sees schema Inv rows →
          (s.mode = .skipLocked ∨ ∀ row, rows ⟨T, x⟩ = some row → s.filter x row = false) →
            FetchSafe s post rest found L) ∧
        ∀ rows, L.Sees schema Inv rows → ∀ row, rows ⟨T, x⟩ = some row → s.filter x row = true →
          FetchSafe s post rest (found ++ [(x, row)]) (L.acquire T x row)

/-- Every way to complete the program ends with an error or satisfies `post`. -/
def Program.Safe (post : α → Local κ ρ → Prop) : Program κ ρ ε α → Local κ ρ → Prop
  | .done result, L => post result L
  | .fail _, _ => True
  | .now next, L => ∀ clock, L.clock ≤ clock → (next clock).Safe post (L.atClock clock)
  | .read next, L => ∀ rows clock, L.Sees schema Inv rows → L.clock ≤ clock →
      (next (schema.scan (L.view rows))).Safe post (L.observe rows clock)
  | .select _ s next, L => ∀ rows, L.Sees schema Inv rows →
      FetchSafe schema Inv s (fun found L => (next found).Safe post L)
        (World.candidates schema s (L.view rows)) [] L
  | .fetch T s cursor found next, L => (∀ x ∈ cursor, x ∈ schema.keys T) ∧
      FetchSafe schema Inv s (fun found L => (next found).Safe post L) cursor found L
  | .write T x row _ next, L => L.held ⟨T, x⟩ ≠ none ∧
      ∀ rows, L.Sees schema Inv rows →
        (∀ r, row = some r → ∀ j ∈ schema.requires T r, L.view rows j ≠ none) →
          next.Safe post (L.write T x row)

end Safe

/-! ## Section 4: Rules -/

section Rules

variable {τ : Type} {κ ρ : τ → Type} {ε α β : Type} [DecidableEq τ] [∀ T, DecidableEq (κ T)]
  {schema : Schema κ ρ} {Inv : Store κ ρ → Prop} {L : Local κ ρ} {T : τ}

theorem FetchSafe.mono {s : Selection κ ρ T} {post post' : List (κ T × ρ T) → Local κ ρ → Prop}
    (himp : ∀ found L, post found L → post' found L) {cursor : List (κ T)}
    {found : List (κ T × ρ T)} (h : FetchSafe schema Inv s post cursor found L) :
    FetchSafe schema Inv s post' cursor found L := by
  induction cursor generalizing found L with
  | nil => exact himp found L h
  | cons x rest ih =>
    rw [FetchSafe] at h ⊢
    by_cases hfull : s.full found = true
    · rw [if_pos hfull] at h ⊢
      exact himp found L h
    · rw [if_neg hfull] at h ⊢
      rcases hheld : L.held ⟨T, x⟩ with _ | ⟨old, _ | row⟩
      · simp only [hheld] at h ⊢
        exact ⟨fun rows hsees hskip => ih (h.1 rows hsees hskip),
          fun rows hsees row hrow hfilter => ih (h.2 rows hsees row hrow hfilter)⟩
      · simp only [hheld] at h ⊢
        exact ih h
      · simp only [hheld] at h ⊢
        by_cases hfilter : s.filter x row = true
        · rw [if_pos hfilter] at h ⊢
          exact ih h
        · rw [if_neg hfilter] at h ⊢
          exact ih h

theorem Program.Safe.mono {post post' : α → Local κ ρ → Prop}
    (himp : ∀ a L, post a L → post' a L) {p : Program κ ρ ε α}
    (h : p.Safe schema Inv post L) : p.Safe schema Inv post' L := by
  induction p generalizing L with
  | done result => exact himp result L h
  | fail error => trivial
  | now next ih => exact fun clock hle => ih clock (h clock hle)
  | read next ih => exact fun rows clock hsees hle => ih _ (h rows clock hsees hle)
  | select T s next ih => exact fun rows hsees => (h rows hsees).mono fun found L => ih found
  | fetch T s cursor found next ih => exact ⟨h.1, h.2.mono fun found L => ih found⟩
  | write T x row refused next ih => exact ⟨h.1, fun rows hsees hrefs => ih (h.2 rows hsees hrefs)⟩

/-- **Sequencing rule**. -/
theorem Program.safe_bind {post : β → Local κ ρ → Prop} {p : Program κ ρ ε α}
    {f : α → Program κ ρ ε β} (h : p.Safe schema Inv (fun a L => (f a).Safe schema Inv post L) L) :
    (p.bind f).Safe schema Inv post L := by
  induction p generalizing L with
  | done result => exact h
  | fail error => trivial
  | now next ih => exact fun clock hle => ih clock (h clock hle)
  | read next ih => exact fun rows clock hsees hle => ih _ (h rows clock hsees hle)
  | select T s next ih => exact fun rows hsees => (h rows hsees).mono fun found L => ih found
  | fetch T s cursor found next ih => exact ⟨h.1, h.2.mono fun found L => ih found⟩
  | write T x row refused next ih => exact ⟨h.1, fun rows hsees hrefs => ih (h.2 rows hsees hrefs)⟩

@[simp] theorem Program.safe_done {post : α → Local κ ρ → Prop} {result : α} :
    (done result : Program κ ρ ε α).Safe schema Inv post L ↔ post result L :=
  Iff.rfl

@[simp] theorem Program.safe_pure {post : α → Local κ ρ → Prop} {result : α} :
    (pure result : Program κ ρ ε α).Safe schema Inv post L ↔ post result L :=
  Iff.rfl

@[simp] theorem Program.safe_fail {post : α → Local κ ρ → Prop} {error : ε} :
    (fail error : Program κ ρ ε α).Safe schema Inv post L :=
  trivial

/-! ### Locking statements -/

theorem Local.held_acquireAll_of_ne {found : List (κ T × ρ T)} {i : Ref κ}
    (hi : ∀ e ∈ found, i ≠ ⟨T, e.1⟩) : (L.acquireAll T found).held i = L.held i := by
  induction found generalizing L with
  | nil => rfl
  | cons e rest ih =>
    show ((L.acquire T e.1 e.2).acquireAll T rest).held i = _
    rw [ih fun d hd => hi d (List.mem_cons_of_mem _ hd)]
    exact Function.update_of_ne (hi e List.mem_cons_self) _ _

theorem Local.held_acquireAll {found : List (κ T × ρ T)} (hnodup : (found.map Prod.fst).Nodup)
    {e : κ T × ρ T} (he : e ∈ found) :
    (L.acquireAll T found).held ⟨T, e.1⟩ = some (some e.2, some e.2) := by
  induction found generalizing L with
  | nil => cases he
  | cons d rest ih =>
    obtain ⟨hd, hrest⟩ := List.nodup_cons.mp hnodup
    show ((L.acquire T d.1 d.2).acquireAll T rest).held ⟨T, e.1⟩ = _
    rcases List.mem_cons.mp he with rfl | he
    · rw [held_acquireAll_of_ne]
      · simp [acquire]
      · intro c hc heq
        simp only [Sigma.mk.injEq, heq_eq_eq, true_and] at heq
        exact hd (List.mem_map.mpr ⟨c, hc, heq.symm⟩)
    · exact ih hrest he

theorem Local.held_writeAll_of_ne {set : ρ T → Option (ρ T)} {found : List (κ T × ρ T)}
    {i : Ref κ} (hi : ∀ e ∈ found, i ≠ ⟨T, e.1⟩) :
    (L.writeAll T set found).held i = L.held i := by
  induction found generalizing L with
  | nil => rfl
  | cons e rest ih =>
    show ((L.write T e.1 (set e.2)).writeAll T set rest).held i = _
    rw [ih fun d hd => hi d (List.mem_cons_of_mem _ hd)]
    exact Function.update_of_ne (hi e List.mem_cons_self) _ _

theorem Local.held_writeAll {set : ρ T → Option (ρ T)} {found : List (κ T × ρ T)}
    (hnodup : (found.map Prod.fst).Nodup) {e : κ T × ρ T} (he : e ∈ found)
    {old own : Option (ρ T)} (hheld : L.held ⟨T, e.1⟩ = some (old, own)) :
    (L.writeAll T set found).held ⟨T, e.1⟩ = some (old, set e.2) := by
  induction found generalizing L with
  | nil => cases he
  | cons d rest ih =>
    obtain ⟨hd, hrest⟩ := List.nodup_cons.mp hnodup
    show ((L.write T d.1 (set d.2)).writeAll T set rest).held ⟨T, e.1⟩ = _
    rcases List.mem_cons.mp he with rfl | he
    · rw [held_writeAll_of_ne]
      · simp [write, hheld]
      · intro c hc heq
        simp only [Sigma.mk.injEq, heq_eq_eq, true_and] at heq
        exact hd (List.mem_map.mpr ⟨c, hc, heq.symm⟩)
    · apply ih hrest he
      have hne : (⟨T, e.1⟩ : Ref κ) ≠ ⟨T, d.1⟩ := by
        intro heq
        simp only [Sigma.mk.injEq, heq_eq_eq, true_and] at heq
        exact hd (List.mem_map.mpr ⟨e, he, heq⟩)
      rw [← hheld]
      exact Function.update_of_ne hne _ _

/-- What a locking statement may return when the session holds none of the rows yet. -/
theorem FetchSafe.of_fresh {s : Selection κ ρ T} {post : List (κ T × ρ T) → Local κ ρ → Prop}
    {cursor : List (κ T)} {found : List (κ T × ρ T)} (hnodup : cursor.Nodup)
    (hfresh : ∀ x ∈ cursor, L.held ⟨T, x⟩ = none)
    (hfound : ∀ n, s.limit = some n → found.length ≤ n)
    (h : ∀ more : List (κ T × ρ T), (more.map Prod.fst).Sublist cursor →
      (∀ e ∈ more, s.filter e.1 e.2 = true) →
      (∀ n, s.limit = some n → (found ++ more).length ≤ n) →
      post (found ++ more) (L.acquireAll T more)) :
    FetchSafe schema Inv s post cursor found L := by
  have hstop : post found L := by
    have hnone := h [] (List.nil_sublist _) (by simp) (by simpa using hfound)
    rwa [List.append_nil] at hnone
  induction cursor generalizing found L with
  | nil => exact hstop
  | cons x rest ih =>
    obtain ⟨hx, hrest⟩ := List.nodup_cons.mp hnodup
    have hskip : FetchSafe schema Inv s post rest found L := by
      apply ih hrest (fun y hy => hfresh y (List.mem_cons_of_mem _ hy)) hfound _ hstop
      intro more hsub hfilter hlimit
      exact h more (hsub.cons x) hfilter hlimit
    rw [FetchSafe]
    by_cases hfull : s.full found = true
    · rw [if_pos hfull]
      exact hstop
    · rw [if_neg hfull]
      simp only [hfresh x List.mem_cons_self]
      refine ⟨fun _ _ _ => hskip, ?_⟩
      intro rows hsees row hrow hfilter
      have hroom : ∀ n, s.limit = some n → (found ++ [(x, row)]).length ≤ n := by
        intro n hn
        simp only [Selection.full, hn, Option.any_some, decide_eq_true_eq] at hfull
        simp only [List.length_append, List.length_cons, List.length_nil]
        omega
      have htake : ∀ more : List (κ T × ρ T), (more.map Prod.fst).Sublist rest →
          (∀ e ∈ more, s.filter e.1 e.2 = true) →
          (∀ n, s.limit = some n → (found ++ [(x, row)] ++ more).length ≤ n) →
          post (found ++ [(x, row)] ++ more) ((L.acquire T x row).acquireAll T more) := by
        intro more hsub hfilters hlimit
        have hmore := h ((x, row) :: more) (hsub.cons_cons x) ?_ ?_
        · rw [List.append_assoc]
          exact hmore
        · intro e he
          rcases List.mem_cons.mp he with rfl | he
          · exact hfilter
          · exact hfilters e he
        · intro n hn
          have := hlimit n hn
          rwa [List.append_assoc] at this
      apply ih hrest _ hroom htake
      · have hnone := htake [] (List.nil_sublist _) (by simp) (by simpa using hroom)
        rwa [List.append_nil] at hnone
      · intro y hy
        have hne : (⟨T, y⟩ : Ref κ) ≠ ⟨T, x⟩ := by
          intro heq
          cases heq
          exact hx hy
        show Function.update L.held ⟨T, x⟩ _ ⟨T, y⟩ = none
        rw [Function.update_of_ne hne]
        exact hfresh y (List.mem_cons_of_mem _ hy)

/-- **Locking rule**, for a session that has locked no row of the table. -/
theorem Program.safe_select {s : Selection κ ρ T} {post : List (κ T × ρ T) → Local κ ρ → Prop}
    (hfresh : ∀ x, L.held ⟨T, x⟩ = none)
    (h : ∀ rows, L.Sees schema Inv rows → ∀ found : List (κ T × ρ T),
      (found.map Prod.fst).Sublist (World.candidates schema s (L.view rows)) →
      (∀ e ∈ found, s.filter e.1 e.2 = true) →
      (∀ n, s.limit = some n → found.length ≤ n) → post found (L.acquireAll T found)) :
    (selectForUpdate T s : Program κ ρ ε _).Safe schema Inv post L := by
  intro rows hsees
  apply FetchSafe.of_fresh candidates_nodup (fun x _ => hfresh x)
  · intro n _
    exact Nat.zero_le n
  · intro more hsub hfilter hlimit
    exact h rows hsees more hsub hfilter hlimit

/-- **Locking rule** for statements that return at most one row. -/
theorem Program.safe_select_one {s : Selection κ ρ T}
    {post : List (κ T × ρ T) → Local κ ρ → Prop} (hfresh : ∀ x, L.held ⟨T, x⟩ = none)
    (hone : SelectsOne schema s.filter ∨ s.limit = some 1) (hnone : post [] L)
    (hsome : ∀ x row, s.filter x row = true → post [(x, row)] (L.acquire T x row)) :
    (selectForUpdate T s : Program κ ρ ε _).Safe schema Inv post L := by
  apply safe_select hfresh
  intro rows hsees found hsub hfilter hlimit
  have hlength : found.length ≤ 1 := by
    rcases hone with hone | hone
    · have hle := hsub.length_le
      rw [List.length_map] at hle
      exact le_trans hle (candidates_length_le_one hsees.unique hone)
    · exact hlimit 1 hone
  rcases found with _ | ⟨⟨x, row⟩, _ | ⟨e, rest⟩⟩
  · exact hnone
  · exact hsome x row (hfilter _ List.mem_cons_self)
  · simp at hlength

/-! ### `UPDATE` and `DELETE` -/

/-- The foreign keys of a written version are satisfied in some world the session can be in. -/
def Local.Refers (schema : Schema κ ρ) (Inv : Store κ ρ → Prop) (L : Local κ ρ) (T : τ)
    (row : Option (ρ T)) : Prop :=
  ∃ rows, L.Sees schema Inv rows ∧
    ∀ r, row = some r → ∀ j ∈ schema.requires T r, L.view rows j ≠ none

theorem Program.safe_write {row : Option (ρ T)} {x : κ T} {refused : Violation → ε}
    {next : Program κ ρ ε α} {post : α → Local κ ρ → Prop} (hheld : L.held ⟨T, x⟩ ≠ none)
    (h : L.Refers schema Inv T row → next.Safe schema Inv post (L.write T x row)) :
    (write T x row refused next).Safe schema Inv post L :=
  ⟨hheld, fun rows hsees hrefs => h ⟨rows, hsees, hrefs⟩⟩

/-- **Rule for a statement on a row the session has locked before**: it finds this row. -/
theorem Program.safe_modify_held {filter : κ T → ρ T → Bool} {set : ρ T → Option (ρ T)}
    {refused : Violation → ε} {post : List (κ T × ρ T) → Local κ ρ → Prop} {x : κ T} {row : ρ T}
    {old : Option (ρ T)} (hheld : L.held ⟨T, x⟩ = some (old, some row))
    (hfilter : filter x row = true) (hone : SelectsOne schema filter)
    (h : L.Refers schema Inv T (set row) → post [(x, row)] (L.write T x (set row))) :
    (modify T filter set refused).Safe schema Inv post L := by
  apply safe_bind
  intro rows hsees
  have hview : L.view rows ⟨T, x⟩ = some row := by simp [Local.view, hheld]
  have hkeys : x ∈ schema.keys T := hsees.inKeys ⟨T, x⟩ (by simp [hheld])
  rw [candidates_eq_singleton hsees.unique hone hkeys hview hfilter, FetchSafe,
    if_neg (by simp [Selection.full])]
  simp only [hheld, hfilter, if_true]
  apply safe_bind
  apply safe_write (by simp [hheld])
  exact h

/-- **Rule for a statement that selects at most one row**, none of which is locked yet. -/
theorem Program.safe_modify_one {filter : κ T → ρ T → Bool} {set : ρ T → Option (ρ T)}
    {refused : Violation → ε} {post : List (κ T × ρ T) → Local κ ρ → Prop}
    (hfresh : ∀ x, L.held ⟨T, x⟩ = none) (hone : SelectsOne schema filter) (hnone : post [] L)
    (hsome : ∀ x row, filter x row = true →
      (L.acquire T x row).Refers schema Inv T (set row) →
        post [(x, row)] ((L.acquire T x row).write T x (set row))) :
    (modify T filter set refused).Safe schema Inv post L := by
  apply safe_bind
  apply safe_select_one hfresh (Or.inl hone)
  · exact hnone
  · intro x row hfilter
    apply safe_bind
    apply safe_write
    · simp [Local.acquire]
    · exact hsome x row hfilter

/-- **Rule for a statement on one row by its primary key**. It misses the row only when there
is none. -/
theorem Program.safe_modify_key {filter : κ T → ρ T → Bool} {set : ρ T → Option (ρ T)}
    {refused : Violation → ε} {post : List (κ T × ρ T) → Local κ ρ → Prop} {x : κ T}
    (hfilter : ∀ y row, filter y row = decide (y = x)) (hfree : L.held ⟨T, x⟩ = none)
    (hmissing : (x ∉ schema.keys T ∨ ∃ rows, L.Sees schema Inv rows ∧ rows ⟨T, x⟩ = none) →
      post [] L)
    (h : ∀ row, post [(x, row)] ((L.acquire T x row).write T x (set row))) :
    (modify T filter set refused).Safe schema Inv post L := by
  have hone : SelectsOne schema filter := by
    intro y z a b hy hz
    rw [hfilter, decide_eq_true_eq] at hy hz
    exact Or.inl (hy.trans hz.symm)
  have hfetch : FetchSafe schema Inv { filter := filter }
      (fun found L => ((writeAll T set refused found).bind fun _ =>
        (done found : Program κ ρ ε _)).Safe schema Inv post L) [x] [] L := by
    rw [FetchSafe, if_neg (by simp [Selection.full])]
    simp only [hfree]
    constructor
    · -- The statement passes the row by only when it is gone.
      intro rows hsees hskip
      apply hmissing
      refine Or.inr ⟨rows, hsees, ?_⟩
      rcases hskip with hmode | hnone
      · cases hmode
      · rcases hrow : rows ⟨T, x⟩ with _ | row
        · rfl
        · have hsel := hnone row hrow
          rw [hfilter] at hsel
          simp at hsel
    · intro rows hsees row hrow hsel
      apply safe_bind
      apply safe_write
      · simp [Local.acquire]
      · intro _
        exact h row
  apply safe_bind
  intro rows hsees
  have hview : L.view rows ⟨T, x⟩ = rows ⟨T, x⟩ := by simp [Local.view, hfree]
  by_cases hfound : x ∈ schema.keys T ∧ ∃ row, rows ⟨T, x⟩ = some row
  · obtain ⟨hkeys, row, hrow⟩ := hfound
    rw [candidates_eq_singleton hsees.unique hone hkeys (hview.trans hrow) (by simp [hfilter])]
    exact hfetch
  · have hempty : World.candidates schema { filter := filter } (L.view rows) = [] := by
      apply List.eq_nil_iff_forall_not_mem.mpr
      intro y hy
      obtain ⟨hkeys, row, hrow, hsel⟩ := mem_candidates.mp hy
      have hyx : y = x := by simpa [hfilter] using hsel
      subst hyx
      exact hfound ⟨hkeys, row, hview ▸ hrow⟩
    rw [hempty]
    apply hmissing
    by_cases hkeys : x ∈ schema.keys T
    · refine Or.inr ⟨rows, hsees, ?_⟩
      rcases hrow : rows ⟨T, x⟩ with _ | row
      · rfl
      · exact absurd ⟨hkeys, row, hrow⟩ hfound
    · exact Or.inl hkeys

theorem Program.safe_writeAll {set : ρ T → Option (ρ T)} {refused : Violation → ε}
    {found : List (κ T × ρ T)} {post : Unit → Local κ ρ → Prop}
    (hheld : ∀ e ∈ found, L.held ⟨T, e.1⟩ ≠ none) (h : post () (L.writeAll T set found)) :
    (writeAll T set refused found).Safe schema Inv post L := by
  induction found generalizing L with
  | nil => exact h
  | cons e rest ih =>
    apply safe_write (hheld e List.mem_cons_self)
    intro _
    apply ih
    · intro d hd
      show Function.update L.held ⟨T, e.1⟩ _ ⟨T, d.1⟩ ≠ none
      by_cases hde : (⟨T, d.1⟩ : Ref κ) = ⟨T, e.1⟩
      · rw [hde, Function.update_self]
        simpa using hheld e List.mem_cons_self
      · rw [Function.update_of_ne hde]
        exact hheld d (List.mem_cons_of_mem _ hd)
    · exact h

end Rules

end Nzovu.Foundation
