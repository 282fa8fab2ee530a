import Mathlib.Data.List.Count
import Mathlib.Data.List.Sort
import Mathlib.Order.Defs.LinearOrder
import Nzovu.Foundation.Run

/-!
# Keyset Pagination

A list is read page by page: each request returns the next rows in the order of their keys, and the
key of the last row as the cursor of the following request. The rows may change between requests.
As long as no row changes its key, a traversal returns keys in increasing order, and every row that
is there at each request exactly once.

- Section 1: one page.
- Section 2: what a page returns and what it leaves.
- Section 3: traversals.
- Section 4: a machine whose requests are answered with pages and tokens.
-/

namespace Nzovu.Foundation

universe u v w

/-- Sorting by an order that is written in another way. -/
theorem insertionSort_congr {α : Type u} {r r' : α → α → Prop} [DecidableRel r] [DecidableRel r']
    (h : ∀ a b, r a b ↔ r' a b) (items : List α) :
    items.insertionSort r = items.insertionSort r' := by
  obtain rfl : r = r' := funext fun a => funext fun b => propext (h a b)
  congr!

/-! ## Section 1: Pages -/

section Keyset

variable {α : Type u} {κ : Type v} [LinearOrder κ] (key : α → κ)

/-- The key lies behind the cursor; without a cursor every key does. -/
def Beyond (cursor : Option κ) (k : κ) : Prop := ∀ c, cursor = some c → c < k

@[simp] theorem beyond_none (k : κ) : Beyond none k := fun _ h => by cases h

@[simp] theorem beyond_some {c k : κ} : Beyond (some c) k ↔ c < k :=
  ⟨fun h => h c rfl, fun h _ hc => by cases hc; exact h⟩

instance (cursor : Option κ) (k : κ) : Decidable (Beyond cursor k) :=
  match cursor with
  | none => .isTrue (beyond_none k)
  | some _ => decidable_of_iff _ beyond_some.symm

/-- `WHERE key > cursor ORDER BY key`. -/
def remaining (cursor : Option κ) (view : List α) : List α :=
  (view.filter fun a => Beyond cursor (key a)).insertionSort fun a b => key a ≤ key b

/-- A page of at most `limit` rows with the next cursor: one row more is read to see whether any is
left. -/
def page (cursor : Option κ) (limit : Nat) (view : List α) : List α × Option κ :=
  let found := (remaining key cursor view).take (limit + 1)
  if found.length ≤ limit then (found, none)
  else (found.take limit, (found[limit - 1]?).map key)

/-! ## Section 2: What a page returns -/

variable {key} {cursor : Option κ} {limit : Nat} {view : List α}

theorem mem_remaining {a : α} :
    a ∈ remaining key cursor view ↔ a ∈ view ∧ Beyond cursor (key a) := by
  simp [remaining]

variable (cursor) in
/-- Rows with different keys come in strictly increasing order. -/
theorem remaining_pairwise (hkeys : (view.map key).Nodup) :
    (remaining key cursor view).Pairwise fun a b => key a < key b := by
  have hsorted : (remaining key cursor view).Pairwise fun a b => key a ≤ key b :=
    have : Std.Total fun a b : α => key a ≤ key b := ⟨fun a b => le_total (key a) (key b)⟩
    have : IsTrans α fun a b => key a ≤ key b := ⟨fun _ _ _ => le_trans⟩
    List.pairwise_insertionSort _ _
  have hperm := List.perm_insertionSort (fun a b => key a ≤ key b)
    (view.filter fun a => Beyond cursor (key a))
  have hdistinct : ((remaining key cursor view).map key).Nodup :=
    (hperm.map key).nodup_iff.mpr (hkeys.sublist (List.filter_sublist.map key))
  rw [List.Nodup, List.pairwise_map] at hdistinct
  exact hsorted.imp₂ (fun _ _ hle hne => lt_of_le_of_ne hle hne) hdistinct

/-- The last page holds all that is left. -/
theorem page_last {items : List α} (h : page key cursor limit view = (items, none)) :
    items = remaining key cursor view := by
  simp only [page] at h
  split at h
  · rename_i hlength
    obtain ⟨rfl, -⟩ := Prod.mk.inj h
    rw [List.length_take] at hlength
    exact List.take_of_length_le (by omega)
  · rename_i hlength
    obtain ⟨-, hnone⟩ := Prod.mk.inj h
    rw [Option.map_eq_none_iff, List.getElem?_eq_none_iff] at hnone
    omega

/-- A page with a cursor ends in the row the cursor names. -/
theorem page_next {items : List α} {c : κ} (hlimit : 0 < limit)
    (h : page key cursor limit view = (items, some c)) :
    ∃ before last after, items = before ++ [last] ∧ key last = c ∧
      remaining key cursor view = before ++ last :: after := by
  simp only [page] at h
  split at h
  · cases h
  · rename_i hlength
    obtain ⟨rfl, hsome⟩ := Prod.mk.inj h
    rw [List.length_take] at hlength
    obtain ⟨last, hlast, rfl⟩ := Option.map_eq_some_iff.mp hsome
    generalize remaining key cursor view = rest at hlength hlast ⊢
    rw [List.getElem?_take_of_lt (by omega)] at hlast
    obtain ⟨hlt, hget⟩ := List.getElem?_eq_some_iff.mp hlast
    refine ⟨rest.take (limit - 1), last, rest.drop limit, ?_, rfl, ?_⟩
    · rw [List.take_take, ← hget, List.take_append_getElem]
      congr 1
      omega
    · have hsplit := List.take_append_drop (limit - 1) rest
      rw [List.drop_eq_getElem_cons hlt, hget] at hsplit
      have hsucc : limit - 1 + 1 = limit := by omega
      rw [hsucc] at hsplit
      exact hsplit.symm

/-- A page is the beginning of what is left. -/
theorem page_starts {items : List α} {next : Option κ}
    (h : page key cursor limit view = (items, next)) : items <+: remaining key cursor view := by
  simp only [page] at h
  split at h <;> obtain ⟨rfl, -⟩ := Prod.mk.inj h
  · exact List.take_prefix _ _
  · exact (List.take_prefix _ _).trans (List.take_prefix _ _)

/-- A page returns rows of the view behind the cursor. -/
theorem mem_of_mem_page {items : List α} {next : Option κ} {a : α}
    (h : page key cursor limit view = (items, next)) (ha : a ∈ items) :
    a ∈ view ∧ Beyond cursor (key a) :=
  mem_remaining.mp ((page_starts h).subset ha)

/-! ## Section 3: Traversals -/

variable (key)

/-- Requests that follow the cursors: the rows each of them meets, the rows they return altogether,
and the cursor the last one returns. -/
inductive Traversal : Option κ → List (List α) → List α → Option κ → Prop where
  | page {cursor next : Option κ} {view items : List α} {limit : Nat} (hlimit : 0 < limit)
      (h : page key cursor limit view = (items, next)) : Traversal cursor [view] items next
  | more {cursor next : Option κ} {c : κ} {view items rest : List α} {limit : Nat}
      {views : List (List α)} (hlimit : 0 < limit)
      (h : Foundation.page key cursor limit view = (items, some c))
      (hrest : Traversal (some c) views rest next) :
      Traversal cursor (view :: views) (items ++ rest) next

variable {key} {views : List (List α)} {items : List α} {next : Option κ}

/-- A traversal returns only rows that a request meets. -/
theorem Traversal.mem_view (h : Traversal key cursor views items next) :
    ∀ a ∈ items, ∃ view ∈ views, a ∈ view := by
  induction h with
  | page _ h =>
    exact fun a ha => ⟨_, List.mem_cons_self, (mem_of_mem_page h ha).1⟩
  | more _ h _ ih =>
    intro a ha
    rcases List.mem_append.mp ha with ha | ha
    · exact ⟨_, List.mem_cons_self, (mem_of_mem_page h ha).1⟩
    · obtain ⟨view, hview, hmem⟩ := ih a ha
      exact ⟨view, List.mem_cons_of_mem _ hview, hmem⟩

/-- A traversal returns only rows behind its cursor. -/
theorem Traversal.beyond (h : Traversal key cursor views items next) :
    ∀ a ∈ items, Beyond cursor (key a) := by
  induction h with
  | page _ h => exact fun a ha => (mem_of_mem_page h ha).2
  | @more cursor _ _ _ items _ _ _ hlimit h _ ih =>
    have hitems : ∀ a ∈ items, Beyond cursor (key a) := fun a ha => (mem_of_mem_page h ha).2
    obtain ⟨before, last, after, rfl, rfl, -⟩ := page_next hlimit h
    intro a ha
    rcases List.mem_append.mp ha with ha | ha
    · exact hitems a ha
    · -- Later pages lie behind the last row of this one.
      intro c hc
      exact lt_trans (hitems last (by simp) c hc) (ih a ha (key last) rfl)

/-- **Order**: the keys of a traversal increase. -/
theorem Traversal.increasing (h : Traversal key cursor views items next)
    (hviews : ∀ view ∈ views, (view.map key).Nodup) :
    items.Pairwise fun a b => key a < key b := by
  induction h with
  | page _ h =>
    exact (remaining_pairwise _ (hviews _ List.mem_cons_self)).sublist (page_starts h).sublist
  | @more cursor _ _ view _ _ _ _ hlimit h hrest ih =>
    obtain ⟨hview, hviews⟩ := List.forall_mem_cons.mp hviews
    have hpage := (remaining_pairwise cursor hview).sublist (page_starts h).sublist
    obtain ⟨before, last, after, rfl, rfl, -⟩ := page_next hlimit h
    refine List.pairwise_append.mpr ⟨hpage, ih hviews, fun a ha b hb => ?_⟩
    have hbehind : key last < key b := hrest.beyond b hb _ rfl
    rcases List.mem_append.mp ha with hbefore | hlast
    · have hle := (List.pairwise_append.mp hpage).2.2 a hbefore last (by simp)
      exact lt_trans hle hbehind
    · rw [List.mem_singleton.mp hlast]
      exact hbehind

/-- **Completeness**: when no cursor is left, a row that every request met, and that lay behind the
cursor, was returned. -/
theorem Traversal.complete (h : Traversal key cursor views items next) (hnext : next = none)
    (hviews : ∀ view ∈ views, (view.map key).Nodup) {k : κ}
    (hstays : ∀ view ∈ views, ∃ a ∈ view, key a = k) (hbeyond : Beyond cursor k) :
    ∃ a ∈ items, key a = k := by
  induction h with
  | page _ h =>
    subst hnext
    obtain ⟨a, ha, rfl⟩ := hstays _ List.mem_cons_self
    rw [page_last h]
    exact ⟨a, mem_remaining.mpr ⟨ha, hbeyond⟩, rfl⟩
  | @more cursor _ _ view _ _ _ _ hlimit h hrest ih =>
    obtain ⟨hview, hviews⟩ := List.forall_mem_cons.mp hviews
    obtain ⟨⟨a, ha, rfl⟩, hstays⟩ := List.forall_mem_cons.mp hstays
    obtain ⟨before, last, after, rfl, rfl, hrem⟩ := page_next hlimit h
    have hmem : a ∈ remaining key cursor view := mem_remaining.mpr ⟨ha, hbeyond⟩
    have hsorted := remaining_pairwise cursor hview
    rw [hrem, List.append_cons] at hmem hsorted
    rcases List.mem_append.mp hmem with hpage | hafter
    · exact ⟨a, List.mem_append_left _ hpage, rfl⟩
    · have hlater : key last < key a :=
        (List.pairwise_append.mp hsorted).2.2 last (by simp) a hafter
      obtain ⟨b, hb, hkey⟩ := ih hnext hviews hstays (beyond_some.mpr hlater)
      exact ⟨b, List.mem_append_right _ hb, hkey⟩

end Keyset

/-! ## Section 4: Machines -/

section Machine

variable {σ α γ δ τ κ ι ε : Type u} (step : σ → δ → σ)
  (request : σ → γ → Option τ → Except ε (List α × Option τ))

/-- Requests that follow each other's tokens, each after further operations of the machine: the
states they meet with their parameters, the items they return, and the last token. -/
inductive Paging : σ → Option τ → List (σ × γ) → List α → Option τ → Prop where
  | page {s : σ} {token next : Option τ} {items : List α} (ops : List δ) (c : γ)
      (h : request (runFrom step s ops) c token = .ok (items, next)) :
      Paging s token [(runFrom step s ops, c)] items next
  | more {s : σ} {token next : Option τ} {t : τ} {items rest : List α} {visits : List (σ × γ)}
      (ops : List δ) (c : γ) (h : request (runFrom step s ops) c token = .ok (items, some t))
      (hrest : Paging (runFrom step s ops) (some t) visits rest next) :
      Paging s token ((runFrom step s ops, c) :: visits) (items ++ rest) next

/-- Requests answered with keyset pages. A token `resumes` behind a cursor; `ident` names a row for
good, and while it is in view its key does not change. -/
structure ServesPages [LinearOrder κ] (inv : σ → Prop) (key : α → κ) (ident : α → ι)
    (view : σ → γ → List α) (resumes : Option τ → Option κ → Prop) : Prop where
  keeps : ∀ s op, inv s → inv (step s op)
  page : ∀ {s c token cursor items next}, inv s → resumes token cursor →
    request s c token = .ok (items, next) → ∃ limit next', 0 < limit ∧
      page key cursor limit (view s c) = (items, next') ∧ (next = none → next' = none) ∧
      ∀ t, next = some t → ∃ k, next' = some k ∧ resumes (some t) (some k)
  keys : ∀ s c, inv s → ((view s c).map key).Nodup
  stable : ∀ s ops c c', inv s → ∀ a ∈ view s c, ∀ b ∈ view (runFrom step s ops) c',
    ident a = ident b → key a = key b

variable {step request} {s : σ} {token next : Option τ} {visits : List (σ × γ)} {items : List α}

/-- The states of the requests are states of the machine, each reached from those before it. -/
theorem Paging.reached (h : Paging step request s token visits items next) :
    (∀ v ∈ visits, ∃ ops, v.1 = runFrom step s ops) ∧
      visits.Pairwise fun v w => ∃ ops, w.1 = runFrom step v.1 ops := by
  induction h with
  | page ops c h => simp
  | more ops c h hrest ih =>
    refine ⟨List.forall_mem_cons.mpr ⟨⟨ops, rfl⟩, fun v hv => ?_⟩, List.pairwise_cons.mpr ih⟩
    obtain ⟨later, hlater⟩ := ih.1 v hv
    exact ⟨ops ++ later, by rw [hlater, runFrom_append]⟩

theorem Paging.answered (h : Paging step request s token visits items next) :
    ∃ s' c token' answer, request s' c token' = .ok answer := by
  cases h with
  | page ops c h => exact ⟨_, _, _, _, h⟩
  | more ops c h => exact ⟨_, _, _, _, h⟩

variable [LinearOrder κ] {inv : σ → Prop} {key : α → κ} {ident : α → ι}
  {view : σ → γ → List α} {resumes : Option τ → Option κ → Prop} {cursor : Option κ}

namespace ServesPages

variable (hserves : ServesPages step request inv key ident view resumes)

include hserves

theorem traversal (hinv : inv s) (hcursor : resumes token cursor)
    (h : Paging step request s token visits items next) :
    ∃ next', Traversal key cursor (visits.map fun v => view v.1 v.2) items next' ∧
      (next = none → next' = none) := by
  induction h generalizing cursor with
  | page ops c h =>
    have hinv := invariant_runFrom' step inv hserves.keeps hinv ops
    obtain ⟨limit, next', hlimit, hpage, hnone, -⟩ := hserves.page hinv hcursor h
    exact ⟨next', .page hlimit hpage, hnone⟩
  | more ops c h hrest ih =>
    have hinv := invariant_runFrom' step inv hserves.keeps hinv ops
    obtain ⟨limit, next', hlimit, hpage, -, hsome⟩ := hserves.page hinv hcursor h
    obtain ⟨k, rfl, hresumes⟩ := hsome _ rfl
    obtain ⟨last, htraversal, hlast⟩ := ih hinv hresumes
    exact ⟨last, .more hlimit hpage htraversal, hlast⟩

/-- The token of a traversal stands for a cursor. -/
theorem resumes_next (hinv : inv s) (hcursor : resumes token cursor)
    (h : Paging step request s token visits items next) {t : τ} (hnext : next = some t) :
    ∃ k, resumes (some t) (some k) := by
  induction h generalizing cursor with
  | page ops c h =>
    have hinv := invariant_runFrom' step inv hserves.keeps hinv ops
    obtain ⟨_, _, -, -, -, hsome⟩ := hserves.page hinv hcursor h
    obtain ⟨k, -, hresumes⟩ := hsome t hnext
    exact ⟨k, hresumes⟩
  | more ops c h hrest ih =>
    have hinv := invariant_runFrom' step inv hserves.keeps hinv ops
    obtain ⟨_, _, -, -, -, hsome⟩ := hserves.page hinv hcursor h
    obtain ⟨k, -, hresumes⟩ := hsome _ rfl
    exact ih hinv hresumes hnext

/-- A row has the same key wherever the requests meet it. -/
theorem key_eq (hinv : inv s) (h : Paging step request s token visits items next) :
    ∀ v ∈ visits, ∀ w ∈ visits, ∀ a ∈ view v.1 v.2, ∀ b ∈ view w.1 w.2,
      ident a = ident b → key a = key b := by
  obtain ⟨hreached, hordered⟩ := h.reached
  have hinvs : ∀ v ∈ visits, inv v.1 := fun v hv => by
    obtain ⟨ops, hops⟩ := hreached v hv
    exact hops ▸ invariant_runFrom' step inv hserves.keeps hinv ops
  have hlater : visits.Pairwise fun v w => ∀ a ∈ view v.1 v.2, ∀ b ∈ view w.1 w.2,
      ident a = ident b → key a = key b := by
    refine hordered.imp_of_mem fun {v w} hv _ hvw => ?_
    obtain ⟨ops, hops⟩ := hvw
    rw [hops]
    exact hserves.stable v.1 ops v.2 w.2 (hinvs v hv)
  have hearlier : visits.Pairwise fun v w => ∀ b ∈ view w.1 w.2, ∀ a ∈ view v.1 v.2,
      ident b = ident a → key b = key a :=
    hlater.imp fun {v w} hvw b hb a ha hba => (hvw a ha b hb hba.symm).symm
  exact fun v hv w hw => List.Pairwise.forall_of_forall_of_flip
    (fun v hv => hserves.stable v.1 [] v.2 v.2 (hinvs v hv)) hlater hearlier hv hw

/-- **Pagination rule**: the items come in increasing order of their keys and none twice; when no
token is left, every row that each request had in view, behind the first cursor, came once. -/
theorem exact [BEq ι] [LawfulBEq ι] (hinv : inv s) (hcursor : resumes token cursor)
    (h : Paging step request s token visits items next) :
    items.Pairwise (fun a b => key a < key b) ∧ (items.map ident).Nodup ∧
      (next = none → ∀ i, (∀ v ∈ visits, ∃ a ∈ view v.1 v.2, ident a = i ∧
        Beyond cursor (key a)) → (items.map ident).count i = 1) := by
  obtain ⟨next', htraversal, hlast⟩ := hserves.traversal hinv hcursor h
  have hsame := hserves.key_eq hinv h
  have hviews : ∀ rows ∈ visits.map fun v => view v.1 v.2, (rows.map key).Nodup := by
    intro rows hrows
    obtain ⟨v, hv, rfl⟩ := List.mem_map.mp hrows
    obtain ⟨ops, hops⟩ := h.reached.1 v hv
    exact hserves.keys v.1 v.2 (hops ▸ invariant_runFrom' step inv hserves.keeps hinv ops)
  have hincreasing := htraversal.increasing hviews
  have hseen : ∀ a ∈ items, ∃ v ∈ visits, a ∈ view v.1 v.2 := fun a ha => by
    obtain ⟨rows, hrows, hmem⟩ := htraversal.mem_view a ha
    obtain ⟨v, hv, rfl⟩ := List.mem_map.mp hrows
    exact ⟨v, hv, hmem⟩
  have hnodup : (items.map ident).Nodup := by
    refine List.pairwise_map.mpr (hincreasing.imp_of_mem fun {a b} ha hb hlt hab => ?_)
    obtain ⟨v, hv, hav⟩ := hseen a ha
    obtain ⟨w, hw, hbw⟩ := hseen b hb
    exact absurd (hsame v hv w hw a hav b hbw hab) hlt.ne
  refine ⟨hincreasing, hnodup, fun hnone i hstays => ?_⟩
  have hmem : i ∈ items.map ident := by
    -- The key the row has at the first request is its key at all of them.
    cases hvisits : visits with
    | nil => exact absurd hvisits (by cases h <;> simp)
    | cons first others =>
      have hfirst : first ∈ visits := hvisits ▸ List.mem_cons_self
      obtain ⟨a, ha, hident, hbeyond⟩ := hstays first hfirst
      have hkeys : ∀ rows ∈ visits.map fun v => view v.1 v.2, ∃ b ∈ rows, key b = key a := by
        intro rows hrows
        obtain ⟨v, hv, rfl⟩ := List.mem_map.mp hrows
        obtain ⟨b, hb, hident', -⟩ := hstays v hv
        exact ⟨b, hb, hsame v hv first hfirst b hb a ha (hident'.trans hident.symm)⟩
      obtain ⟨b, hb, hkey⟩ := htraversal.complete (hlast hnone) hviews hkeys hbeyond
      obtain ⟨v, hv, hbv⟩ := hseen b hb
      obtain ⟨d, hd, hdident, -⟩ := hstays v hv
      have hdkey := hsame v hv first hfirst d hd a ha (hdident.trans hident.symm)
      have hbd : b = d := by
        have hinj := hviews _ (List.mem_map.mpr ⟨v, hv, rfl⟩)
        exact List.inj_on_of_nodup_map hinj hbv hd (hkey.trans hdkey.symm)
      exact List.mem_map.mpr ⟨b, hb, by rw [hbd, hdident]⟩
  exact List.count_eq_one_of_mem hnodup hmem

end ServesPages

end Machine

end Nzovu.Foundation
