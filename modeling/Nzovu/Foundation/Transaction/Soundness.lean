import Nzovu.Foundation.Transaction.Logic

/-!
# Soundness of the Program Logic

If every session starts safe, then in every world a scheduler can produce each running session
is still safe in what it knows, and every commit satisfies its postcondition. The argument is
the usual one for locks: a step of one session leaves alone what the others have locked.

- Section 1: the consistency of locks, versions and UNIQUE indexes.
- Section 2: what each kind of step preserves.
- Section 3: the step lemma, and what a step can do to the committed rows.
-/

namespace Nzovu.Foundation

namespace World

variable {τ : Type} {κ ρ : τ → Type} {ε α : Type}

/-! ## Section 1: Consistent worlds -/

/-- What session `t` knows in the world, when it last looked at the clock at `clock`. -/
def localOf (w : World κ ρ ε α) (t : Nat) (clock : Int) : Local κ ρ where
  clock := clock
  held := fun i => if w.owner i = some t then some (w.rows i, w.view t i) else none
  seen := (w.session t).seen

/-- Locks, versions and UNIQUE indexes fit together. -/
structure Consistent (schema : Schema κ ρ) (w : World κ ρ ε α) : Prop where
  versions : ∀ t i, (w.session t).version i ≠ none → w.owner i = some t
  inKeys : ∀ i t, w.owner i = some t → i.2 ∈ schema.keys i.1
  seen : ∀ t s, (w.session t).seen = some s → ∀ i, s.locked i = true → w.owner i = some t
  uniqueRows : schema.Unique w.rows
  uniqueView : ∀ t, schema.Unique (w.view t)
  /-- Uncommitted versions of different sessions do not clash. -/
  apart : ∀ t t', t ≠ t' → ∀ T x y, x ≠ y → ∀ a b, (w.session t).version ⟨T, x⟩ = some (some a) →
    (w.session t').version ⟨T, y⟩ = some (some b) → schema.clash T a b = false

variable {schema : Schema κ ρ} {w : World κ ρ ε α} {t t' : Nat}

theorem view_of_version_none {i : Ref κ} (h : (w.session t).version i = none) :
    w.view t i = w.rows i := by
  simp [view, h]

theorem view_of_version {i : Ref κ} {v : Option (ρ i.1)}
    (h : (w.session t).version i = some v) : w.view t i = v := by
  simp [view, h]

theorem Consistent.view_of_unowned (h : Consistent schema w) {i : Ref κ}
    (howner : w.owner i ≠ some t) : w.view t i = w.rows i := by
  apply view_of_version_none
  by_contra hversion
  exact howner (h.versions t i hversion)

/-- A session sees its own versions of what it holds, and the committed rows elsewhere. -/
theorem Consistent.localOf_view (h : Consistent schema w) (t : Nat) (clock : Int) :
    (w.localOf t clock).view w.rows = w.view t := by
  funext i
  by_cases howner : w.owner i = some t
  · simp [localOf, Local.view, howner]
  · simp [localOf, Local.view, howner, h.view_of_unowned howner]

theorem Consistent.sees {Inv : Store κ ρ → Prop} (h : Consistent schema w) (hinv : Inv w.rows)
    (t : Nat) (clock : Int) : (w.localOf t clock).Sees schema Inv w.rows := by
  refine ⟨hinv, ?_, ?_, ?_⟩
  · intro i old new hheld
    by_cases howner : w.owner i = some t
    · simp only [localOf, howner, if_true, Option.some.injEq, Prod.mk.injEq] at hheld
      exact hheld.1
    · simp [localOf, howner] at hheld
  · rw [h.localOf_view]
    exact h.uniqueView t
  · intro i hheld
    by_cases howner : w.owner i = some t
    · exact h.inKeys i t howner
    · simp [localOf, howner] at hheld

/-! ## Section 2: Steps of one session -/

section Steps

@[simp] theorem session_proceed (p : Program κ ρ ε α) :
    (w.proceed t p).session t = { w.session t with status := .running p } := by
  simp [proceed]

theorem session_proceed_ne (p : Program κ ρ ε α) (h : t' ≠ t) :
    (w.proceed t p).session t' = w.session t' := by
  simp [proceed, h]

theorem version_proceed (p : Program κ ρ ε α) (t' : Nat) :
    ((w.proceed t p).session t').version = (w.session t').version := by
  by_cases h : t' = t
  · subst h
    simp
  · rw [session_proceed_ne p h]

theorem seen_proceed (p : Program κ ρ ε α) (t' : Nat) :
    ((w.proceed t p).session t').seen = (w.session t').seen := by
  by_cases h : t' = t
  · subst h
    simp
  · rw [session_proceed_ne p h]

@[simp] theorem view_proceed (p : Program κ ρ ε α) (t' : Nat) :
    (w.proceed t p).view t' = w.view t' := by
  funext i
  simp only [view, version_proceed]
  rfl

@[simp] theorem localOf_proceed (p : Program κ ρ ε α) (t' : Nat) (clock : Int) :
    (w.proceed t p).localOf t' clock = w.localOf t' clock := by
  simp only [localOf, view_proceed, seen_proceed]
  rfl

theorem Consistent.proceed (h : Consistent schema w) (p : Program κ ρ ε α) :
    Consistent schema (w.proceed t p) := by
  obtain ⟨hversions, hkeys, hseen, hrows, hview, hapart⟩ := h
  refine ⟨?_, hkeys, ?_, hrows, ?_, ?_⟩
  · intro t' i hversion
    rw [version_proceed] at hversion
    exact hversions t' i hversion
  · intro t' s hs
    rw [seen_proceed] at hs
    exact hseen t' s hs
  · intro t'
    rw [view_proceed]
    exact hview t'
  · intro t₁ t₂
    simp only [version_proceed]
    exact hapart t₁ t₂

/-! ### Reading -/

theorem Consistent.observe (h : Consistent schema w) : Consistent schema (w.observe t) := by
  have hversion : ∀ t', ((w.observe t).session t').version = (w.session t').version := by
    intro t'
    by_cases ht : t' = t
    · subst ht
      simp [World.observe]
    · simp [World.observe, ht]
  have hview : ∀ t', (w.observe t).view t' = w.view t' := by
    intro t'
    funext i
    simp only [view, hversion]
    rfl
  obtain ⟨hversions, hkeys, hseen, hrows, huview, hapart⟩ := h
  refine ⟨?_, hkeys, ?_, hrows, ?_, ?_⟩
  · intro t' i hv
    rw [hversion] at hv
    exact hversions t' i hv
  · intro t' s hs i hlocked
    by_cases ht : t' = t
    · subst ht
      simp only [World.observe, Function.update_self, Option.some.injEq] at hs
      subst hs
      show w.owner i = some t'
      simpa using hlocked
    · simp only [World.observe, ht, ne_eq, not_false_eq_true, Function.update_of_ne] at hs
      exact hseen t' s hs i hlocked
  · intro t'
    rw [hview]
    exact huview t'
  · intro t₁ t₂
    simp only [hversion]
    exact hapart t₁ t₂

theorem localOf_observe_ne (hne : t' ≠ t) (clock : Int) :
    (w.observe t).localOf t' clock = w.localOf t' clock := by
  have hsession : (w.observe t).session t' = w.session t' := by simp [World.observe, hne]
  simp only [localOf, view, hsession]
  rfl

theorem localOf_observe (clock : Int) :
    (w.observe t).localOf t w.clock = (w.localOf t clock).observe w.rows w.clock := by
  have hview : (w.observe t).view t = w.view t := by
    funext i
    simp [view, World.observe]
  have hseen : ((w.observe t).session t).seen =
      some ⟨w.rows, fun i => w.owner i = some t, w.clock⟩ := by
    simp [World.observe]
  simp only [localOf, Local.observe, hview, hseen, Local.mk.injEq, true_and]
  refine ⟨rfl, ?_⟩
  congr 2
  funext i
  by_cases howner : w.owner i = some t <;> simp [howner]

/-! ### Ending -/

theorem session_release (status : Status κ ρ ε α) :
    (w.release t status).session t = ⟨status, fun _ => none, none⟩ := by
  simp [release]

theorem session_release_ne (status : Status κ ρ ε α) (hne : t' ≠ t) :
    (w.release t status).session t' = w.session t' := by
  simp [release, hne]

theorem owner_release {i : Ref κ} (status : Status κ ρ ε α) (hne : t' ≠ t) :
    ((w.release t status).owner i = some t') = (w.owner i = some t') := by
  by_cases howner : w.owner i = some t
  · simp [release, howner, Ne.symm hne]
  · simp [release, howner]

theorem version_release {status : Status κ ρ ε α} {i : Ref κ} {v : Option (ρ i.1)}
    (h : ((w.release t status).session t').version i = some v) :
    t' ≠ t ∧ (w.session t').version i = some v := by
  by_cases ht : t' = t
  · subst ht
    rw [session_release] at h
    cases h
  · rw [session_release_ne _ ht] at h
    exact ⟨ht, h⟩

/-- What stays after a session ended, whether or not it installed its versions. -/
theorem Consistent.release_locks (h : Consistent schema w) (status : Status κ ρ ε α) :
    (∀ t' i, ((w.release t status).session t').version i ≠ none →
      (w.release t status).owner i = some t') ∧
    (∀ i t', (w.release t status).owner i = some t' → i.2 ∈ schema.keys i.1) ∧
    ∀ t' s, ((w.release t status).session t').seen = some s → ∀ i, s.locked i = true →
      (w.release t status).owner i = some t' := by
  refine ⟨?_, ?_, ?_⟩
  · intro t' i hversion
    obtain ⟨v, hv⟩ := Option.ne_none_iff_exists'.mp hversion
    -- Only the session that ends has lost its versions, and with them its locks.
    obtain ⟨hne, hv⟩ := version_release hv
    rw [owner_release status hne]
    exact h.versions t' i (by simp [hv])
  · intro i t' howner
    by_cases hi : w.owner i = some t
    · exact h.inKeys i t hi
    · simp only [release, hi, if_false] at howner
      exact h.inKeys i t' howner
  · intro t' s hs i hlocked
    by_cases ht : t' = t
    · subst ht
      rw [session_release] at hs
      cases hs
    · rw [session_release_ne _ ht] at hs
      rw [owner_release status ht]
      exact h.seen t' s hs i hlocked

theorem Consistent.release (h : Consistent schema w) (status : Status κ ρ ε α) :
    Consistent schema (w.release t status) := by
  obtain ⟨hversions, hkeys, hseen⟩ := h.release_locks (t := t) status
  refine ⟨hversions, hkeys, hseen, h.uniqueRows, ?_, ?_⟩
  · intro t'
    by_cases ht : t' = t
    · subst ht
      have hview : (w.release t' status).view t' = w.rows := by
        funext i
        simp only [view, session_release]
        rfl
      rw [hview]
      exact h.uniqueRows
    -- The others see committed rows and their own versions, and neither has changed.
    · have hview : (w.release t status).view t' = w.view t' := by
        funext i
        simp only [view, session_release_ne _ ht]
        rfl
      rw [hview]
      exact h.uniqueView t'
  · intro t₁ t₂ hne T x y hxy a b ha hb
    exact h.apart t₁ t₂ hne T x y hxy a b (version_release ha).2 (version_release hb).2

theorem localOf_release_ne (status : Status κ ρ ε α) (hne : t' ≠ t) (clock : Int) :
    (w.release t status).localOf t' clock = w.localOf t' clock := by
  simp only [localOf, view, session_release_ne _ hne, owner_release status hne]
  rfl

/-- What another session sees after `t` installed its versions. -/
theorem view_commit (result : α) (hne : t' ≠ t) (i : Ref κ) :
    (w.commit t result).view t' i = ((w.session t').version i).getD (w.view t i) := by
  simp only [view, commit, session_release_ne _ hne]

/-- A row seen by another session after `t` installed its versions clashes with no row that
was committed or that the session has written itself. -/
theorem Consistent.unique_commit (h : Consistent schema w) (result : α) (hne : t' ≠ t) :
    schema.Unique ((w.commit t result).view t') := by
  -- A row `t'` sees is its own version or one that `t` saw.
  have hmixed : ∀ T x y, x ∈ schema.keys T → y ∈ schema.keys T → x ≠ y → ∀ a b,
      (w.session t').version ⟨T, x⟩ = some (some a) → (w.session t').version ⟨T, y⟩ = none →
        w.view t ⟨T, y⟩ = some b → schema.clash T a b = false := by
    intro T x y hx hy hxy a b ha hnone hb
    rcases hversion : (w.session t).version ⟨T, y⟩ with _ | v
    · rw [view_of_version_none hversion] at hb
      refine h.uniqueView t' T x hx y hy hxy a b (view_of_version ha) ?_
      rw [view_of_version_none hnone]
      exact hb
    · rw [view_of_version hversion] at hb
      subst hb
      exact h.apart t' t hne T x y hxy a b ha hversion
  intro T x hx y hy hxy a b ha hb
  rw [view_commit result hne] at ha hb
  -- Each of the two rows is either the version of `t'` or one that `t` has seen.
  rcases hvx : (w.session t').version ⟨T, x⟩ with _ | vx <;>
    rcases hvy : (w.session t').version ⟨T, y⟩ with _ | vy <;>
    simp only [hvx, hvy, Option.getD_none, Option.getD_some] at ha hb
  · exact h.uniqueView t T x hx y hy hxy a b ha hb
  · subst hb
    rw [schema.clash_symm]
    exact hmixed T y x hy hx (Ne.symm hxy) b a hvy hvx ha
  · subst ha
    exact hmixed T x y hx hy hxy a b hvx hvy hb
  · subst ha hb
    exact h.uniqueView t' T x hx y hy hxy a b (view_of_version hvx) (view_of_version hvy)

theorem Consistent.commit (h : Consistent schema w) (result : α) :
    Consistent schema (w.commit t result) := by
  obtain ⟨hversions, hkeys, hseen⟩ := h.release_locks (t := t) (.finished (.ok result))
  refine ⟨hversions, hkeys, hseen, h.uniqueView t, ?_, ?_⟩
  · intro t'
    by_cases ht : t' = t
    · subst ht
      have hview : (w.commit t' result).view t' = w.view t' := by
        funext i
        have hsession : (w.commit t' result).session t' =
            ⟨.finished (.ok result), fun _ => none, none⟩ := session_release _
        simp only [view, hsession]
        rfl
      rw [hview]
      exact h.uniqueView t'
    · exact h.unique_commit result ht
  · intro t₁ t₂ hne T x y hxy a b ha hb
    exact h.apart t₁ t₂ hne T x y hxy a b (version_release ha).2 (version_release hb).2

theorem Consistent.localOf_commit (h : Consistent schema w) (result : α) (hne : t' ≠ t)
    (clock : Int) : (w.commit t result).localOf t' clock = w.localOf t' clock := by
  have hsession : (w.commit t result).session t' = w.session t' := session_release_ne _ hne
  have howner : ∀ i, ((w.commit t result).owner i = some t') = (w.owner i = some t') :=
    fun i => owner_release (.finished (.ok result)) hne
  simp only [localOf, hsession, howner, Local.mk.injEq, true_and, and_true]
  funext i
  by_cases hi : w.owner i = some t'
  · -- A row `t'` holds is not one `t` has written.
    have hrow : w.view t i = w.rows i := by
      apply h.view_of_unowned
      rw [hi]
      simpa using hne
    have hrows : (w.commit t result).rows i = w.rows i := hrow
    simp only [hi, if_true, hrows, view_commit result hne, hrow]
    rfl
  · simp [hi]

/-! ### Locking -/

variable [DecidableEq τ] [∀ T, DecidableEq (κ T)]

theorem Consistent.lock (h : Consistent schema w) {i : Ref κ} (hkeys : i.2 ∈ schema.keys i.1)
    (hfree : w.owner i = none ∨ w.owner i = some t) : Consistent schema (w.lock t i) := by
  -- Whoever owned `i` before the step is `t`.
  have howner : ∀ j t', w.owner j = some t' → (w.lock t i).owner j = some t' := by
    intro j t' hj
    by_cases hji : j = i
    · subst hji
      rcases hfree with hnone | hown
      · rw [hj] at hnone
        cases hnone
      · rw [hj] at hown
        cases hown
        simp [World.lock]
    · simp [World.lock, hji, hj]
  refine ⟨?_, ?_, ?_, h.uniqueRows, h.uniqueView, h.apart⟩
  · intro t' j hversion
    exact howner j t' (h.versions t' j hversion)
  · intro j t' hj
    by_cases hji : j = i
    · subst hji
      exact hkeys
    · simp only [World.lock, hji, ne_eq, not_false_eq_true, Function.update_of_ne] at hj
      exact h.inKeys j t' hj
  · intro t' s hs j hlocked
    exact howner j t' (h.seen t' s hs j hlocked)

theorem localOf_lock_ne {i : Ref κ} (hfree : w.owner i = none ∨ w.owner i = some t)
    (hne : t' ≠ t) (clock : Int) : (w.lock t i).localOf t' clock = w.localOf t' clock := by
  have hheld : ∀ j, ((w.lock t i).owner j = some t') = (w.owner j = some t') := by
    intro j
    by_cases hji : j = i
    · subst hji
      rcases hfree with hnone | hown
      · simp [World.lock, hnone, Ne.symm hne]
      · simp [World.lock, hown, Ne.symm hne]
    · simp [World.lock, hji]
  simp only [localOf, hheld]
  rfl

theorem Consistent.localOf_lock (h : Consistent schema w) {T : τ} {x : κ T} {row : ρ T}
    (hfree : w.owner ⟨T, x⟩ = none) (hrow : w.rows ⟨T, x⟩ = some row) (clock : Int) :
    (w.lock t ⟨T, x⟩).localOf t clock = (w.localOf t clock).acquire T x row := by
  have hview : w.view t ⟨T, x⟩ = some row := by
    rw [h.view_of_unowned (by simp [hfree]), hrow]
  simp only [localOf, Local.acquire, Local.mk.injEq, true_and]
  refine ⟨?_, rfl⟩
  funext j
  by_cases hj : j = ⟨T, x⟩
  · subst hj
    have hview' : (w.lock t ⟨T, x⟩).view t ⟨T, x⟩ = some row := hview
    simp [World.lock, hrow] at hview' ⊢
    exact hview'
  · simp only [World.lock, hj, ne_eq, not_false_eq_true, Function.update_of_ne]
    rfl

/-! ### Writing -/

theorem version_put {i : Ref κ} {row : Option (ρ i.1)} :
    ((w.put t i row).session t).version =
      Function.update (w.session t).version i (some row) := by
  simp [put]

theorem session_put_ne {i : Ref κ} {row : Option (ρ i.1)} (hne : t' ≠ t) :
    (w.put t i row).session t' = w.session t' := by
  simp [put, hne]

theorem view_put {i : Ref κ} {row : Option (ρ i.1)} :
    (w.put t i row).view t = Function.update (w.view t) i row := by
  funext j
  simp only [view, version_put]
  by_cases hj : j = i
  · subst hj
    simp
  · simp only [ne_eq, hj, not_false_eq_true, Function.update_of_ne]
    rfl

theorem view_put_ne {i : Ref κ} {row : Option (ρ i.1)} (hne : t' ≠ t) :
    (w.put t i row).view t' = w.view t' := by
  funext j
  simp only [view, session_put_ne hne]
  rfl

omit [DecidableEq τ] in
theorem clash_of_clashes {T : τ} {x y : κ T} {a b : ρ T} (hfree : w.clashes schema t T x a = false)
    (hy : y ∈ schema.keys T) (hxy : x ≠ y) (hb : w.view t ⟨T, y⟩ = some b) :
    schema.clash T a b = false := by
  simp only [clashes, List.any_eq_false, Bool.and_eq_true, decide_eq_true_eq, not_and] at hfree
  simpa [hb] using hfree y hy (Ne.symm hxy)

omit [DecidableEq τ] in
theorem clash_of_undecided {T : τ} {x y : κ T} {a b : ρ T}
    (hfree : w.undecided schema t T x a = false) (hy : y ∈ schema.keys T) (hxy : x ≠ y)
    (howner : w.owner ⟨T, y⟩ = some t') (hne : t' ≠ t)
    (hb : (w.session t').version ⟨T, y⟩ = some (some b)) : schema.clash T a b = false := by
  simp only [undecided, List.any_eq_false, Bool.and_eq_true, decide_eq_true_eq, not_and] at hfree
  have hrow := hfree y hy (Ne.symm hxy)
  simp only [howner, Option.any_some, hb, Bool.and_eq_true, decide_eq_true_eq, hne, ne_eq,
    not_false_eq_true, true_and, Bool.or_eq_true, not_or, Bool.not_eq_true] at hrow
  exact hrow.1

/-- A row that clashes with no other can be written. -/
theorem unique_update {rows : Store κ ρ} (h : schema.Unique rows) {T : τ} {x : κ T}
    {row : Option (ρ T)}
    (hfree : ∀ a, row = some a → ∀ y ∈ schema.keys T, x ≠ y → ∀ b, rows ⟨T, y⟩ = some b →
      schema.clash T a b = false) :
    schema.Unique (Function.update rows ⟨T, x⟩ row) := by
  intro T' y hy z hz hyz a b ha hb
  by_cases hyx : (⟨T', y⟩ : Ref κ) = ⟨T, x⟩
  · cases hyx
    have hzx : (⟨T, z⟩ : Ref κ) ≠ ⟨T, x⟩ := by
      intro heq
      cases heq
      exact hyz rfl
    rw [Function.update_self] at ha
    rw [Function.update_of_ne hzx] at hb
    exact hfree a ha z hz hyz b hb
  · rw [Function.update_of_ne hyx] at ha
    by_cases hzx : (⟨T', z⟩ : Ref κ) = ⟨T, x⟩
    · cases hzx
      rw [Function.update_self] at hb
      rw [schema.clash_symm]
      exact hfree b hb y hy (Ne.symm hyz) a ha
    · rw [Function.update_of_ne hzx] at hb
      exact h T' y hy z hz hyz a b ha hb

/-- The version just written was compared with those of all other sessions. -/
theorem Consistent.apart_put (h : Consistent schema w) {T : τ} {x : κ T} {row : Option (ρ T)}
    (hundecided : ∀ a, row = some a → w.undecided schema t T x a = false) (hne : t' ≠ t)
    {T' : τ} {y z : κ T'} (hyz : y ≠ z) {a b : ρ T'}
    (ha : ((w.put t ⟨T, x⟩ row).session t).version ⟨T', y⟩ = some (some a))
    (hb : (w.session t').version ⟨T', z⟩ = some (some b)) : schema.clash T' a b = false := by
  rw [version_put] at ha
  by_cases hyx : (⟨T', y⟩ : Ref κ) = ⟨T, x⟩
  · cases hyx
    rw [Function.update_self, Option.some.injEq] at ha
    -- The other session has locked what it has written, so the test of the write has seen it.
    have hz := h.versions t' ⟨T, z⟩ (by simp [hb])
    exact clash_of_undecided (hundecided a ha) (h.inKeys _ _ hz) hyz hz hne hb
  · rw [Function.update_of_ne hyx] at ha
    exact h.apart t t' (Ne.symm hne) T' y z hyz a b ha hb

/-- A write that no UNIQUE index refuses keeps the world consistent. -/
theorem Consistent.put (h : Consistent schema w) {T : τ} {x : κ T} {row : Option (ρ T)}
    (howner : w.owner ⟨T, x⟩ = some t)
    (hundecided : ∀ a, row = some a → w.undecided schema t T x a = false)
    (hclashes : ∀ a, row = some a → w.clashes schema t T x a = false) :
    Consistent schema (w.put t ⟨T, x⟩ row) := by
  refine ⟨?_, h.inKeys, ?_, h.uniqueRows, ?_, ?_⟩
  · intro t' i hversion
    by_cases ht : t' = t
    · subst ht
      rw [version_put] at hversion
      by_cases hi : i = ⟨T, x⟩
      · subst hi
        exact howner
      · rw [Function.update_of_ne hi] at hversion
        exact h.versions t' i hversion
    · rw [session_put_ne ht] at hversion
      exact h.versions t' i hversion
  · intro t' s hs
    by_cases ht : t' = t
    · subst ht
      have hseen : (w.session t').seen = some s := by simpa [World.put] using hs
      exact h.seen t' s hseen
    · rw [session_put_ne ht] at hs
      exact h.seen t' s hs
  · intro t'
    by_cases ht : t' = t
    · subst ht
      rw [view_put]
      exact unique_update (h.uniqueView t') fun a ha y hy hxy b hb =>
        clash_of_clashes (hclashes a ha) hy hxy hb
    · rw [view_put_ne ht]
      exact h.uniqueView t'
  · intro t₁ t₂ ht T' y z hyz a b ha hb
    by_cases h₁ : t₁ = t
    · subst h₁
      rw [session_put_ne (Ne.symm ht)] at hb
      exact h.apart_put hundecided (Ne.symm ht) hyz ha hb
    · rw [session_put_ne h₁] at ha
      by_cases h₂ : t₂ = t
      · subst h₂
        rw [schema.clash_symm]
        exact h.apart_put hundecided ht (Ne.symm hyz) hb ha
      · rw [session_put_ne h₂] at hb
        exact h.apart t₁ t₂ ht T' y z hyz a b ha hb

theorem localOf_put_ne {i : Ref κ} {row : Option (ρ i.1)} (hne : t' ≠ t) (clock : Int) :
    (w.put t i row).localOf t' clock = w.localOf t' clock := by
  simp only [localOf, view_put_ne hne, session_put_ne hne]
  rfl

theorem localOf_put {T : τ} {x : κ T} {row : Option (ρ T)} (howner : w.owner ⟨T, x⟩ = some t)
    (clock : Int) :
    (w.put t ⟨T, x⟩ row).localOf t clock = (w.localOf t clock).write T x row := by
  have hseen : ((w.put t ⟨T, x⟩ row).session t).seen = (w.session t).seen := by simp [put]
  simp only [localOf, Local.write, view_put, hseen, Local.mk.injEq, true_and, and_true]
  funext i
  by_cases hi : i = ⟨T, x⟩
  · subst hi
    simp [put, howner]
  · simp only [ne_eq, hi, not_false_eq_true, Function.update_of_ne]
    rfl

end Steps

/-! ## Section 3: Safe worlds -/

section Sound

variable [DecidableEq τ] [∀ T, DecidableEq (κ T)] (schema : Schema κ ρ) (Inv : Store κ ρ → Prop)
  (post : Nat → α → Local κ ρ → Prop)

/-- The world is consistent, its rows satisfy the invariant, and every session that is still
running is safe for its postcondition in what it knows. -/
structure Sound (w : World κ ρ ε α) : Prop where
  consistent : Consistent schema w
  inv : Inv w.rows
  safe : ∀ t p, (w.session t).status = .running p →
    ∃ clock ≤ w.clock, p.Safe schema Inv (post t) (w.localOf t clock)

/-- What a step, by the scheduler's choice `a`, can do to the committed rows. -/
inductive Effect (a : Action) (w w' : World κ ρ ε α) : Prop where
  /-- Nothing is committed. A session may have read the rows, or ended. -/
  | quiet (hrows : w'.rows = w.rows) (hlog : w'.log = w.log) (hclock : w.clock ≤ w'.clock)
      (hseen : ∀ t s, (w'.session t).seen = some s → (w.session t).seen = some s ∨
        s = ⟨w.rows, fun i => w.owner i = some t, w.clock⟩)
  /-- A session commits a result that satisfies its postcondition. -/
  | commit (t : Nat) (result : α) (clock : Int) (haction : a = .run t)
      (hstatus : (w.session t).status = .running (.done result)) (hle : clock ≤ w.clock)
      (hpost : post t result (w.localOf t clock)) (h : w' = w.commit t result)

variable {schema Inv post}

/-- A step of session `t` that leaves the others alone. -/
theorem Sound.of_session {w' : World κ ρ ε α} (h : Sound schema Inv post w)
    (hconsistent : Consistent schema w') (hinv : Inv w'.rows) (hclock : w.clock ≤ w'.clock)
    (hother : ∀ t' ≠ t, (w'.session t').status = (w.session t').status)
    (hlocal : ∀ t' ≠ t, ∀ clock, w'.localOf t' clock = w.localOf t' clock)
    (hself : ∀ p, (w'.session t).status = .running p →
      ∃ clock ≤ w'.clock, p.Safe schema Inv (post t) (w'.localOf t clock)) :
    Sound schema Inv post w' := by
  refine ⟨hconsistent, hinv, ?_⟩
  intro t' p hp
  by_cases ht : t' = t
  · subst ht
    exact hself p hp
  · rw [hother t' ht] at hp
    obtain ⟨clock, hle, hsafe⟩ := h.safe t' p hp
    refine ⟨clock, le_trans hle hclock, ?_⟩
    rw [hlocal t' ht]
    exact hsafe

theorem Sound.proceed (h : Sound schema Inv post w) {p : Program κ ρ ε α}
    (hsafe : ∃ clock ≤ w.clock, p.Safe schema Inv (post t) (w.localOf t clock)) :
    Sound schema Inv post (w.proceed t p) := by
  apply h.of_session (t := t) (h.consistent.proceed p) h.inv (le_refl _)
  · intro t' ht
    rw [session_proceed_ne p ht]
  · intro t' _ clock
    rw [localOf_proceed]
  · intro p' hp'
    rw [session_proceed] at hp'
    cases hp'
    obtain ⟨clock, hle, hsafe⟩ := hsafe
    refine ⟨clock, hle, ?_⟩
    rw [localOf_proceed]
    exact hsafe

theorem Sound.release (h : Sound schema Inv post w) {status : Status κ ρ ε α}
    (hended : ∀ p, status ≠ .running p) : Sound schema Inv post (w.release t status) := by
  apply h.of_session (t := t) (h.consistent.release status) h.inv (le_refl _)
  · intro t' ht
    rw [session_release_ne status ht]
  · intro t' ht clock
    exact localOf_release_ne status ht clock
  · intro p hp
    rw [session_release] at hp
    exact absurd hp (hended p)

theorem Sound.commit (h : Sound schema Inv post w) {result : α}
    (hinv : Inv (w.view t)) : Sound schema Inv post (w.commit t result) := by
  apply h.of_session (t := t) (h.consistent.commit result) hinv (le_refl _)
  · intro t' ht
    exact congrArg Session.status (session_release_ne (.finished (.ok result)) ht)
  · intro t' ht clock
    exact h.consistent.localOf_commit result ht clock
  · intro p hp
    have hsession : (w.commit t result).session t =
        ⟨.finished (.ok result), fun _ => none, none⟩ := session_release _
    rw [hsession] at hp
    cases hp

/-- The session takes or leaves the next row of a locking statement. -/
theorem Sound.examine (h : Sound schema Inv post w) {T : τ} {s : Selection κ ρ T} {x : κ T}
    {rest : List (κ T)} {found : List (κ T × ρ T)}
    {next : List (κ T × ρ T) → Program κ ρ ε α} {clock : Int}
    (hfree : w.owner ⟨T, x⟩ = none ∨ w.owner ⟨T, x⟩ = some t) (hle : clock ≤ w.clock)
    (hfull : s.full found = false)
    (hsafe : (Program.fetch T s (x :: rest) found next).Safe schema Inv (post t)
      (w.localOf t clock)) : Sound schema Inv post (w.examine t T s x rest found next) := by
  obtain ⟨hkeys, hfetch⟩ := hsafe
  have hrest : ∀ y ∈ rest, y ∈ schema.keys T := fun y hy => hkeys y (List.mem_cons_of_mem _ hy)
  have hsees := h.consistent.sees h.inv t clock
  unfold World.examine
  rw [FetchSafe, if_neg (by simp [hfull])] at hfetch
  rcases hfree with hfree | hown
  · -- The row was free: what the session sees is the committed version.
    have hheld : (w.localOf t clock).held ⟨T, x⟩ = none := by simp [localOf, hfree]
    have hview : w.view t ⟨T, x⟩ = w.rows ⟨T, x⟩ :=
      h.consistent.view_of_unowned (by simp [hfree])
    simp only [hheld] at hfetch
    rw [hview]
    rcases hrow : w.rows ⟨T, x⟩ with _ | row
    · apply h.proceed
      refine ⟨clock, hle, hrest, hfetch.1 w.rows hsees (Or.inr ?_)⟩
      intro row hrow'
      rw [hrow] at hrow'
      cases hrow'
    · by_cases hfilter : s.filter x row = true
      · simp only [hfilter, if_true]
        apply h.of_session (t := t)
          ((h.consistent.lock (hkeys x List.mem_cons_self) (Or.inl hfree)).proceed _) h.inv
          (le_refl _)
        · intro t' ht
          rw [session_proceed_ne _ ht]
          rfl
        · intro t' ht clock'
          rw [localOf_proceed, localOf_lock_ne (Or.inl hfree) ht]
        · intro p hp
          rw [session_proceed] at hp
          cases hp
          refine ⟨clock, hle, ?_⟩
          rw [localOf_proceed, h.consistent.localOf_lock hfree hrow]
          exact ⟨hrest, hfetch.2 w.rows hsees row hrow hfilter⟩
      · simp only [hfilter]
        apply h.proceed
        refine ⟨clock, hle, hrest, hfetch.1 w.rows hsees (Or.inr ?_)⟩
        intro row' hrow'
        rw [hrow] at hrow'
        cases hrow'
        simpa using hfilter
  · -- The row is the session's own, so it sees what it knows.
    have hheld : (w.localOf t clock).held ⟨T, x⟩ =
        some (w.rows ⟨T, x⟩, w.view t ⟨T, x⟩) := by simp [localOf, hown]
    simp only [hheld] at hfetch
    rcases hview : w.view t ⟨T, x⟩ with _ | row
    · rw [hview] at hfetch
      exact h.proceed ⟨clock, hle, hrest, hfetch⟩
    · rw [hview] at hfetch
      by_cases hfilter : s.filter x row = true
      · simp only [hfilter, if_true] at hfetch ⊢
        have hlock : w.lock t ⟨T, x⟩ = w := by simp [World.lock, ← hown]
        rw [hlock]
        exact h.proceed ⟨clock, hle, hrest, hfetch⟩
      · simp only [hfilter] at hfetch ⊢
        exact h.proceed ⟨clock, hle, hrest, hfetch⟩

/-- The session reads the committed rows and the clock. -/
theorem Sound.observe (h : Sound schema Inv post w)
    {next : (∀ T, List (κ T × ρ T)) → Program κ ρ ε α} {clock : Int} (hle : clock ≤ w.clock)
    (hsafe : (Program.read next).Safe schema Inv (post t) (w.localOf t clock)) :
    Sound schema Inv post (w.advance schema t (.read next)) := by
  have hsees := h.consistent.sees h.inv t clock
  apply h.of_session (t := t) ((h.consistent.observe (t := t)).proceed _) h.inv (le_refl _)
  · intro t' ht
    rw [session_proceed_ne _ ht]
    simp [World.observe, ht]
  · intro t' ht clock'
    rw [localOf_proceed, localOf_observe_ne ht]
  · intro p hp
    rw [session_proceed] at hp
    cases hp
    refine ⟨w.clock, le_refl _, ?_⟩
    rw [localOf_proceed, localOf_observe clock, ← h.consistent.localOf_view t clock]
    exact hsafe w.rows w.clock hsees hle

/-- The session is at a row of a locking statement: it has enough, examines it, waits for the lock
or skips it. -/
theorem Sound.visit (h : Sound schema Inv post w) {T : τ} {s : Selection κ ρ T} {x : κ T}
    {rest : List (κ T)} {found : List (κ T × ρ T)}
    {next : List (κ T × ρ T) → Program κ ρ ε α} {clock : Int} (hle : clock ≤ w.clock)
    (hsafe : (Program.fetch T s (x :: rest) found next).Safe schema Inv (post t)
      (w.localOf t clock)) :
    Sound schema Inv post (w.advance schema t (.fetch T s (x :: rest) found next)) := by
  simp only [World.advance]
  by_cases hfull : s.full found = true
  · simp only [hfull, if_true]
    have hfetch := hsafe.2
    rw [FetchSafe, if_pos hfull] at hfetch
    exact h.proceed ⟨clock, hle, hfetch⟩
  · have hfull' : s.full found = false := by simpa using hfull
    simp only [hfull', Bool.false_eq_true, if_false]
    rcases howner : w.owner ⟨T, x⟩ with _ | t'
    · exact h.examine (Or.inl howner) hle hfull' hsafe
    · by_cases ht : t' = t
      · subst ht
        simp only [if_true]
        exact h.examine (Or.inr howner) hle hfull' hsafe
      · -- Another session has the lock: this one waits, or skips the row.
        simp only [ht, if_false]
        rcases hmode : s.mode with _ | _
        · exact h
        · have hheld : (w.localOf t clock).held ⟨T, x⟩ = none := by
            simp [localOf, howner, ht]
          have hsees := h.consistent.sees h.inv t clock
          have hfetch := hsafe.2
          rw [FetchSafe, if_neg hfull] at hfetch
          simp only [hheld] at hfetch
          exact h.proceed ⟨clock, hle, fun y hy => hsafe.1 y (List.mem_cons_of_mem _ hy),
            hfetch.1 w.rows hsees (Or.inl hmode)⟩

/-- The session writes a row it has locked, unless another session may still decide whether it can,
or the write is refused. -/
theorem Sound.write (h : Sound schema Inv post w) {T : τ} {x : κ T} {row : Option (ρ T)}
    {refused : Violation → ε} {next : Program κ ρ ε α} {clock : Int} (hle : clock ≤ w.clock)
    (hsafe : (Program.write T x row refused next).Safe schema Inv (post t) (w.localOf t clock)) :
    Sound schema Inv post (w.advance schema t (.write T x row refused next)) := by
  simp only [World.advance]
  by_cases hown : w.owner ⟨T, x⟩ = some t
  · simp only [hown, if_true]
    by_cases hundecided : row.any (w.undecided schema t T x) = true
    · simp only [hundecided, if_true]
      exact h
    · by_cases hclashes : row.any (w.clashes schema t T x) = true
      · simp only [hundecided, hclashes, if_true]
        exact h.proceed ⟨clock, hle, trivial⟩
      · by_cases hdangling : row.any (w.dangling schema t T) = true
        · simp only [hundecided, hclashes, hdangling, if_true]
          exact h.proceed ⟨clock, hle, trivial⟩
        · simp only [hundecided, hclashes, hdangling]
          -- No committed row and no version of another session is in the way.
          have hput : Consistent schema (w.put t ⟨T, x⟩ row) := by
            apply h.consistent.put hown
            · intro a ha
              subst ha
              simpa using hundecided
            · intro a ha
              subst ha
              simpa using hclashes
          apply h.of_session (t := t) (hput.proceed _) h.inv (le_refl _)
          · intro t' ht
            rw [session_proceed_ne _ ht, session_put_ne ht]
          · intro t' ht clock'
            rw [localOf_proceed, localOf_put_ne ht]
          · intro p hp
            rw [session_proceed] at hp
            cases hp
            refine ⟨clock, hle, ?_⟩
            rw [localOf_proceed, localOf_put hown]
            -- A reference without its row would have refused the write.
            apply hsafe.2 w.rows (h.consistent.sees h.inv t clock)
            intro r hr j hj hnone
            subst hr
            rw [h.consistent.localOf_view] at hnone
            apply hdangling
            simp only [Option.any_some, dangling, List.any_eq_true]
            exact ⟨j, hj, by simp [hnone]⟩
  · simp only [hown, if_false]
    exact h

/-- **Step lemma**, for the steps of a program. -/
theorem Sound.advance (h : Sound schema Inv post w)
    (hcommit : ∀ t result L rows, L.Sees schema Inv rows → post t result L → Inv (L.view rows))
    {p : Program κ ρ ε α} (hp : (w.session t).status = .running p) :
    Sound schema Inv post (w.advance schema t p) := by
  obtain ⟨clock, hle, hsafe⟩ := h.safe t p hp
  have hsees := h.consistent.sees h.inv t clock
  cases p with
  | done result =>
    apply h.commit
    rw [← h.consistent.localOf_view t clock]
    exact hcommit t result _ _ hsees hsafe
  | fail error =>
    apply h.release
    intro p
    simp
  | now next =>
    apply h.proceed
    exact ⟨w.clock, le_refl _, hsafe w.clock hle⟩
  | read next => exact h.observe hle hsafe
  | select T s next =>
    apply h.proceed
    refine ⟨clock, hle, fun x hx => candidates_subset hx, ?_⟩
    rw [← h.consistent.localOf_view t clock]
    exact hsafe w.rows hsees
  | fetch T s cursor found next =>
    cases cursor with
    | nil => exact h.proceed ⟨clock, hle, hsafe.2⟩
    | cons x rest => exact h.visit hle hsafe
  | write T x row refused next => exact h.write hle hsafe

/-- **Step lemma**: every choice of the scheduler keeps the world safe. -/
theorem Sound.step (h : Sound schema Inv post w)
    (hcommit : ∀ t result L rows, L.Sees schema Inv rows → post t result L → Inv (L.view rows))
    (a : Action) : Sound schema Inv post (w.step schema a) := by
  cases a with
  | run t =>
    simp only [World.step]
    rcases hstatus : (w.session t).status with p | r | _
    · exact h.advance hcommit hstatus
    · exact h
    · exact h
  | abort t =>
    simp only [World.step]
    rcases hstatus : (w.session t).status with p | r | _
    · apply h.release
      intro p
      simp
    · exact h
    · exact h
  | tick elapsed =>
    refine ⟨?_, h.inv, ?_⟩
    · obtain ⟨hversions, hkeys, hseen, hrows, hview, hapart⟩ := h.consistent
      exact ⟨hversions, hkeys, hseen, hrows, hview, hapart⟩
    · intro t p hp
      obtain ⟨clock, hle, hsafe⟩ := h.safe t p hp
      have hclock : w.clock ≤ w.clock + (elapsed : Int) := by omega
      exact ⟨clock, le_trans hle hclock, hsafe⟩

/-! ### What a step commits -/

omit [DecidableEq τ] [∀ T, DecidableEq (κ T)] in
theorem Effect.of_seen {a : Action} {w' : World κ ρ ε α} (hrows : w'.rows = w.rows)
    (hlog : w'.log = w.log) (hclock : w'.clock = w.clock)
    (hseen : ∀ t, (w'.session t).seen = (w.session t).seen) :
    Effect post a w w' := by
  apply Effect.quiet hrows hlog (le_of_eq hclock.symm)
  intro t s hs
  rw [hseen] at hs
  exact Or.inl hs

omit [DecidableEq τ] [∀ T, DecidableEq (κ T)] in
theorem effect_proceed {a : Action} (p : Program κ ρ ε α) : Effect post a w (w.proceed t p) :=
  Effect.of_seen rfl rfl rfl (seen_proceed p)

omit [DecidableEq τ] [∀ T, DecidableEq (κ T)] in
theorem effect_release {a : Action} (status : Status κ ρ ε α) :
    Effect post a w (w.release t status) := by
  refine Effect.quiet rfl rfl (le_refl w.clock) ?_
  intro t' s hs
  by_cases ht : t' = t
  · subst ht
    rw [session_release] at hs
    cases hs
  · rw [session_release_ne status ht] at hs
    exact Or.inl hs

theorem effect_examine {a : Action} {T : τ} {s : Selection κ ρ T} {x : κ T} {rest : List (κ T)}
    {found : List (κ T × ρ T)} {next : List (κ T × ρ T) → Program κ ρ ε α} :
    Effect post a w (w.examine t T s x rest found next) := by
  unfold World.examine
  rcases w.view t ⟨T, x⟩ with _ | row
  · exact effect_proceed _
  · by_cases hfilter : s.filter x row = true
    · simp only [hfilter, if_true]
      exact Effect.of_seen rfl rfl rfl (seen_proceed _)
    · simp only [hfilter]
      exact effect_proceed _

theorem effect_write {a : Action} {T : τ} {x : κ T} {row : Option (ρ T)} {refused : Violation → ε}
    {next : Program κ ρ ε α} :
    Effect post a w (w.advance schema t (.write T x row refused next)) := by
  have hseen : ∀ t', ((w.put t ⟨T, x⟩ row).session t').seen = (w.session t').seen := by
    intro t'
    by_cases ht : t' = t
    · subst ht
      simp [World.put]
    · rw [session_put_ne ht]
  simp only [World.advance]
  split
  · split
    · exact Effect.of_seen rfl rfl rfl fun _ => rfl
    · split
      · exact effect_proceed _
      · split
        · exact effect_proceed _
        · refine Effect.of_seen rfl rfl rfl ?_
          intro t'
          rw [seen_proceed, hseen]
  · exact Effect.of_seen rfl rfl rfl fun _ => rfl

/-- **Commit rule**: a step either commits nothing, or installs the versions of one session
whose postcondition holds of what it knows. -/
theorem Sound.effect (h : Sound schema Inv post w) (a : Action) :
    Effect post a w (w.step schema a) := by
  have hnothing : Effect post a w w := Effect.of_seen rfl rfl rfl fun _ => rfl
  cases a with
  | run t =>
    simp only [World.step]
    rcases hstatus : (w.session t).status with p | r | _
    · cases p with
      | done result =>
        -- Only this step commits, and safety of a finished program is its postcondition.
        obtain ⟨clock, hle, hsafe⟩ := h.safe t _ hstatus
        exact Effect.commit t result clock rfl hstatus hle hsafe rfl
      | fail error => exact effect_release _
      | now next => exact effect_proceed _
      | read next =>
        refine Effect.quiet rfl rfl (le_refl w.clock) ?_
        intro t' s hs
        simp only [World.advance, seen_proceed] at hs
        by_cases ht : t' = t
        · subst ht
          simp only [World.observe, Function.update_self, Option.some.injEq] at hs
          exact Or.inr hs.symm
        · simp only [World.observe, ht, ne_eq, not_false_eq_true, Function.update_of_ne] at hs
          exact Or.inl hs
      | select T s next => exact effect_proceed _
      | fetch T s cursor found next =>
        cases cursor with
        | nil => exact effect_proceed _
        | cons x rest =>
          simp only [World.advance]
          split
          · exact effect_proceed _
          · split
            · exact effect_examine
            · split
              · exact effect_examine
              · split
                · exact hnothing
                · exact effect_proceed _
      | write T x row refused next => exact effect_write
    · exact hnothing
    · exact hnothing
  | abort t =>
    simp only [World.step]
    split
    · exact effect_release _
    · exact hnothing
  | tick elapsed =>
    have hclock : w.clock ≤ w.clock + (elapsed : Int) := by omega
    exact Effect.quiet rfl rfl hclock fun t s hs => Or.inl hs

/-! ### The start -/

theorem Sound.start {clock : Int} {rows : Store κ ρ} {program : Nat → Program κ ρ ε α}
    (hunique : schema.Unique rows) (hinv : Inv rows)
    (hsafe : ∀ t, (program t).Safe schema Inv (post t) (Local.start clock)) :
    Sound schema Inv post (World.start clock rows program) := by
  refine ⟨⟨?_, ?_, ?_, hunique, fun _ => hunique, ?_⟩, hinv, ?_⟩
  · intro t i hversion
    exact absurd rfl hversion
  · intro i t howner
    cases howner
  · intro t s hs
    cases hs
  · intro t t' _ T x y _ a b ha
    cases ha
  · intro t p hp
    cases hp
    exact ⟨clock, le_refl _, hsafe t⟩

end Sound

end World

end Nzovu.Foundation
