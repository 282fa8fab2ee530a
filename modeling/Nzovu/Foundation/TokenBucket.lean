import Nzovu.Foundation.Budget

/-!
# Token Buckets

- Section 1: a bucket of tokens that fills at a rate up to a burst.
- Section 2: machines that serve several clients as if each of them had a machine of its own.
-/

namespace Nzovu.Foundation

/-! ## Section 1: A bucket -/

/-- A bucket that held `tokens` tokens at the time `updated`. -/
structure TokenBucket where
  tokens : ℚ
  updated : ℚ

namespace TokenBucket

variable (rate burst : ℚ)

/-- The tokens of the bucket at a time. -/
def available (b : TokenBucket) (t : ℚ) : ℚ := min burst (b.tokens + rate * (t - b.updated))

/-- A request takes a token, if there is one. -/
def take (b : TokenBucket) (t : ℚ) : Bool × TokenBucket :=
  if b.available rate burst t < 1 then (false, ⟨b.available rate burst t, t⟩)
  else (true, ⟨b.available rate burst t - 1, t⟩)

/-- A bucket that a request before `t` may have left. -/
structure Sound (b : TokenBucket) (t : ℚ) : Prop where
  tokens_nonneg : 0 ≤ b.tokens
  updated_le : b.updated ≤ t

variable {rate burst} {b : TokenBucket} {t t' : ℚ}

theorem Sound.mono (h : b.Sound t) (hle : t ≤ t') : b.Sound t' :=
  ⟨h.tokens_nonneg, h.updated_le.trans hle⟩

theorem available_nonneg (hrate : 0 ≤ rate) (hburst : 0 ≤ burst) (h : b.Sound t) :
    0 ≤ b.available rate burst t := by
  refine le_min hburst (add_nonneg h.tokens_nonneg ?_)
  exact mul_nonneg hrate (sub_nonneg.mpr h.updated_le)

theorem available_le : b.available rate burst t ≤ burst := min_le_left _ _

/-- The bucket fills at most at the rate. -/
theorem available_grows (hrate : 0 ≤ rate) (hle : t ≤ t') :
    b.available rate burst t' ≤ b.available rate burst t + rate * (t' - t) := by
  have hgrowth : 0 ≤ rate * (t' - t) := mul_nonneg hrate (sub_nonneg.mpr hle)
  unfold available
  rw [← min_add_add_right]
  refine le_min ((min_le_left _ _).trans (by linarith)) ((min_le_right _ _).trans ?_)
  linarith [mul_sub rate t' b.updated, mul_sub rate t b.updated, mul_sub rate t' t]

/-- The bucket never loses tokens by waiting. -/
theorem available_mono (hrate : 0 ≤ rate) (hle : t ≤ t') :
    b.available rate burst t ≤ b.available rate burst t' := by
  refine min_le_min_left burst ?_
  have hlater : rate * (t - b.updated) ≤ rate * (t' - b.updated) :=
    mul_le_mul_of_nonneg_left (by linarith) hrate
  linarith

/-- What is in the bucket right after it was written. -/
theorem available_self {tokens : ℚ} (hle : tokens ≤ burst) :
    (⟨tokens, t⟩ : TokenBucket).available rate burst t = tokens := by
  simp [available, hle]

theorem sound_take (hrate : 0 ≤ rate) (hburst : 0 ≤ burst) (h : b.Sound t) :
    (b.take rate burst t).2.Sound t := by
  have hnonneg : 0 ≤ b.available rate burst t := available_nonneg hrate hburst h
  unfold take
  split
  · exact ⟨hnonneg, le_refl _⟩
  · exact ⟨by simp only; linarith, le_refl _⟩

/-- **Budget**: the tokens pay for the requests that are granted. -/
theorem budgeted {α : Type} {time : α → ℚ} {counts : α → Bool} (hrate : 0 ≤ rate)
    (hburst : 0 ≤ burst) :
    Budgeted (fun b a => take rate burst b (time a)) time counts Sound (available rate burst)
      rate burst where
  rate_nonneg := hrate
  nonneg _ _ hsound := available_nonneg hrate hburst hsound
  le_burst _ _ _ := available_le
  grows _ _ _ hsound hle := ⟨hsound.mono hle, available_grows hrate hle⟩
  pays b a hsound := by
    refine ⟨sound_take hrate hburst hsound, ?_⟩
    have hle : b.available rate burst (time a) ≤ burst := available_le
    by_cases hempty : b.available rate burst (time a) < 1
    · simp [Accepts, take, hempty, available_self hle]
    · have hpaid : b.available rate burst (time a) - 1 ≤ burst := by linarith
      simp only [Accepts, take, if_neg hempty, available_self hpaid, and_true]
      split <;> linarith

end TokenBucket

/-! ## Section 2: Clients that do not disturb each other -/

section Separation

variable {σ ρ α β κ : Type} (step : σ → α → β × σ) (own : ρ → α → β × ρ) (client : α → κ)
  (time : α → ℚ)

/-- The machine `step` serves each client as the machine `own` would. `agrees k t s r` says that
at the time `t`, the state `s` holds for the client `k` what its own machine holds in `r`. -/
structure Separate (allowed : α → Prop) (agrees : κ → ℚ → σ → ρ → Prop) : Prop where
  waits : ∀ {k t t' s r}, agrees k t s r → t ≤ t' → agrees k t' s r
  answers : ∀ {a s r}, allowed a → agrees (client a) (time a) s r →
    (step s a).1 = (own r a).1 ∧ agrees (client a) (time a) (step s a).2 (own r a).2
  others : ∀ {a k s r}, allowed a → client a ≠ k → agrees k (time a) s r →
    agrees k (time a) (step s a).2 r

variable {step own client time}

/-- **Separation rule**: the answer to a request is the one that the machine of its client gives
after the requests of this client. -/
theorem Separate.answer [DecidableEq κ] {allowed : α → Prop} {agrees : κ → ℚ → σ → ρ → Prop}
    (h : Separate step own client time allowed agrees) {a : α} {before : List α} {t : ℚ} {s : σ}
    {r : ρ} (hagrees : agrees (client a) t s r) (hallowed : ∀ b ∈ before ++ [a], allowed b)
    (hchronological : Chronological time t (before ++ [a])) :
    (step (runFrom (fun s b => (step s b).2) s before) a).1 =
      (own (runFrom (fun r b => (own r b).2) r
        (before.filter fun b => client b = client a)) a).1 := by
  -- the two states agree before each request
  induction before generalizing t s r with
  | nil =>
    have hnow := h.waits hagrees hchronological.1
    exact (h.answers (hallowed a (by simp)) hnow).1
  | cons b rest ih =>
    obtain ⟨harrives, hrest⟩ := hchronological
    have hnow := h.waits hagrees harrives
    have hb : allowed b := hallowed b (by simp)
    have hlater : ∀ c ∈ rest ++ [a], allowed c := fun c hc =>
      hallowed c (List.mem_cons_of_mem _ hc)
    rw [runFrom_cons]
    by_cases hclient : client b = client a
    · rw [List.filter_cons_of_pos (by simpa using hclient), runFrom_cons]
      rw [← hclient] at hnow
      have hnext := (h.answers hb hnow).2
      rw [hclient] at hnext
      exact ih hnext hlater hrest
    -- a request of another client is not seen
    · rw [List.filter_cons_of_neg (by simpa using hclient)]
      exact ih (h.others hb hclient hnow) hlater hrest

/-- The first requests of a chronological run. -/
theorem Chronological.of_append {t : ℚ} {first later : List α}
    (h : Chronological time t (first ++ later)) : Chronological time t first := by
  induction first generalizing t with
  | nil => trivial
  | cons a rest ih => exact ⟨h.1, ih h.2⟩

/-- Machines that give the same answers accept the same number of requests. -/
theorem acceptedWithin_congr {step : σ → α → Bool × σ} {own : ρ → α → Bool × ρ}
    (counts : α → Bool) {lo hi : ℚ} {s : σ} {r : ρ} {requests : List α}
    (h : ∀ before a after, requests = before ++ a :: after →
      (step (runFrom (fun s b => (step s b).2) s before) a).1 =
        (own (runFrom (fun r b => (own r b).2) r before) a).1) :
    acceptedWithin step time counts lo hi s requests =
      acceptedWithin own time counts lo hi r requests := by
  induction requests generalizing s r with
  | nil => rfl
  | cons a rest ih =>
    have hfirst : (step s a).1 = (own r a).1 := h [] a rest rfl
    have hrest := @ih (step s a).2 (own r a).2 fun before b after hsplit =>
      h (a :: before) b after (by rw [hsplit]; rfl)
    have haccepts : Accepts step counts s a ↔ Accepts own counts r a := by
      rw [Accepts, Accepts, hfirst]
    rw [acceptedWithin, acceptedWithin, hrest, if_congr (and_congr_left' haccepts) rfl rfl]

end Separation

end Nzovu.Foundation
