import Mathlib.Data.List.Dedup
import Nzovu.Foundation.TokenBucket
import Nzovu.Gateway.RateLimiter

/-!
# Clients of the Rate Limiter

`rateLimiter` keeps the buckets of all clients in one table: every request may drop the buckets of
idle clients, and a client is refused when there is no room for its bucket. As long as there is
room, each client is to be served as by a token bucket of its own, whatever the others send.

- Section 1: a client on its own.
- Section 2: the table and the bucket agree.
- Section 3: isolation.
-/

namespace Nzovu.Gateway

open Nzovu.Foundation
open Nzovu.Foundation.CivilTime (sub)

/-! ## Section 1: A client on its own -/

namespace RateLimits

variable (limits : RateLimits)

/-- The bucket a client would have on its own, full at first. -/
def fullBucket (start : Int) : TokenBucket := ⟨limits.burst, seconds start⟩

/-- A request to this bucket. -/
def take (b : TokenBucket) (request : Request) : Bool × TokenBucket :=
  b.take limits.requestsPerSecond limits.burst request.time

/-- The limiter after the requests. -/
def limiterAfter (start : Int) (requests : List Request) : RateLimiter :=
  runFrom (fun l request => (limits.step l request).2) (newRateLimiter start) requests

/-- The bucket of a client after its requests. -/
def bucketAfter (start : Int) (requests : List Request) : TokenBucket :=
  runFrom (fun b request => (limits.take b request).2) (limits.fullBucket start) requests

/-- There is room for the buckets of all clients of the run. -/
def HasRoom (requests : List Request) : Prop :=
  ((requests.map Request.clientID).dedup.length : Int) ≤ limits.maxBuckets

instance (requests : List Request) : Decidable (limits.HasRoom requests) :=
  inferInstanceAs (Decidable (_ ≤ _))

end RateLimits

/-- What the limiter promises: as long as it has room, a request is granted exactly when the bucket
of its client, which no other client takes from, has a token. -/
def Isolated (limits : RateLimits) : Prop :=
  ∀ (start : Int) (before : List Request) (request : Request),
    Chronological Request.time (seconds start) (before ++ [request]) →
      limits.HasRoom (before ++ [request]) →
        (limits.step (limits.limiterAfter start before) request).1 =
          (limits.take (limits.bucketAfter start
            (before.filter fun r => r.clientID = request.clientID)) request).1

/-! ## Section 2: The table and the bucket -/

section Agreement

variable {limits : RateLimits} {clients : List String} {clientID : String} {l : RateLimiter}
  {b : TokenBucket} {t : ℚ} {now : Int}

/-- The bucket of the table as one of its own. -/
def ClientBucket.token (bucket : ClientBucket) : TokenBucket :=
  ⟨bucket.tokens, seconds bucket.updated⟩

theorem level_of_get? {bucket : ClientBucket} (hget : l.buckets.get? clientID = some bucket) :
    limits.level clientID l t =
      bucket.token.available limits.requestsPerSecond limits.burst t := by
  rw [RateLimits.level, hget]
  rfl

theorem refill_eq_min (bucket : ClientBucket) : limits.refill bucket now =
    min (limits.burst : ℚ)
      (bucket.tokens + limits.requestsPerSecond * seconds (sub now bucket.updated)) := by
  rw [RateLimits.refill, mul_comm limits.requestsPerSecond]
  split
  · exact (min_eq_left (by linarith)).symm
  · exact (min_eq_right (by linarith)).symm

/-- The update of a bucket counts every nanosecond, although elapsed time ends at the largest
duration: by then the bucket is full. -/
theorem refill_eq (hfull : limits.burst ≤ 300 * limits.requestsPerSecond) {bucket : ClientBucket}
    (htokens : 0 ≤ bucket.tokens) (hupdated : bucket.updated ≤ now) :
    limits.refill bucket now =
      bucket.token.available limits.requestsPerSecond limits.burst (seconds now) := by
  have hrate := limits.requestsPerSecond_pos.le
  rw [refill_eq_min, TokenBucket.available, ClientBucket.token, ← seconds_sub]
  by_cases hshort : now - bucket.updated < 9223372036854775808
  · rw [CivilTime.sub_eq (abs_lt.mpr ⟨by omega, hshort⟩)]
  · -- both have earned more than the burst
    have hearned : ∀ ns : Int, staleAfter ≤ ns →
        (limits.burst : ℚ) ≤ bucket.tokens + limits.requestsPerSecond * seconds ns := by
      intro ns hns
      have hseconds : (300 : ℚ) ≤ seconds ns := by
        have h := seconds_le_seconds.mpr hns
        rwa [show seconds staleAfter = 300 by norm_num [seconds, staleAfter, minute]] at h
      have hproduct := mul_le_mul_of_nonneg_left hseconds hrate
      linarith
    have hsub : staleAfter ≤ sub now bucket.updated := by
      simp only [sub, staleAfter, minute]
      omega
    have hdifference : staleAfter ≤ now - bucket.updated := by
      simp only [staleAfter, minute]
      omega
    rw [min_eq_left (hearned _ hsub), min_eq_left (hearned _ hdifference)]

/-- The cleanup does not change what a client is granted, now or later. -/
theorem level_cleanup_later (hfull : limits.burst ≤ 300 * limits.requestsPerSecond)
    (hsound : BucketSound clientID l (seconds now)) (hlater : seconds now ≤ t) :
    limits.level clientID (l.cleanup now) t = limits.level clientID l t := by
  rcases @get?_cleanup clientID l now with hsame | ⟨hnone, bucket, hget, hstale⟩
  · simp only [RateLimits.level, hsame]
  · -- a bucket that is dropped is full, and stays so
    have hnow : limits.level clientID l (seconds now) = limits.burst :=
      level_of_stale hfull hsound hget hstale
    rw [level_of_get? hget] at hnow ⊢
    have hmono : bucket.token.available limits.requestsPerSecond limits.burst (seconds now) ≤
        bucket.token.available limits.requestsPerSecond limits.burst t :=
      TokenBucket.available_mono limits.requestsPerSecond_pos.le hlater
    have hle : bucket.token.available limits.requestsPerSecond limits.burst t ≤ limits.burst :=
      TokenBucket.available_le
    simp only [RateLimits.level, hnone]
    linarith

/-- A client of the run without a bucket finds room for one. -/
theorem hasRoom_of_known (hroom : (clients.length : Int) ≤ limits.maxBuckets)
    (hknown : ∀ id bucket, l.buckets.get? id = some bucket → id ∈ clients)
    (hclient : clientID ∈ clients) (hnone : l.buckets.get? clientID = none) :
    ¬ limits.maxBuckets ≤ (l.buckets.size : Int) := by
  -- the keys of the table and the client are different clients of the run
  have hkeys : ∀ id ∈ l.buckets.entries.map Prod.fst, id ∈ clients ∧ id ≠ clientID := by
    intro id hid
    obtain ⟨⟨_, bucket⟩, he, rfl⟩ := List.mem_map.mp hid
    have hget : l.buckets.get? _ = some bucket := FiniteMap.get?_eq_some.mpr he
    refine ⟨hknown _ bucket hget, fun hsame => ?_⟩
    subst hsame
    cases hnone.symm.trans hget
  have hnodup : (clientID :: l.buckets.entries.map Prod.fst).Nodup :=
    List.nodup_cons.mpr ⟨fun hmem => (hkeys _ hmem).2 rfl, l.buckets.nodup⟩
  have hsubset : clientID :: l.buckets.entries.map Prod.fst ⊆ clients := by
    intro id hid
    rcases List.mem_cons.mp hid with rfl | hid
    · exact hclient
    · exact (hkeys id hid).1
  have hlength := (List.subperm_of_subset hnodup hsubset).length_le
  rw [List.length_cons, List.length_map] at hlength
  simp only [FiniteMap.size]
  omega

/-- The table holds for a client what its own bucket holds, and no other clients than those of the
run. -/
structure Agrees (limits : RateLimits) (clients : List String) (clientID : String) (t : ℚ)
    (l : RateLimiter) (b : TokenBucket) : Prop where
  sound : BucketSound clientID l t
  own_sound : b.Sound t
  level_eq : ∀ t', t ≤ t' → limits.level clientID l t' =
    b.available limits.requestsPerSecond limits.burst t'
  known : ∀ id bucket, l.buckets.get? id = some bucket → id ∈ clients

theorem Agrees.cleanup (hfull : limits.burst ≤ 300 * limits.requestsPerSecond)
    (h : Agrees limits clients clientID (seconds now) l b) :
    Agrees limits clients clientID (seconds now) (l.cleanup now) b where
  sound := h.sound.cleanup
  own_sound := h.own_sound
  level_eq t' hlater := by rw [level_cleanup_later hfull h.sound hlater, h.level_eq t' hlater]
  known id bucket hget := by
    rcases @get?_cleanup id l now with hsame | ⟨hnone, -⟩
    · exact h.known id bucket (hsame ▸ hget)
    · cases hnone.symm.trans hget

/-- The bucket that a request finds or gets holds what the client is due. -/
theorem exists_bucketFor (hfull : limits.burst ≤ 300 * limits.requestsPerSecond)
    (hroom : (clients.length : Int) ≤ limits.maxBuckets) (hclient : clientID ∈ clients)
    (h : Agrees limits clients clientID (seconds now) l b) :
    ∃ bucket, limits.bucketFor l clientID now = some bucket ∧
      limits.refill bucket now =
        b.available limits.requestsPerSecond limits.burst (seconds now) := by
  rw [← h.level_eq _ (le_refl _)]
  cases hget : l.buckets.get? clientID with
  | some bucket =>
    obtain ⟨htokens, -, hupdated⟩ := h.sound bucket hget
    refine ⟨bucket, by rw [RateLimits.bucketFor, hget], ?_⟩
    rw [refill_eq hfull htokens (seconds_le_seconds.mp hupdated), level_of_get? hget]
  | none =>
    refine ⟨⟨limits.burst, now, now⟩, ?_, ?_⟩
    · simp only [RateLimits.bucketFor, hget, if_neg (hasRoom_of_known hroom h.known hclient hget)]
    · rw [refill_now limits _ (le_refl _), RateLimits.level, hget]

/-- The table and the bucket after both were written. -/
theorem Agrees.write (h : Agrees limits clients clientID (seconds now) l b)
    (hclient : clientID ∈ clients) {tokens : ℚ} (hnonneg : 0 ≤ tokens) :
    Agrees limits clients clientID (seconds now)
      { l with buckets := l.buckets.set clientID ⟨tokens, now, now⟩ } ⟨tokens, seconds now⟩ where
  sound := bucketSound_set l hnonneg
  own_sound := ⟨hnonneg, le_refl _⟩
  level_eq t' _ := by
    have hget : (l.buckets.set clientID ⟨tokens, now, now⟩).get? clientID =
        some ⟨tokens, now, now⟩ := by
      rw [FiniteMap.get?_set, if_pos rfl]
    exact @level_of_get? limits clientID { l with buckets := l.buckets.set clientID _ } t' _ hget
  known id bucket hget := by
    rw [FiniteMap.get?_set] at hget
    by_cases hid : id = clientID
    · exact hid ▸ hclient
    · rw [if_neg hid] at hget
      exact h.known id bucket hget

/-- A request of the client gets the answer of its own bucket. -/
theorem Agrees.allow (hfull : limits.burst ≤ 300 * limits.requestsPerSecond)
    (hroom : (clients.length : Int) ≤ limits.maxBuckets) (hclient : clientID ∈ clients)
    (h : Agrees limits clients clientID (seconds now) l b) :
    (limits.allow l clientID now).1 = (limits.take b ⟨clientID, now⟩).1 ∧
      Agrees limits clients clientID (seconds now) (limits.allow l clientID now).2
        (limits.take b ⟨clientID, now⟩).2 := by
  have hclean := h.cleanup hfull
  obtain ⟨bucket, hbucket, hrefill⟩ := exists_bucketFor hfull hroom hclient hclean
  have hnonneg : 0 ≤ b.available limits.requestsPerSecond limits.burst (seconds now) :=
    TokenBucket.available_nonneg limits.requestsPerSecond_pos.le
      (by exact_mod_cast limits.burst_pos.le) h.own_sound
  have htake : limits.take b ⟨clientID, now⟩ =
      b.take limits.requestsPerSecond limits.burst (seconds now) := rfl
  rw [htake, RateLimits.allow, TokenBucket.take]
  simp only [hbucket, hrefill]
  by_cases hempty : b.available limits.requestsPerSecond limits.burst (seconds now) < 1
  · simp only [if_pos hempty]
    exact ⟨trivial, hclean.write hclient hnonneg⟩
  · simp only [if_neg hempty]
    exact ⟨trivial, hclean.write hclient (by linarith)⟩

/-- A request of another client changes nothing. -/
theorem Agrees.allow_of_ne (hfull : limits.burst ≤ 300 * limits.requestsPerSecond)
    {other : String} (hother : other ∈ clients) (hne : other ≠ clientID)
    (h : Agrees limits clients clientID (seconds now) l b) :
    Agrees limits clients clientID (seconds now) (limits.allow l other now).2 b := by
  have hclean := h.cleanup hfull
  have hsame := @get?_allow_of_ne limits clientID l now other hne.symm
  refine ⟨fun bucket hget => hclean.sound bucket (hsame ▸ hget), h.own_sound, ?_, ?_⟩
  · intro t' hlater
    rw [← hclean.level_eq t' hlater]
    simp only [RateLimits.level, hsame]
  · intro id bucket hget
    by_cases hid : id = other
    · exact hid ▸ hother
    · rw [get?_allow_of_ne hid] at hget
      exact hclean.known id bucket hget

/-- **Separation**: the limiter serves each client of the run as its own bucket would. -/
theorem separate_step (hfull : limits.burst ≤ 300 * limits.requestsPerSecond)
    (hroom : (clients.length : Int) ≤ limits.maxBuckets) :
    Separate limits.step limits.take Request.clientID Request.time
      (fun request => request.clientID ∈ clients) (Agrees limits clients) where
  waits h hle :=
    ⟨h.sound.mono hle, h.own_sound.mono hle, fun t' hlater => h.level_eq t' (hle.trans hlater),
      h.known⟩
  answers hclient h := h.allow hfull hroom hclient
  others hother hne h := h.allow_of_ne hfull hother hne

theorem agrees_newRateLimiter (start : Int) :
    Agrees limits clients clientID (seconds start) (newRateLimiter start)
      (limits.fullBucket start) where
  sound bucket hget := by cases hget
  own_sound := ⟨by simpa [RateLimits.fullBucket] using limits.burst_pos.le, le_refl _⟩
  level_eq t' hlater := by
    -- a full bucket stays full
    have hgrowth : 0 ≤ limits.requestsPerSecond * (t' - seconds start) :=
      mul_nonneg limits.requestsPerSecond_pos.le (sub_nonneg.mpr hlater)
    simp only [TokenBucket.available, RateLimits.fullBucket]
    rw [min_eq_left (by linarith)]
    rfl
  known id bucket hget := by cases hget

end Agreement

/-! ## Section 3: Isolation -/

section Isolation

variable {limits : RateLimits}

/-- **Isolation** of the clients, from the room for their buckets. -/
theorem isolated_of_full (hfull : limits.burst ≤ 300 * limits.requestsPerSecond) :
    Isolated limits := by
  intro start before request hchronological hroom
  have hseparate := separate_step hfull hroom
  refine hseparate.answer (agrees_newRateLimiter start) ?_ hchronological
  intro r hr
  exact List.mem_dedup.mpr (List.mem_map_of_mem hr)

/-- One client alone has room. -/
theorem hasRoom_single {requests : List Request} {clientID : String}
    (h : ∀ r ∈ requests, r.clientID = clientID) : limits.HasRoom requests := by
  have hsubset : (requests.map Request.clientID).dedup ⊆ [clientID] := by
    intro id hid
    obtain ⟨r, hr, rfl⟩ := List.mem_map.mp (List.mem_dedup.mp hid)
    exact List.mem_singleton.mpr (h r hr)
  have hlength := (List.subperm_of_subset (List.nodup_dedup _) hsubset).length_le
  have hmax := limits.maxBuckets_pos
  rw [List.length_singleton] at hlength
  unfold RateLimits.HasRoom
  omega

/-- An isolating limiter grants a client that is alone no more than a bucket does. -/
theorem Isolated.admitted_le (h : Isolated limits) {requests : List Request} {clientID : String}
    (hclient : ∀ r ∈ requests, r.clientID = clientID)
    (hchronological : Chronological Request.time (seconds 0) requests) :
    (limits.admitted 0 requests clientID 0 300 : ℚ) ≤
      limits.burst + limits.requestsPerSecond * 300 := by
  have hsame : limits.admitted 0 requests clientID 0 300 =
      acceptedWithin limits.take Request.time (fun r => r.clientID = clientID) 0 300
        (limits.fullBucket 0) requests := by
    refine acceptedWithin_congr _ fun before r after hsplit => ?_
    subst hsplit
    rw [← List.singleton_append, ← List.append_assoc] at hclient hchronological
    -- all requests before are of the same client
    have hbefore : ∀ r' ∈ before ++ [r], r'.clientID = clientID := fun r' hr' =>
      hclient r' (List.mem_append_left _ hr')
    have hfilter : (before.filter fun r' => r'.clientID = r.clientID) = before := by
      rw [List.filter_eq_self]
      intro r' hr'
      have hr : r.clientID = clientID := hbefore r (by simp)
      simpa [hr] using hbefore r' (List.mem_append_left _ hr')
    have hanswer := h 0 before r hchronological.of_append (hasRoom_single hbefore)
    rwa [hfilter] at hanswer
  have hburst : (0 : ℚ) ≤ limits.burst := by exact_mod_cast limits.burst_pos.le
  have hbudget : Budgeted limits.take Request.time (fun r => r.clientID = clientID)
      TokenBucket.Sound (TokenBucket.available limits.requestsPerSecond limits.burst)
      limits.requestsPerSecond limits.burst :=
    TokenBucket.budgeted limits.requestsPerSecond_pos.le hburst
  have hsound : (limits.fullBucket 0).Sound (seconds 0) := ⟨hburst, le_refl _⟩
  have hwindow : (0 : ℚ) ≤ 300 := by norm_num
  have hbound := hbudget.acceptedWithin_le hsound hwindow hchronological
  rw [hsame]
  rwa [sub_zero] at hbound

/-- **Isolation**: the clients are kept apart exactly when five minutes at the rate earn a whole
burst. -/
theorem isolated_iff (limits : RateLimits) :
    Isolated limits ↔ limits.burst ≤ 300 * limits.requestsPerSecond := by
  constructor
  · intro hisolated
    -- two bursts of one client in 300 seconds
    have hclient : ∀ r ∈ twoBursts limits "c", r.clientID = "c" := by
      intro r hr
      rcases List.mem_append.mp hr with hr | hr
      all_goals rw [(List.mem_replicate.mp hr).2]
    have hbound := hisolated.admitted_le hclient (chronological_twoBursts limits "c")
    rw [admitted_twoBursts] at hbound
    have hburst : ((limits.burst.toNat : Nat) : ℚ) = limits.burst := by
      have h := Int.toNat_of_nonneg limits.burst_pos.le
      exact_mod_cast h
    push_cast at hbound
    rw [hburst] at hbound
    linarith
  · exact isolated_of_full

end Isolation

end Nzovu.Gateway
