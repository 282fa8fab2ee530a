import Nzovu.Foundation.Budget
import Nzovu.Foundation.CivilTime
import Nzovu.Foundation.FiniteMap
import Nzovu.Foundation.Run

/-!
# The Rate Limiter

Translation of `rateLimiter` (`pkg/gateway/interceptors.go`). Every client has a bucket of tokens
that fills at a rate up to a burst; a request takes one token. Once a minute the buckets of clients
that were idle for five minutes are dropped, and a client without a bucket starts with a full one.
Amounts of tokens are rational numbers, instants are nanoseconds.

Dropping a bucket gives a client a full one, so it is harmless exactly when five minutes fill an
empty bucket.

- Section 1: the limiter.
- Section 2: the level of a client.
- Section 3: what a client is granted.
- Section 4: two bursts.
-/

namespace Nzovu.Gateway

open Nzovu.Foundation
open Nzovu.Foundation.CivilTime (sub)

/-! ## Section 1: The limiter -/

/-- The settings of a limiter. The configuration of the server is refused unless all three are
positive. -/
structure RateLimits where
  requestsPerSecond : ℚ
  burst : Int
  maxBuckets : Int
  requestsPerSecond_pos : 0 < requestsPerSecond
  burst_pos : 0 < burst
  maxBuckets_pos : 0 < maxBuckets

/-- `clientBucket`. -/
structure ClientBucket where
  tokens : ℚ
  updated : Int
  lastSeen : Int
deriving DecidableEq

/-- The state of `rateLimiter`. -/
structure RateLimiter where
  buckets : FiniteMap String ClientBucket
  lastCleanup : Int

/-- A nanosecond count in seconds, as an instant or as `Duration.Seconds`. -/
def seconds (ns : Int) : ℚ := ns / 1000000000

def minute : Int := 60000000000

/-- `staleAfter`: five minutes. -/
def staleAfter : Int := 5 * minute

/-- `newRateLimiter`. -/
def newRateLimiter (now : Int) : RateLimiter := ⟨.empty, now⟩

/-- The start of `allow`: stale buckets are dropped once a minute. -/
def RateLimiter.cleanup (l : RateLimiter) (now : Int) : RateLimiter :=
  if minute ≤ sub now l.lastCleanup then
    { buckets := l.buckets.filter fun _ bucket => ¬ staleAfter ≤ sub now bucket.lastSeen
      lastCleanup := now }
  else l

namespace RateLimits

variable (limits : RateLimits)

/-- The bucket of a client, or a full one when there is room for it. -/
def bucketFor (l : RateLimiter) (clientID : String) (now : Int) : Option ClientBucket :=
  match l.buckets.get? clientID with
  | some bucket => some bucket
  | none =>
    -- no room for one more client
    if limits.maxBuckets ≤ l.buckets.size then none
    else some { tokens := limits.burst, updated := now, lastSeen := now }

/-- The tokens of a bucket, with those earned since its last update. -/
def refill (bucket : ClientBucket) (now : Int) : ℚ :=
  let tokens := bucket.tokens + seconds (sub now bucket.updated) * limits.requestsPerSecond
  -- what does not fit is lost
  if limits.burst < tokens then limits.burst else tokens

/-- `allow`. -/
def allow (l : RateLimiter) (clientID : String) (now : Int) : Bool × RateLimiter :=
  -- the cleanup comes before the request is looked at
  let l := l.cleanup now
  match limits.bucketFor l clientID now with
  | none => (false, l)
  | some bucket =>
    let tokens := limits.refill bucket now
    let updated := fun tokens : ℚ =>
      { l with buckets := l.buckets.set clientID ⟨tokens, now, now⟩ }
    if tokens < 1 then (false, updated tokens)
    else (true, updated (tokens - 1))

end RateLimits

/-- One call of `allow`. -/
structure Request where
  clientID : String
  now : Int
deriving DecidableEq

/-- The instant of a request. -/
def Request.time (request : Request) : ℚ := seconds request.now

/-- `allow` as a step of a machine. -/
def RateLimits.step (limits : RateLimits) (l : RateLimiter) (request : Request) :
    Bool × RateLimiter :=
  limits.allow l request.clientID request.now

/-- How many requests of the client a new limiter admits between two instants. -/
def RateLimits.admitted (limits : RateLimits) (start : Int) (requests : List Request)
    (clientID : String) (lo hi : ℚ) : Nat :=
  acceptedWithin limits.step Request.time (fun request => request.clientID = clientID) lo hi
    (newRateLimiter start) requests

/-! ## Section 2: The level of a client -/

section Level

variable (limits : RateLimits) (clientID : String)

/-- The tokens a request of the client would find: a client without bucket finds a full one. -/
def RateLimits.level (l : RateLimiter) (t : ℚ) : ℚ :=
  match l.buckets.get? clientID with
  | none => limits.burst
  | some bucket =>
    min limits.burst (bucket.tokens + limits.requestsPerSecond * (t - seconds bucket.updated))

/-- The bucket of the client is one that `allow` has left at or before `t`. -/
def BucketSound (l : RateLimiter) (t : ℚ) : Prop :=
  ∀ bucket, l.buckets.get? clientID = some bucket →
    0 ≤ bucket.tokens ∧ bucket.lastSeen = bucket.updated ∧ seconds bucket.updated ≤ t

variable {limits clientID} {l : RateLimiter} {t : ℚ} {now : Int}

theorem seconds_le_seconds {a b : Int} : seconds a ≤ seconds b ↔ a ≤ b := by
  unfold seconds
  rw [div_le_div_iff_of_pos_right (by norm_num)]
  exact Int.cast_le

theorem seconds_sub (a b : Int) : seconds (a - b) = seconds a - seconds b := by
  unfold seconds
  push_cast
  ring

/-- Elapsed time is never overstated. -/
theorem sub_le {a b : Int} (h : b ≤ a) : 0 ≤ sub a b ∧ sub a b ≤ a - b := by
  unfold sub
  omega

theorem RateLimits.level_nonneg (h : BucketSound clientID l t) : 0 ≤ limits.level clientID l t := by
  have hburst : (0 : ℚ) ≤ limits.burst := by exact_mod_cast limits.burst_pos.le
  unfold RateLimits.level
  cases hget : l.buckets.get? clientID with
  | none => exact hburst
  | some bucket =>
    obtain ⟨htokens, -, hupdated⟩ := h bucket hget
    refine le_min hburst (add_nonneg htokens ?_)
    exact mul_nonneg limits.requestsPerSecond_pos.le (sub_nonneg.mpr hupdated)

theorem RateLimits.level_le_burst : limits.level clientID l t ≤ limits.burst := by
  unfold RateLimits.level
  split
  · exact le_refl _
  · exact min_le_left _ _

theorem BucketSound.mono {t' : ℚ} (h : BucketSound clientID l t) (hle : t ≤ t') :
    BucketSound clientID l t' := fun bucket hget =>
  have hsound := h bucket hget
  ⟨hsound.1, hsound.2.1, hsound.2.2.trans hle⟩

/-- The level grows at most at the configured rate. -/
theorem RateLimits.level_grows {t' : ℚ} (hle : t ≤ t') :
    limits.level clientID l t' ≤
      limits.level clientID l t + limits.requestsPerSecond * (t' - t) := by
  have hgrowth : 0 ≤ limits.requestsPerSecond * (t' - t) :=
    mul_nonneg limits.requestsPerSecond_pos.le (sub_nonneg.mpr hle)
  unfold RateLimits.level
  cases l.buckets.get? clientID with
  | none => simpa using hgrowth
  | some bucket =>
    simp only
    rw [← min_add_add_right]
    refine le_min ((min_le_left _ _).trans (by linarith)) ((min_le_right _ _).trans ?_)
    linarith [mul_sub limits.requestsPerSecond t' (seconds bucket.updated),
      mul_sub limits.requestsPerSecond t (seconds bucket.updated),
      mul_sub limits.requestsPerSecond t' t]

end Level

/-! ## Section 3: What a client is granted -/

section Granted

variable {limits : RateLimits} {clientID : String} {l : RateLimiter} {now : Int}

/-- What the cleanup does to the bucket of a client. -/
theorem get?_cleanup : (l.cleanup now).buckets.get? clientID = l.buckets.get? clientID ∨
    ((l.cleanup now).buckets.get? clientID = none ∧ ∃ bucket,
      l.buckets.get? clientID = some bucket ∧ staleAfter ≤ sub now bucket.lastSeen) := by
  unfold RateLimiter.cleanup
  split
  · rw [FiniteMap.get?_filter]
    cases hget : l.buckets.get? clientID with
    | none => exact .inl rfl
    | some bucket =>
      by_cases hstale : staleAfter ≤ sub now bucket.lastSeen
      · exact .inr ⟨by simp [Option.filter, hstale], bucket, rfl, hstale⟩
      · exact .inl (by simp [Option.filter, hstale])
  -- no cleanup is due
  · exact .inl rfl

/-- Five idle minutes fill a bucket when the burst is not larger than what they earn. -/
theorem level_of_stale (hfull : limits.burst ≤ 300 * limits.requestsPerSecond)
    (hsound : BucketSound clientID l (seconds now)) {bucket : ClientBucket}
    (hget : l.buckets.get? clientID = some bucket) (hstale : staleAfter ≤ sub now bucket.lastSeen) :
    limits.level clientID l (seconds now) = limits.burst := by
  obtain ⟨htokens, hseen, hupdated⟩ := hsound bucket hget
  -- a stale bucket was last updated when it was last seen
  have hidle : staleAfter ≤ now - bucket.updated := by
    rw [hseen] at hstale
    exact hstale.trans (sub_le (seconds_le_seconds.mp hupdated)).2
  -- what 300 seconds earn
  have hearned : 300 * limits.requestsPerSecond ≤
      limits.requestsPerSecond * (seconds now - seconds bucket.updated) := by
    rw [← seconds_sub, mul_comm]
    refine mul_le_mul_of_nonneg_left ?_ limits.requestsPerSecond_pos.le
    have h := seconds_le_seconds.mpr hidle
    rwa [show seconds staleAfter = 300 by norm_num [seconds, staleAfter, minute]] at h
  rw [RateLimits.level, hget]
  exact min_eq_left (by linarith)

/-- The cleanup does not change what a client is granted. -/
theorem level_cleanup (hfull : limits.burst ≤ 300 * limits.requestsPerSecond)
    (hsound : BucketSound clientID l (seconds now)) :
    limits.level clientID (l.cleanup now) (seconds now) =
      limits.level clientID l (seconds now) := by
  rcases @get?_cleanup clientID l now with hsame | ⟨hnone, bucket, hget, hstale⟩
  · simp only [RateLimits.level, hsame]
  · rw [level_of_stale hfull hsound hget hstale, RateLimits.level, hnone]

theorem BucketSound.cleanup (h : BucketSound clientID l (seconds now)) :
    BucketSound clientID (l.cleanup now) (seconds now) := by
  intro bucket hget
  rcases @get?_cleanup clientID l now with hsame | ⟨hnone, -⟩
  · exact h bucket (hsame ▸ hget)
  · cases hnone.symm.trans hget

/-- A bucket that is updated holds no more than the level. -/
theorem refill_le_level (hsound : BucketSound clientID l (seconds now)) {bucket : ClientBucket}
    (hget : l.buckets.get? clientID = some bucket) :
    0 ≤ limits.refill bucket now ∧ limits.refill bucket now ≤ limits.burst ∧
      limits.refill bucket now ≤ limits.level clientID l (seconds now) := by
  obtain ⟨htokens, -, hupdated⟩ := hsound bucket hget
  obtain ⟨hnonneg, hle⟩ := sub_le (seconds_le_seconds.mp hupdated)
  have hburst : (0 : ℚ) ≤ limits.burst := by exact_mod_cast limits.burst_pos.le
  have hearned : 0 ≤ seconds (sub now bucket.updated) := by
    have h := seconds_le_seconds.mpr hnonneg
    rwa [show seconds 0 = 0 by norm_num [seconds]] at h
  have hproduct : 0 ≤ seconds (sub now bucket.updated) * limits.requestsPerSecond :=
    mul_nonneg hearned limits.requestsPerSecond_pos.le
  have hgrowth : seconds (sub now bucket.updated) * limits.requestsPerSecond ≤
      limits.requestsPerSecond * (seconds now - seconds bucket.updated) := by
    rw [mul_comm, ← seconds_sub]
    exact mul_le_mul_of_nonneg_left (seconds_le_seconds.mpr hle) limits.requestsPerSecond_pos.le
  rw [RateLimits.level, hget]
  simp only [RateLimits.refill]
  split
  -- a full bucket holds the burst, a bucket with room what was earned
  · rename_i hfull
    exact ⟨hburst, le_refl _, le_min (le_refl _) (by linarith)⟩
  · rename_i hroom
    exact ⟨by linarith, not_lt.mp hroom, le_min (not_lt.mp hroom) (by linarith)⟩

/-- The level of a client right after its bucket was written. -/
theorem level_set (l : RateLimiter) {tokens : ℚ} (hle : tokens ≤ limits.burst) :
    limits.level clientID { l with buckets := l.buckets.set clientID ⟨tokens, now, now⟩ }
      (seconds now) = tokens := by
  simp [RateLimits.level, FiniteMap.get?_set, hle]

theorem bucketSound_set (l : RateLimiter) {tokens : ℚ} (hnonneg : 0 ≤ tokens) :
    BucketSound clientID { l with buckets := l.buckets.set clientID ⟨tokens, now, now⟩ }
      (seconds now) := by
  intro bucket hget
  rw [FiniteMap.get?_set, if_pos rfl] at hget
  cases hget
  exact ⟨hnonneg, rfl, le_refl _⟩

/-- The bucket a request finds holds at most the level of the client. -/
theorem refill_bucketFor (hsound : BucketSound clientID l (seconds now)) {bucket : ClientBucket}
    (hbucket : limits.bucketFor l clientID now = some bucket) :
    0 ≤ limits.refill bucket now ∧ limits.refill bucket now ≤ limits.burst ∧
      limits.refill bucket now ≤ limits.level clientID l (seconds now) := by
  unfold RateLimits.bucketFor at hbucket
  cases hget : l.buckets.get? clientID with
  | some found =>
    rw [hget] at hbucket
    cases hbucket
    exact refill_le_level hsound hget
  | none =>
    -- a new bucket is full, as the level of a client without bucket is
    simp only [hget] at hbucket
    split at hbucket
    · cases hbucket
    · cases hbucket
      have hburst : (0 : ℚ) ≤ limits.burst := by exact_mod_cast limits.burst_pos.le
      have hrefill : limits.refill ⟨limits.burst, now, now⟩ now = limits.burst := by
        simp [RateLimits.refill, sub, seconds]
      rw [hrefill, RateLimits.level, hget]
      exact ⟨hburst, le_refl _, le_refl _⟩

/-- A request of the client pays for itself. -/
theorem allow_pays (hsound : BucketSound clientID (l.cleanup now) (seconds now)) :
    BucketSound clientID (limits.allow l clientID now).2 (seconds now) ∧
      limits.level clientID (limits.allow l clientID now).2 (seconds now) +
          (if (limits.allow l clientID now).1 = true then 1 else 0) ≤
        limits.level clientID (l.cleanup now) (seconds now) := by
  simp only [RateLimits.allow]
  cases hbucket : limits.bucketFor (l.cleanup now) clientID now with
  | none => exact ⟨hsound, by simp⟩
  | some bucket =>
    obtain ⟨hnonneg, hburst, hlevel⟩ := refill_bucketFor hsound hbucket
    -- a refused request keeps the tokens, an admitted one pays
    by_cases hempty : limits.refill bucket now < 1
    · simp only [if_pos hempty]
      refine ⟨bucketSound_set _ hnonneg, ?_⟩
      rw [level_set _ hburst]
      simpa using hlevel
    · have hone : 1 ≤ limits.refill bucket now := not_lt.mp hempty
      simp only [if_neg hempty]
      refine ⟨bucketSound_set _ (by linarith), ?_⟩
      rw [level_set _ (by linarith)]
      simpa using hlevel

/-- A request of another client leaves the bucket alone. -/
theorem get?_allow_of_ne {other : String} (h : clientID ≠ other) :
    (limits.allow l other now).2.buckets.get? clientID =
      (l.cleanup now).buckets.get? clientID := by
  simp only [RateLimits.allow]
  split
  · rfl
  · split <;> simp [FiniteMap.get?_set, h]

/-- **Budget**: the tokens of a client pay for its requests. -/
theorem budgeted_step (limits : RateLimits) (clientID : String)
    (hfull : limits.burst ≤ 300 * limits.requestsPerSecond) :
    Budgeted limits.step Request.time (fun request => request.clientID = clientID)
      (BucketSound clientID) (limits.level clientID) limits.requestsPerSecond limits.burst where
  rate_nonneg := limits.requestsPerSecond_pos.le
  nonneg _ _ hsound := RateLimits.level_nonneg hsound
  le_burst _ _ _ := RateLimits.level_le_burst
  grows _ _ _ hsound hle := ⟨hsound.mono hle, RateLimits.level_grows hle⟩
  pays l request hsound := by
    have hcleaned : BucketSound clientID (l.cleanup request.now) (seconds request.now) :=
      hsound.cleanup
    have hlevel : limits.level clientID (l.cleanup request.now) (seconds request.now) =
        limits.level clientID l (seconds request.now) := level_cleanup hfull hsound
    simp only [Accepts, RateLimits.step, Request.time, decide_eq_true_eq]
    rw [← hlevel]
    -- a request of another client neither counts nor pays
    by_cases hclient : request.clientID = clientID
    · rw [hclient]
      simpa using allow_pays hcleaned
    · have hsame := @get?_allow_of_ne limits clientID l request.now _ (Ne.symm hclient)
      simp only [hclient, false_and, if_false, add_zero]
      refine ⟨fun bucket hget => hcleaned bucket (hsame ▸ hget), le_of_eq ?_⟩
      simp only [RateLimits.level, hsame]

end Granted

/-! ## Section 4: Two bursts -/

section Bursts

variable (limits : RateLimits) (clientID : String) {now lastCleanup : Int} {lo hi : ℚ}

/-- The limiter with the bucket of one client, just updated. -/
def oneClient (tokens : ℚ) (now lastCleanup : Int) : RateLimiter :=
  ⟨.single clientID ⟨tokens, now, now⟩, lastCleanup⟩

theorem refill_now (tokens : ℚ) (hle : tokens ≤ limits.burst) :
    limits.refill ⟨tokens, now, now⟩ now = tokens := by
  simp [RateLimits.refill, sub, seconds, hle]

/-- A request takes a token. -/
theorem allow_oneClient {tokens : ℚ} (hrecent : sub now lastCleanup < minute)
    (hone : 1 ≤ tokens) (hle : tokens ≤ limits.burst) :
    limits.allow (oneClient clientID tokens now lastCleanup) clientID now =
      (true, oneClient clientID (tokens - 1) now lastCleanup) := by
  have hcleanup : (oneClient clientID tokens now lastCleanup).cleanup now =
      oneClient clientID tokens now lastCleanup := if_neg (not_le.mpr hrecent)
  have hbucket : limits.bucketFor (oneClient clientID tokens now lastCleanup) clientID now =
      some ⟨tokens, now, now⟩ := by
    simp [RateLimits.bucketFor, oneClient]
  simp only [RateLimits.allow, hcleanup, hbucket, refill_now limits tokens hle,
    if_neg (not_lt.mpr hone)]
  simp [oneClient, FiniteMap.set_single]

/-- The first request of a client creates its bucket. -/
theorem allow_first {l : RateLimiter} (hcleanup : l.cleanup now = ⟨.empty, lastCleanup⟩) :
    limits.allow l clientID now =
      (true, oneClient clientID (limits.burst - 1) now lastCleanup) := by
  have hroom :
      ¬ limits.maxBuckets ≤ ((FiniteMap.empty : FiniteMap String ClientBucket).size : Int) :=
    not_le.mpr limits.maxBuckets_pos
  have hbucket : limits.bucketFor ⟨.empty, lastCleanup⟩ clientID now =
      some ⟨limits.burst, now, now⟩ := by
    simp only [RateLimits.bucketFor, FiniteMap.get?_empty, if_neg hroom]
  have hone : ¬ (limits.burst : ℚ) < 1 := by
    rw [not_lt]
    exact_mod_cast limits.burst_pos
  simp only [RateLimits.allow, hcleanup, hbucket, refill_now limits _ (le_refl _), if_neg hone]
  rfl

/-- As many requests at one instant as the bucket has tokens are admitted. -/
theorem tokens_drained (hrecent : sub now lastCleanup < minute) (hlo : lo ≤ seconds now)
    (hhi : seconds now ≤ hi) (n : Nat) {tokens : ℚ} (hn : n ≤ tokens)
    (hle : tokens ≤ limits.burst) :
    acceptedWithin limits.step Request.time (fun request => request.clientID = clientID) lo hi
        (oneClient clientID tokens now lastCleanup) (List.replicate n ⟨clientID, now⟩) = n ∧
      runFrom (fun l request => (limits.step l request).2)
          (oneClient clientID tokens now lastCleanup) (List.replicate n ⟨clientID, now⟩) =
        oneClient clientID (tokens - n) now lastCleanup := by
  -- one token for each request
  induction n generalizing tokens with
  | zero => exact ⟨rfl, by simp⟩
  | succ n ih =>
    rw [Nat.cast_succ] at hn
    have hone : 1 ≤ tokens := by linarith [n.cast_nonneg (α := ℚ)]
    have hstep := allow_oneClient limits clientID hrecent hone hle
    obtain ⟨hcount, hleft⟩ := @ih (tokens - 1) (by linarith) (by linarith)
    rw [List.replicate_succ, acceptedWithin, runFrom_cons]
    simp only [RateLimits.step, hstep] at hcount hleft ⊢
    rw [hcount, hleft]
    refine ⟨?_, by rw [Nat.cast_succ, sub_sub, add_comm]⟩
    simp [Accepts, RateLimits.step, hstep, Request.time, hlo, hhi, Nat.add_comm]

/-- A whole burst at one instant, of a client without bucket. -/
theorem burst_drained {l : RateLimiter} (hcleanup : l.cleanup now = ⟨.empty, lastCleanup⟩)
    (hrecent : sub now lastCleanup < minute) (hlo : lo ≤ seconds now) (hhi : seconds now ≤ hi) :
    acceptedWithin limits.step Request.time (fun request => request.clientID = clientID) lo hi l
        (List.replicate limits.burst.toNat ⟨clientID, now⟩) = limits.burst.toNat ∧
      runFrom (fun l request => (limits.step l request).2) l
          (List.replicate limits.burst.toNat ⟨clientID, now⟩) =
        oneClient clientID 0 now lastCleanup := by
  -- the first request creates the bucket and takes its first token
  obtain ⟨n, hn⟩ : ∃ n : Nat, limits.burst = n + 1 :=
    ⟨(limits.burst - 1).toNat, by have := limits.burst_pos; omega⟩
  have hstep := allow_first limits clientID hcleanup
  have htokens : (limits.burst : ℚ) - 1 = n := by
    rw [hn]
    push_cast
    ring
  obtain ⟨hcount, hleft⟩ :=
    tokens_drained limits clientID hrecent hlo hhi n htokens.ge (by linarith)
  rw [show limits.burst.toNat = n + 1 by omega, List.replicate_succ, acceptedWithin, runFrom_cons]
  simp only [RateLimits.step, hstep] at hcount hleft ⊢
  rw [hcount, hleft, htokens, sub_self]
  refine ⟨?_, rfl⟩
  simp [Accepts, RateLimits.step, hstep, Request.time, hlo, hhi, Nat.add_comm]

/-- Two bursts of a client, five minutes apart. -/
def twoBursts : List Request :=
  List.replicate limits.burst.toNat ⟨clientID, 0⟩ ++
    List.replicate limits.burst.toNat ⟨clientID, staleAfter⟩

theorem chronological_twoBursts :
    Chronological Request.time (seconds 0) (twoBursts limits clientID) := by
  refine chronological_replicate_append _ (le_refl _) ?_
  rw [← List.append_nil (List.replicate limits.burst.toNat (⟨clientID, staleAfter⟩ : Request))]
  refine chronological_replicate_append _ (seconds_le_seconds.mpr ?_) trivial
  show (0 : Int) ≤ staleAfter
  decide

/-- The limiter drops the empty bucket in between, and admits both. -/
theorem admitted_twoBursts :
    limits.admitted 0 (twoBursts limits clientID) clientID 0 300 =
      limits.burst.toNat + limits.burst.toNat := by
  have hstart : seconds 0 = 0 := by norm_num [seconds]
  have hend : seconds staleAfter = 300 := by norm_num [seconds, staleAfter, minute]
  obtain ⟨hfirst, hleft⟩ := @burst_drained limits clientID 0 0 0 300 (newRateLimiter 0) rfl
    (by decide) hstart.ge (by rw [hstart]; norm_num)
  -- the cleanup of the first request after five minutes
  have hcleanup : (oneClient clientID 0 0 0).cleanup staleAfter = ⟨.empty, staleAfter⟩ := by
    rfl
  obtain ⟨hsecond, -⟩ := @burst_drained limits clientID staleAfter staleAfter 0 300 _ hcleanup
    (by decide) (by rw [hend]; norm_num) hend.le
  rw [RateLimits.admitted, twoBursts, acceptedWithin_append, hfirst, hleft, hsecond]

end Bursts

/-- What a rate limit promises: in every window of `length` seconds, a client is granted at most a
burst and what the rate gives in this time. -/
def RateBounded (limits : RateLimits) : Prop :=
  ∀ (start : Int) (requests : List Request) (clientID : String) (lo length : ℚ),
    Chronological Request.time (seconds start) requests → 0 ≤ length →
      (limits.admitted start requests clientID lo (lo + length) : ℚ) ≤
        limits.burst + limits.requestsPerSecond * length

/-- **Rate limit**: the bound holds exactly when five minutes at the rate earn a whole burst. -/
theorem rateBounded_iff (limits : RateLimits) :
    RateBounded limits ↔ limits.burst ≤ 300 * limits.requestsPerSecond := by
  constructor
  · intro hbounded
    -- two bursts in 300 seconds are too many, unless the second is earned
    have hbound := hbounded 0 (twoBursts limits "c") "c" 0 300
      (chronological_twoBursts limits "c") (by norm_num)
    rw [zero_add, admitted_twoBursts] at hbound
    have hburst : ((limits.burst.toNat : Nat) : ℚ) = limits.burst := by
      have h := Int.toNat_of_nonneg limits.burst_pos.le
      exact_mod_cast h
    push_cast at hbound
    rw [hburst] at hbound
    linarith
  · intro hfull start requests clientID lo length hchronological hlength
    have hsound : BucketSound clientID (newRateLimiter start) (seconds start) := by
      intro bucket hget
      cases hget
    have hbound := (budgeted_step limits clientID hfull).acceptedWithin_le hsound
      (le_add_of_nonneg_right hlength : lo ≤ lo + length) hchronological
    rwa [add_sub_cancel_left] at hbound

/-- One request in a quarter of an hour, with bursts of two. -/
def slowLimits : RateLimits where
  requestsPerSecond := 1 / 900
  burst := 2
  maxBuckets := 10000
  requestsPerSecond_pos := by norm_num
  burst_pos := by decide
  maxBuckets_pos := by decide

/-- Two bursts of two requests within five minutes are four requests. -/
theorem not_rateBounded_slowLimits : ¬ ∀ limits : RateLimits, RateBounded limits := by
  intro h
  have hbound := h slowLimits 0 (twoBursts slowLimits "c") "c" 0 300
    (chronological_twoBursts slowLimits "c") (by norm_num)
  rw [zero_add, admitted_twoBursts, show slowLimits.burst.toNat = 2 from rfl] at hbound
  norm_num [slowLimits] at hbound

end Nzovu.Gateway
