import Mathlib.Tactic.Ring
import Mathlib.Data.Int.Init

/-!
# Lease Policies and Lease Runtime

Translation of the lease arithmetic the storage layer runs when a message is claimed, kept
alive or extended (`pkg/repository/sql/lease.go`, with the protobuf messages of
`proto/common/v1`).

All timestamps are Unix milliseconds and every `+`, `-`, `*` on them is a 64-bit Go
operation; durations are `time.Duration`, that is nanoseconds in an `int64`.
-/

namespace Nzovu.Repository

/-! ## Section 1: 64-bit integers and durations -/

/-- Value of a Go `int64` expression whose exact value is `x` (two's complement). -/
def int64 (x : Int) : Int := x.bmod (2 ^ 64)

theorem int64_eq_self {x : Int} (hlo : -(2 ^ 63) ≤ x) (hhi : x < 2 ^ 63) : int64 x = x := by
  unfold int64
  rw [Int.bmod_eq_of_le] <;> omega

/-- `google.protobuf.Duration`. -/
structure Duration where
  seconds : Int
  nanos : Int
deriving DecidableEq, Repr

/-- `Duration.AsDuration`: nanoseconds, saturated at the ends of `int64` on overflow. -/
def Duration.asDuration (x : Duration) : Int :=
  let scaled := int64 (x.seconds * 1000000000)
  let d := int64 (scaled + x.nanos)
  let overflow := scaled.tdiv 1000000000 ≠ x.seconds ∨
    (x.seconds < 0 ∧ x.nanos < 0 ∧ 0 < d) ∨ (0 < x.seconds ∧ 0 < x.nanos ∧ d < 0)
  if overflow then
    if x.seconds < 0 then -(2 ^ 63)
    else if 0 < x.seconds then 2 ^ 63 - 1
    else d
  else d

/-- `AsDuration` on an optional field: an absent message reads as zero. -/
def asDuration : Option Duration → Int
  | none => 0
  | some x => x.asDuration

/-- `time.Duration.Milliseconds`, truncated towards zero. -/
def milliseconds (d : Int) : Int := d.tdiv 1000000

/-! ## Section 2: Policies -/

/-- `common.v1.LeasePolicy`. -/
structure LeasePolicy where
  baseLease : Option Duration
  maxExtension : Option Duration
  heartbeatTimeout : Option Duration
  extendStep : Option Duration
  /-- `0` means that renewals are not limited. -/
  maxRenewals : Int
deriving DecidableEq, Repr

/-- `LeaseRuntime`: the lease columns computed for one claim or extension. -/
structure LeaseRuntime where
  leaseStartedAt : Int
  leaseExpiry : Int
  lastHeartbeatAt : Int
  /-- `0` when the policy has no heartbeat timeout. -/
  heartbeatExpiry : Int
  leaseExtensionUsed : Int
deriving DecidableEq, Repr

/-! ## Section 3: Lease arithmetic -/

/-- `CalculateLeaseRuntimeWithDuration`: timestamps of a lease granted at `nowMs`. -/
def calculateLeaseRuntimeWithDuration (nowMs : Int) (policy : LeasePolicy)
    (leaseDuration : Int) : LeaseRuntime :=
  let heartbeatTimeoutMs := milliseconds (asDuration policy.heartbeatTimeout)
  { leaseStartedAt := nowMs
    leaseExpiry := int64 (nowMs + milliseconds leaseDuration)
    lastHeartbeatAt := nowMs
    heartbeatExpiry := if 0 < heartbeatTimeoutMs then int64 (nowMs + heartbeatTimeoutMs) else 0
    leaseExtensionUsed := 0 }

/-- `CalculateLeaseRuntime`: the same with the policy's own base lease. -/
def calculateLeaseRuntime (nowMs : Int) (policy : LeasePolicy) : LeaseRuntime :=
  calculateLeaseRuntimeWithDuration nowMs policy (asDuration policy.baseLease)

/-- The two errors of `ExtendLease`. -/
inductive LeaseError where
  | maxExtensionReached
  | invalidLeaseExtension
deriving DecidableEq, Repr

/-- Texts of the two errors. -/
def LeaseError.message : LeaseError → String
  | .maxExtensionReached => "maximum lease extension reached"
  | .invalidLeaseExtension => "lease extension must advance expiry by at least 1 millisecond"

/-- The extension actually granted: the request, or the policy's step when nothing is
requested, capped by what is left of the budget. -/
def grantedExtension (extendStepMs requestedExtensionMs remainingExtensionMs : Int) : Int :=
  let actual := if 0 < requestedExtensionMs then requestedExtensionMs else extendStepMs
  if remainingExtensionMs < actual then remainingExtensionMs else actual

/-- `ExtendLease`: the new expiry and the budget used after one extension. -/
def extendLease (policy : Option LeasePolicy) (currentLeaseExpiry currentExtensionUsed
    requestedExtensionMs : Int) : Except LeaseError LeaseRuntime :=
  let maxExtensionMs := milliseconds (asDuration (policy.bind (·.maxExtension)))
  let extendStepMs := milliseconds (asDuration (policy.bind (·.extendStep)))
  if maxExtensionMs ≤ currentExtensionUsed then .error .maxExtensionReached
  else
    -- The budget counts what has been used since the claim, not since the last extension.
    let actual := grantedExtension extendStepMs requestedExtensionMs
      (int64 (maxExtensionMs - currentExtensionUsed))
    let newExtensionUsed := int64 (currentExtensionUsed + actual)
    let newLeaseExpiry := int64 (currentLeaseExpiry + actual)
    -- Neither a request nor a step: nothing would be granted.
    if actual ≤ 0 then .error .invalidLeaseExtension
    -- The sum has wrapped.
    else if newLeaseExpiry ≤ currentLeaseExpiry then .error .invalidLeaseExtension
    else .ok
      { leaseStartedAt := 0
        leaseExpiry := newLeaseExpiry
        lastHeartbeatAt := 0
        heartbeatExpiry := 0
        leaseExtensionUsed := newExtensionUsed }

/-! ## Section 4: Accepted policies -/

/-- `durationpb.Duration.CheckValid`: within ten thousand years, nanoseconds below one second and
of the sign of the seconds. -/
def Duration.isValid (x : Duration) : Bool :=
  -315576000000 ≤ x.seconds && x.seconds ≤ 315576000000 &&
    -1000000000 < x.nanos && x.nanos < 1000000000 &&
    !(0 < x.seconds && x.nanos < 0) && !(x.seconds < 0 && 0 < x.nanos)

/-- A rule of `ValidateLeasePolicy` that a policy breaks; the error text also prints the
durations compared. -/
structure PolicyViolation where
  field : String
  rule : String
deriving DecidableEq, Repr

/-- One hour, in nanoseconds. -/
def hour : Int := 3600000000000

/-- The rules of `ValidateLeasePolicy` in the order they are checked, each with whether the
policy breaks it. -/
def leasePolicyRules (policy : LeasePolicy) : List (Bool × PolicyViolation) :=
  let invalid := fun d : Option Duration => d.any fun x => !x.isValid
  let baseLease := asDuration policy.baseLease
  let maxExtension := asDuration policy.maxExtension
  let heartbeatTimeout := asDuration policy.heartbeatTimeout
  let extendStep := asDuration policy.extendStep
  let totalLeaseTime := int64 (baseLease + maxExtension)
  [(invalid policy.baseLease, ⟨"lease_policy.base_lease", "is invalid"⟩),
   (invalid policy.maxExtension, ⟨"lease_policy.max_extension", "is invalid"⟩),
   (invalid policy.heartbeatTimeout, ⟨"lease_policy.heartbeat_timeout", "is invalid"⟩),
   (invalid policy.extendStep, ⟨"lease_policy.extend_step", "is invalid"⟩),
   (baseLease ≤ 0, ⟨"lease_policy.base_lease", "must be > 0"⟩),
   (milliseconds baseLease ≤ 0, ⟨"lease_policy.base_lease", "must be at least 1 millisecond"⟩),
   (hour < baseLease, ⟨"lease_policy.base_lease", "must be <= 1 hour"⟩),
   (maxExtension < 0, ⟨"lease_policy.max_extension", "must be >= 0"⟩),
   (0 < maxExtension && milliseconds maxExtension ≤ 0,
     ⟨"lease_policy.max_extension", "must be at least 1 millisecond when set"⟩),
   (heartbeatTimeout < 0, ⟨"lease_policy.heartbeat_timeout", "must be >= 0"⟩),
   (extendStep < 0, ⟨"lease_policy.extend_step", "must be >= 0"⟩),
   (0 < extendStep && milliseconds extendStep ≤ 0,
     ⟨"lease_policy.extend_step", "must be at least 1 millisecond when set"⟩),
   (policy.maxRenewals < 0, ⟨"lease_policy.max_renewals", "must be >= 0"⟩),
   (0 < heartbeatTimeout && (maxExtension ≤ 0 || extendStep ≤ 0),
     ⟨"lease_policy.max_extension and extend_step", "must be > 0 when heartbeat_timeout is set"⟩),
   (0 < maxExtension && maxExtension < extendStep,
     ⟨"lease_policy.max_extension", "must be >= extend_step"⟩),
   (0 < heartbeatTimeout && totalLeaseTime ≤ heartbeatTimeout,
     ⟨"lease_policy.heartbeat_timeout", "must be < total lease time"⟩),
   -- The sum of the two durations may wrap, and then passes.
   (hour < totalLeaseTime, ⟨"total lease time (base_lease + max_extension)", "must be < 1 hour"⟩),
   (0 < extendStep && baseLease < extendStep,
     ⟨"lease_policy.extend_step", "should not exceed base_lease"⟩)]

/-- `ValidateLeasePolicy`: the first broken rule; an absent policy breaks none. -/
def validateLeasePolicy : Option LeasePolicy → Except PolicyViolation Unit
  | none => .ok ()
  | some policy =>
    match (leasePolicyRules policy).find? Prod.fst with
    | some (_, violation) => .error violation
    | none => .ok ()

/-! ## Section 5: Ranges -/

theorem int64_range (x : Int) : -(2 ^ 63) ≤ int64 x ∧ int64 x < 2 ^ 63 := by
  have hlo := Int.le_bmod (x := x) (m := 2 ^ 64) (by decide)
  have hhi := Int.bmod_lt (x := x) (m := 2 ^ 64) (by decide)
  unfold int64
  omega

theorem asDuration_range (d : Option Duration) :
    -(2 ^ 63) ≤ asDuration d ∧ asDuration d < 2 ^ 63 := by
  cases d with
  | none => simp [asDuration]
  | some x =>
    have hrange := int64_range (int64 (x.seconds * 1000000000) + x.nanos)
    simp only [asDuration, Duration.asDuration]
    split
    · split
      · omega
      · split <;> omega
    · exact hrange

/-- Any duration has less than `2 ^ 44` milliseconds. -/
theorem milliseconds_range {d : Int} (hlo : 0 ≤ d) (hhi : d < 2 ^ 63) :
    0 ≤ milliseconds d ∧ milliseconds d < 2 ^ 44 := by
  unfold milliseconds
  rw [Int.tdiv_eq_ediv_of_nonneg hlo]
  omega

/-- The rules of an accepted policy that the lease arithmetic rests on. -/
structure LeasePolicy.Accepted (policy : LeasePolicy) : Prop where
  baseLease_pos : 0 < asDuration policy.baseLease
  maxExtension_nonneg : 0 ≤ asDuration policy.maxExtension
  extendStep_visible : 0 < asDuration policy.extendStep →
    0 < milliseconds (asDuration policy.extendStep)

theorem accepted_of_validateLeasePolicy {policy : LeasePolicy}
    (h : validateLeasePolicy (some policy) = .ok ()) : policy.Accepted := by
  have hall : ∀ rule ∈ leasePolicyRules policy, rule.1 = false := by
    simp only [validateLeasePolicy] at h
    split at h
    · cases h
    · rename_i hnone
      simpa using List.find?_eq_none.mp hnone
  simp only [leasePolicyRules, List.forall_mem_cons] at hall
  obtain ⟨-, -, -, -, hbase, -, -, hmax, -, -, -, hstep, -⟩ := hall
  simp only [decide_eq_false_iff_not, Int.not_le, Int.not_lt, Bool.and_eq_false_iff]
    at hbase hmax hstep
  exact ⟨hbase, hmax, fun hpos => hstep.resolve_left (Int.not_le.mpr hpos)⟩

/-- The largest extension of an accepted policy, in milliseconds. -/
theorem LeasePolicy.Accepted.maxExtension_range {policy : LeasePolicy} (h : policy.Accepted) :
    0 ≤ milliseconds (asDuration policy.maxExtension) ∧
      milliseconds (asDuration policy.maxExtension) < 2 ^ 44 :=
  milliseconds_range h.maxExtension_nonneg (asDuration_range _).2

/-! ## Section 6: Extending within the budget -/

/-- A granted extension takes part of what is left of the budget and moves the expiry by it. -/
theorem extendLease_ok {policy : LeasePolicy} {expiry used requested : Int}
    {runtime : LeaseRuntime} (hacc : policy.Accepted)
    (hexpiry : -(2 ^ 62) ≤ expiry ∧ expiry < 2 ^ 62) (hused : 0 ≤ used)
    (h : extendLease (some policy) expiry used requested = .ok runtime) :
    ∃ granted, 0 < granted ∧ used + granted ≤ milliseconds (asDuration policy.maxExtension) ∧
      runtime.leaseExpiry = expiry + granted ∧ runtime.leaseExtensionUsed = used + granted := by
  obtain ⟨-, hmax⟩ := hacc.maxExtension_range
  simp only [extendLease, Option.bind_some] at h
  split at h
  · cases h
  · rename_i hbudget
    -- No operation wraps: the budget is below 2 ^ 44 and the expiry below 2 ^ 62.
    rw [int64_eq_self (x := _ - used) (by omega) (by omega)] at h
    generalize hgranted : grantedExtension _ requested _ = granted at h
    have hle : granted ≤ milliseconds (asDuration policy.maxExtension) - used := by
      unfold grantedExtension at hgranted
      simp only at hgranted
      split at hgranted <;> omega
    split at h
    · cases h
    · split at h
      · cases h
      · cases h
        exact ⟨granted, by omega, by omega, int64_eq_self (by omega) (by omega),
          int64_eq_self (by omega) (by omega)⟩

/-- While some of the budget is left, an extension by a positive step is granted. -/
theorem extendLease_isOk {policy : LeasePolicy} {expiry used : Int} (hacc : policy.Accepted)
    (hexpiry : -(2 ^ 62) ≤ expiry ∧ expiry < 2 ^ 62) (hused : 0 ≤ used)
    (hleft : used < milliseconds (asDuration policy.maxExtension))
    (hstep : 0 < milliseconds (asDuration policy.extendStep)) :
    ∃ runtime, extendLease (some policy) expiry used
      (milliseconds (asDuration policy.extendStep)) = .ok runtime := by
  obtain ⟨-, hmax⟩ := hacc.maxExtension_range
  simp only [extendLease, Option.bind_some]
  rw [if_neg (by omega), int64_eq_self (x := _ - used) (by omega) (by omega)]
  generalize hgranted : grantedExtension _ _ _ = granted
  have hrange : 0 < granted ∧ granted ≤ milliseconds (asDuration policy.maxExtension) - used := by
    unfold grantedExtension at hgranted
    simp only [hstep, if_true] at hgranted
    split at hgranted <;> omega
  rw [if_neg (by omega), int64_eq_self (x := expiry + granted) (by omega) (by omega),
    if_neg (by omega)]
  exact ⟨_, rfl⟩

end Nzovu.Repository
