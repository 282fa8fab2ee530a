import Mathlib.Order.Interval.Finset.Nat
import Nzovu.Repository.QueueValidation
import Nzovu.Repository.System

/-!
# The Arithmetic of Weighted Claiming

`CalculateWeights` multiplies the weight of a level by the boost factor once its oldest message is
old enough. The product is an `int32`: a guard in front of the multiplication turns a product out
of its range into an error, which the claim returns. Nothing else can go wrong.

- Section 1: the weight of a level.
- Section 2: the weights of a queue.
- Section 3: claims.
- Section 4: the draw of a level.
-/

namespace Nzovu.Repository

open Nzovu.Foundation

/-! ## Section 1: The weight of a level -/

/-- The weights and the factor of a configuration are `int32` fields. -/
structure PriorityConfig.Int32 (cfg : PriorityConfig) : Prop where
  weights : ∀ e ∈ cfg.priorityWeights, -(2 ^ 31) ≤ e.2 ∧ e.2 < 2 ^ 31
  multiplier : -(2 ^ 31) ≤ cfg.ageBoostMultiplier ∧ cfg.ageBoostMultiplier < 2 ^ 31

/-- The oldest message of the level is old enough for a boost. -/
def Boosted (cfg : PriorityConfig) (nowMs createdAt : Int) : Prop :=
  (cfg.policy = .aging ∨ cfg.policy = .hybrid) ∧
    milliseconds (effectiveAgeThreshold cfg) ≤ int64 (nowMs - createdAt)

instance (cfg : PriorityConfig) (nowMs createdAt : Int) : Decidable (Boosted cfg nowMs createdAt) :=
  inferInstanceAs (Decidable (_ ∧ _))

/-- The weight of a level as an exact integer. -/
def exactWeight (cfg : PriorityConfig) (nowMs : Int) (level : PriorityLevel) :
    Option Int → Int
  | none => 0
  | some createdAt =>
    if Boosted cfg nowMs createdAt then getBaseWeight level cfg * effectiveBoostMultiplier cfg
    else getBaseWeight level cfg

/-- The boost takes the weight of the level out of the range of `int32`. -/
def Overflows (cfg : PriorityConfig) (nowMs : Int) (level : PriorityLevel)
    (oldest : Option Int) : Prop :=
  ∃ createdAt, oldest = some createdAt ∧ Boosted cfg nowMs createdAt ∧
    maxPriorityValue < getBaseWeight level cfg * effectiveBoostMultiplier cfg

theorem effectiveBoostMultiplier_pos (cfg : PriorityConfig) :
    0 < effectiveBoostMultiplier cfg := by
  unfold effectiveBoostMultiplier
  split <;> omega

theorem configuredWeight_le {cfg : PriorityConfig} (hcfg : cfg.Int32) (level : PriorityLevel) :
    configuredWeight level cfg.priorityWeights ≤ maxPriorityValue := by
  unfold configuredWeight
  cases hfind : cfg.priorityWeights.find? fun e => e.1 = level.weightKey with
  | none => simp [maxPriorityValue]
  | some e =>
    have hrange := hcfg.weights e (List.mem_of_find?_eq_some hfind)
    simp only [Option.map_some, Option.getD_some, maxPriorityValue]
    omega

/-- A level without a configured weight has its default. -/
theorem getBaseWeight_pos (cfg : PriorityConfig) (level : PriorityLevel) :
    0 < getBaseWeight level cfg := by
  simp only [getBaseWeight]
  split
  · assumption
  · cases level <;> decide

theorem getBaseWeight_le {cfg : PriorityConfig} (hcfg : cfg.Int32) (level : PriorityLevel) :
    getBaseWeight level cfg ≤ maxPriorityValue := by
  have hle := configuredWeight_le hcfg level
  simp only [getBaseWeight]
  split
  · exact hle
  · cases level <;> decide

/-- The guard of the boost, read as a bound on the product. -/
theorem guard_iff (cfg : PriorityConfig) (weight : Int) :
    maxPriorityValue.tdiv (effectiveBoostMultiplier cfg) < weight ↔
      maxPriorityValue < weight * effectiveBoostMultiplier cfg := by
  rw [Int.tdiv_eq_ediv_of_nonneg (by decide)]
  exact Int.ediv_lt_iff_lt_mul (effectiveBoostMultiplier_pos cfg)

/-- `levelWeight` of a level with messages. -/
theorem levelWeight_some (cfg : PriorityConfig) (nowMs : Int) (level : PriorityLevel)
    (createdAt : Int) :
    levelWeight cfg nowMs level (some createdAt) =
      if Boosted cfg nowMs createdAt then
        if maxPriorityValue < getBaseWeight level cfg * effectiveBoostMultiplier cfg then
          .error (.plain ("priority weight overflow for " ++ level.name))
        else .ok (getBaseWeight level cfg * effectiveBoostMultiplier cfg)
      else .ok (getBaseWeight level cfg) := by
  simp only [levelWeight, guard_iff]
  rfl

/-- A level without overflow has its exact weight. -/
theorem levelWeight_ok {cfg : PriorityConfig} {nowMs : Int} {level : PriorityLevel}
    {oldest : Option Int} (h : ¬ Overflows cfg nowMs level oldest) :
    levelWeight cfg nowMs level oldest = .ok (exactWeight cfg nowMs level oldest) := by
  cases oldest with
  | none => rfl
  | some createdAt =>
    rw [levelWeight_some, exactWeight]
    by_cases hboost : Boosted cfg nowMs createdAt
    · have hfits : ¬ maxPriorityValue < getBaseWeight level cfg * effectiveBoostMultiplier cfg :=
        fun hlt => h ⟨createdAt, rfl, hboost, hlt⟩
      rw [if_pos hboost, if_neg hfits, if_pos hboost]
    · rw [if_neg hboost, if_neg hboost]

/-- A level with overflow ends the calculation. -/
theorem levelWeight_error {cfg : PriorityConfig} {nowMs : Int} {level : PriorityLevel}
    {oldest : Option Int} (h : Overflows cfg nowMs level oldest) :
    levelWeight cfg nowMs level oldest =
      .error (.plain ("priority weight overflow for " ++ level.name)) := by
  obtain ⟨createdAt, rfl, hboost, hlt⟩ := h
  rw [levelWeight_some, if_pos hboost, if_pos hlt]

/-- A level with a message has a positive weight, the others have none. -/
theorem exactWeight_pos_iff {cfg : PriorityConfig} {nowMs : Int} {level : PriorityLevel}
    {oldest : Option Int} : 0 < exactWeight cfg nowMs level oldest ↔ oldest ≠ none := by
  have hbase := getBaseWeight_pos cfg level
  cases oldest with
  | none => simp [exactWeight]
  | some createdAt =>
    simp only [exactWeight, ne_eq, reduceCtorEq, not_false_iff, iff_true]
    split
    · exact Int.mul_pos hbase (effectiveBoostMultiplier_pos cfg)
    · exact hbase

theorem exactWeight_nonneg (cfg : PriorityConfig) (nowMs : Int) (level : PriorityLevel)
    (oldest : Option Int) : 0 ≤ exactWeight cfg nowMs level oldest := by
  cases oldest with
  | none => exact Int.le_refl 0
  | some createdAt => exact Int.le_of_lt (exactWeight_pos_iff.mpr (by simp))

theorem exactWeight_le {cfg : PriorityConfig} (hcfg : cfg.Int32) {nowMs : Int}
    {level : PriorityLevel} {oldest : Option Int} (h : ¬ Overflows cfg nowMs level oldest) :
    exactWeight cfg nowMs level oldest ≤ maxPriorityValue := by
  cases oldest with
  | none => simp [exactWeight, maxPriorityValue]
  | some createdAt =>
    simp only [exactWeight]
    split
    next hboost => exact Int.not_lt.mp fun hlt => h ⟨createdAt, rfl, hboost, hlt⟩
    next => exact getBaseWeight_le hcfg level

/-! ## Section 2: The weights of a queue -/

/-- `weights[level]`. -/
def LevelWeights.at (weights : LevelWeights) : PriorityLevel → Int
  | .high => weights.high
  | .medium => weights.medium
  | .low => weights.low

/-- The `int64` total `SelectPriorityLevel` draws from. -/
def LevelWeights.total (weights : LevelWeights) : Int :=
  weights.high + weights.medium + weights.low

/-- The weights of all levels as exact integers. -/
def exactWeights (cfg : PriorityConfig) (nowMs : Int) (oldest : PriorityLevel → Option Int) :
    LevelWeights where
  high := exactWeight cfg nowMs .high (oldest .high)
  medium := exactWeight cfg nowMs .medium (oldest .medium)
  low := exactWeight cfg nowMs .low (oldest .low)

theorem exactWeights_at (cfg : PriorityConfig) (nowMs : Int) (oldest : PriorityLevel → Option Int)
    (level : PriorityLevel) :
    (exactWeights cfg nowMs oldest).at level = exactWeight cfg nowMs level (oldest level) := by
  cases level <;> rfl

/-- What `CalculateWeights` promises of its result: exact `int32` values, none negative, and a
positive total. -/
structure WeightsExact (cfg : PriorityConfig) (nowMs : Int) (oldest : PriorityLevel → Option Int)
    (weights : LevelWeights) : Prop where
  exact : ∀ level, weights.at level = exactWeight cfg nowMs level (oldest level)
  range : ∀ level, 0 ≤ weights.at level ∧ weights.at level < 2 ^ 31
  total_pos : 0 < weights.total

/-- No level has a waiting message. -/
def NoneWaiting (oldest : PriorityLevel → Option Int) : Prop := ∀ level, oldest level = none

theorem noneWaiting_iff {oldest : PriorityLevel → Option Int} :
    NoneWaiting oldest ↔ oldest .high = none ∧ oldest .medium = none ∧ oldest .low = none := by
  constructor
  · exact fun h => ⟨h _, h _, h _⟩
  · rintro ⟨hhigh, hmedium, hlow⟩ level
    cases level <;> assumption

instance (oldest : PriorityLevel → Option Int) : Decidable (NoneWaiting oldest) :=
  decidable_of_iff' _ noneWaiting_iff

/-- The total is positive as soon as one level has a message. -/
theorem exactWeights_total_pos {cfg : PriorityConfig} {nowMs : Int}
    {oldest : PriorityLevel → Option Int} (h : ¬ NoneWaiting oldest) :
    0 < (exactWeights cfg nowMs oldest).total := by
  have hhigh := exactWeight_nonneg cfg nowMs .high (oldest .high)
  have hmedium := exactWeight_nonneg cfg nowMs .medium (oldest .medium)
  have hlow := exactWeight_nonneg cfg nowMs .low (oldest .low)
  simp only [NoneWaiting, not_forall] at h
  -- One summand is positive and none is negative.
  obtain ⟨level, hlevel⟩ := h
  have hpos : 0 < exactWeight cfg nowMs level (oldest level) := exactWeight_pos_iff.mpr hlevel
  simp only [LevelWeights.total, exactWeights]
  cases level <;> omega

/-- Without overflow the weights are exact, and there are none for an empty queue. -/
theorem calculateWeights_ok {cfg : PriorityConfig} {nowMs : Int}
    {oldest : PriorityLevel → Option Int}
    (h : ∀ level, ¬ Overflows cfg nowMs level (oldest level)) :
    calculateWeights cfg nowMs oldest =
      .ok (if NoneWaiting oldest then none else some (exactWeights cfg nowMs oldest)) := by
  simp only [calculateWeights, levelWeight_ok (h _), bind, Except.bind, pure, Except.pure,
    Option.isNone_iff_eq_none, Bool.and_eq_true, and_assoc, ← noneWaiting_iff]
  by_cases hnone : NoneWaiting oldest
  · rw [if_pos hnone, if_pos hnone]
  · have htotal := @exactWeights_total_pos cfg nowMs _ hnone
    -- the weights are never all replaced by one
    rw [if_neg hnone, if_neg hnone]
    exact if_neg (Int.ne_of_gt htotal)

theorem weightsExact_exactWeights {cfg : PriorityConfig} (hcfg : cfg.Int32) {nowMs : Int}
    {oldest : PriorityLevel → Option Int}
    (h : ∀ level, ¬ Overflows cfg nowMs level (oldest level)) (hwaiting : ¬ NoneWaiting oldest) :
    WeightsExact cfg nowMs oldest (exactWeights cfg nowMs oldest) where
  exact := exactWeights_at cfg nowMs oldest
  range level := by
    have hle := exactWeight_le hcfg (h level)
    have hnonneg := exactWeight_nonneg cfg nowMs level (oldest level)
    rw [exactWeights_at]
    simp only [maxPriorityValue] at hle
    omega
  total_pos := exactWeights_total_pos hwaiting

/-- An overflow of any level is an error of the whole calculation. -/
theorem calculateWeights_error {cfg : PriorityConfig} {nowMs : Int}
    {oldest : PriorityLevel → Option Int} {level : PriorityLevel}
    (h : Overflows cfg nowMs level (oldest level)) :
    ∃ level', Overflows cfg nowMs level' (oldest level') ∧
      calculateWeights cfg nowMs oldest =
        .error (.plain ("priority weight overflow for " ++ level'.name)) := by
  -- the levels are visited from high to low, and the first overflow is reported
  simp only [calculateWeights, bind, Except.bind]
  by_cases hhigh : Overflows cfg nowMs .high (oldest .high)
  · exact ⟨.high, hhigh, by rw [levelWeight_error hhigh]⟩
  rw [levelWeight_ok hhigh]
  by_cases hmedium : Overflows cfg nowMs .medium (oldest .medium)
  · exact ⟨.medium, hmedium, by rw [levelWeight_error hmedium]⟩
  rw [levelWeight_ok hmedium]
  have hlow : Overflows cfg nowMs .low (oldest .low) := by
    cases level with
    | high => exact absurd h hhigh
    | medium => exact absurd h hmedium
    | low => exact h
  exact ⟨.low, hlow, by rw [levelWeight_error hlow]⟩

/-! ## Section 3: Claims -/

/-- The age of the oldest waiting message of each level of a queue. -/
def oldestOfQueue (db : Database) (queueName : String) (nowMs : Int) :
    PriorityLevel → Option Int :=
  fun level => oldestCreatedAt db.messages.rows queueName level nowMs

/-- The weights end the claim: everything before them succeeds, and their error is returned. -/
def FailsOnWeights (db : Database) (clock : Readings) (req : ClaimRequest) : Prop :=
  ∃ metadata err, getQueueMetadata db req.queueName = .ok metadata ∧
    validateClaimExclusivity metadata req.exclusivityKey = .ok () ∧
    claimLevel db metadata req (clock 0) = .error err ∧
    claimMessageWithLeaseDuration db clock req = .error err

/-- What holds of weighted claiming on a queue: the weights fail on an overflow only, else they are
exact, and a claim fails on them when they fail. -/
structure WeightedClaiming (cfg : PriorityConfig) (db : Database) (queueName : String)
    (nowMs : Int) : Prop where
  error_iff : (∃ err, calculateWeights cfg nowMs (oldestOfQueue db queueName nowMs) = .error err) ↔
    ∃ level, Overflows cfg nowMs level (oldestOfQueue db queueName nowMs level)
  exact : ∀ weights, calculateWeights cfg nowMs (oldestOfQueue db queueName nowMs) = .ok weights →
    (weights = none ↔ NoneWaiting (oldestOfQueue db queueName nowMs)) ∧
      ∀ w, weights = some w → WeightsExact cfg nowMs (oldestOfQueue db queueName nowMs) w
  claim_iff : ∀ (clock : Readings) (req : ClaimRequest) (metadata : QueueMetadata),
    req.queueName = queueName → clock 0 = nowMs →
    getQueueMetadata db queueName = .ok metadata → metadata.priorityConfig = some cfg →
    validateClaimExclusivity metadata req.exclusivityKey = .ok () →
      (FailsOnWeights db clock req ↔
        ∃ level, Overflows cfg nowMs level (oldestOfQueue db queueName nowMs level))

/-- Only a boosted level overflows, which no level of a strict queue is. -/
theorem not_overflows_strict {cfg : PriorityConfig} (hpolicy : cfg.policy = .strict) {nowMs : Int}
    {level : PriorityLevel} {oldest : Option Int} : ¬ Overflows cfg nowMs level oldest := by
  rintro ⟨createdAt, -, ⟨hboost, -⟩, -⟩
  simp [hpolicy] at hboost

/-- The level of a claim whose weights are known. -/
theorem claimLevel_eq {metadata : QueueMetadata} {cfg : PriorityConfig}
    (hcfg : metadata.priorityConfig = some cfg) (db : Database) (req : ClaimRequest)
    (nowMs : Int) :
    claimLevel db metadata req nowMs =
      if cfg.policy = .strict then .ok none
      else
        match calculateWeights cfg nowMs (oldestOfQueue db req.queueName nowMs) with
        | .error err => .error err
        | .ok weights => .ok (some (selectPriorityLevel weights req.randomSource)) := by
  simp only [claimLevel, hcfg]
  rfl

/-- A claim that passes its first checks fails on the weights exactly when a level overflows. -/
theorem failsOnWeights_iff {db : Database} {clock : Readings} {req : ClaimRequest}
    {metadata : QueueMetadata} {cfg : PriorityConfig}
    (hmetadata : getQueueMetadata db req.queueName = .ok metadata)
    (hcfg : metadata.priorityConfig = some cfg)
    (hkey : validateClaimExclusivity metadata req.exclusivityKey = .ok ()) :
    FailsOnWeights db clock req ↔
      ∃ level, Overflows cfg (clock 0) level
        (oldestOfQueue db req.queueName (clock 0) level) := by
  have hlevel := claimLevel_eq hcfg db req (clock 0)
  by_cases hpolicy : cfg.policy = .strict
  · rw [if_pos hpolicy] at hlevel
    constructor
    · rintro ⟨metadata', err, hmetadata', -, herror, -⟩
      cases hmetadata.symm.trans hmetadata'
      cases hlevel.symm.trans herror
    · rintro ⟨level, hoverflow⟩
      exact absurd hoverflow (not_overflows_strict hpolicy)
  rw [if_neg hpolicy] at hlevel
  constructor
  · rintro ⟨metadata', err, hmetadata', -, herror, -⟩
    cases hmetadata.symm.trans hmetadata'
    by_contra hnone
    push Not at hnone
    rw [calculateWeights_ok hnone] at hlevel
    cases hlevel.symm.trans herror
  · rintro ⟨level, hoverflow⟩
    obtain ⟨level', -, herror⟩ := calculateWeights_error hoverflow
    rw [herror] at hlevel
    refine ⟨metadata, _, hmetadata, hkey, hlevel, ?_⟩
    simp only [claimMessageWithLeaseDuration, hmetadata, hkey, hlevel]

/-- **Weighted claiming**: for every configuration and whatever the queue holds, the weights are
exact unless a boost overflows, and nothing but that overflow makes a claim fail on them. -/
theorem weightedClaiming_exact {cfg : PriorityConfig} (hint32 : cfg.Int32) (db : Database)
    (queueName : String) (nowMs : Int) : WeightedClaiming cfg db queueName nowMs where
  error_iff := by
    constructor
    · rintro ⟨err, herror⟩
      by_contra hnone
      push Not at hnone
      cases herror.symm.trans (calculateWeights_ok hnone)
    · rintro ⟨level, hoverflow⟩
      obtain ⟨level', -, herror⟩ := calculateWeights_error hoverflow
      exact ⟨_, herror⟩
  exact := by
    intro weights hweights
    have hnone : ∀ level, ¬ Overflows cfg nowMs level (oldestOfQueue db queueName nowMs level) := by
      intro level hoverflow
      obtain ⟨level', -, herror⟩ := calculateWeights_error hoverflow
      cases hweights.symm.trans herror
    rw [calculateWeights_ok hnone, Except.ok.injEq] at hweights
    subst hweights
    by_cases hempty : NoneWaiting (oldestOfQueue db queueName nowMs)
    · rw [if_pos hempty]
      exact ⟨⟨fun _ => hempty, fun _ => rfl⟩, fun w hw => nomatch hw⟩
    · rw [if_neg hempty]
      refine ⟨⟨fun hnone => (nomatch hnone), fun hnone => absurd hnone hempty⟩, ?_⟩
      rintro w ⟨⟩
      exact weightsExact_exactWeights hint32 hnone hempty
  claim_iff := by
    rintro clock req metadata rfl rfl hmetadata hcfg hkey
    exact failsOnWeights_iff hmetadata hcfg hkey

/-- A hybrid configuration with this weight for the high level, boosted by 2 after a minute. -/
def hybridConfig (highWeight : Int) : PriorityConfig where
  policy := .hybrid
  priorityWeights := [(4, highWeight)]
  ageBoostThreshold := some ⟨60, 0⟩
  ageBoostMultiplier := 2

theorem hybridConfig_int32 {highWeight : Int} (hlo : 0 ≤ highWeight) (hhi : highWeight < 2 ^ 31) :
    (hybridConfig highWeight).Int32 where
  weights := by
    simp only [hybridConfig, List.mem_singleton, forall_eq]
    omega
  multiplier := by simp [hybridConfig]

/-- A queue with this configuration and a message of priority 4. -/
def hybridQueue (highWeight : Int) : List Operation :=
  [.createQueue "jobs" { priorityConfig := some (hybridConfig highWeight) },
   .enqueue (fun _ => 0) "jobs" ⟨"m", some ⟨.pending, 3, 3, 4, none, some
    ⟨some ⟨30, 0⟩, none, none, none, 0⟩⟩⟩]

/-- The claim of a message after two minutes. -/
def claimJobs : ClaimRequest := ⟨"jobs", "w", "a", "", 0, 0, "g", "", generatedAttemptId_ne⟩

/-- A weight of 70 becomes 140. -/
theorem weightedClaiming_hybrid :
    WeightedClaiming (hybridConfig 70) (System.run (hybridQueue 70)).db "jobs" 120000 ∧
      calculateWeights (hybridConfig 70) 120000
        (oldestOfQueue (System.run (hybridQueue 70)).db "jobs" 120000) =
          .ok (some ⟨140, 0, 0⟩) :=
  ⟨weightedClaiming_exact (hybridConfig_int32 (by decide) (by decide)) _ _ _, by decide⟩

/-- The largest `int32` is an accepted weight; once the message is a minute old, every claim on
the queue fails. -/
theorem not_weightedClaiming_total :
    (¬ ∀ cfg : PriorityConfig, cfg.Int32 → validatePriorityConfig (some cfg) = .ok () →
      ∀ (db : Database) (queueName : String) (nowMs : Int),
        ∃ weights, calculateWeights cfg nowMs (oldestOfQueue db queueName nowMs) = .ok weights) ∧
    ¬ ∀ cfg : PriorityConfig, cfg.Int32 → validatePriorityConfig (some cfg) = .ok () →
      ∀ (db : Database) (clock : Readings) (req : ClaimRequest) (metadata : QueueMetadata),
        getQueueMetadata db req.queueName = .ok metadata → metadata.priorityConfig = some cfg →
          ¬ FailsOnWeights db clock req := by
  have hint32 : (hybridConfig maxPriorityValue).Int32 :=
    hybridConfig_int32 (by decide) (by decide)
  constructor
  · intro h
    obtain ⟨weights, hok⟩ := h _ hint32 (by decide)
      (System.run (hybridQueue maxPriorityValue)).db "jobs" 120000
    have herror : calculateWeights (hybridConfig maxPriorityValue) 120000
        (oldestOfQueue (System.run (hybridQueue maxPriorityValue)).db "jobs" 120000) =
          .error (.plain "priority weight overflow for high") := by decide
    cases hok.symm.trans herror
  · intro h
    refine h _ hint32 (by decide) (System.run (hybridQueue maxPriorityValue)).db (fun _ => 120000)
      claimJobs _ rfl rfl ?_
    exact ⟨_, .plain "priority weight overflow for high", rfl, rfl, rfl, rfl⟩

/-! ## Section 4: The draw of a level -/

/-- The draws of `rng.Int63n(total)` that select a level. -/
def drawsOf (weights : LevelWeights) (level : PriorityLevel) : Finset Nat :=
  (Finset.range weights.total.toNat).filter fun draw =>
    selectPriorityLevel (some weights) draw = some level

/-- What the draws with a level have in common: they lie between two cumulative weights. -/
def LevelWeights.cumulative (weights : LevelWeights) : PriorityLevel → Int
  | .high => 0
  | .medium => weights.high
  | .low => weights.high + weights.medium

/-- What the draw promises: as the random number ranges over all its values, every level is selected
as often as its weight says, so that a level without weight never is, and some level always is. -/
structure DrawnByWeight (weights : LevelWeights) : Prop where
  exact : ∀ level, (drawsOf weights level).card = weights.at level
  weighted : ∀ level, weights.at level = 0 → drawsOf weights level = ∅
  always : ∀ draw : Nat, draw < weights.total → selectPriorityLevel (some weights) draw ≠ none

section Draw

variable {weights : LevelWeights}

/-- A draw below the total selects the level in whose part of the total it lies. -/
theorem selectPriorityLevel_eq_some (hnonneg : ∀ level, 0 ≤ weights.at level) {draw : Nat}
    (hdraw : draw < weights.total) {level : PriorityLevel} :
    selectPriorityLevel (some weights) draw = some level ↔
      weights.cumulative level ≤ draw ∧ draw < weights.cumulative level + weights.at level := by
  have hhigh : 0 ≤ weights.high := hnonneg .high
  have hmedium : 0 ≤ weights.medium := hnonneg .medium
  unfold LevelWeights.total at hdraw
  have hmod : (draw : Int) % (weights.high + weights.medium + weights.low) = draw :=
    Int.emod_eq_of_lt (Int.natCast_nonneg draw) hdraw
  have htotal : ¬ weights.high + weights.medium + weights.low ≤ 0 := by omega
  simp only [selectPriorityLevel, if_neg htotal, hmod]
  by_cases hfirst : (draw : Int) < weights.high
  · rw [if_pos hfirst]
    cases level <;> simp [LevelWeights.cumulative, LevelWeights.at] <;> omega
  · rw [if_neg hfirst]
    by_cases hsecond : (draw : Int) < weights.high + weights.medium
    · rw [if_pos hsecond]
      cases level <;> simp [LevelWeights.cumulative, LevelWeights.at] <;> omega
    · rw [if_neg hsecond, if_pos hdraw]
      cases level <;> simp [LevelWeights.cumulative, LevelWeights.at] <;> omega

/-- The part of a level lies within the total. -/
theorem LevelWeights.part_le (hnonneg : ∀ level, 0 ≤ weights.at level) (level : PriorityLevel) :
    0 ≤ weights.cumulative level ∧
      weights.cumulative level + weights.at level ≤ weights.total := by
  have hhigh : 0 ≤ weights.high := hnonneg .high
  have hmedium : 0 ≤ weights.medium := hnonneg .medium
  have hlow : 0 ≤ weights.low := hnonneg .low
  cases level <;> simp only [LevelWeights.cumulative, LevelWeights.at, LevelWeights.total] <;> omega

/-- The draws of a level are consecutive. -/
theorem drawsOf_eq (hnonneg : ∀ level, 0 ≤ weights.at level) (level : PriorityLevel) :
    drawsOf weights level = Finset.Ico (weights.cumulative level).toNat
      (weights.cumulative level + weights.at level).toNat := by
  have hpart := LevelWeights.part_le hnonneg level
  have hlevel := hnonneg level
  ext draw
  rw [drawsOf, Finset.mem_filter, Finset.mem_range, Finset.mem_Ico]
  constructor
  · rintro ⟨hdraw, hselect⟩
    have hbounds := (selectPriorityLevel_eq_some hnonneg (by omega)).mp hselect
    omega
  · rintro ⟨hlo, hhi⟩
    exact ⟨by omega, (selectPriorityLevel_eq_some hnonneg (by omega)).mpr (by omega)⟩

/-- **The weighted draw** is exact for all weights that `int32` holds. A total of zero has no draws
at all. -/
theorem drawnByWeight (hrange : ∀ level, 0 ≤ weights.at level ∧ weights.at level < 2 ^ 31) :
    DrawnByWeight weights := by
  have hnonneg := fun level => (hrange level).1
  have hcard : ∀ level, ((drawsOf weights level).card : Int) = weights.at level := by
    intro level
    have hpart := LevelWeights.part_le hnonneg level
    have hlevel := hnonneg level
    rw [drawsOf_eq hnonneg, Nat.card_Ico]
    omega
  refine ⟨hcard, fun level hzero => ?_, fun draw hdraw hnone => ?_⟩
  · rw [← Finset.card_eq_zero]
    have hlevel := hcard level
    omega
  · -- the parts of the three levels cover the total
    have hmissed : ∀ level, ¬ (weights.cumulative level ≤ draw ∧
        draw < weights.cumulative level + weights.at level) := fun level hpart =>
      absurd (hnone.symm.trans ((selectPriorityLevel_eq_some hnonneg hdraw).mpr hpart)) (by simp)
    have hhigh := hmissed .high
    have hmedium := hmissed .medium
    have hlow := hmissed .low
    simp only [LevelWeights.cumulative, LevelWeights.at] at hhigh hmedium hlow
    unfold LevelWeights.total at hdraw
    omega

end Draw

/-- The default weights without waiting messages of medium priority. -/
theorem drawnByWeight_withoutMedium : DrawnByWeight ⟨70, 0, 10⟩ :=
  drawnByWeight fun level => by cases level <;> decide

end Nzovu.Repository
