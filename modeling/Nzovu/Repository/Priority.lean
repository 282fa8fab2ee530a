import Nzovu.Repository.Counters

/-!
# Weighted Claiming

The priority level a claim looks at first on a queue without strict ordering
(`pkg/repository/sql/priority/weighting.go`): `CalculateWeights` gives each level with a
waiting message its weight, boosted when the oldest message there is old enough, and
`SelectPriorityLevel` draws one level in proportion.
-/

namespace Nzovu.Repository

open Nzovu.Foundation

/-- The logical priority levels `"high"`, `"medium"`, `"low"`. -/
inductive PriorityLevel where
  | high
  | medium
  | low
deriving DecidableEq, Repr

/-- The level's name in errors. -/
def PriorityLevel.name : PriorityLevel → String
  | .high => "high"
  | .medium => "medium"
  | .low => "low"

/-- `maxPriorityValue`. -/
def maxPriorityValue : Int := 2147483647

/-- `PriorityLevelToRange`: smallest and largest priority of a level. -/
def priorityLevelToRange : PriorityLevel → Int × Int
  | .high => (3, maxPriorityValue)
  | .medium => (2, 2)
  | .low => (0, 1)

/-- The priority of `row` lies in the level's range. -/
def inLevel (level : PriorityLevel) (row : MessageRow) : Bool :=
  (priorityLevelToRange level).1 ≤ row.priority && row.priority ≤ (priorityLevelToRange level).2

/-- The key of a level in `priority_weights`. -/
def PriorityLevel.weightKey : PriorityLevel → Int
  | .high => 4
  | .medium => 2
  | .low => 0

/-- `defaultHighWeight`, `defaultMediumWeight`, `defaultLowWeight`. -/
def PriorityLevel.defaultWeight : PriorityLevel → Int
  | .high => 70
  | .medium => 20
  | .low => 10

/-- `configuredWeight`: a missing map entry reads as zero. -/
def configuredWeight (level : PriorityLevel) (weights : List (Int × Int)) : Int :=
  ((weights.find? fun e => e.1 = level.weightKey).map Prod.snd).getD 0

/-- `getBaseWeight`. -/
def getBaseWeight (level : PriorityLevel) (cfg : PriorityConfig) : Int :=
  let w := configuredWeight level cfg.priorityWeights
  -- A weight of zero in the configuration means the default, like a missing one.
  if 0 < w then w else level.defaultWeight

/-- `oldestCreatedAt`: `MIN(created_at)` over the waiting messages of a level. -/
def oldestCreatedAt (messages : List (Nat × MessageRow)) (queueName : String)
    (level : PriorityLevel) (nowMs : Int) : Option Int :=
  let waiting := messages.filter fun e =>
    e.2.queueName = queueName && e.2.state = .pending && e.2.scheduledAt.all (· ≤ nowMs) &&
      inLevel level e.2
  (waiting.map fun e => e.2.createdAt).min?

/-- `defaultAgeThreshold`, 30 minutes. -/
def defaultAgeThreshold : Int := 30 * 60 * 1000000000

/-- The age from which the oldest message of a level boosts it. -/
def effectiveAgeThreshold (cfg : PriorityConfig) : Int :=
  let d := asDuration cfg.ageBoostThreshold
  if 0 < d then d else defaultAgeThreshold

/-- The factor a boost multiplies a weight by (`defaultAgeBoost` is 2). -/
def effectiveBoostMultiplier (cfg : PriorityConfig) : Int :=
  if 0 < cfg.ageBoostMultiplier then cfg.ageBoostMultiplier else 2

/-- The weight at `nowMs` of a level whose oldest message was created at `oldest`; an error
when the boost would overflow `int32`. -/
def levelWeight (cfg : PriorityConfig) (nowMs : Int) (level : PriorityLevel)
    (oldest : Option Int) : Except StorageError Int :=
  match oldest with
  | none => .ok 0
  | some createdAt =>
    let weight := getBaseWeight level cfg
    let useAgeBoost := cfg.policy = .aging ∨ cfg.policy = .hybrid
    if useAgeBoost ∧ milliseconds (effectiveAgeThreshold cfg) ≤ int64 (nowMs - createdAt) then
      -- `weight * multiplier > MaxInt32`, tested without the product.
      if maxPriorityValue.tdiv (effectiveBoostMultiplier cfg) < weight then
        .error (.plain ("priority weight overflow for " ++ level.name))
      else .ok (weight * effectiveBoostMultiplier cfg)
    else .ok weight

/-- The map returned by `CalculateWeights`. -/
structure LevelWeights where
  high : Int
  medium : Int
  low : Int
deriving DecidableEq, Repr

/-- `CalculateWeights`, from the oldest message of each level; `none` is the empty map of a
queue without waiting messages. -/
def calculateWeights (cfg : PriorityConfig) (nowMs : Int)
    (oldest : PriorityLevel → Option Int) : Except StorageError (Option LevelWeights) := do
  let high ← levelWeight cfg nowMs .high (oldest .high)
  let medium ← levelWeight cfg nowMs .medium (oldest .medium)
  let low ← levelWeight cfg nowMs .low (oldest .low)
  if (oldest .high).isNone && (oldest .medium).isNone && (oldest .low).isNone then pure none
  -- Messages wait, but all weights are zero: every level gets the same.
  else if high + medium + low = 0 then pure (some ⟨1, 1, 1⟩)
  else pure (some ⟨high, medium, low⟩)

/-- `SelectPriorityLevel`. `source` stands for the random source; `rng.Int63n(total)` is its
value modulo `total`. `none` is the empty level. -/
def selectPriorityLevel (weights : Option LevelWeights) (source : Nat) : Option PriorityLevel :=
  match weights with
  | none => none
  | some w =>
    let total := w.high + w.medium + w.low
    if total ≤ 0 then none
    else
      let draw := (source : Int) % total
      if draw < w.high then some .high
      else if draw < w.high + w.medium then some .medium
      else if draw < total then some .low
      else none

end Nzovu.Repository
