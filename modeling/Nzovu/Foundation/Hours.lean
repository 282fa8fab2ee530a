import Mathlib.Tactic.Linarith
import Mathlib.Tactic.NormNum
import Mathlib.Tactic.Positivity
import Nzovu.Foundation.CivilTime

/-!
# Whole Periods of a Duration

`int(duration.Hours() / 24)` divides a floating-point number that has been rounded three times. For
durations of 64 bits the result is the number of whole days, unless the rest comes closer to a day
than the roundings can tell. The same holds of other periods of some hours.

- Section 1: rounding to a float.
- Section 2: hours.
- Section 3: whole periods.
-/

namespace Nzovu.Foundation.CivilTime

/-! ## Section 1: Rounding to a float -/

/-- An integer below stays below. -/
theorem le_roundHalfEven {q : ℚ} {i : Int} (h : (i : ℚ) ≤ q) : i ≤ roundHalfEven q := by
  have hfloor : i ≤ ⌊q⌋ := Int.le_floor.mpr h
  unfold roundHalfEven
  split
  · exact hfloor
  · split
    · omega
    · split <;> omega

/-- An integer above stays above. -/
theorem roundHalfEven_le {q : ℚ} {i : Int} (h : q ≤ i) : roundHalfEven q ≤ i := by
  rcases h.lt_or_eq with hlt | rfl
  · have hfloor : ⌊q⌋ < i := Int.floor_lt.mpr hlt
    unfold roundHalfEven
    split
    · omega
    · split
      · omega
      · split <;> omega
  · have hhalf : ((i : ℚ) - (⌊(i : ℚ)⌋ : ℚ)) < 1 / 2 := by simp
    rw [roundHalfEven, if_pos hhalf, Int.floor_intCast]

theorem abs_roundHalfEven_sub_le (q : ℚ) : |(roundHalfEven q : ℚ) - q| ≤ 1 / 2 := by
  have hle := Int.floor_le q
  have hlt := Int.lt_floor_add_one q
  rw [abs_le]
  unfold roundHalfEven
  split
  · constructor <;> linarith
  · split
    · push_cast
      constructor <;> linarith
    · split
      · constructor <;> linarith
      · push_cast
        constructor <;> linarith

/-- Rounding does not depend on the sign. -/
theorem roundHalfEven_neg (q : ℚ) : roundHalfEven (-q) = -roundHalfEven q := by
  by_cases hint : (⌊q⌋ : ℚ) = q
  · have hself : ∀ i : Int, roundHalfEven (i : ℚ) = i := fun i =>
      le_antisymm (roundHalfEven_le le_rfl) (le_roundHalfEven le_rfl)
    have hneg := hself (-⌊q⌋)
    push_cast at hneg
    rw [← hint, hneg, hself]
  · have hfloor : ⌊-q⌋ = -⌊q⌋ - 1 := by
      have hlt : (⌊q⌋ : ℚ) < q := lt_of_le_of_ne (Int.floor_le q) hint
      have hnext := Int.lt_floor_add_one q
      refine Int.floor_eq_iff.mpr ?_
      push_cast
      constructor <;> linarith
    -- the rest of the one is what the rest of the other leaves of 1
    have hrest : -q - ((-⌊q⌋ - 1 : Int) : ℚ) = 1 - (q - ⌊q⌋) := by
      push_cast
      ring
    unfold roundHalfEven
    rw [hfloor, hrest]
    generalize q - (⌊q⌋ : ℚ) = rest
    rcases lt_trichotomy rest (1 / 2) with hlow | rfl | hhigh
    · have hfar : ¬ 1 - rest < 1 / 2 := by linarith
      have hnear : 1 / 2 < 1 - rest := by linarith
      rw [if_neg hfar, if_pos hnear, if_pos hlow]
      omega
    · norm_num
      split <;> split <;> omega
    · have hfar : ¬ rest < 1 / 2 := by linarith
      have hnear : 1 - rest < 1 / 2 := by linarith
      rw [if_pos hnear, if_neg hfar, if_pos hhigh]
      omega

theorem float64_neg (q : ℚ) : float64 (-q) = -float64 q := by
  simp only [float64, abs_neg, neg_mul, roundHalfEven_neg, Int.cast_neg, neg_div]

/-- The shift that brings a number to 53 bits is not negative, below 2^53. -/
theorem shift_nonneg {q : ℚ} (hq : |q| < 2 ^ 53) : 0 ≤ 52 - Int.log 2 |q| := by
  rcases (abs_nonneg q).eq_or_lt with hzero | hpos
  · rw [← hzero, Int.log_zero_right]
    omega
  · have hlog : Int.log 2 |q| < 53 := by
      rw [← Int.lt_zpow_iff_log_lt Nat.one_lt_two hpos]
      exact_mod_cast hq
    omega

/-- An integer, shifted, is an integer. -/
theorem exists_int_shift (i : Int) {shift : Int} (h : 0 ≤ shift) :
    ∃ j : Int, (i : ℚ) * 2 ^ shift = j := by
  obtain ⟨n, rfl⟩ := Int.eq_ofNat_of_zero_le h
  exact ⟨i * 2 ^ n, by push_cast; rw [zpow_natCast]⟩

theorem le_float64 {q : ℚ} {i : Int} (hq : |q| < 2 ^ 53) (h : (i : ℚ) ≤ q) :
    (i : ℚ) ≤ float64 q := by
  obtain ⟨j, hj⟩ := exists_int_shift i (shift_nonneg hq)
  have hpos : (0 : ℚ) < 2 ^ (52 - Int.log 2 |q|) := zpow_pos two_pos _
  have hle : (j : ℚ) ≤ q * 2 ^ (52 - Int.log 2 |q|) := by
    rw [← hj]
    exact mul_le_mul_of_nonneg_right h hpos.le
  have hround : (j : ℚ) ≤ roundHalfEven (q * 2 ^ (52 - Int.log 2 |q|)) := by
    exact_mod_cast le_roundHalfEven hle
  rw [float64, le_div_iff₀ hpos, hj]
  exact hround

theorem float64_le {q : ℚ} {i : Int} (hq : |q| < 2 ^ 53) (h : q ≤ i) : float64 q ≤ i := by
  obtain ⟨j, hj⟩ := exists_int_shift i (shift_nonneg hq)
  have hpos : (0 : ℚ) < 2 ^ (52 - Int.log 2 |q|) := zpow_pos two_pos _
  have hle : q * 2 ^ (52 - Int.log 2 |q|) ≤ (j : ℚ) := by
    rw [← hj]
    exact mul_le_mul_of_nonneg_right h hpos.le
  have hround : (roundHalfEven (q * 2 ^ (52 - Int.log 2 |q|)) : ℚ) ≤ j := by
    exact_mod_cast roundHalfEven_le hle
  rw [float64, div_le_iff₀ hpos, hj]
  exact hround

/-- Integers of 53 bits are floats. -/
theorem float64_intCast {i : Int} (h : |(i : ℚ)| < 2 ^ 53) : float64 i = i :=
  le_antisymm (float64_le h le_rfl) (le_float64 h le_rfl)

/-- The relative error of a float. -/
theorem abs_float64_sub_le (q : ℚ) : |float64 q - q| ≤ |q| / 2 ^ 53 := by
  rcases (abs_nonneg q).eq_or_lt with hzero | hpos
  · obtain rfl : q = 0 := abs_eq_zero.mp hzero.symm
    have hexact := @float64_intCast 0 (by norm_num)
    simp only [Int.cast_zero] at hexact
    simp [hexact]
  · have hscale : (0 : ℚ) < 2 ^ (52 - Int.log 2 |q|) := zpow_pos two_pos _
    have hround := abs_roundHalfEven_sub_le (q * 2 ^ (52 - Int.log 2 |q|))
    have hlog : (2 : ℚ) ^ Int.log 2 |q| ≤ |q| := by
      exact_mod_cast Int.zpow_log_le_self Nat.one_lt_two hpos
    have hdiff : float64 q - q =
        (roundHalfEven (q * 2 ^ (52 - Int.log 2 |q|)) - q * 2 ^ (52 - Int.log 2 |q|)) /
          2 ^ (52 - Int.log 2 |q|) := by
      rw [float64, sub_div, mul_div_cancel_right₀ _ hscale.ne']
    have hsplit : (2 : ℚ) ^ (52 - Int.log 2 |q|) = 2 ^ 52 / 2 ^ Int.log 2 |q| := by
      rw [zpow_sub₀ two_ne_zero]
      norm_num
    rw [hdiff, abs_div, abs_of_pos hscale, div_le_iff₀ hscale]
    calc |(roundHalfEven (q * 2 ^ (52 - Int.log 2 |q|)) : ℚ) - q * 2 ^ (52 - Int.log 2 |q|)|
        ≤ 1 / 2 := hround
      _ = 2 ^ Int.log 2 |q| / 2 ^ 53 * 2 ^ (52 - Int.log 2 |q|) := by
          rw [hsplit]
          field_simp
      _ ≤ |q| / 2 ^ 53 * 2 ^ (52 - Int.log 2 |q|) := by gcongr

/-! ## Section 2: Hours -/

/-- A whole number of days, before or after. -/
theorem periods_whole {m : Int} (h : |(m : ℚ)| < 2 ^ 40) : periods (m * day) 24 = m := by
  have hparts : (m * day).tdiv hour = 24 * m ∧ (m * day).tmod hour = 0 := by
    have hday : m * day = hour * (24 * m) := by
      simp only [day]
      ring
    rw [hday]
    exact ⟨Int.mul_tdiv_cancel_left _ (by decide), Int.mul_tmod_right _ _⟩
  have hbound := abs_lt.mp h
  have hzero : float64 0 = 0 := by exact_mod_cast @float64_intCast 0 (by norm_num)
  have hhours : hours (m * day) = ((24 * m : Int) : ℚ) := by
    rw [hours, hparts.1, hparts.2, Int.cast_zero, zero_div, hzero, add_zero]
    refine float64_intCast (abs_lt.mpr ?_)
    push_cast
    constructor <;> linarith
  have hquotient : float64 (hours (m * day) / 24) = m := by
    have hdiv : ((24 * m : Int) : ℚ) / 24 = (m : ℚ) := by
      push_cast
      ring
    rw [hhours, hdiv]
    refine float64_intCast (abs_lt.mpr ?_)
    constructor <;> linarith
  have hcast : ((24 : Int) : ℚ) = 24 := by norm_num
  simp only [periods, hcast, hquotient, Int.floor_intCast, Int.ceil_intCast, ite_self]

/-- Whole hours and the rest of the last one. -/
theorem hours_parts (d : Int) :
    ((d.tdiv hour : Int) : ℚ) + (d.tmod hour : Int) / (hour : Int) = d / (hour : Int) := by
  have hsum : (hour : ℚ) * d.tdiv hour + d.tmod hour = d := by
    exact_mod_cast Int.mul_tdiv_add_tmod d hour
  have hne : ((hour : Int) : ℚ) ≠ 0 := by norm_num [hour, minute, second]
  rw [eq_div_iff hne, add_mul, div_mul_cancel₀ _ hne]
  linarith

theorem abs_rest_le (d : Int) : |((d.tmod hour : Int) : ℚ) / (hour : Int)| ≤ 1 := by
  have hpos : (0 : ℚ) < (hour : Int) := by norm_num [hour, minute, second]
  have hlt : |d.tmod hour| ≤ hour := by
    have habs := Int.natAbs_tmod d hour
    have hmod : d.natAbs % hour.natAbs < hour.natAbs := Nat.mod_lt _ (by decide)
    have hhour : (hour.natAbs : Int) = hour := rfl
    rw [Int.abs_eq_natAbs]
    omega
  rw [abs_div, abs_of_pos hpos, div_le_one hpos]
  exact_mod_cast hlt

/-- A duration of 64 bits, in hours. -/
theorem abs_duration_le {d : Int} (hd : |d| < 9223372036854775808) :
    |(d : ℚ) / (hour : Int)| ≤ 2562048 := by
  have hcast : |(d : ℚ)| < 9223372036854775808 := by exact_mod_cast hd
  have hhour : (0 : ℚ) < (hour : Int) := by norm_num [hour, minute, second]
  rw [abs_div, abs_of_pos hhour, div_le_iff₀ hhour]
  norm_num [hour, minute, second]
  linarith

/-- What is rounded to the number of hours: whole hours, and the rounded rest. -/
def roundedSum (d : Int) : ℚ :=
  ((d.tdiv hour : Int) : ℚ) + float64 (((d.tmod hour : Int) : ℚ) / (hour : Int))

theorem hours_eq (d : Int) : hours d = float64 (roundedSum d) := rfl

theorem abs_roundedSum_sub_le (d : Int) : |roundedSum d - (d : ℚ) / (hour : Int)| ≤ 1 / 2 ^ 53 := by
  have hrest := abs_float64_sub_le (((d.tmod hour : Int) : ℚ) / (hour : Int))
  have hsmall := hrest.trans (div_le_div_of_nonneg_right (abs_rest_le d) (by norm_num))
  rwa [roundedSum, ← hours_parts d, add_sub_add_left_eq_sub]

theorem abs_roundedSum_le {d : Int} (hd : |d| < 9223372036854775808) :
    |roundedSum d| ≤ 2 ^ 22 := by
  have hnear := abs_le.mp (abs_roundedSum_sub_le d)
  have hfar := abs_le.mp (abs_duration_le hd)
  refine abs_le.mpr ⟨?_, ?_⟩ <;> norm_num at hnear ⊢ <;> linarith

/-- The error of the roundings in the number of hours. -/
theorem abs_hours_sub_le {d : Int} (hd : |d| < 9223372036854775808) :
    |hours d - (d : ℚ) / (hour : Int)| ≤ 1 / 2 ^ 30 := by
  have hfirst := abs_le.mp (abs_roundedSum_sub_le d)
  have hsum := abs_float64_sub_le (roundedSum d)
  have hlarge := hsum.trans (div_le_div_of_nonneg_right (abs_roundedSum_le hd) (by norm_num))
  have hsecond := abs_le.mp hlarge
  rw [hours_eq]
  refine abs_le.mpr ⟨?_, ?_⟩ <;> norm_num at hfirst hsecond ⊢ <;> linarith

/-! ## Section 3: Whole periods -/

section Periods

variable {d period : Int} (hperiod : 1 ≤ period ∧ period ≤ 168)
include hperiod

/-- Dividing by the hours of a period leaves a number small. -/
theorem abs_hours_div_le (hd : |d| < 9223372036854775808) :
    |hours d / (period : ℚ)| ≤ 2 ^ 22 := by
  have hone : (1 : ℚ) ≤ period := by exact_mod_cast hperiod.1
  have hhours := abs_le.mp (abs_hours_sub_le hd)
  have hbound := abs_le.mp (abs_duration_le hd)
  have hsize : |hours d| ≤ 2 ^ 22 := by
    refine abs_le.mpr ⟨?_, ?_⟩ <;> norm_num at hhours ⊢ <;> linarith
  rw [abs_div, abs_of_pos (by linarith : (0 : ℚ) < period)]
  exact (div_le_self (abs_nonneg _) hone).trans hsize

/-- The error of all three roundings in the number of periods. -/
theorem abs_quotient_sub_le (hd : |d| < 9223372036854775808) :
    |float64 (hours d / period) - (d : ℚ) / ((period * hour : Int) : ℚ)| ≤ 1 / 2 ^ 29 := by
  have hone : (1 : ℚ) ≤ period := by exact_mod_cast hperiod.1
  have hparts : (d : ℚ) / ((period * hour : Int) : ℚ) = d / (hour : Int) / period := by
    push_cast
    rw [div_div, mul_comm]
  have hhours : |hours d / period - (d : ℚ) / (hour : Int) / period| ≤ 1 / 2 ^ 30 := by
    rw [← sub_div, abs_div, abs_of_pos (by linarith : (0 : ℚ) < period)]
    exact (div_le_self (abs_nonneg _) hone).trans (abs_hours_sub_le hd)
  have herror := (abs_float64_sub_le _).trans
    (div_le_div_of_nonneg_right (abs_hours_div_le hperiod hd) (by norm_num))
  have hfirst := abs_le.mp hhours
  have hlast := abs_le.mp herror
  rw [hparts]
  refine abs_le.mpr ⟨?_, ?_⟩ <;> norm_num at hfirst hlast ⊢ <;> linarith

/-- The quotient is a number whose integer neighbours are floats. -/
theorem abs_hours_div_lt (hd : |d| < 9223372036854775808) :
    |hours d / (period : ℚ)| < 2 ^ 53 :=
  lt_of_le_of_lt (abs_hours_div_le hperiod hd) (by norm_num)

/-- Whole periods that have passed stay counted through all roundings. -/
theorem le_quotient (hnonneg : 0 ≤ d) (hd : |d| < 9223372036854775808) :
    ((d / (period * hour) : Int) : ℚ) ≤ float64 (hours d / period) := by
  have hpos : 0 < hour := by decide
  have hwhole : period * (d / (period * hour)) ≤ d.tdiv hour := by
    rw [Int.tdiv_eq_ediv_of_nonneg hnonneg, Int.le_ediv_iff_mul_le hpos]
    calc period * (d / (period * hour)) * hour
        = d / (period * hour) * (period * hour) := by ring
      _ ≤ d := Int.ediv_mul_le d (Int.mul_ne_zero (by omega) (by decide))
  have hpos' : (0 : ℚ) < (hour : Int) := by norm_num [hour, minute, second]
  have hrest : (0 : ℚ) ≤ float64 (((d.tmod hour : Int) : ℚ) / (hour : Int)) := by
    have hzero : ((0 : Int) : ℚ) ≤ ((d.tmod hour : Int) : ℚ) / (hour : Int) := by
      rw [Int.cast_zero]
      exact div_nonneg (by exact_mod_cast Int.tmod_nonneg _ hnonneg) hpos'.le
    have hlt := lt_of_le_of_lt (abs_rest_le d) (by norm_num : (1 : ℚ) < 2 ^ 53)
    exact_mod_cast le_float64 hlt hzero
  have hsum : ((period * (d / (period * hour)) : Int) : ℚ) ≤ roundedSum d := by
    have hcast : ((period * (d / (period * hour)) : Int) : ℚ) ≤ ((d.tdiv hour : Int) : ℚ) := by
      exact_mod_cast hwhole
    exact hcast.trans (le_add_of_nonneg_right hrest)
  have hlt := lt_of_le_of_lt (abs_roundedSum_le hd) (by norm_num : (2 : ℚ) ^ 22 < 2 ^ 53)
  have hhours := le_float64 hlt hsum
  rw [← hours_eq] at hhours
  have hone : (1 : ℚ) ≤ period := by exact_mod_cast hperiod.1
  refine le_float64 (abs_hours_div_lt hperiod hd) ((le_div_iff₀ (by linarith)).mpr ?_)
  push_cast at hhours ⊢
  linarith

/-- Where at least a second is left of the last period, the periods are counted exactly. -/
theorem periods_of_room (hnonneg : 0 ≤ d) (hd : d < 9223372036854775808)
    (hroom : d % (period * hour) + second ≤ period * hour) :
    periods d period = d / (period * hour) := by
  have habs : |d| < 9223372036854775808 := by rwa [abs_of_nonneg hnonneg]
  have hquotient := abs_le.mp (abs_quotient_sub_le hperiod habs)
  have hlower := le_quotient hperiod hnonneg habs
  have hone : (1 : ℚ) ≤ period := by exact_mod_cast hperiod.1
  have hmost : (period : ℚ) ≤ 168 := by exact_mod_cast hperiod.2
  have hsize : ((period * hour : Int) : ℚ) = period * 3600 * 1000000000 := by
    push_cast
    norm_num [hour, minute, second]
    ring
  have hlength : (0 : ℚ) < ((period * hour : Int) : ℚ) := by
    rw [hsize]
    linarith
  have hupper : float64 (hours d / period) < ((d / (period * hour) : Int) : ℚ) + 1 := by
    have hparts : (d : ℚ) = ((period * hour : Int) : ℚ) * ((d / (period * hour) : Int) : ℚ) +
        ((d % (period * hour) : Int) : ℚ) := by
      exact_mod_cast (Int.mul_ediv_add_emod d (period * hour)).symm
    have hrest : ((d % (period * hour) : Int) : ℚ) ≤
        ((period * hour : Int) : ℚ) - (second : Int) := by
      have hle : d % (period * hour) ≤ period * hour - second := by omega
      exact_mod_cast hle
    -- a second is more of a period than all the roundings
    have hexact : (d : ℚ) / ((period * hour : Int) : ℚ) ≤
        ((d / (period * hour) : Int) : ℚ) + 1 - 1 / 604800 := by
      rw [div_le_iff₀ hlength, sub_mul, add_mul, one_mul, mul_comm _ ((period * hour : Int) : ℚ)]
      rw [hsize] at hparts hrest ⊢
      norm_num [second] at hrest ⊢
      linarith
    have hsmall : (1 : ℚ) / 2 ^ 29 < 1 / 604800 := by norm_num
    linarith
  have hpos : (0 : ℚ) ≤ float64 (hours d / period) := by
    refine le_trans ?_ hlower
    exact_mod_cast Int.ediv_nonneg hnonneg (Int.mul_nonneg (by omega) (by decide))
  simp only [periods, if_pos hpos]
  exact Int.floor_eq_iff.mpr ⟨hlower, hupper⟩

end Periods

/-- Whole days, where at least a second is left of the last one. -/
theorem periods_eq_ediv {d : Int} (hnonneg : 0 ≤ d) (hd : d < 9223372036854775808)
    (hroom : d % day + second ≤ day) : periods d 24 = d / day :=
  periods_of_room (by decide) hnonneg hd hroom

/-- Periods before are counted like periods after. -/
theorem periods_neg (d period : Int) : periods (-d) period = -periods d period := by
  have hhours : hours (-d) = -hours d := by
    simp only [hours_eq, roundedSum, Int.neg_tdiv, Int.neg_tmod, Int.cast_neg, neg_div,
      float64_neg, ← neg_add]
  simp only [periods, hhours, neg_div, float64_neg]
  rcases lt_trichotomy (float64 (hours d / period)) 0 with hneg | hzero | hpos
  · rw [if_pos (by linarith), if_neg (by linarith), Int.floor_neg]
  · simp [hzero]
  · rw [if_neg (by linarith), if_pos hpos.le, Int.ceil_neg]

end Nzovu.Foundation.CivilTime
