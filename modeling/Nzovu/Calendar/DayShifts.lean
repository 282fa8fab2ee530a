import Nzovu.Calendar.BusinessDayTests
import Nzovu.Foundation.Stepping

/-!
# Shifting a Date by Business Days

`applyDayOffset` goes from a date to the next one, or to the one before, until it has passed as many
business days as it is asked for, and nothing limits how far it goes. From a business day it ends
all the same: weekdays and dates of the year repeat every 400 years, and a day that is a business
day in one cycle is one in every other, unless a holiday of that very day is in the way. Of those
there are finitely many.

- Section 1: the business days go on forever.
- Section 2: what the loops do.
- Section 3: where the shift ends.
-/

namespace Nzovu.Calendar.BusinessDays

open Nzovu.Foundation
open Nzovu.Foundation.CivilTime

/-! ## Section 1: The business days go on forever -/

/-- The holidays lie so many days at most from January 1, 1970. -/
theorem exists_holiday_bound (calendar : BusinessCalendar) :
    ∃ bound : Nat, ∀ holiday ∈ calendar.holidays, (utcDay holiday).natAbs ≤ bound := by
  -- one holiday after the other raises the bound
  generalize calendar.holidays = holidays
  induction holidays with
  | nil => exact ⟨0, by simp⟩
  | cons holiday holidays ih =>
    obtain ⟨bound, hrest⟩ := ih
    refine ⟨max (utcDay holiday).natAbs bound,
      List.forall_mem_cons.mpr ⟨Nat.le_max_left _ _, fun other hother => ?_⟩⟩
    exact Nat.le_trans (hrest other hother) (Nat.le_max_right _ _)

section Forever

variable {timezone : Location} {offset : Int} (h : timezone.Fixed offset)
  {calendar : BusinessCalendar} {date : Int}
  (hopen : isBusinessDay timezone calendar date = true)
include h hopen

/-- A business day is one again in another cycle of 400 years, unless it is the day of a holiday
there. -/
theorem isBusinessDay_add_eras {eras : Int}
    (hfree : ∀ holiday ∈ calendar.holidays, utcDay holiday ≠ date / day + 146097 * eras) :
    isBusinessDay timezone calendar (date + 146097 * eras * day) = true := by
  rw [evaluator_iff] at hopen ⊢
  obtain ⟨hweekday, hholidays⟩ := hopen
  have hutc : (date + 146097 * eras * day) / day = date / day + 146097 * eras :=
    Int.add_mul_ediv_right _ _ (by decide)
  rw [h.civilDay_add, weekdayOfDay_add_eras, hutc]
  refine ⟨hweekday, fun holiday hholiday => ⟨hfree holiday hholiday, ?_⟩⟩
  -- holidays that recur, recur in each cycle
  obtain ⟨hmonth, hday⟩ := dateOfDay_add_eras (timezone.civilDay date) eras
  rw [SameDayOfYear, hmonth, hday]
  exact (hholidays holiday hholiday).2

/-- Behind all holidays, and before all of them, it is one in every cycle. -/
theorem exists_free_eras :
    ∃ bound : Nat, ∀ eras : Int, bound < eras.natAbs →
      isBusinessDay timezone calendar (date + 146097 * eras * day) = true := by
  obtain ⟨bound, hholidays⟩ := exists_holiday_bound calendar
  refine ⟨bound + (date / day).natAbs, fun eras hfar =>
    isBusinessDay_add_eras h hopen fun holiday hholiday => ?_⟩
  have hle := hholidays holiday hholiday
  omega

theorem exists_businessDay_after (m : Int) :
    ∃ n, m < n ∧ isBusinessDay timezone calendar (date + n * day) = true := by
  obtain ⟨bound, hfree⟩ := exists_free_eras h hopen
  exact ⟨146097 * (bound + m.natAbs + 1), by omega, hfree _ (by omega)⟩

theorem exists_businessDay_before (m : Int) :
    ∃ n, n < m ∧ isBusinessDay timezone calendar (date + n * day) = true := by
  obtain ⟨bound, hfree⟩ := exists_free_eras h hopen
  exact ⟨146097 * -(bound + m.natAbs + 1), by omega, hfree _ (by omega)⟩

end Forever

/-! ## Section 2: What the loops do -/

theorem moveDays_zero (timezone : Location) (calendar : BusinessCalendar) (step : Int) (fuel : Nat)
    (current : Int) : moveDays timezone calendar step fuel 0 current = .ok current := by
  cases fuel <;> rfl

section Loops

variable {timezone : Location} {calendar : BusinessCalendar} {p : Int → Prop} {place : Int → Int}
  (hp : ∀ m, isBusinessDay timezone calendar (place m) = true ↔ p m) {m t : Int}
include hp

/-- The loop gets to the day so many members further exactly when it is followed that far. Its
places are those of the loop forward or those of the loop backward. -/
theorem moveDays_eq {step : Int} (hplace : ∀ m, place m + step = place (m + 1)) {fuel k : Nat}
    (hsteps : Steps p k m t) :
    moveDays timezone calendar step fuel k (place m) =
      if t - m ≤ fuel then .ok (place t) else .error .loops := by
  -- one day for each unit of fuel; at a member the loop has one step less to go
  induction fuel generalizing k m with
  | zero =>
    cases hsteps with
    | stay => rw [if_pos (by omega), moveDays_zero]
    | step hnext hrest =>
      have hlt := hnext.lt
      have hle := hrest.le
      rw [if_neg (by omega)]
      rfl
  | succ fuel ih =>
    cases hsteps with
    | stay => rw [if_pos (by omega), moveDays_zero]
    | @step k _ n _ hnext hrest =>
      -- the day after is one day nearer
      have hnearer : t - (m + 1) ≤ fuel ↔ t - m ≤ (fuel + 1 : Nat) := by omega
      rw [moveDays, hplace, ← if_congr hnearer rfl rfl]
      by_cases hmem : p (m + 1)
      -- it is the next member
      · obtain rfl : n = m + 1 :=
          hnext.unique ⟨by omega, hmem, fun j hj hlt => by omega⟩
        rw [if_pos ((hp _).mpr hmem)]
        exact ih hrest
      · -- the next member is further away, and so from the day after
        rw [if_neg fun hopen => hmem ((hp _).mp hopen)]
        have hlt := hnext.lt
        have hne : n ≠ m + 1 := fun heq => hmem (heq ▸ hnext.mem)
        exact ih (.step ⟨by omega, hnext.mem, fun j hj => hnext.between j (by omega)⟩ hrest)

/-- A business day is moved by the offset, in as many iterations as it is moved days. -/
theorem applyDayOffset_eq (hplace : ∀ m, place m + day = place (m + 1)) {k : Int}
    (hshifted : Shifted p k m t) (ctx : EvaluationContext) :
    applyDayOffset ctx timezone calendar k (place m) =
      if (t - m).natAbs ≤ ctx.offsetDays then .ok (place t) else .error .loops := by
  obtain ⟨hm, ht, hsteps⟩ := hshifted
  unfold applyDayOffset
  rcases Int.lt_trichotomy k 0 with hneg | rfl | hpos
  -- backward, in the mirror image
  · rw [if_neg (by omega)] at hsteps ⊢
    have hback : ∀ m, place (-m) + -day = place (-(m + 1)) := by
      intro m
      have hstep := hplace (-(m + 1))
      rw [show -(m + 1) + 1 = -m by omega] at hstep
      omega
    have hmoved := @moveDays_eq timezone calendar _ (fun m => place (-m)) (fun m => hp (-m)) _ _ _
      hback ctx.offsetDays _ (hsteps.mirror ht)
    have hnear : -t - -m ≤ ctx.offsetDays ↔ (t - m).natAbs ≤ ctx.offsetDays := by
      have hle := hsteps.le
      omega
    rwa [Int.neg_neg, Int.neg_neg, if_congr hnear rfl rfl, show (-k).toNat = k.natAbs by omega]
      at hmoved
  · -- neither loop runs
    rw [if_pos (Int.le_refl 0)] at hsteps
    obtain rfl := hsteps.unique (.stay m)
    rw [Int.natAbs_zero, moveDays_zero, if_pos (by omega)]
  · rw [if_pos (by omega)] at hsteps ⊢
    have hmoved := @moveDays_eq timezone calendar _ _ hp _ _ _ hplace ctx.offsetDays _ hsteps
    have hnear : t - m ≤ ctx.offsetDays ↔ (t - m).natAbs ≤ ctx.offsetDays := by
      have hle := hsteps.le
      omega
    rwa [if_congr hnear rfl rfl, show k.toNat = k.natAbs by omega] at hmoved

end Loops

/-! ## Section 3: Where the shift ends -/

/-- The business days of a range of days, which are numbered from a date. -/
def businessDaysIn (timezone : Location) (calendar : BusinessCalendar) (date : Int)
    (range : Finset Int) : Finset Int :=
  range.filter fun n => isBusinessDay timezone calendar (date + n * day) = true

/-- The shift of a date by `k` business days ends `n` days from it. -/
structure EndsAfter (timezone : Location) (calendar : BusinessCalendar) (k date n : Int) :
    Prop where
  /-- It takes as many iterations as days. -/
  ends : ∀ ctx, applyDayOffset ctx timezone calendar k date =
    if n.natAbs ≤ ctx.offsetDays then .ok (date + n * day) else .error .loops
  businessDay : isBusinessDay timezone calendar (date + n * day) = true
  /-- Forward if `k` is positive, backward if it is negative. -/
  side : n.sign = k.sign
  /-- Between the two dates, with the later and without the earlier. -/
  untilLater :
    (businessDaysIn timezone calendar date (Finset.Ioc (min 0 n) (max 0 n))).card = k.natAbs
  /-- And the other way round. -/
  fromEarlier :
    (businessDaysIn timezone calendar date (Finset.Ico (min 0 n) (max 0 n))).card = k.natAbs

/-- **Shifting by business days**: from a business day the loops of `applyDayOffset` end, on a
business day as many business days away as they are asked for. -/
theorem applyDayOffset_ends {timezone : Location} {offset : Int} (h : timezone.Fixed offset)
    {calendar : BusinessCalendar} {date : Int}
    (hbase : isBusinessDay timezone calendar date = true) (k : Int) :
    ∃ n, EndsAfter timezone calendar k date n := by
  have hfirst : date + 0 * day = date := by omega
  obtain ⟨n, hshifted⟩ := exists_shifted (exists_businessDay_after h hbase)
    (exists_businessDay_before h hbase) k (m := 0) (by rwa [hfirst])
  have hplace : ∀ m, date + m * day + day = date + (m + 1) * day := by
    intro m
    rw [Int.add_mul, Int.one_mul, Int.add_assoc]
  have hends := applyDayOffset_eq (fun _ => Iff.rfl) hplace hshifted
  have hside := hshifted.sign_sub
  simp only [hfirst, Int.sub_zero] at hends hside
  exact ⟨n, hends, hshifted.target, hside, hshifted.card_Ioc, hshifted.card_Ico⟩

/-- From the day after New Year's Day, a Thursday, back over the holiday. -/
theorem applyDayOffset_ends_newYear :
    ∃ n, EndsAfter utc (newYearCalendar true) (-1) (dayNumber 2025 1 2 * day) n :=
  applyDayOffset_ends Location.fixed_utc (by decide +kernel) (-1)

/-- The last business day before was New Year's Eve. -/
example : applyDayOffset ⟨none, 2⟩ utc (newYearCalendar true) (-1) (dayNumber 2025 1 2 * day) =
    .ok (dayNumber 2024 12 31 * day) := by
  decide +kernel

end Nzovu.Calendar.BusinessDays
