import Nzovu.Foundation.Gregorian

/-!
# Time Zones with a Fixed Offset

In a zone whose offset from UTC never changes, the civil clock is UTC shifted by the offset: a
civil day is 24 hours long and `time.Date` is inverse to `Date` and the clock.
-/

namespace Nzovu.Foundation.CivilTime

namespace Location

/-- The offset from UTC, in seconds, is always the same. -/
def Fixed (loc : Location) (offset : Int) : Prop := ∀ t, loc.offsetAt t = offset

theorem fixed_utc : utc.Fixed 0 := fun _ => rfl

section Fixed

variable {loc : Location} {offset : Int} (h : loc.Fixed offset)
include h

/-- The civil clock is UTC shifted by the offset. -/
theorem Fixed.civilDay_eq (t : Int) : loc.civilDay t = (t + offset * second) / day := by
  simp only [civilDay, civilSeconds, unix, h _, day, hour, minute, second]
  omega

theorem Fixed.fromCivil_eq (civil : Int) : loc.fromCivil civil = civil - offset := by
  simp only [fromCivil, h _]
  split <;> omega

theorem Fixed.date_eq (year month d seconds nanos : Int) :
    loc.date year month d seconds nanos =
      dayNumber year month d * day + (seconds - offset) * second + nanos := by
  simp only [date, h.fromCivil_eq, day, hour, minute, second]
  ring

/-- `time.Date` gives an instant of the day it was asked for. -/
theorem Fixed.civilDay_date {year month d seconds nanos : Int}
    (hseconds : 0 ≤ seconds ∧ seconds < 86400) (hnanos : 0 ≤ nanos ∧ nanos < second) :
    loc.civilDay (loc.date year month d seconds nanos) = dayNumber year month d := by
  rw [h.civilDay_eq, h.date_eq]
  simp only [day, hour, minute, second] at hnanos ⊢
  omega

theorem Fixed.dateOf_date {year month d seconds nanos : Int}
    (hseconds : 0 ≤ seconds ∧ seconds < 86400) (hnanos : 0 ≤ nanos ∧ nanos < second) :
    loc.dateOf (loc.date year month d seconds nanos) = dateOfDay (dayNumber year month d) := by
  rw [dateOf, h.civilDay_date hseconds hnanos]

theorem Fixed.secondOfDay_date {year month d seconds nanos : Int}
    (hseconds : 0 ≤ seconds ∧ seconds < 86400) (hnanos : 0 ≤ nanos ∧ nanos < second) :
    loc.secondOfDay (loc.date year month d seconds nanos) = seconds := by
  rw [secondOfDay, civilSeconds, h _, h.date_eq]
  simp only [unix, day, hour, minute, second] at hnanos ⊢
  omega

/-- The date of a civil day and its clock give an instant of that day. -/
theorem Fixed.date_dateOf (t seconds nanos : Int) :
    loc.date (loc.dateOf t).year (loc.dateOf t).month (loc.dateOf t).day seconds nanos =
      loc.civilDay t * day + (seconds - offset) * second + nanos := by
  rw [h.date_eq, dateOf, dayNumber_dateOfDay]

/-- Civil days pass as time does. -/
theorem Fixed.civilDay_mono {s t : Int} (hle : s ≤ t) : loc.civilDay s ≤ loc.civilDay t := by
  rw [h.civilDay_eq, h.civilDay_eq]
  simp only [day, hour, minute, second]
  omega

theorem Fixed.civilDay_add (t n : Int) : loc.civilDay (t + n * day) = loc.civilDay t + n := by
  rw [h.civilDay_eq, h.civilDay_eq]
  simp only [day, hour, minute, second]
  omega

end Fixed

end Location

end Nzovu.Foundation.CivilTime
