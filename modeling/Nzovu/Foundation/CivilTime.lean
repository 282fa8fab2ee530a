import Mathlib.Data.Int.Log
import Mathlib.Data.Rat.Floor

/-!
# Instants and Civil Time

Instants, time zones and calendar dates, as Go's package `time` computes with them. An instant is
its number of nanoseconds since the Unix epoch, a date is a day of the proleptic Gregorian
calendar, and a time zone gives the offset from UTC in force at each instant.

- Section 1: days and dates.
- Section 2: time zones.
- Section 3: differences, and hours as a floating-point number.
-/

namespace Nzovu.Foundation.CivilTime

/-- A second, in nanoseconds. -/
def second : Int := 1000000000
def minute : Int := 60 * second
def hour : Int := 60 * minute
/-- Twenty-four hours. -/
def day : Int := 24 * hour

/-- `time.Unix`: whole seconds since the Unix epoch. -/
def unix (t : Int) : Int := t / second

/-- `t.Truncate(24 * time.Hour)`: the start of the UTC day. -/
def truncateDay (t : Int) : Int := t - t % day

/-! ## Section 1: Days and dates -/

/-- A calendar date; the month counts from 1. -/
structure Date where
  year : Int
  month : Int
  day : Int
deriving DecidableEq, Repr

/-- The number of the day, from 1970-01-01 on. Months and days outside their ranges are carried
over to the next or previous ones, as `time.Date` does. The year begins in March, so that a leap
day is the last day of its year. -/
def dayNumber (year month day : Int) : Int :=
  let months := month - 1
  let year := year + months / 12
  let month := months % 12 + 1
  let y := if month ≤ 2 then year - 1 else year
  let shifted := (month + 9) % 12
  y / 400 * 146097 + (y % 400 * 365 + y % 400 / 4 - y % 400 / 100) +
    ((153 * shifted + 2) / 5 + day - 1) - 719468

/-- The date of a day, from its number: the day's place in its cycle of 400 years, in the century,
in the cycle of four years and in the year, which begins in March. -/
def dateOfDay (number : Int) : Date :=
  let z := number + 719468
  let dayOfEra := z % 146097
  -- the last day of an era and of a cycle of four years is a leap day, in the last full part
  let century := dayOfEra / 36524 - dayOfEra / 36524 / 4
  let dayOfCentury := dayOfEra - 36524 * century
  let cycle := dayOfCentury / 1461
  let dayOfCycle := dayOfCentury - 1461 * cycle
  let yearOfCycle := dayOfCycle / 365 - dayOfCycle / 365 / 4
  let dayOfYear := dayOfCycle - 365 * yearOfCycle
  let shifted := (5 * dayOfYear + 2) / 153
  let month := if shifted < 10 then shifted + 3 else shifted - 9
  { year := z / 146097 * 400 + (100 * century + 4 * cycle + yearOfCycle) +
      (if month ≤ 2 then 1 else 0)
    month := month
    day := dayOfYear - (153 * shifted + 2) / 5 + 1 }

/-- A date's components give the day back. -/
theorem dayNumber_dateOfDay (number : Int) :
    dayNumber (dateOfDay number).year (dateOfDay number).month (dateOfDay number).day = number := by
  simp only [dateOfDay]
  generalize hz : number + 719468 = z
  generalize hera : z % 146097 = dayOfEra
  generalize hcentury : dayOfEra / 36524 - dayOfEra / 36524 / 4 = century
  generalize hrest : dayOfEra - 36524 * century = dayOfCentury
  generalize hcycle : dayOfCentury / 1461 = cycle
  generalize hdays : dayOfCentury - 1461 * cycle = dayOfCycle
  generalize hyear : dayOfCycle / 365 - dayOfCycle / 365 / 4 = yearOfCycle
  generalize hyday : dayOfCycle - 365 * yearOfCycle = dayOfYear
  generalize hshifted : (5 * dayOfYear + 2) / 153 = shifted
  -- each part lies in its range
  have hcentury' : 0 ≤ century ∧ century ≤ 3 := by omega
  have hrest' : 0 ≤ dayOfCentury ∧ dayOfCentury ≤ 36524 := by omega
  have hcycle' : 0 ≤ cycle ∧ cycle ≤ 24 := by omega
  have hdays' : 0 ≤ dayOfCycle ∧ dayOfCycle ≤ 1460 := by omega
  have hyear' : 0 ≤ yearOfCycle ∧ yearOfCycle ≤ 3 := by omega
  have hyday' : 0 ≤ dayOfYear ∧ dayOfYear ≤ 365 := by omega
  have hshifted' : 0 ≤ shifted ∧ shifted ≤ 11 := by omega
  generalize hnew : 100 * century + 4 * cycle + yearOfCycle = yearOfEra
  have hyears : yearOfEra / 4 = 25 * century + cycle ∧ yearOfEra / 100 = century ∧
      0 ≤ yearOfEra ∧ yearOfEra < 400 := by omega
  generalize hdiv : z / 146097 = era
  have hsum : era * 146097 + dayOfEra = z := by omega
  have heras : (era * 400 + yearOfEra) / 400 = era ∧ (era * 400 + yearOfEra) % 400 = yearOfEra := by
    omega
  by_cases hmarch : shifted < 10
  · have hmonth : ¬ shifted + 3 ≤ 2 := by omega
    have hsame : (shifted + 3 - 1) / 12 = 0 ∧ (shifted + 3 - 1) % 12 + 1 = shifted + 3 := by omega
    have hback : (shifted + 3 + 9) % 12 = shifted := by omega
    simp only [dayNumber, if_pos hmarch, if_neg hmonth, hsame, Int.add_zero, heras, hyears, hback]
    omega
  · have hmonth : shifted - 9 ≤ 2 := by omega
    have hsame : (shifted - 9 - 1) / 12 = 0 ∧ (shifted - 9 - 1) % 12 + 1 = shifted - 9 := by omega
    have hback : (shifted - 9 + 9) % 12 = shifted := by omega
    simp only [dayNumber, if_neg hmarch, if_pos hmonth, hsame, Int.add_zero,
      Int.add_sub_cancel, heras, hyears, hback]
    omega

/-- Different days have different dates. -/
theorem dateOfDay_inj {m n : Int} : dateOfDay m = dateOfDay n ↔ m = n := by
  constructor
  · intro heq
    rw [← dayNumber_dateOfDay m, heq, dayNumber_dateOfDay]
  · rintro rfl
    rfl

/-- `Weekday` of a day: `0` is Sunday. -/
def weekdayOfDay (number : Int) : Int := (number + 4) % 7

example : dateOfDay (dayNumber 2024 2 30) = ⟨2024, 3, 1⟩ := by decide

/-! ## Section 2: Time zones -/

/-- `time.Location`: the offset from UTC, in seconds, in force at a second of UTC. -/
structure Location where
  offsetAt : Int → Int

/-- `time.UTC`. -/
def utc : Location := ⟨fun _ => 0⟩

namespace Location

variable (loc : Location)

/-- The civil clock in seconds. -/
def civilSeconds (t : Int) : Int := unix t + loc.offsetAt (unix t)

/-- The number of the civil day. -/
def civilDay (t : Int) : Int := loc.civilSeconds t / 86400

/-- `t.In(loc).Date()`. -/
def dateOf (t : Int) : Date := dateOfDay (loc.civilDay t)

/-- `t.In(loc).Weekday()`. -/
def weekday (t : Int) : Int := weekdayOfDay (loc.civilDay t)

/-- `Hour()`, `Minute()` and `Second()` of `t.In(loc)`, as seconds of the civil day. -/
def secondOfDay (t : Int) : Int := loc.civilSeconds t % 86400

/-- The instant at which the civil clock shows `civil` seconds. `time.Date` looks up the offset at
`civil` as if it were UTC, and once more at the instant this gives. -/
def fromCivil (civil : Int) : Int :=
  if loc.offsetAt civil = 0 then civil else civil - loc.offsetAt (civil - loc.offsetAt civil)

/-- `time.Date(year, month, day, 0, 0, seconds, nanos, loc)`. -/
def date (year month day seconds nanos : Int) : Int :=
  loc.fromCivil (dayNumber year month day * 86400 + seconds) * second + nanos

end Location

/-! ## Section 3: Differences and hours -/

/-- `t.Sub(u)`: a difference beyond the 64 bits of a `Duration` is the least or the greatest one. -/
def sub (t u : Int) : Int := max (-9223372036854775808) (min 9223372036854775807 (t - u))

theorem sub_eq {t u : Int} (h : |t - u| < 9223372036854775808) : sub t u = t - u := by
  have hbounds := abs_lt.mp h
  unfold sub
  omega

/-- The nearest integer, halves to even. -/
def roundHalfEven (q : ℚ) : Int :=
  if q - ⌊q⌋ < 1 / 2 then ⌊q⌋
  else if 1 / 2 < q - ⌊q⌋ then ⌊q⌋ + 1
  else if ⌊q⌋ % 2 = 0 then ⌊q⌋ else ⌊q⌋ + 1

/-- The nearest `float64`, a number with a significand of 53 bits. -/
def float64 (q : ℚ) : ℚ :=
  let shift := 52 - Int.log 2 |q|
  roundHalfEven (q * 2 ^ shift) / 2 ^ shift

/-- `Duration.Hours`. -/
def hours (duration : Int) : ℚ :=
  float64 (duration.tdiv hour + float64 (duration.tmod hour / hour))

/-- `int(duration.Hours() / period)`. -/
def periods (duration period : Int) : Int :=
  let quotient := float64 (hours duration / period)
  if 0 ≤ quotient then ⌊quotient⌋ else ⌈quotient⌉

example : periods (49 * hour) 24 = 2 := by decide +kernel

end Nzovu.Foundation.CivilTime
