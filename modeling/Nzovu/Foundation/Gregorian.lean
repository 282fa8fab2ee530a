import Nzovu.Foundation.CivilTime

/-!
# The Months of the Gregorian Calendar

A month is a number, too: months are counted from March of the year 0 on, so that the leap day is
the last day of its year. The days of a month are consecutive, and the months follow one another.
From this: dates and days correspond to each other, and the months have the lengths of the table.

- Section 1: the first days of the months.
- Section 2: a day of a month has the date it should.
- Section 3: the lengths of the months.
- Section 4: the years.
- Section 5: the cycle of 400 years.
-/

namespace Nzovu.Foundation.CivilTime

/-! ## Section 1: The first days of the months -/

/-- The days before the year that begins in March, from the year 0 on. -/
def yearDays (year : Int) : Int := 365 * year + year / 4 - year / 100 + year / 400

/-- The number of a month. -/
def monthIndex (year month : Int) : Int := 12 * year + month - 3

/-- The first day of a month. -/
def monthStart (k : Int) : Int := yearDays (k / 12) + (153 * (k % 12) + 2) / 5 - 719468

/-- The days of a month are consecutive. -/
theorem dayNumber_eq (year month d : Int) :
    dayNumber year month d = monthStart (monthIndex year month) + (d - 1) := by
  have hyear : (monthIndex year month) / 12 =
      if (month - 1) % 12 + 1 ≤ 2 then year + (month - 1) / 12 - 1
      else year + (month - 1) / 12 := by
    unfold monthIndex
    split <;> omega
  have hmonth : (monthIndex year month) % 12 = ((month - 1) % 12 + 1 + 9) % 12 := by
    unfold monthIndex
    omega
  simp only [dayNumber, monthStart, hyear, hmonth, yearDays]
  generalize (if (month - 1) % 12 + 1 ≤ 2 then year + (month - 1) / 12 - 1
    else year + (month - 1) / 12) = y
  omega

/-- A year has 365 or 366 days. -/
theorem yearDays_succ (y : Int) :
    yearDays y + 365 ≤ yearDays (y + 1) ∧ yearDays (y + 1) ≤ yearDays y + 366 := by
  unfold yearDays
  omega

/-- Every month has at least 28 days, and at most 31. -/
theorem monthStart_succ (k : Int) :
    monthStart k + 28 ≤ monthStart (k + 1) ∧ monthStart (k + 1) ≤ monthStart k + 31 := by
  unfold monthStart
  by_cases hlast : k % 12 = 11
  · have hnext : (k + 1) / 12 = k / 12 + 1 ∧ (k + 1) % 12 = 0 := by omega
    have hyear := yearDays_succ (k / 12)
    rw [hnext.1, hnext.2, hlast]
    omega
  · have hnext : (k + 1) / 12 = k / 12 ∧ (k + 1) % 12 = k % 12 + 1 := by omega
    rw [hnext.1, hnext.2]
    omega

/-- A later month begins after the end of the earlier one. -/
theorem monthStart_le {j k : Int} (h : j < k) : monthStart (j + 1) ≤ monthStart k := by
  obtain ⟨n, rfl⟩ := Int.le.dest h
  induction n with
  | zero => simp
  | succ n ih =>
    have hnext := monthStart_succ (j + 1 + n)
    rw [Int.natCast_succ, ← Int.add_assoc]
    have hle := ih (by omega)
    omega

/-- Months add up. -/
theorem monthStart_add (k : Int) (n : Nat) : monthStart k + 28 * n ≤ monthStart (k + n) := by
  induction n with
  | zero => simp
  | succ n ih =>
    have hnext := monthStart_succ (k + n)
    rw [Int.natCast_succ, ← Int.add_assoc]
    omega

/-! ## Section 2: The date of a day -/

theorem dateOfDay_month (number : Int) :
    1 ≤ (dateOfDay number).month ∧ (dateOfDay number).month ≤ 12 := by
  simp only [dateOfDay]
  generalize number + 719468 = z
  split <;> omega

/-- The parts of a day's place in its cycle of 400 years: in the last one of four years, and of
400 years, fits one day more. -/
theorem eraParts {dayOfEra century dayOfCentury cycle dayOfCycle yearOfCycle dayOfYear : Int}
    (hrange : 0 ≤ dayOfEra ∧ dayOfEra < 146097)
    (hcentury : dayOfEra / 36524 - dayOfEra / 36524 / 4 = century)
    (hrest : dayOfEra - 36524 * century = dayOfCentury) (hcycle : dayOfCentury / 1461 = cycle)
    (hdays : dayOfCentury - 1461 * cycle = dayOfCycle)
    (hyear : dayOfCycle / 365 - dayOfCycle / 365 / 4 = yearOfCycle)
    (hyday : dayOfCycle - 365 * yearOfCycle = dayOfYear) :
    (0 ≤ century ∧ century ≤ 3) ∧ (0 ≤ cycle ∧ cycle ≤ 24) ∧ (0 ≤ yearOfCycle ∧ yearOfCycle ≤ 3) ∧
      0 ≤ dayOfYear ∧
      (dayOfYear ≤ 364 ∨ dayOfYear = 365 ∧ yearOfCycle = 3 ∧ (cycle ≤ 23 ∨ century = 3)) := by
  have hcentury' : 0 ≤ century ∧ century ≤ 3 := by omega
  have hrest' : 0 ≤ dayOfCentury ∧ dayOfCentury ≤ 36524 := by omega
  have hfull : dayOfCentury ≤ 36523 ∨ century = 3 := by omega
  have hcycle' : 0 ≤ cycle ∧ cycle ≤ 24 := by omega
  have hdays' : 0 ≤ dayOfCycle ∧ dayOfCycle ≤ 1460 := by omega
  have hlong : dayOfCycle ≤ 1459 ∨ cycle ≤ 23 ∨ century = 3 := by omega
  have hyear' : 0 ≤ yearOfCycle ∧ yearOfCycle ≤ 3 := by omega
  have hyday' : 0 ≤ dayOfYear ∧ (dayOfYear ≤ 364 ∨ dayOfYear = 365 ∧ dayOfCycle = 1460) := by
    clear hrest hcycle hdays hcentury
    omega
  refine ⟨hcentury', hcycle', hyear', hyday'.1, ?_⟩
  clear hrest hcycle hdays hcentury hfull
  omega

/-- A year in its place. -/
theorem yearDays_parts {era century cycle yearOfCycle : Int} (hcentury : 0 ≤ century ∧ century ≤ 3)
    (hcycle : 0 ≤ cycle ∧ cycle ≤ 24) (hyear : 0 ≤ yearOfCycle ∧ yearOfCycle ≤ 3) :
    yearDays (era * 400 + (100 * century + 4 * cycle + yearOfCycle)) =
      era * 146097 + 36524 * century + 1461 * cycle + 365 * yearOfCycle := by
  unfold yearDays
  omega

/-- A leap year. -/
theorem yearDays_leap {era century cycle : Int} (hcentury : 0 ≤ century ∧ century ≤ 3)
    (hcycle : 0 ≤ cycle ∧ cycle ≤ 24) (hleap : cycle ≤ 23 ∨ century = 3) :
    yearDays (era * 400 + (100 * century + 4 * cycle + 3) + 1) =
      yearDays (era * 400 + (100 * century + 4 * cycle + 3)) + 366 := by
  rw [yearDays_parts hcentury hcycle (by omega)]
  unfold yearDays
  omega

/-- The date of a day lies in the month that contains the day. -/
theorem lt_monthStart_dateOfDay (number : Int) :
    number < monthStart (monthIndex (dateOfDay number).year (dateOfDay number).month + 1) := by
  simp only [dateOfDay, monthIndex]
  generalize hz : number + 719468 = z
  have hsum := Int.emod_add_mul_ediv z 146097
  generalize hera : z % 146097 = dayOfEra at hsum
  generalize hcentury : dayOfEra / 36524 - dayOfEra / 36524 / 4 = century
  generalize hrest : dayOfEra - 36524 * century = dayOfCentury
  generalize hcycle : dayOfCentury / 1461 = cycle
  generalize hdays : dayOfCentury - 1461 * cycle = dayOfCycle
  generalize hyear : dayOfCycle / 365 - dayOfCycle / 365 / 4 = yearOfCycle
  generalize hyday : dayOfCycle - 365 * yearOfCycle = dayOfYear
  obtain ⟨hcentury', hcycle', hyear', hpos, hleap⟩ := eraParts (by omega) hcentury hrest hcycle
    hdays hyear hyday
  have hparts := @yearDays_parts (z / 146097) _ _ _ hcentury' hcycle' hyear'
  have hplace : z = yearDays (z / 146097 * 400 + (100 * century + 4 * cycle + yearOfCycle)) +
      dayOfYear := by omega
  have hbefore : z <
      yearDays (z / 146097 * 400 + (100 * century + 4 * cycle + yearOfCycle) + 1) := by
    rcases hleap with hshort | ⟨hlong, rfl, hleap⟩
    · have hsucc := (yearDays_succ
        (z / 146097 * 400 + (100 * century + 4 * cycle + yearOfCycle))).1
      omega
    · rw [yearDays_leap hcentury' hcycle' hleap]
      omega
  have hbound : dayOfYear ≤ 365 := by omega
  clear hparts hleap hyday hyear hdays hcycle hrest hcentury
  generalize z / 146097 * 400 + (100 * century + 4 * cycle + yearOfCycle) = year at *
  generalize hshifted : (5 * dayOfYear + 2) / 153 = shifted
  have hrange : 0 ≤ shifted ∧ shifted ≤ 11 := by omega
  -- the month is the one numbered from the March of its year
  have hindex : 12 * (year + if (if shifted < 10 then shifted + 3 else shifted - 9) ≤ 2
      then 1 else 0) + (if shifted < 10 then shifted + 3 else shifted - 9) - 3 + 1 =
      12 * year + (shifted + 1) := by
    clear hplace hbefore
    split <;> split <;> omega
  rw [hindex, monthStart]
  by_cases hlast : shifted = 11
  · -- the last month of the year: the next year has not begun
    have hnext : (12 * year + (shifted + 1)) / 12 = year + 1 ∧
        (12 * year + (shifted + 1)) % 12 = 0 := by omega
    rw [hnext.1, hnext.2]
    omega
  · have hnext : (12 * year + (shifted + 1)) / 12 = year ∧
        (12 * year + (shifted + 1)) % 12 = shifted + 1 := by omega
    rw [hnext.1, hnext.2]
    omega

theorem dateOfDay_day_pos (number : Int) : 1 ≤ (dateOfDay number).day := by
  simp only [dateOfDay]
  omega

/-- **The date of a day**: day `i` of the month with the number `k`, counted from 0. -/
theorem dateOfDay_monthStart {k i : Int} (hi : 0 ≤ i)
    (hlt : monthStart k + i < monthStart (k + 1)) :
    dateOfDay (monthStart k + i) = ⟨(k + 2) / 12, (k + 2) % 12 + 1, i + 1⟩ := by
  have hday := dayNumber_dateOfDay (monthStart k + i)
  have hpos := dateOfDay_day_pos (monthStart k + i)
  have hnext := lt_monthStart_dateOfDay (monthStart k + i)
  have hmonth := dateOfDay_month (monthStart k + i)
  rw [dayNumber_eq] at hday
  generalize dateOfDay (monthStart k + i) = date at hday hpos hnext hmonth
  obtain ⟨year, month, d⟩ := date
  dsimp only at hday hpos hnext hmonth
  -- two months that share a day are the same
  have hindex : monthIndex year month = k := by
    rcases Int.lt_trichotomy (monthIndex year month) k with h | h | h
    · have hle := monthStart_le h
      omega
    · exact h
    · have hle := monthStart_le h
      omega
  rw [hindex] at hday
  unfold monthIndex at hindex
  congr 1 <;> omega

/-! ## Section 3: The lengths of the months -/

/-- A leap year. -/
def IsLeap (year : Int) : Prop := year % 4 = 0 ∧ (year % 100 ≠ 0 ∨ year % 400 = 0)

instance (year : Int) : Decidable (IsLeap year) :=
  inferInstanceAs (Decidable (year % 4 = 0 ∧ (year % 100 ≠ 0 ∨ year % 400 = 0)))

/-- The length of a month. -/
def lengthOfMonth (year month : Int) : Int :=
  if month = 2 then if IsLeap year then 29 else 28
  else if month = 4 ∨ month = 6 ∨ month = 9 ∨ month = 11 then 30
  else 31

/-- The year that begins in March ends with the February of the next. -/
theorem yearDays_february (year : Int) :
    yearDays year = yearDays (year - 1) + 337 + if IsLeap year then 29 else 28 := by
  by_cases hleap : IsLeap year
  · rw [if_pos hleap]
    unfold IsLeap at hleap
    unfold yearDays
    omega
  · rw [if_neg hleap]
    unfold IsLeap at hleap
    unfold yearDays
    omega

/-- A month is over after as many days as the table says. -/
theorem monthStart_lengthOfMonth {year month : Int} (h : 1 ≤ month ∧ month ≤ 12) :
    monthStart (monthIndex year month + 1) =
      monthStart (monthIndex year month) + lengthOfMonth year month := by
  unfold monthStart monthIndex lengthOfMonth
  by_cases hfebruary : month = 2
  · have hparts : (12 * year + 2 - 3 + 1) / 12 = year ∧ (12 * year + 2 - 3 + 1) % 12 = 0 ∧
        (12 * year + 2 - 3) / 12 = year - 1 ∧ (12 * year + 2 - 3) % 12 = 11 := by omega
    have hyear := yearDays_february year
    rw [hfebruary, hparts.1, hparts.2.1, hparts.2.2.1, hparts.2.2.2, if_pos rfl]
    omega
  · have hparts : (12 * year + month - 3 + 1) / 12 = (12 * year + month - 3) / 12 ∧
        (12 * year + month - 3 + 1) % 12 = (12 * year + month - 3) % 12 + 1 ∧
        (12 * year + month - 3) % 12 = (month - 3) % 12 := by omega
    rw [hparts.1, hparts.2.1, hparts.2.2, if_neg hfebruary]
    clear hparts
    by_cases hshort : month = 4 ∨ month = 6 ∨ month = 9 ∨ month = 11
    · rw [if_pos hshort]
      rcases hshort with rfl | rfl | rfl | rfl <;> omega
    · rw [if_neg hshort]
      have hlong : month = 1 ∨ month = 3 ∨ month = 5 ∨ month = 7 ∨ month = 8 ∨ month = 10 ∨
          month = 12 := by omega
      rcases hlong with rfl | rfl | rfl | rfl | rfl | rfl | rfl <;> omega

/-- A month with this name, in a year that is no leap year, begins after any day. -/
theorem exists_monthStart_gt {month : Int} (h : 1 ≤ month) (number : Int) :
    ∃ year, ¬ IsLeap year ∧ number < monthStart (monthIndex year month) := by
  refine ⟨2 * (number.natAbs + 50000) + 1, ?_, ?_⟩
  · unfold IsLeap
    omega
  · obtain ⟨n, hn⟩ := Int.eq_ofNat_of_zero_le
      (show 0 ≤ monthIndex (2 * (number.natAbs + 50000) + 1) month by unfold monthIndex; omega)
    have hgrows := monthStart_add 0 n
    have hzero : monthStart 0 = -719468 := by decide
    rw [hn]
    unfold monthIndex at hn
    rw [hzero, Int.zero_add] at hgrows
    omega

/-- A date of the calendar. -/
structure Date.Valid (date : Date) : Prop where
  month : 1 ≤ date.month ∧ date.month ≤ 12
  day : 1 ≤ date.day ∧ date.day ≤ lengthOfMonth date.year date.month

theorem dateOfDay_valid (number : Int) : (dateOfDay number).Valid := by
  have hmonth := dateOfDay_month number
  have hnext := lt_monthStart_dateOfDay number
  have hday := dayNumber_dateOfDay number
  rw [dayNumber_eq] at hday
  rw [monthStart_lengthOfMonth hmonth] at hnext
  exact ⟨hmonth, dateOfDay_day_pos number, by omega⟩

/-- A date of the calendar is the date of its day. -/
theorem dateOfDay_dayNumber {date : Date} (h : date.Valid) :
    dateOfDay (dayNumber date.year date.month date.day) = date := by
  obtain ⟨hmonth, hpos, hle⟩ := h
  have hlength := @monthStart_lengthOfMonth date.year _ hmonth
  obtain ⟨year, month, d⟩ := date
  dsimp only at hmonth hpos hle hlength ⊢
  rw [dayNumber_eq, dateOfDay_monthStart (by omega) (by omega)]
  unfold monthIndex
  congr 1 <;> omega

/-! ## Section 4: The years -/

/-- The first day of a year. -/
def yearStart (year : Int) : Int := monthStart (monthIndex year 1)

theorem monthStart_mono {j k : Int} (h : j ≤ k) : monthStart j ≤ monthStart k := by
  rcases Int.lt_or_eq_of_le h with hlt | rfl
  · have hnext := monthStart_le hlt
    have hlong := monthStart_succ j
    omega
  · exact Int.le_refl _

theorem yearStart_mono {y z : Int} (h : y ≤ z) : yearStart y ≤ yearStart z := by
  refine monthStart_mono ?_
  unfold monthIndex
  omega

/-- A date lies in its year. -/
theorem Date.Valid.inYear {date : Date} (h : date.Valid) :
    yearStart date.year ≤ dayNumber date.year date.month date.day ∧
      dayNumber date.year date.month date.day < yearStart (date.year + 1) := by
  have hlength := @monthStart_lengthOfMonth date.year _ h.month
  have hmonth := h.month
  have hday := h.day
  have hfirst : yearStart date.year ≤ monthStart (monthIndex date.year date.month) := by
    refine monthStart_mono ?_
    unfold monthIndex
    omega
  have hlast : monthStart (monthIndex date.year date.month + 1) ≤ yearStart (date.year + 1) := by
    refine monthStart_mono ?_
    unfold monthIndex
    omega
  rw [dayNumber_eq]
  omega

/-- A day lies in the year of its date. -/
theorem inYear_dateOfDay (number : Int) :
    yearStart (dateOfDay number).year ≤ number ∧
      number < yearStart ((dateOfDay number).year + 1) := by
  have hyear := (dateOfDay_valid number).inYear
  rwa [dayNumber_dateOfDay] at hyear

/-! ## Section 5: The cycle of 400 years -/

/-- The months and days repeat every 400 years. -/
theorem dateOfDay_add_eras (number eras : Int) :
    (dateOfDay (number + 146097 * eras)).month = (dateOfDay number).month ∧
      (dateOfDay (number + 146097 * eras)).day = (dateOfDay number).day := by
  have hera : (number + 146097 * eras + 719468) % 146097 = (number + 719468) % 146097 := by omega
  simp [dateOfDay, hera]

/-- So do the weekdays. -/
theorem weekdayOfDay_add_eras (number eras : Int) :
    weekdayOfDay (number + 146097 * eras) = weekdayOfDay number := by
  unfold weekdayOfDay
  omega

end Nzovu.Foundation.CivilTime
