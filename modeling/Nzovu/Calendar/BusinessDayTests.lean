import Mathlib.Data.List.MinMax
import Nzovu.Calendar.BusinessDates
import Nzovu.Foundation.FiniteMap

/-!
# Three Tests for a Business Day

Whether an instant is on a business day is decided in three places: by the evaluator, by the engine
for its previews and by the provider of the calendars. Each looks at the weekday of the local date,
and each compares the holidays in its own way: the evaluator with the UTC day and, when they recur,
with the local date; the engine with the UTC day alone; the provider with the local date alone, and
never with that of another year. For the provider a weekend day `0` is Sunday, too.

- Section 1: the test of the engine.
- Section 2: the test of the provider.
- Section 3: what the tests look at.
- Section 4: when they agree.
-/

namespace Nzovu.Calendar

open Nzovu.Foundation
open Nzovu.Foundation.CivilTime

/-! ## Section 1: The engine -/

namespace Engine

/-- `isHolidayDate`. -/
def isHolidayDate (timezone : Location) (date : Int) (holiday : Holiday) : Bool :=
  let holidayDate := truncateDay (holiday.date.getD ⟨0, 0⟩).asTime
  let dateToCheck := truncateDay date
  -- a holiday that recurs is compared by month and day, in different locations
  if holiday.recurringYearly then
    (utc.dateOf holidayDate).month = (timezone.dateOf dateToCheck).month &&
      (utc.dateOf holidayDate).day = (timezone.dateOf dateToCheck).day
  else holidayDate = dateToCheck

/-- `IsBusinessDay`; without a calendar the days from Monday to Friday are. -/
def isBusinessDay (timezone : Location) (date : Int) :
    Option BusinessCalendar → Bool
  -- Monday to Friday
  | none => 1 ≤ timezone.weekday date && timezone.weekday date ≤ 5
  | some businessCalendar =>
    let weekday := Weekly.goWeekdayToOurs (timezone.weekday date)
    weekday ∉ businessCalendar.weekendDays &&
      businessCalendar.holidays.all fun holiday => !isHolidayDate timezone date holiday

end Engine

/-! ## Section 2: The provider -/

/-- `MemoryBusinessCalendarProvider`: the calendars by their identifiers. -/
structure MemoryBusinessCalendarProvider where
  calendars : FiniteMap String BusinessCalendar

namespace MemoryBusinessCalendarProvider

variable (provider : MemoryBusinessCalendarProvider)

/-- `GetBusinessCalendar`. -/
def getBusinessCalendar (calendarId : String) : Except CalendarError BusinessCalendar :=
  match provider.calendars.get? calendarId with
  | none => .error (.businessCalendarNotFound s!"calendar ID: {calendarId}")
  | some calendar => .ok calendar

/-- `IsBusinessDay` of a calendar. -/
def isBusinessDayOf (timezone : Location) (calendar : BusinessCalendar) (date : Int) : Bool :=
  (calendar.weekendDays.all fun wd =>
    -- Go's own number, or `7` for Sunday
    !(timezone.weekday date = wd || wd = 7 && timezone.weekday date = 0)) &&
  calendar.holidays.all fun holiday =>
    -- year, month and day; `recurring_yearly` is not read
    utc.dateOf (holiday.date.getD ⟨0, 0⟩).asTime ≠ timezone.dateOf date

/-- `IsBusinessDay`. -/
def isBusinessDay (timezone : Location) (calendarId : String) (date : Int) :
    Except CalendarError Bool :=
  match provider.getBusinessCalendar calendarId with
  | .error err => .error err
  | .ok calendar => .ok (isBusinessDayOf timezone calendar date)

end MemoryBusinessCalendarProvider

/-! ## Section 3: What the tests look at -/

/-- A date of the year falls on every weekday, again and again. -/
theorem exists_sameDayOfYear (n : Int) {w : Int} (hw : 1 ≤ w ∧ w ≤ 7) (bound : Int) :
    ∃ m, bound < m ∧ SameDayOfYear m n ∧ Weekly.goWeekdayToOurs (weekdayOfDay m) = w := by
  obtain ⟨hmonth, hday⟩ := dateOfDay_valid n
  -- the date is so many days from the 29th of its month, of which every weekday is known
  obtain ⟨year, -, hlength, hweekday⟩ := Monthly.exists_weekday_29 (dateOfDay n).month.toNat
    (List.mem_range'_1.mpr (by omega)) ((w + 28 - (dateOfDay n).day) % 7 + 1).toNat
    (List.mem_range'_1.mpr (by omega))
  rw [Int.toNat_of_nonneg (by omega)] at hlength hweekday
  rw [Int.toNat_of_nonneg (by omega)] at hweekday
  have hvalid : Date.Valid ⟨year, (dateOfDay n).month, (dateOfDay n).day⟩ := by
    refine ⟨hmonth, hday.1, ?_⟩
    have hlonger := hday.2
    unfold lengthOfMonth at hlength hlonger ⊢
    dsimp only
    split at hlonger <;> split at hlength <;> omega
  have hdate := dateOfDay_dayNumber hvalid
  -- eras of 400 years repeat dates and weekdays
  generalize hm : dayNumber year (dateOfDay n).month (dateOfDay n).day = m at hdate
  refine ⟨m + 146097 * (max bound m - m + 1), by omega, ?_, ?_⟩
  · obtain ⟨hsame, hsame'⟩ := dateOfDay_add_eras m (max bound m - m + 1)
    rw [SameDayOfYear, hsame, hsame', hdate]
    exact ⟨rfl, rfl⟩
  · rw [weekdayOfDay_add_eras, ← hm]
    simp only [Monthly.weekdayOf, dayNumber_eq, weekdayOfDay, Weekly.goWeekdayToOurs]
      at hweekday ⊢
    split at hweekday <;> split <;> omega

theorem weekdayOfDay_range (n : Int) : 0 ≤ weekdayOfDay n ∧ weekdayOfDay n ≤ 6 := by
  unfold weekdayOfDay
  omega

theorem weekdayOfDay_eq_zero {n : Int} (h : Weekly.goWeekdayToOurs (weekdayOfDay n) = 7) :
    weekdayOfDay n = 0 := by
  have hrange := weekdayOfDay_range n
  unfold Weekly.goWeekdayToOurs at h
  split at h <;> omega

section Tests

variable {timezone : Location} {offset : Int} (h : timezone.Fixed offset)
  (calendar : BusinessCalendar) (date : Int)

include h in
/-- The engine looks at the UTC day alone, for holidays that recur at the local date on which it
begins. -/
theorem engine_iff :
    Engine.isBusinessDay timezone date (some calendar) = true ↔
      Weekly.goWeekdayToOurs (weekdayOfDay (timezone.civilDay date)) ∉ calendar.weekendDays ∧
        ∀ holiday ∈ calendar.holidays, ¬ if holiday.recurringYearly = true then
          SameDayOfYear (BusinessDays.utcDay holiday) (date / day + offset / 86400)
        else BusinessDays.utcDay holiday = date / day := by
  have hlocal : timezone.dateOf (date / day * day) = dateOfDay (date / day + offset / 86400) := by
    rw [Location.dateOf, civilDay_midnight h]
  simp only [Engine.isBusinessDay, Bool.and_eq_true, decide_eq_true_eq, List.all_eq_true]
  refine and_congr_right fun _ => forall₂_congr fun holiday _ => ?_
  simp only [Engine.isHolidayDate, truncateDay_eq, dateOf_midnight_utc, midnight_inj, hlocal,
    SameDayOfYear, BusinessDays.utcDay]
  cases holiday.recurringYearly <;> simp [imp_iff_not_or]

/-- The provider looks at the local date alone, and takes `0` for Sunday, too. -/
theorem provider_iff :
    MemoryBusinessCalendarProvider.isBusinessDayOf timezone calendar date = true ↔
      (Weekly.goWeekdayToOurs (weekdayOfDay (timezone.civilDay date)) ∉ calendar.weekendDays ∧
        ¬ (weekdayOfDay (timezone.civilDay date) = 0 ∧ 0 ∈ calendar.weekendDays)) ∧
        ∀ holiday ∈ calendar.holidays, BusinessDays.utcDay holiday ≠ timezone.civilDay date := by
  have hutc : ∀ t : Int, utc.civilDay t = t / day := by
    intro t
    rw [Location.fixed_utc.civilDay_eq]
    simp
  simp only [MemoryBusinessCalendarProvider.isBusinessDayOf, Bool.and_eq_true,
    decide_eq_true_eq, List.all_eq_true, Location.dateOf, hutc, Location.weekday, ne_eq,
    dateOfDay_inj, BusinessDays.utcDay]
  refine and_congr_left fun _ => ?_
  unfold Weekly.goWeekdayToOurs
  constructor
  · intro hopen
    refine ⟨fun hlisted => ?_, fun hzero => ?_⟩
    · have hday := hopen _ hlisted
      split at hday <;> simp_all
    · have hday := hopen 0 hzero.2
      simp [hzero.1] at hday
  · rintro ⟨hlisted, hzero⟩ wd hwd
    split at hlisted
    · next hsunday =>
      have hseven : wd ≠ 7 := fun heq => hlisted (heq ▸ hwd)
      have hnone : wd ≠ 0 := fun heq => hzero ⟨hsunday, heq ▸ hwd⟩
      simp [hsunday, hseven, Ne.symm hnone]
    · next hsunday =>
      have hother : weekdayOfDay (timezone.civilDay date) ≠ wd := fun heq => hlisted (heq ▸ hwd)
      simp [hsunday, hother]

end Tests

/-! ## Section 4: When they agree -/

/-- The three tests give the same answer at every instant. -/
def TestsAgree (provider : MemoryBusinessCalendarProvider) (calendar : BusinessCalendar)
    (timezone : Location) : Prop :=
  ∀ date,
    Engine.isBusinessDay timezone date (some calendar) =
      BusinessDays.isBusinessDay timezone calendar date ∧
    provider.isBusinessDay timezone calendar.calendarId date =
      .ok (BusinessDays.isBusinessDay timezone calendar date)

/-- The calendar has a holiday on the UTC day. -/
def BusinessCalendar.HolidayOn (calendar : BusinessCalendar) (utcDay : Int) : Prop :=
  ∃ holiday ∈ calendar.holidays, BusinessDays.utcDay holiday = utcDay

/-- The civil day and the UTC day have an instant in common. -/
def Overlap (offset number utcDay : Int) : Prop :=
  utcDay = number - offset / 86400 ∨
    (offset % 86400 ≠ 0 ∧ utcDay = number - offset / 86400 - 1)

/-- The calendar is closed on every weekday; or on every one but Sunday, which it lists as `0`,
while holidays that recur take up every date of the year. -/
def BusinessCalendar.NeverOpen (calendar : BusinessCalendar) : Prop :=
  (∀ w, 1 ≤ w → w ≤ 6 → w ∈ calendar.weekendDays) ∧
    (7 ∈ calendar.weekendDays ∨
      (0 ∈ calendar.weekendDays ∧ ∀ number, ∃ holiday ∈ calendar.holidays,
        holiday.recurringYearly = true ∧ SameDayOfYear (BusinessDays.utcDay holiday) number))

/-- No holiday recurs, a weekend day `0` comes with a `7`, and a working day is a holiday exactly
when the UTC days that it overlaps are. -/
structure BusinessCalendar.Unambiguous (calendar : BusinessCalendar) (offset : Int) : Prop where
  once : ∀ holiday ∈ calendar.holidays, holiday.recurringYearly = false
  sunday : 0 ∈ calendar.weekendDays → 7 ∈ calendar.weekendDays
  overlap : ∀ number utcDay,
    Weekly.goWeekdayToOurs (weekdayOfDay number) ∉ calendar.weekendDays →
      Overlap offset number utcDay → (calendar.HolidayOn utcDay ↔ calendar.HolidayOn number)

section Agree

variable {provider : MemoryBusinessCalendarProvider} {calendar : BusinessCalendar}
  {timezone : Location} {offset : Int} (h : timezone.Fixed offset)
include h

/-- An instant of both days. -/
theorem exists_instant {number utcDay : Int} (hoverlap : Overlap offset number utcDay) :
    ∃ date, timezone.civilDay date = number ∧ date / day = utcDay := by
  refine ⟨max (number * day - offset * second) (utcDay * day), ?_⟩
  rw [h.civilDay_eq]
  unfold Overlap at hoverlap
  simp only [day, hour, minute, second]
  omega

theorem overlap_of_instant (date : Int) :
    Overlap offset (timezone.civilDay date) (date / day) := by
  rw [h.civilDay_eq]
  unfold Overlap
  simp only [day, hour, minute, second]
  omega

/-- A date of the year falls on a weekday at an instant beyond all holidays. -/
theorem exists_quiet_instant (calendar : BusinessCalendar) (n : Int) {w : Int}
    (hw : 1 ≤ w ∧ w ≤ 7) :
    ∃ date, SameDayOfYear (timezone.civilDay date) n ∧
      Weekly.goWeekdayToOurs (weekdayOfDay (timezone.civilDay date)) = w ∧
      (∀ holiday ∈ calendar.holidays, BusinessDays.utcDay holiday ≠ date / day) ∧
      ∀ holiday ∈ calendar.holidays, BusinessDays.utcDay holiday ≠ timezone.civilDay date := by
  have hbefore : ∀ holiday ∈ calendar.holidays, BusinessDays.utcDay holiday ≤
      (calendar.holidays.map BusinessDays.utcDay).foldr max 0 :=
    fun holiday hholiday =>
      List.le_max_of_le' 0 (List.mem_map_of_mem hholiday) (Int.le_refl _)
  generalize (calendar.holidays.map BusinessDays.utcDay).foldr max 0 = bound at hbefore
  obtain ⟨m, hm, hsame, hweekday⟩ :=
    exists_sameDayOfYear n hw (max bound (bound + offset / 86400))
  obtain ⟨date, hcivil, hutc⟩ := exists_instant h (.inl rfl : Overlap offset m _)
  refine ⟨date, hcivil ▸ hsame, hcivil ▸ hweekday, fun holiday hholiday => ?_,
    fun holiday hholiday => ?_⟩
  · have hle := hbefore holiday hholiday
    omega
  · have hle := hbefore holiday hholiday
    omega

omit h in
/-- What it takes for the three tests to agree. -/
theorem agree_iff
    (hprovider : provider.getBusinessCalendar calendar.calendarId = .ok calendar) :
    TestsAgree provider calendar timezone ↔ ∀ date,
      (Engine.isBusinessDay timezone date (some calendar) = true ↔
        BusinessDays.isBusinessDay timezone calendar date = true) ∧
      (MemoryBusinessCalendarProvider.isBusinessDayOf timezone calendar date = true ↔
        BusinessDays.isBusinessDay timezone calendar date = true) := by
  simp only [TestsAgree, MemoryBusinessCalendarProvider.isBusinessDay, hprovider,
    Except.ok.injEq]
  exact forall_congr' fun _ => and_congr Bool.eq_iff_iff Bool.eq_iff_iff

/-- Where the calendar is never open, all tests say so. -/
theorem BusinessCalendar.NeverOpen.closed (hnever : calendar.NeverOpen) (date : Int) :
    BusinessDays.isBusinessDay timezone calendar date = false ∧
      Engine.isBusinessDay timezone date (some calendar) = false ∧
      MemoryBusinessCalendarProvider.isBusinessDayOf timezone calendar date = false := by
  obtain ⟨hweek, hsunday⟩ := hnever
  simp only [← Bool.not_eq_true]
  rw [BusinessDays.evaluator_iff, engine_iff h, provider_iff]
  have hrange := weekdayOfDay_range (timezone.civilDay date)
  by_cases hzero : weekdayOfDay (timezone.civilDay date) = 0
  · have hours : Weekly.goWeekdayToOurs (weekdayOfDay (timezone.civilDay date)) = 7 := by
      rw [hzero]
      rfl
    rw [hours]
    rcases hsunday with hseven | ⟨hlisted, hcover⟩
    · exact ⟨fun hopen => hopen.1 hseven, fun hopen => hopen.1 hseven,
        fun hopen => hopen.1.1 hseven⟩
    · refine ⟨fun hopen => ?_, fun hopen => ?_, fun hopen => hopen.1.2 ⟨hzero, hlisted⟩⟩
      · obtain ⟨holiday, hholiday, hrecurs, hsame⟩ := hcover (timezone.civilDay date)
        exact (hopen.2 holiday hholiday).2 ⟨hrecurs, hsame⟩
      · obtain ⟨holiday, hholiday, hrecurs, hsame⟩ := hcover (date / day + offset / 86400)
        exact hopen.2 holiday hholiday (by rwa [if_pos hrecurs])
  · have hours : Weekly.goWeekdayToOurs (weekdayOfDay (timezone.civilDay date)) =
        weekdayOfDay (timezone.civilDay date) := if_neg hzero
    have hmem := hweek (weekdayOfDay (timezone.civilDay date)) (by omega) hrange.2
    rw [hours]
    exact ⟨fun hopen => hopen.1 hmem, fun hopen => hopen.1 hmem, fun hopen => hopen.1.1 hmem⟩

/-- Where the calendar is unambiguous, all tests are the evaluator's. -/
theorem BusinessCalendar.Unambiguous.tests_iff (hclear : calendar.Unambiguous offset)
    (date : Int) :
    (Engine.isBusinessDay timezone date (some calendar) = true ↔
      BusinessDays.isBusinessDay timezone calendar date = true) ∧
    (MemoryBusinessCalendarProvider.isBusinessDayOf timezone calendar date = true ↔
      BusinessDays.isBusinessDay timezone calendar date = true) := by
  rw [BusinessDays.evaluator_iff, engine_iff h, provider_iff]
  constructor
  · refine and_congr_right fun _ => forall₂_congr fun holiday hholiday => ?_
    simp [hclear.once holiday hholiday]
  · have hzero : ¬ (weekdayOfDay (timezone.civilDay date) = 0 ∧ 0 ∈ calendar.weekendDays) ∨
        Weekly.goWeekdayToOurs (weekdayOfDay (timezone.civilDay date)) ∈
          calendar.weekendDays := by
      by_cases hsunday : weekdayOfDay (timezone.civilDay date) = 0 ∧ 0 ∈ calendar.weekendDays
      · right
        rw [hsunday.1]
        exact hclear.sunday hsunday.2
      · exact .inl hsunday
    by_cases hweekday : Weekly.goWeekdayToOurs (weekdayOfDay (timezone.civilDay date)) ∈
        calendar.weekendDays
    · simp [hweekday]
    · have hsame := hclear.overlap _ _ hweekday (overlap_of_instant h date)
      have hnot := hzero.resolve_right hweekday
      rw [and_iff_left hnot]
      refine and_congr_right fun _ => ?_
      rw [BusinessCalendar.HolidayOn, BusinessCalendar.HolidayOn] at hsame
      constructor
      · intro hnone holiday hholiday
        refine ⟨fun hutc => ?_, fun hrecurs => ?_⟩
        · obtain ⟨other, hother, heq⟩ := hsame.mp ⟨holiday, hholiday, hutc⟩
          exact hnone other hother heq
        · have honce := hclear.once holiday hholiday
          rw [hrecurs.1] at honce
          cases honce
      · intro hnone holiday hholiday hlocal
        obtain ⟨other, hother, heq⟩ := hsame.mpr ⟨holiday, hholiday, hlocal⟩
        exact (hnone other hother).1 heq

/-- Where the tests agree and a weekday is open to the provider, the calendar is unambiguous. -/
theorem unambiguous_of_agree
    (hagree : ∀ date,
      (Engine.isBusinessDay timezone date (some calendar) = true ↔
        BusinessDays.isBusinessDay timezone calendar date = true) ∧
      (MemoryBusinessCalendarProvider.isBusinessDayOf timezone calendar date = true ↔
        BusinessDays.isBusinessDay timezone calendar date = true))
    {w : Int} (hw : 1 ≤ w ∧ w ≤ 7) (hworks : w ∉ calendar.weekendDays)
    (hmonday : w = 7 → 0 ∉ calendar.weekendDays) : calendar.Unambiguous offset := by
  have honce : ∀ holiday ∈ calendar.holidays, holiday.recurringYearly = false := by
    intro holiday hholiday
    by_contra hrecurs
    rw [Bool.not_eq_false] at hrecurs
    -- years later, the provider has forgotten the holiday
    obtain ⟨date, hsame, hweekday, hutc, hlocal⟩ :=
      exists_quiet_instant h calendar (BusinessDays.utcDay holiday) hw
    have hopen : MemoryBusinessCalendarProvider.isBusinessDayOf timezone calendar date = true := by
      refine (provider_iff calendar date).mpr ⟨⟨by rwa [hweekday], fun hzero => ?_⟩, hlocal⟩
      rw [hzero.1] at hweekday
      exact hmonday hweekday.symm hzero.2
    exact (((BusinessDays.evaluator_iff calendar date).mp ((hagree date).2.mp hopen)).2 holiday hholiday).2
      ⟨hrecurs, hsame.1.symm, hsame.2.symm⟩
  have hsunday : 0 ∈ calendar.weekendDays → 7 ∈ calendar.weekendDays := by
    intro hzero
    by_contra hseven
    obtain ⟨date, -, hweekday, hutc, hlocal⟩ :=
      exists_quiet_instant h calendar 0 (show (1 : Int) ≤ 7 ∧ (7 : Int) ≤ 7 by decide)
    have hopen : BusinessDays.isBusinessDay timezone calendar date = true := by
      refine (BusinessDays.evaluator_iff calendar date).mpr ⟨by rwa [hweekday], fun holiday hholiday => ?_⟩
      refine ⟨hutc holiday hholiday, fun hrecurs => ?_⟩
      rw [honce holiday hholiday] at hrecurs
      cases hrecurs.1
    exact ((provider_iff calendar date).mp ((hagree date).2.mpr hopen)).1.2
      ⟨weekdayOfDay_eq_zero hweekday, hzero⟩
  refine ⟨honce, hsunday, fun number utcDay hworking hoverlap => ?_⟩
  obtain ⟨date, rfl, rfl⟩ := exists_instant h hoverlap
  have hequal := (hagree date).2
  rw [BusinessDays.evaluator_iff, provider_iff] at hequal
  have hzero : ¬ (weekdayOfDay (timezone.civilDay date) = 0 ∧ 0 ∈ calendar.weekendDays) := by
    intro hboth
    rw [hboth.1] at hworking
    exact hworking (hsunday hboth.2)
  -- on a working day both answers depend on the holidays alone
  constructor
  · rintro ⟨holiday, hholiday, hutc⟩
    by_contra hnone
    have hopen := hequal.mp ⟨⟨hworking, hzero⟩, fun other hother heq => hnone ⟨other, hother, heq⟩⟩
    exact (hopen.2 holiday hholiday).1 hutc
  · rintro ⟨holiday, hholiday, hlocal⟩
    by_contra hnone
    have hopen := hequal.mpr ⟨hworking, fun other hother => ⟨fun heq => hnone ⟨other, hother, heq⟩,
      fun hrecurs => (by rw [honce other hother] at hrecurs; cases hrecurs.1)⟩⟩
    exact hopen.2 holiday hholiday hlocal

/-- Where the tests agree and no weekday is open to the provider, the calendar is never open. -/
theorem neverOpen_of_agree
    (hagree : ∀ date,
      (MemoryBusinessCalendarProvider.isBusinessDayOf timezone calendar date = true ↔
        BusinessDays.isBusinessDay timezone calendar date = true))
    (hclosed : ∀ w, 1 ≤ w → w ≤ 7 → w ∉ calendar.weekendDays →
      w = 7 ∧ 0 ∈ calendar.weekendDays) : calendar.NeverOpen := by
  refine ⟨fun w hpos hle => ?_, ?_⟩
  · by_contra hopen
    have hseven := (hclosed w hpos (by omega) hopen).1
    omega
  · by_cases hseven : 7 ∈ calendar.weekendDays
    · exact .inl hseven
    · have hzero := (hclosed 7 (by decide) (by decide) hseven).2
      refine .inr ⟨hzero, fun number => ?_⟩
      -- on a Sunday beyond the holidays only one that recurs closes the day to the evaluator
      obtain ⟨date, hsame, hweekday, hutc, -⟩ :=
        exists_quiet_instant h calendar number (show (1 : Int) ≤ 7 ∧ (7 : Int) ≤ 7 by decide)
      by_contra hnone
      have hopen : BusinessDays.isBusinessDay timezone calendar date = true := by
        refine (BusinessDays.evaluator_iff calendar date).mpr ⟨by rwa [hweekday], fun holiday hholiday => ?_⟩
        refine ⟨hutc holiday hholiday, fun hrecurs => hnone ⟨holiday, hholiday, hrecurs.1, ?_⟩⟩
        exact ⟨hrecurs.2.1.trans hsame.1, hrecurs.2.2.trans hsame.2⟩
      exact ((provider_iff calendar date).mp ((hagree date).mpr hopen)).1.2
        ⟨weekdayOfDay_eq_zero hweekday, hzero⟩

/-- **Business-day tests**: the three agree exactly where the calendar is never open or is
unambiguous. -/
theorem testsAgree_iff
    (hprovider : provider.getBusinessCalendar calendar.calendarId = .ok calendar) :
    TestsAgree provider calendar timezone ↔
      calendar.NeverOpen ∨ calendar.Unambiguous offset := by
  rw [agree_iff hprovider]
  constructor
  · intro hagree
    by_cases hopen : ∃ w, (1 ≤ w ∧ w ≤ 7) ∧ w ∉ calendar.weekendDays ∧
        (w = 7 → 0 ∉ calendar.weekendDays)
    · obtain ⟨w, hw, hworks, hmonday⟩ := hopen
      exact .inr (unambiguous_of_agree h hagree hw hworks hmonday)
    · refine .inl (neverOpen_of_agree h (fun date => (hagree date).2) fun w hpos hle hworks => ?_)
      by_contra hnot
      exact hopen ⟨w, ⟨hpos, hle⟩, hworks, fun hseven hzero => hnot ⟨hseven, hzero⟩⟩
  · rintro (hnever | hclear) date
    · obtain ⟨hevaluator, hengine, hprovides⟩ := hnever.closed h date
      rw [hevaluator, hengine, hprovides]
      exact ⟨Iff.rfl, Iff.rfl⟩
    · exact hclear.tests_iff h date

end Agree

/-! ### A holiday on New Year's Day -/

/-- A calendar that is closed on January 1. -/
def newYearCalendar (recurringYearly : Bool) : BusinessCalendar where
  calendarId := "new-year"
  weekendDays := [6, 7]
  timezone := "UTC"
  holidays := [{ date := some ⟨1704067200, 0⟩, recurringYearly }]

/-- A provider of one calendar. -/
def providerOf (calendar : BusinessCalendar) : MemoryBusinessCalendarProvider :=
  ⟨.single calendar.calendarId calendar⟩

theorem providerOf_getBusinessCalendar (calendar : BusinessCalendar) :
    (providerOf calendar).getBusinessCalendar calendar.calendarId = .ok calendar := by
  simp [MemoryBusinessCalendarProvider.getBusinessCalendar, providerOf]

/-- In 2024 alone, all tests know of it. -/
theorem testsAgree_once :
    TestsAgree (providerOf (newYearCalendar false)) (newYearCalendar false) utc := by
  refine (testsAgree_iff Location.fixed_utc (providerOf_getBusinessCalendar _)).mpr (.inr ?_)
  refine ⟨by decide, by decide, fun number utcDay _ hoverlap => ?_⟩
  obtain rfl : utcDay = number := by
    unfold Overlap at hoverlap
    omega
  exact Iff.rfl

/-- If it recurs, the provider takes Wednesday, January 1, 2025, for a business day. -/
theorem not_testsAgree_recurring :
    ¬ ∀ (provider : MemoryBusinessCalendarProvider) (calendar : BusinessCalendar)
      (timezone : Location) (offset : Int), timezone.Fixed offset →
        provider.getBusinessCalendar calendar.calendarId = .ok calendar →
        (∀ holiday ∈ calendar.holidays, holiday.rule = none ∧
          ∃ own, holiday.date = some own ∧ own.asTime % day = 0) →
        TestsAgree provider calendar timezone := by
  intro hall
  have hdated : ∀ holiday ∈ (newYearCalendar true).holidays, holiday.rule = none ∧
      ∃ own, holiday.date = some own ∧ own.asTime % day = 0 := by
    intro holiday hholiday
    obtain rfl := List.mem_singleton.mp hholiday
    exact ⟨rfl, _, rfl, by decide⟩
  have hagree := hall _ (newYearCalendar true) _ _ Location.fixed_utc
    (providerOf_getBusinessCalendar _) hdated
  have hday := (hagree (dayNumber 2025 1 1 * day)).2
  revert hday
  decide +kernel

end Nzovu.Calendar
