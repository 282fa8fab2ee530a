import Nzovu.Calendar.Progress
import Nzovu.Calendar.Searching

/-!
# The Dates of Exceptions

An exception is dated by an instant, midnight of its date in UTC. `ApplyExceptions` converts it to
the timezone of the schedule, where it falls on the day before when the offset is negative, and
keeps one exception for each date, the last one listed. A run that a RESCHEDULE moves is not
compared with the exceptions again.

- Section 1: the exception that applies to a run.
- Section 2: what the exceptions of a schedule promise.
- Section 3: when they keep it.
-/

namespace Nzovu.Calendar

open Nzovu.Foundation
open Nzovu.Foundation.CivilTime

/-! ## Section 1: The exception that applies to a run -/

/-- The day an exception is dated, as a number. -/
def CalendarException.dated (exception : CalendarException) : Int := exception.day / CivilTime.day

/-- Valid exceptions, each dated by a midnight of UTC. -/
structure DatedExceptions (exceptions : List CalendarException) : Prop where
  valid : validateExceptions 0 exceptions = .ok ()
  midnight : ∀ exception ∈ exceptions, exception.day % day = 0

section Dates

variable {exceptions : List CalendarException} {timezone : Location} {offset t : Int}

/-- In its timezone an exception falls on its date, or on the day before. -/
theorem CalendarException.civilDay_day (h : timezone.Fixed offset) {exception : CalendarException}
    (hmidnight : exception.day % CivilTime.day = 0) :
    timezone.civilDay exception.day = exception.dated + offset / 86400 := by
  rw [h.civilDay_eq, CalendarException.dated]
  simp only [CivilTime.day, hour, minute, second] at hmidnight ⊢
  omega

/-- The exception that applies to a run: the last one listed that falls on its date. -/
theorem exceptionOn_eq (h : timezone.Fixed offset) (hdated : DatedExceptions exceptions) (t : Int) :
    exceptionOn exceptions timezone (timezone.dateOf t) =
      (exceptions.filter fun exception =>
        exception.dated + offset / 86400 = timezone.civilDay t).getLast? := by
  unfold exceptionOn
  congr 1
  refine List.filter_congr fun exception hmem => ?_
  have hday := exception.civilDay_day h (hdated.midnight exception hmem)
  rw [decide_eq_decide, Location.dateOf, Location.dateOf, dateOfDay_inj, hday]

theorem exceptionOn_some (h : timezone.Fixed offset) (hdated : DatedExceptions exceptions)
    {exception : CalendarException}
    (hon : exceptionOn exceptions timezone (timezone.dateOf t) = some exception) :
    exception ∈ exceptions ∧ exception.dated + offset / 86400 = timezone.civilDay t := by
  rw [exceptionOn_eq h hdated] at hon
  simpa using List.mem_of_getLast? hon

/-- A run on whose date an exception falls has one that applies. -/
theorem exists_exceptionOn (h : timezone.Fixed offset) (hdated : DatedExceptions exceptions)
    {exception : CalendarException} (hmem : exception ∈ exceptions)
    (hday : exception.dated + offset / 86400 = timezone.civilDay t) :
    ∃ applied, exceptionOn exceptions timezone (timezone.dateOf t) = some applied := by
  rw [exceptionOn_eq h hdated]
  have hne : (exceptions.filter fun exception =>
      exception.dated + offset / 86400 = timezone.civilDay t) ≠ [] :=
    List.ne_nil_of_mem (List.mem_filter.mpr ⟨hmem, by simpa using hday⟩)
  exact ⟨_, List.getLast?_eq_some_getLast hne⟩

end Dates

/-! ## Section 2: What the exceptions promise -/

/-- What the exceptions of a schedule promise for the runs at `times`: an exception applies to runs
on its own date only, and to all of them, unless a SKIP of the same date applies; no run is produced
on a date with a SKIP; and a run rescheduled to a date is produced on that date at its own time of
day. -/
structure ExceptionsKept (exceptions : List CalendarException) (timezone : Location)
    (times : List Int) : Prop where
  own : ∀ t ∈ times, ∀ exception,
    exceptionOn exceptions timezone (timezone.dateOf t) = some exception →
      exception.dated = timezone.civilDay t
  every : ∀ t ∈ times, ∀ exception ∈ exceptions, exception.dated = timezone.civilDay t →
    ∃ applied, exceptionOn exceptions timezone (timezone.dateOf t) = some applied ∧
      (applied = exception ∨ applied.type = .skip)
  skipped : ∀ x ∈ applyExceptions times exceptions timezone, ∀ exception ∈ exceptions,
    exception.type = .skip → exception.dated ≠ timezone.civilDay x
  moved : ∀ t ∈ times, ∀ exception target,
    exceptionOn exceptions timezone (timezone.dateOf t) = some exception →
      exception.type = .reschedule → exception.rescheduleTo = some target →
        isDateOnly target.asTime = true →
          ∃ x ∈ applyExceptions times exceptions timezone,
            timezone.civilDay x = target.asTime / day ∧
              timezone.secondOfDay x = timezone.secondOfDay t ∧ x % second = t % second

/-- The civil day on which a RESCHEDULE puts a run. -/
def landingDay (offset : Int) (target : Timestamp) : Int :=
  if isDateOnly target.asTime then target.asTime / day else (target.asTime + offset * second) / day

/-- The condition. Where the offset is not negative: of the exceptions dated on the day of a run,
the last one listed is a SKIP or there is no other, and when it is a RESCHEDULE, no SKIP is dated on
the day to which it moves the run. Where it is negative: no exception is dated on the day of a run,
nor on the day after. -/
def ExceptionsFit (offset : Int) (exceptions : List CalendarException) (timezone : Location)
    (times : List Int) : Prop :=
  ∀ t ∈ times,
    if offset / 86400 = 0 then
      ∀ last, (exceptions.filter fun exception =>
          exception.dated = timezone.civilDay t).getLast? = some last →
        (last.type = .skip ∨
          ∀ exception ∈ exceptions, exception.dated = timezone.civilDay t → exception = last) ∧
        (last.type = .reschedule → ∀ target, last.rescheduleTo = some target →
          ∀ exception ∈ exceptions, exception.type = .skip →
            exception.dated ≠ landingDay offset target)
    else
      ∀ exception ∈ exceptions, exception.dated ≠ timezone.civilDay t ∧
        exception.dated + offset / 86400 ≠ timezone.civilDay t

/-! ## Section 3: When the exceptions keep it -/

theorem mem_validateExceptions {i : Nat} {exceptions : List CalendarException}
    (h : validateExceptions i exceptions = .ok ()) {exception : CalendarException}
    (hmem : exception ∈ exceptions) : validateException exception = .ok () := by
  induction exceptions generalizing i with
  | nil => cases hmem
  | cons first rest ih =>
    simp only [validateExceptions] at h
    cases hfirst : validateException first with
    | error err => simp [hfirst] at h
    | ok _ =>
      simp only [hfirst] at h
      rcases List.mem_cons.mp hmem with rfl | hmem
      · exact hfirst
      · exact ih h hmem

theorem mem_validateExtraTimes {j : Nat} {times : List TimeOfDay}
    (h : validateExtraTimes j times = .ok ()) {t : TimeOfDay} (ht : t ∈ times) :
    0 ≤ t.seconds ∧ t.seconds < 86400 := by
  induction times generalizing j with
  | nil => cases ht
  | cons first rest ih =>
    simp only [validateExtraTimes] at h
    split at h
    · cases h
    · split at h
      · cases h
      · split at h
        · cases h
        · rcases List.mem_cons.mp ht with rfl | ht
          · unfold TimeOfDay.seconds
            omega
          · exact ih h ht

/-- The extra times of a valid exception lie within a day. -/
theorem extraTimes_inDay {exception : CalendarException}
    (h : validateException exception = .ok ()) (htype : exception.type = .extra) {t : TimeOfDay}
    (ht : t ∈ exception.extraTimes) : 0 ≤ t.seconds ∧ t.seconds < 86400 := by
  unfold validateException at h
  split at h
  · cases h
  · simp only [htype] at h
    split at h
    · cases h
    · exact mem_validateExtraTimes h ht

section Landing

variable {exceptions : List CalendarException} {timezone : Location} {offset t x : Int}

theorem secondOfDay_inDay : 0 ≤ timezone.secondOfDay t ∧ timezone.secondOfDay t < 86400 := by
  unfold Location.secondOfDay
  omega

theorem nanos_inSecond : 0 ≤ t % second ∧ t % second < second := by
  simp only [second]
  omega

theorem rescheduledTime_of_dateOnly {target : Timestamp} (hdate : isDateOnly target.asTime = true) :
    rescheduledTime timezone target t =
      timezone.date (utc.dateOf target.asTime).year (utc.dateOf target.asTime).month
        (utc.dateOf target.asTime).day (timezone.secondOfDay t) (t % second) :=
  if_pos hdate

/-- The date of a target, read in UTC. -/
theorem dayNumber_utc (target : Timestamp) :
    dayNumber (utc.dateOf target.asTime).year (utc.dateOf target.asTime).month
      (utc.dateOf target.asTime).day = target.asTime / day := by
  rw [Location.dateOf, dayNumber_dateOfDay, Location.fixed_utc.civilDay_eq, zero_mul, add_zero]

theorem civilDay_rescheduledTime (h : timezone.Fixed offset) (target : Timestamp) (t : Int) :
    timezone.civilDay (rescheduledTime timezone target t) = landingDay offset target := by
  unfold landingDay
  split
  next hdate =>
    rw [rescheduledTime_of_dateOnly hdate, h.civilDay_date secondOfDay_inDay nanos_inSecond,
      dayNumber_utc]
  next hdate => rw [rescheduledTime, if_neg hdate, h.civilDay_eq]

/-- What a run becomes under an exception that applies to it: it stays on its date, with others, or
it is moved. -/
theorem civilDay_outcomes (h : timezone.Fixed offset) (hdated : DatedExceptions exceptions)
    {exception : CalendarException}
    (hon : exceptionOn exceptions timezone (timezone.dateOf t) = some exception)
    (hx : x ∈ outcomes exceptions timezone t) :
    (exception.type = .extra ∧ timezone.civilDay x = timezone.civilDay t) ∨
      (exception.type = .reschedule ∧ ∃ target, exception.rescheduleTo = some target ∧
        timezone.civilDay x = landingDay offset target) := by
  have hvalid := mem_validateExceptions hdated.valid (exceptionOn_some h hdated hon).1
  cases htype : exception.type with
  | skip => simp [outcomes, keptTime, extraTimes, hon, htype] at hx
  | unknown number =>
    unfold validateException at hvalid
    split at hvalid
    · cases hvalid
    · simp [htype] at hvalid
  | reschedule =>
    cases htarget : exception.rescheduleTo with
    | none => simp [outcomes, keptTime, extraTimes, hon, htype, htarget] at hx
    | some target =>
      simp only [outcomes, keptTime, extraTimes, hon, htype, htarget, reduceCtorEq, if_false,
        List.append_nil, List.mem_singleton] at hx
      subst hx
      exact .inr ⟨rfl, target, rfl, civilDay_rescheduledTime h target t⟩
  | extra =>
    refine .inl ⟨rfl, ?_⟩
    simp only [outcomes, keptTime, extraTimes, hon, htype, if_true, List.singleton_append,
      List.mem_cons] at hx
    rcases hx with rfl | hx
    · rfl
    · rw [Location.dateOf, atTimes_dateOfDay h] at hx
      exact civilDay_of_mem_instantsOn h (fun time => extraTimes_inDay hvalid htype) hx

/-- Where every exception falls on another date, none applies. -/
theorem exceptionOn_none (h : timezone.Fixed offset) (hdated : DatedExceptions exceptions)
    (hnone : ∀ exception ∈ exceptions, exception.dated + offset / 86400 ≠ timezone.civilDay t) :
    exceptionOn exceptions timezone (timezone.dateOf t) = none := by
  cases hon : exceptionOn exceptions timezone (timezone.dateOf t) with
  | none => rfl
  | some exception =>
    obtain ⟨hmem, hday⟩ := exceptionOn_some h hdated hon
    exact absurd hday (hnone exception hmem)

end Landing

section Fit

variable {exceptions : List CalendarException} {timezone : Location} {offset : Int}
  {times : List Int}

/-- What is kept in a timezone in which exceptions fall on their dates. -/
theorem ExceptionsKept.fit (h : timezone.Fixed offset) (hdated : DatedExceptions exceptions)
    (hkept : ExceptionsKept exceptions timezone times) :
    ExceptionsFit offset exceptions timezone times := by
  intro t ht
  split
  next hshift =>
    intro last hlast
    have hon : exceptionOn exceptions timezone (timezone.dateOf t) = some last := by
      rw [exceptionOn_eq h hdated, hshift]
      simpa using hlast
    refine ⟨?_, fun htype target htarget exception hmem hskip hday => ?_⟩
    · by_cases hskip : last.type = .skip
      · exact .inl hskip
      · refine .inr fun exception hmem hday => ?_
        obtain ⟨applied, happlied, hor⟩ := hkept.every t ht exception hmem hday
        obtain rfl : last = applied := Option.some.inj (hon.symm.trans happlied)
        exact (hor.resolve_right hskip).symm
    · -- the run is moved to a date with a SKIP
      have hmoved : rescheduledTime timezone target t ∈ outcomes exceptions timezone t := by
        simp [outcomes, keptTime, hon, htype, htarget]
      refine hkept.skipped _ (mem_applyExceptions.mpr ⟨t, ht, hmoved⟩) exception hmem hskip ?_
      rw [hday, civilDay_rescheduledTime h]
  next hshift =>
    -- an exception that applies falls on the date of the run, which is not its own
    have hnone : ∀ exception,
        exceptionOn exceptions timezone (timezone.dateOf t) ≠ some exception := by
      intro exception hon
      have hown := hkept.own t ht exception hon
      have hfalls := (exceptionOn_some h hdated hon).2
      omega
    intro exception hmem
    refine ⟨fun hday => ?_, fun hday => ?_⟩
    · obtain ⟨applied, happlied, -⟩ := hkept.every t ht exception hmem hday
      exact hnone applied happlied
    · obtain ⟨applied, happlied⟩ := exists_exceptionOn h hdated hmem hday
      exact hnone applied happlied

/-- Where exceptions fall on other dates than their own, none applies to a run. -/
theorem ExceptionsFit.kept_of_shift (h : timezone.Fixed offset)
    (hdated : DatedExceptions exceptions) (hshift : offset / 86400 ≠ 0)
    (hfit : ExceptionsFit offset exceptions timezone times) :
    ExceptionsKept exceptions timezone times := by
  have hfar : ∀ t ∈ times, ∀ exception ∈ exceptions, exception.dated ≠ timezone.civilDay t ∧
      exception.dated + offset / 86400 ≠ timezone.civilDay t := by
    intro t ht
    have hfit' := hfit t ht
    rwa [if_neg hshift] at hfit'
  have hnone : ∀ t ∈ times, exceptionOn exceptions timezone (timezone.dateOf t) = none :=
    fun t ht => exceptionOn_none h hdated fun exception hmem => (hfar t ht exception hmem).2
  refine ⟨fun t ht exception hon => ?_,
    fun t ht exception hmem hday => absurd hday (hfar t ht exception hmem).1,
    fun x hx exception hmem _ hday => ?_, fun t ht exception target hon _ _ _ => ?_⟩
  · rw [hnone t ht] at hon
    cases hon
  · -- no run is moved
    obtain ⟨t, ht, hx⟩ := mem_applyExceptions.mp hx
    rw [outcomes_of_none (hnone t ht), List.mem_singleton] at hx
    subst hx
    exact (hfar x ht exception hmem).1 hday
  · rw [hnone t ht] at hon
    cases hon

/-- Where exceptions fall on their dates, the last one listed for the day of a run decides. -/
theorem ExceptionsFit.kept_of_noShift (h : timezone.Fixed offset)
    (hdated : DatedExceptions exceptions) (hshift : offset / 86400 = 0)
    (hfit : ExceptionsFit offset exceptions timezone times) :
    ExceptionsKept exceptions timezone times := by
  have hlast : ∀ t ∈ times, ∀ last,
      exceptionOn exceptions timezone (timezone.dateOf t) = some last →
        (last.type = .skip ∨ ∀ exception ∈ exceptions,
          exception.dated = timezone.civilDay t → exception = last) ∧
        (last.type = .reschedule → ∀ target, last.rescheduleTo = some target →
          ∀ exception ∈ exceptions, exception.type = .skip →
            exception.dated ≠ landingDay offset target) := by
    intro t ht last hon
    have hnear := hfit t ht
    rw [if_pos hshift] at hnear
    refine hnear last ?_
    rw [exceptionOn_eq h hdated, hshift] at hon
    simpa using hon
  refine ⟨fun t ht exception hon => ?_, fun t ht exception hmem hday => ?_,
    fun x hx exception hmem hskip hday => ?_,
    fun t ht exception target hon htype htarget hdate => ?_⟩
  · have hfalls := (exceptionOn_some h hdated hon).2
    omega
  · obtain ⟨last, hon⟩ := exists_exceptionOn (t := t) h hdated hmem (by omega)
    refine ⟨last, hon, ?_⟩
    rcases (hlast t ht last hon).1 with hskip | honly
    · exact .inr hskip
    · exact .inl (honly exception hmem hday).symm
  · obtain ⟨t, ht, hx⟩ := mem_applyExceptions.mp hx
    cases hon : exceptionOn exceptions timezone (timezone.dateOf t) with
    | none =>
      -- the run stays, and a SKIP on its date would have applied
      rw [outcomes_of_none hon, List.mem_singleton] at hx
      subst hx
      obtain ⟨last, hsome⟩ := exists_exceptionOn (t := x) h hdated hmem (by omega)
      rw [hon] at hsome
      cases hsome
    | some last =>
      obtain ⟨honly, hlanding⟩ := hlast t ht last hon
      rcases civilDay_outcomes h hdated hon hx with
        ⟨hextra, hsame⟩ | ⟨htype, target, htarget, hland⟩
      · rcases honly with hlastSkip | honly
        · rw [hextra] at hlastSkip
          cases hlastSkip
        · rw [honly exception hmem (hday.trans hsame), hextra] at hskip
          cases hskip
      · exact hlanding htype target htarget exception hmem hskip (hday.trans hland)
  · refine ⟨rescheduledTime timezone target t, mem_applyExceptions.mpr ⟨t, ht, ?_⟩, ?_, ?_, ?_⟩
    · simp [outcomes, keptTime, hon, htype, htarget]
    · rw [civilDay_rescheduledTime h, landingDay, if_pos hdate]
    · rw [rescheduledTime_of_dateOnly hdate, h.secondOfDay_date secondOfDay_inDay nanos_inSecond]
    · rw [rescheduledTime_of_dateOnly hdate, h.date_eq]
      have hnanos := nanos_inSecond (t := t)
      simp only [day, hour, minute, second] at hnanos ⊢
      omega

theorem ExceptionsFit.kept (h : timezone.Fixed offset) (hdated : DatedExceptions exceptions)
    (hfit : ExceptionsFit offset exceptions timezone times) :
    ExceptionsKept exceptions timezone times := by
  by_cases hshift : offset / 86400 = 0
  · exact hfit.kept_of_noShift h hdated hshift
  · exact hfit.kept_of_shift h hdated hshift

end Fit

/-- A day without runs, and a run moved to another date. -/
def closedDays : List CalendarException :=
  [{ date := some ⟨100 * 86400, 0⟩, type := .skip },
    { date := some ⟨101 * 86400, 0⟩, type := .reschedule, rescheduleTo := some ⟨103 * 86400, 0⟩ }]

/-- A run moved to a date with a SKIP. -/
def movedToClosed : List CalendarException :=
  [{ date := some ⟨100 * 86400, 0⟩, type := .skip },
    { date := some ⟨101 * 86400, 0⟩, type := .reschedule, rescheduleTo := some ⟨100 * 86400, 0⟩ }]

end Nzovu.Calendar
