import Nzovu.Calendar.VisitedDates

/-!
# Walks through Local Dates

The evaluators that walk through the days step from one midnight UTC to the next and read the local
date off each. At midnight UTC the local date is that of the UTC day, or the day before when the
offset from UTC is negative.

- Section 1: the instants of a date.
- Section 2: what a walk finds.
- Section 3: offsets below a day.
-/

namespace Nzovu.Calendar

open Nzovu.Foundation
open Nzovu.Foundation.CivilTime

/-! ## Section 1: The instants of a date -/

/-- The instants of the date at the execution times. -/
def offersOn (timezone : Location) (rule : CalendarRule) (number : Int) : List Int :=
  atTimes timezone (dateOfDay number) rule.times

/-- The date has an instant after the start. -/
def HasLate (timezone : Location) (rule : CalendarRule) (start number : Int) : Prop :=
  ∃ u ∈ offersOn timezone rule number, start < u

/-- The first one that is listed. -/
def firstLate (timezone : Location) (rule : CalendarRule) (start number : Int) : Option Int :=
  (offersOn timezone rule number).find? fun t => start < t

section Dates

variable {timezone : Location} {rule : CalendarRule} {start number t : Int}

theorem firstLate_isSome (h : HasLate timezone rule start number) :
    ∃ t, firstLate timezone rule start number = some t := by
  obtain ⟨u, hu, hlate⟩ := h
  exact Option.isSome_iff_exists.mp (List.find?_isSome.mpr ⟨u, hu, by simpa using hlate⟩)

theorem mem_of_firstLate (h : firstLate timezone rule start number = some t) :
    t ∈ offersOn timezone rule number :=
  List.mem_of_find?_eq_some h

theorem hasLate_of_firstLate (h : firstLate timezone rule start number = some t) :
    HasLate timezone rule start number :=
  ⟨t, mem_of_firstLate h, by simpa using List.find?_some h⟩

theorem mem_offersOn :
    t ∈ offersOn timezone rule number ↔
      ∃ s ∈ rule.times, timezone.fromCivil (number * 86400 + s.seconds) * second = t := by
  simp only [offersOn, atTimes, List.mem_map, Location.date, dayNumber_dateOfDay, Int.add_zero]

end Dates

/-! ## Section 2: What a walk finds -/

/-- The local date at the `n`-th instant of the walk, as a civil day. -/
def visitedDay (timezone : Location) (start : Int) (n : Nat) : Int :=
  timezone.civilDay ((start / day + n) * day)

/-- The `n`-th day of the walk is the first that it takes and whose date has an instant after the
start. -/
structure FirstTaken (timezone : Location) (rule : CalendarRule) (start : Int) (takes : Int → Bool)
    (attempts n : Nat) : Prop where
  inWindow : n < attempts
  taken : takes ((start / day + n) * day) = true
  late : HasLate timezone rule start (visitedDay timezone start n)
  first : ∀ m < n, takes ((start / day + m) * day) = true →
    ¬ HasLate timezone rule start (visitedDay timezone start m)

section Walk

variable {ctx : EvaluationContext} {inlineCalendar : Option BusinessCalendar}
  {timezone : Location} {rule : CalendarRule} {start : Int} {takes : Int → Bool} {attempts : Nat}

theorem iterate_truncateDay (start : Int) (n : Nat) :
    (· + day)^[n] (truncateDay start) = (start / day + n) * day := by
  rw [iterate_day, truncateDay_eq, Int.add_mul]

/-- The walk gets past a day that it does not take, or whose date has no instant after the
start. -/
theorem passes_dayVisit {place : Int} :
    Passes start (fun date => atTimes timezone date rule.times)
        (.ok (if takes place then some (timezone.dateOf place) else none)) ↔
      (takes place = true → ¬ HasLate timezone rule start (timezone.civilDay place)) := by
  by_cases htakes : takes place = true
  · rw [if_pos htakes]
    constructor
    · rintro ⟨found, heq, hle⟩ - ⟨u, hu, hlate⟩
      cases heq
      have hearly : u ≤ start := hle _ rfl u hu
      omega
    · intro hnone
      refine passes_some (List.find?_eq_none.mpr fun u hu hlate => ?_)
      exact hnone htakes ⟨u, hu, by simpa using hlate⟩
  · rw [if_neg htakes]
    exact ⟨fun _ htakes' => absurd htakes' htakes, fun _ => passes_none⟩

/-- **What a walk finds**: the first instant after the start on the first day that it takes and
that has one. -/
theorem findNextExecution_eq_ok_iff
    (hvisits : visits ctx inlineCalendar timezone start rule.rule =
      (List.iterate (· + day) (truncateDay start) attempts).map fun currentDate =>
        .ok (if takes currentDate then some (timezone.dateOf currentDate) else none)) {t : Int} :
    findNextExecution ctx inlineCalendar rule timezone start = .ok t ↔
      ∃ n, FirstTaken timezone rule start takes attempts n ∧
        firstLate timezone rule start (visitedDay timezone start n) = some t := by
  have hresult : ∀ result : Result (Option Int),
      searchResult (searchDetails rule.rule) result = .ok t ↔ result = .ok (some t) := by
    intro result
    exact ⟨searchResult_ok, fun heq => by rw [heq, searchResult_some]⟩
  rw [findNextExecution_eq_firstRun, hresult, hvisits, firstRun_iterate_eq_some]
  simp only [iterate_truncateDay, passes_dayVisit]
  constructor
  · rintro ⟨n, hn, date, hvisit, hfind, hbefore⟩
    -- a day that is not taken finds nothing
    by_cases htakes : takes ((start / day + n) * day) = true
    · rw [if_pos htakes] at hvisit
      cases hvisit
      exact ⟨n, ⟨hn, htakes, hasLate_of_firstLate hfind, hbefore⟩, hfind⟩
    · rw [if_neg htakes] at hvisit
      cases hvisit
  · rintro ⟨n, ⟨hn, htakes, -, hbefore⟩, hfind⟩
    refine ⟨n, hn, _, ?_, hfind, hbefore⟩
    rw [if_pos htakes]
    rfl

/-- There is a first such day if there is any. -/
theorem exists_firstTaken {n : Nat} (hn : n < attempts)
    (htakes : takes ((start / day + n) * day) = true)
    (hlate : HasLate timezone rule start (visitedDay timezone start n)) :
    ∃ m ≤ n, FirstTaken timezone rule start takes attempts m := by
  have hsome : ∃ n : Nat, takes ((start / day + n) * day) = true ∧
      HasLate timezone rule start (visitedDay timezone start n) := ⟨n, htakes, hlate⟩
  classical
  obtain ⟨htakes', hlate'⟩ := Nat.find_spec hsome
  have hle : Nat.find hsome ≤ n := Nat.find_min' hsome ⟨htakes, hlate⟩
  exact ⟨Nat.find hsome, hle, by omega, htakes', hlate', fun m hm htakes'' hlate'' =>
    Nat.find_min hsome hm ⟨htakes'', hlate''⟩⟩

end Walk

/-! ## Section 3: Offsets below a day -/

/-- The offset from UTC is always less than a day. -/
def WithinDay (timezone : Location) : Prop :=
  ∀ t, -86400 < timezone.offsetAt t ∧ timezone.offsetAt t < 86400

section WithinDay

variable {timezone : Location} {rule : CalendarRule} {start : Int} (hbound : WithinDay timezone)
include hbound

theorem visitedDay_eq (n : Nat) :
    visitedDay timezone start n =
      if 0 ≤ timezone.offsetAt ((start / day + n) * 86400) then start / day + n
      else start / day + n - 1 := by
  -- at midnight the local date is a day behind where the offset is negative
  have hunix : unix ((start / day + n) * day) = (start / day + n) * 86400 := by
    simp only [unix, day, hour, minute, second]
    omega
  have hrange := hbound ((start / day + n) * 86400)
  rw [visitedDay, Location.civilDay, Location.civilSeconds, hunix]
  split <;> omega

/-- The walk never goes back. -/
theorem visitedDay_mono {m n : Nat} (h : m ≤ n) :
    visitedDay timezone start m ≤ visitedDay timezone start n := by
  rcases Nat.lt_or_eq_of_le h with hlt | rfl
  · rw [visitedDay_eq hbound, visitedDay_eq hbound]
    -- the next midnight makes up for a day that is behind
    split <;> split <;> omega
  · exact Int.le_refl _

/-- The instant of a time of day is less than a day away from where it would be in UTC. -/
theorem fromCivil_range (civil : Int) :
    civil - 86400 < timezone.fromCivil civil ∧ timezone.fromCivil civil < civil + 86400 := by
  unfold Location.fromCivil
  split
  · omega
  · have hrange := hbound (civil - timezone.offsetAt civil)
    omega

/-- Dates some days later have instants after the start. -/
theorem hasLate_of_le (htimes : ∀ s ∈ rule.times, 0 ≤ s.seconds ∧ s.seconds < 86400)
    {number : Int} (hle : start / day + 3 ≤ number) : HasLate timezone rule start number := by
  -- any execution time will do
  obtain ⟨s, hs⟩ := List.exists_mem_of_ne_nil rule.times (rule.timesOr_ne_nil _)
  refine ⟨_, mem_offersOn.mpr ⟨s, hs, rfl⟩, ?_⟩
  have hrange := fromCivil_range hbound (number * 86400 + s.seconds)
  have hseconds := htimes s hs
  simp only [day, hour, minute, second] at hle ⊢
  omega

/-- Dates some days before have none. -/
theorem HasLate.lt_number (htimes : ∀ s ∈ rule.times, 0 ≤ s.seconds ∧ s.seconds < 86400)
    {number : Int} (h : HasLate timezone rule start number) : start / day - 3 < number := by
  obtain ⟨u, hu, hlate⟩ := h
  obtain ⟨s, hs, rfl⟩ := mem_offersOn.mp hu
  have hrange := fromCivil_range hbound (number * 86400 + s.seconds)
  have hseconds := htimes s hs
  simp only [day, hour, minute, second] at hlate ⊢
  omega

end WithinDay

end Nzovu.Calendar
