import Nzovu.Calendar.Evaluators
import Nzovu.Foundation.FixedOffset

/-!
# What a Search Finds

The evaluators walk through days, months or years. What such a walk finds is the first candidate
after its start, and it finds one as soon as a place within its reach offers one.
-/

namespace Nzovu.Calendar

open Nzovu.Foundation
open Nzovu.Foundation.CivilTime

section Search

variable {σ : Type} {start t : Int} {candidates : σ → List Int} {advance : σ → σ}
  {attempts : Nat} {place : σ}

/-- The result of a search is the first candidate after the start of the first place that has
one. -/
theorem search_eq_some :
    search start (fun p => .ok (candidates p)) advance attempts place = .ok (some t) ↔
      ∃ n < attempts, ((candidates (advance^[n] place)).find? fun u => start < u) = some t ∧
        ∀ m < n, ∀ u ∈ candidates (advance^[m] place), u ≤ start := by
  induction attempts generalizing place with
  | zero => simp [search]
  | succ attempts ih =>
    simp only [search]
    cases hfind : (candidates place).find? fun u => start < u with
    | some u =>
      simp only [Except.ok.injEq, Option.some.injEq]
      constructor
      · rintro rfl
        exact ⟨0, Nat.succ_pos _, hfind, fun m hm => absurd hm (Nat.not_lt_zero m)⟩
      · rintro ⟨n, -, hfound, hbefore⟩
        cases n with
        | zero => exact Option.some.inj (hfind.symm.trans hfound)
        | succ n =>
          -- The first place offers a later candidate, so no later place is meant.
          have hle := hbefore 0 (Nat.succ_pos n) u (List.mem_of_find?_eq_some hfind)
          have hlt : start < u := by simpa using List.find?_some hfind
          omega
    | none =>
      have hplace : ∀ u ∈ candidates place, u ≤ start := by simpa using hfind
      simp only [ih]
      constructor
      · rintro ⟨n, hn, hfound, hbefore⟩
        refine ⟨n + 1, Nat.succ_lt_succ hn, hfound, fun m hm => ?_⟩
        cases m with
        | zero => exact hplace
        | succ m => exact hbefore m (Nat.lt_of_succ_lt_succ hm)
      · rintro ⟨n, hn, hfound, hbefore⟩
        cases n with
        | zero => cases hfind.symm.trans hfound
        | succ n =>
          exact ⟨n, Nat.lt_of_succ_lt_succ hn, hfound, fun m hm =>
            hbefore (m + 1) (Nat.succ_lt_succ hm)⟩

/-- What a search finds is offered by a place it visits, and lies after its start. -/
theorem mem_of_search
    (h : search start (fun p => .ok (candidates p)) advance attempts place = .ok (some t)) :
    ∃ n < attempts, t ∈ candidates (advance^[n] place) ∧ start < t := by
  obtain ⟨n, hn, hfound, -⟩ := search_eq_some.mp h
  exact ⟨n, hn, List.mem_of_find?_eq_some hfound, by simpa using List.find?_some hfound⟩

/-- A search gets no further than a place that offers a later candidate. -/
theorem search_finds {n : Nat} {x : Int} (hn : n < attempts)
    (hx : x ∈ candidates (advance^[n] place)) (hlt : start < x) :
    ∃ t m, m ≤ n ∧ t ∈ candidates (advance^[m] place) ∧
      search start (fun p => .ok (candidates p)) advance attempts place = .ok (some t) := by
  have hnext : ∃ m, ∃ u ∈ candidates (advance^[m] place), start < u := ⟨n, x, hx, hlt⟩
  classical
  -- The first place that offers a later candidate is the one the search stops at.
  obtain ⟨u, hu, hafter⟩ := Nat.find_spec hnext
  have hle : Nat.find hnext ≤ n := Nat.find_min' hnext ⟨x, hx, hlt⟩
  obtain ⟨t, hfound⟩ : ∃ t, ((candidates (advance^[Nat.find hnext] place)).find? fun u =>
      start < u) = some t :=
    Option.isSome_iff_exists.mp (List.find?_isSome.mpr ⟨u, hu, by simpa using hafter⟩)
  refine ⟨t, Nat.find hnext, hle, List.mem_of_find?_eq_some hfound, ?_⟩
  refine search_eq_some.mpr ⟨_, Nat.lt_of_le_of_lt hle hn, hfound, fun m hm u hu => ?_⟩
  by_contra hnot
  exact Nat.find_min hnext hm ⟨u, hu, by omega⟩

@[simp] theorem searchResult_some (details : String) (t : Int) :
    searchResult details (.ok (some t)) = .ok t := rfl

end Search

/-- The walk through the days. -/
theorem iterate_day (t : Int) (n : Nat) : (· + day)^[n] t = t + n * day := by
  induction n generalizing t with
  | zero => simp
  | succ n ih =>
    rw [Function.iterate_succ_apply, ih, Int.natCast_succ]
    ring

/-- The first day of a kind. -/
theorem exists_first {p : Int → Prop} {first number : Int} (hle : first ≤ number)
    (hnumber : p number) :
    ∃ m, first ≤ m ∧ m ≤ number ∧ p m ∧ ∀ j, first ≤ j → j < m → ¬ p j := by
  classical
  obtain ⟨n, rfl⟩ := Int.le.dest hle
  have hsome : ∃ n : Nat, p (first + n) := ⟨n, hnumber⟩
  refine ⟨first + Nat.find hsome, by omega, ?_, Nat.find_spec hsome, fun j hj hlt => ?_⟩
  · have hmin := Nat.find_min' hsome hnumber
    omega
  · obtain ⟨k, rfl⟩ := Int.le.dest hj
    exact Nat.find_min hsome (by omega)

/-! ## Execution times -/

theorem mem_validateExecutionTimes {times : List TimeOfDay}
    (h : validateExecutionTimes times = .ok ()) {t : TimeOfDay} (ht : t ∈ times) :
    0 ≤ t.seconds ∧ t.seconds < 86400 := by
  induction times with
  | nil => cases ht
  | cons first rest ih =>
    simp only [validateExecutionTimes] at h
    split at h
    · cases h
    · split at h
      · cases h
      · split at h
        · cases h
        · rcases List.mem_cons.mp ht with rfl | ht
          · unfold TimeOfDay.seconds
            omega
          · exact ih h ht

/-- The execution times of a valid rule lie within a day. -/
theorem CalendarRule.mem_timesOr {rule : CalendarRule} {default t : TimeOfDay}
    (h : validateExecutionTimes rule.executionTimes = .ok ())
    (hdefault : 0 ≤ default.seconds ∧ default.seconds < 86400) (ht : t ∈ rule.timesOr default) :
    0 ≤ t.seconds ∧ t.seconds < 86400 := by
  unfold CalendarRule.timesOr at ht
  split at ht
  · obtain rfl := List.mem_singleton.mp ht
    exact hdefault
  · exact mem_validateExecutionTimes h ht

theorem CalendarRule.timesOr_ne_nil (rule : CalendarRule) (default : TimeOfDay) :
    rule.timesOr default ≠ [] := by
  unfold CalendarRule.timesOr
  split
  · exact List.cons_ne_nil _ _
  · assumption

/-! ## The instants of a civil day -/

/-- The instants at the execution times of a civil day. -/
def instantsOn (offset : Int) (executionTimes : List TimeOfDay) (number : Int) : List Int :=
  executionTimes.map fun t => number * day + (t.seconds - offset) * second

/-- In a zone with a fixed offset, a date offers the instants of its civil day. -/
theorem atTimes_eq_instantsOn {timezone : Location} {offset : Int} (h : timezone.Fixed offset)
    (year month d : Int) (executionTimes : List TimeOfDay) :
    atTimes timezone ⟨year, month, d⟩ executionTimes =
      instantsOn offset executionTimes (dayNumber year month d) := by
  simp only [atTimes, instantsOn, h.date_eq, Int.add_zero]

theorem atTimes_dateOfDay {timezone : Location} {offset : Int} (h : timezone.Fixed offset)
    (number : Int) (executionTimes : List TimeOfDay) :
    atTimes timezone (dateOfDay number) executionTimes =
      instantsOn offset executionTimes number := by
  have hdate := atTimes_eq_instantsOn h (dateOfDay number).year (dateOfDay number).month
    (dateOfDay number).day executionTimes
  rwa [dayNumber_dateOfDay] at hdate

/-- The instants of a civil day lie in it. -/
theorem civilDay_of_mem_instantsOn {timezone : Location} {offset : Int} (h : timezone.Fixed offset)
    {executionTimes : List TimeOfDay} {number t : Int}
    (hvalid : ∀ time ∈ executionTimes, 0 ≤ time.seconds ∧ time.seconds < 86400)
    (ht : t ∈ instantsOn offset executionTimes number) : timezone.civilDay t = number := by
  obtain ⟨time, htime, rfl⟩ := List.mem_map.mp ht
  have hrange := hvalid time htime
  rw [h.civilDay_eq]
  simp only [day, hour, minute, second]
  omega

/-! ## Walking through the days -/

/-- The first civil day of a walk through the days: that of the UTC day of its start. -/
def firstDay (offset start : Int) : Int := start / day + offset / 86400

/-- The civil day has an execution time after the start. -/
def Late (offset : Int) (executionTimes : List TimeOfDay) (start number : Int) : Prop :=
  ∃ u ∈ instantsOn offset executionTimes number, start < u

/-- What one day offers to a walk that takes some of the days: the execution times of its date. -/
def dayOffers (timezone : Location) (takes : Int → Bool) (executionTimes : List TimeOfDay)
    (date : Int) : List Int :=
  if takes date then atTimes timezone (timezone.dateOf date) executionTimes else []

section DayWalk

variable {timezone : Location} {offset : Int} (h : timezone.Fixed offset) {takes : Int → Bool}
  {executionTimes : List TimeOfDay} {attempts : Nat} {s t : Int}

theorem truncateDay_eq (t : Int) : truncateDay t = t / day * day := by
  simp only [truncateDay, day, hour, minute, second]
  omega

include h

/-- The civil day at midnight of a UTC day. -/
theorem civilDay_midnight (n : Int) : timezone.civilDay (n * day) = n + offset / 86400 := by
  rw [h.civilDay_eq]
  simp only [day, hour, minute, second]
  omega

/-- What the walk is offered on its `n`-th day. -/
theorem mem_dayOffers_iterate {u : Int} {n : Nat} :
    u ∈ dayOffers timezone takes executionTimes ((· + day)^[n] (truncateDay s)) ↔
      takes ((s / day + n) * day) = true ∧
        u ∈ instantsOn offset executionTimes (firstDay offset s + n) := by
  have hplace : (· + day)^[n] (truncateDay s) = (s / day + n) * day := by
    rw [iterate_day, truncateDay_eq, Int.add_mul]
  have hnumber : s / day + n + offset / 86400 = firstDay offset s + n := by
    unfold firstDay
    omega
  rw [hplace, dayOffers, List.mem_ite_nil_right, Location.dateOf, civilDay_midnight h, hnumber,
    atTimes_dateOfDay h]

/-- The walk finds an execution time of the first day it takes that has one after the start. -/
theorem dayWalk_found (hsearch : search s
    (fun date => .ok (dayOffers timezone takes executionTimes date)) (· + day) attempts
      (truncateDay s) = .ok (some t)) :
    ∃ n < attempts, takes ((s / day + n) * day) = true ∧
      t ∈ instantsOn offset executionTimes (firstDay offset s + n) ∧ s < t ∧
      ∀ m < n, takes ((s / day + m) * day) = true →
        ¬ Late offset executionTimes s (firstDay offset s + m) := by
  obtain ⟨n, hn, hfind, hbefore⟩ := search_eq_some.mp hsearch
  obtain ⟨htakes, ht⟩ := (mem_dayOffers_iterate h).mp (List.mem_of_find?_eq_some hfind)
  refine ⟨n, hn, htakes, ht, by simpa using List.find?_some hfind, fun m hm hearlier => ?_⟩
  rintro ⟨u, hu, hlate⟩
  have hle := hbefore m hm u ((mem_dayOffers_iterate h).mpr ⟨hearlier, hu⟩)
  omega

/-- The walk gets no further than a day it takes that has an execution time after the start. -/
theorem dayWalk_finds {n : Nat} (hn : n < attempts) (htakes : takes ((s / day + n) * day) = true)
    (hlate : Late offset executionTimes s (firstDay offset s + n)) :
    ∃ t m, m ≤ n ∧ t ∈ instantsOn offset executionTimes (firstDay offset s + m) ∧
      search s (fun date => .ok (dayOffers timezone takes executionTimes date)) (· + day) attempts
        (truncateDay s) = .ok (some t) := by
  obtain ⟨u, hu, hsu⟩ := hlate
  obtain ⟨t, m, hm, ht, hsearch⟩ :=
    search_finds hn ((mem_dayOffers_iterate h).mpr ⟨htakes, hu⟩) hsu
  exact ⟨t, m, hm, ((mem_dayOffers_iterate h).mp ht).2, hsearch⟩

/-- It finds an execution time of that day when the days before that it takes have none. -/
theorem dayWalk_finds_first
    (hvalid : ∀ time ∈ executionTimes, 0 ≤ time.seconds ∧ time.seconds < 86400) {n : Nat}
    (hn : n < attempts) (htakes : takes ((s / day + n) * day) = true)
    (hlate : Late offset executionTimes s (firstDay offset s + n))
    (hbefore : ∀ m < n, takes ((s / day + m) * day) = true →
      ¬ Late offset executionTimes s (firstDay offset s + m)) :
    ∃ t, timezone.civilDay t = firstDay offset s + n ∧
      search s (fun date => .ok (dayOffers timezone takes executionTimes date)) (· + day) attempts
        (truncateDay s) = .ok (some t) := by
  obtain ⟨t, m, hm, ht, hsearch⟩ := dayWalk_finds h hn htakes hlate
  obtain ⟨j, -, hj, ht', hsu, -⟩ := dayWalk_found h hsearch
  have hday := civilDay_of_mem_instantsOn h hvalid ht
  have hday' := civilDay_of_mem_instantsOn h hvalid ht'
  refine ⟨t, ?_, hsearch⟩
  rcases Nat.lt_or_eq_of_le (show j ≤ n by omega) with hlt | rfl
  · exact absurd ⟨t, ht', hsu⟩ (hbefore j hlt hj)
  · exact hday'

/-- Execution times later than an instant are on its civil day or on later ones. -/
theorem Late.le {number : Int}
    (hvalid : ∀ time ∈ executionTimes, 0 ≤ time.seconds ∧ time.seconds < 86400)
    (hlate : Late offset executionTimes s number) : timezone.civilDay s ≤ number := by
  obtain ⟨u, hu, hsu⟩ := hlate
  rw [← civilDay_of_mem_instantsOn h hvalid hu]
  exact h.civilDay_mono (Int.le_of_lt hsu)

omit h in
theorem Late.mono {m number : Int} (hlate : Late offset executionTimes s m) (hle : m ≤ number) :
    Late offset executionTimes s number := by
  obtain ⟨u, hu, hsu⟩ := hlate
  obtain ⟨time, htime, rfl⟩ := List.mem_map.mp hu
  refine ⟨_, List.mem_map_of_mem htime, ?_⟩
  simp only [day, hour, minute, second] at hsu ⊢
  omega

/-- All execution times of a later civil day are later. -/
theorem late_of_lt {number : Int} (hne : executionTimes ≠ [])
    (hvalid : ∀ time ∈ executionTimes, 0 ≤ time.seconds ∧ time.seconds < 86400)
    (hlt : timezone.civilDay s < number) : Late offset executionTimes s number := by
  obtain ⟨time, rest, rfl⟩ := List.exists_cons_of_ne_nil hne
  have hmem : number * day + (time.seconds - offset) * second ∈
      instantsOn offset (time :: rest) number := List.mem_cons_self
  refine ⟨_, hmem, ?_⟩
  have hday := civilDay_of_mem_instantsOn h hvalid hmem
  by_contra hle
  have hmono := h.civilDay_mono (Int.not_lt.mp hle)
  omega

end DayWalk

end Nzovu.Calendar
