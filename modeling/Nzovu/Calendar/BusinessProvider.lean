import Nzovu.Calendar.BusinessDayTests
import Nzovu.Foundation.Hours
import Nzovu.Foundation.Stepping

/-!
# Arithmetic with Business Days

Translation of `AddBusinessDays`, `GetNextBusinessDay` and `GetPreviousBusinessDay` of
`MemoryBusinessCalendarProvider` (`pkg/calendar/business_calendar_provider.go`). All three go from
one day to the next; the first gives up beyond 2000 days from its start, the others after a year.

- Section 1: the three operations.
- Section 2: what the loops find.
- Section 3: the operations add up.
-/

namespace Nzovu.Calendar

open Nzovu.Foundation
open Nzovu.Foundation.CivilTime

/-! ## Section 1: The operations -/

/-- `t.AddDate(0, 0, days)` for an instant in the location. -/
def addDays (timezone : Location) (t days : Int) : Int :=
  let date := timezone.dateOf t
  timezone.date date.year date.month (date.day + days) (timezone.secondOfDay t) (t % second)

/-- Why an operation fails. -/
inductive ProviderError where
  | calendar (err : CalendarError)
  | exceededRange (days start : Int)
  | noBusinessDayAfter (start : Int)
  | noBusinessDayBefore (start : Int)
  /-- The fuel of the model is used up. -/
  | loops
deriving DecidableEq

namespace MemoryBusinessCalendarProvider

variable (provider : MemoryBusinessCalendarProvider) (timezone : Location) (calendarId : String)

/-- The loop of `AddBusinessDays`, with `left` business days still to count. -/
def countDays (start days direction : Int) : Nat → Nat → Int → Except ProviderError Int
  | _, 0, current => .ok current
  | 0, _ + 1, _ => .error .loops
  | fuel + 1, left + 1, current =>
    let current := addDays timezone current direction
    match provider.isBusinessDay timezone calendarId current with
    | .error err => .error (.calendar err)
    | .ok isBusinessDay =>
      -- the day is counted before the range is checked
      if 2000 < |periods (sub current start) 24| then .error (.exceededRange days start)
      else countDays start days direction fuel (if isBusinessDay then left else left + 1) current

/-- More iterations than it takes to leave the range. -/
def maxIterations : Nat := 4000

/-- `AddBusinessDays`. -/
def addBusinessDays (start days : Int) : Except ProviderError Int :=
  if days = 0 then .ok start
  else
    provider.countDays timezone calendarId start days (if days < 0 then -1 else 1) maxIterations
      days.natAbs start

/-- The loop of `GetNextBusinessDay` and `GetPreviousBusinessDay`: so many days are looked at. -/
def searchDay (failed : ProviderError) (direction : Int) : Nat → Int → Except ProviderError Int
  | 0, _ => .error failed
  | days + 1, current =>
    match provider.isBusinessDay timezone calendarId current with
    | .error err => .error (.calendar err)
    | .ok true => .ok current
    | .ok false => searchDay failed direction days (addDays timezone current direction)

/-- `GetNextBusinessDay`. -/
def getNextBusinessDay (start : Int) : Except ProviderError Int :=
  provider.searchDay timezone calendarId (.noBusinessDayAfter start) 1 365
    (addDays timezone start 1)

/-- `GetPreviousBusinessDay`. -/
def getPreviousBusinessDay (start : Int) : Except ProviderError Int :=
  provider.searchDay timezone calendarId (.noBusinessDayBefore start) (-1) 365
    (addDays timezone start (-1))

end MemoryBusinessCalendarProvider

/-! ## Section 2: What the loops find -/

theorem addDays_eq {timezone : Location} {offset : Int} (h : timezone.Fixed offset)
    (t days : Int) : addDays timezone t days = t + days * day := by
  have hday : dayNumber (timezone.dateOf t).year (timezone.dateOf t).month
      ((timezone.dateOf t).day + days) = timezone.civilDay t + days := by
    have hdate := dayNumber_dateOfDay (timezone.civilDay t)
    rw [dayNumber_eq] at hdate ⊢
    rw [Location.dateOf]
    omega
  rw [addDays, h.date_eq, hday, h.civilDay_eq, Location.secondOfDay, Location.civilSeconds, h _]
  simp only [unix, day, hour, minute, second]
  omega

/-- A whole number of days within the range is measured exactly. -/
theorem abs_periods {direction start : Int} (hdirection : direction = 1 ∨ direction = -1)
    {j : Nat} (hj : j ≤ 2001) :
    |periods (sub (start + direction * j * day) start) 24| = j := by
  have habs : |direction * (j : Int)| = j := by
    rcases hdirection with rfl | rfl
    · rw [one_mul, Nat.abs_cast]
    · rw [neg_one_mul, abs_neg, Nat.abs_cast]
  have hdifference : sub (start + direction * j * day) start = direction * j * day := by
    rw [sub_eq] <;> rw [add_sub_cancel_left]
    rw [abs_mul, habs, abs_of_pos (by decide : (0 : Int) < day)]
    simp only [day, hour, minute, second]
    omega
  have hsmall : |((direction * j : Int) : ℚ)| < 2 ^ 40 := by
    rw [← Int.cast_abs, habs]
    have hle : ((j : Int) : ℚ) ≤ 2001 := by exact_mod_cast hj
    norm_num at hle ⊢
    linarith
  rw [hdifference, periods_whole hsmall, habs]

/-- A calendar of the provider, and a zone with a fixed offset. Days are numbered from `start`. -/
structure Counting (provider : MemoryBusinessCalendarProvider) (timezone : Location)
    (offset : Int) (calendarId : String) (calendar : BusinessCalendar) : Prop where
  fixed : timezone.Fixed offset
  found : provider.getBusinessCalendar calendarId = .ok calendar

namespace Counting

open MemoryBusinessCalendarProvider

variable {provider : MemoryBusinessCalendarProvider} {timezone : Location} {offset : Int}
  {calendarId : String} {calendar : BusinessCalendar}
  (h : Counting provider timezone offset calendarId calendar) {start : Int}

/-- The day so many days from the start is a business day. -/
def Open (timezone : Location) (calendar : BusinessCalendar) (start n : Int) : Prop :=
  isBusinessDayOf timezone calendar (start + n * day) = true

instance : DecidablePred (Open timezone calendar start) := fun n =>
  inferInstanceAs (Decidable (isBusinessDayOf timezone calendar (start + n * day) = true))

include h

theorem isBusinessDay_eq (date : Int) : provider.isBusinessDay timezone calendarId date =
    .ok (isBusinessDayOf timezone calendar date) := by
  rw [MemoryBusinessCalendarProvider.isBusinessDay, h.found]

/-- The loop ends on the day so many business days further, in its direction, if it gets there. -/
theorem countDays_eq_ok {direction : Int} (hdirection : direction = 1 ∨ direction = -1)
    {days t : Int} {fuel left j : Nat} (hj : j ≤ 2000) (hfuel : 2000 < fuel + j) :
    provider.countDays timezone calendarId start days direction fuel left
        (start + direction * j * day) = .ok t ↔
      ∃ n : Int, Steps (fun i => Open timezone calendar start (direction * i)) left j n ∧
        n ≤ 2000 ∧ t = start + direction * n * day := by
  induction fuel generalizing left j with
  | zero => omega
  | succ fuel ih =>
    cases left with
    | zero =>
      rw [countDays]
      constructor
      · intro hok
        cases hok
        exact ⟨j, .stay _, by omega, rfl⟩
      · rintro ⟨n, hsteps, -, rfl⟩
        cases hsteps
        rfl
    | succ left =>
      have hplace : start + direction * j * day + direction * day =
          start + direction * (j + 1 : Nat) * day := by
        push_cast
        ring
      have hperiods : |periods (sub (start + direction * (j + 1 : Nat) * day) start) 24| =
          (j + 1 : Nat) := abs_periods hdirection (by omega)
      rw [countDays]
      simp only [addDays_eq h.fixed, hplace, h.isBusinessDay_eq, hperiods]
      by_cases hrange : j + 1 ≤ 2000
      · rw [if_neg (by omega), ih hrange (by omega)]
        refine exists_congr fun n => and_congr_left' ?_
        rw [Nat.cast_succ]
        cases hopen : isBusinessDayOf timezone calendar (start + direction * (j + 1) * day) with
        | true => exact (steps_of_mem hopen).symm
        | false => exact (steps_of_notMem fun hmem => by cases hopen.symm.trans hmem).symm
      · -- it is out of range, and so is every business day further
        rw [if_pos (by omega)]
        refine iff_of_false (by simp) ?_
        rintro ⟨n, hsteps, hle, -⟩
        have hlt := hsteps.lt (by omega)
        omega

/-- The search ends on the next business day in its direction, if it is near enough. -/
theorem searchDay_eq_ok (failed : ProviderError) (direction : Int) {t : Int} {days : Nat}
    (j : Nat) :
    provider.searchDay timezone calendarId failed direction days
        (start + direction * (j + 1 : Nat) * day) = .ok t ↔
      ∃ n : Int, Steps (fun i => Open timezone calendar start (direction * i)) 1 j n ∧
        n ≤ j + days ∧ t = start + direction * n * day := by
  induction days generalizing j with
  | zero =>
    refine iff_of_false (by simp [searchDay]) ?_
    rintro ⟨n, hsteps, hle, -⟩
    have hlt := hsteps.lt Nat.one_pos
    omega
  | succ days ih =>
    rw [searchDay, h.isBusinessDay_eq]
    cases hopen : isBusinessDayOf timezone calendar
        (start + direction * (j + 1 : Nat) * day) with
    | true =>
      rw [Nat.cast_succ] at hopen
      simp only [Except.ok.injEq]
      constructor
      · rintro rfl
        exact ⟨j + 1, (steps_of_mem hopen).mpr (.stay _), by omega, by rw [Nat.cast_succ]⟩
      · rintro ⟨n, hsteps, -, rfl⟩
        rw [((steps_of_mem hopen).mp hsteps).unique (.stay _), Nat.cast_succ]
    | false =>
      rw [Nat.cast_succ] at hopen
      have hplace : start + direction * (j + 1 : Nat) * day + direction * day =
          start + direction * (j + 1 + 1 : Nat) * day := by
        push_cast
        ring
      simp only [addDays_eq h.fixed, hplace, ih]
      refine exists_congr fun n => ?_
      have hpassed : Steps (fun i => Open timezone calendar start (direction * i)) (0 + 1) j n ↔
          Steps (fun i => Open timezone calendar start (direction * i)) (0 + 1) (j + 1) n :=
        steps_of_notMem fun hmem => by cases hopen.symm.trans hmem
      rw [Nat.cast_succ, ← hpassed]
      refine and_congr_right fun _ => and_congr_left fun _ => ?_
      omega

end Counting

/-! ## Section 3: The operations add up -/

namespace Counting

open MemoryBusinessCalendarProvider

variable {provider : MemoryBusinessCalendarProvider} {timezone : Location} {offset : Int}
  {calendarId : String} {calendar : BusinessCalendar}
  (h : Counting provider timezone offset calendarId calendar) {origin m k t : Int}

/-- The days a loop counts from a business day, in either direction, as shifts. -/
theorem shifted_iff {left : Nat} {n direction : Int} (hk : k = direction * left)
    (hdirection : direction = 1 ∨ direction = -1) (hleft : 0 < left)
    (hm : Open timezone calendar origin m) :
    Steps (fun i => Open timezone calendar (origin + m * day) (direction * i)) left 0 n ↔
      Shifted (Open timezone calendar origin) k m (m + direction * n) := by
  have hopen : ∀ i, Open timezone calendar (origin + m * day) i ↔
      Open timezone calendar origin (m + i) := by
    intro i
    rw [Open, Open, Int.add_mul, Int.add_assoc]
  rcases hdirection with rfl | rfl
  · simp only [one_mul, hopen] at hk ⊢
    rw [steps_add (p := Open timezone calendar origin) m, Int.add_zero]
    constructor
    · exact fun hsteps => ⟨hm, hsteps.mem hm, by rwa [if_pos (by omega), hk, Int.toNat_natCast]⟩
    · rintro ⟨-, -, hsteps⟩
      rwa [if_pos (by omega), hk, Int.toNat_natCast] at hsteps
  · -- in the mirror image
    simp only [neg_one_mul, hopen] at hk ⊢
    have hmirror : ∀ i : Int, Open timezone calendar origin (m + -i) ↔
        (fun j => Open timezone calendar origin (-j)) (-m + i) := by
      intro i
      simp only
      rw [Int.neg_add, Int.neg_neg]
    simp only [hmirror]
    rw [steps_add (p := fun j => Open timezone calendar origin (-j)) (-m), Int.add_zero]
    have hneg : ¬ 0 ≤ k := by omega
    have hcount : (-k).toNat = left := by omega
    constructor
    · intro hsteps
      have htarget := hsteps.mem (by simpa using hm)
      have hback := hsteps.mirror (by simpa using hm)
      simp only [Int.neg_neg, Int.neg_add] at hback htarget
      exact ⟨hm, htarget, by rwa [if_neg hneg, hcount]⟩
    · rintro ⟨-, htarget, hsteps⟩
      rw [if_neg hneg, hcount] at hsteps
      have hback := hsteps.mirror htarget
      rwa [Int.neg_add, Int.neg_neg] at hback

/-- Where a loop ends, in numbers of days from the origin. -/
theorem exists_shifted_iff {left : Nat} {direction limit : Int} (hk : k = direction * left)
    (hdirection : direction = 1 ∨ direction = -1) (hleft : 0 < left)
    (hm : Open timezone calendar origin m) :
    (∃ n, Steps (fun i => Open timezone calendar (origin + m * day) (direction * i)) left 0 n ∧
        n ≤ limit ∧ t = origin + m * day + direction * n * day) ↔
      ∃ n, Shifted (Open timezone calendar origin) k m n ∧ |n - m| ≤ limit ∧
        t = origin + n * day := by
  have hshifted := fun n => @shifted_iff timezone calendar origin m k left n direction hk
    hdirection hleft hm
  constructor
  · rintro ⟨n, hsteps, hle, rfl⟩
    have hnonneg := hsteps.le
    refine ⟨m + direction * n, (hshifted n).mp hsteps, ?_, by ring⟩
    rcases hdirection with rfl | rfl
    all_goals exact abs_le.mpr ⟨by omega, by omega⟩
  · rintro ⟨n, hn, hnear, rfl⟩
    have hbounds := abs_le.mp hnear
    have hplace : m + direction * (direction * (n - m)) = n := by
      rcases hdirection with rfl | rfl <;> omega
    refine ⟨direction * (n - m), (hshifted _).mpr (hplace.symm ▸ hn), ?_, ?_⟩
    · rcases hdirection with rfl | rfl <;> omega
    · calc origin + n * day
          = origin + (m + direction * (direction * (n - m))) * day := by rw [hplace]
        _ = origin + m * day + direction * (direction * (n - m)) * day := by ring

include h

/-- **Adding business days** to a business day leads to the one so many business days away, if it
is within the range. -/
theorem addBusinessDays_eq_ok (hm : Open timezone calendar origin m) :
    provider.addBusinessDays timezone calendarId (origin + m * day) k = .ok t ↔
      ∃ n, Shifted (Open timezone calendar origin) k m n ∧ |n - m| ≤ 2000 ∧
        t = origin + n * day := by
  unfold addBusinessDays
  by_cases hk : k = 0
  · subst hk
    rw [if_pos rfl]
    constructor
    · intro hok
      cases hok
      exact ⟨m, ⟨hm, hm, .stay m⟩, by simp, rfl⟩
    · rintro ⟨n, hshifted, -, rfl⟩
      rw [hshifted.unique ⟨hm, hm, .stay m⟩]
  · rw [if_neg hk]
    obtain ⟨direction, hdirection, hsign, hcount⟩ :
        ∃ direction : Int, (direction = 1 ∨ direction = -1) ∧
          (if k < 0 then (-1 : Int) else 1) = direction ∧ k = direction * k.natAbs := by
      by_cases hneg : k < 0
      · exact ⟨-1, .inr rfl, if_pos hneg, by omega⟩
      · exact ⟨1, .inl rfl, if_neg hneg, by omega⟩
    have hloop : provider.countDays timezone calendarId (origin + m * day) k direction
        maxIterations k.natAbs (origin + m * day + direction * (0 : Nat) * day) = .ok t ↔ _ :=
      h.countDays_eq_ok hdirection (Nat.zero_le 2000) (by decide)
    rw [Nat.cast_zero, mul_zero, zero_mul, add_zero] at hloop
    rw [hsign, hloop]
    exact exists_shifted_iff hcount hdirection (by omega) hm

/-- A search in either direction is a shift by one business day. -/
theorem searchDay_eq_ok_iff (failed : ProviderError) (hk : k = 1 ∨ k = -1)
    (hm : Open timezone calendar origin m) :
    provider.searchDay timezone calendarId failed k 365 (addDays timezone (origin + m * day) k) =
        .ok t ↔
      ∃ n, Shifted (Open timezone calendar origin) k m n ∧ |n - m| ≤ 365 ∧
        t = origin + n * day := by
  have hsearch : provider.searchDay timezone calendarId failed k 365
      (origin + m * day + k * (0 + 1 : Nat) * day) = .ok t ↔ _ :=
    h.searchDay_eq_ok failed k 0
  rw [Nat.zero_add, Nat.cast_one, mul_one, Nat.cast_zero, Int.zero_add] at hsearch
  rw [addDays_eq h.fixed, hsearch]
  exact exists_shifted_iff (by simp) hk Nat.one_pos hm

end Counting

/-- A call of one of the operations. -/
inductive Move where
  | add (days : Int)
  | next
  | previous
deriving DecidableEq

/-- How many business days a call is to move. -/
def Move.days : Move → Int
  | .add days => days
  | .next => 1
  | .previous => -1

namespace MemoryBusinessCalendarProvider

variable (provider : MemoryBusinessCalendarProvider) (timezone : Location) (calendarId : String)

/-- The day a call leads to. -/
def move (start : Int) : Move → Except ProviderError Int
  | .add days => provider.addBusinessDays timezone calendarId start days
  | .next => provider.getNextBusinessDay timezone calendarId start
  | .previous => provider.getPreviousBusinessDay timezone calendarId start

/-- The day that calls lead to, each from the day the one before has led to. -/
def travel (start : Int) : List Move → Except ProviderError Int
  | [] => .ok start
  | move :: rest =>
    match provider.move timezone calendarId start move with
    | .error err => .error err
    | .ok t => travel t rest

end MemoryBusinessCalendarProvider

namespace Counting

open MemoryBusinessCalendarProvider

variable {provider : MemoryBusinessCalendarProvider} {timezone : Location} {offset : Int}
  {calendarId : String} {calendar : BusinessCalendar}
  (h : Counting provider timezone offset calendarId calendar) {origin m t : Int}
include h

/-- **Step**: a call that succeeds shifts the day. -/
theorem shifted_move (hm : Open timezone calendar origin m) {call : Move}
    (hmove : provider.move timezone calendarId (origin + m * day) call = .ok t) :
    ∃ n, Shifted (Open timezone calendar origin) call.days m n ∧ t = origin + n * day := by
  cases call with
  | add days =>
    obtain ⟨n, hshifted, -, ht⟩ := (h.addBusinessDays_eq_ok hm).mp hmove
    exact ⟨n, hshifted, ht⟩
  | next =>
    obtain ⟨n, hshifted, -, ht⟩ := (h.searchDay_eq_ok_iff _ (.inl rfl) hm).mp hmove
    exact ⟨n, hshifted, ht⟩
  | previous =>
    obtain ⟨n, hshifted, -, ht⟩ := (h.searchDay_eq_ok_iff _ (.inr rfl) hm).mp hmove
    exact ⟨n, hshifted, ht⟩

/-- **Run**: calls that succeed shift the day by all their business days together. -/
theorem shifted_travel (hm : Open timezone calendar origin m) {calls : List Move}
    (htravel : provider.travel timezone calendarId (origin + m * day) calls = .ok t) :
    ∃ n, Shifted (Open timezone calendar origin) (calls.map Move.days).sum m n ∧
      t = origin + n * day := by
  induction calls generalizing m with
  | nil =>
    cases htravel
    exact ⟨m, ⟨hm, hm, .stay m⟩, rfl⟩
  | cons call rest ih =>
    rw [travel] at htravel
    cases hmove : provider.move timezone calendarId (origin + m * day) call with
    | error err =>
      rw [hmove] at htravel
      cases htravel
    | ok t' =>
      rw [hmove] at htravel
      obtain ⟨n', hfirst, rfl⟩ := h.shifted_move hm hmove
      obtain ⟨n, hrest, ht⟩ := ih hfirst.target htravel
      rw [List.map_cons, List.sum_cons]
      exact ⟨n, hfirst.add hrest, ht⟩

end Counting

/-- Calls have led from a business day to one that is `total` business days away, and `n` days. -/
structure Traveled (provider : MemoryBusinessCalendarProvider) (timezone : Location)
    (calendarId : String) (calendar : BusinessCalendar) (start total t n : Int) : Prop where
  place : t = start + n * day
  businessDay : provider.isBusinessDay timezone calendarId t = .ok true
  /-- Forward if `total` is positive, backward if it is negative, and nowhere if it is zero. -/
  side : n.sign = total.sign
  /-- The business days between, with the later of the two and without the earlier. -/
  passed : ((Finset.Ioc (min 0 n) (max 0 n)).filter fun i =>
    MemoryBusinessCalendarProvider.isBusinessDayOf timezone calendar (start + i * day) =
      true).card = total.natAbs
  /-- One call leads there, too, when it is within the range. -/
  once : |n| ≤ 2000 → provider.addBusinessDays timezone calendarId start total = .ok t

/-- `NewMemoryBusinessCalendarProvider`: one calendar with Saturdays and Sundays. -/
def newMemoryBusinessCalendarProvider : MemoryBusinessCalendarProvider where
  calendars := .single "default"
    { calendarId := "default", holidays := [], weekendDays := [6, 7], timezone := "UTC" }

end Nzovu.Calendar
