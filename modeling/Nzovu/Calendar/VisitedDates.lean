import Mathlib.Data.List.Iterate
import Nzovu.Calendar.Pattern
import Nzovu.Calendar.Searching

/-!
# The Dates a Rule Visits

Which dates an evaluator visits does not depend on the execution times of its rule. It takes the
first of these times that lies after the start, on the first date that has one: a search is the
walk through a list of dates.

- Section 1: the first run on a list of dates.
- Section 2: a search is such a walk.
- Section 3: the dates of each kind of rule.
-/

namespace Nzovu.Calendar

open Nzovu.Foundation
open Nzovu.Foundation.CivilTime

/-! ## Section 1: The first run on a list of dates -/

/-- What a search meets at a place: a date, or none when it passes the place over. -/
abbrev Visit := Result (Option Date)

/-- The first instant after the start that a date offers, of the first date that offers one. -/
def firstRun (start : Int) (offers : Date → List Int) : List Visit → Result (Option Int)
  | [] => .ok none
  | .error stop :: _ => .error stop
  | .ok none :: rest => firstRun start offers rest
  | .ok (some date) :: rest =>
    match (offers date).find? fun t => start < t with
    | some t => .ok (some t)
    | none => firstRun start offers rest

/-- The walk gets past the visit: it meets no error and no instant after the start. -/
def Passes (start : Int) (offers : Date → List Int) (visit : Visit) : Prop :=
  ∃ found : Option Date, visit = .ok found ∧ ∀ date ∈ found, ∀ t ∈ offers date, t ≤ start

/-- The walk gets past these visits. -/
def Passed (start : Int) (offers : Date → List Int) (visits : List Visit) : Prop :=
  ∀ visit ∈ visits, Passes start offers visit

section FirstRun

variable {start t : Int} {offers : Date → List Int} {before rest : List Visit} {date : Date}

theorem passed_nil : Passed start offers [] := fun _ h => (by cases h)

theorem passed_cons {visit : Visit} :
    Passed start offers (visit :: rest) ↔
      Passes start offers visit ∧ Passed start offers rest :=
  List.forall_mem_cons

theorem passes_none : Passes start offers (.ok none) := ⟨none, rfl, by simp⟩

theorem passes_some (h : (offers date).find? (fun t => start < t) = none) :
    Passes start offers (.ok (some date)) := by
  refine ⟨some date, rfl, ?_⟩
  rintro _ ⟨⟩
  simpa using h

theorem firstRun_cons_of_passes {visit : Visit} (h : Passes start offers visit) :
    firstRun start offers (visit :: rest) = firstRun start offers rest := by
  obtain ⟨found, rfl, hlate⟩ := h
  cases found with
  | none => rfl
  | some date =>
    have hnone : (offers date).find? (fun t => start < t) = none := by
      simpa using hlate date rfl
    simp only [firstRun, hnone]

/-- What a walk finds it finds on the first visit or, if it gets past it, further on. -/
theorem firstRun_cons_eq_some {visit : Visit} :
    firstRun start offers (visit :: rest) = .ok (some t) ↔
      (∃ date, visit = .ok (some date) ∧ (offers date).find? (fun t => start < t) = some t) ∨
        (Passes start offers visit ∧ firstRun start offers rest = .ok (some t)) := by
  constructor
  · intro h
    cases visit with
    | error stop => simp [firstRun] at h
    | ok found =>
      cases found with
      | none => exact .inr ⟨passes_none, h⟩
      | some date =>
        cases hfind : (offers date).find? fun t => start < t with
        | some u =>
          simp only [firstRun, hfind, Except.ok.injEq, Option.some.injEq] at h
          exact .inl ⟨date, rfl, h ▸ hfind⟩
        | none =>
          simp only [firstRun, hfind] at h
          exact .inr ⟨passes_some hfind, h⟩
  · rintro (⟨date, rfl, hfind⟩ | ⟨hpasses, hrest⟩)
    · simp only [firstRun, hfind]
    · rwa [firstRun_cons_of_passes hpasses]

theorem firstRun_of_passed (h : Passed start offers before) :
    firstRun start offers (before ++ rest) = firstRun start offers rest := by
  induction before with
  | nil => rfl
  | cons visit before ih =>
    obtain ⟨hvisit, hbefore⟩ := passed_cons.mp h
    rw [List.cons_append, firstRun_cons_of_passes hvisit, ih hbefore]

theorem firstRun_at (h : Passed start offers before)
    (hfind : (offers date).find? (fun t => start < t) = some t) :
    firstRun start offers (before ++ .ok (some date) :: rest) = .ok (some t) := by
  rw [firstRun_of_passed h]
  exact firstRun_cons_eq_some.mpr (.inl ⟨date, rfl, hfind⟩)

/-- What a walk through the places of a search finds. -/
theorem firstRun_iterate_eq_some {σ : Type} {visit : σ → Visit} {advance : σ → σ}
    {attempts : Nat} {place : σ} :
    firstRun start offers ((List.iterate advance place attempts).map visit) = .ok (some t) ↔
      ∃ n < attempts, ∃ date, visit (advance^[n] place) = .ok (some date) ∧
        (offers date).find? (fun t => start < t) = some t ∧
        ∀ m < n, Passes start offers (visit (advance^[m] place)) := by
  induction attempts generalizing place with
  | zero => simp [firstRun]
  | succ attempts ih =>
    rw [List.iterate, List.map_cons, firstRun_cons_eq_some, ih]
    constructor
    · rintro (⟨date, hvisit, hfind⟩ | ⟨hpasses, n, hn, date, hvisit, hfind, hbefore⟩)
      · exact ⟨0, Nat.succ_pos _, date, hvisit, hfind, fun m hm => absurd hm (Nat.not_lt_zero m)⟩
      · refine ⟨n + 1, Nat.succ_lt_succ hn, date, hvisit, hfind, fun m hm => ?_⟩
        cases m with
        | zero => exact hpasses
        | succ m => exact hbefore m (Nat.lt_of_succ_lt_succ hm)
    -- the first place finds it, or those after the first do
    · rintro ⟨n, hn, date, hvisit, hfind, hbefore⟩
      cases n with
      | zero => exact .inl ⟨date, hvisit, hfind⟩
      | succ n =>
        exact .inr ⟨hbefore 0 (Nat.succ_pos n), n, Nat.lt_of_succ_lt_succ hn, date, hvisit, hfind,
          fun m hm => hbefore (m + 1) (Nat.succ_lt_succ hm)⟩

end FirstRun

/-! ## Section 2: A search is a walk -/

/-- What the walk takes from a visit. -/
def taken (start : Int) (offers : Date → List Int) : Visit → Result (Option Int)
  | .error stop => .error stop
  | .ok none => .ok none
  | .ok (some date) => .ok ((offers date).find? fun t => start < t)

/-- The places of a search that offer what dates do. -/
theorem search_eq_firstRun {σ : Type} {start : Int} {offers : Date → List Int}
    {candidates : σ → Result (List Int)} {visit : σ → Visit}
    (h : ∀ place, (candidates place).map (fun times => times.find? fun t => start < t) =
      taken start offers (visit place))
    (advance : σ → σ) (attempts : Nat) (place : σ) :
    search start candidates advance attempts place =
      firstRun start offers ((List.iterate advance place attempts).map visit) := by
  induction attempts generalizing place with
  | zero => rfl
  | succ attempts ih =>
    have hplace := h place
    simp only [search, List.iterate, List.map_cons]
    cases hcandidates : candidates place with
    | error stop =>
      cases hvisit : visit place with
      | error stop' =>
        rw [hcandidates, hvisit] at hplace
        simp only [Except.map, taken, Except.error.injEq] at hplace
        simp only [firstRun, hplace]
      | ok found => cases found <;> simp [hcandidates, hvisit, taken, Except.map] at hplace
    | ok times =>
      cases hvisit : visit place with
      | error stop => simp [hcandidates, hvisit, taken, Except.map] at hplace
      | ok found =>
        rw [hcandidates, hvisit] at hplace
        cases found with
        | none =>
          simp only [Except.map, taken, Except.ok.injEq] at hplace
          simp only [hplace, firstRun, ih]
        | some date =>
          simp only [Except.map, taken, Except.ok.injEq] at hplace
          simp only [hplace, firstRun]
          cases (offers date).find? fun t => start < t with
          | none => exact ih _
          | some t => rfl

/-! ## Section 3: The dates of each kind of rule -/

/-- What `Daily.candidates` looks at. -/
def Daily.visit (timezone : Location) (rule : DailyRule) (dayInterval referenceDate : Int)
    (currentDate : Int) : Visit :=
  .ok (if isValidDay currentDate referenceDate dayInterval &&
      !(rule.weekdaysOnly && isWeekend timezone currentDate) then
    some (timezone.dateOf currentDate)
  else none)

/-- What `Weekly.candidates` looks at. -/
def Weekly.visit (timezone : Location) (rule : WeeklyRule) (weekInterval referenceWeek : Int)
    (currentDate : Int) : Visit :=
  .ok (if isValidWeek timezone currentDate referenceWeek weekInterval &&
      goWeekdayToOurs (timezone.weekday currentDate) ∈ rule.daysOfWeek then
    some (timezone.dateOf currentDate)
  else none)

/-- What `Monthly.candidates` looks at. -/
def Monthly.visit (timezone : Location) (rule : MonthlyRule) (place : Int × Int) : Visit :=
  .ok (if place.2 ∈ validMonths rule then
    (selectedDay timezone rule place.1 place.2).map fun dayOfMonth => ⟨place.1, place.2, dayOfMonth⟩
  else none)

/-- What `Yearly.candidates` looks at. -/
def Yearly.visit (rule : YearlyRule) (year : Int) : Visit :=
  .ok ((targetDay rule year).map fun dayOfMonth => ⟨year, rule.month, dayOfMonth⟩)

/-- What `BusinessDays.candidates` looks at: the date to which the day is moved. -/
def BusinessDays.visit (ctx : EvaluationContext) (timezone : Location) (rule : BusinessDaysRule)
    (businessCalendar : BusinessCalendar) (currentDate : Int) : Visit :=
  if isBusinessDay timezone businessCalendar currentDate then
    match applyDayOffset ctx timezone businessCalendar rule.dayOffset currentDate with
    | .error stop => .error stop
    | .ok targetDate =>
      .ok (if isBusinessDay timezone businessCalendar targetDate then
        some (timezone.dateOf targetDate)
      else none)
  else .ok none

/-- The visits of a rule. -/
def visits (ctx : EvaluationContext) (inlineCalendar : Option BusinessCalendar)
    (timezone : Location) (fromLocal : Int) : Option RuleConfig → List Visit
  | some (.daily daily) =>
    let dayInterval := if daily.dayInterval ≤ 0 then 1 else daily.dayInterval
    let referenceDate := (daily.startDate.map (·.asTime)).getD fromLocal
    (List.iterate (· + day) (truncateDay fromLocal) 365).map
      (Daily.visit timezone daily dayInterval referenceDate)
  | some (.weekly weekly) =>
    let weekInterval := if weekly.weekInterval ≤ 0 then 1 else weekly.weekInterval
    let referenceWeek := (weekly.startWeek.map (·.asTime)).getD fromLocal
    if weekly.daysOfWeek = [] then [fail (.invalidRule "no days of week specified")]
    else
      (List.iterate (· + day) (truncateDay fromLocal) (14 * weekInterval).toNat).map
        (Weekly.visit timezone weekly weekInterval referenceWeek)
  | some (.monthly monthly) =>
    match monthly.dayType with
    | .unknown number => [fail (.invalidRule s!"unknown monthly rule day type: {number}")]
    | _ =>
      (List.iterate Monthly.nextMonth
        ((timezone.dateOf fromLocal).year, (timezone.dateOf fromLocal).month) 24).map
        (Monthly.visit timezone monthly)
  | some (.yearly yearly) =>
    (List.iterate (· + 1) (timezone.dateOf fromLocal).year 10).map (Yearly.visit yearly)
  | some (.businessDays business) =>
    match BusinessDays.ruleCalendar ctx inlineCalendar business with
    | .error stop => [.error stop]
    | .ok businessCalendar =>
      (List.iterate (· + day) (truncateDay fromLocal) 365).map
        (BusinessDays.visit ctx timezone business businessCalendar)
  | some .custom | none => [fail evaluatorNotFound]

/-- The time of day of a rule that lists none. -/
def CalendarRule.defaultTime (rule : CalendarRule) : TimeOfDay :=
  match rule.rule with
  | some (.businessDays _) => { hour := 9 }
  | _ => {}

theorem CalendarRule.defaultTime_range (rule : CalendarRule) :
    0 ≤ rule.defaultTime.seconds ∧ rule.defaultTime.seconds < 86400 := by
  unfold CalendarRule.defaultTime
  split <;> decide

/-- The execution times of a rule. -/
def CalendarRule.times (rule : CalendarRule) : List TimeOfDay := rule.timesOr rule.defaultTime

/-- What it says when it finds nothing. -/
def searchDetails : Option RuleConfig → String
  | some (.weekly _) => "no valid execution time found within search window"
  | some (.monthly _) => "no valid execution time found within 2 years"
  | some (.yearly _) => "no valid execution time found within 10 years"
  | _ => "no valid execution time found within 1 year"

section Evaluators

variable (start : Int) (timezone : Location) (times : List TimeOfDay)

theorem find?_flatMap_const {α β : Type} (l : List α) (p : α → Prop) [DecidablePred p]
    (times : List β) (late : β → Bool) :
    (l.flatMap fun a => if p a then times else []).find? late =
      if ∃ a ∈ l, p a then times.find? late else none := by
  induction l with
  | nil => simp
  | cons a l ih =>
    rw [List.flatMap_cons, List.find?_append, ih]
    by_cases ha : p a
    · have hsome : ∃ b ∈ a :: l, p b := ⟨a, List.mem_cons_self, ha⟩
      rw [if_pos ha, if_pos hsome]
      cases times.find? late with
      | none => split <;> rfl
      | some t => rfl
    · simp [ha]

theorem Daily.taken_visit (rule : DailyRule) (dayInterval referenceDate currentDate : Int) :
    (Except.ok (candidates timezone rule dayInterval referenceDate times currentDate) :
        Result (List Int)).map (fun times => times.find? fun t => start < t) =
      taken start (fun date => atTimes timezone date times)
        (visit timezone rule dayInterval referenceDate currentDate) := by
  unfold candidates visit
  split <;> rfl

theorem Weekly.taken_visit (rule : WeeklyRule) (weekInterval referenceWeek currentDate : Int) :
    (Except.ok (candidates timezone rule weekInterval referenceWeek times currentDate) :
        Result (List Int)).map (fun times => times.find? fun t => start < t) =
      taken start (fun date => atTimes timezone date times)
        (visit timezone rule weekInterval referenceWeek currentDate) := by
  unfold candidates visit
  by_cases hweek : isValidWeek timezone currentDate referenceWeek weekInterval = true
  · -- a weekday that is listed twice offers its times twice
    simp only [hweek, if_true, Bool.true_and, Except.map, find?_flatMap_const, decide_eq_true_eq]
    by_cases hlisted : goWeekdayToOurs (timezone.weekday currentDate) ∈ rule.daysOfWeek
    · rw [if_pos ⟨_, hlisted, rfl⟩, if_pos hlisted]
      rfl
    · rw [if_neg (fun ⟨_, hmem, heq⟩ => hlisted (heq ▸ hmem)), if_neg hlisted]
      rfl
  · simp only [hweek, if_false, Bool.false_and, Bool.false_eq_true]
    rfl

theorem Monthly.taken_visit (rule : MonthlyRule) (place : Int × Int) :
    (Except.ok (candidates timezone rule times place) : Result (List Int)).map
        (fun times => times.find? fun t => start < t) =
      taken start (fun date => atTimes timezone date times) (visit timezone rule place) := by
  unfold candidates visit
  split
  · cases selectedDay timezone rule place.1 place.2 <;> rfl
  · rfl

theorem Yearly.taken_visit (rule : YearlyRule) (year : Int) :
    (Except.ok (candidates timezone rule times year) : Result (List Int)).map
        (fun times => times.find? fun t => start < t) =
      taken start (fun date => atTimes timezone date times) (visit rule year) := by
  unfold candidates visit
  cases targetDay rule year <;> rfl

theorem BusinessDays.taken_visit (ctx : EvaluationContext) (rule : BusinessDaysRule)
    (businessCalendar : BusinessCalendar) (currentDate : Int) :
    (candidates ctx timezone rule businessCalendar times currentDate).map
        (fun times => times.find? fun t => start < t) =
      taken start (fun date => atTimes timezone date times)
        (visit ctx timezone rule businessCalendar currentDate) := by
  unfold candidates visit
  split
  · cases applyDayOffset ctx timezone businessCalendar rule.dayOffset currentDate with
    | error stop => rfl
    | ok targetDate =>
      simp only
      split <;> rfl
  · rfl

end Evaluators

/-- **Every evaluator walks through its visits.** -/
theorem findNextExecution_eq_firstRun (ctx : EvaluationContext)
    (inlineCalendar : Option BusinessCalendar) (rule : CalendarRule) (timezone : Location)
    (start : Int) :
    findNextExecution ctx inlineCalendar rule timezone start =
      searchResult (searchDetails rule.rule)
        (firstRun start (fun date => atTimes timezone date rule.times)
          (visits ctx inlineCalendar timezone start rule.rule)) := by
  have hconfig : rule.pattern.rule = rule.rule := rfl
  have htimes : ∀ default, rule.pattern.timesOr default = rule.timesOr default := fun _ => rfl
  simp only [findNextExecution, evaluateRule, hconfig]
  cases hrule : rule.rule with
  | none => rfl
  | some config =>
    cases config with
    | custom => rfl
    | daily daily =>
      simp only [Daily.evaluate, pattern_evaluateFrom, htimes, visits, CalendarRule.times,
        CalendarRule.defaultTime, hrule]
      rw [search_eq_firstRun fun currentDate => Daily.taken_visit _ _ _ _ _ _ currentDate]
      rfl
    | weekly weekly =>
      simp only [Weekly.evaluate, pattern_evaluateFrom, htimes, visits, CalendarRule.times,
        CalendarRule.defaultTime, hrule]
      split
      · rfl
      · rw [search_eq_firstRun fun currentDate => Weekly.taken_visit _ _ _ _ _ _ currentDate]
        rfl
    | monthly monthly =>
      simp only [Monthly.evaluate, pattern_evaluateFrom, htimes, visits, CalendarRule.times,
        CalendarRule.defaultTime, hrule]
      cases monthly.dayType with
      | unknown number => rfl
      | _ =>
        simp only
        rw [search_eq_firstRun fun place => Monthly.taken_visit _ _ _ _ place]
        rfl
    | yearly yearly =>
      simp only [Yearly.evaluate, pattern_evaluateFrom, htimes, visits, CalendarRule.times,
        CalendarRule.defaultTime, hrule]
      rw [search_eq_firstRun fun year => Yearly.taken_visit _ _ _ _ year]
      rfl
    | businessDays business =>
      simp only [BusinessDays.evaluate, pattern_evaluateFrom, htimes, visits, CalendarRule.times,
        CalendarRule.defaultTime, hrule]
      cases BusinessDays.ruleCalendar ctx inlineCalendar business with
      | error stop => rfl
      | ok calendar =>
        simp only
        rw [search_eq_firstRun fun currentDate => BusinessDays.taken_visit _ _ _ _ _ _ currentDate]
        rfl

end Nzovu.Calendar
