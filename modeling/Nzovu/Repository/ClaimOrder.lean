import Nzovu.Repository.Claimable
import Nzovu.Repository.Weights

/-!
# Which Message a Claim Takes

Three queries look for a waiting message: the statistics of each level, the query of the level
drawn from them, and the strict one over all levels when that finds nothing. The first does not ask
for `deleted_at IS NULL`, and the levels hold the priorities from 0 on. A claim comes back empty
only if nothing is eligible, for the priorities that messages are stored with.

- Section 1: the first of a list of rows.
- Section 2: levels.
- Section 3: claims.
-/

namespace Nzovu.Repository

open Nzovu.Foundation

/-! ## Section 1: The first of a list of rows -/

/-- Larger priorities come first, then smaller row ids. -/
def Precedes (d e : Nat × MessageRow) : Prop :=
  e.2.priority < d.2.priority ∨ (d.2.priority = e.2.priority ∧ d.1 ≤ e.1)

/-- Of the rows that satisfy `p`, this one comes first. -/
structure FirstOf (rows : List (Nat × MessageRow)) (p : MessageRow → Prop)
    (e : Nat × MessageRow) : Prop where
  mem : e ∈ rows
  holds : p e.2
  precedes : ∀ d ∈ rows, p d.2 → Precedes e d

theorem firstByPriority_eq_none {rows : List (Nat × MessageRow)} :
    firstByPriority rows = none ↔ rows = [] := by
  cases rows with
  | nil => simp [firstByPriority]
  | cons e rest =>
    simp only [firstByPriority, reduceCtorEq, iff_false]
    split
    · simp
    · split <;> simp

/-- On rows listed by id the recursion finds the row that comes first. -/
theorem firstByPriority_precedes {rows : List (Nat × MessageRow)}
    (hsorted : (rows.map Prod.fst).Pairwise (· < ·)) {e : Nat × MessageRow}
    (h : firstByPriority rows = some e) : ∀ d ∈ rows, Precedes e d := by
  induction rows generalizing e with
  | nil => cases h
  | cons first rest ih =>
    obtain ⟨hfirst, hrest⟩ := List.pairwise_cons.mp hsorted
    have hids : ∀ d ∈ rest, first.1 < d.1 := fun d hd => hfirst d.1 (List.mem_map_of_mem hd)
    simp only [firstByPriority] at h
    intro d hd
    cases hbest : firstByPriority rest with
    | none =>
      rw [hbest, Option.some.injEq] at h
      rw [firstByPriority_eq_none.mp hbest, List.mem_singleton] at hd
      exact .inr ⟨by rw [hd, h], by rw [hd, h]⟩
    | some best =>
      have hbest_first := ih hrest hbest
      have hbest_mem := firstByPriority_mem hbest
      simp only [hbest] at h
      split at h
      next hlt =>
        cases h
        rcases List.mem_cons.mp hd with rfl | hd
        · exact .inl hlt
        · exact hbest_first d hd
      next hle =>
        cases h
        rcases List.mem_cons.mp hd with rfl | hd
        · exact .inr ⟨rfl, Nat.le_refl _⟩
        · -- the head has at least the priority of the best of the rest, and a smaller id
          have hid := hids d hd
          rcases hbest_first d hd with hlt | ⟨heq, -⟩
          · exact .inl (by omega)
          · by_cases hsame : first.2.priority = d.2.priority
            · exact .inr ⟨hsame, Nat.le_of_lt hid⟩
            · exact .inl (by omega)

/-- Which rows a query looks at: the claimable ones, of one level or of all. -/
def Offered (queueName : String) (nowMs : Int) (level : Option PriorityLevel) (row : MessageRow) :
    Prop :=
  Claimable queueName nowMs row ∧ ∀ l, level = some l → inLevel l row = true

theorem offered_iff {queueName : String} {nowMs : Int} {level : Option PriorityLevel}
    {row : MessageRow} :
    (claimable queueName nowMs row && level.all fun l => inLevel l row) = true ↔
      Offered queueName nowMs level row := by
  rw [Bool.and_eq_true, claimable_iff, Offered]
  cases level <;> simp

/-- The strict and the weighted query. -/
theorem selectClaimable_some {db : Database} {queueName : String} {nowMs : Int}
    {level : Option PriorityLevel} {e : Nat × MessageRow}
    (h : selectClaimable db queueName nowMs level = some e) :
    FirstOf db.messages.rows (Offered queueName nowMs level) e := by
  have hsorted : ((db.messages.rows.filter fun d => claimable queueName nowMs d.2 &&
      level.all fun l => inLevel l d.2).map Prod.fst).Pairwise (· < ·) :=
    db.messages.ids_sorted.sublist (List.filter_sublist.map Prod.fst)
  obtain ⟨hmem, hoffered⟩ := List.mem_filter.mp (firstByPriority_mem h)
  exact ⟨hmem, offered_iff.mp hoffered, fun d hd hp =>
    firstByPriority_precedes hsorted h d (List.mem_filter.mpr ⟨hd, offered_iff.mpr hp⟩)⟩

theorem selectClaimable_none {db : Database} {queueName : String} {nowMs : Int}
    {level : Option PriorityLevel} (h : selectClaimable db queueName nowMs level = none) :
    ∀ e ∈ db.messages.rows, ¬ Offered queueName nowMs level e.2 := by
  intro e he hoffered
  have hnil := firstByPriority_eq_none.mp h
  exact List.filter_eq_nil_iff.mp hnil e he (offered_iff.mpr hoffered)

/-! ## Section 2: Levels -/

/-- The levels hold the priority of the row. -/
def InBands (row : MessageRow) : Prop := 0 ≤ row.priority ∧ row.priority ≤ maxPriorityValue

theorem PriorityInRange.inBands {row : MessageRow} (h : PriorityInRange row) : InBands row := by
  obtain ⟨hlo, hhi⟩ := h
  exact ⟨hlo, by simp only [maxPriorityValue]; omega⟩

theorem exists_inLevel {row : MessageRow} (h : InBands row) :
    ∃ level, inLevel level row = true := by
  obtain ⟨hlo, hhi⟩ := h
  by_cases hhigh : 3 ≤ row.priority
  · exact ⟨.high, by simp [inLevel, priorityLevelToRange, hhigh, hhi]⟩
  · by_cases hmedium : row.priority = 2
    · exact ⟨.medium, by simp [inLevel, priorityLevelToRange, hmedium]⟩
    · have hlow : row.priority ≤ 1 := by omega
      exact ⟨.low, by simp [inLevel, priorityLevelToRange, hlo, hlow]⟩

/-- The statistics of a level look at every claimable row of it. -/
theorem oldestCreatedAt_ne_none {db : Database} {queueName : String} {nowMs : Int}
    {level : PriorityLevel} {e : Nat × MessageRow} (he : e ∈ db.messages.rows)
    (hclaimable : Claimable queueName nowMs e.2) (hlevel : inLevel level e.2 = true) :
    oldestCreatedAt db.messages.rows queueName level nowMs ≠ none := by
  intro hnone
  simp only [oldestCreatedAt, List.min?_eq_none_iff, List.map_eq_nil_iff,
    List.filter_eq_nil_iff] at hnone
  refine hnone e he ?_
  simp [hclaimable.queue, hclaimable.state, hclaimable.due, hlevel]

/-- A level is drawn from exact weights whenever some level has a message. -/
theorem selectPriorityLevel_exactWeights {cfg : PriorityConfig} {nowMs : Int}
    {oldest : PriorityLevel → Option Int} (h : ¬ NoneWaiting oldest) (source : Nat) :
    selectPriorityLevel (some (exactWeights cfg nowMs oldest)) source ≠ none := by
  have htotal := @exactWeights_total_pos cfg nowMs _ h
  simp only [LevelWeights.total] at htotal
  simp only [selectPriorityLevel, if_neg (Int.not_le.mpr htotal)]
  split
  · simp
  · split
    · simp
    · simpa using Int.emod_lt_of_pos (source : Int) htotal

/-! ## Section 3: Claims -/

/-- The queue draws a level before it looks for a message. -/
def Weighted (metadata : QueueMetadata) : Prop :=
  ∃ cfg, metadata.priorityConfig = some cfg ∧ cfg.policy ≠ .strict

/-- A row of the queue waits and is due. -/
def HasEligible (db : Database) (queueName : String) (nowMs : Int)
    (level : Option PriorityLevel) : Prop :=
  ∃ e ∈ db.messages.rows, Offered queueName nowMs level e.2

/-- The level `SelectPriorityLevel` draws for the claim. -/
def Draws (db : Database) (metadata : QueueMetadata) (req : ClaimRequest) (nowMs : Int)
    (level : PriorityLevel) : Prop :=
  claimLevel db metadata req nowMs = .ok (some (some level))

/-- The claim takes this row and returns it with its lease. -/
def Takes (db db' : Database) (clock : Readings) (req : ClaimRequest)
    (claimed : Option (Nat × MessageRow)) (e : Nat × MessageRow) : Prop :=
  ∃ policy, Claimed db db' clock req e.1 e.2 policy ∧
    claimed = some (e.1, claimRow req.attempt req.worker
      (claimRuntime policy req.leaseDuration (clock 3)) (clock 2) e.2)

/-- What a claim that returns no error promises. -/
structure ClaimFinds (db db' : Database) (clock : Readings) (req : ClaimRequest)
    (metadata : QueueMetadata) (claimed : Option (Nat × MessageRow)) : Prop where
  /-- It comes back empty only if nothing is eligible, or a lease blocks the queue. -/
  empty : claimed = none →
    (metadata.type = .exclusive ∧
      hasActiveLease db.messages.rows req.queueName (clock 1) = true) ∨
    (Weighted metadata ∧ ¬ HasEligible db req.queueName (clock 0) none) ∨
    ¬ HasEligible db req.queueName (clock 2) none
  /-- Without levels the first of all eligible messages is taken. -/
  strict : ¬ Weighted metadata → claimed ≠ none → ∃ e, Takes db db' clock req claimed e ∧
    FirstOf db.messages.rows (Offered req.queueName (clock 2) none) e
  /-- With levels it is the first of the level drawn, or of all when that level has none. -/
  weighted : Weighted metadata → claimed ≠ none → ∃ e level, Takes db db' clock req claimed e ∧
    Draws db metadata req (clock 0) level ∧
    (HasEligible db req.queueName (clock 2) (some level) →
      FirstOf db.messages.rows (Offered req.queueName (clock 2) (some level)) e) ∧
    (¬ HasEligible db req.queueName (clock 2) (some level) →
      FirstOf db.messages.rows (Offered req.queueName (clock 2) none) e)

/-- What `claimLevel` says about the queue. -/
theorem claimLevel_ok {db : Database} {metadata : QueueMetadata} {req : ClaimRequest}
    {nowMs : Int} {level : Option (Option PriorityLevel)}
    (h : claimLevel db metadata req nowMs = .ok level) :
    (¬ Weighted metadata ∧ level = none) ∨
      (Weighted metadata ∧ ∃ drawn, level = some drawn ∧
        (drawn = none → NoneWaiting (oldestOfQueue db req.queueName nowMs))) := by
  cases hcfg : metadata.priorityConfig with
  | none =>
    refine .inl ⟨?_, by simpa [claimLevel, hcfg] using h.symm⟩
    rintro ⟨cfg, hsome, -⟩
    cases hcfg.symm.trans hsome
  | some cfg =>
    rw [claimLevel_eq hcfg] at h
    by_cases hpolicy : cfg.policy = .strict
    · rw [if_pos hpolicy] at h
      refine .inl ⟨?_, (Except.ok.inj h).symm⟩
      rintro ⟨cfg', hsome, hne⟩
      cases hcfg.symm.trans hsome
      exact hne hpolicy
    rw [if_neg hpolicy] at h
    refine .inr ⟨⟨cfg, hcfg, hpolicy⟩, ?_⟩
    cases hweights : calculateWeights cfg nowMs (oldestOfQueue db req.queueName nowMs) with
    | error err => simp [hweights] at h
    | ok weights =>
      simp only [hweights, Except.ok.injEq] at h
      refine ⟨_, h.symm, fun hdrawn => ?_⟩
      have hnone : ∀ level, ¬ Overflows cfg nowMs level
          (oldestOfQueue db req.queueName nowMs level) := by
        intro level hoverflow
        obtain ⟨level', -, herror⟩ := calculateWeights_error hoverflow
        cases hweights.symm.trans herror
      rw [calculateWeights_ok hnone, Except.ok.injEq] at hweights
      by_contra hwaiting
      rw [if_neg hwaiting] at hweights
      rw [← hweights] at hdrawn
      exact selectPriorityLevel_exactWeights hwaiting _ hdrawn

/-- With no level that has a message nothing is eligible, if the levels hold every priority. -/
theorem not_hasEligible_of_noneWaiting {db : Database} {queueName : String} {nowMs : Int}
    (hbands : ∀ e ∈ db.messages.rows, e.2.queueName = queueName → InBands e.2)
    (h : NoneWaiting (oldestOfQueue db queueName nowMs)) :
    ¬ HasEligible db queueName nowMs none := by
  rintro ⟨e, he, hclaimable, -⟩
  obtain ⟨level, hlevel⟩ := exists_inLevel (hbands e he hclaimable.queue)
  exact oldestCreatedAt_ne_none he hclaimable hlevel (h level)

/-- The row the queries select, with the fallback. -/
theorem selectCandidate_first {db : Database} {queueName : String} {nowMs : Int}
    {level : Option PriorityLevel} {e : Nat × MessageRow}
    (h : selectCandidate db queueName nowMs level = some e) :
    (HasEligible db queueName nowMs level →
      FirstOf db.messages.rows (Offered queueName nowMs level) e) ∧
    (¬ HasEligible db queueName nowMs level →
      FirstOf db.messages.rows (Offered queueName nowMs none) e) := by
  unfold selectCandidate at h
  split at h
  next d hselected =>
    cases h
    have hfirst := selectClaimable_some hselected
    exact ⟨fun _ => hfirst, fun hnone => absurd ⟨e, hfirst.mem, hfirst.holds⟩ hnone⟩
  next hselected =>
    split at h
    next hsome =>
      refine ⟨fun ⟨d, hd, hoffered⟩ => ?_, fun _ => selectClaimable_some h⟩
      exact absurd hoffered (selectClaimable_none hselected d hd)
    next => cases h

theorem selectCandidate_none {db : Database} {queueName : String} {nowMs : Int}
    {level : Option PriorityLevel} (h : selectCandidate db queueName nowMs level = none) :
    ¬ HasEligible db queueName nowMs none := by
  unfold selectCandidate at h
  rintro ⟨e, he, hoffered⟩
  split at h
  next => cases h
  next hselected =>
    split at h
    next => exact selectClaimable_none h e he hoffered
    next hlevel =>
      cases level with
      | none => exact selectClaimable_none hselected e he hoffered
      | some level => simp at hlevel

/-- The part of a claim after the level is drawn. -/
theorem claimMessage_of_level {db : Database} {clock : Readings} {req : ClaimRequest}
    {metadata : QueueMetadata} {level : Option (Option PriorityLevel)}
    (hmetadata : getQueueMetadata db req.queueName = .ok metadata)
    (hkey : validateClaimExclusivity metadata req.exclusivityKey = .ok ())
    (hlevel : claimLevel db metadata req (clock 0) = .ok level) (hdrawn : level ≠ some none) :
    claimMessageWithLeaseDuration db clock req =
      if metadata.type = .exclusive ∧
          hasActiveLease db.messages.rows req.queueName (clock 1) = true then .ok (db, none)
      else
        match selectCandidate db req.queueName (clock 2) level.join with
        | none => .ok (db, none)
        | some e => takeLease db clock req e := by
  rcases level with _ | _ | level
  · cases hfound : selectCandidate db req.queueName (clock 2) none <;>
      simp only [claimMessageWithLeaseDuration, hmetadata, hkey, hlevel, Option.join_none, hfound]
  · exact absurd rfl hdrawn
  · cases hfound : selectCandidate db req.queueName (clock 2) (some level) <;>
      simp only [claimMessageWithLeaseDuration, hmetadata, hkey, hlevel, Option.join_some, hfound]

/-- Every claim without error keeps the promise. -/
theorem claimFinds {db db' : Database} {clock : Readings} {req : ClaimRequest}
    {metadata : QueueMetadata} {claimed : Option (Nat × MessageRow)}
    (hbands : ∀ e ∈ db.messages.rows, e.2.queueName = req.queueName → InBands e.2)
    (hmetadata : getQueueMetadata db req.queueName = .ok metadata)
    (h : claimMessageWithLeaseDuration db clock req = .ok (db', claimed)) :
    ClaimFinds db db' clock req metadata claimed := by
  cases hkey : validateClaimExclusivity metadata req.exclusivityKey with
  | error err => simp [claimMessageWithLeaseDuration, hmetadata, hkey] at h
  | ok =>
  cases hlevel : claimLevel db metadata req (clock 0) with
  | error err => simp [claimMessageWithLeaseDuration, hmetadata, hkey, hlevel] at h
  | ok level =>
    have hdrawn := claimLevel_ok hlevel
    -- a draw of no level ends the claim
    by_cases hnolevel : level = some none
    · subst hnolevel
      simp only [claimMessageWithLeaseDuration, hmetadata, hkey, hlevel, Except.ok.injEq,
        Prod.mk.injEq] at h
      obtain ⟨rfl, rfl⟩ := h
      obtain ⟨-, hne⟩ | ⟨hweighted, drawn, hsome, hnone⟩ := hdrawn
      · cases hne
      · refine ⟨fun _ => .inr (.inl ⟨hweighted, ?_⟩), fun _ hne => absurd rfl hne,
          fun _ hne => absurd rfl hne⟩
        exact not_hasEligible_of_noneWaiting hbands (hnone (Option.some.inj hsome).symm)
    rw [claimMessage_of_level hmetadata hkey hlevel hnolevel] at h
    split at h
    next hblocked =>
      obtain ⟨-, rfl⟩ := Prod.mk.inj (Except.ok.inj h)
      exact ⟨fun _ => .inl hblocked, fun _ hne => absurd rfl hne, fun _ hne => absurd rfl hne⟩
    next =>
      split at h
      next hselected =>
        obtain ⟨-, rfl⟩ := Prod.mk.inj (Except.ok.inj h)
        exact ⟨fun _ => .inr (.inr (selectCandidate_none hselected)),
          fun _ hne => absurd rfl hne, fun _ hne => absurd rfl hne⟩
      next e hselected =>
        obtain ⟨hmem, hclaimable⟩ := selectCandidate_eq_some hselected
        have htakes : Takes db db' clock req claimed e := takeLease_effect hmem hclaimable h
        obtain ⟨hlevel_first, hall_first⟩ := selectCandidate_first hselected
        obtain ⟨hstrict, rfl⟩ | ⟨hweighted, drawn, rfl, -⟩ := hdrawn
        · refine ⟨fun hnone => ?_, fun _ _ => ⟨e, htakes, ?_⟩, fun hweighted => ?_⟩
          · obtain ⟨policy, -, hsome⟩ := htakes
            cases hnone.symm.trans hsome
          · by_cases heligible : HasEligible db req.queueName (clock 2) none
            · exact hlevel_first heligible
            · exact hall_first heligible
          · exact absurd hweighted hstrict
        · cases drawn with
          | none => exact absurd rfl hnolevel
          | some level =>
            refine ⟨fun hnone => ?_, fun hstrict => absurd hweighted hstrict, fun _ _ =>
              ⟨e, level, htakes, hlevel, hlevel_first, hall_first⟩⟩
            obtain ⟨policy, -, hsome⟩ := htakes
            cases hnone.symm.trans hsome

/-- A message of this priority in a queue that draws a level. -/
def weightedQueue (priority : Int) : List Operation :=
  [.createQueue "jobs" { priorityConfig := some ⟨.weighted, [], none, 0⟩ },
   .enqueue (fun _ => 0) "jobs" ⟨"m", some ⟨.pending, 3, 3, priority, none, some
    ⟨some ⟨30, 0⟩, none, none, none, 0⟩⟩⟩]

/-- The row of that message. -/
def weightedRow (priority : Int) : MessageRow :=
  newRow "jobs" "m" ⟨.pending, 3, 3, priority, none, some ⟨some ⟨30, 0⟩, none, none, none, 0⟩⟩
    none 0 0

end Nzovu.Repository
