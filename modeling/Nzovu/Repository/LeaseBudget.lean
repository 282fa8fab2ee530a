import Mathlib.Logic.Function.Basic
import Nzovu.Repository.System

/-!
# The Lease Budget

A claim grants a base lease, and heartbeats and extensions add to it until the budget of the
lease policy is spent. The three columns `lease_started_at`, `lease_extension_used` and
`lease_expiry` account for every millisecond of this; the base lease itself is not stored, so
runs are followed together with a ledger of the base leases that were granted.

- Section 1 defines the ledger and the account of one row.
- Section 2 shows what a claim and a renewal do to the account.
- Section 3 is the invariant of runs, and with it the claim about heartbeats.
-/

namespace Nzovu.Repository

open Nzovu.Foundation
open Nzovu.Background

/-! ## Section 1: The ledger -/

/-- The base lease a claim grants, in milliseconds. -/
def baseLeaseMs (policy : LeasePolicy) (leaseDuration : Int) : Int :=
  milliseconds (if 0 < leaseDuration then leaseDuration else asDuration policy.baseLease)

/-- A system with the base lease of the last claim of each row. -/
structure Ledger where
  system : System
  base : Nat → Int

namespace Ledger

def empty : Ledger := ⟨.empty, fun _ => 0⟩

/-- The row a claim takes and the base lease it grants. -/
def granted (s : System) : Operation → Option (Nat × Int)
  | .claim clock req =>
    match claimMessageWithLeaseDuration s.db clock req with
    | .ok (_, some (i, row)) =>
      row.metadata.leasePolicy.map fun policy => (i, baseLeaseMs policy req.leaseDuration)
    | _ => none
  | _ => none

/-- One operation; a claim is entered into the ledger. -/
def step (l : Ledger) (op : Operation) : Ledger :=
  ⟨l.system.step op, match granted l.system op with
    | some (i, base) => Function.update l.base i base
    | none => l.base⟩

def run (ops : List Operation) : Ledger := runFrom step empty ops

end Ledger

/-- The account of a RUNNING row: the lease lasts for the base lease and the extensions used,
which stay within the policy's limits, and none of the sums leaves the range of `int64`. -/
structure WithinBudget (policy : LeasePolicy) (base : Int) (row : MessageRow) : Prop where
  expiry : ∃ started, row.leaseStartedAt = some started ∧
    row.leaseExpiry = some (started + base + row.leaseExtensionUsed) ∧
    -(2 ^ 63) ≤ started + base ∧ started + base + row.leaseExtensionUsed < 2 ^ 63
  used_nonneg : 0 ≤ row.leaseExtensionUsed
  used_le : row.leaseExtensionUsed ≤ milliseconds (asDuration policy.maxExtension)
  renewals_le : 0 < policy.maxRenewals → row.leaseRenewalCount ≤ policy.maxRenewals

/-- The invariant of a row: the account, with the ranges that keep its sums small. -/
structure LeaseAccount (policy : LeasePolicy) (base : Int) (row : MessageRow) : Prop where
  expiry : ∃ started, row.leaseStartedAt = some started ∧
    row.leaseExpiry = some (started + base + row.leaseExtensionUsed) ∧
    -(2 ^ 52) ≤ started ∧ started ≤ 2 ^ 52
  base_nonneg : 0 ≤ base
  base_lt : base < 2 ^ 44
  used_nonneg : 0 ≤ row.leaseExtensionUsed
  used_le : row.leaseExtensionUsed ≤ milliseconds (asDuration policy.maxExtension)
  renewals_le : 0 < policy.maxRenewals → row.leaseRenewalCount ≤ policy.maxRenewals

theorem LeaseAccount.withinBudget {policy : LeasePolicy} {base : Int} {row : MessageRow}
    (hacc : policy.Accepted) (h : LeaseAccount policy base row) : WithinBudget policy base row := by
  obtain ⟨started, hstarted, hexpiry, hlo, hhi⟩ := h.expiry
  have hbase := h.base_nonneg
  have hbase' := h.base_lt
  have hused := h.used_le
  have hmax := hacc.maxExtension_range.2
  exact ⟨⟨started, hstarted, hexpiry, by omega, by omega⟩, h.used_nonneg, h.used_le,
    h.renewals_le⟩

/-- The clock and the arguments of an operation are in range: readings up to `2 ^ 52`
milliseconds, and a lease override that is a `time.Duration`. -/
structure Operation.InRange (op : Operation) : Prop where
  readings : ∀ t ∈ op.readings, -(2 ^ 52) ≤ t ∧ t ≤ 2 ^ 52
  posts : op.PostsWaiting
  override : ∀ clock req, op = .claim clock req → req.leaseDuration < 2 ^ 63

/-! ## Section 2: Claims and renewals -/

section Rows

variable {policy : LeasePolicy} {base : Int} {row new : MessageRow}

theorem baseLeaseMs_range (hacc : policy.Accepted) {leaseDuration : Int}
    (hdur : leaseDuration < 2 ^ 63) :
    0 ≤ baseLeaseMs policy leaseDuration ∧ baseLeaseMs policy leaseDuration < 2 ^ 44 := by
  unfold baseLeaseMs
  split
  · exact milliseconds_range (by omega) hdur
  · exact milliseconds_range (Int.le_of_lt hacc.baseLease_pos) (asDuration_range _).2

/-- A claim opens the account. -/
theorem leaseAccount_claimRow (hacc : policy.Accepted) {leaseDuration nowMs : Int}
    (hdur : leaseDuration < 2 ^ 63) (hnow : -(2 ^ 52) ≤ nowMs ∧ nowMs ≤ 2 ^ 52)
    (attemptId workerId : String) (updatedAt : Int) (row : MessageRow) :
    LeaseAccount policy (baseLeaseMs policy leaseDuration)
      (claimRow attemptId workerId (claimRuntime policy leaseDuration nowMs) updatedAt row) := by
  have hbase := baseLeaseMs_range hacc hdur
  have hruntime : (claimRuntime policy leaseDuration nowMs).leaseStartedAt = nowMs ∧
      (claimRuntime policy leaseDuration nowMs).leaseExpiry =
        int64 (nowMs + baseLeaseMs policy leaseDuration) := by
    unfold claimRuntime baseLeaseMs
    split <;> exact ⟨rfl, rfl⟩
  -- A clock below 2 ^ 52 leaves room for any lease.
  have hsum : int64 (nowMs + baseLeaseMs policy leaseDuration) =
      nowMs + baseLeaseMs policy leaseDuration := int64_eq_self (by omega) (by omega)
  refine ⟨⟨nowMs, ?_, ?_, hnow⟩, hbase.1, hbase.2, Int.le_refl 0, hacc.maxExtension_range.1,
    fun hpos => Int.le_of_lt hpos⟩
  · simp only [claimRow, hruntime.1]
  · simp only [claimRow, hruntime.2, hsum, Int.add_zero]

theorem LeaseAccount.expiry_range (h : LeaseAccount policy base row) (hacc : policy.Accepted) :
    -(2 ^ 62) ≤ row.leaseExpiry.getD 0 ∧ row.leaseExpiry.getD 0 < 2 ^ 62 := by
  obtain ⟨started, -, hexpiry, hlo, hhi⟩ := h.expiry
  have hbase := h.base_nonneg
  have hbase' := h.base_lt
  have hused := h.used_nonneg
  have hused' := h.used_le
  have hmax := hacc.maxExtension_range.2
  rw [hexpiry, Option.getD_some]
  omega

/-- A granted extension is entered on both sides of the account. -/
theorem LeaseAccount.extended (h : LeaseAccount policy base row) (hacc : policy.Accepted)
    {requested : Int} {runtime : LeaseRuntime}
    (hextend : extendLease (some policy) (row.leaseExpiry.getD 0) row.leaseExtensionUsed requested =
      .ok runtime)
    (hstarted : new.leaseStartedAt = row.leaseStartedAt)
    (hexpiry : new.leaseExpiry = some runtime.leaseExpiry)
    (hused : new.leaseExtensionUsed = runtime.leaseExtensionUsed)
    (hcount : 0 < policy.maxRenewals → new.leaseRenewalCount ≤ policy.maxRenewals) :
    LeaseAccount policy base new := by
  obtain ⟨granted, hpos, hle, hexp, hext⟩ :=
    extendLease_ok hacc (h.expiry_range hacc) h.used_nonneg hextend
  obtain ⟨started, hs, he, hrange⟩ := h.expiry
  have hnonneg := h.used_nonneg
  rw [he, Option.getD_some] at hexp
  refine ⟨⟨started, hstarted.trans hs, ?_, hrange⟩, h.base_nonneg, h.base_lt, by omega, by omega,
    hcount⟩
  rw [hexpiry, hexp, hused, hext]
  congr 1
  omega

/-- A renewal that extends nothing leaves the account alone. -/
theorem LeaseAccount.same (h : LeaseAccount policy base row)
    (hstarted : new.leaseStartedAt = row.leaseStartedAt)
    (hexpiry : new.leaseExpiry = some (row.leaseExpiry.getD 0))
    (hused : new.leaseExtensionUsed = row.leaseExtensionUsed)
    (hcount : new.leaseRenewalCount = row.leaseRenewalCount) : LeaseAccount policy base new := by
  obtain ⟨started, hs, he, hrange⟩ := h.expiry
  refine ⟨⟨started, hstarted.trans hs, ?_, hrange⟩, h.base_nonneg, h.base_lt, ?_, ?_, ?_⟩
  · rw [hexpiry, he, hused]
    rfl
  · rw [hused]
    exact h.used_nonneg
  · rw [hused]
    exact h.used_le
  · rw [hcount]
    exact h.renewals_le

end Rows

/-! ## Section 3: Runs -/

/-- Every RUNNING row with an accepted policy keeps its account. -/
def Accounted (base : Nat → Int) (db : Database) : Prop :=
  ∀ e ∈ db.messages.rows, e.2.state = .running →
    ∀ policy, e.2.metadata.leasePolicy = some policy → policy.Accepted →
      LeaseAccount policy (base e.1) e.2

section Runs

variable {adds : Additions} {base : Nat → Int} {db db' : Database}
  {event : Option (Nat × RowEvent)}

theorem Accounted.change (h : Accounted base db)
    (hadds : ∀ m, adds.message m → m.state = .invisible ∨ m.state = .pending)
    (hevent : Unleased event) (hchange : Change adds db db' event) : Accounted base db' := by
  rintro ⟨i, row⟩ hmem hrun
  rcases hchange.running_origin hevent hmem hrun with hold | ⟨_, _, m, _, _, _, hnew, rfl⟩
  · exact h _ hold hrun
  · have hstate : m.state = .running := hrun
    rcases hadds m hnew with hw | hw <;> rw [hstate] at hw <;> cases hw

/-- Rewriting one row concerns its account only. -/
theorem Accounted.updated {base' : Nat → Int} {i : Nat} {old new : MessageRow}
    (h : Accounted base db) (hupd : RowUpdated db db' i old new)
    (hother : ∀ j, j ≠ i → base' j = base j)
    (hnew : ∀ policy, new.metadata.leasePolicy = some policy → policy.Accepted →
      LeaseAccount policy (base' i) new) : Accounted base' db' := by
  rintro ⟨j, row⟩ hmem hrun policy hpolicy hacc
  rw [hupd.rows] at hmem
  rcases Table.mem_setRow.mp hmem with ⟨hold, hne⟩ | ⟨heq, -⟩
  · rw [hother j hne]
    exact h _ hold hrun policy hpolicy hacc
  · cases heq
    exact hnew policy hpolicy hacc

theorem Accounted.claim {clock : Readings} {req : ClaimRequest}
    {claimed : Option (Nat × MessageRow)} (h : Accounted base db)
    (hclock : -(2 ^ 52) ≤ clock 3 ∧ clock 3 ≤ 2 ^ 52) (hdur : req.leaseDuration < 2 ^ 63)
    (hclaim : claimMessageWithLeaseDuration db clock req = .ok (db', claimed)) :
    Accounted (match claimed.bind fun e => e.2.metadata.leasePolicy.map fun policy =>
        (e.1, baseLeaseMs policy req.leaseDuration) with
      | some (i, b) => Function.update base i b
      | none => base) db' := by
  rcases claimMessageWithLeaseDuration_effect hclaim with
    ⟨rfl, rfl⟩ | ⟨_, i, old, policy, -, -, hclaimed, rfl⟩
  · exact h
  have hpolicy := hclaimed.leasePolicy
  simp only [Option.bind_some, claimRow, hpolicy, Option.map_some]
  refine h.updated hclaimed.updated (fun j hj => Function.update_of_ne hj _ _)
    fun other hother hacc => ?_
  have hsame : other = policy := Option.some.inj (hother.symm.trans hpolicy)
  rw [hsame, Function.update_self]
  exact leaseAccount_claimRow (hsame ▸ hacc) hdur hclock _ _ _ _

theorem Accounted.extend {clock : Readings} {queueName messageId attemptId workerId : String}
    {extensionMs remaining : Int} (h : Accounted base db)
    (hext : extendMessageLease db clock queueName messageId attemptId workerId extensionMs =
      .ok (db', remaining)) : Accounted base db' := by
  obtain ⟨i, old, runtime, hown, hlimit, hextend, hupd⟩ := extendMessageLease_effect hext
  refine h.updated hupd (fun _ _ => rfl) fun policy hpolicy hacc => ?_
  have hpolicy' : old.metadata.leasePolicy = some policy := hpolicy
  rw [hpolicy'] at hextend hlimit
  refine (h _ hupd.mem hown.state policy hpolicy' hacc).extended hacc hextend rfl rfl rfl ?_
  intro hpos
  simp only [renewalLimitReached, Option.any_some, hpos, decide_true, Bool.true_and,
    decide_eq_false_iff_not] at hlimit
  show old.leaseRenewalCount + 1 ≤ policy.maxRenewals
  omega

theorem Accounted.heartbeat {clock : Readings} {queueName messageId attemptId workerId : String}
    {result : MessageState × Int} (h : Accounted base db)
    (hbeat : heartbeatMessage db clock queueName messageId attemptId workerId =
      .ok (db', result)) : Accounted base db' := by
  obtain ⟨i, old, expiry, used, renewals, hown, hupd, hcases⟩ := heartbeatMessage_effect hbeat
  refine h.updated hupd (fun _ _ => rfl) fun policy hpolicy hacc => ?_
  have hpolicy' : old.metadata.leasePolicy = some policy := hpolicy
  have hold := h _ hupd.mem hown.state policy hpolicy' hacc
  rcases hcases with ⟨hextends, runtime, hextend, rfl, rfl, rfl⟩ | ⟨-, rfl, rfl, rfl⟩
  · rw [hpolicy'] at hextend hextends
    refine hold.extended hacc hextend rfl rfl rfl fun hpos => ?_
    simp only [heartbeatExtends, Bool.and_eq_true, Bool.or_eq_true, decide_eq_true_eq] at hextends
    show old.leaseRenewalCount + 1 ≤ policy.maxRenewals
    omega
  · exact hold.same rfl rfl rfl rfl

/-- **Step lemma**: operations in range keep every account. -/
theorem Accounted.step {l : Ledger} {op : Operation} (h : Accounted l.base l.system.db)
    (hwf : WellFormed l.system) (hop : op.InRange) :
    Accounted (l.step op).base (l.step op).system.db := by
  have hidle : Unleased (l.system.event op) → Accounted l.base (l.system.step op).db :=
    fun hevent => (step_changes hwf op).preserves_when (P := Accounted l.base)
      (fun _ h => by cases h)
      (fun _ _ _ hevent hinv hchange => hinv.change (fun _ => hop.posts.additions) hevent hchange)
      hevent h
  cases op with
  | claim clock req =>
    simp only [Ledger.step, System.step, Ledger.granted]
    cases hclaim : claimMessageWithLeaseDuration l.system.db clock req with
    | error _ => exact h
    | ok result =>
      have hnext := h.claim (hop.readings (clock 3) (by simp [Operation.readings]))
        (hop.override clock req rfl) hclaim
      rcases result with ⟨db', _ | ⟨i, row⟩⟩ <;> exact hnext
  | extend clock queueName messageId attemptId workerId extensionMs =>
    simp only [Ledger.step, System.step, Ledger.granted]
    cases hext : extendMessageLease l.system.db clock queueName messageId attemptId workerId
        extensionMs with
    | error _ => exact h
    | ok result => exact h.extend hext
  | heartbeat clock queueName messageId attemptId workerId =>
    simp only [Ledger.step, System.step, Ledger.granted]
    cases hbeat : heartbeatMessage l.system.db clock queueName messageId attemptId workerId with
    | error _ => exact h
    | ok result => exact h.heartbeat hbeat
  | acknowledge | nack | reclaim | retryDLQ =>
    exact hidle (unleased_touched _ _ (by simp) (by simp))
  | _ => exact hidle (fun _ h => by cases h)

theorem system_ledger (ops : List Operation) : (Ledger.run ops).system = System.run ops := by
  induction ops using List.reverseRecOn with
  | nil => rfl
  | append_singleton ops op ih =>
    simp only [Ledger.run, System.run, runFrom_concat] at ih ⊢
    rw [← ih]
    rfl

theorem accounted_run (ops : List Operation) (hops : ∀ op ∈ ops, op.InRange) :
    Accounted (Ledger.run ops).base (Ledger.run ops).system.db := by
  induction ops using List.reverseRecOn with
  | nil => exact fun e he => absurd he List.not_mem_nil
  | append_singleton ops op ih =>
    have hbefore := ih fun o ho => hops o (List.mem_append_left _ ho)
    rw [Ledger.run, runFrom_concat]
    refine hbefore.step ?_ (hops op (List.mem_append_right _ (List.mem_singleton_self op)))
    have hwf := wellFormed_run ops
    rwa [← system_ledger] at hwf

/-- The owner's heartbeat goes through: when it wants to extend the lease, the budget allows it. -/
theorem Accounted.heartbeat_isOk {clock : Readings}
    {queueName messageId attemptId workerId : String} {i : Nat} {row : MessageRow}
    (h : Accounted base db) (hmem : (i, row) ∈ db.messages.rows)
    (hvalid : validateLeasePolicy row.metadata.leasePolicy = .ok ())
    (hown : Owns queueName messageId attemptId workerId (clock 0) row) :
    ∃ result, heartbeatMessage db clock queueName messageId attemptId workerId = .ok result := by
  have hfind := find?_owned hmem hown
  simp only [heartbeatMessage, hfind]
  cases hpolicy : row.metadata.leasePolicy with
  | none => exact ⟨_, rfl⟩
  | some policy =>
    split
    · rename_i hextends
      have hacc := accepted_of_validateLeasePolicy (hpolicy ▸ hvalid)
      have hrow := h _ hmem hown.state policy hpolicy hacc
      simp only [heartbeatExtends, Bool.and_eq_true, Option.any_eq_true, decide_eq_true_eq]
        at hextends
      -- The heartbeat extends by the policy's step while some of its budget is left.
      obtain ⟨⟨-, step, hstep, hpos⟩, limit, hlimit, hleft⟩ := hextends
      have hvisible := hacc.extendStep_visible (by rwa [hstep])
      obtain ⟨runtime, hruntime⟩ := extendLease_isOk hacc (hrow.expiry_range hacc) hrow.used_nonneg
        (by rwa [hlimit]) hvisible
      rw [Option.bind_some, hruntime]
      exact ⟨_, rfl⟩
    · exact ⟨_, rfl⟩

end Runs

/-- **Lease budget**: in every run in range, every RUNNING row with an accepted policy is within
its budget, and the heartbeat of its owner does not fail. -/
theorem leaseBudget (ops : List Operation) (hops : ∀ op ∈ ops, op.InRange) :
    let l := Ledger.run ops
    ∀ e ∈ l.system.db.messages.rows,
      validateLeasePolicy e.2.metadata.leasePolicy = .ok () →
        (e.2.state = .running → ∀ policy, e.2.metadata.leasePolicy = some policy →
          WithinBudget policy (l.base e.1) e.2) ∧
        ∀ (clock : Readings) (queueName messageId attemptId workerId : String),
          Owns queueName messageId attemptId workerId (clock 0) e.2 →
          ∃ result, heartbeatMessage l.system.db clock queueName messageId attemptId workerId =
            .ok result := by
  intro l e hmem hvalid
  have hacc := accounted_run ops hops
  refine ⟨fun hrun policy hpolicy => ?_, fun clock q m a w hown => ?_⟩
  · have haccepted := accepted_of_validateLeasePolicy (hpolicy ▸ hvalid)
    exact (hacc e hmem hrun policy hpolicy haccepted).withinBudget haccepted
  · exact hacc.heartbeat_isOk hmem hvalid hown

/-- A message whose budget of 25 ms is spent by two heartbeats and an extension, rejected and
claimed again with a lease override. -/
def budgetSpent : List Operation :=
  let policy : LeasePolicy :=
    ⟨some ⟨0, 50000000⟩, some ⟨0, 25000000⟩, none, some ⟨0, 10000000⟩, 3⟩
  [.createQueue "jobs" {},
   .enqueue (fun _ => 0) "jobs" ⟨"m", some ⟨.pending, 3, 3, 0, none, some policy⟩⟩,
   .claim (fun _ => 100) ⟨"jobs", "w", "a", "", 0, 0, "g", "", generatedAttemptId_ne⟩,
   .heartbeat (fun _ => 110) "jobs" "m" "a" "w",
   .heartbeat (fun _ => 120) "jobs" "m" "a" "w",
   .extend (fun _ => 130) "jobs" "m" "a" "w" (2 ^ 63 - 1),
   .nack (fun _ => 140) "jobs" "m" "a" "w",
   .claim (fun _ => 150) ⟨"jobs", "w", "b", "", 70000000, 0, "g", "", generatedAttemptId_ne⟩,
   .heartbeat (fun _ => 160) "jobs" "m" "b" "w"]

theorem inRange_budgetSpent : ∀ op ∈ budgetSpent, op.InRange := by
  intro op hop
  simp only [budgetSpent, List.mem_cons, List.not_mem_nil, or_false] at hop
  rcases hop with rfl | rfl | rfl | rfl | rfl | rfl | rfl | rfl | rfl <;>
    constructor <;> simp [Operation.PostsWaiting, Operation.readings]

/-- The run ends with the message RUNNING, ten milliseconds of its budget used. -/
theorem leaseBudget_spent :
    ((Ledger.run budgetSpent).system.db.messages.rows.map fun e =>
        (e.2.state, e.2.leaseStartedAt, e.2.leaseExpiry, e.2.leaseExtensionUsed)) =
      [(.running, some 150, some 230, 10)] ∧
    ∀ e ∈ (Ledger.run budgetSpent).system.db.messages.rows, e.2.state = .running →
      ∀ policy, e.2.metadata.leasePolicy = some policy →
        WithinBudget policy ((Ledger.run budgetSpent).base e.1) e.2 := by
  have hvalid : ∀ e ∈ (Ledger.run budgetSpent).system.db.messages.rows,
      validateLeasePolicy e.2.metadata.leasePolicy = .ok () := by decide
  exact ⟨by decide, fun e hmem =>
    (leaseBudget budgetSpent inRange_budgetSpent e hmem (hvalid e hmem)).1⟩

end Nzovu.Repository
