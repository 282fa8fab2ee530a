import Nzovu.Repository.Exhaustion
import Nzovu.Repository.LeaseBudget

/-!
# Leases that are Alive when They are Granted

A claim or a heartbeat at time `t` writes two expiries, in milliseconds. A duration below one
millisecond is truncated to none, and then the attempt has already expired at `t`: the reclaimer
may take the message in the same instant.

- Section 1: attempts that are alive.
- Section 2: heartbeats.
- Section 3: claims.
-/

namespace Nzovu.Repository

open Nzovu.Foundation

/-! ## Section 1: Attempts that are alive -/

/-- At `t` neither expiry of the row has passed, and a reclaim changes nothing. -/
structure Alive (db : Database) (t : Int) (row : MessageRow) : Prop where
  lease : leaseExpired t row = false
  heartbeat : heartbeatExpired t row = false
  reclaim : ∀ (clock : Readings) (attemptId : String), clock 1 = t →
    ∃ err, reclaimExpiredMessage db clock row.queueName ⟨row.messageId, attemptId⟩ = .error err

/-- Two rows of one queue with one message id are the same row. -/
theorem eq_of_addressed_rows {db : Database} {d e : Nat × MessageRow} (hd : d ∈ db.messages.rows)
    (he : e ∈ db.messages.rows) (hqueue : d.2.queueName = e.2.queueName)
    (hmessage : d.2.messageId = e.2.messageId) : d = e :=
  Table.eq_of_key hd he (by rw [MessageRow.uniqueKey, MessageRow.uniqueKey, hqueue, hmessage])

/-- The expiries decide, since the reclaimer looks at nothing else. -/
theorem alive_iff {db : Database} {t : Int} {i : Nat} {row : MessageRow}
    (hmem : (i, row) ∈ db.messages.rows) :
    Alive db t row ↔ leaseExpired t row = false ∧ heartbeatExpired t row = false := by
  constructor
  · exact fun h => ⟨h.lease, h.heartbeat⟩
  · rintro ⟨hlease, hheartbeat⟩
    refine ⟨hlease, hheartbeat, fun clock attemptId ht => ?_⟩
    cases hreclaim : reclaimExpiredMessage db clock row.queueName ⟨row.messageId, attemptId⟩ with
    | error err => exact ⟨err, rfl⟩
    | ok result =>
      obtain ⟨metadata, j, old, -, hrec, houtcome, -⟩ := reclaimExpiredMessage_effect hreclaim
      have hold : (j, old) ∈ db.messages.rows := by
        rcases houtcome with ⟨-, h⟩ | ⟨-, ⟨-, -, h⟩ | ⟨-, -, h⟩ | ⟨-, h⟩⟩ <;> exact h.mem
      have hsame := eq_of_addressed_rows hold hmem hrec.queue hrec.message
      have hexpired := hrec.expired
      rw [Prod.mk.inj hsame |>.2, anyExpired, ht, hlease, hheartbeat] at hexpired
      cases hexpired

/-- A positive duration of less than a millisecond. -/
def SubMillisecond (d : Int) : Prop := 0 < d ∧ milliseconds d = 0

instance (d : Int) : Decidable (SubMillisecond d) :=
  inferInstanceAs (Decidable (0 < d ∧ milliseconds d = 0))

theorem milliseconds_nonneg {d : Int} (h : 0 ≤ d) : 0 ≤ milliseconds d :=
  Int.tdiv_nonneg h (by decide)

/-- An instant of the clock, `time.Time.UnixMilli`. -/
def IsInstant (t : Int) : Prop := -(2 ^ 63) ≤ t ∧ t < 2 ^ 63

instance (t : Int) : Decidable (IsInstant t) :=
  inferInstanceAs (Decidable (-(2 ^ 63) ≤ t ∧ t < 2 ^ 63))

/-- An expiry that lies ahead by at least a millisecond, unless the sum wraps. -/
theorem int64_add_range {t ms : Int} (ht : IsInstant t) (hms : 0 ≤ ms ∧ ms < 2 ^ 44) :
    (t + ms < 2 ^ 63 ∧ int64 (t + ms) = t + ms) ∨ (2 ^ 63 ≤ t + ms ∧ int64 (t + ms) < 0) := by
  obtain ⟨hlo, hhi⟩ := ht
  by_cases hwraps : t + ms < 2 ^ 63
  · exact .inl ⟨hwraps, int64_eq_self (by omega) hwraps⟩
  · right
    refine ⟨by omega, ?_⟩
    have hsub : int64 (t + ms) = t + ms - 2 ^ 64 := by
      have hshift : int64 (t + ms) = int64 (t + ms - 2 ^ 64) := by
        exact (Int.sub_bmod_right (t + ms) (2 ^ 64)).symm
      rw [hshift]
      exact int64_eq_self (by omega) (by omega)
    omega

/-! ## Section 2: Heartbeats -/

/-- A granted extension moves the expiry. -/
theorem lt_leaseExpiry_of_extendLease {policy : Option LeasePolicy} {expiry used requested : Int}
    {runtime : LeaseRuntime} (h : extendLease policy expiry used requested = .ok runtime) :
    expiry < runtime.leaseExpiry := by
  simp only [extendLease] at h
  split at h
  · cases h
  · split at h
    · cases h
    · split at h
      · cases h
      · rename_i hadvances
        cases h
        exact Int.not_le.mp hadvances

/-- A heartbeat expires at once exactly when its timeout is less than a millisecond. -/
theorem heartbeatExpired_next_iff {policy : LeasePolicy} {t : Int} {row : MessageRow}
    (ht : IsInstant t) (hrow : row.heartbeatExpiry = nextHeartbeatExpiry (some policy) t) :
    heartbeatExpired t row = true ↔
      SubMillisecond (asDuration policy.heartbeatTimeout) ∧ 0 < t := by
  rw [heartbeatExpired, hrow, nextHeartbeatExpiry, Option.bind_some]
  cases htimeout : policy.heartbeatTimeout with
  | none => simp [asDuration, SubMillisecond]
  | some timeout =>
    have hrange := asDuration_range (some timeout)
    simp only [asDuration] at hrange ⊢
    by_cases hpos : 0 < timeout.asDuration
    · have hms := milliseconds_range (Int.le_of_lt hpos) hrange.2
      rw [if_pos hpos]
      simp only [Option.any_some, Bool.and_eq_true, decide_eq_true_eq, SubMillisecond, hpos,
        true_and]
      -- when the sum wraps, the expiry is negative and counts as none
      rcases int64_add_range ht hms with ⟨-, hsum⟩ | ⟨hwraps, hneg⟩
      · rw [hsum]
        omega
      · have hhi := ht.2
        omega
    · simp [hpos, SubMillisecond]

/-- After a heartbeat the attempt is alive, unless its timeout is less than a millisecond. -/
theorem alive_heartbeat_iff {db db' : Database} {clock : Readings}
    {queueName messageId attemptId workerId : String} {state : MessageState} {remaining : Int}
    {i : Nat} {row : MessageRow} {policy : LeasePolicy} (hclock : IsInstant (clock 0))
    (h : heartbeatMessage db clock queueName messageId attemptId workerId =
      .ok (db', state, remaining))
    (hmem : (i, row) ∈ db'.messages.rows) (hqueue : row.queueName = queueName)
    (hmessage : row.messageId = messageId) (hpolicy : row.metadata.leasePolicy = some policy) :
    Alive db' (clock 0) row ↔
      ¬ (SubMillisecond (asDuration policy.heartbeatTimeout) ∧ 0 < clock 0) := by
  obtain ⟨j, old, expiry, used, renewals, hown, hupdated, hexpiry⟩ := heartbeatMessage_effect h
  -- the row is the one the heartbeat has written
  obtain ⟨rfl, rfl⟩ := Prod.mk.inj (eq_of_addressed_rows hmem hupdated.mem_new
    (hqueue.trans hown.queue.symm) (hmessage.trans hown.message.symm))
  have hlive : clock 0 < old.leaseExpiry.getD 0 := by
    have hlease := hown.lease
    unfold leaseLive at hlease
    cases hold : old.leaseExpiry with
    | none => simp [hold] at hlease
    | some t => simpa [hold] using hlease
  have hlater : clock 0 < expiry := by
    rcases hexpiry with ⟨-, runtime, hextend, rfl, -⟩ | ⟨-, rfl, -⟩
    · exact Int.lt_trans hlive (lt_leaseExpiry_of_extendLease hextend)
    · exact hlive
  have hlease : leaseExpired (clock 0) (heartbeatRow (clock 0)
      (nextHeartbeatExpiry old.metadata.leasePolicy (clock 0)) expiry used renewals old) =
        false := by
    simp only [leaseExpired, heartbeatRow, Option.any_some, decide_eq_false_iff_not, Int.not_le]
    exact hlater
  have hpolicy' : old.metadata.leasePolicy = some policy := hpolicy
  have hnext : (heartbeatRow (clock 0) (nextHeartbeatExpiry old.metadata.leasePolicy (clock 0))
      expiry used renewals old).heartbeatExpiry = nextHeartbeatExpiry (some policy) (clock 0) := by
    rw [← hpolicy']
    rfl
  rw [alive_iff hmem, ← heartbeatExpired_next_iff hclock hnext]
  simp [hlease]

/-! ## Section 3: Claims -/

/-- The part of `GetQueueMessage` that decodes the lease duration; `0` stands for none. -/
def decodeLeaseDuration : Option Duration → Except StorageError Int
  | none => .ok 0
  | some d =>
    if d.isValid = false then .error ⟨.invalidArgument, "invalid lease duration"⟩
    else if d.asDuration ≤ 0 then
      .error ⟨.invalidArgument, "lease duration must be greater than zero"⟩
    else .ok d.asDuration

theorem decodeLeaseDuration_range {requested : Option Duration} {leaseDuration : Int}
    (h : decodeLeaseDuration requested = .ok leaseDuration) :
    0 ≤ leaseDuration ∧ leaseDuration < 2 ^ 63 := by
  unfold decodeLeaseDuration at h
  split at h
  · cases h
    decide
  · rename_i d
    have hrange := asDuration_range (some d)
    split at h
    · cases h
    · split at h
      · cases h
      · cases h
        exact ⟨by omega, hrange.2⟩

/-- The rule of an accepted policy about milliseconds of its base lease. -/
theorem baseLease_milliseconds_pos {policy : LeasePolicy}
    (h : validateLeasePolicy (some policy) = .ok ()) :
    0 < milliseconds (asDuration policy.baseLease) := by
  have hall : ∀ rule ∈ leasePolicyRules policy, rule.1 = false := by
    simp only [validateLeasePolicy] at h
    split at h
    · cases h
    · rename_i hnone
      simpa using List.find?_eq_none.mp hnone
  simp only [leasePolicyRules, List.forall_mem_cons] at hall
  obtain ⟨-, -, -, -, -, hmilliseconds, -⟩ := hall
  simpa using hmilliseconds

/-- The heartbeat of a claim does not expire at once: `0` stands for no heartbeat. -/
theorem heartbeatExpired_claimRow {policy : LeasePolicy} {leaseDuration t updatedAt : Int}
    {attemptId workerId : String} {row : MessageRow} (ht : IsInstant t) :
    heartbeatExpired t (claimRow attemptId workerId (claimRuntime policy leaseDuration t) updatedAt
      row) = false := by
  have hruntime : (claimRuntime policy leaseDuration t).heartbeatExpiry =
      if 0 < milliseconds (asDuration policy.heartbeatTimeout) then
        int64 (t + milliseconds (asDuration policy.heartbeatTimeout))
      else 0 := by
    unfold claimRuntime
    split <;> rfl
  simp only [heartbeatExpired, claimRow, hruntime, Option.any_some, Bool.and_eq_false_iff,
    decide_eq_false_iff_not]
  split
  · rename_i hpos
    have hrange := asDuration_range policy.heartbeatTimeout
    have hnonneg : 0 ≤ asDuration policy.heartbeatTimeout := by
      by_contra hneg
      have hopposite := milliseconds_nonneg (d := -asDuration policy.heartbeatTimeout) (by omega)
      have hnegate : milliseconds (-asDuration policy.heartbeatTimeout) =
          -milliseconds (asDuration policy.heartbeatTimeout) := Int.neg_tdiv ..
      omega
    rcases int64_add_range ht (milliseconds_range hnonneg hrange.2) with ⟨-, hsum⟩ | ⟨-, hneg⟩
    · right
      omega
    · left
      omega
  · left
    omega

/-- Right after a claim the attempt is alive, unless the lease duration of the request is less than
a millisecond, or the expiry leaves the range of `int64`. -/
theorem alive_claim_iff {db db' : Database} {clock : Readings} {req : ClaimRequest} {i : Nat}
    {row : MessageRow} {policy : LeasePolicy} {requested : Option Duration}
    (hclock : IsInstant (clock 3))
    (hrequested : decodeLeaseDuration requested = .ok req.leaseDuration)
    (h : claimMessageWithLeaseDuration db clock req = .ok (db', some (i, row)))
    (hpolicy : row.metadata.leasePolicy = some policy)
    (hvalid : validateLeasePolicy (some policy) = .ok ()) :
    Alive db' (clock 3) row ↔
      ¬ SubMillisecond req.leaseDuration ∧
        clock 3 + baseLeaseMs policy req.leaseDuration < 2 ^ 63 := by
  rcases claimMessageWithLeaseDuration_effect h with ⟨hnone, -⟩ | heffect
  · cases hnone
  obtain ⟨metadata, j, old, policy', -, -, hclaimed, hrow⟩ := heffect
  cases hrow
  obtain rfl : policy' = policy := Option.some.inj (hclaimed.leasePolicy.symm.trans hpolicy)
  have hacc := accepted_of_validateLeasePolicy hvalid
  have hduration := decodeLeaseDuration_range hrequested
  have hbase := baseLeaseMs_range hacc hduration.2
  rw [alive_iff hclaimed.updated.mem_new]
  simp only [heartbeatExpired_claimRow hclock, and_true]
  have hexpiry : (claimRuntime policy' req.leaseDuration (clock 3)).leaseExpiry =
      int64 (clock 3 + baseLeaseMs policy' req.leaseDuration) := by
    unfold claimRuntime baseLeaseMs
    split <;> rfl
  have hvisible : SubMillisecond req.leaseDuration ↔ baseLeaseMs policy' req.leaseDuration = 0 := by
    unfold SubMillisecond baseLeaseMs
    split
    · rename_i hpos
      simp [hpos]
    · have hpositive := baseLease_milliseconds_pos hvalid
      constructor
      · rintro ⟨hpos, -⟩
        omega
      · intro hzero
        omega
  simp only [leaseExpired, claimRow, hexpiry, Option.any_some, decide_eq_false_iff_not, Int.not_le,
    hvisible]
  rcases int64_add_range hclock hbase with ⟨hsum, hexact⟩ | ⟨hwraps, hneg⟩
  · rw [hexact]
    omega
  · have hlo := hclock.1
    omega

/-- **Keeping a lease alive**: a heartbeat at `t` leaves the attempt alive unless its timeout is
less than a millisecond, and a claim at `t` unless its lease duration is. -/
theorem keepsAlive_iff {db db' : Database} {clock : Readings} {i : Nat} {row : MessageRow}
    {policy : LeasePolicy} :
    (∀ {queueName messageId attemptId workerId : String} {state : MessageState} {remaining : Int},
      IsInstant (clock 0) →
      heartbeatMessage db clock queueName messageId attemptId workerId =
        .ok (db', state, remaining) →
      (i, row) ∈ db'.messages.rows → row.queueName = queueName → row.messageId = messageId →
      row.metadata.leasePolicy = some policy →
        (Alive db' (clock 0) row ↔
          ¬ (SubMillisecond (asDuration policy.heartbeatTimeout) ∧ 0 < clock 0))) ∧
    (∀ {req : ClaimRequest} {requested : Option Duration},
      IsInstant (clock 3) → decodeLeaseDuration requested = .ok req.leaseDuration →
      claimMessageWithLeaseDuration db clock req = .ok (db', some (i, row)) →
      row.metadata.leasePolicy = some policy → validateLeasePolicy (some policy) = .ok () →
        (Alive db' (clock 3) row ↔ ¬ SubMillisecond req.leaseDuration ∧
          clock 3 + baseLeaseMs policy req.leaseDuration < 2 ^ 63)) :=
  ⟨alive_heartbeat_iff, alive_claim_iff⟩

/-- A message in its queue, with a base lease of 30 s, steps of 1 s and this heartbeat timeout. -/
def withTimeout (heartbeatTimeout : Duration) : List Operation :=
  [.createQueue "jobs" {},
   .enqueue (fun _ => 0) "jobs" ⟨"m", some ⟨.pending, 3, 3, 0, none, some
    ⟨some ⟨30, 0⟩, some ⟨10, 0⟩, some heartbeatTimeout, some ⟨1, 0⟩, 0⟩⟩⟩]

/-- The claim of the message. -/
def claimFor (leaseDuration : Int) : ClaimRequest :=
  ⟨"jobs", "w", "a", "", leaseDuration, 0, "g", "", generatedAttemptId_ne⟩

/-- Its row after the claim at 10 ms. -/
def claimedRow (heartbeatTimeout : Duration) (leaseDuration : Int) : MessageRow :=
  let policy : LeasePolicy :=
    ⟨some ⟨30, 0⟩, some ⟨10, 0⟩, some heartbeatTimeout, some ⟨1, 0⟩, 0⟩
  claimRow "a" "w" (claimRuntime policy leaseDuration 10) 10
    (newRow "jobs" "m" ⟨.pending, 3, 3, 0, none, some policy⟩ none 0 0)

theorem claim_withTimeout (heartbeatTimeout : Duration) (leaseDuration : Int) :
    ∃ db', claimMessageWithLeaseDuration (System.run (withTimeout heartbeatTimeout)).db
        (fun _ => 10) (claimFor leaseDuration) =
      .ok (db', some (1, claimedRow heartbeatTimeout leaseDuration)) :=
  ⟨_, rfl⟩

/-- Its row after a heartbeat at 20 ms. -/
def heartbeatenRow (heartbeatTimeout : Duration) : MessageRow :=
  let policy : LeasePolicy :=
    ⟨some ⟨30, 0⟩, some ⟨10, 0⟩, some heartbeatTimeout, some ⟨1, 0⟩, 0⟩
  heartbeatRow 20 (nextHeartbeatExpiry (some policy) 20) 31010 1000 1
    (claimedRow heartbeatTimeout 0)

theorem heartbeat_withTimeout {heartbeatTimeout : Duration}
    (h : heartbeatTimeout = ⟨5, 0⟩ ∨ heartbeatTimeout = ⟨0, 1⟩) :
    ∃ db' state remaining,
      heartbeatMessage
          (System.run (withTimeout heartbeatTimeout ++ [.claim (fun _ => 10) (claimFor 0)])).db
          (fun _ => 20) "jobs" "m" "a" "w" = .ok (db', state, remaining) ∧
        (1, heartbeatenRow heartbeatTimeout) ∈ db'.messages.rows := by
  rcases h with rfl | rfl
  · exact ⟨_, _, _, rfl, by decide⟩
  · exact ⟨_, _, _, rfl, by decide⟩

/-- A heartbeat timeout of 5 s, and a lease of 2 s for one claim. -/
theorem keepsAlive_seconds :
    (∃ db' state remaining,
      heartbeatMessage (System.run (withTimeout ⟨5, 0⟩ ++ [.claim (fun _ => 10) (claimFor 0)])).db
        (fun _ => 20) "jobs" "m" "a" "w" = .ok (db', state, remaining) ∧
      Alive db' 20 (heartbeatenRow ⟨5, 0⟩)) ∧
    ∃ db', claimMessageWithLeaseDuration (System.run (withTimeout ⟨5, 0⟩)).db (fun _ => 10)
        (claimFor 2000000000) = .ok (db', some (1, claimedRow ⟨5, 0⟩ 2000000000)) ∧
      Alive db' 10 (claimedRow ⟨5, 0⟩ 2000000000) := by
  constructor
  · obtain ⟨db', state, remaining, hbeat, hmem⟩ := heartbeat_withTimeout (.inl rfl)
    exact ⟨db', state, remaining, hbeat,
      (keepsAlive_iff.1 (by decide) hbeat hmem rfl rfl rfl).mpr (by decide)⟩
  · obtain ⟨db', hclaim⟩ := claim_withTimeout ⟨5, 0⟩ 2000000000
    have hdecode : decodeLeaseDuration (some ⟨2, 0⟩) = .ok (claimFor 2000000000).leaseDuration := by
      decide
    exact ⟨db', hclaim,
      (keepsAlive_iff.2 (by decide) hdecode hclaim rfl (by decide)).mpr (by decide)⟩

/-- A heartbeat timeout or a lease of one nanosecond ends the attempt at once. -/
theorem not_keepsAlive_nanosecond :
    (¬ ∀ (db db' : Database) (clock : Readings) (queueName messageId attemptId workerId : String)
      (state : MessageState) (remaining : Int) (i : Nat) (row : MessageRow) (policy : LeasePolicy),
      IsInstant (clock 0) →
      heartbeatMessage db clock queueName messageId attemptId workerId =
        .ok (db', state, remaining) →
      (i, row) ∈ db'.messages.rows → row.queueName = queueName → row.messageId = messageId →
      row.metadata.leasePolicy = some policy → validateLeasePolicy (some policy) = .ok () →
        Alive db' (clock 0) row) ∧
    ¬ ∀ (db db' : Database) (clock : Readings) (req : ClaimRequest) (i : Nat) (row : MessageRow)
      (policy : LeasePolicy) (requested : Option Duration),
      IsInstant (clock 3) → decodeLeaseDuration requested = .ok req.leaseDuration →
      claimMessageWithLeaseDuration db clock req = .ok (db', some (i, row)) →
      row.metadata.leasePolicy = some policy → validateLeasePolicy (some policy) = .ok () →
        Alive db' (clock 3) row := by
  constructor
  · intro h
    obtain ⟨db', state, remaining, hbeat, hmem⟩ := heartbeat_withTimeout (.inr rfl)
    have halive := h _ _ _ _ _ _ _ _ _ _ _ _ (by decide) hbeat hmem rfl rfl rfl (by decide)
    exact absurd halive.heartbeat (by decide)
  · intro h
    obtain ⟨db', hclaim⟩ := claim_withTimeout ⟨5, 0⟩ 1
    have hdecode : decodeLeaseDuration (some ⟨0, 1⟩) = .ok (claimFor 1).leaseDuration := by decide
    have halive := h _ _ _ _ _ _ _ _ (by decide) hdecode hclaim rfl (by decide)
    exact absurd halive.lease (by decide)

end Nzovu.Repository
