import Nzovu.Background.Reclaim
import Nzovu.Repository.CounterExactness
import Nzovu.Repository.Exhaustion
import Nzovu.Repository.LeaseBudget
import Nzovu.Repository.Scheduled

/-!
# The State of a Queue

Translation of `GetQueueState` (`pkg/repository/implementation.go`): the number of messages in each
state, and the earliest instant at which a lease or a heartbeat of the queue expires or the
scheduled time of a waiting message comes.

- Section 1: the queries.
- Section 2: the earliest deadline of a database.
- Section 3: instants in every run.
- Section 4: the reported state in every run.
-/

namespace Nzovu.Repository

open Nzovu.Foundation
open Nzovu.Background

/-! ## Section 1: The queries -/

/-- `MIN(…)`, which ignores NULL. -/
def columnMin (column : MessageRow → Option Int) (rows : List (Nat × MessageRow)) : Option Int :=
  (rows.filterMap fun e => column e.2).min?

/-- The row of `BuildCountByStateQuery` for a state, and zero if there is none. -/
def countByState (db : Database) (queueName : String) (state : MessageState) : Int :=
  Table.tally db.messages.rows (MessageRow.countsAs queueName state)

/-- The `CASE` of `BuildFindEarliestDeadlineQuery`. -/
def leaseDeadline (row : MessageRow) : Option Int :=
  match row.heartbeatExpiry with
  | none => row.leaseExpiry
  | some heartbeat =>
    if 0 < heartbeat ∧ row.leaseExpiry.all (fun lease => lease ≤ 0 ∨ heartbeat < lease) = true then
      some heartbeat
    else
      row.leaseExpiry

/-- `BuildFindEarliestDeadlineQuery`. -/
def earliestExpiry (db : Database) (queueName : String) : Option Int :=
  columnMin leaseDeadline (db.messages.rows.filter fun e =>
    e.2.queueName = queueName && e.2.state = .running &&
      (e.2.leaseExpiry.isSome || e.2.heartbeatExpiry.isSome))

/-- A message that is not claimed yet. -/
def isWaiting (queueName : String) (row : MessageRow) : Bool :=
  row.queueName = queueName && (row.state = .pending || row.state = .invisible)

/-- The second query of `findEarliestDeadline`. -/
def earliestScheduled (db : Database) (queueName : String) : Option Int :=
  columnMin MessageRow.scheduledAt (db.messages.rows.filter fun e =>
    isWaiting queueName e.2 && e.2.scheduledAt.isSome)

/-- What `findEarliestDeadline` makes of the results, in milliseconds: zero stands for no deadline,
and results that are not positive are passed over. -/
def earlierDeadline (leaseExpiry scheduledAt : Option Int) : Option Int :=
  let earliestMs := (leaseExpiry.filter (0 < ·)).getD 0
  let earliestMs := match scheduledAt.filter (0 < ·) with
    | none => earliestMs
    | some scheduled =>
      if earliestMs = 0 ∨ scheduled < earliestMs then scheduled else earliestMs
  if earliestMs = 0 then none else some earliestMs

/-- `findEarliestDeadline`. -/
def findEarliestDeadline (db : Database) (queueName : String) : Option Int :=
  earlierDeadline (earliestExpiry db queueName) (earliestScheduled db queueName)

/-- `GetQueueStateResponse`. The map `StateCounts` has an entry for each state. -/
structure QueueState where
  stateCounts : MessageState → Int
  earliestDeadline : Option Int

/-- `GetQueueState`. -/
def getQueueState (db : Database) (queueName : String) : Except StorageError QueueState :=
  if queueName = "" then
    .error ⟨.invalidArgument, "queue name is required"⟩
  else
    match getQueueMetadata db queueName with
    | .error err => .error err
    | .ok _ => .ok ⟨countByState db queueName, findEarliestDeadline db queueName⟩

/-! ## Section 2: The earliest deadline -/

/-- The lease or the heartbeat of the message has expired, or its scheduled time has come. -/
def isDue (queueName : String) (nowMs : Int) (row : MessageRow) : Bool :=
  isExpired queueName nowMs row ||
    isWaiting queueName row && row.scheduledAt.any (· ≤ nowMs)

/-- The instants of a message are after the epoch: its lease while it runs, and its scheduled
time. -/
structure InstantsPositive (row : MessageRow) : Prop where
  lease : row.state = .running → ∃ expiry, row.leaseExpiry = some expiry ∧ 0 < expiry
  scheduled : ∀ t, row.scheduledAt = some t → 0 < t

section Deadlines

variable {column : MessageRow → Option Int} {rows : List (Nat × MessageRow)}

/-- A column is at most `t` in some row exactly when its minimum is. -/
theorem columnMin_le_iff {t : Int} :
    (columnMin column rows).any (· ≤ t) = true ↔
      ∃ e ∈ rows, (column e.2).any (· ≤ t) = true := by
  rw [columnMin]
  cases hmin : (rows.filterMap fun e => column e.2).min? with
  | none =>
    have hnil := List.min?_eq_none_iff.mp hmin
    simp only [List.filterMap_eq_nil_iff] at hnil
    simp only [Option.any_none, Bool.false_eq_true, false_iff]
    rintro ⟨e, he, hany⟩
    rw [hnil e he] at hany
    cases hany
  | some least =>
    obtain ⟨hmem, hleast⟩ := List.min?_eq_some_iff.mp hmin
    constructor
    · intro hle
      obtain ⟨e, he, hcolumn⟩ := List.mem_filterMap.mp hmem
      exact ⟨e, he, by rw [hcolumn]; exact hle⟩
    · rintro ⟨e, he, hany⟩
      obtain ⟨value, hvalue, hle⟩ := (Option.any_eq_true _ _).mp hany
      have hbound := hleast value (List.mem_filterMap.mpr ⟨e, he, hvalue⟩)
      simp only [decide_eq_true_eq] at hle
      simp only [Option.any_some, decide_eq_true_eq]
      exact Int.le_trans hbound hle

theorem columnMin_pos (h : ∀ e ∈ rows, ∀ value, column e.2 = some value → 0 < value) :
    (columnMin column rows).filter (0 < ·) = columnMin column rows := by
  rw [columnMin]
  cases hmin : (rows.filterMap fun e => column e.2).min? with
  | none => rfl
  | some least =>
    obtain ⟨e, he, hcolumn⟩ := List.mem_filterMap.mp (List.min?_eq_some_iff.mp hmin).1
    simp [h e he least hcolumn]

/-- The `CASE` is the earlier of the two expiries. -/
theorem leaseDeadline_le_iff {row : MessageRow} {expiry t : Int}
    (hlease : row.leaseExpiry = some expiry) (hpos : 0 < expiry) :
    (leaseDeadline row).any (· ≤ t) = true ↔ anyExpired t row = true := by
  cases hheartbeat : row.heartbeatExpiry with
  | none => simp [leaseDeadline, anyExpired, leaseExpired, heartbeatExpired, hheartbeat]
  | some heartbeat =>
    simp only [leaseDeadline, anyExpired, leaseExpired, heartbeatExpired, hheartbeat, hlease,
      Option.all_some, Option.any_some, Bool.or_eq_true, Bool.and_eq_true, decide_eq_true_eq]
    split
    · simp only [Option.any_some, decide_eq_true_eq]
      omega
    · simp only [Option.any_some, decide_eq_true_eq]
      omega

theorem leaseDeadline_pos {row : MessageRow} {expiry deadline : Int}
    (hlease : row.leaseExpiry = some expiry) (hpos : 0 < expiry)
    (h : leaseDeadline row = some deadline) : 0 < deadline := by
  have hexpiry : row.leaseExpiry = some deadline → 0 < deadline := by
    intro heq
    rw [hlease] at heq
    cases heq
    exact hpos
  simp only [leaseDeadline] at h
  split at h
  · exact hexpiry h
  · split at h
    next hcase =>
      cases h
      exact hcase.1
    next => exact hexpiry h

section Queue

variable {db : Database} {queueName : String}
  (hpositive : ∀ e ∈ db.messages.rows, InstantsPositive e.2)

include hpositive

/-- The earliest expiry has passed exactly when a message of the queue is expired. -/
theorem earliestExpiry_le_iff {t : Int}
    (hkept : ∀ e ∈ db.messages.rows, e.2.state = .running → e.2.deletedAt = none) :
    (earliestExpiry db queueName).any (· ≤ t) = true ↔
      ∃ e ∈ db.messages.rows, isExpired queueName t e.2 = true := by
  rw [earliestExpiry, columnMin_le_iff]
  constructor
  · rintro ⟨e, he, hle⟩
    obtain ⟨hmem, hselected⟩ := List.mem_filter.mp he
    simp only [Bool.and_eq_true, decide_eq_true_eq] at hselected
    obtain ⟨⟨hqueue, hrunning⟩, -⟩ := hselected
    obtain ⟨expiry, hlease, hpos⟩ := (hpositive e hmem).lease hrunning
    exact ⟨e, hmem, isExpired_iff.mpr ⟨hqueue, hrunning, (leaseDeadline_le_iff hlease hpos).mp hle,
      hkept e hmem hrunning⟩⟩
  · rintro ⟨e, hmem, hexpired⟩
    obtain ⟨hqueue, hrunning, hany, -⟩ := isExpired_iff.mp hexpired
    obtain ⟨expiry, hlease, hpos⟩ := (hpositive e hmem).lease hrunning
    -- a running message has a lease, so the query does not pass it over
    refine ⟨e, List.mem_filter.mpr ⟨hmem, ?_⟩, (leaseDeadline_le_iff hlease hpos).mpr hany⟩
    simp [hqueue, hrunning, hlease]

theorem earliestExpiry_pos :
    (earliestExpiry db queueName).filter (0 < ·) = earliestExpiry db queueName := by
  refine columnMin_pos fun e he deadline hdeadline => ?_
  obtain ⟨hmem, hselected⟩ := List.mem_filter.mp he
  simp only [Bool.and_eq_true, decide_eq_true_eq] at hselected
  obtain ⟨expiry, hlease, hpos⟩ := (hpositive e hmem).lease hselected.1.2
  exact leaseDeadline_pos hlease hpos hdeadline

omit hpositive in
/-- The earliest scheduled time has come exactly when that of a waiting message has. -/
theorem earliestScheduled_le_iff {t : Int} :
    (earliestScheduled db queueName).any (· ≤ t) = true ↔
      ∃ e ∈ db.messages.rows, isWaiting queueName e.2 = true ∧
        e.2.scheduledAt.any (· ≤ t) = true := by
  rw [earliestScheduled, columnMin_le_iff]
  constructor
  · rintro ⟨e, he, hle⟩
    obtain ⟨hmem, hselected⟩ := List.mem_filter.mp he
    exact ⟨e, hmem, (Bool.and_eq_true_iff.mp hselected).1, hle⟩
  · rintro ⟨e, hmem, hwaiting, hle⟩
    obtain ⟨t', ht', -⟩ := (Option.any_eq_true _ _).mp hle
    exact ⟨e, List.mem_filter.mpr ⟨hmem, by simp [hwaiting, ht']⟩, hle⟩

theorem earliestScheduled_pos :
    (earliestScheduled db queueName).filter (0 < ·) = earliestScheduled db queueName :=
  columnMin_pos fun e he t ht => (hpositive e (List.mem_filter.mp he).1).scheduled t ht

omit hpositive in
/-- Of two instants after the epoch the earlier one is reported. -/
theorem earlierDeadline_le_iff {expiry scheduled : Option Int}
    (hexpiry : expiry.filter (0 < ·) = expiry)
    (hscheduled : scheduled.filter (0 < ·) = scheduled) {t : Int} :
    (earlierDeadline expiry scheduled).any (· ≤ t) = true ↔
      expiry.any (· ≤ t) = true ∨ scheduled.any (· ≤ t) = true := by
  -- 0 stands for no instant, so an instant must not be 0
  simp only [earlierDeadline, hexpiry, hscheduled]
  cases expiry with
  | none =>
    cases scheduled with
    | none => simp
    | some scheduled =>
      have hpos : 0 < scheduled := by simpa using hscheduled
      simp [hpos.ne']
  | some expiry =>
    have hpos : 0 < expiry := by simpa using hexpiry
    cases scheduled with
    | none => simp [hpos.ne']
    | some scheduled =>
      have hpos' : 0 < scheduled := by simpa using hscheduled
      simp only [Option.getD_some, Option.any_some, decide_eq_true_eq, hpos.ne', false_or]
      split
      · simp only [hpos'.ne', if_false, Option.any_some, decide_eq_true_eq]
        omega
      · simp only [hpos.ne', if_false, Option.any_some, decide_eq_true_eq]
        omega

/-- **Earliest deadline**: in a database whose instants are after the epoch, the reported deadline
has passed exactly when some message of the queue is due. -/
theorem findEarliestDeadline_le_iff {t : Int}
    (hkept : ∀ e ∈ db.messages.rows, e.2.state = .running → e.2.deletedAt = none) :
    (findEarliestDeadline db queueName).any (· ≤ t) = true ↔
      ∃ e ∈ db.messages.rows, isDue queueName t e.2 = true := by
  have hboth : (findEarliestDeadline db queueName).any (· ≤ t) = true ↔
      (earliestExpiry db queueName).any (· ≤ t) = true ∨
        (earliestScheduled db queueName).any (· ≤ t) = true :=
    earlierDeadline_le_iff (earliestExpiry_pos hpositive) (earliestScheduled_pos hpositive)
  rw [hboth, earliestExpiry_le_iff hpositive hkept, earliestScheduled_le_iff]
  simp only [isDue, Bool.or_eq_true, Bool.and_eq_true]
  constructor
  · rintro (⟨e, he, hexpired⟩ | ⟨e, he, hwaiting⟩)
    · exact ⟨e, he, .inl hexpired⟩
    · exact ⟨e, he, .inr hwaiting⟩
  · rintro ⟨e, he, hexpired | hwaiting⟩
    · exact .inl ⟨e, he, hexpired⟩
    · exact .inr ⟨e, he, hwaiting⟩

end Queue

end Deadlines

/-! ## Section 3: Instants in every run -/

/-- The scheduled times of the messages an operation posts, in nanoseconds. -/
def Operation.scheduledTimes : Operation → List Int
  | .enqueue _ _ message => (message.metadata.bind (·.scheduledTime)).toList
  | .enqueueBulk _ _ messages _ =>
    messages.filterMap fun message => message.metadata.bind (·.scheduledTime)
  | .createRun _ run => [run.runTime]
  | _ => []

/-- An operation whose clock and arguments are after the epoch. -/
structure Operation.AfterEpoch (op : Operation) : Prop where
  inRange : op.InRange
  readings : ∀ t ∈ op.readings, 0 < t
  scheduled : ∀ t ∈ op.scheduledTimes, 0 < unixMilli t

/-- The scheduled times of all messages are after the epoch. -/
def TimesPositive (db : Database) : Prop :=
  ∀ e ∈ db.messages.rows, ∀ t, e.2.metadata.scheduledTime = some t → 0 < unixMilli t

/-- A RUNNING message has a lease policy, and its lease has started after the epoch. -/
def LeasesStarted (db : Database) : Prop :=
  ∀ e ∈ db.messages.rows, e.2.state = .running →
    (∃ policy, e.2.metadata.leasePolicy = some policy) ∧
      ∃ started, e.2.leaseStartedAt = some started ∧ 0 < started

section Runs

variable {adds : Additions} {db db' : Database} {event : Option (Nat × RowEvent)} {s : System}

theorem TimesPositive.change (h : TimesPositive db)
    (hadds : ∀ m, adds.message m → ∀ t, m.scheduledTime = some t → 0 < unixMilli t)
    (hchange : Change adds db db' event) : TimesPositive db' := by
  rintro ⟨i, row⟩ hmem t ht
  -- only a new message brings a scheduled time of its own
  cases hchange.origin hmem with
  | kept hold => exact h _ hold t ht
  | inserted _ _ m _ _ _ _ hnew _ hrow =>
    subst hrow
    exact hadds m hnew t ht
  | changed old _ hold htransition =>
    exact h _ hold t (htransition.scheduled.2 ▸ ht)

/-- What an operation posts is scheduled at the times it names. -/
theorem scheduledTime_of_additions {op : Operation} {m : MessageMetadata}
    (hm : (s.additions op).message m) {t : Int} (ht : m.scheduledTime = some t) :
    t ∈ op.scheduledTimes := by
  cases op with
  | enqueue clock queueName message =>
    have hmeta : message.metadata = some m := hm
    simp [Operation.scheduledTimes, hmeta, ht]
  | enqueueBulk clock queueName messages mode =>
    obtain ⟨message, hmem, hmeta⟩ := hm
    exact List.mem_filterMap.mpr ⟨message, hmem, by simp [hmeta, ht]⟩
  | createRun clock run =>
    obtain ⟨_, -, rfl⟩ := hm
    cases ht
    exact List.mem_singleton.mpr rfl
  | createQueue => exact absurd hm id
  | _ => exact absurd hm id

theorem TimesPositive.step (hwf : WellFormed s) (h : TimesPositive s.db) {op : Operation}
    (hop : op.AfterEpoch) : TimesPositive (s.step op).db :=
  (step_changes hwf op).preserves' (fun _ _ _ hinv hchange => hinv.change
    (fun _ hm t ht => hop.scheduled t (scheduledTime_of_additions hm ht)) hchange) h

/-- Only a claim starts a lease. -/
theorem LeasesStarted.change (h : LeasesStarted db)
    (hadds : ∀ m, adds.message m → m.state = .invisible ∨ m.state = .pending)
    (hevent : ∀ i attemptId workerId, event ≠ some (i, .claimed attemptId workerId))
    (hchange : Change adds db db' event) : LeasesStarted db' := by
  rintro ⟨i, row⟩ hmem hrunning
  cases hchange.origin hmem with
  | kept hold => exact h _ hold hrunning
  | inserted _ _ m _ _ _ _ hnew _ hrow =>
    subst hrow
    have hstate : m.state = .running := hrunning
    rcases hadds m hnew with hw | hw <;> rw [hstate] at hw <;> cases hw
  | changed old e hold ht hsome =>
    subst hsome
    cases ht with
    | claim req => exact absurd rfl (hevent i req.attempt req.worker)
    -- a renewal leaves the start of the lease
    | extend _ _ hrun => exact h (i, old) hold hrun
    | heartbeat _ _ _ _ _ hrun => exact h (i, old) hold hrun
    | reclaim =>
      have hnow : reclaimState old = .running := hrunning
      rcases reclaimState_cases old with hs | hs <;> rw [hs] at hnow <;> cases hnow
    | _ => cases hrunning

theorem LeasesStarted.claim {clock : Readings} {req : ClaimRequest}
    {claimed : Option (Nat × MessageRow)} (h : LeasesStarted db) (hclock : 0 < clock 3)
    (hclaim : claimMessageWithLeaseDuration db clock req = .ok (db', claimed)) :
    LeasesStarted db' := by
  rcases claimMessageWithLeaseDuration_effect hclaim with
    ⟨-, rfl⟩ | ⟨_, i, old, policy, -, -, hclaimed, -⟩
  · exact h
  rintro ⟨j, row⟩ hmem hrunning
  rw [hclaimed.updated.rows] at hmem
  rcases Table.mem_setRow.mp hmem with ⟨hold, -⟩ | ⟨heq, -⟩
  · exact h _ hold hrunning
  · cases heq
    -- the claimed row starts its lease at this reading
    refine ⟨⟨policy, hclaimed.leasePolicy⟩, clock 3, ?_, hclock⟩
    simp only [claimRow, claimRuntime]
    split <;> rfl

/-- The event of any operation but a claim is another one. -/
theorem event_ne_claimed {op : Operation} (hop : ∀ clock req, op ≠ .claim clock req) (i : Nat)
    (attemptId workerId : String) : s.event op ≠ some (i, .claimed attemptId workerId) := by
  intro h
  cases op with
  | claim clock req => exact hop clock req rfl
  | acknowledge | nack | extend | heartbeat | reclaim | retryDLQ =>
    exact RowEvent.noConfusion (touched_eq_some h).1
  | _ => cases h

theorem LeasesStarted.step (hwf : WellFormed s) (h : LeasesStarted s.db) {op : Operation}
    (hop : op.AfterEpoch) : LeasesStarted (s.step op).db := by
  by_cases hclaim : ∃ clock req, op = .claim clock req
  · obtain ⟨clock, req, rfl⟩ := hclaim
    simp only [System.step]
    cases hresult : claimMessageWithLeaseDuration s.db clock req with
    | error _ => exact h
    | ok result =>
      exact h.claim (hop.readings (clock 3) (by simp [Operation.readings])) hresult
  -- no other operation starts a lease
  · have hne : ∀ clock req, op ≠ .claim clock req := fun clock req heq => hclaim ⟨clock, req, heq⟩
    exact (step_changes hwf op).preserves_when (P := LeasesStarted)
      (E := fun event => ∀ i attemptId workerId, event ≠ some (i, .claimed attemptId workerId))
      (fun _ _ _ => (Option.some_ne_none _).symm)
      (fun _ _ _ hevent hinv hchange => hinv.change (fun _ => hop.inRange.posts.additions) hevent
        hchange)
      (event_ne_claimed hne) h

/-- **Instants**: after a run after the epoch, all instants of a database with validated lease
policies are after the epoch. -/
theorem instantsPositive_run {ops : List Operation} (hops : ∀ op ∈ ops, op.AfterEpoch)
    (hpolicies : ∀ e ∈ (System.run ops).db.messages.rows, e.2.state = .running →
      validateLeasePolicy e.2.metadata.leasePolicy = .ok ()) :
    ∀ e ∈ (System.run ops).db.messages.rows, InstantsPositive e.2 := by
  have hinv : WellFormed (System.run ops) ∧ ScheduledStored (System.run ops).db ∧
      TimesPositive (System.run ops).db ∧ LeasesStarted (System.run ops).db := by
    have hfollows : Follows System.step (fun _ op => op.AfterEpoch) .empty ops :=
      follows_iff_forall System.step |>.mpr fun xs op ys hsplit =>
        hops op (hsplit ▸ List.mem_append_right _ List.mem_cons_self)
    refine invariant_runFrom System.step
      (fun s => WellFormed s ∧ ScheduledStored s.db ∧ TimesPositive s.db ∧ LeasesStarted s.db)
      (fun s op ⟨hwf, hstored, htimes, hstarted⟩ hop => ⟨hwf.step op, hstored.step hwf op,
        htimes.step hwf hop, hstarted.step hwf hop⟩)
      ⟨wellFormed_empty, ?_, ?_, ?_⟩ hfollows
    · exact fun _ he => absurd he List.not_mem_nil
    · exact fun _ he => absurd he List.not_mem_nil
    · exact fun _ he => absurd he List.not_mem_nil
  obtain ⟨-, hstored, htimes, hstarted⟩ := hinv
  have haccounts := accounted_run ops fun op hop => (hops op hop).inRange
  rw [system_ledger] at haccounts
  intro e he
  constructor
  · intro hrunning
    obtain ⟨⟨policy, hpolicy⟩, started, hleaseStarted, hpos⟩ := hstarted e he hrunning
    have haccepted := accepted_of_validateLeasePolicy (hpolicy ▸ hpolicies e he hrunning)
    have haccount := haccounts e he hrunning policy hpolicy haccepted
    -- the lease ends no earlier than it has started
    obtain ⟨started', hstarted', hexpiry, -⟩ := haccount.expiry
    cases hleaseStarted.symm.trans hstarted'
    have hbase := haccount.base_nonneg
    have hused := haccount.used_nonneg
    exact ⟨_, hexpiry, by omega⟩
  · intro t ht
    rw [hstored e he] at ht
    obtain ⟨time, htime, rfl⟩ := Option.map_eq_some_iff.mp ht
    exact htimes e he time htime

end Runs

/-! ## Section 4: The reported state in every run -/

/-- **Queue state**: in every run, the counts that are reported of a queue are those of its
messages and the counters its row carries; and after the epoch, the reported deadline has passed
exactly when a message of the queue is expired or waits for a time that has come. -/
theorem queueState_exact {ops : List Operation} {queueName : String} {state : QueueState}
    (h : getQueueState (System.run ops).db queueName = .ok state) :
    (∀ st, state.stateCounts st =
        (((System.run ops).db.messages.rows.filter fun e =>
          e.2.queueName = queueName ∧ e.2.state = st).length : Int) ∧
      state.stateCounts st = (System.run ops).db.counter queueName st) ∧
    ((∀ op ∈ ops, op.AfterEpoch) →
      (∀ e ∈ (System.run ops).db.messages.rows, e.2.state = .running →
        validateLeasePolicy e.2.metadata.leasePolicy = .ok ()) →
      ∀ nowMs, state.earliestDeadline.any (· ≤ nowMs) = true ↔
        ∃ e ∈ (System.run ops).db.messages.rows, isDue queueName nowMs e.2 = true) := by
  have hstate : state = ⟨countByState (System.run ops).db queueName,
      findEarliestDeadline (System.run ops).db queueName⟩ := by
    simp only [getQueueState] at h
    split at h
    · cases h
    · split at h
      · cases h
      · exact (Except.ok.inj h).symm
  subst hstate
  refine ⟨fun st => ⟨?_, ?_⟩, fun hops hpolicies nowMs => ?_⟩
  · simp only [countByState, Table.tally, List.countP_eq_length_filter, MessageRow.countsAs,
      Bool.decide_and]
  · exact (countersExact_runFrom wellFormed_empty countersExact_empty ops queueName st).symm
  · exact findEarliestDeadline_le_iff (instantsPositive_run hops hpolicies)
      fun e he hrunning => (runningRows_run ops e he hrunning).1

/-- A queue with a message that runs with a lease of fifty milliseconds from 100 on, and one that is
scheduled for 2000. -/
def runningAndScheduled : List Operation :=
  let policy : LeasePolicy := ⟨some ⟨0, 50000000⟩, none, none, none, 0⟩
  [.createQueue "jobs" {},
   .enqueue (fun _ => 90) "jobs" ⟨"m", some ⟨.pending, 3, 3, 0, none, some policy⟩⟩,
   .claim (fun _ => 100) ⟨"jobs", "w", "a", "", 0, 0, "g", "", generatedAttemptId_ne⟩,
   .enqueue (fun _ => 110) "jobs"
     ⟨"n", some ⟨.invisible, 3, 3, 0, some 2000000000, some policy⟩⟩]

theorem afterEpoch_runningAndScheduled : ∀ op ∈ runningAndScheduled, op.AfterEpoch := by
  intro op hop
  simp only [runningAndScheduled, List.mem_cons, List.not_mem_nil, or_false] at hop
  rcases hop with rfl | rfl | rfl | rfl <;>
    refine ⟨⟨?_, ?_, ?_⟩, ?_, ?_⟩ <;>
    simp [Operation.PostsWaiting, Operation.readings, Operation.scheduledTimes, unixMilli]

/-- The lease is the earliest deadline, and nothing is due before it. -/
theorem queueState_runningAndScheduled :
    findEarliestDeadline (System.run runningAndScheduled).db "jobs" = some 150 ∧
    ((findEarliestDeadline (System.run runningAndScheduled).db "jobs").any (· ≤ 149) = true ↔
      ∃ e ∈ (System.run runningAndScheduled).db.messages.rows, isDue "jobs" 149 e.2 = true) := by
  have hpolicies : ∀ e ∈ (System.run runningAndScheduled).db.messages.rows,
      e.2.state = .running → validateLeasePolicy e.2.metadata.leasePolicy = .ok () := by decide
  exact ⟨by decide, (@queueState_exact runningAndScheduled "jobs" ⟨_, _⟩ rfl).2
    afterEpoch_runningAndScheduled hpolicies 149⟩

end Nzovu.Repository
