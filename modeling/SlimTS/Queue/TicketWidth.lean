import SlimTS.Queue.Delivery

/-!
# The ticket on its way through JavaScript

`get_job` counts tickets in a `long` and `find_job` compares them as such. In between a ticket is a
JavaScript number that `listen` makes with `Integer::New`, whose argument is an `int32_t`, and that
`complete` reads with `Int32Value`. The two functions of V8 are a parameter, of which only this is
assumed: a number in the range of an `int32_t` comes back as it was.

A ticket comes back unchanged if and only if it is in that range, and the tickets of a run are
`1, 2, 3, …`, so they all do in exactly the runs that deliver fewer than `2 ^ 31` jobs.
-/

namespace SlimTS

/-! ## The conversions -/

/-- V8's integers, as far as they are used. -/
structure V8Integers (Value : Type) where
  /-- `Integer::New`, of an `int32_t`. -/
  integerNew : ℤ → Value
  isInt32 : Value → Bool
  int32Value : Value → ℤ
  isInt32_integerNew : ∀ n, -2 ^ 31 ≤ n → n < 2 ^ 31 → isInt32 (integerNew n) = true
  int32Value_integerNew : ∀ n, -2 ^ 31 ≤ n → n < 2 ^ 31 → int32Value (integerNew n) = n

/-- What `V8ValueToInt` throws to V8 before it goes on. -/
def integerValueExpected : Str := "integer value expected".toList

namespace V8Integers

variable {Value : Type} (v8 : V8Integers Value)

/-- `V8ValueToInt`: the exceptions and the number. -/
def v8ValueToInt (value : Value) : List Str × ℤ :=
  (if v8.isInt32 value then [] else [integerValueExpected], v8.int32Value value)

/-- The ticket that `listen` puts in the object. The call converts the `long` to an `int32_t`. -/
def listenTicket (job : Job) : Value := v8.integerNew (toInt job.ticketId)

/-- The ticket that `complete` passes to `find_job` for the object of `listen`. -/
def completeTicket (job : Job) : ℤ := (v8.v8ValueToInt (v8.listenTicket job)).2

/-- The way through V8 throws nothing, and keeps the last 32 bits of the ticket. -/
theorem v8ValueToInt_listenTicket (job : Job) :
    v8.v8ValueToInt (v8.listenTicket job) = ([], job.listen.ticketId) := by
  obtain ⟨hlow, hhigh⟩ := toInt_range job.ticketId
  rw [listenTicket, v8ValueToInt, v8.isInt32_integerNew _ hlow hhigh,
    v8.int32Value_integerNew _ hlow hhigh]
  rfl

theorem completeTicket_eq_iff (job : Job) :
    v8.completeTicket job = job.ticketId ↔ -2 ^ 31 ≤ job.ticketId ∧ job.ticketId < 2 ^ 31 := by
  rw [completeTicket, v8ValueToInt_listenTicket]
  exact toInt_eq_self_iff

end V8Integers

/-- A V8 whose values are the numbers. -/
def integerValues : V8Integers ℤ where
  integerNew n := n
  isInt32 n := decide (-2 ^ 31 ≤ n ∧ n < 2 ^ 31)
  int32Value n := n
  isInt32_integerNew _ hlow hhigh := decide_eq_true ⟨hlow, hhigh⟩
  int32Value_integerNew _ _ _ := rfl

namespace QueueState

variable {s : QueueState}

/-! ## The tickets of a run -/

/-- A job keeps the ticket it was delivered under. -/
def KeepsTickets (s : QueueState) : Prop :=
  ∀ j t, (j, t) ∈ deliveries s.history → (s.jobs j).ticketId = t

theorem KeepsTickets.step {a : QueueAction} {s' : QueueState} (keeps : KeepsTickets s)
    (inv : DeliveryInv s) (h : s.step a = some s') : KeepsTickets s' := by
  -- A delivered job is neither pushed nor delivered again.
  have hflag : ∀ j t, (j, t) ∈ deliveries s.history →
      (s.jobs j).submitted = true ∧ s.phase j ≠ .absent := fun j t hj ↦
    inv.delivered_flag j (List.mem_map_of_mem (f := Prod.fst) hj)
  cases effect_of_step h with
  | submit j fresh hphase =>
    intro k t hk
    rw [deliveries_submit] at hk
    have hkj : k ≠ j := fun hkj ↦ (hflag k t hk).2 (hkj ▸ hphase)
    rw [submit_jobs, Function.update_of_ne hkj]
    exact keeps k t hk
  | wake => exact keeps
  | cleanUp j hphase =>
    intro k t hk
    rw [deliveries_cleanUp] at hk
    exact keeps k t hk
  | deliver queueName j hnext =>
    obtain ⟨before, after, -, hj, -⟩ := nextJob_eq_some hnext
    intro k t hk
    rw [deliveries_deliver, List.mem_append, List.mem_singleton, Prod.mk.injEq] at hk
    rcases hk with hk | ⟨rfl, rfl⟩
    · have hkj : k ≠ j := by
        rintro rfl
        rw [deliverable, (hflag k t hk).1, Bool.not_true, Bool.and_false] at hj
        exact absurd hj (by decide)
      rw [deliver_jobs, Function.update_of_ne hkj]
      exact keeps k t hk
    · rw [deliver_jobs, Function.update_self]
  | find => exact keeps
  | complete n object j hcall =>
    intro k t hk
    rw [deliveries_complete] at hk
    by_cases hkj : k = j
    · subst hkj
      rw [complete_jobs, Function.update_self, Job.complete_ticketId]
      exact keeps k t hk
    · rw [complete_jobs, Function.update_of_ne hkj]
      exact keeps k t hk
  | idle => exact keeps

theorem keepsTickets_of_run {actions : List QueueAction} (hrun : run actions = some s) :
    KeepsTickets s := by
  have hend : DeliveryInv s ∧ KeepsTickets s :=
    Transition.invariant_of_run (I := fun s ↦ DeliveryInv s ∧ KeepsTickets s)
      (fun _ _ _ h hstep ↦ ⟨h.1.step hstep, h.2.step h.1 hstep⟩)
      ⟨deliveryInv_start, fun _ _ h ↦ absurd h List.not_mem_nil⟩ hrun
  exact hend.2

/-- The tickets are the numbers from one on, as a `long` has them. -/
theorem DeliveryInv.mem_tickets (inv : DeliveryInv s) (t : ℤ) :
    (∃ j, (j, t) ∈ deliveries s.history) ↔
      ∃ i : ℕ, i < (deliveries s.history).length ∧ toLong (i + 1) = t := by
  have hmem : t ∈ (deliveries s.history).map Prod.snd ↔ ∃ j, (j, t) ∈ deliveries s.history := by
    simp
  rw [← hmem, inv.tickets, List.mem_map]
  simp only [List.mem_range]

/-- **Which runs keep their tickets.** In every run, the ticket that reaches `find_job` through
`listen` and `complete` is the one `get_job` assigned, for every job delivered, if and only if the
run has delivered fewer than `2 ^ 31` jobs. -/
theorem completeTicket_eq_iff_length_lt {Value : Type} (v8 : V8Integers Value)
    {actions : List QueueAction} (hrun : run actions = some s) :
    (∀ j q t, .delivered j q t ∈ s.history → v8.completeTicket (s.jobs j) = t) ↔
      (deliveries s.history).length < 2 ^ 31 := by
  have inv := deliveryInv_of_run hrun
  have hkeeps := keepsTickets_of_run hrun
  have hticket : ∀ j t, (j, t) ∈ deliveries s.history →
      (v8.completeTicket (s.jobs j) = t ↔ -2 ^ 31 ≤ t ∧ t < 2 ^ 31) := by
    intro j t hj
    rw [← hkeeps j t hj]
    exact v8.completeTicket_eq_iff (s.jobs j)
  constructor
  · intro hall
    by_contra hlength
    -- The delivery whose ticket is one too large.
    obtain ⟨j, hj⟩ := (inv.mem_tickets (2 ^ 31)).mpr
      ⟨2 ^ 31 - 1, by omega, toLong_of_lt (by norm_num) (by norm_num)⟩
    obtain ⟨q, hq⟩ := mem_deliveries.mp hj
    have hrange := (hticket j _ hj).mp (hall j q _ hq)
    omega
  · intro hlength j q t hj
    have hmem : (j, t) ∈ deliveries s.history := mem_deliveries.mpr ⟨q, hj⟩
    obtain ⟨i, hi, rfl⟩ := (inv.mem_tickets t).mp ⟨j, hmem⟩
    rw [hticket j _ hmem, toLong_of_lt (by omega) (by omega)]
    omega

/-- Two jobs, of which one is delivered. -/
theorem completeTicket_eq_iff_length_lt_waitingRun :
    ∃ s, run (waitingRun 0 0) = some s ∧
      ((∀ j q t, .delivered j q t ∈ s.history →
          integerValues.completeTicket (s.jobs j) = t) ↔
        (deliveries s.history).length < 2 ^ 31) :=
  ⟨_, rfl, @completeTicket_eq_iff_length_lt _ ℤ integerValues (waitingRun 0 0) rfl⟩

/-! ## One job after the other -/

/-- Each of the jobs is pushed and delivered before the next. -/
def manyJobs : ℕ → List QueueAction
  | 0 => []
  | n + 1 => manyJobs n
      ++ [.submit n (importJob 0 "/a.ts".toList), .getJob "typescript".toList]

/-- The first `n` jobs have been delivered, and the next is yet to come. -/
structure Served (n : ℕ) (s : QueueState) : Prop where
  absent : ∀ j, n ≤ j → s.phase j = .absent
  taken : ∀ k ∈ s.queues "typescript".toList, k < n ∧ (s.jobs k).submitted = true
  count : (deliveries s.history).length = n

theorem nextJob_append {jobs : JobId → Job} {v : List JobId} {j : JobId}
    (hv : ∀ k ∈ v, deliverable jobs k = false) (hj : deliverable jobs j = true) :
    nextJob jobs (v ++ [j]) = some j := by
  induction v with
  | nil => rw [List.nil_append, nextJob, if_pos hj]
  | cons k v ih =>
    rw [List.forall_mem_cons] at hv
    rw [List.cons_append, nextJob, if_neg (by simp [hv.1])]
    exact ih hv.2

theorem Served.next {n : ℕ} (served : Served n s) :
    ∃ s', Transition.runFrom step s
        [.submit n (importJob 0 "/a.ts".toList), .getJob "typescript".toList] = some s' ∧
      Served (n + 1) s' := by
  have hne : ∀ k ∈ s.queues "typescript".toList, k ≠ n := fun k hk ↦
    Nat.ne_of_lt (served.taken k hk).1
  have hqueue : (s.submit n (importJob 0 "/a.ts".toList)).queues "typescript".toList
      = s.queues "typescript".toList ++ [n] := by
    have hname : (importJob 0 "/a.ts".toList).queueNameString = "typescript".toList := rfl
    rw [submit_queues, hname, Function.update_self]
  have hnext : nextJob (s.submit n (importJob 0 "/a.ts".toList)).jobs
      ((s.submit n (importJob 0 "/a.ts".toList)).queues "typescript".toList) = some n := by
    rw [hqueue]
    -- The jobs in front have been taken, so the new one is the next.
    refine nextJob_append (fun k hk ↦ ?_) ?_
    · rw [deliverable, submit_jobs, Function.update_of_ne (hne k hk), (served.taken k hk).2,
        Bool.not_true, Bool.and_false]
    · rw [deliverable, submit_jobs, Function.update_self]
      rfl
  have hsubmit : s.step (.submit n (importJob 0 "/a.ts".toList))
      = some (s.submit n (importJob 0 "/a.ts".toList)) := if_pos (served.absent n le_rfl)
  have hget : (s.submit n (importJob 0 "/a.ts".toList)).step (.getJob "typescript".toList)
      = some ((s.submit n (importJob 0 "/a.ts".toList)).deliver "typescript".toList n) := by
    rw [step, getJob, hnext]
  refine ⟨_, Transition.runFrom_cons.mpr ⟨_, hsubmit, Transition.runFrom_cons.mpr
    ⟨_, hget, rfl⟩⟩, ?_, ?_, ?_⟩
  · intro j hj
    have hjn : j ≠ n := by omega
    rw [deliver_phase, submit_phase, Function.update_of_ne hjn]
    exact served.absent j (by omega)
  · intro k hk
    rw [deliver_queues, hqueue, List.mem_append, List.mem_singleton] at hk
    rcases hk with hk | rfl
    · obtain ⟨hlt, htaken⟩ := served.taken k hk
      rw [deliver_jobs, Function.update_of_ne (hne k hk), submit_jobs,
        Function.update_of_ne (hne k hk)]
      exact ⟨Nat.lt_succ_of_lt hlt, htaken⟩
    · rw [deliver_jobs, Function.update_self]
      exact ⟨Nat.lt_succ_self _, rfl⟩
  · rw [deliveries_deliver, deliveries_submit, List.length_append, served.count]
    rfl

theorem served_manyJobs (n : ℕ) : ∃ s, run (manyJobs n) = some s ∧ Served n s := by
  induction n with
  | zero =>
    exact ⟨_, rfl, fun _ _ ↦ rfl, fun _ hk ↦ absurd hk List.not_mem_nil, rfl⟩
  | succ n ih =>
    obtain ⟨s, hrun, hserved⟩ := ih
    obtain ⟨s', hrun', hserved'⟩ := hserved.next
    refine ⟨s', ?_, hserved'⟩
    rw [run] at hrun
    rw [run, manyJobs, Transition.runFrom_append, hrun, Option.bind_some]
    exact hrun'

/-- The `2 ^ 31`-th ticket comes back negative. -/
theorem completeTicket_manyJobs :
    ∃ s j q, run (manyJobs (2 ^ 31)) = some s ∧ .delivered j q (2 ^ 31) ∈ s.history ∧
      integerValues.completeTicket (s.jobs j) = -2 ^ 31 := by
  obtain ⟨s, hrun, hserved⟩ := served_manyJobs (2 ^ 31)
  obtain ⟨j, hj⟩ := ((deliveryInv_of_run hrun).mem_tickets (2 ^ 31)).mpr
    ⟨2 ^ 31 - 1, by rw [hserved.count]; omega, toLong_of_lt (by norm_num) (by norm_num)⟩
  obtain ⟨q, hq⟩ := mem_deliveries.mp hj
  refine ⟨s, j, q, hrun, hq, ?_⟩
  rw [V8Integers.completeTicket, V8Integers.v8ValueToInt_listenTicket, Job.listen,
    keepsTickets_of_run hrun j _ hj]
  have hwrap : toInt (2 ^ 31) = -2 ^ 31 := by decide
  exact hwrap

end QueueState

end SlimTS
