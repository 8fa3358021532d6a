import SlimTS.Queue.Delivery

/-!
# Whose result a submitter gets

A worker reports a result under a ticket, and `find_job` turns the ticket back into a job by
searching the queue's vector. Jobs that no worker has taken stand in the same vector, and their
tickets are whatever the memory of the object held. When such a ticket happens to equal the one
reported, the later match wins and the result goes to a job nobody has worked on.

The condition under which this does not happen is on the state in which `find_job` searches: the
jobs of the queue that carry the ticket have been taken by a worker, and where there is none the
uninitialised pointer happens to be null. Every run whose searches all meet it hands each submitter
its own result.
-/

namespace SlimTS

namespace QueueState

/-- What a step needs for results to reach their own jobs: a search finds no job but those a worker
has taken, and a write reaches a job whose `submit` has not returned yet (the importer deletes the
object after that). -/
def FindsItsJob (s : QueueState) : QueueAction → Prop
  | .findJob object indeterminate =>
    (∀ k ∈ s.queues object.queueNameString, (s.jobs k).ticketId = object.ticketId →
      (s.jobs k).submitted = true) ∧
    ((∃ k ∈ s.queues object.queueNameString, (s.jobs k).ticketId = object.ticketId) ∨
      indeterminate = none)
  | .complete n => ∀ call ∈ s.completing[n]?, s.phase call.2 ≠ .returned
  | _ => True

instance (s : QueueState) : ∀ a, Decidable (s.FindsItsJob a)
  | .findJob object indeterminate => inferInstanceAs (Decidable (
    (∀ k ∈ s.queues object.queueNameString, (s.jobs k).ticketId = object.ticketId →
      (s.jobs k).submitted = true) ∧
    ((∃ k ∈ s.queues object.queueNameString, (s.jobs k).ticketId = object.ticketId) ∨
      indeterminate = none)))
  | .complete n => inferInstanceAs (Decidable (∀ call ∈ s.completing[n]?,
      s.phase call.2 ≠ .returned))
  | .submit _ _ | .poll _ | .cleanUp _ | .getJob _ => isTrue trivial

/-- Every `submit` that has returned did so after a `complete` under the ticket its own job was
delivered with, and found in the job the egress file given in that call. -/
def ReturnsOwnResult (s : QueueState) : Prop :=
  ∀ j egress, .returned j egress ∈ s.history →
    ∃ q ticketId object, .delivered j q ticketId ∈ s.history ∧
      .completed object j ∈ s.history ∧ object.ticketId = ticketId ∧
      object.egressJobFile = egress

/-- `complete` has written only to the job delivered under the ticket it was called with. -/
def CompletesOwnJob (s : QueueState) : Prop :=
  ∀ object k, .completed object k ∈ s.history → ∃ q, .delivered k q object.ticketId ∈ s.history

/-- The invariant of the runs whose searches find the right job. -/
structure CompletionInv (s : QueueState) : Prop where
  /-- A taken job has a `submit` call and was delivered under the ticket it carries. -/
  taken : ∀ k, (s.jobs k).submitted = true →
    s.phase k ≠ .absent ∧ ∃ q, .delivered k q (s.jobs k).ticketId ∈ s.history
  /-- A call in flight has found a taken job with the ticket it was called with. -/
  inFlight : ∀ call ∈ s.completing,
    (s.jobs call.2).submitted = true ∧ (s.jobs call.2).ticketId = call.1.ticketId
  /-- A completed job is taken and holds what some call under its ticket gave. -/
  done : ∀ k, (s.jobs k).completed = true → (s.jobs k).submitted = true ∧
    ∃ object, .completed object k ∈ s.history ∧ object.ticketId = (s.jobs k).ticketId ∧
      object.egressJobFile = (s.jobs k).egressJobFile
  /-- The poll that ended the wait saw the job completed. -/
  woken : ∀ k, s.phase k = .woken → (s.jobs k).completed = true
  returned : ReturnsOwnResult s
  completes : CompletesOwnJob s

theorem completionInv_start : CompletionInv start where
  taken k hk := by cases hk
  inFlight _ h := absurd h List.not_mem_nil
  done k hk := by cases hk
  woken k hk := by cases hk
  returned _ _ h := absurd h List.not_mem_nil
  completes _ _ h := absurd h List.not_mem_nil

variable {s : QueueState}

/-- A longer log promises no less, as long as it adds no return and no completion. -/
theorem CompletionInv.of_log {s' : QueueState} (inv : CompletionInv s) (e : QueueEvent)
    (hlog : s'.history = s.history ++ [e]) (hret : ∀ j egress, e ≠ .returned j egress)
    (hcomp : ∀ object j, e ≠ .completed object j) :
    ReturnsOwnResult s' ∧ CompletesOwnJob s' := by
  refine ⟨fun j egress h ↦ ?_, fun object k h ↦ ?_⟩
  · rw [hlog, List.mem_append, List.mem_singleton] at h
    obtain ⟨q, t, object, hd, hc, ht, he⟩ :=
      inv.returned j egress (h.resolve_right (Ne.symm (hret j egress)))
    exact ⟨q, t, object, by simp [hlog, hd], by simp [hlog, hc], ht, he⟩
  · rw [hlog, List.mem_append, List.mem_singleton] at h
    obtain ⟨q, hd⟩ := inv.completes object k (h.resolve_right (Ne.symm (hcomp object k)))
    exact ⟨q, by simp [hlog, hd]⟩

/-! ## The steps -/

theorem CompletionInv.submit (inv : CompletionInv s) {j : JobId} (fresh : FreshJob)
    (hphase : s.phase j = .absent) : CompletionInv (s.submit j fresh) := by
  -- A taken job is not the new one.
  have hne : ∀ k, (s.jobs k).submitted = true → k ≠ j := fun k hk hkj ↦
    (inv.taken k hk).1 (hkj ▸ hphase)
  obtain ⟨hreturned, hcompletes⟩ :
      ReturnsOwnResult (s.submit j fresh) ∧ CompletesOwnJob (s.submit j fresh) :=
    inv.of_log _ rfl (fun _ _ ↦ by simp) (fun _ _ ↦ by simp)
  constructor
  case taken =>
    intro k hk
    by_cases hkj : k = j
    · subst hkj
      rw [submit_jobs, Function.update_self, FreshJob.ready_submitted] at hk
      exact absurd hk Bool.false_ne_true
    · rw [submit_jobs, Function.update_of_ne hkj] at hk ⊢
      obtain ⟨hk', q, hq⟩ := inv.taken k hk
      rw [submit_phase, Function.update_of_ne hkj]
      exact ⟨hk', q, by simp [hq]⟩
  case inFlight =>
    intro call hcall
    obtain ⟨hsub, hticket⟩ := inv.inFlight call hcall
    rw [submit_jobs, Function.update_of_ne (hne _ hsub)]
    exact ⟨hsub, hticket⟩
  case done =>
    intro k hk
    by_cases hkj : k = j
    · subst hkj
      rw [submit_jobs, Function.update_self, FreshJob.ready_completed] at hk
      exact absurd hk Bool.false_ne_true
    · rw [submit_jobs, Function.update_of_ne hkj] at hk ⊢
      obtain ⟨hsub, object, hc, ht, he⟩ := inv.done k hk
      exact ⟨hsub, object, by simp [hc], ht, he⟩
  case woken =>
    intro k hk
    by_cases hkj : k = j
    · subst hkj
      rw [submit_phase, Function.update_self] at hk
      exact absurd hk (by decide)
    · rw [submit_phase, Function.update_of_ne hkj] at hk
      rw [submit_jobs, Function.update_of_ne hkj]
      exact inv.woken k hk
  case returned => exact hreturned
  case completes => exact hcompletes

theorem CompletionInv.cleanUp (inv : CompletionInv s) {j : JobId} (hphase : s.phase j = .woken) :
    CompletionInv (s.cleanUp j) := by
  constructor
  case taken =>
    intro k hk
    obtain ⟨hk', q, hq⟩ := inv.taken k hk
    refine ⟨?_, q, by simp [hq]⟩
    rw [cleanUp_phase, Function.update_apply]
    split
    · decide
    · exact hk'
  case inFlight => exact inv.inFlight
  case done =>
    intro k hk
    obtain ⟨hsub, object, hc, ht, he⟩ := inv.done k hk
    exact ⟨hsub, object, by simpa using hc, ht, he⟩
  case woken =>
    intro k hk
    rw [cleanUp_phase, Function.update_apply] at hk
    split at hk
    · exact absurd hk (by decide)
    · exact inv.woken k hk
  case returned =>
    intro k egress h
    rw [cleanUp_history, List.mem_append, List.mem_singleton, QueueEvent.returned.injEq] at h
    rcases h with h | ⟨rfl, rfl⟩
    · obtain ⟨q, t, object, hd, hc, ht, he⟩ := inv.returned k egress h
      exact ⟨q, t, object, by simp [hd], by simp [hc], ht, he⟩
    · -- The submitter was woken by a completion under the ticket the job carries.
      obtain ⟨hsub, object, hc, ht, he⟩ := inv.done k (inv.woken k hphase)
      obtain ⟨-, q, hd⟩ := inv.taken k hsub
      exact ⟨q, _, object, by simp [hd], by simp [hc], ht, he⟩
  case completes =>
    intro object k h
    rw [cleanUp_history, List.mem_append] at h
    obtain ⟨q, hd⟩ := inv.completes object k (h.resolve_right (by simp))
    exact ⟨q, by simp [hd]⟩

theorem CompletionInv.deliver (inv : CompletionInv s) {queueName : Str} {j : JobId}
    (hj : deliverable s.jobs j = true) (hphase : s.phase j ≠ .absent) :
    CompletionInv (s.deliver queueName j) := by
  have hflag : (s.jobs j).submitted = false := by
    rw [deliverable, Bool.and_eq_true, Bool.not_eq_true'] at hj
    exact hj.2
  -- A taken job is not the one taken now.
  have hne : ∀ k, (s.jobs k).submitted = true → k ≠ j := fun k hk hkj ↦ by
    rw [hkj, hflag] at hk
    exact absurd hk Bool.false_ne_true
  obtain ⟨hreturned, hcompletes⟩ :
      ReturnsOwnResult (s.deliver queueName j) ∧ CompletesOwnJob (s.deliver queueName j) :=
    inv.of_log _ rfl (fun _ _ ↦ by simp) (fun _ _ ↦ by simp)
  constructor
  case taken =>
    intro k hk
    by_cases hkj : k = j
    · subst hkj
      rw [deliver_jobs, Function.update_self]
      exact ⟨hphase, queueName, by simp⟩
    · rw [deliver_jobs, Function.update_of_ne hkj] at hk ⊢
      obtain ⟨hk', q, hq⟩ := inv.taken k hk
      exact ⟨hk', q, by simp [hq]⟩
  case inFlight =>
    intro call hcall
    obtain ⟨hsub, hticket⟩ := inv.inFlight call hcall
    rw [deliver_jobs, Function.update_of_ne (hne _ hsub)]
    exact ⟨hsub, hticket⟩
  case done =>
    intro k hk
    by_cases hkj : k = j
    · subst hkj
      rw [deliver_jobs, Function.update_self] at hk
      exact absurd rfl (hne k (inv.done k hk).1)
    · rw [deliver_jobs, Function.update_of_ne hkj] at hk ⊢
      obtain ⟨hsub, object, hc, ht, he⟩ := inv.done k hk
      exact ⟨hsub, object, by simp [hc], ht, he⟩
  case woken =>
    intro k hk
    have hk' := inv.woken k hk
    rw [deliver_jobs, Function.update_of_ne (hne k (inv.done k hk').1)]
    exact hk'
  case returned => exact hreturned
  case completes => exact hcompletes

theorem CompletionInv.find (inv : CompletionInv s) {object : JobObject} {j : JobId}
    (hsub : (s.jobs j).submitted = true) (hticket : (s.jobs j).ticketId = object.ticketId) :
    CompletionInv { s with completing := s.completing ++ [(object, j)] } := by
  refine ⟨inv.taken, ?_, inv.done, inv.woken, inv.returned, inv.completes⟩
  intro call hcall
  rcases List.mem_append.mp hcall with hcall | hcall
  · exact inv.inFlight call hcall
  · rw [List.mem_singleton.mp hcall]
    exact ⟨hsub, hticket⟩

theorem CompletionInv.complete (inv : CompletionInv s) {n : ℕ} {object : JobObject} {j : JobId}
    (hcall : s.completing[n]? = some (object, j)) : CompletionInv (s.complete n object j) := by
  have hmem : (object, j) ∈ s.completing := List.mem_of_getElem? hcall
  obtain ⟨hsub, hticket⟩ : (s.jobs j).submitted = true ∧ (s.jobs j).ticketId = object.ticketId :=
    inv.inFlight _ hmem
  -- The write changes the egress file and the `completed` flag of `j`, nothing else.
  have hsame : ∀ k, ((s.complete n object j).jobs k).submitted = (s.jobs k).submitted ∧
      ((s.complete n object j).jobs k).ticketId = (s.jobs k).ticketId := by
    intro k
    by_cases hkj : k = j
    · subst hkj
      simp [complete_jobs]
    · simp [complete_jobs, Function.update_of_ne hkj]
  constructor
  case taken =>
    intro k hk
    rw [(hsame k).1] at hk
    obtain ⟨hk', q, hq⟩ := inv.taken k hk
    exact ⟨hk', q, by simp [(hsame k).2, hq]⟩
  case inFlight =>
    intro call hmem
    obtain ⟨h1, h2⟩ := inv.inFlight call (List.mem_of_mem_eraseIdx hmem)
    exact ⟨(hsame _).1.trans h1, (hsame _).2.trans h2⟩
  case done =>
    intro k hk
    rw [(hsame k).1, (hsame k).2]
    by_cases hkj : k = j
    · subst hkj
      exact ⟨hsub, object, by simp, hticket.symm, by simp [complete_jobs]⟩
    · rw [complete_jobs, Function.update_of_ne hkj] at hk ⊢
      obtain ⟨hs, object', hc, ht, he⟩ := inv.done k hk
      exact ⟨hs, object', by simp [hc], ht, he⟩
  case woken =>
    intro k hk
    by_cases hkj : k = j
    · subst hkj
      simp [complete_jobs]
    · rw [complete_jobs, Function.update_of_ne hkj]
      exact inv.woken k hk
  case returned =>
    intro k egress h
    rw [complete_history, List.mem_append] at h
    obtain ⟨q, t, object', hd, hc, ht, he⟩ := inv.returned k egress (h.resolve_right (by simp))
    exact ⟨q, t, object', by simp [hd], by simp [hc], ht, he⟩
  case completes =>
    intro object' k h
    rw [complete_history, List.mem_append, List.mem_singleton, QueueEvent.completed.injEq] at h
    rcases h with h | ⟨rfl, rfl⟩
    · obtain ⟨q, hd⟩ := inv.completes object' k h
      exact ⟨q, by simp [hd]⟩
    · obtain ⟨-, q, hd⟩ := inv.taken k hsub
      exact ⟨q, by rw [hticket] at hd; simp [hd]⟩

theorem CompletionInv.step {a : QueueAction} {s' : QueueState} (inv : CompletionInv s)
    (hdel : DeliveryInv s) (hcond : s.FindsItsJob a) (h : s.step a = some s') :
    CompletionInv s' := by
  cases effect_of_step h with
  | submit j fresh hphase => exact inv.submit fresh hphase
  | wake j hphase hcompleted =>
    refine ⟨?_, inv.inFlight, inv.done, ?_, inv.returned, inv.completes⟩
    · exact fun k hk ↦ ⟨phase_update_ne_absent (by decide) (inv.taken k hk).1, (inv.taken k hk).2⟩
    · intro k hk
      by_cases hkj : k = j
      · exact hkj ▸ hcompleted
      · exact inv.woken k (by simpa [hkj] using hk)
  | cleanUp j hphase => exact inv.cleanUp hphase
  | deliver queueName j hnext =>
    obtain ⟨before, after, hsplit, hj, -⟩ := nextJob_eq_some hnext
    exact inv.deliver hj (hdel.queued queueName j (by simp [hsplit])).2.2
  | find object indeterminate j hfind =>
    -- Either the search found a job, or its pointer is what the memory held.
    rcases findJob_eq_some hfind with ⟨hj, hticket⟩ | ⟨hpointer, hnone⟩
    · exact inv.find (hcond.1 j hj hticket) hticket
    · rcases hcond.2 with ⟨k, hk, hticket⟩ | hnull
      · exact absurd hticket (hnone k hk)
      · exact absurd (hpointer.symm.trans hnull) (by simp)
  | complete n object j hcall => exact inv.complete hcall
  | idle => exact inv

/-- **Results reach their own jobs.** In every run whose searches find their job, every `submit`
returns its own result, and `complete` writes to no other job. -/
theorem submit_returns_own_result {actions : List QueueAction} (hrun : run actions = some s)
    (hmeets : Transition.Meets step FindsItsJob start actions) :
    ReturnsOwnResult s ∧ CompletesOwnJob s := by
  have inv : DeliveryInv s ∧ CompletionInv s :=
    Transition.invariant_of_meets (I := fun s ↦ DeliveryInv s ∧ CompletionInv s)
      (fun _ _ _ ⟨hdel, hcomp⟩ hcond h ↦ ⟨hdel.step h, hcomp.step hdel hcond h⟩)
      ⟨deliveryInv_start, completionInv_start⟩ hmeets hrun
  exact ⟨inv.2.returned, inv.2.completes⟩

theorem submit_returns_own_result_waitingRun :
    ∃ s, run (waitingRun 0 0) = some s ∧
      .returned 0 (resultOf 1 "/a.ts".toList).egressJobFile ∈ s.history ∧
      ReturnsOwnResult s ∧ CompletesOwnJob s :=
  ⟨_, rfl, by decide, @submit_returns_own_result _ (waitingRun 0 0) rfl (by decide)⟩

/-- When the memory of the second job held `1`, its submitter gets the first job's output. -/
theorem stale_ticket_steals_result :
    ¬ ∀ (actions : List QueueAction) (s : QueueState), run actions = some s →
      ReturnsOwnResult s ∧ CompletesOwnJob s := by
  intro h
  obtain ⟨q, ticketId, object, hd, -⟩ :=
    (h (waitingRun 1 1) _ rfl).1 1 (resultOf 1 "/a.ts".toList).egressJobFile (by decide)
  have hdelivered : 1 ∈ (deliveries _).map Prod.fst :=
    List.mem_map_of_mem (mem_deliveries.mpr ⟨q, hd⟩)
  exact absurd hdelivered (by decide)

end QueueState

end SlimTS
