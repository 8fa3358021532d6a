import SlimTS.Queue.Delivery

/-!
# What the clean-up loop removes

After its job is completed, `submit` takes it out of the queue. The loop compares ticket numbers,
not addresses, so it takes out every job that carries the same number. Delivered jobs carry
different numbers, but a job no worker has taken carries whatever its memory held, and one that
happens to hold the same number is dropped: no worker will see it, and its submitter polls for
ever.

The condition is on the state in which the loop runs: no other job of the queue carries the
ticket. At each clean-up it decides exactly whether the loop removes its own job only; in runs
where every clean-up meets it, every job stays in its queue for as long as its `submit` call runs.
-/

namespace SlimTS

namespace QueueState

/-- No other job of its queue carries the ticket of the job that is cleaned up. -/
def CleansUpAlone (s : QueueState) : QueueAction → Prop
  | .cleanUp j => ∀ k ∈ s.queues (s.jobs j).queueNameString,
      (s.jobs k).ticketId = (s.jobs j).ticketId → k = j
  | _ => True

instance (s : QueueState) : ∀ a, Decidable (s.CleansUpAlone a)
  | .cleanUp j => inferInstanceAs (Decidable (∀ k ∈ s.queues (s.jobs j).queueNameString,
      (s.jobs k).ticketId = (s.jobs j).ticketId → k = j))
  | .submit _ _ | .poll _ | .getJob _ | .findJob _ _ | .complete _ => isTrue trivial

/-- The `submit` call for the job has pushed it and not returned. -/
def InSubmit (s : QueueState) (j : JobId) : Prop := s.phase j = .waiting ∨ s.phase j = .woken

/-- A step removes exactly the job `j`, from its own queue, and keeps the order of the others. -/
def RemovesExactly (s s' : QueueState) (j : JobId) : Prop :=
  j ∈ s.queues (s.jobs j).queueNameString ∧
    s'.queues = Function.update s.queues (s.jobs j).queueNameString
      ((s.queues (s.jobs j).queueNameString).erase j)

variable {s : QueueState}

/-- Filtering out one property of a duplicate-free list removes exactly one element just when no
other element has it. -/
private theorem filter_eq_erase_iff {v : List JobId} (hv : v.Nodup) {j : JobId}
    {p : JobId → Bool} (hpj : p j = false) :
    v.filter p = v.erase j ↔ ∀ k ∈ v, p k = false → k = j := by
  rw [hv.erase_eq_filter]
  constructor
  · intro heq k hk hpk
    by_contra hkj
    have hmem : k ∈ v.filter (· != j) := List.mem_filter.mpr ⟨hk, by simpa using hkj⟩
    rw [← heq, List.mem_filter, hpk] at hmem
    exact absurd hmem.2 (by decide)
  · intro honly
    refine List.filter_congr fun k hk ↦ ?_
    by_cases hkj : k = j
    · simp [hkj, hpj]
    · have hpk : p k = true := Bool.not_eq_false _ ▸ mt (honly k hk) hkj
      simp [hkj, hpk]

/-- **One clean-up.** The loop removes exactly its own job if and only if no other job of the
queue carries the same ticket. -/
theorem cleanUp_removesExactly_iff (inv : DeliveryInv s) {j : JobId}
    (hj : j ∈ s.queues (s.jobs j).queueNameString) :
    RemovesExactly s (s.cleanUp j) j ↔ s.CleansUpAlone (.cleanUp j) := by
  have hloop := @cleanUpLoop_eq_filter s.jobs (s.jobs j).ticketId []
    (s.queues (s.jobs j).queueNameString)
  rw [List.nil_append] at hloop
  have herase := filter_eq_erase_iff (inv.queue_nodup (s.jobs j).queueNameString) (j := j)
    (p := fun k ↦ decide ((s.jobs j).ticketId ≠ (s.jobs k).ticketId)) (by simp)
  rw [RemovesExactly, and_iff_right hj, cleanUp_queues, hloop,
    (Function.update_injective s.queues (s.jobs j).queueNameString).eq_iff, herase, CleansUpAlone]
  refine forall₂_congr fun k _ ↦ ?_
  rw [decide_eq_false_iff_not, not_not, eq_comm]

/-! ## Whole runs -/

/-- Every job whose `submit` call runs is in its queue. -/
def KeepsJobs (s : QueueState) : Prop :=
  ∀ j, s.InSubmit j → j ∈ s.queues (s.jobs j).queueNameString

theorem KeepsJobs.submit (hkeeps : KeepsJobs s) {j : JobId} (fresh : FreshJob) :
    KeepsJobs (s.submit j fresh) := by
  intro k hk
  by_cases hkj : k = j
  · subst hkj
    rw [submit_jobs, submit_queues, Function.update_self, FreshJob.ready_queueNameString,
      Function.update_self]
    simp
  · rw [InSubmit, submit_phase, Function.update_of_ne hkj] at hk
    rw [submit_jobs, submit_queues, Function.update_of_ne hkj, Function.update_apply]
    split
    · next hq => exact List.mem_append_left _ (hq ▸ hkeeps k hk)
    · exact hkeeps k hk

theorem KeepsJobs.cleanUp (hkeeps : KeepsJobs s) (inv : DeliveryInv s) {j : JobId}
    (hphase : s.phase j = .woken) (hcond : s.CleansUpAlone (.cleanUp j)) :
    KeepsJobs (s.cleanUp j) := by
  have hj := hkeeps j (Or.inr hphase)
  obtain ⟨-, hqueues⟩ := (cleanUp_removesExactly_iff inv hj).mpr hcond
  intro k hk
  have hkj : k ≠ j := by
    rintro rfl
    simp [InSubmit, cleanUp_phase] at hk
  rw [InSubmit, cleanUp_phase, Function.update_of_ne hkj] at hk
  rw [cleanUp_jobs, hqueues, Function.update_apply]
  split
  · next hq => exact (List.mem_erase_of_ne hkj).mpr (hq ▸ hkeeps k hk)
  · exact hkeeps k hk

theorem KeepsJobs.step {a : QueueAction} {s' : QueueState} (hkeeps : KeepsJobs s)
    (inv : DeliveryInv s) (hcond : s.CleansUpAlone a) (h : s.step a = some s') :
    KeepsJobs s' := by
  -- Only `cleanUp` takes jobs out of a queue.
  cases effect_of_step h with
  | submit j fresh hphase => exact hkeeps.submit fresh
  | wake j hphase hcompleted =>
    intro k hk
    refine hkeeps k ?_
    by_cases hkj : k = j
    · exact Or.inl (hkj ▸ hphase)
    · simpa [InSubmit, hkj] using hk
  | cleanUp j hphase => exact hkeeps.cleanUp inv hphase hcond
  | deliver queueName j hnext =>
    intro k hk
    rw [deliver_jobs, Function.update_apply]
    split
    · next hkj => exact hkj ▸ hkeeps k hk
    · exact hkeeps k hk
  | find object indeterminate j hfind => exact hkeeps
  | complete n object j hcall =>
    intro k hk
    rw [complete_jobs, Function.update_apply]
    split
    · next hkj => exact hkj ▸ hkeeps k hk
    · exact hkeeps k hk
  | idle => exact hkeeps

/-- **No job is lost.** In every run whose clean-ups meet the condition, every job is in its queue
for as long as its `submit` call runs, and the next clean-up removes exactly its own job if and
only if it meets the condition too. -/
theorem cleanUp_removes_own_job {actions : List QueueAction} (hrun : run actions = some s)
    (hmeets : Transition.Meets step CleansUpAlone start actions) :
    KeepsJobs s ∧ ∀ j s', s.step (.cleanUp j) = some s' →
      (RemovesExactly s s' j ↔ s.CleansUpAlone (.cleanUp j)) := by
  obtain ⟨inv, hkeeps⟩ : DeliveryInv s ∧ KeepsJobs s :=
    Transition.invariant_of_meets (I := fun s ↦ DeliveryInv s ∧ KeepsJobs s)
      (fun _ _ _ ⟨hdel, hkeeps⟩ hcond h ↦ ⟨hdel.step h, hkeeps.step hdel hcond h⟩)
      ⟨deliveryInv_start, fun _ hj ↦ by simp [InSubmit, start] at hj⟩ hmeets hrun
  refine ⟨hkeeps, fun j s' h ↦ ?_⟩
  rw [step, Option.ite_none_right_eq_some, Option.some_inj] at h
  obtain ⟨hphase, rfl⟩ := h
  exact cleanUp_removesExactly_iff inv (hkeeps j (Or.inr hphase))

theorem cleanUp_removes_own_job_lateRun :
    ∃ s, run (lateRun 0) = some s ∧ s.queues "typescript".toList = [1] ∧ KeepsJobs s ∧
      ∀ j s', s.step (.cleanUp j) = some s' →
        (RemovesExactly s s' j ↔ s.CleansUpAlone (.cleanUp j)) :=
  ⟨_, rfl, by decide, @cleanUp_removes_own_job _ (lateRun 0) rfl (by decide)⟩

/-- When the memory of the second job held `1`, the clean-up of the first removes both: the second
is in no queue, and its submitter goes on waiting. -/
theorem stale_ticket_loses_job :
    ¬ ∀ (actions : List QueueAction) (s : QueueState), run actions = some s →
      KeepsJobs s ∧ ∀ j s', s.step (.cleanUp j) = some s' → RemovesExactly s s' j := by
  intro h
  have hmem := (h (lateRun 1) _ rfl).1 1 (Or.inl (by decide))
  exact absurd hmem (by decide)

end QueueState

end SlimTS
