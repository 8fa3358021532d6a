import SlimTS.Module.ImportSpecifier
import SlimTS.Queue.Interleaving

/-!
# What becomes of a transpiler's errors

The worker collects errors in the array of the job object it completes, and the constructor that
submitted the job raises them if the job says that it has failed. In between, `complete` copies the
egress file and the `completed` flag and nothing else: the job keeps the empty list of errors and
the cleared flag it was constructed with. So a failed job looks like any other to its submitter, and
only jobs without errors come back as they should.
-/

namespace SlimTS

namespace QueueState

/-- The submitter of the job sees what the worker reported in the object. -/
structure SeesErrors (s : QueueState) (j : JobId) (object : JobObject) : Prop where
  errored : (s.jobs j).errored = true ↔ object.errors ≠ []
  errors : (s.jobs j).errors = object.errors
  /-- The constructor raises for the failed jobs. -/
  raises : ∀ store, (∃ text, takeTranspiled store (s.jobs j) = .ok (.raised text)) ↔
    object.errors ≠ []

/-- No job has an error. -/
def NoErrors (s : QueueState) : Prop :=
  ∀ j, (s.jobs j).errored = false ∧ (s.jobs j).errors = []

variable {s : QueueState}

theorem NoErrors.update (hs : NoErrors s) {j : JobId} {job : Job} (hflag : job.errored = false)
    (herrors : job.errors = []) (k : JobId) :
    (Function.update s.jobs j job k).errored = false ∧
      (Function.update s.jobs j job k).errors = [] := by
  rw [Function.update_apply]
  split
  · exact ⟨hflag, herrors⟩
  · exact hs k

theorem NoErrors.step {a : QueueAction} {s' : QueueState} (hs : NoErrors s)
    (h : s.step a = some s') : NoErrors s' := by
  cases effect_of_step h with
  | submit j fresh => exact hs.update fresh.ready_errored fresh.ready_errors
  | wake | cleanUp | find | idle => exact hs
  | deliver queueName j => exact hs.update (hs j).1 (hs j).2
  | complete n object j => exact hs.update (hs j).1 (hs j).2

theorem noErrors_of_run {actions : List QueueAction} (hrun : run actions = some s) : NoErrors s :=
  Transition.invariant_of_run (I := NoErrors) (fun _ _ _ hs h ↦ hs.step h)
    (fun _ ↦ ⟨rfl, rfl⟩) hrun

/-- A job without errors makes the constructor raise nothing. -/
theorem not_raised_of_not_errored {store : Store} {job : Job} (h : job.errored = false)
    (text : Str) : takeTranspiled store job ≠ .ok (.raised text) := by
  rw [takeTranspiled, h, if_neg Bool.false_ne_true]
  cases dereference (store.read job.egressJobFile.storageContainerHandle
    job.egressJobFile.fileNameString) <;> simp [Except.map]

/-- **Errors do not travel.** In every run, the submitter of a completed job sees what the worker
reported if and only if the worker reported no errors. -/
theorem seesErrors_iff {actions : List QueueAction} (hrun : run actions = some s) :
    ∀ j object, .completed object j ∈ s.history →
      (SeesErrors s j object ↔ object.errors = []) := by
  intro j object _
  obtain ⟨hflag, herrors⟩ := noErrors_of_run hrun j
  refine ⟨fun h ↦ h.errors ▸ herrors, fun h ↦ ⟨by simp [hflag, h], by rw [herrors, h], ?_⟩⟩
  intro store
  simp [not_raised_of_not_errored hflag, h]

theorem seesErrors_iff_waitingRun :
    ∃ s, run (waitingRun 0 0) = some s ∧
      (SeesErrors s 0 (resultOf 1 "/a.ts".toList) ↔ (resultOf 1 "/a.ts".toList).errors = []) :=
  ⟨_, rfl, @seesErrors_iff _ (waitingRun 0 0) rfl _ _ (by decide)⟩

/-- What the worker passes to `complete` when `/a.ts` does not compile. -/
def failureOf (ticketId : ℤ) (name : Str) : JobObject :=
  { resultOf ticketId name with errors := ["TS1005: ';' expected.".toList] }

/-- The job of `/a.ts` fails, and its submitter returns. -/
def failedRun : List QueueAction :=
  [.submit 0 (importJob 0 "/a.ts".toList), .getJob "typescript".toList,
    .findJob (failureOf 1 "/a.ts".toList) none, .complete 0, .poll 0, .cleanUp 0]

/-- The submitter of a failed job sees no error. -/
theorem failed_job_looks_done :
    ¬ ∀ (actions : List QueueAction) (s : QueueState) (j : JobId) (object : JobObject),
      run actions = some s → .completed object j ∈ s.history → SeesErrors s j object := by
  intro h
  have herrors := (h failedRun _ 0 (failureOf 1 "/a.ts".toList) rfl (by decide)).errors
  exact absurd herrors (by decide)

end QueueState

end SlimTS
