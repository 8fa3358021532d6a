import SlimTS.Queue.Delivery

/-!
# The worker's loop

`job_loop` of the TypeScript worker: it asks `queue.listen` for a job, hands the job to the compiler
in `executeCommandLine`, and asks again. The job is marked completed in the callback the compiler
calls on exit, through `job::complete`. What the compiler does is in the actions: it exits, having
named the file it wrote, or it throws. The loop runs beside everything else that happens on the
queues.

An exception is caught and reported, and the loop asks for the next job without having completed the
one it has. Without exceptions every job is completed before the next is asked for, as long as
`find_job` finds the job whose ticket it is given (`received_completed_of_run`).
-/

namespace SlimTS

/-! ## The loop -/

/-- A value thrown in JavaScript. -/
inductive Thrown
  /-- `null` or `undefined`, which have no `message` to read. -/
  | nullish
  | value
deriving DecidableEq, Repr

/-- What a call of `executeCommandLine` does. -/
inductive CompilerOutcome
  /-- It calls its exit callback, with this name for the egress file in the job. -/
  | exits (egressFileName : Str)
  | throws (error : Thrown)
deriving DecidableEq, Repr

/-- Where `job_loop` stands, with `sys.job`. -/
inductive LoopPhase
  /-- In `queue.listen`. -/
  | listening
  /-- Before `executeCommandLine`. -/
  | compiling (j : JobId) (object : JobObject)
  /-- In the exit callback, before the first critical section of `complete`. -/
  | completing (j : JobId) (object : JobObject)
  /-- Before the second, with the job that `find_job` returned. -/
  | writing (j : JobId) (object : JobObject) (found : JobId)
  /-- An exception has left the loop. -/
  | ended
deriving DecidableEq

/-- The job the worker has in hand. -/
def LoopPhase.job : LoopPhase → Option JobId
  | .compiling j _ | .completing j _ | .writing j _ _ => some j
  | .listening | .ended => none

/-- The queues, and the worker. -/
structure WorkerState where
  queue : QueueState
  phase : LoopPhase
  /-- The jobs the worker has been given, kept for stating properties. -/
  received : List JobId

/-- One step. -/
inductive LoopAction
  /-- A step of another party. -/
  | other (a : QueueAction)
  /-- One turn of the loop of `get_job` inside `queue.listen`. -/
  | listen
  /-- `executeCommandLine`. -/
  | execute (outcome : CompilerOutcome)
  /-- `complete`, first section: `find_job`, whose pointer held `indeterminate`. -/
  | find (indeterminate : Option JobId)
  /-- `complete`, second section. -/
  | write

/-- The queue the worker listens on. -/
def typescriptQueue : Str := "typescript".toList

/-- The second critical section of `complete`, of a call that found `j`. -/
def QueueState.completeFound (s : QueueState) (object : JobObject) (j : JobId) : QueueState :=
  { s with
    jobs := Function.update s.jobs j ((s.jobs j).complete object)
    history := s.history ++ [.completed object j] }

namespace WorkerState

/-- The state at program start. -/
def start : WorkerState := ⟨.start, .listening, []⟩

variable (s : WorkerState)

/-- `queue.listen`, one turn: without a deliverable job it sleeps and tries again. -/
def listen : WorkerState :=
  match nextJob s.queue.jobs (s.queue.queues typescriptQueue) with
  | none => s
  | some j =>
    { queue := s.queue.deliver typescriptQueue j
      phase := .compiling j ((s.queue.deliver typescriptQueue j).jobs j).listen
      received := s.received ++ [j] }

/-- The body of the loop. The handler reads `error.message`, which throws for a value that has no
members. -/
def execute (j : JobId) (object : JobObject) : CompilerOutcome → WorkerState
  | .exits egressFileName =>
    { s with
      phase := .completing j
        { object with egressJobFile := { object.egressJobFile with
          fileNameString := egressFileName } } }
  -- Nothing catches what the handler throws.
  | .throws .nullish => { s with phase := .ended }
  | .throws .value => { s with phase := .listening }

/-- `complete`, first section. A null pointer ends the call. -/
def find (j : JobId) (object : JobObject) (indeterminate : Option JobId) : WorkerState :=
  match SlimTS.findJob s.queue.jobs object.ticketId indeterminate
    (s.queue.queues object.queueNameString) with
  | none => { s with phase := .listening }
  | some found => { s with phase := .writing j object found }

/-- `complete`, second section. -/
def write (object : JobObject) (found : JobId) : WorkerState :=
  { s with
    queue := s.queue.completeFound object found
    phase := .listening }

/-- One step of the system. -/
def step : LoopAction → Option WorkerState
  | .other a => (s.queue.step a).map fun queue ↦ { s with queue := queue }
  | .listen =>
    match s.phase with
    | .listening => some s.listen
    | _ => none
  | .execute outcome =>
    match s.phase with
    | .compiling j object => some (s.execute j object outcome)
    | _ => none
  | .find indeterminate =>
    match s.phase with
    | .completing j object => some (s.find j object indeterminate)
    | _ => none
  | .write =>
    match s.phase with
    | .writing _ object found => some (s.write object found)
    | _ => none

end WorkerState

/-! ## What `find_job` finds -/

/-- The last job of a vector that carries a ticket. -/
def lastWithTicket (jobs : JobId → Job) (ticketId : ℤ) (v : List JobId) : Option JobId :=
  (v.filter fun j ↦ decide ((jobs j).ticketId = ticketId)).getLast?

/-- The search of `find_job` in one line. -/
theorem findJob_eq_or (jobs : JobId → Job) (ticketId : ℤ) (found : Option JobId)
    (v : List JobId) :
    findJob jobs ticketId found v = (lastWithTicket jobs ticketId v).or found := by
  induction v generalizing found with
  | nil => rfl
  | cons j v ih =>
    rw [findJob, ih, lastWithTicket, lastWithTicket]
    by_cases hj : (jobs j).ticketId = ticketId
    · rw [if_pos hj, List.filter_cons_of_pos (by simp [hj]), List.getLast?_cons]
      cases (v.filter fun k ↦ decide ((jobs k).ticketId = ticketId)).getLast? <;> rfl
    · rw [if_neg hj, List.filter_cons_of_neg (by simp [hj])]

namespace WorkerState

/-- What a step needs for the worker to complete its job: the compiler does not throw, and the last
job of the queue with the ticket that `complete` was given is the one the worker has. -/
def CompletesItsJob (s : WorkerState) : LoopAction → Prop
  | .execute (.throws _) => False
  | .find _ =>
    match s.phase with
    | .completing j object => lastWithTicket s.queue.jobs object.ticketId
        (s.queue.queues object.queueNameString) = some j
    | _ => True
  | _ => True

instance (s : WorkerState) : ∀ a, Decidable (s.CompletesItsJob a)
  | .execute (.throws _) => isFalse id
  | .execute (.exits _) | .other _ | .listen | .write => isTrue trivial
  | .find _ =>
    match h : s.phase with
    | .completing j object => decidable_of_iff (lastWithTicket s.queue.jobs object.ticketId
        (s.queue.queues object.queueNameString) = some j) (by simp only [CompletesItsJob, h])
    | .listening | .compiling _ _ | .writing _ _ _ | .ended =>
      isTrue (by simp only [CompletesItsJob, h])

variable {s : WorkerState}

/-! ## The invariant -/

/-- What the loop keeps. -/
structure LoopInv (s : WorkerState) : Prop where
  queue : s.queue.DeliveryInv
  /-- A job that was received has a `submit` call. -/
  submitted : ∀ j ∈ s.received, s.queue.phase j ≠ .absent
  /-- A job that was received is completed or in hand. -/
  completed : ∀ j ∈ s.received, (s.queue.jobs j).completed = true ∨ s.phase.job = some j
  /-- `find_job` has found the job in hand. -/
  found : ∀ j object k, s.phase = .writing j object k → k = j

theorem loopInv_start : LoopInv start where
  queue := QueueState.deliveryInv_start
  submitted _ hj := absurd hj List.not_mem_nil
  completed _ hj := absurd hj List.not_mem_nil
  found _ _ _ h := absurd h (by simp [start])

/-- No step on the queues takes back that a submitted job is completed. -/
theorem completed_of_step {q q' : QueueState} {a : QueueAction} (h : q.step a = some q') {j : JobId}
    (hphase : q.phase j ≠ .absent) :
    q'.phase j ≠ .absent ∧
      ((q.jobs j).completed = true → (q'.jobs j).completed = true) := by
  cases QueueState.effect_of_step h with
  | submit k fresh habsent =>
    have hjk : j ≠ k := fun hjk ↦ hphase (hjk ▸ habsent)
    rw [QueueState.submit_phase, QueueState.submit_jobs, Function.update_of_ne hjk,
      Function.update_of_ne hjk]
    exact ⟨hphase, id⟩
  | wake k => exact ⟨QueueState.phase_update_ne_absent (by decide) hphase, id⟩
  | cleanUp k => exact ⟨QueueState.phase_update_ne_absent (by decide) hphase, id⟩
  | deliver queueName k hnext =>
    refine ⟨hphase, fun hcompleted ↦ ?_⟩
    rw [QueueState.deliver_jobs, Function.update_apply]
    split
    · next hjk => exact hjk ▸ hcompleted
    · exact hcompleted
  | find => exact ⟨hphase, id⟩
  | complete n object k hcall =>
    refine ⟨hphase, fun hcompleted ↦ ?_⟩
    rw [QueueState.complete_jobs, Function.update_apply]
    split
    · rfl
    · exact hcompleted
  | idle => exact ⟨hphase, id⟩

theorem LoopInv.other (inv : LoopInv s) {a : QueueAction} {queue : QueueState}
    (h : s.queue.step a = some queue) : LoopInv { s with queue := queue } where
  queue := inv.queue.step h
  submitted j hj := (completed_of_step h (inv.submitted j hj)).1
  completed j hj :=
    (inv.completed j hj).imp_left (completed_of_step h (inv.submitted j hj)).2
  found := inv.found

/-- A move that keeps the job in hand. -/
theorem LoopInv.moveTo (inv : LoopInv s) {phase : LoopPhase} (hjob : phase.job = s.phase.job)
    (hfound : ∀ j object k, phase = .writing j object k → k = j) :
    LoopInv { s with phase := phase } where
  queue := inv.queue
  submitted := inv.submitted
  completed j hj := (inv.completed j hj).imp_right hjob.trans
  found := hfound

theorem LoopInv.listen (inv : LoopInv s) (hphase : s.phase = .listening) : LoopInv s.listen := by
  rw [WorkerState.listen]
  split
  · exact inv
  · next j hnext =>
    have hstep : s.queue.step (.getJob typescriptQueue)
        = some (s.queue.deliver typescriptQueue j) := by
      rw [QueueState.step, QueueState.getJob, hnext]
    obtain ⟨before, after, hsplit, -, -⟩ := nextJob_eq_some hnext
    have hj : s.queue.phase j ≠ .absent :=
      (inv.queue.queued typescriptQueue j (by simp [hsplit])).2.2
    refine ⟨inv.queue.step hstep, ?_, ?_, ?_⟩
    · intro k hk
      rcases List.mem_append.mp hk with hk | hk
      · exact (completed_of_step hstep (inv.submitted k hk)).1
      · rw [List.mem_singleton.mp hk]
        exact hj
    · intro k hk
      rcases List.mem_append.mp hk with hk | hk
      · rcases inv.completed k hk with hcompleted | hhand
        · exact .inl ((completed_of_step hstep (inv.submitted k hk)).2 hcompleted)
        · exact absurd hhand (by simp [hphase, LoopPhase.job])
      · exact .inr (congrArg some (List.mem_singleton.mp hk).symm)
    · intro k object k' h
      exact absurd h (by simp)

theorem write_jobs (s : WorkerState) (object : JobObject) (found : JobId) :
    (s.write object found).queue.jobs
      = Function.update s.queue.jobs found ((s.queue.jobs found).complete object) :=
  rfl

theorem LoopInv.write (inv : LoopInv s) {j found : JobId} {object : JobObject}
    (hphase : s.phase = .writing j object found) : LoopInv (s.write object found) := by
  have hfound : found = j := inv.found j object found hphase
  have hjobs : ∀ k, ((s.write object found).queue.jobs k).queueNameString
        = (s.queue.jobs k).queueNameString ∧
      ((s.write object found).queue.jobs k).readyToProcess = (s.queue.jobs k).readyToProcess ∧
      ((s.write object found).queue.jobs k).submitted = (s.queue.jobs k).submitted := by
    intro k
    rw [write_jobs]
    by_cases hk : k = found
    · subst hk
      simp
    · simp [Function.update_of_ne hk]
  refine ⟨?_, inv.submitted, ?_, ?_⟩
  · exact inv.queue.of_frame hjobs rfl rfl (fun _ hk ↦ hk)
      (by simp [WorkerState.write, QueueState.completeFound])
      (by simp [WorkerState.write, QueueState.completeFound])
      (by simp [WorkerState.write, QueueState.completeFound])
  · intro k hk
    left
    rw [write_jobs, Function.update_apply]
    split
    · rfl
    · next hne =>
      refine (inv.completed k hk).resolve_right fun hhand ↦ hne ?_
      rw [hphase, LoopPhase.job, Option.some_inj] at hhand
      exact hhand.symm.trans hfound.symm
  · intro k object' k' h
    exact absurd h (by simp [WorkerState.write])

theorem LoopInv.step {a : LoopAction} {s' : WorkerState} (inv : LoopInv s)
    (hcond : s.CompletesItsJob a) (h : s.step a = some s') : LoopInv s' := by
  cases a with
  | other a =>
    obtain ⟨queue, hqueue, rfl⟩ := Option.map_eq_some_iff.mp h
    exact inv.other hqueue
  | listen =>
    rw [WorkerState.step] at h
    split at h
    · next hphase =>
      rw [Option.some_inj] at h
      exact h ▸ inv.listen hphase
    · exact absurd h (by simp)
  | execute outcome =>
    rw [WorkerState.step] at h
    split at h
    · next j object hphase =>
      cases outcome with
      -- The condition excludes a handler that throws.
      | throws error => exact hcond.elim
      | exits egressFileName =>
        rw [Option.some_inj] at h
        refine h ▸ inv.moveTo ?_ fun _ _ _ hwriting ↦ absurd hwriting (by simp)
        rw [hphase]
        rfl
    · exact absurd h (by simp)
  | find indeterminate =>
    rw [WorkerState.step] at h
    split at h
    · next j object hphase =>
      rw [CompletesItsJob, hphase] at hcond
      rw [Option.some_inj, WorkerState.find, findJob_eq_or, hcond] at h
      refine h ▸ inv.moveTo ?_ fun _ _ _ hwriting ↦ ?_
      · rw [hphase]
        rfl
      · obtain ⟨rfl, -, rfl⟩ := LoopPhase.writing.inj hwriting
        rfl
    · exact absurd h (by simp)
  | write =>
    rw [WorkerState.step] at h
    split at h
    · next j object found hphase =>
      rw [Option.some_inj] at h
      exact h ▸ inv.write hphase
    · exact absurd h (by simp)

/-! ## Every run -/

/-- **No job is abandoned.** In every run in which the compiler throws for no job and each search of
`complete` ends at the job in hand, whenever the worker asks for the next job all the jobs it has
been given are completed, and a submitter that waits for one of them has to poll only once more. -/
theorem received_completed_of_run {actions : List LoopAction}
    (hrun : Transition.runFrom step start actions = some s)
    (hmeets : Transition.Meets step CompletesItsJob start actions)
    (hphase : s.phase = .listening) :
    ∀ j ∈ s.received, (s.queue.jobs j).completed = true ∧
      (s.queue.phase j = .waiting → ∃ queue, s.queue.step (.poll j) = some queue ∧
        queue.phase j = .woken) := by
  have inv : LoopInv s :=
    Transition.invariant_of_meets (fun _ _ _ inv hcond h ↦ inv.step hcond h) loopInv_start hmeets
      hrun
  intro j hj
  have hcompleted : (s.queue.jobs j).completed = true :=
    (inv.completed j hj).resolve_right (by simp [hphase, LoopPhase.job])
  refine ⟨hcompleted, fun hwaiting ↦ ⟨s.queue.poll j, if_pos hwaiting, ?_⟩⟩
  rw [QueueState.poll, if_pos hcompleted]
  exact Function.update_self _ _ _

/-- A job is pushed, received and completed. -/
theorem received_completed_of_run_oneJob :
    ∃ s, Transition.runFrom step start
        [.other (.submit 0 (QueueState.importJob 0 "/a.ts".toList)), .listen,
          .execute (.exits "file:///a.ts".toList), .find none, .write] = some s ∧
      s.received = [0] ∧
      ∀ j ∈ s.received, (s.queue.jobs j).completed = true ∧
        (s.queue.phase j = .waiting → ∃ queue, s.queue.step (.poll j) = some queue ∧
          queue.phase j = .woken) :=
  ⟨_, rfl, rfl, @received_completed_of_run _
    [.other (.submit 0 (QueueState.importJob 0 "/a.ts".toList)), .listen,
      .execute (.exits "file:///a.ts".toList), .find none, .write] rfl (by decide) rfl⟩

/-- The compiler throws for the one job, and the worker listens again. -/
theorem received_thrown :
    ∃ s, Transition.runFrom step start
        [.other (.submit 0 (QueueState.importJob 0 "/a.ts".toList)), .listen,
          .execute (.throws .value), .listen] = some s ∧
      s.phase = .listening ∧ s.received = [0] ∧ (s.queue.jobs 0).completed = false ∧
      s.queue.phase 0 = .waiting :=
  ⟨_, rfl, rfl, rfl, rfl, rfl⟩

end WorkerState

end SlimTS
