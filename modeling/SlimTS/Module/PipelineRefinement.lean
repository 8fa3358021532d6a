import SlimTS.Module.Pipeline

/-!
# The two threads make one program

The import specifiers of the module layer take a `submit` for one step that changes the store and
the job. Here this is shown of the two threads. The program without a worker thread has a `submit`
that is one call of the compiler (`Direct`). Whatever the compiler does and however the threads take
turns, the script sees the imports of that program: every constructor returns or throws what
`Environment.construct` gives for that `submit`, on the store and the compiler's memory that the
calls before it have left (`construct_of_run`).

An import is one step of the program without a thread, taken when the constructor returns, and the
steps before are invisible. `Stage` is the invariant. It says for each place where the two threads
can stand together what the queue holds, and that what remains of the compilation ends as the whole
of it would on the store the script has left.
-/

namespace SlimTS

/-! ## The program without a worker thread -/

/-- Its state: the store, what the compiler keeps, and how many jobs it has had. -/
structure Direct (Memory : Type) where
  store : Store
  memory : Memory
  served : ℕ

namespace Direct

variable {Memory : Type} (compiler : Compiler Memory) (t : Direct Memory)

/-- Its `submit`, where it returns. -/
def submit (store : Store) (fresh : FreshJob) : Store × Job :=
  match compiler.transpile t.memory (t.served + 1) store fresh with
  | some (store, job, _) => (store, job)
  | none => (store, fresh.ready)

/-- The state behind an import. There is none if `submit` does not return. -/
def importFile (call : ImportCall) : Option (Direct Memory) :=
  match h : call.fetch with
  | .error _ => some t
  | .ok (resolution, text) =>
    let pending : PendingImport := ⟨call, resolution, text, h⟩
    (compiler.transpile t.memory (t.served + 1) (pending.written t.store) pending.job).map
      fun result ↦ ⟨result.1, result.2.2, t.served + 1⟩

/-- One call of the script. -/
inductive Next : ScriptEvent → Direct Memory → Prop
  | wrote (mapName fileName : Str) (content : ContentVariant) :
      Next (.wrote mapName fileName content)
        { t with store := t.store.write mapName fileName content }
  | imported {call : ImportCall} {u : Direct Memory} (h : t.importFile compiler call = some u) :
      Next (.imported call (call.construct t.store (t.submit compiler))) u

/-- The calls of the script, from a state on, and the state behind them. -/
inductive Sees : List ScriptEvent → Direct Memory → Prop
  | nil : Sees [] t
  | snoc {events : List ScriptEvent} {e : ScriptEvent} {u v : Direct Memory}
      (h : Sees events u) (hnext : Next compiler u e v) : Sees (events ++ [e]) v

/-- The job of a pending import, delivered. -/
def delivered (pending : PendingImport) : Job :=
  { pending.job.ready with ticketId := t.served + 1, submitted := true }

/-- Its compilation. -/
def compilationEnd (pending : PendingImport) : CompilationEnd Memory :=
  compiler.compileJob t.memory (pending.written t.store) (t.delivered pending)

variable {compiler} {t}

theorem transpile_of_exited {pending : PendingImport} {sys : Sys} {memory : Memory}
    (h : t.compilationEnd compiler pending = .exited sys memory) :
    compiler.transpile t.memory (t.served + 1) (pending.written t.store) pending.job
      = some (sys.store, (t.delivered pending).complete sys.job, memory) := by
  rw [compilationEnd, delivered] at h
  rw [Compiler.transpile]
  simp only [h]
  rfl

/-- A `submit` of a job whose compilation exits. -/
theorem submit_of_exited {pending : PendingImport} {sys : Sys} {memory : Memory}
    (h : t.compilationEnd compiler pending = .exited sys memory) :
    t.submit compiler (pending.written t.store) pending.job
      = (sys.store, (t.delivered pending).complete sys.job) := by
  rw [submit, transpile_of_exited h]

/-- An import whose compilation exits is one step. -/
theorem next_of_exited {pending : PendingImport} {sys : Sys} {memory : Memory}
    (h : t.compilationEnd compiler pending = .exited sys memory) :
    Next compiler t
      (.imported pending.call (pending.finish sys.store ((t.delivered pending).complete sys.job)))
      ⟨sys.store, memory, t.served + 1⟩ := by
  have htranspile := transpile_of_exited h
  have himport : t.importFile compiler pending.call
      = some ⟨sys.store, memory, t.served + 1⟩ := by
    rw [importFile]
    split
    · next fault hfetch => exact absurd (hfetch.symm.trans pending.fetch_eq) (by simp)
    · next resolution text hfetch =>
      obtain ⟨rfl, rfl⟩ := Prod.mk.inj (Except.ok.inj (hfetch.symm.trans pending.fetch_eq))
      simp only [htranspile, Option.map_some]
  have hnext := Next.imported himport
  rwa [construct_of_pending, submit_of_exited h] at hnext

/-- An import that throws before it writes the source is one step too. -/
theorem next_of_fetch_error {call : ImportCall} {fault : Fault} (h : call.fetch = .error fault) :
    Next compiler t (.imported call (.error fault)) t := by
  have himport : t.importFile compiler call = some t := by
    rw [importFile]
    split
    · rfl
    · next hfetch => exact absurd (h.symm.trans hfetch) (by simp)
  have hnext := Next.imported himport
  rwa [construct_of_fetch_error h] at hnext

end Direct

/-! ## Where the threads can stand together -/

namespace Pipeline

variable {Memory : Type}

/-- The queue of the worker. -/
def queued (s : Pipeline Memory) : List JobId := s.worker.queue.queues typescriptQueue

/-- How many jobs have been delivered. -/
def delivered (s : Pipeline Memory) : ℕ := (deliveries s.worker.queue.history).length

/-- No job is under way, `n` have been delivered, and the tickets have not overflowed. -/
structure Idle (s : Pipeline Memory) (n : ℕ) : Prop where
  phase : s.worker.phase = .listening
  queued : s.queued = []
  delivered : s.delivered = n
  ticketId : s.worker.queue.ticketId = n

/-- The script waits in `submit` for the job, the only one of its queue. -/
structure Waiting (s : Pipeline Memory) (pending : PendingImport) (j : JobId) (job : Job) (n : ℕ) :
    Prop where
  script : s.script = .waiting pending j
  queued : s.queued = [j]
  job : s.worker.queue.jobs j = job
  delivered : s.delivered = n
  ticketId : s.worker.queue.ticketId = n

/-- The places where the two threads can stand together, when the calls of the script so far have
led the program without a worker thread to `t`. -/
inductive Stage (compiler : Compiler Memory) (t : Direct Memory) (s : Pipeline Memory) : Prop
  /-- No import is under way. -/
  | running (hscript : s.script = .running) (hidle : s.Idle t.served) (hstore : s.store = t.store)
      (hmemory : s.memory = t.memory)
  /-- The source is written. -/
  | submitting (pending : PendingImport) (hscript : s.script = .submitting pending)
      (hidle : s.Idle t.served) (hstore : s.store = pending.written t.store)
      (hmemory : s.memory = t.memory)
  /-- The job is pushed. -/
  | pushed (pending : PendingImport) (j : JobId)
      (hwaiting : s.Waiting pending j pending.job.ready t.served)
      (hphase : s.worker.phase = .listening) (hpolls : s.worker.queue.phase j = .waiting)
      (hstore : s.store = pending.written t.store) (hmemory : s.memory = t.memory)
  /-- The compiler runs. What is left of the compilation ends as the whole would. -/
  | compiling (pending : PendingImport) (j : JobId) (object : JobObject)
      (compilation : Compilation Memory)
      (hwaiting : s.Waiting pending j (t.delivered pending) (t.served + 1))
      (hphase : s.worker.phase = .compiling j object) (hpolls : s.worker.queue.phase j = .waiting)
      (hcompilation : s.compilation = some compilation)
      (hticket : object.ticketId = t.served + 1)
      (hname : object.queueNameString = typescriptQueue)
      (hend : compiler.compile compilation ⟨s.store, object⟩ = t.compilationEnd compiler pending)
  /-- In the exit callback, before one of the sections of `complete`. -/
  | completing (pending : PendingImport) (j : JobId) (object : JobObject)
      (hwaiting : s.Waiting pending j (t.delivered pending) (t.served + 1))
      (hphase : s.worker.phase = .completing j object ∨ s.worker.phase = .writing j object j)
      (hpolls : s.worker.queue.phase j = .waiting)
      (hticket : object.ticketId = t.served + 1)
      (hname : object.queueNameString = typescriptQueue)
      (hend : t.compilationEnd compiler pending = .exited ⟨s.store, object⟩ s.memory)
  /-- The job is completed, and the poll has seen it or not. -/
  | completed (pending : PendingImport) (j : JobId) (object : JobObject)
      (hwaiting : s.Waiting pending j ((t.delivered pending).complete object) (t.served + 1))
      (hphase : s.worker.phase = .listening)
      (hpolls : s.worker.queue.phase j = .waiting ∨ s.worker.queue.phase j = .woken)
      (hend : t.compilationEnd compiler pending = .exited ⟨s.store, object⟩ s.memory)
  /-- `submit` has returned. -/
  | taking (pending : PendingImport) (j : JobId) (object : JobObject)
      (hscript : s.script = .taking pending j) (hidle : s.Idle (t.served + 1))
      (hjob : s.worker.queue.jobs j = (t.delivered pending).complete object)
      (hend : t.compilationEnd compiler pending = .exited ⟨s.store, object⟩ s.memory)
  /-- The compiler has thrown, and nobody will complete the job. -/
  | lost (pending : PendingImport) (j : JobId) (job : Job)
      (hwaiting : s.Waiting pending j job (t.served + 1))
      (hphase : s.worker.phase = .listening ∨ s.worker.phase = .ended)
      (hpolls : s.worker.queue.phase j = .waiting) (hcompleted : job.completed = false)
      (hsubmitted : job.submitted = true)
      (hend : ∀ sys memory, t.compilationEnd compiler pending ≠ .exited sys memory)
  /-- A null pointer has ended the program. -/
  | ended (hscript : s.script = .ended)

/-! ## The loops over a queue of one job -/

section OneJob

variable {jobs : JobId → Job} {j : JobId}

theorem nextJob_singleton (h : deliverable jobs j = true) : nextJob jobs [j] = some j := by
  rw [nextJob, if_pos h]

theorem nextJob_singleton_submitted (h : (jobs j).submitted = true) : nextJob jobs [j] = none := by
  rw [nextJob, if_neg (by simp [deliverable, h]), nextJob]

theorem findJob_singleton {ticketId : ℤ} (h : (jobs j).ticketId = ticketId)
    (indeterminate : Option JobId) : findJob jobs ticketId indeterminate [j] = some j := by
  rw [findJob, if_pos h, findJob]

theorem cleanUpLoop_singleton : cleanUpLoop jobs (jobs j).ticketId [] [j] = [] := by
  rw [cleanUpLoop, if_pos rfl, cleanUpLoop]

end OneJob

/-! ## Telling the stages apart -/

variable {compiler : Compiler Memory} {t : Direct Memory} {s s' : Pipeline Memory}

section Inversion

variable {pending : PendingImport} {j : JobId} {object : JobObject}

theorem Stage.of_running (h : Stage compiler t s) (hscript : s.script = .running) :
    s.Idle t.served ∧ s.store = t.store ∧ s.memory = t.memory := by
  cases h with
  | running _ hidle hstore hmemory => exact ⟨hidle, hstore, hmemory⟩
  | submitting _ hscript' | taking _ _ _ hscript' | ended hscript' =>
    cases hscript.symm.trans hscript'
  | pushed _ _ hwaiting | compiling _ _ _ _ hwaiting | completing _ _ _ hwaiting
  | completed _ _ _ hwaiting | lost _ _ _ hwaiting => cases hscript.symm.trans hwaiting.script

theorem Stage.of_submitting (h : Stage compiler t s) (hscript : s.script = .submitting pending) :
    s.Idle t.served ∧ s.store = pending.written t.store ∧ s.memory = t.memory := by
  cases h with
  | submitting _ hscript' hidle hstore hmemory =>
    cases hscript.symm.trans hscript'
    exact ⟨hidle, hstore, hmemory⟩
  | running hscript' | taking _ _ _ hscript' | ended hscript' =>
    cases hscript.symm.trans hscript'
  | pushed _ _ hwaiting | compiling _ _ _ _ hwaiting | completing _ _ _ hwaiting
  | completed _ _ _ hwaiting | lost _ _ _ hwaiting => cases hscript.symm.trans hwaiting.script

theorem Stage.of_taking (h : Stage compiler t s) (hscript : s.script = .taking pending j) :
    ∃ object, s.Idle (t.served + 1) ∧
      s.worker.queue.jobs j = (t.delivered pending).complete object ∧
      t.compilationEnd compiler pending = .exited ⟨s.store, object⟩ s.memory := by
  cases h with
  | taking _ _ object hscript' hidle hjob hend =>
    cases hscript.symm.trans hscript'
    exact ⟨object, hidle, hjob, hend⟩
  | running hscript' | submitting _ hscript' | ended hscript' =>
    cases hscript.symm.trans hscript'
  | pushed _ _ hwaiting | compiling _ _ _ _ hwaiting | completing _ _ _ hwaiting
  | completed _ _ _ hwaiting | lost _ _ _ hwaiting => cases hscript.symm.trans hwaiting.script

end Inversion

/-! ## The steps of the script's thread -/

/-- What a step comes to in the program without a worker thread: nothing, or a call of the script
that is over. -/
def Answers (compiler : Compiler Memory) (t : Direct Memory) (s s' : Pipeline Memory) : Prop :=
  s'.events = s.events ∧ Stage compiler t s' ∨
    ∃ e u, s'.events = s.events ++ [e] ∧ t.Next compiler e u ∧ Stage compiler u s'

theorem Idle.congr {n : ℕ} (h : s.Idle n) (hworker : s'.worker = s.worker) : s'.Idle n where
  phase := hworker ▸ h.phase
  queued := by
    rw [Pipeline.queued, hworker]
    exact h.queued
  delivered := by
    rw [Pipeline.delivered, hworker]
    exact h.delivered
  ticketId := hworker ▸ h.ticketId

theorem Stage.write (h : Stage compiler t s) (hscript : s.script = .running)
    (mapName fileName : Str) (content : ContentVariant) :
    Answers compiler t s
      { s with
        store := s.store.write mapName fileName content
        events := s.events ++ [.wrote mapName fileName content] } := by
  obtain ⟨hidle, hstore, hmemory⟩ := h.of_running hscript
  refine .inr ⟨_, _, rfl, .wrote mapName fileName content, .running hscript (hidle.congr rfl) ?_
    hmemory⟩
  rw [hstore]

theorem Stage.begin (h : Stage compiler t s) (hscript : s.script = .running) (call : ImportCall) :
    Answers compiler t s (s.begin call) := by
  obtain ⟨hidle, hstore, hmemory⟩ := h.of_running hscript
  rw [Pipeline.begin]
  split
  · next fault hfetch =>
    exact .inr ⟨_, _, rfl, Direct.next_of_fetch_error hfetch,
      .running hscript (hidle.congr rfl) hstore hmemory⟩
  · next resolution text hfetch =>
    refine .inl ⟨rfl, .submitting ⟨call, resolution, text, hfetch⟩ rfl (hidle.congr rfl) ?_
      hmemory⟩
    rw [hstore]

/-- A push makes the job the only one of its queue. -/
theorem Idle.waiting_submit {n : ℕ} (h : s.Idle n) (pending : PendingImport) (j : JobId) :
    Waiting
      { s with
        script := .waiting pending j
        worker := { s.worker with queue := s.worker.queue.submit j pending.job } }
      pending j pending.job.ready n where
  script := rfl
  queued := by
    have hempty : s.worker.queue.queues typescriptQueue = [] := h.queued
    have hname : pending.job.queueNameString = typescriptQueue := rfl
    rw [Pipeline.queued, QueueState.submit_queues, hname, Function.update_self, hempty,
      List.nil_append]
  job := Function.update_self _ _ _
  delivered := by
    rw [Pipeline.delivered, QueueState.deliveries_submit]
    exact h.delivered
  ticketId := h.ticketId

theorem Stage.submit (h : Stage compiler t s) {pending : PendingImport}
    (hscript : s.script = .submitting pending) {j : JobId} {worker : WorkerState}
    (hworker : s.worker.step (.other (.submit j pending.job)) = some worker) :
    Stage compiler t { s with script := .waiting pending j, worker := worker } := by
  obtain ⟨hidle, hstore, hmemory⟩ := h.of_submitting hscript
  obtain ⟨queue, hqueue, rfl⟩ := Option.map_eq_some_iff.mp hworker
  rw [QueueState.step, Option.ite_none_right_eq_some, Option.some_inj] at hqueue
  obtain ⟨-, rfl⟩ := hqueue
  exact .pushed pending j (hidle.waiting_submit pending j) hidle.phase (Function.update_self _ _ _)
    hstore hmemory

theorem Stage.take (h : Stage compiler t s) {pending : PendingImport} {j : JobId}
    (hscript : s.script = .taking pending j) : Answers compiler t s (s.take pending j) := by
  obtain ⟨object, hidle, hjob, hend⟩ := h.of_taking hscript
  have hnext := Direct.next_of_exited hend
  rw [← hjob] at hnext
  refine .inr ⟨_, _, rfl, hnext, ?_⟩
  rw [Pipeline.take]
  cases pending.finish s.store (s.worker.queue.jobs j) with
  | error fault => exact .ended rfl
  | ok constructed => exact .running rfl (hidle.congr rfl) rfl rfl

/-- A poll of a job that is not completed changes nothing. -/
theorem poll_eq_self {worker : WorkerState} {j : JobId}
    (hcompleted : (s.worker.queue.jobs j).completed = false)
    (hworker : s.worker.step (.other (.poll j)) = some worker) : worker = s.worker := by
  obtain ⟨queue, hqueue, rfl⟩ := Option.map_eq_some_iff.mp hworker
  rw [QueueState.step, Option.ite_none_right_eq_some, Option.some_inj, QueueState.poll, hcompleted,
    if_neg Bool.false_ne_true] at hqueue
  rw [← hqueue.2]

theorem Stage.poll (h : Stage compiler t s) {pending : PendingImport} {j : JobId}
    (hscript : s.script = .waiting pending j) {worker : WorkerState}
    (hworker : s.worker.step (.other (.poll j)) = some worker) :
    Stage compiler t { s with worker := worker } := by
  have hsame : (s.worker.queue.jobs j).completed = false →
      Stage compiler t { s with worker := worker } := fun hcompleted ↦ by
    rw [poll_eq_self hcompleted hworker]
    exact h
  cases h with
  | running hscript' | submitting _ hscript' | taking _ _ _ hscript' | ended hscript' =>
    cases hscript.symm.trans hscript'
  | pushed _ _ hwaiting =>
    cases hscript.symm.trans hwaiting.script
    exact hsame (by rw [hwaiting.job, FreshJob.ready_completed])
  | compiling _ _ _ _ hwaiting | completing _ _ _ hwaiting =>
    cases hscript.symm.trans hwaiting.script
    exact hsame (by rw [hwaiting.job, Direct.delivered, FreshJob.ready_completed])
  | lost _ _ _ hwaiting _ _ hcompleted =>
    cases hscript.symm.trans hwaiting.script
    exact hsame (by rw [hwaiting.job, hcompleted])
  | completed _ _ object hwaiting hphase _ hend =>
    cases hscript.symm.trans hwaiting.script
    obtain ⟨queue, hqueue, rfl⟩ := Option.map_eq_some_iff.mp hworker
    rw [QueueState.step, Option.ite_none_right_eq_some, Option.some_inj, QueueState.poll,
      hwaiting.job, Job.complete_completed, if_pos rfl] at hqueue
    obtain ⟨-, rfl⟩ := hqueue
    exact .completed pending j object
      ⟨hscript, hwaiting.queued, hwaiting.job, hwaiting.delivered, hwaiting.ticketId⟩ hphase
      (.inr (Function.update_self _ _ _)) hend

theorem Stage.cleanUp (h : Stage compiler t s) {pending : PendingImport} {j : JobId}
    (hscript : s.script = .waiting pending j) {worker : WorkerState}
    (hworker : s.worker.step (.other (.cleanUp j)) = some worker) :
    Stage compiler t { s with script := .taking pending j, worker := worker } := by
  obtain ⟨queue, hqueue, rfl⟩ := Option.map_eq_some_iff.mp hworker
  rw [QueueState.step, Option.ite_none_right_eq_some, Option.some_inj] at hqueue
  obtain ⟨hwoken, rfl⟩ := hqueue
  cases h with
  | running hscript' | submitting _ hscript' | taking _ _ _ hscript' | ended hscript' =>
    cases hscript.symm.trans hscript'
  -- Nothing but a completed job has woken the script.
  | pushed _ _ hwaiting _ hpolls | compiling _ _ _ _ hwaiting _ hpolls
  | completing _ _ _ hwaiting _ hpolls | lost _ _ _ hwaiting _ hpolls =>
    cases hscript.symm.trans hwaiting.script
    cases hwoken.symm.trans hpolls
  | completed _ _ object hwaiting hphase _ hend =>
    cases hscript.symm.trans hwaiting.script
    refine .taking pending j object rfl ⟨hphase, ?_, ?_, hwaiting.ticketId⟩ hwaiting.job hend
    · have hname : (s.worker.queue.jobs j).queueNameString = typescriptQueue := by
        rw [hwaiting.job]
        rfl
      have hqueued : s.worker.queue.queues typescriptQueue = [j] := hwaiting.queued
      rw [queued, QueueState.cleanUp_queues, hname, Function.update_self, hqueued,
        cleanUpLoop_singleton]
    · rw [delivered, QueueState.deliveries_cleanUp]
      exact hwaiting.delivered

/-! ## The steps of the worker's thread -/

theorem Waiting.congr {pending : PendingImport} {j : JobId} {job : Job} {n : ℕ}
    (h : s.Waiting pending j job n) (hscript : s'.script = s.script)
    (hqueue : s'.worker.queue = s.worker.queue) : s'.Waiting pending j job n where
  script := hscript ▸ h.script
  queued := by
    rw [Pipeline.queued, hqueue]
    exact h.queued
  job := hqueue ▸ h.job
  delivered := by
    rw [Pipeline.delivered, hqueue]
    exact h.delivered
  ticketId := hqueue ▸ h.ticketId

/-- A scan that finds no job changes nothing in the queue. -/
theorem worker_listen_eq_self
    (hnext : nextJob s.worker.queue.jobs (s.worker.queue.queues typescriptQueue) = none) :
    s.worker.listen = s.worker := by
  rw [WorkerState.listen, hnext]

/-- The job is delivered under the next ticket. -/
theorem worker_listen_pushed {pending : PendingImport} {j : JobId}
    (hwaiting : s.Waiting pending j pending.job.ready t.served)
    (hcount : s.delivered + 1 < 2 ^ 31) :
    s.worker.listen =
        { queue := s.worker.queue.deliver typescriptQueue j
          phase := .compiling j (t.delivered pending).listen
          received := s.worker.received ++ [j] } ∧
      (s.worker.queue.deliver typescriptQueue j).jobs j = t.delivered pending ∧
      toLong (s.worker.queue.ticketId + 1) = t.served + 1 ∧ (t.served : ℤ) + 1 < 2 ^ 31 := by
  have hqueued : s.worker.queue.queues typescriptQueue = [j] := hwaiting.queued
  have hnext : nextJob s.worker.queue.jobs (s.worker.queue.queues typescriptQueue) = some j := by
    rw [hqueued, nextJob_singleton]
    simp [deliverable, hwaiting.job]
  have hserved : (t.served : ℤ) + 1 < 2 ^ 31 := by
    rw [hwaiting.delivered] at hcount
    exact_mod_cast hcount
  have hticket : toLong (s.worker.queue.ticketId + 1) = t.served + 1 := by
    rw [hwaiting.ticketId, toLong_of_lt (by omega) (by omega)]
  have hjob : (s.worker.queue.deliver typescriptQueue j).jobs j = t.delivered pending := by
    rw [QueueState.deliver_jobs, Function.update_self, hwaiting.job, hticket]
    rfl
  refine ⟨?_, hjob, hticket, hserved⟩
  rw [WorkerState.listen, hnext, ← hjob]

/-- The compiler is called for it. -/
theorem Stage.listen_pushed {pending : PendingImport} {j : JobId}
    (hwaiting : s.Waiting pending j pending.job.ready t.served)
    (hpolls : s.worker.queue.phase j = .waiting) (hstore : s.store = pending.written t.store)
    (hmemory : s.memory = t.memory) (hcount : s.delivered + 1 < 2 ^ 31) :
    Stage compiler t
      { s with
        worker := s.worker.listen
        compilation := called compiler s.memory s.worker.listen.phase } := by
  obtain ⟨hlisten, hjob, hticket, hserved⟩ := worker_listen_pushed hwaiting hcount
  simp only [hlisten]
  refine .compiling pending j (t.delivered pending).listen _
    ⟨hwaiting.script, hwaiting.queued, hjob, ?_, ?_⟩ rfl hpolls rfl ?_ rfl ?_
  · rw [delivered, QueueState.deliveries_deliver, List.length_append]
    exact congrArg (· + 1) hwaiting.delivered
  · rw [QueueState.deliver_ticketId, hticket]
    norm_num
  · simp only [Job.listen, Direct.delivered]
    rw [toInt_eq_self_iff]
    omega
  · rw [hstore, hmemory]
    rfl

theorem Stage.listen (h : Stage compiler t s) (hcount : s.delivered + 1 < 2 ^ 31)
    (hstep : s.listen compiler = some s') : Stage compiler t s' := by
  obtain ⟨worker, hworker, rfl⟩ := Option.map_eq_some_iff.mp hstep
  have hlistening : s.worker.phase = .listening ∧ worker = s.worker.listen := by
    rw [WorkerState.step] at hworker
    split at hworker
    · next hphase => exact ⟨hphase, (Option.some.inj hworker).symm⟩
    · cases hworker
  obtain ⟨hphase, rfl⟩ := hlistening
  have hidle : s.queued = [] → s.worker.listen = s.worker := fun hqueued ↦
    worker_listen_eq_self ((congrArg (nextJob s.worker.queue.jobs) hqueued).trans rfl)
  have hsubmitted : ∀ j, s.queued = [j] → (s.worker.queue.jobs j).submitted = true →
      s.worker.listen = s.worker := fun j hqueued hsubmitted ↦ worker_listen_eq_self
    ((congrArg (nextJob s.worker.queue.jobs) hqueued).trans
      (nextJob_singleton_submitted hsubmitted))
  cases h with
  | running hscript hidle' hstore hmemory =>
    exact .running hscript (hidle'.congr (hidle hidle'.queued)) hstore hmemory
  | submitting pending hscript hidle' hstore hmemory =>
    exact .submitting pending hscript (hidle'.congr (hidle hidle'.queued)) hstore hmemory
  | pushed pending j hwaiting _ hpolls hstore hmemory =>
    exact Stage.listen_pushed hwaiting hpolls hstore hmemory hcount
  | compiling _ _ _ _ _ hphase' => cases hphase.symm.trans hphase'
  | completing _ _ _ _ hphase' =>
    rcases hphase' with hphase' | hphase' <;> cases hphase.symm.trans hphase'
  | completed pending j object hwaiting _ hpolls hend =>
    have hworker := hsubmitted j hwaiting.queued (by rw [hwaiting.job]; rfl)
    refine .completed pending j object
      (hwaiting.congr rfl (congrArg WorkerState.queue hworker))
      ((congrArg WorkerState.phase hworker).trans hphase) ?_ hend
    exact (congrArg (fun worker ↦ worker.queue.phase j) hworker).symm ▸ hpolls
  | taking pending j object hscript hidle' hjob hend =>
    have hworker := hidle hidle'.queued
    exact .taking pending j object hscript (hidle'.congr hworker)
      ((congrArg (fun worker ↦ worker.queue.jobs j) hworker).trans hjob) hend
  | lost pending j job hwaiting hphase' hpolls hcompleted hjob hend =>
    have hworker := hsubmitted j hwaiting.queued (by rw [hwaiting.job, hjob])
    exact .lost pending j job (hwaiting.congr rfl (congrArg WorkerState.queue hworker))
      (.inl ((congrArg WorkerState.phase hworker).trans hphase))
      ((congrArg (fun worker ↦ worker.queue.phase j) hworker).trans hpolls) hcompleted hjob hend
  | ended hscript => exact .ended hscript

/-- The stage at which the compiler runs, unless the program has ended. -/
theorem Stage.of_compiling (h : Stage compiler t s) {j : JobId} {object : JobObject}
    {compilation : Compilation Memory} (hphase : s.worker.phase = .compiling j object)
    (hcompilation : s.compilation = some compilation) :
    s.script = .ended ∨ ∃ pending,
      s.Waiting pending j (t.delivered pending) (t.served + 1) ∧
      s.worker.queue.phase j = .waiting ∧ object.ticketId = t.served + 1 ∧
      object.queueNameString = typescriptQueue ∧
      compiler.compile compilation ⟨s.store, object⟩ = t.compilationEnd compiler pending := by
  cases h with
  | running _ hidle | submitting _ _ hidle | taking _ _ _ _ hidle =>
    cases hphase.symm.trans hidle.phase
  | pushed _ _ _ hphase' | completed _ _ _ _ hphase' => cases hphase.symm.trans hphase'
  | completing _ _ _ _ hphase' | lost _ _ _ _ hphase' =>
    rcases hphase' with hphase' | hphase' <;> cases hphase.symm.trans hphase'
  | compiling pending j' object' compilation' hwaiting hphase' hpolls hcompilation' hticket hname
      hend =>
    cases hphase.symm.trans hphase'
    cases hcompilation.symm.trans hcompilation'
    exact .inr ⟨pending, hwaiting, hpolls, hticket, hname, hend⟩
  | ended hscript => exact .inl hscript

theorem Stage.call (h : Stage compiler t s) (hstep : s.call compiler = some s') :
    Stage compiler t s' := by
  rw [Pipeline.call] at hstep
  split at hstep
  · next j object compilation hphase hcompilation =>
    obtain ⟨⟨sys, compilation'⟩, hcall, rfl⟩ := Option.map_eq_some_iff.mp hstep
    rcases h.of_compiling hphase hcompilation with
      hscript | ⟨pending, hwaiting, hpolls, hticket, hname, hend⟩
    · exact .ended hscript
    · obtain ⟨hticket', hname'⟩ := Compiler.job_of_call hcall
      refine .compiling pending j sys.job compilation' (hwaiting.congr rfl rfl) rfl hpolls rfl
        (hticket'.trans hticket) (hname'.trans hname) ?_
      exact (Compiler.compile_of_call hcall).symm.trans hend
  · cases hstep

theorem Stage.exit (h : Stage compiler t s) (hstep : s.exit = some s') :
    Stage compiler t s' := by
  rw [Pipeline.exit] at hstep
  split at hstep
  · next j object memory hphase hcompilation =>
    obtain ⟨worker, hworker, rfl⟩ := Option.map_eq_some_iff.mp hstep
    rcases h.of_compiling hphase hcompilation with
      hscript | ⟨pending, hwaiting, hpolls, hticket, hname, hend⟩
    · exact .ended hscript
    · simp only [WorkerState.step, hphase, WorkerState.execute, Option.some_inj] at hworker
      subst hworker
      exact .completing pending j object (hwaiting.congr rfl rfl) (.inl rfl) hpolls hticket hname
        hend.symm
  · next j object memory error hphase hcompilation =>
    obtain ⟨worker, hworker, rfl⟩ := Option.map_eq_some_iff.mp hstep
    rcases h.of_compiling hphase hcompilation with
      hscript | ⟨pending, hwaiting, hpolls, hticket, hname, hend⟩
    · exact .ended hscript
    · have hlost : ∀ sys memory, t.compilationEnd compiler pending ≠ .exited sys memory := by
        intro sys memory' hexited
        cases hend.trans hexited
      have hcompleted : (t.delivered pending).completed = false := FreshJob.ready_completed _
      simp only [WorkerState.step, hphase, Option.some_inj] at hworker
      subst hworker
      -- A value without members ends the loop, and any other leads back to its head.
      cases error with
      | nullish =>
        exact .lost pending j _ (hwaiting.congr rfl rfl) (.inr rfl) hpolls hcompleted rfl hlost
      | value =>
        exact .lost pending j _ (hwaiting.congr rfl rfl) (.inl rfl) hpolls hcompleted rfl hlost
  · cases hstep

/-- The stage in the exit callback, unless the program has ended. -/
theorem Stage.of_completing (h : Stage compiler t s) {j : JobId} {object : JobObject}
    (found : JobId) (hphase : s.worker.phase = .completing j object ∨
      s.worker.phase = .writing j object found) :
    s.script = .ended ∨ ∃ pending,
      s.Waiting pending j (t.delivered pending) (t.served + 1) ∧
      s.worker.queue.phase j = .waiting ∧ object.ticketId = t.served + 1 ∧
      object.queueNameString = typescriptQueue ∧
      t.compilationEnd compiler pending = .exited ⟨s.store, object⟩ s.memory ∧
      (s.worker.phase = .writing j object found → found = j) := by
  cases h with
  | running _ hidle | submitting _ _ hidle | taking _ _ _ _ hidle =>
    rcases hphase with hphase | hphase <;> cases hphase.symm.trans hidle.phase
  | pushed _ _ _ hphase' | completed _ _ _ _ hphase' | compiling _ _ _ _ _ hphase' =>
    rcases hphase with hphase | hphase <;> cases hphase.symm.trans hphase'
  | lost _ _ _ _ hphase' =>
    rcases hphase with hphase | hphase <;> rcases hphase' with hphase' | hphase' <;>
      cases hphase.symm.trans hphase'
  | completing pending j' object' hwaiting hphase' hpolls hticket hname hend =>
    have hsame : j' = j ∧ object' = object ∧
        (s.worker.phase = .writing j object found → found = j) := by
      rcases hphase with hphase | hphase <;> rcases hphase' with hphase' | hphase' <;>
        cases hphase.symm.trans hphase'
      · exact ⟨rfl, rfl, fun hwriting ↦ by cases hphase.symm.trans hwriting⟩
      · exact ⟨rfl, rfl, fun _ ↦ rfl⟩
    obtain ⟨rfl, rfl, hfound⟩ := hsame
    exact .inr ⟨pending, hwaiting, hpolls, hticket, hname, hend, hfound⟩
  | ended hscript => exact .inl hscript

theorem Stage.find (h : Stage compiler t s) {indeterminate : Option JobId}
    (hstep : s.workerStep (.find indeterminate) = some s') : Stage compiler t s' := by
  obtain ⟨worker, hworker, rfl⟩ := Option.map_eq_some_iff.mp hstep
  rw [WorkerState.step] at hworker
  split at hworker
  · next j object hphase =>
    rcases h.of_completing j (.inl hphase) with
      hscript | ⟨pending, hwaiting, hpolls, hticket, hname, hend, -⟩
    · exact .ended hscript
    · have hqueued : s.worker.queue.queues object.queueNameString = [j] := by
        rw [hname]
        exact hwaiting.queued
      have hjob : (s.worker.queue.jobs j).ticketId = object.ticketId := by
        rw [hwaiting.job, hticket, Direct.delivered]
      rw [Option.some_inj, WorkerState.find, hqueued, findJob_singleton hjob] at hworker
      subst hworker
      exact .completing pending j object (hwaiting.congr rfl rfl) (.inr rfl) hpolls hticket hname
        hend
  · cases hworker

theorem Stage.complete (h : Stage compiler t s) (hstep : s.workerStep .write = some s') :
    Stage compiler t s' := by
  obtain ⟨worker, hworker, rfl⟩ := Option.map_eq_some_iff.mp hstep
  rw [WorkerState.step] at hworker
  split at hworker
  · next j object found hphase =>
    rcases h.of_completing _ (.inr hphase) with
      hscript | ⟨pending, hwaiting, hpolls, hticket, hname, hend, hfound⟩
    · exact .ended hscript
    · obtain rfl := hfound hphase
      rw [Option.some_inj] at hworker
      subst hworker
      refine .completed pending found object
        ⟨hwaiting.script, hwaiting.queued, ?_, ?_, hwaiting.ticketId⟩ rfl (.inl hpolls) hend
      · rw [WorkerState.write_jobs, Function.update_self, hwaiting.job]
      · rw [← hwaiting.delivered, delivered, delivered]
        simp [WorkerState.write, QueueState.completeFound]
  · cases hworker

/-! ## Every run -/

/-- A step of the worker's thread is not seen by the script. -/
theorem events_of_workerStep {a : LoopAction} (hstep : s.workerStep a = some s') :
    s'.events = s.events := by
  obtain ⟨worker, -, rfl⟩ := Option.map_eq_some_iff.mp hstep
  rfl

theorem events_of_exit (hstep : s.exit = some s') : s'.events = s.events := by
  rw [Pipeline.exit] at hstep
  split at hstep
  · exact (events_of_workerStep hstep :)
  · exact (events_of_workerStep hstep :)
  · cases hstep

theorem events_of_call (hstep : s.call compiler = some s') : s'.events = s.events := by
  rw [Pipeline.call] at hstep
  split at hstep
  · obtain ⟨next, -, rfl⟩ := Option.map_eq_some_iff.mp hstep
    rfl
  · cases hstep

/-- **One step** of the two threads is nothing in the program without a worker thread, or a call of
the script that is over. -/
theorem Stage.step {a : PipelineAction} (h : Stage compiler t s)
    (hcount : s.delivered + 1 < 2 ^ 31) (hstep : s.step compiler a = some s') :
    Answers compiler t s s' := by
  cases a with
  | write mapName fileName content =>
    rw [Pipeline.step] at hstep
    split at hstep <;> cases hstep
    exact h.write ‹_› mapName fileName content
  | begin call =>
    rw [Pipeline.step] at hstep
    split at hstep <;> cases hstep
    exact h.begin ‹_› call
  | submit j =>
    rw [Pipeline.step] at hstep
    split at hstep
    · next pending hscript =>
      obtain ⟨worker, hworker, rfl⟩ := Option.map_eq_some_iff.mp hstep
      exact .inl ⟨rfl, h.submit hscript hworker⟩
    · cases hstep
  | poll =>
    rw [Pipeline.step] at hstep
    split at hstep
    · next pending j hscript =>
      obtain ⟨worker, hworker, rfl⟩ := Option.map_eq_some_iff.mp hstep
      exact .inl ⟨rfl, h.poll hscript hworker⟩
    · cases hstep
  | cleanUp =>
    rw [Pipeline.step] at hstep
    split at hstep
    · next pending j hscript =>
      obtain ⟨worker, hworker, rfl⟩ := Option.map_eq_some_iff.mp hstep
      exact .inl ⟨rfl, h.cleanUp hscript hworker⟩
    · cases hstep
  | take =>
    rw [Pipeline.step] at hstep
    split at hstep <;> cases hstep
    exact h.take ‹_›
  | listen =>
    refine .inl ⟨?_, h.listen hcount hstep⟩
    obtain ⟨worker, -, rfl⟩ := Option.map_eq_some_iff.mp hstep
    rfl
  | call => exact .inl ⟨events_of_call hstep, h.call hstep⟩
  | exit => exact .inl ⟨events_of_exit hstep, h.exit hstep⟩
  | find indeterminate => exact .inl ⟨events_of_workerStep hstep, h.find hstep⟩
  | complete => exact .inl ⟨events_of_workerStep hstep, h.complete hstep⟩

/-- What a step of the threads does to the queue. -/
inductive QueueEffect (queue : QueueState) : QueueState → Prop
  | same : QueueEffect queue queue
  /-- A critical section of `submit` or of `get_job`. -/
  | step {a : QueueAction} {queue' : QueueState} (h : queue.step a = some queue') :
      QueueEffect queue queue'
  /-- The second section of `complete`. -/
  | complete (object : JobObject) (j : JobId) : QueueEffect queue (queue.completeFound object j)

theorem queueEffect_of_workerStep {worker worker' : WorkerState} {a : LoopAction}
    (h : worker.step a = some worker') : QueueEffect worker.queue worker'.queue := by
  cases a with
  | other a =>
    obtain ⟨queue, hqueue, rfl⟩ := Option.map_eq_some_iff.mp h
    exact .step hqueue
  | listen =>
    rw [WorkerState.step] at h
    split at h <;> cases h
    rw [WorkerState.listen]
    split
    · exact .same
    · next j hnext =>
      refine .step (a := .getJob typescriptQueue) ?_
      rw [QueueState.step, QueueState.getJob, hnext]
  | execute outcome =>
    rw [WorkerState.step] at h
    split at h <;> cases h
    cases outcome with
    | exits => exact .same
    | throws error => cases error <;> exact .same
  | find indeterminate =>
    rw [WorkerState.step] at h
    split at h <;> cases h
    rw [WorkerState.find]
    split <;> exact .same
  | write =>
    rw [WorkerState.step] at h
    split at h <;> cases h
    exact .complete _ _

theorem queueEffect_of_step {a : PipelineAction} (hstep : s.step compiler a = some s') :
    QueueEffect s.worker.queue s'.worker.queue := by
  have hworkerStep : ∀ {s s' : Pipeline Memory} {a : LoopAction}, s.workerStep a = some s' →
      QueueEffect s.worker.queue s'.worker.queue := by
    intro s s' a hstep
    obtain ⟨worker, hworker, rfl⟩ := Option.map_eq_some_iff.mp hstep
    exact queueEffect_of_workerStep hworker
  cases a with
  | write | take =>
    rw [Pipeline.step] at hstep
    split at hstep <;> cases hstep
    exact .same
  | begin call =>
    rw [Pipeline.step] at hstep
    split at hstep <;> cases hstep
    rw [Pipeline.begin]
    split <;> exact .same
  | submit | poll | cleanUp =>
    rw [Pipeline.step] at hstep
    split at hstep
    · exact (hworkerStep hstep :)
    · cases hstep
  | listen =>
    obtain ⟨worker, hworker, rfl⟩ := Option.map_eq_some_iff.mp hstep
    exact queueEffect_of_workerStep hworker
  | call =>
    rw [Pipeline.step, Pipeline.call] at hstep
    split at hstep
    · obtain ⟨next, -, rfl⟩ := Option.map_eq_some_iff.mp hstep
      exact .same
    · cases hstep
  | exit =>
    rw [Pipeline.step, Pipeline.exit] at hstep
    split at hstep
    · exact (hworkerStep hstep :)
    · exact (hworkerStep hstep :)
    · cases hstep
  | find | complete => exact hworkerStep hstep

/-- No step takes a delivery back. -/
theorem delivered_le_of_step {a : PipelineAction} (hstep : s.step compiler a = some s') :
    s.delivered ≤ s'.delivered := by
  have heffect := queueEffect_of_step hstep
  rw [delivered, delivered]
  generalize s'.worker.queue = queue' at heffect ⊢
  cases heffect with
  | same => exact le_rfl
  | complete object j => simp [QueueState.completeFound]
  | step h =>
    cases QueueState.effect_of_step h with
    | submit | cleanUp | complete | deliver => simp
    | wake | find | idle => exact le_rfl

/-- The threads stand at a stage that the program without a worker thread can be in. -/
theorem stage_of_run {memory : Memory} {store : Store} {actions : List PipelineAction}
    (hrun : Transition.runFrom (step compiler) (start memory store) actions = some s)
    (hcount : s.delivered + 1 < 2 ^ 31) :
    ∃ t, Direct.Sees compiler ⟨store, memory, 0⟩ s.events t ∧ Stage compiler t s := by
  refine Transition.invariant_of_run (I := fun s ↦ s.delivered + 1 < 2 ^ 31 →
    ∃ t, Direct.Sees compiler ⟨store, memory, 0⟩ s.events t ∧ Stage compiler t s)
    (fun s a s' ih hstep hcount' ↦ ?_) (fun _ ↦ ?_) hrun hcount
  · have hle := delivered_le_of_step hstep
    obtain ⟨t, hsees, hstage⟩ := ih (by omega)
    rcases hstage.step (by omega) hstep with ⟨hevents, hstage'⟩ | ⟨e, u, hevents, hnext, hstage'⟩
    · exact ⟨t, hevents ▸ hsees, hstage'⟩
    · exact ⟨u, hevents ▸ hsees.snoc hnext, hstage'⟩
  · exact ⟨_, .nil, .running rfl ⟨rfl, rfl, rfl, rfl⟩ rfl rfl⟩

/-- **The two threads make one program.** In every run of fewer than `2 ^ 31 - 1` deliveries,
whatever the compiler does and however the threads take turns, every constructor has returned or
thrown what it would in the program whose `submit` is one call of the compiler, and where no import
is under way the store and the compiler's memory are those of that program. -/
theorem construct_of_run {memory : Memory} {store : Store} {actions : List PipelineAction}
    (hrun : Transition.runFrom (step compiler) (start memory store) actions = some s)
    (hcount : s.delivered + 1 < 2 ^ 31) :
    ∃ t, Direct.Sees compiler ⟨store, memory, 0⟩ s.events t ∧
      (s.script = .running → s.store = t.store ∧ s.memory = t.memory) := by
  obtain ⟨t, hsees, hstage⟩ := stage_of_run hrun hcount
  exact ⟨t, hsees, fun hscript ↦ (hstage.of_running hscript).2⟩

/-! ## One import -/

/-- A compiler that writes every file as it has read it. -/
def copyingCompiler : Compiler Unit where
  typescriptLibraryFileKeys := []
  tsconfig _ := []
  executeCommandLine _ job :=
    .readFile job.ingressJobFile.fileNameString true fun text ↦
      .writeFile job.ingressJobFile.fileNameString (text.getD []) false true fun _ ↦ .exits ()

/-- The entry script `/a.ts`. -/
def entryCall : ImportCall where
  env := .plain "/".toList (fun path ↦ if path = "/a.ts".toList then some "a()".toList else none)
    fun _ ↦ []
  specifierString := "/a.ts".toList
  isEntryPoint := true
  referrerPath := none

/-- The worker asks once too early and the script polls once too early. -/
def entryRun : List PipelineAction :=
  [.listen, .begin entryCall, .listen, .submit 0, .poll, .listen, .call, .poll, .call, .exit,
    .find none, .complete, .listen, .poll, .cleanUp, .take]

theorem construct_of_run_entryRun :
    ∃ s, Transition.runFrom (step copyingCompiler) (start () (.start fun _ ↦ ∅)) entryRun = some s ∧
      s.script = .running ∧ s.events.length = 1 ∧
      ∃ t, Direct.Sees copyingCompiler ⟨.start fun _ ↦ ∅, (), 0⟩ s.events t ∧
        (s.script = .running → s.store = t.store ∧ s.memory = t.memory) :=
  ⟨_, rfl, rfl, rfl, @construct_of_run _ copyingCompiler _ () (.start fun _ ↦ ∅) entryRun rfl
    (by decide)⟩

end Pipeline

end SlimTS
