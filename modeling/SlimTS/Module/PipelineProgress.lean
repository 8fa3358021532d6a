import SlimTS.Module.PipelineRefinement

/-!
# When an import returns

An import that has written its source waits for the worker, and the worker for the compiler. From
every state that the two threads can reach, some turns of theirs bring the constructor to its end if
and only if the compilation of its file exits (`returns_iff_exits`). So the threads never wait for
each other for good. A compiler that throws, or that reads a file which is not in the store, leaves
the constructor in `submit` whatever happens next.
-/

namespace SlimTS

/-- The import under way. -/
def ScriptPhase.pending : ScriptPhase → Option PendingImport
  | .submitting pending | .waiting pending _ | .taking pending _ => some pending
  | .running | .ended => none

namespace Pipeline

variable {Memory : Type} {compiler : Compiler Memory} {t : Direct Memory} {s s' : Pipeline Memory}
  {pending : PendingImport} {j : JobId} {object : JobObject}

/-- Some turns of the two threads end a call of the script. -/
def Returns (compiler : Compiler Memory) (s : Pipeline Memory) : Prop :=
  ∃ s', Transition.Reaches (Pipeline.step compiler) (fun _ ↦ True) s s' ∧
    s.events.length < s'.events.length

theorem returns_of_step {a : PipelineAction} (hstep : s.step compiler a = some s')
    (hevents : s'.events = s.events) (h : Returns compiler s') : Returns compiler s := by
  obtain ⟨s'', hreaches, hlength⟩ := h
  exact ⟨s'', (Transition.Reaches.of_step trivial hstep).trans hreaches, hevents ▸ hlength⟩

/-! ## From the end back to the beginning -/

theorem returns_of_taking (hscript : s.script = .taking pending j) : Returns compiler s := by
  refine ⟨s.take pending j, Transition.Reaches.of_step (a := .take) trivial ?_, ?_⟩
  · rw [step, hscript]
  · simp [take]

theorem returns_of_completed (hscript : s.script = .waiting pending j)
    (hcompleted : (s.worker.queue.jobs j).completed = true)
    (hpolls : s.worker.queue.phase j = .waiting ∨ s.worker.queue.phase j = .woken) :
    Returns compiler s := by
  have hwoken : ∀ s : Pipeline Memory, s.script = .waiting pending j →
      s.worker.queue.phase j = .woken → Returns compiler s := by
    intro s hscript hwoken
    have hstep : s.step compiler .cleanUp = some
        { s with
          script := .taking pending j
          worker := { s.worker with queue := s.worker.queue.cleanUp j } } := by
      simp only [step, hscript, workerStep, WorkerState.step, QueueState.step, hwoken, if_pos,
        Option.map_some]
    exact returns_of_step hstep rfl (returns_of_taking rfl)
  rcases hpolls with hpolls | hpolls
  · have hstep : s.step compiler .poll = some
        { s with worker := { s.worker with queue := s.worker.queue.poll j } } := by
      simp only [step, hscript, workerStep, WorkerState.step, QueueState.step, hpolls, if_pos,
        Option.map_some]
    refine returns_of_step hstep rfl (hwoken _ hscript ?_)
    simp only [QueueState.poll, hcompleted, if_pos, Function.update_self]
  · exact hwoken s hscript hpolls

theorem returns_of_writing (hscript : s.script = .waiting pending j)
    (hphase : s.worker.phase = .writing j object j)
    (hpolls : s.worker.queue.phase j = .waiting) : Returns compiler s := by
  have hstep : s.step compiler .complete = some
      { s with worker := s.worker.write object j } := by
    simp only [step, workerStep, WorkerState.step, hphase, Option.map_some]
  refine returns_of_step hstep rfl (returns_of_completed hscript ?_ (.inl hpolls))
  rw [WorkerState.write_jobs, Function.update_self, Job.complete_completed]

theorem Stage.returns_of_completing (h : Stage compiler t s)
    (hscript : s.script = .waiting pending j) (hphase : s.worker.phase = .completing j object) :
    Returns compiler s := by
  rcases h.of_completing j (.inl hphase) with
    hended | ⟨pending', hwaiting, hpolls, hticket, hname, -⟩
  · cases hscript.symm.trans hended
  · have hqueued : s.worker.queue.queues object.queueNameString = [j] := by
      rw [hname]
      exact hwaiting.queued
    have hjob : (s.worker.queue.jobs j).ticketId = object.ticketId := by
      rw [hwaiting.job, hticket, Direct.delivered]
    have hstep : s.step compiler (.find none) = some
        { s with worker := { s.worker with phase := .writing j object j } } := by
      simp only [Pipeline.step, workerStep, WorkerState.step, hphase, WorkerState.find, hqueued,
        findJob_singleton hjob, Option.map_some]
    exact returns_of_step hstep rfl (returns_of_writing hscript rfl hpolls)

/-- The compiler takes its calls one after the other, up to its exit. -/
theorem Stage.returns_of_compiling (h : Stage compiler t s)
    (hscript : s.script = .waiting pending j) {compilation : Compilation Memory}
    (hphase : s.worker.phase = .compiling j object)
    (hcompilation : s.compilation = some compilation) {sys : Sys} {memory : Memory}
    (hexits : compiler.compile compilation ⟨s.store, object⟩ = .exited sys memory) :
    Returns compiler s := by
  -- The state with the store, the job object and the compilation of some moment.
  let during (sys : Sys) (compilation : Compilation Memory) : Pipeline Memory :=
    { s with
      worker := { s.worker with phase := .compiling j sys.job }
      compilation := some compilation
      store := sys.store }
  have hduring : during ⟨s.store, object⟩ compilation = s := by
    simp only [during, ← hphase, ← hcompilation]
  -- The calls so far have led there, and the stage is still the same.
  have hlast : Stage compiler t (during sys (.exits memory)) ∧
      Transition.Reaches (Pipeline.step compiler) (fun _ ↦ True) s
        (during sys (.exits memory)) := by
    refine Compiler.exits_of_compile (P := fun sys compilation ↦
      Stage compiler t (during sys compilation) ∧
        Transition.Reaches (Pipeline.step compiler) (fun _ ↦ True) s (during sys compilation))
      (fun sys compilation sys' compilation' hP hcall ↦ ?_) ?_ hexits
    · have hstep : (during sys compilation).step compiler .call
          = some (during sys' compilation') := by
        simp only [Pipeline.step, Pipeline.call, during, hcall, Option.map_some]
      exact ⟨hP.1.call hstep, hP.2.trans (Transition.Reaches.of_step trivial hstep)⟩
    · rw [hduring]
      exact ⟨h, Transition.Reaches.refl s⟩
  obtain ⟨hstage, hreaches⟩ := hlast
  have hstep : (during sys (.exits memory)).step compiler .exit = some
      { during sys (.exits memory) with
        worker := { s.worker with phase := .completing j sys.job }
        compilation := none
        memory := memory } := by
    simp only [Pipeline.step, Pipeline.exit, during, workerStep, WorkerState.step,
      WorkerState.execute, Option.map_some]
  obtain ⟨s', hreaches', hlength⟩ := returns_of_step hstep rfl
    ((hstage.exit hstep).returns_of_completing hscript rfl)
  exact ⟨s', hreaches.trans hreaches', hlength⟩

/-- The worker takes the job, and the compiler begins. -/
theorem returns_of_pushed (hwaiting : s.Waiting pending j pending.job.ready t.served)
    (hphase : s.worker.phase = .listening) (hpolls : s.worker.queue.phase j = .waiting)
    (hstore : s.store = pending.written t.store) (hmemory : s.memory = t.memory)
    (hcount : s.delivered + 1 < 2 ^ 31) {sys : Sys} {memory : Memory}
    (hexits : t.compilationEnd compiler pending = .exited sys memory) : Returns compiler s := by
  have hstep : s.step compiler .listen = some
      { s with
        worker := s.worker.listen
        compilation := called compiler s.memory s.worker.listen.phase } := by
    simp only [step, listen, WorkerState.step, hphase, Option.map_some]
  obtain ⟨hlisten, -⟩ := worker_listen_pushed hwaiting hcount
  have hstage : Stage compiler t _ :=
    Stage.listen_pushed hwaiting hpolls hstore hmemory hcount
  have hcompiling : s.worker.listen.phase = .compiling j (t.delivered pending).listen := by
    rw [hlisten]
  have hbegun : called compiler s.memory s.worker.listen.phase
      = some (compiler.executeCommandLine s.memory (t.delivered pending).listen) := by
    rw [hcompiling, called]
  have hend : compiler.compile (compiler.executeCommandLine s.memory (t.delivered pending).listen)
      ⟨s.store, (t.delivered pending).listen⟩ = .exited sys memory := by
    rw [← hexits, hstore, hmemory]
    rfl
  exact returns_of_step hstep rfl
    (hstage.returns_of_compiling hwaiting.script hcompiling hbegun hend)

theorem Stage.returns_of_submitting (h : Stage compiler t s)
    (hscript : s.script = .submitting pending) (hfresh : s.worker.queue.phase j = .absent)
    (hcount : s.delivered + 1 < 2 ^ 31) {sys : Sys} {memory : Memory}
    (hexits : t.compilationEnd compiler pending = .exited sys memory) : Returns compiler s := by
  have hworker : s.worker.step (.other (.submit j pending.job))
      = some { s.worker with queue := s.worker.queue.submit j pending.job } := by
    simp only [WorkerState.step, QueueState.step, hfresh, if_pos, Option.map_some]
  have hstep : s.step compiler (.submit j) = some
      { s with
        script := .waiting pending j
        worker := { s.worker with queue := s.worker.queue.submit j pending.job } } := by
    simp only [Pipeline.step, hscript, workerStep, hworker, Option.map_some]
  obtain ⟨hidle, hstore, hmemory⟩ := h.of_submitting hscript
  have hpolls : (s.worker.queue.submit j pending.job).phase j = .waiting :=
    Function.update_self _ _ _
  refine returns_of_step hstep rfl (returns_of_pushed (hidle.waiting_submit pending j) hidle.phase
    hpolls hstore hmemory ?_ hexits)
  rw [(hidle.waiting_submit pending j).delivered, ← hidle.delivered]
  exact hcount

/-! ## An address for the job -/

/-- Only finitely many addresses have been used. -/
def HasRoom (s : Pipeline Memory) : Prop :=
  ∃ n : ℕ, ∀ j : ℕ, n ≤ j → s.worker.queue.phase j = .absent

theorem HasRoom.step {a : PipelineAction} (hroom : HasRoom s)
    (hstep : s.step compiler a = some s') : HasRoom s' := by
  obtain ⟨n, hn⟩ := hroom
  have hupdate : ∀ (k : ℕ) (phase : SubmitPhase),
      ∃ n : ℕ, ∀ j : ℕ, n ≤ j → Function.update s.worker.queue.phase k phase j = .absent := by
    refine fun k phase ↦ ⟨n + (k + 1), fun j hj ↦ ?_⟩
    have hne : j ≠ k := by omega
    rw [Function.update_of_ne hne]
    exact hn j (by omega)
  have heffect := queueEffect_of_step hstep
  rw [HasRoom]
  generalize s'.worker.queue = queue' at heffect ⊢
  cases heffect with
  | same | complete => exact ⟨n, hn⟩
  | step h =>
    cases QueueState.effect_of_step h with
    | submit j fresh => exact hupdate j _
    | wake j => exact hupdate j _
    | cleanUp j => exact hupdate j _
    | deliver | find | complete | idle => exact ⟨n, hn⟩

theorem hasRoom_of_run {memory : Memory} {store : Store} {actions : List PipelineAction}
    (hrun : Transition.runFrom (step compiler) (start memory store) actions = some s) :
    HasRoom s :=
  Transition.invariant_of_run (fun _ _ _ hroom hstep ↦ hroom.step hstep) ⟨0, fun _ _ ↦ rfl⟩ hrun

/-! ## An import whose compilation does not exit -/

theorem script_of_workerStep {a : LoopAction} (hstep : s.workerStep a = some s') :
    s'.script = s.script := by
  obtain ⟨worker, -, rfl⟩ := Option.map_eq_some_iff.mp hstep
  rfl

/-- An import stays under way up to its last step. -/
theorem pending_of_step {a : PipelineAction} (hpending : s.script.pending = some pending)
    (hstep : s.step compiler a = some s') :
    (∃ j, s.script = .taking pending j) ∨
      s'.script.pending = some pending ∧ s'.events = s.events := by
  cases a with
  | write | begin =>
    rw [step] at hstep
    split at hstep
    · next hscript =>
      rw [hscript] at hpending
      cases hpending
    · cases hstep
  | take =>
    rw [step] at hstep
    split at hstep
    · next pending' j hscript =>
      rw [hscript] at hpending
      cases hpending
      exact .inl ⟨j, hscript⟩
    · cases hstep
  | submit | poll | cleanUp =>
    rw [step] at hstep
    split at hstep
    · next hscript =>
      have hscript' := congrArg ScriptPhase.pending (script_of_workerStep hstep)
      refine .inr ⟨hscript'.trans ?_, (events_of_workerStep hstep :)⟩
      simpa [hscript, ScriptPhase.pending] using hpending
    · cases hstep
  | listen =>
    obtain ⟨worker, -, rfl⟩ := Option.map_eq_some_iff.mp hstep
    exact .inr ⟨hpending, rfl⟩
  | call =>
    rw [step, call] at hstep
    split at hstep
    · obtain ⟨next, -, rfl⟩ := Option.map_eq_some_iff.mp hstep
      exact .inr ⟨hpending, rfl⟩
    · cases hstep
  | exit =>
    rw [step] at hstep
    refine .inr ⟨?_, events_of_exit hstep⟩
    rw [exit] at hstep
    split at hstep
    · rw [script_of_workerStep hstep, ← hpending]
    · rw [script_of_workerStep hstep, ← hpending]
    · cases hstep
  | find | complete =>
    refine .inr ⟨?_, events_of_workerStep hstep⟩
    rw [script_of_workerStep hstep, ← hpending]

/-- While an import is under way, at most its own job is delivered. -/
theorem Stage.delivered_le (h : Stage compiler t s) (hpending : s.script.pending = some pending) :
    t.served ≤ s.delivered ∧ s.delivered ≤ t.served + 1 := by
  cases h with
  | running hscript | ended hscript =>
    rw [hscript] at hpending
    cases hpending
  | submitting _ _ hidle | taking _ _ _ _ hidle =>
    have hdelivered := hidle.delivered
    omega
  | pushed _ _ hwaiting | compiling _ _ _ _ hwaiting | completing _ _ _ hwaiting
  | completed _ _ _ hwaiting | lost _ _ _ hwaiting =>
    have hdelivered := hwaiting.delivered
    omega

theorem Stage.not_returns (h : Stage compiler t s) (hpending : s.script.pending = some pending)
    (hcount : t.served + 2 < 2 ^ 31)
    (hnever : ∀ sys memory, t.compilationEnd compiler pending ≠ .exited sys memory) :
    ¬Returns compiler s := by
  rintro ⟨s', hreaches, hlength⟩
  have hstays := hreaches.invariant (I := fun u ↦ u.events = s.events ∧ Stage compiler t u ∧
    u.script.pending = some pending) (fun u a u' hu _ hstep ↦ ?_) ⟨rfl, h, hpending⟩
  · rw [hstays.1] at hlength
    exact absurd hlength (lt_irrefl _)
  · obtain ⟨hevents, hstage, hpending'⟩ := hu
    have hdelivered := (hstage.delivered_le hpending').2
    rcases pending_of_step hpending' hstep with ⟨j, htaking⟩ | ⟨hpending'', hevents'⟩
    · obtain ⟨object, -, -, hend⟩ := hstage.of_taking htaking
      exact absurd hend (hnever _ _)
    · rcases hstage.step (by omega) hstep with ⟨-, hstage'⟩ | ⟨e, v, hlonger, -⟩
      · exact ⟨hevents'.trans hevents, hstage', hpending''⟩
      · rw [hevents'] at hlonger
        simp at hlonger

/-! ## The exact condition -/

theorem importFile_isSome_iff (t : Direct Memory) (pending : PendingImport) :
    (t.importFile compiler pending.call).isSome ↔
      ∃ sys memory, t.compilationEnd compiler pending = .exited sys memory := by
  rw [Direct.importFile]
  split
  · next fault hfetch => exact absurd (hfetch.symm.trans pending.fetch_eq) (by simp)
  · next resolution text hfetch =>
    obtain ⟨rfl, rfl⟩ := Prod.mk.inj (Except.ok.inj (hfetch.symm.trans pending.fetch_eq))
    rw [Option.isSome_map, Compiler.transpile, Direct.compilationEnd, Direct.delivered]
    split
    · next sys memory hexited => exact iff_of_true rfl ⟨sys, memory, hexited⟩
    · next hother =>
      refine iff_of_false Bool.false_ne_true ?_
      rintro ⟨sys, memory, hexited⟩
      exact hother sys memory hexited

/-- An import whose compilation exits returns from wherever the threads stand. -/
theorem Stage.returns (h : Stage compiler t s) (hpending : s.script.pending = some pending)
    (hroom : HasRoom s) (hcount : s.delivered + 1 < 2 ^ 31) {sys : Sys} {memory : Memory}
    (hexits : t.compilationEnd compiler pending = .exited sys memory) : Returns compiler s := by
  have hsame : ∀ pending' j, s.script = .waiting pending' j → pending' = pending := by
    intro pending' j hscript
    rw [hscript] at hpending
    exact Option.some.inj hpending
  cases h with
  | running hscript | ended hscript =>
    rw [hscript] at hpending
    cases hpending
  | submitting pending' hscript hidle hstore hmemory =>
    rw [hscript] at hpending
    cases hpending
    obtain ⟨j, hfresh⟩ : ∃ j, s.worker.queue.phase j = .absent := by
      obtain ⟨n, hn⟩ := hroom
      exact ⟨n, hn n le_rfl⟩
    exact returns_of_submitting (.submitting pending hscript hidle hstore hmemory) hscript hfresh
      hcount hexits
  | pushed pending' j hwaiting hphase hpolls hstore hmemory =>
    cases hsame pending' j hwaiting.script
    exact returns_of_pushed hwaiting hphase hpolls hstore hmemory hcount hexits
  | compiling pending' j object compilation hwaiting hphase hpolls hcompilation hticket hname
      hend =>
    cases hsame pending' j hwaiting.script
    exact returns_of_compiling (.compiling pending j object compilation hwaiting hphase hpolls
      hcompilation hticket hname hend) hwaiting.script hphase hcompilation (hend.trans hexits)
  | completing pending' j object hwaiting hphase hpolls hticket hname hend =>
    rcases hphase with hphase | hphase
    · exact returns_of_completing (.completing pending' j object hwaiting (.inl hphase) hpolls
        hticket hname hend) hwaiting.script hphase
    · exact returns_of_writing hwaiting.script hphase hpolls
  | completed pending' j object hwaiting hphase hpolls hend =>
    exact returns_of_completed hwaiting.script (by rw [hwaiting.job]; rfl) hpolls
  | taking pending' j object hscript => exact returns_of_taking hscript
  | lost pending' j job hwaiting hphase hpolls hcompleted hsubmitted hend =>
    cases hsame pending' j hwaiting.script
    exact absurd hexits (hend _ _)

/-- **When an import returns.** In every reachable state with an import under way, some turns of the
threads bring the constructor to its end if and only if the compilation of its file exits, on the
store and with the memory that the calls of the script before it have left. -/
theorem returns_iff_exits {memory : Memory} {store : Store} {actions : List PipelineAction}
    (hrun : Transition.runFrom (step compiler) (start memory store) actions = some s)
    (hcount : s.delivered + 2 < 2 ^ 31) (hpending : s.script.pending = some pending) :
    ∃ t, Direct.Sees compiler ⟨store, memory, 0⟩ s.events t ∧
      (Returns compiler s ↔ (t.importFile compiler pending.call).isSome) := by
  obtain ⟨t, hsees, hstage⟩ := stage_of_run hrun (by omega)
  refine ⟨t, hsees, ?_⟩
  rw [importFile_isSome_iff]
  have hserved := (hstage.delivered_le hpending).1
  refine ⟨fun hreturns ↦ ?_, fun ⟨sys, memory', hexits⟩ ↦ ?_⟩
  · by_contra hnever
    exact hstage.not_returns hpending (by omega)
      (fun sys memory' hexits ↦ hnever ⟨sys, memory', hexits⟩) hreturns
  · exact hstage.returns hpending (hasRoom_of_run hrun) (by omega) hexits

/-- The entry script has pushed its job. -/
theorem returns_iff_exits_entryRun :
    ∃ s pending, Transition.runFrom (step copyingCompiler) (start () (.start fun _ ↦ ∅))
        (entryRun.take 5) = some s ∧ s.script.pending = some pending ∧
      ∃ t, Direct.Sees copyingCompiler ⟨.start fun _ ↦ ∅, (), 0⟩ s.events t ∧
        (Returns copyingCompiler s ↔ (t.importFile copyingCompiler pending.call).isSome) :=
  ⟨_, _, rfl, rfl, @returns_iff_exits _ copyingCompiler _ _ () (.start fun _ ↦ ∅)
    (entryRun.take 5) rfl (by decide) rfl⟩

end Pipeline

end SlimTS
