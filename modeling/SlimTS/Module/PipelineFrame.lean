import SlimTS.Common.MemoryMapperRefinement
import SlimTS.Module.PipelineRefinement

/-!
# What the two threads leave alone

Imports write the sources under one map, and the compiler writes what it makes of them under
another: the one that the importer has put in the job, which stays in the job wherever the job goes
(`Contained`). Whatever names a compilation picks for its files and however the threads take turns,
the files of every other map are those of the start, unless the script writes there itself
(`read_of_run`).
-/

namespace SlimTS

/-- The map that imports write their sources to. -/
def sourceCodeStorage : Str := "source_code_storage".toList

/-- The map that the files of a compilation go to. -/
def typescriptStorage : Str := "typescript_storage".toList

theorem Store.Separate.write {owner : ℕ → Str} {store : Store} (h : store.Separate owner)
    (mapName fileName : Str) (content : ContentVariant) :
    (store.write mapName fileName content).Separate owner :=
  Store.Separate.step h
    (show (StoreOp.write mapName fileName content).AttachesOwned owner from trivial)

/-! ## The worker -/

/-- The job object in hand. -/
def LoopPhase.object : LoopPhase → Option JobObject
  | .compiling _ object | .completing _ object | .writing _ object _ => some object
  | .listening | .ended => none

/-- What importers and the one worker do: the jobs that are submitted name the map, and nobody else
completes one. -/
def LoopAction.OfImports : LoopAction → Prop
  | .other (.submit _ fresh) => fresh.egressJobFile.storageContainerHandle = typescriptStorage
  | .other (.getJob _) | .other (.findJob _ _) | .other (.complete _) => False
  | _ => True

namespace WorkerState

variable {w w' : WorkerState}

/-- What a compilation writes goes to its own map. -/
structure Contained (w : WorkerState) : Prop where
  /-- A job that can be delivered names the map. -/
  job : ∀ j, (w.queue.jobs j).readyToProcess = true →
    (w.queue.jobs j).egressJobFile.storageContainerHandle = typescriptStorage
  /-- The job in hand does. -/
  object : ∀ object, w.phase.object = some object →
    object.egressJobFile.storageContainerHandle = typescriptStorage

/-- With no job in hand there are the jobs alone. -/
theorem contained_of_object_eq_none
    (hjob : ∀ j, (w.queue.jobs j).readyToProcess = true →
      (w.queue.jobs j).egressJobFile.storageContainerHandle = typescriptStorage)
    (hnone : w.phase.object = none) : w.Contained where
  job := hjob
  object _ hobject := absurd (hobject.symm.trans hnone) (Option.some_ne_none _)

theorem contained_start : start.Contained :=
  contained_of_object_eq_none (fun _ h ↦ absurd h Bool.false_ne_true) rfl

/-- A change of one job. -/
theorem Contained.update (h : w.Contained) {j : JobId} {job : Job}
    (hjob : job.readyToProcess = true →
      job.egressJobFile.storageContainerHandle = typescriptStorage) (k : JobId) :
    (Function.update w.queue.jobs j job k).readyToProcess = true →
      (Function.update w.queue.jobs j job k).egressJobFile.storageContainerHandle
        = typescriptStorage := by
  rw [Function.update_apply]
  split
  · exact hjob
  · exact h.job k

theorem Contained.other (h : w.Contained) {a : QueueAction} {queue : QueueState}
    (hqueue : w.queue.step a = some queue) (ha : (LoopAction.other a).OfImports) :
    Contained { w with queue := queue } where
  job := by
    cases QueueState.effect_of_step hqueue with
    | submit j fresh => exact h.update fun _ ↦ ha
    | wake | cleanUp | idle => exact h.job
    | deliver | find | complete => exact ha.elim
  object := h.object

theorem Contained.listen (h : w.Contained) : w.listen.Contained := by
  rw [WorkerState.listen]
  split
  · exact h
  · next j hnext =>
    obtain ⟨-, -, -, hdeliverable, -⟩ := nextJob_eq_some hnext
    have hready : (w.queue.jobs j).readyToProcess = true := by
      rw [deliverable, Bool.and_eq_true] at hdeliverable
      exact hdeliverable.1
    constructor
    · exact h.update fun _ ↦ h.job j hready
    · intro object hobject
      cases hobject
      rw [Job.listen, QueueState.deliver_jobs, Function.update_self]
      exact h.job j hready

/-- **One step of the worker** keeps what is written to its own map. -/
theorem Contained.step (h : w.Contained) {a : LoopAction} (ha : a.OfImports)
    (hstep : w.step a = some w') : w'.Contained := by
  cases a with
  | other a =>
    obtain ⟨queue, hqueue, rfl⟩ := Option.map_eq_some_iff.mp hstep
    exact h.other hqueue ha
  | listen =>
    rw [WorkerState.step] at hstep
    split at hstep <;> cases hstep
    exact h.listen
  | execute outcome =>
    rw [WorkerState.step] at hstep
    split at hstep <;> cases hstep
    next j object hphase =>
      have hobject := h.object object (by rw [hphase]; rfl)
      cases outcome with
      | exits => exact ⟨h.job, fun object' hobject' ↦ Option.some.inj hobject' ▸ hobject⟩
      | throws error => cases error <;> exact contained_of_object_eq_none h.job rfl
  | find indeterminate =>
    rw [WorkerState.step] at hstep
    split at hstep <;> cases hstep
    next j object hphase =>
      have hobject := h.object object (by rw [hphase]; rfl)
      rw [WorkerState.find]
      split
      · exact contained_of_object_eq_none h.job rfl
      · exact ⟨h.job, fun object' hobject' ↦ Option.some.inj hobject' ▸ hobject⟩
  | write =>
    rw [WorkerState.step] at hstep
    split at hstep <;> cases hstep
    next j object found hphase =>
      have hobject := h.object object (by rw [hphase]; rfl)
      exact contained_of_object_eq_none (h.update fun _ ↦ hobject) rfl

end WorkerState

/-! ## The compiler -/

/-- **One call of the compiler** leaves the map in the job, and writes to that map if to any. -/
theorem Compiler.store_of_call {Memory : Type} {compiler : Compiler Memory} {sys sys' : Sys}
    {compilation compilation' : Compilation Memory}
    (h : compiler.call sys compilation = some (sys', compilation')) :
    sys'.job.egressJobFile.storageContainerHandle = sys.job.egressJobFile.storageContainerHandle ∧
      (sys'.store = sys.store ∨ ∃ fileName content, sys'.store
        = sys.store.write sys.job.egressJobFile.storageContainerHandle fileName content) := by
  cases compilation with
  | exits | throws => cases h
  | readFile fileName withJob next =>
    rw [call] at h
    split at h <;> cases h
    exact ⟨rfl, .inl rfl⟩
  | readdirSync =>
    cases h
    exact ⟨rfl, .inl rfl⟩
  | writeFile fileName data writeByteOrderMark withJob next =>
    cases h
    rw [Sys.writeFile]
    split
    · rw [Sys.writeFileSync]
      split <;> exact ⟨rfl, .inr ⟨_, _, rfl⟩⟩
    · exact ⟨rfl, .inl rfl⟩

/-! ## The two threads -/

/-- The script writes to the map. -/
def PipelineAction.WritesTo (mapName : Str) : PipelineAction → Prop
  | .write m _ _ => m = mapName
  | _ => False

namespace Pipeline

variable {Memory : Type} {compiler : Compiler Memory} {s s' : Pipeline Memory}

/-- What a step does to the store: nothing, or a write to a map that it may write to. -/
def Writes (s s' : Pipeline Memory) (a : PipelineAction) : Prop :=
  s'.store = s.store ∨ ∃ mapName fileName content,
    s'.store = s.store.write mapName fileName content ∧
      (a.WritesTo mapName ∨ mapName = sourceCodeStorage ∨ mapName = typescriptStorage)

theorem contained_of_workerStep {a : LoopAction} (h : s.worker.Contained) (ha : a.OfImports)
    (hstep : s.workerStep a = some s') : s'.worker.Contained ∧ s'.store = s.store := by
  obtain ⟨worker, hworker, rfl⟩ := Option.map_eq_some_iff.mp hstep
  exact ⟨h.step ha hworker, rfl⟩

/-- **One step of the threads.** -/
theorem contained_of_step {a : PipelineAction} (h : s.worker.Contained)
    (hstep : s.step compiler a = some s') : s'.worker.Contained ∧ Writes s s' a := by
  have hworker : ∀ {u : Pipeline Memory} {b : LoopAction}, u.workerStep b = some s' →
      u.worker = s.worker → u.store = s.store → b.OfImports →
        s'.worker.Contained ∧ Writes s s' a := by
    intro u b hstep hu hstore hb
    obtain ⟨hcontained, hsame⟩ := contained_of_workerStep (hu ▸ h) hb hstep
    exact ⟨hcontained, .inl (hsame.trans hstore)⟩
  cases a with
  | write mapName fileName content =>
    rw [Pipeline.step] at hstep
    split at hstep <;> cases hstep
    exact ⟨h, .inr ⟨mapName, fileName, content, rfl, .inl rfl⟩⟩
  | begin call =>
    rw [Pipeline.step] at hstep
    split at hstep <;> cases hstep
    rw [Pipeline.begin]
    split
    · exact ⟨h, .inl rfl⟩
    · exact ⟨h, .inr ⟨sourceCodeStorage, _, _, rfl, .inr (.inl rfl)⟩⟩
  | submit j =>
    rw [Pipeline.step] at hstep
    split at hstep
    · exact hworker hstep rfl rfl rfl
    · cases hstep
  | poll | cleanUp =>
    rw [Pipeline.step] at hstep
    split at hstep
    · exact hworker hstep rfl rfl trivial
    · cases hstep
  | take =>
    rw [Pipeline.step] at hstep
    split at hstep <;> cases hstep
    exact ⟨h, .inl rfl⟩
  | listen =>
    obtain ⟨worker, hlisten, rfl⟩ := Option.map_eq_some_iff.mp hstep
    exact ⟨h.step (a := .listen) trivial hlisten, .inl rfl⟩
  | call =>
    rw [Pipeline.step, Pipeline.call] at hstep
    split at hstep
    · next j object compilation hphase hcompilation =>
      obtain ⟨⟨sys, compilation'⟩, hcall, rfl⟩ := Option.map_eq_some_iff.mp hstep
      have hobject := h.object object (by rw [hphase]; rfl)
      obtain ⟨hhandle, hstore⟩ := Compiler.store_of_call hcall
      refine ⟨⟨h.job, fun object' hobject' ↦ ?_⟩, ?_⟩
      · cases hobject'
        exact hhandle.trans hobject
      · refine hstore.imp_right ?_
        rintro ⟨fileName, content, hwrite⟩
        exact ⟨_, fileName, content, hwrite, .inr (.inr hobject)⟩
    · cases hstep
  | exit =>
    rw [Pipeline.step, Pipeline.exit] at hstep
    split at hstep
    · exact hworker hstep rfl rfl trivial
    · exact hworker hstep rfl rfl trivial
    · cases hstep
  | find indeterminate => exact hworker hstep rfl rfl trivial
  | complete => exact hworker hstep rfl rfl trivial

/-- **Other maps are left alone.** In every run of the two threads, the files of a map that is
neither the imports' nor the compiler's, and that the script does not write to, are those of the
start. -/
theorem read_of_run {owner : ℕ → Str} {memory : Memory} {store : Store}
    (hstore : store.Separate owner) {mapName : Str} (hsource : mapName ≠ sourceCodeStorage)
    (htypescript : mapName ≠ typescriptStorage) {actions : List PipelineAction}
    (hactions : ∀ a ∈ actions, ¬a.WritesTo mapName)
    (hrun : Transition.runFrom (step compiler) (start memory store) actions = some s)
    (fileName : Str) : s.store.read mapName fileName = store.read mapName fileName := by
  have hkept := Transition.invariant_of_meets (C := fun _ a ↦ ¬a.WritesTo mapName)
    (I := fun u : Pipeline Memory ↦ u.worker.Contained ∧ u.store.Separate owner ∧
      u.store.read mapName fileName = store.read mapName fileName)
    (fun u a u' hu ha hstep ↦ ?_)
    ⟨WorkerState.contained_start, hstore, rfl⟩ (Transition.meets_of_forall hactions) hrun
  · exact hkept.2.2
  · obtain ⟨hcontained, hseparate, hread⟩ := hu
    obtain ⟨hcontained', hsame | ⟨m, f, content, hwrite, hm⟩⟩ := contained_of_step hcontained hstep
    · rw [hsame]
      exact ⟨hcontained', hseparate, hread⟩
    · have hne : mapName ≠ m := by
        rintro rfl
        exact hm.elim ha (not_or.mpr ⟨hsource, htypescript⟩)
      rw [hwrite]
      exact ⟨hcontained', hseparate.write m f content,
        ((Store.leavesOthers_step hseparate (.write m f content)).read mapName hne fileName).trans
          hread⟩

end Pipeline

end SlimTS
