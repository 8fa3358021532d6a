import SlimTS.Library.Transition
import SlimTS.Module.Transpiler

/-!
# The script's thread and the worker's

The two threads that `slim::start` launches. One runs the script: between its own writes to the
store it imports files, and the constructor of an import specifier writes the source to the store,
pushes a job, polls, cleans up, and takes the file that the job then names. The other runs
`job_loop`. The steps of the two come in any order; the import specifiers of the module layer take
a `submit` for one step.

Nothing else is launched, so the model has one script and one worker. What they share is the queue,
whose critical sections are those of the queue layer, and the store; every access to the store is
ordered by the queue, for the worker compiles only while the script polls.
-/

namespace SlimTS

/-! ## The constructor in two halves -/

/-- The environment with another worker at the end of the queue. -/
def Environment.withSubmit (env : Environment) (submit : Store → FreshJob → Store × Job) :
    Environment :=
  { env with submit := submit }

section WithSubmit

variable (env : Environment) (submit : Store → FreshJob → Store × Job)

@[simp] theorem Environment.withSubmit_submit : (env.withSubmit submit).submit = submit := rfl

@[simp] theorem Environment.transpileJob_withSubmit (url : Str) :
    (env.withSubmit submit).transpileJob url = env.transpileJob url := rfl

@[simp] theorem Environment.fetchSource_withSubmit (specifierString : Str) :
    (env.withSubmit submit).fetchSource specifierString = env.fetchSource specifierString := rfl

theorem Environment.tryNames_withSubmit (fileExtension : Str) (names : List Str) :
    (env.withSubmit submit).tryNames fileExtension names = env.tryNames fileExtension names := by
  induction names with
  | nil => rfl
  | cons name names ih =>
    rw [tryNames, tryNames, ih]
    rfl

theorem Environment.search_withSubmit (path : Str) :
    (env.withSubmit submit).search path = env.search path := by
  have htry : ∀ names fileExtensions found,
      (env.withSubmit submit).tryExtensions names fileExtensions found
        = env.tryExtensions names fileExtensions found := by
    intro names fileExtensions
    induction fileExtensions with
    | nil => exact fun _ ↦ rfl
    | cons fileExtension fileExtensions ih =>
      intro found
      simp only [tryExtensions, tryNames_withSubmit, ih]
  rw [search, search, htry]
  rfl

/-- Where a module is found does not depend on the worker. -/
@[simp] theorem Environment.resolveModulePath_withSubmit (referrerPath : Option Str)
    (specifierString : Str) : (env.withSubmit submit).resolveModulePath referrerPath specifierString
      = env.resolveModulePath referrerPath specifierString := by
  have htry : ∀ searchPaths sofar,
      (env.withSubmit submit).trySearchPaths specifierString searchPaths sofar
        = env.trySearchPaths specifierString searchPaths sofar := by
    intro searchPaths
    induction searchPaths with
    | nil => exact fun _ ↦ rfl
    | cons searchPath searchPaths ih =>
      intro sofar
      simp only [trySearchPaths, search_withSubmit, ih]
      rfl
  rw [resolveModulePath, resolveModulePath, resolve, resolve]
  simp only [htry, search_withSubmit]
  rfl

end WithSubmit

/-- A call of the constructor for a file. -/
structure ImportCall where
  env : Environment
  specifierString : Str
  isEntryPoint : Bool
  referrerPath : Option Str

/-- The constructor, before it writes the source: what it has resolved and fetched. -/
def ImportCall.fetch (call : ImportCall) : Except Fault (Resolution × Str) := do
  let resolution ← call.env.resolveModulePath call.referrerPath call.specifierString
  let text ← call.env.fetchSource resolution.specifierString
  return (resolution, text)

/-- The constructor with the source of the file in hand. -/
structure PendingImport where
  call : ImportCall
  resolution : Resolution
  text : Str
  fetch_eq : call.fetch = .ok (resolution, text)

namespace PendingImport

variable (pending : PendingImport)

/-- The store once the source is written. -/
def written (store : Store) : Store :=
  store.write "source_code_storage".toList pending.resolution.specifierStringUrl
    (.pointer pending.text)

/-- The job that is pushed. -/
def job : FreshJob := pending.call.env.transpileJob pending.resolution.specifierStringUrl

/-- The constructor once `submit` has returned. -/
def finish (store : Store) (job : Job) : Except Fault Constructed := do
  let transpiled ← takeTranspiled store job
  return {
    specifier :=
      { isEntryPoint := pending.call.isEntryPoint
        specifierString := pending.resolution.specifierString
        specifierStringUrl := pending.resolution.specifierStringUrl
        specifierStringOriginal := pending.call.specifierString
        specifierSourceCode := some
          (match transpiled with | .raised _ => pending.text | .code code => code)
        specifierOriginalSourceCode := some pending.text
        specifierPath := pending.resolution.specifierPath }
    store := store
    events := [.fetched pending.resolution.specifierString,
      .transpiled pending.resolution.specifierStringUrl] ++
      match transpiled with | .raised errors => [.raised errors] | .code _ => [] }

end PendingImport

/-- The constructor as the module layer has it, with the given `submit`. -/
def ImportCall.construct (call : ImportCall) (store : Store)
    (submit : Store → FreshJob → Store × Job) : Except Fault Constructed :=
  (call.env.withSubmit submit).construct store (.name call.specifierString) call.isEntryPoint
    call.referrerPath

section Construct

variable {call : ImportCall} {store : Store} {submit : Store → FreshJob → Store × Job}

/-- A constructor that finds no source to write throws, whatever the worker does. -/
theorem construct_of_fetch_error {fault : Fault} (h : call.fetch = .error fault) :
    call.construct store submit = .error fault := by
  rw [ImportCall.construct, Environment.construct, Environment.resolveModulePath_withSubmit]
  rw [ImportCall.fetch] at h
  cases hresolve : call.env.resolveModulePath call.referrerPath call.specifierString with
  | error fault' =>
    rw [hresolve] at h
    exact congrArg _ (Except.error.inj h)
  | ok resolution =>
    rw [hresolve, ok_bind] at h
    rw [ok_bind, Environment.fetchSource_withSubmit]
    cases htext : call.env.fetchSource resolution.specifierString with
    | error fault' =>
      rw [htext] at h
      exact congrArg _ (Except.error.inj h)
    | ok text =>
      rw [htext] at h
      cases h

/-- The two halves make up the constructor. -/
theorem construct_of_pending (pending : PendingImport) (store : Store) :
    pending.call.construct store submit
      = pending.finish (submit (pending.written store) pending.job).1
          (submit (pending.written store) pending.job).2 := by
  have hfetch := pending.fetch_eq
  rw [ImportCall.fetch] at hfetch
  obtain ⟨resolution, hresolve, hfetch⟩ := bind_eq_ok hfetch
  obtain ⟨text, htext, hfetch⟩ := bind_eq_ok hfetch
  obtain ⟨hresolution, htext'⟩ := Prod.mk.inj (Except.ok.inj hfetch)
  rw [hresolution] at hresolve htext
  rw [htext'] at htext
  rw [ImportCall.construct, Environment.construct, Environment.resolveModulePath_withSubmit,
    hresolve, ok_bind, Environment.fetchSource_withSubmit, htext]
  rfl

end Construct

/-! ## The two threads -/

/-- What the script has done to the store, or had done. -/
inductive ScriptEvent
  /-- A call of `memoryAdaptor.write`. -/
  | wrote (mapName fileName : Str) (content : ContentVariant)
  /-- A constructor has returned or thrown. -/
  | imported (call : ImportCall) (result : Except Fault Constructed)

/-- Where the thread of the script stands. -/
inductive ScriptPhase
  /-- Outside the constructor. -/
  | running
  /-- Before the first section of `submit`. -/
  | submitting (pending : PendingImport)
  /-- In `submit`, with the job at the address. -/
  | waiting (pending : PendingImport) (j : JobId)
  /-- Behind `submit`. -/
  | taking (pending : PendingImport) (j : JobId)
  /-- A null pointer has been dereferenced. -/
  | ended

/-- The two threads and what they share. -/
structure Pipeline (Memory : Type) where
  /-- The queue, and `job_loop`. -/
  worker : WorkerState
  /-- What `executeCommandLine` does next, while it runs. -/
  compilation : Option (Compilation Memory)
  /-- What the compiler has kept from the jobs before. -/
  memory : Memory
  store : Store
  script : ScriptPhase
  events : List ScriptEvent

/-- One step of one of the threads. -/
inductive PipelineAction
  /-- The script calls `memoryAdaptor.write`. -/
  | write (mapName fileName : Str) (content : ContentVariant)
  /-- The script imports a file, up to the write of its source. -/
  | begin (call : ImportCall)
  /-- `submit`, first section, of a new job at the address. -/
  | submit (j : JobId)
  /-- `submit`, one turn of the polling loop. -/
  | poll
  /-- `submit`, last section. -/
  | cleanUp
  /-- The constructor behind `submit`. -/
  | take
  /-- `queue.listen`, one turn. -/
  | listen
  /-- One call of the compiler. -/
  | call
  /-- `executeCommandLine` ends. -/
  | exit
  /-- `complete`, first section. -/
  | find (indeterminate : Option JobId)
  /-- `complete`, second section. -/
  | complete

namespace Pipeline

variable {Memory : Type}

/-- No thread has taken a step. -/
def start (memory : Memory) (store : Store) : Pipeline Memory :=
  ⟨.start, none, memory, store, .running, []⟩

section Step

variable (compiler : Compiler Memory) (s : Pipeline Memory)

/-- A step that only concerns the queue and the loop. -/
def workerStep (a : LoopAction) : Option (Pipeline Memory) :=
  (s.worker.step a).map fun worker ↦ { s with worker := worker }

/-- The constructor up to the write. What it throws before is thrown in the script. -/
def begin (call : ImportCall) : Pipeline Memory :=
  match h : call.fetch with
  | .error fault => { s with events := s.events ++ [.imported call (.error fault)] }
  | .ok (resolution, text) =>
    let pending : PendingImport := ⟨call, resolution, text, h⟩
    { s with
      store := pending.written s.store
      script := .submitting pending }

/-- The constructor behind `submit`. -/
def take (pending : PendingImport) (j : JobId) : Pipeline Memory :=
  let result := pending.finish s.store (s.worker.queue.jobs j)
  { s with
    script := match result with | .error _ => .ended | .ok _ => .running
    events := s.events ++ [.imported pending.call result] }

/-- The call of `executeCommandLine` that follows when `queue.listen` has come back with a job. -/
def called (memory : Memory) : LoopPhase → Option (Compilation Memory)
  | .compiling _ object => some (compiler.executeCommandLine memory object)
  | _ => none

/-- `queue.listen`, one turn. -/
def listen : Option (Pipeline Memory) :=
  (s.worker.step .listen).map fun worker ↦
    { s with
      worker := worker
      compilation := called compiler s.memory worker.phase }

/-- One call of the compiler, on the store and the job in hand. -/
def call : Option (Pipeline Memory) :=
  match s.worker.phase, s.compilation with
  | .compiling j object, some compilation =>
    (compiler.call ⟨s.store, object⟩ compilation).map fun next ↦
      { s with
        worker := { s.worker with phase := .compiling j next.1.job }
        compilation := some next.2
        store := next.1.store }
  | _, _ => none

/-- `executeCommandLine` calls its exit callback, or throws. -/
def exit : Option (Pipeline Memory) :=
  match s.worker.phase, s.compilation with
  | .compiling _ object, some (.exits memory) =>
    { s with compilation := none, memory := memory }.workerStep
      (.execute (.exits object.egressJobFile.fileNameString))
  | .compiling _ _, some (.throws memory error) =>
    { s with compilation := none, memory := memory }.workerStep (.execute (.throws error))
  | _, _ => none

/-- One step. -/
def step : PipelineAction → Option (Pipeline Memory)
  | .write mapName fileName content =>
    match s.script with
    | .running => some
      { s with
        store := s.store.write mapName fileName content
        events := s.events ++ [.wrote mapName fileName content] }
    | _ => none
  | .begin call =>
    match s.script with
    | .running => some (s.begin call)
    | _ => none
  | .submit j =>
    match s.script with
    | .submitting pending =>
      { s with script := .waiting pending j }.workerStep (.other (.submit j pending.job))
    | _ => none
  | .poll =>
    match s.script with
    | .waiting _ j => s.workerStep (.other (.poll j))
    | _ => none
  | .cleanUp =>
    match s.script with
    | .waiting pending j =>
      { s with script := .taking pending j }.workerStep (.other (.cleanUp j))
    | _ => none
  | .take =>
    match s.script with
    | .taking pending j => some (s.take pending j)
    | _ => none
  | .listen => s.listen compiler
  | .call => s.call compiler
  | .exit => s.exit
  | .find indeterminate => s.workerStep (.find indeterminate)
  | .complete => s.workerStep .write

end Step

end Pipeline

end SlimTS
