import SlimTS.Library.Utf
import SlimTS.Module.NullRead
import SlimTS.Queue.JobLoop

/-!
# The compiler in the worker

The TypeScript worker runs the compiler with the functions of `fs` replaced by functions over the
in-memory store and the job in hand. The compiler itself is a parameter. A call of
`executeCommandLine` is the tree of the calls it makes to these functions, with what it does after
each answer, and what the compiler keeps from one job to the next, its caches among it, is handed
from call to call. Texts are those of the program: what the `memoryAdaptor` plugin makes of them for
a script is part of the parameter.

The tree is run twice over. `compile` runs it as a whole, and `transpile` makes that the meaning of
a `queue::submit` at whose other end nothing else goes on. `call` runs one call of it, as they take
place beside the other threads.
-/

namespace SlimTS

/-- What the compiler does next. Its calls are finitely many: one that goes on without end, in calls
or between them, is left out. -/
inductive Compilation (Memory : Type)
  /-- It calls its exit callback. -/
  | exits (memory : Memory)
  | throws (memory : Memory) (error : Thrown)
  /-- `sys.readFile`, with the job or without it. The answer may be `undefined`. -/
  | readFile (fileName : Str) (withJob : Bool) (next : Option Str → Compilation Memory)
  /-- `fs.readdirSync`. -/
  | readdirSync (path : Str) (next : List Str → Compilation Memory)
  /-- `sys.writeFile`. The answer is whether it returns, and does not throw. -/
  | writeFile (fileName data : Str) (writeByteOrderMark withJob : Bool)
      (next : Bool → Compilation Memory)

/-- `sys`, as far as the calls change it: the store behind it, and `sys.job`. -/
structure Sys where
  store : Store
  job : JobObject

/-- The compiler, and what its worker sets up for it. -/
structure Compiler (Memory : Type) where
  /-- `typescript_library_file_keys`. -/
  typescriptLibraryFileKeys : List Str
  /-- `JSON.stringify(job.tsconfig)`, for the file of the job. -/
  tsconfig : Str → Str
  /-- `executeCommandLine`, of what the compiler has kept and the job. -/
  executeCommandLine : Memory → JobObject → Compilation Memory

/-- `byteOrderMarkIndicator`. -/
def byteOrderMarkIndicator : Str := Utf.encode ['\uFEFF']

namespace Sys

variable (sys : Sys)

/-- `memoryAdaptor.read` of two strings, in a `try` whose handler answers `undefined`. -/
def adaptorRead (slotHandle contentName : Str) : Except Fault (Option Str) :=
  (memoryAdaptorRead sys.store [slotHandle, contentName]).map fun
    | .text text => some text
    | _ => none

/-- `fs.openSync`, called with the job: the file becomes the job's egress file. -/
def openSync (fileName : Str) : Sys :=
  { sys with
    job := { sys.job with
      egressJobFile := { sys.job.egressJobFile with fileNameString := fileName } } }

/-- `fs.writeFileSync`, of the job. -/
def writeFileSync (content : Str) : Sys :=
  let fileName := sys.job.egressJobFile.fileNameString
  let sys := if "file://".toList.isPrefixOf fileName then sys
    else sys.openSync ("file://".toList ++ fileName)
  { sys with
    store := sys.store.write sys.job.egressJobFile.storageContainerHandle
      sys.job.egressJobFile.fileNameString (.pointer content) }

/-- `writeFile2`. Without a job `openSync` throws. -/
def writeFile (fileName data : Str) (writeByteOrderMark withJob : Bool) : Sys × Bool :=
  let data := if writeByteOrderMark then byteOrderMarkIndicator ++ data else data
  if withJob then ((sys.openSync fileName).writeFileSync data, true) else (sys, false)

end Sys

/-- How a call of `executeCommandLine` ends. -/
inductive CompilationEnd (Memory : Type)
  | exited (sys : Sys) (memory : Memory)
  | thrown (sys : Sys) (memory : Memory) (error : Thrown)
  /-- With the program. -/
  | fault (fault : Fault)

namespace Compiler

variable {Memory : Type} (compiler : Compiler Memory)

/-- `fs.readFileSync`, in `readFile`, which answers `undefined` when it throws. -/
def readFile (sys : Sys) (fileName : Str) (withJob : Bool) : Except Fault (Option Str) :=
  if withJob && "tsconfig.json".toList.isSuffixOf fileName then
    .ok (some (compiler.tsconfig sys.job.ingressJobFile.fileNameString))
  else if withJob && !compiler.typescriptLibraryFileKeys.contains fileName then
    sys.adaptorRead sys.job.ingressJobFile.storageContainerHandle fileName
  else if compiler.typescriptLibraryFileKeys.contains fileName then
    sys.adaptorRead typescriptLibrary.1 fileName
  else .ok none

/-- The next call of a compilation. There is none at its end, and none after a null pointer has
ended the program. -/
def call (sys : Sys) : Compilation Memory → Option (Sys × Compilation Memory)
  | .exits _ | .throws _ _ => none
  | .readFile fileName withJob next =>
    match compiler.readFile sys fileName withJob with
    | .error _ => none
    | .ok text => some (sys, next text)
  | .readdirSync path next => some (sys, next (sys.store.listKeys path))
  | .writeFile fileName data writeByteOrderMark withJob next =>
    let written := sys.writeFile fileName data writeByteOrderMark withJob
    some (written.1, next written.2)

/-- A compilation as a whole. -/
def compile : Compilation Memory → Sys → CompilationEnd Memory
  | .exits memory, sys => .exited sys memory
  | .throws memory error, sys => .thrown sys memory error
  | .readFile fileName withJob next, sys =>
    match compiler.readFile sys fileName withJob with
    | .error fault => .fault fault
    | .ok text => compile (next text) sys
  | .readdirSync path next, sys => compile (next (sys.store.listKeys path)) sys
  | .writeFile fileName data writeByteOrderMark withJob next, sys =>
    let written := sys.writeFile fileName data writeByteOrderMark withJob
    compile (next written.2) written.1

/-- The compilation of a job, on the store in which it is received. -/
def compileJob (memory : Memory) (store : Store) (job : Job) : CompilationEnd Memory :=
  compiler.compile (compiler.executeCommandLine memory job.listen) ⟨store, job.listen⟩

/-- A `queue::submit` whose job is delivered under the ticket, compiled and completed, with nothing
else going on: the store, the job and the compiler's memory when it returns. It does not return if
the compiler does not exit. -/
def transpile (memory : Memory) (ticketId : ℤ) (store : Store) (fresh : FreshJob) :
    Option (Store × Job × Memory) :=
  let job := { fresh.ready with ticketId := ticketId, submitted := true }
  match compiler.compileJob memory store job with
  | .exited sys memory => some (sys.store, job.complete sys.job, memory)
  | _ => none

/-! ## Calls make up a compilation -/

variable {compiler} {sys sys' : Sys} {compilation compilation' : Compilation Memory}

/-- A compilation that reads a file goes on with what it has read. -/
theorem compile_readFile {fileName : Str} {withJob : Bool} {text : Option Str}
    {next : Option Str → Compilation Memory}
    (h : compiler.readFile sys fileName withJob = .ok text) :
    compiler.compile (.readFile fileName withJob next) sys = compiler.compile (next text) sys := by
  rw [compile, h]

/-- A call does not change how the compilation ends. -/
theorem compile_of_call (h : compiler.call sys compilation = some (sys', compilation')) :
    compiler.compile compilation sys = compiler.compile compilation' sys' := by
  cases compilation with
  | exits | throws => cases h
  | readFile fileName withJob next =>
    rw [call] at h
    split at h
    · cases h
    · next text hread =>
      cases h
      exact compile_readFile hread
  | readdirSync | writeFile =>
    cases h
    rfl

/-- No call changes what `complete` finds the job by, or what file it is about. -/
theorem job_of_call (h : compiler.call sys compilation = some (sys', compilation')) :
    sys'.job.ticketId = sys.job.ticketId ∧ sys'.job.queueNameString = sys.job.queueNameString := by
  cases compilation with
  | exits | throws => cases h
  | readFile fileName withJob next =>
    rw [call] at h
    split at h
    · cases h
    · cases h
      exact ⟨rfl, rfl⟩
  | readdirSync =>
    cases h
    exact ⟨rfl, rfl⟩
  | writeFile fileName data writeByteOrderMark withJob next =>
    cases h
    rw [Sys.writeFile, Sys.writeFileSync]
    split
    · split <;> exact ⟨rfl, rfl⟩
    · exact ⟨rfl, rfl⟩

/-- A compilation that exits does so after finitely many calls, each of which can be made. -/
theorem exits_of_compile {P : Sys → Compilation Memory → Prop} {sysEnd : Sys} {memory : Memory}
    (hcall : ∀ sys compilation sys' compilation', P sys compilation →
      compiler.call sys compilation = some (sys', compilation') → P sys' compilation')
    (hP : P sys compilation) (h : compiler.compile compilation sys = .exited sysEnd memory) :
    P sysEnd (.exits memory) := by
  induction compilation generalizing sys with
  | exits memory' =>
    cases h
    exact hP
  | throws => cases h
  | readFile fileName withJob next ih =>
    rw [compile] at h
    split at h
    · cases h
    · next text hread =>
      refine ih text (hcall _ _ _ _ hP ?_) h
      rw [call, hread]
  | readdirSync path next ih => exact ih _ (hcall _ _ _ _ hP rfl) h
  | writeFile fileName data writeByteOrderMark withJob next ih =>
    exact ih _ (hcall _ _ _ _ hP rfl) h

end Compiler

end SlimTS
