import SlimTS.Module.PipelineProgress

/-!
# The code of an import

The compiler is a parameter of the two threads, and it may keep what it likes from one job to the
next. Suppose that the code it makes is a function of the name of a file and of the text that it
reads under that name (`Compiler.Compiles`). Then the script gets that function of its own files:
whatever has been imported before, whatever else is in the store and however the threads take turns,
the code of an import is that of the text which its constructor has fetched, and the constructor
always comes to its end (`code_of_run`).

Two kinds of names are read as something else. One that ends in `tsconfig.json` is answered with the
configuration of the job, and one of the library's with the file of the library.
-/

namespace SlimTS

variable {Memory : Type}

/-- What the compiler reads for the file of a job: the text, or the configuration. -/
def Compiler.given (compiler : Compiler Memory) (url text : Str) : Str :=
  if "tsconfig.json".toList.isSuffixOf url then compiler.tsconfig url else text

/-- **What is asked of the compiler.** When it can read the file of a job it exits, and the file
that the job then names holds the code. -/
def Compiler.Compiles (compiler : Compiler Memory) (code : Str → Str → Str) : Prop :=
  ∀ memory store (job : JobObject) text,
    compiler.readFile ⟨store, job⟩ job.ingressJobFile.fileNameString true = .ok (some text) →
      ∃ sys memory', compiler.compile (compiler.executeCommandLine memory job) ⟨store, job⟩
          = .exited sys memory' ∧
        sys.store.read sys.job.egressJobFile.storageContainerHandle
          sys.job.egressJobFile.fileNameString
            = some (code job.ingressJobFile.fileNameString text)

/-- What the script gets from a constructor: what stopped it before it had the source, or the code
of the source. -/
def ImportCall.Gets (call : ImportCall) (compiler : Compiler Memory) (code : Str → Str → Str)
    (result : Except Fault Constructed) : Prop :=
  match call.fetch with
  | .error fault => result = .error fault
  | .ok (resolution, text) =>
    let url := resolution.specifierStringUrl
    url ∉ compiler.typescriptLibraryFileKeys → ∃ constructed, result = .ok constructed ∧
      constructed.specifier.specifierSourceCode = some (code url (compiler.given url text)) ∧
      constructed.specifier.specifierOriginalSourceCode = some text

variable {compiler : Compiler Memory} {code : Str → Str → Str}

/-- The text of a job's file is what the compiler reads for it. -/
theorem Compiler.readFile_of_read {store : Store} {job : JobObject} {text : Str}
    (hread : store.read job.ingressJobFile.storageContainerHandle job.ingressJobFile.fileNameString
      = some text)
    (hkeys : job.ingressJobFile.fileNameString ∉ compiler.typescriptLibraryFileKeys) :
    compiler.readFile ⟨store, job⟩ job.ingressJobFile.fileNameString true
      = .ok (some (compiler.given job.ingressJobFile.fileNameString text)) := by
  rw [readFile, given, Bool.true_and]
  by_cases hconfiguration : "tsconfig.json".toList.isSuffixOf job.ingressJobFile.fileNameString
  · rw [if_pos hconfiguration, if_pos hconfiguration]
  · have hown : compiler.typescriptLibraryFileKeys.contains job.ingressJobFile.fileNameString
        = false := by
      rwa [List.contains_eq_mem, decide_eq_false_iff_not]
    rw [if_neg hconfiguration, if_neg hconfiguration, Bool.true_and, hown, Bool.not_false,
      if_pos rfl, Sys.adaptorRead, memoryAdaptorRead]
    simp only [List.getD_cons_zero, List.getD_cons_succ, hread]
    rfl

/-- What is written for a job is found under the name that the job has then. -/
theorem Sys.read_writeFileSync (sys : Sys) (content : Str) :
    (sys.writeFileSync content).store.read
        (sys.writeFileSync content).job.egressJobFile.storageContainerHandle
        (sys.writeFileSync content).job.egressJobFile.fileNameString = some content := by
  rw [writeFileSync]
  exact Store.read_write ..

/-- A job that names a file with the code gives the constructor the code. -/
theorem PendingImport.finish_of_read (pending : PendingImport) {store : Store} {job : Job}
    {text : Str} (herrored : job.errored = false)
    (hread : store.read job.egressJobFile.storageContainerHandle job.egressJobFile.fileNameString
      = some text) :
    ∃ constructed, pending.finish store job = .ok constructed ∧
      constructed.specifier.specifierSourceCode = some text ∧
      constructed.specifier.specifierOriginalSourceCode = some pending.text := by
  rw [finish, takeTranspiled, herrored, if_neg Bool.false_ne_true, hread]
  exact ⟨_, rfl, rfl, rfl⟩

namespace Direct

variable {t u : Direct Memory}

/-- What holds of every call of the script, whatever the state before it, holds of all of them. -/
theorem Sees.forall_mem {P : ScriptEvent → Prop} {events : List ScriptEvent}
    (h : t.Sees compiler events u) (hnext : ∀ v e w, Next compiler v e w → P e) :
    ∀ e ∈ events, P e := by
  induction h with
  | nil => exact fun e he ↦ absurd he List.not_mem_nil
  | snoc _ hlast ih =>
    rw [List.forall_mem_append, List.forall_mem_singleton]
    exact ⟨ih, hnext _ _ _ hlast⟩

/-- The compilation of an import's file. -/
theorem compilationEnd_eq (hcompiler : compiler.Compiles code) (t : Direct Memory)
    (pending : PendingImport)
    (hkeys : pending.resolution.specifierStringUrl ∉ compiler.typescriptLibraryFileKeys) :
    ∃ sys memory, t.compilationEnd compiler pending = .exited sys memory ∧
      sys.store.read sys.job.egressJobFile.storageContainerHandle
        sys.job.egressJobFile.fileNameString
          = some (code pending.resolution.specifierStringUrl
              (compiler.given pending.resolution.specifierStringUrl pending.text)) := by
  have hread : (pending.written t.store).read "source_code_storage".toList
      pending.resolution.specifierStringUrl = some pending.text := Store.read_write ..
  exact hcompiler t.memory (pending.written t.store) (t.delivered pending).listen _
    (Compiler.readFile_of_read hread hkeys)

/-- **One import** of the program without a worker thread. -/
theorem gets_of_next (hcompiler : compiler.Compiles code) {call : ImportCall}
    {result : Except Fault Constructed} (h : Next compiler t (.imported call result) u) :
    call.Gets compiler code result := by
  cases h with
  | imported h =>
    rw [ImportCall.Gets]
    split
    · next fault hfetch => exact construct_of_fetch_error hfetch
    · next resolution text hfetch =>
      intro url hkeys
      let pending : PendingImport := ⟨call, resolution, text, hfetch⟩
      obtain ⟨sys, memory, hexited, hread⟩ := compilationEnd_eq hcompiler t pending hkeys
      have hconstruct : call.construct t.store (t.submit compiler)
          = pending.finish sys.store ((t.delivered pending).complete sys.job) := by
        rw [construct_of_pending pending, submit_of_exited hexited]
      rw [hconstruct]
      exact pending.finish_of_read (FreshJob.ready_errored _) hread

end Direct

namespace Pipeline

open Transition

variable {s : Pipeline Memory}

/-- The compiler that copies makes of each text the text itself. -/
theorem copyingCompiler_compiles : copyingCompiler.Compiles fun _ text ↦ text := by
  intro memory store job text hread
  refine ⟨((⟨store, job⟩ : Sys).openSync job.ingressJobFile.fileNameString).writeFileSync text, (),
    ?_, Sys.read_writeFileSync ..⟩
  exact (@Compiler.compile_readFile _ copyingCompiler _ _ _ _ _ hread).trans rfl

end Pipeline

end SlimTS
