import SlimTS.Module.ImportSpecifier

/-!
# Reads of entries that are not there

`memory_mapper::read` answers a miss with a null pointer, and each of its callers dereferences what
it gets: `memoryAdaptor.read`, to hand the text to a script; the constructor of an import specifier,
to log the length of the transpiled file; the process plugin, to split the stored arguments; and the
macros applied to the stored library, whose pointer the program's start has read. Nothing is tested
on the way, so a caller is safe exactly when its entry is in the store. Which entry that is may be
up to a script, or to the worker that reports a transpiled file.
-/

namespace SlimTS

/-- What a caller of `read` makes of the store. -/
inductive ReadOutcome
  /-- The text goes on to its use. -/
  | text (text : Str)
  /-- A script sees `undefined`. -/
  | undefined
  /-- A script, or the caller, gets an exception. -/
  | exception (message : Str)
deriving DecidableEq, Repr

/-- What a missing argument becomes when it is made a string. -/
def undefinedString : Str := "undefined".toList

/-- Where the command line is stored, by map and file. -/
def scriptArgv : Str × Str := ("configurations".toList, "script.argv".toList)

/-- Where the compiler's own module is stored, by map and file. -/
def typescriptLibrary : Str × Str :=
  ("typescript_library".toList, "file:///bin/typescript.mjs".toList)

/-- `memoryAdaptor.read`, of arguments that have been made strings. A wrong number of them raises an
exception, but the function goes on. -/
def memoryAdaptorRead (store : Store) (args : List Str) : Except Fault ReadOutcome :=
  let slotHandle := args.getD 0 undefinedString
  let contentName := args.getD 1 undefinedString
  (dereference (store.read slotHandle contentName)).map fun text ↦
    if args.length = 2 then .text text
    else .exception "memory_adaptor.memoryAdaptor requires two string arguments".toList

/-- A call of `read`, by caller. -/
inductive ReadCall
  /-- A script calls `memoryAdaptor.read`. -/
  | memoryAdaptor (args : List Str)
  /-- A worker completes the job of an import with the object, and the constructor picks the result
  up. -/
  | importSpecifier (fresh : FreshJob) (object : JobObject)
  /-- The process plugin is loaded. -/
  | process
  /-- The program starts, and makes a specifier of the stored library. -/
  | start (env : Environment)

namespace ReadCall

/-- The map and the file that are read. -/
def entry : ReadCall → Str × Str
  | .memoryAdaptor args => (args.getD 0 undefinedString, args.getD 1 undefinedString)
  | .importSpecifier _ object =>
    (object.egressJobFile.storageContainerHandle, object.egressJobFile.fileNameString)
  | .process => scriptArgv
  | .start _ => typescriptLibrary

/-- What the caller does. -/
def outcome (store : Store) : ReadCall → Except Fault ReadOutcome
  | .memoryAdaptor args => memoryAdaptorRead store args
  | .importSpecifier fresh object =>
    (takeTranspiled store (fresh.ready.complete object)).map fun
      | .raised errors => .exception errors
      | .code code => .text code
  | .process =>
    (dereference (store.read scriptArgv.1 scriptArgv.2)).map .text
  | .start env =>
    (env.construct store (.definition typescriptLibrary.2
      (store.read typescriptLibrary.1 typescriptLibrary.2)) true none).map fun constructed ↦
        .text (constructed.specifier.specifierSourceCode.getD [])

/-- The caller dereferences no null pointer, and answers a missing entry with an exception or with
`undefined`. -/
structure ReadsSafely (store : Store) (call : ReadCall) : Prop where
  dereferences : call.outcome store ≠ .error .nullPointer
  missing : store.fileExists call.entry.1 call.entry.2 = false →
    call.outcome store = .ok .undefined ∨ ∃ message, call.outcome store = .ok (.exception message)

variable {store : Store} {call : ReadCall}

/-- `read` is null where `exists` is false. -/
theorem read_eq_none_iff {mapName fileName : Str} :
    store.read mapName fileName = none ↔ store.fileExists mapName fileName = false := by
  rw [Store.read, Store.fileExists]
  cases store.maps.lookup mapName with
  | none => simp
  | some id => simp [Option.isSome_eq_false_iff]

/-- Every caller dereferences what it has read, whatever it then does with the text. -/
theorem outcome_eq_dereference (store : Store) (call : ReadCall) :
    ∃ use : Str → ReadOutcome,
      call.outcome store = (dereference (store.read call.entry.1 call.entry.2)).map use := by
  cases call with
  | memoryAdaptor args => exact ⟨_, rfl⟩
  | importSpecifier fresh object =>
    refine ⟨.text, ?_⟩
    rw [outcome, takeTranspiled, Job.complete_errored, FreshJob.ready_errored,
      if_neg Bool.false_ne_true, Job.complete_egressJobFile, entry]
    cases store.read object.egressJobFile.storageContainerHandle
      object.egressJobFile.fileNameString <;> rfl
  | process => exact ⟨.text, rfl⟩
  | start env =>
    refine ⟨fun text ↦ .text (env.applyMacros text typescriptLibrary.2), ?_⟩
    rw [outcome, Environment.construct, entry]
    cases store.read typescriptLibrary.1 typescriptLibrary.2 <;> rfl

/-- The null pointer is dereferenced exactly when the entry is missing. -/
theorem outcome_eq_nullPointer_iff :
    call.outcome store = .error .nullPointer ↔ store.read call.entry.1 call.entry.2 = none := by
  obtain ⟨use, huse⟩ := outcome_eq_dereference store call
  rw [huse]
  cases store.read call.entry.1 call.entry.2 with
  | none => exact iff_of_true rfl rfl
  | some text => exact iff_of_false (by simp [dereference, Except.map]) (by simp)

/-- **Safe reads.** A caller of `read` is safe if and only if its entry is in the store. -/
theorem readsSafely_iff :
    ReadsSafely store call ↔ store.fileExists call.entry.1 call.entry.2 = true := by
  have hnull := @outcome_eq_nullPointer_iff store call
  rw [read_eq_none_iff] at hnull
  constructor
  · intro h
    rw [← Bool.not_eq_false]
    exact fun hmissing ↦ h.dereferences (hnull.mpr hmissing)
  · intro h
    refine ⟨fun heq ↦ ?_, fun hmissing ↦ ?_⟩
    · rw [hnull.mp heq] at h
      exact absurd h Bool.false_ne_true
    · rw [h] at hmissing
      exact absurd hmissing (by decide)

/-- A worker that found errors in `/a.ts` completes the job as `listen` has handed it out: it has
emitted no file, and names none. -/
theorem no_output_is_dereferenced :
    ¬ ∀ (store : Store) (call : ReadCall), ReadsSafely store call := by
  intro h
  have hjob := h (Store.run (fun _ ↦ ∅) [.create "typescript_storage".toList])
    (.importSpecifier
      (.construct 0 "typescript".toList "source_code_storage".toList "file:///a.ts".toList
        "typescript_storage".toList)
      { Job.listen (FreshJob.construct 0 "typescript".toList "source_code_storage".toList
          "file:///a.ts".toList "typescript_storage".toList).ready with
        errors := ["TS1005: ';' expected.".toList] })
  exact hjob.dereferences (by rfl)

end ReadCall

end SlimTS
