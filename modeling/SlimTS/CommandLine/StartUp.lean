import SlimTS.CommandLine.WorkerConfiguration
import SlimTS.Module.PipelineFrame

/-!
# From the command line to the scripts

`slim::start` reads the command line, makes the stores, and launches the two threads. What they know
of the command line they know from the store: the compiler's own script parses the text that it
reads under `configurations`, and the process plugin splits another one. Between the two there are
the makers of the other stores, and, once the threads run, all that the imports and the compiler
write. None of this reaches the configurations, so in every state of every run a script that reads
them sees the command line (`commandLine_of_run`), as far as the two texts can hold it.

The arguments are bytes and the scripts see text. Like the text of the options, that of the
arguments is taken apart at ASCII characters, so it makes no difference on which side that is done.
-/

namespace SlimTS

open Getline

/-! ## The start -/

/-- The stores that `marshal_resources` makes. The last is attached: the library that is linked into
the program. -/
def marshalResources : List StoreOp :=
  [.create configurationsMap, .create "less_storage".toList, .create sourceCodeStorage,
    .create typescriptStorage, .attach "typescript_library".toList (some 0)]

/-- `slim::start`, up to the launch of the threads: the globals and the store. -/
def startUp (e : CommandLineEnvironment) (containers : ℕ → MapContainer) (arguments : List Str) :
    Except ArgvError (ArgvState × Store) := do
  let (s, store) ← setArgv e (.start containers) arguments
  return (s, marshalResources.foldl Store.step store)

/-- The arguments as scripts should see them. -/
def Reading.argv (e : CommandLineEnvironment) (r : Reading) : List Str :=
  e.executablePath :: r.call.elim [] fun c ↦ c.scriptPath :: c.arguments

/-! ## What the scripts see -/

/-- **A script** sees the arguments if and only if none of them holds a comma and the last is not
empty. -/
theorem processArgv_iff {v8 : Transcoding} {store : Store} {argv : List Str}
    {texts : List (List Char)} (hargv : argv = texts.map Utf.encode) (hne : argv ≠ [])
    (hnul : ∀ text ∈ texts, '\x00' ∉ text)
    (hread : store.read configurationsMap scriptArgvFile = some (popComma (terminate ',' argv))) :
    processArgv v8 store = some (texts.map Utf.units) ↔
      (∀ text ∈ texts, ',' ∉ text) ∧ texts.getLast? ≠ some [] := by
  have htexts : texts ≠ [] := by
    rintro rfl
    exact hne hargv
  have hnul' : ∀ piece ∈ pieces ',' (terminate ',' texts).dropLast, '\x00' ∉ piece := by
    intro piece hpiece hmem
    have hmem := List.dropLast_subset _ ((infix_of_mem_pieces hpiece).subset hmem)
    obtain ⟨text, htext, hmem⟩ := mem_terminate.mp hmem
    exact hmem.elim (hnul text htext) (by decide)
  have hpieces : processArgv v8 store
      = some ((pieces ',' (terminate ',' texts).dropLast).map Utf.units) := by
    rw [processArgv, hread, popComma_terminate hne, hargv, ← encode_dropLast_terminate htexts,
      Option.map_some, pieces_encode, List.map_map]
    exact congrArg some (List.map_congr_left fun piece hpiece ↦
      stringToV8String_encode (hnul' piece hpiece))
  have hinjective : Function.Injective Utf.units := Function.LeftInverse.injective Utf.toText_units
  rw [hpieces, Option.some_inj, (List.map_injective_iff.mpr hinjective).eq_iff,
    pieces_dropLast_terminate_eq_iff]

/-! ## The whole program -/

section Program

variable {e : CommandLineEnvironment} {containers : ℕ → MapContainer} {arguments : List Str}
  {s : ArgvState} {store : Store}

/-- The library is attached under one name. -/
def libraryOwner (_ : ℕ) : Str := "typescript_library".toList

/-- Making the stores leaves the configurations as they are. -/
theorem read_marshalResources (hs : store.Separate libraryOwner)
    (hexists : store.mapExists configurationsMap = true) :
    (marshalResources.foldl Store.step store).Separate libraryOwner ∧
      ∀ fileName, (marshalResources.foldl Store.step store).read configurationsMap fileName
        = store.read configurationsMap fileName := by
  have hops : ∀ op ∈ marshalResources, op.AttachesOwned libraryOwner ∧
      (op = .create configurationsMap ∨ configurationsMap ≠ op.mapName) := by
    intro op hop
    simp only [marshalResources, List.mem_cons, List.not_mem_nil, or_false] at hop
    rcases hop with rfl | rfl | rfl | rfl | rfl
    · exact ⟨trivial, .inl rfl⟩
    · exact ⟨trivial, .inr (by decide)⟩
    · exact ⟨trivial, .inr (by decide)⟩
    · exact ⟨trivial, .inr (by decide)⟩
    · exact ⟨rfl, .inr (by decide)⟩
  suffices h : (marshalResources.foldl Store.step store).Separate libraryOwner ∧
      (marshalResources.foldl Store.step store).mapExists configurationsMap = true ∧
      ∀ fileName, (marshalResources.foldl Store.step store).read configurationsMap fileName
        = store.read configurationsMap fileName from ⟨h.1, h.2.2⟩
  refine Simulation.invariant_foldl
    (I := fun u : Store ↦ u.Separate libraryOwner ∧ u.mapExists configurationsMap = true ∧
      ∀ fileName, u.read configurationsMap fileName = store.read configurationsMap fileName)
    (fun u op hu hop ↦ ?_) ⟨hs, hexists, fun _ ↦ rfl⟩ hops
  obtain ⟨hseparate, hexists', hread⟩ := hu
  refine ⟨hseparate.step hop.1, ?_⟩
  rcases hop.2 with rfl | hne
  · rw [Store.step, Store.create_of_mapExists hexists']
    exact ⟨hexists', hread⟩
  · have hothers := Store.leavesOthers_step hseparate op
    exact ⟨(hothers.mapExists _ hne).trans hexists',
      fun fileName ↦ (hothers.read _ hne fileName).trans (hread fileName)⟩

/-- What the threads find in the store. -/
theorem read_startUp (h : startUp e containers arguments = .ok (s, store)) :
    store.Separate libraryOwner ∧
      ∃ store', setArgv e (.start containers) arguments = .ok (s, store') ∧
        ∀ fileName, store.read configurationsMap fileName
          = store'.read configurationsMap fileName := by
  obtain ⟨⟨s', store'⟩, hset, h⟩ := bind_eq_ok h
  obtain ⟨rfl, rfl⟩ := Prod.mk.inj (Except.ok.inj h)
  obtain ⟨t, -, hstored⟩ := bind_eq_ok hset
  obtain ⟨-, rfl⟩ := Prod.mk.inj (Except.ok.inj hstored)
  have hstart : (Store.start containers).Separate libraryOwner := Store.separate_start
  have hwritten := (hstart.write configurationsMap typescriptFile
    (.pointer (typescriptConfigurationString t.typescriptConfigurations))).write
      configurationsMap scriptArgvFile (.pointer (popComma t.scriptArgvs))
  obtain ⟨hseparate, hread⟩ := read_marshalResources hwritten (Store.mapExists_write ..)
  exact ⟨hseparate, _, hset, hread⟩

/-- The arguments that `set_argv` stores. -/
theorem read_setArgv_argv {r : Reading} {store store' : Store} (hr : r.Of e arguments)
    (hset : setArgv e store arguments = .ok (s, store')) :
    store'.read configurationsMap scriptArgvFile
      = some (popComma (terminate ',' (r.argv e))) := by
  obtain ⟨t, hread, hleaves⟩ := hr.readArguments
  rw [setArgv_eq hread store, Except.ok.injEq, Prod.mk.injEq] at hset
  rw [← hset.2, Store.read_write, ContentVariant.content]
  exact congrArg some hleaves.scriptArgvs

/-- What a script reads of the command line, in a store: the options and the arguments, as far as
they can be written, when they are texts. -/
structure SeesCommandLine (v8 : Transcoding) (e : CommandLineEnvironment) (r : Reading)
    (store : Store) : Prop where
  options : ∀ project : List Char, projectValue r.items = Utf.encode project → '\x00' ∉ project →
    ((∃ ms, workerConfiguration v8 store = some (.object ms) ∧
        ∀ key, Json.member key ms = (textMembers r.items project).lookup key) ↔
      Representable project)
  argv : ∀ texts : List (List Char), r.argv e = texts.map Utf.encode →
    (∀ text ∈ texts, '\x00' ∉ text) →
    (processArgv v8 store = some (texts.map Utf.units) ↔
      (∀ text ∈ texts, ',' ∉ text) ∧ texts.getLast? ≠ some [])

theorem seesCommandLine_of_read {r : Reading} {store' : Store} (hr : r.Of e arguments)
    (hset : setArgv e (.start containers) arguments = .ok (s, store'))
    (hread : ∀ fileName,
      store.read configurationsMap fileName = store'.read configurationsMap fileName)
    (v8 : Transcoding) : SeesCommandLine v8 e r store where
  options project hproject hnul :=
    workerConfiguration_iff hproject hnul e.perm_names
      ((hread _).trans (read_setArgv hr hset))
  argv texts htexts hnul := by
    refine processArgv_iff htexts (List.cons_ne_nil _ _) hnul ?_
    exact (hread _).trans (read_setArgv_argv hr hset)

/-- **The command line reaches the scripts.** In every run of the two threads that `slim::start`
launches, unless the script writes to the configurations itself, the compiler's script sees the
options and every script sees the arguments, as far as the two texts can hold them. -/
theorem commandLine_of_run {Memory : Type} {compiler : Compiler Memory} {memory : Memory}
    (hstart : startUp e containers arguments = .ok (s, store)) {actions : List PipelineAction}
    (hactions : ∀ a ∈ actions, ¬a.WritesTo configurationsMap) {p : Pipeline Memory}
    (hrun : Transition.runFrom (Pipeline.step compiler) (.start memory store) actions = some p)
    (v8 : Transcoding) :
    ∃ r : Reading, r.Of e arguments ∧ SeesCommandLine v8 e r p.store := by
  obtain ⟨hseparate, store', hset, hread⟩ := read_startUp hstart
  have hkept := Pipeline.read_of_run hseparate (by decide) (by decide) hactions hrun
  obtain ⟨t, ht, -⟩ := bind_eq_ok hset
  rcases reads_or_fails e arguments with ⟨r, hr⟩ | hdangling | hempty
  · exact ⟨r, hr, seesCommandLine_of_read hr hset
      (fun fileName ↦ (hkept fileName).trans (hread fileName)) v8⟩
  · exact absurd (ht.symm.trans hdangling.readArguments) (by simp)
  · exact absurd (ht.symm.trans hempty.readArguments) (by simp)

/-- A project, and then the entry script is imported. -/
theorem commandLine_of_run_entryRun :
    ∃ s store p, startUp homeEnvironment (fun _ ↦ ∅) (words projectItems) = .ok (s, store) ∧
      Transition.runFrom (Pipeline.step Pipeline.copyingCompiler) (.start () store)
        Pipeline.entryRun = some p ∧
      ∃ r : Reading, r.Of homeEnvironment (words projectItems) ∧
        SeesCommandLine asciiTranscoding homeEnvironment r p.store := by
  have hactions : ∀ a ∈ Pipeline.entryRun, ¬a.WritesTo configurationsMap := by
    simp [Pipeline.entryRun, PipelineAction.WritesTo]
  exact ⟨_, _, _, rfl, rfl, @commandLine_of_run homeEnvironment (fun _ ↦ ∅) (words projectItems) _ _
    Unit Pipeline.copyingCompiler () rfl Pipeline.entryRun hactions _ rfl asciiTranscoding⟩

end Program

end SlimTS
