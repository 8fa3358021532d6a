import SlimTS.Library.Unfolding
import SlimTS.Module.CacheConsistency

/-!
# Source trees

A source tree is a finite set of files on an environment's disk that import each other, and plugins,
by whatever graph: each of its files compiles, and each of its import requests leads to one of its
files or names a plugin that loads. What the graph may look like is left open; a file may import
itself.

The import of a file of a source tree goes through. `Imported` is what it leaves in the state, and
`Cached` what the file's module can count on from then on, whatever is imported after it.
-/

namespace SlimTS

/-- The url under which the source of a file is stored. -/
def fileUrl (path : Str) : Str := "file://".toList ++ path

/-- A specifier is resolved to a file. -/
def LeadsTo (env : Environment) (referrerPath : Option Str) (specifierString path : Str) : Prop :=
  ∃ resolution, env.resolveModulePath referrerPath specifierString = .ok resolution ∧
    resolution.moduleFileFound = true ∧ resolution.specifierPath = path

instance (env : Environment) (referrerPath : Option Str) (specifierString path : Str) :
    Decidable (LeadsTo env referrerPath specifierString path) :=
  match h : env.resolveModulePath referrerPath specifierString with
  | .error _ => isFalse fun ⟨_, hok, _⟩ ↦ by simp [h] at hok
  | .ok resolution =>
    decidable_of_iff (resolution.moduleFileFound = true ∧ resolution.specifierPath = path)
      ⟨fun hfound ↦ ⟨resolution, h, hfound⟩, fun ⟨resolution', hok, hfound⟩ ↦
        Except.ok.inj (h.symm.trans hok) ▸ hfound⟩

/-- The file can be read, the worker hands back code for it, and V8 compiles the code, which has
these import requests. -/
def Compiles (env : Environment) (path : Str) (requests : List Str) : Prop :=
  ∃ text, env.fetchSource path = .ok text ∧ ∀ store : Store,
    let submitted := env.submit
      (store.write "source_code_storage".toList (fileUrl path) (.pointer text))
      (env.transpileJob (fileUrl path))
    ∃ code, takeTranspiled submitted.1 submitted.2 = .ok (.code code) ∧
      env.moduleRequests code = some requests

/-- Source files that import each other. -/
structure SourceTree (env : Environment) where
  /-- The paths of the files. -/
  files : Finset Str
  /-- The import requests of a file. -/
  requests : Str → List Str
  /-- The file a request of another leads to. -/
  target : Str → Str → Str
  /-- Every file compiles. -/
  compiles : ∀ path ∈ files, Compiles env path (requests path)
  /-- A request that does not name a plugin leads to its target, one of the files. -/
  leadsTo : ∀ path ∈ files, ∀ request ∈ requests path, request ∉ pluginsSet →
    target path request ∈ files ∧ LeadsTo env (some path) request (target path request)
  /-- The plugins load. -/
  loadsPlugin : ∀ path ∈ files, ∀ request ∈ requests path, request ∈ pluginsSet →
    env.loadPlugin request = true
  /-- Modules find the names they import. -/
  links : ∀ module, env.links module = true

namespace SourceTree

variable {env : Environment} (tree : SourceTree env)

/-- The file a request leads to, if it does not name a plugin. -/
def targets (path request : Str) : List Str :=
  if request ∈ pluginsSet then [] else [tree.target path request]

/-- The files a file imports, one for each of its requests. -/
def imports (path : Str) : List Str := (tree.requests path).flatMap (tree.targets path)

variable {tree}

theorem mem_files_of_imports {path child : Str} (hpath : path ∈ tree.files)
    (hchild : child ∈ tree.imports path) : child ∈ tree.files := by
  obtain ⟨request, hrequest, htarget⟩ := List.mem_flatMap.mp hchild
  rw [targets] at htarget
  split at htarget
  · cases htarget
  · next hfile =>
    rw [List.mem_singleton] at htarget
    exact htarget ▸ (tree.leadsTo path hpath request hrequest hfile).1

/-- Imports do not leave the tree. -/
theorem mem_files_of_reaches {path child : Str} (hpath : path ∈ tree.files)
    (h : Relation.ReflTransGen (Unfolding.Child tree.imports) path child) :
    child ∈ tree.files := by
  induction h with
  | refl => exact hpath
  | tail _ hchild ih => exact mem_files_of_imports ih hchild

end SourceTree

/-! ## Importing a file -/

section ImportFile

variable {env : Environment} {identityHash : ModuleId → ℤ} {s s' : ResolverState}
  {path : Str} {requests : List Str} {spec : ModuleSpecifier}

open Transition ResolverState

theorem LeadsTo.dot_mem {referrerPath : Option Str} {specifierString : Str}
    (h : LeadsTo env referrerPath specifierString path) : '.' ∈ path := by
  obtain ⟨resolution, hresolve, hfile, rfl⟩ := h
  exact (env.resolveModulePath_found hresolve hfile).2.2

/-- A file's path is no plugin's name. -/
theorem LeadsTo.not_plugin {referrerPath : Option Str} {specifierString : Str}
    (h : LeadsTo env referrerPath specifierString path) : path ∉ pluginsSet := by
  have hplugins : ∀ name ∈ pluginsSet, '.' ∉ name := by decide
  exact fun hplugin ↦ hplugins path hplugin h.dot_mem

/-- The constructor goes through for a file that compiles. -/
theorem construct_of_leadsTo {referrerPath : Option Str} {specifierString : Str}
    (hlead : LeadsTo env referrerPath specifierString path) (hcompiles : Compiles env path requests)
    (store : Store) (isEntryPoint : Bool) :
    ∃ constructed code,
      env.construct store (.name specifierString) isEntryPoint referrerPath = .ok constructed ∧
      constructed.specifier.specifierString = path ∧
      constructed.specifier.specifierPath = path ∧
      constructed.specifier.specifierSourceCode = some code ∧
      env.moduleRequests code = some requests ∧
      constructed.events = [.fetched path, .transpiled (fileUrl path)] := by
  obtain ⟨resolution, hresolve, hfile, rfl⟩ := hlead
  obtain ⟨text, hfetch, hcode⟩ := hcompiles
  obtain ⟨code, htake, hrequests⟩ := hcode store
  obtain ⟨hstring, hurl, -⟩ := env.resolveModulePath_found hresolve hfile
  have hurl' : resolution.specifierStringUrl = fileUrl resolution.specifierPath := hurl
  rw [Environment.construct, hresolve]
  simp only [bind, Except.bind, pure, Except.pure, hstring, hurl', hfetch, htake]
  exact ⟨_, code, rfl, rfl, rfl, rfl, hrequests, rfl⟩

/-- What importing the file at a path does: its module is cached under both keys, and the log says
how it was made. -/
structure Imported (s s' : ResolverState) (path : Str)
    (spec : ModuleSpecifier) : Prop where
  specifierString : spec.specifierString = path
  specifierPath : spec.specifierPath = path
  v8Module : spec.v8Module = s.modules
  bySpecifierCache : s'.bySpecifierCache = s.bySpecifierCache.insert path spec
  history : s'.history = s.history ++
    [.fetched path, .transpiled (fileUrl path),
      .compiled path spec.v8Module spec.specifierSourceCode]

/-- The module of a file, cached. -/
structure Cached (identityHash : ModuleId → ℤ) (s : ResolverState) (spec : ModuleSpecifier) :
    Prop where
  inv : CacheInv identityHash s
  lookup : s.byHashIdCache.lookup (identityHash spec.v8Module) = some spec
  isFile : spec.hasModule = true

theorem Cached.referrerPath (h : Cached identityHash s spec) :
    s.referrerPath identityHash spec.v8Module = spec.specifierPath := by
  rw [ResolverState.referrerPath, getImportSpecifierByHashId, h.lookup]

theorem Cached.answer (h : Cached identityHash s spec) :
    s.answer (.ok (identityHash spec.v8Module)) = .ok spec.v8Module := by
  rw [ResolverState.answer, answer.lookup, h.lookup]

/-- The imports made after it leave a module of a file cached. -/
theorem Cached.of_reaches (hinj : Function.Injective identityHash) (h : Cached identityHash s spec)
    (hreach : Reaches (ResolverState.step identityHash) ResolverAction.Nested s s') :
    Cached identityHash s' spec := by
  have hfiles := hreach.mono fun _ ha ↦ ha.entryIsFile
  exact ⟨hfiles.invariant (CacheInv.step hinj) h.inv,
    h.inv.file_entry_reaches hinj hfiles h.lookup h.isFile, h.isFile⟩

/-- **Importing a file that compiles.** -/
theorem importFile_of_leadsTo (hinj : Function.Injective identityHash)
    (inv : CacheInv identityHash s) {referrerPath : Option Str} {specifierString : Str}
    (hlead : LeadsTo env referrerPath specifierString path) (hcompiles : Compiles env path requests)
    (isEntryPoint : Bool) :
    ∃ s' spec, s.importFile identityHash env (.name specifierString) isEntryPoint referrerPath =
        (s', .ok (spec, requests)) ∧
      Imported s s' path spec ∧ Cached identityHash s' spec := by
  obtain ⟨constructed, code, hconstruct, hstring, hpath, hcode, hrequests, hevents⟩ :=
    construct_of_leadsTo hlead hcompiles s.store isEntryPoint
  have hcompile : env.compileModule s.modules constructed.specifier =
      .ok (⟨constructed.specifier, s.modules, true⟩, requests) := by
    rw [Environment.compileModule, hcode]
    simp only [dereference, bind, Except.bind, hrequests]
  have heq : s.importFile identityHash env (.name specifierString) isEntryPoint referrerPath = _ :=
    importFile_of_ok hconstruct hcompile
  -- The cache answers no name of a file with a plugin.
  have hinv := inv.importFile hinj fun constructed' h ↦ by
    rw [hconstruct] at h
    cases h
    exact hstring ▸ hlead.not_plugin
  rw [heq] at hinv
  refine ⟨_, _, heq, ⟨hstring, hpath, rfl, by simp only [cacheImportSpecifier, hstring], ?_⟩,
    hinv, AList.lookup_insert _, rfl⟩
  simp only [hevents, hpath, List.append_assoc, List.cons_append, List.nil_append]

/-! ## Importing a plugin -/

@[simp] theorem forgetPlugin_history (s : ResolverState) (name : Str) :
    (s.forgetPlugin name).history = s.history := by
  rw [forgetPlugin]
  split
  · split <;> rfl
  · rfl

theorem forgetPlugin_lookup_ne {name other : Str} (h : other ≠ name) :
    (s.forgetPlugin name).bySpecifierCache.lookup other = s.bySpecifierCache.lookup other := by
  rw [forgetPlugin]
  split
  · split
    · rfl
    · exact AList.lookup_erase_ne h
  · rfl

variable (identityHash s) in
/-- The import of a plugin that loads is answered with its new module. -/
theorem importPlugin_of_loads {name : Str} (hload : env.loadPlugin name = true) :
    ∃ s', s.importPlugin identityHash env name = (s', .ok (identityHash s.modules)) ∧
      s'.answer (.ok (identityHash s.modules)) = .ok s.modules ∧
      s'.modules = s.modules + 1 ∧
      s'.history = s.history ++ [.synthetic name s.modules] ∧
      ∀ other, other ≠ name →
        s'.bySpecifierCache.lookup other = s.bySpecifierCache.lookup other := by
  have heq : s.importPlugin identityHash env name =
      ({ (s.forgetPlugin name).cacheImportSpecifier identityHash
          (pluginSpecifier name s.modules) with
          modules := s.modules + 1
          history := s.history ++ [.synthetic name s.modules] },
        .ok (identityHash s.modules)) := by
    rw [importPlugin]
    simp only [hload, if_true, forgetPlugin_modules, forgetPlugin_history]
  refine ⟨_, heq, ?_, rfl, rfl, fun other hne ↦ ?_⟩
  · rw [ResolverState.answer, answer.lookup]
    simp only [cacheImportSpecifier, pluginSpecifier, AList.lookup_insert]
  · exact (AList.lookup_insert_ne hne).trans (forgetPlugin_lookup_ne hne)

end ImportFile

/-! ## Source trees on a plain machine -/

/-- A plain machine whose files contain their own paths, and import what they are said to. -/
def Environment.ofRequests (requests : Str → Option (List Str)) : Environment :=
  .plain "/".toList (fun path ↦ (requests path).map fun _ ↦ path) fun text ↦ (requests text).getD []

theorem compiles_ofRequests {requests : Str → Option (List Str)} {path : Str} {names : List Str}
    (hfile : requests path = some names) (hpath : "file://".toList.isPrefixOf path = false) :
    Compiles (.ofRequests requests) path names := by
  have hread : (Environment.ofRequests requests).readFile path = some path := by
    show (requests path).map _ = some path
    rw [hfile, Option.map_some]
  refine ⟨path, ?_, fun store ↦ ⟨path, ?_, ?_⟩⟩
  · rw [Environment.fetchSource, Environment.fetchStream, hpath]
    simp only [Bool.false_eq_true, if_false, hread]
    rfl
  · -- The worker's output is the source it has read.
    refine (if_neg Bool.false_ne_true).trans ?_
    have hsource := store.read_write "source_code_storage".toList (fileUrl path) (.pointer path)
    have houtput : ∀ written : Store,
        (written.write "typescript_storage".toList (fileUrl path) (.pointer
          ((written.read "source_code_storage".toList (fileUrl path)).getD []))).read
            "typescript_storage".toList (fileUrl path) =
          some ((written.read "source_code_storage".toList (fileUrl path)).getD []) :=
      fun written ↦ written.read_write _ _ _
    exact congrArg (fun text ↦ (dereference text).map Transpiled.code)
      ((houtput _).trans (congrArg (fun text ↦ some (text.getD [])) hsource))
  · show some ((requests path).getD []) = some names
    rw [hfile, Option.getD_some]

/-- The path a request of a file is resolved to. -/
def Environment.resolvedPath (env : Environment) (path request : Str) : Str :=
  match env.resolveModulePath (some path) request with
  | .error _ => []
  | .ok resolution => resolution.specifierPath

/-- The source tree of the files of such a machine, where every request leads to one of them. -/
def SourceTree.ofRequests (requests : Str → Option (List Str)) (files : Finset Str)
    (hfiles : ∀ path ∈ files, (requests path).isSome = true ∧
      "file://".toList.isPrefixOf path = false)
    (hrequests : ∀ path ∈ files, ∀ request ∈ (requests path).getD [], request ∉ pluginsSet →
      (Environment.ofRequests requests).resolvedPath path request ∈ files ∧
      LeadsTo (.ofRequests requests) (some path) request
        ((Environment.ofRequests requests).resolvedPath path request)) :
    SourceTree (.ofRequests requests) where
  files := files
  requests path := (requests path).getD []
  target := (Environment.ofRequests requests).resolvedPath
  compiles path hpath := by
    obtain ⟨names, hnames⟩ := Option.isSome_iff_exists.mp (hfiles path hpath).1
    rw [hnames]
    exact compiles_ofRequests hnames (hfiles path hpath).2
  leadsTo := hrequests
  loadsPlugin _ _ _ _ _ := rfl
  links _ := rfl

end SlimTS
