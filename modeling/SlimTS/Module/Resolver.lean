import SlimTS.Library.Transition
import SlimTS.Module.ImportSpecifier

/-!
# The module resolver

`slim::module::resolver`: the two caches, the callback V8 calls for each import request, and the
resolution of an entry script. The callback goes through the import specifier's constructor and
`instantiate_module` back to V8, which calls it again for the requests of the new module; the depth
of this recursion is bounded by an argument, and running out of it is a fault of its own.

Between two calls of V8 the resolver does one of a few things to its caches, whatever the depth it
is at. `ResolverAction` lists them, and everything the recursion does is a run of such actions; so
what is said of every run of actions is said of every state the recursion passes through, in
whatever order V8 asks for modules.
-/

namespace SlimTS

/-- `plugins_set`. -/
def pluginsSet : List Str :=
  ["console".toList, "fs".toList, "kafka".toList, "os".toList, "path".toList, "process".toList,
    "memoryAdaptor".toList, "queue".toList]

/-- `plugins_set.contains`. -/
instance (specifierName : Str) : Decidable (specifierName ∈ pluginsSet) :=
  List.instDecidableMemOfLawfulBEq specifierName pluginsSet

/-- The globals of `resolver` and what its actions touch besides them. -/
structure ResolverState where
  /-- `by_specifier_cache`. -/
  bySpecifierCache : AList fun _ : Str ↦ ModuleSpecifier
  /-- `by_hash_id_cache`. -/
  byHashIdCache : AList fun _ : ℤ ↦ ModuleSpecifier
  /-- The in-memory store. -/
  store : Store
  /-- How many modules V8 has made. -/
  modules : ℕ
  /-- The log. -/
  history : List ImportEvent

/-- `catch(...)` catches the exceptions of C++; the other faults end the program. -/
def Fault.Caught : Fault → Prop
  | .filesystemError | .slimFileException _ | .v8Exception => True
  | .nullPointer | .callDepth => False

instance : DecidablePred Fault.Caught
  | .filesystemError | .slimFileException _ | .v8Exception => isTrue trivial
  | .nullPointer | .callDepth => isFalse id

namespace ResolverState

/-- The state at program start. -/
def start (store : Store) : ResolverState where
  bySpecifierCache := ∅
  byHashIdCache := ∅
  store := store
  modules := 0
  history := []

variable (identityHash : ModuleId → ℤ) (env : Environment) (s : ResolverState)

/-- `cache_import_specifier`. -/
def cacheImportSpecifier (specifier : ModuleSpecifier) : ResolverState :=
  { s with
    bySpecifierCache := s.bySpecifierCache.insert specifier.specifierString specifier
    byHashIdCache := s.byHashIdCache.insert (identityHash specifier.v8Module) specifier }

/-- `get_import_specifier_by_hash_id`: the default specifier when there is none. -/
def getImportSpecifierByHashId (hashId : ℤ) : ImportSpecifier :=
  match s.byHashIdCache.lookup hashId with
  | some specifier => specifier.toImportSpecifier
  | none => {}

/-! ## The two branches of the callback -/

/-- The loop that forgets a plugin imported before: the first entry of the hash table with its name
goes, and with it the entry of the other cache. -/
def forgetPlugin (specifierName : Str) : ResolverState :=
  if specifierName ∈ s.bySpecifierCache then
    match s.byHashIdCache.entries.find? fun entry ↦ entry.2.specifierString = specifierName with
    | none => s
    | some entry =>
      { s with
        byHashIdCache := s.byHashIdCache.erase entry.1
        bySpecifierCache := s.bySpecifierCache.erase specifierName }
  else s

/-- The specifier of a plugin's synthetic module. -/
def pluginSpecifier (specifierName : Str) (module : ModuleId) : ModuleSpecifier :=
  { specifierString := specifierName, v8Module := module, hasModule := false }

/-- The plugin branch, up to the hash of the module. -/
def importPlugin (specifierName : Str) : ResolverState × Except Fault ℤ :=
  let s := s.forgetPlugin specifierName
  if env.loadPlugin specifierName then
    ({ s.cacheImportSpecifier identityHash (pluginSpecifier specifierName s.modules) with
        modules := s.modules + 1
        history := s.history ++ [.synthetic specifierName s.modules] },
      .ok (identityHash s.modules))
  -- The entry of an earlier import is gone all the same.
  else (s, .error .v8Exception)

/-- What the file branch and the resolution of an entry script have in common: the specifier is
constructed, compiled and cached. The result is the specifier with the module's requests. -/
def importFile (script : VariantSpecifier) (isEntryPoint : Bool) (referrerPath : Option Str) :
    ResolverState × Except Fault (ModuleSpecifier × List Str) :=
  match env.construct s.store script isEntryPoint referrerPath with
  | .error fault => (s, .error fault)
  | .ok constructed =>
    let s := { s with store := constructed.store, history := s.history ++ constructed.events }
    match env.compileModule s.modules constructed.specifier with
    | .error fault => (s, .error fault)
    | .ok (specifier, requests) =>
      ({ s.cacheImportSpecifier identityHash specifier with
          modules := s.modules + 1
          history := s.history ++
            [.compiled specifier.specifierPath specifier.v8Module specifier.specifierSourceCode] },
        .ok (specifier, requests))

/-- The path a specifier is resolved against: what the hash cache has for the referrer. -/
def referrerPath (referrer : ModuleId) : Str :=
  (s.getImportSpecifierByHashId (identityHash referrer)).specifierPath

/-- The end of the callback: the module cached under the hash, which is `-1` after an exception. -/
def answer : Except Fault ℤ → Except Fault ModuleId
  | .ok hashId => lookup hashId
  | .error fault => if fault.Caught then lookup (-1) else .error fault
where
  lookup (hashId : ℤ) : Except Fault ModuleId :=
    match s.byHashIdCache.lookup hashId with
    | some specifier => .ok specifier.v8Module
    | none => .error .v8Exception

end ResolverState

/-! ## The recursion -/

section Recursion

variable (identityHash : ModuleId → ℤ) (env : Environment)

/-- V8 calls the callback for each request of a module, in order, up to the first that fails. -/
def answerRequests
    (callback : ModuleId → Str → ResolverState → ResolverState × Except Fault ModuleId)
    (referrer : ModuleId) : List Str → ResolverState → ResolverState × Except Fault Unit
  | [], s => (s, .ok ())
  | request :: requests, s =>
    match callback referrer request s with
    | (s, .error fault) => (s, .error fault)
    | (s, .ok module) =>
      answerRequests callback referrer requests
        { s with history := s.history ++ [.answered referrer request module] }

/-- `instantiate_module`. -/
def instantiateModule
    (callback : ModuleId → Str → ResolverState → ResolverState × Except Fault ModuleId)
    (module : ModuleId) (requests : List Str) (s : ResolverState) :
    ResolverState × Except Fault Unit :=
  match answerRequests callback module requests s with
  | (s, .error fault) => (s, .error fault)
  | (s, .ok ()) => if env.links module then (s, .ok ()) else (s, .error .v8Exception)

/-- `module_call_back_resolver`, with as many nested calls as `depth` allows. -/
def moduleCallBackResolver : ℕ → ModuleId → Str → ResolverState →
    ResolverState × Except Fault ModuleId
  | 0, _, _, s => (s, .error .callDepth)
  | depth + 1, referrer, specifierName, s =>
    if specifierName ∈ pluginsSet then
      match s.importPlugin identityHash env specifierName with
      | (s, result) => (s, s.answer result)
    else
      -- A file is constructed again for each import; no cache is asked.
      match s.importFile identityHash env (.name specifierName) false
          (some (s.referrerPath identityHash referrer)) with
      | (s, .error fault) => (s, s.answer (.error fault))
      | (s, .ok (specifier, requests)) =>
        match instantiateModule env (moduleCallBackResolver depth) specifier.v8Module requests
            s with
        | (s, .error fault) => (s, s.answer (.error fault))
        | (s, .ok ()) => (s, s.answer (.ok (identityHash specifier.v8Module)))

/-- `resolve_imports`. -/
def resolveImports (depth : ℕ) (script : VariantSpecifier) (isEntryPoint : Bool)
    (s : ResolverState) : ResolverState × Except Fault (Option ModuleSpecifier) :=
  match s.importFile identityHash env script isEntryPoint none with
  | (s, .error fault) => (s, .error fault)
  | (s, .ok (specifier, requests)) =>
    match instantiateModule env (moduleCallBackResolver identityHash env depth) specifier.v8Module
        requests s with
    | (s, .error fault) => (s, .error fault)
    | (s, .ok ()) => (s, .ok (s.bySpecifierCache.lookup specifier.specifierString))

end Recursion

/-! ## The actions -/

/-- What the resolver does between two calls of V8. Each import may find another environment. -/
inductive ResolverAction
  /-- A plugin is imported. -/
  | plugin (env : Environment) (specifierName : Str)
  /-- A module imports a file. -/
  | file (env : Environment) (referrer : ModuleId) (specifierName : Str)
  /-- An entry script is resolved. -/
  | entry (env : Environment) (script : VariantSpecifier) (isEntryPoint : Bool)
  /-- A request is answered. -/
  | answered (referrer : ModuleId) (specifierName : Str) (module : ModuleId)

/-- An import from within a module, as the callback makes them. -/
def ResolverAction.Nested : ResolverAction → Prop
  | .entry _ _ _ => False
  | _ => True

namespace ResolverState

variable (identityHash : ModuleId → ℤ)

/-- One action. The callback tells plugins from files by their names. -/
def step (s : ResolverState) : ResolverAction → Option ResolverState
  | .plugin env specifierName =>
    if specifierName ∈ pluginsSet then some (s.importPlugin identityHash env specifierName).1
    else none
  | .file env referrer specifierName =>
    if specifierName ∈ pluginsSet then none
    else some (s.importFile identityHash env (.name specifierName) false
      (some (s.referrerPath identityHash referrer))).1
  | .entry env script isEntryPoint =>
    some (s.importFile identityHash env script isEntryPoint none).1
  | .answered referrer specifierName module =>
    some { s with history := s.history ++ [.answered referrer specifierName module] }

end ResolverState

section Reaches

variable {identityHash : ModuleId → ℤ} {env : Environment}

open Transition ResolverState

private theorem answerRequests_reaches
    {callback : ModuleId → Str → ResolverState → ResolverState × Except Fault ModuleId}
    (hcallback : ∀ referrer request s,
      Reaches (step identityHash) ResolverAction.Nested s (callback referrer request s).1)
    (referrer : ModuleId) (requests : List Str) (s : ResolverState) :
    Reaches (step identityHash) ResolverAction.Nested s
      (answerRequests callback referrer requests s).1 := by
  induction requests generalizing s with
  | nil => exact Reaches.refl s
  | cons request requests ih =>
    have hfirst := hcallback referrer request s
    rw [answerRequests]
    split
    · next s' fault heq =>
      rw [heq] at hfirst
      exact hfirst
    · next s' module heq =>
      rw [heq] at hfirst
      exact (hfirst.trans (Reaches.of_step (a := .answered referrer request module) trivial
        rfl)).trans (ih _)

theorem instantiateModule_reaches (env : Environment)
    {callback : ModuleId → Str → ResolverState → ResolverState × Except Fault ModuleId}
    (hcallback : ∀ referrer request s,
      Reaches (step identityHash) ResolverAction.Nested s (callback referrer request s).1)
    (module : ModuleId) (requests : List Str) (s : ResolverState) :
    Reaches (step identityHash) ResolverAction.Nested s
      (instantiateModule env callback module requests s).1 := by
  have hrequests := answerRequests_reaches hcallback module requests s
  rw [instantiateModule]
  split
  · next s' fault heq => rwa [heq] at hrequests
  · next s' heq =>
    rw [heq] at hrequests
    split <;> exact hrequests

/-- The callback, at whatever depth, does nothing but the actions of imports. -/
theorem moduleCallBackResolver_reaches (depth : ℕ) (referrer : ModuleId) (specifierName : Str)
    (s : ResolverState) :
    Reaches (step identityHash) ResolverAction.Nested s
      (moduleCallBackResolver identityHash env depth referrer specifierName s).1 := by
  induction depth generalizing referrer specifierName s with
  | zero => exact Reaches.refl s
  | succ depth ih =>
    rw [moduleCallBackResolver]
    split
    · next hplugin =>
      exact Reaches.of_step (a := .plugin env specifierName) trivial (by rw [step, if_pos hplugin])
    · next hfile =>
      have hbegin : Reaches (step identityHash) ResolverAction.Nested s
          (s.importFile identityHash env (.name specifierName) false
            (some (s.referrerPath identityHash referrer))).1 :=
        Reaches.of_step (a := .file env referrer specifierName) trivial (by rw [step, if_neg hfile])
      split
      · next s' fault heq => rwa [heq] at hbegin
      · next s' specifier requests heq =>
        rw [heq] at hbegin
        have hrest := instantiateModule_reaches env (fun r n s ↦ ih r n s)
          specifier.v8Module requests s'
        split
        · next s'' fault heq' =>
          rw [heq'] at hrest
          exact hbegin.trans hrest
        · next s'' heq' =>
          rw [heq'] at hrest
          exact hbegin.trans hrest

end Reaches

end SlimTS
