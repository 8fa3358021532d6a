import SlimTS.Common.MemoryMapper
import SlimTS.Common.Path
import SlimTS.Queue.Job

/-!
# Import specifiers

`slim::module::import_specifier`: how a specifier found in an `import` statement becomes a path, how
the file under that path becomes source code, and how the source code becomes a module. The
constructor resolves the path, fetches the file, has it transpiled by the worker at the other end
of the queue, and picks the result up in the in-memory store.

What the program finds outside itself is an `Environment`: the file system and the working
directory, the worker, and what V8 says of a source text. A specifier is resolved against the path
of the module that imports it, which the caller looks up; an entry script has none.

The paths passed to `std::filesystem::exists` are recorded, for stating where a module is looked
for.
-/

namespace SlimTS

/-- A module object of V8, by the order of creation. -/
abbrev ModuleId := ℕ

/-- What stops the code. -/
inductive Fault
  /-- `std::filesystem::filesystem_error`: the empty path cannot be made absolute, or the status of
  a path cannot be told. -/
  | filesystemError
  /-- `SlimFileException`, with its path: the file cannot be opened. -/
  | slimFileException (path : Str)
  /-- The string thrown by the exception handler for an exception of V8. -/
  | v8Exception
  /-- A null pointer is dereferenced. -/
  | nullPointer
  /-- The recursion has used up the call depth it was given. -/
  | callDepth
deriving DecidableEq, Repr

/-- How the status of a path comes out. -/
inductive FileStatus
  | found
  | notFound
  /-- It cannot be told: a name is too long, links run in a circle, a directory may not be
  searched. -/
  | unknown
deriving DecidableEq, Repr

/-- What is outside the program. -/
structure Environment where
  /-- `std::filesystem::current_path`, of a working directory that is there. -/
  currentPath : Str
  /-- `std::filesystem::status`. -/
  fileStatus : Str → FileStatus
  /-- The contents of the files that can be opened for reading. -/
  readFile : Str → Option Str
  /-- Whether the hash set of a module's two names iterates over the `/index` name first. -/
  indexFirst : Str → Bool
  /-- `macros::apply`, of a source text and a path. -/
  applyMacros : Str → Str → Str
  /-- What the memory of a new job's ticket holds. -/
  freshTicket : ℤ
  /-- `queue::submit`: the store and the job as they are when the call returns. -/
  submit : Store → FreshJob → Store × Job
  /-- `plugin::loader::load_plugin` succeeds. -/
  loadPlugin : Str → Bool
  /-- The import requests of a source text, if it compiles. -/
  moduleRequests : Str → Option (List Str)
  /-- The module finds the names it imports in the modules its requests were answered with. -/
  links : ModuleId → Bool

/-- `variant_specifier`: the name of a script, or a file stored in a library (a
`specifier_definition`, whose file pointer may be null). -/
inductive VariantSpecifier
  | name (specifierString : Str)
  | definition (specifierStringUrl : Str) (specifierFile : Option Str)

/-- `import_specifier`, before it has a module. -/
structure ImportSpecifier where
  isEntryPoint : Bool := false
  specifierString : Str := []
  specifierStringUrl : Str := []
  specifierStringOriginal : Str := []
  specifierSourceCode : Option Str := none
  specifierOriginalSourceCode : Option Str := none
  specifierPath : Str := []
deriving DecidableEq, Repr

/-- `import_specifier` with a module. Only `compile_module` sets the flag. -/
structure ModuleSpecifier extends ImportSpecifier where
  v8Module : ModuleId
  hasModule : Bool
deriving DecidableEq, Repr

/-- What an import does, for stating properties. -/
inductive ImportEvent
  /-- `fetch_source` read the file. -/
  | fetched (fileName : Str)
  /-- The source under the url went through the transpiler's queue. -/
  | transpiled (specifierStringUrl : Str)
  /-- The constructor threw an exception to V8. -/
  | raised (errors : Str)
  /-- `CreateSyntheticModule` made the module of the plugin. -/
  | synthetic (specifierName : Str) (module : ModuleId)
  /-- `compile_module` made the module of the file, of this code. -/
  | compiled (path : Str) (module : ModuleId) (sourceCode : Option Str)
  /-- The request of the referrer was answered with the module. -/
  | answered (referrer : ModuleId) (specifierName : Str) (module : ModuleId)
deriving DecidableEq, Repr

/-! ## `resolve_module_path` -/

/-- `file_extensions`. -/
def fileExtensions : List Str := [".mjs".toList, ".ts".toList, ".js".toList]

/-- `search_paths`. -/
def searchPaths : List Str := ["".toList]

/-- A part of a search: the paths whose status it asks for, and what comes of it. -/
structure Probing (α : Type) where
  probed : List Str
  result : Except Fault α
deriving DecidableEq, Repr

namespace Probing

variable {α β : Type}

instance : Monad Probing where
  pure a := ⟨[], .ok a⟩
  bind x f :=
    match x.result with
    | .error fault => ⟨x.probed, .error fault⟩
    | .ok a => ⟨x.probed ++ (f a).probed, (f a).result⟩

/-- What asks for no status. -/
instance : MonadLift (Except Fault) Probing where
  monadLift result := ⟨[], result⟩

@[simp] theorem result_pure (a : α) : (pure a : Probing α).result = .ok a := rfl

@[simp] theorem probed_pure (a : α) : (pure a : Probing α).probed = [] := rfl

theorem bind_of_ok {x : Probing α} {a : α} (h : x.result = .ok a) (f : α → Probing β) :
    x >>= f = ⟨x.probed ++ (f a).probed, (f a).result⟩ := by
  simp only [Bind.bind, h]

theorem bind_of_error {x : Probing α} {fault : Fault} (h : x.result = .error fault)
    (f : α → Probing β) : x >>= f = ⟨x.probed, .error fault⟩ := by
  simp only [Bind.bind, h]

theorem lift_ok_bind (a : α) (f : α → Probing β) :
    (liftM (Except.ok a : Except Fault α) : Probing α) >>= f = f a := rfl

theorem result_bind (x : Probing α) (f : α → Probing β) :
    (x >>= f).result = x.result >>= fun a ↦ (f a).result := by
  cases h : x.result with
  | error fault => rw [bind_of_error h]; rfl
  | ok a => rw [bind_of_ok h]; rfl

/-- What comes of two parts comes of the first and then of the second. -/
theorem bind_eq_ok {x : Probing α} {f : α → Probing β} {b : β} (h : (x >>= f).result = .ok b) :
    ∃ a, x.result = .ok a ∧ (f a).result = .ok b ∧
      (x >>= f).probed = x.probed ++ (f a).probed := by
  rw [result_bind] at h
  obtain ⟨a, ha, hb⟩ := SlimTS.bind_eq_ok h
  exact ⟨a, ha, hb, by rw [bind_of_ok ha]⟩

theorem mem_probed_bind {x : Probing α} {f : α → Probing β} {p : Str}
    (h : p ∈ (x >>= f).probed) : p ∈ x.probed ∨ ∃ a, x.result = .ok a ∧ p ∈ (f a).probed := by
  cases hx : x.result with
  | error fault =>
    rw [bind_of_error hx] at h
    exact .inl h
  | ok a =>
    rw [bind_of_ok hx, List.mem_append] at h
    exact h.imp_right fun h ↦ ⟨a, rfl, h⟩

theorem mem_bind_probed {x : Probing α} {f : α → Probing β} {p : Str} (h : p ∈ x.probed) :
    p ∈ (x >>= f).probed := by
  cases hx : x.result with
  | error fault => rwa [bind_of_error hx]
  | ok a =>
    rw [bind_of_ok hx]
    exact List.mem_append_left _ h

end Probing

/-- What `resolve_module_path` leaves in the specifier. -/
structure Resolution where
  moduleFileFound : Bool
  specifierPath : Str
  specifierString : Str
  specifierStringUrl : Str
deriving DecidableEq, Repr

namespace Environment

variable (env : Environment)

/-- `std::filesystem::absolute`. -/
def absolute (path : Str) : Except Fault Str :=
  match Path.absolute env.currentPath path with
  | none => .error .filesystemError
  | some path => .ok path

variable {env} in
theorem absolute_eq_ok {path result : Str}
    (h : Path.absolute env.currentPath path = some result) : env.absolute path = .ok result := by
  rw [absolute, h]

/-- `possible_module_names`, in the order of iteration. -/
def possibleModuleNames (path : Str) : List Str :=
  if env.indexFirst path then [path ++ "/index".toList, path] else [path, path ++ "/index".toList]

/-- The file is there. -/
def fileExists (path : Str) : Bool := env.fileStatus path = .found

/-- `std::filesystem::exists`. It throws when the status cannot be told. -/
def probe (path : Str) : Probing Bool where
  probed := [path]
  result :=
    match env.fileStatus path with
    | .found => .ok true
    | .notFound => .ok false
    | .unknown => .error .filesystemError

/-- The loop over the names: the first one there is ends it. -/
def tryNames (fileExtension : Str) : List Str → Probing (Option Str)
  | [] => return none
  | name :: names => do
    if ← env.probe (name ++ fileExtension) then return some (name ++ fileExtension)
    else tryNames fileExtension names

/-- The loop over the extensions, which goes on after a find: a later one replaces it. -/
def tryExtensions (names : List Str) : List Str → Option Str → Probing (Option Str)
  | [], found => return found
  | fileExtension :: fileExtensions, found => do
    let here ← env.tryNames fileExtension names
    tryExtensions names fileExtensions (here <|> found)

/-- The search both branches make at a path. -/
def search (path : Str) : Probing (Option Str) := do
  if Path.hasExtension path then
    if ← env.probe path then return some path else return none
  else env.tryExtensions (env.possibleModuleNames path) fileExtensions none

/-- The branch for specifiers that begin neither with `./` nor with `/`: the loop over the search
paths, which only a file named with its extension ends. -/
def trySearchPaths (specifierString : Str) : List Str → Option Str → Probing (Option Str)
  | [], found => return found
  | searchPath :: searchPaths, found => do
    let path ← env.absolute (searchPath ++ specifierString)
    let here ← env.search path
    -- Only this ends the loop; what is found without an extension may be replaced later.
    if Path.hasExtension path && here.isSome then return here
    else trySearchPaths specifierString searchPaths (here <|> found)

/-- The path the other branch searches at. With a referrer, a specifier that begins with `/` leaves
the path empty. -/
def relativePath (referrerPath : Option Str) (specifierString : Str) : Except Fault Str :=
  match referrerPath with
  | none =>
    env.absolute
      (if ".".toList.isPrefixOf specifierString then specifierString.drop 2 else specifierString)
  | some referrerPath =>
    if "./".toList.isPrefixOf specifierString then
      env.absolute (Path.parentPath referrerPath ++ '/' :: specifierString.drop 2)
    else .ok []

/-- The end of `resolve_module_path`. When no file was found an exception is thrown to V8, which
the function's own `TryCatch` swallows: the specifier stays as it was. -/
def settle (specifierPath specifierString : Str) : Option Str → Resolution
  | some path => ⟨true, path, path, "file://".toList ++ path⟩
  | none => ⟨false, specifierPath, specifierString, []⟩

/-- `resolve_module_path`, with the paths it asks for. -/
def resolve (referrerPath : Option Str) (specifierString : Str) : Probing Resolution :=
  if !"./".toList.isPrefixOf specifierString && !"/".toList.isPrefixOf specifierString then do
    let found ← env.trySearchPaths specifierString searchPaths none
    return settle [] specifierString found
  else do
    let path ← env.relativePath referrerPath specifierString
    let found ← env.search path
    return settle path specifierString found

/-- `resolve_module_path`. -/
def resolveModulePath (referrerPath : Option Str) (specifierString : Str) :
    Except Fault Resolution :=
  (env.resolve referrerPath specifierString).result

/-! ## The constructor -/

/-- `fetch::stream`. -/
def fetchStream (fileName : Str) : Except Fault Str :=
  match env.readFile
    (if "file://".toList.isPrefixOf fileName then fileName.drop 7 else fileName) with
  | none => .error (.slimFileException fileName)
  | some text => .ok text

/-- `fetch_source`. -/
def fetchSource (specifierString : Str) : Except Fault Str := do
  let text ← env.fetchStream specifierString
  return env.applyMacros text specifierString

end Environment

/-- A pointer is dereferenced. -/
def dereference : Option Str → Except Fault Str
  | none => .error .nullPointer
  | some text => .ok text

/-- What the constructor makes of the job `submit` has returned. -/
inductive Transpiled
  /-- An exception with the text is thrown to V8. -/
  | raised (errors : Str)
  /-- The code is taken from the store. -/
  | code (code : Str)
deriving DecidableEq, Repr

/-- The constructor, after `submit`: the errors of the job one to a line, or the file the job names,
whose length is logged. -/
def takeTranspiled (store : Store) (job : Job) : Except Fault Transpiled :=
  if job.errored then .ok (.raised (job.errors.flatMap fun error ↦ error ++ "\n".toList))
  else
    (dereference (store.read job.egressJobFile.storageContainerHandle
      job.egressJobFile.fileNameString)).map .code

/-- A constructed specifier, and what the constructor did on the way. -/
structure Constructed where
  specifier : ImportSpecifier
  store : Store
  events : List ImportEvent

namespace Environment

variable (env : Environment)

/-- The job the constructor submits. -/
def transpileJob (specifierStringUrl : Str) : FreshJob :=
  .construct env.freshTicket "typescript".toList "source_code_storage".toList specifierStringUrl
    "typescript_storage".toList

/-- The constructor. -/
def construct (store : Store) (script : VariantSpecifier) (isEntryPoint : Bool)
    (referrerPath : Option Str) : Except Fault Constructed :=
  match script with
  | .definition url file => do
    let text ← dereference file
    return {
      specifier :=
        { isEntryPoint := isEntryPoint
          specifierString := url
          specifierStringUrl := url
          specifierSourceCode := some (env.applyMacros text url)
          specifierOriginalSourceCode := file }
      store := store
      events := [] }
  | .name specifierString => do
    let resolution ← env.resolveModulePath referrerPath specifierString
    -- A specifier that was not resolved is fetched as it stands.
    let text ← env.fetchSource resolution.specifierString
    let url := resolution.specifierStringUrl
    let submitted := env.submit
      (store.write "source_code_storage".toList url (.pointer text)) (env.transpileJob url)
    let transpiled ← takeTranspiled submitted.1 submitted.2
    return {
      specifier :=
        { isEntryPoint := isEntryPoint
          specifierString := resolution.specifierString
          specifierStringUrl := url
          specifierStringOriginal := specifierString
          specifierSourceCode := some (match transpiled with
            | .raised _ => text
            | .code code => code)
          specifierOriginalSourceCode := some text
          specifierPath := resolution.specifierPath }
      store := submitted.1
      events := [.fetched resolution.specifierString, .transpiled url] ++
        match transpiled with | .raised errors => [.raised errors] | .code _ => [] }

/-- `compile_module`: the specifier with its new module, and the module's import requests. -/
def compileModule (module : ModuleId) (specifier : ImportSpecifier) :
    Except Fault (ModuleSpecifier × List Str) := do
  let code ← dereference specifier.specifierSourceCode
  match env.moduleRequests code with
  | none => .error .v8Exception
  | some requests => .ok (⟨specifier, module, true⟩, requests)

/-! ## A plain machine

An environment on which the results about all environments can be watched. -/

/-- A machine with the given files, where macros do nothing and the worker hands every source back
as it is. -/
def plain (currentPath : Str) (files : Str → Option Str) (requests : Str → List Str) :
    Environment where
  currentPath := currentPath
  fileStatus p := if (files p).isSome then .found else .notFound
  readFile := files
  indexFirst _ := false
  applyMacros text _ := text
  freshTicket := 0
  submit store fresh :=
    let name := fresh.ingressJobFile.fileNameString
    let text := (store.read "source_code_storage".toList name).getD []
    (store.write "typescript_storage".toList name (.pointer text),
      { fresh.ready with
        submitted := true
        completed := true
        egressJobFile := ⟨name, "typescript_storage".toList⟩ })
  loadPlugin _ := true
  moduleRequests text := some (requests text)
  links _ := true

end Environment

end SlimTS
