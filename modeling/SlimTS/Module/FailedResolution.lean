import SlimTS.Module.Resolver
import SlimTS.Module.SearchOrder

/-!
# After a failed resolution

When `resolve_module_path` finds no file it throws to V8, inside a `TryCatch` of its own that
nobody asks. The constructor goes on with the specifier as it was: `fetch_source` opens whatever
file the text names in the working directory, a `file://` in front of it taken away. If it can open
none, the constructor throws before anything is stored. If it can open one, the file is stored and
transpiled under the empty url, and the import succeeds. When the search is stopped by a status that
cannot be told, the exception is one of C++ and leaves the constructor at once.
-/

namespace SlimTS

/-- The file a specifier names when it is opened as it stands. -/
def localName (specifierString : Str) : Str :=
  if "file://".toList.isPrefixOf specifierString then specifierString.drop 7 else specifierString

namespace Environment

variable {env : Environment} {referrerPath : Option Str} {specifierString : Str}

/-- `resolve_module_path` finds no module file. -/
def FindsNone (env : Environment) (referrerPath : Option Str) (specifierString : Str) : Prop :=
  ∀ resolution, env.resolveModulePath referrerPath specifierString = .ok resolution →
    resolution.moduleFileFound = false

/-- The constructor finds nothing to go on with: the path of the specifier would be made of the
empty text, the search at its path is stopped, or the specifier names no file that can be opened. -/
def NoSource (env : Environment) (referrerPath : Option Str) (specifierString : Str) : Prop :=
  specifierString = [] ∨ (specifierString = "./".toList ∧ referrerPath = none) ∨
    (∃ path, env.formPath referrerPath specifierString = .ok path ∧ env.Throws path) ∨
    env.readFile (localName specifierString) = none

/-! ## Paths that cannot be formed -/

theorem absolute_of_ne_nil {p : Str} (hp : p ≠ []) : ∃ q, env.absolute p = .ok q := by
  obtain ⟨q, hq⟩ : ∃ q, Path.absolute env.currentPath p = some q := by
    rw [Path.absolute, if_neg hp]
    split
    · exact ⟨_, rfl⟩
    split <;> exact ⟨_, rfl⟩
  exact ⟨q, absolute_eq_ok hq⟩

/-- Only the path of the empty text cannot be formed. -/
theorem formPath_spec (env : Environment) (referrerPath : Option Str) (specifierString : Str) :
    (∃ path, env.formPath referrerPath specifierString = .ok path) ∨
      (specifierString = [] ∨ specifierString = "./".toList ∧ referrerPath = none) ∧
        env.resolveModulePath referrerPath specifierString = .error .filesystemError := by
  by_cases hempty : specifierString = []
  · subst hempty
    exact .inr ⟨.inl rfl, rfl⟩
  rw [formPath]
  split
  · exact .inl (absolute_of_ne_nil hempty)
  · next hbare =>
    cases referrerPath with
    | some referrerPath =>
      rw [relativePath]
      split
      · exact .inl (absolute_of_ne_nil (List.append_ne_nil_of_right_ne_nil _
          (List.cons_ne_nil _ _)))
      · exact .inl ⟨[], rfl⟩
    | none =>
      rw [relativePath]
      split
      · by_cases hdrop : specifierString.drop 2 = []
        · next hstarts =>
          have hdotSlash : "./".toList.isPrefixOf specifierString = true := by
            obtain ⟨rest, rfl⟩ := List.isPrefixOf_iff_prefix.mp hstarts
            simpa using hbare
          obtain rfl : specifierString = "./".toList := by
            rw [eq_of_isPrefixOf_dotSlash hdotSlash, hdrop]
            rfl
          exact .inr ⟨.inr ⟨rfl, rfl⟩, rfl⟩
        · exact .inl (absolute_of_ne_nil hdrop)
      · exact .inl (absolute_of_ne_nil hempty)

/-! ## The constructor -/

/-- The constructor has nothing to take when the job names no stored file. -/
theorem takeTranspiled_eq_error {store : Store} {job : Job} {fault : Fault}
    (h : takeTranspiled store job = .error fault) : fault = .nullPointer := by
  rw [takeTranspiled] at h
  split at h
  · exact absurd h (by simp)
  · cases hread : store.read job.egressJobFile.storageContainerHandle
      job.egressJobFile.fileNameString with
    | none =>
      rw [hread] at h
      exact (Except.error.inj h).symm
    | some text =>
      rw [hread] at h
      exact absurd h (by simp [dereference, Except.map])

theorem fetchSource_of_none (hread : env.readFile (localName specifierString) = none) :
    env.fetchSource specifierString = .error (.slimFileException specifierString) := by
  rw [localName] at hread
  rw [fetchSource, fetchStream, hread]
  rfl

theorem fetchSource_of_some {text : Str}
    (hread : env.readFile (localName specifierString) = some text) :
    env.fetchSource specifierString = .ok (env.applyMacros text specifierString) := by
  rw [localName] at hread
  rw [fetchSource, fetchStream, hread]
  rfl

/-- The constructor after a resolution that found nothing opens the file that the specifier names as
it stands. If it can, the file is stored and transpiled under the empty url. -/
theorem construct_of_not_found {resolution : Resolution}
    (hresolution : env.resolveModulePath referrerPath specifierString = .ok resolution)
    (hnotFound : resolution.moduleFileFound = false) (store : Store) (isEntryPoint : Bool) :
    (env.readFile (localName specifierString) = none →
      env.construct store (.name specifierString) isEntryPoint referrerPath
        = .error (.slimFileException specifierString)) ∧
    ∀ text, env.readFile (localName specifierString) = some text →
      env.construct store (.name specifierString) isEntryPoint referrerPath = .error .nullPointer ∨
      ∃ constructed, env.construct store (.name specifierString) isEntryPoint referrerPath
          = .ok constructed ∧
        constructed.specifier.specifierStringUrl = [] ∧
        constructed.store = (env.submit (store.write "source_code_storage".toList []
          (.pointer (env.applyMacros text specifierString))) (env.transpileJob [])).1 := by
  obtain ⟨hstring, hurl⟩ : resolution.specifierString = specifierString ∧
      resolution.specifierStringUrl = [] := by
    obtain ⟨path, found, rfl, -⟩ := env.resolveModulePath_eq_settle hresolution
    cases found with
    | none => exact ⟨rfl, rfl⟩
    | some p => exact absurd hnotFound (by simp [settle])
  rw [construct, hresolution, ok_bind, hstring, hurl]
  constructor
  · intro hread
    rw [fetchSource_of_none hread]
    rfl
  · intro text hread
    rw [fetchSource_of_some hread, ok_bind]
    cases htaken : takeTranspiled
        (env.submit (store.write "source_code_storage".toList []
          (.pointer (env.applyMacros text specifierString))) (env.transpileJob [])).1
        (env.submit (store.write "source_code_storage".toList []
          (.pointer (env.applyMacros text specifierString))) (env.transpileJob [])).2 with
    | error fault =>
      dsimp only
      rw [htaken, takeTranspiled_eq_error htaken]
      exact .inl rfl
    | ok transpiled =>
      dsimp only
      rw [htaken, ok_bind]
      exact .inr ⟨_, rfl, rfl, rfl⟩

/-- When no module file is found and nothing can be opened, the constructor throws. -/
theorem construct_of_noSource (hnone : env.FindsNone referrerPath specifierString)
    (hsource : env.NoSource referrerPath specifierString) (store : Store) (isEntryPoint : Bool) :
    ∃ fault, fault.Caught ∧
      env.construct store (.name specifierString) isEntryPoint referrerPath = .error fault := by
  rcases env.formPath_spec referrerPath specifierString with ⟨path, hpath⟩ | ⟨-, herror⟩
  · rcases env.resolveModulePath_of_formPath hpath with
      ⟨-, hstopped⟩ | ⟨hfree, before, hresolution⟩
    · refine ⟨.filesystemError, trivial, ?_⟩
      rw [construct, hstopped]
      rfl
    · rcases hsource with rfl | ⟨rfl, rfl⟩ | ⟨path', hpath', hthrows⟩ | hread
      · exact absurd hpath nofun
      · exact absurd hpath nofun
      · cases hpath.symm.trans hpath'
        exact absurd hthrows hfree
      · exact ⟨.slimFileException specifierString, trivial,
          (construct_of_not_found hresolution (hnone _ hresolution) store isEntryPoint).1 hread⟩
  · refine ⟨.filesystemError, trivial, ?_⟩
    rw [construct, herror]
    rfl

end Environment

namespace ResolverState

variable {identityHash : ModuleId → ℤ} {env : Environment} {referrerPath : Option Str}
  {specifierString : Str}

/-- The import has left everything as it was: the sources in the store, the jobs submitted and the
caches. -/
structure Untouched (s s' : ResolverState) : Prop where
  sourceCode : ∀ url, s'.store.read "source_code_storage".toList url
    = s.store.read "source_code_storage".toList url
  jobs : ∀ url, .transpiled url ∈ s'.history → .transpiled url ∈ s.history
  bySpecifierCache : s'.bySpecifierCache = s.bySpecifierCache
  byHashIdCache : s'.byHashIdCache = s.byHashIdCache

/-- The import of a file fails cleanly: the constructor throws, and nothing has happened. -/
structure FailsClean (identityHash : ModuleId → ℤ) (env : Environment) (s : ResolverState)
    (isEntryPoint : Bool) (referrerPath : Option Str) (specifierString : Str) : Prop where
  raises : ∃ fault, fault.Caught ∧
    env.construct s.store (.name specifierString) isEntryPoint referrerPath = .error fault
  untouched : Untouched s
    (s.importFile identityHash env (.name specifierString) isEntryPoint referrerPath).1

/-- **A failed resolution is clean** exactly when the search was stopped, or the specifier, opened
as it stands, leads to no file. -/
theorem failsClean_iff (identityHash : ModuleId → ℤ) (s : ResolverState) (isEntryPoint : Bool)
    (hnone : env.FindsNone referrerPath specifierString) :
    FailsClean identityHash env s isEntryPoint referrerPath specifierString ↔
      env.NoSource referrerPath specifierString := by
  constructor
  · rintro ⟨⟨fault, hcaught, hraises⟩, -⟩
    rcases env.formPath_spec referrerPath specifierString with ⟨path, hpath⟩ | ⟨hempty, -⟩
    · rcases env.resolveModulePath_of_formPath hpath with
        ⟨hthrows, -⟩ | ⟨-, before, hresolution⟩
      · exact .inr (.inr (.inl ⟨path, hpath, hthrows⟩))
      cases hread : env.readFile (localName specifierString) with
      | none => exact .inr (.inr (.inr hread))
      | some text =>
        -- The file is opened, and the constructor does not throw any more.
        rcases (Environment.construct_of_not_found hresolution (hnone _ hresolution) s.store
          isEntryPoint).2 text hread with hnull | ⟨constructed, hok, -⟩
        · obtain rfl := Except.error.inj (hraises.symm.trans hnull)
          exact hcaught.elim
        · exact absurd (hraises.symm.trans hok) (by simp)
    · exact hempty.imp_right .inl
  · intro hsource
    obtain ⟨fault, hcaught, hraises⟩ := env.construct_of_noSource hnone hsource s.store isEntryPoint
    have himport : s.importFile identityHash env (.name specifierString) isEntryPoint referrerPath
        = (s, .error fault) := by rw [importFile, hraises]
    refine ⟨⟨fault, hcaught, hraises⟩, ?_⟩
    rw [himport]
    exact ⟨fun _ ↦ rfl, fun _ h ↦ h, rfl, rfl⟩

/-- A machine with one file, which is no module. -/
def licensed : Environment :=
  .plain "/home".toList (fun p ↦ if p = "LICENSE".toList ∨ p = "/home/LICENSE".toList then
    some "MIT".toList else none) fun _ ↦ []

theorem failsClean_iff_missing :
    FailsClean Int.ofNat licensed (.start (.start fun _ ↦ ∅)) false (some "/home/main.ts".toList)
      "./missing".toList := by
  refine (failsClean_iff _ _ _ ?_).mpr (.inr (.inr (.inr (by rfl))))
  intro resolution h
  rw [← Except.ok.inj h]
  rfl

/-- A file that is no module, opened by its bare name: it is imported as one. -/
theorem failsClean_license : ¬ ∀ (identityHash : ModuleId → ℤ) (env : Environment)
    (s : ResolverState) (isEntryPoint : Bool) (referrerPath : Option Str) (specifierString : Str),
    env.FindsNone referrerPath specifierString →
      FailsClean identityHash env s isEntryPoint referrerPath specifierString := by
  intro h
  have hnone : licensed.FindsNone (some "/home/main.ts".toList) "LICENSE".toList := by
    intro resolution h
    rw [← Except.ok.inj h]
    rfl
  obtain ⟨fault, -, hraises⟩ := (h Int.ofNat licensed (.start (.start fun _ ↦ ∅)) false
    (some "/home/main.ts".toList) "LICENSE".toList hnone).raises
  exact absurd hraises nofun

end ResolverState

end SlimTS
