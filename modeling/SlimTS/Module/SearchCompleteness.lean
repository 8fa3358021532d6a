import SlimTS.Module.PathSearch

/-!
# What resolution finds

Resolution forms one absolute path and looks for a module at it: at the path itself when its file
name has an extension, and otherwise at the path and its `/index` with each of the extensions. It
finds one of these candidates, and it finds one whenever there is one, in whatever order the names
are visited: the loop over the names leaves at the first that exists, and the loop over the
extensions only ever replaces a find by another.

Unless it is stopped. The loops ask for the status of one candidate after the other, and when a
status cannot be told, `std::filesystem::exists` throws, although another candidate may be there.
That is the case of a path whose last name is so long that only the shortest extension still fits.
-/

namespace SlimTS

/-- Where a module is looked for at a path. -/
def candidates (path : Str) : List Str :=
  if Path.hasExtension path then [path]
  else fileExtensions.flatMap fun fileExtension ↦
    [path ++ fileExtension, path ++ "/index".toList ++ fileExtension]

namespace Environment

/-- The path `resolve_module_path` forms. -/
def formPath (env : Environment) (referrerPath : Option Str) (specifierString : Str) :
    Except Fault Str :=
  if !"./".toList.isPrefixOf specifierString && !"/".toList.isPrefixOf specifierString then
    env.absolute specifierString
  else env.relativePath referrerPath specifierString

/-- The first of the paths that is not missing has a status that cannot be told. -/
def Blocked (env : Environment) : List Str → Prop
  | [] => False
  | path :: paths => env.fileStatus path = .unknown ∨
      env.fileStatus path = .notFound ∧ env.Blocked paths

instance decidableBlocked (env : Environment) :
    (paths : List Str) → Decidable (env.Blocked paths)
  | [] => isFalse id
  | path :: paths =>
    have := decidableBlocked env paths
    inferInstanceAs (Decidable (env.fileStatus path = .unknown ∨
      env.fileStatus path = .notFound ∧ env.Blocked paths))

/-- The rounds of the search at a path: one for each extension, of the names in the order in which
the hash set visits them. -/
def rounds (env : Environment) (path : Str) : List (List Str) :=
  if Path.hasExtension path then [[path]]
  else fileExtensions.map fun e ↦ (env.possibleModuleNames path).map (· ++ e)

/-- Asking for a status stops one of the rounds. -/
def Throws (env : Environment) (path : Str) : Prop := ∃ round ∈ env.rounds path, env.Blocked round

instance (env : Environment) (path : Str) : Decidable (env.Throws path) :=
  inferInstanceAs (Decidable (∃ round ∈ env.rounds path, env.Blocked round))

/-- The files the search would take, best first. -/
def preference (env : Environment) (path : Str) : List Str := (env.rounds path).reverse.flatten

/-- What is found among some paths: one of them that exists, or nothing when none does. -/
def Finds (env : Environment) (paths : List Str) : Option Str → Prop
  | some p => p ∈ paths ∧ env.fileExists p = true
  | none => ∀ p ∈ paths, env.fileExists p = false

variable {env : Environment} {paths paths' : List Str} {found : Option Str} {path p : Str}

/-- Something is found exactly when something exists. -/
theorem Finds.isSome_iff (h : env.Finds paths found) :
    found.isSome = true ↔ ∃ p ∈ paths, env.fileExists p = true := by
  cases found with
  | none =>
    refine ⟨fun hsome ↦ absurd hsome (by simp), fun ⟨p, hp, hexists⟩ ↦ ?_⟩
    exact absurd ((h p hp).symm.trans hexists) Bool.false_ne_true
  | some p => exact ⟨fun _ ↦ ⟨p, h⟩, fun _ ↦ rfl⟩

/-- Only which paths they are matters. -/
theorem Finds.congr (h : env.Finds paths found) (hpaths : ∀ p, p ∈ paths ↔ p ∈ paths') :
    env.Finds paths' found := by
  cases found with
  | none => exact fun p hp ↦ h p ((hpaths p).mpr hp)
  | some p => exact ⟨(hpaths p).mp h.1, h.2⟩

theorem finds_find? (paths : List Str) : env.Finds paths (paths.find? env.fileExists) := by
  cases hfound : paths.find? env.fileExists with
  | none => exact fun p hp ↦ Bool.eq_false_iff.mpr (List.find?_eq_none.mp hfound p hp)
  | some p => exact ⟨List.mem_of_find?_eq_some hfound, List.find?_some hfound⟩

/-! ## The loops -/

/-- The loop over the names. -/
theorem tryNames_result (e : Str) (names : List Str) :
    (env.Blocked (names.map (· ++ e)) ∧
        (env.tryNames e names).result = .error .filesystemError) ∨
      ¬env.Blocked (names.map (· ++ e)) ∧
        (env.tryNames e names).result = .ok ((names.map (· ++ e)).find? env.fileExists) := by
  induction names with
  | nil => exact .inr ⟨id, rfl⟩
  | cons name names ih =>
    rw [List.map_cons, Blocked, List.find?_cons, fileExists, tryNames_cons, Probing.result_bind,
      probe]
    cases env.fileStatus (name ++ e) with
    | found => exact .inr ⟨by simp, rfl⟩
    | unknown => exact .inl ⟨.inl rfl, rfl⟩
    | notFound =>
      rcases ih with ⟨hblocked, hresult⟩ | ⟨hfree, hresult⟩
      · exact .inl ⟨.inr ⟨rfl, hblocked⟩, hresult⟩
      · exact .inr ⟨by simpa using hfree, hresult⟩

/-- The loop over the extensions. -/
theorem tryExtensions_result (names extensions : List Str) (found : Option Str) :
    ((∃ e ∈ extensions, env.Blocked (names.map (· ++ e))) ∧
        (env.tryExtensions names extensions found).result = .error .filesystemError) ∨
      (∀ e ∈ extensions, ¬env.Blocked (names.map (· ++ e))) ∧
        (env.tryExtensions names extensions found).result
          = .ok (((extensions.map fun e ↦ names.map (· ++ e)).reverse.flatten.find?
            env.fileExists).or found) := by
  induction extensions generalizing found with
  | nil => exact .inr ⟨fun e he ↦ absurd he List.not_mem_nil, rfl⟩
  | cons e extensions ih =>
    rw [tryExtensions_cons, Probing.result_bind]
    rcases @tryNames_result env e names with ⟨hblocked, hresult⟩ | ⟨hfree, hresult⟩
    · rw [hresult]
      exact .inl ⟨⟨e, List.mem_cons_self, hblocked⟩, rfl⟩
    · rw [hresult, ok_bind]
      rcases ih ((names.map (· ++ e)).find? env.fileExists <|> found) with
        ⟨⟨e', he', hblocked⟩, hresult'⟩ | ⟨hfree', hresult'⟩
      · exact .inl ⟨⟨e', List.mem_cons_of_mem _ he', hblocked⟩, hresult'⟩
      · refine .inr ⟨List.forall_mem_cons.mpr ⟨hfree, hfree'⟩, hresult'.trans (congrArg _ ?_)⟩
        rw [List.map_cons, List.reverse_cons, List.flatten_append, List.flatten_singleton,
          List.find?_append, Option.or_assoc]
        cases (names.map (· ++ e)).find? env.fileExists <;> rfl

/-- **The search** takes the file it prefers among those that exist, if it is not stopped. -/
theorem search_result (path : Str) :
    env.Throws path ∧ (env.search path).result = .error .filesystemError ∨
      ¬env.Throws path ∧
        (env.search path).result = .ok ((env.preference path).find? env.fileExists) := by
  rw [Throws, preference, rounds]
  cases hext : Path.hasExtension path with
  | true =>
    have hnames := @tryNames_result env [] [path]
    rw [search_of_hasExtension hext, if_pos rfl]
    simp only [List.map_cons, List.map_nil, List.append_nil, tryNames_cons, tryNames_nil] at hnames
    simpa [Probing.result_bind] using hnames
  | false =>
    have hextensions := @tryExtensions_result env (env.possibleModuleNames path)
      fileExtensions none
    rw [search_of_not_hasExtension hext, if_neg Bool.false_ne_true]
    simpa using hextensions

/-- The files the search would take are the candidates. -/
theorem mem_preference : p ∈ env.preference path ↔ p ∈ candidates path := by
  rw [preference, List.mem_flatten, rounds, candidates]
  split
  · simp
  · rw [List.mem_flatMap]
    simp only [List.mem_reverse, List.mem_map]
    constructor
    · rintro ⟨-, ⟨e, he, rfl⟩, hp⟩
      obtain ⟨name, hname, rfl⟩ := List.mem_map.mp hp
      refine ⟨e, he, ?_⟩
      rcases mem_possibleModuleNames hname with rfl | rfl <;> simp
    · rintro ⟨e, he, hp⟩
      refine ⟨_, ⟨e, he, rfl⟩, List.mem_map.mpr ?_⟩
      rw [possibleModuleNames]
      simp only [List.mem_cons, List.not_mem_nil, or_false] at hp
      rcases hp with rfl | rfl <;> split <;> simp

theorem mem_candidates_of_mem_rounds {round : List Str} (hround : round ∈ env.rounds path)
    (hp : p ∈ round) : p ∈ candidates path :=
  mem_preference.mp (List.mem_flatten.mpr ⟨round, List.mem_reverse.mpr hround, hp⟩)

/-- Only a status that cannot be told stops a round. -/
theorem Blocked.exists_unknown (h : env.Blocked paths) :
    ∃ p ∈ paths, env.fileStatus p = .unknown := by
  induction paths with
  | nil => exact h.elim
  | cons q rest ih =>
    rcases h with h | ⟨-, h⟩
    · exact ⟨q, List.mem_cons_self, h⟩
    · obtain ⟨p, hp, hunknown⟩ := ih h
      exact ⟨p, List.mem_cons_of_mem _ hp, hunknown⟩

/-- Nothing stops a search whose candidates all have a status. -/
theorem not_throws_of_known (h : ∀ p ∈ candidates path, env.fileStatus p ≠ .unknown) :
    ¬env.Throws path := by
  rintro ⟨round, hround, hblocked⟩
  obtain ⟨p, hp, hunknown⟩ := hblocked.exists_unknown
  exact h p (mem_candidates_of_mem_rounds hround hp) hunknown

theorem finds_preference (env : Environment) (path : Str) :
    env.Finds (candidates path) ((env.preference path).find? env.fileExists) :=
  (finds_find? _).congr fun _ ↦ mem_preference

/-! ## Resolution -/

variable {referrerPath : Option Str} {specifierString : Str}

/-- The loop over the search paths, of which there is one. -/
theorem trySearchPaths_searchPaths (hpath : env.absolute specifierString = .ok path) :
    (env.trySearchPaths specifierString searchPaths none).result = (env.search path).result := by
  have hsearchPath : env.absolute ("".toList ++ specifierString) = .ok path := hpath
  rw [searchPaths, trySearchPaths_cons, hsearchPath, Probing.lift_ok_bind, Probing.result_bind]
  cases (env.search path).result with
  | error fault => rfl
  | ok found =>
    rw [ok_bind]
    split
    · rfl
    · cases found <;> rfl

/-- What resolution leaves in the specifier, from the path it forms. -/
theorem resolveModulePath_of_formPath
    (hpath : env.formPath referrerPath specifierString = .ok path) :
    env.Throws path ∧
        env.resolveModulePath referrerPath specifierString = .error .filesystemError ∨
      ¬env.Throws path ∧ ∃ before, env.resolveModulePath referrerPath specifierString
        = .ok (settle before specifierString ((env.preference path).find? env.fileExists)) := by
  rw [formPath] at hpath
  rw [resolveModulePath, resolve]
  split
  · next hbare =>
    rw [if_pos hbare] at hpath
    rw [Probing.result_bind, trySearchPaths_searchPaths hpath]
    rcases @search_result env path with ⟨hthrows, hresult⟩ | ⟨hfree, hresult⟩
    · exact .inl ⟨hthrows, by rw [hresult]; rfl⟩
    · exact .inr ⟨hfree, [], by rw [hresult]; rfl⟩
  · next hbare =>
    rw [if_neg hbare] at hpath
    rw [hpath, Probing.lift_ok_bind, Probing.result_bind]
    rcases @search_result env path with ⟨hthrows, hresult⟩ | ⟨hfree, hresult⟩
    · exact .inl ⟨hthrows, by rw [hresult]; rfl⟩
    · exact .inr ⟨hfree, path, by rw [hresult]; rfl⟩

/-- Resolution succeeds exactly when one of the candidates at the path exists, and then the
specifier, its path and its url all name an existing candidate. -/
structure FindsCandidate (env : Environment) (referrerPath : Option Str)
    (specifierString path : Str) : Prop where
  succeeds_iff : (∃ resolution,
    env.resolveModulePath referrerPath specifierString = .ok resolution ∧
      resolution.moduleFileFound = true) ↔ ∃ p ∈ candidates path, env.fileExists p = true
  names : ∀ resolution, env.resolveModulePath referrerPath specifierString = .ok resolution →
    resolution.moduleFileFound = true →
      resolution.specifierPath ∈ candidates path ∧
      env.fileExists resolution.specifierPath = true ∧
      resolution.specifierString = resolution.specifierPath ∧
      resolution.specifierStringUrl = "file://".toList ++ resolution.specifierPath

/-- **Resolution is sound, and complete** exactly where asking for a status does not stop it, or
there is nothing to find. -/
theorem findsCandidate_iff (hpath : env.formPath referrerPath specifierString = .ok path) :
    FindsCandidate env referrerPath specifierString path ↔
      ¬env.Throws path ∨ ∀ p ∈ candidates path, env.fileExists p = false := by
  have hfinds := env.finds_preference path
  rcases env.resolveModulePath_of_formPath hpath with
    ⟨hthrows, hresolve⟩ | ⟨hfree, before, hresolve⟩
  · constructor
    · intro h
      refine .inr fun p hp ↦ Bool.eq_false_iff.mpr fun hexists ↦ ?_
      obtain ⟨resolution, hok, -⟩ := h.succeeds_iff.mpr ⟨p, hp, hexists⟩
      exact absurd (hresolve.symm.trans hok) (by simp)
    · rintro (hfree | hnone)
      · exact absurd hthrows hfree
      · refine ⟨iff_of_false ?_ ?_, fun resolution hok ↦ absurd (hresolve.symm.trans hok) (by simp)⟩
        · rintro ⟨resolution, hok, -⟩
          exact absurd (hresolve.symm.trans hok) (by simp)
        · rintro ⟨p, hp, hexists⟩
          exact absurd ((hnone p hp).symm.trans hexists) Bool.false_ne_true
  · refine iff_of_true ⟨?_, fun resolution hok hfile ↦ ?_⟩ (.inl hfree)
    · rw [← hfinds.isSome_iff]
      cases hfound : (env.preference path).find? env.fileExists with
      | none =>
        refine iff_of_false ?_ (by simp)
        rintro ⟨resolution, hok, hfile⟩
        rw [hresolve, hfound] at hok
        cases hok
        cases hfile
      | some p => exact iff_of_true ⟨_, hresolve, by rw [hfound]; rfl⟩ rfl
    · cases hresolve.symm.trans hok
      rw [settle_found hfile] at hfinds
      rw [settle_found hfile]
      exact ⟨hfinds.1, hfinds.2, rfl, rfl⟩

/-- Two modules of one name, as a file and as a directory. -/
def twoModules : Environment :=
  .plain "/home".toList
    (fun p ↦ if p = "/home/a.ts".toList ∨ p = "/home/a/index.mjs".toList then some [] else none)
    fun _ ↦ []

theorem findsCandidate_iff_twoModules :
    FindsCandidate twoModules (some "/home/main.ts".toList) "./a".toList "/home/a".toList :=
  (findsCandidate_iff (by rfl)).mpr (.inl (by decide))

/-- A name that leaves room for the extension `.ts` only. -/
def longName : Str := List.replicate 252 'a'

/-- The module of that name, in a file system whose names have 255 bytes at most. -/
def longNames : Environment :=
  { Environment.plain "/home".toList (fun _ ↦ none) fun _ ↦ [] with
    fileStatus := fun p ↦
      if 255 < (Path.filename p).length then .unknown
      else if p = "/home/".toList ++ longName ++ ".ts".toList then .found
      else .notFound }

set_option maxRecDepth 4000 in
/-- The file is there and is not found. -/
theorem not_findsCandidate_longNames : ¬ ∀ (env : Environment) (referrerPath : Option Str)
    (specifierString path : Str), env.formPath referrerPath specifierString = .ok path →
      FindsCandidate env referrerPath specifierString path := by
  intro h
  have hpath : longNames.formPath none longName = .ok ("/home/".toList ++ longName) := by rfl
  obtain ⟨resolution, hok, -⟩ := (h longNames none longName _ hpath).succeeds_iff.mpr
    ⟨"/home/".toList ++ longName ++ ".ts".toList, by decide, by decide⟩
  have hthrows : longNames.resolveModulePath none longName = .error .filesystemError := by rfl
  exact absurd (hthrows.symm.trans hok) (by simp)

end Environment

end SlimTS
