import SlimTS.Module.ImportSpecifier

/-!
# The search for a module's file

What the loops of `resolve_module_path` try and what they find. A search tries the path itself when
its file name has an extension, and otherwise the path with each of the extensions, directly and
behind `/index`. It finds only what it has tried, so a path found always has an extension.
-/

namespace SlimTS

/-- What the search may add to the path it searches at. -/
def searchSuffixes : List Str :=
  [] :: fileExtensions.flatMap fun fileExtension ↦ [fileExtension, "/index".toList ++ fileExtension]

namespace Environment

variable {env : Environment}

theorem probe_probed (path : Str) : (env.probe path).probed = [path] := rfl

theorem tryNames_nil (fileExtension : Str) : env.tryNames fileExtension [] = return none := rfl

theorem tryNames_cons (fileExtension name : Str) (names : List Str) :
    env.tryNames fileExtension (name :: names) = (env.probe (name ++ fileExtension) >>= fun found ↦
      if found then return some (name ++ fileExtension) else env.tryNames fileExtension names) :=
  rfl

theorem tryExtensions_cons (names : List Str) (fileExtension : Str) (extensions : List Str)
    (found : Option Str) : env.tryExtensions names (fileExtension :: extensions) found
      = (env.tryNames fileExtension names >>= fun here ↦
        env.tryExtensions names extensions (here <|> found)) := rfl

theorem tryNames_spec (fileExtension : Str) (names : List Str) :
    (∀ p ∈ (env.tryNames fileExtension names).probed, ∃ name ∈ names, p = name ++ fileExtension) ∧
      ∀ p, (env.tryNames fileExtension names).result = .ok (some p) →
        p ∈ (env.tryNames fileExtension names).probed := by
  induction names with
  | nil => exact ⟨fun p hp ↦ absurd hp List.not_mem_nil, fun p hp ↦ by cases hp⟩
  | cons name names ih =>
    rw [tryNames_cons]
    constructor
    · intro p hp
      rcases Probing.mem_probed_bind hp with hp | ⟨found, -, hp⟩
      · exact ⟨name, List.mem_cons_self, List.mem_singleton.mp hp⟩
      · cases found with
        | true => exact absurd hp List.not_mem_nil
        | false =>
          obtain ⟨name', hname', rfl⟩ := ih.1 p hp
          exact ⟨name', List.mem_cons_of_mem _ hname', rfl⟩
    · intro p hp
      obtain ⟨found, -, hp, hprobed⟩ := Probing.bind_eq_ok hp
      rw [hprobed, probe_probed]
      cases found with
      | true =>
        cases hp
        exact List.mem_append_left _ (List.mem_singleton_self _)
      | false => exact List.mem_append_right _ (ih.2 p hp)

theorem tryExtensions_spec (names : List Str) (extensions : List Str) (found : Option Str) :
    (∀ p ∈ (env.tryExtensions names extensions found).probed,
        ∃ name ∈ names, ∃ fileExtension ∈ extensions, p = name ++ fileExtension) ∧
      ∀ p, (env.tryExtensions names extensions found).result = .ok (some p) →
        p ∈ (env.tryExtensions names extensions found).probed ∨ found = some p := by
  induction extensions generalizing found with
  | nil =>
    exact ⟨fun p hp ↦ absurd hp List.not_mem_nil, fun p hp ↦ .inr (Except.ok.inj hp)⟩
  | cons fileExtension extensions ih =>
    obtain ⟨hprobed, hfound⟩ := env.tryNames_spec fileExtension names
    rw [tryExtensions_cons]
    constructor
    · intro p hp
      rcases Probing.mem_probed_bind hp with hp | ⟨here, -, hp⟩
      · obtain ⟨name, hname, rfl⟩ := hprobed p hp
        exact ⟨name, hname, fileExtension, List.mem_cons_self, rfl⟩
      · obtain ⟨name, hname, e, he, rfl⟩ := (ih (here <|> found)).1 p hp
        exact ⟨name, hname, e, List.mem_cons_of_mem _ he, rfl⟩
    · intro p hp
      obtain ⟨here, hhere, hp, happend⟩ := Probing.bind_eq_ok hp
      rw [happend]
      rcases (ih (here <|> found)).2 p hp with hp | hp
      · exact Or.inl (List.mem_append_right _ hp)
      · cases here with
        | none => exact Or.inr hp
        | some q =>
          obtain rfl : q = p := Option.some.inj hp
          exact Or.inl (List.mem_append_left _ (hfound q hhere))

theorem mem_possibleModuleNames {path name : Str} (h : name ∈ env.possibleModuleNames path) :
    name = path ∨ name = path ++ "/index".toList := by
  rw [possibleModuleNames] at h
  split at h <;> simp at h
  · exact h.symm
  · exact h

/-- The search at a path with an extension asks for the path. -/
theorem search_of_hasExtension {path : Str} (hext : Path.hasExtension path = true) :
    env.search path = (env.probe path >>= fun found ↦
      if found then return some path else return none) := by
  rw [search, if_pos hext]

theorem search_of_not_hasExtension {path : Str} (hext : Path.hasExtension path = false) :
    env.search path = env.tryExtensions (env.possibleModuleNames path) fileExtensions none := by
  rw [search, hext, if_neg Bool.false_ne_true]

/-- The search tries the path, or the path with an ending, and finds what it tried. -/
theorem search_spec (path : Str) :
    (∀ p ∈ (env.search path).probed, ∃ suffix ∈ searchSuffixes, p = path ++ suffix) ∧
      ∀ p, (env.search path).result = .ok (some p) → p ∈ (env.search path).probed := by
  cases hext : Path.hasExtension path with
  | true =>
    rw [search_of_hasExtension hext]
    constructor
    · intro p hp
      rcases Probing.mem_probed_bind hp with hp | ⟨found, -, hp⟩
      · exact ⟨[], List.mem_cons_self, by rw [List.append_nil]; exact List.mem_singleton.mp hp⟩
      · cases found <;> exact absurd hp List.not_mem_nil
    · intro p hp
      obtain ⟨found, -, hp, hprobed⟩ := Probing.bind_eq_ok hp
      rw [hprobed]
      cases found with
      | true =>
        cases hp
        exact List.mem_append_left _ (List.mem_singleton_self _)
      | false => cases hp
  | false =>
    rw [search_of_not_hasExtension hext]
    obtain ⟨hprobed, hfound⟩ :=
      env.tryExtensions_spec (env.possibleModuleNames path) fileExtensions none
    refine ⟨fun p hp ↦ ?_, fun p hp ↦ (hfound p hp).resolve_right (by simp)⟩
    obtain ⟨name, hname, fileExtension, hmem, rfl⟩ := hprobed p hp
    rcases mem_possibleModuleNames hname with rfl | rfl
    · exact ⟨fileExtension, List.mem_cons_of_mem _
        (List.mem_flatMap.mpr ⟨fileExtension, hmem, by simp⟩), rfl⟩
    · exact ⟨"/index".toList ++ fileExtension, List.mem_cons_of_mem _
        (List.mem_flatMap.mpr ⟨fileExtension, hmem, by simp⟩), List.append_assoc _ _ _⟩

theorem probed_bind_ne_nil {α β : Type} {x : Probing α} (h : x.probed ≠ []) (f : α → Probing β) :
    (x >>= f).probed ≠ [] := by
  cases hx : x.result with
  | error fault => rwa [Probing.bind_of_error hx]
  | ok a =>
    rw [Probing.bind_of_ok hx]
    exact List.append_ne_nil_of_left_ne_nil h _

/-- Something is tried. -/
theorem probed_search_ne_nil (path : Str) : (env.search path).probed ≠ [] := by
  cases hext : Path.hasExtension path with
  | true =>
    rw [search_of_hasExtension hext]
    exact probed_bind_ne_nil (List.cons_ne_nil _ _) _
  | false =>
    obtain ⟨name, names, hnames⟩ : ∃ name names, env.possibleModuleNames path = name :: names := by
      rw [possibleModuleNames]
      split <;> exact ⟨_, _, rfl⟩
    rw [search_of_not_hasExtension hext, fileExtensions, tryExtensions_cons, hnames, tryNames_cons]
    exact probed_bind_ne_nil (probed_bind_ne_nil (List.cons_ne_nil _ _) _) _

/-- The search does not ask for the working directory. -/
theorem search_currentPath (currentPath path : Str) :
    ({ env with currentPath := currentPath } : Environment).search path = env.search path := by
  have hnames : ∀ e names, ({ env with currentPath := currentPath } : Environment).tryNames e names
      = env.tryNames e names := by
    intro e names
    induction names with
    | nil => rfl
    | cons name names ih =>
      rw [tryNames_cons, tryNames_cons, ih]
      rfl
  have hextensions : ∀ names extensions found,
      ({ env with currentPath := currentPath } : Environment).tryExtensions names extensions found
        = env.tryExtensions names extensions found := by
    intro names extensions
    induction extensions with
    | nil => exact fun found ↦ rfl
    | cons e extensions ih =>
      intro found
      simp only [tryExtensions_cons, hnames, ih]
  rw [search, search, hextensions]
  rfl

/-- A path found has an extension, if only a dot. -/
theorem mem_of_search_found {path p : Str} (h : (env.search path).result = .ok (some p)) :
    '.' ∈ p := by
  cases hext : Path.hasExtension path with
  | true =>
    rw [search_of_hasExtension hext] at h
    obtain ⟨found, -, h, -⟩ := Probing.bind_eq_ok h
    cases found with
    | true =>
      cases h
      exact Path.mem_of_hasExtension hext
    | false => cases h
  | false =>
    rw [search_of_not_hasExtension hext] at h
    obtain ⟨hprobed, hfound⟩ :=
      env.tryExtensions_spec (env.possibleModuleNames path) fileExtensions none
    obtain ⟨name, -, fileExtension, hext, rfl⟩ :=
      hprobed p ((hfound p h).resolve_right (by simp))
    have hdot : ∀ e ∈ fileExtensions, '.' ∈ e := by decide
    exact List.mem_append_right _ (hdot fileExtension hext)

theorem trySearchPaths_cons (specifierString searchPath : Str) (paths : List Str)
    (found : Option Str) : env.trySearchPaths specifierString (searchPath :: paths) found
      = ((liftM (env.absolute (searchPath ++ specifierString)) : Probing Str) >>= fun path ↦
        env.search path >>= fun here ↦
          if Path.hasExtension path && here.isSome then return here
          else env.trySearchPaths specifierString paths (here <|> found)) := rfl

theorem mem_of_trySearchPaths_found {specifierString : Str} {paths : List Str}
    {sofar : Option Str} (hsofar : ∀ p, sofar = some p → '.' ∈ p) {p : Str}
    (h : (env.trySearchPaths specifierString paths sofar).result = .ok (some p)) : '.' ∈ p := by
  induction paths generalizing sofar with
  | nil => exact hsofar p (Except.ok.inj h)
  | cons searchPath paths ih =>
    rw [trySearchPaths_cons] at h
    obtain ⟨path, -, h, -⟩ := Probing.bind_eq_ok h
    obtain ⟨here, hhere, h, -⟩ := Probing.bind_eq_ok h
    split at h
    · cases h
      exact mem_of_search_found hhere
    · refine ih (fun q hq ↦ ?_) h
      cases here with
      | none => exact hsofar q hq
      | some q' =>
        obtain rfl : q' = q := Option.some.inj hq
        exact mem_of_search_found hhere

/-- Resolution settles on what a search has found, which is a path with a dot. -/
theorem resolveModulePath_eq_settle {referrerPath : Option Str} {specifierString : Str}
    {resolution : Resolution}
    (h : env.resolveModulePath referrerPath specifierString = .ok resolution) :
    ∃ path found, resolution = settle path specifierString found ∧
      ∀ p, found = some p → '.' ∈ p := by
  rw [resolveModulePath, resolve] at h
  split at h
  · obtain ⟨found, hfound, h, -⟩ := Probing.bind_eq_ok h
    cases h
    exact ⟨_, found, rfl, fun p hp ↦ mem_of_trySearchPaths_found (by simp) (hp ▸ hfound)⟩
  · obtain ⟨path, -, h, -⟩ := Probing.bind_eq_ok h
    obtain ⟨found, hfound, h, -⟩ := Probing.bind_eq_ok h
    cases h
    exact ⟨path, found, rfl, fun p hp ↦ mem_of_search_found (hp ▸ hfound)⟩

/-- Resolution leaves the specifier as it was, or replaces it by a path with a dot. -/
theorem resolveModulePath_specifierString {referrerPath : Option Str} {specifierString : Str}
    {resolution : Resolution}
    (h : env.resolveModulePath referrerPath specifierString = .ok resolution) :
    resolution.specifierString = specifierString ∨ '.' ∈ resolution.specifierString := by
  obtain ⟨path, found, rfl, hfound⟩ := env.resolveModulePath_eq_settle h
  cases found with
  | some p => exact Or.inr (hfound p rfl)
  | none => exact Or.inl rfl

/-- When a file is found, the specifier, the path and the url all name it. -/
theorem resolveModulePath_found {referrerPath : Option Str} {specifierString : Str}
    {resolution : Resolution}
    (h : env.resolveModulePath referrerPath specifierString = .ok resolution)
    (hfile : resolution.moduleFileFound = true) :
    resolution.specifierString = resolution.specifierPath ∧
      resolution.specifierStringUrl = "file://".toList ++ resolution.specifierPath ∧
      '.' ∈ resolution.specifierPath := by
  obtain ⟨path, found, rfl, hfound⟩ := env.resolveModulePath_eq_settle h
  cases found with
  | some p => exact ⟨rfl, rfl, hfound p rfl⟩
  | none => cases hfile

theorem settle_found {specifierPath specifierString : Str} {found : Option Str}
    (h : (settle specifierPath specifierString found).moduleFileFound = true) :
    found = some (settle specifierPath specifierString found).specifierPath := by
  cases found with
  | some p => rfl
  | none => cases h

end Environment

end SlimTS
