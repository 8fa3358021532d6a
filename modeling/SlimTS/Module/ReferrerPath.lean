import SlimTS.Module.PathSearch
import SlimTS.Module.Resolver

/-!
# Where a relative import is looked for

A specifier that begins with `./` is joined with the directory of the importing module, whose path
comes back from the hash cache. One that begins with `../` is relative too, but it begins neither
with `./` nor with `/`, so it is taken for a bare name: it goes through the search paths, and is
made absolute against the working directory of the process.

Paths are compared by their components. For a `./` specifier every path tried is the join of the
directory and the specifier, as it stands or with one of the endings the search adds, and the
working directory plays no part. For a `../` specifier both fail, whatever the file system.
-/

namespace SlimTS

/-- The module is looked for only under the path that joins the directory and the specifier, and
the path found is one of those tried. -/
def LooksOnlyUnder (directory specifierString : Str) (resolve : Probing Resolution) : Prop :=
  (∀ p ∈ resolve.probed, ∃ suffix ∈ searchSuffixes,
    Path.components p = Path.components (directory ++ '/' :: (specifierString ++ suffix))) ∧
  ∀ resolution, resolve.result = .ok resolution → resolution.moduleFileFound = true →
    resolution.specifierPath ∈ resolve.probed

/-- The resolution of an import, by the process that runs in the working directory. -/
def resolveImportIn (identityHash : ModuleId → ℤ) (env : Environment) (s : ResolverState)
    (referrer : ModuleId) (specifierString currentPath : Str) : Probing Resolution :=
  Environment.resolve { env with currentPath := currentPath }
    (some (s.referrerPath identityHash referrer)) specifierString

/-- In every working directory the module is looked for only under the join, and the outcome is the
same in all of them. -/
def ResolvesAgainst (directory specifierString : Str) (resolve : Str → Probing Resolution) :
    Prop :=
  ∀ currentPath, currentPath.head? = some '/' →
    LooksOnlyUnder directory specifierString (resolve currentPath) ∧
      ∀ currentPath', currentPath'.head? = some '/' → resolve currentPath' = resolve currentPath

/-! ## The two kinds of relative specifier -/

section Branches

open Environment

variable {identityHash : ModuleId → ℤ} {env : Environment} {s : ResolverState}
  {referrer : ModuleId} {directory f r currentPath : Str}

/-- A `./` specifier is searched at the join of the referrer's directory and the specifier. -/
theorem resolveImportIn_dot
    (hpath : s.referrerPath identityHash referrer = directory ++ '/' :: f)
    (hdirectory : directory = [] ∨ directory.head? = some '/') :
    resolveImportIn identityHash env s referrer ("./".toList ++ r) currentPath =
      (env.search (Path.parentPath (directory ++ '/' :: f) ++ '/' :: r) >>= fun found ↦
        return settle (Path.parentPath (directory ++ '/' :: f) ++ '/' :: r) ("./".toList ++ r)
          found) := by
  have hhead : (Path.parentPath (directory ++ '/' :: f) ++ '/' :: r).head? = some '/' := by
    have hparent : (Path.parentPath (directory ++ '/' :: f)).head? = some '/' := by
      refine Path.parentPath_head ?_
      rcases hdirectory with rfl | hdirectory
      · rfl
      · rw [List.head?_append, hdirectory, Option.some_or]
    rw [List.head?_append, hparent, Option.some_or]
  have habsolute : Environment.absolute { env with currentPath := currentPath }
      (Path.parentPath (directory ++ '/' :: f) ++ '/' :: r)
        = .ok (Path.parentPath (directory ++ '/' :: f) ++ '/' :: r) :=
    absolute_eq_ok (Path.absolute_of_head hhead)
  have hstarts : "./".toList.isPrefixOf ("./".toList ++ r) = true := by simp
  have hdrop : ("./".toList ++ r).drop 2 = r := rfl
  rw [resolveImportIn, hpath, resolve, hstarts, Bool.not_true, Bool.false_and,
    if_neg Bool.false_ne_true, relativePath, if_pos hstarts, hdrop, habsolute,
    ← search_currentPath currentPath]
  rfl

/-- A `../` specifier is searched at its join with the working directory. -/
theorem resolveImportIn_dotdot (identityHash : ModuleId → ℤ) (env : Environment)
    (s : ResolverState) (referrer : ModuleId) (r : Str) (hcurrent : currentPath.head? = some '/') :
    ∃ parent, Path.components parent = Path.components currentPath ∧
      ∀ p ∈ (env.search (parent ++ '/' :: ("../".toList ++ r))).probed,
        p ∈ (resolveImportIn identityHash env s referrer ("../".toList ++ r)
          currentPath).probed := by
  obtain ⟨parent, habsolute, hparent⟩ :=
    Path.absolute_relative hcurrent (p := "../".toList ++ r) (by simp) (by simp)
  have hbranch : (!"./".toList.isPrefixOf ("../".toList ++ r) &&
      !"/".toList.isPrefixOf ("../".toList ++ r)) = true := rfl
  have hjoin : Environment.absolute { env with currentPath := currentPath }
      ("".toList ++ ("../".toList ++ r)) = .ok (parent ++ '/' :: ("../".toList ++ r)) :=
    absolute_eq_ok habsolute
  refine ⟨parent, hparent, fun p hp ↦ ?_⟩
  rw [resolveImportIn, resolve, if_pos hbranch, searchPaths, trySearchPaths_cons, hjoin,
    Probing.lift_ok_bind]
  refine Probing.mem_bind_probed (Probing.mem_bind_probed ?_)
  rwa [search_currentPath]

/-! ## The dichotomy -/

/-- `./` specifiers resolve against the importing module. -/
theorem resolvesAgainst_dot (hpath : s.referrerPath identityHash referrer = directory ++ '/' :: f)
    (hdirectory : directory = [] ∨ directory.head? = some '/') (hf : f ≠ []) (hslash : '/' ∉ f) :
    ResolvesAgainst directory ("./".toList ++ r)
      (resolveImportIn identityHash env s referrer ("./".toList ++ r)) := by
  intro currentPath _
  rw [resolveImportIn_dot hpath hdirectory]
  refine ⟨?_, fun currentPath' _ ↦ resolveImportIn_dot hpath hdirectory⟩
  obtain ⟨hprobed, hfound⟩ :=
    env.search_spec (Path.parentPath (directory ++ '/' :: f) ++ '/' :: r)
  refine ⟨fun p hp ↦ ?_, fun resolution hresolution hfile ↦ ?_⟩
  swap
  · obtain ⟨found, hsearch, hsettle, happend⟩ := Probing.bind_eq_ok hresolution
    cases hsettle
    rw [happend]
    exact List.mem_append_left _ (hfound _ (hsearch.trans (congrArg _ (settle_found hfile))))
  have hp := (Probing.mem_probed_bind hp).resolve_right fun ⟨_, _, hp⟩ ↦ absurd hp List.not_mem_nil
  obtain ⟨suffix, hsuffix, rfl⟩ := hprobed p hp
  refine ⟨suffix, hsuffix, ?_⟩
  calc Path.components (Path.parentPath (directory ++ '/' :: f) ++ '/' :: r ++ suffix)
      = Path.components (Path.parentPath (directory ++ '/' :: f)) ++
          Path.components (r ++ suffix) := by
        rw [List.append_assoc, List.cons_append, Path.components_append_slash]
    _ = Path.components directory ++ Path.components (".".toList ++ '/' :: (r ++ suffix)) := by
        rw [Path.components_parentPath hf hslash, Path.components_append_slash ".".toList,
          show Path.components ".".toList = [] by decide, List.nil_append]
    _ = Path.components (directory ++ '/' :: ("./".toList ++ r ++ suffix)) := by
        rw [← Path.components_append_slash]
        rfl

private theorem components_dotdot (q : Str) :
    Path.components ("../".toList ++ q) = "..".toList :: Path.components q :=
  Path.components_append_slash "..".toList q

/-- `../` specifiers do not: from a directory inside the importing module's, they lead elsewhere. -/
theorem not_resolvesAgainst_dotdot (hdirectory : directory = [] ∨ directory.head? = some '/') :
    ¬ ResolvesAgainst directory ("../".toList ++ r)
      (resolveImportIn identityHash env s referrer ("../".toList ++ r)) := by
  intro h
  have hinside : (directory ++ '/' :: "x".toList).head? = some '/' := by
    rcases hdirectory with rfl | hdirectory
    · rfl
    · rw [List.head?_append, hdirectory, Option.some_or]
  obtain ⟨parent, hparent, hprobed⟩ :=
    resolveImportIn_dotdot identityHash env s referrer r hinside
  obtain ⟨p, hp⟩ := List.exists_mem_of_ne_nil _
    (env.probed_search_ne_nil (parent ++ '/' :: ("../".toList ++ r)))
  obtain ⟨suffix, -, hjoin⟩ := (h _ hinside).1.1 p (hprobed p hp)
  obtain ⟨suffix', -, rfl⟩ := (env.search_spec _).1 p hp
  -- Past the directory, the one path goes on with `x`, the other with `..`.
  have hleft : Path.components (parent ++ '/' :: ("../".toList ++ r) ++ suffix')
      = Path.components directory
        ++ "x".toList :: "..".toList :: Path.components (r ++ suffix') := by
    rw [List.append_assoc, List.cons_append, Path.components_append_slash, hparent,
      Path.components_append_slash, List.append_assoc "../".toList, components_dotdot,
      List.append_assoc]
    rfl
  have hright : Path.components (directory ++ '/' :: ("../".toList ++ r ++ suffix))
      = Path.components directory ++ "..".toList :: Path.components (r ++ suffix) := by
    rw [Path.components_append_slash, List.append_assoc, components_dotdot]
  rw [hleft, hright, List.append_cancel_left_eq, List.cons.injEq] at hjoin
  exact absurd hjoin.1 (by decide)

/-- **Relative imports.** An import of a relative specifier from the module at `directory/f` looks
only under the join of the two, in every working directory alike, if and only if the specifier
begins with `./`. -/
theorem resolvesAgainst_iff {specifierString : Str}
    (hpath : s.referrerPath identityHash referrer = directory ++ '/' :: f)
    (hdirectory : directory = [] ∨ directory.head? = some '/') (hf : f ≠ []) (hslash : '/' ∉ f)
    (hrelative : "./".toList <+: specifierString ∨ "../".toList <+: specifierString) :
    ResolvesAgainst directory specifierString
        (resolveImportIn identityHash env s referrer specifierString) ↔
      "./".toList <+: specifierString := by
  constructor
  · intro h
    rcases hrelative with hdot | ⟨r, rfl⟩
    · exact hdot
    · exact absurd h (not_resolvesAgainst_dotdot hdirectory)
  · rintro ⟨r, rfl⟩
    exact resolvesAgainst_dot hpath hdirectory hf hslash

end Branches

/-- `/app/lib/main.mjs` is imported, and no other module. -/
def mainState : ResolverState :=
  (ResolverState.start (Store.start fun _ ↦ ∅)).cacheImportSpecifier (fun m ↦ m)
    { specifierString := "/app/lib/main.mjs".toList
      specifierPath := "/app/lib/main.mjs".toList
      v8Module := 0
      hasModule := true }

theorem resolvesAgainst_iff_mainState :
    ResolvesAgainst "/app/lib".toList "./util.mjs".toList
        (resolveImportIn (fun m ↦ m) (.plain [] (fun _ ↦ none) fun _ ↦ []) mainState 0
          "./util.mjs".toList) ↔
      "./".toList <+: "./util.mjs".toList :=
  resolvesAgainst_iff (f := "main.mjs".toList) (by decide) (by decide) (by decide) (by decide)
    (by decide)

/-- `/app/lib/main.mjs` imports `../util.mjs`, but not the one in `/app`. -/
theorem parent_import_leaves_referrer :
    ¬ ∀ (identityHash : ModuleId → ℤ) (env : Environment) (s : ResolverState)
      (referrer : ModuleId) (directory f specifierString : Str),
      s.referrerPath identityHash referrer = directory ++ '/' :: f →
      (directory = [] ∨ directory.head? = some '/') → f ≠ [] → '/' ∉ f →
      ("./".toList <+: specifierString ∨ "../".toList <+: specifierString) →
      ResolvesAgainst directory specifierString
        (resolveImportIn identityHash env s referrer specifierString) := by
  intro h
  have hmain := h (fun m ↦ m) (.plain [] (fun _ ↦ none) fun _ ↦ []) mainState 0 "/app/lib".toList
    "main.mjs".toList "../util.mjs".toList (by decide) (by decide) (by decide) (by decide)
    (by decide)
  obtain ⟨suffix, hsuffix, hpath⟩ := (hmain "/home/user".toList rfl).1.1
    "/home/user/../util.mjs".toList (by decide)
  revert suffix
  decide

end SlimTS
