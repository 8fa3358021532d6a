import SlimTS.Module.FailedResolution

/-!
# Absolute specifiers

A specifier that begins with `/` is a path of its own, so it should not matter who imports it. An
entry script is looked for at its path; but when there is a referrer, only specifiers that begin
with `./` are made a path, and for the others the search is made at the empty path. What it looks
for there are files with nothing but an extension for a name, in the working directory, and the
index files of the root directory. The two searches have candidates in common for `/index` and the
index files only.

When the search at the empty path finds nothing, the constructor opens the specifier as it stands,
under an empty url. So a specifier that names its file in full leads to the same file all the same.
-/

namespace SlimTS

/-- Where the constructor gets its source from. -/
inductive Destination
  /-- From a file the search has found. -/
  | found (path : Str)
  /-- The search has found nothing, and the specifier is opened as it stands. -/
  | asItStands
  /-- From nowhere: it throws. -/
  | fails
deriving DecidableEq, Repr

/-- The file that is opened. -/
def Destination.file (specifierString : Str) : Destination → Option Str
  | .found path => some (localName path)
  | .asItStands => some (localName specifierString)
  | .fails => none

namespace Environment

variable {env : Environment} {referrerPath specifierString path p : Str}

/-- The destination of a specifier: `resolve_module_path` and `fetch_source`. -/
def destination (env : Environment) (referrerPath : Option Str) (specifierString : Str) :
    Destination :=
  match env.resolveModulePath referrerPath specifierString with
  | .error _ => .fails
  | .ok resolution =>
    if env.readFile (localName resolution.specifierString) = none then .fails
    else if resolution.moduleFileFound then .found resolution.specifierPath
    else .asItStands

/-- The specifier is resolved to the same file from a module and as an entry script, or to none by
both, or fails alike. -/
def ResolvesAlike (env : Environment) (referrerPath specifierString : Str) : Prop :=
  env.destination (some referrerPath) specifierString = env.destination none specifierString

/-- The same file is opened from a module and as an entry script, or none. -/
def OpensAlike (env : Environment) (referrerPath specifierString : Str) : Prop :=
  (env.destination (some referrerPath) specifierString).file specifierString
    = (env.destination none specifierString).file specifierString

/-- An index file of the root directory. -/
def rootIndex (e : Str) : Str := "/index".toList ++ e

/-- The file exists, and none that the search at the path prefers to it does. -/
def Wins (env : Environment) (path p : Str) : Prop :=
  env.fileExists p = true ∧
    ∀ q ∈ (env.preference path).takeWhile (· ≠ p), env.fileExists q = false

/-- A search at the path leads to the file. -/
def Takes (env : Environment) (path p : Str) : Prop :=
  ¬env.Throws path ∧ env.Wins path p ∧ env.readFile (localName p) ≠ none

/-- A search at the path finds nothing, and the specifier can be opened as it stands. -/
def Passes (env : Environment) (path specifierString : Str) : Prop :=
  ¬env.Throws path ∧ (∀ p ∈ candidates path, env.fileExists p = false) ∧
    env.readFile (localName specifierString) ≠ none

/-- A search at the path is stopped, or what it leads to cannot be opened. -/
def Stops (env : Environment) (path specifierString : Str) : Prop :=
  env.Throws path ∨
    (∃ p ∈ candidates path, env.Wins path p ∧ env.readFile (localName p) = none) ∨
    (∀ p ∈ candidates path, env.fileExists p = false) ∧
      env.readFile (localName specifierString) = none

/-- When the search at the empty path may stand for the one at the specifier: both lead nowhere, or
to the specifier as it stands, or the specifier names an index file of the root directory and both
take it. -/
def EmptyPathServes (env : Environment) (specifierString : Str) : Prop :=
  (env.Stops specifierString specifierString ∧ env.Stops [] specifierString) ∨
    (env.Passes specifierString specifierString ∧ env.Passes [] specifierString) ∨
    ∃ e ∈ fileExtensions, (specifierString = "/index".toList ∨ specifierString = rootIndex e) ∧
      env.Takes specifierString (rootIndex e) ∧ env.Takes [] (rootIndex e)

/-- The specifier names its file in full, and the search at the empty path does not get in the
way. -/
def NamedInFull (env : Environment) (specifierString : Str) : Prop :=
  Path.hasExtension specifierString = true ∧ env.Takes specifierString specifierString ∧
    env.Passes [] specifierString

/-! ## The winner of a search -/

theorem find_preference_eq_some_iff : (env.preference path).find? env.fileExists = some p ↔
    p ∈ candidates path ∧ env.Wins path p := by
  rw [← @mem_preference env path p, Wins]
  induction env.preference path with
  | nil => simp
  | cons q rest ih =>
    by_cases hq : q = p
    · subst hq
      by_cases hexists : env.fileExists q = true
      · simp [hexists]
      · rw [List.find?_cons_of_neg hexists]
        refine ⟨fun h ↦ absurd (List.find?_some h) hexists, fun h ↦ absurd h.2.1 hexists⟩
    · by_cases hexists : env.fileExists q = true
      · rw [List.find?_cons_of_pos hexists, Option.some_inj]
        refine ⟨fun h ↦ absurd h hq, fun h ↦ ?_⟩
        have hfalse := h.2.2 q (by simp [hq])
        exact absurd (hfalse.symm.trans hexists) Bool.false_ne_true
      · rw [List.find?_cons_of_neg hexists, ih, List.mem_cons, List.takeWhile_cons,
          if_pos (by simpa using hq), List.forall_mem_cons]
        simp [Ne.symm hq, Bool.eq_false_iff.mpr hexists]

theorem find_preference_eq_none_iff : (env.preference path).find? env.fileExists = none ↔
    ∀ p ∈ candidates path, env.fileExists p = false := by
  rw [List.find?_eq_none]
  exact ⟨fun h p hp ↦ Bool.eq_false_iff.mpr (h p (mem_preference.mpr hp)),
    fun h p hp ↦ Bool.eq_false_iff.mp (h p (mem_preference.mp hp))⟩

/-! ## Destinations -/

variable {referrer : Option Str}

theorem destination_of_ok {resolution : Resolution}
    (hresolve : env.resolveModulePath referrer specifierString = .ok resolution) :
    env.destination referrer specifierString =
      if env.readFile (localName resolution.specifierString) = none then .fails
      else if resolution.moduleFileFound then .found resolution.specifierPath else .asItStands := by
  rw [destination, hresolve]

/-- The three destinations, from the search at the path that is formed. -/
theorem destination_of_formPath (hpath : env.formPath referrer specifierString = .ok path) :
    (env.destination referrer specifierString = .fails ↔ env.Stops path specifierString) ∧
    (env.destination referrer specifierString = .asItStands ↔ env.Passes path specifierString) ∧
    ∀ p, env.destination referrer specifierString = .found p ↔
      p ∈ candidates path ∧ env.Takes path p := by
  simp only [Stops, Passes, Takes]
  rcases env.resolveModulePath_of_formPath hpath with
    ⟨hthrows, hresolve⟩ | ⟨hfree, before, hresolve⟩
  · have hdestination : env.destination referrer specifierString = .fails := by
      rw [destination, hresolve]
    rw [hdestination]
    simp [hthrows]
  · have hdestination := destination_of_ok hresolve
    cases hfound : (env.preference path).find? env.fileExists with
    | none =>
      -- No candidate exists, so none wins.
      have hnone := find_preference_eq_none_iff.mp hfound
      have hloses : ∀ p ∈ candidates path, ¬env.Wins path p := fun p hp h ↦
        absurd ((hnone p hp).symm.trans h.1) Bool.false_ne_true
      rw [hfound, settle] at hdestination
      by_cases hread : env.readFile (localName specifierString) = none
      · rw [if_pos hread] at hdestination
        grind
      · rw [if_neg hread, if_neg Bool.false_ne_true] at hdestination
        grind
    | some q =>
      obtain ⟨hq, hwins⟩ := find_preference_eq_some_iff.mp hfound
      have honly : ∀ p, p ∈ candidates path ∧ env.Wins path p → p = q := fun p h ↦
        (Option.some_inj.mp (hfound.symm.trans (find_preference_eq_some_iff.mpr h))).symm
      have hexists : ¬∀ p ∈ candidates path, env.fileExists p = false := fun h ↦
        absurd ((h q hq).symm.trans hwins.1) Bool.false_ne_true
      rw [hfound, settle] at hdestination
      by_cases hread : env.readFile (localName q) = none
      · rw [if_pos hread] at hdestination
        grind
      · rw [if_neg hread, if_pos rfl] at hdestination
        grind

/-- Resolution fails with an exception of `std::filesystem` only. -/
theorem fault_of_resolveModulePath {fault : Fault}
    (h : env.resolveModulePath referrer specifierString = .error fault) :
    fault = .filesystemError := by
  rcases env.formPath_spec referrer specifierString with ⟨path, hpath⟩ | ⟨-, hresolve⟩
  · rcases env.resolveModulePath_of_formPath hpath with ⟨-, hresolve⟩ | ⟨-, before, hresolve⟩
    · exact Except.error.inj (h.symm.trans hresolve)
    · exact absurd (h.symm.trans hresolve) (by simp)
  · exact Except.error.inj (h.symm.trans hresolve)

/-- Where there is no destination, the constructor throws. -/
theorem construct_of_fails (h : env.destination referrer specifierString = .fails)
    (store : Store) (isEntryPoint : Bool) :
    ∃ fault, fault.Caught ∧
      env.construct store (.name specifierString) isEntryPoint referrer = .error fault := by
  rw [destination] at h
  rw [construct]
  cases hresolve : env.resolveModulePath referrer specifierString with
  | error fault =>
    rw [fault_of_resolveModulePath hresolve]
    exact ⟨.filesystemError, trivial, rfl⟩
  | ok resolution =>
    rw [hresolve] at h
    dsimp only at h
    have hread : env.readFile (localName resolution.specifierString) = none := by
      by_contra hread
      rw [if_neg hread] at h
      split at h <;> exact absurd h (by simp)
    rw [ok_bind, fetchSource_of_none hread]
    exact ⟨.slimFileException resolution.specifierString, trivial, rfl⟩

/-- Where there is one, what the constructor reads is the file there. -/
theorem file_of_construct {store : Store} {isEntryPoint : Bool} {constructed : Constructed}
    (h : env.construct store (.name specifierString) isEntryPoint referrer = .ok constructed) :
    (env.destination referrer specifierString).file specifierString
      = some (localName constructed.specifier.specifierString) := by
  rw [construct] at h
  obtain ⟨resolution, hresolve, h⟩ := bind_eq_ok h
  obtain ⟨text, hfetch, h⟩ := bind_eq_ok h
  obtain ⟨transpiled, -, h⟩ := bind_eq_ok h
  obtain rfl := Except.ok.inj h
  have hread : env.readFile (localName resolution.specifierString) ≠ none := fun hread ↦
    absurd (hfetch.symm.trans (fetchSource_of_none hread)) (by simp)
  rw [destination_of_ok hresolve, if_neg hread]
  obtain ⟨before, found, rfl, -⟩ := env.resolveModulePath_eq_settle hresolve
  cases found <;> rfl

/-! ## The common candidates -/

private theorem extension_suffix : ∀ e ∈ fileExtensions, ∀ e' ∈ fileExtensions,
    (e <:+ e' → e = e') ∧ e.head? = some '.' ∧ Path.hasExtension e = false ∧
      Path.hasExtension (rootIndex e) = true := by
  decide

/-- No extension ends in another. -/
private theorem extension_eq_of_append_eq {e e' : Str} (he : e ∈ fileExtensions)
    (he' : e' ∈ fileExtensions) {s s' : Str} (h : s ++ e = s' ++ e') : e = e' ∧ s = s' := by
  obtain rfl : e = e' := by
    have hsuffix : e <:+ s' ++ e' := h ▸ List.suffix_append s e
    rcases List.suffix_or_suffix_of_suffix hsuffix (List.suffix_append s' e') with h | h
    · exact (extension_suffix e he e' he').1 h
    · exact ((extension_suffix e' he' e he).1 h).symm
  exact ⟨rfl, List.append_cancel_right h⟩

/-- An index file of the root directory is looked for at the empty path. -/
theorem rootIndex_mem_candidates {e : Str} (he : e ∈ fileExtensions) :
    rootIndex e ∈ candidates [] :=
  (mem_candidates rfl).mpr ⟨e, he, .inr rfl⟩

/-- It is looked for at `/index` too, and at its own path. -/
theorem rootIndex_mem_candidates_of_eq {e : Str} (he : e ∈ fileExtensions)
    (hspecifier : specifierString = "/index".toList ∨ specifierString = rootIndex e) :
    rootIndex e ∈ candidates specifierString := by
  rcases hspecifier with rfl | rfl
  · exact (mem_candidates (by decide)).mpr ⟨e, he, .inl rfl⟩
  · rw [candidates, (extension_suffix e he e he).2.2.2, if_pos rfl]
    exact List.mem_singleton_self _

/-- All candidates of an absolute specifier are absolute. -/
theorem head_of_mem_candidates (habsolute : specifierString.head? = some '/')
    (hp : p ∈ candidates specifierString) : p.head? = some '/' := by
  obtain ⟨rest, rfl⟩ := List.head?_eq_some_iff.mp habsolute
  rw [candidates] at hp
  split at hp
  · rw [List.mem_singleton.mp hp]
    rfl
  · simp only [List.mem_flatMap, List.mem_cons, List.not_mem_nil, or_false] at hp
    obtain ⟨e, -, rfl | rfl⟩ := hp <;> rfl

/-- A path without an extension is no candidate of its own. -/
theorem hasExtension_of_mem_candidates (hp : p ∈ candidates p) : Path.hasExtension p = true := by
  by_contra hext
  obtain ⟨e, he, hpe⟩ := (mem_candidates (Bool.not_eq_true _ ▸ hext)).mp hp
  have hlength : 0 < e.length := by
    have hhead := (extension_suffix e he e he).2.1
    exact List.length_pos_of_ne_nil fun hnil ↦ absurd (hnil ▸ hhead) (by simp)
  rcases hpe with hpe | hpe
  · have := congrArg List.length hpe
    rw [List.length_append] at this
    omega
  · have := congrArg List.length hpe
    rw [List.length_append, List.length_append] at this
    omega

/-- A path that begins with a slash or a dot is opened as it is. -/
theorem localName_of_head {c : Char} (hhead : p.head? = some c) (hc : c ≠ 'f') :
    localName p = p := by
  obtain ⟨rest, rfl⟩ := List.head?_eq_some_iff.mp hhead
  have hscheme : "file://".toList.isPrefixOf (c :: rest) = false := by
    change (('f' == c) && "ile://".toList.isPrefixOf rest) = false
    rw [beq_eq_false_iff_ne.mpr hc.symm, Bool.false_and]
  rw [localName, hscheme, if_neg Bool.false_ne_true]

theorem localName_of_mem_candidates_nil (hp : p ∈ candidates []) : localName p = p := by
  obtain ⟨e, he, hpe⟩ := (mem_candidates (by rfl)).mp hp
  rcases hpe with hname | hindex
  · refine localName_of_head (c := '.') ?_ (by decide)
    rw [hname, List.nil_append, (extension_suffix e he e he).2.1]
  · refine localName_of_head (c := '/') ?_ (by decide)
    rw [hindex]
    rfl

/-- The absolute candidates at the empty path are the index files of the root directory. -/
theorem rootIndex_of_mem_candidates_nil (hhead : p.head? = some '/') (hempty : p ∈ candidates []) :
    ∃ e ∈ fileExtensions, p = rootIndex e := by
  obtain ⟨e, he, hpe⟩ := (mem_candidates (by rfl)).mp hempty
  refine ⟨e, he, hpe.resolve_left fun heq ↦ ?_⟩
  rw [heq, List.nil_append, (extension_suffix e he e he).2.1] at hhead
  exact absurd hhead (by decide)

/-- There are no other candidates that an absolute specifier has in common with the empty path. -/
theorem eq_rootIndex_of_mem_candidates (habsolute : specifierString.head? = some '/')
    (hp : p ∈ candidates specifierString) (hempty : p ∈ candidates []) :
    ∃ e ∈ fileExtensions, p = rootIndex e ∧
      (specifierString = "/index".toList ∨ specifierString = rootIndex e) := by
  obtain ⟨e, he, rfl⟩ :=
    rootIndex_of_mem_candidates_nil (head_of_mem_candidates habsolute hp) hempty
  refine ⟨e, he, rfl, ?_⟩
  by_cases hext : Path.hasExtension specifierString = true
  · rw [candidates, if_pos hext, List.mem_singleton] at hp
    exact .inr hp.symm
  · obtain ⟨e', he', hpe' | hpe'⟩ := (mem_candidates (Bool.not_eq_true _ ▸ hext)).mp hp
    · exact .inl (extension_eq_of_append_eq he he' hpe').2.symm
    · -- The specifier would be empty.
      have hlength := congrArg List.length (extension_eq_of_append_eq he he' hpe').2
      rw [List.length_append] at hlength
      obtain ⟨rest, rfl⟩ := List.head?_eq_some_iff.mp habsolute
      simp only [List.length_cons] at hlength
      omega

/-! ## From a module and as an entry script -/

/-- The paths formed for an absolute specifier. -/
theorem formPath_absolute (env : Environment) (referrerPath : Str)
    (habsolute : specifierString.head? = some '/') :
    env.formPath (some referrerPath) specifierString = .ok [] ∧
      env.formPath none specifierString = .ok specifierString := by
  obtain ⟨rest, rfl⟩ := List.head?_eq_some_iff.mp habsolute
  have hpath : env.absolute ('/' :: rest) = .ok ('/' :: rest) :=
    absolute_eq_ok (Path.absolute_of_head rfl)
  exact ⟨rfl, hpath⟩

/-- An absolute specifier is resolved alike exactly when the search at the empty path may stand for
the one at its path. -/
theorem resolvesAlike_iff_emptyPathServes (env : Environment) (referrerPath : Str)
    (habsolute : specifierString.head? = some '/') :
    env.ResolvesAlike referrerPath specifierString ↔ env.EmptyPathServes specifierString := by
  obtain ⟨hmodule, hentry⟩ := env.formPath_absolute referrerPath habsolute
  obtain ⟨hfails, hpasses, hfound⟩ := destination_of_formPath hmodule
  obtain ⟨hfails', hpasses', hfound'⟩ := destination_of_formPath hentry
  rw [ResolvesAlike, EmptyPathServes]
  constructor
  · intro h
    cases hdestination : env.destination none specifierString with
    | fails => exact .inl ⟨hfails'.mp hdestination, hfails.mp (h.trans hdestination)⟩
    | asItStands =>
      exact .inr (.inl ⟨hpasses'.mp hdestination, hpasses.mp (h.trans hdestination)⟩)
    | found p =>
      obtain ⟨hp, htakes⟩ := (hfound' p).mp hdestination
      obtain ⟨hempty, htakes'⟩ := (hfound p).mp (h.trans hdestination)
      obtain ⟨e, he, rfl, hspecifier⟩ := eq_rootIndex_of_mem_candidates habsolute hp hempty
      exact .inr (.inr ⟨e, he, hspecifier, htakes, htakes'⟩)
  · rintro (⟨hstops, hstops'⟩ | ⟨hpass, hpass'⟩ | ⟨e, he, hspecifier, htakes, htakes'⟩)
    · rw [hfails.mpr hstops', hfails'.mpr hstops]
    · rw [hpasses.mpr hpass', hpasses'.mpr hpass]
    · rw [(hfound _).mpr ⟨rootIndex_mem_candidates he, htakes'⟩,
        (hfound' _).mpr ⟨rootIndex_mem_candidates_of_eq he hspecifier, htakes⟩]

/-- The same file is opened without being the one the searches have found only if the specifier
names it in full. -/
theorem opensAlike_iff_emptyPathServes (env : Environment) (referrerPath : Str)
    (habsolute : specifierString.head? = some '/') :
    env.OpensAlike referrerPath specifierString ↔
      env.EmptyPathServes specifierString ∨ env.NamedInFull specifierString := by
  have halike := env.resolvesAlike_iff_emptyPathServes referrerPath habsolute
  obtain ⟨hmodule, hentry⟩ := env.formPath_absolute referrerPath habsolute
  obtain ⟨-, hpasses, hfound⟩ := destination_of_formPath hmodule
  obtain ⟨-, hpasses', hfound'⟩ := destination_of_formPath hentry
  have hlocal : localName specifierString = specifierString :=
    localName_of_head habsolute (by decide)
  rw [← halike, ResolvesAlike, OpensAlike]
  constructor
  · intro h
    cases hd : env.destination (some referrerPath) specifierString with
    | fails =>
      cases hd' : env.destination none specifierString <;> rw [hd, hd'] at h <;>
        first | exact .inl rfl | exact absurd h (by simp [Destination.file])
    | asItStands =>
      cases hd' : env.destination none specifierString with
      | fails =>
        rw [hd, hd'] at h
        exact absurd h (by simp [Destination.file])
      | asItStands => exact .inl rfl
      | found p =>
        -- The entry script has found the specifier itself.
        obtain ⟨hp, htakes⟩ := (hfound' p).mp hd'
        rw [hd, hd', Destination.file, Destination.file, hlocal,
          localName_of_head (head_of_mem_candidates habsolute hp) (by decide),
          Option.some_inj] at h
        subst h
        exact .inr ⟨hasExtension_of_mem_candidates hp, htakes, hpasses.mp hd⟩
    | found q =>
      obtain ⟨hq, htakes⟩ := (hfound q).mp hd
      have hlocal' := localName_of_mem_candidates_nil hq
      cases hd' : env.destination none specifierString with
      | fails =>
        rw [hd, hd'] at h
        exact absurd h (by simp [Destination.file])
      | asItStands =>
        -- The specifier would be an index file that exists, and be found there.
        rw [hd, hd', Destination.file, Destination.file, hlocal, hlocal', Option.some_inj] at h
        subst h
        obtain ⟨e, he, rfl⟩ := rootIndex_of_mem_candidates_nil habsolute hq
        have hnone := (hpasses'.mp hd').2.1 _ (rootIndex_mem_candidates_of_eq he (.inr rfl))
        exact absurd (hnone.symm.trans htakes.2.1.1) Bool.false_ne_true
      | found p =>
        obtain ⟨hp, -⟩ := (hfound' p).mp hd'
        rw [hd, hd', Destination.file, Destination.file, hlocal',
          localName_of_head (head_of_mem_candidates habsolute hp) (by decide)] at h
        exact .inl (congrArg _ (Option.some_inj.mp h))
  · rintro (h | ⟨hext, htakes, hpass⟩)
    · rw [h]
    · have hp : specifierString ∈ candidates specifierString := by
        rw [candidates, if_pos hext]
        exact List.mem_singleton_self _
      rw [hpasses.mpr hpass, (hfound' _).mpr ⟨hp, htakes⟩]
      rfl

/-- **An absolute specifier** leads to the same file from a module as it does as an entry script, or
nowhere from both, exactly when the search at the empty path may stand for the one at its path, or
the specifier names its file in full; in the second case it is opened without having been found. -/
theorem resolvesAlike_iff (env : Environment) (referrerPath : Str)
    (habsolute : specifierString.head? = some '/') :
    (env.OpensAlike referrerPath specifierString ↔
      env.EmptyPathServes specifierString ∨ env.NamedInFull specifierString) ∧
    (env.ResolvesAlike referrerPath specifierString ↔ env.EmptyPathServes specifierString) :=
  ⟨env.opensAlike_iff_emptyPathServes referrerPath habsolute,
    env.resolvesAlike_iff_emptyPathServes referrerPath habsolute⟩

/-- One module in a library. -/
def library : Environment :=
  .plain "/home".toList (fun p ↦ if p = "/lib/util.js".toList then some [] else none) fun _ ↦ []

/-- Named in full it is opened by both; as the directory of another module it is missing to both. -/
theorem resolvesAlike_iff_library :
    library.OpensAlike "/home/main.ts".toList "/lib/util.js".toList ∧
      library.ResolvesAlike "/home/main.ts".toList "/lib/other".toList :=
  ⟨(resolvesAlike_iff library "/home/main.ts".toList (by rfl)).1.mpr
      (.inr ⟨by decide, ⟨by decide, by unfold Wins; decide, by decide⟩, by decide, by decide,
        by decide⟩),
    (resolvesAlike_iff library "/home/main.ts".toList (by rfl)).2.mpr
      (.inl ⟨.inr (.inr ⟨by decide, by decide⟩), .inr (.inr ⟨by decide, by decide⟩)⟩)⟩

/-- Named without its extension it is found from the command line, and not from a module. -/
theorem resolvesAlike_utilFile : ¬ ∀ (env : Environment) (referrerPath specifierString : Str),
    specifierString.head? = some '/' → env.OpensAlike referrerPath specifierString := by
  intro h
  have halike := h library "/home/main.ts".toList "/lib/util".toList rfl
  have hmodule : library.destination (some "/home/main.ts".toList) "/lib/util".toList = .fails := by
    rfl
  have hentry : library.destination none "/lib/util".toList = .found "/lib/util.js".toList := by rfl
  rw [OpensAlike, hmodule, hentry] at halike
  exact absurd halike (by simp [Destination.file])

end Environment

end SlimTS
