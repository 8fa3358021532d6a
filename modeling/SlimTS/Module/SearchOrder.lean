import SlimTS.Module.SearchCompleteness

/-!
# Which candidate the search takes

When several candidates for a module exist, one of them is taken. The loop over the names ends at
the first file there is, but the `break` leaves only that loop: the loop over the extensions goes
on, and each later find replaces the one before. So the search is a search for the first existing
file in an order of preference that begins with the last extension, and that has the two names of
each extension in the order in which the hash set happens to visit them.

With two candidates the choice is therefore never what the table of extensions says: either a later
extension wins, or the two names have the same extension and the hash set decides.
-/

namespace SlimTS

namespace Environment

/-- The file `resolve_module_path` chooses, if it finds one. -/
def choice (env : Environment) (referrerPath : Option Str) (specifierString : Str) : Option Str :=
  match env.resolveModulePath referrerPath specifierString with
  | .error _ => none
  | .ok resolution => if resolution.moduleFileFound then some resolution.specifierPath else none

/-- One of the two candidates with the extension exists. -/
def ExistsWith (env : Environment) (path e : Str) : Prop :=
  env.fileExists (path ++ e) = true ∨ env.fileExists (path ++ "/index".toList ++ e) = true

variable {env : Environment} {referrerPath : Option Str} {specifierString path : Str}

/-! ## The choice -/

/-- Both branches of `resolve_module_path` choose the file that the search prefers at the path they
form, if the search is not stopped. -/
theorem choice_of_formPath (hpath : env.formPath referrerPath specifierString = .ok path) :
    env.Throws path ∧ env.choice referrerPath specifierString = none ∨
      ¬env.Throws path ∧ env.choice referrerPath specifierString
        = (env.preference path).find? env.fileExists := by
  rw [choice]
  rcases env.resolveModulePath_of_formPath hpath with
    ⟨hthrows, hresolve⟩ | ⟨hfree, before, hresolve⟩
  · rw [hresolve]
    exact .inl ⟨hthrows, rfl⟩
  · rw [hresolve]
    refine .inr ⟨hfree, ?_⟩
    cases (env.preference path).find? env.fileExists <;> rfl

theorem choice_of_throws (hpath : env.formPath referrerPath specifierString = .ok path)
    (hthrows : env.Throws path) : env.choice referrerPath specifierString = none :=
  ((choice_of_formPath hpath).resolve_right fun h ↦ h.1 hthrows).2

/-- A choice is made by the preference. -/
theorem find?_of_choice (hpath : env.formPath referrerPath specifierString = .ok path) {p : Str}
    (h : env.choice referrerPath specifierString = some p) :
    (env.preference path).find? env.fileExists = some p := by
  rcases choice_of_formPath hpath with ⟨-, hnone⟩ | ⟨-, hfind⟩
  · exact absurd (hnone.symm.trans h) (by simp)
  · exact hfind.symm.trans h

theorem finds_choice (hpath : env.formPath referrerPath specifierString = .ok path)
    (hfree : ¬env.Throws path) :
    env.Finds (candidates path) (env.choice referrerPath specifierString) := by
  rw [((choice_of_formPath hpath).resolve_left fun h ↦ hfree h.1).2]
  exact env.finds_preference path

theorem choice_eq_none (hpath : env.formPath referrerPath specifierString = .ok path)
    (hnone : ∀ p ∈ candidates path, env.fileExists p = false) :
    env.choice referrerPath specifierString = none := by
  rcases choice_of_formPath hpath with ⟨-, h⟩ | ⟨-, h⟩
  · exact h
  · rw [h, List.find?_eq_none]
    exact fun p hp ↦ Bool.eq_false_iff.mp (hnone p (mem_preference.mp hp))

/-! ## The extension of the choice -/

/-- The table has no extension twice, and no candidate belongs to two of its extensions. -/
private theorem fileExtensions_nodup : fileExtensions.Nodup := by decide

private theorem extension_ne : ∀ e ∈ fileExtensions, ∀ e' ∈ fileExtensions,
    e ≠ "/index".toList ++ e' := by
  decide

/-- The two candidates at a path with an extension. -/
def CandidateWith (path e p : Str) : Prop := p = path ++ e ∨ p = path ++ "/index".toList ++ e

theorem CandidateWith.extension_eq {e e' p : Str} (he : e ∈ fileExtensions)
    (he' : e' ∈ fileExtensions) (h : CandidateWith path e p) (h' : CandidateWith path e' p) :
    e = e' := by
  rcases h with rfl | rfl <;> rcases h' with h' | h'
  · exact List.append_cancel_left h'
  · rw [List.append_assoc] at h'
    exact absurd (List.append_cancel_left h') (extension_ne e he e' he')
  · rw [List.append_assoc] at h'
    exact absurd (List.append_cancel_left h').symm (extension_ne e' he' e he)
  · exact List.append_cancel_left h'

theorem mem_candidates (hext : Path.hasExtension path = false) {p : Str} :
    p ∈ candidates path ↔ ∃ e ∈ fileExtensions, CandidateWith path e p := by
  rw [candidates, hext, if_neg Bool.false_ne_true, List.mem_flatMap]
  simp only [CandidateWith, List.mem_cons, List.not_mem_nil, or_false]

theorem ExistsWith.of_candidate {e p : Str} (h : CandidateWith path e p)
    (hexists : env.fileExists p = true) : env.ExistsWith path e := by
  rcases h with rfl | rfl
  · exact .inl hexists
  · exact .inr hexists

theorem mem_possibleModuleNames_iff {name : Str} :
    name ∈ env.possibleModuleNames path ↔ name = path ∨ name = path ++ "/index".toList := by
  rw [possibleModuleNames]
  split <;> simp [or_comm]

theorem preference_of_not_hasExtension (hext : Path.hasExtension path = false) :
    env.preference path
      = fileExtensions.reverse.flatMap fun e ↦ (env.possibleModuleNames path).map (· ++ e) := by
  rw [preference, rounds, hext, if_neg Bool.false_ne_true, ← List.map_reverse, List.flatMap]

/-- The choice has the last extension among the candidates that exist. It is the first that exists
of its two names. -/
theorem latest_of_choice (hpath : env.formPath referrerPath specifierString = .ok path)
    (hext : Path.hasExtension path = false) {p : Str}
    (h : env.choice referrerPath specifierString = some p) :
    ∃ e ∈ fileExtensions, CandidateWith path e p ∧
      ((env.possibleModuleNames path).map (· ++ e)).find? env.fileExists = some p ∧
      ∀ e' ∈ fileExtensions, env.ExistsWith path e' →
        fileExtensions.idxOf e' ≤ fileExtensions.idxOf e := by
  replace h := find?_of_choice hpath h
  rw [preference_of_not_hasExtension hext, List.find?_flatMap, List.findSome?_eq_some_iff] at h
  obtain ⟨later, e, earlier, hsplit, hfind, hnone⟩ := h
  have htable : fileExtensions = earlier.reverse ++ e :: later.reverse := by
    rw [← List.reverse_reverse fileExtensions, hsplit, List.reverse_append, List.reverse_cons,
      List.append_assoc, List.singleton_append]
  have hmem : e ∈ fileExtensions := by
    rw [htable]
    exact List.mem_append_right _ List.mem_cons_self
  have hnotmem : e ∉ earlier.reverse := by
    have hnodup := fileExtensions_nodup
    rw [htable, List.nodup_append] at hnodup
    exact fun hbefore ↦ hnodup.2.2 e hbefore e List.mem_cons_self rfl
  have hindex : fileExtensions.idxOf e = earlier.reverse.length := by
    rw [htable, List.idxOf_append_of_notMem hnotmem, List.idxOf_cons_self, Nat.add_zero]
  refine ⟨e, hmem, ?_, hfind, fun e' he' hexists ↦ ?_⟩
  · obtain ⟨name, hname, rfl⟩ := List.mem_map.mp (List.mem_of_find?_eq_some hfind)
    rcases mem_possibleModuleNames_iff.mp hname with rfl | rfl
    · exact .inl rfl
    · exact .inr rfl
  · -- A later extension would have been found.
    have hlater : e' ∉ later := by
      intro hlater
      have hfalse := List.find?_eq_none.mp (hnone e' hlater)
      rcases hexists with hexists | hexists
      · exact hfalse _ (List.mem_map.mpr
          ⟨path, mem_possibleModuleNames_iff.mpr (.inl rfl), rfl⟩) hexists
      · exact hfalse _ (List.mem_map.mpr
          ⟨_, mem_possibleModuleNames_iff.mpr (.inr rfl), rfl⟩) hexists
    rw [hindex]
    rw [htable] at he' ⊢
    rcases List.mem_append.mp he' with hearlier | he'
    · rw [List.idxOf_append_of_mem hearlier]
      exact (List.idxOf_lt_length_iff.mpr hearlier).le
    · rcases List.mem_cons.mp he' with rfl | he'
      · rw [List.idxOf_append_of_notMem hnotmem, List.idxOf_cons_self, Nat.add_zero]
      · exact absurd (List.mem_reverse.mp he') hlater

/-! ## Choosing by the table -/

/-- The choice is made by the table of extensions. -/
structure ChoosesEarliest (env : Environment) (referrerPath : Option Str)
    (specifierString path : Str) : Prop where
  /-- It is a function of the candidates: in whatever order the hash set visits the names, and
  whichever branch forms the path. -/
  existence : ∀ (env' : Environment) (referrerPath' : Option Str) (specifierString' : Str),
    env'.formPath referrerPath' specifierString' = .ok path →
    (∀ p ∈ candidates path, env'.fileStatus p = env.fileStatus p) →
    env'.choice referrerPath' specifierString' = env.choice referrerPath specifierString
  /-- If a candidate exists, it has the earliest extension among those that do. -/
  earliest : (∃ p ∈ candidates path, env.fileExists p = true) →
    ∃ p, env.choice referrerPath specifierString = some p ∧
      ∃ e ∈ fileExtensions, CandidateWith path e p ∧
        ∀ e' ∈ fileExtensions, env.ExistsWith path e' →
          fileExtensions.idxOf e ≤ fileExtensions.idxOf e'

/-- No two of the candidates exist. -/
def Unrivalled (env : Environment) (path : Str) : Prop :=
  ∀ p ∈ candidates path, ∀ q ∈ candidates path,
    env.fileExists p = true → env.fileExists q = true → p = q

/-- No two of the candidates exist, and if one does, the status of none is unknown. -/
def Undisputed (env : Environment) (path : Str) : Prop :=
  env.Unrivalled path ∧ ((∃ p ∈ candidates path, env.fileExists p = true) →
    ∀ p ∈ candidates path, env.fileStatus p ≠ .unknown)

/-- What is found among unrivalled candidates depends on which exist. -/
theorem Unrivalled.found_eq (hone : env.Unrivalled path) {env' : Environment}
    (halike : ∀ p ∈ candidates path, env'.fileExists p = env.fileExists p)
    {found found' : Option Str} (h : env.Finds (candidates path) found)
    (h' : env'.Finds (candidates path) found') : found' = found := by
  cases found with
  | none =>
    cases found' with
    | none => rfl
    | some p =>
      have hexists := h'.2
      rw [halike p h'.1, h p h'.1] at hexists
      exact absurd hexists Bool.false_ne_true
  | some q =>
    cases found' with
    | none =>
      have hexists := h.2
      rw [← halike q h.1, h' q h.1] at hexists
      exact absurd hexists Bool.false_ne_true
    | some p => rw [hone p h'.1 q h.1 ((halike p h'.1).symm.trans h'.2) h.2]

/-- The same file system under a hash set that visits the names the other way round. -/
def flipped (env : Environment) : Environment :=
  { env with indexFirst := fun path ↦ !env.indexFirst path }

theorem formPath_flipped (hpath : env.formPath referrerPath specifierString = .ok path) :
    env.flipped.formPath referrerPath specifierString = .ok path := hpath

theorem blocked_flipped {paths : List Str} : env.flipped.Blocked paths ↔ env.Blocked paths := by
  induction paths with
  | nil => exact Iff.rfl
  | cons path paths ih => exact or_congr Iff.rfl (and_congr_right fun _ ↦ ih)

/-- With both names of an extension there, the first name is taken. -/
theorem find_names {e : Str} (hname : env.fileExists (path ++ e) = true)
    (hindex : env.fileExists (path ++ "/index".toList ++ e) = true) :
    ((env.possibleModuleNames path).map (· ++ e)).find? env.fileExists
      = some (if env.indexFirst path then path ++ "/index".toList ++ e else path ++ e) := by
  rw [possibleModuleNames]
  split
  · exact List.find?_cons_of_pos hindex
  · exact List.find?_cons_of_pos hname

/-- If the choice is made by the table, then the two names of its extension are not both there: the
flipped hash set would choose the other. -/
theorem ChoosesEarliest.not_both (h : ChoosesEarliest env referrerPath specifierString path)
    (hpath : env.formPath referrerPath specifierString = .ok path)
    (hext : Path.hasExtension path = false) {p e : Str}
    (hchoice : env.choice referrerPath specifierString = some p) (he : e ∈ fileExtensions)
    (hcandidate : CandidateWith path e p) :
    ¬ (env.fileExists (path ++ e) = true ∧
      env.fileExists (path ++ "/index".toList ++ e) = true) := by
  rintro ⟨hname, hindex⟩
  obtain ⟨e₁, he₁, hcandidate₁, hfind, -⟩ := latest_of_choice hpath hext hchoice
  obtain rfl := hcandidate₁.extension_eq he₁ he hcandidate
  -- The files are the same with the two names in the other order, and so would be the choice.
  have hflipped := h.existence env.flipped _ _ (formPath_flipped hpath) fun p _ ↦ rfl
  obtain ⟨e₂, he₂, hcandidate₂, hfind', -⟩ :=
    latest_of_choice (formPath_flipped hpath) hext (hflipped.trans hchoice)
  obtain rfl := hcandidate₂.extension_eq he₂ he hcandidate
  have hnames' : ((env.flipped.possibleModuleNames path).map (· ++ e₂)).find?
        env.flipped.fileExists
      = some (if env.flipped.indexFirst path then path ++ "/index".toList ++ e₂ else path ++ e₂) :=
    find_names hname hindex
  rw [find_names hname hindex, ← hfind', hnames', Option.some_inj] at hfind
  have hne : path ++ e₂ ≠ path ++ "/index".toList ++ e₂ := by
    rw [List.append_assoc]
    exact fun heq ↦ extension_ne e₂ he e₂ he (List.append_cancel_left heq)
  have hflip : env.flipped.indexFirst path = !env.indexFirst path := rfl
  by_cases hfirst : env.indexFirst path = true
  · rw [hflip, hfirst, if_pos rfl, Bool.not_true, if_neg Bool.false_ne_true] at hfind
    exact hne hfind.symm
  · rw [Bool.not_eq_true] at hfirst
    rw [hflip, hfirst, if_neg Bool.false_ne_true, Bool.not_false, if_pos rfl] at hfind
    exact hne hfind

/-! ## When the table decides -/

/-- A path that begins with `./`. -/
theorem eq_of_isPrefixOf_dotSlash {specifierString : Str}
    (h : "./".toList.isPrefixOf specifierString = true) :
    specifierString = '.' :: '/' :: specifierString.drop 2 := by
  obtain ⟨rest, rfl⟩ := List.isPrefixOf_iff_prefix.mp h
  rfl

/-- The path formed is empty, or it has the file name of the specifier. -/
theorem filename_formPath (hpath : env.formPath referrerPath specifierString = .ok path) :
    path = [] ∨ Path.filename path = Path.filename specifierString := by
  have habsolute : ∀ {p : Str}, env.absolute p = .ok path →
      Path.filename path = Path.filename p := by
    intro p h
    rw [absolute] at h
    cases hp : Path.absolute env.currentPath p with
    | none =>
      rw [hp] at h
      exact absurd h (by simp)
    | some q =>
      rw [hp] at h
      rw [← Except.ok.inj h, Path.filename_absolute hp]
  have hdot : "./".toList.isPrefixOf specifierString = true →
      Path.filename (specifierString.drop 2) = Path.filename specifierString := by
    intro h
    conv_rhs => rw [eq_of_isPrefixOf_dotSlash h]
    exact (Path.filename_append_slash ['.'] _).symm
  rw [formPath] at hpath
  split at hpath
  · exact .inr (habsolute hpath)
  · next hbare =>
    cases referrerPath with
    | none =>
      rw [relativePath] at hpath
      split at hpath
      · next hstarts =>
        -- A specifier in this branch that begins with a dot begins with `./`.
        have hdotSlash : "./".toList.isPrefixOf specifierString = true := by
          obtain ⟨rest, rfl⟩ := List.isPrefixOf_iff_prefix.mp hstarts
          simpa using hbare
        exact .inr ((habsolute hpath).trans (hdot hdotSlash))
      · exact .inr (habsolute hpath)
    | some referrerPath =>
      rw [relativePath] at hpath
      split at hpath
      · next hstarts =>
        refine .inr ((habsolute hpath).trans ?_)
        rw [Path.filename_append_slash, hdot hstarts]
      · exact .inl (Except.ok.inj hpath).symm

/-- The path formed has an extension only if the specifier has one. -/
theorem hasExtension_formPath (hpath : env.formPath referrerPath specifierString = .ok path)
    (hext : Path.hasExtension specifierString = false) : Path.hasExtension path = false := by
  rcases filename_formPath hpath with rfl | hfilename
  · rfl
  · rwa [Path.hasExtension, hfilename]

/-- If the choice is made by the table, then the candidates that exist have its extension. -/
theorem ChoosesEarliest.existsWith (h : ChoosesEarliest env referrerPath specifierString path)
    (hpath : env.formPath referrerPath specifierString = .ok path)
    (hext : Path.hasExtension path = false)
    (hexists : ∃ p ∈ candidates path, env.fileExists p = true) :
    ∃ p, env.choice referrerPath specifierString = some p ∧
      ∃ e ∈ fileExtensions, CandidateWith path e p ∧
        ∀ e' ∈ fileExtensions, env.ExistsWith path e' → e' = e := by
  obtain ⟨p, hchoice, e, he, hcandidate, hearliest⟩ := h.earliest hexists
  obtain ⟨e₁, he₁, hcandidate₁, -, hlatest⟩ := latest_of_choice hpath hext hchoice
  obtain rfl := hcandidate₁.extension_eq he₁ he hcandidate
  refine ⟨p, hchoice, e₁, he, hcandidate, fun e' he' hexists ↦ ?_⟩
  exact (List.idxOf_inj he').mp ((hlatest e' he' hexists).antisymm (hearliest e' he' hexists))

/-- If the choice is made by the table, then no two candidates exist. -/
theorem ChoosesEarliest.unrivalled (h : ChoosesEarliest env referrerPath specifierString path)
    (hpath : env.formPath referrerPath specifierString = .ok path)
    (hext : Path.hasExtension path = false) : env.Unrivalled path := by
  intro p hp q hq hexistsp hexistsq
  obtain ⟨c, hchoice, e, he, hcandidate, honly⟩ := h.existsWith hpath hext ⟨p, hp, hexistsp⟩
  obtain ⟨e₁, he₁, hp⟩ := (mem_candidates hext).mp hp
  obtain ⟨e₂, he₂, hq⟩ := (mem_candidates hext).mp hq
  obtain rfl := honly e₁ he₁ (.of_candidate hp hexistsp)
  obtain rfl := honly e₂ he₂ (.of_candidate hq hexistsq)
  have hboth := h.not_both hpath hext hchoice he hcandidate
  rcases hp with rfl | rfl <;> rcases hq with rfl | rfl
  · rfl
  · exact absurd ⟨hexistsp, hexistsq⟩ hboth
  · exact absurd ⟨hexistsq, hexistsp⟩ hboth
  · rfl

/-- A candidate whose status cannot be told stops the search if its name is visited first, and in
one of the two orders it is. -/
theorem throws_of_unknown (hext : Path.hasExtension path = false) {p : Str}
    (hp : p ∈ candidates path) (hunknown : env.fileStatus p = .unknown) :
    env.Throws path ∨ env.flipped.Throws path := by
  obtain ⟨e, he, hcandidate⟩ := (mem_candidates hext).mp hp
  have hround : ∀ env' : Environment, (env'.possibleModuleNames path).map (· ++ e)
      ∈ env'.rounds path := by
    intro env'
    rw [rounds, hext, if_neg Bool.false_ne_true]
    exact List.mem_map.mpr ⟨e, he, rfl⟩
  have hfirst : env.Blocked ((env.possibleModuleNames path).map (· ++ e)) ∨
      env.Blocked ((env.flipped.possibleModuleNames path).map (· ++ e)) := by
    have hflip : env.flipped.indexFirst path = !env.indexFirst path := rfl
    rw [possibleModuleNames, possibleModuleNames, hflip]
    rcases hcandidate with rfl | rfl <;> cases env.indexFirst path
    · exact .inl (.inl hunknown)
    · exact .inr (.inl hunknown)
    · exact .inr (.inl hunknown)
    · exact .inl (.inl hunknown)
  rcases hfirst with hblocked | hblocked
  · exact .inl ⟨_, hround env, hblocked⟩
  · exact .inr ⟨_, hround env.flipped, blocked_flipped.mpr hblocked⟩

/-- If the choice is made by the table, then nothing stops the search at a candidate, in either
order. -/
theorem ChoosesEarliest.known (h : ChoosesEarliest env referrerPath specifierString path)
    (hpath : env.formPath referrerPath specifierString = .ok path)
    (hext : Path.hasExtension path = false)
    (hexists : ∃ p ∈ candidates path, env.fileExists p = true) :
    ∀ p ∈ candidates path, env.fileStatus p ≠ .unknown := by
  intro p hp hunknown
  obtain ⟨c, hchoice, -⟩ := h.earliest hexists
  have hflipped := h.existence env.flipped _ _ (formPath_flipped hpath) fun p _ ↦ rfl
  rcases throws_of_unknown hext hp hunknown with hthrows | hthrows
  · exact absurd (hchoice.symm.trans (choice_of_throws hpath hthrows)) (by simp)
  · rw [choice_of_throws (formPath_flipped hpath) hthrows, hchoice] at hflipped
    exact absurd hflipped (by simp)

theorem Undisputed.choosesEarliest (h : env.Undisputed path)
    (hext : Path.hasExtension specifierString = false)
    (hpath : env.formPath referrerPath specifierString = .ok path) :
    ChoosesEarliest env referrerPath specifierString path := by
  obtain ⟨hone, hknown⟩ := h
  replace hext := hasExtension_formPath hpath hext
  constructor
  · intro env' referrerPath' specifierString' hpath' halike
    have halike' : ∀ p ∈ candidates path, env'.fileExists p = env.fileExists p := fun p hp ↦ by
      rw [fileExists, fileExists, halike p hp]
    by_cases hexists : ∃ p ∈ candidates path, env.fileExists p = true
    · refine hone.found_eq halike' (finds_choice hpath (not_throws_of_known (hknown hexists)))
        (finds_choice hpath' (not_throws_of_known fun p hp ↦ ?_))
      rw [halike p hp]
      exact hknown hexists p hp
    · have hnone : ∀ p ∈ candidates path, env.fileExists p = false := fun p hp ↦
        Bool.eq_false_iff.mpr fun h ↦ hexists ⟨p, hp, h⟩
      rw [choice_eq_none hpath hnone,
        choice_eq_none hpath' fun p hp ↦ (halike' p hp).trans (hnone p hp)]
  · intro hexists
    have hfinds := finds_choice hpath (not_throws_of_known (hknown hexists))
    obtain ⟨p, hchoice⟩ := Option.isSome_iff_exists.mp (hfinds.isSome_iff.mpr hexists)
    rw [hchoice] at hfinds
    obtain ⟨e, he, hcandidate⟩ := (mem_candidates hext).mp hfinds.1
    refine ⟨p, hchoice, e, he, hcandidate, fun e' he' hexists' ↦ ?_⟩
    obtain ⟨q, hq, hexistsq⟩ : ∃ q, CandidateWith path e' q ∧ env.fileExists q = true := by
      rcases hexists' with hexists' | hexists'
      · exact ⟨_, .inl rfl, hexists'⟩
      · exact ⟨_, .inr rfl, hexists'⟩
    obtain rfl := hone p hfinds.1 q ((mem_candidates hext).mpr ⟨e', he', hq⟩) hfinds.2 hexistsq
    rw [hcandidate.extension_eq he he' hq]

theorem choosesEarliest_iff_undisputed (hext : Path.hasExtension specifierString = false)
    (hpath : env.formPath referrerPath specifierString = .ok path) :
    ChoosesEarliest env referrerPath specifierString path ↔ env.Undisputed path := by
  have hext' := hasExtension_formPath hpath hext
  exact ⟨fun h ↦ ⟨h.unrivalled hpath hext', h.known hpath hext'⟩,
    fun h ↦ h.choosesEarliest hext hpath⟩

/-- **The table of extensions decides** nothing: where several of the candidates exist, the choice
is never made by it. Where at most one does, it is if the search is stopped by none of the
others. -/
theorem choosesEarliest_iff (hext : Path.hasExtension specifierString = false)
    (hpath : env.formPath referrerPath specifierString = .ok path) :
    ((¬env.Unrivalled path → ChoosesEarliest env referrerPath specifierString path) ↔
      env.Unrivalled path) ∧
    (ChoosesEarliest env referrerPath specifierString path ↔ env.Undisputed path) := by
  have hiff := choosesEarliest_iff_undisputed hext hpath
  refine ⟨⟨fun h ↦ ?_, fun hone hrivals ↦ absurd hone hrivals⟩, hiff⟩
  by_contra hrivals
  exact hrivals (hiff.mp (h hrivals)).1

/-- One file for a module. -/
def oneModule : Environment :=
  .plain "/home".toList (fun p ↦ if p = "/home/a.ts".toList then some [] else none) fun _ ↦ []

theorem choosesEarliest_iff_oneModule :
    ChoosesEarliest oneModule none "./a".toList "/home/a".toList := by
  refine (choosesEarliest_iff (by rfl) (by rfl)).2.mpr ⟨?_, fun _ ↦ by decide⟩
  have hexists : ∀ p ∈ candidates "/home/a".toList, oneModule.fileExists p = true →
      p = "/home/a.ts".toList := by
    decide
  exact fun p hp q hq hp' hq' ↦ (hexists p hp hp').trans (hexists q hq hq').symm

/-- A module beside the file it was compiled to. -/
def compiledModule : Environment :=
  .plain "/home".toList
    (fun p ↦ if p = "/home/a.ts".toList ∨ p = "/home/a.js".toList then some [] else none)
    fun _ ↦ []

/-- The compiled file is taken, although `.ts` stands before `.js` in the table. -/
theorem choice_compiledModule : ¬ ∀ (env : Environment) (referrerPath : Option Str)
    (specifierString path : Str), Path.hasExtension specifierString = false →
      env.formPath referrerPath specifierString = .ok path → ¬env.Unrivalled path →
        ChoosesEarliest env referrerPath specifierString path := by
  intro h
  have hrivals : ¬compiledModule.Unrivalled "/home/a".toList := fun hone ↦
    absurd (hone "/home/a.ts".toList (by decide) "/home/a.js".toList (by decide) (by rfl) (by rfl))
      (by decide)
  obtain ⟨p, hchoice, e, he, hcandidate, hearliest⟩ := (h compiledModule none "./a".toList
    "/home/a".toList (by rfl) (by rfl) hrivals).earliest ⟨"/home/a.js".toList, by decide, by rfl⟩
  have hjs : compiledModule.choice none "./a".toList = some "/home/a.js".toList := by rfl
  obtain rfl := Option.some_inj.mp (hchoice.symm.trans hjs)
  obtain rfl : e = ".js".toList := hcandidate.extension_eq he (by decide) (.inl (by rfl))
  exact absurd (hearliest ".ts".toList (by decide) (.inl (by rfl))) (by decide)

end Environment

end SlimTS
