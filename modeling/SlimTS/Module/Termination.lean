import SlimTS.Module.ImportWalk

/-!
# When resolving an entry script ends

The depth given to the recursion is a bound of the model: what a resolution comes to is what it
comes to at every depth that is large enough, and a resolution that runs out of every depth never
ends. Since each module has finitely many requests, one that ends makes finitely many calls.

For a source tree the depth needed is that of the unfolded import graph, and a cycle unfolds without
end. The caches do not cut it: the branch for files consults neither before it makes a new module,
although the module is cached before it is instantiated and the branch for plugins does look there.
-/

namespace SlimTS

open Unfolding Transition ResolverState

variable {identityHash : ModuleId → ℤ} {env : Environment}

/-! ## The depth -/

theorem exists_eq_of_snd_eq {α β : Type} {x : α × β} {b : β} (h : x.2 = b) : ∃ a, x = (a, b) :=
  ⟨x.1, Prod.ext rfl h⟩

/-- What the callbacks agree on where the first does not run out of depth, the requests of a module
agree on. -/
theorem answerRequests_stable
    {callback callback' : ModuleId → Str → ResolverState → ResolverState × Except Fault ModuleId}
    {referrer : ModuleId}
    (hcallback : ∀ request s, (callback referrer request s).2 ≠ .error .callDepth →
      callback' referrer request s = callback referrer request s)
    (requests : List Str) (s : ResolverState)
    (h : (answerRequests callback referrer requests s).2 ≠ .error .callDepth) :
    answerRequests callback' referrer requests s = answerRequests callback referrer requests s := by
  induction requests generalizing s with
  | nil => rfl
  | cons request requests ih =>
    rw [answerRequests] at h ⊢
    rw [answerRequests]
    cases hanswer : callback referrer request s with
    | mk s' result =>
      rw [hanswer] at h
      cases result with
      | error fault =>
        have hne : fault ≠ .callDepth := fun hfault ↦ h (by rw [hfault])
        rw [hcallback request s (by rw [hanswer]; simpa using hne), hanswer]
      | ok module =>
        rw [hcallback request s (by rw [hanswer]; simp), hanswer]
        exact ih _ h

theorem instantiateModule_stable
    {callback callback' : ModuleId → Str → ResolverState → ResolverState × Except Fault ModuleId}
    {module : ModuleId}
    (hcallback : ∀ request s, (callback module request s).2 ≠ .error .callDepth →
      callback' module request s = callback module request s)
    (requests : List Str) (s : ResolverState)
    (h : (instantiateModule env callback module requests s).2 ≠ .error .callDepth) :
    instantiateModule env callback' module requests s =
      instantiateModule env callback module requests s := by
  have hrequests : (answerRequests callback module requests s).2 ≠ .error .callDepth := by
    intro hdepth
    obtain ⟨s', heq⟩ := exists_eq_of_snd_eq hdepth
    refine h ?_
    rw [instantiateModule, heq]
  rw [instantiateModule, instantiateModule, answerRequests_stable hcallback requests s hrequests]

/-- A call that does not run out of depth does the same at a larger depth. -/
theorem moduleCallBackResolver_stable {depth : ℕ} {referrer : ModuleId} {specifierName : Str}
    {s : ResolverState}
    (h : (moduleCallBackResolver identityHash env depth referrer specifierName s).2 ≠
      .error .callDepth) :
    moduleCallBackResolver identityHash env (depth + 1) referrer specifierName s =
      moduleCallBackResolver identityHash env depth referrer specifierName s := by
  induction depth generalizing referrer specifierName s with
  | zero => exact absurd rfl h
  | succ depth ih =>
    by_cases hplugin : specifierName ∈ pluginsSet
    · rw [moduleCallBackResolver, moduleCallBackResolver, if_pos hplugin, if_pos hplugin]
    · rw [moduleCallBackResolver, if_neg hplugin] at h
      rw [moduleCallBackResolver, if_neg hplugin, moduleCallBackResolver, if_neg hplugin]
      cases himport : s.importFile identityHash env (.name specifierName) false
          (some (s.referrerPath identityHash referrer)) with
      | mk s' result =>
        rw [himport] at h
        cases result with
        | error fault => rfl
        | ok imported =>
          -- The callback does not catch running out of depth.
          have hne : (instantiateModule env (moduleCallBackResolver identityHash env depth)
              imported.1.v8Module imported.2 s').2 ≠ .error .callDepth := by
            intro hdepth
            obtain ⟨s'', heq⟩ := exists_eq_of_snd_eq hdepth
            refine h ?_
            simp only [heq]
            rfl
          simp only [instantiateModule_stable (fun _ _ ↦ ih) _ _ hne]

theorem resolveImports_stable {depth depth' : ℕ} {script : VariantSpecifier} {isEntryPoint : Bool}
    {s : ResolverState}
    (h : (resolveImports identityHash env depth script isEntryPoint s).2 ≠ .error .callDepth)
    (hle : depth ≤ depth') :
    resolveImports identityHash env depth' script isEntryPoint s =
      resolveImports identityHash env depth script isEntryPoint s := by
  induction hle with
  | refl => rfl
  | @step depth' _ ih =>
    rw [← ih] at h ⊢
    rw [resolveImports] at h
    rw [resolveImports, resolveImports]
    cases himport : s.importFile identityHash env script isEntryPoint none with
    | mk s' result =>
      rw [himport] at h
      cases result with
      | error fault => rfl
      | ok imported =>
        -- Running out of depth within the instantiation would be the result.
        have hne : (instantiateModule env (moduleCallBackResolver identityHash env depth')
            imported.1.v8Module imported.2 s').2 ≠ .error .callDepth := by
          intro hdepth
          obtain ⟨s'', heq⟩ := exists_eq_of_snd_eq hdepth
          refine h ?_
          simp only [heq]
        simp only [instantiateModule_stable (fun _ _ ↦ moduleCallBackResolver_stable) _ _ hne]

/-! ## Ending -/

/-- The resolution of an entry script ends with the outcome: with any depth that is large enough. -/
def ComesTo (identityHash : ModuleId → ℤ) (env : Environment) (script : VariantSpecifier)
    (isEntryPoint : Bool) (s : ResolverState)
    (outcome : ResolverState × Except Fault (Option ModuleSpecifier)) : Prop :=
  outcome.2 ≠ .error .callDepth ∧
    ∃ depth, ∀ depth' ≥ depth,
      resolveImports identityHash env depth' script isEntryPoint s = outcome

theorem comesTo_iff {script : VariantSpecifier} {isEntryPoint : Bool} {s : ResolverState}
    {outcome : ResolverState × Except Fault (Option ModuleSpecifier)} :
    ComesTo identityHash env script isEntryPoint s outcome ↔ outcome.2 ≠ .error .callDepth ∧
      ∃ depth, resolveImports identityHash env depth script isEntryPoint s = outcome := by
  refine and_congr_right fun hne ↦ exists_congr fun depth ↦ ⟨fun h ↦ h depth le_rfl, ?_⟩
  rintro rfl depth' hle
  exact resolveImports_stable hne hle

/-- An entry script of a source tree, once a cycle of imports cannot be reached from it, has all of
its unfolded import graph imported. -/
theorem comesTo_of_acyclic {tree : SourceTree env} (hinj : Function.Injective identityHash)
    {s : ResolverState} (inv : CacheInv identityHash s) {script path : Str}
    (hentry : LeadsTo env none script path) (hpath : path ∈ tree.files)
    (hacyclic : Acyclic tree.imports path) (isEntryPoint : Bool) :
    ∃ depth s' spec, ComesTo identityHash env (.name script) isEntryPoint s (s', .ok (some spec)) ∧
      ¬HasPath tree.imports depth path ∧
      Loaded s s' spec.v8Module (unfold tree.imports depth path) := by
  obtain ⟨depth, hshort⟩ := (exists_not_hasPath_iff tree.files
    fun _ ↦ SourceTree.mem_files_of_reaches hpath).mpr hacyclic
  rcases resolveImports_spec hinj inv hentry hpath isEntryPoint depth with
    ⟨s', -, hlong⟩ | ⟨s', spec, heq, hshort', hloaded⟩
  · exact absurd hlong hshort
  · exact ⟨depth + 1, s', spec, comesTo_iff.mpr ⟨nofun, depth, heq⟩, hshort', hloaded⟩

/-- **When the recursion ends.** Resolving an entry script of a source tree makes finitely many
calls if and only if no cycle of imports can be reached from it. -/
theorem comesTo_iff_acyclic (hinj : Function.Injective identityHash) (tree : SourceTree env)
    {store : Store} {s : ResolverState}
    (hs : Reaches (step identityHash) ResolverAction.EntryIsFile (start store) s)
    {script path : Str} (hentry : LeadsTo env none script path) (hpath : path ∈ tree.files)
    (isEntryPoint : Bool) :
    (∃ outcome, ComesTo identityHash env (.name script) isEntryPoint s outcome) ↔
      Acyclic tree.imports path := by
  have inv := cacheInv_of_reaches hinj hs
  constructor
  · rintro ⟨outcome, hcomes⟩
    obtain ⟨hne, depth, heq⟩ := comesTo_iff.mp hcomes
    rcases resolveImports_spec hinj inv hentry hpath isEntryPoint depth with
      ⟨s', heq', -⟩ | ⟨s', spec, -, hshort, -⟩
    · exact absurd (heq ▸ congrArg Prod.snd heq') hne
    · exact acyclic_of_not_hasPath hshort
  · intro hacyclic
    obtain ⟨-, s', spec, hcomes, -⟩ :=
      comesTo_of_acyclic hinj inv hentry hpath hacyclic isEntryPoint
    exact ⟨_, hcomes⟩

/-! ## On a plain machine -/

/-- `/app/a.mjs` imports a file and a plugin. -/
def chainRequests (path : Str) : Option (List Str) :=
  if path = "/app/a.mjs".toList then some ["./b.mjs".toList, "fs".toList]
  else if path = "/app/b.mjs".toList then some []
  else none

def chainTree : SourceTree (.ofRequests chainRequests) :=
  .ofRequests chainRequests {"/app/a.mjs".toList, "/app/b.mjs".toList} (by decide) (by decide)

theorem comesTo_iff_acyclic_chainTree :
    (∃ outcome, ComesTo Int.ofNat (.ofRequests chainRequests) (.name "/app/a.mjs".toList) true
      (start (Store.start fun _ ↦ ∅)) outcome) ↔
      Acyclic chainTree.imports "/app/a.mjs".toList :=
  comesTo_iff_acyclic (fun _ _ h ↦ Int.ofNat.inj h) chainTree (Reaches.refl _) (by decide)
    (by decide) true

/-- `/app/a.mjs` imports itself. -/
def selfRequests (path : Str) : Option (List Str) :=
  if path = "/app/a.mjs".toList then some ["./a.mjs".toList] else none

def selfTree : SourceTree (.ofRequests selfRequests) :=
  .ofRequests selfRequests {"/app/a.mjs".toList} (by decide) (by decide)

/-- A file that imports itself is imported without end. -/
theorem self_import_never_ends :
    ¬ ∀ (identityHash : ModuleId → ℤ) (env : Environment) (tree : SourceTree env) (store : Store)
      (script path : Str), Function.Injective identityHash → LeadsTo env none script path →
      path ∈ tree.files →
      ∃ outcome, ComesTo identityHash env (.name script) true (start store) outcome := by
  intro h
  have hentry : LeadsTo (.ofRequests selfRequests) none "/app/a.mjs".toList
      "/app/a.mjs".toList := by decide
  have hpath : "/app/a.mjs".toList ∈ selfTree.files := by decide
  have hinj : Function.Injective Int.ofNat := fun _ _ h ↦ Int.ofNat.inj h
  obtain ⟨outcome, hcomes⟩ :=
    h Int.ofNat _ selfTree (Store.start fun _ ↦ ∅) _ _ hinj hentry hpath
  obtain ⟨hne, depth, heq⟩ := comesTo_iff.mp hcomes
  rcases resolveImports_spec hinj (cacheInv_start _) hentry hpath true depth with
    ⟨s', heq', -⟩ | ⟨s', spec, -, hshort, -⟩
  · exact hne (heq ▸ congrArg Prod.snd heq')
  · have hself : Child selfTree.imports "/app/a.mjs".toList "/app/a.mjs".toList := by
      show _ ∈ _
      decide
    exact acyclic_of_not_hasPath hshort _ .refl (.single hself)

end SlimTS
