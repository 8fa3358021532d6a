import SlimTS.Module.SourceTree

/-!
# The import recursion walks the unfolded import graph

The callback makes a new module for every request, so importing a file of a source tree comes to
importing the unfolding of the tree's graph from it: the paths in the log are the nodes of the
unfolding, in its order, and the recursion needs the depth the unfolding has. One lemma says so of
one answered request, by induction on the depth; within it the requests of one module are run
through in order.

`Loaded` is what a stretch of the recursion leaves behind. It says what the log gained, that each
module made on the way hangs from the one the stretch was for, and which entries of the specifier
cache were left alone.
-/

namespace SlimTS

open Unfolding

/-! ## Reading the log -/

/-- The file a `fetched` event is about. -/
def ImportEvent.fetchedFile : ImportEvent → Option Str
  | .fetched fileName => some fileName
  | _ => none

/-- The url a `transpiled` event is about. -/
def ImportEvent.transpiledUrl : ImportEvent → Option Str
  | .transpiled url => some url
  | _ => none

/-- The file a `compiled` event is about. -/
def ImportEvent.compiledPath : ImportEvent → Option Str
  | .compiled path _ _ => some path
  | _ => none

/-- The module was compiled from the file at the path. -/
def CompiledFrom (evs : List ImportEvent) (path : Str) (module : ModuleId) : Prop :=
  ∃ sourceCode, .compiled path module sourceCode ∈ evs

/-- A request of the one module was answered with the other. -/
def AnsweredWith (evs : List ImportEvent) (referrer module : ModuleId) : Prop :=
  ∃ specifierName, .answered referrer specifierName module ∈ evs

/-- V8 evaluates a module together with the modules its requests were answered with, and theirs. -/
def Evaluated (evs : List ImportEvent) (root module : ModuleId) : Prop :=
  Relation.ReflTransGen (AnsweredWith evs) root module

theorem Evaluated.mono {evs evs' : List ImportEvent} (hsub : evs ⊆ evs') {root module : ModuleId}
    (h : Evaluated evs root module) : Evaluated evs' root module :=
  Relation.ReflTransGen.mono (fun _ _ ⟨name, hname⟩ ↦ ⟨name, hsub hname⟩) _ _ h

/-- The events tell of the import of the files at the paths, in order, below a module. -/
structure Linked (root : ModuleId) (paths : List Str) (evs : List ImportEvent) : Prop where
  fetched : evs.filterMap ImportEvent.fetchedFile = paths
  transpiled : evs.filterMap ImportEvent.transpiledUrl = paths.map fileUrl
  compiled : evs.filterMap ImportEvent.compiledPath = paths
  evaluated : ∀ path module, CompiledFrom evs path module → Evaluated evs root module

variable {root child : ModuleId} {paths paths' : List Str} {evs evs' : List ImportEvent}

theorem Linked.nil (root : ModuleId) : Linked root [] [] :=
  ⟨rfl, rfl, rfl, fun _ _ ⟨_, h⟩ ↦ absurd h List.not_mem_nil⟩

/-- The module of a plugin was made. -/
theorem Linked.synthetic (root : ModuleId) (specifierName : Str) (module : ModuleId) :
    Linked root [] [.synthetic specifierName module] :=
  ⟨rfl, rfl, rfl, fun _ _ ⟨_, h⟩ ↦ ImportEvent.noConfusion (List.mem_singleton.mp h)⟩

/-- One request and the ones after it. -/
theorem Linked.answered (hchild : Linked child paths evs) (hrest : Linked root paths' evs')
    (specifierName : Str) :
    Linked root (paths ++ paths') (evs ++ .answered root specifierName child :: evs') where
  fetched := by
    rw [List.filterMap_append, hchild.fetched, ← hrest.fetched]
    rfl
  transpiled := by
    rw [List.filterMap_append, hchild.transpiled, List.map_append, ← hrest.transpiled]
    rfl
  compiled := by
    rw [List.filterMap_append, hchild.compiled, ← hrest.compiled]
    rfl
  evaluated path module h := by
    have hlink : AnsweredWith (evs ++ .answered root specifierName child :: evs') root child :=
      ⟨specifierName, by simp⟩
    obtain ⟨sourceCode, h⟩ := h
    rcases List.mem_append.mp h with h | h
    · exact ((hchild.evaluated path module ⟨_, h⟩).mono (List.subset_append_left _ _)).head hlink
    · obtain h := (List.mem_cons.mp h).resolve_left (by simp)
      exact (hrest.evaluated path module ⟨_, h⟩).mono fun e he ↦
        List.mem_append_right _ (List.mem_cons_of_mem _ he)

/-- A module and what is below it. -/
theorem Linked.made (h : Linked root paths evs) (path : Str) (sourceCode : Option Str) :
    Linked root (path :: paths)
      ([.fetched path, .transpiled (fileUrl path), .compiled path root sourceCode] ++ evs) where
  fetched := congrArg (path :: ·) h.fetched
  transpiled := congrArg (fileUrl path :: ·) h.transpiled
  compiled := congrArg (path :: ·) h.compiled
  evaluated path' module hfrom := by
    obtain ⟨sourceCode', hmem⟩ := hfrom
    rcases List.mem_append.mp hmem with hmem | hmem
    · obtain ⟨-, rfl, -⟩ : path' = path ∧ module = root ∧ sourceCode' = sourceCode := by
        simpa using hmem
      exact .refl
    · exact (h.evaluated path' module ⟨_, hmem⟩).mono (List.subset_append_right _ _)

/-! ## What is left behind -/

/-- The files at the paths have been imported below a module, and nothing else but plugins. -/
structure Loaded (s s' : ResolverState) (root : ModuleId) (paths : List Str) : Prop where
  events : ∃ evs, s'.history = s.history ++ evs ∧ Linked root paths evs
  kept : ∀ name, name ∉ paths → name ∉ pluginsSet →
    s'.bySpecifierCache.lookup name = s.bySpecifierCache.lookup name

variable {s s' s'' : ResolverState}

theorem Loaded.refl (s : ResolverState) (root : ModuleId) : Loaded s s root [] :=
  ⟨⟨[], (List.append_nil _).symm, Linked.nil root⟩, fun _ _ _ ↦ rfl⟩

theorem Loaded.answered (hchild : Loaded s s' child paths) {specifierName : Str}
    (hrest : Loaded { s' with history := s'.history ++ [.answered root specifierName child] } s''
      root paths') :
    Loaded s s'' root (paths ++ paths') := by
  obtain ⟨evs, hevs, hlinked⟩ := hchild.events
  obtain ⟨evs', hevs', hlinked'⟩ := hrest.events
  refine ⟨⟨_, ?_, hlinked.answered hlinked' specifierName⟩, fun name hname hplugin ↦ ?_⟩
  · rw [hevs', hevs, List.append_assoc, List.append_assoc, List.singleton_append]
  · rw [List.mem_append, not_or] at hname
    exact (hrest.kept name hname.2 hplugin).trans (hchild.kept name hname.1 hplugin)

theorem Loaded.imported {path : Str} {spec : ModuleSpecifier} (himported : Imported s s' path spec)
    (h : Loaded s' s'' spec.v8Module paths) : Loaded s s'' spec.v8Module (path :: paths) := by
  obtain ⟨evs, hevs, hlinked⟩ := h.events
  refine ⟨⟨_, ?_, hlinked.made path spec.specifierSourceCode⟩, fun name hname hplugin ↦ ?_⟩
  · rw [hevs, himported.history, List.append_assoc]
  · rw [List.mem_cons, not_or] at hname
    rw [h.kept name hname.2 hplugin, himported.bySpecifierCache, AList.lookup_insert_ne hname.1]

/-! ## The recursion -/

section Recursion

variable {identityHash : ModuleId → ℤ} {env : Environment} {tree : SourceTree env}

open ResolverState Transition

/-- The callback runs through imports, whatever comes of it. -/
theorem reaches_of_callback {depth : ℕ} {referrer : ModuleId} {request : Str}
    {result : Except Fault ModuleId}
    (h : moduleCallBackResolver identityHash env depth referrer request s = (s', result)) :
    Reaches (ResolverState.step identityHash) ResolverAction.Nested s s' := by
  obtain rfl : (moduleCallBackResolver identityHash env depth referrer request s).1 = s' := by
    rw [h]
  exact moduleCallBackResolver_reaches depth referrer request s

theorem reaches_of_instantiate {depth : ℕ} {module : ModuleId} {requests : List Str}
    {result : Except Fault Unit}
    (h : instantiateModule env (moduleCallBackResolver identityHash env depth) module requests s =
      (s', result)) :
    Reaches (ResolverState.step identityHash) ResolverAction.Nested s s' := by
  obtain rfl : (instantiateModule env (moduleCallBackResolver identityHash env depth) module
    requests s).1 = s' := by rw [h]
  exact instantiateModule_reaches env (moduleCallBackResolver_reaches depth) module requests s

variable (identityHash tree) in
/-- What a call of the callback comes to, for a request of a file of the tree: it runs out of depth
and there is a path of that length, or it answers with a module and has imported what it leads
to. -/
def AnswersRequests (depth : ℕ) : Prop :=
  ∀ (s : ResolverState) (spec : ModuleSpecifier) (request : Str), Cached identityHash s spec →
    spec.specifierPath ∈ tree.files → request ∈ tree.requests spec.specifierPath →
    (∃ s', moduleCallBackResolver identityHash env depth spec.v8Module request s =
        (s', .error .callDepth) ∧ HasPath tree.imports depth spec.specifierPath) ∨
    ∃ s' child, moduleCallBackResolver identityHash env depth spec.v8Module request s =
        (s', .ok child) ∧
      (∀ c ∈ tree.targets spec.specifierPath request, ¬HasPath tree.imports depth c) ∧
      Loaded s s' child
        ((tree.targets spec.specifierPath request).flatMap (unfold tree.imports depth))

/-- The requests of a module, in order. -/
theorem answerRequests_spec (hinj : Function.Injective identityHash) {depth : ℕ}
    (hcallback : AnswersRequests identityHash tree depth) {spec : ModuleSpecifier}
    (hpath : spec.specifierPath ∈ tree.files) (requests : List Str)
    (hrequests : requests ⊆ tree.requests spec.specifierPath) (s : ResolverState)
    (hcached : Cached identityHash s spec) :
    (∃ s', answerRequests (moduleCallBackResolver identityHash env depth) spec.v8Module requests s =
        (s', .error .callDepth) ∧ HasPath tree.imports depth spec.specifierPath) ∨
    ∃ s', answerRequests (moduleCallBackResolver identityHash env depth) spec.v8Module requests s =
        (s', .ok ()) ∧
      (∀ c ∈ requests.flatMap (tree.targets spec.specifierPath),
        ¬HasPath tree.imports depth c) ∧
      Loaded s s' spec.v8Module
        ((requests.flatMap (tree.targets spec.specifierPath)).flatMap
          (unfold tree.imports depth)) := by
  induction requests generalizing s with
  | nil => exact Or.inr ⟨s, rfl, by simp, Loaded.refl s _⟩
  | cons request requests ih =>
    obtain ⟨hrequest, hrest⟩ := List.cons_subset.mp hrequests
    rw [answerRequests]
    rcases hcallback s spec request hcached hpath hrequest with
      ⟨s', heq, hlong⟩ | ⟨s', child, heq, hshort, hloaded⟩
    · exact Or.inl ⟨s', by rw [heq], hlong⟩
    · rw [heq]
      have hreach := reaches_of_callback heq
      have hanswered : Reaches (ResolverState.step identityHash) ResolverAction.Nested s'
          { s' with history := s'.history ++ [.answered spec.v8Module request child] } :=
        Reaches.of_step (a := .answered spec.v8Module request child) trivial rfl
      rcases ih hrest _ (hcached.of_reaches hinj (hreach.trans hanswered)) with
        ⟨s'', heq', hlong⟩ | ⟨s'', heq', hshort', hloaded'⟩
      · exact Or.inl ⟨s'', heq', hlong⟩
      · refine Or.inr ⟨s'', heq', fun c hc ↦ ?_, ?_⟩
        · rw [List.flatMap_cons, List.mem_append] at hc
          exact hc.elim (hshort c) (hshort' c)
        · rw [List.flatMap_cons, List.flatMap_append]
          exact hloaded.answered hloaded'

/-- The module of a file of the tree is instantiated, or the depth does not suffice and there is a
path of that length. -/
theorem instantiateModule_spec (hinj : Function.Injective identityHash) {depth : ℕ}
    (hcallback : AnswersRequests identityHash tree depth) (spec : ModuleSpecifier)
    (hpath : spec.specifierPath ∈ tree.files) {s : ResolverState}
    (hcached : Cached identityHash s spec) :
    (∃ s', instantiateModule env (moduleCallBackResolver identityHash env depth) spec.v8Module
        (tree.requests spec.specifierPath) s = (s', .error .callDepth) ∧
        HasPath tree.imports depth spec.specifierPath) ∨
    ∃ s', instantiateModule env (moduleCallBackResolver identityHash env depth) spec.v8Module
        (tree.requests spec.specifierPath) s = (s', .ok ()) ∧
      ¬HasPath tree.imports (depth + 1) spec.specifierPath ∧
      Loaded s s' spec.v8Module
        ((tree.imports spec.specifierPath).flatMap (unfold tree.imports depth)) := by
  rw [instantiateModule]
  rcases answerRequests_spec hinj hcallback hpath _ (List.Subset.refl _) s hcached with
    ⟨s', heq, hlong⟩ | ⟨s', heq, hshort, hloaded⟩
  · exact Or.inl ⟨s', by rw [heq], hlong⟩
  · refine Or.inr ⟨s', ?_, ?_, hloaded⟩
    · rw [heq]
      simp only [tree.links, if_true]
    · rintro ⟨c, hc, hlong⟩
      exact hshort c hc hlong

/-- **A request of a file of the tree.** -/
theorem answersRequests (hinj : Function.Injective identityHash) (depth : ℕ) :
    AnswersRequests identityHash tree depth := by
  induction depth with
  | zero => exact fun s spec request _ _ _ ↦ Or.inl ⟨s, rfl, trivial⟩
  | succ depth ih =>
    intro s spec request hcached hpath hrequest
    rw [moduleCallBackResolver, SourceTree.targets]
    split
    · next hplugin =>
      obtain ⟨s', heq, hanswer, -, hhistory, hkept⟩ := importPlugin_of_loads
        identityHash s (tree.loadsPlugin _ hpath _ hrequest hplugin)
      rw [heq]
      refine Or.inr ⟨s', s.modules, congrArg _ hanswer, by simp, ?_⟩
      refine ⟨⟨_, hhistory, .synthetic _ _ _⟩, fun name _ hname ↦ ?_⟩
      exact hkept name fun h ↦ hname (h ▸ hplugin)
    · next hfile =>
      obtain ⟨htarget, hlead⟩ := tree.leadsTo _ hpath _ hrequest hfile
      obtain ⟨s', child, heq, himported, hcached'⟩ := importFile_of_leadsTo hinj hcached.inv hlead
        (tree.compiles _ htarget) false
      rw [hcached.referrerPath, heq]
      have hinstantiate := instantiateModule_spec hinj ih child
        (himported.specifierPath ▸ htarget) hcached'
      rw [himported.specifierPath] at hinstantiate
      rcases hinstantiate with ⟨s'', heq', hlong⟩ | ⟨s'', heq', hshort, hloaded⟩
      · refine Or.inl ⟨s'', ?_, _, ?_, hlong⟩
        · simp only [heq']
          rfl
        · rw [SourceTree.imports, List.mem_flatMap]
          exact ⟨request, hrequest, by rw [SourceTree.targets, if_neg hfile, List.mem_singleton]⟩
      · have hreach := reaches_of_instantiate heq'
        refine Or.inr ⟨s'', child.v8Module, ?_, ?_, ?_⟩
        · simp only [heq', (hcached'.of_reaches hinj hreach).answer]
        · simpa using hshort
        · rw [List.flatMap_singleton, unfold]
          exact hloaded.imported himported

/-- **The resolution of an entry script of a source tree.** It runs out of depth and there is a path
of that length, or it returns the script's specifier and has imported the unfolding of the tree's
graph from the script. -/
theorem resolveImports_spec (hinj : Function.Injective identityHash)
    (inv : CacheInv identityHash s) {script path : Str} (hentry : LeadsTo env none script path)
    (hpath : path ∈ tree.files) (isEntryPoint : Bool) (depth : ℕ) :
    (∃ s', resolveImports identityHash env depth (.name script) isEntryPoint s =
        (s', .error .callDepth) ∧ HasPath tree.imports depth path) ∨
    ∃ s' spec, resolveImports identityHash env depth (.name script) isEntryPoint s =
        (s', .ok (some spec)) ∧
      ¬HasPath tree.imports (depth + 1) path ∧
      Loaded s s' spec.v8Module (unfold tree.imports (depth + 1) path) := by
  obtain ⟨s', spec, heq, himported, hcached⟩ :=
    importFile_of_leadsTo hinj inv hentry (tree.compiles _ hpath) isEntryPoint
  have hinstantiate := instantiateModule_spec hinj (answersRequests hinj depth) spec
    (himported.specifierPath ▸ hpath) hcached
  rw [himported.specifierPath] at hinstantiate
  rw [resolveImports, heq]
  rcases hinstantiate with ⟨s'', heq', hlong⟩ | ⟨s'', heq', hshort, hloaded⟩
  · exact Or.inl ⟨s'', by simp only [heq'], hlong⟩
  · refine Or.inr ⟨s'', spec, ?_, hshort, hloaded.imported himported⟩
    -- The entry script is not imported again, so its specifier is the one it was cached with.
    have hlookup : s''.bySpecifierCache.lookup spec.specifierString = some spec := by
      rw [himported.specifierString,
        hloaded.kept path (not_mem_unfold_children hshort) hentry.not_plugin,
        himported.bySpecifierCache, AList.lookup_insert]
    simp only [heq']
    exact congrArg (fun result ↦ (s'', Except.ok result)) hlookup

end Recursion

end SlimTS
