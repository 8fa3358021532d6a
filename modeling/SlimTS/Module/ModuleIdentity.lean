import SlimTS.Module.Termination

/-!
# One module for each file

Where no cycle of imports is in the way, resolving an entry script imports every file it reaches at
least once; the callback makes a new module for every request that leads to a file, so one with two
importers is imported twice. Counted in the log, the files imported are the nodes of the unfolded
graph of imports, and a file is in there once for each way of reaching it.

That no file is imported twice is thus a property of the graph: no two requests of the files reached
lead to the same file.
-/

namespace SlimTS

open Unfolding Transition ResolverState

/-- A file has one module, by the log of a resolution that made the given module for its entry
script. The path a request was resolved to is the path its answer was compiled from. -/
structure LoadedOnce (evs : List ImportEvent) (root : ModuleId) (path : Str) : Prop where
  /-- Requests that were resolved to the file were answered with the same module. -/
  same_module : ∀ referrer referrer' module module', AnsweredWith evs referrer module →
    AnsweredWith evs referrer' module' → CompiledFrom evs path module →
    CompiledFrom evs path module' → module = module'
  fetched_once : (evs.filterMap ImportEvent.fetchedFile).count path = 1
  transpiled_once : (evs.filterMap ImportEvent.transpiledUrl).count (fileUrl path) = 1
  compiled_once : (evs.filterMap ImportEvent.compiledPath).count path = 1
  /-- One module of the file is evaluated. -/
  evaluated_once : ∃! module, CompiledFrom evs path module ∧ Evaluated evs root module

theorem fileUrl_injective : Function.Injective fileUrl := fun _ _ h ↦ List.append_cancel_left h

/-- What a list of events has once, one event gives. -/
theorem eq_of_nodup_filterMap {α β : Type} {f : α → Option β} {l : List α}
    (h : (l.filterMap f).Nodup) {x y : α} {b : β} (hx : x ∈ l) (hy : y ∈ l) (hfx : f x = some b)
    (hfy : f y = some b) : x = y := by
  induction l with
  | nil => cases hx
  | cons a l ih =>
    -- If the head gives `b`, the tail does not.
    have hhead : ∀ z ∈ l, f a = some b → f z ≠ some b := by
      intro z hz ha hb
      rw [List.filterMap_cons_some ha, List.nodup_cons] at h
      exact h.1 (List.mem_filterMap.mpr ⟨z, hz, hb⟩)
    have htail : (l.filterMap f).Nodup := h.sublist ((List.sublist_cons_self a l).filterMap f)
    rcases List.mem_cons.mp hx with rfl | hxl <;> rcases List.mem_cons.mp hy with rfl | hyl
    · rfl
    · exact absurd hfy (hhead y hyl hfx)
    · exact absurd hfx (hhead x hxl hfy)
    · exact ih htail hxl hyl

theorem mem_compiledPath {evs : List ImportEvent} {path : Str} :
    path ∈ evs.filterMap ImportEvent.compiledPath ↔ ∃ module, CompiledFrom evs path module := by
  rw [List.mem_filterMap]
  constructor
  · rintro ⟨event, hmem, hpath⟩
    cases event with
    | compiled p module sourceCode =>
      obtain rfl : p = path := Option.some_inj.mp hpath
      exact ⟨module, sourceCode, hmem⟩
    | fetched | transpiled | raised | synthetic | answered => cases hpath
  · rintro ⟨module, sourceCode, hmem⟩
    exact ⟨_, hmem, rfl⟩

/-- Every path imported once. -/
theorem Linked.loadedOnce {root : ModuleId} {paths : List Str} {evs : List ImportEvent}
    (h : Linked root paths evs) (hnodup : paths.Nodup) {path : Str} (hpath : path ∈ paths) :
    LoadedOnce evs root path := by
  have hunique : ∀ module module', CompiledFrom evs path module → CompiledFrom evs path module' →
      module = module' := by
    rintro module module' ⟨_, hmem⟩ ⟨_, hmem'⟩
    rw [← h.compiled] at hnodup
    have heq := eq_of_nodup_filterMap hnodup hmem hmem' rfl rfl
    exact (ImportEvent.compiled.inj heq).2.1
  refine ⟨fun _ _ module module' _ _ ↦ hunique module module', ?_, ?_, ?_, ?_⟩
  · rw [h.fetched]
    exact List.count_eq_one_of_mem hnodup hpath
  · rw [h.transpiled]
    exact List.count_eq_one_of_mem (hnodup.map fileUrl_injective) (List.mem_map_of_mem hpath)
  · rw [h.compiled]
    exact List.count_eq_one_of_mem hnodup hpath
  · obtain ⟨module, hmem⟩ := mem_compiledPath.mp (h.compiled ▸ hpath)
    exact ⟨module, ⟨hmem, h.evaluated path module hmem⟩,
      fun module' hmem' ↦ hunique module' module hmem'.1 hmem⟩

variable {identityHash : ModuleId → ℤ} {env : Environment}

/-- The log of an import of the whole unfolding has every file once iff no file is imported
twice. -/
theorem Linked.loadedOnce_iff {tree : SourceTree env} {root : ModuleId} {depth : ℕ} {path : Str}
    {evs : List ImportEvent} (h : Linked root (unfold tree.imports depth path) evs)
    (hshort : ¬HasPath tree.imports depth path) :
    (∀ file, Relation.ReflTransGen (Child tree.imports) path file → LoadedOnce evs root file) ↔
      Unshared tree.imports path := by
  rw [← nodup_unfold_iff hshort]
  constructor
  · refine fun honce ↦ List.nodup_iff_count_eq_one.mpr fun file hfile ↦ ?_
    have hcount := (honce file ((mem_unfold hshort).mp hfile)).compiled_once
    rwa [h.compiled] at hcount
  · exact fun hnodup file hfile ↦ h.loadedOnce hnodup ((mem_unfold hshort).mpr hfile)

/-- **One module for each file.** From an entry script that reaches no cycle of imports, every file
reached is fetched, transpiled, compiled and evaluated once, and its module is the answer to every
request for it, if and only if no two import requests of the files reached lead to the same
file. -/
theorem loadedOnce_iff_unshared (hinj : Function.Injective identityHash) (tree : SourceTree env)
    {store : Store} {s : ResolverState}
    (hs : Reaches (step identityHash) ResolverAction.EntryIsFile (start store) s)
    {script path : Str} (hentry : LeadsTo env none script path) (hpath : path ∈ tree.files)
    (hacyclic : Acyclic tree.imports path) (isEntryPoint : Bool) :
    ∃ s' spec evs, ComesTo identityHash env (.name script) isEntryPoint s (s', .ok (some spec)) ∧
      s'.history = s.history ++ evs ∧
      ((∀ file, Relation.ReflTransGen (Child tree.imports) path file →
          LoadedOnce evs spec.v8Module file) ↔ Unshared tree.imports path) := by
  obtain ⟨depth, s', spec, hcomes, hshort, hloaded⟩ :=
    comesTo_of_acyclic hinj (cacheInv_of_reaches hinj hs) hentry hpath hacyclic isEntryPoint
  obtain ⟨evs, hevs, hlinked⟩ := hloaded.events
  exact ⟨s', spec, evs, hcomes, hevs, hlinked.loadedOnce_iff hshort⟩

theorem loadedOnce_iff_unshared_chainTree :
    ∃ s' spec evs, ComesTo Int.ofNat (.ofRequests chainRequests) (.name "/app/a.mjs".toList) true
        (start (Store.start fun _ ↦ ∅)) (s', .ok (some spec)) ∧
      s'.history = [] ++ evs ∧
      ((∀ file, Relation.ReflTransGen (Child chainTree.imports) "/app/a.mjs".toList file →
          LoadedOnce evs spec.v8Module file) ↔
        Unshared chainTree.imports "/app/a.mjs".toList) :=
  have hshort : ¬HasPath chainTree.imports 2 "/app/a.mjs".toList := by decide
  loadedOnce_iff_unshared (fun _ _ h ↦ Int.ofNat.inj h) chainTree (Reaches.refl _) (by decide)
    (by decide) (acyclic_of_not_hasPath hshort) true

/-! ## A file with two importers -/

/-- `/app/a.mjs` imports two files, which both import `/app/d.mjs`. -/
def diamondRequests (path : Str) : Option (List Str) :=
  if path = "/app/a.mjs".toList then some ["./b.mjs".toList, "./c.mjs".toList]
  else if path = "/app/b.mjs".toList ∨ path = "/app/c.mjs".toList then some ["./d.mjs".toList]
  else if path = "/app/d.mjs".toList then some []
  else none

def diamondTree : SourceTree (.ofRequests diamondRequests) :=
  .ofRequests diamondRequests
    {"/app/a.mjs".toList, "/app/b.mjs".toList, "/app/c.mjs".toList, "/app/d.mjs".toList}
    (by decide) (by decide)

/-- The resolution of an entry script comes to one outcome. -/
theorem ComesTo.unique {script : VariantSpecifier} {isEntryPoint : Bool} {s : ResolverState}
    {outcome outcome' : ResolverState × Except Fault (Option ModuleSpecifier)}
    (h : ComesTo identityHash env script isEntryPoint s outcome)
    (h' : ComesTo identityHash env script isEntryPoint s outcome') : outcome = outcome' := by
  obtain ⟨-, depth, hdepth⟩ := h
  obtain ⟨-, depth', hdepth'⟩ := h'
  exact (hdepth _ (le_max_left depth depth')).symm.trans (hdepth' _ (le_max_right depth depth'))

/-- A file with two importers is not imported once. -/
theorem diamond_imports_twice :
    ¬ ∀ (identityHash : ModuleId → ℤ) (env : Environment) (tree : SourceTree env) (store : Store)
      (script path : Str), Function.Injective identityHash → LeadsTo env none script path →
      path ∈ tree.files → Acyclic tree.imports path →
      ∃ s' spec evs, ComesTo identityHash env (.name script) true (start store)
          (s', .ok (some spec)) ∧
        s'.history = (start store).history ++ evs ∧
        ∀ file, Relation.ReflTransGen (Child tree.imports) path file →
          LoadedOnce evs spec.v8Module file := by
  intro h
  have hentry : LeadsTo (.ofRequests diamondRequests) none "/app/a.mjs".toList
      "/app/a.mjs".toList := by decide
  have hpath : "/app/a.mjs".toList ∈ diamondTree.files := by decide
  have hinj : Function.Injective Int.ofNat := fun _ _ h ↦ Int.ofNat.inj h
  have hacyclic : Acyclic diamondTree.imports "/app/a.mjs".toList :=
    acyclic_of_not_hasPath (show ¬HasPath diamondTree.imports 3 _ by decide)
  obtain ⟨s', spec, evs, hcomes, hevs, honce⟩ :=
    h Int.ofNat _ diamondTree (Store.start fun _ ↦ ∅) _ _ hinj hentry hpath hacyclic
  obtain ⟨depth, s'', spec', hcomes', hshort, hloaded⟩ :=
    comesTo_of_acyclic hinj (cacheInv_start (Store.start fun _ ↦ ∅)) hentry hpath hacyclic true
  obtain ⟨evs', hevs', hlinked⟩ := hloaded.events
  obtain ⟨rfl, hspec⟩ := Prod.mk.inj (hcomes.unique hcomes')
  obtain rfl : spec = spec' := Option.some_inj.mp (Except.ok.inj hspec)
  obtain rfl : evs = evs' := List.append_cancel_left (hevs.symm.trans hevs')
  have hunshared := (hlinked.loadedOnce_iff hshort).mp honce
  have hchild : ∀ p q, q ∈ diamondTree.imports p →
      Relation.ReflTransGen (Child diamondTree.imports) p q := fun p q hq ↦ .single hq
  exact absurd (hunshared.parent_unique "/app/b.mjs".toList "/app/c.mjs".toList
    "/app/d.mjs".toList (hchild _ _ (by decide)) (hchild _ _ (by decide)) (by decide)
    (by decide)) (by decide)

end SlimTS
