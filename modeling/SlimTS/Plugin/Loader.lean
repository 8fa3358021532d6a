import Mathlib.Data.List.AList
import SlimTS.Common.Network.Metrics
import SlimTS.Library.References

/-!
# The plugin loader

`load_plugin` opens the library of a plugin and puts the handle in the table of the loaded plugins,
under the name of the plugin and in place of what was there. `destroy` closes what is in the table.
What the calls find is a parameter: whether there is a file, what `dlopen` gives for it, and whether
a library has the symbol `expose_plugin`. A handle stands for its library, which counts how often it
has been opened; a library that has the symbol has it whenever it is opened.

The table keeps one handle for each name. It is the right one if the last call for the name has
exposed the plugin and no call before it has: a second success leaves a handle without an owner, and
what failed at last leaves a null or a closed handle for `destroy`. Nothing makes up for either
(`balanced_iff_keepsHandles`).
-/

namespace SlimTS

open References Transition

variable {L : Type}

/-! ## Loading -/

/-- What a call of `load_plugin` finds. -/
inductive LoadAnswer (L : Type)
  /-- There is no file. -/
  | notFound
  /-- `dlopen` fails, with the text of `dlerror`. -/
  | notOpened (error : Str)
  /-- `dlopen` gives a handle. The text is that of `dlerror` if the symbol is not found. -/
  | opened (library : L) (error : Str)
deriving DecidableEq

/-- A call of `load_plugin`. -/
structure LoadCall (L : Type) where
  pluginName : Str
  answer : LoadAnswer L
deriving DecidableEq

/-- `loaded_plugins`, and a log of the calls of `dlopen` and `dlclose`. -/
structure LoaderState (L : Type) where
  loadedPlugins : AList fun _ : Str ↦ Option L
  history : List (References.Event L)

/-- The state at program start. -/
def LoaderState.start : LoaderState L where
  loadedPlugins := ∅
  history := []

namespace LoadCall

/-- There is a file. -/
def found (call : LoadCall L) : Bool :=
  match call.answer with
  | .notFound => false
  | _ => true

/-- The handle `dlopen` gives. -/
def handle (call : LoadCall L) : Option L :=
  match call.answer with
  | .opened library _ => some library
  | _ => none

/-- No call of a list opens the library for the same name again. -/
def IsLast (call : LoadCall L) (calls : List (LoadCall L)) : Prop :=
  ∀ later ∈ calls, later.found = true → later.pluginName ≠ call.pluginName

instance (call : LoadCall L) (calls : List (LoadCall L)) : Decidable (call.IsLast calls) :=
  inferInstanceAs (Decidable (∀ later ∈ calls, _ → _))

/-- The library of a plugin the call gets to. -/
def exposed (exposes : L → Bool) (call : LoadCall L) : Option L := call.handle.filter exposes

/-- The exception of a call. -/
def exception (pluginLibraryPath : Str) (exposes : L → Bool) (call : LoadCall L) : Option Str :=
  match call.answer with
  | .notFound => some ("error loading plugin name => ".toList ++ call.pluginName
      ++ " file not found => ".toList ++ (pluginLibraryPath ++ call.pluginName ++ ".so".toList))
  | .notOpened error => some ("error loading plugin name => ".toList ++ call.pluginName
      ++ " error => ".toList ++ error)
  | .opened library error =>
    if exposes library then none
    else some ("error loading symbols for plugin name => ".toList ++ call.pluginName
      ++ " error => ".toList ++ error)

end LoadCall

namespace LoaderState

/-- `load_plugin`. -/
def loadPlugin (exposes : L → Bool) (s : LoaderState L) (call : LoadCall L) : LoaderState L :=
  match call.answer with
  | .notFound => s
  | .notOpened _ => { s with loadedPlugins := s.loadedPlugins.insert call.pluginName none }
  | .opened library _ =>
    { s with
      loadedPlugins := s.loadedPlugins.insert call.pluginName (some library)
      -- The handle stays in the table when the library is closed here.
      history := s.history ++ .acquired library ::
        if exposes library then [] else [.released (some library)] }

/-- `destroy`: the handles in the order of the table. -/
def destroy (order : IterationOrder (Option L)) (s : LoaderState L) : LoaderState L :=
  { s with
    history := s.history ++ (order.order s.loadedPlugins).map fun plugin ↦
      .released ((s.loadedPlugins.lookup plugin.1).getD none) }

end LoaderState

variable (exposes : L → Bool)

/-- The calls, and then `destroy`. -/
def loadAndDestroy (order : IterationOrder (Option L)) (calls : List (LoadCall L)) :
    LoaderState L :=
  (calls.foldl (LoaderState.loadPlugin exposes) .start).destroy order

/-- Of the calls for a name that find a file, the last exposes the plugin, and no other does. -/
def KeepsHandles : List (LoadCall L) → Prop
  | [] => True
  | call :: calls =>
    (call.found = true → ((call.exposed exposes).isSome = true ↔ call.IsLast calls)) ∧
      KeepsHandles calls

/-! ## The log -/

variable {exposes} {s : LoaderState L} {call : LoadCall L} {calls : List (LoadCall L)}

/-- A call throws nothing exactly if it gets to the plugin. -/
theorem exception_eq_none_iff (pluginLibraryPath : Str) :
    call.exception pluginLibraryPath exposes = none ↔ (call.exposed exposes).isSome = true := by
  rw [LoadCall.exception, LoadCall.exposed, LoadCall.handle]
  cases call.answer with
  | notFound => simp
  | notOpened error => simp
  | opened library error => cases h : exposes library <;> simp [h, Option.filter]

/-- A call adds a reference if it gets to the plugin, and none otherwise. -/
theorem runFrom_loadPlugin [DecidableEq L] {libraries : List L} (call : LoadCall L)
    (h : runFrom step (fun _ ↦ 0) s.history = some (held libraries)) :
    runFrom step (fun _ ↦ 0) (s.loadPlugin exposes call).history
      = some (held ((call.exposed exposes).toList ++ libraries)) := by
  rw [LoaderState.loadPlugin, LoadCall.exposed, LoadCall.handle]
  cases call.answer with
  | notFound => exact h
  | notOpened error => exact h
  | opened library error =>
    simp only
    rw [runFrom_append, h, Option.bind_some, runFrom, step_acquired, Option.bind_some]
    by_cases hexposes : exposes library = true
    · rw [if_pos hexposes, Option.filter_some_pos hexposes]
      rfl
    · rw [if_neg hexposes, Option.filter_some_neg (Bool.not_eq_true _ ▸ hexposes), runFrom,
        step_released List.mem_cons_self, List.erase_cons_head]
      rfl

/-- The references after the calls are those of the plugins they have got to. -/
theorem runFrom_foldl_loadPlugin [DecidableEq L] {libraries : List L}
    (h : runFrom step (fun _ ↦ 0) s.history = some (held libraries)) :
    runFrom step (fun _ ↦ 0) (calls.foldl (LoaderState.loadPlugin exposes) s).history
      = some (held ((calls.filterMap (LoadCall.exposed exposes)).reverse ++ libraries)) := by
  induction calls generalizing s libraries with
  | nil => exact h
  | cons call calls ih =>
    rw [List.foldl_cons, ih (runFrom_loadPlugin call h), ← List.append_assoc]
    cases hcall : call.exposed exposes with
    | none => rw [List.filterMap_cons_none hcall, Option.toList_none, List.append_nil]
    | some library => rw [List.filterMap_cons_some hcall, List.reverse_cons, Option.toList_some]

/-! ## The table -/

/-- The calls that find a file and after which no other for the same name does. -/
def lastCalls : List (LoadCall L) → List (LoadCall L)
  | [] => []
  | call :: calls =>
    if call.found = true ∧ call.IsLast calls then call :: lastCalls calls else lastCalls calls

theorem loadedPlugins_of_not_found (h : call.found = false) :
    (s.loadPlugin exposes call).loadedPlugins = s.loadedPlugins := by
  rw [LoaderState.loadPlugin]
  rw [LoadCall.found] at h
  cases hanswer : call.answer with
  | notFound => rfl
  | notOpened error => rw [hanswer] at h; cases h
  | opened library error => rw [hanswer] at h; cases h

theorem loadedPlugins_of_found (h : call.found = true) :
    (s.loadPlugin exposes call).loadedPlugins
      = s.loadedPlugins.insert call.pluginName call.handle := by
  rw [LoaderState.loadPlugin, LoadCall.handle]
  rw [LoadCall.found] at h
  cases hanswer : call.answer with
  | notFound => rw [hanswer] at h; cases h
  | notOpened error => rfl
  | opened library error => rfl

theorem lastCalls_subset (h : call ∈ lastCalls calls) : call ∈ calls ∧ call.found = true := by
  induction calls with
  | nil => cases h
  | cons first calls ih =>
    rw [lastCalls] at h
    split at h
    · next hlast =>
      rcases List.mem_cons.mp h with rfl | h
      · exact ⟨List.mem_cons_self, hlast.1⟩
      · exact (ih h).imp_left (List.mem_cons_of_mem _)
    · exact (ih h).imp_left (List.mem_cons_of_mem _)

theorem LoadCall.IsLast.pluginName_ne {later : LoadCall L} (h : call.IsLast calls)
    (hlater : later ∈ lastCalls calls) : later.pluginName ≠ call.pluginName :=
  h later (lastCalls_subset hlater).1 (lastCalls_subset hlater).2

/-- What the table holds comes from the last call for the name, or was there before the calls. -/
theorem mem_lookup_iff {name : Str} {handle : Option L} :
    handle ∈ (calls.foldl (LoaderState.loadPlugin exposes) s).loadedPlugins.lookup name ↔
      (∃ call ∈ lastCalls calls, call.pluginName = name ∧ call.handle = handle) ∨
        (∀ call ∈ calls, call.found = true → call.pluginName ≠ name) ∧
          handle ∈ s.loadedPlugins.lookup name := by
  induction calls generalizing s with
  | nil => simp [lastCalls]
  | cons call calls ih =>
    rw [List.foldl_cons, ih, List.forall_mem_cons, lastCalls]
    -- A call that finds no library leaves the table as it is, and is no last call.
    by_cases hfound : call.found = true
    · rw [loadedPlugins_of_found hfound]
      by_cases hname : name = call.pluginName
      · subst hname
        rw [AList.lookup_insert]
        -- What this call has put there stays only if no later call has the name.
        by_cases hlast : call.IsLast calls
        · rw [if_pos ⟨hfound, hlast⟩]
          constructor
          · rintro (⟨later, hlater, hname, -⟩ | ⟨-, hhandle⟩)
            · exact absurd hname (hlast.pluginName_ne hlater)
            · exact .inl ⟨call, List.mem_cons_self, rfl, Option.mem_some_iff.mp hhandle⟩
          · rintro (⟨later, hlater, hname, hhandle⟩ | ⟨⟨hself, -⟩, -⟩)
            · rcases List.mem_cons.mp hlater with rfl | hlater
              · exact .inr ⟨hlast, Option.mem_some_iff.mpr hhandle⟩
              · exact absurd hname (hlast.pluginName_ne hlater)
            · exact absurd rfl (hself hfound)
        · rw [if_neg fun h ↦ hlast h.2]
          refine or_congr_right (iff_of_false (fun h ↦ hlast h.1) fun h ↦ ?_)
          exact h.1.1 hfound rfl
      · rw [AList.lookup_insert_ne hname, and_iff_right fun _ ↦ Ne.symm hname]
        refine or_congr_left ?_
        split
        · rw [List.exists_mem_cons_iff, or_iff_right fun h ↦ hname h.1.symm]
        · rfl
    · rw [if_neg fun h ↦ hfound h.1, loadedPlugins_of_not_found (Bool.not_eq_true _ ▸ hfound)]
      simp [hfound]

/-- The last calls are for different names. -/
theorem nodup_lastCalls : ((lastCalls calls).map LoadCall.pluginName).Nodup := by
  induction calls with
  | nil => exact List.nodup_nil
  | cons call calls ih =>
    rw [lastCalls]
    split
    · next hlast =>
      rw [List.map_cons, List.nodup_cons]
      refine ⟨fun hmem ↦ ?_, ih⟩
      obtain ⟨later, hlater, hname⟩ := List.mem_map.mp hmem
      exact hlast.2.pluginName_ne hlater hname
    · exact ih

/-- The entry of the table a call leaves. -/
def LoadCall.entry (call : LoadCall L) : Sigma fun _ : Str ↦ Option L :=
  ⟨call.pluginName, call.handle⟩

/-- The entries of the table are those of the last calls. -/
theorem entries_perm :
    (calls.foldl (LoaderState.loadPlugin exposes) .start).loadedPlugins.entries.Perm
      ((lastCalls calls).map LoadCall.entry) := by
  have hlast : ((lastCalls calls).map LoadCall.entry).Nodup := by
    refine List.Nodup.of_map Sigma.fst ?_
    rw [List.map_map]
    exact nodup_lastCalls
  refine (List.perm_ext_iff_of_nodup (AList.nodupKeys _).nodup hlast).mpr fun plugin ↦ ?_
  rw [← AList.mem_lookup_iff, mem_lookup_iff, List.mem_map, or_iff_left]
  · refine exists_congr fun call ↦ and_congr_right fun _ ↦ ?_
    rw [LoadCall.entry, Sigma.ext_iff, heq_eq_eq]
  · rintro ⟨-, hstart⟩
    cases hstart

/-- The handles that `destroy` closes. -/
def LoaderState.handles (order : IterationOrder (Option L)) (s : LoaderState L) :
    List (Option L) :=
  (order.order s.loadedPlugins).map fun plugin ↦ (s.loadedPlugins.lookup plugin.1).getD none

theorem history_destroy (order : IterationOrder (Option L)) :
    (s.destroy order).history = s.history ++ (s.handles order).map .released := by
  rw [LoaderState.destroy, LoaderState.handles, List.map_map]
  rfl

/-- They are those of the last calls. -/
theorem handles_perm (order : IterationOrder (Option L)) :
    ((calls.foldl (LoaderState.loadPlugin exposes) .start).handles order).Perm
      ((lastCalls calls).map LoadCall.handle) := by
  have hentry : ∀ plugin ∈ order.order
      (calls.foldl (LoaderState.loadPlugin exposes) .start).loadedPlugins,
      ((calls.foldl (LoaderState.loadPlugin exposes) .start).loadedPlugins.lookup
        plugin.1).getD none = plugin.2 := fun plugin hplugin ↦ by
    rw [AList.mem_lookup_iff.mpr ((order.perm _).mem_iff.mp hplugin), Option.getD_some]
  rw [LoaderState.handles, List.map_congr_left hentry]
  refine (((order.perm _).trans entries_perm).map Sigma.snd).trans ?_
  rw [List.map_map]
  rfl

/-! ## The balance -/

/-- What the calls have opened and `destroy` should close is what it closes. -/
theorem balanced_iff_perm [DecidableEq L] (order : IterationOrder (Option L)) :
    IsBalanced (loadAndDestroy exposes order calls).history ↔
      ((lastCalls calls).map LoadCall.handle).Perm
        ((calls.filterMap (LoadCall.exposed exposes)).map some) := by
  have hstart : runFrom step (fun _ ↦ 0) (LoaderState.start (L := L)).history
      = some (held []) := rfl
  rw [IsBalanced, loadAndDestroy, history_destroy, runFrom_append, runFrom_foldl_loadPlugin hstart,
    Option.bind_some, runFrom_releases_iff, List.append_nil]
  have hreverse := (calls.filterMap (LoadCall.exposed exposes)).reverse_perm.map some
  exact ⟨fun h ↦ ((handles_perm order).symm.trans h).trans hreverse,
    fun h ↦ ((handles_perm order).trans h).trans hreverse.symm⟩

theorem LoadCall.exposed_eq_some_iff {library : L} :
    call.exposed exposes = some library ↔ call.handle = some library ∧ exposes library = true :=
  Option.filter_eq_some_iff

theorem LoadCall.found_of_exposed {library : L} (h : call.exposed exposes = some library) :
    call.found = true := by
  obtain ⟨hhandle, -⟩ := LoadCall.exposed_eq_some_iff.mp h
  rw [handle] at hhandle
  rw [found]
  cases hanswer : call.answer with
  | notFound => rw [hanswer] at hhandle; cases hhandle
  | notOpened error => rfl
  | opened library error => rfl

/-- With the right handles in the table, `destroy` closes what is open. -/
theorem map_handle_lastCalls (h : KeepsHandles exposes calls) :
    (lastCalls calls).map LoadCall.handle
      = (calls.filterMap (LoadCall.exposed exposes)).map some := by
  induction calls with
  | nil => rfl
  | cons call calls ih =>
    rw [lastCalls]
    cases hexposed : call.exposed exposes with
    | none =>
      have hlast : ¬(call.found = true ∧ call.IsLast calls) := fun hlast ↦ by
        have hsome := (h.1 hlast.1).mpr hlast.2
        rw [hexposed] at hsome
        cases hsome
      rw [if_neg hlast, List.filterMap_cons_none hexposed, ih h.2]
    | some library =>
      have hfound := LoadCall.found_of_exposed hexposed
      have hlast : call.IsLast calls := (h.1 hfound).mp (hexposed ▸ rfl)
      rw [if_pos ⟨hfound, hlast⟩, List.filterMap_cons_some hexposed, List.map_cons, List.map_cons,
        ih h.2, (LoadCall.exposed_eq_some_iff.mp hexposed).1]

/-- If all last calls get to their plugins, then as many calls as there are names do at least, and
no more do only if the table has the right handles. -/
theorem length_lastCalls_le
    (h : ∀ call ∈ lastCalls calls, (call.exposed exposes).isSome = true) :
    (lastCalls calls).length ≤ (calls.filterMap (LoadCall.exposed exposes)).length ∧
      ((calls.filterMap (LoadCall.exposed exposes)).length ≤ (lastCalls calls).length →
        KeepsHandles exposes calls) := by
  induction calls with
  | nil => exact ⟨le_rfl, fun _ ↦ trivial⟩
  | cons call calls ih =>
    rw [lastCalls] at h ⊢
    -- Each last call has its library, so equal lengths leave none to the others.
    by_cases hlast : call.found = true ∧ call.IsLast calls
    · rw [if_pos hlast] at h ⊢
      obtain ⟨hle, hkeeps⟩ := ih fun later hlater ↦ h later (List.mem_cons_of_mem _ hlater)
      have hexposed := h call List.mem_cons_self
      obtain ⟨library, hlibrary⟩ := Option.isSome_iff_exists.mp hexposed
      rw [List.filterMap_cons_some hlibrary, List.length_cons, List.length_cons]
      refine ⟨Nat.succ_le_succ hle, fun hlength ↦ ⟨fun _ ↦ iff_of_true hexposed hlast.2, ?_⟩⟩
      exact hkeeps (Nat.le_of_succ_le_succ hlength)
    · rw [if_neg hlast] at h ⊢
      obtain ⟨hle, hkeeps⟩ := ih h
      cases hexposed : call.exposed exposes with
      | none =>
        rw [List.filterMap_cons_none hexposed]
        refine ⟨hle, fun hlength ↦ ⟨fun hfound ↦ ?_, hkeeps hlength⟩⟩
        exact iff_of_false (by rw [hexposed]; exact Bool.false_ne_true) fun hl ↦ hlast ⟨hfound, hl⟩
      | some library =>
        rw [List.filterMap_cons_some hexposed, List.length_cons]
        exact ⟨hle.trans (Nat.le_succ _), fun hlength ↦ absurd hle (Nat.not_le_of_lt hlength)⟩

/-- **The handles of the plugins.** After every sequence of calls and `destroy`, in whatever order
it visits the table, every success of `dlopen` has been matched by one `dlclose`, and no other has
been called, if and only if the last call for every name got to the plugin and no other call did. -/
theorem balanced_iff_keepsHandles [DecidableEq L] (exposes : L → Bool)
    (order : IterationOrder (Option L)) (calls : List (LoadCall L)) :
    IsBalanced (loadAndDestroy exposes order calls).history ↔ KeepsHandles exposes calls := by
  rw [balanced_iff_perm]
  constructor
  · intro h
    have hexposed : ∀ call ∈ lastCalls calls, (call.exposed exposes).isSome = true := by
      intro call hcall
      obtain ⟨library, hlibrary, hhandle⟩ :=
        List.mem_map.mp (h.subset (List.mem_map_of_mem hcall))
      obtain ⟨other, -, hother⟩ := List.mem_filterMap.mp hlibrary
      refine Option.isSome_iff_exists.mpr ⟨library, LoadCall.exposed_eq_some_iff.mpr ?_⟩
      exact ⟨hhandle.symm, (LoadCall.exposed_eq_some_iff.mp hother).2⟩
    have hlength := h.length_eq
    rw [List.length_map, List.length_map] at hlength
    exact (length_lastCalls_le hexposed).2 hlength.ge
  · exact fun h ↦ List.Perm.of_eq (map_handle_lastCalls h)

/-- A plugin that is loaded twice. -/
def loadTwice : List (LoadCall Unit) :=
  [⟨"fs".toList, .opened () []⟩, ⟨"fs".toList, .opened () []⟩]

/-- The entries as they are. -/
def entriesOrder (V : Type) : IterationOrder V where
  order m := m.entries
  perm _ := List.Perm.rfl

/-- One of its two handles is not closed. -/
theorem not_balanced_loadTwice :
    ¬∀ (exposes : Unit → Bool) (order : IterationOrder (Option Unit))
      (calls : List (LoadCall Unit)), IsBalanced (loadAndDestroy exposes order calls).history := by
  intro h
  have hbalanced := h (fun _ ↦ true) (entriesOrder _) loadTwice
  rw [balanced_iff_perm] at hbalanced
  exact absurd hbalanced.length_eq (by decide)

end SlimTS
