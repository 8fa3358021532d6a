import SlimTS.CommandLine.Argv
import SlimTS.Module.PathSearch
import SlimTS.Module.Resolver

/-!
# The two caches of the resolver agree

One cache is keyed by specifier, the other by the hash of the module. Importing a file again
overwrites an entry of the first and adds one to the second; importing a plugin again takes the old
entry out of both, finding it in the second by a linear search on the name. The invariant says why
this works: entries of the hash cache are filed under their own modules, the other cache points
into the hash cache, and a plugin's entry is in both, so that the search finds it and takes out no
other. File modules never carry the name of a plugin, so no plugin import takes one out.

An entry script is not named like a plugin. There are two calls of `resolve_imports`, both on behalf
of `slim::start`: for the compiler, by the url it has in its library, and for the script of the
command line, by the absolute path that `is_script` has made of an argument.
-/

namespace SlimTS

/-- The entry scripts are not named like plugins. -/
def ResolverAction.EntryIsFile : ResolverAction → Prop
  | .entry _ (.name specifierString) _ => specifierString ∉ pluginsSet
  | .entry _ (.definition url _) _ => url ∉ pluginsSet
  | _ => True

instance : DecidablePred ResolverAction.EntryIsFile
  | .entry _ (.name specifierString) _ => inferInstanceAs (Decidable (specifierString ∉ pluginsSet))
  | .entry _ (.definition url _) _ => inferInstanceAs (Decidable (url ∉ pluginsSet))
  | .plugin _ _ | .file _ _ _ | .answered _ _ _ => isTrue trivial

/-- The url under which `slim::start` finds the compiler in its library. -/
def compilerUrl : Str := "file:///bin/typescript.mjs".toList

/-- The entry scripts are the ones that `slim::start` launches: the compiler, and a script that
`is_script` has accepted. -/
def ResolverAction.Launched : ResolverAction → Prop
  | .entry _ (.name specifierString) _ =>
    ∃ e argument, isScript e argument = .ok (some specifierString)
  | .entry _ (.definition url _) _ => url = compilerUrl
  | _ => True

/-- What `slim::start` launches is not named like a plugin. -/
theorem ResolverAction.Launched.entryIsFile {a : ResolverAction} (h : a.Launched) :
    a.EntryIsFile := by
  cases a with
  | entry env script isEntryPoint =>
    cases script with
    | name specifierString =>
      obtain ⟨e, argument, hscript⟩ := h
      have hplugins : ∀ name ∈ pluginsSet, name.head? ≠ some '/' := by decide
      exact fun hplugin ↦ hplugins _ hplugin (length_le_of_isScript hscript).1
    | definition url file =>
      have hurl : url = compilerUrl := h
      rw [hurl]
      exact show compilerUrl ∉ pluginsSet by decide
  | plugin | file | answered => trivial

theorem ResolverAction.Nested.entryIsFile {a : ResolverAction} (h : a.Nested) : a.EntryIsFile := by
  cases a with
  | entry => exact h.elim
  | plugin | file | answered => trivial

namespace ResolverState

variable {identityHash : ModuleId → ℤ} {env : Environment} {s : ResolverState}

/-- The invariant. -/
structure CacheInv (identityHash : ModuleId → ℤ) (s : ResolverState) : Prop where
  /-- Entries of the hash cache are under the hash of their module, which V8 has made. -/
  own_hash : ∀ h spec, s.byHashIdCache.lookup h = some spec →
    h = identityHash spec.v8Module ∧ spec.v8Module < s.modules
  /-- Entries of the specifier cache are under their specifier, and in the hash cache. -/
  own_specifier : ∀ name spec, s.bySpecifierCache.lookup name = some spec →
    name = spec.specifierString ∧ s.byHashIdCache.lookup (identityHash spec.v8Module) = some spec
  /-- Files are not named like plugins. -/
  file_name : ∀ h spec, s.byHashIdCache.lookup h = some spec → spec.hasModule = true →
    spec.specifierString ∉ pluginsSet
  /-- A plugin's entry is in both caches. -/
  plugin_current : ∀ h spec, s.byHashIdCache.lookup h = some spec →
    spec.specifierString ∈ pluginsSet →
    s.bySpecifierCache.lookup spec.specifierString = some spec

theorem cacheInv_start (store : Store) : CacheInv identityHash (start store) where
  own_hash _ _ h := by simp [start] at h
  own_specifier _ _ h := by simp [start] at h
  file_name _ _ h := by simp [start] at h
  plugin_current _ _ h := by simp [start] at h

/-- The invariant is about the caches. -/
theorem CacheInv.of_eq {s' : ResolverState} (inv : CacheInv identityHash s)
    (hspecifier : s'.bySpecifierCache = s.bySpecifierCache)
    (hhash : s'.byHashIdCache = s.byHashIdCache) (hmodules : s'.modules = s.modules) :
    CacheInv identityHash s' where
  own_hash := hhash ▸ hmodules ▸ inv.own_hash
  own_specifier := hspecifier ▸ hhash ▸ inv.own_specifier
  file_name := hhash ▸ inv.file_name
  plugin_current := hspecifier ▸ hhash ▸ inv.plugin_current

/-- Two entries of the hash cache with one plugin's name are one entry. -/
theorem CacheInv.plugin_unique (inv : CacheInv identityHash s) {name : Str}
    (hname : name ∈ pluginsSet) {h h' : ℤ} {spec spec' : ModuleSpecifier}
    (hs : s.byHashIdCache.lookup h = some spec) (hs' : s.byHashIdCache.lookup h' = some spec')
    (hn : spec.specifierString = name) (hn' : spec'.specifierString = name) : h = h' := by
  have h1 := inv.plugin_current h spec hs (hn ▸ hname)
  have h2 := inv.plugin_current h' spec' hs' (hn' ▸ hname)
  rw [hn] at h1
  rw [hn', h1, Option.some_inj] at h2
  rw [(inv.own_hash h spec hs).1, (inv.own_hash h' spec' hs').1, h2]

/-! ## Caching a specifier -/

/-- Caching the specifier of a new module: a file's, or a plugin's that no entry names. -/
theorem CacheInv.cacheImportSpecifier (hinj : Function.Injective identityHash)
    (inv : CacheInv identityHash s) {spec : ModuleSpecifier} (hnew : spec.v8Module = s.modules)
    (hfile : spec.hasModule = true → spec.specifierString ∉ pluginsSet)
    (hplugin : spec.specifierString ∈ pluginsSet →
      ∀ h spec', s.byHashIdCache.lookup h = some spec' →
        spec'.specifierString ≠ spec.specifierString) :
    CacheInv identityHash
      { s.cacheImportSpecifier identityHash spec with modules := s.modules + 1 } := by
  -- No entry is under the hash of a module that has just been made.
  have hfresh : ∀ h spec', s.byHashIdCache.lookup h = some spec' →
      h ≠ identityHash spec.v8Module := by
    intro h spec' hs heq
    obtain ⟨hown, hlt⟩ := inv.own_hash h spec' hs
    have hmodule : spec'.v8Module = s.modules := (hinj (hown.symm.trans heq)).trans hnew
    exact absurd (hmodule ▸ hlt) (lt_irrefl _)
  constructor
  case own_hash =>
    intro h spec' hs
    rcases lookup_insert_eq_some_iff.mp hs with ⟨rfl, rfl⟩ | ⟨-, hs⟩
    · exact ⟨rfl, by simp [hnew]⟩
    · exact ⟨(inv.own_hash h spec' hs).1, Nat.lt_succ_of_lt (inv.own_hash h spec' hs).2⟩
  case own_specifier =>
    intro name spec' hs
    rcases lookup_insert_eq_some_iff.mp hs with ⟨rfl, rfl⟩ | ⟨-, hs⟩
    · exact ⟨rfl, AList.lookup_insert _⟩
    · obtain ⟨hown, hhash⟩ := inv.own_specifier name spec' hs
      exact ⟨hown, (AList.lookup_insert_ne (hfresh _ _ hhash)).trans hhash⟩
  case file_name =>
    intro h spec' hs hmod
    rcases lookup_insert_eq_some_iff.mp hs with ⟨-, rfl⟩ | ⟨-, hs⟩
    · exact hfile hmod
    · exact inv.file_name h spec' hs hmod
  case plugin_current =>
    intro h spec' hs hname
    rcases lookup_insert_eq_some_iff.mp hs with ⟨-, rfl⟩ | ⟨-, hs⟩
    · exact AList.lookup_insert _
    · have hne : spec'.specifierString ≠ spec.specifierString := fun heq ↦
        hplugin (heq ▸ hname) h spec' hs heq
      exact (AList.lookup_insert_ne hne).trans (inv.plugin_current h spec' hs hname)

/-! ## Importing a plugin -/

theorem forgetPlugin_of_lookup_eq_none {name : Str} (h : s.bySpecifierCache.lookup name = none) :
    s.forgetPlugin name = s := by
  have hmem : name ∉ s.bySpecifierCache := AList.lookup_eq_none.mp h
  rw [ResolverState.forgetPlugin, if_neg hmem]

/-- The entries with the name of a cached plugin. -/
theorem CacheInv.specifierString_eq_iff (inv : CacheInv identityHash s) {name : Str}
    (hname : name ∈ pluginsSet) {spec : ModuleSpecifier}
    (hspec : s.bySpecifierCache.lookup name = some spec) {h : ℤ} {spec' : ModuleSpecifier}
    (hs : s.byHashIdCache.lookup h = some spec') :
    spec'.specifierString = name ↔ h = identityHash spec.v8Module := by
  obtain ⟨hown, hhash⟩ := inv.own_specifier name spec hspec
  constructor
  · exact fun hn ↦ inv.plugin_unique hname hs hhash hn hown.symm
  · rintro rfl
    rw [hhash, Option.some_inj] at hs
    rw [← hs, hown]

/-- The search of a plugin import finds the entry that the specifier cache has. -/
theorem CacheInv.forgetPlugin_eq (inv : CacheInv identityHash s) {name : Str}
    (hname : name ∈ pluginsSet) {spec : ModuleSpecifier}
    (hspec : s.bySpecifierCache.lookup name = some spec) : s.forgetPlugin name =
      { s with
        byHashIdCache := s.byHashIdCache.erase (identityHash spec.v8Module)
        bySpecifierCache := s.bySpecifierCache.erase name } := by
  obtain ⟨hown, hhash⟩ := inv.own_specifier name spec hspec
  have hmem : name ∈ s.bySpecifierCache := AList.lookup_isSome.mp (by rw [hspec]; rfl)
  rw [ResolverState.forgetPlugin, if_pos hmem]
  split
  · next hnone =>
    rw [List.find?_eq_none] at hnone
    have := hnone ⟨_, spec⟩ (AList.mem_lookup_iff.mp hhash)
    simp [hown] at this
  · next entry hentry =>
    have hlookup : s.byHashIdCache.lookup entry.1 = some entry.2 :=
      AList.mem_lookup_iff.mpr (List.mem_of_find?_eq_some hentry)
    have hentryName : entry.2.specifierString = name := by simpa using List.find?_some hentry
    rw [(inv.specifierString_eq_iff hname hspec hlookup).mp hentryName]

/-- What the loop of a plugin import leaves: the invariant, no entry with the plugin's name, and
every other entry. -/
theorem CacheInv.forgetPlugin (inv : CacheInv identityHash s) {name : Str}
    (hname : name ∈ pluginsSet) :
    CacheInv identityHash (s.forgetPlugin name) ∧
      (∀ h spec, (s.forgetPlugin name).byHashIdCache.lookup h = some spec →
        spec.specifierString ≠ name) ∧
      ∀ h spec, s.byHashIdCache.lookup h = some spec → spec.specifierString ≠ name →
        (s.forgetPlugin name).byHashIdCache.lookup h = some spec := by
  cases hlookup : s.bySpecifierCache.lookup name with
  | none =>
    rw [forgetPlugin_of_lookup_eq_none hlookup]
    refine ⟨inv, fun h spec hs hn ↦ ?_, fun h spec hs _ ↦ hs⟩
    have hcurrent := inv.plugin_current h spec hs (hn ▸ hname)
    rw [hn, hlookup] at hcurrent
    cases hcurrent
  | some spec =>
    have hkey : ∀ {h spec'}, s.byHashIdCache.lookup h = some spec' →
        (spec'.specifierString ≠ name ↔ h ≠ identityHash spec.v8Module) :=
      fun hs ↦ (inv.specifierString_eq_iff hname hlookup hs).not
    rw [inv.forgetPlugin_eq hname hlookup]
    refine ⟨?_, fun h spec' hs ↦ ?_, fun h spec' hs hn ↦ ?_⟩
    · constructor
      case own_hash =>
        exact fun h spec' hs ↦ inv.own_hash h spec' (lookup_erase_eq_some_iff.mp hs).2
      case own_specifier =>
        intro name' spec' hs
        obtain ⟨hn, hs⟩ := lookup_erase_eq_some_iff.mp hs
        obtain ⟨hown', hhash'⟩ := inv.own_specifier name' spec' hs
        exact ⟨hown', lookup_erase_eq_some_iff.mpr ⟨(hkey hhash').mp (hown' ▸ hn), hhash'⟩⟩
      case file_name =>
        exact fun h spec' hs ↦ inv.file_name h spec' (lookup_erase_eq_some_iff.mp hs).2
      case plugin_current =>
        intro h spec' hs hn
        obtain ⟨hh, hs⟩ := lookup_erase_eq_some_iff.mp hs
        exact lookup_erase_eq_some_iff.mpr ⟨(hkey hs).mpr hh, inv.plugin_current h spec' hs hn⟩
    · obtain ⟨hh, hs⟩ := lookup_erase_eq_some_iff.mp hs
      exact (hkey hs).mpr hh
    · exact lookup_erase_eq_some_iff.mpr ⟨(hkey hs).mp hn, hs⟩

@[simp] theorem forgetPlugin_modules (s : ResolverState) (name : Str) :
    (s.forgetPlugin name).modules = s.modules := by
  rw [ResolverState.forgetPlugin]
  split
  · split <;> rfl
  · rfl

theorem CacheInv.importPlugin (hinj : Function.Injective identityHash)
    (inv : CacheInv identityHash s) {name : Str} (hname : name ∈ pluginsSet) :
    CacheInv identityHash (s.importPlugin identityHash env name).1 := by
  obtain ⟨hforgot, hnone, -⟩ := inv.forgetPlugin hname
  rw [ResolverState.importPlugin]
  simp only
  split
  · have hnew : (pluginSpecifier name (s.forgetPlugin name).modules).v8Module
        = (s.forgetPlugin name).modules := rfl
    exact (hforgot.cacheImportSpecifier hinj hnew (fun h ↦ by cases h) fun _ ↦ hnone).of_eq
      rfl rfl rfl
  · exact hforgot

/-! ## Importing a file -/

theorem importFile_of_ok {s : ResolverState} {script : VariantSpecifier} {isEntryPoint : Bool}
    {referrerPath : Option Str} {constructed : Constructed} {spec : ModuleSpecifier}
    {requests : List Str}
    (hconstruct : env.construct s.store script isEntryPoint referrerPath = .ok constructed)
    (hcompile : env.compileModule s.modules constructed.specifier = .ok (spec, requests)) :
    s.importFile identityHash env script isEntryPoint referrerPath =
      ({ s.cacheImportSpecifier identityHash spec with
          store := constructed.store
          modules := s.modules + 1
          history := s.history ++ constructed.events ++
            [.compiled spec.specifierPath spec.v8Module spec.specifierSourceCode] },
        .ok (spec, requests)) := by
  rw [importFile, hconstruct]
  simp only [hcompile]
  rfl

/-- What `importFile` does to the caches: nothing, or it caches the specifier of a new module of a
file. -/
theorem importFile_cases (s : ResolverState) (script : VariantSpecifier) (isEntryPoint : Bool)
    (referrerPath : Option Str) :
    (∃ s' fault, s.importFile identityHash env script isEntryPoint referrerPath =
        (s', .error fault) ∧ s'.bySpecifierCache = s.bySpecifierCache ∧
        s'.byHashIdCache = s.byHashIdCache ∧ s'.modules = s.modules) ∨
    ∃ constructed spec requests, env.construct s.store script isEntryPoint referrerPath =
        .ok constructed ∧
      env.compileModule s.modules constructed.specifier = .ok (spec, requests) ∧
      s.importFile identityHash env script isEntryPoint referrerPath =
        ({ s.cacheImportSpecifier identityHash spec with
            store := constructed.store
            modules := s.modules + 1
            history := s.history ++ constructed.events ++
              [.compiled spec.specifierPath spec.v8Module spec.specifierSourceCode] },
          .ok (spec, requests)) := by
  cases hconstruct : env.construct s.store script isEntryPoint referrerPath with
  | error fault => exact Or.inl ⟨s, fault, by rw [importFile, hconstruct], rfl, rfl, rfl⟩
  | ok constructed =>
    cases hcompile : env.compileModule s.modules constructed.specifier with
    | error fault =>
      refine Or.inl ⟨{ s with
        store := constructed.store
        history := s.history ++ constructed.events }, fault, ?_, rfl, rfl, rfl⟩
      rw [importFile, hconstruct]
      simp only [hcompile]
    | ok result =>
      exact Or.inr ⟨constructed, result.1, result.2, rfl, hcompile,
        importFile_of_ok hconstruct hcompile⟩

theorem compileModule_eq_ok {module : ModuleId} {specifier : ImportSpecifier}
    {spec : ModuleSpecifier} {requests : List Str}
    (h : env.compileModule module specifier = .ok (spec, requests)) :
    spec = ⟨specifier, module, true⟩ := by
  rw [Environment.compileModule] at h
  obtain ⟨code, -, h⟩ := bind_eq_ok h
  split at h
  · cases h
  · cases h
    rfl

theorem construct_specifierString {store : Store} {specifierString : Str} {isEntryPoint : Bool}
    {referrerPath : Option Str} {constructed : Constructed}
    (h : env.construct store (.name specifierString) isEntryPoint referrerPath = .ok constructed) :
    ∃ resolution, env.resolveModulePath referrerPath specifierString = .ok resolution ∧
      constructed.specifier.specifierString = resolution.specifierString := by
  rw [Environment.construct] at h
  obtain ⟨resolution, hresolve, h⟩ := bind_eq_ok h
  obtain ⟨text, -, h⟩ := bind_eq_ok h
  obtain ⟨transpiled, -, h⟩ := bind_eq_ok h
  cases h
  exact ⟨resolution, hresolve, rfl⟩

/-- The specifier constructed for a file is not the name of a plugin. -/
theorem construct_not_plugin {store : Store} {script : VariantSpecifier} {isEntryPoint : Bool}
    {referrerPath : Option Str} {constructed : Constructed}
    (hscript : (ResolverAction.entry env script isEntryPoint).EntryIsFile)
    (h : env.construct store script isEntryPoint referrerPath = .ok constructed) :
    constructed.specifier.specifierString ∉ pluginsSet := by
  cases script with
  | definition url file =>
    rw [Environment.construct] at h
    obtain ⟨text, -, h⟩ := bind_eq_ok h
    cases h
    exact hscript
  | name specifierString =>
    obtain ⟨resolution, hresolve, hname⟩ := construct_specifierString h
    rw [hname]
    rcases env.resolveModulePath_specifierString hresolve with heq | hdot
    · rw [heq]
      exact hscript
    · have hplugins : ∀ name ∈ pluginsSet, '.' ∉ name := by decide
      exact fun hplugin ↦ hplugins _ hplugin hdot

theorem CacheInv.importFile (hinj : Function.Injective identityHash)
    (inv : CacheInv identityHash s) {script : VariantSpecifier} {isEntryPoint : Bool}
    {referrerPath : Option Str}
    (hfile : ∀ constructed, env.construct s.store script isEntryPoint referrerPath =
      .ok constructed → constructed.specifier.specifierString ∉ pluginsSet) :
    CacheInv identityHash (s.importFile identityHash env script isEntryPoint referrerPath).1 := by
  rcases s.importFile_cases script isEntryPoint referrerPath with
    ⟨s', fault, heq, hspecifier, hhash, hmodules⟩ | ⟨constructed, spec, requests, hcon, hcomp, heq⟩
  · rw [heq]
    exact inv.of_eq hspecifier hhash hmodules
  · rw [heq]
    have hspec := compileModule_eq_ok hcomp
    have hname : spec.specifierString ∉ pluginsSet := by
      rw [hspec]
      exact hfile constructed hcon
    exact (inv.cacheImportSpecifier hinj (by rw [hspec]) (fun _ ↦ hname)
      (fun hplugin ↦ absurd hplugin hname)).of_eq rfl rfl rfl

/-! ## Whole runs -/

theorem CacheInv.step (hinj : Function.Injective identityHash) (s : ResolverState)
    (a : ResolverAction) (s' : ResolverState) (inv : CacheInv identityHash s)
    (ha : a.EntryIsFile) (h : s.step identityHash a = some s') : CacheInv identityHash s' := by
  cases a with
  | plugin env name =>
    rw [ResolverState.step, Option.ite_none_right_eq_some, Option.some_inj] at h
    exact h.2 ▸ inv.importPlugin hinj h.1
  | file env referrer name =>
    rw [ResolverState.step, Option.ite_none_left_eq_some, Option.some_inj] at h
    have hscript : (ResolverAction.entry env (.name name) false).EntryIsFile := h.1
    exact h.2 ▸ inv.importFile hinj fun _ hcon ↦ construct_not_plugin hscript hcon
  | entry env script isEntryPoint =>
    exact Option.some_inj.mp h ▸ inv.importFile hinj fun _ hcon ↦ construct_not_plugin ha hcon
  | answered referrer name module => exact Option.some_inj.mp h ▸ inv.of_eq rfl rfl rfl

/-- The entries of file modules stay. -/
theorem CacheInv.file_entry_step (hinj : Function.Injective identityHash)
    (inv : CacheInv identityHash s) {a : ResolverAction} {s' : ResolverState}
    (h : s.step identityHash a = some s') {hashId : ℤ} {spec : ModuleSpecifier}
    (hs : s.byHashIdCache.lookup hashId = some spec) (hmod : spec.hasModule = true) :
    s'.byHashIdCache.lookup hashId = some spec := by
  have hne : hashId ≠ identityHash s.modules := by
    intro heq
    obtain ⟨hown, hlt⟩ := inv.own_hash hashId spec hs
    exact absurd (hinj (hown.symm.trans heq) ▸ hlt) (lt_irrefl _)
  have hfile : ∀ env script isEntryPoint referrerPath,
      (s.importFile identityHash env script isEntryPoint referrerPath).1.byHashIdCache.lookup
        hashId = some spec := by
    intro env script isEntryPoint referrerPath
    rcases s.importFile_cases script isEntryPoint referrerPath with
      ⟨s', fault, heq, -, hhash, -⟩ | ⟨constructed, spec', requests, -, hcomp, heq⟩
    · rw [heq]
      exact hhash ▸ hs
    · rw [heq, compileModule_eq_ok hcomp]
      exact (AList.lookup_insert_ne hne).trans hs
  cases a with
  | plugin env name =>
    rw [ResolverState.step, Option.ite_none_right_eq_some, Option.some_inj] at h
    obtain ⟨hname, rfl⟩ := h
    have hkept := (inv.forgetPlugin hname).2.2 hashId spec hs
      fun heq ↦ inv.file_name hashId spec hs hmod (heq ▸ hname)
    rw [ResolverState.importPlugin]
    simp only
    split
    · exact (AList.lookup_insert_ne (by rwa [forgetPlugin_modules])).trans hkept
    · exact hkept
  | file env referrer name =>
    rw [ResolverState.step, Option.ite_none_left_eq_some, Option.some_inj] at h
    exact h.2 ▸ hfile _ _ _ _
  | entry env script isEntryPoint => exact Option.some_inj.mp h ▸ hfile _ _ _ _
  | answered referrer name module => exact Option.some_inj.mp h ▸ hs

open Transition

theorem cacheInv_of_reaches (hinj : Function.Injective identityHash) {store : Store}
    (hs : Reaches (step identityHash) ResolverAction.EntryIsFile (start store) s) :
    CacheInv identityHash s :=
  hs.invariant (CacheInv.step hinj) (cacheInv_start store)

/-- A file module's entry is in the hash cache for good. -/
theorem CacheInv.file_entry_reaches (hinj : Function.Injective identityHash)
    (inv : CacheInv identityHash s) {s' : ResolverState}
    (h : Reaches (ResolverState.step identityHash) ResolverAction.EntryIsFile s s') {hashId : ℤ}
    {spec : ModuleSpecifier} (hs : s.byHashIdCache.lookup hashId = some spec)
    (hmod : spec.hasModule = true) : s'.byHashIdCache.lookup hashId = some spec := by
  have key : CacheInv identityHash s' ∧ s'.byHashIdCache.lookup hashId = some spec :=
    h.invariant (I := fun s ↦ CacheInv identityHash s ∧ s.byHashIdCache.lookup hashId = some spec)
      (fun s a s' ⟨inv, hs⟩ ha hstep ↦
        ⟨inv.step hinj s a s' ha hstep, inv.file_entry_step hinj hstep hs hmod⟩) ⟨inv, hs⟩
  exact key.2

/-- **The caches agree.** In every state that imports and the entry resolutions of `slim::start`
lead to, the specifier cache points into the hash cache, file modules keep their own specifiers
under their own hashes for the rest of the run, and no plugin has two entries in the hash cache. -/
theorem caches_consistent (hinj : Function.Injective identityHash) {store : Store}
    (hs : Reaches (step identityHash) ResolverAction.Launched (start store) s) :
    (∀ name spec, s.bySpecifierCache.lookup name = some spec →
      s.byHashIdCache.lookup (identityHash spec.v8Module) = some spec) ∧
    (∀ module spec, s.byHashIdCache.lookup (identityHash module) = some spec →
      spec.hasModule = true → spec.v8Module = module ∧
      ∀ s', Reaches (step identityHash) ResolverAction.Launched s s' →
        s'.getImportSpecifierByHashId (identityHash module) = spec.toImportSpecifier) ∧
    ∀ name ∈ pluginsSet, ∀ h h' spec spec', s.byHashIdCache.lookup h = some spec →
      s.byHashIdCache.lookup h' = some spec' → spec.specifierString = name →
      spec'.specifierString = name → h = h' := by
  have inv := cacheInv_of_reaches hinj (hs.mono fun _ ↦ ResolverAction.Launched.entryIsFile)
  refine ⟨fun name spec h ↦ (inv.own_specifier name spec h).2, fun module spec h hmod ↦ ?_,
    fun name hname h h' spec spec' ↦ inv.plugin_unique hname⟩
  refine ⟨(hinj (inv.own_hash _ spec h).1).symm, fun s' hs' ↦ ?_⟩
  rw [getImportSpecifierByHashId, inv.file_entry_reaches hinj
    (hs'.mono fun _ ↦ ResolverAction.Launched.entryIsFile) h hmod]

/-- An entry script that imports a plugin, twice over. -/
def pluginTwice : List ResolverAction :=
  let env := Environment.plain "/".toList
    (fun p ↦ if p = "/a.mjs".toList then some "import fs".toList else none) (fun _ ↦ ["fs".toList])
  [.entry env (.name "/a.mjs".toList) true, .plugin env "fs".toList, .plugin env "fs".toList]

theorem caches_consistent_pluginTwice :
    ∃ s, runFrom (step Int.ofNat) (start (Store.start fun _ ↦ ∅)) pluginTwice = some s ∧
      s.byHashIdCache.keys = [2, 0] ∧
      ∀ name spec, s.bySpecifierCache.lookup name = some spec →
        s.byHashIdCache.lookup (Int.ofNat spec.v8Module) = some spec := by
  have hkeys : (runFrom (step Int.ofNat) (start (Store.start fun _ ↦ ∅)) pluginTwice).map
      (fun s ↦ s.byHashIdCache.keys) = some [2, 0] := by rfl
  obtain ⟨s, hs, hkeys⟩ := Option.map_eq_some_iff.mp hkeys
  have hscript : ∃ e argument, isScript e argument = .ok (some "/a.mjs".toList) :=
    ⟨homeEnvironment, "/a.mjs".toList, by rfl⟩
  have hlaunched : ∀ a ∈ pluginTwice, a.Launched := by
    intro a ha
    rcases ha with _ | ⟨_, _ | ⟨_, _ | ⟨_, ha⟩⟩⟩
    · exact hscript
    · trivial
    · trivial
    · exact absurd ha List.not_mem_nil
  exact ⟨s, hs, hkeys,
    (caches_consistent (fun _ _ h ↦ Int.ofNat.inj h) ⟨pluginTwice, hlaunched, hs⟩).1⟩

end ResolverState

end SlimTS
