import SlimTS.Module.Termination

/-!
# Every link goes where the source says

What V8 links a program from is the log of the resolver's answers. Here the log is read back: each
answer to a request goes to a module that was compiled from the file that the specifier resolves to
against the path of the module that asked, or to one made of the plugin that the specifier names;
and each module is made once, of one or the other. This holds of whatever a resolution does, also of
one that fails half way. A resolution that succeeds has answered every request of the code of every
module it compiled, in the order of the source.

The log is put together from the stretches that the nested calls write. Each stretch makes its
modules in a range of its own, so what is said of one stretch stays true when others come before it
and after it (`Links.append`). A stretch may answer requests of a module made before it; which one,
and from what path, is the parameter `outer`.
-/

namespace SlimTS

/-- The module that an event says was made. -/
def ImportEvent.madeModule : ImportEvent → Option ModuleId
  | .synthetic _ module | .compiled _ module _ => some module
  | _ => none

/-- The requests of a module that were answered, in order. -/
def answeredBy (module : ModuleId) (evs : List ImportEvent) : List Str :=
  evs.filterMap fun
    | .answered referrer specifierName _ => if referrer = module then some specifierName else none
    | _ => none

/-- The constructor made this code of the file at the path, and these are its import requests. -/
def RequestsOf (env : Environment) (path : Str) (sourceCode : Option Str) (requests : List Str) :
    Prop :=
  ∃ store script isEntryPoint referrerPath constructed code,
    env.construct store script isEntryPoint referrerPath = .ok constructed ∧
    constructed.specifier.specifierPath = path ∧
    constructed.specifier.specifierSourceCode = sourceCode ∧ sourceCode = some code ∧
    env.moduleRequests code = some requests

/-- What a request made from the path should be answered with. -/
inductive LinksTo (env : Environment) (evs : List ImportEvent) (path specifierName : Str)
    (module : ModuleId) : Prop
  /-- A module made of the plugin of that name, which loads. -/
  | plugin (hname : specifierName ∈ pluginsSet) (hload : env.loadPlugin specifierName = true)
      (hmade : .synthetic specifierName module ∈ evs)
  /-- A module compiled from the file that the name resolves to. -/
  | file (hname : specifierName ∉ pluginsSet) (resolution : Resolution)
      (hresolve : env.resolveModulePath (some path) specifierName = .ok resolution)
      (hmade : CompiledFrom evs resolution.specifierPath module)

/-- A stretch of the log, with the modules from `first` up to `next` made in it. -/
structure Links (env : Environment) (outer : ModuleId → Str → Prop) (first next : ℕ)
    (complete : Prop) (evs : List ImportEvent) : Prop where
  /-- Each of the modules is made once, of one plugin or of one file. -/
  made : evs.filterMap ImportEvent.madeModule = List.range' first (next - first)
  answered_range : ∀ referrer specifierName (module : ℕ),
    .answered referrer specifierName module ∈ evs → first ≤ module ∧ module < next
  /-- Requests are answered as they should be. -/
  answers : ∀ referrer specifierName module, .answered referrer specifierName module ∈ evs →
    ∃ path, (outer referrer path ∨ CompiledFrom evs path referrer) ∧
      LinksTo env evs path specifierName module
  /-- The requests are those of the code the module was compiled from, from the first on; when all
  went well, all. -/
  requests : ∀ path module sourceCode, .compiled path module sourceCode ∈ evs →
    ∃ requests, RequestsOf env path sourceCode requests ∧
      answeredBy module evs <+: requests ∧ (complete → answeredBy module evs = requests)

/-! ## Stretches of the log -/

section Stretches

variable {env : Environment} {outer : ModuleId → Str → Prop} {first mid next : ℕ}
  {complete : Prop} {evs evs' : List ImportEvent}

@[simp] theorem answeredBy_append (module : ModuleId) (evs evs' : List ImportEvent) :
    answeredBy module (evs ++ evs') = answeredBy module evs ++ answeredBy module evs' :=
  List.filterMap_append

theorem answeredBy_eq_nil {module : ModuleId}
    (h : ∀ specifierName child, .answered module specifierName child ∉ evs) :
    answeredBy module evs = [] := by
  rw [answeredBy, List.filterMap_eq_nil_iff]
  intro e he
  cases e with
  | answered referrer specifierName child =>
    have hne : referrer ≠ module := fun heq ↦ h specifierName child (heq ▸ he)
    exact if_neg hne
  | fetched | transpiled | raised | synthetic | compiled => rfl

theorem CompiledFrom.mono {path : Str} {module : ModuleId} (h : CompiledFrom evs path module)
    (hsub : evs ⊆ evs') : CompiledFrom evs' path module := by
  obtain ⟨sourceCode, hmem⟩ := h
  exact ⟨sourceCode, hsub hmem⟩

theorem LinksTo.mono {path specifierName : Str} {module : ModuleId}
    (h : LinksTo env evs path specifierName module) (hsub : evs ⊆ evs') :
    LinksTo env evs' path specifierName module := by
  cases h with
  | plugin hname hload hmade => exact .plugin hname hload (hsub hmade)
  | file hname resolution hresolve hmade => exact .file hname resolution hresolve (hmade.mono hsub)

/-- The events of the constructor. -/
def Neutral (evs : List ImportEvent) : Prop :=
  ∀ e ∈ evs, e.madeModule = none ∧
    ∀ referrer specifierName module, e ≠ .answered referrer specifierName module

namespace Links

theorem of_neutral (h : Neutral evs) (outer : ModuleId → Str → Prop) (first : ℕ)
    (complete : Prop) : Links env outer first first complete evs where
  made := by
    rw [Nat.sub_self, List.range'_zero, List.filterMap_eq_nil_iff]
    exact fun e he ↦ (h e he).1
  answered_range referrer name module hmem := absurd rfl ((h _ hmem).2 referrer name module)
  answers referrer name module hmem := absurd rfl ((h _ hmem).2 referrer name module)
  requests path module sourceCode hmem := absurd (h _ hmem).1 nofun

theorem nil (outer : ModuleId → Str → Prop) (first : ℕ) (complete : Prop) :
    Links env outer first first complete [] :=
  of_neutral (fun _ h ↦ absurd h List.not_mem_nil) outer first complete

/-- The module of a plugin is made. -/
theorem synthetic (outer : ModuleId → Str → Prop) (first : ℕ) (complete : Prop)
    (specifierName : Str) :
    Links env outer first (first + 1) complete [.synthetic specifierName first] where
  made := by
    rw [Nat.add_sub_cancel_left]
    rfl
  answered_range _ _ _ hmem := ImportEvent.noConfusion (List.mem_singleton.mp hmem)
  answers _ _ _ hmem := ImportEvent.noConfusion (List.mem_singleton.mp hmem)
  requests _ _ _ hmem := ImportEvent.noConfusion (List.mem_singleton.mp hmem)

theorem mono {outer' : ModuleId → Str → Prop} {complete' : Prop}
    (h : Links env outer first next complete evs) (houter : ∀ r p, outer r p → outer' r p)
    (hcomplete : complete' → complete) : Links env outer' first next complete' evs where
  made := h.made
  answered_range := h.answered_range
  answers referrer name module hmem := by
    obtain ⟨path, hpath, hlinks⟩ := h.answers referrer name module hmem
    exact ⟨path, hpath.imp_left (houter referrer path), hlinks⟩
  requests path module sourceCode hmem := by
    obtain ⟨requests, hrequests, hsome, hall⟩ := h.requests path module sourceCode hmem
    exact ⟨requests, hrequests, hsome, fun hc ↦ hall (hcomplete hc)⟩

/-- The modules are made in the stretch. -/
theorem compiled_range (h : Links env outer first next complete evs) {path : Str} {module : ℕ}
    (hmem : CompiledFrom evs path module) : first ≤ module ∧ module < next := by
  obtain ⟨sourceCode, hmem⟩ := hmem
  have hmade : module ∈ evs.filterMap ImportEvent.madeModule :=
    List.mem_filterMap.mpr ⟨_, hmem, rfl⟩
  rw [h.made, List.mem_range'_1] at hmade
  omega

/-- A stretch answers no request of a module made in another. -/
theorem answeredBy_eq_nil (h : Links env outer first next complete evs) {module : ℕ}
    (houter : ∀ path, ¬outer module path) (hother : module < first ∨ next ≤ module) :
    answeredBy module evs = [] := by
  refine SlimTS.answeredBy_eq_nil fun name child hmem ↦ ?_
  obtain ⟨path, hpath | hpath, -⟩ := h.answers module name child hmem
  · exact houter path hpath
  · have := h.compiled_range hpath
    omega

/-- **Two stretches.** -/
theorem append (h : Links env outer first mid complete evs)
    (h' : Links env outer mid next complete evs') (houter : ∀ (r : ℕ) p, outer r p → r < first)
    (hfirst : first ≤ mid) (hmid : mid ≤ next) :
    Links env outer first next complete (evs ++ evs') := by
  constructor
  case made =>
    have hmade := @List.range'_append_1 first (mid - first) (next - mid)
    rw [Nat.add_sub_cancel' hfirst, show mid - first + (next - mid) = next - first by omega]
      at hmade
    rw [List.filterMap_append, h.made, h'.made, hmade]
  case answered_range =>
    intro referrer name module hmem
    rcases List.mem_append.mp hmem with hmem | hmem
    · have := h.answered_range referrer name module hmem
      omega
    · have := h'.answered_range referrer name module hmem
      omega
  case answers =>
    intro referrer name module hmem
    rcases List.mem_append.mp hmem with hmem | hmem
    · obtain ⟨path, hpath, hlinks⟩ := h.answers referrer name module hmem
      exact ⟨path, hpath.imp_right (·.mono (List.subset_append_left _ _)),
        hlinks.mono (List.subset_append_left _ _)⟩
    · obtain ⟨path, hpath, hlinks⟩ := h'.answers referrer name module hmem
      exact ⟨path, hpath.imp_right (·.mono (List.subset_append_right _ _)),
        hlinks.mono (List.subset_append_right _ _)⟩
  case requests =>
    intro path module sourceCode hmem
    rw [answeredBy_append]
    rcases List.mem_append.mp hmem with hmem | hmem
    · have hrange := h.compiled_range ⟨_, hmem⟩
      rw [h'.answeredBy_eq_nil (fun p hp ↦ absurd (houter module p hp) (by omega))
        (.inl hrange.2), List.append_nil]
      exact h.requests path module sourceCode hmem
    · have hrange := h'.compiled_range ⟨_, hmem⟩
      rw [h.answeredBy_eq_nil (fun p hp ↦ absurd (houter module p hp) (by omega))
        (.inr hrange.1), List.nil_append]
      exact h'.requests path module sourceCode hmem

/-- A request of an outer module is answered. -/
theorem answered (h : Links env outer first next complete evs) {referrer child : ℕ}
    {path specifierName : Str} (hpath : outer referrer path) (houter : referrer < first)
    (hchild : first ≤ child ∧ child < next) (hlinks : LinksTo env evs path specifierName child) :
    Links env outer first next complete (evs ++ [.answered referrer specifierName child]) := by
  have hsub := List.subset_append_left evs [.answered referrer specifierName child]
  constructor
  case made =>
    rw [List.filterMap_append, h.made]
    exact List.append_nil _
  case answered_range =>
    intro referrer' name module hmem
    rcases List.mem_append.mp hmem with hmem | hmem
    · exact h.answered_range referrer' name module hmem
    · obtain ⟨-, -, rfl⟩ := ImportEvent.answered.inj (List.mem_singleton.mp hmem)
      exact hchild
  case answers =>
    intro referrer' name module hmem
    rcases List.mem_append.mp hmem with hmem | hmem
    · obtain ⟨path', hpath', hlinks'⟩ := h.answers referrer' name module hmem
      exact ⟨path', hpath'.imp_right (·.mono hsub), hlinks'.mono hsub⟩
    · obtain ⟨rfl, rfl, rfl⟩ := ImportEvent.answered.inj (List.mem_singleton.mp hmem)
      exact ⟨path, .inl hpath, hlinks.mono hsub⟩
  case requests =>
    intro path' module sourceCode hmem
    have hmem := (List.mem_append.mp hmem).resolve_right (by simp)
    have hne : referrer ≠ module := fun heq ↦ by
      have := h.compiled_range ⟨_, hmem⟩
      omega
    have hothers : answeredBy module [.answered referrer specifierName child] = [] :=
      SlimTS.answeredBy_eq_nil fun name child' hin ↦
        hne (ImportEvent.answered.inj (List.mem_singleton.mp hin)).1.symm
    rw [answeredBy_append, hothers, List.append_nil]
    exact h.requests path' module sourceCode hmem

/-- A module is made, and then its requests are answered. -/
theorem compiled {root : ℕ} {path : Str} {sourceCode : Option Str}
    (h : Links env (fun r p ↦ r = root ∧ p = path) (root + 1) next complete evs)
    (hnext : root < next) {requests : List Str}
    (hrequests : RequestsOf env path sourceCode requests)
    (hsome : answeredBy root evs <+: requests) (hall : complete → answeredBy root evs = requests) :
    Links env outer root next complete (.compiled path root sourceCode :: evs) := by
  have hsub := List.subset_cons_self (.compiled path root sourceCode) evs
  constructor
  case made =>
    have hcons : (.compiled path root sourceCode :: evs).filterMap ImportEvent.madeModule
        = root :: evs.filterMap ImportEvent.madeModule := rfl
    rw [hcons, h.made, show next - root = next - (root + 1) + 1 by omega, List.range'_succ]
  case answered_range =>
    intro referrer name module hmem
    have := h.answered_range referrer name module ((List.mem_cons.mp hmem).resolve_left (by simp))
    omega
  case answers =>
    intro referrer name module hmem
    have hmem := (List.mem_cons.mp hmem).resolve_left (by simp)
    obtain ⟨file, hfile, hlinks⟩ := h.answers referrer name module hmem
    refine ⟨file, .inr ?_, hlinks.mono hsub⟩
    rcases hfile with ⟨rfl, rfl⟩ | hfile
    · exact ⟨sourceCode, List.mem_cons_self⟩
    · exact hfile.mono hsub
  case requests =>
    intro file module sourceCode' hmem
    have hhead : answeredBy module (.compiled path root sourceCode :: evs)
        = answeredBy module evs := rfl
    rw [hhead]
    rcases List.mem_cons.mp hmem with heq | hmem
    · obtain ⟨rfl, rfl, rfl⟩ := ImportEvent.compiled.inj heq
      exact ⟨requests, hrequests, hsome, hall⟩
    · exact h.requests file module sourceCode' hmem

end Links

end Stretches

/-! ## Importing a file -/

section ImportFile

variable {identityHash : ModuleId → ℤ} {env : Environment} {s s' : ResolverState}

open ResolverState Transition

theorem neutral_of_construct {store : Store} {script : VariantSpecifier} {isEntryPoint : Bool}
    {referrerPath : Option Str} {constructed : Constructed}
    (h : env.construct store script isEntryPoint referrerPath = .ok constructed) :
    Neutral constructed.events := by
  cases script with
  | definition url file =>
    rw [Environment.construct] at h
    obtain ⟨text, -, h⟩ := bind_eq_ok h
    cases h
    exact fun _ hmem ↦ absurd hmem List.not_mem_nil
  | name specifierString =>
    rw [Environment.construct] at h
    obtain ⟨resolution, -, h⟩ := bind_eq_ok h
    obtain ⟨text, -, h⟩ := bind_eq_ok h
    obtain ⟨transpiled, -, h⟩ := bind_eq_ok h
    cases h
    intro e he
    have hevent : e = .fetched resolution.specifierString ∨
        e = .transpiled resolution.specifierStringUrl ∨ ∃ errors, e = .raised errors := by
      rcases List.mem_append.mp he with he | he
      · rcases List.mem_cons.mp he with he | he
        · exact .inl he
        · exact .inr (.inl (List.mem_singleton.mp he))
      · cases transpiled with
        | raised errors => exact .inr (.inr ⟨errors, List.mem_singleton.mp he⟩)
        | code code => exact absurd he List.not_mem_nil
    rcases hevent with rfl | rfl | ⟨errors, rfl⟩ <;>
      exact ⟨rfl, fun _ _ _ ↦ ImportEvent.noConfusion⟩

/-- What `importFile` makes of a script it can import. -/
structure Makes (identityHash : ModuleId → ℤ) (env : Environment) (s s' : ResolverState)
    (spec : ModuleSpecifier) (requests : List Str) : Prop where
  events : ∃ evs, s'.history = s.history ++
    (evs ++ [.compiled spec.specifierPath spec.v8Module spec.specifierSourceCode]) ∧ Neutral evs
  v8Module : spec.v8Module = s.modules
  modules : s'.modules = s.modules + 1
  requests : RequestsOf env spec.specifierPath spec.specifierSourceCode requests
  cached : Cached identityHash s' spec

theorem requests_of_compileModule {module : ModuleId} {specifier : ImportSpecifier}
    {spec : ModuleSpecifier} {requests : List Str}
    (h : env.compileModule module specifier = .ok (spec, requests)) :
    ∃ code, specifier.specifierSourceCode = some code ∧
      env.moduleRequests code = some requests := by
  rw [Environment.compileModule] at h
  obtain ⟨code, hcode, h⟩ := bind_eq_ok h
  cases hsource : specifier.specifierSourceCode with
  | none =>
    rw [hsource] at hcode
    cases hcode
  | some code' =>
    rw [hsource] at hcode
    obtain rfl : code' = code := Except.ok.inj hcode
    cases hrequests : env.moduleRequests code' with
    | none =>
      rw [hrequests] at h
      cases h
    | some requests' =>
      rw [hrequests] at h
      cases h
      exact ⟨code', rfl, hrequests⟩

theorem importFile_links (hinj : Function.Injective identityHash) (inv : CacheInv identityHash s)
    {script : VariantSpecifier} {isEntryPoint : Bool} {referrerPath : Option Str}
    (hscript : (ResolverAction.entry env script isEntryPoint).EntryIsFile)
    {result : Except Fault (ModuleSpecifier × List Str)}
    (heq : s.importFile identityHash env script isEntryPoint referrerPath = (s', result)) :
    (∃ fault evs, result = .error fault ∧ s'.history = s.history ++ evs ∧ Neutral evs ∧
      s'.modules = s.modules ∧ CacheInv identityHash s') ∨
    ∃ spec requests constructed, result = .ok (spec, requests) ∧
      Makes identityHash env s s' spec requests ∧
      env.construct s.store script isEntryPoint referrerPath = .ok constructed ∧
      spec.specifierPath = constructed.specifier.specifierPath := by
  have hinv : CacheInv identityHash
      (s.importFile identityHash env script isEntryPoint referrerPath).1 :=
    inv.importFile hinj fun _ hcon ↦ construct_not_plugin hscript hcon
  rw [heq] at hinv
  cases hconstruct : env.construct s.store script isEntryPoint referrerPath with
  | error fault =>
    rw [importFile, hconstruct] at heq
    cases heq
    exact .inl ⟨fault, [], rfl, (List.append_nil _).symm, fun _ h ↦ absurd h List.not_mem_nil, rfl,
      hinv⟩
  | ok constructed =>
    have hneutral := neutral_of_construct hconstruct
    cases hcompile : env.compileModule s.modules constructed.specifier with
    | error fault =>
      rw [importFile, hconstruct] at heq
      simp only [hcompile] at heq
      cases heq
      exact .inl ⟨fault, constructed.events, rfl, rfl, hneutral, rfl, hinv⟩
    | ok compiled =>
      obtain ⟨spec, requests⟩ := compiled
      rw [importFile_of_ok hconstruct hcompile] at heq
      cases heq
      obtain ⟨code, hcode, hrequests⟩ := requests_of_compileModule hcompile
      obtain rfl := compileModule_eq_ok hcompile
      refine .inr ⟨_, requests, constructed, rfl, ?_, rfl, rfl⟩
      refine ⟨⟨constructed.events, by simp, hneutral⟩, rfl, rfl, ?_, hinv, ?_, rfl⟩
      · exact ⟨_, _, _, _, constructed, code, hconstruct, rfl, rfl, hcode, hrequests⟩
      · exact AList.lookup_insert _

/-- Where no module has the hash `-1`, an import that fails is not answered. -/
theorem not_answer_error (hhash : ∀ module, identityHash module ≠ -1)
    (inv : CacheInv identityHash s) {fault : Fault} {module : ModuleId} :
    s.answer (.error fault) ≠ .ok module := by
  have hnone : s.byHashIdCache.lookup (-1) = none := by
    cases hlookup : s.byHashIdCache.lookup (-1) with
    | none => rfl
    | some spec => exact absurd (inv.own_hash _ spec hlookup).1.symm (hhash _)
  rw [answer]
  split
  · rw [answer.lookup, hnone]
    exact fun h ↦ by cases h
  · exact fun h ↦ by cases h

/-- The answer to a plugin that loads is its new module. -/
theorem importPlugin_links (hhash : ∀ module, identityHash module ≠ -1)
    (inv : CacheInv identityHash s) {name : Str} (hname : name ∈ pluginsSet)
    {result : Except Fault ℤ} (heq : s.importPlugin identityHash env name = (s', result)) :
    (s'.history = s.history ∧ s'.modules = s.modules ∧ ∀ module, s'.answer result ≠ .ok module) ∨
    (env.loadPlugin name = true ∧ s'.history = s.history ++ [.synthetic name s.modules] ∧
      s'.modules = s.modules + 1 ∧ s'.answer result = .ok s.modules) := by
  by_cases hload : env.loadPlugin name = true
  · obtain ⟨s'', heq', hanswer, hmodules, hhistory, -⟩ :=
      importPlugin_of_loads identityHash s hload
    rw [heq', Prod.mk.injEq] at heq
    obtain ⟨rfl, rfl⟩ := heq
    exact .inr ⟨hload, hhistory, hmodules, hanswer⟩
  · rw [importPlugin] at heq
    simp only [hload] at heq
    cases heq
    exact .inl ⟨forgetPlugin_history s name, forgetPlugin_modules s name,
      fun module ↦ not_answer_error hhash (inv.forgetPlugin hname).1⟩

theorem construct_specifierPath {store : Store} {specifierString : Str} {isEntryPoint : Bool}
    {referrerPath : Option Str} {constructed : Constructed}
    (h : env.construct store (.name specifierString) isEntryPoint referrerPath = .ok constructed) :
    ∃ resolution, env.resolveModulePath referrerPath specifierString = .ok resolution ∧
      constructed.specifier.specifierPath = resolution.specifierPath := by
  rw [Environment.construct] at h
  obtain ⟨resolution, hresolve, h⟩ := bind_eq_ok h
  obtain ⟨text, -, h⟩ := bind_eq_ok h
  obtain ⟨transpiled, -, h⟩ := bind_eq_ok h
  cases h
  exact ⟨resolution, hresolve, rfl⟩

end ImportFile

/-! ## The recursion -/

section Recursion

variable {identityHash : ModuleId → ℤ} {env : Environment} {s s' s'' : ResolverState}
  {complete : Prop} {evs evs' : List ImportEvent}

open ResolverState Transition

/-- What a stretch of the recursion writes to the log. -/
structure Wrote (env : Environment) (outer : ModuleId → Str → Prop) (s s' : ResolverState)
    (complete : Prop) (evs : List ImportEvent) : Prop where
  history : s'.history = s.history ++ evs
  modules : s.modules ≤ s'.modules
  links : Links env outer s.modules s'.modules complete evs

theorem Wrote.trans {outer : ModuleId → Str → Prop} (h : Wrote env outer s s' complete evs)
    (h' : Wrote env outer s' s'' complete evs') (houter : ∀ (r : ℕ) p, outer r p → r < s.modules) :
    Wrote env outer s s'' complete (evs ++ evs') where
  history := by rw [h'.history, h.history, List.append_assoc]
  modules := h.modules.trans h'.modules
  links := h.links.append h'.links houter h.modules h'.modules

/-- The module that is being instantiated. -/
def Instantiates (spec : ModuleSpecifier) (referrer : ModuleId) (path : Str) : Prop :=
  referrer = spec.v8Module ∧ path = spec.specifierPath

variable (env) in
/-- A call writes a stretch of the log. If it answers the request made from the path, it is with a
module made there, which the request should be answered with. -/
def AnswerLinks (s s' : ResolverState) (path request : Str) (result : Except Fault ModuleId) :
    Prop :=
  ∃ evs, Wrote env (fun _ _ ↦ False) s s' (result.isOk = true) evs ∧
    ∀ module : ℕ, result = .ok module → (s.modules ≤ module ∧ module < s'.modules) ∧
      LinksTo env evs path request module

variable (identityHash env) in
/-- What a call of the callback with the given depth comes to. -/
def CallbackLinks (depth : ℕ) : Prop :=
  ∀ (s s' : ResolverState) (spec : ModuleSpecifier) (request : Str)
    (result : Except Fault ModuleId), Cached identityHash s spec →
    moduleCallBackResolver identityHash env depth spec.v8Module request s = (s', result) →
    AnswerLinks env s s' spec.specifierPath request result

theorem Cached.v8Module_lt {spec : ModuleSpecifier} (h : Cached identityHash s spec) :
    (spec.v8Module : ℕ) < s.modules := (h.inv.own_hash _ _ h.lookup).2

theorem answerRequests_links (hinj : Function.Injective identityHash) {depth : ℕ}
    (hcallback : CallbackLinks identityHash env depth) {spec : ModuleSpecifier}
    (requests : List Str) {result : Except Fault Unit} (hcached : Cached identityHash s spec)
    (heq : answerRequests (moduleCallBackResolver identityHash env depth) spec.v8Module requests s =
      (s', result)) :
    ∃ evs, Wrote env (Instantiates spec) s s' (result.isOk = true) evs ∧
      answeredBy spec.v8Module evs <+: requests ∧
      (result.isOk = true → answeredBy spec.v8Module evs = requests) := by
  induction requests generalizing s with
  | nil =>
    cases heq
    exact ⟨[], ⟨(List.append_nil _).symm, le_rfl, .nil _ _ _⟩, List.prefix_rfl, fun _ ↦ rfl⟩
  | cons request requests ih =>
    have hroot := hcached.v8Module_lt
    rw [answerRequests] at heq
    rcases hfirst : moduleCallBackResolver identityHash env depth spec.v8Module request s with
      ⟨s₁, result₁⟩
    obtain ⟨evs₁, hwrote, hmodule⟩ := hcallback s s₁ spec request result₁ hcached hfirst
    have hnone : answeredBy spec.v8Module evs₁ = [] :=
      hwrote.links.answeredBy_eq_nil (fun _ ↦ id) (.inl hroot)
    have hsame : ∀ r p, (fun _ _ ↦ False) r p → Instantiates spec r p := fun _ _ ↦ False.elim
    rw [hfirst] at heq
    cases result₁ with
    | error fault =>
      cases heq
      refine ⟨evs₁, ⟨hwrote.history, hwrote.modules, hwrote.links.mono hsame id⟩, ?_,
        fun hok ↦ by cases hok⟩
      rw [hnone]
      exact List.nil_prefix
    | ok child =>
      simp only at heq
      obtain ⟨hchild, hlinks⟩ := hmodule child rfl
      have hdone : result.isOk = true → (Except.ok child : Except Fault ModuleId).isOk = true :=
        fun _ ↦ rfl
      -- The answer is logged, and then come the other requests.
      have hwrote₁ : Wrote env (Instantiates spec) s
          { s₁ with history := s₁.history ++ [.answered spec.v8Module request child] }
          (result.isOk = true) (evs₁ ++ [.answered spec.v8Module request child]) :=
        ⟨(congrArg (· ++ _) hwrote.history).trans (List.append_assoc _ _ _), hwrote.modules,
          (hwrote.links.mono hsame hdone).answered ⟨rfl, rfl⟩ hroot hchild hlinks⟩
      have hreach := (reaches_of_callback hfirst).trans
        (Reaches.of_step (a := .answered spec.v8Module request child) trivial rfl)
      obtain ⟨evs₂, hwrote₂, hsome, hall⟩ := ih (hcached.of_reaches hinj hreach) heq
      have hanswers : answeredBy spec.v8Module
          ((evs₁ ++ [.answered spec.v8Module request child]) ++ evs₂) =
          request :: answeredBy spec.v8Module evs₂ := by
        rw [answeredBy_append, answeredBy_append, hnone]
        simp [answeredBy]
      refine ⟨_, hwrote₁.trans hwrote₂ ?_, ?_, fun hok ↦ ?_⟩
      · rintro r p ⟨rfl, rfl⟩
        exact hroot
      · rw [hanswers]
        exact (List.prefix_cons_inj request).mpr hsome
      · rw [hanswers, hall hok]

theorem instantiateModule_links (hinj : Function.Injective identityHash) {depth : ℕ}
    (hcallback : CallbackLinks identityHash env depth) {spec : ModuleSpecifier}
    {requests : List Str} {result : Except Fault Unit} (hcached : Cached identityHash s spec)
    (heq : instantiateModule env (moduleCallBackResolver identityHash env depth) spec.v8Module
      requests s = (s', result)) :
    ∃ evs, Wrote env (Instantiates spec) s s' (result.isOk = true) evs ∧
      answeredBy spec.v8Module evs <+: requests ∧
      (result.isOk = true → answeredBy spec.v8Module evs = requests) := by
  rw [instantiateModule] at heq
  rcases hrequests : answerRequests (moduleCallBackResolver identityHash env depth) spec.v8Module
    requests s with ⟨s₁, result₁⟩
  obtain ⟨evs, hwrote, hsome, hall⟩ :=
    answerRequests_links hinj hcallback requests hcached hrequests
  rw [hrequests] at heq
  cases result₁ with
  | error fault =>
    cases heq
    exact ⟨evs, hwrote, hsome, hall⟩
  | ok =>
    -- Whether the names are found changes nothing in the log.
    simp only at heq
    split at heq <;> cases heq
    · exact ⟨evs, hwrote, hsome, hall⟩
    · have hfails : (Except.error .v8Exception : Except Fault Unit).isOk ≠ true := by decide
      exact ⟨evs, ⟨hwrote.history, hwrote.modules,
        hwrote.links.mono (fun _ _ ↦ id) fun hok ↦ absurd hok hfails⟩, hsome,
        fun hok ↦ absurd hok hfails⟩

/-- A script that can be imported, and the instantiation of its module. -/
theorem Makes.wrote {spec : ModuleSpecifier} {requests : List Str}
    (h : Makes identityHash env s s' spec requests)
    (hwrote : Wrote env (Instantiates spec) s' s'' complete evs)
    (hsome : answeredBy spec.v8Module evs <+: requests)
    (hall : complete → answeredBy spec.v8Module evs = requests) :
    ∃ evs', Wrote env (fun _ _ ↦ False) s s'' complete evs' ∧
      CompiledFrom evs' spec.specifierPath spec.v8Module := by
  obtain ⟨evs₀, hevs₀, hneutral⟩ := h.events
  have hroot : s.modules < s''.modules := by
    have := hwrote.modules
    rwa [h.modules] at this
  have hinner := hwrote.links
  rw [h.modules, ← h.v8Module] at hinner
  have hmade : Links env (fun _ _ ↦ False) s.modules s''.modules complete
      (.compiled spec.specifierPath spec.v8Module spec.specifierSourceCode :: evs) :=
    h.v8Module ▸ hinner.compiled (h.v8Module ▸ hroot) h.requests hsome hall
  have hbefore : Links env (fun _ _ ↦ False) s.modules s.modules complete evs₀ :=
    .of_neutral hneutral _ _ _
  refine ⟨_, ⟨?_, hroot.le, hbefore.append hmade (fun _ _ ↦ False.elim) le_rfl hroot.le⟩,
    spec.specifierSourceCode, by simp⟩
  rw [hwrote.history, hevs₀]
  simp

/-- The request of a plugin. -/
theorem answerLinks_importPlugin (hhash : ∀ module, identityHash module ≠ -1)
    (inv : CacheInv identityHash s) (path : Str) {request : Str} (hplugin : request ∈ pluginsSet)
    {result : Except Fault ℤ} (himport : s.importPlugin identityHash env request = (s', result)) :
    AnswerLinks env s s' path request (s'.answer result) := by
  rcases importPlugin_links hhash inv hplugin himport with
    ⟨hhistory, hmodules, hnone⟩ | ⟨hload, hhistory, hmodules, hanswer⟩
  · exact ⟨[], ⟨hhistory.trans (List.append_nil _).symm, hmodules.ge, hmodules ▸ .nil _ _ _⟩,
      fun module hmodule ↦ absurd hmodule (hnone module)⟩
  · refine ⟨_, ⟨hhistory, hmodules ▸ Nat.le_succ _, hmodules ▸ .synthetic _ _ _ _⟩,
      fun module hmodule ↦ ?_⟩
    obtain rfl := Except.ok.inj (hanswer.symm.trans hmodule)
    exact ⟨⟨le_rfl, hmodules ▸ Nat.lt_succ_self _⟩,
      .plugin hplugin hload (List.mem_singleton_self _)⟩

/-- An exception is not answered, whatever has been written before it. -/
theorem AnswerLinks.of_error (hhash : ∀ module, identityHash module ≠ -1)
    (inv : CacheInv identityHash s') {fault : Fault} {evs : List ImportEvent}
    {complete : Prop} (hwrote : Wrote env (fun _ _ ↦ False) s s' complete evs)
    (path request : Str) :
    AnswerLinks env s s' path request (s'.answer (.error fault)) := by
  have hnone : ∀ module, s'.answer (.error fault) ≠ .ok module := fun module ↦
    not_answer_error hhash inv
  refine ⟨evs, ⟨hwrote.history, hwrote.modules,
    hwrote.links.mono (fun _ _ ↦ id) fun hok ↦ ?_⟩, fun module h ↦ absurd h (hnone module)⟩
  cases hanswer : s'.answer (.error fault) with
  | error => rw [hanswer] at hok; cases hok
  | ok module => exact absurd hanswer (hnone module)

/-- **One call of the callback.** -/
theorem callbackLinks (hinj : Function.Injective identityHash)
    (hhash : ∀ module, identityHash module ≠ -1) (depth : ℕ) :
    CallbackLinks identityHash env depth := by
  induction depth with
  | zero =>
    intro s s' spec request result hcached heq
    cases heq
    exact ⟨[], ⟨(List.append_nil _).symm, le_rfl, .nil _ _ _⟩, fun module h ↦ by cases h⟩
  | succ depth ih =>
    intro s s' spec request result hcached heq
    rw [moduleCallBackResolver] at heq
    split at heq
    · next hplugin =>
      rcases himport : s.importPlugin identityHash env request with ⟨s₁, result₁⟩
      rw [himport] at heq
      cases heq
      exact answerLinks_importPlugin hhash hcached.inv spec.specifierPath hplugin himport
    · next hfile =>
      rcases himport : s.importFile identityHash env (.name request) false
        (some (s.referrerPath identityHash spec.v8Module)) with ⟨s₁, result₁⟩
      rw [himport] at heq
      have hscript : (ResolverAction.entry env (.name request) false).EntryIsFile := hfile
      rcases importFile_links hinj hcached.inv hscript himport with
        ⟨fault, evs, rfl, hhistory, hneutral, hmodules, hinv⟩ |
        ⟨child, requests, constructed, rfl, hmakes, hconstruct, hpath⟩
      · cases heq
        have hwrote : Wrote env (fun _ _ ↦ False) s s' False evs :=
          ⟨hhistory, hmodules.ge, hmodules ▸ .of_neutral hneutral _ _ _⟩
        exact .of_error hhash hinv hwrote spec.specifierPath request
      · obtain ⟨resolution, hresolve, hresolved⟩ := construct_specifierPath hconstruct
        rw [hcached.referrerPath] at hresolve
        rcases hinstantiate : instantiateModule env (moduleCallBackResolver identityHash env depth)
          child.v8Module requests s₁ with ⟨s₂, result₂⟩
        obtain ⟨evs, hwrote, hsome, hall⟩ :=
          instantiateModule_links hinj ih hmakes.cached hinstantiate
        have hcached' := hmakes.cached.of_reaches hinj (reaches_of_instantiate hinstantiate)
        obtain ⟨evs', hwrote', hmade⟩ := hmakes.wrote hwrote hsome hall
        simp only [hinstantiate] at heq
        cases result₂ with
        | error fault =>
          cases heq
          exact .of_error hhash hcached'.inv hwrote' spec.specifierPath request
        | ok =>
          cases heq
          rw [hcached'.answer]
          refine ⟨evs', hwrote', fun module hmodule ↦ ?_⟩
          obtain rfl := Except.ok.inj hmodule
          exact ⟨hwrote'.links.compiled_range hmade,
            .file hfile resolution hresolve (hresolved ▸ hpath ▸ hmade)⟩

end Recursion

/-! ## Whole resolutions -/

section Resolutions

variable {identityHash : ModuleId → ℤ} {env : Environment}

open ResolverState Transition

end Resolutions

end SlimTS
