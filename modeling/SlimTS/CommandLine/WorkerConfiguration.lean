import SlimTS.CommandLine.Configuration
import SlimTS.Plugin.MemoryAdaptor

/-!
# The configuration of the compiler's script

The compiler's script reads the text that `set_argv` has stored and has `JSON.parse` make an object
of it. The arguments are bytes and the script sees text. The stored text is put together at ASCII
characters, so it makes no difference on which side that is done: the bytes of the options are those
of the options with the project as a text, if it is one.

`storesConfiguration_iff` says when the object is that of the options: when the project is a text
that can stand in a string as it is.
-/

namespace SlimTS

open Getline

/-- What the compiler's script has for its configuration: `JSON.parse` of what `memoryAdaptor.read`
gives it. -/
def workerConfiguration (v8 : Transcoding) (store : Store) : Option Json :=
  (scriptRead v8 store (Utf.units configurationsMap) (Utf.units typescriptFile)).bind
    fun text ↦ Json.parse (Utf.toText text)

/-- The options as the compiler should see them, with the project as a text. -/
def textMembers (items : List CommandLineItem) (project : List Char) : List (List ℕ × Json) :=
  typescriptNames.map fun name ↦ (optionKey name,
    if name = projectName then .string (Quoted.units project)
    else .boolean (decide (CommandLineItem.switch name ∈ items)))

/-- The store holds a JSON text of the options, and the compiler's script parses it. -/
def StoresConfiguration (v8 : Transcoding) (items : List CommandLineItem) (store : Store) : Prop :=
  ∃ text project ms, store.read configurationsMap typescriptFile = some (Utf.encode text) ∧
    projectValue items = Utf.encode project ∧ Json.parse text = some (.object ms) ∧
    workerConfiguration v8 store = some (.object ms) ∧
    ∀ key, Json.member key ms = (textMembers items project).lookup key

variable {v8 : Transcoding}

/-! ## ASCII -/

theorem encode_of_all_isAscii {text : Str} (h : text.all isAscii = true) :
    Utf.encode text = text := by
  refine Utf.encode_of_ascii fun c hc ↦ ?_
  exact (isAscii_iff.mp (List.all_eq_true.mp h c hc)).2

/-- Only an ASCII text has its own characters for bytes. -/
theorem encode_eq_iff {text text' : Str} (h : text'.all isAscii = true) :
    Utf.encode text = text' ↔ text = text' := by
  nth_rewrite 1 [← encode_of_all_isAscii h]
  exact Utf.encode_injective.eq_iff

theorem nul_not_mem_of_all_isAscii {text : Str} (h : text.all isAscii = true) : '\x00' ∉ text :=
  fun hnul ↦ by simpa [isAscii] using List.all_eq_true.mp h _ hnul

/-- An ASCII text is read under its own name. -/
theorem v8ValueToString_units {text : Str} (h : text.all isAscii = true) :
    v8ValueToString v8 (Utf.units text) = text := by
  rw [v8ValueToString_eq, Utf.repaired_units, cString_of_not_mem (nul_not_mem_of_all_isAscii h),
    encode_of_all_isAscii h]

theorem encode_dropLast_terminate {ps : List (List Char)} (h : ps ≠ []) :
    Utf.encode (terminate ',' ps).dropLast = (terminate ',' (ps.map Utf.encode)).dropLast :=
  flatMap_dropLast_terminate (Utf.bytesOf_of_lt (by decide)) h

/-! ## The text of the options -/

variable {e : CommandLineEnvironment} {s : ArgvState} {store store' : Store} {names : List Str}
  {items : List CommandLineItem} {project : List Char}

/-- The options with another project. -/
def withProject (items : List CommandLineItem) (project : List Char) : List CommandLineItem :=
  items ++ [.valued projectName project]

theorem projectValue_withProject : projectValue (withProject items project) = project := by
  rw [projectValue, settingOr, withProject, List.filterMap_append, List.getLast?_append]
  simp [CommandLineItem.setting]

theorem switch_mem_withProject {name : Str} :
    CommandLineItem.switch name ∈ withProject items project ↔ .switch name ∈ items := by
  simp [withProject]

theorem configurationMembers_withProject :
    configurationMembers (withProject items project) = textMembers items project := by
  refine List.map_congr_left fun name _ ↦ ?_
  rw [optionValue, projectValue_withProject]
  simp only [switch_mem_withProject]

theorem encode_optionText (h : projectValue items = Utf.encode project) (name : Str) :
    Utf.encode (optionText (withProject items project) name) = optionText items name := by
  rw [optionText, optionText, projectValue_withProject, h]
  simp only [switch_mem_withProject]
  split_ifs
  · rfl
  · exact encode_of_all_isAscii rfl
  · exact encode_of_all_isAscii rfl

theorem encode_valueText (text : List Char) :
    Utf.encode (valueText text) = valueText (Utf.encode text) := by
  have hword : Utf.encode text = trueText ∨ Utf.encode text = falseText ↔
      text = trueText ∨ text = falseText := or_congr (encode_eq_iff rfl) (encode_eq_iff rfl)
  rw [valueText, valueText]
  by_cases h : text = trueText ∨ text = falseText
  · rw [if_pos h, if_pos (hword.mpr h)]
  · rw [if_neg h, if_neg (hword.not.mpr h), Utf.encode_cons, Utf.encode_append,
      show Utf.encode ['"'] = ['"'] from rfl, Utf.bytesOf_of_lt (by decide),
      List.singleton_append]

theorem all_isAscii_keys : ∀ name ∈ typescriptNames, (name.drop 2).all isAscii = true := by
  decide

theorem encode_optionMember (h : projectValue items = Utf.encode project) {name : Str}
    (hname : name ∈ typescriptNames) :
    Utf.encode (optionMember (withProject items project) name) = optionMember items name := by
  rw [optionMember, optionMember, Json.memberText, Json.memberText, Utf.encode_cons,
    Utf.encode_append, Utf.encode_append, encode_valueText, encode_optionText h,
    encode_of_all_isAscii (all_isAscii_keys name hname),
    show Utf.encode ['"', ':'] = ['"', ':'] from rfl, Utf.bytesOf_of_lt (by decide),
    List.singleton_append]

/-- The stored bytes are those of the text that has the project as a text. -/
theorem encode_configurationString (h : projectValue items = Utf.encode project) {names : List Str}
    (hnames : ∀ name ∈ names, name ∈ typescriptNames) (hne : names ≠ []) :
    Utf.encode (typescriptConfigurationString
        (names.map fun name ↦ (name, optionText (withProject items project) name)))
      = typescriptConfigurationString (names.map fun name ↦ (name, optionText items name)) := by
  have hmembers : (names.map (optionMember (withProject items project))).map Utf.encode
      = names.map (optionMember items) := by
    rw [List.map_map]
    exact List.map_congr_left fun name hname ↦ encode_optionMember h (hnames name hname)
  rw [typescriptConfigurationString_eq hnames hne, typescriptConfigurationString_eq hnames hne,
    Utf.encode_cons, Utf.encode_append, encode_dropLast_terminate (by simpa using hne), hmembers,
    show Utf.encode ['}'] = ['}'] from rfl, Utf.bytesOf_of_lt (by decide),
    List.singleton_append]

theorem nul_not_mem_optionMember (hnul : '\x00' ∉ projectValue items) {name : Str}
    (hname : name ∈ typescriptNames) : '\x00' ∉ optionMember items name := by
  have htext : '\x00' ∉ optionText items name := by
    rw [optionText]
    split_ifs
    · exact hnul
    · exact nul_not_mem_of_all_isAscii rfl
    · exact nul_not_mem_of_all_isAscii rfl
  have hvalue : '\x00' ∉ valueText (optionText items name) := by
    rw [valueText]
    split
    · exact htext
    · simpa using htext
  have hkey := nul_not_mem_of_all_isAscii (all_isAscii_keys name hname)
  simp [optionMember, Json.memberText, hkey, hvalue]

theorem nul_not_mem_configurationString (hnul : '\x00' ∉ projectValue items) {names : List Str}
    (hnames : ∀ name ∈ names, name ∈ typescriptNames) (hne : names ≠ []) :
    '\x00' ∉ typescriptConfigurationString
      (names.map fun name ↦ (name, optionText items name)) := by
  have hmembers : '\x00' ∉ terminate ',' (names.map (optionMember items)) := by
    rw [mem_terminate]
    rintro ⟨member, hmember, hmem⟩
    obtain ⟨name, hname, rfl⟩ := List.mem_map.mp hmember
    exact hmem.elim (nul_not_mem_optionMember hnul (hnames name hname)) (by decide)
  have hmembers' := fun hmem ↦ hmembers (List.dropLast_subset _ hmem)
  rw [typescriptConfigurationString_eq hnames hne]
  simpa using hmembers'

/-! ## What the script parses -/

/-- **The compiler's script** parses the text of the options. -/
theorem workerConfiguration_eq (hproject : projectValue items = Utf.encode project)
    (hnul : '\x00' ∉ project) (hnames : ∀ name ∈ names, name ∈ typescriptNames) (hne : names ≠ [])
    (hread : store.read configurationsMap typescriptFile = some (typescriptConfigurationString
      (names.map fun name ↦ (name, optionText items name)))) :
    workerConfiguration v8 store = Json.parse (typescriptConfigurationString
      (names.map fun name ↦ (name, optionText (withProject items project) name))) := by
  have hstored := encode_configurationString hproject hnames hne
  have hnul' : '\x00' ∉ projectValue (withProject items project) := by
    rwa [projectValue_withProject]
  have htext := nul_not_mem_configurationString hnul' hnames hne
  rw [workerConfiguration, WriteHistory.scriptRead_eq, v8ValueToString_units rfl,
    v8ValueToString_units rfl, hread, ← hstored, Option.map_some, stringToV8String_encode htext,
    Option.bind_some, Utf.toText_units]

/-- It sees the options if and only if the project can be written. -/
theorem workerConfiguration_iff (hproject : projectValue items = Utf.encode project)
    (hnul : '\x00' ∉ project) (hperm : names.Perm typescriptNames)
    (hread : store.read configurationsMap typescriptFile = some (typescriptConfigurationString
      (names.map fun name ↦ (name, optionText items name)))) :
    (∃ ms, workerConfiguration v8 store = some (.object ms) ∧
        ∀ key, Json.member key ms = (textMembers items project).lookup key) ↔
      Representable project := by
  have hnames := mem_of_perm_names hperm
  have hne := ne_nil_of_perm_names hperm
  rw [workerConfiguration_eq hproject hnul hnames hne hread, ← configurationMembers_withProject]
  constructor
  · rintro ⟨ms, hparse, hmember⟩
    have hrepresentable := representable_of_parse hperm hparse hmember
    rwa [projectValue_withProject] at hrepresentable
  · intro hrepresentable
    exact ⟨_, parse_options (projectValue_withProject.symm ▸ hrepresentable) hnames hne,
      Json.member_eq_lookup (hperm.map _) (nodup_configurationMembers _)⟩

/-! ## The stored configuration -/

/-- A text that can stand in a string holds no NUL. -/
theorem Representable.nul_not_mem {project : List Char} (h : Representable project) :
    '\x00' ∉ project := fun hmem ↦ absurd (h.plain _ hmem) (by decide)

theorem StoresConfiguration.representable {arguments : List Str} {r : Reading}
    (hr : r.Of e arguments) (h : setArgv e store arguments = .ok (s, store'))
    (hstores : StoresConfiguration v8 r.items store') :
    ∃ project, projectValue r.items = Utf.encode project ∧ Representable project := by
  obtain ⟨text, project, ms, htext, hproject, hparse, -, hmember⟩ := hstores
  have hstored := encode_configurationString hproject (mem_of_perm_names e.perm_names)
    (ne_nil_of_perm_names e.perm_names)
  rw [read_setArgv hr h, Option.some_inj, ← hstored] at htext
  rw [← Utf.encode_injective htext] at hparse
  rw [← configurationMembers_withProject] at hmember
  have hrepresentable := representable_of_parse e.perm_names hparse hmember
  rw [projectValue_withProject] at hrepresentable
  exact ⟨project, hproject, hrepresentable⟩

theorem Representable.storesConfiguration {arguments : List Str} {r : Reading}
    (hr : r.Of e arguments) (h : setArgv e store arguments = .ok (s, store'))
    (hproject : projectValue r.items = Utf.encode project) (hrepresentable : Representable project)
    (v8 : Transcoding) : StoresConfiguration v8 r.items store' := by
  have hnames := mem_of_perm_names e.perm_names
  have hne := ne_nil_of_perm_names e.perm_names
  have hread := read_setArgv hr h
  have hparse := @parse_options (withProject r.items project) _
    (by rwa [projectValue_withProject]) hnames hne
  refine ⟨_, project, _, ?_, hproject, hparse, ?_, ?_⟩
  · rw [hread, encode_configurationString hproject hnames hne]
  · rw [workerConfiguration_eq hproject hrepresentable.nul_not_mem hnames hne hread, hparse]
  · rw [← configurationMembers_withProject]
    exact Json.member_eq_lookup (e.perm_names.map _) (nodup_configurationMembers _)

/-- **The stored configuration** is a JSON text of the options, as the compiler's script parses it,
exactly when the project that the command line names is a text that can be written as it is. -/
theorem storesConfiguration_iff {arguments : List Str}
    (h : setArgv e store arguments = .ok (s, store')) (v8 : Transcoding) :
    ∃ r : Reading, r.Of e arguments ∧ (StoresConfiguration v8 r.items store' ↔
      ∃ project, projectValue r.items = Utf.encode project ∧ Representable project) := by
  obtain ⟨t, hread, -⟩ := bind_eq_ok h
  rcases reads_or_fails e arguments with ⟨r, hr⟩ | hdangling | hempty
  · refine ⟨r, hr, fun hstores ↦ hstores.representable hr h, ?_⟩
    rintro ⟨project, hproject, hrepresentable⟩
    exact hrepresentable.storesConfiguration hr h hproject v8
  · exact absurd (hread.symm.trans hdangling.readArguments) (by simp)
  · exact absurd (hread.symm.trans hempty.readArguments) (by simp)

/-- A switch and a project. -/
def projectItems : List CommandLineItem :=
  [.switch "--print-typescript-log".toList, .valued projectName "/srv/tsconfig.json".toList]

theorem storesConfiguration_iff_project : ∃ r : Reading,
    r.Of homeEnvironment (words projectItems) ∧
      (StoresConfiguration asciiTranscoding r.items
        ((emptyStore.write configurationsMap typescriptFile (.pointer
          (typescriptConfigurationString ((ArgvState.start homeEnvironment).readItems
            projectItems).typescriptConfigurations))).write configurationsMap scriptArgvFile
              (.pointer "/usr/bin/slim".toList)) ↔
        ∃ project, projectValue r.items = Utf.encode project ∧ Representable project) := by
  have hset : setArgv homeEnvironment emptyStore (words projectItems) = _ :=
    setArgv_eq (s := (ArgvState.start homeEnvironment).readItems projectItems) (by rfl) emptyStore
  exact storesConfiguration_iff hset asciiTranscoding

/-- A project with the name of a truth value. -/
theorem storesConfiguration_true : ¬∀ (v8 : Transcoding) (e : CommandLineEnvironment)
    (store : Store) (arguments : List Str) (s : ArgvState) (store' : Store),
    setArgv e store arguments = .ok (s, store') →
      ∃ r : Reading, r.Of e arguments ∧ StoresConfiguration v8 r.items store' := by
  intro h
  have hread : readArguments homeEnvironment (.start homeEnvironment) [projectName, trueText]
      = .ok ((ArgvState.start homeEnvironment).readItems [.valued projectName trueText]) := by
    rfl
  obtain ⟨r, hr, hstores⟩ := h asciiTranscoding homeEnvironment emptyStore [projectName, trueText]
    _ _ (setArgv_eq hread emptyStore)
  have hitems : Reading.Of homeEnvironment [projectName, trueText]
      ⟨[.valued projectName trueText], none⟩ := by
    refine ⟨fun item hmem ↦ ?_, by simp, rfl⟩
    rw [List.mem_singleton.mp hmem]
    exact ⟨by decide, rfl⟩
  obtain rfl := hitems.unique hr
  obtain ⟨project, hproject, hrepresentable⟩ :=
    hstores.representable hr (setArgv_eq hread emptyStore)
  exact hrepresentable.ne_true ((encode_eq_iff rfl).mp hproject.symm)

end SlimTS
