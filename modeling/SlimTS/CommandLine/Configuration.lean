import SlimTS.CommandLine.Classification
import SlimTS.Library.Json

/-!
# The TypeScript configuration

`set_argv` writes the TypeScript options as a JSON text by putting the value of each between quotes,
unless it is `true` or `false`. What `JSON.parse` makes of the text is the options exactly when the
value of `--typescript-project` can stand in a string as it is, and is not one of those two words.
For any other value the text is too short for the options to be written in it at all.

The texts of this module are those that the bytes of the command line stand for. What becomes of the
bytes themselves is told where the compiler's script reads them.
-/

namespace SlimTS

open Getline

/-- `--typescript-project`. -/
def projectName : Str := "--typescript-project".toList

/-- What an item says of an option: the text that is stored for it. -/
def CommandLineItem.setting (name : Str) : CommandLineItem → Option Str
  | switch name' => if name' = name then some trueText else none
  | valued name' value => if name' = name then some value else none
  | slim _ => none
  | v8 _ => none

/-- The text that the items give an option, or the one it has without them. -/
def settingOr (name text : Str) (items : List CommandLineItem) : Str :=
  (items.filterMap (CommandLineItem.setting name)).getLast?.getD text

/-- The path of the TypeScript project, or the empty text. -/
def projectValue (items : List CommandLineItem) : Str := settingOr projectName [] items

/-- The value of an option: the project's path, or whether the switch is given. -/
def optionValue (items : List CommandLineItem) (name : Str) : Json :=
  if name = projectName then .string (Quoted.units (projectValue items))
  else .boolean (decide (CommandLineItem.switch name ∈ items))

/-- The key of an option: its name without the dashes. -/
def optionKey (name : Str) : List ℕ := Quoted.units (name.drop 2)

/-- The members a configuration should have. -/
def configurationMembers (items : List CommandLineItem) : List (List ℕ × Json) :=
  typescriptNames.map fun name ↦ (optionKey name, optionValue items name)

/-- The text stands for itself in a string, and is not taken for a truth value. -/
structure Representable (value : Str) : Prop where
  plain : Json.dialect.Plain value
  ne_true : value ≠ trueText
  ne_false : value ≠ falseText

section

variable {e : CommandLineEnvironment} {s : ArgvState} {items : List CommandLineItem}
  {names : List Str} {name : Str}

/-! ## What the items leave of the options -/

theorem settingOr_cons (name text : Str) (item : CommandLineItem) (items : List CommandLineItem) :
    settingOr name text (item :: items)
      = settingOr name ((item.setting name).getD text) items := by
  rw [settingOr, settingOr, List.filterMap_cons]
  cases item.setting name with
  | none => rfl
  | some text' =>
    rw [List.getLast?_cons, Option.getD_some, Option.getD_some]

theorem ArgvState.readItem_configurations (s : ArgvState) (item : CommandLineItem) :
    (s.readItem item).typescriptConfigurations
      = s.typescriptConfigurations.map fun entry ↦
          (entry.1, (item.setting entry.1).getD entry.2) := by
  have hconfigure : ∀ name value, (s.configure name value).typescriptConfigurations
      = s.typescriptConfigurations.map fun entry ↦
          (entry.1, (if name = entry.1 then some value else none).getD entry.2) := by
    intro name value
    refine List.map_congr_left fun entry _ ↦ ?_
    by_cases heq : entry.1 = name
    · rw [if_pos heq, if_pos heq.symm, heq]
      rfl
    · rw [if_neg heq, if_neg (Ne.symm heq)]
      rfl
  cases item with
  | switch name => exact hconfigure name trueText
  | valued name value => exact hconfigure name value
  | slim name => exact (List.map_id' _).symm
  | v8 argument => exact (List.map_id' _).symm

/-- **The options** after all items. -/
theorem ArgvState.readItems_configurations (s : ArgvState) (items : List CommandLineItem) :
    (s.readItems items).typescriptConfigurations
      = s.typescriptConfigurations.map fun entry ↦
          (entry.1, settingOr entry.1 entry.2 items) := by
  induction items generalizing s with
  | nil => exact (List.map_id' _).symm
  | cons item items ih =>
    have hrest := ih (s := s.readItem item)
    rw [s.readItem_configurations item, List.map_map] at hrest
    refine hrest.trans (List.map_congr_left fun entry _ ↦ ?_)
    rw [settingOr_cons]
    rfl

/-- The text that is stored for an option. -/
def optionText (items : List CommandLineItem) (name : Str) : Str :=
  if name = projectName then projectValue items
  else if CommandLineItem.switch name ∈ items then trueText else falseText

/-- The project is the option with a value, and the switches are off at first. -/
theorem typescriptConfigurations_spec : ∀ entry ∈ typescriptConfigurations,
    (typescriptArgumentExpectsValue entry.1 = decide (entry.1 = projectName)) ∧
      entry.2 = if entry.1 = projectName then [] else falseText := by
  decide

/-- A switch is on when it is given. -/
theorem settingOr_switch (hitems : ∀ item ∈ items, CommandLineItem.Valid e item)
    (hvalue : typescriptArgumentExpectsValue name = false) :
    settingOr name falseText items
      = if CommandLineItem.switch name ∈ items then trueText else falseText := by
  have hsetting : ∀ item ∈ items, ∀ text, item.setting name = some text →
      item = .switch name ∧ text = trueText := by
    intro item hmem text htext
    cases item with
    | switch name' =>
      obtain ⟨rfl, h⟩ := Option.ite_none_right_eq_some.mp htext
      exact ⟨rfl, (Option.some.inj h).symm⟩
    | valued name' value =>
      obtain ⟨rfl, -⟩ := Option.ite_none_right_eq_some.mp htext
      exact absurd ((hitems _ hmem).2.symm.trans hvalue) (by simp)
    | slim name' => exact absurd htext (by simp [CommandLineItem.setting])
    | v8 argument => exact absurd htext (by simp [CommandLineItem.setting])
  rw [settingOr]
  cases hlast : (items.filterMap (CommandLineItem.setting name)).getLast? with
  | none =>
    rw [List.getLast?_eq_none_iff, List.filterMap_eq_nil_iff] at hlast
    rw [if_neg fun hmem ↦ absurd (hlast _ hmem) (by simp [CommandLineItem.setting])]
    rfl
  | some text =>
    obtain ⟨item, hmem, htext⟩ := List.mem_filterMap.mp (List.mem_of_getLast? hlast)
    obtain ⟨rfl, rfl⟩ := hsetting item hmem text htext
    rw [if_pos hmem]
    rfl

/-- The options that a command line leaves, in the order of the environment. -/
theorem readItems_start_configurations (hitems : ∀ item ∈ items, CommandLineItem.Valid e item) :
    ((ArgvState.start e).readItems items).typescriptConfigurations
      = (e.configurations.map Prod.fst).map fun name ↦ (name, optionText items name) := by
  rw [ArgvState.readItems_configurations, List.map_map]
  refine List.map_congr_left fun entry hmem ↦ ?_
  obtain ⟨hvalue, htext⟩ :=
    typescriptConfigurations_spec entry (e.configurations_perm.mem_iff.mp hmem)
  rw [Function.comp_apply, optionText, htext]
  by_cases hname : entry.1 = projectName
  · rw [if_pos hname, if_pos hname, hname, projectValue]
  · rw [if_neg hname, if_neg hname, settingOr_switch hitems (hvalue.trans (decide_eq_false hname))]

/-! ## The text -/

/-- The text of a value in the configuration. -/
def valueText (text : Str) : Str :=
  if text = trueText ∨ text = falseText then text else '"' :: (text ++ ['"'])

/-- The text of an option in the configuration. -/
def optionMember (items : List CommandLineItem) (name : Str) : Str :=
  Json.memberText (name.drop 2) (valueText (optionText items name))

theorem isPrefixOf_dashes : ∀ name ∈ typescriptNames, "--".toList.isPrefixOf name = true := by
  decide

theorem configurationMember_eq (hname : name ∈ typescriptNames) :
    configurationMember (name, optionText items name) = optionMember items name ++ [','] := by
  rw [configurationMember, isPrefixOf_dashes name hname, if_pos rfl, optionMember, valueText]
  split
  · simp [Json.memberText]
  · simp [Json.memberText]

/-- The text is the members with commas between them, in braces. -/
theorem typescriptConfigurationString_eq (hnames : ∀ name ∈ names, name ∈ typescriptNames)
    (hne : names ≠ []) :
    typescriptConfigurationString (names.map fun name ↦ (name, optionText items name))
      = '{' :: ((terminate ',' (names.map (optionMember items))).dropLast ++ ['}']) := by
  have hmembers : (names.map fun name ↦ (name, optionText items name)).flatMap configurationMember
      = terminate ',' (names.map (optionMember items)) := by
    rw [terminate, List.flatMap_map, List.flatMap_map]
    exact List.flatMap_congr fun name hmem ↦ configurationMember_eq (hnames name hmem)
  have hcomma : ∃ body, terminate ',' (names.map (optionMember items)) = body ++ [','] := by
    obtain ⟨front, last, rfl⟩ := (List.eq_nil_or_concat names).resolve_left hne
    refine ⟨terminate ',' (front.map (optionMember items)) ++ optionMember items last, ?_⟩
    rw [List.concat_eq_append, List.map_append, terminate_append, List.map_singleton,
      terminate_cons, terminate_nil, List.append_assoc]
  obtain ⟨body, hbody⟩ := hcomma
  rw [typescriptConfigurationString, hmembers, hbody, ← List.cons_append, popComma_append,
    List.dropLast_concat, List.cons_append]

/-! ## Reading the text back -/

theorem plain_keys : ∀ name ∈ typescriptNames, Json.dialect.Plain (name.drop 2) := by
  decide

theorem readAs_optionText (h : Representable (projectValue items)) (name : Str) :
    Json.ReadAs (valueText (optionText items name)) (optionValue items name) := by
  rw [optionText, optionValue, valueText]
  by_cases hname : name = projectName
  · rw [if_pos hname, if_pos hname, if_neg (not_or.mpr ⟨h.ne_true, h.ne_false⟩)]
    exact Json.readAs_string h.plain
  · rw [if_neg hname, if_neg hname]
    by_cases hmem : CommandLineItem.switch name ∈ items
    · rw [if_pos hmem, if_pos (Or.inl rfl), decide_eq_true hmem]
      exact Json.readAs_true
    · rw [if_neg hmem, if_pos (Or.inr rfl), decide_eq_false hmem]
      exact Json.readAs_false

/-- The members are read back. -/
theorem members_options (h : Representable (projectValue items))
    (hnames : ∀ name ∈ names, name ∈ typescriptNames) (hne : names ≠ []) (k : ℕ) (rest : Str) :
    Json.members (names.length + k + 1)
        ((terminate ',' (names.map (optionMember items))).dropLast ++ '}' :: rest)
      = some (names.map fun name ↦ (optionKey name, optionValue items name), rest) := by
  induction names with
  | nil => exact absurd rfl hne
  | cons name names ih =>
    obtain ⟨hname, hnames⟩ := List.forall_mem_cons.mp hnames
    have hread := readAs_optionText h name
    have hkey := plain_keys name hname
    have hfuel : (name :: names).length + k + 1 = names.length + k + 2 := by
      rw [List.length_cons]
      omega
    rw [hfuel, List.map_cons, terminate_cons, List.map_cons]
    rcases eq_or_ne names [] with rfl | hne
    · rw [List.map_nil, terminate_nil, List.dropLast_concat]
      exact Json.members_last hkey hread rest
    · have hrest : terminate ',' (names.map (optionMember items)) ≠ [] := by
        obtain ⟨name', names', rfl⟩ := List.exists_cons_of_ne_nil hne
        rw [List.map_cons, terminate_cons]
        exact List.append_ne_nil_of_right_ne_nil _ (List.cons_ne_nil _ _)
      rw [List.dropLast_append_of_ne_nil (List.cons_ne_nil _ _), List.dropLast_cons_of_ne_nil hrest,
        List.append_assoc, List.cons_append]
      exact Json.members_cons hkey hread (ih hnames hne)

theorem parse_options (h : Representable (projectValue items))
    (hnames : ∀ name ∈ names, name ∈ typescriptNames) (hne : names ≠ []) :
    Json.parse (typescriptConfigurationString (names.map fun name ↦ (name, optionText items name)))
      = some (.object (names.map fun name ↦ (optionKey name, optionValue items name))) := by
  rw [typescriptConfigurationString_eq hnames hne]
  have hlength : names.length ≤ (terminate ',' (names.map (optionMember items))).length := by
    rw [← List.length_map (optionMember items)]
    exact length_le_length_terminate _
  have hpos := List.length_pos_iff.mpr hne
  refine Json.parse_of_value (Json.value_object ?_)
  have hmembers := members_options h hnames hne
    ((terminate ',' (names.map (optionMember items))).length - names.length) []
  rwa [show names.length
      + ((terminate ',' (names.map (optionMember items))).length - names.length) + 1
    = ('{' :: ((terminate ',' (names.map (optionMember items))).dropLast ++ ['}'])).length by
      rw [List.length_cons, List.length_append, List.length_dropLast, List.length_singleton]
      omega] at hmembers

/-! ## The length of the text -/

theorem width_quoted (text : Str) :
    Json.width ('"' :: (text ++ ['"'])) = (Quoted.units text).length + 2 := by
  have hquote : (Quoted.codePoint '"'.toNat).length = 1 := rfl
  rw [Json.width_cons, Json.width_append, Json.width_cons, hquote, Json.width, Json.width,
    Quoted.units_nil, List.length_nil]
  omega

/-- The text of a value is no longer than the value. -/
theorem width_valueText_le (items : List CommandLineItem) (name : Str) :
    Json.width (valueText (optionText items name)) ≤ (optionValue items name).size := by
  rw [optionText, optionValue, valueText]
  by_cases hname : name = projectName
  · rw [if_pos hname, if_pos hname, Json.size]
    split
    · exact Nat.le_add_right _ 2
    · exact (width_quoted _).le
  · rw [if_neg hname, if_neg hname, Json.size]
    by_cases hmem : CommandLineItem.switch name ∈ items
    · rw [if_pos hmem, if_pos (Or.inl rfl), decide_eq_true hmem]
      decide
    · rw [if_neg hmem, if_pos (Or.inr rfl), decide_eq_false hmem]
      decide

/-- The text of a truth value is shorter than the string it should be. -/
theorem width_valueText_lt (h : projectValue items = trueText ∨ projectValue items = falseText) :
    Json.width (valueText (optionText items projectName))
      < (optionValue items projectName).size := by
  rw [optionText, if_pos rfl, optionValue, if_pos rfl, valueText, if_pos h, Json.size]
  exact Nat.lt_add_of_pos_right (Nat.succ_pos 1)

theorem width_optionMember (items : List CommandLineItem) (name : Str) :
    Json.width (optionMember items name)
      = (optionKey name).length + 3 + Json.width (valueText (optionText items name)) := by
  have hquote : (Quoted.codePoint '"'.toNat).length = 1 := rfl
  have hcolon : Json.width ['"', ':'] = 2 := rfl
  rw [optionMember, Json.memberText, Json.width_cons, Json.width_append, Json.width_append, hquote,
    hcolon, optionKey, Json.width]
  omega

/-- The members are no longer than they should be, and as long only if each value is. -/
theorem width_terminate (items : List CommandLineItem) (names : List Str) :
    Json.width (terminate ',' (names.map (optionMember items)))
        ≤ Json.sizeMembers (names.map fun name ↦ (optionKey name, optionValue items name)) ∧
      (Json.width (terminate ',' (names.map (optionMember items)))
          = Json.sizeMembers (names.map fun name ↦ (optionKey name, optionValue items name)) →
        ∀ name ∈ names,
          Json.width (valueText (optionText items name)) = (optionValue items name).size) := by
  induction names with
  | nil => exact ⟨le_rfl, fun _ ↦ by simp⟩
  | cons name names ih =>
    obtain ⟨hle, hall⟩ := ih
    have hvalue := width_valueText_le items name
    have hcomma : (Quoted.codePoint ','.toNat).length = 1 := rfl
    rw [List.map_cons, terminate_cons, List.map_cons, Json.sizeMembers, Json.sizeMember,
      Json.width_append, Json.width_cons, hcomma, width_optionMember, List.forall_mem_cons]
    exact ⟨by omega, fun heq ↦ ⟨by omega, hall (by omega)⟩⟩

theorem width_string (hnames : ∀ name ∈ names, name ∈ typescriptNames) (hne : names ≠ []) :
    Json.width (typescriptConfigurationString (names.map fun name ↦ (name, optionText items name)))
      = 1 + Json.width (terminate ',' (names.map (optionMember items))) := by
  obtain ⟨front, last, rfl⟩ := (List.eq_nil_or_concat names).resolve_left hne
  have hcomma : Json.width [','] = 1 := rfl
  have hbrace : Json.width ['}'] = 1 := rfl
  have hopen : (Quoted.codePoint '{'.toNat).length = 1 := rfl
  rw [typescriptConfigurationString_eq hnames hne, List.concat_eq_append, List.map_append,
    terminate_append, List.map_singleton, terminate_cons, terminate_nil, ← List.append_assoc,
    List.dropLast_concat, Json.width_cons, Json.width_append, Json.width_append _ [','], hcomma,
    hbrace, hopen]

/-! ## The stored configuration -/

theorem nodup_configurationMembers (items : List CommandLineItem) :
    ((configurationMembers items).map Prod.fst).Nodup := by
  have hkeys : (configurationMembers items).map Prod.fst = typescriptNames.map optionKey := by
    rw [configurationMembers, List.map_map]
    rfl
  rw [hkeys]
  decide

/-- The iteration order of an environment is one of the names. -/
theorem CommandLineEnvironment.perm_names (e : CommandLineEnvironment) :
    (e.configurations.map Prod.fst).Perm typescriptNames := e.configurations_perm.map _

theorem mem_of_perm_names (hperm : names.Perm typescriptNames) :
    ∀ name ∈ names, name ∈ typescriptNames := fun _ ↦ hperm.mem_iff.mp

theorem ne_nil_of_perm_names (hperm : names.Perm typescriptNames) : names ≠ [] :=
  fun hnil ↦ absurd (hnil ▸ hperm).length_eq (by decide)

/-- The text that is stored is parsed to the options only if the project can be written. -/
theorem representable_of_parse {ms : List (List ℕ × Json)} (hperm : names.Perm typescriptNames)
    (hparse : Json.parse (typescriptConfigurationString
      (names.map fun name ↦ (name, optionText items name))) = some (.object ms))
    (hmember : ∀ key, Json.member key ms = (configurationMembers items).lookup key) :
    Representable (projectValue items) := by
  have hnodup := nodup_configurationMembers items
  have hmembers : (names.map fun name ↦ (optionKey name, optionValue items name)).Perm
      (configurationMembers items) := hperm.map _
  have hsub : configurationMembers items ⊆ ms := fun m hm ↦
    Json.mem_of_member ((hmember m.1).trans ((Json.lookup_eq_some_iff_mem hnodup).mpr hm))
  -- The members are no longer than the text, which is no longer than the members.
  have hle := Json.sizeMembers_le_of_subset hnodup hsub
  obtain ⟨hsize, hplain⟩ := Json.size_le_of_parse hparse
  obtain ⟨hwidth, hvalues⟩ := width_terminate items names
  rw [width_string (mem_of_perm_names hperm) (ne_nil_of_perm_names hperm), Json.size]
    at hsize hplain
  rw [Json.sizeMembers_perm hmembers] at hwidth hvalues
  have hproject : projectName ∈ typescriptNames := by decide
  have hvalue := hvalues (by omega) projectName (hperm.mem_iff.mpr hproject)
  have hmem : (optionKey projectName, optionValue items projectName) ∈ ms :=
    hsub (List.mem_map.mpr ⟨projectName, hproject, rfl⟩)
  refine ⟨?_, fun htrue ↦ ?_, fun hfalse ↦ ?_⟩
  · cases hplain (by omega) with
    | object _ hplain =>
      have hstring := hplain _ hmem
      rw [optionValue, if_pos rfl] at hstring
      cases hstring with
      | string hunits => exact Json.plain_iff.mpr hunits
  · exact absurd hvalue (width_valueText_lt (.inl htrue)).ne
  · exact absurd hvalue (width_valueText_lt (.inr hfalse)).ne

/-- What is in the store when `set_argv` is done. -/
theorem read_setArgv {arguments : List Str} {store store' : Store} {r : Reading}
    (hr : r.Of e arguments) (h : setArgv e store arguments = .ok (s, store')) :
    store'.read configurationsMap typescriptFile = some (typescriptConfigurationString
      ((e.configurations.map Prod.fst).map fun name ↦ (name, optionText r.items name))) := by
  obtain ⟨t, hread, hleaves⟩ := hr.readArguments
  have hconfigurations : t.typescriptConfigurations
      = (e.configurations.map Prod.fst).map fun name ↦ (name, optionText r.items name) :=
    hleaves.typescript.trans (readItems_start_configurations hr.valid)
  rw [setArgv_eq hread store, Except.ok.injEq, Prod.mk.injEq] at h
  rw [← h.2, Store.read_write_of_ne (Store.mapExists_write ..) (by decide), Store.read_write,
    ContentVariant.content, hconfigurations]

end

end SlimTS
