import SlimTS.CommandLine.Argv

/-!
# What an argument is

In front of the script an argument is a TypeScript option, the value of one, a slim option or an
argument for V8. A command line is a sequence of such items, with a script and the arguments of the
script behind them or with nothing. The other ways it can end are those in which the loop of
`set_argv` fails: an option that expects a value is the last argument, or an argument that would be
classified is empty, of which no absolute path can be made.

The items are read one by one, so what the loop leaves is a fold over them.
-/

namespace SlimTS

open Getline

/-- What stands in front of the script. -/
inductive CommandLineItem
  /-- A TypeScript option without a value. -/
  | switch (name : Str)
  /-- A TypeScript option, and the argument behind it. -/
  | valued (name value : Str)
  /-- A slim option. -/
  | slim (name : Str)
  /-- An argument for V8. -/
  | v8 (argument : Str)
deriving DecidableEq

/-- The names of the TypeScript options. -/
def typescriptNames : List Str := typescriptConfigurations.map Prod.fst

namespace CommandLineItem

/-- The arguments of an item. -/
def words : CommandLineItem → List Str
  | switch name => [name]
  | valued name value => [name, value]
  | slim name => [name]
  | v8 argument => [argument]

/-- The argument that is passed on to V8. -/
def v8Argument : CommandLineItem → Option Str
  | v8 argument => some argument
  | _ => none

/-- The arguments are what the item takes them for. -/
def Valid (e : CommandLineEnvironment) : CommandLineItem → Prop
  | switch name => name ∈ typescriptNames ∧ typescriptArgumentExpectsValue name = false
  | valued name _ => name ∈ typescriptNames ∧ typescriptArgumentExpectsValue name = true
  | slim name => name ∈ slimConfigurations
  | v8 argument => argument ∉ typescriptNames ∧ argument ∉ slimConfigurations ∧
      isScript e argument = .ok none

end CommandLineItem

/-- The arguments of some items. -/
def words (items : List CommandLineItem) : List Str := items.flatMap CommandLineItem.words

/-- What an item sets. -/
def ArgvState.readItem (s : ArgvState) : CommandLineItem → ArgvState
  | .switch name => s.configure name trueText
  | .valued name value => s.configure name value
  | .slim name => s.readSlim name
  | .v8 argument => { s with v8ConfigurationValues := s.v8ConfigurationValues ++ [argument] }

/-- What some items set. -/
def ArgvState.readItems (s : ArgvState) (items : List CommandLineItem) : ArgvState :=
  items.foldl ArgvState.readItem s

/-- A script and its arguments. -/
structure ScriptCall where
  script : Str
  scriptPath : Str
  arguments : List Str

/-- A command line as it is meant. -/
structure Reading where
  items : List CommandLineItem
  call : Option ScriptCall

namespace Reading

/-- The command line is read as this. -/
structure Of (e : CommandLineEnvironment) (arguments : List Str) (r : Reading) : Prop where
  valid : ∀ item ∈ r.items, item.Valid e
  script : ∀ c ∈ r.call, isScript e c.script = .ok (some c.scriptPath)
  arguments_eq : arguments = words r.items ++ r.call.elim [] fun c ↦ c.script :: c.arguments

/-- The globals that `set_argv` leaves, for a command line that is read as this. -/
structure Leaves (e : CommandLineEnvironment) (r : Reading) (s : ArgvState) : Prop where
  /-- The vector that is returned. -/
  v8 : s.v8ConfigurationValues = e.executablePath :: r.items.filterMap CommandLineItem.v8Argument
  /-- Only the items set options. -/
  typescript :
    s.typescriptConfigurations = ((ArgvState.start e).readItems r.items).typescriptConfigurations
  /-- Only the items set switches of the log. -/
  log : s.log = ((ArgvState.start e).readItems r.items).log
  scriptName : s.scriptName = r.call.map ScriptCall.scriptPath
  /-- The script's arguments are appended as they are. -/
  scriptArgvs : s.scriptArgvs
    = popComma (terminate ',' (e.executablePath ::
        r.call.elim [] fun c ↦ c.scriptPath :: c.arguments))

end Reading

/-- The command line can be read in one way only, and is read in that way. -/
def ReadsRight (e : CommandLineEnvironment) (store : Store) (arguments : List Str) : Prop :=
  ∃ r : Reading, r.Of e arguments ∧ (∀ r' : Reading, r'.Of e arguments → r' = r) ∧
    ∃ s store', setArgv e store arguments = .ok (s, store') ∧ r.Leaves e s

/-- An option in front of the script has no argument behind it for its value. -/
def Dangling (e : CommandLineEnvironment) (arguments : List Str) : Prop :=
  ∃ items name, (∀ item ∈ items, CommandLineItem.Valid e item) ∧ name ∈ typescriptNames ∧
    typescriptArgumentExpectsValue name = true ∧ arguments = words items ++ [name]

/-- In front of the script there is an empty argument that is not the value of an option. -/
def HasEmpty (e : CommandLineEnvironment) (arguments : List Str) : Prop :=
  ∃ items rest, (∀ item ∈ items, CommandLineItem.Valid e item) ∧
    arguments = words items ++ [] :: rest

section

variable {e : CommandLineEnvironment} {s : ArgvState} {item : CommandLineItem}
  {items : List CommandLineItem} {name argument : Str} {arguments : List Str}

theorem words_cons_append (item : CommandLineItem) (items : List CommandLineItem)
    (tail : List Str) : words (item :: items) ++ tail = item.words ++ (words items ++ tail) := by
  rw [words, List.flatMap_cons, List.append_assoc, words]

theorem CommandLineItem.words_ne_nil (item : CommandLineItem) : item.words ≠ [] := by
  cases item with
  | switch name => exact List.cons_ne_nil _ _
  | valued name value => exact List.cons_ne_nil _ _
  | slim name => exact List.cons_ne_nil _ _
  | v8 argument => exact List.cons_ne_nil _ _

/-! ## The tables -/

/-- The options without a value are those that begin with `--print`. -/
theorem isPrefixOf_typescriptNames : ∀ name ∈ typescriptNames,
    printPrefix.isPrefixOf name = !typescriptArgumentExpectsValue name := by
  decide

/-- No slim option is a TypeScript option. -/
theorem not_mem_typescriptNames : ∀ name ∈ slimConfigurations, name ∉ typescriptNames := by
  decide

/-- The empty argument is no option. -/
theorem nil_not_mem : [] ∉ typescriptNames ∧ [] ∉ slimConfigurations := by decide

theorem isTypescriptArgument_iff (hnamed : s.Named) :
    isTypescriptArgument s argument = true ↔ argument ∈ typescriptNames := by
  rw [isTypescriptArgument, List.contains_iff_mem, hnamed.mem_iff, typescriptNames]

theorem isSlimArgument_iff : isSlimArgument argument = true ↔ argument ∈ slimConfigurations :=
  List.contains_iff_mem

/-- There is an answer for every argument but the empty one. -/
theorem isScript_eq_error (e : CommandLineEnvironment) : isScript e [] = .error .emptyPath := rfl

theorem exists_isScript (hne : argument ≠ []) : ∃ script, isScript e argument = .ok script := by
  have hhead := head_regexReplace argument
  have hne' : regexReplace argument ≠ [] := by
    intro hnil
    rw [hnil] at hhead
    exact hne (List.head?_eq_none_iff.mp hhead.symm)
  rw [isScript]
  cases habsolute : Path.absolute e.currentPath (regexReplace argument) with
  | some scriptPath => exact ⟨_, rfl⟩
  | none =>
    rw [Path.absolute, if_neg hne'] at habsolute
    split at habsolute
    · exact absurd habsolute (by simp)
    split at habsolute
    · exact absurd habsolute (by simp)
    · exact absurd habsolute (by simp)

/-! ## Reading items -/

theorem ArgvState.Named.readItem (h : s.Named) (item : CommandLineItem) :
    (s.readItem item).Named := by
  cases item with
  | switch name => exact h.configure name trueText
  | valued name value => exact h.configure name value
  | slim name => exact h
  | v8 argument => exact h

/-- What no item touches. -/
theorem ArgvState.readItem_frame (s : ArgvState) (item : CommandLineItem) :
    (s.readItem item).foundModuleSourceFile = s.foundModuleSourceFile ∧
      (s.readItem item).scriptName = s.scriptName ∧
      (s.readItem item).scriptArgvs = s.scriptArgvs := by
  cases item with
  | switch name => exact ⟨rfl, rfl, rfl⟩
  | valued name value => exact ⟨rfl, rfl, rfl⟩
  | slim name => exact ⟨rfl, rfl, rfl⟩
  | v8 argument => exact ⟨rfl, rfl, rfl⟩

theorem ArgvState.readItem_v8 (s : ArgvState) (item : CommandLineItem) :
    (s.readItem item).v8ConfigurationValues
      = s.v8ConfigurationValues ++ item.v8Argument.toList := by
  cases item with
  | switch name => exact (List.append_nil _).symm
  | valued name value => exact (List.append_nil _).symm
  | slim name => exact (List.append_nil _).symm
  | v8 argument => rfl

/-- **One item.** The loop takes its arguments and goes on. -/
theorem readArguments_item (hitem : item.Valid e) (hnamed : s.Named)
    (hfound : s.foundModuleSourceFile = false) (rest : List Str) :
    readArguments e s (item.words ++ rest) = readArguments e (s.readItem item) rest := by
  have hnot : ¬ s.foundModuleSourceFile = true := hfound ▸ Bool.false_ne_true
  cases item with
  | switch name =>
    obtain ⟨hname, hvalue⟩ := hitem
    have hprint : printPrefix.isPrefixOf name = true := by
      rw [isPrefixOf_typescriptNames name hname, hvalue]
      rfl
    rw [CommandLineItem.words, List.singleton_append, readArguments_cons, if_neg hnot,
      if_pos ((isTypescriptArgument_iff hnamed).mpr hname), if_pos hprint]
    rfl
  | valued name value =>
    obtain ⟨hname, hvalue⟩ := hitem
    have hprint : ¬ printPrefix.isPrefixOf name = true := by
      rw [isPrefixOf_typescriptNames name hname, hvalue]
      exact Bool.false_ne_true
    rw [CommandLineItem.words, List.cons_append, readArguments_cons, if_neg hnot,
      if_pos ((isTypescriptArgument_iff hnamed).mpr hname), if_neg hprint, if_pos hvalue]
    rfl
  | slim name =>
    have hname : ¬ isTypescriptArgument s name = true := by
      rw [isTypescriptArgument_iff hnamed]
      exact not_mem_typescriptNames name hitem
    rw [CommandLineItem.words, List.singleton_append, readArguments_cons, if_neg hnot, if_neg hname,
      if_pos (isSlimArgument_iff.mpr hitem)]
    rfl
  | v8 argument =>
    obtain ⟨hoption, hslim, hscript⟩ := hitem
    rw [CommandLineItem.words, List.singleton_append, readArguments_cons, if_neg hnot,
      if_neg ((isTypescriptArgument_iff hnamed).not.mpr hoption),
      if_neg (isSlimArgument_iff.not.mpr hslim), hscript, ok_bind]
    rfl

/-- **All items.** The loop folds them into the state. -/
theorem readArguments_items (hitems : ∀ item ∈ items, item.Valid e) (hnamed : s.Named)
    (hfound : s.foundModuleSourceFile = false) (rest : List Str) :
    readArguments e s (words items ++ rest) = readArguments e (s.readItems items) rest := by
  induction items generalizing s with
  | nil => rfl
  | cons item items ih =>
    obtain ⟨hitem, hitems⟩ := List.forall_mem_cons.mp hitems
    rw [words_cons_append, readArguments_item hitem hnamed hfound]
    exact ih hitems (hnamed.readItem item) ((s.readItem_frame item).1.trans hfound)

theorem ArgvState.Named.readItems (h : s.Named) (items : List CommandLineItem) :
    (s.readItems items).Named := by
  induction items generalizing s with
  | nil => exact h
  | cons item items ih => exact ih (h.readItem item)

theorem ArgvState.readItems_frame (s : ArgvState) (items : List CommandLineItem) :
    (s.readItems items).foundModuleSourceFile = s.foundModuleSourceFile ∧
      (s.readItems items).scriptName = s.scriptName ∧
      (s.readItems items).scriptArgvs = s.scriptArgvs := by
  induction items generalizing s with
  | nil => exact ⟨rfl, rfl, rfl⟩
  | cons item items ih =>
    obtain ⟨hfound, hname, hargvs⟩ := s.readItem_frame item
    obtain ⟨hfound', hname', hargvs'⟩ := ih (s := s.readItem item)
    exact ⟨hfound'.trans hfound, hname'.trans hname, hargvs'.trans hargvs⟩

theorem ArgvState.readItems_v8 (s : ArgvState) (items : List CommandLineItem) :
    (s.readItems items).v8ConfigurationValues
      = s.v8ConfigurationValues ++ items.filterMap CommandLineItem.v8Argument := by
  induction items generalizing s with
  | nil => exact (List.append_nil _).symm
  | cons item items ih =>
    have hrest := ih (s := s.readItem item)
    rw [s.readItem_v8 item, List.append_assoc] at hrest
    rw [List.filterMap_cons]
    cases hargument : item.v8Argument with
    | none =>
      rw [hargument] at hrest
      exact hrest
    | some argument =>
      rw [hargument] at hrest
      exact hrest

/-! ## What follows the items -/

/-- What follows the items of a command line. -/
inductive Ending (e : CommandLineEnvironment) : List Str → Prop
  | nothing : Ending e []
  | script {script scriptPath : Str} (h : isScript e script = .ok (some scriptPath))
      (arguments : List Str) : Ending e (script :: arguments)
  | dangling {name : Str} (hname : name ∈ typescriptNames)
      (hvalue : typescriptArgumentExpectsValue name = true) : Ending e [name]
  | empty (rest : List Str) : Ending e ([] :: rest)

/-- A script is no option. -/
theorem not_mem_of_isScript {scriptPath : Str} (h : isScript e argument = .ok (some scriptPath)) :
    argument ∉ typescriptNames ∧ argument ∉ slimConfigurations := by
  have hnamed : (ArgvState.start e).Named := e.configurations_perm.map _
  obtain ⟨hoption, hslim⟩ := not_option_of_isScript hnamed h
  rw [← isTypescriptArgument_iff hnamed, ← isSlimArgument_iff, hoption, hslim]
  exact ⟨Bool.false_ne_true, Bool.false_ne_true⟩

/-- **Every command line** is a sequence of items and an ending. -/
theorem exists_ending (e : CommandLineEnvironment) (arguments : List Str) :
    ∃ items tail, (∀ item ∈ items, CommandLineItem.Valid e item) ∧ Ending e tail ∧
      arguments = words items ++ tail := by
  induction hlength : arguments.length using Nat.strong_induction_on generalizing arguments with
  | _ _ ih =>
    subst hlength
    -- An item in front of a shorter command line.
    have hcons : ∀ (item : CommandLineItem) (rest : List Str), item.Valid e →
        arguments = item.words ++ rest →
        ∃ items tail, (∀ item ∈ items, CommandLineItem.Valid e item) ∧ Ending e tail ∧
          arguments = words items ++ tail := by
      intro item rest hitem harguments
      have hpos := List.length_pos_iff.mpr item.words_ne_nil
      obtain ⟨items, tail, hitems, hending, hrest⟩ := ih rest.length (by
        rw [harguments, List.length_append]
        omega) rest rfl
      refine ⟨item :: items, tail, List.forall_mem_cons.mpr ⟨hitem, hitems⟩, hending, ?_⟩
      rw [harguments, hrest, words_cons_append]
    have hnone : ∀ tail, Ending e tail → arguments = tail → ∃ items tail,
        (∀ item ∈ items, CommandLineItem.Valid e item) ∧ Ending e tail ∧
          arguments = words items ++ tail :=
      fun tail hending harguments ↦ ⟨[], tail, by simp, hending, harguments⟩
    cases arguments with
    | nil => exact hnone [] .nothing rfl
    | cons argument rest =>
      by_cases hoption : argument ∈ typescriptNames
      · cases hvalue : typescriptArgumentExpectsValue argument with
        | false => exact hcons (.switch argument) rest ⟨hoption, hvalue⟩ rfl
        | true =>
          cases rest with
          | nil => exact hnone _ (.dangling hoption hvalue) rfl
          | cons value rest => exact hcons (.valued argument value) rest ⟨hoption, hvalue⟩ rfl
      by_cases hslim : argument ∈ slimConfigurations
      · exact hcons (.slim argument) rest hslim rfl
      rcases eq_or_ne argument [] with rfl | hne
      · exact hnone _ (.empty rest) rfl
      · obtain ⟨script, hscript⟩ := exists_isScript (e := e) hne
        cases script with
        | some scriptPath => exact hnone _ (.script hscript rest) rfl
        | none => exact hcons (.v8 argument) rest ⟨hoption, hslim, hscript⟩ rfl

/-- The item that a command line begins with, and the arguments behind it. -/
def firstItem (e : CommandLineEnvironment) : List Str → Option (CommandLineItem × List Str)
  | [] => none
  | argument :: rest =>
    if typescriptNames.contains argument then
      if typescriptArgumentExpectsValue argument then
        rest.head?.map fun value ↦ (.valued argument value, rest.tail)
      else some (.switch argument, rest)
    else if isSlimArgument argument then some (.slim argument, rest)
    else
      match isScript e argument with
      | .ok none => some (.v8 argument, rest)
      | _ => none

/-- The first arguments say which item it is. -/
theorem firstItem_words (h : item.Valid e) (rest : List Str) :
    firstItem e (item.words ++ rest) = some (item, rest) := by
  cases item with
  | switch name =>
    rw [CommandLineItem.words, List.singleton_append, firstItem,
      if_pos (List.contains_iff_mem.mpr h.1), h.2, if_neg Bool.false_ne_true]
  | valued name value =>
    rw [CommandLineItem.words, List.cons_append, List.singleton_append, firstItem,
      if_pos (List.contains_iff_mem.mpr h.1), if_pos h.2]
    rfl
  | slim name =>
    have hslim : name ∈ slimConfigurations := h
    rw [CommandLineItem.words, List.singleton_append, firstItem,
      if_neg (List.contains_iff_mem.not.mpr (not_mem_typescriptNames name hslim)),
      if_pos (isSlimArgument_iff.mpr hslim)]
  | v8 argument =>
    obtain ⟨hoption, hslim, hscript⟩ := h
    rw [CommandLineItem.words, List.singleton_append, firstItem,
      if_neg (List.contains_iff_mem.not.mpr hoption), if_neg (isSlimArgument_iff.not.mpr hslim),
      hscript]

/-- An ending does not begin with an item. -/
theorem Ending.firstItem {tail : List Str} (hending : Ending e tail) : firstItem e tail = none := by
  cases hending with
  | nothing => rfl
  | script hscript arguments =>
    obtain ⟨hoption, hslim⟩ := not_mem_of_isScript hscript
    rw [SlimTS.firstItem, if_neg (List.contains_iff_mem.not.mpr hoption),
      if_neg (isSlimArgument_iff.not.mpr hslim), hscript]
  | dangling hname hvalue =>
    rw [SlimTS.firstItem, if_pos (List.contains_iff_mem.mpr hname), if_pos hvalue]
    rfl
  | empty rest =>
    rw [SlimTS.firstItem, if_neg (List.contains_iff_mem.not.mpr nil_not_mem.1),
      if_neg (isSlimArgument_iff.not.mpr nil_not_mem.2), isScript_eq_error]

theorem Ending.ne_words_append {tail : List Str} (hending : Ending e tail) (h : item.Valid e)
    (rest : List Str) : tail ≠ item.words ++ rest := by
  intro heq
  have hitem := firstItem_words h rest
  rw [← heq, hending.firstItem] at hitem
  exact absurd hitem (by simp)

/-- **In one way only.** -/
theorem eq_of_words_append {items' : List CommandLineItem} {tail tail' : List Str}
    (hitems : ∀ item ∈ items, item.Valid e) (hitems' : ∀ item ∈ items', item.Valid e)
    (hending : Ending e tail) (hending' : Ending e tail')
    (heq : words items ++ tail = words items' ++ tail') : items = items' ∧ tail = tail' := by
  induction items generalizing items' with
  | nil =>
    cases items' with
    | nil => exact ⟨rfl, heq⟩
    | cons item' items' =>
      rw [words_cons_append] at heq
      exact absurd heq (hending.ne_words_append (hitems' item' List.mem_cons_self) _)
  | cons item items ih =>
    obtain ⟨hitem, hrest⟩ := List.forall_mem_cons.mp hitems
    cases items' with
    | nil =>
      rw [words_cons_append] at heq
      exact absurd heq.symm (hending'.ne_words_append hitem _)
    | cons item' items' =>
      obtain ⟨hitem', hrest'⟩ := List.forall_mem_cons.mp hitems'
      rw [words_cons_append, words_cons_append] at heq
      have hfirst := firstItem_words hitem (words items ++ tail)
      rw [heq, firstItem_words hitem', Option.some_inj, Prod.mk.injEq] at hfirst
      obtain ⟨rfl, heqRest⟩ := hfirst
      obtain ⟨rfl, htail⟩ := ih hrest hrest' heqRest.symm
      exact ⟨rfl, htail⟩

/-! ## The loop at an ending -/

section

variable (hnamed : s.Named) (hfound : s.foundModuleSourceFile = false)

include hnamed hfound

theorem readArguments_dangling (hname : name ∈ typescriptNames)
    (hvalue : typescriptArgumentExpectsValue name = true) :
    readArguments e s [name] = .error .nullArgument := by
  have hprint : ¬ printPrefix.isPrefixOf name = true := by
    rw [isPrefixOf_typescriptNames name hname, hvalue]
    exact Bool.false_ne_true
  rw [readArguments_cons, hfound, if_neg Bool.false_ne_true,
    if_pos ((isTypescriptArgument_iff hnamed).mpr hname), if_neg hprint, if_pos hvalue]

theorem readArguments_empty (rest : List Str) :
    readArguments e s ([] :: rest) = .error .emptyPath := by
  rw [readArguments_cons, hfound, if_neg Bool.false_ne_true,
    if_neg ((isTypescriptArgument_iff hnamed).not.mpr nil_not_mem.1),
    if_neg (isSlimArgument_iff.not.mpr nil_not_mem.2), isScript_eq_error]
  rfl

/-- The script, and what is behind it. -/
theorem readArguments_call {c : ScriptCall}
    (hscript : isScript e c.script = .ok (some c.scriptPath)) :
    readArguments e s (c.script :: c.arguments)
      = .ok { s with
          scriptName := some c.scriptPath
          scriptArgvs := s.scriptArgvs ++ terminate ',' (c.scriptPath :: c.arguments)
          foundModuleSourceFile := true } := by
  obtain ⟨hoption, hslim⟩ := not_mem_of_isScript hscript
  rw [readArguments_cons, hfound, if_neg Bool.false_ne_true,
    if_neg ((isTypescriptArgument_iff hnamed).not.mpr hoption),
    if_neg (isSlimArgument_iff.not.mpr hslim), hscript, ok_bind, readArguments_of_found rfl]
  simp only [ArgvState.readFile, ArgvState.append, terminate_cons, List.append_assoc,
    List.cons_append, List.nil_append]

end

/-! ## The command line -/

theorem ArgvState.start_named (e : CommandLineEnvironment) : (ArgvState.start e).Named :=
  e.configurations_perm.map _

/-- The loop behind the items of a command line. -/
theorem readArguments_start (hitems : ∀ item ∈ items, item.Valid e) (tail : List Str) :
    readArguments e (.start e) (words items ++ tail)
      = readArguments e ((ArgvState.start e).readItems items) tail :=
  readArguments_items hitems (ArgvState.start_named e) rfl tail

/-- The executable is the first of the script's arguments. -/
theorem ArgvState.start_scriptArgvs (e : CommandLineEnvironment) :
    (ArgvState.start e).scriptArgvs = terminate ',' [e.executablePath] := by
  rw [terminate_cons, terminate_nil]
  rfl

/-- What a command line leaves that can be read. -/
theorem Reading.Of.readArguments {r : Reading} (h : r.Of e arguments) :
    ∃ s, readArguments e (.start e) arguments = .ok s ∧
      r.Leaves e { s with scriptArgvs := popComma s.scriptArgvs } := by
  obtain ⟨items, call⟩ := r
  obtain ⟨hvalid, hscript, harguments⟩ := h
  have hv8 := (ArgvState.start e).readItems_v8 items
  obtain ⟨hfound, hname, hargvs⟩ := (ArgvState.start e).readItems_frame items
  rw [ArgvState.start_scriptArgvs] at hargvs
  cases call with
  | none =>
    have hread : SlimTS.readArguments e (.start e) arguments
        = .ok ((ArgvState.start e).readItems items) := by
      rw [harguments, Option.elim_none, readArguments_start hvalid]
      exact (SlimTS.readArguments.eq_def ..).trans rfl
    exact ⟨_, hread, hv8, rfl, rfl, hname, congrArg popComma hargvs⟩
  | some c =>
    have hread := readArguments_call ((ArgvState.start_named e).readItems items) hfound
      (hscript c rfl)
    rw [← readArguments_start hvalid, hargvs, ← terminate_append] at hread
    rw [Option.elim_some] at harguments
    rw [← harguments] at hread
    exact ⟨_, hread, hv8, rfl, rfl, rfl, rfl⟩

/-- A command line can be read in one way at most. -/
theorem Reading.Of.unique {r r' : Reading} (h : r.Of e arguments) (h' : r'.Of e arguments) :
    r' = r := by
  have hending : ∀ {r : Reading}, r.Of e arguments →
      Ending e (r.call.elim [] fun c ↦ c.script :: c.arguments) := by
    rintro ⟨items, call⟩ h
    cases call with
    | none => exact .nothing
    | some c => exact .script (h.script c rfl) c.arguments
  obtain ⟨hitems, hcall⟩ := eq_of_words_append h'.valid h.valid (hending h') (hending h)
    (h'.arguments_eq.symm.trans h.arguments_eq)
  obtain ⟨items, call⟩ := r
  obtain ⟨items', call'⟩ := r'
  obtain rfl : items' = items := hitems
  cases call with
  | none =>
    cases call' with
    | none => rfl
    | some c' => exact absurd hcall (List.cons_ne_nil _ _)
  | some c =>
    cases call' with
    | none => exact absurd hcall.symm (List.cons_ne_nil _ _)
    | some c' =>
      obtain ⟨hscript, harguments⟩ := List.cons.inj hcall
      have hpath := (hscript ▸ h'.script c' rfl).symm.trans (h.script c rfl)
      obtain ⟨script, scriptPath, arguments⟩ := c
      obtain ⟨script', scriptPath', arguments'⟩ := c'
      obtain rfl : script' = script := hscript
      obtain rfl : arguments' = arguments := harguments
      obtain rfl : scriptPath' = scriptPath := Option.some.inj (Except.ok.inj hpath)
      rfl

/-- The three ways a command line can be. -/
theorem reads_or_fails (e : CommandLineEnvironment) (arguments : List Str) :
    (∃ r : Reading, r.Of e arguments) ∨ Dangling e arguments ∨ HasEmpty e arguments := by
  obtain ⟨items, tail, hitems, hending, harguments⟩ := exists_ending e arguments
  cases hending with
  | nothing => exact .inl ⟨⟨items, none⟩, hitems, by simp, harguments⟩
  | @script script scriptPath h rest =>
    refine .inl ⟨⟨items, some ⟨script, scriptPath, rest⟩⟩, hitems, fun c hc ↦ ?_, harguments⟩
    rwa [← Option.some.inj hc]
  | dangling hname hvalue => exact .inr (.inl ⟨items, _, hitems, hname, hvalue, harguments⟩)
  | empty rest => exact .inr (.inr ⟨items, rest, hitems, harguments⟩)

theorem Dangling.readArguments (h : Dangling e arguments) :
    readArguments e (.start e) arguments = .error .nullArgument := by
  obtain ⟨items, name, hitems, hname, hvalue, rfl⟩ := h
  rw [readArguments_start hitems]
  exact readArguments_dangling ((ArgvState.start_named e).readItems items)
    ((ArgvState.start e).readItems_frame items).1 hname hvalue

theorem HasEmpty.readArguments (h : HasEmpty e arguments) :
    readArguments e (.start e) arguments = .error .emptyPath := by
  obtain ⟨items, rest, hitems, rfl⟩ := h
  rw [readArguments_start hitems]
  exact readArguments_empty ((ArgvState.start_named e).readItems items)
    ((ArgvState.start e).readItems_frame items).1 rest

/-- **Classification.** When no option lacks its value, the arguments are classified in the one way
there is, and everything is left where it belongs, exactly when no argument to be classified is
empty. -/
theorem readsRight_iff (hvalues : ¬ Dangling e arguments) (store : Store) :
    ReadsRight e store arguments ↔ ¬ HasEmpty e arguments := by
  constructor
  · rintro ⟨r, -, -, s, store', hset, -⟩ hempty
    obtain ⟨t, hread, -⟩ := bind_eq_ok hset
    exact absurd (hread.symm.trans hempty.readArguments) (by simp)
  · intro hempty
    obtain ⟨r, hr⟩ := (reads_or_fails e arguments).resolve_right (not_or.mpr ⟨hvalues, hempty⟩)
    obtain ⟨s, hread, hleaves⟩ := hr.readArguments
    exact ⟨r, hr, fun r' hr' ↦ hr.unique hr', _, _, setArgv_eq hread store, hleaves⟩

/-- Option-like text behind an option is its value, and behind the script one of its arguments. -/
theorem readsRight_iff_homeEnvironment : ReadsRight homeEnvironment emptyStore
    ["--typescript-project".toList, "--print-all".toList, "--harmony".toList, "a.js".toList,
      "--print-debug".toList, []] := by
  have hread : ∃ s, readArguments homeEnvironment (.start homeEnvironment)
      ["--typescript-project".toList, "--print-all".toList, "--harmony".toList, "a.js".toList,
        "--print-debug".toList, []] = .ok s := ⟨_, rfl⟩
  obtain ⟨s, hread⟩ := hread
  exact (readsRight_iff (fun h ↦ absurd (hread.symm.trans h.readArguments) (by simp)) _).mpr
    fun h ↦ absurd (hread.symm.trans h.readArguments) (by simp)

/-- An empty argument in front of the script. -/
theorem readsRight_emptyArgument : ¬∀ (e : CommandLineEnvironment) (store : Store)
    (arguments : List Str), ¬ Dangling e arguments → ReadsRight e store arguments := by
  intro h
  have hempty : HasEmpty homeEnvironment [[], "a.js".toList] :=
    ⟨[], ["a.js".toList], by simp, rfl⟩
  obtain ⟨r, -, -, s, store', hset, -⟩ := h homeEnvironment emptyStore _ fun hdangling ↦
    absurd (hempty.readArguments.symm.trans hdangling.readArguments) (by simp)
  obtain ⟨t, hread, -⟩ := bind_eq_ok hset
  exact absurd (hread.symm.trans hempty.readArguments) (by simp)

/-- **No exception leaves the loop** exactly when no option lacks its value and no argument to be
classified is empty. -/
theorem readArguments_succeeds_iff (e : CommandLineEnvironment) (arguments : List Str) :
    (∃ s, readArguments e (.start e) arguments = .ok s) ↔
      ¬ Dangling e arguments ∧ ¬ HasEmpty e arguments := by
  constructor
  · rintro ⟨s, hread⟩
    exact ⟨fun h ↦ absurd (hread.symm.trans h.readArguments) (by simp),
      fun h ↦ absurd (hread.symm.trans h.readArguments) (by simp)⟩
  · intro h
    obtain ⟨r, hr⟩ := (reads_or_fails e arguments).resolve_right (not_or.mpr h)
    obtain ⟨s, hread, -⟩ := hr.readArguments
    exact ⟨s, hread⟩

/-- The option with a value as the last argument. -/
theorem readArguments_lastProject : ¬∀ (e : CommandLineEnvironment) (arguments : List Str),
    ∃ s, readArguments e (.start e) arguments = .ok s := by
  intro h
  have hdangling : Dangling homeEnvironment ["--typescript-project".toList] :=
    ⟨[], _, by simp, by decide, rfl, rfl⟩
  obtain ⟨s, hread⟩ := h homeEnvironment ["--typescript-project".toList]
  exact absurd (hread.symm.trans hdangling.readArguments) (by simp)

end

end SlimTS
