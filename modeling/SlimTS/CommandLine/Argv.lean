import SlimTS.CommandLine.Handler
import SlimTS.Library.Getline
import SlimTS.Plugin.Strings

/-!
# The arguments a script sees

`set_argv` writes the executable, the script and the script's arguments with a comma after each,
takes the last comma away and stores the text. The process plugin reads the text back with
`getline` at the commas and makes strings of `process.argv` of the pieces. What a script sees is
therefore what the library says of reading back terminated pieces: the arguments come through
exactly when no piece holds a comma and the last one is not empty, as far as they are text at all.
The script itself comes through as the absolute path that `is_script` makes of it.
-/

namespace SlimTS

open Getline

/-- `process.argv`, as the process plugin fills it. A null pointer from the store is `none`. -/
def processArgv (v8 : Transcoding) (store : Store) : Option (List JsString) :=
  (store.read configurationsMap scriptArgvFile).map fun text ↦
    (pieces ',' text).map (stringToV8String v8)

/-- Scripts see the arguments: each string of the array is the text whose UTF-8 the argument is. -/
def SeesArguments (v8 : Transcoding) (store : Store) (arguments : List Str) : Prop :=
  ∃ array, processArgv v8 store = some array ∧ List.Forall₂ Spells array arguments

variable {v8 : Transcoding} {e : CommandLineEnvironment} {s t : ArgvState}

/-! ## The reading loop -/

/-- The loop at one argument. -/
theorem readArguments_cons (s : ArgvState) (argument : Str) (rest : List Str) :
    readArguments e s (argument :: rest)
      = if s.foundModuleSourceFile then readArguments e (s.append argument) rest
        else if isTypescriptArgument s argument then
          if printPrefix.isPrefixOf argument then
            readArguments e (s.configure argument trueText) rest
          else if typescriptArgumentExpectsValue argument then
            match rest with
            | [] => .error .nullArgument
            | value :: rest => readArguments e (s.configure argument value) rest
          else readArguments e s rest
        else if isSlimArgument argument then readArguments e (s.readSlim argument) rest
        else isScript e argument >>= fun script ↦
          readArguments e (s.readFile argument script) rest :=
  (readArguments.eq_def e s (argument :: rest)).trans rfl

/-- Once the script is found, everything is an argument of the script. -/
theorem readArguments_of_found (hfound : s.foundModuleSourceFile = true) (arguments : List Str) :
    readArguments e s arguments
      = .ok { s with scriptArgvs := s.scriptArgvs ++ terminate ',' arguments } := by
  induction arguments generalizing s with
  | nil => rw [readArguments, terminate_nil, List.append_nil]
  | cons argument rest ih =>
    rw [readArguments_cons, if_pos hfound, ih (s := s.append argument) hfound]
    simp only [ArgvState.append, terminate_cons, List.append_assoc, List.cons_append,
      List.nil_append]

/-- The loop reads one part of the arguments and goes on with the other. -/
theorem readArguments_append {before : List Str} (h : readArguments e s before = .ok t)
    (after : List Str) : readArguments e s (before ++ after) = readArguments e t after := by
  fun_induction readArguments e s before with
  | case1 s => rw [List.nil_append, Except.ok.inj h]
  | case2 s argument rest hfound ih =>
    rw [List.cons_append, readArguments_cons, if_pos hfound, ih h]
  | case3 s argument rest hfound hoption hprint ih =>
    rw [List.cons_append, readArguments_cons, if_neg hfound, if_pos hoption, if_pos hprint, ih h]
  | case4 => exact absurd h (by simp)
  | case5 s argument hfound hoption hprint hvalue value rest ih =>
    rw [List.cons_append, List.cons_append, readArguments_cons, if_neg hfound, if_pos hoption,
      if_neg hprint, if_pos hvalue]
    exact ih h
  | case6 s argument rest hfound hoption hprint hvalue ih =>
    rw [List.cons_append, readArguments_cons, if_neg hfound, if_pos hoption, if_neg hprint,
      if_neg hvalue, ih h]
  | case7 s argument rest hfound hoption hslim ih =>
    rw [List.cons_append, readArguments_cons, if_neg hfound, if_neg hoption, if_pos hslim, ih h]
  | case8 s argument rest hfound hoption hslim ih =>
    obtain ⟨script, hscript, h⟩ := bind_eq_ok h
    rw [List.cons_append, readArguments_cons, if_neg hfound, if_neg hoption, if_neg hslim, hscript]
    exact ih script h

/-- The names of the options are those the program starts with. -/
def ArgvState.Named (s : ArgvState) : Prop :=
  (s.typescriptConfigurations.map Prod.fst).Perm
    (SlimTS.typescriptConfigurations.map Prod.fst)

theorem ArgvState.Named.configure (h : s.Named) (argument value : Str) :
    (s.configure argument value).Named := by
  have hkeys : (s.configure argument value).typescriptConfigurations.map Prod.fst
      = s.typescriptConfigurations.map Prod.fst := by
    rw [ArgvState.configure, List.map_map]
    refine List.map_congr_left fun entry _ ↦ ?_
    rw [Function.comp_apply]
    split
    · next heq => exact heq.symm
    · rfl
  rw [ArgvState.Named, hkeys]
  exact h

/-- **Before the script is found** nothing is appended and no option gets another name. -/
theorem readArguments_before {before : List Str} (h : readArguments e s before = .ok t)
    (hfound : t.foundModuleSourceFile = false) (hnamed : s.Named) :
    t.Named ∧ t.scriptArgvs = s.scriptArgvs := by
  fun_induction readArguments e s before with
  | case1 s =>
    rw [← Except.ok.inj h]
    exact ⟨hnamed, rfl⟩
  | case2 s argument rest hfound' ih =>
    rw [readArguments_of_found (s := s.append argument) hfound'] at h
    rw [← Except.ok.inj h] at hfound
    exact absurd (hfound'.symm.trans hfound) (by decide)
  | case3 s argument rest _ _ _ ih => exact ih h (hnamed.configure argument trueText)
  | case4 => exact absurd h (by simp)
  | case5 s argument _ _ _ _ value rest ih => exact ih h (hnamed.configure argument value)
  | case6 s argument rest _ _ _ _ ih => exact ih h hnamed
  | case7 s argument rest _ _ _ ih => exact ih h hnamed
  | case8 s argument rest _ _ _ ih =>
    obtain ⟨script, -, h⟩ := bind_eq_ok h
    cases script with
    | none => exact ih none h hnamed
    | some scriptPath =>
      -- The script is found here, and what is found stays found.
      rw [readArguments_of_found (s := s.readFile argument (some scriptPath)) rfl] at h
      rw [← Except.ok.inj h] at hfound
      exact absurd hfound Bool.noConfusion

/-! ## No option is a script -/

/-- The names of options are words without a dot and without a slash. -/
private theorem optionNames_plain :
    ∀ name ∈ SlimTS.typescriptConfigurations.map Prod.fst ++ slimConfigurations,
      name ≠ [] ∧ '/' ∉ name ∧ '.' ∉ name := by
  decide

/-- The regular expression matches slashes only. -/
theorem regexReplace_of_not_mem {argument : Str} (h : '/' ∉ argument) :
    regexReplace argument = argument := by
  fun_induction regexReplace argument with
  | case1 | case2 | case3 => exact absurd List.mem_cons_self h
  | case4 c text _ _ ih =>
    rw [ih fun hmem ↦ h (List.mem_cons_of_mem _ hmem)]
  | case5 => rfl

/-- The replacement keeps the first character. -/
theorem head_regexReplace (argument : Str) : (regexReplace argument).head? = argument.head? := by
  fun_induction regexReplace argument <;> rfl

/-- The replacement never makes a text longer. -/
theorem length_regexReplace_le (argument : Str) :
    (regexReplace argument).length ≤ argument.length := by
  fun_induction regexReplace argument with
  | case1 c text _ ih => simp only [List.length_cons]; omega
  | case2 c text _ ih => simp only [List.length_cons] at ih ⊢; omega
  | case3 text _ ih => simp only [List.length_cons]; omega
  | case4 c text _ _ ih => simp only [List.length_cons]; omega
  | case5 => exact le_rfl

/-- The path of a script is the absolute form of what the regular expression leaves. -/
theorem absolute_of_isScript {script scriptPath : Str}
    (h : isScript e script = .ok (some scriptPath)) :
    Path.absolute e.currentPath (regexReplace script) = some scriptPath := by
  rw [isScript] at h
  rcases habsolute : Path.absolute e.currentPath (regexReplace script) with - | path
  · rw [habsolute] at h
    exact absurd h (by simp)
  · rw [habsolute] at h
    exact (Option.ite_none_right_eq_some.mp (Except.ok.inj h)).2

/-- The path of a script is absolute, and no longer than the argument if that is absolute. -/
theorem length_le_of_isScript {script scriptPath : Str}
    (h : isScript e script = .ok (some scriptPath)) : scriptPath.head? = some '/' ∧
      (script.head? = some '/' → scriptPath.length ≤ script.length) := by
  have habsolute := absolute_of_isScript h
  refine ⟨Path.absolute_head e.currentPath_head habsolute, fun hhead ↦ ?_⟩
  rw [Path.absolute_of_head ((head_regexReplace script).trans hhead)] at habsolute
  rw [← Option.some.inj habsolute]
  exact length_regexReplace_le script

/-- A word without a dot and without a slash is no script. -/
theorem isScript_of_plain {name : Str} (hne : name ≠ []) (hslash : '/' ∉ name)
    (hdot : '.' ∉ name) : isScript e name = .ok none := by
  have hhead : name.head? ≠ some '/' := fun h ↦ hslash (List.mem_of_head? h)
  obtain ⟨parent, habsolute, -⟩ := Path.absolute_relative e.currentPath_head hne hhead
  have hextension : Path.extension (parent ++ '/' :: name) = [] :=
    Path.extension_eq_nil (by rwa [Path.filename_file hslash])
  rw [isScript, regexReplace_of_not_mem hslash, habsolute]
  simp only [hextension]
  rw [if_neg fun h ↦ absurd h.2 (by decide)]

/-- The script is not taken for an option. -/
theorem not_option_of_isScript {script scriptPath : Str} (hnamed : s.Named)
    (h : isScript e script = .ok (some scriptPath)) :
    isTypescriptArgument s script = false ∧ isSlimArgument script = false := by
  have hnot : script ∉ SlimTS.typescriptConfigurations.map Prod.fst ++ slimConfigurations := by
    intro hmem
    obtain ⟨hne, hslash, hdot⟩ := optionNames_plain script hmem
    rw [isScript_of_plain hne hslash hdot] at h
    exact absurd (Except.ok.inj h) (by simp)
  rw [List.mem_append, not_or, ← hnamed.mem_iff] at hnot
  rw [isTypescriptArgument, isSlimArgument]
  simpa using hnot

/-! ## The array -/

theorem popComma_append (text : Str) : popComma (text ++ [',']) = text := by
  rw [popComma, List.getLast?_concat, if_pos rfl, List.dropLast_concat]

theorem popComma_terminate {ps : List Str} (hne : ps ≠ []) :
    popComma (terminate ',' ps) = (terminate ',' ps).dropLast := by
  obtain ⟨qs, last, rfl⟩ := (List.eq_nil_or_concat ps).resolve_left hne
  rw [List.concat_eq_append, terminate_append, terminate_cons, terminate_nil,
    ← List.append_assoc, popComma_append, List.dropLast_concat]

/-- What `set_argv` appends to the executable: the path of the script and its arguments. -/
theorem readArguments_script {before : List Str} {script scriptPath : Str}
    (hbefore : readArguments e (.start e) before = .ok t) (hnone : t.foundModuleSourceFile = false)
    (hscript : isScript e script = .ok (some scriptPath)) (arguments : List Str) :
    ∃ s, readArguments e (.start e) (before ++ script :: arguments) = .ok s ∧
      s.scriptArgvs = terminate ',' (e.executablePath :: scriptPath :: arguments) := by
  obtain ⟨hnamed, hargvs⟩ := readArguments_before hbefore hnone (e.configurations_perm.map _)
  obtain ⟨hoption, hslim⟩ := not_option_of_isScript hnamed hscript
  refine ⟨{ t.readFile script (some scriptPath) with
    scriptArgvs := (t.readFile script (some scriptPath)).scriptArgvs ++ terminate ',' arguments },
    ?_, ?_⟩
  · rw [readArguments_append hbefore, readArguments_cons, hnone, if_neg Bool.false_ne_true, hoption,
      if_neg Bool.false_ne_true, hslim, if_neg Bool.false_ne_true, hscript]
    exact readArguments_of_found rfl arguments
  · simp only [ArgvState.readFile, ArgvState.append, hargvs, ArgvState.start, terminate_cons,
      List.append_assoc, List.cons_append, List.nil_append]

/-- What `set_argv` does when its loop is done. -/
theorem setArgv_eq {arguments : List Str} (h : readArguments e (.start e) arguments = .ok s)
    (store : Store) : setArgv e store arguments
      = .ok ({ s with scriptArgvs := popComma s.scriptArgvs },
          (store.write configurationsMap typescriptFile (.pointer
            (typescriptConfigurationString s.typescriptConfigurations))).write configurationsMap
              scriptArgvFile (.pointer (popComma s.scriptArgvs))) := by
  rw [setArgv, h]
  rfl

/-- The process plugin reads back what `set_argv` has stored last. -/
theorem setArgv_of_readArguments {arguments : List Str}
    (h : readArguments e (.start e) arguments = .ok s) (store : Store) (v8 : Transcoding) :
    ∃ t store', setArgv e store arguments = .ok (t, store') ∧
      processArgv v8 store'
        = some ((pieces ',' (popComma s.scriptArgvs)).map (stringToV8String v8)) := by
  refine ⟨_, _, setArgv_eq h store, ?_⟩
  rw [processArgv, Store.read_write, Option.map_some, ContentVariant.content]

/-! ## Pieces that are text -/

/-- The regular expression takes away whole characters. The induction is on its calls; in front of
what is left to read there is any text. -/
theorem plainText_append_regexReplace {front argument : Str} (h : PlainText (front ++ argument)) :
    PlainText (front ++ regexReplace argument) := by
  have hslash : isAscii '/' = true := by decide
  fun_induction regexReplace argument generalizing front with
  | case1 c text _ ih =>
    obtain ⟨hfront, h⟩ := (plainText_append_cons_iff hslash).mp h
    obtain ⟨-, htext⟩ := (@plainText_append_cons_iff [c] _ _ hslash).mp h
    rw [List.append_cons]
    exact ih (List.append_cons .. ▸ (plainText_append_cons_iff hslash).mpr ⟨hfront, htext⟩)
  | case2 c text _ ih =>
    rw [List.append_cons, List.append_cons] at h ⊢
    exact ih h
  | case3 text _ ih =>
    obtain ⟨hfront, h⟩ := (plainText_append_cons_iff hslash).mp h
    obtain ⟨-, htext⟩ := (@plainText_append_cons_iff [] _ _ hslash).mp h
    rw [List.append_cons]
    exact ih (List.append_cons .. ▸ (plainText_append_cons_iff hslash).mpr ⟨hfront, htext⟩)
  | case4 c text _ _ ih =>
    rw [List.append_cons] at h ⊢
    exact ih h
  | case5 => exact h

/-- Bytes are split at a comma as their text is. -/
theorem pieces_encode (text : List Char) :
    pieces ',' (Utf.encode text) = (pieces ',' text).map Utf.encode :=
  pieces_flatMap (Utf.bytesOf_of_lt (by decide))
    (fun c hc ↦ ⟨Utf.bytesOf_ne_nil c, fun hmem ↦ hc ((Utf.mem_bytesOf_iff (by decide)).mp hmem)⟩)
    text

theorem plainText_of_mem_pieces {text piece : Str} (h : PlainText text)
    (hpiece : piece ∈ pieces ',' text) : PlainText piece := by
  obtain ⟨text, hnul, rfl⟩ := h
  rw [pieces_encode] at hpiece
  obtain ⟨piece, hmem, rfl⟩ := List.mem_map.mp hpiece
  exact ⟨piece, fun h ↦ hnul ((infix_of_mem_pieces hmem).subset h), rfl⟩

theorem plainText_dropLast_terminate {arguments : List Str} (hne : arguments ≠ [])
    (h : ∀ argument ∈ arguments, PlainText argument) :
    PlainText (terminate ',' arguments).dropLast := by
  have hcomma : isAscii ',' = true := by decide
  have hterminate : ∀ arguments : List Str, (∀ argument ∈ arguments, PlainText argument) →
      PlainText (terminate ',' arguments) := by
    intro arguments h
    induction arguments with
    | nil => exact plainText_of_ascii rfl
    | cons argument arguments ih =>
      obtain ⟨hargument, harguments⟩ := List.forall_mem_cons.mp h
      rw [terminate_cons]
      exact (plainText_append_cons_iff hcomma).mpr ⟨hargument, ih harguments⟩
  have hall := hterminate arguments h
  rw [terminate_eq_concat hne] at hall
  exact ((plainText_append_cons_iff hcomma).mp hall).1

/-- The executable's path is spelled by the first piece, so it holds no comma. -/
theorem comma_not_mem_of_spells {executable text : Str} {arguments : List Str}
    (h : List.Forall₂ Spells ((pieces ',' (executable ++ ',' :: text)).map (stringToV8String v8))
      (executable :: arguments)) : ',' ∉ executable := by
  intro hcomma
  obtain ⟨first, rest, rfl, hfirst⟩ := List.eq_append_cons_of_mem hcomma
  rw [List.append_assoc, List.cons_append, pieces_append_sep hfirst, List.map_cons,
    List.forall₂_cons] at h
  have hplain := ((plainText_append_cons_iff (by decide)).mp h.1.plainText).1
  have hlength := congrArg List.length ((spells_stringToV8String_iff hplain).mp h.1)
  rw [List.length_append, List.length_cons] at hlength
  omega

/-- The path of a script that is spelled is text. One in the working directory is not spelled: what
stands in its place begins with a slash. -/
theorem plainText_of_spells {script scriptPath executable : Str} {arguments : List Str}
    (hscript : isScript e script = .ok (some scriptPath))
    (h : List.Forall₂ Spells ((pieces ','
      (terminate ',' (executable :: scriptPath :: arguments)).dropLast).map (stringToV8String v8))
        (executable :: script :: arguments)) : PlainText scriptPath := by
  obtain ⟨hhead, -⟩ := length_le_of_isScript hscript
  obtain ⟨path, rfl⟩ := List.head?_eq_some_iff.mp hhead
  have hrest : terminate ',' (('/' :: path) :: arguments) ≠ [] := by simp
  rw [terminate_cons, List.dropLast_append_of_ne_nil (List.cons_ne_nil _ _),
    List.dropLast_cons_of_ne_nil hrest] at h
  have habsolute : script.head? = some '/' := by
    have h := h
    rw [pieces_append_sep (comma_not_mem_of_spells h), terminate_cons,
      List.dropLast_append_of_ne_nil (List.cons_ne_nil _ _), List.cons_append,
      pieces_cons_of_ne (by decide), List.map_cons, List.map_cons, List.forall₂_cons,
      List.forall₂_cons] at h
    exact head_of_spells rfl h.2.1
  have hplain := plainText_of_forall₂ h script (List.mem_cons_of_mem _ List.mem_cons_self)
  have hpath := absolute_of_isScript hscript
  rw [Path.absolute_of_head ((head_regexReplace script).trans habsolute)] at hpath
  rw [← Option.some.inj hpath]
  exact @plainText_append_regexReplace [] _ hplain

/-- A script path with a comma is cut at it, and what is before the first comma is not the path
that was given. -/
theorem pieces_ne_of_comma {script scriptPath executable : Str} {arguments : List Str}
    (hscript : isScript e script = .ok (some scriptPath)) (hcomma : ',' ∈ scriptPath)
    (hexecutable : ',' ∉ executable) :
    pieces ',' (terminate ',' (executable :: scriptPath :: arguments)).dropLast
      ≠ executable :: script :: arguments := by
  intro h
  obtain ⟨first, rest, rfl, hfirst⟩ := List.eq_append_cons_of_mem hcomma
  have htext : (terminate ',' (executable :: (first ++ ',' :: rest) :: arguments)).dropLast
      = executable ++ ','
        :: (first ++ ',' :: (rest ++ ',' :: terminate ',' arguments).dropLast) := by
    simp only [terminate_cons, List.append_assoc, List.cons_append]
    rw [List.dropLast_append_of_ne_nil (by simp), List.dropLast_cons_of_ne_nil (by simp),
      List.dropLast_append_of_ne_nil (by simp), List.dropLast_cons_of_ne_nil (by simp)]
  rw [htext, pieces_append_sep hexecutable, pieces_append_sep hfirst, List.cons.injEq,
    List.cons.injEq] at h
  obtain ⟨-, rfl, -⟩ := h
  -- The piece would be an absolute path, and `is_script` makes no absolute path longer.
  obtain ⟨habsolute, hle⟩ := length_le_of_isScript hscript
  simp only [List.length_append, List.length_cons] at hle
  have hhead : first.head? = some '/' := by
    rcases first with - | ⟨c, first⟩
    · exact absurd habsolute (by simp)
    · exact habsolute
  have := hle hhead
  omega

/-- **The pieces** are the arguments exactly when none of these holds a comma, the last argument is
not empty, and the script is given as the absolute path that `is_script` records. -/
theorem pieces_eq_iff {script scriptPath executable : Str} {arguments : List Str}
    (hscript : isScript e script = .ok (some scriptPath)) :
    pieces ',' (terminate ',' (executable :: scriptPath :: arguments)).dropLast
        = executable :: script :: arguments ↔
      scriptPath = script ∧ (∀ p ∈ executable :: script :: arguments, ',' ∉ p) ∧
        arguments.getLast? ≠ some [] := by
  have hlast : (executable :: scriptPath :: arguments).getLast? ≠ some []
      ↔ arguments.getLast? ≠ some [] := by
    rcases List.eq_nil_or_concat arguments with rfl | ⟨rest, last, rfl⟩
    · have hne : scriptPath ≠ [] := by
        rintro rfl
        exact absurd (length_le_of_isScript hscript).1 (by simp)
      simpa using hne
    · rw [List.concat_eq_append, List.getLast?_concat, ← List.cons_append, ← List.cons_append,
        List.getLast?_concat]
  constructor
  · intro h
    have hcommas : ∀ p ∈ executable :: script :: arguments, ',' ∉ p :=
      fun p hp ↦ not_mem_of_mem_pieces (h.symm ▸ hp)
    have hpath : ',' ∉ scriptPath := fun hcomma ↦
      pieces_ne_of_comma hscript hcomma (hcommas _ List.mem_cons_self) h
    have hwritten : ∀ p ∈ executable :: scriptPath :: arguments, ',' ∉ p := by
      rw [List.forall_mem_cons, List.forall_mem_cons] at hcommas ⊢
      exact ⟨hcommas.1, hpath, hcommas.2.2⟩
    have hback := pieces_dropLast_terminate_of_length hwritten (by rw [h]; rfl)
    refine ⟨?_, hcommas, hlast.mp ((pieces_dropLast_terminate_eq_iff _).mp hback).2⟩
    rw [hback] at h
    exact (List.cons.inj (List.cons.inj h).2).1
  · rintro ⟨rfl, hcommas, hnonempty⟩
    exact (pieces_dropLast_terminate_eq_iff _).mpr ⟨hcommas, hlast.mpr hnonempty⟩

/-- **The arguments a script sees** are those of the command line exactly when all of them are text,
none holds a comma, the last argument is not empty, and the script is given as the absolute path
that `is_script` records. -/
theorem processArgv_setArgv_iff {before : List Str} {script scriptPath : Str}
    (hbefore : readArguments e (.start e) before = .ok t) (hnone : t.foundModuleSourceFile = false)
    (hscript : isScript e script = .ok (some scriptPath)) (arguments : List Str) (store : Store)
    (v8 : Transcoding) :
    ∃ s store', setArgv e store (before ++ script :: arguments) = .ok (s, store') ∧
      (SeesArguments v8 store' (e.executablePath :: script :: arguments) ↔
        scriptPath = script ∧
          (∀ p ∈ e.executablePath :: script :: arguments, ',' ∉ p ∧ PlainText p) ∧
            arguments.getLast? ≠ some []) := by
  obtain ⟨s, hs, hargvs⟩ := readArguments_script hbefore hnone hscript arguments
  obtain ⟨s', store', hset, hread⟩ := setArgv_of_readArguments hs store v8
  refine ⟨s', store', hset, ?_⟩
  have hne : e.executablePath :: scriptPath :: arguments ≠ [] := List.cons_ne_nil _ _
  rw [hargvs, popComma_terminate hne] at hread
  constructor
  · rintro ⟨array, harray, hspells⟩
    rw [hread, Option.some_inj] at harray
    rw [← harray] at hspells
    have hplain := plainText_of_forall₂ hspells
    have hwritten : ∀ p ∈ e.executablePath :: scriptPath :: arguments, PlainText p := by
      rw [List.forall_mem_cons, List.forall_mem_cons] at hplain ⊢
      exact ⟨hplain.1, plainText_of_spells hscript hspells, hplain.2.2⟩
    have hpieces := (forall₂_spells_iff fun piece hpiece ↦
      plainText_of_mem_pieces (plainText_dropLast_terminate hne hwritten) hpiece).mp hspells
    obtain ⟨hpath, hcommas, hlast⟩ := (pieces_eq_iff hscript).mp hpieces
    exact ⟨hpath, fun p hp ↦ ⟨hcommas p hp, hplain p hp⟩, hlast⟩
  · rintro ⟨hpath, hpieces, hlast⟩
    have hback := (pieces_eq_iff hscript).mpr ⟨hpath, fun p hp ↦ (hpieces p hp).1, hlast⟩
    exact ⟨_, hread, (forall₂_spells_iff fun piece hpiece ↦
      (hpieces piece (hback ▸ hpiece)).2).mpr hback⟩

/-! ## A comma in an argument -/

/-- The program under `/usr/bin`, run in `/home`. -/
def homeEnvironment : CommandLineEnvironment where
  executablePath := "/usr/bin/slim".toList
  currentPath := "/home".toList
  currentPath_head := rfl
  configurations := typescriptConfigurations
  configurations_perm := .refl _

/-- A store nobody has written to. -/
def emptyStore : Store := .start fun _ ↦ ∅

/-- Absolute script, no comma, a last argument that is not empty, all in ASCII: the array is the
command line, options left out. -/
theorem processArgv_setArgv_iff_homeEnvironment : ∃ s store',
    setArgv homeEnvironment emptyStore
      ["--print-all".toList, "/home/argv.js".toList, [], "b c".toList] = .ok (s, store') ∧
    SeesArguments asciiTranscoding store'
      ["/usr/bin/slim".toList, "/home/argv.js".toList, [], "b c".toList] := by
  have hbefore : readArguments homeEnvironment (.start homeEnvironment) ["--print-all".toList]
      = .ok ((ArgvState.start homeEnvironment).readSlim "--print-all".toList) := by rfl
  have hscript : isScript homeEnvironment "/home/argv.js".toList
      = .ok (some "/home/argv.js".toList) := by rfl
  obtain ⟨s, store', hset, hargv⟩ :=
    processArgv_setArgv_iff hbefore rfl hscript [[], "b c".toList] emptyStore asciiTranscoding
  have hascii : ∀ p ∈ ["/usr/bin/slim".toList, "/home/argv.js".toList, [], "b c".toList],
      ',' ∉ p ∧ p.all isAscii = true := by decide
  exact ⟨s, store', hset, hargv.mpr ⟨rfl, fun p hp ↦
    ⟨(hascii p hp).1, plainText_of_ascii (hascii p hp).2⟩, by decide⟩⟩

/-- One argument with a comma arrives as two. -/
theorem processArgv_comma : ¬ ∀ (v8 : Transcoding) (e : CommandLineEnvironment) (store : Store)
    (script : Str) (arguments : List Str), isScript e script = .ok (some script) →
      ∀ s store', setArgv e store (script :: arguments) = .ok (s, store') →
        SeesArguments v8 store' (e.executablePath :: script :: arguments) := by
  intro h
  have hread : readArguments homeEnvironment (.start homeEnvironment)
      ["/home/argv.js".toList, "a,b".toList]
      = .ok { (ArgvState.start homeEnvironment).readFile [] (some "/home/argv.js".toList) with
        scriptArgvs := "/usr/bin/slim,/home/argv.js,a,b,".toList } := by rfl
  obtain ⟨s, store', hset, hargv⟩ := setArgv_of_readArguments hread emptyStore asciiTranscoding
  obtain ⟨array, harray, hspells⟩ := h asciiTranscoding homeEnvironment emptyStore
    "/home/argv.js".toList ["a,b".toList] (by rfl) s store' hset
  rw [hargv, Option.some_inj] at harray
  have hlength := hspells.length_eq
  rw [← harray, List.length_map] at hlength
  exact absurd hlength (by decide)

end SlimTS
