import Mathlib.Tactic.FinCases
import SlimTS.Library.Sgr
import SlimTS.Plugin.ConsoleColors
import SlimTS.Plugin.LocalPrint

/-!
# What the console looks like

The console plugin writes escape sequences; what a script asks for is a rendition: a text in bold,
or in red. This module says that a terminal shows the one for the other. The meaning of a colour is
read off the list `colors` of the plugin and the numbers of the palette, and `colorize` goes by its
two tables, so that the tables mean what the list says is part of it.

A part of a line is framed by the sequences of its section and one that resets them. So the parts
of a line are shown each in the rendition of its own section, the arguments in none, and nothing is
selected behind it. That is why it holds of everything that is printed in any number of calls,
whatever the scripts configure in between (`shows_session`).

The colours must be such as `colorize` renders as it should, and the texts without escape characters
of their own.
-/

namespace SlimTS

open Sgr

/-! ## The meaning of a configuration -/

/-- `colors`. -/
def colors : List Str :=
  ["default".toList, "black".toList, "red".toList, "green".toList, "yellow".toList, "blue".toList,
    "magenta".toList, "cyan".toList, "white".toList, "bright black".toList, "bright red".toList,
    "bright green".toList, "bright yellow".toList, "bright blue".toList, "bright magenta".toList,
    "bright cyan".toList, "bright white".toList]

/-- The colour that a string means: the first name is that of no colour, and the others come in
their order. What is neither a name nor a number of the palette means none. -/
def colorOf (color : Str) : Color :=
  match colors.idxOf? color with
  | some 0 => .default
  | some (n + 1) => .named n
  | none => if isColorCode color then .palette (Nat.ofDigitChars 10 color 0) else .default

/-- The rendition a section asks for. -/
def BaseConfiguration.rendition (m : BaseConfiguration) : Rendition where
  bold := m.bold
  dim := m.dim
  italic := m.italic
  underline := m.underline
  inverse := m.inverse
  foreground := colorOf m.textColor
  background := colorOf m.backgroundColor

/-- The colours of a section are rendered as they should be, or it is not shown. -/
def BaseConfiguration.Legible (m : BaseConfiguration) : Prop :=
  m.shown = true → Rendered textColors m.textColor ∧ Rendered backgroundColors m.backgroundColor

/-- What a section asks a text to be. -/
def colorSpans (m : BaseConfiguration) (text : Str) : Spans :=
  if m.shown then [(m.rendition, text)] else []

/-! ## Colours -/

variable {m : BaseConfiguration} {color text part : Str} {table : List (Str × ℕ)} {index rgb : Str}
  {put : Color → Rendition → Rendition}

theorem escape_append (parameters : Str) : escape ++ (parameters ++ ['m']) = sequence parameters :=
  rfl

theorem isParameter_of_isDigit {c : Char} (h : c.isDigit = true) : isParameter c = true := by
  obtain ⟨hlow, hhigh⟩ := Char.isDigit_iff_toNat.mp h
  have hzero : '0'.toNat = 48 := rfl
  have hnine : '9'.toNat = 57 := rfl
  rw [isParameter, decide_eq_true_eq]
  omega

/-- No name is a number. -/
theorem colors_spec : ∀ name ∈ colors, isColorCode name = false ∧
    stoi name = .error .invalidArgument := by
  decide

theorem idxOf?_colors_of_isColorCode (h : isColorCode color = true) :
    colors.idxOf? color = none := by
  rw [List.idxOf?_eq_none_iff]
  exact fun hmem ↦ Bool.false_ne_true ((colors_spec color hmem).1.symm.trans h)

theorem colorOf_of_isColorCode (h : isColorCode color = true) :
    colorOf color = .palette (Nat.ofDigitChars 10 color 0) := by
  rw [colorOf, idxOf?_colors_of_isColorCode h]
  exact if_pos h

/-- A number below zero means no colour. -/
theorem colorOf_of_neg {n : ℤ} (h : stoi color = .ok n) (hn : n < 0) :
    colorOf color = .default := by
  have hname : colors.idxOf? color = none := by
    rw [List.idxOf?_eq_none_iff]
    exact fun hmem ↦ absurd ((colors_spec color hmem).2.symm.trans h) (by simp)
  have hcode : ¬isColorCode color = true := fun hcode ↦ by
    obtain ⟨k, hk, hk0⟩ := stoi_of_isColorCode hcode
    have := Except.ok.inj (h.symm.trans hk)
    omega
  rw [colorOf, hname]
  exact if_neg hcode

/-- The sequences of a table and of the palette select colours: a name has the code of the colour it
means. -/
structure Selects (table : List (Str × ℕ)) (index : Str) (put : Color → Rendition → Rendition) :
    Prop where
  code : ∀ entry ∈ table, ∀ r,
    Rendition.select (numbers (Nat.toDigits 10 entry.2)) r = put (colorOf entry.1) r
  codeParameters : ∀ entry ∈ table, ∀ c ∈ Nat.toDigits 10 entry.2, isParameter c = true
  palette : ∀ digits n r, numbersFrom 0 digits = [n] →
    Rendition.select (numbers (index ++ digits)) r = put (.palette n) r
  indexParameters : ∀ c ∈ index, isParameter c = true

theorem selects_textColors :
    Selects textColors "38;5;".toList fun color r ↦ { r with foreground := color } where
  code entry hentry r := by fin_cases hentry <;> rfl
  codeParameters entry hentry := List.all_eq_true.mp (by fin_cases hentry <;> rfl)
  palette digits n r h := by
    have hnumbers : numbers ("38;5;".toList ++ digits) = 38 :: 5 :: numbersFrom 0 digits := rfl
    rw [hnumbers, h]
    rfl
  indexParameters := List.all_eq_true.mp rfl

theorem selects_backgroundColors :
    Selects backgroundColors "48;5;".toList fun color r ↦ { r with background := color } where
  code entry hentry r := by fin_cases hentry <;> rfl
  codeParameters entry hentry := List.all_eq_true.mp (by fin_cases hentry <;> rfl)
  palette digits n r h := by
    have hnumbers : numbers ("48;5;".toList ++ digits) = 48 :: 5 :: numbersFrom 0 digits := rfl
    rw [hnumbers, h]
    rfl
  indexParameters := List.all_eq_true.mp rfl

/-- **A colour shows as what it means**, on a terminal that has none selected. -/
theorem Selects.display_expectedSequence (hselects : Selects table index put)
    (h : Rendered table color) {r : Rendition} (hr : put .default r = r) :
    display { rendition := r } (expectedSequence table index rgb color)
      = ([], { rendition := put (colorOf color) r }) := by
  rw [expectedSequence]
  rcases hlookup : table.lookup color with - | code
  · simp only
    by_cases hcode : isColorCode color = true
    · have hdigits : ∀ c ∈ color, c.isDigit = true := by
        rw [isColorCode, isColorNumber, Bool.and_eq_true, Bool.and_eq_true, Bool.and_eq_true]
          at hcode
        exact List.all_eq_true.mp hcode.1.1.1
      have hparameters : ∀ c ∈ index ++ color, isParameter c = true := by
        intro c hc
        rcases List.mem_append.mp hc with hc | hc
        · exact hselects.indexParameters c hc
        · exact isParameter_of_isDigit (hdigits c hc)
      rw [if_pos hcode, ← List.append_assoc index, escape_append, display_sequence hparameters,
        hselects.palette _ _ _ (numbersFrom_of_digits hdigits 0), colorOf_of_isColorCode hcode]
    · obtain ⟨n, hstoi, hn⟩ : ∃ n, stoi color = .ok n ∧ n < 0 :=
        (h.resolve_left (by simp [hlookup])).resolve_left hcode
      have htriple : ¬isColorTriple color = true := fun htriple ↦
        Bool.false_ne_true
          ((isRgb_of_stoi_neg hstoi hn).symm.trans (isRgb_of_isColorTriple htriple))
      rw [if_neg hcode, if_neg htriple, colorOf_of_neg hstoi hn, hr]
      rfl
  · obtain ⟨before, after, hlist, -⟩ := List.lookup_eq_some_iff.mp hlookup
    have hmem : (color, code) ∈ table := hlist ▸ List.mem_append_right _ List.mem_cons_self
    simp only
    rw [escape_append, display_sequence (hselects.codeParameters _ hmem), hselects.code _ hmem]

/-- The attributes, on a terminal that nothing is selected on. -/
theorem display_attributeSequences (m : BaseConfiguration) :
    display {} (attributeSequences m) = ([], { rendition :=
      { bold := m.bold, dim := m.dim, italic := m.italic, underline := m.underline,
        inverse := m.inverse } }) := by
  rw [attributeSequences]
  cases m.bold <;> cases m.dim <;> cases m.italic <;> cases m.underline <;> cases m.inverse <;> rfl

/-- **A text is shown as its section asks.** -/
theorem shows_colorize (hm : m.Legible) (htext : escapeChar ∉ text)
    (h : colorize m text = .ok part) : Shows part (colorSpans m text) := by
  rw [colorSpans]
  split
  · next hshown =>
    obtain ⟨htc, hbg⟩ := hm hshown
    rw [colorize_of_shown hshown, (colorSequences_eq_expected_iff _ _).mpr ⟨htc, hbg⟩] at h
    have hfront : display {} (attributeSequences m
        ++ (expectedText m.textColor ++ expectedBackground m.backgroundColor))
          = ([], { rendition := m.rendition }) := by
      rw [display_append, display_attributeSequences, display_append, expectedText,
        selects_textColors.display_expectedSequence htc rfl, expectedBackground,
        selects_backgroundColors.display_expectedSequence hbg rfl]
      rfl
    have hpart : part = attributeSequences m
        ++ (expectedText m.textColor ++ expectedBackground m.backgroundColor)
        ++ (text ++ sequence ['0']) := by
      rw [← Except.ok.inj h]
      exact (List.append_assoc _ _ _).symm
    exact hpart ▸ Shows.framed hfront htext
  · next hshown =>
    rw [colorize, if_neg hshown] at h
    rw [← Except.ok.inj h]
    exact .nil

/-! ## The head -/

/-- What the sections of a head ask its parts to be. -/
def headSpans (c : LevelConfiguration) (stamp : Str) : Spans :=
  (if 0 < c.levelString.length then
    colorSpans c.members c.levelString ++ colorSpans c.fieldSeparator.base c.fieldSeparator.text
  else []) ++
  (if c.timeStamp.shown then
    colorSpans c.timeStamp.members stamp ++ colorSpans c.fieldSeparator.base c.fieldSeparator.text
  else [])

/-- The sections of a level are legible, and its texts select nothing of their own. -/
structure LevelConfiguration.Legible (c : LevelConfiguration) : Prop where
  members : c.members.Legible
  separator : c.fieldSeparator.base.Legible
  timeStamp : c.timeStamp.members.Legible
  levelString : escapeChar ∉ c.levelString
  fieldSeparator : escapeChar ∉ c.fieldSeparator.fieldSeparator

variable {c : LevelConfiguration} {stamp head : Str} {count : ℤ}

theorem LevelConfiguration.Legible.escapeChar_not_mem (h : c.Legible) :
    escapeChar ∉ c.fieldSeparator.text := by
  rw [FieldSeparatorConfiguration.text]
  split
  · exact fun hmem ↦ (List.mem_append.mp hmem).elim h.fieldSeparator (by decide)
  · exact h.fieldSeparator

theorem shows_colorizePart (hm : m.Legible) (htext : escapeChar ∉ text)
    (h : colorizePart m text = .ok part) : Shows part (colorSpans m text) := by
  rw [colorizePart] at h
  rcases hcolorize : colorize m text with e | part'
  · rw [hcolorize] at h
    cases h
  · rw [hcolorize] at h
    exact Except.ok.inj h ▸ shows_colorize hm htext hcolorize

theorem shows_headPart (h : c.Legible) {present : Bool} (hm : m.Legible)
    (htext : escapeChar ∉ text) (hpart : headPart c present m text = .ok part) :
    Shows part (if present then
      colorSpans m text ++ colorSpans c.fieldSeparator.base c.fieldSeparator.text else []) := by
  rw [headPart] at hpart
  cases present with
  | true =>
    obtain ⟨first, hfirst, hpart⟩ := bind_eq_ok hpart
    obtain ⟨separator, hseparator, hpart⟩ := bind_eq_ok hpart
    exact Except.ok.inj hpart ▸ (shows_colorizePart hm htext hfirst).append
      (shows_colorizePart h.separator h.escapeChar_not_mem hseparator)
  | false => exact Except.ok.inj hpart ▸ .nil

/-- **The head is shown as its sections ask.** -/
theorem shows_colorizeHead (h : c.Legible) (hstamp : escapeChar ∉ stamp)
    (hhead : colorizeHead c stamp = .ok head) : Shows head (headSpans c stamp) := by
  obtain ⟨level, hlevel, hhead⟩ := bind_eq_ok hhead
  obtain ⟨time, htime, hhead⟩ := bind_eq_ok hhead
  have hshows := (shows_headPart h h.members h.levelString hlevel).append
    (shows_headPart h h.timeStamp hstamp htime)
  rw [← Except.ok.inj hhead]
  simpa only [headSpans, decide_eq_true_eq] using hshows

/-- A stamp is a number. -/
theorem escapeChar_not_mem_of_logTimeStamp {c : TimeStampConfiguration}
    (h : logTimeStamp c count = .ok stamp) : escapeChar ∉ stamp := by
  obtain ⟨k, hk⟩ := logTimeStamp_eq_of_fits (fitsTimeStamp_of_logTimeStamp h)
  rw [← Except.ok.inj (hk.symm.trans h)]
  intro hmem
  rcases Macros.isDigit_or_of_mem_decimal (List.mem_of_mem_drop hmem) with heq | hdigit
  · exact absurd heq (by decide)
  · exact absurd hdigit (by decide)

/-! ## The other functions that print -/

/-- The text of `clear`. -/
def clearText : Str := "\x1b[2J\x1b[H".toList

/-- The line end of `print_colors` behind some of its colours. -/
def colorsLineEnd (index : ℕ) : Str :=
  if index = 5 ∨ index = 10 ∨ index = 13 ∨ index = 16 then "\n\t".toList else []

/-- The loop of `print_colors`, from an index on, for the member that the function sets. -/
def printColorsFrom (setColor : Str → BaseConfiguration) :
    ℕ → List Str → Except PrintFault Str
  | _, [] => .ok []
  | index, color :: rest => do
    let part ← colorizePart (setColor color) color
    let parts ← printColorsFrom setColor (index + 1) rest
    return part ++ ' ' :: (colorsLineEnd (index + 1) ++ parts)

/-- `print_colors`. -/
def printColors : Except PrintFault Str := do
  let text ← printColorsFrom (fun color ↦ { textColor := color }) 0 colors
  let background ← printColorsFrom (fun color ↦ { backgroundColor := color }) 0 colors
  return ".text_color\n\t".toList ++ (text ++ ("\n\n.background_color\n\t".toList
    ++ (background ++ ['\n'])))

/-- What `print_colors` shows: each name in the colour it means. -/
def printColorsSpans (setColor : Str → BaseConfiguration) : ℕ → List Str → Spans
  | _, [] => []
  | index, color :: rest => ((setColor color).rendition, color)
    :: ({}, ' ' :: colorsLineEnd (index + 1)) :: printColorsSpans setColor (index + 1) rest

theorem shows_printColorsFrom {setColor : Str → BaseConfiguration} {names : List Str}
    (h : ∀ color ∈ names, (setColor color).Legible ∧ (setColor color).shown = true ∧
      escapeChar ∉ color) {index : ℕ} (hprint : printColorsFrom setColor index names = .ok text) :
    Shows text (printColorsSpans setColor index names) := by
  induction names generalizing index text with
  | nil => exact Except.ok.inj hprint ▸ .nil
  | cons color rest ih =>
    rw [List.forall_mem_cons] at h
    obtain ⟨⟨hlegible, hshown, hescape⟩, hrest⟩ := h
    obtain ⟨part, hpart, hprint⟩ := bind_eq_ok hprint
    obtain ⟨parts, hparts, hprint⟩ := bind_eq_ok hprint
    have hcolor := shows_colorizePart hlegible hescape hpart
    rw [colorSpans, if_pos hshown] at hcolor
    have hend : escapeChar ∉ ' ' :: colorsLineEnd (index + 1) := by
      rw [colorsLineEnd]
      split <;> decide
    rw [← Except.ok.inj hprint]
    exact hcolor.append ((Shows.text hend).append (ih hrest hparts))

theorem legible_colors : ∀ color ∈ colors,
    (({ textColor := color } : BaseConfiguration).Legible ∧
      ({ backgroundColor := color } : BaseConfiguration).Legible) ∧ escapeChar ∉ color := by
  have hnames : ∀ color ∈ colors, (textColors.lookup color).isSome = true ∧
      (backgroundColors.lookup color).isSome = true ∧ escapeChar ∉ color := by decide
  have hdefault : (textColors.lookup defaultColor).isSome = true ∧
      (backgroundColors.lookup defaultColor).isSome = true := by decide
  intro color hcolor
  obtain ⟨htext, hbackground, hescape⟩ := hnames color hcolor
  exact ⟨⟨fun _ ↦ ⟨.inl htext, .inl hdefault.2⟩, fun _ ↦ ⟨.inl hdefault.1, .inl hbackground⟩⟩,
    hescape⟩

/-- What a call of `print_colors` shows. -/
def allColorsSpans : Spans :=
  .plain ".text_color\n\t".toList
    ++ (printColorsSpans (fun color ↦ { textColor := color }) 0 colors
      ++ (.plain "\n\n.background_color\n\t".toList
        ++ (printColorsSpans (fun color ↦ { backgroundColor := color }) 0 colors
          ++ .plain ['\n'])))

theorem shows_printColors (h : printColors = .ok text) : Shows text allColorsSpans := by
  obtain ⟨texts, htexts, h⟩ := bind_eq_ok h
  obtain ⟨backgrounds, hbackgrounds, h⟩ := bind_eq_ok h
  have htextsShow := shows_printColorsFrom
    (fun color hcolor ↦ ⟨(legible_colors color hcolor).1.1, rfl, (legible_colors color hcolor).2⟩)
    htexts
  have hbackgroundsShow := @shows_printColorsFrom _ (fun color ↦ { backgroundColor := color }) _
    (fun color hcolor ↦ ⟨(legible_colors color hcolor).1.2, rfl, (legible_colors color hcolor).2⟩)
    _ hbackgrounds
  have hfirst : Shows ".text_color\n\t".toList (.plain ".text_color\n\t".toList) :=
    .text (by decide)
  have hsecond : Shows "\n\n.background_color\n\t".toList
      (.plain "\n\n.background_color\n\t".toList) := .text (by decide)
  have hend : Shows ['\n'] (.plain ['\n']) := .text (by decide)
  rw [← Except.ok.inj h]
  exact hfirst.append (htextsShow.append (hsecond.append (hbackgroundsShow.append hend)))

/-! ## Calls -/

variable {Value World : Type}

/-- A call of a function of the console that prints, with the state it finds: what the scripts have
configured, whether they listen, and the count of the clock. -/
inductive ConsoleCall (Value World : Type)
  /-- A function of a level. -/
  | level (c : LevelConfiguration) (count : ℤ) (s : ListenState World) (args : List Value)
  | write (s : ListenState World) (args : List Value)
  | printColors
  | clear

section

variable (v8 : V8Objects Value (ListenState World))

/-- `write`. -/
def consoleWrite (s : ListenState World) (args : List Value) : Except PrintFault Str :=
  match renderings v8 args s with
  | none => .error .argument
  | some r => .ok (joined r.1 ++ ['\n'])

/-- What a call prints. -/
def ConsoleCall.print : ConsoleCall Value World → Except PrintFault Str
  | .level c count s args => (localPrint v8 c count s args).map Printed.printed
  | .write s args => consoleWrite v8 s args
  | .printColors => SlimTS.printColors
  | .clear => .ok clearText

/-- What the scripts have asked for with a call. A level prints nothing without arguments, and
nothing while a script listens, unless it has asked for the output besides. -/
def ConsoleCall.spans : ConsoleCall Value World → Option Spans
  | .level c count s args =>
    if args.isEmpty || (s.listening && !s.outputWhenListening) then some []
    else (logTimeStamp c.timeStamp count).toOption.bind fun stamp ↦
      (renderings v8 args s).map fun r ↦ headSpans c stamp ++ .plain (joined r.1 ++ ['\n'])
  | .write s args => (renderings v8 args s).map fun r ↦ .plain (joined r.1 ++ ['\n'])
  | .printColors => some allColorsSpans
  | .clear => some []

/-- The arguments are rendered without escape characters. -/
def PlainArguments (s : ListenState World) (args : List Value) : Prop :=
  ∀ r, renderings v8 args s = some r → ∀ text ∈ r.1, escapeChar ∉ text

/-- The level of a call is legible, its arguments are plain, and rendering them leaves the flags as
they are. -/
def ConsoleCall.Legible : ConsoleCall Value World → Prop
  | .level c _ s args => c.Legible ∧ PlainArguments v8 s args ∧ KeepsFlags v8 args s
  | .write s args => PlainArguments v8 s args
  | .printColors | .clear => True

end

variable {v8 : V8Objects Value (ListenState World)}
  {s : ListenState World} {args : List Value}

theorem escapeChar_not_mem_joined {texts : List Str} (h : ∀ text ∈ texts, escapeChar ∉ text) :
    escapeChar ∉ joined texts := by
  induction texts with
  | nil => exact List.not_mem_nil
  | cons text texts ih =>
    rw [List.forall_mem_cons] at h
    rcases eq_or_ne texts [] with rfl | hne
    · rw [joined, List.intercalate_singleton]
      exact h.1
    · rw [joined_cons _ hne, List.mem_append, List.mem_append, not_or, not_or]
      exact ⟨h.1, by decide, ih h.2⟩

theorem shows_arguments {r : List Str × ListenState World} (hplain : PlainArguments v8 s args)
    (hr : renderings v8 args s = some r) :
    Shows (joined r.1 ++ ['\n']) (.plain (joined r.1 ++ ['\n'])) :=
  Shows.text fun hmem ↦ (List.mem_append.mp hmem).elim
    (escapeChar_not_mem_joined (hplain r hr)) (by decide)

/-- What a level prints, in each mode. -/
theorem localPrint_printed {r : Printed World} (hargs : args ≠ []) (hflags : KeepsFlags v8 args s)
    (h : localPrint v8 c count s args = .ok r) :
    ∃ stamp head texts, logTimeStamp c.timeStamp count = .ok stamp ∧
      startingHead c s stamp = .ok head ∧ renderings v8 args s = some texts ∧
      r.printed = if s.listening && !s.outputWhenListening then []
        else head ++ (joined texts.1 ++ ['\n']) := by
  rw [localPrint, if_neg (by simpa using hargs)] at h
  obtain ⟨stamp, hstamp, h⟩ := bind_eq_ok h
  obtain ⟨head, hhead, h⟩ := bind_eq_ok h
  -- A silent call has no head, so the buffers are those of the mode in every case.
  have hbuffers : (⟨[], head⟩ : PrintBuffers) = modeBuffers s head [] := by
    rw [startingHead] at hhead
    rw [modeBuffers, ite_self, List.append_nil]
    split at hhead
    · next hsilent => rw [if_pos hsilent, ← Except.ok.inj hhead]
    · next hsilent => rw [if_neg hsilent]
  have hloop := appendArguments_eq head hflags []
  rw [hbuffers, hloop] at h
  rcases hr : renderings v8 args s with - | texts
  · rw [hr] at h
    cases h
  · obtain ⟨hlistening, houtput⟩ := sameFlags_of_renderings hflags hr
    refine ⟨stamp, head, texts, hstamp, hhead, rfl, ?_⟩
    rw [hr, Option.map_some] at h
    simp only [finishPrint, modeBuffers, hlistening, houtput, startingMessage] at h
    cases hl : s.listening <;> cases ho : s.outputWhenListening <;> rw [hl, ho] at h <;>
      rw [← Except.ok.inj h] <;> simp

/-- **A line is shown as it was asked for.** -/
theorem shows_localPrint (hc : c.Legible) (hplain : PlainArguments v8 s args)
    (hflags : KeepsFlags v8 args s)
    (h : (localPrint v8 c count s args).map Printed.printed = .ok text) :
    ∃ spans, (ConsoleCall.level c count s args).spans v8 = some spans ∧ Shows text spans := by
  rcases hprint : localPrint v8 c count s args with e | r
  · rw [hprint] at h
    cases h
  rw [hprint] at h
  obtain rfl := Except.ok.inj h
  rcases eq_or_ne args [] with rfl | hargs
  · cases hprint
    exact ⟨[], rfl, .nil⟩
  obtain ⟨stamp, head, texts, hstamp, hhead, hr, hprinted⟩ :=
    localPrint_printed hargs hflags hprint
  rw [ConsoleCall.spans, hstamp, hr, hprinted]
  by_cases hsilent : (s.listening && !s.outputWhenListening) = true
  · rw [if_pos (by rw [hsilent, Bool.or_true]), if_pos hsilent]
    exact ⟨[], rfl, .nil⟩
  · rw [startingHead, if_neg hsilent] at hhead
    rw [if_neg (by simpa [hargs] using hsilent), if_neg hsilent]
    exact ⟨_, rfl, (shows_colorizeHead hc (escapeChar_not_mem_of_logTimeStamp hstamp) hhead).append
      (shows_arguments hplain hr)⟩

theorem ConsoleCall.shows_print {call : ConsoleCall Value World} (hcall : call.Legible v8)
    (h : call.print v8 = .ok text) :
    ∃ spans, call.spans v8 = some spans ∧ Shows text spans := by
  cases call with
  | level c count s args => exact shows_localPrint hcall.1 hcall.2.1 hcall.2.2 h
  | write s args =>
    rw [ConsoleCall.print, consoleWrite] at h
    rcases hr : renderings v8 args s with - | r
    · rw [hr] at h
      cases h
    · rw [hr] at h
      rw [ConsoleCall.spans, hr]
      exact ⟨_, rfl, Except.ok.inj h ▸ shows_arguments hcall hr⟩
  | printColors => exact ⟨_, rfl, shows_printColors h⟩
  | clear => exact ⟨[], rfl, Except.ok.inj h ▸ rfl⟩

/-- **The terminal shows what the scripts ask for.** Whatever functions of the console they call
one after the other, and whatever they configure in between: as long as the calls are legible and
go through, the terminal shows the parts of each line in the renditions of their sections and the
arguments in none, and nothing is selected on it in the end. -/
theorem shows_session (v8 : V8Objects Value (ListenState World))
    {calls : List (ConsoleCall Value World)} (hcalls : ∀ call ∈ calls, call.Legible v8)
    {texts : List Str} (h : calls.mapM (ConsoleCall.print v8) = .ok texts) :
    ∃ spans, calls.mapM (ConsoleCall.spans v8) = some spans ∧
      Shows texts.flatten spans.flatten := by
  induction calls generalizing texts with
  | nil =>
    cases h
    exact ⟨[], rfl, .nil⟩
  | cons call calls ih =>
    rw [List.forall_mem_cons] at hcalls
    rw [List.mapM_cons] at h
    obtain ⟨text, htext, h⟩ := bind_eq_ok h
    obtain ⟨rest, hrest, h⟩ := bind_eq_ok h
    obtain ⟨spans, hspans, hshows⟩ := call.shows_print hcalls.1 htext
    obtain ⟨restSpans, hrestSpans, hrestShows⟩ := ih hcalls.2 hrest
    refine ⟨spans :: restSpans, by rw [List.mapM_cons, hspans, hrestSpans]; rfl, ?_⟩
    rw [← Except.ok.inj h]
    exact hshows.append hrestShows

/-! ## A level and a text -/

/-- The level `log` is called with a number, and then `write`. -/
def logCalls : List (ConsoleCall ℤ Unit) :=
  [.level (logLevelConfiguration 0) 7 ⟨false, false, ()⟩ [1], .write ⟨false, false, ()⟩ [2]]

theorem legible_logLevelConfiguration (showRight : ℤ) :
    (logLevelConfiguration showRight).Legible := by
  have hdefault : Rendered textColors defaultColor ∧ Rendered backgroundColors defaultColor :=
    ⟨.inl (by decide), .inl (by decide)⟩
  have hlevel : escapeChar ∉ "LOG".toList := by decide
  have hseparator : escapeChar ∉ [':'] := by decide
  exact ⟨fun _ ↦ hdefault, fun _ ↦ hdefault, fun _ ↦ hdefault, hlevel, hseparator⟩

theorem legible_logCalls :
    ∀ call ∈ logCalls, call.Legible (numberObjects (ListenState Unit)) := by
  have hplain : ∀ n ∈ [1, 2], PlainArguments (numberObjects (ListenState Unit))
      ⟨false, false, ()⟩ [n] := by
    intro n hn r hr
    fin_cases hn <;> cases hr <;> decide
  have hflags : KeepsFlags (numberObjects (ListenState Unit)) [1] ⟨false, false, ()⟩ := by
    intro r hr
    cases hr
    exact ⟨⟨rfl, rfl⟩, trivial⟩
  rw [logCalls, List.forall_mem_cons, List.forall_mem_singleton]
  exact ⟨⟨legible_logLevelConfiguration 0, hplain 1 (by decide), hflags⟩, hplain 2 (by decide)⟩

theorem shows_session_logCalls :
    ∃ texts spans, logCalls.mapM (ConsoleCall.print (numberObjects (ListenState Unit)))
        = .ok texts ∧
      logCalls.mapM (ConsoleCall.spans (numberObjects (ListenState Unit))) = some spans ∧
      Shows texts.flatten spans.flatten := by
  obtain ⟨spans, hspans, hshows⟩ :=
    @shows_session _ _ (numberObjects (ListenState Unit)) logCalls legible_logCalls
      _ rfl
  exact ⟨_, spans, rfl, hspans, hshows⟩

end SlimTS
