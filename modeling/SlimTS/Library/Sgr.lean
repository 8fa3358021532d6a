import Mathlib.Data.Char
import Mathlib.Data.List.Basic

/-!
# What a terminal shows

A terminal reads a text one character at a time. An escape sequence that ends in `m` selects the
rendition of what follows, by its parameters; every character outside of such sequences is shown in
the rendition that is selected. `display` is the characters that are shown, each with its rendition,
and the terminal afterwards.

The terminal has no memory of the text but its rendition and the sequence it is in, so a text is
shown as its parts are, one after the other (`display_append`). A part without escape characters is
shown as it is (`display_text`), and a whole sequence shows nothing (`display_sequence`). A text of
spans, each in a rendition of its own and reset behind, is what a program writes that colours its
output.
-/

namespace Sgr

/-! ## Renditions -/

/-- A colour. -/
inductive Color
  | default
  /-- One of the sixteen with a name. -/
  | named (n : ℕ)
  /-- One of the palette. -/
  | palette (n : ℕ)
  | rgb (red green blue : ℕ)
deriving DecidableEq, Repr

/-- How a character is shown. -/
structure Rendition where
  bold : Bool := false
  dim : Bool := false
  italic : Bool := false
  underline : Bool := false
  inverse : Bool := false
  foreground : Color := .default
  background : Color := .default
deriving DecidableEq, Repr

namespace Rendition

/-- What a parameter on its own selects. -/
def set (r : Rendition) (p : ℕ) : Rendition :=
  if p = 0 then {}
  else if p = 1 then { r with bold := true }
  else if p = 2 then { r with dim := true }
  else if p = 3 then { r with italic := true }
  else if p = 4 then { r with underline := true }
  else if p = 7 then { r with inverse := true }
  else if 30 ≤ p ∧ p ≤ 37 then { r with foreground := .named (p - 30) }
  else if p = 39 then { r with foreground := .default }
  else if 40 ≤ p ∧ p ≤ 47 then { r with background := .named (p - 40) }
  else if p = 49 then { r with background := .default }
  else if 90 ≤ p ∧ p ≤ 97 then { r with foreground := .named (p - 90 + 8) }
  else if 100 ≤ p ∧ p ≤ 107 then { r with background := .named (p - 100 + 8) }
  else r

/-- What the parameters of a sequence select. -/
def select : List ℕ → Rendition → Rendition
  | [], r => r
  | 38 :: 5 :: n :: ps, r => select ps { r with foreground := .palette n }
  | 38 :: 2 :: red :: green :: blue :: ps, r =>
    select ps { r with foreground := .rgb red green blue }
  | 48 :: 5 :: n :: ps, r => select ps { r with background := .palette n }
  | 48 :: 2 :: red :: green :: blue :: ps, r =>
    select ps { r with background := .rgb red green blue }
  | p :: ps, r => select ps (r.set p)

end Rendition

/-- The parameters of a sequence, in a number that has been begun. A missing one is zero. -/
def numbersFrom (n : ℕ) : List Char → List ℕ
  | [] => [n]
  | c :: text =>
    if c = ';' then n :: numbersFrom 0 text
    else numbersFrom (10 * n + (c.toNat - '0'.toNat)) text

/-- The parameters of a sequence. -/
def numbers (text : List Char) : List ℕ := numbersFrom 0 text

theorem numbersFrom_of_digits {digits : List Char} (h : ∀ c ∈ digits, c.isDigit = true) (n : ℕ) :
    numbersFrom n digits = [Nat.ofDigitChars 10 digits n] := by
  induction digits generalizing n with
  | nil => rw [numbersFrom, Nat.ofDigitChars_nil]
  | cons c digits ih =>
    rw [List.forall_mem_cons] at h
    have hc : c ≠ ';' := by
      rintro rfl
      exact absurd h.1 (by decide)
    rw [numbersFrom, if_neg hc, ih h.2, Nat.ofDigitChars_cons]

/-! ## The terminal -/

/-- The character that begins a sequence. -/
def escapeChar : Char := '\x1b'

/-- Where a terminal is in a text. -/
inductive Mode
  | ground
  /-- Behind an escape character. -/
  | escaped
  /-- In a sequence, behind these characters. -/
  | sequence (parameters : List Char)
deriving DecidableEq, Repr

/-- A terminal. -/
structure Terminal where
  rendition : Rendition := {}
  mode : Mode := .ground
deriving DecidableEq, Repr

/-- A character of a sequence before its last one. -/
def isParameter (c : Char) : Bool := decide (0x20 ≤ c.toNat ∧ c.toNat < 0x40)

/-- What a terminal does with a character, and what it shows. -/
def feed (t : Terminal) (c : Char) : Terminal × List (Char × Rendition) :=
  match t.mode with
  | .ground => if c = escapeChar then ({ t with mode := .escaped }, []) else (t, [(c, t.rendition)])
  | .escaped => ({ t with mode := if c = '[' then .sequence [] else .ground }, [])
  | .sequence parameters =>
    if isParameter c then ({ t with mode := .sequence (parameters ++ [c]) }, [])
    else if c = 'm' then ({ rendition := Rendition.select (numbers parameters) t.rendition }, [])
    else ({ t with mode := .ground }, [])

/-- What a terminal shows of a text, and the terminal behind it. -/
def display (t : Terminal) : List Char → List (Char × Rendition) × Terminal
  | [] => ([], t)
  | c :: text => ((feed t c).2 ++ (display (feed t c).1 text).1, (display (feed t c).1 text).2)

/-- **A text is shown part by part.** -/
theorem display_append (t : Terminal) (text rest : List Char) :
    display t (text ++ rest) = ((display t text).1 ++ (display (display t text).2 rest).1,
      (display (display t text).2 rest).2) := by
  induction text generalizing t with
  | nil => rfl
  | cons c text ih => rw [List.cons_append, display, ih, display, List.append_assoc]

/-- A text as it is. -/
theorem display_text {text : List Char} (h : escapeChar ∉ text) (r : Rendition) :
    display { rendition := r } text = (text.map fun c ↦ (c, r), { rendition := r }) := by
  induction text with
  | nil => rfl
  | cons c text ih =>
    rw [List.mem_cons, not_or] at h
    have hfeed : feed { rendition := r } c = ({ rendition := r }, [(c, r)]) :=
      if_neg (Ne.symm h.1)
    rw [display, hfeed, ih h.2]
    rfl

private theorem display_parameters {text : List Char} (h : ∀ c ∈ text, isParameter c = true)
    (r : Rendition) (parameters : List Char) :
    display ⟨r, .sequence parameters⟩ text = ([], ⟨r, .sequence (parameters ++ text)⟩) := by
  induction text generalizing parameters with
  | nil => rw [List.append_nil, display]
  | cons c text ih =>
    rw [List.forall_mem_cons] at h
    have hfeed : feed ⟨r, .sequence parameters⟩ c = (⟨r, .sequence (parameters ++ [c])⟩, []) :=
      if_pos h.1
    rw [display, hfeed, ih h.2, List.append_assoc, List.singleton_append, List.nil_append]

/-- A sequence that selects a rendition. -/
def sequence (parameters : List Char) : List Char := escapeChar :: '[' :: (parameters ++ ['m'])

/-- **A sequence shows nothing** and selects what its parameters say. -/
theorem display_sequence {parameters : List Char} (h : ∀ c ∈ parameters, isParameter c = true)
    (r : Rendition) : display { rendition := r } (sequence parameters)
      = ([], { rendition := Rendition.select (numbers parameters) r }) := by
  have hbegun : display { rendition := r } (sequence parameters)
      = display ⟨r, .sequence []⟩ (parameters ++ ['m']) := rfl
  rw [hbegun, display_append, display_parameters h, List.nil_append]
  rfl

/-! ## Spans -/

/-- Texts, each in a rendition of its own. -/
abbrev Spans := List (Rendition × List Char)

/-- The characters of spans. -/
def Spans.shown (spans : Spans) : List (Char × Rendition) :=
  spans.flatMap fun span ↦ span.2.map fun c ↦ (c, span.1)

/-- A text in no rendition. -/
def Spans.plain (text : List Char) : Spans := [({}, text)]

/-- The text shows the spans on a terminal that nothing is selected on, and leaves it so. -/
def Shows (text : List Char) (spans : Spans) : Prop :=
  display {} text = (Spans.shown spans, {})

theorem Shows.nil : Shows [] [] := rfl

/-- **Texts show their spans one after the other**, and none of them colours the next. -/
theorem Shows.append {text text' : List Char} {spans spans' : Spans} (h : Shows text spans)
    (h' : Shows text' spans') : Shows (text ++ text') (spans ++ spans') := by
  rw [Shows] at *
  rw [display_append, h, h', Spans.shown, Spans.shown, Spans.shown, List.flatMap_append]

/-- A text without escape characters is shown as it is. -/
theorem Shows.text {text : List Char} (h : escapeChar ∉ text) : Shows text (.plain text) := by
  rw [Shows, display_text h, Spans.shown, Spans.plain, List.flatMap_singleton]

/-- A text between sequences that select a rendition and one that resets it. -/
theorem Shows.framed {front text : List Char} {r : Rendition}
    (hfront : display {} front = ([], { rendition := r })) (h : escapeChar ∉ text) :
    Shows (front ++ (text ++ sequence ['0'])) [(r, text)] := by
  have hreset : display { rendition := r } (sequence ['0']) = ([], {}) :=
    display_sequence (List.forall_mem_singleton.mpr rfl) r
  rw [Shows, display_append, hfront, display_append, display_text h, hreset, Spans.shown,
    List.flatMap_singleton, List.nil_append, List.append_nil]

end Sgr
