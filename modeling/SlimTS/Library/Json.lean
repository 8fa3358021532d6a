import Mathlib.Data.List.Nodup
import Mathlib.Data.List.Perm.Subperm
import SlimTS.Library.Quoted

/-!
# JSON

A parser for JSON texts. An object is the list of its members as they are written; of members with
the same key the last one counts.

A value has a `size`, which is the length of the shortest text for it, up to what numbers and empty
arrays and objects need. No text is shorter than the value it is parsed to, and only a text that
writes every string without escapes is as short.
-/

open Quoted

/-- A JSON value. -/
inductive Json
  | null
  | boolean (value : Bool)
  | number (text : List Char)
  | string (us : List ℕ)
  | array (values : List Json)
  | object (members : List (List ℕ × Json))

namespace Json

/-! ## Strings -/

/-- The escapes of one character. -/
def escapes : List (Char × ℕ) :=
  [('"', 0x22), ('\\', 0x5C), ('/', 0x2F), ('b', 0x8), ('f', 0xC), ('n', 0xA), ('r', 0xD),
    ('t', 0x9)]

/-- What follows a backslash. -/
def escape : List Char → Option (List ℕ × ℕ)
  | [] => none
  | c :: text =>
    if c = 'u' then (fixedHex 4 text).map fun n ↦ ([n], 5)
    else (escapes.lookup c).map fun n ↦ ([n], 1)

theorem lawful_escape {text : List Char} {us : List ℕ} {n : ℕ} (h : escape text = some (us, n)) :
    Lawful text us n := by
  cases text with
  | nil => exact absurd h (by simp [escape])
  | cons c text =>
    rw [escape] at h
    split at h
    · next hu =>
      obtain ⟨m, hm, h⟩ := Option.map_eq_some_iff.mp h
      obtain ⟨rfl, rfl⟩ := Prod.mk.inj h
      exact lawful_fixedHex (hu ▸ by decide) hm
    · obtain ⟨m, hm, h⟩ := Option.map_eq_some_iff.mp h
      obtain ⟨rfl, rfl⟩ := Prod.mk.inj h
      have htake : (c :: text).take 1 = [c] := rfl
      by_cases hquote : c = '"'
      · subst hquote
        obtain rfl : m = 0x22 := (Option.some.inj hm).symm
        exact ⟨Nat.le_add_left 1 _, le_rfl, le_rfl⟩
      · refine Lawful.of_not_mem (Nat.le_add_left 1 _) le_rfl ?_
        rw [htake, List.mem_singleton]
        exact Ne.symm hquote

/-- The strings of JSON. -/
def dialect : Dialect where
  forbidden c := c.toNat < 0x20
  escape := escape
  lawful := lawful_escape

/-! ## Numbers -/

/-- One digit or more. -/
def digits (text : List Char) : Option (List Char × List Char) :=
  if text.takeWhile Char.isDigit = [] then none
  else some (text.takeWhile Char.isDigit, text.dropWhile Char.isDigit)

/-- The digits in front of the point. A zero is followed by no other. -/
def integer : List Char → Option (List Char × List Char)
  | [] => none
  | c :: text => if c = '0' then some ([c], text) else digits (c :: text)

/-- The digits behind the point. -/
def fraction : List Char → Option (List Char × List Char)
  | [] => some ([], [])
  | c :: text => if c = '.' then (digits text).map fun (ds, rest) ↦ (c :: ds, rest)
    else some ([], c :: text)

/-- A sign, or none. -/
def sign (signs : List Char) : List Char → List Char × List Char
  | [] => ([], [])
  | c :: text => if signs.contains c then ([c], text) else ([], c :: text)

/-- The power of ten. -/
def exponent : List Char → Option (List Char × List Char)
  | [] => some ([], [])
  | c :: text =>
    if c = 'e' ∨ c = 'E' then
      (digits (sign ['+', '-'] text).2).map fun (ds, rest) ↦
        (c :: ((sign ['+', '-'] text).1 ++ ds), rest)
    else some ([], c :: text)

/-- The number a text begins with. -/
def numeral (text : List Char) : Option (List Char × List Char) := do
  let (int, rest) ← integer (sign ['-'] text).2
  let (frac, rest) ← fraction rest
  let (exp, rest) ← exponent rest
  return ((sign ['-'] text).1 ++ int ++ frac ++ exp, rest)

/-! ## Values -/

/-- White space is passed over. -/
def skip (text : List Char) : List Char :=
  text.dropWhile fun c ↦ [' ', '\t', '\n', '\r'].contains c

/-- The text behind a character, in front of which there may be white space. -/
def expect (c : Char) (text : List Char) : Option (List Char) :=
  match skip text with
  | [] => none
  | d :: rest => if d = c then some rest else none

def trueWord : List Char := "true".toList

def falseWord : List Char := "false".toList

def nullWord : List Char := "null".toList

/-- A word or a number. -/
def atom (text : List Char) : Option (Json × List Char) :=
  if trueWord.isPrefixOf text then some (boolean true, text.drop 4)
  else if falseWord.isPrefixOf text then some (boolean false, text.drop 5)
  else if nullWord.isPrefixOf text then some (null, text.drop 4)
  else (numeral text).map fun (text, rest) ↦ (number text, rest)

mutual

/-- The value a text begins with. The first argument bounds the depth and the number of parts. -/
def value : ℕ → List Char → Option (Json × List Char)
  | 0, _ => none
  | fuel + 1, text =>
    match dialect.string (skip text) with
    | some (us, rest) => some (string us, rest)
    | none =>
      match expect '{' text with
      | some rest =>
        match expect '}' rest with
        | some rest => some (object [], rest)
        | none => (members fuel rest).map fun (ms, rest) ↦ (object ms, rest)
      | none =>
        match expect '[' text with
        | some rest =>
          match expect ']' rest with
          | some rest => some (array [], rest)
          | none => (elements fuel rest).map fun (vs, rest) ↦ (array vs, rest)
        | none => atom (skip text)

/-- The members of an object, and the brace. -/
def members : ℕ → List Char → Option (List (List ℕ × Json) × List Char)
  | 0, _ => none
  | fuel + 1, text => do
    let (key, rest) ← dialect.string (skip text)
    let rest ← expect ':' rest
    let (v, rest) ← value fuel rest
    match expect ',' rest with
    | some rest =>
      let (ms, rest) ← members fuel rest
      return ((key, v) :: ms, rest)
    | none =>
      let rest ← expect '}' rest
      return ([(key, v)], rest)

/-- The elements of an array, and the bracket. -/
def elements : ℕ → List Char → Option (List Json × List Char)
  | 0, _ => none
  | fuel + 1, text => do
    let (v, rest) ← value fuel text
    match expect ',' rest with
    | some rest =>
      let (vs, rest) ← elements fuel rest
      return (v :: vs, rest)
    | none =>
      let rest ← expect ']' rest
      return ([v], rest)

end

/-- `JSON.parse`. -/
def parse (text : List Char) : Option Json := do
  let (v, rest) ← value (text.length + 1) text
  guard (skip rest = [])
  return v

/-- The value of a member of an object. Of members with one key the last counts. -/
def member (key : List ℕ) (ms : List (List ℕ × Json)) : Option Json := ms.reverse.lookup key

/-! ## Sizes -/

mutual

/-- The length of the shortest text for a value, or less. -/
def size : Json → ℕ
  | null => 4
  | boolean b => if b then 4 else 5
  | number _ => 1
  | string us => us.length + 2
  | array vs => 1 + sizeElements vs
  | object ms => 1 + sizeMembers ms

def sizeElements : List Json → ℕ
  | [] => 0
  | v :: vs => size v + 1 + sizeElements vs

def sizeMembers : List (List ℕ × Json) → ℕ
  | [] => 0
  | m :: ms => sizeMember m + sizeMembers ms

def sizeMember : List ℕ × Json → ℕ
  | (key, v) => key.length + 3 + size v + 1

end

/-- Code units that stand for themselves in a string. -/
def PlainUnits (us : List ℕ) : Prop := ∀ u ∈ us, u ≠ 0x22 ∧ u ≠ 0x5C ∧ 0x20 ≤ u

/-- A value whose strings can all be written without escapes. -/
inductive Plain : Json → Prop
  | null : Plain null
  | boolean (b : Bool) : Plain (boolean b)
  | number (text : List Char) : Plain (number text)
  | string {us : List ℕ} (h : PlainUnits us) : Plain (string us)
  | array {vs : List Json} (h : ∀ v ∈ vs, Plain v) : Plain (array vs)
  | object {ms : List (List ℕ × Json)} (hkeys : ∀ m ∈ ms, PlainUnits m.1)
      (hvalues : ∀ m ∈ ms, Plain m.2) : Plain (object ms)

/-- The length of a text in code units. -/
def width (text : List Char) : ℕ := (units text).length

section

variable {text rest body : List Char} {us : List ℕ} {c : Char} {v : Json} {fuel : ℕ}

theorem width_append (a b : List Char) : width (a ++ b) = width a + width b := by
  rw [width, units_append, List.length_append, width, width]

theorem width_cons (c : Char) (text : List Char) :
    width (c :: text) = (codePoint c.toNat).length + width text := by
  rw [width, units_cons, List.length_append, width]

theorem lt_width_cons (c : Char) (text : List Char) : width text < width (c :: text) := by
  have hpos := (length_codePoint c.toNat).1
  rw [width_cons]
  omega

theorem width_le_of_suffix (h : rest <:+ text) : width rest ≤ width text := by
  obtain ⟨front, rfl⟩ := h
  rw [width_append]
  exact Nat.le_add_left _ _

theorem width_skip_le (text : List Char) : width (skip text) ≤ width text :=
  width_le_of_suffix (List.dropWhile_suffix _)

theorem lt_width_of_expect (h : expect c text = some rest) : width rest < width text := by
  rw [expect] at h
  split at h
  · exact absurd h (by simp)
  · next d rest' hskip =>
    obtain ⟨-, h⟩ := Option.ite_none_right_eq_some.mp h
    have hle := width_skip_le text
    have hlt := lt_width_cons d rest'
    rw [hskip] at hle
    rw [← Option.some.inj h]
    omega

/-! ### Strings -/

/-- A character stands for itself when its code units do. -/
theorem forall_codePoint_iff (n : ℕ) : (∀ u ∈ codePoint n, u ≠ 0x22 ∧ u ≠ 0x5C ∧ 0x20 ≤ u) ↔
    n ≠ 0x22 ∧ n ≠ 0x5C ∧ 0x20 ≤ n := by
  rw [codePoint]
  split
  · rw [List.forall_mem_singleton]
  · simp only [List.forall_mem_cons, List.not_mem_nil, false_implies, implies_true, and_true]
    omega

theorem plain_iff : dialect.Plain text ↔ PlainUnits (units text) := by
  have hchar : ∀ c : Char, (c ≠ '"' ∧ c ≠ '\\' ∧ dialect.forbidden c = false) ↔
      c.toNat ≠ 0x22 ∧ c.toNat ≠ 0x5C ∧ 0x20 ≤ c.toNat := by
    intro c
    have hquote : c.toNat = 0x22 ↔ c = '"' := Char.toNat_inj (d := '"')
    have hbackslash : c.toNat = 0x5C ↔ c = '\\' := Char.toNat_inj (d := '\\')
    rw [ne_eq, ne_eq, ne_eq, ne_eq, hquote, hbackslash]
    simp [dialect]
  rw [Dialect.Plain, PlainUnits, units, List.forall_mem_flatMap]
  exact forall₂_congr fun c _ ↦ (hchar c).trans (forall_codePoint_iff c.toNat).symm

theorem width_of_string (h : dialect.string text = some (us, rest)) :
    us.length + 2 + width rest ≤ width text ∧
      (us.length + 2 + width rest = width text → PlainUnits us) := by
  obtain ⟨body, rfl, hspells⟩ := Dialect.spells_of_string h
  have hquote : ∀ text : List Char, width ('"' :: text) = width text + 1 := fun text ↦ by
    rw [width_cons, Nat.add_comm]
    rfl
  have hle : us.length ≤ width body := hspells.length_le
  rw [hquote, width_append, hquote]
  refine ⟨by omega, fun heq ↦ ?_⟩
  have hplain := hspells.plain (show us.length = width body by omega)
  rw [Dialect.string_plain hplain, Option.some_inj, Prod.mk.injEq] at h
  rw [← h.1, ← plain_iff]
  exact hplain

/-! ### Numbers and words -/

theorem append_of_digits {ds : List Char} (h : digits text = some (ds, rest)) :
    text = ds ++ rest ∧ ds ≠ [] := by
  rw [digits] at h
  obtain ⟨hne, h⟩ := Option.ite_none_left_eq_some.mp h
  obtain ⟨rfl, rfl⟩ := Prod.mk.inj (Option.some.inj h)
  exact ⟨List.takeWhile_append_dropWhile.symm, hne⟩

theorem append_of_integer {ds : List Char} (h : integer text = some (ds, rest)) :
    text = ds ++ rest ∧ ds ≠ [] := by
  cases text with
  | nil => exact absurd h (by simp [integer])
  | cons c text =>
    rw [integer] at h
    split at h
    · obtain ⟨rfl, rfl⟩ := Prod.mk.inj (Option.some.inj h)
      exact ⟨rfl, List.cons_ne_nil _ _⟩
    · exact append_of_digits h

theorem append_of_fraction {ds : List Char} (h : fraction text = some (ds, rest)) :
    text = ds ++ rest := by
  cases text with
  | nil =>
    obtain ⟨rfl, rfl⟩ := Prod.mk.inj (Option.some.inj h)
    rfl
  | cons c text =>
    rw [fraction] at h
    split at h
    · obtain ⟨⟨ds', rest'⟩, hdigits, h⟩ := Option.map_eq_some_iff.mp h
      obtain ⟨rfl, rfl⟩ := Prod.mk.inj h
      rw [(append_of_digits hdigits).1, List.cons_append]
    · obtain ⟨rfl, rfl⟩ := Prod.mk.inj (Option.some.inj h)
      rfl

theorem sign_append (signs text : List Char) :
    (sign signs text).1 ++ (sign signs text).2 = text := by
  cases text with
  | nil => rfl
  | cons c text =>
    rw [sign]
    split
    · rfl
    · rfl

theorem append_of_exponent {ds : List Char} (h : exponent text = some (ds, rest)) :
    text = ds ++ rest := by
  cases text with
  | nil =>
    obtain ⟨rfl, rfl⟩ := Prod.mk.inj (Option.some.inj h)
    rfl
  | cons c text =>
    rw [exponent] at h
    split at h
    · obtain ⟨⟨ds', rest'⟩, hdigits, h⟩ := Option.map_eq_some_iff.mp h
      obtain ⟨rfl, rfl⟩ := Prod.mk.inj h
      rw [List.cons_append, List.append_assoc, ← (append_of_digits hdigits).1, sign_append]
    · obtain ⟨rfl, rfl⟩ := Prod.mk.inj (Option.some.inj h)
      rfl

/-- A number is the text it was read from. -/
theorem append_of_numeral {ds : List Char} (h : numeral text = some (ds, rest)) :
    text = ds ++ rest ∧ ds ≠ [] := by
  obtain ⟨⟨int, rest₁⟩, hint, h⟩ := Option.bind_eq_some_iff.mp h
  obtain ⟨⟨frac, rest₂⟩, hfrac, h⟩ := Option.bind_eq_some_iff.mp h
  obtain ⟨⟨exp, rest₃⟩, hexp, h⟩ := Option.bind_eq_some_iff.mp h
  obtain ⟨rfl, rfl⟩ := Prod.mk.inj (Option.some.inj h)
  obtain ⟨hsplit, hne⟩ := append_of_integer hint
  refine ⟨?_, by simp [hne]⟩
  rw [List.append_assoc, List.append_assoc, List.append_assoc, ← append_of_exponent hexp,
    ← append_of_fraction hfrac, ← hsplit, sign_append]

theorem width_of_isPrefix {word : List Char} (h : word.isPrefixOf text = true) :
    width text = width word + width (text.drop word.length) := by
  obtain ⟨rest, rfl⟩ := List.isPrefixOf_iff_prefix.mp h
  rw [width_append, List.drop_left]

theorem width_of_atom (h : atom text = some (v, rest)) :
    v.size + width rest ≤ width text ∧ v.Plain := by
  rw [atom] at h
  split at h
  · next hstarts =>
    obtain ⟨rfl, rfl⟩ := Prod.mk.inj (Option.some.inj h)
    exact ⟨(width_of_isPrefix hstarts).ge, .boolean true⟩
  split at h
  · next hstarts =>
    obtain ⟨rfl, rfl⟩ := Prod.mk.inj (Option.some.inj h)
    exact ⟨(width_of_isPrefix hstarts).ge, .boolean false⟩
  split at h
  · next hstarts =>
    obtain ⟨rfl, rfl⟩ := Prod.mk.inj (Option.some.inj h)
    exact ⟨(width_of_isPrefix hstarts).ge, .null⟩
  · obtain ⟨⟨ds, rest'⟩, hnumeral, h⟩ := Option.map_eq_some_iff.mp h
    obtain ⟨rfl, rfl⟩ := Prod.mk.inj h
    obtain ⟨rfl, hne⟩ := append_of_numeral hnumeral
    have hpos := List.length_pos_iff.mpr hne
    have hle : ds.length ≤ width ds := length_le_length_units ds
    refine ⟨?_, .number ds⟩
    rw [width_append, size]
    omega

/-! ### Values -/

/-- A part of a text that is at least as long as the part's size, and plain if it is not longer. -/
def Fitting (size : ℕ) (plain : Prop) (text rest : List Char) : Prop :=
  size + width rest ≤ width text ∧ (size + width rest = width text → plain)

/-- What the three parsers have in common. -/
structure Measured (fuel : ℕ) : Prop where
  value : ∀ {text v rest}, value fuel text = some (v, rest) → Fitting v.size v.Plain text rest
  members : ∀ {text ms rest}, members fuel text = some (ms, rest) →
    Fitting (sizeMembers ms) (∀ m ∈ ms, PlainUnits m.1 ∧ Plain m.2) text rest
  elements : ∀ {text vs rest}, elements fuel text = some (vs, rest) →
    Fitting (sizeElements vs) (∀ v ∈ vs, Plain v) text rest

theorem Measured.value_succ (h : Measured fuel)
    (hvalue : Json.value (fuel + 1) text = some (v, rest)) : Fitting v.size v.Plain text rest := by
  have hskip := width_skip_le text
  rw [Json.value] at hvalue
  split at hvalue
  · -- A string: its text has at least as many units as its value, and two quotes.
    next us rest' hstring =>
    obtain ⟨rfl, rfl⟩ := Prod.mk.inj (Option.some.inj hvalue)
    obtain ⟨hle, hplain⟩ := width_of_string hstring
    rw [Fitting, size]
    exact ⟨by omega, fun heq ↦ .string (hplain (by omega))⟩
  split at hvalue
  · -- An object, without members or with some.
    next rest₁ hbrace =>
    have hlt := lt_width_of_expect hbrace
    split at hvalue
    · next rest₂ hclose =>
      obtain ⟨rfl, rfl⟩ := Prod.mk.inj (Option.some.inj hvalue)
      have hlt' := lt_width_of_expect hclose
      rw [Fitting, size, sizeMembers]
      exact ⟨by omega, fun _ ↦ .object (by simp) (by simp)⟩
    · obtain ⟨⟨ms, rest₂⟩, hmembers, hvalue⟩ := Option.map_eq_some_iff.mp hvalue
      obtain ⟨rfl, rfl⟩ := Prod.mk.inj hvalue
      obtain ⟨hle, hplain⟩ := h.members hmembers
      rw [Fitting, size]
      refine ⟨by omega, fun heq ↦ ?_⟩
      have hplain' := hplain (by omega)
      exact .object (fun m hm ↦ (hplain' m hm).1) fun m hm ↦ (hplain' m hm).2
  split at hvalue
  · -- An array, likewise.
    next rest₁ hbracket =>
    have hlt := lt_width_of_expect hbracket
    split at hvalue
    · next rest₂ hclose =>
      obtain ⟨rfl, rfl⟩ := Prod.mk.inj (Option.some.inj hvalue)
      have hlt' := lt_width_of_expect hclose
      rw [Fitting, size, sizeElements]
      exact ⟨by omega, fun _ ↦ .array (by simp)⟩
    · obtain ⟨⟨vs, rest₂⟩, helements, hvalue⟩ := Option.map_eq_some_iff.mp hvalue
      obtain ⟨rfl, rfl⟩ := Prod.mk.inj hvalue
      obtain ⟨hle, hplain⟩ := h.elements helements
      rw [Fitting, size]
      exact ⟨by omega, fun heq ↦ .array (hplain (by omega))⟩
  · obtain ⟨hle, hplain⟩ := width_of_atom hvalue
    exact ⟨by omega, fun _ ↦ hplain⟩

theorem Measured.members_succ (h : Measured fuel) {ms : List (List ℕ × Json)}
    (hmembers : Json.members (fuel + 1) text = some (ms, rest)) :
    Fitting (sizeMembers ms) (∀ m ∈ ms, PlainUnits m.1 ∧ Plain m.2) text rest := by
  have hskip := width_skip_le text
  rw [Json.members] at hmembers
  obtain ⟨⟨key, rest₁⟩, hkey, hmembers⟩ := Option.bind_eq_some_iff.mp hmembers
  obtain ⟨rest₂, hcolon, hmembers⟩ := Option.bind_eq_some_iff.mp hmembers
  obtain ⟨⟨v, rest₃⟩, hvalue, hmembers⟩ := Option.bind_eq_some_iff.mp hmembers
  obtain ⟨hle, hplain⟩ := width_of_string hkey
  have hlt := lt_width_of_expect hcolon
  obtain ⟨hle', hplain'⟩ := h.value hvalue
  rw [Fitting]
  dsimp only at hmembers
  split at hmembers
  · -- Another member follows; its measure is in the hypothesis.
    next rest₄ hcomma =>
    have hlt' := lt_width_of_expect hcomma
    obtain ⟨⟨ms', rest₅⟩, hrest, hmembers⟩ := Option.bind_eq_some_iff.mp hmembers
    dsimp only at hmembers
    obtain ⟨rfl, rfl⟩ := Prod.mk.inj (Option.some.inj hmembers)
    obtain ⟨hle'', hplain''⟩ := h.members hrest
    rw [sizeMembers, sizeMember, List.forall_mem_cons]
    exact ⟨by omega, fun heq ↦
      ⟨⟨hplain (by omega), hplain' (by omega)⟩, hplain'' (by omega)⟩⟩
  · obtain ⟨rest₄, hbrace, hmembers⟩ := Option.bind_eq_some_iff.mp hmembers
    obtain ⟨rfl, rfl⟩ := Prod.mk.inj (Option.some.inj hmembers)
    have hlt' := lt_width_of_expect hbrace
    rw [sizeMembers, sizeMember, sizeMembers, List.forall_mem_singleton]
    exact ⟨by omega, fun heq ↦ ⟨hplain (by omega), hplain' (by omega)⟩⟩

theorem Measured.elements_succ (h : Measured fuel) {vs : List Json}
    (helements : Json.elements (fuel + 1) text = some (vs, rest)) :
    Fitting (sizeElements vs) (∀ v ∈ vs, Plain v) text rest := by
  rw [Json.elements] at helements
  obtain ⟨⟨v, rest₁⟩, hvalue, helements⟩ := Option.bind_eq_some_iff.mp helements
  obtain ⟨hle, hplain⟩ := h.value hvalue
  rw [Fitting]
  dsimp only at helements
  split at helements
  · next rest₂ hcomma =>
    have hlt := lt_width_of_expect hcomma
    obtain ⟨⟨vs', rest₃⟩, hrest, helements⟩ := Option.bind_eq_some_iff.mp helements
    dsimp only at helements
    obtain ⟨rfl, rfl⟩ := Prod.mk.inj (Option.some.inj helements)
    obtain ⟨hle', hplain'⟩ := h.elements hrest
    rw [sizeElements, List.forall_mem_cons]
    exact ⟨by omega, fun heq ↦ ⟨hplain (by omega), hplain' (by omega)⟩⟩
  · obtain ⟨rest₂, hbracket, helements⟩ := Option.bind_eq_some_iff.mp helements
    obtain ⟨rfl, rfl⟩ := Prod.mk.inj (Option.some.inj helements)
    have hlt := lt_width_of_expect hbracket
    rw [sizeElements, sizeElements, List.forall_mem_singleton]
    exact ⟨by omega, fun heq ↦ hplain (by omega)⟩

/-- **No text is shorter than its value**, and one that is as short has no escapes. -/
theorem measured (fuel : ℕ) : Measured fuel := by
  induction fuel with
  | zero =>
    exact ⟨fun h ↦ absurd h (by simp [Json.value]), fun h ↦ absurd h (by simp [Json.members]),
      fun h ↦ absurd h (by simp [Json.elements])⟩
  | succ fuel ih => exact ⟨ih.value_succ, ih.members_succ, ih.elements_succ⟩

theorem size_le_of_parse (h : parse text = some v) :
    v.size ≤ width text ∧ (v.size = width text → v.Plain) := by
  obtain ⟨⟨v', rest⟩, hvalue, h⟩ := Option.bind_eq_some_iff.mp h
  obtain ⟨_, -, h⟩ := Option.bind_eq_some_iff.mp h
  obtain rfl := Option.some.inj h
  obtain ⟨hle, hplain⟩ := (measured _).value hvalue
  exact ⟨by omega, fun heq ↦ hplain (by omega)⟩

/-! ## Members -/

section

variable {ms ms' : List (List ℕ × Json)} {key : List ℕ}

/-- With different keys, a member is looked up by its key. -/
theorem lookup_eq_some_iff_mem (hnodup : (ms.map Prod.fst).Nodup) :
    ms.lookup key = some v ↔ (key, v) ∈ ms := by
  induction ms with
  | nil => simp
  | cons m ms ih =>
    obtain ⟨key', v'⟩ := m
    obtain ⟨hkey, hrest⟩ := List.nodup_cons.mp hnodup
    rw [List.lookup_cons, List.mem_cons, Prod.mk.injEq]
    by_cases heq : key = key'
    · subst heq
      have hnot : (key, v) ∉ ms := fun hmem ↦ hkey (List.mem_map.mpr ⟨_, hmem, rfl⟩)
      simp [hnot, eq_comm]
    · rw [beq_false_of_ne heq]
      simp only [ih hrest, heq, false_and, false_or]

theorem mem_of_member (h : member key ms = some v) : (key, v) ∈ ms := by
  obtain ⟨l, l', hsplit, -⟩ := List.lookup_eq_some_iff.mp h
  rw [← List.mem_reverse, hsplit]
  exact List.mem_append_right l List.mem_cons_self

/-- The order of members with different keys does not matter. -/
theorem member_eq_lookup (hperm : ms.Perm ms') (hnodup : (ms'.map Prod.fst).Nodup)
    (key : List ℕ) : member key ms = ms'.lookup key := by
  have hreverse : ms.reverse.Perm ms' := (List.reverse_perm ms).trans hperm
  have hnodup' : (ms.reverse.map Prod.fst).Nodup := (hreverse.map _).nodup_iff.mpr hnodup
  refine Option.ext fun v ↦ ?_
  rw [member, lookup_eq_some_iff_mem hnodup', lookup_eq_some_iff_mem hnodup, hreverse.mem_iff]

theorem sizeMembers_perm (h : ms.Perm ms') : sizeMembers ms = sizeMembers ms' := by
  induction h with
  | nil => rfl
  | cons m _ ih => rw [sizeMembers, sizeMembers, ih]
  | swap m m' ms =>
    simp only [sizeMembers]
    omega
  | trans _ _ ih ih' => exact ih.trans ih'

theorem sizeMembers_le_of_sublist (h : ms.Sublist ms') : sizeMembers ms ≤ sizeMembers ms' := by
  induction h with
  | slnil => exact le_rfl
  | cons m _ ih =>
    rw [sizeMembers]
    omega
  | cons_cons m _ ih =>
    rw [sizeMembers, sizeMembers]
    omega

/-- An object is at least as long as members of it with different keys. -/
theorem sizeMembers_le_of_subset (hnodup : (ms.map Prod.fst).Nodup) (hsub : ms ⊆ ms') :
    sizeMembers ms ≤ sizeMembers ms' := by
  obtain ⟨l, hperm, hsublist⟩ := List.subperm_of_subset (List.Nodup.of_map _ hnodup) hsub
  rw [← sizeMembers_perm hperm]
  exact sizeMembers_le_of_sublist hsublist

end

/-! ## Texts that are read back -/

/-- The text is read as the value, whatever follows. -/
def ReadAs (text : List Char) (v : Json) : Prop :=
  ∀ fuel rest, value (fuel + 1) (text ++ rest) = some (v, rest)

/-- White space is what begins with it. -/
theorem skip_cons (hc : [' ', '\t', '\n', '\r'].contains c = false) (text : List Char) :
    skip (c :: text) = c :: text :=
  List.dropWhile_cons_of_neg (by simpa using hc)

theorem expect_self (hc : [' ', '\t', '\n', '\r'].contains c = false) (text : List Char) :
    expect c (c :: text) = some text := by
  rw [expect, skip_cons hc]
  exact if_pos rfl

theorem expect_of_ne {d : Char} (hc : [' ', '\t', '\n', '\r'].contains c = false) (hne : c ≠ d)
    (text : List Char) : expect d (c :: text) = none := by
  rw [expect, skip_cons hc]
  exact if_neg hne

theorem readAs_string (h : dialect.Plain body) :
    ReadAs ('"' :: (body ++ ['"'])) (string (units body)) := by
  intro fuel rest
  rw [List.cons_append, List.append_assoc, List.singleton_append, value, skip_cons (by decide),
    Dialect.string_plain h]

/-- A text that begins with a letter is an atom. -/
theorem value_of_atom (hc : c.isAlpha = true) (text : List Char) :
    value (fuel + 1) (c :: text) = atom (c :: text) := by
  have hne : ∀ d : Char, d.isAlpha = false → c ≠ d := by
    rintro d hd rfl
    exact Bool.false_ne_true (hd.symm.trans hc)
  have hspace : [' ', '\t', '\n', '\r'].contains c = false := by
    rw [Bool.eq_false_iff, ne_eq, List.contains_iff_mem]
    simp only [List.mem_cons, List.not_mem_nil, or_false, not_or]
    exact ⟨hne ' ' (by decide), hne '\t' (by decide), hne '\n' (by decide), hne '\r' (by decide)⟩
  have hstring : dialect.string (c :: text) = none := by
    rw [Dialect.string, if_neg (hne '"' (by decide))]
  rw [value, skip_cons hspace, hstring, expect_of_ne hspace (hne '{' (by decide)),
    expect_of_ne hspace (hne '[' (by decide))]

theorem readAs_true : ReadAs trueWord (boolean true) := by
  intro fuel rest
  have hword : trueWord ++ rest = 't' :: ("rue".toList ++ rest) := rfl
  rw [hword, value_of_atom (by decide), ← hword, atom,
    if_pos (List.isPrefixOf_iff_prefix.mpr (List.prefix_append _ _))]
  rfl

theorem readAs_false : ReadAs falseWord (boolean false) := by
  intro fuel rest
  have hword : falseWord ++ rest = 'f' :: ("alse".toList ++ rest) := rfl
  rw [hword, value_of_atom (by decide), ← hword, atom, if_neg,
    if_pos (List.isPrefixOf_iff_prefix.mpr (List.prefix_append _ _))]
  · rfl
  · exact Bool.false_ne_true

/-- The text of a member. -/
def memberText (key text : List Char) : List Char := '"' :: (key ++ ['"', ':'] ++ text)

variable {key : List Char} {ms : List (List ℕ × Json)}

theorem members_cons (hkey : dialect.Plain key) (hvalue : ReadAs text v)
    (hrest : members (fuel + 1) body = some (ms, rest)) :
    members (fuel + 2) (memberText key text ++ ',' :: body)
      = some ((units key, v) :: ms, rest) := by
  have htext : memberText key text ++ ',' :: body
      = '"' :: (key ++ '"' :: ':' :: (text ++ ',' :: body)) := by simp [memberText]
  rw [htext, members, skip_cons (by decide), Dialect.string_plain hkey]
  simp only [Option.bind_eq_bind, Option.bind_some]
  rw [expect_self (by decide), Option.bind_some, hvalue, Option.bind_some]
  dsimp only
  rw [expect_self (by decide)]
  dsimp only
  rw [hrest]
  rfl

theorem members_last (hkey : dialect.Plain key) (hvalue : ReadAs text v) (rest : List Char) :
    members (fuel + 2) (memberText key text ++ '}' :: rest) = some ([(units key, v)], rest) := by
  have htext : memberText key text ++ '}' :: rest
      = '"' :: (key ++ '"' :: ':' :: (text ++ '}' :: rest)) := by simp [memberText]
  rw [htext, members, skip_cons (by decide), Dialect.string_plain hkey]
  simp only [Option.bind_eq_bind, Option.bind_some]
  rw [expect_self (by decide), Option.bind_some, hvalue, Option.bind_some]
  dsimp only
  rw [expect_of_ne (by decide) (by decide), expect_self (by decide)]
  rfl

/-- An object whose members are read. -/
theorem value_object (hmembers : members fuel text = some (ms, rest)) :
    value (fuel + 1) ('{' :: text) = some (object ms, rest) := by
  have hstring : dialect.string ('{' :: text) = none := rfl
  -- Members begin with a quote, so the object is not empty.
  have hclose : expect '}' text = none := by
    cases fuel with
    | zero => exact absurd hmembers (by simp [members])
    | succ fuel =>
      rw [members] at hmembers
      obtain ⟨⟨key, rest'⟩, hkey, -⟩ := Option.bind_eq_some_iff.mp hmembers
      obtain ⟨body, hskip, -⟩ := Dialect.spells_of_string hkey
      rw [expect, hskip]
      exact if_neg (by decide)
  rw [value, skip_cons (by decide), hstring, expect_self (by decide)]
  dsimp only
  rw [hclose, hmembers]
  rfl

/-- A text that is one value. -/
theorem parse_of_value (h : value (text.length + 1) text = some (v, [])) : parse text = some v := by
  rw [parse, h]
  rfl

end

end Json
