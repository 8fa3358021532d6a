import SlimTS.Library.Quoted

/-!
# JavaScript string literals

String literals between double quotes, as strict code has them: the line ends LF and CR stand only
in a line continuation, a digit stands behind a backslash only as the zero that no digit follows,
and what `\x` and `\u` begin has to be hexadecimal.
-/

namespace StringLiteral

open Quoted

/-- `LineTerminator`. -/
def lineTerminators : List Char := ['\n', '\r', '\u2028', '\u2029']

/-- The values of `SingleEscapeCharacter` that are not the character itself. -/
def singleEscapes : List (Char × ℕ) :=
  [('b', 0x8), ('t', 0x9), ('n', 0xA), ('v', 0xB), ('f', 0xC), ('r', 0xD)]

/-- The digits of a code point between braces. -/
def bracedDigits (text : List Char) : List Char := (text.drop 1).takeWhile (· ≠ '}')

/-- `UnicodeEscapeSequence`, behind the `u`. -/
def unicodeEscape (text : List Char) : Option (List ℕ × ℕ) :=
  if text.head? = some '{' then
    if bracedDigits text ≠ [] ∧ (bracedDigits text).length + 2 ≤ text.length then do
      let n ← hexNumber (bracedDigits text)
      if n ≤ 0x10FFFF then some (codePoint n, (bracedDigits text).length + 3) else none
    else none
  else (fixedHex 4 text).map fun n ↦ ([n], 5)

/-- What follows a backslash. -/
def escape : List Char → Option (List ℕ × ℕ)
  | [] => none
  | c :: text =>
    if c = 'x' then (fixedHex 2 text).map fun n ↦ ([n], 3)
    else if c = 'u' then unicodeEscape text
    else if c = '0' then if text.head?.any Char.isDigit then none else some ([0], 1)
    else if c.isDigit then none
    else if c = '\r' ∧ text.head? = some '\n' then some ([], 2)
    else if lineTerminators.contains c then some ([], 1)
    else match singleEscapes.lookup c with
      | some n => some ([n], 1)
      | none => some (codePoint c.toNat, 1)

/-! ## The laws -/

variable {text body digits : List Char} {us : List ℕ} {n k m : ℕ} {c : Char}

/-- What ends the digits between braces. -/
theorem exists_eq_takeWhile_append (h : (text.takeWhile (· ≠ '}')).length < text.length) :
    ∃ rest, text = text.takeWhile (· ≠ '}') ++ '}' :: rest := by
  induction text with
  | nil => exact absurd h (Nat.not_lt_zero _)
  | cons d text ih =>
    by_cases hd : d = '}'
    · refine ⟨text, ?_⟩
      rw [List.takeWhile_cons_of_neg (by simp [hd]), hd, List.nil_append]
    · rw [List.takeWhile_cons_of_pos (by simp [hd])] at h ⊢
      obtain ⟨rest, hrest⟩ := ih (Nat.lt_of_succ_lt_succ h)
      exact ⟨rest, congrArg (d :: ·) hrest⟩

/-- The digits between braces, with the braces. -/
theorem take_bracedDigits (hhead : text.head? = some '{')
    (hlength : (bracedDigits text).length + 2 ≤ text.length) :
    text.take ((bracedDigits text).length + 2) = '{' :: (bracedDigits text ++ ['}']) := by
  obtain ⟨text, rfl⟩ := List.head?_eq_some_iff.mp hhead
  have hdigits : bracedDigits ('{' :: text) = text.takeWhile (· ≠ '}') := rfl
  rw [hdigits] at hlength ⊢
  obtain ⟨rest, hrest⟩ := exists_eq_takeWhile_append (Nat.le_of_succ_le_succ hlength)
  generalize text.takeWhile (· ≠ '}') = digits at hrest ⊢
  rw [List.take_succ_cons, hrest, List.take_length_add_append, List.take_succ_cons, List.take_zero]

theorem lawful_unicodeEscape (hc : c ≠ '"') (h : unicodeEscape text = some (us, n)) :
    Lawful (c :: text) us n := by
  rw [unicodeEscape] at h
  split at h
  · next hhead =>
    split at h
    · next hdigits =>
      obtain ⟨hne, hlength⟩ := hdigits
      obtain ⟨m, hm, h⟩ := Option.bind_eq_some_iff.mp h
      split at h
      · obtain ⟨rfl, rfl⟩ := Prod.mk.inj (Option.some.inj h)
        refine Lawful.of_not_mem (Nat.succ_le_succ hlength) ?_ ?_
        · have hle := (length_codePoint m).2
          omega
        · rw [List.take_succ_cons, take_bracedDigits hhead hlength]
          simp only [List.mem_cons, List.mem_append, List.not_mem_nil, or_false, not_or]
          exact ⟨Ne.symm hc, by decide, quote_not_mem_of_hexNumber hm, by decide⟩
      · exact absurd h (by simp)
    · exact absurd h (by simp)
  · obtain ⟨m, hm, h⟩ := Option.map_eq_some_iff.mp h
    obtain ⟨rfl, rfl⟩ := Prod.mk.inj h
    exact lawful_fixedHex hc hm

theorem lawful_escape (h : escape text = some (us, n)) : Lawful text us n := by
  cases text with
  | nil => exact absurd h (by simp [escape])
  | cons c text =>
    rw [escape] at h
    by_cases hx : c = 'x'
    · rw [if_pos hx] at h
      obtain ⟨m, hm, h⟩ := Option.map_eq_some_iff.mp h
      obtain ⟨rfl, rfl⟩ := Prod.mk.inj h
      exact lawful_fixedHex (hx ▸ by decide) hm
    rw [if_neg hx] at h
    by_cases hu : c = 'u'
    · rw [if_pos hu] at h
      exact lawful_unicodeEscape (hu ▸ by decide) h
    rw [if_neg hu] at h
    have hone : 1 ≤ (c :: text).length := Nat.le_add_left 1 _
    have htake : (c :: text).take 1 = [c] := rfl
    by_cases hzero : c = '0'
    · rw [if_pos hzero] at h
      split at h
      · exact absurd h (by simp)
      · obtain ⟨rfl, rfl⟩ := Prod.mk.inj (Option.some.inj h)
        exact Lawful.of_not_mem hone le_rfl (by rw [htake, hzero]; decide)
    rw [if_neg hzero] at h
    split at h
    · exact absurd h (by simp)
    split at h
    · -- A line continuation with two line ends.
      next hreturn =>
      obtain ⟨rfl, rfl⟩ := Prod.mk.inj (Option.some.inj h)
      obtain ⟨rest, rfl⟩ := List.head?_eq_some_iff.mp hreturn.2
      refine Lawful.of_not_mem (Nat.le_add_left 2 _) (Nat.zero_le _) ?_
      rw [hreturn.1, List.take_succ_cons, List.take_succ_cons, List.take_zero]
      decide
    split at h
    · next hline =>
      obtain ⟨rfl, rfl⟩ := Prod.mk.inj (Option.some.inj h)
      refine Lawful.of_not_mem hone (Nat.zero_le _) ?_
      rw [htake, List.mem_singleton]
      rintro rfl
      exact absurd hline (by decide)
    split at h
    · next hsingle =>
      obtain ⟨rfl, rfl⟩ := Prod.mk.inj (Option.some.inj h)
      refine Lawful.of_not_mem hone le_rfl ?_
      rw [htake, List.mem_singleton]
      rintro rfl
      have hnone : singleEscapes.lookup '"' = none := rfl
      exact absurd (hnone.symm.trans hsingle) (by simp)
    · obtain ⟨rfl, rfl⟩ := Prod.mk.inj (Option.some.inj h)
      have hunits : units [c] = codePoint c.toNat := List.append_nil _
      refine ⟨hone, ?_, ?_⟩
      · rw [htake, hunits]
      · rw [htake, ← hunits, count_units]

/-- The string literals of JavaScript between double quotes, in strict code. -/
def dialect : Dialect where
  forbidden c := c = '\n' ∨ c = '\r'
  escape := escape
  lawful := lawful_escape

/-- The value of a text that is a string literal. -/
def value (literal : List Char) : Option (List ℕ) := do
  let (us, rest) ← dialect.string literal
  guard (rest = [])
  return us

example : value "\"\\u{1F600}a\\x41\\\n\\\"\"".toList
    = some [0xD83D, 0xDE00, 0x61, 0x41, 0x22] := by
  decide

/-- A plain text between quotes is a literal with that text as its value. -/
theorem value_plain (h : dialect.Plain body) :
    value ('"' :: (body ++ ['"'])) = some (units body) := by
  rw [value, Dialect.string_plain h]
  rfl

/-- A text between quotes that is a literal spells its value. -/
theorem spells_of_value (h : value ('"' :: (body ++ ['"'])) = some us) :
    dialect.Spells body us := by
  obtain ⟨⟨us', rest⟩, hstring, h⟩ := Option.bind_eq_some_iff.mp h
  obtain ⟨_, hguard, h⟩ := Option.bind_eq_some_iff.mp h
  have hrest : rest = [] := by
    by_contra hne
    exact absurd hguard (by simp [guard, hne])
  obtain ⟨body', heq, hspells⟩ := Dialect.spells_of_string hstring
  rw [hrest, List.cons.injEq] at heq
  rw [← Option.some.inj h, List.append_cancel_right heq.2]
  exact hspells

end StringLiteral
