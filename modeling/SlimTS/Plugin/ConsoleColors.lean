import Mathlib.Data.List.TakeWhile
import SlimTS.Plugin.ConsoleCopy

/-!
# The colours a script may set

A script may set a colour to any string. Three kinds of strings mean one: the names of the table,
the numbers up to 255, and three such numbers between semicolons. `colorize` asks for a name first.
What is no name goes to `stoi`, which throws if the text does not begin with a number, and which
takes everything that begins with one for a number. The regular expression is reached by numbers
below zero only, which it does not match, so three numbers never set a colour as such.

`colorize_expected_iff` says which pairs of colours are rendered as they should be: each of the two
is a name, or a number up to 255, or begins with a number below zero and so sets nothing.
-/

namespace SlimTS

/-! ## What a colour should cause -/

/-- A number up to 255. -/
def isColorCode (color : Str) : Bool :=
  isColorNumber color && decide (Nat.ofDigitChars 10 color 0 ≤ 255)

/-- Three such numbers. -/
def isColorTriple (color : Str) : Bool :=
  (color.splitOn ';').length = 3 && (color.splitOn ';').all isColorCode

/-- The sequence a colour should cause. -/
def expectedSequence (table : List (Str × ℕ)) (index rgb color : Str) : Str :=
  match table.lookup color with
  | some code => escape ++ (Nat.toDigits 10 code ++ ['m'])
  | none =>
    if isColorCode color then escape ++ (index ++ (color ++ ['m']))
    else if isColorTriple color then escape ++ (rgb ++ (color ++ ['m']))
    else []

/-- The sequence a text colour should cause. -/
def expectedText (color : Str) : Str :=
  expectedSequence textColors "38;5;".toList "38;2;".toList color

/-- The sequence a background colour should cause. -/
def expectedBackground (color : Str) : Str :=
  expectedSequence backgroundColors "48;5;".toList "48;2;".toList color

/-- A colour is rendered as it should be: it is a name, a number up to 255, or a text that begins
with a number below zero. -/
def Rendered (table : List (Str × ℕ)) (color : Str) : Prop :=
  (table.lookup color).isSome = true ∨ isColorCode color = true ∨ ∃ n, stoi color = .ok n ∧ n < 0

variable {table : List (Str × ℕ)} {index rgb color tc bg : Str} {bound : ℕ}

/-! ## Kinds and expectations -/

/-- A number up to 255 is read as a number that is not below zero. -/
theorem stoi_of_isColorCode (h : isColorCode color = true) :
    ∃ n, stoi color = .ok n ∧ 0 ≤ n := by
  rw [isColorCode, isColorNumber, Bool.and_eq_true, Bool.and_eq_true, Bool.and_eq_true,
    decide_eq_true_eq, decide_eq_true_eq, decide_eq_true_eq] at h
  obtain ⟨⟨⟨hdigits, hlength⟩, -⟩, hle⟩ := h
  obtain ⟨c, text, rfl⟩ := List.exists_cons_of_length_pos hlength
  have hc : c.isDigit = true := List.all_eq_true.mp hdigits c List.mem_cons_self
  have htake : (c :: text).takeWhile Char.isDigit = c :: text :=
    List.takeWhile_eq_self_iff.mpr (List.all_eq_true.mp hdigits)
  rw [stoi_eq_stoiDigits hc, stoiDigits, htake, if_neg (List.cons_ne_nil _ _)]
  refine ⟨_, if_pos ⟨?_, ?_⟩, ?_⟩ <;> omega

theorem isRgb_of_isColorCode (h : isColorCode color = true) : isRgb color = false := by
  rw [isColorCode, isColorNumber, Bool.and_eq_true, Bool.and_eq_true, Bool.and_eq_true] at h
  have hmem : ';' ∉ color := fun hmem ↦
    absurd (List.all_eq_true.mp h.1.1.1 ';' hmem) (by decide)
  rw [isRgb, List.splitOn_eq_singleton hmem]
  rfl

/-- Three numbers up to 255 are three numbers. -/
theorem isRgb_of_isColorTriple (h : isColorTriple color = true) : isRgb color = true := by
  rw [isColorTriple, Bool.and_eq_true, List.all_eq_true] at h
  rw [isRgb, Bool.and_eq_true, List.all_eq_true]
  exact ⟨h.1, fun piece hpiece ↦ (Bool.and_eq_true _ _ ▸ h.2 piece hpiece).1⟩

/-- A text that begins with a number below zero is no three numbers. -/
theorem isRgb_of_stoi_neg {n : ℤ} (h : stoi color = .ok n) (hn : n < 0) : isRgb color = false := by
  rw [Bool.eq_false_iff]
  intro hrgb
  obtain ⟨c, text, rfl, hc⟩ := isDigit_of_isRgb hrgb
  rcases stoi_of_isDigit hc text with hstoi | ⟨m, hm, hstoi⟩
  · exact absurd (h.symm.trans hstoi) (by simp)
  · have := Except.ok.inj (h.symm.trans hstoi)
    omega

theorem colorKind_of_lookup (htable : ∀ entry ∈ table, bound < entry.2) {code : ℕ}
    (h : table.lookup color = some code) : colorKind table bound color = .code code := by
  obtain ⟨before, after, hlist, -⟩ := List.lookup_eq_some_iff.mp h
  have hcode : bound < code :=
    htable (color, code) (hlist ▸ List.mem_append_right _ List.mem_cons_self)
  rw [colorKind, h, Option.getD_some, if_pos hcode]

section

variable (hlookup : table.lookup color = none)

include hlookup

theorem colorKind_of_error {e : StoiError} (h : stoi color = .error e) :
    colorKind table bound color = .fault e := by
  rw [colorKind, hlookup, Option.getD_none, if_neg (Nat.not_lt_zero _), h]

theorem colorKind_of_nonneg {n : ℤ} (h : stoi color = .ok n) (hn : 0 ≤ n) :
    colorKind table bound color = .index := by
  rw [colorKind, hlookup, Option.getD_none, if_neg (Nat.not_lt_zero _), h]
  exact if_pos (by omega)

theorem colorKind_of_neg {n : ℤ} (h : stoi color = .ok n) (hn : n < 0) :
    colorKind table bound color = .unset := by
  rw [colorKind, hlookup, Option.getD_none, if_neg (Nat.not_lt_zero _), h]
  exact if_neg (by omega)

end

/-- A colour that is rendered as it should be does not throw, and causes the sequence it should. -/
theorem kindSequence_of_rendered (htable : ∀ entry ∈ table, bound < entry.2)
    (h : Rendered table color) : (∀ e, colorKind table bound color ≠ .fault e) ∧
      kindSequence index color (colorKind table bound color)
        = expectedSequence table index rgb color := by
  rcases hlookup : table.lookup color with - | code
  · rw [expectedSequence, hlookup]
    simp only
    by_cases hcode : isColorCode color = true
    · obtain ⟨n, hstoi, hn⟩ := stoi_of_isColorCode hcode
      rw [colorKind_of_nonneg hlookup hstoi hn, if_pos hcode]
      exact ⟨fun e he ↦ absurd he (by simp), rfl⟩
    · obtain ⟨n, hstoi, hn⟩ : ∃ n, stoi color = .ok n ∧ n < 0 :=
        (h.resolve_left (by simp [hlookup])).resolve_left hcode
      have htriple : ¬isColorTriple color = true := fun htriple ↦
        Bool.false_ne_true
          ((isRgb_of_stoi_neg hstoi hn).symm.trans (isRgb_of_isColorTriple htriple))
      rw [colorKind_of_neg hlookup hstoi hn, if_neg hcode, if_neg htriple]
      exact ⟨fun e he ↦ absurd he (by simp), rfl⟩
  · rw [colorKind_of_lookup htable hlookup, expectedSequence, hlookup]
    exact ⟨fun e he ↦ absurd he (by simp), rfl⟩

/-- Any other colour throws, or it is taken for a number. -/
theorem colorKind_of_not_rendered (h : ¬Rendered table color) :
    ((∃ e, colorKind table bound color = .fault e) ∨ colorKind table bound color = .index) ∧
      expectedSequence table index rgb color
        = if isColorTriple color then escape ++ (rgb ++ (color ++ ['m'])) else [] := by
  rw [Rendered, not_or, not_or, Bool.not_eq_true, Option.isSome_eq_false_iff,
    Option.isNone_iff_eq_none] at h
  obtain ⟨hlookup, hcode, hneg⟩ := h
  refine ⟨?_, by rw [expectedSequence, hlookup]; exact if_neg hcode⟩
  rcases hstoi : stoi color with e | n
  · exact .inl ⟨e, colorKind_of_error hlookup hstoi⟩
  · refine .inr (colorKind_of_nonneg hlookup hstoi ?_)
    by_contra hn
    exact hneg ⟨n, hstoi, by omega⟩

/-! ## The two colours together -/

theorem textColors_bound : ∀ entry ∈ textColors, 29 < entry.2 := by decide

theorem backgroundColors_bound : ∀ entry ∈ backgroundColors, 38 < entry.2 := by decide

/-- A text colour that is rendered as it should be is no three numbers, so the background sequence
does not depend on it. -/
theorem backgroundPart_of_rendered (h : Rendered textColors tc) (bg : Str) :
    backgroundPart bg tc = kindSequence "48;5;".toList bg (backgroundKind bg) := by
  have hrgb : isRgb tc = false := by
    rcases h with h | h | ⟨n, hstoi, hn⟩
    · obtain ⟨code, hcode⟩ := Option.isSome_iff_exists.mp h
      exact isRgb_of_code (colorKind_of_lookup textColors_bound hcode)
    · exact isRgb_of_isColorCode h
    · exact isRgb_of_stoi_neg hstoi hn
  rw [backgroundPart, if_neg]
  rw [hrgb]
  simp

/-- The third character of a background sequence is not that of a text colour. -/
theorem expectedBackground_getElem (bg : Str) : (expectedBackground bg)[2]? ≠ some '3' := by
  rw [expectedBackground, expectedSequence]
  rcases hlookup : backgroundColors.lookup bg with - | code
  · simp only
    split
    · simp [escape]
    · split <;> simp [escape]
  · have hcodes : ∀ entry ∈ backgroundColors,
        (escape ++ (Nat.toDigits 10 entry.2 ++ ['m']))[2]? ≠ some '3' := by decide
    obtain ⟨before, after, hlist, -⟩ := List.lookup_eq_some_iff.mp hlookup
    exact hcodes (bg, code) (hlist ▸ List.mem_append_right _ List.mem_cons_self)

/-- A text colour that is taken for a number by mistake shows in the sequences. -/
theorem index_ne_expected (h : ¬Rendered textColors tc) (bg x : Str) :
    kindSequence "38;5;".toList tc .index ++ x ≠ expectedText tc ++ expectedBackground bg := by
  have hexpected := (@colorKind_of_not_rendered textColors "38;5;".toList "38;2;".toList tc 29 h).2
  rw [expectedText, hexpected]
  intro heq
  split at heq
  · have hsixth := congrArg (fun text ↦ text[5]?) heq
    simp [kindSequence, escape] at hsixth
  · have hthird := congrArg (fun text ↦ text[2]?) heq
    refine expectedBackground_getElem bg ?_
    rw [List.nil_append] at hthird
    rw [← hthird]
    simp [kindSequence, escape]

theorem background_index_ne_expected (h : ¬Rendered backgroundColors bg) :
    kindSequence "48;5;".toList bg .index ≠ expectedBackground bg := by
  have hexpected :=
    (@colorKind_of_not_rendered backgroundColors "48;5;".toList "48;2;".toList bg 38 h).2
  rw [expectedBackground, hexpected]
  intro heq
  split at heq
  · have hsixth := congrArg (fun text ↦ text[5]?) heq
    simp [kindSequence, escape] at hsixth
  · exact absurd heq (by simp [kindSequence, escape])

/-- **The two sequences** are the ones there should be if and only if both colours are rendered as
they should be. -/
theorem colorSequences_eq_expected_iff (bg tc : Str) :
    colorSequences bg tc = .ok (expectedText tc ++ expectedBackground bg) ↔
      Rendered textColors tc ∧ Rendered backgroundColors bg := by
  constructor
  · intro heq
    have hraises : ∀ e, ¬Raises bg tc e := fun e he ↦ by
      rw [colorSequences_of_raises he] at heq
      cases heq
    have htext : ∀ e, textKind tc ≠ .fault e := fun e he ↦ hraises e (.inl he)
    rw [colorSequences_of_not_raises hraises, Except.ok.injEq] at heq
    have htc : Rendered textColors tc := by
      by_contra hnot
      rcases (@colorKind_of_not_rendered _ [] [] tc 29 hnot).1 with ⟨e, he⟩ | hindex
      · exact htext e he
      · rw [textKind, hindex] at heq
        exact index_ne_expected hnot bg _ heq
    refine ⟨htc, ?_⟩
    have hkind : kindSequence "38;5;".toList tc (textKind tc) = expectedText tc :=
      (kindSequence_of_rendered textColors_bound htc).2
    rw [hkind, backgroundPart_of_rendered htc] at heq
    -- The text colour is rendered, so what is left on both sides is the background.
    have hbackground := List.append_cancel_left heq
    by_contra hnot
    rcases (@colorKind_of_not_rendered _ [] [] bg 38 hnot).1 with ⟨e, he⟩ | hindex
    · exact hraises e (.inr ⟨htext, he⟩)
    · rw [backgroundKind, hindex] at hbackground
      exact background_index_ne_expected hnot hbackground
  · rintro ⟨htc, hbg⟩
    obtain ⟨htext, htextSequence⟩ := @kindSequence_of_rendered _ "38;5;".toList "38;2;".toList _ _
      textColors_bound htc
    obtain ⟨hback, hbackSequence⟩ := @kindSequence_of_rendered _ "48;5;".toList "48;2;".toList _ _
      backgroundColors_bound hbg
    have hraises : ∀ e, ¬Raises bg tc e := by
      rintro e (he | ⟨-, he⟩)
      · exact htext e he
      · exact hback e he
    rw [colorSequences_of_not_raises hraises, backgroundPart_of_rendered htc, textKind,
      backgroundKind, htextSequence, hbackSequence]
    rfl

/-- **Which colours are rendered as they should be.** `colorize` of a level that is shown returns,
for every text, the attributes, the two sequences the colours should cause, the text and the reset
sequence, if and only if each of the two colours is a name, a number up to 255, or a text that
begins with a number below zero. -/
theorem colorize_expected_iff {m : BaseConfiguration} (h : m.shown = true) :
    (∀ text, colorize m text = .ok (attributeSequences m ++
        ((expectedText m.textColor ++ expectedBackground m.backgroundColor) ++
          (text ++ (escape ++ ['0', 'm']))))) ↔
      Rendered textColors m.textColor ∧ Rendered backgroundColors m.backgroundColor := by
  rw [← colorSequences_eq_expected_iff]
  constructor
  · intro hall
    have hnil := hall []
    rw [colorize_of_shown h] at hnil
    refine Except.map_injective (f := fun sequence ↦ attributeSequences m ++
      (sequence ++ ([] ++ (escape ++ ['0', 'm'])))) (fun a b hab ↦ ?_) hnil
    exact List.append_cancel_right (List.append_cancel_left hab)
  · intro heq text
    rw [colorize_of_shown h, heq]
    rfl

/-- A level in red, on a background that sets nothing. -/
def redLevel : BaseConfiguration := { textColor := "red".toList, backgroundColor := "-1".toList }

theorem colorize_expected_iff_redLevel :
    (∀ text, colorize redLevel text = .ok (attributeSequences redLevel ++
        ((expectedText redLevel.textColor ++ expectedBackground redLevel.backgroundColor) ++
          (text ++ (escape ++ ['0', 'm']))))) ↔
      Rendered textColors redLevel.textColor ∧ Rendered backgroundColors redLevel.backgroundColor :=
  colorize_expected_iff rfl

/-- A colour that is no name and no number makes `colorize` throw. -/
theorem colorize_purple :
    colorize { textColor := "purple".toList } "x".toList = .error .invalidArgument := by decide

end SlimTS
