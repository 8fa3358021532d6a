import Mathlib.Algebra.Order.Group.Nat
import Mathlib.Data.List.Basic

/-!
# Strings between double quotes

How a language writes its strings between double quotes is a `Dialect`: which characters may not
stand for themselves, and what the escape sequences behind a backslash stand for. The value of a
string is a sequence of UTF-16 code units. A dialect brings two laws: an escape sequence has no more
code units than characters have, and a quote in it stands for a quote.

So a string has no more code units than its text, and as many only if it is `Plain`, written without
escapes; and no fewer quotes.
-/

namespace Quoted

/-! ## Code units -/

/-- The UTF-16 code units of a code point. -/
def codePoint (n : ℕ) : List ℕ :=
  if n < 0x10000 then [n] else [0xD800 + (n - 0x10000) / 0x400, 0xDC00 + (n - 0x10000) % 0x400]

/-- The UTF-16 code units of a text. -/
def units (text : List Char) : List ℕ := text.flatMap fun c ↦ codePoint c.toNat

/-- The code unit of the quote. -/
def quoteUnit : ℕ := 0x22

/-- The value of a hexadecimal digit. -/
def hexDigit (c : Char) : Option ℕ :=
  if c.isDigit then some (c.toNat - '0'.toNat)
  else if 'a' ≤ c ∧ c ≤ 'f' then some (c.toNat - 'a'.toNat + 10)
  else if 'A' ≤ c ∧ c ≤ 'F' then some (c.toNat - 'A'.toNat + 10)
  else none

/-- The value of a hexadecimal numeral. -/
def hexNumber (digits : List Char) : Option ℕ :=
  digits.foldlM (fun n c ↦ (hexDigit c).map (16 * n + ·)) 0

/-- Hexadecimal digits, as many as are asked for. -/
def fixedHex (k : ℕ) (text : List Char) : Option ℕ :=
  if k ≤ text.length then hexNumber (text.take k) else none

section

variable {text : List Char} {n : ℕ}

@[simp] theorem units_nil : units [] = [] := rfl

theorem units_cons (c : Char) (text : List Char) :
    units (c :: text) = codePoint c.toNat ++ units text := List.flatMap_cons ..

theorem units_append (a b : List Char) : units (a ++ b) = units a ++ units b :=
  List.flatMap_append ..

theorem length_codePoint (n : ℕ) : 1 ≤ (codePoint n).length ∧ (codePoint n).length ≤ 2 := by
  rw [codePoint]
  split
  · exact ⟨le_rfl, Nat.le_succ 1⟩
  · exact ⟨Nat.le_succ 1, le_rfl⟩

theorem length_le_length_units (text : List Char) : text.length ≤ (units text).length := by
  induction text with
  | nil => exact le_rfl
  | cons c text ih =>
    have hpos := (length_codePoint c.toNat).1
    rw [units_cons, List.length_append, List.length_cons]
    omega

/-- A character is a quote when its code units hold one. -/
theorem count_codePoint (n : ℕ) : (codePoint n).count quoteUnit = if n = 0x22 then 1 else 0 := by
  rw [codePoint, quoteUnit]
  split
  · rw [List.count_singleton]
    simp only [beq_iff_eq]
  · rw [if_neg (by omega), List.count_eq_zero]
    simp only [List.mem_cons, List.not_mem_nil, or_false]
    omega

/-- The quotes of a text are those of its code units. -/
theorem count_units (text : List Char) : (units text).count quoteUnit = text.count '"' := by
  induction text with
  | nil => rfl
  | cons c text ih =>
    have hquote : c.toNat = 0x22 ↔ c = '"' := (Char.toNat_inj (d := '"')).trans Iff.rfl
    rw [units_cons, List.count_append, ih, count_codePoint, List.count_cons, Nat.add_comm]
    simp only [hquote, beq_iff_eq]

end

/-! ## Escape sequences -/

/-- What holds of an escape sequence. -/
structure Lawful (text : List Char) (us : List ℕ) (n : ℕ) : Prop where
  length_le : n ≤ text.length
  units_le : us.length ≤ (units (text.take n)).length
  count_le : (text.take n).count '"' ≤ us.count quoteUnit

section

variable {text digits : List Char} {us : List ℕ} {n k m : ℕ} {c : Char}

/-- A sequence without quotes that has no more code units than characters. -/
theorem Lawful.of_not_mem (hlength : n ≤ text.length) (hunits : us.length ≤ n)
    (hquote : '"' ∉ text.take n) : Lawful text us n := by
  refine ⟨hlength, ?_, ?_⟩
  · have hle := length_le_length_units (text.take n)
    rw [List.length_take] at hle
    omega
  · rw [List.count_eq_zero.mpr hquote]
    exact Nat.zero_le _

theorem isSome_hexDigit_of_foldlM (h : digits.foldlM (fun n c ↦ (hexDigit c).map (16 * n + ·)) m
    = some n) (hc : c ∈ digits) : (hexDigit c).isSome := by
  induction digits generalizing m with
  | nil => exact absurd hc List.not_mem_nil
  | cons d digits ih =>
    rw [List.foldlM_cons] at h
    obtain ⟨m', hdigit, hrest⟩ := Option.bind_eq_some_iff.mp h
    rcases List.mem_cons.mp hc with rfl | hc
    · obtain ⟨k, hk, -⟩ := Option.map_eq_some_iff.mp hdigit
      rw [hk]
      rfl
    · exact ih hrest hc

/-- No quote stands in a hexadecimal numeral. -/
theorem quote_not_mem_of_hexNumber (h : hexNumber digits = some n) : '"' ∉ digits :=
  fun hmem ↦ absurd (isSome_hexDigit_of_foldlM h hmem) (by decide)

theorem lawful_fixedHex (hc : c ≠ '"') (h : fixedHex k text = some n) :
    Lawful (c :: text) [n] (k + 1) := by
  rw [fixedHex] at h
  split at h
  · next hk =>
    refine Lawful.of_not_mem (Nat.succ_le_succ hk) (Nat.le_add_left 1 k) ?_
    rw [List.take_succ_cons, List.mem_cons, not_or]
    exact ⟨Ne.symm hc, quote_not_mem_of_hexNumber h⟩
  · exact absurd h (by simp)

end

/-! ## Strings -/

/-- A way to write strings between double quotes. -/
structure Dialect where
  /-- What may not stand for itself, apart from the quote and the backslash. -/
  forbidden : Char → Bool
  /-- The code units of the escape sequence behind a backslash, and how many characters it has. -/
  escape : List Char → Option (List ℕ × ℕ)
  lawful : ∀ {text us n}, escape text = some (us, n) → Lawful text us n

namespace Dialect

variable (d : Dialect)

/-- The code units up to the closing quote and the text behind it. The first argument is how many
characters of an escape sequence are still to be passed over. -/
def characters : ℕ → List Char → Option (List ℕ × List Char)
  | _, [] => none
  | skip + 1, _ :: text => characters skip text
  | 0, c :: text =>
    if c = '"' then some ([], text)
    else if c = '\\' then do
      let (us, n) ← d.escape text
      let (us', rest) ← characters n text
      return (us ++ us', rest)
    else if d.forbidden c then none
    else do
      let (us, rest) ← characters 0 text
      return (codePoint c.toNat ++ us, rest)

/-- The string a text begins with, and the text behind it. -/
def string : List Char → Option (List ℕ × List Char)
  | [] => none
  | c :: text => if c = '"' then d.characters 0 text else none

/-- Every character stands for itself. -/
def Plain (text : List Char) : Prop :=
  ∀ c ∈ text, c ≠ '"' ∧ c ≠ '\\' ∧ d.forbidden c = false

instance (text : List Char) : Decidable (d.Plain text) :=
  List.decidableBAll _ text

/-- What a string and its text have to do with each other. -/
structure Spells (body : List Char) (us : List ℕ) : Prop where
  length_le : us.length ≤ (units body).length
  count_le : body.count '"' ≤ us.count quoteUnit
  plain : us.length = (units body).length → d.Plain body

variable {d} {text body rest : List Char} {us us' : List ℕ} {n : ℕ} {c : Char}

theorem characters_skip (h : n ≤ text.length) :
    d.characters n text = d.characters 0 (text.drop n) := by
  induction text generalizing n with
  | nil =>
    obtain rfl : n = 0 := Nat.le_zero.mp h
    rfl
  | cons c text ih =>
    cases n with
    | zero => rfl
    | succ n =>
      rw [characters, List.drop_succ_cons]
      exact ih (Nat.le_of_succ_le_succ h)

theorem Plain.cons (hc : c ≠ '"' ∧ c ≠ '\\' ∧ d.forbidden c = false) (h : d.Plain text) :
    d.Plain (c :: text) :=
  List.forall_mem_cons.mpr ⟨hc, h⟩

/-- A plain text is read back. -/
theorem characters_plain (h : d.Plain body) (rest : List Char) :
    d.characters 0 (body ++ '"' :: rest) = some (units body, rest) := by
  induction body with
  | nil => rw [List.nil_append, characters, if_pos rfl, units_nil]
  | cons c body ih =>
    obtain ⟨⟨hquote, hbackslash, hforbidden⟩, hbody⟩ := List.forall_mem_cons.mp h
    rw [List.cons_append, characters, if_neg hquote, if_neg hbackslash, hforbidden,
      if_neg Bool.false_ne_true, ih hbody, units_cons]
    rfl

theorem string_plain (h : d.Plain body) (rest : List Char) :
    d.string ('"' :: (body ++ '"' :: rest)) = some (units body, rest) := by
  rw [string, if_pos rfl, characters_plain h]

theorem Spells.nil : d.Spells [] [] := ⟨le_rfl, le_rfl, fun _ ↦ by simp [Plain]⟩

theorem Spells.cons (hquote : c ≠ '"') (hbackslash : c ≠ '\\') (hforbidden : d.forbidden c = false)
    (h : d.Spells body us) : d.Spells (c :: body) (codePoint c.toNat ++ us) where
  length_le := by
    rw [units_cons, List.length_append, List.length_append]
    exact Nat.add_le_add_left h.length_le _
  count_le := by
    rw [List.count_cons_of_ne hquote, List.count_append]
    exact h.count_le.trans (Nat.le_add_left _ _)
  plain heq := by
    rw [units_cons, List.length_append, List.length_append] at heq
    exact (h.plain (Nat.add_left_cancel heq)).cons ⟨hquote, hbackslash, hforbidden⟩

/-- The backslash makes the text longer than the string. -/
theorem Spells.escape (hescape : d.escape text = some (us, n)) (h : d.Spells body us') :
    d.Spells ('\\' :: (text.take n ++ body)) (us ++ us') := by
  have hle := (d.lawful hescape).units_le
  have hlength := h.length_le
  have hpos := (length_codePoint '\\'.toNat).1
  refine ⟨?_, ?_, fun heq ↦ ?_⟩
  · rw [units_cons, units_append, List.length_append, List.length_append, List.length_append]
    omega
  · rw [List.count_cons_of_ne (by decide), List.count_append, List.count_append]
    exact Nat.add_le_add (d.lawful hescape).count_le h.count_le
  · rw [units_cons, units_append, List.length_append, List.length_append,
      List.length_append] at heq
    omega

/-- **What is read is spelled by its text**, and the closing quote follows. -/
theorem spells_of_characters (h : d.characters 0 text = some (us, rest)) :
    ∃ body, text = body ++ '"' :: rest ∧ d.Spells body us := by
  induction hlength : text.length using Nat.strong_induction_on generalizing text us with
  | _ _ ih =>
    cases text with
    | nil => exact absurd h (by simp [characters])
    | cons c text =>
      subst hlength
      rw [characters] at h
      by_cases hquote : c = '"'
      · rw [if_pos hquote, Option.some_inj, Prod.mk.injEq] at h
        exact ⟨[], by rw [hquote, h.2, List.nil_append], h.1 ▸ Spells.nil⟩
      -- An escape is longer than one character, hence the induction on the length.
      rw [if_neg hquote] at h
      by_cases hbackslash : c = '\\'
      · rw [if_pos hbackslash] at h
        obtain ⟨⟨us₁, n⟩, hescape, h⟩ := Option.bind_eq_some_iff.mp h
        obtain ⟨⟨us₂, rest'⟩, hrest, h⟩ := Option.bind_eq_some_iff.mp h
        obtain ⟨rfl, rfl⟩ := Prod.mk.inj (Option.some.inj h)
        rw [characters_skip (d.lawful hescape).length_le] at hrest
        obtain ⟨body, hbody, hspells⟩ := ih (text.drop n).length
          (by rw [List.length_drop, List.length_cons]; omega) hrest rfl
        refine ⟨'\\' :: (text.take n ++ body), ?_, hspells.escape hescape⟩
        rw [hbackslash, List.cons_append, List.append_assoc, ← hbody, List.take_append_drop]
      rw [if_neg hbackslash] at h
      split at h
      · exact absurd h (by simp)
      · next hforbidden =>
        obtain ⟨⟨us', rest'⟩, hrest, h⟩ := Option.bind_eq_some_iff.mp h
        obtain ⟨rfl, rfl⟩ := Prod.mk.inj (Option.some.inj h)
        obtain ⟨body, rfl, hspells⟩ := ih text.length (Nat.lt_succ_self _) hrest rfl
        exact ⟨c :: body, rfl, hspells.cons hquote hbackslash (Bool.not_eq_true _ ▸ hforbidden)⟩

/-- A string begins and ends with a quote. -/
theorem spells_of_string (h : d.string text = some (us, rest)) :
    ∃ body, text = '"' :: (body ++ '"' :: rest) ∧ d.Spells body us := by
  cases text with
  | nil => exact absurd h (by simp [string])
  | cons c text =>
    rw [string] at h
    split at h
    · next hquote =>
      obtain ⟨body, rfl, hspells⟩ := spells_of_characters h
      exact ⟨body, by rw [hquote], hspells⟩
    · exact absurd h (by simp)

end Dialect

end Quoted
