import Mathlib.Data.List.Basic
import SlimTS.Library.Quoted

/-!
# Texts in UTF-16 and in UTF-8

A text is a list of characters. In UTF-16 it is a sequence of code units; not every sequence of
units is one of a text, and reading one as a text puts something in the place of a surrogate that
has no partner, such as the replacement character. In UTF-8 it is a sequence of bytes, each of them
carried as the character with its number.

What a text is written as is read back (`toText_units`, `decode_encode`), and the text of no
characters but NUL is the one byte, and the one unit, zero; so cutting at the first zero is the same
in every representation.
-/

namespace Utf

/-! ## UTF-16 -/

/-- The units of a character. -/
def unitsOf (c : Char) : List UInt16 := (Quoted.codePoint c.toNat).map UInt16.ofNat

/-- The units of a text. -/
def units (text : List Char) : List UInt16 := text.flatMap unitsOf

/-- A surrogate that begins a pair. -/
def isHigh (u : UInt16) : Bool := 0xD800 ≤ u.toNat && u.toNat < 0xDC00

/-- A surrogate that ends a pair. -/
def isLow (u : UInt16) : Bool := 0xDC00 ≤ u.toNat && u.toNat < 0xE000

/-- What stands for a surrogate without its partner. -/
def replacement : Char := '\uFFFD'

/-- The text of a unit that is in no pair, with a text for each surrogate. -/
def single (surrogate : UInt16 → List Char) (u : UInt16) : List Char :=
  if isHigh u || isLow u then surrogate u else [Char.ofNat u.toNat]

/-- The character of a pair. -/
def pair (u v : UInt16) : Char :=
  Char.ofNat (0x10000 + (u.toNat - 0xD800) * 0x400 + (v.toNat - 0xDC00))

/-- A sequence of units as a text, with a text for each surrogate without its partner. -/
def repaired (surrogate : UInt16 → List Char) : List UInt16 → List Char
  | [] => []
  | [u] => single surrogate u
  | u :: v :: rest =>
    if isHigh u && isLow v then pair u v :: repaired surrogate rest
    else single surrogate u ++ repaired surrogate (v :: rest)

/-- A sequence of units as a text. -/
def toText (s : List UInt16) : List Char := repaired (fun _ ↦ [replacement]) s

/-- The units are those of a text: no surrogate is without its partner. -/
def WellFormed (s : List UInt16) : Prop := units (toText s) = s

instance (s : List UInt16) : Decidable (WellFormed s) := inferInstanceAs (Decidable (_ = _))

variable {c : Char} {text : List Char} {s : List UInt16} {surrogate : UInt16 → List Char}

@[simp] theorem units_nil : units [] = [] := rfl

@[simp] theorem units_cons (c : Char) (text : List Char) :
    units (c :: text) = unitsOf c ++ units text := List.flatMap_cons ..

theorem units_append (text text' : List Char) : units (text ++ text') = units text ++ units text' :=
  List.flatMap_append ..

/-- A unit that is no surrogate is a character. -/
theorem repaired_cons_of_not_high {u : UInt16} (h : isHigh u = false) (rest : List UInt16) :
    repaired surrogate (u :: rest) = single surrogate u ++ repaired surrogate rest := by
  cases rest with
  | nil => rw [repaired, repaired, List.append_nil]
  | cons v rest => rw [repaired, h, Bool.false_and, if_neg Bool.false_ne_true]

/-- The number of a character is that of no surrogate. -/
theorem toNat_range (c : Char) :
    c.toNat < 0xD800 ∨ 0xDFFF < c.toNat ∧ c.toNat < 0x110000 := c.valid

/-- A character is read off the front. -/
theorem repaired_unitsOf_append (c : Char) (rest : List UInt16) :
    repaired surrogate (unitsOf c ++ rest) = c :: repaired surrogate rest := by
  have hrange := toNat_range c
  -- One unit below 0x10000, where no scalar value is a surrogate, and a pair from there on.
  by_cases hc : c.toNat < 0x10000
  · have hunit : (UInt16.ofNat c.toNat).toNat = c.toNat := UInt16.toNat_ofNat_of_lt' hc
    have hhigh : isHigh (UInt16.ofNat c.toNat) = false := by
      rw [isHigh, hunit, Bool.and_eq_false_iff, decide_eq_false_iff_not, decide_eq_false_iff_not]
      omega
    have hlow : isLow (UInt16.ofNat c.toNat) = false := by
      rw [isLow, hunit, Bool.and_eq_false_iff, decide_eq_false_iff_not, decide_eq_false_iff_not]
      omega
    rw [unitsOf, Quoted.codePoint, if_pos hc, List.map_singleton, List.singleton_append,
      repaired_cons_of_not_high hhigh, single, hhigh, hlow, Bool.false_or,
      if_neg Bool.false_ne_true, hunit, Char.ofNat_toNat, List.singleton_append]
  · have hu : (UInt16.ofNat (0xD800 + (c.toNat - 0x10000) / 0x400)).toNat
        = 0xD800 + (c.toNat - 0x10000) / 0x400 :=
      UInt16.toNat_ofNat_of_lt' (by rw [UInt16.size]; omega)
    have hv : (UInt16.ofNat (0xDC00 + (c.toNat - 0x10000) % 0x400)).toNat
        = 0xDC00 + (c.toNat - 0x10000) % 0x400 :=
      UInt16.toNat_ofNat_of_lt' (by rw [UInt16.size]; omega)
    rw [unitsOf, Quoted.codePoint, if_neg hc, List.map_cons, List.map_singleton, List.cons_append,
      List.singleton_append, repaired, if_pos, pair, hu, hv]
    · have hsum : 0x10000 + (0xD800 + (c.toNat - 0x10000) / 0x400 - 0xD800) * 0x400
          + (0xDC00 + (c.toNat - 0x10000) % 0x400 - 0xDC00) = c.toNat := by omega
      rw [hsum, Char.ofNat_toNat]
    · rw [isHigh, isLow, hu, hv]
      simp only [Bool.and_eq_true, decide_eq_true_eq]
      omega

/-- **A text is read back from its units**, and its units stand for themselves in what follows. -/
theorem repaired_units_append (text : List Char) (rest : List UInt16) :
    repaired surrogate (units text ++ rest) = text ++ repaired surrogate rest := by
  induction text with
  | nil => rfl
  | cons c text ih =>
    rw [units_cons, List.append_assoc, repaired_unitsOf_append, ih, List.cons_append]

theorem repaired_units (text : List Char) : repaired surrogate (units text) = text := by
  have happend := @repaired_units_append surrogate text []
  rwa [List.append_nil, repaired, List.append_nil] at happend

@[simp] theorem toText_units (text : List Char) : toText (units text) = text := repaired_units text

theorem wellFormed_units (text : List Char) : WellFormed (units text) := by
  rw [WellFormed, toText_units]

/-- A character below the surrogates is among the units of no other. -/
theorem mem_unitsOf_iff {d : Char} (hd : d.toNat < 0xD800) :
    UInt16.ofNat d.toNat ∈ unitsOf c ↔ c = d := by
  have hrange := toNat_range c
  have hunit : ∀ n, n < 0x10000 → (UInt16.ofNat d.toNat = UInt16.ofNat n ↔ n = d.toNat) :=
    fun n hn ↦ by
      rw [← UInt16.toNat_inj, UInt16.toNat_ofNat_of_lt' (by rw [UInt16.size]; omega),
        UInt16.toNat_ofNat_of_lt' hn]
      exact eq_comm
  rw [unitsOf, Quoted.codePoint, ← Char.toNat_inj]
  split
  · next hlt => rw [List.map_singleton, List.mem_singleton, hunit _ hlt]
  · rw [List.map_cons, List.map_singleton, List.mem_cons, List.mem_singleton,
      hunit _ (by omega), hunit _ (by omega)]
    omega

/-- Zero is among the units of a character if it is NUL. -/
theorem zero_mem_unitsOf_iff (c : Char) : 0 ∈ unitsOf c ↔ c = '\x00' :=
  mem_unitsOf_iff (d := '\x00') (by decide)

theorem unitsOf_ne_nil (c : Char) : unitsOf c ≠ [] := by
  rw [unitsOf, Quoted.codePoint]
  split <;> simp

/-- Zero is among the units of a text if NUL is among its characters. -/
theorem zero_mem_units_iff (text : List Char) : 0 ∈ units text ↔ '\x00' ∈ text := by
  rw [units, List.mem_flatMap]
  simp only [zero_mem_unitsOf_iff]
  exact ⟨fun ⟨c, hc, hzero⟩ ↦ hzero ▸ hc, fun h ↦ ⟨_, h, rfl⟩⟩

/-! ## Surrogates without their partners -/

/-- Where no surrogate is without its partner, nothing is put in its place. -/
theorem WellFormed.repaired_eq (h : WellFormed s) : repaired surrogate s = toText s := by
  rw [← h, repaired_units, toText_units]

/-- What is well-formed on both sides of a character below the surrogates is well-formed. -/
theorem WellFormed.append_cons {x y : List UInt16} (hx : WellFormed x) (hy : WellFormed y)
    (hc : c.toNat < 0xD800) : WellFormed (x ++ UInt16.ofNat c.toNat :: y) := by
  have hunit : unitsOf c = [UInt16.ofNat c.toNat] := by
    rw [unitsOf, Quoted.codePoint, if_pos (by omega), List.map_singleton]
  rw [← hx, ← hy]
  have happend : units (toText x ++ c :: toText y)
      = units (toText x) ++ UInt16.ofNat c.toNat :: units (toText y) := by
    rw [units_append, units_cons, hunit, List.singleton_append]
  rw [← happend]
  exact wellFormed_units _

/-! ## UTF-8 -/

/-- The bytes of a character. -/
def bytesOf (c : Char) : List Char := (String.utf8EncodeChar c).map Char.ofUInt8

/-- The bytes of a text. -/
def encode (text : List Char) : List Char := text.flatMap bytesOf

/-- The text of some bytes, if they are those of one. -/
def decode (bytes : List Char) : Option (List Char) :=
  ((bytes.map Char.toUInt8).toByteArray.utf8Decode?).map Array.toList

@[simp] theorem encode_cons (c : Char) (text : List Char) :
    encode (c :: text) = bytesOf c ++ encode text := List.flatMap_cons ..

theorem encode_append (text text' : List Char) :
    encode (text ++ text') = encode text ++ encode text' := List.flatMap_append ..

theorem toNat_ofUInt8 (b : UInt8) : (Char.ofUInt8 b).toNat = b.toNat := UInt8.toNat_toUInt32 b

theorem toUInt8_ofUInt8 (b : UInt8) : (Char.ofUInt8 b).toUInt8 = b :=
  UInt8.toUInt8_toUInt32 b

theorem map_toUInt8_encode (text : List Char) :
    (encode text).map Char.toUInt8 = text.flatMap String.utf8EncodeChar := by
  have hbyte : Char.toUInt8 ∘ Char.ofUInt8 = id := funext toUInt8_ofUInt8
  rw [encode, List.map_flatMap]
  simp only [bytesOf, List.map_map, hbyte, List.map_id]

/-- **A text is read back from its bytes.** -/
@[simp] theorem decode_encode (text : List Char) : decode (encode text) = some text := by
  have hdecode := List.utf8Decode?_utf8Encode (l := text)
  rw [List.utf8Encode] at hdecode
  rw [decode, map_toUInt8_encode, hdecode]
  rfl

theorem encode_injective : Function.Injective encode := fun text text' h ↦ by
  rw [← Option.some_inj, ← decode_encode text, h, decode_encode]

/-- An ASCII character is its own byte. -/
theorem bytesOf_of_lt (h : c.toNat < 0x80) : bytesOf c = [c] := by
  have hval : c.val.toNat ≤ 0x7F := Nat.le_of_lt_succ h
  have hchar : Char.ofUInt8 (UInt8.ofNat c.val.toNat) = c := by
    have hbyte : (UInt8.ofNat c.val.toNat).toNat = c.val.toNat :=
      UInt8.toNat_ofNat_of_lt' (by rw [UInt8.size]; omega)
    exact Char.toNat_inj.mp ((toNat_ofUInt8 _).trans hbyte)
  rw [bytesOf, String.utf8EncodeChar]
  simp only [if_pos hval, List.map_cons, List.map_nil, hchar]

/-- An ASCII character is read off the front of the bytes. -/
theorem decode_cons (h : c.toNat < 0x80) (bytes : List Char) :
    decode (c :: bytes) = (decode bytes).map (c :: ·) := by
  have hfirst : String.utf8EncodeChar c = [c.toUInt8] := by
    have hencode := map_toUInt8_encode [c]
    rw [encode_cons, bytesOf_of_lt h] at hencode
    simpa [encode] using hencode.symm
  have hbytes : ((c :: bytes).map Char.toUInt8).toByteArray
      = [c].utf8Encode ++ (bytes.map Char.toUInt8).toByteArray := by
    rw [List.utf8Encode_singleton, hfirst, ← List.toByteArray_append]
    rfl
  rw [decode, decode, hbytes, ByteArray.utf8Decode?_utf8Encode_singleton_append]
  cases (bytes.map Char.toUInt8).toByteArray.utf8Decode? with
  | none => rfl
  | some text => simp

/-- An ASCII text is its own bytes. -/
theorem encode_of_ascii (h : ∀ c ∈ text, c.toNat < 0x80) : encode text = text := by
  induction text with
  | nil => rfl
  | cons c text ih =>
    rw [encode_cons, bytesOf_of_lt (h c List.mem_cons_self),
      ih fun d hd ↦ h d (List.mem_cons_of_mem c hd), List.singleton_append]

theorem eq_ofUInt8_iff (d : Char) (n : ℕ) :
    d = Char.ofUInt8 (UInt8.ofNat n) ↔ n % 256 = d.toNat := by
  have hbyte : (Char.ofUInt8 (UInt8.ofNat n)).toNat = n % 256 := by
    rw [toNat_ofUInt8, UInt8.toNat_ofNat']
  rw [← Char.toNat_inj, hbyte]
  exact eq_comm

/-- An ASCII character is among the bytes of no other: those of a character are its number, or at
least `0x80`. -/
theorem mem_bytesOf_iff {d : Char} (hd : d.toNat < 0x80) : d ∈ bytesOf c ↔ c = d := by
  have hc : c = d ↔ c.val.toNat = d.toNat := Char.toNat_inj.symm
  have hrange : c.val.toNat < 0xD800 ∨ 0xDFFF < c.val.toNat ∧ c.val.toNat < 0x110000 := c.valid
  rw [bytesOf, String.utf8EncodeChar, hc]
  generalize c.val.toNat = v at *
  split
  · simp only [List.map_cons, List.map_nil, List.mem_singleton, eq_ofUInt8_iff]
    omega
  · split
    · simp only [List.map_cons, List.map_nil, List.mem_cons, eq_ofUInt8_iff,
        List.not_mem_nil, or_false]
      omega
    · split <;>
      · simp only [List.map_cons, List.map_nil, List.mem_cons, eq_ofUInt8_iff,
          List.not_mem_nil, or_false]
        omega

/-- NUL is among the bytes of a character if it is NUL. -/
theorem nul_mem_bytesOf_iff (c : Char) : '\x00' ∈ bytesOf c ↔ c = '\x00' :=
  mem_bytesOf_iff (by decide)

theorem bytesOf_ne_nil (c : Char) : bytesOf c ≠ [] := by
  rw [bytesOf, String.utf8EncodeChar]
  split
  · simp
  · split
    · simp
    · split <;> simp

/-- NUL is among the bytes of a text if it is among its characters. -/
theorem nul_mem_encode_iff (text : List Char) : '\x00' ∈ encode text ↔ '\x00' ∈ text := by
  rw [encode, List.mem_flatMap]
  simp only [nul_mem_bytesOf_iff]
  exact ⟨fun ⟨c, hc, hzero⟩ ↦ hzero ▸ hc, fun h ↦ ⟨_, h, rfl⟩⟩

/-- Where an ASCII character stands among the bytes of a text, it stands in the text. -/
theorem encode_eq_append_cons {d : Char} (hd : d.toNat < 0x80) {xs ys : List Char}
    (h : encode text = xs ++ d :: ys) :
    ∃ front rest, text = front ++ d :: rest ∧ xs = encode front ∧ ys = encode rest := by
  induction text generalizing xs with
  | nil => exact absurd h.symm (by simp [encode])
  | cons c text ih =>
    rw [encode_cons, List.append_eq_append_iff] at h
    rcases h with ⟨as, rfl, hrest⟩ | ⟨cs, hfirst, hrest⟩
    · obtain ⟨front, rest, rfl, rfl, rfl⟩ := ih hrest
      exact ⟨c :: front, rest, rfl, (encode_cons ..).symm, rfl⟩
    · rcases cs with - | ⟨b, cs⟩
      · -- The bytes of the first character end where the front does.
        rw [List.append_nil] at hfirst
        obtain ⟨front, rest, rfl, hfront, rfl⟩ := @ih [] hrest.symm
        obtain rfl : front = [] := by
          cases front with
          | nil => rfl
          | cons b front =>
            rw [encode_cons] at hfront
            exact absurd (List.append_eq_nil_iff.mp hfront.symm).1 (bytesOf_ne_nil b)
        exact ⟨[c], rest, rfl, by rw [← hfirst]; simp [encode], rfl⟩
      · obtain ⟨rfl, hys⟩ := List.cons.inj hrest
        have hc : c = d := (mem_bytesOf_iff hd).mp (by rw [hfirst]; simp)
        rw [hc, bytesOf_of_lt hd] at hfirst
        obtain ⟨rfl, hcs⟩ : xs = [] ∧ cs = [] := by
          have hlength := congrArg List.length hfirst
          simp only [List.length_append, List.length_cons, List.length_nil] at hlength
          exact ⟨List.eq_nil_of_length_eq_zero (by omega),
            List.eq_nil_of_length_eq_zero (by omega)⟩
        rw [hcs] at hys
        exact ⟨[], text, by rw [hc]; rfl, rfl, hys⟩

/-- Cut at the first NUL, the bytes of a text are those of the text cut there. -/
theorem takeWhile_encode (text : List Char) :
    (encode text).takeWhile (· ≠ '\x00') = encode (text.takeWhile (· ≠ '\x00')) := by
  induction text with
  | nil => rfl
  | cons c text ih =>
    rw [encode_cons]
    by_cases hc : c = '\x00'
    · rw [hc]
      rfl
    · have hbytes : ∀ b ∈ bytesOf c, decide (b ≠ '\x00') = true := by
        intro b hb
        rw [decide_eq_true_eq]
        rintro rfl
        exact hc ((nul_mem_bytesOf_iff c).mp hb)
      rw [List.takeWhile_append_of_pos hbytes, ih, List.takeWhile_cons_of_pos (by simpa using hc),
        encode_cons]

end Utf
