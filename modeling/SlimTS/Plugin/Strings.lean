import SlimTS.Common.Http.Parser
import SlimTS.Library.Utf

/-!
# Strings between the scripts and the program

The conversions of `slim::utilities`. A JavaScript string is a sequence of UTF-16 code units.
`Utf8Value` makes it UTF-8, and a `std::string` is then made of a pointer to the bytes, so it ends
at the first of them that is zero. On the way back `NewFromUtf8` is given a pointer too. What V8
makes of a surrogate without its partner, and of bytes that are not UTF-8, is a parameter.
-/

namespace SlimTS

/-- A JavaScript string. -/
abbrev JsString := List UInt16

/-- What V8 makes of strings that are no text, and of bytes that are none. -/
structure Transcoding where
  /-- What comes of a surrogate without its partner, as a text: one replacement character in some
  versions of V8, three in others. -/
  surrogate : UInt16 → List Char
  /-- `NewFromUtf8`, of bytes that are not UTF-8. -/
  malformed : Str → JsString
  /-- Only bytes that are no character are replaced. -/
  malformed_slash : ∀ bytes, (malformed ('/' :: bytes)).head? = some 0x2F

section

variable (v8 : Transcoding)

/-- `v8::String::Utf8Value`. -/
def utf8Value (s : JsString) : Str := Utf.encode (Utf.repaired v8.surrogate s)

/-- `v8ValueToString`, and `StringValue`, of a string. -/
def v8ValueToString (s : JsString) : Str := cString (utf8Value v8 s)

/-- `v8::String::NewFromUtf8`, without a length. -/
def newFromUtf8 (bytes : Str) : JsString :=
  match Utf.decode (cString bytes) with
  | none => v8.malformed (cString bytes)
  | some text => Utf.units text

/-- `StringToV8String`, and `StringToValue`. -/
def stringToV8String (string : Str) : JsString := newFromUtf8 v8 string

end

variable {v8 : Transcoding} {s : JsString}

/-- A string arrives in the program up to its first NUL. -/
theorem v8ValueToString_eq (s : JsString) : v8ValueToString v8 s
    = Utf.encode (cString (Utf.repaired v8.surrogate s)) := Utf.takeWhile_encode _

/-- The bytes of a text without NUL arrive at the scripts as that text. -/
theorem stringToV8String_encode {text : List Char} (h : '\x00' ∉ text) :
    stringToV8String v8 (Utf.encode text) = Utf.units text := by
  have hnul : '\x00' ∉ Utf.encode text := by rwa [Utf.nul_mem_encode_iff]
  rw [stringToV8String, newFromUtf8, cString_of_not_mem hnul, Utf.decode_encode]

/-- There and back. -/
theorem stringToV8String_v8ValueToString (s : JsString) :
    stringToV8String v8 (v8ValueToString v8 s)
      = Utf.units (cString (Utf.repaired v8.surrogate s)) := by
  rw [v8ValueToString_eq, stringToV8String_encode (nul_not_mem_cString _)]

/-- The text of a well-formed string has a NUL if the string has one. -/
theorem nul_mem_repaired_iff (h : Utf.WellFormed s) {surrogate : UInt16 → List Char} :
    '\x00' ∈ Utf.repaired surrogate s ↔ 0 ∈ s := by
  rw [h.repaired_eq, ← Utf.zero_mem_units_iff, h]

/-- **The way there and back** leaves a string as it is if it holds no NUL. -/
theorem stringToV8String_v8ValueToString_eq_iff (h : Utf.WellFormed s) :
    stringToV8String v8 (v8ValueToString v8 s) = s ↔ 0 ∉ s := by
  rw [stringToV8String_v8ValueToString,
    ← @nul_mem_repaired_iff _ h v8.surrogate]
  constructor
  · intro heq hmem
    have htext := congrArg Utf.toText heq
    rw [Utf.toText_units, ← h.repaired_eq] at htext
    exact nul_not_mem_cString _ (htext.symm ▸ hmem)
  · intro hmem
    rw [cString_of_not_mem hmem, h.repaired_eq]
    exact h

/-- A text that begins with a slash does so for the scripts, whatever it goes on with. -/
theorem head_stringToV8String {string : Str} (h : string.head? = some '/') :
    (stringToV8String v8 string).head? = some 0x2F := by
  obtain ⟨rest, rfl⟩ := List.head?_eq_some_iff.mp h
  have hcut : cString ('/' :: rest) = '/' :: cString rest := List.takeWhile_cons_of_pos (by decide)
  rw [stringToV8String, newFromUtf8, hcut, Utf.decode_cons (by decide)]
  cases Utf.decode (cString rest) with
  | none => exact v8.malformed_slash _
  | some text => rfl

/-! ## Texts without NUL -/

/-- The bytes are those of a text without NUL. -/
def PlainText (string : Str) : Prop := ∃ text, '\x00' ∉ text ∧ string = Utf.encode text

/-- The string is the text whose UTF-8 the bytes are. They end before the first NUL, so the text has
none. -/
def Spells (s : JsString) (string : Str) : Prop :=
  ∃ text, '\x00' ∉ text ∧ string = Utf.encode text ∧ s = Utf.units text

variable {string string' : Str}

theorem Spells.plainText (h : Spells s string) : PlainText string := by
  obtain ⟨text, hnul, hstring, -⟩ := h
  exact ⟨text, hnul, hstring⟩

/-- What the scripts get for such a text spells it, and no other. -/
theorem spells_stringToV8String_iff (h : PlainText string) :
    Spells (stringToV8String v8 string) string' ↔ string = string' := by
  obtain ⟨text, hnul, rfl⟩ := h
  rw [stringToV8String_encode hnul]
  constructor
  · rintro ⟨text', -, rfl, hunits⟩
    rw [← Utf.toText_units text, hunits, Utf.toText_units]
  · rintro rfl
    exact ⟨text, hnul, rfl, rfl⟩

/-- What begins with a slash spells no other text. -/
theorem head_of_spells (hslash : string'.head? = some '/')
    (h : Spells (stringToV8String v8 string') string) : string.head? = some '/' := by
  obtain ⟨text, -, rfl, hunits⟩ := h
  have hhead := @head_stringToV8String v8 _ hslash
  rw [hunits] at hhead
  rcases text with - | ⟨c, text⟩
  · cases hhead
  obtain ⟨u, us, hc⟩ := List.exists_cons_of_ne_nil (Utf.unitsOf_ne_nil c)
  rw [Utf.units_cons, hc, List.cons_append, List.head?_cons, Option.some_inj] at hhead
  have hslash : c = '/' :=
    (Utf.mem_unitsOf_iff (by decide)).mp (hc.symm ▸ hhead ▸ List.mem_cons_self)
  rw [hslash, Utf.encode_cons, Utf.bytesOf_of_lt (by decide)]
  rfl

theorem plainText_of_forall₂ {array : List JsString} {arguments : List Str}
    (h : List.Forall₂ Spells array arguments) : ∀ argument ∈ arguments, PlainText argument := by
  induction h with
  | nil => exact List.forall_mem_nil _
  | cons hspells _ ih => exact List.forall_mem_cons.mpr ⟨hspells.plainText, ih⟩

theorem forall₂_spells_iff {strings arguments : List Str}
    (h : ∀ string ∈ strings, PlainText string) :
    List.Forall₂ Spells (strings.map (stringToV8String v8)) arguments ↔ strings = arguments := by
  induction strings generalizing arguments with
  | nil => rw [List.map_nil, List.forall₂_nil_left_iff, eq_comm]
  | cons string strings ih =>
    obtain ⟨hstring, hstrings⟩ := List.forall_mem_cons.mp h
    cases arguments with
    | nil => simp
    | cons argument arguments =>
      rw [List.map_cons, List.forall₂_cons, spells_stringToV8String_iff hstring, ih hstrings,
        List.cons.injEq]

/-- What comes from the scripts is such a text. -/
theorem plainText_v8ValueToString (s : JsString) : PlainText (v8ValueToString v8 s) :=
  ⟨_, nul_not_mem_cString _, v8ValueToString_eq s⟩

/-- A character that is one byte, and not NUL. -/
def isAscii (c : Char) : Bool := decide (0 < c.toNat) && decide (c.toNat < 0x80)

theorem isAscii_iff {c : Char} : isAscii c = true ↔ 0 < c.toNat ∧ c.toNat < 0x80 := by
  rw [isAscii, Bool.and_eq_true, decide_eq_true_eq, decide_eq_true_eq]

theorem plainText_of_ascii (h : string.all isAscii = true) : PlainText string := by
  have hascii := fun c hc ↦ isAscii_iff.mp (List.all_eq_true.mp h c hc)
  refine ⟨string, fun hnul ↦ absurd (hascii _ hnul).1 (by decide), ?_⟩
  exact (Utf.encode_of_ascii fun c hc ↦ (hascii c hc).2).symm

theorem PlainText.append (h : PlainText string) (h' : PlainText string') :
    PlainText (string ++ string') := by
  obtain ⟨text, hnul, rfl⟩ := h
  obtain ⟨text', hnul', rfl⟩ := h'
  exact ⟨text ++ text', by simp [hnul, hnul'], (Utf.encode_append _ _).symm⟩

/-- Texts are put together and taken apart at an ASCII character. -/
theorem plainText_append_cons_iff {c : Char} (hc : isAscii c = true) :
    PlainText (string ++ c :: string') ↔ PlainText string ∧ PlainText string' := by
  constructor
  · rintro ⟨text, hnul, h⟩
    obtain ⟨front, rest, rfl, hfront, hrest⟩ :=
      Utf.encode_eq_append_cons (isAscii_iff.mp hc).2 h.symm
    rw [List.mem_append, List.mem_cons, not_or, not_or] at hnul
    exact ⟨⟨front, hnul.1, hfront⟩, ⟨rest, hnul.2.2, hrest⟩⟩
  · rintro ⟨h, h'⟩
    have hsingle : PlainText [c] :=
      plainText_of_ascii (by rwa [List.all_cons, List.all_nil, Bool.and_true])
    exact h.append (hsingle.append h')

/-- **From the program and back** such a text stays as it is. -/
theorem utf8Value_stringToV8String (h : PlainText string) :
    utf8Value v8 (stringToV8String v8 string) = string := by
  obtain ⟨text, hnul, rfl⟩ := h
  rw [stringToV8String_encode hnul, utf8Value, Utf.repaired_units]

/-- A V8 that puts one replacement character for each byte that is not ASCII. -/
def asciiTranscoding : Transcoding where
  surrogate _ := [Utf.replacement]
  malformed bytes := bytes.map fun b ↦ if b.toNat < 0x80 then UInt16.ofNat b.toNat else 0xFFFD
  malformed_slash _ := rfl

end SlimTS
