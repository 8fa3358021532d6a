import SlimTS.Common.Http.HeaderLines
import SlimTS.Common.Http.RequestRoundTrip

/-!
# Spaces between a name and its value

Any number of spaces may stand behind the colon of a header line, and the value is what follows
them. The parser does not look for the colon. It takes the first space for the one behind the colon:
the key ends one character before it and the value starts one character behind it. What a line sets
is therefore its name and its value only if exactly one space stands there. With none the key runs
on past the colon, and with more the value keeps those that are left.

The argument is one on the two positions. If the key is the name and the value the value, the start
of the value is two more than the end of the key, whatever the first space is, and the line has room
for one space between them.
-/

namespace SlimTS

open Getline

/-- A header with a number of spaces behind its colon. -/
structure SpacedField extends HeaderField where
  spaces : ℕ
  value_head : value.head? ≠ some ' '

namespace SpacedField

/-- The header line, without its line end. -/
def spacedLine (field : SpacedField) : Str :=
  field.name ++ ':' :: (List.replicate field.spaces ' ' ++ field.value)

/-- The header line, without its line feed. -/
def line (field : SpacedField) : Str := field.spacedLine ++ ['\r']

end SpacedField

/-- A request whose headers have any number of spaces. -/
def spacedText (line : RequestLine) (fields : List SpacedField) (body : Str) : Str :=
  terminate '\n' ((line.text ++ ['\r']) :: (fields.map SpacedField.line ++ [['\r']])) ++ body

variable {line : RequestLine} {field : SpacedField} {fields : List SpacedField}

/-! ## The lines -/

theorem SpacedField.spacedLine_lineText (field : SpacedField) : LineText field.spacedLine :=
  field.name_word.2.append (.cons (by decide)
    (LineText.append (by simp [LineText]) field.value_text))

theorem beforeReturn_append {text : Str} (h : LineText text) :
    beforeReturn (text ++ ['\r']) = text := Text.takeWhile_append_cons h.1 []

/-- A header line begins with a character of the name. -/
theorem SpacedField.head_line (field : SpacedField) :
    field.line.head? ≠ some '\r' ∧ field.line.head? ≠ some ' ' := by
  obtain ⟨c, name, hname⟩ := List.exists_cons_of_ne_nil field.name_ne_nil
  have hhead : field.line.head? = some c := by
    rw [line, spacedLine, hname]
    rfl
  have hspace := field.name_word.1
  have hreturn := field.name_word.2.1
  rw [hname, List.mem_cons, not_or] at hspace hreturn
  rw [hhead, ne_eq, ne_eq, Option.some_inj, Option.some_inj]
  exact ⟨Ne.symm hreturn.1, Ne.symm hspace.1⟩

/-- The lines of a request. -/
theorem pieces_spacedText (line : RequestLine) (fields : List SpacedField) (body : Str) :
    pieces '\n' (cString (spacedText line fields body)) =
      (line.text ++ ['\r']) ::
        (fields.map SpacedField.line ++ ['\r'] :: pieces '\n' (cString body)) := by
  have hlines : ∀ text ∈ (line.text ++ ['\r']) :: (fields.map SpacedField.line ++ [['\r']]),
      '\n' ∉ text ∧ '\x00' ∉ text := by
    have hreturn : ∀ text, LineText text → '\n' ∉ text ++ ['\r'] ∧ '\x00' ∉ text ++ ['\r'] :=
      fun text h ↦ ⟨by simpa using h.2.1, by simpa using h.2.2⟩
    simp only [List.forall_mem_cons, List.forall_mem_append, List.forall_mem_map]
    exact ⟨hreturn _ line.text_lineText,
      fun field _ ↦ hreturn _ field.spacedLine_lineText, by decide, by simp⟩
  have hnul : '\x00' ∉ terminate '\n'
      ((line.text ++ ['\r']) :: (fields.map SpacedField.line ++ [['\r']])) := by
    rw [mem_terminate]
    rintro ⟨text, htext, hnul | hnul⟩
    · exact (hlines text htext).2 hnul
    · exact absurd hnul (by decide)
  rw [spacedText, cString_append hnul, pieces_terminate_append fun text h ↦ (hlines text h).1,
    List.cons_append, List.append_assoc, List.singleton_append]

/-- With one space everywhere it is the text of a request. -/
theorem spacedText_of_spaces_eq_one (h : ∀ field ∈ fields, field.spaces = 1) (line : RequestLine)
    (body : Str) : spacedText line fields body
      = requestText line (fields.map SpacedField.toHeaderField) body := by
  have hlines : fields.map SpacedField.line
      = (fields.map SpacedField.toHeaderField).map fun field ↦ field.text ++ ['\r'] := by
    rw [List.map_map]
    refine List.map_congr_left fun field hfield ↦ ?_
    rw [SpacedField.line, SpacedField.spacedLine, h field hfield]
    rfl
  rw [spacedText, requestText, hlines, terminate_cons, terminate_append, terminate_cons,
    terminate_nil]
  simp only [List.append_assoc, List.cons_append, List.nil_append]

/-! ## What one line sets -/

/-- **The two positions.** A line whose key is the name and whose value is the value has one space,
and its name fits. -/
theorem spaces_eq_one_of_headerKey (hfits : ¬Overflows field.line)
    (hkey : headerKey field.line = field.name) (hvalue : headerValue field.line = field.value) :
    field.spaces = 1 ∧ field.Fits := by
  obtain ⟨hstart, hle⟩ := toInt_find_le hfits
  have hline : beforeReturn field.line = field.spacedLine :=
    beforeReturn_append field.spacedLine_lineText
  have hlength : field.spacedLine.length
      = field.name.length + 1 + field.spaces + field.value.length := by
    rw [SpacedField.spacedLine]
    simp only [List.length_append, List.length_cons, List.length_replicate]
    omega
  rw [hline] at hstart hle
  have hend : toInt (Text.find field.spacedLine ' ' - 1) = field.name.length := by
    rw [headerKey, hline] at hkey
    have hkeyLength := congrArg List.length hkey
    split at hkeyLength
    · omega
    · rw [List.length_take] at hkeyLength
      omega
  have hvalueStart : toInt (Text.find field.spacedLine ' ' + 1)
      = field.name.length + 1 + field.spaces := by
    rw [headerValue, hline] at hvalue
    have hvalueLength := congrArg List.length hvalue
    rw [List.length_drop] at hvalueLength
    omega
  -- Both are in the range of an `int`, and they are two apart up to multiples of `2 ^ 32`.
  have hrange := toInt_range (Text.find field.spacedLine ' ' + 1)
  rw [HeaderField.Fits]
  generalize Text.find field.spacedLine ' ' = position at *
  rw [toInt, Int.bmod_def] at hend hvalueStart hrange
  constructor <;> omega

/-- A request of one header, when its pair is stored. -/
theorem spaces_eq_one_of_stores {body : Str} {request : Request}
    (hparse : parseHttpRequest (spacedText line [field] body) .new = .ok request)
    (hstores : request.Stores line [field.toHeaderField]) : field.spaces = 1 ∧ field.Fits := by
  rw [parseHttpRequest_of_pieces (pieces_spacedText line [field] body), List.map_singleton,
    List.singleton_append, beforeReturn_append line.text_lineText, parseLine1_text,
    parseHeaderLines_of_header field.head_line.1 field.head_line.2] at hparse
  by_cases hfits : Overflows field.line
  · rw [parseHeaderLine_of_overflows hfits] at hparse
    cases hparse
  · rw [parseHeaderLine_of_not_overflows hfits, ok_bind,
      parseHeaderLines_of_return (by rfl), Except.ok.injEq] at hparse
    have hlookup := hstores.headers field.name
    rw [← hparse, Request.setHeader] at hlookup
    have hlast : lastValue [field.toHeaderField] field.name = some field.value := by
      simp [lastValue]
    rw [hlast] at hlookup
    by_cases hkey : headerKey field.line = field.name
    · rw [hkey, AList.lookup_insert, Option.some_inj] at hlookup
      exact spaces_eq_one_of_headerKey hfits hkey hlookup
    · rw [AList.lookup_insert_ne (Ne.symm hkey)] at hlookup
      exact absurd hlookup (by simp)

/-- **When the spaces do not matter.** Of header lines of a kind, every request made of such lines
stores exactly their names and values, as the request with one space in each of them does, if and
only if each line of that kind has one space already, and a name that fits. -/
theorem parseHttpRequest_spacedText_iff (Kind : SpacedField → Prop) :
    (∀ line fields body, (∀ field ∈ fields, Kind field) →
        ∃ request, parseHttpRequest (spacedText line fields body) .new = .ok request ∧
          request.Stores line (fields.map SpacedField.toHeaderField) ∧
          parseHttpRequest (requestText line (fields.map SpacedField.toHeaderField) body) .new
            = .ok request) ↔
      ∀ field, Kind field → field.spaces = 1 ∧ field.Fits := by
  constructor
  · intro h field hfield
    obtain ⟨request, hparse, hstores, -⟩ :=
      h getLine [field] [] (by simpa using hfield)
    exact spaces_eq_one_of_stores hparse hstores
  · intro h line fields body hfields
    have hfits : ∀ field ∈ fields.map SpacedField.toHeaderField, field.Fits := by
      rw [List.forall_mem_map]
      exact fun field hfield ↦ (h field (hfields field hfield)).2
    obtain ⟨request, hparse, hstores⟩ :=
      (parseHttpRequest_stores_iff line (fields.map SpacedField.toHeaderField) body).mpr hfits
    refine ⟨request, ?_, hstores, hparse⟩
    rwa [spacedText_of_spaces_eq_one fun field hfield ↦ (h field (hfields field hfield)).1]

/-- `Host:a`. -/
def unspacedHost : SpacedField where
  name := "Host".toList
  value := "a".toList
  name_ne_nil := List.cons_ne_nil _ _
  name_word := by decide
  value_text := by decide
  spaces := 0
  value_head := by decide

/-- A request with `Host:a` has no header `Host`. -/
theorem parseHttpRequest_unspacedHost :
    (parseHttpRequest (spacedText getLine [unspacedHost] []) .new).map
        (fun request ↦ request.headersMap.lookup "Host".toList) = .ok none ∧
      (parseHttpRequest (spacedText getLine [unspacedHost] []) .new).map
        (fun request ↦ request.headersMap.lookup "Host:a".toList)
          = .ok (some "Host:a".toList) :=
  ⟨by decide, by decide⟩

end SlimTS
