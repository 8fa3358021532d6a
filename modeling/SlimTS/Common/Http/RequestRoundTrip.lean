import Mathlib.Data.List.Induction
import SlimTS.Common.Http.Parser

/-!
# Requests come through the parser

A request is written as its request line, a line for each header, an empty line and a body. The
parser reads the three values of the request line back, and the headers one line after the other,
until the empty line stops it, so that it never sees the body.

One line is what the argument rests on: in `Name: value` the first space stands right behind the
colon, so the text before it, less the colon, is the name, and the text after it is the value. The
position of that space is put in an `int`. For a name of `2 ^ 31 - 2` characters or more it does not
fit, and what the line is cut into then is never the name.
-/

namespace SlimTS

open Getline

/-! ## The text of a request -/

/-- The method, path and version of a request. -/
structure RequestLine where
  method : Str
  path : Str
  version : Str
  method_word : Word method
  path_word : Word path
  version_word : Word version

/-- A header of a request. -/
structure HeaderField where
  name : Str
  value : Str
  name_ne_nil : name ≠ []
  name_word : Word name
  value_text : LineText value

/-- The request line, without its line end. -/
def RequestLine.text (line : RequestLine) : Str :=
  line.method ++ ' ' :: (line.path ++ ' ' :: line.version)

/-- A header line, without its line end. -/
def HeaderField.text (field : HeaderField) : Str := field.name ++ ':' :: ' ' :: field.value

/-- A request: each line with its line end, an empty line, and the body. -/
def requestText (line : RequestLine) (fields : List HeaderField) (body : Str) : Str :=
  line.text ++ '\r' :: '\n' ::
    (terminate '\n' (fields.map fun field ↦ field.text ++ ['\r']) ++ '\r' :: '\n' :: body)

/-- The value of the last header with a name. -/
def lastValue (fields : List HeaderField) (name : Str) : Option Str :=
  (fields.reverse.find? fun field ↦ field.name = name).map HeaderField.value

/-- A request holds the three values and exactly the map of the headers. -/
structure Request.Stores (request : Request) (line : RequestLine) (fields : List HeaderField) :
    Prop where
  method : request.methodString = line.method
  path : request.pathString = line.path
  version : request.versionString = line.version
  headers : ∀ name, request.headersMap.lookup name = lastValue fields name

variable {line : RequestLine} {field : HeaderField} {fields : List HeaderField} {request : Request}

theorem RequestLine.text_lineText (line : RequestLine) : LineText line.text :=
  line.method_word.2.append
    (.cons (by decide) (line.path_word.2.append (.cons (by decide) line.version_word.2)))

theorem HeaderField.text_lineText (field : HeaderField) : LineText field.text :=
  field.name_word.2.append (.cons (by decide) (.cons (by decide) field.value_text))

/-! ## The lines the parser reads -/

/-- The lines of a request: the request line, the headers, the empty line, and whatever the body
has. -/
theorem pieces_requestText (line : RequestLine) (fields : List HeaderField) (body : Str) :
    pieces '\n' (cString (requestText line fields body))
      = (line.text ++ ['\r']) ::
        ((fields.map fun field ↦ field.text ++ ['\r'])
          ++ ['\r'] :: pieces '\n' (cString body)) := by
  have hfields : '\x00' ∉ terminate '\n' (fields.map fun field ↦ field.text ++ ['\r']) := by
    rw [mem_terminate]
    rintro ⟨text, htext, hnul⟩
    obtain ⟨field, -, rfl⟩ := List.mem_map.mp htext
    have := field.text_lineText.2.2
    simp_all
  have hlines : ∀ text ∈ fields.map fun field ↦ field.text ++ ['\r'], '\n' ∉ text := by
    intro text htext
    obtain ⟨field, -, rfl⟩ := List.mem_map.mp htext
    have := field.text_lineText.2.1
    simpa using this
  have hline : '\n' ∉ line.text ++ ['\r'] := by
    have := line.text_lineText.2.1
    simpa using this
  -- Only the body may hold a NUL, so only the body is cut.
  rw [requestText, cString_append line.text_lineText.2.2, cString_cons (by decide),
    cString_cons (by decide), cString_append hfields, cString_cons (by decide),
    cString_cons (by decide), List.append_cons, pieces_append_sep hline,
    pieces_terminate_append hlines]
  congr 2

/-! ## The request line -/

/-- A version that is empty is not read, and is empty already. -/
theorem parseLine1_text (line : RequestLine) :
    parseLine1 line.text .new = ⟨line.method, line.path, line.version, ∅⟩ := by
  rw [parseLine1, RequestLine.text, pieces_append_sep line.method_word.1,
    pieces_append_sep line.path_word.1]
  rcases eq_or_ne line.version [] with hversion | hversion
  · rw [hversion]
    rfl
  · rw [pieces_of_not_mem line.version_word.1 hversion]
    rfl

/-! ## A header line -/

/-- The first space of a header line stands right behind the colon. -/
theorem find_text_append (field : HeaderField) (rest : Str) :
    Text.find (field.text ++ rest) ' ' = field.name.length + 1 := by
  have hname : ' ' ∉ field.name ++ [':'] := by
    have := field.name_word.1
    simpa using this
  rw [HeaderField.text, List.append_cons, List.append_assoc, List.cons_append,
    Text.find_append hname, List.length_append, List.length_singleton, Nat.cast_add, Nat.cast_one]

theorem find_text (field : HeaderField) : Text.find field.text ' ' = field.name.length + 1 := by
  have := find_text_append field []
  rwa [List.append_nil] at this

/-- The name of a header is short enough for the position behind the space to fit in an `int`. -/
def HeaderField.Fits (field : HeaderField) : Prop := (field.name.length : ℤ) + 2 < 2 ^ 31

/-- What a header line sets, by what it is cut into. -/
theorem parseHeaderLine_of_substr {line text key value : Str} {position : ℤ}
    (htext : Text.substr line 0 (Text.find line '\r') = .ok text)
    (hposition : toInt (Text.find text ' ') = position)
    (hkey : Text.substr text 0 (toInt (position - 1)) = .ok key)
    (hvalue : Text.substr text (toInt (position + 1)) Text.npos = .ok value) :
    parseHeaderLine line request = .ok (request.setHeader key value) := by
  subst hposition
  rw [parseHeaderLine, htext, ok_bind]
  simp only [hkey, hvalue, ok_bind]
  rfl

/-- **One header line** sets the header, if its name fits. -/
theorem parseHeaderLine_text (hfits : field.Fits) (request : Request) :
    parseHeaderLine (field.text ++ ['\r']) request
      = .ok (request.setHeader field.name field.value) := by
  have htoInt : ∀ n : ℤ, 0 ≤ n → n ≤ field.name.length + 2 → toInt n = n := fun n h0 hn ↦ by
    rw [HeaderField.Fits] at hfits
    exact toInt_eq_self_iff.mpr (by omega)
  have hposition : toInt (Text.find field.text ' ') = field.name.length + 1 := by
    rw [find_text]
    exact htoInt _ (by omega) (by omega)
  refine parseHeaderLine_of_substr (Text.substr_find_append field.text_lineText.1 []) hposition
    ?_ ?_
  · rw [add_sub_cancel_right, htoInt _ (by omega) (by omega)]
    exact Text.substr_append_left _ _
  · rw [add_assoc, one_add_one_eq_two, htoInt _ (by omega) (by omega)]
    have hcut := Text.substr_append_right (field.name ++ [':', ' ']) field.value
    rwa [List.append_assoc, List.length_append, Nat.cast_add] at hcut

/-- Whatever a header line sets, it is not a header with a name that does not fit. -/
theorem key_of_parseHeaderLine {request' : Request}
    (h : parseHeaderLine (field.text ++ ['\r']) request = .ok request') :
    ∃ key value, request' = request.setHeader key value ∧
      (' ' ∈ key ∨ (key.length : ℤ) + 2 < 2 ^ 31) := by
  rw [parseHeaderLine, Text.substr_find_append field.text_lineText.1] at h
  obtain ⟨text, htext, h⟩ := bind_eq_ok h
  obtain rfl := Except.ok.inj htext
  obtain ⟨key, hkey, h⟩ := bind_eq_ok h
  obtain ⟨value, hvalue, h⟩ := bind_eq_ok h
  refine ⟨key, value, (Except.ok.inj h).symm, ?_⟩
  rcases Text.eq_or_length_le_of_substr hkey with rfl | hlength
  · exact .inl (by simp [HeaderField.text])
  · -- The position behind the space is not negative, so it has not left the range of an `int`.
    have hpos : 0 ≤ toInt (toInt (Text.find field.text ' ') + 1) := by
      by_contra hneg
      rw [Text.substr_of_neg (by omega)] at hvalue
      exact absurd hvalue (by simp)
    have hrange := toInt_range (Text.find field.text ' ')
    generalize toInt (Text.find field.text ' ') = position at hlength hpos hrange
    rw [toInt, Int.bmod_def] at hlength hpos
    exact .inr (by omega)

/-! ## The header lines -/

/-- The loop over the header lines, which the empty line ends. -/
theorem parseHeaderLines_fields (fields : List HeaderField) (rest : List Str) (request : Request) :
    parseHeaderLines ((fields.map fun field ↦ field.text ++ ['\r']) ++ ['\r'] :: rest) request
      = fields.foldlM (fun request field ↦ parseHeaderLine (field.text ++ ['\r']) request)
          request := by
  induction fields generalizing request with
  | nil => rfl
  | cons field fields ih =>
    have hreturn : Text.find (field.text ++ ['\r']) '\r' ≠ 0 := by
      rw [Text.find_append field.text_lineText.1, HeaderField.text]
      simp only [List.length_append, List.length_cons]
      omega
    have hspace : Text.find (field.text ++ ['\r']) ' ' ≠ 0 := by
      rw [find_text_append]
      omega
    rw [List.map_cons, List.cons_append, parseHeaderLines, if_neg hreturn, if_pos hspace,
      List.foldlM_cons]
    refine bind_congr fun request ↦ ?_
    exact ih request

/-- The header map after a list of headers. -/
def setHeaders (headers : Headers) (fields : List HeaderField) : Headers :=
  fields.foldl (fun headers field ↦ headers.insert field.name field.value) headers

/-- Names that fit: each line sets its header, and nothing else of the request. -/
theorem foldlM_parseHeaderLine (hfits : ∀ field ∈ fields, field.Fits) (request : Request) :
    fields.foldlM (fun request field ↦ parseHeaderLine (field.text ++ ['\r']) request) request
      = .ok { request with headersMap := setHeaders request.headersMap fields } := by
  induction fields generalizing request with
  | nil => rfl
  | cons field fields ih =>
    rw [List.foldlM_cons, parseHeaderLine_text (hfits field List.mem_cons_self), ok_bind,
      ih fun f hf ↦ hfits f (List.mem_cons_of_mem _ hf)]
    rfl

/-- **The last value of a repeated name is kept.** -/
theorem lookup_setHeaders (fields : List HeaderField) (name : Str) :
    (setHeaders ∅ fields).lookup name = lastValue fields name := by
  induction fields using List.reverseRecOn with
  | nil => rfl
  | append_singleton fields field ih =>
    rw [setHeaders] at ih ⊢
    rw [List.foldl_append, List.foldl_cons, List.foldl_nil, lastValue, List.reverse_append,
      List.reverse_singleton, List.singleton_append, List.find?_cons]
    by_cases hname : field.name = name
    · rw [← hname, AList.lookup_insert]
      simp
    · rw [AList.lookup_insert_ne (Ne.symm hname), ih]
      simp [hname, lastValue]

/-- A header whose name does not fit is not among those that were set. -/
theorem lookup_of_foldlM {request' : Request} {name : Str} (hword : ' ' ∉ name)
    (hlong : ¬(name.length : ℤ) + 2 < 2 ^ 31) (hnone : request.headersMap.lookup name = none)
    (h : fields.foldlM (fun request field ↦ parseHeaderLine (field.text ++ ['\r']) request) request
      = .ok request') : request'.headersMap.lookup name = none := by
  induction fields generalizing request with
  | nil =>
    rw [← Except.ok.inj h]
    exact hnone
  | cons field fields ih =>
    rw [List.foldlM_cons] at h
    obtain ⟨next, hnext, h⟩ := bind_eq_ok h
    obtain ⟨key, value, rfl, hkey⟩ := key_of_parseHeaderLine hnext
    refine ih ?_ h
    have hne : name ≠ key := by
      rintro rfl
      exact hkey.elim hword hlong
    rw [Request.setHeader, AList.lookup_insert_ne hne, hnone]

/-! ## Whole requests -/

/-- The header loop is what is left of the parser on the text of a request. -/
theorem parseHttpRequest_requestText (line : RequestLine) (fields : List HeaderField)
    (body : Str) : parseHttpRequest (requestText line fields body) .new
      = fields.foldlM (fun request field ↦ parseHeaderLine (field.text ++ ['\r']) request)
          ⟨line.method, line.path, line.version, ∅⟩ := by
  rw [parseHttpRequest, pieces_requestText]
  simp only
  rw [Text.substr_find_append line.text_lineText.1, ok_bind, parseLine1_text,
    parseHeaderLines_fields]

/-- A header with a name that does not fit is lost, or the parser throws. -/
theorem not_stores_of_not_fits (hfield : field ∈ fields) (hlong : ¬field.Fits) (body : Str) :
    ¬∃ request, parseHttpRequest (requestText line fields body) .new = .ok request ∧
      request.Stores line fields := by
  rintro ⟨request, hparse, hstores⟩
  rw [parseHttpRequest_requestText] at hparse
  have hnone := lookup_of_foldlM field.name_word.1 hlong rfl hparse
  rw [hstores.headers, lastValue, Option.map_eq_none_iff, List.find?_eq_none] at hnone
  exact hnone field (List.mem_reverse.mpr hfield) (decide_eq_true rfl)

/-- **A request comes through the parser**, with the last value of each header, exactly when the
names of its headers fit. -/
theorem parseHttpRequest_stores_iff (line : RequestLine) (fields : List HeaderField) (body : Str) :
    (∃ request, parseHttpRequest (requestText line fields body) .new = .ok request ∧
      request.Stores line fields) ↔ ∀ field ∈ fields, field.Fits := by
  constructor
  · intro hstores field hfield
    by_contra hlong
    exact not_stores_of_not_fits hfield hlong body hstores
  · intro hfits
    refine ⟨_, (parseHttpRequest_requestText line fields body).trans
      (foldlM_parseHeaderLine hfits _), ?_⟩
    exact ⟨rfl, rfl, rfl, lookup_setHeaders fields⟩

/-! ## A name that does not fit -/

/-- A header whose name has `n + 1` characters. -/
def longHeader (n : ℕ) : HeaderField where
  name := 'a' :: List.replicate n 'a'
  value := []
  name_ne_nil := List.cons_ne_nil _ _
  name_word := by simp [Word, LineText]
  value_text := by simp [LineText]

/-- `GET / HTTP/1.1`. -/
def getLine : RequestLine where
  method := "GET".toList
  path := "/".toList
  version := "HTTP/1.1".toList
  method_word := by decide
  path_word := by decide
  version_word := by decide

/-- A header whose name has `2 ^ 31` characters does not come through. -/
theorem parseHttpRequest_longHeader :
    ¬∃ request, parseHttpRequest (requestText getLine [longHeader (2 ^ 31 - 1)] []) .new
        = .ok request ∧ request.Stores getLine [longHeader (2 ^ 31 - 1)] := by
  refine not_stores_of_not_fits List.mem_cons_self ?_ []
  rw [HeaderField.Fits, longHeader, List.length_cons, List.length_replicate]
  norm_num

end SlimTS
