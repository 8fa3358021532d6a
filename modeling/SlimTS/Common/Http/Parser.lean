import Mathlib.Data.List.AList
import SlimTS.Common.Text
import SlimTS.Library.Getline

/-!
# The parser of HTTP requests

`slim::common::http::parser` and the request it fills. The text is a C string, so the parser sees
it up to the first NUL. It reads line by line: the first line is the request line, and the header
lines end at one that begins with a carriage return. Positions in a line are kept in an `int`.
-/

namespace SlimTS

open Getline

/-- `slim::common::http::Headers`. -/
abbrev Headers := AList fun _ : Str ↦ Str

/-- `slim::common::http::Request`. -/
structure Request where
  methodString : Str
  pathString : Str
  versionString : Str
  headersMap : Headers
deriving DecidableEq

namespace Request

/-- A request nothing has been parsed into. -/
def new : Request := ⟨[], [], [], ∅⟩

/-- The values of the request line, by their place in it. -/
def setLine1 (request : Request) (count : ℤ) (value : Str) : Request :=
  if count = 0 then { request with methodString := value }
  else if count = 1 then { request with pathString := value }
  else if count = 2 then { request with versionString := value }
  else request

/-- `Headers::set`, of the headers of the request. -/
def setHeader (request : Request) (key value : Str) : Request :=
  { request with headersMap := request.headersMap.insert key value }

end Request

/-- The loop of `parse_line_1`, from the given count on. -/
def parseValues : ℤ → List Str → Request → Request
  | _, [], request => request
  | count, value :: values, request =>
    parseValues (toInt (count + 1)) values (request.setLine1 count value)

/-- `parse_line_1`. -/
def parseLine1 (methodString : Str) (request : Request) : Request :=
  parseValues 0 (pieces ' ' methodString) request

/-- The branch of a header line: it is cut at the carriage return, and at the first space. -/
def parseHeaderLine (line : Str) (request : Request) : Except OutOfRange Request := do
  let line ← Text.substr line 0 (Text.find line '\r')
  -- Without a space this is `npos`, and both cuts give the whole line.
  let tokenPosition := toInt (Text.find line ' ')
  let key ← Text.substr line 0 (toInt (tokenPosition - 1))
  let value ← Text.substr line (toInt (tokenPosition + 1)) Text.npos
  return request.setHeader key value

/-- The loop of `parse_http_request` from the second line on. -/
def parseHeaderLines : List Str → Request → Except OutOfRange Request
  | [], request => .ok request
  | line :: lines, request =>
    -- An empty line that ends in a bare line feed has no carriage return and does not end the loop.
    if Text.find line '\r' = 0 then .ok request
    -- What begins with a space is passed over.
    else if Text.find line ' ' ≠ 0 then do
      let request ← parseHeaderLine line request
      parseHeaderLines lines request
    else parseHeaderLines lines request

/-- What a C string holds: the characters before the first NUL. -/
def cString (text : Str) : Str := text.takeWhile (· ≠ '\x00')

/-- `parse_http_request`. -/
def parseHttpRequest (requestPointer : Str) (request : Request) : Except OutOfRange Request :=
  match pieces '\n' (cString requestPointer) with
  | [] => .ok request
  | line :: lines => do
    let line ← Text.substr line 0 (Text.find line '\r')
    parseHeaderLines lines (parseLine1 line request)

/-! ## The text the parser sees -/

/-- The characters before the first NUL of a text are those of its NUL-free beginning, and of what
follows. -/
theorem cString_append {s : Str} (hs : '\x00' ∉ s) (text : Str) :
    cString (s ++ text) = s ++ cString text := by
  refine List.takeWhile_append_of_pos fun c hc ↦ ?_
  rw [decide_eq_true_eq]
  rintro rfl
  exact hs hc

theorem cString_cons {c : Char} (hc : c ≠ '\x00') (text : Str) :
    cString (c :: text) = c :: cString text := List.takeWhile_cons_of_pos (by simpa using hc)

theorem cString_of_not_mem {s : Str} (hs : '\x00' ∉ s) : cString s = s := by
  have h := cString_append hs []
  rwa [List.append_nil, show cString [] = [] from rfl, List.append_nil] at h

theorem nul_not_mem_cString (text : Str) : '\x00' ∉ cString text := fun h ↦ by
  simpa using List.mem_takeWhile_imp h

/-- What a C string begins with. -/
theorem prefix_cString_iff {p text : Str} : p <+: cString text ↔ p <+: text ∧ '\x00' ∉ p := by
  constructor
  · intro h
    exact ⟨h.trans (List.takeWhile_prefix _), fun hnul ↦ nul_not_mem_cString text (h.subset hnul)⟩
  · rintro ⟨⟨rest, rfl⟩, hnul⟩
    rw [cString_append hnul]
    exact List.prefix_append _ _

end SlimTS
