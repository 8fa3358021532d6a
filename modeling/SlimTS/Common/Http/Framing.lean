import Mathlib.Data.List.AList
import SlimTS.Common.Http.Parser

/-!
# Responses and the client that reads them

`slim::common::http::Response` and the reading of a response by an HTTP/1.1 client: the client reads
the lines up to the first empty one, looks `Content-length` up among them and takes that many bytes
of what follows. The client is not part of the program. It says what the text of a response means.

`readBody_lines` is the result: from lines, an empty line and a rest, the client reads the
announced number of bytes of the rest, wherever the header stands among the lines.
-/

namespace SlimTS

open Getline

/-- `slim::common::http::Response`. -/
structure Response where
  bodyString : Str
  versionString : Str
  responseCodeInt : ℕ
  responseCodeStringValue : Str
  headersMap : Headers
deriving DecidableEq

namespace Response

/-- A response nothing has been set in. -/
def new : Response := ⟨[], [], 0, [], ∅⟩

/-- The text of a code, where it has one. -/
def codeString (value : ℕ) (otherwise : Str) : Str :=
  if value = 200 then "OK".toList
  else if value = 404 then "Not Found".toList
  else if value = 501 then "Not Implemented".toList
  else if value = 505 then "HTTP Version Not Supported".toList
  else otherwise

variable (response : Response)

/-- `version`. -/
def version (value : Str) : Response := { response with versionString := value }

/-- `body`. -/
def body (value : Str) : Response := { response with bodyString := value }

/-- `response_code`. -/
def responseCode (value : ℕ) : Response :=
  { response with
    responseCodeInt := value
    responseCodeStringValue := codeString value response.responseCodeStringValue }

/-- `Headers::set`, of the headers of the response. -/
def setHeader (key value : Str) : Response :=
  { response with headersMap := response.headersMap.insert key value }

/-- The status line, without its line end. -/
def statusLine : Str :=
  response.versionString ++ ' ' :: (Nat.toDigits 10 response.responseCodeInt
    ++ ' ' :: response.responseCodeStringValue)

end Response

/-- A header line of a response, without its line end. -/
def headerLine (key value : Str) : Str := key ++ ':' :: ' ' :: value

/-- A line end. -/
def crlf : Str := ['\r', '\n']

/-- Each line with its line end. -/
def crlfLines (lines : List Str) : Str := lines.flatMap (· ++ crlf)

/-! ## The client -/

/-- The lines before the first empty line, with their line ends, and what follows it. -/
def splitEmptyLine : Str → Option (Str × Str)
  | [] => none
  | c :: text =>
    if (crlf ++ crlf).isPrefixOf (c :: text) then some (crlf, text.drop 3)
    else (splitEmptyLine text).map fun split ↦ (c :: split.1, split.2)

/-- What stands before the length in its header line. -/
def contentLengthPrefix : Str := "Content-length: ".toList

/-- The length a line announces. -/
def lineLength (line : Str) : Option ℕ :=
  if contentLengthPrefix.isPrefixOf line then
    some (Nat.ofDigitChars 10 (line.drop contentLengthPrefix.length) 0)
  else none

/-- The length the first line with one announces. -/
def contentLength (head : Str) : Option ℕ :=
  ((pieces '\n' head).map fun line ↦ line.takeWhile (· ≠ '\r')).findSome? lineLength

/-- What the client takes for the body. It has none when no length is announced, or when the text
ends before. -/
def readBody (text : Str) : Option Str :=
  (splitEmptyLine text).bind fun split ↦ (contentLength split.1).bind fun n ↦
    if n ≤ split.2.length then some (split.2.take n) else none

/-! ## Reading lines -/

@[simp] theorem crlfLines_nil : crlfLines [] = [] := rfl

@[simp] theorem crlfLines_cons (line : Str) (lines : List Str) :
    crlfLines (line :: lines) = line ++ (crlf ++ crlfLines lines) := by
  rw [crlfLines, List.flatMap_cons, List.append_assoc]
  rfl

theorem splitEmptyLine_crlf_crlf (rest : Str) :
    splitEmptyLine (crlf ++ (crlf ++ rest)) = some (crlf, rest) := rfl

/-- A character that begins no line end is in the line. -/
theorem splitEmptyLine_cons {c : Char} (hc : c ≠ '\r') (text : Str) :
    splitEmptyLine (c :: text)
      = (splitEmptyLine text).map fun split ↦ (c :: split.1, split.2) := by
  rw [splitEmptyLine, if_neg]
  rw [crlf, List.cons_append, List.isPrefixOf, beq_false_of_ne (Ne.symm hc), Bool.false_and]
  exact Bool.false_ne_true

theorem splitEmptyLine_append {line : Str} (h : '\r' ∉ line) (text : Str) :
    splitEmptyLine (line ++ text)
      = (splitEmptyLine text).map fun split ↦ (line ++ split.1, split.2) := by
  induction line with
  | nil => simp
  | cons c line ih =>
    rw [List.mem_cons, not_or] at h
    rw [List.cons_append, splitEmptyLine_cons (Ne.symm h.1), ih h.2, Option.map_map]
    rfl

/-- A line end with no other one behind it ends a line that is not the last. -/
theorem splitEmptyLine_crlf_cons {c : Char} (hc : c ≠ '\r') (text : Str) :
    splitEmptyLine (crlf ++ c :: text)
      = (splitEmptyLine (c :: text)).map fun split ↦ (crlf ++ split.1, split.2) := by
  rw [crlf, List.cons_append, List.cons_append, List.nil_append, splitEmptyLine, if_neg,
    splitEmptyLine_cons (by decide), Option.map_map]
  · rfl
  · simp [crlf, List.isPrefixOf, Ne.symm hc]

/-- **The lines before the first empty one** are all the lines, when none of them is empty. -/
theorem splitEmptyLine_lines {lines : List Str} (hlines : ∀ line ∈ lines, line ≠ [] ∧ LineText line)
    (hne : lines ≠ []) (rest : Str) :
    splitEmptyLine (crlfLines lines ++ (crlf ++ rest)) = some (crlfLines lines, rest) := by
  induction lines with
  | nil => exact absurd rfl hne
  | cons line lines ih =>
    have hline := (hlines line List.mem_cons_self).2.1
    rw [crlfLines_cons, List.append_assoc, List.append_assoc, splitEmptyLine_append hline]
    rcases lines with - | ⟨next, lines⟩
    · rw [crlfLines_nil, List.nil_append, splitEmptyLine_crlf_crlf, Option.map_some,
        List.append_nil]
    · have hrest := ih (fun l hl ↦ hlines l (List.mem_cons_of_mem _ hl)) (List.cons_ne_nil _ _)
      obtain ⟨hnext, htext⟩ := hlines next (List.mem_cons_of_mem _ List.mem_cons_self)
      obtain ⟨c, next, rfl⟩ := List.exists_cons_of_ne_nil hnext
      have hc : c ≠ '\r' := by
        rintro rfl
        exact htext.1 List.mem_cons_self
      rw [crlfLines_cons, List.cons_append, List.cons_append] at hrest ⊢
      rw [splitEmptyLine_crlf_cons hc, hrest]
      rfl

/-- The length announced among the lines. -/
theorem contentLength_lines {lines : List Str} (hlines : ∀ line ∈ lines, LineText line) :
    contentLength (crlfLines lines) = lines.findSome? lineLength := by
  have htext : crlfLines lines = terminate '\n' (lines.map (· ++ ['\r'])) := by
    rw [crlfLines, terminate, List.flatMap_map]
    refine List.flatMap_congr fun line _ ↦ ?_
    rw [List.append_assoc]
    rfl
  have hpieces : pieces '\n' (crlfLines lines) = lines.map (· ++ ['\r']) := by
    have hmem : ∀ line ∈ lines.map (· ++ ['\r']), '\n' ∉ line := by
      intro line hline
      obtain ⟨text, htext, rfl⟩ := List.mem_map.mp hline
      have := (hlines text htext).2.1
      simpa using this
    rw [htext, ← List.append_nil (terminate _ _), pieces_terminate_append hmem, pieces_nil,
      List.append_nil]
  rw [contentLength, hpieces, List.map_map]
  congr 1
  conv_rhs => rw [← List.map_id lines]
  exact List.map_congr_left fun line hline ↦ Text.takeWhile_append_cons (hlines line hline).1 []

/-- **What the client reads** from lines, an empty line and a rest. -/
theorem readBody_lines {lines : List Str} (hlines : ∀ line ∈ lines, line ≠ [] ∧ LineText line)
    (hne : lines ≠ []) (rest : Str) :
    readBody (crlfLines lines ++ (crlf ++ rest))
      = (lines.findSome? lineLength).bind fun n ↦
          if n ≤ rest.length then some (rest.take n) else none := by
  rw [readBody, splitEmptyLine_lines hlines hne, Option.bind_some,
    contentLength_lines fun line hline ↦ (hlines line hline).2]

/-- The length a header announces, whatever the number. -/
theorem lineLength_contentLength (n : ℕ) :
    lineLength (contentLengthPrefix ++ Nat.toDigits 10 n) = some n := by
  rw [lineLength, if_pos (List.isPrefixOf_iff_prefix.mpr (List.prefix_append _ _)),
    List.drop_left, Nat.ofDigitChars_toDigits (by decide) (by decide)]

/-- The digits of a number stand in a line. -/
theorem lineText_toDigits (n : ℕ) : LineText (Nat.toDigits 10 n) := by
  have hdigit : ∀ c : Char, c.isDigit = false → c ∉ Nat.toDigits 10 n := fun c hc hmem ↦
    Bool.false_ne_true (hc.symm.trans (Nat.isDigit_of_mem_toDigits (by decide) (by decide) hmem))
  exact ⟨hdigit _ rfl, hdigit _ rfl, hdigit _ rfl⟩

end SlimTS
