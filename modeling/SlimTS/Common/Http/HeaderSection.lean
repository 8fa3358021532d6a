import SlimTS.Common.Http.HeaderLines

/-!
# Where the header section ends

The lines of a request end in a line feed, with a carriage return before it or without one, and the
first empty line separates the header section from the body. The header loop stops at a line that
begins with a carriage return, so the empty line has to have one; an empty line without it sets a
header with an empty name and the loop goes on into the body. The first line is read as the request
line whatever it is, so an empty line there does not stop the loop either.

`headersMap_eq_iff` says when two requests that differ in the body get the same headers: when the
first empty line has its carriage return and is not the first line. The only other way is that the
loop never gets to it, because an earlier line begins with a carriage return or makes it throw.
-/

namespace SlimTS

open Getline

/-- An empty line, less its line feed. -/
def EmptyLine (line : Str) : Prop := line = [] ∨ line = ['\r']

/-- The lines of a request up to the first empty one, less their line feeds. -/
structure RequestHead where
  /-- The lines before the empty one. -/
  lines : List Str
  /-- The empty line. -/
  stop : Str
  lines_text : ∀ line ∈ lines, '\n' ∉ line ∧ '\x00' ∉ line
  lines_ne : ∀ line ∈ lines, ¬EmptyLine line
  stop_empty : EmptyLine stop

/-- The lines with the empty one. -/
def RequestHead.allLines (head : RequestHead) : List Str := head.lines ++ [head.stop]

/-- A request. -/
def RequestHead.text (head : RequestHead) (body : Str) : Str :=
  terminate '\n' head.allLines ++ body

/-- The loop does not get past a line: it stops there, or it throws. -/
def EndsLoop (line : Str) : Prop :=
  line.head? = some '\r' ∨ line.head? ≠ some ' ' ∧ Overflows line

variable {line : Str} {lines : List Str} {head : RequestHead}

/-! ## The lines of a request -/

theorem RequestHead.allLines_text (head : RequestHead) :
    ∀ line ∈ head.allLines, '\n' ∉ line ∧ '\x00' ∉ line := by
  intro line hline
  rw [allLines, List.mem_append, List.mem_singleton] at hline
  rcases hline with hline | rfl
  · exact head.lines_text line hline
  · rcases head.stop_empty with hstop | hstop <;> rw [hstop] <;> decide

/-- The lines the parser reads are those of the head, and then those of the body. -/
theorem pieces_text (head : RequestHead) (body : Str) :
    pieces '\n' (cString (head.text body)) = head.allLines ++ pieces '\n' (cString body) := by
  have hnul : '\x00' ∉ terminate '\n' head.allLines := by
    rw [mem_terminate]
    rintro ⟨line, hline, hnul | hnul⟩
    · exact (head.allLines_text line hline).2 hnul
    · exact absurd hnul (by decide)
  rw [RequestHead.text, cString_append hnul,
    pieces_terminate_append fun line hline ↦ (head.allLines_text line hline).1]

/-- Behind the request line the parser is the loop over the lines of the head and of the body. -/
theorem parseHttpRequest_text (head : RequestHead) (request : Request) :
    ∃ request', ∀ body, parseHttpRequest (head.text body) request
      = parseHeaderLines (head.allLines.tail ++ pieces '\n' (cString body)) request' := by
  have hne : head.allLines ≠ [] := List.append_ne_nil_of_right_ne_nil _ (List.cons_ne_nil _ _)
  obtain ⟨first, rest, hlines⟩ := List.exists_cons_of_ne_nil hne
  refine ⟨parseLine1 (beforeReturn first) request, fun body ↦ ?_⟩
  have hpieces := pieces_text head body
  rw [hlines, List.cons_append] at hpieces
  rw [parseHttpRequest_of_pieces hpieces, hlines, List.tail_cons]

/-! ## The loop over the head -/

/-- A line that does not end the loop is skipped or sets a header, whatever follows it. -/
theorem parseHeaderLines_of_not_endsLoop (h : ¬EndsLoop line) (request : Request) :
    ∃ request', ∀ rest,
      parseHeaderLines (line :: rest) request = parseHeaderLines rest request' := by
  rw [EndsLoop, not_or] at h
  by_cases hspace : line.head? = some ' '
  · exact ⟨request, fun rest ↦ parseHeaderLines_of_space hspace rest request⟩
  · have hfits : ¬Overflows line := fun hoverflows ↦ h.2 ⟨hspace, hoverflows⟩
    refine ⟨request.setHeader (headerKey line) (headerValue line), fun rest ↦ ?_⟩
    rw [parseHeaderLines_of_header h.1 hspace, parseHeaderLine_of_not_overflows hfits, ok_bind]

/-- Behind a line that ends the loop nothing is read. -/
theorem parseHeaderLines_of_endsLoop (h : EndsLoop line) (rest rest' : List Str)
    (request : Request) :
    parseHeaderLines (line :: rest) request = parseHeaderLines (line :: rest') request := by
  by_cases hreturn : line.head? = some '\r'
  · rw [parseHeaderLines_of_return hreturn, parseHeaderLines_of_return hreturn]
  · obtain ⟨hspace, hoverflows⟩ := h.resolve_left hreturn
    rw [parseHeaderLines_of_header hreturn hspace, parseHeaderLines_of_header hreturn hspace,
      parseHeaderLine_of_overflows hoverflows]
    rfl

/-- The loop gets through lines of which none ends it. -/
theorem parseHeaderLines_append_of_not_endsLoop (h : ∀ line ∈ lines, ¬EndsLoop line)
    (request : Request) : ∃ request', ∀ rest,
      parseHeaderLines (lines ++ rest) request = parseHeaderLines rest request' := by
  induction lines generalizing request with
  | nil => exact ⟨request, fun rest ↦ rfl⟩
  | cons line lines ih =>
    rw [List.forall_mem_cons] at h
    obtain ⟨next, hnext⟩ := parseHeaderLines_of_not_endsLoop h.1 request
    obtain ⟨last, hlast⟩ := ih h.2 next
    exact ⟨last, fun rest ↦ (hnext (lines ++ rest)).trans (hlast rest)⟩

/-- It never gets past lines of which one ends it. -/
theorem parseHeaderLines_append_of_endsLoop (h : ∃ line ∈ lines, EndsLoop line)
    (rest rest' : List Str) (request : Request) :
    parseHeaderLines (lines ++ rest) request = parseHeaderLines (lines ++ rest') request := by
  induction lines generalizing request with
  | nil => simp at h
  | cons line lines ih =>
    rw [List.exists_mem_cons_iff] at h
    by_cases hline : EndsLoop line
    · exact parseHeaderLines_of_endsLoop hline _ _ request
    · obtain ⟨next, hnext⟩ := parseHeaderLines_of_not_endsLoop hline request
      rw [List.cons_append, List.cons_append, hnext, hnext]
      exact ih (h.resolve_left hline) next

/-! ## The empty line -/

/-- The empty line ends the loop if it has a carriage return. -/
theorem endsLoop_stop_iff (head : RequestHead) : EndsLoop head.stop ↔ head.stop = ['\r'] := by
  rcases head.stop_empty with hstop | hstop
  · rw [hstop]
    exact iff_of_false (by rw [EndsLoop]; decide) (List.cons_ne_nil _ _).symm
  · rw [hstop]
    exact iff_of_true (.inl rfl) rfl

/-- A line of the head ends the loop: the empty line, or one before it. -/
theorem exists_endsLoop_iff (head : RequestHead) :
    (∃ line ∈ head.allLines.tail, EndsLoop line) ↔
      head.lines ≠ [] ∧ head.stop = ['\r'] ∨ ∃ line ∈ head.lines.tail, EndsLoop line := by
  rw [RequestHead.allLines, ← endsLoop_stop_iff]
  rcases hlines : head.lines with - | ⟨first, rest⟩
  · simp
  · simp only [List.cons_append, List.tail_cons, List.mem_append, List.mem_singleton, ne_eq,
      reduceCtorEq, not_false_eq_true, true_and, or_and_right, exists_or, exists_eq_left]
    exact or_comm

/-- The body of one header. -/
def headerBody (value : Char) : Str := ['a', ':', ' ', value]

/-- A loop that gets to the body reads it. -/
theorem parseHeaderLines_headerBody (request : Request) :
    parseHeaderLines (pieces '\n' (cString (headerBody 'b'))) request
        = .ok (request.setHeader ['a'] ['b']) ∧
      parseHeaderLines (pieces '\n' (cString (headerBody 'c'))) request
        = .ok (request.setHeader ['a'] ['c']) :=
  ⟨rfl, rfl⟩

/-- **When the headers do not depend on the body.** All requests with a given head get the same
headers, or the same exception, if and only if the first empty line has its carriage return and is
not the first line, or the loop does not get to it. -/
theorem headersMap_eq_iff (head : RequestHead) (request : Request) :
    (∀ body body', (parseHttpRequest (head.text body) request).map Request.headersMap
        = (parseHttpRequest (head.text body') request).map Request.headersMap) ↔
      head.lines ≠ [] ∧ head.stop = ['\r'] ∨ ∃ line ∈ head.lines.tail, EndsLoop line := by
  rw [← exists_endsLoop_iff]
  obtain ⟨request', hparse⟩ := parseHttpRequest_text head request
  constructor
  · intro h
    by_contra hends
    have hnot : ∀ line ∈ head.allLines.tail, ¬EndsLoop line := fun line hline hline' ↦
      hends ⟨line, hline, hline'⟩
    -- The loop gets to the body, where two headers of one name tell the requests apart.
    obtain ⟨last, hlast⟩ := parseHeaderLines_append_of_not_endsLoop hnot request'
    obtain ⟨hb, hc⟩ := parseHeaderLines_headerBody last
    have heq := h (headerBody 'b') (headerBody 'c')
    rw [hparse, hparse, hlast, hlast, hb, hc] at heq
    have hlookup := congrArg (AList.lookup ['a']) (Except.ok.inj heq)
    rw [Request.setHeader, Request.setHeader, AList.lookup_insert, AList.lookup_insert] at hlookup
    exact absurd hlookup (by decide)
  · intro hends body body'
    rw [hparse, hparse, parseHeaderLines_append_of_endsLoop hends _ (pieces '\n' (cString body'))]

/-- The lines of a request that end in a bare line feed. -/
def lineFeedHead : RequestHead where
  lines := ["GET / HTTP/1.1".toList, "Host: a".toList]
  stop := []
  lines_text := by decide
  lines_ne := by simp [EmptyLine]
  stop_empty := .inl rfl

/-- Its headers depend on the body. -/
theorem headersMap_lineFeedHead :
    (parseHttpRequest (lineFeedHead.text "x: 1".toList) .new).map Request.headersMap
      ≠ (parseHttpRequest (lineFeedHead.text "x: 2".toList) .new).map Request.headersMap := by
  intro h
  have hlookup := congrArg (Except.map fun headers ↦ headers.lookup "x".toList) h
  exact absurd hlookup (by decide)

end SlimTS
