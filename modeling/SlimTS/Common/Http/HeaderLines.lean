import SlimTS.Common.Http.Parser

/-!
# Where the header parser throws

A header line is cut at its carriage return and then at its first space. The cut before the space
starts at the beginning of the line, so only the cut behind it can start past the end: the position
of the space is put in an `int`, and one more than it is negative from `2 ^ 31 - 1` on. The start is
in range in every other case, also when there is no space at all: the position is then `-1`, and the
value starts at the beginning of the line.

`parseHttpRequest_ok_iff` says which texts go through: those in which no header line that is read
has its first space there.
-/

namespace SlimTS

open Getline

/-- What a header line is cut to. -/
def beforeReturn (line : Str) : Str := line.takeWhile (· ≠ '\r')

/-- The position behind the first space of a line has left the range of an `int`. -/
def Overflows (line : Str) : Prop := toInt (Text.find (beforeReturn line) ' ' + 1) < 0

instance (line : Str) : Decidable (Overflows line) := inferInstanceAs (Decidable (_ < _))

/-- The lines the loop cuts: those behind the request line, up to one that begins with a carriage
return, less those that begin with a space. -/
def headerLines (text : Str) : List Str :=
  ((pieces '\n' (cString text)).tail.takeWhile fun line ↦ line.head? ≠ some '\r').filter
    fun line ↦ line.head? ≠ some ' '

variable {line text : Str} {request : Request}

/-! ## Positions -/

namespace Text

/-- A character is found at position zero if the text begins with it. -/
theorem find_eq_zero_iff (s : Str) (c : Char) : find s c = 0 ↔ s.head? = some c := by
  cases s with
  | nil => simp [find, npos]
  | cons d s =>
    rw [find, List.head?_cons, Option.some_inj]
    by_cases hd : d = c
    · simp [hd]
    · rw [List.idxOf_cons_ne _ hd]
      refine iff_of_false ?_ hd
      split
      · omega
      · decide

/-- The text up to a character, which is all of it when the character does not occur. -/
theorem substr_find (s : Str) (c : Char) :
    substr s 0 (find s c) = .ok (s.takeWhile (· ≠ c)) := by
  by_cases hc : c ∈ s
  · obtain ⟨p, rest, rfl, hp⟩ := List.eq_append_cons_of_mem hc
    rw [substr_find_append hp, takeWhile_append_cons hp]
  · have hall : ∀ d ∈ s, decide (d ≠ c) = true := by
      intro d hd
      rw [decide_eq_true_eq]
      rintro rfl
      exact hc hd
    rw [find, if_neg hc, substr, if_neg (by omega), if_pos (by decide),
      List.takeWhile_eq_self_iff.mpr hall]
    rfl

/-- A position that is found is in the text. -/
theorem find_lt_length (s : Str) (c : Char) : -1 ≤ find s c ∧ find s c < s.length := by
  rw [find]
  split
  · next hc =>
    have := List.idxOf_lt_length_iff.mpr hc
    omega
  · rw [npos]
    omega

/-- `substr` from the beginning never throws. -/
theorem substr_zero (s : Str) (count : ℤ) :
    substr s 0 count = .ok (if count < 0 then s else s.take count.toNat) := by
  rw [substr, if_neg (by omega)]
  rfl

theorem substr_of_le {s : Str} {pos : ℤ} (h0 : 0 ≤ pos) (h : pos ≤ s.length) :
    substr s pos npos = .ok (s.drop pos.toNat) := by
  rw [substr, if_neg (by omega), if_pos (by decide)]

end Text

/-- The position behind the first space, if it is not negative, is in the line. -/
theorem toInt_find_le (h : ¬Overflows line) :
    0 ≤ toInt (Text.find (beforeReturn line) ' ' + 1) ∧
      toInt (Text.find (beforeReturn line) ' ' + 1) ≤ (beforeReturn line).length := by
  have hfind := Text.find_lt_length (beforeReturn line) ' '
  rw [Overflows] at h
  generalize Text.find (beforeReturn line) ' ' = p at h hfind
  rw [toInt, Int.bmod_def] at h ⊢
  omega

/-! ## One line -/

/-- The key a header line sets. -/
def headerKey (line : Str) : Str :=
  if toInt (Text.find (beforeReturn line) ' ' - 1) < 0 then beforeReturn line
  else (beforeReturn line).take (toInt (Text.find (beforeReturn line) ' ' - 1)).toNat

/-- The value a header line sets. -/
def headerValue (line : Str) : Str :=
  (beforeReturn line).drop (toInt (Text.find (beforeReturn line) ' ' + 1)).toNat

/-- The cuts of a header line, one after the other. -/
theorem parseHeaderLine_eq (line : Str) (request : Request) : parseHeaderLine line request = (do
    let value ← Text.substr (beforeReturn line)
      (toInt (Text.find (beforeReturn line) ' ' + 1)) Text.npos
    return request.setHeader (headerKey line) value) := by
  have hsub : ∀ n, toInt (toInt n - 1) = toInt (n - 1) := fun n ↦ by
    rw [sub_eq_add_neg, toInt_toInt_add, ← sub_eq_add_neg]
  rw [parseHeaderLine, Text.substr_find, ok_bind]
  simp only [hsub, toInt_toInt_add, Text.substr_zero, ok_bind]
  rfl

theorem parseHeaderLine_of_not_overflows (h : ¬Overflows line) (request : Request) :
    parseHeaderLine line request = .ok (request.setHeader (headerKey line) (headerValue line)) := by
  obtain ⟨h0, hle⟩ := toInt_find_le h
  rw [parseHeaderLine_eq, Text.substr_of_le h0 hle, ok_bind]
  rfl

theorem parseHeaderLine_of_overflows (h : Overflows line) (request : Request) :
    parseHeaderLine line request = .error .outOfRange := by
  rw [parseHeaderLine_eq, Text.substr_of_neg h]
  rfl

/-! ## The loop -/

/-- The loop ends at a line that begins with a carriage return. -/
theorem parseHeaderLines_of_return (h : line.head? = some '\r') (lines : List Str)
    (request : Request) : parseHeaderLines (line :: lines) request = .ok request :=
  if_pos ((Text.find_eq_zero_iff _ _).mpr h)

/-- It skips one that begins with a space. -/
theorem parseHeaderLines_of_space (h : line.head? = some ' ') (lines : List Str)
    (request : Request) :
    parseHeaderLines (line :: lines) request = parseHeaderLines lines request := by
  have hreturn : Text.find line '\r' ≠ 0 := by
    rw [ne_eq, Text.find_eq_zero_iff, h]
    decide
  rw [parseHeaderLines, if_neg hreturn, if_neg]
  exact not_not_intro ((Text.find_eq_zero_iff _ _).mpr h)

/-- It cuts any other. -/
theorem parseHeaderLines_of_header (hreturn : line.head? ≠ some '\r')
    (hspace : line.head? ≠ some ' ') (lines : List Str) (request : Request) :
    parseHeaderLines (line :: lines) request
      = parseHeaderLine line request >>= parseHeaderLines lines := by
  rw [ne_eq, ← Text.find_eq_zero_iff] at hreturn hspace
  rw [parseHeaderLines, if_neg hreturn, if_pos hspace]

/-- The loop goes through exactly the lines that do not overflow. -/
theorem parseHeaderLines_ok_iff (lines : List Str) (request : Request) :
    (∃ request', parseHeaderLines lines request = .ok request') ↔
      ∀ line ∈ (lines.takeWhile fun line ↦ line.head? ≠ some '\r').filter
        fun line ↦ line.head? ≠ some ' ', ¬Overflows line := by
  induction lines generalizing request with
  | nil => exact iff_of_true ⟨_, rfl⟩ fun line h ↦ absurd h List.not_mem_nil
  | cons line lines ih =>
    by_cases hreturn : line.head? = some '\r'
    · rw [parseHeaderLines_of_return hreturn,
        List.takeWhile_cons_of_neg (by rw [hreturn]; decide), List.filter_nil]
      exact iff_of_true ⟨_, rfl⟩ fun line h ↦ absurd h List.not_mem_nil
    rw [List.takeWhile_cons_of_pos (by simpa using hreturn)]
    by_cases hspace : line.head? = some ' '
    · rw [parseHeaderLines_of_space hspace, List.filter_cons_of_neg (by rw [hspace]; decide)]
      exact ih request
    rw [parseHeaderLines_of_header hreturn hspace,
      List.filter_cons_of_pos (by simpa using hspace), List.forall_mem_cons]
    by_cases hline : Overflows line
    · rw [parseHeaderLine_of_overflows hline]
      refine iff_of_false ?_ fun h ↦ h.1 hline
      rintro ⟨request', h⟩
      cases h
    · rw [parseHeaderLine_of_not_overflows hline, ok_bind, ih]
      exact (and_iff_right hline).symm

/-! ## Whole texts -/

/-- What the parser does behind the request line, of a text that has one. -/
theorem parseHttpRequest_of_pieces {lines : List Str}
    (h : pieces '\n' (cString text) = line :: lines) (request : Request) :
    parseHttpRequest text request
      = parseHeaderLines lines (parseLine1 (beforeReturn line) request) := by
  rw [parseHttpRequest, h]
  simp only
  rw [Text.substr_find, ok_bind]
  rfl

/-- **Which texts go through.** No start of a `substr` lies past the end, and the parser returns, if
and only if no header line that is read has the position behind its first space out of the range of
an `int`. -/
theorem parseHttpRequest_ok_iff (text : Str) (request : Request) :
    (∃ request', parseHttpRequest text request = .ok request') ↔
      ∀ line ∈ headerLines text, ¬Overflows line := by
  rw [headerLines]
  rcases hpieces : pieces '\n' (cString text) with - | ⟨line, lines⟩
  · rw [parseHttpRequest, hpieces]
    exact iff_of_true ⟨_, rfl⟩ fun line h ↦ absurd h List.not_mem_nil
  · rw [parseHttpRequest_of_pieces hpieces, List.tail_cons]
    exact parseHeaderLines_ok_iff lines _

/-! ## A line that overflows -/

theorem overflows_append_iff {p : Str} (hspace : ' ' ∉ p) (hreturn : '\r' ∉ p) :
    Overflows (p ++ [' ']) ↔ toInt (p.length + 1) < 0 := by
  have hline : beforeReturn (p ++ [' ']) = p ++ [' '] := by
    refine List.takeWhile_eq_self_iff.mpr fun c hc ↦ ?_
    rw [decide_eq_true_eq]
    rintro rfl
    exact hreturn (by simpa using hc)
  rw [Overflows, hline, Text.find_append hspace]

/-- A request line, and a header line that is `n` characters and a space. -/
def spaceBehind (n : ℕ) : Str := "GET".toList ++ '\n' :: (List.replicate n 'a' ++ [' '])

theorem headerLines_spaceBehind (n : ℕ) :
    headerLines (spaceBehind (n + 1)) = [List.replicate (n + 1) 'a' ++ [' ']] := by
  have hnul : '\x00' ∉ spaceBehind (n + 1) := by simp [spaceBehind]
  rw [headerLines, cString_of_not_mem hnul, spaceBehind, pieces_append_sep (by decide),
    pieces_of_not_mem (by simp) (by simp), List.tail_cons, List.replicate_succ, List.cons_append]
  rfl

theorem parseHttpRequest_spaceBehind_iff (n : ℕ) (request : Request) :
    (∃ request', parseHttpRequest (spaceBehind (n + 1)) request = .ok request')
      ↔ 0 ≤ toInt (n + 2) := by
  rw [parseHttpRequest_ok_iff, headerLines_spaceBehind, List.forall_mem_singleton,
    overflows_append_iff (by simp) (by simp), List.length_replicate, Nat.cast_add, Nat.cast_one,
    add_assoc, one_add_one_eq_two, not_lt]

/-- A space behind `2 ^ 31 - 1` characters makes the parser throw. -/
theorem parseHttpRequest_spaceBehind :
    ¬∃ request', parseHttpRequest (spaceBehind (2 ^ 31 - 1)) .new = .ok request' := by
  obtain ⟨n, hn⟩ : ∃ n, 2 ^ 31 - 1 = n + 1 := ⟨2 ^ 31 - 2, by norm_num⟩
  have hrange : toInt (n + 2) < 0 := by
    rw [toInt, Int.bmod_def]
    omega
  rw [hn, parseHttpRequest_spaceBehind_iff]
  omega

end SlimTS
