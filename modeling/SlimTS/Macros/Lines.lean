import SlimTS.Macros.Expansion

/-!
# The lines of an expanded text

For a path that holds no token and no line end, the expansion keeps the lines: each becomes one line
of the result, with its tokens substituted where they stand. The only thing in the way is the width
of an `int`: a token that is found beyond its range is still in the result, a line number beyond it
is not the number of the line, and a path with a separator there may have no file name.
-/

namespace SlimTS

namespace Macros

open Getline Tokens

/-- The result has the lines of the text, expanded. -/
structure LinesPreserved (text path result : Str) : Prop where
  /-- One line for each line of the text, with the numeral of its number for `__line_number`. -/
  lines : pieces '\n' result = (pieces '\n' text).mapIdx fun k line ↦
    expandLine (directoryPart path) (filePart path) (k + 1) line
  /-- Each line is ended. -/
  ended : result = terminate '\n' (pieces '\n' result)
  /-- A text without tokens comes back, with a line end at its end. -/
  unchanged : (∀ t ∈ macroTokens, ¬ t <:+: text) →
    result = if text = [] ∨ text.getLast? = some '\n' then text else text ++ ['\n']

/-- Both overloads return one result, which has the lines of the text. -/
def PreservesLines (text path : Str) : Prop :=
  ∃ rounds result, apply rounds text path = .ok result ∧
    applyPointer rounds (some text) path = .ok result ∧ LinesPreserved text path result

/-- The path holds no token. -/
def Tokenless (path : Str) : Prop := ∀ t ∈ macroTokens, ¬ t <:+: path

instance (path : Str) : Decidable (Tokenless path) :=
  inferInstanceAs (Decidable (∀ t ∈ macroTokens, ¬ t <:+: path))

section

variable {directory file line path : Str} {n : ℤ}

theorem Tokenless.of_isInfix {part : Str} (h : Tokenless path) (hpart : part <:+: path) :
    Tokenless part :=
  fun t ht hoccur ↦ h t ht (hoccur.trans hpart)

/-! ## Lines without surprises -/

theorem rescannedFile_of_tokenless (hfile : Tokenless file) (n : ℤ) : rescannedFile file n = file :=
  substituteOne_of_not_isInfix (hfile _ lineNumberToken_mem)

theorem rescannedDirectory_of_tokenless (hdirectory : Tokenless directory) (file : Str) (n : ℤ) :
    rescannedDirectory directory file n = directory := by
  rw [rescannedDirectory, substituteOne_of_not_isInfix (hdirectory _ filenameToken_mem),
    substituteOne_of_not_isInfix (hdirectory _ lineNumberToken_mem)]

theorem guarded_replacement {t : Str} (ht : t ∈ macroTokens) (directory file : Str) (n : ℤ)
    (u : Str) : Guarded t (replacement directory file (decimal n) u) := by
  rw [replacement]
  split
  · exact guarded_quote ht directory
  split
  · exact guarded_quote ht file
  · exact guarded_decimal ht n

theorem not_infix_replacement {t : Str} (ht : t ∈ macroTokens) (hdirectory : Tokenless directory)
    (hfile : Tokenless file) (n : ℤ) (u : Str) :
    ¬ t <:+: replacement directory file (decimal n) u := by
  rw [replacement]
  split
  · rw [infix_quote ht]
    exact hdirectory t ht
  split
  · rw [infix_quote ht]
    exact hfile t ht
  · exact not_infix_decimal ht n

/-- No token is left in an expanded line. -/
theorem tokenless_expandLine (hdirectory : Tokenless directory) (hfile : Tokenless file) (n : ℤ)
    (line : Str) : Tokenless (expandLine directory file n line) :=
  fun _ ht ↦ not_infix_substitute macroTokens_apart ht
    (fun u _ ↦ guarded_replacement ht directory file n u)
    (fun u _ ↦ not_infix_replacement ht hdirectory hfile n u) line

theorem not_mem_quote {c : Char} (hc : c ≠ '"') {s : Str} (hs : c ∉ s) : c ∉ quote s := by
  rw [quote, List.mem_cons, List.mem_append, List.mem_singleton]
  rintro (h | h | h)
  · exact hc h
  · exact hs h
  · exact hc h

theorem newline_not_mem_decimal (n : ℤ) : '\n' ∉ decimal n := by
  intro hmem
  rcases isDigit_or_of_mem_decimal hmem with h | h
  · exact absurd h (by decide)
  · exact absurd h (by decide)

/-- An expanded line is a line. -/
theorem newline_not_mem_expandLine (hline : '\n' ∉ line) (hdirectory : '\n' ∉ directory)
    (hfile : '\n' ∉ file) (n : ℤ) : '\n' ∉ expandLine directory file n line := by
  intro hmem
  rcases mem_of_mem_substitute macroTokens_apart hmem with h | ⟨t, -, h⟩
  · exact hline h
  rw [replacement] at h
  split at h
  · exact not_mem_quote (by decide) hdirectory h
  split at h
  · exact not_mem_quote (by decide) hfile h
  · exact newline_not_mem_decimal n h

/-- The three passes leave a line a line. -/
theorem newline_not_mem_applyLine (hline : '\n' ∉ line) (hdirectory : '\n' ∉ directory)
    (hfile : '\n' ∉ file) {rounds : ℕ} {result : Str}
    (h : applyLine rounds directory file n line = .ok result) : '\n' ∉ result := by
  rw [applyLine] at h
  obtain ⟨first, hfirst, h⟩ := bind_eq_ok h
  obtain ⟨second, hsecond, hthird⟩ := bind_eq_ok h
  have hnot : ∀ {t r line result : Str}, '\n' ∉ line → '\n' ∉ r →
      replaceFrom t r rounds 0 line = .ok result → '\n' ∉ result := fun hline hr h hmem ↦
    (mem_of_mem_replaceFrom h hmem).elim hline hr
  have hfirst' := hnot hline (not_mem_quote (by decide) hdirectory) hfirst
  have hsecond' := hnot hfirst' (not_mem_quote (by decide) hfile) hsecond
  exact hnot hsecond' (newline_not_mem_decimal n) hthird

/-! ## Lines beyond the range of an `int` -/

/-- A pass leaves a token of another kind in the line, or one of its own. -/
theorem infix_or_infix_of_replaceFrom {t u r : Str} (ht : t ∈ macroTokens) (hu : u ∈ macroTokens)
    (hne : u ≠ t) (hr : Guarded t r) (hfree : ¬ t <:+: r) (hoccur : u <:+: line) {rounds : ℕ}
    {result : Str} (h : replaceFrom t r rounds 0 line = .ok result) :
    u <:+: result ∨ t <:+: result := by
  by_cases hreach : Reachable t r line
  · have hapart : Apart [u, t] := macroTokens_apart.sublist (by simp [ht, hu])
    left
    rw [eq_of_replaceFrom (apart_singleton ht) hr hreach h]
    exact infix_substitute hapart (by simpa using hne) hoccur
  · exact .inr (infix_of_not_reachable (apart_singleton ht) (not_mem_macroToken t ht).2.2.2.2 hr
      hfree hreach h)

/-- **A line whose positions do not fit** keeps a token, if it has a result at all. -/
theorem lineFits_of_tokenless (hdirectory : Tokenless directory) (hfile : Tokenless file)
    {rounds : ℕ} {result : Str} (h : applyLine rounds directory file n line = .ok result)
    (hresult : Tokenless result) : LineFits directory file n line := by
  have hquoteDirectory : ¬ dirnameToken <:+: quote directory :=
    fun hoccur ↦ hdirectory _ dirnameToken_mem ((infix_quote dirnameToken_mem).mp hoccur)
  have hquoteFile : ¬ filenameToken <:+: quote file :=
    fun hoccur ↦ hfile _ filenameToken_mem ((infix_quote filenameToken_mem).mp hoccur)
  rw [applyLine] at h
  obtain ⟨first, hfirst, h⟩ := bind_eq_ok h
  obtain ⟨second, hsecond, hthird⟩ := bind_eq_ok h
  -- A token that one pass leaves is still there after the next, or another is.
  have hsecond' : ∀ u ∈ macroTokens, u ≠ lineNumberToken → ¬ u <:+: second := by
    intro u hu hne hoccur
    exact (infix_or_infix_of_replaceFrom lineNumberToken_mem hu hne
      (guarded_decimal lineNumberToken_mem n) (not_infix_decimal lineNumberToken_mem n) hoccur
      hthird).elim (hresult u hu) (hresult _ lineNumberToken_mem)
  have hfirst' : ¬ dirnameToken <:+: first := by
    intro hoccur
    exact (infix_or_infix_of_replaceFrom filenameToken_mem dirnameToken_mem (by decide)
      (guarded_quote filenameToken_mem file) hquoteFile hoccur hsecond).elim
      (hsecond' _ dirnameToken_mem (by decide)) (hsecond' _ filenameToken_mem (by decide))
  have hreach : ∀ {t r line result : Str}, t ∈ macroTokens → Guarded t r → ¬ t <:+: r →
      replaceFrom t r rounds 0 line = .ok result → ¬ t <:+: result → Reachable t r line :=
    fun ht hr hfree h hnot ↦ by
      by_contra hreach
      exact hnot (infix_of_not_reachable (apart_singleton ht) (not_mem_macroToken _ ht).2.2.2.2 hr
        hfree hreach h)
  have hreach₁ := hreach dirnameToken_mem (guarded_quote dirnameToken_mem directory)
    hquoteDirectory hfirst hfirst'
  obtain rfl := eq_of_replaceFrom (apart_singleton dirnameToken_mem)
    (guarded_quote dirnameToken_mem directory) hreach₁ hfirst
  have hreach₂ := hreach filenameToken_mem (guarded_quote filenameToken_mem file) hquoteFile hsecond
    (hsecond' _ filenameToken_mem (by decide))
  obtain rfl := eq_of_replaceFrom (apart_singleton filenameToken_mem)
    (guarded_quote filenameToken_mem file) hreach₂ hsecond
  exact ⟨hreach₁, hreach₂, hreach lineNumberToken_mem (guarded_decimal lineNumberToken_mem n)
    (not_infix_decimal lineNumberToken_mem n) hthird (hresult _ lineNumberToken_mem)⟩

/-- The number is put in for one token only. -/
theorem replacement_of_ne {t : Str} (ht : t ∈ macroTokens) (hne : t ≠ lineNumberToken)
    (number number' : Str) :
    replacement directory file number t = replacement directory file number' t := by
  rcases (mem_macroTokens.mp ht).resolve_left hne with rfl | rfl
  · rfl
  · rfl

/-- The number a line is expanded with is read off it, if it asks for one. -/
theorem eq_of_expandLine_eq {m : ℤ} (hoccur : lineNumberToken <:+: line)
    (heq : expandLine directory file n line = expandLine directory file m line) : n = m := by
  have hnumber : ∀ k, replacement directory file (decimal k) lineNumberToken = decimal k :=
    fun k ↦ rfl
  -- Numerals of different lengths would make lines of different lengths.
  have hle : ∀ k l, expandLine directory file k line = expandLine directory file l line →
      (decimal l).length ≤ (decimal k).length := by
    intro k l heq
    by_contra! hlt
    have hweigh := weigh_substitute_lt (w := fun _ ↦ 1) macroTokens_apart
      (f := replacement directory file (decimal k)) (g := replacement directory file (decimal l))
      (fun t ht _ ↦ ?_) lineNumberToken_mem hoccur (by simpa only [hnumber, weigh_one] using hlt)
    · rw [← expandLine, ← expandLine, heq] at hweigh
      exact lt_irrefl _ hweigh
    · rw [weigh_one, weigh_one]
      by_cases hne : t = lineNumberToken
      · rw [hne, hnumber, hnumber]
        exact hlt.le
      · rw [replacement_of_ne ht hne (decimal k) (decimal l)]
  have hlength : (decimal n).length = (decimal m).length :=
    (hle m n heq.symm).antisymm (hle n m heq)
  refine decimal_injective ?_
  rw [← hnumber n, ← hnumber m]
  refine eq_of_substitute_eq macroTokens_apart (fun t ht ↦ ?_) heq lineNumberToken_mem hoccur
  by_cases hne : t = lineNumberToken
  · rw [hne, hnumber, hnumber, hlength]
  · rw [replacement_of_ne ht hne (decimal n) (decimal m)]

end

/-! ## The lines of the result -/

section

variable {text path : Str}

theorem tokenless_parts (hpath : Tokenless path) :
    Tokenless (directoryPart path) ∧ Tokenless (filePart path) :=
  ⟨hpath.of_isInfix (directoryPart_isPrefix path).isInfix,
    hpath.of_isInfix (filePart_suffix path).isInfix⟩

theorem newline_not_mem_parts (hline : '\n' ∉ path) :
    '\n' ∉ directoryPart path ∧ '\n' ∉ filePart path :=
  ⟨fun hmem ↦ hline ((directoryPart_isPrefix path).subset hmem),
    fun hmem ↦ hline ((filePart_suffix path).subset hmem)⟩

/-- Within the range of an `int`, a line whose path holds no token is expanded with its number. -/
theorem expandLine_of_fits (hpath : Tokenless path) (hfits : Fits text path) {k : ℕ} {line : Str}
    (hk : (pieces '\n' text)[k]? = some line) :
    expandLine (rescannedDirectory (directoryPart path) (filePart path) (toInt (k + 1)))
        (rescannedFile (filePart path) (toInt (k + 1))) (toInt (k + 1)) line
      = expandLine (directoryPart path) (filePart path) (k + 1) line := by
  obtain ⟨hdirectory, hfile⟩ := tokenless_parts hpath
  rw [rescannedDirectory_of_tokenless hdirectory, rescannedFile_of_tokenless hfile]
  refine substitute_congr macroTokens_apart fun t ht hoccur ↦ ?_
  by_cases hne : t = lineNumberToken
  · rw [hne] at hoccur
    rw [hfits.toInt_number hk hoccur]
  · exact replacement_of_ne ht hne _ _

/-- The expansion of a text whose path holds no token and no line end has its lines. -/
theorem linesPreserved_expand (hline : '\n' ∉ path) (text : Str) :
    LinesPreserved text path (expand (directoryPart path) (filePart path) text) := by
  obtain ⟨hdirectory, hfile⟩ := newline_not_mem_parts hline
  have hlines : ∀ line ∈ (pieces '\n' text).mapIdx fun k line ↦
      expandLine (directoryPart path) (filePart path) (k + 1) line, '\n' ∉ line := by
    intro line hmem
    obtain ⟨k, hk, rfl⟩ := List.mem_mapIdx.mp hmem
    exact newline_not_mem_expandLine (not_mem_of_mem_pieces (List.getElem_mem hk)) hdirectory
      hfile _
  refine ⟨pieces_terminate hlines, ?_, fun hfree ↦ ?_⟩
  · rw [expand, pieces_terminate hlines]
  · have hsame : ((pieces '\n' text).mapIdx fun k line ↦
        expandLine (directoryPart path) (filePart path) (k + 1) line) = pieces '\n' text := by
      refine List.ext_getElem? fun k ↦ ?_
      rw [List.getElem?_mapIdx]
      cases hk : (pieces '\n' text)[k]? with
      | none => rfl
      | some line =>
        have hmem : line ∈ pieces '\n' text := List.mem_iff_getElem?.mpr ⟨k, hk⟩
        exact congrArg some (substitute_of_not_isInfix fun t ht hoccur ↦
          hfree t ht (hoccur.trans (infix_of_mem_pieces hmem)))
    rw [expand, hsame, terminate_pieces]

/-- A result with the lines of the text is made within the range of an `int`. -/
theorem LinesPreserved.fits {result : Str} (hpreserved : LinesPreserved text path result)
    (hpath : Tokenless path) (hline : '\n' ∉ path) {rounds : ℕ}
    (happly : apply rounds text path = .ok result) : Fits text path := by
  obtain ⟨hdirectory, hfile⟩ := tokenless_parts hpath
  obtain ⟨hdirectory', hfile'⟩ := newline_not_mem_parts hline
  obtain ⟨hseparator, results, rfl, hlength, hresults⟩ := lines_of_apply happly
  have hlines : ∀ applied ∈ results, '\n' ∉ applied := by
    intro applied hmem
    obtain ⟨k, hk⟩ := List.mem_iff_getElem?.mp hmem
    have hlt : k < (pieces '\n' text).length := by
      rw [← hlength]
      exact (List.getElem?_eq_some_iff.mp hk).1
    obtain ⟨applied', hk', happlied⟩ := hresults k _ (List.getElem?_eq_getElem hlt)
    obtain rfl := Option.some.inj (hk.symm.trans hk')
    exact newline_not_mem_applyLine (not_mem_of_mem_pieces (List.getElem_mem hlt)) hdirectory'
      hfile' happlied
  have hexpanded := hpreserved.lines
  rw [pieces_terminate hlines] at hexpanded
  have happlied : ∀ (k : ℕ) (line : Str), (pieces '\n' text)[k]? = some line →
      applyLine rounds (directoryPart path) (filePart path) (toInt (k + 1)) line
        = .ok (expandLine (directoryPart path) (filePart path) (k + 1) line) := by
    intro k line hk
    obtain ⟨applied, hk', happlied⟩ := hresults k line hk
    rw [hexpanded, List.getElem?_mapIdx, hk, Option.map_some, Option.some_inj] at hk'
    rw [happlied, hk']
  have hfits : ∀ (k : ℕ) (line : Str), (pieces '\n' text)[k]? = some line →
      LineFits (directoryPart path) (filePart path) (toInt (k + 1)) line := fun k line hk ↦
    lineFits_of_tokenless hdirectory hfile (happlied k line hk)
      (tokenless_expandLine hdirectory hfile _ line)
  refine ⟨hseparator, hfits, fun k line hk hoccur ↦ ?_⟩
  -- The number that was put in is the number of the line.
  have heq := eq_of_applyLine (hfits k line hk) (happlied k line hk)
  rw [rescannedDirectory_of_tokenless hdirectory, rescannedFile_of_tokenless hfile] at heq
  have hrange := toInt_range ((k : ℤ) + 1)
  rw [← eq_of_expandLine_eq hoccur heq] at hrange
  omega

/-- A token that is found beyond the range of an `int` has its line not fit. -/
theorem not_fits_dirname {n : ℕ} (hn : 2 ^ 31 ≤ n) (path : Str) :
    ¬Fits (List.replicate n 'a' ++ dirnameToken) path := by
  intro hfits
  have hfree : ¬ dirnameToken <:+: List.replicate n 'a' := by
    intro hoccur
    have hmem : '_' ∈ List.replicate n 'a' := hoccur.subset List.mem_cons_self
    exact absurd (List.mem_replicate.mp hmem).2 (by decide)
  have hline : '\n' ∉ List.replicate n 'a' ++ dirnameToken := by
    rw [List.mem_append, List.mem_replicate]
    rintro (⟨-, h⟩ | h)
    · exact absurd h (by decide)
    · exact absurd h (by decide)
  have hpieces : (pieces '\n' (List.replicate n 'a' ++ dirnameToken))[0]?
      = some (List.replicate n 'a' ++ dirnameToken) := by
    rw [pieces_of_not_mem hline (List.append_ne_nil_of_right_ne_nil _ (List.cons_ne_nil _ _))]
    rfl
  have hreach := ((hfits.lines 0 _ hpieces).dirname (List.replicate n 'a') []
    (by rw [List.append_nil])).1
  rw [substituteOne_of_not_isInfix hfree, List.length_replicate] at hreach
  omega

/-- **The lines of a text are preserved**, for a path without tokens and without line ends, exactly
when everything the call puts in an `int` fits in one. -/
theorem preservesLines_iff (hpath : Tokenless path) (hline : '\n' ∉ path) (text : Str) :
    PreservesLines text path ↔ Fits text path := by
  constructor
  · rintro ⟨rounds, result, happly, -, hpreserved⟩
    exact hpreserved.fits hpath hline happly
  · intro hfits
    obtain ⟨rounds, happly⟩ := hfits.returns_expand fun k line hk ↦
      expandLine_of_fits hpath hfits hk
    exact ⟨rounds, _, happly, happly, linesPreserved_expand hline text⟩

theorem preservesLines_iff_library :
    PreservesLines "__line_number\n\n__dirname".toList "/lib/a.js".toList :=
  (preservesLines_iff (by decide) (by decide) _).mpr (fits_of_length (by decide))

/-- A token behind 2³¹ characters. -/
theorem preservesLines_farToken : ¬∀ text path : Str, Tokenless path → '\n' ∉ path →
    PreservesLines text path := by
  intro h
  have htokenless : Tokenless "/lib/a.js".toList := by decide
  obtain ⟨rounds, result, happly, -, hpreserved⟩ :=
    h (List.replicate (2 ^ 31) 'a' ++ dirnameToken) "/lib/a.js".toList htokenless (by decide)
  exact not_fits_dirname le_rfl _ (hpreserved.fits htokenless (by decide) happly)

end

end Macros

end SlimTS
