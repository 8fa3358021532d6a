import SlimTS.Macros.Passes

/-!
# The expansion of a text

The three passes that `macros::apply` makes over a line compose to one. In it the directory has gone
through the passes for the file name and the line number, and the file name through the pass for the
line number. So the expansion is the one that substitutes all tokens at once exactly when no
inserted text holds a token that a later pass looks for, as long as the positions fit in an `int`.
-/

namespace SlimTS

namespace Macros

open Getline Tokens

/-! ## The tokens -/

/-- The tokens, the one of the last pass first. -/
def macroTokens : List Str := [lineNumberToken, filenameToken, dirnameToken]

theorem mem_macroTokens {t : Str} :
    t ∈ macroTokens ↔ t = lineNumberToken ∨ t = filenameToken ∨ t = dirnameToken := by
  rw [macroTokens, List.mem_cons, List.mem_cons, List.mem_singleton]

theorem lineNumberToken_mem : lineNumberToken ∈ macroTokens := List.mem_cons_self

theorem filenameToken_mem : filenameToken ∈ macroTokens :=
  List.mem_cons_of_mem _ List.mem_cons_self

theorem dirnameToken_mem : dirnameToken ∈ macroTokens :=
  List.mem_cons_of_mem _ (List.mem_cons_of_mem _ List.mem_cons_self)

/-- No token overlaps with a token. -/
theorem macroTokens_apart : Apart macroTokens := by
  have hapart : ∀ t ∈ macroTokens, ∀ u ∈ macroTokens, ∀ v ∈ t.tails, v ≠ [] →
      (v.isPrefixOf u = true ∨ u.isPrefixOf v = true) → v = t ∧ t = u := by
    decide
  refine ⟨by decide, fun t ht u hu v hv hne hstarts ↦ ?_⟩
  refine hapart t ht u hu v ((List.mem_tails v t).mpr hv) hne ?_
  simpa only [List.isPrefixOf_iff_prefix] using hstarts

theorem apart_singleton {t : Str} (ht : t ∈ macroTokens) : Apart [t] :=
  macroTokens_apart.sublist (by simpa using ht)

/-- Neither quotes nor the characters of a numeral nor line ends stand in a token. -/
theorem not_mem_macroToken : ∀ t ∈ macroTokens, '"' ∉ t ∧ '-' ∉ t ∧ '\n' ∉ t ∧
    (∀ c : Char, c.isDigit = true → c ∉ t) ∧ t.length < 2 ^ 31 := by
  have hdigit : ∀ t ∈ macroTokens, t.any Char.isDigit = false := by decide
  intro t ht
  refine ⟨?_, ?_, ?_, fun c hc hmem ↦ ?_, ?_⟩
  · revert t
    decide
  · revert t
    decide
  · revert t
    decide
  · exact List.any_eq_false.mp (hdigit t ht) c hmem hc
  · revert t
    decide

theorem guarded_quote {t : Str} (ht : t ∈ macroTokens) (s : Str) : Guarded t (quote s) where
  first := ⟨'"', rfl, (not_mem_macroToken t ht).1⟩
  last := by
    refine ⟨'"', ?_, (not_mem_macroToken t ht).1⟩
    rw [quote, ← List.cons_append, List.getLast?_concat]

theorem isDigit_or_of_mem_decimal {n : ℤ} {c : Char} (h : c ∈ decimal n) :
    c = '-' ∨ c.isDigit = true := by
  have hdigits : c ∈ Nat.toDigits 10 n.natAbs → c.isDigit = true :=
    Nat.isDigit_of_mem_toDigits (by decide) (by decide)
  rw [decimal] at h
  split at h
  · exact (List.mem_cons.mp h).imp_right hdigits
  · exact .inr (hdigits h)

theorem decimal_ne_nil (n : ℤ) : decimal n ≠ [] := by
  rw [decimal]
  split
  · exact List.cons_ne_nil _ _
  · exact Nat.toDigits_ne_nil

theorem not_mem_of_mem_decimal {t : Str} (ht : t ∈ macroTokens) {n : ℤ} {c : Char}
    (h : c ∈ decimal n) : c ∉ t := by
  obtain ⟨-, hminus, -, hdigit, -⟩ := not_mem_macroToken t ht
  rcases isDigit_or_of_mem_decimal h with rfl | hc
  · exact hminus
  · exact hdigit c hc

theorem guarded_decimal {t : Str} (ht : t ∈ macroTokens) (n : ℤ) : Guarded t (decimal n) where
  first := by
    obtain ⟨c, rest, heq⟩ := List.exists_cons_of_ne_nil (decimal_ne_nil n)
    exact ⟨c, by rw [heq]; rfl, not_mem_of_mem_decimal ht (heq ▸ List.mem_cons_self)⟩
  last := ⟨_, List.getLast?_eq_some_getLast (decimal_ne_nil n),
    not_mem_of_mem_decimal ht (List.getLast_mem _)⟩

/-- Different numbers have different numerals. -/
theorem decimal_injective {n m : ℤ} (h : decimal n = decimal m) : n = m := by
  have hminus : ∀ k l : ℕ, '-' :: Nat.toDigits 10 k ≠ Nat.toDigits 10 l := by
    intro k l heq
    have hdigit := Nat.isDigit_of_mem_toDigits (b := 10) (n := l) (c := '-') (by decide) (by decide)
      (heq ▸ List.mem_cons_self)
    exact absurd hdigit (by decide)
  have hnat : ∀ k l : ℕ, Nat.toDigits 10 k = Nat.toDigits 10 l → k = l := by
    intro k l heq
    rw [← Nat.ofDigitChars_ten_toDigits (n := k), heq, Nat.ofDigitChars_ten_toDigits]
  rw [decimal, decimal] at h
  split at h <;> split at h
  · have := hnat _ _ (List.cons.inj h).2
    omega
  · exact absurd h (hminus _ _)
  · exact absurd h.symm (hminus _ _)
  · have := hnat _ _ h
    omega

/-- A text between quotes holds a token when the text does. -/
theorem infix_quote {t : Str} (ht : t ∈ macroTokens) {s : Str} : t <:+: quote s ↔ t <:+: s := by
  have hne := macroTokens_apart.ne_nil t ht
  have hquote := (not_mem_macroToken t ht).1
  refine ⟨fun h ↦ ?_, fun h ↦ h.trans ⟨['"'], ['"'], rfl⟩⟩
  rcases infix_append_cons (a := []) hquote hne h with h | h
  · exact absurd (List.infix_nil.mp h) hne
  · rcases infix_append_cons hquote hne h with h | h
    · exact h
    · exact absurd (List.infix_nil.mp h) hne

theorem not_infix_decimal {t : Str} (ht : t ∈ macroTokens) (n : ℤ) : ¬ t <:+: decimal n := by
  intro h
  obtain ⟨c, rest, heq⟩ := List.exists_cons_of_ne_nil (macroTokens_apart.ne_nil t ht)
  have hmem : c ∈ t := heq ▸ List.mem_cons_self
  exact not_mem_of_mem_decimal ht (h.subset hmem) hmem

/-! ## All passes -/

/-- What the tokens are replaced by. -/
def replacement (directory file number token : Str) : Str :=
  if token = dirnameToken then quote directory
  else if token = filenameToken then quote file
  else number

section

variable (directory file number : Str)

@[simp] theorem replacement_lineNumberToken :
    replacement directory file number lineNumberToken = number := rfl

@[simp] theorem replacement_filenameToken :
    replacement directory file number filenameToken = quote file := rfl

@[simp] theorem replacement_dirnameToken :
    replacement directory file number dirnameToken = quote directory := rfl

end

/-- A line with its tokens substituted at once. -/
def expandLine (directory file : Str) (lineNumber : ℤ) (lineOfText : Str) : Str :=
  substitute macroTokens (replacement directory file (decimal lineNumber)) lineOfText

/-- A text with the tokens of each line substituted at once. -/
def expand (directory file text : Str) : Str :=
  terminate '\n' ((pieces '\n' text).mapIdx fun k line ↦ expandLine directory file (k + 1) line)

/-- A file name that has gone through the last pass. -/
def rescannedFile (file : Str) (lineNumber : ℤ) : Str :=
  substituteOne lineNumberToken (decimal lineNumber) file

/-- A directory that has gone through the last two passes. -/
def rescannedDirectory (directory file : Str) (lineNumber : ℤ) : Str :=
  substituteOne lineNumberToken (decimal lineNumber)
    (substituteOne filenameToken (quote file) directory)

theorem substituteOne_quote {t : Str} (ht : t ∈ macroTokens) (r s : Str) :
    substituteOne t r (quote s) = quote (substituteOne t r s) := by
  have hquote : ∀ u ∈ [t], '"' ∉ u := by simpa using (not_mem_macroToken t ht).1
  have happly := substitute_append_cons (f := fun _ ↦ r) (apart_singleton ht) hquote
  rw [substituteOne, quote, ← List.nil_append ('"' :: (s ++ ['"'])), happly, happly]
  rfl

/-- **Three passes are one**, in which the later passes have gone over what the earlier insert. -/
theorem passes_eq (directory file : Str) (n : ℤ) (line : Str) :
    substituteOne lineNumberToken (decimal n)
        (substituteOne filenameToken (quote file)
          (substituteOne dirnameToken (quote directory) line))
      = expandLine (rescannedDirectory directory file n) (rescannedFile file n) n line := by
  have htwo : Apart [filenameToken, dirnameToken] := macroTokens_apart.sublist (by decide)
  rw [substituteOne, substituteOne, substituteOne,
    substitute_substitute htwo (by decide) (fun u hu ↦ guarded_quote filenameToken_mem directory),
    substitute_substitute macroTokens_apart (by decide) ?_]
  · refine substitute_congr macroTokens_apart fun t ht _ ↦ ?_
    rcases mem_macroTokens.mp ht with rfl | rfl | rfl
    · rfl
    · exact substituteOne_quote lineNumberToken_mem (decimal n) file
    · have hdirectory : extend (fun _ ↦ quote directory) filenameToken (quote file) dirnameToken
          = quote (substituteOne filenameToken (quote file) directory) :=
        substituteOne_quote filenameToken_mem (quote file) directory
      have hextend : extend (extend (fun _ ↦ quote directory) filenameToken (quote file))
          lineNumberToken (decimal n) dirnameToken
            = substituteOne lineNumberToken (decimal n)
                (extend (fun _ ↦ quote directory) filenameToken (quote file) dirnameToken) := rfl
      rw [hextend, hdirectory, substituteOne_quote lineNumberToken_mem]
      rfl
  · intro u hu
    have hcases : u = filenameToken ∨ u = dirnameToken := by simpa using hu
    rcases hcases with rfl | rfl
    · exact guarded_quote lineNumberToken_mem file
    · have hdirectory : extend (fun _ ↦ quote directory) filenameToken (quote file) dirnameToken
          = quote (substituteOne filenameToken (quote file) directory) :=
        substituteOne_quote filenameToken_mem (quote file) directory
      rw [hdirectory]
      exact guarded_quote lineNumberToken_mem _

/-! ## The parts of the path -/

/-- The directory as the call computes it. -/
def directoryPart (path : Str) : Str :=
  if toInt (Text.findLast path '/') < 0 then path
  else path.take (toInt (Text.findLast path '/')).toNat

/-- The file name as the call computes it, when it does. -/
def filePart (path : Str) : Str := path.drop (toInt (Text.findLast path '/' + 1)).toNat

theorem directoryName_eq (path : Str) : directoryName path = .ok (directoryPart path) := by
  rw [directoryName, Text.substr, if_neg (by omega), directoryPart, Int.toNat_zero, List.drop_zero]
  rfl

theorem findLast_range (path : Str) (c : Char) :
    -1 ≤ Text.findLast path c ∧ Text.findLast path c < path.length := by
  rw [Text.findLast]
  split
  · next hmem =>
    have hlt := List.idxOf_lt_length_iff.mpr (List.mem_reverse.mpr hmem)
    rw [List.length_reverse] at hlt
    omega
  · rw [Text.npos]
    omega

/-- The file name is computed unless the position behind the last separator becomes negative. -/
theorem fileName_eq (path : Str) : fileName path
    = if 0 ≤ toInt (Text.findLast path '/' + 1) then .ok (filePart path)
      else .error .outOfRange := by
  rw [fileName, toInt_toInt_add, Text.substr]
  by_cases h : 0 ≤ toInt (Text.findLast path '/' + 1)
  · -- Reduction to an `int` makes no position larger.
    have hle : toInt (Text.findLast path '/' + 1) ≤ path.length := by
      have hrange := findLast_range path '/'
      rw [toInt, Int.bmod_def] at h ⊢
      omega
    rw [if_neg (by omega), if_pos h, if_pos (by decide)]
    rfl
  · rw [if_pos (by omega), if_neg h]
    rfl

theorem directoryPart_isPrefix (path : Str) : directoryPart path <+: path := by
  rw [directoryPart]
  split
  · exact List.prefix_rfl
  · exact List.take_prefix _ _

theorem filePart_suffix (path : Str) : filePart path <:+ path := List.drop_suffix _ _

/-! ## Within the range of an `int` -/

/-- In each pass over the line the positions fit in an `int`. -/
structure LineFits (directory file : Str) (lineNumber : ℤ) (line : Str) : Prop where
  dirname : Reachable dirnameToken (quote directory) line
  filename : Reachable filenameToken (quote file)
    (substituteOne dirnameToken (quote directory) line)
  lineNumber : Reachable lineNumberToken (decimal lineNumber)
    (substituteOne filenameToken (quote file) (substituteOne dirnameToken (quote directory) line))

/-- Everything the call puts in an `int` and uses fits in one. -/
structure Fits (text path : Str) : Prop where
  /-- The position behind the last separator of the path does not become negative. -/
  separator : 0 ≤ toInt (Text.findLast path '/' + 1)
  /-- The positions in the lines. -/
  lines : ∀ (k : ℕ) (line : Str), (pieces '\n' text)[k]? = some line →
    LineFits (directoryPart path) (filePart path) (toInt (k + 1)) line
  /-- The numbers of the lines that ask for them. -/
  numbers : ∀ (k : ℕ) (line : Str), (pieces '\n' text)[k]? = some line →
    lineNumberToken <:+: line → k + 1 < 2 ^ 31

theorem applyLine_of_fits {directory file line : Str} {n : ℤ}
    (h : LineFits directory file n line) : ∃ least, ∀ rounds ≥ least,
      applyLine rounds directory file n line
        = .ok (expandLine (rescannedDirectory directory file n) (rescannedFile file n) n line) := by
  refine ⟨line.length + (substituteOne dirnameToken (quote directory) line).length
    + (substituteOne filenameToken (quote file)
        (substituteOne dirnameToken (quote directory) line)).length + 1, fun rounds hrounds ↦ ?_⟩
  have hfirst := replaceFrom_of_reachable (apart_singleton dirnameToken_mem)
    (guarded_quote dirnameToken_mem directory) h.dirname (show line.length < rounds by omega)
  have hsecond := replaceFrom_of_reachable (apart_singleton filenameToken_mem)
    (guarded_quote filenameToken_mem file) h.filename (show _ < rounds by omega)
  have hthird := replaceFrom_of_reachable (apart_singleton lineNumberToken_mem)
    (guarded_decimal lineNumberToken_mem n) h.lineNumber (show _ < rounds by omega)
  rw [applyLine, replaceToken, if_pos rfl, hfirst, ok_bind, replaceToken, if_pos rfl, hsecond,
    ok_bind, replaceToken, if_neg Bool.false_ne_true, hthird, passes_eq]

/-- Whatever the rounds, that is the result. -/
theorem eq_of_applyLine {directory file line : Str} {n : ℤ} (h : LineFits directory file n line)
    {rounds : ℕ} {result : Str} (happly : applyLine rounds directory file n line = .ok result) :
    result = expandLine (rescannedDirectory directory file n) (rescannedFile file n) n line := by
  rw [applyLine] at happly
  obtain ⟨first, hfirst, happly⟩ := bind_eq_ok happly
  obtain ⟨second, hsecond, hthird⟩ := bind_eq_ok happly
  obtain rfl := eq_of_replaceFrom (apart_singleton dirnameToken_mem)
    (guarded_quote dirnameToken_mem directory) h.dirname hfirst
  obtain rfl := eq_of_replaceFrom (apart_singleton filenameToken_mem)
    (guarded_quote filenameToken_mem file) h.filename hsecond
  rw [eq_of_replaceFrom (apart_singleton lineNumberToken_mem)
    (guarded_decimal lineNumberToken_mem n) h.lineNumber hthird, passes_eq]

/-! ## The loop over the lines -/

/-- The loop has a result when each line has one. -/
theorem applyLines_of_lines {directory file : Str} {start : ℕ} {lines : List Str}
    {g : ℕ → Str → Str}
    (h : ∀ k line, lines[k]? = some line → ∃ least, ∀ rounds ≥ least,
      applyLine rounds directory file (toInt ((start + k : ℕ) + 1)) line = .ok (g k line)) :
    ∃ least, ∀ rounds ≥ least, applyLines rounds directory file (toInt start) lines
      = .ok (terminate '\n' (lines.mapIdx g)) := by
  induction lines generalizing start g with
  | nil => exact ⟨0, fun _ _ ↦ rfl⟩
  | cons line lines ih =>
    obtain ⟨least, hline⟩ := h 0 line rfl
    have hrest : ∀ k line', lines[k]? = some line' → ∃ least, ∀ rounds ≥ least,
        applyLine rounds directory file (toInt ((start + 1 + k : ℕ) + 1)) line'
          = .ok (g (k + 1) line') := by
      intro k line' hk
      have hnext := h (k + 1) line' hk
      rwa [show start + (k + 1) = start + 1 + k by omega] at hnext
    obtain ⟨least', hlines⟩ := ih (g := fun k ↦ g (k + 1)) hrest
    -- Rounds that are enough for this line and for those behind it.
    refine ⟨max least least', fun rounds hrounds ↦ ?_⟩
    have hline' := hline rounds (le_of_max_le_left hrounds)
    have hlines' := hlines rounds (le_of_max_le_right hrounds)
    rw [Nat.add_zero] at hline'
    rw [Nat.cast_add, Nat.cast_one] at hlines'
    rw [applyLines, toInt_toInt_add, hline', ok_bind, hlines', ok_bind, List.mapIdx_cons,
      terminate_cons]
    rfl

/-- A result of the loop is made of results for the lines. -/
theorem lines_of_applyLines {rounds : ℕ} {directory file : Str} {start : ℕ} {lines : List Str}
    {result : Str} (h : applyLines rounds directory file (toInt start) lines = .ok result) :
    ∃ results : List Str, result = terminate '\n' results ∧ results.length = lines.length ∧
      ∀ k line, lines[k]? = some line → ∃ applied, results[k]? = some applied ∧
        applyLine rounds directory file (toInt ((start + k : ℕ) + 1)) line = .ok applied := by
  induction lines generalizing start result with
  | nil => exact ⟨[], (Except.ok.inj h).symm, rfl, by simp⟩
  | cons line lines ih =>
    rw [applyLines, toInt_toInt_add] at h
    obtain ⟨applied, happlied, h⟩ := bind_eq_ok h
    obtain ⟨rest, hrest, h⟩ := bind_eq_ok h
    have hnext : applyLines rounds directory file (toInt (start + 1 : ℕ)) lines = .ok rest := by
      rw [Nat.cast_add, Nat.cast_one]
      exact hrest
    obtain ⟨results, rfl, hlength, hresults⟩ := ih hnext
    refine ⟨applied :: results, ?_, congrArg (· + 1) hlength, fun k line' hk ↦ ?_⟩
    · rw [terminate_cons]
      exact (Except.ok.inj h).symm
    · cases k with
      | zero =>
        obtain rfl : line = line' := Option.some.inj hk
        exact ⟨applied, rfl, happlied⟩
      | succ k =>
        rw [show start + (k + 1) = start + 1 + k by omega]
        exact hresults k line' hk

/-- **The call within the range of an `int`.** -/
theorem apply_of_fits {text path : Str} (h : Fits text path) :
    Returns text path (terminate '\n' ((pieces '\n' text).mapIdx fun k line ↦
      expandLine (rescannedDirectory (directoryPart path) (filePart path) (toInt (k + 1)))
        (rescannedFile (filePart path) (toInt (k + 1))) (toInt (k + 1)) line)) := by
  have hline : ∀ (k : ℕ) (line : Str), (pieces '\n' text)[k]? = some line → ∃ least,
      ∀ rounds ≥ least, applyLine rounds (directoryPart path) (filePart path)
          (toInt ((0 + k : ℕ) + 1)) line
        = .ok (expandLine (rescannedDirectory (directoryPart path) (filePart path) (toInt (k + 1)))
            (rescannedFile (filePart path) (toInt (k + 1))) (toInt (k + 1)) line) := by
    intro k line hk
    rw [Nat.zero_add]
    exact applyLine_of_fits (h.lines k line hk)
  obtain ⟨least, hlines⟩ := applyLines_of_lines hline
  refine ⟨least, ?_⟩
  rw [apply, directoryName_eq, ok_bind, fileName_eq, if_pos h.separator, ok_bind]
  exact hlines least le_rfl

/-- Lines that the passes expand at once make a text that is expanded at once. -/
theorem Fits.returns_expand {text path : Str} (hfits : Fits text path)
    (hlines : ∀ (k : ℕ) (line : Str), (pieces '\n' text)[k]? = some line →
      expandLine (rescannedDirectory (directoryPart path) (filePart path) (toInt (k + 1)))
          (rescannedFile (filePart path) (toInt (k + 1))) (toInt (k + 1)) line
        = expandLine (directoryPart path) (filePart path) (k + 1) line) :
    Returns text path (expand (directoryPart path) (filePart path) text) := by
  have hreturns := apply_of_fits hfits
  have hexpanded : ((pieces '\n' text).mapIdx fun k line ↦
      expandLine (rescannedDirectory (directoryPart path) (filePart path) (toInt (k + 1)))
        (rescannedFile (filePart path) (toInt (k + 1))) (toInt (k + 1)) line)
      = (pieces '\n' text).mapIdx fun k line ↦
          expandLine (directoryPart path) (filePart path) (k + 1) line := by
    refine List.ext_getElem? fun k ↦ ?_
    rw [List.getElem?_mapIdx, List.getElem?_mapIdx]
    cases hk : (pieces '\n' text)[k]? with
    | none => rw [Option.map_none, Option.map_none]
    | some line => rw [Option.map_some, Option.map_some, hlines k line hk]
  rwa [hexpanded] at hreturns

/-- The number of a line within the range of an `int`. -/
theorem Fits.toInt_number {text path line : Str} (hfits : Fits text path) {k : ℕ}
    (hk : (pieces '\n' text)[k]? = some line) (hoccur : lineNumberToken <:+: line) :
    toInt ((k : ℤ) + 1) = k + 1 := by
  have hnumber := hfits.numbers k line hk hoccur
  exact toInt_eq_self_iff.mpr ⟨by omega, by omega⟩

/-- The call has a result only if the path has a file name, and then each line has one. -/
theorem lines_of_apply {text path result : Str} {rounds : ℕ}
    (h : apply rounds text path = .ok result) : 0 ≤ toInt (Text.findLast path '/' + 1) ∧
      ∃ results : List Str, result = terminate '\n' results ∧
        results.length = (pieces '\n' text).length ∧
        ∀ (k : ℕ) (line : Str), (pieces '\n' text)[k]? = some line →
          ∃ applied, results[k]? = some applied ∧
            applyLine rounds (directoryPart path) (filePart path) (toInt (k + 1)) line
              = .ok applied := by
  rw [apply, directoryName_eq, ok_bind, fileName_eq] at h
  obtain ⟨file, hfile, h⟩ := bind_eq_ok h
  split at hfile
  · next hseparator =>
    rw [← Except.ok.inj hfile] at h
    have hzero : applyLines rounds (directoryPart path) (filePart path) (toInt (0 : ℕ))
        (pieces '\n' text) = .ok result := h
    obtain ⟨results, heq, hlength, hresults⟩ := lines_of_applyLines hzero
    simp only [Nat.zero_add] at hresults
    exact ⟨hseparator, results, heq, hlength, hresults⟩
  · exact absurd hfile (by simp)

/-- Within the range of an `int`, whatever the rounds, that is the result. -/
theorem eq_of_apply {text path result : Str} (hfits : Fits text path) {rounds : ℕ}
    (h : apply rounds text path = .ok result) :
    result = terminate '\n' ((pieces '\n' text).mapIdx fun k line ↦
      expandLine (rescannedDirectory (directoryPart path) (filePart path) (toInt (k + 1)))
        (rescannedFile (filePart path) (toInt (k + 1))) (toInt (k + 1)) line) := by
  obtain ⟨-, results, rfl, hlength, hresults⟩ := lines_of_apply h
  refine congrArg _ (List.ext_getElem? fun k ↦ ?_)
  rw [List.getElem?_mapIdx]
  cases hk : (pieces '\n' text)[k]? with
  | none =>
    rw [List.getElem?_eq_none_iff] at hk
    rw [Option.map_none, List.getElem?_eq_none_iff, hlength]
    exact hk
  | some line =>
    obtain ⟨applied, hk', happlied⟩ := hresults k line hk
    rw [hk', Option.map_some, eq_of_applyLine (hfits.lines k line hk) happlied]

/-! ## Short texts -/

section
variable {t r line text path : Str} {m : ℕ}

theorem length_decimal_toInt_le (n : ℤ) : (decimal (toInt n)).length ≤ 11 := by
  have hrange := toInt_range n
  have hdigits : (Nat.toDigits 10 (toInt n).natAbs).length ≤ 10 :=
    (Nat.length_toDigits_le_iff (by decide) (by decide)).mpr (by omega)
  rw [decimal]
  split
  · rw [List.length_cons]
    omega
  · omega

theorem succ_length_substituteOne_le (ht : Apart [t]) (hr : r.length ≤ m) (hm : 1 ≤ m)
    (line : Str) : (substituteOne t r line).length + 1 ≤ (line.length + 1) * m := by
  have hlength : (substituteOne t r line).length ≤ line.length * m :=
    length_substitute_le ht hm (fun _ _ ↦ hr) line
  rw [Nat.add_mul, Nat.one_mul]
  exact Nat.add_le_add hlength hm

/-- In a line that is short when the pass is done each token is found within the range of an
`int`. -/
theorem reachable_of_substituteOne (ht : Apart [t])
    (h : (substituteOne t r line).length < 2 ^ 31) : Reachable t r line := by
  rintro a b rfl
  rw [substituteOne_append ht, List.length_append, List.length_append] at h
  exact ⟨by omega, fun _ ↦ by omega⟩

theorem reachable_of_length (ht : Apart [t]) (hr : r.length ≤ m) (hm : 1 ≤ m)
    (h : (line.length + 1) * m < 2 ^ 31) : Reachable t r line := by
  have hlength := succ_length_substituteOne_le ht hr hm line
  exact reachable_of_substituteOne ht (by omega)

/-- A short line fits, with short replacements. -/
theorem lineFits_of_length {directory file : Str} (hdirectory : directory.length + 2 ≤ m)
    (hfile : file.length + 2 ≤ m) (n : ℤ) (h : (line.length + 1) * m * m * 11 < 2 ^ 31) :
    LineFits directory file (toInt n) line := by
  have hm : 1 ≤ m := by omega
  rw [← length_quote] at hdirectory hfile
  have hdirname : Apart [dirnameToken] := apart_singleton dirnameToken_mem
  have hfilename : Apart [filenameToken] := apart_singleton filenameToken_mem
  -- Each pass makes the line longer by no more than a factor.
  have hfirst := succ_length_substituteOne_le hdirname hdirectory hm line
  have hsecond := succ_length_substituteOne_le hfilename hfile hm
    (substituteOne dirnameToken (quote directory) line)
  have hfirst' := Nat.mul_le_mul_right m hfirst
  have hsecond' := Nat.mul_le_mul_right 11 (hsecond.trans hfirst')
  have hgrow : (line.length + 1) * m ≤ (line.length + 1) * m * m := Nat.le_mul_of_pos_right _ hm
  refine ⟨reachable_of_length hdirname hdirectory hm ?_,
    reachable_of_length hfilename hfile hm ?_,
    reachable_of_length (apart_singleton lineNumberToken_mem) (length_decimal_toInt_le n)
      (by decide) ?_⟩
  · omega
  · omega
  · omega

/-- **Short texts with short paths fit.** -/
theorem fits_of_length
    (h : (text.length + 1) * (path.length + 2) * (path.length + 2) * 11 < 2 ^ 31) :
    Fits text path := by
  have hpos : 1 ≤ path.length + 2 := by omega
  have htext : text.length + 1 ≤ (text.length + 1) * (path.length + 2) * (path.length + 2) :=
    (Nat.le_mul_of_pos_right _ hpos).trans (Nat.le_mul_of_pos_right _ hpos)
  have hpath : path.length + 2 ≤ (text.length + 1) * (path.length + 2) * (path.length + 2) :=
    Nat.le_mul_of_pos_left _ (Nat.mul_pos (Nat.succ_pos _) hpos)
  refine ⟨?_, fun k line hk ↦ ?_, fun k line hk _ ↦ ?_⟩
  · have hrange := findLast_range path '/'
    rw [toInt_eq_self_iff.mpr (by omega)]
    omega
  · have hdirectory := (directoryPart_isPrefix path).length_le
    have hfile := (filePart_suffix path).length_le
    have hline := (infix_of_mem_pieces (List.mem_of_getElem? hk)).length_le
    refine lineFits_of_length (m := path.length + 2) (by omega) (by omega) _ (lt_of_le_of_lt ?_ h)
    gcongr
  · have hlt := (List.getElem?_eq_some_iff.mp hk).1
    have hpieces : (pieces '\n' text).length ≤ text.length := length_pieces_le text
    omega

end

end Macros

end SlimTS
