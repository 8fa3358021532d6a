import SlimTS.Library.StringLiteral
import SlimTS.Macros.Simultaneous

/-!
# The literals that are put in

The call writes the directory and the file name of its path between quotes as they are. That is a
string literal of JavaScript with the part as its value exactly when every character of the part
stands for itself in a literal and no token of a later pass stands in it. For anything else the
literal would have to make up for what is missing, and a literal has no more code units than its
text, and no more quotes than its value.

Whether a part stands for itself is decided by its ASCII characters, so the characters can be taken
for the bytes of a text in UTF-8 or for its code points.
-/

namespace SlimTS

namespace Macros

open Getline Quoted Tokens

/-- On every line the token becomes a string literal that has the value. -/
def InsertsLiteral (path token value : Str) : Prop :=
  ∀ k : ℕ, ∃ literal : Str, StringLiteral.value literal = some (units value) ∧
    Returns (List.replicate k '\n' ++ token) path (List.replicate k '\n' ++ (literal ++ ['\n']))

/-- Both tokens become literals of the parts in front of the last separator and behind it. -/
structure InsertsLiterals (directory file : Str) : Prop where
  dirname : InsertsLiteral (directory ++ '/' :: file) dirnameToken directory
  filename : InsertsLiteral (directory ++ '/' :: file) filenameToken file

/-- The parts of a path stand for themselves between quotes, and in the later passes. -/
structure Encodable (directory file : Str) : Prop where
  length_lt : (directory ++ '/' :: file).length + 2 < 2 ^ 31
  directory_plain : StringLiteral.dialect.Plain directory
  file_plain : StringLiteral.dialect.Plain file
  directory_tokens : ¬ filenameToken <:+: directory ∧ ¬ lineNumberToken <:+: directory
  file_tokens : ¬ lineNumberToken <:+: file

section

variable {directory file literal token : Str} {n : ℤ}

/-! ## The parts of the path -/

theorem directoryPart_append (hfile : '/' ∉ file) (hlength : directory.length < 2 ^ 31) :
    directoryPart (directory ++ '/' :: file) = directory := by
  rw [directoryPart, Text.findLast_append hfile, toInt_eq_self_iff.mpr ⟨by omega, by omega⟩,
    if_neg (by omega), Int.toNat_natCast, List.take_left]

theorem filePart_append (hfile : '/' ∉ file) (hlength : directory.length + 1 < 2 ^ 31) :
    filePart (directory ++ '/' :: file) = file := by
  have hposition : ((directory.length : ℤ) + 1).toNat = (directory ++ ['/']).length := by simp
  have hsplit : directory ++ '/' :: file = (directory ++ ['/']) ++ file := List.append_cons ..
  rw [filePart, Text.findLast_append hfile, toInt_eq_self_iff.mpr ⟨by omega, by omega⟩, hposition,
    hsplit, List.drop_left]

/-! ## Parts that stand for themselves -/

/-- A line with at most one token, in which nothing is found twice. -/
theorem lineFits_of_passes {first second third : Str}
    (hfirst : substituteOne dirnameToken (quote directory) token = first)
    (hsecond : substituteOne filenameToken (quote file) first = second)
    (hthird : substituteOne lineNumberToken (decimal n) second = third)
    (hlength : first.length < 2 ^ 31 ∧ second.length < 2 ^ 31 ∧ third.length < 2 ^ 31) :
    LineFits directory file n token := by
  subst hfirst hsecond hthird
  exact ⟨reachable_of_substituteOne (apart_singleton dirnameToken_mem) hlength.1,
    reachable_of_substituteOne (apart_singleton filenameToken_mem) hlength.2.1,
    reachable_of_substituteOne (apart_singleton lineNumberToken_mem) hlength.2.2⟩

theorem substituteOne_token {t : Str} (ht : t ∈ macroTokens) (r : Str) :
    substituteOne t r t = r := by
  have happend := substituteOne_append (r := r) (apart_singleton ht) [] []
  simpa [substituteOne] using happend

theorem expandLine_token {t : Str} (ht : t ∈ macroTokens) :
    expandLine directory file n t = replacement directory file (decimal n) t := by
  have happend :=
    substitute_token (f := replacement directory file (decimal n)) macroTokens_apart ht []
  rwa [List.append_nil, substitute_nil, List.append_nil] at happend

theorem lineFits_nil : LineFits directory file n [] :=
  lineFits_of_passes rfl rfl rfl (by simp)

namespace Encodable

variable (h : Encodable directory file)

include h

theorem lineFits_dirname (n : ℤ) : LineFits directory file n dirnameToken := by
  have hlength := h.length_lt
  rw [List.length_append, List.length_cons] at hlength
  have hquote : (quote directory).length < 2 ^ 31 := by
    rw [length_quote]
    omega
  refine lineFits_of_passes (substituteOne_token dirnameToken_mem _)
    (substituteOne_of_not_isInfix ?_) (substituteOne_of_not_isInfix ?_) ⟨hquote, hquote, hquote⟩
  · rw [infix_quote filenameToken_mem]
    exact h.directory_tokens.1
  · rw [infix_quote lineNumberToken_mem]
    exact h.directory_tokens.2

theorem lineFits_filename (n : ℤ) : LineFits directory file n filenameToken := by
  have hlength := h.length_lt
  rw [List.length_append, List.length_cons] at hlength
  have hquote : (quote file).length < 2 ^ 31 := by
    rw [length_quote]
    omega
  refine lineFits_of_passes (substituteOne_of_not_isInfix (by decide))
    (substituteOne_token filenameToken_mem _) (substituteOne_of_not_isInfix ?_)
    ⟨by decide, hquote, hquote⟩
  rw [infix_quote lineNumberToken_mem]
  exact h.file_tokens

end Encodable

/-! ## A token behind empty lines -/

theorem pieces_token (hline : '\n' ∉ token) (hne : token ≠ []) (k : ℕ) :
    pieces '\n' (List.replicate k '\n' ++ token) = List.replicate k [] ++ [token] := by
  rw [pieces_replicate_append, pieces_of_not_mem hline hne]

theorem expand_token (hline : '\n' ∉ token) (hne : token ≠ []) (k : ℕ) :
    expand directory file (List.replicate k '\n' ++ token)
      = List.replicate k '\n' ++ (expandLine directory file (k + 1) token ++ ['\n']) := by
  have hempty : ((List.replicate k []).mapIdx fun i line ↦
      expandLine directory file ((i : ℤ) + 1) line) = List.replicate k [] := by
    refine List.eq_replicate_iff.mpr ⟨by simp, fun line hmem ↦ ?_⟩
    obtain ⟨i, hi, rfl⟩ := List.mem_mapIdx.mp hmem
    rw [List.getElem_replicate]
    rfl
  rw [expand, pieces_token hline hne, List.mapIdx_append, hempty, terminate_append,
    terminate_replicate_nil, List.length_replicate, List.mapIdx_singleton, Nat.zero_add,
    terminate_cons, terminate_nil]

/-! ## The literals -/

/-- A token on a line of its own is expanded, if the parts of the path stand for themselves. -/
theorem Encodable.returns_token (h : Encodable directory file) (hfile : '/' ∉ file)
    (htoken : token = dirnameToken ∨ token = filenameToken) (k : ℕ) :
    Returns (List.replicate k '\n' ++ token) (directory ++ '/' :: file)
      (List.replicate k '\n'
        ++ (replacement directory file (decimal (k + 1)) token ++ ['\n'])) := by
  have hlength := h.length_lt
  rw [List.length_append, List.length_cons] at hlength
  have hdirectory := directoryPart_append hfile (show directory.length < 2 ^ 31 by omega)
  have hpart := filePart_append hfile (show directory.length + 1 < 2 ^ 31 by omega)
  have hmem : token ∈ macroTokens := mem_macroTokens.mpr (htoken.elim (.inr ∘ .inr) (.inr ∘ .inl))
  have hnumber : ¬ lineNumberToken <:+: token := by
    rcases htoken with rfl | rfl
    · decide
    · decide
  have hpieces := pieces_token (not_mem_macroToken token hmem).2.2.1
    (macroTokens_apart.ne_nil token hmem) k
  have hlines : ∀ line ∈ pieces '\n' (List.replicate k '\n' ++ token),
      line = [] ∨ line = token := by
    intro line hline
    rw [hpieces, List.mem_append, List.mem_replicate, List.mem_singleton] at hline
    exact hline.imp_left And.right
  have hfits : Fits (List.replicate k '\n' ++ token) (directory ++ '/' :: file) := by
    refine ⟨?_, fun i line hi ↦ ?_, fun i line hi hoccur ↦ ?_⟩
    · rw [Text.findLast_append hfile, toInt_eq_self_iff.mpr ⟨by omega, by omega⟩]
      omega
    · rw [hdirectory, hpart]
      rcases hlines line (List.mem_of_getElem? hi) with rfl | rfl
      · exact lineFits_nil
      · rcases htoken with rfl | rfl
        · exact h.lineFits_dirname _
        · exact h.lineFits_filename _
    · rcases hlines line (List.mem_of_getElem? hi) with rfl | rfl
      · exact absurd (List.infix_nil.mp hoccur) (macroTokens_apart.ne_nil _ lineNumberToken_mem)
      · exact absurd hoccur hnumber
  have hnone : NoReexpansion (List.replicate k '\n' ++ token) (directory ++ '/' :: file) := by
    intro line hmem
    rw [hdirectory, hpart]
    exact ⟨fun _ ↦ h.directory_tokens, fun _ ↦ h.file_tokens⟩
  have hreturns := hfits.simultaneous hnone
  rwa [Simultaneous, hdirectory, hpart, expand_token (not_mem_macroToken token hmem).2.2.1
    (macroTokens_apart.ne_nil token hmem), expandLine_token hmem] at hreturns

/-- Parts that stand for themselves are put in as literals. -/
theorem Encodable.insertsLiterals (h : Encodable directory file) (hfile : '/' ∉ file) :
    InsertsLiterals directory file where
  dirname k := ⟨quote directory, StringLiteral.value_plain h.directory_plain,
    h.returns_token hfile (.inl rfl) k⟩
  filename k := ⟨quote file, StringLiteral.value_plain h.file_plain,
    h.returns_token hfile (.inr rfl) k⟩

/-! ## What a literal says about its part -/

/-- What becomes of a token on the first line, for a path that a file can have. -/
theorem eq_of_returns_token (hfile : '/' ∉ file)
    (hlength : (directory ++ '/' :: file).length < 4096) (htoken : token ∈ macroTokens)
    (hshort : token.length ≤ 10)
    (hreturns : Returns token (directory ++ '/' :: file) (literal ++ ['\n'])) :
    literal = replacement (rescannedDirectory directory file 1) (rescannedFile file 1) (decimal 1)
      token := by
  obtain ⟨rounds, happly⟩ := hreturns
  have hfits : Fits token (directory ++ '/' :: file) := by
    refine fits_of_length ?_
    calc (token.length + 1) * ((directory ++ '/' :: file).length + 2)
          * ((directory ++ '/' :: file).length + 2) * 11
        ≤ (10 + 1) * (4095 + 2) * (4095 + 2) * 11 := by gcongr <;> omega
      _ < 2 ^ 31 := by norm_num
  rw [List.length_append, List.length_cons] at hlength
  have heq := eq_of_apply hfits happly
  have hpieces := pieces_token (not_mem_macroToken token htoken).2.2.1
    (macroTokens_apart.ne_nil token htoken) 0
  have hone : toInt (((0 : ℕ) : ℤ) + 1) = 1 := rfl
  rw [List.replicate_zero, List.replicate_zero, List.nil_append, List.nil_append] at hpieces
  rw [hpieces, List.mapIdx_singleton, terminate_cons, terminate_nil, hone,
    directoryPart_append hfile (by omega), filePart_append hfile (by omega),
    expandLine_token htoken] at heq
  exact List.append_cancel_right heq

/-- The number of code units as a weight. -/
theorem weigh_units (text : Str) :
    weigh (fun c ↦ (codePoint c.toNat).length) text = (units text).length := by
  induction text with
  | nil => rfl
  | cons c text ih => rw [weigh_cons, ih, units_cons, List.length_append]

theorem weigh_quotes_eq_count (text : Str) : weigh quotes text = text.count '"' := by
  induction text with
  | nil => rfl
  | cons c text ih =>
    rw [weigh_cons, ih, List.count_cons, Nat.add_comm, quotes]
    simp only [beq_iff_eq]

/-- A text that spells what went into the last pass has come out of it unchanged, and is plain. -/
theorem plain_of_spells {part : Str}
    (h : StringLiteral.dialect.Spells (rescannedFile part 1) (units part)) :
    StringLiteral.dialect.Plain part ∧ ¬ lineNumberToken <:+: part := by
  have hfree : ¬ lineNumberToken <:+: part := by
    intro hoccur
    have hlt := weigh_rescannedFile_lt (n := 1) (w := fun c ↦ (codePoint c.toNat).length)
      (by decide) hoccur
    rw [weigh_units, weigh_units] at hlt
    exact absurd h.length_le (Nat.not_le.mpr hlt)
  rw [rescannedFile, substituteOne_of_not_isInfix hfree] at h
  exact ⟨h.plain rfl, hfree⟩

/-- A directory that is spelled by what is put in has no file name put into it. -/
theorem not_infix_of_spells
    (h : StringLiteral.dialect.Spells (rescannedDirectory directory file n) (units directory)) :
    ¬ filenameToken <:+: directory := by
  intro hoccur
  have hlt := (quotes_lt_substituteOne hoccur file).trans_le
    (quotes_le_rescannedDirectory directory file n)
  have hcount := h.count_le
  rw [count_units] at hcount
  rw [weigh_quotes_eq_count, weigh_quotes_eq_count] at hlt
  omega

/-- Parts that are put in as literals stand for themselves, for a path that a file can have. -/
theorem InsertsLiterals.encodable (h : InsertsLiterals directory file) (hfile : '/' ∉ file)
    (hlength : (directory ++ '/' :: file).length < 4096) : Encodable directory file := by
  obtain ⟨literal, hvalue, hreturns⟩ := h.dirname 0
  obtain rfl := eq_of_returns_token hfile hlength dirnameToken_mem (by decide) hreturns
  have hdirectory := StringLiteral.spells_of_value hvalue
  have hfilename := not_infix_of_spells hdirectory
  rw [rescannedDirectory_of_not_isInfix hfilename] at hdirectory
  obtain ⟨hplain, hlineNumber⟩ := plain_of_spells hdirectory
  obtain ⟨literal, hvalue, hreturns⟩ := h.filename 0
  obtain rfl := eq_of_returns_token hfile hlength filenameToken_mem (by decide) hreturns
  obtain ⟨hplain', hlineNumber'⟩ := plain_of_spells (StringLiteral.spells_of_value hvalue)
  exact ⟨by omega, hplain, hplain', ⟨hfilename, hlineNumber⟩, hlineNumber'⟩

/-- **The parts of a path are put in as string literals** when they stand for themselves, and, for
a path no longer than a file can have, only then. -/
theorem insertsLiterals_iff (hfile : '/' ∉ file) :
    (Encodable directory file → InsertsLiterals directory file) ∧
      ((directory ++ '/' :: file).length < 4096 →
        (InsertsLiterals directory file ↔ Encodable directory file)) :=
  ⟨fun h ↦ h.insertsLiterals hfile, fun hlength ↦
    ⟨fun h ↦ h.encodable hfile hlength, fun h ↦ h.insertsLiterals hfile⟩⟩

/-- A library with its token in the name of a file. -/
theorem insertsLiterals_iff_library : InsertsLiterals "/lib".toList "__filename.mjs".toList :=
  (insertsLiterals_iff (by decide)).1
    ⟨by decide, by decide, by decide, ⟨by decide, by decide⟩, by decide⟩

/-- A quote in the name of a file. -/
theorem insertsLiterals_quoteFile : ¬∀ directory file : Str,
    (directory ++ '/' :: file).head? = some '/' → '/' ∉ file → InsertsLiterals directory file := by
  intro h
  have hinserts := h "/lib".toList "a\"b.js".toList rfl (by decide)
  exact absurd (hinserts.encodable (by decide) (by decide)).file_plain (by decide)

end

end Macros

end SlimTS
