import SlimTS.Macros.Lines

/-!
# Expansion at once

Each pass goes over what the earlier passes have put into the line. So the tokens of a line are
substituted at once exactly when no directory that is put in holds `__filename` or `__line_number`,
and no file name that is put in holds `__line_number`. That nothing else makes up for it is seen by
weighing the results: a file name put into a directory brings quotes that were not there, and a
numeral is shorter than the token it replaces.
-/

namespace SlimTS

namespace Macros

open Getline Tokens

/-- The result is the text with the tokens of each line substituted at once. -/
def Simultaneous (text path : Str) : Prop :=
  Returns text path (expand (directoryPart path) (filePart path) text)

/-- Nothing that is put into a line holds a token of a later pass. -/
def NoReexpansion (text path : Str) : Prop :=
  ∀ line ∈ pieces '\n' text,
    (dirnameToken <:+: line →
      ¬ filenameToken <:+: directoryPart path ∧ ¬ lineNumberToken <:+: directoryPart path) ∧
    (filenameToken <:+: line → ¬ lineNumberToken <:+: filePart path)

instance (text path : Str) : Decidable (NoReexpansion text path) :=
  inferInstanceAs (Decidable (∀ line ∈ pieces '\n' text, _ ∧ _))

section

variable {directory directory' file file' line text path : Str} {n m : ℤ}

/-! ## Weighing lines -/

/-- What is counted first. -/
def quotes (c : Char) : ℕ := if c = '"' then 1 else 0

theorem weigh_quotes_token {t : Str} (ht : t ∈ macroTokens) : weigh quotes t = 0 :=
  weigh_eq_zero fun c hc ↦ if_neg fun heq : c = '"' ↦ (not_mem_macroToken t ht).1 (heq ▸ hc)

theorem weigh_quote (w : Char → ℕ) (s : Str) : weigh w (quote s) = w '"' + weigh w s + w '"' := by
  rw [quote, weigh_cons, weigh_append, weigh_cons, weigh_nil, Nat.add_zero, Nat.add_assoc]

theorem weigh_quote_le {w : Char → ℕ} {s s' : Str} (h : weigh w s ≤ weigh w s') :
    weigh w (quote s) ≤ weigh w (quote s') := by
  rw [weigh_quote, weigh_quote]
  omega

theorem weigh_quote_lt {w : Char → ℕ} {s s' : Str} (h : weigh w s < weigh w s') :
    weigh w (quote s) < weigh w (quote s') := by
  rw [weigh_quote, weigh_quote]
  omega

/-- Heavier directories and file names are heavier replacements. -/
theorem weigh_replacement_le {w : Char → ℕ} (hnumber : lineNumberToken <:+: line → n = m)
    (hdirectory : dirnameToken <:+: line → weigh w directory ≤ weigh w directory')
    (hfile : filenameToken <:+: line → weigh w file ≤ weigh w file') :
    ∀ t ∈ macroTokens, t <:+: line →
      weigh w (replacement directory file (decimal n) t)
        ≤ weigh w (replacement directory' file' (decimal m) t) := by
  intro t ht hoccur
  rcases mem_macroTokens.mp ht with rfl | rfl | rfl
  · rw [hnumber hoccur]
    exact le_rfl
  · exact weigh_quote_le (hfile hoccur)
  · exact weigh_quote_le (hdirectory hoccur)

/-! ### Quotes -/

theorem quotes_le_rescannedFile (file : Str) (n : ℤ) :
    weigh quotes file ≤ weigh quotes (rescannedFile file n) := by
  refine weigh_le_substitute (apart_singleton lineNumberToken_mem) fun t ht _ ↦ ?_
  rw [List.mem_singleton.mp ht, weigh_quotes_token lineNumberToken_mem]
  exact Nat.zero_le _

theorem quotes_le_rescannedDirectory (directory file : Str) (n : ℤ) :
    weigh quotes (substituteOne filenameToken (quote file) directory)
      ≤ weigh quotes (rescannedDirectory directory file n) :=
  quotes_le_rescannedFile _ n

/-- A pass for the file name takes no quotes away. -/
theorem quotes_le_substituteOne (directory file : Str) :
    weigh quotes directory ≤ weigh quotes (substituteOne filenameToken (quote file) directory) := by
  refine weigh_le_substitute (apart_singleton filenameToken_mem) fun t ht _ ↦ ?_
  rw [List.mem_singleton.mp ht, weigh_quotes_token filenameToken_mem]
  exact Nat.zero_le _

/-- A file name that is put into a directory brings quotes. -/
theorem quotes_lt_substituteOne (hoccur : filenameToken <:+: directory) (file : Str) :
    weigh quotes directory < weigh quotes (substituteOne filenameToken (quote file) directory) := by
  have hzero : weigh quotes filenameToken = 0 := weigh_quotes_token filenameToken_mem
  refine weigh_lt_substitute (apart_singleton filenameToken_mem) (fun t ht _ ↦ ?_)
    List.mem_cons_self hoccur ?_
  · rw [List.mem_singleton.mp ht, hzero]
    exact Nat.zero_le _
  · have hone : quotes '"' = 1 := rfl
    rw [hzero, weigh_quote, hone]
    omega

/-- The passes leave no fewer quotes than the substitution at once. -/
theorem quotes_expandLine_le (hnumber : lineNumberToken <:+: line → m = n) :
    weigh quotes (expandLine directory file m line)
      ≤ weigh quotes (expandLine (rescannedDirectory directory file n) (rescannedFile file n) n
          line) :=
  weigh_substitute_le macroTokens_apart (weigh_replacement_le hnumber
    (fun _ ↦ (quotes_le_substituteOne directory file).trans
      (quotes_le_rescannedDirectory directory file n))
    fun _ ↦ quotes_le_rescannedFile file n)

theorem quotes_expandLine_lt (hnumber : lineNumberToken <:+: line → m = n)
    (hdirname : dirnameToken <:+: line) (hfilename : filenameToken <:+: directory) :
    weigh quotes (expandLine directory file m line)
      < weigh quotes (expandLine (rescannedDirectory directory file n) (rescannedFile file n) n
          line) := by
  have hlt := (quotes_lt_substituteOne hfilename file).trans_le
    (quotes_le_rescannedDirectory directory file n)
  exact weigh_substitute_lt macroTokens_apart (weigh_replacement_le hnumber (fun _ ↦ hlt.le)
    fun _ ↦ quotes_le_rescannedFile file n) dirnameToken_mem hdirname (weigh_quote_lt hlt)

/-! ### Lengths -/

/-- A numeral is shorter than its token. -/
theorem length_decimal_lt (n : ℤ) : (decimal (toInt n)).length < lineNumberToken.length :=
  lt_of_le_of_lt (length_decimal_toInt_le n) (by decide)

theorem weigh_rescannedFile_le {w : Char → ℕ}
    (hw : weigh w (decimal n) ≤ weigh w lineNumberToken) (file : Str) :
    weigh w (rescannedFile file n) ≤ weigh w file := by
  refine weigh_substitute_le_weigh (apart_singleton lineNumberToken_mem) fun t ht _ ↦ ?_
  rwa [List.mem_singleton.mp ht]

theorem weigh_rescannedFile_lt {w : Char → ℕ}
    (hw : weigh w (decimal n) < weigh w lineNumberToken) (hoccur : lineNumberToken <:+: file) :
    weigh w (rescannedFile file n) < weigh w file := by
  refine weigh_substitute_lt_weigh (apart_singleton lineNumberToken_mem) (fun t ht _ ↦ ?_)
    List.mem_cons_self hoccur hw
  rw [List.mem_singleton.mp ht]
  exact hw.le

theorem length_rescannedFile_le (file : Str) (n : ℤ) :
    weigh (fun _ ↦ 1) (rescannedFile file (toInt n)) ≤ weigh (fun _ ↦ 1) file := by
  refine weigh_rescannedFile_le ?_ file
  rw [weigh_one, weigh_one]
  exact (length_decimal_lt n).le

theorem length_rescannedFile_lt (hoccur : lineNumberToken <:+: file) (n : ℤ) :
    weigh (fun _ ↦ 1) (rescannedFile file (toInt n)) < weigh (fun _ ↦ 1) file := by
  refine weigh_rescannedFile_lt ?_ hoccur
  rw [weigh_one, weigh_one]
  exact length_decimal_lt n

/-- A directory that holds no token for the file name goes through the last pass only. -/
theorem rescannedDirectory_of_not_isInfix (hfree : ¬ filenameToken <:+: directory) (file : Str)
    (n : ℤ) : rescannedDirectory directory file n = rescannedFile directory n := by
  rw [rescannedDirectory, substituteOne_of_not_isInfix hfree, rescannedFile]

section Lines

variable (hnumber : lineNumberToken <:+: line → toInt n = m)
  (hfree : dirnameToken <:+: line → ¬ filenameToken <:+: directory)

include hnumber hfree

/-- Where no file name is put into a directory, the passes leave a line that is no longer. -/
theorem length_expandLine_le :
    weigh (fun _ ↦ 1) (expandLine (rescannedDirectory directory file (toInt n))
        (rescannedFile file (toInt n)) (toInt n) line)
      ≤ weigh (fun _ ↦ 1) (expandLine directory file m line) := by
  refine weigh_substitute_le macroTokens_apart (weigh_replacement_le hnumber (fun hoccur ↦ ?_)
    fun _ ↦ length_rescannedFile_le file n)
  rw [rescannedDirectory_of_not_isInfix (hfree hoccur)]
  exact length_rescannedFile_le directory n

theorem length_expandLine_lt_of_directory (hdirname : dirnameToken <:+: line)
    (hlineNumber : lineNumberToken <:+: directory) :
    weigh (fun _ ↦ 1) (expandLine (rescannedDirectory directory file (toInt n))
        (rescannedFile file (toInt n)) (toInt n) line)
      < weigh (fun _ ↦ 1) (expandLine directory file m line) := by
  rw [rescannedDirectory_of_not_isInfix (hfree hdirname)]
  have hlt := length_rescannedFile_lt hlineNumber n
  exact weigh_substitute_lt macroTokens_apart (weigh_replacement_le hnumber (fun _ ↦ hlt.le)
    fun _ ↦ length_rescannedFile_le file n) dirnameToken_mem hdirname (weigh_quote_lt hlt)

theorem length_expandLine_lt_of_file (hfilename : filenameToken <:+: line)
    (hlineNumber : lineNumberToken <:+: file) :
    weigh (fun _ ↦ 1) (expandLine (rescannedDirectory directory file (toInt n))
        (rescannedFile file (toInt n)) (toInt n) line)
      < weigh (fun _ ↦ 1) (expandLine directory file m line) := by
  have hlt := length_rescannedFile_lt hlineNumber n
  refine weigh_substitute_lt macroTokens_apart (weigh_replacement_le hnumber (fun hoccur ↦ ?_)
    fun _ ↦ hlt.le) filenameToken_mem hfilename (weigh_quote_lt hlt)
  rw [rescannedDirectory_of_not_isInfix (hfree hoccur)]
  exact length_rescannedFile_le directory n

end Lines

/-! ## Weighing texts -/

theorem weigh_terminate_le {w : Char → ℕ} {lines : List Str} {g h : ℕ → Str → Str}
    (hle : ∀ k line, lines[k]? = some line → weigh w (g k line) ≤ weigh w (h k line)) :
    weigh w (terminate '\n' (lines.mapIdx g)) ≤ weigh w (terminate '\n' (lines.mapIdx h)) := by
  induction lines generalizing g h with
  | nil => exact le_rfl
  | cons line lines ih =>
    have hhere := hle 0 line rfl
    have hrest := ih (g := fun k ↦ g (k + 1)) (h := fun k ↦ h (k + 1)) fun k line' hk ↦
      hle (k + 1) line' hk
    rw [List.mapIdx_cons, List.mapIdx_cons, terminate_cons, terminate_cons, weigh_append,
      weigh_append, weigh_cons, weigh_cons]
    omega

/-- Texts that weigh the same, line against heavier line, have lines that weigh the same. -/
theorem weigh_eq_of_terminate {w : Char → ℕ} {lines : List Str} {g h : ℕ → Str → Str}
    (hle : ∀ k line, lines[k]? = some line → weigh w (g k line) ≤ weigh w (h k line))
    (heq : weigh w (terminate '\n' (lines.mapIdx g)) = weigh w (terminate '\n' (lines.mapIdx h)))
    {k : ℕ} (hk : lines[k]? = some line) : weigh w (g k line) = weigh w (h k line) := by
  induction lines generalizing g h k with
  | nil => exact absurd hk (by simp)
  | cons first lines ih =>
    have hhere := hle 0 first rfl
    have hle' : ∀ k line, lines[k]? = some line →
        weigh w (g (k + 1) line) ≤ weigh w (h (k + 1) line) := fun k line' hk ↦
      hle (k + 1) line' hk
    have hrest := weigh_terminate_le (g := fun k ↦ g (k + 1)) (h := fun k ↦ h (k + 1)) hle'
    rw [List.mapIdx_cons, List.mapIdx_cons, terminate_cons, terminate_cons, weigh_append,
      weigh_append, weigh_cons, weigh_cons] at heq
    cases k with
    | zero =>
      obtain rfl : first = line := Option.some.inj hk
      omega
    | succ k =>
      refine ih (g := fun k ↦ g (k + 1)) (h := fun k ↦ h (k + 1)) hle' ?_ hk
      omega

/-! ## Expansion at once -/

/-- Without a token of a later pass in what is put in, the passes substitute at once. -/
theorem Fits.simultaneous (hfits : Fits text path) (hnone : NoReexpansion text path) :
    Simultaneous text path := by
  refine hfits.returns_expand fun k line hk ↦ ?_
  obtain ⟨hdirname, hfilename⟩ := hnone line (List.mem_of_getElem? hk)
  refine substitute_congr macroTokens_apart fun t ht hoccur ↦ ?_
  rcases mem_macroTokens.mp ht with rfl | rfl | rfl
  · rw [replacement_lineNumberToken, replacement_lineNumberToken, hfits.toInt_number hk hoccur]
  · rw [replacement_filenameToken, replacement_filenameToken, rescannedFile,
      substituteOne_of_not_isInfix (hfilename hoccur)]
  · obtain ⟨hfree, hfree'⟩ := hdirname hoccur
    rw [replacement_dirnameToken, replacement_dirnameToken,
      rescannedDirectory_of_not_isInfix hfree, rescannedFile, substituteOne_of_not_isInfix hfree']

/-- A result that is substituted at once is the result of passes that find nothing in what is put
in. -/
theorem Fits.noReexpansion (hfits : Fits text path) (hsimultaneous : Simultaneous text path) :
    NoReexpansion text path := by
  obtain ⟨rounds, happly⟩ := hsimultaneous
  have heq := eq_of_apply hfits happly
  rw [expand] at heq
  -- A file name in a directory brings quotes that the substitution at once does not have.
  have hfree : ∀ (k : ℕ) (line : Str), (pieces '\n' text)[k]? = some line → dirnameToken <:+: line →
      ¬ filenameToken <:+: directoryPart path := by
    intro k line hk hdirname hfilename
    refine absurd (weigh_eq_of_terminate (fun k line hk ↦ ?_) (congrArg (weigh quotes) heq) hk)
      (quotes_expandLine_lt (fun hoccur ↦ ?_) hdirname hfilename).ne
    · exact quotes_expandLine_le fun hoccur ↦ (hfits.toInt_number hk hoccur).symm
    · exact (hfits.toInt_number hk hoccur).symm
  -- With that excluded, a number in what is put in makes the result shorter.
  have hlength : ∀ (k : ℕ) (line : Str), (pieces '\n' text)[k]? = some line →
      weigh (fun _ ↦ 1) (expandLine (rescannedDirectory (directoryPart path) (filePart path)
          (toInt (k + 1))) (rescannedFile (filePart path) (toInt (k + 1))) (toInt (k + 1)) line)
        = weigh (fun _ ↦ 1) (expandLine (directoryPart path) (filePart path) (k + 1) line) := by
    intro k line hk
    refine weigh_eq_of_terminate (fun k line hk ↦ ?_) (congrArg (weigh fun _ ↦ 1) heq.symm) hk
    exact length_expandLine_le (hfits.toInt_number hk) (hfree k line hk)
  intro line hmem
  obtain ⟨k, hk⟩ := List.mem_iff_getElem?.mp hmem
  refine ⟨fun hdirname ↦ ⟨hfree k line hk hdirname, fun hlineNumber ↦ ?_⟩,
    fun hfilename hlineNumber ↦ ?_⟩
  · exact absurd (hlength k line hk) (length_expandLine_lt_of_directory (hfits.toInt_number hk)
      (hfree k line hk) hdirname hlineNumber).ne
  · exact absurd (hlength k line hk) (length_expandLine_lt_of_file (hfits.toInt_number hk)
      (hfree k line hk) hfilename hlineNumber).ne

/-- **The tokens are substituted at once**, within the range of an `int`, exactly when no token of a
later pass stands in what is put in; and for a path without tokens exactly within that range. -/
theorem simultaneous_iff (text path : Str) :
    (Fits text path → (Simultaneous text path ↔ NoReexpansion text path)) ∧
      (Tokenless path → '\n' ∉ path → (Simultaneous text path ↔ Fits text path)) := by
  refine ⟨fun hfits ↦ ⟨hfits.noReexpansion, hfits.simultaneous⟩, fun hpath hline ↦ ⟨?_, ?_⟩⟩
  · rintro ⟨rounds, happly⟩
    exact (linesPreserved_expand hline text).fits hpath hline happly
  · intro hfits
    exact hfits.returns_expand fun k line hk ↦ expandLine_of_fits hpath hfits hk

theorem simultaneous_iff_library :
    Simultaneous "__dirname\n__filename __line_number".toList "/lib/__filename.mjs".toList :=
  ((simultaneous_iff _ _).1 (fits_of_length (by decide))).mpr (by decide)

/-- A directory that is named as a token. -/
theorem simultaneous_filenameDirectory : ¬∀ text path : Str, Simultaneous text path := by
  intro h
  have hfits : Fits "__dirname".toList "/lib/__filename/a.js".toList := fits_of_length (by decide)
  exact absurd (hfits.noReexpansion (h _ _)) (by decide)

end

end Macros

end SlimTS
