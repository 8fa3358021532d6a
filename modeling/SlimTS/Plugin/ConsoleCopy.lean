import SlimTS.Plugin.Console

/-!
# What a copied configuration looks like

Copying writes the members of the base. The text colour and the object expansion of a level are
declared again in the derived configuration, so the copy does not reach the ones that `colorize`
and the scripts see: everything else of the target becomes what it is in the source, these two stay.

Whether texts then look alike is a question about the two text colours. `SameTextColor` answers it:
besides being equal they may both be numbers below zero, which set no colour; they may both make
`colorize` throw the same exception; and one of them may spell out the escape sequence that the
other one causes.
-/

namespace SlimTS

/-! ## What a colour means -/

/-- What `colorize` makes of a colour. -/
inductive ColorKind
  /-- A name with its code. -/
  | code (n : ℕ)
  /-- A number, which the sequence repeats as it is written. -/
  | index
  /-- A number below zero. -/
  | unset
  /-- Neither: `stoi` throws. -/
  | fault (error : StoiError)
deriving DecidableEq

/-- The kind of a colour, by its code in a table and the largest code that is none. -/
def colorKind (table : List (Str × ℕ)) (none : ℕ) (color : Str) : ColorKind :=
  if none < (table.lookup color).getD 0 then .code ((table.lookup color).getD 0)
  else match stoi color with
    | .error e => .fault e
    | .ok n => if -1 < n then .index else .unset

/-- The kind of a text colour. -/
def textKind (color : Str) : ColorKind := colorKind textColors 29 color

/-- The kind of a background colour. -/
def backgroundKind (color : Str) : ColorKind := colorKind backgroundColors 38 color

/-- The text colour, or else the background colour, makes `colorize` throw. -/
def Raises (backgroundColor textColor : Str) (e : StoiError) : Prop :=
  textKind textColor = .fault e ∨
    (∀ e', textKind textColor ≠ .fault e') ∧ backgroundKind backgroundColor = .fault e

/-- One text colour is three numbers, on a background that is a number below zero, and the other is
the same text with the background sequence it causes spelled out. -/
def SpellsOut (backgroundColor textColor textColor' : Str) : Prop :=
  backgroundKind backgroundColor = .unset ∧ textKind textColor = .index ∧
    textKind textColor' = .index ∧ isRgb textColor = true ∧ isRgb textColor' = false ∧
    textColor' = textColor ++ 'm' :: (escape ++ ("48;2;".toList ++ backgroundColor))

/-- Two text colours look alike on a background. -/
def SameTextColor (backgroundColor textColor textColor' : Str) : Prop :=
  textColor = textColor' ∨
    textKind textColor = .unset ∧ textKind textColor' = .unset ∨
    (∃ e, Raises backgroundColor textColor e ∧ Raises backgroundColor textColor' e) ∨
    SpellsOut backgroundColor textColor textColor' ∨ SpellsOut backgroundColor textColor' textColor

variable {tc tc' bg : Str}

/-! ## Texts that begin with a digit -/

/-- `stoi` reads a text that begins with a digit from there. -/
theorem stoi_eq_stoiDigits {c : Char} (hc : c.isDigit = true) (text : Str) :
    stoi (c :: text) = stoiDigits 1 (c :: text) := by
  have hne : ∀ d : Char, d.isDigit = false → c ≠ d := by
    rintro d hd rfl
    exact Bool.false_ne_true (hd.symm.trans hc)
  have hspace : isSpace c = false := by
    simp [isSpace, hne ' ' rfl, hne '\t' rfl, hne '\n' rfl, hne '\x0b' rfl, hne '\x0c' rfl,
      hne '\r' rfl]
  rw [stoi, List.dropWhile_cons_of_neg (by simp [hspace])]
  split
  · next heq => exact absurd (List.cons.inj heq).1 (hne '-' rfl)
  · next heq => exact absurd (List.cons.inj heq).1 (hne '+' rfl)
  · rfl

/-- It makes no number below zero of it. -/
theorem stoi_of_isDigit {c : Char} (hc : c.isDigit = true) (text : Str) :
    stoi (c :: text) = .error .outOfRange ∨ ∃ n, 0 ≤ n ∧ stoi (c :: text) = .ok n := by
  rw [stoi_eq_stoiDigits hc, stoiDigits, if_neg (by simp [hc])]
  simp only
  split
  · exact .inr ⟨_, by omega, rfl⟩
  · exact .inl rfl

/-- A text of three numbers begins with a digit. -/
theorem isDigit_of_isRgb (h : isRgb tc = true) : ∃ c text, tc = c :: text ∧ c.isDigit = true := by
  rw [isRgb, Bool.and_eq_true, decide_eq_true_eq, List.all_eq_true] at h
  obtain ⟨hlength, hall⟩ := h
  cases tc with
  | nil => exact absurd hlength (by simp)
  | cons c text =>
    refine ⟨c, text, rfl, ?_⟩
    rw [List.splitOn_cons_eq_if_modifyHead] at hall
    split at hall
    · exact absurd (hall [] List.mem_cons_self) (by decide)
    · obtain ⟨piece, pieces, hpieces⟩ := List.exists_cons_of_ne_nil (List.splitOn_ne_nil ';' text)
      rw [hpieces, List.modifyHead_cons] at hall
      have hpiece := hall _ List.mem_cons_self
      rw [isColorNumber, Bool.and_eq_true, Bool.and_eq_true, List.all_cons, Bool.and_eq_true]
        at hpiece
      exact hpiece.1.1.1

/-- A number below zero is no text of three numbers. -/
theorem isRgb_of_unset (h : textKind tc = .unset) : isRgb tc = false := by
  rw [Bool.eq_false_iff]
  intro hrgb
  obtain ⟨c, text, rfl, hc⟩ := isDigit_of_isRgb hrgb
  rw [textKind, colorKind] at h
  split at h
  · exact absurd h (by simp)
  · rcases stoi_of_isDigit hc text with hstoi | ⟨n, hn, hstoi⟩
    · rw [hstoi] at h
      exact absurd h (by simp)
    · rw [hstoi] at h
      simp only [if_pos (show -1 < n by omega)] at h
      exact absurd h (by simp)

/-! ## The sequences by kind -/

/-- The sequence of a colour, by its kind. -/
def kindSequence (index : Str) (color : Str) : ColorKind → Str
  | .code n => escape ++ (Nat.toDigits 10 n ++ ['m'])
  | .index => escape ++ (index ++ (color ++ ['m']))
  | .unset | .fault _ => []

/-- The sequence of a background colour, by its kind. -/
def backgroundPart (bg tc : Str) : Str :=
  if backgroundKind bg = .unset ∧ isRgb tc = true then
    escape ++ ("48;2;".toList ++ (bg ++ ['m']))
  else kindSequence "48;5;".toList bg (backgroundKind bg)

theorem textSequence_eq (tc : Str) : textSequence tc = match textKind tc with
    | .fault e => .error e
    | kind => .ok (kindSequence "38;5;".toList tc kind) := by
  have hunset := @isRgb_of_unset tc
  rw [textKind, colorKind] at *
  rw [textSequence]
  split
  · rfl
  · next hcode =>
    rw [if_neg hcode] at hunset
    rcases hstoi : stoi tc with e | n
    · rfl
    · rw [hstoi] at hunset
      rw [ok_bind]
      simp only at hunset ⊢
      split
      · rfl
      · next hn =>
        rw [hunset (if_neg hn), if_neg Bool.false_ne_true]
        rfl

theorem backgroundSequence_eq (tc bg : Str) :
    backgroundSequence tc bg = match backgroundKind bg with
      | .fault e => .error e
      | _ => .ok (backgroundPart bg tc) := by
  rw [backgroundPart, backgroundKind, colorKind, backgroundSequence]
  split
  · rfl
  · rcases hstoi : stoi bg with e | n
    · rfl
    · rw [ok_bind]
      simp only
      split
      · rfl
      · simp only [true_and]
        split
        · rfl
        · rfl

/-- The two sequences, if none of them throws. -/
def colorSequences (bg tc : Str) : Except StoiError Str := do
  let text ← textSequence tc
  let background ← backgroundSequence tc bg
  return text ++ background

theorem colorSequences_of_raises {e : StoiError} (h : Raises bg tc e) :
    colorSequences bg tc = .error e := by
  rw [colorSequences, textSequence_eq, backgroundSequence_eq]
  rcases h with h | ⟨h, hbackground⟩
  · rw [h]
    rfl
  · rw [hbackground]
    cases hkind : textKind tc with
    | fault e' => exact absurd hkind (h e')
    | code | index | unset => rfl

theorem colorSequences_of_not_raises (h : ∀ e, ¬Raises bg tc e) :
    colorSequences bg tc
      = .ok (kindSequence "38;5;".toList tc (textKind tc) ++ backgroundPart bg tc) := by
  have htext : ∀ e, textKind tc ≠ .fault e := fun e he ↦ h e (.inl he)
  have hbackground : ∀ e, backgroundKind bg ≠ .fault e := fun e he ↦ h e (.inr ⟨htext, he⟩)
  rw [colorSequences, textSequence_eq, backgroundSequence_eq]
  cases hkind : textKind tc with
  | fault e => exact absurd hkind (htext e)
  | code | index | unset =>
    cases hback : backgroundKind bg with
    | fault e => exact absurd hback (hbackground e)
    | code | index | unset => rfl

/-! ## When two sequences are the same -/

/-- The names in the table: no text of three numbers, and a sequence of five characters. -/
private theorem textColors_spec : ∀ entry ∈ textColors, isRgb entry.1 = false ∧
    (escape ++ (Nat.toDigits 10 entry.2 ++ ['m'])).length = 5 ∧
    (escape ++ (Nat.toDigits 10 entry.2 ++ ['m']))[4]? = some 'm' := by
  decide

/-- Different names have different codes. -/
private theorem textColors_injective : ∀ entry ∈ textColors, ∀ entry' ∈ textColors,
    Nat.toDigits 10 entry.2 = Nat.toDigits 10 entry'.2 → entry.1 = entry'.1 := by
  decide

theorem mem_textColors_of_code {n : ℕ} (h : textKind tc = .code n) : (tc, n) ∈ textColors := by
  rw [textKind, colorKind] at h
  split at h
  · next hcode =>
    rcases hlookup : textColors.lookup tc with - | m
    · rw [hlookup] at hcode
      exact absurd hcode (by decide)
    · rw [hlookup, Option.getD_some, ColorKind.code.injEq] at h
      obtain ⟨before, after, hlist, -⟩ := List.lookup_eq_some_iff.mp hlookup
      rw [hlist, ← h]
      exact List.mem_append_right _ List.mem_cons_self
  · split at h
    · exact absurd h (by simp)
    · split at h <;> exact absurd h (by simp)

theorem isRgb_of_code {n : ℕ} (h : textKind tc = .code n) : isRgb tc = false :=
  (textColors_spec _ (mem_textColors_of_code h)).1

/-- The text colour decides about the background sequence by being three numbers or not. -/
theorem backgroundPart_congr (h : isRgb tc = isRgb tc') :
    backgroundPart bg tc = backgroundPart bg tc' := by
  rw [backgroundPart, backgroundPart, h]

theorem length_backgroundPart_le (h : isRgb tc' = false) :
    (backgroundPart bg tc').length ≤ (backgroundPart bg tc).length := by
  rw [backgroundPart, backgroundPart, h, if_neg (by simp)]
  split
  · next hunset =>
    rw [hunset.1]
    exact Nat.zero_le _
  · exact le_rfl

/-- The fifth character tells a name from a number. -/
theorem code_ne_index {n : ℕ} (h : textKind tc = .code n) (x y : Str) :
    kindSequence "38;5;".toList tc (.code n) ++ x
      ≠ kindSequence "38;5;".toList tc' .index ++ y := by
  intro heq
  obtain ⟨-, hlength, hfifth⟩ := textColors_spec _ (mem_textColors_of_code h)
  have hcode : (kindSequence "38;5;".toList tc (.code n) ++ x)[4]? = some 'm' := by
    rw [kindSequence, List.getElem?_append_left (by rw [hlength]; decide), hfifth]
  rw [heq] at hcode
  exact absurd hcode (by simp [kindSequence, escape])

/-- A colour that sets something is longer than one that sets nothing. -/
theorem ne_unset {kind : ColorKind} (hkind : 0 < (kindSequence "38;5;".toList tc kind).length)
    (h : textKind tc' = .unset) :
    kindSequence "38;5;".toList tc kind ++ backgroundPart bg tc
      ≠ kindSequence "38;5;".toList tc' .unset ++ backgroundPart bg tc' := by
  intro heq
  have hlength := congrArg List.length heq
  have hunset : kindSequence "38;5;".toList tc' .unset = [] := rfl
  have hle := @length_backgroundPart_le tc tc' bg (isRgb_of_unset h)
  rw [List.length_append, hunset, List.nil_append] at hlength
  omega

/-- What two sequences have in common behind the text colour can be taken off. -/
theorem kindSequence_eq_of_isRgb_eq {kind kind' : ColorKind} (hrgb : isRgb tc = isRgb tc')
    (h : kindSequence "38;5;".toList tc kind ++ backgroundPart bg tc
      = kindSequence "38;5;".toList tc' kind' ++ backgroundPart bg tc') :
    kindSequence "38;5;".toList tc kind = kindSequence "38;5;".toList tc' kind' := by
  rw [backgroundPart_congr hrgb] at h
  exact List.append_cancel_right h

theorem kindSequence_index_inj
    (h : kindSequence "38;5;".toList tc .index = kindSequence "38;5;".toList tc' .index) :
    tc = tc' :=
  List.append_cancel_right (List.append_cancel_left (List.append_cancel_left h))

theorem eq_of_code {n n' : ℕ} (h : textKind tc = .code n) (h' : textKind tc' = .code n')
    (heq : kindSequence "38;5;".toList tc (.code n) ++ backgroundPart bg tc
      = kindSequence "38;5;".toList tc' (.code n') ++ backgroundPart bg tc') : tc = tc' := by
  have hsequence := kindSequence_eq_of_isRgb_eq
    ((isRgb_of_code h).trans (isRgb_of_code h').symm) heq
  exact textColors_injective _ (mem_textColors_of_code h) _ (mem_textColors_of_code h')
    (List.append_cancel_right (List.append_cancel_left hsequence))

/-- Two numbers of which only the first is three numbers. -/
theorem spellsOut_of_index (h : textKind tc = .index) (h' : textKind tc' = .index)
    (hrgb : isRgb tc = true) (hrgb' : isRgb tc' = false)
    (heq : kindSequence "38;5;".toList tc .index ++ backgroundPart bg tc
      = kindSequence "38;5;".toList tc' .index ++ backgroundPart bg tc') :
    tc = tc' ∨ SpellsOut bg tc tc' := by
  -- Only with an unset background do three numbers add a sequence of their own.
  by_cases hbg : backgroundKind bg = .unset
  · have hpart : backgroundPart bg tc = escape ++ ("48;2;".toList ++ (bg ++ ['m'])) :=
      if_pos ⟨hbg, hrgb⟩
    have hpart' : backgroundPart bg tc' = [] := by
      rw [backgroundPart, if_neg (by simp [hrgb']), hbg]
      rfl
    rw [hpart, hpart', List.append_nil, kindSequence, kindSequence, List.append_assoc,
      List.append_assoc, List.append_assoc] at heq
    have hcolor := List.append_cancel_left (List.append_cancel_left heq)
    refine .inr ⟨hbg, h, h', hrgb, hrgb', (List.append_left_inj ['m']).mp ?_⟩
    rw [← hcolor]
    simp only [List.append_assoc, List.cons_append, List.nil_append]
  · have hpart : backgroundPart bg tc = backgroundPart bg tc' := by
      rw [backgroundPart, backgroundPart, if_neg (by simp [hbg]), if_neg (by simp [hbg])]
    rw [hpart] at heq
    exact .inl (kindSequence_index_inj (List.append_cancel_right heq))

theorem index_cases (h : textKind tc = .index) (h' : textKind tc' = .index)
    (heq : kindSequence "38;5;".toList tc .index ++ backgroundPart bg tc
      = kindSequence "38;5;".toList tc' .index ++ backgroundPart bg tc') :
    tc = tc' ∨ SpellsOut bg tc tc' ∨ SpellsOut bg tc' tc := by
  rcases hrgb : isRgb tc with - | - <;> rcases hrgb' : isRgb tc' with - | -
  · exact .inl (kindSequence_index_inj (kindSequence_eq_of_isRgb_eq (hrgb.trans hrgb'.symm) heq))
  · rcases spellsOut_of_index h' h hrgb' hrgb heq.symm with hcolor | hspells
    · exact .inl hcolor.symm
    · exact .inr (.inr hspells)
  · rcases spellsOut_of_index h h' hrgb hrgb' heq with hcolor | hspells
    · exact .inl hcolor
    · exact .inr (.inl hspells)
  · exact .inl (kindSequence_index_inj (kindSequence_eq_of_isRgb_eq (hrgb.trans hrgb'.symm) heq))

theorem colorSequences_of_spellsOut (h : SpellsOut bg tc tc') :
    colorSequences bg tc = colorSequences bg tc' := by
  obtain ⟨hbg, hkind, hkind', hrgb, hrgb', hcolor⟩ := h
  have hraises : ∀ color, textKind color = .index → ∀ e, ¬Raises bg color e := by
    rintro color hindex e (he | ⟨-, he⟩)
    · exact absurd (hindex.symm.trans he) (by simp)
    · exact absurd (hbg.symm.trans he) (by simp)
  have hpart' : backgroundPart bg tc' = [] := by
    rw [backgroundPart, if_neg (by simp [hrgb']), hbg]
    rfl
  rw [colorSequences_of_not_raises (hraises tc hkind),
    colorSequences_of_not_raises (hraises tc' hkind'), hkind, hkind', hpart', backgroundPart,
    if_pos ⟨hbg, hrgb⟩, kindSequence, kindSequence, hcolor]
  simp only [List.append_assoc, List.cons_append, List.nil_append, List.append_nil]

theorem sameTextColor_of_eq (htc : ∀ e, ¬Raises bg tc e) (htc' : ∀ e, ¬Raises bg tc' e)
    (h : kindSequence "38;5;".toList tc (textKind tc) ++ backgroundPart bg tc
      = kindSequence "38;5;".toList tc' (textKind tc') ++ backgroundPart bg tc') :
    SameTextColor bg tc tc' := by
  have hcode : ∀ color n, 0 < (kindSequence "38;5;".toList color (.code n)).length :=
    fun _ _ ↦ Nat.succ_pos _
  have hindex : ∀ color, 0 < (kindSequence "38;5;".toList color .index).length :=
    fun _ ↦ Nat.succ_pos _
  -- Different kinds have sequences that differ in length or in the fifth character.
  cases hkind : textKind tc with
  | fault e => exact absurd (Or.inl hkind) (htc e)
  | code n =>
    cases hkind' : textKind tc' with
    | fault e => exact absurd (Or.inl hkind') (htc' e)
    | code n' => rw [hkind, hkind'] at h; exact .inl (eq_of_code hkind hkind' h)
    | index => rw [hkind, hkind'] at h; exact absurd h (code_ne_index hkind _ _)
    | unset => rw [hkind, hkind'] at h; exact absurd h (ne_unset (hcode tc n) hkind')
  | index =>
    cases hkind' : textKind tc' with
    | fault e => exact absurd (Or.inl hkind') (htc' e)
    | code n' => rw [hkind, hkind'] at h; exact absurd h.symm (code_ne_index hkind' _ _)
    | index =>
      rw [hkind, hkind'] at h
      rcases index_cases hkind hkind' h with hcolor | hspells
      · exact .inl hcolor
      · exact .inr (.inr (.inr hspells))
    | unset => rw [hkind, hkind'] at h; exact absurd h (ne_unset (hindex tc) hkind')
  | unset =>
    cases hkind' : textKind tc' with
    | fault e => exact absurd (Or.inl hkind') (htc' e)
    | code n' => rw [hkind, hkind'] at h; exact absurd h.symm (ne_unset (hcode tc' n') hkind)
    | index => rw [hkind, hkind'] at h; exact absurd h.symm (ne_unset (hindex tc') hkind)
    | unset => exact .inr (.inl ⟨hkind, hkind'⟩)

/-- A text colour throws one exception or none. -/
theorem raises_or (bg tc : Str) : (∃ e, Raises bg tc e) ∨ ∀ e, ¬Raises bg tc e := by
  by_cases h : ∃ e, Raises bg tc e
  · exact .inl h
  · exact .inr (not_exists.mp h)

/-- **What looks alike.** Two text colours cause the same sequences if and only if
`SameTextColor` relates them. -/
theorem colorSequences_eq_iff (bg tc tc' : Str) :
    colorSequences bg tc = colorSequences bg tc' ↔ SameTextColor bg tc tc' := by
  constructor
  · intro h
    rcases raises_or bg tc with ⟨e, he⟩ | htc <;> rcases raises_or bg tc' with ⟨e', he'⟩ | htc'
    · rw [colorSequences_of_raises he, colorSequences_of_raises he', Except.error.injEq] at h
      exact .inr (.inr (.inl ⟨e, he, h ▸ he'⟩))
    · rw [colorSequences_of_raises he, colorSequences_of_not_raises htc'] at h
      exact absurd h (by simp)
    · rw [colorSequences_of_not_raises htc, colorSequences_of_raises he'] at h
      exact absurd h (by simp)
    · rw [colorSequences_of_not_raises htc, colorSequences_of_not_raises htc',
        Except.ok.injEq] at h
      exact sameTextColor_of_eq htc htc' h
  · rintro (rfl | ⟨hkind, hkind'⟩ | ⟨e, he, he'⟩ | hspells | hspells)
    · rfl
    · have htext := textSequence_eq tc
      have htext' := textSequence_eq tc'
      rw [hkind] at htext
      rw [hkind'] at htext'
      rw [colorSequences, colorSequences, htext, htext', backgroundSequence_eq,
        backgroundSequence_eq, backgroundPart_congr
          ((isRgb_of_unset hkind).trans (isRgb_of_unset hkind').symm)]
      rfl
    · rw [colorSequences_of_raises he, colorSequences_of_raises he']
    · exact colorSequences_of_spellsOut hspells
    · exact (colorSequences_of_spellsOut hspells).symm

/-! ## Copying a level -/

/-- `colorize` of a configuration that is shown. -/
theorem colorize_of_shown {m : BaseConfiguration} (h : m.shown = true) (text : Str) :
    colorize m text = (colorSequences m.backgroundColor m.textColor).map fun sequence ↦
      attributeSequences m ++ (sequence ++ (text ++ (escape ++ ['0', 'm']))) := by
  rw [colorize, if_pos h, colorSequences]
  rcases textSequence m.textColor with e | a
  · rfl
  · rcases backgroundSequence m.textColor m.backgroundColor with e | b
    · rfl
    · simp only [ok_bind]
      refine congrArg Except.ok ?_
      simp only [List.append_assoc]

theorem Except.map_injective {ε α β : Type} {f : α → β} (hf : ∀ a b, f a = f b → a = b)
    {x y : Except ε α} (h : x.map f = y.map f) : x = y := by
  rcases x with e | a <;> rcases y with e' | b
  · exact congrArg Except.error (Except.error.inj h)
  · exact absurd h (by simp [Except.map])
  · exact absurd h (by simp [Except.map])
  · exact congrArg Except.ok (hf a b (Except.ok.inj h))

/-- Configurations that differ in the text colour and the object expansion alone. -/
theorem colorize_eq_iff (m : BaseConfiguration) (tc : Str) (expandObjects : Bool) :
    (∀ text, colorize { m with textColor := tc, expandObjects := expandObjects } text
        = colorize m text) ↔
      m.shown = false ∨ SameTextColor m.backgroundColor m.textColor tc := by
  by_cases hshown : m.shown = true
  · have hcopy := @colorize_of_shown
      { m with textColor := tc, expandObjects := expandObjects } hshown
    rw [← colorSequences_eq_iff]
    constructor
    · intro h
      have hnil := h []
      rw [hcopy, colorize_of_shown hshown] at hnil
      exact .inr (Except.map_injective (fun a b hab ↦
        List.append_cancel_right (List.append_cancel_left hab)) hnil).symm
    · rintro (hhidden | heq) text
      · exact absurd hshown (by simp [hhidden])
      · rw [hcopy, colorize_of_shown hshown, heq]
        rfl
  · refine ⟨fun _ ↦ .inl (Bool.eq_false_iff.mpr hshown), fun _ text ↦ ?_⟩
    rw [colorize, colorize, if_neg hshown, if_neg hshown]

/-- What the copy leaves of the target. -/
theorem members_copy (source target : Configuration) :
    Configuration.members
        { target with base := copyConsoleConfiguration source.base target.base } =
      { source.members with
        textColor := target.textColor
        expandObjects := target.expandObjects } :=
  rfl

/-- **Which copies are faithful.** After `copy(from, to)` of two known levels every text is rendered
under `to` as under `from`, and `to` expands objects as `from` does, if and only if that much was
true of the members the copy does not reach: the two levels expand objects alike, and the text
colours look alike or nothing is shown. -/
theorem copyConfiguration_faithful_iff (s : ConsoleState) {fromLevel toLevel : Str}
    {c d : ConfigurationName} (hdistinct : fromLevel ≠ toLevel)
    (hfrom : levelConfigurations.lookup fromLevel = some c)
    (hto : levelConfigurations.lookup toLevel = some d) :
    ∃ s', copyConfiguration s fromLevel toLevel = some (s', []) ∧
      (((∀ text, colorize (s' d).members text = colorize (s' c).members text) ∧
          (s' d).expandObjects = (s' c).expandObjects) ↔
        ((s c).base.shown = false ∨
          SameTextColor (s c).base.backgroundColor (s c).textColor (s d).textColor) ∧
        (s c).expandObjects = (s d).expandObjects) := by
  have hexceptions : copyExceptions fromLevel toLevel = [] := by
    simp [copyExceptions, hdistinct, hfrom, hto]
  refine ⟨_, by rw [copyConfiguration, hfrom, hto, hexceptions]; rfl, ?_⟩
  -- Two names of one configuration are copied onto themselves.
  by_cases hcd : c = d
  · subst hcd
    exact ⟨fun _ ↦ ⟨.inr (.inl rfl), rfl⟩, fun _ ↦ ⟨fun _ ↦ rfl, rfl⟩⟩
  · rw [Function.update_self, Function.update_of_ne hcd, members_copy]
    refine and_congr (colorize_eq_iff (s c).members _ _) eq_comm

/-- Two levels that start out in the same colour. -/
theorem copyConfiguration_faithful_iff_debugToError :
    (("debug".toList : Str) ≠ "error".toList ∧
      levelConfigurations.lookup "debug".toList = some .debug ∧
      levelConfigurations.lookup "error".toList = some .error) ∧
    ∃ s', copyConfiguration initialConfigurations "debug".toList "error".toList = some (s', []) ∧
      (((∀ text, colorize (s' .error).members text = colorize (s' .debug).members text) ∧
          (s' .error).expandObjects = (s' .debug).expandObjects) ↔
        ((initialConfigurations .debug).base.shown = false ∨
          SameTextColor (initialConfigurations .debug).base.backgroundColor
            (initialConfigurations .debug).textColor (initialConfigurations .error).textColor) ∧
        (initialConfigurations .debug).expandObjects
          = (initialConfigurations .error).expandObjects) :=
  ⟨⟨by decide, rfl, rfl⟩,
    copyConfiguration_faithful_iff initialConfigurations (by decide) rfl rfl⟩

/-- The error level is red, and the log level is not after it has been made a copy of it. -/
theorem copyConfiguration_errorToLog :
    ∃ s', copyConfiguration initialConfigurations "error".toList "log".toList = some (s', []) ∧
      colorize (s' .error).members "x".toList = .ok "\x1b[31m\x1b[49mx\x1b[0m".toList ∧
      colorize (s' .log).members "x".toList = .ok "\x1b[39m\x1b[49mx\x1b[0m".toList :=
  ⟨_, rfl, by decide, by decide⟩

end SlimTS
