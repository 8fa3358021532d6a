import SlimTS.Macros.Expansion
import SlimTS.Plugin.ConsoleCopy
import SlimTS.Plugin.Strings

/-!
# The head of a line

What `local_print` puts in front of the arguments: the name of the level and the time stamp, each of
them with a field separator behind it, and each of the parts in the colours of its section. A
section derives from the base configuration like a level does; the one of the time stamp declares
the member `show` again.

There are two ways to have no head. The time stamp is cut to the digits on its right, and the
position of the cut is past the end if there are not as many; it is made when it is not shown, too.
And `colorize` throws for colours that are no numbers. `coloredHead_eq_ok_iff` says when neither
happens.
-/

namespace SlimTS

/-- `FieldSeparatorConfiguration`. -/
structure FieldSeparatorConfiguration where
  base : BaseConfiguration := {}
  fieldSeparator : Str := [':']
  trailingSpace : Bool := true
deriving DecidableEq

/-- `TimeStampConfiguration`: the members of the base, one that is declared again, and its own. -/
structure TimeStampConfiguration where
  base : BaseConfiguration := {}
  timeFormat : Str := "epoch".toList
  /-- `show`. -/
  shown : Bool := false
  showRight : ℤ := 0
deriving DecidableEq

/-- The members as an access through `TimeStampConfiguration` finds them. -/
def TimeStampConfiguration.members (c : TimeStampConfiguration) : BaseConfiguration :=
  { c.base with shown := c.shown }

/-- The colours are texts without NUL. -/
def BaseConfiguration.IsPlain (m : BaseConfiguration) : Prop :=
  PlainText m.textColor ∧ PlainText m.backgroundColor

/-- `Configuration` with the sections that are printed. The strings are literals of the program, or
the scripts have set them. -/
structure LevelConfiguration extends Configuration where
  fieldSeparator : FieldSeparatorConfiguration := {}
  timeStamp : TimeStampConfiguration := {}
  plain_levelString : PlainText levelString
  plain_members : toConfiguration.members.IsPlain
  plain_fieldSeparator : PlainText fieldSeparator.fieldSeparator
  plain_fieldSeparator_base : fieldSeparator.base.IsPlain
  plain_timeStamp : timeStamp.members.IsPlain

/-- What ends `local_print` without a result. -/
inductive PrintFault
  /-- `std::out_of_range`, of `substr`. -/
  | outOfRange
  /-- What `std::stoi` throws. -/
  | stoi (error : StoiError)
  /-- An argument cannot be made a string. -/
  | argument
  /-- A handle that is empty is used. -/
  | emptyHandle
deriving DecidableEq, Repr

/-- `log_time_stamp_string`, of the count of the clock. -/
def logTimeStamp (c : TimeStampConfiguration) (count : ℤ) : Except PrintFault Str :=
  if c.timeFormat.map Char.toLower = "epoch".toList ∧ 0 < c.showRight then
    -- The position is a `size_t`: a difference below zero is past the end.
    match Text.substr (Macros.decimal count) ((Macros.decimal count).length - c.showRight)
        Text.npos with
    | .error .outOfRange => .error .outOfRange
    | .ok stamp => .ok stamp
  else .ok (Macros.decimal count)

/-- `field_separator`. -/
def FieldSeparatorConfiguration.text (c : FieldSeparatorConfiguration) : Str :=
  if c.trailingSpace then c.fieldSeparator ++ [' '] else c.fieldSeparator

/-- `colorize`, where its exceptions end the call. -/
def colorizePart (m : BaseConfiguration) (text : Str) : Except PrintFault Str :=
  (colorize m text).mapError .stoi

/-- A part of the head, if there is one, with the field separator behind it. -/
def headPart (c : LevelConfiguration) (present : Bool) (m : BaseConfiguration) (text : Str) :
    Except PrintFault Str :=
  if present then do
    let part ← colorizePart m text
    let separator ← colorizePart c.fieldSeparator.base c.fieldSeparator.text
    return part ++ separator
  else .ok []

/-- `colorize_head`. -/
def colorizeHead (c : LevelConfiguration) (stamp : Str) : Except PrintFault Str := do
  let level ← headPart c (0 < c.levelString.length) c.members c.levelString
  let time ← headPart c c.timeStamp.shown c.timeStamp.members stamp
  return level ++ time

/-- The coloured head at a count of the clock. -/
def coloredHead (c : LevelConfiguration) (count : ℤ) : Except PrintFault Str :=
  logTimeStamp c.timeStamp count >>= colorizeHead c

/-! ## When there is a head -/

/-- The time stamp has the digits it is to be cut to. -/
def FitsTimeStamp (c : TimeStampConfiguration) (count : ℤ) : Prop :=
  c.timeFormat.map Char.toLower = "epoch".toList → c.showRight ≤ (Macros.decimal count).length

/-- A section has no colour to throw for, or is not shown. -/
def Colorable (m : BaseConfiguration) : Prop :=
  m.shown = true → ∀ e, ¬Raises m.backgroundColor m.textColor e

/-- The sections of the parts that there are can be coloured. -/
def HeadColorable (c : LevelConfiguration) : Prop :=
  (0 < c.levelString.length → Colorable c.members ∧ Colorable c.fieldSeparator.base) ∧
    (c.timeStamp.shown = true → Colorable c.timeStamp.members ∧ Colorable c.fieldSeparator.base)

variable {c : LevelConfiguration} {m : BaseConfiguration} {count : ℤ} {text stamp head : Str}

theorem decimal_natCast (n : ℕ) : Macros.decimal n = Nat.toDigits 10 n := by
  rw [Macros.decimal, if_neg (by omega), Int.natAbs_natCast]

/-- The stamp is what is on the right of the digits. -/
theorem logTimeStamp_eq_of_fits {c : TimeStampConfiguration} (h : FitsTimeStamp c count) :
    ∃ k, logTimeStamp c count = .ok ((Macros.decimal count).drop k) := by
  rw [logTimeStamp]
  split
  · next hcut =>
    have hfits := h hcut.1
    refine ⟨((Macros.decimal count).length - c.showRight).toNat, ?_⟩
    rw [Text.substr, if_neg (by omega), if_pos (by decide)]
  · exact ⟨0, rfl⟩

theorem logTimeStamp_of_not_fits {c : TimeStampConfiguration} (h : ¬FitsTimeStamp c count) :
    logTimeStamp c count = .error .outOfRange := by
  rw [FitsTimeStamp, Classical.not_imp] at h
  rw [logTimeStamp, if_pos ⟨h.1, by omega⟩, Text.substr, if_pos (.inl (by omega))]

theorem fitsTimeStamp_of_logTimeStamp {c : TimeStampConfiguration}
    (h : logTimeStamp c count = .ok stamp) : FitsTimeStamp c count := by
  by_contra hfits
  exact absurd (h.symm.trans (logTimeStamp_of_not_fits hfits)) (by simp)

theorem colorizePart_of_colorable (h : Colorable m) (text : Str) :
    ∃ part, colorizePart m text = .ok part := by
  by_cases hshown : m.shown = true
  · rw [colorizePart, colorize_of_shown hshown, colorSequences_of_not_raises (h hshown)]
    exact ⟨_, rfl⟩
  · rw [colorizePart, colorize, if_neg hshown]
    exact ⟨_, rfl⟩

theorem colorable_of_colorizePart {part : Str} (h : colorizePart m text = .ok part) :
    Colorable m := by
  intro hshown e he
  rw [colorizePart, colorize_of_shown hshown, colorSequences_of_raises he] at h
  cases h

/-- A part can be made if it and the separator can be coloured. -/
theorem headPart_eq_ok_iff (c : LevelConfiguration) (present : Bool) (m : BaseConfiguration)
    (text : Str) : (∃ part, headPart c present m text = .ok part) ↔
      (present = true → Colorable m ∧ Colorable c.fieldSeparator.base) := by
  constructor
  · rintro ⟨part, h⟩ hpresent
    rw [headPart, if_pos hpresent] at h
    obtain ⟨first, hfirst, h⟩ := bind_eq_ok h
    obtain ⟨separator, hseparator, -⟩ := bind_eq_ok h
    exact ⟨colorable_of_colorizePart hfirst, colorable_of_colorizePart hseparator⟩
  · intro h
    rw [headPart]
    split
    · next hpresent =>
      obtain ⟨first, hfirst⟩ := colorizePart_of_colorable (h hpresent).1 text
      obtain ⟨separator, hseparator⟩ :=
        colorizePart_of_colorable (h hpresent).2 c.fieldSeparator.text
      exact ⟨first ++ separator, by rw [hfirst, ok_bind, hseparator]; rfl⟩
    · exact ⟨[], rfl⟩

theorem colorizeHead_eq_ok_iff (c : LevelConfiguration) (stamp : Str) :
    (∃ head, colorizeHead c stamp = .ok head) ↔ HeadColorable c := by
  have hparts : HeadColorable c ↔
      (∃ level, headPart c (0 < c.levelString.length) c.members c.levelString = .ok level) ∧
        ∃ time, headPart c c.timeStamp.shown c.timeStamp.members stamp = .ok time := by
    rw [headPart_eq_ok_iff, headPart_eq_ok_iff, decide_eq_true_eq, HeadColorable]
  rw [hparts]
  constructor
  · rintro ⟨head, h⟩
    obtain ⟨level, hlevel, h⟩ := bind_eq_ok h
    obtain ⟨time, htime, -⟩ := bind_eq_ok h
    exact ⟨⟨level, hlevel⟩, time, htime⟩
  · rintro ⟨⟨level, hlevel⟩, time, htime⟩
    exact ⟨level ++ time, by rw [colorizeHead, hlevel, ok_bind, htime]; rfl⟩

/-- **When there is a head**: the time stamp can be cut, and what is shown can be coloured. -/
theorem coloredHead_eq_ok_iff (c : LevelConfiguration) (count : ℤ) :
    (∃ head, coloredHead c count = .ok head) ↔
      FitsTimeStamp c.timeStamp count ∧ HeadColorable c := by
  constructor
  · rintro ⟨head, h⟩
    obtain ⟨stamp, hstamp, h⟩ := bind_eq_ok h
    exact ⟨fitsTimeStamp_of_logTimeStamp hstamp, (colorizeHead_eq_ok_iff c stamp).mp ⟨head, h⟩⟩
  · rintro ⟨hfits, hcolorable⟩
    obtain ⟨k, hstamp⟩ := logTimeStamp_eq_of_fits hfits
    rw [coloredHead, hstamp, ok_bind]
    exact (colorizeHead_eq_ok_iff c _).mpr hcolorable

/-! ## The head is a text without NUL -/

theorem plainText_nil : PlainText [] := plainText_of_ascii rfl

theorem plainText_escape : PlainText escape := plainText_of_ascii (by decide)

theorem plainText_of_isDigit (h : ∀ d ∈ text, d = '-' ∨ d.isDigit = true) : PlainText text := by
  refine plainText_of_ascii (List.all_eq_true.mpr fun d hd ↦ ?_)
  rcases h d hd with rfl | hdigit
  · decide
  · rw [isAscii, Bool.and_eq_true, decide_eq_true_eq, decide_eq_true_eq]
    obtain ⟨hlow, hhigh⟩ := Char.isDigit_iff_toNat.mp hdigit
    have hzero : '0'.toNat = 48 := rfl
    have hnine : '9'.toNat = 57 := rfl
    omega

theorem plainText_toDigits (n : ℕ) : PlainText (Nat.toDigits 10 n) :=
  plainText_of_isDigit fun _ hd ↦
    .inr (Nat.isDigit_of_mem_toDigits (by decide) (by decide) hd)

theorem plainText_attributeSequences (m : BaseConfiguration) :
    PlainText (attributeSequences m) := by
  refine plainText_of_ascii ?_
  rw [attributeSequences]
  cases m.bold <;> cases m.dim <;> cases m.italic <;> cases m.underline <;> cases m.inverse <;>
    decide

/-- The sequence of a colour. -/
theorem plainText_kindSequence {index color : Str} (hindex : PlainText index)
    (hcolor : PlainText color) (kind : ColorKind) : PlainText (kindSequence index color kind) := by
  have hend : PlainText ['m'] := plainText_of_ascii (by decide)
  cases kind with
  | code n => exact plainText_escape.append ((plainText_toDigits n).append hend)
  | index => exact plainText_escape.append (hindex.append (hcolor.append hend))
  | unset => exact plainText_nil
  | fault e => exact plainText_nil

theorem plainText_backgroundPart {bg : Str} (hbg : PlainText bg) (tc : Str) :
    PlainText (backgroundPart bg tc) := by
  rw [backgroundPart]
  split
  · exact plainText_escape.append ((plainText_of_ascii (by decide)).append
      (hbg.append (plainText_of_ascii (by decide))))
  · exact plainText_kindSequence (plainText_of_ascii (by decide)) hbg _

/-- What is coloured is framed by sequences that are such texts. -/
theorem plainText_of_colorizePart {part : Str} (hm : m.IsPlain) (htext : PlainText text)
    (h : colorizePart m text = .ok part) : PlainText part := by
  by_cases hshown : m.shown = true
  · have hcolorable := colorable_of_colorizePart h hshown
    rw [colorizePart, colorize_of_shown hshown, colorSequences_of_not_raises hcolorable] at h
    rw [← Except.ok.inj h]
    have hindex : PlainText "38;5;".toList := plainText_of_ascii (by decide)
    have hsequence := (plainText_kindSequence hindex hm.1 (textKind m.textColor)).append
      (plainText_backgroundPart hm.2 m.textColor)
    exact (plainText_attributeSequences m).append
      (hsequence.append (htext.append (plainText_escape.append (plainText_of_ascii (by decide)))))
  · rw [colorizePart, colorize, if_neg hshown] at h
    rw [← Except.ok.inj h]
    exact plainText_nil

theorem plainText_separator (c : LevelConfiguration) : PlainText c.fieldSeparator.text := by
  rw [FieldSeparatorConfiguration.text]
  split
  · exact c.plain_fieldSeparator.append (plainText_of_ascii (by decide))
  · exact c.plain_fieldSeparator

theorem plainText_of_headPart {present : Bool} {part : Str} (hm : m.IsPlain)
    (htext : PlainText text) (h : headPart c present m text = .ok part) : PlainText part := by
  rw [headPart] at h
  split at h
  · obtain ⟨first, hfirst, h⟩ := bind_eq_ok h
    obtain ⟨separator, hseparator, h⟩ := bind_eq_ok h
    rw [← Except.ok.inj h]
    exact (plainText_of_colorizePart hm htext hfirst).append
      (plainText_of_colorizePart c.plain_fieldSeparator_base (plainText_separator c) hseparator)
  · exact Except.ok.inj h ▸ plainText_nil

/-- The digits of a stamp. -/
theorem plainText_of_logTimeStamp {c : TimeStampConfiguration}
    (h : logTimeStamp c count = .ok stamp) : PlainText stamp := by
  obtain ⟨k, hk⟩ := logTimeStamp_eq_of_fits (fitsTimeStamp_of_logTimeStamp h)
  rw [← Except.ok.inj (hk.symm.trans h)]
  exact plainText_of_isDigit fun d hd ↦
    Macros.isDigit_or_of_mem_decimal (List.mem_of_mem_drop hd)

/-- **The head** reaches the scripts as it is. -/
theorem plainText_of_coloredHead (h : coloredHead c count = .ok head) : PlainText head := by
  obtain ⟨stamp, hstamp, h⟩ := bind_eq_ok h
  obtain ⟨level, hlevel, h⟩ := bind_eq_ok h
  obtain ⟨time, htime, h⟩ := bind_eq_ok h
  rw [← Except.ok.inj h]
  exact (plainText_of_headPart c.plain_members c.plain_levelString hlevel).append
    (plainText_of_headPart c.plain_timeStamp (plainText_of_logTimeStamp hstamp) htime)

end SlimTS
