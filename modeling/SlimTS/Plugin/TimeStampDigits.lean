import Mathlib.Data.List.DropRight
import SlimTS.Plugin.LocalPrint

/-!
# The digits of the time stamp

A script says with `time_stamp.show_right` how many digits of the clock it wants. What `local_print`
makes of them is in the message, if a script listens, and in the head of a line that is printed, if
the time stamp is shown.

A call is followed to its end here whatever rendering the arguments does to the flags: they select
the buffers again and again, but what is in a buffer stays in front of what is appended, and so does
the head. Two stamps in the head of one line are the same, because each of them ends where the
sequence begins that resets its colours.

Three things come between the number of the script and the digits (`localPrint_showsAsked_iff`). The
setter stores it modulo `2 ^ 32`, the digits are cut for the format `epoch` only, and the cut throws
when there are fewer of them.
-/

namespace SlimTS

variable {Value World : Type}

/-- The setter of `show_right`, for a number: the `int` holds what `Int32Value` makes of it. -/
def LevelConfiguration.assignShowRight (c : LevelConfiguration) (assigned : ℤ) :
    LevelConfiguration :=
  { c with
    timeStamp := { c.timeStamp with showRight := toInt assigned }
    plain_timeStamp := c.plain_timeStamp }

/-- The number of digits that are asked for. -/
def askedDigits (showRight : ℤ) (length : ℕ) : ℕ :=
  if 0 < showRight then min showRight.toNat length else length

/-- The time stamp that is asked for. -/
def askedStamp (showRight count : ℤ) : Str :=
  (Macros.decimal count).rtake (askedDigits showRight (Macros.decimal count).length)

/-- The number of digits that the cut leaves, if there are as many. -/
def TimeStampConfiguration.keptDigits (c : TimeStampConfiguration) (length : ℕ) : ℕ :=
  if c.timeFormat.map Char.toLower = "epoch".toList then askedDigits c.showRight length
  else length

/-- The flags have nothing printed. -/
def ListenState.silent (s : ListenState World) : Bool := s.listening && !s.outputWhenListening

/-- A call from a state shows a time stamp: in its message, and in the head of what it prints. -/
def ShowsStamp (v8 : V8Objects Value (ListenState World)) (c : LevelConfiguration)
    (s : ListenState World) (stamp : Str) (r : Printed World) : Prop :=
  (∀ message, r.logMessage = some message →
      utf8Value v8.toTranscoding message.logTimeStamp = stamp) ∧
    (c.timeStamp.shown = true → s.silent = false → r.printed ≠ [] →
      ∃ head, colorizeHead c stamp = .ok head ∧ head <+: r.printed)

/-- A call from a state that ends in another has the time stamp to be seen somewhere. -/
def StampVisible (c : LevelConfiguration) (s s' : ListenState World) : Prop :=
  s'.listening = true ∨ c.timeStamp.shown = true ∧ s.silent = false

/-- After the assignment the call completes, and shows the digits that are asked for. -/
def ShowsAsked (v8 : V8Objects Value (ListenState World))
    (c : LevelConfiguration) (assigned count : ℤ) (s : ListenState World) (args : List Value) :
    Prop :=
  ∃ r, localPrint v8 (c.assignShowRight assigned) count s args = .ok r ∧
    ShowsStamp v8 (c.assignShowRight assigned) s (askedStamp assigned count) r

variable {v8 : V8Objects Value (ListenState World)}
  {c : LevelConfiguration} {assigned count : ℤ} {s s' : ListenState World} {value : Value}
  {args values : List Value} {b : PrintBuffers} {head stamp stamp' : Str} {r : Printed World}

/-! ## The number of the script -/

theorem askedDigits_le (showRight : ℤ) (length : ℕ) : askedDigits showRight length ≤ length := by
  rw [askedDigits]
  split
  · exact Nat.min_le_right _ _
  · exact le_rfl

theorem TimeStampConfiguration.keptDigits_le (c : TimeStampConfiguration) (length : ℕ) :
    c.keptDigits length ≤ length := by
  rw [keptDigits]
  split
  · exact askedDigits_le _ _
  · exact le_rfl

theorem length_rtake_of_le {α : Type} {l : List α} {n : ℕ} (h : n ≤ l.length) :
    (l.rtake n).length = n := by
  rw [List.rtake, List.length_drop]
  omega

/-- **The cut**, where there are digits enough. -/
theorem logTimeStamp_eq_rtake {c : TimeStampConfiguration} (h : FitsTimeStamp c count) :
    logTimeStamp c count
      = .ok ((Macros.decimal count).rtake (c.keptDigits (Macros.decimal count).length)) := by
  rw [logTimeStamp, TimeStampConfiguration.keptDigits, askedDigits]
  -- Only the format "epoch" is cut, and only for a positive number of digits.
  by_cases hepoch : c.timeFormat.map Char.toLower = "epoch".toList
  · have hfits := h hepoch
    by_cases hcut : 0 < c.showRight
    · rw [if_pos ⟨hepoch, hcut⟩, if_pos hepoch, if_pos hcut, Text.substr, if_neg (by omega),
        if_pos (by decide), List.rtake]
      simp only [Except.ok.injEq]
      congr 1
      omega
    · rw [if_neg (fun h ↦ hcut h.2), if_pos hepoch, if_neg hcut, List.rtake, Nat.sub_self,
        List.drop_zero]
  · rw [if_neg (fun h ↦ hepoch h.1), if_neg hepoch, List.rtake, Nat.sub_self, List.drop_zero]

/-! ## One argument after another -/

/-- A value that is no object leaves the state as it is, and the line as a part of what is there. -/
theorem appendPrimitive_eq (h : v8.isObject value = false) (s : ListenState World)
    (b : PrintBuffers) : ∃ b', b.colorOutput <+: b'.colorOutput ∧
      appendPrimitive v8 s value b = (v8.stringValue value s).map fun r ↦ (r.2, b') := by
  cases hvalue : v8.stringValue value s with
  | none =>
    refine ⟨b, List.prefix_rfl, ?_⟩
    rw [appendPrimitive, hvalue]
    split <;> rfl
  | some r =>
    have hstate := eq_of_stringValue h hvalue
    rw [hstate] at hvalue ⊢
    rw [appendPrimitive, hvalue]
    simp only [Option.bind_some, Option.map_some]
    by_cases hlistening : s.listening = true
    · by_cases houtput : s.outputWhenListening = true
      · refine ⟨⟨b.output ++ r.1, b.colorOutput ++ r.1⟩, List.prefix_append _ _, ?_⟩
        rw [if_pos hlistening, if_pos houtput, hvalue, Option.map_some]
      · refine ⟨⟨b.output ++ r.1, b.colorOutput⟩, List.prefix_rfl, ?_⟩
        rw [if_pos hlistening, if_neg houtput]
    · refine ⟨⟨b.output, b.colorOutput ++ r.1⟩, List.prefix_append _ _, ?_⟩
      rw [if_neg hlistening]

theorem isPrefix_append (b : PrintBuffers) (s : ListenState World) (text : Str) :
    b.colorOutput <+: (b.append s text).colorOutput := by
  rw [PrintBuffers.append]
  split
  · split
    · exact List.prefix_append _ _
    · exact List.prefix_rfl
  · exact List.prefix_append _ _

/-- **One argument** leaves the state that its rendering leaves, whatever becomes of the flags. -/
theorem appendArgument_eq (s : ListenState World) (value : Value) (b : PrintBuffers) :
    ∃ b', b.colorOutput <+: b'.colorOutput ∧
      (if v8.isObject value then appendObject v8 s value b else appendPrimitive v8 s value b)
        = (rendered v8 s value).map fun r ↦ (r.2, b') := by
  by_cases hobject : v8.isObject value = true
  · rw [if_pos hobject, rendered, if_pos hobject, appendObject]
    cases (v8.stringify value s).1 with
    | none => exact ⟨b, List.prefix_rfl, rfl⟩
    | some json => exact ⟨_, isPrefix_append b _ _, rfl⟩
  · rw [if_neg hobject, rendered, if_neg hobject]
    exact appendPrimitive_eq (Bool.eq_false_iff.mpr hobject) s b

/-- **The loop** over the arguments. The induction is on them; the buffers are any. -/
theorem appendArguments_eq_map (args : List Value) (s : ListenState World) (b : PrintBuffers) :
    ∃ b', b.colorOutput <+: b'.colorOutput ∧
      appendArguments v8 args s b = (renderings v8 args s).map fun r ↦ (r.2, b') := by
  induction args generalizing s b with
  | nil => exact ⟨b, List.prefix_rfl, rfl⟩
  | cons value values ih =>
    obtain ⟨b₁, hfirst, heq⟩ := @appendArgument_eq _ _ v8 s value b
    rw [appendArguments, renderings, heq]
    cases rendered v8 s value with
    | none => exact ⟨b, List.prefix_rfl, rfl⟩
    | some r =>
      have hbetween : b₁.colorOutput
          <+: (if values.isEmpty then b₁ else b₁.append r.2 [' ']).colorOutput := by
        split
        · exact List.prefix_rfl
        · exact isPrefix_append b₁ _ _
      obtain ⟨b', hrest, heq'⟩ :=
        ih r.2 (if values.isEmpty then b₁ else b₁.append r.2 [' '])
      refine ⟨b', hfirst.trans (hbetween.trans hrest), ?_⟩
      simp only [Option.map_some, Option.bind_some, heq', Option.map_map]
      rfl

/-! ## The stamp in the head -/

theorem escape_not_mem_rtake (count : ℤ) (n : ℕ) : '\x1b' ∉ (Macros.decimal count).rtake n := by
  intro hmem
  rcases Macros.isDigit_or_of_mem_decimal (List.mem_of_mem_drop hmem) with h | h
  · exact absurd h (by decide)
  · exact absurd h (by decide)

/-- A coloured part is the text between what depends on the section alone and the reset. -/
theorem colorizePart_of_shown {m : BaseConfiguration} (hshown : m.shown = true) :
    ∃ front, ∀ text part, colorizePart m text = .ok part →
      ∃ behind, part = front ++ (text ++ '\x1b' :: behind) := by
  refine ⟨attributeSequences m ++ (kindSequence "38;5;".toList m.textColor (textKind m.textColor)
    ++ backgroundPart m.backgroundColor m.textColor), fun text part h ↦ ⟨['[', '0', 'm'], ?_⟩⟩
  have hcolorable := colorable_of_colorizePart h hshown
  rw [colorizePart, colorize_of_shown hshown, colorSequences_of_not_raises hcolorable] at h
  rw [← Except.ok.inj h]
  simp only [List.append_assoc]
  rfl

/-- A head with a time stamp in it. -/
theorem colorizeHead_of_shown (hshown : c.timeStamp.shown = true) :
    ∃ front, ∀ stamp head, colorizeHead c stamp = .ok head →
      ∃ behind, head = front ++ (stamp ++ '\x1b' :: behind) := by
  obtain ⟨front, hfront⟩ := colorizePart_of_shown (m := c.timeStamp.members) hshown
  cases hlevel : headPart c (0 < c.levelString.length) c.members c.levelString with
  | error e =>
    refine ⟨[], fun stamp head h ↦ ?_⟩
    rw [colorizeHead, hlevel] at h
    cases h
  | ok level =>
    refine ⟨level ++ front, fun stamp head h ↦ ?_⟩
    rw [colorizeHead, hlevel, ok_bind, headPart, if_pos hshown] at h
    obtain ⟨time, htime, h⟩ := bind_eq_ok h
    obtain ⟨part, hpart, htime⟩ := bind_eq_ok htime
    obtain ⟨separator, -, htime⟩ := bind_eq_ok htime
    obtain ⟨behind, rfl⟩ := hfront stamp part hpart
    rw [← Except.ok.inj h, ← Except.ok.inj htime]
    exact ⟨behind ++ separator, by simp⟩

/-- **The stamp in a line** is one. -/
theorem eq_of_colorizeHead {head' line : Str} (hshown : c.timeStamp.shown = true)
    (hstamp : '\x1b' ∉ stamp) (hstamp' : '\x1b' ∉ stamp')
    (h : colorizeHead c stamp = .ok head) (h' : colorizeHead c stamp' = .ok head')
    (hline : head <+: line) (hline' : head' <+: line) : stamp = stamp' := by
  obtain ⟨front, hfront⟩ := colorizeHead_of_shown hshown
  obtain ⟨behind, rfl⟩ := hfront stamp head h
  obtain ⟨behind', rfl⟩ := hfront stamp' head' h'
  obtain ⟨rest, rfl⟩ := hline
  obtain ⟨rest', heq⟩ := hline'
  simp only [List.append_assoc, List.cons_append] at heq
  -- Both stamps end at the first escape character behind the common front.
  have hends := List.append_cancel_left heq
  rw [← Text.takeWhile_append_cons hstamp (behind ++ rest), ← hends,
    Text.takeWhile_append_cons hstamp']

/-! ## A call to its end -/

theorem startingHead_of_silent (h : s.silent = true) (stamp : Str) :
    startingHead c s stamp = .ok [] := if_pos h

theorem startingHead_of_not_silent (h : s.silent = false) (stamp : Str) :
    startingHead c s stamp = colorizeHead c stamp :=
  if_neg (Bool.eq_false_iff.mp h)

theorem startingHead_eq_ok_iff (c : LevelConfiguration) (s : ListenState World) (stamp : Str) :
    (∃ head, startingHead c s stamp = .ok head) ↔ (s.silent = false → HeadColorable c) := by
  cases hsilent : s.silent with
  | true => simp [startingHead_of_silent hsilent]
  | false => simp [startingHead_of_not_silent hsilent, colorizeHead_eq_ok_iff]

/-- A call that has rendered its arguments ends, unless a script has begun to listen. -/
theorem finishPrint_eq_ok_iff (v8 : V8Objects Value (ListenState World)) (c : LevelConfiguration)
    (stamp : Str) (s s' : ListenState World) (b : PrintBuffers) :
    (∃ r, finishPrint v8 s' (startingMessage v8 c s stamp) b = .ok r) ↔
      (s'.listening = true → s.listening = true) := by
  rw [finishPrint, startingMessage]
  cases s'.listening <;> cases s.listening <;> simp

theorem finishPrint_of_not_listening {message : Option LogMessage} (h : s'.listening = false)
    (hr : finishPrint v8 s' message b = .ok r) :
    r.logMessage = none ∧ r.printed = b.colorOutput ++ ['\n'] := by
  rw [finishPrint, h, if_neg Bool.false_ne_true] at hr
  rw [← Except.ok.inj hr]
  exact ⟨rfl, rfl⟩

theorem finishPrint_of_listening (hplain : PlainText stamp) (h : s'.listening = true)
    (hr : finishPrint v8 s' (startingMessage v8 c s stamp) b = .ok r) :
    (∃ message, r.logMessage = some message ∧
      utf8Value v8.toTranscoding message.logTimeStamp = stamp) ∧
      (r.printed = b.colorOutput ++ ['\n'] ∨ r.printed = []) := by
  have hstarted := (finishPrint_eq_ok_iff v8 c stamp s s' b).mp ⟨r, hr⟩ h
  rw [finishPrint, if_pos h, startingMessage, if_pos hstarted] at hr
  rw [← Except.ok.inj hr]
  refine ⟨⟨_, rfl, utf8Value_stringToV8String hplain⟩, ?_⟩
  cases s'.outputWhenListening with
  | true => exact .inl rfl
  | false => exact .inr rfl

/-- **A call that has made a stamp** shows it, and no other, wherever there is one to be seen. -/
theorem showsStamp_iff (hhead : startingHead c s stamp = .ok head)
    (hstarts : head <+: b.colorOutput)
    (hr : finishPrint v8 s' (startingMessage v8 c s stamp) b = .ok r)
    (hplain : PlainText stamp) (hstamp : '\x1b' ∉ stamp) (hstamp' : '\x1b' ∉ stamp') :
    ShowsStamp v8 c s stamp' r ↔ (StampVisible c s s' → stamp = stamp') := by
  have hline : head <+: b.colorOutput ++ ['\n'] := hstarts.trans (List.prefix_append _ _)
  -- A listening script gets the stamp in its message, else it is in the printed line alone.
  cases hlistening : s'.listening with
  | true =>
    obtain ⟨⟨message, hmessage, hreport⟩, hprinted⟩ := finishPrint_of_listening hplain hlistening hr
    constructor
    · exact fun hshows _ ↦ hreport.symm.trans (hshows.1 message hmessage)
    · intro hvisible
      obtain rfl := hvisible (.inl hlistening)
      refine ⟨fun message' h ↦ ?_, fun hshown hsilent hne ↦ ⟨head, ?_, ?_⟩⟩
      · rw [hmessage, Option.some_inj] at h
        rw [← h, hreport]
      · rwa [startingHead_of_not_silent hsilent] at hhead
      · rwa [hprinted.resolve_right hne]
  | false =>
    obtain ⟨hmessage, hprinted⟩ := finishPrint_of_not_listening hlistening hr
    have hvisible : StampVisible c s s' ↔ c.timeStamp.shown = true ∧ s.silent = false := by
      simp [StampVisible, hlistening]
    rw [ShowsStamp, hmessage, hprinted, hvisible]
    constructor
    · rintro ⟨-, hshows⟩ ⟨hshown, hsilent⟩
      rw [startingHead_of_not_silent hsilent] at hhead
      obtain ⟨head', hhead', hline'⟩ := hshows hshown hsilent (by simp)
      exact eq_of_colorizeHead hshown hstamp hstamp' hhead hhead' hline hline'
    · intro heq
      refine ⟨nofun, fun hshown hsilent _ ↦ ⟨head, ?_, hline⟩⟩
      rwa [← heq ⟨hshown, hsilent⟩, ← startingHead_of_not_silent hsilent]

/-- The steps of a call with arguments that ends. -/
theorem localPrint_eq_ok_iff (hargs : args ≠ []) : localPrint v8 c count s args = .ok r ↔
    ∃ stamp head s' b, logTimeStamp c.timeStamp count = .ok stamp ∧
      startingHead c s stamp = .ok head ∧ appendArguments v8 args s ⟨[], head⟩ = some (s', b) ∧
      finishPrint v8 s' (startingMessage v8 c s stamp) b = .ok r := by
  rw [localPrint, if_neg (by simpa using hargs)]
  constructor
  · intro h
    obtain ⟨stamp, hstamp, h⟩ := bind_eq_ok h
    obtain ⟨head, hhead, h⟩ := bind_eq_ok h
    cases hloop : appendArguments v8 args s ⟨[], head⟩ with
    | none =>
      rw [hloop] at h
      cases h
    | some result =>
      rw [hloop] at h
      exact ⟨stamp, head, result.1, result.2, hstamp, hhead, hloop, h⟩
  · rintro ⟨stamp, head, s', b, hstamp, hhead, hloop, hr⟩
    rw [hstamp, ok_bind, hhead, ok_bind, hloop]
    exact hr

/-- **A call with arguments** goes through and shows a stamp. -/
theorem localPrint_showsStamp_iff (hargs : args ≠ []) (hstamp' : '\x1b' ∉ stamp') :
    (∃ r, localPrint v8 c count s args = .ok r ∧ ShowsStamp v8 c s stamp' r) ↔
      ∃ stamp, logTimeStamp c.timeStamp count = .ok stamp ∧ (s.silent = false → HeadColorable c) ∧
        ∃ result, renderings v8 args s = some result ∧
          (result.2.listening = true → s.listening = true) ∧
          (StampVisible c s result.2 → stamp = stamp') := by
  have hescape : ∀ {stamp}, logTimeStamp c.timeStamp count = .ok stamp → '\x1b' ∉ stamp := by
    intro stamp hstamp
    rw [logTimeStamp_eq_rtake (fitsTimeStamp_of_logTimeStamp hstamp)] at hstamp
    exact Except.ok.inj hstamp ▸ escape_not_mem_rtake count _
  constructor
  · rintro ⟨r, h, hshows⟩
    obtain ⟨stamp, head, s', b, hstamp, hhead, hloop, hr⟩ := (localPrint_eq_ok_iff hargs).mp h
    obtain ⟨b', hstarts, heq⟩ := @appendArguments_eq_map _ _ v8 args s ⟨[], head⟩
    rw [heq] at hloop
    obtain ⟨result, hresult, hpair⟩ := Option.map_eq_some_iff.mp hloop
    obtain ⟨rfl, rfl⟩ := Prod.mk.inj hpair
    refine ⟨stamp, hstamp, (startingHead_eq_ok_iff c s stamp).mp ⟨head, hhead⟩, result, hresult,
      (finishPrint_eq_ok_iff v8 c stamp s _ _).mp ⟨r, hr⟩, ?_⟩
    exact (showsStamp_iff hhead hstarts hr (plainText_of_logTimeStamp hstamp) (hescape hstamp)
      hstamp').mp hshows
  · rintro ⟨stamp, hstamp, hcolorable, result, hresult, hlistening, hvisible⟩
    obtain ⟨head, hhead⟩ := (startingHead_eq_ok_iff c s stamp).mpr hcolorable
    obtain ⟨b, hstarts, heq⟩ := @appendArguments_eq_map _ _ v8 args s ⟨[], head⟩
    rw [hresult, Option.map_some] at heq
    obtain ⟨r, hr⟩ := (finishPrint_eq_ok_iff v8 c stamp s result.2 b).mpr hlistening
    exact ⟨r, (localPrint_eq_ok_iff hargs).mpr ⟨stamp, head, _, b, hstamp, hhead, heq, hr⟩,
      (showsStamp_iff hhead hstarts hr (plainText_of_logTimeStamp hstamp) (hescape hstamp)
        hstamp').mpr hvisible⟩

/-! ## The digits that are asked for -/

/-- Two ends of the digits are the same if they are as long. -/
theorem rtake_eq_askedStamp_iff {n : ℕ} (h : n ≤ (Macros.decimal count).length) :
    (Macros.decimal count).rtake n = askedStamp assigned count ↔
      n = askedDigits assigned (Macros.decimal count).length := by
  constructor
  · intro heq
    have hlength := congrArg List.length heq
    rwa [askedStamp, length_rtake_of_le h, length_rtake_of_le (askedDigits_le _ _)] at hlength
  · rintro rfl
    rfl

/-- **When the digits that are asked for are shown.** For every number of a script, every count of
the clock and every call: there is nothing to print, or the digits can be cut, the head and the
arguments can be made, no script begins to listen on the way, and where the time stamp is to be seen
the cut leaves as many digits as the script has asked for. -/
theorem localPrint_showsAsked_iff (v8 : V8Objects Value (ListenState World))
    (c : LevelConfiguration) (assigned count : ℤ) (s : ListenState World) (args : List Value) :
    ShowsAsked v8 c assigned count s args ↔ args = [] ∨
      FitsTimeStamp (c.assignShowRight assigned).timeStamp count ∧
        (s.silent = false → HeadColorable c) ∧
        ∃ result, renderings v8 args s = some result ∧
          (result.2.listening = true → s.listening = true) ∧
          (StampVisible c s result.2 →
            (c.assignShowRight assigned).timeStamp.keptDigits (Macros.decimal count).length
              = askedDigits assigned (Macros.decimal count).length) := by
  -- Without arguments the call returns at once, and nothing shows a stamp.
  by_cases hargs : args = []
  · refine iff_of_true ⟨_, if_pos (List.isEmpty_iff.mpr hargs), nofun, ?_⟩ (.inl hargs)
    exact fun _ _ hne ↦ absurd rfl hne
  · have hescape : '\x1b' ∉ askedStamp assigned count := escape_not_mem_rtake count _
    rw [ShowsAsked, localPrint_showsStamp_iff hargs hescape, or_iff_right hargs]
    have hkept := TimeStampConfiguration.keptDigits_le (c.assignShowRight assigned).timeStamp
      (Macros.decimal count).length
    constructor
    · rintro ⟨stamp, hstamp, hcolorable, result, hresult, hlistening, hvisible⟩
      have hfits := fitsTimeStamp_of_logTimeStamp hstamp
      rw [logTimeStamp_eq_rtake hfits] at hstamp
      obtain rfl := Except.ok.inj hstamp
      exact ⟨hfits, hcolorable, result, hresult, hlistening,
        fun h ↦ (rtake_eq_askedStamp_iff hkept).mp (hvisible h)⟩
    · rintro ⟨hfits, hcolorable, result, hresult, hlistening, hvisible⟩
      exact ⟨_, logTimeStamp_eq_rtake hfits, hcolorable, result, hresult, hlistening,
        fun h ↦ (rtake_eq_askedStamp_iff hkept).mpr (hvisible h)⟩

/-- Twenty digits of a clock that shows nineteen. -/
theorem localPrint_twentyOfNineteen :
    localPrint (numberObjects (ListenState Unit))
        ((logLevelConfiguration 0).assignShowRight 20) 1700000000123456789 ⟨false, false, ()⟩ [1]
        = .error .outOfRange ∧
      ¬ShowsAsked (numberObjects (ListenState Unit)) (logLevelConfiguration 0) 20
        1700000000123456789 ⟨false, false, ()⟩ [1] := by
  have hthrows := @localPrint_of_not_fits _ _ (numberObjects (ListenState Unit))
    ((logLevelConfiguration 0).assignShowRight 20) 1700000000123456789 ⟨false, false, ()⟩ [1]
    (List.cons_ne_nil _ _) (not_fitsTimeStamp_nineteen rfl (by decide))
  refine ⟨hthrows, ?_⟩
  rintro ⟨r, hr, -⟩
  exact absurd (hthrows.symm.trans hr) nofun

end SlimTS
