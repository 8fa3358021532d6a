import SlimTS.Plugin.LevelHead
import SlimTS.Plugin.Property

/-!
# Printing a line

`local_print` has three modes. When no script listens it prints the head and the arguments. When one
does, it makes a log message of them, and prints the line besides, or prints nothing. Two buffers
are filled on the way, one with the line and one with the arguments alone, and the flags are read
again for every argument and every separator, because rendering an object runs code of the script.

While the flags stay as they are the buffers are those of their mode (`modeBuffers`), whatever has
been rendered so far; `appendArguments_eq` is the induction over the arguments. So what the modes
print and put in their messages agrees whenever there is something to print, and
`localPrint_modesAgree_iff` says when there is.
-/

namespace SlimTS

/-! ## The call -/

/-- The flags, and what else the scripts can reach. -/
structure ListenState (World : Type) where
  listening : Bool
  outputWhenListening : Bool
  world : World

/-- The values of V8, with what is asked of an object. `JSON::Stringify` runs code of the script;
the conversion of a value that is no object does not. -/
structure V8Objects (Value State : Type) extends V8Values Value State where
  isObject : Value → Bool
  /-- `JSON::Stringify`. -/
  stringify : Value → State → Option JsString × State
  toStr_of_primitive : ∀ value s s', isObject value = false →
    toStr value s = ((toStr value s').1, s)

/-- The buffers of a call. -/
structure PrintBuffers where
  output : Str
  colorOutput : Str

/-- `log_message`. -/
structure LogMessage where
  logLevel : JsString
  fieldSeparator : JsString
  logTimeStamp : JsString
  logMessage : Option JsString := none
  rawLogMessage : Option JsString := none

/-- What a call leaves: the state, what it has printed, and the message it has resolved. -/
structure Printed (World : Type) where
  state : ListenState World
  printed : Str
  logMessage : Option LogMessage

variable {Value World : Type}

/-- A text is appended to the buffers the flags select. -/
def PrintBuffers.append (b : PrintBuffers) (s : ListenState World) (text : Str) : PrintBuffers :=
  if s.listening then
    { output := b.output ++ text
      colorOutput := if s.outputWhenListening then b.colorOutput ++ text else b.colorOutput }
  else { b with colorOutput := b.colorOutput ++ text }

section

variable (v8 : V8Objects Value (ListenState World))
  (c : LevelConfiguration) (count : ℤ) (s : ListenState World)

/-- An object is made a string once. -/
def appendObject (value : Value) (b : PrintBuffers) : Option (ListenState World × PrintBuffers) :=
  (v8.stringify value s).1.map fun json ↦
    ((v8.stringify value s).2,
      b.append (v8.stringify value s).2 (v8ValueToString v8.toTranscoding json))

/-- Any other value is made a string for each of the buffers. -/
def appendPrimitive (value : Value) (b : PrintBuffers) :
    Option (ListenState World × PrintBuffers) :=
  if s.listening then
    (v8.stringValue value s).bind fun raw ↦
      -- The second buffer gets a conversion of its own.
      if raw.2.outputWhenListening then
        (v8.stringValue value raw.2).map fun text ↦
          (text.2, ⟨b.output ++ raw.1, b.colorOutput ++ text.1⟩)
      else some (raw.2, ⟨b.output ++ raw.1, b.colorOutput⟩)
  else (v8.stringValue value s).map fun text ↦ (text.2, ⟨b.output, b.colorOutput ++ text.1⟩)

/-- The loop over the arguments, with a separator behind each but the last. -/
def appendArguments : List Value → ListenState World → PrintBuffers →
    Option (ListenState World × PrintBuffers)
  | [], s, b => some (s, b)
  | value :: values, s, b =>
    (if v8.isObject value then appendObject v8 s value b else appendPrimitive v8 s value b).bind
      -- The flags are those after the argument has been rendered.
      fun r ↦ appendArguments values r.1 (if values.isEmpty then r.2 else r.2.append r.1 [' '])

/-- The message at the start of a call, if a script listens. -/
def startingMessage (stamp : Str) : Option LogMessage :=
  if s.listening then
    some
      { logLevel := stringToV8String v8.toTranscoding c.levelString
        fieldSeparator := stringToV8String v8.toTranscoding c.fieldSeparator.text
        logTimeStamp := stringToV8String v8.toTranscoding stamp }
  else none

/-- The head at the start of a call. It is left out if nothing will be printed. -/
def startingHead (stamp : Str) : Except PrintFault Str :=
  if s.listening && !s.outputWhenListening then .ok [] else colorizeHead c stamp

/-- The end of a call: the message is completed, and the line is printed. -/
def finishPrint (message : Option LogMessage) (b : PrintBuffers) :
    Except PrintFault (Printed World) :=
  if s.listening then
    -- There is no message if the script began to listen during the call.
    message.elim (.error .emptyHandle) fun message ↦ .ok
      { state := s
        printed := if s.outputWhenListening then b.colorOutput ++ ['\n'] else []
        logMessage := some
          { message with
            logMessage := if s.outputWhenListening then
              some (stringToV8String v8.toTranscoding b.colorOutput) else none
            rawLogMessage := some (stringToV8String v8.toTranscoding b.output) } }
  else .ok { state := s, printed := b.colorOutput ++ ['\n'], logMessage := none }

/-- `local_print`, at a count of the clock. -/
def localPrint (args : List Value) : Except PrintFault (Printed World) :=
  if args.isEmpty then .ok { state := s, printed := [], logMessage := none }
  else do
    let stamp ← logTimeStamp c.timeStamp count
    let head ← startingHead c s stamp
    match appendArguments v8 args s { output := [], colorOutput := head } with
    | none => .error .argument
    | some (s', b) => finishPrint v8 s' (startingMessage v8 c s stamp) b

/-! ## What the modes should do -/

/-- The rendering of an argument, and the state after it. -/
def rendered (value : Value) : Option (Str × ListenState World) :=
  if v8.isObject value then
    (v8.stringify value s).1.map fun json ↦
      (v8ValueToString v8.toTranscoding json, (v8.stringify value s).2)
  else v8.stringValue value s

/-- The renderings of the arguments, one after another. -/
def renderings : List Value → ListenState World → Option (List Str × ListenState World)
  | [], s => some ([], s)
  | value :: values, s =>
    (rendered v8 s value).bind fun r ↦
      (renderings values r.2).map fun rest ↦ (r.1 :: rest.1, rest.2)

/-- Two states have the same flags. -/
def SameFlags (s s' : ListenState World) : Prop :=
  s'.listening = s.listening ∧ s'.outputWhenListening = s.outputWhenListening

/-- Rendering the arguments does not change the flags. -/
def KeepsFlags : List Value → ListenState World → Prop
  | [], _ => True
  | value :: values, s => ∀ r, rendered v8 s value = some r →
    SameFlags s r.2 ∧ KeepsFlags values r.2

/-- The arguments of a line: the renderings with single spaces between them. -/
def joined (texts : List Str) : Str := [' '].intercalate texts

/-- A call with this head prints and reports what its mode should. -/
def PrintsLine (head : Str) (args : List Value) : Prop :=
  ∃ texts s' r, renderings v8 args s = some (texts, s') ∧
    localPrint v8 c count s args = .ok r ∧
    (s.listening = false → r.printed = head ++ joined texts ++ ['\n']) ∧
    (s.listening = true → ∃ message, r.logMessage = some message ∧
      message.rawLogMessage.map (utf8Value v8.toTranscoding) = some (joined texts) ∧
      (s.outputWhenListening = true → r.printed = head ++ joined texts ++ ['\n'] ∧
        message.logMessage.map (utf8Value v8.toTranscoding) = some (head ++ joined texts)) ∧
      (s.outputWhenListening = false → r.printed = []))

/-- There is a head, and every mode does with it what it should. -/
def ModesAgree (world : World) (args : List Value) : Prop :=
  ∃ head, coloredHead c count = .ok head ∧ ∀ listening outputWhenListening,
    PrintsLine v8 c count ⟨listening, outputWhenListening, world⟩ head args

end

variable {v8 : V8Objects Value (ListenState World)}
  {c : LevelConfiguration} {count : ℤ} {s s' : ListenState World} {value : Value}
  {args values : List Value} {head text : Str}

/-! ## The buffers of a mode -/

/-- The buffers in the mode of a state, after a head and a text. -/
def modeBuffers (s : ListenState World) (head text : Str) : PrintBuffers where
  output := if s.listening then text else []
  colorOutput := if s.listening && !s.outputWhenListening then [] else head ++ text

theorem modeBuffers_of_sameFlags (h : SameFlags s s') (head text : Str) :
    modeBuffers s head text = modeBuffers s' head text := by
  rw [modeBuffers, modeBuffers, h.1, h.2]

/-- A text is appended in every mode. -/
theorem append_modeBuffers (s : ListenState World) (head text text' : Str) :
    (modeBuffers s head text).append s text' = modeBuffers s head (text ++ text') := by
  rw [PrintBuffers.append, modeBuffers, modeBuffers]
  cases s.listening <;> cases s.outputWhenListening <;> simp

/-! ## The arguments -/

/-- A value that is no object is made the same string every time. -/
theorem stringValue_of_primitive (h : v8.isObject value = false) (s s' : ListenState World) :
    v8.stringValue value s
      = (v8.stringValue value s').map fun text ↦ (text.1, s) := by
  rw [V8Values.stringValue, V8Values.stringValue, v8.toStr_of_primitive value s s' h]
  cases (v8.toStr value s').1 <;> rfl

theorem eq_of_stringValue (h : v8.isObject value = false) {r : Str × ListenState World}
    (hr : v8.stringValue value s = some r) : r = (r.1, s) := by
  have hsame := stringValue_of_primitive h s s
  rwa [hr, Option.map_some, Option.some_inj] at hsame

theorem appendPrimitive_modeBuffers (h : v8.isObject value = false) (s : ListenState World)
    (head text : Str) : appendPrimitive v8 s value (modeBuffers s head text)
      = (v8.stringValue value s).map fun r ↦ (r.2, modeBuffers s head (text ++ r.1)) := by
  rw [appendPrimitive]
  cases hvalue : v8.stringValue value s with
  | none => split <;> rfl
  | some r =>
    have hstate := eq_of_stringValue h hvalue
    rw [hstate] at hvalue ⊢
    simp only [Option.bind_some, Option.map_some, hvalue, modeBuffers]
    cases s.listening <;> cases s.outputWhenListening <;> simp

/-- **One argument**, rendered without a change of the flags. -/
theorem appendArgument_modeBuffers (hflags : ∀ r, rendered v8 s value = some r → SameFlags s r.2)
    (head text : Str) :
    (if v8.isObject value then appendObject v8 s value (modeBuffers s head text)
      else appendPrimitive v8 s value (modeBuffers s head text))
      = (rendered v8 s value).map fun r ↦ (r.2, modeBuffers r.2 head (text ++ r.1)) := by
  rw [rendered] at hflags ⊢
  split
  · next hobject =>
    rw [if_pos hobject] at hflags
    rw [appendObject]
    cases hjson : (v8.stringify value s).1 with
    | none => rfl
    | some json =>
      rw [hjson, Option.map_some] at hflags
      simp only [Option.map_some]
      rw [modeBuffers_of_sameFlags (hflags _ rfl), append_modeBuffers]
  · next hobject =>
    rw [if_neg hobject] at hflags
    rw [appendPrimitive_modeBuffers (Bool.eq_false_iff.mpr hobject)]
    refine Option.map_congr fun r hr ↦ ?_
    rw [modeBuffers_of_sameFlags (hflags r hr)]

theorem joined_cons (text : Str) {texts : List Str} (h : texts ≠ []) :
    joined (text :: texts) = text ++ ([' '] ++ joined texts) := by
  rw [joined, List.intercalate_cons_of_ne_nil h, joined, List.append_assoc]

theorem renderings_ne_nil {r : List Str × ListenState World} (h : values ≠ [])
    (hr : renderings v8 values s = some r) : r.1 ≠ [] := by
  obtain ⟨value, values, rfl⟩ := List.exists_cons_of_ne_nil h
  obtain ⟨first, -, hr⟩ := Option.bind_eq_some_iff.mp hr
  obtain ⟨rest, -, rfl⟩ := Option.map_eq_some_iff.mp hr
  exact List.cons_ne_nil _ _

/-- **The loop.** The induction is on the arguments: before each of them the buffers are those of
the mode, with the renderings so far and a space behind them. -/
theorem appendArguments_eq (head : Str) (hflags : KeepsFlags v8 args s) (text : Str) :
    appendArguments v8 args s (modeBuffers s head text)
      = (renderings v8 args s).map fun r ↦
          (r.2, modeBuffers r.2 head (text ++ joined r.1)) := by
  induction args generalizing s text with
  | nil => rw [appendArguments, renderings, Option.map_some, joined, List.intercalate_nil,
      List.append_nil]
  | cons value values ih =>
    rw [KeepsFlags] at hflags
    rw [appendArguments, renderings, appendArgument_modeBuffers fun r hr ↦ (hflags r hr).1]
    cases hvalue : rendered v8 s value with
    | none => rfl
    | some r =>
      obtain ⟨-, hrest⟩ := hflags r hvalue
      simp only [Option.map_some, Option.bind_some]
      -- The last argument has no space behind it.
      cases values with
      | nil =>
        simp [appendArguments, renderings, joined]
      | cons next values =>
        rw [List.isEmpty_cons, if_neg Bool.false_ne_true, append_modeBuffers, ih hrest,
          Option.map_map]
        refine Option.map_congr fun rest hr ↦ ?_
        have hne := renderings_ne_nil (List.cons_ne_nil _ _) hr
        rw [Function.comp_apply, joined_cons _ hne, List.append_assoc, List.append_assoc]

/-- The flags after the last argument. -/
theorem sameFlags_of_renderings (hflags : KeepsFlags v8 args s)
    {r : List Str × ListenState World} (hr : renderings v8 args s = some r) :
    SameFlags s r.2 := by
  induction args generalizing s r with
  | nil =>
    rw [renderings, Option.some_inj] at hr
    rw [← hr]
    exact ⟨rfl, rfl⟩
  | cons value values ih =>
    obtain ⟨first, hfirst, hr⟩ := Option.bind_eq_some_iff.mp hr
    obtain ⟨rest, hrest, rfl⟩ := Option.map_eq_some_iff.mp hr
    obtain ⟨hsame, hkeeps⟩ := hflags first hfirst
    have hlast := ih hkeeps hrest
    exact ⟨hlast.1.trans hsame.1, hlast.2.trans hsame.2⟩

/-! ## The line -/

/-- Renderings are texts without NUL. -/
theorem plainText_of_rendered {r : Str × ListenState World} (h : rendered v8 s value = some r) :
    PlainText r.1 := by
  rw [rendered] at h
  split at h
  · obtain ⟨json, -, rfl⟩ := Option.map_eq_some_iff.mp h
    exact plainText_v8ValueToString json
  · obtain ⟨string, -, rfl⟩ := Option.map_eq_some_iff.mp h
    exact plainText_v8ValueToString string

theorem plainText_joined {r : List Str × ListenState World} (h : renderings v8 args s = some r) :
    PlainText (joined r.1) := by
  induction args generalizing s r with
  | nil =>
    rw [renderings, Option.some_inj] at h
    rw [← h]
    exact plainText_nil
  | cons value values ih =>
    obtain ⟨first, hfirst, h⟩ := Option.bind_eq_some_iff.mp h
    obtain ⟨rest, hrest, rfl⟩ := Option.map_eq_some_iff.mp h
    have hplain := plainText_of_rendered hfirst
    by_cases hnil : rest.1 = []
    · rw [hnil, joined, List.intercalate_singleton]
      exact hplain
    · rw [joined_cons _ hnil]
      exact hplain.append ((plainText_of_ascii (by decide)).append (ih hrest))

/-- The cut of the time stamp throws before anything is printed. -/
theorem localPrint_of_not_fits (hargs : args ≠ []) (h : ¬FitsTimeStamp c.timeStamp count) :
    localPrint v8 c count s args = .error .outOfRange := by
  rw [localPrint, if_neg (by simpa using hargs), logTimeStamp_of_not_fits h]
  rfl

/-- A call with a head goes through to its end if the arguments can be rendered. -/
theorem localPrint_of_head {stamp : Str} (hargs : args ≠ []) (hflags : KeepsFlags v8 args s)
    (hstamp : logTimeStamp c.timeStamp count = .ok stamp) (hhead : colorizeHead c stamp = .ok head)
    {r : List Str × ListenState World} (hr : renderings v8 args s = some r) :
    localPrint v8 c count s args
      = finishPrint v8 r.2 (startingMessage v8 c s stamp)
          (modeBuffers s head (joined r.1)) := by
  have hstart : startingHead c s stamp = .ok (modeBuffers s head []).colorOutput := by
    rw [startingHead, modeBuffers, hhead, List.append_nil]
    split <;> rfl
  have hbuffers : (⟨[], (modeBuffers s head []).colorOutput⟩ : PrintBuffers)
      = modeBuffers s head [] := by
    rw [modeBuffers, ite_self]
  have hloop := appendArguments_eq head hflags []
  rw [hr, Option.map_some, List.nil_append] at hloop
  rw [localPrint, if_neg (by simpa using hargs), hstamp, ok_bind, hstart, ok_bind, hbuffers, hloop,
    modeBuffers_of_sameFlags (sameFlags_of_renderings hflags hr)]

/-- **A call with a head** does what its mode should. -/
theorem printsLine_of_head (hargs : args ≠ []) (hflags : KeepsFlags v8 args s)
    (hhead : coloredHead c count = .ok head) {r : List Str × ListenState World}
    (hr : renderings v8 args s = some r) : PrintsLine v8 c count s head args := by
  obtain ⟨stamp, hstamp, hcolored⟩ := bind_eq_ok hhead
  have hcall := localPrint_of_head hargs hflags hstamp hcolored hr
  have hsame := sameFlags_of_renderings hflags hr
  have hraw := @utf8Value_stringToV8String v8.toTranscoding _ (plainText_joined hr)
  have hline := @utf8Value_stringToV8String v8.toTranscoding _
    ((plainText_of_coloredHead hhead).append (plainText_joined hr))
  rw [finishPrint, hsame.1, hsame.2] at hcall
  cases hlistening : s.listening with
  | false =>
    rw [hlistening, if_neg Bool.false_ne_true] at hcall
    refine ⟨r.1, r.2, _, hr, hcall, fun _ ↦ ?_, fun h ↦ absurd (hlistening.symm.trans h) (by simp)⟩
    simp only [modeBuffers, hlistening, Bool.false_and, Bool.false_eq_true, if_false]
  | true =>
    rw [hlistening, if_pos rfl, startingMessage, if_pos hlistening] at hcall
    refine ⟨r.1, r.2, _, hr, hcall, fun h ↦ absurd (hlistening.symm.trans h) (by simp),
      fun _ ↦ ⟨_, rfl, ?_, fun houtput ↦ ?_, fun hsilent ↦ ?_⟩⟩
    · simp only [modeBuffers, hlistening, if_true, Option.map_some, hraw]
    · simp only [modeBuffers, hlistening, houtput, Bool.not_true, Bool.and_false,
        Bool.false_eq_true, if_false, if_true, Option.map_some, hline, and_self]
    · simp only [hsilent, Bool.false_eq_true, if_false]

/-- **When the modes agree.** For arguments whose rendering does not change the flags, every mode
prints and reports what it should if and only if the time stamp has the digits it is cut to, the
shown parts of the head can be coloured, and the arguments can be rendered. -/
theorem localPrint_modesAgree_iff (v8 : V8Objects Value (ListenState World))
    (c : LevelConfiguration) (count : ℤ) (world : World)
    (hargs : args ≠ []) (hflags : ∀ listening outputWhenListening,
      KeepsFlags v8 args ⟨listening, outputWhenListening, world⟩) :
    ModesAgree v8 c count world args ↔
      FitsTimeStamp c.timeStamp count ∧ HeadColorable c ∧ ∀ listening outputWhenListening,
        (renderings v8 args ⟨listening, outputWhenListening, world⟩).isSome = true := by
  constructor
  · rintro ⟨head, hhead, hmodes⟩
    obtain ⟨hfits, hcolorable⟩ := (coloredHead_eq_ok_iff c count).mp ⟨head, hhead⟩
    refine ⟨hfits, hcolorable, fun listening outputWhenListening ↦ ?_⟩
    obtain ⟨texts, s', -, hr, -⟩ := hmodes listening outputWhenListening
    rw [hr, Option.isSome_some]
  · rintro ⟨hfits, hcolorable, hrendered⟩
    obtain ⟨head, hhead⟩ := (coloredHead_eq_ok_iff c count).mpr ⟨hfits, hcolorable⟩
    refine ⟨head, hhead, fun listening outputWhenListening ↦ ?_⟩
    obtain ⟨r, hr⟩ := Option.isSome_iff_exists.mp (hrendered listening outputWhenListening)
    exact printsLine_of_head hargs (hflags listening outputWhenListening) hhead hr

/-! ## The level `log` -/

/-- A V8 whose values are numbers, none of which is an object. -/
def numberObjects (State : Type) : V8Objects ℤ State where
  toV8Values := numberValues State
  isObject _ := false
  stringify _ s := (none, s)
  toStr_of_primitive _ _ _ _ := rfl

theorem isPlain_of_default {m : BaseConfiguration} (htext : m.textColor = defaultColor)
    (hbackground : m.backgroundColor = defaultColor) : m.IsPlain := by
  have hplain : PlainText defaultColor := plainText_of_ascii (by decide)
  rw [BaseConfiguration.IsPlain, htext, hbackground]
  exact ⟨hplain, hplain⟩

/-- The level `log`, with a number of digits for its time stamp. -/
def logLevelConfiguration (showRight : ℤ) : LevelConfiguration where
  toConfiguration := initialConfigurations .log
  timeStamp := { showRight := showRight }
  plain_levelString := plainText_of_ascii (by decide)
  plain_members := isPlain_of_default rfl rfl
  plain_fieldSeparator := plainText_of_ascii (by decide)
  plain_fieldSeparator_base := isPlain_of_default rfl rfl
  plain_timeStamp := isPlain_of_default rfl rfl

/-- A number is printed with six digits of the clock. -/
theorem localPrint_modesAgree_iff_sixDigits :
    (([1] : List ℤ) ≠ [] ∧ ∀ listening outputWhenListening,
      KeepsFlags (numberObjects (ListenState Unit)) [1] ⟨listening, outputWhenListening, ()⟩) ∧
    (ModesAgree (numberObjects (ListenState Unit)) (logLevelConfiguration 6)
        1700000000123456789 () [1] ↔
      FitsTimeStamp (logLevelConfiguration 6).timeStamp 1700000000123456789 ∧
        HeadColorable (logLevelConfiguration 6) ∧ ∀ listening outputWhenListening,
          (renderings (numberObjects (ListenState Unit)) [1]
            ⟨listening, outputWhenListening, ()⟩).isSome = true) := by
  have hflags : ∀ listening outputWhenListening, KeepsFlags (numberObjects (ListenState Unit)) [1]
      ⟨listening, outputWhenListening, ()⟩ := by
    rintro listening outputWhenListening r hr
    rw [← Option.some.inj hr]
    exact ⟨⟨rfl, rfl⟩, trivial⟩
  exact ⟨⟨by decide, hflags⟩, localPrint_modesAgree_iff _ _ _ _ (by decide) hflags⟩

/-- A clock that shows nineteen digits. -/
theorem not_fitsTimeStamp_nineteen {c : TimeStampConfiguration}
    (hformat : c.timeFormat = "epoch".toList) (hright : 20 ≤ c.showRight) :
    ¬FitsTimeStamp c 1700000000123456789 := by
  have hlength : (Nat.toDigits 10 1700000000123456789).length ≤ 19 :=
    (Nat.length_toDigits_le_iff (by decide) (by decide)).mpr (by decide)
  have hdecimal : Macros.decimal 1700000000123456789 = Nat.toDigits 10 1700000000123456789 :=
    decimal_natCast _
  intro hfits
  have hlong := hfits (by rw [hformat]; rfl)
  rw [hdecimal] at hlong
  omega

/-- The clock shows nineteen digits, and twenty of them are asked for. -/
theorem localPrint_twentyDigits :
    localPrint (numberObjects (ListenState Unit)) (logLevelConfiguration 20)
        1700000000123456789 ⟨false, false, ()⟩ [1] = .error .outOfRange ∧
      ¬ModesAgree (numberObjects (ListenState Unit)) (logLevelConfiguration 20)
        1700000000123456789 () [1] := by
  have hfits : ¬FitsTimeStamp (logLevelConfiguration 20).timeStamp 1700000000123456789 :=
    not_fitsTimeStamp_nineteen rfl le_rfl
  refine ⟨localPrint_of_not_fits (List.cons_ne_nil _ _) hfits, ?_⟩
  rintro ⟨head, hhead, -⟩
  exact hfits ((coloredHead_eq_ok_iff _ _).mp ⟨head, hhead⟩).1

end SlimTS
