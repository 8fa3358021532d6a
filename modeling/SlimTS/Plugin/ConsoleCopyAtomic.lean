import SlimTS.Plugin.ConsoleCopy
import SlimTS.Plugin.Property

/-!
# A call of `configuration.copy`

`copy_configuration` makes four checks: the number of the arguments, their types, that the two
levels differ, and that both are known. Each of them throws an exception to V8, and none of them
returns. What follows is done whatever has been thrown: the arguments are converted, behind the
first two checks, the table of levels is asked for both names with an operator that puts a null
pointer in for one it does not have, and the copy is made through the two pointers.

So a call with a name that is not known ends in an access through a null pointer, and a call with a
wrong number of arguments, or with objects for arguments, copies like any other one. It may even
raise nothing, if V8 drops what was thrown when it converts an argument.
`copyConfigurationCall_atomic_iff` says which calls either raise an exception and change nothing, or
raise none and change no level but the target. The levels `dir` and `dirxml` have one configuration
between them, so a copy to one of them changes the other.
-/

namespace SlimTS

/-- The table of the levels, and the configurations its pointers lead to. -/
structure CopyState where
  /-- `level_configurations`. -/
  levels : List (Str × Option ConfigurationName)
  configurations : ConsoleState

/-- The table and the configurations at the start. -/
def CopyState.initial : CopyState where
  levels := levelConfigurations.map fun entry ↦ (entry.1, some entry.2)
  configurations := initialConfigurations

namespace CopyState

variable (s : CopyState)

/-- `contains`. -/
def contains (level : Str) : Bool := (s.levels.lookup level).isSome

/-- The pointer of a level, if there is one and it is not null. -/
def pointer (level : Str) : Option ConfigurationName := (s.levels.lookup level).join

/-- The configuration of a level. -/
def configuration (level : Str) : Option Configuration := (s.pointer level).map s.configurations

/-- The table after `operator[]`. -/
def subscript (level : Str) : CopyState :=
  if s.contains level then s else { s with levels := (level, none) :: s.levels }

/-- `copy_console_configuration`, through two pointers. -/
def copied (source target : ConfigurationName) : CopyState :=
  { s with
    configurations := Function.update s.configurations target
      { s.configurations target with
        base := copyConsoleConfiguration (s.configurations source).base
          (s.configurations target).base } }

/-- Up to the base of the target, which is the one the source has in the other state, the states are
the same. -/
def IsUpToBase (s₁ : CopyState) (source target : ConfigurationName) : Prop :=
  s₁.levels = s.levels ∧ (∀ c, c ≠ target → s₁.configurations c = s.configurations c) ∧
    s.configurations target
      = { s₁.configurations target with base := (s₁.configurations source).base }

end CopyState

/-- What is thrown for wrong arguments. -/
def copyExpects : Str := "copy expects exactly 2 string arguments".toList

section

variable {Value : Type} (v8 : V8Values Value CopyState) (s : CopyState) (args : List Value)

/-- The source argument. -/
def sourceArgument : Value := args.getD 0 v8.undefined

/-- The target argument. -/
def targetArgument : Value := args.getD 1 v8.undefined

/-- Both arguments are strings. -/
def areStrings : Bool :=
  (v8.asString (sourceArgument v8 args)).isSome && (v8.asString (targetArgument v8 args)).isSome

/-- The names the arguments are converted to, and the state after that. -/
def copyNames : Option (Str × Str × CopyState) :=
  (v8.stringValue (sourceArgument v8 args) s).bind fun source ↦
    (v8.stringValue (targetArgument v8 args) source.2).map fun target ↦
      (source.1, target.1, target.2)

/-- What the first two checks have thrown, when the arguments are converted. -/
def copyChecked : List Str :=
  v8.thrownBeforeString (targetArgument v8 args) <|
    v8.thrownBeforeString (sourceArgument v8 args) <|
    (if args.length ≠ 2 then [copyExpects] else [])
      ++ if areStrings v8 args then [] else [copyExpects]

/-- The exceptions, in the state in which the names are known. -/
def copyRaised (fromLevel toLevel : Str) (s : CopyState) : List Str :=
  copyChecked v8 args
    ++ (if fromLevel = toLevel then [cannotCopyToSelf] else [])
    ++ ([toLevel, fromLevel].filter fun level ↦ !s.contains level).map (levelNotFound ++ ·)

/-- `copy_configuration`: the state it leaves and the exceptions it has thrown. Nothing can be
copied through a null pointer. -/
def copyConfigurationCall : Option (CopyState × List Str) :=
  (copyNames v8 s args).bind fun names ↦
    -- Names that are not known are in the table from here on.
    let s' := (names.2.2.subscript names.1).subscript names.2.1
    (s'.pointer names.1).bind fun source ↦
      (s'.pointer names.2.1).map fun target ↦
        (s'.copied source target, copyRaised v8 args names.1 names.2.1 names.2.2)

/-- A call raises an exception and changes nothing, or it raises none and changes no level but the
one its second argument names. -/
def AtomicCopy : Prop :=
  ∃ s' raised, copyConfigurationCall v8 s args = some (s', raised) ∧
    (raised ≠ [] → s' = s) ∧
    (raised = [] → s'.levels = s.levels ∧
      ∃ fromLevel toLevel s₁, copyNames v8 s args = some (fromLevel, toLevel, s₁) ∧
        ∀ level, level ≠ toLevel → s'.configuration level = s.configuration level)

/-- Nothing is raised for known levels: the call has two strings for arguments, or what was thrown
for others has been dropped, and the levels differ. -/
def RaisesNothing (fromLevel toLevel : Str) : Prop :=
  (args.length = 2 ∧ areStrings v8 args = true ∨
    v8.toStrKeeps (sourceArgument v8 args) = false ∨
    v8.toStrKeeps (targetArgument v8 args) = false) ∧ fromLevel ≠ toLevel

/-- The arguments are converted to the names of two known levels. If nothing is raised, the
conversions change no level but the target, and if another level has the target's configuration, it
had the base that the source has after them. If something is raised, the conversions change nothing
but the base of the target, which was what the source's is after them. -/
def CopiesSafely : Prop :=
  ∃ fromLevel toLevel s₁ source target, copyNames v8 s args = some (fromLevel, toLevel, s₁) ∧
    s₁.pointer fromLevel = some source ∧ s₁.pointer toLevel = some target ∧
    (RaisesNothing v8 args fromLevel toLevel → s₁.levels = s.levels ∧
      ∀ level c, level ≠ toLevel → s.pointer level = some c →
        s.configurations c = if c = target then
          { s₁.configurations target with base := (s₁.configurations source).base }
        else s₁.configurations c) ∧
    (¬RaisesNothing v8 args fromLevel toLevel → s.IsUpToBase s₁ source target)

end

variable {Value : Type} {v8 : V8Values Value CopyState} {s s₁ : CopyState} {args : List Value}
  {fromLevel toLevel level : Str} {source target : ConfigurationName}

/-! ## The table -/

/-- The pointers are what they were: a name that is put in has none. -/
@[simp] theorem CopyState.pointer_subscript (s : CopyState) (level level' : Str) :
    (s.subscript level).pointer level' = s.pointer level' := by
  rw [subscript, contains]
  rcases hlookup : s.levels.lookup level with - | entry
  · rw [Option.isSome_none, if_neg Bool.false_ne_true, pointer, pointer, List.lookup_cons]
    by_cases heq : level' = level
    · rw [heq, beq_self_eq_true, hlookup]
      rfl
    · rw [beq_false_of_ne heq]
  · rw [Option.isSome_some, if_pos rfl]

theorem CopyState.contains_of_pointer (h : s.pointer level = some target) :
    s.contains level = true := by
  rw [pointer] at h
  rw [contains]
  cases hlookup : s.levels.lookup level with
  | none => rw [hlookup] at h; cases h
  | some entry => rfl

theorem CopyState.subscript_of_pointer (h : s.pointer level = some target) :
    s.subscript level = s := if_pos (contains_of_pointer h)

/-! ## The copy -/

/-- Every member of the base is copied. -/
theorem copyConsoleConfiguration_eq (source destination : BaseConfiguration) :
    copyConsoleConfiguration source destination = source := rfl

theorem CopyState.copied_eq_iff_isUpToBase (s s₁ : CopyState) (source target : ConfigurationName) :
    s₁.copied source target = s ↔ s.IsUpToBase s₁ source target := by
  constructor
  · rintro rfl
    exact ⟨rfl, fun c hc ↦ (Function.update_of_ne hc _ _).symm, Function.update_self _ _ _⟩
  · rintro ⟨hlevels, hother, htarget⟩
    rw [copied, hlevels]
    refine congrArg (CopyState.mk s.levels) (funext fun c ↦ ?_)
    by_cases hc : c = target
    · rw [hc, Function.update_self, htarget, copyConsoleConfiguration_eq]
    · rw [Function.update_of_ne hc, hother c hc]

/-- The configuration behind a level after a copy, in a state with the same table. -/
theorem CopyState.configuration_copied_eq_iff (hlevels : s₁.levels = s.levels)
    (source target : ConfigurationName) (level : Str) :
    (s₁.copied source target).configuration level = s.configuration level ↔
      ∀ c, s.pointer level = some c →
        s.configurations c = if c = target then
          { s₁.configurations target with base := (s₁.configurations source).base }
        else s₁.configurations c := by
  have hpointer : (s₁.copied source target).pointer level = s.pointer level := by
    rw [pointer, pointer, ← hlevels]
    rfl
  rw [configuration, configuration, hpointer]
  rcases s.pointer level with - | c
  · exact iff_of_true rfl nofun
  · simp only [Option.map_some, Option.some_inj, forall_eq']
    by_cases hc : c = target
    · rw [if_pos hc, hc, copied]
      simp only [Function.update_self, copyConsoleConfiguration_eq]
      exact eq_comm
    · rw [if_neg hc, copied]
      simp only [Function.update_of_ne hc]
      exact eq_comm

/-! ## One call -/

theorem copyChecked_eq_nil_iff : copyChecked v8 args = [] ↔
    args.length = 2 ∧ areStrings v8 args = true ∨
      v8.toStrKeeps (sourceArgument v8 args) = false ∨
      v8.toStrKeeps (targetArgument v8 args) = false := by
  rw [copyChecked, V8Values.thrownBeforeString, V8Values.thrownBeforeString]
  by_cases hlength : args.length = 2 <;> cases areStrings v8 args <;>
    cases v8.toStrKeeps (sourceArgument v8 args) <;>
    cases v8.toStrKeeps (targetArgument v8 args) <;> simp [hlength]

/-- When nothing is raised for known levels. -/
theorem copyRaised_eq_nil_iff (hfrom : s₁.pointer fromLevel = some source)
    (hto : s₁.pointer toLevel = some target) :
    copyRaised v8 args fromLevel toLevel s₁ = [] ↔ RaisesNothing v8 args fromLevel toLevel := by
  rw [copyRaised, RaisesNothing, List.filter_cons_of_neg
    (by simp [CopyState.contains_of_pointer hto]), List.filter_cons_of_neg
    (by simp [CopyState.contains_of_pointer hfrom]), List.filter_nil, List.map_nil, List.append_nil,
    List.append_eq_nil_iff, copyChecked_eq_nil_iff]
  simp

/-- The call of two known levels. -/
theorem copyConfigurationCall_of_known
    (hnames : copyNames v8 s args = some (fromLevel, toLevel, s₁))
    (hfrom : s₁.pointer fromLevel = some source) (hto : s₁.pointer toLevel = some target) :
    copyConfigurationCall v8 s args
      = some (s₁.copied source target, copyRaised v8 args fromLevel toLevel s₁) := by
  rw [copyConfigurationCall, hnames]
  simp only [Option.bind_some, CopyState.subscript_of_pointer hfrom,
    CopyState.subscript_of_pointer hto, hfrom, hto, Option.map_some]

/-- A call that returns is one of two known levels. -/
theorem known_of_copyConfigurationCall {result : CopyState × List Str}
    (h : copyConfigurationCall v8 s args = some result) :
    ∃ fromLevel toLevel s₁ source target, copyNames v8 s args = some (fromLevel, toLevel, s₁) ∧
      s₁.pointer fromLevel = some source ∧ s₁.pointer toLevel = some target := by
  rw [copyConfigurationCall] at h
  obtain ⟨⟨fromLevel, toLevel, s₁⟩, hnames, h⟩ := Option.bind_eq_some_iff.mp h
  obtain ⟨source, hsource, h⟩ := Option.bind_eq_some_iff.mp h
  obtain ⟨target, htarget, -⟩ := Option.map_eq_some_iff.mp h
  rw [CopyState.pointer_subscript, CopyState.pointer_subscript] at hsource htarget
  exact ⟨fromLevel, toLevel, s₁, source, target, hnames, hsource, htarget⟩

/-- Two strings are converted as they are, and no code of the script runs. -/
theorem copyNames_of_asString {x y : JsString}
    (hsource : v8.asString (sourceArgument v8 args) = some x)
    (htarget : v8.asString (targetArgument v8 args) = some y) (s : CopyState) :
    copyNames v8 s args = some
      (v8ValueToString v8.toTranscoding x, v8ValueToString v8.toTranscoding y, s) := by
  rw [copyNames, V8Values.stringValue_of_asString hsource, Option.bind_some,
    V8Values.stringValue_of_asString htarget, Option.map_some]

/-- **A call of two known levels** is atomic if and only if it changes what it may change. -/
theorem atomicCopy_iff_of_known (hnames : copyNames v8 s args = some (fromLevel, toLevel, s₁))
    (hfrom : s₁.pointer fromLevel = some source) (hto : s₁.pointer toLevel = some target) :
    AtomicCopy v8 s args ↔
      (RaisesNothing v8 args fromLevel toLevel → s₁.levels = s.levels ∧
        ∀ level c, level ≠ toLevel → s.pointer level = some c →
          s.configurations c = if c = target then
            { s₁.configurations target with base := (s₁.configurations source).base }
          else s₁.configurations c) ∧
      (¬RaisesNothing v8 args fromLevel toLevel → s.IsUpToBase s₁ source target) := by
  have hcall := copyConfigurationCall_of_known hnames hfrom hto
  have hraised := @copyRaised_eq_nil_iff _ v8 _ args _ _ _ _ hfrom hto
  have hatomic : AtomicCopy v8 s args ↔
      (¬RaisesNothing v8 args fromLevel toLevel → s₁.copied source target = s) ∧
      (RaisesNothing v8 args fromLevel toLevel → (s₁.copied source target).levels = s.levels ∧
        ∀ level, level ≠ toLevel →
          (s₁.copied source target).configuration level = s.configuration level) := by
    rw [← hraised]
    constructor
    · rintro ⟨s', raised, h, hchanged, hothers⟩
      obtain ⟨rfl, rfl⟩ := Prod.mk.inj (Option.some.inj (hcall.symm.trans h))
      refine ⟨hchanged, fun hnone ↦ ?_⟩
      obtain ⟨hlevels, fromLevel', toLevel', s₂, hnames', hlevel⟩ := hothers hnone
      cases hnames.symm.trans hnames'
      exact ⟨hlevels, hlevel⟩
    · rintro ⟨hchanged, hothers⟩
      exact ⟨_, _, hcall, hchanged, fun hnone ↦
        ⟨(hothers hnone).1, _, _, _, hnames, (hothers hnone).2⟩⟩
  rw [hatomic, and_comm, CopyState.copied_eq_iff_isUpToBase]
  -- The table of the copy is the one the conversions leave.
  refine and_congr_left fun _ ↦ imp_congr_right fun _ ↦ and_congr_right fun h ↦ ?_
  have hlevels : s₁.levels = s.levels := h
  constructor
  · exact fun h level c hne hc ↦
      (CopyState.configuration_copied_eq_iff hlevels source target level).mp (h level hne) c hc
  · exact fun h level hne ↦
      (CopyState.configuration_copied_eq_iff hlevels source target level).mpr fun c ↦ h level c hne

/-- **Which calls are atomic**, from every state and with every list of arguments. -/
theorem copyConfigurationCall_atomic_iff (v8 : V8Values Value CopyState) (s : CopyState)
    (args : List Value) : AtomicCopy v8 s args ↔ CopiesSafely v8 s args := by
  constructor
  · intro h
    obtain ⟨s', raised, hcall, -⟩ := id h
    obtain ⟨fromLevel, toLevel, s₁, source, target, hnames, hfrom, hto⟩ :=
      known_of_copyConfigurationCall hcall
    exact ⟨fromLevel, toLevel, s₁, source, target, hnames, hfrom, hto,
      (atomicCopy_iff_of_known hnames hfrom hto).mp h⟩
  · rintro ⟨fromLevel, toLevel, s₁, source, target, hnames, hfrom, hto, hsafe⟩
    exact (atomicCopy_iff_of_known hnames hfrom hto).mpr hsafe

/-! ## Two strings -/

/-- With the table as it is at the start the levels are those of `levelConfigurations`. -/
theorem CopyState.lookup_levels (h : s.levels = initial.levels) (level : Str) :
    s.levels.lookup level = (levelConfigurations.lookup level).map some := by
  rw [h, initial]
  induction levelConfigurations with
  | nil => rfl
  | cons entry levels ih =>
    rw [List.map_cons, List.lookup_cons, List.lookup_cons, ih]
    cases level == entry.1 <;> rfl

/-- **A call with two strings** is `copyConfiguration` on the configurations. -/
theorem copyConfigurationCall_pair {a b : Value} {x y : JsString} (ha : v8.asString a = some x)
    (hb : v8.asString b = some y) (hlevels : s.levels = CopyState.initial.levels) :
    copyConfigurationCall v8 s [a, b]
      = (copyConfiguration s.configurations (v8ValueToString v8.toTranscoding x)
          (v8ValueToString v8.toTranscoding y)).map
            fun result ↦ ({ s with configurations := result.1 }, result.2) := by
  have hpointer : ∀ level, s.pointer level = levelConfigurations.lookup level := fun level ↦ by
    rw [CopyState.pointer, CopyState.lookup_levels hlevels]
    cases levelConfigurations.lookup level <;> rfl
  have hcontains : ∀ level, (!s.contains level) = (levelConfigurations.lookup level).isNone :=
    fun level ↦ by
      rw [CopyState.contains, CopyState.lookup_levels hlevels]
      cases levelConfigurations.lookup level <;> rfl
  have hraised : copyRaised v8 [a, b] (v8ValueToString v8.toTranscoding x)
      (v8ValueToString v8.toTranscoding y) s
      = copyExceptions (v8ValueToString v8.toTranscoding x)
        (v8ValueToString v8.toTranscoding y) := by
    have hstrings : areStrings v8 [a, b] = true := by
      simp [areStrings, sourceArgument, targetArgument, ha, hb]
    have hchecked : copyChecked v8 [a, b] = [] :=
      copyChecked_eq_nil_iff.mpr (.inl ⟨rfl, hstrings⟩)
    simp only [copyRaised, copyExceptions, hchecked, hcontains, List.nil_append]
  rw [copyConfigurationCall, @copyNames_of_asString _ _ [a, b] _ _ ha hb, Option.bind_some,
    copyConfiguration]
  simp only [CopyState.pointer_subscript, hpointer]
  cases hfrom : levelConfigurations.lookup (v8ValueToString v8.toTranscoding x) with
  | none => rfl
  | some source =>
    cases hto : levelConfigurations.lookup (v8ValueToString v8.toTranscoding y) with
    | none => rfl
    | some target =>
      simp only [Option.bind_some, Option.map_some,
        CopyState.subscript_of_pointer ((hpointer _).trans hfrom),
        CopyState.subscript_of_pointer ((hpointer _).trans hto), hraised, CopyState.copied]

/-! ## A third argument -/

/-- A string without a digit. -/
abbrev DigitlessString := { s : JsString // (s.any fun u ↦ 0x30 ≤ u && u ≤ 0x39) = false }

/-- A V8 whose values are such strings and `undefined`. None of them is a number, so all of them
are zero as an integer, and what was thrown before is dropped when they are made one. -/
def digitlessValues (State : Type) : V8Values (Option DigitlessString) State where
  toTranscoding := asciiTranscoding
  undefined := none
  asString value := value.map Subtype.val
  isBoolean _ := false
  isInt32 _ := false
  toStr value s := (some ((value.map Subtype.val).getD (Utf.units "undefined".toList)), s)
  booleanValue value := value.any fun word ↦ word.val ≠ []
  toInt32 _ s := (some 0, s)
  toStrKeeps value := value.isSome
  toInt32Keeps _ := false
  toStr_of_asString value string s h := by rw [h, Option.getD_some]
  toStrKeeps_of_asString value _ h := by cases value <;> trivial
  toInt32Keeps_of_isInt32 _ h := by cases h

/-- The arguments of `copy("error", "log", "x")`. -/
def threeWords : List (Option DigitlessString) :=
  [some ⟨Utf.units "error".toList, by decide⟩, some ⟨Utf.units "log".toList, by decide⟩,
    some ⟨Utf.units "x".toList, by decide⟩]

/-- The state at the start, but for the error level, which is bold. -/
def boldError : CopyState :=
  { CopyState.initial with
    configurations := Function.update initialConfigurations .error
      { initialConfigurations .error with
        base := { (initialConfigurations .error).base with bold := true } } }

/-- Three arguments raise an exception, and the log level is bold after it. -/
theorem copyConfigurationCall_threeWords :
    (∃ s', copyConfigurationCall (digitlessValues CopyState) boldError threeWords
        = some (s', [copyExpects]) ∧
      (boldError.configurations .log).base.bold = false ∧
      (s'.configurations .log).base.bold = true) ∧
    ¬AtomicCopy (digitlessValues CopyState) boldError threeWords := by
  have hnames : copyNames (digitlessValues CopyState) boldError threeWords
      = some ("error".toList, "log".toList, boldError) := rfl
  have hfrom : boldError.pointer "error".toList = some .error := by decide
  have hto : boldError.pointer "log".toList = some .log := by decide
  have hraised : copyRaised (digitlessValues CopyState) threeWords "error".toList "log".toList
      boldError = [copyExpects] := by decide
  have hcall := copyConfigurationCall_of_known hnames hfrom hto
  rw [hraised] at hcall
  refine ⟨⟨_, hcall, by decide, by decide⟩, ?_⟩
  rintro ⟨s', raised, h, hunchanged, -⟩
  obtain ⟨rfl, rfl⟩ := Prod.mk.inj (Option.some.inj (hcall.symm.trans h))
  have hbold := congrArg (fun s : CopyState ↦ (s.configurations .log).base.bold)
    (hunchanged (List.cons_ne_nil _ _))
  exact absurd hbold (by decide)

end SlimTS
