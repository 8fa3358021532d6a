import Mathlib.Logic.Function.Basic
import SlimTS.Plugin.Strings
import SlimTS.Queue.TicketWidth

/-!
# Properties of the plugins

`plugin::add_property` gives a script a C++ variable: a `std::string`, a `bool` or an `int`. The
setter converts what it is assigned and stores the result. For a value of another type than the
variable's the conversions to `bool` and `int` throw an exception to V8, and then convert the value
all the same, so it is stored all the same. The exception is raised when the call returns, unless
V8 has dropped it: some of its conversions do away with an exception that was thrown before.

The values and their conversions are a parameter. Converting an object runs code of the script,
which may assign properties itself or throw; a conversion that fails makes a `std::string` of a null
pointer, or takes a number out of an empty handle, and the call ends there.

`setValue_atomic_iff` says which assignments do what they should: those that raise nothing and whose
conversion leaves the other properties alone, and those that raise and store what was there before.
-/

namespace SlimTS

/-- The values of V8, and what the plugins ask of them. The conversions of an object run script
code, which finds a state and leaves one. -/
structure V8Values (Value State : Type) extends Transcoding where
  undefined : Value
  /-- `IsString`, with the string. -/
  asString : Value → Option JsString
  isBoolean : Value → Bool
  isInt32 : Value → Bool
  /-- `ToString`, as `Utf8Value` calls it. -/
  toStr : Value → State → Option JsString × State
  booleanValue : Value → Bool
  /-- `Int32Value`. -/
  toInt32 : Value → State → Option ℤ × State
  /-- An exception that was thrown before is still there when the value has been made a string. -/
  toStrKeeps : Value → Bool
  /-- An exception that was thrown before is still there when the value has been made a number. -/
  toInt32Keeps : Value → Bool
  /-- A string is its own conversion. -/
  toStr_of_asString : ∀ value string s, asString value = some string →
    toStr value s = (some string, s)
  toStrKeeps_of_asString : ∀ value string, asString value = some string → toStrKeeps value = true
  toInt32Keeps_of_isInt32 : ∀ value, isInt32 value = true → toInt32Keeps value = true

variable {Value State Id : Type}

namespace V8Values

variable (v8 : V8Values Value State) (value : Value)

/-- `StringValue`. -/
def stringValue (s : State) : Option (Str × State) :=
  (v8.toStr value s).1.map fun string ↦
    (v8ValueToString v8.toTranscoding string, (v8.toStr value s).2)

/-- What has been thrown, when a value has been made a string behind it. -/
def thrownBeforeString (thrown : List Str) : List Str := if v8.toStrKeeps value then thrown else []

/-- What has been thrown, when a value has been made a number behind it: `IntValue` looks at its
type first. -/
def thrownBeforeInt (thrown : List Str) : List Str :=
  if v8.toInt32Keeps value then
    thrown ++ if v8.isInt32 value then [] else [integerValueExpected]
  else []

/-- `IntValue` throws, and the conversion does not drop what it throws. -/
def RaisesForInt : Prop := v8.isInt32 value = false ∧ v8.toInt32Keeps value = true

variable {v8 value}

/-- A string is converted as it is, and no code of the script runs. -/
theorem stringValue_of_asString {string : JsString} (h : v8.asString value = some string)
    (s : State) :
    v8.stringValue value s = some (v8ValueToString v8.toTranscoding string, s) := by
  rw [stringValue, v8.toStr_of_asString value string s h, Option.map_some]

/-- A number in range has nothing thrown. -/
theorem thrownBeforeInt_of_isInt32 (h : v8.isInt32 value = true) (thrown : List Str) :
    v8.thrownBeforeInt value thrown = thrown := by
  rw [thrownBeforeInt, if_pos (v8.toInt32Keeps_of_isInt32 value h), if_pos h, List.append_nil]

theorem thrownBeforeInt_ne_nil_iff : v8.thrownBeforeInt value [] ≠ [] ↔ v8.RaisesForInt value := by
  rw [thrownBeforeInt, RaisesForInt]
  cases v8.isInt32 value <;> cases v8.toInt32Keeps value <;> simp

end V8Values

/-- A C++ variable behind a property. -/
inductive PropertyVariable
  | string (content : Str)
  | bool (content : Bool)
  | int (content : ℤ)
deriving DecidableEq, Repr

/-- The variables behind the registered properties. -/
abbrev Properties (Id : Type) := Id → PropertyVariable

/-- What `BoolValue` throws to V8 before it goes on. -/
def booleanValueExpected : Str := "boolean value expected".toList

section

variable (v8 : V8Values Value (Properties Id)) (p : Properties Id) (id : Id) (value : Value)

/-- What the conversion for a property makes of a value, and the properties it leaves. -/
def converted : Option (PropertyVariable × Properties Id) :=
  match p id with
  | .string _ => (v8.stringValue value p).map fun result ↦ (.string result.1, result.2)
  | .bool _ => some (.bool (v8.booleanValue value), p)
  | .int _ => (v8.toInt32 value p).1.map fun n ↦ (.int n, (v8.toInt32 value p).2)

/-- The exceptions the conversion for a property raises: `BoolValue` and `IntValue` look at the type
of the value. `BooleanValue` leaves what was thrown before. -/
def raisedBy : List Str :=
  match p id with
  | .string _ => []
  | .bool _ => if v8.isBoolean value then [] else [booleanValueExpected]
  | .int _ => v8.thrownBeforeInt value []

variable [DecidableEq Id]

/-- `PropertyPointer::SetValue`: the properties it leaves, and the exceptions. -/
def setValue : Option (Properties Id × List Str) :=
  (converted v8 p id value).map fun result ↦
    (Function.update result.2 id result.1, raisedBy v8 p id value)

/-- An assignment that raises an exception leaves the variable as it was. One that does not sets it
to the converted value, and no other. -/
def AtomicSet : Prop :=
  ∃ p' raised, setValue v8 p id value = some (p', raised) ∧
    (raised ≠ [] → p' id = p id) ∧
    (raised = [] →
      (∃ p₁, converted v8 p id value = some (p' id, p₁)) ∧ ∀ other, other ≠ id → p' other = p other)

/-- The value can be converted for the variable. If nothing is raised for it, its conversion leaves
the other properties alone, and if something is, it becomes what the variable holds already. Nothing
is raised for a `std::string`, and `BooleanValue` runs no code. -/
def KeepsProperties : Prop :=
  match p id with
  | .string _ => (v8.toStr value p).1.isSome = true ∧
      ∀ other, other ≠ id → (v8.toStr value p).2 other = p other
  | .bool content => v8.isBoolean value = true ∨ v8.booleanValue value = content
  | .int content =>
    ¬v8.RaisesForInt value ∧ (v8.toInt32 value p).1.isSome = true ∧
        (∀ other, other ≠ id → (v8.toInt32 value p).2 other = p other) ∨
      v8.RaisesForInt value ∧ (v8.toInt32 value p).1 = some content

variable {v8 p id value}

/-- A value that cannot be converted ends the call. -/
theorem not_atomicSet_of_converted (h : converted v8 p id value = none) :
    ¬AtomicSet v8 p id value := by
  rintro ⟨p', raised, hset, -⟩
  rw [setValue, h] at hset
  cases hset

/-- One that can be is stored, exception or not. -/
theorem atomicSet_iff_of_converted {result : PropertyVariable} {p₁ : Properties Id}
    (h : converted v8 p id value = some (result, p₁)) : AtomicSet v8 p id value ↔
      (raisedBy v8 p id value = [] → ∀ other, other ≠ id → p₁ other = p other) ∧
        (raisedBy v8 p id value ≠ [] → result = p id) := by
  have hset : setValue v8 p id value
      = some (Function.update p₁ id result, raisedBy v8 p id value) := by
    rw [setValue, h]
    rfl
  have hself : Function.update p₁ id result id = result := Function.update_self ..
  have hother : ∀ other, other ≠ id → Function.update p₁ id result other = p₁ other :=
    fun other hne ↦ Function.update_of_ne hne _ _
  constructor
  · rintro ⟨p', raised, hp', hraised, hsilent⟩
    obtain ⟨rfl, rfl⟩ := Prod.mk.inj (Option.some.inj (hset.symm.trans hp'))
    refine ⟨fun hnone other hne ↦ ?_, fun hsome ↦ hself.symm.trans (hraised hsome)⟩
    exact (hother other hne).symm.trans ((hsilent hnone).2 other hne)
  · rintro ⟨hsilent, hraised⟩
    refine ⟨_, _, hset, fun hsome ↦ hself.trans (hraised hsome), fun hnone ↦ ⟨⟨p₁, ?_⟩, ?_⟩⟩
    · rw [h, hself]
    · exact fun other hne ↦ (hother other hne).trans (hsilent hnone other hne)

/-! ## The three kinds of properties -/

/-- A string property raises nothing, whatever it is assigned. -/
theorem atomicSet_string_iff {content : Str} (h : p id = .string content) :
    AtomicSet v8 p id value ↔ (v8.toStr value p).1.isSome = true ∧
      ∀ other, other ≠ id → (v8.toStr value p).2 other = p other := by
  have hraised : raisedBy v8 p id value = [] := by rw [raisedBy, h]
  rcases hstr : (v8.toStr value p).1 with - | string
  · refine iff_of_false (not_atomicSet_of_converted ?_) (by simp)
    rw [converted, h]
    simp only
    rw [V8Values.stringValue, hstr]
    rfl
  · have hconverted : converted v8 p id value
        = some (.string (v8ValueToString v8.toTranscoding string), (v8.toStr value p).2) := by
      rw [converted, h]
      simp only
      rw [V8Values.stringValue, hstr]
      rfl
    rw [atomicSet_iff_of_converted hconverted, hraised]
    simp

/-- For a `bool` a Boolean raises nothing, and any other value has to be as true as the variable. -/
theorem atomicSet_bool_iff {content : Bool} (h : p id = .bool content) :
    AtomicSet v8 p id value ↔
      v8.isBoolean value = true ∨ v8.booleanValue value = content := by
  have hconverted : converted v8 p id value = some (.bool (v8.booleanValue value), p) := by
    rw [converted, h]
  rw [atomicSet_iff_of_converted hconverted, raisedBy, h]
  cases v8.isBoolean value <;> simp

/-- For an `int` a number in range raises nothing, and any other value for which something is raised
has to become the number the variable holds. -/
theorem atomicSet_int_iff {content : ℤ} (h : p id = .int content) : AtomicSet v8 p id value ↔
    ¬v8.RaisesForInt value ∧ (v8.toInt32 value p).1.isSome = true ∧
        (∀ other, other ≠ id → (v8.toInt32 value p).2 other = p other) ∨
      v8.RaisesForInt value ∧ (v8.toInt32 value p).1 = some content := by
  rcases hint : (v8.toInt32 value p).1 with - | n
  · refine iff_of_false (not_atomicSet_of_converted ?_) (by simp)
    rw [converted, h]
    simp only
    rw [hint]
    rfl
  · have hconverted : converted v8 p id value = some (.int n, (v8.toInt32 value p).2) := by
      rw [converted, h]
      simp only
      rw [hint]
      rfl
    have hraised : raisedBy v8 p id value ≠ [] ↔ v8.RaisesForInt value := by
      rw [raisedBy, h, V8Values.thrownBeforeInt_ne_nil_iff]
    rw [atomicSet_iff_of_converted hconverted, hraised, ← not_ne_iff, hraised, h]
    by_cases hraises : v8.RaisesForInt value <;> simp [hraises]

/-- **Which assignments are atomic**, of every value to every property. -/
theorem setValue_atomic_iff (v8 : V8Values Value (Properties Id)) (p : Properties Id) (id : Id)
    (value : Value) : AtomicSet v8 p id value ↔ KeepsProperties v8 p id value := by
  rw [KeepsProperties]
  cases hkind : p id with
  | string content => exact atomicSet_string_iff hkind
  | bool content => exact atomicSet_bool_iff hkind
  | int content => exact atomicSet_int_iff hkind

end

/-! ## A number for a `bool` -/

/-- A V8 whose values are the numbers. Making one a string drops what was thrown. -/
def numberValues (State : Type) : V8Values ℤ State where
  toTranscoding := asciiTranscoding
  undefined := 0
  asString _ := none
  isBoolean _ := false
  isInt32 n := decide (-2 ^ 31 ≤ n ∧ n < 2 ^ 31)
  toStr n s := (some (Utf.units (if n < 0 then '-' :: Nat.toDigits 10 n.natAbs
    else Nat.toDigits 10 n.natAbs)), s)
  booleanValue n := decide (n ≠ 0)
  toInt32 n s := (some (toInt n), s)
  toStrKeeps _ := false
  toInt32Keeps _ := true
  toStr_of_asString _ _ _ h := by cases h
  toStrKeeps_of_asString _ _ h := by cases h
  toInt32Keeps_of_isInt32 _ _ := rfl

/-- One property, a `bool` that is not set. -/
def offProperty : Properties Unit := fun _ ↦ .bool false

/-- The number one raises an exception and sets it. -/
theorem setValue_offProperty :
    setValue (numberValues (Properties Unit)) offProperty () 1
        = some (fun _ ↦ .bool true, [booleanValueExpected]) ∧
      ¬AtomicSet (numberValues (Properties Unit)) offProperty () 1 := by
  have hkind : offProperty () = .bool false := rfl
  constructor
  · rw [setValue]
    exact congrArg some (Prod.ext (funext fun _ ↦ rfl) rfl)
  · rw [atomicSet_bool_iff hkind]
    decide

end SlimTS
