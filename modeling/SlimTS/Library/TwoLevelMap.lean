import Mathlib.Logic.Function.Basic

/-!
# Two-level maps

A map from names to maps from keys to values, with the four operations that change it. A name
that is not bound and a name bound to the empty map are different things: creating makes the
second of the first. Writing to a name that is not bound binds it.
-/

/-- Maps from names to maps from keys to values. -/
abbrev TwoLevelMap (Name Key Value : Type*) := Name → Option (Key → Option Value)

namespace TwoLevelMap

variable {Name Key Value : Type*}

/-- The map that binds no name. -/
def empty : TwoLevelMap Name Key Value := fun _ ↦ none

/-- The name is bound. -/
def has (t : TwoLevelMap Name Key Value) (n : Name) : Bool := (t n).isSome

/-- The value at a key under a name. -/
def read (t : TwoLevelMap Name Key Value) (n : Name) (k : Key) : Option Value := (t n).bind (· k)

/-- The operations. -/
inductive Op (Name Key Value : Type*)
  /-- Bind a name to a given map, unless it is bound. Nothing given, nothing done. -/
  | attach (n : Name) (contents : Option (Key → Option Value))
  /-- Bind a name to the empty map, unless it is bound. -/
  | create (n : Name)
  /-- Unbind a name. -/
  | erase (n : Name)
  /-- Set the value at a key under a name, which is bound if it was not. -/
  | write (n : Name) (k : Key) (v : Value)

/-- The name an operation is about. -/
def Op.name : Op Name Key Value → Name
  | .attach n _ | .create n | .erase n | .write n _ _ => n

variable [DecidableEq Name]

/-- Bind a name unless it is bound. -/
def bindNew (t : TwoLevelMap Name Key Value) (n : Name) (m : Key → Option Value) :
    TwoLevelMap Name Key Value :=
  if t.has n then t else Function.update t n (some m)

theorem bindNew_of_has {t : TwoLevelMap Name Key Value} {n : Name} {m : Key → Option Value}
    (h : t.has n = true) : t.bindNew n m = t := by
  rw [bindNew, if_pos h]

theorem bindNew_of_not_has {t : TwoLevelMap Name Key Value} {n : Name} {m : Key → Option Value}
    (h : t.has n = false) : t.bindNew n m = Function.update t n (some m) := by
  rw [bindNew, h, if_neg Bool.false_ne_true]

theorem bindNew_of_ne {t : TwoLevelMap Name Key Value} {n n' : Name} {m : Key → Option Value}
    (h : n' ≠ n) : t.bindNew n m n' = t n' := by
  rw [bindNew]
  split
  · rfl
  · exact Function.update_of_ne h _ _

variable [DecidableEq Key]

/-- The effect of an operation. -/
def apply (t : TwoLevelMap Name Key Value) : Op Name Key Value → TwoLevelMap Name Key Value
  | .attach _ none => t
  | .attach n (some m) => t.bindNew n m
  | .create n => t.bindNew n fun _ ↦ none
  | .erase n => Function.update t n none
  | .write n k v =>
    Function.update t n (some (Function.update ((t n).getD fun _ ↦ none) k (some v)))

/-- The effect of a sequence of operations on the empty map. -/
def run (ops : List (Op Name Key Value)) : TwoLevelMap Name Key Value := ops.foldl apply empty

variable {t : TwoLevelMap Name Key Value} {n : Name} {k : Key}

/-- An operation changes nothing under the names it is not about. -/
theorem apply_of_ne {op : Op Name Key Value} (h : n ≠ op.name) : t.apply op n = t n := by
  cases op with
  | attach n' contents =>
    cases contents with
    | none => rfl
    | some m => exact bindNew_of_ne h
  | create n' => exact bindNew_of_ne h
  | erase n' => exact Function.update_of_ne h _ _
  | write n' k v => exact Function.update_of_ne h _ _

theorem has_apply_of_ne {op : Op Name Key Value} (h : n ≠ op.name) :
    (t.apply op).has n = t.has n := by rw [has, apply_of_ne h, has]

theorem read_apply_of_ne {op : Op Name Key Value} (h : n ≠ op.name) :
    (t.apply op).read n k = t.read n k := by rw [read, apply_of_ne h, read]

/-- A write is read back. -/
@[simp] theorem read_apply_write (v : Value) : (t.apply (.write n k v)).read n k = some v := by
  simp [read, apply]

/-- A write changes no other key under its name. -/
theorem read_apply_write_of_ne {k' : Key} (v : Value) (h : k' ≠ k) :
    (t.apply (.write n k v)).read n k' = t.read n k' := by
  rw [read, read, apply, Function.update_self, Option.bind_some, Function.update_of_ne h]
  cases t n <;> rfl

/-- Writing under a name that is not bound is writing under it once it is bound to nothing. -/
theorem apply_write_bindNew (v : Value) :
    (t.bindNew n fun _ ↦ none).apply (.write n k v) = t.apply (.write n k v) := by
  cases hn : t.has n with
  | true => rw [bindNew_of_has hn]
  | false =>
    have htn : t n = none := by
      rwa [has, Option.isSome_eq_false_iff, Option.isNone_iff_eq_none] at hn
    rw [bindNew_of_not_has hn, apply, apply, Function.update_idem, Function.update_self, htn]
    rfl

end TwoLevelMap
