import Mathlib.Data.Int.Init
import Mathlib.Data.List.AList
import Mathlib.Tactic.NormNum

/-!
# Strings, fixed-width integers and tables of the program

A `std::string` is the list of its characters, one per byte. The program's integers are `int` and
`long`; both are carried as `ℤ`, and the two conversions that can lose bits are written where the
program makes them. A `std::map` or `std::unordered_map` is an association list.
-/

namespace SlimTS

/-- `std::string`. -/
abbrev Str := List Char

/-- Two's complement reduction to a 64-bit `long`, as `std::atomic<long>` increments do. -/
def toLong (n : ℤ) : ℤ := n.bmod (2 ^ 64)

/-- Two's complement reduction to a 32-bit `int`. -/
def toInt (n : ℤ) : ℤ := n.bmod (2 ^ 32)

theorem toLong_of_lt {n : ℤ} (h0 : 0 ≤ n) (h : n < 2 ^ 63) : toLong n = n := by
  rw [toLong, Int.bmod_def]
  omega

/-- A number keeps its value in an `int` exactly when it is in the range of one. -/
theorem toInt_eq_self_iff {n : ℤ} : toInt n = n ↔ -2 ^ 31 ≤ n ∧ n < 2 ^ 31 := by
  rw [toInt, Int.bmod_def]
  omega

theorem toInt_range (n : ℤ) : -2 ^ 31 ≤ toInt n ∧ toInt n < 2 ^ 31 := by
  rw [toInt, Int.bmod_def]
  omega

/-- An `int` holds no more than it is given. -/
theorem toInt_le_self {n : ℤ} (h : 0 ≤ n) : toInt n ≤ n := by
  rw [toInt, Int.bmod_def]
  omega

/-- A sequence of steps that may fail has gone through when each of them has. -/
theorem bind_eq_ok {ε α β : Type} {x : Except ε α} {f : α → Except ε β} {b : β}
    (h : x >>= f = .ok b) : ∃ a, x = .ok a ∧ f a = .ok b := by
  cases x with
  | error e => cases h
  | ok a => exact ⟨a, rfl, h⟩

theorem ok_bind {ε α β : Type} (a : α) (f : α → Except ε β) : (Except.ok a >>= f) = f a := rfl

/-- Incrementing a reduced counter reduces the incremented one. -/
theorem toLong_toLong_add (n m : ℤ) : toLong (toLong n + m) = toLong (n + m) :=
  Int.bmod_add_bmod

theorem toInt_toInt_add (n m : ℤ) : toInt (toInt n + m) = toInt (n + m) :=
  Int.bmod_add_bmod

section

variable {K V : Type} [DecidableEq K] {table : AList fun _ : K ↦ V} {k k' : K} {v v' : V}

/-- An entry of a table after an insertion is the new one, or one of the others. -/
theorem lookup_insert_eq_some_iff : (table.insert k v).lookup k' = some v' ↔
    k' = k ∧ v' = v ∨ k' ≠ k ∧ table.lookup k' = some v' := by
  by_cases h : k' = k
  · rw [h, AList.lookup_insert, Option.some_inj]
    simp [eq_comm]
  · rw [AList.lookup_insert_ne h]
    simp [h]

/-- An entry of a table after an erasure is one of the others. -/
theorem lookup_erase_eq_some_iff :
    (table.erase k).lookup k' = some v ↔ k' ≠ k ∧ table.lookup k' = some v := by
  by_cases h : k' = k
  · rw [h, AList.lookup_erase]
    simp
  · rw [AList.lookup_erase_ne h]
    simp [h]

end

end SlimTS
