import Mathlib.Data.List.Perm.Basic
import Mathlib.Logic.Function.Basic
import SlimTS.Library.Transition

/-!
# Counted references

Resources that are acquired and released by handles, where a resource counts the references to it:
acquiring one adds a reference and releasing it takes one away. A release is wrong if the handle is
null or its resource has no reference left. A list of events is balanced if it can be carried out
without a wrong release and leaves no reference.

Behind a list of acquisitions that are still held, a list of releases is balanced exactly if it is a
permutation of them (`runFrom_releases_iff`).
-/

namespace References

open Transition

variable {α : Type*}

/-- What is done with the references. -/
inductive Event (α : Type*)
  | acquired (a : α)
  /-- A release of what may be a null handle. -/
  | released (handle : Option α)
deriving DecidableEq

variable [DecidableEq α]

/-- The numbers of references after an event, unless it is a wrong release. -/
def step (references : α → ℕ) : Event α → Option (α → ℕ)
  | .acquired a => some (Function.update references a (references a + 1))
  | .released none => none
  | .released (some a) =>
    if references a = 0 then none
    else some (Function.update references a (references a - 1))

/-- No release is wrong, and no reference is left. -/
def IsBalanced (events : List (Event α)) : Prop := runFrom step (fun _ ↦ 0) events = some fun _ ↦ 0

/-- The numbers of references to what is in a list. -/
def held (as : List α) : α → ℕ := fun a ↦ as.count a

theorem held_eq_zero_iff {as : List α} {a : α} : held as a = 0 ↔ a ∉ as := List.count_eq_zero

theorem step_acquired (as : List α) (a : α) :
    step (held as) (.acquired a) = some (held (a :: as)) := by
  rw [step]
  congr 1
  funext b
  by_cases hb : b = a
  · rw [hb, Function.update_self, held, held, List.count_cons_self]
  · rw [Function.update_of_ne hb, held, held, List.count_cons_of_ne (Ne.symm hb)]

theorem step_released {as : List α} {a : α} (h : a ∈ as) :
    step (held as) (.released (some a)) = some (held (as.erase a)) := by
  rw [step, if_neg (held_eq_zero_iff.not_left.mpr h)]
  congr 1
  funext b
  by_cases hb : b = a
  · rw [hb, Function.update_self, held, held, List.count_erase_self]
  · rw [Function.update_of_ne hb, held, held, List.count_erase_of_ne hb]

theorem step_released_of_not_mem {as : List α} {a : α} (h : a ∉ as) :
    step (held as) (.released (some a)) = none := by
  rw [step, if_pos (held_eq_zero_iff.mpr h)]

/-- **The last releases.** They leave nothing exactly if they release what is held. -/
theorem runFrom_releases_iff {handles : List (Option α)} {as : List α} :
    runFrom step (held as) (handles.map .released) = some (fun _ ↦ 0) ↔
      handles.Perm (as.map some) := by
  induction handles generalizing as with
  | nil =>
    rw [List.map_nil, runFrom_nil, Option.some_inj, List.nil_perm, List.map_eq_nil_iff]
    constructor
    · intro h
      exact List.eq_nil_iff_forall_not_mem.mpr fun a ↦ held_eq_zero_iff.mp (congrFun h a)
    · rintro rfl
      rfl
  | cons handle handles ih =>
    rw [List.map_cons, runFrom]
    cases handle with
    | none =>
      refine iff_of_false (fun h ↦ by cases h) fun h ↦ ?_
      simpa using h.subset List.mem_cons_self
    | some a =>
      by_cases ha : a ∈ as
      · rw [step_released ha, Option.bind_some, ih]
        have has : (as.map some).Perm (some a :: (as.erase a).map some) :=
          (List.perm_cons_erase ha).map some
        rw [← List.perm_cons (some a)]
        exact ⟨fun h ↦ h.trans has.symm, fun h ↦ h.trans has⟩
      · rw [step_released_of_not_mem ha]
        refine iff_of_false (fun h ↦ by cases h) fun h ↦ ha ?_
        simpa using h.subset List.mem_cons_self

end References
