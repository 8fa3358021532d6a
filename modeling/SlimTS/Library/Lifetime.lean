import Mathlib.Data.Fintype.Defs
import Mathlib.Data.List.Induction
import Mathlib.Logic.Function.Basic
import SlimTS.Library.Transition

/-!
# Lifetimes

A program that keeps resources behind raw pointers must not dereference a pointer that is null, and
must not touch one whose resource has been released. Where a release does not clear the pointer,
whether an access is defined depends on what was done before.

A `Discipline` says of the actions of a program what they need of each pointer and what they do to
it. It is stated for actions of any size, so the single accesses to a pointer are one
(`Access.discipline`) and the calls that are made of them are another. What a pointer holds after a
run can be read off the actions (`holding_of_run`), and with it which runs are defined
(`isSome_run_iff`).
-/

namespace Lifetime

open Transition

/-! ## Since -/

section

variable {α : Type*} {P : List α → α → Prop} {Q : α → Prop} {l : List α} {a : α}

/-- There was an action that is `P` behind what stood before it, and since then all have been
`Q`. -/
def Since (P : List α → α → Prop) (Q : α → Prop) (l : List α) : Prop :=
  ∃ before a after, l = before ++ a :: after ∧ P before a ∧ ∀ b ∈ after, Q b

theorem not_since_nil : ¬Since P Q [] := by
  rintro ⟨before, a, after, h, -⟩
  exact List.append_ne_nil_of_right_ne_nil _ (List.cons_ne_nil _ _) h.symm

/-- A split of a list with one more element is at that one, or is a split of the list. -/
private theorem split_concat {before after : List α} {b : α}
    (h : l ++ [a] = before ++ b :: after) :
    (l = before ∧ a = b ∧ after = []) ∨ ∃ rest, l = before ++ b :: rest ∧ after = rest ++ [a] := by
  rcases List.eq_nil_or_concat after with rfl | ⟨rest, c, rfl⟩
  · obtain ⟨rfl, hab⟩ := List.append_inj' h rfl
    exact .inl ⟨rfl, List.singleton_inj.mp hab, rfl⟩
  · rw [List.concat_eq_append, ← List.cons_append, ← List.append_assoc] at h
    obtain ⟨rfl, hac⟩ := List.append_inj' h rfl
    rw [List.concat_eq_append, List.singleton_inj.mp hac]
    exact .inr ⟨rest, rfl, rfl⟩

theorem since_concat : Since P Q (l ++ [a]) ↔ P l a ∨ Since P Q l ∧ Q a := by
  constructor
  · rintro ⟨before, b, after, h, hb, hafter⟩
    obtain ⟨rfl, rfl, rfl⟩ | ⟨rest, hl, rfl⟩ := split_concat h
    · exact .inl hb
    · rw [List.forall_mem_append, List.forall_mem_singleton] at hafter
      exact .inr ⟨⟨before, b, rest, hl, hb, hafter.1⟩, hafter.2⟩
  · rintro (ha | ⟨⟨before, b, after, rfl, hb, hafter⟩, ha⟩)
    · exact ⟨l, a, [], rfl, ha, fun b hb ↦ absurd hb List.not_mem_nil⟩
    · refine ⟨before, b, after ++ [a], by rw [List.append_assoc, List.cons_append], hb, ?_⟩
      rw [List.forall_mem_append, List.forall_mem_singleton]
      exact ⟨hafter, ha⟩

/-- What holds of each element behind what stands before it holds so of a list with one more
element if it does of the list, and of that element behind the list. -/
theorem forall_split_concat :
    (∀ before b after, l ++ [a] = before ++ b :: after → P before b) ↔
      (∀ before b after, l = before ++ b :: after → P before b) ∧ P l a := by
  constructor
  · intro h
    refine ⟨fun before b after hl ↦ h before b (after ++ [a]) ?_, h l a [] rfl⟩
    rw [hl, List.append_assoc, List.cons_append]
  · rintro ⟨h, ha⟩ before b after hsplit
    obtain ⟨rfl, rfl, -⟩ | ⟨rest, hl, -⟩ := split_concat hsplit
    · exact ha
    · exact h before b rest hl

end

/-! ## Pointers and actions -/

/-- What a pointer holds. -/
inductive Holding
  | null
  | live
  /-- The resource has been released, and the pointer still leads there. -/
  | freed
deriving DecidableEq, Repr

/-- What an action needs of a pointer. -/
inductive Need
  | nothing
  /-- It may be null, but its resource must not have been released. -/
  | notFreed
  | live
  /-- The action is undefined, whatever the pointer holds. -/
  | never
deriving DecidableEq, Repr

/-- What an action does to a pointer. -/
inductive Deed
  | leaves
  /-- It is set to a new resource, or to null if there is none to be had. -/
  | sets (found : Bool)
  /-- Its resource is released unless it is null, and the pointer is left as it is. -/
  | releases
deriving DecidableEq, Repr

/-- The pointer is as the action needs it. -/
def Need.Met : Need → Holding → Prop
  | .nothing, _ => True
  | .notFreed, h => h ≠ .freed
  | .live, h => h = .live
  | .never, _ => False

instance Need.decidableMet : ∀ (need : Need) (h : Holding), Decidable (need.Met h)
  | .nothing, _ => isTrue trivial
  | .notFreed, h => inferInstanceAs (Decidable (h ≠ .freed))
  | .live, h => inferInstanceAs (Decidable (h = .live))
  | .never, _ => isFalse id

/-- What is needed of one pointer only. -/
theorem Need.forall_ite_iff {R : Type*} [DecidableEq R] {M : R → Need → Prop}
    (hM : ∀ r, M r .nothing) (r : R) (need : Need) :
    (∀ r', M r' (if r' = r then need else .nothing)) ↔ M r need := by
  constructor
  · intro h
    have hr := h r
    rwa [if_pos rfl] at hr
  · intro h r'
    split_ifs with hr
    · exact hr ▸ h
    · exact hM r'

/-- What the pointer holds afterwards. -/
def Deed.apply : Deed → Holding → Holding
  | .leaves, h => h
  | .sets found, _ => if found then .live else .null
  | .releases, h => if h = .live then .freed else h

theorem Deed.apply_eq_live_iff {deed : Deed} {h : Holding} :
    deed.apply h = .live ↔ deed = .sets true ∨ h = .live ∧ deed = .leaves := by
  cases deed with
  | leaves => simp [apply]
  | sets found => cases found <;> simp [apply]
  | releases => cases h <;> simp [apply]

theorem Deed.apply_eq_freed_iff {deed : Deed} {h : Holding} :
    deed.apply h = .freed ↔
      (deed = .releases ∧ h = .live) ∨ h = .freed ∧ ∀ found, deed ≠ .sets found := by
  cases deed with
  | leaves => simp [apply]
  | sets found => cases found <;> simp [apply]
  | releases => cases h <;> simp [apply]

/-- What the actions of a program need of its pointers and do to them. -/
structure Discipline (A R : Type*) where
  needs : A → R → Need
  does : A → R → Deed

namespace Discipline

variable {A R : Type*} (d : Discipline A R)

/-- The pointer was set to a resource, and no action since has touched it. -/
def Live (r : R) (trace : List A) : Prop :=
  Since (fun _ a ↦ d.does a r = .sets true) (fun a ↦ d.does a r = .leaves) trace

/-- Its resource was released, and the pointer has not been set since. -/
def Freed (r : R) (trace : List A) : Prop :=
  Since (fun before a ↦ d.does a r = .releases ∧ d.Live r before)
    (fun a ↦ ∀ found, d.does a r ≠ .sets found) trace

variable {d} in
theorem live_concat {r : R} {trace : List A} {a : A} : d.Live r (trace ++ [a]) ↔
    d.does a r = .sets true ∨ d.Live r trace ∧ d.does a r = .leaves := since_concat

variable {d} in
theorem freed_concat {r : R} {trace : List A} {a : A} : d.Freed r (trace ++ [a]) ↔
    (d.does a r = .releases ∧ d.Live r trace) ∨
      d.Freed r trace ∧ ∀ found, d.does a r ≠ .sets found := since_concat

/-- What was done before leaves a pointer as an action needs it. -/
def MetBy (before : List A) (r : R) : Need → Prop
  | .nothing => True
  | .notFreed => ¬d.Freed r before
  | .live => d.Live r before
  | .never => False

/-- What was done before leaves every pointer as the action needs it. -/
def Permitted (before : List A) (a : A) : Prop := ∀ r, d.MetBy before r (d.needs a r)

variable [Fintype R]

/-- The pointers after an action, if it is defined. -/
def step (s : R → Holding) (a : A) : Option (R → Holding) :=
  if ∀ r, (d.needs a r).Met (s r) then some fun r ↦ (d.does a r).apply (s r) else none

variable {d} {s t : R → Holding} {a : A} {trace : List A}

theorem step_eq_some_iff : d.step s a = some t ↔
    (∀ r, (d.needs a r).Met (s r)) ∧ (fun r ↦ (d.does a r).apply (s r)) = t := by
  rw [step, Option.ite_none_right_eq_some, Option.some_inj]

theorem isSome_step_iff : (d.step s a).isSome ↔ ∀ r, (d.needs a r).Met (s r) := by
  rw [step]
  split_ifs with h
  · exact iff_of_true rfl h
  · exact iff_of_false Bool.false_ne_true h

/-- **What a pointer holds is in the actions.** -/
theorem holding_of_run (h : runFrom d.step (fun _ ↦ .null) trace = some s) (r : R) :
    (s r = .live ↔ d.Live r trace) ∧ (s r = .freed ↔ d.Freed r trace) := by
  induction trace using List.reverseRecOn generalizing s with
  | nil =>
    cases h
    exact ⟨iff_of_false Holding.noConfusion not_since_nil,
      iff_of_false Holding.noConfusion not_since_nil⟩
  | append_singleton trace a ih =>
    rw [runFrom_append] at h
    obtain ⟨t, ht, h⟩ := Option.bind_eq_some_iff.mp h
    obtain ⟨t', ha, h⟩ := runFrom_cons.mp h
    cases h
    obtain ⟨-, rfl⟩ := step_eq_some_iff.mp ha
    obtain ⟨hlive, hfreed⟩ := ih ht
    rw [Deed.apply_eq_live_iff, Deed.apply_eq_freed_iff, hlive, hfreed, live_concat, freed_concat]
    exact ⟨Iff.rfl, Iff.rfl⟩

theorem met_iff_of_run (h : runFrom d.step (fun _ ↦ .null) trace = some s) (r : R) (need : Need) :
    need.Met (s r) ↔ d.MetBy trace r need := by
  cases need with
  | nothing => exact Iff.rfl
  | notFreed => exact not_congr (holding_of_run h r).2
  | live => exact (holding_of_run h r).1
  | never => exact Iff.rfl

/-- **Which runs are defined**: those whose every action finds each pointer as it needs it, by what
was done before. -/
theorem isSome_run_iff : (runFrom d.step (fun _ ↦ .null) trace).isSome ↔
    ∀ before a after, trace = before ++ a :: after → d.Permitted before a := by
  induction trace using List.reverseRecOn with
  | nil =>
    refine iff_of_true rfl fun before a after h ↦ ?_
    exact absurd h.symm (List.append_ne_nil_of_right_ne_nil _ (List.cons_ne_nil _ _))
  | append_singleton trace a ih =>
    rw [forall_split_concat, ← ih, runFrom_append]
    cases hrun : runFrom d.step (fun _ ↦ .null) trace with
    | none => exact iff_of_false (by simp) (by simp)
    | some s =>
      have hpermitted : (d.step s a).isSome ↔ d.Permitted trace a :=
        isSome_step_iff.trans (forall_congr' fun r ↦ met_iff_of_run hrun r _)
      rw [Option.bind_some, runFrom_singleton, hpermitted]
      exact (and_iff_right rfl).symm

end Discipline

/-! ## Single accesses -/

/-- What is done with one pointer. -/
inductive Access (R : Type*)
  /-- It is set to a new resource, or to null if there is none to be had. -/
  | assign (r : R) (found : Bool)
  | use (r : R)
  /-- It is used unless it is null. -/
  | useUnlessNull (r : R)
  /-- Its resource is released unless it is null. -/
  | release (r : R)
  /-- A pointer that is none of them is used, at once after it was had, null or not. -/
  | useFound (found : Bool)
deriving DecidableEq, Repr

namespace Access

variable {R : Type*} [DecidableEq R]

/-- What an access needs and does. -/
def discipline : Discipline (Access R) R where
  needs
    | .assign _ _, _ => .nothing
    | .use r, r' => if r' = r then .live else .nothing
    | .useUnlessNull r, r' => if r' = r then .notFreed else .nothing
    | .release r, r' => if r' = r then .notFreed else .nothing
    | .useFound found, _ => if found then .nothing else .never
  does
    | .assign r found, r' => if r' = r then .sets found else .leaves
    | .release r, r' => if r' = r then .releases else .leaves
    | .use _, _ | .useUnlessNull _, _ | .useFound _, _ => .leaves

section

variable (s : R → Holding) (r : R)

private theorem forall_met_ite (need : Need) :
    (∀ r', (if r' = r then need else .nothing).Met (s r')) ↔ need.Met (s r) :=
  Need.forall_ite_iff (M := fun r' need ↦ need.Met (s r')) (fun _ ↦ trivial) r need

private theorem apply_ite (deed : Deed) :
    (fun r' ↦ (if r' = r then deed else .leaves).apply (s r'))
      = Function.update s r (deed.apply (s r)) := by
  funext r'
  rw [Function.update_apply]
  split_ifs with hr
  · rw [hr]
  · rfl

end

variable [Fintype R] {s : R → Holding} {r : R} {accesses : List (Access R)}

theorem runFrom_assign (r : R) (found : Bool) :
    runFrom discipline.step s (.assign r found :: accesses)
      = runFrom discipline.step (Function.update s r (if found then .live else .null))
        accesses := by
  have hstep : discipline.step s (.assign r found)
      = some (Function.update s r (if found then .live else .null)) :=
    (if_pos fun _ ↦ trivial).trans (congrArg some (apply_ite s r (.sets found)))
  rw [runFrom, hstep, Option.bind_some]

theorem runFrom_use : runFrom discipline.step s (.use r :: accesses)
    = if s r = .live then runFrom discipline.step s accesses else none := by
  have hstep : discipline.step s (.use r) = if s r = .live then some s else none :=
    if_congr (forall_met_ite s r .live) rfl rfl
  rw [runFrom, hstep]
  split_ifs <;> rfl

theorem runFrom_useUnlessNull : runFrom discipline.step s (.useUnlessNull r :: accesses)
    = if s r ≠ .freed then runFrom discipline.step s accesses else none := by
  have hstep : discipline.step s (.useUnlessNull r) = if s r ≠ .freed then some s else none :=
    if_congr (forall_met_ite s r .notFreed) rfl rfl
  rw [runFrom, hstep]
  split_ifs <;> rfl

theorem runFrom_release : runFrom discipline.step s (.release r :: accesses)
    = if s r ≠ .freed then
        runFrom discipline.step (Function.update s r (Deed.releases.apply (s r))) accesses
      else none := by
  have hstep : discipline.step s (.release r)
      = if s r ≠ .freed then some (Function.update s r (Deed.releases.apply (s r))) else none :=
    if_congr (forall_met_ite s r .notFreed) (congrArg some (apply_ite s r .releases)) rfl
  rw [runFrom, hstep]
  split_ifs <;> rfl

theorem runFrom_useFound [Nonempty R] (found : Bool) :
    runFrom discipline.step s (.useFound found :: accesses)
      = if found then runFrom discipline.step s accesses else none := by
  have hstep : discipline.step s (.useFound found) = if found then some s else none := by
    cases found with
    | true => exact if_pos fun _ ↦ trivial
    | false => exact if_neg fun h ↦ h (Classical.arbitrary R)
  rw [runFrom, hstep]
  split_ifs <;> rfl

/-- A use that is made several times is one. -/
theorem runFrom_replicate_use (n : ℕ) :
    runFrom discipline.step s (List.replicate (n + 1) (.use r) ++ accesses)
      = if s r = .live then runFrom discipline.step s accesses else none := by
  induction n with
  | zero => exact runFrom_use
  | succ n ih =>
    rw [List.replicate_succ, List.cons_append, runFrom_use, ih]
    split_ifs <;> rfl

/-- **A release of several.** It is defined if none of them has been released, and it releases each
of them that is not null. -/
theorem runFrom_releases {rs : List R} (hnodup : rs.Nodup) :
    runFrom discipline.step s (rs.map .release)
      = if ∀ r ∈ rs, s r ≠ .freed then
          some fun r ↦ if r ∈ rs then Deed.releases.apply (s r) else s r
        else none := by
  induction rs generalizing s with
  | nil => simp
  | cons r rs ih =>
    rw [List.nodup_cons] at hnodup
    rw [List.map_cons, runFrom_release]
    by_cases hr : s r = .freed
    · rw [if_neg (not_not_intro hr), if_neg fun h ↦ h r List.mem_cons_self hr]
    · have hrest : ∀ r' ∈ rs, Function.update s r (Deed.releases.apply (s r)) r' = s r' :=
        fun r' hr' ↦ Function.update_of_ne (ne_of_mem_of_not_mem hr' hnodup.1) ..
      have hiff : (∀ r' ∈ rs, Function.update s r (Deed.releases.apply (s r)) r' ≠ .freed) ↔
          ∀ r' ∈ r :: rs, s r' ≠ .freed := by
        rw [List.forall_mem_cons, and_iff_right hr]
        exact forall₂_congr fun r' hr' ↦ by rw [hrest r' hr']
      rw [if_pos hr, ih hnodup.2]
      refine if_congr hiff (congrArg some (funext fun r' ↦ ?_)) rfl
      by_cases hr' : r' = r
      · rw [hr', if_neg hnodup.1, if_pos List.mem_cons_self, Function.update_self]
      · rw [Function.update_of_ne hr']
        simp only [List.mem_cons, hr', false_or]

end Access

end Lifetime
