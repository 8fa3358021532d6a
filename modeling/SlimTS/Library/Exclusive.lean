import Mathlib.Data.List.Basic
import Mathlib.Logic.Function.Basic
import SlimTS.Library.Transition

/-!
# Writing under a lock

Parties write to one output, a character at a time. A party makes its text, takes the lock, writes
the text and gives the lock back, and the steps of the parties come in any order.

The lock is only looked at when it is taken, so that no party writes into the text of another is an
invariant (`Inv`). With it the output is the texts that were begun, one after the other and the last
one as far as it is written (`inv_of_run`), and the texts of a party stand in the order in which it
made them, none lost and none twice (`lines_of_run`).
-/

namespace Exclusive

open Transition

/-- Where a party is, with what it writes. -/
inductive Phase (X α : Type*)
  | idle
  | ready (x : X)
  /-- It holds the lock, and this is left to write. -/
  | writing (rest : List α)
deriving DecidableEq

/-- The parties and the output. -/
structure State (P X α : Type*) where
  phase : P → Phase X α
  holder : Option P
  output : List α
  /-- What was written or is being written, in the order in which the lock was taken. -/
  entries : List (P × X)

inductive Action (P X : Type*)
  | begin (p : P) (x : X)
  | acquire (p : P)
  | put (p : P)
  | release (p : P)
deriving DecidableEq

variable {P X α : Type*}

/-- What is left to write. -/
def Phase.rest : Phase X α → List α
  | .writing rest => rest
  | _ => []

/-- What is ready and waits for the lock. -/
def Phase.pending : Phase X α → List X
  | .ready x => [x]
  | _ => []

namespace State

/-- Nobody writes yet. -/
def start : State P X α := ⟨fun _ ↦ .idle, none, [], []⟩

/-- What is left to write of the text that is being written. -/
def left (s : State P X α) : List α := s.holder.elim [] fun p ↦ (s.phase p).rest

theorem left_of_free {s : State P X α} (h : s.holder = none) : s.left = [] := by
  rw [left, h, Option.elim_none]

theorem left_of_holder {s : State P X α} {p : P} (h : s.holder = some p) :
    s.left = (s.phase p).rest := by
  rw [left, h, Option.elim_some]

variable (text : X → List α)

/-- Just the holder of the lock writes, and the output with what it has left is the texts. -/
structure Inv (s : State P X α) : Prop where
  holder : ∀ p, (∃ rest, s.phase p = .writing rest) ↔ s.holder = some p
  output : s.output ++ s.left = s.entries.flatMap fun entry ↦ text entry.2

variable {text} in
theorem inv_start : Inv text (start : State P X α) where
  holder p := by
    refine iff_of_false ?_ ?_
    · rintro ⟨rest, h⟩
      cases h
    · intro h
      cases h
  output := rfl

variable [DecidableEq P]

/-- What a party has written or is writing. -/
def written (s : State P X α) (p : P) : List X :=
  s.entries.filterMap fun entry ↦ if entry.1 = p then some entry.2 else none

/-- What it has written or is writing, and then what it has ready. -/
def lines (s : State P X α) (p : P) : List X := s.written p ++ (s.phase p).pending

/-- The next state, if the action can be taken. -/
def step (s : State P X α) : Action P X → Option (State P X α)
  | .begin p x =>
    match s.phase p with
    | .idle => some { s with phase := Function.update s.phase p (.ready x) }
    | _ => none
  | .acquire p =>
    match s.phase p, s.holder with
    | .ready x, none =>
      some { s with
        phase := Function.update s.phase p (.writing (text x))
        holder := some p
        entries := s.entries ++ [(p, x)] }
    | _, _ => none
  | .put p =>
    match s.phase p with
    | .writing (c :: rest) =>
      some { s with
        phase := Function.update s.phase p (.writing rest)
        output := s.output ++ [c] }
    | _ => none
  | .release p =>
    match s.phase p with
    | .writing [] => some { s with phase := Function.update s.phase p .idle, holder := none }
    | _ => none

/-- What an action does. -/
inductive Effect (s : State P X α) : Action P X → State P X α → Prop
  | begin {p : P} {x : X} (h : s.phase p = .idle) :
      Effect s (.begin p x) { s with phase := Function.update s.phase p (.ready x) }
  | acquire {p : P} {x : X} (h : s.phase p = .ready x) (hfree : s.holder = none) :
      Effect s (.acquire p) { s with
        phase := Function.update s.phase p (.writing (text x))
        holder := some p
        entries := s.entries ++ [(p, x)] }
  | put {p : P} {c : α} {rest : List α} (h : s.phase p = .writing (c :: rest)) :
      Effect s (.put p) { s with
        phase := Function.update s.phase p (.writing rest)
        output := s.output ++ [c] }
  | release {p : P} (h : s.phase p = .writing []) :
      Effect s (.release p) { s with phase := Function.update s.phase p .idle, holder := none }

variable {text} {s t : State P X α} {a : Action P X}

theorem effect_of_step (h : s.step text a = some t) : s.Effect text a t := by
  cases a with
  | begin p x =>
    rw [step] at h
    split at h
    next hp => cases h; exact .begin hp
    next => cases h
  | acquire p =>
    rw [step] at h
    split at h
    next x hp hfree => cases h; exact .acquire hp hfree
    next => cases h
  | put p =>
    rw [step] at h
    split at h
    next c rest hp => cases h; exact .put hp
    next => cases h
  | release p =>
    rw [step] at h
    split at h
    next hp => cases h; exact .release hp
    next => cases h

/-! ## The lock -/

omit [DecidableEq P] in
theorem Inv.not_holder (inv : s.Inv text) {p : P} (h : ∀ rest, s.phase p ≠ .writing rest) :
    s.holder ≠ some p := fun hp ↦ by
  obtain ⟨rest, hrest⟩ := (inv.holder p).mpr hp
  exact h rest hrest

/-- A party that does not hold the lock and does not write afterwards changes nothing of it. -/
private theorem Inv.update (inv : s.Inv text) {p : P} {phase : Phase X α}
    (h : ∀ rest, s.phase p ≠ .writing rest) (hphase : ∀ rest, phase ≠ .writing rest) :
    Inv text { s with phase := Function.update s.phase p phase } where
  holder q := by
    dsimp only
    by_cases hq : q = p
    · rw [hq, Function.update_self]
      exact iff_of_false (fun ⟨rest, hrest⟩ ↦ hphase rest hrest) (inv.not_holder h)
    · rw [Function.update_of_ne hq]
      exact inv.holder q
  output := by
    refine Eq.trans (congrArg (s.output ++ ·) ?_) inv.output
    rw [left, left]
    cases hholder : s.holder with
    | none => rfl
    | some q =>
      have hq : q ≠ p := fun hq ↦ inv.not_holder h (hholder.trans (congrArg some hq))
      exact congrArg Phase.rest (Function.update_of_ne hq ..)

/-- **One action keeps the lock.** -/
theorem Inv.step (inv : s.Inv text) (h : s.step text a = some t) : t.Inv text := by
  cases effect_of_step h with
  | @begin p x hp => exact inv.update (by simp [hp]) (by simp)
  | @acquire p x hp hfree =>
    constructor
    · intro q
      by_cases hq : q = p
      · exact iff_of_true ⟨text x, hq ▸ Function.update_self ..⟩ (congrArg some hq.symm)
      · refine iff_of_false ?_ fun hholder ↦ hq (Option.some.inj hholder).symm
        dsimp only
        rw [Function.update_of_ne hq, inv.holder q, hfree]
        exact fun h ↦ by cases h
    · have houtput := inv.output
      rw [left_of_free hfree, List.append_nil] at houtput
      rw [left_of_holder rfl]
      dsimp only
      rw [Function.update_self, Phase.rest, List.flatMap_append, List.flatMap_singleton, houtput]
  | @put p c rest hp =>
    have hholder := (inv.holder p).mp ⟨_, hp⟩
    constructor
    · intro q
      by_cases hq : q = p
      · exact iff_of_true ⟨rest, hq ▸ Function.update_self ..⟩ (hq ▸ hholder)
      · dsimp only
        rw [Function.update_of_ne hq]
        exact inv.holder q
    · have houtput := inv.output
      rw [left_of_holder hholder, hp, Phase.rest] at houtput
      rw [left]
      dsimp only
      rw [hholder, Option.elim_some, Function.update_self, Phase.rest, List.append_assoc]
      exact houtput
  | @release p hp =>
    have hholder := (inv.holder p).mp ⟨_, hp⟩
    constructor
    · intro q
      refine iff_of_false ?_ fun h ↦ by cases h
      rintro ⟨rest, hrest⟩
      dsimp only at hrest
      by_cases hq : q = p
      · rw [hq, Function.update_self] at hrest
        cases hrest
      · rw [Function.update_of_ne hq] at hrest
        have hq' := (inv.holder q).mp ⟨rest, hrest⟩
        exact hq (Option.some.inj (hq'.symm.trans hholder))
    · have houtput := inv.output
      rw [left_of_holder hholder, hp] at houtput
      exact houtput

theorem inv_of_run {actions : List (Action P X)}
    (h : runFrom (step text) start actions = some s) : s.Inv text :=
  invariant_of_run (fun _ _ _ inv h ↦ inv.step h) inv_start h

/-- **No text is written into another.** When nobody holds the lock the output is the texts, one
after the other. -/
theorem output_of_run {actions : List (Action P X)}
    (h : runFrom (step text) start actions = some s) (hfree : s.holder = none) :
    s.output = s.entries.flatMap fun entry ↦ text entry.2 := by
  rw [← (inv_of_run h).output, left_of_free hfree, List.append_nil]

/-! ## The texts of a party -/

/-- What a party makes. -/
def begun (p : P) (actions : List (Action P X)) : List X :=
  actions.filterMap fun
    | .begin q x => if q = p then some x else none
    | _ => none

theorem lines_of_step (h : s.step text a = some t) (q : P) :
    t.lines q = s.lines q ++ begun q [a] := by
  cases effect_of_step h with
  | @begin p x hp =>
    by_cases hq : p = q
    · subst hq
      simp [lines, written, begun, hp, Phase.pending]
    · simp [lines, written, begun, hq, Function.update_of_ne (Ne.symm hq)]
  | @acquire p x hp hfree =>
    by_cases hq : p = q
    · subst hq
      simp [lines, written, begun, hp, Phase.pending, List.filterMap_append]
    · simp [lines, written, begun, hq, Function.update_of_ne (Ne.symm hq), List.filterMap_append]
  | @put p c rest hp =>
    by_cases hq : p = q
    · subst hq
      simp [lines, written, begun, hp, Phase.pending]
    · simp [lines, written, begun, Function.update_of_ne (Ne.symm hq)]
  | @release p hp =>
    by_cases hq : p = q
    · subst hq
      simp [lines, written, begun, hp, Phase.pending]
    · simp [lines, written, begun, Function.update_of_ne (Ne.symm hq)]

/-- **A party's texts are written in its order**, none of them lost and none twice. -/
theorem lines_of_run {actions : List (Action P X)} (h : runFrom (step text) s actions = some t)
    (p : P) : t.lines p = s.lines p ++ begun p actions := by
  induction actions generalizing s with
  | nil =>
    cases h
    exact (List.append_nil _).symm
  | cons a actions ih =>
    obtain ⟨s', hs', h⟩ := runFrom_cons.mp h
    rw [ih h, lines_of_step hs', List.append_assoc, begun, begun, begun, ← List.filterMap_append,
      List.singleton_append]

end State

end Exclusive
