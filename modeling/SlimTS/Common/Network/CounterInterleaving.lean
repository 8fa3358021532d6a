import Mathlib.Algebra.BigOperators.Group.Finset.Basic
import SlimTS.Common.Network.Metrics
import SlimTS.Library.Transition

/-!
# Threads that count

`Counter::inc` reads the count and then writes one more. The count is atomic, but each of the two
is an access of its own, so the calls of several threads interleave: an action of the system is one
load or one store of one thread, and a schedule is a list of actions.

## The invariant

A call owes its store until it is made. While no store has overwritten another, the count and the
stores that are owed make up the final count that is due, and a thread whose load is fresh holds the
count. A store of a load that is not fresh gives the count a value it has had before. From then on
the count and the stores that are owed fall short of what is due, and so does every value a thread
holds, so no later call makes up for it (`count_eq_iff_undisturbed`).

The invariant is about integers. The count is a `double`, which adds as an integer does as long as
what is due is below `2 ^ 53`: until then every schedule takes both the same way
(`runFrom_toDoubles`).
-/

namespace SlimTS

open Transition

variable {T D : Type}

/-! ## The calls -/

/-- The count, and where the threads are. -/
structure CountingState (T D : Type) where
  count : D
  /-- What a thread has loaded in a call it is in. -/
  loaded : T → Option D
  /-- The calls a thread has not begun. -/
  remaining : T → ℕ

/-- A step of a thread in `Counter::inc`. -/
inductive CountingAction (T : Type)
  | load (thread : T)
  | store (thread : T)
deriving DecidableEq, Repr

/-- No store comes between the load and the store of a call. The set is that of the threads that
have loaded since the last store. -/
def Undisturbed : Set T → List (CountingAction T) → Prop
  | _, [] => True
  | fresh, .load thread :: actions => Undisturbed (insert thread fresh) actions
  | fresh, .store thread :: actions => thread ∈ fresh ∧ Undisturbed ∅ actions

namespace CountingState

/-- The state before the calls. -/
def start (initial : D) (calls : T → ℕ) : CountingState T D where
  count := initial
  loaded _ := none
  remaining := calls

/-- All calls have returned. -/
def Done (s : CountingState T D) : Prop := ∀ thread, s.loaded thread = none ∧ s.remaining thread = 0

section

variable [DecidableEq T]

/-- The first access of a call. -/
def load (s : CountingState T D) (thread : T) : CountingState T D :=
  { s with
    loaded := Function.update s.loaded thread (some s.count)
    remaining := Function.update s.remaining thread (s.remaining thread - 1) }

/-- The second access of a call. -/
def store (s : CountingState T D) (thread : T) (count : D) : CountingState T D :=
  { s with
    count := count
    loaded := Function.update s.loaded thread none }

/-- One step, for what adding one is on the counts. -/
def step (increment : D → D) (s : CountingState T D) :
    CountingAction T → Option (CountingState T D)
  | .load thread =>
    if s.loaded thread = none ∧ s.remaining thread ≠ 0 then some (s.load thread) else none
  | .store thread => (s.loaded thread).map fun value ↦ s.store thread (increment value)

variable {s s' : CountingState T D} {thread : T} {increment : D → D}

theorem step_load_eq_iff : s.step increment (.load thread) = some s' ↔
    (s.loaded thread = none ∧ s.remaining thread ≠ 0) ∧ s.load thread = s' := by
  rw [step, Option.ite_none_right_eq_some, Option.some_inj]

theorem step_store_eq_iff : s.step increment (.store thread) = some s' ↔
    ∃ value, s.loaded thread = some value ∧ s.store thread (increment value) = s' :=
  Option.map_eq_some_iff

theorem loaded_load_self (s : CountingState T D) (thread : T) :
    (s.load thread).loaded thread = some s.count := Function.update_self ..

/-- What a thread holds after a store it has held before. -/
theorem loaded_of_store {count value : D} {other : T}
    (h : (s.store thread count).loaded other = some value) : s.loaded other = some value := by
  have hloaded : Function.update s.loaded thread none other = some value := h
  by_cases hother : other = thread
  · rw [hother, Function.update_self] at hloaded
    cases hloaded
  · rwa [Function.update_of_ne hother] at hloaded

/-- A call without another's store in between is `Counter::inc`. -/
theorem runFrom_load_store {s : CountingState T Double} (help type format : Str)
    (hnone : s.loaded thread = none) (hcalls : s.remaining thread ≠ 0) :
    (runFrom (step (· + .ofNat 1)) s [.load thread, .store thread]).map CountingState.count
      = some (Counter.inc ⟨help, type, format, s.count⟩).count := by
  have hload : s.step (· + .ofNat 1) (.load thread) = some (s.load thread) :=
    step_load_eq_iff.mpr ⟨⟨hnone, hcalls⟩, rfl⟩
  have hstore : (s.load thread).step (· + .ofNat 1) (.store thread)
      = some ((s.load thread).store thread (s.count + .ofNat 1)) :=
    step_store_eq_iff.mpr ⟨s.count, Function.update_self .., rfl⟩
  rw [runFrom, hload, Option.bind_some, runFrom, hstore]
  rfl

end

/-! ## What is owed -/

variable [Fintype T]

/-- The stores a thread still owes. -/
def owedBy (s : CountingState T D) (thread : T) : ℕ :=
  s.remaining thread + (s.loaded thread).isSome.toNat

/-- The stores the threads still owe. -/
def owed (s : CountingState T D) : ℕ := ∑ thread, s.owedBy thread

theorem owed_start (initial : D) (calls : T → ℕ) :
    (start initial calls).owed = ∑ thread, calls thread := rfl

theorem Done.owed_eq_zero {s : CountingState T D} (h : s.Done) : s.owed = 0 := by
  refine Finset.sum_eq_zero fun thread _ ↦ ?_
  rw [owedBy, (h thread).1, (h thread).2]
  rfl

section

variable [DecidableEq T] {s : CountingState T D} {thread : T}

/-- A load leaves what is owed. -/
theorem owed_load (hnone : s.loaded thread = none) (hcalls : s.remaining thread ≠ 0) :
    (s.load thread).owed = s.owed := by
  refine Finset.sum_congr rfl fun other _ ↦ ?_
  rw [owedBy, owedBy, load]
  by_cases hother : other = thread
  · subst hother
    simp only [Function.update_self, hnone, Option.isSome_some, Option.isSome_none,
      Bool.toNat_true, Bool.toNat_false]
    omega
  · simp only [Function.update_of_ne hother]

/-- A store is one less that is owed. -/
theorem owed_store {value : D} (hloaded : s.loaded thread = some value) (count : D) :
    (s.store thread count).owed + 1 = s.owed := by
  have hself : (s.store thread count).owedBy thread + 1 = s.owedBy thread := by
    rw [owedBy, owedBy, store]
    simp only [Function.update_self, hloaded, Option.isSome_some, Option.isSome_none,
      Bool.toNat_true, Bool.toNat_false, Nat.add_zero]
  have hother : ∀ other ∈ Finset.univ.erase thread,
      (s.store thread count).owedBy other = s.owedBy other := fun other hmem ↦ by
    rw [owedBy, owedBy, store]
    simp only [Function.update_of_ne (Finset.ne_of_mem_erase hmem)]
  rw [owed, owed, ← Finset.add_sum_erase _ _ (Finset.mem_univ thread),
    ← Finset.add_sum_erase _ s.owedBy (Finset.mem_univ thread), Finset.sum_congr rfl hother,
    ← hself, Nat.add_right_comm]

end

/-! ## The invariant -/

/-- Adding one to an exact integer. -/
def addOne (n : ℤ) : ℤ := n + 1

/-- The count and the stores that are owed are what is due. A thread holds the count if its load is
fresh, and less if it has missed a store. -/
structure OnCourse (due : ℤ) (fresh : Set T) (s : CountingState T ℤ) : Prop where
  due_eq : s.count + s.owed = due
  fresh_eq : ∀ thread ∈ fresh, s.loaded thread = some s.count
  stale_lt : ∀ thread value, s.loaded thread = some value → thread ∉ fresh → value < s.count

/-- The count and the stores that are owed fall short, and so do the values the threads hold. -/
structure Short (due : ℤ) (s : CountingState T ℤ) : Prop where
  count_lt : s.count + s.owed < due
  loaded_lt : ∀ thread value, s.loaded thread = some value → value + s.owed < due

variable {due : ℤ} {fresh : Set T} {s s' t : CountingState T ℤ} {thread : T}

theorem onCourse_start (initial : ℤ) (calls : T → ℕ) :
    OnCourse (initial + ∑ thread, calls thread) ∅ (start initial calls) where
  due_eq := by rw [owed_start]; rfl
  fresh_eq _ h := h.elim
  stale_lt _ _ h := by cases h

/-- What a thread holds is at most the count. -/
theorem OnCourse.le_count (h : OnCourse due fresh s) {value : ℤ}
    (hloaded : s.loaded thread = some value) : value ≤ s.count := by
  by_cases hfresh : thread ∈ fresh
  · exact (Option.some_inj.mp (hloaded.symm.trans (h.fresh_eq thread hfresh))).le
  · exact (h.stale_lt thread value hloaded hfresh).le

variable [DecidableEq T]

theorem OnCourse.load (h : OnCourse due fresh s) (hnone : s.loaded thread = none)
    (hcalls : s.remaining thread ≠ 0) : OnCourse due (insert thread fresh) (s.load thread) where
  due_eq := by
    rw [owed_load hnone hcalls]
    exact h.due_eq
  fresh_eq other hfresh := by
    by_cases hother : other = thread
    · exact hother ▸ Function.update_self ..
    · exact (Function.update_of_ne hother ..).trans
        (h.fresh_eq other (hfresh.resolve_left hother))
  stale_lt other value hloaded hstale := by
    rw [Set.mem_insert_iff, not_or] at hstale
    exact h.stale_lt other value ((Function.update_of_ne hstale.1 ..).symm.trans hloaded) hstale.2

/-- The store of a fresh load keeps the course. -/
theorem OnCourse.store (h : OnCourse due fresh s) (hfresh : thread ∈ fresh) :
    OnCourse due ∅ (s.store thread (addOne s.count)) where
  due_eq := by
    have howed := owed_store (h.fresh_eq thread hfresh) (addOne s.count)
    have hcount : (s.store thread (addOne s.count)).count = s.count + 1 := rfl
    have hdue := h.due_eq
    omega
  fresh_eq _ h := h.elim
  stale_lt other value hloaded _ := Int.lt_add_one_of_le (h.le_count (loaded_of_store hloaded))

/-- The store of a load that is not fresh loses a call. -/
theorem OnCourse.short_store (h : OnCourse due fresh s) (hstale : thread ∉ fresh) {value : ℤ}
    (hloaded : s.loaded thread = some value) : Short due (s.store thread (addOne value)) := by
  have howed := owed_store hloaded (addOne value)
  have hdue := h.due_eq
  refine ⟨?_, fun other held hheld ↦ ?_⟩
  · have hlt := h.stale_lt thread value hloaded hstale
    have hcount : (s.store thread (addOne value)).count = value + 1 := rfl
    omega
  · have hle := h.le_count (loaded_of_store hheld)
    omega

/-- No step makes up for it. -/
theorem Short.step {a : CountingAction T} (h : Short due s) (hstep : s.step addOne a = some s') :
    Short due s' := by
  cases a with
  | load thread =>
    obtain ⟨⟨hnone, hcalls⟩, rfl⟩ := step_load_eq_iff.mp hstep
    have howed := owed_load hnone hcalls
    refine ⟨howed ▸ h.count_lt, fun other value hloaded ↦ ?_⟩
    rw [howed]
    by_cases hother : other = thread
    · rw [hother, loaded_load_self, Option.some_inj] at hloaded
      exact hloaded ▸ h.count_lt
    · exact h.loaded_lt other value ((Function.update_of_ne hother ..).symm.trans hloaded)
  | store thread =>
    obtain ⟨value, hloaded, rfl⟩ := step_store_eq_iff.mp hstep
    have howed := owed_store hloaded (addOne value)
    refine ⟨?_, fun other held hheld ↦ ?_⟩
    · have hlt := h.loaded_lt thread value hloaded
      have hcount : (s.store thread (addOne value)).count = value + 1 := rfl
      omega
    · have hlt := h.loaded_lt other held (loaded_of_store hheld)
      omega

/-! ## Whole schedules -/

/-- What is due at the end of a schedule is reached exactly if no call is disturbed. -/
theorem OnCourse.due_eq_iff {actions : List (CountingAction T)} (h : OnCourse due fresh s)
    (hrun : runFrom (step addOne) s actions = some t) :
    t.count + t.owed = due ↔ Undisturbed fresh actions := by
  induction actions generalizing s fresh with
  | nil =>
    rw [runFrom_nil, Option.some_inj] at hrun
    exact iff_of_true (hrun ▸ h.due_eq) trivial
  | cons a actions ih =>
    obtain ⟨s', hstep, hrun'⟩ := runFrom_cons.mp hrun
    cases a with
    | load thread =>
      obtain ⟨⟨hnone, hcalls⟩, rfl⟩ := step_load_eq_iff.mp hstep
      exact ih (h.load hnone hcalls) hrun'
    | store thread =>
      obtain ⟨value, hloaded, rfl⟩ := step_store_eq_iff.mp hstep
      by_cases hfresh : thread ∈ fresh
      · obtain rfl := Option.some_inj.mp ((h.fresh_eq thread hfresh).symm.trans hloaded)
        exact (ih (h.store hfresh) hrun').trans (and_iff_right hfresh).symm
      · have hshort : Short due t :=
          invariant_of_run (fun _ _ _ h hstep ↦ h.step hstep) (h.short_store hfresh hloaded) hrun'
        exact iff_of_false hshort.count_lt.ne fun hundisturbed ↦ hfresh hundisturbed.1

/-- **The count at the end.** For every number of threads and calls and every schedule in which all
calls return, the count is the initial count and the number of calls if and only if no store comes
between the load and the store of another call. -/
theorem count_eq_iff_undisturbed {initial : ℤ} {calls : T → ℕ}
    {actions : List (CountingAction T)}
    (hrun : runFrom (step addOne) (start initial calls) actions = some s) (hdone : s.Done) :
    s.count = initial + ∑ thread, calls thread ↔ Undisturbed ∅ actions := by
  rw [← (onCourse_start initial calls).due_eq_iff hrun, hdone.owed_eq_zero]
  push_cast
  rw [Int.add_zero]

/-! ## Counts that are doubles -/

/-- An integer that is not negative, as a `double`. -/
def toDouble (n : ℤ) : Double := .ofNat n.toNat

theorem toDouble_addOne {n : ℤ} (hn : 0 ≤ n) (hlt : n + 1 < 2 ^ 53) :
    toDouble (addOne n) = toDouble n + .ofNat 1 := by
  have hnat : (n + 1).toNat = n.toNat + 1 := by omega
  rw [toDouble, toDouble, addOne, hnat, Double.ofNat_add_ofNat (by omega)]

/-- The state with `double`s for integers. -/
def toDoubles (s : CountingState T ℤ) : CountingState T Double where
  count := toDouble s.count
  loaded thread := (s.loaded thread).map toDouble
  remaining := s.remaining

/-- What the threads hold and the count stay between zero and what is due. -/
structure InRange (due : ℤ) (s : CountingState T ℤ) : Prop where
  count : 0 ≤ s.count ∧ s.count + s.owed ≤ due
  loaded : ∀ thread value, s.loaded thread = some value → 0 ≤ value ∧ value + s.owed ≤ due

theorem InRange.step {a : CountingAction T} (h : InRange due s)
    (hstep : s.step addOne a = some s') : InRange due s' := by
  cases a with
  | load thread =>
    obtain ⟨⟨hnone, hcalls⟩, rfl⟩ := step_load_eq_iff.mp hstep
    have howed := owed_load hnone hcalls
    refine ⟨howed ▸ h.count, fun other value hloaded ↦ howed ▸ ?_⟩
    by_cases hother : other = thread
    · rw [hother, loaded_load_self, Option.some_inj] at hloaded
      exact hloaded ▸ h.count
    · exact h.loaded other value ((Function.update_of_ne hother ..).symm.trans hloaded)
  | store thread =>
    obtain ⟨value, hloaded, rfl⟩ := step_store_eq_iff.mp hstep
    have howed := owed_store hloaded (addOne value)
    refine ⟨?_, fun other held hheld ↦ ?_⟩
    · have hrange := h.loaded thread value hloaded
      have hcount : (s.store thread (addOne value)).count = value + 1 := rfl
      omega
    · have hrange := h.loaded other held (loaded_of_store hheld)
      omega

omit [Fintype T] in
theorem map_update_loaded (s : CountingState T ℤ) (thread : T) (held : Option ℤ) :
    (fun other ↦ (Function.update s.loaded thread held other).map toDouble)
      = Function.update (fun other ↦ (s.loaded other).map toDouble) thread (held.map toDouble) := by
  funext other
  by_cases hother : other = thread
  · rw [hother, Function.update_self, Function.update_self]
  · rw [Function.update_of_ne hother, Function.update_of_ne hother]

omit [Fintype T] in
theorem toDoubles_load (s : CountingState T ℤ) (thread : T) :
    (s.load thread).toDoubles = s.toDoubles.load thread := by
  rw [load, toDoubles, map_update_loaded]
  rfl

omit [Fintype T] in
theorem toDoubles_store (s : CountingState T ℤ) (thread : T) (count : ℤ) :
    (s.store thread count).toDoubles = s.toDoubles.store thread (toDouble count) := by
  rw [store, toDoubles, map_update_loaded]
  rfl

/-- A step on integers is one on `double`s. -/
theorem step_toDoubles (h : InRange due s) (hdue : due < 2 ^ 53) (a : CountingAction T) :
    s.toDoubles.step (· + .ofNat 1) a = (s.step addOne a).map toDoubles := by
  cases a with
  | load thread =>
    have hnone : s.toDoubles.loaded thread = none ↔ s.loaded thread = none :=
      Option.map_eq_none_iff
    rw [CountingState.step, CountingState.step, ← toDoubles_load]
    by_cases hload : s.loaded thread = none ∧ s.remaining thread ≠ 0
    · rw [if_pos hload, if_pos ⟨hnone.mpr hload.1, hload.2⟩, Option.map_some]
    · rw [if_neg hload, if_neg fun h ↦ hload ⟨hnone.mp h.1, h.2⟩, Option.map_none]
  | store thread =>
    have hheld : s.toDoubles.loaded thread = (s.loaded thread).map toDouble := rfl
    rw [CountingState.step, CountingState.step, hheld]
    rcases hloaded : s.loaded thread with - | value
    · rfl
    · have howed := owed_store hloaded (addOne value)
      have hrange := h.loaded thread value hloaded
      have hadd := toDouble_addOne hrange.1 (by omega)
      rw [Option.map_some, Option.map_some, Option.map_some, Option.map_some, toDoubles_store, hadd]

/-- **The count is a `double`, and below `2 ^ 53` counts as an integer.** A schedule takes the
`double`s where it takes the integers. -/
theorem runFrom_toDoubles {initial : ℤ} {calls : T → ℕ} (hinitial : 0 ≤ initial)
    (hdue : initial + ∑ thread, calls thread < 2 ^ 53) (actions : List (CountingAction T)) :
    runFrom (step (· + .ofNat 1)) (start (toDouble initial) calls) actions
      = (runFrom (step addOne) (start initial calls) actions).map toDoubles :=
  runFrom_map (f := toDoubles) (fun _ _ _ h hstep ↦ h.step hstep)
    (fun _ a h ↦ step_toDoubles h hdue a)
    ⟨⟨hinitial, (onCourse_start initial calls).due_eq.le⟩, fun _ _ h ↦ by cases h⟩

/-- Two threads that make one call each, and load before either stores. -/
def raceSchedule : List (CountingAction Bool) :=
  [.load false, .load true, .store false, .store true]

theorem not_count_eq : ¬∀ (actions : List (CountingAction Bool)) (s : CountingState Bool ℤ),
    runFrom (step addOne) (start 0 fun _ ↦ 1) actions = some s → s.Done →
      s.count = 0 + ∑ _ : Bool, (1 : ℕ) := by
  intro h
  have hcount := h raceSchedule _ rfl (by rintro (_ | _) <;> exact ⟨rfl, rfl⟩)
  exact absurd hcount (by decide)

/-- The same calls, one after the other. -/
theorem count_eq_iff_undisturbed_serial : ∃ s : CountingState Bool ℤ,
    runFrom (step addOne) (start 0 fun _ ↦ 1)
        [.load false, .store false, .load true, .store true] = some s ∧ s.Done ∧
      (s.count = 0 + ∑ _ : Bool, (1 : ℕ) ↔
        Undisturbed ∅ [.load false, .store false, .load true, .store true]) := by
  refine ⟨_, rfl, ?_, ?_⟩
  · rintro (_ | _) <;> exact ⟨rfl, rfl⟩
  · refine count_eq_iff_undisturbed rfl ?_
    rintro (_ | _) <;> exact ⟨rfl, rfl⟩

end CountingState
end SlimTS
