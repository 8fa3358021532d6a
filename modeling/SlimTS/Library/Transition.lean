import Mathlib.Data.List.Basic

/-!
# Runs of a labelled transition system

A system is given by a partial step function: `step s a` is the state reached from `s` by action
`a`, or `none` where `a` is not enabled. The nondeterminism of the system (the interleaving of its
parties, values the program does not determine) is in the actions, so a run is a list of actions
and everything said about *every interleaving* is said about every such list.

Two notions are kept apart. `runFrom` executes a run. `Meets` says that every step of a run
satisfies a condition on the state before it and the action taken; it is what a property that only
holds on well-behaved runs is relative to.
-/

namespace Transition

variable {σ α : Type*} (step : σ → α → Option σ)

/-- The state a run ends in, or `none` if some action of it is not enabled. -/
def runFrom : σ → List α → Option σ
  | s, [] => some s
  | s, a :: as => (step s a).bind fun s' ↦ runFrom s' as

/-- Every step of the run from `s` satisfies the condition `C`. -/
def Meets (C : σ → α → Prop) : σ → List α → Prop
  | _, [] => True
  | s, a :: as => C s a ∧ ∀ s', step s a = some s' → Meets C s' as

variable {step}

@[simp] theorem runFrom_nil (s : σ) : runFrom step s [] = some s := rfl

theorem runFrom_cons {s t : σ} {a : α} {as : List α} :
    runFrom step s (a :: as) = some t ↔
      ∃ s', step s a = some s' ∧ runFrom step s' as = some t := by
  rw [runFrom, Option.bind_eq_some_iff]

/-- A condition that can be tested on one step can be tested on a run. -/
instance decidableMeets {C : σ → α → Prop} [∀ s a, Decidable (C s a)] :
    ∀ (as : List α) (s : σ), Decidable (Meets step C s as)
  | [], _ => isTrue trivial
  | a :: as, s =>
    match h : step s a with
    | none => decidable_of_iff (C s a)
        ⟨fun hC ↦ ⟨hC, fun s' hs' ↦ absurd (h.symm.trans hs') (by simp)⟩, And.left⟩
    | some s' =>
      have := decidableMeets (C := C) as s'
      decidable_of_iff (C s a ∧ Meets step C s' as)
        (and_congr_right fun _ ↦
          ⟨fun hM t ht ↦ Option.some_inj.mp (h.symm.trans ht) ▸ hM, fun hM ↦ hM s' h⟩)

/-! ## The invariant rule -/

/-- **The conditional invariant rule.** What every step that meets the condition preserves, every
run whose steps meet it preserves. -/
theorem invariant_of_meets {I : σ → Prop} {C : σ → α → Prop}
    (hstep : ∀ s a s', I s → C s a → step s a = some s' → I s') :
    ∀ {as : List α} {s t : σ}, I s → Meets step C s as → runFrom step s as = some t → I t := by
  intro as
  induction as with
  | nil =>
    intro s t hI _ hrun
    rw [runFrom_nil, Option.some_inj] at hrun
    exact hrun ▸ hI
  | cons a as ih =>
    intro s t hI hmeets hrun
    obtain ⟨s', hs', hrun'⟩ := runFrom_cons.mp hrun
    exact ih (hstep s a s' hI hmeets.1 hs') (hmeets.2 s' hs') hrun'

/-- A condition on the actions alone can be checked on the list of actions. -/
theorem meets_of_forall {P : α → Prop} :
    ∀ {as : List α} {s : σ}, (∀ a ∈ as, P a) → Meets step (fun _ a ↦ P a) s as := by
  intro as
  induction as with
  | nil => exact fun _ ↦ trivial
  | cons a as ih =>
    intro s has
    rw [List.forall_mem_cons] at has
    exact ⟨has.1, fun s' _ ↦ ih has.2⟩

/-- A run with a step that fails the condition reaches the state of the first such step. -/
theorem exists_of_not_meets {C : σ → α → Prop} :
    ∀ {as : List α} {s : σ}, ¬Meets step C s as →
      ∃ before a after t, as = before ++ a :: after ∧ runFrom step s before = some t ∧ ¬C t a := by
  intro as
  induction as with
  | nil => exact fun h ↦ absurd trivial h
  | cons a as ih =>
    intro s h
    by_cases ha : C s a
    · obtain ⟨s', hs', hmeets⟩ : ∃ s', step s a = some s' ∧ ¬Meets step C s' as := by
        simpa [Meets, ha] using h
      obtain ⟨before, b, after, t, rfl, hrun, hb⟩ := ih hmeets
      exact ⟨a :: before, b, after, t, rfl, runFrom_cons.mpr ⟨s', hs', hrun⟩, hb⟩
    · exact ⟨[], a, as, s, rfl, rfl, ha⟩

/-- **The invariant rule.** What every step preserves, every run preserves. -/
theorem invariant_of_run {I : σ → Prop}
    (hstep : ∀ s a s', I s → step s a = some s' → I s') {as : List α} {s t : σ}
    (hI : I s) (hrun : runFrom step s as = some t) : I t :=
  invariant_of_meets (C := fun _ _ ↦ True) (fun s a s' hs _ h ↦ hstep s a s' hs h) hI
    (meets_of_forall fun _ _ ↦ trivial) hrun

/-- **The simulation rule.** If a map takes the steps of one system to those of another wherever
the invariant holds, it takes the runs of the one to those of the other. -/
theorem runFrom_map {τ : Type*} {step' : τ → α → Option τ} {f : σ → τ} {I : σ → Prop}
    (hstep : ∀ s a s', I s → step s a = some s' → I s')
    (hmap : ∀ s a, I s → step' (f s) a = (step s a).map f) {as : List α} {s : σ} (hI : I s) :
    runFrom step' (f s) as = (runFrom step s as).map f := by
  induction as generalizing s with
  | nil => rfl
  | cons a as ih =>
    rw [runFrom, runFrom, hmap s a hI]
    rcases hs : step s a with - | s'
    · rfl
    · exact ih (hstep s a s' hI hs)

/-! ## Ranked runs -/

/-- Every run from `s` whose steps meet the condition comes to its end after `n` steps, whichever
steps it takes: it is no longer, it can be continued while it is shorter, and `done` holds in the
state it reaches just when it is as long. -/
def SettlesIn (step : σ → α → Option σ) (C : σ → α → Prop) (done : σ → Prop) (s : σ) (n : ℕ) :
    Prop :=
  ∀ as t, Meets step C s as → runFrom step s as = some t →
    as.length ≤ n ∧ (as.length = n ↔ done t) ∧
      (as.length < n → ∃ a t', C t a ∧ step t a = some t')

section Rank

variable {I : σ → Prop} {C : σ → α → Prop} {rank : σ → ℕ}

/-- What a run spends of a rank that each of its steps lowers by one is its length. -/
theorem length_add_rank
    (hstep : ∀ s a s', I s → C s a → step s a = some s' → I s' ∧ rank s' + 1 = rank s) :
    ∀ {as : List α} {s t : σ}, I s → Meets step C s as → runFrom step s as = some t →
      I t ∧ as.length + rank t = rank s := by
  intro as
  induction as with
  | nil =>
    intro s t hI _ hrun
    rw [runFrom_nil, Option.some_inj] at hrun
    subst hrun
    exact ⟨hI, Nat.zero_add _⟩
  | cons a as ih =>
    intro s t hI hmeets hrun
    obtain ⟨s', hs', hrun'⟩ := runFrom_cons.mp hrun
    obtain ⟨hI', hrank⟩ := hstep s a s' hI hmeets.1 hs'
    obtain ⟨ht, hlength⟩ := ih hI' (hmeets.2 s' hs') hrun'
    exact ⟨ht, by rw [List.length_cons]; omega⟩

/-- **The rank rule.** When every step that meets the condition lowers the rank by one, and there
is such a step unless the rank is zero, every state settles in its rank. -/
theorem settlesIn_rank {done : σ → Prop}
    (hstep : ∀ s a s', I s → C s a → step s a = some s' → I s' ∧ rank s' + 1 = rank s)
    (hdone : ∀ s, I s → (rank s = 0 ↔ done s))
    (hmore : ∀ s, I s → rank s ≠ 0 → ∃ a s', C s a ∧ step s a = some s') {s : σ} (hI : I s) :
    SettlesIn step C done s (rank s) := by
  intro as t hmeets hrun
  obtain ⟨ht, hlength⟩ := length_add_rank hstep hI hmeets hrun
  refine ⟨by omega, ?_, fun hlt ↦ hmore t ht (by omega)⟩
  rw [← hdone t ht]
  omega

end Rank

/-! ## Reachability -/

variable (step) in
/-- Some run of actions with the property `P` leads from `s` to `t`. -/
def Reaches (P : α → Prop) (s t : σ) : Prop :=
  ∃ as, (∀ a ∈ as, P a) ∧ runFrom step s as = some t

variable {P : α → Prop} {s t u : σ}

theorem runFrom_append {as bs : List α} :
    runFrom step s (as ++ bs) = (runFrom step s as).bind fun t ↦ runFrom step t bs := by
  induction as generalizing s with
  | nil => rfl
  | cons a as ih =>
    rw [List.cons_append, runFrom, runFrom, Option.bind_assoc]
    exact congrArg _ (funext fun s' ↦ ih)

theorem runFrom_singleton (s : σ) (a : α) : runFrom step s [a] = step s a := Option.bind_fun_some _

/-- Actions that are made of smaller ones run as these do. -/
theorem runFrom_flatMap {β : Type*} {step' : σ → β → Option σ} {parts : β → List α}
    (h : ∀ s b, runFrom step s (parts b) = step' s b) (bs : List β) :
    runFrom step s (bs.flatMap parts) = runFrom step' s bs := by
  induction bs generalizing s with
  | nil => rfl
  | cons b bs ih =>
    rw [List.flatMap_cons, runFrom_append, h, runFrom]
    exact congrArg _ (funext fun s' ↦ ih)

theorem Reaches.refl (s : σ) : Reaches step P s s := ⟨[], by simp, rfl⟩

theorem Reaches.of_step {a : α} (ha : P a) (h : step s a = some t) : Reaches step P s t :=
  ⟨[a], by simpa using ha, runFrom_cons.mpr ⟨t, h, rfl⟩⟩

theorem Reaches.trans (hst : Reaches step P s t) (htu : Reaches step P t u) :
    Reaches step P s u := by
  obtain ⟨as, has, hs⟩ := hst
  obtain ⟨bs, hbs, ht⟩ := htu
  refine ⟨as ++ bs, fun a ha ↦ (List.mem_append.mp ha).elim (has a) (hbs a), ?_⟩
  rw [runFrom_append, hs, Option.bind_some, ht]

theorem Reaches.mono {Q : α → Prop} (hPQ : ∀ a, P a → Q a) (hst : Reaches step P s t) :
    Reaches step Q s t := by
  obtain ⟨as, has, hrun⟩ := hst
  exact ⟨as, fun a ha ↦ hPQ a (has a ha), hrun⟩

/-- What every action with the property preserves holds wherever such actions lead. -/
theorem Reaches.invariant {I : σ → Prop}
    (hstep : ∀ s a s', I s → P a → step s a = some s' → I s') (hI : I s)
    (hst : Reaches step P s t) : I t := by
  obtain ⟨as, has, hrun⟩ := hst
  exact invariant_of_meets hstep hI (meets_of_forall has) hrun

end Transition
