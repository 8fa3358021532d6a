import Mathlib.Data.List.Basic

/-!
# Simulation by an abstraction function

A concrete system runs beside an abstract one. What an action means abstractly may depend on the
concrete state it is taken in (it may refer to data the action only names), so a run is mapped to
the list of its abstract actions step by step. One commuting square for a step, under an invariant
and for the actions that are allowed, gives the square for every run.
-/

namespace Simulation

variable {σ α τ β : Type*} (step : σ → α → σ) (meaning : σ → α → β)

/-- The abstract actions of a concrete run. -/
def trace : σ → List α → List β
  | _, [] => []
  | s, a :: as => meaning s a :: trace (step s a) as

@[simp] theorem trace_nil (s : σ) : trace step meaning s [] = [] := rfl

@[simp] theorem trace_cons (s : σ) (a : α) (as : List α) :
    trace step meaning s (a :: as) = meaning s a :: trace step meaning (step s a) as := rfl

variable {step meaning} {astep : τ → β → τ} {I : σ → Prop} {P : α → Prop}

/-- What every allowed action preserves, every run of allowed actions preserves. -/
theorem invariant_foldl (hstep : ∀ s a, I s → P a → I (step s a)) {as : List α} {s : σ}
    (hs : I s) (has : ∀ a ∈ as, P a) : I (as.foldl step s) := by
  induction as generalizing s with
  | nil => exact hs
  | cons a as ih =>
    rw [List.forall_mem_cons] at has
    exact ih (hstep s a hs has.1) has.2

/-- **The simulation rule.** If the square commutes for every allowed action from every state with
the invariant, it commutes for every run of allowed actions. -/
theorem abs_foldl (abs : σ → τ) (hstep : ∀ s a, I s → P a → I (step s a))
    (hsquare : ∀ s a, I s → P a → abs (step s a) = astep (abs s) (meaning s a))
    {as : List α} {s : σ} (hs : I s) (has : ∀ a ∈ as, P a) :
    abs (as.foldl step s) = (trace step meaning s as).foldl astep (abs s) := by
  induction as generalizing s with
  | nil => rfl
  | cons a as ih =>
    rw [List.forall_mem_cons] at has
    rw [List.foldl_cons, trace_cons, List.foldl_cons, ← hsquare s a hs has.1]
    exact ih (hstep s a hs has.1) has.2

/-! ## Runs whose steps meet a condition -/

/-- Every step of the run from `s` satisfies the condition `C`, on the state before it and the
action taken. -/
def Meets (step : σ → α → σ) (C : σ → α → Prop) : σ → List α → Prop
  | _, [] => True
  | s, a :: as => C s a ∧ Meets step C (step s a) as

/-- **The exact condition of a property.** Let every step preserve `J`. If `C` is what a step has to
meet to keep the property `I`, then `I` holds in every state of a run if and only if every step of
it meets `C`. -/
theorem forall_prefix_iff_meets {J : σ → Prop} {C : σ → α → Prop}
    (hinv : ∀ s a, J s → J (step s a)) (hstep : ∀ s a, J s → I s → (I (step s a) ↔ C s a))
    {as : List α} {s : σ} (hJ : J s) (hI : I s) :
    (∀ before, before <+: as → I (before.foldl step s)) ↔ Meets step C s as := by
  induction as generalizing s with
  | nil =>
    refine iff_of_true (fun before hbefore ↦ ?_) trivial
    rw [List.prefix_nil.mp hbefore]
    exact hI
  | cons a as ih =>
    rw [Meets, ← hstep s a hJ hI]
    constructor
    · intro h
      have ha : I (step s a) := h [a] ((List.prefix_cons_inj a).mpr List.nil_prefix)
      refine ⟨ha, (ih (hinv s a hJ) ha).mp fun before hbefore ↦ ?_⟩
      exact h (a :: before) ((List.prefix_cons_inj a).mpr hbefore)
    · rintro ⟨ha, has⟩ before hbefore
      rcases List.prefix_cons_iff.mp hbefore with rfl | ⟨rest, rfl, hrest⟩
      · exact hI
      · exact (ih (hinv s a hJ) ha).mpr has rest hrest

end Simulation
