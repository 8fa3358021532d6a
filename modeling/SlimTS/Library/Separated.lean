import Mathlib.Data.List.Basic

/-!
# The components of a separated text

A text is split at a separator, and the components are the pieces with something in them. So a
separator at either end, or next to another, makes none. The components of two texts with a
separator in between are those of the first and then those of the second, which with the texts that
have no separator determines them; everything here is by that induction (`split_induction`).
-/

namespace Separated

variable {α β : Type*} [DecidableEq α] {sep : α} {s t : List α}

/-- The pieces between separators that are not empty. -/
def components (sep : α) (s : List α) : List (List α) := (s.splitOn sep).filter fun c ↦ !c.isEmpty

@[simp] theorem components_nil (sep : α) : components sep [] = [] := by
  rw [components, List.splitOn_nil]
  rfl

/-- The components on both sides of a separator. -/
theorem components_append_cons (s t : List α) :
    components sep (s ++ sep :: t) = components sep s ++ components sep t := by
  rw [components, List.splitOn_append_cons_self, List.filter_append]
  rfl

/-- A text without a separator is one component, unless it is empty. -/
theorem components_of_not_mem (h : sep ∉ s) (hs : s ≠ []) : components sep s = [s] := by
  rw [components, List.splitOn_eq_singleton h, List.filter_singleton,
    List.isEmpty_eq_false_iff.mpr hs]
  rfl

/-- What holds of the texts without a separator, and of a text if it holds on both sides of one,
holds of every text. -/
theorem split_induction (sep : α) {motive : List α → Prop} (whole : ∀ s, sep ∉ s → motive s)
    (split : ∀ s t, motive s → motive t → motive (s ++ sep :: t)) (s : List α) : motive s := by
  by_cases h : sep ∈ s
  · obtain ⟨before, after, rfl, hbefore⟩ := List.eq_append_cons_of_mem h
    exact split before after (whole before hbefore) (split_induction sep whole split after)
  · exact whole s h
termination_by s.length
decreasing_by
  rename_i heq _
  simp only [heq, List.length_append, List.length_cons]
  omega

/-- Nothing but the separators is left out. -/
theorem flatten_components (s : List α) : (components sep s).flatten = s.filter (· ≠ sep) := by
  induction s using split_induction sep with
  | whole s h =>
    have hfilter : s.filter (· ≠ sep) = s := List.filter_eq_self.mpr fun a ha ↦ by
      rw [decide_eq_true_eq]
      rintro rfl
      exact h ha
    rw [hfilter]
    by_cases hs : s = []
    · rw [hs, components_nil, List.flatten_nil]
    · rw [components_of_not_mem h hs, List.flatten_singleton]
  | split s t hs ht =>
    rw [components_append_cons, List.flatten_append, hs, ht, List.filter_append,
      List.filter_cons_of_neg (by simp)]

/-- The components of a text that is written out letter by letter, where only the separator becomes
one. -/
theorem components_flatMap [DecidableEq β] {f : α → List β} {sep' : β} (hsep : f sep = [sep'])
    (hother : ∀ a, a ≠ sep → sep' ∉ f a ∧ f a ≠ []) (s : List α) :
    components sep' (s.flatMap f) = (components sep s).map fun c ↦ c.flatMap f := by
  induction s using split_induction sep with
  | whole s h =>
    have hne : ∀ a ∈ s, a ≠ sep := fun a ha hsep ↦ h (hsep ▸ ha)
    by_cases hs : s = []
    · rw [hs, List.flatMap_nil, components_nil, components_nil, List.map_nil]
    · have hmem : sep' ∉ s.flatMap f := fun hmem ↦ by
        obtain ⟨a, ha, hfa⟩ := List.mem_flatMap.mp hmem
        exact (hother a (hne a ha)).1 hfa
      have hempty : s.flatMap f ≠ [] := fun hempty ↦ by
        obtain ⟨a, ha⟩ := List.exists_mem_of_ne_nil s hs
        exact (hother a (hne a ha)).2 (List.flatMap_eq_nil_iff.mp hempty a ha)
      rw [components_of_not_mem h hs, components_of_not_mem hmem hempty, List.map_singleton]
  | split s t hs ht =>
    rw [List.flatMap_append, List.flatMap_cons, hsep, List.singleton_append,
      components_append_cons, components_append_cons, hs, ht, List.map_append]

/-! ## Texts that are put behind one another -/

/-- The text is empty or ends with the separator. -/
def Closed (sep : α) (s : List α) : Prop := s = [] ∨ sep ∈ s.getLast?

/-- The text with a separator at its end, if there is something that needs one. -/
def close (sep : α) (s : List α) : List α :=
  if s ≠ [] ∧ s.getLast? ≠ some sep then s ++ [sep] else s

theorem closed_close (s : List α) : Closed sep (close sep s) := by
  rw [close]
  split
  · exact .inr (by simp)
  · next h =>
    by_cases hs : s = []
    · exact .inl hs
    · exact .inr (by_contra fun hlast ↦ h ⟨hs, hlast⟩)

/-- What comes behind a closed text is split on its own. -/
theorem components_append_of_closed (h : Closed sep s) (t : List α) :
    components sep (s ++ t) = components sep s ++ components sep t := by
  rcases h with rfl | hlast
  · rw [List.nil_append, components_nil, List.nil_append]
  · obtain ⟨s, rfl⟩ := List.getLast?_eq_some_iff.mp hlast
    rw [List.append_assoc, List.singleton_append, components_append_cons, components_append_cons,
      components_nil, List.append_nil]

/-- Closing makes no component. -/
theorem components_close (s : List α) : components sep (close sep s) = components sep s := by
  rw [close]
  split
  · rw [components_append_cons, components_nil, List.append_nil]
  · rfl

/-- A closed text is as good as none in front of a text that is closed. -/
theorem close_append (h : Closed sep s) (t : List α) : close sep (s ++ t) = s ++ close sep t := by
  by_cases ht : t = []
  · have hnil : close sep ([] : List α) = [] := if_neg fun hclose ↦ hclose.1 rfl
    rw [ht, hnil, List.append_nil, close, if_neg]
    rintro ⟨hs, hlast⟩
    exact h.elim hs hlast
  · have hlast : (s ++ t).getLast? = t.getLast? := List.getLast?_append_of_ne_nil s ht
    rw [close, close, hlast]
    split
    · next hclose => rw [if_pos ⟨ht, hclose.2⟩, List.append_assoc]
    · next hclose => rw [if_neg fun h ↦ hclose ⟨by simp [ht], h.2⟩]

end Separated
