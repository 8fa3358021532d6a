import Mathlib.Data.List.Basic

/-!
# Reading a text piece by piece

A loop that calls `getline` until it fails splits a text at a separator. It is not the inverse of
joining with the separator: a separator at the very end closes the last piece and opens none, so
one empty piece at the end is not read. `next` is one call, and `pieces` is what the loop reads, by
recursion on the text.

`terminate` writes each piece with the separator after it. The loop reads back what `terminate`
writes, and it reads back the same without the last separator exactly when the last piece is not
empty.
-/

namespace Getline

variable {α : Type*} {sep : α}

section Reading

variable [DecidableEq α]

/-- One call: the text up to the separator, which is dropped, and what is left to read. At the end
of the text there is nothing to read. -/
def next (sep : α) (text : List α) : Option (List α × List α) :=
  if text = [] then none
  else some (text.takeWhile (· ≠ sep), (text.dropWhile (· ≠ sep)).drop 1)

/-- What a loop of calls reads. -/
def pieces (sep : α) : List α → List (List α)
  | [] => []
  | c :: text =>
    if c = sep then [] :: pieces sep text
    else (c :: (pieces sep text).headD []) :: (pieces sep text).tail

@[simp] theorem pieces_nil : pieces sep [] = [] := rfl

@[simp] theorem pieces_sep_cons (text : List α) :
    pieces sep (sep :: text) = [] :: pieces sep text := if_pos rfl

theorem pieces_cons_of_ne {c : α} (hc : c ≠ sep) (text : List α) :
    pieces sep (c :: text) = (c :: (pieces sep text).headD []) :: (pieces sep text).tail :=
  if_neg hc

/-- A piece and its separator are read off the front. -/
theorem pieces_append_sep {piece : List α} (h : sep ∉ piece) (text : List α) :
    pieces sep (piece ++ sep :: text) = piece :: pieces sep text := by
  induction piece with
  | nil => rw [List.nil_append, pieces_sep_cons]
  | cons c piece ih =>
    rw [List.mem_cons, not_or] at h
    rw [List.cons_append, pieces_cons_of_ne (Ne.symm h.1), ih h.2, List.headD_cons, List.tail_cons]

/-- A text without separators is one piece, unless it is empty. -/
theorem pieces_of_not_mem {piece : List α} (h : sep ∉ piece) (hne : piece ≠ []) :
    pieces sep piece = [piece] := by
  induction piece with
  | nil => exact absurd rfl hne
  | cons c piece ih =>
    rw [List.mem_cons, not_or] at h
    rw [pieces_cons_of_ne (Ne.symm h.1)]
    rcases eq_or_ne piece [] with rfl | hpiece
    · rfl
    · rw [ih h.2 hpiece, List.headD_cons, List.tail_cons]

theorem pieces_ne_nil (sep : α) {text : List α} (h : text ≠ []) : pieces sep text ≠ [] := by
  obtain ⟨c, text, rfl⟩ := List.exists_cons_of_ne_nil h
  rw [pieces]
  split <;> exact List.cons_ne_nil _ _

/-- What holds no separator goes to the front of the first piece. -/
theorem pieces_append_of_not_mem {front : List α} (h : sep ∉ front) (hne : front ≠ [])
    (text : List α) : pieces sep (front ++ text)
      = (front ++ (pieces sep text).headD []) :: (pieces sep text).tail := by
  induction front with
  | nil => exact absurd rfl hne
  | cons c front ih =>
    rw [List.mem_cons, not_or] at h
    rw [List.cons_append, pieces_cons_of_ne (Ne.symm h.1)]
    rcases eq_or_ne front [] with rfl | hfront
    · rfl
    · rw [ih h.2 hfront, List.headD_cons, List.tail_cons, List.cons_append]

/-- **A text in another alphabet** is read as it is in its own, if each character becomes some that
are no separator and the separator becomes the separator. -/
theorem pieces_flatMap {β : Type*} [DecidableEq β] {sep' : β} {f : α → List β}
    (hsep : f sep = [sep']) (hother : ∀ c, c ≠ sep → f c ≠ [] ∧ sep' ∉ f c) (text : List α) :
    pieces sep' (text.flatMap f) = (pieces sep text).map fun piece ↦ piece.flatMap f := by
  induction text with
  | nil => rfl
  | cons c text ih =>
    rw [List.flatMap_cons]
    by_cases hc : c = sep
    · rw [hc, hsep, List.singleton_append, pieces_sep_cons, pieces_sep_cons, List.map_cons, ih,
        List.flatMap_nil]
    · rw [pieces_append_of_not_mem (hother c hc).2 (hother c hc).1, pieces_cons_of_ne hc, ih,
        List.map_cons, List.flatMap_cons, List.map_tail]
      cases pieces sep text <;> rfl

/-- A text is read up to a separator, and then on. -/
theorem pieces_append_sep_append (text rest : List α) :
    pieces sep (text ++ sep :: rest) = pieces sep (text ++ [sep]) ++ pieces sep rest := by
  induction text with
  | nil => rw [List.nil_append, List.nil_append, pieces_sep_cons, pieces_sep_cons, pieces_nil]; rfl
  | cons c text ih =>
    rw [List.cons_append, List.cons_append]
    by_cases hc : c = sep
    · rw [hc, pieces_sep_cons, pieces_sep_cons, ih, List.cons_append]
    · rw [pieces_cons_of_ne hc, pieces_cons_of_ne hc, ih]
      have hne : text ++ [sep] ≠ [] := List.append_ne_nil_of_right_ne_nil _ (List.cons_ne_nil _ _)
      obtain ⟨first, others, hfirst⟩ := List.exists_cons_of_ne_nil (pieces_ne_nil sep hne)
      rw [hfirst]
      rfl

/-- No piece holds a separator. -/
theorem not_mem_of_mem_pieces {text piece : List α} (h : piece ∈ pieces sep text) :
    sep ∉ piece := by
  induction text generalizing piece with
  | nil => exact absurd h List.not_mem_nil
  | cons c text ih =>
    by_cases hc : c = sep
    · rw [hc, pieces_sep_cons] at h
      rcases List.mem_cons.mp h with rfl | h
      · exact List.not_mem_nil
      · exact ih h
    · rw [pieces_cons_of_ne hc] at h
      rcases List.mem_cons.mp h with rfl | h
      · rw [List.mem_cons, not_or]
        refine ⟨Ne.symm hc, ?_⟩
        rcases hpieces : pieces sep text with - | ⟨first, rest⟩
        · exact List.not_mem_nil
        · exact ih (by rw [hpieces]; exact List.mem_cons_self)
      · exact ih (List.mem_of_mem_tail h)

end Reading

/-! ## What was written -/

/-- Each piece with the separator after it. -/
def terminate (sep : α) (ps : List (List α)) : List α := ps.flatMap (· ++ [sep])

@[simp] theorem terminate_nil : terminate sep [] = [] := rfl

@[simp] theorem terminate_cons (piece : List α) (ps : List (List α)) :
    terminate sep (piece :: ps) = piece ++ sep :: terminate sep ps := by
  rw [terminate, List.flatMap_cons, List.append_assoc, List.singleton_append]
  rfl

theorem mem_terminate {c : α} {ps : List (List α)} :
    c ∈ terminate sep ps ↔ ∃ p ∈ ps, c ∈ p ∨ c = sep := by
  simp only [terminate, List.mem_flatMap, List.mem_append, List.mem_singleton]

theorem terminate_append (ps qs : List (List α)) :
    terminate sep (ps ++ qs) = terminate sep ps ++ terminate sep qs := List.flatMap_append

/-- The last of the pieces ends with the separator too. -/
theorem terminate_eq_concat {ps : List (List α)} (h : ps ≠ []) :
    terminate sep ps = (terminate sep ps).dropLast ++ [sep] := by
  obtain ⟨front, last, rfl⟩ := (List.eq_nil_or_concat ps).resolve_left h
  rw [List.concat_eq_append, terminate_append, terminate_cons, terminate_nil, ← List.append_assoc,
    List.dropLast_concat]

/-- Without the last separator, what is written in another alphabet is what was written. -/
theorem flatMap_dropLast_terminate {β : Type*} {sep' : β} {f : α → List β} (hsep : f sep = [sep'])
    {ps : List (List α)} (h : ps ≠ []) : (terminate sep ps).dropLast.flatMap f
      = (terminate sep' (ps.map fun piece ↦ piece.flatMap f)).dropLast := by
  have hterminate : (terminate sep ps).flatMap f
      = terminate sep' (ps.map fun piece ↦ piece.flatMap f) := by
    rw [terminate, terminate, List.flatMap_assoc, List.flatMap_map]
    refine List.flatMap_congr fun piece _ ↦ ?_
    rw [List.flatMap_append, List.flatMap_singleton, hsep]
  rw [terminate_eq_concat h, List.flatMap_append, List.flatMap_singleton, hsep] at hterminate
  rw [← hterminate, List.dropLast_concat]

theorem length_le_length_terminate (ps : List (List α)) :
    ps.length ≤ (terminate sep ps).length := by
  induction ps with
  | nil => exact Nat.le_refl _
  | cons p ps ih =>
    rw [terminate_cons, List.length_append, List.length_cons, List.length_cons]
    omega

theorem terminate_replicate_nil (k : ℕ) :
    terminate sep (List.replicate k []) = List.replicate k sep := by
  induction k with
  | zero => rfl
  | succ k ih => rw [List.replicate_succ, terminate_cons, ih, List.nil_append, List.replicate_succ]

variable [DecidableEq α]

/-- Terminated pieces are read back, and the loop goes on with what follows them. -/
theorem pieces_terminate_append {ps : List (List α)} (h : ∀ p ∈ ps, sep ∉ p) (text : List α) :
    pieces sep (terminate sep ps ++ text) = ps ++ pieces sep text := by
  induction ps with
  | nil => rfl
  | cons p ps ih =>
    rw [terminate_cons, List.append_assoc, List.cons_append,
      pieces_append_sep (h p List.mem_cons_self),
      ih fun q hq ↦ h q (List.mem_cons_of_mem _ hq), List.cons_append]

/-- Without the last separator the last piece is read too, unless it is empty. -/
theorem pieces_dropLast_terminate {ps : List (List α)} {last : List α} (h : ∀ p ∈ ps, sep ∉ p)
    (hlast : sep ∉ last) :
    pieces sep (terminate sep (ps ++ [last])).dropLast
      = if last = [] then ps else ps ++ [last] := by
  have htext : (terminate sep (ps ++ [last])).dropLast = terminate sep ps ++ last := by
    rw [terminate_append, terminate_cons, terminate_nil, ← List.append_assoc,
      List.dropLast_concat]
  rw [htext, pieces_terminate_append h]
  split
  · next hnil => rw [hnil, pieces_nil, List.append_nil]
  · next hne => rw [pieces_of_not_mem hlast hne]

/-- As many pieces as were written are the pieces that were written. -/
theorem pieces_dropLast_terminate_of_length {ps : List (List α)} (h : ∀ p ∈ ps, sep ∉ p)
    (hlength : (pieces sep (terminate sep ps).dropLast).length = ps.length) :
    pieces sep (terminate sep ps).dropLast = ps := by
  rcases List.eq_nil_or_concat ps with rfl | ⟨ps, last, rfl⟩
  · rfl
  rw [List.concat_eq_append] at h hlength ⊢
  rw [pieces_dropLast_terminate (fun p hp ↦ h p (List.mem_append_left _ hp)) (h last (by simp))]
    at hlength ⊢
  split at hlength
  · rw [List.length_append, List.length_singleton] at hlength
    omega
  · next hlast => rw [if_neg hlast]

/-- **What is read back without the last separator**: the pieces that were written, exactly when
none holds a separator and the last is not empty. -/
theorem pieces_dropLast_terminate_eq_iff (ps : List (List α)) :
    pieces sep (terminate sep ps).dropLast = ps
      ↔ (∀ p ∈ ps, sep ∉ p) ∧ ps.getLast? ≠ some [] := by
  rcases List.eq_nil_or_concat ps with rfl | ⟨ps, last, rfl⟩
  · simp
  rw [List.concat_eq_append, List.getLast?_concat]
  refine ⟨fun h ↦ ?_, fun ⟨h, hne⟩ ↦ ?_⟩
  · have hmem : ∀ p ∈ ps ++ [last], sep ∉ p := fun p hp ↦ not_mem_of_mem_pieces (h.symm ▸ hp)
    refine ⟨hmem, fun hlast ↦ ?_⟩
    have hnil : last = [] := Option.some.inj hlast
    rw [pieces_dropLast_terminate (fun p hp ↦ hmem p (List.mem_append_left _ hp))
      (hmem last (by simp)), if_pos hnil] at h
    exact absurd h (by simp)
  · have hlast : last ≠ [] := fun h ↦ hne (congrArg some h)
    rw [pieces_dropLast_terminate (fun p hp ↦ h p (List.mem_append_left _ hp))
      (h last (by simp)), if_neg hlast]

/-- **What is read and written again**: the text, with a separator at its end. -/
theorem terminate_pieces (text : List α) :
    terminate sep (pieces sep text)
      = if text = [] ∨ text.getLast? = some sep then text else text ++ [sep] := by
  induction text with
  | nil => rfl
  | cons c text ih =>
    have hcons : terminate sep (pieces sep (c :: text))
        = if text = [] then if c = sep then [sep] else [c, sep]
          else c :: terminate sep (pieces sep text) := by
      by_cases hc : c = sep
      · rw [hc, pieces_sep_cons, terminate_cons, List.nil_append, if_pos rfl]
        split
        · next hnil => rw [hnil, pieces_nil, terminate_nil]
        · rfl
      · rw [pieces_cons_of_ne hc, terminate_cons, if_neg hc]
        split
        · next hnil => rw [hnil, pieces_nil]; rfl
        · next hne =>
          obtain ⟨piece, rest, hpieces⟩ := List.exists_cons_of_ne_nil (pieces_ne_nil sep hne)
          rw [hpieces, List.headD_cons, List.tail_cons, terminate_cons, List.cons_append]
    -- What is left is whether the text behind `c` is empty.
    rw [hcons]
    rcases eq_or_ne text [] with rfl | hne
    · by_cases hc : c = sep
      · rw [if_pos rfl, if_pos hc, if_pos (.inr (by rw [hc]; rfl)), hc]
      · rw [if_pos rfl, if_neg hc, if_neg (by simpa using hc)]
        rfl
    · rw [if_neg hne, ih]
      have hlast : (c :: text).getLast? = text.getLast? := by
        obtain ⟨d, rest, rfl⟩ := List.exists_cons_of_ne_nil hne
        rfl
      simp only [hne, hlast, List.cons_ne_nil, false_or]
      split <;> rfl

/-- There are no more pieces than elements. -/
theorem length_pieces_le (text : List α) : (pieces sep text).length ≤ text.length := by
  induction text with
  | nil => exact Nat.le_refl _
  | cons c text ih =>
    by_cases hc : c = sep
    · rw [hc, pieces_sep_cons, List.length_cons, List.length_cons]
      omega
    · rw [pieces_cons_of_ne hc, List.length_cons, List.length_cons, List.length_tail]
      omega

/-- Separators end as many empty pieces. -/
theorem pieces_replicate_append (k : ℕ) (text : List α) :
    pieces sep (List.replicate k sep ++ text) = List.replicate k [] ++ pieces sep text := by
  induction k with
  | zero => rfl
  | succ k ih =>
    rw [List.replicate_succ, List.cons_append, pieces_sep_cons, ih, List.replicate_succ,
      List.cons_append]

/-- Pieces without separators are read back as they were written. -/
theorem pieces_terminate {ps : List (List α)} (h : ∀ p ∈ ps, sep ∉ p) :
    pieces sep (terminate sep ps) = ps := by
  have hread := pieces_terminate_append h []
  rwa [List.append_nil, pieces_nil, List.append_nil] at hread

/-- A piece stands in the text. -/
theorem infix_of_mem_pieces {piece text : List α} (h : piece ∈ pieces sep text) :
    piece <:+: text := by
  induction hlength : text.length using Nat.strongRecOn generalizing text with
  | ind n ih =>
    by_cases hsep : sep ∈ text
    · obtain ⟨first, rest, rfl, hfirst⟩ := List.eq_append_cons_of_mem hsep
      rw [pieces_append_sep hfirst] at h
      rcases List.mem_cons.mp h with rfl | h
      · exact (List.prefix_append _ _).isInfix
      · rw [List.length_append, List.length_cons] at hlength
        have hrest := ih rest.length (by omega) h rfl
        exact hrest.trans ((List.suffix_cons sep rest).trans (List.suffix_append first _)).isInfix
    · rcases eq_or_ne text [] with rfl | hne
      · exact absurd h List.not_mem_nil
      · rw [pieces_of_not_mem hsep hne, List.mem_singleton] at h
        exact h ▸ List.infix_rfl

end Getline
