import Mathlib.Data.List.DropRight
import SlimTS.Common.Basic

/-!
# Paths

What the program uses of `std::filesystem::path`, as the POSIX version of the standard library
computes it on the path's text. `components` is not one of its functions: it is what two texts have
in common that lead the operating system the same way, and the results about paths compare paths
through it.
-/

namespace SlimTS

namespace Path

/-- `filename`: what stands after the last slash. -/
def filename (p : Str) : Str := p.rtakeWhile (· != '/')

/-- `has_extension`: the file name has a dot that is not its first character, and is not `..`. -/
def hasExtension (p : Str) : Bool :=
  filename p != "..".toList && ((filename p).drop 1).contains '.'

/-- `extension`: from the last dot of the file name, unless that is its first character or the file
name is `..`. -/
def extension (p : Str) : Str :=
  if filename p = "..".toList ∨ ((filename p).rdropWhile (· != '.')).length ≤ 1 then []
  else '.' :: (filename p).rtakeWhile (· != '.')

/-- `parent_path`. A path of slashes only is its own parent. -/
def parentPath (p : Str) : Str :=
  if p.all (· == '/') then p
  else
    let directory := p.rdropWhile (· != '/')
    let parent := directory.rdropWhile (· == '/')
    if parent = [] then directory.take 1 else parent

/-- `std::filesystem::absolute`, in the working directory `currentPath`. There is no absolute path
of the empty one: the call throws. -/
def absolute (currentPath p : Str) : Option Str :=
  if p = [] then none
  else if p.head? = some '/' then some p
  else if currentPath = [] ∨ currentPath.getLast? = some '/' then some (currentPath ++ p)
  else some (currentPath ++ '/' :: p)

/-- The components of a path, without the empty ones and `.`, which lead nowhere. -/
def components (p : Str) : List Str := (p.splitOn '/').filter fun c ↦ c ≠ [] ∧ c ≠ ['.']

@[simp] theorem components_nil : components [] = [] := by decide

/-- A slash separates components. -/
theorem components_append_slash (p q : Str) :
    components (p ++ '/' :: q) = components p ++ components q := by
  rw [components, List.splitOn_append_cons_self, List.filter_append, components, components]

@[simp] theorem components_append_singleton_slash (p : Str) :
    components (p ++ ['/']) = components p := by
  rw [components_append_slash, components_nil, List.append_nil]

/-- Trailing slashes lead nowhere. -/
theorem components_rdropWhile (p : Str) :
    components (p.rdropWhile (· == '/')) = components p := by
  induction p using List.reverseRecOn with
  | nil => rfl
  | append_singleton p c ih =>
    by_cases hc : c = '/'
    · rw [hc, List.rdropWhile_concat_pos _ _ _ (by simp), ih, components_append_singleton_slash]
    · rw [List.rdropWhile_concat_neg _ _ _ (by simpa using hc)]

/-- A path of slashes leads nowhere. -/
theorem components_eq_nil {p : Str} (hp : ∀ c ∈ p, c = '/') : components p = [] := by
  have hdrop : p.rdropWhile (· == '/') = [] := by
    rw [List.rdropWhile_eq_nil_iff]
    exact fun c hc ↦ beq_iff_eq.mpr (hp c hc)
  rw [← components_rdropWhile, hdrop, components_nil]

/-- Dropping the file name of a path leaves the directory with its slash. -/
theorem rdropWhile_file {directory f : Str} (hslash : '/' ∉ f) :
    (directory ++ '/' :: f).rdropWhile (· != '/') = directory ++ ['/'] := by
  induction f using List.reverseRecOn with
  | nil => exact List.rdropWhile_concat_neg _ _ _ (by simp)
  | append_singleton f c ih =>
    rw [List.mem_append, List.mem_singleton, not_or] at hslash
    rw [← List.cons_append, ← List.append_assoc,
      List.rdropWhile_concat_pos _ _ _ (by simpa using Ne.symm hslash.2), ih hslash.1]

/-- The file name of a file in a directory. -/
theorem filename_file {directory f : Str} (hslash : '/' ∉ f) :
    filename (directory ++ '/' :: f) = f := by
  have hall : ∀ c ∈ f.reverse, (c != '/') = true := by
    intro c hc
    rw [bne_iff_ne]
    rintro rfl
    exact hslash (List.mem_reverse.mp hc)
  rw [filename, List.rtakeWhile, List.reverse_append, List.reverse_cons, List.append_assoc,
    List.takeWhile_append_of_pos hall, List.singleton_append,
    List.takeWhile_cons_of_neg (by simp), List.append_nil, List.reverse_reverse]

/-- What stands before the last slash has no part in the file name. -/
theorem filename_append_slash (directory f : Str) :
    filename (directory ++ '/' :: f) = filename f := by
  have hstop : ('/' :: directory.reverse).takeWhile (· != '/') = [] :=
    List.takeWhile_cons_of_neg (by simp)
  rw [filename, filename, List.rtakeWhile, List.rtakeWhile, List.reverse_append, List.reverse_cons,
    List.append_assoc, List.singleton_append, List.takeWhile_append]
  split
  · next hall =>
    rw [hstop, List.append_nil, List.takeWhile_prefix _ |>.eq_of_length hall]
  · rfl

/-- A path whose file name has no dot has no extension. -/
theorem extension_eq_nil {p : Str} (h : '.' ∉ filename p) : extension p = [] := by
  have hdrop : (filename p).rdropWhile (· != '.') = [] := by
    rw [List.rdropWhile_eq_nil_iff]
    intro c hc
    rw [bne_iff_ne]
    rintro rfl
    exact h hc
  rw [extension, hdrop, List.length_nil, if_pos (Or.inr (Nat.zero_le 1))]

/-- The parent of a file is the directory it is in. -/
theorem components_parentPath {directory f : Str} (hf : f ≠ []) (hslash : '/' ∉ f) :
    components (parentPath (directory ++ '/' :: f)) = components directory := by
  have hall : (directory ++ '/' :: f).all (· == '/') = false := by
    obtain ⟨c, hc⟩ := List.exists_mem_of_ne_nil f hf
    have hne : c ≠ '/' := by
      rintro rfl
      exact hslash hc
    rw [List.all_eq_false]
    exact ⟨c, by simp [hc], by simpa using hne⟩
  rw [parentPath, hall, if_neg Bool.false_ne_true]
  simp only [rdropWhile_file hslash]
  split
  · next hempty =>
    -- The directory is the root: slashes and nothing else.
    rw [List.rdropWhile_eq_nil_iff] at hempty
    have hslashes : ∀ c ∈ directory ++ ['/'], c = '/' := fun c hc ↦ beq_iff_eq.mp (hempty c hc)
    rw [components_eq_nil fun c hc ↦ hslashes c (List.mem_of_mem_take hc),
      components_eq_nil fun c hc ↦ hslashes c (List.mem_append_left _ hc)]
  · rw [components_rdropWhile, components_append_singleton_slash]

/-- The parent of an absolute path is absolute. -/
theorem parentPath_head {p : Str} (hp : p.head? = some '/') :
    (parentPath p).head? = some '/' := by
  obtain ⟨p, rfl⟩ := List.head?_eq_some_iff.mp hp
  have hhead : ∀ {q : Str}, q <+: '/' :: p → q ≠ [] → q.head? = some '/' := by
    intro q hq hne
    obtain ⟨c, q, rfl⟩ := List.exists_cons_of_ne_nil hne
    obtain ⟨rfl, -⟩ := List.cons_prefix_cons.mp hq
    rfl
  have hdir : ('/' :: p).rdropWhile (· != '/') ≠ [] := by
    rw [ne_eq, List.rdropWhile_eq_nil_iff]
    exact fun h ↦ absurd (h '/' List.mem_cons_self) (by simp)
  rw [parentPath]
  split
  · rfl
  · simp only
    split
    · exact hhead ((List.take_prefix _ _).trans (List.rdropWhile_prefix _ _))
        (by simp [List.take_eq_nil_iff, hdir])
    · next hne =>
      exact hhead ((List.rdropWhile_prefix _ _).trans (List.rdropWhile_prefix _ _)) hne

/-- The absolute path of an absolute path is itself, whatever the working directory. -/
theorem absolute_of_head {currentPath p : Str} (hp : p.head? = some '/') :
    absolute currentPath p = some p := by
  have hne : p ≠ [] := by
    rintro rfl
    exact absurd hp (by simp)
  rw [absolute, if_neg hne, if_pos hp]

/-- The working directory and a relative path, joined by a slash. -/
theorem absolute_relative {currentPath p : Str} (hcurrent : currentPath.head? = some '/')
    (hne : p ≠ []) (hp : p.head? ≠ some '/') :
    ∃ parent, absolute currentPath p = some (parent ++ '/' :: p) ∧
      components parent = components currentPath := by
  rw [absolute, if_neg hne, if_neg hp]
  split
  · next hslash =>
    have hnil : currentPath ≠ [] := by
      rintro rfl
      exact absurd hcurrent (by simp)
    obtain ⟨parent, rfl⟩ := List.getLast?_eq_some_iff.mp (hslash.resolve_left hnil)
    exact ⟨parent, by simp, (components_append_singleton_slash parent).symm⟩
  · exact ⟨currentPath, rfl, rfl⟩

/-- The absolute path of a path has its file name. -/
theorem filename_absolute {currentPath p q : Str} (h : absolute currentPath p = some q) :
    filename q = filename p := by
  rw [absolute] at h
  split at h
  · exact absurd h (by simp)
  split at h
  · rw [Option.some.inj h]
  split at h
  · next hempty =>
    rw [← Option.some.inj h]
    rcases hempty with rfl | hslash
    · rfl
    · obtain ⟨directory, rfl⟩ := List.getLast?_eq_some_iff.mp hslash
      rw [List.append_assoc, List.singleton_append, filename_append_slash]
  · rw [← Option.some.inj h, filename_append_slash]

/-- An absolute path is absolute. -/
theorem absolute_head {currentPath p q : Str} (hcurrent : currentPath.head? = some '/')
    (h : absolute currentPath p = some q) : q.head? = some '/' := by
  rcases eq_or_ne p [] with rfl | hne
  · exact absurd h (by simp [absolute])
  by_cases hp : p.head? = some '/'
  · rw [absolute_of_head hp] at h
    rwa [← Option.some.inj h]
  · obtain ⟨c, text, rfl⟩ := List.exists_cons_of_ne_nil (l := currentPath) (by
      rintro rfl
      exact absurd hcurrent (by simp))
    rw [absolute, if_neg hne, if_neg hp] at h
    split at h
    · rwa [← Option.some.inj h]
    · rwa [← Option.some.inj h]

/-- A path with an extension has a dot. -/
theorem mem_of_hasExtension {p : Str} (h : hasExtension p = true) : '.' ∈ p := by
  rw [hasExtension, Bool.and_eq_true, List.contains_iff_mem] at h
  have hmem : '.' ∈ filename p := List.mem_of_mem_drop h.2
  exact (List.rtakeWhile_suffix _ _).subset hmem

end Path

end SlimTS
