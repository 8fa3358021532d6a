import SlimTS.CommandLine.Argv

/-!
# The name of the script

`is_script` replaces what `/./|//` matches by a slash before it makes the path absolute. The dot is
not escaped, so it stands for any character: a match is a component of one character with the
slashes around it, whatever the character. What is recorded leads to the file that the argument
names exactly when nothing but `.` and empty components has been matched.
-/

namespace SlimTS

/-- Components are dropped that lead nowhere, and all others are kept in their order. -/
inductive Drops : List Str → List Str → Prop
  | nil : Drops [] []
  | keep (c : Str) {full kept : List Str} (h : Drops full kept) : Drops (c :: full) (c :: kept)
  | drop {c : Str} {full kept : List Str} (hc : c = [] ∨ c = ['.']) (h : Drops full kept) :
      Drops (c :: full) kept

/-- The script path is the absolute form of the argument without some `.` and empty components. -/
def SameFile (currentPath argument scriptPath : Str) : Prop :=
  ∃ p, Path.absolute currentPath p = some scriptPath ∧
    (p.head? = some '/' ↔ argument.head? = some '/') ∧
    Drops (argument.splitOn '/') (p.splitOn '/')

/-- What stands for the dot in the matches of `/./`. -/
def dotMatches : Str → List Char
  | '/' :: c :: '/' :: text =>
    if c ≠ '\n' ∧ c ≠ '\r' then c :: dotMatches text else dotMatches ('/' :: text)
  | '/' :: '/' :: text => dotMatches text
  | _ :: text => dotMatches text
  | [] => []

/-- No component of one character is matched but `.`. -/
def OnlyDots (argument : Str) : Prop := ∀ c ∈ dotMatches argument, c = '.' ∨ c = '/'

instance (argument : Str) : Decidable (OnlyDots argument) :=
  List.decidableBAll _ (dotMatches argument)

/-- A component that leads somewhere. -/
def leads (c : Str) : Bool := c != [] && c != ['.']

section

variable {c : Char} {text : Str} {full kept : List Str}

/-! ## Splitting at slashes -/

theorem splitOn_slash_cons (text : Str) : ('/' :: text).splitOn '/' = [] :: text.splitOn '/' := by
  rw [List.splitOn_cons_eq_if_modifyHead, if_pos (beq_self_eq_true _)]

theorem splitOn_cons_of_ne (hc : c ≠ '/') {first : Str} (h : text.splitOn '/' = first :: full) :
    (c :: text).splitOn '/' = (c :: first) :: full := by
  rw [List.splitOn_cons_eq_if_modifyHead, if_neg (by simpa using hc), h, List.modifyHead_cons]

theorem leads_eq_false_iff {name : Str} : leads name = false ↔ name = [] ∨ name = ['.'] := by
  rw [leads, Bool.and_eq_false_iff, bne_eq_false_iff_eq, bne_eq_false_iff_eq]

/-- What is dropped leads nowhere. -/
theorem Drops.countP_eq (h : Drops full kept) : kept.countP leads = full.countP leads := by
  induction h with
  | nil => rfl
  | keep name _ ih => rw [List.countP_cons, List.countP_cons, ih]
  | drop hname _ ih =>
    rw [List.countP_cons, leads_eq_false_iff.mpr hname, if_neg Bool.false_ne_true, ih,
      Nat.add_zero]

/-! ## The pass -/

/-- What one pass makes of the components behind the first slash. -/
structure Passed (text : Str) (full kept : List Str) : Prop where
  countP_le : kept.countP leads ≤ full.countP leads
  onlyDots : kept.countP leads = full.countP leads → OnlyDots text
  drops : OnlyDots text → Drops full kept

namespace Passed

variable {text' name : Str}

theorem congr (h : Passed text full kept) (honly : OnlyDots text' ↔ OnlyDots text) :
    Passed text' full kept :=
  ⟨h.countP_le, fun heq ↦ honly.mpr (h.onlyDots heq), fun h' ↦ h.drops (honly.mp h')⟩

theorem keep (h : Passed text full kept) (name : Str) :
    Passed text (name :: full) (name :: kept) where
  countP_le := by
    rw [List.countP_cons, List.countP_cons]
    exact Nat.add_le_add_right h.countP_le _
  onlyDots heq := by
    rw [List.countP_cons, List.countP_cons] at heq
    exact h.onlyDots (Nat.add_right_cancel heq)
  drops honly := (h.drops honly).keep name

theorem drop (h : Passed text full kept) (hname : name = [] ∨ name = ['.']) :
    Passed text (name :: full) kept := by
  have hcount : (name :: full).countP leads = full.countP leads := by
    rw [List.countP_cons, leads_eq_false_iff.mpr hname, if_neg Bool.false_ne_true, Nat.add_zero]
  refine ⟨?_, fun heq ↦ ?_, fun honly ↦ (h.drops honly).drop hname⟩
  · rw [hcount]
    exact h.countP_le
  · rw [hcount] at heq
    exact h.onlyDots heq

/-- A component is lost that leads somewhere. -/
theorem lose (h : Passed text full kept) (hname : leads name = true) (hnot : ¬ OnlyDots text') :
    Passed text' (name :: full) kept := by
  have hcount : (name :: full).countP leads = full.countP leads + 1 := by
    rw [List.countP_cons, hname, if_pos rfl]
  have hle := h.countP_le
  refine ⟨?_, fun heq ↦ ?_, fun honly ↦ absurd honly hnot⟩
  · omega
  · omega

end Passed

/-- **The pass** keeps the first component, and what it drops behind it is what it matches. -/
theorem split_regexReplace (text : Str) : ∃ first full kept,
    text.splitOn '/' = first :: full ∧ (regexReplace text).splitOn '/' = first :: kept ∧
      Passed text full kept := by
  fun_induction regexReplace text with
  | case1 c text hc ih =>
    obtain ⟨first, full, kept, htext, hpass, h⟩ := ih
    have honly : OnlyDots ('/' :: c :: '/' :: text) ↔ (c = '.' ∨ c = '/') ∧ OnlyDots text := by
      rw [OnlyDots, dotMatches, if_pos hc, List.forall_mem_cons, OnlyDots]
    refine ⟨[], [c].splitOn '/' ++ first :: full, first :: kept, ?_, ?_, ?_⟩
    · rw [splitOn_slash_cons, ← htext]
      exact congrArg _ (List.splitOn_append_cons_self [c] text)
    · rw [splitOn_slash_cons, hpass]
    · by_cases hslash : c = '/'
      · subst hslash
        exact (((h.keep first).drop (.inl rfl)).drop (.inl rfl)).congr (by simp [honly])
      have hsplit : [c].splitOn '/' = [[c]] := splitOn_cons_of_ne hslash rfl
      rw [hsplit, List.singleton_append]
      by_cases hdot : c = '.'
      · subst hdot
        exact ((h.keep first).drop (.inr rfl)).congr (by simp [honly])
      · exact (h.keep first).lose (by simp [leads, hdot]) (by simp [honly, hdot, hslash])
  | case2 c text hc ih =>
    obtain ⟨first, full, kept, htext, hpass, h⟩ := ih
    have hne : c ≠ '/' := by
      rintro rfl
      exact hc (by decide)
    have honly : OnlyDots ('/' :: c :: '/' :: text) ↔ OnlyDots ('/' :: text) := by
      rw [OnlyDots, dotMatches, if_neg hc, OnlyDots]
    refine ⟨[], (c :: first) :: full, (c :: first) :: kept, ?_, ?_, (h.keep _).congr honly⟩
    · rw [splitOn_slash_cons, splitOn_cons_of_ne hne htext]
    · rw [splitOn_slash_cons, splitOn_cons_of_ne hne hpass]
  | case3 text hfirst ih =>
    obtain ⟨first, full, kept, htext, hpass, h⟩ := ih
    have hmatches : dotMatches ('/' :: '/' :: text) = dotMatches text := by
      rw [dotMatches]
      exact hfirst
    refine ⟨[], [] :: first :: full, first :: kept, ?_, ?_,
      ((h.keep first).drop (.inl rfl)).congr (by rw [OnlyDots, hmatches, OnlyDots])⟩
    · rw [splitOn_slash_cons, splitOn_slash_cons, htext]
    · rw [splitOn_slash_cons, hpass]
  | case4 c text hfirst hsecond ih =>
    obtain ⟨first, full, kept, htext, hpass, h⟩ := ih
    have hmatches : dotMatches (c :: text) = dotMatches text := by
      rw [dotMatches]
      · exact hfirst
      · exact hsecond
    have honly : OnlyDots (c :: text) ↔ OnlyDots text := by rw [OnlyDots, hmatches, OnlyDots]
    -- The component `c` is dropped: between slashes and at a dot nothing is lost, else a name is.
    by_cases hslash : c = '/'
    · subst hslash
      refine ⟨[], first :: full, first :: kept, ?_, ?_, (h.keep first).congr honly⟩
      · rw [splitOn_slash_cons, htext]
      · rw [splitOn_slash_cons, hpass]
    · exact ⟨c :: first, full, kept, splitOn_cons_of_ne hslash htext,
        splitOn_cons_of_ne hslash hpass, h.congr honly⟩
  | case5 =>
    exact ⟨[], [], [], rfl, rfl, le_rfl, fun _ ↦ by simp [OnlyDots, dotMatches], fun _ ↦ .nil⟩

/-- What the pass drops leads nowhere exactly when it matches only dots. -/
theorem drops_regexReplace_iff (text : Str) :
    Drops (text.splitOn '/') ((regexReplace text).splitOn '/') ↔ OnlyDots text := by
  obtain ⟨first, full, kept, htext, hpass, h⟩ := split_regexReplace text
  rw [htext, hpass]
  constructor
  · intro hdrops
    have hcount := hdrops.countP_eq
    rw [List.countP_cons, List.countP_cons] at hcount
    exact h.onlyDots (Nat.add_right_cancel hcount)
  · exact fun honly ↦ (h.drops honly).keep first

/-! ## The script path -/

/-- Two paths with one absolute form are one, if both are absolute or both relative. -/
theorem eq_of_absolute_eq {currentPath p q scriptPath : Str}
    (hp : Path.absolute currentPath p = some scriptPath)
    (hq : Path.absolute currentPath q = some scriptPath)
    (hhead : p.head? = some '/' ↔ q.head? = some '/') : p = q := by
  by_cases habsolute : p.head? = some '/'
  · rw [Path.absolute_of_head habsolute] at hp
    rw [Path.absolute_of_head (hhead.mp habsolute)] at hq
    exact Option.some.inj (hp.trans hq.symm)
  · -- Relative names stand behind the same front.
    have hform : ∀ {r : Str}, r.head? ≠ some '/' →
        Path.absolute currentPath r = some scriptPath →
        scriptPath = (if currentPath = [] ∨ currentPath.getLast? = some '/' then currentPath
          else currentPath ++ ['/']) ++ r := by
      intro r hr h
      rw [Path.absolute, if_neg hr] at h
      split at h
      · exact absurd h (by simp)
      split at h
      · next hcurrent => rw [if_pos hcurrent, Option.some.inj h]
      · next hcurrent =>
        rw [if_neg hcurrent, ← Option.some.inj h, List.append_assoc, List.singleton_append]
    exact List.append_cancel_left
      ((hform habsolute hp).symm.trans (hform (fun h ↦ habsolute (hhead.mpr h)) hq))

/-- **The name of the script** leads to the file that the argument names exactly when the pass
matches no component of one character but `.`. -/
theorem sameFile_iff {e : CommandLineEnvironment} {argument scriptPath : Str}
    (h : isScript e argument = .ok (some scriptPath)) :
    SameFile e.currentPath argument scriptPath ↔ OnlyDots argument := by
  have hhead := head_regexReplace argument
  have habsolute := absolute_of_isScript h
  constructor
  · rintro ⟨p, hp, hhead', hdrops⟩
    obtain rfl := eq_of_absolute_eq hp habsolute (by rw [hhead', hhead])
    exact (drops_regexReplace_iff argument).mp hdrops
  · exact fun honly ↦ ⟨_, habsolute, by rw [hhead], (drops_regexReplace_iff argument).mpr honly⟩

theorem sameFile_iff_relative :
    SameFile "/home".toList ".//lib/./a.js".toList "/home/./lib/a.js".toList :=
  (sameFile_iff (e := homeEnvironment) (by rfl)).mpr (by decide)

/-- A directory with a name of one letter is left out. -/
theorem sameFile_oneLetter : ¬∀ (e : CommandLineEnvironment) (argument scriptPath : Str),
    isScript e argument = .ok (some scriptPath) →
      SameFile e.currentPath argument scriptPath := by
  intro h
  obtain ⟨p, hp, hhead, hdrops⟩ :=
    h homeEnvironment "/srv/b/x.js".toList "/srv/x.js".toList (by rfl)
  have habsolute : Path.absolute "/home".toList "/srv/x.js".toList = some "/srv/x.js".toList := rfl
  obtain rfl := eq_of_absolute_eq hp habsolute (by rw [hhead]; decide)
  exact absurd hdrops.countP_eq (by decide)

end

end SlimTS
