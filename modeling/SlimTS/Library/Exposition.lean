import SlimTS.Library.Getline

/-!
# Texts of samples

The text format that monitoring systems scrape: each line is a comment, which begins with a mark,
or a sample, which is a name, a blank and a value. A name may hold blanks, since its labels may; a
value holds none. So a reader cuts a line at its last blank.

The reader passes over the comments and over every line without a blank. It reads the samples that
were written back, also from a text that lacks its last line end (`samples_dropLast_terminate`) or
begins with a line of something else (`samples_lineEnd`).
-/

namespace Exposition

open Getline

/-- The characters that shape a text of samples. -/
structure Marks (α : Type*) where
  /-- A comment begins with it. -/
  mark : α
  /-- It stands between a name and a value. -/
  blank : α
  /-- A line ends with it. -/
  lineEnd : α
  mark_ne_blank : mark ≠ blank
  lineEnd_ne_mark : lineEnd ≠ mark
  lineEnd_ne_blank : lineEnd ≠ blank

/-- A line of a text. -/
inductive Line (α : Type*)
  | comment (text : List α)
  | sample (name value : List α)

variable {α : Type*} (m : Marks α)

namespace Line

/-- A line as it is written, without its end. -/
def write : Line α → List α
  | comment text => m.mark :: text
  | sample name value => name ++ m.blank :: value

/-- The sample of a line. -/
def toSample : Line α → Option (List α × List α)
  | comment _ => none
  | sample name value => some (name, value)

/-- A line that is written in one line and means what it says. -/
def WellFormed : Line α → Prop
  | comment text => m.lineEnd ∉ text
  | sample name value =>
    name.head? ≠ some m.mark ∧ m.lineEnd ∉ name ∧ m.lineEnd ∉ value ∧ m.blank ∉ value

variable {m}

theorem write_ne_nil (line : Line α) : line.write m ≠ [] := by
  cases line with
  | comment text => exact List.cons_ne_nil _ _
  | sample name value => exact List.append_ne_nil_of_right_ne_nil _ (List.cons_ne_nil _ _)

theorem WellFormed.lineEnd_not_mem {line : Line α} (h : line.WellFormed m) :
    m.lineEnd ∉ line.write m := by
  cases line with
  | comment text =>
    rw [write, List.mem_cons, not_or]
    exact ⟨m.lineEnd_ne_mark, h⟩
  | sample name value =>
    rw [write, List.mem_append, List.mem_cons, not_or, not_or]
    exact ⟨h.2.1, m.lineEnd_ne_blank, h.2.2.1⟩

private theorem lineEnd_not_mem_map {lines : List (Line α)}
    (h : ∀ line ∈ lines, line.WellFormed m) :
    ∀ piece ∈ lines.map (write m), m.lineEnd ∉ piece := by
  intro piece hpiece
  obtain ⟨line, hline, rfl⟩ := List.mem_map.mp hpiece
  exact (h line hline).lineEnd_not_mem

end Line

/-! ## The reader -/

variable [DecidableEq α]

/-- What stands before and behind the last occurrence of a character. -/
def cutLast (blank : α) : List α → Option (List α × List α)
  | [] => none
  | c :: line =>
    match cutLast blank line with
    | some cut => some (c :: cut.1, cut.2)
    | none => if c = blank then some ([], line) else none

/-- What a reader makes of a line. -/
def readLine (line : List α) : Option (List α × List α) :=
  if line.head? = some m.mark then none else cutLast m.blank line

/-- What a reader makes of a text. -/
def samples (text : List α) : List (List α × List α) :=
  (pieces m.lineEnd text).filterMap (readLine m)

variable {m}

theorem cutLast_of_not_mem {blank : α} {line : List α} (h : blank ∉ line) :
    cutLast blank line = none := by
  induction line with
  | nil => rfl
  | cons c line ih =>
    rw [List.mem_cons, not_or] at h
    rw [cutLast, ih h.2, if_neg (Ne.symm h.1)]

theorem cutLast_append {blank : α} {value : List α} (h : blank ∉ value) (name : List α) :
    cutLast blank (name ++ blank :: value) = some (name, value) := by
  induction name with
  | nil => rw [List.nil_append, cutLast, cutLast_of_not_mem h, if_pos rfl]
  | cons c name ih => rw [List.cons_append, cutLast, ih]

/-- A line without a blank is passed over. -/
theorem readLine_of_not_mem {line : List α} (h : m.blank ∉ line) : readLine m line = none := by
  rw [readLine, cutLast_of_not_mem h, ite_self]

/-- **A line is read as it was meant.** -/
theorem readLine_write {line : Line α} (h : line.WellFormed m) :
    readLine m (line.write m) = line.toSample := by
  cases line with
  | comment text => exact if_pos rfl
  | sample name value =>
    have hhead : (name ++ m.blank :: value).head? ≠ some m.mark := by
      cases name with
      | nil => exact fun hmark ↦ m.mark_ne_blank (Option.some.inj hmark).symm
      | cons c name => exact h.1
    rw [Line.write, readLine, if_neg hhead, cutLast_append h.2.2.2, Line.toSample]

private theorem filterMap_readLine {lines : List (Line α)} (h : ∀ line ∈ lines, line.WellFormed m) :
    (lines.map (Line.write m)).filterMap (readLine m) = lines.filterMap Line.toSample := by
  rw [List.filterMap_map]
  exact List.filterMap_congr fun line hline ↦ readLine_write (h line hline)

/-- **What was written is read back**, and the end of the last line is not needed for it. -/
theorem samples_dropLast_terminate {lines : List (Line α)}
    (h : ∀ line ∈ lines, line.WellFormed m) :
    samples m (terminate m.lineEnd (lines.map (Line.write m))).dropLast
      = lines.filterMap Line.toSample := by
  have hlast : (lines.map (Line.write m)).getLast? ≠ some [] := by
    intro hnil
    obtain ⟨line, -, hline⟩ := List.mem_map.mp (List.mem_of_getLast? hnil)
    exact line.write_ne_nil hline
  rw [samples, (pieces_dropLast_terminate_eq_iff _).mpr ⟨Line.lineEnd_not_mem_map h, hlast⟩,
    filterMap_readLine h]

/-- A first line without a blank is passed over. -/
theorem samples_lineEnd {line : List α} (hend : m.lineEnd ∉ line) (hblank : m.blank ∉ line)
    (text : List α) : samples m (line ++ m.lineEnd :: text) = samples m text := by
  rw [samples, pieces_append_sep hend, List.filterMap_cons, readLine_of_not_mem hblank, samples]

end Exposition
