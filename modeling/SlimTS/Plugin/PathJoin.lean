import SlimTS.Library.Separated
import SlimTS.Plugin.Strings

/-!
# Joining paths

`path.join` puts its arguments behind one another and a slash between two of them, unless what it
has so far is empty or ends with one. The arguments come from a script and the result goes back to
it, so they are converted to UTF-8 and C strings on the way in, and back on the way out.

The invariant of the loop is on the text so far with the slash that is still to come: it is empty or
ends with a slash, so what follows is split, and joined, on its own. This gives the components of
what is joined, and that joining some of the arguments first changes nothing. The second holds for
scripts too, since what comes out of `path.join` goes in unchanged. The first does not: an argument
loses what stands behind its first NUL, and a surrogate without its partner is replaced
(`components_pathJoin_eq_iff`).
-/

namespace SlimTS

open Separated

/-! ## The program -/

/-- One turn of the loop. -/
def joinStep (joinedStrings argument : Str) : Str :=
  if joinedStrings ≠ [] ∧ joinedStrings.getLast? ≠ some '/' then joinedStrings ++ ['/'] ++ argument
  else joinedStrings ++ argument

/-- The loop of `join`. -/
def joinStrings (arguments : List Str) : Str := arguments.foldl joinStep []

/-- `slim::plugin::path::join`, of strings. -/
def pathJoin (v8 : Transcoding) (args : List JsString) : JsString :=
  stringToV8String v8 (joinStrings (args.map (v8ValueToString v8)))

/-- The unit of a slash. -/
def slashUnit : UInt16 := 0x2F

/-! ## The loop -/

theorem joinStep_eq (joinedStrings argument : Str) :
    joinStep joinedStrings argument = close '/' joinedStrings ++ argument := by
  rw [joinStep, close]
  split <;> rfl

theorem foldl_joinStep_components (arguments : List Str) (joinedStrings : Str) :
    components '/' (arguments.foldl joinStep joinedStrings)
      = components '/' joinedStrings ++ arguments.flatMap (components '/') := by
  induction arguments generalizing joinedStrings with
  | nil => rw [List.foldl_nil, List.flatMap_nil, List.append_nil]
  | cons argument arguments ih =>
    rw [List.foldl_cons, ih, joinStep_eq, components_append_of_closed (closed_close _),
      components_close, List.flatMap_cons, List.append_assoc]

/-- The components of what is joined. -/
theorem components_joinStrings (arguments : List Str) :
    components '/' (joinStrings arguments) = arguments.flatMap (components '/') := by
  rw [joinStrings, foldl_joinStep_components, components_nil, List.nil_append]

/-- Behind a closed text the loop does what it does from the beginning. -/
theorem foldl_joinStep_append {joinedStrings : Str} (h : Closed '/' joinedStrings)
    (arguments : List Str) (argument : Str) :
    arguments.foldl joinStep (joinedStrings ++ argument)
      = joinedStrings ++ arguments.foldl joinStep argument := by
  induction arguments generalizing argument with
  | nil => rfl
  | cons next arguments ih =>
    rw [List.foldl_cons, List.foldl_cons, joinStep_eq, joinStep_eq, close_append h,
      List.append_assoc, ih]

/-- Some of the texts may be joined first. -/
theorem joinStrings_group (before : List Str) (argument : Str) (arguments after : List Str) :
    joinStrings (before ++ joinStrings (argument :: arguments) :: after)
      = joinStrings (before ++ argument :: arguments ++ after) := by
  have hfirst : joinStep [] argument = argument := rfl
  have hgroup : joinStep (before.foldl joinStep []) ((argument :: arguments).foldl joinStep [])
      = (argument :: arguments).foldl joinStep (before.foldl joinStep []) := by
    rw [List.foldl_cons, hfirst, List.foldl_cons, joinStep_eq, joinStep_eq,
      foldl_joinStep_append (closed_close _)]
  rw [joinStrings, joinStrings, List.foldl_append, List.foldl_cons, hgroup, joinStrings,
    List.append_assoc, List.foldl_append, List.foldl_append]

/-! ## The way in and out -/

variable {v8 : Transcoding} {args : List JsString} {arg : JsString}

theorem plainText_joinStep {joinedStrings argument : Str} (h : PlainText joinedStrings)
    (hargument : PlainText argument) : PlainText (joinStep joinedStrings argument) := by
  rw [joinStep]
  split
  · exact (h.append (plainText_of_ascii rfl)).append hargument
  · exact h.append hargument

theorem plainText_joinStrings {arguments : List Str}
    (h : ∀ argument ∈ arguments, PlainText argument) : PlainText (joinStrings arguments) :=
  List.foldlRecOn arguments joinStep (plainText_of_ascii rfl) fun _ hjoined argument hargument ↦
    plainText_joinStep hjoined (h argument hargument)

theorem plainText_joinStrings_map (args : List JsString) :
    PlainText (joinStrings (args.map (v8ValueToString v8))) :=
  plainText_joinStrings (List.forall_mem_map.mpr fun arg _ ↦ plainText_v8ValueToString arg)

/-- What comes out of `path.join` goes in unchanged. -/
theorem v8ValueToString_pathJoin (args : List JsString) :
    v8ValueToString v8 (pathJoin v8 args) = joinStrings (args.map (v8ValueToString v8)) := by
  have hplain := @plainText_joinStrings_map v8 args
  rw [v8ValueToString, pathJoin, utf8Value_stringToV8String hplain]
  obtain ⟨text, hnul, htext⟩ := hplain
  rw [htext, cString_of_not_mem ((Utf.nul_mem_encode_iff text).not.mpr hnul)]

/-- Some of the arguments may be joined first. -/
theorem pathJoin_group (xs : List JsString) (y : JsString) (ys zs : List JsString) :
    pathJoin v8 (xs ++ pathJoin v8 (y :: ys) :: zs) = pathJoin v8 (xs ++ y :: ys ++ zs) := by
  rw [pathJoin, List.map_append, List.map_cons, v8ValueToString_pathJoin, List.map_cons,
    joinStrings_group, ← List.map_cons, ← List.map_append, ← List.map_append]
  rfl

/-! ## The components a script sees -/

/-- The text of an argument, as the program has it. -/
def carried (v8 : Transcoding) (arg : JsString) : List Char :=
  cString (Utf.repaired v8.surrogate arg)

theorem components_units (text : List Char) :
    components slashUnit (Utf.units text) = (components '/' text).map Utf.units := by
  have hslash : Utf.unitsOf '/' = [slashUnit] := rfl
  have hother : ∀ c, c ≠ '/' → slashUnit ∉ Utf.unitsOf c ∧ Utf.unitsOf c ≠ [] := fun c hc ↦
    ⟨fun hmem ↦ hc ((Utf.mem_unitsOf_iff (d := '/') (by decide)).mp hmem), Utf.unitsOf_ne_nil c⟩
  exact components_flatMap hslash hother text

theorem components_encode (text : List Char) :
    components '/' (Utf.encode text) = (components '/' text).map Utf.encode := by
  have hslash : Utf.bytesOf '/' = ['/'] := rfl
  have hother : ∀ c, c ≠ '/' → '/' ∉ Utf.bytesOf c ∧ Utf.bytesOf c ≠ [] := fun c hc ↦
    ⟨fun hmem ↦ hc ((Utf.mem_bytesOf_iff (by decide)).mp hmem), Utf.bytesOf_ne_nil c⟩
  exact components_flatMap hslash hother text

/-- The components of the result are those of the arguments as they come back. -/
theorem components_pathJoin (args : List JsString) :
    components slashUnit (pathJoin v8 args)
      = args.flatMap fun arg ↦ components slashUnit (Utf.units (carried v8 arg)) := by
  obtain ⟨text, hnul, htext⟩ := @plainText_joinStrings_map v8 args
  have hcomponents : components '/' text
      = args.flatMap fun arg ↦ components '/' (carried v8 arg) := by
    refine List.map_injective_iff.mpr Utf.encode_injective ?_
    rw [← components_encode, ← htext, components_joinStrings, List.flatMap_map, List.map_flatMap]
    simp only [v8ValueToString_eq, components_encode, carried]
  rw [pathJoin, htext, stringToV8String_encode hnul, components_units, hcomponents,
    List.map_flatMap]
  simp only [components_units]

/-- A component that a script can pass in and get back. -/
def Returns (s : JsString) : Prop := 0 ∉ s ∧ Utf.WellFormed s

/-- The text of an argument has none but such components. -/
theorem returns_of_mem_components {component : JsString}
    (h : component ∈ components slashUnit (Utf.units (carried v8 arg))) : Returns component := by
  rw [components_units] at h
  obtain ⟨piece, hpiece, rfl⟩ := List.mem_map.mp h
  refine ⟨fun hzero ↦ ?_, Utf.wellFormed_units piece⟩
  have hmem : '\x00' ∈ (components '/' (carried v8 arg)).flatten :=
    List.mem_flatten.mpr ⟨piece, hpiece, (Utf.zero_mem_units_iff piece).mp hzero⟩
  rw [flatten_components] at hmem
  exact nul_not_mem_cString _ (List.mem_of_mem_filter hmem)

/-- An argument returns if its components do: a slash is no part of a pair, and no NUL. -/
theorem returns_of_components (h : ∀ component ∈ components slashUnit arg, Returns component) :
    Returns arg := by
  induction arg using split_induction slashUnit with
  | whole s hslash =>
    by_cases hs : s = []
    · rw [hs]
      exact ⟨List.not_mem_nil, rfl⟩
    · exact h s (by rw [components_of_not_mem hslash hs]; exact List.mem_singleton_self s)
  | split s t hs ht =>
    rw [components_append_cons] at h
    obtain ⟨hzero, hwell⟩ := hs fun c hc ↦ h c (List.mem_append_left _ hc)
    obtain ⟨hzero', hwell'⟩ := ht fun c hc ↦ h c (List.mem_append_right _ hc)
    have hslash : (0 : UInt16) ≠ slashUnit := by decide
    exact ⟨by simp [hzero, hzero', hslash], hwell.append_cons hwell' (c := '/') (by decide)⟩

/-- An argument that returns comes back as it was. -/
theorem units_carried (h : Returns arg) : Utf.units (carried v8 arg) = arg := by
  rw [carried, cString_of_not_mem ((nul_mem_repaired_iff h.2).not.mpr h.1), h.2.repaired_eq]
  exact h.2

/-- Which arguments come back. -/
theorem components_pathJoin_eq_iff_forall : components slashUnit (pathJoin v8 args)
      = args.flatMap (components slashUnit) ↔ ∀ arg ∈ args, 0 ∉ arg ∧ Utf.WellFormed arg := by
  rw [components_pathJoin]
  constructor
  · -- The components on the left return, so those of every argument do.
    intro h arg harg
    refine returns_of_components fun component hcomponent ↦ ?_
    have hmem : component ∈ args.flatMap (components slashUnit) :=
      List.mem_flatMap.mpr ⟨arg, harg, hcomponent⟩
    rw [← h] at hmem
    obtain ⟨arg', -, hmem⟩ := List.mem_flatMap.mp hmem
    exact returns_of_mem_components hmem
  · intro h
    refine List.flatMap_congr fun arg harg ↦ ?_
    rw [units_carried (h arg harg)]

/-- **Joining paths.** The components of the result are those of the arguments exactly if no
argument has a NUL or a surrogate without its partner, and some of the arguments may always be
joined first. -/
theorem components_pathJoin_eq_iff (v8 : Transcoding) :
    (∀ args : List JsString,
        components slashUnit (pathJoin v8 args) = args.flatMap (components slashUnit) ↔
          ∀ arg ∈ args, 0 ∉ arg ∧ Utf.WellFormed arg) ∧
      ∀ (xs : List JsString) (y : JsString) (ys zs : List JsString),
        pathJoin v8 (xs ++ pathJoin v8 (y :: ys) :: zs) = pathJoin v8 (xs ++ y :: ys ++ zs) :=
  ⟨fun _ ↦ components_pathJoin_eq_iff_forall, pathJoin_group⟩

/-- A file name with a NUL. -/
def nulPath : JsString := Utf.units "lib\x00/v8".toList

/-- It loses what stands behind the NUL, and with it a component. -/
theorem pathJoin_nulPath :
    (∀ v8, pathJoin v8 [nulPath] = Utf.units "lib".toList) ∧
      ¬∀ v8 (args : List JsString),
        components slashUnit (pathJoin v8 args) = args.flatMap (components slashUnit) := by
  constructor
  · intro v8
    have hjoin : pathJoin v8 [nulPath]
        = stringToV8String v8 (v8ValueToString v8 nulPath) := rfl
    rw [hjoin, stringToV8String_v8ValueToString, nulPath, Utf.repaired_units]
    rfl
  · intro h
    obtain ⟨hzero, -⟩ := components_pathJoin_eq_iff_forall.mp (h asciiTranscoding [nulPath])
      nulPath List.mem_cons_self
    exact hzero ((Utf.zero_mem_units_iff _).mpr (by decide))

end SlimTS
