import SlimTS.Common.MemoryMapperRefinement
import SlimTS.Module.NullRead
import SlimTS.Plugin.Strings

/-!
# Scripts and the store

`memoryAdaptor.write` and `memoryAdaptor.read`. The two names and the content of a write come from
JavaScript strings and end at their first NUL. So a content with a NUL in it comes back without
what stands behind that, and two pairs of names that are the same up to their first NUL, with
surrogates that have no partner taken for the replacement character, are names of one entry.

`scriptWrites_readBack_iff` says that these two are the only ways to lose what was written: every
read returns what was last written under its names, in every state of a run of writes, if and only
if no content holds a NUL and no write puts another content in an entry under other names.
-/

namespace SlimTS

/-- A call of `memoryAdaptor.write` by a script. -/
structure ScriptWrite where
  slotHandle : JsString
  contentName : JsString
  contentData : JsString
  contentData_wellFormed : Utf.WellFormed contentData

/-- `memoryAdaptor.write`. -/
def memoryAdaptorWrite (v8 : Transcoding) (store : Store)
    (slotHandle contentName contentData : JsString) : Store :=
  store.write (v8ValueToString v8 slotHandle) (v8ValueToString v8 contentName)
    (.pointer (v8ValueToString v8 contentData))

/-- What a script gets from `memoryAdaptor.read` of two strings, if it gets a text. -/
def scriptRead (v8 : Transcoding) (store : Store) (slotHandle contentName : JsString) :
    Option JsString :=
  match memoryAdaptorRead store
    [v8ValueToString v8 slotHandle, v8ValueToString v8 contentName] with
  | .ok (.text text) => some (stringToV8String v8 text)
  | _ => none

/-- The store, and what scripts have last written under which names. -/
structure WriteHistory where
  store : Store
  last : JsString → JsString → Option JsString

namespace WriteHistory

/-- Before any script writes. -/
def start (store : Store) : WriteHistory := ⟨store, fun _ _ ↦ none⟩

/-- One write. -/
def step (v8 : Transcoding) (s : WriteHistory) (w : ScriptWrite) : WriteHistory where
  store := memoryAdaptorWrite v8 s.store w.slotHandle w.contentName w.contentData
  last slotHandle contentName :=
    if slotHandle = w.slotHandle ∧ contentName = w.contentName then some w.contentData
    else s.last slotHandle contentName

/-- Every read of names that have been written under returns what was last written there. -/
def ReadsBack (v8 : Transcoding) (s : WriteHistory) : Prop :=
  ∀ slotHandle contentName contentData, s.last slotHandle contentName = some contentData →
    scriptRead v8 s.store slotHandle contentName = some contentData

/-- A write does not cut its content, and puts no other content in an entry that has been written
under other names. -/
def KeepsEntries (v8 : Transcoding) (s : WriteHistory) (w : ScriptWrite) : Prop :=
  0 ∉ w.contentData ∧
    ∀ slotHandle contentName contentData, s.last slotHandle contentName = some contentData →
      v8ValueToString v8 slotHandle = v8ValueToString v8 w.slotHandle →
      v8ValueToString v8 contentName = v8ValueToString v8 w.contentName →
      slotHandle = w.slotHandle ∧ contentName = w.contentName ∨ contentData = w.contentData

variable {v8 : Transcoding} {s : WriteHistory} {w : ScriptWrite} {owner : ℕ → Str}

/-! ## One write -/

/-- A script reads the entry of the store. -/
theorem scriptRead_eq (store : Store) (slotHandle contentName : JsString) :
    scriptRead v8 store slotHandle contentName
      = (store.read (v8ValueToString v8 slotHandle) (v8ValueToString v8 contentName)).map
          (stringToV8String v8) := by
  have hread : memoryAdaptorRead store
      [v8ValueToString v8 slotHandle, v8ValueToString v8 contentName]
        = (dereference (store.read (v8ValueToString v8 slotHandle)
          (v8ValueToString v8 contentName))).map .text := rfl
  rw [scriptRead, hread]
  cases store.read (v8ValueToString v8 slotHandle) (v8ValueToString v8 contentName) <;> rfl

/-- Under the names it is given, and under all that become the same, a write leaves its content up
to the first NUL. -/
theorem scriptRead_step {slotHandle contentName : JsString}
    (hslot : v8ValueToString v8 slotHandle = v8ValueToString v8 w.slotHandle)
    (hname : v8ValueToString v8 contentName = v8ValueToString v8 w.contentName) :
    scriptRead v8 (s.step v8 w).store slotHandle contentName
      = some (stringToV8String v8 (v8ValueToString v8 w.contentData)) := by
  rw [scriptRead_eq, hslot, hname, step, memoryAdaptorWrite, Store.read_write]
  rfl

/-- Under others it changes nothing. -/
theorem scriptRead_step_of_ne (hs : Store.Separate owner s.store)
    {slotHandle contentName : JsString}
    (hne : ¬(v8ValueToString v8 slotHandle = v8ValueToString v8 w.slotHandle ∧
      v8ValueToString v8 contentName = v8ValueToString v8 w.contentName)) :
    scriptRead v8 (s.step v8 w).store slotHandle contentName
      = scriptRead v8 s.store slotHandle contentName := by
  have hothers := Store.leavesOthers_step hs (.write (v8ValueToString v8 w.slotHandle)
    (v8ValueToString v8 w.contentName) (.pointer (v8ValueToString v8 w.contentData)))
  rw [scriptRead_eq, scriptRead_eq]
  congr 1
  by_cases hslot : v8ValueToString v8 slotHandle = v8ValueToString v8 w.slotHandle
  · rw [hslot]
    exact (hothers.otherFiles _ _ _ rfl _ fun hname ↦ hne ⟨hslot, hname⟩).2.1
  · exact hothers.read _ hslot _

theorem separate_step (hs : Store.Separate owner s.store) (w : ScriptWrite) :
    Store.Separate owner (s.step v8 w).store :=
  @Store.Separate.step _ _ hs (.write (v8ValueToString v8 w.slotHandle)
    (v8ValueToString v8 w.contentName) (.pointer (v8ValueToString v8 w.contentData))) trivial

/-- **One write** leaves every entry with what was last written there if and only if it keeps the
entries. -/
theorem readsBack_step_iff (hs : Store.Separate owner s.store) (h : ReadsBack v8 s)
    (w : ScriptWrite) : ReadsBack v8 (s.step v8 w) ↔ KeepsEntries v8 s w := by
  have hlast : (s.step v8 w).last w.slotHandle w.contentName = some w.contentData :=
    if_pos ⟨rfl, rfl⟩
  have hcut := @stringToV8String_v8ValueToString_eq_iff v8 _ w.contentData_wellFormed
  constructor
  · -- Asking for the entry just written gives the content up to its first NUL.
    intro hback
    have hcontent := hback _ _ _ hlast
    rw [scriptRead_step rfl rfl, Option.some_inj] at hcontent
    refine ⟨hcut.mp hcontent, fun slotHandle contentName contentData hwritten hslot hname ↦ ?_⟩
    by_cases hsame : slotHandle = w.slotHandle ∧ contentName = w.contentName
    · exact .inl hsame
    · have hread := hback slotHandle contentName contentData ((if_neg hsame).trans hwritten)
      rw [scriptRead_step hslot hname, Option.some_inj, hcontent] at hread
      exact .inr hread.symm
  · rintro ⟨hnul, hothers⟩ slotHandle contentName contentData hwritten
    rw [step] at hwritten
    simp only at hwritten
    split at hwritten
    · next hsame =>
      obtain ⟨rfl, rfl⟩ := hsame
      rw [scriptRead_step rfl rfl, hcut.mpr hnul]
      exact hwritten
    · next hother =>
      by_cases hentry : v8ValueToString v8 slotHandle = v8ValueToString v8 w.slotHandle ∧
          v8ValueToString v8 contentName = v8ValueToString v8 w.contentName
      · have heq := (hothers _ _ _ hwritten hentry.1 hentry.2).resolve_left hother
        rw [scriptRead_step hentry.1 hentry.2, hcut.mpr hnul, heq]
      · rw [scriptRead_step_of_ne hs hentry]
        exact h _ _ _ hwritten

/-! ## Runs of writes -/

/-- **When scripts read back what they write.** From every store the program reaches, every read
returns the string that was last written under its names, in every state of a run of writes, if and
only if every write of the run keeps the entries. -/
theorem scriptWrites_readBack_iff (v8 : Transcoding) {containers : ℕ → MapContainer}
    {ops : List StoreOp} (hops : ∀ op ∈ ops, op.AttachesOwned owner) (writes : List ScriptWrite) :
    (∀ before, before <+: writes →
        ReadsBack v8 (before.foldl (step v8) (start (Store.run containers ops)))) ↔
      Simulation.Meets (step v8) (KeepsEntries v8) (start (Store.run containers ops)) writes :=
  Simulation.forall_prefix_iff_meets (J := fun s : WriteHistory ↦ Store.Separate owner s.store)
    (fun _ w hs ↦ separate_step hs w) (fun _ w hs h ↦ readsBack_step_iff hs h w)
    (Store.separate_run hops) fun _ _ _ h ↦ absurd h (by simp [start])

/-- A write with a NUL in the middle of its content. -/
def nulWrite : ScriptWrite where
  slotHandle := Utf.units "m".toList
  contentName := Utf.units "n".toList
  contentData := Utf.units "a\x00b".toList
  contentData_wellFormed := Utf.wellFormed_units _

/-- It is not read back. -/
theorem scriptRead_nulWrite :
    scriptRead asciiTranscoding
        ((start (Store.run (fun _ ↦ ∅) [])).step asciiTranscoding nulWrite).store
        nulWrite.slotHandle nulWrite.contentName = some (Utf.units "a".toList) ∧
      nulWrite.contentData ≠ Utf.units "a".toList := by
  refine ⟨?_, by decide⟩
  rw [scriptRead_step rfl rfl, stringToV8String_v8ValueToString, nulWrite]
  simp only [Utf.repaired_units]
  rfl

/-- Scripts that write after the launcher, two contents under one pair of names. -/
theorem scriptWrites_readBack_iff_launcherOps :
    (∀ before, before <+: [nulWrite, nulWrite] →
        ReadsBack asciiTranscoding (before.foldl (step asciiTranscoding)
          (start (Store.run (fun _ ↦ ∅) Store.launcherOps)))) ↔
      Simulation.Meets (step asciiTranscoding) (KeepsEntries asciiTranscoding)
        (start (Store.run (fun _ ↦ ∅) Store.launcherOps)) [nulWrite, nulWrite] :=
  @scriptWrites_readBack_iff (fun _ ↦ "typescript_library".toList) _ _ _
    (by simp [Store.launcherOps, StoreOp.AttachesOwned]) _

end WriteHistory

end SlimTS
