import Mathlib.Data.List.AList
import SlimTS.Common.Basic
import SlimTS.Library.Transition

/-!
# The table of open files

`fs.open` and `fs.close` of the file system plugin. Three states move together: the table
`open_files` of the plugin, the streams of the C library, and the descriptors of the kernel. What
the operating system answers is in the calls: `fopen` gets a descriptor that is not in use, or it
fails. The order in which a call of `close` meets the entries of the table is in the call too. A
call that closes a stream which is not open is undefined, and a run ends there.

`close` closes the descriptor and the stream and leaves the entry as it was. The entry then names a
descriptor that is closed, the next `open` of the file answers with it, and when the number is used
again two files share it. So the table is true to the kernel as long as no recorded handle is
closed, and an `open` of a recorded file is right when it asks for the mode the file is open in:
`tracks_of_run` says so of runs, and that no other call keeps the table true.
-/

namespace SlimTS

/-- The modes the plugin opens files in. -/
inductive FileMode
  | r
  | w
deriving DecidableEq, Repr

/-- What a descriptor is open on. -/
structure Description where
  file : Str
  mode : FileMode
deriving DecidableEq, Repr

/-- A stream of the C library, by the order of `fopen` calls. -/
abbrev StreamId := ℕ

/-- `FileInfo`. -/
structure FileInfo where
  filePointer : Option StreamId := none
  fileHandle : ℤ := -1
  fileName : Str := []
deriving DecidableEq, Repr

/-- The plugin's table, the streams and the descriptors. -/
structure FsState where
  /-- `open_files`. -/
  openFiles : AList fun _ : Str ↦ FileInfo
  /-- The descriptors of the streams that are open. -/
  streams : StreamId → Option ℕ
  /-- How many streams have been opened. -/
  opened : ℕ
  /-- The descriptors that are open. -/
  descriptors : ℕ → Option Description

/-- What a call gives back to the script. -/
inductive FsResult
  | handle (n : ℤ)
  /-- An error is thrown to V8. -/
  | error (text : Str)
  /-- A C++ exception leaves the plugin. -/
  | thrown (text : Str)
  | true
  | undefined
deriving DecidableEq, Repr

/-- A call, with what the operating system and the order of the table contribute. -/
inductive FsCall
  /-- `open`, and the descriptor `fopen` gets if it is called. -/
  | openFile (fileName : Str) (mode : ℤ) (answer : Option ℕ)
  /-- `close`, and the entry with the handle that is met first. -/
  | closeFile (fileHandle : ℤ) (entry : Option Str)

namespace FsState

/-- The plugin at its start, in a process that has some descriptors open. -/
def start (descriptors : ℕ → Option Description) : FsState := ⟨∅, fun _ ↦ none, 0, descriptors⟩

/-- The `switch` over the mode. -/
def modeString (mode : ℤ) : Option FileMode :=
  if mode = 0 then some .r else if mode = 1 then some .w else none

variable (s : FsState)

/-- `open_files[fileName]`, which makes the entry if there is none. -/
def entry (fileName : Str) : FileInfo := (s.openFiles.lookup fileName).getD {}

/-- The call of `fopen`: the stream and the descriptor are open from now on. -/
def fopen (fileName : Str) (mode : FileMode) (d : ℕ) : FsState :=
  { s with
    streams := Function.update s.streams s.opened (some d)
    opened := s.opened + 1
    descriptors := Function.update s.descriptors d (some ⟨fileName, mode⟩) }

/-- The entry of a file is set. -/
def setEntry (fileName : Str) (info : FileInfo) : FsState :=
  { s with openFiles := s.openFiles.insert fileName info }

/-- What `open` says when `fopen` fails. -/
def unableToOpen : Str := "unable to open file => ".toList

/-- What is thrown for a mode the plugin does not know. -/
def unhandledMode : Str := "unhandled file mode".toList

/-- `_open`. `fopen` gets a descriptor that is not in use. -/
def fsOpen (fileName : Str) (mode : ℤ) (answer : Option ℕ) : Option (FsState × FsResult) :=
  match modeString mode with
  -- The mode is looked at first, also for a file that is open.
  | none => some (s, .thrown unhandledMode)
  | some mode =>
    if (s.entry fileName).fileHandle = -1 then
      match answer with
      | none => some (s.setEntry fileName ⟨none, -1, fileName⟩, .error (unableToOpen ++ fileName))
      | some d =>
        if s.descriptors d = none then
          some ((s.fopen fileName mode d).setEntry fileName ⟨some s.opened, d, fileName⟩, .handle d)
        else none
    -- The handle there is, in whatever mode it was opened.
    else some (s, .handle (s.entry fileName).fileHandle)

/-- `close`, of a descriptor. It does nothing to a number that is none. -/
def closeDescriptor (d : ℤ) : FsState :=
  if 0 ≤ d then { s with descriptors := Function.update s.descriptors d.toNat none } else s

/-- `fclose`. It closes the stream and its descriptor, and is undefined for anything but an open
stream. -/
def fclose (filePointer : Option StreamId) : Option FsState :=
  filePointer.bind fun k ↦ (s.streams k).map fun d : ℕ ↦
    { s.closeDescriptor (d : ℤ) with streams := Function.update s.streams k none }

/-- `_close`. -/
def fsClose (fileHandle : ℤ) (entry : Option Str) : Option (FsState × FsResult) :=
  match entry with
  | none =>
    if ∀ e ∈ s.openFiles.entries, e.2.fileHandle ≠ fileHandle then some (s, .undefined) else none
  | some fileName =>
    (s.openFiles.lookup fileName).bind fun info ↦
      if info.fileHandle = fileHandle then
        -- The descriptor is closed twice, and the entry stays in the table.
        ((s.closeDescriptor fileHandle).fclose info.filePointer).map fun s' ↦ (s', .true)
      else none

/-- A call and its result. -/
def call : FsCall → Option (FsState × FsResult)
  | .openFile fileName mode answer => s.fsOpen fileName mode answer
  | .closeFile fileHandle entry => s.fsClose fileHandle entry

/-- A call, as a step. -/
def step (c : FsCall) : Option FsState := (s.call c).map Prod.fst

/-! ## What the table should say -/

/-- Every entry with a handle names a descriptor that is open on its file. -/
def Tracks : Prop :=
  ∀ fileName info, s.openFiles.lookup fileName = some info → info.fileHandle ≠ -1 →
    ∃ d : ℕ, info.fileHandle = d ∧ ∃ mode, s.descriptors d = some ⟨fileName, mode⟩

/-- No two entries share a handle. -/
def Unshared : Prop :=
  ∀ fileName fileName' info info', s.openFiles.lookup fileName = some info →
    s.openFiles.lookup fileName' = some info' → info.fileHandle ≠ -1 →
      info.fileHandle = info'.fileHandle → fileName = fileName'

/-- A successful `open` answers with a descriptor that is open on the file in the mode. -/
def Answers : FsCall → FsResult → Prop
  | .openFile fileName mode _, .handle n => ∃ d : ℕ, n = d ∧ ∃ m, modeString mode = some m ∧
      s.descriptors d = some ⟨fileName, m⟩
  | _, _ => True

/-- The calls that keep the table true: `close` of a handle the table does not hold, and `open` of a
file that has no handle, or whose handle is open in the mode. -/
def Respects : FsCall → Prop
  | .openFile fileName mode _ => (s.entry fileName).fileHandle ≠ -1 → modeString mode ≠ none →
      (s.descriptors (s.entry fileName).fileHandle.toNat).map Description.mode = modeString mode
  | .closeFile fileHandle _ => ∀ e ∈ s.openFiles.entries, e.2.fileHandle ≠ fileHandle

instance (s : FsState) : ∀ c, Decidable (s.Respects c)
  | .openFile fileName mode _ => inferInstanceAs (Decidable ((s.entry fileName).fileHandle ≠ -1 →
      modeString mode ≠ none →
      (s.descriptors (s.entry fileName).fileHandle.toNat).map Description.mode = modeString mode))
  | .closeFile fileHandle _ =>
    inferInstanceAs (Decidable (∀ e ∈ s.openFiles.entries, e.2.fileHandle ≠ fileHandle))

variable {s} {c : FsCall} {s' : FsState} {result : FsResult}

/-- Two entries with one handle would be open on one file. -/
theorem Tracks.unshared (h : s.Tracks) : s.Unshared := by
  intro fileName fileName' info info' hlookup hlookup' hne hsame
  obtain ⟨d, hd, mode, hopen⟩ := h fileName info hlookup hne
  obtain ⟨d', hd', mode', hopen'⟩ := h fileName' info' hlookup' (hsame ▸ hne)
  have hdd : d = d' := by exact_mod_cast hd.symm.trans (hsame.trans hd')
  rw [hdd, hopen', Option.some_inj] at hopen
  exact (congrArg Description.file hopen).symm

/-- An entry with a handle is in the table. -/
theorem lookup_of_entry {fileName : Str} (h : (s.entry fileName).fileHandle ≠ -1) :
    s.openFiles.lookup fileName = some (s.entry fileName) := by
  rw [entry] at h ⊢
  cases hlookup : s.openFiles.lookup fileName with
  | none =>
    rw [hlookup] at h
    exact absurd rfl h
  | some info => rfl

/-! ## One call -/

/-- Setting an entry without a handle. -/
theorem Tracks.setEntry_closed (h : s.Tracks) {fileName : Str} {info : FileInfo}
    (hclosed : info.fileHandle = -1) : (s.setEntry fileName info).Tracks := by
  intro other info' hlookup hne
  rw [setEntry] at hlookup
  rcases lookup_insert_eq_some_iff.mp hlookup with ⟨-, rfl⟩ | ⟨-, hlookup⟩
  · exact absurd hclosed hne
  · exact h other info' hlookup hne

/-- Opening a file under a descriptor that was not in use. -/
theorem Tracks.fopen (h : s.Tracks) {fileName : Str} {mode : FileMode} {d : ℕ}
    (hfree : s.descriptors d = none) (k : Option StreamId) :
    ((s.fopen fileName mode d).setEntry fileName ⟨k, d, fileName⟩).Tracks := by
  intro other info hlookup hne
  rw [setEntry] at hlookup ⊢
  rcases lookup_insert_eq_some_iff.mp hlookup with ⟨rfl, rfl⟩ | ⟨-, hlookup⟩
  · exact ⟨d, rfl, mode, Function.update_self ..⟩
  · obtain ⟨d', hd', mode', hopen⟩ := h other info hlookup hne
    have hdd : d' ≠ d := by
      rintro rfl
      exact absurd (hopen.symm.trans hfree) (by simp)
    exact ⟨d', hd', mode', (Function.update_of_ne hdd ..).trans hopen⟩

/-- What a call does. -/
inductive Effect (s : FsState) : FsCall → FsState → FsResult → Prop
  | unhandled (fileName mode answer) : modeString mode = none →
      Effect s (.openFile fileName mode answer) s (.thrown unhandledMode)
  | failed (fileName mode m) : modeString mode = some m → (s.entry fileName).fileHandle = -1 →
      Effect s (.openFile fileName mode none) (s.setEntry fileName ⟨none, -1, fileName⟩)
        (.error (unableToOpen ++ fileName))
  | opened (fileName mode m d) : modeString mode = some m → (s.entry fileName).fileHandle = -1 →
      s.descriptors d = none →
      Effect s (.openFile fileName mode (some d))
        ((s.fopen fileName m d).setEntry fileName ⟨some s.opened, d, fileName⟩) (.handle d)
  | recorded (fileName mode m answer) : modeString mode = some m →
      (s.entry fileName).fileHandle ≠ -1 →
      Effect s (.openFile fileName mode answer) s (.handle (s.entry fileName).fileHandle)
  | absent (fileHandle) : (∀ e ∈ s.openFiles.entries, e.2.fileHandle ≠ fileHandle) →
      Effect s (.closeFile fileHandle none) s .undefined
  | closed (fileHandle fileName info s') : s.openFiles.lookup fileName = some info →
      info.fileHandle = fileHandle →
      (s.closeDescriptor fileHandle).fclose info.filePointer = some s' →
      Effect s (.closeFile fileHandle (some fileName)) s' .true

theorem effect_of_call (h : s.call c = some (s', result)) : Effect s c s' result := by
  cases c with
  | openFile fileName mode answer =>
    rw [call, fsOpen] at h
    rcases hmode : modeString mode with - | m
    · rw [hmode, Option.some_inj, Prod.mk.injEq] at h
      obtain ⟨rfl, rfl⟩ := h
      exact .unhandled _ _ _ hmode
    rw [hmode] at h
    by_cases hentry : (s.entry fileName).fileHandle = -1
    · cases answer with
      | none =>
        simp only [if_pos hentry, Option.some_inj, Prod.mk.injEq] at h
        obtain ⟨rfl, rfl⟩ := h
        exact .failed _ _ _ hmode hentry
      | some d =>
        simp only [if_pos hentry] at h
        rw [Option.ite_none_right_eq_some, Option.some_inj, Prod.mk.injEq] at h
        obtain ⟨hfree, rfl, rfl⟩ := h
        exact .opened _ _ _ _ hmode hentry hfree
    · simp only [if_neg hentry, Option.some_inj, Prod.mk.injEq] at h
      obtain ⟨rfl, rfl⟩ := h
      exact .recorded _ _ _ _ hmode hentry
  | closeFile fileHandle entry =>
    cases entry with
    | none =>
      rw [call, fsClose, Option.ite_none_right_eq_some, Option.some_inj, Prod.mk.injEq] at h
      obtain ⟨hnone, rfl, rfl⟩ := h
      exact .absent _ hnone
    | some fileName =>
      rw [call, fsClose] at h
      obtain ⟨info, hlookup, h⟩ := Option.bind_eq_some_iff.mp h
      rw [Option.ite_none_right_eq_some, Option.map_eq_some_iff] at h
      obtain ⟨hhandle, s'', hclose, heq⟩ := h
      rw [Prod.mk.injEq] at heq
      obtain ⟨rfl, rfl⟩ := heq
      exact .closed _ _ _ _ hlookup hhandle hclose

/-- Closing a stream leaves the table as it is, and opens no descriptor. -/
theorem fclose_spec {k : Option StreamId} (h : s.fclose k = some s') :
    s'.openFiles = s.openFiles ∧ ∀ d, s.descriptors d = none → s'.descriptors d = none := by
  obtain ⟨k, rfl, h⟩ := Option.bind_eq_some_iff.mp h
  obtain ⟨d, -, rfl⟩ := Option.map_eq_some_iff.mp h
  rw [closeDescriptor, if_pos (Int.natCast_nonneg d), Int.toNat_natCast]
  refine ⟨rfl, fun d' hd' ↦ ?_⟩
  simp only [Function.update_apply]
  split
  · rfl
  · exact hd'

/-- The table is true, and an entry without a handle has no stream either. -/
structure TableInv (s : FsState) : Prop where
  tracks : s.Tracks
  unopened : ∀ fileName info, s.openFiles.lookup fileName = some info → info.fileHandle = -1 →
    info.filePointer = none

/-- **`close` of a recorded handle** leaves the entry behind, on a descriptor that is closed. -/
theorem TableInv.not_tracks_of_closed (h : s.TableInv) {fileName : Str} {info : FileInfo}
    (hlookup : s.openFiles.lookup fileName = some info)
    (hclose : (s.closeDescriptor info.fileHandle).fclose info.filePointer = some s') :
    ¬s'.Tracks := by
  intro htracks
  have hne : info.fileHandle ≠ -1 := by
    intro hunopened
    rw [h.unopened fileName info hlookup hunopened] at hclose
    exact absurd hclose (by simp [fclose])
  obtain ⟨hfiles, hclosed⟩ := fclose_spec hclose
  obtain ⟨d, hd, -⟩ := h.tracks fileName info hlookup hne
  rw [hd, closeDescriptor, if_pos (Int.natCast_nonneg d), Int.toNat_natCast] at hfiles hclosed
  obtain ⟨d', hd', mode, hopen⟩ := htracks fileName info (hfiles ▸ hlookup) hne
  have hdd : d' = d := by exact_mod_cast hd'.symm.trans hd
  rw [hdd, hclosed d (Function.update_self ..)] at hopen
  exact absurd hopen (by simp)

/-- **One call** on a table that is true leaves it true and answers rightly exactly when it is one
of the calls that do. -/
theorem TableInv.call_iff (h : s.TableInv) (hcall : s.call c = some (s', result)) :
    s'.Tracks ∧ s'.Answers c result ↔ s.Respects c := by
  cases effect_of_call hcall with
  | unhandled fileName mode answer hmode =>
    exact ⟨fun _ _ hknown ↦ absurd hmode hknown, fun _ ↦ ⟨h.tracks, trivial⟩⟩
  | failed fileName mode m hmode hentry =>
    exact ⟨fun _ hne ↦ absurd hentry hne, fun _ ↦ ⟨h.tracks.setEntry_closed rfl, trivial⟩⟩
  | opened fileName mode m d hmode hentry hfree =>
    refine ⟨fun _ hne ↦ absurd hentry hne, fun _ ↦ ⟨h.tracks.fopen hfree _, d, rfl, m, hmode, ?_⟩⟩
    exact Function.update_self ..
  | recorded fileName mode m answer hmode hentry =>
    obtain ⟨d, hd, m', hopen⟩ := h.tracks fileName _ (lookup_of_entry hentry) hentry
    constructor
    · -- The descriptor that is returned again has the mode it was opened in.
      rintro ⟨-, d', hd', n, hn, hopen'⟩ - -
      rw [hd', Int.toNat_natCast, hopen', Option.map_some, hn]
    · intro hrespects
      have hm := hrespects hentry (by simp [hmode])
      rw [hd, Int.toNat_natCast, hopen, Option.map_some, hmode, Option.some_inj] at hm
      refine ⟨h.tracks, d, hd, m, hmode, ?_⟩
      rw [hopen, ← hm]
  | absent fileHandle hnone => exact ⟨fun _ ↦ hnone, fun _ ↦ ⟨h.tracks, trivial⟩⟩
  | closed fileHandle fileName info s' hlookup hhandle hclose =>
    -- The entry stays when its descriptor is closed, so the table does not track it.
    rw [← hhandle] at hclose
    refine ⟨fun hgood ↦ absurd hgood.1 (h.not_tracks_of_closed hlookup hclose),
      fun hrespects ↦ ?_⟩
    have hmem : ⟨fileName, info⟩ ∈ s.openFiles.entries := AList.mem_lookup_iff.mp hlookup
    exact absurd hhandle (hrespects _ hmem)

/-- What a call that keeps the table true preserves. -/
theorem TableInv.step (h : s.TableInv) (hrespects : s.Respects c) (hstep : s.step c = some s') :
    s'.TableInv := by
  obtain ⟨⟨s', result⟩, hcall, rfl⟩ := Option.map_eq_some_iff.mp hstep
  refine ⟨((h.call_iff hcall).mpr hrespects).1, ?_⟩
  have hset : ∀ fileName info, (info.fileHandle = -1 → info.filePointer = none) →
      ∀ other info', (s.openFiles.insert fileName info).lookup other = some info' →
        info'.fileHandle = -1 → info'.filePointer = none := by
    intro fileName info hinfo other info' hlookup
    rcases lookup_insert_eq_some_iff.mp hlookup with ⟨-, rfl⟩ | ⟨-, hlookup⟩
    · exact hinfo
    · exact h.unopened other info' hlookup
  cases effect_of_call hcall with
  | unhandled | recorded | absent => exact h.unopened
  | failed fileName => exact hset fileName _ fun _ ↦ rfl
  | opened fileName mode m d => exact hset fileName _ fun hd ↦ absurd hd (by simp)
  | closed fileHandle fileName info s' hlookup hhandle =>
    have hmem : ⟨fileName, info⟩ ∈ s.openFiles.entries := AList.mem_lookup_iff.mp hlookup
    exact absurd hhandle (hrespects _ hmem)

/-! ## Whole runs -/

theorem tableInv_start (descriptors : ℕ → Option Description) : (start descriptors).TableInv :=
  ⟨fun _ _ hlookup ↦ absurd hlookup (by simp [start]),
    fun _ _ hlookup ↦ absurd hlookup (by simp [start])⟩

/-- **The table is true** in every run of calls that keep it true: every entry with a handle names a
descriptor that is open on its file, and no two entries share one. The next call leaves it true and
answers rightly exactly when it is such a call too. -/
theorem tracks_of_run {descriptors : ℕ → Option Description} {calls : List FsCall}
    (hrun : Transition.runFrom step (start descriptors) calls = some s)
    (hmeets : Transition.Meets step Respects (start descriptors) calls) :
    s.Tracks ∧ s.Unshared ∧ ∀ c s' result, s.call c = some (s', result) →
      (s'.Tracks ∧ s'.Answers c result ↔ s.Respects c) := by
  have hinv : s.TableInv := Transition.invariant_of_meets
    (fun _ _ _ hI hC hstep ↦ hI.step hC hstep) (tableInv_start descriptors) hmeets hrun
  exact ⟨hinv.tracks, hinv.tracks.unshared, fun c s' result hcall ↦ hinv.call_iff hcall⟩

/-- Two files are opened, one of them twice, and a handle nobody has is closed. -/
def openingRun : List FsCall :=
  [.openFile "a".toList 0 (some 3), .openFile "a".toList 0 none, .closeFile 7 none,
    .openFile "b".toList 1 (some 4)]

theorem tracks_of_run_openingRun : ∃ s,
    Transition.runFrom step (start fun _ ↦ none) openingRun = some s ∧ s.Tracks ∧ s.Unshared ∧
      ∀ c s' result, s.call c = some (s', result) →
        (s'.Tracks ∧ s'.Answers c result ↔ s.Respects c) :=
  ⟨_, rfl, @tracks_of_run _ (fun _ ↦ none) openingRun rfl (by decide)⟩

/-- One file is closed and another opened: the two share the descriptor. -/
theorem not_unshared_reuse : ¬∀ (calls : List FsCall) (s : FsState),
    Transition.runFrom step (start fun _ ↦ none) calls = some s → s.Tracks ∧ s.Unshared := by
  intro h
  obtain ⟨-, hunshared⟩ := h
    [.openFile "a".toList 0 (some 3), .closeFile 3 (some "a".toList),
      .openFile "b".toList 0 (some 3)] _ rfl
  exact absurd (hunshared "a".toList "b".toList _ _ rfl rfl (by decide) rfl) (by decide)

end FsState

end SlimTS
