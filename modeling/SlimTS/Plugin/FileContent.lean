import SlimTS.Library.Simulation
import SlimTS.Module.ImportSpecifier
import SlimTS.Plugin.Strings

/-!
# Files that are written and read by scripts

`fs.writeFileSync` opens the file under the name it is given. `fs.readFileSync` and
`fs.readFileUtf8` go through `fetch::string`, which opens it under the name without a `file://` in
front. `fetch::string` reads the stream it gets from `fetch::stream` by one character and returns
the empty string whatever the file holds. So what is read back is what was written only if that was
empty, and if the name leads to a file that can be opened once the prefix is off.

The files are what the operating system shows of them: where a name leads to, if the program may
open it, and what is there.
-/

namespace SlimTS

/-- The files. One that does not exist holds nothing. -/
structure Files where
  /-- The file a name leads to, if the program may open it. -/
  locate : Str → Option ℕ
  contents : ℕ → Option Str

namespace Files

variable (fs : Files)

/-- What a `std::ifstream` reads, if it opens. -/
def readFile (fileName : Str) : Option Str := (fs.locate fileName).bind fs.contents

/-- What a `std::ofstream` leaves: the file with the text and nothing else, if it opens. -/
def writeFile (fileName text : Str) : Files :=
  match fs.locate fileName with
  | none => fs
  | some file => { fs with contents := Function.update fs.contents file (some text) }

/-- `input_file_name` of `fetch::stream`. -/
def inputFileName (fileName : Str) : Str :=
  if "file://".toList.isPrefixOf fileName then fileName.drop 7 else fileName

/-- `fetch::stream`. -/
def fetchStream (fileName : Str) : Except Fault Str :=
  match fs.readFile (inputFileName fileName) with
  | none => .error (.slimFileException fileName)
  | some text => .ok text

/-- `fetch::string`. The text of the stream is not handed on. -/
def fetchString (fileName : Str) : Except Fault Str := do
  let _ ← fs.fetchStream fileName
  return []

/-- `write_file_sync`. -/
def writeFileSync (v8 : Transcoding) (fileName content : JsString) : Files :=
  fs.writeFile (v8ValueToString v8 fileName) (v8ValueToString v8 content)

/-- What the two readers do with the name. -/
def readWhole (v8 : Transcoding) (fileName : JsString) : Except Fault JsString :=
  (fs.fetchString (v8ValueToString v8 fileName)).map (stringToV8String v8)

/-- `readFileUtf8`. -/
def readFileUtf8 (v8 : Transcoding) (fileName : JsString) : Except Fault JsString :=
  fs.readWhole v8 fileName

/-- `read_file_sync`. -/
def readFileSync (v8 : Transcoding) (fileName : JsString) : Except Fault JsString :=
  fs.readWhole v8 fileName

/-- It is the stream the imports are read from. -/
theorem fetchStream_eq (env : Environment) (h : env.readFile = fs.readFile) (fileName : Str) :
    env.fetchStream fileName = fs.fetchStream fileName := by
  rw [Environment.fetchStream, h]
  rfl

end Files

/-- A call of `fs.writeFileSync` by a script. -/
structure FileWrite where
  fileName : JsString
  content : JsString
  nul_not_mem : 0 ∉ content

/-- The files, the names scripts have written under, and what they have last written to a file. -/
structure FileHistory where
  files : Files
  names : List JsString
  last : ℕ → Option JsString

namespace FileHistory

/-- Before any script writes. -/
def start (files : Files) : FileHistory := ⟨files, [], fun _ ↦ none⟩

/-- One write. -/
def step (v8 : Transcoding) (s : FileHistory) (w : FileWrite) : FileHistory where
  files := s.files.writeFileSync v8 w.fileName w.content
  names := w.fileName :: s.names
  last :=
    match s.files.locate (v8ValueToString v8 w.fileName) with
    | none => s.last
    | some file => Function.update s.last file (some w.content)

/-- Both readers return, under every name that has been written under, what was last written to the
file. -/
def ReadsBack (v8 : Transcoding) (s : FileHistory) : Prop :=
  ∀ fileName ∈ s.names, ∀ file content,
    s.files.locate (v8ValueToString v8 fileName) = some file → s.last file = some content →
    s.files.readFileSync v8 fileName = .ok content ∧
      s.files.readFileUtf8 v8 fileName = .ok content

/-- A write that opens a file writes nothing to it, and its name without the prefix leads to that
file or to one that exists. -/
def WritesNothing (v8 : Transcoding) (s : FileHistory) (w : FileWrite) : Prop :=
  ∀ file, s.files.locate (v8ValueToString v8 w.fileName) = some file →
    w.content = [] ∧
      ∃ target,
        s.files.locate (Files.inputFileName (v8ValueToString v8 w.fileName)) = some target ∧
          (target = file ∨ (s.files.contents target).isSome)

/-- Files that have been opened under a name of the history have been written to. -/
def Recorded (v8 : Transcoding) (s : FileHistory) : Prop :=
  ∀ fileName ∈ s.names, ∀ file, s.files.locate (v8ValueToString v8 fileName) = some file →
    (s.last file).isSome

variable {v8 : Transcoding} {s : FileHistory} {w : FileWrite} {fileName : JsString}
  {content : JsString} {file : ℕ}

/-! ## One read -/

/-- A reader returns the empty string if the file opens, and nothing else ever. -/
theorem readWhole_eq_ok_iff (fs : Files) :
    fs.readWhole v8 fileName = .ok content ↔
      content = [] ∧ (fs.readFile (Files.inputFileName (v8ValueToString v8 fileName))).isSome := by
  have hempty : stringToV8String v8 [] = [] :=
    @stringToV8String_encode v8 [] List.not_mem_nil
  rw [Files.readWhole, Files.fetchString, Files.fetchStream]
  cases fs.readFile (Files.inputFileName (v8ValueToString v8 fileName)) with
  | none => exact iff_of_false (fun h ↦ by cases h) fun h ↦ absurd h.2 (by simp)
  | some text =>
    have hread : Except.map (stringToV8String v8) (do
        let _ ← (Except.ok text : Except Fault Str)
        return []) = .ok [] := congrArg Except.ok hempty
    simp only
    rw [hread, Except.ok.injEq, Option.isSome_some]
    exact eq_comm.trans (and_iff_left rfl).symm

theorem readsBack_iff_of_names : ReadsBack v8 s ↔ ∀ fileName ∈ s.names, ∀ file content,
    s.files.locate (v8ValueToString v8 fileName) = some file → s.last file = some content →
    content = [] ∧
      (s.files.readFile (Files.inputFileName (v8ValueToString v8 fileName))).isSome := by
  simp only [ReadsBack, Files.readFileSync, Files.readFileUtf8, readWhole_eq_ok_iff, and_self]

/-! ## One write -/

/-- A write that does not open its file changes nothing. -/
theorem step_of_locate_none (h : s.files.locate (v8ValueToString v8 w.fileName) = none) :
    s.step v8 w = { s with names := w.fileName :: s.names } := by
  rw [step, Files.writeFileSync, Files.writeFile, h]

/-- One that does sets what the file holds. -/
theorem step_of_locate (h : s.files.locate (v8ValueToString v8 w.fileName) = some file) :
    s.step v8 w = {
      files :=
        { s.files with
          contents :=
            Function.update s.files.contents file (some (v8ValueToString v8 w.content)) }
      names := w.fileName :: s.names
      last := Function.update s.last file (some w.content) } := by
  rw [step, Files.writeFileSync, Files.writeFile, h]

theorem locate_step (s : FileHistory) (w : FileWrite) :
    (s.step v8 w).files.locate = s.files.locate := by
  rcases hlocate : s.files.locate (v8ValueToString v8 w.fileName) with - | file
  · rw [step_of_locate_none hlocate]
  · rw [step_of_locate hlocate]

/-- After a write to a file, the names that open are those that lead to it or to one that was there
before. -/
theorem readFile_step_isSome_iff (h : s.files.locate (v8ValueToString v8 w.fileName) = some file)
    (name : Str) : ((s.step v8 w).files.readFile name).isSome ↔
      ∃ target, s.files.locate name = some target ∧
        (target = file ∨ (s.files.contents target).isSome) := by
  rw [step_of_locate h, Files.readFile]
  cases s.files.locate name with
  | none => simp
  | some target =>
    simp only [Option.bind_some, Option.some_inj, exists_eq_left']
    by_cases htarget : target = file
    · rw [htarget, Function.update_self]
      simp
    · rw [Function.update_of_ne htarget]
      simp [htarget]

theorem recorded_step (hs : Recorded v8 s) (w : FileWrite) : Recorded v8 (s.step v8 w) := by
  rcases hlocate : s.files.locate (v8ValueToString v8 w.fileName) with - | file
  · rw [step_of_locate_none hlocate]
    intro name hname target htarget
    rcases List.mem_cons.mp hname with rfl | hname
    · exact absurd (hlocate.symm.trans htarget) (by simp)
    · exact hs name hname target htarget
  · rw [step_of_locate hlocate]
    intro name hname target htarget
    simp only at htarget ⊢
    by_cases hfile : target = file
    · rw [hfile, Function.update_self, Option.isSome_some]
    · rw [Function.update_of_ne hfile]
      rcases List.mem_cons.mp hname with rfl | hname
      · exact absurd (Option.some.inj (htarget.symm.trans hlocate)) hfile
      · exact hs name hname target htarget

/-- **One write** keeps what the readers return true to what was written if and only if it writes
nothing. -/
theorem readsBack_step_iff (hs : Recorded v8 s) (h : ReadsBack v8 s) (w : FileWrite) :
    ReadsBack v8 (s.step v8 w) ↔ WritesNothing v8 s w := by
  rw [readsBack_iff_of_names] at h ⊢
  rcases hlocate : s.files.locate (v8ValueToString v8 w.fileName) with - | file
  · refine iff_of_true ?_ fun file hfile ↦ absurd (hlocate.symm.trans hfile) (by simp)
    rw [step_of_locate_none hlocate]
    intro name hname target content htarget hlast
    rcases List.mem_cons.mp hname with rfl | hname
    · exact absurd (hlocate.symm.trans htarget) (by simp)
    · exact h name hname target content htarget hlast
  have hlast : (s.step v8 w).last = Function.update s.last file (some w.content) := by
    rw [step_of_locate hlocate]
  have hnames : (s.step v8 w).names = w.fileName :: s.names := rfl
  rw [hnames, locate_step, hlast]
  simp only [readFile_step_isSome_iff hlocate]
  constructor
  · -- The name that has just been written to is the one to ask for.
    intro hback target htarget
    obtain rfl := Option.some.inj (hlocate.symm.trans htarget)
    exact hback w.fileName List.mem_cons_self file w.content hlocate (Function.update_self ..)
  · intro hnothing name hname target content htarget hcontent
    obtain ⟨hempty, hopens⟩ := hnothing file hlocate
    have hcontentEmpty : name ∈ s.names → content = [] := fun hmem ↦ by
      by_cases hfile : target = file
      · rw [hfile, Function.update_self, Option.some_inj] at hcontent
        exact hcontent.symm.trans hempty
      · rw [Function.update_of_ne hfile] at hcontent
        exact (h name hmem target content htarget hcontent).1
    rcases List.mem_cons.mp hname with rfl | hmem
    · obtain rfl := Option.some.inj (hlocate.symm.trans htarget)
      rw [Function.update_self, Option.some_inj] at hcontent
      exact ⟨hcontent.symm.trans hempty, hopens⟩
    · -- The name was opened before, and a file that existed still does.
      obtain ⟨content', hcontent'⟩ := Option.isSome_iff_exists.mp (hs name hmem target htarget)
      have hread := (h name hmem target content' htarget hcontent').2
      rw [Files.readFile, Option.isSome_bind] at hread
      refine ⟨hcontentEmpty hmem, ?_⟩
      rcases hinput : s.files.locate (Files.inputFileName (v8ValueToString v8 name)) with - | input
      · rw [hinput] at hread
        simp at hread
      · rw [hinput] at hread
        exact ⟨input, rfl, .inr (by simpa using hread)⟩

/-! ## Runs of writes -/

/-- A write of one character. -/
def writeA : FileWrite := ⟨Utf.units "a.txt".toList, Utf.units "a".toList, by decide⟩

end FileHistory

end SlimTS
