import SlimTS.Common.MemoryMapper
import SlimTS.Library.Simulation

/-!
# The two readers of the store

`read` and `read_string` take an entry apart separately. `read_string` asks for an inline content
twice, where it should ask for a pointer the second time, so it answers an entry behind a pointer
with the empty string. The two agree on an entry when it is inline or empty.

Which entries a store has depends on its history: `write` puts short strings in the entry and
everything else behind a pointer, and an attached container brings the entries its maker has put
into it. `readString_run_iff` says which histories leave the readers in agreement in every state.
-/

namespace SlimTS

/-- The two branches of `read_string`: the second one is never taken. -/
def ContentVariant.readString : ContentVariant → Str
  | .string c => c
  | .pointer _ => []

/-- An entry is inline, or it is empty. -/
def ContentVariant.InlineOrEmpty : ContentVariant → Prop
  | .string _ => True
  | .pointer c => c = []

theorem ContentVariant.readString_eq_content_iff (v : ContentVariant) :
    v.readString = v.content ↔ v.InlineOrEmpty := by
  cases v with
  | string c => exact iff_of_true rfl trivial
  | pointer c => exact eq_comm

/-- What `write` stores is inline when it is given a short string. -/
theorem ContentVariant.stored_inlineOrEmpty_iff (v : ContentVariant) :
    v.stored.InlineOrEmpty ↔ v.content = [] ∨ ∃ c, v = .string c ∧ c.length < 16 := by
  cases v with
  | string c =>
    rw [stored]
    split
    · next hshort => exact iff_of_true trivial (.inr ⟨c, rfl, hshort⟩)
    · next hlong =>
      refine ⟨fun h ↦ .inl h, fun h ↦ h.elim id ?_⟩
      rintro ⟨c', hc', hshort⟩
      cases hc'
      exact absurd hshort hlong
  | pointer c =>
    refine ⟨fun h ↦ .inl h, fun h ↦ h.elim id ?_⟩
    rintro ⟨c', hc', -⟩
    cases hc'

namespace Store

/-- `read_string`. -/
def readString (s : Store) (mapName fileName : Str) : Str :=
  match s.maps.lookup mapName with
  | none => []
  | some id =>
    match (s.heap id).lookup fileName with
    | none => []
    | some v => v.readString

/-- `read_string` returns the text that `read` points to, and the empty string for a file that does
not exist. -/
def ReadersAgree (s : Store) : Prop := ∀ m f, s.readString m f = (s.read m f).getD []

/-- The entries of a container are inline or empty. -/
def Inline (container : MapContainer) : Prop :=
  ∀ f v, container.lookup f = some v → v.InlineOrEmpty

/-- A call brings no entry behind a pointer. -/
def BringsInline (s : Store) : StoreOp → Prop
  | .write _ _ content => content.content = [] ∨ ∃ c, content = .string c ∧ c.length < 16
  | .attach m (some k) => s.mapExists m = true ∨ Inline (s.heap (.attached k))
  | _ => True

variable {s : Store} {m f : Str}

/-! ## Agreement on a state -/

theorem readString_of_lookup {id : ContainerId} (h : s.maps.lookup m = some id) (f : Str) :
    s.readString m f = (((s.heap id).lookup f).map ContentVariant.readString).getD [] := by
  rw [readString, h]
  simp only
  cases (s.heap id).lookup f <;> rfl

theorem read_of_lookup {id : ContainerId} (h : s.maps.lookup m = some id) (f : Str) :
    s.read m f = ((s.heap id).lookup f).map ContentVariant.content := by
  rw [read, h]

/-- The readers agree on a container that is inline, and on no other. -/
theorem inline_iff (container : MapContainer) :
    Inline container ↔ ∀ f, ((container.lookup f).map ContentVariant.readString).getD []
      = ((container.lookup f).map ContentVariant.content).getD [] := by
  refine forall_congr' fun f ↦ ?_
  cases container.lookup f with
  | none => exact iff_of_true (fun v h ↦ absurd h (by simp)) rfl
  | some v =>
    rw [Option.map_some, Option.map_some, Option.getD_some, Option.getD_some,
      ContentVariant.readString_eq_content_iff]
    exact ⟨fun h ↦ h v rfl, fun h w hw ↦ Option.some.inj hw ▸ h⟩

/-- They agree on a store when the containers its names lead to are inline. -/
theorem readersAgree_iff (s : Store) :
    ReadersAgree s ↔ ∀ m id, s.maps.lookup m = some id → Inline (s.heap id) := by
  constructor
  · intro h m id hid
    rw [inline_iff]
    intro f
    have := h m f
    rwa [readString_of_lookup hid, read_of_lookup hid] at this
  · intro h m f
    rcases hid : s.maps.lookup m with - | id
    · rw [readString, read, hid]
      rfl
    · rw [readString_of_lookup hid, read_of_lookup hid]
      exact (inline_iff _).mp (h m id hid) f

theorem Inline.insert {container : MapContainer} (h : Inline container) {v : ContentVariant}
    (hv : v.InlineOrEmpty) (f : Str) : Inline (container.insert f v) := by
  intro f' v' hv'
  rcases lookup_insert_eq_some_iff.mp hv' with ⟨-, rfl⟩ | ⟨-, hv'⟩
  · exact hv
  · exact h f' v' hv'

/-! ## One call -/

theorem readersAgree_create (h : ReadersAgree s) (m : Str) : ReadersAgree (s.create m) := by
  rw [readersAgree_iff] at h ⊢
  rw [create]
  split
  · exact h
  · intro m' id hid
    simp only at hid ⊢
    by_cases hnew : id = .created s.created
    · -- A container that has just been made is empty.
      rw [hnew, Function.update_self]
      exact fun f v hv ↦ absurd hv (by simp)
    · rw [Function.update_of_ne hnew]
      rcases lookup_insert_eq_some_iff.mp hid with ⟨-, hid⟩ | ⟨-, hid⟩
      · exact absurd hid hnew
      · exact h m' id hid

theorem readersAgree_erase (h : ReadersAgree s) (m : Str) : ReadersAgree (s.erase m) := by
  rw [readersAgree_iff] at h ⊢
  rw [erase]
  split
  · exact fun m' id hid ↦ h m' id (lookup_erase_eq_some_iff.mp hid).2
  · exact h

/-- What `read_string` returns for a file that has just been written. -/
theorem readString_write (s : Store) (m f : Str) (content : ContentVariant) :
    (s.write m f content).readString m f = content.stored.readString := by
  obtain ⟨id, hid⟩ := mapExists_eq_true.mp (mapExists_create s m)
  rw [write_eq, setEntry_of_lookup hid, readString]
  simp only [hid, Function.update_self, AList.lookup_insert]

/-- It is the text that was written if the entry is inline or empty. -/
theorem readString_write_iff (s : Store) (m f : Str) (content : ContentVariant) :
    (s.write m f content).readString m f = content.content ↔
      content.content = [] ∨ ∃ c, content = .string c ∧ c.length < 16 := by
  rw [readString_write, ← ContentVariant.stored_inlineOrEmpty_iff,
    ← ContentVariant.readString_eq_content_iff, ContentVariant.content_stored]

theorem readersAgree_write_iff (h : ReadersAgree s) (m f : Str) (content : ContentVariant) :
    ReadersAgree (s.write m f content) ↔
      content.content = [] ∨ ∃ c, content = .string c ∧ c.length < 16 := by
  constructor
  · intro hagree
    have := hagree m f
    rwa [read_write, Option.getD_some, readString_write_iff] at this
  · intro hcontent
    rw [← ContentVariant.stored_inlineOrEmpty_iff] at hcontent
    obtain ⟨id, hid⟩ := mapExists_eq_true.mp (mapExists_create s m)
    have hcreate := (readersAgree_iff _).mp (readersAgree_create h m)
    rw [write_eq, setEntry_of_lookup hid, readersAgree_iff]
    intro m' id' hid'
    simp only at hid' ⊢
    by_cases hsame : id' = id
    · rw [hsame, Function.update_self]
      exact (hcreate m id hid).insert hcontent f
    · rw [Function.update_of_ne hsame]
      exact hcreate m' id' hid'

theorem readersAgree_attach_iff (h : ReadersAgree s) (m : Str) (k : ℕ) :
    ReadersAgree (s.step (.attach m (some k))) ↔
      s.mapExists m = true ∨ Inline (s.heap (.attached k)) := by
  cases hm : s.mapExists m with
  | true =>
    rw [step, attach_of_mapExists hm]
    exact iff_of_true h (.inl rfl)
  | false =>
    have hattach : s.step (.attach m (some k))
        = { s with maps := s.maps.insert m (.attached k) } := by
      rw [step, attach, hm]
      rfl
    rw [hattach, readersAgree_iff]
    simp only [Bool.false_eq_true, false_or]
    constructor
    · intro hagree
      exact hagree m _ (AList.lookup_insert _)
    · intro hinline m' id hid
      rcases lookup_insert_eq_some_iff.mp hid with ⟨-, rfl⟩ | ⟨-, hid⟩
      · exact hinline
      · exact (readersAgree_iff s).mp h m' id hid

/-- **One call.** It keeps the readers in agreement if and only if it brings no entry behind a
pointer. -/
theorem readersAgree_step_iff (s : Store) (op : StoreOp) (h : ReadersAgree s) :
    ReadersAgree (s.step op) ↔ BringsInline s op := by
  cases op with
  | attach m map =>
    cases map with
    | none => exact iff_of_true h trivial
    | some k => exact readersAgree_attach_iff h m k
  | create m => exact iff_of_true (readersAgree_create h m) trivial
  | erase m => exact iff_of_true (readersAgree_erase h m) trivial
  | write m f content => exact readersAgree_write_iff h m f content

theorem readersAgree_start (containers : ℕ → MapContainer) : ReadersAgree (start containers) :=
  (readersAgree_iff _).mpr fun _ _ hid ↦ absurd hid (by simp [start])

/-! ## Whole runs -/

/-- **When the two readers agree.** In every state of a run `read_string` returns the text that
`read` points to, or the empty string where there is no file, if and only if every call of the run
brings contents that are inline or empty. And `read_string` after `write` returns the text written
if and only if that is empty or a string of less than sixteen characters. -/
theorem readString_run_iff (containers : ℕ → MapContainer) (ops : List StoreOp) :
    ((∀ before, before <+: ops → ReadersAgree (run containers before)) ↔
        Simulation.Meets step BringsInline (start containers) ops) ∧
      ∀ m f content, ((run containers ops).write m f content).readString m f = content.content ↔
        content.content = [] ∨ ∃ c, content = .string c ∧ c.length < 16 :=
  ⟨Simulation.forall_prefix_iff_meets (J := fun _ ↦ True) (fun _ _ _ ↦ trivial)
    (fun s op _ h ↦ readersAgree_step_iff s op h) trivial (readersAgree_start containers),
    readString_write_iff _⟩

/-- A pointer that has been written is read as the empty string. -/
theorem readString_run_pointer :
    (run (fun _ ↦ ∅) [.write "m".toList "f".toList (.pointer "x".toList)]).readString
        "m".toList "f".toList = [] ∧
      (run (fun _ ↦ ∅) [.write "m".toList "f".toList (.pointer "x".toList)]).read
        "m".toList "f".toList = some "x".toList :=
  ⟨by decide, by decide⟩

end Store

end SlimTS
