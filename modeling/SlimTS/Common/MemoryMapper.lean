import Mathlib.Data.List.AList
import SlimTS.Common.Basic

/-!
# The in-memory store

`slim::common::memory_mapper`: a global map from names to shared pointers, each to a container of
files. The containers live behind the pointers, so the model has a heap of them, and `maps` only
says which container a name leads to. A container comes either from `create` or from the caller of
`attach`, and a file's content is either in the entry itself or behind a pointer.
-/

namespace SlimTS

/-- `content_variant`. A pointer leads to a content: `write` dereferences it before it stores it. -/
inductive ContentVariant
  /-- The content itself, in the entry. -/
  | string (content : Str)
  /-- A shared pointer to the content. -/
  | pointer (content : Str)
deriving DecidableEq, Repr

/-- The content, wherever it is. -/
def ContentVariant.content : ContentVariant → Str
  | .string c | .pointer c => c

/-- What `write` puts in the entry: short strings as they are, longer ones behind a new pointer,
pointers as they are. -/
def ContentVariant.stored : ContentVariant → ContentVariant
  | .string c => if c.length < 16 then .string c else .pointer c
  | .pointer c => .pointer c

@[simp] theorem ContentVariant.content_stored (c : ContentVariant) :
    c.stored.content = c.content := by
  cases c with
  | string c =>
    rw [stored]
    split <;> rfl
  | pointer c => rfl

/-- `map_container`. -/
abbrev MapContainer := AList fun _ : Str ↦ ContentVariant

/-- The address of a container. -/
inductive ContainerId
  /-- A container some caller of `attach` made. -/
  | attached (k : ℕ)
  /-- The `k`-th container made by `create`. -/
  | created (k : ℕ)
deriving DecidableEq, Repr

/-- The globals of `memory_mapper` and the containers they lead to. -/
structure Store where
  /-- `maps`. -/
  maps : AList fun _ : Str ↦ ContainerId
  /-- The containers behind the pointers. -/
  heap : ContainerId → MapContainer
  /-- How many containers `create` has made. -/
  created : ℕ

namespace Store

/-- The store at program start; the callers' containers have the given contents. -/
def start (containers : ℕ → MapContainer) : Store where
  maps := ∅
  heap
    | .attached k => containers k
    | .created _ => ∅
  created := 0

variable (s : Store) (mapName fileName : Str)

/-- `exists`, of a map. -/
def mapExists : Bool := (s.maps.lookup mapName).isSome

/-- `exists`, of a file in a map. -/
def fileExists : Bool :=
  match s.maps.lookup mapName with
  | none => false
  | some id => ((s.heap id).lookup fileName).isSome

/-- `list_keys`. -/
def listKeys : List Str :=
  match s.maps.lookup mapName with
  | none => []
  | some id => (s.heap id).keys

/-- `read`. A null pointer is `none`; the pointer to an inline content is a new one. -/
def read : Option Str :=
  match s.maps.lookup mapName with
  | none => none
  | some id => ((s.heap id).lookup fileName).map ContentVariant.content

/-- `attach`. The null pointer is refused before anything is looked at. -/
def attach (map : Option ℕ) : Except String Store :=
  match map with
  | none => .error "slim::common::memory_mapper::attach() nullptr exception"
  | some k =>
    if s.mapExists mapName then .ok s
    else .ok { s with maps := s.maps.insert mapName (.attached k) }

/-- `create`. -/
def create : Store :=
  if s.mapExists mapName then s
  else
    { maps := s.maps.insert mapName (.created s.created)
      heap := Function.update s.heap (.created s.created) ∅
      created := s.created + 1 }

/-- `erase`. -/
def erase : Store :=
  if s.mapExists mapName then { s with maps := s.maps.erase mapName } else s

/-- The entry of the container that `write` sets. -/
def setEntry (content : ContentVariant) : Store :=
  match s.maps.lookup mapName with
  | none => s
  | some id =>
    { s with heap := Function.update s.heap id ((s.heap id).insert fileName content.stored) }

/-- `write`. The map is created when there is none, so the entry is always set. -/
def write (content : ContentVariant) : Store :=
  (if s.mapExists mapName then s else s.create mapName).setEntry mapName fileName content

end Store

/-- A call that changes the store. -/
inductive StoreOp
  /-- `attach`, of a container or of the null pointer. -/
  | attach (mapName : Str) (map : Option ℕ)
  | create (mapName : Str)
  | erase (mapName : Str)
  | write (mapName fileName : Str) (content : ContentVariant)

/-- The map a call names. -/
def StoreOp.mapName : StoreOp → Str
  | .attach m _ | .create m | .erase m | .write m _ _ => m

namespace Store

/-- One call. One that throws leaves the store as it was. -/
def step (s : Store) : StoreOp → Store
  | .attach m map => (s.attach m map).toOption.getD s
  | .create m => s.create m
  | .erase m => s.erase m
  | .write m f content => s.write m f content

/-- A sequence of calls, from program start. -/
def run (containers : ℕ → MapContainer) (ops : List StoreOp) : Store :=
  ops.foldl step (start containers)

/-! ## The functions on the two maps -/

variable {s : Store} {m f : Str}

theorem mapExists_eq_true : s.mapExists m = true ↔ ∃ id, s.maps.lookup m = some id :=
  Option.isSome_iff_exists

theorem mapExists_eq_false : s.mapExists m = false ↔ s.maps.lookup m = none := by
  rw [mapExists, Option.isSome_eq_false_iff, Option.isNone_iff_eq_none]

theorem create_of_mapExists (h : s.mapExists m = true) : s.create m = s := by
  rw [create, if_pos h]

theorem create_of_not_mapExists (h : s.mapExists m = false) : s.create m =
    { maps := s.maps.insert m (.created s.created)
      heap := Function.update s.heap (.created s.created) ∅
      created := s.created + 1 } := by
  rw [create, h, if_neg Bool.false_ne_true]

theorem attach_of_mapExists {k : ℕ} (h : s.mapExists m = true) : s.attach m (some k) = .ok s := by
  rw [attach, if_pos h]

theorem mapExists_create (s : Store) (m : Str) : (s.create m).mapExists m = true := by
  rw [create]
  split
  · assumption
  · rw [mapExists, AList.lookup_insert, Option.isSome_some]

/-- `write` sets the entry of the container that the name leads to, in a store where it leads to
one: the store itself, or the store after `create`. -/
theorem write_eq (s : Store) (m f : Str) (content : ContentVariant) :
    s.write m f content = (s.create m).setEntry m f content := by
  rw [write]
  split
  · next h => rw [create_of_mapExists h]
  · rfl

theorem setEntry_of_lookup {id : ContainerId} (h : s.maps.lookup m = some id)
    (content : ContentVariant) : s.setEntry m f content =
      { s with heap := Function.update s.heap id ((s.heap id).insert f content.stored) } := by
  rw [setEntry, h]

/-- What has been written can be read. -/
theorem read_write (s : Store) (m f : Str) (content : ContentVariant) :
    (s.write m f content).read m f = some content.content := by
  obtain ⟨id, hid⟩ := mapExists_eq_true.mp (mapExists_create s m)
  rw [write_eq, setEntry_of_lookup hid, read]
  simp only [hid, Function.update_self, AList.lookup_insert, Option.map_some,
    ContentVariant.content_stored]

theorem mapExists_write (s : Store) (m f : Str) (content : ContentVariant) :
    (s.write m f content).mapExists m = true := by
  have hexists := mapExists_create s m
  obtain ⟨id, hid⟩ := mapExists_eq_true.mp hexists
  rw [write_eq, setEntry_of_lookup hid]
  exact hexists

/-- Writing one file of a map leaves the others as they are. -/
theorem read_write_of_ne {f' : Str} (hexists : s.mapExists m = true) (hne : f ≠ f')
    (content : ContentVariant) : (s.write m f' content).read m f = s.read m f := by
  obtain ⟨id, hid⟩ := mapExists_eq_true.mp hexists
  rw [write_eq, create_of_mapExists hexists, setEntry_of_lookup hid, read, read]
  simp only [hid, Function.update_self, AList.lookup_insert_ne hne]

end Store

end SlimTS
