import SlimTS.Common.MemoryMapper
import SlimTS.Library.Simulation
import SlimTS.Library.TwoLevelMap

/-!
# The in-memory store is a two-level map

Forgetting where the containers live and in which of the two representations a content is held
turns the store into a map from names to maps from file names to contents. The square for one call
rests on one invariant: no two names lead to the same container, so that a write under one name
does not show under another. Containers made by `create` are new, and a container a caller attaches
is attached under one name only; that is what the callers promise, and `owner` below says which
name it is.
-/

namespace SlimTS

namespace Store

/-- The files of a container, without their representation. -/
def files (container : MapContainer) : Str → Option Str :=
  fun f ↦ (container.lookup f).map ContentVariant.content

/-- The abstract map a store stands for. -/
def toMap (s : Store) : TwoLevelMap Str Str Str :=
  fun m ↦ (s.maps.lookup m).map fun id ↦ files (s.heap id)

/-- What a call means for the abstract map. An attached container brings the files it holds at the
time of the call. -/
def meaning (s : Store) : StoreOp → TwoLevelMap.Op Str Str Str
  | .attach m map => .attach m (map.map fun k ↦ files (s.heap (.attached k)))
  | .create m => .create m
  | .erase m => .erase m
  | .write m f content => .write m f content.content

@[simp] theorem meaning_name (s : Store) (op : StoreOp) : (s.meaning op).name = op.mapName := by
  cases op <;> rfl

/-- The abstract operations of a sequence of calls. -/
def meanings (containers : ℕ → MapContainer) (ops : List StoreOp) :
    List (TwoLevelMap.Op Str Str Str) :=
  Simulation.trace step meaning (start containers) ops

end Store

/-- The caller attaches each container under one name, the one `owner` gives. -/
def StoreOp.AttachesOwned (owner : ℕ → Str) : StoreOp → Prop
  | .attach m (some k) => m = owner k
  | _ => True

namespace Store

/-- The invariant. -/
structure Separate (owner : ℕ → Str) (s : Store) : Prop where
  /-- No two names lead to one container. -/
  injective : ∀ m m' id, s.maps.lookup m = some id → s.maps.lookup m' = some id → m = m'
  /-- Containers `create` has yet to make are not in the map. -/
  created_lt : ∀ m k, s.maps.lookup m = some (.created k) → k < s.created
  /-- Attached containers are under their own names. -/
  attached_owner : ∀ m k, s.maps.lookup m = some (.attached k) → m = owner k

variable {s : Store} {owner : ℕ → Str} {containers : ℕ → MapContainer}

theorem separate_start : Separate owner (start containers) where
  injective _ _ _ h := by simp [start] at h
  created_lt _ _ h := by simp [start] at h
  attached_owner _ _ h := by simp [start] at h

/-! ## The queries -/

theorem mapExists_eq (s : Store) (m : Str) : s.mapExists m = s.toMap.has m := by
  rw [mapExists, TwoLevelMap.has, toMap, Option.isSome_map]

theorem read_eq (s : Store) (m f : Str) : s.read m f = s.toMap.read m f := by
  rw [read, TwoLevelMap.read, toMap]
  cases s.maps.lookup m <;> rfl

theorem fileExists_eq (s : Store) (m f : Str) : s.fileExists m f = (s.read m f).isSome := by
  rw [fileExists, read]
  cases s.maps.lookup m with
  | none => rfl
  | some id => exact Option.isSome_map.symm

theorem listKeys_nodup (s : Store) (m : Str) : (s.listKeys m).Nodup := by
  rw [listKeys]
  cases s.maps.lookup m with
  | none => exact List.nodup_nil
  | some id => exact (s.heap id).keys_nodup

theorem mem_listKeys (s : Store) (m f : Str) :
    f ∈ s.listKeys m ↔ (s.read m f).isSome = true := by
  rw [listKeys, read]
  cases s.maps.lookup m with
  | none => simp
  | some id => rw [Option.isSome_map, AList.lookup_isSome, AList.mem_keys]

/-- The store answers every query as the abstract map does. -/
structure AnswersAs (s : Store) (t : TwoLevelMap Str Str Str) : Prop where
  mapExists : ∀ m, s.mapExists m = t.has m
  fileExists : ∀ m f, s.fileExists m f = (t.read m f).isSome
  read : ∀ m f, s.read m f = t.read m f
  /-- Each key once, -/
  listKeys_nodup : ∀ m, (s.listKeys m).Nodup
  /-- and the keys there are. -/
  mem_listKeys : ∀ m f, f ∈ s.listKeys m ↔ (t.read m f).isSome = true

theorem answersAs_toMap (s : Store) : AnswersAs s s.toMap where
  mapExists := s.mapExists_eq
  fileExists m f := by rw [s.fileExists_eq, s.read_eq]
  read := s.read_eq
  listKeys_nodup := s.listKeys_nodup
  mem_listKeys m f := by rw [s.mem_listKeys, s.read_eq]

/-! ## The square for each call -/

/-- Two names never share a container, so writing to the one a name leads to changes the abstract
map under that name only. -/
theorem toMap_setEntry (hs : Separate owner s) {m : Str} {id : ContainerId}
    (h : s.maps.lookup m = some id) (f : Str) (content : ContentVariant) :
    (s.setEntry m f content).toMap = s.toMap.apply (.write m f content.content) := by
  rw [setEntry_of_lookup h, TwoLevelMap.apply]
  funext m'
  by_cases hm : m' = m
  · subst hm
    rw [Function.update_self]
    simp only [toMap, h, Option.map_some, Function.update_self, Option.getD_some, Option.some_inj]
    funext f'
    by_cases hf : f' = f
    · subst hf
      simp [files]
    · simp [files, hf]
  · rw [Function.update_of_ne hm]
    simp only [toMap]
    refine Option.map_congr fun id' hid' ↦ ?_
    -- This is where names that share a container would differ from the map.
    have hne : id' ≠ id := by
      rintro rfl
      exact hm (hs.injective m' m id' hid' h)
    rw [Function.update_of_ne hne]

theorem toMap_insert (s : Store) (m : Str) (id : ContainerId) :
    ({ s with maps := s.maps.insert m id } : Store).toMap
      = Function.update s.toMap m (some (files (s.heap id))) := by
  funext m'
  by_cases hm : m' = m
  · subst hm
    simp [toMap]
  · simp [toMap, hm]

theorem toMap_attach (s : Store) (m : Str) (map : Option ℕ) :
    (s.step (.attach m map)).toMap = s.toMap.apply (s.meaning (.attach m map)) := by
  cases map with
  | none => rfl
  | some k =>
    simp only [step, meaning, Option.map_some, TwoLevelMap.apply]
    cases hm : s.mapExists m with
    | true =>
      rw [attach_of_mapExists hm, TwoLevelMap.bindNew_of_has (s.mapExists_eq m ▸ hm)]
      rfl
    | false =>
      rw [TwoLevelMap.bindNew_of_not_has (s.mapExists_eq m ▸ hm), ← toMap_insert, attach, hm]
      rfl

theorem toMap_create (hs : Separate owner s) (m : Str) :
    (s.create m).toMap = s.toMap.bindNew m fun _ ↦ none := by
  cases hm : s.mapExists m with
  | true => rw [create_of_mapExists hm, TwoLevelMap.bindNew_of_has (s.mapExists_eq m ▸ hm)]
  | false =>
    rw [TwoLevelMap.bindNew_of_not_has (s.mapExists_eq m ▸ hm), create_of_not_mapExists hm]
    funext m'
    by_cases hm' : m' = m
    · subst hm'
      simp only [toMap, AList.lookup_insert, Option.map_some, Function.update_self]
      rfl
    · rw [Function.update_of_ne hm']
      simp only [toMap, AList.lookup_insert_ne hm']
      refine Option.map_congr fun id hid ↦ ?_
      -- The container is new, so no other name leads to it.
      have hne : id ≠ .created s.created := by
        rintro rfl
        exact absurd (hs.created_lt m' _ hid) (lt_irrefl _)
      rw [Function.update_of_ne hne]

theorem toMap_erase (s : Store) (m : Str) :
    (s.erase m).toMap = Function.update s.toMap m none := by
  funext m'
  rw [erase]
  split
  · by_cases hm : m' = m
    · subst hm
      simp [toMap]
    · simp [toMap, hm]
  · next h =>
    by_cases hm : m' = m
    · subst hm
      rw [Bool.not_eq_true, mapExists_eq_false] at h
      simp [toMap, h]
    · rw [Function.update_of_ne hm]

/-! ## The invariant, call by call -/

theorem Separate.insert (hs : Separate owner s) {m : Str} {id : ContainerId} {n : ℕ}
    (hfresh : ∀ m', s.maps.lookup m' = some id → m' = m) (hn : s.created ≤ n)
    (hcreated : ∀ k, id = .created k → k < n) (hattached : ∀ k, id = .attached k → m = owner k)
    (heap : ContainerId → MapContainer) :
    Separate owner { maps := s.maps.insert m id, heap := heap, created := n } := by
  refine ⟨?_, ?_, ?_⟩
  · intro m₁ m₂ id' h₁ h₂
    rcases lookup_insert_eq_some_iff.mp h₁ with ⟨e₁, hid⟩ | ⟨hne₁, h₁⟩ <;>
      rcases lookup_insert_eq_some_iff.mp h₂ with ⟨e₂, hid'⟩ | ⟨hne₂, h₂⟩
    · rw [e₁, e₂]
    · rw [e₁, hfresh m₂ (hid ▸ h₂)]
    · rw [e₂, hfresh m₁ (hid' ▸ h₁)]
    · exact hs.injective m₁ m₂ id' h₁ h₂
  · intro m' k h
    rcases lookup_insert_eq_some_iff.mp h with ⟨-, hid⟩ | ⟨-, h⟩
    · exact hcreated k hid.symm
    · exact lt_of_lt_of_le (hs.created_lt m' k h) hn
  · intro m' k h
    rcases lookup_insert_eq_some_iff.mp h with ⟨e, hid⟩ | ⟨-, h⟩
    · exact e ▸ hattached k hid.symm
    · exact hs.attached_owner m' k h

theorem Separate.create (hs : Separate owner s) (m : Str) : Separate owner (s.create m) := by
  cases hm : s.mapExists m with
  | true => rwa [create_of_mapExists hm]
  | false =>
    rw [create_of_not_mapExists hm]
    refine hs.insert (fun m' h ↦ ?_) (Nat.le_succ _) (fun k h ↦ ?_) (fun k h ↦ ?_) _
    · exact absurd (hs.created_lt m' _ h) (lt_irrefl _)
    · cases h
      exact Nat.lt_succ_self _
    · cases h

/-- What changes only the containers keeps them apart. -/
theorem Separate.of_maps_eq {s' : Store} (hs : Separate owner s) (hmaps : s'.maps = s.maps)
    (hcreated : s'.created = s.created) : Separate owner s' where
  injective := hmaps ▸ hs.injective
  created_lt := hmaps ▸ hcreated ▸ hs.created_lt
  attached_owner := hmaps ▸ hs.attached_owner

theorem Separate.setEntry (hs : Separate owner s) (m f : Str) (content : ContentVariant) :
    Separate owner (s.setEntry m f content) := by
  rw [Store.setEntry]
  split
  · exact hs
  · exact hs.of_maps_eq rfl rfl

theorem Separate.step (hs : Separate owner s) {op : StoreOp} (hop : op.AttachesOwned owner) :
    Separate owner (s.step op) := by
  cases op with
  | attach m map =>
    cases map with
    | none => exact hs
    | some k =>
      cases hm : s.mapExists m with
      | true => rwa [Store.step, attach_of_mapExists hm]
      | false =>
        rw [Store.step, attach, hm]
        -- A name that leads to the container already is its owner, which is the one it gets now.
        refine hs.insert (fun m' h ↦ ?_) le_rfl (fun _ h ↦ by cases h) (fun k' h ↦ ?_) s.heap
        · exact (hs.attached_owner m' k h).trans hop.symm
        · cases h
          exact hop
  | create m => exact hs.create m
  | erase m =>
    rw [Store.step, Store.erase]
    split
    · have hlookup : ∀ m' id, (s.maps.erase m).lookup m' = some id →
          s.maps.lookup m' = some id := fun _ _ h ↦ (lookup_erase_eq_some_iff.mp h).2
      exact ⟨fun m₁ m₂ id h₁ h₂ ↦ hs.injective m₁ m₂ id (hlookup _ _ h₁) (hlookup _ _ h₂),
        fun m' k h ↦ hs.created_lt m' k (hlookup _ _ h),
        fun m' k h ↦ hs.attached_owner m' k (hlookup _ _ h)⟩
    · exact hs
  | write m f content =>
    rw [Store.step, write_eq]
    exact (hs.create m).setEntry m f content

/-- **The square.** -/
theorem toMap_step (hs : Separate owner s) (op : StoreOp) :
    (s.step op).toMap = s.toMap.apply (s.meaning op) := by
  cases op with
  | attach m map => exact s.toMap_attach m map
  | create m => exact toMap_create hs m
  | erase m => exact s.toMap_erase m
  | write m f content =>
    obtain ⟨id, hid⟩ := mapExists_eq_true.mp (mapExists_create s m)
    rw [step, write_eq, toMap_setEntry (hs.create m) hid, toMap_create hs m,
      TwoLevelMap.apply_write_bindNew]
    rfl

/-! ## What a call leaves alone -/

/-- The maps and the files a call does not name answer after it as they did before. -/
structure LeavesOthers (op : StoreOp) (s s' : Store) : Prop where
  mapExists : ∀ m, m ≠ op.mapName → s'.mapExists m = s.mapExists m
  fileExists : ∀ m, m ≠ op.mapName → ∀ f, s'.fileExists m f = s.fileExists m f
  read : ∀ m, m ≠ op.mapName → ∀ f, s'.read m f = s.read m f
  listKeys : ∀ m, m ≠ op.mapName → (s'.listKeys m).Perm (s.listKeys m)
  /-- Under the name it writes to, a write leaves the other files. -/
  otherFiles : ∀ m f content, op = .write m f content → ∀ f', f' ≠ f →
    s'.fileExists m f' = s.fileExists m f' ∧ s'.read m f' = s.read m f' ∧
      (f' ∈ s'.listKeys m ↔ f' ∈ s.listKeys m)

theorem leavesOthers_step (hs : Separate owner s) (op : StoreOp) :
    LeavesOthers op s (s.step op) := by
  have hread : ∀ m, m ≠ op.mapName → ∀ f, (s.step op).read m f = s.read m f := by
    intro m hm f
    rw [read_eq, read_eq, toMap_step hs, TwoLevelMap.read_apply_of_ne (by rwa [meaning_name])]
  have hfile : ∀ m f content, op = .write m f content → ∀ f', f' ≠ f →
      (s.step op).read m f' = s.read m f' := by
    rintro m f content rfl f' hf
    rw [read_eq, read_eq, toMap_step hs, meaning, TwoLevelMap.read_apply_write_of_ne _ hf]
  refine ⟨fun m hm ↦ ?_, fun m hm f ↦ ?_, hread, fun m hm ↦ ?_, fun m f content hop f' hf ↦ ?_⟩
  · rw [mapExists_eq, mapExists_eq, toMap_step hs,
      TwoLevelMap.has_apply_of_ne (by rwa [meaning_name])]
  · rw [fileExists_eq, fileExists_eq, hread m hm]
  · rw [List.perm_ext_iff_of_nodup (listKeys_nodup _ m) (listKeys_nodup s m)]
    intro f
    rw [mem_listKeys, mem_listKeys, hread m hm]
  · rw [fileExists_eq, fileExists_eq, mem_listKeys, mem_listKeys, hfile m f content hop f' hf]
    exact ⟨rfl, rfl, Iff.rfl⟩

/-! ## Whole runs -/

theorem separate_run {ops : List StoreOp} (hops : ∀ op ∈ ops, op.AttachesOwned owner) :
    Separate owner (run containers ops) :=
  Simulation.invariant_foldl (I := Separate owner) (P := StoreOp.AttachesOwned owner)
    (fun _ _ hs hop ↦ hs.step hop) separate_start hops

/-- **The store refines the two-level map.** After every sequence of calls that attaches each
container under one name, the store answers as the map does on which the calls are done; creating
or attaching under a name that is bound changes nothing; and the next call leaves alone what it
does not name. -/
theorem memoryMapper_refines_twoLevelMap {ops : List StoreOp} {op : StoreOp}
    (hops : ∀ o ∈ ops ++ [op], o.AttachesOwned owner) :
    AnswersAs (run containers ops) (TwoLevelMap.run (meanings containers ops)) ∧
      (∀ m, (run containers ops).mapExists m = true →
        (run containers ops).step (.create m) = run containers ops ∧
        ∀ map, (run containers ops).step (.attach m map) = run containers ops) ∧
      LeavesOthers op (run containers ops) ((run containers ops).step op) := by
  have hops' : ∀ o ∈ ops, o.AttachesOwned owner := fun o ho ↦ hops o (List.mem_append_left _ ho)
  have hs : Separate owner (run containers ops) := separate_run hops'
  have habs : (run containers ops).toMap = TwoLevelMap.run (meanings containers ops) :=
    Simulation.abs_foldl (I := Separate owner) (P := StoreOp.AttachesOwned owner) toMap
      (fun _ _ hs hop ↦ hs.step hop) (fun _ op hs _ ↦ toMap_step hs op) separate_start hops'
  refine ⟨habs ▸ answersAs_toMap _, fun m hm ↦ ?_, leavesOthers_step hs op⟩
  refine ⟨create_of_mapExists hm, fun map ↦ ?_⟩
  cases map with
  | none => rfl
  | some k => rw [step, attach_of_mapExists hm]; rfl

/-- What the launcher does, and a script that then writes into the attached library. -/
def launcherOps : List StoreOp :=
  [.create "configurations".toList, .create "source_code_storage".toList,
    .create "typescript_storage".toList, .attach "typescript_library".toList (some 0),
    .write "source_code_storage".toList "file:///a.ts".toList (.pointer "let a".toList),
    .write "typescript_library".toList "notes".toList (.string "longer than sixteen".toList)]

theorem memoryMapper_refines_twoLevelMap_launcherOps :
    (run (fun _ ↦ ∅) launcherOps).listKeys "typescript_library".toList = ["notes".toList] ∧
      AnswersAs (run (fun _ ↦ ∅) launcherOps)
        (TwoLevelMap.run (meanings (fun _ ↦ ∅) launcherOps)) :=
  ⟨by decide, (@memoryMapper_refines_twoLevelMap (fun _ ↦ "typescript_library".toList) (fun _ ↦ ∅)
    launcherOps (.erase "configurations".toList) (by simp [launcherOps, StoreOp.AttachesOwned])).1⟩

end Store

end SlimTS
