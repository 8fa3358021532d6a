import Mathlib.Data.Fintype.Basic
import SlimTS.Common.MemoryMapper
import SlimTS.Library.Transition

/-!
# Concurrent writes to the in-memory store

Any number of calls of `write` on one store, each cut into its critical sections: the two `exists`
tests, the assignment of a new container in `create`, the lookup of the container, and the insertion
of the file. A run is a schedule, the list of the calls in the order in which they take their steps.

`create` does not test again under the mutex it assigns under. A call that has seen no map may
therefore assign a new container over one that another call has made since, and what that other
call writes, or has written, goes with the container it looked up. `writes_readable_iff` says that
this is the only way to lose a file.
-/

namespace SlimTS

namespace Store

/-- The body of `create`, under `write_mutex`. -/
def assignNew (s : Store) (mapName : Str) : Store where
  maps := s.maps.insert mapName (.created s.created)
  heap := Function.update s.heap (.created s.created) ∅
  created := s.created + 1

/-- The body of `write`, under `write_mutex`. -/
def insertEntry (s : Store) (id : ContainerId) (fileName : Str) (content : ContentVariant) :
    Store :=
  { s with heap := Function.update s.heap id ((s.heap id).insert fileName content.stored) }

variable (s : Store) (m f : Str) (id : ContainerId) (content : ContentVariant)

theorem assignNew_maps :
    (s.assignNew m).maps = s.maps.insert m (.created s.created) := rfl
theorem assignNew_heap :
    (s.assignNew m).heap = Function.update s.heap (.created s.created) ∅ := rfl
@[simp] theorem assignNew_created : (s.assignNew m).created = s.created + 1 := rfl

@[simp] theorem insertEntry_maps : (s.insertEntry id f content).maps = s.maps := rfl
theorem insertEntry_heap : (s.insertEntry id f content).heap
    = Function.update s.heap id ((s.heap id).insert f content.stored) := rfl
@[simp] theorem insertEntry_created : (s.insertEntry id f content).created = s.created := rfl

theorem lookup_assignNew (m' : Str) : (s.assignNew m').maps.lookup m
    = if m = m' then some (.created s.created) else s.maps.lookup m := by
  rw [assignNew_maps]
  split
  · next h => rw [h, AList.lookup_insert]
  · next h => exact AList.lookup_insert_ne h

/-- An insertion shows under the name of its own file only. -/
theorem lookup_heap_insertEntry_of_ne {f' : Str} (h : f' ≠ f) (id' : ContainerId) :
    ((s.insertEntry id f content).heap id').lookup f' = (s.heap id').lookup f' := by
  rw [insertEntry_heap, Function.update_apply]
  split
  · next hid => rw [AList.lookup_insert_ne h, hid]
  · rfl

/-- Containers yet to be made are under no name. -/
def NamesMade (s : Store) : Prop := ∀ m k, s.maps.lookup m = some (.created k) → k < s.created

theorem NamesMade.assignNew {s : Store} (h : s.NamesMade) (m : Str) :
    (s.assignNew m).NamesMade := by
  intro m' k hk
  rw [lookup_assignNew] at hk
  split at hk
  · rw [Option.some_inj, ContainerId.created.injEq] at hk
    rw [assignNew_created]
    omega
  · exact Nat.lt_succ_of_lt (h m' k hk)

theorem NamesMade.step {s : Store} (h : s.NamesMade) (op : StoreOp) : (s.step op).NamesMade := by
  have hcreate : ∀ m, (s.create m).NamesMade := fun m ↦ by
    rw [create]
    split
    · exact h
    · exact h.assignNew m
  cases op with
  | attach m map =>
    cases map with
    | none => exact h
    | some k =>
      rw [Store.step, attach]
      split
      · exact h
      · intro m' k hk
        rcases lookup_insert_eq_some_iff.mp hk with ⟨-, hk⟩ | ⟨-, hk⟩
        · exact absurd hk (by simp)
        · exact h m' k hk
  | create m => exact hcreate m
  | erase m =>
    rw [Store.step, erase]
    split
    · exact fun m' k hk ↦ h m' k (lookup_erase_eq_some_iff.mp hk).2
    · exact h
  | write m f content =>
    rw [Store.step, write_eq]
    obtain ⟨id, hid⟩ := mapExists_eq_true.mp (mapExists_create s m)
    rw [setEntry_of_lookup hid]
    exact hcreate m

theorem namesMade_run (containers : ℕ → MapContainer) (ops : List StoreOp) :
    (run containers ops).NamesMade := by
  have hstart : (start containers).NamesMade := fun m k hk ↦ absurd hk (by simp [start])
  exact List.foldlRecOn ops Store.step hstart fun s h op _ ↦ h.step op

end Store

/-! ## The calls -/

/-- The arguments of a call of `write`. -/
structure WriteCall where
  mapName : Str
  fileName : Str
  content : ContentVariant

/-- Where a call of `write` stands. -/
inductive WritePhase
  /-- Before the test of `write`. -/
  | testing
  /-- In `create`, before the test. -/
  | creating
  /-- In `create`, which has seen no map: it is about to assign one. -/
  | assigning
  /-- Before the lookup of the container. -/
  | looking
  /-- It has the container, and is about to insert the file. -/
  | inserting (id : ContainerId)
  | returned
deriving DecidableEq

/-- The call has looked up its container. -/
def WritePhase.hasLooked : WritePhase → Bool
  | .inserting _ | .returned => true
  | _ => false

/-- The next step of a call. The lookup of a name that leads nowhere would be undefined. -/
def WriteCall.next (call : WriteCall) (store : Store) : WritePhase → Option (Store × WritePhase)
  | .testing => some (store, if store.mapExists call.mapName then .looking else .creating)
  | .creating => some (store, if store.mapExists call.mapName then .looking else .assigning)
  | .assigning => some (store.assignNew call.mapName, .looking)
  | .looking => (store.maps.lookup call.mapName).map fun id ↦ (store, .inserting id)
  | .inserting id => some (store.insertEntry id call.fileName call.content, .returned)
  | .returned => none

/-- The store, and where each of the calls stands. -/
structure WritesState (n : ℕ) where
  store : Store
  phase : Fin n → WritePhase

namespace WritesState

variable {n : ℕ} (calls : Fin n → WriteCall)

/-- No call has begun. -/
def start (store : Store) : WritesState n := ⟨store, fun _ ↦ .testing⟩

/-- A step that only moves a call on. -/
def moveTo (s : WritesState n) (i : Fin n) (phase : WritePhase) : WritesState n :=
  { s with phase := Function.update s.phase i phase }

/-- One step of the system: the next step of one of the calls. -/
def step (s : WritesState n) (i : Fin n) : Option (WritesState n) :=
  ((calls i).next s.store (s.phase i)).map fun next ↦ ⟨next.1, Function.update s.phase i next.2⟩

/-- What the calls have written can be read. -/
def AllReadable (s : WritesState n) : Prop :=
  ∀ i, s.store.read (calls i).mapName (calls i).fileName = some (calls i).content.content

/-- A step does not assign a container over one that another call has looked up. -/
def KeepsContainer (s : WritesState n) (i : Fin n) : Prop :=
  s.phase i = .assigning →
    ∀ j, (calls j).mapName = (calls i).mapName → (s.phase j).hasLooked = false

instance (s : WritesState n) (i : Fin n) : Decidable (KeepsContainer calls s i) :=
  inferInstanceAs (Decidable (_ → _))

variable {calls} {s s' : WritesState n} {i j : Fin n}

/-- Where a call stands after one of the calls has moved. -/
theorem phase_cases {phase phase' : WritePhase}
    (h : Function.update s.phase i phase j = phase') :
    j = i ∧ phase = phase' ∨ j ≠ i ∧ s.phase j = phase' := by
  by_cases hji : j = i
  · subst hji
    exact .inl ⟨rfl, (Function.update_self _ _ _).symm.trans h⟩
  · exact .inr ⟨hji, (Function.update_of_ne hji _ _).symm.trans h⟩

/-- What a step can do. -/
inductive Effect (calls : Fin n → WriteCall) (s : WritesState n) (i : Fin n) :
    WritesState n → Prop
  /-- A test that finds a map. -/
  | found (hphase : (s.phase i).hasLooked = false)
      (hexists : s.store.mapExists (calls i).mapName = true) :
      Effect calls s i (s.moveTo i .looking)
  /-- A test that finds none. -/
  | missed (phase : WritePhase) (hphase : (s.phase i).hasLooked = false)
      (hnext : phase = .creating ∨ phase = .assigning) : Effect calls s i (s.moveTo i phase)
  | assign (hphase : s.phase i = .assigning) :
      Effect calls s i
        ⟨s.store.assignNew (calls i).mapName, Function.update s.phase i .looking⟩
  | look (id : ContainerId) (hphase : s.phase i = .looking)
      (hid : s.store.maps.lookup (calls i).mapName = some id) :
      Effect calls s i (s.moveTo i (.inserting id))
  | insert (id : ContainerId) (hphase : s.phase i = .inserting id) :
      Effect calls s i
        ⟨s.store.insertEntry id (calls i).fileName (calls i).content,
          Function.update s.phase i .returned⟩

theorem effect_of_step (h : step calls s i = some s') : Effect calls s i s' := by
  have hlooked : ∀ phase, s.phase i = phase → phase.hasLooked = false →
      (s.phase i).hasLooked = false := fun phase hphase hfalse ↦ hphase ▸ hfalse
  obtain ⟨⟨store, phase⟩, hnext, rfl⟩ := Option.map_eq_some_iff.mp h
  cases hphase : s.phase i with
  | testing =>
    rw [hphase, WriteCall.next, Option.some_inj, Prod.mk.injEq] at hnext
    obtain ⟨rfl, rfl⟩ := hnext
    split
    · next hexists => exact .found (hlooked _ hphase rfl) hexists
    · exact .missed _ (hlooked _ hphase rfl) (.inl rfl)
  | creating =>
    rw [hphase, WriteCall.next, Option.some_inj, Prod.mk.injEq] at hnext
    obtain ⟨rfl, rfl⟩ := hnext
    split
    · next hexists => exact .found (hlooked _ hphase rfl) hexists
    · exact .missed _ (hlooked _ hphase rfl) (.inr rfl)
  | assigning =>
    rw [hphase, WriteCall.next, Option.some_inj, Prod.mk.injEq] at hnext
    obtain ⟨rfl, rfl⟩ := hnext
    exact .assign hphase
  | looking =>
    rw [hphase, WriteCall.next, Option.map_eq_some_iff] at hnext
    obtain ⟨id, hid, heq⟩ := hnext
    obtain ⟨rfl, rfl⟩ := Prod.mk.injEq _ _ _ _ ▸ heq
    exact .look id hphase hid
  | inserting id =>
    rw [hphase, WriteCall.next, Option.some_inj, Prod.mk.injEq] at hnext
    obtain ⟨rfl, rfl⟩ := hnext
    exact .insert id hphase
  | returned =>
    rw [hphase, WriteCall.next] at hnext
    exact absurd hnext (by simp)

/-! ## What holds in every run -/

/-- The invariant of all runs. -/
structure WritesInv (calls : Fin n → WriteCall) (s : WritesState n) : Prop where
  namesMade : s.store.NamesMade
  /-- Containers yet to be made are in no call's hands. -/
  held_lt : ∀ i k, s.phase i = .inserting (.created k) → k < s.store.created
  /-- A call that is about to look up its container will find one. -/
  looking : ∀ i, s.phase i = .looking → s.store.mapExists (calls i).mapName = true

theorem writesInv_start {store : Store} (h : store.NamesMade) : WritesInv calls (start store) where
  namesMade := h
  held_lt _ _ hphase := absurd hphase (by simp [start])
  looking _ hphase := absurd hphase (by simp [start])

theorem WritesInv.step (inv : WritesInv calls s) (h : step calls s i = some s') :
    WritesInv calls s' := by
  -- A call that moves does not change what the others hold.
  have hheld : ∀ phase : WritePhase, (∀ id, phase ≠ .inserting id) →
      ∀ j k, Function.update s.phase i phase j = .inserting (.created k) →
        k < s.store.created := by
    intro phase hphase j k hj
    rcases phase_cases hj with ⟨-, heq⟩ | ⟨-, hj⟩
    · exact absurd heq (hphase _)
    · exact inv.held_lt j k hj
  have hlooking : ∀ phase : WritePhase, phase ≠ .looking →
      ∀ j, Function.update s.phase i phase j = .looking →
        s.store.mapExists (calls j).mapName = true := by
    intro phase hphase j hj
    rcases phase_cases hj with ⟨-, heq⟩ | ⟨-, hj⟩
    · exact absurd heq hphase
    · exact inv.looking j hj
  cases effect_of_step h with
  | found hphase hexists =>
    refine ⟨inv.namesMade, hheld _ (by simp), ?_⟩
    intro j hj
    rcases phase_cases hj with ⟨rfl, -⟩ | ⟨-, hj⟩
    · exact hexists
    · exact inv.looking j hj
  | missed phase hphase hnext =>
    refine ⟨inv.namesMade, hheld _ ?_, hlooking _ ?_⟩
    · rcases hnext with rfl | rfl <;> simp
    · rcases hnext with rfl | rfl <;> simp
  | assign hphase =>
    refine ⟨inv.namesMade.assignNew _, ?_, ?_⟩
    · exact fun j k hj ↦ Nat.lt_succ_of_lt (hheld _ (by simp) j k hj)
    · intro j hj
      rw [Store.mapExists, Store.lookup_assignNew]
      split
      · rfl
      · next hm =>
        rcases phase_cases hj with ⟨rfl, -⟩ | ⟨-, hj⟩
        · exact absurd rfl hm
        · exact inv.looking j hj
  | look id hphase hid =>
    refine ⟨inv.namesMade, ?_, hlooking _ (by simp)⟩
    intro j k hj
    rcases phase_cases hj with ⟨rfl, heq⟩ | ⟨-, hj⟩
    · exact inv.namesMade _ k (WritePhase.inserting.inj heq ▸ hid)
    · exact inv.held_lt j k hj
  | insert id hphase => exact ⟨inv.namesMade, hheld _ (by simp), hlooking _ (by simp)⟩

/-! ## Runs that keep the containers -/

/-- What is written, or about to be, is under its name. -/
structure Kept (calls : Fin n → WriteCall) (s : WritesState n) : Prop where
  held : ∀ i id, s.phase i = .inserting id → s.store.maps.lookup (calls i).mapName = some id
  written : ∀ i, s.phase i = .returned →
    ∃ id, s.store.maps.lookup (calls i).mapName = some id ∧
      (s.store.heap id).lookup (calls i).fileName = some (calls i).content.stored

theorem kept_start (store : Store) : Kept calls (start store) where
  held _ _ hphase := absurd hphase (by simp [start])
  written _ hphase := absurd hphase (by simp [start])

/-- A call that has its container after a step which leaves the stepping call without one had it
before. -/
theorem phase_of_hasLooked {phase phase' : WritePhase} (hphase : phase.hasLooked = false)
    (hphase' : phase'.hasLooked = true) (h : Function.update s.phase i phase j = phase') :
    s.phase j = phase' := by
  rcases phase_cases h with ⟨-, rfl⟩ | ⟨-, hj⟩
  · exact absurd (hphase.symm.trans hphase') (by decide)
  · exact hj

theorem Kept.moveTo (kept : Kept calls s) {phase : WritePhase} (hphase : phase.hasLooked = false) :
    Kept calls (s.moveTo i phase) where
  held j id hj := kept.held j id (phase_of_hasLooked hphase rfl hj)
  written j hj := kept.written j (phase_of_hasLooked hphase rfl hj)

theorem Kept.assign (kept : Kept calls s) (inv : WritesInv calls s)
    (hphase : s.phase i = .assigning) (hkeeps : KeepsContainer calls s i) :
    Kept calls ⟨s.store.assignNew (calls i).mapName, Function.update s.phase i .looking⟩ := by
  -- A call past its lookup is for another map.
  have hmap : ∀ j phase, s.phase j = phase → phase.hasLooked = true →
      (calls j).mapName ≠ (calls i).mapName := by
    intro j phase hj hlooked hname
    have hfalse := hkeeps hphase j hname
    rw [hj, hlooked] at hfalse
    exact absurd hfalse (by decide)
  refine ⟨?_, ?_⟩
  · intro j id hj
    replace hj := phase_of_hasLooked rfl rfl hj
    rw [Store.lookup_assignNew, if_neg (hmap j _ hj rfl)]
    exact kept.held j id hj
  · intro j hj
    replace hj := phase_of_hasLooked rfl rfl hj
    obtain ⟨id, hid, hfile⟩ := kept.written j hj
    have hne : id ≠ .created s.store.created := by
      rintro rfl
      exact absurd (inv.namesMade _ _ hid) (lt_irrefl _)
    refine ⟨id, ?_, ?_⟩
    · rw [Store.lookup_assignNew, if_neg (hmap j _ hj rfl)]
      exact hid
    · rw [Store.assignNew_heap, Function.update_of_ne hne]
      exact hfile

theorem Kept.insert (kept : Kept calls s)
    (hdistinct : Function.Injective fun i ↦ (calls i).fileName) {id : ContainerId}
    (hphase : s.phase i = .inserting id) :
    Kept calls ⟨s.store.insertEntry id (calls i).fileName (calls i).content,
      Function.update s.phase i .returned⟩ := by
  refine ⟨?_, ?_⟩
  · intro j id' hj
    rcases phase_cases hj with ⟨-, heq⟩ | ⟨-, hj⟩
    · exact absurd heq (by simp)
    · exact kept.held j id' hj
  · intro j hj
    rcases phase_cases hj with ⟨rfl, -⟩ | ⟨hji, hj⟩
    · refine ⟨id, kept.held j id hphase, ?_⟩
      rw [Store.insertEntry_heap, Function.update_self, AList.lookup_insert]
    · obtain ⟨id', hid', hfile⟩ := kept.written j hj
      refine ⟨id', hid', ?_⟩
      rw [Store.lookup_heap_insertEntry_of_ne _ _ _ _ (hdistinct.ne hji)]
      exact hfile

theorem Kept.step (kept : Kept calls s) (inv : WritesInv calls s)
    (hdistinct : Function.Injective fun i ↦ (calls i).fileName)
    (hkeeps : KeepsContainer calls s i) (h : step calls s i = some s') : Kept calls s' := by
  cases effect_of_step h with
  | found => exact kept.moveTo rfl
  | missed phase hphase hnext =>
    refine kept.moveTo ?_
    rcases hnext with rfl | rfl <;> rfl
  | assign hphase => exact kept.assign inv hphase hkeeps
  | look id hphase hid =>
    refine ⟨?_, ?_⟩
    · intro j id' hj
      rcases phase_cases hj with ⟨rfl, heq⟩ | ⟨-, hj⟩
      · exact WritePhase.inserting.inj heq ▸ hid
      · exact kept.held j id' hj
    · intro j hj
      rcases phase_cases hj with ⟨-, heq⟩ | ⟨-, hj⟩
      · exact absurd heq (by simp)
      · exact kept.written j hj
  | insert id hphase => exact kept.insert hdistinct hphase

theorem Kept.allReadable (kept : Kept calls s) (hreturned : ∀ i, s.phase i = .returned) :
    AllReadable calls s := by
  intro i
  obtain ⟨id, hid, hfile⟩ := kept.written i (hreturned i)
  rw [Store.read, hid]
  simp only [hfile, Option.map_some, ContentVariant.content_stored]

/-! ## Runs that lose one -/

/-- The file of a call is in none of the containers from the `k₀`-th on, the call will not put it
there, and its name leads to one of them. -/
structure Lost (calls : Fin n → WriteCall) (j : Fin n) (k₀ : ℕ) (s : WritesState n) : Prop where
  hasLooked : (s.phase j).hasLooked = true
  held : ∀ k, k₀ ≤ k → s.phase j ≠ .inserting (.created k)
  name : ∃ k, k₀ ≤ k ∧ s.store.maps.lookup (calls j).mapName = some (.created k)
  absent : ∀ k, k₀ ≤ k → k < s.store.created →
    (s.store.heap (.created k)).lookup (calls j).fileName = none

/-- A new container over one that a call has looked up. -/
theorem lost_of_not_keepsContainer (inv : WritesInv calls s) (h : step calls s i = some s')
    (hkeeps : ¬KeepsContainer calls s i) : ∃ j k₀, Lost calls j k₀ s' := by
  simp only [KeepsContainer, Classical.not_imp, not_forall, Bool.not_eq_false] at hkeeps
  obtain ⟨hphase, j, hname, hlooked⟩ := hkeeps
  rw [WritesState.step, hphase] at h
  obtain rfl := Option.some_inj.mp h
  have hji : j ≠ i := by
    rintro rfl
    rw [hphase] at hlooked
    exact absurd hlooked (by decide)
  have hj : Function.update s.phase i .looking j = s.phase j := Function.update_of_ne hji _ _
  -- The new container has nothing in it, and the call that has looked writes to an older one.
  refine ⟨j, s.store.created, ?_, ?_, ?_, ?_⟩
  · exact (congrArg WritePhase.hasLooked hj).trans hlooked
  · intro k hk heq
    exact absurd (inv.held_lt j k (hj.symm.trans heq)) (by omega)
  · refine ⟨s.store.created, le_rfl, ?_⟩
    rw [Store.lookup_assignNew, if_pos hname]
  · intro k hk hlt
    obtain rfl : k = s.store.created := by
      rw [Store.assignNew_created] at hlt
      omega
    rw [Store.assignNew_heap, Function.update_self, AList.lookup_empty]

theorem Lost.moveTo {k₀ : ℕ} (lost : Lost calls j k₀ s) (hji : j ≠ i) (phase : WritePhase) :
    Lost calls j k₀ (s.moveTo i phase) := by
  have hj : (s.moveTo i phase).phase j = s.phase j := Function.update_of_ne hji _ _
  exact ⟨hj ▸ lost.hasLooked, fun k hk ↦ hj ▸ lost.held k hk, lost.name, lost.absent⟩

theorem Lost.assign {k₀ : ℕ} (lost : Lost calls j k₀ s) (inv : WritesInv calls s) (hji : j ≠ i) :
    Lost calls j k₀
      ⟨s.store.assignNew (calls i).mapName, Function.update s.phase i .looking⟩ := by
  have hj : Function.update s.phase i .looking j = s.phase j := Function.update_of_ne hji _ _
  obtain ⟨k₁, hk₁, hname⟩ := lost.name
  have hlt := inv.namesMade _ _ hname
  refine ⟨(congrArg _ hj).trans lost.hasLooked,
    fun k hk heq ↦ lost.held k hk (hj.symm.trans heq), ?_, ?_⟩
  · rw [Store.lookup_assignNew]
    split
    · exact ⟨_, by omega, rfl⟩
    · exact ⟨k₁, hk₁, hname⟩
  · intro k hk hkc
    rw [Store.assignNew_heap, Function.update_apply]
    split
    · exact AList.lookup_empty _
    · next hne =>
      have hne' : k ≠ s.store.created := fun h ↦ hne (h ▸ rfl)
      rw [Store.assignNew_created] at hkc
      exact lost.absent k hk (by omega)

theorem Lost.insert {k₀ : ℕ} (lost : Lost calls j k₀ s)
    (hdistinct : Function.Injective fun i ↦ (calls i).fileName) {id : ContainerId}
    (hphase : s.phase i = .inserting id) :
    Lost calls j k₀ ⟨s.store.insertEntry id (calls i).fileName (calls i).content,
      Function.update s.phase i .returned⟩ := by
  by_cases hji : j = i
  · subst hji
    refine ⟨?_, ?_, lost.name, ?_⟩
    · simp only [Function.update_self]
      rfl
    · simp
    · intro k hk hkc
      have hid : (ContainerId.created k) ≠ id := fun h ↦ lost.held k hk (h ▸ hphase)
      rw [Store.insertEntry_heap, Function.update_of_ne hid]
      exact lost.absent k hk hkc
  · have hj : Function.update s.phase i .returned j = s.phase j := Function.update_of_ne hji _ _
    refine ⟨(congrArg _ hj).trans lost.hasLooked,
      fun k hk heq ↦ lost.held k hk (hj.symm.trans heq), lost.name, ?_⟩
    intro k hk hkc
    rw [Store.lookup_heap_insertEntry_of_ne _ _ _ _ (hdistinct.ne hji)]
    exact lost.absent k hk hkc

theorem Lost.step {k₀ : ℕ} (lost : Lost calls j k₀ s) (inv : WritesInv calls s)
    (hdistinct : Function.Injective fun i ↦ (calls i).fileName)
    (h : step calls s i = some s') : Lost calls j k₀ s' := by
  -- Only a call with a container inserts, and every other step is another call's.
  have hother : (s.phase i).hasLooked = false → j ≠ i := by
    rintro hphase rfl
    rw [lost.hasLooked] at hphase
    exact absurd hphase (by decide)
  cases effect_of_step h with
  | found hphase => exact lost.moveTo (hother hphase) _
  | missed phase hphase => exact lost.moveTo (hother hphase) _
  | assign hphase => exact lost.assign inv (hother (by rw [hphase]; rfl))
  | look id hphase => exact lost.moveTo (hother (by rw [hphase]; rfl)) _
  | insert id hphase => exact lost.insert hdistinct hphase

theorem Lost.not_allReadable {k₀ : ℕ} (lost : Lost calls j k₀ s) (inv : WritesInv calls s) :
    ¬AllReadable calls s := by
  intro hread
  obtain ⟨k, hk, hname⟩ := lost.name
  have hj := hread j
  rw [Store.read, hname] at hj
  simp only [lost.absent k hk (inv.namesMade _ k hname), Option.map_none] at hj
  exact absurd hj (by simp)

/-! ## Every interleaving -/

/-- **No write is lost but to a second container.** After calls with different file names, on any
store a program can have made, in any interleaving in which all of them return: every file can be
read from its map as it was written if and only if no step has assigned a container over one that
another call had looked up. -/
theorem writes_readable_iff (hdistinct : Function.Injective fun i ↦ (calls i).fileName)
    (containers : ℕ → MapContainer) (ops : List StoreOp) {schedule : List (Fin n)}
    (hrun : Transition.runFrom (step calls) (start (Store.run containers ops)) schedule = some s)
    (hreturned : ∀ i, s.phase i = .returned) :
    AllReadable calls s ↔
      Transition.Meets (step calls) (KeepsContainer calls) (start (Store.run containers ops))
        schedule := by
  have inv₀ : WritesInv calls (start (Store.run containers ops)) :=
    writesInv_start (Store.namesMade_run containers ops)
  constructor
  · contrapose!
    intro hnot
    -- The first step that gives a map another container loses a file for good.
    obtain ⟨before, i, after, t, rfl, ht, hkeeps⟩ := Transition.exists_of_not_meets hnot
    have invt : WritesInv calls t :=
      Transition.invariant_of_run (fun _ _ _ inv h ↦ inv.step h) inv₀ ht
    rw [Transition.runFrom_append, ht, Option.bind_some] at hrun
    obtain ⟨t', ht', hrun⟩ := Transition.runFrom_cons.mp hrun
    obtain ⟨j, k₀, lost⟩ := lost_of_not_keepsContainer invt ht' hkeeps
    have hend : WritesInv calls s ∧ Lost calls j k₀ s :=
      Transition.invariant_of_run (I := fun s ↦ WritesInv calls s ∧ Lost calls j k₀ s)
        (fun _ _ _ h hstep ↦ ⟨h.1.step hstep, h.2.step h.1 hdistinct hstep⟩)
        ⟨invt.step ht', lost⟩ hrun
    exact hend.2.not_allReadable hend.1
  · intro hmeets
    have hend : WritesInv calls s ∧ Kept calls s :=
      Transition.invariant_of_meets (I := fun s ↦ WritesInv calls s ∧ Kept calls s)
        (fun _ _ _ h hkeeps hstep ↦ ⟨h.1.step hstep, h.2.step h.1 hdistinct hkeeps hstep⟩)
        ⟨inv₀, kept_start _⟩ hmeets hrun
    exact hend.2.allReadable hreturned

/-- Two writes to a map that does not exist. -/
def newMapCalls : Fin 2 → WriteCall
  | 0 => ⟨"m".toList, "/a.ts".toList, .string "a".toList⟩
  | 1 => ⟨"m".toList, "/b.ts".toList, .string "b".toList⟩

/-- Both make a container, and the second is there before either looks it up. -/
theorem writes_readable_iff_newMap :
    ∃ s, Transition.runFrom (step newMapCalls) (start (Store.run (fun _ ↦ ∅) []))
        [0, 1, 0, 1, 0, 1, 0, 1, 0, 1] = some s ∧
      (AllReadable newMapCalls s ↔
        Transition.Meets (step newMapCalls) (KeepsContainer newMapCalls)
          (start (Store.run (fun _ ↦ ∅) [])) [0, 1, 0, 1, 0, 1, 0, 1, 0, 1]) :=
  ⟨_, rfl, writes_readable_iff (by decide) _ [] rfl (by decide)⟩

/-- The second makes its container after the first has written. -/
theorem writes_newMap_lost :
    Function.Injective (fun i ↦ (newMapCalls i).fileName) ∧
    ∃ s, Transition.runFrom (step newMapCalls) (start (Store.run (fun _ ↦ ∅) []))
        [0, 1, 0, 1, 0, 0, 0, 1, 1, 1] = some s ∧
      (∀ i, s.phase i = .returned) ∧ s.store.read "m".toList "/a.ts".toList = none :=
  ⟨by decide, _, rfl, by decide, by decide⟩

end WritesState

end SlimTS
