/-
Devices and the indexes over their entities (`Device`, `DeviceIndex`,
`DeviceUniqueIndex`, `DeviceMultiIndex`).

A device is a strictly increasing array of entities.  An index finds the
devices by some of the fields of their entities, either one device for each
value or several.  For the store it does not matter which: both relate values
to keys of devices, and every operation of an index says what it does to that
relation (`Finds`, `Has`).
-/
import NctuSdn.Device.Entity
import NctuSdn.Lib.BinarySearch
import NctuSdn.Lib.Index
import NctuSdn.Lib.SetMap
import Mathlib.Data.List.Sort

namespace NctuSdn.Devices

open List

/-! ### Devices -/

/-- `IEntityClass`. -/
structure EntityClass where
  name : String
  keyFields : KeyFields
deriving DecidableEq

abbrev DeviceKey := BitVec 64

/-- `Device`; `A` is what it knows of its attachment points. -/
structure Device (A : Type*) where
  deviceKey : DeviceKey
  entities : List Entity
  entityClass : EntityClass
  attachment : A

namespace Device

variable {A : Type*}

def ofEntities (deviceKey : DeviceKey) (attachment : A) (entities : List Entity)
    (entityClass : EntityClass) : Device A where
  deviceKey := deviceKey
  entities := entities.insertionSort fun e o => e.compareTo o ≠ .gt
  entityClass := entityClass
  attachment := attachment

/-- The constructor for one more entity, at its insertion point. -/
def insertEntity (device : Device A) (newEntity : Entity) (insertionpoint : ℕ) : Device A :=
  { device with
    entities :=
      device.entities.take insertionpoint ++ newEntity :: device.entities.drop insertionpoint }

def entityIndex (device : Device A) (entity : Entity) : SearchResult :=
  binarySearch Entity.compareTo device.entities entity

def equals (device other : Device A) : Bool :=
  device.deviceKey = other.deviceKey && device.entities.isEqv other.entities Entity.equals

/-- The array is strictly increasing under `compareTo`. -/
def Sorted (device : Device A) : Prop :=
  device.entities.Pairwise fun e o => e.compareTo o = .lt

theorem equals_self (device : Device A) : device.equals device = true := by
  have hentities : ∀ es : List Entity, es.isEqv es Entity.equals = true := by
    intro es
    induction es with
    | nil => rfl
    | cons e es ih => rw [isEqv, e.equals_self, ih, Bool.and_self]
  rw [equals, hentities, decide_eq_true rfl, Bool.and_self]

theorem ofEntities_entities {deviceKey : DeviceKey} {attachment : A} {es : List Entity}
    {entityClass : EntityClass} (h : es.Pairwise fun e o => e.compareTo o = .lt) :
    (ofEntities deviceKey attachment es entityClass).entities = es := by
  refine Pairwise.insertionSort_eq (h.imp fun hlt => ?_)
  rw [hlt]
  exact Ordering.noConfusion

theorem mem_insertEntity {device : Device A} {e o : Entity} {i : ℕ} :
    o ∈ (device.insertEntity e i).entities ↔ o = e ∨ o ∈ device.entities := by
  have hsplit : o ∈ device.entities ↔ o ∈ device.entities.take i ∨ o ∈ device.entities.drop i := by
    rw [← mem_append, take_append_drop]
  rw [hsplit]
  unfold insertEntity
  rw [mem_append, mem_cons]
  tauto

end Device

/-! ### Indexes -/

/-- Whether one of the others has the key fields of an entity, so that
`removeEntityIfNeeded` leaves the index alone. -/
def isShared (keyFields : KeyFields) (entity : Entity) (others : List Entity) : Bool :=
  others.any fun o => IndexedEntity.new keyFields o = IndexedEntity.new keyFields entity

theorem isShared_eq_false {keyFields : KeyFields} {e : Entity} {others : List Entity} :
    isShared keyFields e others = false ↔
      ∀ o ∈ others, IndexedEntity.new keyFields o ≠ IndexedEntity.new keyFields e := by
  simp [isShared]

structure DeviceUniqueIndex where
  keyFields : KeyFields
  index : Finmap fun _ : IndexedEntity => DeviceKey

namespace DeviceUniqueIndex

def new (keyFields : KeyFields) : DeviceUniqueIndex := ⟨keyFields, ∅⟩

def findByEntity (idx : DeviceUniqueIndex) (entity : Entity) : Option DeviceKey :=
  idx.index.lookup (.new idx.keyFields entity)

/-- `updateIndex` with the entities of a device; it fails at the first one that
another device has. -/
def updateIndex (idx : DeviceUniqueIndex) (entities : List Entity) (deviceKey : DeviceKey) :
    DeviceUniqueIndex × Bool :=
  match entities with
  | [] => (idx, true)
  | e :: entities =>
    let ie := IndexedEntity.new idx.keyFields e
    if !ie.hasNonNullKeys then updateIndex idx entities deviceKey
    else
      match idx.index.lookup ie with
      | none =>
        updateIndex { idx with index := idx.index.insert ie deviceKey } entities deviceKey
      | some ret =>
        if ret ≠ deviceKey then (idx, false) else updateIndex idx entities deviceKey

def removeEntity (idx : DeviceUniqueIndex) (entity : Entity) (deviceKey : DeviceKey) :
    DeviceUniqueIndex :=
  let ie := IndexedEntity.new idx.keyFields entity
  if idx.index.lookup ie = some deviceKey then { idx with index := idx.index.erase ie } else idx

def removeEntityIfNeeded (idx : DeviceUniqueIndex) (entity : Entity) (deviceKey : DeviceKey)
    (others : List Entity) : DeviceUniqueIndex :=
  if isShared idx.keyFields entity others then idx
  else if idx.findByEntity entity = some deviceKey then idx.removeEntity entity deviceKey
  else idx

def Finds (idx : DeviceUniqueIndex) (ie : IndexedEntity) (k : DeviceKey) : Prop :=
  idx.index.lookup ie = some k

end DeviceUniqueIndex

structure DeviceMultiIndex where
  keyFields : KeyFields
  index : SetMap IndexedEntity DeviceKey

namespace DeviceMultiIndex

def new (keyFields : KeyFields) : DeviceMultiIndex := ⟨keyFields, ∅⟩

def updateIndex (idx : DeviceMultiIndex) (entity : Entity) (deviceKey : DeviceKey) :
    DeviceMultiIndex :=
  let ie := IndexedEntity.new idx.keyFields entity
  if !ie.hasNonNullKeys then idx else { idx with index := idx.index.add ie deviceKey }

def queryByEntity (idx : DeviceMultiIndex) (entity : Entity) : Finset DeviceKey :=
  idx.index.get (.new idx.keyFields entity)

def removeEntity (idx : DeviceMultiIndex) (entity : Entity) (deviceKey : DeviceKey) :
    DeviceMultiIndex :=
  { idx with index := idx.index.sub (.new idx.keyFields entity) deviceKey }

def removeEntityIfNeeded (idx : DeviceMultiIndex) (entity : Entity) (deviceKey : DeviceKey)
    (others : List Entity) : DeviceMultiIndex :=
  if isShared idx.keyFields entity others then idx
  else if deviceKey ∈ idx.queryByEntity entity then idx.removeEntity entity deviceKey
  else idx

def Has (idx : DeviceMultiIndex) (ie : IndexedEntity) (k : DeviceKey) : Prop :=
  k ∈ idx.index.get ie

end DeviceMultiIndex

/-! ### What the operations do -/

theorem not_lost_of_isShared {keyFields : KeyFields} {e : Entity} {others : List Entity}
    (h : isShared keyFields e others = true) (y : IndexedEntity) (k j : DeviceKey) :
    ¬ (j = k ∧ IndexedEntity.new keyFields e = y ∧
      ∀ o ∈ others, IndexedEntity.new keyFields o ≠ y) := by
  rintro ⟨-, rfl, hother⟩
  rw [isShared_eq_false.mpr hother] at h
  cases h

/-- The loop over the entities that a device loses, for both kinds of index:
what is said of one removal holds of all of them. -/
theorem foldl_remove {I : Type*} (keyFields : I → KeyFields)
    (R : I → IndexedEntity → DeviceKey → Prop) {remove : I → Entity → I} {k : DeviceKey}
    {kept : List Entity} (hfields : ∀ i e, keyFields (remove i e) = keyFields i)
    (hremove : ∀ i e y j, R (remove i e) y j ↔
      R i y j ∧ ¬ (j = k ∧ IndexedEntity.new (keyFields i) e = y ∧
        ∀ o ∈ kept, IndexedEntity.new (keyFields i) o ≠ y))
    (removed : List Entity) (i : I) :
    keyFields (removed.foldl remove i) = keyFields i ∧
      ∀ y j, R (removed.foldl remove i) y j ↔
        R i y j ∧ ¬ ∃ e ∈ removed, j = k ∧ IndexedEntity.new (keyFields i) e = y ∧
          ∀ o ∈ kept, IndexedEntity.new (keyFields i) o ≠ y := by
  induction removed generalizing i with
  | nil => simp
  | cons e removed ih =>
    obtain ⟨hrest, hR⟩ := ih (remove i e)
    rw [foldl_cons, hrest, hfields]
    refine ⟨rfl, fun y j => ?_⟩
    rw [hR, hfields, hremove, and_assoc]
    simp only [mem_cons, exists_eq_or_imp, not_or]

namespace DeviceUniqueIndex

variable {idx : DeviceUniqueIndex} {e : Entity} {k j : DeviceKey} {others es : List Entity}
  {y : IndexedEntity}

theorem Finds.unique {j' : DeviceKey} (h : idx.Finds y j) (h' : idx.Finds y j') : j = j' :=
  Option.some.inj (h.symm.trans h')

@[simp] theorem keyFields_removeEntityIfNeeded :
    (idx.removeEntityIfNeeded e k others).keyFields = idx.keyFields := by
  unfold removeEntityIfNeeded removeEntity
  dsimp only
  split_ifs <;> rfl

theorem finds_removeEntityIfNeeded : (idx.removeEntityIfNeeded e k others).Finds y j ↔
    idx.Finds y j ∧ ¬ (j = k ∧ IndexedEntity.new idx.keyFields e = y ∧
      ∀ o ∈ others, IndexedEntity.new idx.keyFields o ≠ y) := by
  unfold removeEntityIfNeeded
  cases hshared : isShared idx.keyFields e others with
  | true =>
    rw [if_pos rfl]
    exact (and_iff_left (not_lost_of_isShared hshared y k j)).symm
  | false =>
    rw [if_neg Bool.false_ne_true]
    have hother := isShared_eq_false.mp hshared
    unfold findByEntity removeEntity
    by_cases hmine : idx.index.lookup (.new idx.keyFields e) = some k
    · rw [if_pos hmine, if_pos hmine]
      unfold Finds
      by_cases hy : y = .new idx.keyFields e
      · subst hy
        rw [Finmap.lookup_erase, hmine]
        refine ⟨nofun, ?_⟩
        rintro ⟨hj, hnot⟩
        exact absurd ⟨(Option.some.inj hj).symm, rfl, hother⟩ hnot
      · rw [Finmap.lookup_erase_ne hy]
        exact ⟨fun hfinds => ⟨hfinds, fun h => hy h.2.1.symm⟩, And.left⟩
    · rw [if_neg hmine]
      refine ⟨fun hfinds => ⟨hfinds, ?_⟩, And.left⟩
      rintro ⟨rfl, rfl, -⟩
      exact hmine hfinds

theorem updateIndex_cons (es : List Entity)
    (hfree : ∀ j, idx.Finds (.new idx.keyFields e) j → j = k) :
    ∃ idx' : DeviceUniqueIndex, idx.updateIndex (e :: es) k = idx'.updateIndex es k ∧
      idx'.keyFields = idx.keyFields ∧
      ∀ y j, idx'.Finds y j ↔ idx.Finds y j ∨
        y.hasNonNullKeys = true ∧ j = k ∧ IndexedEntity.new idx.keyFields e = y := by
  rw [updateIndex]
  cases hnull : (IndexedEntity.new idx.keyFields e).hasNonNullKeys with
  | false =>
    refine ⟨idx, rfl, rfl, fun y j => ⟨.inl, ?_⟩⟩
    rintro (hfinds | ⟨hnonnull, -, rfl⟩)
    · exact hfinds
    · rw [hnull] at hnonnull
      cases hnonnull
  | true =>
    rw [Bool.not_true, if_neg Bool.false_ne_true]
    cases hlookup : idx.index.lookup (.new idx.keyFields e) with
    | none =>
      refine ⟨_, rfl, rfl, fun y j => ?_⟩
      unfold Finds
      by_cases hy : y = .new idx.keyFields e
      · subst hy
        rw [Finmap.lookup_insert, hlookup]
        simp [hnull, eq_comm]
      · rw [Finmap.lookup_insert_of_ne _ hy]
        exact ⟨.inl, fun h => h.resolve_right fun h => hy h.2.2.symm⟩
    | some ret =>
      obtain rfl : ret = k := hfree ret hlookup
      dsimp only
      rw [if_neg (not_not_intro rfl)]
      refine ⟨idx, rfl, rfl, fun y j => ⟨.inl, ?_⟩⟩
      rintro (hfinds | ⟨-, rfl, rfl⟩)
      · exact hfinds
      · exact hlookup

theorem updateIndex_spec (hfree : ∀ e ∈ es, ∀ j, idx.Finds (.new idx.keyFields e) j → j = k) :
    (idx.updateIndex es k).2 = true ∧ (idx.updateIndex es k).1.keyFields = idx.keyFields ∧
      ∀ y j, (idx.updateIndex es k).1.Finds y j ↔ idx.Finds y j ∨
        y.hasNonNullKeys = true ∧ j = k ∧ ∃ e ∈ es, IndexedEntity.new idx.keyFields e = y := by
  induction es generalizing idx with
  | nil => simp [updateIndex]
  | cons e es ih =>
    obtain ⟨idx', heq, hfields, hfinds⟩ :=
      updateIndex_cons es (hfree e mem_cons_self)
    have hrest : ∀ o ∈ es, ∀ j, idx'.Finds (.new idx'.keyFields o) j → j = k := by
      intro o ho j hj
      rw [hfields, hfinds] at hj
      rcases hj with hj | ⟨-, rfl, -⟩
      · exact hfree o (mem_cons_of_mem _ ho) j hj
      · rfl
    obtain ⟨htrue, hfields', hfinds'⟩ := ih hrest
    rw [heq]
    refine ⟨htrue, hfields'.trans hfields, fun y j => ?_⟩
    rw [hfinds', hfinds, hfields]
    simp only [mem_cons, exists_eq_or_imp]
    tauto

end DeviceUniqueIndex

namespace DeviceMultiIndex

variable {idx : DeviceMultiIndex} {e : Entity} {k j : DeviceKey} {others : List Entity}
  {y : IndexedEntity}

@[simp] theorem keyFields_updateIndex : (idx.updateIndex e k).keyFields = idx.keyFields := by
  unfold updateIndex
  dsimp only
  split_ifs <;> rfl

@[simp] theorem keyFields_removeEntityIfNeeded :
    (idx.removeEntityIfNeeded e k others).keyFields = idx.keyFields := by
  unfold removeEntityIfNeeded removeEntity
  split_ifs <;> rfl

theorem has_updateIndex : (idx.updateIndex e k).Has y j ↔
    idx.Has y j ∨ y.hasNonNullKeys = true ∧ IndexedEntity.new idx.keyFields e = y ∧ j = k := by
  unfold updateIndex
  dsimp only
  cases hnull : (IndexedEntity.new idx.keyFields e).hasNonNullKeys with
  | false =>
    rw [Bool.not_false, if_pos rfl]
    refine ⟨.inl, ?_⟩
    rintro (hhas | ⟨hnonnull, rfl, -⟩)
    · exact hhas
    · rw [hnull] at hnonnull
      cases hnonnull
  | true =>
    rw [Bool.not_true, if_neg Bool.false_ne_true]
    unfold Has
    rw [SetMap.mem_get_add]
    refine or_congr_right ⟨?_, ?_⟩
    · rintro ⟨rfl, rfl⟩
      exact ⟨hnull, rfl, rfl⟩
    · rintro ⟨-, rfl, rfl⟩
      exact ⟨rfl, rfl⟩

theorem has_removeEntityIfNeeded : (idx.removeEntityIfNeeded e k others).Has y j ↔
    idx.Has y j ∧ ¬ (j = k ∧ IndexedEntity.new idx.keyFields e = y ∧
      ∀ o ∈ others, IndexedEntity.new idx.keyFields o ≠ y) := by
  unfold removeEntityIfNeeded
  cases hshared : isShared idx.keyFields e others with
  | true =>
    rw [if_pos rfl]
    exact (and_iff_left (not_lost_of_isShared hshared y k j)).symm
  | false =>
    rw [if_neg Bool.false_ne_true]
    have hother := isShared_eq_false.mp hshared
    by_cases hmine : k ∈ idx.queryByEntity e
    · rw [if_pos hmine]
      unfold Has removeEntity
      rw [SetMap.mem_get_sub]
      refine and_congr_right fun _ => not_congr ⟨?_, ?_⟩
      · rintro ⟨rfl, rfl⟩
        exact ⟨rfl, rfl, hother⟩
      · rintro ⟨rfl, rfl, -⟩
        exact ⟨rfl, rfl⟩
    · rw [if_neg hmine]
      refine ⟨fun hhas => ⟨hhas, ?_⟩, And.left⟩
      rintro ⟨rfl, rfl, -⟩
      exact hmine hhas

end DeviceMultiIndex

end NctuSdn.Devices
