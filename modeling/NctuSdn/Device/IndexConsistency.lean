/-
The indexes of the device manager agree with its devices.

With `DefaultEntityClassifier` all entities are of one class, and a device is
found by the fields of the primary index.  Then an operation does one of three
things to the store of entities: an entity gets another time, a device gets one
more entity, or a device loses some.  `Sound` is kept by each of them.

A new device gets the next key of a counter.  The counter has 64 bits, so a key
comes round again after that many devices.  `KeysFresh` says that no device has
the key that is taken.
-/
import NctuSdn.Device.DeviceManager
import NctuSdn.Lib.Search
import Mathlib.Algebra.Ring.Nat

namespace NctuSdn.Devices

open List Function Finmap

/-- A classifier with one class, whose devices are found by the primary
index. -/
structure EntityClassifier.Uniform (cl : EntityClassifier) (c : EntityClass) : Prop where
  classify : ∀ e, cl.classifyEntity e = some c
  fields : cl.keyFields = c.keyFields
  mac : .mac ∈ cl.keyFields

theorem defaultEntityClassifier_uniform :
    defaultEntityClassifier.Uniform defaultEntityClass where
  classify := fun _ => rfl
  fields := rfl
  mac := by decide

def entitiesOf {A : Type*} (devices : Finmap fun _ : DeviceKey => Device A) :
    DeviceKey → List Entity :=
  fun k => (devices.lookup k).elim [] Device.entities

section EntitiesOf

variable {A : Type*} {devices : Finmap fun _ : DeviceKey => Device A} {k : DeviceKey}
  {d : Device A}

theorem entitiesOf_of_lookup (h : devices.lookup k = some d) :
    entitiesOf devices k = d.entities := by
  unfold entitiesOf
  rw [h]
  rfl

theorem mem_entitiesOf {e : Entity} :
    e ∈ entitiesOf devices k ↔ ∃ d, devices.lookup k = some d ∧ e ∈ d.entities := by
  unfold entitiesOf
  cases devices.lookup k <;> simp

theorem entitiesOf_insert :
    entitiesOf (devices.insert k d) = Function.update (entitiesOf devices) k d.entities := by
  funext j
  unfold entitiesOf
  by_cases hj : j = k
  · rw [hj, lookup_insert, update_self]
    rfl
  · rw [lookup_insert_of_ne _ hj, update_of_ne hj]

theorem entitiesOf_erase :
    entitiesOf (devices.erase k) = Function.update (entitiesOf devices) k [] := by
  funext j
  unfold entitiesOf
  by_cases hj : j = k
  · rw [hj, lookup_erase, update_self]
    rfl
  · rw [lookup_erase_ne hj, update_of_ne hj]

end EntitiesOf

namespace DeviceManager

variable {A : Type*} {cl : EntityClassifier} {c : EntityClass} {m m' : DeviceManager A}

/-! ### The state of the class -/

variable (cl c m) in
/-- The state of a class, which is made when it is first needed. -/
def classStateOf : ClassState := (m.getClassState cl c).1

variable (cl c m) in
theorem getClassState_eq : ∃ m₁, m.getClassState cl c = (m.classStateOf cl c, m₁) ∧
    (∃ states, m₁ = { m with classStateMap := states }) ∧
      m₁.classStateOf cl c = m.classStateOf cl c := by
  unfold classStateOf getClassState
  cases hlookup : m.classStateMap.lookup c.name with
  | some state =>
    refine ⟨m, rfl, ⟨m.classStateMap, rfl⟩, ?_⟩
    rw [hlookup]
  | none =>
    refine ⟨_, rfl, ⟨_, rfl⟩, ?_⟩
    rw [lookup_insert]

@[simp] theorem classStateOf_setClassState {state : ClassState} :
    (m.setClassState c state).classStateOf cl c = state := by
  unfold classStateOf getClassState setClassState
  rw [lookup_insert]

theorem classStateOf_congr (hstates : m'.classStateMap = m.classStateMap)
    (hfields : m'.perClassIndices = m.perClassIndices) :
    m'.classStateOf cl c = m.classStateOf cl c := by
  unfold classStateOf getClassState newClassState
  rw [hstates, hfields]
  cases m.classStateMap.lookup c.name <;> rfl

/-! ### What the operations on indexes do -/

/-- The devices are left alone. -/
structure SameDevices (m m' : DeviceManager A) : Prop where
  deviceMap : m'.deviceMap = m.deviceMap
  counter : m'.deviceKeyCounter = m.deviceKeyCounter
  perClass : m'.perClassIndices = m.perClassIndices

theorem SameDevices.trans {m'' : DeviceManager A} (h : m.SameDevices m')
    (h' : m'.SameDevices m'') : m.SameDevices m'' :=
  ⟨h'.deviceMap.trans h.deviceMap, h'.counter.trans h.counter, h'.perClass.trans h.perClass⟩

theorem updateIndices_eq {device : Device A} {k : DeviceKey}
    (hclass : (m.classStateOf cl device.entityClass).classIndex = none)
    (hok : (m.primaryIndex.updateIndex device.entities k).2 = true) :
    ∃ m', m.updateIndices cl device k = (m', true) ∧ m.SameDevices m' ∧
      m'.primaryIndex = (m.primaryIndex.updateIndex device.entities k).1 ∧
      m'.classStateOf cl device.entityClass = m.classStateOf cl device.entityClass := by
  unfold updateIndices
  rcases hupdate : m.primaryIndex.updateIndex device.entities k with ⟨primaryIndex, ok⟩
  rw [hupdate] at hok
  dsimp only at hok ⊢
  rw [hok, Bool.not_true, if_neg Bool.false_ne_true]
  have hsame : ({ m with primaryIndex := primaryIndex } : DeviceManager A).classStateOf cl
      device.entityClass = m.classStateOf cl device.entityClass := classStateOf_congr rfl rfl
  obtain ⟨m₁, heq, ⟨states, rfl⟩, hstate⟩ := getClassState_eq cl device.entityClass
    { m with primaryIndex := primaryIndex }
  rw [heq, hsame]
  rw [hclass]
  exact ⟨_, rfl, ⟨rfl, rfl, rfl⟩, rfl, hstate.trans hsame⟩

variable (cl c m) in
theorem getClassState_secondary (secondary : SecondaryIndexMap) :
    ∃ states, ({ m with secondaryIndexMap := secondary } : DeviceManager A).getClassState cl c =
      (m.classStateOf cl c,
        { m with secondaryIndexMap := secondary, classStateMap := states }) := by
  have hsame : ({ m with secondaryIndexMap := secondary } : DeviceManager A).classStateOf cl c =
      m.classStateOf cl c := classStateOf_congr rfl rfl
  obtain ⟨m₁, heq, ⟨states, rfl⟩, -⟩ := getClassState_eq cl c
    { m with secondaryIndexMap := secondary }
  exact ⟨states, heq.trans (by rw [hsame])⟩

variable (cl c m) in
theorem updateSecondaryIndices_spec (e : Entity) (k : DeviceKey) :
    m.SameDevices (m.updateSecondaryIndices cl e c k) ∧
      (m.updateSecondaryIndices cl e c k).primaryIndex = m.primaryIndex ∧
      (m.updateSecondaryIndices cl e c k).classStateOf cl c =
        ⟨(m.classStateOf cl c).classIndex, onEachIndex (m.classStateOf cl c).secondaryIndexMap
          fun index => index.updateIndex e k⟩ := by
  unfold updateSecondaryIndices
  dsimp only
  generalize onEachIndex m.secondaryIndexMap (fun index => index.updateIndex e k) = secondary
  obtain ⟨states, heq⟩ := getClassState_secondary cl c m secondary
  rw [heq]
  exact ⟨⟨rfl, rfl, rfl⟩, rfl, classStateOf_setClassState⟩

variable (cl c m) in
theorem removeEntity_spec (e : Entity) (k : DeviceKey) (others : List Entity) :
    m.SameDevices (m.removeEntity cl e c k others) ∧
      (m.removeEntity cl e c k others).primaryIndex =
        m.primaryIndex.removeEntityIfNeeded e k others ∧
      (m.removeEntity cl e c k others).classStateOf cl c =
        ⟨(m.classStateOf cl c).classIndex.map fun index => index.removeEntityIfNeeded e k others,
          onEachIndex (m.classStateOf cl c).secondaryIndexMap
            fun index => index.removeEntityIfNeeded e k others⟩ := by
  unfold removeEntity
  dsimp only
  generalize onEachIndex m.secondaryIndexMap
    (fun index => index.removeEntityIfNeeded e k others) = secondary
  obtain ⟨states, heq⟩ := getClassState_secondary cl c m secondary
  rw [heq]
  exact ⟨⟨rfl, rfl, rfl⟩, rfl, classStateOf_setClassState⟩

/-! ### The invariant -/

variable (cl c m) in
/-- Each index lists the entities of the devices, which are of one class and
have sorted entities. -/
structure Sound : Prop where
  fields : m.primaryIndex.keyFields = cl.keyFields
  primary : Lists m.primaryIndex.Finds (IndexedEntity.new cl.keyFields)
    (fun x => x.hasNonNullKeys = true) (entitiesOf m.deviceMap)
  noClassIndex : (m.classStateOf cl c).classIndex = none
  secondary : ∀ F ∈ m.perClassIndices, ∃ index,
    (m.classStateOf cl c).secondaryIndexMap F = some index ∧ index.keyFields = F ∧
      Lists index.Has (IndexedEntity.new F) (fun x => x.hasNonNullKeys = true)
        (entitiesOf m.deviceMap)
  devices : ∀ k d, m.deviceMap.lookup k = some d →
    d.deviceKey = k ∧ d.entityClass = c ∧ d.entities ≠ [] ∧ d.Sorted
  perClass : {.ipv4} ∈ m.perClassIndices

theorem sound_startUp (hcl : cl.Uniform c) : (startUp cl : DeviceManager A).Sound cl c where
  fields := rfl
  primary := by
    refine lists_empty (fun x k => ?_) fun k => rfl
    unfold DeviceUniqueIndex.Finds startUp DeviceUniqueIndex.new
    rw [lookup_empty]
    exact nofun
  noClassIndex := by
    unfold classStateOf getClassState startUp
    rw [lookup_empty]
    exact if_pos hcl.fields
  secondary := by
    intro F hF
    refine ⟨.new F, ?_, rfl, lists_empty (fun x k => ?_) fun k => rfl⟩
    · unfold classStateOf getClassState startUp
      rw [lookup_empty]
      exact if_pos hF
    · unfold DeviceMultiIndex.Has DeviceMultiIndex.new
      rw [SetMap.get_empty]
      exact Finset.notMem_empty k
  devices := fun k d hd => by
    unfold startUp at hd
    rw [lookup_empty] at hd
    cases hd
  perClass := Finset.mem_singleton_self _

section Steps

variable {k : DeviceKey} {d d' : Device A} {e : Entity}

theorem Sound.same (h : m.Sound cl c) (hmap : m'.deviceMap = m.deviceMap)
    (hper : m'.perClassIndices = m.perClassIndices) (hprimary : m'.primaryIndex = m.primaryIndex)
    (hclass : m'.classStateOf cl c = m.classStateOf cl c) : m'.Sound cl c := by
  refine ⟨?_, ?_, ?_, ?_, ?_, hper.symm ▸ h.perClass⟩
  · rw [hprimary]
    exact h.fields
  · rw [hprimary, hmap]
    exact h.primary
  · rw [hclass]
    exact h.noClassIndex
  · rw [hper, hclass, hmap]
    exact h.secondary
  · rw [hmap]
    exact h.devices

theorem Sound.devices_insert (h : m.Sound cl c) (hkey : d'.deviceKey = k)
    (hclass : d'.entityClass = c) (hne : d'.entities ≠ []) (hsorted : d'.Sorted) :
    ∀ j d, (m.deviceMap.insert k d').lookup j = some d →
      d.deviceKey = j ∧ d.entityClass = c ∧ d.entities ≠ [] ∧ d.Sorted := by
  intro j d hd
  by_cases hj : j = k
  · subst hj
    rw [lookup_insert] at hd
    cases hd
    exact ⟨hkey, hclass, hne, hsorted⟩
  · rw [lookup_insert_of_ne _ hj] at hd
    exact h.devices j d hd

/-- **Times and attachment points** may change. -/
theorem Sound.touch (h : m.Sound cl c) (hd : m.deviceMap.lookup k = some d)
    (hkey : d'.deviceKey = d.deviceKey) (hclass : d'.entityClass = d.entityClass)
    (hes : d'.entities.map Entity.fields = d.entities.map Entity.fields) :
    Sound cl c { m with deviceMap := m.deviceMap.insert k d' } := by
  obtain ⟨hk, hc, hne, hsorted⟩ := h.devices k d hd
  have hne' : d'.entities ≠ [] := by
    intro hnil
    rw [hnil, map_nil, eq_comm, map_eq_nil_iff] at hes
    exact hne hes
  have hsorted' : d'.Sorted := by
    have hfields : (d.entities.map Entity.fields).Pairwise fun e o => e.compareTo o = .lt :=
      pairwise_map.mpr hsorted
    rw [← hes] at hfields
    exact pairwise_map.mp hfields
  have hvalues : ∀ F j,
      (entitiesOf (m.deviceMap.insert k d') j).map (IndexedEntity.new F) =
        (entitiesOf m.deviceMap j).map (IndexedEntity.new F) := by
    intro F j
    rw [entitiesOf_insert]
    by_cases hj : j = k
    · subst hj
      rw [update_self, entitiesOf_of_lookup hd]
      have hmap := congrArg (List.map (IndexedEntity.new F)) hes
      rwa [map_map, map_map] at hmap
    · rw [update_of_ne hj]
  have hstate : classStateOf cl c { m with deviceMap := m.deviceMap.insert k d' } =
      m.classStateOf cl c := classStateOf_congr rfl rfl
  refine ⟨h.fields, h.primary.congr (hvalues _), ?_, fun F hF => ?_,
    h.devices_insert (hkey.trans hk) (hclass.trans hc) hne' hsorted', h.perClass⟩
  · rw [hstate]
    exact h.noClassIndex
  · obtain ⟨index, hindex, hfields, hlists⟩ := h.secondary F hF
    rw [hstate]
    exact ⟨index, hindex, hfields, hlists.congr (hvalues F)⟩

theorem enter_spec (hfields : m.primaryIndex.keyFields = cl.keyFields)
    (hnoClass : (m.classStateOf cl c).classIndex = none) (hclass : d'.entityClass = c)
    (hfree : ∀ o ∈ d'.entities, ∀ j, m.primaryIndex.Finds (.new cl.keyFields o) j → j = k) :
    ∃ m₁, m.updateIndices cl d' k = (m₁, true) ∧
      m.SameDevices (m₁.updateSecondaryIndices cl e c k) ∧
      (m₁.updateSecondaryIndices cl e c k).primaryIndex.keyFields = cl.keyFields ∧
      (∀ y j, (m₁.updateSecondaryIndices cl e c k).primaryIndex.Finds y j ↔
        m.primaryIndex.Finds y j ∨ y.hasNonNullKeys = true ∧ j = k ∧
          ∃ o ∈ d'.entities, IndexedEntity.new cl.keyFields o = y) ∧
      (m₁.updateSecondaryIndices cl e c k).classStateOf cl c =
        ⟨none, onEachIndex (m.classStateOf cl c).secondaryIndexMap
          fun index => index.updateIndex e k⟩ := by
  subst hclass
  rw [← hfields] at hfree ⊢
  obtain ⟨hok, hfields', hfinds⟩ := DeviceUniqueIndex.updateIndex_spec hfree
  obtain ⟨m₁, hm₁, hsame₁, hprimary₁, hstate₁⟩ := updateIndices_eq hnoClass hok
  obtain ⟨hsame₂, hprimary₂, hstate₂⟩ :=
    updateSecondaryIndices_spec cl d'.entityClass m₁ e k
  rw [hprimary₁] at hprimary₂
  rw [hstate₁, hnoClass] at hstate₂
  refine ⟨m₁, hm₁, hsame₁.trans hsame₂, ?_, ?_, hstate₂⟩
  · rw [hprimary₂]
    exact hfields'
  · rw [hprimary₂]
    exact hfinds

/-- **One more entity**, which no other device has. -/
theorem Sound.grow (hcl : cl.Uniform c) (h : m.Sound cl c) (hkey : d'.deviceKey = k)
    (hclass : d'.entityClass = c) (hsorted : d'.Sorted)
    (hes : ∀ o, o ∈ d'.entities ↔ o = e ∨ o ∈ entitiesOf m.deviceMap k)
    (hfree : ∀ j, m.primaryIndex.Finds (.new cl.keyFields e) j → j = k) :
    ∃ m₁, updateIndices cl { m with deviceMap := m.deviceMap.insert k d' } d' k = (m₁, true) ∧
      SameDevices { m with deviceMap := m.deviceMap.insert k d' }
        (m₁.updateSecondaryIndices cl e c k) ∧
      (m₁.updateSecondaryIndices cl e c k).Sound cl c := by
  have hstate : classStateOf cl c { m with deviceMap := m.deviceMap.insert k d' } =
      m.classStateOf cl c := classStateOf_congr rfl rfl
  -- the old entities are listed already
  have hold : ∀ o ∈ entitiesOf m.deviceMap k, m.primaryIndex.Finds (.new cl.keyFields o) k :=
    fun o ho => (h.primary _ k).mpr ⟨IndexedEntity.hasNonNullKeys_new hcl.mac o, o, ho, rfl⟩
  have hall : ∀ o ∈ d'.entities, ∀ j, m.primaryIndex.Finds (.new cl.keyFields o) j → j = k := by
    intro o ho j hj
    rcases (hes o).mp ho with rfl | ho
    · exact hfree j hj
    · exact hj.unique (hold o ho)
  obtain ⟨m₁, hm₁, hsame, hfields, hfinds, hclassState⟩ :=
    enter_spec (m := { m with deviceMap := m.deviceMap.insert k d' }) (e := e) h.fields
      (hstate ▸ h.noClassIndex) hclass hall
  rw [hstate] at hclassState
  refine ⟨m₁, hm₁, hsame, hfields, ?_, ?_, ?_, ?_, hsame.perClass.symm ▸ h.perClass⟩
  · rw [hsame.deviceMap, entitiesOf_insert]
    refine h.primary.add hes fun y j => (hfinds y j).trans ?_
    constructor
    · rintro (hy | ⟨hy, rfl, o, ho, hvalue⟩)
      · exact .inl hy
      · rcases (hes o).mp ho with rfl | ho
        · exact .inr ⟨hy, hvalue, rfl⟩
        · exact .inl (hvalue ▸ hold o ho)
    · rintro (hy | ⟨hy, hvalue, rfl⟩)
      · exact .inl hy
      · exact .inr ⟨hy, rfl, e, (hes e).mpr (.inl rfl), hvalue⟩
  · rw [hclassState]
  · intro F hF
    rw [hsame.perClass] at hF
    obtain ⟨index, hindex, hF', hlists⟩ := h.secondary F hF
    refine ⟨index.updateIndex e k, ?_, ?_, ?_⟩
    · rw [hclassState]
      exact congrArg (Option.map _) hindex
    · rw [DeviceMultiIndex.keyFields_updateIndex, hF']
    · rw [hsame.deviceMap, entitiesOf_insert]
      refine hlists.add hes fun y j => ?_
      rw [DeviceMultiIndex.has_updateIndex, hF']
  · rw [hsame.deviceMap]
    refine h.devices_insert hkey hclass ?_ hsorted
    exact ne_nil_of_mem ((hes e).mpr (.inl rfl))

variable (cl c) in
theorem removeEntities_spec (removed : List Entity) (k : DeviceKey) (kept : List Entity)
    (m : DeviceManager A) :
    m.SameDevices (m.removeEntities cl removed c k kept) ∧
      (m.removeEntities cl removed c k kept).primaryIndex =
        removed.foldl (fun index e => index.removeEntityIfNeeded e k kept) m.primaryIndex ∧
      ((m.removeEntities cl removed c k kept).classStateOf cl c).classIndex =
        (m.classStateOf cl c).classIndex.map
          (removed.foldl fun index e => index.removeEntityIfNeeded e k kept) ∧
      ∀ F, ((m.removeEntities cl removed c k kept).classStateOf cl c).secondaryIndexMap F =
        ((m.classStateOf cl c).secondaryIndexMap F).map
          (removed.foldl fun index e => index.removeEntityIfNeeded e k kept) := by
  induction removed generalizing m with
  | nil => exact ⟨⟨rfl, rfl, rfl⟩, rfl, by simp [removeEntities], fun F => by simp [removeEntities]⟩
  | cons e removed ih =>
    obtain ⟨hsame, hprimary, hstate⟩ := removeEntity_spec cl c m e k kept
    obtain ⟨hsame', hprimary', hclass', hsecondary'⟩ := ih (m.removeEntity cl e c k kept)
    rw [hprimary] at hprimary'
    rw [hstate] at hclass' hsecondary'
    refine ⟨hsame.trans hsame', hprimary', hclass'.trans ?_, fun F => (hsecondary' F).trans ?_⟩
    · exact Option.map_map _ _ _
    · exact Option.map_map _ _ _

/-- **Some entities less**: the indexes forget what no entity that stays has. -/
theorem Sound.shrink (h : m.Sound cl c) {removed kept : List Entity}
    (hsplit : ∀ e, e ∈ entitiesOf m.deviceMap k ↔ e ∈ removed ∨ e ∈ kept)
    {devices : Finmap fun _ : DeviceKey => Device A}
    (hstore : entitiesOf devices = Function.update (entitiesOf m.deviceMap) k kept)
    (hdevices : ∀ k d, devices.lookup k = some d →
      d.deviceKey = k ∧ d.entityClass = c ∧ d.entities ≠ [] ∧ d.Sorted) :
    Sound cl c { m.removeEntities cl removed c k kept with deviceMap := devices } := by
  obtain ⟨hsame, hprimary, hclass, hsecondary⟩ :=
    removeEntities_spec cl c removed k kept m
  obtain ⟨hfields, hfinds⟩ := foldl_remove DeviceUniqueIndex.keyFields DeviceUniqueIndex.Finds
    (fun _ _ => DeviceUniqueIndex.keyFields_removeEntityIfNeeded)
    (fun _ _ _ _ => DeviceUniqueIndex.finds_removeEntityIfNeeded) removed m.primaryIndex
  have hstate : classStateOf cl c
      { m.removeEntities cl removed c k kept with deviceMap := devices } =
        (m.removeEntities cl removed c k kept).classStateOf cl c := classStateOf_congr rfl rfl
  rw [← hprimary] at hfields hfinds
  rw [h.fields] at hfields hfinds
  refine ⟨hfields, ?_, ?_, fun F hF => ?_, hdevices, hsame.perClass.symm ▸ h.perClass⟩
  · rw [hstore]
    exact h.primary.shrink hsplit hfinds
  · rw [hstate, hclass, h.noClassIndex]
    rfl
  · obtain ⟨index, hindex, hF', hlists⟩ := h.secondary F (hsame.perClass ▸ hF)
    obtain ⟨hfields', hhas⟩ := foldl_remove DeviceMultiIndex.keyFields DeviceMultiIndex.Has
      (fun _ _ => DeviceMultiIndex.keyFields_removeEntityIfNeeded)
      (fun _ _ _ _ => DeviceMultiIndex.has_removeEntityIfNeeded) removed index
    rw [hF'] at hfields' hhas
    refine ⟨_, ?_, hfields', ?_⟩
    · rw [hstate, hsecondary, hindex]
      rfl
    · rw [hstore]
      exact hlists.shrink hsplit hhas

end Steps

/-! ### Learning -/

variable (cl c) in
/-- What an operation does, if a key that it takes from the counter is fresh. -/
structure Follows (m m' : DeviceManager A) : Prop where
  sound : (m'.deviceKeyCounter ≠ m.deviceKeyCounter → m.deviceKeyCounter ∉ m.deviceMap) →
    m'.Sound cl c
  counter : m'.deviceKeyCounter = m.deviceKeyCounter ∨
    m'.deviceKeyCounter = m.deviceKeyCounter + 1
  keys : ∀ j ∈ m'.deviceMap, j ∈ m.deviceMap ∨
    j = m.deviceKeyCounter ∧ m'.deviceKeyCounter = m.deviceKeyCounter + 1

theorem Sound.follows (h : m'.Sound cl c) (hcounter : m'.deviceKeyCounter = m.deviceKeyCounter)
    (hkeys : ∀ j ∈ m'.deviceMap, j ∈ m.deviceMap) : Follows cl c m m' :=
  ⟨fun _ => h, .inl hcounter, fun j hj => .inl (hkeys j hj)⟩

/-- A round of the loop ends the loop, in a state with a property. -/
def Ends (P : DeviceManager A → Prop) (deleteQueue : List DeviceKey) : LearnStep A → Prop
  | .again _ _ => False
  | .done m queue _ _ => P m ∧ queue = deleteQueue
  | .refused m => P m
  | .raised m => P m

theorem Ends.imp {P Q : DeviceManager A → Prop} {deleteQueue : List DeviceKey} {s : LearnStep A}
    (h : Ends P deleteQueue s) (himp : ∀ m, P m → Q m) : Ends Q deleteQueue s := by
  cases s with
  | again m queue => exact h
  | done m queue device updates => exact ⟨himp m h.1, h.2⟩
  | refused m | raised m => exact himp m h

section Learning

variable {env : DeviceEnvironment A} {k : DeviceKey} {d d' : Device A} {e : Entity}
  {deleteQueue : List DeviceKey}

theorem mem_insert_of_lookup {devices : Finmap fun _ : DeviceKey => Device A}
    (hd : devices.lookup k = some d) : ∀ j ∈ devices.insert k d', j ∈ devices := by
  intro j hj
  rcases mem_insert.mp hj with rfl | hj
  · exact mem_of_lookup_eq_some hd
  · exact hj

theorem replace_eq (hd : m.deviceMap.lookup k = some d) :
    m.replace k d d' = ({ m with deviceMap := m.deviceMap.insert k d' }, true) := by
  unfold replace
  rw [hd]
  exact if_pos d.equals_self

theorem allowed {entityClass : EntityClass} : ¬ (!isEntityAllowed e entityClass) = true :=
  Bool.false_ne_true

theorem map_fields_modify (es : List Entity) (i : ℕ) (t : BitVec 64) :
    (es.modify i fun e => e.setLastSeenTimestamp t).map Entity.fields =
      es.map Entity.fields := by
  induction es generalizing i with
  | nil => cases i <;> rfl
  | cons e es ih =>
    cases i with
    | zero => rfl
    | succ i => simp [ih]

theorem attach_ends {P : DeviceManager A → Prop} {lastSeen : Option (BitVec 64)}
    {updates : List (DeviceUpdate A)} (hm : P m)
    (htouch : ∀ a, P { m with deviceMap := m.deviceMap.insert k { d with attachment := a } }) :
    Ends P deleteQueue (attach env m e k d lastSeen deleteQueue updates) := by
  unfold attach
  cases e.switchPort? with
  | none => exact ⟨hm, rfl⟩
  | some swp =>
    cases lastSeen with
    | none => exact hm
    | some time => exact ⟨htouch _, rfl⟩

/-- **A device that is known**: its entity gets another time, or it gets one
more entity. -/
theorem learnKnown_ends (hcl : cl.Uniform c) (h : m.Sound cl c) (hd : m.deviceMap.lookup k = some d)
    (hfree : ∀ j, m.primaryIndex.Finds (.new cl.keyFields e) j → j = k) :
    Ends (Follows cl c m) deleteQueue (learnKnown cl env m e k deleteQueue) := by
  obtain ⟨hkey, hclass, hne, hsorted⟩ := h.devices k d hd
  have hsame : Follows cl c m m := h.follows rfl fun j hj => hj
  unfold learnKnown
  rw [hd]
  dsimp only
  rw [if_neg allowed]
  by_cases hinternal : onInternalPort env e = true
  · rw [if_pos hinternal]
    exact ⟨hsame, rfl⟩
  rw [if_neg hinternal]
  unfold Device.entityIndex
  rcases binarySearch_spec e hsorted with ⟨i, x, hfound, -, -⟩ | ⟨i, hinsert, hwindow⟩
  · rw [hfound]
    generalize e.lastSeenTimestamp.getD env.now = lastSeen
    -- the entity gets a time, the device perhaps another attachment point
    have htouched : ∀ a, Follows cl c m
        { m with
          deviceMap := m.deviceMap.insert k ⟨d.deviceKey,
            d.entities.modify i fun e => e.setLastSeenTimestamp lastSeen, d.entityClass, a⟩ } := by
      intro a
      refine Sound.follows ?_ rfl (mem_insert_of_lookup hd)
      exact h.touch hd rfl rfl (map_fields_modify d.entities i lastSeen)
    refine attach_ends (htouched d.attachment) fun a => ?_
    rw [insert_insert]
    exact htouched a
  · rw [hinsert]
    dsimp only
    rw [replace_eq hd]
    have hes : ∀ o, o ∈ (d.insertEntity e i).entities ↔ o = e ∨ o ∈ entitiesOf m.deviceMap k := by
      intro o
      rw [Device.mem_insertEntity, entitiesOf_of_lookup hd]
    have hsorted' : (d.insertEntity e i).Sorted := pairwise_of_insertAt hsorted hwindow
    have hkey' : (d.insertEntity e i).deviceKey = k := hkey
    obtain ⟨m₁, hm₁, hdevices, hsound⟩ := h.grow hcl hkey' hclass hsorted' hes hfree
    rw [hm₁, Bool.not_true, if_neg Bool.false_ne_true]
    rw [if_neg Bool.false_ne_true]
    have hclass' : (d.insertEntity e i).entityClass = c := hclass
    rw [hclass']
    have hnew : (m₁.updateSecondaryIndices cl e c k).deviceMap.lookup k =
        some (d.insertEntity e i) := by
      rw [hdevices.deviceMap, lookup_insert]
    have hkeys : ∀ j ∈ (m₁.updateSecondaryIndices cl e c k).deviceMap, j ∈ m.deviceMap := by
      rw [hdevices.deviceMap]
      exact mem_insert_of_lookup hd
    refine attach_ends (hsound.follows hdevices.counter hkeys) fun a => ?_
    refine Sound.follows (hsound.touch hnew rfl rfl rfl) hdevices.counter fun j hj => ?_
    exact hkeys j (mem_insert_of_lookup hnew j hj)

variable (cl c) in
/-- A device with one entity is entered under the next key. -/
structure Entered (m : DeviceManager A) (e : Entity) (m' : DeviceManager A) : Prop where
  counter : m'.deviceKeyCounter = m.deviceKeyCounter + 1
  store : entitiesOf m'.deviceMap =
    Function.update (entitiesOf m.deviceMap) m.deviceKeyCounter [e]
  keys : ∀ j ∈ m'.deviceMap, j = m.deviceKeyCounter ∨ j ∈ m.deviceMap
  finds : ∀ y j, m.primaryIndex.Finds y j → m'.primaryIndex.Finds y j
  sound : m.deviceKeyCounter ∉ m.deviceMap → m'.Sound cl c

theorem add_one_ne (k : BitVec 64) : k + 1 ≠ k := by
  intro h
  bv_omega

theorem Entered.follows (h : Entered cl c m e m') : Follows cl c m m' where
  sound := fun hfresh => h.sound (hfresh (h.counter ▸ add_one_ne _))
  counter := .inr h.counter
  keys := fun j hj => (h.keys j hj).elim (fun hj => .inr ⟨hj, h.counter⟩) .inl

/-- **A new device**, for an entity that no device has. -/
theorem enter_new (hcl : cl.Uniform c) (h : m.Sound cl c)
    (hnone : ∀ j, ¬ m.primaryIndex.Finds (.new cl.keyFields e) j)
    (hd : d = ⟨m.deviceKeyCounter, [e], c, d.attachment⟩) :
    ∃ m₁, updateIndices cl
        { m with
          deviceKeyCounter := m.deviceKeyCounter + 1
          deviceMap := m.deviceMap.insert m.deviceKeyCounter d } d m.deviceKeyCounter =
            (m₁, true) ∧
      Entered cl c m e (m₁.updateSecondaryIndices cl e c m.deviceKeyCounter) := by
  have hes : d.entities = [e] := congrArg Device.entities hd
  have hclass : d.entityClass = c := congrArg Device.entityClass hd
  have hcounted : Sound cl c { m with deviceKeyCounter := m.deviceKeyCounter + 1 } :=
    h.same rfl rfl rfl (classStateOf_congr rfl rfl)
  have hstate : classStateOf cl c
      { m with
        deviceKeyCounter := m.deviceKeyCounter + 1
        deviceMap := m.deviceMap.insert m.deviceKeyCounter d } = m.classStateOf cl c :=
    classStateOf_congr rfl rfl
  have hfree : ∀ o ∈ d.entities, ∀ j,
      m.primaryIndex.Finds (.new cl.keyFields o) j → j = m.deviceKeyCounter := by
    rw [hes]
    intro o ho j hj
    rw [mem_singleton.mp ho] at hj
    exact absurd hj (hnone j)
  have hentered := enter_spec (e := e) (m := { m with
    deviceKeyCounter := m.deviceKeyCounter + 1
    deviceMap := m.deviceMap.insert m.deviceKeyCounter d }) h.fields (hstate ▸ h.noClassIndex)
    hclass hfree
  obtain ⟨m₁, hm₁, hsame, -, hfinds, -⟩ := hentered
  refine ⟨m₁, hm₁, hsame.counter, ?_, ?_, fun y j hy => (hfinds y j).mpr (.inl hy),
    fun hfresh => ?_⟩
  · rw [hsame.deviceMap, entitiesOf_insert, hes]
  · rw [hsame.deviceMap]
    exact fun j hj => mem_insert.mp hj
  · -- if the key is fresh, the device has the new entity and no other
    have hempty : entitiesOf m.deviceMap m.deviceKeyCounter = [] := by
      unfold entitiesOf
      rw [lookup_eq_none.mpr hfresh]
      rfl
    have hmem : ∀ o, o ∈ d.entities ↔
        o = e ∨ o ∈ entitiesOf m.deviceMap m.deviceKeyCounter := by
      intro o
      rw [hes, hempty]
      simp
    have hsorted : d.Sorted := by
      unfold Device.Sorted
      rw [hes]
      exact pairwise_singleton _ _
    obtain ⟨m₂, hm₂, -, hsound⟩ := hcounted.grow hcl (congrArg Device.deviceKey hd) hclass hsorted
      hmem fun j hj => absurd hj (hnone j)
    obtain rfl : m₂ = m₁ := congrArg Prod.fst (hm₂.symm.trans hm₁)
    exact hsound

theorem allocateDevice_eq {device : Device A} (h : allocateDevice env k e c = some device) :
    device = ⟨k, [e], c, device.attachment⟩ := by
  unfold allocateDevice at h
  split at h
  · cases h
    rfl
  · split at h
    · obtain ⟨lastSeen, -, rfl⟩ := Option.map_eq_some_iff.mp h
      rfl
    · cases h
      rfl

variable (deleteQueue) in
theorem learnNew_eq (hcl : cl.Uniform c) (h : m.Sound cl c)
    (hnone : ∀ j, ¬ m.primaryIndex.Finds (.new cl.keyFields e) j)
    (hinternal : onInternalPort env e = false)
    (hd : allocateDevice env m.deviceKeyCounter e c = some d) :
    ∃ m', Entered cl c m e m' ∧
      learnNew cl env m e c deleteQueue = .done m' deleteQueue (some d) [⟨d, .add, none⟩] := by
  obtain ⟨m₁, hm₁, hentered⟩ := enter_new hcl h hnone (allocateDevice_eq hd)
  refine ⟨_, hentered, ?_⟩
  unfold learnNew
  rw [if_neg (Bool.not_eq_true _ ▸ hinternal), if_neg allowed]
  dsimp only
  rw [hd]
  dsimp only
  rw [hm₁]
  rfl

theorem learnNew_ends (hcl : cl.Uniform c) (h : m.Sound cl c)
    (hnone : ∀ j, ¬ m.primaryIndex.Finds (.new cl.keyFields e) j) :
    Ends (Follows cl c m) deleteQueue (learnNew cl env m e c deleteQueue) := by
  cases hinternal : onInternalPort env e with
  | true =>
    unfold learnNew
    rw [if_pos hinternal]
    exact ⟨h.follows rfl fun j hj => hj, rfl⟩
  | false =>
    cases hd : allocateDevice env m.deviceKeyCounter e c with
    | some d =>
      obtain ⟨m', hentered, heq⟩ := learnNew_eq deleteQueue hcl h hnone hinternal hd
      rw [heq]
      exact ⟨hentered.follows, rfl⟩
    | none =>
      -- the key is taken, but there is no device
      unfold learnNew
      rw [if_neg (Bool.not_eq_true _ ▸ hinternal), if_neg allowed]
      dsimp only
      rw [hd]
      exact ⟨fun _ => h.same rfl rfl rfl (classStateOf_congr rfl rfl), .inr rfl,
        fun j hj => .inl hj⟩

variable (env deleteQueue) in
theorem learnStep_of_none (hcl : cl.Uniform c) (h : m.Sound cl c)
    (hnone : ∀ j, ¬ m.primaryIndex.Finds (.new cl.keyFields e) j) :
    ∃ m₁, learnStep cl env m e deleteQueue = learnNew cl env m₁ e c deleteQueue ∧
      (∃ states, m₁ = { m with classStateMap := states }) ∧ m₁.Sound cl c := by
  obtain ⟨m₁, heq, ⟨states, rfl⟩, hstate⟩ := getClassState_eq cl c m
  refine ⟨_, ?_, ⟨states, rfl⟩, h.same rfl rfl rfl hstate⟩
  have hfind : m.primaryIndex.findByEntity e = none := by
    refine Option.eq_none_iff_forall_ne_some.mpr fun j hj => hnone j ?_
    rw [← h.fields]
    exact hj
  unfold learnStep
  rw [hfind, hcl.classify]
  dsimp only
  rw [heq]
  rw [h.noClassIndex]
  rfl

/-- **One round** of the loop is enough. -/
theorem learnStep_ends (hcl : cl.Uniform c) (h : m.Sound cl c) :
    Ends (Follows cl c m) deleteQueue (learnStep cl env m e deleteQueue) := by
  by_cases hfound : ∃ k, m.primaryIndex.Finds (.new cl.keyFields e) k
  · obtain ⟨k, hk⟩ := hfound
    obtain ⟨-, o, ho, -⟩ := (h.primary _ k).mp hk
    obtain ⟨d, hd, -⟩ := mem_entitiesOf.mp ho
    have hfind : m.primaryIndex.findByEntity e = some k := by
      unfold DeviceUniqueIndex.findByEntity
      rw [h.fields]
      exact hk
    unfold learnStep
    rw [hfind]
    exact learnKnown_ends hcl h hd fun j hj => hj.unique hk
  · obtain ⟨m₁, heq, ⟨states, rfl⟩, hsound⟩ := learnStep_of_none env deleteQueue hcl h
      (not_exists.mp hfound)
    rw [heq]
    refine (learnNew_ends hcl hsound (not_exists.mp hfound)).imp fun m' hfollows => ?_
    exact ⟨hfollows.sound, hfollows.counter, hfollows.keys⟩

theorem Sound.processUpdates (h : m.Sound cl c) (updates : List (DeviceUpdate A)) :
    (m.processUpdates updates).Sound cl c :=
  h.same rfl rfl rfl (classStateOf_congr rfl rfl)

variable (env e) in
/-- **`learnDeviceByEntity`** ends. -/
theorem learnDeviceByEntity_follows (hcl : cl.Uniform c) (h : m.Sound cl c) (fuel : ℕ) :
    ∃ r, learnDeviceByEntity cl env (fuel + 1) m e [] = some r ∧ Follows cl c m r.state := by
  have hends : Ends (Follows cl c m) [] (learnStep cl env m e []) := learnStep_ends hcl h
  unfold learnDeviceByEntity
  cases hstep : learnStep cl env m e [] with
  | again m' queue =>
    rw [hstep] at hends
    exact hends.elim
  | refused | raised =>
    rw [hstep] at hends
    exact ⟨_, rfl, hends⟩
  | done m' queue device updates =>
    rw [hstep] at hends
    obtain ⟨hfollows, rfl⟩ := hends
    exact ⟨_, rfl, fun hfresh => (hfollows.sound hfresh).processUpdates updates,
      hfollows.counter, hfollows.keys⟩

end Learning

/-! ### Expiry -/

section Expiry

variable {env : DeviceEnvironment A} {k : DeviceKey} {d : Device A}

theorem remove_eq (hd : m.deviceMap.lookup k = some d) :
    m.remove k d = ({ m with deviceMap := m.deviceMap.erase k }, true) := by
  unfold remove
  rw [hd]
  exact if_pos d.equals_self

theorem mem_filter_or {es : List Entity} (p : Entity → Bool) (e : Entity) :
    e ∈ es ↔ e ∈ es.filter p ∨ e ∈ es.filter fun e => !p e := by
  rw [mem_filter, mem_filter]
  cases p e <;> simp

variable (cl c env) in
/-- The entities under one key that have expired are gone. -/
structure Cleaned (m : DeviceManager A) (k : DeviceKey) (m' : DeviceManager A) : Prop where
  sound : m'.Sound cl c
  counter : m'.deviceKeyCounter = m.deviceKeyCounter
  store : entitiesOf m'.deviceMap = Function.update (entitiesOf m.deviceMap) k
    ((entitiesOf m.deviceMap k).filter fun e => !isExpired env e)

section

variable (h : m.Sound cl c) (hd : m.deviceMap.lookup k = some d)
include h hd

theorem Sound.replace_kept {removed kept : List Entity}
    (hsplit : ∀ e, e ∈ entitiesOf m.deviceMap k ↔ e ∈ removed ∨ e ∈ kept) (hne : kept ≠ [])
    (hsorted : kept.Pairwise fun e o => e.compareTo o = .lt) :
    ∃ m', (m.removeEntities cl removed c k kept).replace k d
        (.ofEntities k d.attachment kept c) = (m', true) ∧ m'.Sound cl c ∧
      m'.deviceKeyCounter = m.deviceKeyCounter ∧
      entitiesOf m'.deviceMap = Function.update (entitiesOf m.deviceMap) k kept := by
  obtain ⟨hsame, -⟩ := removeEntities_spec cl c removed k kept m
  have hkept : (Device.ofEntities k d.attachment kept c).entities = kept :=
    Device.ofEntities_entities hsorted
  refine ⟨_, replace_eq (hsame.deviceMap ▸ hd), ?_, hsame.counter, ?_⟩
  · refine h.shrink hsplit ?_ ?_
    · rw [hsame.deviceMap, entitiesOf_insert, hkept]
    · rw [hsame.deviceMap]
      refine h.devices_insert rfl rfl (hkept.symm ▸ hne) ?_
      unfold Device.Sorted
      rw [hkept]
      exact hsorted
  · dsimp only
    rw [hsame.deviceMap, entitiesOf_insert, hkept]

theorem Sound.remove_all {removed : List Entity}
    (hall : ∀ e, e ∈ entitiesOf m.deviceMap k ↔ e ∈ removed ∨ e ∈ []) :
    ∃ m', (m.removeEntities cl removed c k []).remove k d = (m', true) ∧ m'.Sound cl c ∧
      m'.deviceKeyCounter = m.deviceKeyCounter ∧
      entitiesOf m'.deviceMap = Function.update (entitiesOf m.deviceMap) k [] := by
  obtain ⟨hsame, -⟩ := removeEntities_spec cl c removed k [] m
  refine ⟨_, remove_eq (hsame.deviceMap ▸ hd), ?_, hsame.counter, ?_⟩
  · refine h.shrink hall ?_ ?_
    · rw [hsame.deviceMap, entitiesOf_erase]
    · rw [hsame.deviceMap]
      intro j d' hd'
      by_cases hj : j = k
      · rw [hj, lookup_erase] at hd'
        cases hd'
      · rw [lookup_erase_ne hj] at hd'
        exact h.devices j d' hd'
  · dsimp only
    rw [hsame.deviceMap, entitiesOf_erase]

/-- **One device.** -/
theorem cleanupDevice_cleaned (fuel : ℕ) :
    ∃ m', cleanupDevice cl env (fuel + 1) m d = some m' ∧ Cleaned cl c env m k m' := by
  obtain ⟨rfl, rfl, -, hsorted⟩ := h.devices k d hd
  have hes := entitiesOf_of_lookup hd
  -- it is enough to know what is left under the key
  suffices hkept : ∃ m', cleanupDevice cl env (fuel + 1) m d = some m' ∧
      m'.Sound cl d.entityClass ∧ m'.deviceKeyCounter = m.deviceKeyCounter ∧
      entitiesOf m'.deviceMap = Function.update (entitiesOf m.deviceMap) d.deviceKey
        (d.entities.filter fun e => !isExpired env e) by
    obtain ⟨m', heq, hsound, hcounter, hstore⟩ := hkept
    refine ⟨m', heq, hsound, hcounter, ?_⟩
    rw [hes]
    exact hstore
  have hsplit : ∀ e, e ∈ entitiesOf m.deviceMap d.deviceKey ↔
      e ∈ (d.entities.filter fun e => isExpired env e) ∨
        e ∈ d.entities.filter fun e => !isExpired env e := by
    rw [hes]
    exact mem_filter_or (isExpired env)
  have hkeptSorted := hsorted.filter fun e => !isExpired env e
  unfold cleanupDevice
  dsimp only
  by_cases hnone : (d.entities.filter fun e => isExpired env e).length = 0
  · rw [if_pos hnone]
    have hkept : (d.entities.filter fun e => !isExpired env e) = d.entities := by
      rw [length_eq_zero_iff, filter_eq_nil_iff] at hnone
      exact filter_eq_self.mpr fun e he => by simp [hnone e he]
    refine ⟨m, rfl, h, rfl, ?_⟩
    rw [hkept, ← hes, update_eq_self]
  rw [if_neg hnone]
  generalize (d.entities.filter fun e => isExpired env e) = removed at hsplit ⊢
  generalize (d.entities.filter fun e => !isExpired env e) = kept at hsplit hkeptSorted ⊢
  cases kept with
  | nil =>
    obtain ⟨m', heq, hsound, hcounter, hstore⟩ := h.remove_all hd hsplit
    have hempty : ¬ ([] : List Entity).length > 0 := Nat.lt_irrefl 0
    rw [if_neg hempty, heq]
    exact ⟨_, rfl, hsound.processUpdates _, hcounter, hstore⟩
  | cons e kept =>
    obtain ⟨m', heq, hsound, hcounter, hstore⟩ :=
      h.replace_kept hd hsplit (cons_ne_nil e kept) hkeptSorted
    have hkey : (Device.ofEntities d.deviceKey d.attachment (e :: kept) d.entityClass).deviceKey =
        d.deviceKey := rfl
    have hsome : (e :: kept).length > 0 := Nat.succ_pos _
    rw [if_pos hsome, hkey, heq]
    exact ⟨_, rfl, hsound.processUpdates _, hcounter, hstore⟩

end

variable (env) in
theorem cleanupKey_cleaned (h : m.Sound cl c) (k : DeviceKey) (fuel : ℕ) :
    ∃ m', cleanupKey cl env (fuel + 1) m k = some m' ∧ Cleaned cl c env m k m' := by
  unfold cleanupKey
  cases hd : m.deviceMap.lookup k with
  | some d => exact cleanupDevice_cleaned h hd fuel
  | none =>
    have hempty : entitiesOf m.deviceMap k = [] := by
      unfold entitiesOf
      rw [hd]
      rfl
    refine ⟨m, rfl, h, rfl, ?_⟩
    rw [hempty, filter_nil, ← hempty, update_eq_self]

/-- **`cleanupEntities`** ends, and exactly what has expired is gone. -/
theorem cleanupEntities_spec (h : m.Sound cl c) (env : DeviceEnvironment A) (fuel : ℕ) :
    ∃ m', cleanupEntities cl env (fuel + 1) m = some m' ∧ m'.Sound cl c ∧
      m'.deviceKeyCounter = m.deviceKeyCounter ∧
      ∀ k, entitiesOf m'.deviceMap k =
        (entitiesOf m.deviceMap k).filter fun e => !isExpired env e := by
  -- the keys that have been visited are cleaned, the others as before
  let I : List DeviceKey → DeviceManager A → Prop := fun done m' =>
    m'.Sound cl c ∧ m'.deviceKeyCounter = m.deviceKeyCounter ∧
      ∀ k, entitiesOf m'.deviceMap k = if k ∈ done then
        (entitiesOf m.deviceMap k).filter fun e => !isExpired env e else entitiesOf m.deviceMap k
  have hstep : ∀ done k rest m₁, env.devices.toList m.deviceMap.keys = done ++ k :: rest →
      I done m₁ → ∃ m₂, cleanupKey cl env (fuel + 1) m₁ k = some m₂ ∧ I (done ++ [k]) m₂ := by
    rintro done k rest m₁ hsplit ⟨hsound, hcounter, hstore⟩
    have hnew := (env.devices.fresh hsplit).1
    obtain ⟨m₂, heq, hcleaned⟩ := cleanupKey_cleaned env hsound k fuel
    refine ⟨m₂, heq, hcleaned.sound, hcleaned.counter.trans hcounter, fun j => ?_⟩
    rw [hcleaned.store]
    by_cases hj : j = k
    · subst hj
      rw [Function.update_self, hstore, if_neg hnew, if_pos (by simp)]
    · rw [Function.update_of_ne hj, hstore]
      simp only [List.mem_append, List.mem_singleton, hj, or_false]
  obtain ⟨m', heq, hsound, hcounter, hstore⟩ := foldlM_rule I hstep ⟨h, rfl, fun k => rfl⟩
  refine ⟨m', heq, hsound, hcounter, fun k => ?_⟩
  rw [hstore]
  split_ifs with hk
  · rfl
  · rw [env.devices.mem_toList, Finmap.mem_keys] at hk
    unfold entitiesOf
    rw [Finmap.lookup_eq_none.mpr hk]
    rfl

end Expiry

/-! ### All operations -/

section Calls

theorem reclassifyDevices_eq (hcl : cl.Uniform c) (h : m.Sound cl c)
    (env : DeviceEnvironment A) (fuel : ℕ) (names : Finset String) (ks : List DeviceKey) :
    reclassifyDevices cl env fuel names m ks = some (.returned m ()) := by
  induction ks with
  | nil => rfl
  | cons k ks ih =>
    unfold reclassifyDevices
    cases hd : m.deviceMap.lookup k with
    | none => exact ih
    | some d =>
      have hneed : needToReclassify cl d = false := by
        unfold needToReclassify
        simp [hcl.classify, (h.devices k d hd).2.1]
      have hreclassify : reclassifyDevice cl env fuel m d = some (.returned m ()) := by
        unfold reclassifyDevice
        rw [hneed]
        rfl
      dsimp only
      rw [hreclassify, Option.bind_some]
      split
      · exact ih
      · exact ih

theorem Sound.mem_iff (h : m.Sound cl c) {k : DeviceKey} :
    k ∈ m.deviceMap ↔ entitiesOf m.deviceMap k ≠ [] := by
  rw [Finmap.mem_iff]
  unfold entitiesOf
  cases hd : m.deviceMap.lookup k with
  | none => simp
  | some d => simp [(h.devices k d hd).2.2.1]

/-- **Every operation** ends, with indexes that agree with the devices if the
key it takes is fresh. -/
theorem call_follows (hcl : cl.Uniform c) (h : m.Sound cl c)
    (call : DeviceEnvironment A × DeviceCall) (fuel : ℕ) :
    ∃ m', m.call cl (fuel + 1) call = some m' ∧ Follows cl c m m' := by
  obtain ⟨env, call⟩ := call
  cases call with
  | learnDeviceByEntity e =>
    obtain ⟨r, heq, hfollows⟩ := learnDeviceByEntity_follows env e hcl h fuel
    exact ⟨r.state, congrArg (Option.map MethodEnd.state) heq, hfollows⟩
  | cleanupEntities =>
    obtain ⟨m', heq, hsound, hcounter, hstore⟩ := cleanupEntities_spec h env fuel
    refine ⟨m', heq, hsound.follows hcounter fun j hj => ?_⟩
    rw [hsound.mem_iff, hstore] at hj
    rw [h.mem_iff]
    intro hempty
    rw [hempty] at hj
    exact hj rfl
  | entityClassChanged names =>
    have heq := reclassifyDevices_eq hcl h env (fuel + 1) names
      (env.devices.toList m.deviceMap.keys)
    exact ⟨m, congrArg (Option.map MethodEnd.state) heq, h.follows rfl fun j hj => hj⟩

variable (cl) in
/-- In a run, no device has a key that is taken from the counter. -/
def KeysFresh (fuel : ℕ) : DeviceManager A → List (DeviceEnvironment A × DeviceCall) → Prop
  | _, [] => True
  | m, call :: calls => ∀ m', m.call cl fuel call = some m' →
      (m'.deviceKeyCounter ≠ m.deviceKeyCounter → m.deviceKeyCounter ∉ m.deviceMap) ∧
        KeysFresh fuel m' calls

/-- **Every run** with fresh keys. -/
theorem run_sound (hcl : cl.Uniform c) (h : m.Sound cl c) (fuel : ℕ)
    {calls : List (DeviceEnvironment A × DeviceCall)} (hfresh : KeysFresh cl (fuel + 1) m calls) :
    ∃ m', calls.foldlM (DeviceManager.call cl (fuel + 1)) m = some m' ∧ m'.Sound cl c := by
  induction calls generalizing m with
  | nil => exact ⟨m, rfl, h⟩
  | cons call calls ih =>
    obtain ⟨m₁, heq, hfollows⟩ := call_follows hcl h call fuel
    obtain ⟨hkey, hrest⟩ := hfresh m₁ heq
    obtain ⟨m', hm', hsound⟩ := ih (hfollows.sound hkey) hrest
    refine ⟨m', ?_, hsound⟩
    rw [foldlM_cons, heq]
    exact hm'

theorem keysFresh_of_length_le (hcl : cl.Uniform c) (h : m.Sound cl c) (fuel n : ℕ)
    {calls : List (DeviceEnvironment A × DeviceCall)}
    (hcounter : m.deviceKeyCounter = BitVec.ofNat 64 n)
    (hkeys : ∀ j ∈ m.deviceMap, j.toNat < n) (hn : n + calls.length ≤ 2 ^ 64) :
    KeysFresh cl (fuel + 1) m calls := by
  induction calls generalizing m n with
  | nil => trivial
  | cons call calls ih =>
    rw [length_cons] at hn
    have hnext : m.deviceKeyCounter.toNat = n := by
      rw [hcounter, BitVec.toNat_ofNat, Nat.mod_eq_of_lt (by omega)]
    have hnot : m.deviceKeyCounter ∉ m.deviceMap := fun hmem => by
      have := hkeys _ hmem
      omega
    intro m₁ heq
    obtain ⟨m₁', heq', hfollows⟩ := call_follows hcl h call fuel
    obtain rfl : m₁ = m₁' := Option.some.inj (heq.symm.trans heq')
    refine ⟨fun _ => hnot, ?_⟩
    have hsound := hfollows.sound fun _ => hnot
    rcases hfollows.counter with hsame | hsucc
    · refine ih hsound n (hsame.trans hcounter) (fun j hj => ?_) (by omega)
      rcases hfollows.keys j hj with hj | ⟨-, hsucc⟩
      · exact hkeys j hj
      · exact absurd (hsucc.symm.trans hsame) (add_one_ne _)
    · refine ih hsound (n + 1) ?_ (fun j hj => ?_) (by omega)
      · rw [hsucc, hcounter, BitVec.ofNat_add]
        rfl
      · rcases hfollows.keys j hj with hj | ⟨rfl, -⟩
        · exact (hkeys j hj).trans n.lt_succ_self
        · omega

end Calls

/-! ### Consistency -/

/-- The indexes agree with the devices. -/
structure IndexesConsistent (m : DeviceManager A) : Prop where
  primary : ∀ mac vlan k,
    m.primaryIndex.index.lookup ⟨some mac, none, vlan, none, none⟩ = some k ↔
      ∃ d, m.deviceMap.lookup k = some d ∧
        ∃ e ∈ d.entities, e.macAddress = mac ∧ e.vlan = vlan
  unique : ∀ k d k' d', m.deviceMap.lookup k = some d → m.deviceMap.lookup k' = some d' →
    ∀ e ∈ d.entities, ∀ e' ∈ d'.entities, e.macAddress = e'.macAddress → e.vlan = e'.vlan →
      k = k'
  ipv4 : ∀ e a k, e.ipv4Address = some a →
    (k ∈ m.queryClassByEntity defaultEntityClassifier defaultEntityClass {.ipv4} e ↔
      ∃ d, m.deviceMap.lookup k = some d ∧ ∃ e ∈ d.entities, e.ipv4Address = some a)
  sorted : ∀ k d, m.deviceMap.lookup k = some d →
    d.entities.Pairwise fun e o => e.compareTo o = .lt

theorem new_mac_vlan (e : Entity) : IndexedEntity.new defaultEntityClassifier.keyFields e =
    ⟨some e.macAddress, none, e.vlan, none, none⟩ := by
  simp [IndexedEntity.new, defaultEntityClassifier]

theorem new_ipv4 (e : Entity) :
    IndexedEntity.new {.ipv4} e = ⟨none, e.ipv4Address, none, none, none⟩ := by
  simp [IndexedEntity.new]

theorem Sound.indexesConsistent (h : m.Sound defaultEntityClassifier defaultEntityClass) :
    m.IndexesConsistent where
  primary := by
    intro mac vlan k
    have hlists := h.primary ⟨some mac, none, vlan, none, none⟩ k
    simp only [new_mac_vlan, IndexedEntity.mk.injEq, Option.some.injEq, true_and, and_true,
      mem_entitiesOf] at hlists
    refine hlists.trans ⟨?_, ?_⟩
    · rintro ⟨-, e, ⟨d, hd, he⟩, hkey⟩
      exact ⟨d, hd, e, he, hkey⟩
    · rintro ⟨d, hd, e, he, hkey⟩
      exact ⟨rfl, e, ⟨d, hd, he⟩, hkey⟩
  unique := by
    intro k d k' d' hd hd' e he e' he' hmac hvlan
    refine h.primary.unique DeviceUniqueIndex.Finds.unique (mem_entitiesOf.mpr ⟨d, hd, he⟩)
      (mem_entitiesOf.mpr ⟨d', hd', he'⟩) ?_ ?_
    · exact IndexedEntity.hasNonNullKeys_new defaultEntityClassifier_uniform.mac e
    · rw [new_mac_vlan, new_mac_vlan, hmac, hvlan]
  ipv4 := by
    intro e a k ha
    obtain ⟨index, hindex, hfields, hlists⟩ := h.secondary {.ipv4} h.perClass
    have hquery : k ∈ m.queryClassByEntity defaultEntityClassifier defaultEntityClass {.ipv4} e ↔
        index.Has ⟨none, some a, none, none, none⟩ k := by
      have hindex' : (m.getClassState defaultEntityClassifier
          defaultEntityClass).1.secondaryIndexMap {.ipv4} = some index := hindex
      unfold queryClassByEntity DeviceMultiIndex.Has
      rw [hindex']
      dsimp only [DeviceMultiIndex.queryByEntity]
      rw [hfields, new_ipv4, ha]
    rw [hquery, hlists]
    simp only [new_ipv4, IndexedEntity.mk.injEq, true_and, and_true, mem_entitiesOf]
    constructor
    · rintro ⟨-, e, ⟨d, hd, he⟩, hkey⟩
      exact ⟨d, hd, e, he, hkey⟩
    · rintro ⟨d, hd, e, he, hkey⟩
      exact ⟨rfl, e, ⟨d, hd, he⟩, hkey⟩
  sorted := fun k d hd => (h.devices k d hd).2.2.2

end DeviceManager

/-! ### A key that comes round -/

/-- Two hours after the epoch, in a network of one switch. -/
noncomputable def calmEnvironment : DeviceEnvironment Unit where
  isAttachmentPointPort := fun _ _ => true
  isValidAttachmentPoint := fun _ _ => true
  now := 2 * 60 * 60 * 1000
  newAttachment := fun _ => ()
  updateAttachmentPoint := fun _ _ _ _ => ()
  devices := anyOrder DeviceKey

def resident : Entity := .new 1 none none none none (some (2 * 60 * 60 * 1000))

def visitor : Entity := .new 2 none none none none (some 0)

/-- The entity whose device gets the key of the first one. -/
def newcomer : Entity := .new 3 none none none none (some (2 * 60 * 60 * 1000))

noncomputable def visitCalls : List (DeviceEnvironment Unit × DeviceCall) :=
  [(calmEnvironment, .learnDeviceByEntity visitor), (calmEnvironment, .cleanupEntities)]

/-- The run in which the newcomer gets the key of the resident. -/
noncomputable def wrappedRun (n : ℕ) : List (DeviceEnvironment Unit × DeviceCall) :=
  (calmEnvironment, .learnDeviceByEntity resident) ::
    ((List.replicate n visitCalls).flatten ++ [(calmEnvironment, .learnDeviceByEntity newcomer)])

namespace DeviceManager

theorem call_entered {A : Type*} {cl : EntityClassifier} {c : EntityClass} {m : DeviceManager A}
    (hcl : cl.Uniform c) (h : m.Sound cl c) {e : Entity}
    (hnone : ∀ j, ¬ m.primaryIndex.Finds (.new cl.keyFields e) j) (hport : e.switchPort? = none)
    (env : DeviceEnvironment A) (fuel : ℕ) :
    ∃ m', m.call cl (fuel + 1) (env, .learnDeviceByEntity e) = some m' ∧ Entered cl c m e m' := by
  obtain ⟨m₁, hstep, ⟨states, rfl⟩, hsound⟩ := learnStep_of_none env [] hcl h hnone
  have hinternal : onInternalPort env e = false := by
    unfold onInternalPort
    rw [hport]
  obtain ⟨d, hd⟩ : ∃ d, allocateDevice env m.deviceKeyCounter e c = some d := by
    unfold allocateDevice
    rw [hport]
    exact ⟨_, rfl⟩
  obtain ⟨m', hentered, hnew⟩ := learnNew_eq [] hcl hsound hnone hinternal hd
  have hdispatched : ∀ updates, Entered cl c m e (m'.processUpdates updates) := fun updates =>
    ⟨hentered.counter, hentered.store, hentered.keys, hentered.finds,
      fun hfresh => (hentered.sound hfresh).processUpdates updates⟩
  have hlearn : learnDeviceByEntity cl env (fuel + 1) m e [] =
      some (.returned (m'.processUpdates [⟨d, .add, none⟩]) (some d)) := by
    unfold learnDeviceByEntity
    rw [hstep, hnew]
    rfl
  exact ⟨_, congrArg (Option.map MethodEnd.state) hlearn, hdispatched _⟩

/-- The resident is the only one there, under key 0. -/
structure OnlyResident (m : DeviceManager Unit) : Prop where
  sound : m.Sound defaultEntityClassifier defaultEntityClass
  store : entitiesOf m.deviceMap = Function.update (fun _ => []) 0 [resident]

variable {m : DeviceManager Unit}

theorem OnlyResident.not_finds (h : m.OnlyResident) {e : Entity} (he : e.macAddress ≠ 1)
    (j : DeviceKey) :
    ¬ m.primaryIndex.Finds (.new defaultEntityClassifier.keyFields e) j := by
  intro hfinds
  obtain ⟨-, o, ho, hkey⟩ := (h.sound.primary _ j).mp hfinds
  rw [h.store] at ho
  by_cases hj : j = 0
  · rw [hj, Function.update_self, List.mem_singleton] at ho
    rw [ho, new_mac_vlan, new_mac_vlan] at hkey
    exact he (Option.some.inj (congrArg IndexedEntity.macAddress hkey)).symm
  · rw [Function.update_of_ne hj] at ho
    exact absurd ho List.not_mem_nil

/-- **One visit** leaves the resident alone and takes a key. -/
theorem OnlyResident.visit (h : m.OnlyResident) (hcounter : m.deviceKeyCounter ≠ 0) :
    ∃ m', visitCalls.foldlM (DeviceManager.call defaultEntityClassifier 1) m = some m' ∧
      m'.OnlyResident ∧ m'.deviceKeyCounter = m.deviceKeyCounter + 1 := by
  obtain ⟨m₁, heq₁, hentered⟩ := call_entered defaultEntityClassifier_uniform h.sound
    (h.not_finds (e := visitor) (by decide)) rfl calmEnvironment 0
  have hfresh : m.deviceKeyCounter ∉ m.deviceMap := by
    rw [h.sound.mem_iff, h.store, update_of_ne hcounter]
    exact not_not_intro rfl
  obtain ⟨m₂, heq₂, hsound, hcounter₂, hstore⟩ :=
    cleanupEntities_spec (hentered.sound hfresh) calmEnvironment 0
  refine ⟨m₂, ?_, ⟨hsound, ?_⟩, hcounter₂.trans hentered.counter⟩
  · have hcleanup : m₁.call defaultEntityClassifier 1 (calmEnvironment, .cleanupEntities) =
        some m₂ := heq₂
    unfold visitCalls
    rw [foldlM_cons, heq₁, Option.bind_eq_bind, Option.bind_some, foldlM_cons, hcleanup]
    rfl
  · funext k
    rw [hstore, hentered.store, h.store]
    by_cases hk : k = m.deviceKeyCounter
    · rw [hk, update_self, update_of_ne hcounter]
      rfl
    · rw [update_of_ne hk]
      by_cases hk₀ : k = 0
      · rw [hk₀, update_self]
        rfl
      · rw [update_of_ne hk₀]
        rfl

/-- **Visits**, as long as the counter does not come to 0. -/
theorem OnlyResident.visits (h : m.OnlyResident) {i n : ℕ}
    (hcounter : m.deviceKeyCounter = BitVec.ofNat 64 i) (hi : 0 < i) (hn : i + n ≤ 2 ^ 64) :
    ∃ m', (List.replicate n visitCalls).flatten.foldlM
        (DeviceManager.call defaultEntityClassifier 1) m = some m' ∧
      m'.OnlyResident ∧ m'.deviceKeyCounter = BitVec.ofNat 64 (i + n) := by
  induction n generalizing m i with
  | zero => exact ⟨m, rfl, h, hcounter⟩
  | succ n ih =>
    have hne : m.deviceKeyCounter ≠ 0 := by
      intro hzero
      have hnat := congrArg BitVec.toNat (hcounter.symm.trans hzero)
      rw [BitVec.toNat_ofNat, Nat.mod_eq_of_lt (by omega)] at hnat
      exact hi.ne' hnat
    obtain ⟨m₁, heq₁, honly₁, hcounter₁⟩ := h.visit hne
    have hnext : m₁.deviceKeyCounter = BitVec.ofNat 64 (i + 1) := by
      rw [hcounter₁, hcounter, BitVec.ofNat_add]
      rfl
    obtain ⟨m', heq, honly, hcounter'⟩ := ih honly₁ hnext i.succ_pos (by omega)
    refine ⟨m', ?_, honly, ?_⟩
    · rw [replicate_succ, flatten_cons, foldlM_append, heq₁]
      exact heq
    · rw [hcounter', Nat.add_assoc, Nat.add_comm 1]

end DeviceManager

/-- After `2 ^ 64` devices the newcomer's has the key of the resident's, which
is lost while the index still has it. -/
theorem wrapped_key_inconsistent :
    ∃ m, (wrappedRun (2 ^ 64 - 1)).foldlM (DeviceManager.call defaultEntityClassifier 1)
        (.startUp defaultEntityClassifier) = some m ∧
      m.primaryIndex.index.lookup ⟨some 1, none, none, none, none⟩ = some 0 ∧
      ¬ ∃ d, m.deviceMap.lookup 0 = some d ∧
        ∃ e ∈ d.entities, e.macAddress = 1 ∧ e.vlan = none := by
  have hcl := defaultEntityClassifier_uniform
  have hstart : DeviceManager.Sound defaultEntityClassifier defaultEntityClass
      (.startUp defaultEntityClassifier : DeviceManager Unit) := DeviceManager.sound_startUp hcl
  -- the resident gets key 0
  have hnone : ∀ j, ¬ (DeviceManager.startUp defaultEntityClassifier :
      DeviceManager Unit).primaryIndex.Finds
        (.new defaultEntityClassifier.keyFields resident) j := by
    intro j hj
    obtain ⟨-, o, ho, -⟩ := (hstart.primary _ j).mp hj
    exact absurd ho List.not_mem_nil
  obtain ⟨m₁, heq₁, hentered⟩ := DeviceManager.call_entered hcl hstart hnone rfl calmEnvironment 0
  have honly : m₁.OnlyResident := ⟨hentered.sound (Finmap.notMem_empty), hentered.store⟩
  -- the counter comes round
  obtain ⟨m₂, heq₂, honly₂, hcounter₂⟩ := honly.visits (i := 1) (n := 2 ^ 64 - 1)
    hentered.counter Nat.one_pos (by omega)
  have hzero : m₂.deviceKeyCounter = 0 := by
    rw [hcounter₂]
    decide
  obtain ⟨m, heq, hentered'⟩ := DeviceManager.call_entered hcl honly₂.sound
    (honly₂.not_finds (e := newcomer) (by decide)) rfl calmEnvironment 0
  refine ⟨m, ?_, ?_, ?_⟩
  · unfold wrappedRun
    rw [List.foldlM_cons, heq₁, Option.bind_eq_bind, Option.bind_some, List.foldlM_append, heq₂,
      Option.bind_eq_bind, Option.bind_some, List.foldlM_cons, heq]
    rfl
  · -- the index still has the resident
    refine hentered'.finds _ 0 ((honly₂.sound.primary _ 0).mpr ⟨rfl, resident, ?_, ?_⟩)
    · rw [honly₂.store, Function.update_self]
      exact List.mem_singleton_self resident
    · exact DeviceManager.new_mac_vlan resident
  · rintro ⟨d, hd, e, he, hmac, -⟩
    rw [← entitiesOf_of_lookup hd, hentered'.store, hzero, Function.update_self,
      List.mem_singleton] at he
    rw [he] at hmac
    exact absurd hmac (by decide)

/-! ### Every run -/

/-- The key counter has 64 bits: up to `2 ^ 64` operations take fresh keys, whatever they are. -/
theorem keysFresh_startUp {A : Type*} (fuel : ℕ) {calls : List (DeviceEnvironment A × DeviceCall)}
    (hcalls : calls.length ≤ 2 ^ 64) :
    DeviceManager.KeysFresh defaultEntityClassifier (fuel + 1)
      (.startUp defaultEntityClassifier) calls := by
  have hcl := defaultEntityClassifier_uniform
  refine DeviceManager.keysFresh_of_length_le hcl (DeviceManager.sound_startUp hcl) fuel 0 rfl
    (fun j hj => absurd hj notMem_empty) ?_
  rwa [Nat.zero_add]

/-- **The indexes agree with the devices** after every run that takes fresh keys, as every run
of at most `2 ^ 64` operations does (`keysFresh_startUp`), and every operation of the run ends. -/
theorem device_indexes_consistent {A : Type*} (fuel : ℕ)
    (calls : List (DeviceEnvironment A × DeviceCall))
    (hfresh : DeviceManager.KeysFresh defaultEntityClassifier (fuel + 1)
      (.startUp defaultEntityClassifier) calls) :
    ∃ m, calls.foldlM (DeviceManager.call defaultEntityClassifier (fuel + 1))
        (.startUp defaultEntityClassifier) = some m ∧ m.IndexesConsistent := by
  have hcl := defaultEntityClassifier_uniform
  obtain ⟨m, hm, hsound⟩ :=
    DeviceManager.run_sound hcl (DeviceManager.sound_startUp hcl) fuel hfresh
  exact ⟨m, hm, hsound.indexesConsistent⟩

theorem device_indexes_consistent_visits :
    DeviceManager.KeysFresh defaultEntityClassifier 1 (.startUp defaultEntityClassifier)
        (wrappedRun 3) ∧
      ∃ m, (wrappedRun 3).foldlM (DeviceManager.call defaultEntityClassifier 1)
        (.startUp defaultEntityClassifier) = some m ∧ m.IndexesConsistent := by
  have hfresh : DeviceManager.KeysFresh defaultEntityClassifier 1
      (.startUp defaultEntityClassifier) (wrappedRun 3) := by
    refine keysFresh_startUp 0 ?_
    simp [wrappedRun, visitCalls]
  exact ⟨hfresh, device_indexes_consistent 0 (wrappedRun 3) hfresh⟩

end NctuSdn.Devices
