/-
The device manager (`DeviceManagerImpl`): learning, expiry and
reclassification.

The state is the map of devices, the primary index over their entities and,
for each entity class, the indexes of that class.  What a device knows of its
attachment points is kept abstract; learning only hands it new ports.

The loops that start again when another thread has interfered take fuel.
-/
import NctuSdn.Device.DeviceIndex
import NctuSdn.Lib.SetOrder

namespace NctuSdn.Devices

/-- `IEntityClassifierService`. -/
structure EntityClassifier where
  keyFields : KeyFields
  classifyEntity : Entity → Option EntityClass

def defaultEntityClass : EntityClass := ⟨"DefaultEntityClass", {.mac, .vlan}⟩

def defaultEntityClassifier : EntityClassifier where
  keyFields := {.mac, .vlan}
  classifyEntity := fun _ => some defaultEntityClass

abbrev SecondaryIndexMap := KeyFields → Option DeviceMultiIndex

structure ClassState where
  classIndex : Option DeviceUniqueIndex
  secondaryIndexMap : SecondaryIndexMap

/-- `DeviceUpdate.Change`. -/
inductive DeviceChange
  | add
  | delete
  | change
deriving DecidableEq, Repr

structure DeviceUpdate (A : Type*) where
  device : Device A
  change : DeviceChange
  fieldsChanged : Option KeyFields

/-- `DeviceManagerImpl`, with the updates that were handed to the store and the
listeners. -/
structure DeviceManager (A : Type*) where
  deviceMap : Finmap fun _ : DeviceKey => Device A
  deviceKeyCounter : BitVec 64
  primaryIndex : DeviceUniqueIndex
  secondaryIndexMap : SecondaryIndexMap
  classStateMap : Finmap fun _ : String => ClassState
  perClassIndices : Finset KeyFields
  dispatched : List (DeviceUpdate A)

/-- What a call finds outside of the manager: the topology, the clock, what is
done to attachment points, and the order in which `deviceMap` is iterated. -/
structure DeviceEnvironment (A : Type*) where
  isAttachmentPointPort : SwitchId → Port → Bool
  isValidAttachmentPoint : SwitchId → Port → Bool
  now : BitVec 64
  newAttachment : Option (SwitchId × Port × BitVec 64) → A
  updateAttachmentPoint : A → SwitchId → Port → BitVec 64 → A
  devices : SetOrder DeviceKey

/-- How one round of the loop of `learnDeviceByEntity` ends. -/
inductive LearnStep (A : Type*)
  | again (m : DeviceManager A) (deleteQueue : List DeviceKey)
  | done (m : DeviceManager A) (deleteQueue : List DeviceKey) (device : Option (Device A))
      (deviceUpdates : List (DeviceUpdate A))
  | refused (m : DeviceManager A)
  | raised (m : DeviceManager A)

/-- How a method ends: with a result or with an exception. -/
inductive MethodEnd (A R : Type*)
  | returned (m : DeviceManager A) (result : R)
  | raised (m : DeviceManager A)

/-- The state in which a method leaves the manager. -/
def MethodEnd.state {A R : Type*} : MethodEnd A R → DeviceManager A
  | .returned m _ => m
  | .raised m => m

namespace DeviceManager

variable {A : Type*} (cl : EntityClassifier) (env : DeviceEnvironment A)

def startUp : DeviceManager A where
  deviceMap := ∅
  deviceKeyCounter := 0
  primaryIndex := .new cl.keyFields
  secondaryIndexMap := fun _ => none
  classStateMap := ∅
  perClassIndices := {{.ipv4}}
  dispatched := []

/-! ### Indexes -/

def newClassState (m : DeviceManager A) (clazz : EntityClass) : ClassState where
  classIndex := if cl.keyFields = clazz.keyFields then none else some (.new clazz.keyFields)
  secondaryIndexMap := fun fields => if fields ∈ m.perClassIndices then some (.new fields) else none

def getClassState (m : DeviceManager A) (clazz : EntityClass) : ClassState × DeviceManager A :=
  match m.classStateMap.lookup clazz.name with
  | some classState => (classState, m)
  | none =>
    let classState := m.newClassState cl clazz
    (classState, { m with classStateMap := m.classStateMap.insert clazz.name classState })

def setClassState (m : DeviceManager A) (clazz : EntityClass) (classState : ClassState) :
    DeviceManager A :=
  { m with classStateMap := m.classStateMap.insert clazz.name classState }

def updateIndices (m : DeviceManager A) (device : Device A) (deviceKey : DeviceKey) :
    DeviceManager A × Bool :=
  let (primaryIndex, ok) := m.primaryIndex.updateIndex device.entities deviceKey
  let m := { m with primaryIndex := primaryIndex }
  if !ok then (m, false)
  else
    let (classState, m) := m.getClassState cl device.entityClass
    match classState.classIndex with
    | none => (m, true)
    | some classIndex =>
      let (classIndex, ok) := classIndex.updateIndex device.entities deviceKey
      (m.setClassState device.entityClass { classState with classIndex := some classIndex }, ok)

/-- Each of some secondary indexes is changed. -/
def onEachIndex (indexes : SecondaryIndexMap) (f : DeviceMultiIndex → DeviceMultiIndex) :
    SecondaryIndexMap :=
  fun fields => (indexes fields).map f

def updateSecondaryIndices (m : DeviceManager A) (entity : Entity) (entityClass : EntityClass)
    (deviceKey : DeviceKey) : DeviceManager A :=
  let update := fun index : DeviceMultiIndex => index.updateIndex entity deviceKey
  let m := { m with secondaryIndexMap := onEachIndex m.secondaryIndexMap update }
  let (state, m) := m.getClassState cl entityClass
  m.setClassState entityClass
    { state with secondaryIndexMap := onEachIndex state.secondaryIndexMap update }

def removeEntity (m : DeviceManager A) (removed : Entity) (entityClass : EntityClass)
    (deviceKey : DeviceKey) (others : List Entity) : DeviceManager A :=
  let remove := fun index : DeviceMultiIndex => index.removeEntityIfNeeded removed deviceKey others
  let m := { m with secondaryIndexMap := onEachIndex m.secondaryIndexMap remove }
  let (classState, m) := m.getClassState cl entityClass
  let m := { m with primaryIndex := m.primaryIndex.removeEntityIfNeeded removed deviceKey others }
  m.setClassState entityClass
    { classIndex :=
        classState.classIndex.map fun index => index.removeEntityIfNeeded removed deviceKey others
      secondaryIndexMap := onEachIndex classState.secondaryIndexMap remove }

/-- `removeEntity` for each of some entities. -/
def removeEntities (m : DeviceManager A) (removed : List Entity) (entityClass : EntityClass)
    (deviceKey : DeviceKey) (others : List Entity) : DeviceManager A :=
  removed.foldl (fun m entity => m.removeEntity cl entity entityClass deviceKey others) m

/-- `queryClassByEntity`: the keys of the devices. -/
def queryClassByEntity (m : DeviceManager A) (clazz : EntityClass) (keyFields : KeyFields)
    (entity : Entity) : Finset DeviceKey :=
  match (m.getClassState cl clazz).1.secondaryIndexMap keyFields with
  | none => ∅
  | some index => index.queryByEntity entity

/-! ### The map of devices -/

def replace (m : DeviceManager A) (deviceKey : DeviceKey) (device newDevice : Device A) :
    DeviceManager A × Bool :=
  match m.deviceMap.lookup deviceKey with
  | none => (m, false)
  | some current =>
    if current.equals device then
      ({ m with deviceMap := m.deviceMap.insert deviceKey newDevice }, true)
    else (m, false)

def remove (m : DeviceManager A) (deviceKey : DeviceKey) (device : Device A) :
    DeviceManager A × Bool :=
  match m.deviceMap.lookup deviceKey with
  | none => (m, false)
  | some current =>
    if current.equals device then
      ({ m with deviceMap := m.deviceMap.erase deviceKey }, true)
    else (m, false)

def deleteDevice (m : DeviceManager A) (device : Device A) : DeviceManager A :=
  let m := m.removeEntities cl device.entities device.entityClass device.deviceKey []
  (m.remove device.deviceKey device).1

def processUpdates (m : DeviceManager A) (updates : List (DeviceUpdate A)) : DeviceManager A :=
  { m with dispatched := m.dispatched ++ updates }

/-! ### Learning -/

/-- The loop of `findChangedFields`: fields of a new entity that an old one has
with the same value are not changed. -/
def dropUnchanged (newEntity : Entity) (changedFields : KeyFields) (entity : Entity) : KeyFields :=
  let changedFields :=
    if newEntity.ipv4Address = none ∨
        entity.ipv4Address ≠ none ∧ entity.ipv4Address = newEntity.ipv4Address then
      changedFields.erase .ipv4
    else changedFields
  let changedFields :=
    if newEntity.vlan = none ∨ entity.vlan ≠ none ∧ entity.vlan = newEntity.vlan then
      changedFields.erase .vlan
    else changedFields
  if newEntity.switchDPID = none ∨ newEntity.switchPort = none ∨
      entity.switchDPID ≠ none ∧ entity.switchPort ≠ none ∧
        entity.switchDPID = newEntity.switchDPID ∧ entity.switchPort = newEntity.switchPort then
    changedFields.erase .switch
  else changedFields

def findChangedFields (device : Device A) (newEntity : Entity) : KeyFields :=
  let changedFields : KeyFields := {.ipv4, .vlan, .switch}
  let changedFields :=
    if newEntity.ipv4Address = none then changedFields.erase .ipv4 else changedFields
  let changedFields := if newEntity.vlan = none then changedFields.erase .vlan else changedFields
  let changedFields :=
    if newEntity.switchDPID = none ∨ newEntity.switchPort = none then changedFields.erase .switch
    else changedFields
  if changedFields = ∅ then changedFields
  else device.entities.foldl (dropUnchanged newEntity) changedFields

def isEntityAllowed (_entity : Entity) (_entityClass : EntityClass) : Bool := true

/-- Whether an entity was seen on a port where no device can be. -/
def onInternalPort (entity : Entity) : Bool :=
  match entity.switchPort? with
  | none => false
  | some (dpid, port) => !env.isAttachmentPointPort dpid port

/-- `allocateDevice` for one entity; `none` is the null pointer exception for an
entity without a time. -/
def allocateDevice (deviceKey : DeviceKey) (entity : Entity) (entityClass : EntityClass) :
    Option (Device A) :=
  match entity.switchPort? with
  | none => some ⟨deviceKey, [entity], entityClass, env.newAttachment none⟩
  | some (sw, port) =>
    if env.isValidAttachmentPoint sw port then
      entity.lastSeenTimestamp.map fun lastSeen =>
        ⟨deviceKey, [entity], entityClass, env.newAttachment (some (sw, port, lastSeen))⟩
    else some ⟨deviceKey, [entity], entityClass, env.newAttachment none⟩

/-- The part of `learnDeviceByEntity` for an entity that no device has. -/
def learnNew (m : DeviceManager A) (entity : Entity) (entityClass : EntityClass)
    (deleteQueue : List DeviceKey) : LearnStep A :=
  if onInternalPort env entity then .done m deleteQueue none []
  else if !isEntityAllowed entity entityClass then .done m deleteQueue none []
  else
    let deviceKey := m.deviceKeyCounter
    let m := { m with deviceKeyCounter := m.deviceKeyCounter + 1 }
    match allocateDevice env deviceKey entity entityClass with
    | none => .raised m
    | some device =>
      let m := { m with deviceMap := m.deviceMap.insert deviceKey device }
      let (m, ok) := m.updateIndices cl device deviceKey
      if !ok then .again m (deleteQueue ++ [deviceKey])
      else
        .done (m.updateSecondaryIndices cl entity entityClass deviceKey) deleteQueue (some device)
          [⟨device, .add, none⟩]

/-- The last part of the loop: the attachment point of an entity that was seen
at a time, if there was one. -/
def attach (m : DeviceManager A) (entity : Entity) (deviceKey : DeviceKey) (device : Device A)
    (lastSeen : Option (BitVec 64)) (deleteQueue : List DeviceKey)
    (deviceUpdates : List (DeviceUpdate A)) : LearnStep A :=
  match entity.switchPort? with
  | none => .done m deleteQueue (some device) deviceUpdates
  | some (sw, port) =>
    match lastSeen with
    | none => .raised m
    | some time =>
      let device :=
        { device with attachment := env.updateAttachmentPoint device.attachment sw port time }
      .done { m with deviceMap := m.deviceMap.insert deviceKey device } deleteQueue
        (some device) deviceUpdates

/-- The part of `learnDeviceByEntity` for an entity that a device has. -/
def learnKnown (m : DeviceManager A) (entity : Entity) (deviceKey : DeviceKey)
    (deleteQueue : List DeviceKey) : LearnStep A :=
  match m.deviceMap.lookup deviceKey with
  | none => .again m deleteQueue
  | some device =>
    if !isEntityAllowed entity device.entityClass then .refused m
    else if onInternalPort env entity then .done m deleteQueue (some device) []
    else
      match device.entityIndex entity with
      | .found i =>
        let lastSeen := entity.lastSeenTimestamp.getD env.now
        let device :=
          { device with
            entities := device.entities.modify i fun e => e.setLastSeenTimestamp lastSeen }
        attach env { m with deviceMap := m.deviceMap.insert deviceKey device } entity deviceKey
          device (some lastSeen) deleteQueue []
      | .insertAt i =>
        let newDevice := device.insertEntity entity i
        let changedFields := findChangedFields device entity
        let (m, res) := m.replace deviceKey device newDevice
        if !res then .again m deleteQueue
        else
          let (m, ok) := m.updateIndices cl newDevice deviceKey
          if !ok then .again m deleteQueue
          else
            attach env (m.updateSecondaryIndices cl entity newDevice.entityClass deviceKey)
              entity deviceKey newDevice entity.lastSeenTimestamp deleteQueue
              (if changedFields = ∅ then [] else [⟨newDevice, .change, some changedFields⟩])

/-- One round of the loop of `learnDeviceByEntity`. -/
def learnStep (m : DeviceManager A) (entity : Entity) (deleteQueue : List DeviceKey) :
    LearnStep A :=
  match m.primaryIndex.findByEntity entity with
  | some deviceKey => learnKnown cl env m entity deviceKey deleteQueue
  | none =>
    match cl.classifyEntity entity with
    | none => .done m deleteQueue none []
    | some entityClass =>
      let (classState, m) := m.getClassState cl entityClass
      match classState.classIndex.bind fun index => index.findByEntity entity with
      | some deviceKey => learnKnown cl env m entity deviceKey deleteQueue
      | none => learnNew cl env m entity entityClass deleteQueue

/-- The devices of the queue are deleted; a null pointer exception if one of
them is gone. -/
def deleteQueued (m : DeviceManager A) : List DeviceKey → MethodEnd A Unit
  | [] => .returned m ()
  | l :: deleteQueue =>
    match m.deviceMap.lookup l with
    | none => .raised m
    | some dev => deleteQueued (m.deleteDevice cl dev) deleteQueue

def learnDeviceByEntity (fuel : ℕ) (m : DeviceManager A) (entity : Entity)
    (deleteQueue : List DeviceKey) : Option (MethodEnd A (Option (Device A))) :=
  match fuel with
  | 0 => none
  | fuel + 1 =>
    match learnStep cl env m entity deleteQueue with
    | .again m deleteQueue => learnDeviceByEntity fuel m entity deleteQueue
    | .refused m => some (.returned m none)
    | .raised m => some (.raised m)
    | .done m deleteQueue device deviceUpdates =>
      match m.deleteQueued cl deleteQueue with
      | .raised m => some (.raised m)
      | .returned m _ => some (.returned (m.processUpdates deviceUpdates) device)

/-! ### Expiry -/

/-- Whether an entity was last seen before the cutoff, `ENTITY_TIMEOUT` (one
hour) ago. -/
def isExpired (entity : Entity) : Bool :=
  match entity.lastSeenTimestamp with
  | none => false
  | some lastSeen => lastSeen.slt (env.now - 60 * 60 * 1000)

/-- The loop of `cleanupEntities` for one device. -/
def cleanupDevice (fuel : ℕ) (m : DeviceManager A) (d : Device A) : Option (DeviceManager A) :=
  match fuel with
  | 0 => none
  | fuel + 1 =>
    let toRemove := d.entities.filter fun e => isExpired env e
    let toKeep := d.entities.filter fun e => !isExpired env e
    if toRemove.length = 0 then some m
    else
      let m := m.removeEntities cl toRemove d.entityClass d.deviceKey toKeep
      if toKeep.length > 0 then
        let newDevice := Device.ofEntities d.deviceKey d.attachment toKeep d.entityClass
        let changedFields :=
          toRemove.foldl (fun fields e => fields ∪ findChangedFields newDevice e) ∅
        let deviceUpdates : List (DeviceUpdate A) :=
          if changedFields = ∅ then [] else [⟨d, .change, some changedFields⟩]
        let (m, res) := m.replace newDevice.deviceKey d newDevice
        match if res then none else m.deviceMap.lookup d.deviceKey with
        | some d => cleanupDevice fuel m d
        | none => some (m.processUpdates deviceUpdates)
      else
        let (m, res) := m.remove d.deviceKey d
        match if res then none else m.deviceMap.lookup d.deviceKey with
        | some d => cleanupDevice fuel m d
        | none => some (m.processUpdates [⟨d, .delete, none⟩])

/-- The device of a key, when the iterator comes to it. -/
def cleanupKey (fuel : ℕ) (m : DeviceManager A) (k : DeviceKey) : Option (DeviceManager A) :=
  match m.deviceMap.lookup k with
  | none => some m
  | some d => cleanupDevice cl env fuel m d

def cleanupEntities (fuel : ℕ) (m : DeviceManager A) : Option (DeviceManager A) :=
  (env.devices.toList m.deviceMap.keys).foldlM (cleanupKey cl env fuel) m

/-! ### Reclassification -/

/-- The entities of a device that was deleted are learned again. -/
def relearn (fuel : ℕ) (m : DeviceManager A) : List Entity → Option (MethodEnd A Unit)
  | [] => some (.returned m ())
  | entity :: entities =>
    (learnDeviceByEntity cl env fuel m entity []).bind fun
      | .returned m _ => relearn fuel m entities
      | .raised m => some (.raised m)

/-- Whether the class of one of the entities of a device is not that of the
device. -/
def needToReclassify (device : Device A) : Bool :=
  device.entities.any fun entity =>
    match cl.classifyEntity entity with
    | none => true
    | some entityClass => entityClass.name ≠ device.entityClass.name

def reclassifyDevice (fuel : ℕ) (m : DeviceManager A) (device : Device A) :
    Option (MethodEnd A Unit) :=
  if !needToReclassify cl device then some (.returned m ())
  else
    relearn cl env fuel
      ((m.deleteDevice cl device).processUpdates [⟨device, .delete, none⟩]) device.entities

/-- The loop of `entityClassChanged`. -/
def reclassifyDevices (fuel : ℕ) (entityClassNames : Finset String) (m : DeviceManager A) :
    List DeviceKey → Option (MethodEnd A Unit)
  | [] => some (.returned m ())
  | k :: ks =>
    match m.deviceMap.lookup k with
    | none => reclassifyDevices fuel entityClassNames m ks
    | some d =>
      if d.entityClass.name ∈ entityClassNames then
        (reclassifyDevice cl env fuel m d).bind fun
          | .returned m _ => reclassifyDevices fuel entityClassNames m ks
          | .raised m => some (.raised m)
      else reclassifyDevices fuel entityClassNames m ks

def entityClassChanged (fuel : ℕ) (m : DeviceManager A) (entityClassNames : Finset String) :
    Option (MethodEnd A Unit) :=
  reclassifyDevices cl env fuel entityClassNames m (env.devices.toList m.deviceMap.keys)

end DeviceManager

/-- The operations that change devices. -/
inductive DeviceCall
  | learnDeviceByEntity (entity : Entity)
  | cleanupEntities
  | entityClassChanged (entityClassNames : Finset String)

/-- One operation, with the state that it leaves behind. -/
def DeviceManager.call {A : Type*} (cl : EntityClassifier) (fuel : ℕ) (m : DeviceManager A)
    (c : DeviceEnvironment A × DeviceCall) : Option (DeviceManager A) :=
  match c.2 with
  | .learnDeviceByEntity entity =>
    (learnDeviceByEntity cl c.1 fuel m entity []).map MethodEnd.state
  | .cleanupEntities => cleanupEntities cl c.1 fuel m
  | .entityClassChanged names => (entityClassChanged cl c.1 fuel m names).map MethodEnd.state

end NctuSdn.Devices
