/-
The life cycle of switches (`Controller.SwitchManager`).

The manager keeps the switches that are connected to this controller
(`activeSwitches`), those it knows from the sync store while another controller
is master (`syncedSwitches`), and the store itself.  What happens to switches
is put into the queue of updates.  A call that raises an exception keeps what
it did before, and the rest of it is not done.

Switch objects are compared by identity; the id of a switch is set before the
manager hears of it and never changes, its ports and attributes do.
-/
import NctuSdn.Switch.PortManager

namespace NctuSdn

/-! ### Switches and what is stored of them -/

inductive Role
  | equal | master | slave
deriving DecidableEq, Repr

/-- A switch object. -/
structure IOFSwitch (O : Type) where
  object : O
  datapathId : SwitchId
deriving DecidableEq

/-- What changes in a switch object. -/
structure SwitchFields where
  portManager : PortManager
  supportsNxRole : Bool

/-- `OFFeaturesReply`, as far as it is read. -/
structure OFFeaturesReply where
  datapathId : SwitchId
  ports : List OFPhysicalPort

/-- `setFeaturesReply` on a new switch: the ports. -/
def setFeaturesReply (env : PortEnvironment) (featuresReply : OFFeaturesReply) :
    Except JavaException PortManager := do
  let immutablePorts ← featuresReply.ports.mapM ImmutablePort.fromOFPhysicalPort
  let (portManager, _) ← PortManager.new.updatePorts env immutablePorts
  pure portManager

def toBitmap {E : Type} [DecidableEq E] (constants : List E) (getValue : E → BitVec 32)
    (set : Finset E) : BitVec 32 :=
  constants.foldl (fun bitmap element =>
    if element ∈ set then bitmap ||| getValue element else bitmap) 0

structure SyncedPort where
  portNumber : Port
  hardwareAddress : BitVec 48
  name : String
  config : BitVec 32
  state : BitVec 32
  currentFeatures : BitVec 32
  advertisedFeatures : BitVec 32
  supportedFeatures : BitVec 32
  peerFeatures : BitVec 32

namespace SyncedPort

def fromImmutablePort (p : ImmutablePort) : SyncedPort :=
  let features := toBitmap OFPortFeatures.values OFPortFeatures.getValue
  { portNumber := p.portNumber
    hardwareAddress := p.hardwareAddress
    name := p.name
    config := toBitmap OFPortConfig.values OFPortConfig.getValue p.config
    state :=
      if p.portStateLinkDown then p.stpState.getValue ||| OFPortState.linkDown.getValue
      else p.stpState.getValue
    currentFeatures := features p.currentFeatures
    advertisedFeatures := features p.advertisedFeatures
    supportedFeatures := features p.supportedFeatures
    peerFeatures := features p.peerFeatures }

def toOFPhysicalPort (p : SyncedPort) : OFPhysicalPort :=
  ⟨p.portNumber, some p.hardwareAddress, some p.name, p.config, p.state, p.currentFeatures,
    p.advertisedFeatures, p.supportedFeatures, p.peerFeatures⟩

end SyncedPort

structure SwitchSyncRepresentation where
  dpid : SwitchId
  ports : List SyncedPort

def SwitchSyncRepresentation.getFeaturesReply (r : SwitchSyncRepresentation) : OFFeaturesReply :=
  ⟨r.dpid, r.ports.map SyncedPort.toOFPhysicalPort⟩

/-! ### The manager -/

/-- `SwitchUpdateType`, with the port of a PORTCHANGED update. -/
inductive SwitchUpdateType
  | added | removed | activated
  | portChanged (event : PortChangeEvent)

/-- What is put into the queue. -/
inductive ControllerUpdate
  | switchUpdate (swId : SwitchId) (switchUpdateType : SwitchUpdateType)
  | readyForReconcileUpdate

/-- What the manager has switches do. -/
inductive SwitchCommand
  | cancelAllStatisticsReplies | disconnectOutputStream | clearAllFlowMods
deriving DecidableEq, Repr

inductive UpdateType
  | localUpdate | remoteUpdate
deriving DecidableEq, Repr

/-- What does not change while the controller runs. -/
structure ControllerSettings where
  ports : PortEnvironment
  alwaysClearFlowsOnSwActivate : Bool

/-- `SwitchManager` and what it works on: the store (deleted keys stay, without
a value), the switch objects, the queue, and the commands given so far. -/
structure SwitchManager (O : Type) where
  role : Role
  activeSwitches : Finmap fun _ : SwitchId => IOFSwitch O
  syncedSwitches : Finmap fun _ : SwitchId => IOFSwitch O
  storeClient : Finmap fun _ : SwitchId => Option SwitchSyncRepresentation
  objects : O → SwitchFields
  updates : List ControllerUpdate
  commands : List (IOFSwitch O × SwitchCommand)

namespace SwitchManager

variable {O : Type} [DecidableEq O] (c : ControllerSettings) (m : SwitchManager O)

def new (role : Role) (storeClient : Finmap fun _ : SwitchId => Option SwitchSyncRepresentation)
    (objects : O → SwitchFields) : SwitchManager O :=
  ⟨role, ∅, ∅, storeClient, objects, [], []⟩

def addUpdateToQueue (update : ControllerUpdate) : SwitchManager O :=
  { m with updates := m.updates ++ [update] }

def order (sw : IOFSwitch O) (command : SwitchCommand) : SwitchManager O :=
  { m with commands := m.commands ++ [(sw, command)] }

def getPorts (sw : IOFSwitch O) : List ImmutablePort := (m.objects sw.object).portManager.portList

/-- `new SwitchSyncRepresentation(sw)`. -/
def represent (sw : IOFSwitch O) : SwitchSyncRepresentation :=
  ⟨sw.datapathId, (m.getPorts sw).map SyncedPort.fromImmutablePort⟩

def addSwitchToStore (sw : IOFSwitch O) : SwitchManager O :=
  { m with storeClient := m.storeClient.insert sw.datapathId (some (m.represent sw)) }

/-- `storeClient.get(dpid).getValue()`. -/
def stored (dpid : SwitchId) : Option SwitchSyncRepresentation := (m.storeClient.lookup dpid).join

def addSwitchToStoreIfAbsent (sw : IOFSwitch O) : SwitchManager O :=
  match m.stored sw.datapathId with
  | none => m.addSwitchToStore sw
  | some _ => m

def removeSwitchFromStore (dpid : SwitchId) : SwitchManager O :=
  { m with storeClient := m.storeClient.insert dpid none }

def sendNotificationsIfSwitchDiffers (oldSw newSw : IOFSwitch O) :
    SwitchManager O × Except JavaException Unit :=
  match (m.objects oldSw.object).portManager.compareAndUpdatePorts c.ports (m.getPorts newSw)
      false with
  | .error e => (m, .error e)
  | .ok (_, portDiffs) =>
    (portDiffs.foldl (fun m ev =>
      m.addUpdateToQueue (.switchUpdate newSw.datapathId (.portChanged ev))) m, .ok ())

def setRole (role : Role) : SwitchManager O :=
  let m := { m with role := role }
  if role = .master ∧ m.syncedSwitches.keys = ∅ then m.addUpdateToQueue .readyForReconcileUpdate
  else m

def setPortManager (object : O) (portManager : PortManager) : SwitchManager O :=
  let fields := { m.objects object with portManager := portManager }
  { m with objects := Function.update m.objects object fields }

def setPorts (sw : IOFSwitch O) (ports : List ImmutablePort) :
    SwitchManager O × Except JavaException Unit :=
  match (m.objects sw.object).portManager.updatePorts c.ports ports with
  | .error e => (m, .error e)
  | .ok (portManager, _) => (m.setPortManager sw.object portManager, .ok ())

/-- `switchActivated` for a switch that was known from the store. -/
def activateSynced (storedSwitch sw : IOFSwitch O) : SwitchManager O × Except JavaException Unit :=
  let m := if c.alwaysClearFlowsOnSwActivate then m.order sw .clearAllFlowMods else m
  let (m, result) :=
    if (m.objects sw.object).supportsNxRole then m.setPorts c sw (m.getPorts storedSwitch)
    else (m, .ok ())
  match result with
  | .error e => (m, .error e)
  | .ok () =>
    let m := m.addUpdateToQueue (.switchUpdate sw.datapathId .activated)
    match m.sendNotificationsIfSwitchDiffers c storedSwitch sw with
    | (m, .error e) => (m, .error e)
    | (m, .ok ()) =>
      let m :=
        if m.syncedSwitches.keys = ∅ then m.addUpdateToQueue .readyForReconcileUpdate else m
      (m.addSwitchToStore sw, .ok ())

/-- `switchActivated`; `recent` is the answer of `swConnectCache.update`. -/
def switchActivated (sw : IOFSwitch O) (recent : Bool) :
    SwitchManager O × Except JavaException Unit :=
  if m.role ≠ .master then (m, .ok ())
  else
    let dpid := sw.datapathId
    let put := { m with activeSwitches := m.activeSwitches.insert dpid sw }
    match m.activeSwitches.lookup dpid with
    | some oldSw =>
      if oldSw = sw then (put.addSwitchToStore sw, .ok ())
      else
        let m := put.order oldSw .cancelAllStatisticsReplies
        let m := m.addUpdateToQueue (.switchUpdate dpid .removed)
        let m := m.order oldSw .disconnectOutputStream
        let m := m.order sw .clearAllFlowMods
        let m := m.addUpdateToQueue (.switchUpdate dpid .added)
        let m := m.addUpdateToQueue (.switchUpdate dpid .activated)
        (m.addSwitchToStore sw, .ok ())
    | none =>
      let removed := { put with syncedSwitches := m.syncedSwitches.erase dpid }
      match m.syncedSwitches.lookup dpid with
      | none =>
        let m := if recent then removed else removed.order sw .clearAllFlowMods
        let m := m.addUpdateToQueue (.switchUpdate dpid .added)
        let m := m.addUpdateToQueue (.switchUpdate dpid .activated)
        (m.addSwitchToStore sw, .ok ())
      | some storedSwitch => removed.activateSynced c storedSwitch sw

def switchPortsChanged (sw : IOFSwitch O) (event : PortChangeEvent) : SwitchManager O :=
  if m.role ≠ .master then m
  else if sw.datapathId ∉ m.activeSwitches then m
  else
    (m.addSwitchToStore sw).addUpdateToQueue (.switchUpdate sw.datapathId (.portChanged event))

def switchAddedToStore (sw : IOFSwitch O) : SwitchManager O × Except JavaException Unit :=
  if m.role ≠ .slave then (m, .ok ())
  else
    let dpid := sw.datapathId
    let put := { m with syncedSwitches := m.syncedSwitches.insert dpid sw }
    match m.syncedSwitches.lookup dpid with
    | none => (put.addUpdateToQueue (.switchUpdate dpid .added), .ok ())
    | some oldSw => put.sendNotificationsIfSwitchDiffers c oldSw sw

def switchRemovedFromStore (dpid : SwitchId) : SwitchManager O :=
  if m.role ≠ .slave then m
  else
    match m.syncedSwitches.lookup dpid with
    | some _ =>
      { m with syncedSwitches := m.syncedSwitches.erase dpid }.addUpdateToQueue
        (.switchUpdate dpid .removed)
    | none => m

/-- The loop of `keysModified`: each key with the object that
`getOFSwitchInstance` creates for it.  An exception leaves the loop. -/
def readKeys (m : SwitchManager O) : List (SwitchId × O) → SwitchManager O
  | [] => m
  | (key, object) :: keys =>
    match m.stored key with
    | none => readKeys (m.switchRemovedFromStore key) keys
    | some storedSwitch =>
      match setFeaturesReply c.ports storedSwitch.getFeaturesReply with
      | .error _ => m
      | .ok portManager =>
        let m := m.setPortManager object portManager
        if key ≠ storedSwitch.getFeaturesReply.datapathId then readKeys m keys
        else
          match m.switchAddedToStore c ⟨object, storedSwitch.getFeaturesReply.datapathId⟩ with
          | (m, .error _) => m
          | (m, .ok ()) => readKeys m keys

def keysModified (keys : List (SwitchId × O)) : UpdateType → SwitchManager O
  | .localUpdate => m
  | .remoteUpdate => m.readKeys c keys

def switchDisconnected (sw : IOFSwitch O) : SwitchManager O :=
  if m.role = .slave then m
  else if m.activeSwitches.lookup sw.datapathId ≠ some sw then m
  else
    let m := { m with activeSwitches := m.activeSwitches.erase sw.datapathId }
    let m := m.removeSwitchFromStore sw.datapathId
    let m := m.order sw .cancelAllStatisticsReplies
    m.addUpdateToQueue (.switchUpdate sw.datapathId .removed)

def consolidateEntry (s : SwitchManager O × Bool) (key : SwitchId) : SwitchManager O × Bool :=
  if key ∉ s.1.activeSwitches then
    let m := s.1.removeSwitchFromStore key
    match m.syncedSwitches.lookup key with
    | some _ =>
      ({ m with syncedSwitches := m.syncedSwitches.erase key }.addUpdateToQueue
        (.switchUpdate key .removed), true)
    | none => (m, s.2)
  else s

/-- `consolidateStore`, a synced switch that is left. -/
def dropSynced (s : SwitchManager O × Bool) (dpid : SwitchId) : SwitchManager O × Bool :=
  ({ s.1.addUpdateToQueue (.switchUpdate dpid .removed) with
    syncedSwitches := s.1.syncedSwitches.erase dpid }, true)

/-- `consolidateStore`, an active switch. -/
def restoreActive (m : SwitchManager O) (dpid : SwitchId) : SwitchManager O :=
  match m.activeSwitches.lookup dpid with
  | some sw => m.addSwitchToStoreIfAbsent sw
  | none => m

/-- The orders in which `consolidateStore` meets the keys of the three maps. -/
structure Orders where
  store : SetOrder SwitchId
  synced : SetOrder SwitchId
  active : SetOrder SwitchId

def consolidateStore (orders : Orders) : SwitchManager O :=
  if m.role = .slave then m
  else
    let s := (orders.store.toList m.storeClient.keys).foldl consolidateEntry (m, false)
    let s := (orders.synced.toList s.1.syncedSwitches.keys).foldl dropSynced s
    let m := if s.2 then s.1.addUpdateToQueue .readyForReconcileUpdate else s.1
    (orders.active.toList m.activeSwitches.keys).foldl restoreActive m

def getAllSwitchDpids : Finset SwitchId :=
  if m.role ≠ .slave then m.syncedSwitches.keys ∪ m.activeSwitches.keys
  else m.syncedSwitches.keys

end SwitchManager

/-! ### Runs -/

/-- What happens to the manager, and what happens around it: a switch object
changes, or the store gets what another controller has written. -/
inductive ManagerEvent (O : Type)
  | switchActivated (sw : IOFSwitch O) (recent : Bool)
  | switchDeactivated (sw : IOFSwitch O)
  | switchDisconnected (sw : IOFSwitch O)
  | switchPortsChanged (sw : IOFSwitch O) (event : PortChangeEvent)
  | keysModified (keys : List (SwitchId × O)) (type : UpdateType)
  | setRoleMaster
  | consolidateStore (orders : SwitchManager.Orders)
  | objectChanged (object : O) (fields : SwitchFields)
  | storeWritten (dpid : SwitchId) (value : Option SwitchSyncRepresentation)

/-- Nobody else writes the store. -/
def ManagerEvent.Own {O : Type} : ManagerEvent O → Prop
  | .storeWritten _ _ => False
  | _ => True

namespace SwitchManager

variable {O : Type} [DecidableEq O] (c : ControllerSettings)

def step (m : SwitchManager O) : ManagerEvent O → SwitchManager O
  | .switchActivated sw recent => (m.switchActivated c sw recent).1
  | .switchDeactivated _ => m
  | .switchDisconnected sw => m.switchDisconnected sw
  | .switchPortsChanged sw event => m.switchPortsChanged sw event
  | .keysModified keys type => m.keysModified c keys type
  | .setRoleMaster => m.setRole .master
  | .consolidateStore orders => m.consolidateStore orders
  | .objectChanged object fields => { m with objects := Function.update m.objects object fields }
  | .storeWritten dpid value => { m with storeClient := m.storeClient.insert dpid value }

def run (m : SwitchManager O) (events : List (ManagerEvent O)) : SwitchManager O :=
  events.foldl (step c) m

end SwitchManager

end NctuSdn
