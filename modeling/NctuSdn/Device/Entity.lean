/-
Entities (`Entity`, `IndexedEntity`).

An entity is what one packet shows of a device: an address and, where known,
an IP address, a tag and a port of a switch.  Except for the times it does not
change.  `compareTo` orders entities by their fields, a field that is not set
first; indexes compare some of the fields only.
-/
import Mathlib.Data.Finset.Insert
import NctuSdn.Topology.Link

namespace NctuSdn.Devices

/-! ### The source -/

/-- `Entity`; `none` is null. -/
structure Entity where
  macAddress : BitVec 64
  ipv4Address : Option (BitVec 32)
  vlan : Option (BitVec 16)
  switchDPID : Option SwitchId
  switchPort : Option (BitVec 32)
  lastSeenTimestamp : Option (BitVec 64)
  activeSince : Option (BitVec 64)
deriving DecidableEq, Repr

/-- The order of `Long`, `Integer` and `Short`, null first. -/
def compareNullable {w : ℕ} : Option (BitVec w) → Option (BitVec w) → Ordering
  | none, none => .eq
  | none, some _ => .lt
  | some _, none => .gt
  | some a, some b => compare a.toInt b.toInt

namespace Entity

def new (macAddress : BitVec 64) (vlan : Option (BitVec 16)) (ipv4Address : Option (BitVec 32))
    (switchDPID : Option SwitchId) (switchPort : Option (BitVec 32))
    (lastSeenTimestamp : Option (BitVec 64)) : Entity where
  macAddress := macAddress
  ipv4Address := ipv4Address
  vlan := vlan
  switchDPID := switchDPID
  switchPort := switchPort
  lastSeenTimestamp := lastSeenTimestamp
  activeSince := lastSeenTimestamp

/-- `hasSwitchPort`, with the port as the callers use it (`shortValue`). -/
def switchPort? (e : Entity) : Option (SwitchId × Port) :=
  match e.switchDPID, e.switchPort with
  | some dpid, some port => some (dpid, port.setWidth 16)
  | _, _ => none

/-- `setLastSeenTimestamp`; `ACTIVITY_TIMEOUT` is 30 seconds. -/
def setLastSeenTimestamp (e : Entity) (lastSeen : BitVec 64) : Entity :=
  { e with
    activeSince :=
      match e.activeSince with
      | none => some lastSeen
      | some t => if (t + 30000).slt lastSeen then some lastSeen else some t
    lastSeenTimestamp := some lastSeen }

def equals (e o : Entity) : Bool :=
  e.ipv4Address = o.ipv4Address ∧ e.macAddress = o.macAddress ∧ e.switchDPID = o.switchDPID ∧
    e.switchPort = o.switchPort ∧ e.vlan = o.vlan

def compareTo (e o : Entity) : Ordering :=
  (compare e.macAddress.toInt o.macAddress.toInt).then <|
    (compareNullable e.switchDPID o.switchDPID).then <|
      (compareNullable e.switchPort o.switchPort).then <|
        (compareNullable e.ipv4Address o.ipv4Address).then <|
          compareNullable e.vlan o.vlan

end Entity

inductive DeviceField
  | mac
  | ipv4
  | vlan
  | switch
  | port
deriving DecidableEq, Repr

abbrev KeyFields := Finset DeviceField

/-- What `IndexedEntity.equals` compares: the key fields of an entity. -/
structure IndexedEntity where
  macAddress : Option (BitVec 64)
  ipv4Address : Option (BitVec 32)
  vlan : Option (BitVec 16)
  switchDPID : Option SwitchId
  switchPort : Option (BitVec 32)
deriving DecidableEq, Repr

namespace IndexedEntity

def new (keyFields : KeyFields) (e : Entity) : IndexedEntity where
  macAddress := if .mac ∈ keyFields then some e.macAddress else none
  ipv4Address := if .ipv4 ∈ keyFields then e.ipv4Address else none
  vlan := if .vlan ∈ keyFields then e.vlan else none
  switchDPID := if .switch ∈ keyFields then e.switchDPID else none
  switchPort := if .port ∈ keyFields then e.switchPort else none

def hasNonNullKeys (ie : IndexedEntity) : Bool :=
  ie.macAddress.isSome || ie.ipv4Address.isSome || ie.vlan.isSome || ie.switchDPID.isSome ||
    ie.switchPort.isSome

end IndexedEntity

/-! ### The order -/

theorem compareNullable_eq {w : ℕ} (a b : Option (BitVec w)) :
    compareNullable a b = compare (a.map BitVec.toInt) (b.map BitVec.toInt) := by
  cases a <;> cases b <;> rfl

namespace Entity

theorem compareTo_eq : compareTo =
    compareLex (compareOn fun e => e.macAddress.toInt)
      (compareLex (compareOn fun e => e.switchDPID.map BitVec.toInt)
        (compareLex (compareOn fun e => e.switchPort.map BitVec.toInt)
          (compareLex (compareOn fun e => e.ipv4Address.map BitVec.toInt)
            (compareOn fun e => e.vlan.map BitVec.toInt)))) := by
  funext e o
  simp only [compareTo, compareNullable_eq, compareLex, compareOn]

instance instTransCmpCompareTo : Std.TransCmp compareTo := by
  rw [compareTo_eq]
  infer_instance

theorem equals_self (e : Entity) : e.equals e = true := by
  simp [equals]

def fields (e : Entity) : Entity := { e with lastSeenTimestamp := none, activeSince := none }

end Entity

theorem IndexedEntity.hasNonNullKeys_new {keyFields : KeyFields} (h : .mac ∈ keyFields)
    (e : Entity) : (IndexedEntity.new keyFields e).hasNonNullKeys = true := by
  unfold IndexedEntity.new hasNonNullKeys
  rw [if_pos h]
  rfl

end NctuSdn.Devices
