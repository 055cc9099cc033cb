/-
Virtual networks (`VirtualNetworkFilter`).

Hosts are mapped to networks, and a network may have the address of a gateway.
The filter notes the Ethernet address of a device that turns up with such an
address (`macToGateway`) and lets its frames pass.  A note is taken away when
the device goes, and at no other time: not when the device gets another
address, nor when the network gets another gateway.  And a frame that comes
from a gateway passes wherever it goes.
-/
import NctuSdn.Forwarding.NctuForward
import Mathlib.Data.Finset.Erase
import Mathlib.Data.Finset.Insert

namespace NctuSdn

open Function

abbrev MACAddress := BitVec 48

def MACAddress.isBroadcast (mac : MACAddress) : Bool := mac == .allOnes 48

/-- `isMulticast`: the lowest bit of the first byte. -/
def MACAddress.isMulticast (mac : MACAddress) : Bool :=
  !mac.isBroadcast && (mac >>> 40) &&& 1 != 0

/-! ### The module -/

/-- The maps of `VirtualNetworkFilter`, by names and ids `T`.  The records
that are only listed are left out. -/
structure VirtualNetworkFilter (T : Type) where
  nameToGuid : List (T × T)
  guidToGateway : T → Option (BitVec 32)
  gatewayToGuid : BitVec 32 → Option (Finset T)
  macToGateway : MACAddress → Option (BitVec 32)
  macToGuid : MACAddress → Option T
  portToMac : List (T × MACAddress)

def VirtualNetworkFilter.init {T : Type} : VirtualNetworkFilter T :=
  ⟨[], fun _ => none, fun _ => none, fun _ => none, fun _ => none, []⟩

/-- `Map.put`, for a map that is walked. -/
def putEntry {κ ν : Type} [DecidableEq κ] (m : List (κ × ν)) (k : κ) (v : ν) : List (κ × ν) :=
  (k, v) :: m.filter fun e => e.1 ≠ k

def removeValues {κ ν : Type} [DecidableEq ν] (values : ν → Bool) :
    List ν → List (κ × ν) → List (κ × ν)
  | _, [] => []
  | removed, (k, v) :: m =>
    if values v ∧ v ∉ removed then removeValues values (v :: removed) m
    else (k, v) :: removeValues values removed m

namespace VirtualNetworkFilter

variable {T : Type} [DecidableEq T] (f : VirtualNetworkFilter T)

def addGateway (guid : T) (ip : BitVec 32) : VirtualNetworkFilter T :=
  if ip ≠ 0 then
    { f with
      guidToGateway := Function.update f.guidToGateway guid (some ip)
      gatewayToGuid := Function.update f.gatewayToGuid ip
        (some (insert guid ((f.gatewayToGuid ip).getD ∅))) }
  else f

def deleteGateway (guid : T) : VirtualNetworkFilter T × Except JavaException Unit :=
  match f.guidToGateway guid with
  | none => (f, .ok ())
  | some gwIp =>
    let f := { f with guidToGateway := Function.update f.guidToGateway guid none }
    match f.gatewayToGuid gwIp with
    | none => (f, .error .nullPointer)
    | some gSet =>
      ({ f with
        gatewayToGuid := Function.update f.gatewayToGuid gwIp (some (gSet.erase guid)) },
        .ok ())

/-- `createNetwork`; without a gateway the old one is preserved. -/
def createNetwork (guid : T) (network : Option T) (gateway : Option (BitVec 32)) :
    VirtualNetworkFilter T :=
  let names := f.nameToGuid.eraseP fun e => e.2 = guid
  let f := { f with
    nameToGuid := match network with
      | some network => putEntry names network guid
      | none => names }
  match gateway with
  | some gateway => f.addGateway guid gateway
  | none => f

/-- `deleteNetwork`.  Without any name nothing is done, and the search for an
id that has no name ends in a null key. -/
def deleteNetwork (guid : T) : VirtualNetworkFilter T × Except JavaException Unit :=
  if f.nameToGuid = [] then (f, .ok ())
  else
    match f.nameToGuid.find? fun e => e.2 = guid with
    | none => (f, .error .nullPointer)
    | some (name, _) =>
      let f := { f with nameToGuid := f.nameToGuid.filter fun e => e.1 ≠ name }
      match f.deleteGateway guid with
      | (f, .error e) => (f, .error e)
      | (f, .ok ()) =>
        ({ f with
          macToGuid := fun mac => if f.macToGuid mac = some guid then none else f.macToGuid mac
          portToMac := removeValues (fun mac => f.macToGuid mac = some guid) [] f.portToMac },
          .ok ())

def addHost (mac : MACAddress) (guid port : Option T) :
    VirtualNetworkFilter T × Except JavaException Unit :=
  match guid with
  | none => (f, .ok ())
  | some guid =>
    let f := { f with macToGuid := Function.update f.macToGuid mac (some guid) }
    match port with
    | none => (f, .error .nullPointer)
    | some port => ({ f with portToMac := putEntry f.portToMac port mac }, .ok ())

/-- Forget a host; the record of its network is looked up first, by a key that
is null for a host without a network. -/
def removeHost (host : MACAddress) : VirtualNetworkFilter T × Except JavaException Unit :=
  match f.macToGuid host with
  | none => (f, .error .nullPointer)
  | some _ => ({ f with macToGuid := Function.update f.macToGuid host none }, .ok ())

def deleteHost (mac : Option MACAddress) (port : Option T) :
    VirtualNetworkFilter T × Except JavaException Unit :=
  match mac, port with
  | _, some port =>
    let g := { f with portToMac := f.portToMac.filter fun e => e.1 ≠ port }
    match f.portToMac.lookup port with
    | none => (g, .error .nullPointer)
    | some host => g.removeHost host
  | some mac, none =>
    match f.portToMac.find? fun e => e.2 = mac with
    | none => (f, .ok ())
    | some (port, _) =>
      match f.removeHost mac with
      | (f, .error e) => (f, .error e)
      | (f, .ok ()) => ({ f with portToMac := f.portToMac.filter fun e => e.1 ≠ port }, .ok ())
  | none, none => (f, .ok ())

/-- `deviceAdded` and `deviceIPV4AddrChanged`: the last address that is known
as a gateway counts. -/
def deviceAdded (mac : MACAddress) (ips : List (BitVec 32)) : VirtualNetworkFilter T :=
  ips.foldl (fun f i =>
    match f.gatewayToGuid i with
    | some _ => { f with macToGateway := Function.update f.macToGateway mac (some i) }
    | none => f) f

def deviceRemoved (mac : MACAddress) : VirtualNetworkFilter T :=
  { f with macToGateway := Function.update f.macToGateway mac none }

/-! ### Packets -/

def isDefaultGateway (src dst : MACAddress) : Bool :=
  (f.macToGateway src).isSome ||
    match f.macToGateway dst, f.macToGuid src with
    | some gwIp, some srcNet => f.guidToGateway srcNet == some gwIp
    | _, _ => false

def oneSameNetwork (m₁ m₂ : MACAddress) : Bool :=
  match f.macToGuid m₁, f.macToGuid m₂ with
  | some net₁, some net₂ => net₁ == net₂
  | _, _ => false

/-- `processPacketIn`.  Whether the frame carries DHCP is asked of its payload,
three layers down. -/
def processPacketIn (eth : Ethernet) (isDhcpPacket : Bool) : Command :=
  let src := eth.sourceMACAddress
  let dst := eth.destinationMACAddress
  if MACAddress.isBroadcast dst || MACAddress.isMulticast dst || f.isDefaultGateway src dst ||
      isDhcpPacket then .continue
  else
    match f.macToGuid src with
    | none => .stop
    | some _ => if f.oneSameNetwork src dst then .continue else .stop

end VirtualNetworkFilter

/-! ### The devices and the filter -/

/-- The filter, and the devices that are present with their addresses. -/
structure VirtualWorld (T K : Type) where
  filter : VirtualNetworkFilter T
  devices : K → Option (MACAddress × List (BitVec 32))

/-- The calls and the events. -/
inductive VirtualEvent (T K : Type)
  | createNetwork (guid : T) (network : Option T) (gateway : Option (BitVec 32))
  | deleteNetwork (guid : T)
  | addHost (mac : MACAddress) (guid port : Option T)
  | deleteHost (mac : Option MACAddress) (port : Option T)
  | deviceAdded (device : K) (mac : MACAddress) (ips : List (BitVec 32))
  | deviceRemoved (device : K)
  | deviceIPV4AddrChanged (device : K) (ips : List (BitVec 32))

variable {T K : Type}

namespace VirtualWorld

def init : VirtualWorld T K := ⟨.init, fun _ => none⟩

section Run

variable [DecidableEq T] [DecidableEq K]

/-- One call or event.  Only devices that are not there are added, and only
devices that are there change or go. -/
def step (w : VirtualWorld T K) : VirtualEvent T K → VirtualWorld T K
  | .createNetwork guid network gateway =>
    { w with filter := w.filter.createNetwork guid network gateway }
  | .deleteNetwork guid => { w with filter := (w.filter.deleteNetwork guid).1 }
  | .addHost mac guid port => { w with filter := (w.filter.addHost mac guid port).1 }
  | .deleteHost mac port => { w with filter := (w.filter.deleteHost mac port).1 }
  | .deviceAdded device mac ips =>
    match w.devices device with
    | some _ => w
    | none =>
      ⟨w.filter.deviceAdded mac ips, Function.update w.devices device (some (mac, ips))⟩
  | .deviceRemoved device =>
    match w.devices device with
    | some (mac, _) => ⟨w.filter.deviceRemoved mac, Function.update w.devices device none⟩
    | none => w
  | .deviceIPV4AddrChanged device ips =>
    match w.devices device with
    | some (mac, _) =>
      ⟨w.filter.deviceAdded mac ips, Function.update w.devices device (some (mac, ips))⟩
    | none => w

def run (w : VirtualWorld T K) (events : List (VirtualEvent T K)) : VirtualWorld T K :=
  events.foldl step w

end Run

/-- A device with the Ethernet address is present and has the address now. -/
def HasAddress (w : VirtualWorld T K) (mac : MACAddress) (ip : BitVec 32) : Prop :=
  ∃ device ips, w.devices device = some (mac, ips) ∧ ip ∈ ips

/-- The gateway of the network of a host. -/
def IsGatewayOf (w : VirtualWorld T K) (mac host : MACAddress) : Prop :=
  ∃ guid ip, w.filter.macToGuid host = some guid ∧ w.filter.guidToGateway guid = some ip ∧
    w.HasAddress mac ip

/-- The two are in one network, or one is the gateway of the other. -/
def Isolated (w : VirtualWorld T K) (a b : MACAddress) : Prop :=
  (∃ guid, w.filter.macToGuid a = some guid ∧ w.filter.macToGuid b = some guid) ∨
    w.IsGatewayOf a b ∨ w.IsGatewayOf b a

/-- A device that is noted as a gateway and changes its addresses keeps one
that is or was configured as a gateway. -/
def KeepsGateway (w : VirtualWorld T K) : VirtualEvent T K → Prop
  | .deviceIPV4AddrChanged device ips => ∀ mac old, w.devices device = some (mac, old) →
      w.filter.macToGateway mac ≠ none → ∃ i ∈ ips, w.filter.gatewayToGuid i ≠ none
  | _ => True

/-- Every event of a history is such. -/
def KeepsGateways [DecidableEq T] [DecidableEq K] :
    VirtualWorld T K → List (VirtualEvent T K) → Prop
  | _, [] => True
  | w, event :: events => w.KeepsGateway event ∧ (w.step event).KeepsGateways events

/-- A frame that a noted gateway sends goes to a host whose network has it as
its gateway, or to one of its own network. -/
def FromOwnGateway [DecidableEq T] (w : VirtualWorld T K) (src dst : MACAddress) : Prop :=
  ∀ ip, w.filter.macToGateway src = some ip →
    w.filter.oneSameNetwork src dst ∨
      ∃ guid, w.filter.macToGuid dst = some guid ∧ w.filter.guidToGateway guid = some ip

end VirtualWorld

/-! ### Notes are true -/

namespace VirtualNetworkFilter

variable {f : VirtualNetworkFilter T}

/-- What `deviceAdded` does: it notes an address that is known as a gateway,
or nothing if there is none. -/
theorem deviceAdded_spec (f : VirtualNetworkFilter T) (mac : MACAddress) (ips : List (BitVec 32)) :
    (∃ i ∈ ips, (f.deviceAdded mac ips) =
        { f with macToGateway := Function.update f.macToGateway mac (some i) }) ∨
      (f.deviceAdded mac ips = f ∧ ∀ i ∈ ips, f.gatewayToGuid i = none) := by
  induction ips generalizing f with
  | nil => exact .inr ⟨rfl, fun i hi => nomatch hi⟩
  | cons i ips ih =>
    unfold deviceAdded
    rw [List.foldl_cons]
    cases hi : f.gatewayToGuid i with
    | none =>
      rcases ih f with ⟨j, hj, heq⟩ | ⟨heq, hnone⟩
      · exact .inl ⟨j, .tail _ hj, heq⟩
      · refine .inr ⟨heq, fun j hj => ?_⟩
        rcases List.mem_cons.mp hj with rfl | hj
        · exact hi
        · exact hnone j hj
    | some gSet =>
      left
      rcases ih { f with macToGateway := Function.update f.macToGateway mac (some i) } with
        ⟨j, hj, heq⟩ | ⟨heq, -⟩
      · refine ⟨j, .tail _ hj, heq.trans ?_⟩
        rw [update_idem]
      · exact ⟨i, .head _, heq⟩

theorem macToGateway_removeHost (host : MACAddress) :
    (f.removeHost host).1.macToGateway = f.macToGateway := by
  unfold removeHost
  split <;> rfl

variable [DecidableEq T]

theorem macToGateway_addGateway (guid : T) (ip : BitVec 32) :
    (f.addGateway guid ip).macToGateway = f.macToGateway := by
  unfold addGateway
  split <;> rfl

theorem macToGateway_createNetwork (guid : T) (network : Option T) (gateway : Option (BitVec 32)) :
    (f.createNetwork guid network gateway).macToGateway = f.macToGateway := by
  cases gateway with
  | none => rfl
  | some gateway => exact macToGateway_addGateway guid gateway

theorem macToGateway_deleteGateway (guid : T) :
    (f.deleteGateway guid).1.macToGateway = f.macToGateway := by
  unfold deleteGateway
  split
  · rfl
  · dsimp only
    split <;> rfl

theorem macToGateway_deleteNetwork (guid : T) :
    (f.deleteNetwork guid).1.macToGateway = f.macToGateway := by
  unfold deleteNetwork
  split
  · rfl
  · split
    · rfl
    · next name _ _ =>
      have hkeep := macToGateway_deleteGateway
        (f := { f with nameToGuid := f.nameToGuid.filter fun e => e.1 ≠ name }) guid
      dsimp only
      split
      · next hdelete =>
        rw [hdelete] at hkeep
        exact hkeep
      · next hdelete =>
        rw [hdelete] at hkeep
        exact hkeep

theorem macToGateway_addHost (mac : MACAddress) (guid port : Option T) :
    (f.addHost mac guid port).1.macToGateway = f.macToGateway := by
  cases guid <;> cases port <;> rfl

theorem macToGateway_deleteHost (mac : Option MACAddress) (port : Option T) :
    (f.deleteHost mac port).1.macToGateway = f.macToGateway := by
  unfold deleteHost
  split
  · dsimp only
    split
    · rfl
    · exact macToGateway_removeHost _
  · next mac =>
    split
    · rfl
    · have hkeep := macToGateway_removeHost (f := f) mac
      split
      · next hremove =>
        rw [hremove] at hkeep
        exact hkeep
      · next hremove =>
        rw [hremove] at hkeep
        exact hkeep
  · rfl

end VirtualNetworkFilter

namespace VirtualWorld

/-- Every note is about a device that is there and has the address. -/
def Noted (w : VirtualWorld T K) : Prop :=
  ∀ mac ip, w.filter.macToGateway mac = some ip → w.HasAddress mac ip

theorem noted_init : (init : VirtualWorld T K).Noted := fun _ _ h => nomatch h

theorem HasAddress.update [DecidableEq K] {w : VirtualWorld T K} {mac : MACAddress} {ip : BitVec 32}
    (h : w.HasAddress mac ip) {device : K} (hdevice : ∀ ips, w.devices device ≠ some (mac, ips))
    (v : Option (MACAddress × List (BitVec 32))) (f : VirtualNetworkFilter T) :
    HasAddress ⟨f, Function.update w.devices device v⟩ mac ip := by
  obtain ⟨device', ips, hdevice', hip⟩ := h
  have hne : device' ≠ device := by
    rintro rfl
    exact hdevice ips hdevice'
  exact ⟨device', ips, (update_of_ne hne ..).trans hdevice', hip⟩

namespace Noted

variable {w : VirtualWorld T K} (h : w.Noted)

include h

theorem same {f : VirtualNetworkFilter T} (hf : f.macToGateway = w.filter.macToGateway) :
    Noted { w with filter := f } := by
  intro mac ip hnote
  have hnote : f.macToGateway mac = some ip := hnote
  rw [hf] at hnote
  exact h mac ip hnote

variable [DecidableEq K]

/-- A device comes or changes.  `hother` says that it was no other device, and
`hkept` that it is noted again if it was noted. -/
theorem deviceAdded {device : K} {mac : MACAddress} {ips : List (BitVec 32)}
    (hother : ∀ mac' old, w.devices device = some (mac', old) → mac' = mac)
    (hkept : w.devices device ≠ none → w.filter.macToGateway mac ≠ none →
      ∃ i ∈ ips, w.filter.gatewayToGuid i ≠ none) :
    Noted ⟨w.filter.deviceAdded mac ips,
      Function.update w.devices device (some (mac, ips))⟩ := by
  have hothers : ∀ mac' ip, mac' ≠ mac → w.filter.macToGateway mac' = some ip →
      HasAddress ⟨w.filter.deviceAdded mac ips,
        Function.update w.devices device (some (mac, ips))⟩ mac' ip :=
    fun mac' ip hne hnote =>
      (h mac' ip hnote).update (fun old hold => hne (hother mac' old hold)) _ _
  intro mac' ip hnote
  rcases w.filter.deviceAdded_spec mac ips with ⟨i, hi, hadded⟩ | ⟨hadded, hnone⟩
  · have hnote : Function.update w.filter.macToGateway mac (some i) mac' = some ip := by
      rw [hadded] at hnote
      exact hnote
    by_cases hmac : mac' = mac
    · subst hmac
      rw [update_self] at hnote
      cases hnote
      exact ⟨device, ips, update_self .., hi⟩
    · rw [update_of_ne hmac] at hnote
      exact hothers mac' ip hmac hnote
  · have hbefore : w.filter.macToGateway mac' = some ip := by
      rw [hadded] at hnote
      exact hnote
    by_cases hmac : mac' = mac
    · -- the device was noted before, so it was another one or is noted again
      subst hmac
      cases hdevice : w.devices device with
      | none =>
        refine (h mac' ip hbefore).update (fun old hold => ?_) _ _
        rw [hdevice] at hold
        cases hold
      | some d =>
        obtain ⟨i, hi, hgateway⟩ := hkept (by rw [hdevice]; exact Option.some_ne_none d)
          (by rw [hbefore]; exact Option.some_ne_none ip)
        exact absurd (hnone i hi) hgateway
    · exact hothers mac' ip hmac hbefore

theorem deviceRemoved {device : K} {mac : MACAddress} {ips : List (BitVec 32)}
    (hdevice : w.devices device = some (mac, ips)) :
    Noted ⟨w.filter.deviceRemoved mac, Function.update w.devices device none⟩ := by
  intro mac' ip hnote
  have hnote : Function.update w.filter.macToGateway mac none mac' = some ip := hnote
  have hne : mac' ≠ mac := by
    rintro rfl
    rw [update_self] at hnote
    cases hnote
  rw [update_of_ne hne] at hnote
  refine (h mac' ip hnote).update (fun old hold => ?_) _ _
  rw [hdevice] at hold
  cases hold
  exact hne rfl

variable [DecidableEq T]

theorem step {event : VirtualEvent T K} (hkeeps : w.KeepsGateway event) : (w.step event).Noted := by
  cases event with
  | createNetwork guid network gateway => exact h.same (w.filter.macToGateway_createNetwork ..)
  | deleteNetwork guid => exact h.same (w.filter.macToGateway_deleteNetwork guid)
  | addHost mac guid port => exact h.same (w.filter.macToGateway_addHost mac guid port)
  | deleteHost mac port => exact h.same (w.filter.macToGateway_deleteHost mac port)
  | deviceAdded device mac ips =>
    unfold VirtualWorld.step
    dsimp only
    cases hdevice : w.devices device with
    | some d => exact h
    | none =>
      refine h.deviceAdded (fun mac' old hold => ?_) fun hsome => absurd hdevice hsome
      rw [hdevice] at hold
      cases hold
  | deviceRemoved device =>
    unfold VirtualWorld.step
    dsimp only
    rcases hdevice : w.devices device with _ | ⟨mac, ips⟩
    · exact h
    · exact h.deviceRemoved hdevice
  | deviceIPV4AddrChanged device ips =>
    unfold VirtualWorld.step
    dsimp only
    rcases hdevice : w.devices device with _ | ⟨mac, old⟩
    · exact h
    · refine h.deviceAdded (fun mac' old' hold => ?_) fun _ hnoted =>
        hkeeps mac old hdevice hnoted
      rw [hdevice] at hold
      cases hold
      rfl

theorem run {events : List (VirtualEvent T K)} (hkeeps : w.KeepsGateways events) :
    (w.run events).Noted := by
  induction events generalizing w with
  | nil => exact h
  | cons event events ih => exact ih (h.step hkeeps.1) hkeeps.2

end Noted

end VirtualWorld

/-! ### Isolation -/

variable [DecidableEq T]

theorem VirtualNetworkFilter.processPacketIn_continue {f : VirtualNetworkFilter T} {eth : Ethernet}
    (hbroadcast : MACAddress.isBroadcast eth.destinationMACAddress = false)
    (hmulticast : MACAddress.isMulticast eth.destinationMACAddress = false)
    (h : f.processPacketIn eth false = .continue) :
    (∃ ip, f.macToGateway eth.sourceMACAddress = some ip) ∨
      (∃ ip guid, f.macToGateway eth.destinationMACAddress = some ip ∧
        f.macToGuid eth.sourceMACAddress = some guid ∧ f.guidToGateway guid = some ip) ∨
      f.oneSameNetwork eth.sourceMACAddress eth.destinationMACAddress := by
  unfold VirtualNetworkFilter.processPacketIn at h
  dsimp only at h
  rw [hbroadcast, hmulticast] at h
  split at h
  · next hgateway =>
    rw [Bool.or_false, Bool.or_self, Bool.false_or, VirtualNetworkFilter.isDefaultGateway,
      Bool.or_eq_true, Option.isSome_iff_exists] at hgateway
    refine hgateway.imp_right fun hdst => .inl ?_
    split at hdst
    · next gwIp srcNet hgwIp hsrcNet => exact ⟨gwIp, srcNet, hgwIp, hsrcNet, beq_iff_eq.mp hdst⟩
    · cases hdst
  · split at h
    · cases h
    · split at h
      · next hsame => exact .inr (.inr hsame)
      · cases h

theorem VirtualNetworkFilter.exists_of_oneSameNetwork {f : VirtualNetworkFilter T}
    {a b : MACAddress} (h : f.oneSameNetwork a b) :
    ∃ guid, f.macToGuid a = some guid ∧ f.macToGuid b = some guid := by
  unfold VirtualNetworkFilter.oneSameNetwork at h
  split at h
  · next net₁ net₂ h₁ h₂ =>
    obtain rfl : net₁ = net₂ := beq_iff_eq.mp h
    exact ⟨net₁, h₁, h₂⟩
  · cases h

/-- **Isolation.**  After any history in which noted gateways keep a gateway
address, a frame that passes stays within a network or goes between a host and
the gateway of its network, unless a gateway sends it to another network. -/
theorem virtual_networks_isolated [DecidableEq K] {events : List (VirtualEvent T K)}
    (hkeeps : VirtualWorld.KeepsGateways .init events) {eth : Ethernet}
    (hbroadcast : MACAddress.isBroadcast eth.destinationMACAddress = false)
    (hmulticast : MACAddress.isMulticast eth.destinationMACAddress = false)
    (hown : (VirtualWorld.init.run events).FromOwnGateway eth.sourceMACAddress
      eth.destinationMACAddress)
    (hcontinue : (VirtualWorld.init.run events).filter.processPacketIn eth false = .continue) :
    (VirtualWorld.init.run events).Isolated eth.sourceMACAddress eth.destinationMACAddress := by
  have hnoted := VirtualWorld.noted_init.run hkeeps
  rcases VirtualNetworkFilter.processPacketIn_continue hbroadcast hmulticast hcontinue with
    ⟨ip, hip⟩ | ⟨ip, guid, hip, hguid, hgateway⟩ | hsame
  · -- from a gateway
    rcases hown ip hip with hsame | ⟨guid, hguid, hgateway⟩
    · exact .inl (VirtualNetworkFilter.exists_of_oneSameNetwork hsame)
    · exact .inr (.inl ⟨guid, ip, hguid, hgateway, hnoted _ _ hip⟩)
  · exact .inr (.inr ⟨guid, ip, hguid, hgateway, hnoted _ _ hip⟩)
  · exact .inl (VirtualNetworkFilter.exists_of_oneSameNetwork hsame)

/-! ### A host and a gateway -/

/-- The network 1 has the gateway 10.0.0.1 and the host 2; device 9 with the
Ethernet address 9 has the address of the gateway. -/
def gatewayEvents : List (VirtualEvent ℕ ℕ) :=
  [.createNetwork 1 (some 1) (some 0x0a000001), .addHost 2 (some 1) (some 4),
    .deviceAdded 9 9 [0x0a000001]]

def gatewayFrame : Ethernet := ⟨9, 2, vlanUntagged, typeIPv4, .other⟩

/-- The device of the gateway gets a second address. -/
def gatewayMoves : List (VirtualEvent ℕ ℕ) :=
  gatewayEvents ++ [.deviceIPV4AddrChanged 9 [0x0a000001, 0x0a000007]]

theorem keepsGateways_gatewayMoves : VirtualWorld.KeepsGateways .init gatewayMoves :=
  ⟨trivial, trivial, trivial, fun _ _ _ _ => ⟨0x0a000001, .head _, Option.some_ne_none _⟩, trivial⟩

/-- The gateway answers a host of its network. -/
theorem virtual_networks_isolated_gateway :
    VirtualWorld.KeepsGateways .init gatewayMoves ∧
    (VirtualWorld.init.run gatewayMoves).filter.macToGateway 9 = some 0x0a000001 ∧
    (VirtualWorld.init.run gatewayMoves).FromOwnGateway 9 2 ∧
    (VirtualWorld.init.run gatewayMoves).filter.processPacketIn
      ⟨2, 9, vlanUntagged, typeIPv4, .other⟩ false = .continue ∧
    (VirtualWorld.init.run gatewayMoves).Isolated 9 2 := by
  have hnoted : (VirtualWorld.init.run gatewayMoves).filter.macToGateway 9 = some 0x0a000001 := by
    decide +kernel
  have hown : (VirtualWorld.init.run gatewayMoves).FromOwnGateway 9 2 := by
    intro ip hip
    cases hnoted.symm.trans hip
    exact .inr ⟨1, by decide +kernel, by decide +kernel⟩
  have hpasses : (VirtualWorld.init.run gatewayMoves).filter.processPacketIn
      ⟨2, 9, vlanUntagged, typeIPv4, .other⟩ false = .continue := by decide +kernel
  exact ⟨keepsGateways_gatewayMoves, hnoted, hown, hpasses,
    virtual_networks_isolated keepsGateways_gatewayMoves (by decide) (by decide) hown hpasses⟩

/-- The device gets another address and is still taken for the gateway. -/
theorem stale_gateway_passes :
    (VirtualWorld.init.run
      (gatewayEvents ++ [.deviceIPV4AddrChanged 9 [0x0a000005]])).filter.processPacketIn
        gatewayFrame false = .continue ∧
    ¬ (VirtualWorld.init.run
      (gatewayEvents ++ [.deviceIPV4AddrChanged 9 [0x0a000005]])).Isolated 2 9 := by
  refine ⟨by decide +kernel, ?_⟩
  rintro (⟨guid, -, hguid⟩ | ⟨guid, ip, hguid, -⟩ |
    ⟨guid, ip, hguid, hgateway, device, ips, hdevice, hip⟩)
  · cases hguid
  · cases hguid
  · cases hguid
    cases hgateway
    by_cases hnine : device = 9
    · subst hnine
      cases hdevice
      exact absurd hip (by decide)
    · have hnone : (VirtualWorld.init.run (gatewayEvents ++
          [.deviceIPV4AddrChanged 9 [0x0a000005]])).devices device = none :=
        (update_of_ne hnine ..).trans (update_of_ne hnine ..)
      rw [hnone] at hdevice
      cases hdevice

end NctuSdn
