/-
The static flows of load-balanced connections (`LoadBalancer.processPacketIn`,
`pushBidirectionalVipRoutes`, `pushStaticVipRoute`).

For a packet to a VIP a member is picked, routes between the client and the
member are asked for in both directions, and a static flow is added for every
switch of every route.  A static flow is a row of a table in storage; its key is
the name of the flow, and a row with a name that is there already replaces it.

The name is made of the direction, the VIP, the address of the client, the target
port, the first switch of the route and the switch.  The protocol and the port of
the client are not in it.

Devices, domains and routes are those of the controller at the time.  What
`parseActionString` and `flowModActionsToString` make of the actions is a
parameter.  The match is printed and read back by `OFMatch.fromString`; the entries
have what is read (`fromString_matchString`).

The match of a flow is about the client only, so packets for others are rewritten too.
-/
import NctuSdn.Forwarding.NctuForward
import NctuSdn.LoadBalancer.Configuration
import NctuSdn.OpenFlow.MatchText
import Mathlib.Data.List.Sort

namespace NctuSdn

open List BitVec

open Decimal

/-! ### Clients -/

/-- What is behind the IPv4 header. -/
inductive Transport
  | tcp (sourcePort destinationPort : BitVec 16)
  | udp (sourcePort destinationPort : BitVec 16)
  | icmp
  | other

structure IPClient where
  ipAddress : BitVec 32
  nwProto : BitVec 8
  srcPort : BitVec 16
  targetPort : BitVec 16
deriving DecidableEq

/-- An IPv4 packet that is not for all or many. -/
structure ClientPacket where
  sourceAddress : BitVec 32
  destinationAddress : BitVec 32
  protocol : BitVec 8
  payload : Transport

def ClientPacket.client (p : ClientPacket) : IPClient :=
  match p.payload with
  | .tcp sourcePort destinationPort =>
    ⟨p.sourceAddress, p.protocol, sourcePort, destinationPort⟩
  | .udp sourcePort destinationPort =>
    ⟨p.sourceAddress, p.protocol, sourcePort, destinationPort⟩
  | .icmp => ⟨p.sourceAddress, p.protocol, 8, 0⟩
  | .other => ⟨p.sourceAddress, p.protocol, -1, -1⟩

/-! ### Rows -/

/-- `HexString.toHexString` of a number of bytes. -/
def toHexString (n : ℕ) {w : ℕ} (x : BitVec w) : List Char :=
  [':'].intercalate ((List.range n).reverse.map fun i =>
    [Nat.digitChar ((x >>> (8 * i)).toNat / 16 % 16), Nat.digitChar ((x >>> (8 * i)).toNat % 16)])

/-- A column that is left out if the field is zero. -/
def numberColumn {n : ℕ} (column : MatchColumn) (x : BitVec n) : FlowRow (List Char) :=
  if x ≠ 0 then [(.ofMatch column, decimal x.toInt)] else []

/-- `StaticFlowEntries.flowModToStorageEntry`, with the text of the actions. -/
def flowModToStorageEntry (m : OFMatch) (priority : BitVec 16) (actions : Option (List Char))
    (sw name : List Char) : FlowRow (List Char) :=
  [(.name, name), (.switchId, sw), (.active, "true".toList),
    (.priority, decimal priority.toInt), (.wildcards, decimal m.wildcards.toInt)] ++
  (actions.map fun text => (FlowColumn.actions, text)).toList ++
  numberColumn .inPort m.inputPort ++
  (if m.dataLayerSource ≠ 0 then
    [(.ofMatch .dlSrc, toHexString 6 m.dataLayerSource)] else []) ++
  (if m.dataLayerDestination ≠ 0 then
    [(.ofMatch .dlDst, toHexString 6 m.dataLayerDestination)] else []) ++
  (if m.dataLayerVirtualLan ≠ 0xffff then
    [(.ofMatch .dlVlan, decimal m.dataLayerVirtualLan.toInt)] else []) ++
  numberColumn .dlVlanPcp m.dataLayerVirtualLanPriorityCodePoint ++
  numberColumn .dlType m.dataLayerType ++
  numberColumn .nwTos m.getNetworkTypeOfService ++
  numberColumn .nwProto m.networkProtocol ++
  (if m.networkSource ≠ 0 then
    [(.ofMatch .nwSrc, fromIPv4Address m.networkSource)] else []) ++
  (if m.networkDestination ≠ 0 then
    [(.ofMatch .nwDst, fromIPv4Address m.networkDestination)] else []) ++
  numberColumn .tpSrc m.transportSource ++
  numberColumn .tpDst m.transportDestination

/-! ### Flows -/

/-- A switch of a route in one of the directions, with the first switch of the
route. -/
structure VipHop where
  inBound : Bool
  first : SwitchId
  hop : Hop
deriving DecidableEq

def vipText : Option (List Char) → List Char
  | some vipId => vipId
  | none => "null".toList

def entryName (vipId : Option (List Char)) (client : IPClient) (h : VipHop) : List Char :=
  (if h.inBound then "inbound-vip-".toList else "outbound-vip-".toList) ++ vipText vipId ++
    "-client-".toList ++ decimal client.ipAddress.toInt ++
    "-port-".toList ++ decimal client.targetPort.toInt ++
    "-srcswitch-".toList ++ decimal h.first.toInt ++
    "-sw-".toList ++ decimal h.hop.switchDPID.toInt

/-- The parts of `matchString`: the client is the source of packets to the VIP and the
destination of packets from it. -/
def matchFields (client : IPClient) (h : VipHop) : List (MatchColumn × List Char) :=
  [(if h.inBound then .nwSrc else .nwDst, fromIPv4Address client.ipAddress),
    (.nwProto, decimal client.nwProto.toInt),
    (if h.inBound then .tpSrc else .tpDst, decimal client.srcPort.toNat),
    (.dlType, "0x800".toList),
    (.inPort, decimal h.hop.inPort.toInt)]

def matchString (client : IPClient) (h : VipHop) : List Char :=
  [','].intercalate ((matchFields client h).map MatchReader.token)

/-- What `fromString` reads from `matchString`. -/
def vipMatch (client : IPClient) (h : VipHop) : OFMatch :=
  if h.inBound then
    { OFMatch.new with
      wildcards := (ofpfwAll &&& ~~~ofpfwNwSrcMask) &&& ~~~ofpfwNwProto &&& ~~~ofpfwTpSrc &&&
        ~~~ofpfwDlType &&& ~~~ofpfwInPort
      networkSource := client.ipAddress
      networkProtocol := client.nwProto
      transportSource := client.srcPort
      dataLayerType := 0x800
      inputPort := h.hop.inPort }
  else
    { OFMatch.new with
      wildcards := (ofpfwAll &&& ~~~ofpfwNwDstMask) &&& ~~~ofpfwNwProto &&& ~~~ofpfwTpDst &&&
        ~~~ofpfwDlType &&& ~~~ofpfwInPort
      networkDestination := client.ipAddress
      networkProtocol := client.nwProto
      transportDestination := client.srcPort
      dataLayerType := 0x800
      inputPort := h.hop.inPort }

theorem toInt_inShort (x : BitVec 8) : MatchReader.inShort (.ok x.toInt) = .ok x.toInt := by
  have hlow := x.le_toInt
  have hhigh := x.toInt_lt
  exact if_pos (by omega)

/-- Whatever the platform reads other texts as, every flow is given its match. -/
theorem fromString_matchString (r : MatchReader) (client : IPClient) (h : VipHop) :
    r.fromString OFMatch.new (matchString client h) = (vipMatch client h, .ok ()) := by
  have hvalue : ∀ f ∈ matchFields client h,
      f.2 ≠ [] ∧ ∀ c ∈ f.2, MatchReader.isValueChar c = true := by
    have hdecimal (x : ℤ) : decimal x ≠ [] ∧ ∀ c ∈ decimal x, MatchReader.isValueChar c = true :=
      ⟨decimal_ne_nil x, fun _ => MatchReader.isValueChar_decimal⟩
    have htype : "0x800".toList.all MatchReader.isValueChar = true := rfl
    simp only [matchFields, forall_mem_cons]
    exact ⟨⟨fromIPv4Address_ne_nil _, fun _ => MatchReader.isValueChar_fromIPv4Address⟩,
      hdecimal _, hdecimal _, ⟨by decide, all_eq_true.mp htype⟩, hdecimal _, nofun⟩
  have hproto : r.number (decimal client.nwProto.toInt) = .ok client.nwProto.toInt := by
    have hlow := client.nwProto.le_toInt
    have hhigh := client.nwProto.toInt_lt
    exact r.number_decimal (by omega)
  have hport : r.digits.valueOf (decimal client.srcPort.toNat) =
      .ok (client.srcPort.toNat : ℤ) := by
    have hlt := client.srcPort.isLt
    exact r.digits.valueOf_decimal (by omega)
  have hin : r.digits.valueOf (decimal h.hop.inPort.toInt) = .ok h.hop.inPort.toInt := by
    have hlow := h.hop.inPort.le_toInt
    have hhigh := h.hop.inPort.toInt_lt
    exact r.digits.valueOf_decimal (by omega)
  have htype : r.number "0x800".toList = .ok 0x800 := r.number_etherType
  refine (r.fromString_tokens _ (cons_ne_nil _ _) hvalue).trans ?_
  have hports : BitVec.ofInt 16 (client.srcPort.toNat : ℤ) = client.srcPort := by
    rw [ofInt_natCast, ofNat_toNat, setWidth_eq]
  unfold vipMatch
  cases h.inBound
  all_goals
    simp only [MatchReader.setColumns, MatchReader.setColumn, Bool.false_eq_true, if_true, if_false,
      r.cidr_fromIPv4Address, hproto, toInt_inShort, hport, htype, hin, Except.map, hports,
      ofInt_toInt]
    rfl

/-- The parts of `actionString`. -/
inductive VipAction
  | setDstIp (address : BitVec 32)
  | setDstMac (macString : Option (BitVec 48))
  | setSrcIp (address : BitVec 32)
  | setSrcMac (proxyMac : BitVec 48)
  | output (port : Port)
deriving DecidableEq

variable (lb : LoadBalancer (List Char))

/-- `actionString`.  Addresses are rewritten at the switch of the packet-in. -/
def vipActions (member : LBMember (List Char)) (pinSwitch : SwitchId) (h : VipHop) :
    Except JavaException (List VipAction) :=
  if h.hop.switchDPID ≠ pinSwitch then .ok [.output h.hop.outPort]
  else if h.inBound then
    .ok [.setDstIp member.address, .setDstMac member.macString, .output h.hop.outPort]
  else
    match member.vipId.bind lb.vips with
    | none => .error .nullPointer
    | some vip => .ok [.setSrcIp vip.address, .setSrcMac vip.proxyMac, .output h.hop.outPort]

/-- `LB_PRIORITY`, as a `short`. -/
def lbPriority : BitVec 16 := 32768

/-- What is handed to `addFlow`. -/
structure VipEntry where
  name : List Char
  switchDPID : SwitchId
  ofMatch : OFMatch
  actions : List VipAction

def vipEntry (vipId : Option (List Char)) (client : IPClient) (h : VipHop)
    (actions : List VipAction) : VipEntry :=
  ⟨entryName vipId client h, h.hop.switchDPID, vipMatch client h, actions⟩

variable (encodeActions : List VipAction → Option (List Char))

/-- `addFlow`: the row of an entry, under its name. -/
def VipEntry.row (entry : VipEntry) : List Char × FlowRow (List Char) :=
  (entry.name, flowModToStorageEntry entry.ofMatch lbPriority (encodeActions entry.actions)
    (toHexString 8 entry.switchDPID) entry.name)

def vipFlow (vipId : Option (List Char)) (client : IPClient) (h : VipHop)
    (actions : List VipAction) : List Char × FlowRow (List Char) :=
  (vipEntry vipId client h actions).row encodeActions

def vipHops (inBound : Bool) (route : Route) : List VipHop :=
  match route.hops with
  | [] => []
  | first :: _ => route.hops.map fun hop => ⟨inBound, first.switchDPID, hop⟩

/-- The loop of `pushStaticVipRoute`, over the hops of all routes: the entries that
are added until an exception ends it. -/
def pushStaticVipRoute (member : LBMember (List Char)) (client : IPClient)
    (pinSwitch : SwitchId) : List VipHop → List VipEntry × Except JavaException Unit
  | [] => ([], .ok ())
  | h :: hs =>
    match vipActions lb member pinSwitch h with
    | .error e => ([], .error e)
    | .ok actions =>
      let (entries, outcome) := pushStaticVipRoute member client pinSwitch hs
      (vipEntry member.vipId client h actions :: entries, outcome)

/-! ### Routes -/

/-- A device of the device manager. -/
structure LBDevice where
  ipv4Addresses : List (BitVec 32)
  macAddress : BitVec 48
  attachmentPoints : List NodePortTuple

/-- What the services of the controller answer at the time. -/
structure LBServices where
  allDevices : List LBDevice
  getL2DomainId : SwitchId → BitVec 64
  getRoute : NodePortTuple → NodePortTuple → Option Route

namespace LBServices

variable (services : LBServices)

def deviceWith (address : BitVec 32) : Option LBDevice :=
  services.allDevices.find? fun d => decide (address ∈ d.ipv4Addresses)

def clusterId (dap : NodePortTuple) : ℤ := (services.getL2DomainId dap.nodeId).toInt

/-- `on_same_island && !on_same_if`: the first attachment point of the
destination in the domain of the switch decides. -/
def onIsland (sw : SwitchId) (inPort : Port) (dst : LBDevice) : Bool :=
  match dst.attachmentPoints.find? fun dap =>
      decide (services.getL2DomainId dap.nodeId = services.getL2DomainId sw) with
  | none => false
  | some dap => decide (dap ≠ ⟨sw, inPort⟩)

/-- The attachment points in the order of `clusterIdComparator`. -/
def sortedDaps (d : LBDevice) : List NodePortTuple :=
  d.attachmentPoints.insertionSort fun a b => services.clusterId a ≤ services.clusterId b

/-- The loop over the attachment points: the pairs in one domain. -/
def dapPairs : List NodePortTuple → List NodePortTuple → List (NodePortTuple × NodePortTuple)
  | srcDap :: srcDaps, dstDap :: dstDaps =>
    if services.clusterId srcDap = services.clusterId dstDap then
      (srcDap, dstDap) :: dapPairs srcDaps dstDaps
    else if services.clusterId srcDap < services.clusterId dstDap then
      dapPairs srcDaps (dstDap :: dstDaps)
    else dapPairs (srcDap :: srcDaps) dstDaps
  | _, _ => []
termination_by srcDaps dstDaps => srcDaps.length + dstDaps.length

/-- The hops of the routes between two attachment points. -/
def hopsBetween (daps : NodePortTuple × NodePortTuple) : List VipHop :=
  if daps.1 = daps.2 then []
  else
    (services.getRoute daps.1 daps.2).elim [] (vipHops true) ++
      (services.getRoute daps.2 daps.1).elim [] (vipHops false)

/-- The hops of all routes between two devices. -/
def hopsOfDevices (src dst : LBDevice) : List VipHop :=
  (services.dapPairs (services.sortedDaps src) (services.sortedDaps dst)).flatMap
    services.hopsBetween

end LBServices

/-! ### Packets -/

/-- `pickMember`: the pool, which remembers the index, and the member that is
next.  The index is an `int`: behind the largest one comes the smallest, and its
remainder is no index of a list. -/
def LBPool.pickMember (pool : LBPool (List Char)) :
    LBPool (List Char) × Except JavaException (Option (List Char)) :=
  if pool.members = [] then (pool, .ok none)
  else
    let index := ((pool.previousMemberIndex + 1).bmod (2 ^ 32)).tmod pool.members.length
    ({ pool with previousMemberIndex := index },
      if index < 0 then .error .indexOutOfBounds else .ok pool.members[index.toNat]?)

def LBMember.located (member : LBMember (List Char)) (dst : LBDevice) : LBMember (List Char) :=
  { member with macString := some dst.macAddress }

def LoadBalancer.setMember (memberId : List Char) (member : LBMember (List Char)) :
    LoadBalancer (List Char) :=
  { lb with members := Function.update lb.members memberId (some member) }

/-- What a call leaves: the maps, the rows it added in their order, and its
result. -/
structure VipHandling (α : Type) where
  balancer : LoadBalancer (List Char)
  rows : List (List Char × FlowRow (List Char))
  outcome : Except JavaException α

/-- A packet-in that carries an IPv4 packet, with the state it meets. -/
structure VipPacketIn where
  services : LBServices
  balancer : LoadBalancer (List Char)
  sw : SwitchId
  inPort : Port
  packet : ClientPacket

namespace VipPacketIn

variable (x : VipPacketIn)

/-- The choice of a member: the maps after it, and the id. -/
def choice (vipId : List Char) :
    LoadBalancer (List Char) × Except JavaException (Option (List Char)) :=
  match x.balancer.vips vipId with
  | none => (x.balancer, .error .nullPointer)
  | some vip =>
    match vip.pools.head? with
    | none => (x.balancer, .error .nullPointer)
    | some poolId =>
      match x.balancer.pools poolId with
      | none => (x.balancer, .error .nullPointer)
      | some pool =>
        let (pool, memberId) := pool.pickMember
        ({ x.balancer with
          pools := Function.update x.balancer.pools poolId (some pool) }, memberId)

/-- `pushBidirectionalVipRoutes` for a member that is in the map. -/
def pushMemberRoutes (lb : LoadBalancer (List Char)) (memberId : List Char)
    (member : LBMember (List Char)) : VipHandling Unit :=
  match x.services.deviceWith member.address with
  | none => ⟨lb, [], .ok ()⟩
  | some dst =>
    let member := member.located dst
    let lb := lb.setMember memberId member
    match x.services.deviceWith x.packet.client.ipAddress with
    | none => ⟨lb, [], .ok ()⟩
    | some src =>
      if x.services.onIsland x.sw x.inPort dst then
        let (entries, outcome) := pushStaticVipRoute lb member x.packet.client x.sw
          (x.services.hopsOfDevices src dst)
        ⟨lb, entries.map (·.row encodeActions), outcome⟩
      else ⟨lb, [], .ok ()⟩

/-- `pushBidirectionalVipRoutes`.  Without a member the first address of a device
is compared with nothing. -/
def pushBidirectionalVipRoutes (lb : LoadBalancer (List Char)) (memberId : Option (List Char)) :
    VipHandling Unit :=
  match memberId.bind fun id => (lb.members id).map fun member => (id, member) with
  | some (id, member) => x.pushMemberRoutes encodeActions lb id member
  | none =>
    if x.services.allDevices.any fun d => !d.ipv4Addresses.isEmpty then
      ⟨lb, [], .error .nullPointer⟩
    else ⟨lb, [], .ok ()⟩

def processPacketIn : VipHandling Command :=
  match x.balancer.vipIpToId x.packet.destinationAddress with
  | none => ⟨x.balancer, [], .ok .continue⟩
  | some vipId =>
    match x.choice vipId with
    | (lb, .error e) => ⟨lb, [], .error e⟩
    | (lb, .ok memberId) =>
      let pushed := x.pushBidirectionalVipRoutes encodeActions lb memberId
      ⟨pushed.balancer, pushed.rows, pushed.outcome.map fun _ => .stop⟩

/-- A packet asks for a flow: it is for a VIP, a member is chosen, the devices
are known and on the island, and the hop is on one of their routes.  The address of
the VIP is needed at the switch of the packet-in, on the way from the member; if
it is not known there, that hop and those behind it are left out. -/
def Asks (vipId : Option (List Char)) (h : VipHop) : Prop :=
  ∃ vip lb id member src dst before after,
    x.balancer.vipIpToId x.packet.destinationAddress = some vip ∧
    x.choice vip = (lb, .ok (some id)) ∧ lb.members id = some member ∧ member.vipId = vipId ∧
    x.services.deviceWith member.address = some dst ∧
    x.services.deviceWith x.packet.client.ipAddress = some src ∧
    x.services.onIsland x.sw x.inPort dst = true ∧
    x.services.hopsOfDevices src dst = before ++ h :: after ∧
    ∀ g ∈ before ++ [h],
      (vipId.bind lb.vips).isSome ∨ g.inBound = true ∨ g.hop.switchDPID ≠ x.sw

end VipPacketIn

/-! ### Rows that are added -/

section Rows

variable {lb : LoadBalancer (List Char)} {encodeActions : List VipAction → Option (List Char)}

variable {member : LBMember (List Char)}

theorem exists_vipActions_iff {pinSwitch : SwitchId} {h : VipHop} :
    (∃ actions, vipActions lb member pinSwitch h = .ok actions) ↔
      (member.vipId.bind lb.vips).isSome ∨ h.inBound = true ∨ h.hop.switchDPID ≠ pinSwitch := by
  unfold vipActions
  by_cases hsw : h.hop.switchDPID = pinSwitch
  · rw [if_neg (not_not_intro hsw)]
    cases hin : h.inBound with
    | true => simp
    | false =>
      cases hvip : member.vipId.bind lb.vips with
      | none => simp [hsw]
      | some vip => simp
  · rw [if_pos hsw]
    simp [hsw]

theorem mem_pushStaticVipRoute_iff {client : IPClient} {pinSwitch : SwitchId} {hops : List VipHop}
    {entry : VipEntry} :
    entry ∈ (pushStaticVipRoute lb member client pinSwitch hops).1 ↔
      ∃ before h after actions, hops = before ++ h :: after ∧
        (∀ g ∈ before, ∃ actions, vipActions lb member pinSwitch g = .ok actions) ∧
        vipActions lb member pinSwitch h = .ok actions ∧
        entry = vipEntry member.vipId client h actions := by
  induction hops with
  | nil => simp [pushStaticVipRoute]
  | cons g hops ih =>
    unfold pushStaticVipRoute
    cases hactions : vipActions lb member pinSwitch g with
    | error e =>
      refine iff_of_false not_mem_nil ?_
      rintro ⟨before, h, after, actions, hhops, hbefore, hh, -⟩
      cases before with
      | nil =>
        cases hhops
        rw [hactions] at hh
        cases hh
      | cons b before =>
        cases hhops
        obtain ⟨actions, hb⟩ := hbefore g mem_cons_self
        rw [hactions] at hb
        cases hb
    | ok actions =>
      refine mem_cons.trans ((or_congr_right ih).trans ?_)
      constructor
      · rintro (rfl | ⟨before, h, after, actions', rfl, hbefore, hh, rfl⟩)
        · exact ⟨[], g, hops, actions, rfl, by simp, hactions, rfl⟩
        · refine ⟨g :: before, h, after, actions', rfl, ?_, hh, rfl⟩
          exact forall_mem_cons.mpr ⟨⟨actions, hactions⟩, hbefore⟩
      · rintro ⟨before, h, after, actions', hhops, hbefore, hh, rfl⟩
        cases before with
        | nil =>
          cases hhops
          rw [hactions] at hh
          cases hh
          exact Or.inl rfl
        | cons b before =>
          cases hhops
          exact Or.inr ⟨before, h, after, actions', rfl,
            (forall_mem_cons.mp hbefore).2, hh, rfl⟩

variable {x : VipPacketIn} {row : List Char × FlowRow (List Char)}

theorem mem_pushMemberRoutes_iff {id : List Char} :
    row ∈ (x.pushMemberRoutes encodeActions lb id member).rows ↔
      ∃ src dst,
        x.services.deviceWith member.address = some dst ∧
        x.services.deviceWith x.packet.client.ipAddress = some src ∧
        x.services.onIsland x.sw x.inPort dst = true ∧
        ∃ entry ∈ (pushStaticVipRoute (lb.setMember id (member.located dst))
          (member.located dst) x.packet.client x.sw (x.services.hopsOfDevices src dst)).1,
          entry.row encodeActions = row := by
  unfold VipPacketIn.pushMemberRoutes
  cases hdst : x.services.deviceWith member.address with
  | none => simp
  | some dst =>
    cases hsrc : x.services.deviceWith x.packet.client.ipAddress with
    | none => simp
    | some src =>
      cases hisland : x.services.onIsland x.sw x.inPort dst <;> simp [hisland]

theorem mem_pushBidirectionalVipRoutes_iff {memberId : Option (List Char)} :
    row ∈ (x.pushBidirectionalVipRoutes encodeActions lb memberId).rows ↔
      ∃ id member, memberId = some id ∧ lb.members id = some member ∧
        row ∈ (x.pushMemberRoutes encodeActions lb id member).rows := by
  unfold VipPacketIn.pushBidirectionalVipRoutes
  cases memberId with
  | none =>
    split_ifs <;> simp
  | some id =>
    cases hmember : lb.members id with
    | none =>
      dsimp only [Option.bind_some]
      rw [hmember, Option.map_none]
      split_ifs <;> simp [hmember]
    | some member => simp [hmember]

theorem mem_processPacketIn_iff :
    row ∈ (x.processPacketIn encodeActions).rows ↔
      ∃ vip lb memberId,
        x.balancer.vipIpToId x.packet.destinationAddress = some vip ∧
        x.choice vip = (lb, .ok memberId) ∧
        row ∈ (x.pushBidirectionalVipRoutes encodeActions lb memberId).rows := by
  unfold VipPacketIn.processPacketIn
  cases hvip : x.balancer.vipIpToId x.packet.destinationAddress with
  | none => simp
  | some vip =>
    rcases hchoice : x.choice vip with ⟨lb, e | memberId⟩ <;> simp [hchoice]

theorem exists_asks_of_mem (hrow : row ∈ (x.processPacketIn encodeActions).rows) :
    ∃ vipId h actions, x.Asks vipId h ∧
      row = vipFlow encodeActions vipId x.packet.client h actions := by
  obtain ⟨vip, lb, memberId, hvip, hchoice, hrow⟩ := mem_processPacketIn_iff.mp hrow
  obtain ⟨id, member, rfl, hmember, hrow⟩ := mem_pushBidirectionalVipRoutes_iff.mp hrow
  obtain ⟨src, dst, hdst, hsrc, hisland, entry, hentry, rfl⟩ := mem_pushMemberRoutes_iff.mp hrow
  obtain ⟨before, h, after, actions, hhops, hbefore, hh, rfl⟩ :=
    mem_pushStaticVipRoute_iff.mp hentry
  refine ⟨member.vipId, h, actions, ⟨vip, lb, id, member, src, dst, before, after, hvip, hchoice,
    hmember, rfl, hdst, hsrc, hisland, hhops, fun g hg => ?_⟩, rfl⟩
  rcases mem_append.mp hg with hg | hg
  · have hknown := exists_vipActions_iff.mp (hbefore g hg)
    exact hknown
  · cases mem_singleton.mp hg
    have hknown := exists_vipActions_iff.mp ⟨actions, hh⟩
    exact hknown

theorem exists_mem_of_asks (encodeActions : List VipAction → Option (List Char))
    {vipId : Option (List Char)} {h : VipHop} (hasks : x.Asks vipId h) :
    ∃ actions, vipFlow encodeActions vipId x.packet.client h actions ∈
      (x.processPacketIn encodeActions).rows := by
  obtain ⟨vip, lb, id, member, src, dst, before, after, hvip, hchoice, hmember, rfl, hdst, hsrc,
    hisland, hhops, hknown⟩ := hasks
  have hactions (g) (hg : g ∈ before ++ [h]) : ∃ actions,
      vipActions (lb.setMember id (member.located dst)) (member.located dst) x.sw g =
        .ok actions :=
    exists_vipActions_iff.mpr (hknown g hg)
  obtain ⟨actions, hh⟩ := hactions h (by simp)
  refine ⟨actions, mem_processPacketIn_iff.mpr ⟨vip, lb, some id, hvip, hchoice, ?_⟩⟩
  refine mem_pushBidirectionalVipRoutes_iff.mpr ⟨id, member, rfl, hmember, ?_⟩
  refine mem_pushMemberRoutes_iff.mpr ⟨src, dst, hdst, hsrc, hisland, _, ?_, rfl⟩
  exact mem_pushStaticVipRoute_iff.mpr
    ⟨before, h, after, actions, hhops, fun g hg => hactions g (by simp [hg]), hh, rfl⟩

end Rows

/-! ### Names -/

/-- Flows have one name exactly if the direction, the VIP, the address of the
client, the target port and both switches are the same. -/
theorem entryName_eq_iff {vipId vipId' : Option (List Char)} {client client' : IPClient}
    {h h' : VipHop} :
    entryName vipId client h = entryName vipId' client' h' ↔
      h.inBound = h'.inBound ∧ vipText vipId = vipText vipId' ∧
        client.ipAddress = client'.ipAddress ∧ client.targetPort = client'.targetPort ∧
        h.first = h'.first ∧ h.hop.switchDPID = h'.hop.switchDPID := by
  constructor
  · intro heq
    -- the numbers are read from the end
    have hw : "-sw-".toList = "-s".toList ++ ['w', '-'] := rfl
    have hswitch : "-srcswitch-".toList = "-srcswitc".toList ++ ['h', '-'] := rfl
    have hport : "-port-".toList = "-por".toList ++ ['t', '-'] := rfl
    have hclient : "-client-".toList = "-clien".toList ++ ['t', '-'] := rfl
    obtain ⟨heq, hsw⟩ := append_label_inj hw (by decide) heq
    obtain ⟨heq, hfirst⟩ := append_label_inj hswitch (by decide) heq
    obtain ⟨heq, htarget⟩ := append_label_inj hport (by decide) heq
    obtain ⟨heq, hip⟩ := append_label_inj hclient (by decide) heq
    have hin : h.inBound = h'.inBound ∧ vipText vipId = vipText vipId' := by
      cases hb : h.inBound <;> cases hb' : h'.inBound <;> rw [hb, hb'] at heq
      · exact ⟨rfl, append_cancel_left heq⟩
      · have hhead : some 'o' = some 'i' := congrArg List.head? heq
        exact absurd hhead (by decide)
      · have hhead : some 'i' = some 'o' := congrArg List.head? heq
        exact absurd hhead (by decide)
      · exact ⟨rfl, append_cancel_left heq⟩
    exact ⟨hin.1, hin.2, eq_of_toInt_eq hip, eq_of_toInt_eq htarget,
      eq_of_toInt_eq hfirst, eq_of_toInt_eq hsw⟩
  · rintro ⟨hin, hvip, hip, hport, hfirst, hsw⟩
    unfold entryName
    rw [hin, hvip, hip, hport, hfirst, hsw]

/-! ### Columns -/

def columnOf (column : MatchColumn) (row : FlowRow (List Char)) : FlowRow (List Char) :=
  row.filter fun entry => decide (entry.1 = .ofMatch column)

theorem columnOf_append (column : MatchColumn) (row row' : FlowRow (List Char)) :
    columnOf column (row ++ row') = columnOf column row ++ columnOf column row' :=
  filter_append _ _

theorem columnOf_numberColumn {n : ℕ} (column column' : MatchColumn) (x : BitVec n) :
    columnOf column (numberColumn column' x) =
      if column' = column then numberColumn column' x else [] := by
  unfold columnOf numberColumn
  by_cases hx : x = 0 <;> by_cases hcolumn : column' = column <;> simp [hx, hcolumn]

theorem numberColumn_injective {n : ℕ} {column : MatchColumn} {x y : BitVec n}
    (h : numberColumn column x = numberColumn column y) : x = y := by
  unfold numberColumn at h
  by_cases hx : x = 0
  · by_cases hy : y = 0
    · rw [hx, hy]
    · simp only [hx, ne_eq, not_true_eq_false, if_false, hy, not_false_eq_true, if_true] at h
      cases h
  · by_cases hy : y = 0
    · simp only [hx, ne_eq, not_false_eq_true, if_true, hy, not_true_eq_false, if_false] at h
      cases h
    · simp only [hx, hy, ne_eq, not_false_eq_true, if_true, List.cons.injEq, Prod.mk.injEq,
        true_and, and_true] at h
      exact eq_of_toInt_eq (decimal_injective h)

theorem columnOf_flowModToStorageEntry (m : OFMatch) (priority : BitVec 16)
    (actions : Option (List Char)) (sw name : List Char) :
    columnOf .nwProto (flowModToStorageEntry m priority actions sw name) =
        numberColumn .nwProto m.networkProtocol ∧
      columnOf .tpSrc (flowModToStorageEntry m priority actions sw name) =
        numberColumn .tpSrc m.transportSource ∧
      columnOf .tpDst (flowModToStorageEntry m priority actions sw name) =
        numberColumn .tpDst m.transportDestination := by
  unfold flowModToStorageEntry
  simp only [columnOf_append, columnOf_numberColumn]
  refine ⟨?_, ?_, ?_⟩ <;> cases actions <;> simp [columnOf, apply_ite (List.filter _)]

/-- Rows of different clients under one name differ, in the column of the protocol
or in that of the port of the client. -/
theorem vipFlow_ne {encodeActions : List VipAction → Option (List Char)}
    {vipId vipId' : Option (List Char)} {client client' : IPClient} {h h' : VipHop}
    {actions actions' : List VipAction} (hne : client ≠ client')
    (hname : entryName vipId client h = entryName vipId' client' h') :
    (vipFlow encodeActions vipId client h actions).2 ≠
      (vipFlow encodeActions vipId' client' h' actions').2 := by
  intro hrow
  obtain ⟨hin, -, hip, htarget, -, -⟩ := entryName_eq_iff.mp hname
  have hcolumns (column) := congrArg (columnOf column) hrow
  obtain ⟨hproto, hsrc, hdst⟩ := columnOf_flowModToStorageEntry (vipMatch client h) lbPriority
    (encodeActions actions) (toHexString 8 h.hop.switchDPID) (entryName vipId client h)
  obtain ⟨hproto', hsrc', hdst'⟩ := columnOf_flowModToStorageEntry (vipMatch client' h')
    lbPriority (encodeActions actions') (toHexString 8 h'.hop.switchDPID)
    (entryName vipId' client' h')
  have hprotocol := numberColumn_injective (hproto.symm.trans ((hcolumns .nwProto).trans hproto'))
  have hsource := numberColumn_injective (hsrc.symm.trans ((hcolumns .tpSrc).trans hsrc'))
  have hdestination := numberColumn_injective (hdst.symm.trans ((hcolumns .tpDst).trans hdst'))
  apply hne
  unfold vipMatch at hprotocol hsource hdestination
  rw [← hin] at hprotocol hsource hdestination
  obtain ⟨ip, proto, srcPort, target⟩ := client
  obtain ⟨ip', proto', srcPort', target'⟩ := client'
  cases hb : h.inBound <;> simp_all

/-! ### Storage -/

/-- `insertRow`, for the rows in their order. -/
def insertRows (storage : FlowStorage (List Char)) (rows : List (List Char × FlowRow (List Char))) :
    FlowStorage (List Char) :=
  rows.foldl (fun storage row => Function.update storage row.1 (some row.2)) storage

theorem insertRows_of_not_mem {rows : List (List Char × FlowRow (List Char))} {name : List Char}
    (h : ∀ row ∈ rows, row.1 ≠ name) (storage : FlowStorage (List Char)) :
    insertRows storage rows name = storage name := by
  induction rows generalizing storage with
  | nil => rfl
  | cons row rows ih =>
    obtain ⟨hrow, hrows⟩ := forall_mem_cons.mp h
    exact (ih hrows _).trans (Function.update_of_ne (Ne.symm hrow) _ _)

theorem exists_insertRows {rows : List (List Char × FlowRow (List Char))} {name : List Char}
    (h : ∃ row ∈ rows, row.1 = name) (storage : FlowStorage (List Char)) :
    ∃ row ∈ rows, row.1 = name ∧ insertRows storage rows name = some row.2 := by
  induction rows generalizing storage with
  | nil =>
    obtain ⟨row, hrow, -⟩ := h
    cases hrow
  | cons row rows ih =>
    by_cases hlater : ∃ row ∈ rows, row.1 = name
    · obtain ⟨row', hrow', hname, hstored⟩ := ih hlater _
      exact ⟨row', mem_cons_of_mem _ hrow', hname, hstored⟩
    · -- the row is not replaced
      obtain ⟨row', hrow', hname⟩ := h
      rcases mem_cons.mp hrow' with rfl | hrow'
      · refine ⟨row', mem_cons_self, hname, ?_⟩
        have hkept := insertRows_of_not_mem (fun r hr heq => hlater ⟨r, hr, heq⟩)
          (Function.update storage row'.1 (some row'.2))
        exact hkept.trans (by rw [← hname, Function.update_self])
      · exact absurd ⟨row', hrow', hname⟩ hlater

/-! ### Two connections -/

/-- The flows of a packet are left alone by another: what is stored under their
names is the same after it. -/
def Undisturbed (encodeActions : List VipAction → Option (List Char)) (x y : VipPacketIn)
    (storage : FlowStorage (List Char)) : Prop :=
  let stored := insertRows storage (x.processPacketIn encodeActions).rows
  ∀ row ∈ (x.processPacketIn encodeActions).rows,
    insertRows stored (y.processPacketIn encodeActions).rows row.1 = stored row.1

/-- Two packets come from one address for one port, and ask for flows of one
VIP in one direction along routes with the same first switch, for one switch. -/
def AskForOne (x y : VipPacketIn) : Prop :=
  x.packet.client.ipAddress = y.packet.client.ipAddress ∧
    x.packet.client.targetPort = y.packet.client.targetPort ∧
    ∃ vipId vipId' h h', x.Asks vipId h ∧ y.Asks vipId' h' ∧ vipText vipId = vipText vipId' ∧
      h.inBound = h'.inBound ∧ h.first = h'.first ∧ h.hop.switchDPID = h'.hop.switchDPID

theorem not_undisturbed_of_askForOne {encodeActions : List VipAction → Option (List Char)}
    {x y : VipPacketIn} {storage : FlowStorage (List Char)}
    (hne : x.packet.client ≠ y.packet.client) (hone : AskForOne x y) :
    ¬ Undisturbed encodeActions x y storage := by
  intro hkept
  obtain ⟨hip, htarget, vipId, vipId', h, h', hx, hy, hvip, hin, hfirst, hsw⟩ := hone
  have hname : entryName vipId x.packet.client h = entryName vipId' y.packet.client h' :=
    entryName_eq_iff.mpr ⟨hin, hvip, hip, htarget, hfirst, hsw⟩
  obtain ⟨actions, hmem⟩ := exists_mem_of_asks encodeActions hx
  obtain ⟨actions', hmem'⟩ := exists_mem_of_asks encodeActions hy
  have hsame := hkept _ hmem
  obtain ⟨row, hrow, hrowName, hstored⟩ := exists_insertRows ⟨_, hmem, rfl⟩ storage
  obtain ⟨row', hrow', hrowName', hstored'⟩ :=
    exists_insertRows ⟨_, hmem', hname.symm⟩
      (insertRows storage (x.processPacketIn encodeActions).rows)
  have hrows : row'.2 = row.2 :=
    Option.some.inj (hstored'.symm.trans (hsame.trans hstored))
  obtain ⟨_, _, _, -, rfl⟩ := exists_asks_of_mem hrow
  obtain ⟨_, _, _, -, rfl⟩ := exists_asks_of_mem hrow'
  exact vipFlow_ne hne (hrowName.trans hrowName'.symm) hrows.symm

/-- **Connections do not disturb each other** exactly if they do not ask for a flow
for one switch from one address, for one port of one VIP, in one direction and
along routes with the same first switch. -/
theorem rows_undisturbed_iff (encodeActions : List VipAction → Option (List Char))
    (x y : VipPacketIn) (storage : FlowStorage (List Char))
    (hne : x.packet.client ≠ y.packet.client) :
    Undisturbed encodeActions x y storage ↔ ¬ AskForOne x y := by
  constructor
  · exact fun hkept hone => not_undisturbed_of_askForOne hne hone hkept
  · intro hnot row hrow
    refine insertRows_of_not_mem (fun row' hrow' hname => hnot ?_) _
    obtain ⟨vipId, h, _, hx, rfl⟩ := exists_asks_of_mem hrow
    obtain ⟨vipId', h', _, hy, rfl⟩ := exists_asks_of_mem hrow'
    obtain ⟨hin, hvip, hip, htarget, hfirst, hsw⟩ := entryName_eq_iff.mp hname.symm
    exact ⟨hip, htarget, vipId, vipId', h, h', hx, hy, hvip, hin, hfirst, hsw⟩

/-! ### A VIP with one member -/

def siteBalancer : LoadBalancer (List Char) :=
  ((LoadBalancer.init.createVip ⟨['v'], 0x0a000064, 0x123456789012, []⟩).createPool
    ⟨['p'], [], some ['v'], -1⟩).createMember ⟨['m'], 0x0a000002, some ['p'], none, none⟩

def siteRoute (inPort outPort : Port) : Route :=
  ⟨[⟨1, inPort, outPort⟩], List.nodup_singleton _⟩

def siteServices : LBServices where
  allDevices := [⟨[0x0a000001], 0xa, [⟨1, 1⟩]⟩, ⟨[0x0a000002], 0xb, [⟨1, 2⟩]⟩]
  getL2DomainId _ := 1
  getRoute src dst := some (siteRoute src.portId dst.portId)

def sitePacketIn (srcPort targetPort : BitVec 16) : VipPacketIn :=
  ⟨siteServices, siteBalancer, 1, 1, ⟨0x0a000001, 0x0a000064, 6, .tcp srcPort targetPort⟩⟩

theorem sitePacketIn_asks (srcPort targetPort : BitVec 16) :
    (sitePacketIn srcPort targetPort).Asks (some ['v']) ⟨true, 1, ⟨1, 1, 2⟩⟩ := by
  refine ⟨['v'], _, ['m'], _, _, _, [], [⟨false, 1, ⟨1, 2, 1⟩⟩], rfl, rfl, rfl, rfl, rfl, rfl, rfl,
    ?_, ?_⟩
  · unfold LBServices.hopsOfDevices
    have hpairs : siteServices.dapPairs [⟨1, 1⟩] [⟨1, 2⟩] = [(⟨1, 1⟩, ⟨1, 2⟩)] := by
      simp [LBServices.dapPairs, LBServices.clusterId, siteServices]
    exact (congrArg (List.flatMap siteServices.hopsBetween) hpairs).trans rfl
  · intro g hg
    cases mem_singleton.mp hg
    exact Or.inr (Or.inl rfl)

theorem rows_undisturbed_ports :
    (sitePacketIn 40000 80).packet.client ≠ (sitePacketIn 40001 443).packet.client ∧
      (∃ vipId h, (sitePacketIn 40000 80).Asks vipId h) ∧
      Undisturbed (fun _ => none) (sitePacketIn 40000 80) (sitePacketIn 40001 443)
        (fun _ => none) := by
  have hne : (sitePacketIn 40000 80).packet.client ≠ (sitePacketIn 40001 443).packet.client := by
    decide
  refine ⟨hne, ⟨_, _, sitePacketIn_asks 40000 80⟩, ?_⟩
  refine (rows_undisturbed_iff _ _ _ _ hne).mpr ?_
  rintro ⟨-, htarget, -⟩
  exact absurd htarget (by decide)

/-- A second connection of the client takes the flows of the first. -/
theorem rows_replaced :
    (sitePacketIn 40000 80).packet.client ≠ (sitePacketIn 40001 80).packet.client ∧
      ¬ Undisturbed (fun _ => none) (sitePacketIn 40000 80) (sitePacketIn 40001 80)
        (fun _ => none) := by
  have hne : (sitePacketIn 40000 80).packet.client ≠ (sitePacketIn 40001 80).packet.client := by
    decide
  refine ⟨hne, not_undisturbed_of_askForOne hne ⟨rfl, rfl, _, _, _, _,
    sitePacketIn_asks 40000 80, sitePacketIn_asks 40001 80, rfl, rfl, rfl, rfl⟩⟩

/-! ### Round robin -/

section RoundRobin

variable (encodeActions : List VipAction → Option (List Char)) (poolId : List Char)

/-- The choices that are made in a pool for packets that arrive one after the other. -/
def choices : LoadBalancer (List Char) → List VipPacketIn →
    List (Except JavaException (Option (List Char)))
  | _, [] => []
  | lb, x :: xs =>
    let x := { x with balancer := lb }
    let rest := choices (x.processPacketIn encodeActions).balancer xs
    match lb.vipIpToId x.packet.destinationAddress with
    | none => rest
    | some vipId =>
      if (lb.vips vipId).bind (·.pools.head?) = some poolId then (x.choice vipId).2 :: rest
      else rest

variable {encodeActions poolId} {x : VipPacketIn} {lb : LoadBalancer (List Char)}
  {pool : LBPool (List Char)} {vipId : List Char}

theorem pools_pushBidirectionalVipRoutes (memberId : Option (List Char)) :
    (x.pushBidirectionalVipRoutes encodeActions lb memberId).balancer.pools = lb.pools := by
  unfold VipPacketIn.pushBidirectionalVipRoutes VipPacketIn.pushMemberRoutes
  repeat' split
  all_goals rfl

theorem pools_processPacketIn (encodeActions : List VipAction → Option (List Char))
    (hvip : x.balancer.vipIpToId x.packet.destinationAddress = some vipId) :
    (x.processPacketIn encodeActions).balancer.pools = (x.choice vipId).1.pools := by
  unfold VipPacketIn.processPacketIn
  simp only [hvip]
  cases x.choice vipId with
  | mk lb picked =>
    cases picked with
    | error => rfl
    | ok memberId => exact pools_pushBidirectionalVipRoutes memberId

theorem choice_of_pool (hpool : x.balancer.pools poolId = some pool)
    (hvip : (x.balancer.vips vipId).bind (·.pools.head?) = some poolId) :
    (x.choice vipId).2 = pool.pickMember.2 ∧
      (x.choice vipId).1.pools poolId = some pool.pickMember.1 := by
  obtain ⟨vip, hvip, hhead⟩ := Option.bind_eq_some_iff.mp hvip
  simp [VipPacketIn.choice, hvip, hhead, hpool]

theorem choice_of_other (hvip : (x.balancer.vips vipId).bind (·.pools.head?) ≠ some poolId) :
    (x.choice vipId).1.pools poolId = x.balancer.pools poolId := by
  unfold VipPacketIn.choice
  repeat' split
  all_goals try rfl
  refine Function.update_of_ne ?_ _ _
  rintro rfl
  simp_all

theorem pickMember_eq (hmembers : pool.members ≠ []) {start : ℕ}
    (hstart : pool.previousMemberIndex + 1 = start) (hint : start < 2 ^ 31) :
    pool.pickMember =
      ({ pool with previousMemberIndex := (start % pool.members.length : ℕ) },
        .ok pool.members[start % pool.members.length]?) := by
  unfold LBPool.pickMember
  have hwrap : (start : ℤ).bmod (2 ^ 32) = start := Int.bmod_eq_of_le (by omega) (by omega)
  have hindex : (start : ℤ).tmod pool.members.length = (start % pool.members.length : ℕ) := rfl
  rw [if_neg hmembers, hstart, hwrap, hindex]
  dsimp only
  rw [if_neg (by omega), Int.toNat_natCast]

/-- **Members take turns**: over every run the packets for a pool are given to its members one
after the other, whatever is asked of other pools meanwhile.  The number of members and the
index of the first choice fit in an `int`. -/
theorem members_take_turns (encodeActions : List VipAction → Option (List Char))
    (hpool : lb.pools poolId = some pool) (hmembers : pool.members ≠ [])
    (hlength : pool.members.length < 2 ^ 31) {start : ℕ}
    (hstart : pool.previousMemberIndex + 1 = start) (hint : start < 2 ^ 31)
    (xs : List VipPacketIn) (i : ℕ) :
    ∀ choice ∈ (choices encodeActions poolId lb xs)[i]?,
      choice = .ok pool.members[(start + i) % pool.members.length]? := by
  induction xs generalizing lb pool start i with
  | nil => exact nofun
  | cons x xs ih =>
    unfold choices
    generalize hx : { x with balancer := lb } = y
    have hlb : lb = y.balancer := by rw [← hx]
    rw [hlb] at hpool ⊢
    dsimp only
    split
    · next hvip =>
      refine ih ?_ hmembers hlength hstart hint i
      simpa only [VipPacketIn.processPacketIn, hvip] using hpool
    · next vipId hvip =>
      have hpools := congrFun (pools_processPacketIn encodeActions hvip) poolId
      split
      · next hhere =>
        obtain ⟨hpicked, hnext⟩ := choice_of_pool hpool hhere
        rw [pickMember_eq hmembers hstart hint] at hpicked hnext
        cases i with
        | zero => simp [hpicked]
        | succ i =>
          -- the index that is remembered is one of the list
          have hlt : start % pool.members.length + 1 < 2 ^ 31 := by
            have := Nat.mod_lt start (List.length_pos_iff.mpr hmembers)
            omega
          have hrest := ih (hpools.trans hnext) hmembers hlength rfl hlt i
          rwa [Nat.add_assoc, Nat.mod_add_mod, Nat.add_comm 1] at hrest
      · next hother =>
        have hkept := (hpools.trans (choice_of_other hother)).trans hpool
        exact ih hkept hmembers hlength hstart hint i

/-- The site with two more members; the second one was given the last packet. -/
def turningBalancer : LoadBalancer (List Char) :=
  { siteBalancer with
    pools := Function.update siteBalancer.pools ['p']
      (some ⟨['p'], [['m'], ['n'], ['o']], some ['v'], 1⟩) }

theorem members_take_turns_site :
    let all := choices (fun _ => none) ['p'] turningBalancer
      [sitePacketIn 40000 80, sitePacketIn 40001 80, sitePacketIn 40002 443, sitePacketIn 40003 80]
    all.length = 4 ∧
      ∀ i, ∀ choice ∈ all[i]?, choice = Except.ok [['m'], ['n'], ['o']][(2 + i) % 3]? := by
  have hpool : turningBalancer.pools ['p'] =
      some ⟨['p'], [['m'], ['n'], ['o']], some ['v'], 1⟩ := rfl
  have hstart : (1 : ℤ) + 1 = (2 : ℕ) := rfl
  exact ⟨rfl, members_take_turns _ hpool (cons_ne_nil _ _) (by decide) hstart (by decide) _⟩

end RoundRobin

/-! ### Packets that are rewritten -/

section Rewriting

variable (lb : LoadBalancer (List Char)) (member : LBMember (List Char)) (client : IPClient)
  (pinSwitch : SwitchId)

/-- Packets whose destination is rewritten by one of the entries that are added are for an
address and the target port, and packets whose source is rewritten come from the member. -/
def RewritesOnlyVip (vipAddress : BitVec 32) (hops : List VipHop) : Prop :=
  ∀ entry ∈ (pushStaticVipRoute lb member client pinSwitch hops).1,
    ∀ packet, Matches entry.ofMatch packet →
      (∀ address, .setDstIp address ∈ entry.actions → packet.networkDestination = vipAddress ∧
        packet.transportDestination = client.targetPort) ∧
      ∀ address, .setSrcIp address ∈ entry.actions → packet.networkSource = member.address

theorem addressMatches_of_le {w : BitVec 32} {shift : ℕ}
    (h : 32 ≤ ((w >>> shift) &&& 0x3f).toNat) (a b : BitVec 32) : AddressMatches w shift a b := by
  unfold AddressMatches
  rw [ushiftRight_eq_zero h, ushiftRight_eq_zero h]

theorem matches_self (m : OFMatch) : Matches m m := by
  constructor <;> first | rfl | exact fun _ => rfl

theorem vipMatch_matches (h : VipHop) (address : BitVec 32) :
    Matches (vipMatch client h)
      (if h.inBound then { vipMatch client h with networkDestination := address }
        else { vipMatch client h with networkSource := address }) := by
  obtain ⟨inBound, first, hop⟩ := h
  cases inBound with
  | true =>
    refine { matches_self (vipMatch client ⟨true, first, hop⟩) with
      nwDst := addressMatches_of_le ?_ _ _ }
    simp only [vipMatch, if_true]
    decide
  | false =>
    refine { matches_self (vipMatch client ⟨false, first, hop⟩) with
      nwSrc := addressMatches_of_le ?_ _ _ }
    simp only [vipMatch, Bool.false_eq_true, if_false]
    decide

theorem mem_vipHops_iff {inBound : Bool} {route : Route} {h : VipHop} :
    h ∈ vipHops inBound route ↔
      ∃ hop ∈ route.hops, ⟨inBound, (route.hops.head?.map Hop.switchDPID).getD 0, hop⟩ = h := by
  unfold vipHops
  cases route.hops with
  | nil => simp
  | cons first hops => exact mem_map

variable {lb member client pinSwitch}

/-- Without an exception there is an entry for every hop. -/
theorem exists_vipEntry_mem {hops : List VipHop}
    (hknown : ∀ g ∈ hops, ∃ actions, vipActions lb member pinSwitch g = .ok actions) {h : VipHop}
    (hh : h ∈ hops) : ∃ actions, vipActions lb member pinSwitch h = .ok actions ∧
      vipEntry member.vipId client h actions ∈
        (pushStaticVipRoute lb member client pinSwitch hops).1 := by
  obtain ⟨actions, hactions⟩ := hknown h hh
  obtain ⟨before, after, rfl⟩ := append_of_mem hh
  refine ⟨actions, hactions, mem_pushStaticVipRoute_iff.mpr
    ⟨before, h, after, actions, rfl, fun g hg => hknown g (mem_append_left _ hg), hactions, rfl⟩⟩

/-- An entry that rewrites addresses matches packets for, or from, the next address too. -/
theorem not_rewritesOnlyVip {vipAddress : BitVec 32} {hops : List VipHop}
    (hknown : ∀ g ∈ hops, ∃ actions, vipActions lb member pinSwitch g = .ok actions) {h : VipHop}
    (hh : h ∈ hops) (hsw : h.hop.switchDPID = pinSwitch) :
    ¬ RewritesOnlyVip lb member client pinSwitch vipAddress hops := by
  intro honly
  have hother (a : BitVec 32) : a + 1 ≠ a := by bv_omega
  obtain ⟨actions, hactions, hentry⟩ := exists_vipEntry_mem hknown hh
  unfold vipActions at hactions
  rw [if_neg (not_not_intro hsw)] at hactions
  cases hin : h.inBound with
  | true =>
    rw [hin, if_pos rfl] at hactions
    cases hactions
    have hmatches := vipMatch_matches client h (vipAddress + 1)
    rw [hin, if_pos rfl] at hmatches
    have hpacket := honly _ hentry _ hmatches
    exact hother _ (hpacket.1 _ mem_cons_self).1
  | false =>
    rw [hin, if_neg Bool.false_ne_true] at hactions
    cases hvip : member.vipId.bind lb.vips with
    | none =>
      rw [hvip] at hactions
      cases hactions
    | some vip =>
      rw [hvip] at hactions
      cases hactions
      have hmatches := vipMatch_matches client h (member.address + 1)
      rw [hin, if_neg Bool.false_ne_true] at hmatches
      have hpacket := honly _ hentry _ hmatches
      exact hother _ (hpacket.2 _ mem_cons_self)

variable (lb member client pinSwitch)

/-- **Only traffic of the VIP is rewritten** exactly if nothing is: either the route does not
pass the switch of the packet-in, or it leads from the member and there is no VIP. -/
theorem only_vip_rewritten_iff (vipAddress : BitVec 32) (inBound : Bool) (route : Route) :
    RewritesOnlyVip lb member client pinSwitch vipAddress (vipHops inBound route) ↔
      ∀ hop ∈ route.hops, hop.switchDPID = pinSwitch →
        inBound = false ∧ member.vipId.bind lb.vips = none := by
  constructor
  · intro honly hop hhop hsw
    by_contra hrewrites
    refine not_rewritesOnlyVip ?_ (mem_vipHops_iff.mpr ⟨hop, hhop, rfl⟩) hsw honly
    -- the exception is that of a way back without a VIP
    intro g hg
    obtain ⟨hop', -, rfl⟩ := mem_vipHops_iff.mp hg
    refine exists_vipActions_iff.mpr ?_
    cases inBound with
    | true => exact Or.inr (Or.inl rfl)
    | false => exact Or.inl (Option.isSome_iff_ne_none.mpr fun hvip => hrewrites ⟨rfl, hvip⟩)
  · intro hnone entry hentry packet _
    obtain ⟨before, h, after, actions, hhops, -, hactions, rfl⟩ :=
      mem_pushStaticVipRoute_iff.mp hentry
    have hh : h ∈ vipHops inBound route := hhops ▸ by simp
    obtain ⟨hop, hhop, rfl⟩ := mem_vipHops_iff.mp hh
    unfold vipActions at hactions
    by_cases hsw : hop.switchDPID = pinSwitch
    · obtain ⟨rfl, hvip⟩ := hnone hop hhop hsw
      rw [if_neg (not_not_intro hsw), hvip] at hactions
      cases hactions
    · rw [if_pos hsw] at hactions
      cases hactions
      simp [vipEntry]

end Rewriting

/-- A packet of the client to another host is sent to the member. -/
theorem site_rewrites_other : ¬ RewritesOnlyVip siteBalancer
    ⟨['m'], 0x0a000002, some ['p'], some ['v'], some 0xb⟩ ⟨0x0a000001, 6, 1000, 80⟩ 1 0x0a000064
    (vipHops true (siteRoute 1 2)) := by
  intro h
  have hmatches : Matches (vipMatch ⟨0x0a000001, 6, 1000, 80⟩ ⟨true, 1, 1, 1, 2⟩)
      ⟨0, 1, 0xa, 0xc, 0xffff, 0, 0x800, 0, 6, 0x0a000001, 0x0a000003, 1000, 22⟩ := by
    constructor <;> decide
  have hpacket := (h _ mem_cons_self _ hmatches).1 _ mem_cons_self
  exact absurd hpacket (by decide)

end NctuSdn
