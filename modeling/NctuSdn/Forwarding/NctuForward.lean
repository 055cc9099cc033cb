/-
The redirecting module (`NCTUForward.receive`).

ARP requests that do not mention the redirect target are flooded as they are
and then rewritten to ask for the target.  UDP packets to port 5134 are
redirected at their source switch: the ingress rule there rewrites the
destination addresses, and one rule on each further switch of the route to
the target sends the packet on.
-/
import NctuSdn.OpenFlow.Parse
import NctuSdn.Packet.Ethernet

namespace NctuSdn

open List

/-! ### Messages -/

/-- The actions used here. -/
inductive Action
  | setDataLayerDestination (mac : BitVec 48)
  | setNetworkDestination (ip : BitVec 32)
  | output (port : Port)
deriving DecidableEq, Repr

/-- An `OFFlowMod` that adds an entry. -/
structure FlowEntry where
  ofMatch : OFMatch
  actions : List Action
  cookie : BitVec 64
  priority : BitVec 16
  idleTimeout : BitVec 16
deriving DecidableEq, Repr

/-- The data of a packet and the frame it decodes to. -/
structure Packet where
  bytes : List (BitVec 8)
  eth : Ethernet
deriving DecidableEq, Repr

/-- `OFPacketOut` with one output action. -/
structure PacketOut where
  packetData : Packet
  inPort : Port
  outPort : Port
deriving DecidableEq, Repr

/-- What is written to a switch. -/
inductive SwitchMessage
  | flowMod (entry : FlowEntry)
  | packetOut (po : PacketOut)
  | barrierRequest
deriving DecidableEq, Repr

/-- `OFPacketIn`. -/
structure PacketIn where
  inPort : Port
  packetData : Packet

/-- What becomes of a packet-in in the chain of listeners. -/
inductive Command
  | continue
  | stop
deriving DecidableEq, Repr

/-- `IDevice`: the address and the attachment points. -/
structure Device where
  macAddress : BitVec 48
  attachmentPoints : List NodePortTuple

/-- What `receive` asks the rest of the controller. -/
structure Environment where
  targetIP : BitVec 32
  /-- `queryDevices` for the target address. -/
  queryDevices : List Device
  getRoute : SwitchId → Port → SwitchId → Port → Option Route
  connected : SwitchId → Bool
  serialize : Ethernet → List (BitVec 8)

def Environment.pack (env : Environment) (eth : Ethernet) : Packet := ⟨env.serialize eth, eth⟩

/-- What has been written, with the packet-in that is passed on or the
exception that ended the call. -/
abbrev Outcome := List (SwitchId × SwitchMessage) × Except JavaException (PacketIn × Command)

/-- `OFPort.OFPP_FLOOD`, and the `(short)-5` of `receive`. -/
def ofppFlood : Port := 0xfffb

variable (env : Environment)

/-! ### ARP -/

def opRequest : BitVec 16 := 1

def pushPacket (pin : PacketIn) (outPort : Port) : SwitchMessage :=
  .packetOut ⟨pin.packetData, pin.inPort, outPort⟩

/-- The ARP request for the redirect target that takes the place of another. -/
def askForTarget (targetIP : BitVec 32) (eth : Ethernet) (arp : ARP) : Ethernet :=
  { eth with
    payload := .arp { arp with targetProtocolAddress := targetIP, targetHardwareAddress := 0 } }

def receiveARP (sw : SwitchId) (pin : PacketIn) (arp : ARP) : Outcome :=
  if arp.opCode = opRequest ∧ arp.targetProtocolAddress ≠ env.targetIP ∧
      arp.senderProtocolAddress ≠ env.targetIP then
    ([(sw, pushPacket pin ofppFlood)],
      .ok ({ pin with
        packetData := env.pack (askForTarget env.targetIP pin.packetData.eth arp) }, .continue))
  else ([], .ok (pin, .continue))

/-! ### UDP -/

def protocolUDP : BitVec 8 := 17

/-- The wildcards of the ingress rule. -/
def ingressHints : BitVec 32 :=
  ofpfwAll &&& ~~~ofpfwInPort &&& ~~~ofpfwNwSrcMask &&& ~~~ofpfwNwDstMask &&& ~~~ofpfwTpDst &&&
    ~~~ofpfwNwProto &&& ~~~ofpfwDlType

/-- The wildcards of the rules on the path. -/
def pathHints : BitVec 32 :=
  ofpfwAll &&& ~~~ofpfwInPort &&& ~~~ofpfwNwDstMask &&& ~~~ofpfwTpDst &&& ~~~ofpfwNwProto &&&
    ~~~ofpfwDlType

def ingressEntry (m : OFMatch) (dstMAC : BitVec 48) (dstIP : BitVec 32) (outPort : Port)
    (idleTimeout : BitVec 16) : FlowEntry where
  ofMatch := wildcard m (some ingressHints)
  actions := [.setDataLayerDestination dstMAC, .setNetworkDestination dstIP, .output outPort]
  cookie := 1001
  priority := 1024
  idleTimeout := idleTimeout

def pathEntry (targetIP : BitVec 32) (m : OFMatch) (outPort : Port) (idleTimeout : BitVec 16) :
    FlowEntry where
  ofMatch := wildcard { m with networkDestination := targetIP } (some pathHints)
  actions := [.output outPort]
  cookie := 1002
  priority := 1024
  idleTimeout := idleTimeout

/-- The loop over the path, from its fourth node on and two at a time. -/
def writePath (m : OFMatch) (idleTimeout : BitVec 16) : List NodePortTuple →
    List (SwitchId × SwitchMessage)
  | [] => []
  | [node] => pathMessages node
  | node :: _ :: rest => pathMessages node ++ writePath m idleTimeout rest
where
  pathMessages (node : NodePortTuple) : List (SwitchId × SwitchMessage) :=
    if env.connected node.nodeId then
      [(node.nodeId, .flowMod (pathEntry env.targetIP m node.portId idleTimeout)),
        (node.nodeId, .barrierRequest)]
    else []

/-- The packet-in with the destination rewritten. -/
def redirected (pin : PacketIn) (ipPkt : IPv4) (dstMAC : BitVec 48) : PacketIn :=
  { pin with
    packetData := env.pack { pin.packetData.eth with
      destinationMACAddress := dstMAC
      payload := .ipv4 { ipPkt with destinationAddress := env.targetIP } } }

/-- The redirect when the target is known and there is a route to it. -/
def redirectAlong (sw : SwitchId) (pin : PacketIn) (ipPkt : IPv4) (dstMAC : BitVec 48)
    (path : List NodePortTuple) : Outcome :=
  match path[1]?, path.getLast?, loadFromPacket pin.packetData.bytes pin.inPort with
  | some first, some last, .ok m =>
    let pin := redirected env pin ipPkt dstMAC
    let written :=
      (sw, .flowMod (ingressEntry m dstMAC env.targetIP first.portId 0)) ::
        writePath env m 0 (path.drop 3)
    if env.connected last.nodeId then
      (written ++ [(last.nodeId, pushPacket pin last.portId)], .ok (pin, .stop))
    else (written, .error .nullPointer)
  | some _, some _, .error e => ([], .error e)
  | _, _, _ => ([], .error .indexOutOfBounds)

def defaultIdleTimeout : BitVec 16 := 7

/-- The redirect when the target is not known: flood. -/
def redirectFlood (sw : SwitchId) (pin : PacketIn) (ipPkt : IPv4) : Outcome :=
  match loadFromPacket pin.packetData.bytes pin.inPort with
  | .error e => ([], .error e)
  | .ok m =>
    let pin := redirected env pin ipPkt 0xffffffffffff
    ([(sw, .flowMod (ingressEntry m 0xffffffffffff env.targetIP ofppFlood defaultIdleTimeout))],
      .ok (pin, .continue))

/-- The redirect of a UDP packet to port 5134 from an attachment point. -/
def redirect (sw : SwitchId) (pin : PacketIn) (ipPkt : IPv4) (srcSW : NodePortTuple) : Outcome :=
  match env.queryDevices with
  | [] => redirectFlood env sw pin ipPkt
  | dstDev :: _ =>
    match dstDev.attachmentPoints with
    | [] => ([], .error .indexOutOfBounds)
    | dstSW :: _ =>
      match env.getRoute srcSW.nodeId srcSW.portId dstSW.nodeId dstSW.portId with
      | none => ([], .error .nullPointer)
      | some routeIn => redirectAlong env sw pin ipPkt dstDev.macAddress routeIn.path

/-- The IPv4 branch of `receive`, behind the casts. -/
def receiveIPv4 (sw : SwitchId) (srcDev : Device) (pin : PacketIn) (ipPkt : IPv4) : Outcome :=
  match srcDev.attachmentPoints with
  | [] => ([], .ok (pin, .continue))
  | srcSW :: _ =>
    if ipPkt.protocol = protocolUDP ∧ srcSW.nodeId = sw then
      match ipPkt.payload with
      | .udp udpPkt =>
        if udpPkt.destinationPort = 5134 then redirect env sw pin ipPkt srcSW
        else ([], .ok (pin, .continue))
      | .tcp _ => ([], .error .classCast)
      | .other => ([], .error .classCast)
      | .null => ([], .error .nullPointer)
    else ([], .ok (pin, .continue))

/-- `receive`; `srcDev` is the source device of the context. -/
def receive (sw : SwitchId) (srcDev : Option Device) (pin : PacketIn) : Outcome :=
  if pin.packetData.eth.etherType = typeARP then
    match pin.packetData.eth.payload with
    | .arp arp => receiveARP env sw pin arp
    | .null => ([], .error .nullPointer)
    | _ => ([], .error .classCast)
  else if pin.packetData.eth.etherType = typeIPv4 then
    match pin.packetData.eth.payload, srcDev with
    | .ipv4 ipPkt, some srcDev => receiveIPv4 env sw srcDev pin ipPkt
    | .ipv4 _, none => ([], .error .nullPointer)
    | .null, none => ([], .error .nullPointer)
    | .null, some srcDev =>
      match srcDev.attachmentPoints with
      | [] => ([], .ok (pin, .continue))
      | _ :: _ => ([], .error .nullPointer)
    | _, _ => ([], .error .classCast)
  else ([], .ok (pin, .continue))

/-! ### What is on the switches afterwards -/

def entriesOn (written : List (SwitchId × SwitchMessage)) (sw : SwitchId) : List FlowEntry :=
  written.filterMap fun w =>
    match w.2 with
    | .flowMod entry => if w.1 = sw then some entry else none
    | _ => none

/-- What an action does to the header fields of an IPv4 packet. -/
def Action.rewrite : Action → OFMatch → OFMatch
  | .setDataLayerDestination mac, m => { m with dataLayerDestination := mac }
  | .setNetworkDestination ip, m => { m with networkDestination := ip }
  | .output _, m => m

/-- What the actions of an entry do to the header fields. -/
def rewrittenBy (entry : FlowEntry) (m : OFMatch) : OFMatch :=
  entry.actions.foldl (fun m action => action.rewrite m) m

/-- A hop is of use: the packet `m`, rewritten by the entry on the source
switch, matches the entry of the hop when it comes in by its port, and is sent
out by its other port. -/
def UsableAt (written : List (SwitchId × SwitchMessage)) (sw : SwitchId) (m : OFMatch) (h : Hop) :
    Prop :=
  ∃ ingress entry, entriesOn written sw = [ingress] ∧ entriesOn written h.switchDPID = [entry] ∧
    Matches entry.ofMatch ((rewrittenBy ingress m).setInputPort h.inPort) ∧
    entry.actions = [.output h.outPort]

section Entries

variable {env}

theorem entriesOn_append (w₁ w₂ : List (SwitchId × SwitchMessage)) (sw : SwitchId) :
    entriesOn (w₁ ++ w₂) sw = entriesOn w₁ sw ++ entriesOn w₂ sw :=
  filterMap_append

theorem entriesOn_flowMod_cons (sw : SwitchId) (entry : FlowEntry)
    (written : List (SwitchId × SwitchMessage)) (sw' : SwitchId) :
    entriesOn ((sw, .flowMod entry) :: written) sw' =
      (if sw = sw' then [entry] else []) ++ entriesOn written sw' := by
  unfold entriesOn
  rw [filterMap_cons]
  by_cases hsw : sw = sw'
  · simp [hsw]
  · simp [hsw]

theorem writePath_hops (m : OFMatch) (idleTimeout : BitVec 16) (h : Hop) (hops : List Hop) :
    writePath env m idleTimeout
        (⟨h.switchDPID, h.outPort⟩ ::
          hops.flatMap fun h => [⟨h.switchDPID, h.inPort⟩, ⟨h.switchDPID, h.outPort⟩]) =
      (h :: hops).flatMap fun h =>
        writePath.pathMessages env m idleTimeout ⟨h.switchDPID, h.outPort⟩ := by
  induction hops generalizing h with
  | nil => exact (append_nil _).symm
  | cons h' hops ih => exact congrArg _ (ih h')

theorem entriesOn_pathMessages (m : OFMatch) (idleTimeout : BitVec 16) {node : NodePortTuple}
    (hconn : env.connected node.nodeId = true) (sw : SwitchId) :
    entriesOn (writePath.pathMessages env m idleTimeout node) sw =
      if node.nodeId = sw then [pathEntry env.targetIP m node.portId idleTimeout] else [] := by
  unfold writePath.pathMessages
  rw [if_pos hconn]
  unfold entriesOn
  split
  next hsw => simp [hsw]
  next hsw => simp [hsw]

theorem entriesOn_hops (m : OFMatch) (idleTimeout : BitVec 16) {hops : List Hop}
    (hconn : ∀ h ∈ hops, env.connected h.switchDPID = true) (sw : SwitchId) :
    entriesOn (hops.flatMap fun h =>
        writePath.pathMessages env m idleTimeout ⟨h.switchDPID, h.outPort⟩) sw =
      (hops.filter fun h => h.switchDPID = sw).map fun h =>
        pathEntry env.targetIP m h.outPort idleTimeout := by
  induction hops with
  | nil => rfl
  | cons h hops ih =>
    rw [flatMap_cons, entriesOn_append,
      entriesOn_pathMessages m idleTimeout (hconn h mem_cons_self),
      ih fun h' hh' => hconn h' (mem_cons_of_mem h hh'), filter_cons]
    by_cases hsw : h.switchDPID = sw
    · simp [hsw]
    · simp [hsw]

end Entries

theorem filter_switch_eq {hops : List Hop} (hnodup : (hops.map Hop.switchDPID).Nodup) {h : Hop}
    (hh : h ∈ hops) : (hops.filter fun h' => h'.switchDPID = h.switchDPID) = [h] := by
  induction hops with
  | nil => cases hh
  | cons h' hops ih =>
    rw [map_cons, nodup_cons] at hnodup
    rcases mem_cons.mp hh with rfl | hh
    · rw [filter_cons_of_pos (by simp)]
      congr 1
      rw [filter_eq_nil_iff]
      intro h' hh' heq
      apply hnodup.1
      rw [← of_decide_eq_true heq]
      exact mem_map_of_mem hh'
    · have hne : h'.switchDPID ≠ h.switchDPID := by
        intro heq
        apply hnodup.1
        rw [heq]
        exact mem_map_of_mem hh
      rw [filter_cons_of_neg (by simpa using hne)]
      exact ih hnodup.2 hh

theorem matches_pathEntry_iff (targetIP : BitVec 32) (m : OFMatch) (dstMAC : BitVec 48)
    (firstPort : Port) (h : Hop) :
    Matches (pathEntry targetIP m h.outPort 0).ofMatch
        ((rewrittenBy (ingressEntry m dstMAC targetIP firstPort 0) m).setInputPort h.inPort) ↔
      h.inPort = m.inputPort := by
  constructor
  · intro hmatches
    exact (hmatches.inPort (show ¬ Wild pathHints ofpfwInPort by decide)).symm
  · intro hport
    -- of the fields that are matched only the target address was rewritten
    have hdst : Wild pathHints ofpfwDlDst := by decide
    exact {
      inPort := fun _ => hport.symm
      dlSrc := fun _ => rfl
      dlDst := fun hnot => absurd hdst hnot
      dlVlan := fun _ => rfl
      dlVlanPcp := fun _ => rfl
      dlType := fun _ => rfl
      nwTos := fun _ => rfl
      nwProto := fun _ => rfl
      nwSrc := rfl
      nwDst := rfl
      tpSrc := fun _ => rfl
      tpDst := fun _ => rfl }

/-! ### The redirect -/

/-- A redirect that is under way: a UDP packet to port 5134 at the switch of
its source, a known target, and a route from that switch whose switches are
all connected. -/
structure Redirect (env : Environment) (sw : SwitchId) (srcDev : Device) (pin : PacketIn)
    (dstMAC : BitVec 48) (route : Route) : Prop where
  packet : ∃ ipPkt udpPkt, pin.packetData.eth.etherType = typeIPv4 ∧
    pin.packetData.eth.payload = .ipv4 ipPkt ∧ ipPkt.protocol = protocolUDP ∧
    ipPkt.payload = .udp udpPkt ∧ udpPkt.destinationPort = 5134
  routed : ∃ srcPort srcRest dst dstRest devices,
    srcDev.attachmentPoints = ⟨sw, srcPort⟩ :: srcRest ∧
    env.queryDevices = ⟨dstMAC, dst :: dstRest⟩ :: devices ∧
    env.getRoute sw srcPort dst.nodeId dst.portId = some route
  source : route.hops.head?.map Hop.switchDPID = some sw
  connected : ∀ h ∈ route.hops, env.connected h.switchDPID = true

variable {env}

theorem redirectAlong_written (sw : SwitchId) {pin : PacketIn} (ipPkt : IPv4) (dstMAC : BitVec 48)
    {route : Route} {h : Hop} {hops : List Hop} (hhops : route.hops = h :: hops)
    (hconn : ∀ h ∈ route.hops, env.connected h.switchDPID = true) {m : OFMatch}
    (hload : loadFromPacket pin.packetData.bytes pin.inPort = .ok m) :
    ∃ node po, (redirectAlong env sw pin ipPkt dstMAC route.path).1 =
      (sw, .flowMod (ingressEntry m dstMAC env.targetIP h.outPort 0)) ::
        ((hops.flatMap fun h => writePath.pathMessages env m 0 ⟨h.switchDPID, h.outPort⟩) ++
          [(node, .packetOut po)]) := by
  have hpath : route.path = ⟨h.switchDPID, h.inPort⟩ :: ⟨h.switchDPID, h.outPort⟩ ::
      hops.flatMap fun h => [⟨h.switchDPID, h.inPort⟩, ⟨h.switchDPID, h.outPort⟩] := by
    unfold Route.path
    rw [hhops]
    rfl
  obtain ⟨last, hlast⟩ : ∃ last, route.path.getLast? = some last := by
    rw [hpath]
    exact ⟨_, List.getLast?_eq_some_getLast (by simp)⟩
  have hlastConn : env.connected last.nodeId = true := by
    obtain ⟨h', hh', hmem⟩ := mem_flatMap.mp (mem_of_getLast? hlast)
    have hnode : last.nodeId = h'.switchDPID := by
      rcases mem_cons.mp hmem with rfl | hmem
      · rfl
      · rw [mem_singleton.mp hmem]
    rw [hnode]
    exact hconn h' hh'
  have hfirst : route.path[1]? = some ⟨h.switchDPID, h.outPort⟩ := by
    rw [hpath]
    rfl
  have hrest : writePath env m 0 (route.path.drop 3) =
      hops.flatMap fun h => writePath.pathMessages env m 0 ⟨h.switchDPID, h.outPort⟩ := by
    rw [hpath]
    cases hops with
    | nil => rfl
    | cons h' hops => exact writePath_hops m 0 h' hops
  unfold redirectAlong
  rw [hfirst, hlast, hload]
  dsimp only
  rw [if_pos hlastConn, hrest]
  exact ⟨_, _, rfl⟩

theorem Redirect.written {sw : SwitchId} {srcDev : Device} {pin : PacketIn} {dstMAC : BitVec 48}
    {route : Route} (hr : Redirect env sw srcDev pin dstMAC route) {m : OFMatch}
    (hload : loadFromPacket pin.packetData.bytes pin.inPort = .ok m) :
    ∃ h hops node po, route.hops = h :: hops ∧ h.switchDPID = sw ∧
      (receive env sw (some srcDev) pin).1 =
        (sw, .flowMod (ingressEntry m dstMAC env.targetIP h.outPort 0)) ::
          ((hops.flatMap fun h => writePath.pathMessages env m 0 ⟨h.switchDPID, h.outPort⟩) ++
            [(node, .packetOut po)]) := by
  obtain ⟨ipPkt, udpPkt, htype, hpayload, hproto, hudp, hport⟩ := hr.packet
  obtain ⟨srcPort, srcRest, dst, dstRest, devices, hsrc, hquery, hroute⟩ := hr.routed
  obtain ⟨h, hops, hhops⟩ : ∃ h hops, route.hops = h :: hops := by
    cases hcases : route.hops with
    | nil =>
      have hsource := hr.source
      rw [hcases] at hsource
      cases hsource
    | cons h hops => exact ⟨h, hops, rfl⟩
  have hsw : h.switchDPID = sw := by
    have hsource := hr.source
    rw [hhops] at hsource
    exact Option.some.inj hsource
  have hreceive : receive env sw (some srcDev) pin =
      redirectAlong env sw pin ipPkt dstMAC route.path := by
    unfold receive receiveIPv4 redirect
    rw [htype, hpayload, if_neg (by decide), if_pos rfl]
    dsimp only
    rw [hsrc]
    dsimp only
    rw [if_pos ⟨hproto, rfl⟩, hudp]
    dsimp only
    rw [if_pos hport, hquery]
    dsimp only
    rw [hroute]
  rw [hreceive]
  obtain ⟨node, po, hwritten⟩ :=
    redirectAlong_written sw ipPkt dstMAC hhops hr.connected hload
  exact ⟨h, hops, node, po, hhops, hsw, hwritten⟩

/-- **A redirect is usable along its route** exactly if the packet comes in by
one and the same port on all switches. -/
theorem redirect_usable_iff {sw : SwitchId} {srcDev : Device} {pin : PacketIn}
    {dstMAC : BitVec 48} {route : Route} (hr : Redirect env sw srcDev pin dstMAC route)
    {m : OFMatch} (hload : loadFromPacket pin.packetData.bytes pin.inPort = .ok m) :
    (∀ h ∈ route.hops.tail, UsableAt (receive env sw (some srcDev) pin).1 sw m h) ↔
      ∀ h ∈ route.hops.tail, h.inPort = pin.inPort := by
  obtain ⟨h₀, hops, node, po, hhops, hsw, hwritten⟩ := hr.written hload
  have hnodup := route.nodup
  rw [hhops, map_cons, nodup_cons] at hnodup
  have hconn : ∀ h ∈ hops, env.connected h.switchDPID = true := by
    intro h hh
    apply hr.connected
    rw [hhops]
    exact mem_cons_of_mem h₀ hh
  -- the switches of a route are different, so each has one entry
  have hentries : ∀ sw', entriesOn (receive env sw (some srcDev) pin).1 sw' =
      (if sw = sw' then [ingressEntry m dstMAC env.targetIP h₀.outPort 0] else []) ++
        (hops.filter fun h => h.switchDPID = sw').map fun h =>
          pathEntry env.targetIP m h.outPort 0 := by
    intro sw'
    rw [hwritten, entriesOn_flowMod_cons, entriesOn_append, entriesOn_hops m 0 hconn]
    exact congrArg _ (append_nil _)
  have hingress : entriesOn (receive env sw (some srcDev) pin).1 sw =
      [ingressEntry m dstMAC env.targetIP h₀.outPort 0] := by
    have hnone : (hops.filter fun h => h.switchDPID = sw) = [] := by
      rw [filter_eq_nil_iff]
      intro h hh heq
      apply hnodup.1
      rw [hsw, ← of_decide_eq_true heq]
      exact mem_map_of_mem hh
    rw [hentries, if_pos rfl, hnone]
    rfl
  have hhop : ∀ h ∈ hops, entriesOn (receive env sw (some srcDev) pin).1 h.switchDPID =
      [pathEntry env.targetIP m h.outPort 0] := by
    intro h hh
    have hne : sw ≠ h.switchDPID := by
      rintro rfl
      apply hnodup.1
      rw [hsw]
      exact mem_map_of_mem hh
    rw [hentries, if_neg hne, filter_switch_eq hnodup.2 hh]
    rfl
  rw [hhops, tail_cons]
  refine forall₂_congr fun h hh => ?_
  rw [← (loadFromPacket_spec hload).1, ← matches_pathEntry_iff env.targetIP m dstMAC h₀.outPort h]
  constructor
  · rintro ⟨ingress, entry, hi, he, hmatches, -⟩
    rw [hingress] at hi
    rw [hhop h hh] at he
    cases hi
    cases he
    exact hmatches
  · intro hmatches
    exact ⟨_, _, hingress, hhop h hh, hmatches, rfl⟩

/-! ### Two switches -/

def udpPacket : List (BitVec 8) :=
  [0, 0, 0, 0, 0, 2, 0, 0, 0, 0, 0, 1, 8, 0,
    0x45, 0, 0, 28, 0, 0, 0, 0, 64, 17, 0, 0, 10, 0, 0, 1, 10, 0, 0, 2,
    0x10, 0, 0x14, 0x0e, 0, 8, 0, 0]

def udpPacketIn : PacketIn where
  inPort := 1
  packetData := ⟨udpPacket, ⟨2, 1, vlanUntagged, typeIPv4,
    .ipv4 ⟨0x0a000001, 0x0a000002, protocolUDP, .udp ⟨0x1000, 5134⟩⟩⟩⟩

def sourceDevice : Device := ⟨1, [⟨1, 1⟩]⟩

/-- From port 1 of switch 1 over its port 2 to switch 2, which is entered by
`inPort`. -/
def oneLinkRoute (inPort : Port) : Route := ⟨[⟨1, 1, 2⟩, ⟨2, inPort, 4⟩], by
  show [(1 : SwitchId), 2].Nodup
  decide⟩

def oneLink (inPort : Port) : Environment where
  targetIP := 0x0a000009
  queryDevices := [⟨9, [⟨2, 4⟩]⟩]
  getRoute _ _ _ _ := some (oneLinkRoute inPort)
  connected _ := true
  serialize _ := []

theorem redirect_oneLink (inPort : Port) :
    Redirect (oneLink inPort) 1 sourceDevice udpPacketIn 9 (oneLinkRoute inPort) where
  packet := ⟨_, _, rfl, rfl, rfl, rfl, rfl⟩
  routed := ⟨_, _, _, _, _, rfl, rfl, rfl⟩
  source := rfl
  connected _ _ := rfl

def udpMatch : OFMatch where
  wildcards := 0
  inputPort := 1
  dataLayerSource := 1
  dataLayerDestination := 2
  dataLayerVirtualLan := vlanUntagged
  dataLayerVirtualLanPriorityCodePoint := 0
  dataLayerType := 0x0800
  networkTypeOfService := 0
  networkProtocol := 17
  networkSource := 0x0a000001
  networkDestination := 0x0a000002
  transportSource := 0x1000
  transportDestination := 5134

theorem loadFromPacket_udpPacket : loadFromPacket udpPacket 1 = .ok udpMatch := by decide +kernel

theorem redirect_usable_same_port :
    Redirect (oneLink 1) 1 sourceDevice udpPacketIn 9 (oneLinkRoute 1) ∧
    loadFromPacket udpPacketIn.packetData.bytes udpPacketIn.inPort = .ok udpMatch ∧
    ∀ h ∈ (oneLinkRoute 1).hops.tail,
      UsableAt (receive (oneLink 1) 1 (some sourceDevice) udpPacketIn).1 1 udpMatch h := by
  refine ⟨redirect_oneLink 1, loadFromPacket_udpPacket, ?_⟩
  exact (redirect_usable_iff (redirect_oneLink 1) loadFromPacket_udpPacket).mpr (by decide)

/-- A link to another port number: the entry on the second switch waits for
the packet on port 1. -/
theorem redirect_unusable_other_port :
    Redirect (oneLink 3) 1 sourceDevice udpPacketIn 9 (oneLinkRoute 3) ∧
    loadFromPacket udpPacketIn.packetData.bytes udpPacketIn.inPort = .ok udpMatch ∧
    ∃ h ∈ (oneLinkRoute 3).hops.tail,
      ¬ UsableAt (receive (oneLink 3) 1 (some sourceDevice) udpPacketIn).1 1 udpMatch h := by
  refine ⟨redirect_oneLink 3, loadFromPacket_udpPacket, ⟨2, 3, 4⟩, by decide, ?_⟩
  rintro ⟨ingress, entry, -, hentry, hmatches, -⟩
  have hinstalled : entriesOn (receive (oneLink 3) 1 (some sourceDevice) udpPacketIn).1 2 =
      [pathEntry 0x0a000009 udpMatch 4 0] := by decide +kernel
  rw [hinstalled] at hentry
  cases hentry
  have hport : (1 : Port) = 3 :=
    hmatches.inPort (show ¬ Wild pathHints ofpfwInPort by decide)
  cases hport

end NctuSdn
