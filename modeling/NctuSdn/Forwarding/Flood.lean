/-
Flooded ARP requests (`NCTUForward.receive` and `Forwarding.doFlood`).

Every copy of an ARP request that reaches a switch goes to the controller.
`receive` floods it as it is, whatever port it came in by, and rewrites it to
ask for the redirect target; `doFlood` then floods the rewritten request,
provided broadcasts may come in by that port.  A packet-out to all ports
makes one copy for each port but the input port, and the copies that go out
by a cable reach the switch at its other end.

A copy only moves onward, so in a forest all of them stop; anywhere else some
never do.
-/
import NctuSdn.Forwarding.NctuForward
import NctuSdn.Lib.Network
import NctuSdn.Lib.Wiring

namespace NctuSdn

open List Relation SimpleGraph

/-! ### Switches and cables -/

/-- The switches with their ports and the cables between them.  A port without
a peer leads to hosts. -/
structure Cabling where
  switches : Finset SwitchId
  ports : SwitchId → List Port
  peer : NodePortTuple → Option NodePortTuple
  symm : ∀ {a b}, peer a = some b → peer b = some a
  irrefl : ∀ a, peer a ≠ some a
  mem_switches : ∀ {a b}, peer a = some b → a.nodeId ∈ switches
  mem_ports : ∀ {a b}, peer a = some b → a.portId ∈ ports a.nodeId

namespace Cabling

variable (cab : Cabling)

/-- The cables join ports at switches. -/
def wiring : Wiring NodePortTuple SwitchId where
  node := NodePortTuple.nodeId
  peer := cab.peer
  symm := cab.symm
  irrefl := cab.irrefl

def Connected : Prop :=
  ∀ u ∈ cab.switches, ∀ v ∈ cab.switches, cab.wiring.graph.Reachable u v

end Cabling

/-! ### The broadcast check -/

/-- What `isIncomingBroadcastAllowedOnSwitchPort` reads in a topology instance. -/
structure BroadcastInfo where
  isInternalToOpenflowDomain : SwitchId → Port → Bool
  getOpenflowDomainId : SwitchId → SwitchId
  clusterBroadcastNodePorts : SwitchId → Option (List NodePortTuple)

def BroadcastInfo.isIncomingBroadcastAllowed (info : BroadcastInfo) (sw : SwitchId)
    (portId : Port) : Except JavaException Bool :=
  if info.isInternalToOpenflowDomain sw portId then
    match info.clusterBroadcastNodePorts (info.getOpenflowDomainId sw) with
    | none => .error .nullPointer
    | some npts => .ok (npts.contains ⟨sw, portId⟩)
  else .ok true

/-- `doFlood`; `supportsFlood` is the attribute `PROP_SUPPORTS_OFPP_FLOOD`. -/
def doFlood (info : BroadcastInfo) (supportsFlood : SwitchId → Bool) (sw : SwitchId)
    (pi : PacketIn) : Except JavaException (List (SwitchId × SwitchMessage)) :=
  match info.isIncomingBroadcastAllowed sw pi.inPort with
  | .error e => .error e
  | .ok false => .ok []
  | .ok true => .ok [(sw, pushPacket pi (if supportsFlood sw then ofppFlood else ofppAll))]

/-! ### Copies -/

/-- An Ethernet frame that carries ARP. -/
structure ArpFrame where
  destinationMACAddress : BitVec 48
  sourceMACAddress : BitVec 48
  vlanID : BitVec 16
  arp : ARP
deriving DecidableEq, Repr

def ArpFrame.toEthernet (frame : ArpFrame) : Ethernet :=
  ⟨frame.destinationMACAddress, frame.sourceMACAddress, frame.vlanID, typeARP, .arp frame.arp⟩

def ArpFrame.ofEthernet (eth : Ethernet) : Option ArpFrame :=
  if eth.etherType = typeARP then
    match eth.payload with
    | .arp arp => some ⟨eth.destinationMACAddress, eth.sourceMACAddress, eth.vlanID, arp⟩
    | _ => none
  else none

/-- A copy that reaches a switch port. -/
structure Copy where
  port : NodePortTuple
  bytes : List (BitVec 8)
  frame : ArpFrame
deriving DecidableEq, Repr

def Copy.movedTo (copy : Copy) (npt : NodePortTuple) : Copy := { copy with port := npt }

def Copy.packetIn (copy : Copy) : PacketIn :=
  ⟨copy.port.portId, ⟨copy.bytes, copy.frame.toEthernet⟩⟩

variable (cab : Cabling)

/-- The ports a packet-out goes out by: all but the input port, or one. -/
def outPorts (sw : SwitchId) (po : PacketOut) : List Port :=
  if po.outPort = ofppFlood ∨ po.outPort = ofppAll then
    (cab.ports sw).filter fun p => p ≠ po.inPort
  else [po.outPort]

/-- The copies a message to a switch makes at the other ends of its cables. -/
def copiesOf (message : SwitchId × SwitchMessage) : List Copy :=
  match message.2 with
  | .packetOut po =>
    match ArpFrame.ofEthernet po.packetData.eth with
    | some frame =>
      (outPorts cab message.1 po).filterMap fun p =>
        (cab.peer ⟨message.1, p⟩).map fun npt => ⟨npt, po.packetData.bytes, frame⟩
    | none => []
  | _ => []

/-- What is written when a copy comes to the controller.  For ARP the source
device of the context plays no part. -/
def messagesFor (env : Environment) (info : BroadcastInfo) (supportsFlood : SwitchId → Bool)
    (copy : Copy) : List (SwitchId × SwitchMessage) :=
  match receive env copy.port.nodeId none copy.packetIn with
  | (written, .ok (pin, .continue)) =>
    match doFlood info supportsFlood copy.port.nodeId pin with
    | .ok flooded => written ++ flooded
    | .error _ => written
  | (written, _) => written

/-- The copies that follow from a copy. -/
def spread (env : Environment) (info : BroadcastInfo) (supportsFlood : SwitchId → Bool)
    (copy : Copy) : List Copy :=
  (messagesFor env info supportsFlood copy).flatMap (copiesOf cab)

/-! ### Where copies go -/

variable {cab} {env : Environment} {info : BroadcastInfo} {supportsFlood : SwitchId → Bool}

def Floods (npt : NodePortTuple) (message : SwitchId × SwitchMessage) : Prop :=
  ∃ packet outPort, (outPort = ofppFlood ∨ outPort = ofppAll) ∧
    message = (npt.nodeId, .packetOut ⟨packet, npt.portId, outPort⟩)

/-- The request is about neither the target nor from it. -/
def AboutOther (targetIP : BitVec 32) (arp : ARP) : Prop :=
  arp.opCode = opRequest ∧ arp.targetProtocolAddress ≠ targetIP ∧
    arp.senderProtocolAddress ≠ targetIP

instance (targetIP : BitVec 32) (arp : ARP) : Decidable (AboutOther targetIP arp) :=
  inferInstanceAs (Decidable (_ ∧ _ ∧ _))

theorem receive_arp (env : Environment) (copy : Copy) :
    receive env copy.port.nodeId none copy.packetIn =
      receiveARP env copy.port.nodeId copy.packetIn copy.frame.arp := if_pos rfl

theorem receive_copy (env : Environment) (copy : Copy) :
    ∃ written packet,
      receive env copy.port.nodeId none copy.packetIn =
        (written, .ok (⟨copy.port.portId, packet⟩, .continue)) ∧
      (∀ message ∈ written, Floods copy.port message) ∧
      (AboutOther env.targetIP copy.frame.arp → (copy.port.nodeId,
        .packetOut ⟨⟨copy.bytes, copy.frame.toEthernet⟩, copy.port.portId, ofppFlood⟩) ∈
          written) := by
  rw [receive_arp]
  by_cases h : AboutOther env.targetIP copy.frame.arp
  · refine ⟨_, _, if_pos h, ?_, fun _ => mem_singleton_self _⟩
    intro message hmem
    rw [mem_singleton.mp hmem]
    exact ⟨_, _, .inl rfl, rfl⟩
  · exact ⟨_, _, if_neg h, fun _ hmem => absurd hmem not_mem_nil, fun h' => absurd h' h⟩

variable {npt : NodePortTuple}

theorem doFlood_floods {packet : Packet} {flooded : List (SwitchId × SwitchMessage)}
    (h : doFlood info supportsFlood npt.nodeId ⟨npt.portId, packet⟩ = .ok flooded) :
    ∀ message ∈ flooded, Floods npt message := by
  intro message hmem
  unfold doFlood at h
  split at h
  · cases h
  · cases h
    cases hmem
  · cases h
    rw [mem_singleton.mp hmem]
    refine ⟨packet, _, ?_, rfl⟩
    split
    · exact .inl rfl
    · exact .inr rfl

theorem messagesFor_spec (copy : Copy) :
    (∀ message ∈ messagesFor env info supportsFlood copy, Floods copy.port message) ∧
    (AboutOther env.targetIP copy.frame.arp → (copy.port.nodeId,
      .packetOut ⟨⟨copy.bytes, copy.frame.toEthernet⟩, copy.port.portId, ofppFlood⟩) ∈
        messagesFor env info supportsFlood copy) := by
  obtain ⟨written, packet, hreceive, hfloods, hother⟩ := receive_copy env copy
  unfold messagesFor
  rw [hreceive]
  dsimp only
  cases hflood : doFlood info supportsFlood copy.port.nodeId ⟨copy.port.portId, packet⟩ with
  | error e => exact ⟨hfloods, hother⟩
  | ok flooded =>
    refine ⟨fun message hmem => ?_, fun h => mem_append_left _ (hother h)⟩
    rcases mem_append.mp hmem with hmem | hmem
    · exact hfloods message hmem
    · exact doFlood_floods hflood message hmem

theorem mem_copiesOf_iff {packet : Packet} {outPort : Port}
    (hout : outPort = ofppFlood ∨ outPort = ofppAll) {copy : Copy} :
    copy ∈ copiesOf cab (npt.nodeId, .packetOut ⟨packet, npt.portId, outPort⟩) ↔
      cab.wiring.Onward npt copy.port ∧ copy.bytes = packet.bytes ∧
        ArpFrame.ofEthernet packet.eth = some copy.frame := by
  have hports : outPorts cab npt.nodeId ⟨packet, npt.portId, outPort⟩ =
      (cab.ports npt.nodeId).filter fun p => p ≠ npt.portId := if_pos hout
  unfold copiesOf
  dsimp only
  rw [hports]
  cases hframe : ArpFrame.ofEthernet packet.eth with
  | none => simp
  | some frame =>
    rw [mem_filterMap]
    constructor
    · rintro ⟨p, hp, hcopy⟩
      obtain ⟨npt', hpeer, rfl⟩ := Option.map_eq_some_iff.mp hcopy
      have hne : p ≠ npt.portId := of_decide_eq_true (mem_filter.mp hp).2
      refine ⟨⟨⟨npt.nodeId, p⟩, rfl, ?_, hpeer⟩, rfl, rfl⟩
      rintro heq
      exact hne (congrArg NodePortTuple.portId heq)
    · rintro ⟨⟨⟨sw, p⟩, rfl, hne, hpeer⟩, hbytes, hframe'⟩
      cases hframe'
      have hp : p ≠ npt.portId := by
        rintro rfl
        exact hne rfl
      refine ⟨p, mem_filter.mpr ⟨cab.mem_ports hpeer, decide_eq_true hp⟩, ?_⟩
      refine Option.map_eq_some_iff.mpr ⟨copy.port, hpeer, ?_⟩
      rw [← hbytes]

/-- **Copies move onward.** -/
theorem onward_of_mem_spread {copy copy' : Copy}
    (h : copy' ∈ spread cab env info supportsFlood copy) :
    cab.wiring.Onward copy.port copy'.port := by
  obtain ⟨message, hmem, hcopy⟩ := mem_flatMap.mp h
  obtain ⟨packet, outPort, hout, rfl⟩ := (messagesFor_spec copy).1 message hmem
  exact ((mem_copiesOf_iff hout).mp hcopy).1

/-- **Requests about others take every way onward.** -/
theorem mem_spread_of_onward {copy : Copy} (hother : AboutOther env.targetIP copy.frame.arp)
    (h : cab.wiring.Onward copy.port npt) :
    copy.movedTo npt ∈ spread cab env info supportsFlood copy := by
  refine mem_flatMap.mpr ⟨_, (messagesFor_spec copy).2 hother, ?_⟩
  exact (mem_copiesOf_iff (.inl rfl)).mpr ⟨h, rfl, rfl⟩

instance : Finite NodePortTuple :=
  Finite.of_injective (fun npt : NodePortTuple => (npt.nodeId.toFin, npt.portId.toFin)) (by
    rintro ⟨sw, p⟩ ⟨sw', p'⟩ heq
    obtain ⟨h, h'⟩ := Prod.mk.inj heq
    rw [NodePortTuple.mk.injEq]
    exact ⟨BitVec.eq_of_toFin_eq h, BitVec.eq_of_toFin_eq h'⟩)

theorem wellFounded_spread (hforest : cab.wiring.IsForest) :
    WellFounded fun copy' copy => copy' ∈ spread cab env info supportsFlood copy := by
  have honward : WellFounded fun b a => TransGen cab.wiring.Onward a b := by
    have : IsTrans NodePortTuple fun b a => TransGen cab.wiring.Onward a b :=
      ⟨fun _ _ _ h h' => h'.trans h⟩
    have : Std.Irrefl fun b a => TransGen cab.wiring.Onward a b :=
      ⟨hforest.not_transGen_onward⟩
    exact Finite.wellFounded_of_trans_of_irrefl _
  exact Subrelation.wf (fun {_ _} h => TransGen.single (onward_of_mem_spread h))
    (InvImage.wf Copy.port honward)

/-- **ARP requests do not storm exactly in forests.**  A request that enters on
a host port of a connected topology and mentions the redirect target nowhere
results in finitely many packet-ins if and only if the cables form no cycle. -/
theorem arp_request_bounded_iff (env : Environment) (info : BroadcastInfo)
    (supportsFlood : SwitchId → Bool) (cab : Cabling) (hconn : cab.Connected) (copy : Copy)
    (hswitch : copy.port.nodeId ∈ cab.switches) (hhost : cab.peer copy.port = none)
    (hother : AboutOther env.targetIP copy.frame.arp) :
    Net.Bounded (Net.relay (spread cab env info supportsFlood)) ⟨(), {copy}⟩ ↔
      cab.wiring.IsForest := by
  constructor
  · intro hbounded
    by_contra hforest
    have hreachable : ∀ a b, cab.wiring.peer a = some b →
        cab.wiring.graph.Reachable (cab.wiring.node copy.port) (cab.wiring.node a) :=
      fun a b hpeer => hconn _ hswitch _ (cab.mem_switches hpeer)
    obtain ⟨npt, hway, hround⟩ := Wiring.exists_transGen_onward_self hforest hhost hreachable
    -- the request itself goes wherever there is a way
    have hlift : cab.wiring.Onward ≤
        Function.onFun (fun m m' => m' ∈ spread cab env info supportsFlood m) copy.movedTo := by
      intro a b h
      have hother' : AboutOther env.targetIP (copy.movedTo a).frame.arp := hother
      exact mem_spread_of_onward hother' h
    have hway' := ReflTransGen.lift copy.movedTo hlift _ _ hway
    have hround' := TransGen.lift copy.movedTo hlift _ _ hround
    exact Net.not_relay_bounded hway' hround' (Multiset.mem_singleton_self copy) hbounded
  · intro hforest
    exact Net.relay_bounded (wellFounded_spread hforest) _

/-! ### A line and a triangle -/

theorem mem_of_lookup {table : List (NodePortTuple × NodePortTuple)} {a b : NodePortTuple}
    (h : table.lookup a = some b) : (a, b) ∈ table := by
  obtain ⟨l₁, l₂, rfl, -⟩ := lookup_eq_some_iff.mp h
  simp

/-- Cables from a table with each of them both ways round. -/
def Cabling.ofTable (switches : Finset SwitchId) (ports : SwitchId → List Port)
    (table : List (NodePortTuple × NodePortTuple))
    (hsymm : ∀ e ∈ table, table.lookup e.2 = some e.1) (hirrefl : ∀ e ∈ table, e.1 ≠ e.2)
    (hswitches : ∀ e ∈ table, e.1.nodeId ∈ switches)
    (hports : ∀ e ∈ table, e.1.portId ∈ ports e.1.nodeId) : Cabling where
  switches := switches
  ports := ports
  peer a := table.lookup a
  symm h := hsymm _ (mem_of_lookup h)
  irrefl _ h := hirrefl _ (mem_of_lookup h) rfl
  mem_switches h := hswitches _ (mem_of_lookup h)
  mem_ports h := hports _ (mem_of_lookup h)

def twoInLine : Cabling :=
  .ofTable {1, 2} (fun _ => [1, 2]) [(⟨1, 2⟩, ⟨2, 2⟩), (⟨2, 2⟩, ⟨1, 2⟩)] (by decide) (by decide)
    (by decide) (by decide)

/-- Switches 1, 2 and 3 in a ring, from port 2 to port 3 of the next. -/
def triangle : Cabling :=
  .ofTable {1, 2, 3} (fun _ => [1, 2, 3])
    [(⟨1, 2⟩, ⟨2, 3⟩), (⟨2, 3⟩, ⟨1, 2⟩), (⟨2, 2⟩, ⟨3, 3⟩), (⟨3, 3⟩, ⟨2, 2⟩),
      (⟨3, 2⟩, ⟨1, 3⟩), (⟨1, 3⟩, ⟨3, 2⟩)]
    (by decide) (by decide) (by decide) (by decide)

/-- 10.0.0.1 asks for 10.0.0.2; it is attached to port 1 of switch 1. -/
def arpRequest : Copy where
  port := ⟨1, 1⟩
  bytes := []
  frame := ⟨0xffffffffffff, 1, vlanUntagged, ⟨opRequest, 1, 0x0a000001, 0, 0x0a000002⟩⟩

def oneDomain (tree : List NodePortTuple) : BroadcastInfo :=
  ⟨fun _ p => p ≠ 1, fun _ => 1, fun _ => some tree⟩

/-- The tree of the triangle leaves out the cable between switches 2 and 3. -/
def triangleTree : List NodePortTuple := [⟨1, 2⟩, ⟨2, 3⟩, ⟨1, 3⟩, ⟨3, 2⟩]

theorem peer_twoInLine {a b : NodePortTuple} (h : twoInLine.peer a = some b) :
    (a = ⟨1, 2⟩ ∧ b = ⟨2, 2⟩) ∨ (a = ⟨2, 2⟩ ∧ b = ⟨1, 2⟩) := by
  have hmem : (a, b) ∈ [((⟨1, 2⟩ : NodePortTuple), (⟨2, 2⟩ : NodePortTuple)), (⟨2, 2⟩, ⟨1, 2⟩)] :=
    mem_of_lookup h
  simpa using hmem

theorem isForest_twoInLine : twoInLine.wiring.IsForest where
  noLoop h := by
    obtain ⟨rfl, rfl⟩ | ⟨rfl, rfl⟩ := peer_twoInLine h <;> decide
  noParallel h h' hnode _ := by
    obtain ⟨rfl, rfl⟩ | ⟨rfl, rfl⟩ := peer_twoInLine h <;>
      obtain ⟨rfl, rfl⟩ | ⟨rfl, rfl⟩ := peer_twoInLine h' <;> revert hnode <;> decide
  acyclic := by
    have hle : twoInLine.wiring.graph ≤ ⊥ ⊔ edge 1 2 := by
      rintro u v ⟨hne, a, b, rfl, rfl, h⟩
      right
      rw [edge_adj]
      refine ⟨?_, hne⟩
      obtain ⟨rfl, rfl⟩ | ⟨rfl, rfl⟩ := peer_twoInLine h
      · exact .inl ⟨rfl, rfl⟩
      · exact .inr ⟨rfl, rfl⟩
    have hnot : ¬ (⊥ : SimpleGraph SwitchId).Reachable 1 2 := by
      rw [reachable_bot]
      decide
    exact .anti hle (.sup_edge_of_not_reachable hnot isAcyclic_bot)

theorem Cabling.connected_of_reachable {cab : Cabling} {u : SwitchId}
    (h : ∀ v ∈ cab.switches, cab.wiring.graph.Reachable u v) : cab.Connected :=
  fun v hv t ht => (h v hv).symm.trans (h t ht)

theorem connected_twoInLine : twoInLine.Connected := by
  have hadj : twoInLine.wiring.graph.Adj 1 2 := ⟨by decide, ⟨1, 2⟩, ⟨2, 2⟩, rfl, rfl, by decide⟩
  apply Cabling.connected_of_reachable (u := 1)
  intro v hv
  obtain rfl | rfl : v = 1 ∨ v = 2 := by simpa [twoInLine, Cabling.ofTable] using hv
  · exact .refl _
  · exact hadj.reachable

theorem connected_triangle : triangle.Connected := by
  have hadj : triangle.wiring.graph.Adj 1 2 := ⟨by decide, ⟨1, 2⟩, ⟨2, 3⟩, rfl, rfl, by decide⟩
  have hadj' : triangle.wiring.graph.Adj 1 3 := ⟨by decide, ⟨1, 3⟩, ⟨3, 2⟩, rfl, rfl, by decide⟩
  apply Cabling.connected_of_reachable (u := 1)
  intro v hv
  obtain rfl | rfl | rfl : v = 1 ∨ v = 2 ∨ v = 3 := by
    simpa [triangle, Cabling.ofTable] using hv
  · exact .refl _
  · exact hadj.reachable
  · exact hadj'.reachable

theorem arp_request_bounded_twoInLine :
    Net.Bounded
      (Net.relay (spread twoInLine (oneLink 2) (oneDomain [⟨1, 2⟩, ⟨2, 2⟩]) fun _ => true))
      ⟨(), {arpRequest}⟩ :=
  (arp_request_bounded_iff _ _ _ twoInLine connected_twoInLine arpRequest (by decide) (by decide)
    (by decide)).mpr isForest_twoInLine

/-- In a triangle the request goes round for ever, although what `doFlood` sends
keeps to the broadcast tree. -/
theorem arp_request_storms_triangle :
    triangle.Connected ∧ arpRequest.port.nodeId ∈ triangle.switches ∧
    triangle.peer arpRequest.port = none ∧
    AboutOther (oneLink 2).targetIP arpRequest.frame.arp ∧
    ¬ Net.Bounded (Net.relay (spread triangle (oneLink 2) (oneDomain triangleTree) fun _ => true))
      ⟨(), {arpRequest}⟩ := by
  refine ⟨connected_triangle, by decide, by decide, by decide, ?_⟩
  have hstep : ∀ a b, arpRequest.movedTo b ∈
      spread triangle (oneLink 2) (oneDomain triangleTree) (fun _ => true) (arpRequest.movedTo a) →
      TransGen (fun m m' => m' ∈
        spread triangle (oneLink 2) (oneDomain triangleTree) (fun _ => true) m)
        (arpRequest.movedTo a) (arpRequest.movedTo b) := fun _ _ h => .single h
  refine Net.not_relay_bounded (m := arpRequest) (y := arpRequest.movedTo ⟨2, 3⟩) ?_ ?_
    (Multiset.mem_singleton_self _)
  · exact (hstep ⟨1, 1⟩ ⟨2, 3⟩ (by decide)).to_reflTransGen
  · exact ((hstep ⟨2, 3⟩ ⟨3, 3⟩ (by decide)).trans (hstep ⟨3, 3⟩ ⟨1, 3⟩ (by decide))).trans
      (hstep ⟨1, 3⟩ ⟨2, 3⟩ (by decide))

end NctuSdn
