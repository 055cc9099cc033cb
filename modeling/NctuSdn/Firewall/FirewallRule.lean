/-
Firewall rules (`FirewallRule.matchesFlow`, `Firewall.matchWithRule`).

A rule goes through its tests in a fixed order and gives up at the first that
fails.  Behind a test that passes it takes the wildcard of the field out of
the word for its own action, ALLOW or DENY; a test that fails leaves the
wildcard of its field where it is.

On a frame whose payload is what its headers announce, a rule matches exactly
if it accepts the header fields (`FirewallRule.verdict_checks`), so the first
rule that accepts them decides (`matchRules_announced`).
-/
import NctuSdn.Forwarding.NctuForward

namespace NctuSdn

/-! ### Rules -/

inductive FirewallAction
  | deny
  | allow
deriving DecidableEq, Repr

structure FirewallRule where
  ruleid : BitVec 32 := 0
  dpid : BitVec 64 := -1
  inPort : BitVec 16 := 0
  dlSrc : BitVec 64 := 0
  dlDst : BitVec 64 := 0
  dlType : BitVec 16 := 0
  nwSrcPrefix : BitVec 32 := 0
  nwSrcMaskbits : BitVec 32 := 0
  nwDstPrefix : BitVec 32 := 0
  nwDstMaskbits : BitVec 32 := 0
  nwProto : BitVec 16 := 0
  tpSrc : BitVec 16 := 0
  tpDst : BitVec 16 := 0
  wildcardDpid : Bool := true
  wildcardInPort : Bool := true
  wildcardDlSrc : Bool := true
  wildcardDlDst : Bool := true
  wildcardDlType : Bool := true
  wildcardNwSrc : Bool := true
  wildcardNwDst : Bool := true
  wildcardNwProto : Bool := true
  wildcardTpSrc : Bool := true
  wildcardTpDst : Bool := true
  priority : BitVec 32 := 0
  action : FirewallAction := .allow
deriving DecidableEq, Repr

structure WildcardsPair where
  allow : BitVec 32 := ofpfwAll
  drop : BitVec 32 := ofpfwAll
deriving DecidableEq, Repr

def WildcardsPair.get (w : WildcardsPair) : FirewallAction → BitVec 32
  | .deny => w.drop
  | .allow => w.allow

def WildcardsPair.modify (w : WildcardsPair) (f : BitVec 32 → BitVec 32) :
    FirewallAction → WildcardsPair
  | .deny => { w with drop := f w.drop }
  | .allow => { w with allow := f w.allow }

/-! ### Matching -/

/-- `matchIPAddress`.  The distance of a shift of an `int` is its low five
bits, so a mask of no bits compares the whole address. -/
def matchIPAddress (rulePrefix ruleBits packetAddress : BitVec 32) : Bool :=
  let ruleIprng := 32 - ruleBits
  if (0 : BitVec 32).slt ruleIprng then
    let distance := (ruleIprng &&& 31).toNat
    (rulePrefix.sshiftRight distance <<< distance) ==
      (packetAddress.sshiftRight distance <<< distance)
  else rulePrefix == packetAddress

def protocolTCP : BitVec 8 := 6

def protocolICMP : BitVec 8 := 1

/-- What `matchesFlow` does on its way: test, or change the wildcards of the
action of the rule. -/
inductive Check
  | test (passed : Except JavaException Bool)
  | clear (bits : BitVec 32)
  | set (bits : BitVec 32)

/-- One check after the other, up to the first test that fails. -/
def runChecks (action : FirewallAction) :
    List Check → WildcardsPair → Except JavaException (Bool × WildcardsPair)
  | [], w => .ok (true, w)
  | .test (.error e) :: _, _ => .error e
  | .test (.ok false) :: _, w => .ok (false, w)
  | .test (.ok true) :: cs, w => runChecks action cs w
  | .clear bits :: cs, w => runChecks action cs (w.modify (· &&& ~~~bits) action)
  | .set bits :: cs, w => runChecks action cs (w.modify (· ||| bits) action)

/-- The cast of a payload to `IPv4`; a null reference survives it. -/
def asIPv4 : EthernetPayload → Except JavaException (Option IPv4)
  | .ipv4 ip => .ok (some ip)
  | .null => .ok none
  | _ => .error .classCast

/-- Read through a reference. -/
def deref {α β : Type} (f : α → β) : Option α → Except JavaException β
  | some x => .ok (f x)
  | none => .error .nullPointer

/-- The cast of a payload to `TCP`, with its ports. -/
def asTCP : IPv4Payload → Except JavaException (BitVec 16 × BitVec 16)
  | .tcp p => .ok (p.sourcePort, p.destinationPort)
  | .null => .error .nullPointer
  | _ => .error .classCast

/-- The cast of a payload to `UDP`, with its ports. -/
def asUDP : IPv4Payload → Except JavaException (BitVec 16 × BitVec 16)
  | .udp p => .ok (p.sourcePort, p.destinationPort)
  | .null => .error .nullPointer
  | _ => .error .classCast

namespace FirewallRule

variable (r : FirewallRule)

/-- The checks of the transport ports; there are none without a cast. -/
def portChecks : Except JavaException (BitVec 16 × BitVec 16) → List Check
  | .error e => [.test (.error e)]
  | .ok (src, dst) =>
    [.clear ofpfwNwProto,
      .test (.ok (r.tpSrc == 0 || r.tpSrc == src)), .clear ofpfwTpSrc,
      .test (.ok (r.tpDst == 0 || r.tpDst == dst)), .clear ofpfwTpDst]

/-- The checks of the protocol of an IPv4 packet. -/
def protoChecks (ip : Option IPv4) : List Check :=
  if r.wildcardNwProto then []
  else if r.nwProto = protocolTCP.signExtend 16 then
    .test (deref (fun ip => ip.protocol == protocolTCP) ip) ::
      r.portChecks (deref IPv4.payload ip >>= asTCP)
  else if r.nwProto = protocolUDP.signExtend 16 then
    .test (deref (fun ip => ip.protocol == protocolUDP) ip) ::
      r.portChecks (deref IPv4.payload ip >>= asUDP)
  else if r.nwProto = protocolICMP.signExtend 16 then
    [.test (deref (fun ip => ip.protocol == protocolICMP) ip), .clear ofpfwNwProto]
  else [.clear ofpfwNwProto]

/-- The check of an address of an IPv4 packet.  What is taken out of the six
bits of the field is the value 32, and what is put in is the length of the
prefix. -/
def addressChecks (wild : Bool) (rulePrefix ruleBits : BitVec 32) (all : BitVec 32) (shift : ℕ)
    (address : Except JavaException (BitVec 32)) : List Check :=
  [.test (if wild then .ok true else address.map (matchIPAddress rulePrefix ruleBits)),
    .clear all, .set (ruleBits <<< shift)]

/-- The checks of an IPv4 rule behind the one of the ether type. -/
def ipChecks : Except JavaException (Option IPv4) → List Check
  | .error e => [.test (.error e)]
  | .ok ip =>
    addressChecks r.wildcardNwSrc r.nwSrcPrefix r.nwSrcMaskbits ofpfwNwSrcAll ofpfwNwSrcShift
        (deref IPv4.sourceAddress ip) ++
      addressChecks r.wildcardNwDst r.nwDstPrefix r.nwDstMaskbits ofpfwNwDstAll
        ofpfwNwDstShift (deref IPv4.destinationAddress ip) ++
      r.protoChecks ip

/-- The checks of the ether type and of what it announces. -/
def typeChecks (packet : Ethernet) : List Check :=
  if r.wildcardDlType then []
  else if r.dlType = typeARP then
    [.test (.ok (packet.etherType == typeARP)), .clear ofpfwDlType]
  else if r.dlType = typeIPv4 then
    .test (.ok (packet.etherType == typeIPv4)) :: .clear ofpfwNwProto ::
      r.ipChecks (asIPv4 packet.payload)
  else [.test (.ok false)]

/-- The checks of the switch, the port and the Ethernet addresses. -/
def linkChecks (switchDpid : SwitchId) (inPort : Port) (packet : Ethernet) : List Check :=
  [.test (.ok (r.wildcardDpid || r.dpid == switchDpid)),
    .test (.ok (r.wildcardInPort || r.inPort == inPort)), .clear ofpfwInPort,
    .test (.ok (r.wildcardDlSrc || r.dlSrc == packet.sourceMACAddress.setWidth 64)),
    .clear ofpfwDlSrc,
    .test (.ok (r.wildcardDlDst || r.dlDst == packet.destinationMACAddress.setWidth 64)),
    .clear ofpfwDlDst]

/-- All checks, in the order of the source. -/
def checks (switchDpid : SwitchId) (inPort : Port) (packet : Ethernet) : List Check :=
  r.linkChecks switchDpid inPort packet ++ r.typeChecks packet ++ [.clear ofpfwDlType]

def matchesFlow (switchDpid : SwitchId) (inPort : Port) (packet : Ethernet)
    (wildcards : WildcardsPair) : Except JavaException (Bool × WildcardsPair) :=
  runChecks r.action (r.checks switchDpid inPort packet) wildcards

end FirewallRule

structure RuleWildcardsPair where
  rule : Option FirewallRule
  wildcards : BitVec 32
deriving DecidableEq, Repr

/-- The loop of `matchWithRule`. -/
def matchRules (switchDpid : SwitchId) (pi : PacketIn) : List FirewallRule →
    WildcardsPair → Except JavaException (Option FirewallRule × WildcardsPair)
  | [], w => .ok (none, w)
  | r :: rules, w =>
    match r.matchesFlow switchDpid pi.inPort pi.packetData.eth w with
    | .error e => .error e
    | .ok (true, w') => .ok (some r, w')
    | .ok (false, w') => matchRules switchDpid pi rules w'

/-- The action that a matched rule stands for: without one the packet is
blocked. -/
def actionOf : Option FirewallRule → FirewallAction
  | none => .deny
  | some r => r.action

def matchWithRule (rules : List FirewallRule) (switchDpid : SwitchId) (pi : PacketIn) :
    Except JavaException RuleWildcardsPair :=
  match matchRules switchDpid pi rules {} with
  | .error e => .error e
  | .ok (rule, w) => .ok ⟨rule, w.get (actionOf rule)⟩

/-! ### Header fields -/

/-- The header fields that a rule may look at. -/
inductive Field
  | inPort
  | dlSrc
  | dlDst
  | dlType
  | nwSrc
  | nwDst
  | nwProto
  | tpSrc
  | tpDst
deriving DecidableEq, Repr

def Field.all : List Field :=
  [.inPort, .dlSrc, .dlDst, .dlType, .nwSrc, .nwDst, .nwProto, .tpSrc, .tpDst]

namespace FirewallRule

variable (r : FirewallRule) (switchDpid : SwitchId) (m : OFMatch)

def isIPv4 : Bool := !r.wildcardDlType && r.dlType == typeIPv4

def hasPorts : Bool :=
  r.isIPv4 && !r.wildcardNwProto &&
    (r.nwProto == protocolTCP.signExtend 16 || r.nwProto == protocolUDP.signExtend 16)

/-- The rule asks for something of the field. -/
def tests : Field → Bool
  | .inPort => !r.wildcardInPort
  | .dlSrc => !r.wildcardDlSrc
  | .dlDst => !r.wildcardDlDst
  | .dlType => !r.wildcardDlType
  | .nwSrc => r.isIPv4 && !r.wildcardNwSrc
  | .nwDst => r.isIPv4 && !r.wildcardNwDst
  | .nwProto =>
    r.isIPv4 && !r.wildcardNwProto &&
      (r.nwProto == protocolTCP.signExtend 16 || r.nwProto == protocolUDP.signExtend 16 ||
        r.nwProto == protocolICMP.signExtend 16)
  | .tpSrc => r.hasPorts && r.tpSrc != 0
  | .tpDst => r.hasPorts && r.tpDst != 0

/-- The field is what the rule asks for. -/
def passes : Field → Bool
  | .inPort => r.inPort == m.inputPort
  | .dlSrc => r.dlSrc == m.dataLayerSource.setWidth 64
  | .dlDst => r.dlDst == m.dataLayerDestination.setWidth 64
  | .dlType => r.dlType == m.dataLayerType
  | .nwSrc => matchIPAddress r.nwSrcPrefix r.nwSrcMaskbits m.networkSource
  | .nwDst => matchIPAddress r.nwDstPrefix r.nwDstMaskbits m.networkDestination
  | .nwProto => r.nwProto == m.networkProtocol.signExtend 16
  | .tpSrc => r.tpSrc == m.transportSource
  | .tpDst => r.tpDst == m.transportDestination

/-- The rule has no objection to the field. -/
def admits (f : Field) : Bool := !r.tests f || r.passes m f

/-- The rule is for this switch, and for an ether type that is supported. -/
def applies : Bool :=
  (r.wildcardDpid || r.dpid == switchDpid) &&
    (r.wildcardDlType || r.dlType == typeARP || r.dlType == typeIPv4)

/-- The rule matches a packet with these header fields. -/
def accepts : Bool := r.applies switchDpid && Field.all.all (r.admits m)

end FirewallRule

/-- The payload of a frame is what its headers announce: it has been decoded,
it is no fragment, and the two parsers agree on it. -/
structure Announced (eth : Ethernet) (m : OFMatch) : Prop where
  source : eth.sourceMACAddress = m.dataLayerSource
  destination : eth.destinationMACAddress = m.dataLayerDestination
  etherType : eth.etherType = m.dataLayerType
  ipv4 : eth.etherType = typeIPv4 → ∃ ip, eth.payload = .ipv4 ip ∧
    ip.sourceAddress = m.networkSource ∧ ip.destinationAddress = m.networkDestination ∧
    ip.protocol = m.networkProtocol ∧
    (ip.protocol = protocolTCP →
      ip.payload = .tcp ⟨m.transportSource, m.transportDestination⟩) ∧
    (ip.protocol = protocolUDP →
      ip.payload = .udp ⟨m.transportSource, m.transportDestination⟩)

/-- A packet-in with its header fields, as `loadFromPacket` reads them. -/
structure HasHeaders (pi : PacketIn) (m : OFMatch) : Prop where
  loaded : loadFromPacket pi.packetData.bytes pi.inPort = .ok m
  announced : Announced pi.packetData.eth m

/-! ### The verdict of a rule -/

/-- What the first test that does not pass says. -/
def verdict : List Check → Except JavaException Bool
  | [] => .ok true
  | .test (.error e) :: _ => .error e
  | .test (.ok false) :: _ => .ok false
  | .test (.ok true) :: cs => verdict cs
  | .clear _ :: cs => verdict cs
  | .set _ :: cs => verdict cs

theorem verdict_append {cs ds : List Check} {b c : Bool} (hcs : verdict cs = .ok b)
    (hds : verdict ds = .ok c) : verdict (cs ++ ds) = .ok (b && c) := by
  fun_induction verdict cs with
  | case1 =>
    cases hcs
    exact hds
  | case2 e cs => cases hcs
  | case3 cs =>
    cases hcs
    rfl
  | case4 cs ih | case5 bits cs ih | case6 bits cs ih => exact ih hcs

theorem ite_ok_false (b c : Bool) :
    (if b then .ok c else .ok false : Except JavaException Bool) = .ok (b && c) := by
  cases b <;> rfl

theorem verdict_test (b : Bool) (cs : List Check) :
    verdict (.test (.ok b) :: cs) = if b then verdict cs else .ok false := by
  cases b <;> rfl

theorem runChecks_verdict (a : FirewallAction) (cs : List Check) (w : WildcardsPair) :
    (runChecks a cs w).map Prod.fst = verdict cs := by
  fun_induction runChecks a cs w with
  | case1 w => rfl
  | case2 e cs w => rfl
  | case3 cs w => rfl
  | case4 cs w ih | case5 bits cs w ih | case6 bits cs w ih => exact ih

namespace FirewallRule

variable {r : FirewallRule} {switchDpid : SwitchId} {m : OFMatch} {eth : Ethernet}

theorem verdict_linkChecks (h : Announced eth m) :
    verdict (r.linkChecks switchDpid m.inputPort eth) =
      .ok ((r.wildcardDpid || r.dpid == switchDpid) && r.admits m .inPort &&
        r.admits m .dlSrc && r.admits m .dlDst) := by
  unfold linkChecks
  rw [h.source, h.destination]
  simp only [verdict_test, verdict, ite_ok_false, admits, tests, passes, Bool.not_not,
    Bool.and_true, Bool.and_assoc]

theorem verdict_portChecks (hports : r.hasPorts) :
    verdict (r.portChecks (.ok (m.transportSource, m.transportDestination))) =
      .ok (r.admits m .tpSrc && r.admits m .tpDst) := by
  simp only [portChecks, verdict, verdict_test, ite_ok_false, admits, tests, passes, hports,
    Bool.true_and, Bool.and_true, bne, Bool.not_not]

theorem signExtend_eq_iff (p q : BitVec 8) : p.signExtend 16 = q.signExtend 16 ↔ p = q := by
  refine ⟨fun h => ?_, fun h => h ▸ rfl⟩
  have htoInt := congrArg BitVec.toInt h
  rw [BitVec.toInt_signExtend_of_le (by decide),
    BitVec.toInt_signExtend_of_le (by decide)] at htoInt
  exact BitVec.eq_of_toInt_eq htoInt

theorem admits_nwProto {p : BitVec 8} (hv4 : r.isIPv4) (hwild : ¬ r.wildcardNwProto)
    (hp : r.nwProto = p.signExtend 16)
    (hknown : p = protocolTCP ∨ p = protocolUDP ∨ p = protocolICMP) :
    r.admits m .nwProto = (m.networkProtocol == p) := by
  have htests : r.tests .nwProto := by
    rcases hknown with rfl | rfl | rfl <;> simp [tests, hv4, hwild, hp]
  simp only [admits, htests, passes, hp, Bool.not_true, Bool.false_or]
  rw [Bool.eq_iff_iff, beq_iff_eq, beq_iff_eq, signExtend_eq_iff, eq_comm]

theorem verdict_transport {ip : IPv4} {p : BitVec 8} (hports : r.hasPorts)
    {ports : Except JavaException (BitVec 16 × BitVec 16)}
    (hadmits : r.admits m .nwProto = (ip.protocol == p))
    (hcast : ip.protocol = p → ports = .ok (m.transportSource, m.transportDestination)) :
    verdict (.test (deref (fun ip => ip.protocol == p) (some ip)) :: r.portChecks ports) =
      .ok (r.admits m .nwProto && r.admits m .tpSrc && r.admits m .tpDst) := by
  rw [deref, verdict_test, hadmits]
  by_cases hp : ip.protocol = p
  · rw [hcast hp, verdict_portChecks hports]
    simp [hp]
  · simp [hp]

theorem verdict_protoChecks {ip : IPv4} (hv4 : r.isIPv4) (hproto : ip.protocol = m.networkProtocol)
    (htcp : ip.protocol = protocolTCP →
      ip.payload = .tcp ⟨m.transportSource, m.transportDestination⟩)
    (hudp : ip.protocol = protocolUDP →
      ip.payload = .udp ⟨m.transportSource, m.transportDestination⟩) :
    verdict (r.protoChecks (some ip)) =
      .ok (r.admits m .nwProto && r.admits m .tpSrc && r.admits m .tpDst) := by
  unfold protoChecks
  split_ifs with hwild hT hU hI
  · simp [verdict, admits, tests, hasPorts, hwild]
  · refine verdict_transport (by simp [hasPorts, hv4, hwild, hT]) ?_ fun hp => ?_
    · rw [admits_nwProto hv4 hwild hT (.inl rfl), hproto]
    · show asTCP ip.payload = _
      rw [htcp hp, asTCP]
  · refine verdict_transport (by simp [hasPorts, hv4, hwild, hU]) ?_ fun hp => ?_
    · rw [admits_nwProto hv4 hwild hU (.inr (.inl rfl)), hproto]
    · show asUDP ip.payload = _
      rw [hudp hp, asUDP]
  · have hports : r.hasPorts = false := by simp [hasPorts, hT, hU]
    rw [admits_nwProto hv4 hwild hI (.inr (.inr rfl)), ← hproto]
    simp only [deref, verdict_test, verdict, ite_ok_false, admits, tests, hports, Bool.and_true,
      Bool.false_and, Bool.not_false, Bool.true_or]
  · have hports : r.hasPorts = false := by simp [hasPorts, hT, hU]
    simp [verdict, admits, tests, hports, hT, hU, hI]

theorem verdict_addressChecks (wild : Bool) (rulePrefix ruleBits all address : BitVec 32)
    (shift : ℕ) (cs : List Check) :
    verdict (addressChecks wild rulePrefix ruleBits all shift (.ok address) ++ cs) =
      if wild || matchIPAddress rulePrefix ruleBits address then verdict cs else .ok false := by
  cases wild with
  | true => rfl
  | false => exact verdict_test _ _

theorem verdict_typeChecks (h : Announced eth m) :
    verdict (r.typeChecks eth) =
      .ok ((r.wildcardDlType || r.dlType == typeARP || r.dlType == typeIPv4) &&
        r.admits m .dlType && r.admits m .nwSrc && r.admits m .nwDst &&
        (r.admits m .nwProto && r.admits m .tpSrc && r.admits m .tpDst)) := by
  unfold typeChecks
  split_ifs with hwild hA h4
  · simp [verdict, admits, tests, hasPorts, isIPv4, hwild]
  · have hv4 : r.isIPv4 = false := by
      rw [isIPv4, hA, show (typeARP == typeIPv4) = false by decide, Bool.and_false]
    have htype : r.admits m .dlType = (eth.etherType == typeARP) := by
      simp [admits, tests, passes, hwild, hA, h.etherType, BEq.comm]
    rw [verdict_test, verdict, verdict, ite_ok_false, htype]
    simp [admits, tests, hasPorts, hv4, hA]
  · have hv4 : r.isIPv4 := by simp [isIPv4, hwild, h4]
    have htype : r.admits m .dlType = (eth.etherType == typeIPv4) := by
      simp [admits, tests, passes, hwild, h4, h.etherType, BEq.comm]
    rw [verdict_test, htype]
    by_cases h4' : eth.etherType = typeIPv4
    · obtain ⟨ip, hip, hsrc, hdst, hproto, htcp, hudp⟩ := h.ipv4 h4'
      rw [hip, asIPv4, ipChecks, deref, deref, verdict, List.append_assoc,
        verdict_addressChecks, verdict_addressChecks, verdict_protoChecks hv4 hproto htcp hudp,
        ite_ok_false, ite_ok_false, hsrc, hdst]
      simp [h4', h4, admits, tests, passes, hv4, Bool.and_assoc]
    · simp [h4']
  · simp [verdict, hwild, hA, h4]

/-- On a frame that is what it announces, nothing is thrown and the tests pass
if the rule accepts the header fields. -/
theorem verdict_checks (r : FirewallRule) (switchDpid : SwitchId) (h : Announced eth m) :
    verdict (r.checks switchDpid m.inputPort eth) = .ok (r.accepts switchDpid m) := by
  rw [checks, verdict_append (verdict_append (verdict_linkChecks h) (verdict_typeChecks h)) rfl,
    Except.ok.injEq, Bool.eq_iff_iff]
  simp only [accepts, applies, Field.all, List.all_cons, List.all_nil, Bool.and_eq_true]
  tauto

end FirewallRule

/-- **The first rule that accepts decides.** -/
theorem matchRules_announced {pi : PacketIn} {m : OFMatch} (h : HasHeaders pi m)
    (switchDpid : SwitchId) (rules : List FirewallRule) (w : WildcardsPair) :
    (matchRules switchDpid pi rules w).map Prod.fst =
      .ok (rules.find? fun r => r.accepts switchDpid m) := by
  have hport : m.inputPort = pi.inPort := (loadFromPacket_spec h.loaded).1
  induction rules generalizing w with
  | nil => rfl
  | cons r rules ih =>
    have hverdict := (runChecks_verdict r.action _ w).trans
      (r.verdict_checks switchDpid h.announced)
    rw [hport] at hverdict
    rw [matchRules, List.find?_cons]
    rw [← FirewallRule.matchesFlow] at hverdict
    rcases hr : r.matchesFlow switchDpid pi.inPort pi.packetData.eth w with e | ⟨b, w'⟩
    · rw [hr] at hverdict
      cases hverdict
    · rw [hr] at hverdict
      rw [← Except.ok.inj hverdict]
      cases b with
      | true => rfl
      | false => exact ih w'

end NctuSdn
