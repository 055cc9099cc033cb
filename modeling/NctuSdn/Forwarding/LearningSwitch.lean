/-
The learning switch (`LearningSwitch`).

A packet to a learned address installs two entries, one for each direction.
When either of them is removed, its source is forgotten and the other entry is
deleted.  The deletion does not name the input port, and selects the entry by
its output port instead.
-/
import NctuSdn.Forwarding.NctuForward
import NctuSdn.OpenFlow.FlowTable

namespace NctuSdn.LearningSwitch

/-! ### The learned table -/

abbrev MacVlanPair := BitVec 48 × BitVec 16

/-- What was learned for each switch, in the order of the last access; a switch that is not in
the map has learned nothing. -/
abbrev PortMap := SwitchId → List (MacVlanPair × Port)

def maxMacsPerSwitch : ℕ := 1000

/-- The pair that an address is learned for: no tag counts as VLAN 0. -/
def pairOf (mac : BitVec 48) (vlan : BitVec 16) : MacVlanPair :=
  (mac, if vlan = vlanUntagged then 0 else vlan)

def addToPortMap (map : PortMap) (sw : SwitchId) (mac : BitVec 48) (vlan : BitVec 16)
    (portVal : Port) : PortMap :=
  let pair := pairOf mac vlan
  let entries := (map sw).filter (·.1 ≠ pair) ++ [(pair, portVal)]
  Function.update map sw (if maxMacsPerSwitch < entries.length then entries.tail else entries)

def removeFromPortMap (map : PortMap) (sw : SwitchId) (mac : BitVec 48) (vlan : BitVec 16) :
    PortMap :=
  Function.update map sw ((map sw).filter (·.1 ≠ pairOf mac vlan))

/-- `getFromPortMap`; what is found moves to the end. -/
def getFromPortMap (map : PortMap) (sw : SwitchId) (mac : BitVec 48) (vlan : BitVec 16) :
    Option Port × PortMap :=
  match (map sw).find? (·.1 = pairOf mac vlan) with
  | none => (none, map)
  | some entry => (some entry.2, addToPortMap map sw mac vlan entry.2)

/-! ### Messages -/

/-- What is written to the switch; a packet out has the data of the packet. -/
inductive Message
  | packetOut (action : OFAction)
  | flowMod (m : OFFlowMod)

def learningSwitchCookie : BitVec 64 := 1 <<< 52

def writeFlowMod (command : BitVec 16) (bufferId : BitVec 32) (m : OFMatch) (outPort : Port) :
    OFFlowMod where
  xid := 0
  ofMatch := m
  cookie := learningSwitchCookie
  command := command
  idleTimeout := 5
  hardTimeout := 0
  priority := 100
  bufferId := bufferId
  outPort := if command = ofpfcDelete then outPort else ofppNone
  flags := if command = ofpfcDelete then 0 else ofpffSendFlowRem
  actions := [.output outPort 0xffff]

/-- The copy of a match with sources and destinations exchanged. -/
def swapped (m : OFMatch) : OFMatch :=
  { m with
    dataLayerSource := m.dataLayerDestination
    dataLayerDestination := m.dataLayerSource
    networkSource := m.networkDestination
    networkDestination := m.networkSource
    transportSource := m.transportDestination
    transportDestination := m.transportSource }

/-- The match of a deletion; `fastWildcards` is the attribute of the switch. -/
def deletionMatch (fastWildcards : BitVec 32) (m : OFMatch) : OFMatch :=
  m.setWildcards (fastWildcards &&& ~~~ofpfwDlVlan &&& ~~~ofpfwDlSrc &&& ~~~ofpfwDlDst &&&
    ~~~ofpfwNwSrcMask &&& ~~~ofpfwNwDstMask)

def entryMatch (fastWildcards : BitVec 32) : OFMatch → OFMatch :=
  deletionMatch (fastWildcards &&& ~~~ofpfwInPort)

def processPacketInMessage (fastWildcards : BitVec 32) (map : PortMap) (sw : SwitchId)
    (packetData : List (BitVec 8)) (inPort : Port) :
    Except JavaException (PortMap × List Message) := do
  let m ← loadFromPacket packetData inPort
  let vlan := m.dataLayerVirtualLan
  if m.dataLayerDestination &&& 0xfffffffffff0 = 0x0180c2000000 then return (map, [])
  let map :=
    if m.dataLayerSource &&& 0x010000000000 = 0 then
      addToPortMap map sw m.dataLayerSource vlan inPort
    else map
  match getFromPortMap map sw m.dataLayerDestination vlan with
  | (none, map) => return (map, [.packetOut (.output ofppFlood 0)])
  | (some outPort, map) =>
    if outPort = m.inputPort then return (map, [])
    let m := entryMatch fastWildcards m
    return (map,
      [.packetOut (.output outPort 0xffff),
        .flowMod (writeFlowMod ofpfcAdd (-1) m outPort),
        .flowMod (writeFlowMod ofpfcAdd (-1) ((swapped m).setInputPort outPort) m.inputPort)])

def processFlowRemovedMessage (fastWildcards : BitVec 32) (map : PortMap) (sw : SwitchId)
    (cookie : BitVec 64) (m : OFMatch) : PortMap × List OFFlowMod :=
  if cookie ≠ learningSwitchCookie then (map, [])
  else
    (removeFromPortMap map sw m.dataLayerSource m.dataLayerVirtualLan,
      [writeFlowMod ofpfcDelete (-1) (swapped (deletionMatch fastWildcards m))
        m.inputPort])

/-! ### Entries in pairs -/

theorem getFromPortMap_removeFromPortMap (map : PortMap) (sw : SwitchId) (mac : BitVec 48)
    (vlan : BitVec 16) :
    (getFromPortMap (removeFromPortMap map sw mac vlan) sw mac vlan).1 = none := by
  have hnone : (removeFromPortMap map sw mac vlan sw).find? (·.1 = pairOf mac vlan) = none := by
    rw [removeFromPortMap, Function.update_self, List.find?_eq_none]
    intro entry hentry
    simpa using (List.mem_filter.mp hentry).2
  rw [getFromPortMap, hnone]

/-- The rule has the match and the actions of the message. -/
def IsEntry (m : OFFlowMod) (r : FlowRule) : Prop :=
  r.ofMatch = normalizeMatch (matchFromOfp10Match m.ofMatch) ∧ r.actions = m.actions

/-- The match without its input port. -/
def withoutInPort (m : OvsMatch) : OvsMatch :=
  ⟨{ m.flow with inPort := 0#16 }, { m.masks with inPort := 0#16 }⟩

theorem normalizeMatch_withoutInPort (m : OvsMatch) :
    normalizeMatch (withoutInPort m) = withoutInPort (normalizeMatch m) := by
  have hmay : mayMatch (withoutInPort m).flow = mayMatch m.flow := rfl
  simp only [normalizeMatch, hmay]
  simp [withoutInPort, OvsMatch.zeroWildcarded]

theorem normalizeMatch_deletion (m : OFMatch) (inPort : Port) :
    normalizeMatch (matchFromOfp10Match (deletionMatch ofpfwAll m)) =
      withoutInPort (normalizeMatch
        (matchFromOfp10Match ((entryMatch ofpfwAll m).setInputPort inPort))) := by
  have hdeletion : (deletionMatch ofpfwAll m).wildcards &&& ofpfwAll = 0x3000f1 := by
    dsimp only [deletionMatch, OFMatch.setWildcards]
    decide
  have hentry : (entryMatch ofpfwAll m).wildcards &&& ofpfwAll = 0x3000f0 := by
    dsimp only [entryMatch, deletionMatch, OFMatch.setWildcards]
    decide
  have hwild : wildcardFromOfpfw10 0x3000f1 =
      { wildcardFromOfpfw10 0x3000f0 with inPort := 0#16 } := by decide
  have hvlan (v p mask) : vlanFromOfp10 0x3000f1 v p mask = vlanFromOfp10 0x3000f0 v p mask := rfl
  have hfrom : matchFromOfp10Match (deletionMatch ofpfwAll m) = withoutInPort
      (matchFromOfp10Match ((entryMatch ofpfwAll m).setInputPort inPort)) := by
    simp only [matchFromOfp10Match, hdeletion, hwild, hvlan, OFMatch.setInputPort, hentry,
      withoutInPort, OvsMatch.zeroWildcarded, BitVec.and_zero]
    rfl
  rw [hfrom, normalizeMatch_withoutInPort]

theorem looseMatch_withoutInPort {criteria r : FlowRule}
    (h : criteria.ofMatch = withoutInPort r.ofMatch) : criteria.looseMatch r = true := by
  refine decide_eq_true ?_
  rw [h]
  simp [withoutInPort, OvsFlow.inMask]

def anyActions (_ : List OFAction) (_ : OvsMatch) : Bool := true

theorem not_isEntry_of_delete {t : Finset FlowRule} {m : OFMatch} {port inPort : Port}
    {other : OFFlowMod} {r : FlowRule} (hr : r ∈ applyFlowMod anyActions t
      (writeFlowMod ofpfcDelete (-1) (deletionMatch ofpfwAll m) port))
    (hmatch : other.ofMatch = (entryMatch ofpfwAll m).setInputPort inPort)
    (hactions : other.actions = [.output port 0xffff]) : ¬ IsEntry other r := by
  rintro ⟨hofMatch, houtput⟩
  obtain ⟨criteria, hcriteria, hkept⟩ := kept_of_mem_delete hr rfl rfl fun _ => rfl
  have hloose : criteria.ofMatch = withoutInPort r.ofMatch := by
    rw [hcriteria, hofMatch, hmatch]
    exact normalizeMatch_deletion m inPort
  rw [looseMatch_withoutInPort hloose] at hkept
  simp [FlowRule.hasOutPort, OFAction.outputsToPort, houtput, hactions, writeFlowMod] at hkept

theorem exists_of_processPacketInMessage {map map' : PortMap} {sw : SwitchId}
    {packetData : List (BitVec 8)} {inPort : Port} {action : OFAction} {forward reverse : OFFlowMod}
    (h : processPacketInMessage ofpfwAll map sw packetData inPort =
      .ok (map', [.packetOut action, .flowMod forward, .flowMod reverse])) :
    ∃ m outPort, forward = writeFlowMod ofpfcAdd (-1) (entryMatch ofpfwAll m) outPort ∧
      reverse = writeFlowMod ofpfcAdd (-1)
        ((entryMatch ofpfwAll (swapped m)).setInputPort outPort) m.inputPort := by
  obtain ⟨m, -, h⟩ := exists_of_bind_eq_ok h
  dsimp only at h
  split at h
  · cases h
  · split at h
    · cases h
    · split at h
      · cases h
      · cases h
        exact ⟨m, _, rfl, rfl⟩

/-- **Learned entries die in pairs**: of the two entries that a packet-in writes, the message
that one has been removed deletes the other from every table, and the address it was learned
for is forgotten. -/
theorem learned_entries_die_in_pairs {map map' : PortMap} {sw : SwitchId}
    {packetData : List (BitVec 8)} {inPort : Port} {action : OFAction}
    {forward reverse removed other : OFFlowMod}
    (h : processPacketInMessage ofpfwAll map sw packetData inPort =
      .ok (map', [.packetOut action, .flowMod forward, .flowMod reverse]))
    (hpair : (removed, other) = (forward, reverse) ∨ (removed, other) = (reverse, forward))
    (later : PortMap) (t : Finset FlowRule) :
    let handled := processFlowRemovedMessage ofpfwAll later sw removed.cookie removed.ofMatch
    (∀ r ∈ handled.2.foldl (applyFlowMod anyActions) t, ¬ IsEntry other r) ∧
      (getFromPortMap handled.1 sw removed.ofMatch.dataLayerSource
        removed.ofMatch.dataLayerVirtualLan).1 = none := by
  obtain ⟨m, outPort, rfl, rfl⟩ := exists_of_processPacketInMessage h
  refine ⟨fun r hr => ?_, ?_⟩
  · rcases hpair with hpair | hpair
    · cases hpair
      exact not_isEntry_of_delete (m := swapped m) hr rfl rfl
    · cases hpair
      exact not_isEntry_of_delete (m := m.setInputPort outPort) hr rfl rfl
  · rcases hpair with hpair | hpair
    · cases hpair
      exact getFromPortMap_removeFromPortMap ..
    · cases hpair
      exact getFromPortMap_removeFromPortMap ..

theorem entries_of_frame_die :
    ∃ map forward reverse,
      processPacketInMessage ofpfwAll (fun _ => [((2, 0), 2)]) 1
          [0, 0, 0, 0, 0, 2, 0, 0, 0, 0, 0, 1, 0x88, 0xb5] 1 =
        .ok (map, [.packetOut (.output 2 0xffff), .flowMod forward, .flowMod reverse]) ∧
      ∀ r ∈ (processFlowRemovedMessage ofpfwAll map 1 forward.cookie forward.ofMatch).2.foldl
        (applyFlowMod anyActions) (applyFlowMod anyActions ∅ reverse), ¬ IsEntry reverse r := by
  have hpair {m f r} (h : processPacketInMessage ofpfwAll (fun _ => [((2, 0), 2)]) 1
      [0, 0, 0, 0, 0, 2, 0, 0, 0, 0, 0, 1, 0x88, 0xb5] 1 =
        .ok (m, [.packetOut (.output 2 0xffff), .flowMod f, .flowMod r])) :=
    (learned_entries_die_in_pairs h (.inl rfl) m (applyFlowMod anyActions ∅ r)).1
  exact ⟨_, _, _, rfl, hpair rfl⟩

end NctuSdn.LearningSwitch
