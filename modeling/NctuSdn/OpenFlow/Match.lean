/-
OpenFlow 1.0 matches (`org.openflow.protocol.OFMatch`).

A match is a record of header fields with a word of wildcard bits.  Two
matches are the same key of a hash set exactly when all fields agree and so
do all bits of the wildcard word: `equals` looks at the allocated bits only,
but `hashCode` adds in the whole word.  Record equality is that relation.
-/
import Mathlib.Tactic.Common

namespace NctuSdn

@[ext] structure OFMatch where
  wildcards : BitVec 32
  inputPort : BitVec 16
  dataLayerSource : BitVec 48
  dataLayerDestination : BitVec 48
  dataLayerVirtualLan : BitVec 16
  dataLayerVirtualLanPriorityCodePoint : BitVec 8
  dataLayerType : BitVec 16
  networkTypeOfService : BitVec 8
  networkProtocol : BitVec 8
  networkSource : BitVec 32
  networkDestination : BitVec 32
  transportSource : BitVec 16
  transportDestination : BitVec 16
deriving DecidableEq, Repr

/-! ### Wildcard bits -/

def ofpfwAll : BitVec 32 := (1 <<< 22) - 1
def ofpfwInPort : BitVec 32 := 1 <<< 0
def ofpfwDlVlan : BitVec 32 := 1 <<< 1
def ofpfwDlSrc : BitVec 32 := 1 <<< 2
def ofpfwDlDst : BitVec 32 := 1 <<< 3
def ofpfwDlType : BitVec 32 := 1 <<< 4
def ofpfwNwProto : BitVec 32 := 1 <<< 5
def ofpfwTpSrc : BitVec 32 := 1 <<< 6
def ofpfwTpDst : BitVec 32 := 1 <<< 7
def ofpfwNwSrcShift : ℕ := 8
def ofpfwNwSrcMask : BitVec 32 := ((1 <<< 6) - 1) <<< ofpfwNwSrcShift
def ofpfwNwSrcAll : BitVec 32 := 32 <<< ofpfwNwSrcShift
def ofpfwNwDstShift : ℕ := 14
def ofpfwNwDstMask : BitVec 32 := ((1 <<< 6) - 1) <<< ofpfwNwDstShift
def ofpfwNwDstAll : BitVec 32 := 32 <<< ofpfwNwDstShift
def ofpfwDlVlanPcp : BitVec 32 := 1 <<< 20
def ofpfwNwTos : BitVec 32 := 1 <<< 21

/-- The wildcard word has the bits of `c` set. -/
def Wild (w c : BitVec 32) : Prop := w &&& c ≠ 0

instance (w c : BitVec 32) : Decidable (Wild w c) := inferInstanceAs (Decidable (_ ≠ _))

/-! ### Construction -/

/-- `Ethernet.VLAN_UNTAGGED`, and the value `OFP_VLAN_NONE` of the protocol. -/
def vlanUntagged : BitVec 16 := 0xffff

/-- `new OFMatch()`: match everything. -/
def OFMatch.new : OFMatch where
  wildcards := ofpfwAll
  inputPort := 0
  dataLayerSource := 0
  dataLayerDestination := 0
  dataLayerVirtualLan := vlanUntagged
  dataLayerVirtualLanPriorityCodePoint := 0
  dataLayerType := 0
  networkTypeOfService := 0
  networkProtocol := 0
  networkSource := 0
  networkDestination := 0
  transportSource := 0
  transportDestination := 0

def OFMatch.setWildcards (m : OFMatch) (w : BitVec 32) : OFMatch := { m with wildcards := w }

def OFMatch.setInputPort (m : OFMatch) (inPort : BitVec 16) : OFMatch :=
  { m with inputPort := inPort }

/-- The field holds the type of service byte; the getter gives its upper six
bits. -/
def OFMatch.getNetworkTypeOfService (m : OFMatch) : BitVec 8 :=
  m.networkTypeOfService.sshiftRight 2 &&& 0x3f

def OFMatch.setNetworkTypeOfService (m : OFMatch) (tos : BitVec 8) : OFMatch :=
  { m with networkTypeOfService := tos <<< 2 }

/-- `ForwardingBase.wildcard` and `NCTUForward.wildcard`: a copy of the match,
with the hints as its wildcards if there are any. -/
def wildcard (m : OFMatch) (wildcardHints : Option (BitVec 32)) : OFMatch :=
  match wildcardHints with
  | some w => m.setWildcards w
  | none => m

/-! ### Matching -/

/-- A field that is matched entirely or not at all. -/
def FieldMatches {n : ℕ} (w c : BitVec 32) (a b : BitVec n) : Prop := ¬ Wild w c → a = b

/-- An address, of which the number of low bits that `w` has at `shift` is
ignored. -/
def AddressMatches (w : BitVec 32) (shift : ℕ) (a b : BitVec 32) : Prop :=
  a >>> ((w >>> shift) &&& 0x3f).toNat = b >>> ((w >>> shift) &&& 0x3f).toNat

instance {n : ℕ} (w c : BitVec 32) (a b : BitVec n) : Decidable (FieldMatches w c a b) :=
  inferInstanceAs (Decidable (¬ Wild w c → a = b))

instance (w : BitVec 32) (shift : ℕ) (a b : BitVec 32) : Decidable (AddressMatches w shift a b) :=
  inferInstanceAs (Decidable (_ = _))

/-- OpenFlow 1.0 matching: the header fields `pkt` of a packet, in the record
that `loadFromPacket` fills, agree with the entry where it has no wildcard. -/
structure Matches (entry pkt : OFMatch) : Prop where
  inPort : FieldMatches entry.wildcards ofpfwInPort entry.inputPort pkt.inputPort
  dlSrc : FieldMatches entry.wildcards ofpfwDlSrc entry.dataLayerSource pkt.dataLayerSource
  dlDst : FieldMatches entry.wildcards ofpfwDlDst entry.dataLayerDestination
    pkt.dataLayerDestination
  dlVlan : FieldMatches entry.wildcards ofpfwDlVlan entry.dataLayerVirtualLan
    pkt.dataLayerVirtualLan
  dlVlanPcp : FieldMatches entry.wildcards ofpfwDlVlanPcp
    entry.dataLayerVirtualLanPriorityCodePoint pkt.dataLayerVirtualLanPriorityCodePoint
  dlType : FieldMatches entry.wildcards ofpfwDlType entry.dataLayerType pkt.dataLayerType
  nwTos : FieldMatches entry.wildcards ofpfwNwTos entry.networkTypeOfService
    pkt.networkTypeOfService
  nwProto : FieldMatches entry.wildcards ofpfwNwProto entry.networkProtocol pkt.networkProtocol
  nwSrc : AddressMatches entry.wildcards ofpfwNwSrcShift entry.networkSource pkt.networkSource
  nwDst : AddressMatches entry.wildcards ofpfwNwDstShift entry.networkDestination
    pkt.networkDestination
  tpSrc : FieldMatches entry.wildcards ofpfwTpSrc entry.transportSource pkt.transportSource
  tpDst : FieldMatches entry.wildcards ofpfwTpDst entry.transportDestination
    pkt.transportDestination

end NctuSdn
