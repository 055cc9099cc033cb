/-
How the bundled switch reads and reports matches (`lib/ofp-util.c`).

A match of a flow-mod becomes a flow and a mask per field
(`ofputil_match_from_ofp10_match`), loses the fields that its lower layers
rule out (`ofputil_normalize_match`), and is encoded again when the entry
expires (`ofputil_match_to_ofp10_match`).  Fields that OpenFlow 1.0 cannot
match on are left out; numbers are in host order.
-/
import NctuSdn.OpenFlow.Parse

namespace NctuSdn

open BitVec

/-! ### Flows and masks -/

/-- The part of `struct flow` that OpenFlow 1.0 can match on. -/
structure OvsFlow where
  inPort : BitVec 16
  dlSrc : BitVec 48
  dlDst : BitVec 48
  dlType : BitVec 16
  vlanTci : BitVec 16
  nwSrc : BitVec 32
  nwDst : BitVec 32
  nwTos : BitVec 8
  nwProto : BitVec 8
  tpSrc : BitVec 16
  tpDst : BitVec 16

/-- `struct match`: a flow and the bits of it that count. -/
structure OvsMatch where
  flow : OvsFlow
  masks : OvsFlow

def OvsMatch.zeroWildcarded (m : OvsMatch) : OvsMatch where
  flow :=
    { inPort := m.flow.inPort &&& m.masks.inPort
      dlSrc := m.flow.dlSrc &&& m.masks.dlSrc
      dlDst := m.flow.dlDst &&& m.masks.dlDst
      dlType := m.flow.dlType &&& m.masks.dlType
      vlanTci := m.flow.vlanTci &&& m.masks.vlanTci
      nwSrc := m.flow.nwSrc &&& m.masks.nwSrc
      nwDst := m.flow.nwDst &&& m.masks.nwDst
      nwTos := m.flow.nwTos &&& m.masks.nwTos
      nwProto := m.flow.nwProto &&& m.masks.nwProto
      tpSrc := m.flow.tpSrc &&& m.masks.tpSrc
      tpDst := m.flow.tpDst &&& m.masks.tpDst }
  masks := m.masks

def vlanVidMask : BitVec 16 := 0x0fff
def vlanPcpMask : BitVec 16 := 0xe000
def vlanCfi : BitVec 16 := 0x1000
def ipDscpMask : BitVec 8 := 0xfc

/-- `ofputil_wcbits_to_netmask`, on the low six bits. -/
def wcbitsToNetmask (wcbits : BitVec 32) : BitVec 32 :=
  let wcbits := wcbits &&& 0x3f
  if wcbits < 32 then ~~~(((1 : BitVec 32) <<< wcbits) - 1) else 0

/-- `ofputil_netmask_to_wcbits`: the number of zeros at the end. -/
def netmaskToWcbits (netmask : BitVec 32) : BitVec 32 := netmask.ctz

/-- A mask for a field that is matched entirely or not at all. -/
def maskUnless {n : ℕ} (ofpfw c : BitVec 32) (mask : BitVec n) : BitVec n :=
  if Wild ofpfw c then 0 else mask

def wildcardFromOfpfw10 (ofpfw : BitVec 32) : OvsFlow where
  inPort := maskUnless ofpfw ofpfwInPort (.allOnes 16)
  dlSrc := maskUnless ofpfw ofpfwDlSrc (.allOnes 48)
  dlDst := maskUnless ofpfw ofpfwDlDst (.allOnes 48)
  dlType := maskUnless ofpfw ofpfwDlType (.allOnes 16)
  vlanTci := maskUnless ofpfw ofpfwDlVlanPcp (vlanPcpMask ||| vlanCfi) |||
    maskUnless ofpfw ofpfwDlVlan (vlanVidMask ||| vlanCfi)
  nwSrc := wcbitsToNetmask (ofpfw >>> ofpfwNwSrcShift)
  nwDst := wcbitsToNetmask (ofpfw >>> ofpfwNwDstShift)
  nwTos := maskUnless ofpfw ofpfwNwTos ipDscpMask
  nwProto := maskUnless ofpfw ofpfwNwProto (.allOnes 8)
  tpSrc := maskUnless ofpfw ofpfwTpSrc (.allOnes 16)
  tpDst := maskUnless ofpfw ofpfwTpDst (.allOnes 16)

/-- The translation of the VLAN fields: flow and mask of the tag. -/
def vlanFromOfp10 (ofpfw : BitVec 32) (dlVlan : BitVec 16) (dlVlanPcp : BitVec 8)
    (mask : BitVec 16) : BitVec 16 × BitVec 16 :=
  if ¬ Wild ofpfw ofpfwDlVlan ∧ dlVlan = vlanUntagged then (0, .allOnes 16)
  else
    let vid := dlVlan &&& vlanVidMask
    let pcp := (dlVlanPcp.setWidth 16 <<< 13) &&& vlanPcpMask
    ((vid ||| pcp ||| vlanCfi) &&& mask, mask)

/-- `ofputil_match_from_ofp10_match`.  `OFP_DL_TYPE_NOT_ETH_TYPE` and the
value that stands for it in a flow are the same number. -/
def matchFromOfp10Match (m : OFMatch) : OvsMatch :=
  let ofpfw := m.wildcards &&& ofpfwAll
  let wc := wildcardFromOfpfw10 ofpfw
  let vlan := vlanFromOfp10 ofpfw m.dataLayerVirtualLan m.dataLayerVirtualLanPriorityCodePoint
    wc.vlanTci
  OvsMatch.zeroWildcarded
    { flow :=
        { inPort := m.inputPort
          dlSrc := m.dataLayerSource
          dlDst := m.dataLayerDestination
          dlType := m.dataLayerType
          vlanTci := vlan.1
          nwSrc := m.networkSource
          nwDst := m.networkDestination
          nwTos := m.networkTypeOfService &&& ipDscpMask
          nwProto := m.networkProtocol
          tpSrc := m.transportSource
          tpDst := m.transportDestination }
      masks := { wc with vlanTci := vlan.2 } }

/-! ### Normalisation -/

/-- The fields that may be matched on, given the type and protocol. -/
structure MayMatch where
  nwAddr : Bool
  tpAddr : Bool
  nwProto : Bool
  ipvx : Bool

/-- The protocols with ports: TCP, UDP, SCTP, and ICMP of the IP version. -/
def hasPorts (nwProto icmp : BitVec 8) : Bool :=
  nwProto == 6 || nwProto == 17 || nwProto == 132 || nwProto == icmp

/-- The first half of `ofputil_normalize_match__`. -/
def mayMatch (flow : OvsFlow) : MayMatch :=
  if flow.dlType = 0x0800 then ⟨true, hasPorts flow.nwProto 1, true, true⟩
  else if flow.dlType = 0x86dd then ⟨false, hasPorts flow.nwProto 58, true, true⟩
  else if flow.dlType = 0x0806 ∨ flow.dlType = 0x8035 then ⟨true, false, true, false⟩
  else ⟨false, false, false, false⟩

def normalizeMatch (m : OvsMatch) : OvsMatch :=
  let may := mayMatch m.flow
  OvsMatch.zeroWildcarded
    { m with masks :=
        { m.masks with
          nwSrc := if may.nwAddr then m.masks.nwSrc else 0
          nwDst := if may.nwAddr then m.masks.nwDst else 0
          tpSrc := if may.tpAddr then m.masks.tpSrc else 0
          tpDst := if may.tpAddr then m.masks.tpDst else 0
          nwProto := if may.nwProto then m.masks.nwProto else 0
          nwTos := if may.ipvx then m.masks.nwTos else 0 } }

/-! ### Encoding -/

/-- Set the bits `c` if nothing of the field is matched. -/
def wildIfZero {n : ℕ} (mask : BitVec n) (c : BitVec 32) : BitVec 32 := if mask = 0 then c else 0

/-- The VLAN fields of an encoded match: wildcards, id and priority. -/
def vlanToOfp10 (tci mask : BitVec 16) : BitVec 32 × BitVec 16 × BitVec 8 :=
  if mask = 0 then (ofpfwDlVlan ||| ofpfwDlVlanPcp, 0, 0)
  else if mask &&& vlanCfi ≠ 0 ∧ tci &&& vlanCfi = 0 then (ofpfwDlVlanPcp, vlanUntagged, 0)
  else
    (wildIfZero (mask &&& vlanVidMask) ofpfwDlVlan |||
        wildIfZero (mask &&& vlanPcpMask) ofpfwDlVlanPcp,
      if mask &&& vlanVidMask = 0 then 0 else tci &&& vlanVidMask,
      if mask &&& vlanPcpMask = 0 then 0 else ((tci &&& vlanPcpMask) >>> 13).setWidth 8)

def matchToOfp10Match (m : OvsMatch) : OFMatch :=
  let vlan := vlanToOfp10 m.flow.vlanTci m.masks.vlanTci
  { wildcards :=
      wildIfZero m.masks.inPort ofpfwInPort ||| wildIfZero m.masks.dlType ofpfwDlType |||
      wildIfZero m.masks.nwProto ofpfwNwProto |||
      (netmaskToWcbits m.masks.nwSrc <<< ofpfwNwSrcShift) |||
      (netmaskToWcbits m.masks.nwDst <<< ofpfwNwDstShift) |||
      wildIfZero (m.masks.nwTos &&& ipDscpMask) ofpfwNwTos |||
      wildIfZero m.masks.tpSrc ofpfwTpSrc ||| wildIfZero m.masks.tpDst ofpfwTpDst |||
      wildIfZero m.masks.dlSrc ofpfwDlSrc ||| wildIfZero m.masks.dlDst ofpfwDlDst ||| vlan.1
    inputPort := m.flow.inPort
    dataLayerSource := m.flow.dlSrc
    dataLayerDestination := m.flow.dlDst
    dataLayerVirtualLan := vlan.2.1
    dataLayerVirtualLanPriorityCodePoint := vlan.2.2
    dataLayerType := m.flow.dlType
    networkTypeOfService := m.flow.nwTos &&& ipDscpMask
    networkProtocol := m.flow.nwProto
    networkSource := m.flow.nwSrc
    networkDestination := m.flow.nwDst
    transportSource := m.flow.tpSrc
    transportDestination := m.flow.tpDst }

/-- The match in the FLOW_REMOVED of an entry that was installed with `m`. -/
def reported (m : OFMatch) : OFMatch :=
  matchToOfp10Match (normalizeMatch (matchFromOfp10Match m))

/-! ### What a round trip keeps -/

theorem wild_and_all {w c : BitVec 32} (hc : ofpfwAll &&& c = c) :
    Wild (w &&& ofpfwAll) c ↔ Wild w c := by
  unfold Wild
  rw [BitVec.and_assoc, hc]

theorem and_and_self {n : ℕ} (x mask : BitVec n) : x &&& mask &&& mask = x &&& mask := by
  rw [BitVec.and_assoc, BitVec.and_self]

theorem and_vlanVidMask {v : BitVec 16} (h : v.toNat < 4096) : v &&& vlanVidMask = v := by
  apply eq_of_toNat_eq
  rw [toNat_and]
  exact (Nat.and_two_pow_sub_one_eq_mod v.toNat 12).trans (Nat.mod_eq_of_lt h)

theorem pcp_roundTrip {p : BitVec 8} (h : p.toNat < 8) :
    ((p.setWidth 16 <<< 13 &&& vlanPcpMask) >>> 13).setWidth 8 = p := by
  revert p
  decide +kernel

theorem or_and_distrib {n : ℕ} (x y z : BitVec n) : (x ||| y) &&& z = x &&& z ||| y &&& z := by
  ext i
  simp [Bool.and_or_distrib_right]

theorem tag_parts (v p : BitVec 16) :
    let tci := v &&& vlanVidMask ||| p &&& vlanPcpMask ||| vlanCfi
    tci &&& vlanVidMask = v &&& vlanVidMask ∧ tci &&& vlanPcpMask = p &&& vlanPcpMask ∧
      tci &&& vlanCfi = vlanCfi := by
  have hvp : vlanVidMask &&& vlanPcpMask = 0 := by decide
  have hpv : vlanPcpMask &&& vlanVidMask = 0 := by decide
  have hcv : vlanCfi &&& vlanVidMask = 0 := by decide
  have hcp : vlanCfi &&& vlanPcpMask = 0 := by decide
  have hvc : vlanVidMask &&& vlanCfi = 0 := by decide
  have hpc : vlanPcpMask &&& vlanCfi = 0 := by decide
  simp [or_and_distrib, BitVec.and_assoc, hvp, hpv, hcv, hcp, hvc, hpc]

/-- The mask of the tag has the parts that are not wildcarded, and the CFI bit
if there are any. -/
theorem vlanMask_parts (w : BitVec 32) :
    let mask := (wildcardFromOfpfw10 w).vlanTci
    (mask &&& vlanVidMask = if Wild w ofpfwDlVlan then 0 else vlanVidMask) ∧
    (mask &&& vlanPcpMask = if Wild w ofpfwDlVlanPcp then 0 else vlanPcpMask) ∧
    (mask ≠ 0 → mask &&& vlanCfi = vlanCfi) := by
  have hmask : (wildcardFromOfpfw10 w).vlanTci =
      (if Wild w ofpfwDlVlanPcp then 0 else vlanPcpMask ||| vlanCfi) |||
        (if Wild w ofpfwDlVlan then 0 else vlanVidMask ||| vlanCfi) := rfl
  rw [hmask]
  by_cases hV : Wild w ofpfwDlVlan
  · by_cases hP : Wild w ofpfwDlVlanPcp
    · simp only [hV, hP, if_true]
      decide
    · simp only [hV, hP, if_true, if_false]
      decide
  · by_cases hP : Wild w ofpfwDlVlanPcp
    · simp only [hV, hP, if_true, if_false]
      decide
    · simp only [hV, hP, if_false]
      decide

theorem vlanToOfp10_of_cfi {tci mask : BitVec 16} (h : mask ≠ 0 → tci &&& vlanCfi ≠ 0) :
    (vlanToOfp10 tci mask).2 =
      (if mask &&& vlanVidMask = 0 then 0 else tci &&& vlanVidMask,
        if mask &&& vlanPcpMask = 0 then (0 : BitVec 8)
        else BitVec.setWidth 8 ((tci &&& vlanPcpMask) >>> 13)) := by
  unfold vlanToOfp10
  split
  next hzero =>
    rw [hzero]
    rfl
  next hne =>
    rw [if_neg fun hc => h hne hc.2]

/-- The VLAN fields come back unless they are wildcarded; the priority of an
untagged frame is zero either way. -/
theorem vlan_roundTrip {w : BitVec 32} {v : BitVec 16} {p : BitVec 8}
    (h : (v = vlanUntagged ∧ p = 0) ∨ (v.toNat < 4096 ∧ p.toNat < 8)) :
    let t := vlanFromOfp10 w v p (wildcardFromOfpfw10 w).vlanTci
    (vlanToOfp10 (t.1 &&& t.2 &&& t.2) t.2).2 =
      (if Wild w ofpfwDlVlan then 0 else v, if Wild w ofpfwDlVlanPcp then 0 else p) := by
  obtain ⟨hmaskV, hmaskP, hmaskC⟩ := vlanMask_parts w
  unfold vlanFromOfp10
  split
  next hnone =>
    -- only untagged frames: priority zero
    have hp : p = 0 := by
      obtain ⟨-, hp⟩ | ⟨hv, -⟩ := h
      · exact hp
      · rw [hnone.2] at hv
        exact absurd hv (by decide)
    rw [if_neg hnone.1, hnone.2, hp, ite_self]
    decide
  next hsome =>
    obtain ⟨hvid, hpcp, hcfi⟩ := tag_parts v (p.setWidth 16 <<< 13)
    dsimp only at hvid hpcp hcfi ⊢
    rw [and_and_self, and_and_self, vlanToOfp10_of_cfi]
    · have hp : p.toNat < 8 := by
        obtain ⟨-, rfl⟩ | ⟨-, hp⟩ := h
        · decide
        · exact hp
      have hv : ¬ Wild w ofpfwDlVlan → v.toNat < 4096 := fun hV => by
        obtain ⟨hnone, -⟩ | ⟨hv, -⟩ := h
        · exact absurd ⟨hV, hnone⟩ hsome
        · exact hv
      rw [BitVec.and_assoc, BitVec.and_assoc, hmaskV, hmaskP]
      congr 1
      · split
        next => rfl
        next hV => rw [if_neg (by decide), hvid, and_vlanVidMask (hv hV)]
      · split
        next => rfl
        next => rw [if_neg (by decide), hpcp, pcp_roundTrip hp]
    · intro hne
      rw [BitVec.and_assoc, hmaskC hne, hcfi]
      decide

theorem and_and_maskUnless {n : ℕ} (x : BitVec n) {w c : BitVec 32} (hc : ofpfwAll &&& c = c) :
    x &&& maskUnless (w &&& ofpfwAll) c (.allOnes n) &&&
        maskUnless (w &&& ofpfwAll) c (.allOnes n) =
      if Wild w c then 0 else x := by
  rw [and_and_self]
  unfold maskUnless
  rw [if_congr (wild_and_all hc) rfl rfl]
  split
  · exact and_zero
  · exact and_allOnes

/-- **Ports, addresses and type** come back unless they are wildcarded, and so
do the VLAN fields of a frame. -/
theorem reported_dataLayer {m : OFMatch} (h : WellTagged m) :
    let w := m.wildcards
    (reported m).inputPort = (if Wild w ofpfwInPort then 0 else m.inputPort) ∧
    (reported m).dataLayerSource = (if Wild w ofpfwDlSrc then 0 else m.dataLayerSource) ∧
    (reported m).dataLayerDestination =
      (if Wild w ofpfwDlDst then 0 else m.dataLayerDestination) ∧
    (reported m).dataLayerType = (if Wild w ofpfwDlType then 0 else m.dataLayerType) ∧
    (reported m).dataLayerVirtualLan =
      (if Wild w ofpfwDlVlan then 0 else m.dataLayerVirtualLan) ∧
    (reported m).dataLayerVirtualLanPriorityCodePoint =
      (if Wild w ofpfwDlVlanPcp then 0 else m.dataLayerVirtualLanPriorityCodePoint) := by
  have hvlan := vlan_roundTrip (w := m.wildcards &&& ofpfwAll) h
  rw [if_congr (wild_and_all (by decide)) rfl rfl, if_congr (wild_and_all (by decide)) rfl rfl]
    at hvlan
  exact ⟨and_and_maskUnless _ (by decide), and_and_maskUnless _ (by decide),
    and_and_maskUnless _ (by decide), and_and_maskUnless _ (by decide),
    congrArg Prod.fst hvlan, congrArg Prod.snd hvlan⟩

theorem reported_upper_eq_zero {m : OFMatch} (h : (reported m).dataLayerType = 0) :
    (reported m).networkTypeOfService = 0 ∧ (reported m).networkProtocol = 0 ∧
    (reported m).networkSource = 0 ∧ (reported m).networkDestination = 0 ∧
    (reported m).transportSource = 0 ∧ (reported m).transportDestination = 0 := by
  have htype : (matchFromOfp10Match m).flow.dlType = 0 := by
    rw [← h]
    exact (and_and_self _ _).symm
  have hmay : mayMatch (matchFromOfp10Match m).flow = ⟨false, false, false, false⟩ := by
    unfold mayMatch
    rw [htype]
    rfl
  unfold reported normalizeMatch
  rw [hmay]
  refine ⟨?_, and_zero, and_zero, and_zero, and_zero,
    and_zero⟩
  -- the type of service is masked once more on the way out
  simp [matchToOfp10Match, OvsMatch.zeroWildcarded]

end NctuSdn
