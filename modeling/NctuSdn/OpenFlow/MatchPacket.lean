/-
Whether a rule covers a packet (`OFMatch.match`).

The fields are compared where the rule has no wildcard.  An address is compared
under a mask made by shifting an `int` by the number of free bits.  If all 32
bits are free the distance of the shift is 0, not 32: the mask has all bits, and
an address that the rule leaves open is compared entirely.  And the type of
service that the rule holds is compared with what the getter of the packet
gives, which is two bits shorter.
-/
import NctuSdn.OpenFlow.Parse

namespace NctuSdn

open BitVec

/-! ### The comparison -/

/-- `getNetworkSourceMaskLen` and `getNetworkDestinationMaskLen`.  What stands
under the mask is not negative, and not below 0 is what a natural number is. -/
def networkMaskLen (wildcards mask : BitVec 32) (shift : ℕ) : ℕ :=
  32 - ((wildcards &&& mask) >>> shift).toNat

/-- `dstmask` and `srcmask`.  The distance of a shift is its low five bits. -/
def networkMask (maskLen : ℕ) : BitVec 32 :=
  ~~~(((1 : BitVec 32) <<< ((32 - maskLen) % 32)) - 1)

def matchNetwork (maskLen : ℕ) (a b : BitVec 32) : Bool :=
  let mask := networkMask maskLen
  (maskLen < 32 || a == b) && (32 ≤ maskLen || a &&& mask == b &&& mask)

def matchField {n : ℕ} (w c : BitVec 32) (a b : BitVec n) : Bool := w &&& c != 0 || a == b

def OFMatch.matchPacket (m toCompare : OFMatch) : Bool :=
  let w := m.wildcards
  matchField w ofpfwInPort m.inputPort toCompare.inputPort &&
  matchField w ofpfwDlDst m.dataLayerDestination toCompare.dataLayerDestination &&
  matchField w ofpfwDlSrc m.dataLayerSource toCompare.dataLayerSource &&
  matchField w ofpfwDlType m.dataLayerType toCompare.dataLayerType &&
  matchField w ofpfwDlVlan m.dataLayerVirtualLan toCompare.dataLayerVirtualLan &&
  matchField w ofpfwDlVlanPcp m.dataLayerVirtualLanPriorityCodePoint
    toCompare.dataLayerVirtualLanPriorityCodePoint &&
  matchField w ofpfwNwProto m.networkProtocol toCompare.networkProtocol &&
  matchField w ofpfwNwTos m.networkTypeOfService toCompare.getNetworkTypeOfService &&
  matchNetwork (networkMaskLen w ofpfwNwDstMask ofpfwNwDstShift) m.networkDestination
    toCompare.networkDestination &&
  matchNetwork (networkMaskLen w ofpfwNwSrcMask ofpfwNwSrcShift) m.networkSource
    toCompare.networkSource &&
  matchField w ofpfwTpDst m.transportDestination toCompare.transportDestination &&
  matchField w ofpfwTpSrc m.transportSource toCompare.transportSource

/-! ### One field -/

theorem matchField_iff {n : ℕ} {w c : BitVec 32} {a b : BitVec n} :
    matchField w c a b = true ↔ FieldMatches w c a b := by
  unfold matchField FieldMatches Wild
  rw [Bool.or_eq_true, bne_iff_ne, beq_iff_eq]
  exact or_iff_not_imp_left

theorem getLsbD_networkMask {k i : ℕ} (hk : 0 < k) (hk' : k < 32) (hi : i < 32) :
    (networkMask (32 - k)).getLsbD i = decide (k ≤ i) := by
  have hdistance : (32 - (32 - k)) % 32 = k := by omega
  have hpow : 2 ^ k < 2 ^ 32 := Nat.pow_lt_pow_right Nat.one_lt_two hk'
  have hpos : 0 < 2 ^ k := Nat.two_pow_pos k
  have hnat : (((1 : BitVec 32) <<< k) - 1).toNat = 2 ^ k - 1 := by
    rw [toNat_sub, toNat_shiftLeft, Nat.shiftLeft_eq]
    show (2 ^ 32 - 1 + 1 * 2 ^ k % 2 ^ 32) % 2 ^ 32 = 2 ^ k - 1
    omega
  rw [networkMask, hdistance, getLsbD_not, BitVec.getLsbD, hnat,
    Nat.testBit_two_pow_sub_one, decide_eq_true hi, Bool.true_and, ← decide_not]
  exact decide_eq_decide.mpr Nat.not_lt

theorem and_networkMask_eq_iff {k : ℕ} (hk : 0 < k) (hk' : k < 32) {a b : BitVec 32} :
    a &&& networkMask (32 - k) = b &&& networkMask (32 - k) ↔ a >>> k = b >>> k := by
  constructor
  · intro h
    refine eq_of_getLsbD_eq fun i _ => ?_
    rw [getLsbD_ushiftRight, getLsbD_ushiftRight]
    by_cases hki : k + i < 32
    · have hbit := congrArg (·.getLsbD (k + i)) h
      simpa [getLsbD_networkMask hk hk' hki] using hbit
    · rw [getLsbD_of_ge _ _ (Nat.le_of_not_lt hki),
        getLsbD_of_ge _ _ (Nat.le_of_not_lt hki)]
  · intro h
    refine eq_of_getLsbD_eq fun i hi => ?_
    rw [getLsbD_and, getLsbD_and, getLsbD_networkMask hk hk' hi]
    by_cases hik : k ≤ i
    · have hbit := congrArg (·.getLsbD (i - k)) h
      simp only [getLsbD_ushiftRight, Nat.add_sub_cancel' hik] at hbit
      rw [hbit]
    · simp [hik]

/-- **One address** is compared as the protocol says, and entirely if none of its
bits is fixed. -/
theorem matchNetwork_iff {w mask : BitVec 32} {shift : ℕ} (hmask : mask >>> shift = 0x3f)
    {a b : BitVec 32} :
    matchNetwork (networkMaskLen w mask shift) a b = true ↔
      AddressMatches w shift a b ∧ (networkMaskLen w mask shift = 0 → a = b) := by
  unfold networkMaskLen AddressMatches matchNetwork
  rw [ushiftRight_and_distrib, hmask]
  generalize ((w >>> shift) &&& 0x3f).toNat = k
  rcases Nat.eq_zero_or_pos k with rfl | hpos
  · -- all bits are fixed
    simp
  · rcases Nat.lt_or_ge k 32 with hk | hk
    · have hlen : 32 - k < 32 := by omega
      have hne : 32 - k ≠ 0 := by omega
      simp [hlen, hne, Nat.not_le.mpr hlen, and_networkMask_eq_iff hpos hk]
    · -- no bit is fixed, and the mask has them all
      have hlen : 32 - k = 0 := by omega
      have hall : ∀ x : BitVec 32, x &&& networkMask 0 = x := by
        intro x
        rw [show networkMask 0 = BitVec.allOnes 32 by decide, and_allOnes]
      simp [hlen, hall, ushiftRight_eq_zero hk]

/-! ### All fields -/

/-- The rule has the packet's address where it leaves the address open. -/
def OFMatch.OpenAddressesEqual (m toCompare : OFMatch) : Prop :=
  (networkMaskLen m.wildcards ofpfwNwDstMask ofpfwNwDstShift = 0 →
      m.networkDestination = toCompare.networkDestination) ∧
    (networkMaskLen m.wildcards ofpfwNwSrcMask ofpfwNwSrcShift = 0 →
      m.networkSource = toCompare.networkSource)

/-- The rule covers the packet, but for the type of service. -/
def OFMatch.MatchesButTos (m toCompare : OFMatch) : Prop :=
  Matches { m with networkTypeOfService := toCompare.networkTypeOfService } toCompare

theorem matches_iff_butTos (m toCompare : OFMatch) :
    Matches m toCompare ↔ m.MatchesButTos toCompare ∧
      FieldMatches m.wildcards ofpfwNwTos m.networkTypeOfService
        toCompare.networkTypeOfService := by
  constructor
  · intro h
    exact ⟨{ h with nwTos := fun _ => rfl }, h.nwTos⟩
  · rintro ⟨h, htos⟩
    exact { h with nwTos := htos }

theorem OFMatch.matchPacket_eq_true_iff (m toCompare : OFMatch) :
    m.matchPacket toCompare = true ↔
      m.MatchesButTos toCompare ∧ m.OpenAddressesEqual toCompare ∧
        FieldMatches m.wildcards ofpfwNwTos m.networkTypeOfService
          toCompare.getNetworkTypeOfService := by
  unfold matchPacket
  simp only [Bool.and_eq_true, matchField_iff]
  rw [matchNetwork_iff (by decide), matchNetwork_iff (by decide)]
  constructor
  · rintro ⟨⟨⟨⟨⟨⟨⟨⟨⟨⟨⟨hport, hdst⟩, hsrc⟩, htype⟩, hvlan⟩, hpcp⟩, hproto⟩, htos⟩,
      hnwDst, hopenDst⟩, hnwSrc, hopenSrc⟩, htpDst⟩, htpSrc⟩
    exact ⟨⟨hport, hsrc, hdst, hvlan, hpcp, htype, fun _ => rfl, hproto, hnwSrc, hnwDst, htpSrc,
      htpDst⟩, ⟨hopenDst, hopenSrc⟩, htos⟩
  · rintro ⟨h, ⟨hopenDst, hopenSrc⟩, htos⟩
    exact ⟨⟨⟨⟨⟨⟨⟨⟨⟨⟨⟨h.inPort, h.dlDst⟩, h.dlSrc⟩, h.dlType⟩, h.dlVlan⟩, h.dlVlanPcp⟩,
      h.nwProto⟩, htos⟩, h.nwDst, hopenDst⟩, h.nwSrc, hopenSrc⟩, h.tpDst⟩, h.tpSrc⟩

/-- The getter gives back what the field holds only if that is zero. -/
theorem OFMatch.getNetworkTypeOfService_eq_iff (m : OFMatch) :
    m.networkTypeOfService = m.getNetworkTypeOfService ↔ m.networkTypeOfService = 0 := by
  unfold getNetworkTypeOfService
  generalize m.networkTypeOfService = tos
  revert tos
  decide

/-- **`match` is OpenFlow matching** exactly under two conditions.  A rule that
covers the packet has its address wherever it leaves the address open, and the
packet has type of service zero unless the rule leaves that open.  And a rule
that differs from the packet in the type of service only does not hold the
shorter form of it, unless an open address differs.  The packet is any record,
so also one that `loadFromPacket` fills. -/
theorem matchPacket_iff_matches_iff (m toCompare : OFMatch) :
    (m.matchPacket toCompare = true ↔ Matches m toCompare) ↔
      (Matches m toCompare → m.OpenAddressesEqual toCompare ∧
        (Wild m.wildcards ofpfwNwTos ∨ toCompare.networkTypeOfService = 0)) ∧
      (m.MatchesButTos toCompare → ¬ Wild m.wildcards ofpfwNwTos →
        m.networkTypeOfService = toCompare.getNetworkTypeOfService →
        m.OpenAddressesEqual toCompare → toCompare.networkTypeOfService = 0) := by
  have hget := toCompare.getNetworkTypeOfService_eq_iff
  rw [m.matchPacket_eq_true_iff, matches_iff_butTos]
  unfold FieldMatches
  by_cases hwild : Wild m.wildcards ofpfwNwTos
  · tauto
  · simp only [hwild, not_false_eq_true, true_imp_iff, false_or]
    constructor
    · intro h
      refine ⟨fun hm => ?_, fun hbut htos hopen => ?_⟩
      · obtain ⟨-, hopen, htos⟩ := h.mpr hm
        exact ⟨hopen, hget.mp (hm.2.symm.trans htos)⟩
      · have hm := h.mp ⟨hbut, hopen, htos⟩
        exact hget.mp (hm.2.symm.trans htos)
    · rintro ⟨hcovers, hshort⟩
      constructor
      · rintro ⟨hbut, hopen, htos⟩
        have hzero := hshort hbut htos hopen
        exact ⟨hbut, htos.trans (hget.mpr hzero).symm⟩
      · intro hm
        obtain ⟨hopen, hzero⟩ := hcovers hm
        exact ⟨hm.1, hopen, hm.2.trans (hget.mpr hzero)⟩

/-- A frame from 10.0.0.1 to 10.0.0.2 with type of service 40. -/
def ipv4Frame : List (BitVec 8) :=
  List.replicate 12 0 ++ [8, 0, 0x45, 0x28] ++ List.replicate 10 0 ++
    [10, 0, 0, 1, 10, 0, 0, 2]

/-- Neither the rule without any condition matches this frame, nor the match
that was made of it. -/
theorem matchPacket_misses :
    ∃ p, loadFromPacket ipv4Frame 1 = .ok p ∧
      (Matches .new p ∧ OFMatch.new.matchPacket p = false) ∧
      Matches p p ∧ p.matchPacket p = false := by
  refine ⟨_, rfl, ⟨?_, by decide⟩, ?_, by decide⟩
  · constructor <;> decide
  · constructor <;> decide

end NctuSdn
