/-
The bytes of a redirected packet (`NCTUForward.receive`).

The data of a packet-in are read, the destination address is changed to the
target, `resetChecksum` is called on the IPv4 packet, and the frame is written
back.  `resetChecksum` goes to the packets around the IPv4 packet, not to the
datagram in it: the UDP checksum, whose pseudo header has the old destination, is
kept, unless the payload is DHCP, which resets it.

Whether checksums verify is said of bytes (`HeaderVerifies`, `DatagramVerifies`).
-/
import NctuSdn.Packet.Deserialization

namespace NctuSdn

open List

/-! ### The redirect -/

def redirectedPort : BitVec 16 := 5134

/-- The data that `receive` puts into a packet-in from the first attachment point
of its source; none if the packet is not redirected. -/
def redirectedData (targetIP : BitVec 32) (dstMAC : BitVec 48) (data : List (BitVec 8)) :
    Except PacketException (Option (List (BitVec 8))) := do
  match ← EthernetObject.deserialize data with
  | none => return none
  | some eth =>
    if eth.etherType ≠ typeIPv4 then return none
    match eth.content with
    | .data _ | .other _ => throw .classCast
    | .ipv4 ipPkt =>
      if ipPkt.header.protocol ≠ 0x11 then return none
      match ipPkt.content with
      | .other => throw .classCast
      | .udp udpPkt =>
        if udpPkt.destinationPort ≠ redirectedPort then return none
        let header := { ipPkt.header with destinationAddress := targetIP, checksum := 0 }
        let payloadData ← IPv4Object.serialize header udpPkt
        let eth := { eth with destinationMACAddress := UDPFrame.macBytes dstMAC }
        return some (eth.serialize payloadData)

/-! ### Checksums of bytes -/

/-- What is behind the Ethernet header, with or without a VLAN tag. -/
def networkLayer (bytes : List (BitVec 8)) : List (BitVec 8) :=
  if (bytes.drop 12).take 2 = shortBytes 0x8100 then bytes.drop 18 else bytes.drop 14

def ipHeaderLength (ip : List (BitVec 8)) : ℕ := 4 * (ip.headD 0 &&& 0xf).toNat

/-- The payload of the IPv4 packet, up to its total length. -/
def ipPayload (ip : List (BitVec 8)) : List (BitVec 8) :=
  (ip.take (sum16 ((ip.drop 2).take 2))).drop (ipHeaderLength ip)

def HeaderVerifies (ip : List (BitVec 8)) : Prop :=
  endAround (sum16 (ip.take (ipHeaderLength ip))) = 65535

/-- The UDP checksum verifies for the addresses and the protocol of the header. -/
def DatagramVerifies (ip : List (BitVec 8)) : Prop :=
  endAround (sum16 ((ip.drop 12).take 8 ++ [0] ++ (ip.drop 9).take 1 ++
    shortBytes (BitVec.ofNat 16 (ipPayload ip).length) ++ ipPayload ip)) = 65535

namespace UDPFrame

variable (f : UDPFrame)

section

variable (n : ℕ) (checksum : BitVec 16) (destinationAddress : BitVec 32)

theorem length_headerBytes :
    (f.headerBytes n checksum destinationAddress).length = 20 + f.options.length := by
  unfold headerBytes
  simp only [length_append, length_shortBytes, length_intBytes, length_cons,
    length_nil]

theorem ipHeaderLength_headerBytes (bb : List (BitVec 8)) :
    ipHeaderLength (f.headerBytes n checksum destinationAddress ++ bb) =
      20 + f.options.length := by
  have hwords := f.options_words
  have hlength := f.options_length
  obtain ⟨hfirst, -⟩ := @first_byte (5 + f.options.length / 4) (by omega)
  have hhead : (f.headerBytes n checksum destinationAddress ++ bb).headD 0 =
      BitVec.ofNat 8 (0x40 + (5 + f.options.length / 4)) := rfl
  rw [ipHeaderLength, hhead, hfirst, BitVec.toNat_ofNat]
  omega

theorem headerVerifies_iff (bb : List (BitVec 8)) :
    HeaderVerifies (f.headerBytes n checksum destinationAddress ++ bb) ↔
      endAround (sum16 (f.headerBytes n checksum destinationAddress)) = 65535 := by
  rw [HeaderVerifies, ipHeaderLength_headerBytes, ← f.length_headerBytes n checksum
    destinationAddress, take_left]

end

section

variable {payload : List (BitVec 8)} (hlength : 20 + f.options.length + payload.length ≤ 65535)
  (checksum : BitVec 16) (destinationAddress : BitVec 32) (bb : List (BitVec 8))
include hlength

theorem ipPayload_headerBytes :
    ipPayload (f.headerBytes payload.length checksum destinationAddress ++ (payload ++ bb)) =
      payload := by
  have htotal : sum16 (((f.headerBytes payload.length checksum destinationAddress ++
      (payload ++ bb)).drop 2).take 2) =
        (f.headerBytes payload.length checksum destinationAddress ++ payload).length := by
    have htake : ((f.headerBytes payload.length checksum destinationAddress ++
        (payload ++ bb)).drop 2).take 2 =
          shortBytes (BitVec.ofNat 16 (20 + f.options.length + payload.length)) := rfl
    rw [htake, sum16_shortBytes, BitVec.toNat_ofNat, length_append, length_headerBytes]
    omega
  rw [ipPayload, htotal, ipHeaderLength_headerBytes, ← append_assoc, take_left,
    ← f.length_headerBytes payload.length checksum destinationAddress, drop_left]

theorem datagramVerifies_iff :
    DatagramVerifies
        (f.headerBytes payload.length checksum destinationAddress ++ (payload ++ bb)) ↔
      endAround (sum16 (pseudoHeaderBytes f.sourceAddress destinationAddress 0x11
        (BitVec.ofNat 16 payload.length) ++ payload)) = 65535 := by
  rw [DatagramVerifies, ipPayload_headerBytes f hlength]
  rfl

end

/-! ### What is written -/

def redirected (targetIP : BitVec 32) (payload : List (BitVec 8)) : IPv4Packet :=
  { f.header with
    destinationAddress := targetIP
    checksum := 0
    protocol := 0x11
    payload := some payload }

variable (targetIP : BitVec 32) (payload : List (BitVec 8))

theorem redirected_options : (f.redirected targetIP payload).options.getD [] = f.options := by
  unfold redirected header
  dsimp only
  by_cases hnil : f.options = []
  · rw [if_pos hnil, hnil, Option.getD_none]
  · rw [if_neg hnil, Option.getD_some]

theorem redirected_writable (h : 20 + f.options.length + payload.length ≤ 32767) :
    (f.redirected targetIP payload).Writable := by
  have hoptions := f.options_length
  rw [IPv4Packet.Writable, IPv4Packet.size, redirected_options]
  exact ⟨by omega, h⟩

theorem redirected_headerLength :
    (f.redirected targetIP payload).headerLength = BitVec.ofNat 8 (5 + f.options.length / 4) := by
  rw [IPv4Packet.headerLength, redirected_options]

theorem redirected_totalLength :
    (f.redirected targetIP payload).totalLength =
      BitVec.ofNat 16 (20 + f.options.length + payload.length) := by
  have hwords := f.options_words
  have hlength := f.options_length
  have hheader : (BitVec.ofNat 8 (5 + f.options.length / 4)).toInt * 4 =
      20 + f.options.length := by
    rw [← BitVec.ofInt_natCast, BitVec.toInt_ofInt, Int.bmod_def]
    split <;> omega
  rw [IPv4Packet.totalLength, redirected_headerLength, hheader, ← BitVec.ofInt_natCast]
  rfl

theorem redirected_head (checksum : BitVec 16) :
    (f.redirected targetIP payload).head ++ shortBytes checksum ++
        (f.redirected targetIP payload).tail =
      f.headerBytes payload.length checksum targetIP := by
  have hlength := f.options_length
  have hfirst := @first_byte_written (5 + f.options.length / 4) (by omega)
  have hflags := flag_bits_written f.flags
  unfold IPv4Packet.head IPv4Packet.tail
  rw [redirected_totalLength, redirected_headerLength, redirected_options]
  unfold headerBytes redirected header
  dsimp only
  rw [hfirst, hflags]
  simp only [append_assoc]

/-- The checksum that is computed for the header of a payload of `n` bytes. -/
def headerChecksumFor (n : ℕ) : BitVec 16 :=
  complement (accumulate 0 (f.headerBytes n 0 targetIP))

theorem serialize_redirected (h : 20 + f.options.length + payload.length ≤ 32767) :
    (f.redirected targetIP payload).serialize =
      .ok (f.headerBytes payload.length (f.headerChecksumFor targetIP payload.length) targetIP ++
        payload) := by
  have hzero := f.redirected_head targetIP payload 0
  rw [IPv4Packet.serialize_writable rfl (f.redirected_writable targetIP payload h), withChecksum,
    if_pos rfl, take_left, append_assoc, putShort_zero, headerChecksumFor,
    ← f.redirected_head targetIP payload, ← append_assoc]
  rw [← hzero]
  rfl

theorem headerChecksumFor_verifies_iff (n : ℕ) :
    endAround (sum16 (f.headerBytes n (f.headerChecksumFor targetIP n) targetIP)) = 65535 ↔
      foldOnce (sum16 (f.headerBytes n 0 targetIP)) < 65536 := by
  have hhead (checksum : BitVec 16) := f.redirected_head targetIP (List.replicate n 0) checksum
  rw [length_replicate] at hhead
  have hbound : sum16 (f.headerBytes n 0 targetIP) < 2 ^ 32 := by
    have hle := sum16_le (f.headerBytes n 0 targetIP)
    have hlength := f.options_length
    rw [length_headerBytes] at hle
    omega
  have hverifies := withChecksum_zero_verifies_iff (f.redirected targetIP (List.replicate n 0)).head
    (f.redirected targetIP (List.replicate n 0)).tail [] (by rw [IPv4Packet.length_head])
    (by rw [← hhead 0] at hbound; exact hbound)
  rw [take_withChecksum, putShort_zero, hhead] at hverifies
  rw [← hhead 0, headerChecksumFor, ← hhead 0]
  exact hverifies

/-! ### The redirected frame -/

theorem networkLayer_bytes : networkLayer f.bytes = f.ipv4 ++ f.trailer := by
  unfold networkLayer bytes
  cases f.tci <;> rfl

theorem networkLayer_serialize (content : EthernetContent) (dstMAC : BitVec 48) :
    networkLayer (({ f.eth content with
      destinationMACAddress := macBytes dstMAC } : EthernetObject).serialize payload) =
        payload := by
  unfold networkLayer EthernetObject.serialize eth
  cases f.tci with
  | none =>
    have huntagged : ¬ vlanUntagged ≠ vlanUntagged := fun h => h rfl
    dsimp only
    rw [if_neg huntagged]
    have htype : ¬ shortBytes typeIPv4 = shortBytes 0x8100 := by decide
    exact if_neg htype
  | some tci =>
    have htagged : tci &&& 0x0fff ≠ vlanUntagged := by
      intro h
      have hbit := congrArg (·.getLsbD 15) h
      simp [vlanUntagged] at hbit
    dsimp only
    rw [if_pos htagged]
    rfl

/-- The IPv4 packet that is written, for what the payload was read as. -/
def rewrite (content : UDPPayload) : Except PacketException (List (BitVec 8)) :=
  IPv4Object.serialize { f.header with destinationAddress := targetIP, checksum := 0 }
    (f.udp content)

theorem redirectedData_data (hcontent : f.content = .data f.bytes) (dstMAC : BitVec 48) :
    redirectedData targetIP dstMAC f.bytes = .error .classCast := by
  unfold redirectedData
  rw [deserialize_bytes, hcontent]
  rfl

theorem redirectedData_udp (hport : f.destinationPort = redirectedPort) {content : UDPPayload}
    (hcontent : f.content = .ipv4 ⟨f.header, .udp (f.udp content)⟩) (dstMAC : BitVec 48) :
    redirectedData targetIP dstMAC f.bytes =
      (fun ip => some (({ f.eth f.content with
        destinationMACAddress := macBytes dstMAC } : EthernetObject).serialize ip)) <$>
          f.rewrite targetIP content := by
  have hudp : ¬ (f.udp content).destinationPort ≠ redirectedPort := fun h => h hport
  unfold redirectedData
  rw [deserialize_bytes, hcontent, ok_bind]
  dsimp only [eth]
  rw [if_neg (fun h => h rfl), if_neg (fun h => h rfl), if_neg hudp]
  unfold rewrite
  cases IPv4Object.serialize { f.header with destinationAddress := targetIP, checksum := 0 }
    (f.udp content) <;> rfl

theorem content_cases :
    (f.totalLength ≤ 32767 ∧ ∃ content, f.readPayload = .ok content ∧
        f.content = .ipv4 ⟨f.header, .udp (f.udp content)⟩) ∨
      ¬ (f.totalLength ≤ 32767 ∧ ∃ content, f.readPayload = .ok content) ∧
        f.content = .data f.bytes := by
  unfold UDPFrame.content readContent
  by_cases hshort : f.totalLength ≤ 32767
  · rw [if_pos hshort]
    cases f.readPayload with
    | error e =>
      refine Or.inr ⟨?_, rfl⟩
      rintro ⟨-, content, h⟩
      cases h
    | ok content => exact Or.inl ⟨hshort, content, rfl, rfl⟩
  · rw [if_neg hshort]
    exact Or.inr ⟨fun h => hshort h.1, rfl⟩

theorem redirectedData_eq_some_iff (hport : f.destinationPort = redirectedPort)
    (dstMAC : BitVec 48) (bytes : List (BitVec 8)) :
    redirectedData targetIP dstMAC f.bytes = .ok (some bytes) ↔
      f.totalLength ≤ 32767 ∧ ∃ content ip, f.readPayload = .ok content ∧
        f.rewrite targetIP content = .ok ip ∧
        bytes = ({ f.eth f.content with
          destinationMACAddress := macBytes dstMAC } : EthernetObject).serialize ip := by
  rcases f.content_cases with ⟨hshort, content, hread, hcontent⟩ | ⟨hunread, hcontent⟩
  · rw [f.redirectedData_udp targetIP hport hcontent]
    constructor
    · intro h
      cases hrewrite : f.rewrite targetIP content with
      | error e =>
        rw [hrewrite] at h
        cases h
      | ok ip =>
        rw [hrewrite] at h
        cases h
        exact ⟨hshort, content, ip, hread, hrewrite, rfl⟩
    · rintro ⟨-, content', ip, hread', hrewrite, rfl⟩
      cases hread.symm.trans hread'
      rw [hrewrite]
      rfl
  · rw [f.redirectedData_data targetIP hcontent]
    constructor
    · intro h
      cases h
    · rintro ⟨hshort, content, ip, hread, -⟩
      exact absurd ⟨hshort, content, hread⟩ hunread

/-! ### Which redirected packets verify -/

def addressSum (address : BitVec 32) : ℕ := sum16 (intBytes address)

theorem sum16_pseudoHeaderBytes (destinationAddress : BitVec 32) (length : BitVec 16) :
    sum16 (pseudoHeaderBytes f.sourceAddress destinationAddress 0x11 length ++ payload) =
      addressSum destinationAddress +
        (addressSum f.sourceAddress + 0x11 + length.toNat + sum16 payload) := by
  unfold pseudoHeaderBytes addressSum
  rw [sum16_append (by simp), sum16_append (by simp), sum16_append (by simp),
    sum16_append (by simp), sum16_shortBytes, sum16, sum16]
  have hzero : (0 : BitVec 8).toNat = 0 := rfl
  have hudp : (0x11 : BitVec 8).toNat = 17 := rfl
  omega

/-- A datagram that is kept verifies for another destination if the words of the
addresses have the same sum, up to end-around carry. -/
theorem kept_datagram_verifies_iff (length : BitVec 16)
    (hvalid : endAround (sum16 (pseudoHeaderBytes f.sourceAddress f.destinationAddress 0x11
      length ++ payload)) = 65535) :
    endAround (sum16 (pseudoHeaderBytes f.sourceAddress targetIP 0x11 length ++ payload)) =
        65535 ↔
      addressSum f.destinationAddress % 65535 = addressSum targetIP % 65535 := by
  rw [endAround_eq_iff, sum16_pseudoHeaderBytes] at hvalid ⊢
  omega

/-- A datagram that is written with a new payload and a new checksum. -/
def renewed (bytes : List (BitVec 8)) : UDPPacket :=
  ⟨f.sourcePort, f.destinationPort, 0, some bytes⟩

theorem renewed_size (bytes : List (BitVec 8)) : (f.renewed bytes).size = 8 + bytes.length := rfl

/-- The redirect of a payload keeps the checksums right.  Data are kept with
their checksum; DHCP is written anew. -/
def Redirectable : UDPPayload → Prop
  | .data _ =>
    foldOnce (sum16 (f.headerBytes (8 + f.payload.length) 0 targetIP)) < 65536 ∧
      addressSum f.destinationAddress % 65535 = addressSum targetIP % 65535
  | .dhcp p =>
    ∀ bytes, p.serialize = .ok bytes → 28 + f.options.length + bytes.length ≤ 32767 →
      foldOnce (sum16 (f.headerBytes (8 + bytes.length) 0 targetIP)) < 65536 ∧
        foldOnce (sum16 (ChecksumPacket.udp (f.renewed bytes) f.sourceAddress
          targetIP).fields) < 65536

theorem rewrite_data (hshort : f.totalLength ≤ 32767) (hchecksum : f.checksum ≠ 0) :
    f.rewrite targetIP (.data f.payload) =
      .ok (f.headerBytes f.datagram.length (f.headerChecksumFor targetIP f.datagram.length)
        targetIP ++ f.datagram) := by
  have hlength := f.length_datagram
  unfold totalLength at hshort
  have hudp : UDPObject.serialize (f.udp (.data f.payload)) f.sourceAddress targetIP =
      .ok f.datagram :=
    UDPPacket.serialize_kept
      (p := ⟨f.sourcePort, f.destinationPort, f.checksum, some f.payload⟩) hchecksum
      (show 8 + f.payload.length ≤ 32767 by omega) _ _
  unfold rewrite IPv4Object.serialize
  exact (congrArg (· >>= _) hudp).trans (f.serialize_redirected targetIP f.datagram (by omega))

theorem rewrite_dhcp_iff (p : DHCPPacket) (ip : List (BitVec 8)) :
    f.rewrite targetIP (.dhcp p) = .ok ip ↔
      ∃ bytes datagram, p.serialize = .ok bytes ∧
        28 + f.options.length + bytes.length ≤ 32767 ∧
        (f.renewed bytes).serialize f.sourceAddress targetIP = .ok datagram ∧
        ip = f.headerBytes datagram.length (f.headerChecksumFor targetIP datagram.length)
          targetIP ++ datagram := by
  have hserialize : f.rewrite targetIP (.dhcp p) = (do
      let bytes ← p.serialize
      let datagram ← (f.renewed bytes).serialize f.sourceAddress targetIP
      (f.redirected targetIP datagram).serialize) := by
    unfold rewrite IPv4Object.serialize UDPObject.serialize
    dsimp only [udp]
    cases p.serialize <;> rfl
  rw [hserialize]
  constructor
  · intro h
    obtain ⟨bytes, hbytes, h⟩ := exists_of_bind_eq_ok h
    obtain ⟨datagram, hdatagram, h⟩ := exists_of_bind_eq_ok h
    have hlength := (UDPPacket.length_of_serialize rfl hdatagram).2
    by_cases hfits : 20 + f.options.length + datagram.length ≤ 32767
    · rw [serialize_redirected f targetIP datagram hfits] at h
      cases h
      refine ⟨bytes, datagram, hbytes, ?_, hdatagram, rfl⟩
      rw [hlength, renewed_size] at hfits
      omega
    · have hlong : ¬ (f.redirected targetIP datagram).Writable := by
        rw [IPv4Packet.Writable, IPv4Packet.size, redirected_options]
        exact fun hwritable => hfits hwritable.2
      obtain ⟨e, he⟩ := IPv4Packet.serialize_not_writable hlong
      cases he.symm.trans h
  · rintro ⟨bytes, datagram, hbytes, hfits, hdatagram, rfl⟩
    have hlength := (UDPPacket.length_of_serialize rfl hdatagram).2
    rw [renewed_size] at hlength
    rw [hbytes, ok_bind, hdatagram, ok_bind]
    exact f.serialize_redirected targetIP datagram (by omega)

theorem datagramVerifies_bytes :
    DatagramVerifies (networkLayer f.bytes) ↔
      endAround (sum16 (pseudoHeaderBytes f.sourceAddress f.destinationAddress 0x11
        (BitVec.ofNat 16 f.datagram.length) ++ f.datagram)) = 65535 := by
  have htotal := f.total_length
  have hlength := f.length_datagram
  rw [networkLayer_bytes, ipv4, append_assoc, ← hlength]
  exact f.datagramVerifies_iff (by omega) _ _ _

variable {datagram bytes : List (BitVec 8)}

theorem new_datagram_verifies_iff
    (hdatagram : (f.renewed bytes).serialize f.sourceAddress targetIP = .ok datagram) :
    endAround (sum16 (pseudoHeaderBytes f.sourceAddress targetIP 0x11
        (BitVec.ofNat 16 datagram.length) ++ datagram)) = 65535 ↔
      foldOnce (sum16 (ChecksumPacket.udp (f.renewed bytes) f.sourceAddress
        targetIP).fields) < 65536 := by
  have hwritable := (UDPPacket.length_of_serialize rfl hdatagram).1
  have hsize : (ChecksumPacket.udp (f.renewed bytes) f.sourceAddress targetIP).size ≤ 65535 :=
    Nat.le_trans hwritable (by decide)
  have hverifies := ChecksumPacket.udp_verifies_iff rfl hsize
  rw [ChecksumPacket.verifies_iff_of_bytes
    (p := .udp (f.renewed bytes) f.sourceAddress targetIP) hwritable hdatagram] at hverifies
  exact (and_congr_right_iff.mp hverifies) hwritable

theorem written_verifies_iff (hlength : 20 + f.options.length + datagram.length ≤ 65535) :
    HeaderVerifies (f.headerBytes datagram.length (f.headerChecksumFor targetIP datagram.length)
          targetIP ++ datagram) ∧
        DatagramVerifies (f.headerBytes datagram.length
          (f.headerChecksumFor targetIP datagram.length) targetIP ++ datagram) ↔
      foldOnce (sum16 (f.headerBytes datagram.length 0 targetIP)) < 65536 ∧
        endAround (sum16 (pseudoHeaderBytes f.sourceAddress targetIP 0x11
          (BitVec.ofNat 16 datagram.length) ++ datagram)) = 65535 := by
  have hdatagram := f.datagramVerifies_iff hlength (f.headerChecksumFor targetIP datagram.length)
    targetIP []
  rw [append_nil] at hdatagram
  rw [headerVerifies_iff, headerChecksumFor_verifies_iff, hdatagram]

theorem renewed_verifies_iff (hfits : 28 + f.options.length + bytes.length ≤ 32767)
    (hdatagram : (f.renewed bytes).serialize f.sourceAddress targetIP = .ok datagram) :
    HeaderVerifies (f.headerBytes datagram.length (f.headerChecksumFor targetIP datagram.length)
          targetIP ++ datagram) ∧
        DatagramVerifies (f.headerBytes datagram.length
          (f.headerChecksumFor targetIP datagram.length) targetIP ++ datagram) ↔
      foldOnce (sum16 (f.headerBytes (8 + bytes.length) 0 targetIP)) < 65536 ∧
        foldOnce (sum16 (ChecksumPacket.udp (f.renewed bytes) f.sourceAddress
          targetIP).fields) < 65536 := by
  have hsize := (UDPPacket.length_of_serialize rfl hdatagram).2
  rw [renewed_size] at hsize
  rw [written_verifies_iff f targetIP (by omega), f.new_datagram_verifies_iff targetIP hdatagram,
    hsize]

theorem eq_payload_of_readPayload (h : f.readPayload = .ok (.data bytes)) : bytes = f.payload := by
  unfold readPayload at h
  split at h
  · cases hdhcp : DHCPPacket.deserialize f.payload with
    | error | ok =>
      rw [hdhcp] at h
      cases h
  · cases h
    rfl

theorem rewrite_verifies_iff (hshort : f.totalLength ≤ 32767) (hchecksum : f.checksum ≠ 0)
    (hvalid : DatagramVerifies (networkLayer f.bytes)) {content : UDPPayload}
    (hread : f.readPayload = .ok content) :
    (∀ ip, f.rewrite targetIP content = .ok ip → HeaderVerifies ip ∧ DatagramVerifies ip) ↔
      f.Redirectable targetIP content := by
  cases content with
  | data bytes =>
    have hlength := f.length_datagram
    have htotal := f.total_length
    rw [f.eq_payload_of_readPayload hread, rewrite_data f targetIP hshort hchecksum, Redirectable,
      ← hlength,
      ← f.kept_datagram_verifies_iff targetIP f.datagram _ (f.datagramVerifies_bytes.mp hvalid),
      ← f.written_verifies_iff targetIP (by omega)]
    constructor
    · intro h
      exact h _ rfl
    · rintro h ip hip
      cases hip
      exact h
  | dhcp p =>
    rw [Redirectable]
    constructor
    · intro h bytes hbytes hfits
      have hwritable : (f.renewed bytes).Writable := show 8 + bytes.length ≤ 32767 by omega
      obtain ⟨datagram, hdatagram⟩ : ∃ datagram,
          (f.renewed bytes).serialize f.sourceAddress targetIP = .ok datagram :=
        ⟨_, UDPPacket.serialize_writable rfl hwritable f.sourceAddress targetIP⟩
      exact (f.renewed_verifies_iff targetIP hfits hdatagram).mp
        (h _ ((f.rewrite_dhcp_iff targetIP p _).mpr
          ⟨bytes, datagram, hbytes, hfits, hdatagram, rfl⟩))
    · intro h ip hip
      obtain ⟨bytes, datagram, hbytes, hfits, hdatagram, rfl⟩ :=
        (f.rewrite_dhcp_iff targetIP p ip).mp hip
      exact (f.renewed_verifies_iff targetIP hfits hdatagram).mpr (h bytes hbytes hfits)

end UDPFrame

/-- **The redirected packet**: for a frame with a UDP checksum that verifies,
both checksums of what is put back verify exactly if the payload that was read is
redirectable.  A total length above 32767 is not read, and nothing is put back. -/
theorem redirected_verifies_iff (f : UDPFrame) (targetIP : BitVec 32) (dstMAC : BitVec 48)
    (hport : f.destinationPort = redirectedPort) (hchecksum : f.checksum ≠ 0)
    (hvalid : DatagramVerifies (networkLayer f.bytes)) :
    (∀ bytes, redirectedData targetIP dstMAC f.bytes = .ok (some bytes) →
        HeaderVerifies (networkLayer bytes) ∧ DatagramVerifies (networkLayer bytes)) ↔
      (f.totalLength ≤ 32767 → ∀ content, f.readPayload = .ok content →
        f.Redirectable targetIP content) := by
  constructor
  · intro h hshort content hread
    rw [← f.rewrite_verifies_iff targetIP hshort hchecksum hvalid hread]
    intro ip hip
    have hverifies := h _ ((f.redirectedData_eq_some_iff targetIP hport dstMAC _).mpr
      ⟨hshort, content, ip, hread, hip, rfl⟩)
    rwa [f.networkLayer_serialize] at hverifies
  · intro h bytes hbytes
    obtain ⟨hshort, content, ip, hread, hip, rfl⟩ :=
      (f.redirectedData_eq_some_iff targetIP hport dstMAC bytes).mp hbytes
    rw [f.networkLayer_serialize]
    exact (f.rewrite_verifies_iff targetIP hshort hchecksum hvalid hread).mpr
      (h hshort content hread) ip hip

def greetingFrame : UDPFrame where
  destinationMACAddress := 0x000000000009
  sourceMACAddress := 0x000000000002
  tci := none
  diffServ := 0
  identification := 0
  flags := 1
  ttl := 64
  headerChecksum := 0x26c5
  sourceAddress := 0x0a000002
  destinationAddress := 0x0a000009
  options := []
  sourcePort := 5000
  destinationPort := 5134
  checksum := 0x5bd0
  payload := [0x68, 0x69]
  trailer := []
  options_words := rfl
  options_length := Nat.zero_le _
  total_length := Nat.le_of_ble_eq_true rfl

theorem greetingFrame_verifies :
    HeaderVerifies (networkLayer greetingFrame.bytes) ∧
      DatagramVerifies (networkLayer greetingFrame.bytes) := by
  rw [HeaderVerifies, DatagramVerifies, endAround_eq_iff, endAround_eq_iff]
  decide

theorem redirected_verifies_same_sum :
    ∃ bytes, redirectedData 0x0a080001 1 greetingFrame.bytes = .ok (some bytes) ∧
      HeaderVerifies (networkLayer bytes) ∧ DatagramVerifies (networkLayer bytes) := by
  refine ⟨_, rfl, (redirected_verifies_iff greetingFrame 0x0a080001 1 rfl (by decide)
    greetingFrame_verifies.2).mpr ?_ _ rfl⟩
  intro _ content hread
  cases hread
  exact ⟨by decide, by decide⟩

/-- Redirected to 10.0.0.1, the datagram keeps the checksum it had for 10.0.0.9. -/
theorem redirected_keeps_checksum :
    greetingFrame.destinationPort = redirectedPort ∧ greetingFrame.checksum ≠ 0 ∧
      HeaderVerifies (networkLayer greetingFrame.bytes) ∧
      DatagramVerifies (networkLayer greetingFrame.bytes) ∧
      ∃ bytes, redirectedData 0x0a000001 1 greetingFrame.bytes = .ok (some bytes) ∧
        ¬ DatagramVerifies (networkLayer bytes) := by
  refine ⟨rfl, by decide, greetingFrame_verifies.1, greetingFrame_verifies.2, _, rfl, ?_⟩
  rw [DatagramVerifies, endAround_eq_iff]
  decide

end NctuSdn
