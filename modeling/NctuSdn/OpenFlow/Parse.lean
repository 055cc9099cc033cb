/-
From a frame to its match (`OFMatch.loadFromPacket`).

The source reads the frame through a byte buffer with a position.  Relative
reads advance the position and fail at the end of the buffer, absolute reads
leave it alone.  ARP is read by absolute positions, so the transport ports of
an ARP request, whose opcode is the number of ICMP, are read from the start
of the ARP header; the model does the same.
-/
import NctuSdn.OpenFlow.Match
import NctuSdn.Topology.Link

namespace NctuSdn

/-! ### Byte buffers -/

/-- `ByteBuffer`: the bytes and the position. -/
structure ByteBuffer where
  data : List (BitVec 8)
  position : ℕ

namespace ByteBuffer

variable (b : ByteBuffer)

/-- `n` bytes from a place on as one big-endian number. -/
def at? (pos : ℕ) : (n : ℕ) → Option (BitVec (8 * n))
  | 0 => some 0
  | n + 1 =>
    match at? pos n, b.data[pos + n]? with
    | some hi, some lo => some (hi ++ lo)
    | _, _ => none

/-- Relative `get`, `getShort`, `getInt` and `get(byte[])`. -/
def get (n : ℕ) : Except JavaException (BitVec (8 * n) × ByteBuffer) :=
  match b.at? b.position n with
  | some x => .ok (x, { b with position := b.position + n })
  | none => .error .bufferUnderflow

/-- Absolute `get`, `getShort` and `getInt`. -/
def getAt (pos n : ℕ) : Except JavaException (BitVec (8 * n)) :=
  match b.at? pos n with
  | some x => .ok x
  | none => .error .indexOutOfBounds

def seek (pos : ℕ) : Except JavaException ByteBuffer :=
  if pos ≤ b.data.length then .ok { b with position := pos } else .error .illegalArgument

end ByteBuffer

/-! ### The parser -/

def ofppAll : BitVec 16 := 0xfffc

/-- The Ethernet header, with an optional 802.1Q tag. -/
def loadDataLayer (b : ByteBuffer) (m : OFMatch) :
    Except JavaException (ByteBuffer × OFMatch) := do
  let (dst, b) ← b.get 6
  let (src, b) ← b.get 6
  let (type, b) ← b.get 2
  let m := { m with
    dataLayerDestination := dst
    dataLayerSource := src
    dataLayerType := type }
  if type ≠ 0x8100 then
    return (b, { m with
      dataLayerVirtualLan := vlanUntagged
      dataLayerVirtualLanPriorityCodePoint := 0 })
  else
    let (scratch, b) ← b.get 2
    let (type, b) ← b.get 2
    return (b, { m with
      dataLayerVirtualLan := 0xfff &&& scratch
      dataLayerVirtualLanPriorityCodePoint := ((0xe000 &&& scratch) >>> 13).setWidth 8
      dataLayerType := type })

/-- The IPv4 header; the position is left behind its options. -/
def loadIPv4 (b : ByteBuffer) (m : OFMatch) : Except JavaException (ByteBuffer × OFMatch) := do
  let (versionAndLength, b) ← b.get 1
  let transportOffset := (b.position - 1) + (0xf &&& versionAndLength).toNat * 4
  let (tos, b) ← b.get 1
  let b ← b.seek (b.position + 7)
  let (proto, b) ← b.get 1
  let b ← b.seek (b.position + 2)
  let (src, b) ← b.get 4
  let (dst, b) ← b.get 4
  let b ← b.seek transportOffset
  return (b, { m.setNetworkTypeOfService ((0xfc &&& tos) >>> 2) with
    networkProtocol := proto
    networkSource := src
    networkDestination := dst })

/-- Whether an ARP header is for IPv4 addresses of four bytes. -/
def arpIsIPv4 (b : ByteBuffer) : Except JavaException Bool := do
  let protocolType ← b.getAt (b.position + 2) 2
  if protocolType = 0x800 then
    let addrLen ← b.getAt (b.position + 5) 1
    return addrLen = 4
  else return false

/-- The ARP header, with the opcode as network protocol. -/
def loadARP (b : ByteBuffer) (m : OFMatch) : Except JavaException (ByteBuffer × OFMatch) := do
  let opcode ← b.getAt (b.position + 6) 2
  let isIPv4 ← arpIsIPv4 b
  if isIPv4 then
    let src ← b.getAt (b.position + 14) 4
    let dst ← b.getAt (b.position + 24) 4
    return (b, { m with
      networkProtocol := opcode.setWidth 8
      networkSource := src
      networkDestination := dst })
  else
    return (b, { m with
      networkProtocol := opcode.setWidth 8
      networkSource := 0
      networkDestination := 0 })

/-- The network header: IPv4, ARP, or wildcards. -/
def loadNetworkLayer (b : ByteBuffer) (m : OFMatch) :
    Except JavaException (ByteBuffer × OFMatch) :=
  if m.dataLayerType = 0x0800 then loadIPv4 b m
  else if m.dataLayerType = 0x0806 then loadARP b m
  else
    .ok (b, { m with
      wildcards := m.wildcards ||| ofpfwNwDstAll ||| ofpfwNwSrcAll ||| ofpfwNwProto ||| ofpfwNwTos
      networkTypeOfService := 0
      networkProtocol := 0
      networkSource := 0
      networkDestination := 0 })

/-- The transport ports, or the type and code of ICMP. -/
def loadTransportLayer (b : ByteBuffer) (m : OFMatch) : Except JavaException OFMatch := do
  if m.networkProtocol = 0x01 then
    let (type, b) ← b.get 1
    let (code, _) ← b.get 1
    return { m with
      transportSource := BitVec.setWidth 16 type
      transportDestination := BitVec.setWidth 16 code }
  else if m.networkProtocol = 0x06 ∨ m.networkProtocol = 0x11 then
    let (src, b) ← b.get 2
    let (dst, _) ← b.get 2
    return { m with transportSource := src, transportDestination := dst }
  else
    return { m with
      wildcards := m.wildcards ||| ofpfwTpDst ||| ofpfwTpSrc
      transportDestination := 0
      transportSource := 0 }

def loadFromPacket (packetData : List (BitVec 8)) (inputPort : BitVec 16) :
    Except JavaException OFMatch := do
  let wildcards : BitVec 32 := if inputPort = ofppAll then ofpfwInPort else 0
  let m := { OFMatch.new with wildcards := wildcards, inputPort := inputPort }
  let (b, m) ← loadDataLayer ⟨packetData, 0⟩ m
  let (b, m) ← loadNetworkLayer b m
  loadTransportLayer b m

/-! ### VLAN fields -/

/-- The VLAN fields of a frame: none, or twelve bits of id and three of
priority. -/
def WellTagged (m : OFMatch) : Prop :=
  (m.dataLayerVirtualLan = vlanUntagged ∧ m.dataLayerVirtualLanPriorityCodePoint = 0) ∨
    (m.dataLayerVirtualLan.toNat < 4096 ∧ m.dataLayerVirtualLanPriorityCodePoint.toNat < 8)

variable {b : ByteBuffer} {m m' : OFMatch}

theorem loadDataLayer_spec {b' : ByteBuffer} (h : loadDataLayer b m = .ok (b', m')) :
    m'.inputPort = m.inputPort ∧ WellTagged m' := by
  obtain ⟨⟨dst, b₁⟩, -, h⟩ := exists_of_bind_eq_ok h
  obtain ⟨⟨src, b₂⟩, -, h⟩ := exists_of_bind_eq_ok h
  obtain ⟨⟨type, b₃⟩, -, h⟩ := exists_of_bind_eq_ok h
  dsimp only at h
  split at h
  · cases h
    exact ⟨rfl, .inl ⟨rfl, rfl⟩⟩
  · obtain ⟨⟨scratch, b₄⟩, -, h⟩ := exists_of_bind_eq_ok h
    obtain ⟨⟨type', b₅⟩, -, h⟩ := exists_of_bind_eq_ok h
    cases h
    refine ⟨rfl, .inr ?_⟩
    constructor
    · -- twelve bits of the tag
      show (0xfff#16 &&& scratch).toNat < 4096
      rw [BitVec.toNat_and]
      exact Nat.lt_of_le_of_lt Nat.and_le_left (by decide)
    · -- its three top bits
      show (((0xe000#16 &&& scratch) >>> 13).setWidth 8).toNat < 8
      rw [BitVec.toNat_setWidth, BitVec.toNat_ushiftRight, BitVec.toNat_and,
        Nat.shiftRight_eq_div_pow]
      have hle : (0xe000#16).toNat &&& scratch.toNat ≤ 0xe000 := Nat.and_le_left
      omega

theorem loadNetworkLayer_keeps {b' : ByteBuffer} (h : loadNetworkLayer b m = .ok (b', m')) :
    m'.inputPort = m.inputPort ∧ m'.dataLayerVirtualLan = m.dataLayerVirtualLan ∧
      m'.dataLayerVirtualLanPriorityCodePoint = m.dataLayerVirtualLanPriorityCodePoint := by
  unfold loadNetworkLayer at h
  split at h
  · unfold loadIPv4 at h
    iterate 8
      obtain ⟨_, -, h⟩ := exists_of_bind_eq_ok h
    cases h
    exact ⟨rfl, rfl, rfl⟩
  · split at h
    · unfold loadARP at h
      obtain ⟨opcode, -, h⟩ := exists_of_bind_eq_ok h
      obtain ⟨isIPv4, -, h⟩ := exists_of_bind_eq_ok h
      cases isIPv4 with
      | true =>
        obtain ⟨src, -, h⟩ := exists_of_bind_eq_ok h
        obtain ⟨dst, -, h⟩ := exists_of_bind_eq_ok h
        cases h
        exact ⟨rfl, rfl, rfl⟩
      | false =>
        cases h
        exact ⟨rfl, rfl, rfl⟩
    · cases h
      exact ⟨rfl, rfl, rfl⟩

theorem loadTransportLayer_keeps (h : loadTransportLayer b m = .ok m') :
    m'.inputPort = m.inputPort ∧ m'.dataLayerVirtualLan = m.dataLayerVirtualLan ∧
      m'.dataLayerVirtualLanPriorityCodePoint = m.dataLayerVirtualLanPriorityCodePoint := by
  unfold loadTransportLayer at h
  split at h
  · iterate 2
      obtain ⟨_, -, h⟩ := exists_of_bind_eq_ok h
    cases h
    exact ⟨rfl, rfl, rfl⟩
  · split at h
    · iterate 2
        obtain ⟨_, -, h⟩ := exists_of_bind_eq_ok h
      cases h
      exact ⟨rfl, rfl, rfl⟩
    · cases h
      exact ⟨rfl, rfl, rfl⟩

theorem loadFromPacket_spec {packetData : List (BitVec 8)} {inputPort : BitVec 16}
    (h : loadFromPacket packetData inputPort = .ok m) : m.inputPort = inputPort ∧ WellTagged m := by
  obtain ⟨⟨b₁, m₁⟩, h₁, h⟩ := exists_of_bind_eq_ok h
  obtain ⟨⟨b₂, m₂⟩, h₂, h₃⟩ := exists_of_bind_eq_ok h
  obtain ⟨hport₁, htagged⟩ := loadDataLayer_spec h₁
  obtain ⟨hport₂, hv₂, hp₂⟩ := loadNetworkLayer_keeps h₂
  obtain ⟨hport₃, hv₃, hp₃⟩ := loadTransportLayer_keeps h₃
  unfold WellTagged
  rw [hport₃, hv₃, hp₃, hport₂, hv₂, hp₂, hport₁]
  exact ⟨rfl, htagged⟩

end NctuSdn
