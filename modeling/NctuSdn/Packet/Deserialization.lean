/-
Reading packets (`Ethernet.deserialize`, `IPv4.deserialize`, `UDP.deserialize`,
`DHCP.deserialize`) and writing the objects back.

An object remembers its checksum field, and writing it keeps a checksum that is
not zero.  `DHCP.serialize` resets the checksums of the packets around it; `Data`
does not.

A buffer is the list of the bytes that remain.  The parsers for what is neither
IPv4 nor UDP are left out: a payload of another kind is `other`.
-/
import NctuSdn.Packet.Serialization
import NctuSdn.Packet.Ethernet
import NctuSdn.OpenFlow.Parse

namespace NctuSdn

open List

/-! ### Buffers -/

def getByte : List (BitVec 8) → Except PacketException (BitVec 8 × List (BitVec 8))
  | a :: bb => .ok (a, bb)
  | [] => .error .bufferUnderflow

def getShort : List (BitVec 8) → Except PacketException (BitVec 16 × List (BitVec 8))
  | a :: b :: bb => .ok (a ++ b, bb)
  | _ => .error .bufferUnderflow

def getInt (bb : List (BitVec 8)) : Except PacketException (BitVec 32 × List (BitVec 8)) := do
  let (high, bb) ← getShort bb
  let (low, bb) ← getShort bb
  return (high ++ low, bb)

/-- `get(byte[])` for an array of the given length. -/
def getBytes (n : ℕ) (bb : List (BitVec 8)) :
    Except PacketException (List (BitVec 8) × List (BitVec 8)) :=
  if n ≤ bb.length then .ok (bb.take n, bb.drop n) else .error .bufferUnderflow

theorem ok_bind {α β : Type} (a : α) (f : α → Except PacketException β) :
    (Except.ok a >>= f) = f a := rfl

theorem getByte_cons (a : BitVec 8) (bb : List (BitVec 8)) : getByte (a :: bb) = .ok (a, bb) := rfl

theorem getShort_shortBytes (x : BitVec 16) (bb : List (BitVec 8)) :
    getShort (shortBytes x ++ bb) = .ok (x, bb) := by
  have hx : x.extractLsb' 8 8 ++ x.extractLsb' 0 8 = x :=
    (BitVec.extractLsb'_append_extractLsb'_eq_extractLsb' rfl).trans BitVec.extractLsb'_eq_self
  rw [shortBytes, cons_append, cons_append, nil_append, getShort, hx]

theorem getInt_intBytes (x : BitVec 32) (bb : List (BitVec 8)) :
    getInt (intBytes x ++ bb) = .ok (x, bb) := by
  have hx : x.extractLsb' 16 16 ++ x.extractLsb' 0 16 = x :=
    (BitVec.extractLsb'_append_extractLsb'_eq_extractLsb' rfl).trans BitVec.extractLsb'_eq_self
  rw [getInt, intBytes, append_assoc, getShort_shortBytes]
  dsimp only [bind, Except.bind]
  rw [getShort_shortBytes]
  dsimp only [pure, Except.pure]
  rw [hx]

theorem getBytes_append (xs bb : List (BitVec 8)) :
    getBytes xs.length (xs ++ bb) = .ok (xs, bb) := by
  rw [getBytes, if_pos (by simp), take_left, drop_left]

/-! ### DHCP -/

structure DHCPOption where
  code : BitVec 8
  length : BitVec 8
  data : List (BitVec 8)
deriving DecidableEq, Repr

/-- `DHCP`, with null for what a short packet does not set.  Strings are given by
the bytes that they are written as. -/
structure DHCPPacket where
  opCode : BitVec 8
  hardwareType : BitVec 8
  hardwareAddressLength : BitVec 8
  hops : BitVec 8
  transactionId : BitVec 32
  seconds : BitVec 16
  flags : BitVec 16
  clientIPAddress : BitVec 32
  yourIPAddress : BitVec 32
  serverIPAddress : BitVec 32
  gatewayIPAddress : BitVec 32
  clientHardwareAddress : Option (List (BitVec 8))
  serverName : Option (List (BitVec 8))
  bootFileName : Option (List (BitVec 8))
  options : List DHCPOption
deriving DecidableEq, Repr

namespace DHCPPacket

def empty : DHCPPacket where
  opCode := 0
  hardwareType := 0
  hardwareAddressLength := 0
  hops := 0
  transactionId := 0
  seconds := 0
  flags := 0
  clientIPAddress := 0
  yourIPAddress := 0
  serverIPAddress := 0
  gatewayIPAddress := 0
  clientHardwareAddress := none
  serverName := none
  bootFileName := none
  options := []

/-- What `trim` takes away. -/
def blank (b : BitVec 8) : Bool := b ≤ 0x20

/-- `readString`: the bytes as ASCII, trimmed.  What is no ASCII is read as
U+FFFD, which is written as a question mark. -/
def readString (maxLength : ℕ) (bb : List (BitVec 8)) :
    Except PacketException (List (BitVec 8) × List (BitVec 8)) := do
  let (bytes, bb) ← getBytes maxLength bb
  let trimmed := (((bytes.dropWhile blank).reverse).dropWhile blank).reverse
  return (trimmed.map fun b => if b ≤ 0x7f then b else 0x3f, bb)

def endOption : DHCPOption := ⟨0xff, 0, []⟩

/-- "read options": an option that is cut off ends them. -/
def readOptions : List (BitVec 8) → List DHCPOption
  | [] => []
  | code :: bb =>
    if code = 0 then readOptions bb
    else if code = 0xff then [endOption]
    else
      match bb with
      | [] => [endOption]
      | l :: bb =>
        if l.toNat ≤ bb.length then
          ⟨code, l, bb.take l.toNat⟩ :: readOptions (bb.drop l.toNat)
        else [endOption]
termination_by bb => bb.length
decreasing_by all_goals simp only [List.length_cons, List.length_drop]; omega

def deserialize (bb : List (BitVec 8)) : Except PacketException DHCPPacket :=
  if bb.length < 240 then .ok empty
  else do
    let (opCode, bb) ← getByte bb
    let (hardwareType, bb) ← getByte bb
    let (hardwareAddressLength, bb) ← getByte bb
    let (hops, bb) ← getByte bb
    let (transactionId, bb) ← getInt bb
    let (seconds, bb) ← getShort bb
    let (flags, bb) ← getShort bb
    let (clientIPAddress, bb) ← getInt bb
    let (yourIPAddress, bb) ← getInt bb
    let (serverIPAddress, bb) ← getInt bb
    let (gatewayIPAddress, bb) ← getInt bb
    let (clientHardwareAddress, bb) ← getBytes hardwareAddressLength.toNat bb
    let (_, bb) ← getBytes (16 - hardwareAddressLength.toNat) bb
    let (serverName, bb) ← readString 64 bb
    let (bootFileName, bb) ← readString 128 bb
    -- the magic cookie
    let (_, bb) ← getBytes 4 bb
    return {
      opCode, hardwareType, hardwareAddressLength, hops, transactionId, seconds, flags,
      clientIPAddress, yourIPAddress, serverIPAddress, gatewayIPAddress,
      clientHardwareAddress := some clientHardwareAddress
      serverName := some serverName
      bootFileName := some bootFileName
      options := readOptions bb }

def writeString (string : Option (List (BitVec 8))) (maxLength : ℕ) : List (BitVec 8) :=
  let bytes := (string.getD []).take maxLength
  bytes ++ List.replicate (maxLength - bytes.length) 0

def optionBytes (option : DHCPOption) : List (BitVec 8) :=
  if option.code = 0 ∨ option.code = 0xff then [option.code]
  else option.code :: option.length :: option.data

def optionsLength (options : List DHCPOption) : ℕ :=
  (options.map fun option =>
    if option.code = 0 ∨ option.code = 0xff then 1 else 2 + option.length.toNat).sum

/-- `serialize`, without the checksums that it resets. -/
def serialize (p : DHCPPacket) : Except PacketException (List (BitVec 8)) :=
  match p.clientHardwareAddress with
  | none => .error .nullPointer
  | some clientHardwareAddress =>
    let optionsLength := optionsLength p.options
    let optionsPadLength := 60 - optionsLength
    fill (240 + optionsLength + optionsPadLength : ℕ)
      ([p.opCode, p.hardwareType, p.hardwareAddressLength, p.hops] ++
        intBytes p.transactionId ++ shortBytes p.seconds ++ shortBytes p.flags ++
        intBytes p.clientIPAddress ++ intBytes p.yourIPAddress ++
        intBytes p.serverIPAddress ++ intBytes p.gatewayIPAddress ++
        clientHardwareAddress ++ List.replicate (16 - clientHardwareAddress.length) 0 ++
        writeString p.serverName 64 ++ writeString p.bootFileName 128 ++
        [0x63, 0x82, 0x53, 0x63] ++ (p.options.map optionBytes).flatten)

end DHCPPacket

/-! ### UDP -/

/-- What a datagram carries. -/
inductive UDPPayload
  | data (bytes : List (BitVec 8))
  | dhcp (p : DHCPPacket)

/-- A `UDP` object. -/
structure UDPObject where
  sourcePort : BitVec 16
  destinationPort : BitVec 16
  checksum : BitVec 16
  payload : UDPPayload

namespace UDPObject

/-- The keys of `decodeMap`. -/
def decodes (port : BitVec 16) : Bool := port = 67 || port = 68

/-- `deserialize`.  The length field is not used. -/
def deserialize (bb : List (BitVec 8)) : Except PacketException UDPObject := do
  let (sourcePort, bb) ← getShort bb
  let (destinationPort, bb) ← getShort bb
  let (_, bb) ← getShort bb
  let (checksum, bb) ← getShort bb
  let payload ←
    if decodes destinationPort || decodes sourcePort then
      UDPPayload.dhcp <$> DHCPPacket.deserialize bb
    else .ok (.data bb)
  return { sourcePort, destinationPort, checksum, payload }

/-- `serialize`, in an IPv4 packet with the given addresses. -/
def serialize (p : UDPObject) (sourceAddress destinationAddress : BitVec 32) :
    Except PacketException (List (BitVec 8)) :=
  match p.payload with
  | .data bytes =>
    UDPPacket.serialize ⟨p.sourcePort, p.destinationPort, p.checksum, some bytes⟩
      sourceAddress destinationAddress
  | .dhcp dhcp => do
      let bytes ← dhcp.serialize
      -- the payload has reset the checksum
      UDPPacket.serialize ⟨p.sourcePort, p.destinationPort, 0, some bytes⟩
        sourceAddress destinationAddress

end UDPObject

/-! ### IPv4 -/

/-- What an IPv4 packet carries. -/
inductive IPv4Content
  | udp (p : UDPObject)
  | other

/-- An `IPv4` object.  The header has no payload of its own. -/
structure IPv4Object where
  header : IPv4Packet
  content : IPv4Content

theorem length_take_words {k : ℕ} {bb : List (BitVec 8)} (h : k * 4 ≤ bb.length) :
    ((some (bb.take (k * 4))).getD []).length % 4 = 0 := by
  rw [Option.getD_some, length_take, Nat.min_eq_left h]
  exact Nat.mul_mod_left k 4

theorem length_no_options : ((none : Option (List (BitVec 8))).getD []).length % 4 = 0 := rfl

/-- The options, whole words by the header length. -/
def getOptions (headerLength : BitVec 8) (bb : List (BitVec 8)) :
    Except PacketException
      ({ options : Option (List (BitVec 8)) // (options.getD []).length % 4 = 0 } ×
        List (BitVec 8)) :=
  if 5 < headerLength.toNat then
    if h : (headerLength.toNat - 5) * 4 ≤ bb.length then
      .ok (⟨some (bb.take ((headerLength.toNat - 5) * 4)), length_take_words h⟩,
        bb.drop ((headerLength.toNat - 5) * 4))
    else .error .bufferUnderflow
  else .ok (⟨none, length_no_options⟩, bb)

namespace IPv4Object

def isFragment (flags : BitVec 8) (fragmentOffset : BitVec 16) : Bool :=
  flags &&& 0x2 = 0 && (flags &&& 0x1 ≠ 0 || fragmentOffset ≠ 0)

/-- The payload, of the length that the header leaves for it. -/
def getContent (udp : Bool) (payloadLength : ℤ) (bb : List (BitVec 8)) :
    Except PacketException IPv4Content :=
  let payloadLength := if bb.length < payloadLength then (bb.length : ℤ) else payloadLength
  if payloadLength < 0 then .error .indexOutOfBounds
  else if udp then IPv4Content.udp <$> UDPObject.deserialize (bb.take payloadLength.toNat)
  else .ok .other

def deserialize (bb : List (BitVec 8)) : Except PacketException IPv4Object := do
  let (first, bb) ← getByte bb
  let headerLength := first &&& 0xf
  let version := first.sshiftRight 4 &&& 0xf
  if version ≠ 4 then throw .packetParsing
  let (diffServ, bb) ← getByte bb
  let (totalLength, bb) ← getShort bb
  let (identification, bb) ← getShort bb
  let (sscratch, bb) ← getShort bb
  let flags := (sscratch.sshiftRight 13 &&& 0x7).setWidth 8
  let fragmentOffset := sscratch &&& 0x1fff
  let (ttl, bb) ← getByte bb
  let (protocol, bb) ← getByte bb
  let (checksum, bb) ← getShort bb
  let (sourceAddress, bb) ← getInt bb
  let (destinationAddress, bb) ← getInt bb
  let (options, bb) ← getOptions headerLength bb
  let content ← getContent (!isFragment flags fragmentOffset && protocol = 0x11)
    (totalLength.toInt - headerLength.toNat * 4) bb
  return {
    header := {
      version, diffServ, identification, flags, fragmentOffset, ttl, protocol, checksum,
      sourceAddress, destinationAddress
      options := options.1
      payload := none
      options_length := options.2 }
    content }

/-- `serialize` of a header with a datagram, which sets the protocol and may
reset the checksum. -/
def serialize (header : IPv4Packet) (udp : UDPObject) :
    Except PacketException (List (BitVec 8)) := do
  let payload ← udp.serialize header.sourceAddress header.destinationAddress
  let checksum :=
    match udp.payload with
    | .data _ => header.checksum
    | .dhcp _ => 0
  IPv4Packet.serialize { header with protocol := 0x11, payload := some payload, checksum }

end IPv4Object

/-! ### Ethernet -/

/-- What a frame carries. -/
inductive EthernetContent
  | ipv4 (p : IPv4Object)
  /-- `Data`, for what no parser reads. -/
  | data (bytes : List (BitVec 8))
  /-- What the parsers of the other ether types make of the bytes. -/
  | other (bytes : List (BitVec 8))

/-- An `Ethernet` object. -/
structure EthernetObject where
  destinationMACAddress : List (BitVec 8)
  sourceMACAddress : List (BitVec 8)
  priorityCode : BitVec 8
  vlanID : BitVec 16
  etherType : BitVec 16
  content : EthernetContent

namespace EthernetObject

/-- The ether types in `etherTypeClassMap`. -/
def etherTypeClassMap : List (BitVec 16) := [typeARP, 0x8035, typeIPv4, 0x88cc, 0x8942]

/-- The payload.  Without a parser, or after an exception of it, this is `new Data(data)`,
made from the array of the frame and not from what is left of it behind the header. -/
def getContent (data : List (BitVec 8)) (etherType : BitVec 16) (bb : List (BitVec 8)) :
    EthernetContent :=
  if etherType ∉ etherTypeClassMap then .data data
  else if etherType = typeIPv4 then
    match IPv4Object.deserialize bb with
    | .ok p => .ipv4 p
    | .error _ => .data data
  else .other bb

/-- `deserialize`; null if the data are too short. -/
def deserialize (data : List (BitVec 8)) : Except PacketException (Option EthernetObject) :=
  if data.length ≤ 16 then .ok none
  else do
    let (destinationMACAddress, bb) ← getBytes 6 data
    let (sourceMACAddress, bb) ← getBytes 6 bb
    let (etherType, bb) ← getShort bb
    if etherType = 0x8100 then
      let (tci, bb) ← getShort bb
      let (etherType, bb) ← getShort bb
      return some {
        destinationMACAddress, sourceMACAddress, etherType
        priorityCode := (tci.sshiftRight 13 &&& 0x07).setWidth 8
        vlanID := tci &&& 0x0fff
        content := getContent data etherType bb }
    else
      return some {
        destinationMACAddress, sourceMACAddress, etherType
        priorityCode := 0
        vlanID := vlanUntagged
        content := getContent data etherType bb }

/-- `serialize`, around the bytes of the payload. -/
def serialize (eth : EthernetObject) (payloadData : List (BitVec 8)) : List (BitVec 8) :=
  eth.destinationMACAddress ++ eth.sourceMACAddress ++
    (if eth.vlanID ≠ vlanUntagged then
      shortBytes 0x8100 ++
        shortBytes ((eth.priorityCode.setWidth 16 <<< 13) ||| (eth.vlanID &&& 0x0fff))
    else []) ++
    shortBytes eth.etherType ++ payloadData

section Reserialization

-- `serialize` of what the parsers of the ether types have read
variable (serializeParsed : EthernetContent → Except PacketException (List (BitVec 8)))

/-- `payload.serialize()`. -/
def serializePayload : EthernetContent → Except PacketException (List (BitVec 8))
  | .data bytes => .ok bytes
  | parsed => serializeParsed parsed

/-- `deserialize` and `serialize` one after the other; null has no bytes. -/
def reserialize (data : List (BitVec 8)) : Except PacketException (Option (List (BitVec 8))) := do
  match ← deserialize data with
  | none => return none
  | some eth =>
    let payloadData ← serializePayload serializeParsed eth.content
    return some (eth.serialize payloadData)

theorem length_serialize (eth : EthernetObject) (payloadData : List (BitVec 8)) :
    payloadData.length + 2 ≤ (eth.serialize payloadData).length := by
  unfold serialize
  rw [length_append, length_append]
  have hshort : (shortBytes eth.etherType).length = 2 := rfl
  omega

theorem content_of_deserialize {data : List (BitVec 8)} {eth : EthernetObject}
    (h : deserialize data = .ok (some eth)) :
    ∃ bb, eth.content = getContent data eth.etherType bb := by
  unfold deserialize at h
  split at h
  · cases h
  · obtain ⟨⟨_, _⟩, -, h⟩ := exists_of_bind_eq_ok h
    obtain ⟨⟨_, _⟩, -, h⟩ := exists_of_bind_eq_ok h
    obtain ⟨⟨_, _⟩, -, h⟩ := exists_of_bind_eq_ok h
    dsimp only at h
    split at h
    · obtain ⟨⟨_, _⟩, -, h⟩ := exists_of_bind_eq_ok h
      obtain ⟨⟨_, _⟩, -, h⟩ := exists_of_bind_eq_ok h
      cases h
      exact ⟨_, rfl⟩
    · cases h
      exact ⟨_, rfl⟩

/-- **No frame without a parser survives** being read and written.  A short one is null; else
the frame that comes out has the whole frame that came in behind its header. -/
theorem reserialize_ne (data : List (BitVec 8))
    (hplain : ∀ eth, deserialize data = .ok (some eth) → eth.etherType ∉ etherTypeClassMap) :
    reserialize serializeParsed data ≠ .ok (some data) := by
  intro h
  obtain ⟨eth?, hread, h⟩ := exists_of_bind_eq_ok h
  cases eth? with
  | none => cases h
  | some eth =>
    obtain ⟨bb, hcontent⟩ := content_of_deserialize hread
    obtain ⟨payloadData, hpayload, h⟩ := exists_of_bind_eq_ok h
    rw [hcontent, getContent, if_pos (hplain eth hread)] at hpayload
    cases hpayload
    have hsame : eth.serialize data = data := Option.some.inj (Except.ok.inj h)
    have hlength := eth.length_serialize data
    rw [hsame] at hlength
    omega

def taggedFrame : List (BitVec 8) :=
  List.replicate 12 1 ++ shortBytes 0x8100 ++ shortBytes 0x2005 ++ shortBytes 0x86dd ++ [1, 2, 3]

end Reserialization

theorem reserialize_tagged_ne :
    reserialize (fun _ => .ok []) taggedFrame ≠ .ok (some taggedFrame) :=
  reserialize_ne _ taggedFrame fun eth h => by
    cases h
    decide

/-- What comes out: the header, then the frame. -/
theorem reserialize_tagged : reserialize (fun _ => .ok []) taggedFrame =
    .ok (some (List.replicate 12 1 ++ shortBytes 0x8100 ++ shortBytes 0x2005 ++
      shortBytes 0x86dd ++ taggedFrame)) := rfl

end EthernetObject

/-! ### Well-formed frames -/

/-- A frame with a UDP datagram that is not fragmented, with or without a VLAN
tag and with any bytes behind the datagram. -/
structure UDPFrame where
  destinationMACAddress : BitVec 48
  sourceMACAddress : BitVec 48
  tci : Option (BitVec 16)
  diffServ : BitVec 8
  identification : BitVec 16
  /-- The reserved bit and "don't fragment". -/
  flags : BitVec 2
  ttl : BitVec 8
  headerChecksum : BitVec 16
  sourceAddress : BitVec 32
  destinationAddress : BitVec 32
  options : List (BitVec 8)
  sourcePort : BitVec 16
  destinationPort : BitVec 16
  checksum : BitVec 16
  payload : List (BitVec 8)
  trailer : List (BitVec 8)
  options_words : options.length % 4 = 0
  options_length : options.length ≤ 40
  total_length : 28 + options.length + payload.length ≤ 65535

namespace UDPFrame

def macBytes (mac : BitVec 48) : List (BitVec 8) :=
  shortBytes (mac.extractLsb' 32 16) ++ intBytes (mac.extractLsb' 0 32)

@[simp] theorem length_macBytes (mac : BitVec 48) : (macBytes mac).length = 6 := rfl

def totalLength (f : UDPFrame) : ℕ := 20 + f.options.length + (8 + f.payload.length)

def datagram (f : UDPFrame) : List (BitVec 8) :=
  shortBytes f.sourcePort ++ shortBytes f.destinationPort ++
    shortBytes (BitVec.ofNat 16 (8 + f.payload.length)) ++ shortBytes f.checksum ++ f.payload

/-- The IPv4 header of a packet with the given payload length, checksum and
destination. -/
def headerBytes (f : UDPFrame) (payloadLength : ℕ) (checksum : BitVec 16)
    (destinationAddress : BitVec 32) : List (BitVec 8) :=
  [BitVec.ofNat 8 (0x40 + (5 + f.options.length / 4)), f.diffServ] ++
    shortBytes (BitVec.ofNat 16 (20 + f.options.length + payloadLength)) ++
    shortBytes f.identification ++ shortBytes (f.flags ++ 0#14) ++ [f.ttl, 0x11] ++
    shortBytes checksum ++ intBytes f.sourceAddress ++ intBytes destinationAddress ++ f.options

def ipv4 (f : UDPFrame) : List (BitVec 8) :=
  f.headerBytes (8 + f.payload.length) f.headerChecksum f.destinationAddress ++ f.datagram

def bytes (f : UDPFrame) : List (BitVec 8) :=
  macBytes f.destinationMACAddress ++ macBytes f.sourceMACAddress ++
    (match f.tci with
    | some tci => shortBytes 0x8100 ++ shortBytes tci
    | none => []) ++
    shortBytes typeIPv4 ++ f.ipv4 ++ f.trailer

theorem length_datagram (f : UDPFrame) : f.datagram.length = 8 + f.payload.length := by
  unfold datagram
  simp only [length_append, length_shortBytes]

def readPayload (f : UDPFrame) : Except PacketException UDPPayload :=
  if UDPObject.decodes f.destinationPort || UDPObject.decodes f.sourcePort then
    UDPPayload.dhcp <$> DHCPPacket.deserialize f.payload
  else .ok (.data f.payload)

def udp (f : UDPFrame) (payload : UDPPayload) : UDPObject :=
  ⟨f.sourcePort, f.destinationPort, f.checksum, payload⟩

theorem deserialize_datagram (f : UDPFrame) :
    UDPObject.deserialize f.datagram = f.udp <$> f.readPayload := by
  unfold UDPObject.deserialize datagram
  simp only [append_assoc, getShort_shortBytes, ok_bind]
  unfold readPayload
  cases UDPObject.decodes f.destinationPort || UDPObject.decodes f.sourcePort with
  | false => rfl
  | true => cases DHCPPacket.deserialize f.payload <;> rfl

theorem options_getD_length (f : UDPFrame) :
    ((if f.options = [] then none else some f.options : Option (List (BitVec 8))).getD
      []).length % 4 = 0 := by
  split
  · rfl
  · exact f.options_words

def header (f : UDPFrame) : IPv4Packet where
  version := 4
  diffServ := f.diffServ
  identification := f.identification
  flags := (f.flags ++ 0#1).setWidth 8
  fragmentOffset := 0
  ttl := f.ttl
  protocol := 0x11
  checksum := f.headerChecksum
  sourceAddress := f.sourceAddress
  destinationAddress := f.destinationAddress
  options := if f.options = [] then none else some f.options
  payload := none
  options_length := f.options_getD_length

theorem first_byte {n : ℕ} (h : n < 16) :
    BitVec.ofNat 8 (0x40 + n) &&& 0xf = BitVec.ofNat 8 n ∧
      (BitVec.ofNat 8 (0x40 + n)).sshiftRight 4 &&& 0xf = 4 := by
  have hall : ∀ n : Fin 16, BitVec.ofNat 8 (0x40 + n) &&& 0xf = BitVec.ofNat 8 n ∧
      (BitVec.ofNat 8 (0x40 + n)).sshiftRight 4 &&& 0xf = 4 := by
    decide
  exact hall ⟨n, h⟩

theorem first_byte_written {n : ℕ} (h : n < 16) :
    ((4 : BitVec 8) &&& 0xf) <<< 4 ||| (BitVec.ofNat 8 n &&& 0xf) = BitVec.ofNat 8 (0x40 + n) := by
  have hall : ∀ n : Fin 16, ((4 : BitVec 8) &&& 0xf) <<< 4 ||| (BitVec.ofNat 8 n &&& 0xf) =
      BitVec.ofNat 8 (0x40 + n) := by
    decide
  exact hall ⟨n, h⟩

theorem flag_bits_written : ∀ flags : BitVec 2,
    (((flags ++ 0#1).setWidth 8 &&& (0x7 : BitVec 8)).setWidth 16 <<< 13) |||
      ((0 : BitVec 16) &&& 0x1fff) = flags ++ 0#14 := by
  decide

theorem flag_bits : ∀ flags : BitVec 2,
    ((flags ++ 0#14).sshiftRight 13 &&& 0x7).setWidth 8 = (flags ++ 0#1).setWidth 8 ∧
      (flags ++ 0#14) &&& 0x1fff = 0 ∧
      IPv4Object.isFragment ((flags ++ 0#1).setWidth 8) 0 = false := by
  decide

theorem getOptions_append (f : UDPFrame) (bb : List (BitVec 8)) :
    getOptions (BitVec.ofNat 8 (5 + f.options.length / 4)) (f.options ++ bb) =
      .ok (⟨f.header.options, f.header.options_length⟩, bb) := by
  have hwords := f.options_words
  have hlength := f.options_length
  have htoNat : (BitVec.ofNat 8 (5 + f.options.length / 4)).toNat =
      5 + f.options.length / 4 := by
    rw [BitVec.toNat_ofNat]
    omega
  have hbytes : (5 + f.options.length / 4 - 5) * 4 = f.options.length := by omega
  unfold getOptions
  simp only [htoNat, hbytes]
  by_cases hnil : f.options = []
  · have hzero : f.options.length = 0 := by rw [hnil, length_nil]
    rw [if_neg (by omega)]
    simp only [header, hnil, if_true, nil_append]
  · have hpos : 0 < f.options.length := length_pos_iff.mpr hnil
    rw [if_pos (by omega), dif_pos (by rw [length_append]; omega)]
    simp only [header, hnil, if_false, take_left, drop_left]

/-- `payloadLength`, from the fields of the header. -/
def payloadLength (f : UDPFrame) : ℤ :=
  (BitVec.ofNat 16 f.totalLength).toInt - (BitVec.ofNat 8 (5 + f.options.length / 4)).toNat * 4

theorem payloadLength_cases (f : UDPFrame) :
    (f.totalLength ≤ 32767 ∧ f.payloadLength = f.datagram.length) ∨
      (32767 < f.totalLength ∧ f.payloadLength < 0) := by
  have hwords := f.options_words
  have hoptions := f.options_length
  have htotal := f.total_length
  rw [f.length_datagram]
  unfold payloadLength totalLength
  rw [← BitVec.ofInt_natCast, BitVec.toInt_ofInt, Int.bmod_def, BitVec.toNat_ofNat]
  split <;> omega

/-- What the content of the packet is read as. -/
def readContent (f : UDPFrame) : Except PacketException IPv4Content :=
  if f.totalLength ≤ 32767 then (IPv4Content.udp ∘ f.udp) <$> f.readPayload
  else .error .indexOutOfBounds

theorem getContent_append (f : UDPFrame) (bb : List (BitVec 8)) :
    IPv4Object.getContent true f.payloadLength (f.datagram ++ bb) = f.readContent := by
  have hlimit : ¬ ((f.datagram ++ bb).length : ℤ) < f.payloadLength := by
    have hcases := f.payloadLength_cases
    rw [length_append]
    omega
  unfold IPv4Object.getContent readContent
  rw [if_neg hlimit]
  rcases f.payloadLength_cases with ⟨hshort, hlength⟩ | ⟨hlong, hnegative⟩
  · have hpositive : ¬ (f.datagram.length : ℤ) < 0 := by omega
    rw [if_pos hshort, hlength, if_neg hpositive, if_pos rfl, Int.toNat_natCast,
      take_left, deserialize_datagram]
    cases f.readPayload <;> rfl
  · rw [if_pos hnegative, if_neg (Nat.not_le.mpr hlong)]

theorem deserialize_ipv4 (f : UDPFrame) (bb : List (BitVec 8)) :
    IPv4Object.deserialize (f.ipv4 ++ bb) = IPv4Object.mk f.header <$> f.readContent := by
  have hlength := f.options_length
  obtain ⟨hheaderLength, hversion⟩ := @first_byte (5 + f.options.length / 4) (by omega)
  obtain ⟨hflags, hoffset, hfragment⟩ := flag_bits f.flags
  unfold IPv4Object.deserialize ipv4 headerBytes
  simp only [append_assoc, cons_append, nil_append, getByte_cons, ok_bind,
    getShort_shortBytes, getInt_intBytes, hheaderLength, hversion, hflags, hoffset, hfragment]
  rw [if_neg (by decide), getOptions_append, ok_bind]
  have hcontent := f.getContent_append bb
  unfold payloadLength totalLength at hcontent
  rw [show (!false && decide True) = true from rfl, hcontent]
  cases f.readContent <;> rfl

def eth (f : UDPFrame) (content : EthernetContent) : EthernetObject where
  destinationMACAddress := macBytes f.destinationMACAddress
  sourceMACAddress := macBytes f.sourceMACAddress
  priorityCode :=
    match f.tci with
    | some tci => (tci.sshiftRight 13 &&& 0x07).setWidth 8
    | none => 0
  vlanID :=
    match f.tci with
    | some tci => tci &&& 0x0fff
    | none => vlanUntagged
  etherType := typeIPv4
  content := content

def content (f : UDPFrame) : EthernetContent :=
  match f.readContent with
  | .ok content => .ipv4 ⟨f.header, content⟩
  | .error _ => .data f.bytes

theorem getContent_ipv4 (f : UDPFrame) (bb : List (BitVec 8)) :
    EthernetObject.getContent f.bytes typeIPv4 (f.ipv4 ++ bb) = f.content := by
  unfold EthernetObject.getContent content
  rw [if_neg (by decide), if_pos rfl, deserialize_ipv4]
  cases f.readContent <;> rfl

/-- **Reading a frame** gives the fields it is made from. -/
theorem deserialize_bytes (f : UDPFrame) :
    EthernetObject.deserialize f.bytes = .ok (some (f.eth f.content)) := by
  have hlength : ¬ f.bytes.length ≤ 16 := by
    unfold bytes ipv4 headerBytes
    simp only [length_append, length_macBytes, length_shortBytes, length_cons]
    omega
  have hmac (mac : BitVec 48) (bb : List (BitVec 8)) :
      getBytes 6 (macBytes mac ++ bb) = .ok (macBytes mac, bb) :=
    getBytes_append (macBytes mac) bb
  unfold EthernetObject.deserialize eth
  rw [if_neg hlength]
  cases htci : f.tci with
  | none =>
    have hread : getBytes 6 f.bytes = .ok (macBytes f.destinationMACAddress,
        macBytes f.sourceMACAddress ++ (shortBytes typeIPv4 ++ (f.ipv4 ++ f.trailer))) := by
      unfold bytes
      rw [htci]
      simp only [append_assoc, nil_append, hmac]
    simp only [hread, hmac, ok_bind, getShort_shortBytes]
    rw [if_neg (by decide), getContent_ipv4]
    rfl
  | some tci =>
    have hread : getBytes 6 f.bytes = .ok (macBytes f.destinationMACAddress,
        macBytes f.sourceMACAddress ++ (shortBytes 0x8100 ++ (shortBytes tci ++
          (shortBytes typeIPv4 ++ (f.ipv4 ++ f.trailer))))) := by
      unfold bytes
      rw [htci]
      simp only [append_assoc, hmac]
    simp only [hread, hmac, ok_bind, getShort_shortBytes]
    rw [if_pos trivial, getContent_ipv4]
    rfl

end UDPFrame

end NctuSdn
