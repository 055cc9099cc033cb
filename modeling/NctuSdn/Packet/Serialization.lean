/-
Writing packets (`IPv4.serialize`, `UDP.serialize`, `TCP.serialize`,
`ICMP.serialize`) and the checksums that are computed on the way.

Each method makes an array of the length it has computed, puts the fields and
the payload into it, and, if the checksum field is zero, sums the 16-bit words
in an `int`, folds the sum once and writes the complement over the field.

A payload is given by the bytes it serializes to; none stands for no payload.
The length fields of `IPv4` and `UDP` are always overwritten and are left out.

The arithmetic is the same in the four methods (`withChecksum`).  Each packet
has a `Writable` that says when its lengths fit into their fields.
-/
import NctuSdn.Lib.OnesComplement

namespace NctuSdn

open List BitVec Nat

/-! ### Byte buffers -/

/-- The exceptions of the packet classes. -/
inductive PacketException
  | negativeArraySize
  | bufferOverflow
  | bufferUnderflow
  | indexOutOfBounds
  | nullPointer
  | classCast
  | packetParsing
deriving DecidableEq, Repr

/-- `putShort`. -/
def shortBytes (x : BitVec 16) : List (BitVec 8) := [x.extractLsb' 8 8, x.extractLsb' 0 8]

/-- `putInt`. -/
def intBytes (x : BitVec 32) : List (BitVec 8) :=
  shortBytes (x.extractLsb' 16 16) ++ shortBytes (x.extractLsb' 0 16)

@[simp] theorem length_shortBytes (x : BitVec 16) : (shortBytes x).length = 2 := rfl

@[simp] theorem length_intBytes (x : BitVec 32) : (intBytes x).length = 4 := rfl

/-- A new array that is filled from its start. -/
def fill (length : ℤ) (puts : List (BitVec 8)) : Except PacketException (List (BitVec 8)) :=
  if length < 0 then .error .negativeArraySize
  else if length < puts.length then .error .bufferOverflow
  else .ok (puts ++ List.replicate (length.toNat - puts.length) 0)

/-- `putShort` at a place. -/
def putShort (data : List (BitVec 8)) (index : ℕ) (value : BitVec 16) : List (BitVec 8) :=
  data.take index ++ shortBytes value ++ data.drop (index + 2)

/-! ### The sum -/

/-- The loop over the words, and the padding of an odd byte. -/
def accumulate : BitVec 32 → List (BitVec 8) → BitVec 32
  | accumulation, a :: b :: rest =>
    accumulate (accumulation + (0xffff &&& (a ++ b).signExtend 32)) rest
  | accumulation, [a] => accumulation + ((a.signExtend 32 &&& 0xff) <<< 8)
  | accumulation, [] => accumulation

/-- The carry is added once, and the result complemented. -/
def complement (accumulation : BitVec 32) : BitVec 16 :=
  let accumulation := (accumulation.sshiftRight 16 &&& 0xffff) + (accumulation &&& 0xffff)
  (~~~accumulation &&& 0xffff).setWidth 16

/-- "compute checksum if needed": the sum starts with that of the pseudo header
and goes over the first `covered` bytes. -/
def withChecksum (checksum : BitVec 16) (index : ℕ) (pseudoHeader : BitVec 32) (covered : ℕ)
    (data : List (BitVec 8)) : List (BitVec 8) :=
  if checksum = 0 then
    putShort data index (complement (accumulate pseudoHeader (data.take covered)))
  else data

/-- "compute pseudo header mac", as `UDP` and `TCP` do for a parent with the
given addresses and protocol. -/
def pseudoHeader (sourceAddress destinationAddress : BitVec 32) (protocol : BitVec 8)
    (length : BitVec 32) : BitVec 32 :=
  ((sourceAddress.sshiftRight 16 &&& 0xffff) + (sourceAddress &&& 0xffff)) +
    ((destinationAddress.sshiftRight 16 &&& 0xffff) + (destinationAddress &&& 0xffff)) +
    (protocol.signExtend 32 &&& 0xff) + (length &&& 0xffff)

/-! ### The packets -/

/-- `IPv4`.  `setOptions` takes whole words only. -/
structure IPv4Packet where
  version : BitVec 8
  diffServ : BitVec 8
  identification : BitVec 16
  flags : BitVec 8
  fragmentOffset : BitVec 16
  ttl : BitVec 8
  protocol : BitVec 8
  checksum : BitVec 16
  sourceAddress : BitVec 32
  destinationAddress : BitVec 32
  options : Option (List (BitVec 8))
  payload : Option (List (BitVec 8))
  options_length : (options.getD []).length % 4 = 0

namespace IPv4Packet

/-- `headerLength`, a `byte`. -/
def headerLength (p : IPv4Packet) : BitVec 8 :=
  BitVec.ofNat 8 (5 + (p.options.getD []).length / 4)

/-- `totalLength`, a `short`. -/
def totalLength (p : IPv4Packet) : BitVec 16 :=
  BitVec.ofInt 16 (p.headerLength.toInt * 4 + (p.payload.getD []).length)

def head (p : IPv4Packet) : List (BitVec 8) :=
  [((p.version &&& 0xf) <<< 4) ||| (p.headerLength &&& 0xf), p.diffServ] ++
    shortBytes p.totalLength ++ shortBytes p.identification ++
    shortBytes (((p.flags &&& 0x7).setWidth 16 <<< 13) ||| (p.fragmentOffset &&& 0x1fff)) ++
    [p.ttl, p.protocol]

def tail (p : IPv4Packet) : List (BitVec 8) :=
  intBytes p.sourceAddress ++ intBytes p.destinationAddress ++ p.options.getD []

def serialize (p : IPv4Packet) : Except PacketException (List (BitVec 8)) := do
  let data ← fill p.totalLength.toInt
    (p.head ++ shortBytes p.checksum ++ p.tail ++ p.payload.getD [])
  return withChecksum p.checksum 10 0 (p.headerLength.toInt * 4).toNat data

end IPv4Packet

/-- `UDP`. -/
structure UDPPacket where
  sourcePort : BitVec 16
  destinationPort : BitVec 16
  checksum : BitVec 16
  payload : Option (List (BitVec 8))

namespace UDPPacket

/-- `length`, a `short`. -/
def length (p : UDPPacket) : BitVec 16 := BitVec.ofNat 16 (8 + (p.payload.getD []).length)

def head (p : UDPPacket) : List (BitVec 8) :=
  shortBytes p.sourcePort ++ shortBytes p.destinationPort ++ shortBytes p.length

/-- `serialize`, in an IPv4 packet with the given addresses, whose protocol it
sets to `PROTOCOL_UDP`. -/
def serialize (p : UDPPacket) (sourceAddress destinationAddress : BitVec 32) :
    Except PacketException (List (BitVec 8)) := do
  let data ← fill p.length.toInt (p.head ++ shortBytes p.checksum ++ p.payload.getD [])
  return withChecksum p.checksum 6
    (pseudoHeader sourceAddress destinationAddress 0x11 (p.length.signExtend 32)) data.length data

end UDPPacket

/-- `TCP`. -/
structure TCPPacket where
  sourcePort : BitVec 16
  destinationPort : BitVec 16
  sequence : BitVec 32
  acknowledge : BitVec 32
  dataOffset : BitVec 8
  flags : BitVec 16
  windowSize : BitVec 16
  checksum : BitVec 16
  urgentPointer : BitVec 16
  options : Option (List (BitVec 8))
  payload : Option (List (BitVec 8))

namespace TCPPacket

/-- The default header length is five words. -/
def offset (p : TCPPacket) : BitVec 8 := if p.dataOffset = 0 then 5 else p.dataOffset

def length (p : TCPPacket) : ℤ := p.offset.toInt * 4 + (p.payload.getD []).length

def head (p : TCPPacket) : List (BitVec 8) :=
  shortBytes p.sourcePort ++ shortBytes p.destinationPort ++ intBytes p.sequence ++
    intBytes p.acknowledge ++ shortBytes (p.flags ||| (p.offset.signExtend 16 <<< 12)) ++
    shortBytes p.windowSize

/-- The options and their padding; null is dereferenced if there should be
some. -/
def paddedOptions (p : TCPPacket) : Except PacketException (List (BitVec 8)) :=
  if 5 < p.offset.toInt then
    match p.options with
    | none => .error .nullPointer
    | some options =>
      .ok (options ++ List.replicate (p.offset.toInt * 4 - 20 - options.length).toNat 0)
  else .ok []

/-- `serialize`, in an IPv4 packet with the given addresses, whose protocol it
sets to `PROTOCOL_TCP`.  An array that is too short for the header is found out
before the options are looked at. -/
def serialize (p : TCPPacket) (sourceAddress destinationAddress : BitVec 32) :
    Except PacketException (List (BitVec 8)) := do
  let header := p.head ++ shortBytes p.checksum ++ shortBytes p.urgentPointer
  let _ ← fill p.length header
  let options ← p.paddedOptions
  let data ← fill p.length (header ++ options ++ p.payload.getD [])
  return withChecksum p.checksum 16
    (pseudoHeader sourceAddress destinationAddress 0x6 (BitVec.ofInt 32 p.length)) data.length data

end TCPPacket

/-- `ICMP`. -/
structure ICMPPacket where
  icmpType : BitVec 8
  icmpCode : BitVec 8
  checksum : BitVec 16
  payload : Option (List (BitVec 8))

namespace ICMPPacket

/-- `paddingMap`, with 0 for what is not in it. -/
def padding (p : ICMPPacket) : ℕ := if p.icmpType = 0xb ∨ p.icmpType = 0x3 then 4 else 0

def serialize (p : ICMPPacket) : Except PacketException (List (BitVec 8)) := do
  let data ← fill (4 + p.padding + (p.payload.getD []).length)
    ([p.icmpType, p.icmpCode] ++ shortBytes p.checksum ++
      (List.replicate p.padding 0 ++ p.payload.getD []))
  return withChecksum p.checksum 2 0 data.length data

end ICMPPacket

/-! ### What the arithmetic does to the sum -/

theorem toNat_and_ffff (x : BitVec 32) : (x &&& 0xffff).toNat = x.toNat % 65536 :=
  and_two_pow_sub_one_eq_mod x.toNat 16

theorem toNat_and_ff (x : BitVec 32) : (x &&& 0xff).toNat = x.toNat % 256 :=
  and_two_pow_sub_one_eq_mod x.toNat 8

theorem toNat_short (x : BitVec 16) : (x.signExtend 32 &&& 0xffff).toNat = x.toNat := by
  rw [toNat_and_ffff, toNat_signExtend, toNat_setWidth]
  have := x.isLt
  split <;> omega

theorem setWidth_signExtend_short (x : BitVec 16) : (x.signExtend 32).setWidth 16 = x := by
  apply eq_of_toNat_eq
  rw [toNat_setWidth, toNat_signExtend, toNat_setWidth]
  have := x.isLt
  split <;> omega

theorem toNat_byte (x : BitVec 8) : (x.signExtend 32 &&& 0xff).toNat = x.toNat := by
  rw [toNat_and_ff, toNat_signExtend, toNat_setWidth]
  have := x.isLt
  split <;> omega

theorem toNat_upper (x : BitVec 32) :
    (x.sshiftRight 16 &&& 0xffff).toNat = x.toNat / 65536 := by
  rw [toNat_and_ffff, toNat_sshiftRight, shiftRight_eq_div_pow,
    shiftRight_eq_div_pow]
  have := x.isLt
  split <;> omega

theorem toNat_word (a b : BitVec 8) :
    (0xffff &&& (a ++ b).signExtend 32 : BitVec 32).toNat = a.toNat * 256 + b.toNat := by
  rw [BitVec.and_comm, toNat_short, BitVec.toNat_append,
    ← Nat.shiftLeft_add_eq_or_of_lt b.isLt, Nat.shiftLeft_eq]

theorem toNat_lastByte (a : BitVec 8) :
    ((a.signExtend 32 &&& 0xff) <<< 8 : BitVec 32).toNat = a.toNat * 256 := by
  have := a.isLt
  rw [toNat_shiftLeft, toNat_byte, Nat.shiftLeft_eq]
  omega

theorem toNat_accumulate (accumulation : BitVec 32) (xs : List (BitVec 8)) :
    (accumulate accumulation xs).toNat = (accumulation.toNat + sum16 xs) % 2 ^ 32 := by
  induction xs using sum16.induct generalizing accumulation with
  | case1 a b rest ih =>
    rw [accumulate, ih, toNat_add, toNat_word, sum16]
    omega
  | case2 a =>
    rw [accumulate, toNat_add, toNat_lastByte, sum16]
  | case3 =>
    rw [accumulate, sum16]
    omega

theorem toNat_complement (accumulation : BitVec 32) :
    (complement accumulation).toNat = complementOnce accumulation.toNat := by
  unfold complement complementOnce foldOnce
  rw [toNat_setWidth, toNat_and_ffff, toNat_not, toNat_add, toNat_upper,
    toNat_and_ffff]
  have := accumulation.isLt
  omega

theorem sum16_shortBytes (x : BitVec 16) : sum16 (shortBytes x) = x.toNat := by
  have := x.isLt
  simp only [shortBytes, sum16, BitVec.extractLsb'_toNat, shiftRight_eq_div_pow]
  omega

theorem sum16_intBytes (x : BitVec 32) :
    sum16 (intBytes x) = x.toNat / 65536 + x.toNat % 65536 := by
  have := x.isLt
  rw [intBytes, sum16_append (by simp), sum16_shortBytes, sum16_shortBytes,
    BitVec.extractLsb'_toNat, BitVec.extractLsb'_toNat, shiftRight_eq_div_pow,
    shiftRight_zero]
  omega

/-- The pseudo header of RFC 768 and RFC 793. -/
def pseudoHeaderBytes (sourceAddress destinationAddress : BitVec 32) (protocol : BitVec 8)
    (length : BitVec 16) : List (BitVec 8) :=
  intBytes sourceAddress ++ intBytes destinationAddress ++ [0, protocol] ++ shortBytes length

theorem toNat_pseudoHeader (sourceAddress destinationAddress : BitVec 32) (protocol : BitVec 8)
    (length : BitVec 32) :
    (pseudoHeader sourceAddress destinationAddress protocol length).toNat =
      sum16 (pseudoHeaderBytes sourceAddress destinationAddress protocol
        (length.setWidth 16)) := by
  have hs := sourceAddress.isLt
  have hd := destinationAddress.isLt
  have hp := protocol.isLt
  unfold pseudoHeader pseudoHeaderBytes
  simp only [toNat_add, toNat_upper, toNat_byte]
  simp only [toNat_and_ffff]
  rw [sum16_append (by simp), sum16_append (by simp), sum16_append (by simp), sum16_intBytes,
    sum16_intBytes, sum16_shortBytes, toNat_setWidth, sum16, sum16]
  have hzero : (0 : BitVec 8).toNat = 0 := rfl
  omega

theorem putShort_zero (head tail : List (BitVec 8)) (value : BitVec 16) :
    putShort (head ++ [0, 0] ++ tail) head.length value = head ++ shortBytes value ++ tail := by
  unfold putShort
  simp

theorem sum16_putShort {head : List (BitVec 8)} (heven : head.length % 2 = 0)
    (tail : List (BitVec 8)) (value : BitVec 16) :
    sum16 (putShort (head ++ [0, 0] ++ tail) head.length value) =
      sum16 (head ++ [0, 0] ++ tail) + value.toNat := by
  rw [putShort_zero, List.append_assoc, List.append_assoc, sum16_append heven,
    sum16_append heven, sum16_append (by simp), sum16_append (by simp), sum16_shortBytes,
    sum16, sum16]
  have hzero : (0 : BitVec 8).toNat = 0 := rfl
  omega

theorem take_withChecksum (head tail rest : List (BitVec 8)) (pseudoHeader : BitVec 32) :
    (withChecksum 0 head.length pseudoHeader (head ++ [0, 0] ++ tail).length
        (head ++ [0, 0] ++ tail ++ rest)).take (head ++ [0, 0] ++ tail).length =
      putShort (head ++ [0, 0] ++ tail) head.length
        (complement (accumulate pseudoHeader (head ++ [0, 0] ++ tail))) := by
  rw [withChecksum, if_pos rfl, List.take_left, List.append_assoc (head ++ [0, 0]),
    putShort_zero, putShort_zero, ← List.append_assoc]
  exact List.take_left' (by
    simp only [List.length_append, length_shortBytes, List.length_cons, List.length_nil])

/-- **The written checksum** verifies exactly if one fold of the sum leaves no
carry. -/
theorem withChecksum_verifies_iff (pseudo head tail rest : List (BitVec 8))
    {pseudoHeader : BitVec 32} (heven : head.length % 2 = 0)
    (hpseudo : pseudo.length % 2 = 0) (hsum : pseudoHeader.toNat = sum16 pseudo)
    (hbound : sum16 (pseudo ++ (head ++ [0, 0] ++ tail)) < 2 ^ 32) :
    endAround (sum16 (pseudo ++ (withChecksum 0 head.length pseudoHeader
        (head ++ [0, 0] ++ tail).length (head ++ [0, 0] ++ tail ++ rest)).take
          (head ++ [0, 0] ++ tail).length)) = 65535 ↔
      foldOnce (sum16 (pseudo ++ (head ++ [0, 0] ++ tail))) < 65536 := by
  rw [take_withChecksum, sum16_append hpseudo, sum16_putShort heven, toNat_complement,
    toNat_accumulate, hsum, ← sum16_append hpseudo, mod_eq_of_lt hbound, ← add_assoc,
    ← sum16_append hpseudo]
  exact verifies_iff hbound

theorem withChecksum_zero_verifies_iff (head tail rest : List (BitVec 8))
    (heven : head.length % 2 = 0) (hbound : sum16 (head ++ [0, 0] ++ tail) < 2 ^ 32) :
    endAround (sum16 ((withChecksum 0 head.length 0 (head ++ [0, 0] ++ tail).length
        (head ++ [0, 0] ++ tail ++ rest)).take (head ++ [0, 0] ++ tail).length)) = 65535 ↔
      foldOnce (sum16 (head ++ [0, 0] ++ tail)) < 65536 :=
  withChecksum_verifies_iff [] head tail rest heven rfl rfl hbound

theorem length_withChecksum_zero (head tail : List (BitVec 8)) (pseudoHeader : BitVec 32) (n : ℕ) :
    (withChecksum 0 head.length pseudoHeader n (head ++ [0, 0] ++ tail)).length =
      (head ++ [0, 0] ++ tail).length := by
  rw [withChecksum, if_pos rfl, putShort_zero]
  simp only [length_append, length_shortBytes, length_cons, length_nil]

theorem withChecksum_pseudo_verifies_iff (sourceAddress destinationAddress : BitVec 32)
    (protocol : BitVec 8) {length : BitVec 32} (head tail : List (BitVec 8))
    (heven : head.length % 2 = 0)
    (hlength : length.setWidth 16 = BitVec.ofNat 16 (head ++ [0, 0] ++ tail).length)
    (hbound : sum16 (pseudoHeaderBytes sourceAddress destinationAddress protocol
      (BitVec.ofNat 16 (head ++ [0, 0] ++ tail).length) ++ (head ++ [0, 0] ++ tail)) < 2 ^ 32) :
    endAround (sum16 (pseudoHeaderBytes sourceAddress destinationAddress protocol
        (BitVec.ofNat 16 (head ++ [0, 0] ++ tail).length) ++
      withChecksum 0 head.length
        (pseudoHeader sourceAddress destinationAddress protocol length)
        (head ++ [0, 0] ++ tail).length (head ++ [0, 0] ++ tail))) = 65535 ↔
      foldOnce (sum16 (pseudoHeaderBytes sourceAddress destinationAddress protocol
        (BitVec.ofNat 16 (head ++ [0, 0] ++ tail).length) ++ (head ++ [0, 0] ++ tail))) <
        65536 := by
  have hsum := toNat_pseudoHeader sourceAddress destinationAddress protocol length
  rw [hlength] at hsum
  have hverifies := withChecksum_verifies_iff _ head tail [] heven (by simp [pseudoHeaderBytes])
    hsum hbound
  rw [append_nil, take_of_length_le
    (le_of_eq (length_withChecksum_zero head tail _ _))] at hverifies
  exact hverifies

/-! ### Which packets can be written -/

theorem fill_length (puts : List (BitVec 8)) : fill puts.length puts = .ok puts := by
  unfold fill
  rw [if_neg (by omega), if_neg (by omega)]
  simp

theorem fill_enough {length : ℤ} {puts : List (BitVec 8)} (h : puts.length ≤ length) :
    ∃ data, fill length puts = .ok data := by
  unfold fill
  rw [if_neg (by omega), if_neg (by omega)]
  exact ⟨_, rfl⟩

theorem fill_short {length : ℤ} {puts : List (BitVec 8)} (h : length < puts.length) :
    ∃ e, fill length puts = .error e := by
  unfold fill
  by_cases hneg : length < 0
  · exact ⟨_, if_pos hneg⟩
  · exact ⟨_, (if_neg hneg).trans (if_pos h)⟩

/-- A `short` that was cut off is less than what it should hold. -/
theorem toInt_ofInt_short {n : ℤ} (h : -32768 ≤ n) :
    (BitVec.ofInt 16 n).toInt ≤ n ∧ ((BitVec.ofInt 16 n).toInt = n ↔ n ≤ 32767) := by
  rw [toInt_ofInt, Int.bmod_def]
  split <;> omega

namespace IPv4Packet

def size (p : IPv4Packet) : ℕ := 20 + (p.options.getD []).length + (p.payload.getD []).length

/-- The lengths fit into their fields. -/
def Writable (p : IPv4Packet) : Prop :=
  20 + (p.options.getD []).length ≤ 508 ∧ p.size ≤ 32767

theorem headerLength_toInt (p : IPv4Packet) :
    -512 ≤ p.headerLength.toInt * 4 ∧
      p.headerLength.toInt * 4 ≤ 20 + (p.options.getD []).length ∧
      (p.headerLength.toInt * 4 = 20 + (p.options.getD []).length ↔
        20 + (p.options.getD []).length ≤ 508) := by
  have hwords := p.options_length
  rw [headerLength, ← ofInt_natCast, toInt_ofInt, Int.bmod_def]
  split <;> omega

theorem totalLength_toInt (p : IPv4Packet) :
    p.totalLength.toInt ≤ p.size ∧ (p.totalLength.toInt = p.size ↔ p.Writable) := by
  obtain ⟨hge, hle, heq⟩ := p.headerLength_toInt
  obtain ⟨hcut, hfits⟩ :=
    @toInt_ofInt_short (p.headerLength.toInt * 4 + (p.payload.getD []).length) (by omega)
  unfold totalLength Writable size
  omega

theorem length_head (p : IPv4Packet) : p.head.length = 10 := rfl

theorem length_tail (p : IPv4Packet) : p.tail.length = 8 + (p.options.getD []).length := by
  unfold tail
  rw [length_append, length_append, length_intBytes, length_intBytes]

theorem serialize_writable {p : IPv4Packet} (hzero : p.checksum = 0) (h : p.Writable) :
    p.serialize = .ok (withChecksum 0 p.head.length 0 (p.head ++ [0, 0] ++ p.tail).length
      (p.head ++ [0, 0] ++ p.tail ++ p.payload.getD [])) := by
  have hcovered : (p.headerLength.toInt * 4).toNat = (p.head ++ [0, 0] ++ p.tail).length := by
    have hheader := p.headerLength_toInt.2.2.mpr h.1
    simp only [length_append, length_head, length_tail, length_cons, length_nil]
    omega
  have hsize : p.totalLength.toInt =
      (p.head ++ [0, 0] ++ p.tail ++ p.payload.getD []).length := by
    rw [p.totalLength_toInt.2.mpr h, size]
    simp only [length_append, length_head, length_tail, length_cons, length_nil]
    omega
  rw [serialize, hzero, hsize, hcovered]
  exact congrArg (· >>= _) (fill_length _)

theorem serialize_not_writable {p : IPv4Packet} (h : ¬ p.Writable) :
    ∃ e, p.serialize = .error e := by
  have hshort : p.totalLength.toInt <
      (p.head ++ shortBytes p.checksum ++ p.tail ++ p.payload.getD []).length := by
    have hcut := Int.lt_iff_le_and_ne.mpr
      ⟨p.totalLength_toInt.1, mt p.totalLength_toInt.2.mp h⟩
    simp only [length_append, length_head, length_tail, length_shortBytes]
    unfold size at hcut
    omega
  obtain ⟨e, he⟩ := fill_short hshort
  refine ⟨e, ?_⟩
  rw [serialize, he]
  rfl

end IPv4Packet

namespace UDPPacket

def size (p : UDPPacket) : ℕ := 8 + (p.payload.getD []).length

def Writable (p : UDPPacket) : Prop := p.size ≤ 32767

theorem length_toInt (p : UDPPacket) :
    p.length.toInt ≤ p.size ∧ (p.length.toInt = p.size ↔ p.Writable) := by
  have hcut := @toInt_ofInt_short (8 + (p.payload.getD []).length : ℕ) (by omega)
  unfold length Writable size
  rw [← ofInt_natCast]
  omega

theorem length_head (p : UDPPacket) : p.head.length = 6 := rfl

variable {p : UDPPacket}

theorem serialize_writable (hzero : p.checksum = 0) (h : p.Writable)
    (sourceAddress destinationAddress : BitVec 32) :
    p.serialize sourceAddress destinationAddress =
      .ok (withChecksum 0 p.head.length
        (pseudoHeader sourceAddress destinationAddress 0x11 (p.length.signExtend 32))
        (p.head ++ [0, 0] ++ p.payload.getD []).length
        (p.head ++ [0, 0] ++ p.payload.getD [])) := by
  have hsize : p.length.toInt = (p.head ++ [0, 0] ++ p.payload.getD []).length := by
    rw [p.length_toInt.2.mpr h, size]
    simp only [length_append, length_head, length_cons, length_nil]
  rw [serialize, hzero, hsize]
  exact congrArg (· >>= _) (fill_length _)

theorem serialize_kept (hchecksum : p.checksum ≠ 0) (h : p.Writable)
    (sourceAddress destinationAddress : BitVec 32) :
    p.serialize sourceAddress destinationAddress =
      .ok (p.head ++ shortBytes p.checksum ++ p.payload.getD []) := by
  have hsize : p.length.toInt =
      (p.head ++ shortBytes p.checksum ++ p.payload.getD []).length := by
    rw [p.length_toInt.2.mpr h, size]
    simp only [length_append, length_head, length_shortBytes]
  rw [serialize, hsize, fill_length]
  exact congrArg Except.ok (if_neg hchecksum)

theorem serialize_not_writable (h : ¬ p.Writable) (sourceAddress destinationAddress : BitVec 32) :
    ∃ e, p.serialize sourceAddress destinationAddress = .error e := by
  have hshort : p.length.toInt <
      (p.head ++ shortBytes p.checksum ++ p.payload.getD []).length := by
    have hcut := Int.lt_iff_le_and_ne.mpr ⟨p.length_toInt.1, mt p.length_toInt.2.mp h⟩
    simp only [length_append, length_head, length_shortBytes]
    exact hcut
  obtain ⟨e, he⟩ := fill_short hshort
  refine ⟨e, ?_⟩
  rw [serialize, he]
  rfl

theorem length_of_serialize (hzero : p.checksum = 0) {sourceAddress destinationAddress : BitVec 32}
    {data : List (BitVec 8)} (h : p.serialize sourceAddress destinationAddress = .ok data) :
    p.Writable ∧ data.length = p.size := by
  by_cases hwritable : p.Writable
  · rw [serialize_writable hzero hwritable] at h
    cases h
    refine ⟨hwritable, ?_⟩
    rw [length_withChecksum_zero]
    simp only [length_append, length_head, length_cons, length_nil, size]
  · obtain ⟨e, he⟩ := serialize_not_writable hwritable sourceAddress destinationAddress
    cases he.symm.trans h

end UDPPacket

namespace TCPPacket

/-- The options with their padding, if there should be some. -/
def optionsArea (p : TCPPacket) : List (BitVec 8) :=
  if 5 < p.offset.toInt then
    p.options.getD [] ++
      List.replicate (p.offset.toInt * 4 - 20 - (p.options.getD []).length).toNat 0
  else []

def tail (p : TCPPacket) : List (BitVec 8) :=
  shortBytes p.urgentPointer ++ p.optionsArea ++ p.payload.getD []

/-- The header has room for its fields, and its options are there and fit. -/
def Writable (p : TCPPacket) : Prop :=
  p.offset.toInt = 5 ∨
    5 < p.offset.toInt ∧ ∃ options, p.options = some options ∧
      20 + options.length ≤ 4 * p.offset.toInt

theorem length_head (p : TCPPacket) : p.head.length = 16 := rfl

variable {p : TCPPacket}

theorem paddedOptions_writable (h : p.Writable) :
    p.paddedOptions = .ok p.optionsArea := by
  unfold paddedOptions optionsArea
  rcases h with hfive | ⟨hmore, options, hoptions, -⟩
  · rw [if_neg (by omega), if_neg (by omega)]
  · rw [if_pos hmore, if_pos hmore, hoptions]
    rfl

theorem length_writable (h : p.Writable) :
    p.length = (p.head ++ [0, 0] ++ p.tail).length := by
  have harea : (p.optionsArea.length : ℤ) = p.offset.toInt * 4 - 20 := by
    unfold optionsArea
    rcases h with hfive | ⟨hmore, options, hoptions, hfits⟩
    · rw [if_neg (by omega), length_nil]
      omega
    · rw [if_pos hmore, hoptions, Option.getD_some, length_append, length_replicate]
      omega
  unfold length tail
  simp only [length_append, length_head, length_shortBytes, length_cons,
    length_nil]
  omega

theorem serialize_writable (hzero : p.checksum = 0) (h : p.Writable)
    (sourceAddress destinationAddress : BitVec 32) :
    p.serialize sourceAddress destinationAddress =
      .ok (withChecksum 0 p.head.length
        (pseudoHeader sourceAddress destinationAddress 0x6 (BitVec.ofInt 32 p.length))
        (p.head ++ [0, 0] ++ p.tail).length (p.head ++ [0, 0] ++ p.tail)) := by
  have hlength := length_writable h
  obtain ⟨header, hheader⟩ : ∃ data,
      fill p.length (p.head ++ shortBytes p.checksum ++ shortBytes p.urgentPointer) =
        .ok data := by
    apply fill_enough
    rw [hlength, tail]
    simp only [List.length_append, length_shortBytes, List.length_cons, List.length_nil]
    omega
  have hdata : fill p.length (p.head ++ [0, 0] ++ p.tail) = .ok (p.head ++ [0, 0] ++ p.tail) := by
    rw [hlength]
    exact fill_length _
  have hputs : p.head ++ shortBytes 0 ++ shortBytes p.urgentPointer ++ p.optionsArea ++
      p.payload.getD [] = p.head ++ [0, 0] ++ p.tail := by
    unfold tail
    simp only [List.append_assoc]
    rfl
  rw [serialize, hheader, paddedOptions_writable h, hzero]
  dsimp only [bind, Except.bind]
  rw [hputs, hdata]
  rfl

theorem length_not_writable (h : ¬ p.Writable) {options : List (BitVec 8)}
    (hoptions : p.paddedOptions = .ok options) :
    p.length < (p.head ++ shortBytes p.checksum ++ shortBytes p.urgentPointer ++ options ++
      p.payload.getD []).length := by
  have hroom : p.offset.toInt * 4 < 20 + (options.length : ℤ) := by
    unfold paddedOptions at hoptions
    by_cases hmore : 5 < p.offset.toInt
    · rw [if_pos hmore] at hoptions
      cases hnull : p.options with
      | none =>
        rw [hnull] at hoptions
        cases hoptions
      | some given =>
        rw [hnull] at hoptions
        cases hoptions
        have hlong : ¬ 20 + (given.length : ℤ) ≤ 4 * p.offset.toInt :=
          fun hfits => h (.inr ⟨hmore, given, hnull, hfits⟩)
        rw [length_append]
        omega
    · rw [if_neg hmore] at hoptions
      cases hoptions
      have hfive : p.offset.toInt ≠ 5 := fun hfive => h (.inl hfive)
      rw [length_nil]
      omega
  unfold length
  simp only [length_append, length_head, length_shortBytes]
  omega

theorem serialize_not_writable (h : ¬ p.Writable) (sourceAddress destinationAddress : BitVec 32) :
    ∃ e, p.serialize sourceAddress destinationAddress = .error e := by
  unfold serialize
  dsimp only [bind, Except.bind]
  cases hheader : fill p.length
      (p.head ++ shortBytes p.checksum ++ shortBytes p.urgentPointer) with
  | error e => exact ⟨e, rfl⟩
  | ok header =>
    dsimp only
    cases hoptions : p.paddedOptions with
    | error e => exact ⟨e, rfl⟩
    | ok options =>
      -- what is put is longer than the header says
      obtain ⟨e, he⟩ := fill_short (length_not_writable h hoptions)
      dsimp only
      rw [he]
      exact ⟨e, rfl⟩

end TCPPacket

namespace ICMPPacket

def tail (p : ICMPPacket) : List (BitVec 8) := List.replicate p.padding 0 ++ p.payload.getD []

theorem serialize_zero {p : ICMPPacket} (hzero : p.checksum = 0) :
    p.serialize = .ok (withChecksum 0 [p.icmpType, p.icmpCode].length 0
      ([p.icmpType, p.icmpCode] ++ [0, 0] ++ p.tail).length
      ([p.icmpType, p.icmpCode] ++ [0, 0] ++ p.tail)) := by
  have hsize : (4 + p.padding + (p.payload.getD []).length : ℤ) =
      ([p.icmpType, p.icmpCode] ++ [0, 0] ++ p.tail).length := by
    unfold tail
    simp only [length_append, length_replicate, length_cons, length_nil]
    omega
  rw [serialize, hzero, hsize]
  exact congrArg (· >>= _) (fill_length _)

end ICMPPacket

/-! ### Checksums verify -/

/-- A packet with a checksum; `UDP` and `TCP` are in an IPv4 packet with the
given addresses. -/
inductive ChecksumPacket
  | ipv4 (p : IPv4Packet)
  | udp (p : UDPPacket) (sourceAddress destinationAddress : BitVec 32)
  | tcp (p : TCPPacket) (sourceAddress destinationAddress : BitVec 32)
  | icmp (p : ICMPPacket)

namespace ChecksumPacket

def checksum : ChecksumPacket → BitVec 16
  | ipv4 p => p.checksum
  | udp p _ _ => p.checksum
  | tcp p _ _ => p.checksum
  | icmp p => p.checksum

def serialize : ChecksumPacket → Except PacketException (List (BitVec 8))
  | ipv4 p => p.serialize
  | udp p sourceAddress destinationAddress => p.serialize sourceAddress destinationAddress
  | tcp p sourceAddress destinationAddress => p.serialize sourceAddress destinationAddress
  | icmp p => p.serialize

/-- What the checksum in the bytes of a packet covers: the header of `IPv4`,
the pseudo header and the whole packet of `UDP` and `TCP`. -/
def covered (data : List (BitVec 8)) : ChecksumPacket → List (BitVec 8)
  | ipv4 p => data.take (20 + (p.options.getD []).length)
  | udp _ sourceAddress destinationAddress =>
    pseudoHeaderBytes sourceAddress destinationAddress 0x11 (BitVec.ofNat 16 data.length) ++ data
  | tcp _ sourceAddress destinationAddress =>
    pseudoHeaderBytes sourceAddress destinationAddress 0x6 (BitVec.ofNat 16 data.length) ++ data
  | icmp _ => data

/-- The packet is written, with a checksum that verifies. -/
def Verifies (p : ChecksumPacket) : Prop :=
  ∃ data, p.serialize = .ok data ∧ endAround (sum16 (p.covered data)) = 65535

def size : ChecksumPacket → ℕ
  | ipv4 p => p.size
  | udp p _ _ => p.size
  | tcp p _ _ => (p.head ++ [0, 0] ++ p.tail).length
  | icmp p => ([p.icmpType, p.icmpCode] ++ [0, 0] ++ p.tail).length

def Writable : ChecksumPacket → Prop
  | ipv4 p => p.Writable
  | udp p _ _ => p.Writable
  | tcp p _ _ => p.Writable
  | icmp _ => True

/-- What is covered, with zero for the checksum. -/
def fields : ChecksumPacket → List (BitVec 8)
  | ipv4 p => p.head ++ [0, 0] ++ p.tail
  | udp p sourceAddress destinationAddress =>
    pseudoHeaderBytes sourceAddress destinationAddress 0x11 (BitVec.ofNat 16 p.size) ++
      (p.head ++ [0, 0] ++ p.payload.getD [])
  | tcp p sourceAddress destinationAddress =>
    pseudoHeaderBytes sourceAddress destinationAddress 0x6
        (BitVec.ofNat 16 (p.head ++ [0, 0] ++ p.tail).length) ++
      (p.head ++ [0, 0] ++ p.tail)
  | icmp p => [p.icmpType, p.icmpCode] ++ [0, 0] ++ p.tail

variable {p : ChecksumPacket}

theorem verifies_iff_of_bytes {data : List (BitVec 8)} (hwritable : p.Writable)
    (hdata : p.serialize = .ok data) :
    p.Verifies ↔ p.Writable ∧ endAround (sum16 (p.covered data)) = 65535 := by
  constructor
  · rintro ⟨data', hdata', hsum⟩
    cases hdata.symm.trans hdata'
    exact ⟨hwritable, hsum⟩
  · rintro ⟨-, hsum⟩
    exact ⟨data, hdata, hsum⟩

theorem verifies_iff_of_error (hwritable : ¬ p.Writable) (herror : ∃ e, p.serialize = .error e)
    (q : Prop) : p.Verifies ↔ p.Writable ∧ q := by
  obtain ⟨e, he⟩ := herror
  refine iff_of_false ?_ (fun h => hwritable h.1)
  rintro ⟨data, hdata, -⟩
  cases he.symm.trans hdata

theorem sum16_fields_lt (hsize : p.size ≤ 65535) : sum16 p.fields < 2 ^ 32 := by
  have hle := sum16_le p.fields
  have hlength : p.fields.length ≤ p.size + 12 := by
    cases p with
    | ipv4 p =>
      simp only [fields, size, IPv4Packet.size, length_append, IPv4Packet.length_head,
        IPv4Packet.length_tail, length_cons, length_nil]
      omega
    | udp p s d =>
      simp only [fields, size, UDPPacket.size, pseudoHeaderBytes, length_append,
        UDPPacket.length_head, length_intBytes, length_shortBytes, length_cons,
        length_nil]
      omega
    | tcp p s d =>
      simp only [fields, size, pseudoHeaderBytes, length_append, length_intBytes,
        length_shortBytes, length_cons, length_nil]
      omega
    | icmp p => exact le_add_right _ _
  omega

theorem ipv4_verifies_iff {p : IPv4Packet} (hzero : p.checksum = 0)
    (hsize : (ipv4 p).size ≤ 65535) :
    (ipv4 p).Verifies ↔ (ipv4 p).Writable ∧ foldOnce (sum16 (ipv4 p).fields) < 65536 := by
  by_cases h : p.Writable
  · have hcovered : 20 + (p.options.getD []).length = (p.head ++ [0, 0] ++ p.tail).length := by
      simp only [length_append, IPv4Packet.length_head, IPv4Packet.length_tail,
        length_cons, length_nil]
      omega
    rw [verifies_iff_of_bytes (p := ipv4 p) h (IPv4Packet.serialize_writable hzero h), covered,
      hcovered]
    refine and_congr_right fun _ => ?_
    apply withChecksum_zero_verifies_iff
    · rw [IPv4Packet.length_head]
    · exact sum16_fields_lt (p := ipv4 p) hsize
  · exact verifies_iff_of_error (p := ipv4 p) h (IPv4Packet.serialize_not_writable h) _

theorem udp_verifies_iff {p : UDPPacket} {sourceAddress destinationAddress : BitVec 32}
    (hzero : p.checksum = 0) (hsize : (udp p sourceAddress destinationAddress).size ≤ 65535) :
    (udp p sourceAddress destinationAddress).Verifies ↔
      (udp p sourceAddress destinationAddress).Writable ∧
        foldOnce (sum16 (udp p sourceAddress destinationAddress).fields) < 65536 := by
  by_cases h : p.Writable
  · have hlength : (p.head ++ [0, 0] ++ p.payload.getD []).length = p.size := by
      simp only [length_append, UDPPacket.length_head, length_cons, length_nil,
        UDPPacket.size]
    rw [verifies_iff_of_bytes (p := udp p sourceAddress destinationAddress) h
      (UDPPacket.serialize_writable hzero h _ _), covered, fields, length_withChecksum_zero,
      ← hlength]
    refine and_congr_right fun _ => ?_
    apply withChecksum_pseudo_verifies_iff
    · rw [UDPPacket.length_head]
    · rw [setWidth_signExtend_short, hlength]
      rfl
    · rw [hlength]
      exact sum16_fields_lt (p := udp p sourceAddress destinationAddress) hsize
  · exact verifies_iff_of_error (p := udp p sourceAddress destinationAddress) h
      (UDPPacket.serialize_not_writable h _ _) _

theorem tcp_verifies_iff {p : TCPPacket} {sourceAddress destinationAddress : BitVec 32}
    (hzero : p.checksum = 0) (hsize : (tcp p sourceAddress destinationAddress).size ≤ 65535) :
    (tcp p sourceAddress destinationAddress).Verifies ↔
      (tcp p sourceAddress destinationAddress).Writable ∧
        foldOnce (sum16 (tcp p sourceAddress destinationAddress).fields) < 65536 := by
  by_cases h : p.Writable
  · rw [verifies_iff_of_bytes (p := tcp p sourceAddress destinationAddress) h
      (TCPPacket.serialize_writable hzero h _ _), covered, fields, length_withChecksum_zero]
    refine and_congr_right fun _ => ?_
    apply withChecksum_pseudo_verifies_iff
    · rw [TCPPacket.length_head]
    · rw [TCPPacket.length_writable h, ofInt_natCast,
        setWidth_ofNat_of_le (by decide)]
    · exact sum16_fields_lt (p := tcp p sourceAddress destinationAddress) hsize
  · exact verifies_iff_of_error (p := tcp p sourceAddress destinationAddress) h
      (TCPPacket.serialize_not_writable h _ _) _

theorem icmp_verifies_iff {p : ICMPPacket} (hzero : p.checksum = 0)
    (hsize : (icmp p).size ≤ 65535) :
    (icmp p).Verifies ↔ (icmp p).Writable ∧ foldOnce (sum16 (icmp p).fields) < 65536 := by
  rw [verifies_iff_of_bytes (p := icmp p) trivial (ICMPPacket.serialize_zero hzero), covered]
  refine and_congr_right fun _ => ?_
  have hverifies := withChecksum_zero_verifies_iff [p.icmpType, p.icmpCode] p.tail [] (by simp)
    (sum16_fields_lt (p := icmp p) hsize)
  rw [append_nil, take_of_length_le
    (le_of_eq (length_withChecksum_zero _ p.tail _ _))] at hverifies
  exact hverifies

end ChecksumPacket

/-- **Serialized checksums**: with a zero checksum field and at most the maximum
length, a packet is written with a checksum that verifies exactly if it fits
into its length fields and one fold of the sum leaves no carry. -/
theorem checksum_verifies_iff (p : ChecksumPacket) (hzero : p.checksum = 0)
    (hsize : p.size ≤ 65535) :
    p.Verifies ↔ p.Writable ∧ foldOnce (sum16 p.fields) < 65536 := by
  cases p with
  | ipv4 p => exact ChecksumPacket.ipv4_verifies_iff hzero hsize
  | udp p s d => exact ChecksumPacket.udp_verifies_iff hzero hsize
  | tcp p s d => exact ChecksumPacket.tcp_verifies_iff hzero hsize
  | icmp p => exact ChecksumPacket.icmp_verifies_iff hzero hsize

def plainHeader (identification : BitVec 16) : IPv4Packet where
  version := 4
  diffServ := 0
  identification := identification
  flags := 0
  fragmentOffset := 0
  ttl := 64
  protocol := 17
  checksum := 0
  sourceAddress := 0xc0a80001
  destinationAddress := 0x0a000001
  options := none
  payload := none
  options_length := rfl

theorem checksum_verifies_plain :
    (ChecksumPacket.ipv4 (plainHeader 0)).Verifies :=
  (checksum_verifies_iff (.ipv4 (plainHeader 0)) rfl (by decide)).mpr
    ⟨⟨by decide, by decide⟩, by decide⟩

/-- With identification 0xb030 the words add up to 0x1ffff; folded once this is
0x10000, and the checksum 0xffff is written for it. -/
theorem checksum_drops_carry :
    (plainHeader 0xb030).checksum = 0 ∧ sum16 (ChecksumPacket.ipv4 (plainHeader 0xb030)).fields =
      0x1ffff ∧ (plainHeader 0xb030).serialize = .ok [0x45, 0, 0, 0x14, 0xb0, 0x30, 0, 0, 0x40,
        0x11, 0xff, 0xff, 0xc0, 0xa8, 0, 1, 0x0a, 0, 0, 1] ∧
      ¬ (ChecksumPacket.ipv4 (plainHeader 0xb030)).Verifies := by
  refine ⟨rfl, by decide, rfl, ?_⟩
  rintro ⟨data, hdata, hsum⟩
  cases hdata
  rw [endAround_eq_iff] at hsum
  exact absurd hsum (by decide)

end NctuSdn
