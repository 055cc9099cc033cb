/-
From the bytes of a connection to OpenFlow messages (`BasicFactory`,
`OFMessageDecoder` and the `readFrom` methods they call).

Every class reads its fields one after the other from a buffer with a reader
index.  Nothing ties what a class reads to the length in the header of the
message: some classes read a fixed number of bytes, some use the length to
size an array, and lists of actions, statistics and queues are read by loops
that watch the lengths of their elements.  The model keeps the reader index and
every value that decides where the next read takes place; of the other fields
only the widths are kept.  Indices count from the first byte of the message
that is being read.
-/
import Mathlib.Data.Int.Notation
import NctuSdn.Lib.WhileLoop
import NctuSdn.OpenFlow.Messages
import NctuSdn.OpenFlow.Parse

namespace NctuSdn

/-- Why the parser does not return a message: the cause of its
`MessageParseException`, or a loop that goes on for ever. -/
inductive ParseFailure
  | indexOutOfBounds | nullPointer | negativeArraySize | illegalState
  | endless
deriving DecidableEq, Repr

variable (data : List (BitVec 8))

/-! ### Reading a `ChannelBuffer` -/

/-- The big-endian number in `n` bytes of the buffer. -/
def numberAt (index n : ℕ) : Option (BitVec (8 * n)) :=
  (ByteBuffer.mk data 0).at? index n

/-- `readByte`, `readShort` and `readInt`. -/
def readNumber (n index : ℕ) : Except ParseFailure (BitVec (8 * n) × ℕ) :=
  match numberAt data index n with
  | some x => .ok (x, index + n)
  | none => .error .indexOutOfBounds

/-- `readBytes`, and any other read whose value decides nothing. -/
def readBytes (n index : ℕ) : Except ParseFailure ℕ :=
  if index + n ≤ data.length then .ok (index + n) else .error .indexOutOfBounds

def readFields (widths : List ℕ) (index : ℕ) : Except ParseFailure ℕ :=
  widths.foldlM (fun index n => readBytes data n index) index

/-- `readBytes(new byte[n])`. -/
def readArray (n : ℤ) (index : ℕ) : Except ParseFailure ℕ :=
  if n < 0 then .error .negativeArraySize else readBytes data n.toNat index

/-- `readerIndex(int)`. -/
def setReaderIndex (index : ℤ) : Except ParseFailure ℕ :=
  if 0 ≤ index ∧ index ≤ data.length then .ok index.toNat else .error .indexOutOfBounds

/-! ### Headers -/

def OFType.mapping : List OFType :=
  [.hello, .error, .echoRequest, .echoReply, .vendor, .featuresRequest, .featuresReply,
    .getConfigRequest, .getConfigReply, .setConfig, .packetIn, .flowRemoved, .portStatus,
    .packetOut, .flowMod, .portMod, .statsRequest, .statsReply, .barrierRequest, .barrierReply,
    .queueGetConfigRequest, .queueGetConfigReply]

/-- `OFType.valueOf`: the mapping is an array of 32 places, with null in those
of no type. -/
def OFType.valueOf (i : BitVec 8) : Except ParseFailure (Option OFType) :=
  if i.toNat < 32 then .ok OFType.mapping[i.toNat]? else .error .indexOutOfBounds

/-- `OFMessage`: the header that all messages share. -/
structure OFMessage where
  version : BitVec 8
  type : Option OFType
  length : BitVec 16
  xid : BitVec 32
deriving DecidableEq, Repr

def OFMessage.getLengthU (m : OFMessage) : ℕ :=
  m.length.toNat

def OFMessage.readFrom (index : ℕ) : Except ParseFailure (OFMessage × ℕ) := do
  let (version, index) ← readNumber data 1 index
  let (i, index) ← readNumber data 1 index
  let type ← OFType.valueOf i
  let (length, index) ← readNumber data 2 index
  let (xid, index) ← readNumber data 4 index
  return (⟨version, type, length, xid⟩, index)

/-! ### Actions -/

inductive OFActionType
  | output | setVlanId | setVlanPcp | stripVlan | setDlSrc | setDlDst | setNwSrc | setNwDst
  | setNwTos | setTpSrc | setTpDst | opaqueEnqueue | vendor
deriving DecidableEq, Repr

/-- The place of a wire value in an array of 16 places, where the negative
values are counted from the end. -/
def placeOf (i : BitVec 16) : Except ParseFailure ℕ :=
  let place := if i.toInt < 0 then 16 + i.toInt else i.toInt
  if 0 ≤ place ∧ place < 16 then .ok place.toNat else .error .indexOutOfBounds

def OFActionType.mapping : List (Option OFActionType) :=
  [some .output, some .setVlanId, some .setVlanPcp, some .stripVlan, some .setDlSrc,
    some .setDlDst, some .setNwSrc, some .setNwDst, some .setNwTos, some .setTpSrc,
    some .setTpDst, some .opaqueEnqueue, none, none, none, some .vendor]

def OFActionType.valueOf (i : BitVec 16) : Except ParseFailure (Option OFActionType) := do
  let place ← placeOf i
  return OFActionType.mapping[place]?.join

/-- `OFAction.readFrom`: the type and the length. -/
def OFAction.readFrom (index : ℕ) :
    Except ParseFailure (Option OFActionType × BitVec 16 × ℕ) := do
  let (i, index) ← readNumber data 2 index
  let type ← OFActionType.valueOf i
  let (length, index) ← readNumber data 2 index
  return (type, length, index)

/-- The widths of the fields of the classes with a fixed layout, the type and
the length included. -/
def OFActionType.fields : OFActionType → List ℕ
  | .output => [2, 2, 2, 2]
  | .setVlanId => [2, 2, 2, 2]
  | .setVlanPcp => [2, 2, 1, 2, 1]
  | .stripVlan => [2, 2, 4]
  | .setDlSrc | .setDlDst => [2, 2, 6, 4, 2]
  | .setNwSrc | .setNwDst => [2, 2, 4]
  | .setNwTos => [2, 2, 1, 2, 1]
  | .setTpSrc | .setTpDst => [2, 2, 2, 2]
  | .opaqueEnqueue => [2, 2, 2, 2, 4, 4]
  | .vendor => [2, 2, 4]

def nxVendorId : BitVec 32 := 0x00002320

def bsnVendorId : BitVec 32 := 0x005c16c7

/-- `OFActionVendorGeneric.readFrom`: the vendor, and the bytes that the
(signed) length leaves. -/
def OFActionVendorGeneric.readFrom (index : ℕ) : Except ParseFailure (BitVec 32 × ℕ) := do
  let (_, length, index) ← OFAction.readFrom data index
  let (vendor, index) ← readNumber data 4 index
  let vendorDataLength := length.toInt - 8
  if 0 < vendorDataLength then
    let index ← readArray data vendorDataLength index
    return (vendor, index)
  else return (vendor, index)

/-- `OFBigSwitchVendorActionFactory.readFrom`: an unknown subtype is not read
at all. -/
def OFBigSwitchVendorActionFactory.readFrom (index : ℕ) : Except ParseFailure ℕ := do
  let i ← readFields data [2, 2, 4] index
  let (subtype, _) ← readNumber data 4 i
  -- a mirror action, or the destination of a tunnel
  if subtype = 1 then readFields data [2, 2, 4, 4, 4, 4, 1, 1, 1, 1] index
  else if subtype = 2 then readFields data [2, 2, 4, 4, 4] index
  else return index

/-- `OFNiciraVendorActionFactory.readFrom`: an unknown subtype is not read at
all. -/
def OFNiciraVendorActionFactory.readFrom (index : ℕ) : Except ParseFailure ℕ := do
  let i ← readFields data [2, 2, 4] index
  let (subtype, _) ← readNumber data 2 i
  -- the decrement of a TTL
  if subtype = 18 then readFields data [2, 2, 4, 2, 6] index
  else return index

/-- `parseActionOne`.  The factories that the controller registers read a
vendor's action again, from its start. -/
def parseActionOne (type : Option OFActionType) (index : ℕ) : Except ParseFailure ℕ :=
  match type with
  | none => .error .nullPointer
  | some .vendor => do
      let (vendor, after) ← OFActionVendorGeneric.readFrom data index
      if vendor = bsnVendorId then OFBigSwitchVendorActionFactory.readFrom data index
      else if vendor = nxVendorId then OFNiciraVendorActionFactory.readFrom data index
      else return after
  | some type => readFields data type.fields index

/-- One round of the loop of `parseActions`, for actions that end at `stop`. -/
def parseNextAction (stop : ℤ) (index : ℕ) : Except ParseFailure (Option ℕ) :=
  if data.length < index + 4 ∨ stop < index + 4 then .ok none
  else do
    let (type, length, _) ← OFAction.readFrom data index
    -- this is all that the length of an action is used for
    if data.length < index + length.toNat ∨ stop < index + length.toNat then return none
    else
      let after ← parseActionOne data type index
      return some after

def parseActions (length : ℤ) (index : ℕ) : Except ParseFailure ℕ :=
  whileLoop .endless (parseNextAction data (index + length)) (data.length + 1) index

/-! ### Statistics -/

inductive OFStatisticsType
  | desc | flow | aggregate | table | port | queue | vendor
deriving DecidableEq, Repr

/-- `OFStatisticsType.requestMapping` and `OFStatisticsType.replyMapping`. -/
def OFStatisticsType.mapping : List (Option OFStatisticsType) :=
  [some .desc, some .flow, some .aggregate, some .table, some .port, some .queue, none, none,
    none, none, none, none, none, none, none, some .vendor]

def OFStatisticsType.valueOf (i : BitVec 16) : Except ParseFailure (Option OFStatisticsType) := do
  let place ← placeOf i
  return OFStatisticsType.mapping[place]?.join

/-- An object of class `OFStatistics` that has not been read: its length, and
how it is read, which may give it another length. -/
structure OFStatistics where
  getLength : ℤ
  readFrom : ℕ → Except ParseFailure (ℤ × ℕ)

def OFStatistics.ofFields (length : ℤ) (widths : List ℕ) : OFStatistics where
  getLength := length
  readFrom index := do
    let index ← readFields data widths index
    return (length, index)

/-- The widths of the fields of an `OFMatch`. -/
def OFMatch.fields : List ℕ :=
  [4, 2, 6, 6, 2, 1, 1, 2, 1, 1, 1, 1, 4, 4, 2, 2]

def OFFlowStatisticsReply.new : OFStatistics where
  getLength := 88
  readFrom index := do
    let (length, index) ← readNumber data 2 index
    let index ← readFields data ([1, 1] ++ OFMatch.fields ++ [4, 4, 2, 2, 2, 4, 2, 8, 8, 8]) index
    let index ← parseActions data (length.toNat - 88) index
    return (length.toNat, index)

/-- `OFVendorStatistics`, after `setLength`. -/
def OFVendorStatistics.new (length : ℤ) : OFStatistics where
  getLength := length
  readFrom index := do
    let index ← readFields data [4] index
    let index ← readArray data (length - 4) index
    return (length, index)

/-- `getStatistics`, with the length that `parseStatistics` sets for those of a
vendor. -/
def getStatistics (t : OFType) (length : ℤ) : OFStatisticsType → OFStatistics
  | .desc => .ofFields data 1056 [256, 256, 256, 32, 256]
  | .flow =>
    match t with
    | .statsRequest => .ofFields data 44 (OFMatch.fields ++ [1, 1, 2])
    | _ => OFFlowStatisticsReply.new data
  | .aggregate =>
    match t with
    | .statsRequest => .ofFields data 44 (OFMatch.fields ++ [1, 1, 2])
    | _ => .ofFields data 24 [8, 8, 4, 4]
  | .table => .ofFields data 64 [1, 1, 1, 1, 32, 4, 4, 4, 8, 8]
  | .port =>
    match t with
    | .statsRequest => .ofFields data 8 [2, 2, 4]
    | _ => .ofFields data 104 [2, 2, 4, 8, 8, 8, 8, 8, 8, 8, 8, 8, 8, 8, 8]
  | .queue =>
    match t with
    | .statsRequest => .ofFields data 8 [2, 2, 4]
    | _ => .ofFields data 32 [2, 2, 4, 8, 8, 8]
  | .vendor => OFVendorStatistics.new data length

/-- One round of the loop of `parseStatistics`: the count and the reader index
after one more object, if what is left is as long as an unread one. -/
def parseNextStatistics (statistics : OFStatistics) (length : ℤ) :
    ℤ × ℕ → Except ParseFailure (Option (ℤ × ℕ))
  | (count, index) =>
    if statistics.getLength ≤ length - count then do
      let (l, index) ← statistics.readFrom index
      return some (count + l, index)
    else return none

/-- `parseStatistics`: what is left is thrown away. -/
def parseStatistics (t : OFType) (st : Option OFStatisticsType) (length : ℤ) (start : ℕ) :
    Except ParseFailure ℕ :=
  match st with
  | none => .error .nullPointer
  | some st => do
      let (count, index) ← whileLoop .endless
        (parseNextStatistics (getStatistics data t length st) length) (data.length + 1) (0, start)
      if count < length then setReaderIndex data (start + length) else return index

/-! ### Queues -/

/-- `OFQueueProp.readFrom`, with the length that it reads; assertions are off. -/
def OFQueueProp.readFrom (index : ℕ) : Except ParseFailure (BitVec 16 × ℕ) := do
  let (type, index) ← readNumber data 2 index
  let (length, index) ← readNumber data 2 index
  let index ← readFields data [4] index
  if type = 1 ∨ type = 2 then
    let index ← readFields data [2, 4, 2] index
    return (length, index)
  else return (length, index)

/-- One round of a loop over elements with (signed) lengths of their own. -/
def parseNextElement (readFrom : ℕ → Except ParseFailure (BitVec 16 × ℕ)) :
    ℤ × ℕ → Except ParseFailure (Option (ℤ × ℕ))
  | (availLength, index) =>
    if 0 < availLength then do
      let (length, index) ← readFrom index
      return some (availLength - length.toInt, index)
    else return none

/-- `OFPacketQueue.readFrom`, with the length that it reads. -/
def OFPacketQueue.readFrom (index : ℕ) : Except ParseFailure (BitVec 16 × ℕ) := do
  let index ← readFields data [4] index
  let (length, index) ← readNumber data 2 index
  let index ← readFields data [2] index
  let (_, index) ← whileLoop .endless (parseNextElement (OFQueueProp.readFrom data))
    (data.length + 1) (length.toInt - 8, index)
  return (length, index)

/-! ### Vendor data -/

/-- `OFBasicVendorId.parseVendorDataType` for the vendor the controller
registers: whether the data is a role request or a role reply. -/
def parseVendorDataType (length : ℤ) (index : ℕ) : Except ParseFailure Bool :=
  if length = 0 ∨ 4 ≤ length then do
    let (dataType, _) ← readNumber data 4 index
    return dataType = 10 ∨ dataType = 11
  else return false

def parseVendorData (vendor : BitVec 32) (length : ℤ) (index : ℕ) : Except ParseFailure ℕ :=
  if vendor = nxVendorId then do
    let isRole ← parseVendorDataType data length index
    if isRole then readFields data [4, 4] index else readArray data length index
  else readArray data length index

/-! ### Messages -/

variable (m : OFMessage) (index : ℕ)

/-- The widths of the fields of an `OFPhysicalPort`. -/
def OFPhysicalPort.fields : List ℕ :=
  [2, 6, 16, 4, 4, 4, 4, 4, 4]

/-- `OFError.readFrom`, behind the header. -/
def OFError.readBody : Except ParseFailure ℕ := do
  let index ← readFields data [2, 2] index
  let dataLength : ℤ := m.getLengthU - 12
  if 0 < dataLength then readArray data dataLength index else return index

def OFEchoRequest.readBody : Except ParseFailure ℕ :=
  let datalen : ℤ := m.getLengthU - 8
  if 0 < datalen then readArray data datalen index else return index

def OFVendor.readBody : Except ParseFailure ℕ := do
  let (vendor, index) ← readNumber data 4 index
  parseVendorData data vendor (m.getLengthU - 12) index

/-- `OFFeaturesReply.readFrom`, behind the header; the division rounds towards
zero. -/
def OFFeaturesReply.readBody : Except ParseFailure ℕ := do
  let index ← readFields data [8, 4, 1, 3, 4, 4] index
  let portCount := (m.getLengthU - 32 : ℤ).tdiv 48
  readFields data (List.replicate portCount.toNat OFPhysicalPort.fields).flatten index

/-- `OFPacketIn.readFrom`, behind the header; there are two reasons. -/
def OFPacketIn.readBody : Except ParseFailure ℕ := do
  let index ← readFields data [4, 2, 2] index
  let (reason, index) ← readNumber data 1 index
  if 2 ≤ reason.toNat then .error .indexOutOfBounds
  else
    let index ← readFields data [1] index
    readArray data (m.getLengthU - 18) index

/-- `OFPacketOut.readFrom`, behind the header, with the check of `validate`. -/
def OFPacketOut.readBody : Except ParseFailure ℕ := do
  let (bufferId, index) ← readNumber data 4 index
  let index ← readFields data [2] index
  let (actionsLength, index) ← readNumber data 2 index
  let index ← parseActions data actionsLength.toNat index
  let packetDataLength : ℤ := m.getLengthU - 16 - actionsLength.toNat
  let index ← readArray data packetDataLength index
  if xor (bufferId ≠ 0xffffffff) (0 < packetDataLength) then return index
  else .error .illegalState

def OFFlowMod.readBody : Except ParseFailure ℕ := do
  let index ← readFields data (OFMatch.fields ++ [8, 2, 2, 2, 2, 4, 2, 2]) index
  parseActions data (m.getLengthU - 72) index

def OFStatisticsMessageBase.readBody (t : OFType) : Except ParseFailure ℕ := do
  let (i, index) ← readNumber data 2 index
  let statisticType ← OFStatisticsType.valueOf i
  let index ← readFields data [2] index
  parseStatistics data t statisticType (m.getLengthU - 12) index

/-- `OFQueueGetConfigReply.readFrom`, behind the header; the length is signed
here. -/
def OFQueueGetConfigReply.readBody : Except ParseFailure ℕ := do
  let index ← readFields data [2, 4, 2] index
  let (_, index) ← whileLoop .endless (parseNextElement (OFPacketQueue.readFrom data))
    (data.length + 1) (m.length.toInt - 16, index)
  return index

/-- What the class of each type reads behind the header. -/
def readBody (t : OFType) : Except ParseFailure ℕ :=
  match t with
  | .hello | .featuresRequest | .getConfigRequest | .barrierRequest | .barrierReply => .ok index
  | .error => OFError.readBody data m index
  | .echoRequest | .echoReply => OFEchoRequest.readBody data m index
  | .vendor => OFVendor.readBody data m index
  | .featuresReply => OFFeaturesReply.readBody data m index
  | .getConfigReply | .setConfig => readFields data [2, 2] index
  | .packetIn => OFPacketIn.readBody data m index
  | .flowRemoved =>
    readFields data (OFMatch.fields ++ [8, 2, 1, 1, 4, 4, 2, 1, 1, 8, 8]) index
  | .portStatus => readFields data ([1, 7] ++ OFPhysicalPort.fields) index
  | .packetOut => OFPacketOut.readBody data m index
  | .flowMod => OFFlowMod.readBody data m index
  | .portMod => readFields data [2, 6, 4, 4, 4, 4] index
  | .statsRequest => OFStatisticsMessageBase.readBody data m index .statsRequest
  | .statsReply => OFStatisticsMessageBase.readBody data m index .statsReply
  | .queueGetConfigRequest => readFields data [2, 2] index
  | .queueGetConfigReply => OFQueueGetConfigReply.readBody data m index

/-- `parseMessageOne`, with the number of bytes consumed.  Every type has a
class of its own, so that nothing is skipped after `readFrom`. -/
def parseMessageOne : Except ParseFailure (Option (OFMessage × ℕ)) :=
  if data.length < 8 then .ok none
  else do
    let (demux, _) ← OFMessage.readFrom data 0
    if data.length < demux.getLengthU then return none
    else
      match demux.type with
      | none => .error .nullPointer -- `getMessage(null)`
      | some t =>
        let (ofm, index) ← OFMessage.readFrom data 0
        let index ← readBody data ofm index t
        return some (ofm, index)

/-- One round of the loop of `parseMessage`: the messages so far and the bytes
not yet consumed. -/
def parseNextMessage :
    List OFMessage × List (BitVec 8) →
      Except ParseFailure (Option (List OFMessage × List (BitVec 8)))
  | (msglist, rest) => do
      match ← parseMessageOne rest with
      | none => return none
      | some (msg, n) => return some (msglist ++ [msg], rest.drop n)

/-- `parseMessage` (the empty list is its null), with the bytes that it
leaves. -/
def parseMessage : Except ParseFailure (List OFMessage × List (BitVec 8)) :=
  whileLoop .endless parseNextMessage (data.length + 1) ([], data)

/-! ### The decoder -/

/-- `OFMessageDecoder` on a connected channel, chunk by chunk: each chunk is
appended to the bytes kept from the last one, and what `decode` leaves of them
is kept. -/
def OFMessageDecoder.receive (kept : List (BitVec 8)) :
    List (List (BitVec 8)) → Except ParseFailure (List OFMessage × List (BitVec 8))
  | [] => .ok ([], kept)
  | chunk :: chunks => do
      let (messages, kept) ← parseMessage (kept ++ chunk)
      let (later, kept) ← OFMessageDecoder.receive kept chunks
      return (messages ++ later, kept)

end NctuSdn
