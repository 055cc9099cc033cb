/-
The types of OpenFlow messages.
-/
import Mathlib.Data.Nat.Notation

namespace NctuSdn

inductive OFType
  | hello | error | echoRequest | echoReply | vendor | featuresRequest | featuresReply
  | getConfigRequest | getConfigReply | setConfig | packetIn | flowRemoved | portStatus | packetOut
  | flowMod | portMod | statsRequest | statsReply | barrierRequest | barrierReply
  | queueGetConfigRequest | queueGetConfigReply
deriving DecidableEq, Repr

end NctuSdn
