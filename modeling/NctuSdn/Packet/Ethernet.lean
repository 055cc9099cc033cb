/-
Decoded frames (`Ethernet`, `IPv4`, `TCP`, `UDP`, `ARP`), with the fields that
the forwarding, firewall and topology code reads.

The payload of a frame is whatever the parser made of the bytes behind the
header.  It need not be what the ether type announces, and readers that cast
it take the consequences.
-/
import Mathlib.Tactic.Common

namespace NctuSdn

structure UDP where
  sourcePort : BitVec 16
  destinationPort : BitVec 16
deriving DecidableEq, Repr

structure TCP where
  sourcePort : BitVec 16
  destinationPort : BitVec 16
deriving DecidableEq, Repr

/-- What an IPv4 packet carries. -/
inductive IPv4Payload
  | tcp (p : TCP)
  | udp (p : UDP)
  | other
  | null
deriving DecidableEq, Repr

structure IPv4 where
  sourceAddress : BitVec 32
  destinationAddress : BitVec 32
  protocol : BitVec 8
  payload : IPv4Payload
deriving DecidableEq, Repr

/-- `ARP`, for Ethernet and IPv4. -/
structure ARP where
  opCode : BitVec 16
  senderHardwareAddress : BitVec 48
  senderProtocolAddress : BitVec 32
  targetHardwareAddress : BitVec 48
  targetProtocolAddress : BitVec 32
deriving DecidableEq, Repr

/-- What a frame carries. -/
inductive EthernetPayload
  | ipv4 (p : IPv4)
  | arp (p : ARP)
  | other
  | null
deriving DecidableEq, Repr

structure Ethernet where
  destinationMACAddress : BitVec 48
  sourceMACAddress : BitVec 48
  vlanID : BitVec 16
  etherType : BitVec 16
  payload : EthernetPayload
deriving DecidableEq, Repr

def typeIPv4 : BitVec 16 := 0x0800

def typeARP : BitVec 16 := 0x0806

end NctuSdn
