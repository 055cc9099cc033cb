/-
Switches, ports, links and routes (`NodePortTuple`, `Link`, `Route`).

The path of a route alternates between the port a switch is entered by and
the port it is left by.  `TopologyInstance.getRoute` builds it that way, and
every reader of a path walks it two entries at a time, so a route is a list
of hops here and its path is read off (`Route.path`).
-/
import Mathlib.Tactic.Common

namespace NctuSdn

/-- A datapath id (`long`). -/
abbrev SwitchId := BitVec 64

instance SwitchId.instLawfulBEq : LawfulBEq SwitchId := inferInstance

/-- A port number (`short`). -/
abbrev Port := BitVec 16

structure NodePortTuple where
  nodeId : SwitchId
  portId : Port
deriving DecidableEq, Repr

structure Link where
  src : SwitchId
  srcPort : Port
  dst : SwitchId
  dstPort : Port
deriving DecidableEq, Repr

/-- One switch of a route. -/
structure Hop where
  switchDPID : SwitchId
  inPort : Port
  outPort : Port
deriving DecidableEq, Repr

/-- `Route`: the hops from the source to the destination.  The next-hop links
of a destination are followed until it is reached, so no switch repeats. -/
structure Route where
  hops : List Hop
  nodup : (hops.map Hop.switchDPID).Nodup

def Route.path (r : Route) : List NodePortTuple :=
  r.hops.flatMap fun h => [⟨h.switchDPID, h.inPort⟩, ⟨h.switchDPID, h.outPort⟩]

/-- The exceptions raised on the paths modelled here. -/
inductive JavaException
  | nullPointer
  | classCast
  | bufferUnderflow
  | indexOutOfBounds
  | illegalArgument
deriving DecidableEq, Repr

theorem exists_of_bind_eq_ok {ε α β : Type} {x : Except ε α} {f : α → Except ε β} {r : β}
    (h : (x >>= f) = .ok r) : ∃ a, x = .ok a ∧ f a = .ok r := by
  cases x with
  | error e => cases h
  | ok a => exact ⟨a, rfl, h⟩

end NctuSdn
