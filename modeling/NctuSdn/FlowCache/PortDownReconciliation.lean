/-
Reconciliation after a port went down (`PortDownReconciliation.reconcileFlows`,
`deleteInvalidFlows`).

The entries that send to the port are read and deleted.  From the input ports of
their matches the links into the switch are followed back, and on the switches at the
other ends entries with the same fields are looked for, deleted, and followed back
again.

A delete has all fields wildcarded, so it takes every entry with the output port.
Comparing matches changes them: the wildcards of an entry that was found are all set.
Only the first request of a list is handled, and the input ports that are followed
are those of the first switch.

Design.  Statistics are exact and deletes take effect at once, so the tables are one
list of entries that the calls pass on.  The recursion of `deleteInvalidFlows` is a
list of calls that are still to be made (`runCalls`), and what is proved is that the
list runs out: a call adds others only if it took entries out of the tables.  A link
list is in the order in which the keys of `links` are visited; the order of
`neighborSwitches` is arbitrary.
-/
import NctuSdn.Forwarding.NctuForward
import NctuSdn.Lib.SetOrder
import NctuSdn.OpenFlow.FlowTable

namespace NctuSdn.PortDown

open List

/-! ### Matches -/

def networkDestinationMaskLen (m : OFMatch) : ℕ :=
  32 - ((m.wildcards &&& ofpfwNwDstMask) >>> ofpfwNwDstShift).toNat

def networkSourceMaskLen (m : OFMatch) : ℕ :=
  32 - ((m.wildcards &&& ofpfwNwSrcMask) >>> ofpfwNwSrcShift).toNat

/-- The comparison of a match of a flow with a match from the first switch. -/
def sameFields (flow m : OFMatch) : Bool :=
  decide (flow.dataLayerDestination = m.dataLayerDestination ∧
    flow.dataLayerSource = m.dataLayerSource ∧
    flow.dataLayerType = m.dataLayerType ∧
    flow.dataLayerVirtualLan = m.dataLayerVirtualLan ∧
    flow.networkDestination = m.networkDestination ∧
    networkDestinationMaskLen flow = networkDestinationMaskLen m ∧
    flow.networkProtocol = m.networkProtocol ∧
    flow.networkSource = m.networkSource ∧
    networkSourceMaskLen flow = networkSourceMaskLen m ∧
    flow.getNetworkTypeOfService = m.getNetworkTypeOfService)

/-- The index of matches by their input ports. -/
def ingress (found : List OFMatch) (port : Port) : List OFMatch :=
  found.filter fun m => decide (m.inputPort = port)

/-! ### Neighbors -/

/-- The links in the order of their keys, the switches that are there, and the orders
of sets of switches. -/
structure Network where
  links : List Link
  connected : SwitchId → Bool
  order : SetOrder (Option SwitchId)

namespace Network

variable (net : Network)

def getSwitch (dpid : SwitchId) : Option SwitchId :=
  if net.connected dpid then some dpid else none

def linksInto (found : List OFMatch) (sw : SwitchId) : List Link :=
  net.links.filter fun link => decide (link.dst = sw ∧ ingress found link.dstPort ≠ [])

/-- `neighborSwitches`: the output port and the matches to look for; a later link from
the same switch replaces an earlier one. -/
def neighborSwitches (found : List OFMatch) (sw : SwitchId) :
    Option SwitchId → Option (Port × List OFMatch) :=
  (net.linksInto found sw).foldl
    (fun neighbors link => Function.update neighbors (net.getSwitch link.src)
      (some (link.srcPort, ingress found link.dstPort)))
    fun _ => none

/-- The keys of `neighborSwitches`, in the order they are visited. -/
def neighborKeys (found : List OFMatch) (sw : SwitchId) : List (Option SwitchId) :=
  net.order.toList ((net.linksInto found sw).map fun link => net.getSwitch link.src).toFinset

variable {net} in
theorem neighborKeys_nil (sw : SwitchId) : net.neighborKeys [] sw = [] := by
  have hlinks : net.linksInto [] sw = [] := by
    unfold Network.linksInto ingress
    simp
  unfold Network.neighborKeys
  rw [hlinks]
  refine eq_nil_iff_forall_not_mem.mpr fun key hkey => ?_
  have hmem := (net.order.mem_toList _ key).mp hkey
  simp at hmem

end Network

/-! ### Requests -/

inductive ReconcileAction
  | drop
  | noChange
  | newEntry
  | updatePath
  | appInstanceChanged
  | delete
deriving DecidableEq, Repr

structure OFMatchReconcile where
  rcAction : ReconcileAction
  switchDataPathId : SwitchId
  outPort : Port

/-! ### Calls -/

/-- An entry with any number of output ports. -/
structure TableEntry where
  sw : SwitchId
  ofMatch : OFMatch
  outPorts : List Port

/-- The entries that statistics and deletes for a port are about. -/
def TableEntry.selected (sw : SwitchId) (outPort : Port) (e : TableEntry) : Bool :=
  decide (e.sw = sw ∧ (outPort = ofppNone ∨ outPort ∈ e.outPorts))

/-- The problematic matches like a flow, whose own match changes with the first delete. -/
def sameMatches : OFMatch → List OFMatch → List OFMatch
  | _, [] => []
  | flow, m :: ms =>
    if sameFields flow m then m :: sameMatches (flow.setWildcards ofpfwAll) ms
    else sameMatches flow ms

/-- The flows of a switch with a port, and the tables without them. -/
def flowsOn (tables : List TableEntry) (sw : SwitchId) (outPort : Port) : List OFMatch :=
  (tables.filter (TableEntry.selected sw outPort)).map TableEntry.ofMatch

def cleared (tables : List TableEntry) (sw : SwitchId) (outPort : Port) (found : List OFMatch) :
    List TableEntry :=
  if found = [] then tables else tables.filter fun e => !e.selected sw outPort

namespace Network

variable (net : Network)

/-- A call of `deleteInvalidFlows`: the switch, which may be null, the port and the matches. -/
abbrev DeleteCall := Option SwitchId × Port × List OFMatch

def callsFrom (found : List OFMatch) (sw : SwitchId) : List DeleteCall :=
  (net.neighborKeys found sw).filterMap fun key =>
    (net.neighborSwitches found sw key).map fun target => (key, target)

/-- The calls that are still to be made, one after the other; what a call recurses to comes before
the rest.  At most a number of calls is made. -/
def runCalls : ℕ → List DeleteCall → List TableEntry →
    Option (List TableEntry × Except JavaException Unit)
  | _, [], tables => some (tables, .ok ())
  | _, (none, _) :: _, tables => some (tables, .error .nullPointer)
  | 0, (some _, _) :: _, _ => none
  | n + 1, (some sw, outPort, ms) :: rest, tables =>
    let found := (flowsOn tables sw outPort).flatMap (sameMatches · ms)
    runCalls n (net.callsFrom found sw ++ rest) (cleared tables sw outPort found)

/-- `reconcileFlows` with at most a number of calls of `deleteInvalidFlows`. -/
def reconcileWithin (n : ℕ) (tables : List TableEntry) :
    List OFMatchReconcile → Option (List TableEntry × Except JavaException Command)
  | [] => some (tables, .ok .continue)
  | ofmr :: _ =>
    if ofmr.rcAction = .updatePath then
      match net.getSwitch ofmr.switchDataPathId with
      | none => some (tables, if net.links.isEmpty then .ok .continue else .error .nullPointer)
      | some sw =>
        let flows := flowsOn tables sw ofmr.outPort
        (net.runCalls n (net.callsFrom flows sw) (cleared tables sw ofmr.outPort flows)).map
          fun (tables, outcome) => (tables, outcome.map fun _ => .continue)
    else some (tables, .ok .continue)

theorem length_cleared_lt {tables : List TableEntry} {sw : SwitchId} {outPort : Port}
    {found : List OFMatch} (hfound : found ≠ []) (hflows : flowsOn tables sw outPort ≠ []) :
    (cleared tables sw outPort found).length < tables.length := by
  unfold cleared
  rw [if_neg hfound]
  obtain ⟨flow, hflow⟩ := exists_mem_of_ne_nil _ hflows
  obtain ⟨e, he, -⟩ := mem_map.mp hflow
  obtain ⟨he, hselected⟩ := mem_filter.mp he
  exact length_filter_lt_length_iff_exists.mpr ⟨e, he, by simp [hselected]⟩

/-- The calls come to an end: a call recurses only if it made the tables smaller. -/
theorem exists_runCalls (calls : List DeleteCall) (tables : List TableEntry) :
    ∃ n, (net.runCalls n calls tables).isSome := by
  induction hlen : tables.length using Nat.strong_induction_on generalizing calls tables with
  | _ k ih =>
    -- as long as the tables stay as they are, the calls get fewer
    induction calls with
    | nil => exact ⟨0, rfl⟩
    | cons call rest ihrest =>
      obtain ⟨_ | sw, outPort, ms⟩ := call
      · exact ⟨0, rfl⟩
      by_cases hfound : (flowsOn tables sw outPort).flatMap (sameMatches · ms) = []
      · -- nothing is found, so nothing is deleted and no call is added
        obtain ⟨n, hn⟩ := ihrest
        refine ⟨n + 1, ?_⟩
        unfold runCalls callsFrom cleared
        dsimp only
        rw [hfound, neighborKeys_nil, if_pos rfl]
        exact hn
      · have hlt := length_cleared_lt hfound fun hflows => hfound (by rw [hflows, flatMap_nil])
        obtain ⟨n, hn⟩ := ih _ (hlen ▸ hlt) (net.callsFrom _ sw ++ rest) _ rfl
        exact ⟨n + 1, hn⟩

/-- **Trace-back terminates**: finitely many calls handle every list of requests, whatever the
tables and the links. -/
theorem trace_back_terminates (net : Network) (tables : List TableEntry)
    (ofmRcList : List OFMatchReconcile) :
    ∃ n, (net.reconcileWithin n tables ofmRcList).isSome := by
  cases ofmRcList with
  | nil => exact ⟨0, rfl⟩
  | cons ofmr rest =>
    unfold reconcileWithin
    dsimp only
    by_cases haction : ofmr.rcAction = .updatePath
    · simp only [if_pos haction]
      cases net.getSwitch ofmr.switchDataPathId with
      | none => exact ⟨0, rfl⟩
      | some sw =>
        let flows := flowsOn tables sw ofmr.outPort
        obtain ⟨n, hn⟩ := net.exists_runCalls (net.callsFrom flows sw)
          (cleared tables sw ofmr.outPort flows)
        exact ⟨n, Option.isSome_map.trans hn⟩
    · simp only [if_neg haction]
      exact ⟨0, rfl⟩

end Network

end NctuSdn.PortDown
