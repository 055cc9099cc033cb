/-
Quarantined ports (`LinkDiscoveryManager.processBDDPLists`).

A run takes ten ports from each of two queues, sends discovery messages out of
them, and reports those of the quarantine queue as up or down.  Messages are not
sent out of ports that are gone, but the report of such a port ends the run.
-/
import NctuSdn.Switch.ImmutablePort
import NctuSdn.Topology.LinkDiscovery

namespace NctuSdn.Quarantine

open List

/-- What a run asks for; a connected switch has states of its ports. -/
structure Network where
  getSwitch : SwitchId → Option (Port → Option (BitVec 32))
  isLinkDiscoverySuppressed : NodePortTuple → Bool
  isFastPort : NodePortTuple → Bool
  autoPortFastFeature : Bool

/-- The queues, the updates, and the ports that messages were sent out of. -/
structure Queues where
  quarantineQueue : List NodePortTuple
  maintenanceQueue : List NodePortTuple
  updates : List LDUpdate
  sent : List NodePortTuple

def bddpTaskSize : ℕ := 10

def ofppLocal : Port := 0xfffe

def portUpdate (npt : NodePortTuple) (srcPortState : BitVec 32) : LDUpdate :=
  if srcPortState &&& OFPortState.stpMask.getValue ≠ OFPortState.stpBlock.getValue then .portUp npt
  else .portDown npt

namespace Network

variable (net : Network)

/-- `isOutgoingDiscoveryAllowed`, for messages that are not reverse ones. -/
def isOutgoingDiscoveryAllowed (npt : NodePortTuple) : Bool :=
  if net.isLinkDiscoverySuppressed npt then false
  else
    match net.getSwitch npt.nodeId with
    | none => false
    | some getPort =>
      if npt.portId = ofppLocal then false
      else if getPort npt.portId = none then false
      else !(net.autoPortFastFeature && net.isFastPort npt)

def sendDiscoveryMessage (sent : List NodePortTuple) (npt : NodePortTuple) : List NodePortTuple :=
  if net.isOutgoingDiscoveryAllowed npt then sent ++ [npt] else sent

def generateSwitchPortStatusUpdate (updates : List LDUpdate) (npt : NodePortTuple) :
    Except JavaException (List LDUpdate) :=
  match net.getSwitch npt.nodeId with
  | none => .ok updates
  | some getPort =>
    match getPort npt.portId with
    | none => .error .nullPointer
    | some state => .ok (updates ++ [portUpdate npt state])

def processBDDPLists (ord : SetOrder NodePortTuple) (q : Queues) :
    Except JavaException Queues := do
  let npts := q.quarantineQueue.take bddpTaskSize
  let sent := (npts ++ q.maintenanceQueue.take bddpTaskSize).foldl net.sendDiscoveryMessage q.sent
  let updates ← (ord.toList npts.toFinset).foldlM net.generateSwitchPortStatusUpdate q.updates
  return ⟨q.quarantineQueue.drop bddpTaskSize, q.maintenanceQueue.drop bddpTaskSize, updates, sent⟩

/-! ### What is reported -/

/-- The update for a port that exists on a connected switch. -/
def statusUpdate (npt : NodePortTuple) : Option LDUpdate :=
  (net.getSwitch npt.nodeId).bind fun getPort => (getPort npt.portId).map (portUpdate npt)

/-- The port is gone, and its switch is not. -/
def Gone (npt : NodePortTuple) : Prop :=
  ∃ getPort, net.getSwitch npt.nodeId = some getPort ∧ getPort npt.portId = none

/-- The run does not throw, and has one update for each of the ports that it took. -/
def Reports (ord : SetOrder NodePortTuple) (q : Queues) : Prop :=
  ∃ (q' : Queues) (ports : List NodePortTuple), net.processBDDPLists ord q = .ok q' ∧
    ports.Nodup ∧ (∀ npt, npt ∈ ports ↔ npt ∈ q.quarantineQueue.take bddpTaskSize) ∧
    q'.updates = q.updates ++ ports.filterMap net.statusUpdate

variable {net}

theorem generateSwitchPortStatusUpdate_eq_ok_iff {npt : NodePortTuple}
    {updates updates' : List LDUpdate} :
    net.generateSwitchPortStatusUpdate updates npt = .ok updates' ↔
      ¬ net.Gone npt ∧ updates ++ (net.statusUpdate npt).toList = updates' := by
  unfold generateSwitchPortStatusUpdate statusUpdate Gone
  cases net.getSwitch npt.nodeId with
  | none => simp
  | some getPort => cases hport : getPort npt.portId <;> simp [hport]

theorem foldlM_eq_ok_iff {ports : List NodePortTuple} {updates updates' : List LDUpdate} :
    ports.foldlM net.generateSwitchPortStatusUpdate updates = .ok updates' ↔
      (∀ npt ∈ ports, ¬ net.Gone npt) ∧
        updates ++ ports.filterMap net.statusUpdate = updates' := by
  induction ports generalizing updates with
  | nil => simp [pure, Except.pure]
  | cons npt ports ih =>
    have hstep : (npt :: ports).filterMap net.statusUpdate =
        (net.statusUpdate npt).toList ++ ports.filterMap net.statusUpdate := by
      cases hstatus : net.statusUpdate npt <;> simp [hstatus]
    rw [foldlM_cons, forall_mem_cons, hstep, ← append_assoc]
    constructor
    · intro h
      obtain ⟨_, hnpt, h⟩ := exists_of_bind_eq_ok h
      obtain ⟨hgone, rfl⟩ := generateSwitchPortStatusUpdate_eq_ok_iff.mp hnpt
      obtain ⟨hports, h⟩ := ih.mp h
      exact ⟨⟨hgone, hports⟩, h⟩
    · rintro ⟨⟨hgone, hports⟩, h⟩
      rw [generateSwitchPortStatusUpdate_eq_ok_iff.mpr ⟨hgone, rfl⟩]
      exact ih.mpr ⟨hports, h⟩

theorem Reports.not_gone {ord : SetOrder NodePortTuple} {q : Queues} (h : net.Reports ord q)
    {npt : NodePortTuple} (hnpt : npt ∈ q.quarantineQueue.take bddpTaskSize) : ¬ net.Gone npt := by
  obtain ⟨q', -, hrun, -⟩ := h
  obtain ⟨updates, hupdates, -⟩ := exists_of_bind_eq_ok hrun
  exact (foldlM_eq_ok_iff.mp hupdates).1 npt ((ord.mem_toList _ npt).mpr (mem_toFinset.mpr hnpt))

variable (net)

/-- **Quarantined ports are reported** exactly if none of those that are taken is gone from a
connected switch. -/
theorem quarantined_ports_reported_iff (ord : SetOrder NodePortTuple) (q : Queues) :
    net.Reports ord q ↔ ∀ npt ∈ q.quarantineQueue.take bddpTaskSize, ¬ net.Gone npt := by
  refine ⟨fun h npt => h.not_gone, fun h => ?_⟩
  have hmem (npt) : npt ∈ ord.toList (q.quarantineQueue.take bddpTaskSize).toFinset ↔
      npt ∈ q.quarantineQueue.take bddpTaskSize := by
    rw [ord.mem_toList, mem_toFinset]
  refine ⟨⟨?_, ?_, _, ?_⟩, _, ?run, ord.nodup _, hmem, rfl⟩
  case run =>
    dsimp only [processBDDPLists]
    rw [foldlM_eq_ok_iff.mpr ⟨fun npt hnpt => h npt ((hmem npt).mp hnpt), rfl⟩]
    rfl

end Network

def onePort : Network where
  getSwitch sw := if sw = 1 then some fun port => if port = 2 then some 0 else none else none
  isLinkDiscoverySuppressed _ := false
  isFastPort _ := false
  autoPortFastFeature := false

/-- A run with a port that was deleted throws, in any order. -/
theorem quarantined_port_lost :
    ¬ ∃ ord, onePort.Reports ord ⟨[⟨1, 1⟩, ⟨1, 2⟩], [], [], []⟩ := by
  rintro ⟨ord, h⟩
  exact h.not_gone mem_cons_self ⟨_, rfl, rfl⟩

end NctuSdn.Quarantine
