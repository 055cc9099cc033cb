/-
OpenFlow domains (`TopologyInstance.identifyOpenflowDomains`).

The switches are divided into clusters by one depth-first search over the
links.  A visit numbers the switch, follows its links, and keeps in `lowpoint`
the smallest number that a link out of the switches visited below it leads
back to.  Links to switches that have a cluster are ignored, and a visit that
ends with a lowpoint above the number of its *parent* makes a cluster of the
switches it has collected.
-/
import Mathlib.Algebra.Ring.Nat
import Mathlib.Data.Finset.Insert
import Mathlib.Data.Finset.Lattice.Basic
import NctuSdn.Lib.Search
import NctuSdn.Topology.Link

namespace NctuSdn

def longMax : ℕ := 2 ^ 63 - 1

/-- `ClusterDFS`, with the values its constructor sets. -/
structure ClusterDFS where
  dfsIndex : ℕ := longMax
  parentDFSIndex : ℕ := longMax
  lowpoint : ℕ := longMax
  visited : Bool := false
deriving DecidableEq, Repr

/-- `Cluster`, as far as its switches go. -/
structure Cluster where
  nodes : Finset SwitchId
deriving DecidableEq

/-- What `identifyOpenflowDomains` reads of a `TopologyInstance`.  The sets
are lists in the order in which they are iterated; a key that is missing from
one of the maps is an empty list. -/
structure TopologyInstance where
  switches : List SwitchId
  switchPorts : SwitchId → List Port
  switchPortLinks : NodePortTuple → List Link
  blockedPorts : List NodePortTuple
  broadcastDomainPorts : List NodePortTuple

/-- What it writes: the records of the search, `switchClusterMap` and
`clusters`. -/
structure Domains where
  dfsList : SwitchId → ClusterDFS
  switchClusterMap : SwitchId → Option Cluster
  clusters : Finset Cluster

namespace TopologyInstance

def isBlockedPort (t : TopologyInstance) (npt : NodePortTuple) : Bool :=
  npt ∈ t.blockedPorts

def isBlockedLink (t : TopologyInstance) (l : Link) : Bool :=
  t.isBlockedPort ⟨l.src, l.srcPort⟩ || t.isBlockedPort ⟨l.dst, l.dstPort⟩

def isBroadcastDomainPort (t : TopologyInstance) (npt : NodePortTuple) : Bool :=
  npt ∈ t.broadcastDomainPorts

def isBroadcastDomainLink (t : TopologyInstance) (l : Link) : Bool :=
  t.isBroadcastDomainPort ⟨l.src, l.srcPort⟩ || t.isBroadcastDomainPort ⟨l.dst, l.dstPort⟩

/-- The links met by the two nested loops of `dfsTraverse`, port by port. -/
def linksAt (t : TopologyInstance) (sw : SwitchId) : List Link :=
  (t.switchPorts sw).flatMap fun p => t.switchPortLinks ⟨sw, p⟩

end TopologyInstance

namespace Domains

/-- The start: a new record for every switch, and no cluster. -/
def init : Domains := ⟨fun _ => {}, fun _ => none, ∅⟩

/-- The assignments at the start of a visit. -/
def enter (d : Domains) (currSw : SwitchId) (parentIndex currIndex : ℕ) : Domains :=
  { d with
    dfsList := Function.update d.dfsList currSw
      { d.dfsList currSw with
        visited := true, dfsIndex := currIndex, parentDFSIndex := parentIndex } }

/-- Set the lowpoint of `currSw` if the new one is smaller. -/
def lower (d : Domains) (currSw : SwitchId) (low : ℕ) : Domains :=
  if low < (d.dfsList currSw).lowpoint then
    { d with
      dfsList := Function.update d.dfsList currSw { d.dfsList currSw with lowpoint := low } }
  else d

/-- Make a cluster of the switches of `currSet`. -/
def formCluster (d : Domains) (currSet : Finset SwitchId) : Domains where
  dfsList := d.dfsList
  switchClusterMap := fun sw => if sw ∈ currSet then some ⟨currSet⟩ else d.switchClusterMap sw
  clusters := insert ⟨currSet⟩ d.clusters

end Domains

/-- The local variables of `dfsTraverse` in its loops.  `myCurrSet` is not
among them: it is empty whenever it is passed on. -/
structure Traversal where
  currIndex : ℕ
  domains : Domains
  nodesInMyCluster : Finset SwitchId

/-- What a visit hands back: the next index, and `currSet`, which its caller
passed in. -/
structure VisitResult where
  currIndex : ℕ
  domains : Domains
  currSet : Finset SwitchId

/-- The body of the loops of `dfsTraverse`; `visit` is the recursive call.
There is no result if a link leads to no switch of the instance, which the
Java code answers with a `NullPointerException`. -/
def visitLink (t : TopologyInstance)
    (visit : ℕ → ℕ → SwitchId → Domains → Finset SwitchId → Option VisitResult)
    (currSw : SwitchId) (w : Traversal) (l : Link) : Option Traversal :=
  if l.dst = currSw then some w
  else if (w.domains.switchClusterMap l.dst).isSome then some w
  else if t.isBlockedLink l then some w
  else if t.isBroadcastDomainLink l then some w
  else if l.dst ∉ t.switches then none
  else if (w.domains.dfsList l.dst).dfsIndex < (w.domains.dfsList currSw).dfsIndex then
    some { w with domains := w.domains.lower currSw (w.domains.dfsList l.dst).dfsIndex }
  else if (w.domains.dfsList l.dst).visited = false then
    (visit (w.domains.dfsList currSw).dfsIndex w.currIndex l.dst w.domains ∅).map fun r =>
      { currIndex := r.currIndex
        domains := r.domains.lower currSw (r.domains.dfsList l.dst).lowpoint
        nodesInMyCluster := w.nodesInMyCluster ∪ r.currSet }
  else some w

/-- The end of `dfsTraverse`: a cluster is made if the lowpoint is above the
index of the parent, and otherwise the switches are left to the caller. -/
def finishVisit (currSw : SwitchId) (currSet : Finset SwitchId) (w : Traversal) : VisitResult :=
  if (w.domains.dfsList currSw).parentDFSIndex < (w.domains.dfsList currSw).lowpoint then
    ⟨w.currIndex, w.domains.formCluster (currSet ∪ insert currSw w.nodesInMyCluster), ∅⟩
  else
    ⟨w.currIndex, w.domains, currSet ∪ insert currSw w.nodesInMyCluster⟩

/-- `dfsTraverse`.  The first argument bounds the depth of the recursion. -/
def dfsTraverse (t : TopologyInstance) :
    ℕ → ℕ → ℕ → SwitchId → Domains → Finset SwitchId → Option VisitResult
  | 0, _, _, _, _, _ => none
  | fuel + 1, parentIndex, currIndex, currSw, d, currSet =>
    ((t.linksAt currSw).foldlM (visitLink t (dfsTraverse t fuel) currSw)
      ⟨currIndex + 1, d.enter currSw parentIndex currIndex, ∅⟩).map
      (finishVisit currSw currSet)

/-- One turn of the loop of `identifyOpenflowDomains`. -/
def identifyFrom (t : TopologyInstance) (s : Domains × Finset SwitchId) (sw : SwitchId) :
    Option (Domains × Finset SwitchId) :=
  if (s.1.dfsList sw).visited then some s
  else (dfsTraverse t t.switches.length 0 1 sw s.1 s.2).map fun r => (r.domains, r.currSet)

/-- `identifyOpenflowDomains`.  No visit is nested deeper than there are
switches. -/
def identifyOpenflowDomains (t : TopologyInstance) : Option Domains :=
  (t.switches.foldlM (identifyFrom t) (Domains.init, ∅)).map Prod.fst

/-! ### The instances considered -/

namespace TopologyInstance

/-- There is a directed link from `a` to `b`. -/
def Linked (t : TopologyInstance) (a b : SwitchId) : Prop :=
  ∃ npt, ∃ l ∈ t.switchPortLinks npt, l.src = a ∧ l.dst = b

/-- The destinations of the links at a switch, in the order they are met. -/
def targets (t : TopologyInstance) (sw : SwitchId) : List SwitchId := (t.linksAt sw).map Link.dst

/-- An instance as `TopologyManager` builds it (`addPortToSwitch`,
`addLinkToStructure`), with no port blocked and none in a broadcast domain. -/
structure Regular (t : TopologyInstance) : Prop where
  endpoints : ∀ npt, ∀ l ∈ t.switchPortLinks npt, l.src ∈ t.switches ∧ l.dst ∈ t.switches
  incident : ∀ npt, ∀ l ∈ t.switchPortLinks npt,
    npt = ⟨l.src, l.srcPort⟩ ∨ npt = ⟨l.dst, l.dstPort⟩
  listed : ∀ npt, ∀ l ∈ t.switchPortLinks npt,
    l ∈ t.switchPortLinks ⟨l.src, l.srcPort⟩ ∧ l.srcPort ∈ t.switchPorts l.src
  noBlockedPorts : t.blockedPorts = []
  noBroadcastDomainPorts : t.broadcastDomainPorts = []
  few : t.switches.length < longMax

variable {t : TopologyInstance} {v u : SwitchId}

theorem mem_linksAt {l : Link} :
    l ∈ t.linksAt v ↔ ∃ p ∈ t.switchPorts v, l ∈ t.switchPortLinks ⟨v, p⟩ := by
  simp [linksAt]

theorem Regular.isBlockedLink (ht : t.Regular) (l : Link) : t.isBlockedLink l = false := by
  simp [TopologyInstance.isBlockedLink, isBlockedPort, ht.noBlockedPorts]

theorem Regular.isBroadcastDomainLink (ht : t.Regular) (l : Link) :
    t.isBroadcastDomainLink l = false := by
  simp [TopologyInstance.isBroadcastDomainLink, isBroadcastDomainPort,
    ht.noBroadcastDomainPorts]

theorem Regular.linked_of_mem (ht : t.Regular) (h : u ∈ t.targets v) (huv : u ≠ v) :
    t.Linked v u := by
  obtain ⟨l, hl, rfl⟩ := List.mem_map.mp h
  obtain ⟨p, -, hl⟩ := mem_linksAt.mp hl
  refine ⟨_, l, hl, ?_, rfl⟩
  rcases ht.incident _ l hl with heq | heq
  · exact (congrArg NodePortTuple.nodeId heq).symm
  · exact absurd (congrArg NodePortTuple.nodeId heq).symm huv

theorem Regular.mem_targets (ht : t.Regular) (h : t.Linked v u) : u ∈ t.targets v := by
  obtain ⟨npt, l, hl, rfl, rfl⟩ := h
  obtain ⟨hmem, hport⟩ := ht.listed npt l hl
  exact List.mem_map.mpr ⟨l, mem_linksAt.mpr ⟨l.srcPort, hport, hmem⟩, rfl⟩

theorem Regular.linked_mem (ht : t.Regular) (h : t.Linked v u) :
    v ∈ t.switches ∧ u ∈ t.switches := by
  obtain ⟨npt, l, hl, rfl, rfl⟩ := h
  exact ht.endpoints npt l hl

def unvisited (t : TopologyInstance) (d : Domains) : ℕ :=
  t.switches.countP fun sw => !(d.dfsList sw).visited

end TopologyInstance

/-! ### Reading the records -/

namespace Domains

def Visited (d : Domains) (sw : SwitchId) : Prop := (d.dfsList sw).visited = true

def index (d : Domains) (sw : SwitchId) : ℕ := (d.dfsList sw).dfsIndex

def low (d : Domains) (sw : SwitchId) : ℕ := (d.dfsList sw).lowpoint

/-- The switches visited in `d` but not in `d₀`. -/
def discovered (d₀ d : Domains) : Set SwitchId := {sw | d.Visited sw ∧ ¬ d₀.Visited sw}

variable {d₀ d : Domains} {v x : SwitchId} {p n k : ℕ} {s : Finset SwitchId}

theorem mem_discovered : x ∈ discovered d₀ d ↔ d.Visited x ∧ ¬ d₀.Visited x := Iff.rfl

theorem dfsList_enter_of_ne (h : x ≠ v) : (d.enter v p n).dfsList x = d.dfsList x :=
  Function.update_of_ne h _ _

theorem dfsList_enter_self : (d.enter v p n).dfsList v =
    { d.dfsList v with visited := true, dfsIndex := n, parentDFSIndex := p } :=
  Function.update_self _ _ _

theorem visited_enter : (d.enter v p n).Visited x ↔ x = v ∨ d.Visited x := by
  by_cases h : x = v
  · subst h
    simp [Visited, dfsList_enter_self]
  · simp [Visited, dfsList_enter_of_ne h, h]

theorem dfsList_lower_of_ne (h : x ≠ v) : (d.lower v k).dfsList x = d.dfsList x := by
  unfold lower
  split
  · exact Function.update_of_ne h _ _
  · rfl

theorem dfsList_lower_self :
    (d.lower v k).dfsList v = { d.dfsList v with lowpoint := min k (d.low v) } := by
  unfold lower
  split
  case isTrue h =>
    have hmin : min k (d.low v) = k := min_eq_left (le_of_lt h)
    rw [hmin]
    exact Function.update_self _ _ _
  case isFalse h =>
    have hmin : min k (d.low v) = d.low v := min_eq_right (not_lt.mp h)
    rw [hmin]
    rfl

@[simp] theorem switchClusterMap_lower : (d.lower v k).switchClusterMap = d.switchClusterMap := by
  unfold lower
  split <;> rfl

@[simp] theorem visited_lower : (d.lower v k).Visited x ↔ d.Visited x := by
  by_cases h : x = v
  · subst h
    simp [Visited, dfsList_lower_self]
  · simp [Visited, dfsList_lower_of_ne h]

@[simp] theorem index_lower : (d.lower v k).index x = d.index x := by
  by_cases h : x = v
  · subst h
    simp [index, dfsList_lower_self]
  · simp [index, dfsList_lower_of_ne h]

@[simp] theorem low_lower_self : (d.lower v k).low v = min k (d.low v) := by
  simp [low, dfsList_lower_self]

@[simp] theorem discovered_lower :
    discovered d₀ (d.lower v k) = discovered d₀ d := by
  simp [discovered]

theorem switchClusterMap_formCluster_of_mem (h : x ∈ s) :
    (d.formCluster s).switchClusterMap x = some ⟨s⟩ :=
  if_pos h

theorem switchClusterMap_formCluster_of_notMem (h : x ∉ s) :
    (d.formCluster s).switchClusterMap x = d.switchClusterMap x :=
  if_neg h

theorem switchClusterMap_formCluster_eq_none_iff :
    (d.formCluster s).switchClusterMap x = none ↔ x ∉ s ∧ d.switchClusterMap x = none := by
  by_cases h : x ∈ s
  · simp [switchClusterMap_formCluster_of_mem h, h]
  · simp [switchClusterMap_formCluster_of_notMem h, h]

theorem unvisited_lower {t : TopologyInstance} :
    t.unvisited (d.lower v k) = t.unvisited d := by
  unfold TopologyInstance.unvisited
  congr 1
  funext x
  have hiff : (d.lower v k).Visited x ↔ d.Visited x := visited_lower
  rw [Bool.eq_iff_iff.mpr hiff]

end Domains

end NctuSdn
