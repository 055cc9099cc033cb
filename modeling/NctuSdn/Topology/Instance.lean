/-
The computation of a topology instance (`TopologyInstance.compute`).

After the clusters are found, the links inside a cluster are added to it, a
shortest path tree is computed to every switch, with link costs that grow with
the traffic of more important priorities, and the ports of the tree to the
smallest switch of a cluster become the ports that floods may use.

The collections made on the way are hash sets and hash maps.  The order in
which they are iterated is a parameter, `HashOrders`; the results below hold
for every order.
-/
import NctuSdn.Lib.SetOrder
import NctuSdn.Topology.Clusters
import NctuSdn.Topology.Dijkstra
import NctuSdn.Topology.Traffic

namespace NctuSdn

open List Option

/-! ### Iteration -/

/-- The orders of the collections made by `compute`: the clusters, the keys of
`links` in a cluster, and its sets of links. -/
structure HashOrders where
  clusters : SetOrder Cluster
  nodes : SetOrder SwitchId
  links : SwitchId → SetOrder Link

/-! ### Links of the clusters -/

abbrev DomainLinks := Cluster → SwitchId → Finset Link

/-- `Cluster.addLink`.  Both ends are switches of the cluster already. -/
def DomainLinks.addLink (m : DomainLinks) (c : Cluster) (l : Link) : DomainLinks :=
  fun c' sw => if c' = c ∧ (sw = l.src ∨ sw = l.dst) then insert l (m c' sw) else m c' sw

/-- The body of the loops of `addLinksToOpenflowDomains`.  There is no result
if neither end of the link has a cluster: the two nulls are equal and one is
dereferenced. -/
def addLinkToDomain (t : TopologyInstance) (d : Domains) (m : DomainLinks) (l : Link) :
    Option DomainLinks :=
  if t.isBlockedLink l then some m
  else if t.isBroadcastDomainLink l then some m
  else
    match d.switchClusterMap l.src, d.switchClusterMap l.dst with
    | none, none => none
    | some c1, some c2 => if c1 = c2 then some (m.addLink c1 l) else some m
    | _, _ => some m

/-- The links met by the loops of `addLinksToOpenflowDomains`. -/
def TopologyInstance.openflowLinks (t : TopologyInstance) : List Link :=
  t.switches.flatMap fun s => (t.switchPorts s).flatMap fun p =>
    if t.isBroadcastDomainPort ⟨s, p⟩ then [] else t.switchPortLinks ⟨s, p⟩

def addLinksToOpenflowDomains (t : TopologyInstance) (d : Domains) : Option DomainLinks :=
  t.openflowLinks.foldlM (addLinkToDomain t d) fun _ _ => ∅

/-- A cluster as the later steps iterate it. -/
def clusterLinks (ord : HashOrders) (m : DomainLinks) (c : Cluster) : ClusterLinks where
  nodes := ord.nodes.toList c.nodes
  links := fun v => (ord.links v).toList (m c v)

/-- `Cluster.id`, the smallest switch, as `add` keeps it. -/
def clusterId (ord : HashOrders) (c : Cluster) : SwitchId :=
  (ord.nodes.toList c.nodes).foldl (fun id n => if n.slt id then n else id) (BitVec.intMax 64)

/-! ### Link costs -/

/-- `adjustWeight`: each flow of a more important priority costs six more
links. -/
def adjustWeight (traffic : Link → Option LinkInfo) (l : Link) (priority : Fin 3) (oldW : ℤ) : ℤ :=
  match traffic l with
  | none => oldW
  | some linkInfo =>
    ((List.finRange 3).filter (· < priority)).foldl
      (fun newW p => toInt32 (newW + toInt32 (toInt32 (linkInfo p * oldW) * 6))) oldW

/-- The cost of a link: traffic is accounted to the ports at its two ends. -/
def trafficCost (traffic : Link → Option LinkInfo) (priority : Fin 3) (l : Link) : ℤ :=
  max (adjustWeight traffic (linkKey l.src l.srcPort) priority baseLinkCost)
    (adjustWeight traffic (linkKey l.dst l.dstPort) priority baseLinkCost)

/-- Put the costs of the links of a cluster into `linkCost`. -/
def putLinkCosts (traffic : Link → Option LinkInfo) (priority : Fin 3)
    (linkCost : Link → Option ℤ) (c : ClusterLinks) : Link → Option ℤ :=
  (c.nodes.flatMap c.links).foldl
    (fun linkCost l => Function.update linkCost l (some (trafficCost traffic priority l))) linkCost

/-! ### Trees -/

/-- The local variable `linkCost` and the field `destinationRootedTrees` while
the clusters are processed. -/
structure Trees where
  linkCost : Link → Option ℤ
  destinationRootedTrees : SwitchId → Option BroadcastTree

def addTree (c : ClusterLinks) (s : Trees) (node : SwitchId) : Option Trees :=
  (dijkstra c node s.linkCost true).map fun tree =>
    { s with
      destinationRootedTrees := Function.update s.destinationRootedTrees node (some tree) }

def addTrees (ord : HashOrders) (m : DomainLinks) (traffic : Link → Option LinkInfo)
    (priority : Fin 3) (s : Trees) (c : Cluster) : Option Trees :=
  (clusterLinks ord m c).nodes.foldlM (addTree (clusterLinks ord m c))
    { s with linkCost := putLinkCosts traffic priority s.linkCost (clusterLinks ord m c) }

def calculateShortestPathTreeInClusters (ord : HashOrders) (d : Domains) (m : DomainLinks)
    (traffic : Link → Option LinkInfo) (priority : Fin 3) : Option Trees :=
  (ord.clusters.toList d.clusters).foldlM (addTrees ord m traffic priority)
    ⟨fun _ => none, fun _ => none⟩

def treePorts (nodes : List SwitchId) (tree : BroadcastTree) : Finset NodePortTuple :=
  (nodes.flatMap fun nodeId =>
    match tree.links nodeId with
    | none => []
    | some l => [⟨l.src, l.srcPort⟩, ⟨l.dst, l.dstPort⟩]).toFinset

/-- One turn of the loop of `calculateBroadcastNodePortsInClusters`.  The tree
of a cluster is the one to its smallest switch; null is dereferenced if there
is none. -/
def addBroadcastNodePorts (ord : HashOrders) (trees : SwitchId → Option BroadcastTree)
    (ports : SwitchId → Option (Finset NodePortTuple)) (c : Cluster) :
    Option (SwitchId → Option (Finset NodePortTuple)) :=
  (trees (clusterId ord c)).map fun tree =>
    Function.update ports (clusterId ord c) (some (treePorts (ord.nodes.toList c.nodes) tree))

def calculateBroadcastNodePortsInClusters (ord : HashOrders) (d : Domains)
    (trees : SwitchId → Option BroadcastTree) :
    Option (SwitchId → Option (Finset NodePortTuple)) :=
  (ord.clusters.toList d.clusters).foldlM (addBroadcastNodePorts ord trees) fun _ => none

/-- A `TopologyInstance` after `compute`. -/
structure ComputedInstance extends TopologyInstance where
  ord : HashOrders
  domains : Domains
  domainLinks : DomainLinks
  linkCost : Link → Option ℤ
  destinationRootedTrees : SwitchId → Option BroadcastTree
  clusterBroadcastNodePorts : SwitchId → Option (Finset NodePortTuple)

/-- `compute`; `none` if it raises an exception. -/
def compute (ord : HashOrders) (t : TopologyInstance) (traffic : Link → Option LinkInfo)
    (priority : Fin 3) : Option ComputedInstance := do
  let d ← identifyOpenflowDomains t
  let m ← addLinksToOpenflowDomains t d
  let s ← calculateShortestPathTreeInClusters ord d m traffic priority
  let ports ← calculateBroadcastNodePortsInClusters ord d s.destinationRootedTrees
  pure
    { toTopologyInstance := t, ord := ord, domains := d, domainLinks := m
      linkCost := s.linkCost
      destinationRootedTrees := s.destinationRootedTrees
      clusterBroadcastNodePorts := ports }

def ComputedInstance.links (i : ComputedInstance) (c : Cluster) : ClusterLinks :=
  clusterLinks i.ord i.domainLinks c

/-! ### The links of a cluster -/

/-- A link belongs to the cluster that both of its ends are in. -/
def TopologyInstance.LinkOf (t : TopologyInstance) (d : Domains) (c : Cluster) (l : Link) : Prop :=
  t.isBlockedLink l = false ∧ t.isBroadcastDomainLink l = false ∧
    d.switchClusterMap l.src = some c ∧ d.switchClusterMap l.dst = some c

section Links

variable {t : TopologyInstance} {d : Domains} {m : DomainLinks} {ord : HashOrders} {c : Cluster}

variable {v : SwitchId} {l : Link}

theorem DomainLinks.mem_addLink {c' : Cluster} {l' : Link} :
    l' ∈ m.addLink c l c' v ↔ l' ∈ m c' v ∨ (l' = l ∧ c' = c ∧ (v = l.src ∨ v = l.dst)) := by
  unfold addLink
  split
  case isTrue h => simp [h, or_comm]
  case isFalse h => simp [h]

theorem mem_addLinkToDomain {m' : DomainLinks} (h : addLinkToDomain t d m l = some m') (c : Cluster)
    (v : SwitchId) (l' : Link) :
    l' ∈ m' c v ↔ l' ∈ m c v ∨ (l' = l ∧ t.LinkOf d c l ∧ (v = l.src ∨ v = l.dst)) := by
  unfold addLinkToDomain at h
  unfold TopologyInstance.LinkOf
  split_ifs at h with hblocked hdomain
  · cases h
    simp [hblocked]
  · cases h
    simp [hdomain]
  · split at h
    · cases h
    case h_2 c1 c2 hsrc hdst =>
      split_ifs at h with heq
      · cases h
        subst heq
        rw [DomainLinks.mem_addLink, hsrc, hdst]
        simp only [some.injEq, hblocked, hdomain, and_self, eq_comm]
        tauto
      · cases h
        refine ⟨.inl, fun hmem => hmem.elim id ?_⟩
        rintro ⟨-, ⟨-, -, h₁, h₂⟩, -⟩
        rw [hsrc] at h₁
        rw [hdst] at h₂
        exact absurd ((some.inj h₁).trans (some.inj h₂).symm) heq
    case h_3 hnone hsome =>
      cases h
      refine ⟨.inl, fun hmem => hmem.elim id ?_⟩
      rintro ⟨-, ⟨-, -, h₁, h₂⟩, -⟩
      exact absurd h₂ (hsome c c h₁)

/-- **Which links a cluster gets.** -/
theorem mem_domainLinks (h : addLinksToOpenflowDomains t d = some m) (c : Cluster) (v : SwitchId)
    (l : Link) :
    l ∈ m c v ↔ l ∈ t.openflowLinks ∧ t.LinkOf d c l ∧ (v = l.src ∨ v = l.dst) := by
  refine foldlM_keeps (fun done m => ∀ c v l,
    l ∈ m c v ↔ l ∈ done ∧ t.LinkOf d c l ∧ (v = l.src ∨ v = l.dst)) ?_ ?_ h c v l
  · intro done l rest m m' _ hm hstep c v l'
    rw [mem_addLinkToDomain hstep, hm, mem_append, mem_singleton]
    constructor
    · rintro (⟨hmem, hrest⟩ | ⟨rfl, hrest⟩)
      · exact ⟨.inl hmem, hrest⟩
      · exact ⟨.inr rfl, hrest⟩
    · rintro ⟨hmem | rfl, hrest⟩
      · exact .inl ⟨hmem, hrest⟩
      · exact .inr ⟨rfl, hrest⟩
  · simp

theorem mem_clusterLinks : l ∈ (clusterLinks ord m c).links v ↔ l ∈ m c v :=
  (ord.links v).mem_toList _ _

theorem mem_clusterLinks_nodes : v ∈ (clusterLinks ord m c).nodes ↔ v ∈ c.nodes :=
  ord.nodes.mem_toList _ _

theorem clusterLinks_wellFormed (hd : d.Disjoint t)
    (h : addLinksToOpenflowDomains t d = some m) (c : Cluster) :
    (clusterLinks ord m c).WellFormed := by
  refine ⟨ord.nodes.nodup _, fun v _ l hl => ?_, fun v _ l hl => ?_, fun v _ l hl => ?_⟩
  · exact ((mem_domainLinks h c v l).mp (mem_clusterLinks.mp hl)).2.2
  · obtain ⟨-, ⟨-, -, hsrc, hdst⟩, -⟩ := (mem_domainLinks h c v l).mp (mem_clusterLinks.mp hl)
    exact ⟨mem_clusterLinks_nodes.mpr (hd.mapped _ _ hsrc).1,
      mem_clusterLinks_nodes.mpr (hd.mapped _ _ hdst).1⟩
  · obtain ⟨hmem, hof, -⟩ := (mem_domainLinks h c v l).mp (mem_clusterLinks.mp hl)
    exact ⟨mem_clusterLinks.mpr ((mem_domainLinks h c _ l).mpr ⟨hmem, hof, .inl rfl⟩),
      mem_clusterLinks.mpr ((mem_domainLinks h c _ l).mpr ⟨hmem, hof, .inr rfl⟩)⟩

end Links

/-! ### The smallest switch of a cluster -/

theorem foldl_smaller (l : List SwitchId) (a : SwitchId) :
    let r := l.foldl (fun id n => if n.slt id then n else id) a
    (r = a ∨ r ∈ l) ∧ r.toInt ≤ a.toInt ∧ ∀ n ∈ l, r.toInt ≤ n.toInt := by
  induction l generalizing a with
  | nil => simp
  | cons n l ih =>
    obtain ⟨hmem, hle, hall⟩ := ih (if n.slt a then n else a)
    have hstep : (if n.slt a then n else a).toInt ≤ a.toInt ∧
        (if n.slt a then n else a).toInt ≤ n.toInt := by
      split
      case isTrue hlt =>
        rw [BitVec.slt_iff_toInt_lt] at hlt
        omega
      case isFalse hge =>
        rw [BitVec.slt_iff_toInt_lt] at hge
        omega
    refine ⟨?_, hle.trans hstep.1, ?_⟩
    · rw [foldl_cons, mem_cons]
      rcases hmem with heq | hmem
      · rw [heq]
        split
        · exact .inr (.inl rfl)
        · exact .inl rfl
      · exact .inr (.inr hmem)
    · intro k hk
      rcases mem_cons.mp hk with rfl | hk
      · exact hle.trans hstep.2
      · exact hall k hk

theorem clusterId_mem (ord : HashOrders) {c : Cluster} (h : c.nodes.Nonempty) :
    clusterId ord c ∈ c.nodes := by
  obtain ⟨v, hv⟩ := h
  have hv' : v ∈ ord.nodes.toList c.nodes := (ord.nodes.mem_toList _ _).mpr hv
  obtain ⟨hmem, -, hall⟩ := foldl_smaller (ord.nodes.toList c.nodes) (BitVec.intMax 64)
  rw [← ord.nodes.mem_toList]
  rcases hmem with heq | hmem
  · -- the start value is left only by switches that are equal to it
    have hle := hall v hv'
    rw [heq] at hle
    have hmax : v.toInt ≤ (BitVec.intMax 64).toInt := by
      have hlt := BitVec.toInt_lt (x := v)
      have hval : (BitVec.intMax 64).toInt = 2 ^ 63 - 1 := by decide
      omega
    have hvmax : v = BitVec.intMax 64 := BitVec.eq_of_toInt_eq (le_antisymm hmax hle)
    show clusterId ord c ∈ ord.nodes.toList c.nodes
    unfold clusterId
    rw [heq, ← hvmax]
    exact hv'
  · exact hmem

/-! ### The trees -/

section Trees

variable {t : TopologyInstance} {d : Domains} {m : DomainLinks} {ord : HashOrders}
  {traffic : Link → Option LinkInfo} {priority : Fin 3}

theorem putLinkCosts_apply (linkCost : Link → Option ℤ) (c : ClusterLinks) (l : Link) :
    putLinkCosts traffic priority linkCost c l =
      if l ∈ c.nodes.flatMap c.links then some (trafficCost traffic priority l)
      else linkCost l := by
  unfold putLinkCosts
  induction c.nodes.flatMap c.links generalizing linkCost with
  | nil => simp
  | cons l' ls ih =>
    rw [foldl_cons, ih]
    by_cases hmem : l ∈ ls
    · simp [hmem]
    · by_cases heq : l = l'
      · subst heq
        simp [hmem]
      · simp [hmem, heq]

theorem ClusterLinks.mem_flatMap {c : ClusterLinks} {l : Link} :
    l ∈ c.nodes.flatMap c.links ↔ l ∈ c.all := by
  rw [List.mem_flatMap, ClusterLinks.mem_all]

def treeOf (ord : HashOrders) (m : DomainLinks) (traffic : Link → Option LinkInfo)
    (priority : Fin 3) (c : Cluster) (v : SwitchId) : Option BroadcastTree :=
  dijkstra (clusterLinks ord m c) v (fun l => some (trafficCost traffic priority l)) true

variable {c : Cluster}

theorem dijkstra_eq_treeOf {linkCost : Link → Option ℤ}
    (h : ∀ l ∈ (clusterLinks ord m c).all, linkCost l = some (trafficCost traffic priority l))
    (v : SwitchId) :
    dijkstra (clusterLinks ord m c) v linkCost true = treeOf ord m traffic priority c v := by
  refine dijkstra_congr fun u hu l hl => ?_
  unfold linkWeight
  rw [h l (ClusterLinks.mem_all.mpr ⟨u, hu, hl⟩)]

theorem addTrees_spec (traffic : Link → Option LinkInfo) (priority : Fin 3)
    (hwf : (clusterLinks ord m c).WellFormed) (s : Trees) :
    ∃ s', addTrees ord m traffic priority s c = some s' ∧
      s'.linkCost = putLinkCosts traffic priority s.linkCost (clusterLinks ord m c) ∧
      ∀ v, s'.destinationRootedTrees v =
        if v ∈ c.nodes then treeOf ord m traffic priority c v
        else s.destinationRootedTrees v := by
  have hput : ∀ l ∈ (clusterLinks ord m c).all,
      putLinkCosts traffic priority s.linkCost (clusterLinks ord m c) l =
        some (trafficCost traffic priority l) := by
    intro l hl
    rw [putLinkCosts_apply, if_pos (ClusterLinks.mem_flatMap.mpr hl)]
  obtain ⟨s', hs', hcost, htrees⟩ := foldlM_rule
    (f := addTree (clusterLinks ord m c)) (l := (clusterLinks ord m c).nodes)
    (fun done s' =>
      s'.linkCost = putLinkCosts traffic priority s.linkCost (clusterLinks ord m c) ∧
      ∀ v, s'.destinationRootedTrees v =
        if v ∈ done then treeOf ord m traffic priority c v else s.destinationRootedTrees v)
    (fun done v rest s' hsplit hs' => by
      obtain ⟨hcost, htrees⟩ := hs'
      have hv : v ∈ (clusterLinks ord m c).nodes := by simp [hsplit]
      have hsome : (treeOf ord m traffic priority c v).isSome := dijkstra_returns hwf hv _ _
      obtain ⟨tree, htree⟩ := isSome_iff_exists.mp hsome
      have hrun : dijkstra (clusterLinks ord m c) v s'.linkCost true = some tree := by
        rw [hcost, dijkstra_eq_treeOf hput, htree]
      refine ⟨{ s' with destinationRootedTrees :=
          Function.update s'.destinationRootedTrees v (some tree) }, ?_, hcost, fun u => ?_⟩
      · unfold addTree
        rw [hrun]
        rfl
      by_cases huv : u = v
      · subst huv
        simp [htree]
      · simp [huv, htrees])
    (s := { s with linkCost := putLinkCosts traffic priority s.linkCost (clusterLinks ord m c) })
    ⟨rfl, fun v => by simp⟩
  refine ⟨s', hs', hcost, fun v => ?_⟩
  rw [htrees]
  simp only [mem_clusterLinks_nodes]

/-- **The trees of all clusters.** -/
theorem calculateShortestPathTreeInClusters_spec (ord : HashOrders)
    (traffic : Link → Option LinkInfo) (priority : Fin 3) (hd : d.Disjoint t)
    (hm : addLinksToOpenflowDomains t d = some m) :
    ∃ s, calculateShortestPathTreeInClusters ord d m traffic priority = some s ∧
      (∀ c ∈ d.clusters, ∀ l ∈ (clusterLinks ord m c).all,
        s.linkCost l = some (trafficCost traffic priority l)) ∧
      ∀ c ∈ d.clusters, ∀ v ∈ c.nodes,
        s.destinationRootedTrees v = treeOf ord m traffic priority c v := by
  have hlist : ∀ c, c ∈ ord.clusters.toList d.clusters ↔ c ∈ d.clusters :=
    ord.clusters.mem_toList d.clusters
  have hnodup := ord.clusters.nodup d.clusters
  obtain ⟨s, hs, hcost, htrees⟩ := foldlM_rule
    (f := addTrees ord m traffic priority) (l := ord.clusters.toList d.clusters)
    (fun done s =>
      (∀ c ∈ done, ∀ l ∈ (clusterLinks ord m c).all,
        s.linkCost l = some (trafficCost traffic priority l)) ∧
      ∀ c ∈ done, ∀ v ∈ c.nodes,
        s.destinationRootedTrees v = treeOf ord m traffic priority c v)
    (fun done c rest s hsplit hs => by
      obtain ⟨hcost, htrees⟩ := hs
      have hwf : (clusterLinks ord m c).WellFormed := clusterLinks_wellFormed hd hm c
      obtain ⟨s', hs', hcost', htrees'⟩ := addTrees_spec traffic priority hwf s
      have hc : c ∈ d.clusters := (hlist c).mp (by simp [hsplit])
      have hdone : ∀ c' ∈ done, c' ∈ d.clusters := fun c' hc' =>
        (hlist c').mp (by simp [hsplit, hc'])
      refine ⟨s', hs', fun c' hc' l hl => ?_, fun c' hc' v hv => ?_⟩
      · rw [hcost', putLinkCosts_apply]
        split
        · rfl
        case isFalse hnot =>
          rcases mem_append.mp hc' with hc' | hc'
          · exact hcost c' hc' l hl
          · rw [mem_singleton.mp hc'] at hl
            exact absurd (ClusterLinks.mem_flatMap.mpr hl) hnot
      · rw [htrees']
        rcases mem_append.mp hc' with hc' | hc'
        · -- a switch of an earlier cluster is not in this one
          have hne : v ∉ c.nodes := by
            intro hvc
            have heq := (hd.member c hc v hvc).2.symm.trans
              (hd.member c' (hdone c' hc') v hv).2
            rw [hsplit, nodup_append] at hnodup
            exact hnodup.2.2 c' hc' c (mem_cons_self ..) (some.inj heq).symm
          rw [if_neg hne]
          exact htrees c' hc' v hv
        · rw [mem_singleton.mp hc'] at hv ⊢
          rw [if_pos hv])
    (s := ⟨fun _ => none, fun _ => none⟩) ⟨by simp, by simp⟩
  exact ⟨s, hs, fun c hc => hcost c ((hlist c).mpr hc), fun c hc => htrees c ((hlist c).mpr hc)⟩

theorem clusterId_inj (hd : d.Disjoint t) {c' : Cluster} (hc : c ∈ d.clusters)
    (hc' : c' ∈ d.clusters) (h : clusterId ord c = clusterId ord c') : c = c' := by
  have hmem := (hd.member c hc _ (clusterId_mem ord (hd.nonempty hc))).2
  have hmem' := (hd.member c' hc' _ (clusterId_mem ord (hd.nonempty hc'))).2
  rw [h, hmem'] at hmem
  exact (some.inj hmem).symm

/-- **The ports of all clusters.** -/
theorem calculateBroadcastNodePortsInClusters_spec (ord : HashOrders) (hd : d.Disjoint t)
    (trees : SwitchId → Option BroadcastTree)
    (htrees : ∀ c ∈ d.clusters, (trees (clusterId ord c)).isSome) :
    ∃ ports, calculateBroadcastNodePortsInClusters ord d trees = some ports ∧
      ∀ c ∈ d.clusters, ports (clusterId ord c) =
        (trees (clusterId ord c)).map (treePorts (ord.nodes.toList c.nodes)) := by
  have hlist : ∀ c, c ∈ ord.clusters.toList d.clusters ↔ c ∈ d.clusters :=
    ord.clusters.mem_toList d.clusters
  obtain ⟨ports, hports, hinv⟩ := foldlM_rule
    (f := addBroadcastNodePorts ord trees) (l := ord.clusters.toList d.clusters)
    (fun done ports => ∀ c ∈ done, ports (clusterId ord c) =
      (trees (clusterId ord c)).map (treePorts (ord.nodes.toList c.nodes)))
    (fun done c rest ports hsplit hinv => by
      have hc : c ∈ d.clusters := (hlist c).mp (by simp [hsplit])
      obtain ⟨tree, htree⟩ := isSome_iff_exists.mp (htrees c hc)
      refine ⟨Function.update ports (clusterId ord c)
        (some (treePorts (ord.nodes.toList c.nodes) tree)), ?_, fun c' hc' => ?_⟩
      · unfold addBroadcastNodePorts
        rw [htree]
        rfl
      · by_cases hid : clusterId ord c' = clusterId ord c
        · have hc'' : c' ∈ d.clusters := by
            rcases mem_append.mp hc' with hmem | hmem
            · exact (hlist c').mp (by simp [hsplit, hmem])
            · exact mem_singleton.mp hmem ▸ hc
          rw [clusterId_inj hd hc'' hc hid, htree, Function.update_self]
          rfl
        · rw [Function.update_of_ne hid]
          rcases mem_append.mp hc' with hmem | hmem
          · exact hinv c' hmem
          · exact absurd (mem_singleton.mp hmem ▸ rfl) hid)
    (s := fun _ => none) (by simp)
  exact ⟨ports, hports, fun c hc => hinv c ((hlist c).mpr hc)⟩

end Trees

/-! ### Computed instances -/

/-- What `compute` leaves, said without the loops. -/
structure ComputedInstance.Valid (i : ComputedInstance) (traffic : Link → Option LinkInfo)
    (priority : Fin 3) : Prop where
  clusters : identifyOpenflowDomains i.toTopologyInstance = some i.domains
  disjoint : i.domains.Disjoint i.toTopologyInstance
  links : addLinksToOpenflowDomains i.toTopologyInstance i.domains = some i.domainLinks
  costs : ∀ c ∈ i.domains.clusters, ∀ l ∈ (i.links c).all,
    i.linkCost l = some (trafficCost traffic priority l)
  trees : ∀ c ∈ i.domains.clusters, ∀ v ∈ c.nodes,
    i.destinationRootedTrees v = dijkstra (i.links c) v i.linkCost true
  ports : ∀ c ∈ i.domains.clusters, i.clusterBroadcastNodePorts (clusterId i.ord c) =
    (i.destinationRootedTrees (clusterId i.ord c)).map (treePorts (i.links c).nodes)

section Computed

variable {t : TopologyInstance} {d : Domains} {m : DomainLinks} {ord : HashOrders}
  {traffic : Link → Option LinkInfo} {priority : Fin 3}

/-- **After the clusters and their links, nothing goes wrong.** -/
theorem compute_spec (hd : identifyOpenflowDomains t = some d)
    (hm : addLinksToOpenflowDomains t d = some m) (ord : HashOrders)
    (traffic : Link → Option LinkInfo) (priority : Fin 3) :
    ∃ i, compute ord t traffic priority = some i ∧ i.toTopologyInstance = t ∧ i.ord = ord ∧
      i.domains = d ∧ i.domainLinks = m ∧ i.Valid traffic priority := by
  have hdis := (identifyOpenflowDomains_disjoint hd).1
  obtain ⟨s, hs, hcosts, htrees⟩ :=
    calculateShortestPathTreeInClusters_spec ord traffic priority hdis hm
  have hdijkstra : ∀ c ∈ d.clusters, ∀ v ∈ c.nodes,
      s.destinationRootedTrees v = dijkstra (clusterLinks ord m c) v s.linkCost true := by
    intro c hc v hv
    rw [htrees c hc v hv, dijkstra_eq_treeOf (hcosts c hc)]
  obtain ⟨ports, hports, hmap⟩ := calculateBroadcastNodePortsInClusters_spec ord hdis
    s.destinationRootedTrees fun c hc => by
      have hid := clusterId_mem ord (hdis.nonempty hc)
      rw [hdijkstra c hc _ hid]
      exact dijkstra_returns (clusterLinks_wellFormed hdis hm c) (mem_clusterLinks_nodes.mpr hid)
        _ _
  refine ⟨⟨t, ord, d, m, s.linkCost, s.destinationRootedTrees, ports⟩, ?_, rfl, rfl, rfl, rfl,
    ⟨hd, hdis, hm, hcosts, hdijkstra, hmap⟩⟩
  simp [compute, hd, hm, hs, hports]

theorem compute_valid {i : ComputedInstance} (h : compute ord t traffic priority = some i) :
    i.Valid traffic priority ∧ i.toTopologyInstance = t ∧ i.ord = ord := by
  have h' := h
  obtain ⟨d, hd, h'⟩ := bind_eq_some_iff.mp h'
  obtain ⟨m, hm, -⟩ := bind_eq_some_iff.mp h'
  obtain ⟨i', hi', ht, hord, -, -, hvalid⟩ := compute_spec hd hm ord traffic priority
  rw [h] at hi'
  cases hi'
  exact ⟨hvalid, ht, hord⟩

/-- **`compute` raises no exception** if every link leads to a switch. -/
theorem compute_returns (ht : t.Closed) (ord : HashOrders) (traffic : Link → Option LinkInfo)
    (priority : Fin 3) : ∃ i, compute ord t traffic priority = some i := by
  obtain ⟨d, hd⟩ := identifyOpenflowDomains_returns ht
  have hclustered := (identifyOpenflowDomains_disjoint hd).2
  obtain ⟨m, hm, -⟩ := foldlM_rule (f := addLinkToDomain t d) (l := t.openflowLinks)
    (fun _ _ => True)
    (fun done l rest m hsplit _ => by
      have hl : l ∈ t.openflowLinks := by simp [hsplit]
      unfold addLinkToDomain
      split_ifs with hblocked hdomain
      · exact ⟨_, rfl, trivial⟩
      · exact ⟨_, rfl, trivial⟩
      · split
        case h_1 hsrc hdst =>
          -- the destination is a switch, so it has a cluster
          refine absurd hdst (hclustered _ ?_)
          obtain ⟨v, -, hv⟩ := mem_flatMap.mp hl
          obtain ⟨p, hp, hlp⟩ := mem_flatMap.mp hv
          split at hlp
          · cases hlp
          · exact ht v l (TopologyInstance.mem_linksAt.mpr ⟨p, hp, hlp⟩)
              (Bool.eq_false_iff.mpr hblocked) (Bool.eq_false_iff.mpr hdomain)
        · split_ifs <;> exact ⟨_, rfl, trivial⟩
        · exact ⟨_, rfl, trivial⟩)
    (s := fun _ _ => ∅) trivial
  obtain ⟨i, hi, -⟩ := compute_spec hd hm ord traffic priority
  exact ⟨i, hi⟩

end Computed

end NctuSdn
