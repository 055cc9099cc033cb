/-
Flooding (`calculateBroadcastNodePortsInClusters`,
`isIncomingBroadcastAllowedOnSwitchPort`).

A flooded packet is taken in at the ports that lead out of the network and at
the ports of one tree in each cluster, the shortest path tree to its smallest
switch.  What is chosen are links of the tree, and what is kept are their
ports.  That the kept ports have no other links between them is due to
`createNewInstance`: it leaves out every port with more than one peer, so each
port that remains belongs to one cable (`PointToPoint`).

The search counts switches at distance `MAX_PATH_WEIGHT` as unreachable.  A
cluster with so much traffic on a link has no spanning tree
(`busyPair_not_floodsOnTree`).
-/
import NctuSdn.Lib.RootedTree
import NctuSdn.Topology.Manager

namespace NctuSdn

open Finset Option

/-! ### The source -/

/-- `isAttachmentPointPort`.  No key of `switchPortLinks` has an empty set. -/
def TopologyInstance.isAttachmentPointPort (t : TopologyInstance) (switchid : SwitchId)
    (port : Port) : Bool :=
  (t.switchPortLinks ⟨switchid, port⟩).isEmpty

def TopologyInstance.isInternalToOpenflowDomain (t : TopologyInstance) (switchid : SwitchId)
    (port : Port) : Bool :=
  !t.isAttachmentPointPort switchid port

namespace ComputedInstance

def getOpenflowDomainId (i : ComputedInstance) (switchId : SwitchId) : SwitchId :=
  match i.domains.switchClusterMap switchId with
  | none => switchId
  | some c => clusterId i.ord c

/-- `isIncomingBroadcastAllowedOnSwitchPort`; `none` if null is dereferenced. -/
def isIncomingBroadcastAllowedOnSwitchPort (i : ComputedInstance) (sw : SwitchId) (portId : Port) :
    Option Bool :=
  if i.isInternalToOpenflowDomain sw portId then
    (i.clusterBroadcastNodePorts (i.getOpenflowDomainId sw)).map fun ports =>
      decide (⟨sw, portId⟩ ∈ ports)
  else some true

end ComputedInstance

/-! ### Cables -/

def Link.reverse (l : Link) : Link := ⟨l.dst, l.dstPort, l.src, l.srcPort⟩

@[simp] theorem Link.srcNpt_reverse (l : Link) : l.reverse.srcNpt = l.dstNpt := rfl

/-- The links of an instance are the two directions of cables, with at most one
cable at each port. -/
structure TopologyInstance.PointToPoint (t : TopologyInstance) (O : Finset Link) : Prop where
  links : ∀ {npt l}, l ∈ t.switchPortLinks npt ↔ l ∈ O ∧ (npt = l.srcNpt ∨ npt = l.dstNpt)
  listed : ∀ l ∈ O, l.src ∈ t.switches ∧ l.srcPort ∈ t.switchPorts l.src
  allowed : ∀ l ∈ O, t.isBlockedLink l = false ∧ t.isBroadcastDomainLink l = false
  reverse : ∀ l ∈ O, l.reverse ∈ O
  peer : ∀ l ∈ O, ∀ l' ∈ O, l.srcNpt = l'.srcNpt → l = l'

theorem eq_of_not_isMultiLinkPort {links : List Link} {npt : NodePortTuple}
    (h : LinkStructure.isMultiLinkPort links = false) {l l' : Link} (hl : l ∈ links)
    (hl' : l' ∈ links) (hsrc : l.srcNpt = npt) (hsrc' : l'.srcNpt = npt) : l = l' := by
  -- two links of a port are each other's reverse, so only one of them leaves it
  have hpair : ∀ l₁ l₂ : Link, LinkStructure.isMultiLinkPort [l₁, l₂] = false →
      l₁.srcNpt = l₂.srcNpt → l₁ = l₂ := by
    intro l₁ l₂ h hsrc
    have heq : l₁ = l₂.reverse := by
      simp only [LinkStructure.isMultiLinkPort, Bool.or_eq_false_iff, bne_eq_false_iff_eq] at h
      obtain ⟨⟨⟨hs, hsp⟩, hd⟩, hdp⟩ := h
      cases l₁
      simp_all [Link.reverse]
    have hends : l₂.dstNpt = l₂.srcNpt := by
      rw [heq, Link.srcNpt_reverse] at hsrc
      exact hsrc
    have hself : l₂.reverse = l₂ := by
      obtain ⟨s, sp, d, dp⟩ := l₂
      cases hends
      rfl
    rw [heq, hself]
  match links, h with
  | [l₁], _ =>
    rw [List.mem_singleton.mp hl, List.mem_singleton.mp hl']
  | [l₁, l₂], h =>
    have hcases : ∀ x ∈ [l₁, l₂], x = l₁ ∨ x = l₂ := fun x hx => by simpa using hx
    rcases hcases l hl with rfl | rfl <;> rcases hcases l' hl' with rfl | rfl
    · rfl
    · exact hpair _ _ h (hsrc.trans hsrc'.symm)
    · exact (hpair _ _ h (hsrc'.trans hsrc.symm)).symm
    · rfl

/-- **Cables are all that `createNewInstance` leaves.** -/
theorem LinkStructure.newInstance_pointToPoint {ls : LinkStructure} {D B : Finset Link}
    (h : ls.Represents D B) (hsym : ∀ l ∈ D ∪ B, l.reverse ∈ D ∪ B) (ord : ManagerOrders) :
    (ls.newInstance ord).PointToPoint
      (linksOff (D ∪ B) (ls.identifyBroadcastDomainPorts ord ∪ ls.tunnelPorts)) where
  links := mem_newInstance_switchPortLinks h ord
  listed := by
    intro l hl
    have hmem := (mem_linksOff.mp hl).1
    refine ⟨(mem_newInstance_switches h ord).mpr ⟨l, hmem, .inl rfl⟩, ?_⟩
    unfold newInstance
    rw [(ord.ports l.src).mem_toList, h.ports]
    exact mem_portsOf.mpr ⟨l, mem_linksAtPort.mpr ⟨hmem, .inl rfl⟩⟩
  allowed := by
    intro l hl
    obtain ⟨-, hsrc, hdst⟩ := mem_linksOff.mp hl
    rw [mem_union, not_or] at hsrc hdst
    have hports : ∀ npt, (ls.newInstance ord).isBroadcastDomainPort npt =
        decide (npt ∈ ls.identifyBroadcastDomainPorts ord) := by
      intro npt
      unfold newInstance TopologyInstance.isBroadcastDomainPort
      simp only [ord.nodePorts.mem_toList]
    constructor
    · rfl
    · unfold TopologyInstance.isBroadcastDomainLink
      rw [hports, hports]
      exact Bool.or_eq_false_iff.mpr ⟨decide_eq_false hsrc.1, decide_eq_false hdst.1⟩
  reverse := by
    intro l hl
    obtain ⟨hmem, hsrc, hdst⟩ := mem_linksOff.mp hl
    exact mem_linksOff.mpr ⟨hsym l hmem, hdst, hsrc⟩
  peer := by
    intro l hl l' hl' hsrc
    obtain ⟨hmem, hport, -⟩ := mem_linksOff.mp hl
    have hmem' := (mem_linksOff.mp hl').1
    -- the port is not one of several links, or it would have been left out
    have hkey : l.srcNpt ∈ ls.switchPortLinks.keys := by
      rw [Finmap.mem_keys, h.all.tidy.mem_iff, h.all.get]
      exact ⟨l, mem_linksAtPort.mpr ⟨hmem, .inl rfl⟩⟩
    have hsingle : isMultiLinkPort ((ord.portLinks l.srcNpt).toList
        (ls.switchPortLinks.get l.srcNpt)) = false := by
      rw [mem_union, not_or, identifyBroadcastDomainPorts, mem_union, not_or,
        mem_filter, not_and] at hport
      exact Bool.eq_false_iff.mpr (hport.1.2 hkey)
    refine eq_of_not_isMultiLinkPort hsingle ?_ ?_ rfl hsrc.symm
    · rw [(ord.portLinks _).mem_toList, h.all.get]
      exact mem_linksAtPort.mpr ⟨hmem, .inl rfl⟩
    · rw [(ord.portLinks _).mem_toList, h.all.get]
      exact mem_linksAtPort.mpr ⟨hmem', .inl hsrc⟩

/-! ### The ports of the tree -/

theorem mem_treePorts {nodes : List SwitchId} {tree : BroadcastTree} {npt : NodePortTuple} :
    npt ∈ treePorts nodes tree ↔
      ∃ v ∈ nodes, ∃ l, tree.links v = some l ∧ (npt = l.srcNpt ∨ npt = l.dstNpt) := by
  unfold treePorts
  rw [List.mem_toFinset, List.mem_flatMap]
  refine exists_congr fun v => and_congr_right fun _ => ?_
  cases tree.links v with
  | none => simp
  | some l => simp [Link.srcNpt, Link.dstNpt]

namespace ComputedInstance

/-- The links of the cables of a cluster both of whose ports are kept. -/
def floodLinks (i : ComputedInstance) (c : Cluster) : Finset Link :=
  let ports := (i.clusterBroadcastNodePorts (clusterId i.ord c)).getD ∅
  (i.links c).all.filter fun l =>
    l.reverse ∈ (i.links c).all ∧ l.srcNpt ∈ ports ∧ l.dstNpt ∈ ports

theorem reverse_mem_floodLinks {i : ComputedInstance} {c : Cluster} {l : Link}
    (h : l ∈ i.floodLinks c) : l.reverse ∈ i.floodLinks c := by
  obtain ⟨hl, hrev, hsrc, hdst⟩ := mem_filter.mp h
  exact mem_filter.mpr ⟨hrev, hl, hdst, hsrc⟩

/-- The switches of a cluster, with those cables between them. -/
def floodGraph (i : ComputedInstance) (c : Cluster) : SimpleGraph {v // v ∈ c.nodes} where
  Adj u v := u ≠ v ∧ ∃ l ∈ i.floodLinks c, l.src = u ∧ l.dst = v
  symm := ⟨fun _ _ h => ⟨h.1.symm, h.2.elim fun l hl =>
    ⟨l.reverse, reverse_mem_floodLinks hl.1, hl.2.2, hl.2.1⟩⟩⟩
  loopless := ⟨fun _ h => h.1 rfl⟩

/-- The cables whose ports are kept form a tree that spans the cluster: none is
a loop, no two connect the same switches, and their graph is a tree. -/
structure FloodsOnTree (i : ComputedInstance) (c : Cluster) : Prop where
  loopless : ∀ l ∈ i.floodLinks c, l.src ≠ l.dst
  simple : ∀ l ∈ i.floodLinks c, ∀ l' ∈ i.floodLinks c, l.src = l'.src → l.dst = l'.dst → l = l'
  tree : (i.floodGraph c).IsTree

/-- Floods are accepted where hosts may be and at the ports of those cables. -/
def AcceptsFloods (i : ComputedInstance) (c : Cluster) : Prop :=
  ∀ sw ∈ c.nodes, ∀ port, i.isIncomingBroadcastAllowedOnSwitchPort sw port =
    some (i.isAttachmentPointPort sw port ||
      decide (∃ l ∈ i.floodLinks c, l.srcNpt = ⟨sw, port⟩))

/-- What the tree to the smallest switch has to be: every other switch has a
link to one that is closer. -/
structure Spanning (i : ComputedInstance) (c : Cluster) (tree : BroadcastTree)
    (rank : SwitchId → ℕ) : Prop where
  ports : i.clusterBroadcastNodePorts (clusterId i.ord c) =
    some (treePorts (i.links c).nodes tree)
  root : tree.links (clusterId i.ord c) = none
  next : ∀ v ∈ c.nodes, v ≠ clusterId i.ord c →
    ∃ l ∈ (i.links c).all, tree.links v = some l ∧ l.src = v ∧ rank l.dst < rank v

section Tree

variable {i : ComputedInstance} {O : Finset Link} {traffic : Link → Option LinkInfo}
  {priority : Fin 3} {c : Cluster} {l l' : Link} {tree : BroadcastTree} {rank : SwitchId → ℕ}

section

variable (ht : i.toTopologyInstance.PointToPoint O) (hi : i.Valid traffic priority)
  (hc : c ∈ i.domains.clusters)
include ht hi hc

theorem mem_links_all :
    l ∈ (i.links c).all ↔ l ∈ O ∧ l.src ∈ c.nodes ∧ l.dst ∈ c.nodes := by
  rw [ClusterLinks.mem_all]
  constructor
  · rintro ⟨v, -, hl⟩
    obtain ⟨hopen, ⟨-, -, hsrc, hdst⟩, -⟩ :=
      (mem_domainLinks hi.links c v l).mp (mem_clusterLinks.mp hl)
    refine ⟨?_, (hi.disjoint.mapped _ _ hsrc).1, (hi.disjoint.mapped _ _ hdst).1⟩
    obtain ⟨s, -, hopen⟩ := List.mem_flatMap.mp hopen
    obtain ⟨p, -, hopen⟩ := List.mem_flatMap.mp hopen
    split at hopen
    · cases hopen
    · exact (ht.links.mp hopen).1
  · rintro ⟨hl, hsrc, hdst⟩
    obtain ⟨hswitch, hport⟩ := ht.listed l hl
    obtain ⟨hblocked, hdomain⟩ := ht.allowed l hl
    have hopen : l ∈ i.toTopologyInstance.openflowLinks := by
      refine List.mem_flatMap.mpr ⟨l.src, hswitch, List.mem_flatMap.mpr ⟨l.srcPort, hport, ?_⟩⟩
      rw [if_neg (Bool.eq_false_iff.mp (Bool.or_eq_false_iff.mp hdomain).1)]
      exact ht.links.mpr ⟨hl, .inl rfl⟩
    refine ⟨l.src, mem_clusterLinks_nodes.mpr hsrc, mem_clusterLinks.mpr ?_⟩
    exact (mem_domainLinks hi.links c l.src l).mpr ⟨hopen, ⟨hblocked, hdomain,
      (hi.disjoint.member c hc _ hsrc).2, (hi.disjoint.member c hc _ hdst).2⟩, .inl rfl⟩

theorem reverse_mem_all (hl : l ∈ (i.links c).all) : l.reverse ∈ (i.links c).all := by
  obtain ⟨hmem, hsrc, hdst⟩ := (mem_links_all ht hi hc).mp hl
  exact (mem_links_all ht hi hc).mpr ⟨ht.reverse l hmem, hdst, hsrc⟩

/-- A set of switches that is closed under links in both directions is all of
the cluster or misses it. -/
theorem forall_of_closed {S : SwitchId → Prop} (hS : ∀ l ∈ (i.links c).all, S l.src ↔ S l.dst)
    {r : SwitchId} (hr : r ∈ c.nodes) (hSr : S r) : ∀ v ∈ c.nodes, S v := by
  obtain ⟨u, hu, hreach⟩ := hi.disjoint.connected c hc
  have hsame : ∀ x, ReachIn i.toTopologyInstance.Step {y | y ∈ c.nodes} u x →
      x ∈ c.nodes ∧ (S u ↔ S x) := by
    intro x hpath
    induction hpath with
    | refl => exact ⟨hu, Iff.rfl⟩
    | tail _ hstep ih =>
      obtain ⟨⟨l, hl, rfl, hne, -, -⟩, hdst⟩ := hstep
      obtain ⟨p, -, hl⟩ := TopologyInstance.mem_linksAt.mp hl
      obtain ⟨hmem, hend | hend⟩ := ht.links.mp hl
      · have hsrc := congrArg NodePortTuple.nodeId hend
        subst hsrc
        obtain ⟨hnode, hiff⟩ := ih
        exact ⟨hdst, hiff.trans (hS l ((mem_links_all ht hi hc).mpr ⟨hmem, hnode, hdst⟩))⟩
      · exact absurd (congrArg NodePortTuple.nodeId hend).symm hne
  have hSu : S u := (hsame r (hreach r hr)).2.mpr hSr
  exact fun v hv => (hsame v (hreach v hv)).2.mp hSu

/-- **Under the bound on the costs the search finds a spanning tree.** -/
theorem exists_spanning (hcost : (i.links c).Fits i.linkCost (clusterId i.ord c)) :
    ∃ tree rank, i.Spanning c tree rank := by
  have hroot : clusterId i.ord c ∈ c.nodes := clusterId_mem i.ord (hi.disjoint.nonempty hc)
  obtain ⟨tree, htree, -, hlabel⟩ := dijkstra_labelling
    (clusterLinks_wellFormed hi.disjoint hi.links c) hcost (mem_clusterLinks_nodes.mpr hroot)
  -- every switch has a label, because the links lead both ways
  have hforward : ∀ l ∈ (i.links c).all, tree.label l.dst ≠ none → tree.label l.src ≠ none := by
    intro l hl hdst
    obtain ⟨x, hx⟩ := ne_none_iff_exists'.mp hdst
    obtain ⟨y, hy, -⟩ := hlabel.relaxed l hl x hx
    rw [hy]
    exact some_ne_none y
  have hlabelled : ∀ v ∈ c.nodes, tree.label v ≠ none := by
    refine forall_of_closed ht hi hc (fun l hl => ⟨fun hsrc => ?_, hforward l hl⟩) hroot ?_
    · exact hforward l.reverse (reverse_mem_all ht hi hc hl) hsrc
    · rw [hlabel.root_zero]
      exact some_ne_none 0
  refine ⟨tree, fun v => ((tree.label v).getD 0).toNat, ?_, ?_, fun v hv hne => ?_⟩
  · rw [hi.ports c hc, hi.trees c hc _ hroot]
    exact congrArg (Option.map (treePorts (i.links c).nodes)) htree
  · exact (hlabel.next_none _).mpr (.inl rfl)
  · obtain ⟨y, hy⟩ := ne_none_iff_exists'.mp (hlabelled v hv)
    obtain ⟨l, hl, hnext, hsrc, x, hx, hdst, hyx⟩ := hlabel.tight v y hne hy
    refine ⟨l, hl, hnext, hsrc, ?_⟩
    have hpos := hcost.pos l hl
    rw [hdst, hy, getD_some, getD_some]
    omega

end

theorem Spanning.closer (h : i.Spanning c tree rank) {v : SwitchId} (hv : v ∈ c.nodes)
    (hl : tree.links v = some l) :
    v ≠ clusterId i.ord c ∧ l ∈ (i.links c).all ∧ l.src = v ∧ rank l.dst < rank v := by
  have hne : v ≠ clusterId i.ord c := fun heq => by
    rw [heq, h.root] at hl
    cases hl
  obtain ⟨l', hmem, hlink, hsrc, hrank⟩ := h.next v hv hne
  rw [hl] at hlink
  cases hlink
  exact ⟨hne, hmem, hsrc, hrank⟩

section

variable (h : i.Spanning c tree rank) (ht : i.toTopologyInstance.PointToPoint O)
  (hi : i.Valid traffic priority) (hc : c ∈ i.domains.clusters)
include h ht hi hc

/-- **The cables whose ports are kept are the cables of the tree**, because
each port has one cable only. -/
theorem Spanning.mem_floodLinks :
    l ∈ i.floodLinks c ↔
      ∃ v ∈ c.nodes, tree.links v = some l ∨ tree.links v = some l.reverse := by
  unfold floodLinks
  rw [h.ports, getD_some, mem_filter, mem_treePorts, mem_treePorts]
  constructor
  · rintro ⟨hl, -, ⟨v, hv, l', hl', hport⟩, -⟩
    have hv := mem_clusterLinks_nodes.mp hv
    have hmem := ((mem_links_all ht hi hc).mp hl).1
    have hmem' := ((mem_links_all ht hi hc).mp (h.closer hv hl').2.1).1
    refine ⟨v, hv, ?_⟩
    rcases hport with hport | hport
    · exact .inl (hl'.trans (congrArg some (ht.peer l' hmem' l hmem hport.symm)))
    · have heq : l'.reverse = l := ht.peer _ (ht.reverse l' hmem') l hmem hport.symm
      exact .inr (hl'.trans (congrArg some (heq ▸ rfl)))
  · rintro ⟨v, hv, hl | hl⟩
    · have hmem := (h.closer hv hl).2.1
      have hv : v ∈ (i.links c).nodes := mem_clusterLinks_nodes.mpr hv
      exact ⟨hmem, reverse_mem_all ht hi hc hmem, ⟨v, hv, l, hl, .inl rfl⟩,
        ⟨v, hv, l, hl, .inr rfl⟩⟩
    · have hmem := (h.closer hv hl).2.1
      have hv : v ∈ (i.links c).nodes := mem_clusterLinks_nodes.mpr hv
      exact ⟨reverse_mem_all ht hi hc hmem, hmem, ⟨v, hv, _, hl, .inr rfl⟩,
        ⟨v, hv, _, hl, .inl rfl⟩⟩

/-- Each of these links is the one chosen at its end that is farther from the
root, in one direction or the other. -/
theorem Spanning.direction (hl : l ∈ i.floodLinks c) :
    (tree.links l.src = some l ∧ rank l.dst < rank l.src) ∨
      (tree.links l.dst = some l.reverse ∧ rank l.src < rank l.dst) := by
  obtain ⟨v, hv, hlink | hlink⟩ := (h.mem_floodLinks ht hi hc).mp hl
  · obtain ⟨-, -, rfl, hrank⟩ := h.closer hv hlink
    exact .inl ⟨hlink, hrank⟩
  · obtain ⟨-, -, rfl, hrank⟩ := h.closer hv hlink
    exact .inr ⟨hlink, hrank⟩

theorem Spanning.isTree : (i.floodGraph c).IsTree := by
  have hroot : clusterId i.ord c ∈ c.nodes := clusterId_mem i.ord (hi.disjoint.nonempty hc)
  -- the parent of a switch is the other end of its link
  have hparent : ∀ v : {v // v ∈ c.nodes}, ∃ u : {v // v ∈ c.nodes},
      v ≠ ⟨clusterId i.ord c, hroot⟩ → ∃ l, tree.links v = some l ∧ l.src = v ∧ l.dst = u := by
    rintro ⟨v, hv⟩
    by_cases hne : v = clusterId i.ord c
    · exact ⟨⟨v, hv⟩, fun hne' => absurd (Subtype.ext hne) hne'⟩
    · obtain ⟨l, hl, hlink, hsrc, -⟩ := h.next v hv hne
      have hdst := ((mem_links_all ht hi hc).mp hl).2.2
      exact ⟨⟨l.dst, hdst⟩, fun _ => ⟨l, hlink, hsrc, rfl⟩⟩
  choose parent hparent using hparent
  have hup : ∀ (v u : {v // v ∈ c.nodes}) l, tree.links v = some l → l.dst = u →
      v ≠ ⟨clusterId i.ord c, hroot⟩ ∧ parent v = u := by
    intro v u l hlink hdst
    have hne : v ≠ ⟨clusterId i.ord c, hroot⟩ :=
      fun heq => (h.closer v.2 hlink).1 (congrArg Subtype.val heq)
    obtain ⟨l', hlink', -, hdst'⟩ := hparent v hne
    rw [hlink] at hlink'
    cases hlink'
    exact ⟨hne, Subtype.ext (hdst'.symm.trans hdst)⟩
  have hrank : ∀ v, v ≠ ⟨clusterId i.ord c, hroot⟩ → rank (parent v) < rank v := by
    intro v hv
    obtain ⟨l, hlink, -, hdst⟩ := hparent v hv
    exact hdst ▸ (h.closer v.2 hlink).2.2.2
  refine isTree_of_parent ⟨clusterId i.ord c, hroot⟩ parent (fun v => rank v) hrank
    (fun v hv => ?_) fun u v huv => ?_
  · obtain ⟨l, hlink, hsrc, hdst⟩ := hparent v hv
    refine ⟨fun heq => ?_, l, (h.mem_floodLinks ht hi hc).mpr ⟨v, v.2, .inl hlink⟩, hsrc, hdst⟩
    exact (hrank v hv).ne (congrArg (fun v => rank v.1) heq.symm)
  · obtain ⟨-, l, hl, hsrc, hdst⟩ := huv
    rcases h.direction ht hi hc hl with ⟨hlink, -⟩ | ⟨hlink, -⟩
    · exact .inl (hup u v l (hsrc ▸ hlink) hdst)
    · exact .inr (hup v u l.reverse (hdst ▸ hlink) hsrc)

end

/-- **The ports kept are the ports of a spanning tree.** -/
theorem floodsOnTree (ht : i.toTopologyInstance.PointToPoint O) (hi : i.Valid traffic priority)
    (hc : c ∈ i.domains.clusters) (hcost : (i.links c).Fits i.linkCost (clusterId i.ord c)) :
    i.FloodsOnTree c := by
  obtain ⟨tree, rank, h⟩ := exists_spanning ht hi hc hcost
  refine ⟨fun l hl heq => ?_, fun l hl l' hl' hsrc hdst => ?_, h.isTree ht hi hc⟩
  · rcases h.direction ht hi hc hl with ⟨-, hrank⟩ | ⟨-, hrank⟩
    · exact hrank.ne (congrArg rank heq.symm)
    · exact hrank.ne (congrArg rank heq)
  · rcases h.direction ht hi hc hl with ⟨hlink, hrank⟩ | ⟨hlink, hrank⟩
    · rcases h.direction ht hi hc hl' with ⟨hlink', -⟩ | ⟨-, hrank'⟩
      · rw [hsrc, hlink'] at hlink
        exact (some.inj hlink).symm
      · rw [← hsrc, ← hdst] at hrank'
        exact absurd hrank (lt_asymm hrank')
    · rcases h.direction ht hi hc hl' with ⟨-, hrank'⟩ | ⟨hlink', -⟩
      · rw [← hsrc, ← hdst] at hrank'
        exact absurd hrank (lt_asymm hrank')
      · rw [hdst, hlink'] at hlink
        exact (congrArg Link.reverse (some.inj hlink)).symm

theorem FloodsOnTree.exists_link (h : i.FloodsOnTree c) {u v : SwitchId} (hu : u ∈ c.nodes)
    (hv : v ∈ c.nodes) (hne : u ≠ v) : ∃ l, l ∈ i.floodLinks c := by
  obtain ⟨walk⟩ := h.tree.connected.preconnected ⟨u, hu⟩ ⟨v, hv⟩
  cases walk with
  | nil => exact absurd rfl hne
  | cons hadj _ =>
    obtain ⟨-, l, hl, -⟩ := hadj
    exact ⟨l, hl⟩

/-- **Which ports a flood is accepted at.** -/
theorem acceptsFloods (ht : i.toTopologyInstance.PointToPoint O) (hi : i.Valid traffic priority)
    (hc : c ∈ i.domains.clusters) (hcost : (i.links c).Fits i.linkCost (clusterId i.ord c)) :
    i.AcceptsFloods c := by
  obtain ⟨tree, rank, h⟩ := exists_spanning ht hi hc hcost
  intro sw hsw port
  unfold isIncomingBroadcastAllowedOnSwitchPort TopologyInstance.isInternalToOpenflowDomain
    getOpenflowDomainId
  rw [(hi.disjoint.member c hc sw hsw).2]
  rw [h.ports, map_some]
  cases i.isAttachmentPointPort sw port with
  | true => rfl
  | false =>
    rw [Bool.not_false, if_pos rfl, Bool.false_or, decide_eq_decide.mpr]
    rw [mem_treePorts]
    constructor
    · rintro ⟨v, hv, l, hlink, hport⟩
      have hv := mem_clusterLinks_nodes.mp hv
      rcases hport with hport | hport
      · exact ⟨l, (h.mem_floodLinks ht hi hc).mpr ⟨v, hv, .inl hlink⟩, hport.symm⟩
      · exact ⟨l.reverse, (h.mem_floodLinks ht hi hc).mpr ⟨v, hv, .inr hlink⟩, hport.symm⟩
    · rintro ⟨l, hl, hport⟩
      obtain ⟨v, hv, hlink | hlink⟩ := (h.mem_floodLinks ht hi hc).mp hl
      · exact ⟨v, mem_clusterLinks_nodes.mpr hv, l, hlink, .inl hport.symm⟩
      · exact ⟨v, mem_clusterLinks_nodes.mpr hv, l.reverse, hlink, .inr hport.symm⟩

theorem isIncomingBroadcastAllowed_of_isAttachmentPointPort {sw : SwitchId} {port : Port}
    (h : i.isAttachmentPointPort sw port = true) :
    i.isIncomingBroadcastAllowedOnSwitchPort sw port = some true := by
  unfold isIncomingBroadcastAllowedOnSwitchPort TopologyInstance.isInternalToOpenflowDomain
  rw [h]
  rfl

end Tree

end ComputedInstance

/-! ### Two switches -/

noncomputable def pairOrders : ManagerOrders where
  clusters := candidateOrder [⟨{1, 2}⟩]
  nodes := candidateOrder [1, 2]
  links := fun _ => candidateOrder pairLinks
  switches := candidateOrder [1, 2]
  ports := fun _ => candidateOrder [1]
  portLinks := fun _ => candidateOrder pairLinks
  nodePorts := candidateOrder [⟨1, 1⟩, ⟨2, 1⟩]
  allLinks := candidateOrder pairLinks

def pairStructure : LinkStructure :=
  (LinkStructure.empty.putLink ⟨2, 1, 1, 1⟩ .directLink).putLink ⟨1, 1, 2, 1⟩ .directLink

def pairManager (accounts : TrafficState) : LinkManager where
  links := pairStructure
  linksUpdated := true
  accounts := accounts
  matchPriority := fun _ => none
  forceClearSwitchID := fun _ => false
  tiMap := fun _ => none

theorem pairStructure_represents : pairStructure.Represents pairLinks.toFinset ∅ :=
  (LinkStructure.represents_empty.putDirect ⟨2, 1, 1, 1⟩).putDirect ⟨1, 1, 2, 1⟩

def busyTraffic : TrafficState where
  linkMatch := fun _ => none
  traffic := fun l =>
    if l = linkKey 1 1 then some (fun p => if (p : ℤ) = 0 then 35791228 else 0) else none

theorem busyTraffic_ports :
    (compute pairOrders.toHashOrders (pairStructure.newInstance pairOrders) busyTraffic.traffic
      1).map (fun i => (i.domains.clusters, i.clusterBroadcastNodePorts 1)) =
        some ({⟨{1, 2}⟩}, some ∅) := by
  decide

/-- **Loop-free flooding.**  If every link is there in both directions, then
after `createNewInstance` and for each priority the ports kept in a cluster are
those of a spanning tree, as long as the costs of its links fit: they are
positive, the cheapest path from each switch to the smallest one costs less
than `MAX_PATH_WEIGHT`, and adding the cost of a link to a distance does not
wrap around.  Floods are accepted at these ports and wherever hosts may be. -/
theorem loop_free_flooding (ord : LinkStructure → ManagerOrders) (tm : LinkManager)
    {D B : Finset Link} (h : tm.links.Represents D B)
    (hsym : ∀ l ∈ D ∪ B, l.reverse ∈ D ∪ B) (hupdated : tm.linksUpdated = true) :
    ∃ tm', LinkManager.createNewInstance ord tm = some tm' ∧
      ∀ p : Fin 3, ∃ i, tm'.tiMap (p : ℤ) = some i ∧
        (∀ c ∈ i.domains.clusters, (i.links c).Fits i.linkCost (clusterId i.ord c) →
          i.FloodsOnTree c ∧ i.AcceptsFloods c) ∧
        ∀ sw port, i.isAttachmentPointPort sw port = true →
          i.isIncomingBroadcastAllowedOnSwitchPort sw port = some true := by
  obtain ⟨tm', htm', -⟩ := LinkManager.createNewInstance_returns ord tm h
  refine ⟨tm', htm', fun p => ?_⟩
  rcases LinkManager.createNewInstance_cases htm' with ⟨hflag, -⟩ | ⟨-, htiMap⟩
  · exact absurd (hflag.symm.trans hupdated) Bool.false_ne_true
  · obtain ⟨i, hcompute⟩ := compute_returns
      (LinkStructure.newInstance_closed h (ord tm.links)) (ord tm.links).toHashOrders
      tm.accounts.traffic p
    obtain ⟨hi, hinstance, -⟩ := compute_valid hcompute
    have ht := LinkStructure.newInstance_pointToPoint h hsym (ord tm.links)
    rw [← hinstance] at ht
    refine ⟨i, (htiMap p).trans hcompute, fun c hc hcost => ?_, fun sw port hport => ?_⟩
    · exact ⟨ComputedInstance.floodsOnTree ht hi hc hcost,
        ComputedInstance.acceptsFloods ht hi hc hcost⟩
    · exact ComputedInstance.isIncomingBroadcastAllowed_of_isAttachmentPointPort hport

theorem pairLinks_reverse :
    ∀ l ∈ pairLinks.toFinset ∪ ∅, l.reverse ∈ pairLinks.toFinset ∪ ∅ := by
  decide

/-- The instance of priority 1 has no spanning tree, since the only path costs
more than `MAX_PATH_WEIGHT`. -/
theorem busyPair_not_floodsOnTree :
    (pairManager busyTraffic).links.Represents pairLinks.toFinset ∅ ∧
      (∀ l ∈ pairLinks.toFinset ∪ ∅, l.reverse ∈ pairLinks.toFinset ∪ ∅) ∧
      ∃ tm' i, LinkManager.createNewInstance (fun _ => pairOrders) (pairManager busyTraffic) =
          some tm' ∧
        tm'.tiMap 1 = some i ∧ ⟨{1, 2}⟩ ∈ i.domains.clusters ∧ ¬ i.FloodsOnTree ⟨{1, 2}⟩ := by
  refine ⟨pairStructure_represents, pairLinks_reverse, ?_⟩
  obtain ⟨tm', htm', -⟩ := LinkManager.createNewInstance_returns (fun _ => pairOrders)
    (pairManager busyTraffic) pairStructure_represents
  obtain ⟨i, hi, hports⟩ := map_eq_some_iff.mp busyTraffic_ports
  obtain ⟨hclusters, hports⟩ := Prod.mk.inj hports
  rcases LinkManager.createNewInstance_cases htm' with ⟨hflag, -⟩ | ⟨-, htiMap⟩
  · cases hflag
  · refine ⟨tm', i, htm', (htiMap 1).trans hi, by rw [hclusters]; decide, fun htree => ?_⟩
    obtain ⟨l, hl⟩ := htree.exists_link (u := 1) (v := 2) (by decide) (by decide) (by decide)
    have hid : clusterId i.ord ⟨{1, 2}⟩ = 1 := by
      rw [(compute_valid hi).2.2]
      decide
    unfold ComputedInstance.floodLinks at hl
    rw [hid, hports] at hl
    exact absurd (mem_filter.mp hl).2.2.1 (notMem_empty _)

theorem loop_free_flooding_pair :
    ∃ tm' i, LinkManager.createNewInstance (fun _ => pairOrders)
        (pairManager TrafficState.resetTraffic) = some tm' ∧
      tm'.tiMap 0 = some i ∧ i.FloodsOnTree ⟨{1, 2}⟩ ∧ i.AcceptsFloods ⟨{1, 2}⟩ := by
  obtain ⟨tm', htm', hall⟩ := loop_free_flooding (fun _ => pairOrders)
    (pairManager TrafficState.resetTraffic) pairStructure_represents pairLinks_reverse rfl
  obtain ⟨i, htiMap, hflood, -⟩ := hall 0
  refine ⟨tm', i, htm', htiMap, ?_⟩
  rcases LinkManager.createNewInstance_cases htm' with ⟨hflag, -⟩ | ⟨-, hcompute⟩
  · cases hflag
  have hi : compute pairOrders.toHashOrders (pairStructure.newInstance pairOrders)
      TrafficState.resetTraffic.traffic 0 = some i := (hcompute 0).symm.trans htiMap
  obtain ⟨hvalid, hinstance, -⟩ := compute_valid hi
  have ht := LinkStructure.newInstance_pointToPoint pairStructure_represents pairLinks_reverse
    pairOrders
  rw [← hinstance] at ht
  have hc : ⟨{1, 2}⟩ ∈ i.domains.clusters := by
    have hclusters : (identifyOpenflowDomains (pairStructure.newInstance pairOrders)).map
        Domains.clusters = some {⟨{1, 2}⟩} := by decide
    rw [← hinstance, hvalid.clusters] at hclusters
    rw [some.inj hclusters]
    decide
  have hweight : ∀ l ∈ (i.links ⟨{1, 2}⟩).all, linkWeight i.linkCost l = baseLinkCost := by
    intro l hl
    unfold linkWeight
    rw [hvalid.costs _ hc l hl]
    rfl
  have hsub : (i.links ⟨{1, 2}⟩).all ⊆ pairLinks.toFinset := by
    intro l hl
    have hmem := (mem_linksOff.mp ((ComputedInstance.mem_links_all ht hvalid hc).mp hl).1).1
    rwa [union_empty] at hmem
  refine hflood _ hc (ClusterLinks.Affordable.fits ⟨fun l hl => ?_, ?_⟩ _)
  · rw [hweight l hl]
    decide
  · calc ∑ l ∈ (i.links ⟨{1, 2}⟩).all, linkWeight i.linkCost l
        = ∑ _l ∈ (i.links ⟨{1, 2}⟩).all, baseLinkCost := sum_congr rfl hweight
      _ ≤ ∑ _l ∈ pairLinks.toFinset, baseLinkCost :=
          sum_le_sum_of_subset_of_nonneg hsub fun _ _ _ => by decide
      _ < maxPathWeight := by decide

end NctuSdn
