/-
Routes of a topology instance (`TopologyInstance.buildroute`, `getRoute`).

A route follows the next-hop links of the tree to its destination.  The loop
that does so has no bound of its own: it ends because every link leads to a
switch with a smaller cost.  An exception in it is caught where the path cache
is asked and becomes a null route.
-/
import NctuSdn.Topology.Instance

namespace NctuSdn

open List

/-! ### The source -/

def Link.ends (l : Link) : List NodePortTuple := [⟨l.src, l.srcPort⟩, ⟨l.dst, l.dstPort⟩]

/-- The loop of `buildroute`; `none` if it is not through after `fuel`
turns. -/
def followLinks (nexthoplinks : SwitchId → Option Link) (dstId : SwitchId) :
    ℕ → SwitchId → Option (Except JavaException (List NodePortTuple))
  | fuel, srcId =>
    if srcId = dstId then some (.ok [])
    else
      match fuel, nexthoplinks srcId with
      | 0, _ => none
      | _ + 1, none => some (.error .nullPointer)
      | fuel + 1, some l =>
        (followLinks nexthoplinks dstId fuel l.dst).map fun r => r.map (l.ends ++ ·)

/-- A path becomes a route unless it is empty. -/
def routeOfPath (path : List NodePortTuple) : Option (List NodePortTuple) :=
  if path = [] then none else some path

/-- `buildroute`.  No path is longer than there are switches. -/
def ComputedInstance.buildroute (i : ComputedInstance) (srcId dstId : SwitchId) :
    Option (Except JavaException (Option (List NodePortTuple))) :=
  match i.destinationRootedTrees dstId with
  | none => some (.ok none)
  | some tree =>
    if srcId ∉ i.switches ∨ dstId ∉ i.switches then some (.ok (routeOfPath []))
    else if tree.links srcId = none then some (.ok (routeOfPath []))
    else (followLinks tree.links dstId i.switches.length srcId).map fun r => r.map routeOfPath

/-- `getRoute(srcId, dstId, cookie)`.  The path cache calls `buildroute`, and
answers a null route as well as an exception with an exception, which is
caught. -/
def ComputedInstance.getSwitchRoute (i : ComputedInstance) (srcId dstId : SwitchId) :
    Option (Option (List NodePortTuple)) :=
  if srcId = dstId then some none
  else
    (i.buildroute srcId dstId).map fun
      | .ok r => r
      | .error _ => none

def ComputedInstance.getRoute (i : ComputedInstance) (srcId : SwitchId) (srcPort : Port)
    (dstId : SwitchId) (dstPort : Port) : Option (Option (List NodePortTuple)) :=
  if srcId = dstId ∧ srcPort = dstPort then some none
  else
    (i.getSwitchRoute srcId dstId).map fun
      | none =>
        if srcId = dstId then some [⟨srcId, srcPort⟩, ⟨dstId, dstPort⟩] else none
      | some path => some (⟨srcId, srcPort⟩ :: path ++ [⟨dstId, dstPort⟩])

/-! ### Paths -/

/-- `path` leads from `first` to `last` over the links `es`: it enters and
leaves each switch, and what it leaves one by and enters the next by are the
ends of a link. -/
structure RoutesOver (path : List NodePortTuple) (first last : NodePortTuple) (es : List Link) :
    Prop where
  length : path.length = 2 * (es.length + 1)
  head : path.head? = some first
  getLast : path.getLast? = some last
  same_switch : ∀ k a b, path[2 * k]? = some a → path[2 * k + 1]? = some b → a.nodeId = b.nodeId
  links : ∀ k l, es[k]? = some l →
    path[2 * k + 1]? = some ⟨l.src, l.srcPort⟩ ∧ path[2 * k + 2]? = some ⟨l.dst, l.dstPort⟩

theorem routesOver_of_isWalk {L : Set Link} {b : NodePortTuple} {es : List Link} :
    ∀ {a : NodePortTuple}, IsWalk Link.src Link.dst L a.nodeId b.nodeId es →
      RoutesOver (a :: es.flatMap Link.ends ++ [b]) a b es := by
  induction es with
  | nil =>
    intro a hwalk
    refine ⟨rfl, rfl, rfl, fun k x y hx hy => ?_, fun k l hl => ?_⟩
    · rcases k with _ | k
      · cases hx
        cases hy
        exact hwalk
      · simp at hy
    · simp at hl
  | cons l es ih =>
    rintro a ⟨-, hsrc, hwalk⟩
    -- the rest of the path starts where the link ends
    obtain ⟨hlen, -, hlast, hsame, hlinks⟩ := ih (a := ⟨l.dst, l.dstPort⟩) hwalk
    have hpath : a :: (l :: es).flatMap Link.ends ++ [b] =
        a :: ⟨l.src, l.srcPort⟩ ::
          (⟨l.dst, l.dstPort⟩ :: es.flatMap Link.ends ++ [b]) := rfl
    rw [hpath]
    refine ⟨?_, rfl, ?_, fun k x y hx hy => ?_, fun k l' hl' => ?_⟩
    · rw [length_cons, length_cons, hlen, length_cons]
      omega
    · rw [getLast?_cons_cons, getLast?_cons_of_ne_nil (by simp), hlast]
    · rcases k with _ | k
      · cases hx
        cases hy
        exact hsrc.symm
      · exact hsame k x y hx hy
    · rcases k with _ | k
      · cases hl'
        exact ⟨rfl, rfl⟩
      · exact hlinks k l' hl'

/-! ### Shortest paths -/

/-- The links of `es` lead from `v` to `root` inside the cluster. -/
def ClusterLinks.IsPath (c : ClusterLinks) (v root : SwitchId) (es : List Link) : Prop :=
  IsWalk Link.src Link.dst {l | l ∈ c.all} v root es

/-- The costs of the paths from `v` to `root` inside the cluster. -/
def ClusterLinks.pathCosts (c : ClusterLinks) (cost : Link → Option ℤ) (v root : SwitchId) :
    Set ℤ :=
  {x | ∃ es, c.IsPath v root es ∧ walkCost (linkWeight cost) es = x}

section Paths

variable {c : ClusterLinks} {cost : Link → Option ℤ} {root v : SwitchId} {tree : BroadcastTree}

theorem mem_of_isWalk {L : Set Link} {es : List Link} :
    ∀ {a b : SwitchId}, IsWalk Link.src Link.dst L a b es → ∀ l ∈ es, l ∈ L := by
  induction es with
  | nil => exact fun _ l hl => absurd hl not_mem_nil
  | cons e es ih =>
    rintro a b ⟨he, -, hes⟩ l hl
    rcases mem_cons.mp hl with rfl | hl
    · exact he
    · exact ih hes l hl

theorem followLinks_of_follows {links : SwitchId → Option Link} {es : List Link}
    (h : Follows Link.dst links root v es) :
    ∀ fuel, es.length ≤ fuel →
      followLinks links root fuel v = some (.ok (es.flatMap Link.ends)) := by
  induction h with
  | root =>
    intro fuel _
    unfold followLinks
    rw [if_pos rfl]
    rfl
  | step hv he hes ih =>
    intro fuel hfuel
    obtain ⟨fuel, rfl⟩ : ∃ n, fuel = n + 1 := ⟨fuel - 1, by simp at hfuel; omega⟩
    unfold followLinks
    rw [if_neg hv, he]
    dsimp only
    rw [ih fuel (by simpa using hfuel)]
    rfl

/-- Everything the labels of a tree say. -/
structure ShortestPathTree (c : ClusterLinks) (cost : Link → Option ℤ) (root : SwitchId)
    (tree : BroadcastTree) : Prop where
  minimum : ∀ v ∈ c.nodes, (∃ es, c.IsPath v root es) →
    ∃ x, tree.costs v = some x ∧ IsLeast (c.pathCosts cost v root) x
  unreachable : ∀ v ∈ c.nodes, (¬ ∃ es, c.IsPath v root es) →
    tree.costs v = some maxPathWeight
  noLink : ∀ v ∈ c.nodes, tree.links v = none ↔ v = root ∨ ¬ ∃ es, c.IsPath v root es

theorem shortestPathTree_of_labelling (hcost : c.Affordable cost)
    (hlabel : ∀ v ∈ c.nodes, tree.costs v = some ((tree.label v).getD maxPathWeight))
    (h : Labelling Link.src Link.dst {l | l ∈ c.all} (linkWeight cost) root tree.label
      tree.links) : ShortestPathTree c cost root tree := by
  have hiff : ∀ v, (∃ es, c.IsPath v root es) ↔ tree.label v ≠ none :=
    fun v => h.exists_walk_iff hcost.pos
  refine ⟨fun v hv hpath => ?_, fun v hv hnot => ?_, fun v hv => ?_⟩
  · obtain ⟨x, hx⟩ := Option.ne_none_iff_exists'.mp ((hiff v).mp hpath)
    refine ⟨x, ?_, h.isLeast hcost.pos hx⟩
    rw [hlabel v hv, hx]
    rfl
  · rw [hiff, not_not] at hnot
    rw [hlabel v hv, hnot]
    rfl
  · rw [h.next_none, hiff, not_not]

end Paths

section Route

variable {i : ComputedInstance} {c : Cluster} {cost : Link → Option ℤ} {root src : SwitchId}
  {tree : BroadcastTree}

section

variable (hd : i.domains.Disjoint i.toTopologyInstance) (hwf : (i.links c).WellFormed)
  (hc : c ∈ i.domains.clusters) (hroot : root ∈ c.nodes) (hsrc : src ∈ c.nodes)
  (hne : src ≠ root) (hcost : (i.links c).Affordable cost)
  (h : Labelling Link.src Link.dst {l | l ∈ (i.links c).all} (linkWeight cost) root tree.label
    tree.links) {x : ℤ} (hx : tree.label src = some x)
  (htree : i.destinationRootedTrees root = some tree) (srcPort dstPort : Port)
include hd hwf hc hroot hsrc hne hcost h hx htree

/-- The walk of a route, which goes through no switch twice. -/
theorem exists_walk_getRoute :
    ∃ es, (i.links c).IsPath src root es ∧ (es.map Link.src ++ [root]).Nodup ∧
      walkCost (linkWeight cost) es = x ∧ i.getRoute src srcPort root dstPort =
        some (some (⟨src, srcPort⟩ :: es.flatMap Link.ends ++ [⟨root, dstPort⟩])) := by
  obtain ⟨es, hfollows, hwalk, hsum, -, hnodup⟩ := h.exists_follows hcost.pos hx
  have hswitches : ∀ v ∈ c.nodes, v ∈ i.switches := fun v hv => (hd.member c hc v hv).1
  -- the switches on the way are different switches of the instance
  have hlen : es.length ≤ i.switches.length := by
    have hsub : es.map Link.src ⊆ i.switches := by
      intro v hv
      obtain ⟨l, hl, rfl⟩ := mem_map.mp hv
      obtain ⟨u, hu, hlu⟩ := ClusterLinks.mem_all.mp (mem_of_isWalk hwalk l hl)
      exact hswitches _ (mem_clusterLinks_nodes.mp (hwf.ends u hu l hlu).1)
    simpa using (hnodup.subperm hsub).length_le
  have hpath : es.flatMap Link.ends ≠ [] := by
    cases hfollows with
    | root => exact absurd rfl hne
    | step => simp [Link.ends]
  have hlink : tree.links src ≠ none := by
    rw [Ne, h.next_none, hx]
    simp [hne]
  have hbuild : i.buildroute src root = some (.ok (some (es.flatMap Link.ends))) := by
    unfold ComputedInstance.buildroute
    rw [htree]
    dsimp only
    rw [if_neg (by simp [hswitches src hsrc, hswitches root hroot]), if_neg hlink,
      followLinks_of_follows hfollows _ hlen]
    simp [Except.map, routeOfPath, hpath]
  have hswitch : i.getSwitchRoute src root = some (some (es.flatMap Link.ends)) := by
    unfold ComputedInstance.getSwitchRoute
    rw [if_neg hne, hbuild]
    rfl
  refine ⟨es, hwalk, nodup_append.mpr ⟨hnodup, nodup_singleton _, ?_⟩, hsum, ?_⟩
  · rintro v hv _ hmem rfl
    exact hfollows.root_notMem hwalk (mem_singleton.mp hmem ▸ hv)
  unfold ComputedInstance.getRoute
  rw [if_neg (by simp [hne]), hswitch]
  rfl

theorem getRoute_of_labelling :
    ∃ path es, i.getRoute src srcPort root dstPort = some (some path) ∧
      RoutesOver path ⟨src, srcPort⟩ ⟨root, dstPort⟩ es ∧ (∀ l ∈ es, l ∈ (i.links c).all) ∧
      walkCost (linkWeight cost) es = x := by
  obtain ⟨es, hwalk, -, hsum, hroute⟩ :=
    exists_walk_getRoute hd hwf hc hroot hsrc hne hcost h hx htree srcPort dstPort
  exact ⟨_, es, hroute, routesOver_of_isWalk hwalk, mem_of_isWalk hwalk, hsum⟩

end

/-- **Shortest path routing.**  In every cluster of a computed instance, for
all positive link costs that add up to less than `MAX_PATH_WEIGHT`, the tree to
a switch has the costs of the shortest paths, and the routes over it are
shortest paths. -/
theorem shortest_path_routing {ord : HashOrders} {t : TopologyInstance}
    {traffic : Link → Option LinkInfo} {priority : Fin 3}
    (hi : compute ord t traffic priority = some i) (hc : c ∈ i.domains.clusters)
    (hcost : (i.links c).Affordable cost) (hroot : root ∈ c.nodes) :
    ∃ tree, dijkstra (i.links c) root cost true = some tree ∧
      ShortestPathTree (i.links c) cost root tree ∧
      ((∀ l ∈ (i.links c).all, cost l = i.linkCost l) →
        i.destinationRootedTrees root = some tree) ∧
      ∀ trees : SwitchId → Option BroadcastTree, trees root = some tree →
        ∀ src ∈ c.nodes, src ≠ root → (∃ es, (i.links c).IsPath src root es) →
        ∀ srcPort dstPort, ∃ path es x,
          { i with destinationRootedTrees := trees }.getRoute src srcPort root dstPort =
            some (some path) ∧
          RoutesOver path ⟨src, srcPort⟩ ⟨root, dstPort⟩ es ∧
          (∀ l ∈ es, l ∈ (i.links c).all) ∧
          tree.costs src = some x ∧ walkCost (linkWeight cost) es = x := by
  obtain ⟨hvalid, -, -⟩ := compute_valid hi
  have hwf : (i.links c).WellFormed := clusterLinks_wellFormed hvalid.disjoint hvalid.links c
  obtain ⟨tree, htree, hlabel, h⟩ :=
    dijkstra_labelling hwf (hcost.fits _) (mem_clusterLinks_nodes.mpr hroot)
  refine ⟨tree, htree, shortestPathTree_of_labelling hcost hlabel h, fun hown => ?_, ?_⟩
  · rw [hvalid.trees c hc root hroot, ← htree]
    refine dijkstra_congr fun v hv l hl => ?_
    unfold linkWeight
    rw [hown l (ClusterLinks.mem_all.mpr ⟨v, hv, hl⟩)]
  · intro trees hroottree src hsrc hne hpath srcPort dstPort
    obtain ⟨x, hx⟩ := Option.ne_none_iff_exists'.mp ((h.exists_walk_iff hcost.pos).mp hpath)
    obtain ⟨path, es, hroute, hover, hmem, hsum⟩ :=
      getRoute_of_labelling (i := { i with destinationRootedTrees := trees }) hvalid.disjoint hwf
        hc hroot hsrc hne hcost h hx hroottree srcPort dstPort
    refine ⟨path, es, x, hroute, hover, hmem, ?_, hsum⟩
    rw [hlabel src (mem_clusterLinks_nodes.mpr hsrc), hx]
    rfl

end Route

/-! ### Two switches -/

def pairLinks : List Link := [⟨1, 1, 2, 1⟩, ⟨2, 1, 1, 1⟩]

def pairInstance : TopologyInstance where
  switches := [1, 2]
  switchPorts := fun sw => if sw = 1 ∨ sw = 2 then [1] else []
  switchPortLinks := fun npt => if npt = ⟨1, 1⟩ ∨ npt = ⟨2, 1⟩ then pairLinks else []
  blockedPorts := []
  broadcastDomainPorts := []

noncomputable def anyOrders : HashOrders where
  clusters := anyOrder Cluster
  nodes := anyOrder SwitchId
  links := fun _ => anyOrder Link

theorem exists_pairInstance_computed (traffic : Link → Option LinkInfo) (priority : Fin 3) :
    ∃ i, compute anyOrders pairInstance traffic priority = some i ∧
      ⟨{1, 2}⟩ ∈ i.domains.clusters ∧ (i.links ⟨{1, 2}⟩).all = pairLinks.toFinset := by
  obtain ⟨d, hd, hclusters, m, hm⟩ : ∃ d, identifyOpenflowDomains pairInstance = some d ∧
      d.clusters = {⟨{1, 2}⟩} ∧ ∃ m, addLinksToOpenflowDomains pairInstance d = some m := by
    have hd : (identifyOpenflowDomains pairInstance).map Domains.clusters = some {⟨{1, 2}⟩} := by
      decide
    have hm : ((identifyOpenflowDomains pairInstance).bind
        (addLinksToOpenflowDomains pairInstance)).isSome := by decide
    obtain ⟨d, hd, hclusters⟩ := Option.map_eq_some_iff.mp hd
    rw [hd] at hm
    obtain ⟨m, hm⟩ := Option.isSome_iff_exists.mp hm
    exact ⟨d, hd, hclusters, m, hm⟩
  obtain ⟨i, hi, -, -, rfl, rfl, hvalid⟩ := compute_spec hd hm anyOrders traffic priority
  have hc : ⟨{1, 2}⟩ ∈ i.domains.clusters := by simp [hclusters]
  refine ⟨i, hi, hc, Finset.Subset.antisymm (fun l hl => ?_) fun l hl => ?_⟩
  · obtain ⟨v, -, hl⟩ := ClusterLinks.mem_all.mp hl
    have hmem := ((mem_domainLinks hm _ v l).mp (mem_clusterLinks.mp hl)).1
    have hlinks : ∀ l ∈ pairInstance.openflowLinks, l ∈ pairLinks.toFinset := by decide
    exact hlinks l hmem
  · have hlinks : ∀ l ∈ pairLinks.toFinset, l ∈ pairInstance.openflowLinks ∧
        pairInstance.isBlockedLink l = false ∧ pairInstance.isBroadcastDomainLink l = false ∧
        l.src ∈ (⟨{1, 2}⟩ : Cluster).nodes ∧ l.dst ∈ (⟨{1, 2}⟩ : Cluster).nodes := by decide
    obtain ⟨hopen, hblocked, hdomain, hsrc, hdst⟩ := hlinks l hl
    refine ClusterLinks.mem_all.mpr ⟨l.src, mem_clusterLinks_nodes.mpr hsrc,
      mem_clusterLinks.mpr ((mem_domainLinks hm _ _ l).mpr ⟨hopen, ?_, .inl rfl⟩)⟩
    exact ⟨hblocked, hdomain, (hvalid.disjoint.member _ hc _ hsrc).2,
      (hvalid.disjoint.member _ hc _ hdst).2⟩

theorem shortest_path_routing_pair :
    ∃ i, compute anyOrders pairInstance (fun _ => none) 0 = some i ∧
      ∃ tree, dijkstra (i.links ⟨{1, 2}⟩) 2 (fun _ => none) true = some tree ∧
        ShortestPathTree (i.links ⟨{1, 2}⟩) (fun _ => none) 2 tree := by
  obtain ⟨i, hi, hc, hlinks⟩ := exists_pairInstance_computed (fun _ => none) 0
  have hcost : (i.links ⟨{1, 2}⟩).Affordable fun _ => none := by
    refine ⟨fun _ _ => show 0 < baseLinkCost by decide, ?_⟩
    rw [hlinks]
    decide
  have hroot : (2 : SwitchId) ∈ (⟨{1, 2}⟩ : Cluster).nodes := by decide
  obtain ⟨tree, htree, hshort, -⟩ := shortest_path_routing hi hc hcost hroot
  exact ⟨i, hi, tree, htree, hshort⟩

end NctuSdn
