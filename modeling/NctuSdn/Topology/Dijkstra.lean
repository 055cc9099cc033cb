/-
Shortest path trees in a cluster (`TopologyInstance.dijkstra`).

The queue is a `PriorityQueue<NodeDist>`: a binary heap whose comparison falls
back, for equal distances, on the low 32 bits of the difference of the switch
ids.  That is no order, and distances are `int`s that wrap around.  A switch
whose distance drops is taken out of the queue and added again; the two
entries count as equal because `equals` looks at the switch only.

What holds for every assignment of link costs is `Running`: the queue has one
entry for each switch that waits, so the loop ends after as many turns as
there are switches.  `Exact` is what holds in addition for costs that fit
(`ClusterLinks.Fits`): nothing wraps around, the comparison never contradicts
the distances, and the labels are those of a shortest path search.  Positive
costs that add up to less than `MAX_PATH_WEIGHT` fit, whatever the root is.
-/
import Mathlib.Algebra.Order.BigOperators.Group.Finset
import Mathlib.Data.Int.ConditionallyCompleteOrder
import Mathlib.Order.ConditionallyCompleteLattice.Basic
import NctuSdn.Lib.Heap
import NctuSdn.Lib.Search
import NctuSdn.Lib.ShortestPath
import NctuSdn.Topology.Link

namespace NctuSdn

open List Finset Option

/-! ### The source -/

/-- The value of an `int` expression. -/
def toInt32 (x : ℤ) : ℤ := x.bmod 0x100000000

def maxLinkWeight : ℤ := 10000

def maxPathWeight : ℤ := 0x7fffffff - maxLinkWeight - 1

def baseLinkCost : ℤ := 10

structure NodeDist where
  node : SwitchId
  dist : ℤ
deriving DecidableEq, Repr

def NodeDist.compareTo (n o : NodeDist) : ℤ :=
  if o.dist = n.dist then ((n.node - o.node).setWidth 32).toInt
  else toInt32 (n.dist - o.dist)

/-- The `links` of a `Cluster`: its keys and, for each of them, the links of
the switch.  Both are lists in the order in which they are iterated. -/
structure ClusterLinks where
  nodes : List SwitchId
  links : SwitchId → List Link

def ClusterLinks.get (c : ClusterLinks) (node : SwitchId) : Option (List Link) :=
  if node ∈ c.nodes then some (c.links node) else none

/-- `BroadcastTree`.  The keys of `links` are the switches of the cluster, and
a null value is `none`. -/
structure BroadcastTree where
  links : SwitchId → Option Link
  costs : SwitchId → Option ℤ

/-- The local variables of `dijkstra`. -/
structure DijkstraState where
  nexthoplinks : SwitchId → Option Link
  cost : SwitchId → Option ℤ
  seen : Finset SwitchId
  nodeq : List NodeDist

/-- The cost of a link; a missing one is `baseLinkCost`.  A null map has no
entry. -/
def linkWeight (linkCost : Link → Option ℤ) (l : Link) : ℤ := (linkCost l).getD baseLinkCost

/-- Put a better distance in place, also in the queue. -/
def DijkstraState.improve (s : DijkstraState) (neighbor : SwitchId) (link : Link) (ndist : ℤ) :
    DijkstraState where
  cost := Function.update s.cost neighbor (some ndist)
  nexthoplinks := Function.update s.nexthoplinks neighbor (some link)
  seen := s.seen
  nodeq := Heap.add NodeDist.compareTo
    (Heap.remove NodeDist.compareTo s.nodeq fun n => neighbor == n.node) ⟨neighbor, ndist⟩

/-- The body of the loop over the links of `cnode`.  There is no result if the
neighbour has no cost, which is a null that is unboxed. -/
def relaxLink (linkCost : Link → Option ℤ) (isDstRooted : Bool) (cnode : SwitchId) (cdist : ℤ)
    (s : DijkstraState) (link : Link) : Option DijkstraState :=
  let neighbor := if isDstRooted then link.src else link.dst
  if neighbor = cnode then some s
  else if neighbor ∈ s.seen then some s
  else
    let ndist := toInt32 (cdist + linkWeight linkCost link)
    match s.cost neighbor with
    | none => none
    | some old => if ndist < old then some (s.improve neighbor link ndist) else some s

/-- The loop over the queue; `none` if it is not through after `fuel` turns or
raises an exception. -/
def dijkstraLoop (c : ClusterLinks) (linkCost : Link → Option ℤ) (isDstRooted : Bool) :
    ℕ → DijkstraState → Option DijkstraState
  | 0, s => if s.nodeq = [] then some s else none
  | fuel + 1, s =>
    match Heap.poll NodeDist.compareTo s.nodeq with
    | none => some s
    | some (n, nodeq) =>
      if maxPathWeight ≤ n.dist then some { s with nodeq := nodeq }
      else if n.node ∈ s.seen then
        dijkstraLoop c linkCost isDstRooted fuel { s with nodeq := nodeq }
      else
        (c.get n.node).bind fun links =>
          (links.foldlM (relaxLink linkCost isDstRooted n.node n.dist)
            { s with nodeq := nodeq, seen := insert n.node s.seen }).bind
            (dijkstraLoop c linkCost isDstRooted fuel)

def dijkstraInit (c : ClusterLinks) (root : SwitchId) : DijkstraState where
  nexthoplinks := fun _ => none
  cost := Function.update (fun node => if node ∈ c.nodes then some maxPathWeight else none)
    root (some 0)
  seen := ∅
  nodeq := Heap.add NodeDist.compareTo [] ⟨root, 0⟩

/-- `dijkstra`.  No switch is seen twice, so there are as many turns as
switches. -/
def dijkstra (c : ClusterLinks) (root : SwitchId) (linkCost : Link → Option ℤ)
    (isDstRooted : Bool) : Option BroadcastTree :=
  (dijkstraLoop c linkCost isDstRooted c.nodes.length (dijkstraInit c root)).map fun s =>
    ⟨s.nexthoplinks, s.cost⟩

/-! ### Clusters and queues -/

/-- The links of a cluster as `addLink` makes them: a link is listed at both
of its ends, and nowhere else. -/
structure ClusterLinks.WellFormed (c : ClusterLinks) : Prop where
  nodup : c.nodes.Nodup
  incident : ∀ v ∈ c.nodes, ∀ l ∈ c.links v, v = l.src ∨ v = l.dst
  ends : ∀ v ∈ c.nodes, ∀ l ∈ c.links v, l.src ∈ c.nodes ∧ l.dst ∈ c.nodes
  listed : ∀ v ∈ c.nodes, ∀ l ∈ c.links v, l ∈ c.links l.src ∧ l ∈ c.links l.dst

def ClusterLinks.all (c : ClusterLinks) : Finset Link :=
  c.nodes.toFinset.biUnion fun v => (c.links v).toFinset

theorem ClusterLinks.mem_all {c : ClusterLinks} {l : Link} :
    l ∈ c.all ↔ ∃ v ∈ c.nodes, l ∈ c.links v := by
  simp [all]

theorem remove_node (q : List NodeDist) (v : SwitchId) (h : (q.map NodeDist.node).Nodup) :
    ((Heap.remove NodeDist.compareTo q fun n => v == n.node).map NodeDist.node).Nodup ∧
      ∀ n, n ∈ Heap.remove NodeDist.compareTo q (fun n => v == n.node) ↔ n ∈ q ∧ n.node ≠ v := by
  by_cases hex : ∃ a ∈ q, (v == a.node) = true
  · obtain ⟨a, ha, hperm⟩ : ∃ a, (v == a.node) = true ∧
        q.Perm (a :: Heap.remove NodeDist.compareTo q fun n => v == n.node) :=
      Heap.remove_perm hex
    have hav : v = a.node := by simpa using ha
    have hnodup := (hperm.map NodeDist.node).nodup_iff.mp h
    rw [List.map_cons, List.nodup_cons] at hnodup
    refine ⟨hnodup.2, fun n => ?_⟩
    rw [hperm.mem_iff, List.mem_cons]
    constructor
    · intro hn
      refine ⟨.inr hn, fun heq => hnodup.1 ?_⟩
      have hna : n.node = a.node := heq.trans hav
      exact hna ▸ List.mem_map_of_mem hn
    · rintro ⟨rfl | hn, hne⟩
      · exact absurd hav.symm hne
      · exact hn
  · have hnone : ∀ a ∈ q, (v == a.node) = false := by
      intro a ha
      simpa using fun heq => hex ⟨a, ha, by simpa using heq⟩
    rw [Heap.remove_of_forall hnone]
    refine ⟨h, fun n => ⟨fun hn => ⟨hn, fun heq => ?_⟩, And.left⟩⟩
    exact hex ⟨n, hn, by simpa using heq.symm⟩

section Improve

variable {s : DijkstraState} {v : SwitchId} {l : Link} {d : ℤ}

theorem mem_nodeq_improve (h : (s.nodeq.map NodeDist.node).Nodup) (n : NodeDist) :
    n ∈ (s.improve v l d).nodeq ↔ n = ⟨v, d⟩ ∨ (n ∈ s.nodeq ∧ n.node ≠ v) := by
  unfold DijkstraState.improve
  rw [Heap.add_perm.mem_iff, List.mem_cons, (remove_node s.nodeq v h).2]

theorem nodup_nodeq_improve (h : (s.nodeq.map NodeDist.node).Nodup) :
    ((s.improve v l d).nodeq.map NodeDist.node).Nodup := by
  obtain ⟨hnodup, hmem⟩ := remove_node s.nodeq v h
  unfold DijkstraState.improve
  rw [(Heap.add_perm.map NodeDist.node).nodup_iff, List.map_cons, List.nodup_cons]
  refine ⟨fun hv => ?_, hnodup⟩
  obtain ⟨n, hn, hnv⟩ := List.mem_map.mp hv
  exact ((hmem n).mp hn).2 hnv

theorem cost_improve_self : (s.improve v l d).cost v = some d := Function.update_self ..

variable {u : SwitchId}

theorem cost_improve_of_ne (h : u ≠ v) : (s.improve v l d).cost u = s.cost u :=
  Function.update_of_ne h ..

theorem eq_or_of_cost_improve {x : ℤ} (h : (s.improve v l d).cost u = some x) :
    (u = v ∧ x = d) ∨ (u ≠ v ∧ s.cost u = some x) := by
  by_cases hu : u = v
  · subst hu
    rw [cost_improve_self] at h
    exact .inl ⟨rfl, (some.inj h).symm⟩
  · rw [cost_improve_of_ne hu] at h
    exact .inr ⟨hu, h⟩

theorem nexthoplinks_improve_self : (s.improve v l d).nexthoplinks v = some l :=
  Function.update_self ..

theorem nexthoplinks_improve_of_ne (h : u ≠ v) :
    (s.improve v l d).nexthoplinks u = s.nexthoplinks u :=
  Function.update_of_ne h ..

end Improve

/-! ### The search ends -/

/-- What holds throughout the search, whatever the link costs are. -/
structure Running (c : ClusterLinks) (s : DijkstraState) : Prop where
  seen_sub : ∀ v ∈ s.seen, v ∈ c.nodes
  known : ∀ v ∈ c.nodes, ∃ x, s.cost v = some x ∧ x ≤ maxPathWeight
  nodup : (s.nodeq.map NodeDist.node).Nodup
  waiting : ∀ n ∈ s.nodeq, n.node ∈ c.nodes ∧ n.node ∉ s.seen ∧
    s.cost n.node = some n.dist ∧ n.dist < maxPathWeight

section Running

variable {c : ClusterLinks} {s : DijkstraState} {v : SwitchId} {l : Link} {d x : ℤ}

theorem Running.improve (h : Running c s) (hv : v ∈ c.nodes) (hseen : v ∉ s.seen)
    (hx : s.cost v = some x) (hd : d < x) : Running c (s.improve v l d) where
  seen_sub := h.seen_sub
  known := by
    intro u hu
    obtain ⟨y, hy, hle⟩ := h.known u hu
    by_cases huv : u = v
    · subst huv
      rw [hx] at hy
      cases hy
      exact ⟨d, cost_improve_self, by omega⟩
    · exact ⟨y, by rw [cost_improve_of_ne huv, hy], hle⟩
  nodup := nodup_nodeq_improve h.nodup
  waiting := by
    intro n hn
    rcases (mem_nodeq_improve h.nodup n).mp hn with rfl | ⟨hn, hne⟩
    · obtain ⟨y, hy, hle⟩ := h.known v hv
      rw [hx] at hy
      cases hy
      exact ⟨hv, hseen, cost_improve_self, show d < maxPathWeight by omega⟩
    · rw [cost_improve_of_ne hne]
      exact h.waiting n hn

theorem Running.settle {n : NodeDist} {q : List NodeDist} (h : Running c s)
    (hpoll : Heap.poll NodeDist.compareTo s.nodeq = some (n, q)) :
    Running c { s with nodeq := q, seen := insert n.node s.seen } := by
  have hperm := Heap.poll_perm hpoll
  have hnodup := (hperm.map NodeDist.node).nodup_iff.mp h.nodup
  rw [List.map_cons, List.nodup_cons] at hnodup
  have hn : n ∈ s.nodeq := hperm.mem_iff.mpr (List.mem_cons_self ..)
  refine ⟨?_, h.known, hnodup.2, ?_⟩
  · intro v hv
    rcases Finset.mem_insert.mp hv with rfl | hv
    · exact (h.waiting n hn).1
    · exact h.seen_sub v hv
  · intro m hm
    obtain ⟨hnode, hseen, hcost⟩ := h.waiting m (hperm.mem_iff.mpr (List.mem_cons_of_mem _ hm))
    refine ⟨hnode, ?_, hcost⟩
    rw [Finset.mem_insert, not_or]
    refine ⟨fun heq => hnodup.1 ?_, hseen⟩
    rw [← heq]
    exact List.mem_map_of_mem hm

/-- Everything the loop body can do to a link of the cluster: nothing,
because the neighbour is seen already or not farther away, or improve it. -/
theorem relaxLink_cases (linkCost : Link → Option ℤ) (isDstRooted : Bool) {cnode : SwitchId}
    (cdist : ℤ) (h : Running c s) (hc : c.WellFormed) (hl : l ∈ c.links cnode)
    (hcnode : cnode ∈ c.nodes) (neighbor : SwitchId)
    (hneighbor : (if isDstRooted then l.src else l.dst) = neighbor) :
    ∃ x, s.cost neighbor = some x ∧
      ((relaxLink linkCost isDstRooted cnode cdist s l = some s ∧
        (neighbor = cnode ∨ neighbor ∈ s.seen ∨
          x ≤ toInt32 (cdist + linkWeight linkCost l))) ∨
      (neighbor ≠ cnode ∧ neighbor ∉ s.seen ∧ toInt32 (cdist + linkWeight linkCost l) < x ∧
        relaxLink linkCost isDstRooted cnode cdist s l =
          some (s.improve neighbor l (toInt32 (cdist + linkWeight linkCost l))))) := by
  have hmem : neighbor ∈ c.nodes := by
    have hends := hc.ends cnode hcnode l hl
    rw [← hneighbor]
    split
    · exact hends.1
    · exact hends.2
  obtain ⟨x, hx, -⟩ := h.known neighbor hmem
  refine ⟨x, hx, ?_⟩
  unfold relaxLink
  dsimp only
  rw [hneighbor, hx]
  dsimp only
  split_ifs with hself hseen hlt
  · exact .inl ⟨rfl, .inl hself⟩
  · exact .inl ⟨rfl, .inr (.inl hseen)⟩
  · exact .inr ⟨hself, hseen, hlt, rfl⟩
  · exact .inl ⟨rfl, .inr (.inr (by omega))⟩

theorem Running.seen_card_lt {n : NodeDist} (h : Running c s) (hn : n ∈ s.nodeq) :
    s.seen.card < c.nodes.length := by
  obtain ⟨hnode, hseen, -⟩ := h.waiting n hn
  have hsub : insert n.node s.seen ⊆ c.nodes.toFinset := by
    intro v hv
    rcases mem_insert.mp hv with rfl | hv
    · exact mem_toFinset.mpr hnode
    · exact mem_toFinset.mpr (h.seen_sub v hv)
  have hcard := (card_le_card hsub).trans c.nodes.toFinset_card_le
  rw [card_insert_of_notMem hseen] at hcard
  omega

theorem running_init {root : SwitchId} (hroot : root ∈ c.nodes) :
    Running c (dijkstraInit c root) := by
  have hperm : (dijkstraInit c root).nodeq.Perm [⟨root, 0⟩] := Heap.add_perm
  refine ⟨fun v hv => absurd hv (Finset.notMem_empty v), ?_, ?_, ?_⟩
  · intro v hv
    by_cases hvr : v = root
    · exact ⟨0, by simp [dijkstraInit, hvr], by decide⟩
    · exact ⟨maxPathWeight, by simp [dijkstraInit, hvr, hv], le_refl _⟩
  · rw [(hperm.map NodeDist.node).nodup_iff]
    exact List.nodup_singleton _
  · intro n hn
    have hn' : n = ⟨root, 0⟩ := List.mem_singleton.mp (hperm.mem_iff.mp hn)
    subst hn'
    exact ⟨hroot, Finset.notMem_empty _, by simp [dijkstraInit],
      show (0 : ℤ) < maxPathWeight by decide⟩

/-- **Invariant rule for the search.**  `I` holds between two turns, and
`J cnode cdist done` after the links `done` of the switch polled last. -/
theorem dijkstraLoop_rule (linkCost : Link → Option ℤ) (isDstRooted : Bool) (hc : c.WellFormed)
    (I : DijkstraState → Prop) (J : SwitchId → ℤ → List Link → DijkstraState → Prop)
    (hpoll : ∀ s n q, Running c s → I s →
      Heap.poll NodeDist.compareTo s.nodeq = some (n, q) →
      J n.node n.dist [] { s with nodeq := q, seen := insert n.node s.seen })
    (hrelax : ∀ s s' cnode cdist done l, Running c s → cnode ∈ c.nodes → l ∈ c.links cnode →
      relaxLink linkCost isDstRooted cnode cdist s l = some s' → J cnode cdist done s →
      J cnode cdist (done ++ [l]) s')
    (hnext : ∀ s cnode cdist, J cnode cdist (c.links cnode) s → I s)
    (fuel : ℕ) {s : DijkstraState} (h : Running c s) (hI : I s)
    (hfuel : c.nodes.length ≤ fuel + s.seen.card) :
    ∃ s', dijkstraLoop c linkCost isDstRooted fuel s = some s' ∧ Running c s' ∧ I s' ∧
      s'.nodeq = [] := by
  induction fuel generalizing s with
  | zero =>
    -- every switch is seen, so none waits
    have hempty : s.nodeq = [] := by
      refine eq_nil_iff_forall_not_mem.mpr fun n hn => ?_
      have hlt := h.seen_card_lt hn
      omega
    exact ⟨s, if_pos hempty, h, hI, hempty⟩
  | succ fuel ih =>
    unfold dijkstraLoop
    cases hp : Heap.poll NodeDist.compareTo s.nodeq with
    | none => exact ⟨s, rfl, h, hI, Heap.poll_eq_none.mp hp⟩
    | some nq =>
      obtain ⟨n, q⟩ := nq
      have hn : n ∈ s.nodeq := (Heap.poll_perm hp).mem_iff.mpr (mem_cons_self ..)
      obtain ⟨hnode, hseen, -, hlt⟩ := h.waiting n hn
      have hget : c.get n.node = some (c.links n.node) := if_pos hnode
      dsimp only
      rw [if_neg (by omega), if_neg hseen, hget, bind_some]
      obtain ⟨s₁, hfold, hrun, hJ, hsame⟩ := foldlM_rule
        (f := relaxLink linkCost isDstRooted n.node n.dist) (l := c.links n.node)
        (fun done s' => Running c s' ∧ J n.node n.dist done s' ∧
          s'.seen = insert n.node s.seen)
        (fun done l rest s' hsplit hs' => by
          obtain ⟨hrun, hJ, hsame⟩ := hs'
          have hl : l ∈ c.links n.node := by simp [hsplit]
          obtain ⟨x, hx, ⟨heq, -⟩ | ⟨-, hns, hd, heq⟩⟩ :=
            relaxLink_cases linkCost isDstRooted n.dist hrun hc hl hnode _ rfl
          · exact ⟨s', heq, hrun, hrelax _ _ _ _ _ _ hrun hnode hl heq hJ, hsame⟩
          · refine ⟨_, heq, hrun.improve ?_ hns hx hd,
              hrelax _ _ _ _ _ _ hrun hnode hl heq hJ, hsame⟩
            have hends := hc.ends n.node hnode l hl
            split
            · exact hends.1
            · exact hends.2)
        ⟨h.settle hp, hpoll s n q h hI hp, rfl⟩
      rw [hfold, bind_some]
      refine ih hrun (hnext _ _ _ hJ) ?_
      rw [hsame, card_insert_of_notMem hseen]
      omega

/-- **The search ends**, whatever the link costs are. -/
theorem dijkstra_returns {root : SwitchId} (hc : c.WellFormed) (hroot : root ∈ c.nodes)
    (linkCost : Link → Option ℤ) (isDstRooted : Bool) :
    (dijkstra c root linkCost isDstRooted).isSome := by
  obtain ⟨s, hs, -⟩ := dijkstraLoop_rule linkCost isDstRooted hc
    (fun _ => True) (fun _ _ _ _ => True) (fun _ _ _ _ _ _ => trivial)
    (fun _ _ _ _ _ _ _ _ _ _ _ => trivial) (fun _ _ _ _ => trivial) c.nodes.length
    (running_init hroot) trivial (Nat.le_add_right _ _)
  simp [dijkstra, hs]

end Running

theorem dijkstra_congr {c : ClusterLinks} {root : SwitchId} {linkCost linkCost' : Link → Option ℤ}
    {isDstRooted : Bool}
    (h : ∀ v ∈ c.nodes, ∀ l ∈ c.links v, linkWeight linkCost l = linkWeight linkCost' l) :
    dijkstra c root linkCost isDstRooted = dijkstra c root linkCost' isDstRooted := by
  suffices hloop : ∀ fuel s, dijkstraLoop c linkCost isDstRooted fuel s =
      dijkstraLoop c linkCost' isDstRooted fuel s by
    unfold dijkstra
    rw [hloop]
  intro fuel
  induction fuel with
  | zero => exact fun s => rfl
  | succ fuel ih =>
    intro s
    unfold dijkstraLoop
    cases Heap.poll NodeDist.compareTo s.nodeq with
    | none => rfl
    | some nq =>
      obtain ⟨n, q⟩ := nq
      dsimp only
      split_ifs with hmax hseen
      · rfl
      · exact ih _
      · by_cases hn : n.node ∈ c.nodes
        · have hrelax : ∀ s, ∀ l ∈ c.links n.node,
              relaxLink linkCost isDstRooted n.node n.dist s l =
                relaxLink linkCost' isDstRooted n.node n.dist s l := by
            intro s l hl
            unfold relaxLink
            rw [h n.node hn l hl]
          rw [show c.get n.node = some (c.links n.node) from if_pos hn, bind_some,
            bind_some, foldlM_congr hrelax, funext ih]
        · rw [show c.get n.node = none from if_neg hn]
          rfl

/-! ### Costs that fit -/

/-- The costs of the links are positive and add up to less than
`MAX_PATH_WEIGHT`. -/
structure ClusterLinks.Affordable (c : ClusterLinks) (linkCost : Link → Option ℤ) : Prop where
  pos : ∀ l ∈ c.all, 0 < linkWeight linkCost l
  total : ∑ l ∈ c.all, linkWeight linkCost l < maxPathWeight

section Paths

variable (c : ClusterLinks) (linkCost : Link → Option ℤ) (root : SwitchId)

/-- A path of the cluster leads from the switch to the root and costs `x`. -/
def ClusterLinks.PathCost (v : SwitchId) (x : ℤ) : Prop :=
  ∃ es, IsWalk Link.src Link.dst {l | l ∈ c.all} v root es ∧
    walkCost (linkWeight linkCost) es = x

/-- What the search needs of the costs.  They are positive, every switch that
can reach the root reaches it for less than `MAX_PATH_WEIGHT`, and the
distance of no switch wraps around when the cost of a link to it is added. -/
structure ClusterLinks.Fits : Prop where
  pos : ∀ l ∈ c.all, 0 < linkWeight linkCost l
  near : ∀ v x, c.PathCost linkCost root v x →
    ∃ y, c.PathCost linkCost root v y ∧ y < maxPathWeight
  nowrap : ∀ l ∈ c.all, ∀ x, c.PathCost linkCost root l.dst x →
    ∃ y, c.PathCost linkCost root l.dst y ∧ y + linkWeight linkCost l < 2 ^ 31

end Paths

section Paths

variable {c : ClusterLinks} {linkCost : Link → Option ℤ} {root : SwitchId} {l : Link} {x : ℤ}

theorem ClusterLinks.PathCost.link (hl : l ∈ c.all) (h : c.PathCost linkCost root l.dst x) :
    c.PathCost linkCost root l.src (x + linkWeight linkCost l) := by
  obtain ⟨es, hes, rfl⟩ := h
  refine ⟨l :: es, ⟨hl, rfl, hes⟩, ?_⟩
  rw [walkCost_cons, add_comm]

/-- **A bound on all costs together is enough**, for every root: a path with as
few links as possible uses no link twice, and none that leads to its start. -/
theorem ClusterLinks.Affordable.fits (h : c.Affordable linkCost) (root : SwitchId) :
    c.Fits linkCost root where
  pos := h.pos
  near := by
    rintro v x ⟨es, hes, -⟩
    obtain ⟨fs, hfs⟩ := exists_direct ⟨es, hes⟩
    have hle := walkCost_le_sum (fun l hl => le_of_lt (h.pos l hl)) hfs.nodup hfs.walk.mem
    exact ⟨_, ⟨fs, hfs.walk, rfl⟩, lt_of_le_of_lt hle h.total⟩
  nowrap := by
    rintro l hl x ⟨es, hes, -⟩
    obtain ⟨fs, hfs⟩ := exists_direct ⟨es, hes⟩
    have hnodup : (l :: fs).Nodup := nodup_cons.mpr ⟨hfs.notMem, hfs.nodup⟩
    have hle := walkCost_le_sum (fun l hl => le_of_lt (h.pos l hl)) hnodup
      (forall_mem_cons.mpr ⟨hl, hfs.walk.mem⟩)
    have htotal := h.total
    refine ⟨_, ⟨fs, hfs.walk, rfl⟩, ?_⟩
    rw [walkCost_cons] at hle
    unfold maxPathWeight maxLinkWeight at htotal
    omega

end Paths

theorem toInt32_of_lt {x : ℤ} (h₀ : 0 ≤ x) (h : x < 2 ^ 31) : toInt32 x = x :=
  Int.bmod_eq_of_le (by omega) (by omega)

/-- As long as the distances are in range, the comparison does not contradict
them. -/
theorem compareTo_agrees :
    Heap.Agrees NodeDist.compareTo NodeDist.dist {n | 0 ≤ n.dist ∧ n.dist < maxPathWeight} := by
  have hcases : ∀ a ∈ {n : NodeDist | 0 ≤ n.dist ∧ n.dist < maxPathWeight},
      ∀ b ∈ {n : NodeDist | 0 ≤ n.dist ∧ n.dist < maxPathWeight},
      a.dist = b.dist ∨ a.compareTo b = a.dist - b.dist := by
    rintro a ⟨ha₀, ha⟩ b ⟨hb₀, hb⟩
    rcases eq_or_ne b.dist a.dist with heq | hne
    · exact .inl heq.symm
    · refine .inr ?_
      unfold NodeDist.compareTo toInt32
      rw [if_neg hne]
      unfold maxPathWeight maxLinkWeight at ha hb
      exact Int.bmod_eq_of_le (by omega) (by omega)
  constructor
  · intro a ha b hb hle
    rcases hcases a ha b hb with heq | heq <;> omega
  · intro a ha b hb hge
    rcases hcases a ha b hb with heq | heq <;> omega

/-! ### The labels are exact -/

/-- What holds in addition when the costs fit.  `Relaxed` are the links whose
source is no farther away than they make it. -/
structure Exact (c : ClusterLinks) (linkCost : Link → Option ℤ) (root : SwitchId)
    (Relaxed : Link → Prop) (s : DijkstraState) : Prop where
  ordered : Heap.Ordered NodeDist.dist s.nodeq
  root_zero : s.cost root = some 0
  nonneg : ∀ v x, s.cost v = some x → 0 ≤ x
  unlinked : ∀ v ∈ c.nodes,
    s.nexthoplinks v = none ↔ v = root ∨ s.cost v = some maxPathWeight
  linked : ∀ v l, s.nexthoplinks v = some l → l ∈ c.all ∧ l.src = v ∧ l.dst ∈ s.seen ∧
    ∃ x, s.cost l.dst = some x ∧ s.cost v = some (x + linkWeight linkCost l)
  relaxed : ∀ l ∈ c.all, Relaxed l → ∀ x, s.cost l.dst = some x →
    ∃ y, s.cost l.src = some y ∧ y ≤ x + linkWeight linkCost l
  seen_le : ∀ u ∈ s.seen, ∀ x, s.cost u = some x → ∀ n ∈ s.nodeq, x ≤ n.dist
  seen_lt : ∀ u ∈ s.seen, ∀ x, s.cost u = some x → x < maxPathWeight
  queued : ∀ v x, s.cost v = some x → x < maxPathWeight → v ∉ s.seen → ⟨v, x⟩ ∈ s.nodeq
  reached : ∀ v x, s.cost v = some x → x < maxPathWeight → c.PathCost linkCost root v x

/-- The state after the links `done` of the switch polled last. -/
structure Relaxing (c : ClusterLinks) (linkCost : Link → Option ℤ) (root cnode : SwitchId)
    (cdist : ℤ) (done : List Link) (s : DijkstraState) : Prop where
  exact : Exact c linkCost root (fun l => l.dst ∈ s.seen ∧ (l.dst = cnode → l ∈ done)) s
  cost : s.cost cnode = some cdist
  seen : cnode ∈ s.seen
  latest : ∀ u ∈ s.seen, ∀ x, s.cost u = some x → x ≤ cdist
  least : ∀ x, c.PathCost linkCost root cnode x → cdist ≤ x

section Exact

variable {c : ClusterLinks} {linkCost : Link → Option ℤ} {root cnode : SwitchId}
  {Relaxed : Link → Prop} {s : DijkstraState} {cdist : ℤ} {done : List Link} {l : Link}

theorem Exact.inRange (h : Exact c linkCost root Relaxed s) (hr : Running c s) :
    ∀ n ∈ s.nodeq, n ∈ {n : NodeDist | 0 ≤ n.dist ∧ n.dist < maxPathWeight} := by
  intro n hn
  obtain ⟨-, -, hcost, hlt⟩ := hr.waiting n hn
  exact ⟨h.nonneg _ _ hcost, hlt⟩

theorem exact_init (c : ClusterLinks) (linkCost : Link → Option ℤ) (root : SwitchId) :
    Exact c linkCost root (fun l => l.dst ∈ (dijkstraInit c root).seen) (dijkstraInit c root) := by
  have hval : ∀ v x, (dijkstraInit c root).cost v = some x →
      (v = root ∧ x = 0) ∨ (v ≠ root ∧ x = maxPathWeight) := by
    intro v x hx
    by_cases hv : v = root
    · simp [dijkstraInit, hv] at hx
      exact .inl ⟨hv, hx.symm⟩
    · simp [dijkstraInit, hv] at hx
      exact .inr ⟨hv, hx.2.symm⟩
  have hinit : Heap.Ordered NodeDist.dist (dijkstraInit c root).nodeq :=
    Heap.Ordered.add Heap.ordered_nil compareTo_agrees (by simp)
      (show (0 : ℤ) ≤ 0 ∧ (0 : ℤ) < maxPathWeight by decide)
  refine ⟨hinit, by simp [dijkstraInit], ?_, ?_, ?_, ?_, ?_, ?_, ?_, ?_⟩
  · intro v x hx
    rcases hval v x hx with ⟨-, rfl⟩ | ⟨-, rfl⟩ <;> decide
  · intro v hv
    by_cases hvr : v = root
    · simp [dijkstraInit, hvr]
    · simp [dijkstraInit, hvr, hv]
  · intro v l hl
    cases hl
  · intro l _ hl
    exact absurd hl (notMem_empty _)
  · intro u hu
    exact absurd hu (notMem_empty _)
  · intro u hu
    exact absurd hu (notMem_empty _)
  · intro v x hx hlt _
    rcases hval v x hx with ⟨rfl, rfl⟩ | ⟨-, rfl⟩
    · exact Heap.add_perm.mem_iff.mpr (mem_cons_self ..)
    · exact absurd hlt (lt_irrefl _)
  · intro v x hx hlt
    rcases hval v x hx with ⟨rfl, rfl⟩ | ⟨-, rfl⟩
    · exact ⟨[], rfl, rfl⟩
    · exact absurd hlt (lt_irrefl _)

/-- The start of a path is seen and no farther away than the path says, or the
path is still to be found: no cheaper than what waits, or too expensive. -/
theorem Exact.le_pathCost (hcost : c.Fits linkCost root)
    (h : Exact c linkCost root (fun l => l.dst ∈ s.seen) s) {es : List Link} :
    ∀ {v : SwitchId}, IsWalk Link.src Link.dst {l | l ∈ c.all} v root es →
      (v ∈ s.seen ∧ ∃ x, s.cost v = some x ∧ x ≤ walkCost (linkWeight linkCost) es) ∨
      (∃ n ∈ s.nodeq, n.dist ≤ walkCost (linkWeight linkCost) es) ∨
      maxPathWeight ≤ walkCost (linkWeight linkCost) es := by
  induction es with
  | nil =>
    rintro v rfl
    by_cases hseen : v ∈ s.seen
    · exact .inl ⟨hseen, 0, h.root_zero, le_refl _⟩
    · exact .inr (.inl ⟨_, h.queued v 0 h.root_zero (by decide) hseen, le_refl _⟩)
  | cons l es ih =>
    rintro v ⟨hl, rfl, hes⟩
    have hw := hcost.pos l hl
    rw [walkCost_cons]
    rcases ih hes with ⟨hdst, x, hx, hle⟩ | ⟨n, hn, hle⟩ | hle
    · -- the last switch of the path that is seen hands its label on
      obtain ⟨y, hy, hyx⟩ := h.relaxed l hl hdst x hx
      by_cases hseen : l.src ∈ s.seen
      · exact .inl ⟨hseen, y, hy, by omega⟩
      · rcases lt_or_ge y maxPathWeight with hlt | hge
        · exact .inr (.inl ⟨_, h.queued _ y hy hlt hseen, show y ≤ _ by omega⟩)
        · exact .inr (.inr (by omega))
    · exact .inr (.inl ⟨n, hn, by omega⟩)
    · exact .inr (.inr (by omega))

/-- The switch polled is the nearest of those that wait. -/
theorem Exact.settle {n : NodeDist} {q : List NodeDist} (hcost : c.Fits linkCost root)
    (h : Exact c linkCost root (fun l => l.dst ∈ s.seen) s) (hr : Running c s)
    (hpoll : Heap.poll NodeDist.compareTo s.nodeq = some (n, q)) :
    Relaxing c linkCost root n.node n.dist []
      { s with nodeq := q, seen := insert n.node s.seen } := by
  obtain ⟨hord, hmin⟩ := h.ordered.poll compareTo_agrees (h.inRange hr) hpoll
  have hperm := Heap.poll_perm hpoll
  have hn : n ∈ s.nodeq := hperm.mem_iff.mpr (mem_cons_self ..)
  have hsub : ∀ m ∈ q, m ∈ s.nodeq := fun m hm => hperm.mem_iff.mpr (mem_cons_of_mem _ hm)
  obtain ⟨-, hseen, hn_cost, hn_lt⟩ := hr.waiting n hn
  refine ⟨⟨hord, h.root_zero, h.nonneg, h.unlinked, ?_, ?_, ?_, ?_, ?_, h.reached⟩, hn_cost,
    mem_insert_self _ _, ?_, ?_⟩
  · intro v l hl
    obtain ⟨hmem, hsrc, hdst, hx⟩ := h.linked v l hl
    exact ⟨hmem, hsrc, mem_insert_of_mem hdst, hx⟩
  · rintro l hl ⟨hdst, hnew⟩
    refine h.relaxed l hl ?_
    rcases mem_insert.mp hdst with heq | hdst
    · exact absurd (hnew heq) (not_mem_nil)
    · exact hdst
  · intro u hu x hx m hm
    rcases mem_insert.mp hu with rfl | hu
    · rw [hn_cost] at hx
      cases hx
      exact hmin m (hsub m hm)
    · exact h.seen_le u hu x hx m (hsub m hm)
  · intro u hu x hx
    rcases mem_insert.mp hu with rfl | hu
    · rw [hn_cost] at hx
      cases hx
      exact hn_lt
    · exact h.seen_lt u hu x hx
  · intro v x hx hlt hv
    rw [mem_insert, not_or] at hv
    have hmem := hperm.mem_iff.mp (h.queued v x hx hlt hv.2)
    rcases mem_cons.mp hmem with heq | hmem
    · exact absurd (congrArg NodeDist.node heq) hv.1
    · exact hmem
  · intro u hu x hx
    rcases mem_insert.mp hu with rfl | hu
    · rw [hn_cost] at hx
      cases hx
      exact le_refl _
    · exact h.seen_le u hu x hx n hn
  · -- the node at the top is no farther than any path to it costs
    rintro x ⟨es, hes, rfl⟩
    rcases h.le_pathCost hcost hes with ⟨hmem, -⟩ | ⟨m, hm, hle⟩ | hle
    · exact absurd hmem hseen
    · exact (hmin m hm).trans hle
    · exact le_of_lt (lt_of_lt_of_le hn_lt hle)

theorem Relaxing.toInt32_eq (h : Relaxing c linkCost root cnode cdist done s)
    (hcost : c.Fits linkCost root) (hl : l ∈ c.all) (hdst : l.dst = cnode) :
    toInt32 (cdist + linkWeight linkCost l) = cdist + linkWeight linkCost l := by
  have hc₀ : 0 ≤ cdist := h.exact.nonneg _ _ h.cost
  have hw : 0 < linkWeight linkCost l := hcost.pos l hl
  have hpath := h.exact.reached cnode cdist h.cost (h.exact.seen_lt cnode h.seen cdist h.cost)
  obtain ⟨y, hy, hlt⟩ := hcost.nowrap l hl cdist (hdst ▸ hpath)
  have hle := h.least y (hdst ▸ hy)
  exact toInt32_of_lt (by omega) (by omega)

theorem mem_done_or_eq {P : Prop} {l' : Link} (h : P ∧ (l'.dst = cnode → l' ∈ done ++ [l])) :
    (P ∧ (l'.dst = cnode → l' ∈ done)) ∨ (l' = l ∧ l.dst = cnode) := by
  by_cases hdst : l'.dst = cnode
  · rcases List.mem_append.mp (h.2 hdst) with hmem | hmem
    · exact .inl ⟨h.1, fun _ => hmem⟩
    · have heq : l' = l := List.mem_singleton.mp hmem
      exact .inr ⟨heq, heq ▸ hdst⟩
  · exact .inl ⟨h.1, fun heq => absurd heq hdst⟩

theorem Relaxing.skip (h : Relaxing c linkCost root cnode cdist done s) {x : ℤ}
    (hx : s.cost l.src = some x) (hle : x ≤ cdist + linkWeight linkCost l) :
    Relaxing c linkCost root cnode cdist (done ++ [l]) s := by
  refine ⟨{ h.exact with relaxed := ?_ }, h.cost, h.seen, h.latest, h.least⟩
  intro l' hl' hrel y hy
  rcases mem_done_or_eq hrel with hold | ⟨rfl, hdst⟩
  · exact h.exact.relaxed l' hl' hold y hy
  · rw [hdst, h.cost] at hy
    cases hy
    exact ⟨x, hx, hle⟩

theorem cost_improve_of_seen {u v : SwitchId} {d : ℤ} (hv : v ∉ s.seen) (hu : u ∈ s.seen) :
    (s.improve v l d).cost u = s.cost u := by
  apply cost_improve_of_ne
  rintro rfl
  exact hv hu

section

variable (h : Relaxing c linkCost root cnode cdist done s)
include h

theorem Relaxing.improve_linked (hl : l ∈ c.all) (hdst : l.dst = cnode) (hsrc : l.src ∉ s.seen)
    (v : SwitchId) (l' : Link)
    (hl' : (s.improve l.src l (cdist + linkWeight linkCost l)).nexthoplinks v = some l') :
    l' ∈ c.all ∧ l'.src = v ∧ l'.dst ∈ s.seen ∧
      ∃ x, (s.improve l.src l (cdist + linkWeight linkCost l)).cost l'.dst = some x ∧
        (s.improve l.src l (cdist + linkWeight linkCost l)).cost v =
          some (x + linkWeight linkCost l') := by
  by_cases hvl : v = l.src
  · subst hvl
    rw [nexthoplinks_improve_self] at hl'
    cases hl'
    refine ⟨hl, rfl, hdst ▸ h.seen, cdist, ?_, cost_improve_self⟩
    rw [hdst, cost_improve_of_seen hsrc h.seen]
    exact h.cost
  · rw [nexthoplinks_improve_of_ne hvl] at hl'
    obtain ⟨hmem, hsrc', hdst', x, hx, hv⟩ := h.exact.linked v l' hl'
    refine ⟨hmem, hsrc', hdst', x, ?_, ?_⟩
    · rw [cost_improve_of_seen hsrc hdst', hx]
    · rw [cost_improve_of_ne hvl, hv]

theorem Relaxing.improve_relaxed (hdst : l.dst = cnode) (hsrc : l.src ∉ s.seen) {x : ℤ}
    (hx : s.cost l.src = some x) (hlt : cdist + linkWeight linkCost l < x) (l' : Link)
    (hl' : l' ∈ c.all) (hrel : l'.dst ∈ s.seen ∧ (l'.dst = cnode → l' ∈ done ++ [l])) (y : ℤ)
    (hy : (s.improve l.src l (cdist + linkWeight linkCost l)).cost l'.dst = some y) :
    ∃ z, (s.improve l.src l (cdist + linkWeight linkCost l)).cost l'.src = some z ∧
      z ≤ y + linkWeight linkCost l' := by
  rw [cost_improve_of_seen hsrc hrel.1] at hy
  rcases mem_done_or_eq hrel with hold | ⟨rfl, -⟩
  · obtain ⟨z, hz, hle⟩ := h.exact.relaxed l' hl' hold y hy
    by_cases hvl : l'.src = l.src
    · rw [hvl, hx] at hz
      cases hz
      exact ⟨_, by rw [hvl, cost_improve_self], by omega⟩
    · exact ⟨z, by rw [cost_improve_of_ne hvl, hz], hle⟩
  · rw [hdst, h.cost] at hy
    cases hy
    exact ⟨_, cost_improve_self, le_refl _⟩

theorem Relaxing.improve (hr : Running c s) (hcost : c.Fits linkCost root) (hl : l ∈ c.all)
    (hdst : l.dst = cnode) (hsrc : l.src ∉ s.seen) {x : ℤ} (hx : s.cost l.src = some x)
    (hxmax : x ≤ maxPathWeight) (hlt : cdist + linkWeight linkCost l < x) :
    Relaxing c linkCost root cnode cdist (done ++ [l])
      (s.improve l.src l (cdist + linkWeight linkCost l)) := by
  have hc₀ : 0 ≤ cdist := h.exact.nonneg _ _ h.cost
  have hw : 0 < linkWeight linkCost l := hcost.pos l hl
  have hmax : cdist + linkWeight linkCost l < maxPathWeight := lt_of_lt_of_le hlt hxmax
  have hroot : root ≠ l.src := by
    intro heq
    rw [← heq, h.exact.root_zero] at hx
    cases hx
    omega
  refine ⟨⟨?_, ?_, ?_, ?_, h.improve_linked hl hdst hsrc, h.improve_relaxed hdst hsrc hx hlt,
    ?_, ?_, ?_, ?_⟩, ?_, h.seen, ?_, h.least⟩
  · have hin := h.exact.inRange hr
    refine Heap.Ordered.add (h.exact.ordered.remove compareTo_agrees hin _) compareTo_agrees ?_ ?_
    · exact fun n hn => hin n ((remove_node s.nodeq l.src hr.nodup).2 n |>.mp hn).1
    · exact ⟨show 0 ≤ cdist + linkWeight linkCost l by omega, hmax⟩
  · rw [cost_improve_of_ne hroot]
    exact h.exact.root_zero
  · intro v y hy
    rcases eq_or_of_cost_improve hy with ⟨-, rfl⟩ | ⟨-, hy⟩
    · omega
    · exact h.exact.nonneg v y hy
  · intro v hv
    by_cases hvl : v = l.src
    · subst hvl
      rw [nexthoplinks_improve_self, cost_improve_self]
      simp [Ne.symm hroot, ne_of_lt hmax]
    · rw [nexthoplinks_improve_of_ne hvl, cost_improve_of_ne hvl]
      exact h.exact.unlinked v hv
  · intro u hu y hy n hn
    rw [cost_improve_of_seen hsrc hu] at hy
    rcases (mem_nodeq_improve hr.nodup n).mp hn with rfl | ⟨hn, -⟩
    · have hle := h.latest u hu y hy
      show y ≤ cdist + linkWeight linkCost l
      omega
    · exact h.exact.seen_le u hu y hy n hn
  · intro u hu y hy
    rw [cost_improve_of_seen hsrc hu] at hy
    exact h.exact.seen_lt u hu y hy
  · intro v y hy hylt hv
    rw [mem_nodeq_improve hr.nodup]
    rcases eq_or_of_cost_improve hy with ⟨rfl, rfl⟩ | ⟨hvl, hy⟩
    · exact .inl rfl
    · exact .inr ⟨h.exact.queued v y hy hylt hv, hvl⟩
  · -- a new label is the cost of a path over the link
    intro v y hy hylt
    rcases eq_or_of_cost_improve hy with ⟨rfl, rfl⟩ | ⟨-, hy⟩
    · have hpath := h.exact.reached cnode cdist h.cost
        (h.exact.seen_lt cnode h.seen cdist h.cost)
      exact ClusterLinks.PathCost.link hl (hdst ▸ hpath)
    · exact h.exact.reached v y hy hylt
  · rw [cost_improve_of_seen hsrc h.seen]
    exact h.cost
  · intro u hu y hy
    rw [cost_improve_of_seen hsrc hu] at hy
    exact h.latest u hu y hy

end

/-- **The loop body keeps the invariant.** -/
theorem Relaxing.relaxLink {s' : DijkstraState} (hc : c.WellFormed)
    (hcost : c.Fits linkCost root) (hr : Running c s) (hcnode : cnode ∈ c.nodes)
    (hl : l ∈ c.links cnode) (hs' : relaxLink linkCost true cnode cdist s l = some s')
    (h : Relaxing c linkCost root cnode cdist done s) :
    Relaxing c linkCost root cnode cdist (done ++ [l]) s' := by
  have hall : l ∈ c.all := ClusterLinks.mem_all.mpr ⟨cnode, hcnode, hl⟩
  have hw : 0 < linkWeight linkCost l := hcost.pos l hall
  -- a link whose source is not seen comes in at the switch
  have hdst : l.src ∉ s.seen → l.dst = cnode := by
    intro hseen
    rcases hc.incident cnode hcnode l hl with heq | heq
    · exact absurd (heq ▸ h.seen) hseen
    · exact heq.symm
  obtain ⟨x, hx, ⟨heq, hwhy⟩ | ⟨-, hseen, hlt, heq⟩⟩ :=
    relaxLink_cases linkCost true cdist hr hc hl hcnode l.src rfl
  · rw [heq] at hs'
    cases hs'
    refine h.skip hx ?_
    by_cases hseen : l.src ∈ s.seen
    · have hle := h.latest _ hseen x hx
      omega
    · rcases hwhy with hself | hseen' | hle
      · exact absurd (hself ▸ h.seen) hseen
      · exact absurd hseen' hseen
      · rwa [h.toInt32_eq hcost hall (hdst hseen)] at hle
  · rw [heq] at hs'
    cases hs'
    obtain ⟨y, hy, hmax⟩ := hr.known l.src (hc.ends cnode hcnode l hl).1
    rw [hx] at hy
    cases hy
    rw [h.toInt32_eq hcost hall (hdst hseen)] at hlt ⊢
    exact h.improve hr hcost hall (hdst hseen) hseen hx hmax hlt

end Exact

/-! ### The result -/

section Result

variable {c : ClusterLinks} {linkCost : Link → Option ℤ} {root : SwitchId}

/-- The costs of a tree as labels: `MAX_PATH_WEIGHT` means that there is
none. -/
def BroadcastTree.label (t : BroadcastTree) (v : SwitchId) : Option ℤ :=
  (t.costs v).filter fun x => x < maxPathWeight

theorem BroadcastTree.label_eq_some {t : BroadcastTree} {v : SwitchId} {x : ℤ} :
    t.label v = some x ↔ t.costs v = some x ∧ x < maxPathWeight := by
  simp [label, filter_eq_some_iff]

section Empty

variable {s : DijkstraState}

section

variable (h : Exact c linkCost root (fun l => l.dst ∈ s.seen) s)
include h

theorem Exact.seen_of_lt (hempty : s.nodeq = []) {v : SwitchId} {x : ℤ} (hx : s.cost v = some x)
    (hlt : x < maxPathWeight) : v ∈ s.seen := by
  by_contra hv
  have hmem := h.queued v x hx hlt hv
  rw [hempty] at hmem
  exact absurd hmem not_mem_nil

/-- The source of a link is within the bound if its destination is. -/
theorem Exact.relaxed_lt (hcost : c.Fits linkCost root) (hempty : s.nodeq = []) {l : Link}
    (hl : l ∈ c.all) {x : ℤ} (hx : s.cost l.dst = some x) (hlt : x < maxPathWeight) :
    ∃ y, s.cost l.src = some y ∧ y < maxPathWeight ∧ y ≤ x + linkWeight linkCost l := by
  obtain ⟨y, hy, hle⟩ := h.relaxed l hl (h.seen_of_lt hempty hx hlt) x hx
  refine ⟨y, hy, ?_, hle⟩
  -- nothing waits, so the cheap path from the source has been found
  obtain ⟨z, ⟨es, hes, rfl⟩, hz⟩ := hcost.near _ _ (.link hl (h.reached _ x hx hlt))
  rcases h.le_pathCost hcost hes with ⟨hseen, -⟩ | ⟨n, hn, -⟩ | hge
  · exact h.seen_lt _ hseen y hy
  · rw [hempty] at hn
    exact absurd hn not_mem_nil
  · exact absurd hz (not_lt.mpr hge)

theorem Exact.exists_nexthoplink (hr : Running c s) (hempty : s.nodeq = []) {v : SwitchId} {y : ℤ}
    (hv : v ≠ root) (hy : s.cost v = some y) (hlt : y < maxPathWeight) :
    ∃ l ∈ c.all, s.nexthoplinks v = some l ∧ l.src = v ∧ ∃ x, 0 ≤ x ∧
      s.cost l.dst = some x ∧ x < maxPathWeight ∧ y = x + linkWeight linkCost l := by
  have hnode : v ∈ c.nodes := hr.seen_sub v (h.seen_of_lt hempty hy hlt)
  have hsome : s.nexthoplinks v ≠ none := by
    rw [Ne, h.unlinked v hnode, not_or, hy]
    exact ⟨hv, fun heq => absurd (some.inj heq) (ne_of_lt hlt)⟩
  obtain ⟨l, hl⟩ := ne_none_iff_exists'.mp hsome
  obtain ⟨hmem, hsrc, hdst, x, hx, hvx⟩ := h.linked v l hl
  rw [hy] at hvx
  exact ⟨l, hmem, hl, hsrc, x, h.nonneg _ _ hx, hx, h.seen_lt _ hdst x hx,
    some.inj hvx⟩

theorem Exact.nexthoplinks_eq_none_iff (hc : c.WellFormed) (hr : Running c s)
    (hempty : s.nodeq = []) (v : SwitchId) :
    s.nexthoplinks v = none ↔ v = root ∨ ∀ x, s.cost v = some x → ¬ x < maxPathWeight := by
  by_cases hnode : v ∈ c.nodes
  · obtain ⟨x, hx, hle⟩ := hr.known v hnode
    rw [h.unlinked v hnode, hx]
    refine or_congr_right ⟨fun heq y hy => ?_, fun hnone => ?_⟩
    · cases heq
      cases hy
      exact lt_irrefl _
    · exact congrArg some (le_antisymm hle (not_lt.mp (hnone x rfl)))
  · refine iff_of_true ?_ (.inr fun x hx hlt => ?_)
    · refine eq_none_iff_forall_ne_some.mpr fun l hl => hnode ?_
      obtain ⟨hmem, rfl, -⟩ := h.linked v l hl
      obtain ⟨u, hu, hlu⟩ := ClusterLinks.mem_all.mp hmem
      exact (hc.ends u hu l hlu).1
    · exact hnode (hr.seen_sub v (h.seen_of_lt hempty hx hlt))

end

/-- What the invariant says when no switch waits. -/
theorem Exact.labelling (hc : c.WellFormed) (hcost : c.Fits linkCost root)
    (h : Exact c linkCost root (fun l => l.dst ∈ s.seen) s) (hr : Running c s)
    (hempty : s.nodeq = []) :
    Labelling Link.src Link.dst {l | l ∈ c.all} (linkWeight linkCost) root
      (BroadcastTree.mk s.nexthoplinks s.cost).label s.nexthoplinks := by
  have hlabel : ∀ v x, (BroadcastTree.mk s.nexthoplinks s.cost).label v = some x ↔
      s.cost v = some x ∧ x < maxPathWeight := fun _ _ => BroadcastTree.label_eq_some
  refine ⟨(hlabel _ _).mpr ⟨h.root_zero, by decide⟩, fun l hl x hx => ?_, fun v y hv hy => ?_,
    fun v => ?_⟩
  · obtain ⟨hx, hlt⟩ := (hlabel _ _).mp hx
    obtain ⟨y, hy, hylt, hle⟩ := h.relaxed_lt hcost hempty hl hx hlt
    exact ⟨y, (hlabel _ _).mpr ⟨hy, hylt⟩, hle⟩
  · obtain ⟨hy, hlt⟩ := (hlabel _ _).mp hy
    obtain ⟨l, hl, hnext, hsrc, x, hzero, hx, hxlt, hyx⟩ :=
      h.exists_nexthoplink hr hempty hv hy hlt
    exact ⟨l, hl, hnext, hsrc, x, hzero, (hlabel _ _).mpr ⟨hx, hxlt⟩, hyx⟩
  · rw [h.nexthoplinks_eq_none_iff hc hr hempty, eq_none_iff_forall_ne_some]
    exact or_congr_right (forall_congr' fun x => by rw [Ne, hlabel, not_and])

end Empty

/-- **Dijkstra's algorithm.**  For link costs that fit the search ends, and its
costs and next-hop links are those of the shortest paths to the root. -/
theorem dijkstra_labelling (hc : c.WellFormed) (hcost : c.Fits linkCost root)
    (hroot : root ∈ c.nodes) :
    ∃ t, dijkstra c root linkCost true = some t ∧
      (∀ v ∈ c.nodes, t.costs v = some ((t.label v).getD maxPathWeight)) ∧
      Labelling Link.src Link.dst {l | l ∈ c.all} (linkWeight linkCost) root t.label t.links := by
  obtain ⟨s, hs, hr, hI, hempty⟩ := dijkstraLoop_rule linkCost true hc
    (fun s => Exact c linkCost root (fun l => l.dst ∈ s.seen) s)
    (Relaxing c linkCost root)
    (fun s n q hr h hpoll => h.settle hcost hr hpoll)
    (fun s s' cnode cdist done l hr hcnode hl hs' h => h.relaxLink hc hcost hr hcnode hl hs')
    (fun s cnode cdist h => { h.exact with
      relaxed := fun l hl hdst => h.exact.relaxed l hl ⟨hdst, fun heq => by
        obtain ⟨u, hu, hlu⟩ := ClusterLinks.mem_all.mp hl
        exact heq ▸ (hc.listed u hu l hlu).2⟩ })
    c.nodes.length (running_init hroot) (exact_init c linkCost root) (Nat.le_add_right _ _)
  refine ⟨⟨s.nexthoplinks, s.cost⟩, by simp [dijkstra, hs], ?_, hI.labelling hc hcost hr hempty⟩
  intro v hv
  obtain ⟨x, hx, hle⟩ := hr.known v hv
  unfold BroadcastTree.label
  rcases lt_or_eq_of_le hle with hlt | rfl
  · simp [hx, filter_some, hlt]
  · simp [hx, filter_some]

end Result

end NctuSdn
