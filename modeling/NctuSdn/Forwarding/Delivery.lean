/-
A flow that is forwarded arrives (`TopologyInstance.getRoute`, `Forwarding.doForwardFlow`).

The route of a computed instance goes through no switch twice, so that it is a `Route`.  The
entries that are installed for it hand the packet on, from link to link, whatever the wildcards.
-/
import Mathlib.Data.List.TakeWhile
import NctuSdn.Forwarding.PushRoute
import NctuSdn.Topology.Routing

namespace NctuSdn

open List

/-! ### The hops of a walk -/

/-- The hops from `a` over the links to `b`. -/
def hopsOver (b : NodePortTuple) : NodePortTuple → List Link → List Hop
  | a, [] => [⟨a.nodeId, a.portId, b.portId⟩]
  | a, l :: es => ⟨a.nodeId, a.portId, l.srcPort⟩ :: hopsOver b ⟨l.dst, l.dstPort⟩ es

variable {links : Set Link} {a b : NodePortTuple} {es : List Link}

theorem flatMap_hopsOver (h : IsWalk Link.src Link.dst links a.nodeId b.nodeId es) :
    ((hopsOver b a es).flatMap fun h => [⟨h.switchDPID, h.inPort⟩, ⟨h.switchDPID, h.outPort⟩]) =
      a :: es.flatMap Link.ends ++ [b] := by
  induction es generalizing a with
  | nil =>
    obtain ⟨sw, inPort⟩ := a
    obtain rfl : sw = b.nodeId := h
    rfl
  | cons l es ih =>
    obtain ⟨-, hsrc, hwalk⟩ := h
    simp [hopsOver, ih (a := ⟨l.dst, l.dstPort⟩) hwalk, Link.ends, hsrc]

theorem map_hopsOver (h : IsWalk Link.src Link.dst links a.nodeId b.nodeId es) :
    (hopsOver b a es).map Hop.switchDPID = es.map Link.src ++ [b.nodeId] := by
  induction es generalizing a with
  | nil => exact congrArg (fun v => [v]) h
  | cons l es ih =>
    obtain ⟨-, hsrc, hwalk⟩ := h
    simp [hopsOver, ih (a := ⟨l.dst, l.dstPort⟩) hwalk, hsrc]

/-! ### Delivery -/

/-- A packet with the header fields `m` that comes in at `a` is sent out of the port of `b`: the
switch has an entry, and all of its entries do this. -/
def SendsOn (entries : List (SwitchId × FlowMod)) (m : OFMatch) (a b : NodePortTuple) : Prop :=
  (∃ fm, (a.nodeId, fm) ∈ entries) ∧ ∀ fm, (a.nodeId, fm) ∈ entries →
    Matches fm.ofMatch (m.setInputPort a.portId) ∧ fm.outPort = some b.portId

/-- The packet gets from `a` to `b` over the links. -/
inductive Delivers (entries : List (SwitchId × FlowMod)) (m : OFMatch) (links : Set Link)
    (b : NodePortTuple) : NodePortTuple → Prop
  | last {a : NodePortTuple} (hab : a.nodeId = b.nodeId) (h : SendsOn entries m a b) :
      Delivers entries m links b a
  | hop {a : NodePortTuple} {l : Link} (hl : l ∈ links) (hsrc : l.src = a.nodeId)
      (h : SendsOn entries m a ⟨l.src, l.srcPort⟩)
      (hrest : Delivers entries m links b ⟨l.dst, l.dstPort⟩) : Delivers entries m links b a

variable {entries : List (SwitchId × FlowMod)} {m : OFMatch}

theorem delivers_of_hops (hwalk : IsWalk Link.src Link.dst links a.nodeId b.nodeId es)
    (h : ∀ h ∈ hopsOver b a es,
      SendsOn entries m ⟨h.switchDPID, h.inPort⟩ ⟨h.switchDPID, h.outPort⟩) :
    Delivers entries m links b a := by
  induction es generalizing a with
  | nil => exact .last hwalk (h _ mem_cons_self)
  | cons l es ih =>
    obtain ⟨hl, hsrc, hwalk⟩ := hwalk
    refine .hop hl hsrc (h _ mem_cons_self) ?_
    exact ih hwalk fun h' hh' => h h' (mem_cons_of_mem _ hh')

/-- Entries match the packet they were made for, whatever their wildcards. -/
theorem matches_flowModAt (q : PushRequest) (cookie : BitVec 64) (h : Hop) :
    Matches (flowModAt q cookie h).ofMatch (q.ofMatch.setInputPort h.inPort) := by
  unfold flowModAt
  rw [wildcard_eq]
  constructor
  all_goals first | exact fun _ => rfl | exact Eq.refl _

theorem sendsOn_entryAt (q : PushRequest) (route : Route) {hops : List Hop}
    (hhops : hops.Perm route.hops) {h : Hop} (hh : h ∈ route.hops) :
    SendsOn (hops.map (entryAt q)) q.ofMatch ⟨h.switchDPID, h.inPort⟩
      ⟨h.switchDPID, h.outPort⟩ := by
  refine ⟨⟨_, mem_map_of_mem (hhops.mem_iff.mpr hh)⟩, fun fm hfm => ?_⟩
  obtain ⟨h', hh', heq⟩ := mem_map.mp hfm
  obtain ⟨hsw, rfl⟩ := Prod.mk.inj heq
  -- no switch has two entries
  obtain rfl := inj_on_of_nodup_map route.nodup (hhops.mem_iff.mp hh') hh hsw
  exact ⟨matches_flowModAt q _ h', rfl⟩

section

variable {ord : HashOrders} {t : TopologyInstance} {traffic : Link → Option LinkInfo} {p : Fin 3}
  {i : ComputedInstance} {c : Cluster} (hi : compute ord t traffic p = some i)
  (hc : c ∈ i.domains.clusters) (hcost : (i.links c).Affordable i.linkCost)
  (hsrc : a.nodeId ∈ c.nodes) (hdst : b.nodeId ∈ c.nodes) (hne : a ≠ b)
  (hpath : ∃ es, (i.links c).IsPath a.nodeId b.nodeId es)
include hi hc hcost hsrc hdst hne hpath

theorem exists_route : ∃ es, (i.links c).IsPath a.nodeId b.nodeId es ∧
    ((hopsOver b a es).map Hop.switchDPID).Nodup ∧
    i.getRoute a.nodeId a.portId b.nodeId b.portId =
      some (some (a :: es.flatMap Link.ends ++ [b])) := by
  by_cases hsame : a.nodeId = b.nodeId
  · obtain ⟨sw, inPort⟩ := a
    obtain rfl : sw = b.nodeId := hsame
    have hports : inPort ≠ b.portId := by
      rintro rfl
      exact hne rfl
    refine ⟨[], rfl, nodup_singleton _, ?_⟩
    simp [ComputedInstance.getRoute, ComputedInstance.getSwitchRoute, hports]
  · obtain ⟨hvalid, -, -⟩ := compute_valid hi
    have hwf : (i.links c).WellFormed := clusterLinks_wellFormed hvalid.disjoint hvalid.links c
    obtain ⟨tree, htree, -, h⟩ :=
      dijkstra_labelling hwf (hcost.fits _) (mem_clusterLinks_nodes.mpr hdst)
    obtain ⟨x, hx⟩ := Option.ne_none_iff_exists'.mp ((h.exists_walk_iff hcost.pos).mp hpath)
    obtain ⟨es, hwalk, hnodup, -, hroute⟩ := exists_walk_getRoute hvalid.disjoint hwf hc hdst hsrc
      hsame hcost h hx ((hvalid.trees c hc _ hdst).trans htree) a.portId b.portId
    exact ⟨es, hwalk, map_hopsOver hwalk ▸ hnodup, hroute⟩

/-- **A flow that is forwarded arrives.**  In a cluster of a computed instance whose link costs add
up to less than `MAX_PATH_WEIGHT`, there is a route wherever there is a path.  The entries that are
installed for it carry the packet over links of the cluster from the source to the destination, if
all switches are connected.  This is so for every routing decision, for every manager whose
priorities are in bounds and for every packet that has a priority. -/
theorem forwarding_delivers : ∃ route : Route,
    i.getRoute a.nodeId a.portId b.nodeId b.portId = some (some route.path) ∧
    ∀ {L T : Type} (engine : InstanceEngine L T) (connected : SwitchId → Bool)
      (tm : TopologyManager L T) (sw : SwitchId) (m : OFMatch)
      (decision : Option (Option (BitVec 32))) (eth : Ethernet) (priority : ℤ),
      Bounded tm → ethernetToPriority tm eth = .ok priority →
      (∀ h ∈ route.hops, connected h.switchDPID = true) →
      Delivers (installs (doForwardFlow engine connected tm sw m decision eth route).1.written) m
        {l | l ∈ (i.links c).all} b a := by
  obtain ⟨es, hwalk, hnodup, hroute⟩ := exists_route hi hc hcost hsrc hdst hne hpath
  refine ⟨⟨hopsOver b a es, hnodup⟩, ?_, ?_⟩
  · rw [hroute]
    exact congrArg (fun path => some (some path)) (flatMap_hopsOver hwalk).symm
  · intro L T engine connected tm sw m decision eth priority hbounded hpriority hconnected
    obtain ⟨st, -, hrun, -, -, hinstalls⟩ := doForwardFlow_spec engine connected hbounded sw m
      decision hpriority ⟨hopsOver b a es, hnodup⟩
    rw [hrun, hinstalls]
    refine delivers_of_hops hwalk fun h hh => sendsOn_entryAt (requestOf sw m decision priority)
      ⟨_, hnodup⟩ ?_ hh
    unfold installedHops reached
    rw [takeWhile_eq_self_iff.mpr fun h hh => hconnected h (mem_reverse.mp hh)]
    exact reverse_perm _

end

/-- From a port of the first of two switches to one of the second. -/
theorem forwarding_delivers_pair : ∃ i, compute anyOrders pairInstance (fun _ => none) 0 = some i ∧
    ∃ route : Route, i.getRoute 1 5 2 6 = some (some route.path) ∧
      Delivers (installs (doForwardFlow twoSwitches (fun _ => true) (startUp twoSwitches ()) 1
        bareMatch none bareEthernet route).1.written) bareMatch
        {l | l ∈ (i.links ⟨{1, 2}⟩).all} ⟨2, 6⟩ ⟨1, 5⟩ := by
  obtain ⟨i, hi, hc, hlinks⟩ := exists_pairInstance_computed (fun _ => none) 0
  have hweight : ∀ l ∈ (i.links ⟨{1, 2}⟩).all, linkWeight i.linkCost l = baseLinkCost := by
    intro l hl
    unfold linkWeight
    rw [(compute_valid hi).1.costs _ hc l hl]
    rfl
  have hcost : (i.links ⟨{1, 2}⟩).Affordable i.linkCost := by
    refine ⟨fun l hl => ?_, ?_⟩
    · rw [hweight l hl]
      decide
    · rw [Finset.sum_congr rfl hweight, hlinks]
      decide
  have hpath : (i.links ⟨{1, 2}⟩).IsPath 1 2 [⟨1, 1, 2, 1⟩] :=
    ⟨show _ ∈ (i.links ⟨{1, 2}⟩).all from hlinks ▸ by decide, rfl, rfl⟩
  have hreach : ManagerReaches twoSwitches (startUp twoSwitches ()) := ⟨(), .refl⟩
  obtain ⟨route, hroute, hdelivers⟩ := forwarding_delivers (a := ⟨1, 5⟩) (b := ⟨2, 6⟩) hi hc hcost
    (by decide) (by decide) (by decide) ⟨_, hpath⟩
  exact ⟨i, hi, route, hroute, hdelivers twoSwitches (fun _ => true) _ 1 bareMatch none
    bareEthernet 0 hreach.bounded rfl fun _ _ => rfl⟩

end NctuSdn
