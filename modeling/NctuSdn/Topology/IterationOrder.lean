/-
The clusters and the order in which the sets are iterated.

The switches, the ports of a switch and the links of a port are hash sets, so
the order in which the search meets them is not determined by the network.
`Reordering` relates the instances that differ in it only.

A trap is always sprung by one of the orders (`exists_order_separating`): let
the search start where the path of the trap starts and follow the path first.
When it has arrived at the end `p`, exactly the path is visited; the earlier
links of `p` are followed, and then `v` is visited and made a cluster without
`p` (`Trap.separates`).  Together with `clustersAreComponents` this determines
the networks whose clusters are right in every order
(`clusters_exact_in_every_order_iff`).
-/
import Mathlib.Data.List.TakeWhile
import NctuSdn.Topology.Components

namespace NctuSdn

open List Option Function

open Relation Domains

/-! ### Inside a trap -/

/-- `v` has a cluster, and `p` is not in it. -/
def Separated (v p : SwitchId) (d : Domains) : Prop :=
  ∃ c, d.switchClusterMap v = some c ∧ p ∉ c.nodes

section Separated

variable {t : TopologyInstance} {v p a b : SwitchId} {rest D R : List SwitchId}
  {d₀ : Domains} {n₀ k fuel : ℕ} {w w' : Traversal}

theorem Separated.of_eq {d d' : Domains} (h : Separated v p d)
    (heq : d'.switchClusterMap v = d.switchClusterMap v) : Separated v p d' := by
  obtain ⟨c, hc, hp⟩ := h
  exact ⟨c, heq.trans hc, hp⟩

theorem Separated.linkStep {u : SwitchId} (hloop : Looping t k a D d₀ n₀ w)
    (hstep : LinkStep t fuel a n₀ w u w') (h : Separated v p w.domains) :
    Separated v p w'.domains := by
  have hv : w.domains.Visited v := by
    by_contra hv
    obtain ⟨c, hc, -⟩ := h
    rw [(hloop.explored.fresh v hv).2] at hc
    exact absurd hc (by simp)
  exact h.of_eq (hstep.switchClusterMap_eq hv)

theorem Separated.finishVisit (hloop : Looping t k a D d₀ n₀ w)
    (h : Separated v p w.domains) : Separated v p (finishVisit a ∅ w).domains := by
  apply h.of_eq
  unfold NctuSdn.finishVisit
  split
  · apply switchClusterMap_formCluster_of_notMem
    intro hmem
    obtain ⟨c, hc, -⟩ := h
    rw [((hloop.mem_collected v).mp hmem).2] at hc
    exact absurd hc (by simp)
  · rfl

/-- The end `p` of the path is reached with exactly the path visited. -/
structure Arrived (t : TopologyInstance) (rest : List SwitchId) (d₀ : Domains) (n₀ : ℕ) :
    Prop where
  ready : Ready t d₀ n₀
  visited : ∀ x, d₀.Visited x ↔ x ∈ rest

namespace Trap

theorem discovered_subset (h₀ : Arrived t rest d₀ n₀) {d : Domains} :
    discovered d₀ d \ {p} ⊆ OffPath (p :: rest) := by
  intro x hx hmem
  rcases mem_cons.mp hmem with rfl | hmem
  · exact hx.2 rfl
  · exact hx.1.2 ((h₀.visited x).mpr hmem)

section

variable (htrap : Trap t p rest v D R)
include htrap

theorem notMem_earlier : v ∉ D := fun hv =>
  htrap.apart v hv htrap.off ReachIn.refl

theorem ne : v ≠ p := by
  rintro rfl
  exact htrap.off (mem_cons_self ..)

theorem linked (ht : t.Regular) : t.Linked p v :=
  ht.linked_of_mem (by simp [htrap.order]) htrap.ne

theorem mem_switches (ht : t.Regular) (ha : a ∈ p :: rest) :
    a ∈ t.switches := by
  rcases (reaches_head htrap.path ha).cases_head with rfl | ⟨c, hac, -⟩
  · exact (ht.linked_mem (htrap.linked ht)).1
  · exact (ht.linked_mem hac).1

theorem not_visited (h₀ : Arrived t rest d₀ n₀) (hloop : Looping t k p D d₀ n₀ w) :
    ¬ w.domains.Visited v := by
  intro hv
  have hv₀ : ¬ d₀.Visited v := fun hv₀ =>
    htrap.off (mem_cons_of_mem p ((h₀.visited v).mp hv₀))
  obtain ⟨u, huD, hu, huv⟩ := hloop.explored.origin v ⟨hv, hv₀⟩ htrap.ne
  have hsub := discovered_subset (p := p) (d := w.domains) h₀
  exact htrap.apart u huD (hsub hu) (huv.mono hsub)

end

theorem visited_of_reachIn (h₀ : Arrived t rest d₀ n₀) (hloop : Looping t k p D d₀ n₀ w)
    {u x : SwitchId} (hu : u ∈ D) (huoff : u ∈ OffPath (p :: rest))
    (hux : ReachIn t.Linked (OffPath (p :: rest)) u x) : w.domains.Visited x := by
  have hup : u ≠ p := by
    rintro rfl
    exact huoff (mem_cons_self ..)
  have huvis : w.domains.Visited u :=
    hloop.explored.closed p hloop.explored.start u (hloop.explored.looked u hu hup) fun _ => hu
  have hx : x ∈ {x | w.domains.Visited x ∧ x ∈ OffPath (p :: rest)} := by
    refine hux.mem_of_closed ?_ ⟨huvis, huoff⟩
    intro y hy z hz hyz
    have hy₀ : ¬ d₀.Visited y := fun hy₀ =>
      hy.2 (mem_cons_of_mem p ((h₀.visited y).mp hy₀))
    refine ⟨hloop.explored.closed y ⟨hy.1, hy₀⟩ z hyz ?_, hz⟩
    rintro rfl
    exact absurd (mem_cons_self ..) hy.2
  exact hx.1

section

variable (htrap : Trap t p rest v D R) (h₀ : Arrived t rest d₀ n₀) (hloop : Looping t k p D d₀ n₀ w)
include htrap h₀ hloop

/-- No link leads from what the visit of `v` discovers back to the path, so
its lowpoint stays above the index of `p`. -/
theorem lt_low {r : VisitResult} (hvisits : Visits t n₀ v w.domains w.currIndex r) :
    n₀ < r.domains.low v := by
  by_contra hle
  have hlt := hloop.explored.lt
  have hmax : r.domains.low v < longMax := by
    have := (hloop.explored.ready h₀.ready).budget
    omega
  obtain ⟨x, hx, y, hxy, hy, hidx, -⟩ := hvisits.explored.low_attained hmax
  have hyw : w.domains.Visited y := by
    by_contra hyw
    have := hvisits.explored.index_ge ⟨hy, hyw⟩
    omega
  have hypath : y ∈ p :: rest := by
    by_contra hyoff
    rw [mem_cons, not_or] at hyoff
    have hy₀ : ¬ d₀.Visited y := fun hy₀ => hyoff.2 ((h₀.visited y).mp hy₀)
    have := hloop.explored.index_gt y ⟨hyw, hy₀⟩ hyoff.1
    have := hvisits.explored.index_eq hyw
    omega
  have hsub : discovered w.domains r.domains ⊆ OffPath (p :: rest) := by
    intro z hz hmem
    rcases mem_cons.mp hmem with rfl | hmem
    · exact hz.2 hloop.explored.start.1
    · exact hz.2 (hloop.explored.visited ((h₀.visited z).mpr hmem))
  obtain ⟨u, hu, huoff, hux⟩ :=
    htrap.covered x ((hvisits.explored.reachIn hx).mono hsub) y hypath hxy
  exact hx.2 (visited_of_reachIn h₀ hloop hu huoff hux)

/-- When it is the turn of `v`, it is visited and separated from `p`. -/
theorem separated_linkStep (hstep : LinkStep t fuel p n₀ w v w') :
    Separated v p w'.domains := by
  obtain ⟨r, -, hvisits, rfl⟩ := hstep.descends hloop htrap.ne (htrap.not_visited h₀ hloop)
  have hstart := hvisits.explored.start
  obtain ⟨c, hc⟩ := ne_none_iff_exists'.mp
    (hvisits.clustered (htrap.lt_low h₀ hloop hvisits) v hstart)
  refine ⟨c, by rw [switchClusterMap_lower, hc], fun hp => ?_⟩
  exact ((hvisits.explored.members v hstart c hc).2 p hp).2 hloop.explored.start.1

end

/-- **The visit of the end of the path separates `v` from it.** -/
theorem separates (htrap : Trap t p rest v D R) (ht : t.Regular) (h₀ : Arrived t rest d₀ n₀)
    (hfuel : t.unvisited d₀ ≤ fuel) {r : VisitResult}
    (hr : dfsTraverse t fuel k n₀ p d₀ ∅ = some r) : Separated v p r.domains := by
  obtain ⟨hprest, -⟩ := nodup_cons.mp htrap.nodup
  have hmem : p ∈ t.switches := htrap.mem_switches ht (mem_cons_self ..)
  have hp : ¬ d₀.Visited p := fun hp => hprest ((h₀.visited p).mp hp)
  cases fuel with
  | zero => exact absurd hr (by simp [dfsTraverse])
  | succ fuel =>
    obtain ⟨w, hw, hloop, hsep⟩ := dfsTraverse_rule ht (dfsTraverse_spec ht fuel) h₀.ready hmem
      hp hfuel (p := k) (fun D' w => v ∈ D' → Separated v p w.domains)
      (fun hv => absurd hv not_mem_nil)
      (fun D' u R' w w' horder hloop hsep hstep hv => by
        by_cases hvD' : v ∈ D'
        · exact (hsep hvD').linkStep hloop hstep
        · -- the first link to `v`: the ones before it are those of the trap
          rcases mem_append.mp hv with hv | hv
          · exact absurd hv hvD'
          obtain rfl := mem_singleton.mp hv
          have htake : ∀ D R : List SwitchId, v ∉ D →
              (D ++ v :: R).takeWhile (· ≠ v) = D := by
            intro D R hvD
            rw [takeWhile_append_of_pos]
            · simp
            · intro x hx
              simp only [decide_eq_true_eq]
              rintro rfl
              exact hvD hx
          have hD : D' = D := by
            rw [← htake D' R' hvD', ← horder, htrap.order, htake D R htrap.notMem_earlier]
          subst hD
          exact htrap.separated_linkStep h₀ hloop hstep)
    obtain rfl := some.inj (hw.symm.trans hr)
    exact (hsep (by simp [htrap.order])).finishVisit hloop

end Trap

/-! ### Following the path of a trap -/

/-- The search is led along a path (listed backwards): every switch meets the
next one first. -/
def Leading (t : TopologyInstance) (path : List SwitchId) : Prop :=
  path.IsChain fun b a => ∃ R, t.targets a = b :: R

theorem Arrived.enter (h₀ : Arrived t rest d₀ n₀) (ha : a ∉ rest) (hmem : a ∈ t.switches) :
    Arrived t (a :: rest) (d₀.enter a k n₀) (n₀ + 1) where
  ready := (Discovery.enter h₀.ready (fun h => ha ((h₀.visited a).mp h)) hmem).ready h₀.ready
  visited := by
    intro x
    rw [visited_enter, h₀.visited, mem_cons]

/-- **A search that is led along the path of a trap separates `v` from the end
of the path.**  The induction is on the part of the path after `a`. -/
theorem Trap.separates_along (htrap : Trap t p rest v D R) (ht : t.Regular)
    (hlead : Leading t (p :: rest)) (after : List SwitchId) :
    ∀ (a : SwitchId) (back : List SwitchId) (d₀ : Domains) (n₀ k fuel : ℕ) (r : VisitResult),
      (a :: after).reverse ++ back = p :: rest → Arrived t back d₀ n₀ →
      t.unvisited d₀ ≤ fuel → dfsTraverse t fuel k n₀ a d₀ ∅ = some r →
      Separated v p r.domains := by
  induction after with
  | nil =>
    intro a back d₀ n₀ k fuel r hpath h₀ hfuel hr
    rw [reverse_singleton, singleton_append, List.cons.injEq] at hpath
    obtain ⟨rfl, rfl⟩ := hpath
    exact htrap.separates ht h₀ hfuel hr
  | cons b after ih =>
    intro a back d₀ n₀ k fuel r hpath h₀ hfuel hr
    have hpath' : (b :: after).reverse ++ a :: back = p :: rest := by
      rw [← hpath]
      simp
    have hsplit : p :: rest = after.reverse ++ b :: a :: back := by
      rw [← hpath']
      simp
    have hnodup := htrap.nodup
    have hchain := htrap.path
    rw [hsplit] at hnodup hchain
    obtain ⟨R', hR'⟩ : ∃ R', t.targets a = b :: R' := by
      rw [hsplit] at hlead
      exact (isChain_append_cons_cons.mp hlead).2.1
    have hlink : t.Linked a b := (isChain_append_cons_cons.mp hchain).2.1
    obtain ⟨hbnot, hanodup⟩ := nodup_cons.mp (nodup_append.mp hnodup).2.1
    have hab : b ≠ a := by
      rintro rfl
      exact hbnot (mem_cons_self ..)
    have ha : a ∉ back := (nodup_cons.mp hanodup).1
    cases fuel with
    | zero => exact absurd hr (by simp [dfsTraverse])
    | succ fuel =>
      have hunv : ¬ d₀.Visited a := fun h => ha ((h₀.visited a).mp h)
      have hmem : a ∈ t.switches := (ht.linked_mem hlink).1
      have hentered := h₀.enter (k := k) ha hmem
      obtain ⟨w, hw, hloop, -, hsep⟩ := dfsTraverse_rule ht (dfsTraverse_spec ht fuel) h₀.ready
        hmem hunv hfuel (p := k)
        (fun D w => (D = [] → w = ⟨n₀ + 1, d₀.enter a k n₀, ∅⟩) ∧
          (D ≠ [] → Separated v p w.domains))
        ⟨fun _ => rfl, fun h => absurd rfl h⟩
        (fun D u R w w' horder hloop hI hstep => by
          refine ⟨fun h => absurd h (by simp), fun _ => ?_⟩
          by_cases hD : D = []
          · -- the first link leads on along the path
            subst hD
            obtain rfl : b = u := by
              rw [hR', nil_append, List.cons.injEq] at horder
              exact horder.1
            obtain rfl := hI.1 rfl
            obtain ⟨r, hr, -, rfl⟩ := hstep.descends hloop hab fun h =>
              hbnot ((hentered.visited b).mp h)
            have hdepth : t.unvisited (d₀.enter a k n₀) ≤ fuel := by
              have := Discovery.unvisited_enter k n₀ hunv hmem
              omega
            exact (ih b (a :: back) _ _ n₀ fuel r hpath' hentered hdepth hr).of_eq
              (by rw [switchClusterMap_lower])
          · exact (hI.2 hD).linkStep hloop hstep)
      obtain rfl := some.inj (hw.symm.trans hr)
      exact (hsep (by simp [hR'])).finishVisit hloop

/-- **The whole search, if it starts where the path starts.** -/
theorem Trap.not_clustersAreComponents (htrap : Trap t p rest v D R) (ht : t.Regular)
    (hlead : Leading t (p :: rest)) {first : SwitchId} {others : List SwitchId}
    (hswitches : t.switches = first :: others)
    (hfirst : (p :: rest).getLast? = some first) : ¬ ClustersAreComponents t := by
  obtain ⟨after, hafter⟩ : ∃ after, (first :: after).reverse = p :: rest := by
    obtain ⟨l, hl⟩ := List.getLast?_eq_some_iff.mp hfirst
    exact ⟨l.reverse, by rw [hl, reverse_cons, reverse_reverse]⟩
  have hlink : t.Linked p v := htrap.linked ht
  obtain ⟨d, hd, hidle, -, -, hsep⟩ := identifyOpenflowDomains_rule ht
    (fun done d => (done = [] → d = Domains.init) ∧ (done ≠ [] → Separated v p d))
    ⟨fun _ => rfl, fun h => absurd rfl h⟩
    (fun done sw d hvis hI => by
      refine ⟨fun h => absurd h (by simp), fun _ => hI.2 ?_⟩
      rintro rfl
      rw [hI.1 rfl] at hvis
      exact absurd hvis Bool.false_ne_true)
    (fun done sw rest' d r hsplit hsw hidle hI hr hvisits => by
      refine ⟨fun h => absurd h (by simp), fun _ => ?_⟩
      by_cases hdone : done = []
      · subst hdone
        obtain rfl : first = sw := by
          rw [hswitches, nil_append, List.cons.injEq] at hsplit
          exact hsplit.1
        obtain rfl := hI.1 rfl
        have harrived : Arrived t [] Domains.init 1 :=
          ⟨hidle.ready ht, fun x => ⟨fun h => absurd h Bool.false_ne_true, by simp⟩⟩
        exact htrap.separates_along ht hlead after first [] _ 1 0 _ r (by simpa using hafter)
          harrived countP_le_length hr
      · have hv : d.Visited v := by
          by_contra hv
          obtain ⟨c, hc, -⟩ := hI.2 hdone
          rw [(hidle.fresh v hv).2] at hc
          exact absurd hc (by simp)
        exact (hI.2 hdone).of_eq (hvisits.explored.kept v hv).2)
  rintro ⟨d', hd', hexact⟩
  obtain rfl := some.inj (hd.symm.trans hd')
  obtain ⟨c, hc, hp⟩ := hsep (by simp [hswitches])
  obtain ⟨c', hcv, hcp⟩ := (hexact v (ht.linked_mem hlink).2 p (ht.linked_mem hlink).1).mpr
    ⟨htrap.returns, .single hlink⟩
  obtain rfl := some.inj (hc.symm.trans hcv)
  exact hp (hidle.members p c hcp)

end Separated

/-! ### Reorderings -/

/-- `t'` is `t` with its sets iterated in another order. -/
structure Reordering (t t' : TopologyInstance) : Prop where
  switches : t'.switches.Perm t.switches
  switchPorts : ∀ sw, (t'.switchPorts sw).Perm (t.switchPorts sw)
  switchPortLinks : ∀ npt, (t'.switchPortLinks npt).Perm (t.switchPortLinks npt)
  blockedPorts : t'.blockedPorts = t.blockedPorts
  broadcastDomainPorts : t'.broadcastDomainPorts = t.broadcastDomainPorts

section Reordering

variable {t t' t'' : TopologyInstance} {a b p : SwitchId} {rest : List SwitchId}

theorem Reordering.trans (h : Reordering t t') (h' : Reordering t' t'') : Reordering t t'' where
  switches := h'.switches.trans h.switches
  switchPorts := fun sw => (h'.switchPorts sw).trans (h.switchPorts sw)
  switchPortLinks := fun npt => (h'.switchPortLinks npt).trans (h.switchPortLinks npt)
  blockedPorts := h'.blockedPorts.trans h.blockedPorts
  broadcastDomainPorts := h'.broadcastDomainPorts.trans h.broadcastDomainPorts

theorem Reordering.linked_eq (h : Reordering t t') : t'.Linked = t.Linked := by
  funext a b
  unfold TopologyInstance.Linked
  simp only [(h.switchPortLinks _).mem_iff]

theorem Reordering.regular (h : Reordering t t') (ht : t.Regular) : t'.Regular where
  endpoints := by
    simpa only [(h.switchPortLinks _).mem_iff, h.switches.mem_iff] using ht.endpoints
  incident := by simpa only [(h.switchPortLinks _).mem_iff] using ht.incident
  listed := by
    simpa only [(h.switchPortLinks _).mem_iff, (h.switchPorts _).mem_iff] using ht.listed
  noBlockedPorts := h.blockedPorts.trans ht.noBlockedPorts
  noBroadcastDomainPorts := h.broadcastDomainPorts.trans ht.noBroadcastDomainPorts
  few := h.switches.length_eq ▸ ht.few

/-- Start at `first`, and at every switch with the link that `next` names. -/
def TopologyInstance.leadBy (t : TopologyInstance) (first : SwitchId)
    (next : SwitchId → Option Link) : TopologyInstance where
  switches := first :: t.switches.erase first
  switchPorts := fun sw => (next sw).elim (t.switchPorts sw) fun l =>
    l.srcPort :: (t.switchPorts sw).erase l.srcPort
  switchPortLinks := fun npt => (next npt.nodeId).elim (t.switchPortLinks npt) fun l =>
    if npt.portId = l.srcPort then l :: (t.switchPortLinks npt).erase l
    else t.switchPortLinks npt
  blockedPorts := t.blockedPorts
  broadcastDomainPorts := t.broadcastDomainPorts

/-- `next` names links out of the switch it is asked for. -/
def Names (t : TopologyInstance) (next : SwitchId → Option Link) : Prop :=
  ∀ a l, next a = some l → l.src = a ∧ ∃ npt, l ∈ t.switchPortLinks npt

variable {next : SwitchId → Option Link}

theorem reordering_leadBy (ht : t.Regular) {first : SwitchId} (hfirst : first ∈ t.switches)
    (hnext : Names t next) :
    Reordering t (t.leadBy first next) where
  switches := (perm_cons_erase hfirst).symm
  switchPorts := by
    intro sw
    show List.Perm ((next sw).elim _ _) _
    cases hl : next sw with
    | none => exact .refl _
    | some l =>
      obtain ⟨rfl, npt, hmem⟩ := hnext sw l hl
      exact (perm_cons_erase (ht.listed npt l hmem).2).symm
  switchPortLinks := by
    intro npt
    show List.Perm ((next npt.nodeId).elim _ _) _
    cases hl : next npt.nodeId with
    | none => exact .refl _
    | some l =>
      obtain ⟨hsrc, npt', hmem⟩ := hnext npt.nodeId l hl
      show List.Perm (if npt.portId = l.srcPort then _ else _) _
      split
      case isTrue hport =>
        have hnpt : npt = ⟨l.src, l.srcPort⟩ := by
          rw [hsrc, ← hport]
        rw [hnpt]
        exact (perm_cons_erase (ht.listed npt' l hmem).1).symm
      case isFalse => exact .refl _
  blockedPorts := rfl
  broadcastDomainPorts := rfl

/-- A switch for which `next` names a link meets the other end of it first. -/
theorem targets_leadBy_some {first : SwitchId} {l : Link} (hl : next a = some l) :
    ∃ R, (t.leadBy first next).targets a = l.dst :: R := by
  have hports : (t.leadBy first next).switchPorts a =
      l.srcPort :: (t.switchPorts a).erase l.srcPort := by
    simp [TopologyInstance.leadBy, hl]
  have hlinks : (t.leadBy first next).switchPortLinks ⟨a, l.srcPort⟩ =
      l :: (t.switchPortLinks ⟨a, l.srcPort⟩).erase l := by
    simp [TopologyInstance.leadBy, hl]
  unfold TopologyInstance.targets TopologyInstance.linksAt
  rw [hports, flatMap_cons, hlinks, cons_append, map_cons]
  exact ⟨_, rfl⟩

theorem targets_leadBy_none {first : SwitchId} (hl : next a = none) :
    (t.leadBy first next).targets a = t.targets a := by
  simp [TopologyInstance.targets, TopologyInstance.linksAt, TopologyInstance.leadBy, hl]

theorem exists_names (hpath : (p :: rest).IsChain fun a b => t.Linked b a)
    (hnodup : (p :: rest).Nodup) :
    ∃ next, Names t next ∧ (∀ a, a ∉ rest → next a = none) ∧
      (p :: rest).IsChain fun b a => ∃ l, next a = some l ∧ l.dst = b := by
  induction rest generalizing p with
  | nil => exact ⟨fun _ => none, fun a l h => absurd h (by simp), fun _ _ => rfl, by simp⟩
  | cons q rest ih =>
    rw [isChain_cons_cons] at hpath
    obtain ⟨hp, hnodup'⟩ := nodup_cons.mp hnodup
    obtain ⟨next, hnames, hnone, hchain⟩ := ih hpath.2 hnodup'
    obtain ⟨npt, l, hl, hsrc, hdst⟩ := hpath.1
    have hqrest : q ∉ rest := (nodup_cons.mp hnodup').1
    refine ⟨update next q (some l), ?_, ?_, ?_⟩
    · intro a l' hl'
      by_cases haq : a = q
      · subst haq
        rw [update_self, some.injEq] at hl'
        exact ⟨hl' ▸ hsrc, npt, hl' ▸ hl⟩
      · rw [update_of_ne haq] at hl'
        exact hnames a l' hl'
    · intro a ha
      rw [mem_cons, not_or] at ha
      rw [update_of_ne ha.1]
      exact hnone a ha.2
    · rw [isChain_cons_cons]
      refine ⟨⟨l, update_self .., hdst⟩, hchain.imp ?_⟩
      rintro b a ⟨l', hl', hdst'⟩
      have haq : a ≠ q := by
        rintro rfl
        rw [hnone a hqrest] at hl'
        exact absurd hl' (by simp)
      exact ⟨l', by rw [update_of_ne haq, hl'], hdst'⟩

/-- **A trap is sprung by one of the orders.** -/
theorem exists_order_separating (ht : t.Regular) {v : SwitchId} {D R : List SwitchId}
    (htrap : Trap t p rest v D R) :
    ∃ t', Reordering t t' ∧ ¬ ClustersAreComponents t' := by
  obtain ⟨next, hnames, hnone, hchain⟩ := exists_names htrap.path htrap.nodup
  obtain ⟨hp, -⟩ := nodup_cons.mp htrap.nodup
  obtain ⟨first, hfirst⟩ : ∃ first, (p :: rest).getLast? = some first :=
    ⟨_, List.getLast?_eq_some_getLast (cons_ne_nil p rest)⟩
  have hmem : first ∈ t.switches :=
    htrap.mem_switches ht (mem_of_getLast? hfirst)
  have hreorder := reordering_leadBy ht hmem hnames
  have hlinked := hreorder.linked_eq
  refine ⟨_, hreorder, ?_⟩
  have htrap' : Trap (t.leadBy first next) p rest v D R := by
    refine ⟨htrap.nodup, ?_, ?_, htrap.off, ?_, ?_, ?_⟩
    · rw [hlinked]
      exact htrap.path
    · rw [targets_leadBy_none (hnone p hp)]
      exact htrap.order
    · rw [hlinked]
      exact htrap.returns
    · rw [hlinked]
      exact htrap.apart
    · rw [hlinked]
      exact htrap.covered
  refine htrap'.not_clustersAreComponents (hreorder.regular ht) ?_ rfl hfirst
  refine hchain.imp ?_
  rintro b a ⟨l, hl, rfl⟩
  exact targets_leadBy_some hl

/-- **The networks whose clusters are the strongly connected components in
whatever order the sets are iterated** are those in which no order has a
trap. -/
theorem clusters_exact_in_every_order_iff (ht : t.Regular) :
    (∀ t', Reordering t t' → ClustersAreComponents t') ↔ ∀ t', Reordering t t' → NoTrap t' := by
  constructor
  · intro hexact t' h p rest v D R htrap
    obtain ⟨t'', h', hwrong⟩ := exists_order_separating (h.regular ht) htrap
    exact hwrong (hexact t'' (h.trans h'))
  · intro hno t' h
    exact clustersAreComponents (h.regular ht) (hno t' h)

end Reordering

/-! ### Instances built from a list of links -/

namespace TopologyInstance

/-- The instance that `addPortToSwitch` and `addLinkToStructure` build from a
list of links. -/
def ofLinks (switches : List SwitchId) (links : List Link) : TopologyInstance where
  switches := switches
  switchPorts := fun sw =>
    ((links.flatMap fun l => [(⟨l.src, l.srcPort⟩ : NodePortTuple), ⟨l.dst, l.dstPort⟩]).filter
      fun npt => npt.nodeId = sw).map NodePortTuple.portId |>.dedup
  switchPortLinks := fun npt =>
    links.filter fun l => npt = ⟨l.src, l.srcPort⟩ ∨ npt = ⟨l.dst, l.dstPort⟩
  blockedPorts := []
  broadcastDomainPorts := []

variable {switches : List SwitchId} {links : List Link}

theorem regular_ofLinks (hends : ∀ l ∈ links, l.src ∈ switches ∧ l.dst ∈ switches)
    (hfew : switches.length < longMax) : (ofLinks switches links).Regular where
  endpoints := by
    intro npt l hl
    exact hends l (mem_filter.mp hl).1
  incident := by
    intro npt l hl
    exact of_decide_eq_true (mem_filter.mp hl).2
  listed := by
    intro npt l hl
    have hmem := (mem_filter.mp hl).1
    refine ⟨mem_filter.mpr ⟨hmem, by simp⟩, ?_⟩
    refine mem_dedup.mpr (mem_map.mpr
      ⟨⟨l.src, l.srcPort⟩, mem_filter.mpr ⟨?_, by simp⟩, rfl⟩)
    exact mem_flatMap.mpr ⟨l, hmem, by simp⟩
  noBlockedPorts := rfl
  noBroadcastDomainPorts := rfl
  few := hfew

theorem linked_ofLinks {a b : SwitchId} :
    (ofLinks switches links).Linked a b ↔ ∃ l ∈ links, l.src = a ∧ l.dst = b := by
  constructor
  · rintro ⟨npt, l, hl, h⟩
    exact ⟨l, (mem_filter.mp hl).1, h⟩
  · rintro ⟨l, hl, h⟩
    exact ⟨⟨l.src, l.srcPort⟩, l, mem_filter.mpr ⟨hl, by simp⟩, h⟩

end TopologyInstance

open TopologyInstance

def ring : TopologyInstance :=
  ofLinks [1, 2, 3] [⟨1, 1, 2, 1⟩, ⟨2, 1, 1, 1⟩, ⟨2, 2, 3, 1⟩, ⟨3, 1, 2, 2⟩, ⟨3, 2, 1, 2⟩,
    ⟨1, 2, 3, 2⟩]

theorem clusters_exact_in_every_order_ring :
    ring.Regular ∧ ∀ t', Reordering ring t' → ClustersAreComponents t' := by
  have hring : ring.Regular := regular_ofLinks (by decide) (by decide)
  refine ⟨hring, (clusters_exact_in_every_order_iff hring).mpr fun t' h => ?_⟩
  apply not_trap_of_twoWay (h.regular hring)
  intro a b hab
  rw [h.linked_eq, ring, linked_ofLinks] at hab ⊢
  obtain ⟨l, hl, rfl, rfl⟩ := hab
  revert l
  decide

/-- Switch 1 has links to 2 and 3, and 2 one back; 3 has a link to 2 only. -/
def detour : TopologyInstance :=
  ofLinks [1, 2, 3] [⟨1, 1, 2, 1⟩, ⟨2, 1, 1, 1⟩, ⟨1, 2, 3, 1⟩, ⟨3, 2, 2, 2⟩]

/-- Switch 3 becomes a cluster of its own: its only link leads to 2, which was
visited after 1, and 1 is its parent.  Yet 3 reaches 1 by way of 2. -/
theorem clusters_separate_detour :
    detour.Regular ∧ ∃ d, identifyOpenflowDomains detour = some d ∧
      ¬ d.SameCluster 1 3 ∧ Mutual detour.Linked 1 3 := by
  refine ⟨regular_ofLinks (by decide) (by decide), ?_⟩
  have h1 : (identifyOpenflowDomains detour).map (·.switchClusterMap 1) =
      some (some ⟨{1, 2}⟩) := by decide
  have h3 : (identifyOpenflowDomains detour).map (·.switchClusterMap 3) =
      some (some ⟨{3}⟩) := by decide
  obtain ⟨d, hd, hd1⟩ := map_eq_some_iff.mp h1
  obtain ⟨d', hd', hd3⟩ := map_eq_some_iff.mp h3
  obtain rfl := some.inj (hd.symm.trans hd')
  have hlink : ∀ a b, (∃ l ∈ [(⟨1, 1, 2, 1⟩ : Link), ⟨2, 1, 1, 1⟩, ⟨1, 2, 3, 1⟩, ⟨3, 2, 2, 2⟩],
      l.src = a ∧ l.dst = b) → detour.Linked a b := fun a b h => linked_ofLinks.mpr h
  refine ⟨d, hd, ?_, ?_, ?_⟩
  · rintro ⟨c, hc1, hc3⟩
    obtain rfl := some.inj (hd1.symm.trans hc1)
    exact absurd (some.inj (hd3.symm.trans hc3)) (by decide)
  · exact .single (hlink 1 3 (by decide))
  · exact .head (hlink 3 2 (by decide)) (.single (hlink 2 1 (by decide)))

end NctuSdn
