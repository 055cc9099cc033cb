/-
The clusters of any instance.

`Topology.Components` says when the clusters are the strongly connected
components.  What is shown here holds for every instance, whatever its links
are and in whatever order they are met: the clusters are disjoint sets of
switches, every switch is in one, and a cluster hangs together (all its
switches are reached, inside it, from the one the search entered it by).
-/
import NctuSdn.Topology.Exploration

namespace NctuSdn

open Finset Bool Option

/-! ### What is kept -/

/-- A link that the search follows from `a` to `b`. -/
def TopologyInstance.Step (t : TopologyInstance) (a b : SwitchId) : Prop :=
  ∃ l ∈ t.linksAt a, l.dst = b ∧ b ≠ a ∧ t.isBlockedLink l = false ∧
    t.isBroadcastDomainLink l = false

/-- The clusters are sets of switches of the instance that hang together, and
`switchClusterMap` says which one a switch is in. -/
structure Domains.Disjoint (t : TopologyInstance) (d : Domains) : Prop where
  mapped : ∀ x c, d.switchClusterMap x = some c → x ∈ c.nodes ∧ c ∈ d.clusters ∧ d.Visited x
  member : ∀ c ∈ d.clusters, ∀ x ∈ c.nodes, x ∈ t.switches ∧ d.switchClusterMap x = some c
  connected : ∀ c ∈ d.clusters, ∃ u ∈ c.nodes, ∀ x ∈ c.nodes,
    ReachIn t.Step {y | y ∈ c.nodes} u x

def Domains.Positive (d : Domains) : Prop := ∀ x, 0 < d.index x ∧ 0 < d.low x

/-- Switches that are collected for a cluster to be made. -/
def Domains.Pending (t : TopologyInstance) (d : Domains) (S : Finset SwitchId) : Prop :=
  ∀ x ∈ S, x ∈ t.switches ∧ d.Visited x ∧ d.switchClusterMap x = none

/-- The switches visited before keep their cluster and the index of their
parent. -/
def Domains.Frame (d d' : Domains) : Prop :=
  ∀ x, d.Visited x → d'.Visited x ∧ d'.switchClusterMap x = d.switchClusterMap x ∧
    (d'.dfsList x).parentDFSIndex = (d.dfsList x).parentDFSIndex

/-- What the loops of a visit to `u` keep; `d` are the records when it
began. -/
structure Collects (t : TopologyInstance) (u : SwitchId) (d : Domains) (w : Traversal) : Prop where
  disjoint : w.domains.Disjoint t
  positive : w.domains.Positive
  index_pos : 0 < w.currIndex
  pending : w.domains.Pending t w.nodesInMyCluster
  frame : d.Frame w.domains
  fresh : ∀ x ∈ w.nodesInMyCluster, ¬ d.Visited x
  complete : ∀ x, w.domains.Visited x → ¬ d.Visited x →
    w.domains.switchClusterMap x ≠ none ∨ x ∈ w.nodesInMyCluster
  reached : ∀ x ∈ w.nodesInMyCluster,
    ReachIn t.Step {y | y ∈ insert u w.nodesInMyCluster} u x

/-- What a visit to `u` keeps. -/
structure Collected (t : TopologyInstance) (u : SwitchId) (d : Domains) (r : VisitResult) :
    Prop where
  disjoint : r.domains.Disjoint t
  positive : r.domains.Positive
  index_pos : 0 < r.currIndex
  pending : r.domains.Pending t r.currSet
  frame : d.Frame r.domains
  fresh : ∀ x ∈ r.currSet, ¬ d.Visited x
  complete : ∀ x, r.domains.Visited x → ¬ d.Visited x →
    r.domains.switchClusterMap x ≠ none ∨ x ∈ r.currSet
  visited : r.domains.Visited u
  reached : ∀ x ∈ r.currSet, u ∈ r.currSet ∧ ReachIn t.Step {y | y ∈ r.currSet} u x

section Records

variable {t : TopologyInstance} {d d' : Domains} {S : Finset SwitchId} {u : SwitchId}

theorem Domains.Disjoint.congr (h : d.Disjoint t) (hmap : d'.switchClusterMap = d.switchClusterMap)
    (hclusters : d'.clusters = d.clusters) (hvis : ∀ x, d.Visited x → d'.Visited x) :
    d'.Disjoint t := by
  refine ⟨fun x c hc => ?_, fun c hc x hx => ?_, fun c hc => h.connected c (hclusters ▸ hc)⟩
  · rw [hmap] at hc
    obtain ⟨hmem, hcl, hv⟩ := h.mapped x c hc
    exact ⟨hmem, hclusters ▸ hcl, hvis x hv⟩
  · rw [hclusters] at hc
    rw [hmap]
    exact h.member c hc x hx

theorem Domains.Disjoint.enter (h : d.Disjoint t) (p n : ℕ) : (d.enter u p n).Disjoint t :=
  h.congr rfl rfl fun _ hx => Domains.visited_enter.mpr (.inr hx)

theorem Domains.clusters_lower (k : ℕ) : (d.lower u k).clusters = d.clusters := by
  unfold Domains.lower
  split <;> rfl

theorem Domains.Disjoint.lower (h : d.Disjoint t) (k : ℕ) : (d.lower u k).Disjoint t :=
  h.congr Domains.switchClusterMap_lower (Domains.clusters_lower k) fun _ hx =>
    Domains.visited_lower.mpr hx

theorem Domains.Disjoint.nonempty (h : d.Disjoint t) {c : Cluster} (hc : c ∈ d.clusters) :
    c.nodes.Nonempty := by
  obtain ⟨u, hu, -⟩ := h.connected c hc
  exact ⟨u, hu⟩

theorem Domains.Disjoint.formCluster (h : d.Disjoint t) (hS : d.Pending t S) (hu : u ∈ S)
    (hreach : ∀ x ∈ S, ReachIn t.Step {y | y ∈ S} u x) : (d.formCluster S).Disjoint t := by
  refine ⟨fun x c hc => ?_, fun c hc x hx => ?_, fun c hc => ?_⟩
  · by_cases hx : x ∈ S
    · rw [Domains.switchClusterMap_formCluster_of_mem hx] at hc
      cases hc
      exact ⟨hx, mem_insert_self _ _, (hS x hx).2.1⟩
    · rw [Domains.switchClusterMap_formCluster_of_notMem hx] at hc
      obtain ⟨hmem, hcl, hv⟩ := h.mapped x c hc
      exact ⟨hmem, mem_insert_of_mem hcl, hv⟩
  · rcases mem_insert.mp hc with rfl | hc
    · exact ⟨(hS x hx).1, Domains.switchClusterMap_formCluster_of_mem hx⟩
    · obtain ⟨hsw, hmap⟩ := h.member c hc x hx
      -- a switch with a cluster is not pending
      have hxS : x ∉ S := fun hxS => by
        rw [(hS x hxS).2.2] at hmap
        cases hmap
      exact ⟨hsw, by rw [Domains.switchClusterMap_formCluster_of_notMem hxS, hmap]⟩
  · rcases mem_insert.mp hc with rfl | hc
    · exact ⟨u, hu, hreach⟩
    · exact h.connected c hc

theorem Domains.Positive.enter (h : d.Positive) (p : ℕ) {n : ℕ} (hn : 0 < n) :
    (d.enter u p n).Positive := by
  intro x
  by_cases hx : x = u
  · subst hx
    unfold Domains.index Domains.low
    rw [Domains.dfsList_enter_self]
    exact ⟨hn, (h x).2⟩
  · unfold Domains.index Domains.low
    rw [Domains.dfsList_enter_of_ne hx]
    exact h x

theorem Domains.Positive.lower (h : d.Positive) {k : ℕ} (hk : 0 < k) : (d.lower u k).Positive := by
  intro x
  refine ⟨by rw [Domains.index_lower]; exact (h x).1, ?_⟩
  by_cases hx : x = u
  · subst hx
    rw [Domains.low_lower_self]
    exact lt_min hk (h x).2
  · unfold Domains.low
    rw [Domains.dfsList_lower_of_ne hx]
    exact (h x).2

theorem Domains.Frame.trans {d₁ d₂ d₃ : Domains} (h₁ : d₁.Frame d₂) (h₂ : d₂.Frame d₃) :
    d₁.Frame d₃ := by
  intro x hx
  obtain ⟨hv, hmap, hparent⟩ := h₁ x hx
  obtain ⟨hv', hmap', hparent'⟩ := h₂ x hv
  exact ⟨hv', hmap'.trans hmap, hparent'.trans hparent⟩

theorem Domains.frame_lower (k : ℕ) : d.Frame (d.lower u k) := by
  refine fun x hx => ⟨Domains.visited_lower.mpr hx, congrFun Domains.switchClusterMap_lower x, ?_⟩
  by_cases hxu : x = u
  · subst hxu
    rw [Domains.dfsList_lower_self]
  · rw [Domains.dfsList_lower_of_ne hxu]

theorem Domains.Pending.frame (h : d.Pending t S) (hf : d.Frame d') : d'.Pending t S := by
  intro x hx
  obtain ⟨hsw, hv, hnone⟩ := h x hx
  obtain ⟨hv', hmap, -⟩ := hf x hv
  exact ⟨hsw, hv', hmap.trans hnone⟩

theorem disjoint_init : Domains.init.Disjoint t where
  mapped := fun _ _ hc => by cases hc
  member := fun c hc => absurd hc (notMem_empty c)
  connected := fun c hc => absurd hc (notMem_empty c)

theorem positive_init : Domains.init.Positive := by
  have hmax : 0 < longMax := by decide
  exact fun x => ⟨hmax, hmax⟩

end Records

/-! ### Visits -/

section Visits

variable {t : TopologyInstance} {d : Domains} {u : SwitchId} {w : Traversal}

theorem collects_enter (hd : d.Disjoint t) (hpos : d.Positive) (p : ℕ) {n : ℕ} (hn : 0 < n) :
    Collects t u (d.enter u p n) ⟨n + 1, d.enter u p n, ∅⟩ where
  disjoint := hd.enter p n
  positive := hpos.enter p hn
  index_pos := Nat.succ_pos n
  pending := fun x hx => absurd hx (notMem_empty x)
  frame := fun _ hx => ⟨hx, rfl, rfl⟩
  fresh := fun x hx => absurd hx (notMem_empty x)
  complete := fun _ hx hnot => absurd hx hnot
  reached := fun x hx => absurd hx (notMem_empty x)

theorem Collects.lower (h : Collects t u d w) (v : SwitchId) {k : ℕ} (hk : 0 < k) :
    Collects t u d { w with domains := w.domains.lower v k } where
  disjoint := h.disjoint.lower k
  positive := h.positive.lower hk
  index_pos := h.index_pos
  pending := h.pending.frame (Domains.frame_lower k)
  frame := h.frame.trans (Domains.frame_lower k)
  fresh := h.fresh
  complete := fun x hx hnot => by
    rw [Domains.switchClusterMap_lower]
    exact h.complete x (Domains.visited_lower.mp hx) hnot
  reached := h.reached

theorem Collects.merge {v : SwitchId} {r : VisitResult} (h : Collects t u d w)
    (hstep : t.Step u v) (hr : Collected t v w.domains r) :
    Collects t u d ⟨r.currIndex, r.domains, w.nodesInMyCluster ∪ r.currSet⟩ where
  disjoint := hr.disjoint
  positive := hr.positive
  index_pos := hr.index_pos
  pending := by
    intro x hx
    rcases mem_union.mp hx with hx | hx
    · exact h.pending.frame hr.frame x hx
    · exact hr.pending x hx
  frame := h.frame.trans hr.frame
  fresh := by
    intro x hx hv
    rcases mem_union.mp hx with hx | hx
    · exact h.fresh x hx hv
    · exact hr.fresh x hx (h.frame x hv).1
  complete := by
    intro x hx hnot
    by_cases hw : w.domains.Visited x
    · rcases h.complete x hw hnot with hmap | hmem
      · left
        rw [(hr.frame x hw).2.1]
        exact hmap
      · exact .inr (mem_union_left _ hmem)
    · rcases hr.complete x hx hw with hmap | hmem
      · exact .inl hmap
      · exact .inr (mem_union_right _ hmem)
  reached := by
    intro x hx
    rcases mem_union.mp hx with hx | hx
    · refine (h.reached x hx).mono fun y hy => ?_
      rcases mem_insert.mp hy with rfl | hy
      · exact mem_insert_self _ _
      · exact mem_insert_of_mem (mem_union_left _ hy)
    · -- by the link to `v`, and then as the nested visit went
      obtain ⟨hv, hreach⟩ := hr.reached x hx
      have hsub : ∀ y ∈ r.currSet, y ∈ insert u (w.nodesInMyCluster ∪ r.currSet) := fun y hy =>
        mem_insert_of_mem (mem_union_right _ hy)
      exact ReachIn.head hstep (hsub v hv) (hreach.mono hsub)

/-- With the switch itself, what the loop has collected is what a visit leaves
to its caller. -/
theorem Collects.collected {p n : ℕ} (hd : d.Disjoint t) (hu : u ∈ t.switches)
    (hv : ¬ d.Visited u) (h : Collects t u (d.enter u p n) w) :
    Collected t u d ⟨w.currIndex, w.domains, insert u w.nodesInMyCluster⟩ := by
  have henter : ∀ x, d.Visited x → (d.enter u p n).Visited x :=
    fun x hx => Domains.visited_enter.mpr (.inr hx)
  obtain ⟨huvis, humap, -⟩ := h.frame u (Domains.visited_enter.mpr (.inl rfl))
  refine ⟨h.disjoint, h.positive, h.index_pos, fun x hx => ?_, fun x hx => ?_, fun x hx => ?_,
    fun x hx hnot => ?_, huvis, fun x hx => ⟨mem_insert_self _ _, ?_⟩⟩
  · rcases mem_insert.mp hx with rfl | hx
    · refine ⟨hu, huvis, humap.trans (eq_none_iff_forall_ne_some.mpr fun c hc => hv ?_)⟩
      exact (hd.mapped x c hc).2.2
    · exact h.pending x hx
  · obtain ⟨hvis, hmap, hparent⟩ := h.frame x (henter x hx)
    have hxu : x ≠ u := fun heq => hv (heq ▸ hx)
    refine ⟨hvis, hmap, hparent.trans ?_⟩
    rw [Domains.dfsList_enter_of_ne hxu]
  · rcases mem_insert.mp hx with rfl | hx
    · exact hv
    · exact fun hvis => h.fresh x hx (henter x hvis)
  · by_cases hxu : x = u
    · exact .inr (hxu ▸ mem_insert_self _ _)
    · have hnot' : ¬ (d.enter u p n).Visited x := fun hvis =>
        (Domains.visited_enter.mp hvis).elim hxu hnot
      exact (h.complete x hx hnot').imp_right mem_insert_of_mem
  · rcases mem_insert.mp hx with rfl | hx
    · exact ReachIn.refl
    · exact h.reached x hx

/-- A cluster is made of what a visit has collected, and nothing is left to the
caller. -/
theorem Collected.formCluster {n : ℕ} {d' : Domains} {S : Finset SwitchId}
    (h : Collected t u d ⟨n, d', S⟩) (hu : u ∈ S) :
    Collected t u d ⟨n, d'.formCluster S, ∅⟩ := by
  have hempty : ∀ x, x ∉ (∅ : Finset SwitchId) := notMem_empty
  refine ⟨h.disjoint.formCluster h.pending hu fun x hx => (h.reached x hx).2, h.positive,
    h.index_pos, fun x hx => absurd hx (hempty x), fun x hx => ?_,
    fun x hx => absurd hx (hempty x), fun x hx hnot => .inl ?_, h.visited,
    fun x hx => absurd hx (hempty x)⟩
  · obtain ⟨hvis, hmap, hparent⟩ := h.frame x hx
    refine ⟨hvis, ?_, hparent⟩
    rw [Domains.switchClusterMap_formCluster_of_notMem fun hmem => h.fresh x hmem hx]
    exact hmap
  · by_cases hmem : x ∈ S
    · rw [Domains.switchClusterMap_formCluster_of_mem hmem]
      exact some_ne_none _
    · rw [Domains.switchClusterMap_formCluster_of_notMem hmem]
      exact (h.complete x hx hnot).resolve_right hmem

theorem Collects.finish {p n : ℕ} (hd : d.Disjoint t) (hu : u ∈ t.switches)
    (hv : ¬ d.Visited u) (h : Collects t u (d.enter u p n) w) :
    Collected t u d (finishVisit u ∅ w) ∧ (p = 0 → (finishVisit u ∅ w).currSet = ∅) := by
  have hcollected := h.collected hd hu hv
  have hset : (∅ : Finset SwitchId) ∪ insert u w.nodesInMyCluster =
      insert u w.nodesInMyCluster := by
    ext x
    rw [mem_union]
    exact or_iff_right (notMem_empty x)
  unfold finishVisit
  rw [hset]
  split
  · exact ⟨hcollected.formCluster (mem_insert_self _ _), fun _ => rfl⟩
  case isFalse hlow =>
    refine ⟨hcollected, fun hp => ?_⟩
    -- without a parent the lowpoint is above its index
    have hparent : (w.domains.dfsList u).parentDFSIndex = 0 := by
      rw [(h.frame u (Domains.visited_enter.mpr (.inl rfl))).2.2, Domains.dfsList_enter_self]
      exact hp
    rw [hparent] at hlow
    exact absurd (h.positive u).2 hlow

theorem Collects.visitLink {visit : ℕ → ℕ → SwitchId → Domains → Finset SwitchId →
      Option VisitResult} {l : Link} {w' : Traversal}
    (hvisit : ∀ p n v d' r, d'.Disjoint t → d'.Positive → 0 < n → v ∈ t.switches →
      ¬ d'.Visited v → visit p n v d' ∅ = some r → Collected t v d' r)
    (hl : l ∈ t.linksAt u) (h : Collects t u d w)
    (hstep : visitLink t visit u w l = some w') : Collects t u d w' := by
  unfold NctuSdn.visitLink at hstep
  split_ifs at hstep with hself hclustered hblocked hdomain hmem hlower hunvisited
  iterate 4
    · cases hstep
      exact h
  · cases hstep
    exact h.lower u (h.positive l.dst).1
  · obtain ⟨r, hr, rfl⟩ := map_eq_some_iff.mp hstep
    have hnot : ¬ w.domains.Visited l.dst := by
      unfold Domains.Visited
      rw [hunvisited]
      exact false_ne_true
    have hnested := hvisit _ _ _ _ r h.disjoint h.positive h.index_pos hmem hnot hr
    have hlink : t.Step u l.dst :=
      ⟨l, hl, rfl, hself, eq_false_iff.mpr hblocked, eq_false_iff.mpr hdomain⟩
    exact (h.merge hlink hnested).lower u (hnested.positive l.dst).2
  · cases hstep
    exact h

/-- **What every visit keeps.** -/
theorem dfsTraverse_collected (fuel : ℕ) : ∀ {p n u d r}, d.Disjoint t → d.Positive → 0 < n →
    u ∈ t.switches → ¬ d.Visited u → dfsTraverse t fuel p n u d ∅ = some r →
    Collected t u d r ∧ (p = 0 → r.currSet = ∅) := by
  induction fuel with
  | zero => exact fun _ _ _ _ _ hr => by cases hr
  | succ fuel ih =>
    intro p n u d r hd hpos hn hu hv hr
    obtain ⟨w, hw, rfl⟩ := map_eq_some_iff.mp hr
    refine Collects.finish hd hu hv (foldlM_keeps (fun _ => Collects t u (d.enter u p n))
      (fun done l rest w w' hsplit h hstep => ?_) (collects_enter hd hpos p hn) hw)
    refine h.visitLink (fun p n v d' r hd' hpos' hn' hv' hnot hr' => ?_) ?_ hstep
    · exact (ih hd' hpos' hn' hv' hnot hr').1
    · simp [hsplit]

/-- **The clusters of any instance**: they are disjoint and hang together, and
every switch is in one. -/
theorem identifyOpenflowDomains_disjoint (h : identifyOpenflowDomains t = some d) :
    d.Disjoint t ∧ ∀ x ∈ t.switches, d.switchClusterMap x ≠ none := by
  obtain ⟨s, hs, rfl⟩ := map_eq_some_iff.mp h
  have hinv := foldlM_keeps (fun done (s : Domains × Finset SwitchId) =>
    s.1.Disjoint t ∧ s.1.Positive ∧ s.2 = ∅ ∧
      (∀ x, s.1.Visited x → s.1.switchClusterMap x ≠ none) ∧ ∀ x ∈ done, s.1.Visited x) ?_ ?_ hs
  · obtain ⟨hd, -, -, hall, hvis⟩ := hinv
    exact ⟨hd, fun x hx => hall x (hvis x hx)⟩
  · rintro done sw rest ⟨d, S⟩ s' hsplit ⟨hd, hpos, rfl, hall, hvis⟩ hstep
    have hsw : sw ∈ t.switches := by simp [hsplit]
    unfold identifyFrom at hstep
    split_ifs at hstep with hv
    · cases hstep
      refine ⟨hd, hpos, rfl, hall, fun x hx => ?_⟩
      rcases List.mem_append.mp hx with hx | hx
      · exact hvis x hx
      · exact List.mem_singleton.mp hx ▸ hv
    · obtain ⟨r, hr, rfl⟩ := map_eq_some_iff.mp hstep
      obtain ⟨hc, hempty⟩ := dfsTraverse_collected _ hd hpos Nat.one_pos hsw hv hr
      refine ⟨hc.disjoint, hc.positive, hempty rfl, fun x hx => ?_, fun x hx => ?_⟩
      · by_cases hold : d.Visited x
        · show r.domains.switchClusterMap x ≠ none
          rw [(hc.frame x hold).2.1]
          exact hall x hold
        · refine (hc.complete x hx hold).resolve_right fun hmem => ?_
          rw [hempty rfl] at hmem
          exact absurd hmem (notMem_empty x)
      · rcases List.mem_append.mp hx with hx | hx
        · exact (hc.frame x (hvis x hx)).1
        · exact List.mem_singleton.mp hx ▸ hc.visited
  · exact ⟨disjoint_init, positive_init, rfl, fun x hx => absurd hx false_ne_true,
      fun x hx => absurd hx List.not_mem_nil⟩

end Visits

/-! ### The search returns -/

/-- Every link the search may follow leads to a switch of the instance. -/
def TopologyInstance.Closed (t : TopologyInstance) : Prop :=
  ∀ v, ∀ l ∈ t.linksAt v, t.isBlockedLink l = false → t.isBroadcastDomainLink l = false →
    l.dst ∈ t.switches

section Returns

variable {t : TopologyInstance}

theorem unvisited_le {d d' : Domains} (h : ∀ x, d.Visited x → d'.Visited x) :
    t.unvisited d' ≤ t.unvisited d := by
  refine List.countP_mono_left fun x _ hx => ?_
  simp only [not_eq_true'] at hx ⊢
  exact eq_false_iff.mpr fun hv => eq_false_iff.mp hx (h x hv)

theorem dfsTraverse_returns (ht : t.Closed) (fuel : ℕ) : ∀ {p n u d}, d.Disjoint t → d.Positive →
    0 < n → u ∈ t.switches → ¬ d.Visited u → t.unvisited d ≤ fuel →
    ∃ r, dfsTraverse t fuel p n u d ∅ = some r := by
  induction fuel with
  | zero =>
    intro p n u d _ _ _ hu hv hfuel
    have hlt := Discovery.unvisited_enter p n hv hu
    omega
  | succ fuel ih =>
    intro p n u d hd hpos hn hu hv hfuel
    have hlt := Discovery.unvisited_enter p n hv hu
    obtain ⟨w, hw, -⟩ := foldlM_rule (f := visitLink t (dfsTraverse t fuel) u)
      (l := t.linksAt u) (fun _ => Collects t u (d.enter u p n))
      (fun done l rest w hsplit h => by
        have hl : l ∈ t.linksAt u := by simp [hsplit]
        suffices hsome : ∃ w', visitLink t (dfsTraverse t fuel) u w l = some w' by
          obtain ⟨w', hw'⟩ := hsome
          refine ⟨w', hw', h.visitLink (fun _ _ _ _ _ hd' hpos' hn' hv' hnot hr' => ?_) hl hw'⟩
          exact (dfsTraverse_collected fuel hd' hpos' hn' hv' hnot hr').1
        unfold visitLink
        split_ifs with hself hclustered hblocked hdomain hmem hlower hunvisited
        iterate 5
          · exact ⟨_, rfl⟩
        · -- a switch less is unvisited, so the fuel lasts
          have hnot : ¬ w.domains.Visited l.dst := by
            unfold Domains.Visited
            rw [hunvisited]
            exact false_ne_true
          have hle := unvisited_le (t := t) fun x hx => (h.frame x hx).1
          obtain ⟨r, hr⟩ := ih (p := (w.domains.dfsList u).dfsIndex) h.disjoint h.positive
            h.index_pos hmem hnot (by omega)
          exact ⟨_, by rw [hr]; rfl⟩
        · exact ⟨_, rfl⟩
        · exact absurd (ht u l hl (eq_false_iff.mpr hblocked)
            (eq_false_iff.mpr hdomain)) hmem)
      (collects_enter hd hpos p hn)
    exact ⟨finishVisit u ∅ w, by unfold dfsTraverse; rw [hw]; rfl⟩

/-- **The search returns** if every link it may follow leads to a switch. -/
theorem identifyOpenflowDomains_returns (ht : t.Closed) :
    ∃ d, identifyOpenflowDomains t = some d := by
  obtain ⟨s, hs, -⟩ := foldlM_rule (f := identifyFrom t) (l := t.switches)
    (fun _ s => s.1.Disjoint t ∧ s.1.Positive ∧ s.2 = ∅)
    (fun done sw rest s hsplit hs => by
      obtain ⟨hd, hpos, hempty⟩ := hs
      have hsw : sw ∈ t.switches := by simp [hsplit]
      unfold identifyFrom
      split_ifs with hv
      · exact ⟨s, rfl, hd, hpos, hempty⟩
      · rw [hempty]
        obtain ⟨r, hr⟩ := dfsTraverse_returns (p := 0) ht t.switches.length hd hpos Nat.one_pos hsw
          hv List.countP_le_length
        obtain ⟨hc, hroot⟩ := dfsTraverse_collected _ hd hpos Nat.one_pos hsw hv hr
        exact ⟨_, by rw [hr]; rfl, hc.disjoint, hc.positive, hroot rfl⟩)
    (s := (Domains.init, ∅)) ⟨disjoint_init, positive_init, rfl⟩
  exact ⟨s.1, by unfold identifyOpenflowDomains; rw [hs]; rfl⟩

end Returns

end NctuSdn
