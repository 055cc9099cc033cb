/-
What a visit of the cluster search does, whatever the links are.

The record `Discovery` compares the state before a visit with a later one: the
records of the switches visited before are as they were, the switches
discovered are reached from the one visited and have higher indexes, and their
links have been followed.  `Explored` adds the lowpoint: it is the smallest
index such a link leads back to.  Both are kept by the three things the loop
over the links can do (`Explored.skip`, `Explored.lower`, `Explored.descend`;
`LinkStep` lists them), so they hold of every visit, and every visit returns
(`dfsTraverse_spec`).
-/
import NctuSdn.Topology.Domains

namespace NctuSdn

open List Option

/-! ### What a visit does -/

open Domains

/-- A state in which `n` is the next index to be given. -/
structure Ready (t : TopologyInstance) (d : Domains) (n : ℕ) : Prop where
  fresh : ∀ x, ¬ d.Visited x → d.dfsList x = {} ∧ d.switchClusterMap x = none
  index_lt : ∀ x, d.Visited x → d.switchClusterMap x = none → d.index x < n
  budget : n + t.unvisited d ≤ longMax

/-- What has happened between `d₀` and `d` if `v` was entered in `d₀` with
index `n₀` and its links to `D` have been dealt with. -/
structure Discovery (t : TopologyInstance) (v : SwitchId) (D : List SwitchId)
    (d₀ : Domains) (n₀ : ℕ) (d : Domains) (n : ℕ) : Prop where
  start : v ∈ discovered d₀ d
  looked : ∀ u ∈ D, u ≠ v → t.Linked v u
  kept : ∀ x, d₀.Visited x →
    d.dfsList x = d₀.dfsList x ∧ d.switchClusterMap x = d₀.switchClusterMap x
  fresh : ∀ x, ¬ d.Visited x → d.dfsList x = {} ∧ d.switchClusterMap x = none
  index_start : d.index v = n₀
  index_gt : ∀ x ∈ discovered d₀ d, x ≠ v → n₀ < d.index x
  index_lt : ∀ x ∈ discovered d₀ d, d.index x < n
  budget : n + t.unvisited d ≤ n₀ + t.unvisited d₀
  origin : ∀ x ∈ discovered d₀ d, x ≠ v →
    ∃ u ∈ D, u ∈ discovered d₀ d \ {v} ∧ ReachIn t.Linked (discovered d₀ d \ {v}) u x
  closed : ∀ x ∈ discovered d₀ d, ∀ y, t.Linked x y → (x = v → y ∈ D) → d.Visited y
  members : ∀ x ∈ discovered d₀ d, ∀ c, d.switchClusterMap x = some c →
    x ∈ c.nodes ∧ ∀ y ∈ c.nodes, y ∈ discovered d₀ d

/-- The same, and what the lowpoint of `v` says then: it is the index of a
switch that a link out of the discovered ones leads to, and no such link leads
further back. -/
structure Explored (t : TopologyInstance) (v : SwitchId) (D : List SwitchId)
    (d₀ : Domains) (n₀ : ℕ) (d : Domains) (n : ℕ) : Prop extends
    Discovery t v D d₀ n₀ d n where
  low_attained : d.low v < longMax → ∃ x ∈ discovered d₀ d, ∃ y, t.Linked x y ∧
    d.Visited y ∧ d.index y = d.low v ∧ (d₀.Visited y → d₀.switchClusterMap y = none)
  low_le : ∀ x ∈ discovered d₀ d, ∀ y, t.Linked x y → (x = v → y ∈ D) → d₀.Visited y →
    d₀.switchClusterMap y = none → d.low v ≤ d₀.index y

section Explored

variable {t : TopologyInstance} {v u x y : SwitchId} {D : List SwitchId} {d₀ d d₁ : Domains}
  {n₀ n n₁ p k : ℕ}

theorem mem_of_mem_concat (h : x ∈ D ++ [u]) (hxu : x ≠ u) : x ∈ D := by
  rcases mem_append.mp h with h | h
  · exact h
  · exact absurd (mem_singleton.mp h) hxu

namespace Discovery

section

variable (h : Discovery t v D d₀ n₀ d n)
include h

theorem visited (hx : d₀.Visited x) : d.Visited x := by
  show (d.dfsList x).visited = true
  rw [(h.kept x hx).1]
  exact hx

theorem ne_start (hx : d₀.Visited x) : x ≠ v := by
  rintro rfl
  exact h.start.2 hx

theorem index_eq (hx : d₀.Visited x) :
    d.index x = d₀.index x :=
  congrArg ClusterDFS.dfsIndex (h.kept x hx).1

theorem lt : n₀ < n :=
  h.index_start ▸ h.index_lt v h.start

theorem index_ge (hx : x ∈ discovered d₀ d) :
    n₀ ≤ d.index x := by
  by_cases hxv : x = v
  · rw [hxv, h.index_start]
  · exact (h.index_gt x hx hxv).le

theorem reachIn (hx : x ∈ discovered d₀ d) :
    ReachIn t.Linked (discovered d₀ d) v x := by
  by_cases hxv : x = v
  · rw [hxv]
    exact ReachIn.refl
  · obtain ⟨u, huD, hu, hux⟩ := h.origin x hx hxv
    exact ReachIn.head (h.looked u huD hu.2) hu.1 (hux.mono Set.sdiff_subset)

theorem ready (h₀ : Ready t d₀ n₀) : Ready t d n where
  fresh := h.fresh
  index_lt := by
    intro x hx hc
    by_cases hx₀ : d₀.Visited x
    · rw [h.index_eq hx₀]
      rw [(h.kept x hx₀).2] at hc
      exact (h₀.index_lt x hx₀ hc).trans h.lt
    · exact h.index_lt x ⟨hx, hx₀⟩
  budget := h.budget.trans h₀.budget

end

theorem discovered_enter (p n₀ : ℕ) (hv : ¬ d₀.Visited v) :
    discovered d₀ (d₀.enter v p n₀) = {v} := by
  ext x
  rw [mem_discovered, visited_enter, Set.mem_singleton_iff]
  constructor
  · rintro ⟨hx | hx, hx₀⟩
    · exact hx
    · exact absurd hx hx₀
  · rintro rfl
    exact ⟨.inl rfl, hv⟩

theorem unvisited_enter (p n₀ : ℕ) (hv : ¬ d₀.Visited v) (hmem : v ∈ t.switches) :
    t.unvisited (d₀.enter v p n₀) + 1 ≤ t.unvisited d₀ := by
  have hle : ∀ l : List SwitchId,
      l.countP (fun x => !((d₀.enter v p n₀).dfsList x).visited) ≤
        l.countP fun x => !(d₀.dfsList x).visited := by
    intro l
    apply countP_mono_left
    intro x _ hx
    rw [Bool.not_eq_true', ← Bool.not_eq_true] at hx ⊢
    exact fun hx₀ => hx (visited_enter.mpr (.inr hx₀))
  -- `v` itself is counted before and not after
  obtain ⟨before, after, hsplit⟩ := append_of_mem hmem
  have hbefore := hle before
  have hafter := hle after
  have hv₀ : (d₀.dfsList v).visited = false := by simpa [Visited] using hv
  simp only [TopologyInstance.unvisited, hsplit, countP_append, countP_cons,
    dfsList_enter_self, hv₀]
  simp only [Bool.not_true, Bool.not_false, Bool.false_eq_true, if_false, if_true]
  omega

theorem enter (h₀ : Ready t d₀ n₀) (hv : ¬ d₀.Visited v) (hmem : v ∈ t.switches) :
    Discovery t v [] d₀ n₀ (d₀.enter v p n₀) (n₀ + 1) := by
  have hdisc := discovered_enter p n₀ hv
  have hindex : (d₀.enter v p n₀).index v = n₀ := by simp [index, dfsList_enter_self]
  refine ⟨?_, by simp, ?_, ?_, hindex, ?_, ?_, ?_, ?_, ?_, ?_⟩
  · rw [hdisc]
    rfl
  · intro x hx
    have hxv : x ≠ v := by
      rintro rfl
      exact hv hx
    exact ⟨dfsList_enter_of_ne hxv, rfl⟩
  · intro x hx
    rw [visited_enter, not_or] at hx
    rw [dfsList_enter_of_ne hx.1]
    exact h₀.fresh x hx.2
  · intro x hx hxv
    rw [hdisc] at hx
    exact absurd hx hxv
  · intro x hx
    rw [hdisc] at hx
    rw [Set.mem_singleton_iff.mp hx, hindex]
    exact Nat.lt_succ_self n₀
  · have := unvisited_enter p n₀ hv hmem
    omega
  · intro x hx hxv
    rw [hdisc] at hx
    exact absurd hx hxv
  · intro x hx y _ hy
    rw [hdisc] at hx
    exact absurd (hy hx) not_mem_nil
  · intro x hx c hc
    rw [hdisc] at hx
    have hnone : d₀.switchClusterMap x = none := by
      rw [Set.mem_singleton_iff.mp hx]
      exact (h₀.fresh v hv).2
    exact absurd (hc.symm.trans hnone) (by simp)

theorem extend (h : Discovery t v D d₀ n₀ d n) (hlink : u ≠ v → t.Linked v u)
    (hu : d.Visited u) : Discovery t v (D ++ [u]) d₀ n₀ d n := by
  refine ⟨h.start, ?_, h.kept, h.fresh, h.index_start, h.index_gt, h.index_lt, h.budget, ?_, ?_,
    h.members⟩
  · intro x hx
    by_cases hxu : x = u
    · rw [hxu]
      exact hlink
    · exact h.looked x (mem_of_mem_concat hx hxu)
  · intro x hx hxv
    obtain ⟨w, hwD, hw⟩ := h.origin x hx hxv
    exact ⟨w, mem_append_left _ hwD, hw⟩
  · intro x hx y hxy hy
    by_cases hyu : y = u
    · rw [hyu]
      exact hu
    · exact h.closed x hx y hxy fun hxv => mem_of_mem_concat (hy hxv) hyu

theorem lower (h : Discovery t v D d₀ n₀ d n) : Discovery t v D d₀ n₀ (d.lower v k) n := by
  refine ⟨?_, h.looked, ?_, ?_, ?_, ?_, ?_, ?_, ?_, ?_, ?_⟩
  · rw [discovered_lower]
    exact h.start
  · intro x hx
    rw [dfsList_lower_of_ne (h.ne_start hx), switchClusterMap_lower]
    exact h.kept x hx
  · intro x hx
    rw [visited_lower] at hx
    have hxv : x ≠ v := by
      rintro rfl
      exact hx h.start.1
    rw [dfsList_lower_of_ne hxv, switchClusterMap_lower]
    exact h.fresh x hx
  · rw [index_lower]
    exact h.index_start
  · simpa using h.index_gt
  · simpa using h.index_lt
  · rw [unvisited_lower]
    exact h.budget
  · simpa using h.origin
  · simpa using h.closed
  · simpa using h.members

section

variable (h : Discovery t v D d₀ n₀ d n) {D' : List SwitchId} (h₁ : Discovery t u D' d n d₁ n₁)
include h h₁

theorem mem_discovered_iff :
    x ∈ discovered d₀ d₁ ↔ x ∈ discovered d₀ d ∨ x ∈ discovered d d₁ := by
  simp only [mem_discovered]
  by_cases hx : d.Visited x
  · simp [hx, h₁.visited hx]
  · have hx₀ : ¬ d₀.Visited x := fun hx₀ => hx (h.visited hx₀)
    simp [hx, hx₀]

theorem discovered_subset : discovered d₀ d ⊆ discovered d₀ d₁ := by
  intro x hx
  exact (h.mem_discovered_iff h₁).mpr (.inl hx)

theorem discovered_subset_sdiff : discovered d d₁ ⊆ discovered d₀ d₁ \ {v} := by
  intro x hx
  refine ⟨(h.mem_discovered_iff h₁).mpr (.inr hx), ?_⟩
  rintro rfl
  exact hx.2 h.start.1

end

/-- A link to a switch that is visited now: what its visit discovers is
discovered from `v`. -/
theorem descend (ht : t.Regular) (h : Discovery t v D d₀ n₀ d n) (huv : t.Linked v u)
    (h₁ : Discovery t u (t.targets u) d n d₁ n₁) : Discovery t v (D ++ [u]) d₀ n₀ d₁ n₁ := by
  have hold := h.discovered_subset h₁
  have hnew := h.discovered_subset_sdiff h₁
  refine ⟨hold h.start, ?_, ?_, h₁.fresh, ?_, ?_, ?_, h₁.budget.trans h.budget, ?_, ?_, ?_⟩
  · intro x hx hxv
    by_cases hxu : x = u
    · rw [hxu]
      exact huv
    · exact h.looked x (mem_of_mem_concat hx hxu) hxv
  · intro x hx
    have hx₁ := h₁.kept x (h.visited hx)
    rw [hx₁.1, hx₁.2]
    exact h.kept x hx
  · rw [h₁.index_eq h.start.1]
    exact h.index_start
  · intro x hx hxv
    rcases (h.mem_discovered_iff h₁).mp hx with hx | hx
    · rw [h₁.index_eq hx.1]
      exact h.index_gt x hx hxv
    · exact h.lt.trans_le (h₁.index_ge hx)
  · intro x hx
    rcases (h.mem_discovered_iff h₁).mp hx with hx | hx
    · rw [h₁.index_eq hx.1]
      exact (h.index_lt x hx).trans h₁.lt
    · exact h₁.index_lt x hx
  · intro x hx hxv
    rcases (h.mem_discovered_iff h₁).mp hx with hx | hx
    · obtain ⟨w, hwD, hw, hwx⟩ := h.origin x hx hxv
      have hsub : discovered d₀ d \ {v} ⊆ discovered d₀ d₁ \ {v} :=
        Set.sdiff_subset_sdiff_left hold
      exact ⟨w, mem_append_left _ hwD, hsub hw, hwx.mono hsub⟩
    · exact ⟨u, by simp, hnew h₁.start, (h₁.reachIn hx).mono hnew⟩
  · -- a link of an old switch to `u` is the one that was taken
    intro x hx y hxy hy
    rcases (h.mem_discovered_iff h₁).mp hx with hx | hx
    · by_cases hyu : y = u
      · rw [hyu]
        exact h₁.start.1
      · exact h₁.visited (h.closed x hx y hxy fun hxv => mem_of_mem_concat (hy hxv) hyu)
    · exact h₁.closed x hx y hxy fun hxu => ht.mem_targets (hxu ▸ hxy)
  · intro x hx c hc
    rcases (h.mem_discovered_iff h₁).mp hx with hx | hx
    · rw [(h₁.kept x hx.1).2] at hc
      obtain ⟨hxc, hcs⟩ := h.members x hx c hc
      exact ⟨hxc, fun y hy => hold (hcs y hy)⟩
    · obtain ⟨hxc, hcs⟩ := h₁.members x hx c hc
      exact ⟨hxc, fun y hy => (hnew (hcs y hy)).1⟩

end Discovery

namespace Explored

/-- A lowpoint below the index of `v` is the index of a switch visited before
`v` that has no cluster. -/
theorem exists_of_low_lt (h : Explored t v D d₀ n₀ d n) (h₀ : Ready t d₀ n₀)
    (hlow : d.low v < n₀) : ∃ y, d₀.Visited y ∧ d₀.switchClusterMap y = none ∧
      d₀.index y = d.low v ∧ Relation.ReflTransGen t.Linked v y := by
  have hmax : d.low v < longMax := by
    have := h₀.budget
    omega
  obtain ⟨x, hx, y, hxy, hy, hidx, hc⟩ := h.low_attained hmax
  have hy₀ : d₀.Visited y := by
    by_contra hy₀
    have := h.index_ge ⟨hy, hy₀⟩
    omega
  exact ⟨y, hy₀, hc hy₀, (h.index_eq hy₀).symm.trans hidx, (h.reachIn hx).reaches.tail hxy⟩

/-- Entering a switch: its lowpoint is still `longMax`. -/
theorem enter (h₀ : Ready t d₀ n₀) (hv : ¬ d₀.Visited v) (hmem : v ∈ t.switches) :
    Explored t v [] d₀ n₀ (d₀.enter v p n₀) (n₀ + 1) := by
  refine ⟨.enter h₀ hv hmem, ?_, ?_⟩
  · intro hlow
    have hmax : (d₀.enter v p n₀).low v = longMax := by
      simp [low, dfsList_enter_self, (h₀.fresh v hv).1]
    rw [hmax] at hlow
    exact absurd hlow (lt_irrefl _)
  · intro x hx y _ hy
    rw [Discovery.discovered_enter p n₀ hv] at hx
    exact absurd (hy hx) not_mem_nil

/-- A link that is ignored does not lead to a switch with a smaller index that
has no cluster. -/
theorem skip (h : Explored t v D d₀ n₀ d n) (h₀ : Ready t d₀ n₀) (hlink : u ≠ v → t.Linked v u)
    (hskip : u = v ∨ d.switchClusterMap u ≠ none ∨ d.Visited u ∧ n₀ ≤ d.index u) :
    Explored t v (D ++ [u]) d₀ n₀ d n := by
  have hu : d.Visited u := by
    rcases hskip with rfl | hc | hu
    · exact h.start.1
    · by_contra hu
      exact hc (h.fresh u hu).2
    · exact hu.1
  refine ⟨h.extend hlink hu, h.low_attained, ?_⟩
  intro x hx y hxy hy hy₀ hc₀
  by_cases hyu : y = u
  · subst hyu
    rcases hskip with rfl | hc | ⟨-, hge⟩
    · exact absurd hy₀ h.start.2
    · rw [(h.kept y hy₀).2] at hc
      exact absurd hc₀ hc
    · rw [h.index_eq hy₀] at hge
      exact absurd (h₀.index_lt y hy₀ hc₀) (not_lt.mpr hge)
  · exact h.low_le x hx y hxy (fun hxv => mem_of_mem_concat (hy hxv) hyu) hy₀ hc₀

theorem lower (h : Explored t v D d₀ n₀ d n) (huv : t.Linked v u) (hu : d.Visited u)
    (hc : d.switchClusterMap u = none) :
    Explored t v (D ++ [u]) d₀ n₀ (d.lower v (d.index u)) n := by
  refine ⟨(h.extend (fun _ => huv) hu).lower, ?_, ?_⟩
  · rw [low_lower_self, discovered_lower]
    intro hlow
    simp only [visited_lower, index_lower]
    by_cases hle : d.index u ≤ d.low v
    · refine ⟨v, h.start, u, huv, hu, (min_eq_left hle).symm, fun hu₀ => ?_⟩
      rw [← (h.kept u hu₀).2]
      exact hc
    · rw [min_eq_right (le_of_not_ge hle)] at hlow ⊢
      exact h.low_attained hlow
  · rw [low_lower_self, discovered_lower]
    intro x hx y hxy hy hy₀ hcy
    by_cases hyu : y = u
    · subst hyu
      rw [← h.index_eq hy₀]
      exact min_le_left _ _
    · apply (min_le_right _ _).trans
      exact h.low_le x hx y hxy (fun hxv => mem_of_mem_concat (hy hxv) hyu) hy₀ hcy

/-- A link to a switch that is visited now: its lowpoint counts for `v`, since
what `v` had met before was met before it too. -/
theorem descend (ht : t.Regular) (h : Explored t v D d₀ n₀ d n) (huv : t.Linked v u)
    (h₁ : Explored t u (t.targets u) d n d₁ n₁) :
    Explored t v (D ++ [u]) d₀ n₀ (d₁.lower v (d₁.low u)) n₁ := by
  have hlowv : d₁.low v = d.low v := congrArg ClusterDFS.lowpoint (h₁.kept v h.start.1).1
  refine ⟨(h.toDiscovery.descend ht huv h₁.toDiscovery).lower, ?_, ?_⟩
  · rw [low_lower_self, discovered_lower, hlowv]
    intro hlow
    simp only [visited_lower, index_lower]
    by_cases hle : d₁.low u ≤ d.low v
    · rw [min_eq_left hle] at hlow ⊢
      obtain ⟨x, hx, y, hxy, hy, hidx, hcy⟩ := h₁.low_attained hlow
      have hx₁ := (h.mem_discovered_iff h₁.toDiscovery).mpr (.inr hx)
      refine ⟨x, hx₁, y, hxy, hy, hidx, fun hy₀ => ?_⟩
      rw [← (h.kept y hy₀).2]
      exact hcy (h.visited hy₀)
    · rw [min_eq_right (le_of_not_ge hle)] at hlow ⊢
      obtain ⟨x, hx, y, hxy, hy, hidx, hcy⟩ := h.low_attained hlow
      have hx₁ := (h.mem_discovered_iff h₁.toDiscovery).mpr (.inl hx)
      exact ⟨x, hx₁, y, hxy, h₁.visited hy, (h₁.index_eq hy).trans hidx, hcy⟩
  · rw [low_lower_self, discovered_lower, hlowv]
    intro x hx y hxy hy hy₀ hcy
    rcases (h.mem_discovered_iff h₁.toDiscovery).mp hx with hx | hx
    · -- `u` was not visited, so the link is not the one to `u`
      have hyu : y ≠ u := by
        rintro rfl
        exact h₁.start.2 (h.visited hy₀)
      apply (min_le_right _ _).trans
      exact h.low_le x hx y hxy (fun hxv => mem_of_mem_concat (hy hxv) hyu) hy₀ hcy
    · apply (min_le_left _ _).trans
      rw [← h.index_eq hy₀]
      refine h₁.low_le x hx y hxy (fun hxu => ht.mem_targets (hxu ▸ hxy)) (h.visited hy₀) ?_
      rw [(h.kept y hy₀).2]
      exact hcy

end Explored

end Explored

/-! ### The loop over the links of a switch -/

/-- What a visit of `v` with parent index `p` has done when it returns. -/
structure Visits (t : TopologyInstance) (p : ℕ) (v : SwitchId) (d₀ : Domains) (n₀ : ℕ)
    (r : VisitResult) : Prop where
  explored : Explored t v (t.targets v) d₀ n₀ r.domains r.currIndex
  currSet : ∀ x, x ∈ r.currSet ↔
    x ∈ discovered d₀ r.domains ∧ r.domains.switchClusterMap x = none
  clustered : p < r.domains.low v →
    ∀ x ∈ discovered d₀ r.domains, r.domains.switchClusterMap x ≠ none

/-- The local variables of a visit of `v` whose links to `D` have been dealt
with. -/
structure Looping (t : TopologyInstance) (p : ℕ) (v : SwitchId) (D : List SwitchId)
    (d₀ : Domains) (n₀ : ℕ) (w : Traversal) : Prop where
  explored : Explored t v D d₀ n₀ w.domains w.currIndex
  parent : (w.domains.dfsList v).parentDFSIndex = p
  open_start : w.domains.switchClusterMap v = none
  nodes : ∀ x, x ∈ w.nodesInMyCluster ↔
    x ∈ discovered d₀ w.domains ∧ x ≠ v ∧ w.domains.switchClusterMap x = none

/-- What the loop body can do with a link from `v` to `u`. -/
inductive LinkStep (t : TopologyInstance) (fuel : ℕ) (v : SwitchId) (n₀ : ℕ) (w : Traversal)
    (u : SwitchId) : Traversal → Prop
  | skip (h : u = v ∨ w.domains.switchClusterMap u ≠ none ∨
      w.domains.Visited u ∧ n₀ ≤ w.domains.index u) : LinkStep t fuel v n₀ w u w
  | lower (huv : t.Linked v u) (hu : w.domains.Visited u)
      (hc : w.domains.switchClusterMap u = none) :
      LinkStep t fuel v n₀ w u { w with domains := w.domains.lower v (w.domains.index u) }
  | descend (r : VisitResult) (huv : t.Linked v u)
      (hr : dfsTraverse t fuel n₀ w.currIndex u w.domains ∅ = some r)
      (hvisits : Visits t n₀ u w.domains w.currIndex r) :
      LinkStep t fuel v n₀ w u
        ⟨r.currIndex, r.domains.lower v (r.domains.low u), w.nodesInMyCluster ∪ r.currSet⟩

section Loop

variable {t : TopologyInstance} {p n₀ fuel : ℕ} {v : SwitchId} {D : List SwitchId}
  {d₀ : Domains} {w w' : Traversal}

/-- Visits nested at most `fuel` deep return, and do what `Visits` says. -/
def VisitsReturn (t : TopologyInstance) (fuel : ℕ) : Prop :=
  ∀ p u d n, Ready t d n → u ∈ t.switches → ¬ d.Visited u → t.unvisited d ≤ fuel →
    ∃ r, dfsTraverse t fuel p n u d ∅ = some r ∧ Visits t p u d n r

theorem LinkStep.descends {u : SwitchId} (hstep : LinkStep t fuel v n₀ w u w')
    (hw : Looping t p v D d₀ n₀ w) (hne : u ≠ v) (hu : ¬ w.domains.Visited u) :
    ∃ r, dfsTraverse t fuel n₀ w.currIndex u w.domains ∅ = some r ∧
      Visits t n₀ u w.domains w.currIndex r ∧
      w' = ⟨r.currIndex, r.domains.lower v (r.domains.low u), w.nodesInMyCluster ∪ r.currSet⟩ := by
  cases hstep with
  | skip h =>
    rcases h with h | h | h
    · exact absurd h hne
    · exact absurd (hw.explored.fresh u hu).2 h
    · exact absurd h.1 hu
  | lower _ hvis => exact absurd hvis hu
  | descend r _ hr hvisits => exact ⟨r, hr, hvisits, rfl⟩

theorem visitLink_step (ht : t.Regular) (hvisit : VisitsReturn t fuel) (h₀ : Ready t d₀ n₀)
    (hfuel : t.unvisited d₀ ≤ fuel + 1) (hw : Looping t p v D d₀ n₀ w) {l : Link}
    (hl : l ∈ t.linksAt v) :
    ∃ w', visitLink t (dfsTraverse t fuel) v w l = some w' ∧
      LinkStep t fuel v n₀ w l.dst w' := by
  have hn₀ : (w.domains.dfsList v).dfsIndex = n₀ := hw.explored.index_start
  unfold visitLink
  rw [ht.isBlockedLink, ht.isBroadcastDomainLink, hn₀]
  by_cases hself : l.dst = v
  · rw [if_pos hself]
    exact ⟨w, rfl, .skip (.inl hself)⟩
  have hlink : t.Linked v l.dst := ht.linked_of_mem (mem_map_of_mem hl) hself
  rw [if_neg hself]
  by_cases hc : (w.domains.switchClusterMap l.dst).isSome
  · rw [if_pos hc]
    exact ⟨w, rfl, .skip (.inr (.inl (isSome_iff_ne_none.mp hc)))⟩
  rw [if_neg hc, if_neg Bool.false_ne_true, if_neg Bool.false_ne_true,
    if_neg (not_not.mpr (ht.linked_mem hlink).2)]
  rw [isSome_iff_ne_none, not_not] at hc
  by_cases hu : w.domains.Visited l.dst
  · by_cases hidx : (w.domains.dfsList l.dst).dfsIndex < n₀
    · rw [if_pos hidx]
      exact ⟨_, rfl, .lower hlink hu hc⟩
    · have hvis : ¬ (w.domains.dfsList l.dst).visited = false := by
        rw [Bool.not_eq_false]
        exact hu
      rw [if_neg hidx, if_neg hvis]
      exact ⟨w, rfl, .skip (.inr (.inr ⟨hu, not_lt.mp hidx⟩))⟩
  · -- the record of a switch not visited still has the index `longMax`
    have hready := hw.explored.ready h₀
    have hrec := (hw.explored.fresh l.dst hu).1
    have hbudget := h₀.budget
    have hidx : ¬ (w.domains.dfsList l.dst).dfsIndex < n₀ := by
      rw [hrec]
      show ¬ longMax < n₀
      omega
    have hdepth : t.unvisited w.domains ≤ fuel := by
      have := hw.explored.budget
      have := hw.explored.lt
      omega
    obtain ⟨r, hr, hvisits⟩ :=
      hvisit n₀ l.dst w.domains w.currIndex hready (ht.linked_mem hlink).2 hu hdepth
    rw [if_neg hidx, if_pos (by simp [hrec]), hr]
    exact ⟨_, rfl, .descend r hlink hr hvisits⟩

theorem Looping.step (ht : t.Regular) (h₀ : Ready t d₀ n₀) (hw : Looping t p v D d₀ n₀ w)
    {u : SwitchId} (hlink : u ≠ v → t.Linked v u) (hstep : LinkStep t fuel v n₀ w u w') :
    Looping t p v (D ++ [u]) d₀ n₀ w' := by
  cases hstep with
  | skip h => exact ⟨hw.explored.skip h₀ hlink h, hw.parent, hw.open_start, hw.nodes⟩
  | lower huv hu hc =>
    refine ⟨hw.explored.lower huv hu hc, ?_, ?_, ?_⟩
    · show ((w.domains.lower v _).dfsList v).parentDFSIndex = p
      rw [dfsList_lower_self]
      exact hw.parent
    · rw [switchClusterMap_lower]
      exact hw.open_start
    · simpa using hw.nodes
  | descend r huv hr hvisits =>
    have hv := hvisits.explored.kept v hw.explored.start.1
    refine ⟨hw.explored.descend ht huv hvisits.explored, ?_, ?_, ?_⟩
    · show ((r.domains.lower v _).dfsList v).parentDFSIndex = p
      rw [dfsList_lower_self, hv.1]
      exact hw.parent
    · rw [switchClusterMap_lower, hv.2]
      exact hw.open_start
    · intro x
      rw [Finset.mem_union, hw.nodes, hvisits.currSet, discovered_lower,
        switchClusterMap_lower, hw.explored.mem_discovered_iff hvisits.explored.toDiscovery]
      constructor
      · rintro (⟨hx, hxv, hc⟩ | ⟨hx, hc⟩)
        · exact ⟨.inl hx, hxv, (hvisits.explored.kept x hx.1).2.trans hc⟩
        · refine ⟨.inr hx, ?_, hc⟩
          rintro rfl
          exact hx.2 hw.explored.start.1
      · rintro ⟨hx | hx, hxv, hc⟩
        · exact .inl ⟨hx, hxv, (hvisits.explored.kept x hx.1).2.symm.trans hc⟩
        · exact .inr ⟨hx, hc⟩

theorem LinkStep.switchClusterMap_eq {u x : SwitchId} (hstep : LinkStep t fuel v n₀ w u w')
    (hx : w.domains.Visited x) :
    w'.domains.switchClusterMap x = w.domains.switchClusterMap x := by
  cases hstep with
  | skip => rfl
  | lower => rw [switchClusterMap_lower]
  | descend r huv hr hvisits =>
    rw [switchClusterMap_lower]
    exact (hvisits.explored.kept x hx).2

theorem Explored.formCluster {d : Domains} {n : ℕ} (h : Explored t v D d₀ n₀ d n)
    {S : Finset SwitchId} (hS : ∀ x, x ∈ S ↔ x ∈ discovered d₀ d ∧ d.switchClusterMap x = none) :
    Explored t v D d₀ n₀ (d.formCluster S) n := by
  refine ⟨⟨h.start, h.looked, ?_, ?_, h.index_start, h.index_gt, h.index_lt, h.budget, h.origin,
    h.closed, ?_⟩, h.low_attained, h.low_le⟩
  · intro x hx
    have hxS : x ∉ S := fun hxS => ((hS x).mp hxS).1.2 hx
    rw [switchClusterMap_formCluster_of_notMem hxS]
    exact h.kept x hx
  · intro x hx
    have hxS : x ∉ S := fun hxS => hx ((hS x).mp hxS).1.1
    rw [switchClusterMap_formCluster_of_notMem hxS]
    exact h.fresh x hx
  · intro x hx c hc
    by_cases hxS : x ∈ S
    · rw [switchClusterMap_formCluster_of_mem hxS] at hc
      obtain rfl := some.inj hc
      exact ⟨hxS, fun y hy => ((hS y).mp hy).1⟩
    · rw [switchClusterMap_formCluster_of_notMem hxS] at hc
      exact h.members x hx c hc

/-- The switches a visit has collected when its loops are done: all it
discovered that have no cluster. -/
theorem Looping.mem_collected (hw : Looping t p v D d₀ n₀ w) (x : SwitchId) :
    x ∈ ∅ ∪ insert v w.nodesInMyCluster ↔
      x ∈ discovered d₀ w.domains ∧ w.domains.switchClusterMap x = none := by
  rw [Finset.mem_union, Finset.mem_insert, hw.nodes, or_iff_right (Finset.notMem_empty x)]
  constructor
  · rintro (rfl | ⟨hx, -, hc⟩)
    · exact ⟨hw.explored.start, hw.open_start⟩
    · exact ⟨hx, hc⟩
  · rintro ⟨hx, hc⟩
    by_cases hxv : x = v
    · exact .inl hxv
    · exact .inr ⟨hx, hxv, hc⟩

theorem Looping.visits (hw : Looping t p v (t.targets v) d₀ n₀ w) :
    Visits t p v d₀ n₀ (finishVisit v ∅ w) := by
  have hS := hw.mem_collected
  unfold finishVisit
  rw [hw.parent]
  split
  case isTrue hlow =>
    refine ⟨hw.explored.formCluster hS, ?_, ?_⟩
    · intro x
      constructor
      · intro hx
        exact absurd hx (Finset.notMem_empty x)
      · rintro ⟨hx, hc⟩
        by_cases hxS : x ∈ ∅ ∪ insert v w.nodesInMyCluster
        · rw [switchClusterMap_formCluster_of_mem hxS] at hc
          exact absurd hc (by simp)
        · rw [switchClusterMap_formCluster_of_notMem hxS] at hc
          exact absurd ((hS x).mpr ⟨hx, hc⟩) hxS
    · intro _ x hx
      by_cases hxS : x ∈ ∅ ∪ insert v w.nodesInMyCluster
      · rw [switchClusterMap_formCluster_of_mem hxS]
        exact some_ne_none _
      · rw [switchClusterMap_formCluster_of_notMem hxS]
        intro hc
        exact hxS ((hS x).mpr ⟨hx, hc⟩)
  case isFalse hlow => exact ⟨hw.explored, hS, fun hp => absurd hp hlow⟩

/-- **Invariant rule for a visit.**  If visits nested `fuel` deep return, one
that is nested `fuel + 1` deep returns, and whatever holds when the loops start
and is kept by their body holds when they end. -/
theorem dfsTraverse_rule (ht : t.Regular) (hvisit : VisitsReturn t fuel) (h₀ : Ready t d₀ n₀)
    (hmem : v ∈ t.switches) (hv : ¬ d₀.Visited v) (hfuel : t.unvisited d₀ ≤ fuel + 1)
    (I : List SwitchId → Traversal → Prop) (hstart : I [] ⟨n₀ + 1, d₀.enter v p n₀, ∅⟩)
    (hstep : ∀ D u R w w', t.targets v = D ++ u :: R → Looping t p v D d₀ n₀ w → I D w →
      LinkStep t fuel v n₀ w u w' → I (D ++ [u]) w') :
    ∃ w, dfsTraverse t (fuel + 1) p n₀ v d₀ ∅ = some (finishVisit v ∅ w) ∧
      Looping t p v (t.targets v) d₀ n₀ w ∧ I (t.targets v) w := by
  have hentered : Looping t p v [] d₀ n₀ ⟨n₀ + 1, d₀.enter v p n₀, ∅⟩ := by
    refine ⟨.enter h₀ hv hmem, by rw [dfsList_enter_self], (h₀.fresh v hv).2, ?_⟩
    intro x
    rw [Discovery.discovered_enter p n₀ hv]
    simp only [Finset.notMem_empty, Set.mem_singleton_iff, false_iff]
    exact fun hx => hx.2.1 hx.1
  obtain ⟨w, hfold, hloop, hI⟩ := foldlM_rule
    (f := visitLink t (dfsTraverse t fuel) v) (l := t.linksAt v)
    (fun done w => Looping t p v (done.map Link.dst) d₀ n₀ w ∧ I (done.map Link.dst) w)
    (fun done l rest w hsplit hw => by
      have hl : l ∈ t.linksAt v := by simp [hsplit]
      have htargets : t.targets v = done.map Link.dst ++ l.dst :: rest.map Link.dst := by
        simp [TopologyInstance.targets, hsplit]
      have hlink : l.dst ≠ v → t.Linked v l.dst := ht.linked_of_mem (mem_map_of_mem hl)
      obtain ⟨w', heq, hls⟩ := visitLink_step ht hvisit h₀ hfuel hw.1 hl
      rw [map_append, map_singleton]
      exact ⟨w', heq, hw.1.step ht h₀ hlink hls, hstep _ _ _ w w' htargets hw.1 hw.2 hls⟩)
    ⟨hentered, hstart⟩
  exact ⟨w, by rw [dfsTraverse, hfold, map_some], hloop, hI⟩

/-- **Every visit returns.**  The depth of the recursion is bounded by the
number of switches not yet visited. -/
theorem dfsTraverse_spec (ht : t.Regular) (fuel : ℕ) : VisitsReturn t fuel := by
  induction fuel with
  | zero =>
    intro p u d n h₀ hmem hu hfuel
    have := Discovery.unvisited_enter p n hu hmem
    omega
  | succ fuel ih =>
    intro p u d n h₀ hmem hu hfuel
    obtain ⟨w, hr, hw, -⟩ := dfsTraverse_rule ht ih h₀ hmem hu hfuel (p := p)
      (fun _ _ => True) trivial (fun _ _ _ _ _ _ _ _ _ => trivial)
    exact ⟨_, hr, hw.visits⟩

end Loop

/-! ### The loop over the switches -/

/-- The state between two visits started by `identifyOpenflowDomains`. -/
structure Idle (d : Domains) : Prop where
  fresh : ∀ x, ¬ d.Visited x → d.dfsList x = {} ∧ d.switchClusterMap x = none
  clustered : ∀ x, d.Visited x → d.switchClusterMap x ≠ none
  members : ∀ x c, d.switchClusterMap x = some c → x ∈ c.nodes

section Roots

variable {t : TopologyInstance} {d : Domains} {v : SwitchId} {r : VisitResult}

theorem Idle.ready (ht : t.Regular) (hd : Idle d) : Ready t d 1 where
  fresh := hd.fresh
  index_lt := fun x hx hc => absurd hc (hd.clustered x hx)
  budget := by
    have hle : t.unvisited d ≤ t.switches.length := countP_le_length
    have := ht.few
    omega

/-- A visit without a parent ends with a cluster: the indexes start at 1, and
no link leads to a switch of an earlier visit that has no cluster. -/
theorem Visits.idle (hd : Idle d) (hr : Visits t 0 v d 1 r) : Idle r.domains := by
  have hlow : 0 < r.domains.low v := by
    by_contra hle
    have hzero : r.domains.low v = 0 := Nat.eq_zero_of_not_pos hle
    obtain ⟨x, -, y, -, hy, hidx, hc⟩ := hr.explored.low_attained (by rw [hzero]; decide)
    by_cases hyd : d.Visited y
    · exact hd.clustered y hyd (hc hyd)
    · have := hr.explored.index_ge ⟨hy, hyd⟩
      omega
  refine ⟨hr.explored.fresh, ?_, ?_⟩
  · intro x hx
    by_cases hxd : d.Visited x
    · rw [(hr.explored.kept x hxd).2]
      exact hd.clustered x hxd
    · exact hr.clustered hlow x ⟨hx, hxd⟩
  · intro x c hc
    by_cases hxd : d.Visited x
    · rw [(hr.explored.kept x hxd).2] at hc
      exact hd.members x c hc
    · have hx : r.domains.Visited x := by
        by_contra hx
        rw [(hr.explored.fresh x hx).2] at hc
        exact absurd hc (by simp)
      exact (hr.explored.members x ⟨hx, hxd⟩ c hc).1

/-- **Invariant rule for the whole search.** -/
theorem identifyOpenflowDomains_rule (ht : t.Regular) (I : List SwitchId → Domains → Prop)
    (hstart : I [] Domains.init) (hskip : ∀ done sw d, d.Visited sw → I done d → I (done ++ [sw]) d)
    (hvisit : ∀ done sw rest d r, t.switches = done ++ sw :: rest → ¬ d.Visited sw → Idle d →
      I done d → dfsTraverse t t.switches.length 0 1 sw d ∅ = some r → Visits t 0 sw d 1 r →
      I (done ++ [sw]) r.domains) :
    ∃ d, identifyOpenflowDomains t = some d ∧ Idle d ∧ (∀ sw ∈ t.switches, d.Visited sw) ∧
      I t.switches d := by
  have hinit : Idle Domains.init := by
    refine ⟨fun _ _ => ⟨rfl, rfl⟩, fun _ hx => absurd hx Bool.false_ne_true, ?_⟩
    intro x c hc
    exact absurd hc (by simp [Domains.init])
  obtain ⟨s, hfold, hcur, hidle, hvis, hI⟩ := foldlM_rule (f := identifyFrom t) (l := t.switches)
    (fun done s => s.2 = ∅ ∧ Idle s.1 ∧ (∀ sw ∈ done, s.1.Visited sw) ∧ I done s.1)
    (fun done sw rest s hsplit hs => by
      obtain ⟨hcur, hidle, hvis, hI⟩ := hs
      have hmem : sw ∈ t.switches := by simp [hsplit]
      by_cases hsw : s.1.Visited sw
      · refine ⟨s, if_pos hsw, hcur, hidle, ?_, hskip done sw s.1 hsw hI⟩
        simpa [or_imp, forall_and] using ⟨hvis, hsw⟩
      · obtain ⟨r, hr, hvisits⟩ := dfsTraverse_spec ht t.switches.length 0 sw s.1 1
          (hidle.ready ht) hmem hsw countP_le_length
        have hidle' := hvisits.idle hidle
        refine ⟨(r.domains, r.currSet), ?_, ?_, hidle', ?_,
          hvisit done sw rest s.1 r hsplit hsw hidle hI hr hvisits⟩
        · refine (if_neg hsw).trans ?_
          rw [hcur, hr, map_some]
        · -- every switch discovered has a cluster, so none is left in `currSet`
          ext x
          rw [hvisits.currSet]
          simp only [Finset.notMem_empty, iff_false, not_and]
          exact fun hx => hidle'.clustered x hx.1
        · intro x hx
          rcases mem_append.mp hx with hx | hx
          · exact hvisits.explored.visited (hvis x hx)
          · rw [mem_singleton.mp hx]
            exact hvisits.explored.start.1)
    (s := (Domains.init, ∅)) ⟨rfl, hinit, by simp, hstart⟩
  exact ⟨s.1, by rw [identifyOpenflowDomains, hfold, map_some], hidle, hvis, hI⟩

end Roots

end NctuSdn
