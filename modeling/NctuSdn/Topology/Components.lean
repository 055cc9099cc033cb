/-
When the clusters are the strongly connected components.

The search is Tarjan's algorithm with one change.  Tarjan ends a component at
a switch whose lowpoint is not below its *own* index; `dfsTraverse` ends one
where the lowpoint is above the index of the *parent*.  The two differ when
the lowpoint lies between the two indexes: the switches visited below `v` lead
back neither to the parent `p` nor to anything before it, but to a switch
that was visited from `p` earlier and can itself lead back.  Then `v` is made
a cluster although it is in the component of `p`.

`Trap` describes the situation in the graph alone: `p` is the end of a path,
`v` is met at `p` after the switches of `D`, it cannot be reached from them
off the path, and whatever it reaches off the path that has a link back to the
path they reach too.  Without a trap the records of the search keep the
invariant `Searching` (`dfsTraverse_searching`), and the clusters are exactly
the components (`clustersAreComponents`).  Links that go both ways exclude
traps (`not_trap_of_twoWay`).
-/
import NctuSdn.Topology.Exploration

namespace NctuSdn

open List

open Relation Domains

/-- Two switches are in the same `Cluster`. -/
def Domains.SameCluster (d : Domains) (a b : SwitchId) : Prop :=
  ∃ c, d.switchClusterMap a = some c ∧ d.switchClusterMap b = some c

/-- `identifyOpenflowDomains` returns, and its clusters are the strongly
connected components. -/
def ClustersAreComponents (t : TopologyInstance) : Prop :=
  ∃ d, identifyOpenflowDomains t = some d ∧
    ∀ a ∈ t.switches, ∀ b ∈ t.switches, d.SameCluster a b ↔ Mutual t.Linked a b

/-- The switches that are not on a path. -/
def OffPath (path : List SwitchId) : Set SwitchId := {x | x ∉ path}

/-- A path that ends at `p` (it is listed backwards, `p :: rest`), and a
switch `v` that is met at `p` after the switches of `D` and separated from `p`
there. -/
structure Trap (t : TopologyInstance) (p : SwitchId) (rest : List SwitchId) (v : SwitchId)
    (D R : List SwitchId) : Prop where
  nodup : (p :: rest).Nodup
  path : (p :: rest).IsChain fun a b => t.Linked b a
  order : t.targets p = D ++ v :: R
  off : v ∈ OffPath (p :: rest)
  returns : ReflTransGen t.Linked v p
  apart : ∀ u ∈ D, u ∈ OffPath (p :: rest) →
    ¬ ReachIn t.Linked (OffPath (p :: rest)) u v
  covered : ∀ x, ReachIn t.Linked (OffPath (p :: rest)) v x → ∀ z ∈ p :: rest, t.Linked x z →
    ∃ u ∈ D, u ∈ OffPath (p :: rest) ∧ ReachIn t.Linked (OffPath (p :: rest)) u x

/-- No switch of the instance is separated. -/
def NoTrap (t : TopologyInstance) : Prop := ∀ p rest v D R, ¬ Trap t p rest v D R

/-! ### The invariant of the search -/

/-- The records while the switches of `stack` are being visited, the last one
first.  A visited switch that has no cluster is on the stack or hangs below
one of its switches, and is in the component of that one. -/
structure Searching (t : TopologyInstance) (stack : List SwitchId) (d : Domains) : Prop where
  stack_visited : ∀ a ∈ stack, d.Visited a
  stack_open : ∀ a ∈ stack, d.switchClusterMap a = none
  sorted : stack.Pairwise fun a b => d.index b < d.index a
  path : stack.IsChain fun a b => t.Linked b a
  finished : ∀ x, d.Visited x → x ∉ stack → ∀ y, t.Linked x y → d.Visited y
  cluster_closed : ∀ x y, d.switchClusterMap x ≠ none → t.Linked x y →
    d.switchClusterMap y ≠ none
  cluster_exact : ∀ x c, d.switchClusterMap x = some c →
    ∀ y, y ∈ c.nodes ↔ Mutual t.Linked x y
  pending : ∀ x, d.Visited x → x ∉ stack → d.switchClusterMap x = none →
    ∃ a ∈ stack, d.index a < d.index x ∧
      (∀ b ∈ stack, d.index a < d.index b → d.index x < d.index b) ∧ Mutual t.Linked x a

namespace Searching

variable {t : TopologyInstance} {stack rest : List SwitchId} {d d₀ d' : Domains}
  {v p x y : SwitchId} {n n₀ k : ℕ}

/-- The invariant reads of the records only what this says. -/
theorem congr (h : Searching t stack d) (hvisited : ∀ x, d'.Visited x ↔ d.Visited x)
    (hindex : ∀ x, d'.index x = d.index x)
    (hcluster : d'.switchClusterMap = d.switchClusterMap) : Searching t stack d' where
  stack_visited := fun a ha => (hvisited a).mpr (h.stack_visited a ha)
  stack_open := fun a ha => hcluster ▸ h.stack_open a ha
  sorted := by simpa only [hindex] using h.sorted
  path := h.path
  finished := by simpa only [hvisited] using h.finished
  cluster_closed := by simpa only [hcluster] using h.cluster_closed
  cluster_exact := by simpa only [hcluster] using h.cluster_exact
  pending := by simpa only [hvisited, hindex, hcluster] using h.pending

theorem lower (h : Searching t stack d) : Searching t stack (d.lower v k) :=
  h.congr (fun _ => visited_lower) (fun _ => index_lower) switchClusterMap_lower

theorem reaches_top (h : Searching t (p :: rest) d) (hx : d.Visited x)
    (hc : d.switchClusterMap x = none) : ReflTransGen t.Linked x p := by
  by_cases hmem : x ∈ p :: rest
  · exact reaches_head h.path hmem
  · obtain ⟨a, ha, -, -, hxa⟩ := h.pending x hx hmem hc
    exact hxa.1.trans (reaches_head h.path ha)

theorem index_le_top (h : Searching t (p :: rest) d) (hx : x ∈ p :: rest) :
    d.index x ≤ d.index p := by
  rcases mem_cons.mp hx with rfl | hx
  · exact le_rfl
  · exact ((pairwise_cons.mp h.sorted).1 x hx).le

theorem cluster_ne_none (h : Searching t stack d) (hx : d.switchClusterMap x ≠ none)
    (hxy : ReflTransGen t.Linked x y) : d.switchClusterMap y ≠ none :=
  mem_of_reaches (C := {x | d.switchClusterMap x ≠ none})
    (fun x hx y hxy => h.cluster_closed x y hx hxy) hx hxy

/-- What hangs below a switch of the stack does so as long as the indices are kept. -/
theorem pending_kept (h : Searching t stack d₀)
    (hindex : ∀ y, d₀.Visited y → d.index y = d₀.index y) (hx : d₀.Visited x) (hxs : x ∉ stack)
    (hc : d₀.switchClusterMap x = none) :
    ∃ a ∈ stack, d.index a < d.index x ∧
      (∀ b ∈ stack, d.index a < d.index b → d.index x < d.index b) ∧ Mutual t.Linked x a := by
  obtain ⟨a, ha, hax, hnext, hxa⟩ := h.pending x hx hxs hc
  refine ⟨a, ha, ?_, fun b hb hab => ?_, hxa⟩
  · rw [hindex a (h.stack_visited a ha), hindex x hx]
    exact hax
  · rw [hindex a (h.stack_visited a ha), hindex b (h.stack_visited b hb)] at hab
    rw [hindex x hx, hindex b (h.stack_visited b hb)]
    exact hnext b hb hab

theorem finished_pop (h : Searching t (v :: stack) d) (ht : t.Regular)
    (hexp : Explored t v (t.targets v) d₀ n₀ d n) (hx : d.Visited x) (hxs : x ∉ stack)
    (hxy : t.Linked x y) : d.Visited y := by
  by_cases hxv : x = v
  · subst hxv
    exact hexp.closed x hexp.start y hxy fun _ => ht.mem_targets hxy
  · exact h.finished x hx (by simp [hxv, hxs]) y hxy

theorem push (h : Searching t stack d₀) (h₀ : Ready t d₀ n₀) (hv : ¬ d₀.Visited v)
    (hlink : ∀ p ∈ stack.head?, t.Linked p v) :
    Searching t (v :: stack) (d₀.enter v k n₀) := by
  have hne : ∀ x, d₀.Visited x → x ≠ v := by
    rintro x hx rfl
    exact hv hx
  have hindex : ∀ x, d₀.Visited x → (d₀.enter v k n₀).index x = d₀.index x := fun x hx =>
    congrArg ClusterDFS.dfsIndex (dfsList_enter_of_ne (hne x hx))
  have hindexv : (d₀.enter v k n₀).index v = n₀ := by simp [index, dfsList_enter_self]
  refine ⟨?_, ?_, ?_, ?_, ?_, h.cluster_closed, h.cluster_exact, ?_⟩
  · intro a ha
    exact visited_enter.mpr ((mem_cons.mp ha).imp_right (h.stack_visited a))
  · intro a ha
    rcases mem_cons.mp ha with rfl | ha
    · exact (h₀.fresh a hv).2
    · exact h.stack_open a ha
  · rw [pairwise_cons]
    constructor
    · intro a ha
      rw [hindexv, hindex a (h.stack_visited a ha)]
      exact h₀.index_lt a (h.stack_visited a ha) (h.stack_open a ha)
    · refine h.sorted.imp_of_mem ?_
      intro a b ha hb hab
      rw [hindex a (h.stack_visited a ha), hindex b (h.stack_visited b hb)]
      exact hab
  · exact isChain_cons.mpr ⟨hlink, h.path⟩
  · intro x hx hxs y hxy
    rw [mem_cons, not_or] at hxs
    have hx₀ := (visited_enter.mp hx).resolve_left hxs.1
    exact visited_enter.mpr (.inr (h.finished x hx₀ hxs.2 y hxy))
  · intro x hx hxs hc
    rw [mem_cons, not_or] at hxs
    have hx₀ := (visited_enter.mp hx).resolve_left hxs.1
    obtain ⟨a, ha, hlt, hnext, hmut⟩ := h.pending_kept hindex hx₀ hxs.2 hc
    refine ⟨a, mem_cons_of_mem v ha, hlt, fun b hb hab => ?_, hmut⟩
    rcases mem_cons.mp hb with rfl | hb
    · rw [hindexv, hindex x hx₀]
      exact h₀.index_lt x hx₀ hc
    · exact hnext b hb hab

end Searching

/-! ### The end of a visit -/

/-- How `v` came to be visited: by `identifyOpenflowDomains`, or from the
switch `p` on top of the stack after its links to `D`. -/
inductive Called (t : TopologyInstance) (v : SwitchId) (d : Domains) (n : ℕ) :
    List SwitchId → ℕ → Prop
  | root {k : ℕ} (hk : k < n) : Called t v d n [] k
  | link {p : SwitchId} {rest D R : List SwitchId} {dp : Domains} {np : ℕ}
      (horder : t.targets p = D ++ v :: R) (hlink : t.Linked p v)
      (hready : Ready t dp np) (hrest : ∀ a ∈ rest, dp.Visited a)
      (hexplored : Explored t p D dp np d n) : Called t v d n (p :: rest) (d.index p)

section Finish

variable {t : TopologyInstance} {stack rest D R : List SwitchId} {d₀ d dp : Domains}
  {v p : SwitchId} {n₀ n np k : ℕ}

/-- A lowpoint between the index of the parent and that of `v` shows a trap. -/
theorem trap_of_low (hs₀ : Searching t (p :: rest) d₀) (h₀ : Ready t d₀ n₀)
    (hexp : Explored t v (t.targets v) d₀ n₀ d n) (ht : t.Regular)
    (horder : t.targets p = D ++ v :: R) (hready : Ready t dp np)
    (hrest : ∀ a ∈ rest, dp.Visited a) (hexplored : Explored t p D dp np d₀ n₀)
    (hlow : d.low v < n₀) (hparent : d₀.index p < d.low v) : Trap t p rest v D R := by
  have hv : ¬ d₀.Visited v := hexp.start.2
  have hoff : v ∈ OffPath (p :: rest) := fun hmem => hv (hs₀.stack_visited v hmem)
  -- what the earlier links of `p` led to is off the path
  have hbehind : discovered dp d₀ \ {p} ⊆ OffPath (p :: rest) := by
    intro x hx hmem
    rcases mem_cons.mp hmem with rfl | hmem
    · exact hx.2 rfl
    · exact hx.1.2 (hrest x hmem)
  refine ⟨?_, hs₀.path, horder, hoff, ?_, ?_, ?_⟩
  · refine hs₀.sorted.imp ?_
    rintro a b hab rfl
    exact lt_irrefl _ hab
  · obtain ⟨y, hy, hc, -, hvy⟩ := hexp.exists_of_low_lt h₀ hlow
    exact hvy.trans (hs₀.reaches_top hy hc)
  · -- the switches of `D` are visited, so all they reach off the path is
    intro u hu huoff hreach
    have hup : u ≠ p := by
      rintro rfl
      exact huoff (mem_cons_self ..)
    have huvis : d₀.Visited u :=
      hexplored.closed p hexplored.start u (hexplored.looked u hu hup) fun _ => hu
    have hvvis : v ∈ {x | d₀.Visited x ∧ x ∈ OffPath (p :: rest)} :=
      hreach.mem_of_closed (fun x hx y hy hxy => ⟨hs₀.finished x hx.1 hx.2 y hxy, hy⟩)
        ⟨huvis, huoff⟩
    exact hv hvvis.1
  · intro x hreach z hz hxz
    have hxnew : x ∉ discovered d₀ d := by
      intro hx
      have hle := hexp.low_le x hx z hxz (fun hxv => ht.mem_targets (hxv ▸ hxz))
        (hs₀.stack_visited z hz) (hs₀.stack_open z hz)
      have := hs₀.index_le_top hz
      omega
    obtain ⟨a, ha, y, hy, hynew, hay, hyx⟩ := hreach.exists_exit hexp.start hxnew
    have hatargets : a = v → y ∈ t.targets v := fun hav => ht.mem_targets (hav ▸ hay)
    have hyvis : d₀.Visited y := by
      by_contra hy₀
      exact hynew ⟨hexp.closed a ha y hay hatargets, hy₀⟩
    have hyopen : d₀.switchClusterMap y = none := by
      by_contra hc
      exact hs₀.cluster_ne_none hc (hyx.reaches.tail hxz) (hs₀.stack_open z hz)
    -- `y` was visited after `p`, hence below it
    have hyp : y ∈ discovered dp d₀ := by
      refine ⟨hyvis, fun hydp => ?_⟩
      have hlt : dp.index y < np :=
        hready.index_lt y hydp ((hexplored.kept y hydp).2.symm.trans hyopen)
      have hle := hexp.low_le a ha y hay hatargets hyvis hyopen
      rw [hexplored.index_eq hydp] at hle
      have hp := hexplored.index_start
      omega
    have hne : y ≠ p := by
      rintro rfl
      exact hy (mem_cons_self ..)
    obtain ⟨u, huD, hu, huy⟩ := hexplored.origin y hyp hne
    exact ⟨u, huD, hbehind hu, (huy.mono hbehind).trans hyx⟩

/-- The switches are left to the caller: `v` hangs below `p` from now on. -/
theorem Searching.pop_pending (hs : Searching t (v :: p :: rest) d) (ht : t.Regular)
    (hexp : Explored t v (t.targets v) d₀ n₀ d n) (hmutual : Mutual t.Linked v p) :
    Searching t (p :: rest) d := by
  obtain ⟨hvrest, hsorted⟩ := pairwise_cons.mp hs.sorted
  have hpv : d.index p < d.index v := hvrest p (mem_cons_self ..)
  have hle : ∀ b ∈ p :: rest, d.index b ≤ d.index p := by
    intro b hb
    rcases mem_cons.mp hb with rfl | hb
    · exact le_rfl
    · exact ((pairwise_cons.mp hsorted).1 b hb).le
  refine ⟨fun a ha => hs.stack_visited a (mem_cons_of_mem v ha),
    fun a ha => hs.stack_open a (mem_cons_of_mem v ha), hsorted, ?_, ?_,
    hs.cluster_closed, hs.cluster_exact, ?_⟩
  · exact (isChain_cons.mp hs.path).2
  · exact fun x hx hxs y hxy => hs.finished_pop ht hexp hx hxs hxy
  · intro x hx hxs hc
    by_cases hxv : x = v
    · subst hxv
      exact ⟨p, mem_cons_self .., hpv, fun b hb hlt => absurd hlt (hle b hb).not_gt,
        hmutual⟩
    · obtain ⟨a, ha, hax, hnext, hxa⟩ := hs.pending x hx (by simp [hxv, hxs]) hc
      rcases mem_cons.mp ha with rfl | ha
      · exact ⟨p, mem_cons_self .., hpv.trans hax,
          fun b hb hlt => absurd hlt (hle b hb).not_gt, hxa.trans hmutual⟩
      · exact ⟨a, ha, hax, fun b hb => hnext b (mem_cons_of_mem v hb), hxa⟩

/-- What `v` reaches when its lowpoint is not below its index: switches
discovered in its visit, and switches that have a cluster. -/
theorem reaches_of_le_low (hs : Searching t (v :: stack) d) (h₀ : Ready t d₀ n₀)
    (ht : t.Regular) (hexp : Explored t v (t.targets v) d₀ n₀ d n) (hlow : n₀ ≤ d.low v)
    {x y : SwitchId} (hx : x ∈ discovered d₀ d ∨ d.switchClusterMap x ≠ none)
    (hxy : ReflTransGen t.Linked x y) :
    y ∈ discovered d₀ d ∨ d.switchClusterMap y ≠ none := by
  refine mem_of_reaches (C := {y | y ∈ discovered d₀ d ∨ d.switchClusterMap y ≠ none}) ?_ hx hxy
  rintro x (hx | hx) y hxy
  · by_contra hy
    have hy := not_or.mp hy
    rw [not_not] at hy
    have htargets : x = v → y ∈ t.targets v := fun hxv => ht.mem_targets (hxv ▸ hxy)
    have hy₀ : d₀.Visited y := by
      by_contra hy₀
      exact hy.1 ⟨hexp.closed x hx y hxy htargets, hy₀⟩
    have hc₀ : d₀.switchClusterMap y = none := (hexp.kept y hy₀).2.symm.trans hy.2
    have := hexp.low_le x hx y hxy htargets hy₀ hc₀
    have := h₀.index_lt y hy₀ hc₀
    omega
  · exact .inr (hs.cluster_closed x y hx hxy)

/-- The discovered switches that have no cluster hang below `v`, since nothing
before `v` is discovered. -/
theorem mutual_of_discovered (hs : Searching t (v :: stack) d) (hs₀ : Searching t stack d₀)
    (hexp : Explored t v (t.targets v) d₀ n₀ d n) {x : SwitchId} (hx : x ∈ discovered d₀ d)
    (hc : d.switchClusterMap x = none) : Mutual t.Linked x v := by
  by_cases hxv : x = v
  · rw [hxv]
    exact Mutual.refl v
  have hxs : x ∉ v :: stack := by
    rw [mem_cons, not_or]
    exact ⟨hxv, fun hmem => hx.2 (hs₀.stack_visited x hmem)⟩
  obtain ⟨a, ha, hax, hnext, hxa⟩ := hs.pending x hx.1 hxs hc
  rcases mem_cons.mp ha with rfl | hastack
  · exact hxa
  · -- below an earlier switch of the stack, `x` would have a smaller index than `v`
    have hav : d.index a < d.index v := (pairwise_cons.mp hs.sorted).1 a hastack
    have hlt := hnext v (mem_cons_self ..) hav
    have hge := hexp.index_ge hx
    have hstart := hexp.index_start
    omega

section

variable (hs : Searching t (v :: stack) d) (hs₀ : Searching t stack d₀) (h₀ : Ready t d₀ n₀)
  (ht : t.Regular) (hexp : Explored t v (t.targets v) d₀ n₀ d n) (hlow : n₀ ≤ d.low v)
include hs hs₀ h₀ ht hexp hlow

theorem discovered_iff_mutual {x y : SwitchId} (hx : x ∈ discovered d₀ d)
    (hc : d.switchClusterMap x = none) :
    (y ∈ discovered d₀ d ∧ d.switchClusterMap y = none) ↔ Mutual t.Linked x y := by
  have hxv := mutual_of_discovered hs hs₀ hexp hx hc
  constructor
  · rintro ⟨hy, hcy⟩
    exact hxv.trans (mutual_of_discovered hs hs₀ hexp hy hcy).symm
  · intro hxy
    -- `y` reaches `v`, which has no cluster, so it has none
    have hopen : d.switchClusterMap y = none := by
      by_contra hcy
      exact hs.cluster_ne_none hcy (hxy.2.trans hxv.1) (hs.stack_open v (mem_cons_self ..))
    refine ⟨?_, hopen⟩
    rcases reaches_of_le_low hs h₀ ht hexp hlow (.inl hx) hxy.1 with hy | hy
    · exact hy
    · exact absurd hopen hy

/-- A cluster is made of what was discovered and has none: it is the
component of `v`. -/
theorem Searching.pop_cluster {S : Finset SwitchId}
    (hS : ∀ x, x ∈ S ↔ x ∈ discovered d₀ d ∧ d.switchClusterMap x = none) :
    Searching t stack (d.formCluster S) := by
  have hstackS : ∀ a ∈ stack, a ∉ S := fun a ha haS =>
    ((hS a).mp haS).1.2 (hs₀.stack_visited a ha)
  refine ⟨fun a ha => hs.stack_visited a (mem_cons_of_mem v ha), ?_,
    (pairwise_cons.mp hs.sorted).2, (isChain_cons.mp hs.path).2,
    fun x hx hxs y hxy => hs.finished_pop ht hexp hx hxs hxy, ?_, ?_, ?_⟩
  · intro a ha
    rw [switchClusterMap_formCluster_of_notMem (hstackS a ha)]
    exact hs.stack_open a (mem_cons_of_mem v ha)
  · intro x y hx hxy
    rw [Ne, switchClusterMap_formCluster_eq_none_iff, not_and_or, not_not] at hx ⊢
    have hx' : x ∈ discovered d₀ d ∨ d.switchClusterMap x ≠ none :=
      hx.imp_left fun hxS => ((hS x).mp hxS).1
    by_cases hc : d.switchClusterMap y = none
    · -- no link leads back to what was visited before
      refine .inl ((hS y).mpr ⟨?_, hc⟩)
      exact (reaches_of_le_low hs h₀ ht hexp hlow hx' (.single hxy)).resolve_right
        (not_not.mpr hc)
    · exact .inr hc
  · intro x c hc
    by_cases hx : x ∈ S
    · rw [switchClusterMap_formCluster_of_mem hx] at hc
      obtain rfl := Option.some.inj hc
      intro y
      show y ∈ S ↔ Mutual t.Linked x y
      rw [hS]
      obtain ⟨hxd, hxc⟩ := (hS x).mp hx
      exact discovered_iff_mutual hs hs₀ h₀ ht hexp hlow hxd hxc
    · rw [switchClusterMap_formCluster_of_notMem hx] at hc
      exact hs.cluster_exact x c hc
  · intro x hx hxs hc
    obtain ⟨hxS, hc⟩ := switchClusterMap_formCluster_eq_none_iff.mp hc
    have hx₀ : d₀.Visited x := by
      by_contra hx₀
      exact hxS ((hS x).mpr ⟨⟨hx, hx₀⟩, hc⟩)
    exact hs₀.pending_kept (fun y hy => hexp.index_eq hy) hx₀ hxs
      ((hexp.kept x hx₀).2.symm.trans hc)

end

/-- **The end of a visit keeps the invariant** if there is no trap. -/
theorem Searching.finish (hno : NoTrap t) (ht : t.Regular) (h₀ : Ready t d₀ n₀)
    (hs₀ : Searching t stack d₀) (hcalled : Called t v d₀ n₀ stack k) {w : Traversal}
    (hw : Looping t k v (t.targets v) d₀ n₀ w) (hs : Searching t (v :: stack) w.domains) :
    Searching t stack (finishVisit v ∅ w).domains := by
  have hroot : stack = [] → n₀ ≤ w.domains.low v := by
    rintro rfl
    by_contra hlow
    obtain ⟨y, hy, hc, -⟩ := hw.explored.exists_of_low_lt h₀ (not_le.mp hlow)
    obtain ⟨a, ha, -⟩ := hs₀.pending y hy not_mem_nil hc
    exact absurd ha not_mem_nil
  unfold finishVisit
  rw [hw.parent]
  split
  case isTrue hk =>
    -- a cluster is formed; it is a component unless there is a trap
    refine hs.pop_cluster hs₀ h₀ ht hw.explored ?_ hw.mem_collected
    cases hcalled with
    | root => exact hroot rfl
    | link horder hlink hready hrest hexplored =>
      by_contra hlow
      exact hno _ _ _ _ _ (trap_of_low hs₀ h₀ hw.explored ht horder hready hrest hexplored
        (not_le.mp hlow) hk)
  case isFalse hk =>
    cases hcalled with
    | root hkn =>
      have hlow := hroot rfl
      have : w.domains.low v ≤ k := not_lt.mp hk
      omega
    | link horder hlink hready hrest hexplored =>
      rename_i p rest D R dp np
      have hlow : w.domains.low v < n₀ := (not_lt.mp hk).trans_lt
        (h₀.index_lt p (hs₀.stack_visited p (mem_cons_self ..))
          (hs₀.stack_open p (mem_cons_self ..)))
      obtain ⟨y, hy, hc, -, hvy⟩ := hw.explored.exists_of_low_lt h₀ hlow
      exact hs.pop_pending ht hw.explored ⟨hvy.trans (hs₀.reaches_top hy hc), .single hlink⟩

/-- Visits nested at most `fuel` deep keep the invariant. -/
def VisitsKeep (t : TopologyInstance) (fuel : ℕ) : Prop :=
  ∀ stack v d₀ n₀ k r, Ready t d₀ n₀ → v ∈ t.switches → ¬ d₀.Visited v →
    t.unvisited d₀ ≤ fuel → Searching t stack d₀ → Called t v d₀ n₀ stack k →
    dfsTraverse t fuel k n₀ v d₀ ∅ = some r → Searching t stack r.domains

theorem Searching.linkStep {fuel : ℕ} (hvisit : VisitsKeep t fuel) (ht : t.Regular)
    (h₀ : Ready t d₀ n₀) (hfuel : t.unvisited d₀ ≤ fuel + 1) (hs₀ : Searching t stack d₀)
    {u : SwitchId} {w w' : Traversal} (horder : t.targets v = D ++ u :: R)
    (hloop : Looping t k v D d₀ n₀ w) (hs : Searching t (v :: stack) w.domains)
    (hstep : LinkStep t fuel v n₀ w u w') : Searching t (v :: stack) w'.domains := by
  cases hstep with
  | skip => exact hs
  | lower => exact hs.lower
  | descend r huv hr hvisits =>
    have hdepth : t.unvisited w.domains ≤ fuel := by
      have := hloop.explored.budget
      have := hloop.explored.lt
      omega
    have hcalled : Called t u w.domains w.currIndex (v :: stack) n₀ := by
      have hn₀ : w.domains.index v = n₀ := hloop.explored.index_start
      rw [← hn₀]
      exact .link horder huv h₀ hs₀.stack_visited hloop.explored
    exact (hvisit (v :: stack) u w.domains w.currIndex n₀ r (hloop.explored.ready h₀)
      (ht.linked_mem huv).2 hvisits.explored.start.2 hdepth hs hcalled hr).lower

/-- **Visits keep the invariant** if there is no trap. -/
theorem dfsTraverse_searching (hno : NoTrap t) (ht : t.Regular) (fuel : ℕ) :
    VisitsKeep t fuel := by
  induction fuel with
  | zero =>
    intro stack v d₀ n₀ k r _ _ _ _ _ _ hr
    exact absurd hr (by simp [dfsTraverse])
  | succ fuel ih =>
    intro stack v d₀ n₀ k r h₀ hmem hv hfuel hs₀ hcalled hr
    have hlink : ∀ p ∈ stack.head?, t.Linked p v := by
      cases hcalled with
      | root => simp
      | link _ hlink => simpa using hlink
    obtain ⟨w, hw, hloop, hs⟩ := dfsTraverse_rule ht (dfsTraverse_spec ht fuel) h₀ hmem hv
      hfuel (p := k) (fun _ w => Searching t (v :: stack) w.domains) (hs₀.push h₀ hv hlink)
      (fun D u R w w' horder hloop hs hstep =>
        Searching.linkStep ih ht h₀ hfuel hs₀ horder hloop hs hstep)
    obtain rfl := Option.some.inj (hw.symm.trans hr)
    exact Searching.finish hno ht h₀ hs₀ hcalled hloop hs

end Finish

/-! ### The whole search -/

section Whole

variable {t : TopologyInstance}

theorem searching_init : Searching t [] Domains.init := by
  refine ⟨by simp, by simp, .nil, .nil, ?_, ?_, ?_, ?_⟩
  · intro x hx
    exact absurd hx Bool.false_ne_true
  · intro x y hx
    exact absurd rfl hx
  · intro x c hc
    exact absurd hc (by simp [Domains.init])
  · intro x hx
    exact absurd hx Bool.false_ne_true

/-- **Without a trap the clusters are the strongly connected components.** -/
theorem clustersAreComponents (ht : t.Regular) (hno : NoTrap t) : ClustersAreComponents t := by
  obtain ⟨d, hd, hidle, hvis, hs⟩ := identifyOpenflowDomains_rule ht
    (fun _ d => Searching t [] d) searching_init (fun _ _ _ _ hs => hs)
    (fun _ sw _ d r hsplit hsw hidle hs hr _ => dfsTraverse_searching hno ht _ [] sw d 1 0 r
      (hidle.ready ht) (by simp [hsplit]) hsw countP_le_length hs (.root Nat.one_pos) hr)
  refine ⟨d, hd, fun a ha b hb => ?_⟩
  constructor
  · rintro ⟨c, hac, hbc⟩
    exact (hs.cluster_exact a c hac b).mp (hidle.members b c hbc)
  · intro hab
    obtain ⟨c, hc⟩ := Option.ne_none_iff_exists'.mp (hidle.clustered a (hvis a ha))
    obtain ⟨c', hc'⟩ := Option.ne_none_iff_exists'.mp (hidle.clustered b (hvis b hb))
    -- two clusters with the same switches are the same
    have heq : c.nodes = c'.nodes := by
      ext x
      rw [hs.cluster_exact a c hc, hs.cluster_exact b c' hc']
      exact ⟨hab.symm.trans, hab.trans⟩
    refine ⟨c, hc, ?_⟩
    rw [hc', Option.some.injEq]
    cases c
    cases c'
    exact congrArg Cluster.mk heq.symm

/-- Links that go both ways leave no trap: `v` has a link back to `p`. -/
theorem not_trap_of_twoWay (ht : t.Regular)
    (htwo : ∀ a b, t.Linked a b → t.Linked b a) : NoTrap t := by
  intro p rest v D R htrap
  have hvp : v ≠ p := by
    rintro rfl
    exact htrap.off (mem_cons_self ..)
  have hlink : t.Linked p v := ht.linked_of_mem (by simp [htrap.order]) hvp
  obtain ⟨u, hu, huoff, huv⟩ :=
    htrap.covered v ReachIn.refl p (mem_cons_self ..) (htwo p v hlink)
  exact htrap.apart u hu huoff huv

end Whole

end NctuSdn
