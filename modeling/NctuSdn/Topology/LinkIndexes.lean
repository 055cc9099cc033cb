/-
The indexes of link discovery (`switchLinks`, `portLinks`).

A link is put into both when it is new to the table and taken out when it is
deleted; an update leaves them alone.  A deletion raises an exception for a link
that is not in the table, but the links to delete come from an index or from the
table itself, each once, so there is none.
-/
import NctuSdn.Topology.LinkTimeout

namespace NctuSdn

open Finmap LinkDiscovery

namespace LinkDiscoveryManager

/-- The indexes list the links of the table, each under both ends, and nothing
else. -/
structure Indexed (m : LinkDiscoveryManager) : Prop where
  listed : m.Listed
  tidy : m.TidyIndexes

variable {m : LinkDiscoveryManager}

theorem indexed_empty : empty.Indexed where
  listed := by
    constructor
    · intro sw l
      simp [empty, notMem_empty]
    · intro npt l
      simp [empty, notMem_empty]
  tidy := ⟨SetMap.tidy_empty, SetMap.tidy_empty⟩

theorem Indexed.same (h : m.Indexed) {links : LinkTable} (hlinks : ∀ l, l ∈ links ↔ l ∈ m.links)
    (updates : List LDUpdate) : { m with links := links, updates := updates }.Indexed where
  listed := ⟨h.listed.1.congr hlinks, h.listed.2.congr hlinks⟩
  tidy := h.tidy

/-- **Links of the table, each once.** -/
theorem Indexed.deleteLinks (h : m.Indexed) {dels : List Link} (hnodup : dels.Nodup)
    (hdels : ∀ l ∈ dels, l ∈ m.links) (updateList : List LDUpdate) :
    ∃ m', LinkDiscoveryManager.deleteLinks m dels updateList = some m' ∧ m'.Indexed := by
  obtain ⟨m', hdeleted, heq⟩ := deleteLinks_deleted hnodup hdels updateList
  exact ⟨_, heq, hdeleted.listed h.listed, hdeleted.tidy h.tidy⟩

theorem Indexed.addOrUpdateLink (h : m.Indexed) (lt : Link) (newInfo : LinkDiscovery.LinkInfo) :
    (m.addOrUpdateLink lt newInfo).Indexed := by
  rw [LinkDiscoveryManager.addOrUpdateLink]
  cases hlookup : m.links.lookup lt with
  | none =>
    have hmem : ∀ l, l ∈ m.links.insert lt newInfo ↔ l = lt ∨ l ∈ m.links :=
      fun l => mem_insert
    refine ⟨⟨(h.listed.1.add lt).congr hmem, (h.listed.2.add lt).congr hmem⟩, ?_⟩
    exact ⟨h.tidy.1.add.add, h.tidy.2.add.add⟩
  | some oldInfo => exact h.same (mem_insert_iff (mem_of_lookup_eq_some hlookup)) _

theorem Indexed.deleteLinksOnPort (h : m.Indexed) (ord : DiscoveryOrders) (npt : NodePortTuple) :
    ∃ m', LinkDiscoveryManager.deleteLinksOnPort ord m npt = some m' ∧ m'.Indexed := by
  rw [LinkDiscoveryManager.deleteLinksOnPort]
  cases hlookup : m.portLinks.lookup npt with
  | none => exact ⟨m, rfl, h⟩
  | some links =>
    have hmem := h.listed.2.mem_toList hlookup (ord.portLinks npt)
    exact h.deleteLinks ((ord.portLinks npt).nodup links) (fun l hl => ((hmem l).mp hl).1) []

theorem Indexed.switchRemoved (h : m.Indexed) (ord : DiscoveryOrders) (sw : SwitchId) :
    ∃ m', LinkDiscoveryManager.switchRemoved ord m sw = some m' ∧ m'.Indexed := by
  rw [LinkDiscoveryManager.switchRemoved]
  cases hlookup : m.switchLinks.lookup sw with
  | none => exact ⟨_, rfl, h.same (fun _ => Iff.rfl) _⟩
  | some links =>
    have hmem := h.listed.1.mem_toList hlookup (ord.switchLinks sw)
    exact h.deleteLinks ((ord.switchLinks sw).nodup links) (fun l hl => ((hmem l).mp hl).1) _

theorem Indexed.timeoutLinks (h : m.Indexed) (ord : DiscoveryOrders) (curTime : BitVec 64) :
    ∃ m', LinkDiscoveryManager.timeoutLinks ord m curTime = some m' ∧ m'.Indexed := by
  have hloop := timedOut_loop ord m curTime
  have hnodup := ord.links.nodup m.links.keys
  have hkeys := ord.links.mem_toList m.links.keys
  rw [LinkDiscoveryManager.timeoutLinks]
  generalize ord.links.toList m.links.keys = order at hloop hkeys hnodup ⊢
  generalize order.foldl (timeoutLink curTime) ⟨m.links, m.updates, [], false⟩ = s at hloop ⊢
  -- the loop changes what the table says of its links, not which links it has
  have hmem : ∀ l, l ∈ s.links ↔ l ∈ m.links := by
    intro l
    rw [← lookup_isSome, ← lookup_isSome, hloop.links]
    split <;> simp
  have hindexed := h.same hmem s.updates
  split
  · apply hindexed.deleteLinks
    · rw [hloop.eraseList]
      exact hnodup.filter _
    · intro l hl
      rw [hloop.eraseList] at hl
      exact (hmem l).mpr (mem_keys.mp ((hkeys l).mp (List.mem_of_mem_filter hl)))
  · exact ⟨_, rfl, hindexed⟩

/-- **Every operation** succeeds and keeps the indexes. -/
theorem Indexed.call (h : m.Indexed) (c : DiscoveryOrders × DiscoveryCall) :
    ∃ m', m.call c = some m' ∧ m'.Indexed := by
  obtain ⟨ord, c⟩ := c
  cases c with
  | addOrUpdateLink lt info => exact ⟨_, rfl, h.addOrUpdateLink lt info⟩
  | timeoutLinks curTime => exact h.timeoutLinks ord curTime
  | deleteLinksOnPort npt => exact h.deleteLinksOnPort ord npt
  | switchRemoved sw => exact h.switchRemoved ord sw

end LinkDiscoveryManager

/-- **The indexes of link discovery stay consistent.**  No sequence of
operations raises an exception; afterwards a link is in the table iff it is
listed under both of its switches and both of its ports, and the indexes have
no other link and no empty set. -/
theorem link_indexes_consistent (calls : List (DiscoveryOrders × DiscoveryCall)) :
    ∃ m, calls.foldlM LinkDiscoveryManager.call .empty = some m ∧
      (∀ l, l ∈ m.links ↔
        (l ∈ m.switchLinks.get l.src ∧ l ∈ m.switchLinks.get l.dst) ∧
          l ∈ m.portLinks.get l.srcNpt ∧ l ∈ m.portLinks.get l.dstNpt) ∧
      (∀ sw l, l ∈ m.switchLinks.get sw → l ∈ m.links ∧ (sw = l.src ∨ sw = l.dst)) ∧
      (∀ npt l, l ∈ m.portLinks.get npt → l ∈ m.links ∧ (npt = l.srcNpt ∨ npt = l.dstNpt)) ∧
      m.switchLinks.Tidy ∧ m.portLinks.Tidy := by
  obtain ⟨m, hm, ⟨hswitches, hports⟩, htidy⟩ := foldlM_rule (f := LinkDiscoveryManager.call)
    (l := calls) (fun _ m => m.Indexed) (fun _ c _ _ _ h => h.call c)
    LinkDiscoveryManager.indexed_empty
  refine ⟨m, hm, fun l => ?_, fun sw l => (hswitches sw l).mp, fun npt l => (hports npt l).mp,
    htidy⟩
  rw [hswitches, hswitches, hports, hports]
  simp

end NctuSdn
