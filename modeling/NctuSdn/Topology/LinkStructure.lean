/-
The link structures of `TopologyManager` (`addLinkToStructure`,
`removeLinkFromStructure`, and what `addOrUpdateLink` and `removeLink` do to
the maps).

Four maps are kept: the ports of each switch, all links by port, and the direct
links and the links through broadcast domains, again by port.  What they are
for is to hold two disjoint sets of links.  `Represents` says that they do, and
each operation on the maps is shown to be the obvious one on the two sets.
-/
import NctuSdn.Lib.EndIndex
import NctuSdn.Topology.Link

namespace NctuSdn

open Finset

/-! ### The source -/

def Link.srcNpt (l : Link) : NodePortTuple := ⟨l.src, l.srcPort⟩

def Link.dstNpt (l : Link) : NodePortTuple := ⟨l.dst, l.dstPort⟩

inductive LinkType
  | invalidLink
  | directLink
  | multihopLink
  | tunnel
deriving DecidableEq, Repr

abbrev PortLinks := SetMap NodePortTuple Link

/-- The link structures of `TopologyManager`. -/
structure LinkStructure where
  switchPorts : SetMap SwitchId Port
  switchPortLinks : PortLinks
  directLinks : PortLinks
  portBroadcastDomainLinks : PortLinks
  tunnelPorts : Finset NodePortTuple

def addLinkToStructure (s : PortLinks) (l : Link) : PortLinks := (s.add l.srcNpt l).add l.dstNpt l

/-- What `removeLinkFromStructure` does at one end. -/
def removeLinkAt (s : PortLinks) (npt : NodePortTuple) (l : Link) : PortLinks :=
  (s.sub npt l).drop npt

def removeLinkFromStructure (s : PortLinks) (l : Link) : PortLinks :=
  removeLinkAt (removeLinkAt s l.srcNpt l) l.dstNpt l

namespace LinkStructure

def empty : LinkStructure := ⟨∅, ∅, ∅, ∅, ∅⟩

def addPortToSwitch (ls : LinkStructure) (s : SwitchId) (p : Port) : LinkStructure :=
  { ls with switchPorts := ls.switchPorts.add s p }

/-- What `addOrUpdateLink` does to the maps. -/
def putLink (ls : LinkStructure) (l : Link) : LinkType → LinkStructure
  | .multihopLink =>
    let ls := (ls.addPortToSwitch l.src l.srcPort).addPortToSwitch l.dst l.dstPort
    { ls with
      switchPortLinks := addLinkToStructure ls.switchPortLinks l
      portBroadcastDomainLinks := addLinkToStructure ls.portBroadcastDomainLinks l
      directLinks := removeLinkFromStructure ls.directLinks l }
  | .directLink =>
    let ls := (ls.addPortToSwitch l.src l.srcPort).addPortToSwitch l.dst l.dstPort
    { ls with
      switchPortLinks := addLinkToStructure ls.switchPortLinks l
      directLinks := addLinkToStructure ls.directLinks l
      portBroadcastDomainLinks := removeLinkFromStructure ls.portBroadcastDomainLinks l }
  | _ => ls

/-- Remove a port from its switch if there are no links through it. -/
def removePort (links : PortLinks) (ports : SetMap SwitchId Port) (npt : NodePortTuple) :
    SetMap SwitchId Port :=
  if links.lookup npt = none then ports.sub npt.nodeId npt.portId else ports

/-- What `removeLink` does to the maps. -/
def dropLink (ls : LinkStructure) (l : Link) : LinkStructure :=
  let links := removeLinkFromStructure ls.switchPortLinks l
  let ports := removePort links (removePort links ls.switchPorts l.srcNpt) l.dstNpt
  { ls with
    directLinks := removeLinkFromStructure ls.directLinks l
    portBroadcastDomainLinks := removeLinkFromStructure ls.portBroadcastDomainLinks l
    switchPortLinks := links
    switchPorts := (ports.drop l.src).drop l.dst }

end LinkStructure

/-! ### Sets of links -/

def linksAtPort (L : Finset Link) (npt : NodePortTuple) : Finset Link :=
  L.filter fun l => npt = l.srcNpt ∨ npt = l.dstNpt

/-- The ports of a switch that have a link of `L`. -/
def portsOf (L : Finset Link) (s : SwitchId) : Finset Port :=
  (L.filter fun l => l.src = s).image Link.srcPort ∪
    (L.filter fun l => l.dst = s).image Link.dstPort

section Sets

variable {L : Finset Link} {l l' : Link} {npt : NodePortTuple} {s : SwitchId} {p : Port}

theorem mem_linksAtPort : l ∈ linksAtPort L npt ↔ l ∈ L ∧ (npt = l.srcNpt ∨ npt = l.dstNpt) :=
  mem_filter

theorem mem_portsOf : p ∈ portsOf L s ↔ (linksAtPort L ⟨s, p⟩).Nonempty := by
  unfold portsOf
  rw [mem_union, mem_image, mem_image]
  constructor
  · rintro (⟨l, hl, rfl⟩ | ⟨l, hl, rfl⟩)
    · obtain ⟨hmem, rfl⟩ := mem_filter.mp hl
      exact ⟨l, mem_linksAtPort.mpr ⟨hmem, .inl rfl⟩⟩
    · obtain ⟨hmem, rfl⟩ := mem_filter.mp hl
      exact ⟨l, mem_linksAtPort.mpr ⟨hmem, .inr rfl⟩⟩
  · rintro ⟨l, hl⟩
    obtain ⟨hmem, hend | hend⟩ := mem_linksAtPort.mp hl
    · cases hend
      exact .inl ⟨l, mem_filter.mpr ⟨hmem, rfl⟩, rfl⟩
    · cases hend
      exact .inr ⟨l, mem_filter.mpr ⟨hmem, rfl⟩, rfl⟩

end Sets

/-- A map by ports that holds the links of `L`, each under both of its ends,
and nothing else. -/
structure Indexes (m : PortLinks) (L : Finset Link) : Prop where
  get : ∀ npt, m.get npt = linksAtPort L npt
  tidy : m.Tidy

section Indexes

variable {m : PortLinks} {L : Finset Link} {l : Link}

theorem indexes_empty : Indexes ∅ ∅ :=
  ⟨fun npt => by simp [linksAtPort], SetMap.tidy_empty⟩

theorem Indexes.listed (h : Indexes m L) : ListedByEnds Link.srcNpt Link.dstNpt m (· ∈ L) := by
  intro npt l
  rw [h.get, mem_linksAtPort]

theorem Indexes.of_listed (h : ListedByEnds Link.srcNpt Link.dstNpt m (· ∈ L)) (htidy : m.Tidy) :
    Indexes m L := by
  refine ⟨fun npt => ?_, htidy⟩
  ext l
  rw [h, mem_linksAtPort]

theorem Indexes.add (h : Indexes m L) (l : Link) :
    Indexes (addLinkToStructure m l) (insert l L) :=
  .of_listed ((h.listed.add l).congr fun _ => mem_insert) h.tidy.add.add

theorem Indexes.remove (h : Indexes m L) (l : Link) :
    Indexes (removeLinkFromStructure m l) (L.erase l) :=
  .of_listed ((h.listed.remove l).congr fun _ => mem_erase.trans and_comm)
    h.tidy.sub_drop.sub_drop

theorem Indexes.lookup_eq_none (h : Indexes m L) {npt : NodePortTuple} :
    m.lookup npt = none ↔ linksAtPort L npt = ∅ := by
  rw [h.tidy.lookup_eq, h.get]
  split <;> simp [*]

theorem Indexes.exists_mem_get (h : Indexes m L) {l : Link} :
    (∃ npt, l ∈ m.get npt) ↔ l ∈ L := by
  constructor
  · rintro ⟨npt, hl⟩
    rw [h.get, mem_linksAtPort] at hl
    exact hl.1
  · intro hl
    refine ⟨l.srcNpt, ?_⟩
    rw [h.get, mem_linksAtPort]
    exact ⟨hl, .inl rfl⟩

end Indexes

/-! ### The four maps -/

namespace LinkStructure

/-- The maps hold the direct links `D` and the links through broadcast
domains `B`. -/
structure Represents (ls : LinkStructure) (D B : Finset Link) : Prop where
  disjoint : ∀ l ∈ D, l ∉ B
  all : Indexes ls.switchPortLinks (D ∪ B)
  direct : Indexes ls.directLinks D
  broadcast : Indexes ls.portBroadcastDomainLinks B
  ports : ∀ s, ls.switchPorts.get s = portsOf (D ∪ B) s
  tidy : ls.switchPorts.Tidy

variable {ls : LinkStructure} {D B : Finset Link} {l : Link}

theorem represents_empty : empty.Represents ∅ ∅ where
  disjoint := fun l hl => absurd hl (notMem_empty l)
  all := indexes_empty
  direct := indexes_empty
  broadcast := indexes_empty
  ports := fun s => by simp [empty, portsOf]
  tidy := SetMap.tidy_empty

theorem get_addPorts {m : SetMap SwitchId Port} {L : Finset Link} (h : ∀ s, m.get s = portsOf L s)
    (l : Link) (s : SwitchId) :
    ((m.add l.src l.srcPort).add l.dst l.dstPort).get s = portsOf (insert l L) s := by
  ext p
  rw [SetMap.mem_get_add, SetMap.mem_get_add, h, mem_portsOf, mem_portsOf]
  constructor
  · rintro ((⟨l', hl'⟩ | ⟨rfl, rfl⟩) | ⟨rfl, rfl⟩)
    · obtain ⟨hmem, hend⟩ := mem_linksAtPort.mp hl'
      exact ⟨l', mem_linksAtPort.mpr ⟨mem_insert_of_mem hmem, hend⟩⟩
    · exact ⟨l, mem_linksAtPort.mpr ⟨mem_insert_self _ _, .inl rfl⟩⟩
    · exact ⟨l, mem_linksAtPort.mpr ⟨mem_insert_self _ _, .inr rfl⟩⟩
  · rintro ⟨l', hl'⟩
    obtain ⟨hmem, hend⟩ := mem_linksAtPort.mp hl'
    rcases mem_insert.mp hmem with rfl | hmem
    · rcases hend with hend | hend
      · cases hend
        exact .inl (.inr ⟨rfl, rfl⟩)
      · cases hend
        exact .inr ⟨rfl, rfl⟩
    · exact .inl (.inl ⟨l', mem_linksAtPort.mpr ⟨hmem, hend⟩⟩)

theorem Represents.putDirect (h : ls.Represents D B) (l : Link) :
    (ls.putLink l .directLink).Represents (insert l D) (B.erase l) := by
  have hunion : insert l D ∪ B.erase l = insert l (D ∪ B) := by
    ext l'
    simp only [mem_union, mem_insert, mem_erase]
    tauto
  refine ⟨fun l' hl' => ?_, ?_, h.direct.add l, h.broadcast.remove l, fun s => ?_, h.tidy.add.add⟩
  · rcases mem_insert.mp hl' with rfl | hl'
    · exact notMem_erase _ _
    · exact fun hmem => h.disjoint l' hl' (mem_of_mem_erase hmem)
  · rw [hunion]
    exact h.all.add l
  · rw [hunion]
    exact get_addPorts h.ports l s

theorem Represents.putMultihop (h : ls.Represents D B) (l : Link) :
    (ls.putLink l .multihopLink).Represents (D.erase l) (insert l B) := by
  have hunion : D.erase l ∪ insert l B = insert l (D ∪ B) := by
    ext l'
    simp only [mem_union, mem_insert, mem_erase]
    tauto
  refine ⟨fun l' hl' hmem => ?_, ?_, h.direct.remove l, h.broadcast.add l, fun s => ?_,
    h.tidy.add.add⟩
  · obtain ⟨hne, hl'⟩ := mem_erase.mp hl'
    exact h.disjoint l' hl' (mem_of_mem_insert_of_ne hmem hne)
  · rw [hunion]
    exact h.all.add l
  · rw [hunion]
    exact get_addPorts h.ports l s

section Remove

variable {links : PortLinks} {ports : SetMap SwitchId Port} {npt : NodePortTuple} {s : SwitchId}
  {p : Port} {L : Finset Link}

theorem mem_removePort : p ∈ (removePort links ports npt).get s ↔
    p ∈ ports.get s ∧ ¬ (links.lookup npt = none ∧ npt = ⟨s, p⟩) := by
  have hnpt : (s = npt.nodeId ∧ p = npt.portId) ↔ npt = ⟨s, p⟩ := by
    obtain ⟨s', p'⟩ := npt
    simp [eq_comm]
  unfold removePort
  split
  case isTrue h =>
    rw [SetMap.mem_get_sub, hnpt]
    simp [h]
  case isFalse h => simp [h]

theorem lookup_removePort_of_ne (h : s ≠ npt.nodeId) :
    (removePort links ports npt).lookup s = ports.lookup s := by
  unfold removePort
  split
  · rw [SetMap.lookup_sub, if_neg h]
  · rfl

/-- The ports after a link is removed: those of its ends go if they have no
other link. -/
theorem mem_removePorts (hports : ∀ s, ports.get s = portsOf L s)
    (hlinks : Indexes links (L.erase l)) :
    p ∈ (removePort links (removePort links ports l.srcNpt) l.dstNpt).get s ↔
      p ∈ portsOf (L.erase l) s := by
  rw [mem_removePort, mem_removePort, hports, hlinks.lookup_eq_none, hlinks.lookup_eq_none,
    mem_portsOf, mem_portsOf]
  constructor
  · rintro ⟨⟨⟨l', hl'⟩, hsrc⟩, hdst⟩
    obtain ⟨hmem, hend⟩ := mem_linksAtPort.mp hl'
    by_cases hl : l' = l
    · -- the port is an end of the link that goes
      subst hl
      rw [nonempty_iff_ne_empty]
      intro hempty
      rcases hend with heq | heq
      · exact hsrc ⟨heq ▸ hempty, heq.symm⟩
      · exact hdst ⟨heq ▸ hempty, heq.symm⟩
    · exact ⟨l', mem_linksAtPort.mpr ⟨mem_erase.mpr ⟨hl, hmem⟩, hend⟩⟩
  · rintro ⟨l', hl'⟩
    obtain ⟨hmem, hend⟩ := mem_linksAtPort.mp hl'
    refine ⟨⟨⟨l', mem_linksAtPort.mpr ⟨mem_of_mem_erase hmem, hend⟩⟩, ?_⟩, ?_⟩
    · rintro ⟨hempty, heq⟩
      rw [heq] at hempty
      exact absurd hl' (hempty ▸ notMem_empty l')
    · rintro ⟨hempty, heq⟩
      rw [heq] at hempty
      exact absurd hl' (hempty ▸ notMem_empty l')

theorem Represents.drop (h : ls.Represents D B) (l : Link) :
    (ls.dropLink l).Represents (D.erase l) (B.erase l) := by
  have hunion : D.erase l ∪ B.erase l = (D ∪ B).erase l := (erase_union_distrib D B l).symm
  have hlinks : Indexes (removeLinkFromStructure ls.switchPortLinks l) ((D ∪ B).erase l) :=
    h.all.remove l
  refine ⟨fun l' hl' hmem => ?_, hunion ▸ hlinks, h.direct.remove l, h.broadcast.remove l,
    fun s => ?_, ?_⟩
  · exact h.disjoint l' (mem_of_mem_erase hl') (mem_of_mem_erase hmem)
  · rw [hunion]
    ext p
    unfold dropLink
    rw [SetMap.get_drop, SetMap.get_drop]
    exact mem_removePorts h.ports hlinks
  · -- only the two switches of the link may have lost their last port
    refine SetMap.tidy_drop fun s hs => ?_
    rw [SetMap.lookup_drop]
    split
    · simp
    case isFalse hnot =>
      by_cases hsrc : s = l.src
      · subst hsrc
        exact fun hempty => hnot ⟨rfl, hempty⟩
      · have hkeep : ∀ links ports, (removePort links ports l.dstNpt).lookup s = ports.lookup s :=
          fun _ _ => lookup_removePort_of_ne hs
        rw [hkeep, lookup_removePort_of_ne hsrc]
        exact h.tidy s

end Remove

/-! ### What the maps say -/

/-- The maps agree with one another. -/
structure Consistent (ls : LinkStructure) : Prop where
  ends : ∀ npt, ∀ l ∈ ls.switchPortLinks.get npt, npt = l.srcNpt ∨ npt = l.dstNpt
  both : ∀ l, l ∈ ls.switchPortLinks.get l.srcNpt ↔ l ∈ ls.switchPortLinks.get l.dstNpt
  tidyLinks : ls.switchPortLinks.Tidy ∧ ls.directLinks.Tidy ∧ ls.portBroadcastDomainLinks.Tidy
  split : ∀ npt l, l ∈ ls.switchPortLinks.get npt ↔
    l ∈ ls.directLinks.get npt ∨ l ∈ ls.portBroadcastDomainLinks.get npt
  notBoth : ∀ npt npt' l, l ∈ ls.directLinks.get npt → l ∉ ls.portBroadcastDomainLinks.get npt'
  bothDirect : ∀ l, l ∈ ls.directLinks.get l.srcNpt ↔ l ∈ ls.directLinks.get l.dstNpt
  bothBroadcast : ∀ l, l ∈ ls.portBroadcastDomainLinks.get l.srcNpt ↔
    l ∈ ls.portBroadcastDomainLinks.get l.dstNpt
  ports : ∀ s p, p ∈ ls.switchPorts.get s ↔ (⟨s, p⟩ : NodePortTuple) ∈ ls.switchPortLinks
  tidyPorts : ls.switchPorts.Tidy

/-- No map has a key at the switch or a link of it. -/
structure Forgets (ls : LinkStructure) (s : SwitchId) : Prop where
  switch : s ∉ ls.switchPorts
  keys : ∀ p, (⟨s, p⟩ : NodePortTuple) ∉ ls.switchPortLinks ∧
    (⟨s, p⟩ : NodePortTuple) ∉ ls.directLinks ∧
    (⟨s, p⟩ : NodePortTuple) ∉ ls.portBroadcastDomainLinks
  links : ∀ npt l, l ∈ ls.switchPortLinks.get npt ∨ l ∈ ls.directLinks.get npt ∨
    l ∈ ls.portBroadcastDomainLinks.get npt → l.src ≠ s ∧ l.dst ≠ s

theorem both_of_indexes {m : PortLinks} {L : Finset Link} (h : Indexes m L) (l : Link) :
    l ∈ m.get l.srcNpt ↔ l ∈ m.get l.dstNpt := by
  rw [h.get, h.get, mem_linksAtPort, mem_linksAtPort]
  simp

theorem Represents.consistent (h : ls.Represents D B) : ls.Consistent where
  ends := fun npt l hl => by
    rw [h.all.get, mem_linksAtPort] at hl
    exact hl.2
  both := both_of_indexes h.all
  tidyLinks := ⟨h.all.tidy, h.direct.tidy, h.broadcast.tidy⟩
  split := fun npt l => by
    rw [h.all.get, h.direct.get, h.broadcast.get, mem_linksAtPort, mem_linksAtPort,
      mem_linksAtPort, mem_union, or_and_right]
  notBoth := fun npt npt' l hl hl' => by
    rw [h.direct.get, mem_linksAtPort] at hl
    rw [h.broadcast.get, mem_linksAtPort] at hl'
    exact h.disjoint l hl.1 hl'.1
  bothDirect := both_of_indexes h.direct
  bothBroadcast := both_of_indexes h.broadcast
  ports := fun s p => by
    rw [h.ports, mem_portsOf, h.all.tidy.mem_iff, h.all.get]
  tidyPorts := h.tidy

theorem notMem_of_indexes {m : PortLinks} {L : Finset Link} {s : SwitchId} (h : Indexes m L)
    (hs : ∀ l ∈ L, l.src ≠ s ∧ l.dst ≠ s) (p : Port) : (⟨s, p⟩ : NodePortTuple) ∉ m := by
  rw [h.tidy.mem_iff, h.get]
  rintro ⟨l, hl⟩
  obtain ⟨hmem, hend | hend⟩ := mem_linksAtPort.mp hl
  · exact (hs l hmem).1 (congrArg NodePortTuple.nodeId hend).symm
  · exact (hs l hmem).2 (congrArg NodePortTuple.nodeId hend).symm

theorem Represents.forgets {s : SwitchId} (h : ls.Represents D B)
    (hs : ∀ l ∈ D ∪ B, l.src ≠ s ∧ l.dst ≠ s) : ls.Forgets s where
  switch := by
    rw [h.tidy.mem_iff, h.ports]
    rintro ⟨p, hp⟩
    rw [mem_portsOf, ← h.all.get, ← h.all.tidy.mem_iff] at hp
    exact notMem_of_indexes h.all hs p hp
  keys := fun p => ⟨notMem_of_indexes h.all hs p,
    notMem_of_indexes h.direct (fun l hl => hs l (mem_union_left _ hl)) p,
    notMem_of_indexes h.broadcast (fun l hl => hs l (mem_union_right _ hl)) p⟩
  links := by
    intro npt l hl
    rw [h.all.get, h.direct.get, h.broadcast.get, mem_linksAtPort, mem_linksAtPort,
      mem_linksAtPort] at hl
    refine hs l (mem_union.mpr ?_)
    rcases hl with hl | hl | hl
    · exact mem_union.mp hl.1
    · exact .inl hl.1
    · exact .inr hl.1

end LinkStructure

end NctuSdn
