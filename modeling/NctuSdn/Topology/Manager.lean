/-
`TopologyManager` with its link structures and its instances
(`createNewInstance`, `addOrUpdateLink`, `removeLink`, `removeSwitch`).

Every change of the links forgets the traffic and computes the three instances
anew, so a call is over only when they are computed.  `none` stands for an
exception.  The order in which the hash tables are iterated is a parameter
that may depend on their contents (`ManagerOrders`).
-/
import NctuSdn.Topology.LinkStructure
import NctuSdn.Topology.Reroute
import NctuSdn.Topology.Routing

namespace NctuSdn

open Finset Option

/-! ### Instances of the link structures -/

/-- The orders in which the hash tables of `TopologyManager` and of its
instances are iterated. -/
structure ManagerOrders extends HashOrders where
  switches : SetOrder SwitchId
  ports : SwitchId → SetOrder Port
  portLinks : NodePortTuple → SetOrder Link
  nodePorts : SetOrder NodePortTuple
  allLinks : SetOrder Link

namespace LinkStructure

/-- A port that has more than two links, or two that are not the two
directions of one. -/
def isMultiLinkPort : List Link → Bool
  | [] => false
  | [_] => false
  | [l1, l2] => l1.src != l2.dst || l1.srcPort != l2.dstPort || l1.dst != l2.src ||
      l1.dstPort != l2.srcPort
  | _ => true

def identifyBroadcastDomainPorts (ord : ManagerOrders) (ls : LinkStructure) :
    Finset NodePortTuple :=
  ls.portBroadcastDomainLinks.keys ∪ ls.switchPortLinks.keys.filter fun npt =>
    isMultiLinkPort ((ord.portLinks npt).toList (ls.switchPortLinks.get npt))

/-- The loops that remove all links incident on some ports. -/
def removeIncident (ord : ManagerOrders) (ls : LinkStructure) (ports : List NodePortTuple)
    (openflowLinks : PortLinks) : PortLinks :=
  ports.foldl (fun openflowLinks npt =>
    ((ord.portLinks npt).toList (ls.switchPortLinks.get npt)).foldl removeLinkFromStructure
      openflowLinks) openflowLinks

/-- `openflowLinks` of `createNewInstance`: the links at broadcast domain ports
and at tunnel ports are left out. -/
def openflowLinks (ord : ManagerOrders) (ls : LinkStructure) : PortLinks :=
  removeIncident ord ls (ord.nodePorts.toList ls.tunnelPorts)
    (removeIncident ord ls (ord.nodePorts.toList (ls.identifyBroadcastDomainPorts ord))
      ls.switchPortLinks)

def newInstance (ord : ManagerOrders) (ls : LinkStructure) : TopologyInstance where
  switches := ord.switches.toList ls.switchPorts.keys
  switchPorts := fun sw => (ord.ports sw).toList (ls.switchPorts.get sw)
  switchPortLinks := fun npt => (ord.portLinks npt).toList ((ls.openflowLinks ord).get npt)
  blockedPorts := []
  broadcastDomainPorts := ord.nodePorts.toList (ls.identifyBroadcastDomainPorts ord)

end LinkStructure

/-! ### The calls -/

abbrev LinkManager := TopologyManager LinkStructure ComputedInstance

namespace LinkManager

def createNewInstance (ord : LinkStructure → ManagerOrders) (tm : LinkManager) :
    Option LinkManager :=
  if tm.linksUpdated then do
    let t := tm.links.newInstance (ord tm.links)
    let nt0 ← compute (ord tm.links).toHashOrders t tm.accounts.traffic 0
    let nt1 ← compute (ord tm.links).toHashOrders t tm.accounts.traffic 1
    let nt2 ← compute (ord tm.links).toHashOrders t tm.accounts.traffic 2
    pure { tm with tiMap := fun p => (priorityIndex p).map fun
      | 0 => nt0
      | 1 => nt1
      | 2 => nt2 }
  else some tm

def resetTraffic (ord : LinkStructure → ManagerOrders) (tm : LinkManager) : Option LinkManager :=
  createNewInstance ord { tm with
    accounts := TrafficState.resetTraffic
    matchPriority := fun _ => none
    forceClearSwitchID := fun _ => false }

/-- `addOrUpdateLink`.  A tunnel link is left to a method that does nothing. -/
def addOrUpdateLink (ord : LinkStructure → ManagerOrders) (tm : LinkManager) (l : Link)
    (type : LinkType) : Option LinkManager :=
  match type with
  | .directLink | .multihopLink =>
    resetTraffic ord { tm with links := tm.links.putLink l type, linksUpdated := true }
  | _ => some tm

def removeLink (ord : LinkStructure → ManagerOrders) (tm : LinkManager) (l : Link) :
    Option LinkManager :=
  resetTraffic ord { tm with links := tm.links.dropLink l, linksUpdated := true }

/-- The loop of `removeSwitch` over the tunnel ports.  Removing one makes the
iterator fail, unless it was the last. -/
def removeTunnelPorts (sid : SwitchId) :
    List NodePortTuple → Finset NodePortTuple → Option (Finset NodePortTuple)
  | [], tunnelPorts => some tunnelPorts
  | [npt], tunnelPorts => some (if npt.nodeId = sid then tunnelPorts.erase npt else tunnelPorts)
  | npt :: npts, tunnelPorts =>
    if npt.nodeId = sid then none else removeTunnelPorts sid npts tunnelPorts

/-- The links at the ports of a switch; null is added if one has none. -/
def linksToRemove (ls : LinkStructure) (sid : SwitchId) (ports : List Port) :
    Option (Finset Link) :=
  ports.foldlM (fun linksToRemove p =>
    (ls.switchPortLinks.lookup ⟨sid, p⟩).map (linksToRemove ∪ ·)) ∅

def removeSwitch (ord : LinkStructure → ManagerOrders) (tm : LinkManager) (sid : SwitchId) :
    Option LinkManager :=
  if sid ∉ tm.links.switchPorts then some tm
  else do
    let tunnelPorts ← removeTunnelPorts sid
      ((ord tm.links).nodePorts.toList tm.links.tunnelPorts) tm.links.tunnelPorts
    let tm := { tm with links := { tm.links with tunnelPorts := tunnelPorts } }
    let links ← linksToRemove tm.links sid
      (((ord tm.links).ports sid).toList (tm.links.switchPorts.get sid))
    ((ord tm.links).allLinks.toList links).foldlM (removeLink ord) tm

end LinkManager

/-- The calls that change the links. -/
inductive LinkCall
  | addOrUpdateLink (l : Link) (type : LinkType)
  | removeLink (l : Link)
  | removeSwitch (sid : SwitchId)
deriving DecidableEq, Repr

def LinkManager.call (tm : LinkManager) (c : (LinkStructure → ManagerOrders) × LinkCall) :
    Option LinkManager :=
  match c.2 with
  | .addOrUpdateLink l type => addOrUpdateLink c.1 tm l type
  | .removeLink l => removeLink c.1 tm l
  | .removeSwitch sid => removeSwitch c.1 tm sid

/-! ### The links of an instance -/

/-- The links of `L` with no end among some ports. -/
def linksOff (L : Finset Link) (ports : Finset NodePortTuple) : Finset Link :=
  L.filter fun l => l.srcNpt ∉ ports ∧ l.dstNpt ∉ ports

theorem mem_linksOff {L : Finset Link} {ports : Finset NodePortTuple} {l : Link} :
    l ∈ linksOff L ports ↔ l ∈ L ∧ l.srcNpt ∉ ports ∧ l.dstNpt ∉ ports :=
  mem_filter

namespace LinkStructure

section Incident

variable {ls : LinkStructure} {L L₀ : Finset Link} {m : PortLinks}

theorem foldl_remove (xs : List Link) (h : Indexes m L₀) :
    Indexes (xs.foldl removeLinkFromStructure m) (L₀ \ xs.toFinset) := by
  induction xs generalizing m L₀ with
  | nil => simpa using h
  | cons x xs ih =>
    have hset : L₀ \ (x :: xs).toFinset = L₀.erase x \ xs.toFinset := by
      ext l
      simp only [mem_sdiff, List.toFinset_cons, mem_insert, mem_erase]
      tauto
    rw [hset]
    exact ih (h.remove x)

theorem indexes_removeIncident (ord : ManagerOrders) (hall : Indexes ls.switchPortLinks L)
    (ports : List NodePortTuple) (hsub : L₀ ⊆ L) (h : Indexes m L₀) :
    Indexes (removeIncident ord ls ports m) (linksOff L₀ ports.toFinset) := by
  induction ports generalizing m L₀ with
  | nil =>
    have hset : linksOff L₀ ([] : List NodePortTuple).toFinset = L₀ := by
      ext l
      simp [mem_linksOff]
    rw [hset]
    exact h
  | cons npt ports ih =>
    have hset : linksOff L₀ (npt :: ports).toFinset =
        linksOff (L₀ \ ((ord.portLinks npt).toList (ls.switchPortLinks.get npt)).toFinset)
          ports.toFinset := by
      ext l
      simp only [mem_linksOff, mem_sdiff, List.mem_toFinset, SetOrder.mem_toList,
        hall.get, mem_linksAtPort, List.mem_cons]
      constructor
      · rintro ⟨hl, hsrc, hdst⟩
        refine ⟨⟨hl, fun hmem => ?_⟩, fun hmem => hsrc (.inr hmem), fun hmem => hdst (.inr hmem)⟩
        rcases hmem.2 with heq | heq
        · exact hsrc (.inl heq.symm)
        · exact hdst (.inl heq.symm)
      · rintro ⟨⟨hl, hnot⟩, hsrc, hdst⟩
        refine ⟨hl, fun hmem => ?_, fun hmem => ?_⟩
        · exact hmem.elim (fun heq => hnot ⟨hsub hl, .inl heq.symm⟩) hsrc
        · exact hmem.elim (fun heq => hnot ⟨hsub hl, .inr heq.symm⟩) hdst
    rw [hset]
    exact ih (sdiff_subset.trans hsub) (foldl_remove _ h)

/-- **Which links an instance is made of.** -/
theorem indexes_openflowLinks (ord : ManagerOrders) (hall : Indexes ls.switchPortLinks L) :
    Indexes (ls.openflowLinks ord)
      (linksOff L (ls.identifyBroadcastDomainPorts ord ∪ ls.tunnelPorts)) := by
  have hlist : ∀ s : Finset NodePortTuple, (ord.nodePorts.toList s).toFinset = s := by
    intro s
    ext npt
    rw [List.mem_toFinset, ord.nodePorts.mem_toList]
  have hset : linksOff L (ls.identifyBroadcastDomainPorts ord ∪ ls.tunnelPorts) =
      linksOff (linksOff L (ls.identifyBroadcastDomainPorts ord)) ls.tunnelPorts := by
    ext l
    simp only [mem_linksOff, mem_union]
    tauto
  have hfirst := indexes_removeIncident ord hall
    (ord.nodePorts.toList (ls.identifyBroadcastDomainPorts ord)) subset_rfl hall
  have hsecond := indexes_removeIncident ord hall (ord.nodePorts.toList ls.tunnelPorts)
    (filter_subset _ _) hfirst
  rw [hlist, hlist] at hsecond
  rw [hset]
  exact hsecond

end Incident

variable {ls : LinkStructure} {D B : Finset Link}

section

variable (h : ls.Represents D B) (ord : ManagerOrders)
include h

theorem mem_newInstance_switchPortLinks {npt : NodePortTuple} {l : Link} :
    l ∈ (ls.newInstance ord).switchPortLinks npt ↔
      l ∈ linksOff (D ∪ B) (ls.identifyBroadcastDomainPorts ord ∪ ls.tunnelPorts) ∧
        (npt = l.srcNpt ∨ npt = l.dstNpt) := by
  unfold newInstance
  rw [(ord.portLinks npt).mem_toList, (indexes_openflowLinks ord h.all).get, mem_linksAtPort]

theorem mem_newInstance_switches {s : SwitchId} :
    s ∈ (ls.newInstance ord).switches ↔ ∃ l ∈ D ∪ B, l.src = s ∨ l.dst = s := by
  unfold newInstance
  rw [ord.switches.mem_toList, Finmap.mem_keys, h.tidy.mem_iff, h.ports]
  constructor
  · rintro ⟨p, hp⟩
    obtain ⟨l, hl⟩ := mem_portsOf.mp hp
    obtain ⟨hmem, hend | hend⟩ := mem_linksAtPort.mp hl
    · exact ⟨l, hmem, .inl (congrArg NodePortTuple.nodeId hend).symm⟩
    · exact ⟨l, hmem, .inr (congrArg NodePortTuple.nodeId hend).symm⟩
  · rintro ⟨l, hmem, rfl | rfl⟩
    · exact ⟨l.srcPort, mem_portsOf.mpr ⟨l, mem_linksAtPort.mpr ⟨hmem, .inl rfl⟩⟩⟩
    · exact ⟨l.dstPort, mem_portsOf.mpr ⟨l, mem_linksAtPort.mpr ⟨hmem, .inr rfl⟩⟩⟩

theorem newInstance_closed :
    (ls.newInstance ord).Closed := by
  intro v l hl _ _
  obtain ⟨p, -, hl⟩ := TopologyInstance.mem_linksAt.mp hl
  have hmem := (mem_linksOff.mp ((mem_newInstance_switchPortLinks h ord).mp hl).1).1
  exact (mem_newInstance_switches h ord).mpr ⟨l, hmem, .inr rfl⟩

end

end LinkStructure

/-! ### No call fails -/

namespace LinkManager

/-- The links are represented, and there are no tunnel ports. -/
def Sound (tm : LinkManager) (D B : Finset Link) : Prop :=
  tm.links.Represents D B ∧ tm.links.tunnelPorts = ∅

variable {tm : LinkManager} {D B : Finset Link}

section

variable (ord : LinkStructure → ManagerOrders) (tm : LinkManager) (h : tm.links.Represents D B)
include h

theorem createNewInstance_returns :
    ∃ tm', createNewInstance ord tm = some tm' ∧ tm'.links = tm.links := by
  unfold createNewInstance
  split
  · have hclosed := LinkStructure.newInstance_closed h (ord tm.links)
    obtain ⟨nt0, h0⟩ := compute_returns hclosed (ord tm.links).toHashOrders tm.accounts.traffic 0
    obtain ⟨nt1, h1⟩ := compute_returns hclosed (ord tm.links).toHashOrders tm.accounts.traffic 1
    obtain ⟨nt2, h2⟩ := compute_returns hclosed (ord tm.links).toHashOrders tm.accounts.traffic 2
    dsimp only
    rw [h0, h1, h2]
    exact ⟨_, rfl, rfl⟩
  · exact ⟨tm, rfl, rfl⟩

theorem resetTraffic_returns :
    ∃ tm', resetTraffic ord tm = some tm' ∧ tm'.links = tm.links :=
  createNewInstance_returns ord _ h

end

theorem tunnelPorts_putLink (ls : LinkStructure) (l : Link) (type : LinkType) :
    (ls.putLink l type).tunnelPorts = ls.tunnelPorts := by
  cases type <;> rfl

def putSets (D B : Finset Link) (l : Link) : LinkType → Finset Link × Finset Link
  | .directLink => (insert l D, B.erase l)
  | .multihopLink => (D.erase l, insert l B)
  | _ => (D, B)

theorem addOrUpdateLink_returns (ord : LinkStructure → ManagerOrders) (h : Sound tm D B)
    (l : Link) (type : LinkType) :
    ∃ tm', addOrUpdateLink ord tm l type = some tm' ∧
      Sound tm' (putSets D B l type).1 (putSets D B l type).2 := by
  have hput : (tm.links.putLink l type).Represents (putSets D B l type).1
      (putSets D B l type).2 := by
    cases type with
    | directLink => exact h.1.putDirect l
    | multihopLink => exact h.1.putMultihop l
    | invalidLink | tunnel => exact h.1
  have hreset : ∃ tm', resetTraffic ord
      { tm with links := tm.links.putLink l type, linksUpdated := true } = some tm' ∧
      Sound tm' (putSets D B l type).1 (putSets D B l type).2 := by
    obtain ⟨tm', htm', hlinks⟩ := resetTraffic_returns ord
      { tm with links := tm.links.putLink l type, linksUpdated := true } hput
    refine ⟨tm', htm', ?_, ?_⟩
    · rw [hlinks]
      exact hput
    · rw [hlinks]
      exact (tunnelPorts_putLink _ l type).trans h.2
  cases type with
  | directLink | multihopLink => exact hreset
  | invalidLink | tunnel => exact ⟨tm, rfl, h⟩

theorem removeLink_returns (ord : LinkStructure → ManagerOrders) (h : Sound tm D B) (l : Link) :
    ∃ tm', removeLink ord tm l = some tm' ∧ Sound tm' (D.erase l) (B.erase l) := by
  obtain ⟨tm', htm', hlinks⟩ := resetTraffic_returns ord
    { tm with links := tm.links.dropLink l, linksUpdated := true } (h.1.drop l)
  refine ⟨tm', htm', ?_, ?_⟩
  · rw [hlinks]
    exact h.1.drop l
  · rw [hlinks]
    exact h.2

theorem linksToRemove_eq (h : Sound tm D B) (sid : SwitchId) (ports : List Port)
    (hports : ∀ p ∈ ports, p ∈ portsOf (D ∪ B) sid) :
    ∃ links, linksToRemove tm.links sid ports = some links ∧
      ∀ l, l ∈ links ↔ ∃ p ∈ ports, l ∈ linksAtPort (D ∪ B) ⟨sid, p⟩ := by
  obtain ⟨links, hlinks, hmem⟩ := foldlM_rule
    (f := fun linksToRemove p =>
      (tm.links.switchPortLinks.lookup ⟨sid, p⟩).map (linksToRemove ∪ ·)) (l := ports)
    (fun done (links : Finset Link) =>
      ∀ l, l ∈ links ↔ ∃ p ∈ done, l ∈ linksAtPort (D ∪ B) ⟨sid, p⟩)
    (fun done p rest links hsplit hlinks => by
      have hp := mem_portsOf.mp (hports p (by simp [hsplit]))
      have hlookup : tm.links.switchPortLinks.lookup ⟨sid, p⟩ =
          some (linksAtPort (D ∪ B) ⟨sid, p⟩) := by
        rw [h.1.all.tidy.lookup_eq, h.1.all.get, if_neg hp.ne_empty]
      refine ⟨links ∪ linksAtPort (D ∪ B) ⟨sid, p⟩, by rw [hlookup]; rfl, fun l => ?_⟩
      rw [mem_union, hlinks]
      simp [or_and_right, exists_or])
    (s := ∅) (by simp)
  exact ⟨links, hlinks, hmem⟩

theorem foldlM_removeLink (ord : LinkStructure → ManagerOrders) (h : Sound tm D B)
    (links : List Link) :
    ∃ tm', links.foldlM (removeLink ord) tm = some tm' ∧
      Sound tm' (D \ links.toFinset) (B \ links.toFinset) := by
  have hset : ∀ (L : Finset Link) (done : List Link) (l : Link),
      (L \ done.toFinset).erase l = L \ (done ++ [l]).toFinset := by
    intro L done l
    ext l'
    simp only [mem_erase, mem_sdiff, List.mem_toFinset, List.mem_append,
      List.mem_singleton]
    tauto
  refine foldlM_rule (f := removeLink ord) (l := links)
    (fun done tm' => Sound tm' (D \ done.toFinset) (B \ done.toFinset))
    (fun done l rest tm' _ h' => ?_) (s := tm) (by simpa using h)
  obtain ⟨tm'', htm'', hsound⟩ := removeLink_returns ord h' l
  rw [hset, hset] at hsound
  exact ⟨tm'', htm'', hsound⟩

/-- The links of `L` that do not touch a switch. -/
def linksAway (L : Finset Link) (sid : SwitchId) : Finset Link :=
  L.filter fun l => l.src ≠ sid ∧ l.dst ≠ sid

theorem linksAway_of_notMem (h : tm.links.Represents D B) {sid : SwitchId}
    (hsid : sid ∉ tm.links.switchPorts) : linksAway D sid = D ∧ linksAway B sid = B := by
  have hnone : ∀ l ∈ D ∪ B, l.src ≠ sid ∧ l.dst ≠ sid := by
    intro l hl
    rw [h.tidy.mem_iff, h.ports] at hsid
    constructor
    · rintro rfl
      exact hsid ⟨l.srcPort, mem_portsOf.mpr ⟨l, mem_linksAtPort.mpr ⟨hl, .inl rfl⟩⟩⟩
    · rintro rfl
      exact hsid ⟨l.dstPort, mem_portsOf.mpr ⟨l, mem_linksAtPort.mpr ⟨hl, .inr rfl⟩⟩⟩
  exact ⟨filter_true_of_mem fun l hl => hnone l (mem_union_left _ hl),
    filter_true_of_mem fun l hl => hnone l (mem_union_right _ hl)⟩

theorem removeSwitch_returns (ord : LinkStructure → ManagerOrders) (h : Sound tm D B)
    (sid : SwitchId) :
    ∃ tm', removeSwitch ord tm sid = some tm' ∧ Sound tm' (linksAway D sid) (linksAway B sid) := by
  unfold removeSwitch
  split
  case isTrue hsid =>
    obtain ⟨hD, hB⟩ := linksAway_of_notMem h.1 hsid
    exact ⟨tm, rfl, hD.symm ▸ hB.symm ▸ h⟩
  case isFalse =>
    -- there is no tunnel port to remove
    have hnil : (ord tm.links).nodePorts.toList tm.links.tunnelPorts = [] := by
      refine List.eq_nil_iff_forall_not_mem.mpr fun npt hnpt => ?_
      rw [(ord tm.links).nodePorts.mem_toList, h.2] at hnpt
      exact absurd hnpt (notMem_empty npt)
    have hsame : { tm with links := { tm.links with tunnelPorts := tm.links.tunnelPorts } } = tm :=
      rfl
    rw [hnil]
    simp only [removeTunnelPorts, bind_eq_bind, bind_some, hsame]
    have hports : ∀ p, p ∈ ((ord tm.links).ports sid).toList (tm.links.switchPorts.get sid) ↔
        p ∈ portsOf (D ∪ B) sid := by
      intro p
      rw [((ord tm.links).ports sid).mem_toList, h.1.ports]
    obtain ⟨links, hlinks, hmem⟩ := linksToRemove_eq h sid _ fun p hp => (hports p).mp hp
    rw [hlinks, bind_some]
    obtain ⟨tm', htm', hsound⟩ := foldlM_removeLink ord h ((ord tm.links).allLinks.toList links)
    refine ⟨tm', htm', ?_⟩
    -- what is removed are the links that touch the switch
    have htouch : ∀ l ∈ D ∪ B, l ∈ links ↔ ¬ (l.src ≠ sid ∧ l.dst ≠ sid) := by
      intro l hl
      rw [hmem, not_and_or, not_not, not_not]
      constructor
      · rintro ⟨p, -, hlp⟩
        rcases (mem_linksAtPort.mp hlp).2 with heq | heq
        · exact .inl (congrArg NodePortTuple.nodeId heq).symm
        · exact .inr (congrArg NodePortTuple.nodeId heq).symm
      · rintro (rfl | rfl)
        · have hlp : l ∈ linksAtPort (D ∪ B) ⟨l.src, l.srcPort⟩ :=
            mem_linksAtPort.mpr ⟨hl, .inl rfl⟩
          exact ⟨l.srcPort, (hports _).mpr (mem_portsOf.mpr ⟨l, hlp⟩), hlp⟩
        · have hlp : l ∈ linksAtPort (D ∪ B) ⟨l.dst, l.dstPort⟩ :=
            mem_linksAtPort.mpr ⟨hl, .inr rfl⟩
          exact ⟨l.dstPort, (hports _).mpr (mem_portsOf.mpr ⟨l, hlp⟩), hlp⟩
    have haway : ∀ L ⊆ D ∪ B, L \ ((ord tm.links).allLinks.toList links).toFinset =
        linksAway L sid := by
      intro L hL
      ext l
      rw [mem_sdiff, List.mem_toFinset, (ord tm.links).allLinks.mem_toList, linksAway,
        mem_filter]
      exact and_congr_right fun hl => by rw [htouch l (hL hl), not_not]
    rwa [haway D subset_union_left, haway B subset_union_right] at hsound

/-- **One call.** -/
theorem call_returns (h : ∃ D B, Sound tm D B) (c : (LinkStructure → ManagerOrders) × LinkCall) :
    ∃ tm', tm.call c = some tm' ∧ ∃ D B, Sound tm' D B := by
  obtain ⟨D, B, h⟩ := h
  obtain ⟨ord, c⟩ := c
  cases c with
  | addOrUpdateLink l type =>
    obtain ⟨tm', htm', hsound⟩ := addOrUpdateLink_returns ord h l type
    exact ⟨tm', htm', _, _, hsound⟩
  | removeLink l =>
    obtain ⟨tm', htm', hsound⟩ := removeLink_returns ord h l
    exact ⟨tm', htm', _, _, hsound⟩
  | removeSwitch sid =>
    obtain ⟨tm', htm', hsound⟩ := removeSwitch_returns ord h sid
    exact ⟨tm', htm', _, _, hsound⟩

end LinkManager

/-- **The link structures are consistent** after every sequence of calls, none
of which raises an exception, and a switch that is removed is forgotten. -/
theorem link_structures_consistent (tm : LinkManager)
    (calls : List ((LinkStructure → ManagerOrders) × LinkCall)) :
    ∃ tm', calls.foldlM LinkManager.call { tm with links := LinkStructure.empty } = some tm' ∧
      tm'.links.Consistent ∧
      ∀ ord sid, ∃ tm'', LinkManager.removeSwitch ord tm' sid = some tm'' ∧
        tm''.links.Forgets sid := by
  obtain ⟨tm', htm', D, B, hsound⟩ := foldlM_rule (f := LinkManager.call) (l := calls)
    (fun _ tm => ∃ D B, LinkManager.Sound tm D B)
    (fun done c rest tm _ h => LinkManager.call_returns h c)
    (s := { tm with links := LinkStructure.empty })
    ⟨∅, ∅, LinkStructure.represents_empty, rfl⟩
  refine ⟨tm', htm', hsound.1.consistent, fun ord sid => ?_⟩
  obtain ⟨tm'', htm'', hsound'⟩ := LinkManager.removeSwitch_returns ord hsound sid
  refine ⟨tm'', htm'', hsound'.1.forgets fun l hl => ?_⟩
  rcases mem_union.mp hl with hl | hl
  · exact (mem_filter.mp hl).2
  · exact (mem_filter.mp hl).2

/-! ### Isolation of the priorities -/

/-- The cost of a port from its counters. -/
def countersCost (counters : Fin 3 → ℤ) (priority : Fin 3) : ℤ :=
  ((List.finRange 3).filter (· < priority)).foldl
    (fun newW p => toInt32 (newW + toInt32 (toInt32 (counters p * baseLinkCost) * 6))) baseLinkCost

theorem adjustWeight_eq_countersCost (s : TrafficState) (l : Link) (priority : Fin 3) :
    adjustWeight s.traffic l priority baseLinkCost = countersCost (s.countOf l) priority := by
  unfold adjustWeight TrafficState.countOf
  cases htraffic : s.traffic l with
  | some linkInfo => rfl
  | none =>
    have hzero : ∀ priority, countersCost (fun _ => 0) priority = baseLinkCost := by decide
    exact (hzero priority).symm

theorem countersCost_congr {counters counters' : Fin 3 → ℤ} {priority : Fin 3}
    (h : ∀ p < priority, counters p = counters' p) :
    countersCost counters priority = countersCost counters' priority := by
  refine List.foldl_ext _ _ _ fun newW p hp => ?_
  rw [h p (by simpa using hp)]

theorem trafficCost_congr {s s' : TrafficState} {priority : Fin 3}
    (h : ∀ l, ∀ p < priority, s.countOf l p = s'.countOf l p) :
    trafficCost s.traffic priority = trafficCost s'.traffic priority := by
  funext l
  unfold trafficCost
  simp only [adjustWeight_eq_countersCost]
  rw [countersCost_congr (h _), countersCost_congr (h _)]

theorem compute_congr {traffic traffic' : Link → Option LinkInfo} {priority : Fin 3}
    (h : trafficCost traffic priority = trafficCost traffic' priority) (ord : HashOrders)
    (t : TopologyInstance) : compute ord t traffic priority = compute ord t traffic' priority := by
  have hcosts : putLinkCosts traffic priority = putLinkCosts traffic' priority := by
    unfold putLinkCosts
    rw [h]
  have htrees : ∀ m, addTrees ord m traffic priority = addTrees ord m traffic' priority := by
    intro m
    unfold addTrees
    rw [hcosts]
  unfold compute calculateShortestPathTreeInClusters
  simp only [htrees]

theorem LinkManager.createNewInstance_cases {ord : LinkStructure → ManagerOrders}
    {tm tm' : LinkManager} (h : LinkManager.createNewInstance ord tm = some tm') :
    (tm.linksUpdated = false ∧ tm' = tm) ∨ (tm.linksUpdated = true ∧ ∀ p : Fin 3,
      tm'.tiMap (p : ℤ) = compute (ord tm.links).toHashOrders
        (tm.links.newInstance (ord tm.links)) tm.accounts.traffic p) := by
  unfold createNewInstance at h
  split at h
  case isFalse hupdated =>
    cases h
    exact .inl ⟨by simpa using hupdated, rfl⟩
  case isTrue hupdated =>
    refine .inr ⟨hupdated, fun p => ?_⟩
    obtain ⟨nt0, hnt0, h⟩ := bind_eq_some_iff.mp h
    obtain ⟨nt1, hnt1, h⟩ := bind_eq_some_iff.mp h
    obtain ⟨nt2, hnt2, h⟩ := bind_eq_some_iff.mp h
    cases h
    match p with
    | 0 => exact hnt0.symm
    | 1 => exact hnt1.symm
    | 2 => exact hnt2.symm

/-- **Isolation of the priorities.**  Traffic that differs only in flows of a
priority and of less important ones leaves the instance of the priority as it
is, with its costs, trees, broadcast ports and routes. -/
theorem priority_isolation (p : Fin 3) (s s' : TrafficState)
    (h : ∀ l, ∀ q < p, s.countOf l q = s'.countOf l q) :
    (∀ ord t, compute ord t s.traffic p = compute ord t s'.traffic p) ∧
    (∀ ord t i i', compute ord t s.traffic p = some i → compute ord t s'.traffic p = some i' →
      i.linkCost = i'.linkCost ∧ i.destinationRootedTrees = i'.destinationRootedTrees ∧
      i.clusterBroadcastNodePorts = i'.clusterBroadcastNodePorts ∧ i.getRoute = i'.getRoute) ∧
    ∀ (ord : LinkStructure → ManagerOrders) (tm tm₁ tm₂ : LinkManager),
      LinkManager.createNewInstance ord { tm with accounts := s } = some tm₁ →
      LinkManager.createNewInstance ord { tm with accounts := s' } = some tm₂ →
      tm₁.tiMap (p : ℤ) = tm₂.tiMap (p : ℤ) := by
  have hcompute := compute_congr (trafficCost_congr h)
  refine ⟨hcompute, fun ord t i i' hi hi' => ?_, fun ord tm tm₁ tm₂ h₁ h₂ => ?_⟩
  · rw [hcompute, hi'] at hi
    cases hi
    exact ⟨rfl, rfl, rfl, rfl⟩
  · rcases LinkManager.createNewInstance_cases h₁ with ⟨hflag, rfl⟩ | ⟨hflag, htiMap⟩
    · rcases LinkManager.createNewInstance_cases h₂ with ⟨-, rfl⟩ | ⟨hflag', -⟩
      · rfl
      · exact absurd (hflag.symm.trans hflag') Bool.false_ne_true
    · rcases LinkManager.createNewInstance_cases h₂ with ⟨hflag', -⟩ | ⟨-, htiMap'⟩
      · exact absurd (hflag'.symm.trans hflag) Bool.false_ne_true
      · rw [htiMap, htiMap', hcompute]

def pairTraffic : TrafficState where
  linkMatch := fun _ => none
  traffic := fun l => if l = linkKey 1 1 then some (Function.update 0 1 5) else none

theorem priority_isolation_pair :
    pairTraffic.countOf (linkKey 1 1) 1 = 5 ∧
      ∃ i, compute anyOrders pairInstance TrafficState.resetTraffic.traffic 1 = some i ∧
        compute anyOrders pairInstance pairTraffic.traffic 1 = some i := by
  refine ⟨by decide, ?_⟩
  have hagree : ∀ l, ∀ q < (1 : Fin 3),
      TrafficState.resetTraffic.countOf l q = pairTraffic.countOf l q := by
    intro l q hq
    obtain rfl : q = 0 := by omega
    unfold TrafficState.countOf TrafficState.resetTraffic pairTraffic
    dsimp only
    split
    · rfl
    · rfl
  obtain ⟨i, hi, -⟩ := exists_pairInstance_computed TrafficState.resetTraffic.traffic 1
  refine ⟨i, hi, ?_⟩
  rw [← (priority_isolation 1 _ _ hagree).1, hi]

end NctuSdn
