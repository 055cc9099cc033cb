/-
Link discovery and how the topology follows it (`LinkDiscoveryManager`,
`TopologyManager.applyUpdates`).

Discovery knows a link by the times it was last seen in either of two ways.  A
link seen by unicast frames is direct, one seen by multicast frames only leads
through other networks, and one seen by neither is deleted.  Discovery queues
an update where it takes note of a change, and the topology applies the
updates later.

An update says what kind of link there is, not what has changed, so the queue
can be read without the topology: `LDUpdate.apply` is what an update does to
the kinds of all links.  Discovery keeps the queue in step with its own table
(`Mirrors`), whatever else it queues; the topology does to its sets of links
what the updates say (`LinkManager.applyUpdate_shows`).
-/
import NctuSdn.Topology.Manager

namespace NctuSdn

open List Function Finmap Option

/-! ### The source -/

namespace LinkDiscovery

/-- `LinkInfo`; `none` is null. -/
structure LinkInfo where
  firstSeenTime : BitVec 64
  lastLldpReceivedTime : Option (BitVec 64)
  lastBddpReceivedTime : Option (BitVec 64)
deriving DecidableEq, Repr

def LinkInfo.getLinkType (info : LinkInfo) : LinkType :=
  if info.lastLldpReceivedTime ≠ none then .directLink
  else if info.lastBddpReceivedTime ≠ none then .multihopLink
  else .invalidLink

end LinkDiscovery

open LinkDiscovery

/-- `LDUpdate`, with the fields that its operation has. -/
inductive LDUpdate
  | linkUpdated (l : Link) (type : LinkType)
  | linkRemoved (l : Link) (type : LinkType)
  | switchUpdated (sw : SwitchId)
  | switchRemoved (sw : SwitchId)
  | portUp (npt : NodePortTuple)
  | portDown (npt : NodePortTuple)
  | tunnelPortAdded (npt : NodePortTuple)
  | tunnelPortRemoved (npt : NodePortTuple)
deriving DecidableEq, Repr

structure LinkDiscoveryManager where
  links : Finmap fun _ : Link => LinkDiscovery.LinkInfo
  switchLinks : SetMap SwitchId Link
  portLinks : PortLinks
  updates : List LDUpdate

/-- The orders in which its hash tables are iterated. -/
structure DiscoveryOrders where
  links : SetOrder Link
  switchLinks : SwitchId → SetOrder Link
  portLinks : NodePortTuple → SetOrder Link

/-- The local variables of `timeoutLinks`, with the table and the queue. -/
structure TimeoutState where
  links : Finmap fun _ : Link => LinkDiscovery.LinkInfo
  updates : List LDUpdate
  eraseList : List Link
  linkChanged : Bool

namespace LinkDiscoveryManager

def empty : LinkDiscoveryManager := ⟨∅, ∅, ∅, []⟩

def addLink (m : LinkDiscoveryManager) (lt : Link) : LinkDiscoveryManager :=
  { m with
    switchLinks := (m.switchLinks.add lt.src lt).add lt.dst lt
    portLinks := addLinkToStructure m.portLinks lt }

/-- `updateLink`: the new info with what is copied from the old one, and whether
the link has changed. -/
def updateLink (oldInfo newInfo : LinkDiscovery.LinkInfo) : LinkDiscovery.LinkInfo × Bool :=
  let newInfo :=
    if newInfo.lastLldpReceivedTime = none then
      if oldInfo.lastLldpReceivedTime ≠ none then
        { newInfo with lastLldpReceivedTime := oldInfo.lastLldpReceivedTime }
      else newInfo
    else if newInfo.lastBddpReceivedTime = none then
      if oldInfo.lastBddpReceivedTime ≠ none then
        { newInfo with lastBddpReceivedTime := oldInfo.lastBddpReceivedTime }
      else newInfo
    else newInfo
  (newInfo, oldInfo.lastLldpReceivedTime.isSome != newInfo.lastLldpReceivedTime.isSome)

def addOrUpdateLink (m : LinkDiscoveryManager) (lt : Link) (newInfo : LinkDiscovery.LinkInfo) :
    LinkDiscoveryManager :=
  match m.links.lookup lt with
  | none =>
    { ({ m with links := m.links.insert lt newInfo }).addLink lt with
      updates := m.updates ++ [.linkUpdated lt newInfo.getLinkType] }
  | some oldInfo =>
    let newInfo :=
      if oldInfo.firstSeenTime.slt newInfo.firstSeenTime then
        { newInfo with firstSeenTime := oldInfo.firstSeenTime }
      else newInfo
    let (newInfo, linkChanged) := updateLink oldInfo newInfo
    { m with
      links := m.links.insert lt newInfo
      updates :=
        if linkChanged then m.updates ++ [.linkUpdated lt newInfo.getLinkType] else m.updates }

/-- The loop of `deleteLinks`; `none` is the null pointer exception for a link
that is not in the table. -/
def deleteLink (s : LinkDiscoveryManager × List LDUpdate) (lt : Link) :
    Option (LinkDiscoveryManager × List LDUpdate) :=
  (s.1.links.lookup lt).map fun info =>
    ({ s.1 with
        switchLinks := (((s.1.switchLinks.sub lt.src lt).drop lt.src).sub lt.dst lt).drop lt.dst
        portLinks := removeLinkFromStructure s.1.portLinks lt
        links := s.1.links.erase lt },
      s.2 ++ [.linkRemoved lt info.getLinkType])

def deleteLinks (m : LinkDiscoveryManager) (links : List Link) (updateList : List LDUpdate) :
    Option LinkDiscoveryManager :=
  (links.foldlM deleteLink (m, [])).map fun (m, linkUpdateList) =>
    { m with updates := m.updates ++ (linkUpdateList ++ updateList) }

def deleteLinksOnPort (ord : DiscoveryOrders) (m : LinkDiscoveryManager) (npt : NodePortTuple) :
    Option LinkDiscoveryManager :=
  match m.portLinks.lookup npt with
  | none => some m
  | some links => deleteLinks m ((ord.portLinks npt).toList links) []

/-- Whether a time is set and more than `LINK_TIMEOUT` seconds ago. -/
def timedOut (time : Option (BitVec 64)) (curTime : BitVec 64) : Bool :=
  match time with
  | none => false
  | some t => (t + 35 * 1000).slt curTime

/-- The loop of `timeoutLinks`.  Once a link has changed, `linkChanged` stays
set, and an update is queued for every link that follows. -/
def timeoutLink (curTime : BitVec 64) (s : TimeoutState) (lt : Link) : TimeoutState :=
  match s.links.lookup lt with
  | none => s
  | some info =>
    let unicast := timedOut info.lastLldpReceivedTime curTime
    let multicast := timedOut info.lastBddpReceivedTime curTime
    let info :=
      { info with
        lastLldpReceivedTime := if unicast then none else info.lastLldpReceivedTime
        lastBddpReceivedTime := if multicast then none else info.lastBddpReceivedTime }
    let s := { s with
      links := s.links.insert lt info
      linkChanged := s.linkChanged || unicast || multicast }
    if info.lastLldpReceivedTime = none ∧ info.lastBddpReceivedTime = none then
      { s with eraseList := s.eraseList ++ [lt] }
    else if s.linkChanged then
      { s with updates := s.updates ++ [.linkUpdated lt info.getLinkType] }
    else s

def timeoutLinks (ord : DiscoveryOrders) (m : LinkDiscoveryManager) (curTime : BitVec 64) :
    Option LinkDiscoveryManager :=
  let s := (ord.links.toList m.links.keys).foldl (timeoutLink curTime)
    ⟨m.links, m.updates, [], false⟩
  let m := { m with links := s.links, updates := s.updates }
  if s.eraseList.length > 0 ∨ s.linkChanged then deleteLinks m s.eraseList [] else some m

def switchRemoved (ord : DiscoveryOrders) (m : LinkDiscoveryManager) (sw : SwitchId) :
    Option LinkDiscoveryManager :=
  match m.switchLinks.lookup sw with
  | some links => deleteLinks m ((ord.switchLinks sw).toList links) [.switchRemoved sw]
  | none => some { m with updates := m.updates ++ [.switchRemoved sw] }

end LinkDiscoveryManager

/-- The operations that change links. -/
inductive DiscoveryCall
  | addOrUpdateLink (lt : Link) (info : LinkDiscovery.LinkInfo)
  | timeoutLinks (curTime : BitVec 64)
  | deleteLinksOnPort (npt : NodePortTuple)
  | switchRemoved (sw : SwitchId)
deriving DecidableEq, Repr

def LinkDiscoveryManager.call (m : LinkDiscoveryManager) (c : DiscoveryOrders × DiscoveryCall) :
    Option LinkDiscoveryManager :=
  match c.2 with
  | .addOrUpdateLink lt info => some (m.addOrUpdateLink lt info)
  | .timeoutLinks curTime => timeoutLinks c.1 m curTime
  | .deleteLinksOnPort npt => deleteLinksOnPort c.1 m npt
  | .switchRemoved sw => switchRemoved c.1 m sw

namespace LinkManager

/-- The body of the loop of `applyUpdates`. -/
def applyUpdate (ord : LinkStructure → ManagerOrders) (tm : LinkManager) :
    LDUpdate → Option LinkManager
  | .linkUpdated l type => addOrUpdateLink ord tm l type
  | .linkRemoved l _ => removeLink ord tm l
  | .switchUpdated _ => some tm
  | .switchRemoved sw => removeSwitch ord tm sw
  | .tunnelPortAdded npt =>
    some { tm with
      links := { tm.links with tunnelPorts := insert npt tm.links.tunnelPorts } }
  | .tunnelPortRemoved npt =>
    some { tm with links := { tm.links with tunnelPorts := tm.links.tunnelPorts.erase npt } }
  | .portUp _ | .portDown _ => some tm

def applyUpdates (ord : LinkStructure → ManagerOrders) (tm : LinkManager)
    (ldUpdates : List LDUpdate) : Option LinkManager :=
  ldUpdates.foldlM (applyUpdate ord) tm

end LinkManager

/-! ### What the updates say -/

abbrev LinkKinds := Link → Option LinkType

namespace LDUpdate

def apply (kinds : LinkKinds) : LDUpdate → LinkKinds
  | .linkUpdated l .directLink => Function.update kinds l (some .directLink)
  | .linkUpdated l .multihopLink => Function.update kinds l (some .multihopLink)
  | .linkRemoved l _ => Function.update kinds l none
  | .switchRemoved sw => fun l => if l.src ≠ sw ∧ l.dst ≠ sw then kinds l else none
  | _ => kinds

/-- The updates that discovery queues. -/
def Plain : LDUpdate → Prop
  | .tunnelPortAdded _ | .tunnelPortRemoved _ => False
  | _ => True

end LDUpdate

namespace LinkManager

/-- The topology has the links of these kinds. -/
def Shows (tm : LinkManager) (kinds : LinkKinds) : Prop :=
  ∃ D B, Sound tm D B ∧ (∀ l, l ∈ D ↔ kinds l = some .directLink) ∧
    ∀ l, l ∈ B ↔ kinds l = some .multihopLink

section

variable (ord : LinkStructure → ManagerOrders) {tm : LinkManager} {kinds : LinkKinds}
  (h : tm.Shows kinds)
include h

/-- **The topology does what an update says.** -/
theorem applyUpdate_shows {u : LDUpdate} (hu : u.Plain) :
    ∃ tm', applyUpdate ord tm u = some tm' ∧ tm'.Shows (u.apply kinds) := by
  obtain ⟨D, B, hsound, hD, hB⟩ := h
  have hsame : tm.Shows kinds := ⟨D, B, hsound, hD, hB⟩
  cases u with
  | linkUpdated l type =>
    obtain ⟨tm', htm', hsound'⟩ := addOrUpdateLink_returns ord hsound l type
    refine ⟨tm', htm', _, _, hsound', ?_⟩
    cases type with
    | directLink | multihopLink =>
      constructor
      · intro l'
        by_cases heq : l' = l <;> simp [putSets, LDUpdate.apply, Function.update, heq, hD]
      · intro l'
        by_cases heq : l' = l <;> simp [putSets, LDUpdate.apply, Function.update, heq, hB]
    | invalidLink | tunnel => exact ⟨hD, hB⟩
  | linkRemoved l type =>
    obtain ⟨tm', htm', hsound'⟩ := removeLink_returns ord hsound l
    refine ⟨tm', htm', _, _, hsound', fun l' => ?_, fun l' => ?_⟩
    · by_cases heq : l' = l <;> simp [LDUpdate.apply, Function.update, heq, hD]
    · by_cases heq : l' = l <;> simp [LDUpdate.apply, Function.update, heq, hB]
  | switchRemoved sw =>
    obtain ⟨tm', htm', hsound'⟩ := removeSwitch_returns ord hsound sw
    refine ⟨tm', htm', _, _, hsound', fun l' => ?_, fun l' => ?_⟩
    · by_cases haway : l'.src ≠ sw ∧ l'.dst ≠ sw <;>
        simp [linksAway, LDUpdate.apply, haway, hD]
    · by_cases haway : l'.src ≠ sw ∧ l'.dst ≠ sw <;>
        simp [linksAway, LDUpdate.apply, haway, hB]
  | switchUpdated | portUp | portDown => exact ⟨tm, rfl, hsame⟩
  | tunnelPortAdded | tunnelPortRemoved => exact hu.elim

theorem applyUpdates_shows {us : List LDUpdate} (hus : ∀ u ∈ us, u.Plain) :
    ∃ tm', applyUpdates ord tm us = some tm' ∧ tm'.Shows (us.foldl LDUpdate.apply kinds) := by
  refine foldlM_rule (f := applyUpdate ord) (l := us)
    (fun done tm => tm.Shows (done.foldl LDUpdate.apply kinds))
    (fun done u rest tm hsplit hshows => ?_) (s := tm) h
  obtain ⟨tm', htm', hshows'⟩ := applyUpdate_shows ord hshows (hus u (by simp [hsplit]))
  refine ⟨tm', htm', ?_⟩
  rwa [foldl_append]

end

end LinkManager

/-! ### Discovery and its queue -/

namespace LinkDiscoveryManager

def kindOf (links : Finmap fun _ : Link => LinkDiscovery.LinkInfo) : LinkKinds :=
  fun l => (links.lookup l).map LinkInfo.getLinkType

/-- Some updates say what is in the table, except for links that are about to
be deleted; the other tables index it. -/
structure Mirrors (m : LinkDiscoveryManager) (updates : List LDUpdate) (pending : List Link) :
    Prop where
  kinds : ∀ l ∉ pending, updates.foldl LDUpdate.apply (fun _ => none) l = kindOf m.links l
  seen : ∀ l ∉ pending, kindOf m.links l ≠ some .invalidLink
  plain : ∀ u ∈ updates, u.Plain
  listed : ∀ l ∈ pending, l ∈ m.links
  nodup : pending.Nodup
  switches : ∀ sw l, l ∈ m.switchLinks.get sw ↔ l ∈ m.links ∧ (sw = l.src ∨ sw = l.dst)
  ports : ∀ npt l, l ∈ m.portLinks.get npt ↔ l ∈ m.links ∧ (npt = l.srcNpt ∨ npt = l.dstNpt)

variable {m : LinkDiscoveryManager} {us : List LDUpdate} {pending : List Link} {lt : Link}

theorem mirrors_empty : empty.Mirrors [] [] where
  kinds := fun l _ => by simp [empty, kindOf]
  seen := fun l _ => by simp [empty, kindOf]
  plain := fun u hu => absurd hu not_mem_nil
  listed := fun l hl => absurd hl not_mem_nil
  nodup := nodup_nil
  switches := fun sw l => by simp [empty, notMem_empty]
  ports := fun npt l => by simp [empty, notMem_empty]

theorem Mirrors.mark (h : m.Mirrors us []) (hlisted : ∀ l ∈ pending, l ∈ m.links)
    (hnodup : pending.Nodup) : m.Mirrors us pending where
  kinds := fun l _ => h.kinds l not_mem_nil
  seen := fun l _ => h.seen l not_mem_nil
  plain := h.plain
  listed := hlisted
  nodup := hnodup
  switches := h.switches
  ports := h.ports

variable {info : LinkDiscovery.LinkInfo} {links : Finmap fun _ : Link => LinkDiscovery.LinkInfo}

theorem kindOf_insert (lt : Link) :
    kindOf (links.insert lt info) =
      Function.update (kindOf links) lt (some info.getLinkType) := by
  funext l
  unfold kindOf
  by_cases heq : l = lt
  · rw [heq, lookup_insert, update_self]
    rfl
  · rw [lookup_insert_of_ne _ heq, update_of_ne heq]

/-! ### Deleting links -/

def removal (links : Finmap fun _ : Link => LinkDiscovery.LinkInfo) (lt : Link) : LDUpdate :=
  .linkRemoved lt ((kindOf links lt).getD .invalidLink)

theorem foldl_removal (dels : List Link) (kinds : LinkKinds) (l : Link) :
    (dels.map (removal links)).foldl LDUpdate.apply kinds l =
      if l ∈ dels then none else kinds l := by
  induction dels generalizing kinds with
  | nil => rfl
  | cons lt dels ih =>
    rw [map_cons, foldl_cons, ih, removal, LDUpdate.apply]
    by_cases heq : l = lt
    · rw [heq, update_self, ite_self, if_pos mem_cons_self]
    · rw [update_of_ne heq]
      simp [heq]

/-- The other tables index the links. -/
def Listed (m : LinkDiscoveryManager) : Prop :=
  ListedByEnds Link.src Link.dst m.switchLinks (· ∈ m.links) ∧
    ListedByEnds Link.srcNpt Link.dstNpt m.portLinks (· ∈ m.links)

def TidyIndexes (m : LinkDiscoveryManager) : Prop := m.switchLinks.Tidy ∧ m.portLinks.Tidy

/-- Some links are gone, from the indexes too. -/
structure Deleted (m : LinkDiscoveryManager) (dels : List Link) (m' : LinkDiscoveryManager) :
    Prop where
  links : ∀ l, m'.links.lookup l = if l ∈ dels then none else m.links.lookup l
  listed : m.Listed → m'.Listed
  tidy : m.TidyIndexes → m'.TidyIndexes

theorem Deleted.kindOf_eq {m' : LinkDiscoveryManager} (h : Deleted m pending m') (l : Link) :
    kindOf m'.links l = if l ∈ pending then none else kindOf m.links l := by
  rw [kindOf, h.links, apply_ite (Option.map LinkInfo.getLinkType)]
  rfl

/-- **Deleting links** of the table, each once. -/
theorem deleteLinks_deleted {dels : List Link} (hnodup : dels.Nodup)
    (hdels : ∀ l ∈ dels, l ∈ m.links) (updateList : List LDUpdate) :
    ∃ m', Deleted m dels m' ∧ deleteLinks m dels updateList = some { m' with
      updates := m.updates ++ (dels.map (removal m.links) ++ updateList) } := by
  let I : List Link → LinkDiscoveryManager × List LDUpdate → Prop := fun done s =>
    Deleted m done s.1 ∧ s.1.updates = m.updates ∧ s.2 = done.map (removal m.links)
  have hstep : ∀ done lt rest s, dels = done ++ lt :: rest → I done s →
      ∃ s', deleteLink s lt = some s' ∧ I (done ++ [lt]) s' := by
    rintro done lt rest ⟨m₁, list⟩ rfl ⟨hdeleted, hupdates, hlist⟩
    rw [nodup_middle, nodup_cons, mem_append, not_or] at hnodup
    obtain ⟨info, hinfo⟩ := mem_iff.mp (hdels lt (by simp))
    have hlookup : m₁.links.lookup lt = some info := by
      rw [hdeleted.links, if_neg hnodup.1.1, hinfo]
    have hmem : ∀ l, l ∈ m₁.links.erase lt ↔ l ∈ m₁.links ∧ l ≠ lt :=
      fun l => mem_erase.trans and_comm
    unfold deleteLink
    rw [hlookup]
    refine ⟨_, rfl, ⟨fun l => ?_, fun h => ?_, fun h => ?_⟩, hupdates, ?_⟩
    · dsimp only
      by_cases heq : l = lt
      · rw [heq, lookup_erase, if_pos (by simp)]
      · rw [lookup_erase_ne heq, hdeleted.links]
        simp [heq]
    · obtain ⟨hswitches, hports⟩ := hdeleted.listed h
      exact ⟨(hswitches.remove lt).congr hmem, (hports.remove lt).congr hmem⟩
    · obtain ⟨hswitches, hports⟩ := hdeleted.tidy h
      exact ⟨hswitches.sub_drop.sub_drop, hports.sub_drop.sub_drop⟩
    · rw [map_append, map_singleton, removal, kindOf, hinfo, ← hlist]
      rfl
  obtain ⟨⟨m', list⟩, hfold, hdeleted, hupdates, hlist⟩ :=
    foldlM_rule I hstep (s := (m, [])) ⟨⟨fun _ => rfl, id, id⟩, rfl, rfl⟩
  refine ⟨m', hdeleted, ?_⟩
  unfold deleteLinks
  rw [hfold, ← hupdates, ← hlist]
  rfl

theorem Mirrors.deleteLinks (h : m.Mirrors m.updates pending) (updateList : List LDUpdate) :
    ∃ (m' : LinkDiscoveryManager) (list : List LDUpdate), deleteLinks m pending updateList =
        some { m' with updates := m.updates ++ (list ++ updateList) } ∧
      m'.Mirrors (m.updates ++ list) [] ∧ ∀ l ∈ m'.links, l ∈ m.links ∧ l ∉ pending := by
  obtain ⟨m', hdeleted, heq⟩ := deleteLinks_deleted h.nodup h.listed updateList
  obtain ⟨hswitches, hports⟩ := hdeleted.listed ⟨h.switches, h.ports⟩
  refine ⟨m', pending.map (removal m.links), heq, ⟨fun l _ => ?_, fun l _ => ?_, fun u hu => ?_,
    nofun, nodup_nil, hswitches, hports⟩, fun l hl => ?_⟩
  · rw [foldl_append, foldl_removal, hdeleted.kindOf_eq]
    split
    · rfl
    next hl => exact h.kinds l hl
  · rw [hdeleted.kindOf_eq]
    split
    · exact nofun
    next hl => exact h.seen l hl
  · rcases mem_append.mp hu with hu | hu
    · exact h.plain u hu
    · obtain ⟨lt, -, rfl⟩ := mem_map.mp hu
      trivial
  · rw [mem_iff, hdeleted.links] at hl
    by_cases hmem : l ∈ pending
    · simp [hmem] at hl
    · rw [if_neg hmem] at hl
      exact ⟨mem_iff.mpr hl, hmem⟩

theorem Mirrors.requeue (h : m.Mirrors us pending) (updates : List LDUpdate) :
    { m with updates := updates }.Mirrors us pending :=
  ⟨h.kinds, h.seen, h.plain, h.listed, h.nodup, h.switches, h.ports⟩

theorem Mirrors.idle (h : m.Mirrors us []) (u : LDUpdate) (hu : u.Plain)
    (hidle : u.apply (kindOf m.links) = kindOf m.links) : m.Mirrors (us ++ [u]) [] := by
  have hkinds : us.foldl LDUpdate.apply (fun _ => none) = kindOf m.links :=
    funext fun l => h.kinds l not_mem_nil
  refine ⟨fun l _ => ?_, h.seen, fun u' hu' => ?_, h.listed, h.nodup, h.switches, h.ports⟩
  · rw [foldl_append, hkinds]
    exact congrFun hidle l
  · rcases mem_append.mp hu' with hu' | hu'
    · exact h.plain u' hu'
    · exact mem_singleton.mp hu' ▸ hu

/-- **`deleteLinksOnPort`.** -/
theorem Mirrors.deleteLinksOnPort (h : m.Mirrors m.updates []) (ord : DiscoveryOrders)
    (npt : NodePortTuple) :
    ∃ m', deleteLinksOnPort ord m npt = some m' ∧ m'.Mirrors m'.updates [] := by
  unfold LinkDiscoveryManager.deleteLinksOnPort
  cases hlookup : m.portLinks.lookup npt with
  | none => exact ⟨m, rfl, h⟩
  | some links =>
    have hmem := ListedByEnds.mem_toList h.ports hlookup (ord.portLinks npt)
    obtain ⟨m', list, heq, hmirrors, -⟩ := (h.mark (fun l hl => ((hmem l).mp hl).1)
      ((ord.portLinks npt).nodup links)).deleteLinks []
    refine ⟨_, heq, ?_⟩
    rw [append_nil]
    exact hmirrors.requeue _

/-- **`switchRemoved`.**  No link of the switch is left when its removal is
queued. -/
theorem Mirrors.switchRemoved (h : m.Mirrors m.updates []) (ord : DiscoveryOrders) (sw : SwitchId) :
    ∃ m', switchRemoved ord m sw = some m' ∧ m'.Mirrors m'.updates [] := by
  -- once its links are gone the update says nothing new
  have hidle : ∀ {m' : LinkDiscoveryManager}, (∀ l ∈ m'.links, l.src ≠ sw ∧ l.dst ≠ sw) →
      (LDUpdate.switchRemoved sw).apply (kindOf m'.links) = kindOf m'.links := by
    intro m' haway
    funext l
    dsimp only [LDUpdate.apply]
    split
    · rfl
    case isFalse hends =>
      have hnone : m'.links.lookup l = none :=
        lookup_eq_none.mpr fun hl => hends (haway l hl)
      rw [kindOf, hnone]
      rfl
  unfold LinkDiscoveryManager.switchRemoved
  cases hlookup : m.switchLinks.lookup sw with
  | none =>
    refine ⟨_, rfl, (h.idle (.switchRemoved sw) trivial (hidle fun l hl => ?_)).requeue _⟩
    have hempty : m.switchLinks.get sw = ∅ := by
      unfold SetMap.get
      rw [hlookup]
      rfl
    have hnot : ¬ (l ∈ m.links ∧ (sw = l.src ∨ sw = l.dst)) := by
      rw [← h.switches, hempty]
      exact Finset.notMem_empty l
    exact ⟨fun heq => hnot ⟨hl, .inl heq.symm⟩, fun heq => hnot ⟨hl, .inr heq.symm⟩⟩
  | some links =>
    have hmem := ListedByEnds.mem_toList h.switches hlookup (ord.switchLinks sw)
    obtain ⟨m', list, heq, hmirrors, hleft⟩ := (h.mark (fun l hl => ((hmem l).mp hl).1)
      ((ord.switchLinks sw).nodup links)).deleteLinks [.switchRemoved sw]
    refine ⟨_, heq, ?_⟩
    rw [← append_assoc]
    refine (hmirrors.idle (.switchRemoved sw) trivial (hidle fun l hl => ?_)).requeue _
    obtain ⟨hl, hnot⟩ := hleft l hl
    rw [hmem] at hnot
    exact ⟨fun heq => hnot ⟨hl, .inl heq.symm⟩, fun heq => hnot ⟨hl, .inr heq.symm⟩⟩

/-! ### New times for links -/

theorem getLinkType_ne_invalidLink
    (h : info.lastLldpReceivedTime ≠ none ∨ info.lastBddpReceivedTime ≠ none) :
    info.getLinkType ≠ .invalidLink := by
  unfold LinkInfo.getLinkType
  split_ifs with hunicast hmulticast
  · exact LinkType.noConfusion
  · exact LinkType.noConfusion
  · exact absurd h (not_or.mpr ⟨hunicast, hmulticast⟩)

theorem apply_linkUpdated (hinfo : info.getLinkType ≠ .invalidLink) (kinds : LinkKinds) (l : Link) :
    (LDUpdate.linkUpdated l info.getLinkType).apply kinds =
      Function.update kinds l (some info.getLinkType) := by
  unfold LinkInfo.getLinkType at hinfo ⊢
  split_ifs at hinfo ⊢
  · rfl
  · rfl
  · exact absurd rfl hinfo

theorem mem_insert_iff (hlt : lt ∈ m.links) (l : Link) :
    l ∈ m.links.insert lt info ↔ l ∈ m.links := by
  rw [mem_insert]
  exact or_iff_right_of_imp fun heq => heq ▸ hlt

theorem Mirrors.learn (h : m.Mirrors us pending) (hinfo : info.getLinkType ≠ .invalidLink)
    {m' : LinkDiscoveryManager} (hlinks : m'.links = m.links.insert lt info)
    (hswitches : ListedByEnds Link.src Link.dst m'.switchLinks (· ∈ m'.links))
    (hports : ListedByEnds Link.srcNpt Link.dstNpt m'.portLinks (· ∈ m'.links)) :
    m'.Mirrors (us ++ [LDUpdate.linkUpdated lt info.getLinkType]) pending := by
  refine ⟨fun l hl => ?_, fun l hl => ?_, fun u hu => ?_, fun l hl => ?_, h.nodup, hswitches,
    hports⟩
  · rw [foldl_append, foldl_cons, foldl_nil, apply_linkUpdated hinfo, hlinks,
      kindOf_insert]
    by_cases heq : l = lt
    · rw [heq, update_self, update_self]
    · rw [update_of_ne heq, update_of_ne heq, h.kinds l hl]
  · rw [hlinks, kindOf_insert]
    by_cases heq : l = lt
    · rw [heq, update_self]
      exact fun hkind => hinfo (some.inj hkind)
    · rw [update_of_ne heq]
      exact h.seen l hl
  · rcases mem_append.mp hu with hu | hu
    · exact h.plain u hu
    · rw [mem_singleton.mp hu]
      trivial
  · rw [hlinks, mem_insert]
    exact .inr (h.listed l hl)

theorem Mirrors.put (h : m.Mirrors us pending) (hlt : lt ∈ m.links)
    (hinfo : info.getLinkType ≠ .invalidLink) :
    { m with links := m.links.insert lt info }.Mirrors
      (us ++ [LDUpdate.linkUpdated lt info.getLinkType]) pending := by
  apply h.learn hinfo rfl
  · exact ListedByEnds.congr h.switches (mem_insert_iff hlt)
  · exact ListedByEnds.congr h.ports (mem_insert_iff hlt)

theorem Mirrors.keep (h : m.Mirrors us pending)
    (hkind : kindOf m.links lt = some info.getLinkType) :
    { m with links := m.links.insert lt info }.Mirrors us pending := by
  have hlt : lt ∈ m.links := by
    obtain ⟨old, hold, -⟩ := map_eq_some_iff.mp hkind
    exact mem_of_lookup_eq_some hold
  have hsame : kindOf (m.links.insert lt info) = kindOf m.links := by
    rw [kindOf_insert, ← hkind, update_eq_self]
  refine ⟨fun l hl => ?_, fun l hl => ?_, h.plain, fun l hl => ?_, h.nodup,
    ListedByEnds.congr h.switches (mem_insert_iff hlt),
    ListedByEnds.congr h.ports (mem_insert_iff hlt)⟩
  · rw [h.kinds l hl, hsame]
  · rw [hsame]
    exact h.seen l hl
  · exact (mem_insert_iff hlt l).mpr (h.listed l hl)

theorem Mirrors.expire (h : m.Mirrors us pending) (hlt : lt ∈ m.links) (hnot : lt ∉ pending)
    (info : LinkDiscovery.LinkInfo) :
    { m with links := m.links.insert lt info }.Mirrors us (pending ++ [lt]) := by
  have hne : ∀ {l}, l ∉ pending ++ [lt] → l ∉ pending ∧ l ≠ lt := by
    intro l hl
    simpa using hl
  refine ⟨fun l hl => ?_, fun l hl => ?_, h.plain, fun l hl => ?_, ?_,
    ListedByEnds.congr h.switches (mem_insert_iff hlt),
    ListedByEnds.congr h.ports (mem_insert_iff hlt)⟩
  · dsimp only
    rw [kindOf_insert, update_of_ne (hne hl).2]
    exact h.kinds l (hne hl).1
  · dsimp only
    rw [kindOf_insert, update_of_ne (hne hl).2]
    exact h.seen l (hne hl).1
  · refine (mem_insert_iff hlt l).mpr ?_
    rcases mem_append.mp hl with hl | hl
    · exact h.listed l hl
    · exact mem_singleton.mp hl ▸ hlt
  · rw [← concat_eq_append]
    exact (nodup_concat _ _).mpr ⟨hnot, h.nodup⟩

/-- What `updateLink` takes for a change is a change of kind. -/
theorem updateLink_spec {oldInfo newInfo : LinkDiscovery.LinkInfo}
    (hold : oldInfo.getLinkType ≠ .invalidLink) (hnew : newInfo.getLinkType ≠ .invalidLink) :
    (updateLink oldInfo newInfo).1.getLinkType ≠ .invalidLink ∧
      ((updateLink oldInfo newInfo).2 = false →
        (updateLink oldInfo newInfo).1.getLinkType = oldInfo.getLinkType) := by
  obtain ⟨t, u, b⟩ := oldInfo
  obtain ⟨t', u', b'⟩ := newInfo
  cases u <;> cases b <;> cases u' <;> cases b' <;>
    simp_all [updateLink, LinkInfo.getLinkType]

theorem Mirrors.addLink (h : m.Mirrors us []) (lt : Link)
    (hinfo : info.getLinkType ≠ .invalidLink) :
    (({ m with links := m.links.insert lt info }).addLink lt).Mirrors
      (us ++ [LDUpdate.linkUpdated lt info.getLinkType]) [] := by
  apply h.learn hinfo rfl
  · exact (ListedByEnds.add h.switches lt).congr fun _ => mem_insert
  · exact (ListedByEnds.add h.ports lt).congr fun _ => mem_insert

/-- **`addOrUpdateLink`.** -/
theorem Mirrors.addOrUpdateLink (h : m.Mirrors m.updates []) (lt : Link)
    (hinfo : info.getLinkType ≠ .invalidLink) :
    (m.addOrUpdateLink lt info).Mirrors (m.addOrUpdateLink lt info).updates [] := by
  unfold LinkDiscoveryManager.addOrUpdateLink
  cases hlookup : m.links.lookup lt with
  | none => exact (h.addLink lt hinfo).requeue _
  | some oldInfo =>
    dsimp only
    have hkind : kindOf m.links lt = some oldInfo.getLinkType := by
      rw [kindOf, hlookup]
      rfl
    have hold : oldInfo.getLinkType ≠ .invalidLink := fun heq =>
      h.seen lt not_mem_nil (hkind.trans (congrArg some heq))
    -- the time a link was first seen does not matter
    generalize hfirst : (if oldInfo.firstSeenTime.slt info.firstSeenTime then
      { info with firstSeenTime := oldInfo.firstSeenTime } else info) = newInfo
    have hnew : newInfo.getLinkType ≠ .invalidLink := by
      rw [← hfirst]
      split
      · exact hinfo
      · exact hinfo
    obtain ⟨hvalid, hunchanged⟩ := updateLink_spec hold hnew
    cases hchanged : (updateLink oldInfo newInfo).2 with
    | true =>
      exact (h.put (mem_of_lookup_eq_some hlookup) hvalid).requeue _
    | false =>
      refine (h.keep (hkind.trans (congrArg some ?_))).requeue _
      exact (hunchanged hchanged).symm

/-! ### Timeouts -/

/-- The loop of `timeoutLinks` after some of the links. -/
structure TimingOut (m : LinkDiscoveryManager) (done : List Link) (s : TimeoutState) : Prop where
  mirrors : { m with links := s.links }.Mirrors s.updates s.eraseList
  erased : ∀ l ∈ s.eraseList, l ∈ done
  rest : ∀ l ∉ done, s.links.lookup l = m.links.lookup l

/-- **One link.**  If none of its times runs out, its kind is as before; if one
does, an update is queued unless the link is marked for deletion. -/
theorem TimingOut.step {done : List Link} {s : TimeoutState} (hs : TimingOut m done s)
    (hnot : lt ∉ done) (hlt : lt ∈ m.links) (curTime : BitVec 64) :
    TimingOut m (done ++ [lt]) (timeoutLink curTime s lt) := by
  obtain ⟨info, hinfo⟩ := mem_iff.mp hlt
  have hlookup : s.links.lookup lt = some info := (hs.rest lt hnot).trans hinfo
  have hmem : lt ∈ s.links := mem_of_lookup_eq_some hlookup
  have hkept : lt ∉ s.eraseList := fun hl => hnot (hs.erased lt hl)
  have hrest : ∀ info', ∀ l ∉ done ++ [lt],
      (s.links.insert lt info').lookup l = m.links.lookup l := by
    intro info' l hl
    have hl' : l ∉ done ∧ l ≠ lt := by simpa using hl
    rw [lookup_insert_of_ne _ hl'.2, hs.rest l hl'.1]
  have herased : ∀ l ∈ s.eraseList, l ∈ done ++ [lt] :=
    fun l hl => mem_append_left _ (hs.erased l hl)
  unfold timeoutLink
  rw [hlookup]
  dsimp -zeta only
  extract_lets unicast multicast newInfo
  by_cases hgone : newInfo.lastLldpReceivedTime = none ∧ newInfo.lastBddpReceivedTime = none
  · rw [if_pos hgone]
    refine ⟨hs.mirrors.expire hmem hkept newInfo, fun l hl => ?_, hrest newInfo⟩
    rcases mem_append.mp hl with hl | hl
    · exact herased l hl
    · exact mem_append_right _ hl
  · rw [if_neg hgone]
    by_cases hchanged : (s.linkChanged || unicast || multicast) = true
    · rw [if_pos hchanged]
      have hseen := getLinkType_ne_invalidLink (not_and_or.mp hgone)
      exact ⟨hs.mirrors.put hmem hseen, herased, hrest newInfo⟩
    · rw [if_neg hchanged]
      -- nothing has run out, so the info is the old one
      rw [Bool.not_eq_true, Bool.or_eq_false_iff, Bool.or_eq_false_iff] at hchanged
      have hsame : newInfo = info := by
        simp [newInfo, hchanged.1.2, hchanged.2]
      refine ⟨hs.mirrors.keep ?_, herased, hrest newInfo⟩
      rw [hsame]
      exact congrArg (Option.map LinkInfo.getLinkType) hlookup

/-- **`timeoutLinks`.** -/
theorem Mirrors.timeoutLinks (h : m.Mirrors m.updates []) (ord : DiscoveryOrders)
    (curTime : BitVec 64) :
    ∃ m', timeoutLinks ord m curTime = some m' ∧ m'.Mirrors m'.updates [] := by
  have hloop : TimingOut m (ord.links.toList m.links.keys)
      ((ord.links.toList m.links.keys).foldl (timeoutLink curTime)
        ⟨m.links, m.updates, [], false⟩) := by
    refine foldl_rule (TimingOut m) (fun done lt rest s hsplit hs => ?_)
      ⟨h, fun l hl => absurd hl List.not_mem_nil, fun l _ => rfl⟩
    obtain ⟨hnot, hlt⟩ := ord.links.fresh hsplit
    exact hs.step hnot (mem_keys.mp hlt) curTime
  unfold LinkDiscoveryManager.timeoutLinks
  generalize (ord.links.toList m.links.keys).foldl (timeoutLink curTime)
    ⟨m.links, m.updates, [], false⟩ = s at hloop ⊢
  dsimp only
  split
  case isTrue =>
    obtain ⟨m', list, heq, hmirrors, -⟩ := (hloop.mirrors.requeue s.updates).deleteLinks []
    refine ⟨_, heq, ?_⟩
    rw [List.append_nil]
    exact hmirrors.requeue _
  case isFalse hnone =>
    have herase : s.eraseList = [] := by
      rw [not_or, not_lt, Nat.le_zero, List.length_eq_zero_iff] at hnone
      exact hnone.1
    have hmirrors := hloop.mirrors
    rw [herase] at hmirrors
    exact ⟨_, rfl, hmirrors.requeue _⟩

end LinkDiscoveryManager

/-- An info that says how the link was seen. -/
def DiscoveryCall.Seen : DiscoveryCall → Prop
  | .addOrUpdateLink _ info => info.lastLldpReceivedTime ≠ none ∨ info.lastBddpReceivedTime ≠ none
  | _ => True

/-- **Every operation** succeeds and keeps the queue in step. -/
theorem LinkDiscoveryManager.call_mirrors {m : LinkDiscoveryManager} (h : m.Mirrors m.updates [])
    {c : DiscoveryOrders × DiscoveryCall} (hc : c.2.Seen) :
    ∃ m', m.call c = some m' ∧ m'.Mirrors m'.updates [] := by
  obtain ⟨ord, c⟩ := c
  cases c with
  | addOrUpdateLink lt info =>
    exact ⟨_, rfl, h.addOrUpdateLink lt (getLinkType_ne_invalidLink hc)⟩
  | timeoutLinks curTime => exact h.timeoutLinks ord curTime
  | deleteLinksOnPort npt => exact h.deleteLinksOnPort ord npt
  | switchRemoved sw => exact h.switchRemoved ord sw

/-! ### The topology follows -/

/-- The updates that one run of `applyUpdates` finds in the queue, with the
order of iteration of that run. -/
structure UpdateBatch where
  order : LinkStructure → ManagerOrders
  ldUpdates : List LDUpdate

namespace LinkManager

/-- One run of `applyUpdates`. -/
def applyBatch (tm : LinkManager) (b : UpdateBatch) : Option LinkManager :=
  applyUpdates b.order tm b.ldUpdates

theorem applyBatches_shows {tm : LinkManager} {kinds : LinkKinds} (h : tm.Shows kinds)
    {batches : List UpdateBatch} (hplain : ∀ b ∈ batches, ∀ u ∈ b.ldUpdates, u.Plain) :
    ∃ tm', batches.foldlM applyBatch tm = some tm' ∧
      tm'.Shows ((batches.flatMap UpdateBatch.ldUpdates).foldl LDUpdate.apply kinds) := by
  refine foldlM_rule (f := applyBatch) (l := batches)
    (fun done tm => tm.Shows ((done.flatMap UpdateBatch.ldUpdates).foldl LDUpdate.apply kinds))
    (fun done b rest tm hsplit hshows => ?_) (s := tm) h
  have hb : b ∈ batches := by
    rw [hsplit]
    exact mem_append_right _ mem_cons_self
  obtain ⟨tm', htm', hshows'⟩ := applyUpdates_shows b.order hshows (hplain b hb)
  refine ⟨tm', htm', ?_⟩
  rwa [flatMap_append, flatMap_singleton, foldl_append]

end LinkManager

theorem kindOf_eq_some {links : Finmap fun _ : Link => LinkDiscovery.LinkInfo} {l : Link}
    {type : LinkType} : LinkDiscoveryManager.kindOf links l = some type ↔
      ∃ info, links.lookup l = some info ∧ info.getLinkType = type :=
  map_eq_some_iff

theorem getLinkType_eq_directLink {info : LinkDiscovery.LinkInfo} :
    info.getLinkType = .directLink ↔ info.lastLldpReceivedTime ≠ none := by
  unfold LinkInfo.getLinkType
  split_ifs with hunicast hmulticast <;> simp [hunicast]

theorem getLinkType_eq_multihopLink {info : LinkDiscovery.LinkInfo} :
    info.getLinkType = .multihopLink ↔
      info.lastLldpReceivedTime = none ∧ info.lastBddpReceivedTime ≠ none := by
  unfold LinkInfo.getLinkType
  split_ifs with hunicast hmulticast <;> simp_all

theorem LinkDiscoveryManager.Mirrors.mem_links {m : LinkDiscoveryManager} {us : List LDUpdate}
    (h : m.Mirrors us []) (l : Link) :
    l ∈ m.links ↔ kindOf m.links l = some .directLink ∨ kindOf m.links l = some .multihopLink := by
  rw [mem_iff]
  constructor
  · rintro ⟨info, hinfo⟩
    have hkind : kindOf m.links l = some info.getLinkType :=
      congrArg (Option.map LinkInfo.getLinkType) hinfo
    have hseen := h.seen l not_mem_nil
    rw [hkind] at hseen ⊢
    unfold LinkInfo.getLinkType at hseen ⊢
    split_ifs at hseen ⊢ with hunicast hmulticast
    · exact .inl rfl
    · exact .inr rfl
    · exact absurd rfl hseen
  · rintro (hkind | hkind)
    · obtain ⟨info, hinfo, -⟩ := kindOf_eq_some.mp hkind
      exact ⟨info, hinfo⟩
    · obtain ⟨info, hinfo, -⟩ := kindOf_eq_some.mp hkind
      exact ⟨info, hinfo⟩

/-- **The topology mirrors link discovery.**  No sequence of operations raises
an exception, and once the queue is applied, in whatever batches, the topology
has the links of the table of discovery, each among those of its kind. -/
theorem topology_mirrors_discovery (tm : LinkManager)
    (calls : List (DiscoveryOrders × DiscoveryCall)) (hcalls : ∀ c ∈ calls, c.2.Seen) :
    ∃ m, calls.foldlM LinkDiscoveryManager.call .empty = some m ∧
      ∀ batches : List UpdateBatch, batches.flatMap UpdateBatch.ldUpdates = m.updates →
      ∃ tm', batches.foldlM LinkManager.applyBatch { tm with links := LinkStructure.empty } =
          some tm' ∧
        ∀ l, ((∃ npt, l ∈ tm'.links.directLinks.get npt) ↔
            ∃ info, m.links.lookup l = some info ∧ info.lastLldpReceivedTime ≠ none) ∧
          ((∃ npt, l ∈ tm'.links.portBroadcastDomainLinks.get npt) ↔
            ∃ info, m.links.lookup l = some info ∧ info.lastLldpReceivedTime = none ∧
              info.lastBddpReceivedTime ≠ none) ∧
          ((∃ npt, l ∈ tm'.links.switchPortLinks.get npt) ↔ l ∈ m.links) := by
  obtain ⟨m, hm, hmirrors⟩ := foldlM_rule (f := LinkDiscoveryManager.call) (l := calls)
    (fun _ m => m.Mirrors m.updates [])
    (fun done c rest m hsplit h => LinkDiscoveryManager.call_mirrors h
      (hcalls c (hsplit ▸ mem_append_right _ mem_cons_self)))
    LinkDiscoveryManager.mirrors_empty
  refine ⟨m, hm, fun batches hbatches => ?_⟩
  have hplain : ∀ b ∈ batches, ∀ u ∈ b.ldUpdates, u.Plain := by
    intro b hb u hu
    apply hmirrors.plain
    rw [← hbatches]
    exact mem_flatMap_of_mem hb hu
  have hempty : LinkManager.Shows { tm with links := LinkStructure.empty } fun _ => none :=
    ⟨∅, ∅, ⟨LinkStructure.represents_empty, rfl⟩, by simp, by simp⟩
  obtain ⟨tm', htm', D, B, hsound, hD, hB⟩ := LinkManager.applyBatches_shows hempty hplain
  refine ⟨tm', htm', fun l => ?_⟩
  have hdirect : l ∈ D ↔ LinkDiscoveryManager.kindOf m.links l = some .directLink := by
    rw [hD, hbatches, hmirrors.kinds l not_mem_nil]
  have hmultihop : l ∈ B ↔ LinkDiscoveryManager.kindOf m.links l = some .multihopLink := by
    rw [hB, hbatches, hmirrors.kinds l not_mem_nil]
  refine ⟨?_, ?_, ?_⟩
  · rw [hsound.1.direct.exists_mem_get, hdirect, kindOf_eq_some]
    simp only [getLinkType_eq_directLink]
  · rw [hsound.1.broadcast.exists_mem_get, hmultihop, kindOf_eq_some]
    simp only [getLinkType_eq_multihopLink]
  · rw [hsound.1.all.exists_mem_get, Finset.mem_union, hdirect, hmultihop, hmirrors.mem_links]

/-- A link that is first seen by a multicast frame, then by a unicast one. -/
noncomputable def upgradedLink : List (DiscoveryOrders × DiscoveryCall) :=
  let orders : DiscoveryOrders :=
    ⟨anyOrder Link, fun _ => anyOrder Link, fun _ => anyOrder Link⟩
  [(orders, .addOrUpdateLink ⟨1, 1, 2, 1⟩ ⟨0, none, some 0⟩),
    (orders, .addOrUpdateLink ⟨1, 1, 2, 1⟩ ⟨5, some 5, none⟩)]

def newManager : LinkManager where
  links := LinkStructure.empty
  linksUpdated := false
  accounts := TrafficState.resetTraffic
  matchPriority := fun _ => none
  forceClearSwitchID := fun _ => false
  tiMap := fun _ => none

theorem topology_mirrors_discovery_upgraded :
    ∃ m, upgradedLink.foldlM LinkDiscoveryManager.call .empty = some m ∧
      ∀ ord, ∃ tm', LinkManager.applyBatch newManager ⟨ord, m.updates⟩ = some tm' ∧
      (∃ npt, ⟨1, 1, 2, 1⟩ ∈ tm'.links.directLinks.get npt) ∧
      ¬ ∃ npt, ⟨1, 1, 2, 1⟩ ∈ tm'.links.portBroadcastDomainLinks.get npt := by
  have hseen : ∀ c ∈ upgradedLink, c.2.Seen := by
    intro c hc
    rcases mem_pair.mp hc with rfl | rfl
    · exact .inr nofun
    · exact .inl nofun
  obtain ⟨m, hm, hbatches⟩ := topology_mirrors_discovery newManager upgradedLink hseen
  have hlookup : m.links.lookup ⟨1, 1, 2, 1⟩ = some ⟨0, some 5, some 0⟩ := by
    obtain rfl := some.inj hm
    rfl
  refine ⟨m, hm, fun ord => ?_⟩
  obtain ⟨tm', htm', hlinks⟩ := hbatches [⟨ord, m.updates⟩] (append_nil _)
  obtain ⟨hdirect, hbroadcast, -⟩ := hlinks ⟨1, 1, 2, 1⟩
  refine ⟨tm', ?_, hdirect.mpr ⟨_, hlookup, nofun⟩, fun hl => ?_⟩
  · rw [foldlM_cons, bind_eq_bind, bind_eq_some_iff] at htm'
    obtain ⟨tm'', happlied, hsame⟩ := htm'
    obtain rfl := some.inj hsame
    exact happlied
  · obtain ⟨info, hinfo, hnone, -⟩ := hbroadcast.mp hl
    rw [hlookup] at hinfo
    cases hinfo
    cases hnone

end NctuSdn
