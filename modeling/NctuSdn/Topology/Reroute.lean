/-
Routing by priority (`TopologyManager.getRouteWithEthernetPacket` and what it
reads).

There is one topology instance per priority.  A packet is routed in the
instance of its priority; if most of that route is in use it is moved to the
next priority and routed again.  `getCurrentInstance` reads the map of
instances until it finds one, so it only comes back for the priorities that
`createNewInstance` puts in.

The instances themselves are a parameter: an `InstanceEngine` computes one
for each priority from the link structures and the traffic map and looks up
routes in it.  Nothing below depends on which routes it returns.
-/
import NctuSdn.Packet.Ethernet
import NctuSdn.Topology.Traffic

namespace NctuSdn

open Option List

/-! ### State -/

/-- How topology instances are made and asked for routes. -/
structure InstanceEngine (L T : Type*) where
  compute : L → (Link → Option LinkInfo) → Fin 3 → T
  getRoute : T → SwitchId → Port → SwitchId → Port → Option Route

structure MatchTrafficInfo where
  priority : ℤ
  oldP : ℤ
deriving DecidableEq, Repr

/-- `fresh`: the priority has not been raised. -/
def MatchTrafficInfo.fresh (info : MatchTrafficInfo) : Bool := info.priority == info.oldP

/-- The fields of `TopologyManager` that routing uses; `links` stands for its
link structures. -/
structure TopologyManager (L T : Type*) where
  links : L
  linksUpdated : Bool
  accounts : TrafficState
  matchPriority : OFMatch → Option MatchTrafficInfo
  forceClearSwitchID : SwitchId → Bool
  tiMap : ℤ → Option T

variable {L T : Type*} (engine : InstanceEngine L T) (tm : TopologyManager L T)

/-! ### Priorities -/

def ethernetToMatch (eth : Ethernet) : OFMatch :=
  { OFMatch.new with
    dataLayerDestination := eth.destinationMACAddress
    dataLayerSource := eth.sourceMACAddress
    dataLayerVirtualLan := eth.vlanID
    wildcards := ofpfwDlDst ||| ofpfwDlSrc ||| ofpfwDlVlan }

/-- The hosts 10.0.0.1, .3, .5 and .7 are of class 0. -/
def class0 : List (BitVec 32) := [0x0a000001, 0x0a000003, 0x0a000005, 0x0a000007]

/-- The hosts 10.0.0.2, .4, .6 and .8 are of class 1. -/
def class1 : List (BitVec 32) := [0x0a000002, 0x0a000004, 0x0a000006, 0x0a000008]

/-- The loop of `ethernetToPriority` over source and destination address. -/
def addressPriority (pri : ℤ) : List (BitVec 32) → ℤ
  | [] => pri
  | ip :: ips =>
    if ip ∈ class0 then addressPriority 0 ips
    else if ip ∈ class1 then addressPriority (min pri 1) ips
    else addressPriority pri ips

variable {engine tm}

def ofMatchToPriority (tm : TopologyManager L T) (m : OFMatch) : ℤ :=
  match tm.matchPriority m with
  | some info => info.priority
  | none => 0

def ethernetToPriority (tm : TopologyManager L T) (eth : Ethernet) : Except JavaException ℤ :=
  if eth.etherType = typeIPv4 then
    match eth.payload with
    | .ipv4 ipPkt =>
      let pri := addressPriority 2 [ipPkt.sourceAddress, ipPkt.destinationAddress]
      .ok (max pri (ofMatchToPriority tm (ethernetToMatch eth)))
    | .null => .error .nullPointer
    | _ => .error .classCast
  else .ok 0

/-! ### The re-route test -/

/-- The entries of a path at odd positions before the last one: where the
switches are left towards another switch. -/
def oddBeforeLast {α : Type*} : List α → List α
  | _ :: b :: c :: rest => b :: oddBeforeLast (c :: rest)
  | _ => []

/-- Whether one of the counters is above zero; null is dereferenced at a
priority without counter. -/
def anyUsed (linkInfo : LinkInfo) : List ℤ → Except JavaException Bool
  | [] => .ok false
  | p :: ps =>
    match priorityIndex p with
    | none => .error .nullPointer
    | some i => if 0 < linkInfo i then .ok true else anyUsed linkInfo ps

/-- The loop of `checkReRouteTraffic`: count the links of the path in use at
one of `ps`. -/
def countUsed (s : TrafficState) (ps : List ℤ) : List NodePortTuple → Except JavaException ℤ
  | [] => .ok 0
  | np :: nps =>
    match s.traffic (linkKey np.nodeId np.portId) with
    | none => countUsed s ps nps
    | some linkInfo =>
      match anyUsed linkInfo ps with
      | .error e => .error e
      | .ok used =>
        match countUsed s ps nps with
        | .error e => .error e
        | .ok count => .ok (if used then count + 1 else count)

/-- `checkReRouteTraffic`: a new match whose path is used over 50%. -/
def checkReRouteTraffic (tm : TopologyManager L T) (r : Option Route) (eth : Ethernet)
    (oldP : ℤ) : Except JavaException Bool :=
  if (tm.matchPriority (ethernetToMatch eth)).isSome then .ok false
  else
    match r with
    | none => .error .nullPointer
    | some r =>
      let ps := (List.range (oldP + 1).toNat).map fun p : ℕ => (p : ℤ)
      match countUsed tm.accounts ps (oddBeforeLast r.path) with
      | .error e => .error e
      | .ok count => .ok (decide (Int.tdiv (r.path.length - 2) 4 < count))

/-! ### Routing -/

/-- `getCurrentInstance`: read the map until there is an instance.  `none`
after `fuel` reads without one. -/
def getCurrentInstance (tiMap : ℤ → Option T) (priority : ℤ) : ℕ → Option T
  | 0 => none
  | fuel + 1 =>
    match tiMap priority with
    | some nt => some nt
    | none => getCurrentInstance tiMap priority fuel

/-- The loop over the stored matches: raise those that are below the new
priority's protection and not yet at the top. -/
def raiseInfo (priority : ℤ) (info : MatchTrafficInfo) : MatchTrafficInfo :=
  if (priority < info.oldP ∨ info.fresh) ∧ priority ≤ info.priority ∧ info.priority ≤ 1 then
    { info with priority := info.priority + 1 }
  else info

def setPriorityWithOFMatch (tm : TopologyManager L T) (m : OFMatch) (p oldPri : ℤ) :
    TopologyManager L T :=
  { tm with matchPriority := Function.update tm.matchPriority m (some ⟨p, oldPri⟩) }

/-- A request for a route; the cookie and the tunnel flag of the source play
no part. -/
structure RouteRequest where
  src : SwitchId
  srcPort : Port
  dst : SwitchId
  dstPort : Port
  eth : Ethernet

def InstanceEngine.route (engine : InstanceEngine L T) (ti : T) (q : RouteRequest) :
    Option Route :=
  engine.getRoute ti q.src q.srcPort q.dst q.dstPort

/-- The two loops behind a positive re-route test: the switches of the new path
are to be cleared, and stored matches are raised. -/
def makeWay (tm : TopologyManager L T) (route : Route) (priority : ℤ) : TopologyManager L T :=
  { tm with
    forceClearSwitchID := fun sw =>
      tm.forceClearSwitchID sw || (oddBeforeLast route.path).any (·.nodeId == sw)
    matchPriority := fun m => (tm.matchPriority m).map (raiseInfo priority) }

/-- The part of `getRouteWithEthernetPacket` behind a positive re-route test:
`priority` is the raised one. -/
def reRoute (tm : TopologyManager L T) (q : RouteRequest) (priority : ℤ) (r : Option Route) :
    TopologyManager L T × Except JavaException (Option Route) :=
  match r with
  | none => (tm, .error .nullPointer)
  | some route =>
    (setPriorityWithOFMatch (makeWay tm route priority) (ethernetToMatch q.eth) priority
      (priority - 1), .ok r)

/-- `getRouteWithEthernetPacket`; `none` when it is still waiting for an
instance after `fuel` reads. -/
def getRouteWithEthernetPacket (engine : InstanceEngine L T) (tm : TopologyManager L T)
    (q : RouteRequest) (fuel : ℕ) :
    Option (TopologyManager L T × Except JavaException (Option Route)) :=
  match ethernetToPriority tm q.eth with
  | .error e => some (tm, .error e)
  | .ok priority =>
    match getCurrentInstance tm.tiMap priority fuel with
    | none => none
    | some ti =>
      let r := engine.route ti q
      match checkReRouteTraffic tm r q.eth priority with
      | .error e => some (tm, .error e)
      | .ok false =>
        some (setPriorityWithOFMatch tm (ethernetToMatch q.eth) priority priority, .ok r)
      | .ok true =>
        match getCurrentInstance tm.tiMap (priority + 1) fuel with
        | none => none
        | some ti => some (reRoute tm q (priority + 1) (engine.route ti q))

/-- The priorities the call passes to `getCurrentInstance`. -/
def requestedPriorities (engine : InstanceEngine L T) (tm : TopologyManager L T)
    (q : RouteRequest) : List ℤ :=
  match ethernetToPriority tm q.eth with
  | .error _ => []
  | .ok priority =>
    match tm.tiMap priority with
    | none => [priority]
    | some ti =>
      match checkReRouteTraffic tm (engine.route ti q) q.eth priority with
      | .ok true => [priority, priority + 1]
      | _ => [priority]

/-! ### The other calls -/

/-- `createNewInstance`: one instance per priority, unless no link changed. -/
def createNewInstance (engine : InstanceEngine L T) (tm : TopologyManager L T) :
    TopologyManager L T :=
  if tm.linksUpdated then
    { tm with tiMap := fun p =>
        (priorityIndex p).map (engine.compute tm.links tm.accounts.traffic) }
  else tm

def refreshTopo (engine : InstanceEngine L T) (tm : TopologyManager L T) :
    TopologyManager L T :=
  createNewInstance engine { tm with linksUpdated := true }

def resetTraffic (engine : InstanceEngine L T) (tm : TopologyManager L T) :
    TopologyManager L T :=
  createNewInstance engine { tm with
    accounts := TrafficState.resetTraffic
    matchPriority := fun _ => none
    forceClearSwitchID := fun _ => false }

def TopologyManager.addTraffic (tm : TopologyManager L T) (sw : SwitchId) (port : Port)
    (priority : ℤ) (m : OFMatch) : TopologyManager L T :=
  { tm with accounts := (tm.accounts.addTraffic sw port priority m).1 }

/-- `removeTraffic`, with the refresh at its end. -/
def TopologyManager.removeTraffic (engine : InstanceEngine L T) (tm : TopologyManager L T)
    (sw : SwitchId) (port : Port) (priority : ℤ) (m : OFMatch) : TopologyManager L T :=
  match tm.accounts.removeTraffic sw port priority m with
  | (accounts, .ok true) => refreshTopo engine { tm with accounts := accounts }
  | (accounts, _) => { tm with accounts := accounts }

/-- `addOrUpdateLink` of a direct or multi-hop link and `removeLink`: whatever
they make of the link structures, they set the flag and reset the traffic. -/
def changeLinks (engine : InstanceEngine L T) (tm : TopologyManager L T) (links : L) :
    TopologyManager L T :=
  resetTraffic engine { tm with links := links, linksUpdated := true }

/-- `updateTopology`: apply queued link changes, then make new instances. -/
def updateTopology (engine : InstanceEngine L T) (tm : TopologyManager L T) (changes : List L) :
    TopologyManager L T :=
  createNewInstance engine (changes.foldl (changeLinks engine) { tm with linksUpdated := false })

/-- `init` and `startUp`, with the link structures cleared. -/
def startUp (engine : InstanceEngine L T) (links : L) : TopologyManager L T :=
  createNewInstance engine
    ⟨links, true, TrafficState.resetTraffic, fun _ => none, fun _ => false, fun _ => none⟩

/-- The calls that come back, with the state they leave. -/
inductive ManagerStep (engine : InstanceEngine L T) :
    TopologyManager L T → TopologyManager L T → Prop
  | route {tm tm' : TopologyManager L T} (q : RouteRequest) (fuel : ℕ)
      (r : Except JavaException (Option Route))
      (h : getRouteWithEthernetPacket engine tm q fuel = some (tm', r)) : ManagerStep engine tm tm'
  | add (tm : TopologyManager L T) (sw : SwitchId) (port : Port) (priority : ℤ) (m : OFMatch) :
      ManagerStep engine tm (tm.addTraffic sw port priority m)
  | remove (tm : TopologyManager L T) (sw : SwitchId) (port : Port) (priority : ℤ)
      (m : OFMatch) : ManagerStep engine tm (tm.removeTraffic engine sw port priority m)
  | reset (tm : TopologyManager L T) : ManagerStep engine tm (resetTraffic engine tm)
  | links (tm : TopologyManager L T) (links : L) :
      ManagerStep engine tm (changeLinks engine tm links)
  | update (tm : TopologyManager L T) (changes : List L) :
      ManagerStep engine tm (updateTopology engine tm changes)

/-- The states a manager gets into after `startUp`. -/
def ManagerReaches (engine : InstanceEngine L T) (tm : TopologyManager L T) : Prop :=
  ∃ links, Relation.ReflTransGen (ManagerStep engine) (startUp engine links) tm

/-! ### Stored priorities -/

/-- A priority that has an instance. -/
def IsPriority (p : ℤ) : Prop := 0 ≤ p ∧ p ≤ 2

theorem isSome_priorityIndex_iff (p : ℤ) : (priorityIndex p).isSome ↔ IsPriority p := by
  unfold priorityIndex IsPriority
  split
  next h => simp only [isSome_some, true_iff]; omega
  next h => simp only [isSome_none, Bool.false_eq_true, false_iff]; omega

/-- The invariant: stored priorities have an instance, and no other number has;
counters are not negative. -/
structure Bounded (tm : TopologyManager L T) : Prop where
  stored : ∀ m info, tm.matchPriority m = some info →
    IsPriority info.priority ∧ IsPriority info.oldP
  instances : ∀ p, (tm.tiMap p).isSome ↔ IsPriority p
  nonNegative : tm.accounts.NonNegative

theorem addressPriority_bounds {pri : ℤ} (h : IsPriority pri) (ips : List (BitVec 32)) :
    IsPriority (addressPriority pri ips) := by
  induction ips generalizing pri with
  | nil => exact h
  | cons ip ips ih =>
    change IsPriority (if ip ∈ class0 then addressPriority 0 ips
      else if ip ∈ class1 then addressPriority (min pri 1) ips else addressPriority pri ips)
    split
    · exact ih ⟨by omega, by omega⟩
    · split
      · exact ih ⟨by have := h.1; omega, by omega⟩
      · exact ih h

variable {eth : Ethernet} {p : ℤ}

/-- What is stored decides which priorities a packet can have. -/
theorem isPriority_ethernetToPriority
    (hstored : ∀ m info, tm.matchPriority m = some info → IsPriority info.priority)
    (hp : ethernetToPriority tm eth = .ok p) : IsPriority p := by
  have hmatch : IsPriority (ofMatchToPriority tm (ethernetToMatch eth)) := by
    unfold ofMatchToPriority
    split
    next info hinfo => exact hstored _ info hinfo
    next => exact ⟨by omega, by omega⟩
  unfold ethernetToPriority at hp
  split at hp
  · split at hp
    next ipPkt _ =>
      cases hp
      have haddress :
          IsPriority (addressPriority 2 [ipPkt.sourceAddress, ipPkt.destinationAddress]) :=
        addressPriority_bounds ⟨by omega, by omega⟩ _
      exact ⟨le_max_of_le_left haddress.1, max_le haddress.2 hmatch.2⟩
    next => cases hp
    next => cases hp
  · cases hp
    exact ⟨by omega, by omega⟩

theorem Bounded.ethernetToPriority (h : Bounded tm) (hp : ethernetToPriority tm eth = .ok p) :
    IsPriority p :=
  isPriority_ethernetToPriority (fun m info hinfo => (h.stored m info hinfo).1) hp

theorem raiseInfo_bounds {info : MatchTrafficInfo} (h : IsPriority info.priority) (p : ℤ) :
    IsPriority (raiseInfo p info).priority ∧ (raiseInfo p info).oldP = info.oldP := by
  unfold raiseInfo
  split
  next hcond => exact ⟨⟨by have := h.1; dsimp only; omega, by dsimp only; omega⟩, rfl⟩
  next => exact ⟨h, rfl⟩

theorem getCurrentInstance_succ (tiMap : ℤ → Option T) (p : ℤ) (fuel : ℕ) :
    getCurrentInstance tiMap p (fuel + 1) = tiMap p := by
  induction fuel with
  | zero => unfold getCurrentInstance; cases tiMap p <;> rfl
  | succ fuel ih =>
    unfold getCurrentInstance
    cases h : tiMap p with
    | none => exact ih.trans h
    | some nt => rfl

theorem of_getCurrentInstance_eq_some {tiMap : ℤ → Option T} {fuel : ℕ} {ti : T}
    (h : getCurrentInstance tiMap p fuel = some ti) : tiMap p = some ti := by
  cases fuel with
  | zero => cases h
  | succ fuel => rwa [getCurrentInstance_succ] at h

section

variable (h : Bounded tm)
include h

theorem Bounded.setPriority (m : OFMatch) {oldP : ℤ} (hp : IsPriority p) (hold : IsPriority oldP) :
    Bounded (setPriorityWithOFMatch tm m p oldP) := by
  refine ⟨fun m' info hinfo => ?_, h.instances, h.nonNegative⟩
  unfold setPriorityWithOFMatch at hinfo
  dsimp only at hinfo
  rcases eq_or_ne m' m with rfl | hne
  · rw [Function.update_self] at hinfo
    cases hinfo
    exact ⟨hp, hold⟩
  · rw [Function.update_of_ne hne] at hinfo
    exact h.stored m' info hinfo

theorem Bounded.makeWay (route : Route) (p : ℤ) :
    Bounded (makeWay tm route p) := by
  refine ⟨fun m info hinfo => ?_, h.instances, h.nonNegative⟩
  obtain ⟨info', hinfo', rfl⟩ := map_eq_some_iff.mp hinfo
  obtain ⟨hpri, hsame⟩ := raiseInfo_bounds (h.stored m info' hinfo').1 p
  exact ⟨hpri, hsame ▸ (h.stored m info' hinfo').2⟩

theorem Bounded.reRoute (q : RouteRequest) (hp : IsPriority p) (hold : IsPriority (p - 1))
    (r : Option Route) : Bounded (reRoute tm q p r).1 := by
  cases r with
  | none => exact h
  | some route => exact (h.makeWay route p).setPriority _ hp hold

theorem Bounded.route {q : RouteRequest} {fuel : ℕ} {tm' : TopologyManager L T}
    {r : Except JavaException (Option Route)}
    (hcall : getRouteWithEthernetPacket engine tm q fuel = some (tm', r)) : Bounded tm' := by
  unfold getRouteWithEthernetPacket at hcall
  split at hcall
  · cases hcall
    exact h
  · next priority hpri =>
    have hp := h.ethernetToPriority hpri
    split at hcall
    · cases hcall
    · -- the packet keeps its priority or moves to the next one, which has an
      -- instance because the second wait has ended too
      dsimp only at hcall
      split at hcall
      · cases hcall
        exact h
      · cases hcall
        exact h.setPriority _ hp hp
      · split at hcall
        · cases hcall
        · next ti hti =>
          have hnext : IsPriority (priority + 1) :=
            (h.instances _).mp (isSome_of_mem (of_getCurrentInstance_eq_some hti))
          have hstate : (NctuSdn.reRoute tm q (priority + 1) (engine.route ti q)).1 = tm' :=
            congrArg Prod.fst (some.inj hcall)
          rw [← hstate]
          exact h.reRoute q hnext (by rwa [add_sub_cancel_right]) _

theorem Bounded.createNewInstance : Bounded (createNewInstance engine tm) := by
  unfold NctuSdn.createNewInstance
  split
  · refine ⟨h.stored, fun p => ?_, h.nonNegative⟩
    rw [isSome_map]
    exact isSome_priorityIndex_iff p
  · exact h

theorem Bounded.resetTraffic : Bounded (resetTraffic engine tm) :=
  Bounded.createNewInstance
    ⟨fun _ _ hinfo => (by cases hinfo), h.instances, TrafficState.nonNegative_resetTraffic⟩

theorem Bounded.changeLinks (links : L) :
    Bounded (changeLinks engine tm links) :=
  Bounded.resetTraffic ⟨h.stored, h.instances, h.nonNegative⟩

theorem Bounded.foldl_changeLinks (changes : List L) :
    Bounded (changes.foldl (NctuSdn.changeLinks engine) tm) := by
  induction changes generalizing tm with
  | nil => exact h
  | cons links changes ih => exact ih (h.changeLinks links)

end

theorem Bounded.startUp (engine : InstanceEngine L T) (links : L) :
    Bounded (startUp engine links) := by
  unfold NctuSdn.startUp NctuSdn.createNewInstance
  refine ⟨fun _ _ hinfo => (by cases hinfo), fun p => ?_, TrafficState.nonNegative_resetTraffic⟩
  rw [if_pos rfl, isSome_map]
  exact isSome_priorityIndex_iff p

/-- **Every call that comes back keeps the priorities bounded.** -/
theorem Bounded.step (h : Bounded tm) {tm' : TopologyManager L T}
    (hstep : ManagerStep engine tm tm') : Bounded tm' := by
  cases hstep with
  | route q fuel r hcall => exact h.route hcall
  | add sw port priority m =>
    exact ⟨h.stored, h.instances, h.nonNegative.addTraffic sw port priority m⟩
  | remove sw port priority m =>
    have hnonNegative := h.nonNegative.removeTraffic sw port priority m
    unfold TopologyManager.removeTraffic
    split
    next heq =>
      rw [heq] at hnonNegative
      exact Bounded.createNewInstance ⟨h.stored, h.instances, hnonNegative⟩
    next heq =>
      rw [heq] at hnonNegative
      exact ⟨h.stored, h.instances, hnonNegative⟩
  | reset => exact h.resetTraffic
  | links links => exact h.changeLinks links
  | update changes =>
    have hflag : Bounded { tm with linksUpdated := false } :=
      ⟨h.stored, h.instances, h.nonNegative⟩
    exact (hflag.foldl_changeLinks changes).createNewInstance

theorem ManagerReaches.bounded (h : ManagerReaches engine tm) : Bounded tm := by
  obtain ⟨links, hrun⟩ := h
  induction hrun with
  | refl => exact Bounded.startUp engine links
  | tail _ hstep ih => exact ih.step hstep

/-! ### When a call returns -/

/-- The packet has the last priority and is to be moved to the next one. -/
def Escalates (engine : InstanceEngine L T) (tm : TopologyManager L T) (q : RouteRequest) : Prop :=
  ethernetToPriority tm q.eth = .ok 2 ∧
    ∃ ti, tm.tiMap 2 = some ti ∧ checkReRouteTraffic tm (engine.route ti q) q.eth 2 = .ok true

/-- The call dereferences null or casts the wrong payload: the frame says IPv4
and carries something else, a new match has no route, or there is none at the
priority it is moved to. -/
def Raises (engine : InstanceEngine L T) (tm : TopologyManager L T) (q : RouteRequest) : Prop :=
  (q.eth.etherType = typeIPv4 ∧ ∀ ipPkt, q.eth.payload ≠ .ipv4 ipPkt) ∨
  ∃ p ti, ethernetToPriority tm q.eth = .ok p ∧ tm.tiMap p = some ti ∧
    ((tm.matchPriority (ethernetToMatch q.eth) = none ∧ engine.route ti q = none) ∨
    (checkReRouteTraffic tm (engine.route ti q) q.eth p = .ok true ∧
      ∃ ti', tm.tiMap (p + 1) = some ti' ∧ engine.route ti' q = none))

theorem ethernetToPriority_error {e : JavaException} (h : ethernetToPriority tm eth = .error e) :
    eth.etherType = typeIPv4 ∧ ∀ ipPkt, eth.payload ≠ .ipv4 ipPkt := by
  unfold ethernetToPriority at h
  split at h
  next htype =>
    refine ⟨htype, fun ipPkt hpayload => ?_⟩
    rw [hpayload] at h
    cases h
  next => cases h

theorem ethernetToPriority_of_not_ipv4 (tm : TopologyManager L T) (htype : eth.etherType = typeIPv4)
    (hpayload : ∀ ipPkt, eth.payload ≠ .ipv4 ipPkt) :
    ∃ e, ethernetToPriority tm eth = .error e := by
  unfold ethernetToPriority
  rw [if_pos htype]
  split
  next ipPkt heq => exact absurd heq (hpayload ipPkt)
  next => exact ⟨_, rfl⟩
  next => exact ⟨_, rfl⟩

theorem IsPriority.exists_index (hp : IsPriority p) :
    ∃ i : Fin 3, (i : ℤ) = p ∧ priorityIndex p = some i := by
  obtain ⟨hlow, hhigh⟩ := hp
  exact ⟨⟨p.toNat, by omega⟩, Int.toNat_of_nonneg hlow, dif_pos ⟨hlow, by omega⟩⟩

theorem anyUsed_eq (linkInfo : LinkInfo) {ps : List ℤ} (h : ∀ p ∈ ps, IsPriority p) :
    anyUsed linkInfo ps = .ok (decide (∃ i : Fin 3, (i : ℤ) ∈ ps ∧ 0 < linkInfo i)) := by
  induction ps with
  | nil => simp [anyUsed]
  | cons p ps ih =>
    obtain ⟨hp, hps⟩ := forall_mem_cons.mp h
    obtain ⟨i, rfl, hi⟩ := hp.exists_index
    have hcoe (j : Fin 3) : (j : ℤ) = i ↔ j = i := by omega
    simp only [anyUsed, hi, mem_cons, hcoe, or_and_right, exists_or, exists_eq_left, ih hps]
    by_cases hused : 0 < linkInfo i <;> simp [hused]

theorem countUsed_eq (s : TrafficState) {ps : List ℤ} (h : ∀ p ∈ ps, IsPriority p)
    (nps : List NodePortTuple) :
    countUsed s ps nps = .ok (nps.countP fun np => (s.traffic (linkKey np.nodeId np.portId)).any
      fun linkInfo => decide (∃ i : Fin 3, (i : ℤ) ∈ ps ∧ 0 < linkInfo i)) := by
  induction nps with
  | nil => rfl
  | cons np nps ih =>
    unfold countUsed
    rw [countP_cons, ih]
    cases s.traffic (linkKey np.nodeId np.portId) with
    | none => simp
    | some linkInfo =>
      simp only [anyUsed_eq linkInfo h, any_some]
      split <;> simp

theorem isPriority_of_mem (hp : p ≤ 2) {p' : ℤ}
    (hp' : p' ∈ (range (p + 1).toNat).map fun p : ℕ => (p : ℤ)) : IsPriority p' := by
  obtain ⟨n, hn, rfl⟩ := mem_map.mp hp'
  have hn := mem_range.mp hn
  exact ⟨by omega, by omega⟩

theorem checkReRouteTraffic_error {r : Option Route} (hp : IsPriority p) {e : JavaException}
    (h : checkReRouteTraffic tm r eth p = .error e) :
    tm.matchPriority (ethernetToMatch eth) = none ∧ r = none := by
  unfold checkReRouteTraffic at h
  split at h
  next => cases h
  next hnew =>
    refine ⟨by simpa using hnew, ?_⟩
    cases r with
    | none => rfl
    | some r =>
      dsimp only at h
      rw [countUsed_eq _ fun _ => isPriority_of_mem hp.2] at h
      cases h

theorem checkReRouteTraffic_none (h : tm.matchPriority (ethernetToMatch eth) = none) :
    checkReRouteTraffic tm none eth p = .error .nullPointer := by
  unfold checkReRouteTraffic
  rw [h]
  rfl

theorem oddBeforeLast_path (hops : List Hop) :
    oddBeforeLast (hops.flatMap fun h => [⟨h.switchDPID, h.inPort⟩, ⟨h.switchDPID, h.outPort⟩]) =
      hops.dropLast.map fun h => (⟨h.switchDPID, h.outPort⟩ : NodePortTuple) := by
  induction hops with
  | nil => rfl
  | cons h hops ih =>
    cases hops with
    | nil => rfl
    | cons h' hops => exact congrArg (_ :: ·) ih

/-- A flow of a priority up to `p` leaves by the output port. -/
def InUse (s : TrafficState) (p : ℤ) (h : Hop) : Bool :=
  (s.traffic (linkKey h.switchDPID h.outPort)).any fun linkInfo =>
    decide (∃ i : Fin 3, (i : ℤ) ≤ p ∧ 0 < linkInfo i)

/-- **The re-route test**: the packet is new, and more than half of the hops to another switch
are in use. -/
theorem reroute_test_eq (tm : TopologyManager L T) (r : Route) (eth : Ethernet) (hp : p ≤ 2) :
    checkReRouteTraffic tm (some r) eth p = .ok (decide
      (tm.matchPriority (ethernetToMatch eth) = none ∧
        r.hops.dropLast.length < 2 * r.hops.dropLast.countP (InUse tm.accounts p))) := by
  unfold checkReRouteTraffic
  cases tm.matchPriority (ethernetToMatch eth) with
  | some info => simp
  | none =>
    have hlength : r.path.length = 2 * r.hops.length := by
      simp [Route.path, Nat.mul_comm]
    have hmem (i : Fin 3) :
        (i : ℤ) ∈ ((range (p + 1).toNat).map fun p : ℕ => (p : ℤ)) ↔ (i : ℤ) ≤ p := by
      simp only [List.mem_map, List.mem_range]
      exact ⟨fun ⟨n, hn, heq⟩ => by omega, fun hi => ⟨i, by omega, rfl⟩⟩
    dsimp only [isSome_none]
    rw [if_neg Bool.false_ne_true, countUsed_eq _ fun _ => isPriority_of_mem hp, hlength,
      Route.path, oddBeforeLast_path, countP_map]
    simp only [hmem]
    refine congrArg _ (decide_eq_decide.mpr ?_)
    change Int.tdiv _ 4 < ((r.hops.dropLast.countP (InUse tm.accounts p) : ℕ) : ℤ) ↔ _
    rw [length_dropLast]
    cases r.hops with
    | nil => simp
    | cons h hops =>
      rw [length_cons, Int.tdiv_eq_ediv_of_nonneg (by omega)]
      simp only [true_and]
      omega

theorem getRouteWithEthernetPacket_succ (engine : InstanceEngine L T) (q : RouteRequest)
    (fuel : ℕ) {priority : ℤ} {ti : T}
    (hpri : ethernetToPriority tm q.eth = .ok priority) (hti : tm.tiMap priority = some ti) :
    getRouteWithEthernetPacket engine tm q (fuel + 1) =
      match checkReRouteTraffic tm (engine.route ti q) q.eth priority with
      | .error e => some (tm, .error e)
      | .ok false => some (setPriorityWithOFMatch tm (ethernetToMatch q.eth) priority priority,
          .ok (engine.route ti q))
      | .ok true =>
        (tm.tiMap (priority + 1)).map fun ti =>
          reRoute tm q (priority + 1) (engine.route ti q) := by
  unfold getRouteWithEthernetPacket
  rw [hpri]
  dsimp only
  rw [getCurrentInstance_succ, getCurrentInstance_succ, hti]
  cases tm.tiMap (priority + 1) <;> rfl

/-- A call that neither escalates nor raises returns, and asks for instances
that exist only. -/
theorem Bounded.returns (h : Bounded tm) {q : RouteRequest} (hesc : ¬ Escalates engine tm q)
    (hraise : ¬ Raises engine tm q) :
    (∀ p ∈ requestedPriorities engine tm q, IsPriority p) ∧
      ∃ fuel tm' r, getRouteWithEthernetPacket engine tm q fuel = some (tm', .ok r) := by
  cases hpri : NctuSdn.ethernetToPriority tm q.eth with
  | error e => exact absurd (.inl (ethernetToPriority_error hpri)) hraise
  | ok p =>
    have hp := h.ethernetToPriority hpri
    obtain ⟨ti, hti⟩ := isSome_iff_exists.mp ((h.instances p).mpr hp)
    have hcall := fun fuel => getRouteWithEthernetPacket_succ engine q fuel hpri hti
    unfold requestedPriorities
    rw [hpri]
    dsimp only
    rw [hti]
    dsimp only
    cases hcheck : checkReRouteTraffic tm (engine.route ti q) q.eth p with
    | error e =>
      exact absurd (.inr ⟨p, ti, hpri, hti, .inl (checkReRouteTraffic_error hp hcheck)⟩) hraise
    | ok again =>
      rw [hcheck] at hcall
      cases again with
      | false => exact ⟨by simpa using hp, 1, _, _, hcall 0⟩
      | true =>
        have hp2 : p ≠ 2 := fun heq => hesc ⟨heq ▸ hpri, ti, heq ▸ hti, heq ▸ hcheck⟩
        have hnext : IsPriority (p + 1) := ⟨by have := hp.1; omega, by have := hp.2; omega⟩
        obtain ⟨ti', hti'⟩ := isSome_iff_exists.mp ((h.instances _).mpr hnext)
        refine ⟨by simpa using ⟨hp, hnext⟩, 1, ?_⟩
        have hcall := hcall 0
        rw [hti'] at hcall
        cases hroute : engine.route ti' q with
        | none =>
          exact absurd (.inr ⟨p, ti, hpri, hti, .inr ⟨hcheck, ti', hti', hroute⟩⟩) hraise
        | some route =>
          rw [map_some, hroute] at hcall
          exact ⟨_, _, hcall⟩

theorem not_raises_of_returns {q : RouteRequest} {fuel : ℕ} {tm' : TopologyManager L T}
    {r : Option Route} (hcall : getRouteWithEthernetPacket engine tm q fuel = some (tm', .ok r)) :
    ¬ Raises engine tm q := by
  rintro (⟨htype, hpayload⟩ | ⟨p, ti, hpri, hti, hraise⟩)
  · obtain ⟨e, he⟩ := ethernetToPriority_of_not_ipv4 tm htype hpayload
    unfold getRouteWithEthernetPacket at hcall
    rw [he] at hcall
    cases hcall
  · cases fuel with
    | zero =>
      unfold getRouteWithEthernetPacket at hcall
      rw [hpri] at hcall
      cases hcall
    | succ fuel =>
      rw [getRouteWithEthernetPacket_succ engine q fuel hpri hti] at hcall
      rcases hraise with ⟨hnew, hroute⟩ | ⟨hcheck, ti', hti', hroute⟩
      · rw [hroute, checkReRouteTraffic_none hnew] at hcall
        cases hcall
      · rw [hcheck, hti', map_some, hroute] at hcall
        cases hcall

theorem three_mem_requestedPriorities {q : RouteRequest} (h : Escalates engine tm q) :
    3 ∈ requestedPriorities engine tm q := by
  obtain ⟨hpri, ti, hti, hcheck⟩ := h
  unfold requestedPriorities
  rw [hpri]
  dsimp only
  rw [hti]
  dsimp only
  rw [hcheck]
  decide

/-- **When a route request returns.**  In every reachable state the stored
priorities are 0, 1 or 2, and a request asks for instances of these priorities
only and returns, unless it moves a packet of priority 2 to the next one or
raises an exception. -/
theorem route_returns_iff (engine : InstanceEngine L T) (tm : TopologyManager L T)
    (hreach : ManagerReaches engine tm) (q : RouteRequest) :
    (∀ m info, tm.matchPriority m = some info → IsPriority info.priority) ∧
    (((∀ p ∈ requestedPriorities engine tm q, IsPriority p) ∧
      ∃ fuel tm' r, getRouteWithEthernetPacket engine tm q fuel = some (tm', .ok r)) ↔
      ¬ Escalates engine tm q ∧ ¬ Raises engine tm q) := by
  have hbounded := hreach.bounded
  refine ⟨fun m info hinfo => (hbounded.stored m info hinfo).1, ?_, ?_⟩
  · rintro ⟨hall, fuel, tm', r, hcall⟩
    refine ⟨fun hesc => ?_, not_raises_of_returns hcall⟩
    have hthree := hall 3 (three_mem_requestedPriorities hesc)
    exact absurd hthree.2 (by decide)
  · exact fun ⟨hesc, hraise⟩ => hbounded.returns hesc hraise

/-! ### Two switches -/

def twoSwitches : InstanceEngine Unit Unit where
  compute _ _ _ := ()
  getRoute _ _ _ _ _ := some ⟨[⟨1, 1, 2⟩, ⟨2, 1, 2⟩], by decide⟩

def unclassified : RouteRequest where
  src := 1
  srcPort := 1
  dst := 2
  dstPort := 2
  eth := ⟨0x0a, 0x09, vlanUntagged, typeIPv4, .ipv4 ⟨0x0a000009, 0x0a00000a, 17, .null⟩⟩

theorem route_returns_idle :
    ∃ fuel tm' r, getRouteWithEthernetPacket twoSwitches (startUp twoSwitches ()) unclassified
      fuel = some (tm', .ok r) := by
  refine ((route_returns_iff twoSwitches _ ⟨(), Relation.ReflTransGen.refl⟩ unclassified).2.mpr
    ⟨?_, ?_⟩).2
  · rintro ⟨-, ti, -, hcheck⟩
    cases hcheck
  · rintro (⟨-, hpayload⟩ | ⟨p, ti, -, -, ⟨-, hroute⟩ | ⟨-, ti', -, hroute⟩⟩)
    · exact hpayload _ rfl
    · cases hroute
    · cases hroute

theorem reroute_test_loaded :
    checkReRouteTraffic ((startUp twoSwitches ()).addTraffic 1 2 0 (OFMatch.new.setWildcards 0))
      (some ⟨[⟨1, 1, 2⟩, ⟨2, 1, 2⟩], by decide⟩) unclassified.eth 2 = .ok true :=
  (reroute_test_eq _ _ _ (by decide)).trans rfl

/-- With one flow on the link, the packet is moved to priority 3 and the call
waits for ever. -/
theorem route_waits_forever :
    ∃ tm, ManagerReaches twoSwitches tm ∧ ¬ Raises twoSwitches tm unclassified ∧
      3 ∈ requestedPriorities twoSwitches tm unclassified ∧
      ∀ fuel, getRouteWithEthernetPacket twoSwitches tm unclassified fuel = none := by
  refine ⟨(startUp twoSwitches ()).addTraffic 1 2 0 (OFMatch.new.setWildcards 0),
    ⟨(), Relation.ReflTransGen.single (ManagerStep.add _ _ _ _ _)⟩, ?_, by decide, fun fuel => ?_⟩
  · rintro (⟨-, hpayload⟩ | ⟨p, ti, -, -, ⟨-, hroute⟩ | ⟨-, ti', -, hroute⟩⟩)
    · exact hpayload _ rfl
    · cases hroute
    · cases hroute
  · cases fuel with
    | zero => rfl
    | succ fuel =>
      have hpri : ethernetToPriority ((startUp twoSwitches ()).addTraffic 1 2 0
          (OFMatch.new.setWildcards 0)) unclassified.eth = .ok 2 := rfl
      rw [getRouteWithEthernetPacket_succ twoSwitches unclassified fuel hpri rfl]
      rfl

end NctuSdn
