/-
What a caller gets to know about a routed packet
(`TopologyManager.getRouteWithEthernetPacket` and `ethernetToPriority`, as
`Forwarding.doForwardFlow` uses them).

`doForwardFlow` asks for a route and then, separately, for the priority of the
packet, which goes into the cookies of the flow.  The second answer is the
priority of the instance that the route comes from, except for a packet other
than IPv4 that was moved to the next priority: its priority is always 0.

A missing route is tested for by the caller, but the re-route test follows the
path before that, unless the match of the packet is stored already.
-/
import NctuSdn.Topology.Reroute
import NctuSdn.Topology.Routing

namespace NctuSdn

variable {L T : Type*} {engine : InstanceEngine L T} {tm tm' : TopologyManager L T}
  {q : RouteRequest}

/-! ### Where a route comes from -/

/-- The packet is moved to the next priority: its match is new, and too much
of the route at its own priority is in use. -/
def Moved (engine : InstanceEngine L T) (tm : TopologyManager L T) (q : RouteRequest)
    (priority : ℤ) : Prop :=
  ∃ ti, tm.tiMap priority = some ti ∧
    checkReRouteTraffic tm (engine.route ti q) q.eth priority = .ok true

/-- The priority of the instance that is asked last. -/
def routedPriority (engine : InstanceEngine L T) (tm : TopologyManager L T) (q : RouteRequest) :
    Option ℤ :=
  (requestedPriorities engine tm q).getLast?

theorem matchPriority_setPriority (m : OFMatch) (p oldP : ℤ) :
    (setPriorityWithOFMatch tm m p oldP).matchPriority m = some ⟨p, oldP⟩ :=
  Function.update_self m _ tm.matchPriority

/-- **A returned route** is the one of the packet's priority, or of the next one
if the packet is moved, and that priority is stored for its match. -/
theorem route_inversion {fuel : ℕ} {r : Option Route}
    (h : getRouteWithEthernetPacket engine tm q fuel = some (tm', .ok r)) :
    ∃ priority p ti oldP, ethernetToPriority tm q.eth = .ok priority ∧
      routedPriority engine tm q = some p ∧ tm.tiMap p = some ti ∧ engine.route ti q = r ∧
      tm'.matchPriority (ethernetToMatch q.eth) = some ⟨p, oldP⟩ ∧
      (p = priority + 1 ∧ Moved engine tm q priority ∨
        p = priority ∧ ¬ Moved engine tm q priority) := by
  unfold getRouteWithEthernetPacket at h
  unfold routedPriority requestedPriorities
  cases hpriority : ethernetToPriority tm q.eth with
  | error e =>
    rw [hpriority] at h
    cases h
  | ok priority =>
    rw [hpriority] at h
    dsimp only at h ⊢
    cases hwait : getCurrentInstance tm.tiMap priority fuel with
    | none =>
      rw [hwait] at h
      cases h
    | some ti =>
      have hti := of_getCurrentInstance_eq_some hwait
      rw [hwait] at h
      dsimp only at h
      rw [hti]
      dsimp only
      cases hcheck : checkReRouteTraffic tm (engine.route ti q) q.eth priority with
      | error e =>
        rw [hcheck] at h
        cases h
      | ok again =>
        rw [hcheck] at h
        cases again with
        | false =>
          cases h
          refine ⟨priority, priority, ti, priority, rfl, rfl, hti, rfl,
            matchPriority_setPriority _ _ _, .inr ⟨rfl, ?_⟩⟩
          rintro ⟨ti', hti', hcheck'⟩
          cases hti.symm.trans hti'
          cases hcheck.symm.trans hcheck'
        | true =>
          -- the flow moves to the next priority
          cases hnext : getCurrentInstance tm.tiMap (priority + 1) fuel with
          | none =>
            rw [hnext] at h
            cases h
          | some ti' =>
            rw [hnext] at h
            dsimp only at h
            cases hroute : engine.route ti' q with
            | none =>
              rw [hroute] at h
              cases h
            | some route =>
              rw [hroute] at h
              cases h
              exact ⟨priority, priority + 1, ti', _, rfl, rfl,
                of_getCurrentInstance_eq_some hnext, hroute,
                matchPriority_setPriority _ _ _, .inl ⟨rfl, ti, hti, hcheck⟩⟩

/-! ### The priority of a packet after it was routed -/

/-- The priority of an IPv4 packet: that of its addresses or of its match,
whichever is higher. -/
theorem ethernetToPriority_ipv4 (tm : TopologyManager L T) {eth : Ethernet} {ipPkt : IPv4}
    (htype : eth.etherType = typeIPv4) (hpayload : eth.payload = .ipv4 ipPkt) :
    ethernetToPriority tm eth =
      .ok (max (addressPriority 2 [ipPkt.sourceAddress, ipPkt.destinationAddress])
        (ofMatchToPriority tm (ethernetToMatch eth))) := by
  unfold ethernetToPriority
  rw [if_pos htype, hpayload]

theorem exists_ipv4_of_priority {eth : Ethernet} {p : ℤ} (htype : eth.etherType = typeIPv4)
    (h : ethernetToPriority tm eth = .ok p) : ∃ ipPkt, eth.payload = .ipv4 ipPkt := by
  by_contra hnone
  obtain ⟨e, he⟩ := ethernetToPriority_of_not_ipv4 tm htype fun ipPkt hpayload =>
    hnone ⟨ipPkt, hpayload⟩
  cases h.symm.trans he

theorem ethernetToPriority_of_not_ipv4Type {eth : Ethernet} (h : eth.etherType ≠ typeIPv4) :
    ethernetToPriority tm eth = .ok 0 := by
  exact if_neg h

/-- **A flow is tagged with the priority it was routed with** exactly if it is
IPv4 or was not moved to the next priority. -/
theorem tag_eq_routed_priority_iff (engine : InstanceEngine L T) (tm tm' : TopologyManager L T)
    (q : RouteRequest) (fuel : ℕ) (route : Route)
    (h : getRouteWithEthernetPacket engine tm q fuel = some (tm', .ok (some route))) :
    ∃ p ti, routedPriority engine tm q = some p ∧ tm.tiMap p = some ti ∧
      engine.route ti q = some route ∧
      (ethernetToPriority tm' q.eth = .ok p ↔
        q.eth.etherType = typeIPv4 ∨ ¬ Moved engine tm q 0) := by
  obtain ⟨priority, p, ti, oldP, hpriority, hrouted, hti, hroute, hstored, hmoved⟩ :=
    route_inversion h
  refine ⟨p, ti, hrouted, hti, hroute, ?_⟩
  by_cases htype : q.eth.etherType = typeIPv4
  · -- the priority was raised to what is stored now
    refine iff_of_true ?_ (.inl htype)
    obtain ⟨ipPkt, hpayload⟩ := exists_ipv4_of_priority htype hpriority
    rw [ethernetToPriority_ipv4 tm htype hpayload] at hpriority
    have hle := (le_max_left _ _).trans_eq (Except.ok.inj hpriority)
    have hp : priority ≤ p := by omega
    have hstored' : ofMatchToPriority tm' (ethernetToMatch q.eth) = p := by
      unfold ofMatchToPriority
      rw [hstored]
    rw [ethernetToPriority_ipv4 tm' htype hpayload, hstored', max_eq_right (hle.trans hp)]
  · rw [ethernetToPriority_of_not_ipv4Type htype] at hpriority ⊢
    cases hpriority
    rw [or_iff_right htype]
    rcases hmoved with ⟨rfl, hmoved⟩ | ⟨rfl, hmoved⟩
    · exact iff_of_false (fun heq => by cases heq) (not_not.mpr hmoved)
    · exact iff_of_true rfl hmoved

/-! ### Missing routes -/

/-- `getRoute` of an instance is null for a switch port and itself. -/
def InstanceEngine.NullOnSame (engine : InstanceEngine L T) : Prop :=
  ∀ ti sw port, engine.getRoute ti sw port sw port = none

/-- No current instance has a route for the request, or its ends are one switch
port. -/
def Unroutable (engine : InstanceEngine L T) (tm : TopologyManager L T) (q : RouteRequest) :
    Prop :=
  (∀ p ti, tm.tiMap p = some ti → engine.route ti q = none) ∨
    (q.src = q.dst ∧ q.srcPort = q.dstPort)

theorem Unroutable.route (hsame : engine.NullOnSame) (h : Unroutable engine tm q) {p : ℤ} {ti : T}
    (hti : tm.tiMap p = some ti) : engine.route ti q = none := by
  rcases h with h | ⟨hsw, hport⟩
  · exact h p ti hti
  · unfold InstanceEngine.route
    rw [hsw, hport]
    exact hsame ti q.dst q.dstPort

/-- The instances that are computed, whatever makes a route of a path. -/
def computedEngine (compute : L → (Link → Option LinkInfo) → Fin 3 → ComputedInstance)
    (toRoute : List NodePortTuple → Option Route) : InstanceEngine L ComputedInstance where
  compute := compute
  getRoute i src srcPort dst dstPort :=
    match i.getRoute src srcPort dst dstPort with
    | some (some path) => toRoute path
    | _ => none

theorem nullOnSame_computedEngine
    (compute : L → (Link → Option LinkInfo) → Fin 3 → ComputedInstance)
    (toRoute : List NodePortTuple → Option Route) :
    (computedEngine compute toRoute).NullOnSame := by
  intro i sw port
  have hroute : i.getRoute sw port sw port = some none := by
    exact if_pos ⟨rfl, rfl⟩
  unfold computedEngine
  dsimp only
  rw [hroute]

/-- **When a missing route is reported as null.**  The call returns null for a
packet that is what its type says and whose match is stored, and throws for
any other. -/
theorem unroutable_null_iff (engine : InstanceEngine L T) (hsame : engine.NullOnSame)
    (tm : TopologyManager L T) (hinstances : ∀ p, IsPriority p → (tm.tiMap p).isSome)
    (hstored : ∀ m info, tm.matchPriority m = some info → 0 ≤ info.priority ∧ info.priority ≤ 1)
    (q : RouteRequest) (hq : Unroutable engine tm q) :
    (∃ fuel tm', getRouteWithEthernetPacket engine tm q fuel = some (tm', .ok none)) ↔
      (q.eth.etherType = typeIPv4 → ∃ ipPkt, q.eth.payload = .ipv4 ipPkt) ∧
        (tm.matchPriority (ethernetToMatch q.eth)).isSome := by
  have hinstance : ∀ {p}, ethernetToPriority tm q.eth = .ok p → ∃ ti, tm.tiMap p = some ti :=
    fun hp => Option.isSome_iff_exists.mp <| hinstances _ <| isPriority_ethernetToPriority
      (fun m info hinfo =>
        ⟨(hstored m info hinfo).1, by have := (hstored m info hinfo).2; omega⟩) hp
  constructor
  · rintro ⟨fuel, tm', hcall⟩
    obtain ⟨priority, -, -, -, hpriority, -⟩ := route_inversion hcall
    refine ⟨fun htype => exists_ipv4_of_priority htype hpriority, ?_⟩
    by_contra hnew
    obtain ⟨ti, hti⟩ := hinstance hpriority
    exact not_raises_of_returns hcall (.inr ⟨priority, ti, hpriority, hti,
      .inl ⟨by simpa using hnew, hq.route hsame hti⟩⟩)
  · rintro ⟨hpayload, hknown⟩
    cases hpriority : ethernetToPriority tm q.eth with
    | error e =>
      obtain ⟨htype, hnone⟩ := ethernetToPriority_error hpriority
      obtain ⟨ipPkt, hipv4⟩ := hpayload htype
      exact absurd hipv4 (hnone ipPkt)
    | ok priority =>
      obtain ⟨ti, hti⟩ := hinstance hpriority
      have hcheck : checkReRouteTraffic tm (engine.route ti q) q.eth priority = .ok false := by
        exact if_pos hknown
      refine ⟨1, setPriorityWithOFMatch tm (ethernetToMatch q.eth) priority priority, ?_⟩
      rw [getRouteWithEthernetPacket_succ engine q 0 hpriority hti, hcheck]
      rw [hq.route hsame hti]

/-! ### An ARP reply over a busy link, and a packet without route -/

theorem tag_eq_routed_priority_idle :
    ∃ tm' p, getRouteWithEthernetPacket twoSwitches (startUp twoSwitches ()) unclassified 1 =
        some (tm', .ok (twoSwitches.route () unclassified)) ∧
      routedPriority twoSwitches (startUp twoSwitches ()) unclassified = some p ∧
      ethernetToPriority tm' unclassified.eth = .ok p := by
  have hcall : getRouteWithEthernetPacket twoSwitches (startUp twoSwitches ()) unclassified 1 =
      some (_, .ok (twoSwitches.route () unclassified)) := rfl
  obtain ⟨p, ti, hp, -, -, hiff⟩ := tag_eq_routed_priority_iff _ _ _ _ _ _ hcall
  exact ⟨_, p, hcall, hp, hiff.mpr (.inl rfl)⟩

def arpReply : RouteRequest where
  src := 1
  srcPort := 1
  dst := 2
  dstPort := 2
  eth := ⟨0x0a, 0x09, vlanUntagged, typeARP, .arp ⟨2, 0x09, 0x0a000009, 0x0a, 0x0a00000a⟩⟩

/-- With one flow on the link, the reply is routed in the instance of priority 1
and its flow is tagged with priority 0. -/
theorem arp_tagged_below_routed :
    ∃ tm tm', ManagerReaches twoSwitches tm ∧
      getRouteWithEthernetPacket twoSwitches tm arpReply 1 =
        some (tm', .ok (twoSwitches.route () arpReply)) ∧
      routedPriority twoSwitches tm arpReply = some 1 ∧
      ethernetToPriority tm' arpReply.eth = .ok 0 :=
  ⟨(startUp twoSwitches ()).addTraffic 1 2 0 (OFMatch.new.setWildcards 0), _,
    ⟨(), Relation.ReflTransGen.single (ManagerStep.add _ _ _ _ _)⟩, rfl, by decide, by decide⟩

def noLink : InstanceEngine Unit Unit where
  compute _ _ _ := ()
  getRoute _ _ _ _ _ := none

theorem unroutable_null_known :
    ∃ fuel tm', getRouteWithEthernetPacket noLink
      (setPriorityWithOFMatch (startUp noLink ()) (ethernetToMatch unclassified.eth) 1 1)
      unclassified fuel = some (tm', .ok none) := by
  refine (unroutable_null_iff noLink (fun _ _ _ => rfl) _ (fun p hp => ?_) (fun m info hinfo => ?_)
    unclassified (.inl fun _ _ _ => rfl)).mpr ⟨fun _ => ⟨_, rfl⟩, by decide⟩
  · exact ((Bounded.startUp noLink ()).instances p).mpr hp
  · unfold setPriorityWithOFMatch at hinfo
    dsimp only at hinfo
    rcases eq_or_ne m (ethernetToMatch unclassified.eth) with rfl | hne
    · rw [Function.update_self] at hinfo
      cases hinfo
      decide
    · rw [Function.update_of_ne hne] at hinfo
      cases hinfo

/-- The first packet of a pair without route ends in a null pointer. -/
theorem unroutable_throws :
    Unroutable noLink (startUp noLink ()) unclassified ∧
      ∀ fuel, getRouteWithEthernetPacket noLink (startUp noLink ()) unclassified (fuel + 1) =
        some (startUp noLink (), .error .nullPointer) := by
  refine ⟨.inl fun _ _ _ => rfl, fun fuel => ?_⟩
  have hpriority : ethernetToPriority (startUp noLink ()) unclassified.eth = .ok 2 := rfl
  rw [getRouteWithEthernetPacket_succ noLink unclassified fuel hpriority rfl]
  rfl

end NctuSdn
