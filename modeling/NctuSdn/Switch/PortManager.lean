/-
The ports of a switch as the controller keeps them (`OFSwitchBase.PortManager`).

The same ports are stored by number, by lower-case name, as a list, and twice
more for those that are enabled.  Calls replace a whole list or react to the
status of one port, and answer with the changes they made.  Listeners rely on
the answer: replaying it on the old ports has to give the new ones.

For a list the changes are worked out one port at a time against the old
ports.  A port that takes the number or the name of old ports deletes them
first.  What makes a replay right is that an old port is deleted before its
number is used again, since only the first of equal deletions is kept.

One case goes wrong.  A port that equals the old port of its number up to case
causes no change; if the lower-case forms of the two names differ, another new
port may have the old name and delete it (`turkishPorts_not_replayed`).
-/
import NctuSdn.Lib.Replay
import NctuSdn.Lib.Search
import NctuSdn.Lib.SetOrder
import NctuSdn.Switch.ImmutablePort

namespace NctuSdn

open List Finmap

/-! ### The source -/

inductive PortChangeType
  | add | otherUpdate | delete | up | down
deriving DecidableEq, Repr

structure PortChangeEvent where
  port : ImmutablePort
  type : PortChangeType
deriving DecidableEq

namespace PortChangeEvent

def equals (r : CaseRules) (e other : PortChangeEvent) : Bool :=
  e.port.equals r other.port && e.type == other.type

def number (e : PortChangeEvent) : Port := e.port.portNumber

def put (e : PortChangeEvent) : Option ImmutablePort :=
  if e.type = .delete then none else some e.port

end PortChangeEvent

/-- What the platform decides: case, the hash codes of changes, and the order in
which a hash map with ports for keys is iterated. -/
structure PortEnvironment where
  caseRules : CaseRules
  hashCode : PortChangeEvent → BitVec 32
  numbers : SetOrder Port

namespace PortEnvironment

/-- When a `LinkedHashSet` takes two changes for the same.  The hash code of a
port depends on the case of its name. -/
def sameEvent (env : PortEnvironment) (e other : PortChangeEvent) : Bool :=
  env.hashCode e == env.hashCode other && e.equals env.caseRules other

/-- The name under which a port is stored. -/
def lowerName (env : PortEnvironment) (p : ImmutablePort) : String :=
  env.caseRules.toLowerCase p.name

end PortEnvironment

abbrev PortsByNumber := Finmap fun _ : Port => ImmutablePort

abbrev PortsByName := Finmap fun _ : String => ImmutablePort

structure PortManager where
  portList : List ImmutablePort
  enabledPortList : List ImmutablePort
  enabledPortNumbers : List Port
  portsByNumber : PortsByNumber
  portsByName : PortsByName

/-- Changes, put into effect one after the other. -/
def replayEvents (ports : PortsByNumber) (events : List PortChangeEvent) : PortsByNumber :=
  replay PortChangeEvent.number PortChangeEvent.put ports events

namespace PortManager

def new : PortManager := ⟨[], [], [], ∅, ∅⟩

variable (env : PortEnvironment) (pm : PortManager)

def values (newPortsByNumber : PortsByNumber) : List ImmutablePort :=
  (env.numbers.toList newPortsByNumber.keys).filterMap newPortsByNumber.lookup

def updatePortsWithNewPortsByNumber (newPortsByNumber : PortsByNumber) : PortManager where
  portList := values env newPortsByNumber
  enabledPortList := (values env newPortsByNumber).filter ImmutablePort.isEnabled
  enabledPortNumbers :=
    ((values env newPortsByNumber).filter ImmutablePort.isEnabled).map ImmutablePort.portNumber
  portsByNumber := newPortsByNumber
  portsByName := (values env newPortsByNumber).foldl (fun m p => m.insert (env.lowerName p) p) ∅

/-- `handlePortStatusDelete`.  A port whose number is not known is looked up by
its name as it is. -/
def handlePortStatusDelete (delPort : ImmutablePort) : PortManager × List PortChangeEvent :=
  match pm.portsByNumber.lookup delPort.portNumber with
  | none =>
    match pm.portsByName.lookup delPort.name with
    | none => (updatePortsWithNewPortsByNumber env pm.portsByNumber, [])
    | some prevPort =>
      (updatePortsWithNewPortsByNumber env (pm.portsByNumber.erase prevPort.portNumber),
        [⟨prevPort, .delete⟩])
  | some prevPort =>
    if prevPort.name = delPort.name then
      (updatePortsWithNewPortsByNumber env (pm.portsByNumber.erase delPort.portNumber),
        [⟨delPort, .delete⟩])
    else
      let newPortByNumber := pm.portsByNumber.erase delPort.portNumber
      match pm.portsByName.lookup (env.lowerName delPort) with
      | none => (updatePortsWithNewPortsByNumber env newPortByNumber, [⟨prevPort, .delete⟩])
      | some namedPort =>
        (updatePortsWithNewPortsByNumber env (newPortByNumber.erase namedPort.portNumber),
          LinkedHashSet.add env.sameEvent [⟨prevPort, .delete⟩] ⟨namedPort, .delete⟩)

/-- The end of `getSinglePortChanges`: delete the port that has the name, and
add the new one. -/
def replacePort (events : List PortChangeEvent) (newPort : ImmutablePort) :
    List PortChangeEvent :=
  let events :=
    match pm.portsByName.lookup (env.lowerName newPort) with
    | none => events
    | some prevPort => LinkedHashSet.add env.sameEvent events ⟨prevPort, .delete⟩
  LinkedHashSet.add env.sameEvent events ⟨newPort, .add⟩

def getSinglePortChanges (newPort : ImmutablePort) : List PortChangeEvent :=
  match pm.portsByNumber.lookup newPort.portNumber with
  | none => replacePort env pm [] newPort
  | some prevPort =>
    if newPort.equals env.caseRules prevPort then []
    else if prevPort.name = newPort.name then
      if prevPort.isEnabled && !newPort.isEnabled then [⟨newPort, .down⟩]
      else if !prevPort.isEnabled && newPort.isEnabled then [⟨newPort, .up⟩]
      else [⟨newPort, .otherUpdate⟩]
    else replacePort env pm [⟨prevPort, .delete⟩] newPort

end PortManager

inductive OFPortReason
  | add | delete | modify
deriving DecidableEq, Repr

/-- `OFPortReason.fromReasonCode`; `none` is null. -/
def OFPortReason.fromReasonCode (reason : BitVec 8) : Option OFPortReason :=
  if reason = 0 then some .add
  else if reason = 1 then some .delete
  else if reason = 2 then some .modify
  else none

structure OFPortStatus where
  reason : BitVec 8
  desc : Option OFPhysicalPort
deriving DecidableEq, Repr

/-- The local variables of `compareAndUpdatePorts`. -/
structure NewPorts where
  portsByNumber : PortsByNumber
  portsByName : PortsByName
  enabledPortList : List ImmutablePort
  enabledPortNumbers : List Port
  events : List PortChangeEvent

namespace PortManager

variable (env : PortEnvironment) (pm : PortManager)

def handlePortStatusMessage (ps : OFPortStatus) :
    Except JavaException (PortManager × List PortChangeEvent) :=
  match ps.desc with
  | none => .error .nullPointer
  | some desc => do
      let port ← ImmutablePort.fromOFPhysicalPort desc
      match OFPortReason.fromReasonCode ps.reason with
      | none => .error .illegalArgument
      | some .delete => .ok (handlePortStatusDelete env pm port)
      | some _ =>
        let events := getSinglePortChanges env pm port
        .ok (updatePortsWithNewPortsByNumber env (replayEvents pm.portsByNumber events), events)

def addNewPort (s : NewPorts) (p : ImmutablePort) : Except JavaException NewPorts :=
  if p.portNumber ∈ s.portsByNumber then .error .illegalArgument
  else if env.lowerName p ∈ s.portsByName then .error .illegalArgument
  else .ok
    { portsByNumber := s.portsByNumber.insert p.portNumber p
      portsByName := s.portsByName.insert (env.lowerName p) p
      enabledPortList := if p.isEnabled then s.enabledPortList ++ [p] else s.enabledPortList
      enabledPortNumbers :=
        if p.isEnabled then s.enabledPortNumbers ++ [p.portNumber] else s.enabledPortNumbers
      events := LinkedHashSet.addAll env.sameEvent s.events (getSinglePortChanges env pm p) }

def addDeletedPorts (s : NewPorts) : List PortChangeEvent :=
  pm.portList.foldl (fun events oldPort =>
    if oldPort.portNumber ∉ s.portsByNumber then
      LinkedHashSet.add env.sameEvent events ⟨oldPort, .delete⟩
    else events) s.events

def compareAndUpdatePorts (newPorts : List ImmutablePort) (doUpdate : Bool) :
    Except JavaException (PortManager × List PortChangeEvent) := do
  let s ← newPorts.foldlM (addNewPort env pm) ⟨∅, ∅, [], [], []⟩
  let events := addDeletedPorts env pm s
  if doUpdate then
    pure (⟨newPorts, s.enabledPortList, s.enabledPortNumbers, s.portsByNumber, s.portsByName⟩,
      events)
  else pure (pm, events)

def updatePorts (newPorts : List ImmutablePort) :
    Except JavaException (PortManager × List PortChangeEvent) :=
  compareAndUpdatePorts env pm newPorts true

end PortManager

/-- The calls that change the ports. -/
inductive PortCall
  | updatePorts (newPorts : List ImmutablePort)
  | handlePortStatusMessage (ps : OFPortStatus)

namespace PortManager

variable (env : PortEnvironment) (pm : PortManager)

def call : PortCall → Except JavaException (PortManager × List PortChangeEvent)
  | .updatePorts newPorts => updatePorts env pm newPorts
  | .handlePortStatusMessage ps => handlePortStatusMessage env pm ps

/-- Calls one after the other; one that raises an exception changes nothing. -/
def run (calls : List PortCall) : PortManager :=
  calls.foldl (fun pm c =>
    match call env pm c with
    | .ok (pm', _) => pm'
    | .error _ => pm) pm

end PortManager

/-! ### Views of the same ports -/

/-- Ports are stored under their numbers, and no two have the same name. -/
structure UniquePorts (env : PortEnvironment) (ports : PortsByNumber) : Prop where
  keyed : ∀ n p, ports.lookup n = some p → p.portNumber = n
  named : ∀ n p n' p', ports.lookup n = some p → ports.lookup n' = some p' →
    env.lowerName p = env.lowerName p' → n = n'

/-- The five views agree, and in the ports they show numbers and lower-case
names are unique. -/
structure PortManager.Consistent (env : PortEnvironment) (pm : PortManager) : Prop where
  numbers : (pm.portList.map ImmutablePort.portNumber).Nodup
  names : (pm.portList.map env.lowerName).Nodup
  byNumber : IndexedBy ImmutablePort.portNumber pm.portsByNumber pm.portList
  byName : IndexedBy env.lowerName pm.portsByName pm.portList
  enabled : pm.enabledPortList = pm.portList.filter ImmutablePort.isEnabled
  enabledNumbers : pm.enabledPortNumbers = pm.enabledPortList.map ImmutablePort.portNumber

namespace PortManager

variable {env : PortEnvironment} {pm : PortManager} {ports : PortsByNumber}

theorem mem_values (h : UniquePorts env ports) {p : ImmutablePort} :
    p ∈ values env ports ↔ ports.lookup p.portNumber = some p := by
  unfold values
  rw [List.mem_filterMap]
  constructor
  · rintro ⟨n, -, hp⟩
    rw [h.keyed n p hp, hp]
  · intro hp
    refine ⟨p.portNumber, ?_, hp⟩
    rw [env.numbers.mem_toList, Finmap.mem_keys]
    exact Finmap.mem_of_lookup_eq_some hp

theorem map_portNumber_values (h : UniquePorts env ports) :
    (values env ports).map ImmutablePort.portNumber = env.numbers.toList ports.keys := by
  have hmap : ∀ ns : List Port, (∀ n ∈ ns, n ∈ ports.keys) →
      (ns.filterMap ports.lookup).map ImmutablePort.portNumber = ns := by
    intro ns
    induction ns with
    | nil => exact fun _ => rfl
    | cons n ns ih =>
      intro hns
      obtain ⟨p, hp⟩ := mem_iff.mp (mem_keys.mp (hns n mem_cons_self))
      simp only [filterMap_cons, hp, map_cons, h.keyed n p hp]
      rw [ih fun n' hn' => hns n' (mem_cons_of_mem _ hn')]
  exact hmap _ fun n hn => (env.numbers.mem_toList _ _).mp hn

/-- **The views made from ports by number agree.** -/
theorem consistent_update (h : UniquePorts env ports) :
    (updatePortsWithNewPortsByNumber env ports).Consistent env := by
  have hnumbers : ((values env ports).map ImmutablePort.portNumber).Nodup := by
    rw [map_portNumber_values h]
    exact env.numbers.nodup _
  have hnames : ((values env ports).map env.lowerName).Nodup := by
    refine List.Nodup.map_on (fun p hp p' hp' heq => ?_) (List.Nodup.of_map _ hnumbers)
    have hp := (mem_values h).mp hp
    have hp' := (mem_values h).mp hp'
    rw [h.named _ _ _ _ hp hp' heq, hp'] at hp
    exact (Option.some.inj hp).symm
  refine ⟨hnumbers, hnames, fun n p => ?_, indexedBy_foldl hnames, rfl, rfl⟩
  unfold updatePortsWithNewPortsByNumber
  rw [mem_values h]
  constructor
  · intro hp
    have hn := h.keyed n p hp
    rw [hn]
    exact ⟨hp, rfl⟩
  · rintro ⟨hp, rfl⟩
    exact hp

theorem Consistent.unique (h : pm.Consistent env) : UniquePorts env pm.portsByNumber := by
  refine ⟨fun n p hp => ((h.byNumber n p).mp hp).2, fun n p n' p' hp hp' heq => ?_⟩
  obtain ⟨hmem, hn⟩ := (h.byNumber n p).mp hp
  obtain ⟨hmem', hn'⟩ := (h.byNumber n' p').mp hp'
  rw [← hn, ← hn', inj_on_of_nodup_map h.names hmem hmem' heq]

theorem consistent_new : PortManager.new.Consistent env :=
  ⟨nodup_nil, nodup_nil, indexedBy_empty, indexedBy_empty, rfl, rfl⟩

end PortManager

/-! ### Changes of the stored ports -/

section Unique

variable {env : PortEnvironment} {ports : PortsByNumber}

theorem UniquePorts.mono (h : UniquePorts env ports) {ports' : PortsByNumber}
    (hsub : ∀ n p, ports'.lookup n = some p → ports.lookup n = some p) :
    UniquePorts env ports' :=
  ⟨fun n p hp => h.keyed n p (hsub n p hp),
    fun n₁ p₁ n₂ p₂ h₁ h₂ => h.named n₁ p₁ n₂ p₂ (hsub n₁ p₁ h₁) (hsub n₂ p₂ h₂)⟩

theorem UniquePorts.erase (h : UniquePorts env ports) (n : Port) :
    UniquePorts env (ports.erase n) := by
  refine h.mono fun n' p hp => ?_
  by_cases heq : n' = n
  · rw [heq, lookup_erase] at hp
    cases hp
  · rwa [lookup_erase_ne heq] at hp

theorem UniquePorts.insert (h : UniquePorts env ports) {p : ImmutablePort}
    (hp : ∀ n p', ports.lookup n = some p' → env.lowerName p' = env.lowerName p →
      n = p.portNumber) :
    UniquePorts env (ports.insert p.portNumber p) := by
  have hcases : ∀ {n p'}, (ports.insert p.portNumber p).lookup n = some p' →
      (n = p.portNumber ∧ p' = p) ∨ ports.lookup n = some p' := by
    intro n p' hp'
    by_cases heq : n = p.portNumber
    · rw [heq, lookup_insert] at hp'
      exact .inl ⟨heq, (Option.some.inj hp').symm⟩
    · exact .inr (by rwa [lookup_insert_of_ne _ heq] at hp')
  refine ⟨fun n p' hp' => ?_, fun n₁ p₁ n₂ p₂ h₁ h₂ heq => ?_⟩
  · rcases hcases hp' with ⟨rfl, rfl⟩ | hold
    · rfl
    · exact h.keyed n p' hold
  · rcases hcases h₁ with ⟨rfl, rfl⟩ | hold₁
    · rcases hcases h₂ with ⟨rfl, rfl⟩ | hold₂
      · rfl
      · exact (hp n₂ p₂ hold₂ heq.symm).symm
    · rcases hcases h₂ with ⟨rfl, rfl⟩ | hold₂
      · exact hp n₁ p₁ hold₁ heq
      · exact h.named n₁ p₁ n₂ p₂ hold₁ hold₂ heq

end Unique

/-! ### Changes for one port -/

namespace PortManager

variable {env : PortEnvironment} {pm : PortManager} {p o o' : ImmutablePort}

def deletion (o : ImmutablePort) : PortChangeEvent := ⟨o, .delete⟩

theorem sameEvent_refl (env : PortEnvironment) (e : PortChangeEvent) :
    env.sameEvent e e = true := by
  simp [PortEnvironment.sameEvent, PortChangeEvent.equals, ImmutablePort.equals_refl]

theorem eq_of_sameEvent {e e' : PortChangeEvent} (h : env.sameEvent e e' = true) :
    e.number = e'.number ∧ e.type = e'.type := by
  simp only [PortEnvironment.sameEvent, PortChangeEvent.equals, Bool.and_eq_true, beq_iff_eq] at h
  exact ⟨(ImmutablePort.portNumber_of_equals h.2.1).1, h.2.2⟩

theorem Consistent.eq_of_sameEvent_deletion (h : pm.Consistent env) (ho : o ∈ pm.portList)
    (ho' : o' ∈ pm.portList) (hsame : env.sameEvent (deletion o) (deletion o') = true) : o' = o :=
  inj_on_of_nodup_map h.numbers ho' ho (eq_of_sameEvent hsame).1.symm

theorem Consistent.add_deletion (h : pm.Consistent env) {dels : List ImmutablePort}
    (hdels : ∀ o ∈ dels, o ∈ pm.portList) (ho : o ∈ pm.portList) :
    ∃ dels' : List ImmutablePort, LinkedHashSet.add env.sameEvent (dels.map deletion) (deletion o) =
        dels'.map deletion ∧
      ∀ o', o' ∈ dels' ↔ o' ∈ dels ∨ o' = o := by
  unfold LinkedHashSet.add
  split
  case isTrue hany =>
    obtain ⟨e, he, hsame⟩ := List.any_eq_true.mp hany
    obtain ⟨o', ho', rfl⟩ := List.mem_map.mp he
    have heq := h.eq_of_sameEvent_deletion ho (hdels o' ho') hsame
    refine ⟨dels, rfl, fun o'' => ⟨.inl, ?_⟩⟩
    rintro (hmem | rfl)
    · exact hmem
    · exact heq ▸ ho'
  case isFalse =>
    refine ⟨dels ++ [o], ?_, fun o' => by rw [List.mem_append, List.mem_singleton]⟩
    rw [List.map_append]
    rfl

/-- The new port is no change of the port that has its number: other things
than the case of its name differ, and so does the name. -/
def Replaces (env : PortEnvironment) (pm : PortManager) (p : ImmutablePort) : Prop :=
  ∀ o, pm.portsByNumber.lookup p.portNumber = some o →
    p.equals env.caseRules o = false ∧ o.name ≠ p.name

/-- The stored ports that have the number or the name of a new port. -/
def Conflicts (env : PortEnvironment) (pm : PortManager) (p o : ImmutablePort) : Prop :=
  o ∈ pm.portList ∧ (o.portNumber = p.portNumber ∨ env.lowerName o = env.lowerName p)

theorem Consistent.replacePort_eq (h : pm.Consistent env) (dels : List ImmutablePort)
    (hdels : ∀ o, o ∈ dels ↔ o ∈ pm.portList ∧ o.portNumber = p.portNumber) :
    ∃ dels' : List ImmutablePort,
      replacePort env pm (dels.map deletion) p = dels'.map deletion ++ [⟨p, .add⟩] ∧
      ∀ o, o ∈ dels' ↔ Conflicts env pm p o := by
  -- an addition is none of the deletions
  have hadd : ∀ dels' : List ImmutablePort,
      LinkedHashSet.add env.sameEvent (dels'.map deletion) ⟨p, .add⟩ =
        dels'.map deletion ++ [⟨p, .add⟩] := by
    intro dels'
    refine if_neg fun hany => ?_
    obtain ⟨e, he, hsame⟩ := any_eq_true.mp hany
    obtain ⟨o, -, rfl⟩ := mem_map.mp he
    cases (eq_of_sameEvent hsame).2
  unfold replacePort
  split
  case h_1 hnone =>
    refine ⟨dels, hadd dels, fun o => ?_⟩
    rw [hdels]
    refine and_congr_right fun ho => ⟨.inl, fun hor => hor.resolve_right fun hname => ?_⟩
    rw [(h.byName _ o).mpr ⟨ho, hname⟩] at hnone
    cases hnone
  case h_2 named hsome =>
    obtain ⟨hnamed, hname⟩ := (h.byName _ named).mp hsome
    obtain ⟨dels', hdels', hmem⟩ := h.add_deletion (fun o ho => ((hdels o).mp ho).1) hnamed
    refine ⟨dels', (congrArg (LinkedHashSet.add env.sameEvent · _) hdels').trans (hadd dels'),
      fun o => ?_⟩
    rw [hmem, hdels]
    constructor
    · rintro (⟨ho, hnumber⟩ | rfl)
      · exact ⟨ho, .inl hnumber⟩
      · exact ⟨hnamed, .inr hname⟩
    · rintro ⟨ho, hnumber | hlower⟩
      · exact .inl ⟨ho, hnumber⟩
      · exact .inr (inj_on_of_nodup_map h.names ho hnamed (hlower.trans hname.symm))

/-- **What the changes for one port can be**: none, an update in place, or an
addition after the deletion of all ports in conflict. -/
theorem Consistent.getSinglePortChanges_cases (h : pm.Consistent env) (p : ImmutablePort) :
    (∃ o ∈ pm.portList, o.portNumber = p.portNumber ∧ p.equals env.caseRules o = true ∧
      getSinglePortChanges env pm p = []) ∨
    (∃ o ∈ pm.portList, o.portNumber = p.portNumber ∧ p.equals env.caseRules o = false ∧
      o.name = p.name ∧ ∃ type, type ≠ .delete ∧ getSinglePortChanges env pm p = [⟨p, type⟩]) ∨
    (Replaces env pm p ∧ ∃ dels : List ImmutablePort, (∀ o, o ∈ dels ↔ Conflicts env pm p o) ∧
      getSinglePortChanges env pm p = dels.map deletion ++ [⟨p, .add⟩]) := by
  unfold getSinglePortChanges
  cases hprev : pm.portsByNumber.lookup p.portNumber with
  | none =>
    obtain ⟨dels, heq, hdels⟩ := h.replacePort_eq (p := p) [] fun o => by
      refine ⟨fun hmem => absurd hmem List.not_mem_nil, fun ho => ?_⟩
      rw [(h.byNumber _ o).mpr ho] at hprev
      cases hprev
    refine .inr (.inr ⟨fun o ho => ?_, dels, hdels, heq⟩)
    rw [hprev] at ho
    cases ho
  | some prev =>
    obtain ⟨hmem, hnumber⟩ := (h.byNumber _ prev).mp hprev
    dsimp only
    split_ifs with hequals hname hdown hup
    · exact .inl ⟨prev, hmem, hnumber, hequals, rfl⟩
    · exact .inr (.inl ⟨prev, hmem, hnumber, Bool.eq_false_iff.mpr hequals, hname, .down,
        by decide, rfl⟩)
    · exact .inr (.inl ⟨prev, hmem, hnumber, Bool.eq_false_iff.mpr hequals, hname, .up,
        by decide, rfl⟩)
    · exact .inr (.inl ⟨prev, hmem, hnumber, Bool.eq_false_iff.mpr hequals, hname, .otherUpdate,
        by decide, rfl⟩)
    · obtain ⟨dels, heq, hdels⟩ := h.replacePort_eq (p := p) [prev] fun o => by
        rw [List.mem_singleton]
        constructor
        · rintro rfl
          exact ⟨hmem, hnumber⟩
        · rintro ⟨ho, hnumber'⟩
          exact List.inj_on_of_nodup_map h.numbers ho hmem (hnumber'.trans hnumber.symm)
      refine .inr (.inr ⟨fun o ho => ?_, dels, hdels, heq⟩)
      rw [hprev] at ho
      cases ho
      exact ⟨Bool.eq_false_iff.mpr hequals, hname⟩

theorem lookup_replayEvents_deletions {ports : PortsByNumber} {dels : List ImmutablePort}
    {n : Port} (hp : (replayEvents ports (dels.map deletion)).lookup n = some p) :
    ports.lookup n = some p ∧ ∀ o ∈ dels, o.portNumber ≠ n := by
  by_cases hdel : ∃ o ∈ dels, o.portNumber = n
  · obtain ⟨o, ho, hn⟩ := hdel
    have hnone : (replayEvents ports (dels.map deletion)).lookup n = none := by
      refine lookup_replay_of_removed (fun e he _ => ?_)
        (.inr ⟨deletion o, mem_map_of_mem ho, hn⟩)
      obtain ⟨o', -, rfl⟩ := mem_map.mp he
      rfl
    rw [hnone] at hp
    cases hp
  · have hne : ∀ o ∈ dels, o.portNumber ≠ n := fun o ho hn => hdel ⟨o, ho, hn⟩
    refine ⟨?_, hne⟩
    rwa [replayEvents, lookup_replay_of_untouched fun e he => ?_] at hp
    obtain ⟨o, ho, rfl⟩ := mem_map.mp he
    exact hne o ho

theorem Consistent.unique_replay (h : pm.Consistent env) (p : ImmutablePort) :
    UniquePorts env (replayEvents pm.portsByNumber (getSinglePortChanges env pm p)) := by
  rcases h.getSinglePortChanges_cases p with ⟨o, -, -, -, heq⟩ |
    ⟨o, ho, hnumber, -, hname, type, htype, heq⟩ | ⟨-, dels, hdels, heq⟩
  · rw [heq]
    exact h.unique
  · -- the port takes the place of one with the same name
    have hput : replayEvents pm.portsByNumber [⟨p, type⟩] =
        pm.portsByNumber.insert p.portNumber p := by
      simp [replayEvents, replay, applyChange, PortChangeEvent.put, PortChangeEvent.number, htype]
    rw [heq, hput]
    refine h.unique.insert fun n p' hp' hlower => ?_
    have ho' := (h.byNumber p.portNumber o).mpr ⟨ho, hnumber⟩
    have hlower' : env.lowerName o = env.lowerName p := congrArg env.caseRules.toLowerCase hname
    exact h.unique.named n p' p.portNumber o hp' ho' (hlower.trans hlower'.symm)
  · have hadd : replayEvents pm.portsByNumber (dels.map deletion ++ [⟨p, .add⟩]) =
        (replayEvents pm.portsByNumber (dels.map deletion)).insert p.portNumber p := by
      simp [replayEvents, replay, applyChange, PortChangeEvent.put, PortChangeEvent.number]
    rw [heq, hadd]
    refine (h.unique.mono fun n p' hp' => (lookup_replayEvents_deletions hp').1).insert
      fun n p' hp' hlower => ?_
    -- a port with the name would have been deleted
    obtain ⟨hstored, hkept⟩ := lookup_replayEvents_deletions hp'
    obtain ⟨hmem, hn⟩ := (h.byNumber n p').mp hstored
    exact absurd hn (hkept p' ((hdels p').mpr ⟨hmem, .inr hlower⟩))

end PortManager

/-- The same ports up to case. -/
def SamePorts (env : PortEnvironment) (ports ports' : PortsByNumber) : Prop :=
  ∀ n, (ports.lookup n = none ∧ ports'.lookup n = none) ∨
    ∃ p p', ports.lookup n = some p ∧ ports'.lookup n = some p' ∧
      p'.equals env.caseRules p = true

theorem samePorts_of_lookup_eq {env : PortEnvironment} {ports ports' : PortsByNumber}
    (h : ∀ n, ports.lookup n = ports'.lookup n) : SamePorts env ports ports' := by
  intro n
  cases hp : ports.lookup n with
  | none => exact .inl ⟨rfl, (h n).symm.trans hp⟩
  | some p => exact .inr ⟨p, p, rfl, (h n).symm.trans hp, p.equals_refl _⟩

namespace PortManager

variable {env : PortEnvironment} {pm : PortManager}

/-- **The deletion of a port.** -/
theorem Consistent.handlePortStatusDelete (h : pm.Consistent env) (delPort : ImmutablePort) :
    (handlePortStatusDelete env pm delPort).1.Consistent env ∧
      ∀ n, (replayEvents pm.portsByNumber (handlePortStatusDelete env pm delPort).2).lookup n =
        (handlePortStatusDelete env pm delPort).1.portsByNumber.lookup n := by
  unfold PortManager.handlePortStatusDelete
  split
  · split
    · exact ⟨consistent_update h.unique, fun n => rfl⟩
    · exact ⟨consistent_update (h.unique.erase _), fun n => rfl⟩
  case h_2 prevPort hprev =>
    have hnumber := ((h.byNumber _ prevPort).mp hprev).2
    split
    · exact ⟨consistent_update (h.unique.erase _), fun n => rfl⟩
    · split
      · refine ⟨consistent_update (h.unique.erase _), fun n => ?_⟩
        rw [← hnumber]
        rfl
      case h_2 namedPort hnamed =>
        refine ⟨consistent_update ((h.unique.erase _).erase _), fun n => ?_⟩
        unfold LinkedHashSet.add
        rw [← hnumber]
        split
        case isTrue hany =>
          -- it is the same port, which is deleted once
          have hsame : namedPort.portNumber = prevPort.portNumber := by
            simp only [any_cons, any_nil, Bool.or_false] at hany
            exact (eq_of_sameEvent hany).1
          have hlookup : ∀ m : PortsByNumber, ∀ k n,
              ((m.erase k).erase k).lookup n = (m.erase k).lookup n := by
            intro m k n
            by_cases hn : n = k
            · rw [hn, lookup_erase, lookup_erase]
            · rw [lookup_erase_ne hn]
          rw [hsame]
          exact (hlookup _ _ n).symm
        case isFalse => rfl

/-! ### Changes for a list of ports -/

section

variable {p q o : ImmutablePort} {e e' : PortChangeEvent} (h : pm.Consistent env)
include h

theorem Consistent.changes_eq_nil (ho : o ∈ pm.portList)
    (hn : o.portNumber = p.portNumber) (hequals : p.equals env.caseRules o = true) :
    getSinglePortChanges env pm p = [] := by
  unfold getSinglePortChanges
  rw [(h.byNumber p.portNumber o).mpr ⟨ho, hn⟩]
  exact if_pos hequals

/-- What a change for a port can be: the deletion of a port in conflict, or
the one change that puts the port in place. -/
theorem Consistent.mem_getSinglePortChanges (he : e ∈ getSinglePortChanges env pm p) :
    (∃ o, Replaces env pm p ∧ Conflicts env pm p o ∧ e = deletion o) ∨
      (e.port = p ∧ e.type ≠ .delete) := by
  rcases h.getSinglePortChanges_cases p with ⟨o, -, -, -, heq⟩ |
    ⟨o, -, -, -, -, type, htype, heq⟩ | ⟨hreplaces, dels, hdels, heq⟩
  · rw [heq] at he
    cases he
  · rw [heq, List.mem_singleton] at he
    subst he
    exact .inr ⟨rfl, htype⟩
  · rw [heq, List.mem_append, List.mem_singleton] at he
    rcases he with he | rfl
    · obtain ⟨o, ho, rfl⟩ := List.mem_map.mp he
      exact .inl ⟨o, hreplaces, (hdels o).mp ho, rfl⟩
    · exact .inr ⟨rfl, PortChangeType.noConfusion⟩

theorem Consistent.eq_of_put
    (he : e ∈ getSinglePortChanges env pm p) (he' : e' ∈ getSinglePortChanges env pm p)
    (htype : e.type ≠ .delete) (htype' : e'.type ≠ .delete) : e' = e := by
  rcases h.getSinglePortChanges_cases p with ⟨o, -, -, -, heq⟩ |
    ⟨o, -, -, -, -, type, -, heq⟩ | ⟨-, dels, -, heq⟩
  · rw [heq] at he
    cases he
  · rw [heq, List.mem_singleton] at he he'
    rw [he, he']
  · have hlast : ∀ x ∈ dels.map deletion ++ [⟨p, .add⟩], x.type ≠ .delete → x = ⟨p, .add⟩ := by
      intro x hx hx'
      rcases List.mem_append.mp hx with hx | hx
      · obtain ⟨o, -, rfl⟩ := List.mem_map.mp hx
        exact absurd rfl hx'
      · exact List.mem_singleton.mp hx
    rw [heq] at he he'
    rw [hlast e he htype, hlast e' he' htype']

/-- A port put in the place of an old one has its name or deletes it. -/
theorem Consistent.name_or_deletion (he : e ∈ getSinglePortChanges env pm p) (ho : o ∈ pm.portList)
    (hn : o.portNumber = p.portNumber) :
    o.name = p.name ∨ deletion o ∈ getSinglePortChanges env pm p := by
  rcases h.getSinglePortChanges_cases p with ⟨o', -, -, -, heq⟩ |
    ⟨o', ho', hn', -, hname, -⟩ | ⟨-, dels, hdels, heq⟩
  · rw [heq] at he
    cases he
  · exact .inl (inj_on_of_nodup_map h.numbers ho ho' (hn.trans hn'.symm) ▸ hname)
  · rw [heq, mem_append]
    exact .inr (.inl (mem_map_of_mem ((hdels o).mpr ⟨ho, .inl hn⟩)))

theorem Consistent.pairwise_getSinglePortChanges (p : ImmutablePort) :
    (getSinglePortChanges env pm p).Pairwise fun e _ => e.type = .delete := by
  rcases h.getSinglePortChanges_cases p with ⟨o, -, -, -, heq⟩ |
    ⟨o, -, -, -, -, type, -, heq⟩ | ⟨-, dels, -, heq⟩
  · rw [heq]
    exact List.Pairwise.nil
  · rw [heq]
    exact pairwise_singleton _ _
  · have hdel : ∀ e ∈ dels.map deletion, e.type = .delete := by
      intro e he
      obtain ⟨o, -, rfl⟩ := mem_map.mp he
      rfl
    rw [heq]
    exact pairwise_append.mpr
      ⟨pairwise_of_forall_mem_list fun e he _ _ => hdel e he, pairwise_singleton _ _,
        fun e he _ _ => hdel e he⟩

theorem Consistent.deletion_mem (hreplaces : Replaces env pm p) (ho : Conflicts env pm p o) :
    deletion o ∈ getSinglePortChanges env pm p := by
  rcases h.getSinglePortChanges_cases p with ⟨o', ho', hn, hequals, -⟩ |
    ⟨o', ho', hn, -, hname, -⟩ | ⟨-, dels, hdels, heq⟩
  · have hfalse := (hreplaces o' ((h.byNumber _ o').mpr ⟨ho', hn⟩)).1
    exact absurd (hequals.symm.trans hfalse) Bool.noConfusion
  · exact absurd hname (hreplaces o' ((h.byNumber _ o').mpr ⟨ho', hn⟩)).2
  · rw [heq, mem_append]
    exact .inl (mem_map_of_mem ((hdels o).mpr ho))

theorem Consistent.eq_deletion_of_sameEvent (ho : o ∈ pm.portList)
    (he : e ∈ getSinglePortChanges env pm q)
    (hsame : env.sameEvent (deletion o) e = true) : e = deletion o := by
  rcases h.mem_getSinglePortChanges he with ⟨o', -, ho', rfl⟩ | ⟨-, hput⟩
  · rw [h.eq_of_sameEvent_deletion ho ho'.1 hsame]
  · exact absurd (eq_of_sameEvent hsame).2.symm hput

theorem Consistent.eq_of_sameEvent_changes {ports : List ImmutablePort}
    (hnumbers : (ports.map ImmutablePort.portNumber).Nodup) (hp : p ∈ ports) (hq : q ∈ ports)
    (he : e ∈ getSinglePortChanges env pm p)
    (he' : e' ∈ getSinglePortChanges env pm q) (hsame : env.sameEvent e e' = true) : e' = e := by
  rcases h.mem_getSinglePortChanges he with ⟨o, -, ho, rfl⟩ | ⟨hport, hput⟩
  · exact h.eq_deletion_of_sameEvent ho.1 he' hsame
  · obtain ⟨hnumber, htype⟩ := eq_of_sameEvent hsame
    rcases h.mem_getSinglePortChanges he' with ⟨o', -, -, rfl⟩ | ⟨hport', hput'⟩
    · exact absurd htype hput
    · have hqp : q = p := by
        refine inj_on_of_nodup_map hnumbers hq hp ?_
        rw [← hport, ← hport']
        exact hnumber.symm
      exact h.eq_of_put he (hqp ▸ he') hput hput'

/-- A change that puts another port in place leaves the numbers alone that the
changes for a port touch, apart from the deletions that both make. -/
theorem Consistent.number_ne_of_put (hnumber : q.portNumber ≠ p.portNumber)
    (hname : env.lowerName q ≠ env.lowerName p)
    (he : e ∈ getSinglePortChanges env pm p) (he' : e' ∈ getSinglePortChanges env pm q)
    (hput : e'.type ≠ .delete) (hnew : e ∉ getSinglePortChanges env pm q) :
    e.number ≠ e'.number := by
  rcases h.mem_getSinglePortChanges he' with ⟨o', -, -, rfl⟩ | ⟨hport', -⟩
  · exact absurd rfl hput
  have hnumber' : e'.number = q.portNumber := congrArg ImmutablePort.portNumber hport'
  rw [hnumber']
  rcases h.mem_getSinglePortChanges he with ⟨o, -, ho, rfl⟩ | ⟨hport, -⟩
  · intro heq
    rcases h.name_or_deletion he' ho.1 heq with hsameName | hdeleted
    · rcases ho.2 with hn | hlower
      · exact hnumber (heq.symm.trans hn)
      · exact hname ((congrArg env.caseRules.toLowerCase hsameName).symm.trans hlower)
    · exact hnew hdeleted
  · intro heq
    exact hnumber (heq.symm.trans (congrArg ImmutablePort.portNumber hport))

end

/-- The changes so far, after some of the new ports. -/
structure Collected (env : PortEnvironment) (pm : PortManager) (done : List ImmutablePort)
    (events : List PortChangeEvent) : Prop where
  final : events.Pairwise (Final PortChangeEvent.number PortChangeEvent.put)
  mem : ∀ e, e ∈ events ↔ ∃ p ∈ done, e ∈ getSinglePortChanges env pm p

theorem put_ne_none {e : PortChangeEvent} (h : e.put ≠ none) : e.type ≠ .delete :=
  fun htype => h (if_pos htype)

/-- **One more port.**  The old port whose number is in use again has been
deleted before, so this deletion is not made again. -/
theorem Collected.step (h : pm.Consistent env) {done : List ImmutablePort} {p : ImmutablePort}
    {events : List PortChangeEvent} (hc : Collected env pm done events)
    (hnumbers : ((done ++ [p]).map ImmutablePort.portNumber).Nodup)
    (hnames : ((done ++ [p]).map env.lowerName).Nodup) :
    Collected env pm (done ++ [p])
      (LinkedHashSet.addAll env.sameEvent events (getSinglePortChanges env pm p)) := by
  have hp : p ∈ done ++ [p] := mem_append_right _ mem_cons_self
  have hfresh : ∀ q ∈ done, q.portNumber ≠ p.portNumber ∧ env.lowerName q ≠ env.lowerName p := by
    intro q hq
    have hne : q ≠ p := fun heq => by
      have hdup := (nodup_append.mp (List.Nodup.of_map _ hnumbers)).2.2 q hq p
        mem_cons_self
      exact hdup heq
    have hq' : q ∈ done ++ [p] := mem_append_left _ hq
    exact ⟨fun heq => hne (inj_on_of_nodup_map hnumbers hq' hp heq),
      fun heq => hne (inj_on_of_nodup_map hnames hq' hp heq)⟩
  -- every change so far belongs to a port
  have howner : ∀ e', e' ∈ events ∨ e' ∈ getSinglePortChanges env pm p →
      ∃ q ∈ done ++ [p], e' ∈ getSinglePortChanges env pm q := by
    rintro e' (he' | he')
    · obtain ⟨q, hq, he'⟩ := (hc.mem e').mp he'
      exact ⟨q, mem_append_left _ hq, he'⟩
    · exact ⟨p, hp, he'⟩
  have hsame : ∀ e ∈ getSinglePortChanges env pm p, ∀ e',
      e' ∈ events ∨ e' ∈ getSinglePortChanges env pm p → env.sameEvent e e' = true → e' = e := by
    intro e he e' he' hsame
    obtain ⟨q, hq, he'⟩ := howner e' he'
    exact h.eq_of_sameEvent_changes hnumbers hp hq he he' hsame
  -- a number that has been put in place is not touched again
  have hnew : ∀ before e after, getSinglePortChanges env pm p = before ++ e :: after →
      e ∉ events → e ∉ before → ∀ e', e' ∈ events ∨ e' ∈ before →
        Final PortChangeEvent.number PortChangeEvent.put e' e := by
    intro before e after heq hnew _ e' he' hput'
    have hput' := put_ne_none hput'
    rcases he' with he' | he'
    · obtain ⟨q, hq, he'⟩ := (hc.mem e').mp he'
      have he : e ∈ getSinglePortChanges env pm p := by simp [heq]
      exact h.number_ne_of_put (hfresh q hq).1 (hfresh q hq).2 he he' hput'
        fun hmem => hnew ((hc.mem e).mpr ⟨q, hq, hmem⟩)
    · -- within the changes for one port, deletions come first
      have hpair := h.pairwise_getSinglePortChanges p
      rw [heq] at hpair
      exact absurd ((pairwise_append.mp hpair).2.2 e' he' e mem_cons_self) hput'
  obtain ⟨hfinal, hmem⟩ :=
    LinkedHashSet.addAll_rule (sameEvent_refl env) hsame hc.final hnew
  refine ⟨hfinal, fun e => ?_⟩
  rw [hmem, hc.mem]
  constructor
  · exact fun he => he.elim (fun ⟨q, hq, he⟩ => ⟨q, mem_append_left _ hq, he⟩)
      fun he => ⟨p, hp, he⟩
  · rintro ⟨q, hq, he⟩
    rcases mem_append.mp hq with hq | hq
    · exact .inl ⟨q, hq, he⟩
    · exact .inr (mem_singleton.mp hq ▸ he)

/-- The local variables after some of the new ports: the views of these ports
agree, and their changes are collected. -/
structure Gathered (env : PortEnvironment) (pm : PortManager) (done : List ImmutablePort)
    (s : NewPorts) : Prop where
  views : Consistent env
    ⟨done, s.enabledPortList, s.enabledPortNumbers, s.portsByNumber, s.portsByName⟩
  collected : Collected env pm done s.events

theorem Gathered.step (h : pm.Consistent env) {done : List ImmutablePort} {p : ImmutablePort}
    {s s' : NewPorts} (hs : Gathered env pm done s) (hstep : addNewPort env pm s p = .ok s') :
    Gathered env pm (done ++ [p]) s' := by
  unfold addNewPort at hstep
  by_cases hnumber : p.portNumber ∈ s.portsByNumber
  · rw [if_pos hnumber] at hstep
    cases hstep
  by_cases hname : env.lowerName p ∈ s.portsByName
  · rw [if_neg hnumber, if_pos hname] at hstep
    cases hstep
  rw [if_neg hnumber, if_neg hname] at hstep
  cases hstep
  have hv := hs.views
  -- otherwise an exception would have been thrown
  have hfree : ∀ q ∈ done, p.portNumber ≠ q.portNumber ∧ env.lowerName p ≠ env.lowerName q := by
    intro q hq
    constructor
    · intro heq
      exact hnumber (mem_of_lookup_eq_some ((hv.byNumber _ q).mpr ⟨hq, heq.symm⟩))
    · intro heq
      exact hname (mem_of_lookup_eq_some ((hv.byName _ q).mpr ⟨hq, heq.symm⟩))
  have hnumbers : ((done ++ [p]).map ImmutablePort.portNumber).Nodup := by
    rw [map_append, map_singleton, ← concat_eq_append, nodup_concat]
    refine ⟨fun hmem => ?_, hv.numbers⟩
    obtain ⟨q, hq, heq⟩ := mem_map.mp hmem
    exact (hfree q hq).1 heq.symm
  have hnames : ((done ++ [p]).map env.lowerName).Nodup := by
    rw [map_append, map_singleton, ← concat_eq_append, nodup_concat]
    refine ⟨fun hmem => ?_, hv.names⟩
    obtain ⟨q, hq, heq⟩ := mem_map.mp hmem
    exact (hfree q hq).2 heq.symm
  refine ⟨⟨hnumbers, hnames, hv.byNumber.insert fun q hq => (hfree q hq).1,
    hv.byName.insert fun q hq => (hfree q hq).2, ?_, ?_⟩, hs.collected.step h hnumbers hnames⟩
  · have henabled := hv.enabled
    dsimp only at henabled ⊢
    rw [filter_append, filter_singleton, henabled]
    cases p.isEnabled <;> simp
  · have hnumbers' := hv.enabledNumbers
    dsimp only at hnumbers' ⊢
    rw [hnumbers']
    cases p.isEnabled <;> simp

variable {newPorts : List ImmutablePort}

theorem Gathered.addDeletedPorts (h : pm.Consistent env) {s : NewPorts}
    (hs : Gathered env pm newPorts s) :
    (addDeletedPorts env pm s).Pairwise (Final PortChangeEvent.number PortChangeEvent.put) ∧
      ∀ e, e ∈ PortManager.addDeletedPorts env pm s ↔
        (∃ p ∈ newPorts, e ∈ getSinglePortChanges env pm p) ∨
          ∃ o ∈ pm.portList, (∀ p ∈ newPorts, p.portNumber ≠ o.portNumber) ∧ e = deletion o := by
  have hgone : ∀ o : ImmutablePort, o.portNumber ∉ s.portsByNumber ↔
      ∀ p ∈ newPorts, p.portNumber ≠ o.portNumber := by
    intro o
    rw [mem_iff, not_exists]
    constructor
    · exact fun hnone p hp heq => hnone p ((hs.views.byNumber _ p).mpr ⟨hp, heq⟩)
    · intro hnone p hp
      obtain ⟨hmem, heq⟩ := (hs.views.byNumber _ p).mp hp
      exact hnone p hmem heq
  have hlist : PortManager.addDeletedPorts env pm s =
      LinkedHashSet.addAll env.sameEvent s.events
        ((pm.portList.filter fun o => o.portNumber ∉ s.portsByNumber).map deletion) := by
    unfold PortManager.addDeletedPorts LinkedHashSet.addAll
    rw [foldl_map, foldl_filter]
    simp only [decide_eq_true_eq]
    rfl
  have hdeleted : ∀ e ∈ (pm.portList.filter fun o => o.portNumber ∉ s.portsByNumber).map deletion,
      ∃ o ∈ pm.portList, (∀ p ∈ newPorts, p.portNumber ≠ o.portNumber) ∧ e = deletion o := by
    intro e he
    obtain ⟨o, ho, rfl⟩ := mem_map.mp he
    rw [mem_filter, decide_eq_true_iff, hgone] at ho
    exact ⟨o, ho.1, ho.2, rfl⟩
  have hsame : ∀ e ∈ (pm.portList.filter fun o => o.portNumber ∉ s.portsByNumber).map deletion,
      ∀ e', e' ∈ s.events ∨
        e' ∈ (pm.portList.filter fun o => o.portNumber ∉ s.portsByNumber).map deletion →
      env.sameEvent e e' = true → e' = e := by
    intro e he e' he' hsame
    obtain ⟨o, ho, -, rfl⟩ := hdeleted e he
    rcases he' with he' | he'
    · obtain ⟨p, -, he'⟩ := (hs.collected.mem e').mp he'
      exact h.eq_deletion_of_sameEvent ho he' hsame
    · obtain ⟨o', ho', -, rfl⟩ := hdeleted e' he'
      rw [h.eq_of_sameEvent_deletion ho ho' hsame]
  -- a deletion puts no port, and its number is that of no new port
  obtain ⟨hfinal, hmem⟩ := LinkedHashSet.addAll_rule (sameEvent_refl env) hsame
    hs.collected.final fun before e after heq _ _ e' he' hput => by
      obtain ⟨o, ho, hnone, rfl⟩ := hdeleted e (by rw [heq]; simp)
      rcases he' with he' | he'
      · obtain ⟨p, hp, he'⟩ := (hs.collected.mem e').mp he'
        rcases h.mem_getSinglePortChanges he' with ⟨o', -, -, rfl⟩ | ⟨hport, -⟩
        · exact absurd rfl (put_ne_none hput)
        · intro hnumber
          have hnumber' : e'.number = p.portNumber := congrArg ImmutablePort.portNumber hport
          exact hnone p hp (hnumber'.symm.trans hnumber.symm)
      · obtain ⟨o', -, -, rfl⟩ := hdeleted e' (by rw [heq]; exact mem_append_left _ he')
        exact absurd rfl (put_ne_none hput)
  refine ⟨hlist ▸ hfinal, fun e => ?_⟩
  rw [hlist, hmem, hs.collected.mem]
  refine or_congr_right ⟨hdeleted e, ?_⟩
  rintro ⟨o, ho, hnone, rfl⟩
  exact mem_map_of_mem (mem_filter.mpr ⟨ho, decide_eq_true ((hgone o).mpr hnone)⟩)

theorem Consistent.updatePorts_spec (h : pm.Consistent env) {pm' : PortManager}
    {events : List PortChangeEvent} (hcall : updatePorts env pm newPorts = .ok (pm', events)) :
    pm'.portList = newPorts ∧ pm'.Consistent env ∧
      events.Pairwise (Final PortChangeEvent.number PortChangeEvent.put) ∧
      ∀ e, e ∈ events ↔ (∃ p ∈ newPorts, e ∈ getSinglePortChanges env pm p) ∨
        ∃ o ∈ pm.portList, (∀ p ∈ newPorts, p.portNumber ≠ o.portNumber) ∧ e = deletion o := by
  unfold updatePorts compareAndUpdatePorts at hcall
  cases hfold : newPorts.foldlM (addNewPort env pm) ⟨∅, ∅, [], [], []⟩ with
  | error e =>
    rw [hfold] at hcall
    cases hcall
  | ok s =>
    rw [hfold] at hcall
    cases hcall
    have hs : Gathered env pm newPorts s := by
      refine foldlM_keeps (Gathered env pm) (fun done p rest s s' _ hs hstep => ?_) ?_
        (toOption_foldlM hfold)
      · cases hadd : addNewPort env pm s p with
        | error e =>
          rw [hadd] at hstep
          cases hstep
        | ok s₁ =>
          rw [hadd] at hstep
          cases hstep
          exact hs.step h hadd
      · exact ⟨consistent_new, List.Pairwise.nil, fun e => by simp⟩
    obtain ⟨hfinal, hmem⟩ := hs.addDeletedPorts h
    exact ⟨rfl, hs.views, hfinal, hmem⟩

/-- No port that stays as it is, but for the case of its name, loses its place
to a port that comes with the old name. -/
def KeepsNames (env : PortEnvironment) (pm : PortManager) (newPorts : List ImmutablePort) : Prop :=
  ∀ p ∈ newPorts, ∀ o ∈ pm.portList, o.portNumber = p.portNumber →
    p.equals env.caseRules o = true →
      ∀ p' ∈ newPorts, Replaces env pm p' → env.lowerName p' ≠ env.lowerName o

/-- It is enough that the two ways to compare names agree. -/
theorem keepsNames_of_coherent {newPorts : List ImmutablePort} (hcase : env.caseRules.Coherent)
    (hnames : (newPorts.map env.lowerName).Nodup) (h : pm.Consistent env) :
    KeepsNames env pm newPorts := by
  intro p hp o ho hn hequals p' hp' hreplaces hlower
  have hsame : env.lowerName p = env.lowerName o :=
    hcase p.name o.name (ImmutablePort.portNumber_of_equals hequals).2
  have heq : p' = p := inj_on_of_nodup_map hnames hp' hp (hlower.trans hsame.symm)
  have hfalse := (hreplaces o ((h.byNumber _ o).mpr ⟨ho, heq ▸ hn⟩)).1
  rw [heq, hequals] at hfalse
  cases hfalse

section Updated

variable {newPorts : List ImmutablePort} {pm' : PortManager} {events : List PortChangeEvent}
  {p : ImmutablePort} {e : PortChangeEvent}

section

variable (h : pm.Consistent env) (hcall : updatePorts env pm newPorts = .ok (pm', events))
include h hcall

theorem Consistent.port_of_put (hp : p ∈ newPorts) (he : e ∈ events)
    (hnumber : e.number = p.portNumber) (hput : e.put ≠ none) :
    e.port = p ∧ e ∈ getSinglePortChanges env pm p := by
  obtain ⟨rfl, h', -, hmem⟩ := h.updatePorts_spec hcall
  rcases (hmem e).mp he with ⟨q, hq, hchange⟩ | ⟨o, -, -, rfl⟩
  · rcases h.mem_getSinglePortChanges hchange with ⟨o, -, -, rfl⟩ | ⟨hport, -⟩
    · exact absurd rfl (put_ne_none hput)
    · have heq : q = p := inj_on_of_nodup_map h'.numbers hq hp
        ((congrArg ImmutablePort.portNumber hport).symm.trans hnumber)
      exact ⟨hport.trans heq, heq ▸ hchange⟩
  · exact absurd rfl (put_ne_none hput)

theorem Consistent.lookup_of_put (hp : p ∈ newPorts) (he : e ∈ getSinglePortChanges env pm p)
    (hput : e.put ≠ none) :
    (replayEvents pm.portsByNumber events).lookup p.portNumber = some p := by
  obtain ⟨-, -, hfinal, hmem⟩ := h.updatePorts_spec hcall
  have he' : e ∈ events := (hmem e).mpr (.inl ⟨p, hp, he⟩)
  rcases h.mem_getSinglePortChanges he with ⟨o, -, -, rfl⟩ | ⟨hport, htype⟩
  · exact absurd rfl hput
  · have hset : (replayEvents pm.portsByNumber events).lookup e.number = some p :=
      lookup_replay_of_set hfinal he' ((if_neg htype).trans (congrArg some hport))
    have hnumber : e.number = p.portNumber := congrArg ImmutablePort.portNumber hport
    exact hnumber ▸ hset

/-- A port that stays as it is, but for the case of its name, is missing after
a replay iff a port that replaces others comes with the old name. -/
theorem Consistent.lookup_of_equals (hp : p ∈ newPorts) {o : ImmutablePort} (ho : o ∈ pm.portList)
    (hn : o.portNumber = p.portNumber) (hequals : p.equals env.caseRules o = true) :
    (replayEvents pm.portsByNumber events).lookup p.portNumber =
      if deletion o ∈ events then none else some o := by
  obtain ⟨rfl, h', -, hmem⟩ := h.updatePorts_spec hcall
  have hdeletes : ∀ e ∈ events, e.number = p.portNumber → e.put = none := by
    intro e he hnumber
    by_contra hput
    have hchange := (h.port_of_put hcall hp he hnumber hput).2
    rw [h.changes_eq_nil ho hn hequals] at hchange
    cases hchange
  split
  case isTrue hdel => exact lookup_replay_of_removed hdeletes (.inr ⟨deletion o, hdel, hn⟩)
  case isFalse hkept =>
    -- the only deletion under this number would be that of the old port
    have huntouched : ∀ e ∈ events, e.number ≠ p.portNumber := by
      intro e he hnumber
      have hnone := hdeletes e he hnumber
      rcases (hmem e).mp he with ⟨q, -, hchange⟩ | ⟨o', -, hgone, rfl⟩
      · rcases h.mem_getSinglePortChanges hchange with ⟨o', -, ho', rfl⟩ | ⟨-, htype⟩
        · have heq : o' = o :=
            inj_on_of_nodup_map h.numbers ho'.1 ho (hnumber.trans hn.symm)
          exact hkept (heq ▸ he)
        · rw [PortChangeEvent.put, if_neg htype] at hnone
          cases hnone
      · exact hgone p hp hnumber.symm
    exact (lookup_replay_of_untouched huntouched).trans ((h.byNumber _ o).mpr ⟨ho, hn⟩)

theorem Consistent.deletion_mem_iff (hp : p ∈ newPorts) {o : ImmutablePort} (ho : o ∈ pm.portList)
    (hn : o.portNumber = p.portNumber) (hequals : p.equals env.caseRules o = true) :
    deletion o ∈ events ↔
      ∃ p' ∈ newPorts, Replaces env pm p' ∧ env.lowerName p' = env.lowerName o := by
  obtain ⟨rfl, h', -, hmem⟩ := h.updatePorts_spec hcall
  rw [hmem]
  constructor
  · rintro (⟨q, hq, hchange⟩ | ⟨o', -, hgone, heq⟩)
    · rcases h.mem_getSinglePortChanges hchange with ⟨o', hreplaces, ho', heq⟩ | ⟨-, htype⟩
      · cases heq
        refine ⟨q, hq, hreplaces, ?_⟩
        rcases ho'.2 with hn' | hlower
        · -- it is not the port itself, which does not replace anything
          have hqp : q = p := inj_on_of_nodup_map h'.numbers hq hp (hn'.symm.trans hn)
          have hfalse := (hreplaces o ((h.byNumber _ o).mpr ⟨ho, hn'⟩)).1
          rw [hqp, hequals] at hfalse
          cases hfalse
        · exact hlower.symm
      · exact absurd rfl htype
    · cases heq
      exact absurd hn.symm (hgone p hp)
  · rintro ⟨p', hp', hreplaces, hlower⟩
    exact .inl ⟨p', hp', h.deletion_mem hreplaces ⟨ho, .inr hlower.symm⟩⟩

theorem Consistent.lookup_of_gone {n : Port} (hnew : ∀ p ∈ newPorts, p.portNumber ≠ n) :
    (replayEvents pm.portsByNumber events).lookup n = none := by
  obtain ⟨-, -, -, hmem⟩ := h.updatePorts_spec hcall
  refine lookup_replay_of_removed (fun e he hnumber => ?_) ?_
  · by_contra hput
    rcases (hmem e).mp he with ⟨q, hq, hchange⟩ | ⟨o, -, -, rfl⟩
    · rcases h.mem_getSinglePortChanges hchange with ⟨o, -, -, rfl⟩ | ⟨hport, -⟩
      · exact hput rfl
      · exact hnew q hq ((congrArg ImmutablePort.portNumber hport).symm.trans hnumber)
    · exact hput rfl
  · cases hold : pm.portsByNumber.lookup n with
    | none => exact .inl rfl
    | some o =>
      obtain ⟨ho, hn⟩ := (h.byNumber n o).mp hold
      refine .inr ⟨deletion o, (hmem _).mpr (.inr ⟨o, ho, fun p hp heq => ?_, rfl⟩), hn⟩
      exact hnew p hp (heq.trans hn)

/-- **When replaying the changes of a list gives the list.** -/
theorem Consistent.updatePorts_replayed :
    SamePorts env (replayEvents pm.portsByNumber events) pm'.portsByNumber ↔
      KeepsNames env pm newPorts := by
  obtain ⟨hlist, h', -⟩ := h.updatePorts_spec hcall
  have hsome : ∀ p ∈ newPorts, pm'.portsByNumber.lookup p.portNumber = some p :=
    fun p hp => (h'.byNumber p.portNumber p).mpr ⟨hlist ▸ hp, rfl⟩
  constructor
  · -- a port that another one took the name of is deleted and not added again
    intro hsame p hp o ho hn hequals p' hp' hreplaces hlower
    have hdel := (h.deletion_mem_iff hcall hp ho hn hequals).mpr ⟨p', hp', hreplaces, hlower⟩
    have hnone := h.lookup_of_equals hcall hp ho hn hequals
    rw [if_pos hdel] at hnone
    rcases hsame p.portNumber with ⟨-, hnone'⟩ | ⟨q, q', hq, -⟩
    · rw [hsome p hp] at hnone'
      cases hnone'
    · rw [hnone] at hq
      cases hq
  · intro hkeeps n
    by_cases hnew : ∃ p ∈ newPorts, p.portNumber = n
    · obtain ⟨p, hp, rfl⟩ := hnew
      rcases h.getSinglePortChanges_cases p with ⟨o, ho, hn, hequals, -⟩ |
        ⟨o, -, -, -, -, type, htype, heq⟩ | ⟨-, dels, -, heq⟩
      · have hold := h.lookup_of_equals hcall hp ho hn hequals
        rw [if_neg] at hold
        · exact .inr ⟨o, p, hold, hsome p hp, hequals⟩
        · rw [h.deletion_mem_iff hcall hp ho hn hequals]
          rintro ⟨p', hp', hreplaces, hlower⟩
          exact hkeeps p hp o ho hn hequals p' hp' hreplaces hlower
      · have hset := h.lookup_of_put hcall hp (e := ⟨p, type⟩) (heq ▸ mem_cons_self)
          (by simp [PortChangeEvent.put, htype])
        exact .inr ⟨p, p, hset, hsome p hp, p.equals_refl _⟩
      · have hset := h.lookup_of_put hcall hp (e := ⟨p, .add⟩)
          (heq ▸ mem_append_right _ mem_cons_self) (by simp [PortChangeEvent.put])
        exact .inr ⟨p, p, hset, hsome p hp, p.equals_refl _⟩
    · have hgone : ∀ p ∈ newPorts, p.portNumber ≠ n := fun p hp heq => hnew ⟨p, hp, heq⟩
      refine .inl ⟨h.lookup_of_gone hcall hgone, ?_⟩
      cases hlookup : pm'.portsByNumber.lookup n with
      | none => rfl
      | some p =>
        obtain ⟨hp, hn⟩ := (h'.byNumber n p).mp hlookup
        exact absurd hn (hgone p (hlist ▸ hp))

end

end Updated

end PortManager

/-! ### Sequences of calls -/

/-- What a call has to keep for its answer to be right. -/
def PortCall.KeepsNames (env : PortEnvironment) (pm : PortManager) : PortCall → Prop
  | .updatePorts newPorts => PortManager.KeepsNames env pm newPorts
  | .handlePortStatusMessage _ => True

namespace PortManager

variable {env : PortEnvironment} {pm pm' : PortManager} {events : List PortChangeEvent}

theorem handlePortStatusMessage_cases {ps : OFPortStatus}
    (hcall : handlePortStatusMessage env pm ps = .ok (pm', events)) :
    ∃ port, (pm', events) = handlePortStatusDelete env pm port ∨
      (pm', events) = (updatePortsWithNewPortsByNumber env
        (replayEvents pm.portsByNumber (getSinglePortChanges env pm port)),
        getSinglePortChanges env pm port) := by
  unfold PortManager.handlePortStatusMessage at hcall
  cases hdesc : ps.desc with
  | none =>
    rw [hdesc] at hcall
    cases hcall
  | some desc =>
    rw [hdesc] at hcall
    dsimp only at hcall
    cases hport : ImmutablePort.fromOFPhysicalPort desc with
    | error e =>
      rw [hport] at hcall
      cases hcall
    | ok port =>
      rw [hport] at hcall
      refine ⟨port, ?_⟩
      cases hreason : OFPortReason.fromReasonCode ps.reason with
      | none =>
        simp only [bind, Except.bind, hreason] at hcall
        cases hcall
      | some reason =>
        simp only [bind, Except.bind, hreason] at hcall
        cases reason with
        | add | modify => exact .inr (Except.ok.inj hcall).symm
        | delete => exact .inl (Except.ok.inj hcall).symm

theorem Consistent.handlePortStatusMessage (h : pm.Consistent env) {ps : OFPortStatus}
    (hcall : handlePortStatusMessage env pm ps = .ok (pm', events)) :
    pm'.Consistent env ∧
      SamePorts env (replayEvents pm.portsByNumber events) pm'.portsByNumber := by
  obtain ⟨port, heq | heq⟩ := handlePortStatusMessage_cases hcall
  · obtain ⟨hconsistent, hlookup⟩ := h.handlePortStatusDelete port
    rw [← heq] at hconsistent hlookup
    exact ⟨hconsistent, samePorts_of_lookup_eq hlookup⟩
  · cases heq
    exact ⟨consistent_update (h.unique_replay port), samePorts_of_lookup_eq fun n => rfl⟩

/-- **One call.** -/
theorem Consistent.call (h : pm.Consistent env) {c : PortCall}
    (hcall : call env pm c = .ok (pm', events)) :
    pm'.Consistent env ∧ (SamePorts env (replayEvents pm.portsByNumber events) pm'.portsByNumber ↔
      c.KeepsNames env pm) := by
  cases c with
  | updatePorts newPorts =>
    exact ⟨(h.updatePorts_spec hcall).2.1, h.updatePorts_replayed hcall⟩
  | handlePortStatusMessage ps =>
    obtain ⟨hconsistent, hsame⟩ := h.handlePortStatusMessage hcall
    exact ⟨hconsistent, iff_of_true hsame trivial⟩

/-- **Every sequence of calls.** -/
theorem Consistent.run (h : pm.Consistent env) (calls : List PortCall) :
    (run env pm calls).Consistent env := by
  induction calls generalizing pm with
  | nil => exact h
  | cons c calls ih =>
    refine ih ?_
    dsimp only
    cases hcall : PortManager.call env pm c with
    | error e => exact h
    | ok r => exact (h.call hcall).1

end PortManager

/-- **The ports of a switch.**  After every sequence of calls the views of the
ports agree, with unique numbers and lower-case names; and for the next call,
replaying the changes it answers on the ports before it gives the ports after
it iff no port that equals an old one up to case loses its place to a port that
comes with the old name. -/
theorem port_bookkeeping (env : PortEnvironment) (calls : List PortCall) :
    (PortManager.run env .new calls).Consistent env ∧
      ∀ c pm' events, PortManager.call env (PortManager.run env .new calls) c =
          .ok (pm', events) →
        (SamePorts env (replayEvents (PortManager.run env .new calls).portsByNumber events)
          pm'.portsByNumber ↔ c.KeepsNames env (PortManager.run env .new calls)) := by
  have h : (PortManager.run env .new calls).Consistent env :=
    PortManager.consistent_new.run calls
  exact ⟨h, fun c pm' events hcall => (h.call hcall).2⟩

/-- A platform with the given rules for case: all hash codes collide, and sets of
port numbers come in some order. -/
noncomputable def environmentOf (rules : CaseRules) : PortEnvironment where
  caseRules := rules
  hashCode := fun _ => 0
  numbers := anyOrder Port

/-! ### Two ports that change places -/

def twoPorts : List PortCall :=
  [.updatePorts [ImmutablePort.create "eth1" 1, ImmutablePort.create "eth2" 2]]

def swapPorts : PortCall :=
  .updatePorts [ImmutablePort.create "eth2" 1, ImmutablePort.create "eth1" 2]

/-- The old ports have other names at their numbers, so none of them is kept. -/
theorem keepsNames_swapPorts :
    swapPorts.KeepsNames (environmentOf englishCase)
      (PortManager.run (environmentOf englishCase) .new twoPorts) := by
  have hlist : (PortManager.run (environmentOf englishCase) .new twoPorts).portList =
      [ImmutablePort.create "eth1" 1, ImmutablePort.create "eth2" 2] := by decide +kernel
  have hother : ∀ p ∈ [ImmutablePort.create "eth2" 1, ImmutablePort.create "eth1" 2],
      ∀ o ∈ [ImmutablePort.create "eth1" 1, ImmutablePort.create "eth2" 2],
        o.portNumber = p.portNumber → p.equals englishCase o = false := by decide +kernel
  intro p hp o ho hnumber hequals
  rw [hlist] at ho
  exact absurd (hequals.symm.trans (hother p hp o ho hnumber)) Bool.noConfusion

theorem port_bookkeeping_swap :
    ∃ pm' events, PortManager.call (environmentOf englishCase)
        (PortManager.run (environmentOf englishCase) .new twoPorts) swapPorts =
          .ok (pm', events) ∧
      SamePorts (environmentOf englishCase)
        (replayEvents
          (PortManager.run (environmentOf englishCase) .new twoPorts).portsByNumber events)
        pm'.portsByNumber := by
  have hok : (PortManager.call (environmentOf englishCase)
      (PortManager.run (environmentOf englishCase) .new twoPorts) swapPorts).toOption.isSome =
        true := by decide +kernel
  cases hcall : PortManager.call (environmentOf englishCase)
      (PortManager.run (environmentOf englishCase) .new twoPorts) swapPorts with
  | error e =>
    rw [hcall] at hok
    cases hok
  | ok r =>
    exact ⟨r.1, r.2, rfl, ((port_bookkeeping (environmentOf englishCase) twoPorts).2 swapPorts
      r.1 r.2 hcall).mpr keepsNames_swapPorts⟩

/-! ### A name that changes its case -/

noncomputable def turkishEnvironment : PortEnvironment := environmentOf turkishCase

def turkishPorts : List PortCall := [.updatePorts [ImmutablePort.create "I1" 1]]

/-- Port 1 is called `i1` now, and port 2 `I1`. -/
def turkishUpdate : PortCall :=
  .updatePorts [ImmutablePort.create "i1" 1, ImmutablePort.create "I1" 2]

theorem turkishUpdate_accepted :
    ((PortManager.call turkishEnvironment (PortManager.run turkishEnvironment .new turkishPorts)
      turkishUpdate).toOption.map fun r =>
        ((replayEvents (PortManager.run turkishEnvironment .new turkishPorts).portsByNumber
          r.2).lookup 1, r.1.portsByNumber.lookup 1)) =
      some (none, some (ImmutablePort.create "i1" 1)) := by
  decide +kernel

/-- The changes are the deletion of port 1 and the addition of port 2. -/
theorem turkishPorts_not_replayed :
    ∃ pm' events, PortManager.call turkishEnvironment
        (PortManager.run turkishEnvironment .new turkishPorts) turkishUpdate =
          .ok (pm', events) ∧
      ¬ SamePorts turkishEnvironment
        (replayEvents (PortManager.run turkishEnvironment .new turkishPorts).portsByNumber events)
        pm'.portsByNumber := by
  obtain ⟨r, hr, hlookup⟩ := Option.map_eq_some_iff.mp turkishUpdate_accepted
  obtain ⟨hreplay, hnew⟩ := Prod.mk.inj hlookup
  cases hcall : PortManager.call turkishEnvironment
      (PortManager.run turkishEnvironment .new turkishPorts) turkishUpdate with
  | error e =>
    rw [hcall] at hr
    cases hr
  | ok r' =>
    rw [hcall] at hr
    cases hr
    refine ⟨r.1, r.2, rfl, fun hsame => ?_⟩
    rcases hsame 1 with ⟨-, hnone⟩ | ⟨p, -, hp, -⟩
    · rw [hnew] at hnone
      cases hnone
    · rw [hreplay] at hp
      cases hp

end NctuSdn
