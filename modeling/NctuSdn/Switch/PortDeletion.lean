/-
What a port status message deletes (`PortManager.handlePortStatusDelete`).

The ports that have the number or, ignoring case, the name of the port in the message are
to go, and the answer is to name each of them once.  Ports are stored by their lower-case
names.  Where the number of the message is known, its name is put in lower case before it
is looked up; where it is not, the name is looked up as it is, so a port with a name like
`Eth1` is not found and stays.
-/
import NctuSdn.Switch.PortManager

namespace NctuSdn

open List

namespace PortManager

variable {env : PortEnvironment} {pm : PortManager} {delPort : ImmutablePort}

/-- What is to be deleted: the views agree on the ports without those that have the number
or the name, and the changes are one deletion for each of these. -/
structure DeletesConflicts (env : PortEnvironment) (pm : PortManager) (delPort : ImmutablePort)
    (result : PortManager × List PortChangeEvent) : Prop where
  views : result.1.Consistent env
  kept : ∀ p, p ∈ result.1.portList ↔ p ∈ pm.portList ∧ ¬ Conflicts env pm delPort p
  type : ∀ e ∈ result.2, e.type = .delete
  once : (result.2.map fun e => (e.number, e.port.name)).Nodup
  each : ∀ id, id ∈ (result.2.map fun e => (e.number, e.port.name)) ↔
    ∃ o, Conflicts env pm delPort o ∧ id = (o.portNumber, o.name)

/-- The number of the message is known, or its name tells the same ports as its lower
case. -/
def FindsName (env : PortEnvironment) (pm : PortManager) (delPort : ImmutablePort) : Prop :=
  (∃ p ∈ pm.portList, p.portNumber = delPort.portNumber) ∨
    ∀ p ∈ pm.portList, env.lowerName p = delPort.name ↔ env.lowerName p = env.lowerName delPort

/-- `dels` are the ports that a call removes, and its changes say so. -/
structure Deletes (env : PortEnvironment) (pm : PortManager) (dels : List ImmutablePort)
    (result : PortManager × List PortChangeEvent) : Prop where
  views : result.1.Consistent env
  stored : ∀ o ∈ dels, o ∈ pm.portList
  nodup : dels.Nodup
  kept : ∀ p, p ∈ result.1.portList ↔ p ∈ pm.portList ∧ p ∉ dels
  type : ∀ e ∈ result.2, e.type = .delete
  ids : result.2.map (fun e => (e.number, e.port.name)) =
    dels.map fun o => (o.portNumber, o.name)

theorem Deletes.deletesConflicts_iff (h : pm.Consistent env) {dels : List ImmutablePort}
    {result : PortManager × List PortChangeEvent} (hdel : Deletes env pm dels result) :
    DeletesConflicts env pm delPort result ↔ ∀ o, o ∈ dels ↔ Conflicts env pm delPort o := by
  constructor
  · intro hconflicts o
    by_cases ho : o ∈ pm.portList
    · have hkept := (hdel.kept o).symm.trans (hconflicts.kept o)
      rw [and_congr_right_iff] at hkept
      exact not_iff_not.mp (hkept ho)
    · exact iff_of_false (fun hmem => ho (hdel.stored o hmem)) fun hconflict => ho hconflict.1
  · intro hdels
    refine ⟨hdel.views, fun p => ?_, hdel.type, ?_, fun id => ?_⟩
    · rw [hdel.kept, hdels]
    · -- ports with different numbers differ
      rw [hdel.ids]
      refine List.Nodup.map_on (fun o ho o' ho' heq => ?_) hdel.nodup
      exact inj_on_of_nodup_map h.numbers (hdel.stored o ho) (hdel.stored o' ho')
        (Prod.mk.inj heq).1
    · rw [hdel.ids, mem_map]
      refine exists_congr fun o => ?_
      rw [hdels]
      exact and_congr_right fun _ => eq_comm

theorem mem_portList_update {ports : PortsByNumber} (h : UniquePorts env ports)
    {p : ImmutablePort} :
    p ∈ (updatePortsWithNewPortsByNumber env ports).portList ↔
      ports.lookup p.portNumber = some p :=
  mem_values h

theorem mem_erase (h : pm.Consistent env) {ports : PortsByNumber} {dels : List ImmutablePort}
    (hports : ∀ p : ImmutablePort, ports.lookup p.portNumber = some p ↔
      p ∈ pm.portList ∧ p ∉ dels) {o : ImmutablePort} (ho : o ∈ pm.portList) (p : ImmutablePort) :
    (ports.erase o.portNumber).lookup p.portNumber = some p ↔
      p ∈ pm.portList ∧ p ∉ o :: dels := by
  by_cases hnumber : p.portNumber = o.portNumber
  · rw [hnumber, Finmap.lookup_erase]
    refine iff_of_false (fun hnone => by cases hnone) fun hp => hp.2 ?_
    rw [inj_on_of_nodup_map h.numbers hp.1 ho hnumber]
    exact mem_cons_self
  · rw [Finmap.lookup_erase_ne hnumber, hports, mem_cons, not_or]
    refine and_congr_right fun _ => (and_iff_right ?_).symm
    exact fun heq => hnumber (congrArg ImmutablePort.portNumber heq)

theorem Consistent.lookup_iff (h : pm.Consistent env) (p : ImmutablePort) :
    pm.portsByNumber.lookup p.portNumber = some p ↔ p ∈ pm.portList ∧ p ∉ [] := by
  rw [h.byNumber]
  exact and_congr_right fun _ => iff_of_true rfl not_mem_nil

/-- A message whose number is not known deletes the port whose lower-case name is its
name. -/
theorem Consistent.deletes_unknown (h : pm.Consistent env)
    (hnone : pm.portsByNumber.lookup delPort.portNumber = none) :
    ∃ dels, Deletes env pm dels (PortManager.handlePortStatusDelete env pm delPort) ∧
      ∀ o, o ∈ dels ↔ o ∈ pm.portList ∧ env.lowerName o = delPort.name := by
  have hviews := (h.handlePortStatusDelete delPort).1
  unfold PortManager.handlePortStatusDelete at hviews ⊢
  rw [hnone] at hviews ⊢
  cases hname : pm.portsByName.lookup delPort.name with
  | none =>
    rw [hname] at hviews
    refine ⟨[], ⟨hviews, by simp, nodup_nil, fun p => ?_, by simp, rfl⟩, fun o => ?_⟩
    · rw [mem_portList_update h.unique, h.lookup_iff]
    · rw [← h.byName, hname]
      exact iff_of_false not_mem_nil fun hsome => by cases hsome
  | some prevPort =>
    rw [hname] at hviews
    obtain ⟨hprev, hlower⟩ := (h.byName _ prevPort).mp hname
    refine ⟨[prevPort], ⟨hviews, by simpa using hprev, nodup_singleton _, fun p => ?_,
      by simp, rfl⟩, fun o => ?_⟩
    · rw [mem_portList_update (h.unique.erase _)]
      exact mem_erase h h.lookup_iff hprev p
    · rw [← h.byName, hname, mem_singleton]
      exact ⟨fun heq => congrArg some heq.symm, fun heq => (Option.some.inj heq).symm⟩

section Known

variable {prevPort : ImmutablePort}

theorem Consistent.conflicts_iff (h : pm.Consistent env)
    (hprev : pm.portsByNumber.lookup delPort.portNumber = some prevPort) (o : ImmutablePort) :
    Conflicts env pm delPort o ↔
      o = prevPort ∨ pm.portsByName.lookup (env.lowerName delPort) = some o := by
  obtain ⟨hmem, hnumber⟩ := (h.byNumber _ prevPort).mp hprev
  unfold Conflicts
  rw [and_or_left, ← h.byName]
  refine or_congr_left ⟨fun ho => ?_, ?_⟩
  · exact inj_on_of_nodup_map h.numbers ho.1 hmem (ho.2.trans hnumber.symm)
  · rintro rfl
    exact ⟨hmem, hnumber⟩

theorem Consistent.add_deletion_eq (h : pm.Consistent env) {namedPort : ImmutablePort}
    (hprev : prevPort ∈ pm.portList) (hnamed : namedPort ∈ pm.portList) :
    LinkedHashSet.add env.sameEvent [deletion prevPort] (deletion namedPort) =
      if namedPort = prevPort then [deletion prevPort]
      else [deletion prevPort, deletion namedPort] := by
  refine if_congr ?_ rfl rfl
  rw [any_cons, any_nil, Bool.or_false]
  constructor
  · exact fun hsame => (h.eq_of_sameEvent_deletion hnamed hprev hsame).symm
  · rintro rfl
    exact sameEvent_refl env _

section

variable (h : pm.Consistent env)
  (hprev : pm.portsByNumber.lookup delPort.portNumber = some prevPort)
include h hprev

theorem Consistent.mem_erase_number (p : ImmutablePort) :
    (pm.portsByNumber.erase delPort.portNumber).lookup p.portNumber = some p ↔
      p ∈ pm.portList ∧ p ∉ [prevPort] := by
  obtain ⟨hmem, hnumber⟩ := (h.byNumber _ prevPort).mp hprev
  rw [← hnumber]
  exact mem_erase h h.lookup_iff hmem p

theorem Consistent.deletes_same (hname : prevPort.name = delPort.name) :
    Deletes env pm [prevPort] (PortManager.handlePortStatusDelete env pm delPort) ∧
      ∀ o, o ∈ [prevPort] ↔ Conflicts env pm delPort o := by
  have hviews := (h.handlePortStatusDelete delPort).1
  obtain ⟨hmem, hnumber⟩ := (h.byNumber _ prevPort).mp hprev
  have hlower : env.lowerName prevPort = env.lowerName delPort :=
    congrArg env.caseRules.toLowerCase hname
  unfold PortManager.handlePortStatusDelete at hviews ⊢
  rw [hprev] at hviews ⊢
  dsimp only at hviews ⊢
  rw [if_pos hname] at hviews ⊢
  refine ⟨⟨hviews, by simpa using hmem, nodup_singleton _, fun p => ?_, by simp, ?_⟩,
    fun o => ?_⟩
  · rw [mem_portList_update (h.unique.erase _)]
    exact h.mem_erase_number hprev p
  · -- the change shows the port of the message
    rw [map_singleton, map_singleton, hname, hnumber]
    rfl
  · rw [h.conflicts_iff hprev, (h.byName _ prevPort).mpr ⟨hmem, hlower⟩, mem_singleton,
      Option.some_inj, eq_comm (a := prevPort), or_self]

theorem Consistent.deletes_renamed (hname : prevPort.name ≠ delPort.name)
    (hlookup : pm.portsByName.lookup (env.lowerName delPort) = none) :
    Deletes env pm [prevPort] (PortManager.handlePortStatusDelete env pm delPort) ∧
      ∀ o, o ∈ [prevPort] ↔ Conflicts env pm delPort o := by
  have hviews := (h.handlePortStatusDelete delPort).1
  obtain ⟨hmem, hnumber⟩ := (h.byNumber _ prevPort).mp hprev
  unfold PortManager.handlePortStatusDelete at hviews ⊢
  rw [hprev] at hviews ⊢
  dsimp only at hviews ⊢
  rw [if_neg hname, hlookup] at hviews ⊢
  refine ⟨⟨hviews, by simpa using hmem, nodup_singleton _, fun p => ?_, by simp, rfl⟩,
    fun o => ?_⟩
  · rw [mem_portList_update (h.unique.erase _)]
    exact h.mem_erase_number hprev p
  · rw [h.conflicts_iff hprev, hlookup, mem_singleton]
    exact (or_iff_left fun hsome => by cases hsome).symm

/-- The port has another name, and some port has the name of the message: the two are one
port if the names differ in case only. -/
theorem Consistent.deletes_both (hname : prevPort.name ≠ delPort.name) {namedPort : ImmutablePort}
    (hlookup : pm.portsByName.lookup (env.lowerName delPort) = some namedPort) :
    ∃ dels, Deletes env pm dels (PortManager.handlePortStatusDelete env pm delPort) ∧
      ∀ o, o ∈ dels ↔ Conflicts env pm delPort o := by
  have hviews := (h.handlePortStatusDelete delPort).1
  have hmem := ((h.byNumber _ prevPort).mp hprev).1
  have hnamed := ((h.byName _ namedPort).mp hlookup).1
  have hadd := h.add_deletion_eq hmem hnamed
  have hkept : ∀ p, p ∈ (updatePortsWithNewPortsByNumber env
      ((pm.portsByNumber.erase delPort.portNumber).erase namedPort.portNumber)).portList ↔
        p ∈ pm.portList ∧ p ∉ [namedPort, prevPort] := by
    intro p
    rw [mem_portList_update ((h.unique.erase _).erase _)]
    exact mem_erase h (h.mem_erase_number hprev) hnamed p
  have hconflicts : ∀ o, Conflicts env pm delPort o ↔ o = prevPort ∨ o = namedPort := by
    intro o
    rw [h.conflicts_iff hprev, hlookup, Option.some_inj, eq_comm (a := namedPort)]
  unfold PortManager.handlePortStatusDelete at hviews ⊢
  rw [hprev] at hviews ⊢
  dsimp only at hviews ⊢
  rw [if_neg hname, hlookup] at hviews ⊢
  dsimp only [deletion] at hviews hadd ⊢
  rw [hadd]
  by_cases heq : namedPort = prevPort
  · rw [if_pos heq]
    refine ⟨[prevPort], ⟨hviews, by simpa using hmem, nodup_singleton _, fun p => ?_,
      by simp, rfl⟩, fun o => ?_⟩
    · rw [hkept, heq, mem_pair, or_self, mem_singleton]
    · rw [hconflicts, heq, or_self, mem_singleton]
  · rw [if_neg heq]
    refine ⟨[prevPort, namedPort], ⟨hviews, by simp [hmem, hnamed], by simp [Ne.symm heq],
      fun p => ?_, by simp, rfl⟩, fun o => ?_⟩
    · rw [hkept, mem_pair, mem_pair, or_comm]
    · rw [hconflicts, mem_pair]

theorem Consistent.deletes_known :
    ∃ dels, Deletes env pm dels (PortManager.handlePortStatusDelete env pm delPort) ∧
      ∀ o, o ∈ dels ↔ Conflicts env pm delPort o := by
  by_cases hname : prevPort.name = delPort.name
  · exact ⟨_, h.deletes_same hprev hname⟩
  · cases hlookup : pm.portsByName.lookup (env.lowerName delPort) with
    | none => exact ⟨_, h.deletes_renamed hprev hname hlookup⟩
    | some namedPort => exact h.deletes_both hprev hname hlookup

end

end Known

theorem Consistent.deletesConflicts_iff (h : pm.Consistent env) (delPort : ImmutablePort) :
    DeletesConflicts env pm delPort (PortManager.handlePortStatusDelete env pm delPort) ↔
      FindsName env pm delPort := by
  unfold FindsName
  cases hprev : pm.portsByNumber.lookup delPort.portNumber with
  | some prevPort =>
    obtain ⟨dels, hdel, hdels⟩ := h.deletes_known hprev
    rw [hdel.deletesConflicts_iff h]
    exact iff_of_true hdels (.inl ⟨prevPort, (h.byNumber _ _).mp hprev⟩)
  | none =>
    have hunknown : ∀ p ∈ pm.portList, p.portNumber ≠ delPort.portNumber := by
      intro p hp hnumber
      rw [(h.byNumber _ p).mpr ⟨hp, hnumber⟩] at hprev
      cases hprev
    obtain ⟨dels, hdel, hdels⟩ := h.deletes_unknown hprev
    rw [hdel.deletesConflicts_iff h, or_iff_right]
    · refine forall_congr' fun o => ?_
      rw [hdels, Conflicts, and_congr_right_iff]
      refine forall_congr' fun ho => ?_
      rw [or_iff_right (hunknown o ho)]
    · rintro ⟨p, hp, hnumber⟩
      exact hunknown p hp hnumber

theorem handlePortStatusMessage_delete {desc : OFPhysicalPort}
    (hport : ImmutablePort.fromOFPhysicalPort desc = .ok delPort) :
    PortManager.handlePortStatusMessage env pm ⟨1, some desc⟩ =
      .ok (PortManager.handlePortStatusDelete env pm delPort) := by
  unfold PortManager.handlePortStatusMessage
  dsimp only
  rw [hport]
  rfl

end PortManager

/-- **The deletion of a port by its status** follows its contract exactly if the number is
known or the name finds the same ports as its lower case. -/
theorem port_status_deletion_iff {env : PortEnvironment} {pm : PortManager}
    (h : pm.Consistent env) {desc : OFPhysicalPort} {delPort : ImmutablePort}
    (hport : ImmutablePort.fromOFPhysicalPort desc = .ok delPort) :
    (∃ result, pm.handlePortStatusMessage env ⟨1, some desc⟩ = .ok result ∧
      pm.DeletesConflicts env delPort result) ↔ pm.FindsName env delPort := by
  rw [PortManager.handlePortStatusMessage_delete hport, ← h.deletesConflicts_iff]
  constructor
  · rintro ⟨result, hresult, hdeletes⟩
    cases hresult
    exact hdeletes
  · exact fun hdeletes => ⟨_, rfl, hdeletes⟩

noncomputable def englishEnvironment : PortEnvironment where
  caseRules := ⟨Char.toUpper, Char.toLower, String.toLower⟩
  hashCode := fun _ => 0
  numbers := anyOrder Port

/-- Port 1 is called `Eth1`. -/
noncomputable def capitalPort : PortManager :=
  .run englishEnvironment .new [.updatePorts [ImmutablePort.create "Eth1" 1]]

/-- A port called `Eth1` on the wire. -/
def capitalDesc (portNumber : Port) : OFPhysicalPort :=
  ⟨portNumber, some 0, some "Eth1", 0, 0, 0, 0, 0, 0⟩

theorem capitalPort_portList : capitalPort.portList = [ImmutablePort.create "Eth1" 1] := by
  decide +kernel

theorem port_status_deletion_known :
    ∃ delPort result, ImmutablePort.fromOFPhysicalPort (capitalDesc 1) = .ok delPort ∧
      capitalPort.handlePortStatusMessage englishEnvironment ⟨1, some (capitalDesc 1)⟩ =
        .ok result ∧
      capitalPort.DeletesConflicts englishEnvironment delPort result := by
  have hport : ImmutablePort.fromOFPhysicalPort (capitalDesc 1) =
      .ok (ImmutablePort.create "Eth1" 1) := by decide +kernel
  have hfinds : capitalPort.FindsName englishEnvironment (ImmutablePort.create "Eth1" 1) :=
    .inl ⟨ImmutablePort.create "Eth1" 1, by rw [capitalPort_portList]; simp, rfl⟩
  obtain ⟨result, hresult, hdeletes⟩ :=
    (port_status_deletion_iff (PortManager.consistent_new.run _) hport).mpr hfinds
  exact ⟨_, result, hport, hresult, hdeletes⟩

/-- A message about port 2 of the same name does not delete port 1. -/
theorem port_status_deletion_misses_name :
    ∃ delPort, ImmutablePort.fromOFPhysicalPort (capitalDesc 2) = .ok delPort ∧
      ¬ ∃ result, capitalPort.handlePortStatusMessage englishEnvironment
          ⟨1, some (capitalDesc 2)⟩ = .ok result ∧
        capitalPort.DeletesConflicts englishEnvironment delPort result := by
  have hport : ImmutablePort.fromOFPhysicalPort (capitalDesc 2) =
      .ok (ImmutablePort.create "Eth1" 2) := by decide +kernel
  refine ⟨_, hport, ?_⟩
  rintro ⟨result, hresult, hdeletes⟩
  rw [PortManager.handlePortStatusMessage_delete hport] at hresult
  cases hresult
  have h : capitalPort.Consistent englishEnvironment := PortManager.consistent_new.run _
  rcases (h.deletesConflicts_iff _).mp hdeletes with ⟨p, hp, hnumber⟩ | hname
  · rw [capitalPort_portList, mem_singleton] at hp
    subst hp
    exact absurd hnumber (by decide)
  · -- the name is stored as `eth1`
    have hlower := (hname (ImmutablePort.create "Eth1" 1) (by rw [capitalPort_portList]; simp)).mpr
      (by decide +kernel)
    exact absurd hlower (by decide +kernel)

end NctuSdn
