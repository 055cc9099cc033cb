/-
What is announced about switches.

Of the manager only this matters for the ADDED and REMOVED updates: its role,
the two maps, and the updates so far (`SwitchView`).  All that happens to these
is a handful of transitions, each with what is announced of it; the calls of
the manager are sequences of them (`*_transitions`), and what the transitions
keep (`Exact`), every run keeps.
-/
import NctuSdn.Core.SwitchManager
import NctuSdn.Lib.Announcements

namespace NctuSdn

open List Finmap

open Relation

variable {O : Type}

/-! ### The transitions -/

/-- The ADDED and REMOVED updates. -/
def lifeCycle (updates : List ControllerUpdate) : List (SwitchId × Bool) :=
  updates.filterMap fun
    | .switchUpdate swId .added => some (swId, true)
    | .switchUpdate swId .removed => some (swId, false)
    | _ => none

/-- The part of the manager that the life cycle of switches is about. -/
structure SwitchView (O : Type) where
  role : Role
  active : Finmap fun _ : SwitchId => IOFSwitch O
  synced : Finmap fun _ : SwitchId => IOFSwitch O
  log : List (SwitchId × Bool)

def SwitchManager.view (m : SwitchManager O) : SwitchView O :=
  ⟨m.role, m.activeSwitches, m.syncedSwitches, lifeCycle m.updates⟩

namespace SwitchView

def known (v : SwitchView O) : Finset SwitchId :=
  if v.role ≠ .slave then v.synced.keys ∪ v.active.keys else v.synced.keys

/-- What can happen to switches. -/
inductive Transition : SwitchView O → SwitchView O → Prop
  /-- The controller becomes master. -/
  | setRole (v : SwitchView O) : Transition v { v with role := .master }
  /-- An active switch is activated again. -/
  | again (v : SwitchView O) (sw : IOFSwitch O) (hactive : sw.datapathId ∈ v.active) :
      Transition v { v with active := v.active.insert sw.datapathId sw }
  /-- Another switch with the id of an active one takes its place. -/
  | replace (v : SwitchView O) (sw : IOFSwitch O) (hactive : sw.datapathId ∈ v.active) :
      Transition v { v with
        active := v.active.insert sw.datapathId sw
        log := v.log ++ [(sw.datapathId, false)] ++ [(sw.datapathId, true)] }
  /-- A switch connects that nobody knew. -/
  | connect (v : SwitchView O) (sw : IOFSwitch O) (hrole : v.role = .master)
      (hactive : sw.datapathId ∉ v.active) (hsynced : sw.datapathId ∉ v.synced) :
      Transition v { v with
        active := v.active.insert sw.datapathId sw
        synced := v.synced.erase sw.datapathId
        log := v.log ++ [(sw.datapathId, true)] }
  /-- A switch connects that was known from the store. -/
  | promote (v : SwitchView O) (sw : IOFSwitch O) (hrole : v.role = .master)
      (hactive : sw.datapathId ∉ v.active) (hsynced : sw.datapathId ∈ v.synced) :
      Transition v { v with
        active := v.active.insert sw.datapathId sw
        synced := v.synced.erase sw.datapathId }
  /-- An active switch disconnects. -/
  | disconnect (v : SwitchView O) (dpid : SwitchId) (hrole : v.role ≠ .slave)
      (hactive : dpid ∈ v.active) :
      Transition v { v with
        active := v.active.erase dpid
        log := v.log ++ [(dpid, false)] }
  /-- A switch shows up in the store. -/
  | learn (v : SwitchView O) (sw : IOFSwitch O) (hrole : v.role = .slave)
      (hsynced : sw.datapathId ∉ v.synced) :
      Transition v { v with
        synced := v.synced.insert sw.datapathId sw
        log := v.log ++ [(sw.datapathId, true)] }
  /-- A switch that is known from the store changes. -/
  | refresh (v : SwitchView O) (sw : IOFSwitch O) (hrole : v.role = .slave)
      (hsynced : sw.datapathId ∈ v.synced) :
      Transition v { v with synced := v.synced.insert sw.datapathId sw }
  /-- A switch that is known from the store is given up. -/
  | forget (v : SwitchView O) (dpid : SwitchId) (hsynced : dpid ∈ v.synced) :
      Transition v { v with
        synced := v.synced.erase dpid
        log := v.log ++ [(dpid, false)] }

/-- What holds of every view. -/
structure Exact (v : SwitchView O) : Prop where
  announced : Announces v.log v.known
  disjoint : ∀ dpid ∈ v.active, dpid ∉ v.synced
  idle : v.role ≠ .master → ∀ dpid, dpid ∉ v.active
  ids : ∀ dpid sw, v.active.lookup dpid = some sw → sw.datapathId = dpid

variable {v v' : SwitchView O}

theorem mem_known_iff {dpid : SwitchId} :
    dpid ∈ v.known ↔ dpid ∈ v.synced ∨ v.role ≠ .slave ∧ dpid ∈ v.active := by
  unfold known
  split
  case isTrue hrole =>
    rw [Finset.mem_union, Finmap.mem_keys, Finmap.mem_keys]
    exact or_congr_right (and_iff_right hrole).symm
  case isFalse hrole =>
    rw [Finmap.mem_keys]
    exact (or_iff_left fun h => hrole h.1).symm

section

variable (h : v.Exact)
include h

/-- While a controller is not master, the role does not matter. -/
theorem Exact.mem_known {dpid : SwitchId} :
    dpid ∈ v.known ↔ dpid ∈ v.synced ∨ dpid ∈ v.active := by
  rw [mem_known_iff]
  refine or_congr_right ⟨And.right, fun hactive => ⟨?_, hactive⟩⟩
  rintro hslave
  exact h.idle (by rw [hslave]; decide) dpid hactive

theorem Exact.role_of_mem {dpid : SwitchId} (hactive : dpid ∈ v.active) :
    v.role = .master := by
  by_contra hrole
  exact h.idle hrole dpid hactive

theorem Exact.ids_insert (sw : IOFSwitch O) (dpid : SwitchId) (sw' : IOFSwitch O)
    (hsw' : (v.active.insert sw.datapathId sw).lookup dpid = some sw') :
    sw'.datapathId = dpid := by
  by_cases heq : dpid = sw.datapathId
  · rw [heq, lookup_insert] at hsw'
    rw [heq, Option.some.inj hsw']
  · rw [lookup_insert_of_ne _ heq] at hsw'
    exact h.ids dpid sw' hsw'

theorem Exact.disjoint_again {sw : IOFSwitch O} (hactive : sw.datapathId ∈ v.active) (x : SwitchId)
    (hx : x ∈ v.active.insert sw.datapathId sw) : x ∉ v.synced := by
  rcases mem_insert.mp hx with rfl | hx
  · exact h.disjoint _ hactive
  · exact h.disjoint _ hx

theorem Exact.disjoint_move (sw : IOFSwitch O) (x : SwitchId)
    (hx : x ∈ v.active.insert sw.datapathId sw) : x ∉ v.synced.erase sw.datapathId := by
  intro hx'
  obtain ⟨hne, hx'⟩ := mem_erase.mp hx'
  exact h.disjoint x ((mem_insert.mp hx).resolve_left hne) hx'

theorem Exact.known_insert {sw : IOFSwitch O} {log : List (SwitchId × Bool)}
    {synced : Finmap fun _ : SwitchId => IOFSwitch O} (hrole : v.role = .master)
    (hsynced : ∀ x, x ≠ sw.datapathId → (x ∈ synced ↔ x ∈ v.synced)) (x : SwitchId) :
    x ∈ (⟨v.role, v.active.insert sw.datapathId sw, synced, log⟩ : SwitchView O).known ↔
      x = sw.datapathId ∨ x ∈ v.known := by
  rw [mem_known_iff, h.mem_known, mem_insert, hrole]
  by_cases heq : x = sw.datapathId
  · simp [heq]
  · simp [heq, hsynced x heq]

/-- **One transition.** -/
theorem Exact.transition (ht : Transition v v') : v'.Exact := by
  cases ht with
  | setRole =>
    refine ⟨h.announced.congr fun x => ?_, h.disjoint, fun hrole => absurd rfl hrole, h.ids⟩
    rw [mem_known_iff, h.mem_known]
    simp
  | again sw hactive =>
    have hrole := h.role_of_mem hactive
    refine ⟨h.announced.congr fun x => ?_, h.disjoint_again hactive, fun hne => absurd hrole hne,
      h.ids_insert sw⟩
    rw [h.known_insert hrole fun _ _ => Iff.rfl]
    exact or_iff_right_of_imp fun hx => hx ▸ h.mem_known.mpr (.inr hactive)
  | replace sw hactive =>
    have hrole := h.role_of_mem hactive
    refine ⟨?_, h.disjoint_again hactive, fun hne => absurd hrole hne, h.ids_insert sw⟩
    -- the old connection goes, then the new one comes
    have hgone : Announces (v.log ++ [(sw.datapathId, false)]) (v.known.erase sw.datapathId) :=
      h.announced.go (h.mem_known.mpr (.inr hactive)) fun x => Finset.mem_erase
    refine hgone.come (Finset.notMem_erase _ _) fun x => ?_
    rw [h.known_insert hrole fun _ _ => Iff.rfl, Finset.mem_erase]
    tauto
  | connect sw hrole hactive hsynced =>
    refine ⟨?_, h.disjoint_move sw, fun hne => absurd hrole hne, h.ids_insert sw⟩
    refine h.announced.come (fun hknown => ?_) (h.known_insert hrole fun x hx => ?_)
    · exact (h.mem_known.mp hknown).elim hsynced hactive
    · exact mem_erase.trans (and_iff_right hx)
  | promote sw hrole hactive hsynced =>
    refine ⟨h.announced.congr fun x => ?_, h.disjoint_move sw, fun hne => absurd hrole hne,
      h.ids_insert sw⟩
    rw [h.known_insert hrole fun x hx => mem_erase.trans (and_iff_right hx)]
    exact or_iff_right_of_imp fun hx => hx ▸ h.mem_known.mpr (.inl hsynced)
  | disconnect dpid hrole hactive =>
    refine ⟨?_, fun x hx => h.disjoint x (mem_erase.mp hx).2,
      fun hne => absurd (h.role_of_mem hactive) hne, fun x sw hsw => ?_⟩
    · refine h.announced.go (h.mem_known.mpr (.inr hactive)) fun x => ?_
      rw [mem_known_iff, h.mem_known]
      show x ∈ v.synced ∨ v.role ≠ .slave ∧ x ∈ v.active.erase dpid ↔ _
      rw [mem_erase]
      have hx : x ∈ v.synced → x ≠ dpid := fun hx heq => h.disjoint dpid hactive (heq ▸ hx)
      tauto
    · by_cases heq : x = dpid
      · rw [heq, lookup_erase] at hsw
        cases hsw
      · rw [lookup_erase_ne heq] at hsw
        exact h.ids x sw hsw
  | learn sw hrole hsynced =>
    have hidle : ∀ x, x ∉ v.active := h.idle (by rw [hrole]; decide)
    refine ⟨?_, fun x hx => absurd hx (hidle x), h.idle, h.ids⟩
    refine h.announced.come (fun hknown => ?_) fun x => ?_
    · exact (h.mem_known.mp hknown).elim hsynced (hidle _)
    · rw [mem_known_iff, h.mem_known, mem_insert]
      simp [hidle]
  | refresh sw hrole hsynced =>
    have hidle : ∀ x, x ∉ v.active := h.idle (by rw [hrole]; decide)
    refine ⟨h.announced.congr fun x => ?_, fun x hx => absurd hx (hidle x), h.idle, h.ids⟩
    rw [mem_known_iff, h.mem_known, mem_insert]
    simp only [hidle, and_false, or_false]
    exact or_iff_right_of_imp fun hx => hx ▸ hsynced
  | forget dpid hsynced =>
    refine ⟨?_, fun x hx hx' => h.disjoint x hx (mem_erase.mp hx').2, h.idle, h.ids⟩
    refine h.announced.go (h.mem_known.mpr (.inl hsynced)) fun x => ?_
    rw [mem_known_iff, mem_known_iff]
    show x ∈ v.synced.erase dpid ∨ v.role ≠ .slave ∧ x ∈ v.active ↔ _
    rw [mem_erase]
    have hx : x ∈ v.active → x ≠ dpid := fun hx heq => h.disjoint x hx (heq ▸ hsynced)
    tauto

theorem Exact.transitions (ht : ReflTransGen Transition v v') : v'.Exact := by
  induction ht with
  | refl => exact h
  | tail _ ht ih => exact ih.transition ht

end

end SwitchView

/-! ### The calls as transitions -/

namespace SwitchManager

open SwitchView (Transition)

variable {c : ControllerSettings} (m : SwitchManager O)

theorem view_addUpdateToQueue (update : ControllerUpdate) :
    (m.addUpdateToQueue update).view = { m.view with log := m.view.log ++ lifeCycle [update] } := by
  simp only [view, addUpdateToQueue, lifeCycle, filterMap_append]

@[simp] theorem view_readyForReconcile :
    (m.addUpdateToQueue .readyForReconcileUpdate).view = m.view := by
  rw [view_addUpdateToQueue]
  simp [lifeCycle]

@[simp] theorem view_activated (dpid : SwitchId) :
    (m.addUpdateToQueue (.switchUpdate dpid .activated)).view = m.view := by
  rw [view_addUpdateToQueue]
  simp [lifeCycle]

@[simp] theorem view_portChanged (dpid : SwitchId) (event : PortChangeEvent) :
    (m.addUpdateToQueue (.switchUpdate dpid (.portChanged event))).view = m.view := by
  rw [view_addUpdateToQueue]
  simp [lifeCycle]

@[simp] theorem view_added (dpid : SwitchId) :
    (m.addUpdateToQueue (.switchUpdate dpid .added)).view =
      { m.view with log := m.view.log ++ [(dpid, true)] } :=
  m.view_addUpdateToQueue _

@[simp] theorem view_removed (dpid : SwitchId) :
    (m.addUpdateToQueue (.switchUpdate dpid .removed)).view =
      { m.view with log := m.view.log ++ [(dpid, false)] } :=
  m.view_addUpdateToQueue _

@[simp] theorem view_order (sw : IOFSwitch O) (command : SwitchCommand) :
    (m.order sw command).view = m.view := rfl

@[simp] theorem view_addSwitchToStore (sw : IOFSwitch O) : (m.addSwitchToStore sw).view = m.view :=
  rfl

@[simp] theorem view_addSwitchToStoreIfAbsent (sw : IOFSwitch O) :
    (m.addSwitchToStoreIfAbsent sw).view = m.view := by
  unfold addSwitchToStoreIfAbsent
  split <;> rfl

@[simp] theorem view_sendNotifications (oldSw newSw : IOFSwitch O) :
    (m.sendNotificationsIfSwitchDiffers c oldSw newSw).1.view = m.view := by
  unfold sendNotificationsIfSwitchDiffers
  split
  · rfl
  next portDiffs _ =>
    refine foldl_rule (fun _ (m' : SwitchManager O) => m'.view = m.view)
      (fun _ ev _ m' _ hm' => ?_) rfl
    rw [view_portChanged, hm']

theorem setRole_transitions :
    ReflTransGen Transition m.view (m.setRole .master).view := by
  have hview : (m.setRole .master).view = { m.view with role := .master } := by
    unfold setRole
    dsimp only
    split
    · rw [view_readyForReconcile]
      rfl
    · rfl
  rw [hview]
  exact .single (.setRole _)

theorem switchDisconnected_transitions [DecidableEq O] (sw : IOFSwitch O) :
    ReflTransGen Transition m.view (m.switchDisconnected sw).view := by
  unfold switchDisconnected
  split
  · exact .refl
  next hrole =>
    split
    · exact .refl
    next hactive =>
      rw [view_removed]
      exact .single (.disconnect m.view sw.datapathId hrole
        (mem_of_lookup_eq_some (not_not.mp hactive)))

theorem switchPortsChanged_view (sw : IOFSwitch O) (event : PortChangeEvent) :
    (m.switchPortsChanged sw event).view = m.view := by
  unfold switchPortsChanged
  split
  · rfl
  · split
    · rfl
    · rw [view_portChanged, view_addSwitchToStore]

theorem switchAddedToStore_transitions (sw : IOFSwitch O) :
    ReflTransGen Transition m.view (m.switchAddedToStore c sw).1.view := by
  unfold switchAddedToStore
  split
  · exact .refl
  next hrole =>
    dsimp only
    split
    next hsynced =>
      rw [view_added]
      exact .single (.learn m.view sw (not_not.mp hrole) (lookup_eq_none.mp hsynced))
    next hsynced =>
      rw [view_sendNotifications]
      exact .single (.refresh m.view sw (not_not.mp hrole) (mem_of_lookup_eq_some hsynced))

theorem switchRemovedFromStore_transitions (dpid : SwitchId) :
    ReflTransGen Transition m.view (m.switchRemovedFromStore dpid).view := by
  unfold switchRemovedFromStore
  split
  · exact .refl
  · split
    next hsynced =>
      rw [view_removed]
      exact .single (.forget m.view dpid (mem_of_lookup_eq_some hsynced))
    next => exact .refl

theorem consolidateEntry_transitions (s : SwitchManager O × Bool) (key : SwitchId) :
    ReflTransGen Transition s.1.view (consolidateEntry s key).1.view := by
  unfold consolidateEntry
  split
  · dsimp only
    split
    next hsynced =>
      rw [view_removed]
      exact .single (.forget s.1.view key (mem_of_lookup_eq_some hsynced))
    next => exact .refl
  · exact .refl

/-- The second loop of `consolidateStore` meets each synced switch once. -/
theorem dropSynced_transitions {keys : List SwitchId} (hnodup : keys.Nodup)
    (s : SwitchManager O × Bool) (hkeys : ∀ key ∈ keys, key ∈ s.1.syncedSwitches) :
    ReflTransGen Transition s.1.view (keys.foldl dropSynced s).1.view := by
  induction keys generalizing s with
  | nil => exact .refl
  | cons key keys ih =>
    obtain ⟨hkey, hnodup⟩ := nodup_cons.mp hnodup
    refine .head (.forget s.1.view key (hkeys key mem_cons_self)) ?_
    have hview : (dropSynced s key).1.view = { s.1.view with
        synced := s.1.view.synced.erase key
        log := s.1.view.log ++ [(key, false)] } := by
      simp only [dropSynced, view, addUpdateToQueue, lifeCycle, filterMap_append,
        filterMap_cons, filterMap_nil]
    rw [← hview]
    refine ih hnodup (dropSynced s key) fun x hx => mem_erase.mpr ⟨?_, ?_⟩
    · exact fun heq => hkey (heq ▸ hx)
    · exact hkeys x (mem_cons_of_mem _ hx)

theorem view_restoreActive (dpid : SwitchId) : (m.restoreActive dpid).view = m.view := by
  unfold restoreActive
  split
  · exact view_addSwitchToStoreIfAbsent m _
  · rfl

theorem consolidateStore_transitions (orders : Orders) :
    ReflTransGen Transition m.view (m.consolidateStore orders).view := by
  unfold consolidateStore
  split
  · exact .refl
  dsimp only
  have hentries : ReflTransGen Transition m.view
      ((orders.store.toList m.storeClient.keys).foldl consolidateEntry (m, false)).1.view :=
    foldl_rule (fun _ (s : SwitchManager O × Bool) => ReflTransGen Transition m.view s.1.view)
      (fun _ key _ s _ hs => hs.trans (consolidateEntry_transitions s key)) .refl
  generalize (orders.store.toList m.storeClient.keys).foldl consolidateEntry (m, false) = s₁
    at hentries ⊢
  have hsynced := hentries.trans (dropSynced_transitions (orders.synced.nodup _) s₁
    fun key hkey => mem_keys.mp ((orders.synced.mem_toList _ _).mp hkey))
  generalize (orders.synced.toList s₁.1.syncedSwitches.keys).foldl dropSynced s₁ = s₂ at hsynced ⊢
  have hnotify : (if s₂.2 then s₂.1.addUpdateToQueue .readyForReconcileUpdate else s₂.1).view =
      s₂.1.view := by
    split
    · exact view_readyForReconcile _
    · rfl
  generalize (if s₂.2 then s₂.1.addUpdateToQueue .readyForReconcileUpdate else s₂.1) = m₃
    at hnotify ⊢
  have hactive : ((orders.active.toList m₃.activeSwitches.keys).foldl restoreActive m₃).view =
      m₃.view :=
    foldl_rule (fun _ (m' : SwitchManager O) => m'.view = m₃.view)
      (fun _ dpid _ m' _ hm' => (view_restoreActive m' dpid).trans hm') rfl
  rw [hactive, hnotify]
  exact hsynced

theorem exact_new (role : Role)
    (storeClient : Finmap fun _ : SwitchId => Option SwitchSyncRepresentation)
    (objects : O → SwitchFields) : (new role storeClient objects).view.Exact where
  announced := Announces.nil.congr fun x => by
    simp [SwitchView.mem_known_iff, view, new, notMem_empty]
  disjoint := fun _ _ => notMem_empty
  idle := fun _ _ => notMem_empty
  ids := fun dpid sw hsw => by
    rw [view, new, lookup_empty] at hsw
    cases hsw

section

variable [DecidableEq O]

@[simp] theorem view_setPorts (sw : IOFSwitch O) (ports : List ImmutablePort) :
    (m.setPorts c sw ports).1.view = m.view := by
  unfold setPorts
  split <;> rfl

@[simp] theorem view_activateSynced (storedSwitch sw : IOFSwitch O) :
    (m.activateSynced c storedSwitch sw).1.view = m.view := by
  -- the commands, then the ports
  have hclear : (if c.alwaysClearFlowsOnSwActivate then m.order sw .clearAllFlowMods
      else m).view = m.view := by
    split <;> rfl
  unfold activateSynced
  dsimp only
  generalize (if c.alwaysClearFlowsOnSwActivate then m.order sw .clearAllFlowMods else m) = m₁
    at hclear ⊢
  have hports : (if (m₁.objects sw.object).supportsNxRole then
      m₁.setPorts c sw (m₁.getPorts storedSwitch) else (m₁, .ok ())).1.view = m.view := by
    split
    · rw [view_setPorts, hclear]
    · exact hclear
  generalize (if (m₁.objects sw.object).supportsNxRole then
    m₁.setPorts c sw (m₁.getPorts storedSwitch) else (m₁, .ok ())) = s at hports ⊢
  obtain ⟨m₂, _ | _⟩ := s
  · exact hports
  -- the notifications
  have hnotify := view_sendNotifications (c := c)
    (m₂.addUpdateToQueue (.switchUpdate sw.datapathId .activated)) storedSwitch sw
  rw [view_activated, show m₂.view = m.view from hports] at hnotify
  generalize (m₂.addUpdateToQueue (.switchUpdate sw.datapathId .activated)
    ).sendNotificationsIfSwitchDiffers c storedSwitch sw = s at hnotify ⊢
  obtain ⟨m₃, _ | _⟩ := s
  · exact hnotify
  · dsimp only
    split
    · rw [view_addSwitchToStore, view_readyForReconcile]
      exact hnotify
    · exact hnotify

theorem switchActivated_transitions (sw : IOFSwitch O) (recent : Bool) :
    ReflTransGen Transition m.view (m.switchActivated c sw recent).1.view := by
  unfold switchActivated
  split
  · exact .refl
  next hrole =>
    have hmaster : m.view.role = .master := not_not.mp hrole
    dsimp only
    split
    next oldSw hactive =>
      have hmem : sw.datapathId ∈ m.view.active := mem_of_lookup_eq_some hactive
      split
      · exact .single (.again m.view sw hmem)
      · simp only [view_addSwitchToStore, view_activated, view_added, view_order, view_removed]
        exact .single (.replace m.view sw hmem)
    next hactive =>
      have hnew : sw.datapathId ∉ m.view.active := lookup_eq_none.mp hactive
      split
      next hsynced =>
        have hunknown : sw.datapathId ∉ m.view.synced := lookup_eq_none.mp hsynced
        cases recent <;>
        · simp only [view_addSwitchToStore, view_activated, view_added]
          exact .single (.connect m.view sw hmaster hnew hunknown)
      next storedSwitch hsynced =>
        rw [view_activateSynced]
        exact .single (.promote m.view sw hmaster hnew (mem_of_lookup_eq_some hsynced))

theorem readKeys_transitions (keys : List (SwitchId × O)) :
    ReflTransGen Transition m.view (m.readKeys c keys).view := by
  induction keys generalizing m with
  | nil => exact .refl
  | cons entry keys ih =>
    obtain ⟨key, object⟩ := entry
    unfold readKeys
    split
    · exact (m.switchRemovedFromStore_transitions key).trans (ih _)
    next storedSwitch _ =>
      split
      · exact .refl
      next portManager _ =>
        dsimp only
        split
        · exact ih (m.setPortManager object portManager)
        · have hadded := switchAddedToStore_transitions (c := c)
            (m.setPortManager object portManager)
            ⟨object, storedSwitch.getFeaturesReply.datapathId⟩
          split
          next heq =>
            rw [heq] at hadded
            exact hadded
          next heq =>
            rw [heq] at hadded
            exact hadded.trans (ih _)

/-- **Every event is a sequence of transitions.** -/
theorem step_transitions (event : ManagerEvent O) :
    ReflTransGen Transition m.view (m.step c event).view := by
  cases event with
  | switchActivated sw recent => exact m.switchActivated_transitions sw recent
  | switchDeactivated | objectChanged | storeWritten => exact .refl
  | switchDisconnected sw => exact m.switchDisconnected_transitions sw
  | switchPortsChanged sw event =>
    rw [step, switchPortsChanged_view]
  | keysModified keys type =>
    cases type with
    | localUpdate => exact .refl
    | remoteUpdate => exact m.readKeys_transitions keys
  | setRoleMaster => exact m.setRole_transitions
  | consolidateStore orders => exact m.consolidateStore_transitions orders

/-- **Runs are exact.** -/
theorem run_exact {m : SwitchManager O} (h : m.view.Exact) (events : List (ManagerEvent O)) :
    (m.run c events).view.Exact :=
  foldl_rule (fun _ (m : SwitchManager O) => m.view.Exact)
    (fun _ event _ m _ hm => hm.transitions (m.step_transitions event)) h

end

/-! ### The store -/

/-- The store after it has been consolidated. -/
structure Settled (m : SwitchManager O) : Prop where
  role : m.role ≠ .slave
  synced : ∀ dpid, dpid ∉ m.syncedSwitches
  live : ∀ dpid, m.stored dpid ≠ none ↔ dpid ∈ m.activeSwitches

variable {m}

theorem stored_insert (dpid x : SwitchId) (value : Option SwitchSyncRepresentation) :
    { m with storeClient := m.storeClient.insert dpid value }.stored x =
      if x = dpid then value else m.stored x := by
  unfold stored
  split
  case isTrue heq =>
    rw [heq, lookup_insert]
    rfl
  case isFalse hne => rw [lookup_insert_of_ne _ hne]

theorem Settled.activate (h : m.Settled) {m' : SwitchManager O} (sw : IOFSwitch O)
    (hrole : m'.role = m.role) (hsynced : ∀ dpid ∈ m'.syncedSwitches, dpid ∈ m.syncedSwitches)
    (hactive : m'.activeSwitches = m.activeSwitches.insert sw.datapathId sw)
    (hstore : m'.storeClient = m.storeClient) : (m'.addSwitchToStore sw).Settled where
  role := hrole ▸ h.role
  synced := fun dpid hdpid => h.synced dpid (hsynced dpid hdpid)
  live := by
    intro dpid
    show (m'.addSwitchToStore sw).stored dpid ≠ none ↔ dpid ∈ m'.activeSwitches
    rw [addSwitchToStore, stored_insert, hactive, mem_insert, ← h.live, stored, stored,
      hstore]
    split
    case isTrue heq => simp [heq]
    case isFalse hne => simp [hne]

/-- The first loop: what is not active is not stored either. -/
structure Purged (m : SwitchManager O) (done : List SwitchId) (s : SwitchManager O × Bool) :
    Prop where
  role : s.1.role = m.role
  active : s.1.activeSwitches = m.activeSwitches
  stored : ∀ x, x ∉ m.activeSwitches → x ∈ done ∨ m.stored x = none → s.1.stored x = none

variable {done : List SwitchId}

theorem Purged.consolidateEntry {s : SwitchManager O × Bool} (h : Purged m done s)
    (key : SwitchId) :
    Purged m (done ++ [key]) (consolidateEntry s key) := by
  -- an entry that is deleted
  have hremoved : ∀ x, x ∉ m.activeSwitches → x ∈ done ++ [key] ∨ m.stored x = none →
      (s.1.removeSwitchFromStore key).stored x = none := by
    intro x hx hdone
    rw [removeSwitchFromStore, stored_insert]
    split
    · rfl
    next hne =>
      refine h.stored x hx (hdone.imp_left fun hmem => ?_)
      exact (mem_append.mp hmem).resolve_right fun hkey => hne (mem_singleton.mp hkey)
  unfold SwitchManager.consolidateEntry
  split
  · dsimp only
    split
    · exact ⟨h.role, h.active, hremoved⟩
    · exact ⟨h.role, h.active, hremoved⟩
  next hactive =>
    refine ⟨h.role, h.active, fun x hx hdone => h.stored x hx (hdone.imp_left fun hmem => ?_)⟩
    refine (mem_append.mp hmem).resolve_right fun hkey => hx ?_
    rw [mem_singleton.mp hkey, ← h.active]
    exact not_not.mp hactive

/-- The second loop: no synced switch is left. -/
structure Emptied (m : SwitchManager O) (done : List SwitchId) (s : SwitchManager O × Bool) :
    Prop where
  role : s.1.role = m.role
  active : s.1.activeSwitches = m.activeSwitches
  store : s.1.storeClient = m.storeClient
  synced : ∀ x ∈ s.1.syncedSwitches, x ∈ m.syncedSwitches ∧ x ∉ done

theorem Emptied.dropSynced {s : SwitchManager O × Bool} (h : Emptied m done s) (dpid : SwitchId) :
    Emptied m (done ++ [dpid]) (dropSynced s dpid) := by
  refine ⟨h.role, h.active, h.store, fun x hx => ?_⟩
  obtain ⟨hne, hx⟩ := mem_erase.mp hx
  obtain ⟨hsynced, hdone⟩ := h.synced x hx
  refine ⟨hsynced, fun hmem => ?_⟩
  exact (mem_append.mp hmem).elim hdone fun heq => hne (mem_singleton.mp heq)

/-- The third loop: what is active is stored. -/
structure Restored (m : SwitchManager O) (done : List SwitchId) (m' : SwitchManager O) :
    Prop where
  role : m'.role = m.role
  active : m'.activeSwitches = m.activeSwitches
  synced : m'.syncedSwitches = m.syncedSwitches
  sound : ∀ x, m'.stored x ≠ none → x ∈ m.activeSwitches
  complete : ∀ x ∈ done, x ∈ m.activeSwitches → m'.stored x ≠ none

theorem Restored.restoreActive {m' : SwitchManager O} (h : Restored m done m')
    (hids : ∀ dpid sw, m.activeSwitches.lookup dpid = some sw → sw.datapathId = dpid)
    (dpid : SwitchId) : Restored m (done ++ [dpid]) (m'.restoreActive dpid) := by
  unfold SwitchManager.restoreActive
  split
  next sw hsw =>
    rw [h.active] at hsw
    obtain rfl := hids dpid sw hsw
    have hmem := mem_of_lookup_eq_some hsw
    unfold addSwitchToStoreIfAbsent
    split
    next habsent =>
      refine ⟨h.role, h.active, h.synced, fun x hx => ?_, fun x hx hactive => ?_⟩
      · rw [addSwitchToStore, stored_insert] at hx
        split at hx
        next heq => exact heq ▸ hmem
        next => exact h.sound x hx
      · rw [addSwitchToStore, stored_insert]
        split
        next => exact Option.some_ne_none _
        next hne =>
          refine h.complete x ((mem_append.mp hx).resolve_right fun heq => ?_) hactive
          exact hne (mem_singleton.mp heq)
    next hpresent =>
      refine ⟨h.role, h.active, h.synced, h.sound, fun x hx hactive => ?_⟩
      rcases mem_append.mp hx with hx | hx
      · exact h.complete x hx hactive
      · rw [mem_singleton.mp hx, hpresent]
        exact Option.some_ne_none _
  next hnone =>
    refine ⟨h.role, h.active, h.synced, h.sound, fun x hx hactive => ?_⟩
    refine h.complete x ((mem_append.mp hx).resolve_right fun heq => ?_) hactive
    rw [h.active] at hnone
    exact lookup_eq_none.mp hnone (mem_singleton.mp heq ▸ hactive)

theorem settled_of_restore (hrole : m.role ≠ .slave) (hsynced : ∀ x, x ∉ m.syncedSwitches)
    (hpresent : ∀ x, m.stored x ≠ none → x ∈ m.activeSwitches)
    (hids : ∀ dpid sw, m.activeSwitches.lookup dpid = some sw → sw.datapathId = dpid)
    (order : SetOrder SwitchId) :
    ((order.toList m.activeSwitches.keys).foldl restoreActive m).Settled := by
  have hrestored := foldl_rule (Restored m) (l := order.toList m.activeSwitches.keys)
    (fun _ dpid _ _ _ hs => hs.restoreActive hids dpid)
    (s := m) ⟨rfl, rfl, rfl, hpresent, fun x hx => absurd hx not_mem_nil⟩
  refine ⟨?_, fun x => ?_, fun x => ?_⟩
  · rw [hrestored.role]
    exact hrole
  · rw [hrestored.synced]
    exact hsynced x
  · rw [hrestored.active]
    refine ⟨hrestored.sound x, fun hx => hrestored.complete x ?_ hx⟩
    exact (order.mem_toList _ _).mpr (mem_keys.mpr hx)

/-- **Consolidation settles the store.** -/
theorem consolidateStore_settled (hrole : m.role ≠ .slave)
    (hids : ∀ dpid sw, m.activeSwitches.lookup dpid = some sw → sw.datapathId = dpid)
    (orders : Orders) : (m.consolidateStore orders).Settled := by
  rw [consolidateStore, if_neg hrole]
  dsimp only
  -- first loop: entries of the store without an active switch go
  have hpurged := foldl_rule (Purged m) (l := orders.store.toList m.storeClient.keys)
    (fun _ key _ _ _ hs => hs.consolidateEntry key)
    (s := (m, false)) ⟨rfl, rfl, fun x _ h => h.resolve_left not_mem_nil⟩
  generalize (orders.store.toList m.storeClient.keys).foldl consolidateEntry (m, false) = s₁
    at hpurged ⊢
  -- second loop: switches known only from the store go
  have hemptied := foldl_rule (Emptied s₁.1) (l := orders.synced.toList s₁.1.syncedSwitches.keys)
    (fun _ dpid _ _ _ hs => hs.dropSynced dpid)
    (s := s₁) ⟨rfl, rfl, rfl, fun x hx => ⟨hx, not_mem_nil⟩⟩
  generalize (orders.synced.toList s₁.1.syncedSwitches.keys).foldl dropSynced s₁ = s₂
    at hemptied ⊢
  have hsynced : ∀ x, x ∉ s₂.1.syncedSwitches := by
    intro x hx
    obtain ⟨hmem, hdone⟩ := hemptied.synced x hx
    exact hdone ((orders.synced.mem_toList _ _).mpr (mem_keys.mpr hmem))
  have hpresent : ∀ x, s₂.1.stored x ≠ none → x ∈ m.activeSwitches := by
    intro x hx
    by_contra hactive
    rw [stored, hemptied.store] at hx
    refine hx (hpurged.stored x hactive ?_)
    by_cases hkey : x ∈ m.storeClient
    · exact .inl ((orders.store.mem_toList _ _).mpr (mem_keys.mpr hkey))
    · rw [stored, lookup_eq_none.mpr hkey]
      exact .inr rfl
  have hactive : s₂.1.activeSwitches = m.activeSwitches := hemptied.active.trans hpurged.active
  have hrole₂ : s₂.1.role ≠ .slave := by
    rw [hemptied.role, hpurged.role]
    exact hrole
  rw [← hactive] at hids hpresent
  split
  · exact settled_of_restore (m := s₂.1.addUpdateToQueue _) hrole₂ hsynced hpresent hids
      orders.active
  · exact settled_of_restore hrole₂ hsynced hpresent hids orders.active

/-! ### A settled store stays so -/

theorem Settled.switchDisconnected [DecidableEq O] (h : m.Settled) (sw : IOFSwitch O) :
    (m.switchDisconnected sw).Settled := by
  unfold SwitchManager.switchDisconnected
  split
  · exact h
  · split
    · exact h
    · refine ⟨h.role, h.synced, fun x => ?_⟩
      show (m.removeSwitchFromStore sw.datapathId).stored x ≠ none ↔
        x ∈ m.activeSwitches.erase sw.datapathId
      rw [removeSwitchFromStore, stored_insert, mem_erase, ← h.live]
      split
      case isTrue heq => simp [heq]
      case isFalse hne => simp [hne]

theorem Settled.switchPortsChanged (h : m.Settled) (sw : IOFSwitch O) (event : PortChangeEvent) :
    (m.switchPortsChanged sw event).Settled := by
  unfold SwitchManager.switchPortsChanged
  split
  · exact h
  · split
    · exact h
    next hactive =>
      refine ⟨h.role, h.synced, fun x => ?_⟩
      show (m.addSwitchToStore sw).stored x ≠ none ↔ x ∈ m.activeSwitches
      rw [addSwitchToStore, stored_insert]
      split
      case isTrue heq =>
        rw [heq]
        exact iff_of_true (Option.some_ne_none _) (not_not.mp hactive)
      case isFalse => exact h.live x

theorem Settled.setRole (h : m.Settled) : (m.setRole .master).Settled := by
  unfold SwitchManager.setRole
  dsimp only
  split
  · exact ⟨Role.noConfusion, h.synced, h.live⟩
  · exact ⟨Role.noConfusion, h.synced, h.live⟩

section

variable [DecidableEq O] (h : m.Settled)
include h

theorem Settled.switchActivated (sw : IOFSwitch O) (recent : Bool) :
    (m.switchActivated c sw recent).1.Settled := by
  unfold SwitchManager.switchActivated
  split
  · exact h
  · dsimp only
    split
    · split
      · exact h.activate sw rfl (fun _ hx => hx) rfl rfl
      · exact h.activate sw rfl (fun _ hx => hx) rfl rfl
    · split
      · cases recent <;>
        exact h.activate sw rfl (fun _ hx => (mem_erase.mp hx).2) rfl rfl
      next hsynced => exact absurd (mem_of_lookup_eq_some hsynced) (h.synced _)

theorem Settled.readKeys (keys : List (SwitchId × O)) :
    (m.readKeys c keys).Settled := by
  induction keys generalizing m with
  | nil => exact h
  | cons entry keys ih =>
    obtain ⟨key, object⟩ := entry
    unfold SwitchManager.readKeys
    split
    · rw [switchRemovedFromStore, if_pos h.role]
      exact ih h
    · split
      · exact h
      next portManager _ =>
        have hset : (m.setPortManager object portManager).Settled := ⟨h.role, h.synced, h.live⟩
        dsimp only
        split
        · exact ih hset
        · rw [switchAddedToStore, if_pos hset.role]
          exact ih hset

theorem Settled.step
    (hids : ∀ dpid sw, m.activeSwitches.lookup dpid = some sw → sw.datapathId = dpid)
    {event : ManagerEvent O} (hown : event.Own) : (m.step c event).Settled := by
  cases event with
  | switchActivated sw recent => exact h.switchActivated sw recent
  | switchDeactivated => exact h
  | switchDisconnected sw => exact h.switchDisconnected sw
  | switchPortsChanged sw event => exact h.switchPortsChanged sw event
  | keysModified keys type =>
    cases type with
    | localUpdate => exact h
    | remoteUpdate => exact h.readKeys keys
  | setRoleMaster => exact h.setRole
  | consolidateStore orders => exact consolidateStore_settled h.role hids orders
  | objectChanged => exact ⟨h.role, h.synced, h.live⟩
  | storeWritten => exact hown.elim

theorem Settled.run (hexact : m.view.Exact) {events : List (ManagerEvent O)}
    (hown : ∀ event ∈ events, event.Own) :
    (m.run c events).Settled := by
  induction events generalizing m with
  | nil => exact h
  | cons event events ih =>
    obtain ⟨hevent, hown⟩ := forall_mem_cons.mp hown
    exact ih (h.step hexact.ids hevent) (hexact.transitions (m.step_transitions event)) hown

end

end SwitchManager

/-! ### The life cycle of switches -/

/-- **Switch life cycle notifications are exact.**  At any time, of each switch
the ADDED and REMOVED updates alternate, starting with ADDED, and the switches
whose last one is ADDED are those that `getAllSwitchDpids` returns.  No switch
is both active and synced.  Once the store has been consolidated by a master,
no switch is synced and the store has the active switches, as long as nobody
else writes it. -/
theorem switch_life_cycle_exact [DecidableEq O] (c : ControllerSettings) (role : Role)
    (storeClient : Finmap fun _ : SwitchId => Option SwitchSyncRepresentation)
    (objects : O → SwitchFields) (events : List (ManagerEvent O)) :
    let start := SwitchManager.new role storeClient objects
    let m := start.run c events
    Announces (lifeCycle m.updates) m.getAllSwitchDpids ∧
    (∀ dpid ∈ m.activeSwitches, dpid ∉ m.syncedSwitches) ∧
    ∀ before orders after, events = before ++ .consolidateStore orders :: after →
      (start.run c before).role = .master → (∀ event ∈ after, event.Own) →
      (∀ dpid, dpid ∉ m.syncedSwitches) ∧
        ∀ dpid, m.stored dpid ≠ none ↔ dpid ∈ m.activeSwitches := by
  intro start m
  have hnew : start.view.Exact := SwitchManager.exact_new role storeClient objects
  have hexact : m.view.Exact := SwitchManager.run_exact hnew events
  refine ⟨hexact.announced, hexact.disjoint, ?_⟩
  intro before orders after hevents hmaster hown
  have hbefore : (start.run c before).view.Exact := SwitchManager.run_exact hnew before
  have hrole : (start.run c before).role ≠ .slave := by
    rw [hmaster]
    decide
  have hsettled : ((start.run c before).consolidateStore orders).Settled :=
    SwitchManager.consolidateStore_settled hrole hbefore.ids orders
  have hconsolidated := hbefore.transitions
    ((start.run c before).consolidateStore_transitions orders)
  have hm : m = ((start.run c before).consolidateStore orders).run c after := by
    simp only [m, hevents, SwitchManager.run, foldl_append, foldl_cons,
      SwitchManager.step]
  have hend := hsettled.run (c := c) hconsolidated hown
  rw [← hm] at hend
  exact ⟨hend.synced, hend.live⟩

/-- A controller that takes over while the store has a switch that is gone. -/
noncomputable def takingOver : SwitchManager ℕ :=
  .new .slave (Finmap.singleton 5 (some ⟨5, []⟩)) fun _ => ⟨.new, true⟩

noncomputable def someOrders : SwitchManager.Orders :=
  ⟨anyOrder SwitchId, anyOrder SwitchId, anyOrder SwitchId⟩

/-- It becomes master, and after the store has been consolidated a switch
connects. -/
noncomputable def takeover : List (ManagerEvent ℕ) :=
  [.setRoleMaster] ++ .consolidateStore someOrders :: [.switchActivated ⟨1, 7⟩ false]

theorem switch_life_cycle_exact_takeover :
    (takingOver.run ⟨environmentOf englishCase, false⟩ [.setRoleMaster]).role = .master ∧
    ∀ dpid, (takingOver.run ⟨environmentOf englishCase, false⟩ takeover).stored dpid ≠ none ↔
      dpid ∈ (takingOver.run ⟨environmentOf englishCase, false⟩ takeover).activeSwitches := by
  have hmaster :
      (takingOver.run ⟨environmentOf englishCase, false⟩ [.setRoleMaster]).role = .master := rfl
  have hexact := switch_life_cycle_exact ⟨environmentOf englishCase, false⟩ .slave
    (Finmap.singleton 5 (some ⟨5, []⟩)) (fun _ : ℕ => ⟨.new, true⟩) takeover
  refine ⟨hmaster, (hexact.2.2 [.setRoleMaster] someOrders _ rfl hmaster ?_).2⟩
  intro event hevent
  cases mem_singleton.mp hevent
  exact trivial

end NctuSdn
