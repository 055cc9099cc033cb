/-
The deletions that are meant for the flows of one cookie
(`NCTUForward.cleanFlowEntries`, `ForwardingBase.clearPriorityFlowEntries`).

Both build a DELETE with a match that is wild in every field, set its cookie
and hand it to the damper.  A switch does not look at the cookie of a DELETE,
and the port of a new message stands for any port, so the message empties the
table (`Wipes`, `applyFlowMod_of_wipes`).
-/
import NctuSdn.Forwarding.Damper
import NctuSdn.Forwarding.PushRoute

namespace NctuSdn

open List

/-! ### The messages -/

/-- `new OFFlowMod()` with the match that every caller sets. -/
def OFFlowMod.new (m : OFMatch) : OFFlowMod where
  xid := 0
  ofMatch := m
  cookie := 0
  command := 0
  idleTimeout := 0
  hardTimeout := 0
  priority := 0
  bufferId := 0
  outPort := ofppNone
  flags := 0
  actions := []

/-- The message of `cleanFlowEntries` for a cookie. -/
def cleanFlowMod (cookie : BitVec 64) : OFFlowMod :=
  { OFFlowMod.new (OFMatch.new.setWildcards ofpfwAll) with
    command := ofpfcDelete
    cookie := cookie }

/-- The message of `clearPriorityFlowEntries` as it is handed over. -/
def clearFlowMod (outPort : Port) (priority : ℤ) : OFFlowMod :=
  let fm := clearPriorityFlowEntries outPort priority
  { OFFlowMod.new fm.ofMatch with
    command := ofpfcDelete
    cookie := fm.cookie }

section Methods

variable {S : Type*} [DecidableEq S]

/-- The damper, and what it has written to which switch. -/
structure DamperLog (S : Type*) where
  damper : OFMessageDamper S
  written : List (S × OFFlowMod)

def DamperLog.write (st : DamperLog S) (sw : S) (msg : OFFlowMod) (curr : ℤ) : DamperLog S :=
  match st.damper.write sw msg curr with
  | (d, true) => ⟨d, st.written ++ [(sw, msg)]⟩
  | (d, false) => ⟨d, st.written⟩

def DamperLog.sentTo (st : DamperLog S) (sw : S) : List OFFlowMod :=
  (st.written.filter fun w => w.1 = sw).map Prod.snd

/-- The inner loop of `cleanFlowEntries`, over the two cookies. -/
def cleanSwitch (time : S → BitVec 64 → ℤ) (st : DamperLog S) (sw : S) : DamperLog S :=
  [1001, 1002].foldl (fun st cookie => st.write sw (cleanFlowMod cookie) (time sw cookie)) st

/-- `cleanFlowEntries`, over the switches in the order of their map.  `time`
is when the message of a cookie is handed over for a switch. -/
def cleanFlowEntries (time : S → BitVec 64 → ℤ) (d : OFMessageDamper S) (switches : List S) :
    DamperLog S :=
  switches.foldl (cleanSwitch time) ⟨d, []⟩

/-- The whole of `clearPriorityFlowEntries`; a switch that is not connected is
null, and the damper throws. -/
def sendClearPriorityFlowEntries (getSwitch : SwitchId → Option S) (time : ℤ)
    (d : OFMessageDamper S) (switchDPID : SwitchId) (outPort : Port) (priority : ℤ) :
    DamperLog S :=
  match getSwitch switchDPID with
  | none => ⟨d, []⟩
  | some sw => DamperLog.write ⟨d, []⟩ sw (clearFlowMod outPort priority) time

end Methods

/-! ### A deletion that ignores its cookie -/

def OvsFlow.none : OvsFlow := ⟨0, 0, 0, 0, 0, 0, 0, 0, 0, 0, 0⟩

/-- The message deletes every rule. -/
structure Wipes (m : OFFlowMod) : Prop where
  command : m.command = ofpfcDelete
  outPort : m.outPort = ofppNone
  flags : m.flags = 0
  actions : m.actions = []
  masks : (normalizeMatch (matchFromOfp10Match m.ofMatch)).masks = OvsFlow.none

theorem OvsFlow.inMask_none (a : OvsFlow) : a.inMask OvsFlow.none = OvsFlow.none := by
  simp [OvsFlow.inMask, OvsFlow.none]

theorem OvsFlow.none_inMask (a : OvsFlow) : OvsFlow.none.inMask a = OvsFlow.none := by
  simp [OvsFlow.inMask, OvsFlow.none]

theorem looseMatch_of_masks {criteria : FlowRule} (h : criteria.ofMatch.masks = OvsFlow.none)
    (r : FlowRule) : criteria.looseMatch r = true := by
  refine decide_eq_true ?_
  rw [h, OvsFlow.inMask_none, OvsFlow.inMask_none]
  exact ⟨OvsFlow.none_inMask _, rfl⟩

theorem hasOutPort_none (r : FlowRule) : r.hasOutPort ofppNone = true := rfl

section Table

variable {checkActions : List OFAction → OvsMatch → Bool} {m : OFFlowMod}

theorem applyFlowMod_of_wipes (hempty : ∀ m, checkActions [] m = true) (h : Wipes m)
    (t : Finset FlowRule) : applyFlowMod checkActions t m = ∅ := by
  refine Finset.eq_empty_of_forall_notMem fun r hr => ?_
  obtain ⟨criteria, hcriteria, hkept⟩ :=
    kept_of_mem_delete hr h.command h.flags (h.actions ▸ hempty)
  -- the rule is picked, and has the port
  rw [looseMatch_of_masks (hcriteria ▸ h.masks), h.outPort, hasOutPort_none] at hkept
  exact hkept rfl

theorem applyAll_of_wipes (hempty : ∀ m, checkActions [] m = true) (t : Finset FlowRule)
    {msgs : List OFFlowMod} (h : ∀ m ∈ msgs, Wipes m) (hne : msgs ≠ []) :
    applyAll checkActions t msgs = ∅ := by
  obtain ⟨init, m, rfl⟩ := eq_nil_or_concat' msgs |>.resolve_left hne
  rw [applyAll_concat]
  exact applyFlowMod_of_wipes hempty (h m (by simp)) _

/-- Applying the messages removes rules of the given cookies only. -/
def OnlyRemoves (checkActions : List OFAction → OvsMatch → Bool) (own : BitVec 64 → Prop)
    (t : Finset FlowRule) (msgs : List OFFlowMod) : Prop :=
  ∀ r ∈ t, r ∉ applyAll checkActions t msgs → own r.cookie

theorem onlyRemoves_iff_of_wipes (hempty : ∀ m, checkActions [] m = true)
    {own : BitVec 64 → Prop} (t : Finset FlowRule) {msgs : List OFFlowMod}
    (h : ∀ m ∈ msgs, Wipes m) :
    OnlyRemoves checkActions own t msgs ↔ msgs = [] ∨ ∀ r ∈ t, own r.cookie := by
  unfold OnlyRemoves
  by_cases hne : msgs = []
  · subst hne
    exact iff_of_true (fun r hr hnot => absurd hr hnot) (.inl rfl)
  · rw [applyAll_of_wipes hempty t h hne]
    simp [hne]

end Table

/-! ### Both methods send such messages -/

theorem wipes_cleanFlowMod (cookie : BitVec 64) : Wipes (cleanFlowMod cookie) where
  command := rfl
  outPort := rfl
  flags := rfl
  actions := rfl
  masks := by
    show (normalizeMatch (matchFromOfp10Match (OFMatch.new.setWildcards ofpfwAll))).masks = _
    decide +kernel

theorem wipes_clearFlowMod (outPort : Port) (priority : ℤ) :
    Wipes (clearFlowMod outPort priority) where
  command := rfl
  outPort := rfl
  flags := rfl
  actions := rfl
  masks := by
    -- the match does not depend on the port and the priority
    show (normalizeMatch (matchFromOfp10Match (clearPriorityFlowEntries 0 0).ofMatch)).masks = _
    decide +kernel

section Methods

variable {S : Type*} [DecidableEq S] {st : DamperLog S} {P : OFFlowMod → Prop}

theorem DamperLog.forall_write (h : ∀ w ∈ st.written, P w.2) (sw : S) {msg : OFFlowMod}
    (hmsg : P msg) (curr : ℤ) : ∀ w ∈ (st.write sw msg curr).written, P w.2 := by
  unfold DamperLog.write
  rcases st.damper.write sw msg curr with ⟨d, _ | _⟩
  · exact h
  · intro w hw
    rcases mem_append.mp hw with hw | hw
    · exact h w hw
    · rw [mem_singleton.mp hw]
      exact hmsg

theorem DamperLog.forall_sentTo (h : ∀ w ∈ st.written, P w.2) (sw : S) :
    ∀ m ∈ st.sentTo sw, P m := by
  intro m hm
  obtain ⟨w, hw, rfl⟩ := mem_map.mp hm
  exact h w (mem_filter.mp hw).1

theorem cleanSwitch_wipes (time : S → BitVec 64 → ℤ) (h : ∀ w ∈ st.written, Wipes w.2) (sw : S) :
    ∀ w ∈ (cleanSwitch time st sw).written, Wipes w.2 :=
  DamperLog.forall_write (DamperLog.forall_write h sw (wipes_cleanFlowMod 1001) _) sw
    (wipes_cleanFlowMod 1002) _

theorem cleanFlowEntries_wipes (time : S → BitVec 64 → ℤ) (d : OFMessageDamper S)
    (switches : List S) : ∀ w ∈ (cleanFlowEntries time d switches).written, Wipes w.2 := by
  have hloop : ∀ st : DamperLog S, (∀ w ∈ st.written, Wipes w.2) →
      ∀ w ∈ (switches.foldl (cleanSwitch time) st).written, Wipes w.2 := by
    induction switches with
    | nil => exact fun st h => h
    | cons sw switches ih => exact fun st h => ih _ (cleanSwitch_wipes time h sw)
  exact hloop ⟨d, []⟩ (by simp)

theorem sendClearPriorityFlowEntries_wipes (getSwitch : SwitchId → Option S) (time : ℤ)
    (d : OFMessageDamper S) (switchDPID : SwitchId) (outPort : Port) (priority : ℤ) :
    ∀ w ∈ (sendClearPriorityFlowEntries getSwitch time d switchDPID outPort priority).written,
      Wipes w.2 := by
  unfold sendClearPriorityFlowEntries
  cases getSwitch switchDPID with
  | none => simp
  | some sw => exact DamperLog.forall_write (by simp) sw (wipes_clearFlowMod _ _) time

/-! ### Which messages go out -/

variable {sw : S}

theorem OFMessageDamper.cache_write_of_ne (d : OFMessageDamper S) {sw' : S} (h : sw' ≠ sw)
    (msg msg' : OFFlowMod) (curr : ℤ) :
    (d.write sw' msg curr).1.cache.cache ⟨msg', sw⟩ = d.cache.cache ⟨msg', sw⟩ := by
  have hkey : (⟨msg', sw⟩ : DamperEntry S) ≠ ⟨msg, sw'⟩ := by
    intro heq
    cases heq
    exact h rfl
  unfold OFMessageDamper.write TimedCache.update
  cases d.dampensFlowMod with
  | false => rfl
  | true =>
    rw [if_pos rfl]
    cases d.cache.cache ⟨msg, sw'⟩ with
    | none => exact Function.update_of_ne hkey ..
    | some prev =>
      dsimp only
      split_ifs
      · exact Function.update_of_ne hkey ..
      · rfl

theorem OFMessageDamper.write_settings (d : OFMessageDamper S) (sw : S) (msg : OFFlowMod)
    (curr : ℤ) : (d.write sw msg curr).1.dampensFlowMod = d.dampensFlowMod ∧
      (d.write sw msg curr).1.cache.timeoutInterval = d.cache.timeoutInterval := by
  obtain ⟨dampens, cache⟩ := d
  unfold OFMessageDamper.write TimedCache.update
  cases dampens with
  | false => exact ⟨rfl, rfl⟩
  | true =>
    rw [if_pos rfl]
    cases cache.cache ⟨msg, sw⟩ with
    | none => exact ⟨rfl, rfl⟩
    | some prev =>
      dsimp only
      split_ifs
      · exact ⟨rfl, rfl⟩
      · exact ⟨rfl, rfl⟩

theorem OFMessageDamper.recent_write_of_ne (d : OFMessageDamper S) {sw' : S} (h : sw' ≠ sw)
    (msg msg' : OFFlowMod) (curr curr' : ℤ) :
    (d.write sw' msg curr).1.Recent sw msg' curr' ↔ d.Recent sw msg' curr' := by
  obtain ⟨hdampens, htimeout⟩ := d.write_settings sw' msg curr
  unfold OFMessageDamper.Recent
  rw [hdampens, htimeout, d.cache_write_of_ne h]

theorem OFMessageDamper.write_of_recent (d : OFMessageDamper S) {msg : OFFlowMod} {curr : ℤ}
    (h : d.Recent sw msg curr) : (d.write sw msg curr).1 = d := by
  obtain ⟨dampens, cache⟩ := d
  obtain ⟨rfl, prev, hprev, hrecent⟩ := h
  unfold OFMessageDamper.write TimedCache.update
  dsimp only at hprev hrecent ⊢
  rw [if_pos rfl, hprev]
  dsimp only
  rw [if_neg (by omega)]

theorem DamperLog.sentTo_write_of_ne {sw' : S} (h : sw' ≠ sw) (msg : OFFlowMod) (curr : ℤ) :
    (st.write sw' msg curr).sentTo sw = st.sentTo sw := by
  unfold DamperLog.write DamperLog.sentTo
  rcases st.damper.write sw' msg curr with ⟨d, _ | _⟩
  · rfl
  · simp [h]

theorem DamperLog.sentTo_write_self (sw : S) (msg : OFFlowMod) (curr : ℤ) :
    (st.write sw msg curr).sentTo sw = [] ↔
      st.sentTo sw = [] ∧ st.damper.Recent sw msg curr := by
  rw [← OFMessageDamper.write_eq_false_iff]
  unfold DamperLog.write DamperLog.sentTo
  rcases st.damper.write sw msg curr with ⟨d, _ | _⟩
  · simp
  · simp

theorem DamperLog.damper_write (sw : S) (msg : OFFlowMod) (curr : ℤ) :
    (st.write sw msg curr).damper = (st.damper.write sw msg curr).1 := by
  unfold DamperLog.write
  rcases st.damper.write sw msg curr with ⟨d, _ | _⟩
  · rfl
  · rfl

/-- Both messages of `cleanFlowEntries` are recent. -/
def CleanedRecently (time : S → BitVec 64 → ℤ) (d : OFMessageDamper S) (sw : S) : Prop :=
  d.Recent sw (cleanFlowMod 1001) (time sw 1001) ∧ d.Recent sw (cleanFlowMod 1002) (time sw 1002)

section

variable (time : S → BitVec 64 → ℤ)

theorem sentTo_cleanSwitch_of_ne {sw' : S} (h : sw' ≠ sw) :
    (cleanSwitch time st sw').sentTo sw = st.sentTo sw ∧
      (CleanedRecently time (cleanSwitch time st sw').damper sw ↔
        CleanedRecently time st.damper sw) := by
  show ((st.write sw' _ _).write sw' _ _).sentTo sw = _ ∧
    (CleanedRecently time ((st.write sw' _ _).write sw' _ _).damper sw ↔ _)
  unfold CleanedRecently
  simp only [DamperLog.sentTo_write_of_ne h, DamperLog.damper_write,
    OFMessageDamper.recent_write_of_ne _ h, and_self]

theorem sentTo_cleanSwitch_self (sw : S) :
    (cleanSwitch time st sw).sentTo sw = [] ↔
      st.sentTo sw = [] ∧ CleanedRecently time st.damper sw := by
  show ((st.write sw _ _).write sw _ _).sentTo sw = [] ↔ _
  rw [DamperLog.sentTo_write_self, DamperLog.sentTo_write_self, DamperLog.damper_write, and_assoc]
  refine and_congr_right fun _ => and_congr_right fun hrecent => ?_
  rw [st.damper.write_of_recent hrecent]

theorem damper_cleanSwitch_of_recent (h : CleanedRecently time st.damper sw) :
    (cleanSwitch time st sw).damper = st.damper := by
  show ((st.write sw _ _).write sw _ _).damper = _
  rw [DamperLog.damper_write, DamperLog.damper_write, st.damper.write_of_recent h.1,
    st.damper.write_of_recent h.2]

theorem sentTo_cleanFlowEntries (d : OFMessageDamper S) (switches : List S) (sw : S) :
    (cleanFlowEntries time d switches).sentTo sw = [] ↔
      (sw ∈ switches → CleanedRecently time d sw) := by
  unfold cleanFlowEntries
  suffices hloop : ∀ st : DamperLog S, (switches.foldl (cleanSwitch time) st).sentTo sw = [] ↔
      st.sentTo sw = [] ∧ (sw ∈ switches → CleanedRecently time st.damper sw) by
    rw [hloop]
    exact and_iff_right rfl
  induction switches with
  | nil => simp
  | cons sw' switches ih =>
    intro st
    rw [foldl_cons, ih]
    by_cases h : sw' = sw
    · subst h
      rw [sentTo_cleanSwitch_self, and_assoc]
      refine and_congr_right fun _ => ⟨fun h _ => h.1, fun h => ?_⟩
      have hrecent := h (mem_cons_self ..)
      rw [damper_cleanSwitch_of_recent time hrecent]
      exact ⟨hrecent, fun _ => hrecent⟩
    · have hother : (cleanSwitch time st sw').sentTo sw = st.sentTo sw ∧ _ :=
        sentTo_cleanSwitch_of_ne time h
      rw [hother.1, hother.2, mem_cons, or_iff_right (Ne.symm h)]

end

theorem sentTo_sendClearPriorityFlowEntries (getSwitch : SwitchId → Option S) (time : ℤ)
    (d : OFMessageDamper S) (switchDPID : SwitchId) (outPort : Port) (priority : ℤ) (sw : S) :
    (sendClearPriorityFlowEntries getSwitch time d switchDPID outPort priority).sentTo sw = [] ↔
      (getSwitch switchDPID = some sw → d.Recent sw (clearFlowMod outPort priority) time) := by
  unfold sendClearPriorityFlowEntries
  cases getSwitch switchDPID with
  | none => simp [DamperLog.sentTo]
  | some sw' =>
    by_cases h : sw' = sw
    · subst h
      rw [DamperLog.sentTo_write_self]
      simp [DamperLog.sentTo]
    · dsimp only
      rw [DamperLog.sentTo_write_of_ne h]
      simp [DamperLog.sentTo, h]

/-- **A deletion for a cookie removes only the flows of that cookie** exactly if
the switch is not addressed, the damper keeps the message back, or the table
has no other flows. -/
theorem cookie_deletion_own_iff {checkActions : List OFAction → OvsMatch → Bool}
    (hempty : ∀ m, checkActions [] m = true) (t : Finset FlowRule) (d : OFMessageDamper S)
    (sw : S) :
    (∀ time switches, OnlyRemoves checkActions (fun c => c = 1001 ∨ c = 1002) t
        ((cleanFlowEntries time d switches).sentTo sw) ↔
      (sw ∈ switches → CleanedRecently time d sw) ∨
        ∀ r ∈ t, r.cookie = 1001 ∨ r.cookie = 1002) ∧
    (∀ getSwitch time switchDPID outPort priority,
      OnlyRemoves checkActions
        (fun c => c = makeCookieFromPriority forwardingAppId outPort priority) t
        ((sendClearPriorityFlowEntries getSwitch time d switchDPID outPort priority).sentTo sw) ↔
      (getSwitch switchDPID = some sw → d.Recent sw (clearFlowMod outPort priority) time) ∨
        ∀ r ∈ t, r.cookie = makeCookieFromPriority forwardingAppId outPort priority) := by
  constructor
  · intro time switches
    rw [← sentTo_cleanFlowEntries]
    exact onlyRemoves_iff_of_wipes hempty t
      (DamperLog.forall_sentTo (cleanFlowEntries_wipes time d switches) sw)
  · intro getSwitch time switchDPID outPort priority
    rw [← sentTo_sendClearPriorityFlowEntries]
    exact onlyRemoves_iff_of_wipes hempty t (DamperLog.forall_sentTo
      (sendClearPriorityFlowEntries_wipes getSwitch time d switchDPID outPort priority) sw)

end Methods

/-! ### A flow of somebody else -/

/-- A rule with the cookie 7 for packets from port 1 (`flowModPort1`). -/
def otherRule : FlowRule where
  ofMatch := normalizeMatch (matchFromOfp10Match (flowModPort1 ofpfcAdd).ofMatch)
  priority := 100
  cookie := 7
  idleTimeout := 5
  hardTimeout := 0
  sendFlowRem := false
  actions := [.output 2 0xffff]

/-- Either deletion takes it away. -/
theorem cookie_deletion_removes_others :
    otherRule ∉ applyAll (fun _ _ => true) {otherRule}
        ((cleanFlowEntries (fun _ _ => 0) (.new ℕ 250) [1]).sentTo 1) ∧
      ¬ (otherRule.cookie = 1001 ∨ otherRule.cookie = 1002) ∧
      otherRule ∉ applyAll (fun _ _ => true) {otherRule}
        ((sendClearPriorityFlowEntries (fun _ => some 1) 0 (.new ℕ 250) 1 2 1).sentTo 1) ∧
      otherRule.cookie ≠ makeCookieFromPriority forwardingAppId 2 1 := by
  decide +kernel

theorem cookie_deletion_own_iff_cleaned :
    (∀ m : OvsMatch, (fun _ _ => true : List OFAction → OvsMatch → Bool) [] m = true) ∧
      OnlyRemoves (fun _ _ => true) (fun c => c = 1001 ∨ c = 1002)
        {{ otherRule with cookie := 1001 }}
        ((cleanFlowEntries (fun _ _ => 0) (.new ℕ 250) [1]).sentTo 1) := by
  refine ⟨fun _ => rfl, ?_⟩
  rw [(cookie_deletion_own_iff (fun _ => rfl) _ (.new ℕ 250) 1).1]
  right
  intro r hr
  rw [Finset.mem_singleton.mp hr]
  exact .inl rfl

end NctuSdn
