/-
The flow table of the bundled switch under OpenFlow 1.0 FLOW_MODs
(`ofputil_decode_flow_mod` in `lib/ofp-util.c`, `handle_flow_mod__` in
`ofproto/ofproto.c`).

A table is a finite set of rules.  A FLOW_MOD is decoded or refused, and then
adds a rule, changes rules or deletes them; rules are picked by equality
(`strict`) or by the part of their match that the message names (`loose`).
Counters, the buffered packet, expiry and the size limit are left out.  The
check of the actions against the ports of the switch is a parameter.

`Settled` says, command by command, that a message has nothing left to do.
-/
import Mathlib.Data.Finset.Image
import NctuSdn.OpenFlow.OpenVSwitch

namespace NctuSdn

open Finset Bool

deriving instance DecidableEq for OvsFlow, OvsMatch

/-! ### Messages -/

/-- `OFAction`: the two that name a port, or the type and body of another one. -/
inductive OFAction
  | output (port maxLength : BitVec 16)
  | enqueue (port : BitVec 16) (queueId : BitVec 32)
  | other (type : BitVec 16) (body : List (BitVec 8))
deriving DecidableEq, Repr

/-- `OFFlowMod`; the type, the version and the length follow from the rest. -/
structure OFFlowMod where
  xid : BitVec 32
  ofMatch : OFMatch
  cookie : BitVec 64
  command : BitVec 16
  idleTimeout : BitVec 16
  hardTimeout : BitVec 16
  priority : BitVec 16
  bufferId : BitVec 32
  outPort : BitVec 16
  flags : BitVec 16
  actions : List OFAction
deriving DecidableEq

def ofpfcAdd : BitVec 16 := 0
def ofpfcModify : BitVec 16 := 1
def ofpfcModifyStrict : BitVec 16 := 2
def ofpfcDelete : BitVec 16 := 3
def ofpfcDeleteStrict : BitVec 16 := 4

def ofpffSendFlowRem : BitVec 16 := 1
def ofpffCheckOverlap : BitVec 16 := 2
def ofpffEmerg : BitVec 16 := 4

/-- `OFPP_NONE`, which stands for any port in a delete. -/
def ofppNone : BitVec 16 := 0xffff

/-! ### Rules -/

/-- `struct rule`, without counters and times. -/
structure FlowRule where
  ofMatch : OvsMatch
  priority : BitVec 16
  cookie : BitVec 64
  idleTimeout : BitVec 16
  hardTimeout : BitVec 16
  sendFlowRem : Bool
  actions : List OFAction
deriving DecidableEq

/-- `struct ofputil_flow_mod`: the rule a message describes, and what to do. -/
structure FlowModSpec where
  command : BitVec 16
  rule : FlowRule
  outPort : BitVec 16
  checkOverlap : Bool

/-- `ofputil_decode_flow_mod` for OpenFlow 1.0; `none` is an error reply.  A
match without wildcards has the highest priority. -/
def decodeFlowMod (checkActions : List OFAction → OvsMatch → Bool) (m : OFFlowMod) :
    Option FlowModSpec :=
  let ovs := normalizeMatch (matchFromOfp10Match m.ofMatch)
  if m.flags &&& ~~~(ofpffSendFlowRem ||| ofpffCheckOverlap ||| ofpffEmerg) ≠ 0 then none
  else if m.flags &&& ofpffEmerg ≠ 0 then none
  else if checkActions m.actions ovs then
    some
      { command := m.command
        rule :=
          { ofMatch := ovs
            priority := if m.ofMatch.wildcards &&& ofpfwAll ≠ 0 then m.priority else 0xffff
            cookie := m.cookie
            idleTimeout := m.idleTimeout
            hardTimeout := m.hardTimeout
            sendFlowRem := m.flags &&& ofpffSendFlowRem ≠ 0
            actions := m.actions }
        outPort := m.outPort
        checkOverlap := m.flags &&& ofpffCheckOverlap ≠ 0 }
  else none

/-- The bits of `a` that `mask` has. -/
def OvsFlow.inMask (a mask : OvsFlow) : OvsFlow where
  inPort := a.inPort &&& mask.inPort
  dlSrc := a.dlSrc &&& mask.dlSrc
  dlDst := a.dlDst &&& mask.dlDst
  dlType := a.dlType &&& mask.dlType
  vlanTci := a.vlanTci &&& mask.vlanTci
  nwSrc := a.nwSrc &&& mask.nwSrc
  nwDst := a.nwDst &&& mask.nwDst
  nwTos := a.nwTos &&& mask.nwTos
  nwProto := a.nwProto &&& mask.nwProto
  tpSrc := a.tpSrc &&& mask.tpSrc
  tpDst := a.tpDst &&& mask.tpDst

/-- `cls_rule_equal`: the same match at the same priority. -/
def FlowRule.sameRule (criteria r : FlowRule) : Bool :=
  r.ofMatch = criteria.ofMatch ∧ r.priority = criteria.priority

/-- `cls_rule_is_loose_match`: the rule matches on everything the criteria
match on, with the same values. -/
def FlowRule.looseMatch (criteria r : FlowRule) : Bool :=
  criteria.ofMatch.masks.inMask r.ofMatch.masks = criteria.ofMatch.masks ∧
    r.ofMatch.flow.inMask criteria.ofMatch.masks =
      criteria.ofMatch.flow.inMask criteria.ofMatch.masks

/-- `classifier_rule_overlaps`: some packet matches both, at the same priority. -/
def FlowRule.overlaps (target r : FlowRule) : Bool :=
  let mask := target.ofMatch.masks.inMask r.ofMatch.masks
  r.priority = target.priority ∧ target.ofMatch.flow.inMask mask = r.ofMatch.flow.inMask mask

/-- `OFPP_CONTROLLER`. -/
def ofppController : BitVec 16 := 0xfffd

/-- An `NXAST_CONTROLLER`: a vendor action with the number of Nicira and the
subtype 20. -/
def isController (type : BitVec 16) (body : List (BitVec 8)) : Bool :=
  type == 0xffff && [0, 0, 0x23, 0x20, 0, 20].isPrefixOf body

/-- `ofpact_outputs_to_port`. -/
def OFAction.outputsToPort (port : BitVec 16) : OFAction → Bool
  | .output p _ => p == port
  | .enqueue p _ => p == port
  | .other type body => isController type body && port == ofppController

/-- `ofproto_rule_has_out_port`; `OFPP_NONE` stands for any port. -/
def FlowRule.hasOutPort (r : FlowRule) (port : BitVec 16) : Bool :=
  port == ofppNone || r.actions.any (OFAction.outputsToPort port)

/-! ### Commands -/

/-- The cookie that stands for "leave it". -/
def keepCookie : BitVec 64 := .allOnes 64

/-- What `modify_flows__` makes of a rule. -/
def FlowModSpec.modify (fm : FlowModSpec) (r : FlowRule) : FlowRule :=
  { r with
    cookie := if fm.rule.cookie = keepCookie then r.cookie else fm.rule.cookie
    actions := fm.rule.actions }

/-- What `modify_flows__` makes of a rule that is added again. -/
def FlowModSpec.replace (fm : FlowModSpec) (r : FlowRule) : FlowRule :=
  { fm.modify r with
    idleTimeout := fm.rule.idleTimeout
    hardTimeout := fm.rule.hardTimeout
    sendFlowRem := fm.rule.sendFlowRem }

def updateRules (t : Finset FlowRule) (picked : FlowRule → Bool) (f : FlowRule → FlowRule) :
    Finset FlowRule :=
  t.image fun r => if picked r then f r else r

def anyRule (t : Finset FlowRule) (picked : FlowRule → Bool) : Bool := ∃ r ∈ t, picked r = true

def addFlow (t : Finset FlowRule) (fm : FlowModSpec) : Finset FlowRule :=
  if anyRule t fm.rule.sameRule then updateRules t fm.rule.sameRule fm.replace
  else if fm.checkOverlap && anyRule t fm.rule.overlaps then t
  else insert fm.rule t

/-- `modify_flows_loose` and `modify_flow_strict`: without a rule to modify, one
is added unless the cookie is to be left. -/
def modifyFlows (t : Finset FlowRule) (fm : FlowModSpec) (picked : FlowRule → Bool) :
    Finset FlowRule :=
  if anyRule t picked then updateRules t picked fm.modify
  else if fm.rule.cookie = keepCookie then t
  else addFlow t fm

/-- `delete_flows_loose` and `delete_flow_strict`. -/
def deleteFlows (t : Finset FlowRule) (fm : FlowModSpec) (picked : FlowRule → Bool) :
    Finset FlowRule :=
  t.filter fun r => ¬ (picked r && r.hasOutPort fm.outPort)

/-- `handle_flow_mod__`: an unknown command is an error. -/
def handleFlowMod (t : Finset FlowRule) (fm : FlowModSpec) : Finset FlowRule :=
  if fm.command = ofpfcAdd then addFlow t fm
  else if fm.command = ofpfcModify then modifyFlows t fm fm.rule.looseMatch
  else if fm.command = ofpfcModifyStrict then modifyFlows t fm fm.rule.sameRule
  else if fm.command = ofpfcDelete then deleteFlows t fm fm.rule.looseMatch
  else if fm.command = ofpfcDeleteStrict then deleteFlows t fm fm.rule.sameRule
  else t

/-- What one FLOW_MOD does to the table. -/
def applyFlowMod (checkActions : List OFAction → OvsMatch → Bool) (t : Finset FlowRule)
    (m : OFFlowMod) : Finset FlowRule :=
  match decodeFlowMod checkActions m with
  | none => t
  | some fm => handleFlowMod t fm

/-! ### When a message has nothing to do -/

/-- The rule is there as the message describes it, or it may not be added. -/
def AddSettled (t : Finset FlowRule) (fm : FlowModSpec) : Prop :=
  (anyRule t fm.rule.sameRule = true ∧ ∀ r ∈ t, fm.rule.sameRule r = true → fm.replace r = r) ∨
  (anyRule t fm.rule.sameRule = false ∧ fm.checkOverlap = true ∧
    anyRule t fm.rule.overlaps = true)

/-- The rules that are picked are as the message describes them; if there are
none, there is none to be added. -/
def ModifySettled (t : Finset FlowRule) (fm : FlowModSpec) (picked : FlowRule → Bool) : Prop :=
  (anyRule t picked = true ∧ ∀ r ∈ t, picked r = true → fm.modify r = r) ∨
  (anyRule t picked = false ∧ (fm.rule.cookie = keepCookie ∨ AddSettled t fm))

/-- No rule that is picked has the port. -/
def DeleteSettled (t : Finset FlowRule) (fm : FlowModSpec) (picked : FlowRule → Bool) : Prop :=
  ∀ r ∈ t, picked r = true → r.hasOutPort fm.outPort = false

/-- The message has nothing left to do. -/
def Settled (checkActions : List OFAction → OvsMatch → Bool) (t : Finset FlowRule)
    (m : OFFlowMod) : Prop :=
  ∀ fm, decodeFlowMod checkActions m = some fm →
    (fm.command = ofpfcAdd → AddSettled t fm) ∧
    (fm.command = ofpfcModify → ModifySettled t fm fm.rule.looseMatch) ∧
    (fm.command = ofpfcModifyStrict → ModifySettled t fm fm.rule.sameRule) ∧
    (fm.command = ofpfcDelete → DeleteSettled t fm fm.rule.looseMatch) ∧
    (fm.command = ofpfcDeleteStrict → DeleteSettled t fm fm.rule.sameRule)

section Rules

variable {t : Finset FlowRule} {fm : FlowModSpec} {picked : FlowRule → Bool}
  {f : FlowRule → FlowRule}

theorem anyRule_eq_true_iff : anyRule t picked = true ↔ ∃ r ∈ t, picked r = true :=
  decide_eq_true_iff

theorem anyRule_eq_false_iff : anyRule t picked = false ↔ ∀ r ∈ t, picked r = false := by
  rw [← not_eq_true, anyRule_eq_true_iff]
  push Not
  simp only [not_eq_true]

theorem update_of_mem_updateRules (hidem : ∀ r, f (f r) = f r) {r : FlowRule}
    (hr : r ∈ updateRules t picked f) (hp : picked r = true) : f r = r := by
  obtain ⟨r₀, -, rfl⟩ := mem_image.mp hr
  by_cases hp₀ : picked r₀ = true
  · rw [if_pos hp₀]
    exact hidem r₀
  · rw [if_neg hp₀] at hp
    exact absurd hp hp₀

theorem updateRules_eq_self_iff (hidem : ∀ r, f (f r) = f r) :
    updateRules t picked f = t ↔ ∀ r ∈ t, picked r = true → f r = r := by
  constructor
  · intro heq r hr hp
    exact update_of_mem_updateRules hidem (heq.symm ▸ hr) hp
  · intro hall
    unfold updateRules
    rw [image_congr (g := id), image_id]
    intro r hr
    dsimp only [id]
    split
    next hp => exact hall r hr hp
    next => rfl

theorem anyRule_updateRules (hpicked : ∀ r, picked (f r) = picked r) :
    anyRule (updateRules t picked f) picked = anyRule t picked := by
  rw [Bool.eq_iff_iff, anyRule_eq_true_iff, anyRule_eq_true_iff]
  unfold updateRules
  rw [exists_mem_image]
  refine exists_congr fun r => and_congr_right fun _ => ?_
  split
  next => rw [hpicked]
  next => rfl

theorem sameRule_modify (r : FlowRule) : fm.rule.sameRule (fm.modify r) = fm.rule.sameRule r := rfl

theorem looseMatch_modify (r : FlowRule) :
    fm.rule.looseMatch (fm.modify r) = fm.rule.looseMatch r := rfl

theorem sameRule_replace (r : FlowRule) :
    fm.rule.sameRule (fm.replace r) = fm.rule.sameRule r := rfl

theorem modify_modify (r : FlowRule) : fm.modify (fm.modify r) = fm.modify r := by
  unfold FlowModSpec.modify
  split <;> rfl

theorem replace_replace (r : FlowRule) : fm.replace (fm.replace r) = fm.replace r := by
  unfold FlowModSpec.replace FlowModSpec.modify
  split <;> rfl

theorem modify_rule : fm.modify fm.rule = fm.rule := by
  unfold FlowModSpec.modify
  split <;> rfl

theorem replace_rule : fm.replace fm.rule = fm.rule := by
  unfold FlowModSpec.replace
  rw [modify_rule]

theorem sameRule_self (r : FlowRule) : r.sameRule r = true := decide_eq_true ⟨rfl, rfl⟩

theorem OvsFlow.inMask_self (a : OvsFlow) : a.inMask a = a := by
  unfold OvsFlow.inMask
  simp only [BitVec.and_self]

theorem looseMatch_of_sameRule {criteria r : FlowRule} (h : criteria.sameRule r = true) :
    criteria.looseMatch r = true := by
  obtain ⟨hmatch, -⟩ := of_decide_eq_true h
  refine decide_eq_true ?_
  rw [hmatch]
  exact ⟨OvsFlow.inMask_self _, rfl⟩

theorem addFlow_eq_self_iff : addFlow t fm = t ↔ AddSettled t fm := by
  unfold addFlow AddSettled
  cases hany : anyRule t fm.rule.sameRule with
  | true =>
    rw [if_pos rfl, updateRules_eq_self_iff replace_replace]
    simp
  | false =>
    rw [if_neg Bool.false_ne_true]
    split
    next hover =>
      rw [and_eq_true] at hover
      simp [hover]
    next hover =>
      -- the rule itself is not in the table, since nothing equals it
      have hnot : fm.rule ∉ t := by
        intro hmem
        have hself := anyRule_eq_false_iff.mp hany fm.rule hmem
        rw [sameRule_self] at hself
        cases hself
      rw [and_eq_true] at hover
      rw [insert_eq_self]
      simp [hnot, hover]

theorem modifyFlows_eq_self_iff : modifyFlows t fm picked = t ↔ ModifySettled t fm picked := by
  unfold modifyFlows ModifySettled
  cases hany : anyRule t picked with
  | true =>
    rw [if_pos rfl, updateRules_eq_self_iff modify_modify]
    simp
  | false =>
    rw [if_neg Bool.false_ne_true]
    split
    next hkeep => simp [hkeep]
    next hkeep =>
      rw [addFlow_eq_self_iff]
      simp [hkeep]

theorem deleteFlows_eq_self_iff : deleteFlows t fm picked = t ↔ DeleteSettled t fm picked := by
  unfold deleteFlows DeleteSettled
  rw [filter_eq_self]
  simp

/-! ### A message after itself -/

theorem addSettled_addFlow : AddSettled (addFlow t fm) fm := by
  unfold addFlow
  cases hany : anyRule t fm.rule.sameRule with
  | true =>
    rw [if_pos rfl]
    refine .inl ⟨?_, fun r hr hp => update_of_mem_updateRules replace_replace hr hp⟩
    rw [anyRule_updateRules sameRule_replace, hany]
  | false =>
    rw [if_neg Bool.false_ne_true]
    split
    next hover =>
      rw [and_eq_true] at hover
      exact .inr ⟨hany, hover⟩
    next =>
      refine .inl ⟨?_, fun r hr hp => ?_⟩
      · exact anyRule_eq_true_iff.mpr ⟨fm.rule, mem_insert_self _ _, sameRule_self _⟩
      · rcases mem_insert.mp hr with rfl | hr
        · exact replace_rule
        · rw [anyRule_eq_false_iff.mp hany r hr] at hp
          cases hp

theorem modifySettled_modifyFlows (hpicked : ∀ r, picked (fm.modify r) = picked r)
    (hsame : ∀ r, fm.rule.sameRule r = true → picked r = true) :
    ModifySettled (modifyFlows t fm picked) fm picked := by
  unfold modifyFlows
  cases hany : anyRule t picked with
  | true =>
    rw [if_pos rfl]
    refine .inl ⟨?_, fun r hr hp => update_of_mem_updateRules modify_modify hr hp⟩
    rw [anyRule_updateRules hpicked, hany]
  | false =>
    have hnone := anyRule_eq_false_iff.mp hany
    rw [if_neg Bool.false_ne_true]
    split
    next hkeep => exact .inr ⟨hany, .inl hkeep⟩
    next =>
      have hnew : anyRule t fm.rule.sameRule = false := by
        refine anyRule_eq_false_iff.mpr fun r hr => eq_false_iff.mpr fun hp => ?_
        exact eq_false_iff.mp (hnone r hr) (hsame r hp)
      unfold addFlow
      rw [hnew, if_neg Bool.false_ne_true]
      split
      next hover =>
        rw [and_eq_true] at hover
        exact .inr ⟨hany, .inr (.inr ⟨hnew, hover⟩)⟩
      next =>
        refine .inl ⟨?_, fun r hr hp => ?_⟩
        · exact anyRule_eq_true_iff.mpr
            ⟨fm.rule, mem_insert_self _ _, hsame _ (sameRule_self _)⟩
        · rcases mem_insert.mp hr with rfl | hr
          · exact modify_rule
          · rw [hnone r hr] at hp
            cases hp

theorem deleteSettled_deleteFlows : DeleteSettled (deleteFlows t fm picked) fm picked := by
  intro r hr hp
  have hnot := (mem_filter.mp hr).2
  rw [hp, Bool.true_and] at hnot
  exact eq_false_iff.mpr hnot

end Rules

/-! ### Whole messages -/

variable (checkActions : List OFAction → OvsMatch → Bool) (t : Finset FlowRule) (m : OFFlowMod)

/-- **A table is unchanged exactly if the message has nothing to do in it.** -/
theorem applyFlowMod_eq_self_iff :
    applyFlowMod checkActions t m = t ↔ Settled checkActions t m := by
  unfold applyFlowMod Settled
  cases hdecode : decodeFlowMod checkActions m with
  | none => simp
  | some fm =>
    simp only [Option.some.injEq, forall_eq']
    unfold handleFlowMod
    split_ifs with hadd hmodify hstrict hdelete hdeleteStrict
    · simp [hadd, addFlow_eq_self_iff, ofpfcAdd, ofpfcModify, ofpfcModifyStrict, ofpfcDelete,
        ofpfcDeleteStrict]
    · simp [hmodify, modifyFlows_eq_self_iff, ofpfcAdd, ofpfcModify, ofpfcModifyStrict,
        ofpfcDelete, ofpfcDeleteStrict]
    · simp [hstrict, modifyFlows_eq_self_iff, ofpfcAdd, ofpfcModify, ofpfcModifyStrict,
        ofpfcDelete, ofpfcDeleteStrict]
    · simp [hdelete, deleteFlows_eq_self_iff, ofpfcAdd, ofpfcModify, ofpfcModifyStrict,
        ofpfcDelete, ofpfcDeleteStrict]
    · simp [hdeleteStrict, deleteFlows_eq_self_iff, ofpfcAdd, ofpfcModify, ofpfcModifyStrict,
        ofpfcDelete, ofpfcDeleteStrict]
    · simp [hadd, hmodify, hstrict, hdelete, hdeleteStrict]

/-- **A repeated message changes nothing**, whatever its command and the table. -/
theorem applyFlowMod_idem : applyFlowMod checkActions (applyFlowMod checkActions t m) m =
    applyFlowMod checkActions t m := by
  unfold applyFlowMod
  cases decodeFlowMod checkActions m with
  | none => rfl
  | some fm =>
    dsimp only
    unfold handleFlowMod
    split_ifs with hadd hmodify hstrict hdelete hdeleteStrict
    · exact addFlow_eq_self_iff.mpr addSettled_addFlow
    · exact modifyFlows_eq_self_iff.mpr
        (modifySettled_modifyFlows looseMatch_modify fun r => looseMatch_of_sameRule)
    · exact modifyFlows_eq_self_iff.mpr
        (modifySettled_modifyFlows sameRule_modify fun r hr => hr)
    · exact deleteFlows_eq_self_iff.mpr deleteSettled_deleteFlows
    · exact deleteFlows_eq_self_iff.mpr deleteSettled_deleteFlows
    · rfl

variable {checkActions t m}

/-- A deletion that is accepted keeps what its match does not pick or what lacks its port. -/
theorem kept_of_mem_delete {r : FlowRule} (hr : r ∈ applyFlowMod checkActions t m)
    (hcommand : m.command = ofpfcDelete) (hflags : m.flags = 0)
    (hactions : ∀ ovs, checkActions m.actions ovs = true) :
    ∃ criteria : FlowRule, criteria.ofMatch = normalizeMatch (matchFromOfp10Match m.ofMatch) ∧
      ¬ (criteria.looseMatch r && r.hasOutPort m.outPort) := by
  unfold applyFlowMod decodeFlowMod handleFlowMod at hr
  dsimp only at hr
  rw [hflags, hactions, if_neg (by decide), if_neg (by decide), if_pos rfl] at hr
  dsimp only at hr
  rw [hcommand, if_neg (by decide), if_neg (by decide), if_neg (by decide), if_pos rfl] at hr
  exact ⟨_, rfl, (mem_filter.mp hr).2⟩

end NctuSdn
