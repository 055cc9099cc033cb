/-
Static flows down to the rules of the switches.

`Following` reads the messages of the module as changes of a table by switch, match and
priority (`applyStrict`).  The bundled switch normalizes a match before it looks for a rule,
and gives a match without wildcards the highest priority, so that two entries of that table may
be one rule.  Where the rows keep apart there, the rules that the switch has after all messages
(`applyFlowMod`) are those of the active rows.

Design.  What a message does to a table of rules is said once, by keys and actions
(`Becomes`); a table without two rules of one key stays such.  `Holds` relates the entries to
the tables of the switches, and a message takes both along (`Holds.step`).
-/
import NctuSdn.StaticFlow.Following

namespace NctuSdn

open List Function

/-! ### Rules by their keys -/

/-- Where a rule is in the table of a switch. -/
abbrev RuleKey := OvsMatch × BitVec 16

def FlowRule.key (r : FlowRule) : RuleKey := (r.ofMatch, r.priority)

/-- The key of the rule that the switch makes of a match and a priority. -/
def ruleKey (k : OFMatch × BitVec 16) : RuleKey :=
  (normalizeMatch (matchFromOfp10Match k.1),
    if k.1.wildcards &&& ofpfwAll ≠ 0 then k.2 else 0xffff)

def HasRule (t : Finset FlowRule) (k : RuleKey) (actions : List OFAction) : Prop :=
  ∃ r ∈ t, r.key = k ∧ r.actions = actions

def UniqueRules (t : Finset FlowRule) : Prop :=
  ∀ r ∈ t, ∀ r' ∈ t, r.key = r'.key → r = r'

/-- The second table is the first one but for the rule of a key, which has the actions, or is
not there. -/
structure Becomes (t t' : Finset FlowRule) (key : RuleKey) (v : Option (List OFAction)) : Prop where
  unique : UniqueRules t'
  rules : ∀ k actions, HasRule t' k actions ↔
    if k = key then v = some actions else HasRule t k actions

theorem sameRule_iff {criteria r : FlowRule} :
    criteria.sameRule r = true ↔ r.key = criteria.key := by
  unfold FlowRule.sameRule FlowRule.key
  rw [decide_eq_true_iff, Prod.mk.injEq]

section Commands

variable {t : Finset FlowRule} {fm : FlowModSpec} (h : UniqueRules t)

include h

/-- The rule of a key is changed where it is. -/
theorem becomes_updateRules {f : FlowRule → FlowRule} (hany : anyRule t fm.rule.sameRule = true)
    (hkey : ∀ r, (f r).key = r.key) (hactions : ∀ r, (f r).actions = fm.rule.actions) :
    Becomes t (updateRules t fm.rule.sameRule f) fm.rule.key (some fm.rule.actions) := by
  have hkeys : ∀ r, (if fm.rule.sameRule r then f r else r).key = r.key := by
    intro r
    split
    · exact hkey r
    · rfl
  constructor
  · intro r hr r' hr' heq
    obtain ⟨a, ha, rfl⟩ := Finset.mem_image.mp hr
    obtain ⟨b, hb, rfl⟩ := Finset.mem_image.mp hr'
    rw [hkeys, hkeys] at heq
    rw [h a ha b hb heq]
  · intro k actions
    have himage : HasRule (updateRules t fm.rule.sameRule f) k actions ↔
        ∃ r ∈ t, r.key = k ∧ (if fm.rule.sameRule r then f r else r).actions = actions := by
      unfold HasRule updateRules
      rw [Finset.exists_mem_image]
      exact exists_congr fun r => by rw [hkeys]
    rw [himage]
    split
    · next hk =>
      obtain ⟨r₀, hr₀, hsame₀⟩ := anyRule_eq_true_iff.mp hany
      constructor
      · rintro ⟨r, -, hr, hactions'⟩
        rw [if_pos (sameRule_iff.mpr (hr.trans hk)), hactions] at hactions'
        rw [hactions']
      · intro heq
        refine ⟨r₀, hr₀, (sameRule_iff.mp hsame₀).trans hk.symm, ?_⟩
        rw [if_pos hsame₀, hactions]
        exact Option.some.inj heq
    · next hk =>
      refine exists_congr fun r => and_congr_right fun _ => and_congr_right fun hr => ?_
      rw [if_neg fun hsame => hk (hr.symm.trans (sameRule_iff.mp hsame))]

/-- A rule with a new key is added. -/
theorem becomes_insert (hany : anyRule t fm.rule.sameRule = false) :
    Becomes t (insert fm.rule t) fm.rule.key (some fm.rule.actions) := by
  have hnew : ∀ r ∈ t, r.key ≠ fm.rule.key := by
    intro r hr heq
    have hsame := anyRule_eq_false_iff.mp hany r hr
    rw [sameRule_iff.mpr heq] at hsame
    cases hsame
  constructor
  · intro r hr r' hr' heq
    rcases Finset.mem_insert.mp hr with rfl | hr <;> rcases Finset.mem_insert.mp hr' with rfl | hr'
    · rfl
    · exact absurd heq.symm (hnew r' hr')
    · exact absurd heq (hnew r hr)
    · exact h r hr r' hr' heq
  · intro k actions
    unfold HasRule
    rw [Finset.exists_mem_insert]
    split
    · next hk =>
      constructor
      · rintro (⟨-, hactions⟩ | ⟨r, hr, hkey, -⟩)
        · rw [hactions]
        · exact absurd (hkey.trans hk) (hnew r hr)
      · exact fun heq => .inl ⟨hk.symm, Option.some.inj heq⟩
    · next hk => exact or_iff_right fun hrule => hk hrule.1.symm

theorem becomes_addFlow (hoverlap : fm.checkOverlap = false) :
    Becomes t (addFlow t fm) fm.rule.key (some fm.rule.actions) := by
  unfold addFlow
  cases hany : anyRule t fm.rule.sameRule with
  | true => exact becomes_updateRules h hany (fun _ => rfl) fun _ => rfl
  | false =>
    rw [if_neg Bool.false_ne_true, hoverlap, Bool.false_and, if_neg Bool.false_ne_true]
    exact becomes_insert h hany

theorem becomes_modifyFlows (hoverlap : fm.checkOverlap = false)
    (hcookie : fm.rule.cookie ≠ keepCookie) :
    Becomes t (modifyFlows t fm fm.rule.sameRule) fm.rule.key (some fm.rule.actions) := by
  unfold modifyFlows
  cases hany : anyRule t fm.rule.sameRule with
  | true => exact becomes_updateRules h hany (fun _ => rfl) fun _ => rfl
  | false =>
    rw [if_neg Bool.false_ne_true, if_neg hcookie]
    exact becomes_addFlow h hoverlap

theorem becomes_deleteFlows (hport : fm.outPort = ofppNone) :
    Becomes t (deleteFlows t fm fm.rule.sameRule) fm.rule.key none := by
  have hmem : ∀ r, r ∈ deleteFlows t fm fm.rule.sameRule ↔ r ∈ t ∧ r.key ≠ fm.rule.key := by
    intro r
    unfold deleteFlows FlowRule.hasOutPort
    rw [Finset.mem_filter, hport, beq_self_eq_true, Bool.true_or, Bool.and_true, sameRule_iff]
  constructor
  · intro r hr r' hr'
    exact h r ((hmem r).mp hr).1 r' ((hmem r').mp hr').1
  · intro k actions
    split
    · next hk =>
      refine iff_of_false ?_ nofun
      rintro ⟨r, hr, hkey, -⟩
      exact ((hmem r).mp hr).2 (hkey.trans hk)
    · next hk =>
      refine exists_congr fun r => ?_
      rw [hmem, and_assoc, and_congr_right_iff]
      exact fun _ => and_iff_right_of_imp fun hr heq => hk (hr.1.symm.trans heq)

end Commands

/-! ### Messages -/

variable {checkActions : List OFAction → OvsMatch → Bool}

/-- A message of the kind that the module writes, which the switch accepts. -/
structure Plain (checkActions : List OFAction → OvsMatch → Bool) (m : OFFlowMod) : Prop where
  flags : m.flags = 0
  accepted : ∀ ovs, checkActions m.actions ovs = true
  cookie : m.cookie ≠ keepCookie
  outPort : m.outPort = ofppNone
  command : m.command = ofpfcAdd ∨ m.command = ofpfcModifyStrict ∨ m.command = ofpfcDeleteStrict

/-- What a message makes of the entry with its match and priority. -/
def OFFlowMod.result (m : OFFlowMod) : Option (List OFAction) :=
  if m.command = ofpfcDeleteStrict then none else some m.actions

theorem Plain.decode {m : OFFlowMod} (hm : Plain checkActions m) :
    ∃ fm, decodeFlowMod checkActions m = some fm ∧ fm.command = m.command ∧
      fm.rule.key = ruleKey (m.ofMatch, m.priority) ∧ fm.rule.actions = m.actions ∧
      fm.rule.cookie = m.cookie ∧ fm.outPort = m.outPort ∧ fm.checkOverlap = false := by
  unfold decodeFlowMod
  dsimp only
  rw [hm.flags, hm.accepted, if_neg (by decide), if_neg (by decide), if_pos rfl]
  exact ⟨_, rfl, rfl, rfl, rfl, rfl, rfl, rfl⟩

theorem Plain.becomes {m : OFFlowMod} (hm : Plain checkActions m) {t : Finset FlowRule}
    (h : UniqueRules t) :
    Becomes t (applyFlowMod checkActions t m) (ruleKey (m.ofMatch, m.priority)) m.result := by
  obtain ⟨fm, hdecode, hcommand, hkey, hactions, hcookie, hport, hoverlap⟩ := hm.decode
  unfold applyFlowMod handleFlowMod OFFlowMod.result
  rw [hdecode]
  dsimp only
  rw [hcommand, ← hkey, ← hactions]
  rcases hm.command with hadd | hmodify | hdelete
  · rw [hadd, if_pos rfl, if_neg (by decide)]
    exact becomes_addFlow h hoverlap
  · rw [hmodify, if_neg (by decide), if_neg (by decide), if_pos rfl, if_neg (by decide)]
    exact becomes_modifyFlows h hoverlap (hcookie ▸ hm.cookie)
  · rw [hdelete, if_neg (by decide), if_neg (by decide), if_neg (by decide), if_neg (by decide),
      if_pos rfl, if_pos rfl]
    exact becomes_deleteFlows h (hport.trans hm.outPort)

theorem Plain.applyStrict_eq {m : OFFlowMod} (hm : Plain checkActions m) (sw : SwitchId)
    (t : EntryKey → Option (List OFAction)) :
    applyStrict t (sw, m) = Function.update t (entryKey sw m) m.result := by
  unfold applyStrict OFFlowMod.result
  dsimp only
  rcases hm.command with hadd | hmodify | hdelete
  · rw [if_pos (.inl hadd), hadd, if_neg (by decide)]
  · rw [if_pos (.inr hmodify), hmodify, if_neg (by decide)]
  · rw [hdelete, if_neg (by decide), if_pos ⟨rfl, hm.outPort⟩, if_pos rfl]

/-! ### Entries and rules -/

/-- The tables of the switches have a rule for every entry, and no others.  Entries have their
matches and priorities in a set `K`. -/
structure Holds (K : Set (OFMatch × BitVec 16)) (t : EntryKey → Option (List OFAction))
    (tables : SwitchId → Finset FlowRule) : Prop where
  unique : ∀ sw, UniqueRules (tables sw)
  entry : ∀ sw, ∀ k ∈ K, ∀ actions,
    t (sw, k) = some actions ↔ HasRule (tables sw) (ruleKey k) actions
  only : ∀ sw k actions, HasRule (tables sw) k actions → ∃ k' ∈ K, ruleKey k' = k

/-- The tables of all switches behind the messages. -/
def tablesAfter (checkActions : List OFAction → OvsMatch → Bool)
    (written : List (SwitchId × OFFlowMod)) : SwitchId → Finset FlowRule :=
  written.foldl (fun tables msg =>
    Function.update tables msg.1 (applyFlowMod checkActions (tables msg.1) msg.2)) fun _ => ∅

section Messages

variable {K : Set (OFMatch × BitVec 16)} {t : EntryKey → Option (List OFAction)}
  {tables : SwitchId → Finset FlowRule}

/-- One entry and the rule of its key are changed together.  No other entry is stored under
that key. -/
theorem Holds.update (h : Holds K t tables) (hinj : Set.InjOn ruleKey K) {sw : SwitchId}
    {key : OFMatch × BitVec 16} (hkey : key ∈ K) {t' : Finset FlowRule}
    {v : Option (List OFAction)} (hbecomes : Becomes (tables sw) t' (ruleKey key) v) :
    Holds K (Function.update t (sw, key) v) (Function.update tables sw t') := by
  refine ⟨fun sw' => ?_, fun sw' k hk actions => ?_, fun sw' k actions hrule => ?_⟩
  · by_cases hsw : sw' = sw
    · rw [hsw, update_self]
      exact hbecomes.unique
    · rw [update_of_ne hsw]
      exact h.unique sw'
  · by_cases hsw : sw' = sw
    · subst hsw
      rw [update_self, hbecomes.rules]
      by_cases hsame : k = key
      · rw [hsame, update_self, if_pos rfl]
      · rw [update_of_ne fun heq => hsame (Prod.mk.inj heq).2,
          if_neg fun heq => hsame (hinj hk hkey heq)]
        exact h.entry sw' k hk actions
    · rw [update_of_ne fun heq => hsw (Prod.mk.inj heq).1, update_of_ne hsw]
      exact h.entry sw' k hk actions
  · by_cases hsw : sw' = sw
    · subst hsw
      rw [update_self, hbecomes.rules] at hrule
      split at hrule
      · next hk => exact ⟨key, hkey, hk.symm⟩
      · exact h.only sw' k actions hrule
    · rw [update_of_ne hsw] at hrule
      exact h.only sw' k actions hrule

theorem Holds.step (h : Holds K t tables) (hinj : Set.InjOn ruleKey K) (sw : SwitchId)
    {m : OFFlowMod} (hm : Plain checkActions m) (hkey : (m.ofMatch, m.priority) ∈ K) :
    Holds K (applyStrict t (sw, m))
      (Function.update tables sw (applyFlowMod checkActions (tables sw) m)) := by
  rw [hm.applyStrict_eq]
  exact h.update hinj hkey (hm.becomes (h.unique sw))

theorem Holds.foldl (h : Holds K t tables) (hinj : Set.InjOn ruleKey K)
    {written : List (SwitchId × OFFlowMod)}
    (hwritten : ∀ msg ∈ written, Plain checkActions msg.2 ∧ (msg.2.ofMatch, msg.2.priority) ∈ K) :
    Holds K (written.foldl applyStrict t) (written.foldl (fun tables msg =>
      Function.update tables msg.1 (applyFlowMod checkActions (tables msg.1) msg.2)) tables) := by
  induction written generalizing t tables with
  | nil => exact h
  | cons msg written ih =>
    obtain ⟨hfirst, hrest⟩ := forall_mem_cons.mp hwritten
    exact ih (h.step hinj msg.1 hfirst.1 hfirst.2) hrest

/-- **The rules of the switches are the entries** behind messages whose matches keep apart. -/
theorem holds_after (hinj : Set.InjOn ruleKey K) {written : List (SwitchId × OFFlowMod)}
    (hwritten : ∀ msg ∈ written, Plain checkActions msg.2 ∧ (msg.2.ofMatch, msg.2.priority) ∈ K) :
    Holds K (entriesAfter written) (tablesAfter checkActions written) := by
  have hnone : ∀ k actions, ¬ HasRule ∅ k actions := by
    rintro k actions ⟨r, hr, -⟩
    exact Finset.notMem_empty r hr
  have hempty : Holds K (fun _ => none) fun _ => ∅ := by
    refine ⟨fun _ r hr => absurd hr (Finset.notMem_empty r), fun _ k _ actions => ?_, ?_⟩
    · exact iff_of_false nofun (hnone _ actions)
    · exact fun _ k actions hrule => absurd hrule (hnone k actions)
  exact hempty.foldl hinj hwritten

end Messages

/-! ### Rows -/

variable {T : Type} {parser : TextParser T}

/-- The flow mods of the rows of a history. -/
def RowFlow (parser : TextParser T) (changes : List (RowChange T)) (fm : OFFlowMod) : Prop :=
  ∃ name row d, .put name row ∈ changes ∧ flowOf parser row = some (d, fm)

theorem RowFlow.cons {changes : List (RowChange T)} {fm : OFFlowMod}
    (h : RowFlow parser changes fm) (change : RowChange T) :
    RowFlow parser (change :: changes) fm := by
  obtain ⟨name, row, d, hmem, hflow⟩ := h
  exact ⟨name, row, d, mem_cons_of_mem _ hmem, hflow⟩

/-- A message is the flow mod of an old or a new row, with a command. -/
theorem mem_transition {old new : Option (SwitchId × OFFlowMod)} {msg : SwitchId × OFFlowMod}
    (h : msg ∈ StaticFlowEntryPusher.transition old new) :
    ∃ f c, (old = some f ∨ new = some f) ∧
      (c = f.2.command ∨ c = ofpfcModifyStrict ∨ c = ofpfcDeleteStrict) ∧
      msg = (f.1, { f.2 with command := c }) := by
  unfold StaticFlowEntryPusher.transition at h
  split at h
  · cases h
  · next new =>
    exact ⟨new, _, .inr rfl, .inl rfl, mem_singleton.mp h⟩
  · next old new =>
    split at h
    · exact ⟨new, _, .inr rfl, .inr (.inl rfl), mem_singleton.mp h⟩
    · rcases mem_pair.mp h with rfl | rfl
      · exact ⟨old, _, .inl rfl, .inr (.inr rfl), rfl⟩
      · exact ⟨msg, _, .inr rfl, .inl rfl, rfl⟩

theorem mem_messages {storage : FlowStorage T} {change : RowChange T}
    {msg : SwitchId × OFFlowMod} (h : msg ∈ change.messages parser storage) :
    ∃ name d fm c, (activeFlow parser storage name = some (d, fm) ∨
        ∃ row, change = .put name row ∧ flowOf parser row = some (d, fm)) ∧
      (c = ofpfcAdd ∨ c = ofpfcModifyStrict ∨ c = ofpfcDeleteStrict) ∧
      msg.2 = { fm with command := c } := by
  cases change with
  | put name row =>
    obtain ⟨f, c, hf, hc, rfl⟩ := mem_transition h
    rcases hf with hf | hf
    · obtain ⟨d, hflow, -, hadd, -⟩ := onSwitch_flowOf hf
      rw [hadd] at hc
      exact ⟨name, d, f.2, c, .inl hflow, hc, rfl⟩
    · have hf : ((some row).bind (flowOf parser)).bind (onSwitch parser) = some f := hf
      obtain ⟨d, hflow, -, hadd, -⟩ := onSwitch_flowOf hf
      rw [hadd] at hc
      exact ⟨name, d, f.2, c, .inr ⟨row, rfl, hflow⟩, hc, rfl⟩
  | delete name =>
    have hremoval : msg ∈ StaticFlowEntryPusher.removal
        ((activeFlow parser storage name).bind (onSwitch parser)) := h
    cases hf : (activeFlow parser storage name).bind (onSwitch parser) with
    | none =>
      rw [hf] at hremoval
      cases hremoval
    | some f =>
      rw [hf] at hremoval
      obtain ⟨d, hflow, -⟩ := onSwitch_flowOf hf
      refine ⟨name, d, f.2, _, .inl hflow, .inr (.inr rfl), ?_⟩
      rw [mem_singleton.mp hremoval]

variable [DecidableEq T]

/-- What is active comes from the storage before, or from a row of the history. -/
theorem activeFlow_apply {storage : FlowStorage T} {change : RowChange T} {name d : T}
    {fm : OFFlowMod} (h : activeFlow parser (change.apply storage) name = some (d, fm)) :
    activeFlow parser storage name = some (d, fm) ∨ RowFlow parser [change] fm := by
  have hupdate : ∀ other v, activeFlow parser (Function.update storage other v) name =
      some (d, fm) → activeFlow parser storage name = some (d, fm) ∨
        v.bind (flowOf parser) = some (d, fm) := by
    intro other v hflow
    rw [activeFlow_update] at hflow
    by_cases hother : name = other
    · rw [hother, update_self] at hflow
      exact .inr hflow
    · rw [update_of_ne hother] at hflow
      exact .inl hflow
  cases change with
  | put other row =>
    refine (hupdate other (some row) h).imp_right fun hrow => ?_
    exact ⟨other, row, d, mem_singleton.mpr rfl, hrow⟩
  | delete other => exact (hupdate other none h).imp_right nofun

/-- `P` holds of the flow mods that are active at the beginning and of those of all rows. -/
theorem mem_messagesOf {P : OFFlowMod → Prop} {storage : FlowStorage T}
    {changes : List (RowChange T)}
    (hstorage : ∀ name d fm, activeFlow parser storage name = some (d, fm) → P fm)
    (hrows : ∀ fm, RowFlow parser changes fm → P fm) :
    (∀ msg ∈ messagesOf parser storage changes, ∃ fm c, P fm ∧
      (c = ofpfcAdd ∨ c = ofpfcModifyStrict ∨ c = ofpfcDeleteStrict) ∧
      msg.2 = { fm with command := c }) ∧
    ∀ name d fm, activeFlow parser (changes.foldl RowChange.apply storage) name = some (d, fm) →
      P fm := by
  induction changes generalizing storage with
  | nil => exact ⟨fun msg h => (nomatch h), hstorage⟩
  | cons change changes ih =>
    have hnext : ∀ name d fm, activeFlow parser (change.apply storage) name = some (d, fm) →
        P fm := by
      intro name d fm hflow
      rcases activeFlow_apply hflow with hbefore | ⟨other, row, d, hmem, hrow⟩
      · exact hstorage name d fm hbefore
      · exact hrows fm ⟨other, row, d, mem_singleton.mp hmem ▸ mem_cons_self, hrow⟩
    obtain ⟨hmessages, hactive⟩ := ih hnext fun fm hfm => hrows fm (hfm.cons change)
    refine ⟨fun msg hmsg => ?_, hactive⟩
    rcases mem_append.mp hmsg with hmsg | hmsg
    · obtain ⟨name, d, fm, c, hfm, hc, hmsg⟩ := mem_messages hmsg
      refine ⟨fm, c, ?_, hc, hmsg⟩
      rcases hfm with hold | ⟨row, rfl, hrow⟩
      · exact hstorage name d fm hold
      · exact hrows fm ⟨name, row, d, mem_cons_self, hrow⟩
    · exact hmessages msg hmsg

/-- **The rules of the switches are the active rows.**  After any history of clean changes, with
actions that the switches accept and with matches and priorities that they keep apart, each
switch has one rule for every active row that names it, with the actions of the row, and no
others. -/
theorem rules_follow_rows {changes : List (RowChange T)}
    (hclean : CleanRun parser (fun _ => none) changes)
    (haccepted : ∀ fm, RowFlow parser changes fm →
      fm.cookie ≠ keepCookie ∧ ∀ ovs, checkActions fm.actions ovs = true)
    (hapart : ∀ fm fm', RowFlow parser changes fm → RowFlow parser changes fm' →
      ruleKey (fm.ofMatch, fm.priority) = ruleKey (fm'.ofMatch, fm'.priority) →
        fm.ofMatch = fm'.ofMatch ∧ fm.priority = fm'.priority) :
    ∃ s, StaticFlowSystem.init.run parser changes = .ok s ∧
      s.storage = changes.foldl RowChange.apply (fun _ => none) ∧
      ∀ sw, UniqueRules (tablesAfter checkActions s.pusher.written sw) ∧
        ∀ k actions, HasRule (tablesAfter checkActions s.pusher.written sw) k actions ↔
          ∃ name fm, (activeFlow parser s.storage name).bind (onSwitch parser) = some (sw, fm) ∧
            ruleKey (fm.ofMatch, fm.priority) = k ∧ fm.actions = actions := by
  obtain ⟨s, hrun, hfollows, hstorage, hwritten⟩ := StaticFlowSystem.follows_init.run hclean
  have hnone : ∀ name d fm, activeFlow parser (fun _ => none) name = some (d, fm) →
      RowFlow parser changes fm := fun name d fm h => nomatch h
  obtain ⟨hmessages, hactive⟩ := mem_messagesOf hnone fun fm h => h
  let K : Set (OFMatch × BitVec 16) :=
    {k | ∃ fm, RowFlow parser changes fm ∧ (fm.ofMatch, fm.priority) = k}
  have hinj : Set.InjOn ruleKey K := by
    rintro _ ⟨fm, hfm, rfl⟩ _ ⟨fm', hfm', rfl⟩ heq
    exact Prod.ext_iff.mpr (hapart fm fm' hfm hfm' heq)
  have hholds : Holds K (entriesAfter s.pusher.written)
      (tablesAfter checkActions s.pusher.written) := by
    refine holds_after hinj fun msg hmsg => ?_
    rw [hwritten] at hmsg
    obtain ⟨fm, c, hfm, hc, hmsg⟩ := hmessages msg hmsg
    obtain ⟨name, row, d, -, hflow⟩ := id hfm
    obtain ⟨_, hdefaults⟩ := flowOf_spec hflow
    rw [hmsg]
    exact ⟨⟨hdefaults.flags, (haccepted fm hfm).2, (haccepted fm hfm).1, hdefaults.outPort, hc⟩,
      fm, hfm, rfl⟩
  refine ⟨s, hrun, hstorage, fun sw => ⟨hholds.unique sw, fun k actions => ⟨fun hrule => ?_, ?_⟩⟩⟩
  · -- the rule has the key of an entry, and the entry is that of a row
    obtain ⟨k', hk', rfl⟩ := hholds.only sw k actions hrule
    have hentry := (hholds.entry sw k' hk' actions).mpr hrule
    obtain ⟨name, hname⟩ := (hfollows.entries _ _).mp hentry
    obtain ⟨⟨sw', fm⟩, hflow, hentryOf⟩ := Option.map_eq_some_iff.mp hname
    cases hentryOf
    exact ⟨name, fm, hflow, rfl, rfl⟩
  · rintro ⟨name, fm, hflow, rfl, rfl⟩
    obtain ⟨d, hactiveFlow, -⟩ := onSwitch_flowOf hflow
    have hfm : RowFlow parser changes fm := hactive name d fm (hstorage ▸ hactiveFlow)
    refine (hholds.entry sw _ ⟨fm, hfm, rfl⟩ _).mp ((hfollows.entries _ _).mpr ⟨name, ?_⟩)
    unfold desired
    rw [hflow]
    rfl

/-! ### One row on two switches -/

def movingRow : List (RowChange ℕ) :=
  [.put 5 (portRow 1 1 1 2), .put 5 (portRow 1 1 1 3), .put 5 (portRow 2 1 4 3)]

theorem cleanRun_movingRow : CleanRun numberParser (fun _ => none) movingRow := by
  obtain ⟨hfirst, hdistinct, hsecond, hdistinct', hthird, hdistinct'', -⟩ := cleanRun_portChanges
  exact ⟨hfirst, hdistinct, hsecond, hdistinct', hthird, hdistinct'', trivial⟩

theorem rowFlow_movingRow {fm : OFFlowMod} (h : RowFlow numberParser movingRow fm) :
    fm = portFlow 1 2 ∨ fm = portFlow 1 3 ∨ fm = portFlow 4 3 := by
  obtain ⟨name, row, d, hmem, hflow⟩ := h
  have hrow : name = 5 ∧ row = portRow 1 1 1 2 ∨ name = 5 ∧ row = portRow 1 1 1 3 ∨
      name = 5 ∧ row = portRow 2 1 4 3 := by simpa [movingRow] using hmem
  rcases hrow with ⟨-, rfl⟩ | ⟨-, rfl⟩ | ⟨-, rfl⟩
  · exact .inl (Prod.mk.inj (Option.some.inj hflow)).2.symm
  · exact .inr (.inl (Prod.mk.inj (Option.some.inj hflow)).2.symm)
  · exact .inr (.inr (Prod.mk.inj (Option.some.inj hflow)).2.symm)

/-- A switch that takes all actions. -/
def takesAll (_ : List OFAction) (_ : OvsMatch) : Bool := true

theorem accepted_movingRow (fm : OFFlowMod) (h : RowFlow numberParser movingRow fm) :
    fm.cookie ≠ keepCookie ∧ ∀ ovs, takesAll fm.actions ovs = true := by
  rcases rowFlow_movingRow h with rfl | rfl | rfl
  · exact ⟨by decide, fun _ => rfl⟩
  · exact ⟨by decide, fun _ => rfl⟩
  · exact ⟨by decide, fun _ => rfl⟩

/-- The matches are kept apart by their input ports. -/
theorem apart_movingRow (fm fm' : OFFlowMod) (h : RowFlow numberParser movingRow fm)
    (h' : RowFlow numberParser movingRow fm')
    (heq : ruleKey (fm.ofMatch, fm.priority) = ruleKey (fm'.ofMatch, fm'.priority)) :
    fm.ofMatch = fm'.ofMatch ∧ fm.priority = fm'.priority := by
  have hapart : ruleKey ((portFlow 1 2).ofMatch, 100) ≠ ruleKey ((portFlow 4 3).ofMatch, 100) := by
    decide +kernel
  rcases rowFlow_movingRow h with rfl | rfl | rfl <;>
    rcases rowFlow_movingRow h' with rfl | rfl | rfl
  · exact ⟨rfl, rfl⟩
  · exact ⟨rfl, rfl⟩
  · exact absurd heq hapart
  · exact ⟨rfl, rfl⟩
  · exact ⟨rfl, rfl⟩
  · exact absurd heq hapart
  · exact absurd heq.symm hapart
  · exact absurd heq.symm hapart
  · exact ⟨rfl, rfl⟩

/-- The row has a rule on the switch it has moved to, and none on the other one. -/
theorem rules_follow_rows_moving :
    CleanRun numberParser (fun _ => none) movingRow ∧
    ∃ s, StaticFlowSystem.init.run numberParser movingRow = .ok s ∧
      HasRule (tablesAfter takesAll s.pusher.written 2)
        (ruleKey ((portFlow 4 3).ofMatch, 100)) [.output 3 0] ∧
      ∀ k actions, ¬ HasRule (tablesAfter takesAll s.pusher.written 1) k actions := by
  obtain ⟨s, hrun, hstorage, hrules⟩ :=
    rules_follow_rows cleanRun_movingRow accepted_movingRow apart_movingRow
  have hactive : ∀ name, (activeFlow numberParser s.storage name).bind (onSwitch numberParser) =
      if name = 5 then some (2, portFlow 4 3) else none := by
    intro name
    rw [hstorage]
    split
    · next hname =>
      rw [hname]
      rfl
    · next hname => simp [movingRow, RowChange.apply, activeFlow, hname]
  refine ⟨cleanRun_movingRow, s, hrun, ?_, fun k actions hrule => ?_⟩
  · exact ((hrules 2).2 _ _).mpr ⟨5, portFlow 4 3, (hactive 5).trans (if_pos rfl), rfl, rfl⟩
  · obtain ⟨name, fm, hflow, -⟩ := ((hrules 1).2 k actions).mp hrule
    rw [hactive] at hflow
    split at hflow
    · cases hflow
    · cases hflow

end NctuSdn
