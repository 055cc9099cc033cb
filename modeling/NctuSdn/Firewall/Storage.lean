/-
Firewall rules in storage (`Firewall.addRule`, `deleteRule` and
`readRulesFromStorage`).

In memory a new rule goes in front of the rules of its own priority.  After a
restart the rows come back in some order of the storage and are sorted by
priority only, with `compareTo`, the difference of two `int`s.  So the order
of rules of one priority is lost, and so is the whole order where a difference
overflows.
-/
import NctuSdn.Firewall.FirewallRule
import Mathlib.Algebra.Ring.Nat
import Mathlib.Data.List.Sort

namespace NctuSdn

open List

/-! ### Rows -/

/-- The columns of the table. -/
inductive Column
  | ruleid
  | dpid
  | inPort
  | dlSrc
  | dlDst
  | dlType
  | nwSrcPrefix
  | nwSrcMaskbits
  | nwDstPrefix
  | nwDstMaskbits
  | nwProto
  | tpSrc
  | tpDst
  | wildcardDpid
  | wildcardInPort
  | wildcardDlSrc
  | wildcardDlDst
  | wildcardDlType
  | wildcardNwSrc
  | wildcardNwDst
  | wildcardNwProto
  | wildcardTpSrc
  | wildcardTpDst
  | priority
  | action
deriving DecidableEq, Repr

/-- What is written in a column: the decimal of a number or the word of a
truth value. -/
inductive Text
  | number (n : ℤ)
  | boolean (b : Bool)
deriving DecidableEq, Repr

/-- `Long.toString`, `Integer.toString` and `Short.toString`. -/
def Text.ofBits {n : ℕ} (x : BitVec n) : Text := .number x.toInt

def FirewallAction.ordinal : FirewallAction → BitVec 32
  | .deny => 0
  | .allow => 1

abbrev Row := List (Column × Text)

/-- The row that `addRule` inserts. -/
def FirewallRule.toRow (r : FirewallRule) : Row :=
  [(.ruleid, .ofBits r.ruleid), (.dpid, .ofBits r.dpid), (.inPort, .ofBits r.inPort),
    (.dlSrc, .ofBits r.dlSrc), (.dlDst, .ofBits r.dlDst), (.dlType, .ofBits r.dlType),
    (.nwSrcPrefix, .ofBits r.nwSrcPrefix), (.nwSrcMaskbits, .ofBits r.nwSrcMaskbits),
    (.nwDstPrefix, .ofBits r.nwDstPrefix), (.nwDstMaskbits, .ofBits r.nwDstMaskbits),
    (.nwProto, .ofBits r.nwProto), (.tpSrc, .ofBits r.tpSrc), (.tpDst, .ofBits r.tpDst),
    (.wildcardDpid, .boolean r.wildcardDpid), (.wildcardInPort, .boolean r.wildcardInPort),
    (.wildcardDlSrc, .boolean r.wildcardDlSrc), (.wildcardDlDst, .boolean r.wildcardDlDst),
    (.wildcardDlType, .boolean r.wildcardDlType), (.wildcardNwSrc, .boolean r.wildcardNwSrc),
    (.wildcardNwDst, .boolean r.wildcardNwDst), (.wildcardNwProto, .boolean r.wildcardNwProto),
    (.wildcardTpSrc, .boolean r.wildcardTpSrc), (.wildcardTpDst, .boolean r.wildcardTpDst),
    (.priority, .ofBits r.priority), (.action, .ofBits r.action.ordinal)]

/-! ### Parsing -/

/-- `Long.parseLong`, `Integer.parseInt` and `Short.parseShort`. -/
def parseBits (n : ℕ) : Text → Except JavaException (BitVec n)
  | .number x =>
    if (BitVec.ofInt n x).toInt = x then .ok (BitVec.ofInt n x) else .error .illegalArgument
  | .boolean _ => .error .illegalArgument

def parseBoolean : Text → Bool
  | .boolean b => b
  | .number _ => false

/-- The action of an ordinal; any other is null. -/
def actionOfOrdinal (n : BitVec 32) : Option FirewallAction :=
  if n = FirewallAction.deny.ordinal then some .deny
  else if n = FirewallAction.allow.ordinal then some .allow
  else none

/-- A rule that is being read, with an action that may be null. -/
structure ParsedRule where
  rule : FirewallRule
  action : Option FirewallAction := some .allow

/-- One column of a row.  The wildcards of the transport ports are stored but
not read. -/
def ParsedRule.readColumn (p : ParsedRule) :
    Column × Text → Except JavaException ParsedRule
  | (.ruleid, _) => .ok p
  | (.dpid, _) => .ok p
  | (.inPort, t) => do return { p with rule.inPort := ← parseBits 16 t }
  | (.dlSrc, t) => do return { p with rule.dlSrc := ← parseBits 64 t }
  | (.dlDst, t) => do return { p with rule.dlDst := ← parseBits 64 t }
  | (.dlType, t) => do return { p with rule.dlType := ← parseBits 16 t }
  | (.nwSrcPrefix, t) => do return { p with rule.nwSrcPrefix := ← parseBits 32 t }
  | (.nwSrcMaskbits, t) => do return { p with rule.nwSrcMaskbits := ← parseBits 32 t }
  | (.nwDstPrefix, t) => do return { p with rule.nwDstPrefix := ← parseBits 32 t }
  | (.nwDstMaskbits, t) => do return { p with rule.nwDstMaskbits := ← parseBits 32 t }
  | (.nwProto, t) => do return { p with rule.nwProto := ← parseBits 16 t }
  | (.tpSrc, t) => do return { p with rule.tpSrc := ← parseBits 16 t }
  | (.tpDst, t) => do return { p with rule.tpDst := ← parseBits 16 t }
  | (.wildcardDpid, t) => .ok { p with rule.wildcardDpid := parseBoolean t }
  | (.wildcardInPort, t) => .ok { p with rule.wildcardInPort := parseBoolean t }
  | (.wildcardDlSrc, t) => .ok { p with rule.wildcardDlSrc := parseBoolean t }
  | (.wildcardDlDst, t) => .ok { p with rule.wildcardDlDst := parseBoolean t }
  | (.wildcardDlType, t) => .ok { p with rule.wildcardDlType := parseBoolean t }
  | (.wildcardNwSrc, t) => .ok { p with rule.wildcardNwSrc := parseBoolean t }
  | (.wildcardNwDst, t) => .ok { p with rule.wildcardNwDst := parseBoolean t }
  | (.wildcardNwProto, t) => .ok { p with rule.wildcardNwProto := parseBoolean t }
  | (.wildcardTpSrc, _) => .ok p
  | (.wildcardTpDst, _) => .ok p
  | (.priority, t) => do return { p with rule.priority := ← parseBits 32 t }
  | (.action, t) => do return { p with action := actionOfOrdinal (← parseBits 32 t) }

/-- The rule of a row that has an id and a switch; a rule without an action is
left out. -/
def parseRow (row : Row) (ruleid dpid : Text) : Except JavaException (Option FirewallRule) := do
  let ruleid ← parseBits 32 ruleid
  let dpid ← parseBits 64 dpid
  let p ← row.foldlM ParsedRule.readColumn { rule := { ruleid, dpid } }
  return p.action.map fun a => { p.rule with action := a }

/-- The rules of all rows, up to the first that lacks its id or its switch,
and whether there was none such. -/
def parseRows : List Row → Except JavaException (List FirewallRule × Bool)
  | [] => .ok ([], true)
  | row :: rows =>
    match row.lookup .ruleid, row.lookup .dpid with
    | some ruleid, some dpid => do
        let rule ← parseRow row ruleid dpid
        let (rules, complete) ← parseRows rows
        return (rule.toList ++ rules, complete)
    | _, _ => .ok ([], false)

def FirewallRule.compareTo (r r' : FirewallRule) : BitVec 32 := r.priority - r'.priority

/-- `readRulesFromStorage`, from the rows in the order in which the storage
returns them.  `Collections.sort` is stable; a row that lacks its id ends the
method without a sort. -/
def readRulesFromStorage (rows : List Row) : Except JavaException (List FirewallRule) := do
  let (rules, complete) ← parseRows rows
  return if complete then rules.insertionSort fun r r' => (r.compareTo r').toInt ≤ 0 else rules

/-! ### The firewall and its table -/

/-- The rules in memory and the rows in storage. -/
structure Firewall where
  rules : List FirewallRule := []
  table : List Row := []
deriving DecidableEq, Repr

def Row.key (row : Row) : Option Text := row.lookup .ruleid

/-- The rule has no higher priority than the other. -/
def FirewallRule.PriorityLE (r r' : FirewallRule) : Prop := r.priority.toInt ≤ r'.priority.toInt

instance FirewallRule.PriorityLE.decidable : DecidableRel FirewallRule.PriorityLE :=
  fun r r' => inferInstanceAs (Decidable (r.priority.toInt ≤ r'.priority.toInt))

/-- `addRule` with the id that is generated for the rule: it goes in front of
the first rule of no lower priority. -/
def Firewall.addRule (fw : Firewall) (rule : FirewallRule) (genID : BitVec 32) : Firewall :=
  let rule := { rule with ruleid := genID }
  { rules := fw.rules.orderedInsert FirewallRule.PriorityLE rule
    table := fw.table.filter (Row.key · != Row.key rule.toRow) ++ [rule.toRow] }

def Firewall.deleteRule (fw : Firewall) (ruleid : BitVec 32) : Firewall where
  rules := fw.rules.eraseP fun r => r.ruleid == ruleid
  table := fw.table.filter (Row.key · != some (.ofBits ruleid))

/-- The calls. -/
inductive RuleCall
  | addRule (rule : FirewallRule) (genID : BitVec 32)
  | deleteRule (ruleid : BitVec 32)

def Firewall.step (fw : Firewall) : RuleCall → Firewall
  | .addRule rule genID => fw.addRule rule genID
  | .deleteRule ruleid => fw.deleteRule ruleid

def Firewall.run (fw : Firewall) (calls : List RuleCall) : Firewall :=
  calls.foldl Firewall.step fw

/-- What happens to a packet: the action of the rule that matches. -/
def outcome (rules : List FirewallRule) (switchDpid : SwitchId) (pi : PacketIn) :
    Except JavaException FirewallAction :=
  (matchWithRule rules switchDpid pi).map fun res => actionOf res.rule

/-! ### What comes back from a row -/

theorem parseBits_ofBits {n : ℕ} (x : BitVec n) : parseBits n (.ofBits x) = .ok x := by
  rw [Text.ofBits, parseBits, BitVec.ofInt_toInt, if_pos rfl]

theorem actionOfOrdinal_ordinal (a : FirewallAction) : actionOfOrdinal a.ordinal = some a := by
  cases a <;> decide

/-- The rule after a restart: the wildcards of the ports have their default. -/
def FirewallRule.reread (r : FirewallRule) : FirewallRule :=
  { r with wildcardTpSrc := true, wildcardTpDst := true }

theorem parseRow_toRow (r : FirewallRule) :
    parseRow r.toRow (.ofBits r.ruleid) (.ofBits r.dpid) = .ok (some r.reread) := by
  unfold parseRow FirewallRule.toRow
  simp only [foldlM_cons, foldlM_nil, ParsedRule.readColumn, parseBits_ofBits,
    parseBoolean]
  show Except.ok ((actionOfOrdinal r.action.ordinal).map fun a => { r.reread with action := a }) =
    _
  rw [actionOfOrdinal_ordinal]
  rfl

theorem parseRows_toRow (rules : List FirewallRule) :
    parseRows (rules.map FirewallRule.toRow) = .ok (rules.map FirewallRule.reread, true) := by
  induction rules with
  | nil => rfl
  | cons r rules ih =>
    have hid : r.toRow.lookup .ruleid = some (.ofBits r.ruleid) := rfl
    have hdpid : r.toRow.lookup .dpid = some (.ofBits r.dpid) := rfl
    rw [map_cons, parseRows, hid, hdpid]
    dsimp only
    rw [parseRow_toRow, ih]
    rfl

/-! ### The outcome of a list of rules -/

section Outcome

variable (switchDpid : SwitchId) (pi : PacketIn)

def FirewallRule.verdictOn (r : FirewallRule) : Except JavaException Bool :=
  verdict (r.checks switchDpid pi.inPort pi.packetData.eth)

/-- The outcome of the first rule, with the outcome of the others. -/
def FirewallRule.orElse (r : FirewallRule) (others : Except JavaException FirewallAction) :
    Except JavaException FirewallAction :=
  match r.verdictOn switchDpid pi with
  | .error e => .error e
  | .ok true => .ok r.action
  | .ok false => others

theorem outcome_eq_foldr (rules : List FirewallRule) :
    outcome rules switchDpid pi =
      rules.foldr (fun r others => r.orElse switchDpid pi others) (.ok .deny) := by
  have hrun : ∀ w, (matchRules switchDpid pi rules w).map (fun p => actionOf p.1) =
      rules.foldr (fun r others => r.orElse switchDpid pi others) (.ok .deny) := by
    induction rules with
    | nil => exact fun w => rfl
    | cons r rules ih =>
      intro w
      have hverdict : (r.matchesFlow switchDpid pi.inPort pi.packetData.eth w).map Prod.fst =
          r.verdictOn switchDpid pi := runChecks_verdict _ _ _
      rw [foldr_cons, matchRules, FirewallRule.orElse, ← hverdict]
      rcases r.matchesFlow switchDpid pi.inPort pi.packetData.eth w with e | ⟨b, w'⟩
      · rfl
      · cases b with
        | true => rfl
        | false => exact ih w'
  rw [← hrun {}, outcome, matchWithRule]
  rcases matchRules switchDpid pi rules {} with e | ⟨rule, w⟩ <;> rfl

end Outcome

theorem outcome_cons (r : FirewallRule) (rules : List FirewallRule) (switchDpid : SwitchId)
    (pi : PacketIn) :
    outcome (r :: rules) switchDpid pi =
      r.orElse switchDpid pi (outcome rules switchDpid pi) := by
  rw [outcome_eq_foldr, outcome_eq_foldr, foldr_cons]

theorem outcome_reread (rules : List FirewallRule) (switchDpid : SwitchId) (pi : PacketIn) :
    outcome (rules.map FirewallRule.reread) switchDpid pi = outcome rules switchDpid pi := by
  rw [outcome_eq_foldr, outcome_eq_foldr, foldr_map]
  rfl

/-- Two rules that decide every packet alike, whichever comes first. -/
def Agreeable (r r' : FirewallRule) : Prop :=
  ∀ switchDpid pi, outcome [r, r'] switchDpid pi = outcome [r', r] switchDpid pi

variable {r r' : FirewallRule}

theorem Agreeable.outcome_swap (h : Agreeable r r') (rules : List FirewallRule)
    (switchDpid : SwitchId) (pi : PacketIn) :
    outcome (r :: r' :: rules) switchDpid pi = outcome (r' :: r :: rules) switchDpid pi := by
  have hpair := h switchDpid pi
  simp only [outcome_cons, FirewallRule.orElse] at hpair ⊢
  rcases hr : r.verdictOn switchDpid pi with e | _ | _ <;>
    rcases hr' : r'.verdictOn switchDpid pi with e' | _ | _ <;>
    simp only [hr, hr'] at hpair ⊢ <;> exact hpair

theorem outcome_move {front : List FirewallRule} (h : ∀ x ∈ front, Agreeable x r)
    (rules : List FirewallRule) (switchDpid : SwitchId) (pi : PacketIn) :
    outcome (front ++ r :: rules) switchDpid pi =
      outcome (r :: (front ++ rules)) switchDpid pi := by
  induction front with
  | nil => rfl
  | cons x front ih =>
    calc outcome (x :: (front ++ r :: rules)) switchDpid pi
        = x.orElse switchDpid pi (outcome (front ++ r :: rules) switchDpid pi) :=
          outcome_cons _ _ _ _
      _ = x.orElse switchDpid pi (outcome (r :: (front ++ rules)) switchDpid pi) := by
          rw [ih fun y hy => h y (.tail _ hy)]
      _ = outcome (x :: r :: (front ++ rules)) switchDpid pi := (outcome_cons _ _ _ _).symm
      _ = outcome (r :: x :: (front ++ rules)) switchDpid pi :=
          (h x (.head _)).outcome_swap _ _ _

variable {rules : List FirewallRule}

theorem outcome_of_perm {rules' : List FirewallRule} (hperm : rules.Perm rules')
    (hsorted : rules.Pairwise FirewallRule.PriorityLE)
    (hsorted' : rules'.Pairwise FirewallRule.PriorityLE)
    (hagree : ∀ r ∈ rules, ∀ r' ∈ rules, r.priority = r'.priority → Agreeable r r')
    (switchDpid : SwitchId) (pi : PacketIn) :
    outcome rules switchDpid pi = outcome rules' switchDpid pi := by
  induction rules generalizing rules' with
  | nil => rw [hperm.nil_eq]
  | cons r rules ih =>
    obtain ⟨front, back, rfl⟩ := append_of_mem (hperm.subset (mem_cons_self))
    have hrest : rules.Perm (front ++ back) :=
      (hperm.trans perm_middle).cons_inv
    -- what stands in front of the rule has its priority
    have hfront : ∀ x ∈ front, Agreeable x r := by
      intro x hx
      have hmem : x ∈ r :: rules := hperm.symm.subset (mem_append_left _ hx)
      have hle : x.priority.toInt ≤ r.priority.toInt :=
        (pairwise_append.mp hsorted').2.2 x hx r (.head _)
      have hge : r.priority.toInt ≤ x.priority.toInt := by
        rcases mem_cons.mp hmem with rfl | hx'
        · exact Int.le_refl _
        · exact (pairwise_cons.mp hsorted).1 x hx'
      exact hagree x hmem r (.head _) (BitVec.eq_of_toInt_eq (Int.le_antisymm hle hge))
    have hback : (front ++ back).Pairwise FirewallRule.PriorityLE :=
      hsorted'.sublist ((sublist_cons_self r back).append_left front)
    rw [outcome_move hfront, outcome_cons, outcome_cons,
      ih hrest hsorted.of_cons hback fun x hx y hy =>
        hagree x (.tail _ hx) y (.tail _ hy)]

/-! ### Histories -/

/-- The calls after which a restart is harmless: the generated id is new, the
priority is not too far from those of the other rules, and the rule does not
contradict another one of its priority. -/
def Firewall.Admissible (fw : Firewall) : RuleCall → Prop
  | .addRule rule genID => ∀ r ∈ fw.rules, r.ruleid ≠ genID ∧
      (r.priority.toInt - rule.priority.toInt).natAbs < 2 ^ 31 ∧
      (r.priority = rule.priority → Agreeable r rule)
  | .deleteRule _ => True

def Firewall.AdmissibleRun : Firewall → List RuleCall → Prop
  | _, [] => True
  | fw, call :: calls => fw.Admissible call ∧ (fw.step call).AdmissibleRun calls

/-- The rules in memory are in order, and those in storage are the same. -/
structure Firewall.Faithful (fw : Firewall) : Prop where
  sorted : fw.rules.Pairwise FirewallRule.PriorityLE
  stored : fw.table.Perm (fw.rules.map FirewallRule.toRow)
  ids : (fw.rules.map FirewallRule.ruleid).Nodup
  near : ∀ r ∈ fw.rules, ∀ r' ∈ fw.rules,
    (r.priority.toInt - r'.priority.toInt).natAbs < 2 ^ 31
  agreeable : ∀ r ∈ fw.rules, ∀ r' ∈ fw.rules, r.priority = r'.priority → Agreeable r r'

instance FirewallRule.PriorityLE.total : Std.Total FirewallRule.PriorityLE :=
  ⟨fun r r' => Int.le_total r.priority.toInt r'.priority.toInt⟩

instance FirewallRule.PriorityLE.trans : IsTrans FirewallRule FirewallRule.PriorityLE :=
  ⟨fun _ _ _ h h' => Int.le_trans h h'⟩

theorem Agreeable.symm (h : Agreeable r r') : Agreeable r' r :=
  fun switchDpid pi => (h switchDpid pi).symm

theorem Agreeable.refl (r : FirewallRule) : Agreeable r r := fun _ _ => rfl

theorem Agreeable.setRuleid (h : Agreeable r r') (ruleid : BitVec 32) :
    Agreeable r { r' with ruleid := ruleid } := by
  intro switchDpid pi
  have hpair := h switchDpid pi
  rw [outcome_eq_foldr, outcome_eq_foldr] at hpair ⊢
  exact hpair

theorem Text.ofBits_inj {n : ℕ} {x y : BitVec n} (h : Text.ofBits x = Text.ofBits y) : x = y :=
  BitVec.eq_of_toInt_eq (Text.number.inj h)

theorem key_toRow (r : FirewallRule) : Row.key r.toRow = some (.ofBits r.ruleid) := rfl

theorem key_toRow_ne_iff (r : FirewallRule) (ruleid : BitVec 32) :
    (Row.key r.toRow != some (.ofBits ruleid)) = !(r.ruleid == ruleid) := by
  rw [key_toRow, bne, Bool.eq_iff_iff, Bool.not_eq_true', Bool.not_eq_true', beq_eq_false_iff_ne,
    beq_eq_false_iff_ne]
  refine not_congr ⟨fun h => Text.ofBits_inj (Option.some.inj h), fun h => ?_⟩
  rw [h]

theorem filter_toRow (hids : (rules.map FirewallRule.ruleid).Nodup) (ruleid : BitVec 32) :
    (rules.map FirewallRule.toRow).filter (Row.key · != some (.ofBits ruleid)) =
      (rules.eraseP fun r => r.ruleid == ruleid).map FirewallRule.toRow := by
  rw [filter_map]
  have hkey : ((Row.key · != some (.ofBits ruleid)) ∘ FirewallRule.toRow) =
      fun r => !(r.ruleid == ruleid) := funext fun r => key_toRow_ne_iff r ruleid
  rw [hkey]
  congr 1
  induction rules with
  | nil => rfl
  | cons r rules ih =>
    rw [map_cons, nodup_cons] at hids
    by_cases hr : r.ruleid = ruleid
    · -- the first rule of the id is the only one
      have hrest : ∀ x ∈ rules, (!(x.ruleid == ruleid)) = true := by
        intro x hx
        rw [Bool.not_eq_true', beq_eq_false_iff_ne]
        rintro rfl
        exact hids.1 (hr ▸ mem_map_of_mem hx)
      rw [eraseP_cons_of_pos (by simp [hr]), filter_cons_of_neg (by simp [hr]),
        filter_eq_self.mpr hrest]
    · rw [eraseP_cons_of_neg (by simp [hr]), filter_cons_of_pos (by simp [hr]),
        ih hids.2]

theorem exists_perm_toRow {rows : List Row} (h : rows.Perm (rules.map FirewallRule.toRow)) :
    ∃ rules' : List FirewallRule, rules'.Perm rules ∧
      rows = rules'.map FirewallRule.toRow := by
  induction rules generalizing rows with
  | nil => exact ⟨[], .refl _, h.eq_nil⟩
  | cons r rules ih =>
    obtain ⟨front, back, rfl⟩ := append_of_mem (h.symm.subset (.head _))
    obtain ⟨rest, hrest, hrows⟩ := ih (perm_middle.symm.trans h).cons_inv
    obtain ⟨front', back', rfl, rfl, rfl⟩ := map_eq_append_iff.mp hrows.symm
    refine ⟨front' ++ r :: back', perm_middle.trans (hrest.cons r), ?_⟩
    rw [map_append, map_cons]

namespace Firewall.Faithful

variable {fw : Firewall} (h : fw.Faithful)

include h

theorem addRule {rule : FirewallRule} {genID : BitVec 32}
    (hadmissible : fw.Admissible (.addRule rule genID)) : (fw.addRule rule genID).Faithful := by
  set rule' : FirewallRule := { rule with ruleid := genID } with hrule'
  have hperm : (fw.addRule rule genID).rules.Perm (rule' :: fw.rules) :=
    perm_orderedInsert _ _ _
  have hmem : ∀ r, r ∈ (fw.addRule rule genID).rules → r = rule' ∨ r ∈ fw.rules :=
    fun r hr => mem_cons.mp (hperm.subset hr)
  have hrow : ∀ row ∈ fw.table, (Row.key row != Row.key rule'.toRow) = true := by
    intro row hrow
    obtain ⟨r, hr, rfl⟩ := mem_map.mp (h.stored.subset hrow)
    rw [key_toRow rule', key_toRow_ne_iff, Bool.not_eq_true', beq_eq_false_iff_ne]
    exact (hadmissible r hr).1
  constructor
  · exact h.sorted.orderedInsert _ _
  · refine List.Perm.trans ?_ (hperm.map FirewallRule.toRow).symm
    show (fw.table.filter _ ++ [rule'.toRow]).Perm _
    rw [filter_eq_self.mpr hrow]
    exact (perm_append_singleton _ _).trans (h.stored.cons _)
  · rw [(hperm.map FirewallRule.ruleid).nodup_iff, map_cons, nodup_cons]
    refine ⟨fun hin => ?_, h.ids⟩
    obtain ⟨r, hr, hid⟩ := mem_map.mp hin
    exact (hadmissible r hr).1 hid
  · intro r hr r' hr'
    rcases hmem r hr with rfl | hr <;> rcases hmem r' hr' with rfl | hr'
    · simp
    · have := (hadmissible r' hr').2.1
      show (rule.priority.toInt - r'.priority.toInt).natAbs < 2 ^ 31
      omega
    · exact (hadmissible r hr).2.1
    · exact h.near r hr r' hr'
  · intro r hr r' hr' hpriority
    rcases hmem r hr with rfl | hr <;> rcases hmem r' hr' with rfl | hr'
    · exact Agreeable.refl _
    · exact (((hadmissible r' hr').2.2 hpriority.symm).setRuleid genID).symm
    · exact ((hadmissible r hr).2.2 hpriority).setRuleid genID
    · exact h.agreeable r hr r' hr' hpriority

theorem deleteRule (ruleid : BitVec 32) : (fw.deleteRule ruleid).Faithful := by
  have hsub : (fw.deleteRule ruleid).rules.Sublist fw.rules := eraseP_sublist
  constructor
  · exact h.sorted.sublist hsub
  · show (fw.table.filter _).Perm _
    rw [Firewall.deleteRule, ← filter_toRow h.ids]
    exact h.stored.filter _
  · exact h.ids.sublist (hsub.map _)
  · exact fun r hr r' hr' => h.near r (hsub.subset hr) r' (hsub.subset hr')
  · exact fun r hr r' hr' => h.agreeable r (hsub.subset hr) r' (hsub.subset hr')

theorem compareTo_iff : ∀ r ∈ fw.rules, ∀ r' ∈ fw.rules,
    (r.compareTo r').toInt ≤ 0 ↔ r.PriorityLE r' := by
  intro r hr r' hr'
  have hnear := h.near r hr r' hr'
  have hsub : (r.compareTo r').toInt = r.priority.toInt - r'.priority.toInt := by
    rw [FirewallRule.compareTo, BitVec.toInt_sub]
    apply Int.bmod_eq_of_le <;> omega
  rw [hsub, FirewallRule.PriorityLE]
  omega

/-- The sort meets no difference that overflows, and the rules come back in an
order by priority. -/
theorem readRulesFromStorage {rows : List Row} (hrows : rows.Perm fw.table)
    (switchDpid : SwitchId) (pi : PacketIn) :
    ∃ rules, NctuSdn.readRulesFromStorage rows = .ok rules ∧
      outcome rules switchDpid pi = outcome fw.rules switchDpid pi := by
  obtain ⟨rules, hperm, rfl⟩ := exists_perm_toRow (hrows.trans h.stored)
  have hsort : (rules.map FirewallRule.reread).insertionSort
      (fun r r' => (r.compareTo r').toInt ≤ 0) =
      (rules.insertionSort FirewallRule.PriorityLE).map FirewallRule.reread :=
    (map_insertionSort _ _ _ _ fun r hr r' hr' =>
      (h.compareTo_iff r (hperm.subset hr) r' (hperm.subset hr')).symm).symm
  refine ⟨(rules.insertionSort FirewallRule.PriorityLE).map FirewallRule.reread, ?_, ?_⟩
  · unfold NctuSdn.readRulesFromStorage
    rw [parseRows_toRow, ← hsort]
    rfl
  · rw [outcome_reread]
    exact (outcome_of_perm (hperm.symm.trans (perm_insertionSort _ _).symm) h.sorted
      (pairwise_insertionSort _ _) h.agreeable switchDpid pi).symm

theorem step {call : RuleCall} (hadmissible : fw.Admissible call) : (fw.step call).Faithful := by
  cases call with
  | addRule rule genID => exact h.addRule hadmissible
  | deleteRule ruleid => exact h.deleteRule ruleid

theorem run {calls : List RuleCall} (hadmissible : fw.AdmissibleRun calls) :
    (fw.run calls).Faithful := by
  induction calls generalizing fw with
  | nil => exact h
  | cons call calls ih => exact ih (h.step hadmissible.1) hadmissible.2

end Firewall.Faithful

theorem Firewall.faithful_init : Firewall.Faithful {} where
  sorted := .nil
  stored := .refl _
  ids := .nil
  near _ hr := nomatch hr
  agreeable _ hr := nomatch hr

/-- **A restart.**  Whatever order the rows come back in, the firewall decides
every packet as before, if all calls were admissible. -/
theorem restart_same_outcome {calls : List RuleCall}
    (hadmissible : Firewall.AdmissibleRun {} calls) {rows : List Row}
    (hrows : rows.Perm (Firewall.run {} calls).table) (switchDpid : SwitchId) (pi : PacketIn) :
    ∃ rules, readRulesFromStorage rows = .ok rules ∧
      outcome rules switchDpid pi = outcome (Firewall.run {} calls).rules switchDpid pi :=
  (Firewall.faithful_init.run hadmissible).readRulesFromStorage hrows switchDpid pi

/-! ### Two rules -/

theorem FirewallRule.verdictOn_of_wildcardDlType (h : r.wildcardDlType) (switchDpid : SwitchId)
    (pi : PacketIn) : ∃ b, r.verdictOn switchDpid pi = .ok b := by
  unfold FirewallRule.verdictOn FirewallRule.checks FirewallRule.typeChecks
  rw [if_pos h, append_nil]
  simp only [FirewallRule.linkChecks, cons_append, nil_append, verdict_test, verdict,
    ite_ok_false]
  exact ⟨_, rfl⟩

theorem agreeable_of_action (haction : r.action = r'.action) (h : r.wildcardDlType)
    (h' : r'.wildcardDlType) : Agreeable r r' := by
  intro switchDpid pi
  obtain ⟨b, hb⟩ := FirewallRule.verdictOn_of_wildcardDlType h switchDpid pi
  obtain ⟨b', hb'⟩ := FirewallRule.verdictOn_of_wildcardDlType h' switchDpid pi
  simp only [outcome_cons, FirewallRule.orElse, hb, hb', haction]
  cases b <;> cases b' <;> rfl

def openRule (action : FirewallAction) (priority : BitVec 32) : FirewallRule :=
  { priority := priority, action := action }

/-- Everything is allowed, but nothing comes in by port 3. -/
def portCalls : List RuleCall :=
  [.addRule (openRule .allow 2) 1,
    .addRule { wildcardInPort := false, inPort := 3, priority := 1, action := .deny } 2,
    .addRule (openRule .deny 1) 3, .deleteRule 3]

theorem admissible_portCalls : Firewall.AdmissibleRun {} portCalls := by
  refine ⟨fun r hr => (nomatch hr), fun r hr => ?_, fun r hr => ?_, trivial, trivial⟩
  · rcases hr with _ | ⟨_, hr⟩
    · exact ⟨by decide, by decide, fun h => absurd h (by decide)⟩
    · cases hr
  · rcases hr with _ | ⟨_, _ | ⟨_, hr⟩⟩
    · exact ⟨by decide, by decide, fun _ => agreeable_of_action rfl rfl rfl⟩
    · exact ⟨by decide, by decide, fun h => absurd h (by decide)⟩
    · cases hr

theorem restart_same_outcome_ports :
    Firewall.AdmissibleRun {} portCalls ∧
    (Firewall.run {} portCalls).table.reverse.Perm (Firewall.run {} portCalls).table ∧
    ∃ rules, readRulesFromStorage (Firewall.run {} portCalls).table.reverse = .ok rules ∧
      outcome rules 1 udpPacketIn =
        outcome (Firewall.run {} portCalls).rules 1 udpPacketIn :=
  ⟨admissible_portCalls, reverse_perm _,
    restart_same_outcome admissible_portCalls (reverse_perm _) 1 udpPacketIn⟩

/-- Two rules for every packet, of one priority. -/
def openCalls : List RuleCall :=
  [.addRule (openRule .deny 0) 1, .addRule (openRule .allow 0) 2]

/-- The rule that was added last comes first, until a restart. -/
theorem restart_changes_outcome :
    outcome (Firewall.run {} openCalls).rules 1 udpPacketIn = .ok .allow ∧
    ∃ rules, readRulesFromStorage (Firewall.run {} openCalls).table = .ok rules ∧
      outcome rules 1 udpPacketIn = .ok .deny := by
  refine ⟨by decide +kernel, [{ openRule .deny 0 with ruleid := 1 },
    { openRule .allow 0 with ruleid := 2 }], by decide +kernel, by decide +kernel⟩

/-! ### Rules by priority -/

theorem Firewall.sorted_run {fw : Firewall} (h : fw.rules.Pairwise FirewallRule.PriorityLE)
    (calls : List RuleCall) : (fw.run calls).rules.Pairwise FirewallRule.PriorityLE := by
  induction calls generalizing fw with
  | nil => exact h
  | cons call calls ih =>
    refine ih ?_
    cases call with
    | addRule rule genID => exact h.orderedInsert _ _
    | deleteRule ruleid => exact h.sublist eraseP_sublist

/-- **The rule of the highest priority decides**, after any calls: a packet is denied if no rule
accepts its header fields, and else gets the action of a rule that does and that has no higher
priority number than any other that does. -/
theorem decided_by_priority (calls : List RuleCall) (switchDpid : SwitchId) {pi : PacketIn}
    {m : OFMatch} (h : HasHeaders pi m) :
    let rules := (Firewall.run {} calls).rules
    (outcome rules switchDpid pi = .ok .deny ∧ ∀ r ∈ rules, r.accepts switchDpid m = false) ∨
      ∃ r ∈ rules, outcome rules switchDpid pi = .ok r.action ∧ r.accepts switchDpid m = true ∧
        ∀ r' ∈ rules, r'.accepts switchDpid m = true → r.PriorityLE r' := by
  intro rules
  have hsorted : rules.Pairwise FirewallRule.PriorityLE := Firewall.sorted_run .nil calls
  have hfirst := matchRules_announced h switchDpid rules {}
  rcases hrun : matchRules switchDpid pi rules {} with e | ⟨rule, w⟩
  · rw [hrun] at hfirst
    cases hfirst
  · rw [hrun] at hfirst
    have hrule : rule = rules.find? fun r => r.accepts switchDpid m := Except.ok.inj hfirst
    have houtcome : outcome rules switchDpid pi = .ok (actionOf rule) := by
      rw [outcome, matchWithRule, hrun]
      rfl
    rw [houtcome]
    cases rule with
    | none =>
      refine .inl ⟨rfl, fun r hr => ?_⟩
      exact eq_false_of_ne_true (find?_eq_none.mp hrule.symm r hr)
    | some r =>
      obtain ⟨haccepts, before, after, hrules, hbefore⟩ := find?_eq_some_iff_append.mp hrule.symm
      refine .inr ⟨r, mem_of_find?_eq_some hrule.symm, rfl, haccepts, fun r' hr' haccepts' => ?_⟩
      rw [hrules] at hr' hsorted
      -- the rules in front of it do not accept
      rcases mem_append.mp hr' with hr' | hr'
      · have hnot := hbefore r' hr'
        rw [haccepts'] at hnot
        cases hnot
      · rcases mem_cons.mp hr' with rfl | hr'
        · exact Int.le_refl _
        · exact rel_of_pairwise_cons (pairwise_append.mp hsorted).2.1 hr'

theorem decided_by_priority_ports :
    HasHeaders udpPacketIn udpMatch ∧ ∃ r ∈ (Firewall.run {} portCalls).rules,
      outcome (Firewall.run {} portCalls).rules 1 udpPacketIn = .ok r.action := by
  have h : HasHeaders udpPacketIn udpMatch := ⟨loadFromPacket_udpPacket,
    ⟨rfl, rfl, rfl, fun _ => ⟨_, rfl, rfl, rfl, rfl, by decide, fun _ => rfl⟩⟩⟩
  refine ⟨h, ?_⟩
  rcases decided_by_priority portCalls 1 h with ⟨-, hnone⟩ | ⟨r, hr, houtcome, -⟩
  · revert hnone
    decide
  · exact ⟨r, hr, houtcome⟩

end NctuSdn
