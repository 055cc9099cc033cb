/-
Damping of FLOW_MODs (`OFMessageDamper`, `TimedCache`).

A message is written to the switch unless an equal one was written within the
last `timeoutInterval` milliseconds.  The damper never looks at what has been
written in between: a rule that was added, deleted and is added again within
the interval stays deleted.

An entry of the cache is found by hash code and equality.  Equality of matches
ignores the unused bits of the wildcards while their hash code does not, so
two messages are one entry only if they agree in every field.  The cache does
not evict.
-/
import NctuSdn.OpenFlow.FlowTable

namespace NctuSdn

open List

/-! ### The damper -/

/-- `TimedCache`: when each key was last written. -/
structure TimedCache (K : Type*) where
  timeoutInterval : ℤ
  cache : K → Option ℤ

/-- `update` at time `curr`: whether a valid entry existed. -/
def TimedCache.update {K : Type*} [DecidableEq K] (c : TimedCache K) (key : K) (curr : ℤ) :
    TimedCache K × Bool :=
  match c.cache key with
  | none => ({ c with cache := Function.update c.cache key (some curr) }, false)
  | some prev =>
    if curr - prev > c.timeoutInterval then
      ({ c with cache := Function.update c.cache key (some curr) }, false)
    else (c, true)

/-- A message and the switch it was sent to. -/
structure DamperEntry (S : Type*) where
  msg : OFFlowMod
  sw : S
deriving DecidableEq

/-- `OFMessageDamper`, for FLOW_MODs: whether they are damped at all, and the
cache. -/
structure OFMessageDamper (S : Type*) where
  dampensFlowMod : Bool
  cache : TimedCache (DamperEntry S)

def OFMessageDamper.new (S : Type*) (timeout : ℤ) : OFMessageDamper S :=
  ⟨true, ⟨timeout, fun _ => none⟩⟩

section Write

variable {S : Type*} [DecidableEq S]

/-- `write` at time `curr`: whether the message goes to the switch. -/
def OFMessageDamper.write (d : OFMessageDamper S) (sw : S) (msg : OFFlowMod) (curr : ℤ) :
    OFMessageDamper S × Bool :=
  if d.dampensFlowMod then
    match d.cache.update ⟨msg, sw⟩ curr with
    | (cache, true) => ({ d with cache := cache }, false)
    | (cache, false) => ({ d with cache := cache }, true)
  else (d, true)

def OFMessageDamper.after (d : OFMessageDamper S) (sw : S) (sent : List (ℤ × OFFlowMod)) :
    OFMessageDamper S :=
  sent.foldl (fun d s => (d.write sw s.2 s.1).1) d

def OFMessageDamper.written (d : OFMessageDamper S) (sw : S) :
    List (ℤ × OFFlowMod) → List OFFlowMod
  | [] => []
  | (time, msg) :: sent =>
    match d.write sw msg time with
    | (d', true) => msg :: d'.written sw sent
    | (d', false) => d'.written sw sent

/-- An equal message was written to the switch within the interval. -/
def OFMessageDamper.Recent (d : OFMessageDamper S) (sw : S) (msg : OFFlowMod) (curr : ℤ) : Prop :=
  d.dampensFlowMod = true ∧
    ∃ prev, d.cache.cache ⟨msg, sw⟩ = some prev ∧ curr - prev ≤ d.cache.timeoutInterval

theorem OFMessageDamper.write_eq_false_iff (d : OFMessageDamper S) (sw : S) (msg : OFFlowMod)
    (curr : ℤ) : (d.write sw msg curr).2 = false ↔ d.Recent sw msg curr := by
  unfold write Recent TimedCache.update
  cases d.dampensFlowMod with
  | false => simp
  | true =>
    rw [if_pos rfl]
    cases d.cache.cache ⟨msg, sw⟩ with
    | none => simp
    | some prev =>
      dsimp only
      by_cases hold : curr - prev > d.cache.timeoutInterval
      · rw [if_pos hold]
        refine iff_of_false Bool.noConfusion ?_
        rintro ⟨-, t, ht, hrecent⟩
        cases ht
        omega
      · rw [if_neg hold]
        exact iff_of_true rfl ⟨rfl, prev, rfl, Int.not_lt.mp hold⟩

theorem OFMessageDamper.written_concat (d : OFMessageDamper S) (sw : S)
    (sent : List (ℤ × OFFlowMod)) (s : ℤ × OFFlowMod) :
    d.written sw (sent ++ [s]) =
      d.written sw sent ++ if ((d.after sw sent).write sw s.2 s.1).2 then [s.2] else [] := by
  induction sent generalizing d with
  | nil =>
    show d.written sw [s] = [] ++ if (d.write sw s.2 s.1).2 then [s.2] else []
    unfold written
    rcases d.write sw s.2 s.1 with ⟨d', _ | _⟩
    · rfl
    · rfl
  | cons s₀ sent ih =>
    have hafter : d.after sw (s₀ :: sent) = (d.write sw s₀.2 s₀.1).1.after sw sent := rfl
    rw [cons_append, hafter]
    unfold written
    rcases d.write sw s₀.2 s₀.1 with ⟨d', _ | _⟩
    · exact ih d'
    · exact congrArg (s₀.2 :: ·) (ih d')

end Write

/-! ### Two runs of the table -/

def applyAll (checkActions : List OFAction → OvsMatch → Bool) (t : Finset FlowRule)
    (msgs : List OFFlowMod) : Finset FlowRule :=
  msgs.foldl (applyFlowMod checkActions) t

section Runs

variable {S : Type*} [DecidableEq S] (checkActions : List OFAction → OvsMatch → Bool)
  (d : OFMessageDamper S) (sw : S) (t : Finset FlowRule)

/-- The written messages make the table that all messages make. -/
def Transparent (sent : List (ℤ × OFFlowMod)) : Prop :=
  applyAll checkActions t (d.written sw sent) = applyAll checkActions t (sent.map Prod.snd)

theorem applyAll_concat (msgs : List OFFlowMod) (m : OFFlowMod) :
    applyAll checkActions t (msgs ++ [m]) =
      applyFlowMod checkActions (applyAll checkActions t msgs) m := by
  unfold applyAll
  rw [foldl_append]
  rfl

/-- **One more message** keeps damping transparent exactly if it is written or
has nothing to do. -/
theorem transparent_concat_iff {sent : List (ℤ × OFFlowMod)}
    (h : Transparent checkActions d sw t sent) (s : ℤ × OFFlowMod) :
    Transparent checkActions d sw t (sent ++ [s]) ↔
      ((d.after sw sent).Recent sw s.2 s.1 →
        Settled checkActions (applyAll checkActions t (sent.map Prod.snd)) s.2) := by
  unfold Transparent at h ⊢
  rw [d.written_concat, map_append, map_singleton, applyAll_concat,
    ← OFMessageDamper.write_eq_false_iff, ← applyFlowMod_eq_self_iff]
  cases ((d.after sw sent).write sw s.2 s.1).2 with
  | true =>
    rw [if_pos rfl, applyAll_concat, h]
    simp
  | false =>
    rw [if_neg Bool.false_ne_true, append_nil, h]
    simp [eq_comm]

/-- Damping is transparent throughout a sequence exactly if every damped message
has nothing to do at its place. -/
theorem damping_transparent_steps (sent : List (ℤ × OFFlowMod)) :
    (∀ n, Transparent checkActions d sw t (sent.take n)) ↔
      ∀ before time msg rest, sent = before ++ (time, msg) :: rest →
        (d.after sw before).Recent sw msg time →
        Settled checkActions (applyAll checkActions t (before.map Prod.snd)) msg := by
  constructor
  · rintro h before time msg rest rfl
    have hbefore := h before.length
    have hnext := h (before.length + 1)
    rw [take_left] at hbefore
    rw [take_length_add_append, take_succ_cons, take_zero] at hnext
    exact (transparent_concat_iff checkActions d sw t hbefore (time, msg)).mp hnext
  · intro h n
    induction n with
    | zero => rfl
    | succ n ih =>
      rcases Nat.lt_or_ge n sent.length with hlt | hge
      · have hsplit : sent = sent.take n ++ sent[n] :: sent.drop (n + 1) := by
          rw [← drop_eq_getElem_cons hlt, take_append_drop]
        rw [take_succ_eq_append_getElem hlt]
        exact (transparent_concat_iff checkActions d sw t ih sent[n]).mpr
          (h _ _ _ _ hsplit)
      · rw [take_of_length_le hge] at ih
        rw [take_of_length_le (by omega)]
        exact ih

/-- **Damping is transparent**, throughout any sequence of messages to a switch,
exactly if each message that is sent while an equal one is recent has nothing
to do in the table that all messages before it have made. -/
theorem damping_transparent_iff (timeout : ℤ) (sent : List (ℤ × OFFlowMod)) :
    (∀ n, Transparent checkActions (.new S timeout) sw t (sent.take n)) ↔
      ∀ before time msg rest, sent = before ++ (time, msg) :: rest →
        ((OFMessageDamper.new S timeout).after sw before).Recent sw msg time →
        Settled checkActions (applyAll checkActions t (before.map Prod.snd)) msg :=
  damping_transparent_steps checkActions (.new S timeout) sw t sent

end Runs

/-! ### A rule that is added again -/

def flowModPort1 (command : BitVec 16) : OFFlowMod where
  xid := 0
  ofMatch := { OFMatch.new with wildcards := ofpfwAll &&& ~~~ofpfwInPort, inputPort := 1 }
  cookie := 0
  command := command
  idleTimeout := 5
  hardTimeout := 0
  priority := 100
  bufferId := 0xffffffff
  outPort := ofppNone
  flags := 0
  actions := if command = ofpfcAdd then [.output 2 0xffff] else []

/-- The rule is added, deleted and added within three milliseconds. -/
def readded : List (ℤ × OFFlowMod) :=
  [(1, flowModPort1 ofpfcAdd), (2, flowModPort1 ofpfcDelete), (3, flowModPort1 ofpfcAdd)]

/-- The second add is damped, and the rule is gone. -/
theorem damping_loses_readded_rule :
    (OFMessageDamper.new ℕ 250).written 7 readded =
      [flowModPort1 ofpfcAdd, flowModPort1 ofpfcDelete] ∧
    applyAll (fun _ _ => true) ∅ ((OFMessageDamper.new ℕ 250).written 7 readded) = ∅ ∧
    (applyAll (fun _ _ => true) ∅ (readded.map Prod.snd)).Nonempty := by
  refine ⟨?_, ?_, ?_⟩
  · decide +kernel
  · decide +kernel
  · rw [Finset.nonempty_iff_ne_empty]
    decide +kernel

end NctuSdn
