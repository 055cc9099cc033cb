/-
Write hints: the values a node still has to send to the others
(`StoreRegistry`).

A hint is kept twice.  The map `hints` holds the versions of its key, the
queue `hintQueue` the order in which keys are handed out.  A key is queued
when it enters the map and leaves both when a worker takes it.  `shutdown`
empties the queue; the map it only closes, and closing an in-memory engine
does nothing.  The registry outlives a restart of the sync service, so keys
that were pending then stay in the map, and a key in the map is not queued
again.
-/
import Mathlib.Data.List.Nodup
import NctuSdn.Sync.Store
import NctuSdn.Topology.Link

namespace NctuSdn

open List Function

variable {V : Type*}

/-! ### The registry -/

/-- A key in the hint store. -/
structure HintKey where
  storeName : String
  key : List (BitVec 8)
  nodeId : ℤ
deriving DecidableEq

def HintKey.forAll (storeName : String) (key : List (BitVec 8)) : HintKey := ⟨storeName, key, -1⟩

/-- A key that is handed out, with its versions. -/
structure Hint (V : Type*) where
  hintKey : HintKey
  values : List (Versioned V)

/-- The hints of a `StoreRegistry`. -/
structure StoreRegistry (V : Type*) where
  hints : HintKey → Option (List (Versioned V))
  hintQueue : List HintKey

namespace StoreRegistry

def init (V : Type*) : StoreRegistry V := ⟨fun _ => none, []⟩

/-- `queueHint`: the key is queued if it was not in the map and the value is
accepted. -/
def queueHint [DecidableEq V] (r : StoreRegistry V) (storeName : String) (key : List (BitVec 8))
    (value : Versioned V) : StoreRegistry V :=
  let hk := HintKey.forAll storeName key
  let (items, accepted) := doput (r.hints hk) value
  { hints := Function.update r.hints hk items
    hintQueue := if (r.hints hk).isNone && accepted then r.hintQueue ++ [hk] else r.hintQueue }

/-- The inner loop of `takeHints`.  `remove` locks the list it finds, so that a
key without one raises. -/
def drainHints (maxElements : ℤ) : ℤ → List HintKey → (HintKey → Option (List (Versioned V))) →
    Except JavaException (StoreRegistry V × List (Hint V))
  | _, [], hints => .ok (⟨hints, []⟩, [])
  | count, hintKey :: hintQueue, hints =>
    if count < maxElements then
      match hints hintKey with
      | none => .error .nullPointer
      | some values =>
        (drainHints maxElements (count + 1) hintQueue
          (Function.update hints hintKey none)).map fun (r, c) => (r, ⟨hintKey, values⟩ :: c)
    else .ok (⟨hints, hintKey :: hintQueue⟩, [])

/-- `takeHints`: `none` when it does not return, because the queue is empty or
there is no room for a hint. -/
def takeHints (r : StoreRegistry V) (maxElements : ℤ) :
    Option (Except JavaException (StoreRegistry V × List (Hint V))) :=
  if r.hintQueue = [] then none
  else if maxElements ≤ 0 then none
  else some (drainHints maxElements 0 r.hintQueue r.hints)

/-- `shutdown`: the in-memory engine ignores `close`. -/
def shutdown (r : StoreRegistry V) : StoreRegistry V := { r with hintQueue := [] }

end StoreRegistry

/-! ### Runs -/

/-- The calls on a registry; a restart of the sync service is a shutdown. -/
inductive RegistryStep (V : Type*)
  | queueHint (storeName : String) (key : List (BitVec 8)) (value : Versioned V)
  | takeHints (maxElements : ℤ)
  | shutdown

def RegistryStep.isTake : RegistryStep V → Bool
  | .takeHints _ => true
  | _ => false

/-- One call that returns, with the hints it hands out. -/
def StoreRegistry.step [DecidableEq V] (r : StoreRegistry V) :
    RegistryStep V → Option (StoreRegistry V × List (Hint V))
  | .queueHint storeName key value => some (r.queueHint storeName key value, [])
  | .takeHints maxElements =>
    match r.takeHints maxElements with
    | some (.ok res) => some res
    | _ => none
  | .shutdown => some (r.shutdown, [])

/-- A sequence of calls that `Allowed` lets happen, with all hints handed out. -/
inductive RegistryRun [DecidableEq V] (Allowed : StoreRegistry V → RegistryStep V → Prop) :
    StoreRegistry V → List (RegistryStep V) → StoreRegistry V → List (Hint V) → Prop
  | nil (r : StoreRegistry V) : RegistryRun Allowed r [] r []
  | cons {r r₁ r₂ : StoreRegistry V} {s : RegistryStep V} {steps : List (RegistryStep V)}
      {out out' : List (Hint V)} (hallowed : Allowed r s) (hstep : r.step s = some (r₁, out))
      (hrun : RegistryRun Allowed r₁ steps r₂ out') :
      RegistryRun Allowed r (s :: steps) r₂ (out ++ out')

/-- A shutdown finds nothing pending. -/
def QuietShutdown (r : StoreRegistry V) (s : RegistryStep V) : Prop :=
  s = .shutdown → ∀ k, r.hints k = none

/-! ### Map and queue -/

/-- A key is in the map exactly if it is queued, and then once. -/
def StoreRegistry.InStep (r : StoreRegistry V) : Prop :=
  ∀ k, r.hintQueue.count k = if (r.hints k).isSome then 1 else 0

namespace StoreRegistry

variable {r : StoreRegistry V}

theorem inStep_init : (init V).InStep := fun _ => rfl

theorem InStep.mem_iff (h : r.InStep) (k : HintKey) : k ∈ r.hintQueue ↔ (r.hints k).isSome := by
  rw [← count_pos_iff, h k]
  split
  next hs => exact iff_of_true Nat.one_pos hs
  next hs => exact iff_of_false (Nat.lt_irrefl 0) hs

theorem InStep.nodup (h : r.InStep) : r.hintQueue.Nodup := by
  rw [nodup_iff_count_le_one]
  intro k
  rw [h k]
  split
  · exact le_rfl
  · exact Nat.zero_le 1

theorem inStep_of_nodup (hnodup : r.hintQueue.Nodup)
    (hmem : ∀ k, k ∈ r.hintQueue ↔ (r.hints k).isSome) : r.InStep := by
  intro k
  split
  next hs => exact count_eq_one_of_mem hnodup ((hmem k).mpr hs)
  next hs => exact count_eq_zero_of_not_mem fun hk => hs ((hmem k).mp hk)

/-- **One drain** hands out as many keys as there is room for, from the front
of the queue, each with its versions. -/
theorem drainHints_eq (maxElements count : ℤ) {hintQueue : List HintKey}
    {hints : HintKey → Option (List (Versioned V))} (hnodup : hintQueue.Nodup)
    (hmem : ∀ k ∈ hintQueue, (hints k).isSome) :
    let taken := hintQueue.take (maxElements - count).toNat
    drainHints maxElements count hintQueue hints =
      .ok (⟨fun k => if k ∈ taken then none else hints k,
          hintQueue.drop (maxElements - count).toNat⟩,
        taken.map fun k => ⟨k, stored (hints k)⟩) := by
  induction hintQueue generalizing count hints with
  | nil => simp [drainHints]
  | cons hk hintQueue ih =>
    obtain ⟨hnot, hnodup⟩ := nodup_cons.mp hnodup
    unfold drainHints
    by_cases hcount : count < maxElements
    · obtain ⟨values, hvalues⟩ := Option.isSome_iff_exists.mp (hmem hk mem_cons_self)
      have hroom : (maxElements - count).toNat = (maxElements - (count + 1)).toNat + 1 := by
        omega
      have hne : ∀ k ∈ hintQueue, k ≠ hk := fun k hk' heq => hnot (heq ▸ hk')
      have hmem' : ∀ k ∈ hintQueue, (Function.update hints hk none k).isSome := by
        intro k hk'
        rw [update_of_ne (hne k hk')]
        exact hmem k (mem_cons_of_mem _ hk')
      -- the other keys of the queue keep their versions
      have hrest := ih (count + 1) hnodup hmem'
      rw [if_pos hcount, hvalues, hroom]
      dsimp only at hrest ⊢
      rw [hrest, take_succ_cons, drop_succ_cons, map_cons, hvalues]
      refine congrArg Except.ok (Prod.ext (congrArg (StoreRegistry.mk · _) ?_) ?_)
      · funext k
        rcases eq_or_ne k hk with rfl | hkne
        · simp
        · rw [update_of_ne hkne]
          simp [hkne]
      · refine congrArg (_ :: ·) (map_congr_left fun k hk' => ?_)
        rw [update_of_ne (hne k (mem_of_mem_take hk'))]
    · have hroom : (maxElements - count).toNat = 0 := by omega
      rw [if_neg hcount, hroom]
      simp

variable {maxElements : ℤ}

theorem InStep.takeHints_eq (h : r.InStep) (hmax : 0 < maxElements) (hne : r.hintQueue ≠ []) :
    r.takeHints maxElements = some (.ok
      (⟨fun k => if k ∈ r.hintQueue.take maxElements.toNat then none else r.hints k,
          r.hintQueue.drop maxElements.toNat⟩,
        (r.hintQueue.take maxElements.toNat).map fun k => ⟨k, stored (r.hints k)⟩)) := by
  have hdrain := drainHints_eq maxElements 0 h.nodup fun k hk => (h.mem_iff k).mp hk
  rw [Int.sub_zero] at hdrain
  unfold takeHints
  rw [if_neg hne, if_neg (by omega), hdrain]

theorem takeHints_inv {res : StoreRegistry V × List (Hint V)}
    (h : r.takeHints maxElements = some (.ok res)) : 0 < maxElements ∧ r.hintQueue ≠ [] := by
  unfold takeHints at h
  split at h
  · cases h
  next hne =>
    split at h
    · cases h
    next hmax => exact ⟨by omega, hne⟩

variable {r' : StoreRegistry V} {out : List (Hint V)}

theorem InStep.takeHints (h : r.InStep) (htake : r.takeHints maxElements = some (.ok (r', out))) :
    r'.InStep := by
  obtain ⟨hmax, hne⟩ := takeHints_inv htake
  rw [h.takeHints_eq hmax hne] at htake
  cases htake
  have hsplit := take_append_drop maxElements.toNat r.hintQueue
  have hnodup := h.nodup
  rw [← hsplit] at hnodup
  refine inStep_of_nodup hnodup.of_append_right fun k => ?_
  have hk := h.mem_iff k
  rw [← hsplit, mem_append] at hk
  dsimp only
  split
  next htaken =>
    exact iff_of_false (fun hdrop => disjoint_of_nodup_append hnodup htaken hdrop) (by simp)
  next htaken => rw [← hk, or_iff_right htaken]

variable [DecidableEq V]

theorem takeHints_of_step {res : StoreRegistry V × List (Hint V)}
    (h : r.step (.takeHints maxElements) = some res) :
    r.takeHints maxElements = some (.ok res) := by
  unfold step at h
  dsimp only at h
  split at h
  next htake => rw [htake, Option.some.inj h]
  next => cases h

theorem isSome_doput (items : Option (List (Versioned V))) (value : Versioned V) :
    (doput items value).1.isSome := by
  unfold doput
  cases items with
  | none => rfl
  | some items => dsimp only; split <;> rfl

theorem queueHint_eq (r : StoreRegistry V) (storeName : String) (key : List (BitVec 8))
    (value : Versioned V) :
    r.queueHint storeName key value =
      ⟨Function.update r.hints (.forAll storeName key)
          (doput (r.hints (.forAll storeName key)) value).1,
        r.hintQueue ++ if (r.hints (.forAll storeName key)).isNone
          then [.forAll storeName key] else []⟩ := by
  unfold queueHint
  refine congrArg (StoreRegistry.mk _) ?_
  cases hitems : r.hints (.forAll storeName key) with
  | none => rfl
  | some items => simp

theorem InStep.queueHint (h : r.InStep) (storeName : String) (key : List (BitVec 8))
    (value : Versioned V) : (r.queueHint storeName key value).InStep := by
  rw [queueHint_eq]
  generalize HintKey.forAll storeName key = hk
  have hnot : (r.hints hk).isNone → hk ∉ r.hintQueue := by
    intro hnone hmem
    have hsome := (h.mem_iff hk).mp hmem
    rw [Option.isNone_iff_eq_none] at hnone
    rw [hnone] at hsome
    cases hsome
  refine inStep_of_nodup ?_ fun k => ?_
  · dsimp only
    split
    next hnone =>
      refine nodup_append.mpr ⟨h.nodup, nodup_singleton _, ?_⟩
      intro a ha b hb hab
      rw [mem_singleton] at hb
      exact hnot hnone (hb ▸ hab ▸ ha)
    next =>
      rw [append_nil]
      exact h.nodup
  · dsimp only
    rw [mem_append, h.mem_iff k]
    rcases eq_or_ne k hk with rfl | hne
    · rw [update_self]
      refine iff_of_true ?_ (isSome_doput _ _)
      cases hitems : r.hints k with
      | none => simp
      | some items => simp
    · rw [update_of_ne hne]
      refine or_iff_left fun hmem => ?_
      split at hmem
      · exact hne (mem_singleton.mp hmem)
      · cases hmem

/-- **Every call keeps map and queue in step**, a shutdown if nothing is
pending. -/
theorem InStep.step (h : r.InStep) {s : RegistryStep V} (hquiet : QuietShutdown r s)
    (hstep : r.step s = some (r', out)) :
    r'.InStep := by
  cases s with
  | queueHint storeName key value =>
    cases hstep
    exact h.queueHint storeName key value
  | takeHints maxElements =>
    exact h.takeHints (takeHints_of_step hstep)
  | shutdown =>
    cases hstep
    intro k
    rw [show r.shutdown.hints k = none from hquiet rfl k]
    rfl

theorem InStep.run (h : r.InStep) {steps : List (RegistryStep V)}
    (hrun : RegistryRun QuietShutdown r steps r' out) : r'.InStep := by
  induction hrun with
  | nil => exact h
  | cons hallowed hstep _ ih => exact ih (h.step hallowed hstep)

end StoreRegistry

/-! ### Nothing is lost -/

/-- The value is among the items, or a later one that supersedes it is. -/
def Carried (later : Versioned V → Prop) (value : Versioned V) (items : List (Versioned V)) :
    Prop :=
  value ∈ items ∨ ∃ w ∈ items, value.rank ≤ w.rank ∧ later w

open Classical in
theorem Carried.insertMax {later : Versioned V → Prop} {value : Versioned V}
    {items : List (Versioned V)} (h : Carried later value items) {w : Versioned V} (hw : later w) :
    Carried later value (insertMax Versioned.rank items w) := by
  by_cases hb : Below Versioned.rank items w.rank
  · rw [insertMax_of_below hb]
    exact h
  · rw [insertMax_of_not_below hb]
    have hnew : w ∈ items.filter (fun y => ¬ y.rank ≤ w.rank) ++ [w] :=
      mem_append_right _ (mem_singleton_self w)
    have hkept : ∀ y ∈ items, ¬ y.rank ≤ w.rank →
        y ∈ items.filter (fun y => ¬ y.rank ≤ w.rank) ++ [w] := fun y hy hle =>
      mem_append_left _ (mem_filter.mpr ⟨hy, decide_eq_true hle⟩)
    -- what is removed is below `w`, which takes its place
    rcases h with hv | ⟨y, hy, hle, hlater⟩
    · by_cases hvw : value.rank ≤ w.rank
      · exact .inr ⟨w, hnew, hvw, hw⟩
      · exact .inl (hkept value hv hvw)
    · by_cases hyw : y.rank ≤ w.rank
      · exact .inr ⟨w, hnew, hle.trans hyw, hw⟩
      · exact .inr ⟨y, hkept y hy hyw, hle, hlater⟩

section Delivery

variable [DecidableEq V] {r : StoreRegistry V} {storeName : String} {key : List (BitVec 8)}
  {value : Versioned V} {later : Versioned V → Prop}

theorem Carried.queueHint
    (h : Carried later value (stored (r.hints (.forAll storeName key)))) (storeName' : String)
    (key' : List (BitVec 8)) {w : Versioned V}
    (hw : storeName' = storeName → key' = key → later w) :
    Carried later value
      (stored ((r.queueHint storeName' key' w).hints (.forAll storeName key))) := by
  rw [StoreRegistry.queueHint_eq]
  dsimp only
  by_cases heq : HintKey.forAll storeName key = HintKey.forAll storeName' key'
  · obtain ⟨rfl, rfl, -⟩ := HintKey.mk.inj heq
    rw [update_self, stored_doput]
    exact h.insertMax (hw rfl rfl)
  · rw [update_of_ne heq]
    exact h

/-- A key at one of the first `n + 1` places has moved up after a take, or has
been taken. -/
theorem mem_take_drop {k : HintKey} {hintQueue : List HintKey} {n m : ℕ} (hm : 0 < m)
    (hmem : k ∈ hintQueue.take (n + 1)) (hnot : k ∉ hintQueue.take m) :
    k ∈ (hintQueue.drop m).take n := by
  rcases Nat.lt_or_ge n m with hlt | hge
  · exact absurd (take_subset_take_left _ hlt hmem) hnot
  · obtain ⟨j, rfl⟩ := Nat.exists_eq_add_of_le hge
    rw [Nat.add_assoc, take_add, mem_append] at hmem
    refine take_subset_take_left _ ?_ (hmem.resolve_left hnot)
    omega

/-- **A queued key is handed out** by the time as many takes have returned as
its place in the queue. -/
theorem StoreRegistry.InStep.handed_out (h : r.InStep) {steps : List (RegistryStep V)}
    {r' : StoreRegistry V} {out : List (Hint V)} (hrun : RegistryRun QuietShutdown r steps r' out)
    (hmem : .forAll storeName key ∈ r.hintQueue.take (steps.countP RegistryStep.isTake))
    (hlater : ∀ w, .queueHint storeName key w ∈ steps → later w)
    (hc : Carried later value (stored (r.hints (.forAll storeName key)))) :
    ∃ hint ∈ out, hint.hintKey = .forAll storeName key ∧ Carried later value hint.values := by
  induction hrun with
  | nil => exact absurd hmem (by simp)
  | @cons r r₁ r₂ s steps out out' hallowed hstep hrun ih =>
    have hstepped := h.step hallowed hstep
    have hlater' : ∀ w, .queueHint storeName key w ∈ steps → later w := fun w hw =>
      hlater w (mem_cons_of_mem _ hw)
    cases s with
    | queueHint storeName' key' w =>
      cases hstep
      refine ih hstepped ?_ hlater' (hc.queueHint storeName' key' ?_)
      · rw [countP_cons_of_neg (by simp [RegistryStep.isTake])] at hmem
        rw [StoreRegistry.queueHint_eq, take_append]
        exact mem_append_left _ hmem
      · rintro rfl rfl
        exact hlater w mem_cons_self
    | takeHints maxElements =>
      have htake := StoreRegistry.takeHints_of_step hstep
      obtain ⟨hmax, hne⟩ := StoreRegistry.takeHints_inv htake
      rw [h.takeHints_eq hmax hne] at htake
      cases htake
      by_cases htaken : .forAll storeName key ∈ r.hintQueue.take maxElements.toNat
      · exact ⟨_, mem_append_left _ (mem_map_of_mem htaken), rfl, hc⟩
      · rw [countP_cons_of_pos (by rfl)] at hmem
        obtain ⟨hint, hhint, hout⟩ := ih hstepped
          (mem_take_drop (by omega) hmem htaken) hlater' (by
            dsimp only
            rw [if_neg htaken]
            exact hc)
        exact ⟨hint, mem_append_right _ hhint, hout⟩
    | shutdown =>
      -- the key would be pending
      have hpending := (h.mem_iff _).mp (mem_of_mem_take hmem)
      rw [hallowed rfl] at hpending
      cases hpending

end Delivery

/-- **No hint is stranded** in a run whose shutdowns find nothing pending.  A key
is in the map exactly if it is queued, and then once; a take with room returns
whenever the queue is not empty; and a value that `queueHint` accepts is handed
out, or a later value of its key that supersedes it, when as many takes have
returned as the queue was long. -/
theorem no_stranded_hint [DecidableEq V] {steps : List (RegistryStep V)} {r : StoreRegistry V}
    {out : List (Hint V)} (hrun : RegistryRun QuietShutdown (.init V) steps r out) :
    (∀ k, r.hintQueue.count k = if (r.hints k).isSome then 1 else 0) ∧
    (∀ maxElements, 0 < maxElements → r.hintQueue ≠ [] →
      ∃ res, r.takeHints maxElements = some (.ok res)) ∧
    ∀ storeName key value, (doput (r.hints (.forAll storeName key)) value).2 = true →
      ∀ steps' r' out', RegistryRun QuietShutdown (r.queueHint storeName key value) steps' r' out' →
      (r.queueHint storeName key value).hintQueue.length ≤ steps'.countP RegistryStep.isTake →
      ∃ hint ∈ out', hint.hintKey = .forAll storeName key ∧
        (value ∈ hint.values ∨ ∃ w ∈ hint.values, value.rank ≤ w.rank ∧
          .queueHint storeName key w ∈ steps') := by
  have h : r.InStep := StoreRegistry.inStep_init.run hrun
  refine ⟨h, fun maxElements hmax hne => ⟨_, h.takeHints_eq hmax hne⟩, ?_⟩
  intro storeName key value haccepted steps' r' out' hrun' hlen
  have hqueued := h.queueHint storeName key value
  have hvalue :
      value ∈ stored ((r.queueHint storeName key value).hints (.forAll storeName key)) := by
    have hnot : ¬ Below Versioned.rank (stored (r.hints (.forAll storeName key))) value.rank := by
      rw [← doput_eq_false_iff, haccepted]
      exact Bool.noConfusion
    rw [StoreRegistry.queueHint_eq]
    dsimp only
    rw [update_self, stored_doput, insertMax_of_not_below hnot]
    exact mem_append_right _ (mem_singleton_self value)
  have hlater : ∀ w, .queueHint storeName key w ∈ steps' →
      .queueHint storeName key w ∈ steps' := fun w hw => hw
  refine hqueued.handed_out hrun' ?_ hlater (.inl hvalue)
  rw [take_of_length_le hlen, hqueued.mem_iff, StoreRegistry.queueHint_eq]
  dsimp only
  rw [update_self]
  exact StoreRegistry.isSome_doput _ _

def quietRestart : List (RegistryStep ℕ) :=
  [.queueHint "flows" [1] ⟨7, .single 1 0 5⟩, .takeHints 50, .shutdown]

theorem no_stranded_hint_quietRestart :
    ∃ r out, RegistryRun QuietShutdown (.init ℕ) quietRestart r out ∧ out.length = 1 ∧
      ∀ k, r.hintQueue.count k = if (r.hints k).isSome then 1 else 0 := by
  have hrun : RegistryRun QuietShutdown (.init ℕ) quietRestart _ _ :=
    .cons (fun hs => by cases hs) rfl (.cons (fun hs => by cases hs) rfl
      (.cons (fun _ k => by
        dsimp only
        rcases eq_or_ne k (.forAll "flows" [1]) with rfl | hk
        · rw [update_self]
        · rw [update_of_ne hk, StoreRegistry.queueHint_eq]
          exact update_of_ne hk _ _) rfl (.nil _)))
  exact ⟨_, _, hrun, rfl, (no_stranded_hint hrun).1⟩

/-- A hint is pending when the service restarts; the key is written again. -/
theorem hint_stranded_by_shutdown :
    ∃ r out, RegistryRun (fun _ _ => True) (.init ℕ)
        [.queueHint "flows" [1] ⟨7, .single 1 0 5⟩, .shutdown,
          .queueHint "flows" [1] ⟨8, .single 1 1 6⟩] r out ∧
      (r.hints (.forAll "flows" [1])).isSome ∧ .forAll "flows" [1] ∉ r.hintQueue := by
  refine ⟨_, _, .cons trivial rfl (.cons trivial rfl (.cons trivial rfl (.nil _))), ?_, ?_⟩
  · decide +kernel
  · decide +kernel

end NctuSdn
