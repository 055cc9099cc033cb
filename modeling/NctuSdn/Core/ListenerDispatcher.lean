/-
Listeners ordered by their dependencies (`ListenerDispatcher`).

`addListener` sorts the whole list again: it starts from the listeners that
come before nobody, visits depth-first whatever comes before a listener, and
appends a listener when its visit ends.  A visit is bounded by fuel here;
`visit_returns` shows that it always has enough.
-/
import NctuSdn.Lib.Precedence
import NctuSdn.Lib.Search

namespace NctuSdn

open List Finset

/-! ### The dispatcher -/

/-- `IListener<U>`: what a listener of type `T` says about its order. -/
structure IListener (U T : Type*) where
  getName : T → String
  isCallbackOrderingPrereq : T → U → String → Bool
  isCallbackOrderingPostreq : T → U → String → Bool

variable {U T : Type*} [DecidableEq T]

omit [DecidableEq T] in
def ispre (I : IListener U T) (type : U) (l₁ l₂ : T) : Bool :=
  I.isCallbackOrderingPrereq l₂ type (I.getName l₁) ||
    I.isCallbackOrderingPostreq l₁ type (I.getName l₂)

/-- The sets that `visit` fills. -/
structure VisitState (T : Type*) where
  visited : Finset T
  ordering : List T

/-- `visit`, over the relation `pre`. -/
def visit (pre : T → T → Bool) (newlisteners : List T) :
    ℕ → VisitState T → T → Option (VisitState T)
  | 0, _, _ => none
  | fuel + 1, st, listener =>
    if listener ∈ st.visited then some st
    else
      (newlisteners.foldlM
          (fun st i => if pre i listener then visit pre newlisteners fuel st i else some st)
          { st with visited := insert listener st.visited }).map fun st =>
        { st with ordering := st.ordering ++ [listener] }

omit [DecidableEq T] in
/-- The listeners that come before nobody, in `addListener`. -/
def terminalsOf (pre : T → T → Bool) (newlisteners : List T) : List T :=
  newlisteners.filter fun i => !newlisteners.any fun j => pre i j

/-- `addListener`.  Without terminals the listener is appended. -/
def addListener (I : IListener U T) (type : U) (listeners : List T) (listener : T) :
    Option (List T) :=
  let newlisteners := listeners ++ [listener]
  let terminals := terminalsOf (ispre I type) newlisteners
  if terminals.length = 0 then some newlisteners
  else
    (terminals.foldlM (visit (ispre I type) newlisteners (newlisteners.length + 1)) ⟨∅, []⟩).map
      VisitState.ordering

/-! ### One visit -/

/-- What holds of the sets during the visits to `s`; the visits to `unfinished`
have not ended. -/
structure Marked (pre : T → T → Bool) (s : Set T) (unfinished : Finset T) (st : VisitState T) :
    Prop where
  nodup : st.ordering.Nodup
  closed : PredClosed (fun i j => pre i j = true) s st.ordering
  visited : ∀ x, x ∈ st.visited ↔ x ∈ st.ordering ∨ x ∈ unfinished
  fresh : ∀ x ∈ unfinished, x ∉ st.ordering
  sub : ∀ x ∈ st.visited, x ∈ s

section Visit

variable {pre : T → T → Bool} {newlisteners : List T} {unfinished : Finset T} {st : VisitState T}
  {listener : T}

theorem Marked.enter {s : Set T} (h : Marked pre s unfinished st) (hmem : listener ∈ s)
    (hnew : listener ∉ st.visited) :
    Marked pre s (insert listener unfinished)
      { st with visited := insert listener st.visited } where
  nodup := h.nodup
  closed := h.closed
  visited := by
    intro x
    rw [mem_insert, mem_insert, h.visited]
    tauto
  fresh := by
    intro x hx hord
    rcases mem_insert.mp hx with rfl | hx
    · exact hnew ((h.visited x).mpr (.inl hord))
    · exact h.fresh x hx hord
  sub := by
    intro x hx
    rcases mem_insert.mp hx with rfl | hx
    · exact hmem
    · exact h.sub x hx

/-- A visit ends, when all that comes before the listener has been appended. -/
theorem Marked.leave {s : Set T} (h : Marked pre s (insert listener unfinished) st)
    (hnew : listener ∉ unfinished) (hpre : ∀ i ∈ s, pre i listener = true → i ∈ st.ordering) :
    Marked pre s unfinished { st with ordering := st.ordering ++ [listener] } where
  nodup := by
    have hnot := h.fresh listener (Finset.mem_insert_self ..)
    rw [← List.concat_eq_append]
    exact h.nodup.concat hnot
  closed := h.closed.concat hpre
  visited := by
    intro x
    rw [h.visited, Finset.mem_insert, List.mem_append, List.mem_singleton]
    tauto
  fresh := by
    intro x hx hord
    rcases List.mem_append.mp hord with hord | hord
    · exact h.fresh x (Finset.mem_insert_of_mem hx) hord
    · exact hnew (List.mem_singleton.mp hord ▸ hx)
  sub := h.sub

theorem card_unvisited_lt {v v' : Finset T} (hmem : listener ∈ newlisteners)
    (hnew : listener ∉ v) (hsub : insert listener v ⊆ v') :
    (newlisteners.toFinset \ v').card < (newlisteners.toFinset \ v).card := by
  refine card_lt_card ⟨?_, ?_⟩
  · intro x hx
    rw [mem_sdiff] at hx ⊢
    exact ⟨hx.1, fun hv => hx.2 (hsub (mem_insert_of_mem hv))⟩
  · intro hle
    have hin : listener ∈ newlisteners.toFinset \ v :=
      mem_sdiff.mpr ⟨mem_toFinset.mpr hmem, hnew⟩
    exact (mem_sdiff.mp (hle hin)).2 (hsub (mem_insert_self ..))

/-- Enough fuel for a visit: it returns, and appends the listener unless it is
there already. -/
def VisitReturns (pre : T → T → Bool) (newlisteners : List T) (fuel : ℕ) : Prop :=
  ∀ (unfinished : Finset T) (st : VisitState T) (listener : T),
    Marked pre {x | x ∈ newlisteners} unfinished st → listener ∈ newlisteners →
    (∀ x ∈ unfinished, Relation.TransGen
      (Within (fun i j => pre i j = true) {x | x ∈ newlisteners}) listener x) →
    (newlisteners.toFinset \ st.visited).card < fuel →
    ∃ st', visit pre newlisteners fuel st listener = some st' ∧
      Marked pre {x | x ∈ newlisteners} unfinished st' ∧ listener ∈ st'.ordering ∧
      st.ordering <+: st'.ordering ∧ st.visited ⊆ st'.visited

theorem visit_loop {fuel : ℕ} (hvisit : VisitReturns pre newlisteners fuel)
    (h : Marked pre {x | x ∈ newlisteners} unfinished st) (hmem : listener ∈ newlisteners)
    (hbefore : ∀ x ∈ unfinished, Relation.TransGen
      (Within (fun i j => pre i j = true) {x | x ∈ newlisteners}) listener x)
    (hnew : listener ∉ st.visited) (hfuel : (newlisteners.toFinset \ st.visited).card < fuel + 1) :
    ∃ st', newlisteners.foldlM
        (fun st i => if pre i listener then visit pre newlisteners fuel st i else some st)
        { st with visited := insert listener st.visited } = some st' ∧
      Marked pre {x | x ∈ newlisteners} (insert listener unfinished) st' ∧
      (∀ i ∈ newlisteners, pre i listener = true → i ∈ st'.ordering) ∧
      st.ordering <+: st'.ordering ∧ insert listener st.visited ⊆ st'.visited := by
  refine foldlM_rule (fun done st' =>
    Marked pre {x | x ∈ newlisteners} (insert listener unfinished) st' ∧
      (∀ i ∈ done, pre i listener = true → i ∈ st'.ordering) ∧
      st.ordering <+: st'.ordering ∧ insert listener st.visited ⊆ st'.visited) ?_
    ⟨h.enter hmem hnew, by simp, List.prefix_refl _, Finset.Subset.refl _⟩
  rintro done i rest st₁ hsplit ⟨hm, hdone, hpre, hsub⟩
  have himem : i ∈ newlisteners := by
    rw [hsplit]
    exact List.mem_append_right _ (List.mem_cons_self ..)
  by_cases hi : pre i listener = true
  · rw [if_pos hi]
    have hstep : Within (fun i j => pre i j = true) {x | x ∈ newlisteners} i listener :=
      ⟨himem, hmem, hi⟩
    -- the visit that begins is before all that are under way
    have hbefore' : ∀ x ∈ insert listener unfinished, Relation.TransGen
        (Within (fun i j => pre i j = true) {x | x ∈ newlisteners}) i x := by
      intro x hx
      rcases Finset.mem_insert.mp hx with rfl | hx
      · exact .single hstep
      · exact .head hstep (hbefore x hx)
    have hlt := card_unvisited_lt hmem hnew hsub
    obtain ⟨st₂, hrun, hm₂, hi₂, hpre₂, hsub₂⟩ := hvisit _ st₁ i hm himem hbefore' (by omega)
    refine ⟨st₂, hrun, hm₂, ?_, hpre.trans hpre₂, hsub.trans hsub₂⟩
    intro k hk hkl
    rcases List.mem_append.mp hk with hk | hk
    · exact hpre₂.subset (hdone k hk hkl)
    · rw [List.mem_singleton.mp hk]
      exact hi₂
  · rw [if_neg hi]
    refine ⟨st₁, rfl, hm, ?_, hpre, hsub⟩
    intro k hk hkl
    rcases List.mem_append.mp hk with hk | hk
    · exact hdone k hk hkl
    · rw [List.mem_singleton.mp hk] at hkl
      exact absurd hkl hi

/-- **A visit returns.** -/
theorem visit_returns (hacyc : Acyclic (fun i j => pre i j = true) {x | x ∈ newlisteners})
    (fuel : ℕ) : VisitReturns pre newlisteners fuel := by
  induction fuel with
  | zero =>
    intro unfinished st listener _ _ _ hfuel
    omega
  | succ fuel ih =>
    intro unfinished st listener h hmem hbefore hfuel
    unfold visit
    by_cases hvisited : listener ∈ st.visited
    · rw [if_pos hvisited]
      refine ⟨st, rfl, h, ?_, prefix_refl _, Finset.Subset.refl _⟩
      -- it cannot be one of the unfinished, which all come after it
      exact ((h.visited listener).mp hvisited).resolve_right fun hopen =>
        hacyc listener (hbefore listener hopen)
    · rw [if_neg hvisited]
      obtain ⟨st', hloop, hm, hdone, hpre, hsub⟩ :=
        visit_loop ih h hmem hbefore hvisited hfuel
      have hclosed : listener ∉ unfinished := fun hopen =>
        hvisited ((h.visited listener).mpr (.inr hopen))
      rw [hloop]
      refine ⟨_, rfl, hm.leave hclosed hdone, by simp, ?_, ?_⟩
      · exact hpre.trans (prefix_append ..)
      · exact fun x hx => hsub (mem_insert_of_mem hx)

end Visit

/-! ### Adding listeners -/

/-- The list has each listener of `s` once, behind all that come before it. -/
structure Ordered (pre : T → T → Bool) (s : Set T) (l : List T) : Prop where
  nodup : l.Nodup
  mem : ∀ x, x ∈ l ↔ x ∈ s
  closed : PredClosed (fun i j => pre i j = true) s l

section Add

variable {pre : T → T → Bool} {newlisteners : List T}

omit [DecidableEq T] in
theorem mem_terminalsOf {x : T} : x ∈ terminalsOf pre newlisteners ↔
    Terminal (fun i j => pre i j = true) {x | x ∈ newlisteners} x := by
  unfold terminalsOf Terminal
  simp

theorem visit_terminals (hacyc : Acyclic (fun i j => pre i j = true) {x | x ∈ newlisteners}) :
    ∃ st, (terminalsOf pre newlisteners).foldlM
        (visit pre newlisteners (newlisteners.length + 1)) ⟨∅, []⟩ = some st ∧
      Ordered pre {x | x ∈ newlisteners} st.ordering := by
  obtain ⟨st, hloop, hm, hterm⟩ := foldlM_rule
    (fun done (st : VisitState T) => Marked pre {x | x ∈ newlisteners} ∅ st ∧
      ∀ x ∈ done, x ∈ st.ordering)
    (l := terminalsOf pre newlisteners) (f := visit pre newlisteners (newlisteners.length + 1))
    (s := ⟨∅, []⟩)
    (by
      rintro done t rest st hsplit ⟨hm, hdone⟩
      have htmem : t ∈ terminalsOf pre newlisteners := by
        rw [hsplit]
        exact List.mem_append_right _ (List.mem_cons_self ..)
      have hcard : (newlisteners.toFinset \ st.visited).card < newlisteners.length + 1 := by
        have hle := Finset.card_le_card (Finset.sdiff_subset (s := newlisteners.toFinset)
          (t := st.visited))
        have hlen := newlisteners.toFinset_card_le
        omega
      obtain ⟨st', hvisit, hm', ht, hpre, -⟩ := visit_returns hacyc _ ∅ st t hm
        (mem_terminalsOf.mp htmem).1 (by simp) hcard
      refine ⟨st', hvisit, hm', ?_⟩
      intro x hx
      rcases List.mem_append.mp hx with hx | hx
      · exact hpre.subset (hdone x hx)
      · rw [List.mem_singleton.mp hx]
        exact ht)
    ⟨⟨List.nodup_nil, predClosed_nil, by simp, by simp, by simp⟩, by simp⟩
  refine ⟨st, hloop, hm.nodup, fun x => ⟨fun hx => ?_, fun hx => ?_⟩, hm.closed⟩
  · exact hm.sub x ((hm.visited x).mpr (.inl hx))
  · refine hm.closed.mem_of_terminals (List.finite_toSet newlisteners) hacyc ?_ hx
    exact fun t ht => hterm t (mem_terminalsOf.mpr ht)

/-- **One listener more.** -/
theorem addListener_ordered {I : IListener U T} {type : U} {added listeners : List T}
    (h : Ordered (ispre I type) {x | x ∈ added} listeners) (listener : T)
    (hacyc : Acyclic (fun i j => ispre I type i j = true) {x | x ∈ added ++ [listener]}) :
    ∃ listeners', addListener I type listeners listener = some listeners' ∧
      Ordered (ispre I type) {x | x ∈ added ++ [listener]} listeners' := by
  have hset : {x | x ∈ added ++ [listener]} = {x | x ∈ listeners ++ [listener]} := by
    ext x
    have hx := h.mem x
    simp only [Set.mem_ofPred_eq] at hx
    simp [hx]
  rw [hset] at hacyc ⊢
  -- there is a terminal, since the new listener leads to one
  have hmem : listener ∈ {x | x ∈ listeners ++ [listener]} := by simp
  obtain ⟨t, ht, -⟩ := hacyc.exists_terminal (finite_toSet (listeners ++ [listener])) hmem
  have hne : (terminalsOf (ispre I type) (listeners ++ [listener])).length ≠ 0 :=
    Nat.ne_of_gt (length_pos_of_mem (mem_terminalsOf.mpr ht))
  obtain ⟨st, hloop, hordered⟩ := visit_terminals hacyc
  unfold addListener
  rw [if_neg hne, hloop]
  exact ⟨st.ordering, rfl, hordered⟩

end Add

/-- The listeners after all of `added` have been added, in that order. -/
def getOrderedListeners (I : IListener U T) (type : U) (added : List T) : Option (List T) :=
  added.foldlM (addListener I type) []

/-- **Listener ordering.**  If nothing is before itself, then in whatever order
the listeners are added, each is there exactly once, and behind every other
that comes before it. -/
theorem ordered_listeners (I : IListener U T) (type : U) (added : List T) (hnodup : added.Nodup)
    (hacyc : Acyclic (fun i j => ispre I type i j = true) {x | x ∈ added}) :
    ∃ ordered, getOrderedListeners I type added = some ordered ∧ ordered.Perm added ∧
      ∀ i ∈ added, ∀ j ∈ added, ispre I type i j = true → ordered.idxOf i < ordered.idxOf j := by
  obtain ⟨ordered, hrun, h⟩ := foldlM_rule
    (fun done l => Ordered (ispre I type) {x | x ∈ done} l)
    (f := addListener I type) (l := added) (s := [])
    (by
      intro done listener rest l hsplit hl
      refine addListener_ordered hl listener (hacyc.mono fun x hx => ?_)
      rw [hsplit]
      simp only [Set.mem_ofPred_eq, List.mem_append, List.mem_cons] at hx ⊢
      tauto)
    ⟨List.nodup_nil, by simp, predClosed_nil⟩
  refine ⟨ordered, hrun, ?_, ?_⟩
  · exact (List.perm_ext_iff_of_nodup h.nodup hnodup).mpr h.mem
  · intro i hi j hj hij
    exact h.closed.idxOf_lt h.nodup ((h.mem j).mpr hj) hi hij

def someListeners : IListener Unit String where
  getName := id
  isCallbackOrderingPrereq := fun l _ name =>
    (l == "topology" && name == "linkdiscovery") || (l == "forwarding" && name == "topology")
  isCallbackOrderingPostreq := fun _ _ _ => false

theorem ordered_listeners_forwarding :
    ["forwarding", "linkdiscovery", "topology"].Nodup ∧
    Acyclic (fun i j => ispre someListeners () i j = true)
      {x | x ∈ ["forwarding", "linkdiscovery", "topology"]} ∧
    ∃ ordered, getOrderedListeners someListeners ()
        ["forwarding", "linkdiscovery", "topology"] = some ordered ∧
      ordered.idxOf "linkdiscovery" < ordered.idxOf "topology" ∧
      ordered.idxOf "topology" < ordered.idxOf "forwarding" := by
  have hnodup : ["forwarding", "linkdiscovery", "topology"].Nodup := by decide
  have hacyc : Acyclic (fun i j => ispre someListeners () i j = true)
      {x | x ∈ ["forwarding", "linkdiscovery", "topology"]} := by
    refine acyclic_of_lt ["linkdiscovery", "topology", "forwarding"].idxOf ?_
    intro i hi j hj
    simp only [Set.mem_ofPred_eq, List.mem_cons, List.not_mem_nil, or_false] at hi hj
    rcases hi with rfl | rfl | rfl <;> rcases hj with rfl | rfl | rfl <;> decide
  refine ⟨hnodup, hacyc, ?_⟩
  obtain ⟨ordered, hrun, -, hbefore⟩ := ordered_listeners someListeners ()
    ["forwarding", "linkdiscovery", "topology"] hnodup hacyc
  exact ⟨ordered, hrun, hbefore _ (by decide) _ (by decide) (by decide),
    hbefore _ (by decide) _ (by decide) (by decide)⟩

end NctuSdn
