/-
What the order of the stored versions does to a read.

Two nodes that hold the same versions of a key may hold them in different
orders.  `get` folds over the list twice: the clock resolver keeps one version
for each maximal clock, and the time-based resolver takes the latest of these
and merges all their clocks.  The merged clock does not depend on the order.
The value does: among versions with equal clocks the first one stays, and
among equal timestamps the first one wins.

A version *may win* when its clock is maximal and every maximal clock has a
version that is not later (`MayWin`).  Exactly these are the versions whose
value some order returns.
-/
import NctuSdn.Sync.Client

namespace NctuSdn

open List

variable {V : Type*}

/-! ### The clock resolver on any list -/

/-- One round of the outer loop of the clock resolver. -/
def resolveStep (newItems : List (Versioned V)) (v₁ : Versioned V) : List (Versioned V) :=
  match resolveInner v₁ newItems false with
  | (newItems', true) => newItems'
  | (newItems', false) => newItems' ++ [v₁]

variable {items : List (Versioned V)}

theorem vectorClockResolve_of_two_le (h : ¬ items.length ≤ 1) :
    vectorClockResolve items = items.foldl resolveStep [] := by
  unfold vectorClockResolve
  rw [if_neg h]
  rfl

section Step

variable {v₁ : Versioned V} {newItems : List (Versioned V)}

/-- Against versions that `v₁` does not exceed, the inner loop changes nothing
and looks for one that `v₁` is below. -/
theorem resolveInner_of_not_after
    (h : ∀ v₂ ∈ newItems, v₁.version.compare v₂.version ≠ .after) (found : Bool) :
    (resolveInner v₁ newItems found).1 = newItems ∧
      ((resolveInner v₁ newItems found).2 = true ↔
        found = true ∨ Below Versioned.rank newItems v₁.rank) := by
  induction newItems generalizing found with
  | nil => simp [resolveInner, Below]
  | cons v₂ newItems ih =>
    have htail := ih fun w hw => h w (mem_cons_of_mem _ hw)
    have hbelow : Below Versioned.rank (v₂ :: newItems) v₁.rank ↔
        v₁.rank ≤ v₂.rank ∨ Below Versioned.rank newItems v₁.rank := by
      simp [Below]
    rw [hbelow]
    unfold resolveInner
    cases hc : v₁.version.compare v₂.version with
    | after => exact absurd hc (h v₂ mem_cons_self)
    | before =>
      have hle : v₁.rank ≤ v₂.rank := VectorClock.compare_eq_before_iff.mp hc
      obtain ⟨hlist, hflag⟩ := htail true
      refine ⟨congrArg (v₂ :: ·) hlist, ?_⟩
      exact iff_of_true (hflag.mpr (.inl rfl)) (.inr (.inl hle))
    | concurrently =>
      have hle : ¬ v₁.rank ≤ v₂.rank := (VectorClock.compare_eq_concurrently_iff.mp hc).1
      obtain ⟨hlist, hflag⟩ := htail found
      refine ⟨congrArg (v₂ :: ·) hlist, hflag.trans ?_⟩
      rw [or_iff_right hle]

open Classical in
/-- A version that is below nothing evicts what it exceeds; the first one it
meets makes room for it. -/
theorem resolveInner_of_not_below (h : ¬ Below Versioned.rank newItems v₁.rank) :
    (resolveInner v₁ newItems true = (newItems.filter fun v₂ => ¬ v₂.rank ≤ v₁.rank, true)) ∧
    match resolveInner v₁ newItems false with
    | (items, true) => items.Perm (v₁ :: newItems.filter fun v₂ => ¬ v₂.rank ≤ v₁.rank)
    | (items, false) => items = newItems.filter fun v₂ => ¬ v₂.rank ≤ v₁.rank := by
  induction newItems with
  | nil => exact ⟨rfl, rfl⟩
  | cons v₂ newItems ih =>
    have hle : ¬ v₁.rank ≤ v₂.rank := fun hle => h ⟨v₂, mem_cons_self, hle⟩
    obtain ⟨htrue, hfalse⟩ := ih fun ⟨y, hy, hle⟩ => h ⟨y, mem_cons_of_mem _ hy, hle⟩
    unfold resolveInner
    cases hc : v₁.version.compare v₂.version with
    | before => exact absurd (VectorClock.compare_eq_before_iff.mp hc) hle
    | after =>
      have hge : v₂.rank ≤ v₁.rank := (VectorClock.compare_eq_after_iff.mp hc).1
      rw [filter_cons_of_neg (by simpa using hge), htrue]
      exact ⟨rfl, List.Perm.refl _⟩
    | concurrently =>
      have hge : ¬ v₂.rank ≤ v₁.rank := (VectorClock.compare_eq_concurrently_iff.mp hc).2
      rw [filter_cons_of_pos (by simpa using hge), htrue]
      refine ⟨rfl, ?_⟩
      rcases hr : resolveInner v₁ newItems false with ⟨items, _ | _⟩
      · rw [hr] at hfalse
        exact congrArg (v₂ :: ·) hfalse
      · rw [hr] at hfalse
        exact (hfalse.cons v₂).trans (.swap v₁ v₂ _)

/-- **A round of the clock resolver is an insertion into a frontier**, up to
the place of the new version. -/
theorem resolveStep_perm (h : Frontier Versioned.rank newItems) (v₁ : Versioned V) :
    (resolveStep newItems v₁).Perm (insertMax Versioned.rank newItems v₁) := by
  by_cases hb : Below Versioned.rank newItems v₁.rank
  · -- what is above `v₁` is above nothing else in the list, so nothing is evicted
    have hnot : ∀ w ∈ newItems, v₁.version.compare w.version ≠ .after := by
      intro w hw hc
      obtain ⟨hle, hnle⟩ := VectorClock.compare_eq_after_iff.mp hc
      obtain ⟨v₂, hv₂, hbv⟩ := hb
      obtain rfl := h.eq_of_le hw hv₂ (hle.trans hbv)
      exact hnle hbv
    obtain ⟨hlist, hflag⟩ := resolveInner_of_not_after hnot false
    have hres : resolveInner v₁ newItems false = (newItems, true) :=
      Prod.ext hlist (hflag.mpr (.inr hb))
    rw [insertMax_of_below hb]
    unfold resolveStep
    rw [hres]
  · obtain ⟨-, hres⟩ := resolveInner_of_not_below hb
    rw [insertMax_of_not_below hb]
    unfold resolveStep
    rcases hr : resolveInner v₁ newItems false with ⟨items, _ | _⟩
    · rw [hr] at hres
      rw [hres]
    · rw [hr] at hres
      refine hres.trans ((perm_append_singleton _ _).symm.trans (List.Perm.of_eq ?_))
      congr

theorem head?_resolveStep {m : Versioned V} (h : m.rank ≤ v₁.rank → v₁.rank ≤ m.rank) :
    (resolveStep (m :: newItems) v₁).head? = some m := by
  unfold resolveStep resolveInner
  cases hc : v₁.version.compare m.version with
  | after =>
    obtain ⟨hle, hnle⟩ := VectorClock.compare_eq_after_iff.mp hc
    exact absurd (h hle) hnle
  | before | concurrently =>
    split
    next heq => rw [← (Prod.mk.inj heq).1, List.head?_cons]
    next heq => rw [← (Prod.mk.inj heq).1, cons_append, List.head?_cons]

end Step

/-! ### The outer loop -/

/-- What the outer loop has made of the versions it has passed. -/
structure Resolved (items newItems : List (Versioned V)) : Prop where
  frontier : Frontier Versioned.rank newItems
  subset : ∀ v ∈ newItems, v ∈ items
  covered : ∀ v ∈ items, Below Versioned.rank newItems v.rank

theorem Resolved.nil : Resolved ([] : List (Versioned V)) [] where
  frontier := List.Pairwise.nil
  subset _ hv := hv
  covered _ hv := absurd hv not_mem_nil

section

variable {items newItems : List (Versioned V)} (h : Resolved items newItems)
include h

theorem Resolved.step (v₁ : Versioned V) : Resolved (items ++ [v₁]) (resolveStep newItems v₁) := by
  have hperm := resolveStep_perm h.frontier v₁
  have hbelow : ∀ b, Below Versioned.rank (resolveStep newItems v₁) b ↔
      Below Versioned.rank newItems b ∨ b ≤ v₁.rank := by
    intro b
    rw [← below_insertMax]
    exact exists_congr fun y => and_congr_left' hperm.mem_iff
  refine ⟨?_, ?_, ?_⟩
  · exact hperm.symm.pairwise (frontier_insertMax h.frontier v₁) fun h => h.symm
  · intro v hv
    rcases mem_of_mem_insertMax (hperm.mem_iff.mp hv) with hv | rfl
    · exact mem_append_left _ (h.subset v hv)
    · exact mem_append_right _ (mem_singleton_self _)
  · intro v hv
    rw [hbelow]
    rcases mem_append.mp hv with hv | hv
    · exact .inl (h.covered v hv)
    · rw [mem_singleton.mp hv]
      exact .inr le_rfl

theorem Resolved.foldl (rest : List (Versioned V)) :
    Resolved (items ++ rest) (rest.foldl resolveStep newItems) := by
  induction rest generalizing items newItems with
  | nil => rwa [append_nil]
  | cons v rest ih =>
    have hrest := ih (h.step v)
    rwa [append_assoc, singleton_append] at hrest

end

theorem Resolved.of_length_le (h : items.length ≤ 1) : Resolved items items := by
  refine ⟨?_, fun _ hv => hv, fun v hv => ⟨v, hv, le_rfl⟩⟩
  rcases items with - | ⟨v, - | ⟨w, rest⟩⟩
  · exact List.Pairwise.nil
  · exact pairwise_singleton _ _
  · exact absurd h (by simp)

theorem resolved_vectorClockResolve (items : List (Versioned V)) :
    Resolved items (vectorClockResolve items) := by
  by_cases h : items.length ≤ 1
  · unfold vectorClockResolve
    rw [if_pos h]
    exact .of_length_le h
  · rw [vectorClockResolve_of_two_le h]
    exact Resolved.nil.foldl items

/-- **Conflict filtering is sound and complete**: the clock resolver returns versions of
the list that are pairwise concurrent, and every version of the list is at or below one of
them. -/
theorem conflicts_filtered (items : List (Versioned V)) :
    (∀ v ∈ vectorClockResolve items, v ∈ items) ∧
      (vectorClockResolve items).Pairwise (fun v w =>
        v.version.compare w.version = .concurrently ∧
          w.version.compare v.version = .concurrently) ∧
      ∀ v ∈ items, ∃ w ∈ vectorClockResolve items, v.version.compare w.version = .before := by
  have h := resolved_vectorClockResolve items
  refine ⟨h.subset, h.frontier.concurrently, fun v hv => ?_⟩
  obtain ⟨w, hw, hle⟩ := h.covered v hv
  exact ⟨w, hw, VectorClock.compare_eq_before_iff.mpr hle⟩

theorem head?_foldl_resolveStep {m : Versioned V} {rest : List (Versioned V)}
    (h : ∀ v ∈ rest, m.rank ≤ v.rank → v.rank ≤ m.rank) {newItems : List (Versioned V)}
    (hhead : newItems.head? = some m) :
    (rest.foldl resolveStep newItems).head? = some m := by
  induction rest generalizing newItems with
  | nil => exact hhead
  | cons v rest ih =>
    obtain ⟨newItems, rfl⟩ := List.head?_eq_some_iff.mp hhead
    exact ih (fun w hw => h w (mem_cons_of_mem _ hw))
      (head?_resolveStep (h v mem_cons_self))

theorem foldl_resolveStep_of_below {newItems rest : List (Versioned V)}
    (hf : Frontier Versioned.rank newItems) (h : ∀ v ∈ rest, Below Versioned.rank newItems v.rank) :
    (rest.foldl resolveStep newItems).Perm newItems := by
  induction rest generalizing newItems with
  | nil => exact .refl _
  | cons v rest ih =>
    have hperm := resolveStep_perm hf v
    rw [insertMax_of_below (h v mem_cons_self)] at hperm
    refine (ih (hperm.symm.pairwise hf fun h => h.symm) fun w hw => ?_).trans hperm
    obtain ⟨y, hy, hle⟩ := h w (mem_cons_of_mem _ hw)
    exact ⟨y, hperm.mem_iff.mpr hy, hle⟩

/-! ### The time-based resolver -/

/-- The loop returns a latest version, and the least upper bound of the
clocks. -/
theorem timeBasedLoop_spec (now : ℤ) (items : List (Versioned V)) (max : Versioned V)
    (maxClock : VectorClock) :
    let r := timeBasedLoop now items max maxClock
    r.1 ∈ max :: items ∧ (∀ v ∈ max :: items, v.version.timestamp ≤ r.1.version.timestamp) ∧
      ∀ b, r.2.versionAt ≤ b ↔ maxClock.versionAt ≤ b ∧ ∀ v ∈ items, v.rank ≤ b := by
  induction items generalizing max maxClock with
  | nil => simp [timeBasedLoop]
  | cons x items ih =>
    obtain ⟨hmem, hlatest, hclock⟩ := ih
      (if max.version.timestamp < x.version.timestamp then x else max)
      (maxClock.merge x.version now)
    unfold timeBasedLoop
    refine ⟨?_, ?_, ?_⟩
    · rcases mem_cons.mp hmem with heq | hmem
      · rw [heq]
        split
        · exact mem_cons_of_mem _ mem_cons_self
        · exact mem_cons_self
      · exact mem_cons_of_mem _ (mem_cons_of_mem _ hmem)
    · have hhead := hlatest _ mem_cons_self
      have hlater : max.version.timestamp ≤
          (if max.version.timestamp < x.version.timestamp then x else max).version.timestamp ∧
          x.version.timestamp ≤
          (if max.version.timestamp < x.version.timestamp then x else max).version.timestamp := by
        split <;> omega
      intro v hv
      rcases mem_cons.mp hv with rfl | hv
      · exact hlater.1.trans hhead
      · rcases mem_cons.mp hv with rfl | hv
        · exact hlater.2.trans hhead
        · exact hlatest v (mem_cons_of_mem _ hv)
    · intro b
      have hmerge : (maxClock.merge x.version now).versionAt ≤ b ↔
          maxClock.versionAt ≤ b ∧ x.rank ≤ b := by
        simp only [Pi.le_def, VectorClock.merge_versionAt, sup_le_iff, forall_and,
          Versioned.rank]
      rw [hclock, hmerge, and_assoc, forall_mem_cons]

theorem timeBasedLoop_fst_of_latest (now : ℤ) {max : Versioned V}
    (h : ∀ v ∈ items, v.version.timestamp ≤ max.version.timestamp) (maxClock : VectorClock) :
    (timeBasedLoop now items max maxClock).1 = max := by
  induction items generalizing maxClock with
  | nil => rfl
  | cons x items ih =>
    unfold timeBasedLoop
    rw [if_neg (h x mem_cons_self).not_gt]
    exact ih (fun v hv => h v (mem_cons_of_mem _ hv)) _

/-! ### Which versions can win -/

/-- Nothing among the items has a later clock. -/
def MaximalClock (items : List (Versioned V)) (m : Versioned V) : Prop :=
  m ∈ items ∧ ∀ v ∈ items, m.rank ≤ v.rank → v.rank ≤ m.rank

/-- The clock of `m` is maximal, and every maximal clock has a version that is
not later than `m`. -/
def MayWin (items : List (Versioned V)) (m : Versioned V) : Prop :=
  MaximalClock items m ∧ ∀ v, MaximalClock items v →
    ∃ x ∈ items, x.rank = v.rank ∧ x.version.timestamp ≤ m.version.timestamp

section

variable {items items' : List (Versioned V)} (h : items.Perm items') {m : Versioned V}
include h

theorem MaximalClock.perm (hm : MaximalClock items m) : MaximalClock items' m :=
  ⟨h.mem_iff.mp hm.1, fun v hv => hm.2 v (h.mem_iff.mpr hv)⟩

theorem MayWin.perm (hm : MayWin items m) : MayWin items' m := by
  refine ⟨hm.1.perm h, fun v hv => ?_⟩
  obtain ⟨x, hx, hrank, hts⟩ := hm.2 v (hv.perm h.symm)
  exact ⟨x, h.mem_iff.mp hx, hrank, hts⟩

end

section

variable {items newItems : List (Versioned V)} (h : Resolved items newItems)
include h

theorem Resolved.maximalClock {m : Versioned V} (hm : m ∈ newItems) : MaximalClock items m := by
  refine ⟨h.subset m hm, fun v hv hle => ?_⟩
  obtain ⟨y, hy, hvy⟩ := h.covered v hv
  obtain rfl := h.frontier.eq_of_le hm hy (hle.trans hvy)
  exact hvy

theorem Resolved.exists_rank_eq {v : Versioned V} (hv : MaximalClock items v) :
    ∃ y ∈ newItems, y.rank = v.rank := by
  obtain ⟨y, hy, hvy⟩ := h.covered v hv.1
  exact ⟨y, hy, le_antisymm (hv.2 y (h.subset y hy) hvy) hvy⟩

theorem Resolved.mayWin {m : Versioned V} (hm : m ∈ newItems)
    (hlatest : ∀ v ∈ newItems, v.version.timestamp ≤ m.version.timestamp) : MayWin items m := by
  refine ⟨h.maximalClock hm, fun v hv => ?_⟩
  obtain ⟨y, hy, hrank⟩ := h.exists_rank_eq hv
  exact ⟨y, h.subset y hy, hrank, hlatest y hy⟩

end

/-! ### What a read returns -/

/-- The answer of a read: its clock is the least upper bound of the stored
ones, its value that of a version that may win. -/
structure Answers (items : List (Versioned V)) (r : Versioned V) : Prop where
  clock : ∀ b, r.rank ≤ b ↔ ∀ v ∈ items, v.rank ≤ b
  value : ∃ m, MayWin items m ∧ r.value = m.value

section

variable {items newItems : List (Versioned V)} (h : Resolved items newItems)
include h

theorem Resolved.upperBound_iff (b : ℕ → ℕ) :
    (∀ v ∈ newItems, v.rank ≤ b) ↔ ∀ v ∈ items, v.rank ≤ b := by
  constructor
  · intro hnew v hv
    obtain ⟨y, hy, hle⟩ := h.covered v hv
    exact hle.trans (hnew y hy)
  · exact fun hall v hv => hall v (h.subset v hv)

/-- The time-based resolver, or its absence, turns the kept versions into one
answer. -/
theorem Resolved.answers (hne : items ≠ []) (now : ℤ) :
    ∃ r, (if newItems.length ≤ 1 then newItems else timeBasedResolve now newItems) = [r] ∧
      Answers items r := by
  match newItems, h with
  | [], h =>
    obtain ⟨v, hv⟩ := exists_mem_of_ne_nil items hne
    obtain ⟨y, hy, -⟩ := h.covered v hv
    exact absurd hy not_mem_nil
  | [r], h =>
    refine ⟨r, rfl, fun b => ?_, r, ?_, rfl⟩
    · rw [← h.upperBound_iff b, forall_mem_singleton]
    · refine h.mayWin (mem_singleton_self r) fun v hv => ?_
      rw [mem_singleton.mp hv]
  | v :: w :: rest, h =>
    obtain ⟨hmem, hlatest, hclock⟩ := timeBasedLoop_spec now (v :: w :: rest) v v.version
    have hwin : MayWin items (timeBasedLoop now (v :: w :: rest) v v.version).1 := by
      refine h.mayWin ?_ fun x hx => hlatest x (mem_cons_of_mem _ hx)
      rcases mem_cons.mp hmem with heq | hmem
      · rw [heq]
        exact mem_cons_self
      · exact hmem
    rw [if_neg (by simp)]
    refine ⟨_, rfl, fun b => ?_, _, hwin, rfl⟩
    rw [← h.upperBound_iff b]
    refine (hclock b).trans (and_iff_right_of_imp fun hall => ?_)
    exact hall v mem_cons_self

end

theorem clientGet_of_resolved {now : ℤ} {items : List (Versioned (Option V))}
    {r : Versioned (Option V)} (h : resolveConflicts now items = [r]) :
    clientGet now (some items) = .ok r := by
  unfold clientGet
  rw [show stored (some items) = items from rfl, h]

/-- **A read of a stored key** succeeds; its clock is the join of the stored
ones and its value comes from a version that may win. -/
theorem clientGet_spec (now : ℤ) {items : List (Versioned (Option V))} (hne : items ≠ []) :
    ∃ r, clientGet now (some items) = .ok r ∧ Answers items r := by
  have hres : ∃ r, resolveConflicts now items = [r] ∧ Answers items r := by
    unfold resolveConflicts
    by_cases hlen : items.length ≤ 1
    · -- a single version passes both resolvers untouched
      obtain ⟨r, hr, hanswers⟩ := (Resolved.of_length_le hlen).answers hne now
      rw [if_pos hlen] at hr ⊢
      exact ⟨r, hr, hanswers⟩
    · rw [if_neg hlen]
      exact (resolved_vectorClockResolve items).answers hne now
  obtain ⟨r, hr, hanswers⟩ := hres
  refine ⟨r, ?_, hanswers⟩
  exact clientGet_of_resolved hr

/-! ### Every version that may win does so in some order -/

section Order

variable {items : List (Versioned (Option V))} {m : Versioned (Option V)}

/-- The order in which `m` wins: `m`, then the versions that are not later than
`m`, then the others. -/
def favouring [DecidableEq V] (items : List (Versioned (Option V))) (m : Versioned (Option V)) :
    List (Versioned (Option V)) :=
  m :: ((items.erase m).filter (fun v => v.version.timestamp ≤ m.version.timestamp) ++
    (items.erase m).filter (fun v => !decide (v.version.timestamp ≤ m.version.timestamp)))

theorem favouring_perm [DecidableEq V] (hm : m ∈ items) : (favouring items m).Perm items := by
  have hsplit := filter_append_perm
    (fun v : Versioned (Option V) => decide (v.version.timestamp ≤ m.version.timestamp))
    (items.erase m)
  exact (hsplit.cons m).trans (perm_cons_erase hm).symm

/-- In that order the clock resolver leaves `m` in front, and no version that
is later. -/
theorem resolved_favouring [DecidableEq V] (h : MayWin items m) :
    ((favouring items m).foldl resolveStep []).head? = some m ∧
      ∀ v ∈ (favouring items m).foldl resolveStep [],
        v.version.timestamp ≤ m.version.timestamp := by
  have hperm := favouring_perm h.1.1
  have hmax : ∀ v ∈ favouring items m, m.rank ≤ v.rank → v.rank ≤ m.rank := fun v hv =>
    h.1.2 v (hperm.mem_iff.mp hv)
  set early := (items.erase m).filter fun v => v.version.timestamp ≤ m.version.timestamp
  set late := (items.erase m).filter fun v => !decide (v.version.timestamp ≤ m.version.timestamp)
  have hsplit : favouring items m = (m :: early) ++ late := rfl
  have hstart : resolveStep [] m = [m] := rfl
  have hearly := Resolved.nil.foldl (m :: early)
  rw [nil_append] at hearly
  -- what is not later than `m` already has a version for each maximal clock
  have hcovered : ∀ v ∈ late, Below Versioned.rank ((m :: early).foldl resolveStep []) v.rank := by
    intro v hv
    have hall := Resolved.nil.foldl items
    rw [nil_append] at hall
    have hitems : v ∈ items := hperm.mem_iff.mp (hsplit ▸ mem_append_right _ hv)
    obtain ⟨y, hy, hvy⟩ := hall.covered v hitems
    obtain ⟨x, hx, hrank, hts⟩ := h.2 y (hall.maximalClock hy)
    have hxearly : x ∈ m :: early := by
      rcases eq_or_ne x m with rfl | hne
      · exact mem_cons_self
      · refine mem_cons_of_mem _ (mem_filter.mpr ⟨?_, decide_eq_true hts⟩)
        exact (mem_erase_of_ne hne).mpr hx
    obtain ⟨z, hz, hxz⟩ := hearly.covered x hxearly
    exact ⟨z, hz, hvy.trans (hrank ▸ hxz)⟩
  have hlate := foldl_resolveStep_of_below hearly.frontier hcovered
  rw [hsplit, foldl_append]
  constructor
  · have hhead : ((m :: early).foldl resolveStep []).head? = some m := by
      rw [foldl_cons, hstart]
      refine head?_foldl_resolveStep (fun v hv => ?_) rfl
      exact hmax v (hsplit ▸ mem_append_left _ (mem_cons_of_mem _ hv))
    refine head?_foldl_resolveStep (fun v hv => ?_) hhead
    exact hmax v (hsplit ▸ mem_append_right _ hv)
  · intro v hv
    rcases mem_cons.mp (hearly.subset v (hlate.mem_iff.mp hv)) with rfl | hv
    · exact le_rfl
    · exact of_decide_eq_true (mem_filter.mp hv).2

/-- **A version that may win does**, in some order of the versions. -/
theorem clientGet_of_mayWin [DecidableEq V] (h : MayWin items m) (now : ℤ) :
    ∃ r, clientGet now (some (favouring items m)) = .ok r ∧ r.value = m.value := by
  obtain ⟨hhead, hlatest⟩ := resolved_favouring h
  obtain ⟨rest, hrest⟩ := List.head?_eq_some_iff.mp hhead
  have hres : ∃ r, resolveConflicts now (favouring items m) = [r] ∧ r.value = m.value := by
    unfold resolveConflicts
    split
    next hle =>
      refine ⟨m, ?_, rfl⟩
      unfold favouring at hle ⊢
      rw [length_cons] at hle
      rw [eq_nil_of_length_eq_zero (Nat.le_zero.mp (Nat.le_of_succ_le_succ hle))]
    next hlen =>
      rw [vectorClockResolve_of_two_le hlen, hrest]
      match rest, hrest with
      | [], _ => exact ⟨m, rfl, rfl⟩
      | w :: rest, hrest =>
        have hwin := timeBasedLoop_fst_of_latest now (fun v hv => hlatest v (hrest ▸ hv))
          m.version
        rw [if_neg (by simp)]
        refine ⟨_, rfl, ?_⟩
        show (timeBasedLoop now (m :: w :: rest) m m.version).1.value = m.value
        rw [hwin]
  obtain ⟨r, hr, hvalue⟩ := hres
  exact ⟨r, clientGet_of_resolved hr, hvalue⟩

end Order

/-! ### Replicas with the same versions -/

/-- Two reads return the same value under the same clock entries. -/
def SameAnswer (r₁ r₂ : Except SyncError (Versioned (Option V))) : Prop :=
  ∃ a₁ a₂, r₁ = .ok a₁ ∧ r₂ = .ok a₂ ∧ a₁.key = a₂.key

theorem Answers.versions_eq {items' : List (Versioned V)} (h : items.Perm items')
    {r r' : Versioned V} (hr : Answers items r) (hr' : Answers items' r') :
    r.version.versions = r'.version.versions := by
  have hall : ∀ b, (∀ v ∈ items, v.rank ≤ b) ↔ ∀ v ∈ items', v.rank ≤ b := fun b =>
    forall_congr' fun v => imp_congr_left h.mem_iff
  apply VectorClock.versions_ext
  apply le_antisymm
  · exact (hr.clock _).mpr ((hall _).mpr ((hr'.clock _).mp le_rfl))
  · exact (hr'.clock _).mpr ((hall _).mp ((hr.clock _).mp le_rfl))

/-- **Replicas that hold the same versions answer alike**, whatever the two
orders and times of reading, exactly if all versions that may win have the same
value. -/
theorem reads_agree_iff (items : List (Versioned (Option V))) :
    (∀ l₁ l₂ : List (Versioned (Option V)), l₁.Perm items → l₂.Perm items → ∀ now₁ now₂ : ℤ,
      SameAnswer (clientGet now₁ (some l₁)) (clientGet now₂ (some l₂))) ↔
    ∀ m m', MayWin items m → MayWin items m' → m.value = m'.value := by
  classical
  constructor
  · intro h m m' hm hm'
    obtain ⟨r, hr, hvalue⟩ := clientGet_of_mayWin hm 0
    obtain ⟨r', hr', hvalue'⟩ := clientGet_of_mayWin hm' 0
    obtain ⟨a, a', ha, ha', hkey⟩ :=
      h _ _ (favouring_perm hm.1.1) (favouring_perm hm'.1.1) 0 0
    rw [hr] at ha
    rw [hr'] at ha'
    cases ha
    cases ha'
    rw [← hvalue, ← hvalue']
    exact congrArg Prod.snd hkey
  · intro h l₁ l₂ h₁ h₂ now₁ now₂
    rcases eq_or_ne items [] with rfl | hne
    · rw [h₁.eq_nil, h₂.eq_nil]
      exact ⟨emptyVersioned, emptyVersioned, rfl, rfl, rfl⟩
    · have hne₁ : l₁ ≠ [] := fun hnil => hne (hnil ▸ h₁).nil_eq.symm
      have hne₂ : l₂ ≠ [] := fun hnil => hne (hnil ▸ h₂).nil_eq.symm
      obtain ⟨r₁, hr₁, hans₁⟩ := clientGet_spec now₁ hne₁
      obtain ⟨r₂, hr₂, hans₂⟩ := clientGet_spec now₂ hne₂
      obtain ⟨m₁, hm₁, hvalue₁⟩ := hans₁.value
      obtain ⟨m₂, hm₂, hvalue₂⟩ := hans₂.value
      have hvalue : r₁.value = r₂.value := by
        rw [hvalue₁, hvalue₂]
        exact h m₁ m₂ (hm₁.perm h₁) (hm₂.perm h₂)
      exact ⟨r₁, r₂, hr₁, hr₂, Prod.ext (hans₁.versions_eq (h₁.trans h₂.symm) hans₂) hvalue⟩

/-- Nodes 1 and 2 have written the key without knowing of each other, in the
same millisecond. -/
def sameMillisecond : List (Versioned (Option ℕ)) :=
  [⟨some 7, .single 1 0 5⟩, ⟨some 8, .single 2 0 5⟩]

/-- Each node reads back its own value. -/
theorem reads_differ_sameMillisecond :
    sameMillisecond.reverse.Perm sameMillisecond ∧ sameMillisecond.Nodup ∧
    ¬ SameAnswer (clientGet 6 (some sameMillisecond))
      (clientGet 6 (some sameMillisecond.reverse)) := by
  refine ⟨reverse_perm _, by decide, ?_⟩
  rintro ⟨a₁, a₂, h₁, h₂, hkey⟩
  have hvalue₁ : (clientGet 6 (some sameMillisecond)).map Versioned.value = .ok (some 7) := by
    decide +kernel
  have hvalue₂ : (clientGet 6 (some sameMillisecond.reverse)).map Versioned.value =
      .ok (some 8) := by
    decide +kernel
  rw [h₁] at hvalue₁
  rw [h₂] at hvalue₂
  have hseven : a₁.value = some 7 := Except.ok.inj hvalue₁
  have height : a₂.value = some 8 := Except.ok.inj hvalue₂
  have hsame : a₁.value = a₂.value := congrArg Prod.snd hkey
  rw [hseven, height] at hsame
  cases hsame

end NctuSdn
