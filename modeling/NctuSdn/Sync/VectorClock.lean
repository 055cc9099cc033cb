/-
Vector clocks of the sync service (`ClockEntry`, `VectorClock`,
`IVersion.Occurred`).

A clock is a list of `(nodeId, version)` entries sorted by node id, plus the
wall-clock time of its last update; nodes that are not listed are implicitly
at zero.  The three operations walk the sorted lists the way the source does:
`incremented` stops at the first node id that is not smaller, `merge` and
`compare` advance two cursors.

What a clock *means* is the function `versionAt : VectorClock → ℕ → ℕ` (the version
of each node).  Main results, one specification per operation:

* `incremented_versionAt` — one more at the node, unchanged elsewhere;
* `merge_versionAt` — the pointwise maximum;
* `compare_eq_before_iff`, `compare_eq_after_iff` — the pointwise order, with
  equal clocks reported as `before`;
* `clocks_form_lattice` — for the clocks that increments and merges can make, all of
  these together.

Timestamps take no part in any of them.
-/
import Mathlib.Algebra.Ring.Nat
import Mathlib.Data.List.Pairwise
import Mathlib.Data.List.Perm.Subperm
import Mathlib.Order.Lattice

namespace NctuSdn

open List

/-! ### Errors and entries -/

/-- The exceptions the sync service raises on the paths modelled here. -/
inductive SyncError
  | illegalArgument
  | illegalState
  | obsoleteVersion
  | inconsistentData
deriving DecidableEq, Repr

/-- The outcome of comparing two versions. -/
inductive Occurred
  | before
  | after
  | concurrently
deriving DecidableEq, Repr

/-- One entry of a clock.  The constructor of the source rejects negative node
ids and versions below one; a node id is a `short`, a version a `long`. -/
structure ClockEntry where
  nodeId : ℕ
  version : ℕ
  nodeId_le : nodeId ≤ 32767
  one_le : 1 ≤ version
  version_lt : version < 2 ^ 63
deriving DecidableEq

/-- The entry after one more write.  At `Long.MAX_VALUE` the sum wraps to a
negative version, which the constructor rejects. -/
def ClockEntry.incremented (e : ClockEntry) : Except SyncError ClockEntry :=
  if h : e.version + 1 < 2 ^ 63 then
    .ok ⟨e.nodeId, e.version + 1, e.nodeId_le, by omega, h⟩
  else .error .illegalArgument

/-- The entry of `e`'s node at the larger of the two versions. -/
def ClockEntry.max (e f : ClockEntry) : ClockEntry where
  nodeId := e.nodeId
  version := e.version ⊔ f.version
  nodeId_le := e.nodeId_le
  one_le := e.one_le.trans le_sup_left
  version_lt := max_lt e.version_lt f.version_lt

/-! ### Entry lists -/

/-- Node ids increase strictly along the list. -/
def SortedEntries (l : List ClockEntry) : Prop :=
  l.Pairwise fun e f => e.nodeId < f.nodeId

/-- The version a list of entries gives to a node, zero when it is not listed. -/
def versionOf : List ClockEntry → ℕ → ℕ
  | [], _ => 0
  | e :: es, n => if e.nodeId = n then e.version else versionOf es n

@[simp] theorem versionOf_nil (n : ℕ) : versionOf [] n = 0 := rfl

theorem versionOf_cons (e : ClockEntry) (es : List ClockEntry) (n : ℕ) :
    versionOf (e :: es) n = if e.nodeId = n then e.version else versionOf es n := rfl

theorem versionOf_cons_self (e : ClockEntry) (es : List ClockEntry) :
    versionOf (e :: es) e.nodeId = e.version := by
  rw [versionOf_cons, if_pos rfl]

variable {e : ClockEntry} {n : ℕ} {l l₁ l₂ : List ClockEntry}

theorem versionOf_cons_ne (h : e.nodeId ≠ n) (es : List ClockEntry) :
    versionOf (e :: es) n = versionOf es n := by
  rw [versionOf_cons, if_neg h]

theorem versionOf_eq_zero (h : ∀ e ∈ l, n < e.nodeId) : versionOf l n = 0 := by
  induction l with
  | nil => rfl
  | cons e es ih =>
    have he : e.nodeId ≠ n := (h e (by simp)).ne'
    rw [versionOf_cons_ne he]
    exact ih fun f hf => h f (by simp [hf])

section

variable {e : ClockEntry} {es : List ClockEntry}

theorem SortedEntries.tail (h : SortedEntries (e :: es)) : SortedEntries es :=
  (pairwise_cons.mp h).2

theorem SortedEntries.head_lt (h : SortedEntries (e :: es)) : ∀ f ∈ es, e.nodeId < f.nodeId :=
  (pairwise_cons.mp h).1

theorem SortedEntries.lt_of_lt_head {n : ℕ} (h : SortedEntries (e :: es)) (hn : n < e.nodeId) :
    ∀ f ∈ e :: es, n < f.nodeId := by
  intro f hf
  rcases mem_cons.mp hf with rfl | hf
  · exact hn
  · exact hn.trans (h.head_lt f hf)

/-- The first node of one list is not below all of another that gives the same
versions: it would be listed on one side only. -/
theorem not_lt_of_versionOf_eq {m : List ClockEntry}
    (h : ∀ n, versionOf (e :: es) n = versionOf m n) : ¬ ∀ f ∈ m, e.nodeId < f.nodeId := by
  intro hlt
  have he := h e.nodeId
  rw [versionOf_cons_self, versionOf_eq_zero hlt] at he
  have := e.one_le
  omega

end

theorem SortedEntries.ext {m : List ClockEntry} (hl : SortedEntries l) (hm : SortedEntries m)
    (h : ∀ n, versionOf l n = versionOf m n) : l = m := by
  induction l generalizing m with
  | nil =>
    cases m with
    | nil => rfl
    | cons f fs =>
      exact absurd (forall_mem_nil _) (not_lt_of_versionOf_eq fun n => (h n).symm)
  | cons e es ih =>
    cases m with
    | nil => exact absurd (forall_mem_nil _) (not_lt_of_versionOf_eq h)
    | cons f fs =>
      -- the smaller of two ids would have a version in one list only
      have hid : e.nodeId = f.nodeId := by
        rcases lt_trichotomy e.nodeId f.nodeId with hlt | heq | hgt
        · exact absurd (hm.lt_of_lt_head hlt) (not_lt_of_versionOf_eq h)
        · exact heq
        · exact absurd (hl.lt_of_lt_head hgt) (not_lt_of_versionOf_eq fun n => (h n).symm)
      have hver : e.version = f.version := by
        have he := h e.nodeId
        rw [versionOf_cons_self, hid, versionOf_cons_self] at he
        exact he
      have hef : e = f := by
        cases e
        cases f
        simp_all
      subst hef
      congr 1
      refine ih hl.tail hm.tail fun n => ?_
      by_cases hn : e.nodeId = n
      · subst hn
        rw [versionOf_eq_zero hl.head_lt, versionOf_eq_zero hm.head_lt]
      · have hn' := h n
        rwa [versionOf_cons_ne hn, versionOf_cons_ne hn] at hn'

/-! ### The walks of the three operations -/

def maxNumberOfVersions : ℕ := 32767

/-- The loop of `incremented` together with the update at the index where it
stops: a found entry is replaced by its successor, otherwise a new entry is
added in front of the first larger node id.  `full` is the size check of the
source, which is made unless the index is below `size - 1`. -/
def incrementedLoop (full : Bool) (new : ClockEntry) :
    List ClockEntry → Except SyncError (List ClockEntry)
  | [] => if full then .error .illegalState else .ok [new]
  | e :: es =>
    if e.nodeId = new.nodeId then e.incremented.map (· :: es)
    else if new.nodeId < e.nodeId then
      -- the last index is not below `size - 1`, so the check is made there too
      if es.isEmpty && full then .error .illegalState else .ok (new :: e :: es)
    else (incrementedLoop full new es).map (e :: ·)

/-- The loop of `merge`, with the leftovers of either list at the end. -/
def mergeLoop : List ClockEntry → List ClockEntry → List ClockEntry
  | [], l₂ => l₂
  | l₁, [] => l₁
  | e₁ :: es₁, e₂ :: es₂ =>
    if e₁.nodeId = e₂.nodeId then e₁.max e₂ :: mergeLoop es₁ es₂
    else if e₁.nodeId < e₂.nodeId then e₁ :: mergeLoop es₁ (e₂ :: es₂)
    else e₂ :: mergeLoop (e₁ :: es₁) es₂
termination_by l₁ l₂ => l₁.length + l₂.length

/-- The loop of `compare`, with the check for leftovers: the flags say whether
the first and the second clock have been seen to be bigger somewhere. -/
def compareLoop : List ClockEntry → List ClockEntry → Bool → Bool → Bool × Bool
  | [], [], b₁, b₂ => (b₁, b₂)
  | _ :: _, [], _, b₂ => (true, b₂)
  | [], _ :: _, b₁, _ => (b₁, true)
  | e₁ :: es₁, e₂ :: es₂, b₁, b₂ =>
    if e₁.nodeId = e₂.nodeId then
      compareLoop es₁ es₂ (b₁ || decide (e₂.version < e₁.version))
        (b₂ || decide (e₁.version < e₂.version))
    else if e₂.nodeId < e₁.nodeId then compareLoop (e₁ :: es₁) es₂ b₁ true
    else compareLoop es₁ (e₂ :: es₂) true b₂
termination_by l₁ l₂ => l₁.length + l₂.length

/-! #### Incrementing -/

theorem ClockEntry.incremented_ok {e' : ClockEntry} (h : e.incremented = .ok e') :
    e'.nodeId = e.nodeId ∧ e'.version = e.version + 1 := by
  unfold ClockEntry.incremented at h
  split at h
  · cases h
    exact ⟨rfl, rfl⟩
  · cases h

variable {l' : List ClockEntry}

theorem incrementedLoop_cons_ok {full : Bool} {new : ClockEntry} {es : List ClockEntry}
    (h : incrementedLoop full new (e :: es) = .ok l') :
    (e.nodeId = new.nodeId ∧ ∃ e', e.incremented = .ok e' ∧ l' = e' :: es) ∨
    (new.nodeId < e.nodeId ∧ l' = new :: e :: es) ∨
    (e.nodeId < new.nodeId ∧ ∃ es', incrementedLoop full new es = .ok es' ∧ l' = e :: es') := by
  unfold incrementedLoop at h
  split at h
  · rename_i heq
    cases hi : e.incremented with
    | error err => rw [hi] at h; cases h
    | ok e' =>
      rw [hi] at h
      cases h
      exact .inl ⟨heq, e', rfl, rfl⟩
  · rename_i hne
    split at h
    · rename_i hlt
      split at h
      · cases h
      · cases h
        exact .inr (.inl ⟨hlt, rfl⟩)
    · rename_i hnlt
      cases hi : incrementedLoop full new es with
      | error err => rw [hi] at h; cases h
      | ok es' =>
        rw [hi] at h
        cases h
        exact .inr (.inr ⟨by omega, es', rfl, rfl⟩)

theorem incrementedLoop_nil_ok {full : Bool} {new : ClockEntry}
    (h : incrementedLoop full new [] = .ok l') : l' = [new] := by
  unfold incrementedLoop at h
  split at h <;> cases h
  rfl

section

variable {full : Bool} {new : ClockEntry} {l : List ClockEntry}

theorem incrementedLoop_lt {b : ℕ} (h : incrementedLoop full new l = .ok l') (hb : b < new.nodeId)
    (hl : ∀ e ∈ l, b < e.nodeId) : ∀ f ∈ l', b < f.nodeId := by
  induction l generalizing l' with
  | nil =>
    obtain rfl := incrementedLoop_nil_ok h
    simpa using hb
  | cons e es ih =>
    have he : b < e.nodeId := hl e (by simp)
    have hes : ∀ f ∈ es, b < f.nodeId := fun f hf => hl f (by simp [hf])
    rcases incrementedLoop_cons_ok h with ⟨-, e', hi, rfl⟩ | ⟨-, rfl⟩ | ⟨-, es', hi, rfl⟩
    · have hid := (ClockEntry.incremented_ok hi).1
      simpa [hid, he] using hes
    · simpa [hb, he] using hes
    · simpa [he] using ih hi hes

theorem incrementedLoop_sorted (h : incrementedLoop full new l = .ok l') (hl : SortedEntries l) :
    SortedEntries l' := by
  induction l generalizing l' with
  | nil =>
    obtain rfl := incrementedLoop_nil_ok h
    exact pairwise_singleton _ _
  | cons e es ih =>
    rcases incrementedLoop_cons_ok h with ⟨-, e', hi, rfl⟩ | ⟨hlt, rfl⟩ | ⟨hlt, es', hi, rfl⟩
    · have hid := (ClockEntry.incremented_ok hi).1
      refine pairwise_cons.mpr ⟨?_, hl.tail⟩
      rw [hid]
      exact hl.head_lt
    · exact pairwise_cons.mpr ⟨hl.lt_of_lt_head hlt, hl⟩
    · exact pairwise_cons.mpr ⟨incrementedLoop_lt hi hlt hl.head_lt, ih hi hl.tail⟩

theorem versionOf_incrementedLoop (h : incrementedLoop full new l = .ok l') (hl : SortedEntries l)
    (hnew : new.version = 1) (n : ℕ) :
    versionOf l' n = versionOf l n + if new.nodeId = n then 1 else 0 := by
  induction l generalizing l' with
  | nil =>
    obtain rfl := incrementedLoop_nil_ok h
    simp [versionOf, hnew]
  | cons e es ih =>
    rcases incrementedLoop_cons_ok h with ⟨heq, e', hi, rfl⟩ | ⟨hlt, rfl⟩ | ⟨hlt, es', hi, rfl⟩
    · obtain ⟨hid, hver⟩ := ClockEntry.incremented_ok hi
      rw [versionOf_cons, versionOf_cons, hid, hver, heq]
      split <;> simp
    · rw [versionOf_cons, hnew]
      split
      · rename_i hn
        rw [← hn, versionOf_eq_zero (hl.lt_of_lt_head hlt)]
      · simp
    · rw [versionOf_cons, versionOf_cons, ih hi hl.tail]
      split
      · rename_i hn
        rw [if_neg (by omega), Nat.add_zero]
      · rfl

/-- The increment succeeds when the version does not overflow and the size
check, if it fails, is not made because the node is listed. -/
theorem incrementedLoop_isOk (hl : SortedEntries l) (hlt : versionOf l new.nodeId + 1 < 2 ^ 63)
    (hfull : full = true → versionOf l new.nodeId ≠ 0) :
    ∃ l', incrementedLoop full new l = .ok l' := by
  induction l with
  | nil =>
    cases full with
    | false => exact ⟨[new], rfl⟩
    | true => exact absurd rfl (hfull rfl)
  | cons e es ih =>
    unfold incrementedLoop
    split
    · rename_i heq
      rw [← heq, versionOf_cons_self] at hlt
      refine ⟨⟨e.nodeId, e.version + 1, e.nodeId_le, by omega, hlt⟩ :: es, ?_⟩
      unfold ClockEntry.incremented
      rw [dif_pos hlt]
      rfl
    · rename_i hne
      split
      · rename_i hgt
        rw [versionOf_eq_zero (hl.lt_of_lt_head hgt)] at hfull
        cases full with
        | false => exact ⟨new :: e :: es, by simp⟩
        | true => exact absurd rfl (hfull rfl)
      · rw [versionOf_cons_ne hne] at hlt hfull
        obtain ⟨es', hes'⟩ := ih hl.tail hlt hfull
        exact ⟨e :: es', by rw [hes']; rfl⟩

theorem incrementedLoop_overflow (hl : SortedEntries l)
    (hle : 2 ^ 63 ≤ versionOf l new.nodeId + 1) :
    incrementedLoop full new l = .error .illegalArgument := by
  induction l with
  | nil => exact absurd hle (by simp)
  | cons e es ih =>
    unfold incrementedLoop
    by_cases heq : e.nodeId = new.nodeId
    · rw [← heq, versionOf_cons_self] at hle
      rw [if_pos heq]
      unfold ClockEntry.incremented
      rw [dif_neg (Nat.not_lt.mpr hle)]
      rfl
    · rw [if_neg heq]
      by_cases hgt : new.nodeId < e.nodeId
      · -- the node is not listed, so its version is far from the last one
        rw [versionOf_eq_zero (hl.lt_of_lt_head hgt)] at hle
        exact absurd hle (by decide)
      · rw [versionOf_cons_ne heq] at hle
        rw [if_neg hgt, ih hl.tail hle]
        rfl

end

theorem versionOf_lt (l : List ClockEntry) (n : ℕ) : versionOf l n < 2 ^ 63 := by
  induction l with
  | nil => simp
  | cons e es ih =>
    rw [versionOf_cons]
    split
    · exact e.version_lt
    · exact ih

theorem versionOf_ne_zero_of_mem (h : e ∈ l) : versionOf l e.nodeId ≠ 0 := by
  induction l with
  | nil => cases h
  | cons f fs ih =>
    rw [versionOf_cons]
    split
    · exact Nat.one_le_iff_ne_zero.mp f.one_le
    · rename_i hne
      rcases mem_cons.mp h with rfl | h
      · exact absurd rfl hne
      · exact ih h

theorem versionOf_ne_zero_of_full (hl : SortedEntries l) (hfull : maxNumberOfVersions < l.length)
    (hn : n ≤ 32767) : versionOf l n ≠ 0 := by
  intro hzero
  -- otherwise 32769 different node ids fit below 32768
  have hnodup : (n :: l.map ClockEntry.nodeId).Nodup := by
    refine nodup_cons.mpr ⟨?_, ?_⟩
    · intro hmem
      obtain ⟨e, he, rfl⟩ := mem_map.mp hmem
      exact versionOf_ne_zero_of_mem he hzero
    · unfold List.Nodup
      rw [pairwise_map]
      exact hl.imp fun h => h.ne
  have hsub : (n :: l.map ClockEntry.nodeId) ⊆ List.range 32768 := by
    intro k hk
    rw [mem_range]
    rcases mem_cons.mp hk with rfl | hk
    · omega
    · obtain ⟨e, -, rfl⟩ := mem_map.mp hk
      exact Nat.lt_succ_of_le e.nodeId_le
  have hlen := (subperm_of_subset hnodup hsub).length_le
  simp only [length_cons, length_map, length_range] at hlen
  unfold maxNumberOfVersions at hfull
  omega

/-! #### Merging -/

theorem mergeLoop_lt {b : ℕ} (h₁ : ∀ e ∈ l₁, b < e.nodeId) (h₂ : ∀ e ∈ l₂, b < e.nodeId) :
    ∀ f ∈ mergeLoop l₁ l₂, b < f.nodeId := by
  fun_induction mergeLoop l₁ l₂ with
  | case1 l₂ => exact h₂
  | case2 l₁ _ => exact h₁
  | case3 e₁ es₁ e₂ es₂ heq ih =>
    have := ih (fun e he => h₁ e (by simp [he])) (fun e he => h₂ e (by simp [he]))
    have he₁ := h₁ e₁ (by simp)
    simpa [ClockEntry.max, he₁] using this
  | case4 e₁ es₁ e₂ es₂ hne hlt ih =>
    have := ih (fun e he => h₁ e (by simp [he])) h₂
    have he₁ := h₁ e₁ (by simp)
    simpa [he₁] using this
  | case5 e₁ es₁ e₂ es₂ hne hnlt ih =>
    have := ih h₁ (fun e he => h₂ e (by simp [he]))
    have he₂ := h₂ e₂ (by simp)
    simpa [he₂] using this

section

variable {l₁ l₂ : List ClockEntry} (h₁ : SortedEntries l₁) (h₂ : SortedEntries l₂)
include h₁ h₂

theorem mergeLoop_sorted : SortedEntries (mergeLoop l₁ l₂) := by
  fun_induction mergeLoop l₁ l₂ with
  | case1 l₂ => exact h₂
  | case2 l₁ _ => exact h₁
  | case3 e₁ es₁ e₂ es₂ heq ih =>
    refine pairwise_cons.mpr ⟨?_, ih h₁.tail h₂.tail⟩
    exact mergeLoop_lt h₁.head_lt (by simpa [ClockEntry.max, heq] using h₂.head_lt)
  | case4 e₁ es₁ e₂ es₂ hne hlt ih =>
    refine pairwise_cons.mpr ⟨?_, ih h₁.tail h₂⟩
    exact mergeLoop_lt h₁.head_lt (h₂.lt_of_lt_head hlt)
  | case5 e₁ es₁ e₂ es₂ hne hnlt ih =>
    have hgt : e₂.nodeId < e₁.nodeId := by omega
    refine pairwise_cons.mpr ⟨?_, ih h₁ h₂.tail⟩
    exact mergeLoop_lt (h₁.lt_of_lt_head hgt) h₂.head_lt

theorem versionOf_mergeLoop (n : ℕ) :
    versionOf (mergeLoop l₁ l₂) n = max (versionOf l₁ n) (versionOf l₂ n) := by
  fun_induction mergeLoop l₁ l₂ with
  | case1 l₂ => simp
  | case2 l₁ _ => simp
  | case3 e₁ es₁ e₂ es₂ heq ih =>
    rw [versionOf_cons, versionOf_cons, versionOf_cons, ih h₁.tail h₂.tail]
    by_cases hn : e₁.nodeId = n <;> simp [ClockEntry.max, ← heq, hn]
  | case4 e₁ es₁ e₂ es₂ hne hlt ih =>
    rw [versionOf_cons, versionOf_cons e₁, ih h₁.tail h₂]
    split
    · rename_i hn
      rw [← hn, versionOf_eq_zero (h₂.lt_of_lt_head hlt), Nat.max_zero]
    · rfl
  | case5 e₁ es₁ e₂ es₂ hne hnlt ih =>
    have hgt : e₂.nodeId < e₁.nodeId := by omega
    rw [versionOf_cons, versionOf_cons e₂, ih h₁ h₂.tail]
    split
    · rename_i hn
      rw [← hn, versionOf_eq_zero (h₁.lt_of_lt_head hgt), Nat.zero_max]
    · rfl

end

/-! #### Comparing -/

theorem compareLoop_fst (h₁ : SortedEntries l₁) (h₂ : SortedEntries l₂) (b₁ b₂ : Bool) :
    (compareLoop l₁ l₂ b₁ b₂).1 = true ↔
      b₁ = true ∨ ∃ n, versionOf l₂ n < versionOf l₁ n := by
  fun_induction compareLoop l₁ l₂ b₁ b₂ with
  | case1 b₁ b₂ => simp
  | case2 e₁ es₁ b₁ b₂ =>
    have hone := e₁.one_le
    refine iff_of_true rfl (.inr ⟨e₁.nodeId, ?_⟩)
    rw [versionOf_nil, versionOf_cons_self]
    omega
  | case3 e₂ es₂ b₁ b₂ => simp
  | case4 e₁ es₁ e₂ es₂ b₁ b₂ heq ih =>
    rw [ih h₁.tail h₂.tail, Bool.or_eq_true, decide_eq_true_eq, or_assoc]
    refine or_congr_right ?_
    constructor
    · rintro (hlt | ⟨n, hn⟩)
      · refine ⟨e₁.nodeId, ?_⟩
        rw [versionOf_cons_self, heq, versionOf_cons_self]
        exact hlt
      · -- a node of the tails is not the common head
        have hne : e₁.nodeId ≠ n := by
          rintro rfl
          rw [versionOf_eq_zero h₁.head_lt] at hn
          omega
        refine ⟨n, ?_⟩
        rw [versionOf_cons_ne hne, versionOf_cons_ne (heq ▸ hne)]
        exact hn
    · rintro ⟨n, hn⟩
      rw [versionOf_cons, versionOf_cons, ← heq] at hn
      split at hn
      · exact .inl hn
      · exact .inr ⟨n, hn⟩
  | case5 e₁ es₁ e₂ es₂ b₁ b₂ hne hlt ih =>
    rw [ih h₁ h₂.tail]
    refine or_congr_right (exists_congr fun n => ?_)
    by_cases hn : e₂.nodeId = n
    · subst hn
      rw [versionOf_eq_zero h₂.head_lt, versionOf_eq_zero (h₁.lt_of_lt_head hlt)]
      omega
    · rw [versionOf_cons_ne hn]
  | case6 e₁ es₁ e₂ es₂ b₁ b₂ hne hnlt ih =>
    have hlt : e₁.nodeId < e₂.nodeId := by omega
    have hone := e₁.one_le
    refine iff_of_true ((ih h₁.tail h₂).mpr (.inl rfl)) (.inr ⟨e₁.nodeId, ?_⟩)
    rw [versionOf_cons_self, versionOf_eq_zero (h₂.lt_of_lt_head hlt)]
    omega

theorem compareLoop_swap (l₁ l₂ : List ClockEntry) (b₁ b₂ : Bool) :
    compareLoop l₂ l₁ b₂ b₁ = (compareLoop l₁ l₂ b₁ b₂).swap := by
  fun_induction compareLoop l₁ l₂ b₁ b₂ with
  | case1 b₁ b₂ | case2 e₁ es₁ b₁ b₂ | case3 e₂ es₂ b₁ b₂ => simp [compareLoop]
  | case4 e₁ es₁ e₂ es₂ b₁ b₂ heq ih =>
    rw [compareLoop, if_pos heq.symm, ih]
  | case5 e₁ es₁ e₂ es₂ b₁ b₂ hne hlt ih =>
    rw [compareLoop, if_neg (Ne.symm hne), if_neg (by omega), ih]
  | case6 e₁ es₁ e₂ es₂ b₁ b₂ hne hnlt ih =>
    rw [compareLoop, if_neg (Ne.symm hne), if_pos (by omega), ih]

theorem compareLoop_snd (h₁ : SortedEntries l₁) (h₂ : SortedEntries l₂) (b₁ b₂ : Bool) :
    (compareLoop l₁ l₂ b₁ b₂).2 = true ↔
      b₂ = true ∨ ∃ n, versionOf l₁ n < versionOf l₂ n := by
  rw [← compareLoop_fst h₂ h₁ b₂ b₁, compareLoop_swap l₁ l₂ b₁ b₂, Prod.fst_swap]

/-! ### Clocks -/

/-- A vector clock: sorted entries and the time of the last update. -/
structure VectorClock where
  versions : List ClockEntry
  timestamp : ℤ
  sorted : SortedEntries versions
deriving DecidableEq

namespace VectorClock

def empty (timestamp : ℤ) : VectorClock := ⟨[], timestamp, List.Pairwise.nil⟩

def versionAt (vc : VectorClock) (n : ℕ) : ℕ := versionOf vc.versions n

/-- A clock based on this one, incremented at `nodeId`. -/
def incremented (vc : VectorClock) (nodeId time : ℤ) : Except SyncError VectorClock :=
  if h : nodeId < 0 ∨ 32767 < nodeId then .error .illegalArgument
  else
    let new : ClockEntry := ⟨nodeId.toNat, 1, by omega, le_rfl, by decide⟩
    match hl : incrementedLoop (decide (maxNumberOfVersions < vc.versions.length))
        new vc.versions with
    | .ok l => .ok ⟨l, time, incrementedLoop_sorted hl vc.sorted⟩
    | .error e => .error e

/-- The merge of two clocks, stamped with the current time. -/
def merge (vc clock : VectorClock) (now : ℤ) : VectorClock :=
  ⟨mergeLoop vc.versions clock.versions, now, mergeLoop_sorted vc.sorted clock.sorted⟩

/-- Compare two clocks; equal clocks are `before` each other. -/
def compare (v₁ v₂ : VectorClock) : Occurred :=
  match compareLoop v₁.versions v₂.versions false false with
  | (false, false) => .before
  | (true, false) => .after
  | (false, true) => .before
  | (true, true) => .concurrently

/-! #### Specifications -/

variable {v₁ v₂ vc vc' : VectorClock} {nodeId time : ℤ}

theorem versions_ext (h : v₁.versionAt = v₂.versionAt) : v₁.versions = v₂.versions :=
  v₁.sorted.ext v₂.sorted fun n => congrFun h n

theorem incremented_versionAt (h : vc.incremented nodeId time = .ok vc') (n : ℕ) :
    vc'.versionAt n = vc.versionAt n + if nodeId.toNat = n then 1 else 0 := by
  unfold incremented at h
  split at h
  · cases h
  · dsimp only at h
    split at h
    · rename_i l hl
      cases h
      exact versionOf_incrementedLoop hl vc.sorted rfl n
    · cases h

theorem nodeId_of_incremented (h : vc.incremented nodeId time = .ok vc') :
    0 ≤ nodeId ∧ nodeId ≤ 32767 := by
  unfold incremented at h
  split at h
  · cases h
  · omega

theorem incremented_isOk (h₀ : 0 ≤ nodeId) (h₁ : nodeId ≤ 32767) (time : ℤ)
    (hlt : vc.versionAt nodeId.toNat + 1 < 2 ^ 63) :
    ∃ vc', vc.incremented nodeId time = .ok vc' := by
  unfold incremented
  rw [dif_neg (by omega)]
  dsimp only
  have hid : nodeId.toNat ≤ 32767 := by omega
  obtain ⟨l, hl⟩ := @incrementedLoop_isOk (decide (maxNumberOfVersions < vc.versions.length))
    ⟨nodeId.toNat, 1, hid, le_rfl, by decide⟩ vc.versions vc.sorted hlt fun hfull =>
      versionOf_ne_zero_of_full vc.sorted (of_decide_eq_true hfull) hid
  split
  · exact ⟨_, rfl⟩
  · rename_i e he
    rw [hl] at he
    cases he

theorem incremented_rejected (time : ℤ)
    (h : ¬ (0 ≤ nodeId ∧ nodeId ≤ 32767 ∧ vc.versionAt nodeId.toNat + 1 < 2 ^ 63)) :
    vc.incremented nodeId time = .error .illegalArgument := by
  unfold incremented
  by_cases hrange : nodeId < 0 ∨ 32767 < nodeId
  · rw [dif_pos hrange]
  · rw [dif_neg hrange]
    dsimp only
    have hloop := @incrementedLoop_overflow (decide (maxNumberOfVersions < vc.versions.length))
      ⟨nodeId.toNat, 1, by omega, le_rfl, by decide⟩ vc.versions vc.sorted
      (show 2 ^ 63 ≤ vc.versionAt nodeId.toNat + 1 by omega)
    split
    · rename_i l hl
      rw [hloop] at hl
      cases hl
    · rename_i e he
      rw [hloop] at he
      cases he
      rfl

theorem versionAt_lt (vc : VectorClock) (n : ℕ) : vc.versionAt n < 2 ^ 63 :=
  versionOf_lt vc.versions n

@[simp] theorem merge_versionAt (now : ℤ) (n : ℕ) :
    (v₁.merge v₂ now).versionAt n = max (v₁.versionAt n) (v₂.versionAt n) :=
  versionOf_mergeLoop v₁.sorted v₂.sorted n

theorem compareLoop_versions_fst :
    (compareLoop v₁.versions v₂.versions false false).1 = true ↔
      ¬ v₁.versionAt ≤ v₂.versionAt := by
  rw [compareLoop_fst v₁.sorted v₂.sorted, Pi.le_def]
  push Not
  simp [versionAt]

theorem compareLoop_versions_snd :
    (compareLoop v₁.versions v₂.versions false false).2 = true ↔
      ¬ v₂.versionAt ≤ v₁.versionAt := by
  rw [compareLoop_snd v₁.sorted v₂.sorted, Pi.le_def]
  push Not
  simp [versionAt]

theorem compare_eq_before_iff :
    v₁.compare v₂ = .before ↔ v₁.versionAt ≤ v₂.versionAt := by
  rw [← not_iff_not, ← compareLoop_versions_fst]
  unfold compare
  rcases compareLoop v₁.versions v₂.versions false false with ⟨_ | _, _ | _⟩ <;> simp

theorem compare_eq_after_iff :
    v₁.compare v₂ = .after ↔ v₂.versionAt ≤ v₁.versionAt ∧ ¬ v₁.versionAt ≤ v₂.versionAt := by
  rw [← compareLoop_versions_fst, ← not_not (a := v₂.versionAt ≤ v₁.versionAt),
    ← compareLoop_versions_snd]
  unfold compare
  rcases compareLoop v₁.versions v₂.versions false false with ⟨_ | _, _ | _⟩ <;> simp

theorem compare_eq_concurrently_iff :
    v₁.compare v₂ = .concurrently ↔
      ¬ v₁.versionAt ≤ v₂.versionAt ∧ ¬ v₂.versionAt ≤ v₁.versionAt := by
  rw [← compareLoop_versions_fst, ← compareLoop_versions_snd]
  unfold compare
  rcases compareLoop v₁.versions v₂.versions false false with ⟨_ | _, _ | _⟩ <;> simp

/-! #### The lattice of clocks -/

/-- What a merge is below: it is the least clock at or above both. -/
theorem merge_versionAt_le_iff (now : ℤ) (b : ℕ → ℕ) :
    (v₁.merge v₂ now).versionAt ≤ b ↔ v₁.versionAt ≤ b ∧ v₂.versionAt ≤ b := by
  simp only [Pi.le_def, merge_versionAt, Nat.max_le, forall_and]

theorem compare_incremented (h : vc.incremented nodeId time = .ok vc') :
    vc'.compare vc = .after := by
  rw [compare_eq_after_iff]
  constructor
  · intro n
    rw [incremented_versionAt h]
    exact Nat.le_add_right _ _
  · intro hle
    have hnode := hle nodeId.toNat
    rw [incremented_versionAt h, if_pos rfl] at hnode
    exact absurd hnode (Nat.not_succ_le_self _)

/-- The clocks that are made from empty ones by increments and merges. -/
inductive Built : VectorClock → Prop
  | empty (timestamp : ℤ) : Built (.empty timestamp)
  | incremented {vc vc' : VectorClock} {nodeId time : ℤ} (hvc : Built vc) (h₀ : 0 ≤ nodeId)
      (h₁ : nodeId ≤ 32767) (h : vc.incremented nodeId time = .ok vc') : Built vc'
  | merge {vc clock : VectorClock} (hvc : Built vc) (hclock : Built clock) (now : ℤ) :
      Built (vc.merge clock now)

/-- **Vector clocks form a lattice.**  An increment fails only where the version of the
node is the last `long`. -/
theorem clocks_form_lattice {a b : VectorClock} (ha : Built a) (hb : Built b) :
    SortedEntries a.versions ∧ (∀ e ∈ a.versions, 1 ≤ e.version) ∧
      (a.compare b = .after ↔ b.versionAt ≤ a.versionAt ∧ a.versionAt ≠ b.versionAt) ∧
      (a.compare b = .before ↔ a.versionAt ≤ b.versionAt) ∧
      (a.compare b = .concurrently ↔
        ¬ a.versionAt ≤ b.versionAt ∧ ¬ b.versionAt ≤ a.versionAt) ∧
      (∀ now, Built (a.merge b now) ∧
        (∀ n, (a.merge b now).versionAt n = max (a.versionAt n) (b.versionAt n)) ∧
        ∀ c : VectorClock, (a.merge b now).versionAt ≤ c.versionAt ↔
          a.versionAt ≤ c.versionAt ∧ b.versionAt ≤ c.versionAt) ∧
      ∀ nodeId time : ℤ, 0 ≤ nodeId → nodeId ≤ 32767 →
        (a.versionAt nodeId.toNat + 1 < 2 ^ 63 → ∃ c, a.incremented nodeId time = .ok c) ∧
        ∀ c, a.incremented nodeId time = .ok c → Built c ∧ c.compare a = .after := by
  refine ⟨a.sorted, fun e _ => e.one_le, ?_, compare_eq_before_iff, compare_eq_concurrently_iff,
    fun now => ⟨ha.merge hb now, merge_versionAt now, fun c => merge_versionAt_le_iff now _⟩,
    fun nodeId time h₀ h₁ => ⟨incremented_isOk h₀ h₁ time, fun c hc => ?_⟩⟩
  · rw [compare_eq_after_iff]
    exact and_congr_right fun hle => not_congr ⟨fun hge => le_antisymm hge hle, fun heq => heq.le⟩
  · exact ⟨ha.incremented h₀ h₁ hc, compare_incremented hc⟩

theorem clocks_form_lattice_two :
    ∃ a b : VectorClock, Built a ∧ Built b ∧ a.compare b = .concurrently ∧
      ∀ n, (a.merge b 0).versionAt n = max (a.versionAt n) (b.versionAt n) := by
  obtain ⟨a, ha⟩ : ∃ a, (empty 0).incremented 1 0 = .ok a :=
    incremented_isOk (by decide) (by decide) 0 (by decide)
  obtain ⟨b, hb⟩ : ∃ b, (empty 0).incremented 2 0 = .ok b :=
    incremented_isOk (by decide) (by decide) 0 (by decide)
  have hbuilt : Built a := (Built.empty 0).incremented (by decide) (by decide) ha
  have hbuilt' : Built b := (Built.empty 0).incremented (by decide) (by decide) hb
  obtain ⟨-, -, -, -, hconcurrently, hmerge, -⟩ := clocks_form_lattice hbuilt hbuilt'
  refine ⟨a, b, hbuilt, hbuilt', hconcurrently.mpr ⟨fun hle => ?_, fun hle => ?_⟩,
    (hmerge 0).2.1⟩
  · have hone := hle 1
    rw [incremented_versionAt ha, incremented_versionAt hb] at hone
    exact absurd hone (by decide)
  · have htwo := hle 2
    rw [incremented_versionAt ha, incremented_versionAt hb] at htwo
    exact absurd htwo (by decide)

end VectorClock

/-! ### Clocks of one writer

Versions for the concrete stores of later modules: the bounds of an entry hold by its type, so
that the clocks evaluate. -/

theorem ofWrites_nodeId_le (nodeId : BitVec 4) : nodeId.toNat ≤ 32767 := by omega

theorem ofWrites_one_le (writes : BitVec 4) : 1 ≤ writes.toNat + 1 := by omega

theorem ofWrites_version_lt (writes : BitVec 4) : writes.toNat + 1 < 2 ^ 63 := by omega

/-- The entry of a node after a few more writes than one. -/
def ClockEntry.ofWrites (nodeId writes : BitVec 4) : ClockEntry :=
  ⟨nodeId.toNat, writes.toNat + 1, ofWrites_nodeId_le nodeId, ofWrites_one_le writes,
    ofWrites_version_lt writes⟩

/-- The clock of a key that only one node has written. -/
def VectorClock.single (nodeId writes : BitVec 4) (timestamp : ℤ) : VectorClock :=
  ⟨[.ofWrites nodeId writes], timestamp, List.pairwise_singleton _ _⟩

end NctuSdn
