/-
Merging lists that are sorted by a key.

Lists are read as bags: what matters is how often a key occurs (`copies`).  A
merge that keeps what is in both lists has the smaller number of copies of each
key, one that keeps what is in either has the larger one (`copies_mergeInter`,
`copies_mergeUnion`).  Lists without two equal keys stay such.
-/
import Mathlib.Data.List.Sort

namespace NctuSdn

open List

variable {α κ : Type} [LinearOrder κ] (key : α → κ)

/-- The number of elements with a key. -/
def copies (k : κ) (xs : List α) : ℕ := xs.countP fun a => decide (key a = k)

/-- The order by key. -/
def SortedBy (xs : List α) : Prop := xs.Pairwise fun a b => key a ≤ key b

/-- The order by different keys. -/
def StrictlySortedBy (xs : List α) : Prop := xs.Pairwise fun a b => key a < key b

/-- The elements of the first list that are in the second one. -/
def mergeInter : List α → List α → List α
  | a :: as, b :: bs =>
    if key a = key b then a :: mergeInter as bs
    else if key a < key b then mergeInter as (b :: bs)
    else mergeInter (a :: as) bs
  | _, _ => []
termination_by as bs => as.length + bs.length

/-- The elements of both lists, those of the first one where both have one. -/
def mergeUnion : List α → List α → List α
  | a :: as, b :: bs =>
    if key a = key b then a :: mergeUnion as bs
    else if key a < key b then a :: mergeUnion as (b :: bs)
    else b :: mergeUnion (a :: as) bs
  | as, [] => as
  | [], bs => bs
termination_by as bs => as.length + bs.length

/-- Stable sorting by key. -/
def sortBy (xs : List α) : List α := xs.insertionSort fun a b => key a ≤ key b

variable {key}

theorem copies_cons (k : κ) (a : α) (xs : List α) :
    copies key k (a :: xs) = copies key k xs + if key a = k then 1 else 0 := by
  unfold copies
  rw [countP_cons]
  simp

/-- A key below the first one does not occur. -/
theorem copies_eq_zero {k : κ} {b : α} {bs : List α} (h : SortedBy key (b :: bs))
    (hk : k < key b) : copies key k (b :: bs) = 0 := by
  refine countP_eq_zero.mpr fun a ha => ?_
  have hle : key b ≤ key a := by
    rcases mem_cons.mp ha with rfl | ha
    · exact le_refl _
    · exact (pairwise_cons.mp h).1 a ha
  simpa using (lt_of_lt_of_le hk hle).ne'

theorem SortedBy.tail {a : α} {as : List α} (h : SortedBy key (a :: as)) : SortedBy key as :=
  (pairwise_cons.mp h).2

section

variable {xs ys : List α}

/-- The smaller number of copies is kept. -/
theorem copies_mergeInter (hx : SortedBy key xs) (hy : SortedBy key ys) (k : κ) :
    copies key k (mergeInter key xs ys) = min (copies key k xs) (copies key k ys) := by
  induction xs, ys using mergeInter.induct key with
  | case1 a as b bs heq ih =>
    rw [mergeInter, if_pos heq, copies_cons, ih hx.tail hy.tail, copies_cons, copies_cons, heq]
    exact (Nat.add_min_add_right ..).symm
  | case2 a as b bs hne hlt ih =>
    rw [mergeInter, if_neg hne, if_pos hlt, ih hx.tail hy, copies_cons k a]
    -- the key that is skipped is below all of the other list
    by_cases hk : key a = k
    · rw [copies_eq_zero hy (hk ▸ hlt), Nat.min_zero, Nat.min_zero]
    · rw [if_neg hk, Nat.add_zero]
  | case3 a as b bs hne hlt ih =>
    have hgt : key b < key a := lt_of_le_of_ne (not_lt.mp hlt) (Ne.symm hne)
    rw [mergeInter, if_neg hne, if_neg hlt, ih hx hy.tail, copies_cons k b]
    by_cases hk : key b = k
    · rw [copies_eq_zero hx (hk ▸ hgt), Nat.zero_min, Nat.zero_min]
    · rw [if_neg hk, Nat.add_zero]
  | case4 xs ys hnil =>
    -- one of the lists is empty
    cases xs with
    | nil => simp [mergeInter, copies]
    | cons a as =>
      cases ys with
      | nil => simp [mergeInter, copies]
      | cons b bs => exact absurd rfl (hnil a as b bs rfl)

/-- The larger number of copies is kept. -/
theorem copies_mergeUnion (hx : SortedBy key xs) (hy : SortedBy key ys) (k : κ) :
    copies key k (mergeUnion key xs ys) = max (copies key k xs) (copies key k ys) := by
  induction xs, ys using mergeUnion.induct key with
  | case1 a as b bs heq ih =>
    rw [mergeUnion, if_pos heq, copies_cons, ih hx.tail hy.tail, copies_cons, copies_cons, heq]
    exact (Nat.add_max_add_right ..).symm
  | case2 a as b bs hne hlt ih =>
    rw [mergeUnion, if_neg hne, if_pos hlt, copies_cons, ih hx.tail hy, copies_cons k a]
    by_cases hk : key a = k
    · rw [copies_eq_zero hy (hk ▸ hlt), Nat.max_zero, Nat.max_zero]
    · rw [if_neg hk, Nat.add_zero, Nat.add_zero]
  | case3 a as b bs hne hlt ih =>
    have hgt : key b < key a := lt_of_le_of_ne (not_lt.mp hlt) (Ne.symm hne)
    rw [mergeUnion, if_neg hne, if_neg hlt, copies_cons, ih hx hy.tail, copies_cons k b]
    by_cases hk : key b = k
    · rw [copies_eq_zero hx (hk ▸ hgt), Nat.zero_max, Nat.zero_max]
    · rw [if_neg hk, Nat.add_zero, Nat.add_zero]
  | case4 xs => simp [mergeUnion, copies]
  | case5 ys hys =>
    cases ys with
    | nil => exact absurd rfl hys
    | cons b bs => simp [mergeUnion, copies]

/-- Of two elements with one key that of the first list is kept. -/
theorem mergeInter_sublist : mergeInter key xs ys <+ xs := by
  induction xs, ys using mergeInter.induct key with
  | case1 a as b bs heq ih =>
    rw [mergeInter, if_pos heq]
    exact ih.cons_cons a
  | case2 a as b bs hne hlt ih =>
    rw [mergeInter, if_neg hne, if_pos hlt]
    exact ih.cons a
  | case3 a as b bs hne hlt ih =>
    rw [mergeInter, if_neg hne, if_neg hlt]
    exact ih
  | case4 xs ys hnil =>
    cases xs with
    | nil => simp [mergeInter]
    | cons a as =>
      cases ys with
      | nil => simp [mergeInter]
      | cons b bs => exact absurd rfl (hnil a as b bs rfl)

theorem mem_or_mem_of_mem_mergeUnion {a : α} (h : a ∈ mergeUnion key xs ys) : a ∈ xs ∨ a ∈ ys := by
  induction xs, ys using mergeUnion.induct key with
  | case1 b as c bs heq ih =>
    rw [mergeUnion, if_pos heq] at h
    rcases mem_cons.mp h with rfl | h
    · exact Or.inl mem_cons_self
    · exact (ih h).imp (mem_cons_of_mem _) (mem_cons_of_mem _)
  | case2 b as c bs hne hlt ih =>
    rw [mergeUnion, if_neg hne, if_pos hlt] at h
    rcases mem_cons.mp h with rfl | h
    · exact Or.inl mem_cons_self
    · exact (ih h).imp_left (mem_cons_of_mem _)
  | case3 b as c bs hne hlt ih =>
    rw [mergeUnion, if_neg hne, if_neg hlt] at h
    rcases mem_cons.mp h with rfl | h
    · exact Or.inr mem_cons_self
    · exact (ih h).imp_right (mem_cons_of_mem _)
  | case4 xs => exact Or.inl (by simpa [mergeUnion] using h)
  | case5 ys hys =>
    cases ys with
    | nil => exact absurd rfl hys
    | cons c bs => exact Or.inr (by simpa [mergeUnion] using h)

theorem StrictlySortedBy.lt_of_lt {k : κ} {a b : α} (h : StrictlySortedBy key (b :: xs))
    (hk : k < key b) (ha : a ∈ b :: xs) : k < key a := by
  rcases mem_cons.mp ha with rfl | ha
  · exact hk
  · exact hk.trans ((pairwise_cons.mp h).1 a ha)

theorem strictlySortedBy_mergeUnion (hx : StrictlySortedBy key xs)
    (hy : StrictlySortedBy key ys) : StrictlySortedBy key (mergeUnion key xs ys) := by
  induction xs, ys using mergeUnion.induct key with
  | case1 a as b bs heq ih =>
    obtain ⟨ha, hx⟩ := pairwise_cons.mp hx
    obtain ⟨hb, hy⟩ := pairwise_cons.mp hy
    rw [mergeUnion, if_pos heq]
    refine pairwise_cons.mpr ⟨fun c hc => ?_, ih hx hy⟩
    -- what comes later is from the rest of either list
    exact (mem_or_mem_of_mem_mergeUnion hc).elim (ha c) fun hc => heq ▸ hb c hc
  | case2 a as b bs hne hlt ih =>
    obtain ⟨ha, hx⟩ := pairwise_cons.mp hx
    rw [mergeUnion, if_neg hne, if_pos hlt]
    refine pairwise_cons.mpr ⟨fun c hc => ?_, ih hx hy⟩
    exact (mem_or_mem_of_mem_mergeUnion hc).elim (ha c) (hy.lt_of_lt hlt)
  | case3 a as b bs hne hlt ih =>
    obtain ⟨hb, hy⟩ := pairwise_cons.mp hy
    have hgt : key b < key a := lt_of_le_of_ne (not_lt.mp hlt) (Ne.symm hne)
    rw [mergeUnion, if_neg hne, if_neg hlt]
    refine pairwise_cons.mpr ⟨fun c hc => ?_, ih hx hy⟩
    exact (mem_or_mem_of_mem_mergeUnion hc).elim (hx.lt_of_lt hgt) (hb c)
  | case4 xs => simpa [mergeUnion] using hx
  | case5 ys hys =>
    cases ys with
    | nil => exact absurd rfl hys
    | cons b bs => simpa [mergeUnion] using hy

theorem mem_map_iff_copies (k : κ) : k ∈ xs.map key ↔ 0 < copies key k xs := by
  simp [copies, countP_pos_iff]

end

theorem sortedBy_sortBy (xs : List α) : SortedBy key (sortBy key xs) := by
  have : Std.Total fun a b : α => key a ≤ key b := ⟨fun a b => le_total (key a) (key b)⟩
  have : IsTrans α fun a b : α => key a ≤ key b := ⟨fun _ _ _ => le_trans⟩
  exact pairwise_insertionSort _ xs

theorem sortBy_perm (xs : List α) : (sortBy key xs).Perm xs := perm_insertionSort _ xs

theorem copies_sortBy (k : κ) (xs : List α) : copies key k (sortBy key xs) = copies key k xs :=
  (sortBy_perm xs).countP_eq _

theorem strictlySortedBy_sortBy {xs : List α} (h : (xs.map key).Nodup) :
    StrictlySortedBy key (sortBy key xs) := by
  have hperm : (sortBy key xs).Perm xs := sortBy_perm xs
  have hnodup := (hperm.map key).nodup_iff.mpr h
  exact ((sortedBy_sortBy xs).and (pairwise_map.mp hnodup)).imp fun h => lt_of_le_of_ne h.1 h.2

end NctuSdn
