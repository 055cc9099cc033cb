/-
Frontiers: lists of pairwise incomparable items.

A replica that keeps only the newest versions of a value keeps a *frontier*
of everything it has received.  The items live in an arbitrary type `α` and
are ranked by a map `r : α → β` into a partial order; two items may have the
same rank.  The one operation is `insertMax`, which drops the new item when
something at least as high is present and otherwise removes what it beats.

The whole theory rests on one observation: `insertMax` unions down-sets.

    Below r (insertMax r l x) b  ↔  Below r l b ∨ b ≤ r x     (below_insertMax)

A frontier is determined, rank by rank, by its down-set (`mem_iff_maximal`),
so the ranks that remain after any sequence of insertions depend only on the
set of ranks inserted.
-/
import Mathlib.Order.Minimal
import Mathlib.Data.List.Pairwise

namespace NctuSdn

open List

open Classical

variable {α β : Type*} [PartialOrder β] (r : α → β)

/-! ### Frontiers and down-sets -/

/-- No two items of the list are comparable. -/
def Frontier (l : List α) : Prop :=
  l.Pairwise fun x y => ¬ r x ≤ r y ∧ ¬ r y ≤ r x

/-- `b` is at or below the rank of some item of the list. -/
def Below (l : List α) (b : β) : Prop := ∃ y ∈ l, b ≤ r y

/-- Insert `x`, keeping only the items that nothing else beats. -/
noncomputable def insertMax (l : List α) (x : α) : List α :=
  if Below r l (r x) then l else l.filter (fun y => ¬ r y ≤ r x) ++ [x]

variable {r} {l : List α}

variable {x y : α}

theorem insertMax_of_below (h : Below r l (r x)) : insertMax r l x = l := by
  unfold insertMax
  rw [if_pos h]

theorem insertMax_of_not_below (h : ¬ Below r l (r x)) :
    insertMax r l x = l.filter (fun y => ¬ r y ≤ r x) ++ [x] := by
  unfold insertMax
  rw [if_neg h]

theorem insertMax_of_forall_lt (h : ∀ y ∈ l, r y < r x) : insertMax r l x = [x] := by
  have hnot : ¬ Below r l (r x) := by
    rintro ⟨y, hy, hle⟩
    exact (h y hy).not_ge hle
  rw [insertMax_of_not_below hnot, filter_eq_nil_iff.mpr, nil_append]
  intro y hy
  rw [decide_eq_true_eq, not_not]
  exact (h y hy).le

/-- Nothing is invented: what `insertMax` keeps was there or is the new item. -/
theorem mem_of_mem_insertMax (h : y ∈ insertMax r l x) : y ∈ l ∨ y = x := by
  by_cases hb : Below r l (r x)
  · rw [insertMax_of_below hb] at h
    exact .inl h
  · rw [insertMax_of_not_below hb, mem_append, mem_filter, mem_singleton] at h
    exact h.imp And.left id

/-- **Insertion unions down-sets.** -/
theorem below_insertMax (l : List α) (x : α) (b : β) :
    Below r (insertMax r l x) b ↔ Below r l b ∨ b ≤ r x := by
  by_cases hb : Below r l (r x)
  · rw [insertMax_of_below hb]
    refine ⟨.inl, ?_⟩
    rintro (h | h)
    · exact h
    · obtain ⟨y, hy, hxy⟩ := hb
      exact ⟨y, hy, h.trans hxy⟩
  · rw [insertMax_of_not_below hb]
    constructor
    · rintro ⟨y, hy, hle⟩
      rw [mem_append, mem_filter, mem_singleton] at hy
      rcases hy with hy | rfl
      · exact .inl ⟨y, hy.1, hle⟩
      · exact .inr hle
    · rintro (⟨y, hy, hle⟩ | hle)
      · -- an item that is removed is beaten by `x`, which takes over its down-set
        by_cases hyx : r y ≤ r x
        · exact ⟨x, by simp, hle.trans hyx⟩
        · exact ⟨y, by simp [hy, hyx], hle⟩
      · exact ⟨x, by simp, hle⟩

theorem frontier_insertMax (hl : Frontier r l) (x : α) :
    Frontier r (insertMax r l x) := by
  by_cases hb : Below r l (r x)
  · rw [insertMax_of_below hb]
    exact hl
  · rw [insertMax_of_not_below hb]
    unfold Frontier
    rw [pairwise_append]
    refine ⟨hl.sublist filter_sublist, pairwise_singleton _ _, ?_⟩
    intro y hy z hz
    rw [mem_filter, decide_eq_true_eq] at hy
    rw [mem_singleton] at hz
    subst hz
    exact ⟨hy.2, fun hle => hb ⟨y, hy.1, hle⟩⟩

/-! ### Sequences of insertions -/

theorem mem_of_mem_foldl_insertMax {xs : List α} (h : y ∈ xs.foldl (insertMax r) l) :
    y ∈ l ∨ y ∈ xs := by
  induction xs generalizing l with
  | nil => exact .inl h
  | cons x xs ih =>
    rcases ih h with h | h
    · exact (mem_of_mem_insertMax h).imp_right fun hx => by simp [hx]
    · exact .inr (mem_cons_of_mem x h)

theorem below_foldl_insertMax (l xs : List α) (b : β) :
    Below r (xs.foldl (insertMax r) l) b ↔ Below r l b ∨ Below r xs b := by
  induction xs generalizing l with
  | nil => simp [Below]
  | cons x xs ih =>
    rw [foldl_cons, ih, below_insertMax, or_assoc]
    simp [Below]

theorem frontier_foldl_insertMax (hl : Frontier r l) (xs : List α) :
    Frontier r (xs.foldl (insertMax r) l) := by
  induction xs generalizing l with
  | nil => exact hl
  | cons x xs ih => exact ih (frontier_insertMax hl x)

/-! ### A frontier is determined by its down-set -/

instance instSymmIncomparable : Std.Symm fun x y : α => ¬ r x ≤ r y ∧ ¬ r y ≤ r x :=
  ⟨fun _ _ h => h.symm⟩

theorem Frontier.eq_of_le (hl : Frontier r l) (hx : x ∈ l) (hy : y ∈ l) (hle : r x ≤ r y) :
    x = y := by
  by_contra hne
  exact (List.Pairwise.forall hl hx hy hne).1 hle

/-- If a frontier consists of items of `s` and covers all of `s`, its ranks
are exactly the maximal ranks of `s`. -/
theorem Frontier.mem_iff_maximal (hl : Frontier r l) {s : Set α} (hsub : ∀ y ∈ l, y ∈ s)
    (hcov : ∀ x ∈ s, Below r l (r x)) (b : β) :
    b ∈ l.map r ↔ Maximal (· ∈ r '' s) b := by
  rw [mem_map]
  constructor
  · rintro ⟨y, hy, rfl⟩
    refine ⟨⟨y, hsub y hy, rfl⟩, ?_⟩
    rintro _ ⟨x, hx, rfl⟩ hle
    obtain ⟨z, hz, hxz⟩ := hcov x hx
    obtain rfl := hl.eq_of_le hy hz (hle.trans hxz)
    exact hxz
  · rintro ⟨⟨x, hx, rfl⟩, hmax⟩
    obtain ⟨y, hy, hxy⟩ := hcov x hx
    exact ⟨y, hy, (hmax ⟨y, hsub y hy, rfl⟩ hxy).antisymm hxy⟩

variable (r) in
/-- The list consists of items of `s` and covers `s`. -/
def Gathers (l : List α) (s : Set α) : Prop := (∀ y ∈ l, y ∈ s) ∧ ∀ x ∈ s, Below r l (r x)

end NctuSdn
