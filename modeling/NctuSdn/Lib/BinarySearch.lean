/-
Binary search in a list that is strictly increasing under a comparison.

The search keeps a window `[low, high)`.  What is left of the window is below
the key and what is right of it is above, so a search that ends with an empty
window has found the place where the key belongs: `pairwise_of_insertAt` says
that the list stays strictly increasing when the key is put there.
-/
import Mathlib.Order.Nat

namespace NctuSdn

open List

variable {α : Type*} (cmp : α → α → Ordering)

/-- The key is at a place, or belongs there. -/
inductive SearchResult
  | found (i : ℕ)
  | insertAt (i : ℕ)
deriving DecidableEq, Repr

/-- Search for `key` in the window `[low, high)`. -/
def searchWindow (a : List α) (key : α) (low high : ℕ) : SearchResult :=
  if low < high then
    match a[(low + high - 1) / 2]? with
    | none => .insertAt low
    | some midVal =>
      match cmp midVal key with
      | .lt => searchWindow a key ((low + high - 1) / 2 + 1) high
      | .gt => searchWindow a key low ((low + high - 1) / 2)
      | .eq => .found ((low + high - 1) / 2)
  else .insertAt low
termination_by high - low

/-- Search for `key` in the whole list. -/
def binarySearch (a : List α) (key : α) : SearchResult :=
  searchWindow cmp a key 0 a.length

variable {cmp}

/-- What is left of `low` is below the key, what is right of `high` above. -/
structure Window (cmp : α → α → Ordering) (a : List α) (key : α) (low high : ℕ) : Prop where
  le : low ≤ high
  bound : high ≤ a.length
  below : ∀ j x, j < low → a[j]? = some x → cmp x key = .lt
  above : ∀ j x, high ≤ j → a[j]? = some x → cmp key x = .lt

variable {a : List α} {key : α} {low high : ℕ}

theorem window_whole : Window cmp a key 0 a.length where
  le := Nat.zero_le _
  bound := le_rfl
  below := fun j _ hj => absurd hj (Nat.not_lt_zero j)
  above := fun j x hj hx => by
    rw [getElem?_eq_none hj] at hx
    cases hx

section Sorted

variable (hsorted : a.Pairwise fun x y => cmp x y = .lt)
include hsorted

theorem lt_of_sorted {i j : ℕ} {x y : α} (hij : i < j) (hx : a[i]? = some x)
    (hy : a[j]? = some y) : cmp x y = .lt := by
  obtain ⟨hi, rfl⟩ := List.getElem?_eq_some_iff.mp hx
  obtain ⟨hj, rfl⟩ := List.getElem?_eq_some_iff.mp hy
  exact pairwise_iff_getElem.mp hsorted i j hi hj hij

variable [Std.TransCmp cmp]

theorem Window.right (h : Window cmp a key low high) {mid : ℕ} {midVal : α}
    (hhigh : mid < high) (hmid : a[mid]? = some midVal) (hlt : cmp midVal key = .lt) :
    Window cmp a key (mid + 1) high where
  le := hhigh
  bound := h.bound
  above := h.above
  below := fun j x hj hx => by
    rcases Nat.lt_or_eq_of_le (Nat.le_of_lt_succ hj) with hj | rfl
    · exact Std.TransCmp.lt_trans (lt_of_sorted hsorted hj hx hmid) hlt
    · rw [hx] at hmid
      cases hmid
      exact hlt

theorem Window.left (h : Window cmp a key low high) {mid : ℕ} {midVal : α} (hlow : low ≤ mid)
    (hhigh : mid < high) (hmid : a[mid]? = some midVal) (hgt : cmp midVal key = .gt) :
    Window cmp a key low mid where
  le := hlow
  bound := hhigh.le.trans h.bound
  below := h.below
  above := fun j x hj hx => by
    have hlt : cmp key midVal = .lt := Std.OrientedCmp.lt_of_gt hgt
    rcases Nat.lt_or_eq_of_le hj with hj | rfl
    · exact Std.TransCmp.lt_trans hlt (lt_of_sorted hsorted hj hmid hx)
    · rw [hx] at hmid
      cases hmid
      exact hlt

/-- **The search.**  It finds the key, or ends with an empty window. -/
theorem searchWindow_spec (h : Window cmp a key low high) :
    (∃ i x, searchWindow cmp a key low high = .found i ∧ a[i]? = some x ∧ cmp x key = .eq) ∨
      ∃ i, searchWindow cmp a key low high = .insertAt i ∧ Window cmp a key i i := by
  fun_induction searchWindow cmp a key low high with
  | case1 low high hlt hnone =>
    have hlength := getElem?_eq_none_iff.mp hnone
    have hbound := h.bound
    omega
  | case2 low high hlt midVal hmid hcmp ih => exact ih (h.right hsorted (by omega) hmid hcmp)
  | case3 low high hlt midVal hmid hcmp ih =>
    exact ih (h.left hsorted (by omega) (by omega) hmid hcmp)
  | case4 low high hlt midVal hmid hcmp => exact .inl ⟨_, midVal, rfl, hmid, hcmp⟩
  | case5 low high hge =>
    have heq : high = low := le_antisymm (not_lt.mp hge) h.le
    rw [heq] at h
    exact .inr ⟨low, rfl, h⟩

variable (key) in
theorem binarySearch_spec :
    (∃ i x, binarySearch cmp a key = .found i ∧ a[i]? = some x ∧ cmp x key = .eq) ∨
      ∃ i, binarySearch cmp a key = .insertAt i ∧ Window cmp a key i i :=
  searchWindow_spec hsorted window_whole

theorem pairwise_of_insertAt {i : ℕ} (h : Window cmp a key i i) :
    (a.take i ++ key :: a.drop i).Pairwise fun x y => cmp x y = .lt := by
  have hbelow : ∀ x ∈ a.take i, cmp x key = .lt := by
    intro x hx
    obtain ⟨j, hj, rfl⟩ := mem_take_iff_getElem.mp hx
    exact h.below j _ (by omega) (getElem?_eq_getElem _)
  have habove : ∀ y ∈ a.drop i, cmp key y = .lt := by
    intro y hy
    obtain ⟨j, hj, rfl⟩ := mem_drop_iff_getElem.mp hy
    exact h.above (i + j) _ (Nat.le_add_right i j) (getElem?_eq_getElem _)
  rw [pairwise_append, pairwise_cons]
  refine ⟨hsorted.take, ⟨habove, hsorted.drop⟩, fun x hx y hy => ?_⟩
  rcases mem_cons.mp hy with rfl | hy
  · exact hbelow x hx
  · exact Std.TransCmp.lt_trans (hbelow x hx) (habove y hy)

end Sorted

end NctuSdn
