/-
Items with two ends, indexed by their ends.

An item is listed under both of its ends, which may coincide.  `ListedByEnds`
says that a map of sets does this for a set `L` of items.  The two operations below keep it, one end
after the other, so an item with equal ends is put in (or taken out) twice.
-/
import NctuSdn.Lib.SetMap
import NctuSdn.Lib.SetOrder

namespace NctuSdn

variable {κ ι : Type*} [DecidableEq κ] [DecidableEq ι] {e₁ e₂ : ι → κ}

/-- The map lists the items of `L`, each under both of its ends. -/
def ListedByEnds (e₁ e₂ : ι → κ) (m : SetMap κ ι) (L : ι → Prop) : Prop :=
  ∀ k x, x ∈ m.get k ↔ L x ∧ (k = e₁ x ∨ k = e₂ x)

variable {m : SetMap κ ι} {L L' : ι → Prop}

/-- **One item more.** -/
theorem ListedByEnds.add (h : ListedByEnds e₁ e₂ m L) (x : ι) :
    ListedByEnds e₁ e₂ ((m.add (e₁ x) x).add (e₂ x) x) fun y => y = x ∨ L y := by
  intro k y
  rw [SetMap.mem_get_add, SetMap.mem_get_add, h]
  by_cases hy : y = x
  · subst hy
    simp only [and_true, true_or, true_and]
    tauto
  · simp [hy]

/-- **One item less.** -/
theorem ListedByEnds.remove (h : ListedByEnds e₁ e₂ m L) (x : ι) :
    ListedByEnds e₁ e₂ ((((m.sub (e₁ x) x).drop (e₁ x)).sub (e₂ x) x).drop (e₂ x))
      fun y => L y ∧ y ≠ x := by
  intro k y
  rw [SetMap.get_drop, SetMap.mem_get_sub, SetMap.get_drop, SetMap.mem_get_sub, h]
  by_cases hy : y = x
  · subst hy
    -- whichever end `k` is, the item has been taken out there
    simp only [and_true, ne_eq, not_true_eq_false, and_false, false_and, iff_false]
    tauto
  · simp [hy]

omit [DecidableEq ι] in
theorem ListedByEnds.congr (h : ListedByEnds e₁ e₂ m L) (hL : ∀ x, L' x ↔ L x) :
    ListedByEnds e₁ e₂ m L' := by
  intro k x
  rw [hL, h]

omit [DecidableEq ι] in
theorem ListedByEnds.mem_toList (h : ListedByEnds e₁ e₂ m L) {k : κ} {s : Finset ι}
    (hlookup : m.lookup k = some s) (order : SetOrder ι) (x : ι) :
    x ∈ order.toList s ↔ L x ∧ (k = e₁ x ∨ k = e₂ x) := by
  rw [order.mem_toList, ← h, SetMap.get, hlookup]
  rfl

end NctuSdn
