/-
Indexes over a store of collections.

A store has a list of elements for each of its keys.  An index is a relation
between the values of a field and the keys: it lists a key under a value if an
element of the key's list has that value.  Some values may be left out (those
not in `P`), as a field that is not set need not be indexed.

`Lists` says that an index is exact.  Each operation of a program changes the
list of one key, and the index with it; the rules below say what the index has
to do for `Lists` to hold again.
-/
import Mathlib.Logic.Function.Basic

namespace NctuSdn

open Function

variable {ε κ K : Type*} {R R' : κ → K → Prop} {key : ε → κ} {P : κ → Prop}
  {store store' : K → List ε}

/-- The index lists exactly the values that the elements have. -/
def Lists (R : κ → K → Prop) (key : ε → κ) (P : κ → Prop) (store : K → List ε) : Prop :=
  ∀ x k, R x k ↔ P x ∧ ∃ e ∈ store k, key e = x

theorem lists_empty (hR : ∀ x k, ¬ R x k) (hstore : ∀ k, store k = []) :
    Lists R key P store := by
  intro x k
  constructor
  · intro hx
    exact absurd hx (hR x k)
  · rintro ⟨-, e, he, -⟩
    rw [hstore k] at he
    exact absurd he List.not_mem_nil

theorem Lists.congr (h : Lists R key P store)
    (hstore : ∀ k, (store' k).map key = (store k).map key) : Lists R key P store' := by
  have hvalues : ∀ x k, (∃ e ∈ store' k, key e = x) ↔ ∃ e ∈ store k, key e = x := by
    intro x k
    rw [← List.mem_map, ← List.mem_map, hstore k]
  intro x k
  rw [h x k, hvalues]

/-- **Adding an element**: its value is listed. -/
theorem Lists.add [DecidableEq K] (h : Lists R key P store) {k : K} {e : ε} {es : List ε}
    (hes : ∀ o, o ∈ es ↔ o = e ∨ o ∈ store k)
    (hR : ∀ y j, R' y j ↔ R y j ∨ P y ∧ key e = y ∧ j = k) :
    Lists R' key P (update store k es) := by
  intro y j
  rw [hR, h y j]
  by_cases hj : j = k
  · subst hj
    rw [update_self]
    constructor
    · rintro (⟨hP, o, ho, hkey⟩ | ⟨hP, hkey, -⟩)
      · exact ⟨hP, o, (hes o).mpr (.inr ho), hkey⟩
      · exact ⟨hP, e, (hes e).mpr (.inl rfl), hkey⟩
    · rintro ⟨hP, o, ho, hkey⟩
      rcases (hes o).mp ho with rfl | ho
      · exact .inr ⟨hP, hkey, rfl⟩
      · exact .inl ⟨hP, o, ho, hkey⟩
  · rw [update_of_ne hj]
    constructor
    · rintro (hold | ⟨-, -, heq⟩)
      · exact hold
      · exact absurd heq hj
    · exact .inl

/-- **Removing elements**: a value is forgotten unless an element that stays
has it too. -/
theorem Lists.shrink [DecidableEq K] (h : Lists R key P store) {k : K} {removed kept : List ε}
    (hsplit : ∀ e, e ∈ store k ↔ e ∈ removed ∨ e ∈ kept) (hR : ∀ y j, R' y j ↔
      R y j ∧ ¬ ∃ e ∈ removed, j = k ∧ key e = y ∧ ∀ o ∈ kept, key o ≠ y) :
    Lists R' key P (update store k kept) := by
  intro y j
  rw [hR, h y j]
  by_cases hj : j = k
  · subst hj
    rw [update_self]
    constructor
    · rintro ⟨⟨hP, e, he, hkey⟩, hforget⟩
      refine ⟨hP, ?_⟩
      rcases (hsplit e).mp he with he | he
      · by_contra hnone
        exact hforget ⟨e, he, rfl, hkey, fun o ho heq => hnone ⟨o, ho, heq⟩⟩
      · exact ⟨e, he, hkey⟩
    · rintro ⟨hP, o, ho, hkey⟩
      refine ⟨⟨hP, o, (hsplit o).mpr (.inr ho), hkey⟩, ?_⟩
      rintro ⟨e, -, -, -, hnone⟩
      exact hnone o ho hkey
  · rw [update_of_ne hj]
    constructor
    · exact And.left
    · intro hold
      refine ⟨hold, ?_⟩
      rintro ⟨e, -, heq, -⟩
      exact hj heq

theorem Lists.unique (h : Lists R key P store)
    (hR : ∀ {x k k'}, R x k → R x k' → k = k') {k k' : K} {e e' : ε} (he : e ∈ store k)
    (he' : e' ∈ store k') (hP : P (key e)) (hkey : key e' = key e) : k = k' :=
  hR ((h (key e) k).mpr ⟨hP, e, he, rfl⟩) ((h (key e) k').mpr ⟨hP, e', he', hkey⟩)

end NctuSdn
