/-
Tables that hold the values of a family.

Every index of a family may have a value under a key.  A table represents the
family if it has these values under these keys and no others.  Where no two
indexes share a key, a change of one index is a change of the table at its old
and at its new key (`Represents.clear`, `Represents.put`, `Represents.replace`).
A table that is only written at the new key is right if the key was not another
one (`Represents.put_iff`).
-/
import Mathlib.Logic.Function.Basic

namespace KeyedTable

open Function

variable {ι κ ν : Type*}
variable {F : ι → Option (κ × ν)} {t : κ → Option ν} {i : ι} {k k' : κ} {v v' : ν}

/-- The table has the values of the family. -/
def Represents (F : ι → Option (κ × ν)) (t : κ → Option ν) : Prop :=
  ∀ k v, t k = some v ↔ ∃ i, F i = some (k, v)

/-- No two indexes share a key. -/
def DistinctKeys (F : ι → Option (κ × ν)) : Prop :=
  ∀ i j k v v', F i = some (k, v) → F j = some (k, v') → i = j

theorem represents_empty : Represents (fun _ : ι => (none : Option (κ × ν))) fun _ => none := by
  intro k v
  constructor
  · intro h
    cases h
  · rintro ⟨i, h⟩
    cases h

variable [DecidableEq ι] [DecidableEq κ]

theorem Represents.clear (h : Represents F t) (hF : DistinctKeys F) (hi : F i = some (k, v)) :
    Represents (Function.update F i none) (Function.update t k none) := by
  intro k₁ v₁
  by_cases hk : k₁ = k
  · subst hk
    rw [update_self]
    refine ⟨fun h => (nomatch h), ?_⟩
    rintro ⟨j, hj⟩
    by_cases hji : j = i
    · rw [hji, update_self] at hj
      cases hj
    · rw [update_of_ne hji] at hj
      exact absurd (hF j i k₁ v₁ v hj hi) hji
  · rw [update_of_ne hk, h k₁ v₁]
    constructor
    · rintro ⟨j, hj⟩
      have hji : j ≠ i := by
        rintro rfl
        rw [hi] at hj
        cases hj
        exact hk rfl
      exact ⟨j, by rwa [update_of_ne hji]⟩
    · rintro ⟨j, hj⟩
      by_cases hji : j = i
      · rw [hji, update_self] at hj
        cases hj
      · exact ⟨j, by rwa [update_of_ne hji] at hj⟩

theorem Represents.put (h : Represents F t) (hi : F i = none)
    (hF : DistinctKeys (Function.update F i (some (k, v)))) :
    Represents (Function.update F i (some (k, v))) (Function.update t k (some v)) := by
  intro k₁ v₁
  by_cases hk : k₁ = k
  · subst hk
    rw [update_self]
    constructor
    · intro hv
      cases hv
      exact ⟨i, update_self ..⟩
    · rintro ⟨j, hj⟩
      have hji : j = i := hF j i k₁ v₁ v hj (update_self ..)
      rw [hji, update_self] at hj
      cases hj
      rfl
  · rw [update_of_ne hk, h k₁ v₁]
    constructor
    · rintro ⟨j, hj⟩
      have hji : j ≠ i := by
        rintro rfl
        rw [hi] at hj
        cases hj
      exact ⟨j, by rwa [update_of_ne hji]⟩
    · rintro ⟨j, hj⟩
      by_cases hji : j = i
      · rw [hji, update_self] at hj
        cases hj
        exact absurd rfl hk
      · exact ⟨j, by rwa [update_of_ne hji] at hj⟩

theorem Represents.replace (h : Represents F t) (hF : DistinctKeys F) (hi : F i = some (k, v))
    (hF' : DistinctKeys (Function.update F i (some (k', v')))) :
    Represents (Function.update F i (some (k', v')))
      (Function.update (Function.update t k none) k' (some v')) := by
  have hclear := h.clear hF hi
  have hput := hclear.put (update_self ..) (k := k') (v := v')
  rw [update_idem] at hput
  exact hput hF'

/-- An index gets a value and the table is written at its key only.  That is
enough exactly if the index has had no other key. -/
theorem Represents.put_iff (h : Represents F t) (hF : DistinctKeys F)
    (hF' : DistinctKeys (Function.update F i (some (k, v)))) :
    Represents (Function.update F i (some (k, v))) (Function.update t k (some v)) ↔
      ∀ k' v', F i = some (k', v') → k' = k := by
  constructor
  · intro h' k' v' hi
    by_contra hk
    have ht : Function.update t k (some v) k' = some v' := by
      rw [update_of_ne hk]
      exact (h k' v').mpr ⟨i, hi⟩
    obtain ⟨j, hj⟩ := (h' k' v').mp ht
    by_cases hji : j = i
    · rw [hji, update_self] at hj
      cases hj
      exact hk rfl
    · rw [update_of_ne hji] at hj
      exact hji (hF j i k' v' v' hj hi)
  · intro hk
    cases hi : F i with
    | none => exact h.put hi hF'
    | some old =>
      obtain ⟨k', v'⟩ := old
      have hreplace := h.replace hF hi hF'
      rwa [hk k' v' hi, update_idem] at hreplace

end KeyedTable
