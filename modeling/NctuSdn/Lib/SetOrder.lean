/-
Orders of iteration.

A hash set is iterated in an order that depends on what it holds and on
nothing a program can rely on.  A `SetOrder` is one such order; statements
about programs quantify over it.
-/
import Mathlib.Data.Finset.Basic

namespace NctuSdn

/-- The order in which a hash set is iterated. -/
structure SetOrder (α : Type*) where
  toList : Finset α → List α
  nodup : ∀ s, (toList s).Nodup
  mem_toList : ∀ s a, a ∈ toList s ↔ a ∈ s

theorem SetOrder.fresh {α : Type*} (order : SetOrder α) {s : Finset α} {done rest : List α} {x : α}
    (h : order.toList s = done ++ x :: rest) : x ∉ done ∧ x ∈ s := by
  have hnodup := order.nodup s
  rw [h, List.nodup_middle, List.nodup_cons, List.mem_append, not_or] at hnodup
  refine ⟨hnodup.1.1, (order.mem_toList s x).mp ?_⟩
  rw [h]
  simp

noncomputable def anyOrder (α : Type*) : SetOrder α where
  toList := Finset.toList
  nodup := Finset.nodup_toList
  mem_toList := fun _ _ => Finset.mem_toList

section Candidates

variable {α : Type*} [DecidableEq α] (candidates : List α)

/-- Sets are listed in the order of `candidates` as far as it goes. -/
noncomputable def candidatesFirst (s : Finset α) : List α :=
  if s ⊆ candidates.toFinset then candidates.dedup.filter (· ∈ s) else s.toList

theorem nodup_candidatesFirst (s : Finset α) : (candidatesFirst candidates s).Nodup := by
  unfold candidatesFirst
  split
  · exact (List.nodup_dedup candidates).filter _
  · exact s.nodup_toList

theorem mem_candidatesFirst (s : Finset α) (a : α) : a ∈ candidatesFirst candidates s ↔ a ∈ s := by
  unfold candidatesFirst
  split
  case isTrue hsub =>
    rw [List.mem_filter, List.mem_dedup, decide_eq_true_iff]
    exact ⟨And.right, fun ha => ⟨List.mem_toFinset.mp (hsub ha), ha⟩⟩
  case isFalse => exact Finset.mem_toList

/-- An order that can be evaluated on small sets. -/
noncomputable def candidateOrder : SetOrder α where
  toList := candidatesFirst candidates
  nodup := nodup_candidatesFirst candidates
  mem_toList := mem_candidatesFirst candidates

end Candidates

end NctuSdn
