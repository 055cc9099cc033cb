/-
Trees given by parents.

Every vertex of a finite set but the root has a parent, and going to the
parent lowers a rank.  The graph of the edges between vertices and their
parents is then connected, because the root is reached from everywhere, and
has one edge less than vertices, because it has one for each vertex that is
not the root.
-/
import Mathlib.Combinatorics.SimpleGraph.Acyclic

namespace NctuSdn

variable {V : Type*} {G : SimpleGraph V} {root : V} {parent : V → V} {rank : V → ℕ}

theorem reachable_root (hrank : ∀ v, v ≠ root → rank (parent v) < rank v)
    (hadj : ∀ v, v ≠ root → G.Adj v (parent v)) (v : V) : G.Reachable v root := by
  induction hn : rank v using Nat.strongRecOn generalizing v with
  | ind n ih =>
    by_cases hv : v = root
    · rw [hv]
    · have hlt : rank (parent v) < n := hn ▸ hrank v hv
      exact (hadj v hv).reachable.trans (ih _ hlt (parent v) rfl)

/-- **The edges to the parents form a tree.** -/
theorem isTree_of_parent [Finite V] (root : V) (parent : V → V) (rank : V → ℕ)
    (hrank : ∀ v, v ≠ root → rank (parent v) < rank v) (hadj : ∀ v, v ≠ root → G.Adj v (parent v))
    (honly : ∀ u v, G.Adj u v → (u ≠ root ∧ parent u = v) ∨ (v ≠ root ∧ parent v = u)) :
    G.IsTree := by
  have hconnected : G.Connected := by
    refine (SimpleGraph.connected_iff_exists_forall_reachable G).mpr ⟨root, fun v => ?_⟩
    exact (reachable_root hrank hadj v).symm
  -- each vertex other than the root accounts for one edge
  let edge : {v // v ≠ root} → G.edgeSet := fun v => ⟨s(v, parent v), hadj v v.2⟩
  have hsurj : Function.Surjective edge := by
    rintro ⟨e, he⟩
    induction e using Sym2.ind with
    | _ u v =>
      rcases honly u v he with ⟨hu, rfl⟩ | ⟨hv, rfl⟩
      · exact ⟨⟨u, hu⟩, rfl⟩
      · exact ⟨⟨v, hv⟩, Subtype.ext Sym2.eq_swap⟩
  have hle : Nat.card G.edgeSet ≤ Nat.card {v // v ≠ root} :=
    Nat.card_le_card_of_surjective edge hsurj
  have hlt : Nat.card {v // v ≠ root} < Nat.card V :=
    Finite.card_subtype_lt (not_not.mpr (rfl : root = root))
  have hge := hconnected.card_vert_le_card_edgeSet_add_one
  exact SimpleGraph.isTree_iff_connected_and_card.mpr ⟨hconnected, by omega⟩

end NctuSdn
