/-
Shortest walks in a directed graph, certified by labels.

The edges carry positive costs.  Every vertex may have a label and a chosen
edge.  If the labels cannot be lowered along any edge, and each is attained by
the chosen edge (`Labelling`), then the labels are the costs of the cheapest
walks to the root, and following the chosen edges gives such a walk.  How the
labels were found plays no part.
-/
import Mathlib.Algebra.BigOperators.Group.List.Basic
import Mathlib.Algebra.Order.BigOperators.Group.Finset
import Mathlib.Algebra.Order.Group.Int
import Mathlib.Algebra.Ring.Int.Defs
import Mathlib.Data.List.Nodup
import Mathlib.Order.Bounds.Basic

namespace NctuSdn

variable {V E : Type*}

/-- The edges of `es` lead from `a` to `b`, one after the other. -/
def IsWalk (src dst : E → V) (L : Set E) : V → V → List E → Prop
  | a, b, [] => a = b
  | a, b, e :: es => e ∈ L ∧ src e = a ∧ IsWalk src dst L (dst e) b es

def walkCost (w : E → ℤ) (es : List E) : ℤ := (es.map w).sum

@[simp] theorem walkCost_cons (w : E → ℤ) (e : E) (es : List E) :
    walkCost w (e :: es) = w e + walkCost w es := by
  simp [walkCost]

/-! ### Walks with few edges -/

section Direct

variable {src dst : E → V} {L : Set E} {a b : V} {e : E} {es : List E}

theorem IsWalk.mem (h : IsWalk src dst L a b es) : ∀ e ∈ es, e ∈ L := by
  induction es generalizing a with
  | nil => exact fun e he => absurd he List.not_mem_nil
  | cons e es ih => exact List.forall_mem_cons.mpr ⟨h.1, ih h.2.2⟩

/-- What comes behind an edge of a walk is a walk from its end. -/
theorem IsWalk.drop {fs : List E} (h : IsWalk src dst L a b (es ++ e :: fs)) :
    IsWalk src dst L (dst e) b fs := by
  induction es generalizing a with
  | nil => exact h.2.2
  | cons e' es ih => exact ih h.2.2

/-- A walk with as few edges as possible. -/
structure Direct (src dst : E → V) (L : Set E) (a b : V) (es : List E) : Prop where
  walk : IsWalk src dst L a b es
  least : ∀ fs, IsWalk src dst L a b fs → es.length ≤ fs.length

theorem exists_direct (h : ∃ es, IsWalk src dst L a b es) : ∃ es, Direct src dst L a b es := by
  obtain ⟨es, hes, hleast⟩ :=
    (measure List.length).wf.has_min {es | IsWalk src dst L a b es} h
  exact ⟨es, hes, fun fs hfs => not_lt.mp (hleast fs hfs)⟩

theorem Direct.tail (h : Direct src dst L a b (e :: es)) : Direct src dst L (dst e) b es where
  walk := h.walk.2.2
  least := fun fs hfs =>
    Nat.le_of_succ_le_succ (h.least (e :: fs) ⟨h.walk.1, h.walk.2.1, hfs⟩)

/-- It does not come back over an edge to its start. -/
theorem Direct.notMem (h : Direct src dst L (dst e) b es) : e ∉ es := by
  intro he
  obtain ⟨fs, gs, rfl⟩ := List.append_of_mem he
  have hle := h.least gs h.walk.drop
  rw [List.length_append, List.length_cons] at hle
  omega

theorem Direct.nodup (h : Direct src dst L a b es) : es.Nodup := by
  induction es generalizing a with
  | nil => exact List.nodup_nil
  | cons e es ih => exact List.nodup_cons.mpr ⟨h.tail.notMem, ih h.tail⟩

theorem walkCost_le_sum [DecidableEq E] {w : E → ℤ} {S : Finset E} (hw : ∀ e ∈ S, 0 ≤ w e)
    (hnodup : es.Nodup) (hmem : ∀ e ∈ es, e ∈ S) : walkCost w es ≤ ∑ e ∈ S, w e := by
  calc walkCost w es = ∑ e ∈ es.toFinset, w e := (List.sum_toFinset w hnodup).symm
    _ ≤ ∑ e ∈ S, w e :=
      Finset.sum_le_sum_of_subset_of_nonneg (fun e he => hmem e (List.mem_toFinset.mp he))
        fun e he _ => hw e he

end Direct

/-! ### Labels -/

/-- The chosen edges lead from a vertex to the root along `es`. -/
inductive Follows (dst : E → V) (next : V → Option E) (root : V) : V → List E → Prop
  | root : Follows dst next root root []
  | step {v : V} {e : E} {es : List E} (hv : v ≠ root) (he : next v = some e)
      (hes : Follows dst next root (dst e) es) : Follows dst next root v (e :: es)

theorem Follows.root_notMem {src dst : E → V} {next : V → Option E} {L : Set E} {root v : V}
    {es : List E} (h : Follows dst next root v es) (hes : IsWalk src dst L v root es) :
    root ∉ es.map src := by
  induction h with
  | root => exact List.not_mem_nil
  | step hv _ _ ih =>
    obtain ⟨-, rfl, hes⟩ := hes
    rw [List.map_cons, List.mem_cons, not_or]
    exact ⟨hv.symm, ih hes⟩

/-- Labels `d` and chosen edges `next` that cannot be improved. -/
structure Labelling (src dst : E → V) (L : Set E) (w : E → ℤ) (root : V) (d : V → Option ℤ)
    (next : V → Option E) : Prop where
  root_zero : d root = some 0
  relaxed : ∀ e ∈ L, ∀ x, d (dst e) = some x → ∃ y, d (src e) = some y ∧ y ≤ x + w e
  tight : ∀ v y, v ≠ root → d v = some y →
    ∃ e ∈ L, next v = some e ∧ src e = v ∧ ∃ x, 0 ≤ x ∧ d (dst e) = some x ∧ y = x + w e
  next_none : ∀ v, next v = none ↔ v = root ∨ d v = none

namespace Labelling

variable {src dst : E → V} {L : Set E} {w : E → ℤ} {root v : V} {d : V → Option ℤ}
  {next : V → Option E}

theorem le_walkCost (h : Labelling src dst L w root d next) {es : List E} :
    ∀ {v : V}, IsWalk src dst L v root es → ∃ y, d v = some y ∧ y ≤ walkCost w es := by
  induction es with
  | nil =>
    rintro v rfl
    exact ⟨0, h.root_zero, le_refl _⟩
  | cons e es ih =>
    rintro v ⟨he, rfl, hes⟩
    obtain ⟨x, hx, hle⟩ := ih hes
    obtain ⟨y, hy, hyx⟩ := h.relaxed e he x hx
    refine ⟨y, hy, ?_⟩
    rw [walkCost_cons]
    omega

section

variable (h : Labelling src dst L w root d next) (hpos : ∀ e ∈ L, 0 < w e)
include h hpos

/-- Following the chosen edges from a vertex with a label gives a walk that
costs as much as the label says.  It meets vertices with smaller and smaller
labels. -/
theorem exists_follows {y : ℤ} (hv : d v = some y) :
    ∃ es, Follows dst next root v es ∧ IsWalk src dst L v root es ∧ walkCost w es = y ∧
      (∀ e ∈ es, ∃ z, d (src e) = some z ∧ z ≤ y) ∧ (es.map src).Nodup := by
  -- the labels are not negative, and the chosen edge lowers them
  induction hn : y.toNat using Nat.strongRecOn generalizing v y with
  | ind n ih =>
    by_cases hroot : v = root
    · subst hroot
      have hy : y = 0 := Option.some.inj (hv.symm.trans h.root_zero)
      exact ⟨[], .root, rfl, hy.symm, by simp, by simp⟩
    · obtain ⟨e, he, hnext, hsrc, x, hx, hdst, hyx⟩ := h.tight v y hroot hv
      have hw := hpos e he
      obtain ⟨es, hfol, hwalk, hcost, hle, hnodup⟩ := ih x.toNat (by omega) hdst rfl
      refine ⟨e :: es, .step hroot hnext hfol, ⟨he, hsrc, hwalk⟩, ?_, ?_, ?_⟩
      · rw [walkCost_cons, hcost]
        omega
      · intro e' he'
        rcases List.mem_cons.mp he' with rfl | he'
        · exact ⟨y, hsrc ▸ hv, le_refl y⟩
        · obtain ⟨z, hz, hzx⟩ := hle e' he'
          exact ⟨z, hz, by omega⟩
      · rw [List.map_cons, List.nodup_cons]
        refine ⟨fun hmem => ?_, hnodup⟩
        -- a vertex met later has a smaller label
        obtain ⟨e', he', heq⟩ := List.mem_map.mp hmem
        obtain ⟨z, hz, hzx⟩ := hle e' he'
        rw [heq, hsrc, hv] at hz
        cases hz
        omega

theorem exists_walk_iff :
    (∃ es, IsWalk src dst L v root es) ↔ d v ≠ none := by
  constructor
  · rintro ⟨es, hes⟩ hnone
    obtain ⟨y, hy, -⟩ := h.le_walkCost hes
    rw [hnone] at hy
    cases hy
  · intro hsome
    obtain ⟨y, hy⟩ := Option.ne_none_iff_exists'.mp hsome
    obtain ⟨es, -, hes, -⟩ := h.exists_follows hpos hy
    exact ⟨es, hes⟩

/-- **The labels are the costs of the cheapest walks.** -/
theorem isLeast {y : ℤ} (hv : d v = some y) :
    IsLeast {x | ∃ es, IsWalk src dst L v root es ∧ walkCost w es = x} y := by
  constructor
  · obtain ⟨es, -, hes, hcost, -⟩ := h.exists_follows hpos hv
    exact ⟨es, hes, hcost⟩
  · rintro x ⟨es, hes, rfl⟩
    obtain ⟨z, hz, hle⟩ := h.le_walkCost hes
    rw [hv] at hz
    cases hz
    exact hle

end

end Labelling

end NctuSdn
