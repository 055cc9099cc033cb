/-
States made of cells.

A state gives a content to each key of `K`, and an operation works on the
cell of one key: what it leaves there depends on what was there, and it
leaves every other cell alone.  A sequence of operations on different keys
then acts on each cell at most once, in whatever order it is run.
-/
import Mathlib.Data.List.Nodup

namespace NctuSdn

open List

variable {σ K C E : Type*}

/-- The operations `run` works on the cell of `key`, as `effect` says. -/
structure Local (get : σ → K → C) (run : σ → E → σ) (key : E → K) (effect : E → C → C) : Prop where
  self : ∀ s e, get (run s e) (key e) = effect e (get s (key e))
  other : ∀ s e k, k ≠ key e → get (run s e) k = get s k

variable {get : σ → K → C} {run : σ → E → σ} {key : E → K} {effect : E → C → C}

namespace Local

theorem get_foldl_of_not_mem (h : Local get run key effect) {es : List E} {k : K}
    (hk : k ∉ es.map key) (s : σ) : get (es.foldl run s) k = get s k := by
  induction es generalizing s with
  | nil => rfl
  | cons e es ih =>
    rw [map_cons, mem_cons, not_or] at hk
    rw [foldl_cons, ih hk.2]
    exact h.other s e k hk.1

theorem get_foldl_of_mem (h : Local get run key effect) {es : List E}
    (hnodup : (es.map key).Nodup) {e : E} (he : e ∈ es) (s : σ) :
    get (es.foldl run s) (key e) = effect e (get s (key e)) := by
  induction es generalizing s with
  | nil => cases he
  | cons e' es ih =>
    rw [map_cons, nodup_cons] at hnodup
    rw [foldl_cons]
    rcases mem_cons.mp he with rfl | he
    · -- nothing behind the first operation touches its cell
      rw [h.get_foldl_of_not_mem hnodup.1]
      exact h.self s e
    · have hne : key e ≠ key e' := by
        intro heq
        apply hnodup.1
        rw [← heq]
        exact mem_map_of_mem he
      rw [ih hnodup.2 he, h.other s e' (key e) hne]

end Local

end NctuSdn
