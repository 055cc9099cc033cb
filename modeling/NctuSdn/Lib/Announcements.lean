/-
Announcements of what comes and goes.

A log says of keys that they have come (`true`) or gone (`false`).  It
announces a set if for each key the entries alternate, the first says that it
came, and the last says whether it is in the set.
-/
import Mathlib.Data.Finset.Basic
import Mathlib.Data.List.Chain

namespace NctuSdn

variable {κ : Type*} [DecidableEq κ]

/-- What a log says about a key. -/
def about (log : List (κ × Bool)) (k : κ) : List Bool :=
  log.filterMap fun e => if e.1 = k then some e.2 else none

/-- A log that follows a set. -/
structure Announces (log : List (κ × Bool)) (s : Finset κ) : Prop where
  alternates : ∀ k, (about log k).IsChain (· ≠ ·)
  first : ∀ k, ∀ b ∈ (about log k).head?, b = true
  last : ∀ k, (about log k).getLast? = some true ↔ k ∈ s

variable {log : List (κ × Bool)} {s s' : Finset κ} {k : κ}

theorem about_append_self (b : Bool) : about (log ++ [(k, b)]) k = about log k ++ [b] := by
  simp [about]

theorem about_append_of_ne {k' : κ} (h : k ≠ k') (b : Bool) :
    about (log ++ [(k, b)]) k' = about log k' := by
  simp [about, h]

namespace Announces

theorem nil : Announces [] (∅ : Finset κ) where
  alternates := fun _ => List.isChain_nil
  first := fun _ _ h => nomatch h
  last := fun k => by simp [about]

section

variable (h : Announces log s)
include h

theorem congr (hs : ∀ x, x ∈ s' ↔ x ∈ s) : Announces log s' :=
  ⟨h.alternates, h.first, fun x => (h.last x).trans (hs x).symm⟩

theorem eq_false_of_notMem (hk : k ∉ s) {b : Bool} (hb : b ∈ (about log k).getLast?) :
    b = false := by
  cases b with
  | false => rfl
  | true => exact absurd ((h.last k).mp hb) hk

theorem append {b : Bool} (hlast : ∀ c ∈ (about log k).getLast?, c ≠ b)
    (hfirst : about log k = [] → b = true) (hself : k ∈ s' ↔ b = true)
    (hs : ∀ x, x ≠ k → (x ∈ s' ↔ x ∈ s)) : Announces (log ++ [(k, b)]) s' where
  alternates := by
    intro x
    by_cases hx : k = x
    · subst hx
      rw [about_append_self]
      refine (h.alternates k).append (List.isChain_singleton _) ?_
      intro c hc d hd
      obtain rfl : b = d := Option.some.inj hd
      exact hlast c hc
    · rw [about_append_of_ne hx]
      exact h.alternates x
  first := by
    intro x c hc
    by_cases hx : k = x
    · subst hx
      rw [about_append_self] at hc
      cases habout : about log k with
      | nil =>
        rw [habout] at hc
        exact (Option.some.inj hc).symm.trans (hfirst habout)
      | cons d ds =>
        rw [habout] at hc
        exact h.first k c (by rw [habout]; exact hc)
    · rw [about_append_of_ne hx] at hc
      exact h.first x c hc
  last := by
    intro x
    by_cases hx : k = x
    · subst hx
      rw [about_append_self, List.getLast?_concat, Option.some.injEq, hself]
    · rw [about_append_of_ne hx, h.last, hs x (Ne.symm hx)]

/-- **A key comes.** -/
theorem come (hk : k ∉ s) (hs : ∀ x, x ∈ s' ↔ x = k ∨ x ∈ s) :
    Announces (log ++ [(k, true)]) s' := by
  refine h.append (fun c hc => ?_) (fun _ => rfl) (iff_of_true ((hs k).mpr (.inl rfl)) rfl) ?_
  · rw [h.eq_false_of_notMem hk hc]
    exact Bool.false_ne_true
  · exact fun x hx => (hs x).trans (or_iff_right hx)

/-- **A key goes.** -/
theorem go (hk : k ∈ s) (hs : ∀ x, x ∈ s' ↔ x ≠ k ∧ x ∈ s) :
    Announces (log ++ [(k, false)]) s' := by
  have hlast := (h.last k).mpr hk
  refine h.append (fun c hc => ?_) (fun hnil => ?_) (iff_of_false ?_ nofun) ?_
  · obtain rfl : true = c := Option.some.inj (hlast.symm.trans hc)
    exact Bool.false_ne_true.symm
  · -- there is an entry before, namely the last one
    rw [hnil] at hlast
    cases hlast
  · exact fun hmem => ((hs k).mp hmem).1 rfl
  · exact fun x hx => (hs x).trans (and_iff_right hx)

end

end Announces

end NctuSdn
