/-
Parents that list their children, and children that point back.

The lists and the pointers are kept in two tables.  They are linked if every
listed child points back to the parent that lists it.  A child may point to a
parent that does not list it.

For each change of the tables there is the condition under which a linked pair
stays linked.
-/
import Mathlib.Tactic.Common

namespace Backlinks

open Function

variable {π κ : Type*} {children : π → Option (List κ)} {parent : κ → Option (Option π)}
variable {p : π} {c : κ} {cs : List κ}

/-- Every listed child points back. -/
def Linked (children : π → Option (List κ)) (parent : κ → Option (Option π)) : Prop :=
  ∀ p cs, children p = some cs → ∀ c ∈ cs, parent c = some (some p)

/-- Only the parent that a child points to can list it. -/
theorem Linked.eq_parent (h : Linked children parent) {o : Option π} (hc : parent c = some o)
    {q : π} {ds : List κ} (hq : children q = some ds) (hmem : c ∈ ds) : o = some q := by
  have hback := h q ds hq c hmem
  rw [hc] at hback
  exact Option.some.inj hback

variable [DecidableEq π] [DecidableEq κ]

omit [DecidableEq κ] in
/-- A parent gets a list. -/
theorem Linked.setParent_iff (h : Linked children parent) :
    Linked (Function.update children p (some cs)) parent ↔
      ∀ c ∈ cs, parent c = some (some p) := by
  constructor
  · intro h'
    exact h' p cs (update_self ..)
  · intro hcs q ds hq
    by_cases hqp : q = p
    · subst hqp
      rw [update_self] at hq
      cases hq
      exact hcs
    · rw [update_of_ne hqp] at hq
      exact h q ds hq

omit [DecidableEq κ] in
/-- A parent loses its list. -/
theorem Linked.removeParent (h : Linked children parent) (p : π) :
    Linked (Function.update children p none) parent := by
  intro q cs hq
  by_cases hqp : q = p
  · subst hqp
    rw [update_self] at hq
    cases hq
  · rw [update_of_ne hqp] at hq
    exact h q cs hq

omit [DecidableEq π] in
/-- A child gets a pointer, or loses its entry. -/
theorem Linked.setChild_iff (h : Linked children parent) (q : Option (Option π)) :
    Linked children (Function.update parent c q) ↔
      ∀ p cs, children p = some cs → c ∈ cs → q = some (some p) := by
  constructor
  · intro h' p cs hp hc
    have hback := h' p cs hp c hc
    rwa [update_self] at hback
  · intro hq p cs hp d hd
    by_cases hdc : d = c
    · subst hdc
      rw [update_self]
      exact hq p cs hp hd
    · rw [update_of_ne hdc]
      exact h p cs hp d hd

/-- A child is appended to the list of a parent and points to it. -/
theorem Linked.append_iff (h : Linked children parent) (hp : children p = some cs) :
    Linked (Function.update children p (some (cs ++ [c])))
        (Function.update parent c (some (some p))) ↔
      ∀ q ds, children q = some ds → c ∈ ds → q = p := by
  constructor
  · intro h' q ds hq hc
    by_cases hqp : q = p
    · exact hqp
    · have hback := h' q ds (by rwa [update_of_ne hqp]) c hc
      rw [update_self] at hback
      cases hback
      exact absurd rfl hqp
  · intro honly
    have hlinked : Linked children (Function.update parent c (some (some p))) := by
      rw [h.setChild_iff]
      intro q ds hq hc
      rw [honly q ds hq hc]
    rw [hlinked.setParent_iff]
    intro d hd
    rcases List.mem_append.mp hd with hd | hd
    · exact hlinked p cs hp d hd
    · rw [List.mem_singleton.mp hd, update_self]

/-- A child is erased from the list of its parent and loses its entry. -/
theorem Linked.erase_iff (h : Linked children parent) (hp : children p = some cs)
    (hc : parent c = some (some p)) :
    Linked (Function.update children p (some (cs.erase c))) (Function.update parent c none) ↔
      cs.count c ≤ 1 := by
  have hkept : Linked (Function.update children p (some (cs.erase c))) parent := by
    rw [h.setParent_iff]
    intro d hd
    exact h p cs hp d (List.mem_of_mem_erase hd)
  have hcount : c ∉ cs.erase c ↔ cs.count c ≤ 1 := by
    rw [← List.count_eq_zero, List.count_erase_self]
    omega
  rw [hkept.setChild_iff, ← hcount]
  constructor
  · intro hnone hmem
    cases hnone p (cs.erase c) (update_self ..) hmem
  · intro hmem q ds hq hd
    by_cases hqp : q = p
    · subst hqp
      rw [update_self] at hq
      cases hq
      exact absurd hd hmem
    · rw [update_of_ne hqp] at hq
      cases h.eq_parent hc hq hd
      exact absurd rfl hqp

omit [DecidableEq π] in
/-- A child that points nowhere loses its entry. -/
theorem Linked.eraseOrphan (h : Linked children parent) (hc : parent c = some none) :
    Linked children (Function.update parent c none) := by
  rw [h.setChild_iff]
  intro p cs hp hmem
  cases h.eq_parent hc hp hmem

end Backlinks
