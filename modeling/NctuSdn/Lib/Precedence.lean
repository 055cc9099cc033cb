/-
Orderings of finitely many items that respect a relation `R`, where `R i j`
says that `i` comes before `j`.

A list is closed (`PredClosed`) if each of its items comes after all the items
that are before it.  If `R` has no cycle, every item leads to one with nothing
behind it, so a closed list with all of these has every item
(`PredClosed.mem_of_terminals`).
-/
import Mathlib.Data.Set.Finite.Basic

namespace NctuSdn

open List Relation

variable {α : Type*} (R : α → α → Prop)

/-- `R` between items of `s`. -/
def Within (s : Set α) (i j : α) : Prop := i ∈ s ∧ j ∈ s ∧ R i j

/-- No item of `s` is before itself. -/
def Acyclic (s : Set α) : Prop := ∀ i, ¬ Relation.TransGen (Within R s) i i

/-- Nothing in `s` comes after the item. -/
def Terminal (s : Set α) (i : α) : Prop := i ∈ s ∧ ∀ j ∈ s, ¬ R i j

/-- All items of `s` that are before an item of the list stand in front of it. -/
def PredClosed (s : Set α) (l : List α) : Prop :=
  ∀ front x back, l = front ++ x :: back → ∀ i ∈ s, R i x → i ∈ front

variable {R} {s t : Set α} {l : List α} {x : α}

theorem Within.mono (h : s ⊆ t) {i j : α} (hij : Within R s i j) : Within R t i j :=
  ⟨h hij.1, h hij.2.1, hij.2.2⟩

theorem Acyclic.mono (h : Acyclic R t) (hst : s ⊆ t) : Acyclic R s :=
  fun i hi => h i (hi.lift id fun _ _ => Within.mono hst)

theorem acyclic_of_lt (f : α → ℕ) (h : ∀ i ∈ s, ∀ j ∈ s, R i j → f i < f j) : Acyclic R s := by
  intro i hi
  have hlt : ∀ {a b}, TransGen (Within R s) a b → f a < f b := by
    intro a b hab
    induction hab with
    | single hstep => exact h _ hstep.1 _ hstep.2.1 hstep.2.2
    | tail _ hstep ih => exact ih.trans (h _ hstep.1 _ hstep.2.1 hstep.2.2)
  exact Nat.lt_irrefl _ (hlt hi)

/-- **Every item leads to a terminal one**, if there are finitely many. -/
theorem Acyclic.exists_terminal (h : Acyclic R s) (hs : s.Finite) (hx : x ∈ s) :
    ∃ t, Terminal R s t ∧ ReflTransGen (Within R s) x t := by
  -- the items after a given one, as a relation on the finite type of all items
  have : Finite s := hs
  let after : s → s → Prop := fun a b => TransGen (Within R s) b a
  have htrans : IsTrans s after := ⟨fun a b c hab hbc => hbc.trans hab⟩
  have hirrefl : Std.Irrefl after := ⟨fun a => h a⟩
  have hwf : WellFounded after := Finite.wellFounded_of_trans_of_irrefl after
  suffices hmain : ∀ a : s, ∃ t, Terminal R s t ∧ ReflTransGen (Within R s) a t from
    hmain ⟨x, hx⟩
  intro a
  induction a using hwf.induction with
  | _ a ih =>
    by_cases hterm : Terminal R s a
    · exact ⟨a, hterm, .refl⟩
    · have hnext : ∃ j ∈ s, R a j := by
        by_contra hno
        push Not at hno
        exact hterm ⟨a.2, hno⟩
      obtain ⟨j, hj, haj⟩ := hnext
      have hstep : Within R s a j := ⟨a.2, hj, haj⟩
      obtain ⟨t, ht, hreach⟩ := ih ⟨j, hj⟩ (.single hstep)
      exact ⟨t, ht, .head hstep hreach⟩

theorem predClosed_nil : PredClosed R s [] := by
  intro front x back h
  simp at h

theorem PredClosed.concat (h : PredClosed R s l) (hx : ∀ i ∈ s, R i x → i ∈ l) :
    PredClosed R s (l ++ [x]) := by
  intro front y back heq i hi hiy
  rcases eq_nil_or_concat' back with rfl | ⟨back, z, rfl⟩
  · obtain ⟨rfl, hxy⟩ := append_inj' heq rfl
    cases hxy
    exact hx i hi hiy
  · rw [← cons_append, ← append_assoc] at heq
    obtain ⟨rfl, -⟩ := append_inj' heq rfl
    exact h front y back rfl i hi hiy

theorem PredClosed.mem_of_before (h : PredClosed R s l) {i j : α} (hj : j ∈ l) (hi : i ∈ s)
    (hij : R i j) : i ∈ l := by
  obtain ⟨front, back, rfl⟩ := append_of_mem hj
  exact mem_append_left _ (h front j back rfl i hi hij)

theorem PredClosed.mem_of_leads (h : PredClosed R s l) {i j : α} (hj : j ∈ l)
    (hij : ReflTransGen (Within R s) i j) : i ∈ l := by
  induction hij using ReflTransGen.head_induction_on with
  | refl => exact hj
  | head hstep _ ih => exact h.mem_of_before ih hstep.1 hstep.2.2

theorem PredClosed.mem_of_terminals (h : PredClosed R s l) (hs : s.Finite) (hacyc : Acyclic R s)
    (hterm : ∀ t, Terminal R s t → t ∈ l) (hx : x ∈ s) : x ∈ l := by
  obtain ⟨t, ht, hreach⟩ := hacyc.exists_terminal hs hx
  exact h.mem_of_leads (hterm t ht) hreach

theorem PredClosed.idxOf_lt [DecidableEq α] (h : PredClosed R s l) (hnodup : l.Nodup) {i j : α}
    (hj : j ∈ l) (hi : i ∈ s) (hij : R i j) : l.idxOf i < l.idxOf j := by
  obtain ⟨front, back, rfl⟩ := append_of_mem hj
  have hfront : i ∈ front := h front j back rfl i hi hij
  have hnot : j ∉ front := by
    intro hmem
    have hdisj := disjoint_of_nodup_append hnodup
    exact hdisj hmem (mem_cons_self ..)
  rw [idxOf_append_of_mem hfront, idxOf_append_of_notMem hnot, idxOf_cons_self,
    Nat.add_zero]
  exact idxOf_lt_length_of_mem hfront

end NctuSdn
