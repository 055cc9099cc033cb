/-
Reachability in a directed graph, and loops that may fail.

A search that has already seen part of a graph explores what it can reach
without going back there.  `ReachIn E S` is reachability by steps whose
targets all lie in `S`; taking for `S` the complement of a set gives
reachability that avoids the set.  Two vertices that reach each other are in
the same strongly connected component (`Mutual`).

`foldlM_rule` is the invariant rule for a loop over a list whose body may
fail: the invariant may speak of the part of the list already processed, and
the body may use where in the list it stands.
-/
import Mathlib.Data.List.Chain
import Mathlib.Data.Set.Basic

namespace NctuSdn

open Relation List

variable {α σ : Type*} {E : α → α → Prop} {S T C : Set α} {a b c : α}

/-! ### Walks inside a set -/

/-- `b` is reached from `a` by steps whose targets lie in `S`. -/
def ReachIn (E : α → α → Prop) (S : Set α) : α → α → Prop :=
  ReflTransGen fun a b => E a b ∧ b ∈ S

theorem ReachIn.refl : ReachIn E S a a := ReflTransGen.refl

theorem ReachIn.head (h : E a b) (hb : b ∈ S) (hbc : ReachIn E S b c) : ReachIn E S a c :=
  ReflTransGen.head ⟨h, hb⟩ hbc

theorem ReachIn.trans (hab : ReachIn E S a b) (hbc : ReachIn E S b c) : ReachIn E S a c :=
  ReflTransGen.trans hab hbc

theorem ReachIn.mono (hST : S ⊆ T) (h : ReachIn E S a b) : ReachIn E T a b :=
  ReflTransGen.mono (fun _ _ hab => ⟨hab.1, hST hab.2⟩) a b h

theorem ReachIn.reaches (h : ReachIn E S a b) : ReflTransGen E a b :=
  ReflTransGen.mono (fun _ _ hab => hab.1) a b h

/-- A walk inside `S` does not leave a set that the steps inside `S` do not
leave. -/
theorem ReachIn.mem_of_closed (hC : ∀ x ∈ C, ∀ y ∈ S, E x y → y ∈ C) (ha : a ∈ C)
    (h : ReachIn E S a b) : b ∈ C := by
  induction h with
  | refl => exact ha
  | tail _ hbc ih => exact hC _ ih _ hbc.2 hbc.1

/-- A walk that ends outside `C` leaves it by some step. -/
theorem ReachIn.exists_exit (h : ReachIn E S a b) (ha : a ∈ C) (hb : b ∉ C) :
    ∃ x ∈ C, ∃ y ∈ S, y ∉ C ∧ E x y ∧ ReachIn E S y b := by
  induction h using ReflTransGen.head_induction_on with
  | refl => exact absurd ha hb
  | head hac hcb ih =>
    rename_i a c
    by_cases hc : c ∈ C
    · exact ih hc
    · exact ⟨a, ha, c, hac.2, hc, hac.1, hcb⟩

/-- A closed set contains whatever its members reach. -/
theorem mem_of_reaches (hC : ∀ x ∈ C, ∀ y, E x y → y ∈ C) (ha : a ∈ C)
    (h : ReflTransGen E a b) : b ∈ C := by
  induction h with
  | refl => exact ha
  | tail _ hbc ih => exact hC _ ih _ hbc

variable {l : List α}

/-- Every vertex of a path that is listed backwards reaches its end. -/
theorem reaches_head (h : (a :: l).IsChain fun x y => E y x) (hb : b ∈ a :: l) :
    ReflTransGen E b a := by
  induction l generalizing a with
  | nil => rw [mem_singleton.mp hb]
  | cons c l ih =>
    rw [isChain_cons_cons] at h
    rcases mem_cons.mp hb with rfl | hb
    · exact .refl
    · exact (ih h.2 hb).tail h.1

/-! ### Strongly connected components -/

/-- `a` and `b` reach each other. -/
def Mutual (E : α → α → Prop) (a b : α) : Prop := ReflTransGen E a b ∧ ReflTransGen E b a

theorem Mutual.refl (a : α) : Mutual E a a := ⟨.refl, .refl⟩

theorem Mutual.symm (h : Mutual E a b) : Mutual E b a := ⟨h.2, h.1⟩

theorem Mutual.trans (hab : Mutual E a b) (hbc : Mutual E b c) : Mutual E a c :=
  ⟨hab.1.trans hbc.1, hbc.2.trans hab.2⟩

/-! ### Loops that may fail -/

variable {f : σ → α → Option σ}

/-- **Invariant rule for a loop.**  If the body succeeds and keeps the
invariant wherever in the list it stands, so does the loop. -/
theorem foldlM_rule (I : List α → σ → Prop)
    (hstep : ∀ done x rest s, l = done ++ x :: rest → I done s →
      ∃ s', f s x = some s' ∧ I (done ++ [x]) s')
    {s : σ} (hs : I [] s) : ∃ s', l.foldlM f s = some s' ∧ I l s' := by
  -- the list is processed from the left, so the processed part is generalised
  suffices h : ∀ rest done s, l = done ++ rest → I done s →
      ∃ s', rest.foldlM f s = some s' ∧ I l s' from h l [] s rfl hs
  intro rest
  induction rest with
  | nil =>
    intro done s hl hI
    rw [append_nil] at hl
    exact ⟨s, rfl, hl ▸ hI⟩
  | cons x rest ih =>
    intro done s hl hI
    obtain ⟨s₁, hf, hI₁⟩ := hstep done x rest s hl hI
    obtain ⟨s', hfold, hI'⟩ := ih (done ++ [x]) s₁ (by simp [hl]) hI₁
    refine ⟨s', ?_, hI'⟩
    rw [foldlM_cons, hf]
    exact hfold

/-- What the body keeps whenever it succeeds, a loop that succeeds keeps. -/
theorem foldlM_keeps (I : List α → σ → Prop)
    (hstep : ∀ done x rest s s', l = done ++ x :: rest → I done s → f s x = some s' →
      I (done ++ [x]) s')
    {s s' : σ} (hs : I [] s) (h : l.foldlM f s = some s') : I l s' := by
  suffices hgen : ∀ rest done s, l = done ++ rest → I done s → rest.foldlM f s = some s' → I l s'
    from hgen l [] s rfl hs h
  intro rest
  induction rest with
  | nil =>
    intro done s hl hI hfold
    cases hfold
    rw [append_nil] at hl
    exact hl ▸ hI
  | cons x rest ih =>
    intro done s hl hI hfold
    rw [foldlM_cons] at hfold
    obtain ⟨s₁, hf, hfold⟩ := Option.bind_eq_some_iff.mp hfold
    exact ih (done ++ [x]) s₁ (by simp [hl]) (hstep done x rest s s₁ hl hI hf) hfold

/-- The rule for a loop that cannot fail. -/
theorem foldl_rule {f : σ → α → σ} (I : List α → σ → Prop)
    (hstep : ∀ done x rest s, l = done ++ x :: rest → I done s → I (done ++ [x]) (f s x)) {s : σ}
    (hs : I [] s) : I l (l.foldl f s) := by
  refine foldlM_keeps (f := fun s x => some (f s x)) I ?_ hs foldlM_pure
  intro done x rest s s' hl hI heq
  obtain rfl := Option.some.inj heq
  exact hstep done x rest s hl hI

/-- A loop whose body may raise exceptions, as one that may fail. -/
theorem toOption_foldlM {ε : Type*} {f : σ → α → Except ε σ} {s s' : σ}
    (h : l.foldlM f s = .ok s') :
    l.foldlM (fun s x => (f s x).toOption) s = some s' := by
  induction l generalizing s with
  | nil =>
    cases h
    rfl
  | cons x l ih =>
    rw [foldlM_cons] at h
    cases hf : f s x with
    | error e =>
      rw [hf] at h
      cases h
    | ok s₁ =>
      rw [hf] at h
      rw [foldlM_cons, hf]
      exact ih h

/-- Two loops with the same body on the elements of the list are the same. -/
theorem foldlM_congr {g : σ → α → Option σ} {s : σ} (h : ∀ s, ∀ x ∈ l, f s x = g s x) :
    l.foldlM f s = l.foldlM g s := by
  induction l generalizing s with
  | nil => rfl
  | cons x l ih =>
    rw [foldlM_cons, foldlM_cons, h s x (mem_cons_self ..)]
    congr 1
    funext s'
    exact ih fun s y hy => h s y (mem_cons_of_mem x hy)

end NctuSdn
