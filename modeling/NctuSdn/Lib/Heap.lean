/-
Binary heaps in an array, with a comparison that may be careless about ties.

A heap is a list in which the children of position `k` are at `2 k + 1` and
`2 k + 2`.  An element is put in its place by moving a hole: `siftUp` pulls
parents down into it, `siftDown` pulls children up.  The operations compare
with a function `cmp` of which very little is asked.  It has to agree with a
preorder `le` in one direction only (`Agrees`); what it says about elements
that are level in `le` may be anything, and need not even be transitive.
-/
import Mathlib.Data.Int.Notation
import Mathlib.Data.List.Perm.Basic
import Mathlib.Order.Basic

namespace NctuSdn.Heap

open List

variable {α : Type*}

/-! ### The operations -/

section Operations

variable (cmp : α → α → ℤ)

/-- The loop of `siftUp`: the hole is at `k`. -/
def siftUpLoop (x : α) : ℕ → List α → ℕ → List α
  | 0, q, k => q.set k x
  | fuel + 1, q, k =>
    if k = 0 then q.set k x
    else
      match q[(k - 1) / 2]? with
      | none => q.set k x
      | some e =>
        if 0 ≤ cmp x e then q.set k x
        else siftUpLoop x fuel (q.set k e) ((k - 1) / 2)

/-- Put `x` at position `k` or above it. -/
def siftUp (q : List α) (k : ℕ) (x : α) : List α := siftUpLoop cmp x k q k

/-- The child of position `k` that goes up: the right one if it is smaller. -/
def smallerChild (q : List α) (k : ℕ) : Option (ℕ × α) :=
  match q[2 * k + 1]?, q[2 * k + 2]? with
  | none, _ => none
  | some c, none => some (2 * k + 1, c)
  | some c, some r => if 0 < cmp c r then some (2 * k + 2, r) else some (2 * k + 1, c)

/-- The loop of `siftDown`, which also tells where `x` ends up. -/
def siftDownLoop (x : α) : ℕ → List α → ℕ → List α × ℕ
  | 0, q, k => (q.set k x, k)
  | fuel + 1, q, k =>
    match smallerChild cmp q k with
    | none => (q.set k x, k)
    | some (child, c) =>
      if cmp x c ≤ 0 then (q.set k x, k) else siftDownLoop x fuel (q.set k c) child

/-- Put `x` at position `k` or below it. -/
def siftDown (q : List α) (k : ℕ) (x : α) : List α × ℕ := siftDownLoop cmp x q.length q k

def add (q : List α) (x : α) : List α := siftUp cmp (q ++ [x]) q.length x

/-- Take the first element; the last one is put in its place. -/
def poll (q : List α) : Option (α × List α) :=
  match q with
  | [] => none
  | e :: es =>
    match es.getLast? with
    | none => some (e, [])
    | some x => some (e, (siftDown cmp (e :: es.dropLast) 0 x).1)

/-- Take the element at position `i` out; the last one is put in its place,
and sifted up if it did not go down. -/
def removeAt (q : List α) (i : ℕ) : List α :=
  match q.getLast? with
  | none => q
  | some moved =>
    if q.length - 1 = i then q.dropLast
    else
      let r := siftDown cmp q.dropLast i moved
      if r.2 = i then siftUp cmp r.1 i moved else r.1

/-- Take the first element with a property out, if there is one. -/
def remove (q : List α) (p : α → Bool) : List α :=
  match q.findIdx? p with
  | none => q
  | some i => removeAt cmp q i

end Operations

/-! ### Which elements there are -/

section Contents

variable {cmp : α → α → ℤ} {q : List α} {k : ℕ} {x : α}

/-- Moving the hole from `k` to `j` fills `k` with what was at `j`. -/
theorem set_move_perm {j : ℕ} {e : α} (hk : k < q.length) (hj : q[j]? = some e) (hjk : j ≠ k) :
    ((q.set k e).set j x).Perm (q.set k x) := by
  obtain ⟨hlt, rfl⟩ := List.getElem?_eq_some_iff.mp hj
  have hkset : k < (q.set k x).length := by simpa using hk
  have hjset : j < (q.set k x).length := by simpa using hlt
  simpa [getElem_set_of_ne hjk.symm] using set_set_perm hkset hjset

theorem siftUpLoop_perm (fuel : ℕ) (hk : k < q.length) :
    (siftUpLoop cmp x fuel q k).Perm (q.set k x) := by
  induction fuel generalizing q k with
  | zero => exact List.Perm.refl _
  | succ fuel ih =>
    unfold siftUpLoop
    split_ifs with hzero
    · exact List.Perm.refl _
    · split
      · exact List.Perm.refl _
      case h_2 e he =>
        split_ifs with hcmp
        · exact List.Perm.refl _
        · have hpar : (k - 1) / 2 < (q.set k e).length := by
            rw [length_set]
            omega
          exact (ih hpar).trans (set_move_perm hk he (by omega))

theorem smallerChild_eq_some {child : ℕ} {c : α} (h : smallerChild cmp q k = some (child, c)) :
    q[child]? = some c ∧ (child = 2 * k + 1 ∨ child = 2 * k + 2) := by
  unfold smallerChild at h
  split at h
  · cases h
  case h_2 hleft _ =>
    cases h
    exact ⟨hleft, .inl rfl⟩
  case h_3 hleft hright =>
    split_ifs at h
    · cases h
      exact ⟨hright, .inr rfl⟩
    · cases h
      exact ⟨hleft, .inl rfl⟩

theorem siftDownLoop_perm (fuel : ℕ) (hk : k < q.length) :
    (siftDownLoop cmp x fuel q k).1.Perm (q.set k x) := by
  induction fuel generalizing q k with
  | zero => exact List.Perm.refl _
  | succ fuel ih =>
    unfold siftDownLoop
    split
    · exact List.Perm.refl _
    case h_2 child c hchild =>
      obtain ⟨hc, hpos⟩ := smallerChild_eq_some hchild
      split_ifs with hcmp
      · exact List.Perm.refl _
      · obtain ⟨hlt, -⟩ := List.getElem?_eq_some_iff.mp hc
        have hlt' : child < (q.set k c).length := by
          rw [length_set]
          exact hlt
        exact (ih hlt').trans (set_move_perm hk hc (by omega))

theorem add_perm : (add cmp q x).Perm (x :: q) := by
  have hset : (q ++ [x]).set q.length x = q ++ [x] := by simp
  have hsift : (add cmp q x).Perm (q ++ [x]) := by
    have hlt : q.length < (q ++ [x]).length := by simp
    have hperm : (add cmp q x).Perm ((q ++ [x]).set q.length x) := siftUpLoop_perm _ hlt
    rwa [hset] at hperm
  exact hsift.trans (perm_append_singleton x q)

theorem poll_eq_none : poll cmp q = none ↔ q = [] := by
  cases q with
  | nil => simp [poll]
  | cons e es =>
    unfold poll
    dsimp only
    split <;> simp

theorem poll_perm {e : α} {q' : List α} (h : poll cmp q = some (e, q')) : q.Perm (e :: q') := by
  cases q with
  | nil => cases h
  | cons a es =>
    unfold poll at h
    dsimp only at h
    split at h
    case h_1 hlast =>
      cases h
      rw [List.getLast?_eq_none_iff.mp hlast]
    case h_2 x hlast =>
      cases h
      have hperm : (siftDown cmp (e :: es.dropLast) 0 x).1.Perm (x :: es.dropLast) :=
        siftDownLoop_perm _ (Nat.succ_pos _)
      have hes : es.Perm (x :: es.dropLast) := by
        conv_lhs => rw [← dropLast_append_getLast? x hlast]
        exact perm_append_singleton x es.dropLast
      exact (hes.trans hperm.symm).cons e

theorem siftUp_perm (hk : k < q.length) : (siftUp cmp q k x).Perm (q.set k x) :=
  siftUpLoop_perm k hk

theorem siftDown_perm (hk : k < q.length) : (siftDown cmp q k x).1.Perm (q.set k x) :=
  siftDownLoop_perm q.length hk

/-- The loop leaves `x` at the position it tells. -/
theorem siftDownLoop_set (fuel : ℕ) (hk : k < q.length) :
    (siftDownLoop cmp x fuel q k).1[(siftDownLoop cmp x fuel q k).2]? = some x := by
  induction fuel generalizing q k with
  | zero => simp [siftDownLoop, hk]
  | succ fuel ih =>
    unfold siftDownLoop
    split
    · simp [hk]
    case h_2 child c hchild =>
      split_ifs with hcmp
      · simp [hk]
      · obtain ⟨hlt, -⟩ := List.getElem?_eq_some_iff.mp (smallerChild_eq_some hchild).1
        refine ih ?_
        rw [length_set]
        exact hlt

theorem siftDown_stay (hk : k < q.length) (h : (siftDown cmp q k x).2 = k) :
    (siftDown cmp q k x).1[k]? = some x := by
  have hpos : (siftDown cmp q k x).1[(siftDown cmp q k x).2]? = some x := siftDownLoop_set _ hk
  rwa [h] at hpos

theorem set_of_getElem? (h : q[k]? = some x) : q.set k x = q := by
  obtain ⟨hk, rfl⟩ := List.getElem?_eq_some_iff.mp h
  exact set_getElem_self hk

theorem dropLast_set_perm (hk : k < q.length - 1) (hlast : q.getLast? = some x) :
    ∃ hk : k < q.length, (q[k] :: q.dropLast.set k x).Perm q := by
  have hlt : k < q.dropLast.length := by rwa [length_dropLast]
  refine ⟨by omega, ?_⟩
  conv_rhs => rw [← dropLast_append_getLast? x hlast]
  calc (q[k] :: q.dropLast.set k x).Perm (q.dropLast[k] :: x :: q.dropLast.eraseIdx k) := by
        rw [getElem_dropLast]
        exact (set_perm_cons_eraseIdx hlt x).cons _
    List.Perm _ (x :: q.dropLast[k] :: q.dropLast.eraseIdx k) := .swap ..
    List.Perm _ (x :: q.dropLast) := (getElem_cons_eraseIdx_perm hlt).cons _
    List.Perm _ (q.dropLast ++ [x]) := (perm_append_singleton x _).symm

theorem removeAt_perm (hk : k < q.length) : q.Perm (q[k] :: removeAt cmp q k) := by
  have hne : q ≠ [] := ne_nil_of_length_pos (by omega)
  obtain ⟨moved, hlast⟩ := Option.ne_none_iff_exists'.mp (mt List.getLast?_eq_none_iff.mp hne)
  unfold removeAt
  rw [hlast]
  dsimp only
  by_cases hend : q.length - 1 = k
  · -- the last element is the one that is taken out
    have hget : q[k]? = some moved := by rw [← hend, ← List.getLast?_eq_getElem?, hlast]
    rw [if_pos hend, (List.getElem?_eq_some_iff.mp hget).2]
    conv_lhs => rw [← dropLast_append_getLast? moved hlast]
    exact perm_append_singleton moved _
  · rw [if_neg hend]
    obtain ⟨_, hset⟩ := dropLast_set_perm (k := k) (by omega) hlast
    have hlt : k < q.dropLast.length := by
      rw [length_dropLast]
      omega
    have hdown : (siftDown cmp q.dropLast k moved).1.Perm (q.dropLast.set k moved) :=
      siftDown_perm hlt
    split_ifs with hstay
    · -- it did not go down: sifting up starts where it already is
      have hat : (siftDown cmp q.dropLast k moved).1[k]? = some moved := siftDown_stay hlt hstay
      have hlt' : k < (siftDown cmp q.dropLast k moved).1.length :=
        (List.getElem?_eq_some_iff.mp hat).1
      have hup : (siftUp cmp (siftDown cmp q.dropLast k moved).1 k moved).Perm
          (siftDown cmp q.dropLast k moved).1 := by
        conv_rhs => rw [← set_of_getElem? hat]
        exact siftUp_perm hlt'
      exact (((hup.trans hdown).cons _).trans hset).symm
    · exact ((hdown.cons _).trans hset).symm

theorem remove_of_forall {p : α → Bool} (h : ∀ a ∈ q, p a = false) : remove cmp q p = q := by
  have hnone : q.findIdx? p = none := List.findIdx?_eq_none_iff.mpr h
  simp [remove, hnone]

theorem remove_perm {p : α → Bool} (h : ∃ a ∈ q, p a = true) :
    ∃ a, p a = true ∧ q.Perm (a :: remove cmp q p) := by
  have hsome : (q.findIdx? p).isSome := by
    rw [List.findIdx?_isSome, any_eq_true]
    exact h
  obtain ⟨i, hi⟩ := Option.isSome_iff_exists.mp hsome
  obtain ⟨hlt, hp, -⟩ := List.findIdx?_eq_some_iff_getElem.mp hi
  refine ⟨q[i], hp, ?_⟩
  simp only [remove, hi]
  exact removeAt_perm hlt

end Contents

/-! ### The order -/

section Order

variable {β : Type*} [Preorder β] {cmp : α → α → ℤ} {key : α → β} {S : Set α}

/-- On the elements of `S` the comparison never contradicts the keys. -/
structure Agrees (cmp : α → α → ℤ) (key : α → β) (S : Set α) : Prop where
  le : ∀ a ∈ S, ∀ b ∈ S, cmp a b ≤ 0 → key a ≤ key b
  ge : ∀ a ∈ S, ∀ b ∈ S, 0 ≤ cmp a b → key b ≤ key a

/-- No element has a smaller key than its parent. -/
def Ordered (key : α → β) (q : List α) : Prop :=
  ∀ i (_ : i < q.length), key q[(i - 1) / 2] ≤ key q[i]

/-- There is a hole at `k`: the pairs it is not part of are in order, and its
children are not below its parent. -/
structure Hole (key : α → β) (q : List α) (k : ℕ) : Prop where
  off : ∀ i (_ : i < q.length), i ≠ k → (i - 1) / 2 ≠ k → key q[(i - 1) / 2] ≤ key q[i]
  grand : ∀ i (_ : i < q.length), k ≠ 0 → i ≠ k → (i - 1) / 2 = k →
    key q[((i - 1) / 2 - 1) / 2] ≤ key q[i]

/-- No child of the hole has a smaller key than `x`. -/
def Below (key : α → β) (q : List α) (k : ℕ) (x : α) : Prop :=
  ∀ i (_ : i < q.length), i ≠ k → (i - 1) / 2 = k → key x ≤ key q[i]

variable {q : List α} {k : ℕ} {x : α}

theorem Hole.parent_le (h : Hole key q k) {i : ℕ} (hi : i < q.length) (hzero : k ≠ 0)
    (hne : i ≠ k) (hpar : (i - 1) / 2 = k) (hk : (k - 1) / 2 < q.length) :
    key q[(k - 1) / 2] ≤ key q[i] := by
  subst hpar
  exact h.grand i hi hzero hne rfl

theorem Hole.set (h : Hole key q k) (x : α) : Hole key (q.set k x) k where
  off := by
    intro i hi hne hpar
    rw [length_set] at hi
    rw [getElem_set_of_ne (Ne.symm hne), getElem_set_of_ne (Ne.symm hpar)]
    exact h.off i hi hne hpar
  grand := by
    intro i hi hzero hne hpar
    rw [length_set] at hi
    rw [getElem_set_of_ne (Ne.symm hne), getElem_set_of_ne (by omega)]
    exact h.grand i hi hzero hne hpar

theorem Below.set {y : α} (h : Below key q k x) : Below key (q.set k y) k x := by
  intro i hi hne hpar
  rw [length_set] at hi
  rw [getElem_set_of_ne (Ne.symm hne)]
  exact h i hi hne hpar

theorem Ordered.hole (h : Ordered key q) (k : ℕ) : Hole key q k where
  off := fun i hi _ _ => h i hi
  grand := by
    intro i hi _ _ hpar
    subst hpar
    exact (h _ (by omega)).trans (h i hi)

theorem Ordered.head_le (h : Ordered key q) (i : ℕ) (hi : i < q.length) :
    key q[0] ≤ key q[i] := by
  induction i using Nat.strongRecOn with
  | ind i ih =>
    rcases Nat.eq_zero_or_pos i with rfl | hpos
    · exact le_refl _
    · exact (ih ((i - 1) / 2) (by omega) (by omega)).trans (h i hi)

theorem Hole.fill (h : Hole key q k) (hk : k < q.length)
    (habove : k ≠ 0 → key q[(k - 1) / 2] ≤ key x)
    (hbelow : Below key q k x) : Ordered key (q.set k x) := by
  intro i hi
  rw [length_set] at hi
  simp only [getElem_set]
  split_ifs with hpar hself hself
  · exact le_refl _
  · exact hbelow i hi (Ne.symm hself) hpar.symm
  · subst hself
    exact habove fun hzero => hpar (by omega)
  · exact h.off i hi (Ne.symm hself) (Ne.symm hpar)

theorem Hole.up (h : Hole key q k) (hk : k < q.length) (hzero : k ≠ 0) :
    Hole key (q.set k q[(k - 1) / 2]) ((k - 1) / 2) where
  off := by
    intro i hi hne hpar
    rw [length_set] at hi
    simp only [getElem_set]
    split_ifs with h₁ h₂ h₂
    · exact le_refl _
    · exact h.parent_le hi hzero (Ne.symm h₂) h₁.symm (by omega)
    · exact absurd (by rw [h₂]) hpar
    · exact h.off i hi (Ne.symm h₂) (Ne.symm h₁)
  grand := by
    intro i hi _ hne hpar
    rw [length_set] at hi
    have hup : key q[((k - 1) / 2 - 1) / 2] ≤ key q[(k - 1) / 2] := by
      rcases Nat.eq_zero_or_pos ((k - 1) / 2) with hz | hpos
      · simp [hz]
      · exact h.off _ (by omega) (by omega) (by omega)
    simp only [getElem_set, hpar]
    split_ifs with h₁ h₂ h₂
    · omega
    · omega
    · exact hup
    · have hsib := h.off i hi (Ne.symm h₂) (by omega)
      simp only [hpar] at hsib
      exact hup.trans hsib

theorem Hole.down {c : ℕ} (h : Hole key q k) (hc : c < q.length) (hck : c ≠ k)
    (hpar : (c - 1) / 2 = k) (hleast : Below key q k q[c]) :
    Hole key (q.set k q[c]) c where
  off := by
    intro i hi hne hpari
    rw [length_set] at hi
    simp only [getElem_set]
    split_ifs with h₁ h₂ h₂
    · exact le_refl _
    · exact hleast i hi (Ne.symm h₂) h₁.symm
    · subst h₂
      exact h.parent_le hc (by omega) hck hpar (by omega)
    · exact h.off i hi (Ne.symm h₂) (Ne.symm h₁)
  grand := by
    intro i hi _ hne hpari
    rw [length_set] at hi
    simp only [getElem_set]
    have hic : key q[c] ≤ key q[i] := by
      have hoff := h.off i hi (by omega) (by omega)
      simpa only [hpari] using hoff
    split_ifs with h₁ h₂ h₂
    · exact le_refl _
    · exact hic
    · omega
    · omega

theorem mem_of_mem_set {j : ℕ} {e a : α} (hj : q[j]? = some e) (ha : a ∈ q.set k e) : a ∈ q := by
  rcases mem_or_eq_of_mem_set ha with hmem | rfl
  · exact hmem
  · exact mem_of_getElem? hj

theorem siftUpLoop_ordered (hcmp : Agrees cmp key S) (hx : x ∈ S) (fuel : ℕ)
    (hq : ∀ a ∈ q, a ∈ S) (hk : k < q.length) (hfuel : k ≤ fuel) (h : Hole key q k)
    (hbelow : Below key q k x) : Ordered key (siftUpLoop cmp x fuel q k) := by
  induction fuel generalizing q k with
  | zero => exact h.fill hk (fun hzero => absurd (Nat.le_zero.mp hfuel) hzero) hbelow
  | succ fuel ih =>
    unfold siftUpLoop
    by_cases hzero : k = 0
    · rw [if_pos hzero]
      exact h.fill hk (fun hne => absurd hzero hne) hbelow
    rw [if_neg hzero]
    have hplt : (k - 1) / 2 < q.length := by omega
    have hp : q[(k - 1) / 2]? = some q[(k - 1) / 2] := List.getElem?_eq_getElem hplt
    have hpS : q[(k - 1) / 2] ∈ S := hq _ (getElem_mem hplt)
    rw [hp]
    dsimp only
    by_cases hstop : 0 ≤ cmp x q[(k - 1) / 2]
    · rw [if_pos hstop]
      exact h.fill hk (fun _ => hcmp.ge _ hx _ hpS hstop) hbelow
    rw [if_neg hstop]
    have hle : key x ≤ key q[(k - 1) / 2] := hcmp.le _ hx _ hpS (by omega)
    refine ih (fun a ha => hq a (mem_of_mem_set hp ha)) ?_ (by omega) (h.up hk hzero) ?_
    · rw [length_set]
      exact hplt
    · -- the children of the new hole: the old one, and its sibling
      intro i hi hne hpar
      rw [length_set] at hi
      rw [getElem_set]
      split_ifs with hik
      · exact hle
      · have hsib := h.off i hi (Ne.symm hik) (by omega)
        simp only [hpar] at hsib
        exact hle.trans hsib

theorem smallerChild_eq_none (h : smallerChild cmp q k = none) : q.length ≤ 2 * k + 1 := by
  unfold smallerChild at h
  split at h
  case h_1 hleft => exact List.getElem?_eq_none_iff.mp hleft
  · cases h
  · split_ifs at h

theorem smallerChild_least {child : ℕ} {c : α} (hcmp : Agrees cmp key S)
    (hq : ∀ a ∈ q, a ∈ S) (h : smallerChild cmp q k = some (child, c)) : Below key q k c := by
  intro i hi hne hpar
  have hi' : i = 2 * k + 1 ∨ i = 2 * k + 2 := by omega
  have hget : q[i]? = some q[i] := List.getElem?_eq_getElem hi
  unfold smallerChild at h
  split at h
  · cases h
  case h_2 c' hleft hright =>
    cases h
    rcases hi' with rfl | rfl
    · rw [Option.some.inj (hget.symm.trans hleft)]
    · exact absurd (hget.symm.trans hright) (by simp)
  case h_3 c' r hleft hright =>
    have hcS : c' ∈ S := hq _ (mem_of_getElem? hleft)
    have hrS : r ∈ S := hq _ (mem_of_getElem? hright)
    split_ifs at h with hpos
    · cases h
      rcases hi' with rfl | rfl
      · rw [Option.some.inj (hget.symm.trans hleft)]
        exact hcmp.ge _ hcS _ hrS (by omega)
      · rw [Option.some.inj (hget.symm.trans hright)]
    · cases h
      rcases hi' with rfl | rfl
      · rw [Option.some.inj (hget.symm.trans hleft)]
      · rw [Option.some.inj (hget.symm.trans hright)]
        exact hcmp.le _ hcS _ hrS (by omega)

/-- One turn of the loop: `x` stays above its children, or the hole moves on
to a child that is below `x`. -/
theorem siftDownLoop_succ (hcmp : Agrees cmp key S) (hx : x ∈ S) (hq : ∀ a ∈ q, a ∈ S)
    (h : Hole key q k) (fuel : ℕ) :
    (siftDownLoop cmp x (fuel + 1) q k = (q.set k x, k) ∧ Below key q k x) ∨
      ∃ child, ∃ hlt : child < q.length, k < child ∧ (child - 1) / 2 = k ∧
        siftDownLoop cmp x (fuel + 1) q k = siftDownLoop cmp x fuel (q.set k q[child]) child ∧
        Hole key (q.set k q[child]) child ∧ key q[child] ≤ key x := by
  rw [siftDownLoop]
  split
  case h_1 hnone =>
    have hlen := smallerChild_eq_none hnone
    exact .inl ⟨rfl, fun i hi hne hpar => absurd hi (by omega)⟩
  case h_2 child c hsome =>
    obtain ⟨hget, hchild⟩ := smallerChild_eq_some hsome
    obtain ⟨hlt, rfl⟩ := List.getElem?_eq_some_iff.mp hget
    have hleast : Below key q k q[child] := smallerChild_least hcmp hq hsome
    have hcS : q[child] ∈ S := hq _ (getElem_mem hlt)
    split_ifs with hstop
    · have hle : key x ≤ key q[child] := hcmp.le _ hx _ hcS hstop
      exact .inl ⟨rfl, fun i hi hne hpar => hle.trans (hleast i hi hne hpar)⟩
    · have hge : key q[child] ≤ key x := hcmp.ge _ hx _ hcS (by omega)
      exact .inr ⟨child, hlt, by omega, by omega, rfl,
        h.down hlt (by omega) (by omega) hleast, hge⟩

theorem siftDownLoop_ordered (hcmp : Agrees cmp key S) (hx : x ∈ S) (fuel : ℕ)
    (hq : ∀ a ∈ q, a ∈ S) (hk : k < q.length) (hfuel : q.length ≤ fuel + k) (h : Hole key q k)
    (habove : k ≠ 0 → key q[(k - 1) / 2] ≤ key x) :
    Ordered key (siftDownLoop cmp x fuel q k).1 := by
  induction fuel generalizing q k with
  | zero => omega
  | succ fuel ih =>
    rcases siftDownLoop_succ hcmp hx hq h fuel with
      ⟨heq, hbelow⟩ | ⟨c, hlt, hkc, hpar, heq, hc, hge⟩
    · rw [heq]
      exact h.fill hk habove hbelow
    · rw [heq]
      have hlen : (q.set k q[c]).length = q.length := length_set
      refine ih (fun a ha => hq a (mem_of_mem_set (List.getElem?_eq_getElem hlt) ha))
        (by omega) (by omega) hc fun _ => ?_
      -- the parent of the new hole is the child that went up
      simpa [hpar] using hge

theorem le_siftDownLoop (fuel : ℕ) : k ≤ (siftDownLoop cmp x fuel q k).2 := by
  induction fuel generalizing q k with
  | zero => exact Nat.le_refl k
  | succ fuel ih =>
    unfold siftDownLoop
    split
    · exact Nat.le_refl k
    case h_2 child c hsome =>
      obtain ⟨-, hchild⟩ := smallerChild_eq_some hsome
      split_ifs
      · exact Nat.le_refl k
      · exact Nat.le_trans (by omega) (ih (k := child))

/-- Without a condition on the parent: either `x` stays where it is put, or
the heap is in order. -/
theorem siftDown_cases (hcmp : Agrees cmp key S) (hx : x ∈ S) (hq : ∀ a ∈ q, a ∈ S)
    (hk : k < q.length) (h : Hole key q k) :
    (siftDown cmp q k x = (q.set k x, k) ∧ Below key q k x) ∨
      (k < (siftDown cmp q k x).2 ∧ Ordered key (siftDown cmp q k x).1) := by
  obtain ⟨fuel, hfuel⟩ : ∃ fuel, q.length = fuel + 1 := ⟨q.length - 1, by omega⟩
  unfold siftDown
  rw [hfuel]
  rcases siftDownLoop_succ hcmp hx hq h fuel with hstay | ⟨c, hlt, hkc, hpar, heq, hc, hge⟩
  · exact .inl hstay
  · rw [heq]
    have hlen : (q.set k q[c]).length = q.length := length_set
    refine .inr ⟨Nat.lt_of_lt_of_le hkc (le_siftDownLoop fuel), ?_⟩
    refine siftDownLoop_ordered hcmp hx fuel
      (fun a ha => hq a (mem_of_mem_set (List.getElem?_eq_getElem hlt) ha))
      (by omega) (by omega) hc fun _ => ?_
    simpa [hpar] using hge

/-! ### The operations keep the order -/

theorem ordered_nil : Ordered key ([] : List α) := fun i hi => absurd hi (Nat.not_lt_zero i)

theorem Ordered.dropLast (h : Ordered key q) : Ordered key q.dropLast := by
  intro i hi
  rw [getElem_dropLast, getElem_dropLast]
  exact h i _

theorem Ordered.add (h : Ordered key q) (hcmp : Agrees cmp key S) (hq : ∀ a ∈ q, a ∈ S)
    (hx : x ∈ S) : Ordered key (add cmp q x) := by
  have hlen : (q ++ [x]).length = q.length + 1 := by simp
  refine siftUpLoop_ordered hcmp hx _ ?_ (by omega) (Nat.le_refl _) ⟨?_, ?_⟩ ?_
  · simpa [or_imp, forall_and] using ⟨hq, hx⟩
  · intro i hi hne _
    have hi' : i < q.length := by omega
    rw [getElem_append_left hi', getElem_append_left (by omega)]
    exact h i hi'
  -- the new position has no children
  · intro i hi _ _ hpar
    omega
  · intro i hi _ hpar
    omega

theorem Ordered.poll {e : α} {q' : List α} (h : Ordered key q) (hcmp : Agrees cmp key S)
    (hq : ∀ a ∈ q, a ∈ S) (hpoll : poll cmp q = some (e, q')) :
    Ordered key q' ∧ ∀ a ∈ q, key e ≤ key a := by
  cases q with
  | nil => cases hpoll
  | cons a es =>
    have hmin : ∀ b ∈ a :: es, key a ≤ key b := by
      intro b hb
      obtain ⟨i, hi, rfl⟩ := getElem_of_mem hb
      exact h.head_le i hi
    unfold Heap.poll at hpoll
    dsimp only at hpoll
    split at hpoll
    · cases hpoll
      exact ⟨ordered_nil, hmin⟩
    case h_2 x hlast =>
      cases hpoll
      refine ⟨?_, hmin⟩
      have hne : es ≠ [] := by
        rintro rfl
        cases hlast
      have hdrop : (e :: es).dropLast = e :: es.dropLast := dropLast_cons_of_ne_nil hne
      have hhole := (hdrop ▸ h.dropLast).hole 0
      refine siftDownLoop_ordered hcmp (hq x ?_) _ (fun b hb => hq b ?_) (Nat.succ_pos _)
        (Nat.le_refl _) hhole (fun hzero => absurd rfl hzero)
      · exact mem_cons_of_mem _ (mem_of_getLast? hlast)
      · rw [← hdrop] at hb
        exact dropLast_subset _ hb

theorem Ordered.removeAt (h : Ordered key q) (hcmp : Agrees cmp key S) (hq : ∀ a ∈ q, a ∈ S)
    (hk : k < q.length) : Ordered key (removeAt cmp q k) := by
  have hne : q ≠ [] := ne_nil_of_length_pos (by omega)
  obtain ⟨moved, hlast⟩ := Option.ne_none_iff_exists'.mp (mt List.getLast?_eq_none_iff.mp hne)
  unfold Heap.removeAt
  rw [hlast]
  dsimp only
  by_cases hend : q.length - 1 = k
  · rw [if_pos hend]
    exact h.dropLast
  rw [if_neg hend]
  have hlt : k < q.dropLast.length := by
    rw [length_dropLast]
    omega
  have hq' : ∀ a ∈ q.dropLast, a ∈ S := fun a ha => hq a (dropLast_subset q ha)
  have hm : moved ∈ S := hq _ (mem_of_getLast? hlast)
  rcases siftDown_cases hcmp hm hq' hlt (h.dropLast.hole k) with ⟨heq, hbelow⟩ | ⟨hmoved, hord⟩
  · -- the element stays at `k` and is sifted up from there
    rw [heq, if_pos rfl]
    refine siftUpLoop_ordered hcmp hm k ?_ (by simpa using hlt) (Nat.le_refl k) ?_ ?_
    · intro a ha
      rcases mem_or_eq_of_mem_set ha with hmem | rfl
      · exact hq' a hmem
      · exact hm
    · exact (h.dropLast.hole k).set moved
    · exact hbelow.set
  · rw [if_neg (Nat.ne_of_gt hmoved)]
    exact hord

theorem Ordered.remove (h : Ordered key q) (hcmp : Agrees cmp key S) (hq : ∀ a ∈ q, a ∈ S)
    (p : α → Bool) : Ordered key (remove cmp q p) := by
  unfold Heap.remove
  split
  · exact h
  case h_2 i hi => exact h.removeAt hcmp hq (List.findIdx?_eq_some_iff_getElem.mp hi).1

end Order

end NctuSdn.Heap
