/-
Maps from keys to sets, with the sets kept only while they have elements.

Programs index a collection by a map whose values are sets: the set is made
when its first element arrives and dropped with its last one.  Such a map is
`Tidy`: no key has an empty set.  It then says no more than the family of sets
`get`, and everything is stated about that family.
-/
import Mathlib.Data.Finmap

namespace NctuSdn

variable {κ ι : Type*} [DecidableEq κ] [DecidableEq ι]

abbrev SetMap (κ ι : Type*) := Finmap fun _ : κ => Finset ι

namespace SetMap

/-- The set of a key; a missing key has the empty one. -/
def get (m : SetMap κ ι) (k : κ) : Finset ι := (m.lookup k).getD ∅

/-- Put an element into the set of a key, which is made if it is missing. -/
def add (m : SetMap κ ι) (k : κ) (x : ι) : SetMap κ ι := m.insert k (insert x (m.get k))

/-- Take an element out of the set of a key, if there is one. -/
def sub (m : SetMap κ ι) (k : κ) (x : ι) : SetMap κ ι :=
  match m.lookup k with
  | none => m
  | some s => m.insert k (s.erase x)

/-- Drop the set of a key if it is empty. -/
def drop (m : SetMap κ ι) (k : κ) : SetMap κ ι :=
  match m.lookup k with
  | none => m
  | some s => if s = ∅ then m.erase k else m

/-- No key has an empty set. -/
def Tidy (m : SetMap κ ι) : Prop := ∀ k, m.lookup k ≠ some ∅

variable {m m' : SetMap κ ι} {k k' : κ} {x : ι}

omit [DecidableEq ι] in
@[simp] theorem get_empty : (∅ : SetMap κ ι).get k = ∅ := by
  simp [get]

omit [DecidableEq ι] in
theorem tidy_empty : (∅ : SetMap κ ι).Tidy := by
  intro k
  simp

theorem lookup_add : (m.add k x).lookup k' =
    if k' = k then some (insert x (m.get k)) else m.lookup k' := by
  unfold add
  split
  case isTrue h =>
    subst h
    exact Finmap.lookup_insert m
  case isFalse h => exact Finmap.lookup_insert_of_ne m h

theorem lookup_sub : (m.sub k x).lookup k' =
    if k' = k then (m.lookup k).map (·.erase x) else m.lookup k' := by
  unfold sub
  split
  case h_1 hnone =>
    split
    case isTrue h =>
      subst h
      rw [hnone]
      rfl
    case isFalse => rfl
  case h_2 s hsome =>
    split
    case isTrue h =>
      subst h
      rw [Finmap.lookup_insert, hsome]
      rfl
    case isFalse h => exact Finmap.lookup_insert_of_ne m h

theorem lookup_drop : (m.drop k).lookup k' =
    if k' = k ∧ m.lookup k = some ∅ then none else m.lookup k' := by
  unfold drop
  split
  case h_1 hnone => simp [hnone]
  case h_2 s hsome =>
    by_cases hs : s = ∅
    · rw [if_pos hs, hsome, hs]
      by_cases h : k' = k
      · subst h
        simp
      · simp [h]
    · simp [hs, hsome]

/-! ### The family of sets -/

theorem get_add : (m.add k x).get k' = if k' = k then insert x (m.get k) else m.get k' := by
  unfold get
  rw [lookup_add]
  split <;> rfl

theorem get_sub : (m.sub k x).get k' = if k' = k then (m.get k).erase x else m.get k' := by
  unfold get
  rw [lookup_sub]
  split
  · cases m.lookup k <;> simp
  · rfl

@[simp] theorem get_drop : (m.drop k).get k' = m.get k' := by
  unfold get
  rw [lookup_drop]
  split
  case isTrue h =>
    obtain ⟨rfl, hempty⟩ := h
    rw [hempty]
    rfl
  case isFalse => rfl

theorem mem_get_add {y : ι} :
    y ∈ (m.add k x).get k' ↔ y ∈ m.get k' ∨ (k' = k ∧ y = x) := by
  rw [get_add]
  split
  case isTrue h =>
    subst h
    rw [Finset.mem_insert]
    tauto
  case isFalse h => simp [h]

theorem mem_get_sub {y : ι} :
    y ∈ (m.sub k x).get k' ↔ y ∈ m.get k' ∧ ¬ (k' = k ∧ y = x) := by
  rw [get_sub]
  split
  case isTrue h =>
    subst h
    rw [Finset.mem_erase]
    tauto
  case isFalse h => simp [h]

theorem Tidy.add (h : m.Tidy) : (m.add k x).Tidy := by
  intro k'
  rw [lookup_add]
  split
  · simp
  · exact h k'

theorem tidy_drop (h : ∀ k', k' ≠ k → m.lookup k' ≠ some ∅) : (m.drop k).Tidy := by
  intro k'
  rw [lookup_drop]
  split
  · simp
  case isFalse hnot =>
    intro hempty
    by_cases hk : k' = k
    · subst hk
      exact hnot ⟨rfl, hempty⟩
    · exact h k' hk hempty

theorem Tidy.sub_drop (h : m.Tidy) : ((m.sub k x).drop k).Tidy := by
  refine tidy_drop fun k' hk' => ?_
  rw [lookup_sub, if_neg hk']
  exact h k'

theorem Tidy.lookup_eq (h : m.Tidy) :
    m.lookup k = if m.get k = ∅ then none else some (m.get k) := by
  unfold get
  cases hk : m.lookup k with
  | none => simp
  | some s =>
    have hs : s ≠ ∅ := fun hs => h k (hs ▸ hk)
    simp [hs]

theorem Tidy.mem_iff (h : m.Tidy) : k ∈ m ↔ (m.get k).Nonempty := by
  rw [← Finmap.lookup_isSome, h.lookup_eq, Finset.nonempty_iff_ne_empty]
  split <;> simp [*]

end SetMap

end NctuSdn
