/-
The removal of old tombstones (`InMemoryStorageEngine.cleanupTask`,
`StoreUtils.canDelete`).

A tombstone is a version without a value.  The task visits every key and removes it, with
all its versions, if one of its tombstones is old enough and after every version that has
a value.  The age is tested in 64 bits, so a tombstone from the far future passes for an
old one.

Versions of a key are pairwise concurrent, so a tombstone is after none of the others: a
key goes only if it has no values.  Its other tombstones go too, old or not.
-/
import NctuSdn.Sync.Store

namespace NctuSdn

open List

variable {K V : Type*}

/-! ### The task -/

/-- A time after an interval, as a `long`. -/
def laterTime (timestamp interval : ℤ) : ℤ := (timestamp + interval).bmod (2 ^ 64)

/-- The first pass of `canDelete`: the tombstones that are old enough. -/
def oldTombstones (tombstoneDeletion now : ℤ) (items : List (Versioned (Option V))) :
    List VectorClock :=
  (items.filter fun v =>
    v.value.isNone && decide (laterTime v.version.timestamp tombstoneDeletion < now)).map
      Versioned.version

/-- The loop over the versions for one tombstone: it is after all that have a value. -/
def laterThanValues (vc : VectorClock) (items : List (Versioned (Option V))) : Bool :=
  items.all fun v => v.value.isNone || decide (vc.compare v.version = .after)

def canDelete (tombstoneDeletion now : ℤ) (items : List (Versioned (Option V))) : Bool :=
  (oldTombstones tombstoneDeletion now items).any fun vc => laterThanValues vc items

def cleanupTask (tombstoneDeletion now : ℤ) (map : K → Option (List (Versioned (Option V))))
    (key : K) : Option (List (Versioned (Option V))) :=
  match map key with
  | none => none
  | some items => if canDelete tombstoneDeletion now items then none else some items

/-! ### What may be removed -/

/-- A tombstone that is older than the interval. -/
def OldTombstone (tombstoneDeletion now : ℤ) (v : Versioned (Option V)) : Prop :=
  v.value = none ∧ v.version.timestamp + tombstoneDeletion < now

/-- What is removed is an old tombstone, or before one. -/
def LosesNothing (tombstoneDeletion now : ℤ) (map : K → Option (List (Versioned (Option V)))) :
    Prop :=
  ∀ key, ∀ v ∈ stored (map key), v ∉ stored (cleanupTask tombstoneDeletion now map key) →
    OldTombstone tombstoneDeletion now v ∨
      ∃ t ∈ stored (map key), OldTombstone tombstoneDeletion now t ∧
        t.version.compare v.version = .after

/-- Where there are tombstones only and one of them passes the test, all are old. -/
def TombstonesAgeTogether (tombstoneDeletion now : ℤ)
    (map : K → Option (List (Versioned (Option V)))) : Prop :=
  ∀ key, (∀ v ∈ stored (map key), v.value = none) →
    (∃ t ∈ stored (map key), laterTime t.version.timestamp tombstoneDeletion < now) →
      ∀ v ∈ stored (map key), v.version.timestamp + tombstoneDeletion < now

section Keys

variable {tombstoneDeletion now : ℤ} {items : List (Versioned (Option V))}

theorem canDelete_iff :
    canDelete tombstoneDeletion now items = true ↔
      ∃ t ∈ items, t.value = none ∧ laterTime t.version.timestamp tombstoneDeletion < now ∧
        ∀ v ∈ items, v.value = none ∨ t.version.compare v.version = .after := by
  simp only [canDelete, oldTombstones, laterThanValues, any_eq_true, mem_map,
    mem_filter, Bool.and_eq_true, Option.isNone_iff_eq_none, decide_eq_true_eq,
    all_eq_true, Bool.or_eq_true]
  constructor
  · rintro ⟨_, ⟨t, ⟨ht, hnone, hold⟩, rfl⟩, hall⟩
    exact ⟨t, ht, hnone, hold, hall⟩
  · rintro ⟨t, ht, hnone, hold, hall⟩
    exact ⟨t.version, ⟨t, ⟨ht, hnone, hold⟩, rfl⟩, hall⟩

theorem Frontier.not_after (h : Frontier Versioned.rank items) {t v : Versioned (Option V)}
    (ht : t ∈ items) (hv : v ∈ items) : t.version.compare v.version ≠ .after := by
  intro hafter
  obtain ⟨hle, hnot⟩ := VectorClock.compare_eq_after_iff.mp hafter
  obtain rfl := h.eq_of_le hv ht hle
  exact hnot hle

/-- A key with concurrent versions goes exactly if it has no value and a tombstone that
passes the test. -/
theorem canDelete_iff_of_frontier (h : Frontier Versioned.rank items) :
    canDelete tombstoneDeletion now items = true ↔
      (∀ v ∈ items, v.value = none) ∧
        ∃ t ∈ items, laterTime t.version.timestamp tombstoneDeletion < now := by
  rw [canDelete_iff]
  constructor
  · rintro ⟨t, ht, -, hold, hall⟩
    exact ⟨fun v hv => (hall v hv).resolve_right (h.not_after ht hv), t, ht, hold⟩
  · rintro ⟨hnone, t, ht, hold⟩
    exact ⟨t, ht, hnone t ht, hold, fun v hv => .inl (hnone v hv)⟩

theorem stored_cleanupTask (map : K → Option (List (Versioned (Option V)))) (key : K) :
    stored (cleanupTask tombstoneDeletion now map key) =
      if canDelete tombstoneDeletion now (stored (map key)) then [] else stored (map key) := by
  unfold cleanupTask
  cases map key with
  | none => rw [show stored (none : Option (List (Versioned (Option V)))) = [] from rfl, ite_self]
  | some items =>
    rw [show stored (some items) = items from rfl]
    dsimp only
    split_ifs <;> rfl

end Keys

/-- **Cleanup loses no live information** exactly if the tombstones of a key without
values age together. -/
theorem cleanup_loses_nothing_iff (tombstoneDeletion now : ℤ)
    (map : K → Option (List (Versioned (Option V))))
    (h : ∀ key, Frontier Versioned.rank (stored (map key))) :
    LosesNothing tombstoneDeletion now map ↔ TombstonesAgeTogether tombstoneDeletion now map := by
  refine forall_congr' fun key => ?_
  have hdelete : canDelete tombstoneDeletion now (stored (map key)) = true ↔ _ :=
    canDelete_iff_of_frontier (h key)
  rw [stored_cleanupTask]
  constructor
  · intro hloses hnone hold v hv
    rw [if_pos (hdelete.mpr ⟨hnone, hold⟩)] at hloses
    rcases hloses v hv not_mem_nil with hold | ⟨t, ht, -, hafter⟩
    · exact hold.2
    · exact absurd hafter ((h key).not_after ht hv)
  · intro hage v hv hgone
    by_cases hcan : canDelete tombstoneDeletion now (stored (map key)) = true
    · obtain ⟨hnone, hold⟩ := hdelete.mp hcan
      exact .inl ⟨hnone v hv, hage hnone hold v hv⟩
    · rw [if_neg hcan] at hgone
      exact absurd hv hgone

def tombstone (nodeId : BitVec 4) (timestamp : ℤ) : Versioned (Option ℕ) :=
  ⟨none, .single nodeId 0 timestamp⟩

theorem frontier_tombstones (t t' : ℤ) :
    Frontier Versioned.rank [tombstone 1 t, tombstone 2 t'] := by
  refine pairwise_pair.mpr ⟨fun hle => ?_, fun hle => ?_⟩
  · exact absurd (hle 1) (show ¬ 1 ≤ 0 by decide)
  · exact absurd (hle 2) (show ¬ 1 ≤ 0 by decide)

/-- Two nodes have deleted a value within a second, and both tombstones are old. -/
theorem cleanup_loses_nothing_pair :
    TombstonesAgeTogether 86400000 86401001
      (fun _ : Unit => some [tombstone 1 0, tombstone 2 1000]) ∧
    LosesNothing 86400000 86401001 (fun _ : Unit => some [tombstone 1 0, tombstone 2 1000]) ∧
    cleanupTask 86400000 86401001 (fun _ : Unit => some [tombstone 1 0, tombstone 2 1000]) () =
      none := by
  have hage : TombstonesAgeTogether 86400000 86401001
      fun _ : Unit => some [tombstone 1 0, tombstone 2 1000] := by
    intro key _ _ v hv
    rcases mem_pair.mp hv with rfl | rfl
    · decide
    · decide
  refine ⟨hage, (cleanup_loses_nothing_iff _ _ _ fun _ => ?_).mpr hage, by decide +kernel⟩
  exact frontier_tombstones 0 1000

/-- Two nodes have deleted a value without knowing of each other, one of them a day before
the other; a millisecond later the second tombstone is removed with the first. -/
theorem cleanup_removes_fresh_tombstone :
    Frontier Versioned.rank [tombstone 1 0, tombstone 2 86400000] ∧
      ¬ LosesNothing 86400000 86400001
        fun _ : Unit => some [tombstone 1 0, tombstone 2 86400000] := by
  refine ⟨frontier_tombstones 0 86400000, fun hloses => ?_⟩
  have hgone := hloses () (tombstone 2 86400000) (by simp [stored]) (by decide +kernel)
  rcases hgone with hold | ⟨t, ht, -, hafter⟩
  · exact absurd hold.2 (by decide)
  · exact (frontier_tombstones 0 86400000).not_after ht (by simp) hafter

end NctuSdn
