/-
Writes that name no version (`AbstractStoreClient.put` and `delete` with a plain value, and
`RPCChannelHandler.handlePutRequest` and `handleDeleteRequest` for requests without a
version).

Both bases of the new clock are the join of the stored ones: a client reads the key, which
resolves conflicts and merges the clocks, and a remote request merges the versions one by
one.  The join, incremented at the local node, is after every stored clock, so the store
drops all of them for the new version.

What remains to fail is the increment.  A clock entry holds a node id from 0 to 32767 and
a `long` of at least one; beyond these the constructor throws and nothing is written.
-/
import NctuSdn.Sync.Resolution

namespace NctuSdn

open List

variable {V : Type*}

/-! ### The calls -/

section Calls

variable [DecidableEq V] (nodeId now time : ℤ) (items : Option (List (Versioned (Option V))))

/-- `AbstractStoreClient.put` with a plain value. -/
def putValue (value : Option V) :
    Option (List (Versioned (Option V))) × Except SyncError VectorClock :=
  match stored items with
  | [] => clientPut nodeId time items ⟨value, VectorClock.empty now⟩
  | [v] => clientPut nodeId time items ⟨value, v.version⟩
  | _ =>
    match clientGet now items with
    | .error e => (items, .error e)
    | .ok versioned => clientPut nodeId time items ⟨value, versioned.version⟩

/-- `AbstractStoreClient.delete` without a version. -/
def deleteValue : Option (List (Versioned (Option V))) × Except SyncError VectorClock :=
  putValue nodeId now time items none

omit [DecidableEq V] in
/-- The loop over the versions of a key in the request handlers. -/
def mergeVersions (versions : List VectorClock) : VectorClock :=
  versions.foldl (fun newclock v => newclock.merge v now) (VectorClock.empty now)

/-- What both handlers do without a version: put the value under the merge of all clocks,
incremented. -/
def writeMerged (value : Option V) :
    Option (List (Versioned (Option V))) × Except SyncError Unit :=
  match (mergeVersions now ((stored items).map Versioned.version)).incremented nodeId time with
  | .error e => (items, .error e)
  | .ok newclock => put items ⟨value, newclock⟩

/-- `handlePutRequest` with a value and no version. -/
def handlePutRequest (rvalue : V) :
    Option (List (Versioned (Option V))) × Except SyncError Unit :=
  writeMerged nodeId now time items (some rvalue)

/-- `handleDeleteRequest` without a version. -/
def handleDeleteRequest : Option (List (Versioned (Option V))) × Except SyncError Unit :=
  writeMerged nodeId now time items none

end Calls

/-! ### Joins of the stored clocks -/

/-- The clock is the least one at or above those of the versions. -/
def Joins (items : List (Versioned V)) (vc : VectorClock) : Prop :=
  ∀ b, vc.versionAt ≤ b ↔ ∀ v ∈ items, v.rank ≤ b

theorem joins_nil (now : ℤ) : Joins ([] : List (Versioned V)) (VectorClock.empty now) := by
  intro b
  exact iff_of_true (fun n => Nat.zero_le _) fun v hv => absurd hv not_mem_nil

theorem joins_singleton (v : Versioned V) : Joins [v] v.version := by
  intro b
  rw [forall_mem_singleton]
  rfl

theorem Joins.merge {items : List (Versioned V)} {vc : VectorClock} (h : Joins items vc)
    (v : Versioned V) (now : ℤ) : Joins (items ++ [v]) (vc.merge v.version now) := by
  intro b
  rw [VectorClock.merge_versionAt_le_iff, h b, forall_mem_append, forall_mem_singleton]
  rfl

theorem joins_mergeVersions (now : ℤ) (items : List (Versioned V)) :
    Joins items (mergeVersions now (items.map Versioned.version)) := by
  -- the clock so far joins the versions that the loop has passed
  suffices hloop : ∀ (seen rest : List (Versioned V)) (newclock : VectorClock),
      Joins seen newclock → Joins (seen ++ rest)
        ((rest.map Versioned.version).foldl (fun newclock v => newclock.merge v now) newclock) from
    hloop [] items (VectorClock.empty now) (joins_nil now)
  intro seen rest
  induction rest generalizing seen with
  | nil =>
    intro newclock h
    rw [append_nil]
    exact h
  | cons v rest ih =>
    intro newclock h
    rw [append_cons]
    exact ih (seen ++ [v]) _ (h.merge v now)

theorem Joins.versionAt_le_iff {items : List (Versioned V)} {vc : VectorClock}
    (h : Joins items vc) (n k : ℕ) : vc.versionAt n ≤ k ↔ ∀ v ∈ items, v.rank n ≤ k := by
  -- compare with a clock that is `k` at the node and beyond reach elsewhere
  have hle : ∀ w : VectorClock,
      w.versionAt ≤ Function.update (fun _ => 2 ^ 63) n k ↔ w.versionAt n ≤ k := by
    intro w
    rw [le_update_iff]
    exact and_iff_left fun m _ => (w.versionAt_lt m).le
  rw [← hle vc, h]
  exact forall₂_congr fun v _ => hle v.version

/-! ### A put of the incremented join -/

/-- The local node can be incremented in every stored clock. -/
def CanIncrement (nodeId : ℤ) (items : Option (List (Versioned V))) : Prop :=
  0 ≤ nodeId ∧ nodeId ≤ 32767 ∧ ∀ v ∈ stored items, v.rank nodeId.toNat + 1 < 2 ^ 63

/-- The call returns, and the value is alone under a clock after all that were there. -/
structure WinsAlone {α : Type} (items : Option (List (Versioned (Option V)))) (value : Option V)
    (result : Option (List (Versioned (Option V))) × Except SyncError α) : Prop where
  returns : ∃ a, result.2 = .ok a
  alone : ∃ vc, stored result.1 = [⟨value, vc⟩] ∧
    ∀ v ∈ stored items, vc.compare v.version = .after

/-- What a write that names no version comes to: it wins exactly if the local node can be
incremented.  Otherwise it is rejected and the store is as before, and a newer version is
never the reason. -/
structure BlindWrite {α : Type} (nodeId : ℤ) (items : Option (List (Versioned (Option V))))
    (value : Option V)
    (result : Option (List (Versioned (Option V))) × Except SyncError α) : Prop where
  wins_iff : WinsAlone items value result ↔ CanIncrement nodeId items
  rejected : ¬ CanIncrement nodeId items → result = (items, .error .illegalArgument)
  not_obsolete : result.2 ≠ .error .obsoleteVersion

theorem BlindWrite.of_cases {α : Type} {nodeId : ℤ}
    {items : Option (List (Versioned (Option V)))} {value : Option V}
    {result : Option (List (Versioned (Option V))) × Except SyncError α}
    (hwins : CanIncrement nodeId items → WinsAlone items value result)
    (hrejected : ¬ CanIncrement nodeId items → result = (items, .error .illegalArgument)) :
    BlindWrite nodeId items value result where
  wins_iff := by
    refine ⟨fun h => ?_, hwins⟩
    by_contra hnot
    obtain ⟨a, ha⟩ := h.returns
    rw [hrejected hnot] at ha
    cases ha
  rejected := hrejected
  not_obsolete := by
    by_cases hcan : CanIncrement nodeId items
    · obtain ⟨a, ha⟩ := (hwins hcan).returns
      rw [ha]
      exact nofun
    · rw [hrejected hcan]
      exact nofun

section Puts

variable [DecidableEq V] {nodeId now time : ℤ} {items : Option (List (Versioned (Option V)))}
  {base vc : VectorClock}

omit [DecidableEq V] in
theorem Joins.canIncrement_iff (h : Joins (stored items) base) :
    CanIncrement nodeId items ↔
      0 ≤ nodeId ∧ nodeId ≤ 32767 ∧ base.versionAt nodeId.toNat + 1 < 2 ^ 63 := by
  have hlt : ∀ k : ℕ, k + 1 < 2 ^ 63 ↔ k ≤ 2 ^ 63 - 2 := fun k => by omega
  simp only [CanIncrement, hlt, h.versionAt_le_iff nodeId.toNat]

omit [DecidableEq V] in
theorem Joins.compare_incremented (h : Joins (stored items) base)
    (hvc : base.incremented nodeId time = .ok vc) {v : Versioned (Option V)}
    (hv : v ∈ stored items) : vc.compare v.version = .after := by
  have hle : v.rank ≤ base.versionAt := (h base.versionAt).mp le_rfl v hv
  obtain ⟨hbase, hnot⟩ :=
    VectorClock.compare_eq_after_iff.mp (VectorClock.compare_incremented hvc)
  exact VectorClock.compare_eq_after_iff.mpr ⟨hle.trans hbase, fun hge => hnot (hge.trans hle)⟩

theorem Joins.put (h : Joins (stored items) base) (hvc : base.incremented nodeId time = .ok vc)
    (value : Option V) :
    ∃ items', NctuSdn.put items ⟨value, vc⟩ = (items', .ok ()) ∧ stored items' = [⟨value, vc⟩] := by
  have hlt : ∀ v ∈ stored items, v.rank < Versioned.rank ⟨value, vc⟩ := by
    intro v hv
    have hafter := h.compare_incremented hvc hv
    exact lt_iff_le_not_ge.mpr (VectorClock.compare_eq_after_iff.mp hafter)
  have hstored : stored (doput items ⟨value, vc⟩).1 = [⟨value, vc⟩] := by
    rw [stored_doput, insertMax_of_forall_lt hlt]
  have hno := (doput_eq_false_iff items ⟨value, vc⟩).mp
  unfold NctuSdn.put
  rcases hd : doput items ⟨value, vc⟩ with ⟨items', _ | _⟩
  · rw [hd] at hno
    obtain ⟨v, hv, hle⟩ := hno rfl
    exact absurd hle (hlt v hv).not_ge
  · rw [hd] at hstored
    exact ⟨items', rfl, hstored⟩

theorem Joins.write (h : Joins (stored items) base) (hcan : CanIncrement nodeId items) (time : ℤ)
    (value : Option V) :
    ∃ vc items', base.incremented nodeId time = .ok vc ∧
      NctuSdn.put items ⟨value, vc⟩ = (items', .ok ()) ∧ stored items' = [⟨value, vc⟩] ∧
      ∀ v ∈ stored items, vc.compare v.version = .after := by
  obtain ⟨h₀, h₁, hlt⟩ := h.canIncrement_iff.mp hcan
  obtain ⟨vc, hvc⟩ := VectorClock.incremented_isOk h₀ h₁ time hlt
  obtain ⟨items', hput, halone⟩ := h.put hvc value
  exact ⟨vc, items', hvc, hput, halone, fun v hv => h.compare_incremented hvc hv⟩

omit [DecidableEq V] in
theorem Joins.rejected (h : Joins (stored items) base) (hnot : ¬ CanIncrement nodeId items) :
    base.incremented nodeId time = .error .illegalArgument :=
  VectorClock.incremented_rejected time (mt h.canIncrement_iff.mpr hnot)

/-- **A put based on the join** of the stored clocks leaves its version alone if the local
node can be incremented, and nothing happens otherwise. -/
theorem clientPut_of_joins (h : Joins (stored items) base) (value : Option V) :
    BlindWrite nodeId items value (clientPut nodeId time items ⟨value, base⟩) := by
  unfold clientPut
  refine .of_cases (fun hcan => ?_) fun hnot => ?_
  · obtain ⟨vc, items', hvc, hput, halone⟩ := h.write hcan time value
    rw [hvc]
    dsimp only
    rw [hput]
    exact ⟨⟨vc, rfl⟩, vc, halone⟩
  · rw [h.rejected hnot]

/-- A client bases its value on the join: of no version, of the only one, or of those it
has resolved. -/
theorem putValue_eq (value : Option V) :
    ∃ base, Joins (stored items) base ∧
      putValue nodeId now time items value = clientPut nodeId time items ⟨value, base⟩ := by
  unfold putValue
  rcases hs : stored items with - | ⟨v, - | ⟨w, rest⟩⟩
  · exact ⟨VectorClock.empty now, joins_nil now, rfl⟩
  · exact ⟨v.version, joins_singleton v, rfl⟩
  · cases items with
    | none => cases hs
    | some l =>
      obtain rfl : l = v :: w :: rest := hs
      obtain ⟨r, hr, hanswers⟩ := clientGet_spec now (cons_ne_nil v (w :: rest))
      rw [hr]
      exact ⟨r.version, hanswers.clock, rfl⟩

section

variable (nodeId now time : ℤ) (items : Option (List (Versioned (Option V)))) (value : Option V)

theorem blindWrite_putValue :
    BlindWrite nodeId items value (putValue nodeId now time items value) := by
  obtain ⟨base, hbase, heq⟩ := @putValue_eq V _ nodeId now time items value
  rw [heq]
  exact clientPut_of_joins hbase value

theorem blindWrite_writeMerged :
    BlindWrite nodeId items value (writeMerged nodeId now time items value) := by
  have h := joins_mergeVersions now (stored items)
  unfold writeMerged
  refine .of_cases (fun hcan => ?_) fun hnot => ?_
  · obtain ⟨vc, items', hvc, hput, halone⟩ := h.write hcan time value
    rw [hvc]
    dsimp only
    rw [hput]
    exact ⟨⟨(), rfl⟩, vc, halone⟩
  · rw [h.rejected hnot]

end

end Puts

/-- **Blind writes win locally** exactly if the local node can be incremented in every
stored clock, and are rejected without a trace otherwise: a put and a delete of a client,
and a put and a delete request without a version. -/
theorem blind_writes_win_iff [DecidableEq V] (nodeId now time : ℤ)
    (items : Option (List (Versioned (Option V)))) (value : V) :
    BlindWrite nodeId items (some value) (putValue nodeId now time items (some value)) ∧
      BlindWrite nodeId items none (deleteValue nodeId now time items) ∧
      BlindWrite nodeId items (some value) (handlePutRequest nodeId now time items value) ∧
      BlindWrite nodeId items none (handleDeleteRequest nodeId now time items) :=
  ⟨blindWrite_putValue nodeId now time items _, blindWrite_putValue nodeId now time items _,
    blindWrite_writeMerged nodeId now time items _, blindWrite_writeMerged nodeId now time items _⟩

theorem lastVersion_bounds : 1 ≤ 32767 ∧ 1 ≤ 2 ^ 63 - 1 ∧ 2 ^ 63 - 1 < 2 ^ 63 := by decide

/-- The node has written as often as a `long` can count. -/
def lastVersion : Versioned (Option ℕ) :=
  ⟨some 0, ⟨[⟨1, 2 ^ 63 - 1, lastVersion_bounds.1, lastVersion_bounds.2.1,
    lastVersion_bounds.2.2⟩], 0, List.pairwise_singleton _ _⟩⟩

/-- After the last version the node cannot write: the entry of its clock is rejected. -/
theorem blind_write_rejected_lastVersion :
    Frontier Versioned.rank (stored (some [lastVersion])) ∧
      putValue 1 0 0 (some [lastVersion]) (some 1) =
        (some [lastVersion], .error .illegalArgument) := by
  refine ⟨pairwise_singleton _ _, (blindWrite_putValue 1 0 0 _ _).rejected fun h => ?_⟩
  exact absurd (h.2.2 lastVersion (mem_singleton_self _)) (by decide)

end NctuSdn
