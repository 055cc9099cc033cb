/-
The in-memory storage engine, one key at a time (`InMemoryStorageEngine`,
`Versioned`).

The engine maps a key to the list of versions it holds.  `doput` scans the
list once: it gives up at the first stored version that the new one does not
exceed, and otherwise removes what it has found to be older.  A value
synchronised from another node goes through the same path, version by
version, with the refusals swallowed (`writeSyncValue`).

The compare-and-retry loop of the source guards the scan with the monitor of
the list, so one `doput` is one atomic step here.
-/
import NctuSdn.Lib.Frontier
import NctuSdn.Sync.VectorClock

namespace NctuSdn

open List

variable {V : Type*}

/-! ### Versioned values -/

/-- A value with the clock of the write that made it. -/
structure Versioned (V : Type*) where
  value : V
  version : VectorClock
deriving DecidableEq

/-- Items are ranked by the clock function; timestamps do not count. -/
def Versioned.rank (v : Versioned V) : ℕ → ℕ := v.version.versionAt

/-- The observable part of a version: its clock entries and its value. -/
def Versioned.key (v : Versioned V) : List ClockEntry × V :=
  (v.version.versions, v.value)

/-! ### One put -/

/-- The scan of `doput`: `none` when a stored version is not exceeded, else
the items to remove. -/
def scanItems (value : Versioned V) :
    List (Versioned V) → List (Versioned V) → Option (List (Versioned V))
  | [], itemsToRemove => some itemsToRemove
  | versioned :: items, itemsToRemove =>
    match value.version.compare versioned.version with
    | .before => none
    | .after => scanItems value items (itemsToRemove ++ [versioned])
    | .concurrently => scanItems value items itemsToRemove

variable [DecidableEq V]

/-- Put one version under a key; the flag says whether it was accepted. -/
def doput (items : Option (List (Versioned V))) (value : Versioned V) :
    Option (List (Versioned V)) × Bool :=
  match items with
  | none => (some [value], true)
  | some items =>
    match scanItems value items [] with
    | none => (some items, false)
    | some itemsToRemove => (some (items.removeAll itemsToRemove ++ [value]), true)

/-- `put` turns a refusal into an `ObsoleteVersionException`; the state after
it is that of `doput` either way. -/
def put (items : Option (List (Versioned V))) (value : Versioned V) :
    Option (List (Versioned V)) × Except SyncError Unit :=
  match doput items value with
  | (items', true) => (items', .ok ())
  | (items', false) => (items', .error .obsoleteVersion)

/-- Write the values another node has sent for a key, ignoring refusals. -/
def writeSyncValue (items : Option (List (Versioned V))) (values : List (Versioned V)) :
    Option (List (Versioned V)) × Bool :=
  values.foldl (fun s value =>
    match put s.1 value with
    | (items', .ok _) => (items', true)
    | (items', .error _) => (items', s.2)) (items, false)

/-- What a reader of the key gets (`get`): nothing when the key is absent. -/
def stored (items : Option (List (Versioned V))) : List (Versioned V) := items.getD []

/-! ### A put is an insertion into a frontier -/

omit [DecidableEq V] in
theorem scanItems_eq_none_iff (value : Versioned V) (items acc : List (Versioned V)) :
    scanItems value items acc = none ↔ Below Versioned.rank items value.rank := by
  induction items generalizing acc with
  | nil => simp [scanItems, Below]
  | cons x items ih =>
    unfold scanItems
    have hx : Below Versioned.rank (x :: items) value.rank ↔
        value.rank ≤ x.rank ∨ Below Versioned.rank items value.rank := by
      simp [Below]
    rw [hx]
    cases hc : value.version.compare x.version with
    | before =>
      have hle := VectorClock.compare_eq_before_iff.mp hc
      simp only [true_iff]
      exact .inl hle
    | after =>
      have hle := (VectorClock.compare_eq_after_iff.mp hc).2
      exact (ih _).trans (or_iff_right hle).symm
    | concurrently =>
      have hle := (VectorClock.compare_eq_concurrently_iff.mp hc).1
      exact (ih _).trans (or_iff_right hle).symm

variable {items : List (Versioned V)}

omit [DecidableEq V] in
theorem mem_of_scanItems {value : Versioned V} {acc rem : List (Versioned V)}
    (h : scanItems value items acc = some rem) (y : Versioned V) :
    y ∈ rem ↔ y ∈ acc ∨ (y ∈ items ∧ y.rank ≤ value.rank) := by
  -- what is to be removed is collected in `acc`
  induction items generalizing acc with
  | nil =>
    simp only [scanItems, Option.some.injEq] at h
    simp [h]
  | cons x items ih =>
    unfold scanItems at h
    cases hc : value.version.compare x.version with
    | before => rw [hc] at h; cases h
    | after =>
      rw [hc] at h
      have hle : x.rank ≤ value.rank := (VectorClock.compare_eq_after_iff.mp hc).1
      rw [ih h]
      simp only [mem_append, mem_cons, not_mem_nil, or_false]
      constructor
      · rintro ((hy | rfl) | hy)
        · exact .inl hy
        · exact .inr ⟨.inl rfl, hle⟩
        · exact .inr ⟨.inr hy.1, hy.2⟩
      · rintro (hy | ⟨rfl | hy, hyle⟩)
        · exact .inl (.inl hy)
        · exact .inl (.inr rfl)
        · exact .inr ⟨hy, hyle⟩
    | concurrently =>
      rw [hc] at h
      have hle : ¬ x.rank ≤ value.rank := (VectorClock.compare_eq_concurrently_iff.mp hc).2
      rw [ih h, mem_cons]
      constructor
      · rintro (hy | hy)
        · exact .inl hy
        · exact .inr ⟨.inr hy.1, hy.2⟩
      · rintro (hy | ⟨rfl | hy, hyle⟩)
        · exact .inl hy
        · exact absurd hyle hle
        · exact .inr ⟨hy, hyle⟩

section

variable (items : Option (List (Versioned V))) (value : Versioned V)

/-- **A put is an insertion into the frontier of the key.** -/
theorem stored_doput :
    stored (doput items value).1 = insertMax Versioned.rank (stored items) value := by
  cases items with
  | none =>
    have hb : ¬ Below Versioned.rank ([] : List (Versioned V)) value.rank := by simp [Below]
    rw [show stored (none : Option (List (Versioned V))) = [] from rfl,
      insertMax_of_not_below hb]
    rfl
  | some items =>
    unfold doput
    dsimp only
    cases hs : scanItems value items [] with
    | none => exact (insertMax_of_below ((scanItems_eq_none_iff value items []).mp hs)).symm
    | some rem =>
      have hb : ¬ Below Versioned.rank items value.rank := by
        rw [← scanItems_eq_none_iff value items [], hs]
        simp
      refine Eq.trans ?_ (insertMax_of_not_below hb).symm
      show items.removeAll rem ++ [value] = _
      congr 1
      refine filter_congr fun y hy => ?_
      have hrem := mem_of_scanItems hs y
      simp [hrem, hy]

theorem doput_eq_false_iff :
    (doput items value).2 = false ↔ Below Versioned.rank (stored items) value.rank := by
  cases items with
  | none => simp [doput, stored, Below]
  | some items =>
    rw [show stored (some items) = items from rfl, ← scanItems_eq_none_iff value items []]
    unfold doput
    dsimp only
    cases hs : scanItems value items [] <;> simp

theorem put_fst :
    (put items value).1 = (doput items value).1 := by
  unfold put
  rcases doput items value with ⟨items', _ | _⟩ <;> rfl

end

theorem stored_writeSyncValue (items : Option (List (Versioned V))) (values : List (Versioned V)) :
    stored (writeSyncValue items values).1 =
      values.foldl (insertMax Versioned.rank) (stored items) := by
  -- the success flag plays no part in the state
  suffices h : ∀ s : Option (List (Versioned V)) × Bool,
      stored (values.foldl (fun s value =>
        match put s.1 value with
        | (items', .ok _) => (items', true)
        | (items', .error _) => (items', s.2)) s).1 =
      values.foldl (insertMax Versioned.rank) (stored s.1) from h (items, false)
  induction values with
  | nil => exact fun s => rfl
  | cons value values ih =>
    intro s
    rw [foldl_cons, foldl_cons, ih, ← stored_doput, ← put_fst]
    congr 2
    rcases put s.1 value with ⟨items', _ | _⟩ <;> rfl

/-! ### Deliveries to one key -/

/-- How versions reach a replica: one put, or a group from another node. -/
inductive Delivery (V : Type*)
  | put (value : Versioned V)
  | sync (values : List (Versioned V))

def Delivery.values : Delivery V → List (Versioned V)
  | .put value => [value]
  | .sync values => values

def deliver (items : Option (List (Versioned V))) : Delivery V → Option (List (Versioned V))
  | .put value => (doput items value).1
  | .sync values => (writeSyncValue items values).1

def deliverAll (items : Option (List (Versioned V))) (steps : List (Delivery V)) :
    Option (List (Versioned V)) :=
  steps.foldl deliver items

def delivered (steps : List (Delivery V)) : List (Versioned V) :=
  steps.flatMap Delivery.values

theorem stored_deliver (items : Option (List (Versioned V))) (d : Delivery V) :
    stored (deliver items d) = d.values.foldl (insertMax Versioned.rank) (stored items) := by
  cases d with
  | put value => exact stored_doput items value
  | sync values => exact stored_writeSyncValue items values

theorem stored_deliverAll (items : Option (List (Versioned V))) (steps : List (Delivery V)) :
    stored (deliverAll items steps) =
      (delivered steps).foldl (insertMax Versioned.rank) (stored items) := by
  unfold deliverAll delivered
  induction steps generalizing items with
  | nil => rfl
  | cons d steps ih =>
    rw [foldl_cons, ih, stored_deliver, flatMap_cons, foldl_append]

theorem frontier_deliverAll (steps : List (Delivery V)) :
    Frontier Versioned.rank (stored (deliverAll none steps)) := by
  rw [stored_deliverAll]
  exact frontier_foldl_insertMax List.Pairwise.nil _

omit [DecidableEq V] in
theorem Frontier.concurrently (h : Frontier Versioned.rank items) :
    items.Pairwise fun v w =>
      v.version.compare w.version = .concurrently ∧
        w.version.compare v.version = .concurrently :=
  h.imp fun hvw => ⟨VectorClock.compare_eq_concurrently_iff.mpr hvw,
    VectorClock.compare_eq_concurrently_iff.mpr hvw.symm⟩

omit [DecidableEq V] in
theorem Frontier.nodup_key (h : Frontier Versioned.rank items) :
    (items.map Versioned.key).Nodup := by
  unfold List.Nodup
  rw [pairwise_map]
  refine h.imp fun hvw heq => hvw.1 ?_
  have hvers := congrArg Prod.fst heq
  exact (show Versioned.rank _ = Versioned.rank _ from
    congrArg versionOf hvers).le

omit [DecidableEq V] in
/-- A frontier that consists of versions of `s` and covers `s` holds exactly
the keys of `s` with a maximal clock, provided equal entries in `s` carry
equal values. -/
theorem Frontier.mem_key_iff {s : List (Versioned V)} (h : Frontier Versioned.rank items)
    (hsub : ∀ v ∈ items, v ∈ s) (hcov : ∀ v ∈ s, Below Versioned.rank items v.rank)
    (hval : ∀ v ∈ s, ∀ w ∈ s, v.version.versions = w.version.versions → v.value = w.value)
    (k : List ClockEntry × V) :
    k ∈ items.map Versioned.key ↔
      ∃ v ∈ s, v.key = k ∧ ∀ w ∈ s, v.rank ≤ w.rank → w.rank ≤ v.rank := by
  have hmax := h.mem_iff_maximal (s := {v | v ∈ s}) hsub hcov
  rw [mem_map]
  constructor
  · rintro ⟨v, hv, rfl⟩
    refine ⟨v, hsub v hv, rfl, fun w hw hle => ?_⟩
    exact ((hmax v.rank).mp (mem_map_of_mem hv)).2 ⟨w, hw, rfl⟩ hle
  · rintro ⟨v, hv, rfl, hvmax⟩
    have hmem : v.rank ∈ items.map Versioned.rank := by
      refine (hmax v.rank).mpr ⟨⟨v, hv, rfl⟩, ?_⟩
      rintro _ ⟨w, hw, rfl⟩ hle
      exact hvmax w hw hle
    obtain ⟨w, hw, hrank⟩ := mem_map.mp hmem
    have hvers : w.version.versions = v.version.versions := VectorClock.versions_ext hrank
    exact ⟨w, hw, Prod.ext hvers (hval w (hsub w hw) v hv hvers)⟩

/-- The keys left after a run are the delivered ones with a maximal clock. -/
theorem mem_key_deliverAll {steps : List (Delivery V)}
    (hval : ∀ v ∈ delivered steps, ∀ w ∈ delivered steps,
      v.version.versions = w.version.versions → v.value = w.value)
    (k : List ClockEntry × V) :
    k ∈ (stored (deliverAll none steps)).map Versioned.key ↔
      ∃ v ∈ delivered steps, v.key = k ∧
        ∀ w ∈ delivered steps, v.rank ≤ w.rank → w.rank ≤ v.rank := by
  refine (frontier_deliverAll steps).mem_key_iff ?_ ?_ hval k
  · intro v hv
    rw [stored_deliverAll] at hv
    rcases mem_of_mem_foldl_insertMax hv with hv | hv
    · cases hv
    · exact hv
  · intro v hv
    rw [stored_deliverAll, below_foldl_insertMax]
    exact .inr ⟨v, hv, le_rfl⟩

omit [DecidableEq V] in
theorem Versioned.rank_eq_of_key_eq {v w : Versioned V} (h : v.key = w.key) :
    v.rank = w.rank :=
  congrArg versionOf (congrArg Prod.fst h)

omit [DecidableEq V] in
theorem maximal_key_mono {s t : List (Versioned V)}
    (hst : ∀ k, k ∈ s.map Versioned.key ↔ k ∈ t.map Versioned.key) (k : List ClockEntry × V)
    (h : ∃ v ∈ s, v.key = k ∧ ∀ w ∈ s, v.rank ≤ w.rank → w.rank ≤ v.rank) :
    ∃ v ∈ t, v.key = k ∧ ∀ w ∈ t, v.rank ≤ w.rank → w.rank ≤ v.rank := by
  obtain ⟨v, hv, rfl, hmax⟩ := h
  obtain ⟨v', hv', hkey⟩ := mem_map.mp ((hst v.key).mp (mem_map_of_mem hv))
  refine ⟨v', hv', hkey, fun w hw hle => ?_⟩
  obtain ⟨w', hw', hwkey⟩ := mem_map.mp ((hst w.key).mpr (mem_map_of_mem hw))
  rw [Versioned.rank_eq_of_key_eq hkey] at hle ⊢
  rw [← Versioned.rank_eq_of_key_eq hwkey] at hle ⊢
  exact hmax w' hw' hle

/-- **Replica convergence.**  Deliver any versions to an empty key, in any
order, grouping and repetition.  What is left is exactly one copy of each
value whose clock is maximal among the delivered ones; any other way of
delivering the same versions leaves the same; and after every step the stored
versions are pairwise concurrent. -/
theorem replica_converges (steps : List (Delivery V))
    (hval : ∀ v ∈ delivered steps, ∀ w ∈ delivered steps,
      v.version.versions = w.version.versions → v.value = w.value) :
    (∀ k, k ∈ (stored (deliverAll none steps)).map Versioned.key ↔
      ∃ v ∈ delivered steps, v.key = k ∧
        ∀ w ∈ delivered steps, v.rank ≤ w.rank → w.rank ≤ v.rank) ∧
    ((stored (deliverAll none steps)).map Versioned.key).Nodup ∧
    (∀ steps' : List (Delivery V),
      (∀ k, k ∈ (delivered steps').map Versioned.key ↔ k ∈ (delivered steps).map Versioned.key) →
      ((stored (deliverAll none steps')).map Versioned.key).Perm
        ((stored (deliverAll none steps)).map Versioned.key)) ∧
    (∀ pre, pre <+: steps →
      (stored (deliverAll none pre)).Pairwise fun v w =>
        v.version.compare w.version = .concurrently ∧
          w.version.compare v.version = .concurrently) := by
  refine ⟨mem_key_deliverAll hval, (frontier_deliverAll steps).nodup_key, ?_, ?_⟩
  · intro steps' hsame
    -- the other deliveries satisfy the same condition on equal entries
    have hval' : ∀ v ∈ delivered steps', ∀ w ∈ delivered steps',
        v.version.versions = w.version.versions → v.value = w.value := by
      intro v hv w hw hvw
      obtain ⟨v', hv', hkv⟩ := mem_map.mp ((hsame v.key).mp (mem_map_of_mem hv))
      obtain ⟨w', hw', hkw⟩ := mem_map.mp ((hsame w.key).mp (mem_map_of_mem hw))
      have hvers : v'.version.versions = w'.version.versions :=
        (congrArg Prod.fst hkv).trans (hvw.trans (congrArg Prod.fst hkw).symm)
      exact (congrArg Prod.snd hkv).symm.trans
        ((hval v' hv' w' hw' hvers).trans (congrArg Prod.snd hkw))
    refine (perm_ext_iff_of_nodup (frontier_deliverAll steps').nodup_key
      (frontier_deliverAll steps).nodup_key).mpr fun k => ?_
    rw [mem_key_deliverAll hval', mem_key_deliverAll hval]
    exact ⟨maximal_key_mono hsame k, maximal_key_mono (fun k => (hsame k).symm) k⟩
  · intro pre _
    exact (frontier_deliverAll pre).concurrently

/-- Two successive writes of node 1, the later one arriving first and again in
a group with the earlier one. -/
def twoWrites : List (Delivery ℕ) :=
  [.put ⟨20, .single 1 1 6⟩, .sync [⟨10, .single 1 0 5⟩, ⟨20, .single 1 1 6⟩]]

theorem replica_converges_twoWrites :
    (delivered twoWrites).map Versioned.value = [20, 10, 20] ∧
    ((stored (deliverAll none twoWrites)).map Versioned.key).Nodup :=
  ⟨by decide, (replica_converges twoWrites (by decide)).2.1⟩

end NctuSdn
