/-
Local clients of one key (`DefaultStoreClient` with its default resolvers).

A client reads the key with `get`: the stored versions pass through the two
conflict resolvers, and what comes back carries a clock that covers all of
them.  A later `put` with that version increments the entry of the local node
and hands the result to the storage engine.  Any number of clients of one
node do this in any order, while versions from other nodes arrive through
`writeSyncValue`; one call is one atomic step.
-/
import NctuSdn.Sync.Store

namespace NctuSdn

open List

variable {V : Type*}

/-! ### Conflict resolution -/

/-- The inner loop of the clock resolver: `v₁` replaces the first version it
exceeds and evicts the others; the flag says whether `v₁` has been ordered
against anything. -/
def resolveInner (v₁ : Versioned V) : List (Versioned V) → Bool → List (Versioned V) × Bool
  | [], found => ([], found)
  | v₂ :: newItems, found =>
    match v₁.version.compare v₂.version with
    | .after =>
      let (rest, f) := resolveInner v₁ newItems true
      if found then (rest, f) else (v₁ :: rest, f)
    | .before =>
      let (rest, f) := resolveInner v₁ newItems true
      (v₂ :: rest, f)
    | .concurrently =>
      let (rest, f) := resolveInner v₁ newItems found
      (v₂ :: rest, f)

def vectorClockResolve (items : List (Versioned V)) : List (Versioned V) :=
  if items.length ≤ 1 then items
  else items.foldl (fun newItems v₁ =>
    match resolveInner v₁ newItems false with
    | (newItems', true) => newItems'
    | (newItems', false) => newItems' ++ [v₁]) []

/-- The loop of the time-based resolver: the latest version so far and the
merge of all clocks so far. -/
def timeBasedLoop (now : ℤ) : List (Versioned V) → Versioned V → VectorClock →
    Versioned V × VectorClock
  | [], max, maxClock => (max, maxClock)
  | versioned :: items, max, maxClock =>
    timeBasedLoop now items
      (if max.version.timestamp < versioned.version.timestamp then versioned else max)
      (maxClock.merge versioned.version now)

def timeBasedResolve (now : ℤ) : List (Versioned V) → List (Versioned V)
  | [] => []
  | [item] => [item]
  | item :: items =>
    let (max, maxClock) := timeBasedLoop now (item :: items) item item.version
    [⟨max.value, maxClock⟩]

/-- `ChainedResolver` over the two: each runs only while a conflict is left. -/
def resolveConflicts (now : ℤ) (items : List (Versioned V)) : List (Versioned V) :=
  if items.length ≤ 1 then items
  else
    let items := vectorClockResolve items
    if items.length ≤ 1 then items else timeBasedResolve now items

/-- `Versioned.emptyVersioned`, what a reader of an absent key gets. -/
def emptyVersioned : Versioned (Option V) := ⟨none, VectorClock.empty 0⟩

def clientGet (now : ℤ) (items : Option (List (Versioned (Option V)))) :
    Except SyncError (Versioned (Option V)) :=
  match resolveConflicts now (stored items) with
  | [] => .ok emptyVersioned
  | [item] => .ok item
  | _ => .error .inconsistentData

/-- `DefaultStoreClient.put` with a versioned value on node `nodeId`. -/
def clientPut [DecidableEq V] (nodeId time : ℤ) (items : Option (List (Versioned (Option V))))
    (versioned : Versioned (Option V)) :
    Option (List (Versioned (Option V))) × Except SyncError VectorClock :=
  match versioned.version.incremented nodeId time with
  | .error e => (items, .error e)
  | .ok vc =>
    match put items ⟨versioned.value, vc⟩ with
    | (items', .ok _) => (items', .ok vc)
    | (items', .error e) => (items', .error e)

/-! ### What a reader gets -/

theorem timeBasedLoop_covers (now : ℤ) (items : List (Versioned V)) (max : Versioned V)
    (maxClock : VectorClock) :
    maxClock.versionAt ≤ (timeBasedLoop now items max maxClock).2.versionAt ∧
      ∀ v ∈ items, v.rank ≤ (timeBasedLoop now items max maxClock).2.versionAt := by
  induction items generalizing max maxClock with
  | nil => exact ⟨le_rfl, by simp⟩
  | cons x items ih =>
    obtain ⟨hclock, hitems⟩ := ih
      (if max.version.timestamp < x.version.timestamp then x else max)
      (maxClock.merge x.version now)
    have hleft : maxClock.versionAt ≤ (maxClock.merge x.version now).versionAt := by
      intro n
      simp
    have hright : x.rank ≤ (maxClock.merge x.version now).versionAt := by
      intro n
      simp [Versioned.rank]
    refine ⟨hleft.trans hclock, ?_⟩
    intro v hv
    rcases mem_cons.mp hv with rfl | hv
    · exact hright.trans hclock
    · exact hitems v hv

theorem resolveInner_of_concurrently {v₁ : Versioned V} {newItems : List (Versioned V)}
    (h : ∀ v₂ ∈ newItems, v₁.version.compare v₂.version = .concurrently) (found : Bool) :
    resolveInner v₁ newItems found = (newItems, found) := by
  induction newItems with
  | nil => rfl
  | cons v₂ newItems ih =>
    unfold resolveInner
    rw [h v₂ (by simp), ih fun w hw => h w (by simp [hw])]

theorem vectorClockResolve_of_frontier {items : List (Versioned V)}
    (h : Frontier Versioned.rank items) : vectorClockResolve items = items := by
  unfold vectorClockResolve
  split
  · rfl
  · -- the loop has copied the items it has passed
    suffices hloop : ∀ pre rest, pre ++ rest = items →
        rest.foldl (fun newItems v₁ =>
          match resolveInner v₁ newItems false with
          | (newItems', true) => newItems'
          | (newItems', false) => newItems' ++ [v₁]) pre = items from hloop [] items rfl
    intro pre rest
    induction rest generalizing pre with
    | nil =>
      intro hpre
      simpa using hpre
    | cons v₁ rest ih =>
      intro hpre
      have hconc : ∀ v₂ ∈ pre, v₁.version.compare v₂.version = .concurrently := by
        intro v₂ hv₂
        have hpair := pairwise_append.mp (hpre ▸ h.concurrently)
        exact (hpair.2.2 v₂ hv₂ v₁ (by simp)).2
      rw [foldl_cons, resolveInner_of_concurrently hconc]
      exact ih (pre ++ [v₁]) (by simpa using hpre)

/-- **A reader covers the store**: on pairwise concurrent versions `get`
succeeds, and the clock it returns is at or above every stored clock. -/
theorem get_covers {items : Option (List (Versioned (Option V)))}
    (h : Frontier Versioned.rank (stored items)) (now : ℤ) :
    ∃ r, clientGet now items = .ok r ∧ ∀ v ∈ stored items, v.rank ≤ r.rank := by
  unfold clientGet resolveConflicts
  rw [vectorClockResolve_of_frontier h]
  rcases hs : stored items with - | ⟨v, - | ⟨w, rest⟩⟩
  · exact ⟨emptyVersioned, rfl, by simp⟩
  · exact ⟨v, rfl, by simp⟩
  · -- at least two versions: the time-based resolver merges all their clocks
    simp only [length_cons, show ¬ rest.length + 1 + 1 ≤ 1 by omega, if_false,
      timeBasedResolve]
    exact ⟨_, rfl, (timeBasedLoop_covers now (v :: w :: rest) v v.version).2⟩

/-! ### Local puts -/

variable [DecidableEq V] {nodeId time : ℤ} {items items' : Option (List (Versioned (Option V)))}
  {versioned : Versioned (Option V)} {vc : VectorClock}

theorem clientPut_ok (h : clientPut nodeId time items versioned = (items', .ok vc)) :
    versioned.version.incremented nodeId time = .ok vc ∧
      ¬ Below Versioned.rank (stored items) vc.versionAt ∧
      stored items' = insertMax Versioned.rank (stored items) ⟨versioned.value, vc⟩ := by
  unfold clientPut at h
  cases hi : versioned.version.incremented nodeId time with
  | error e => rw [hi] at h; cases h
  | ok vc' =>
    rw [hi] at h
    dsimp only at h
    unfold put at h
    have hst := stored_doput items ⟨versioned.value, vc'⟩
    have hno := doput_eq_false_iff items ⟨versioned.value, vc'⟩
    rcases hd : doput items ⟨versioned.value, vc'⟩ with ⟨items'', _ | _⟩ <;>
      rw [hd] at h hst hno <;> cases h
    refine ⟨rfl, fun hb => ?_, hst⟩
    exact absurd (hno.mpr hb) (by simp)

theorem clientPut_obsolete (hi : versioned.version.incremented nodeId time = .ok vc)
    (hb : Below Versioned.rank (stored items) vc.versionAt) :
    clientPut nodeId time items versioned = ((doput items ⟨versioned.value, vc⟩).1,
      .error .obsoleteVersion) := by
  have hno := (doput_eq_false_iff items ⟨versioned.value, vc⟩).mpr hb
  unfold clientPut put
  rw [hi]
  dsimp only
  rcases hd : doput items ⟨versioned.value, vc⟩ with ⟨items'', _ | _⟩
  · rfl
  · rw [hd] at hno
    cases hno

/-! ### Interleavings on one node -/

/-- One call on the key: a client reads, a client puts with the version it
holds, or versions from another node arrive. -/
inductive ClientStep (C V : Type*)
  | get (client : C) (now : ℤ)
  | put (client : C) (value : Option V) (time : ℤ)
  | sync (values : List (Versioned (Option V)))

/-- The stored versions of the key and the version each client holds. -/
structure ClientState (C V : Type*) where
  items : Option (List (Versioned (Option V)))
  held : C → VectorClock

/-- The key is absent; clients hold the clock of a fresh `Versioned`. -/
def ClientState.init (C V : Type*) : ClientState C V := ⟨none, fun _ => VectorClock.empty 0⟩

omit [DecidableEq V] in
theorem frontier_init (C V : Type*) :
    Frontier Versioned.rank (stored (ClientState.init C V).items) :=
  Pairwise.nil

variable {C : Type*} [DecidableEq C]

/-- What a put step of `client` does to the store, and how it ends. -/
def ClientState.putResult (nodeId : ℤ) (s : ClientState C V) (client : C) (value : Option V)
    (time : ℤ) : Option (List (Versioned (Option V))) × Except SyncError VectorClock :=
  clientPut nodeId time s.items ⟨value, s.held client⟩

/-- One step.  A failed get leaves the client with what it held. -/
def clientStep (nodeId : ℤ) (s : ClientState C V) : ClientStep C V → ClientState C V
  | .get client now =>
    match clientGet now s.items with
    | .ok r => { s with held := fun c => if c = client then r.version else s.held c }
    | .error _ => s
  | .put client value time => { s with items := (s.putResult nodeId client value time).1 }
  | .sync values => { s with items := (writeSyncValue s.items values).1 }

def clientRun (nodeId : ℤ) (s : ClientState C V) (steps : List (ClientStep C V)) :
    ClientState C V :=
  steps.foldl (clientStep nodeId) s

/-! #### What a step preserves -/

theorem stored_clientPut_fst (nodeId time : ℤ) (items : Option (List (Versioned (Option V))))
    (versioned : Versioned (Option V)) :
    stored (clientPut nodeId time items versioned).1 = stored items ∨
      ∃ vc, stored (clientPut nodeId time items versioned).1 =
        insertMax Versioned.rank (stored items) ⟨versioned.value, vc⟩ := by
  unfold clientPut
  cases hi : versioned.version.incremented nodeId time with
  | error e => exact .inl rfl
  | ok vc =>
    refine .inr ⟨vc, ?_⟩
    have hfst := put_fst items ⟨versioned.value, vc⟩
    dsimp only
    rw [← stored_doput, ← hfst]
    rcases put items ⟨versioned.value, vc⟩ with ⟨items', _ | _⟩ <;> rfl

theorem stored_clientStep (nodeId : ℤ) (s : ClientState C V) (step : ClientStep C V) :
    ∃ xs : List (Versioned (Option V)), stored (clientStep nodeId s step).items =
      xs.foldl (insertMax Versioned.rank) (stored s.items) := by
  cases step with
  | get client now =>
    refine ⟨[], ?_⟩
    unfold clientStep
    dsimp only
    split <;> rfl
  | put client value time =>
    rcases stored_clientPut_fst nodeId time s.items ⟨value, s.held client⟩ with h | ⟨vc, h⟩
    · exact ⟨[], h⟩
    · exact ⟨[⟨value, vc⟩], h⟩
  | sync values => exact ⟨values, stored_writeSyncValue s.items values⟩

theorem stored_clientRun (nodeId : ℤ) (s : ClientState C V) (steps : List (ClientStep C V)) :
    ∃ xs : List (Versioned (Option V)), stored (clientRun nodeId s steps).items =
      xs.foldl (insertMax Versioned.rank) (stored s.items) := by
  unfold clientRun
  induction steps generalizing s with
  | nil => exact ⟨[], rfl⟩
  | cons step steps ih =>
    obtain ⟨xs, hxs⟩ := stored_clientStep nodeId s step
    obtain ⟨ys, hys⟩ := ih (clientStep nodeId s step)
    refine ⟨xs ++ ys, ?_⟩
    rw [foldl_cons, hys, hxs, foldl_append]

theorem frontier_clientRun (nodeId : ℤ) {s : ClientState C V}
    (h : Frontier Versioned.rank (stored s.items)) (steps : List (ClientStep C V)) :
    Frontier Versioned.rank (stored (clientRun nodeId s steps).items) := by
  obtain ⟨xs, hxs⟩ := stored_clientRun nodeId s steps
  rw [hxs]
  exact frontier_foldl_insertMax h xs

theorem below_clientRun (nodeId : ℤ) {s : ClientState C V} {b : ℕ → ℕ}
    (h : Below Versioned.rank (stored s.items) b) (steps : List (ClientStep C V)) :
    Below Versioned.rank (stored (clientRun nodeId s steps).items) b := by
  obtain ⟨xs, hxs⟩ := stored_clientRun nodeId s steps
  rw [hxs, below_foldl_insertMax]
  exact .inl h

theorem clientRun_append (nodeId : ℤ) (s : ClientState C V) (xs ys : List (ClientStep C V)) :
    clientRun nodeId s (xs ++ ys) = clientRun nodeId (clientRun nodeId s xs) ys :=
  foldl_append

theorem held_clientStep {nodeId : ℤ} {a : C} (s : ClientState C V) {step : ClientStep C V}
    (h : ∀ now, step ≠ .get a now) : (clientStep nodeId s step).held a = s.held a := by
  cases step with
  | get client now =>
    have hne : a ≠ client := by
      rintro rfl
      exact h now rfl
    unfold clientStep
    dsimp only
    split
    · simp [hne]
    · rfl
  | put client value time => rfl
  | sync values => rfl

theorem held_clientRun_of_no_get {nodeId : ℤ} {a : C} (s : ClientState C V)
    {steps : List (ClientStep C V)} (h : ∀ now, .get a now ∉ steps) :
    (clientRun nodeId s steps).held a = s.held a := by
  unfold clientRun
  induction steps generalizing s with
  | nil => rfl
  | cons step steps ih =>
    rw [foldl_cons, ih _ fun now hmem => h now (by simp [hmem])]
    refine held_clientStep s fun now hstep => h now ?_
    simp [hstep]

section

variable {nodeId : ℤ} {a : C} {s : ClientState C V} {b : ℕ → ℕ}
  (hf : Frontier Versioned.rank (stored s.items)) (hb : Below Versioned.rank (stored s.items) b)
include hf hb

/-- A read returns a clock that covers everything the store covers. -/
theorem le_held_clientStep_get (now : ℤ) :
    b ≤ ((clientStep nodeId s (.get a now)).held a).versionAt := by
  obtain ⟨r, hr, hcov⟩ := get_covers hf now
  obtain ⟨y, hy, hle⟩ := hb
  unfold clientStep
  dsimp only
  rw [hr]
  dsimp only
  rw [if_pos rfl]
  exact hle.trans (hcov y hy)

/-- Once `a` has read after the store covered `b`, what `a` holds covers `b`,
however the run goes on. -/
theorem le_held_clientRun {steps : List (ClientStep C V)}
    (h : b ≤ (s.held a).versionAt ∨ ∃ now, .get a now ∈ steps) :
    b ≤ ((clientRun nodeId s steps).held a).versionAt := by
  induction steps generalizing s with
  | nil =>
    rcases h with h | ⟨now, h⟩
    · exact h
    · cases h
  | cons step steps ih =>
    have hf' := frontier_clientRun nodeId hf [step]
    have hb' := below_clientRun nodeId hb [step]
    refine ih hf' hb' ?_
    by_cases hget : ∃ now, step = .get a now
    · -- a read of `a`: covered from here on
      obtain ⟨now, rfl⟩ := hget
      exact .inl (le_held_clientStep_get hf hb now)
    · push Not at hget
      refine h.imp (fun hle => ?_) ?_
      · rw [held_clientStep s hget]
        exact hle
      · rintro ⟨now, hmem⟩
        rcases mem_cons.mp hmem with heq | hmem
        · exact absurd heq.symm (hget now)
        · exact ⟨now, hmem⟩

end

/-! ### Lost updates -/

/-- If the version `b` put was made from is at or above the one `a` holds,
`a`'s clock after its increment is at or below the one `b` wrote. -/
theorem incremented_mono {va vb vc : VectorClock} {nodeId t : ℤ} (u : ℤ)
    (hle : va.versionAt ≤ vb.versionAt) (hb : vb.incremented nodeId t = .ok vc) :
    ∃ vc', va.incremented nodeId u = .ok vc' ∧ vc'.versionAt ≤ vc.versionAt := by
  obtain ⟨h₀, h₁⟩ := VectorClock.nodeId_of_incremented hb
  have hlt : va.versionAt nodeId.toNat + 1 < 2 ^ 63 := by
    have hinc := VectorClock.incremented_versionAt hb nodeId.toNat
    rw [if_pos rfl] at hinc
    have hbound := vc.versionAt_lt nodeId.toNat
    have hn : va.versionAt nodeId.toNat ≤ vb.versionAt nodeId.toNat := hle nodeId.toNat
    omega
  obtain ⟨vc', hvc'⟩ := VectorClock.incremented_isOk h₀ h₁ u hlt
  refine ⟨vc', hvc', fun n => ?_⟩
  rw [VectorClock.incremented_versionAt hvc', VectorClock.incremented_versionAt hb]
  exact Nat.add_le_add_right (hle n) _

/-- If the clock `b` wrote is still covered, a put from a version at or below the one `b`
put was made from is refused, and it removes nothing. -/
theorem clientPut_refused {items : Option (List (Versioned (Option V)))} {va vb vc : VectorClock}
    {nodeId t : ℤ} (hle : va.versionAt ≤ vb.versionAt) (hb : vb.incremented nodeId t = .ok vc)
    (hcov : Below Versioned.rank (stored items) vc.versionAt) (w : Option V) (u : ℤ) :
    (clientPut nodeId u items ⟨w, va⟩).2 = .error .obsoleteVersion ∧
      stored (clientPut nodeId u items ⟨w, va⟩).1 = stored items := by
  obtain ⟨vc', hvc', hle'⟩ := incremented_mono u hle hb
  obtain ⟨y, hy, hyle⟩ := hcov
  have hbelow : Below Versioned.rank (stored items) vc'.versionAt := ⟨y, hy, hle'.trans hyle⟩
  rw [clientPut_obsolete hvc' hbelow]
  exact ⟨rfl, by rw [stored_doput, insertMax_of_below hbelow]⟩

/-- **Local updates are not lost when writers keep up.**  Let client `b` put
successfully at some point of a run from the empty key, and let client `a`
put later.  Suppose that, unless `a` reads in between, `b`'s put carried a
version at or above the one `a` holds.  Then `a`'s put is refused as obsolete
if `a` has not read since; and in any case it removes `b`'s version only if
`a`'s version had seen it. -/
theorem put_after_local_put (nodeId : ℤ) (pre mid : List (ClientStep C V)) (a b : C)
    (v w : Option V) (t u : ℤ) (vc : VectorClock)
    (hput : ((clientRun nodeId (.init C V) pre).putResult nodeId b v t).2 = .ok vc)
    (hseen : (∀ now, .get a now ∉ mid) →
      ((clientRun nodeId (.init C V) pre).held a).versionAt ≤
        ((clientRun nodeId (.init C V) pre).held b).versionAt) :
    ((∀ now, .get a now ∉ mid) →
      ((clientRun nodeId (.init C V) (pre ++ .put b v t :: mid)).putResult nodeId a w u).2 =
        .error .obsoleteVersion) ∧
    ∀ x ∈ stored (clientRun nodeId (.init C V) (pre ++ .put b v t :: mid)).items,
      x.rank = vc.versionAt →
      x ∉ stored ((clientRun nodeId (.init C V) (pre ++ .put b v t :: mid)).putResult
        nodeId a w u).1 →
      vc.versionAt ≤
        ((clientRun nodeId (.init C V) (pre ++ .put b v t :: mid)).held a).versionAt := by
  set s := clientRun nodeId (.init C V) pre with hs
  have hrun : clientRun nodeId (.init C V) (pre ++ .put b v t :: mid) =
      clientRun nodeId (clientStep nodeId s (.put b v t)) mid := by
    rw [clientRun_append, ← hs]
    rfl
  rw [hrun]
  set s₁ := clientStep nodeId s (.put b v t) with hs₁
  obtain ⟨hinc, -, hst⟩ := clientPut_ok (Prod.ext (rfl : _ = s₁.items) hput)
  -- `b`'s clock is covered right after its put, hence for ever
  have hcov : Below Versioned.rank (stored s₁.items) vc.versionAt := by
    rw [hst, below_insertMax]
    exact .inr le_rfl
  have hcov' := below_clientRun nodeId hcov mid
  have hf₁ : Frontier Versioned.rank (stored s₁.items) := by
    rw [hst]
    refine frontier_insertMax ?_ _
    rw [hs]
    exact frontier_clientRun nodeId (frontier_init C V) pre
  have hrefused (hno : ∀ now, .get a now ∉ mid) :
      ((clientRun nodeId s₁ mid).putResult nodeId a w u).2 = .error .obsoleteVersion ∧
      stored ((clientRun nodeId s₁ mid).putResult nodeId a w u).1 =
        stored (clientRun nodeId s₁ mid).items := by
    have hheld : (clientRun nodeId s₁ mid).held a = s.held a :=
      held_clientRun_of_no_get s₁ hno
    unfold ClientState.putResult
    rw [hheld]
    exact clientPut_refused (hseen hno) hinc hcov' w u
  constructor
  · exact fun hno => (hrefused hno).1
  · intro x hx _ hgone
    by_cases hno : ∀ now, .get a now ∉ mid
    · -- a refused put removes nothing
      rw [(hrefused hno).2] at hgone
      exact absurd hx hgone
    · push Not at hno
      exact le_held_clientRun hf₁ hcov (.inr hno)

/-- Two clients read the absent key and put one after the other: the second
put is refused. -/
theorem put_after_local_put_fresh :
    ((clientRun 1 (.init ℕ ℕ) [.get 0 0, .get 1 0, .put 1 (some 8) 3]).putResult
      1 0 (some 9) 4).2 = .error .obsoleteVersion :=
  (put_after_local_put 1 [.get 0 0, .get 1 0] [] 0 1 (some 8) (some 9) 3 4
    (.single 1 0 3)
    (by decide +kernel) fun _ => (congrArg VectorClock.versionAt (by decide +kernel)).le).1
    (by simp)

/-! #### A lost update -/

/-- Client 1 reads the absent key, a version of node 2 arrives, and client 0
reads it. -/
def staleReads : List (ClientStep ℕ ℕ) :=
  [.get 1 0, .sync [⟨some 7, .single 2 0 1⟩], .get 0 2]

/-- **A local update is lost**: after `staleReads` both clients put.  Client 1,
which has not seen the foreign version, writes `1:1`; client 0 then exceeds
it with `1:1, 2:1` and is not told that the entry has changed since it read. -/
theorem stale_reader_overwrites :
    ¬ (∀ (nodeId : ℤ) (pre mid : List (ClientStep ℕ ℕ)) (a b : ℕ) (v w : Option ℕ) (t u : ℤ),
      a ≠ b → (∃ now, .get a now ∈ pre) → (∀ now, .get a now ∉ mid) →
      (∃ vc, ((clientRun nodeId (.init ℕ ℕ) pre).putResult nodeId b v t).2 = .ok vc) →
      ((clientRun nodeId (.init ℕ ℕ) (pre ++ .put b v t :: mid)).putResult nodeId a w u).2 =
        .error .obsoleteVersion) ∧
    (stored (clientRun 1 (.init ℕ ℕ) (staleReads ++ [.put 1 (some 8) 3])).items).map
      (fun x => x.value) = [some 7, some 8] ∧
    (stored (clientRun 1 (.init ℕ ℕ)
      (staleReads ++ [.put 1 (some 8) 3, .put 0 (some 9) 4])).items).map
      (fun x => x.value) = [some 9] := by
  refine ⟨fun h => ?_, by decide +kernel, by decide +kernel⟩
  have hobs := h 1 staleReads [] 0 1 (some 8) (some 9) 3 4 (by decide) ⟨2, by simp [staleReads]⟩
    (by simp) ⟨.single 1 0 3, by decide +kernel⟩
  have hok : ((clientRun 1 (.init ℕ ℕ) (staleReads ++ [.put 1 (some 8) 3])).putResult
      1 0 (some 9) 4).2.toBool = true := by decide +kernel
  rw [hobs] at hok
  cases hok

end NctuSdn
