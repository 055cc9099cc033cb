/-
Anti-entropy between two nodes (`SyncManager.antientropy` and the SYNC_OFFER,
SYNC_REQUEST and SYNC_VALUE handlers of `RPCChannelHandler`).

The node that starts the pass offers the versions of all its keys in batches
of fifty.  The other node asks for the keys it may lack something of, the
first one answers with their values, and these are written like any value
from another node.  Messages are delivered in any order, by value.

The proof follows one version of the first node.  Until the other node holds
something at least as new, the version is *carried* by a message in flight:
first by an offer, then by a request for its key, then by a reply
(`Pass.covered`).  When nothing is in flight, everything has arrived.
-/
import NctuSdn.Lib.Network
import NctuSdn.Sync.Store

namespace NctuSdn

open List Function

variable {K V : Type*}

/-! ### Stores -/

/-- The contents of one in-memory engine.  `doput` never leaves an empty list
behind, and what it leaves is a frontier. -/
structure SyncStore (K V : Type*) where
  map : K → Option (List (Versioned V))
  nonempty : ∀ k, map k ≠ some []
  frontier : ∀ k, Frontier Versioned.rank (stored (map k))

namespace SyncStore

def empty : SyncStore K V where
  map _ := none
  nonempty _ := by simp
  frontier _ := List.Pairwise.nil

def get (s : SyncStore K V) (k : K) : List (Versioned V) := stored (s.map k)

theorem get_eq_nil_iff (s : SyncStore K V) (k : K) : s.get k = [] ↔ s.map k = none := by
  have hne := s.nonempty k
  unfold get stored
  cases h : s.map k with
  | none => simp
  | some items => rw [h] at hne; simpa using hne

theorem get_of_map {s : SyncStore K V} {k : K} {items : List (Versioned V)}
    (h : s.map k = some items) : s.get k = items := by
  unfold get stored
  rw [h]
  rfl

theorem map_eq_some_get {s : SyncStore K V} {k : K} (h : s.get k ≠ []) :
    s.map k = some (s.get k) := by
  cases hmap : s.map k with
  | none => exact absurd ((s.get_eq_nil_iff k).mpr hmap) h
  | some items => rw [get_of_map hmap]

/-- The list `entries()` iterates over, in whatever order the map has. -/
def Entries (s : SyncStore K V) (entries : List (K × List (Versioned V))) : Prop :=
  ∀ k items, (k, items) ∈ entries ↔ s.map k = some items

end SyncStore

/-- The store a node has registered under the name, if any, read at a key. -/
def itemsAt (store : Option (SyncStore K V)) (k : K) : Option (List (Versioned V)) :=
  store.bind fun s => s.map k

theorem frontier_itemsAt (store : Option (SyncStore K V)) (k : K) :
    Frontier Versioned.rank (stored (itemsAt store k)) := by
  cases store with
  | none => exact List.Pairwise.nil
  | some s => exact s.frontier k

section Write

variable [DecidableEq V]

theorem doput_ne_nil {items : Option (List (Versioned V))} (h : items ≠ some [])
    (value : Versioned V) : (doput items value).1 ≠ some [] := by
  unfold doput
  cases items with
  | none => simp
  | some items =>
    dsimp only
    cases scanItems value items [] with
    | none => exact h
    | some rem => simp

theorem writeSyncValue_ne_nil {items : Option (List (Versioned V))} (h : items ≠ some [])
    (values : List (Versioned V)) : (writeSyncValue items values).1 ≠ some [] := by
  unfold writeSyncValue
  generalize false = flag
  induction values generalizing items flag with
  | nil => exact h
  | cons value values ih =>
    have hput : (put items value).1 ≠ some [] := by
      rw [put_fst]
      exact doput_ne_nil h value
    rw [foldl_cons]
    rcases hp : put items value with ⟨items', _ | _⟩ <;> (rw [hp] at hput; exact ih hput _)

variable [DecidableEq K]

def SyncStore.writeSyncValue (s : SyncStore K V) (k : K) (values : List (Versioned V)) :
    SyncStore K V where
  map := Function.update s.map k (NctuSdn.writeSyncValue (s.map k) values).1
  nonempty k' := by
    rcases eq_or_ne k' k with rfl | hne
    · rw [Function.update_self]
      exact writeSyncValue_ne_nil (s.nonempty k') values
    · rw [Function.update_of_ne hne]
      exact s.nonempty k'
  frontier k' := by
    rcases eq_or_ne k' k with rfl | hne
    · rw [Function.update_self, stored_writeSyncValue]
      exact frontier_foldl_insertMax (s.frontier k') values
    · rw [Function.update_of_ne hne]
      exact s.frontier k'

/-- `SyncManager.writeSyncValue`: an unknown store is registered first. -/
def registerAndWrite (store : Option (SyncStore K V)) (k : K) (values : List (Versioned V)) :
    Option (SyncStore K V) :=
  some ((store.getD .empty).writeSyncValue k values)

theorem itemsAt_registerAndWrite (store : Option (SyncStore K V)) (k : K)
    (values : List (Versioned V)) :
    itemsAt (registerAndWrite store k values) =
      update (itemsAt store) k (writeSyncValue (itemsAt store k) values).1 := by
  cases store <;> rfl

end Write

/-! ### Messages and handlers -/

/-- The messages of a pass.  A list that was never added to is unset. -/
inductive SyncMessage (K V : Type*)
  | syncOffer (versions : List (K × List VectorClock))
  | syncRequest (keys : List K)
  | syncValue (values : List (K × List (Versioned V)))

/-- The clocks of one key, as they stand in an offer. -/
def getTKeyedVersions (pair : K × List (Versioned V)) : K × List VectorClock :=
  (pair.1, pair.2.map Versioned.version)

/-- An offer without versions is not sent. -/
def sendSyncOffer (versions : List (K × List VectorClock)) : List (SyncMessage K V) :=
  if versions.isEmpty then [] else [.syncOffer versions]

/-- The loop over the entries; `versions` are those of the batch being filled
and `count` is their number. -/
def antientropyLoop (versions : List (K × List VectorClock)) (count : ℕ) :
    List (K × List (Versioned V)) → List (SyncMessage K V)
  | [] => sendSyncOffer versions
  | pair :: entries =>
    let versions' := versions ++ [getTKeyedVersions pair]
    if count + 1 ≥ 50 then sendSyncOffer versions' ++ antientropyLoop [] 0 entries
    else antientropyLoop versions' (count + 1) entries

def antientropy (entries : List (K × List (Versioned V))) : List (SyncMessage K V) :=
  antientropyLoop [] 0 entries

/-- Whether the node would like a copy of a key it is offered. -/
def handleSyncOffer (store : Option (SyncStore K V)) (k : K) (versions : List VectorClock) :
    Bool :=
  match store with
  | none => true
  | some s =>
    let values := s.get k
    if values.isEmpty then true
    else versions.any fun vc => values.any fun value =>
      vc.compare value.version != Occurred.before

/-- Answer an offer with the keys wanted, even when there are none. -/
def offerReply (store : Option (SyncStore K V)) (versions : List (K × List VectorClock)) :
    List (SyncMessage K V) :=
  [.syncRequest ((versions.filter fun kv => handleSyncOffer store kv.1 kv.2).map Prod.fst)]

/-- Answer a request with the values of the keys that have any. -/
def handleSyncRequest (store : SyncStore K V) (keys : List K) : List (SyncMessage K V) :=
  if keys.isEmpty then []
  else
    let values := keys.filterMap fun k =>
      let values := store.get k
      if values.isEmpty then none else some (k, values)
    if values.isEmpty then [] else [.syncValue values]

def handleSyncValue [DecidableEq K] [DecidableEq V] (store : Option (SyncStore K V))
    (values : List (K × List (Versioned V))) : Option (SyncStore K V) :=
  values.foldl (fun store kv => registerAndWrite store kv.1 kv.2) store

/-- The two stores a pass is about. -/
structure Nodes (K V : Type*) where
  offering : SyncStore K V
  receiving : Option (SyncStore K V)

def handleMessage [DecidableEq K] [DecidableEq V] (nodes : Nodes K V) :
    SyncMessage K V → Nodes K V × List (SyncMessage K V)
  | .syncOffer versions => (nodes, offerReply nodes.receiving versions)
  | .syncRequest keys => (nodes, handleSyncRequest nodes.offering keys)
  | .syncValue values =>
    ({ nodes with receiving := handleSyncValue nodes.receiving values }, [])

/-! ### Batching -/

def SyncMessage.offered : SyncMessage K V → List (K × List VectorClock)
  | .syncOffer versions => versions
  | _ => []

theorem offered_sendSyncOffer (versions : List (K × List VectorClock)) :
    (sendSyncOffer versions : List (SyncMessage K V)).flatMap SyncMessage.offered = versions := by
  unfold sendSyncOffer
  cases versions with
  | nil => rfl
  | cons kv versions => simp [SyncMessage.offered]

/-- The batches together offer every entry, in order. -/
theorem offered_antientropyLoop (versions : List (K × List VectorClock)) (count : ℕ)
    (entries : List (K × List (Versioned V))) :
    (antientropyLoop versions count entries).flatMap SyncMessage.offered =
      versions ++ entries.map getTKeyedVersions := by
  induction entries generalizing versions count with
  | nil => simp [antientropyLoop, offered_sendSyncOffer]
  | cons pair entries ih =>
    unfold antientropyLoop
    split
    · rw [flatMap_append, offered_sendSyncOffer, ih]
      simp
    · rw [ih]
      simp

variable {versions : List (K × List VectorClock)} {m : SyncMessage K V}

theorem exists_of_mem_sendSyncOffer (h : m ∈ (sendSyncOffer versions : List (SyncMessage K V))) :
    ∃ versions', m = .syncOffer versions' := by
  unfold sendSyncOffer at h
  split at h
  · cases h
  · exact ⟨versions, mem_singleton.mp h⟩

theorem exists_of_mem_antientropyLoop {count : ℕ} {entries : List (K × List (Versioned V))}
    (h : m ∈ antientropyLoop versions count entries) :
    ∃ versions', m = .syncOffer versions' := by
  induction entries generalizing versions count with
  | nil => exact exists_of_mem_sendSyncOffer h
  | cons pair entries ih =>
    unfold antientropyLoop at h
    split at h
    · rcases mem_append.mp h with h | h
      · exact exists_of_mem_sendSyncOffer h
      · exact ih h
    · exact ih h

theorem exists_offer {entries : List (K × List (Versioned V))} {k : K}
    {items : List (Versioned V)} (h : (k, items) ∈ entries) :
    ∃ versions, SyncMessage.syncOffer versions ∈ antientropy entries ∧
      getTKeyedVersions (k, items) ∈ versions := by
  have hoffered : getTKeyedVersions (k, items) ∈
      (antientropy entries).flatMap SyncMessage.offered := by
    unfold antientropy
    rw [offered_antientropyLoop, nil_append]
    exact mem_map_of_mem h
  obtain ⟨m, hm, hkv⟩ := mem_flatMap.mp hoffered
  obtain ⟨versions, rfl⟩ := exists_of_mem_antientropyLoop hm
  exact ⟨versions, hm, hkv⟩

/-! ### The handlers on down-sets -/

/-- **A declined offer hides nothing new**: each version offered is at or
below one the node has. -/
theorem handleSyncOffer_eq_false {store : Option (SyncStore K V)} {k : K}
    {versions : List VectorClock} (h : handleSyncOffer store k versions = false) :
    ∀ vc ∈ versions, Below Versioned.rank (stored (itemsAt store k)) vc.versionAt := by
  intro vc hvc
  unfold handleSyncOffer at h
  cases store with
  | none => cases h
  | some s =>
    dsimp only at h
    split at h
    · cases h
    · rename_i hne
      -- the version must be below all there is, and there is something
      have hall : ∀ value ∈ s.get k, vc.compare value.version = .before := by
        simpa using any_eq_false.mp h vc hvc
      obtain ⟨value, hvalue⟩ := exists_mem_of_ne_nil (s.get k) (by simpa using hne)
      have hbefore := hall value hvalue
      exact ⟨value, hvalue, VectorClock.compare_eq_before_iff.mp hbefore⟩

section Values

variable [DecidableEq K] [DecidableEq V]

theorem below_handleSyncValue (store : Option (SyncStore K V))
    (values : List (K × List (Versioned V))) (k : K) (r : ℕ → ℕ) :
    Below Versioned.rank (stored (itemsAt (handleSyncValue store values) k)) r ↔
      Below Versioned.rank (stored (itemsAt store k)) r ∨
        ∃ items, (k, items) ∈ values ∧ Below Versioned.rank items r := by
  unfold handleSyncValue
  induction values generalizing store with
  | nil => simp
  | cons kv values ih =>
    obtain ⟨k₀, items₀⟩ := kv
    rw [foldl_cons, ih, itemsAt_registerAndWrite]
    rcases eq_or_ne k k₀ with rfl | hne
    · rw [update_self, stored_writeSyncValue, below_foldl_insertMax, or_assoc]
      simp [or_and_right, exists_or]
    · rw [update_of_ne hne]
      simp [hne]

theorem mem_handleSyncValue {store : Option (SyncStore K V)}
    {values : List (K × List (Versioned V))} {k : K} {v : Versioned V}
    (h : v ∈ stored (itemsAt (handleSyncValue store values) k)) :
    v ∈ stored (itemsAt store k) ∨ ∃ items, (k, items) ∈ values ∧ v ∈ items := by
  induction values generalizing store with
  | nil => exact .inl h
  | cons kv values ih =>
    obtain ⟨k₀, items₀⟩ := kv
    rcases ih h with h | ⟨items, hmem, hv⟩
    · rw [itemsAt_registerAndWrite] at h
      rcases eq_or_ne k k₀ with rfl | hne
      · rw [update_self, stored_writeSyncValue] at h
        refine (mem_of_mem_foldl_insertMax h).imp_right fun hv => ?_
        exact ⟨items₀, mem_cons_self, hv⟩
      · rw [update_of_ne hne] at h
        exact .inl h
    · exact .inr ⟨items, mem_cons_of_mem _ hmem, hv⟩

theorem itemsAt_handleSyncValue_of_not_mem (store : Option (SyncStore K V))
    {values : List (K × List (Versioned V))} {k : K} (h : ∀ kv ∈ values, kv.1 ≠ k) :
    itemsAt (handleSyncValue store values) k = itemsAt store k := by
  unfold handleSyncValue
  induction values generalizing store with
  | nil => rfl
  | cons kv values ih =>
    rw [foldl_cons, ih _ fun kv' hkv' => h kv' (mem_cons_of_mem _ hkv'),
      itemsAt_registerAndWrite, update_of_ne (h kv mem_cons_self).symm]

end Values

/-- **A request** is answered by one reply with what the store has under the
keys, or by nothing when it has nothing there. -/
theorem handleSyncRequest_cases (store : SyncStore K V) (keys : List K) :
    (handleSyncRequest store keys = [] ∧ ∀ k ∈ keys, store.get k = []) ∨
    ∃ values, handleSyncRequest store keys = [.syncValue values] ∧
      ∀ k items, (k, items) ∈ values ↔ k ∈ keys ∧ store.map k = some items := by
  have hvalues : ∀ k items, (k, items) ∈ keys.filterMap (fun k =>
      if (store.get k).isEmpty then none else some (k, store.get k)) ↔
      k ∈ keys ∧ store.map k = some items := by
    intro k items
    rw [mem_filterMap]
    constructor
    · rintro ⟨k', hk', heq⟩
      split at heq
      · cases heq
      · rename_i hne
        cases heq
        exact ⟨hk', SyncStore.map_eq_some_get (by simpa using hne)⟩
    · rintro ⟨hk, hmap⟩
      refine ⟨k, hk, ?_⟩
      have hne : items ≠ [] := fun hnil => store.nonempty k (by rw [hmap, hnil])
      rw [SyncStore.get_of_map hmap, if_neg (by simpa using hne)]
  unfold handleSyncRequest
  dsimp only
  split
  next hkeys =>
    rw [isEmpty_iff.mp hkeys]
    exact .inl ⟨rfl, fun k hk => absurd hk not_mem_nil⟩
  next =>
    split
    next hempty =>
      refine .inl ⟨rfl, fun k hk => ?_⟩
      by_contra hne
      -- a key with versions would be among the values
      have hmem := (hvalues k _).mpr ⟨hk, SyncStore.map_eq_some_get hne⟩
      rw [isEmpty_iff.mp hempty] at hmem
      cases hmem
    next => exact .inr ⟨_, rfl, hvalues⟩

/-! ### One pass -/

/-- The message is on the way to bringing the offering node's versions of `k`
to the other one. -/
def Carries (a : SyncStore K V) (k : K) : SyncMessage K V → Prop
  | .syncOffer versions => getTKeyedVersions (k, a.get k) ∈ versions
  | .syncRequest keys => k ∈ keys
  | .syncValue values => (k, a.get k) ∈ values

/-- Replies hold what the offering node holds. -/
def Faithful (a : SyncStore K V) : SyncMessage K V → Prop
  | .syncValue values => ∀ k items, (k, items) ∈ values → a.map k = some items
  | _ => True

/-- What holds throughout a pass of `a` towards a node that started with `b`. -/
structure Pass (a : SyncStore K V) (b : Option (SyncStore K V))
    (c : Net (Nodes K V) (SyncMessage K V)) : Prop where
  offering : c.state.offering = a
  faithful : ∀ m ∈ c.inFlight, Faithful a m
  held : ∀ k, ∀ v ∈ stored (itemsAt c.state.receiving k),
    v ∈ a.get k ∨ v ∈ stored (itemsAt b k)
  kept : ∀ k, ∀ v ∈ stored (itemsAt b k),
    Below Versioned.rank (stored (itemsAt c.state.receiving k)) v.rank
  covered : ∀ k, ∀ v ∈ a.get k,
    Below Versioned.rank (stored (itemsAt c.state.receiving k)) v.rank ∨
      ∃ m ∈ c.inFlight, Carries a k m
  untouched : ∀ k, a.map k = none → itemsAt c.state.receiving k = itemsAt b k

theorem Pass.init {a : SyncStore K V} (b : Option (SyncStore K V))
    {entries : List (K × List (Versioned V))} (hentries : a.Entries entries) :
    Pass a b ⟨⟨a, b⟩, (antientropy entries : Multiset (SyncMessage K V))⟩ where
  offering := rfl
  faithful m hm := by
    obtain ⟨versions, rfl⟩ := exists_of_mem_antientropyLoop (Multiset.mem_coe.mp hm)
    trivial
  held _ _ hv := .inr hv
  kept _ v hv := ⟨v, hv, le_rfl⟩
  covered k v hv := by
    right
    have hentry : (k, a.get k) ∈ entries :=
      (hentries k _).mpr (SyncStore.map_eq_some_get (ne_nil_of_mem hv))
    obtain ⟨versions, hm, hkv⟩ := exists_offer hentry
    exact ⟨_, Multiset.mem_coe.mpr hm, hkv⟩
  untouched _ _ := rfl

section Step

variable {a : SyncStore K V} {b : Option (SyncStore K V)} {nodes : Nodes K V}
  {rest : Multiset (SyncMessage K V)}

/-- A message that leaves the stores alone keeps the pass going if its answer
carries on what it carried. -/
theorem Pass.of_reply {reply : List (SyncMessage K V)} (h : Pass a b ⟨nodes, m ::ₘ rest⟩)
    (hfaithful : ∀ m' ∈ reply, Faithful a m') (hcarry : ∀ k, ∀ v ∈ a.get k, Carries a k m →
      Below Versioned.rank (stored (itemsAt nodes.receiving k)) v.rank ∨
      ∃ m' ∈ reply, Carries a k m') :
    Pass a b ⟨nodes, rest + (reply : Multiset (SyncMessage K V))⟩ where
  offering := h.offering
  faithful m' hm' := by
    rcases Multiset.mem_add.mp hm' with hm' | hm'
    · exact h.faithful m' (Multiset.mem_cons_of_mem hm')
    · exact hfaithful m' (Multiset.mem_coe.mp hm')
  held := h.held
  kept := h.kept
  covered k v hv := by
    rcases h.covered k v hv with hb | ⟨m', hm', hc⟩
    · exact .inl hb
    · rcases Multiset.mem_cons.mp hm' with rfl | hm'
      · refine (hcarry k v hv hc).imp_right ?_
        rintro ⟨m₂, hm₂, hc₂⟩
        exact ⟨m₂, Multiset.mem_add.mpr (.inr (Multiset.mem_coe.mpr hm₂)), hc₂⟩
      · exact .inr ⟨m', Multiset.mem_add.mpr (.inl hm'), hc⟩
  untouched := h.untouched

theorem Pass.syncOffer (h : Pass a b ⟨nodes, .syncOffer versions ::ₘ rest⟩) :
    Pass a b ⟨nodes, rest +
      (offerReply nodes.receiving versions : Multiset (SyncMessage K V))⟩ := by
  refine h.of_reply ?_ ?_
  · intro m' hm'
    obtain rfl := mem_singleton.mp hm'
    trivial
  · intro k v hv hc
    -- either the key is asked for, or the node has something at least as new
    cases hwant : handleSyncOffer nodes.receiving k ((a.get k).map Versioned.version) with
    | true =>
      refine .inr ⟨_, mem_singleton_self _, ?_⟩
      exact mem_map.mpr ⟨_, mem_filter.mpr ⟨hc, hwant⟩, rfl⟩
    | false =>
      exact .inl (handleSyncOffer_eq_false hwant v.version (mem_map_of_mem hv))

theorem Pass.syncRequest {keys : List K} (h : Pass a b ⟨nodes, .syncRequest keys ::ₘ rest⟩) :
    Pass a b ⟨nodes, rest +
      (handleSyncRequest nodes.offering keys : Multiset (SyncMessage K V))⟩ := by
  have hoff : nodes.offering = a := h.offering
  rw [hoff]
  rcases handleSyncRequest_cases a keys with ⟨heq, hempty⟩ | ⟨values, heq, hvalues⟩
  · rw [heq]
    refine h.of_reply (fun m' hm' => absurd hm' not_mem_nil) ?_
    intro k v hv hc
    -- a key that is asked for and has a version does not go unanswered
    rw [hempty k hc] at hv
    cases hv
  · rw [heq]
    refine h.of_reply ?_ ?_
    · intro m' hm'
      obtain rfl := mem_singleton.mp hm'
      exact fun k items hmem => ((hvalues k items).mp hmem).2
    · intro k v hv hc
      have hmap := SyncStore.map_eq_some_get (ne_nil_of_mem hv)
      exact .inr ⟨_, mem_singleton_self _, (hvalues k _).mpr ⟨hc, hmap⟩⟩

variable [DecidableEq K] [DecidableEq V]

theorem Pass.syncValue {values : List (K × List (Versioned V))}
    (h : Pass a b ⟨nodes, .syncValue values ::ₘ rest⟩) :
    Pass a b ⟨{ nodes with receiving := handleSyncValue nodes.receiving values }, rest⟩ := by
  have hvalues : ∀ k items, (k, items) ∈ values → a.map k = some items :=
    h.faithful _ (Multiset.mem_cons_self _ _)
  refine ⟨h.offering, fun m hm => h.faithful m (Multiset.mem_cons_of_mem hm), ?_, ?_, ?_, ?_⟩
  · intro k v hv
    rcases mem_handleSyncValue hv with hv | ⟨items, hmem, hv⟩
    · exact h.held k v hv
    · rw [SyncStore.get_of_map (hvalues k items hmem)]
      exact .inl hv
  · intro k v hv
    exact (below_handleSyncValue _ _ _ _).mpr (.inl (h.kept k v hv))
  · intro k v hv
    rcases h.covered k v hv with hb | ⟨m, hm, hc⟩
    · exact .inl ((below_handleSyncValue _ _ _ _).mpr (.inl hb))
    · rcases Multiset.mem_cons.mp hm with rfl | hm
      · exact .inl ((below_handleSyncValue _ _ _ _).mpr (.inr ⟨_, hc, v, hv, le_rfl⟩))
      · exact .inr ⟨m, hm, hc⟩
  · intro k hk
    refine Eq.trans (itemsAt_handleSyncValue_of_not_mem _ ?_) (h.untouched k hk)
    rintro ⟨k', items⟩ hmem rfl
    rw [hvalues k' items hmem] at hk
    cases hk

/-- **Every delivery keeps the pass going.** -/
theorem Pass.step (m : SyncMessage K V) (h : Pass a b ⟨nodes, m ::ₘ rest⟩) :
    Pass a b ⟨(handleMessage nodes m).1,
      rest + ((handleMessage nodes m).2 : Multiset (SyncMessage K V))⟩ := by
  cases m with
  | syncOffer versions => exact h.syncOffer
  | syncRequest keys => exact h.syncRequest
  | syncValue values =>
    show Pass a b ⟨_, rest + (([] : List (SyncMessage K V)) : Multiset (SyncMessage K V))⟩
    rw [Multiset.coe_nil, add_zero]
    exact h.syncValue

end Step

/-! ### Completion -/

/-- An offer is followed by a request and a request by a reply. -/
def SyncMessage.remaining : SyncMessage K V → ℕ
  | .syncOffer _ => 3
  | .syncRequest _ => 2
  | .syncValue _ => 1

theorem remaining_handleMessage [DecidableEq K] [DecidableEq V] (nodes : Nodes K V)
    (m : SyncMessage K V) :
    ((handleMessage nodes m).2.map SyncMessage.remaining).sum < m.remaining := by
  cases m with
  | syncOffer versions => simp [handleMessage, offerReply, SyncMessage.remaining]
  | syncRequest keys =>
    show ((handleSyncRequest nodes.offering keys).map SyncMessage.remaining).sum < _
    rcases handleSyncRequest_cases nodes.offering keys with ⟨heq, -⟩ | ⟨values, heq, -⟩
    · simp [heq, SyncMessage.remaining]
    · simp [heq, SyncMessage.remaining]
  | syncValue values => simp [handleMessage, SyncMessage.remaining]

/-- When nothing is left in flight the other node covers the union. -/
theorem Pass.below_of_quiescent {a : SyncStore K V} {b : Option (SyncStore K V)}
    {c : Net (Nodes K V) (SyncMessage K V)} (h : Pass a b c) (hq : c.Quiescent) (k : K) :
    ∀ v ∈ a.get k ++ stored (itemsAt b k),
      Below Versioned.rank (stored (itemsAt c.state.receiving k)) v.rank := by
  intro v hv
  rcases mem_append.mp hv with hv | hv
  · rcases h.covered k v hv with hb | ⟨m, hm, -⟩
    · exact hb
    · rw [show c.inFlight = 0 from hq] at hm
      exact absurd hm (Multiset.notMem_zero m)
  · exact h.kept k v hv

/-- **One pass is complete.**  However the messages of a pass are ordered, it
can be run to its end; whenever nothing is left in flight, the receiving node
holds under each key of the offering one exactly one copy of each maximal
version of what the two held before, and its other keys are as they were.
An offer is only ever declined when each version offered is at or below one
that the node has. -/
theorem antientropy_complete [DecidableEq K] [DecidableEq V] (a : SyncStore K V)
    (b : Option (SyncStore K V)) (entries : List (K × List (Versioned V)))
    (hentries : a.Entries entries)
    (hval : ∀ k, ∀ v ∈ a.get k ++ stored (itemsAt b k), ∀ w ∈ a.get k ++ stored (itemsAt b k),
      v.version.versions = w.version.versions → v.value = w.value) :
    (∀ c, Net.Run handleMessage ⟨⟨a, b⟩, (antientropy entries : Multiset (SyncMessage K V))⟩ c →
      ∃ c', Net.Run handleMessage c c' ∧ c'.Quiescent) ∧
    (∀ c, Net.Run handleMessage ⟨⟨a, b⟩, (antientropy entries : Multiset (SyncMessage K V))⟩ c →
      c.Quiescent →
      (∀ k, a.map k ≠ none →
        (∀ key, key ∈ (stored (itemsAt c.state.receiving k)).map Versioned.key ↔
          ∃ v ∈ a.get k ++ stored (itemsAt b k), v.key = key ∧
            ∀ w ∈ a.get k ++ stored (itemsAt b k), v.rank ≤ w.rank → w.rank ≤ v.rank) ∧
        ((stored (itemsAt c.state.receiving k)).map Versioned.key).Nodup) ∧
      (∀ k, a.map k = none → itemsAt c.state.receiving k = itemsAt b k)) ∧
    (∀ (store : Option (SyncStore K V)) (k : K) (versions : List VectorClock),
      handleSyncOffer store k versions = false →
      ∀ vc ∈ versions, ∃ v ∈ stored (itemsAt store k), vc.versionAt ≤ v.rank) := by
  refine ⟨fun c _ => Net.exists_quiescent remaining_handleMessage c, ?_, ?_⟩
  · intro c hrun hq
    have hpass : Pass a b c :=
      Net.invariant (fun _ m _ h => h.step m) hrun (Pass.init b hentries)
    have hfrontier := frontier_itemsAt c.state.receiving
    refine ⟨fun k _ => ⟨?_, (hfrontier k).nodup_key⟩, hpass.untouched⟩
    refine (hfrontier k).mem_key_iff ?_ (hpass.below_of_quiescent hq k) (hval k)
    exact fun v hv => mem_append.mpr (hpass.held k v hv)
  · exact fun store k versions h => handleSyncOffer_eq_false h

/-! ### Two stores -/

/-- Of two versions, one after the other, only the later one is maximal. -/
theorem maximal_of_after {v w : Versioned V} (h : v.version.compare w.version = .after)
    (key : List ClockEntry × V) :
    (∃ u ∈ [v, w], u.key = key ∧ ∀ x ∈ [v, w], u.rank ≤ x.rank → x.rank ≤ u.rank) ↔
      v.key = key := by
  obtain ⟨hle, hnot⟩ := VectorClock.compare_eq_after_iff.mp h
  constructor
  · rintro ⟨u, hu, hkey, hmax⟩
    rcases mem_pair.mp hu with rfl | rfl
    · exact hkey
    · exact absurd (hmax v mem_cons_self hle) hnot
  · refine fun hkey => ⟨v, mem_cons_self, hkey, fun x hx _ => ?_⟩
    rcases mem_pair.mp hx with rfl | rfl
    · exact le_rfl
    · exact hle

/-- Two concurrent versions are both maximal. -/
theorem maximal_of_concurrently {v w : Versioned V}
    (h : v.version.compare w.version = .concurrently) (key : List ClockEntry × V) :
    (∃ u ∈ [v, w], u.key = key ∧ ∀ x ∈ [v, w], u.rank ≤ x.rank → x.rank ≤ u.rank) ↔
      v.key = key ∨ w.key = key := by
  obtain ⟨hvw, hwv⟩ := VectorClock.compare_eq_concurrently_iff.mp h
  have hmax : ∀ u ∈ [v, w], ∀ x ∈ [v, w], u.rank ≤ x.rank → x.rank ≤ u.rank := by
    intro u hu x hx hle
    rcases mem_pair.mp hu with rfl | rfl <;> rcases mem_pair.mp hx with rfl | rfl
    · exact le_rfl
    · exact absurd hle hvw
    · exact absurd hle hwv
    · exact le_rfl
  constructor
  · rintro ⟨u, hu, hkey, -⟩
    rcases mem_pair.mp hu with rfl | rfl
    · exact .inl hkey
    · exact .inr hkey
  · rintro (hkey | hkey)
    · exact ⟨v, mem_cons_self, hkey, hmax v mem_cons_self⟩
    · have hw : w ∈ [v, w] := mem_cons_of_mem _ mem_cons_self
      exact ⟨w, hw, hkey, hmax w hw⟩

/-- Node 1 has written twice under `true` and once under `false`. -/
def firstStore : SyncStore Bool ℕ where
  map k := some [if k then ⟨7, .single 1 1 6⟩ else ⟨3, .single 1 0 5⟩]
  nonempty k := by simp
  frontier k := List.pairwise_singleton _ _

/-- The other node has the first write under `true`, and one of node 2 under `false`. -/
def secondStore : SyncStore Bool ℕ where
  map k := some [if k then ⟨5, .single 1 0 5⟩ else ⟨4, .single 2 0 5⟩]
  nonempty k := by simp
  frontier k := List.pairwise_singleton _ _

theorem entries_firstStore :
    firstStore.Entries [(true, firstStore.get true), (false, firstStore.get false)] := by
  intro k items
  cases k <;> simp [firstStore, SyncStore.get, stored, eq_comm]

/-- An older version is replaced, and a concurrent one is kept beside the new one. -/
theorem antientropy_complete_pair :
    firstStore.Entries [(true, firstStore.get true), (false, firstStore.get false)] ∧
    ∃ c, Net.Run handleMessage ⟨⟨firstStore, some secondStore⟩,
        (antientropy [(true, firstStore.get true), (false, firstStore.get false)] :
          Multiset (SyncMessage Bool ℕ))⟩ c ∧ c.Quiescent ∧
      (∀ key, key ∈ (stored (itemsAt c.state.receiving true)).map Versioned.key ↔
        ([.ofWrites 1 1], 7) = key) ∧
      ∀ key, key ∈ (stored (itemsAt c.state.receiving false)).map Versioned.key ↔
        ([.ofWrites 1 0], 3) = key ∨ ([.ofWrites 2 0], 4) = key := by
  obtain ⟨hend, hfinal, -⟩ :=
    antientropy_complete firstStore (some secondStore) _ entries_firstStore (by decide)
  obtain ⟨c, hrun, hq⟩ := hend _ Relation.ReflTransGen.refl
  obtain ⟨hholds, -⟩ := hfinal c hrun hq
  refine ⟨entries_firstStore, c, hrun, hq, fun key => ?_, fun key => ?_⟩
  · exact ((hholds true (by decide)).1 key).trans (maximal_of_after (by decide +kernel) key)
  · exact ((hholds false (by decide)).1 key).trans
      (maximal_of_concurrently (by decide +kernel) key)

end NctuSdn
