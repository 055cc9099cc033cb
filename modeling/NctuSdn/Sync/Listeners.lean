/-
How a storage engine tells its listeners of a change (`ListenerStorageEngine`,
`MappingStoreListener`).

After a change of a key the engine makes one iterator over that key and passes it to all
its listeners in turn.  Each of them gets it inside a `MappingIterator` of its own, which
decodes the keys it takes from the shared one and skips those it cannot decode.  Already
`hasNext` takes a key, because it has to decode it to know that there is one.

A listener is arbitrary code.  While it runs it can ask its iterator and act on the
answers, and at the end it returns or throws (`Reaction`).
-/
import NctuSdn.Core.SwitchManager
import NctuSdn.Sync.Store

namespace NctuSdn

open List

variable {B K V : Type*}

/-! ### The mapping iterator -/

/-- `MappingIterator`: the iterator it wraps, by the keys that are left, and the decoded
key that `hasNext` has taken and `next` has not yet returned. -/
structure MappingIterator (B K : Type*) where
  keys : List B
  next : Option K

/-- The loop of `hasNext`: take keys until one is decoded. -/
def mapNext (map : B → Option K) : List B → MappingIterator B K
  | [] => ⟨[], none⟩
  | ka :: keys =>
    match map ka with
    | some key => ⟨keys, some key⟩
    | none => mapNext map keys

def MappingIterator.hasNext (map : B → Option K) (it : MappingIterator B K) :
    Bool × MappingIterator B K :=
  match it.next with
  | some _ => (true, it)
  | none => ((mapNext map it.keys).next.isSome, mapNext map it.keys)

/-- `MappingIterator.next`; no key is a `NoSuchElementException`. -/
def MappingIterator.take (map : B → Option K) (it : MappingIterator B K) :
    Option K × MappingIterator B K :=
  match it.hasNext map with
  | (true, it') => (it'.next, ⟨it'.keys, none⟩)
  | (false, it') => (none, it')

/-- The keys a mapping iterator still yields. -/
def MappingIterator.rest (map : B → Option K) (it : MappingIterator B K) : List K :=
  it.next.toList ++ it.keys.filterMap map

theorem rest_mapNext (map : B → Option K) (keys : List B) :
    (mapNext map keys).rest map = keys.filterMap map := by
  induction keys with
  | nil => rfl
  | cons ka keys ih =>
    unfold mapNext
    cases hka : map ka with
    | some key => rw [filterMap_cons_some hka]; rfl
    | none => rw [filterMap_cons_none hka]; exact ih

theorem rest_none (map : B → Option K) (keys : List B) :
    (⟨keys, none⟩ : MappingIterator B K).rest map = (mapNext map keys).rest map :=
  (rest_mapNext map keys).symm

theorem keys_mapNext_of_none {map : B → Option K} {keys : List B}
    (h : (mapNext map keys).next = none) : (mapNext map keys).keys = [] := by
  induction keys with
  | nil => rfl
  | cons ka keys ih =>
    unfold mapNext at h ⊢
    cases hka : map ka with
    | some key => rw [hka] at h; cases h
    | none => rw [hka] at h; exact ih h

theorem hasNext_spec (map : B → Option K) (it : MappingIterator B K) :
    (it.hasNext map).1 = !(it.rest map).isEmpty ∧ (it.hasNext map).2.rest map = it.rest map := by
  unfold MappingIterator.hasNext
  rcases it with ⟨keys, _ | key⟩
  · dsimp only
    rw [rest_none]
    refine ⟨?_, rfl⟩
    unfold MappingIterator.rest
    cases hnext : (mapNext map keys).next with
    | some key => rfl
    | none => rw [keys_mapNext_of_none hnext]; rfl
  · exact ⟨rfl, rfl⟩

/-- `next` yields the first key that is left, and the others stay. -/
theorem take_spec (map : B → Option K) (it : MappingIterator B K) :
    (it.take map).1 = (it.rest map).head? ∧ (it.take map).2.rest map = (it.rest map).tail := by
  unfold MappingIterator.take MappingIterator.hasNext
  rcases it with ⟨keys, _ | key⟩
  · dsimp only
    rw [rest_none]
    unfold MappingIterator.rest
    cases hnext : (mapNext map keys).next with
    | some key => exact ⟨hnext, rfl⟩
    | none =>
      dsimp only [Option.isSome_none]
      rw [keys_mapNext_of_none hnext, hnext]
      exact ⟨rfl, rfl⟩
  · exact ⟨rfl, rfl⟩

theorem keys_hasNext_singleton (map : B → Option K) (ka : B) :
    ((⟨[ka], none⟩ : MappingIterator B K).hasNext map).2.keys = [] := by
  unfold MappingIterator.hasNext mapNext
  cases map ka <;> rfl

/-! ### Listeners -/

/-- The code of a listener while it holds its iterator: it returns, throws, or asks the
iterator and goes on with the answer. -/
inductive Reaction (K : Type*)
  | done
  | throw
  | hasNext (react : Bool → Reaction K)
  | next (react : Option K → Reaction K)

/-- The listener asks its iterator at all. -/
def Reaction.Asks : Reaction K → Prop
  | done => False
  | throw => False
  | hasNext _ => True
  | next _ => True

def Reaction.run (map : B → Option K) : Reaction K → MappingIterator B K → MappingIterator B K
  | done, it => it
  | throw, it => it
  | hasNext react, it => (react (it.hasNext map).1).run map (it.hasNext map).2
  | next react, it => (react (it.take map).1).run map (it.take map).2

/-- The answers a listener gets when it asks something with these two operations. -/
def Reaction.answers {σ : Type*} (hasNext : σ → Bool × σ) (next : σ → Option K × σ) :
    Reaction K → σ → List (Bool ⊕ Option K)
  | done, _ => []
  | throw, _ => []
  | .hasNext react, s =>
    .inl (hasNext s).1 :: (react (hasNext s).1).answers hasNext next (hasNext s).2
  | .next react, s => .inr (next s).1 :: (react (next s).1).answers hasNext next (next s).2

/-- **A mapping iterator is a list**: whatever a listener asks, and in which order, it gets the
answers of an iterator over the keys that can be decoded. -/
theorem mappingIterator_refines_list (map : B → Option K) (reaction : Reaction K)
    (it : MappingIterator B K) :
    reaction.answers (MappingIterator.hasNext map) (MappingIterator.take map) it =
      reaction.answers (fun keys => (!keys.isEmpty, keys)) (fun keys => (keys.head?, keys.tail))
        (it.rest map) := by
  induction reaction generalizing it with
  | done => rfl
  | throw => rfl
  | hasNext react ih =>
    obtain ⟨hanswer, hrest⟩ := hasNext_spec map it
    rw [Reaction.answers, Reaction.answers, ih, hanswer, hrest]
  | next react ih =>
    obtain ⟨hanswer, hrest⟩ := take_spec map it
    rw [Reaction.answers, Reaction.answers, ih, hanswer, hrest]

/-- `MappingStoreListener`.  A reader is given by what it makes of a key: nothing if it
throws or reads a null. -/
structure MappingStoreListener (B K : Type*) where
  typeRef : Option (B → Option K)
  keyClass : Option (B → Option K)
  keysModified : UpdateType → Reaction K

def MappingStoreListener.map (msl : MappingStoreListener B K) (ka : B) : Option K :=
  match msl.typeRef with
  | some readValue => readValue ka
  | none =>
    match msl.keyClass with
    | some readValue => readValue ka
    | none => none

/-- `MappingStoreListener.notify`: the keys that the listener leaves.  An exception is
caught and logged by the caller. -/
def MappingStoreListener.notify (msl : MappingStoreListener B K) (keys : List B)
    (type : UpdateType) : List B :=
  ((msl.keysModified type).run msl.map ⟨keys, none⟩).keys

/-- `notifyListeners`, by its calls: each listener with the iterator it is given. -/
def notifyListeners (type : UpdateType) : List (MappingStoreListener B K) → List B →
    List (MappingStoreListener B K × MappingIterator B K)
  | [], _ => []
  | msl :: listeners, keys =>
    (msl, ⟨keys, none⟩) :: notifyListeners type listeners (msl.notify keys type)

/-! #### The keys a listener leaves -/

theorem keys_hasNext_nil (map : B → Option K) {it : MappingIterator B K} (h : it.keys = []) :
    (it.hasNext map).2.keys = [] := by
  rcases it with ⟨keys, _ | key⟩
  · dsimp only at h ⊢
    rw [h]
    rfl
  · exact h

theorem keys_take (map : B → Option K) (it : MappingIterator B K) :
    (it.take map).2.keys = (it.hasNext map).2.keys := by
  unfold MappingIterator.take
  rcases it.hasNext map with ⟨_ | _, it'⟩ <;> rfl

theorem keys_run_nil (map : B → Option K) (reaction : Reaction K) {it : MappingIterator B K}
    (h : it.keys = []) : (reaction.run map it).keys = [] := by
  induction reaction generalizing it with
  | done => exact h
  | throw => exact h
  | hasNext react ih => exact ih _ (keys_hasNext_nil map h)
  | next react ih => exact ih _ ((keys_take map it).trans (keys_hasNext_nil map h))

theorem notify_of_asks {msl : MappingStoreListener B K} {type : UpdateType}
    (h : (msl.keysModified type).Asks) (key : B) : msl.notify [key] type = [] := by
  unfold MappingStoreListener.notify
  cases hreaction : msl.keysModified type with
  | done | throw => rw [hreaction] at h; exact h.elim
  | hasNext react => exact keys_run_nil _ (react _) (keys_hasNext_singleton msl.map key)
  | next react =>
    have htaken := (keys_take msl.map ⟨[key], none⟩).trans (keys_hasNext_singleton msl.map key)
    exact keys_run_nil _ (react _) htaken

theorem notify_of_not_asks {msl : MappingStoreListener B K} {type : UpdateType}
    (h : ¬ (msl.keysModified type).Asks) (keys : List B) : msl.notify keys type = keys := by
  unfold MappingStoreListener.notify
  cases hreaction : msl.keysModified type with
  | done => rfl
  | throw => rfl
  | hasNext | next => rw [hreaction] at h; exact absurd trivial h

/-! ### The engine -/

/-- Each listener is called once, with an iterator over exactly the key. -/
structure EachSees (listeners : List (MappingStoreListener B K)) (key : B)
    (calls : List (MappingStoreListener B K × MappingIterator B K)) : Prop where
  once : calls.map Prod.fst = listeners
  yields : ∀ call ∈ calls, ∃ k, call.1.map key = some k ∧ call.2.rest call.1.map = [k]

theorem notifyListeners_once (type : UpdateType) (listeners : List (MappingStoreListener B K))
    (keys : List B) : (notifyListeners type listeners keys).map Prod.fst = listeners := by
  induction listeners generalizing keys with
  | nil => rfl
  | cons msl listeners ih => exact congrArg (msl :: ·) (ih _)

/-- A change of a key. -/
inductive Change (V : Type*)
  | put (value : Versioned V)
  | writeSyncValue (values : List (Versioned V))

def Change.type : Change V → UpdateType
  | put _ => .localUpdate
  | writeSyncValue _ => .remoteUpdate

section Apply

variable [DecidableEq V]

/-- The change is accepted: the put does not throw, the other call returns true. -/
def Change.Succeeds (items : Option (List (Versioned V))) : Change V → Prop
  | put value => (NctuSdn.put items value).2 = .ok ()
  | writeSyncValue values => (NctuSdn.writeSyncValue items values).2 = true

/-- `ListenerStorageEngine.put` and `writeSyncValue`: the versions of the key and the calls
of the listeners. -/
def Change.apply (listeners : List (MappingStoreListener B K)) (key : B)
    (items : Option (List (Versioned V))) : Change V →
    Option (List (Versioned V)) × List (MappingStoreListener B K × MappingIterator B K)
  | put value =>
    match NctuSdn.put items value with
    | (items', .ok _) => (items', notifyListeners .localUpdate listeners [key])
    | (items', .error _) => (items', [])
  | writeSyncValue values =>
    match NctuSdn.writeSyncValue items values with
    | (items', true) => (items', notifyListeners .remoteUpdate listeners [key])
    | (items', false) => (items', [])

end Apply

theorem not_eachSees_nil (type : UpdateType) {listeners : List (MappingStoreListener B K)}
    (hne : listeners ≠ []) (key : B) :
    ¬ EachSees listeners key (notifyListeners type listeners []) := by
  intro h
  cases listeners with
  | nil => exact hne rfl
  | cons msl listeners =>
    obtain ⟨k, -, hrest⟩ := h.yields _ mem_cons_self
    cases hrest

theorem eachSees_cons (type : UpdateType) (msl : MappingStoreListener B K)
    (listeners : List (MappingStoreListener B K)) (key : B) :
    EachSees (msl :: listeners) key (notifyListeners type (msl :: listeners) [key]) ↔
      msl.map key ≠ none ∧
        EachSees listeners key (notifyListeners type listeners (msl.notify [key] type)) := by
  have hhead : (∃ k, msl.map key = some k ∧
      (⟨[key], none⟩ : MappingIterator B K).rest msl.map = [k]) ↔ msl.map key ≠ none := by
    rw [Option.ne_none_iff_exists']
    refine exists_congr fun k => and_iff_left_of_imp fun hk => ?_
    exact filterMap_cons_some hk
  constructor
  · intro h
    refine ⟨hhead.mp (h.yields _ mem_cons_self), notifyListeners_once type listeners _, ?_⟩
    exact fun call hcall => h.yields call (mem_cons_of_mem _ hcall)
  · rintro ⟨hmap, h⟩
    refine ⟨notifyListeners_once type _ _, fun call hcall => ?_⟩
    rcases mem_cons.mp hcall with rfl | hcall
    · exact hhead.mpr hmap
    · exact h.yields call hcall

theorem eachSees_iff (type : UpdateType) (listeners : List (MappingStoreListener B K)) (key : B) :
    EachSees listeners key (notifyListeners type listeners [key]) ↔
      (∀ msl ∈ listeners, msl.map key ≠ none) ∧
        ∀ msl ∈ listeners.dropLast, ¬ (msl.keysModified type).Asks := by
  induction listeners with
  | nil => exact iff_of_true ⟨rfl, by simp [notifyListeners]⟩ (by simp)
  | cons msl listeners ih =>
    rw [eachSees_cons, forall_mem_cons, and_assoc]
    refine and_congr_right fun _ => ?_
    by_cases hlast : listeners = []
    · subst hlast
      exact iff_of_true ⟨rfl, by simp [notifyListeners]⟩ (by simp)
    · rw [dropLast_cons_of_ne_nil hlast, forall_mem_cons]
      by_cases hasks : (msl.keysModified type).Asks
      · -- the key is gone, so the next listener sees nothing
        rw [notify_of_asks hasks]
        exact iff_of_false (not_eachSees_nil type hlast key) fun h => h.2.1 hasks
      · rw [notify_of_not_asks hasks, ih, and_iff_right hasks]

theorem calls_apply [DecidableEq V] (listeners : List (MappingStoreListener B K)) (key : B)
    (items : Option (List (Versioned V))) (change : Change V) :
    (change.Succeeds items →
      (change.apply listeners key items).2 = notifyListeners change.type listeners [key]) ∧
    (¬ change.Succeeds items → (change.apply listeners key items).2 = []) := by
  cases change with
  | put value =>
    unfold Change.Succeeds Change.apply
    dsimp only
    rcases NctuSdn.put items value with ⟨items', e | -⟩
    · exact ⟨fun h => (nomatch h), fun _ => rfl⟩
    · exact ⟨fun _ => rfl, fun h => absurd rfl h⟩
  | writeSyncValue values =>
    unfold Change.Succeeds Change.apply
    dsimp only
    rcases NctuSdn.writeSyncValue items values with ⟨items', _ | _⟩
    · exact ⟨fun h => (nomatch h), fun _ => rfl⟩
    · exact ⟨fun _ => rfl, fun h => absurd rfl h⟩

/-- **Every listener sees the change** exactly if all can decode the key and none but the
last one asks its iterator. -/
theorem listeners_see_change_iff [DecidableEq V] (listeners : List (MappingStoreListener B K))
    (key : B) (items : Option (List (Versioned V))) (change : Change V)
    (h : change.Succeeds items) :
    EachSees listeners key (change.apply listeners key items).2 ↔
      (∀ msl ∈ listeners, msl.map key ≠ none) ∧
        ∀ msl ∈ listeners.dropLast, ¬ (msl.keysModified change.type).Asks := by
  rw [(calls_apply listeners key items change).1 h]
  exact eachSees_iff change.type listeners key

def readAll : MappingStoreListener ℕ ℕ where
  typeRef := some some
  keyClass := none
  keysModified _ := .hasNext fun more =>
    if more then .next fun _ => .hasNext fun _ => .done else .done

/-- A listener that asks nothing. -/
def readNone : MappingStoreListener ℕ ℕ where
  typeRef := some some
  keyClass := none
  keysModified _ := .done

/-- A listener that throws. -/
def throwAtOnce : MappingStoreListener ℕ ℕ where
  typeRef := some some
  keyClass := none
  keysModified _ := .throw

/-- The first two listeners leave their iterators alone, the last one reads its own. -/
theorem listeners_see_change_three :
    (Change.put (⟨0, .single 1 0 0⟩ : Versioned ℕ)).Succeeds none ∧
    EachSees [readNone, throwAtOnce, readAll] 7
      ((Change.put ⟨0, .single 1 0 0⟩).apply [readNone, throwAtOnce, readAll] 7 none).2 := by
  refine ⟨rfl, (listeners_see_change_iff [readNone, throwAtOnce, readAll] 7 none
    (.put ⟨0, .single 1 0 0⟩) rfl).mpr ⟨?_, ?_⟩⟩
  · simp [MappingStoreListener.map, readAll, readNone, throwAtOnce]
  · simp [readNone, throwAtOnce, Reaction.Asks]

/-- Of two listeners that read their keys, the second is called with nothing to read. -/
theorem second_listener_misses_change :
    (Change.put (⟨0, .single 1 0 0⟩ : Versioned ℕ)).Succeeds none ∧
      ¬ EachSees [readAll, readAll] 7
        ((Change.put ⟨0, .single 1 0 0⟩).apply [readAll, readAll] 7 none).2 ∧
      ((Change.put (⟨0, .single 1 0 0⟩ : Versioned ℕ)).apply [readAll, readAll] 7 none).2.map
        (fun call => call.2.rest call.1.map) = [[7], []] := by
  refine ⟨rfl, fun h => ?_, rfl⟩
  obtain ⟨k, -, hrest⟩ := h.yields (readAll, ⟨[], none⟩) (mem_cons_of_mem _ mem_cons_self)
  cases hrest

end NctuSdn
