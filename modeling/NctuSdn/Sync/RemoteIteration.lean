/-
Iterating over the store of another process (`RemoteStore.RemoteIterator` against
`RPCChannelHandler.handleCursorRequest`).

A request without a cursor opens one over the entries of a store; every answer, the first
one included, carries the next entries of the cursor, at most fifty.  The client reads the
chunk it has and asks for another one when it is used up; an answer without entries is the
end.  A message with an unset required field cannot be sent: a keyed list of versions must
not be empty, which the lists in a store never are.

Between two questions of the client the server may answer others, as long as they do not
name its cursor and no new cursor gets the same number.  Otherwise messages arrive as they
were sent.
-/
import NctuSdn.Sync.Store

namespace NctuSdn

open List Function

variable {B V : Type*}

/-! ### Entries on the wire -/

/-- `addToVersions`, `addToValues`: the list is made with its first element. -/
def addToList {α : Type*} (list : Option (List α)) (x : α) : Option (List α) :=
  some (list.getD [] ++ [x])

/-- The thrift `VectorClock`. -/
structure TVectorClock where
  versions : Option (List ClockEntry)
  timestamp : ℤ

/-- The thrift `VersionedValue`. -/
structure VersionedValue (V : Type*) where
  value : Option V
  version : TVectorClock

/-- The thrift `KeyedValues`; `values` is required. -/
structure KeyedValues (B V : Type*) where
  key : B
  values : Option (List (VersionedValue V))

/-- An entry of a store: a key with its versions, of which there is at least one. -/
structure StoreEntry (B V : Type*) where
  key : B
  versions : List (Versioned (Option V))
  versions_ne : versions ≠ []

theorem stored_doput_ne_nil [DecidableEq V] (items : Option (List (Versioned V)))
    (value : Versioned V) : stored (doput items value).1 ≠ [] := by
  intro hnil
  have hbelow := (below_insertMax (stored items) value value.rank).mpr (.inr le_rfl)
  rw [← stored_doput, hnil] at hbelow
  obtain ⟨v, hv, -⟩ := hbelow
  exact absurd hv not_mem_nil

def StoreEntry.put [DecidableEq V] (e : StoreEntry B V) (value : Versioned (Option V)) :
    StoreEntry B V :=
  ⟨e.key, stored (doput (some e.versions) value).1, stored_doput_ne_nil _ value⟩

def getTVectorClock (vc : VectorClock) : TVectorClock :=
  ⟨vc.versions.foldl addToList none, vc.timestamp⟩

def getTVersionedValue (v : Versioned (Option V)) : VersionedValue V :=
  ⟨v.value, getTVectorClock v.version⟩

def getTKeyedValues (e : StoreEntry B V) : KeyedValues B V :=
  ⟨e.key, (e.versions.map getTVersionedValue).foldl addToList none⟩

/-- `getVersion`: the entries and the time of a clock, which its constructor does not
check. -/
def getVersion (tvc : TVectorClock) : List ClockEntry × ℤ :=
  (tvc.versions.getD [], tvc.timestamp)

def getVersionedList (tvv : Option (List (VersionedValue V))) :
    List (Option V × List ClockEntry × ℤ) :=
  (tvv.getD []).map fun v => (v.value, getVersion v.version)

def StoreEntry.data (e : StoreEntry B V) : B × List (Option V × List ClockEntry × ℤ) :=
  (e.key, e.versions.map fun v => (v.value, v.version.versions, v.version.timestamp))

theorem foldl_addToList {α : Type*} (list xs : List α) :
    xs.foldl addToList (some list) = some (list ++ xs) := by
  induction xs generalizing list with
  | nil => rw [append_nil]; rfl
  | cons x xs ih => rw [append_cons]; exact ih _

theorem foldl_addToList_none {α : Type*} (xs : List α) :
    xs.foldl addToList none = if xs = [] then none else some xs := by
  cases xs with
  | nil => rfl
  | cons x xs =>
    rw [if_neg (cons_ne_nil x xs)]
    exact foldl_addToList [x] xs

theorem getD_foldl_addToList {α : Type*} (xs : List α) :
    (xs.foldl addToList none).getD [] = xs := by
  rw [foldl_addToList_none]
  split_ifs with h
  · exact h.symm
  · rfl

theorem getVersionedList_getTKeyedValues (e : StoreEntry B V) :
    ((getTKeyedValues e).key, getVersionedList (getTKeyedValues e).values) = e.data := by
  have hversion : ∀ vc, getVersion (getTVectorClock vc) = (vc.versions, vc.timestamp) := by
    intro vc
    unfold getVersion getTVectorClock
    rw [getD_foldl_addToList]
  unfold getVersionedList getTKeyedValues StoreEntry.data
  rw [getD_foldl_addToList, map_map]
  refine congrArg (Prod.mk e.key) (map_congr_left fun v _ => ?_)
  exact congrArg (Prod.mk v.value) (hversion v.version)

/-! ### The server -/

/-- How a request can fail: the server refuses it, its answer cannot be sent, or there is
no next entry. -/
inductive RemoteError
  | unknownStore
  | unrecognizedCursor
  | noReply
  | noSuchElement
deriving DecidableEq, Repr

/-- `CursorRequestMessage`. -/
structure CursorRequest where
  storeName : String
  cursorId : Option ℤ
  close : Bool

/-- `CursorResponseMessage`. -/
structure CursorResponse (B V : Type*) where
  cursorId : ℤ
  values : Option (List (KeyedValues B V))

/-- The stores by the entries in their order, and the cursors by the entries that are
left. -/
structure SyncServer (B V : Type*) where
  stores : String → Option (List (StoreEntry B V))
  cursorMap : ℤ → Option (List (StoreEntry B V))

/-- The cursor of a request; `transactionId` is the number of a new one. -/
def SyncServer.cursor (server : SyncServer B V) (transactionId : ℤ) (request : CursorRequest) :
    Except RemoteError (ℤ × List (StoreEntry B V)) :=
  match request.cursorId with
  | some cursorId =>
    match server.cursorMap cursorId with
    | some c => .ok (cursorId, c)
    | none => .error .unrecognizedCursor
  | none =>
    match server.stores request.storeName with
    | some entries => .ok (transactionId, entries)
    | none => .error .unknownStore

/-- The loop of `handleCursorRequest`, with the rounds that are left. -/
def cursorLoop : ℕ → List (StoreEntry B V) → Option (List (KeyedValues B V)) →
    Option (List (KeyedValues B V)) × List (StoreEntry B V)
  | 0, c, values => (values, c)
  | _ + 1, [], values => (values, [])
  | i + 1, e :: c, values => cursorLoop i c (addToList values (getTKeyedValues e))

def handleCursorRequest (transactionId : ℤ) (request : CursorRequest) (server : SyncServer B V) :
    SyncServer B V × Except RemoteError (CursorResponse B V) :=
  match server.cursor transactionId request with
  | .error e => (server, .error e)
  | .ok (cursorId, c) =>
    if request.close then
      ({ server with cursorMap := Function.update server.cursorMap cursorId none },
        .ok ⟨cursorId, none⟩)
    else
      let (values, c') := cursorLoop 50 c none
      ({ server with cursorMap := Function.update server.cursorMap cursorId (some c') },
        .ok ⟨cursorId, values⟩)

theorem cursorLoop_eq (i : ℕ) (c : List (StoreEntry B V))
    (values : Option (List (KeyedValues B V))) :
    cursorLoop i c values =
      (((c.take i).map getTKeyedValues).foldl addToList values, c.drop i) := by
  induction i generalizing c values with
  | zero => rw [take_zero]; rfl
  | succ i ih =>
    cases c with
    | nil => rfl
    | cons e c => exact ih c _

/-! ### The client -/

def CursorResponse.valid (m : CursorResponse B V) : Bool :=
  (m.values.getD []).all fun kv => kv.values.isSome

/-- `getReply`: the answer of the server, if it can be sent. -/
def getReply (transactionId : ℤ) (request : CursorRequest) (server : SyncServer B V) :
    Except RemoteError (CursorResponse B V × SyncServer B V) :=
  match handleCursorRequest transactionId request server with
  | (_, .error e) => .error e
  | (server', .ok m) => if m.valid then .ok (m, server') else .error .noReply

/-- `RemoteIterator`: its cursor and what is left of the chunk it reads. -/
structure RemoteIterator (B V : Type*) where
  cursorId : ℤ
  currentChunk : Option (List (KeyedValues B V))

namespace RemoteIterator

def new (storeName : String) (transactionId : ℤ) (server : SyncServer B V) :
    Except RemoteError (RemoteIterator B V × SyncServer B V) := do
  let (reply, server) ← getReply transactionId ⟨storeName, none, false⟩ server
  pure (⟨reply.cursorId, reply.values⟩, server)

def getChunk (it : RemoteIterator B V) (server : SyncServer B V) :
    Except RemoteError (Option (List (KeyedValues B V)) × SyncServer B V) := do
  let (reply, server) ← getReply 0 ⟨"", some it.cursorId, false⟩ server
  match reply.values with
  | none => pure (none, server)
  | some values => pure (if values.isEmpty then none else some values, server)

/-- The second half of `hasNext`, when the chunk is used up. -/
def hasNextChunk (it : RemoteIterator B V) (server : SyncServer B V) :
    Except RemoteError (Bool × RemoteIterator B V × SyncServer B V) := do
  let (nextChunk, server) ← it.getChunk server
  match nextChunk with
  | some chunk => pure (!chunk.isEmpty, { it with currentChunk := some chunk }, server)
  | none => pure (false, it, server)

def hasNext (it : RemoteIterator B V) (server : SyncServer B V) :
    Except RemoteError (Bool × RemoteIterator B V × SyncServer B V) :=
  match it.currentChunk with
  | some (_ :: _) => pure (true, it, server)
  | _ => it.hasNextChunk server

def next (it : RemoteIterator B V) (server : SyncServer B V) :
    Except RemoteError
      ((B × List (Option V × List ClockEntry × ℤ)) × RemoteIterator B V × SyncServer B V) := do
  let (more, it, server) ← it.hasNext server
  if !more then throw .noSuchElement
  match it.currentChunk with
  | some (kv :: chunk) =>
    pure ((kv.key, getVersionedList kv.values), { it with currentChunk := some chunk }, server)
  | _ => throw .noSuchElement

/-- Requests of others, each with the number that a new cursor would get. -/
def answerOthers (requests : List (ℤ × CursorRequest)) (server : SyncServer B V) :
    SyncServer B V :=
  requests.foldl (fun server r => (handleCursorRequest r.1 r.2 server).1) server

/-- A client that reads as long as there is a next entry, once after each group of
requests of others. -/
def iterate : List (List (ℤ × CursorRequest)) → RemoteIterator B V → SyncServer B V →
    Except RemoteError
      (List (B × List (Option V × List ClockEntry × ℤ)) × RemoteIterator B V × SyncServer B V)
  | [], it, server => pure ([], it, server)
  | requests :: others, it, server => do
      let (more, it, server) ← it.hasNext (answerOthers requests server)
      if more then
        let (entry, it, server) ← it.next server
        let (entries, it, server) ← iterate others it server
        pure (entry :: entries, it, server)
      else pure ([], it, server)

end RemoteIterator

/-! ### What is left to read -/

/-- The entries that the iterator has still to yield: those of its chunk and those of its
cursor. -/
def Remains (it : RemoteIterator B V) (server : SyncServer B V) (entries : List (StoreEntry B V)) :
    Prop :=
  ∃ chunk c, entries = chunk ++ c ∧ it.currentChunk.getD [] = chunk.map getTKeyedValues ∧
    server.cursorMap it.cursorId = some c

section Client

variable {server : SyncServer B V} {it : RemoteIterator B V} {entries c : List (StoreEntry B V)}

variable {cursorId : ℤ}

/-- **An answer is the next chunk** of the cursor, and it can be sent. -/
theorem getReply_next {transactionId : ℤ} {request : CursorRequest}
    (hcursor : server.cursor transactionId request = .ok (cursorId, c))
    (hclose : request.close = false) :
    getReply transactionId request server =
      .ok (⟨cursorId, ((c.take 50).map getTKeyedValues).foldl addToList none⟩,
        { server with
          cursorMap := update server.cursorMap cursorId (some (c.drop 50)) }) := by
  unfold getReply handleCursorRequest
  rw [hcursor]
  dsimp only
  rw [hclose, if_neg Bool.false_ne_true, cursorLoop_eq]
  refine if_pos ?_
  unfold CursorResponse.valid
  rw [getD_foldl_addToList, all_eq_true]
  intro kv hkv
  obtain ⟨e, -, rfl⟩ := mem_map.mp hkv
  unfold getTKeyedValues
  rw [foldl_addToList_none, if_neg]
  · rfl
  · exact fun h => e.versions_ne (map_eq_nil_iff.mp h)

theorem new_remains {storeName : String} (h : server.stores storeName = some entries)
    (transactionId : ℤ) :
    ∃ it server', RemoteIterator.new storeName transactionId server = .ok (it, server') ∧
      it.cursorId = transactionId ∧ Remains it server' entries := by
  have hcursor : server.cursor transactionId ⟨storeName, none, false⟩ =
      .ok (transactionId, entries) := by
    unfold SyncServer.cursor
    rw [h]
  unfold RemoteIterator.new
  rw [getReply_next hcursor rfl]
  refine ⟨_, _, rfl, rfl, entries.take 50, entries.drop 50,
    (take_append_drop 50 _).symm, ?_, ?_⟩
  · exact getD_foldl_addToList _
  · exact update_self _ _ _

theorem getChunk_eq (h : server.cursorMap it.cursorId = some c) :
    it.getChunk server =
      .ok (if c = [] then none else some ((c.take 50).map getTKeyedValues),
        { server with
          cursorMap := update server.cursorMap it.cursorId (some (c.drop 50)) }) := by
  have hcursor : server.cursor 0 ⟨"", some it.cursorId, false⟩ = .ok (it.cursorId, c) := by
    unfold SyncServer.cursor
    dsimp only
    rw [h]
  unfold RemoteIterator.getChunk
  rw [getReply_next hcursor rfl, foldl_addToList_none]
  cases c with
  | nil => rfl
  | cons e c => rfl

/-- The iterator holds the entry `e` in its chunk, and `entries` are left behind it. -/
def Loaded (it : RemoteIterator B V) (server : SyncServer B V) (e : StoreEntry B V)
    (entries : List (StoreEntry B V)) : Prop :=
  ∃ chunk c, entries = chunk ++ c ∧
    it.currentChunk = some (getTKeyedValues e :: chunk.map getTKeyedValues) ∧
    server.cursorMap it.cursorId = some c

variable {e : StoreEntry B V}

theorem hasNext_of_loaded (h : Loaded it server e entries) :
    it.hasNext server = .ok (true, it, server) := by
  obtain ⟨chunk, c, -, hchunk, -⟩ := h
  unfold RemoteIterator.hasNext
  rw [hchunk]
  rfl

theorem Loaded.remains (h : Loaded it server e entries) :
    Remains it server (e :: entries) := by
  obtain ⟨chunk, c, rfl, hchunk, hc⟩ := h
  refine ⟨e :: chunk, c, rfl, ?_, hc⟩
  rw [hchunk]
  rfl

theorem hasNext_of_empty (h : it.currentChunk.getD [] = [])
    (hc : server.cursorMap it.cursorId = some c) :
    it.hasNext server =
      .ok (!c.isEmpty,
        (if c = [] then it
          else { it with currentChunk := some ((c.take 50).map getTKeyedValues) }),
        { server with
          cursorMap := update server.cursorMap it.cursorId (some (c.drop 50)) }) := by
  have hask : it.hasNext server = it.hasNextChunk server := by
    rcases it with ⟨cursorId, _ | _ | ⟨kv, chunk⟩⟩
    · rfl
    · rfl
    · cases h
  unfold RemoteIterator.hasNextChunk at hask
  rw [hask, getChunk_eq hc]
  cases c with
  | nil => rfl
  | cons e c => rfl

/-- **At the end** `hasNext` is false, and stays so. -/
theorem hasNext_remains_nil (h : Remains it server []) :
    ∃ it' server', it.hasNext server = .ok (false, it', server') ∧
      it'.cursorId = it.cursorId ∧ Remains it' server' [] := by
  obtain ⟨chunk, c, hnil, hchunk, hc⟩ := h
  obtain ⟨rfl, rfl⟩ := append_eq_nil_iff.mp hnil.symm
  refine ⟨_, _, hasNext_of_empty hchunk hc, rfl, [], [], rfl, hchunk, ?_⟩
  exact update_self _ _ _

/-- **Before the end** `hasNext` is true, and the next entry is in the chunk. -/
theorem hasNext_remains_cons (h : Remains it server (e :: entries)) :
    ∃ it' server', it.hasNext server = .ok (true, it', server') ∧
      it'.cursorId = it.cursorId ∧ Loaded it' server' e entries := by
  obtain ⟨chunk, c, hentries, hchunk, hc⟩ := h
  cases chunk with
  | cons e' chunk =>
    obtain ⟨rfl, rfl⟩ := List.cons.inj hentries
    have hloaded : Loaded it server e (chunk ++ c) := by
      refine ⟨chunk, c, rfl, ?_, hc⟩
      cases hcurrent : it.currentChunk with
      | none => rw [hcurrent] at hchunk; cases hchunk
      | some kvs => rw [hcurrent] at hchunk; exact congrArg some hchunk
    exact ⟨it, server, hasNext_of_loaded hloaded, rfl, hloaded⟩
  | nil =>
    obtain rfl : c = e :: entries := hentries.symm
    refine ⟨_, _, hasNext_of_empty hchunk hc, rfl, entries.take 49, entries.drop 49,
      (take_append_drop 49 entries).symm, rfl, ?_⟩
    exact update_self _ _ _

/-- **The next entry** is the first of those that are left. -/
theorem next_remains (h : Remains it server (e :: entries)) :
    ∃ it' server', it.next server = .ok (e.data, it', server') ∧
      it'.cursorId = it.cursorId ∧ Remains it' server' entries := by
  obtain ⟨it', server', hnext, hid, chunk, c, hentries, hchunk, hc⟩ := hasNext_remains_cons h
  refine ⟨{ it' with currentChunk := some (chunk.map getTKeyedValues) }, server', ?_, hid,
    chunk, c, hentries, rfl, hc⟩
  unfold RemoteIterator.next
  rw [hnext, ← getVersionedList_getTKeyedValues e]
  dsimp only [bind, Except.bind]
  rw [hchunk]
  rfl

/-! #### The requests of others -/

/-- The request is not about the cursor: it names another one, or opens one under another
number. -/
def Foreign (cursorId : ℤ) (r : ℤ × CursorRequest) : Prop :=
  r.2.cursorId.getD r.1 ≠ cursorId

theorem cursor_fst {transactionId : ℤ} {request : CursorRequest}
    (h : server.cursor transactionId request = .ok (cursorId, c)) :
    cursorId = request.cursorId.getD transactionId := by
  unfold SyncServer.cursor at h
  cases hid : request.cursorId with
  | some id =>
    rw [hid] at h
    dsimp only at h
    cases hc : server.cursorMap id <;> rw [hc] at h <;> cases h
    rfl
  | none =>
    rw [hid] at h
    cases hc : server.stores request.storeName <;> rw [hc] at h <;> cases h
    rfl

theorem cursorMap_handleCursorRequest {r : ℤ × CursorRequest} (h : Foreign cursorId r)
    (server : SyncServer B V) :
    (handleCursorRequest r.1 r.2 server).1.cursorMap cursorId = server.cursorMap cursorId := by
  unfold handleCursorRequest
  cases hcursor : server.cursor r.1 r.2 with
  | error e => rfl
  | ok found =>
    obtain ⟨id, c⟩ := found
    have hne : cursorId ≠ id := by
      rw [cursor_fst hcursor]
      exact h.symm
    split_ifs
    · exact update_of_ne hne _ _
    · exact update_of_ne hne _ _

theorem cursorMap_answerOthers {requests : List (ℤ × CursorRequest)}
    (h : ∀ r ∈ requests, Foreign cursorId r) (server : SyncServer B V) :
    (RemoteIterator.answerOthers requests server).cursorMap cursorId =
      server.cursorMap cursorId := by
  induction requests generalizing server with
  | nil => rfl
  | cons r requests ih =>
    rw [← cursorMap_handleCursorRequest (h r mem_cons_self) server]
    exact ih (fun r' hr' => h r' (mem_cons_of_mem _ hr')) _

theorem Remains.answerOthers (h : Remains it server entries)
    {requests : List (ℤ × CursorRequest)} (hforeign : ∀ r ∈ requests, Foreign it.cursorId r) :
    Remains it (RemoteIterator.answerOthers requests server) entries := by
  obtain ⟨chunk, c, hentries, hchunk, hc⟩ := h
  exact ⟨chunk, c, hentries, hchunk, (cursorMap_answerOthers hforeign server).trans hc⟩

/-! ### The whole iteration -/

theorem iterate_remains {others : List (List (ℤ × CursorRequest))} (h : Remains it server entries)
    (hforeign : ∀ requests ∈ others, ∀ r ∈ requests, Foreign it.cursorId r) :
    ∃ it' server', RemoteIterator.iterate others it server =
        .ok ((entries.take others.length).map StoreEntry.data, it', server') ∧
      it'.cursorId = it.cursorId ∧ Remains it' server' (entries.drop others.length) := by
  induction others generalizing it server entries with
  | nil => exact ⟨it, server, rfl, rfl, h⟩
  | cons requests others ih =>
    have hleft := h.answerOthers (hforeign requests mem_cons_self)
    cases entries with
    | nil =>
      obtain ⟨it', server', hnext, hid, hremains⟩ := hasNext_remains_nil hleft
      refine ⟨it', server', ?_, hid, hremains⟩
      unfold RemoteIterator.iterate
      rw [hnext]
      rfl
    | cons e entries =>
      obtain ⟨it₁, server₁, hnext₁, hid₁, hloaded⟩ := hasNext_remains_cons hleft
      obtain ⟨it₂, server₂, hnext₂, hid₂, hremains⟩ := next_remains hloaded.remains
      obtain ⟨it', server', hrest, hid', hremains'⟩ := ih hremains fun rs hrs => by
        rw [hid₂, hid₁]
        exact hforeign rs (mem_cons_of_mem _ hrs)
      refine ⟨it', server', ?_, hid'.trans (hid₂.trans hid₁), hremains'⟩
      unfold RemoteIterator.iterate
      rw [hnext₁]
      dsimp only [bind, Except.bind]
      rw [if_pos rfl, hnext₂]
      dsimp only
      rw [hrest]
      rfl

end Client

/-- **Remote iteration is exact**: whatever else the server answers meanwhile, a client
that iterates over a store of any size gets its entries, each once and in their order, and
then there is no next one. -/
theorem remote_iteration_exact (server : SyncServer B V) {storeName : String}
    {entries : List (StoreEntry B V)} (hstore : server.stores storeName = some entries)
    (transactionId : ℤ) (others : List (List (ℤ × CursorRequest)))
    (hforeign : ∀ requests ∈ others, ∀ r ∈ requests, Foreign transactionId r)
    (hlength : entries.length ≤ others.length) :
    ∃ it₀ server₀ it server' it' server'',
      RemoteIterator.new storeName transactionId server = .ok (it₀, server₀) ∧
      it₀.iterate others server₀ = .ok (entries.map StoreEntry.data, it, server') ∧
      it.hasNext server' = .ok (false, it', server'') := by
  obtain ⟨it₀, server₀, hnew, hid, hremains⟩ := new_remains hstore transactionId
  obtain ⟨it, server', hiterate, -, hleft⟩ :=
    iterate_remains hremains fun requests hrequests => by
      rw [hid]
      exact hforeign requests hrequests
  rw [take_of_length_le hlength] at hiterate
  rw [drop_of_length_le hlength] at hleft
  obtain ⟨it', server'', hend, -, -⟩ := hasNext_remains_nil hleft
  exact ⟨it₀, server₀, it, server', it', server'', hnew, hiterate, hend⟩

def oneVersion (key : ℕ) : StoreEntry ℕ ℕ :=
  ⟨key, [⟨some 0, .single 1 0 0⟩], List.cons_ne_nil _ _⟩

/-- Sixty keys, more than a chunk holds, while another client closes a cursor of its own. -/
theorem remote_iteration_exact_sixty :
    ∃ it₀ server₀ it server' it' server'',
      RemoteIterator.new "store" 1
        (⟨fun _ => some ((List.range 60).map oneVersion), fun _ => none⟩ : SyncServer ℕ ℕ) =
          .ok (it₀, server₀) ∧
      it₀.iterate (List.replicate 60 [(0, ⟨"", some 2, true⟩)]) server₀ =
        .ok (((List.range 60).map oneVersion).map StoreEntry.data, it, server') ∧
      it.hasNext server' = .ok (false, it', server'') := by
  refine remote_iteration_exact _ rfl 1 _ ?_ (by simp)
  intro requests hrequests r hr
  obtain ⟨-, rfl⟩ := mem_replicate.mp hrequests
  cases mem_singleton.mp hr
  show (2 : ℤ) ≠ 1
  decide

end NctuSdn
