/-
Anti-entropy in a cluster (`SyncManager.antientropy`, the handlers of
`RPCChannelHandler` and the writes of clients).

Any node starts a pass towards any other at any time, while the messages of
other passes are in flight and clients write.  Messages are delivered in any
order, and connections do not break.  A pass reads the store at once, and what
a write leaves to the hint worker is in flight until it is delivered.

What node `i` owes node `j` since a pass was started is again carried by one
message in flight, whatever else happens (`Due`): stores only grow, so a
request still finds something as new.
-/
import NctuSdn.Sync.AntiEntropy

namespace NctuSdn

open List Function

variable {N K V : Type*}

/-- Two frontiers that gather the same versions have the same keys. -/
theorem Gathers.perm_key {l l' : List (Versioned V)} {s : Set (Versioned V)}
    (h : Gathers Versioned.rank l s) (h' : Gathers Versioned.rank l' s)
    (hl : Frontier Versioned.rank l) (hl' : Frontier Versioned.rank l')
    (hval : ∀ v ∈ s, ∀ w ∈ s, v.version.versions = w.version.versions → v.value = w.value) :
    (l.map Versioned.key).Perm (l'.map Versioned.key) := by
  have hmem : ∀ v ∈ l ++ l', v ∈ s := by
    intro v hv
    exact (mem_append.mp hv).elim (h.1 v) (h'.1 v)
  have hvals : ∀ v ∈ l ++ l', ∀ w ∈ l ++ l',
      v.version.versions = w.version.versions → v.value = w.value :=
    fun v hv w hw => hval v (hmem v hv) w (hmem w hw)
  refine (perm_ext_iff_of_nodup hl.nodup_key hl'.nodup_key).mpr fun key => ?_
  rw [hl.mem_key_iff (fun v => mem_append_left l') (fun v hv => h.2 v (hmem v hv)) hvals,
    hl'.mem_key_iff (fun v => mem_append_right l) (fun v hv => h'.2 v (hmem v hv)) hvals]

/-! ### The cluster -/

structure Envelope (N K V : Type*) where
  sender : N
  receiver : N
  message : SyncMessage K V

/-- The stores of the nodes and the messages in flight; a node may lack the store. -/
abbrev SyncCluster (N K V : Type*) := Net (N → Option (SyncStore K V)) (Envelope N K V)

def Envelope.reply (e : Envelope N K V) (messages : List (SyncMessage K V)) :
    List (Envelope N K V) :=
  messages.map fun m => ⟨e.receiver, e.sender, m⟩

variable [DecidableEq N] [DecidableEq K] [DecidableEq V]

def handleEnvelope (stores : N → Option (SyncStore K V)) (e : Envelope N K V) :
    (N → Option (SyncStore K V)) × List (Envelope N K V) :=
  match e.message with
  | .syncOffer versions => (stores, e.reply (offerReply (stores e.receiver) versions))
  | .syncRequest keys =>
    match stores e.receiver with
    -- an unknown store is an error
    | none => (stores, [])
    | some store => (stores, e.reply (handleSyncRequest store keys))
  | .syncValue values =>
    (update stores e.receiver (handleSyncValue (stores e.receiver) values), [])

inductive ClusterEvent (N K V : Type*)
  | delivery
  | pass (i j : N)
  | write (n : N) (k : K) (value : Versioned V)

inductive ClusterStep : ClusterEvent N K V → SyncCluster N K V → SyncCluster N K V → Prop
  | delivery {c c' : SyncCluster N K V} (h : Net.Step handleEnvelope c c') :
      ClusterStep .delivery c c'
  | pass {c : SyncCluster N K V} {i j : N} {entries : List (K × List (Versioned V))}
      (h : ∀ k items, (k, items) ∈ entries ↔ itemsAt (c.state i) k = some items) :
      ClusterStep (.pass i j) c
        ⟨c.state, c.inFlight + ((antientropy entries).map (Envelope.mk i j) : List _)⟩
  -- a write that is refused goes to no other node
  | write {c : SyncCluster N K V} {n : N} {k : K} {value : Versioned V} {store : SyncStore K V}
      {peers : List N} (h : c.state n = some store)
      (hpeers : (put (store.map k) value).2 = .error .obsoleteVersion → peers = []) :
      ClusterStep (.write n k value) c
        ⟨update c.state n (registerAndWrite (c.state n) k [value]),
          c.inFlight + (peers.map fun j => Envelope.mk n j (.syncValue [(k, [value])]) : List _)⟩

inductive ClusterRun : List (ClusterEvent N K V) → SyncCluster N K V → SyncCluster N K V → Prop
  | nil (c : SyncCluster N K V) : ClusterRun [] c c
  | cons {event : ClusterEvent N K V} {events : List (ClusterEvent N K V)}
      {c c' c'' : SyncCluster N K V} (h : ClusterStep event c c') (hs : ClusterRun events c' c'') :
      ClusterRun (event :: events) c c''

variable {c c' : SyncCluster N K V} {stores : N → Option (SyncStore K V)} {e : Envelope N K V}
  {event : ClusterEvent N K V} {events : List (ClusterEvent N K V)} {i j n m : N} {k : K}
  {b : ℕ → ℕ} {v : Versioned V} {values : List (K × List (Versioned V))}

/-! ### What a node knows -/

/-- The node holds this version of the key or a newer one. -/
def Knows (stores : N → Option (SyncStore K V)) (n : N) (k : K) (b : ℕ → ℕ) : Prop :=
  Below Versioned.rank (stored (itemsAt (stores n) k)) b

variable (values) in
theorem knows_update_iff :
    Knows (update stores m (handleSyncValue (stores m) values)) n k b ↔
      Knows stores n k b ∨ n = m ∧ ∃ items, (k, items) ∈ values ∧ Below Versioned.rank items b := by
  unfold Knows
  rcases eq_or_ne n m with rfl | hne
  · rw [update_self, below_handleSyncValue]
    simp
  · rw [update_of_ne hne]
    simp [hne]

theorem Knows.handleEnvelope (h : Knows stores n k b) (e : Envelope N K V) :
    Knows (handleEnvelope stores e).1 n k b := by
  unfold NctuSdn.handleEnvelope
  split
  · exact h
  · split
    · exact h
    · exact h
  · exact (knows_update_iff _).mpr (.inl h)

/-- **Stores only grow.** -/
theorem Knows.step (h : Knows c.state n k b) (hstep : ClusterStep event c c') :
    Knows c'.state n k b := by
  cases hstep with
  | delivery hstep =>
    obtain ⟨e, rest, -, rfl⟩ := hstep
    exact h.handleEnvelope e
  | pass => exact h
  | write => exact (knows_update_iff [(_, [_])]).mpr (.inl h)

/-! ### What is owed -/

/-- The message is on the way to bringing this version of `k`, or a newer one, from `i` to `j`. -/
inductive Brings (i j : N) (k : K) (b : ℕ → ℕ) : Envelope N K V → Prop
  | offer {versions : List (K × List VectorClock)} {clocks : List VectorClock} {vc : VectorClock}
      (h : (k, clocks) ∈ versions) (hvc : vc ∈ clocks) (hb : b ≤ vc.versionAt) :
      Brings i j k b ⟨i, j, .syncOffer versions⟩
  | request {keys : List K} (h : k ∈ keys) : Brings i j k b ⟨j, i, .syncRequest keys⟩
  | value {values : List (K × List (Versioned V))} {items : List (Versioned V)}
      (h : (k, items) ∈ values) (hb : Below Versioned.rank items b) :
      Brings i j k b ⟨i, j, .syncValue values⟩

/-- Node `j` holds it, or `i` does and it is on its way. -/
def Due (i j : N) (k : K) (b : ℕ → ℕ) (c : SyncCluster N K V) : Prop :=
  Knows c.state j k b ∨ Knows c.state i k b ∧ ∃ e ∈ c.inFlight, Brings i j k b e

/-- A delivery brings it, or has an answer that does. -/
theorem Brings.handleEnvelope (h : Brings i j k b e) (hi : Knows stores i k b) :
    Knows (handleEnvelope stores e).1 j k b ∨
      ∃ e' ∈ (handleEnvelope stores e).2, Brings i j k b e' := by
  cases h with
  | offer h hvc hb =>
    rename_i versions clocks vc
    cases hwants : handleSyncOffer (stores j) k clocks with
    | false =>
      obtain ⟨w, hw, hle⟩ := handleSyncOffer_eq_false hwants vc hvc
      exact .inl ⟨w, hw, hb.trans hle⟩
    | true =>
      refine .inr ⟨_, mem_singleton_self _, .request ?_⟩
      exact mem_map_of_mem (f := Prod.fst) (mem_filter.mpr ⟨h, hwants⟩)
  | request h =>
    rename_i keys
    obtain ⟨w, hw, hle⟩ := hi
    unfold NctuSdn.handleEnvelope
    cases hstore : stores i with
    | none =>
      rw [hstore] at hw
      cases hw
    | some store =>
      rw [hstore] at hw
      -- the store has the key, so there is a reply
      have hmap : store.map k = some (store.get k) :=
        SyncStore.map_eq_some_get (ne_nil_of_mem hw)
      right
      rcases handleSyncRequest_cases store keys with ⟨-, hnone⟩ | ⟨values, heq, hvalues⟩
      · exact absurd (hnone k h) (ne_nil_of_mem hw)
      · refine ⟨⟨i, j, .syncValue values⟩, ?_, .value ((hvalues k _).mpr ⟨h, hmap⟩) ⟨w, hw, hle⟩⟩
        simp [Envelope.reply, heq]
  | value h hb => exact .inl ((knows_update_iff _).mpr (.inr ⟨rfl, _, h, hb⟩))

theorem Due.step (h : Due i j k b c) (hstep : ClusterStep event c c') : Due i j k b c' := by
  rcases h with hj | ⟨hi, e, he, hbrings⟩
  · exact .inl (hj.step hstep)
  · have hi' := hi.step hstep
    cases hstep with
    | delivery hstep =>
      obtain ⟨e₀, rest, hfl, rfl⟩ := hstep
      rw [hfl] at he
      rcases Multiset.mem_cons.mp he with rfl | he
      · refine (hbrings.handleEnvelope hi).imp_right ?_
        rintro ⟨e', he', hbrings'⟩
        exact ⟨hi', e', Multiset.mem_add.mpr (.inr he'), hbrings'⟩
      · exact .inr ⟨hi', e, Multiset.mem_add.mpr (.inl he), hbrings⟩
    | pass => exact .inr ⟨hi', e, Multiset.mem_add.mpr (.inl he), hbrings⟩
    | write => exact .inr ⟨hi', e, Multiset.mem_add.mpr (.inl he), hbrings⟩

/-- A pass offers all that its node knows. -/
theorem ClusterStep.due (h : ClusterStep (.pass i j) c c') (hi : Knows c.state i k b) :
    Due i j k b c' := by
  cases h with
  | pass hentries =>
    obtain ⟨w, hw, hle⟩ := hi
    refine .inr ⟨⟨w, hw, hle⟩, ?_⟩
    cases hitems : itemsAt (c.state i) k with
    | none =>
      rw [hitems] at hw
      cases hw
    | some items =>
      rw [hitems] at hw
      obtain ⟨versions, hoffer, hmem⟩ := exists_offer ((hentries k items).mpr hitems)
      refine ⟨⟨i, j, .syncOffer versions⟩, Multiset.mem_add.mpr (.inr (mem_map_of_mem hoffer)), ?_⟩
      exact .offer hmem (mem_map_of_mem hw) hle

theorem Knows.run (h : Knows c.state n k b) (hrun : ClusterRun events c c') :
    Knows c'.state n k b := by
  induction hrun with
  | nil => exact h
  | cons hstep _ ih => exact ih (h.step hstep)

theorem Due.run (h : Due i j k b c) (hrun : ClusterRun events c c') : Due i j k b c' := by
  induction hrun with
  | nil => exact h
  | cons hstep _ ih => exact ih (h.step hstep)

theorem ClusterRun.due (h : ClusterRun events c c') (hpass : .pass i j ∈ events)
    (hi : Knows c.state i k b) : Due i j k b c' := by
  induction h with
  | nil => cases hpass
  | cons hstep hrun ih =>
    rcases mem_cons.mp hpass with rfl | hpass
    · exact (hstep.due hi).run hrun
    · exact ih hpass (hi.step hstep)

def Envelope.Between (i j : N) (e : Envelope N K V) : Prop :=
  e.sender = i ∧ e.receiver = j ∨ e.sender = j ∧ e.receiver = i

/-- **No update is lost**, however passes, deliveries and writes of all nodes are interleaved: if a
pass from `i` to `j` was started and no message between them is in flight any more, `j` holds each
version that `i` held before, or a newer one. -/
theorem no_update_lost (h : ClusterRun events c c') (hpass : .pass i j ∈ events)
    (hend : ∀ e ∈ c'.inFlight, ¬ e.Between i j) (hv : v ∈ stored (itemsAt (c.state i) k)) :
    ∃ w ∈ stored (itemsAt (c'.state j) k), v.rank ≤ w.rank := by
  rcases h.due hpass ⟨v, hv, le_rfl⟩ with hj | ⟨-, e, he, hbrings⟩
  · exact hj
  · refine absurd ?_ (hend e he)
    cases hbrings with
    | offer => exact .inl ⟨rfl, rfl⟩
    | request => exact .inr ⟨rfl, rfl⟩
    | value => exact .inl ⟨rfl, rfl⟩

/-! ### What is held somewhere -/

/-- A node holds the version, or a message brings it. -/
inductive Occurs (k : K) (v : Versioned V) (c : SyncCluster N K V) : Prop
  | held {n : N} (h : v ∈ stored (itemsAt (c.state n) k))
  | sent {e : Envelope N K V} {values : List (K × List (Versioned V))} {items : List (Versioned V)}
      (h : e ∈ c.inFlight) (hm : e.message = .syncValue values) (hk : (k, items) ∈ values)
      (hv : v ∈ items)

variable (values) in
theorem mem_update
    (h : v ∈ stored (itemsAt (update stores m (handleSyncValue (stores m) values) n) k)) :
    v ∈ stored (itemsAt (stores n) k) ∨ ∃ items, (k, items) ∈ values ∧ v ∈ items := by
  rcases eq_or_ne n m with rfl | hne
  · rw [update_self] at h
    exact mem_handleSyncValue h
  · rw [update_of_ne hne] at h
    exact .inl h

theorem held_handleEnvelope (h : v ∈ stored (itemsAt ((handleEnvelope stores e).1 n) k)) :
    v ∈ stored (itemsAt (stores n) k) ∨
      ∃ values items, e.message = .syncValue values ∧ (k, items) ∈ values ∧ v ∈ items := by
  unfold handleEnvelope at h
  split at h
  · exact .inl h
  · split at h
    · exact .inl h
    · exact .inl h
  · rename_i values hvalues
    refine (mem_update _ h).imp_right ?_
    rintro ⟨items, hk, hv⟩
    exact ⟨values, items, hvalues, hk, hv⟩

/-- A reply holds what its sender holds. -/
theorem sent_handleEnvelope {e' : Envelope N K V} {items : List (Versioned V)}
    (h : e' ∈ (handleEnvelope stores e).2) (hm : e'.message = .syncValue values)
    (hk : (k, items) ∈ values) :
    itemsAt (stores e.receiver) k = some items := by
  unfold handleEnvelope at h
  split at h
  · obtain rfl := mem_singleton.mp h
    cases hm
  · rename_i keys _
    split at h
    · cases h
    · rename_i store hstore
      obtain ⟨m, hmem, rfl⟩ := mem_map.mp h
      rcases handleSyncRequest_cases store keys with ⟨hnone, -⟩ | ⟨values', hsome, hvalues⟩
      · rw [hnone] at hmem
        cases hmem
      · rw [hsome, mem_singleton] at hmem
        subst hmem
        cases hm
        rw [hstore]
        exact ((hvalues k items).mp hk).2
  · cases h

/-- **Nothing is made up**: a version that occurs has occurred before or is written. -/
theorem Occurs.of_step (hstep : ClusterStep event c c') (h : Occurs k v c') :
    Occurs k v c ∨ ∃ n, event = .write n k v := by
  cases hstep with
  | delivery hstep =>
    left
    obtain ⟨e, rest, hfl, rfl⟩ := hstep
    have he : ∀ {e'}, e' ∈ e ::ₘ rest → e' ∈ c.inFlight := fun he' => hfl ▸ he'
    cases h with
    | held h =>
      rcases held_handleEnvelope h with h | ⟨values, items, hm, hk, hv⟩
      · exact .held h
      · exact .sent (he (Multiset.mem_cons_self e rest)) hm hk hv
    | sent h hm hk hv =>
      rcases Multiset.mem_add.mp h with h | h
      · exact .sent (he (Multiset.mem_cons_of_mem h)) hm hk hv
      · -- a reply was held by its sender
        refine .held (n := e.receiver) ?_
        rw [sent_handleEnvelope h hm hk]
        exact hv
  | pass hentries =>
    left
    cases h with
    | held h => exact .held h
    | sent h hm hk hv =>
      rcases Multiset.mem_add.mp h with h | h
      · exact .sent h hm hk hv
      · obtain ⟨m, hmem, rfl⟩ := mem_map.mp h
        -- offers carry no values
        obtain ⟨versions, rfl⟩ := exists_of_mem_antientropyLoop hmem
        cases hm
  | write =>
    rename_i n k' value store peers hstore hpeers
    have hwritten {items : List (Versioned V)} (hk : (k, items) ∈ [(k', [value])])
        (hv : v ∈ items) : ClusterEvent.write n k' value = .write n k v := by
      obtain ⟨rfl, rfl⟩ := Prod.mk.inj (mem_singleton.mp hk)
      rw [mem_singleton.mp hv]
    cases h with
    | held h =>
      rcases mem_update [(k', [value])] h with h | ⟨items, hk, hv⟩
      · exact .inl (.held h)
      · exact .inr ⟨n, hwritten hk hv⟩
    | sent h hm hk hv =>
      rcases Multiset.mem_add.mp h with h | h
      · exact .inl (.sent h hm hk hv)
      · obtain ⟨m, hmem, rfl⟩ := mem_map.mp h
        cases hm
        exact .inr ⟨n, hwritten hk hv⟩

theorem Occurs.of_run (hrun : ClusterRun events c c') (hsilent : ∀ n, .write n k v ∉ events)
    (h : Occurs k v c') : Occurs k v c := by
  induction hrun with
  | nil => exact h
  | cons hstep _ ih =>
    have hnext := ih (fun n hn => hsilent n (mem_cons_of_mem _ hn)) h
    refine (hnext.of_step hstep).resolve_right ?_
    rintro ⟨n, rfl⟩
    exact hsilent n mem_cons_self

/-! ### Rounds -/

theorem remaining_handleEnvelope (stores : N → Option (SyncStore K V)) (e : Envelope N K V) :
    ((handleEnvelope stores e).2.map fun e => e.message.remaining).sum < e.message.remaining := by
  obtain ⟨i, j, m⟩ := e
  unfold handleEnvelope
  cases m with
  | syncOffer versions => exact Nat.lt_succ_self 2
  | syncRequest keys =>
    cases stores j with
    | none => exact Nat.succ_pos 1
    | some store =>
      rcases handleSyncRequest_cases store keys with ⟨heq, -⟩ | ⟨values, heq, -⟩
      · simp [Envelope.reply, heq, SyncMessage.remaining]
      · simp [Envelope.reply, heq, SyncMessage.remaining]
  | syncValue values => exact Nat.succ_pos 0

/-- Every message is delivered at some time. -/
theorem exists_deliveries (c : SyncCluster N K V) :
    ∃ l c', ClusterRun (replicate l .delivery) c c' ∧ c'.Quiescent := by
  obtain ⟨c', hrun, hq⟩ := Net.exists_quiescent remaining_handleEnvelope c
  induction hrun using Relation.ReflTransGen.head_induction_on with
  | refl => exact ⟨0, c', .nil c', hq⟩
  | head hstep _ ih =>
    obtain ⟨l, c', hrun, hq⟩ := ih
    exact ⟨l + 1, c', .cons (.delivery hstep) hrun, hq⟩

/-- No message leads to more than two others. -/
theorem deliveries_le {l : ℕ} (h : ClusterRun (replicate l .delivery) c c') :
    l ≤ 3 * c.inFlight.card := by
  have hweight : l ≤ c.weight fun e => e.message.remaining := by
    induction l generalizing c with
    | zero => exact Nat.zero_le _
    | succ l ih =>
      cases h with
      | cons hstep hrun =>
        cases hstep with
        | delivery hstep =>
          exact Nat.lt_of_le_of_lt (ih hrun) (Net.weight_lt_of_step remaining_handleEnvelope hstep)
  refine hweight.trans ((Multiset.sum_le_card_nsmul _ 3 fun w hw => ?_).trans ?_)
  · obtain ⟨e, -, rfl⟩ := Multiset.mem_map.mp hw
    cases e.message <;> simp [SyncMessage.remaining]
  · rw [Multiset.card_map]
    exact (Nat.mul_comm _ 3).le

/-- Runs after each of which nothing is in flight. -/
inductive Rounds : List (List (ClusterEvent N K V)) → SyncCluster N K V → SyncCluster N K V → Prop
  | nil (c : SyncCluster N K V) : Rounds [] c c
  | cons {events : List (ClusterEvent N K V)} {rounds : List (List (ClusterEvent N K V))}
      {c c' c'' : SyncCluster N K V} (h : ClusterRun events c c') (hq : c'.Quiescent)
      (hs : Rounds rounds c' c'') : Rounds (events :: rounds) c c''

/-- There is a way from one node to another with at most one pass in each round. -/
def ReachesIn : List (List (ClusterEvent N K V)) → N → N → Prop
  | [], m, n => m = n
  | events :: rounds, m, n => ∃ m', (m = m' ∨ .pass m m' ∈ events) ∧ ReachesIn rounds m' n

variable {rounds : List (List (ClusterEvent N K V))}

theorem Rounds.knows (h : Rounds rounds c c') (hreach : ReachesIn rounds m n)
    (hm : Knows c.state m k b) : Knows c'.state n k b := by
  induction h generalizing m with
  | nil =>
    obtain rfl : m = n := hreach
    exact hm
  | cons hrun hq _ ih =>
    obtain ⟨m', rfl | hpass, hreach⟩ := hreach
    · exact ih hreach (hm.run hrun)
    · refine ih hreach ((hrun.due hpass hm).resolve_right ?_)
      rintro ⟨-, e, he, -⟩
      rw [show _ = (0 : Multiset _) from hq] at he
      exact Multiset.notMem_zero e he

theorem Occurs.of_rounds (h : Rounds rounds c c') (hocc : Occurs k v c')
    (hsilent : ∀ events ∈ rounds, ∀ n, .write n k v ∉ events) : Occurs k v c := by
  induction h with
  | nil => exact hocc
  | cons hrun _ _ ih =>
    refine .of_run hrun (hsilent _ mem_cons_self) (ih hocc fun events h => ?_)
    exact hsilent events (mem_cons_of_mem _ h)

def SyncCluster.versions (c : SyncCluster N K V) (k : K) : Set (Versioned V) :=
  {v | ∃ n, v ∈ stored (itemsAt (c.state n) k)}

/-- **A cluster converges.**  When no pass is started and nothing is written, at most three
deliveries for each message in flight bring the cluster to rest.  After rounds without writes that
reach a node from every node, it holds nothing but versions that were held before, and each of these
or a newer one; two such nodes hold the same. -/
theorem cluster_converges {n n' : N} (h : Rounds rounds c c') (hq : c.Quiescent)
    (hsilent : ∀ events ∈ rounds, ∀ n k v, .write n k v ∉ events)
    (hn : ∀ m, ReachesIn rounds m n) (hn' : ∀ m, ReachesIn rounds m n') (k : K)
    (hval : ∀ v ∈ c.versions k, ∀ w ∈ c.versions k,
      v.version.versions = w.version.versions → v.value = w.value) :
    (∀ c : SyncCluster N K V, (∃ l c', ClusterRun (replicate l .delivery) c c' ∧ c'.Quiescent) ∧
      ∀ l c', ClusterRun (replicate l .delivery) c c' → l ≤ 3 * c.inFlight.card) ∧
    Gathers Versioned.rank (stored (itemsAt (c'.state n) k)) (c.versions k) ∧
    ((stored (itemsAt (c'.state n) k)).map Versioned.key).Perm
      ((stored (itemsAt (c'.state n') k)).map Versioned.key) := by
  have hgathers {n : N} (hn : ∀ m, ReachesIn rounds m n) :
      Gathers Versioned.rank (stored (itemsAt (c'.state n) k)) (c.versions k) := by
    constructor
    · intro v hv
      cases Occurs.of_rounds h (.held hv) fun events hevents n => hsilent events hevents n k v with
      | held h => exact ⟨_, h⟩
      | sent h =>
        rw [show c.inFlight = 0 from hq] at h
        exact absurd h (Multiset.notMem_zero _)
    · rintro v ⟨m, hv⟩
      exact h.knows (hn m) ⟨v, hv, le_rfl⟩
  refine ⟨fun c => ⟨exists_deliveries c, fun l c' => deliveries_le⟩, hgathers hn, ?_⟩
  exact (hgathers hn).perm_key (hgathers hn') (frontier_itemsAt _ k) (frontier_itemsAt _ k) hval

/-! ### Two nodes -/

/-- Both nodes have versions that the other one lacks. -/
def twoNodes : SyncCluster Bool Bool ℕ :=
  ⟨fun n => some (if n then secondStore else firstStore), 0⟩

/-- Each node starts a pass to the other one, and all messages are delivered. -/
theorem exists_round_twoNodes : ∃ l c', c'.Quiescent ∧
    ClusterRun (.pass true false :: .pass false true :: replicate l .delivery) twoNodes c' := by
  have hsecond : ∀ k items, (k, items) ∈ [(true, secondStore.get true),
      (false, secondStore.get false)] ↔ itemsAt (twoNodes.state true) k = some items := by
    intro k items
    cases k <;> simp [twoNodes, itemsAt, secondStore, SyncStore.get, stored, eq_comm]
  have hfirst : ∀ k items, (k, items) ∈ [(true, firstStore.get true),
      (false, firstStore.get false)] ↔ itemsAt (twoNodes.state false) k = some items := by
    intro k items
    cases k <;> simp [twoNodes, itemsAt, firstStore, SyncStore.get, stored, eq_comm]
  obtain ⟨l, c', hrun, hq⟩ := exists_deliveries ⟨twoNodes.state, _⟩
  exact ⟨l, c', hq, .cons (.pass hsecond) (.cons (.pass hfirst) hrun)⟩

theorem no_update_lost_pair : ∃ events c', ClusterRun events twoNodes c' ∧
    ∀ k, ∀ v ∈ firstStore.get k, ∃ w ∈ stored (itemsAt (c'.state true) k), v.rank ≤ w.rank := by
  obtain ⟨l, c', hq, hrun⟩ := exists_round_twoNodes
  refine ⟨_, c', hrun, fun k v hv => ?_⟩
  refine no_update_lost (i := false) hrun (by simp) (fun e he => ?_) hv
  rw [show c'.inFlight = 0 from hq] at he
  exact absurd he (Multiset.notMem_zero e)

/-- The two concurrent versions under `false` are on both nodes in the end. -/
theorem cluster_converges_pair : ∃ events c', ClusterRun events twoNodes c' ∧
    Gathers Versioned.rank (stored (itemsAt (c'.state true) false)) (twoNodes.versions false) ∧
    ((stored (itemsAt (c'.state true) false)).map Versioned.key).Perm
      ((stored (itemsAt (c'.state false) false)).map Versioned.key) := by
  obtain ⟨l, c', hq, hrun⟩ := exists_round_twoNodes
  have hreach (m n : Bool) : ReachesIn [.pass true false :: .pass false true ::
      replicate l (.delivery : ClusterEvent Bool Bool ℕ)] m n := by
    refine ⟨n, ?_, rfl⟩
    cases m <;> cases n <;> simp
  refine ⟨_, c', hrun, (cluster_converges (.cons hrun hq (.nil c')) rfl ?_ (hreach · true)
    (hreach · false) false ?_).2⟩
  · simp
  · -- the two clocks differ, so the values need not be compared
    rintro v ⟨m, hv⟩ w ⟨n, hw⟩ hclocks
    cases m <;> cases n <;> cases mem_singleton.mp hv <;> cases mem_singleton.mp hw
    · rfl
    · exact absurd hclocks (by decide)
    · exact absurd hclocks (by decide)
    · rfl

end NctuSdn
