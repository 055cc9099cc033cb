/-
The configuration of the load balancer (`LoadBalancer.createVip` to
`removeMember`).

VIPs, pools and members are kept in maps by their ids.  A VIP lists its pools and
a pool its members; a pool points to its VIP and a member to its pool; an index
leads from addresses to VIPs.  Each call is given an object of its own, so the
lists are not shared.  The ids are of any type; a pointer may be null.

`Admissible` says for each call when it keeps the configuration consistent, in
terms of the configuration before it.
-/
import NctuSdn.Lib.Backlinks
import NctuSdn.Lib.KeyedTable
import NctuSdn.Topology.Link
import Mathlib.Data.Int.Notation

namespace NctuSdn

open Function Option

variable {Id : Type} [DecidableEq Id]

/-! ### Objects -/

structure LBVip (Id : Type) where
  id : Id
  address : BitVec 32
  proxyMac : BitVec 48
  pools : List Id

structure LBPool (Id : Type) where
  id : Id
  members : List Id
  vipId : Option Id
  previousMemberIndex : ℤ

structure LBMember (Id : Type) where
  id : Id
  address : BitVec 32
  poolId : Option Id
  vipId : Option Id
  macString : Option (BitVec 48)

/-- `new LBVip()`, with the id that was drawn and `LB_PROXY_MAC`. -/
def LBVip.new (id : Id) : LBVip Id := ⟨id, 0, 0x123456789012, []⟩

/-- `new LBPool()`. -/
def LBPool.new (id : Id) : LBPool Id := ⟨id, [], none, -1⟩

/-- `new LBMember()`. -/
def LBMember.new (id : Id) : LBMember Id := ⟨id, 0, none, none, none⟩

/-- The maps of `LoadBalancer`. -/
structure LoadBalancer (Id : Type) where
  vips : Id → Option (LBVip Id)
  pools : Id → Option (LBPool Id)
  members : Id → Option (LBMember Id)
  vipIpToId : BitVec 32 → Option Id
  vipIpToMac : BitVec 32 → Option (BitVec 48)
  memberIpToId : BitVec 32 → Option Id

namespace LoadBalancer

/-- The maps after `init`. -/
def init : LoadBalancer Id where
  vips _ := none
  pools _ := none
  members _ := none
  vipIpToId _ := none
  vipIpToMac _ := none
  memberIpToId _ := none

variable (s : LoadBalancer Id)

/-! ### Calls -/

def createVip (vip : LBVip Id) : LoadBalancer Id :=
  { s with
    vips := Function.update s.vips vip.id (some vip)
    vipIpToId := Function.update s.vipIpToId vip.address (some vip.id)
    vipIpToMac := Function.update s.vipIpToMac vip.address (some vip.proxyMac) }

def updateVip (vip : LBVip Id) : LoadBalancer Id :=
  { s with vips := Function.update s.vips vip.id (some vip) }

/-- `removeVip`, with what it returns. -/
def removeVip (vipId : Id) : LoadBalancer Id × ℤ :=
  match s.vips vipId with
  | some _ => ({ s with vips := Function.update s.vips vipId none }, 0)
  | none => (s, -1)

def createPool (pool : LBPool Id) : LoadBalancer Id :=
  match pool.vipId.bind s.vips, pool.vipId with
  | some vip, some vipId =>
    { s with
      pools := Function.update s.pools pool.id (some pool)
      vips := Function.update s.vips vipId (some { vip with pools := vip.pools ++ [pool.id] }) }
  | _, _ =>
    { s with pools := Function.update s.pools pool.id (some { pool with vipId := none }) }

/-- `removePool`.  The list of a VIP loses the first occurrence. -/
def removePool (poolId : Id) : Except JavaException (LoadBalancer Id) :=
  match s.pools poolId with
  | none => .error .nullPointer
  | some pool =>
    match pool.vipId with
    | none => .ok { s with pools := Function.update s.pools poolId none }
    | some vipId =>
      match s.vips vipId with
      | none => .error .nullPointer
      | some vip =>
        .ok { s with
          vips := Function.update s.vips vipId
            (some { vip with pools := vip.pools.erase poolId })
          pools := Function.update s.pools poolId none }

def createMember (member : LBMember Id) : LoadBalancer Id :=
  let memberIpToId := Function.update s.memberIpToId member.address (some member.id)
  match member.poolId.bind s.pools, member.poolId with
  | some pool, some poolId =>
    let member := { member with vipId := pool.vipId }
    let pool :=
      if member.id ∈ pool.members then pool
      else { pool with members := pool.members ++ [member.id] }
    { s with
      members := Function.update s.members member.id (some member)
      pools := Function.update s.pools poolId (some pool)
      memberIpToId }
  | _, _ =>
    { s with
      members := Function.update s.members member.id (some member)
      memberIpToId }

/-- `removeMember`, with what it returns. -/
def removeMember (memberId : Id) : Except JavaException (LoadBalancer Id × ℤ) :=
  match s.members memberId with
  | none => .ok (s, -1)
  | some member =>
    match member.poolId with
    | none => .ok ({ s with members := Function.update s.members memberId none }, 0)
    | some poolId =>
      match s.pools poolId with
      | none => .error .nullPointer
      | some pool =>
        .ok ({ s with
          pools := Function.update s.pools poolId
            (some { pool with members := pool.members.erase memberId })
          members := Function.update s.members memberId none }, 0)

end LoadBalancer

/-- A call of the service.  An object may be null; a new object then has the id that was
drawn. -/
inductive ConfigurationCall (Id : Type)
  | createVip (vip : Option (LBVip Id)) (drawn : Id)
  | updateVip (vip : Option (LBVip Id))
  | removeVip (vipId : Id)
  | createPool (pool : Option (LBPool Id)) (drawn : Id)
  | removePool (poolId : Id)
  | createMember (member : Option (LBMember Id)) (drawn : Id)
  | removeMember (memberId : Id)

namespace LoadBalancer

/-- What a call does to the configuration. -/
def step (s : LoadBalancer Id) : ConfigurationCall Id → Except JavaException (LoadBalancer Id)
  | .createVip vip drawn => .ok (s.createVip (vip.getD (.new drawn)))
  | .updateVip none => .error .nullPointer
  | .updateVip (some vip) => .ok (s.updateVip vip)
  | .removeVip vipId => .ok (s.removeVip vipId).1
  | .createPool pool drawn => .ok (s.createPool (pool.getD (.new drawn)))
  | .removePool poolId => s.removePool poolId
  | .createMember member drawn => .ok (s.createMember (member.getD (.new drawn)))
  | .removeMember memberId => Prod.fst <$> s.removeMember memberId

/-! ### Consistency -/

/-- The configuration is consistent: the index has the addresses of the VIPs,
listed pools and members exist and point back, and pools point to VIPs. -/
structure Consistent (s : LoadBalancer Id) : Prop where
  index : ∀ address id,
    s.vipIpToId address = some id ↔ ∃ vip, s.vips id = some vip ∧ vip.address = address
  listed_pool : ∀ id vip, s.vips id = some vip → ∀ poolId ∈ vip.pools,
    ∃ pool, s.pools poolId = some pool ∧ pool.vipId = some id
  pool_vip : ∀ poolId pool, s.pools poolId = some pool → ∀ id, pool.vipId = some id →
    ∃ vip, s.vips id = some vip
  listed_member : ∀ poolId pool, s.pools poolId = some pool → ∀ memberId ∈ pool.members,
    ∃ member, s.members memberId = some member ∧ member.poolId = some poolId

/-- No two VIPs share an address. -/
def DistinctAddresses (s : LoadBalancer Id) : Prop :=
  ∀ id id' vip vip', s.vips id = some vip → s.vips id' = some vip' →
    vip.address = vip'.address → id = id'

/-! #### The tables of the configuration -/

/-- A column of a map. -/
def column {α β : Type} (t : Id → Option α) (g : Id → α → β) : Id → Option β :=
  fun id => (t id).map (g id)

variable {α β : Type}

theorem column_update (t : Id → Option α) (g : Id → α → β) (id : Id) (x : Option α) :
    column (Function.update t id x) g = Function.update (column t g) id (x.map (g id)) := by
  funext j
  by_cases hj : j = id
  · subst hj
    rw [column, update_self, update_self]
  · rw [column, update_of_ne hj, update_of_ne hj, column]

omit [DecidableEq Id] in
theorem column_eq_some_iff (t : Id → Option α) (g : Id → α → β) (id : Id) (y : β) :
    column t g id = some y ↔ ∃ x, t id = some x ∧ g id x = y := map_eq_some_iff

/-- A column that an entry does not change. -/
theorem column_update_same {t : Id → Option α} (g : Id → α → β) {id : Id} {x y : α}
    (hx : t id = some x) (hg : g id y = g id x) :
    column (Function.update t id (some y)) g = column t g := by
  have hentry : column t g id = some (g id x) := by rw [column, hx, map_some]
  rw [column_update, map_some, hg, ← hentry, update_eq_self]

/-- The addresses of the VIPs. -/
def addresses (vips : Id → Option (LBVip Id)) : Id → Option (BitVec 32 × Id) :=
  column vips fun id vip => (vip.address, id)

/-- The pools that the VIPs list. -/
def listedPools (vips : Id → Option (LBVip Id)) : Id → Option (List Id) :=
  column vips fun _ vip => vip.pools

/-- The VIPs that the pools point to. -/
def poolVips (pools : Id → Option (LBPool Id)) : Id → Option (Option Id) :=
  column pools fun _ pool => pool.vipId

/-- The members that the pools list. -/
def listedMembers (pools : Id → Option (LBPool Id)) : Id → Option (List Id) :=
  column pools fun _ pool => pool.members

/-- The pools that the members point to. -/
def memberPools (members : Id → Option (LBMember Id)) : Id → Option (Option Id) :=
  column members fun _ member => member.poolId

omit [DecidableEq Id] in
theorem represents_addresses_iff (vips : Id → Option (LBVip Id))
    (vipIpToId : BitVec 32 → Option Id) :
    KeyedTable.Represents (addresses vips) vipIpToId ↔
      ∀ address id,
        vipIpToId address = some id ↔ ∃ vip, vips id = some vip ∧ vip.address = address := by
  have hcolumn (address : BitVec 32) (id : Id) :
      (∃ i, addresses vips i = some (address, id)) ↔
        ∃ vip, vips id = some vip ∧ vip.address = address := by
    constructor
    · rintro ⟨i, hi⟩
      obtain ⟨vip, hvip, heq⟩ := (column_eq_some_iff ..).mp hi
      cases heq
      exact ⟨vip, hvip, rfl⟩
    · rintro ⟨vip, hvip, rfl⟩
      exact ⟨id, (column_eq_some_iff ..).mpr ⟨vip, hvip, rfl⟩⟩
  simp only [KeyedTable.Represents, hcolumn]

omit [DecidableEq Id] in
theorem linked_column_iff (t : Id → Option α) (list : α → List Id) (u : Id → Option β)
    (back : β → Option Id) :
    Backlinks.Linked (column t fun _ x => list x) (column u fun _ y => back y) ↔
      ∀ id x, t id = some x → ∀ c ∈ list x, ∃ y, u c = some y ∧ back y = some id := by
  constructor
  · intro h id x hx c hc
    exact (column_eq_some_iff ..).mp (h id (list x) ((column_eq_some_iff ..).mpr ⟨x, hx, rfl⟩) c hc)
  · intro h id cs hcs c hc
    obtain ⟨x, hx, rfl⟩ := (column_eq_some_iff ..).mp hcs
    exact (column_eq_some_iff ..).mpr (h id x hx c hc)

/-- The pools point to VIPs. -/
def PoolsBound (vips : Id → Option (LBVip Id)) (pools : Id → Option (LBPool Id)) : Prop :=
  ∀ poolId pool, pools poolId = some pool → ∀ id, pool.vipId = some id →
    ∃ vip, vips id = some vip

omit [DecidableEq Id] in
theorem consistent_iff (s : LoadBalancer Id) :
    s.Consistent ↔
      KeyedTable.Represents (addresses s.vips) s.vipIpToId ∧
        Backlinks.Linked (listedPools s.vips) (poolVips s.pools) ∧
        PoolsBound s.vips s.pools ∧
        Backlinks.Linked (listedMembers s.pools) (memberPools s.members) := by
  rw [represents_addresses_iff, listedPools, poolVips, linked_column_iff, listedMembers,
    memberPools, linked_column_iff]
  exact ⟨fun h => ⟨h.index, h.listed_pool, h.pool_vip, h.listed_member⟩,
    fun h => ⟨h.1, h.2.1, h.2.2.1, h.2.2.2⟩⟩

omit [DecidableEq Id] in
theorem distinctKeys_iff (vips : Id → Option (LBVip Id)) :
    KeyedTable.DistinctKeys (addresses vips) ↔
      ∀ id id' vip vip', vips id = some vip → vips id' = some vip' →
        vip.address = vip'.address → id = id' := by
  constructor
  · intro h id id' vip vip' hvip hvip' haddress
    exact h id id' vip.address id id' ((column_eq_some_iff ..).mpr ⟨vip, hvip, rfl⟩)
      ((column_eq_some_iff ..).mpr ⟨vip', hvip', by rw [haddress]⟩)
  · intro h id id' address v v' hid hid'
    obtain ⟨vip, hvip, heq⟩ := (column_eq_some_iff ..).mp hid
    obtain ⟨vip', hvip', heq'⟩ := (column_eq_some_iff ..).mp hid'
    cases heq
    exact h id id' vip vip' hvip hvip' (congrArg Prod.fst heq').symm

/-! ### Which calls keep it -/

/-- The listed pools of a VIP exist and point to it. -/
def PoolsPointTo (s : LoadBalancer Id) (vip : LBVip Id) : Prop :=
  ∀ poolId ∈ vip.pools, ∃ pool, s.pools poolId = some pool ∧ pool.vipId = some vip.id

/-- The VIP that a new pool is bound to. -/
def boundVip (s : LoadBalancer Id) (pool : LBPool Id) : Option Id :=
  pool.vipId.filter fun id => (s.vips id).isSome

/-- When a call keeps a consistent configuration consistent. -/
def Admissible (s : LoadBalancer Id) : ConfigurationCall Id → Prop
  | .createVip vip drawn =>
    let vip := vip.getD (.new drawn)
    (∀ old, s.vips vip.id = some old → old.address = vip.address) ∧ s.PoolsPointTo vip
  | .updateVip none => False
  | .updateVip (some vip) =>
    (∃ old, s.vips vip.id = some old ∧ old.address = vip.address) ∧ s.PoolsPointTo vip
  | .removeVip vipId => s.vips vipId = none
  | .createPool pool drawn =>
    let pool := pool.getD (.new drawn)
    (∀ id vip, s.vips id = some vip → pool.id ∈ vip.pools → s.boundVip pool = some id) ∧
      ∀ memberId ∈ pool.members,
        ∃ member, s.members memberId = some member ∧ member.poolId = some pool.id
  | .removePool poolId =>
    ∃ pool, s.pools poolId = some pool ∧
      ∀ id vip, pool.vipId = some id → s.vips id = some vip → vip.pools.count poolId ≤ 1
  | .createMember member drawn =>
    let member := member.getD (.new drawn)
    ∀ poolId pool, s.pools poolId = some pool → member.id ∈ pool.members →
      member.poolId = some poolId
  | .removeMember memberId =>
    ∀ member, s.members memberId = some member → ∀ poolId, member.poolId = some poolId →
      ∃ pool, s.pools poolId = some pool ∧ pool.members.count memberId ≤ 1

variable {s : LoadBalancer Id}

omit [DecidableEq Id] in
/-- An index of ids tells the VIPs apart by their addresses. -/
theorem Consistent.distinctKeys (h : s.Consistent) :
    KeyedTable.DistinctKeys (addresses s.vips) := by
  rw [distinctKeys_iff]
  intro id id' vip vip' hvip hvip' haddress
  have hid := (h.index vip.address id).mpr ⟨vip, hvip, rfl⟩
  have hid' := (h.index vip.address id').mpr ⟨vip', hvip', haddress.symm⟩
  exact some.inj (hid.symm.trans hid')

/-- A VIP is put under its id. -/
theorem Consistent.linked_putVip_iff (h : s.Consistent) (vip : LBVip Id) :
    Backlinks.Linked (listedPools (Function.update s.vips vip.id (some vip)))
        (poolVips s.pools) ↔
      s.PoolsPointTo vip := by
  have hlinked := (s.consistent_iff.mp h).2.1
  rw [listedPools, column_update]
  refine hlinked.setParent_iff.trans (forall₂_congr fun poolId _ => ?_)
  exact column_eq_some_iff ..

omit [DecidableEq Id] in
theorem PoolsBound.mono {vips vips' : Id → Option (LBVip Id)} {pools : Id → Option (LBPool Id)}
    (h : PoolsBound vips pools)
    (hvips : ∀ id vip, vips id = some vip → ∃ vip', vips' id = some vip') :
    PoolsBound vips' pools := by
  intro poolId pool hpool id hid
  obtain ⟨vip, hvip⟩ := h poolId pool hpool id hid
  exact hvips id vip hvip

theorem exists_update {t : Id → Option α} (id : Id) (y : α) (i : Id) (x : α) (hx : t i = some x) :
    ∃ x', Function.update t id (some y) i = some x' := by
  by_cases hi : i = id
  · subst hi
    exact ⟨y, update_self ..⟩
  · exact ⟨x, by rwa [update_of_ne hi]⟩

theorem addresses_update (vips : Id → Option (LBVip Id)) (vip : LBVip Id) :
    addresses (Function.update vips vip.id (some vip)) =
      Function.update (addresses vips) vip.id (some (vip.address, vip.id)) :=
  column_update ..

/-- `createVip` writes the index at the new address only. -/
theorem Consistent.represents_putVip_iff (h : s.Consistent) (vip : LBVip Id)
    (hdistinct : (s.createVip vip).DistinctAddresses) :
    KeyedTable.Represents (addresses (Function.update s.vips vip.id (some vip)))
        (Function.update s.vipIpToId vip.address (some vip.id)) ↔
      ∀ old, s.vips vip.id = some old → old.address = vip.address := by
  have hindex := (s.consistent_iff.mp h).1
  have hkeys : KeyedTable.DistinctKeys
      (addresses (Function.update s.vips vip.id (some vip))) := (distinctKeys_iff _).mpr hdistinct
  rw [addresses_update] at hkeys
  rw [addresses_update, hindex.put_iff h.distinctKeys hkeys]
  constructor
  · intro hkey old hold
    exact hkey old.address vip.id ((column_eq_some_iff ..).mpr ⟨old, hold, rfl⟩)
  · intro hkey address id hid
    obtain ⟨old, hold, heq⟩ := (column_eq_some_iff ..).mp hid
    cases heq
    exact hkey old hold

theorem createVip_consistent_iff (h : s.Consistent) (vip : LBVip Id)
    (hdistinct : (s.createVip vip).DistinctAddresses) :
    (s.createVip vip).Consistent ↔
      (∀ old, s.vips vip.id = some old → old.address = vip.address) ∧ s.PoolsPointTo vip := by
  obtain ⟨-, -, hbound, hmembers⟩ := s.consistent_iff.mp h
  rw [consistent_iff, ← h.represents_putVip_iff vip hdistinct, ← h.linked_putVip_iff vip]
  constructor
  · rintro ⟨hindex, hpools, -, -⟩
    exact ⟨hindex, hpools⟩
  · rintro ⟨hindex, hpools⟩
    -- ids of VIPs do not go, so pools stay bound
    exact ⟨hindex, hpools, hbound.mono (exists_update vip.id vip), hmembers⟩

/-- `updateVip` does not write the index. -/
theorem updateVip_consistent_iff (h : s.Consistent) (vip : LBVip Id) :
    (s.updateVip vip).Consistent ↔
      (∃ old, s.vips vip.id = some old ∧ old.address = vip.address) ∧ s.PoolsPointTo vip := by
  obtain ⟨hindex, -, hbound, hmembers⟩ := s.consistent_iff.mp h
  rw [← h.linked_putVip_iff vip]
  constructor
  · intro h'
    refine ⟨?_, ((s.updateVip vip).consistent_iff.mp h').2.1⟩
    exact (h.index vip.address vip.id).mp
      ((h'.index vip.address vip.id).mpr ⟨vip, update_self .., rfl⟩)
  · rintro ⟨⟨old, hold, haddress⟩, hpools⟩
    -- the old entry of the index is right only if the address is the same
    have hsame : addresses (Function.update s.vips vip.id (some vip)) = addresses s.vips :=
      column_update_same _ hold (by rw [haddress])
    rw [consistent_iff]
    refine ⟨?_, hpools, hbound.mono (exists_update vip.id vip), hmembers⟩
    rw [updateVip, hsame]
    exact hindex

/-- `removeVip` leaves the index. -/
theorem removeVip_consistent_iff (h : s.Consistent) (vipId : Id) :
    (s.removeVip vipId).1.Consistent ↔ s.vips vipId = none := by
  unfold removeVip
  cases hvip : s.vips vipId with
  | none => exact iff_of_true h rfl
  | some vip =>
    refine iff_of_false (fun h' => ?_) (fun hnone => nomatch hnone)
    -- the address still leads to the id
    obtain ⟨vip', hvip', -⟩ := (h'.index vip.address vipId).mp
      ((h.index vip.address vipId).mpr ⟨vip, hvip, rfl⟩)
    dsimp only at hvip'
    rw [update_self] at hvip'
    cases hvip'

/-! #### Pools -/

omit [DecidableEq Id] in
/-- A listed id in a column is a listed id of an entry. -/
theorem forall_column_iff (t : Id → Option α) (list : α → List Id) (c : Id) (P : Id → Prop) :
    (∀ id cs, column t (fun _ x => list x) id = some cs → c ∈ cs → P id) ↔
      ∀ id x, t id = some x → c ∈ list x → P id := by
  constructor
  · intro h id x hx hc
    exact h id (list x) ((column_eq_some_iff ..).mpr ⟨x, hx, rfl⟩) hc
  · intro h id cs hcs hc
    obtain ⟨x, hx, rfl⟩ := (column_eq_some_iff ..).mp hcs
    exact h id x hx hc

section

variable {vips : Id → Option (LBVip Id)} {pools : Id → Option (LBPool Id)}
  (h : PoolsBound vips pools)
include h

theorem PoolsBound.put {poolId : Id} {pool : LBPool Id}
    (hpool : ∀ id, pool.vipId = some id → ∃ vip, vips id = some vip) :
    PoolsBound vips (Function.update pools poolId (some pool)) := by
  intro i pool' hpool' id hid
  by_cases hi : i = poolId
  · subst hi
    rw [update_self] at hpool'
    cases hpool'
    exact hpool id hid
  · rw [update_of_ne hi] at hpool'
    exact h i pool' hpool' id hid

theorem PoolsBound.remove (poolId : Id) :
    PoolsBound vips (Function.update pools poolId none) := by
  intro i pool hpool id hid
  by_cases hi : i = poolId
  · subst hi
    rw [update_self] at hpool
    cases hpool
  · rw [update_of_ne hi] at hpool
    exact h i pool hpool id hid

end

section

variable {poolId vipId : Id} {pool : LBPool Id} {vip : LBVip Id} (h : s.Consistent)
include h

/-- A pool is put under its id. -/
theorem Consistent.linked_putPool_iff (pool : LBPool Id) (poolId : Id) :
    Backlinks.Linked (listedMembers (Function.update s.pools poolId (some pool)))
        (memberPools s.members) ↔
      ∀ memberId ∈ pool.members,
        ∃ member, s.members memberId = some member ∧ member.poolId = some poolId := by
  have hlinked := (s.consistent_iff.mp h).2.2.2
  rw [listedMembers, column_update]
  refine hlinked.setParent_iff.trans (forall₂_congr fun memberId _ => ?_)
  exact column_eq_some_iff ..

/-- A pool that names a VIP is appended to its list. -/
theorem createPool_bound_consistent_iff
    (hvipId : pool.vipId = some vipId) (hvip : s.vips vipId = some vip) :
    (s.createPool pool).Consistent ↔
      (∀ id vip, s.vips id = some vip → pool.id ∈ vip.pools → some vipId = some id) ∧
        ∀ memberId ∈ pool.members,
          ∃ member, s.members memberId = some member ∧ member.poolId = some pool.id := by
  obtain ⟨hindex, hpools, hbound, -⟩ := s.consistent_iff.mp h
  have hstate : s.createPool pool = { s with
      pools := Function.update s.pools pool.id (some pool)
      vips := Function.update s.vips vipId
        (some { vip with pools := vip.pools ++ [pool.id] }) } := by
    unfold createPool
    rw [hvipId, bind_some, hvip]
  -- of the VIP only its list of pools is changed
  have haddresses : addresses (Function.update s.vips vipId
      (some { vip with pools := vip.pools ++ [pool.id] })) = addresses s.vips :=
    column_update_same _ hvip rfl
  have hlist : listedPools s.vips vipId = some vip.pools :=
    (column_eq_some_iff ..).mpr ⟨vip, hvip, rfl⟩
  have hlinked : Backlinks.Linked
      (listedPools (Function.update s.vips vipId
        (some { vip with pools := vip.pools ++ [pool.id] })))
      (poolVips (Function.update s.pools pool.id (some pool))) ↔
        ∀ id vip, s.vips id = some vip → pool.id ∈ vip.pools → some vipId = some id := by
    rw [listedPools, poolVips, column_update, column_update, map_some, map_some,
      hvipId]
    refine (hpools.append_iff hlist).trans ((forall_column_iff ..).trans ?_)
    simp only [some.injEq, eq_comm]
  have hbound' : PoolsBound (Function.update s.vips vipId
      (some { vip with pools := vip.pools ++ [pool.id] }))
      (Function.update s.pools pool.id (some pool)) := by
    refine (hbound.mono (exists_update vipId _)).put ?_
    intro id hid
    rw [hvipId] at hid
    cases hid
    exact ⟨_, update_self ..⟩
  rw [hstate, consistent_iff, haddresses, hlinked, h.linked_putPool_iff]
  exact ⟨fun h' => ⟨h'.2.1, h'.2.2.2⟩, fun h' => ⟨hindex, h'.1, hbound', h'.2⟩⟩

/-- Any other pool points nowhere. -/
theorem createPool_unbound_consistent_iff (hunbound : pool.vipId.bind s.vips = none) :
    (s.createPool pool).Consistent ↔
      (∀ id vip, s.vips id = some vip → pool.id ∈ vip.pools → none = some id) ∧
        ∀ memberId ∈ pool.members,
          ∃ member, s.members memberId = some member ∧ member.poolId = some pool.id := by
  obtain ⟨hindex, hpools, hbound, -⟩ := s.consistent_iff.mp h
  have hstate : s.createPool pool = { s with
      pools := Function.update s.pools pool.id (some { pool with vipId := none }) } := by
    unfold createPool
    rw [hunbound]
  have hlinked : Backlinks.Linked (listedPools s.vips)
      (poolVips (Function.update s.pools pool.id (some { pool with vipId := none }))) ↔
        ∀ id vip, s.vips id = some vip → pool.id ∈ vip.pools → none = some id := by
    rw [poolVips, column_update, map_some]
    refine (hpools.setChild_iff _).trans ((forall_column_iff ..).trans ?_)
    simp only [some.injEq]
  have hbound' : PoolsBound s.vips
      (Function.update s.pools pool.id (some { pool with vipId := none })) :=
    hbound.put fun id hid => nomatch hid
  rw [hstate, consistent_iff, hlinked, h.linked_putPool_iff]
  exact ⟨fun h' => ⟨h'.2.1, h'.2.2.2⟩, fun h' => ⟨hindex, h'.1, hbound', h'.2⟩⟩

theorem createPool_consistent_iff (pool : LBPool Id) :
    (s.createPool pool).Consistent ↔
      (∀ id vip, s.vips id = some vip → pool.id ∈ vip.pools → s.boundVip pool = some id) ∧
        ∀ memberId ∈ pool.members,
          ∃ member, s.members memberId = some member ∧ member.poolId = some pool.id := by
  cases hvipId : pool.vipId with
  | none =>
    rw [createPool_unbound_consistent_iff h (by rw [hvipId, bind_none]), boundVip, hvipId,
      filter_none]
  | some vipId =>
    cases hvip : s.vips vipId with
    | none =>
      rw [createPool_unbound_consistent_iff h (by rw [hvipId, bind_some, hvip]),
        boundVip, hvipId, filter_some_neg (by rw [hvip]; rfl)]
    | some vip =>
      rw [createPool_bound_consistent_iff h hvipId hvip, boundVip, hvipId,
        filter_some_pos (by rw [hvip]; rfl)]

/-- A pool without a VIP is removed. -/
theorem removePool_unbound (hpool : s.pools poolId = some pool) (hvipId : pool.vipId = none) :
    ∃ s', s.removePool poolId = .ok s' ∧ s'.Consistent := by
  obtain ⟨hindex, hpools, hbound, hmembers⟩ := s.consistent_iff.mp h
  refine ⟨{ s with pools := Function.update s.pools poolId none }, ?_, ?_⟩
  · unfold removePool
    rw [hpool]
    dsimp only
    rw [hvipId]
  · have horphan : poolVips s.pools poolId = some none :=
      (column_eq_some_iff ..).mpr ⟨pool, hpool, hvipId⟩
    rw [consistent_iff, poolVips, listedMembers, column_update, column_update]
    exact ⟨hindex, hpools.eraseOrphan horphan, hbound.remove poolId, hmembers.removeParent poolId⟩

/-- A pool with a VIP is removed from its list, too. -/
theorem removePool_bound_iff (hpool : s.pools poolId = some pool) (hvipId : pool.vipId = some vipId)
    (hvip : s.vips vipId = some vip) :
    (∃ s', s.removePool poolId = .ok s' ∧ s'.Consistent) ↔ vip.pools.count poolId ≤ 1 := by
  obtain ⟨hindex, hpools, hbound, hmembers⟩ := s.consistent_iff.mp h
  have hstate : s.removePool poolId = .ok { s with
      vips := Function.update s.vips vipId (some { vip with pools := vip.pools.erase poolId })
      pools := Function.update s.pools poolId none } := by
    unfold removePool
    rw [hpool]
    dsimp only
    rw [hvipId]
    dsimp only
    rw [hvip]
  have haddresses : addresses (Function.update s.vips vipId
      (some { vip with pools := vip.pools.erase poolId })) = addresses s.vips :=
    column_update_same _ hvip rfl
  have hlinked : Backlinks.Linked
      (listedPools (Function.update s.vips vipId
        (some { vip with pools := vip.pools.erase poolId })))
      (poolVips (Function.update s.pools poolId none)) ↔ vip.pools.count poolId ≤ 1 := by
    rw [listedPools, poolVips, column_update, column_update]
    -- a second copy in the list would be left
    exact hpools.erase_iff ((column_eq_some_iff ..).mpr ⟨vip, hvip, rfl⟩)
      ((column_eq_some_iff ..).mpr ⟨pool, hpool, hvipId⟩)
  have hbound' : PoolsBound (Function.update s.vips vipId
      (some { vip with pools := vip.pools.erase poolId })) (Function.update s.pools poolId none) :=
    (hbound.mono (exists_update vipId _)).remove poolId
  have hmembers' : Backlinks.Linked (listedMembers (Function.update s.pools poolId none))
      (memberPools s.members) := by
    rw [listedMembers, column_update]
    exact hmembers.removeParent poolId
  rw [← hlinked]
  constructor
  · rintro ⟨s', hs', hconsistent⟩
    cases hstate.symm.trans hs'
    exact ((consistent_iff _).mp hconsistent).2.1
  · intro hpools'
    refine ⟨_, hstate, (consistent_iff _).mpr ⟨?_, hpools', hbound', hmembers'⟩⟩
    rw [haddresses]
    exact hindex

theorem removePool_consistent_iff (poolId : Id) :
    (∃ s', s.removePool poolId = .ok s' ∧ s'.Consistent) ↔
      ∃ pool, s.pools poolId = some pool ∧
        ∀ id vip, pool.vipId = some id → s.vips id = some vip → vip.pools.count poolId ≤ 1 := by
  cases hpool : s.pools poolId with
  | none =>
    -- `removePool` asks a pool that is not there for its VIP
    refine iff_of_false ?_ (fun ⟨_, hnone, _⟩ => nomatch hnone)
    rintro ⟨s', hs', -⟩
    unfold removePool at hs'
    rw [hpool] at hs'
    cases hs'
  | some pool =>
    cases hvipId : pool.vipId with
    | none =>
      refine iff_of_true (removePool_unbound h hpool hvipId) ⟨pool, rfl, ?_⟩
      intro id vip hid
      rw [hvipId] at hid
      cases hid
    | some vipId =>
      obtain ⟨vip, hvip⟩ := h.pool_vip poolId pool hpool vipId hvipId
      rw [removePool_bound_iff h hpool hvipId hvip]
      constructor
      · intro hcount
        refine ⟨pool, rfl, ?_⟩
        intro id vip' hid hvip'
        rw [hvipId] at hid
        cases hid
        cases hvip.symm.trans hvip'
        exact hcount
      · rintro ⟨pool', hpool', hcount⟩
        cases hpool'
        exact hcount vipId vip hvipId hvip

end

/-! #### Members -/

section

variable {poolId : Id} {pool : LBPool Id} (h : s.Consistent)
include h

/-- A pool whose VIP stays the same. -/
theorem Consistent.putMembers (hpool : s.pools poolId = some pool)
    (pool' : LBPool Id) (hvipId : pool'.vipId = pool.vipId) :
    Backlinks.Linked (listedPools s.vips)
        (poolVips (Function.update s.pools poolId (some pool'))) ∧
      PoolsBound s.vips (Function.update s.pools poolId (some pool')) := by
  obtain ⟨-, hpools, hbound, -⟩ := s.consistent_iff.mp h
  have hsame : poolVips (Function.update s.pools poolId (some pool')) = poolVips s.pools :=
    column_update_same _ hpool hvipId
  refine ⟨by rwa [hsame], hbound.put fun id hid => ?_⟩
  rw [hvipId] at hid
  exact h.pool_vip poolId pool hpool id hid

/-- The member is in the list of its pool, or is appended to it. -/
theorem Consistent.linked_putMember_iff (hpool : s.pools poolId = some pool) (member : LBMember Id)
    (hpoolId : member.poolId = some poolId) :
    Backlinks.Linked
        (listedMembers (Function.update s.pools poolId (some
          (if member.id ∈ pool.members then pool
          else { pool with members := pool.members ++ [member.id] }))))
        (memberPools (Function.update s.members member.id (some member))) ↔
      ∀ id pool', s.pools id = some pool' → member.id ∈ pool'.members → some poolId = some id := by
  have hmembers := (s.consistent_iff.mp h).2.2.2
  by_cases hmem : member.id ∈ pool.members
  · have hsame : listedMembers (Function.update s.pools poolId (some pool)) =
        listedMembers s.pools := column_update_same _ hpool rfl
    rw [if_pos hmem, hsame, memberPools, column_update, map_some, hpoolId]
    refine (hmembers.setChild_iff _).trans ((forall_column_iff ..).trans ?_)
    simp only [some.injEq]
  · rw [if_neg hmem, listedMembers, memberPools, column_update, column_update, map_some,
      map_some, hpoolId]
    refine (hmembers.append_iff ((column_eq_some_iff ..).mpr ⟨pool, hpool, rfl⟩)).trans
      ((forall_column_iff ..).trans ?_)
    simp only [some.injEq, eq_comm]

theorem createMember_consistent_iff (member : LBMember Id) :
    (s.createMember member).Consistent ↔
      ∀ poolId pool, s.pools poolId = some pool → member.id ∈ pool.members →
        member.poolId = some poolId := by
  obtain ⟨hindex, hpools, hbound, hmembers⟩ := s.consistent_iff.mp h
  cases hbind : member.poolId.bind s.pools with
  | none =>
    -- the pool is not there; the member is stored all the same
    have hstate : s.createMember member = { s with
        members := Function.update s.members member.id (some member)
        memberIpToId := Function.update s.memberIpToId member.address (some member.id) } := by
      unfold createMember
      rw [hbind]
    have hlinked : Backlinks.Linked (listedMembers s.pools)
        (memberPools (Function.update s.members member.id (some member))) ↔
          ∀ poolId pool, s.pools poolId = some pool → member.id ∈ pool.members →
            member.poolId = some poolId := by
      rw [memberPools, column_update, map_some]
      refine (hmembers.setChild_iff _).trans ((forall_column_iff ..).trans ?_)
      simp only [some.injEq]
    rw [hstate, consistent_iff, ← hlinked]
    exact ⟨fun h' => h'.2.2.2, fun h' => ⟨hindex, hpools, hbound, h'⟩⟩
  | some pool =>
    obtain ⟨poolId, hpoolId, hpool⟩ := bind_eq_some_iff.mp hbind
    have hstate : s.createMember member = { s with
        members := Function.update s.members member.id
          (some { member with vipId := pool.vipId })
        pools := Function.update s.pools poolId (some
          (if member.id ∈ pool.members then pool
          else { pool with members := pool.members ++ [member.id] }))
        memberIpToId := Function.update s.memberIpToId member.address (some member.id) } := by
      unfold createMember
      rw [hbind, hpoolId]
    have hkept := h.putMembers hpool (if member.id ∈ pool.members then pool
      else { pool with members := pool.members ++ [member.id] }) (by split <;> rfl)
    have hlinked := h.linked_putMember_iff hpool { member with vipId := pool.vipId } hpoolId
    rw [← hpoolId] at hlinked
    rw [hstate, consistent_iff]
    exact ⟨fun h' => hlinked.mp h'.2.2.2,
      fun h' => ⟨hindex, hkept.1, hkept.2, hlinked.mpr h'⟩⟩

/-- A member without a pool is removed. -/
theorem removeMember_unbound {memberId : Id} {member : LBMember Id}
    (hmember : s.members memberId = some member) (hpoolId : member.poolId = none) :
    ∃ s', Prod.fst <$> s.removeMember memberId = .ok s' ∧ s'.Consistent := by
  obtain ⟨hindex, hpools, hbound, hmembers⟩ := s.consistent_iff.mp h
  refine ⟨{ s with members := Function.update s.members memberId none }, ?_, ?_⟩
  · unfold removeMember
    rw [hmember]
    dsimp only
    rw [hpoolId]
    rfl
  · rw [consistent_iff, memberPools, column_update]
    exact ⟨hindex, hpools, hbound,
      hmembers.eraseOrphan ((column_eq_some_iff ..).mpr ⟨member, hmember, hpoolId⟩)⟩

/-- A member with a pool is removed from its list, too. -/
theorem removeMember_bound_iff {memberId : Id} {member : LBMember Id}
    (hmember : s.members memberId = some member) (hpoolId : member.poolId = some poolId)
    (hpool : s.pools poolId = some pool) :
    (∃ s', Prod.fst <$> s.removeMember memberId = .ok s' ∧ s'.Consistent) ↔
      pool.members.count memberId ≤ 1 := by
  obtain ⟨hindex, -, -, hmembers⟩ := s.consistent_iff.mp h
  have hstate : Prod.fst <$> s.removeMember memberId = .ok { s with
      pools := Function.update s.pools poolId
        (some { pool with members := pool.members.erase memberId })
      members := Function.update s.members memberId none } := by
    unfold removeMember
    rw [hmember]
    dsimp only
    rw [hpoolId]
    dsimp only
    rw [hpool]
    rfl
  have hkept := h.putMembers hpool { pool with members := pool.members.erase memberId } rfl
  have hlinked : Backlinks.Linked
      (listedMembers (Function.update s.pools poolId
        (some { pool with members := pool.members.erase memberId })))
      (memberPools (Function.update s.members memberId none)) ↔
        pool.members.count memberId ≤ 1 := by
    rw [listedMembers, memberPools, column_update, column_update]
    exact hmembers.erase_iff ((column_eq_some_iff ..).mpr ⟨pool, hpool, rfl⟩)
      ((column_eq_some_iff ..).mpr ⟨member, hmember, hpoolId⟩)
  rw [← hlinked]
  constructor
  · rintro ⟨s', hs', hconsistent⟩
    cases hstate.symm.trans hs'
    exact ((consistent_iff _).mp hconsistent).2.2.2
  · intro hmembers'
    exact ⟨_, hstate, (consistent_iff _).mpr ⟨hindex, hkept.1, hkept.2, hmembers'⟩⟩

theorem removeMember_consistent_iff (memberId : Id) :
    (∃ s', Prod.fst <$> s.removeMember memberId = .ok s' ∧ s'.Consistent) ↔
      ∀ member, s.members memberId = some member → ∀ poolId, member.poolId = some poolId →
        ∃ pool, s.pools poolId = some pool ∧ pool.members.count memberId ≤ 1 := by
  cases hmember : s.members memberId with
  | none =>
    refine iff_of_true ⟨s, ?_, h⟩ (fun _ hnone => nomatch hnone)
    unfold removeMember
    rw [hmember]
    rfl
  | some member =>
    cases hpoolId : member.poolId with
    | none =>
      refine iff_of_true (removeMember_unbound h hmember hpoolId) ?_
      intro member' hmember' poolId hnone
      cases hmember'
      cases hpoolId.symm.trans hnone
    | some poolId =>
      cases hpool : s.pools poolId with
      | none =>
        -- the pool was removed before its member
        refine iff_of_false ?_ ?_
        · rintro ⟨s', hs', -⟩
          unfold removeMember at hs'
          rw [hmember] at hs'
          dsimp only at hs'
          rw [hpoolId] at hs'
          dsimp only at hs'
          rw [hpool] at hs'
          cases hs'
        · intro hadmissible
          obtain ⟨pool, hsome, -⟩ := hadmissible member rfl poolId hpoolId
          cases hpool.symm.trans hsome
      | some pool =>
        rw [removeMember_bound_iff h hmember hpoolId hpool]
        constructor
        · rintro hcount member' hmember' poolId' hpoolId'
          cases hmember'
          cases hpoolId.symm.trans hpoolId'
          exact ⟨pool, hpool, hcount⟩
        · intro hadmissible
          obtain ⟨pool', hpool', hcount⟩ := hadmissible member rfl poolId hpoolId
          cases hpool.symm.trans hpool'
          exact hcount

end

/-! ### Sequences of calls -/

omit [DecidableEq Id] in
theorem consistent_init : (init : LoadBalancer Id).Consistent where
  index _ _ := ⟨fun h => (nomatch h), fun ⟨_, h, _⟩ => (nomatch h)⟩
  listed_pool _ _ h := nomatch h
  pool_vip _ _ h := nomatch h
  listed_member _ _ h := nomatch h

/-- A call keeps a consistent configuration consistent exactly if it is
admissible. -/
theorem step_consistent_iff (h : s.Consistent) (call : ConfigurationCall Id)
    (hdistinct : ∀ s', s.step call = .ok s' → s'.DistinctAddresses) :
    (∃ s', s.step call = .ok s' ∧ s'.Consistent) ↔ s.Admissible call := by
  have hok (s' : LoadBalancer Id) :
      (∃ s'', (Except.ok s' : Except JavaException _) = .ok s'' ∧ s''.Consistent) ↔
        s'.Consistent := by
    constructor
    · rintro ⟨s'', hs'', hconsistent⟩
      cases hs''
      exact hconsistent
    · exact fun hconsistent => ⟨s', rfl, hconsistent⟩
  cases call with
  | createVip vip drawn =>
    exact (hok _).trans (createVip_consistent_iff h _ (hdistinct _ rfl))
  | updateVip vip =>
    cases vip with
    | none => exact iff_of_false (fun ⟨_, herror, _⟩ => nomatch herror) id
    | some vip => exact (hok _).trans (updateVip_consistent_iff h vip)
  | removeVip vipId => exact (hok _).trans (removeVip_consistent_iff h vipId)
  | createPool pool drawn => exact (hok _).trans (createPool_consistent_iff h _)
  | removePool poolId => exact removePool_consistent_iff h poolId
  | createMember member drawn => exact (hok _).trans (createMember_consistent_iff h _)
  | removeMember memberId => exact removeMember_consistent_iff h memberId

/-- No call of a sequence throws, and after each of them the configuration has a
property. -/
def Throughout (P : LoadBalancer Id → Prop) :
    LoadBalancer Id → List (ConfigurationCall Id) → Prop
  | _, [] => True
  | s, call :: calls => ∃ s', s.step call = .ok s' ∧ P s' ∧ Throughout P s' calls

/-- At no time of a sequence do two VIPs share an address. -/
def DistinctThroughout : LoadBalancer Id → List (ConfigurationCall Id) → Prop
  | _, [] => True
  | s, call :: calls =>
    ∀ s', s.step call = .ok s' → s'.DistinctAddresses ∧ DistinctThroughout s' calls

/-- Every call of a sequence is admissible when it is made. -/
def AllAdmissible : LoadBalancer Id → List (ConfigurationCall Id) → Prop
  | _, [] => True
  | s, call :: calls => s.Admissible call ∧ ∀ s', s.step call = .ok s' → AllAdmissible s' calls

theorem Consistent.throughout_iff (h : s.Consistent) {calls : List (ConfigurationCall Id)}
    (hdistinct : DistinctThroughout s calls) :
    Throughout Consistent s calls ↔ AllAdmissible s calls := by
  -- consistency is the invariant; `step_consistent_iff` is the step
  induction calls generalizing s with
  | nil => exact Iff.rfl
  | cons call calls ih =>
    have hstep := step_consistent_iff h call fun s' hs' => (hdistinct s' hs').1
    constructor
    · rintro ⟨s', hs', hconsistent, hrest⟩
      refine ⟨hstep.mp ⟨s', hs', hconsistent⟩, ?_⟩
      intro s'' hs''
      cases hs'.symm.trans hs''
      exact (ih hconsistent (hdistinct s' hs').2).mp hrest
    · rintro ⟨hadmissible, hrest⟩
      obtain ⟨s', hs', hconsistent⟩ := hstep.mpr hadmissible
      exact ⟨s', hs', hconsistent, (ih hconsistent (hdistinct s' hs').2).mpr (hrest s' hs')⟩

end LoadBalancer

/-- **The configuration** stays consistent, and nothing is thrown, exactly if
every call is admissible when it is made. -/
theorem configuration_consistent_iff (calls : List (ConfigurationCall Id))
    (hdistinct : LoadBalancer.DistinctThroughout .init calls) :
    LoadBalancer.Throughout LoadBalancer.Consistent .init calls ↔
      LoadBalancer.AllAdmissible .init calls :=
  LoadBalancer.consistent_init.throughout_iff hdistinct

/-- A VIP for 10.0.0.100. -/
def webVip : LBVip ℕ := ⟨1, 0x0a000064, 0x123456789012, []⟩

/-- The VIP, a pool for it and a member of the pool. -/
def webCalls : List (ConfigurationCall ℕ) :=
  [.createVip (some webVip) 0, .createPool (some ⟨2, [], some 1, -1⟩) 0,
    .createMember (some ⟨3, 0x0a000001, some 2, none, none⟩) 0]

omit [DecidableEq Id] in
theorem LoadBalancer.distinctAddresses_of_single {s : LoadBalancer Id} (id : Id)
    (h : ∀ i, i ≠ id → s.vips i = none) : s.DistinctAddresses := by
  intro i j vip vip' hvip hvip' _
  have honly (i : Id) (vip : LBVip Id) (hvip : s.vips i = some vip) : i = id := by
    by_contra hi
    cases (h i hi).symm.trans hvip
  exact (honly i vip hvip).trans (honly j vip' hvip').symm

theorem configuration_consistent_web :
    LoadBalancer.Throughout LoadBalancer.Consistent .init webCalls := by
  refine (configuration_consistent_iff webCalls ?_).mpr ?_
  · intro s₁ h₁
    cases h₁
    refine ⟨LoadBalancer.distinctAddresses_of_single 1
      fun i hi => update_of_ne hi .., ?_⟩
    intro s₂ h₂
    cases h₂
    refine ⟨LoadBalancer.distinctAddresses_of_single 1
      fun i hi => (update_of_ne hi ..).trans (update_of_ne hi ..), ?_⟩
    intro s₃ h₃
    cases h₃
    exact ⟨LoadBalancer.distinctAddresses_of_single 1
      fun i hi => (update_of_ne hi ..).trans (update_of_ne hi ..), trivial⟩
  · refine ⟨⟨fun _ h => (nomatch h), fun _ h => (nomatch h)⟩, ?_⟩
    intro s₁ h₁
    cases h₁
    refine ⟨⟨?_, fun _ h => (nomatch h)⟩, ?_⟩
    · intro id vip hvip hlisted
      by_cases hid : id = 1
      · subst hid
        cases hvip
        cases hlisted
      · cases (update_of_ne hid ..).symm.trans hvip
    · intro s₂ h₂
      cases h₂
      refine ⟨?_, fun _ _ => trivial⟩
      intro poolId pool hpool _
      by_cases hid : poolId = 2
      · rw [hid]
        rfl
      · cases (update_of_ne hid ..).symm.trans hpool

/-- The index keeps a VIP that was removed. -/
theorem removed_vip_indexed :
    LoadBalancer.DistinctThroughout .init [.createVip (some webVip) 0, .removeVip 1] ∧
      ¬ LoadBalancer.Throughout LoadBalancer.Consistent .init
        [.createVip (some webVip) 0, .removeVip 1] := by
  refine ⟨?_, ?_⟩
  · intro s₁ h₁
    cases h₁
    refine ⟨LoadBalancer.distinctAddresses_of_single 1
      fun i hi => update_of_ne hi .., ?_⟩
    intro s₂ h₂
    cases h₂
    exact ⟨LoadBalancer.distinctAddresses_of_single 1
      fun i hi => (update_of_ne hi ..).trans (update_of_ne hi ..), trivial⟩
  · rintro ⟨s₁, h₁, -, s₂, h₂, hconsistent, -⟩
    cases h₁
    cases h₂
    obtain ⟨vip, hvip, -⟩ := (hconsistent.index 0x0a000064 1).mp rfl
    cases hvip

end NctuSdn
