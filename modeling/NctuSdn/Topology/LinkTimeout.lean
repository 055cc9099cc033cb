/-
What `LinkDiscoveryManager.timeoutLinks` reports.

A link has a time for unicast and one for multicast frames, and either can run out.  A link
that is left with one of them has changed, a link that is left with none is removed, and
each is to be reported as such.  The loop over the links keeps whether a link has changed
in one variable, which it never resets: from the first link on that loses a time, every
link that is not removed is reported as changed.
-/
import NctuSdn.Topology.LinkDiscovery

namespace NctuSdn

open List Finmap

open LinkDiscovery LinkDiscoveryManager

/-! ### The times of a link -/

namespace LinkDiscovery.LinkInfo

variable (curTime : BitVec 64) (info : LinkDiscovery.LinkInfo)

/-- The info without the times that run out. -/
def expireTimes : LinkDiscovery.LinkInfo where
  firstSeenTime := info.firstSeenTime
  lastLldpReceivedTime :=
    if timedOut info.lastLldpReceivedTime curTime then none else info.lastLldpReceivedTime
  lastBddpReceivedTime :=
    if timedOut info.lastBddpReceivedTime curTime then none else info.lastBddpReceivedTime

/-- One of the times runs out. -/
def expires : Bool :=
  timedOut info.lastLldpReceivedTime curTime || timedOut info.lastBddpReceivedTime curTime

/-- No time is left. -/
def lost : Bool :=
  (info.expireTimes curTime).lastLldpReceivedTime.isNone &&
    (info.expireTimes curTime).lastBddpReceivedTime.isNone

theorem getLinkType_of_lost (h : info.lost curTime = true) :
    (info.expireTimes curTime).getLinkType = .invalidLink := by
  unfold lost at h
  rw [Bool.and_eq_true, Option.isNone_iff_eq_none, Option.isNone_iff_eq_none] at h
  unfold getLinkType
  rw [if_neg (not_not.mpr h.1), if_neg (not_not.mpr h.2)]

end LinkDiscovery.LinkInfo

/-! ### The loop -/

abbrev LinkTable := Finmap fun _ : Link => LinkDiscovery.LinkInfo

/-- A time of the link runs out. -/
def linkExpires (links : LinkTable) (curTime : BitVec 64) (lt : Link) : Bool :=
  (links.lookup lt).any (LinkInfo.expires curTime)

/-- The link is left with no time. -/
def linkLost (links : LinkTable) (curTime : BitVec 64) (lt : Link) : Bool :=
  (links.lookup lt).any (LinkInfo.lost curTime)

/-- The update that says what a link is now. -/
def updatedNow (links : LinkTable) (curTime : BitVec 64) (lt : Link) : LDUpdate :=
  .linkUpdated lt
    (((links.lookup lt).map fun info => (info.expireTimes curTime).getLinkType).getD .invalidLink)

/-- The links from the first one on that loses a time. -/
def fromFirstExpired (links : LinkTable) (curTime : BitVec 64) (order : List Link) : List Link :=
  order.dropWhile fun lt => !linkExpires links curTime lt

/-- The loop of `timeoutLinks` after some of the links. -/
structure TimedOut (m : LinkDiscoveryManager) (curTime : BitVec 64) (done : List Link)
    (s : TimeoutState) : Prop where
  links : ∀ lt, s.links.lookup lt =
    if lt ∈ done then (m.links.lookup lt).map (LinkInfo.expireTimes curTime)
    else m.links.lookup lt
  updates : s.updates = m.updates ++
    ((fromFirstExpired m.links curTime done).filter fun lt => !linkLost m.links curTime lt).map
      (updatedNow m.links curTime)
  eraseList : s.eraseList = done.filter (linkLost m.links curTime)
  linkChanged : s.linkChanged = done.any (linkExpires m.links curTime)

variable {m : LinkDiscoveryManager} {curTime : BitVec 64}

/-- One link more. -/
theorem fromFirstExpired_append (links : LinkTable) (done : List Link) (lt : Link) :
    fromFirstExpired links curTime (done ++ [lt]) =
      fromFirstExpired links curTime done ++
        if done.any (linkExpires links curTime) || linkExpires links curTime lt then [lt]
        else [] := by
  unfold fromFirstExpired
  induction done with
  | nil => cases hlt : linkExpires links curTime lt <;> simp [hlt]
  | cons x done ih =>
    rw [cons_append]
    cases hx : linkExpires links curTime x with
    | true =>
      rw [dropWhile_cons_of_neg (by simp [hx]), dropWhile_cons_of_neg (by simp [hx])]
      simp [hx]
    | false =>
      rw [dropWhile_cons_of_pos (by simp [hx]), dropWhile_cons_of_pos (by simp [hx]),
        ih]
      simp [hx]

theorem timeoutLink_eq {s : TimeoutState} {lt : Link} {info : LinkDiscovery.LinkInfo}
    (hlookup : s.links.lookup lt = some info) :
    timeoutLink curTime s lt =
      ⟨s.links.insert lt (info.expireTimes curTime),
        if info.lost curTime then s.updates
        else if s.linkChanged || info.expires curTime then
          s.updates ++ [.linkUpdated lt (info.expireTimes curTime).getLinkType]
        else s.updates,
        if info.lost curTime then s.eraseList ++ [lt] else s.eraseList,
        s.linkChanged || info.expires curTime⟩ := by
  have hlost : info.lost curTime = true ↔
      (info.expireTimes curTime).lastLldpReceivedTime = none ∧
        (info.expireTimes curTime).lastBddpReceivedTime = none := by
    rw [LinkInfo.lost, Bool.and_eq_true, Option.isNone_iff_eq_none, Option.isNone_iff_eq_none]
  have hchanged : (s.linkChanged || timedOut info.lastLldpReceivedTime curTime ||
      timedOut info.lastBddpReceivedTime curTime) = (s.linkChanged || info.expires curTime) :=
    Bool.or_assoc _ _ _
  unfold timeoutLink
  rw [hlookup]
  by_cases hgone : info.lost curTime = true
  · -- a link that is to be removed is not reported here
    rw [if_pos hgone, if_pos hgone, ← hchanged]
    exact if_pos (hlost.mp hgone)
  · rw [if_neg hgone, if_neg hgone, ← hchanged]
    refine (if_neg (mt hlost.mpr hgone)).trans ?_
    cases hupdated : (s.linkChanged || timedOut info.lastLldpReceivedTime curTime ||
        timedOut info.lastBddpReceivedTime curTime)
    · rfl
    · rfl

/-- **One round of the loop.** -/
theorem TimedOut.step {done : List Link} {s : TimeoutState} (h : TimedOut m curTime done s)
    {lt : Link} (hnot : lt ∉ done) (hlt : lt ∈ m.links) :
    TimedOut m curTime (done ++ [lt]) (timeoutLink curTime s lt) := by
  obtain ⟨info, hinfo⟩ := mem_iff.mp hlt
  have hexpires : linkExpires m.links curTime lt = info.expires curTime := by
    rw [linkExpires, hinfo]
    rfl
  have hlost : linkLost m.links curTime lt = info.lost curTime := by
    rw [linkLost, hinfo]
    rfl
  have hupdate : updatedNow m.links curTime lt =
      .linkUpdated lt (info.expireTimes curTime).getLinkType := by
    rw [updatedNow, hinfo]
    rfl
  -- the link has not been changed by the rounds before
  have hlookup : s.links.lookup lt = some info := by rw [h.links, if_neg hnot, hinfo]
  rw [timeoutLink_eq hlookup]
  refine ⟨fun lt' => ?_, ?_, ?_, ?_⟩
  · dsimp only
    by_cases heq : lt' = lt
    · rw [heq, lookup_insert, if_pos (by simp), hinfo]
      rfl
    · rw [lookup_insert_of_ne _ heq, h.links]
      simp [heq]
  · dsimp only
    rw [fromFirstExpired_append, hexpires, ← h.linkChanged, filter_append, map_append,
      ← append_assoc, ← h.updates]
    cases hgone : info.lost curTime <;> cases hchanged : s.linkChanged || info.expires curTime <;>
      simp [hlost, hgone, hupdate]
  · dsimp only
    rw [filter_append, ← h.eraseList]
    cases hgone : info.lost curTime <;> simp [hlost, hgone]
  · dsimp only
    rw [any_append, any_cons, any_nil, Bool.or_false, hexpires, h.linkChanged]

/-- **The loop.** -/
theorem timedOut_loop (ord : DiscoveryOrders) (m : LinkDiscoveryManager) (curTime : BitVec 64) :
    TimedOut m curTime (ord.links.toList m.links.keys)
      ((ord.links.toList m.links.keys).foldl (timeoutLink curTime)
        ⟨m.links, m.updates, [], false⟩) := by
  refine foldl_rule (TimedOut m curTime) (fun done lt rest s hsplit hs => ?_) ?_
  · -- every link is visited once
    obtain ⟨hnot, hlt⟩ := ord.links.fresh hsplit
    exact hs.step hnot (mem_keys.mp hlt)
  · exact ⟨fun lt => rfl, (append_nil _).symm, rfl, rfl⟩

/-! ### The links that are removed -/

/-- **The removal of links that are left with no time.** -/
theorem deleteLinks_spec {dels : List Link} (hnodup : dels.Nodup)
    (hinvalid : ∀ lt ∈ dels, kindOf m.links lt = some .invalidLink) :
    ∃ m', deleteLinks m dels [] = some m' ∧
      m'.updates = m.updates ++ dels.map (fun lt => .linkRemoved lt .invalidLink) ∧
      ∀ lt, m'.links.lookup lt = if lt ∈ dels then none else m.links.lookup lt := by
  have hdels : ∀ lt ∈ dels, lt ∈ m.links := by
    intro lt hlt
    obtain ⟨info, hinfo, -⟩ := kindOf_eq_some.mp (hinvalid lt hlt)
    exact mem_of_lookup_eq_some hinfo
  have hremoval : dels.map (removal m.links) =
      dels.map fun lt => .linkRemoved lt .invalidLink := by
    refine map_congr_left fun lt hlt => ?_
    rw [removal, hinvalid lt hlt]
    rfl
  obtain ⟨m', hdeleted, heq⟩ := deleteLinks_deleted hnodup hdels []
  refine ⟨_, heq, ?_, hdeleted.links⟩
  rw [hremoval, append_nil]

/-! ### What is reported -/

/-- The links that are left with no time are gone, and the new updates are one for each
link that has changed and one for each that is gone. -/
structure ReportsTimeouts (m : LinkDiscoveryManager) (curTime : BitVec 64)
    (m' : LinkDiscoveryManager) : Prop where
  links : ∀ lt, m'.links.lookup lt = (m.links.lookup lt).bind fun info =>
    if info.lost curTime then none else some (info.expireTimes curTime)
  updates : ∃ new, m'.updates = m.updates ++ new ∧ new.Nodup ∧
    ∀ u, u ∈ new ↔ ∃ lt info, m.links.lookup lt = some info ∧
      (info.lost curTime = false ∧ info.expires curTime = true ∧
          u = .linkUpdated lt (info.expireTimes curTime).getLinkType ∨
        info.lost curTime = true ∧ u = .linkRemoved lt .invalidLink)

/-- From the first link on that loses a time, in the order of iteration, every link that
is not removed loses one. -/
def OnlyChangesFollow (ord : DiscoveryOrders) (m : LinkDiscoveryManager) (curTime : BitVec 64) :
    Prop :=
  ∀ lt ∈ fromFirstExpired m.links curTime (ord.links.toList m.links.keys),
    linkLost m.links curTime lt = false → linkExpires m.links curTime lt = true

section Finished

variable {order : List Link} {s : TimeoutState} (h : TimedOut m curTime order s)
  (hkeys : ∀ lt info, m.links.lookup lt = some info → lt ∈ order)
include h hkeys

/-- After all links the list has those that are left with no time. -/
theorem TimedOut.mem_eraseList_iff (lt : Link) :
    lt ∈ s.eraseList ↔ ∃ info, m.links.lookup lt = some info ∧ info.lost curTime = true := by
  rw [h.eraseList, mem_filter, linkLost, Option.any_eq_true]
  refine and_iff_right_of_imp ?_
  rintro ⟨info, hinfo, -⟩
  exact hkeys lt info hinfo

theorem TimedOut.lookup_eq (lt : Link) :
    s.links.lookup lt = (m.links.lookup lt).map (LinkInfo.expireTimes curTime) := by
  rw [h.links]
  cases hinfo : m.links.lookup lt with
  | none => rw [Option.map_none, ite_self]
  | some info => rw [if_pos (hkeys lt info hinfo)]

end Finished

/-- **What `timeoutLinks` does.** -/
theorem timeoutLinks_spec (ord : DiscoveryOrders) (m : LinkDiscoveryManager) (curTime : BitVec 64) :
    ∃ m', timeoutLinks ord m curTime = some m' ∧
      (∀ lt, m'.links.lookup lt = (m.links.lookup lt).bind fun info =>
        if info.lost curTime then none else some (info.expireTimes curTime)) ∧
      m'.updates = m.updates ++
        (((fromFirstExpired m.links curTime (ord.links.toList m.links.keys)).filter
            fun lt => !linkLost m.links curTime lt).map (updatedNow m.links curTime) ++
          ((ord.links.toList m.links.keys).filter (linkLost m.links curTime)).map
            fun lt => .linkRemoved lt .invalidLink) := by
  have hloop := timedOut_loop ord m curTime
  have hnodup := ord.links.nodup m.links.keys
  have hkeys : ∀ lt info, m.links.lookup lt = some info → lt ∈ ord.links.toList m.links.keys := by
    intro lt info hinfo
    rw [ord.links.mem_toList, Finmap.mem_keys]
    exact mem_of_lookup_eq_some hinfo
  unfold timeoutLinks
  generalize ord.links.toList m.links.keys = order at hloop hkeys hnodup ⊢
  generalize order.foldl (timeoutLink curTime) ⟨m.links, m.updates, [], false⟩ = s at hloop ⊢
  have hlost := hloop.mem_eraseList_iff hkeys
  have hlookup := hloop.lookup_eq hkeys
  have hinvalid : ∀ lt ∈ s.eraseList, kindOf s.links lt = some .invalidLink := by
    intro lt hlt
    obtain ⟨info, hinfo, hgone⟩ := (hlost lt).mp hlt
    rw [kindOf, hlookup, hinfo]
    exact congrArg some (info.getLinkType_of_lost curTime hgone)
  obtain ⟨m', hdelete, hupdates, hlinks⟩ :=
    @deleteLinks_spec { m with links := s.links, updates := s.updates } s.eraseList
      (hloop.eraseList ▸ hnodup.filter _) hinvalid
  refine ⟨m', ?_, fun lt => ?_, ?_⟩
  · dsimp only
    split_ifs with hany
    · exact hdelete
    · -- there is nothing to delete
      have herase : s.eraseList = [] := by
        rw [not_or, not_lt, Nat.le_zero, length_eq_zero_iff] at hany
        exact hany.1
      rw [← hdelete, herase]
      simp [deleteLinks]
  · rw [hlinks]
    rw [hlookup]
    cases hinfo : m.links.lookup lt with
    | none => rw [Option.map_none, ite_self]; rfl
    | some info =>
      have hmem : lt ∈ s.eraseList ↔ info.lost curTime = true := by
        rw [hlost, hinfo]
        simp
      simp only [hmem, Option.map_some, Option.bind_some]
  · rw [hupdates]
    rw [hloop.updates, hloop.eraseList, append_assoc]

theorem mem_fromFirstExpired {links : LinkTable} {order : List Link} {lt : Link}
    (hlt : lt ∈ order) (hexpires : linkExpires links curTime lt = true) :
    lt ∈ fromFirstExpired links curTime order := by
  rw [← takeWhile_append_dropWhile (p := fun lt => !linkExpires links curTime lt)
    (l := order), mem_append] at hlt
  refine hlt.resolve_left fun hbefore => ?_
  have hnot := all_eq_true.mp all_takeWhile lt hbefore
  rw [hexpires] at hnot
  cases hnot

theorem fromFirstExpired_sublist (links : LinkTable) (order : List Link) :
    (fromFirstExpired links curTime order).Sublist order :=
  dropWhile_sublist _

/-- The updates to expect, by the links of the table. -/
theorem expected_iff (ord : DiscoveryOrders) (u : LDUpdate) :
    (∃ lt info, m.links.lookup lt = some info ∧
      (info.lost curTime = false ∧ info.expires curTime = true ∧
          u = .linkUpdated lt (info.expireTimes curTime).getLinkType ∨
        info.lost curTime = true ∧ u = .linkRemoved lt .invalidLink)) ↔
    ∃ lt ∈ ord.links.toList m.links.keys,
      linkLost m.links curTime lt = false ∧ linkExpires m.links curTime lt = true ∧
          u = updatedNow m.links curTime lt ∨
        linkLost m.links curTime lt = true ∧ u = .linkRemoved lt .invalidLink := by
  have hlink : ∀ {lt info}, m.links.lookup lt = some info →
      linkLost m.links curTime lt = info.lost curTime ∧
      linkExpires m.links curTime lt = info.expires curTime ∧
      updatedNow m.links curTime lt =
        .linkUpdated lt (info.expireTimes curTime).getLinkType := by
    intro lt info hinfo
    rw [linkLost, linkExpires, updatedNow, hinfo]
    exact ⟨rfl, rfl, rfl⟩
  refine exists_congr fun lt => ?_
  rw [ord.links.mem_toList, Finmap.mem_keys, mem_iff]
  constructor
  · rintro ⟨info, hinfo, hu⟩
    obtain ⟨hlost, hexpires, hupdate⟩ := hlink hinfo
    rw [hlost, hexpires, hupdate]
    exact ⟨⟨info, hinfo⟩, hu⟩
  · rintro ⟨⟨info, hinfo⟩, hu⟩
    obtain ⟨hlost, hexpires, hupdate⟩ := hlink hinfo
    rw [hlost, hexpires, hupdate] at hu
    exact ⟨info, hinfo, hu⟩

/-- What is reported as changed has to change. -/
theorem onlyChangesFollow_of_reports {ord : DiscoveryOrders} {m m' : LinkDiscoveryManager}
    (hm' : timeoutLinks ord m curTime = some m') (h : ReportsTimeouts m curTime m') :
    OnlyChangesFollow ord m curTime := by
  obtain ⟨m'', hm'', -, hupdates⟩ := timeoutLinks_spec ord m curTime
  obtain rfl : m' = m'' := Option.some.inj (hm'.symm.trans hm'')
  obtain ⟨new, hnew, -, hmem⟩ := h.updates
  rw [hupdates, append_cancel_left_eq] at hnew
  intro lt hlt hkept
  have hqueued : updatedNow m.links curTime lt ∈ new := by
    rw [← hnew]
    refine mem_append_left _ (mem_map_of_mem (mem_filter.mpr ⟨hlt, ?_⟩))
    rw [hkept]
    rfl
  -- only a link that loses a time accounts for the update
  obtain ⟨lt', -, ⟨-, hexpires, heq⟩ | ⟨-, heq⟩⟩ :=
    (expected_iff ord _).mp ((hmem _).mp hqueued)
  · obtain rfl : lt = lt' := (LDUpdate.linkUpdated.inj heq).1
    exact hexpires
  · cases heq

/-- If only changes follow, what is queued is what is expected. -/
theorem reports_of_onlyChangesFollow {ord : DiscoveryOrders}
    (hfollow : OnlyChangesFollow ord m curTime) :
    ∃ m', timeoutLinks ord m curTime = some m' ∧ ReportsTimeouts m curTime m' := by
  obtain ⟨m', hm', hlinks, hupdates⟩ := timeoutLinks_spec ord m curTime
  have hnodup := ord.links.nodup m.links.keys
  refine ⟨m', hm', hlinks, _, hupdates, ?_, fun u => ?_⟩
  · refine nodup_append.mpr ⟨?_, ?_, ?_⟩
    · refine List.Nodup.map (fun lt lt' heq => (LDUpdate.linkUpdated.inj heq).1) ?_
      exact ((hnodup.sublist (fromFirstExpired_sublist m.links _)).filter _)
    · exact List.Nodup.map (fun lt lt' heq => (LDUpdate.linkRemoved.inj heq).1) (hnodup.filter _)
    · -- the two parts are of different kinds
      intro u hu u' hu' heq
      obtain ⟨lt, -, rfl⟩ := mem_map.mp hu
      obtain ⟨lt', -, rfl⟩ := mem_map.mp hu'
      cases heq
  · rw [expected_iff ord, mem_append, mem_map, mem_map]
    constructor
    · rintro (⟨lt, hlt, rfl⟩ | ⟨lt, hlt, rfl⟩)
      · obtain ⟨hlt, hkept⟩ := mem_filter.mp hlt
        rw [Bool.not_eq_true'] at hkept
        exact ⟨lt, (fromFirstExpired_sublist m.links _).subset hlt,
          .inl ⟨hkept, hfollow lt hlt hkept, rfl⟩⟩
      · obtain ⟨hlt, hgone⟩ := mem_filter.mp hlt
        exact ⟨lt, hlt, .inr ⟨hgone, rfl⟩⟩
    · rintro ⟨lt, hlt, ⟨hkept, hexpires, rfl⟩ | ⟨hgone, rfl⟩⟩
      · refine .inl ⟨lt, mem_filter.mpr ⟨mem_fromFirstExpired hlt hexpires, ?_⟩, rfl⟩
        rw [hkept]
        rfl
      · exact .inr ⟨lt, mem_filter.mpr ⟨hlt, hgone⟩, rfl⟩

/-- **Timeouts report exactly the changes** iff only changes follow the first one. -/
theorem timeouts_reported_iff (ord : DiscoveryOrders) (m : LinkDiscoveryManager)
    (curTime : BitVec 64) :
    (∃ m', timeoutLinks ord m curTime = some m' ∧ ReportsTimeouts m curTime m') ↔
      OnlyChangesFollow ord m curTime := by
  constructor
  · rintro ⟨m', hm', hreports⟩
    exact onlyChangesFollow_of_reports hm' hreports
  · exact reports_of_onlyChangesFollow

/-- A link that is still seen by multicast frames, but no longer by unicast ones. -/
def fadingLink : Link := ⟨1, 1, 2, 1⟩

/-- A link that is seen all the time. -/
def steadyLink : Link := ⟨3, 1, 4, 1⟩

/-- Discovery knows the two links. -/
def fadingAndSteady : LinkDiscoveryManager :=
  { LinkDiscoveryManager.empty with
    links := ((∅ : LinkTable).insert fadingLink ⟨0, some 0, some 40000⟩).insert steadyLink
      ⟨0, some 40000, none⟩ }

/-- The link that is seen all the time comes second. -/
noncomputable def fadingFirst : DiscoveryOrders where
  links := candidateOrder [fadingLink, steadyLink]
  switchLinks := fun _ => anyOrder Link
  portLinks := fun _ => anyOrder Link

/-- It is reported as changed, too. -/
theorem steady_link_reported :
    ¬ ∃ m', timeoutLinks fadingFirst fadingAndSteady 40000 = some m' ∧
      ReportsTimeouts fadingAndSteady 40000 m' := by
  rintro ⟨m', hm', hreports⟩
  have hexpires := onlyChangesFollow_of_reports hm' hreports steadyLink (by decide +kernel)
    (by decide +kernel)
  exact absurd hexpires (by decide +kernel)

end NctuSdn
