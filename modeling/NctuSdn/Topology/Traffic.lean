/-
Traffic accounting of `TopologyManager` (`addTraffic`, `removeTraffic`,
`updateTraffic`, `resetTraffic`).

Two maps are kept per outgoing port: the matches that are forwarded through
it (`linkMatch`) and, for each of the three priorities, how many there are
(`traffic`).  The first decides whether a call counts, the second is changed
at the priority the call carries.
-/
import Mathlib.Algebra.BigOperators.Fin
import NctuSdn.OpenFlow.Match
import NctuSdn.Topology.Link

namespace NctuSdn

open Finset Option Function

/-! ### State and calls -/

/-- `Map<Integer,Integer>` with the keys 0, 1 and 2, which `addTraffic` puts
in when it makes the map. -/
abbrev LinkInfo := Fin 3 → ℤ

/-- The keys of a `LinkInfo`; `get` of anything else is null. -/
def priorityIndex (priority : ℤ) : Option (Fin 3) :=
  if h : 0 ≤ priority ∧ priority < 3 then some ⟨priority.toNat, by omega⟩ else none

/-- The two maps.  Absent keys are `none`. -/
structure TrafficState where
  linkMatch : Link → Option (Finset OFMatch)
  traffic : Link → Option LinkInfo

/-- Traffic is accounted to the near end of a link. -/
def linkKey (sw : SwitchId) (port : Port) : Link := ⟨sw, port, 0, 0⟩

namespace TrafficState

/-- `resetTraffic`, as far as the two maps are concerned. -/
def resetTraffic : TrafficState := ⟨fun _ => none, fun _ => none⟩

def updateTraffic (s : TrafficState) (l : Link) (linkInfo : LinkInfo) (p : Fin 3) (c : ℤ) :
    TrafficState where
  linkMatch := s.linkMatch
  traffic := Function.update s.traffic l
    (some (Function.update linkInfo p (if c < 0 then 0 else c)))

/-- The second half of `addTraffic`: count a match that is new on the link. -/
def countMatch (s : TrafficState) (l : Link) (priority : ℤ) :
    TrafficState × Except JavaException Unit :=
  match s.traffic l with
  | some linkInfo =>
    match priorityIndex priority with
    | some p => (s.updateTraffic l linkInfo p (linkInfo p + 1), .ok ())
    | none => (s, .error .nullPointer)
  | none =>
    let linkInfo : LinkInfo := fun p => if (p : ℤ) = priority then 1 else 0
    ({ s with traffic := Function.update s.traffic l (some linkInfo) }, .ok ())

/-- Account a match to a port, unless it already is. -/
def addTraffic (s : TrafficState) (sw : SwitchId) (port : Port) (priority : ℤ) (m : OFMatch) :
    TrafficState × Except JavaException Unit :=
  let l := linkKey sw port
  match s.linkMatch l with
  | some set =>
    if m ∈ set then (s, .ok ())
    else
      { s with linkMatch := Function.update s.linkMatch l (some (insert m set)) }.countMatch
        l priority
  | none =>
    { s with linkMatch := Function.update s.linkMatch l (some {m}) }.countMatch l priority

/-- Take a match off a port, if it is there; the flag says whether it was, in
which case the topology is refreshed.  The match is removed before the counter
is read. -/
def removeTraffic (s : TrafficState) (sw : SwitchId) (port : Port) (priority : ℤ)
    (mOri : OFMatch) : TrafficState × Except JavaException Bool :=
  let m := mOri.setWildcards 0
  let l := linkKey sw port
  match s.traffic l, s.linkMatch l with
  | some linkInfo, some set =>
    if m ∈ set then
      let s' := { s with linkMatch := Function.update s.linkMatch l (some (set.erase m)) }
      match priorityIndex priority with
      | some p => (s'.updateTraffic l linkInfo p (linkInfo p - 1), .ok true)
      | none => (s', .error .nullPointer)
    else (s, .ok false)
  | _, _ => (s, .ok false)

/-- The matches accounted to a link; an absent entry is empty. -/
def matchesOf (s : TrafficState) (l : Link) : Finset OFMatch := (s.linkMatch l).getD ∅

/-- A counter; an absent entry is zero. -/
def countOf (s : TrafficState) (l : Link) (p : Fin 3) : ℤ := ((s.traffic l).map (· p)).getD 0

/-! ### What one call does -/

variable (s : TrafficState) (sw : SwitchId) (port : Port) (priority : ℤ) (m : OFMatch)

theorem countOf_updateTraffic {l : Link} {linkInfo : LinkInfo} (h : s.traffic l = some linkInfo)
    (p : Fin 3) (c : ℤ) (l' : Link) (p' : Fin 3) :
    (s.updateTraffic l linkInfo p c).countOf l' p' =
      if l' = l ∧ p' = p then max c 0 else s.countOf l' p' := by
  unfold updateTraffic countOf
  rcases eq_or_ne l' l with rfl | hl
  · rcases eq_or_ne p' p with rfl | hp
    · simp only [update_self, map_some, getD_some, and_self, if_true]
      split <;> omega
    · simp [h, hp]
  · simp [hl]

theorem matchesOf_countMatch (l l' : Link) :
    (s.countMatch l priority).1.matchesOf l' = s.matchesOf l' := by
  unfold countMatch
  split
  · split <;> rfl
  · rfl

theorem countOf_countMatch {p : Fin 3} (hp : priorityIndex priority = some p) (l l' : Link)
    (p' : Fin 3) :
    (s.countMatch l priority).1.countOf l' p' =
      if l' = l ∧ p' = p then max (s.countOf l p + 1) 0 else s.countOf l' p' := by
  unfold countMatch
  cases htraffic : s.traffic l with
  | some linkInfo =>
    have hcount : s.countOf l p = linkInfo p := by simp [countOf, htraffic]
    rw [hp, hcount]
    exact countOf_updateTraffic s htraffic p _ l' p'
  | none =>
    -- a new row of counters is zero but for the priority of the call
    have hcount : ∀ p, s.countOf l p = 0 := by simp [countOf, htraffic]
    have hindex : (p' : ℤ) = priority ↔ p' = p := by
      unfold priorityIndex at hp
      split at hp
      · cases hp
        rw [Fin.ext_iff]
        dsimp only
        omega
      · cases hp
    rcases eq_or_ne l' l with rfl | hl
    · rw [hcount, hcount]
      simp [countOf, hindex]
    · simp [countOf, hl]

theorem traffic_countMatch_eq_none_iff (l l' : Link) :
    (s.countMatch l priority).1.traffic l' = none ↔ l' ≠ l ∧ s.traffic l' = none := by
  unfold countMatch
  cases htraffic : s.traffic l with
  | some linkInfo =>
    dsimp only
    rcases eq_or_ne l' l with rfl | hl
    · split <;> simp [updateTraffic, htraffic]
    · split <;> simp [updateTraffic, hl]
  | none =>
    rcases eq_or_ne l' l with rfl | hl
    · simp
    · simp [hl]

/-- The state in which a new match is noted but not counted yet. -/
def note (s : TrafficState) (l : Link) (m : OFMatch) : TrafficState :=
  { s with linkMatch := Function.update s.linkMatch l (some (insert m (s.matchesOf l))) }

theorem matchesOf_note (l l' : Link) :
    (s.note l m).matchesOf l' = if l' = l then insert m (s.matchesOf l') else s.matchesOf l' := by
  rcases eq_or_ne l' l with rfl | hl
  · simp [note, matchesOf]
  · simp [note, matchesOf, hl]

/-- A call with an accounted match does nothing; any other notes the match and
counts it. -/
theorem addTraffic_cases :
    (m ∈ s.matchesOf (linkKey sw port) ∧ s.addTraffic sw port priority m = (s, .ok ())) ∨
    (m ∉ s.matchesOf (linkKey sw port) ∧ s.addTraffic sw port priority m =
      (s.note (linkKey sw port) m).countMatch (linkKey sw port) priority) := by
  unfold addTraffic note
  dsimp only
  cases hset : s.linkMatch (linkKey sw port) with
  | none =>
    have hmatches : s.matchesOf (linkKey sw port) = ∅ := by simp [matchesOf, hset]
    rw [hmatches]
    exact .inr ⟨notMem_empty m, rfl⟩
  | some set =>
    have hmatches : s.matchesOf (linkKey sw port) = set := by simp [matchesOf, hset]
    rw [hmatches]
    by_cases hm : m ∈ set
    · exact .inl ⟨hm, if_pos hm⟩
    · exact .inr ⟨hm, if_neg hm⟩

theorem matchesOf_addTraffic (l : Link) :
    (s.addTraffic sw port priority m).1.matchesOf l =
      if l = linkKey sw port then insert m (s.matchesOf l) else s.matchesOf l := by
  rcases addTraffic_cases s sw port priority m with ⟨hm, heq⟩ | ⟨-, heq⟩
  · rw [heq]
    split
    next hl => rw [hl, insert_eq_of_mem hm]
    next => rfl
  · rw [heq, matchesOf_countMatch, matchesOf_note]

theorem countOf_addTraffic {p : Fin 3} (hp : priorityIndex priority = some p) (l : Link)
    (p' : Fin 3) :
    (s.addTraffic sw port priority m).1.countOf l p' =
      if l = linkKey sw port ∧ p' = p ∧ m ∉ s.matchesOf (linkKey sw port)
      then max (s.countOf l p + 1) 0 else s.countOf l p' := by
  rcases addTraffic_cases s sw port priority m with ⟨hm, heq⟩ | ⟨hm, heq⟩
  · rw [heq, if_neg fun hc => hc.2.2 hm]
  · rw [heq, countOf_countMatch _ _ hp]
    simp only [hm, not_false_eq_true, and_true]
    split
    next hl =>
      rw [hl.1]
      rfl
    next => rfl

theorem traffic_addTraffic_eq_none_iff (l : Link) :
    (s.addTraffic sw port priority m).1.traffic l = none ↔
      s.traffic l = none ∧ ¬ (l = linkKey sw port ∧ m ∉ s.matchesOf (linkKey sw port)) := by
  rcases addTraffic_cases s sw port priority m with ⟨hm, heq⟩ | ⟨hm, heq⟩
  · rw [heq]
    simp [hm]
  · rw [heq, traffic_countMatch_eq_none_iff]
    simp only [hm, not_false_eq_true, and_true]
    exact and_comm

theorem removeTraffic_cases :
    let m' := m.setWildcards 0
    (s.removeTraffic sw port priority m = (s, .ok false) ∧
      (s.traffic (linkKey sw port) = none ∨ m' ∉ s.matchesOf (linkKey sw port))) ∨
    ∃ linkInfo set, s.traffic (linkKey sw port) = some linkInfo ∧
      s.linkMatch (linkKey sw port) = some set ∧ m' ∈ set ∧
      s.removeTraffic sw port priority m =
        (let s' := { s with
          linkMatch := update s.linkMatch (linkKey sw port) (some (set.erase m')) }
        match priorityIndex priority with
        | some p => (s'.updateTraffic (linkKey sw port) linkInfo p (linkInfo p - 1), .ok true)
        | none => (s', .error .nullPointer)) := by
  unfold removeTraffic
  dsimp only
  cases htraffic : s.traffic (linkKey sw port) with
  | none => exact .inl ⟨rfl, .inl rfl⟩
  | some linkInfo =>
    cases hset : s.linkMatch (linkKey sw port) with
    | none => exact .inl ⟨rfl, .inr (by simp [matchesOf, hset])⟩
    | some set =>
      by_cases hm : m.setWildcards 0 ∈ set
      · exact .inr ⟨linkInfo, set, rfl, rfl, hm, if_pos hm⟩
      · exact .inl ⟨if_neg hm, .inr (by simpa [matchesOf, hset] using hm)⟩

theorem matchesOf_removeTraffic (l : Link) :
    (s.removeTraffic sw port priority m).1.matchesOf l =
      if l = linkKey sw port ∧ s.traffic l ≠ none
      then (s.matchesOf l).erase (m.setWildcards 0) else s.matchesOf l := by
  rcases removeTraffic_cases s sw port priority m with ⟨heq, hnot⟩ |
    ⟨linkInfo, set, htraffic, hset, -, heq⟩
  · rw [heq]
    split
    next hl =>
      obtain ⟨rfl, hne⟩ := hl
      rw [erase_eq_of_notMem (hnot.resolve_left hne)]
    next => rfl
  · have hstate : ∀ l', (s.removeTraffic sw port priority m).1.linkMatch l' =
        update s.linkMatch (linkKey sw port)
          (some (set.erase (m.setWildcards 0))) l' := by
      intro l'
      rw [heq]
      split <;> rfl
    unfold matchesOf
    rw [hstate]
    rcases eq_or_ne l (linkKey sw port) with rfl | hl
    · simp [htraffic, hset]
    · simp [hl]

/-- The counter of the call's priority goes down by one, but not below zero,
if the match was accounted. -/
theorem countOf_removeTraffic {p : Fin 3} (hp : priorityIndex priority = some p) (l : Link)
    (p' : Fin 3) :
    (s.removeTraffic sw port priority m).1.countOf l p' =
      if l = linkKey sw port ∧ p' = p ∧ s.traffic l ≠ none ∧
        m.setWildcards 0 ∈ s.matchesOf l
      then max (s.countOf l p - 1) 0 else s.countOf l p' := by
  rcases removeTraffic_cases s sw port priority m with ⟨heq, hnot⟩ |
    ⟨linkInfo, set, htraffic, hset, hm, heq⟩
  · rw [heq, if_neg]
    rintro ⟨rfl, -, hne, hm⟩
    exact hnot.elim hne fun hm' => hm' hm
  · have hmatches : s.matchesOf (linkKey sw port) = set := by simp [matchesOf, hset]
    have hcount : s.countOf (linkKey sw port) p = linkInfo p := by simp [countOf, htraffic]
    rw [heq]
    rw [hp]
    refine (countOf_updateTraffic { s with linkMatch := _ } htraffic p _ l p').trans ?_
    rcases eq_or_ne l (linkKey sw port) with rfl | hl
    · simp only [true_and, htraffic, hmatches, hm, hcount, ne_eq, reduceCtorEq,
        not_false_eq_true, and_true]
    · simp only [hl, false_and, if_false]

theorem countOf_removeTraffic_of_none (hp : priorityIndex priority = none) (l : Link) (p' : Fin 3) :
    (s.removeTraffic sw port priority m).1.countOf l p' = s.countOf l p' := by
  rcases removeTraffic_cases s sw port priority m with ⟨heq, -⟩ | ⟨_, _, -, -, -, heq⟩
  · rw [heq]
  · rw [heq]
    rw [hp]
    rfl

theorem traffic_removeTraffic_eq_none_iff (l : Link) :
    (s.removeTraffic sw port priority m).1.traffic l = none ↔ s.traffic l = none := by
  rcases removeTraffic_cases s sw port priority m with ⟨heq, -⟩ |
    ⟨linkInfo, set, htraffic, -, -, heq⟩
  · rw [heq]
  · rw [heq]
    split
    · rcases eq_or_ne l (linkKey sw port) with rfl | hl
      · simp [updateTraffic, htraffic]
      · simp [updateTraffic, hl]
    · exact Iff.rfl

end TrafficState

/-! ### Counters have zero as lower bound -/

namespace TrafficState

def NonNegative (s : TrafficState) : Prop := ∀ l p, 0 ≤ s.countOf l p

variable {s : TrafficState}

theorem nonNegative_resetTraffic : resetTraffic.NonNegative := fun _ _ => le_refl _

theorem NonNegative.countMatch (h : s.NonNegative) (l : Link) (priority : ℤ) :
    (s.countMatch l priority).1.NonNegative := by
  intro l' p'
  unfold TrafficState.countMatch
  split
  next linkInfo htraffic =>
    split
    next p _ =>
      rw [countOf_updateTraffic s htraffic]
      split
      · exact le_max_right _ _
      · exact h l' p'
    next => exact h l' p'
  next htraffic =>
    rcases eq_or_ne l' l with rfl | hl
    · simp only [countOf, update_self, map_some, getD_some]
      split <;> omega
    · simpa [countOf, hl] using h l' p'

theorem NonNegative.addTraffic (h : s.NonNegative) (sw : SwitchId) (port : Port) (priority : ℤ)
    (m : OFMatch) : (s.addTraffic sw port priority m).1.NonNegative := by
  rcases addTraffic_cases s sw port priority m with ⟨-, heq⟩ | ⟨-, heq⟩
  · rw [heq]
    exact h
  · rw [heq]
    have hnote : (s.note (linkKey sw port) m).NonNegative := h
    exact hnote.countMatch _ _

theorem NonNegative.removeTraffic (h : s.NonNegative) (sw : SwitchId) (port : Port)
    (priority : ℤ) (m : OFMatch) : (s.removeTraffic sw port priority m).1.NonNegative := by
  intro l p'
  cases hp : priorityIndex priority with
  | none =>
    rw [countOf_removeTraffic_of_none _ _ _ _ _ hp]
    exact h l p'
  | some p =>
    rw [countOf_removeTraffic _ _ _ _ _ hp]
    split
    · exact le_max_right _ _
    · exact h l p'

end TrafficState

/-! ### The account of one link -/

/-- What the two maps say about a link. -/
@[ext] structure LinkAccount where
  accounted : Finset OFMatch
  counts : Fin 3 → ℤ
  tracked : Bool

namespace LinkAccount

def add (a : LinkAccount) (p : Fin 3) (m : OFMatch) : LinkAccount where
  accounted := insert m a.accounted
  counts :=
    if m ∈ a.accounted then a.counts else Function.update a.counts p (max (a.counts p + 1) 0)
  tracked := a.tracked || decide (m ∉ a.accounted)

/-- A match is taken off; without a priority no counter is lowered. -/
def remove (a : LinkAccount) (p : Option (Fin 3)) (m : OFMatch) : LinkAccount where
  accounted := if a.tracked then a.accounted.erase m else a.accounted
  counts := fun p' =>
    if p = some p' ∧ a.tracked ∧ m ∈ a.accounted then max (a.counts p' - 1) 0 else a.counts p'
  tracked := a.tracked

def Same (a b : LinkAccount) : Prop := a.accounted = b.accounted ∧ a.counts = b.counts

variable {a : LinkAccount} {m m' : OFMatch} {p : Fin 3} {q : Option (Fin 3)}

/-- A removal undoes the addition of a new match exactly if it names that
match and its priority. -/
theorem remove_add_same_iff (hnew : m ∉ a.accounted) (hcounts : ∀ p, 0 ≤ a.counts p) :
    ((a.add p m).remove q m').Same a ↔ m' = m ∧ q = some p := by
  have htracked : (a.add p m).tracked = true := by simp [add, hnew]
  have haccounted : ((a.add p m).remove q m').accounted = (insert m a.accounted).erase m' :=
    if_pos htracked
  have hcounts_add : (a.add p m).counts = update a.counts p (a.counts p + 1) := by
    have hpos : 0 ≤ a.counts p + 1 := by have := hcounts p; omega
    simp [add, hnew, max_eq_left hpos]
  constructor
  · rintro ⟨hsame, hcount⟩
    -- another match would leave `m` accounted, another priority its counter raised
    have hm' : m' = m := by
      by_contra hne
      apply hnew
      rw [← hsame, haccounted]
      exact mem_erase.mpr ⟨Ne.symm hne, mem_insert_self _ _⟩
    refine ⟨hm', ?_⟩
    by_contra hq
    have hp := congrFun hcount p
    unfold remove at hp
    dsimp only at hp
    rw [if_neg fun hc => hq hc.1, hcounts_add, update_self] at hp
    omega
  · rintro ⟨rfl, rfl⟩
    refine ⟨by rw [haccounted, erase_insert hnew], ?_⟩
    funext p'
    have hmem : m' ∈ (a.add p m').accounted := mem_insert_self _ _
    unfold remove
    dsimp only
    rw [hcounts_add]
    rcases eq_or_ne p p' with rfl | hne
    · rw [if_pos ⟨rfl, htracked, hmem⟩, update_self]
      have := hcounts p
      omega
    · rw [if_neg fun hc => hne (some.inj hc.1), update_of_ne hne.symm]

theorem remove_same_iff : (a.remove q m).Same a ↔ (a.tracked = true → m ∉ a.accounted) := by
  constructor
  · rintro ⟨hsame, -⟩ htracked hm
    have haccounted : (a.remove q m).accounted = a.accounted.erase m := if_pos htracked
    rw [← hsame, haccounted] at hm
    exact notMem_erase m a.accounted hm
  · intro hnot
    refine ⟨?_, ?_⟩
    · show (if a.tracked then a.accounted.erase m else a.accounted) = _
      split
      next htracked => exact erase_eq_of_notMem (hnot htracked)
      next => rfl
    · funext p'
      exact if_neg fun hc => hnot hc.2.1 hc.2.2

end LinkAccount

namespace TrafficState

def accountOf (s : TrafficState) (l : Link) : LinkAccount :=
  ⟨s.matchesOf l, s.countOf l, (s.traffic l).isSome⟩

theorem accountOf_addTraffic (s : TrafficState) (sw : SwitchId) (port : Port) {priority : ℤ}
    {p : Fin 3} (hp : priorityIndex priority = some p) (m : OFMatch) (l : Link) :
    (s.addTraffic sw port priority m).1.accountOf l =
      if l = linkKey sw port then (s.accountOf l).add p m else s.accountOf l := by
  have hmatches := matchesOf_addTraffic s sw port priority m l
  have hcount := countOf_addTraffic s sw port priority m hp l
  have hnone := traffic_addTraffic_eq_none_iff s sw port priority m l
  rcases eq_or_ne l (linkKey sw port) with rfl | hl
  · rw [if_pos rfl]
    rw [if_pos rfl] at hmatches
    ext x
    · exact Finset.ext_iff.mp hmatches x
    · refine (hcount x).trans ?_
      by_cases hm : m ∈ s.matchesOf (linkKey sw port)
      · simp [LinkAccount.add, accountOf, hm]
      · simp [LinkAccount.add, accountOf, hm, update_apply]
    · rw [Bool.eq_iff_iff]
      by_cases hm : m ∈ s.matchesOf (linkKey sw port)
      · simp [accountOf, LinkAccount.add, isSome_iff_ne_none, hnone, hm]
      · simp [accountOf, LinkAccount.add, isSome_iff_ne_none, hnone, hm]
  · rw [if_neg hl]
    rw [if_neg hl] at hmatches
    ext x
    · exact Finset.ext_iff.mp hmatches x
    · exact (hcount x).trans (if_neg fun hc => hl hc.1)
    · rw [Bool.eq_iff_iff]
      simp only [accountOf, isSome_iff_ne_none, ne_eq, hnone]
      tauto

theorem accountOf_removeTraffic (s : TrafficState) (sw : SwitchId) (port : Port) (priority : ℤ)
    (m : OFMatch) (l : Link) :
    (s.removeTraffic sw port priority m).1.accountOf l =
      if l = linkKey sw port then (s.accountOf l).remove (priorityIndex priority) (m.setWildcards 0)
      else s.accountOf l := by
  have hmatches := matchesOf_removeTraffic s sw port priority m l
  have htracked : ((s.removeTraffic sw port priority m).1.traffic l).isSome =
      (s.traffic l).isSome := by
    rw [Bool.eq_iff_iff, isSome_iff_ne_none, isSome_iff_ne_none, ne_eq,
      traffic_removeTraffic_eq_none_iff]
  have hcount : ∀ p', (s.removeTraffic sw port priority m).1.countOf l p' =
      if l = linkKey sw port ∧ priorityIndex priority = some p' ∧ s.traffic l ≠ none ∧
        m.setWildcards 0 ∈ s.matchesOf l
      then max (s.countOf l p' - 1) 0 else s.countOf l p' := by
    intro p'
    cases hp : priorityIndex priority with
    | none => simp [countOf_removeTraffic_of_none s sw port priority m hp]
    | some p =>
      rw [countOf_removeTraffic s sw port priority m hp]
      rcases eq_or_ne p' p with rfl | hne
      · simp
      · simp [hne, hne.symm]
  rcases eq_or_ne l (linkKey sw port) with rfl | hl
  · rw [if_pos rfl]
    ext x
    · refine (Finset.ext_iff.mp hmatches x).trans ?_
      cases htraffic : s.traffic (linkKey sw port) <;>
        simp [accountOf, LinkAccount.remove, htraffic]
    · refine (hcount x).trans ?_
      cases htraffic : s.traffic (linkKey sw port) <;>
        simp [accountOf, LinkAccount.remove, htraffic]
    · exact htracked
  · rw [if_neg hl]
    ext x
    · rw [if_neg fun hc => hl hc.1] at hmatches
      exact Finset.ext_iff.mp hmatches x
    · exact (hcount x).trans (if_neg fun hc => hl hc.1)
    · exact htracked

end TrafficState

/-! ### Sequences of calls -/

/-- The calls that change the accounts.  A removal carries the match of the
expired flow entry. -/
inductive TrafficCall
  | add (sw : SwitchId) (port : Port) (priority : Fin 3) (m : OFMatch)
  | remove (sw : SwitchId) (port : Port) (priority : Fin 3) (m : OFMatch)
  | reset

/-- The accounts, and for each link and match the priority of the latest
`addTraffic`: it is in the cookie of the flow entry the switch holds, since a
later entry with the same match replaces the earlier one. -/
structure Accounts where
  state : TrafficState
  cookie : Link → OFMatch → Option (Fin 3)

namespace Accounts

def init : Accounts := ⟨TrafficState.resetTraffic, fun _ _ => none⟩

def call (a : Accounts) : TrafficCall → Accounts
  | .add sw port priority m =>
    ⟨(a.state.addTraffic sw port priority m).1, fun l m' =>
      if l = linkKey sw port ∧ m' = m then some priority else a.cookie l m'⟩
  | .remove sw port priority m => ⟨(a.state.removeTraffic sw port priority m).1, a.cookie⟩
  | .reset => ⟨TrafficState.resetTraffic, a.cookie⟩

/-- Matches are added without wildcards; a removal carries the priority of the
latest addition of its match. -/
def Legal (a : Accounts) : TrafficCall → Prop
  | .add _ _ _ m => m.wildcards = 0
  | .remove sw port priority m =>
    a.cookie (linkKey sw port) (m.setWildcards 0) = some priority
  | .reset => True

/-- A match that is still accounted is only added again with the priority of
its latest addition. -/
def SamePriority (a : Accounts) : TrafficCall → Prop
  | .add sw port priority m =>
    m ∈ a.state.matchesOf (linkKey sw port) → a.cookie (linkKey sw port) m = some priority
  | _ => True

instance (a : Accounts) : (c : TrafficCall) → Decidable (a.Legal c)
  | .add _ _ _ m => inferInstanceAs (Decidable (m.wildcards = 0))
  | .remove sw port priority m =>
    inferInstanceAs (Decidable (a.cookie (linkKey sw port) (m.setWildcards 0) = some priority))
  | .reset => inferInstanceAs (Decidable True)

instance (a : Accounts) : (c : TrafficCall) → Decidable (a.SamePriority c)
  | .add sw port priority m => inferInstanceAs (Decidable
      (m ∈ a.state.matchesOf (linkKey sw port) → a.cookie (linkKey sw port) m = some priority))
  | .remove _ _ _ _ | .reset => inferInstanceAs (Decidable True)

/-- What legal calls that `Allowed` permits lead to. -/
def Reaches (Allowed : Accounts → TrafficCall → Prop) : Accounts → Accounts → Prop :=
  Relation.ReflTransGen fun a a' => ∃ c, a.Legal c ∧ Allowed a c ∧ a' = a.call c

/-- The counters of every link add up to its matches, none is negative, and a
link without matches has none. -/
def Exact (s : TrafficState) : Prop :=
  ∀ l, ∑ p, s.countOf l p = ((s.matchesOf l).card : ℤ) ∧ (∀ p, 0 ≤ s.countOf l p) ∧
    (s.matchesOf l = ∅ → ∀ p, s.countOf l p = 0)

/-- The invariant: every accounted match has a cookie, and each counter counts
the matches with its priority in their cookie. -/
structure Balanced (a : Accounts) : Prop where
  tracked : ∀ l, a.state.traffic l = none → a.state.matchesOf l = ∅
  known : ∀ l, ∀ m ∈ a.state.matchesOf l, ∃ p, a.cookie l m = some p
  count : ∀ l p, a.state.countOf l p =
    (((a.state.matchesOf l).filter fun m => a.cookie l m = some p).card : ℤ)

variable {a : Accounts}

theorem Balanced.init : Balanced init where
  tracked _ _ := rfl
  known _ _ hm := absurd hm (notMem_empty _)
  count _ _ := rfl

theorem priorityIndex_coe (p : Fin 3) : priorityIndex (p : ℤ) = some p := by
  revert p
  decide

section

variable {sw : SwitchId} {port : Port} {priority : Fin 3} {m : OFMatch} (h : a.Balanced)
include h

theorem Balanced.add_mem (hm : m ∈ a.state.matchesOf (linkKey sw port))
    (hsame : a.cookie (linkKey sw port) m = some priority) :
    (a.call (.add sw port priority m)).Balanced := by
  have hcookie : (a.call (.add sw port priority m)).cookie = a.cookie := by
    funext l m'
    unfold call
    dsimp only
    split
    next heq => rw [heq.1, heq.2, hsame]
    next => rfl
  have hmatches : ∀ l, (a.call (.add sw port priority m)).state.matchesOf l =
      a.state.matchesOf l := by
    intro l
    unfold call
    rw [TrafficState.matchesOf_addTraffic]
    split
    next hl => rw [hl, insert_eq_of_mem hm]
    next => rfl
  refine ⟨fun l hnone => ?_, fun l m' hm' => ?_, fun l p => ?_⟩
  · rw [hmatches]
    exact h.tracked l ((TrafficState.traffic_addTraffic_eq_none_iff ..).mp hnone).1
  · rw [hcookie]
    rw [hmatches] at hm'
    exact h.known l m' hm'
  · rw [hcookie, hmatches, ← h.count l p]
    unfold call
    rw [TrafficState.countOf_addTraffic _ _ _ _ _ (priorityIndex_coe priority), if_neg]
    exact fun hnew => hnew.2.2 hm

/-- A new match is counted under the priority that goes into its cookie. -/
theorem Balanced.add_not_mem (hm : m ∉ a.state.matchesOf (linkKey sw port)) :
    (a.call (.add sw port priority m)).Balanced := by
  have hcookie : ∀ l, ∀ m' ∈ a.state.matchesOf l,
      (a.call (.add sw port priority m)).cookie l m' = a.cookie l m' := by
    intro l m' hm'
    refine if_neg ?_
    rintro ⟨rfl, rfl⟩
    exact hm hm'
  have hself : (a.call (.add sw port priority m)).cookie (linkKey sw port) m = some priority :=
    if_pos ⟨rfl, rfl⟩
  have hmatches : ∀ l, (a.call (.add sw port priority m)).state.matchesOf l =
      if l = linkKey sw port then insert m (a.state.matchesOf l) else a.state.matchesOf l :=
    fun l => TrafficState.matchesOf_addTraffic ..
  refine ⟨fun l hnone => ?_, fun l m' hm' => ?_, fun l p => ?_⟩
  · obtain ⟨hnone, hold⟩ := (TrafficState.traffic_addTraffic_eq_none_iff ..).mp hnone
    rw [hmatches, if_neg fun hl => hold ⟨hl, hm⟩]
    exact h.tracked l hnone
  · rw [hmatches] at hm'
    split at hm'
    next hl =>
      subst hl
      rcases mem_insert.mp hm' with rfl | hm'
      · exact ⟨priority, hself⟩
      · rw [hcookie _ m' hm']
        exact h.known _ m' hm'
    next =>
      rw [hcookie l m' hm']
      exact h.known l m' hm'
  · -- the old matches keep their cookies, the new one goes to its own counter
    have hfilter : (a.state.matchesOf l).filter
          (fun m' => (a.call (.add sw port priority m)).cookie l m' = some p) =
        (a.state.matchesOf l).filter fun m' => a.cookie l m' = some p :=
      filter_congr fun m' hm' => by rw [hcookie l m' hm']
    have hcount : (a.call (.add sw port priority m)).state.countOf l p =
        if l = linkKey sw port ∧ p = priority ∧ m ∉ a.state.matchesOf (linkKey sw port)
        then max (a.state.countOf l priority + 1) 0 else a.state.countOf l p :=
      TrafficState.countOf_addTraffic _ _ _ _ _ (priorityIndex_coe priority) l p
    rw [hcount, hmatches]
    rcases eq_or_ne l (linkKey sw port) with rfl | hl
    · rw [if_pos rfl, filter_insert, hself, hfilter]
      rcases eq_or_ne p priority with rfl | hp
      · rw [if_pos ⟨rfl, rfl, hm⟩, if_pos rfl, card_insert_of_notMem (by simp [hm]),
          h.count]
        push_cast
        omega
      · rw [if_neg fun hc => hp hc.2.1, if_neg fun hc => hp (some.inj hc).symm, h.count]
    · rw [if_neg fun hc => hl hc.1, if_neg hl, hfilter, h.count]

/-- A removal takes the match off its link: a link without counters has no matches, so
the match is off it anyway. -/
theorem Balanced.matchesOf_remove (l : Link) :
    (a.call (.remove sw port priority m)).state.matchesOf l =
      if l = linkKey sw port then (a.state.matchesOf l).erase (m.setWildcards 0)
      else a.state.matchesOf l := by
  refine (TrafficState.matchesOf_removeTraffic ..).trans ?_
  rcases eq_or_ne l (linkKey sw port) with rfl | hl
  · rcases eq_or_ne (a.state.traffic (linkKey sw port)) none with hnone | hsome
    · simp [h.tracked _ hnone]
    · simp [hsome]
  · simp [hl]

end

theorem Balanced.traffic_ne_none (h : a.Balanced) {l : Link} {m : OFMatch}
    (hm : m ∈ a.state.matchesOf l) : a.state.traffic l ≠ none := by
  intro hnone
  rw [h.tracked _ hnone] at hm
  exact notMem_empty _ hm

theorem Balanced.remove {sw : SwitchId} {port : Port} {priority : Fin 3} {m : OFMatch}
    (h : a.Balanced) (hlegal : a.cookie (linkKey sw port) (m.setWildcards 0) = some priority) :
    (a.call (.remove sw port priority m)).Balanced := by
  have hsub : ∀ l, (a.call (.remove sw port priority m)).state.matchesOf l ⊆
      a.state.matchesOf l := by
    intro l
    rw [h.matchesOf_remove]
    split
    · exact erase_subset _ _
    · exact Finset.Subset.refl _
  refine ⟨fun l hnone => ?_, fun l m' hm' => h.known l m' (hsub l hm'), fun l p => ?_⟩
  · have hnone' := (TrafficState.traffic_removeTraffic_eq_none_iff ..).mp hnone
    exact subset_empty.mp (h.tracked l hnone' ▸ hsub l)
  · have hcount : (a.call (.remove sw port priority m)).state.countOf l p =
        if l = linkKey sw port ∧ p = priority ∧ a.state.traffic l ≠ none ∧
          m.setWildcards 0 ∈ a.state.matchesOf l
        then max (a.state.countOf l priority - 1) 0 else a.state.countOf l p :=
      TrafficState.countOf_removeTraffic _ _ _ _ _ (priorityIndex_coe priority) l p
    have hcookie : (a.call (.remove sw port priority m)).cookie = a.cookie := rfl
    rw [hcount, h.matchesOf_remove, hcookie]
    rcases eq_or_ne l (linkKey sw port) with rfl | hl
    · rw [if_pos rfl, filter_erase]
      by_cases hm : m.setWildcards 0 ∈ a.state.matchesOf (linkKey sw port)
      · rcases eq_or_ne p priority with rfl | hp
        · -- the cookie puts the match on this counter, which is therefore positive
          have hmem : m.setWildcards 0 ∈ (a.state.matchesOf (linkKey sw port)).filter
              fun m' => a.cookie (linkKey sw port) m' = some p :=
            mem_filter.mpr ⟨hm, hlegal⟩
          have hpos := card_pos.mpr ⟨_, hmem⟩
          rw [if_pos ⟨rfl, rfl, h.traffic_ne_none hm, hm⟩, h.count,
            card_erase_of_mem hmem]
          omega
        · -- and on no other
          rw [if_neg fun hc => hp hc.2.1, erase_eq_of_notMem, h.count]
          intro hmem
          have hother := (mem_filter.mp hmem).2
          exact hp (some.inj (hother.symm.trans hlegal))
      · rw [if_neg fun hc => hm hc.2.2.2, erase_eq_of_notMem, h.count]
        exact fun hmem => hm (mem_filter.mp hmem).1
    · rw [if_neg fun hc => hl hc.1, if_neg hl]
      exact h.count l p

/-- **Every legal call at the same priority keeps the accounts balanced.** -/
theorem Balanced.call (h : a.Balanced) {c : TrafficCall} (hlegal : a.Legal c)
    (hsame : a.SamePriority c) : (a.call c).Balanced := by
  cases c with
  | add sw port priority m =>
    by_cases hm : m ∈ a.state.matchesOf (linkKey sw port)
    · exact h.add_mem hm (hsame hm)
    · exact h.add_not_mem hm
  | remove sw port priority m => exact h.remove hlegal
  | reset => exact ⟨fun _ _ => rfl, fun _ _ hm => absurd hm (notMem_empty _), fun _ _ => rfl⟩

theorem Balanced.exact (h : a.Balanced) : Exact a.state := by
  intro l
  refine ⟨?_, fun p => ?_, fun hempty p => ?_⟩
  · -- the matches are split by the priority in their cookie
    have hfiber := card_eq_sum_card_fiberwise (s := a.state.matchesOf l)
      (f := fun m => (a.cookie l m).getD 0) (t := Finset.univ) fun _ _ => mem_univ _
    rw [hfiber]
    push_cast
    refine sum_congr rfl fun p _ => ?_
    rw [h.count]
    refine congrArg (fun s : Finset OFMatch => (s.card : ℤ)) (filter_congr fun m hm => ?_)
    obtain ⟨q, hq⟩ := h.known l m hm
    simp [hq]
  · rw [h.count]
    exact Int.natCast_nonneg _
  · rw [h.count, hempty]
    rfl

/-- **Exact accounting.**  As long as no accounted match is added again with
another priority than its latest one, the counters of every link are exact
after every call. -/
theorem traffic_exact_of_same_priority (a : Accounts)
    (hrun : Reaches SamePriority init a) : Exact a.state := by
  refine Balanced.exact ?_
  induction hrun with
  | refl => exact Balanced.init
  | tail _ hstep ih =>
    obtain ⟨c, hlegal, hsame, rfl⟩ := hstep
    exact ih.call hlegal hsame

def someFlow : OFMatch := OFMatch.new.setWildcards 0

theorem traffic_exact_add_remove :
    Exact ((init.call (.add 1 1 0 someFlow)).call (.remove 1 1 0 someFlow)).state :=
  traffic_exact_of_same_priority _
    ((Relation.ReflTransGen.single ⟨.add 1 1 0 someFlow, rfl, by decide, rfl⟩).tail
      ⟨.remove 1 1 0 someFlow, by decide, trivial, rfl⟩)

/-- A second addition with another priority is dropped, yet it is the one whose
priority the removal carries: the wrong counter is lowered. -/
theorem traffic_inexact_other_priority :
    ¬ ∀ a, Reaches (fun _ _ => True) init a → Exact a.state := by
  intro hexact
  have hrun : Reaches (fun _ _ => True) init
      (((init.call (.add 1 1 0 someFlow)).call (.add 1 1 1 someFlow)).call
        (.remove 1 1 1 someFlow)) :=
    ((Relation.ReflTransGen.single ⟨.add 1 1 0 someFlow, rfl, trivial, rfl⟩).tail
      ⟨.add 1 1 1 someFlow, rfl, trivial, rfl⟩).tail
      ⟨.remove 1 1 1 someFlow, by decide, trivial, rfl⟩
  have hsum := (hexact _ hrun (linkKey 1 1)).1
  revert hsum
  decide

end Accounts

end NctuSdn
