/-
Where the classes of OpenFlow messages stop reading.

Only the length in the header of a message says where the next one starts, and
the parser goes on where the class of the message stopped.  The two places are
the same exactly for messages that are laid out the way their class reads
them, over their whole length (`Filled`): for most types a fixed length, for
those with a list elements that lie end to end up to the end of the message.
The lists are read by loops; each is described by a relation between the
indices where elements start (`ActionAt`, `FlowStatisticsAt`, `ElementAt`).
-/
import Mathlib.Algebra.Ring.Nat
import NctuSdn.OpenFlow.BasicFactory

namespace NctuSdn

open Relation Option List

variable {data : List (BitVec 8)} {n index index' : ℕ}

/-! ### Single reads -/

theorem numberAt_le_length {x : BitVec (8 * (n + 1))}
    (h : numberAt data index (n + 1) = some x) : index + (n + 1) ≤ data.length := by
  unfold numberAt ByteBuffer.at? at h
  split at h
  next hlo =>
    obtain ⟨hlt, -⟩ := List.getElem?_eq_some_iff.mp hlo
    exact hlt
  next => cases h

theorem readNumber_ok {x : BitVec (8 * n)} (h : readNumber data n index = .ok (x, index')) :
    numberAt data index n = some x ∧ index' = index + n := by
  unfold readNumber at h
  split at h
  next heq =>
    cases h
    exact ⟨heq, rfl⟩
  next => cases h

theorem readNumber_bind_ok {α : Type} {f : BitVec (8 * n) × ℕ → Except ParseFailure α} {r : α}
    (h : (readNumber data n index >>= f) = .ok r) :
    ∃ x, numberAt data index n = some x ∧ f (x, index + n) = .ok r := by
  obtain ⟨⟨x, i⟩, hread, h⟩ := exists_of_bind_eq_ok h
  obtain ⟨hx, rfl⟩ := readNumber_ok hread
  exact ⟨x, hx, h⟩

theorem readBytes_ok (h : readBytes data n index = .ok index') :
    index' = index + n ∧ index' ≤ data.length := by
  unfold readBytes at h
  split at h
  next hle =>
    cases h
    exact ⟨rfl, hle⟩
  next => cases h

variable {widths : List ℕ}

theorem readFields_ok (h : readFields data widths index = .ok index') :
    index' = index + widths.sum := by
  induction widths generalizing index with
  | nil =>
    cases h
    rfl
  | cons w widths ih =>
    obtain ⟨i, hw, h⟩ := exists_of_bind_eq_ok h
    rw [ih h, (readBytes_ok hw).1, sum_cons, Nat.add_assoc]

theorem readFields_bind_ok {α : Type} {f : ℕ → Except ParseFailure α} {r : α}
    (h : (readFields data widths index >>= f) = .ok r) : f (index + widths.sum) = .ok r := by
  obtain ⟨i, hi, h⟩ := exists_of_bind_eq_ok h
  obtain rfl := readFields_ok hi
  exact h

theorem readFields_le_length (h : readFields data widths index = .ok index')
    (hpos : 0 < widths.sum) :
    index' ≤ data.length := by
  induction widths generalizing index with
  | nil => exact absurd hpos (Nat.lt_irrefl 0)
  | cons w widths ih =>
    obtain ⟨i, hw, hrest⟩ := exists_of_bind_eq_ok h
    obtain hzero | hpos := Nat.eq_zero_or_pos widths.sum
    · have hindex : index' = i + widths.sum := readFields_ok hrest
      have := (readBytes_ok hw).2
      omega
    · exact ih hrest hpos

theorem readArray_ok {n : ℤ} (h : readArray data n index = .ok index') :
    0 ≤ n ∧ (index' : ℤ) = index + n := by
  unfold readArray at h
  split at h
  next => cases h
  next hn =>
    have := readBytes_ok h
    omega

theorem setReaderIndex_ok {i : ℤ} (h : setReaderIndex data i = .ok index') : (index' : ℤ) = i := by
  unfold setReaderIndex at h
  split at h
  next hi =>
    cases h
    exact Int.toNat_of_nonneg hi.1
  next => cases h

/-! ### Actions -/

variable (data) in
/-- How many bytes the classes for the actions of a vendor read. -/
def vendorActionSize (index : ℕ) (length : BitVec 16) : ℕ :=
  if numberAt data (index + 4) 4 = some bsnVendorId then
    if numberAt data (index + 8) 4 = some 1 then 24
    else if numberAt data (index + 8) 4 = some 2 then 16
    else 0 -- never consumed
  else if numberAt data (index + 4) 4 = some nxVendorId then
    if numberAt data (index + 8) 2 = some 18 then 16 else 0
  else 8 + (length.toInt - 8).toNat

variable (data) in
/-- How many bytes the class for the action at an index reads. -/
def actionSize (index : ℕ) (length : BitVec 16) : OFActionType → ℕ
  | .vendor => vendorActionSize data index length
  | type => type.fields.sum

variable (data) in
/-- The action at `index` does not claim to reach beyond `stop`, and the next
one is expected at `index'`. -/
def ActionAt (stop : ℤ) (index index' : ℕ) : Prop :=
  ∃ (i length : BitVec 16) (type : OFActionType),
    numberAt data index 2 = some i ∧ numberAt data (index + 2) 2 = some length ∧
    OFActionType.valueOf i = .ok (some type) ∧
    index + 4 ≤ stop ∧ index + length.toNat ≤ stop ∧ index + length.toNat ≤ data.length ∧
    index' = index + actionSize data index length type

variable (data) in
/-- Actions lie end to end from `index` to `index'`, where no other one
begins. -/
def ActionsEnd (stop : ℤ) (index index' : ℕ) : Prop :=
  ReflTransGen (ActionAt data stop) index index' ∧ ∀ i, ¬ ActionAt data stop index' i

theorem ActionAt.rightUnique (stop : ℤ) : Relator.RightUnique (ActionAt data stop) := by
  rintro index a b ⟨i, length, type, hi, hlength, htype, -, -, -, rfl⟩
    ⟨j, length', type', hj, hlength', htype', -, -, -, rfl⟩
  obtain rfl := some.inj (hi.symm.trans hj)
  obtain rfl := some.inj (hlength.symm.trans hlength')
  obtain rfl := some.inj (Except.ok.inj (htype.symm.trans htype'))
  rfl

theorem readAction_ok {type : Option OFActionType} {length : BitVec 16}
    (h : OFAction.readFrom data index = .ok (type, length, index')) :
    ∃ i, numberAt data index 2 = some i ∧ OFActionType.valueOf i = .ok type ∧
      numberAt data (index + 2) 2 = some length ∧ index' = index + 4 := by
  obtain ⟨i, hi, h⟩ := readNumber_bind_ok h
  obtain ⟨type, htype, h⟩ := exists_of_bind_eq_ok h
  obtain ⟨length, hlength, h⟩ := readNumber_bind_ok h
  cases h
  exact ⟨i, hi, htype, hlength, rfl⟩

theorem readVendorAction_ok {vendor : BitVec 32} {length : BitVec 16}
    (h : OFActionVendorGeneric.readFrom data index = .ok (vendor, index'))
    (hlength : numberAt data (index + 2) 2 = some length) :
    numberAt data (index + 4) 4 = some vendor ∧
      index' = index + (8 + (length.toInt - 8).toNat) := by
  obtain ⟨⟨type, length', i₁⟩, h₁, h⟩ := exists_of_bind_eq_ok h
  obtain ⟨-, -, -, hlength', rfl⟩ := readAction_ok h₁
  obtain rfl := some.inj (hlength.symm.trans hlength')
  obtain ⟨vendor, hvendor, h⟩ := readNumber_bind_ok h
  dsimp only at h
  split at h
  next hpos =>
    obtain ⟨i₃, h₃, h⟩ := exists_of_bind_eq_ok h
    have := (readArray_ok h₃).2
    cases h
    exact ⟨hvendor, by omega⟩
  next hneg =>
    cases h
    exact ⟨hvendor, by omega⟩

theorem readBigSwitchAction_ok
    (h : OFBigSwitchVendorActionFactory.readFrom data index = .ok index') :
    index' = index + if numberAt data (index + 8) 4 = some 1 then 24
      else if numberAt data (index + 8) 4 = some 2 then 16 else 0 := by
  replace h := readFields_bind_ok h
  obtain ⟨subtype, hsubtype, h⟩ := readNumber_bind_ok h
  rw [show index + [2, 2, 4].sum = index + 8 from rfl] at hsubtype
  rw [hsubtype]
  simp only [some.injEq]
  dsimp only at h
  split at h
  next h1 =>
    rw [if_pos h1]
    exact readFields_ok h
  next h1 =>
    rw [if_neg h1]
    split at h
    next h2 =>
      rw [if_pos h2]
      exact readFields_ok h
    next h2 =>
      rw [if_neg h2]
      cases h
      rfl

theorem readNiciraAction_ok (h : OFNiciraVendorActionFactory.readFrom data index = .ok index') :
    index' = index + if numberAt data (index + 8) 2 = some 18 then 16 else 0 := by
  replace h := readFields_bind_ok h
  obtain ⟨subtype, hsubtype, h⟩ := readNumber_bind_ok h
  rw [show index + [2, 2, 4].sum = index + 8 from rfl] at hsubtype
  rw [hsubtype]
  simp only [some.injEq]
  dsimp only at h
  split at h
  next h18 =>
    rw [if_pos h18]
    exact readFields_ok h
  next h18 =>
    rw [if_neg h18]
    cases h
    rfl

theorem parseActionOne_ok {type : Option OFActionType} {length : BitVec 16}
    (h : parseActionOne data type index = .ok index')
    (hlength : numberAt data (index + 2) 2 = some length) :
    ∃ t, type = some t ∧ index' = index + actionSize data index length t := by
  match type with
  | none => cases h
  | some .vendor =>
    refine ⟨.vendor, rfl, ?_⟩
    obtain ⟨⟨vendor, after⟩, h₁, h⟩ := exists_of_bind_eq_ok h
    obtain ⟨hvendor, hafter⟩ := readVendorAction_ok h₁ hlength
    simp only [actionSize, vendorActionSize, hvendor, some.injEq]
    dsimp only at h
    split at h
    next hbsn =>
      rw [if_pos hbsn]
      exact readBigSwitchAction_ok h
    next hbsn =>
      rw [if_neg hbsn]
      split at h
      next hnx =>
        rw [if_pos hnx]
        exact readNiciraAction_ok h
      next hnx =>
        rw [if_neg hnx]
        cases h
        exact hafter
  | some .output | some .setVlanId | some .setVlanPcp | some .stripVlan | some .setDlSrc
  | some .setDlDst | some .setNwSrc | some .setNwDst | some .setNwTos | some .setTpSrc
  | some .setTpDst | some .opaqueEnqueue => exact ⟨_, rfl, readFields_ok h⟩

theorem parseNextAction_move {stop : ℤ} (h : parseNextAction data stop index = .ok (some index')) :
    ActionAt data stop index index' := by
  unfold parseNextAction at h
  split at h
  next => cases h
  next hroom =>
    obtain ⟨⟨type, length, i₁⟩, h₁, h⟩ := exists_of_bind_eq_ok h
    obtain ⟨i, hi, htype, hlength, rfl⟩ := readAction_ok h₁
    dsimp only at h
    split at h
    next => cases h
    next hfits =>
      obtain ⟨after, h₂, h⟩ := exists_of_bind_eq_ok h
      cases h
      obtain ⟨t, rfl, hsize⟩ := parseActionOne_ok h₂ hlength
      exact ⟨i, length, t, hi, hlength, htype, by omega, by omega, by omega, hsize⟩

theorem parseNextAction_stop {stop : ℤ} (h : parseNextAction data stop index = .ok none)
    (index' : ℕ) : ¬ ActionAt data stop index index' := by
  rintro ⟨i, length, type, hi, hlength, -, hroom, hfits, hlong, -⟩
  have hend := numberAt_le_length hlength
  unfold parseNextAction at h
  rw [if_neg (by omega)] at h
  obtain ⟨⟨type', length', i₁⟩, h₁, h⟩ := exists_of_bind_eq_ok h
  obtain ⟨-, -, -, hlength', -⟩ := readAction_ok h₁
  obtain rfl := some.inj (hlength.symm.trans hlength')
  dsimp only at h
  rw [if_neg (by omega)] at h
  obtain ⟨after, -, h⟩ := exists_of_bind_eq_ok h
  cases h

variable {length : ℤ}

theorem parseActions_ok (h : parseActions data length index = .ok index') (i : ℕ) :
    index' = i ↔ ActionsEnd data (index + length) index i :=
  whileLoop_result (fun _ _ => parseNextAction_move) (fun _ => parseNextAction_stop)
    (ActionAt.rightUnique _) h i

theorem actionsEnd_stop_iff {stop : ℕ} :
    ActionsEnd data stop index stop ↔ ReflTransGen (ActionAt data stop) index stop := by
  constructor
  · exact fun h => h.1
  · intro h
    refine ⟨h, ?_⟩
    rintro i ⟨-, -, -, -, -, -, hroom, -⟩
    omega

theorem ActionsEnd.unique {stop : ℤ} {i j : ℕ} (hi : ActionsEnd data stop index i)
    (hj : ActionsEnd data stop index j) : i = j :=
  reaches_end_unique (ActionAt.rightUnique _) hi.1 hi.2 hj.1 hj.2

/-! ### Statistics -/

/-- What is read is as long as the object said before it was read. -/
def OFStatistics.Sized (statistics : OFStatistics) : Prop :=
  ∀ index l index', statistics.readFrom index = .ok (l, index') →
    l = statistics.getLength ∧ 0 ≤ l ∧ (index' : ℤ) = index + l

theorem OFStatistics.ofFields_sized (hl : length = widths.sum) :
    (OFStatistics.ofFields data length widths).Sized := by
  intro index l index' h
  obtain ⟨i, hi, h⟩ := exists_of_bind_eq_ok h
  cases h
  refine ⟨rfl, ?_, ?_⟩
  · omega
  · rw [readFields_ok hi, hl]
    push_cast
    rfl

theorem OFVendorStatistics.new_sized :
    (OFVendorStatistics.new data length).Sized := by
  intro index l index' h
  obtain ⟨i, hi, h⟩ := exists_of_bind_eq_ok h
  obtain ⟨j, hj, h⟩ := exists_of_bind_eq_ok h
  cases h
  obtain rfl := readFields_ok hi
  obtain ⟨hlength, hindex⟩ := readArray_ok hj
  simp only [sum_cons, sum_nil] at hindex
  exact ⟨rfl, by omega, by omega⟩

theorem getStatistics_sized {t : OFType} {st : OFStatisticsType}
    (h : t = .statsRequest ∨ st ≠ .flow) : (getStatistics data t length st).Sized := by
  cases st with
  | desc | table => exact OFStatistics.ofFields_sized rfl
  | flow =>
    obtain rfl | h := h
    · exact OFStatistics.ofFields_sized rfl
    · exact absurd rfl h
  | aggregate | port | queue =>
    dsimp only [getStatistics]
    split
    · exact OFStatistics.ofFields_sized rfl
    · exact OFStatistics.ofFields_sized rfl
  | vendor => exact OFVendorStatistics.new_sized

variable {s : ℤ × ℕ} {statistics : OFStatistics}

theorem parseNextStatistics_move {s' : ℤ × ℕ}
    (h : parseNextStatistics statistics length s = .ok (some s')) :
    statistics.getLength ≤ length - s.1 ∧
      ∃ l, statistics.readFrom s.2 = .ok (l, s'.2) ∧ s'.1 = s.1 + l := by
  obtain ⟨count, index⟩ := s
  dsimp only [parseNextStatistics] at h
  split at h
  next hroom =>
    obtain ⟨⟨l, j⟩, hread, h⟩ := exists_of_bind_eq_ok h
    cases h
    exact ⟨hroom, l, hread, rfl⟩
  next => cases h

theorem parseNextStatistics_stop (h : parseNextStatistics statistics length s = .ok none) :
    length - s.1 < statistics.getLength := by
  obtain ⟨count, index⟩ := s
  dsimp only [parseNextStatistics] at h
  split at h
  next =>
    obtain ⟨_, -, h⟩ := exists_of_bind_eq_ok h
    cases h
  next hroom => exact Int.not_le.mp hroom

/-- The loop over statistics of a fixed length never reads beyond the length it
is given. -/
theorem parseNextStatistics_sized (hs : statistics.Sized) {count : ℤ} {n start : ℕ}
    (h : whileLoop .endless (parseNextStatistics statistics length) n (0, start) =
      .ok (count, index)) :
    (index : ℤ) = start + count ∧ 0 ≤ count ∧ (count = 0 ∨ count ≤ length) := by
  have hmove : ∀ s s', parseNextStatistics statistics length s = .ok (some s') →
      (s'.2 - s.2 : ℤ) = s'.1 - s.1 ∧ s.1 ≤ s'.1 ∧ s'.1 ≤ length := by
    intro s s' hb
    obtain ⟨hroom, l, hread, hcount⟩ := parseNextStatistics_move hb
    obtain ⟨rfl, hl, hindex⟩ := hs _ _ _ hread
    omega
  obtain ⟨hreach, -⟩ := whileLoop_reaches hmove h
  -- along the chain the index follows the count
  suffices hinv : ∀ s : ℤ × ℕ, ReflTransGen
      (fun s s' : ℤ × ℕ => (s'.2 - s.2 : ℤ) = s'.1 - s.1 ∧ s.1 ≤ s'.1 ∧ s'.1 ≤ length)
      (0, start) s → (s.2 : ℤ) = start + s.1 ∧ 0 ≤ s.1 ∧ (s.1 = 0 ∨ s.1 ≤ length) from
    hinv _ hreach
  intro s hs
  induction hs with
  | refl => exact ⟨(Int.add_zero _).symm, Int.le_refl _, .inl rfl⟩
  | tail _ hstep ih => omega

theorem parseStatistics_sized {t : OFType} {st : OFStatisticsType}
    (hflow : t = .statsRequest ∨ st ≠ .flow) {start : ℕ}
    (h : parseStatistics data t (some st) length start = .ok index') :
    (index' : ℤ) = start + max length 0 := by
  obtain ⟨⟨count, i⟩, hloop, h⟩ := exists_of_bind_eq_ok h
  have hinv := parseNextStatistics_sized (getStatistics_sized hflow) hloop
  dsimp only at h
  split at h
  next hlt =>
    have := setReaderIndex_ok h
    omega
  next hge =>
    cases h
    omega

variable (data) in
/-- A flow is read at the index while there is room for one without actions;
its length counts, and its actions may end elsewhere. -/
def FlowStatisticsAt (length : ℤ) (s s' : ℤ × ℕ) : Prop :=
  s.1 + 88 ≤ length ∧ ∃ l : BitVec 16, numberAt data s.2 2 = some l ∧ s'.1 = s.1 + l.toNat ∧
    ActionsEnd data (s.2 + l.toNat) (s.2 + 88) s'.2

variable (data) in
/-- The flows of a reply of `length` bytes either leave a rest that is too
short for one more and is thrown away, or they end with the reply. -/
def FlowsFill (length : ℕ) : Prop :=
  ∃ (count : ℤ) (index : ℕ),
    ReflTransGen (FlowStatisticsAt data (length - 12)) (0, 12) (count, index) ∧
    length - 12 < count + 88 ∧ (count < length - 12 ∨ index = length)

theorem FlowStatisticsAt.rightUnique (length : ℤ) :
    Relator.RightUnique (FlowStatisticsAt data length) := by
  rintro s ⟨c, i⟩ ⟨c', i'⟩ ⟨-, l, hl, hc, hi⟩ ⟨-, l', hl', hc', hi'⟩
  obtain rfl := some.inj (hl.symm.trans hl')
  exact Prod.ext (hc.trans hc'.symm) (hi.unique hi')

theorem readFlowStatistics_ok {l : ℤ}
    (h : (OFFlowStatisticsReply.new data).readFrom index = .ok (l, index')) :
    ∃ length : BitVec 16, numberAt data index 2 = some length ∧ l = length.toNat ∧
      ActionsEnd data (index + length.toNat) (index + 88) index' := by
  obtain ⟨length, hlength, h⟩ := readNumber_bind_ok h
  replace h := readFields_bind_ok h
  obtain ⟨i₃, h₃, h⟩ := exists_of_bind_eq_ok h
  cases h
  have hend := (parseActions_ok h₃ index').mp rfl
  refine ⟨length, hlength, rfl, ?_⟩
  have hsum : index + 2 + ([1, 1] ++ OFMatch.fields ++ [4, 4, 2, 2, 2, 4, 2, 8, 8, 8]).sum =
      index + 88 := rfl
  have hstop : ((index + 88 : ℕ) : ℤ) + (length.toNat - 88) = index + length.toNat := by omega
  rwa [hsum, hstop] at hend

theorem parseFlowStatistics_ok {length : ℕ} (h : parseStatistics data .statsReply (some .flow)
    (length - 12) 12 = .ok index') :
    index' = length ↔ FlowsFill data length := by
  obtain ⟨⟨count, i⟩, hloop, h⟩ := exists_of_bind_eq_ok h
  have hmove : ∀ s s', parseNextStatistics (getStatistics data .statsReply (length - 12) .flow)
      (length - 12) s = .ok (some s') → FlowStatisticsAt data (length - 12) s s' := by
    intro s s' hb
    obtain ⟨hroom, l, hread, hcount⟩ := parseNextStatistics_move hb
    obtain ⟨length', hlength', rfl, hend⟩ := readFlowStatistics_ok hread
    have : (88 : ℤ) ≤ length - 12 - s.1 := hroom
    exact ⟨by omega, length', hlength', hcount, hend⟩
  obtain ⟨hreach, hend⟩ := whileLoop_reaches hmove hloop
  have hrest : (length - 12 : ℤ) < count + 88 := by
    have : (length - 12 - count : ℤ) < 88 := parseNextStatistics_stop hend
    omega
  have hresult : ∀ u : ℤ × ℕ, ReflTransGen (FlowStatisticsAt data (length - 12)) (0, 12) u →
      (length - 12 : ℤ) < u.1 + 88 → (count, i) = u := by
    intro u hu hushort
    refine reaches_end_unique (FlowStatisticsAt.rightUnique _) hreach ?_ hu ?_
    · rintro v ⟨hroom, -⟩
      omega
    · rintro v ⟨hroom, -⟩
      omega
  dsimp only at h
  split at h
  next hlt =>
    -- the rest is skipped, so the reader index is set right again
    have hindex := setReaderIndex_ok h
    constructor
    · intro _
      exact ⟨count, i, hreach, hrest, .inl hlt⟩
    · intro _
      omega
  next hge =>
    -- the lengths have used up the message, wherever the flows end
    obtain rfl := Except.ok.inj h
    constructor
    · intro heq
      exact ⟨count, i, hreach, hrest, .inr heq⟩
    · rintro ⟨count', j, hu, hushort, hfill⟩
      obtain ⟨rfl, rfl⟩ := Prod.ext_iff.mp (hresult (count', j) hu hushort)
      obtain hlt | heq := hfill
      · exact absurd hlt hge
      · exact heq

/-! ### Queues -/

/-- While something is left, the next element is read; what is left falls by
the (signed) length that it says. -/
def ElementAt (Element : ℕ → BitVec 16 → ℕ → Prop) (s s' : ℤ × ℕ) : Prop :=
  0 < s.1 ∧ ∃ length, Element s.2 length s'.2 ∧ s'.1 = s.1 - length.toInt

/-- Elements lie end to end from `index` to `index'`, and their lengths use up
what is left at first. -/
def ElementsEnd (Element : ℕ → BitVec 16 → ℕ → Prop) (availLength : ℤ) (index index' : ℕ) : Prop :=
  ∃ rest : ℤ, ReflTransGen (ElementAt Element) (availLength, index) (rest, index') ∧ rest ≤ 0

section Elements

variable {Element : ℕ → BitVec 16 → ℕ → Prop}

/-- At an index there is one element at most. -/
def OnePerIndex (Element : ℕ → BitVec 16 → ℕ → Prop) : Prop :=
  ∀ i l l' j j', Element i l j → Element i l' j' → l = l' ∧ j = j'

theorem ElementAt.rightUnique (hE : OnePerIndex Element) :
    Relator.RightUnique (ElementAt Element) := by
  rintro s ⟨c, i⟩ ⟨c', i'⟩ ⟨-, l, hl, hc⟩ ⟨-, l', hl', hc'⟩
  obtain ⟨rfl, rfl⟩ := hE _ _ _ _ _ hl hl'
  exact Prod.ext (hc.trans hc'.symm) rfl

variable {availLength : ℤ}

theorem ElementsEnd.unique (hE : OnePerIndex Element) {i j : ℕ}
    (hi : ElementsEnd Element availLength index i) (hj : ElementsEnd Element availLength index j) :
    i = j := by
  obtain ⟨r, hr, hr0⟩ := hi
  obtain ⟨r', hr', hr0'⟩ := hj
  have hends : ∀ (r : ℤ) (i : ℕ), r ≤ 0 → ∀ v, ¬ ElementAt Element (r, i) v := by
    rintro r i hle v ⟨hlt, -⟩
    exact absurd hlt (Int.not_lt.mpr hle)
  exact congrArg Prod.snd
    (reaches_end_unique (ElementAt.rightUnique hE) hr (hends _ _ hr0) hr' (hends _ _ hr0'))

theorem parseNextElement_move {readFrom : ℕ → Except ParseFailure (BitVec 16 × ℕ)} {s' : ℤ × ℕ}
    (h : parseNextElement readFrom s = .ok (some s')) :
    0 < s.1 ∧ ∃ length, readFrom s.2 = .ok (length, s'.2) ∧ s'.1 = s.1 - length.toInt := by
  obtain ⟨availLength, index⟩ := s
  dsimp only [parseNextElement] at h
  split at h
  next hpos =>
    obtain ⟨⟨l, j⟩, hl, h⟩ := exists_of_bind_eq_ok h
    cases h
    exact ⟨hpos, l, hl, rfl⟩
  next => cases h

theorem ElementsEnd.le (h : ElementsEnd Element availLength index index')
    (hE : ∀ i l j, Element i l j → i ≤ j) : index ≤ index' := by
  obtain ⟨rest, hreach, -⟩ := h
  suffices hle : ∀ s, ReflTransGen (ElementAt Element) (availLength, index) s → index ≤ s.2 from
    hle _ hreach
  intro s hs
  induction hs with
  | refl => exact Nat.le_refl _
  | tail _ hstep ih =>
    obtain ⟨-, l, hl, -⟩ := hstep
    exact Nat.le_trans ih (hE _ _ _ hl)

theorem parseElements_ok {readFrom : ℕ → Except ParseFailure (BitVec 16 × ℕ)}
    (hread : ∀ i l j, readFrom i = .ok (l, j) → Element i l j) {rest : ℤ} {n : ℕ}
    (h : whileLoop .endless (parseNextElement readFrom) n (availLength, index) =
      .ok (rest, index')) :
    ElementsEnd Element availLength index index' := by
  have hmove : ∀ s s', parseNextElement readFrom s = .ok (some s') → ElementAt Element s s' := by
    intro s s' hb
    obtain ⟨hpos, l, hl, hrest⟩ := parseNextElement_move hb
    exact ⟨hpos, l, hread _ _ _ hl, hrest⟩
  obtain ⟨hreach, hstop⟩ := whileLoop_reaches hmove h
  refine ⟨rest, hreach, ?_⟩
  dsimp only [parseNextElement] at hstop
  split at hstop
  next =>
    obtain ⟨_, -, hstop⟩ := exists_of_bind_eq_ok hstop
    cases hstop
  next hneg => exact Int.not_lt.mp hneg

end Elements

variable (data) in
/-- The property of a queue at `index`: sixteen bytes for a rate. -/
def QueuePropAt (index : ℕ) (length : BitVec 16) (index' : ℕ) : Prop :=
  ∃ type : BitVec 16, numberAt data index 2 = some type ∧
    numberAt data (index + 2) 2 = some length ∧
    index' = index + if type = 1 ∨ type = 2 then 16 else 8

variable (data) in
/-- The queue at `index` with its properties. -/
def PacketQueueAt (index : ℕ) (length : BitVec 16) (index' : ℕ) : Prop :=
  numberAt data (index + 4) 2 = some length ∧
    ElementsEnd (QueuePropAt data) (length.toInt - 8) (index + 8) index'

theorem QueuePropAt.onePerIndex : OnePerIndex (QueuePropAt data) := by
  rintro i l l' j j' ⟨type, htype, hl, rfl⟩ ⟨type', htype', hl', rfl⟩
  obtain rfl := some.inj (htype.symm.trans htype')
  exact ⟨some.inj (hl.symm.trans hl'), rfl⟩

theorem QueuePropAt.le {i j : ℕ} {l : BitVec 16} (h : QueuePropAt data i l j) : i ≤ j := by
  obtain ⟨-, -, -, rfl⟩ := h
  exact Nat.le_add_right _ _

theorem PacketQueueAt.onePerIndex : OnePerIndex (PacketQueueAt data) := by
  rintro i l l' j j' ⟨hl, hj⟩ ⟨hl', hj'⟩
  obtain rfl := some.inj (hl.symm.trans hl')
  exact ⟨rfl, hj.unique QueuePropAt.onePerIndex hj'⟩

theorem readQueueProp_ok {length : BitVec 16}
    (h : OFQueueProp.readFrom data index = .ok (length, index')) :
    QueuePropAt data index length index' := by
  obtain ⟨type, htype, h⟩ := readNumber_bind_ok h
  obtain ⟨length', hlength, h⟩ := readNumber_bind_ok h
  replace h := readFields_bind_ok h
  split at h
  next hrate =>
    replace h := readFields_bind_ok h
    cases h
    exact ⟨type, htype, hlength, by rw [if_pos hrate]; rfl⟩
  next hrate =>
    cases h
    exact ⟨type, htype, hlength, by rw [if_neg hrate]; rfl⟩

theorem readPacketQueue_ok {length : BitVec 16}
    (h : OFPacketQueue.readFrom data index = .ok (length, index')) :
    PacketQueueAt data index length index' := by
  replace h := readFields_bind_ok h
  obtain ⟨length', hlength, h⟩ := readNumber_bind_ok h
  replace h := readFields_bind_ok h
  obtain ⟨⟨rest, i₄⟩, h₄, h⟩ := exists_of_bind_eq_ok h
  cases h
  exact ⟨hlength, parseElements_ok (fun _ _ _ => readQueueProp_ok) h₄⟩

/-! ### Messages that fill their length -/

variable (data) in
/-- The body of a vendor message of `length` bytes is taken for a role request
or reply. -/
def IsRoleData (length : ℕ) : Prop :=
  numberAt data 8 4 = some nxVendorId ∧ (length = 12 ∨ 16 ≤ length) ∧
    (numberAt data 12 4 = some 10 ∨ numberAt data 12 4 = some 11)

variable (data) in
/-- What a class reads of a message of the given type at the start of the
buffer ends where the length says. -/
def Fills (length : BitVec 16) : OFType → Prop
  | .hello | .featuresRequest | .getConfigRequest | .barrierRequest | .barrierReply =>
    length.toNat = 8
  | .error => 12 ≤ length.toNat
  | .echoRequest | .echoReply => 8 ≤ length.toNat
  | .vendor => IsRoleData data length.toNat → length.toNat = 20
  | .featuresReply => 32 ≤ length.toNat ∧ 48 ∣ length.toNat - 32
  | .getConfigReply | .setConfig | .queueGetConfigRequest => length.toNat = 12
  | .packetIn => True
  | .flowRemoved => length.toNat = 88
  | .portStatus => length.toNat = 64
  | .packetOut => ∀ actionsLength, numberAt data 14 2 = some actionsLength →
      ReflTransGen (ActionAt data (16 + actionsLength.toNat)) 16 (16 + actionsLength.toNat)
  | .flowMod => ReflTransGen (ActionAt data length.toNat) 72 length.toNat
  | .portMod => length.toNat = 32
  | .statsRequest => 12 ≤ length.toNat
  | .statsReply =>
    if (numberAt data 8 2).map OFStatisticsType.valueOf = some (.ok (some .flow)) then
      FlowsFill data length.toNat
    else 12 ≤ length.toNat
  | .queueGetConfigReply =>
    ElementsEnd (PacketQueueAt data) (length.toInt - 16) 16 length.toNat

section Bodies

variable {m : OFMessage}

theorem readError_ok (h : OFError.readBody data m 8 = .ok index') :
    index' = m.getLengthU ↔ 12 ≤ m.getLengthU := by
  replace h := readFields_bind_ok h
  rw [show 8 + [2, 2].sum = 12 from rfl] at h
  dsimp only at h
  split at h
  next =>
    have := (readArray_ok h).2
    omega
  next =>
    obtain rfl := Except.ok.inj h
    omega

theorem readEcho_ok (h : OFEchoRequest.readBody data m 8 = .ok index') :
    index' = m.getLengthU ↔ 8 ≤ m.getLengthU := by
  unfold OFEchoRequest.readBody at h
  dsimp only at h
  split at h
  next =>
    have := (readArray_ok h).2
    omega
  next =>
    obtain rfl := Except.ok.inj h
    omega

theorem parseVendorDataType_ok {length : ℕ} {isRole : Bool}
    (h : parseVendorDataType data (length - 12) 12 = .ok isRole)
    (hvendor : numberAt data 8 4 = some nxVendorId) :
    isRole = true ↔ IsRoleData data length := by
  unfold parseVendorDataType at h
  split at h
  next hlength =>
    obtain ⟨dataType, hdataType, h⟩ := readNumber_bind_ok h
    obtain rfl := Except.ok.inj h
    simp only [IsRoleData, hvendor, hdataType, some.injEq, decide_eq_true_eq, true_and]
    constructor
    · exact fun hrole => ⟨by omega, hrole⟩
    · exact fun hrole => hrole.2
  next hlength =>
    obtain rfl := Except.ok.inj h
    constructor
    · exact fun hfalse => nomatch hfalse
    · rintro ⟨-, hlength', -⟩
      omega

theorem readVendor_ok (h : OFVendor.readBody data m 8 = .ok index') :
    index' = m.getLengthU ↔ (IsRoleData data m.getLengthU → m.getLengthU = 20) := by
  obtain ⟨vendor, hvendor, h⟩ := readNumber_bind_ok h
  dsimp only [parseVendorData] at h
  split at h
  next hnx =>
    subst hnx
    obtain ⟨isRole, h₂, h⟩ := exists_of_bind_eq_ok h
    have hrole := parseVendorDataType_ok h₂ hvendor
    split at h
    next htrue =>
      -- role data takes eight bytes, whatever the length says
      obtain rfl := readFields_ok h
      have h20 : 8 + 4 + [4, 4].sum = 20 := rfl
      rw [h20]
      exact ⟨fun heq _ => heq.symm, fun himp => (himp (hrole.mp htrue)).symm⟩
    next hfalse =>
      have := (readArray_ok h).2
      refine iff_of_true (by omega) fun hdata => absurd (hrole.mpr hdata) hfalse
  next hnx =>
    have := (readArray_ok h).2
    refine iff_of_true (by omega) ?_
    rintro ⟨hvendor', -⟩
    exact absurd (some.inj (hvendor.symm.trans hvendor')) hnx

theorem sum_replicate_flatten (k : ℕ) (widths : List ℕ) :
    (replicate k widths).flatten.sum = k * widths.sum := by
  induction k with
  | zero => simp
  | succ k ih => rw [replicate_succ, flatten_cons, List.sum_append, ih, Nat.succ_mul,
      Nat.add_comm]

theorem portCount_eq (length : ℕ) : ((length - 32 : ℤ).tdiv 48).toNat = (length - 32) / 48 := by
  by_cases h : 32 ≤ length
  · rw [Int.tdiv_eq_ediv_of_nonneg (by omega)]
    omega
  · have hneg : (length - 32 : ℤ) = -((32 - length : ℕ) : ℤ) := by omega
    have hpos : 0 ≤ ((32 - length : ℕ) : ℤ).tdiv 48 := Int.tdiv_nonneg (by omega) (by omega)
    rw [hneg, Int.neg_tdiv]
    omega

theorem readFeaturesReply_ok (h : OFFeaturesReply.readBody data m 8 = .ok index') :
    index' = m.getLengthU ↔ 32 ≤ m.getLengthU ∧ 48 ∣ m.getLengthU - 32 := by
  replace h := readFields_bind_ok h
  obtain rfl := readFields_ok h
  rw [sum_replicate_flatten, portCount_eq, show 8 + [8, 4, 1, 3, 4, 4].sum = 32 from rfl,
    show OFPhysicalPort.fields.sum = 48 from rfl]
  omega

theorem readPacketIn_ok (h : OFPacketIn.readBody data m 8 = .ok index') :
    index' = m.getLengthU := by
  replace h := readFields_bind_ok h
  obtain ⟨reason, -, h⟩ := readNumber_bind_ok h
  dsimp only at h
  split at h
  next => cases h
  next =>
    replace h := readFields_bind_ok h
    have hindex := (readArray_ok h).2
    rw [show 8 + [4, 2, 2].sum + 1 + [1].sum = 18 from rfl] at hindex
    omega

theorem readPacketOut_ok (h : OFPacketOut.readBody data m 8 = .ok index') :
    index' = m.getLengthU ↔ ∀ actionsLength, numberAt data 14 2 = some actionsLength →
      ReflTransGen (ActionAt data (16 + actionsLength.toNat)) 16 (16 + actionsLength.toNat) := by
  obtain ⟨bufferId, -, h⟩ := readNumber_bind_ok h
  replace h := readFields_bind_ok h
  obtain ⟨actionsLength, hactions, h⟩ := readNumber_bind_ok h
  obtain ⟨i₄, h₄, h⟩ := exists_of_bind_eq_ok h
  obtain ⟨i₅, h₅, h⟩ := exists_of_bind_eq_ok h
  have hend := parseActions_ok h₄ (16 + actionsLength.toNat)
  obtain ⟨hroom, hindex⟩ := readArray_ok h₅
  have hactions' : numberAt data 14 2 = some actionsLength := hactions
  have hstop : ((8 + 4 + [2].sum + 2 : ℕ) : ℤ) + actionsLength.toNat =
      ((16 + actionsLength.toNat : ℕ) : ℤ) := by
    rw [show 8 + 4 + [2].sum + 2 = 16 from rfl]
    omega
  rw [hstop, show 8 + 4 + [2].sum + 2 = 16 from rfl, actionsEnd_stop_iff] at hend
  have hindex' : index' = i₅ := by
    split at h
    next => exact (Except.ok.inj h).symm
    next => cases h
  -- the packet has the length that the actions should have left
  have hlength : index' = m.getLengthU ↔ i₄ = 16 + actionsLength.toNat := by omega
  rw [hlength, hend]
  constructor
  · intro hfill l hl
    obtain rfl := some.inj (hactions'.symm.trans hl)
    exact_mod_cast hfill
  · intro hfill
    exact_mod_cast hfill actionsLength hactions'

theorem readFlowMod_ok (h : OFFlowMod.readBody data m 8 = .ok index') :
    index' = m.getLengthU ↔ ReflTransGen (ActionAt data m.getLengthU) 72 m.getLengthU := by
  replace h := readFields_bind_ok h
  have h72 : 8 + (OFMatch.fields ++ [8, 2, 2, 2, 2, 4, 2, 2]).sum = 72 := rfl
  rw [h72] at h
  rw [parseActions_ok h m.getLengthU, ← actionsEnd_stop_iff,
    show ((72 : ℕ) : ℤ) + (m.getLengthU - 72) = m.getLengthU from by omega]

theorem readStatistics_ok {t : OFType}
    (h : OFStatisticsMessageBase.readBody data m 8 t = .ok index') :
    ∃ i st, numberAt data 8 2 = some i ∧ OFStatisticsType.valueOf i = .ok (some st) ∧
      parseStatistics data t (some st) (m.getLengthU - 12) 12 = .ok index' := by
  obtain ⟨i, hi, h⟩ := readNumber_bind_ok h
  obtain ⟨statisticType, htype, h⟩ := exists_of_bind_eq_ok h
  replace h := readFields_bind_ok h
  cases statisticType with
  | none => cases h
  | some st => exact ⟨i, st, hi, htype, h⟩

theorem readStatsRequest_ok
    (h : OFStatisticsMessageBase.readBody data m 8 .statsRequest = .ok index') :
    index' = m.getLengthU ↔ 12 ≤ m.getLengthU := by
  obtain ⟨-, st, -, -, h⟩ := readStatistics_ok h
  have := parseStatistics_sized (.inl rfl) h
  omega

theorem readStatsReply_ok (h : OFStatisticsMessageBase.readBody data m 8 .statsReply = .ok index') :
    index' = m.getLengthU ↔
      if (numberAt data 8 2).map OFStatisticsType.valueOf = some (.ok (some .flow)) then
        FlowsFill data m.getLengthU
      else 12 ≤ m.getLengthU := by
  obtain ⟨i, st, hi, htype, h⟩ := readStatistics_ok h
  rw [hi, map_some, htype]
  by_cases hflow : st = .flow
  · subst hflow
    rw [if_pos rfl]
    exact parseFlowStatistics_ok h
  · rw [if_neg (fun heq => hflow (some.inj (Except.ok.inj (some.inj heq))))]
    have := parseStatistics_sized (.inr hflow) h
    omega

theorem readQueueGetConfigReply_ok (h : OFQueueGetConfigReply.readBody data m 8 = .ok index') :
    index' = m.getLengthU ↔
      ElementsEnd (PacketQueueAt data) (m.length.toInt - 16) 16 m.getLengthU := by
  replace h := readFields_bind_ok h
  obtain ⟨⟨rest, i₂⟩, h₂, h⟩ := exists_of_bind_eq_ok h
  obtain rfl := Except.ok.inj h
  have hend := parseElements_ok (fun _ _ _ => readPacketQueue_ok) h₂
  constructor
  · intro heq
    rw [← heq]
    exact hend
  · -- queues that lie end to end up to the length end where the loop did
    exact hend.unique PacketQueueAt.onePerIndex

/-- A class that reads a fixed layout stops at the end of its message exactly if
that is how long the message is. -/
theorem readFixed_ok {size : ℕ} (hsize : 8 + widths.sum = size)
    (h : readFields data widths 8 = .ok index') :
    index' = m.getLengthU ↔ m.getLengthU = size := by
  rw [readFields_ok h, hsize, eq_comm]

/-- A class stops reading at the end of its message exactly if the message
fills its length. -/
theorem readBody_eq_length_iff {t : OFType} (h : readBody data m 8 t = .ok index') :
    index' = m.getLengthU ↔ Fills data m.length t := by
  cases t with
  | hello | featuresRequest | getConfigRequest | barrierRequest | barrierReply =>
    obtain rfl := Except.ok.inj h
    exact eq_comm
  | error => exact readError_ok h
  | echoRequest | echoReply => exact readEcho_ok h
  | vendor => exact readVendor_ok h
  | featuresReply => exact readFeaturesReply_ok h
  | getConfigReply | setConfig | queueGetConfigRequest => exact readFixed_ok rfl h
  | packetIn => exact iff_of_true (readPacketIn_ok h) trivial
  | flowRemoved | portStatus | portMod => exact readFixed_ok rfl h
  | packetOut => exact readPacketOut_ok h
  | flowMod => exact readFlowMod_ok h
  | statsRequest => exact readStatsRequest_ok h
  | statsReply => exact readStatsReply_ok h
  | queueGetConfigReply => exact readQueueGetConfigReply_ok h

end Bodies

variable (data) in
/-- The buffer starts with the header of a message of a known type that fills
its length. -/
def Filled : Prop :=
  ∃ m t, OFMessage.readFrom data 0 = .ok (m, 8) ∧ m.type = some t ∧ Fills data m.length t

theorem readHeader_ok {m : OFMessage} (h : OFMessage.readFrom data 0 = .ok (m, index')) :
    index' = 8 ∧ 8 ≤ data.length := by
  obtain ⟨version, -, h⟩ := readNumber_bind_ok h
  obtain ⟨i, -, h⟩ := readNumber_bind_ok h
  obtain ⟨type, -, h⟩ := exists_of_bind_eq_ok h
  obtain ⟨length, -, h⟩ := readNumber_bind_ok h
  obtain ⟨xid, hxid, h⟩ := readNumber_bind_ok h
  cases h
  exact ⟨rfl, numberAt_le_length hxid⟩

/-- A message that is returned has the header at the start of the buffer, and
its class has read the rest. -/
theorem parseMessageOne_ok {m : OFMessage} (h : parseMessageOne data = .ok (some (m, n))) :
    ∃ t, OFMessage.readFrom data 0 = .ok (m, 8) ∧ m.type = some t ∧
      readBody data m 8 t = .ok n := by
  unfold parseMessageOne at h
  split at h
  next => cases h
  next =>
    obtain ⟨⟨demux, i⟩, hheader, h⟩ := exists_of_bind_eq_ok h
    obtain ⟨rfl, -⟩ := readHeader_ok hheader
    dsimp only at h
    split at h
    next => cases h
    next =>
      split at h
      next => cases h
      next t ht =>
        obtain ⟨⟨ofm, i⟩, hheader', h⟩ := exists_of_bind_eq_ok h
        obtain ⟨rfl, rfl⟩ := Prod.mk.inj (Except.ok.inj (hheader.symm.trans hheader'))
        obtain ⟨index, hbody, h⟩ := exists_of_bind_eq_ok h
        cases h
        exact ⟨t, hheader, ht, hbody⟩

theorem parseMessageOne_of_body {m : OFMessage} {t : OFType}
    (hheader : OFMessage.readFrom data 0 = .ok (m, 8)) (ht : m.type = some t)
    (hlength : m.getLengthU ≤ data.length) (hbody : readBody data m 8 t = .ok n) :
    parseMessageOne data = .ok (some (m, n)) := by
  have h8 := (readHeader_ok hheader).2
  unfold parseMessageOne
  rw [if_neg (Nat.not_lt.mpr h8), hheader]
  show (if data.length < m.getLengthU then _ else _) = _
  rw [if_neg (Nat.not_lt.mpr hlength), ht]
  show (readBody data m 8 t >>= _) = _
  rw [hbody]
  rfl

/-- The parser goes on behind the message it returns exactly if that message
fills its length. -/
theorem consumed_eq_length_iff {m : OFMessage} (h : parseMessageOne data = .ok (some (m, n))) :
    n = m.getLengthU ↔ Filled data := by
  obtain ⟨t, hheader, ht, hbody⟩ := parseMessageOne_ok h
  rw [readBody_eq_length_iff hbody]
  constructor
  · exact fun hfills => ⟨m, t, hheader, ht, hfills⟩
  · rintro ⟨m', t', hheader', ht', hfills⟩
    obtain rfl : m = m' := congrArg Prod.fst (Except.ok.inj (hheader.symm.trans hheader'))
    obtain rfl := some.inj (ht.symm.trans ht')
    exact hfills

/-! ### Enough rounds

The loops of the model stop after more rounds than the buffer has bytes.  A
round that goes on has read something, except for an action of a vendor with an
unknown subtype; there the source adds to its list for ever. -/

variable {rounds : ℕ}

/-- Where the list of actions stops does not depend on the number of rounds, if
there are more than bytes. -/
theorem parseActions_rounds (hrounds : data.length < rounds) :
    parseActions data length index =
      whileLoop .endless (parseNextAction data (index + length)) rounds index := by
  refine whileLoop_rounds (fun i => data.length - i) ?_ (by omega) (by omega)
  intro i i' h
  obtain ⟨_, l, type, hi, -, -, -, -, -, hi'⟩ := parseNextAction_move h
  have hlt := numberAt_le_length hi
  obtain hzero | hpos := Nat.eq_zero_or_pos (actionSize data i l type)
  · exact .inr (by rw [hi', hzero, Nat.add_zero])
  · exact .inl (by omega)

theorem ActionsEnd.le {stop : ℤ} (h : ActionsEnd data stop index index') : index ≤ index' := by
  obtain ⟨hreach, -⟩ := h
  induction hreach with
  | refl => exact Nat.le_refl _
  | tail _ hstep ih =>
    obtain ⟨_, _, _, -, -, -, -, -, -, rfl⟩ := hstep
    omega

variable (data) in
/-- Reading begins inside the buffer and goes forward. -/
def Advances {α : Type} (read : ℕ → Except ParseFailure (α × ℕ)) : Prop :=
  ∀ i a j, read i = .ok (a, j) → i < data.length ∧ i < j

theorem parseNextStatistics_rounds (h : Advances data statistics.readFrom) {rounds' : ℕ}
    (hrounds : data.length < rounds) (hrounds' : data.length < rounds') :
    whileLoop .endless (parseNextStatistics statistics length) rounds s =
      whileLoop .endless (parseNextStatistics statistics length) rounds' s := by
  refine whileLoop_rounds (fun s => data.length - s.2) ?_ (by omega) (by omega)
  intro s s' hmove
  obtain ⟨-, l, hread, -⟩ := parseNextStatistics_move hmove
  obtain ⟨hlt, hforward⟩ := h _ _ _ hread
  exact .inl (by omega)

theorem OFStatistics.ofFields_advances (hpos : 0 < widths.sum) :
    Advances data (OFStatistics.ofFields data length widths).readFrom := by
  intro i a j h
  obtain ⟨i', hi', h⟩ := exists_of_bind_eq_ok h
  cases h
  have := readFields_le_length hi' hpos
  have := readFields_ok hi'
  omega

theorem OFVendorStatistics.new_advances :
    Advances data (OFVendorStatistics.new data length).readFrom := by
  intro i a j h
  obtain ⟨i₁, h₁, h⟩ := exists_of_bind_eq_ok h
  obtain ⟨i₂, h₂, h⟩ := exists_of_bind_eq_ok h
  cases h
  have := readFields_le_length h₁ (Nat.succ_pos 3)
  have : i₁ = i + 4 := readFields_ok h₁
  have := readArray_ok h₂
  omega

theorem OFFlowStatisticsReply.new_advances :
    Advances data (OFFlowStatisticsReply.new data).readFrom := by
  intro i a j h
  obtain ⟨length, hlength, -, hend⟩ := readFlowStatistics_ok h
  have := numberAt_le_length hlength
  have := hend.le
  omega

theorem getStatistics_advances (t : OFType) (length : ℤ) (st : OFStatisticsType) :
    Advances data (getStatistics data t length st).readFrom := by
  cases st with
  | desc | table => exact OFStatistics.ofFields_advances (by decide)
  | flow =>
    dsimp only [getStatistics]
    split
    · exact OFStatistics.ofFields_advances (by decide)
    · exact OFFlowStatisticsReply.new_advances
  | aggregate | port | queue =>
    dsimp only [getStatistics]
    split
    · exact OFStatistics.ofFields_advances (by decide)
    · exact OFStatistics.ofFields_advances (by decide)
  | vendor => exact OFVendorStatistics.new_advances

theorem parseStatistics_rounds (t : OFType) (length : ℤ) (st : OFStatisticsType)
    (hrounds : data.length < rounds) :
    whileLoop .endless (parseNextStatistics (getStatistics data t length st) length) rounds s =
      whileLoop .endless (parseNextStatistics (getStatistics data t length st) length)
        (data.length + 1) s :=
  parseNextStatistics_rounds (getStatistics_advances t length st) hrounds (Nat.lt_succ_self _)

theorem parseNextElement_rounds {readFrom : ℕ → Except ParseFailure (BitVec 16 × ℕ)}
    (h : Advances data readFrom) {rounds' : ℕ} (hrounds : data.length < rounds)
    (hrounds' : data.length < rounds') :
    whileLoop .endless (parseNextElement readFrom) rounds s =
      whileLoop .endless (parseNextElement readFrom) rounds' s := by
  refine whileLoop_rounds (fun s => data.length - s.2) ?_ (by omega) (by omega)
  intro s s' hmove
  obtain ⟨-, l, hread, -⟩ := parseNextElement_move hmove
  obtain ⟨hlt, hforward⟩ := h _ _ _ hread
  exact .inl (by omega)

theorem readQueueProp_advances : Advances data (OFQueueProp.readFrom data) := by
  intro i a j h
  obtain ⟨type, htype, -, rfl⟩ := readQueueProp_ok h
  have := numberAt_le_length htype
  split
  · omega
  · omega

theorem readPacketQueue_advances : Advances data (OFPacketQueue.readFrom data) := by
  intro i a j h
  obtain ⟨hlength, hend⟩ := readPacketQueue_ok h
  have := numberAt_le_length hlength
  have := hend.le fun _ _ _ => QueuePropAt.le
  omega

theorem parseQueues_rounds (hrounds : data.length < rounds) :
    whileLoop .endless (parseNextElement (OFPacketQueue.readFrom data)) rounds s =
        whileLoop .endless (parseNextElement (OFPacketQueue.readFrom data)) (data.length + 1) s ∧
      whileLoop .endless (parseNextElement (OFQueueProp.readFrom data)) rounds s =
        whileLoop .endless (parseNextElement (OFQueueProp.readFrom data)) (data.length + 1) s :=
  ⟨parseNextElement_rounds readPacketQueue_advances hrounds (Nat.lt_succ_self _),
    parseNextElement_rounds readQueueProp_advances hrounds (Nat.lt_succ_self _)⟩

/-! ### Limits -/

section Limits

variable {σ ε : Type}

/-- The loop, and what is done where it stopped. -/
def collectUpTo (out : ε) (body : σ → Except ε (Option σ)) (finish : Option σ → Except ε Unit)
    (rounds : ℕ) (s : σ) (limit : ℕ) : Except ε (List σ) := do
  let (results, last) ← collect out body limit (rounds + limit + 2) s []
  finish last
  return results

/-- What is returned is the beginning of what is returned without limit. -/
def RespectsLimit (parse : ℕ → Except ε (List σ)) (limit : ℕ) : Prop :=
  ∀ all results, parse 0 = .ok all → parse limit = .ok results → results = all.take limit

variable {out : ε} {body : σ → Except ε (Option σ)} {s : σ} {limit : ℕ}

theorem respectsLimit_iff {finish : Option σ → Except ε Unit} (hfinish : finish none = .ok ())
    (rounds : ℕ) :
    RespectsLimit (collectUpTo out body finish rounds s) (limit + 1) ↔
      ∀ all, collectUpTo out body finish rounds s 0 = .ok all → all.length ≤ limit + 1 := by
  have htake (all) (hall : collectUpTo out body finish rounds s 0 = .ok all) :
      collectUpTo out body finish rounds s (limit + 1) = .ok (all.take (limit + 2)) := by
    obtain ⟨⟨_, last⟩, hcollect, hall⟩ := exists_of_bind_eq_ok hall
    obtain ⟨⟨⟩, hlast, hall⟩ := exists_of_bind_eq_ok hall
    cases hall
    obtain ⟨last', htake, hlast'⟩ := collect_take (m := rounds + (limit + 1) + 2) hcollect
      (Nat.zero_le (limit + 2)) (by rw [length_nil]; omega)
    have hfinish' : finish last' = .ok () := by
      rcases hlast' with rfl | rfl
      · exact hfinish
      · exact hlast
    simp [collectUpTo, htake, hfinish', bind, Except.bind, pure, Except.pure]
  constructor
  · intro hrespects all hall
    have hlength := congrArg length (hrespects all _ hall (htake all hall))
    rw [length_take, length_take] at hlength
    omega
  · intro hshort all results hall hresults
    have hlength := hshort all hall
    rw [htake all hall] at hresults
    cases hresults
    rw [take_of_length_le hlength, take_of_length_le (by omega)]

variable (data)

/-- `parseActions` with a limit.  Actions are given by the indexes where they begin. -/
def parseActionsUpTo (length : ℤ) (index : ℕ) : ℕ → Except ParseFailure (List ℕ) :=
  collectUpTo .endless (parseNextAction data (index + length)) (fun _ => .ok ()) data.length index

def parseStatisticsUpTo (t : OFType) (st : Option OFStatisticsType) (length : ℤ) (start : ℕ) :
    ℕ → Except ParseFailure (List (ℤ × ℕ)) :=
  match st with
  | none => fun _ => .error .nullPointer
  | some st =>
    collectUpTo .endless (parseNextStatistics (getStatistics data t length st) length)
      (fun
        | some (count, _) =>
          if count < length then (setReaderIndex data (start + length)).map fun _ => () else .ok ()
        | none => .ok ())
      data.length (0, start)

/-- **The limits of `parseActions` and `parseStatistics` are kept** exactly if there are no more
elements than that.  Where there are more, the loops return one more than the limit: they
compare the count before they read the next element, and stop when it is exceeded. -/
theorem limits_respected_iff (length : ℤ) (index : ℕ) (t : OFType) (st : Option OFStatisticsType)
    (limit : ℕ) :
    (RespectsLimit (parseActionsUpTo data length index) (limit + 1) ↔
      ∀ all, parseActionsUpTo data length index 0 = .ok all → all.length ≤ limit + 1) ∧
    (RespectsLimit (parseStatisticsUpTo data t st length index) (limit + 1) ↔
      ∀ all, parseStatisticsUpTo data t st length index 0 = .ok all → all.length ≤ limit + 1) := by
  constructor
  · unfold parseActionsUpTo
    exact respectsLimit_iff rfl _
  · cases st with
    | none => exact iff_of_true nofun nofun
    | some st =>
      unfold parseStatisticsUpTo
      exact respectsLimit_iff rfl _

/-- Of two actions, the limit 1 leaves both. -/
theorem limit_exceeded : ¬ RespectsLimit
    (parseActionsUpTo [0, 0, 0, 8, 0, 1, 0, 0, 0, 0, 0, 8, 0, 2, 0, 0] 16 0) 1 := by
  intro h
  exact absurd (h [0, 8] [0, 8] rfl rfl) (by decide)

end Limits

end NctuSdn
