/-
The number of flows to reconcile in a round (`FlowReconcileManager.getCurrentCapacity`).

The rate of packet-ins is a quotient of `long`s that is cast to `int`.  For a counter
that was reset or rolled over it is too large for an `int`; the cast may leave a
negative rate, which is subtracted from the maximal load.

The counter that is kept for the next round is a copy with its own date, but it shares
the `CounterValue` of the live one.  So an increment changes both, and only a counter
that was given another value since, by `reset` or `setCounter`, has a rate other than
zero (`getPktInRate_increments`).

Counters are of type LONG; a counter without date or value is the same as none.
-/
import Mathlib.Algebra.Ring.Int.Defs
import Mathlib.Algebra.Ring.Nat
import Mathlib.Tactic.Common

namespace NctuSdn.FlowReconcile

def maxSystemLoadPerSecond : ℤ := 10000

def minFlowReconcilePerSecond : ℤ := 200

def flowReconcileDelayMillisec : ℤ := 10

/-- The cast to `int`, and what is left of an operation on `int`s. -/
def toInt (x : ℤ) : ℤ := x.bmod (2 ^ 32)

/-- What is left of an operation on `long`s. -/
def toLong (x : ℤ) : ℤ := x.bmod (2 ^ 64)

/-! ### Counters -/

/-- A `CounterValue` object. -/
abbrev CounterRef := ℕ

/-- The `longValue` of each of them. -/
abbrev CounterValues := CounterRef → ℤ

/-- A counter, with its date in milliseconds. -/
structure SimpleCounter where
  samplingTime : ℤ
  counter : CounterRef
deriving DecidableEq, Repr

namespace SimpleCounter

variable (c : SimpleCounter) (values : CounterValues)

def getLong : ℤ := values c.counter

/-- `createCounter` for a copy.  The value is not copied. -/
def createCounter (copy : SimpleCounter) : SimpleCounter := ⟨copy.samplingTime, copy.counter⟩

def increment (d delta : ℤ) : SimpleCounter × CounterValues :=
  (⟨d, c.counter⟩, Function.update values c.counter (toLong (values c.counter + delta)))

/-- `reset`: the counter gets a new `CounterValue`. -/
def reset (now : ℤ) (new : CounterRef) : SimpleCounter × CounterValues :=
  (⟨now, new⟩, Function.update values new 0)

end SimpleCounter

/-! ### The capacity -/

def getPktInRate (values : CounterValues) (lastPacketInCounter newCnt : SimpleCounter)
    (currentTime : ℤ) : ℤ :=
  if newCnt.samplingTime < lastPacketInCounter.samplingTime then maxSystemLoadPerSecond
  else
    let elapsedTimeInSecond := (toLong (currentTime - lastPacketInCounter.samplingTime)).tdiv 1000
    if elapsedTimeInSecond = 0 then 0
    else
      let newLong := newCnt.getLong values
      let oldLong := lastPacketInCounter.getLong values
      let diff :=
        -- roll over event
        if newLong < oldLong then toLong (toLong (2 ^ 63 - 1 - oldLong) + newLong)
        else toLong (newLong - oldLong)
      toInt (diff.tdiv elapsedTimeInSecond)

def minCapacity : ℤ := (minFlowReconcilePerSecond * flowReconcileDelayMillisec).tdiv 1000

def capacityAt (pktInRate : ℤ) : ℤ :=
  if toInt (pktInRate + minFlowReconcilePerSecond) ≤ maxSystemLoadPerSecond then
    (toInt (toInt (maxSystemLoadPerSecond - pktInRate) * flowReconcileDelayMillisec)).tdiv 1000
  else minCapacity

/-- `getCurrentCapacity`, with the counter to compare with the next time. -/
def getCurrentCapacity (values : CounterValues)
    (lastPacketInCounter pktInCounter : Option SimpleCounter) (currentTime : ℤ) :
    ℤ × Option SimpleCounter :=
  match pktInCounter, lastPacketInCounter with
  | none, last => (minCapacity, last)
  | some cnt, none => (minCapacity, some cnt.createCounter)
  | some cnt, some last =>
    (capacityAt (getPktInRate values last cnt currentTime), some cnt.createCounter)

/-! ### Counters that are only incremented -/

/-- Increments one after the other, each with its date and its amount. -/
def SimpleCounter.increments (c : SimpleCounter) (values : CounterValues) :
    List (ℤ × ℤ) → SimpleCounter × CounterValues
  | [] => (c, values)
  | (d, delta) :: rest =>
    let (c, values) := c.increment values d delta
    c.increments values rest

theorem SimpleCounter.counter_increments (c : SimpleCounter) (values : CounterValues)
    (ops : List (ℤ × ℤ)) : (c.increments values ops).1.counter = c.counter := by
  induction ops generalizing c values with
  | nil => rfl
  | cons op ops ih => exact ih _ _

/-- **Increments are not seen.**  Whatever was counted since the copy was made, the rate
is zero, because the copy has counted it as well. -/
theorem getPktInRate_increments (c : SimpleCounter) (values : CounterValues)
    (ops : List (ℤ × ℤ)) (currentTime : ℤ)
    (htime : c.samplingTime ≤ (c.increments values ops).1.samplingTime) :
    getPktInRate (c.increments values ops).2 c.createCounter (c.increments values ops).1
      currentTime = 0 := by
  have hlong : (c.increments values ops).1.getLong (c.increments values ops).2 =
      c.createCounter.getLong (c.increments values ops).2 :=
    congrArg _ (c.counter_increments values ops)
  have hnot : ¬ (c.increments values ops).1.samplingTime < c.createCounter.samplingTime :=
    Int.not_lt.mpr htime
  unfold getPktInRate
  rw [if_neg hnot, hlong]
  dsimp only
  split_ifs with hzero hroll
  · rfl
  · exact absurd hroll (Int.lt_irrefl _)
  · rw [Int.sub_self]
    exact congrArg toInt (Int.zero_tdiv _)

/-! ### Bounds -/

/-- Between the capacities for the minimal number of flows and for the maximal load. -/
def Bounded (capacity : ℤ) : Prop :=
  minCapacity ≤ capacity ∧
    capacity ≤ (maxSystemLoadPerSecond * flowReconcileDelayMillisec).tdiv 1000

/-- Values are not negative, and dates do not decrease from the last counter over the
live one to the current time. -/
structure Orderly (values : CounterValues) (last cnt : SimpleCounter) (currentTime : ℤ) :
    Prop where
  values : ∀ r, 0 ≤ values r ∧ values r < 2 ^ 63
  last_le : last.samplingTime ≤ cnt.samplingTime
  le_current : cnt.samplingTime ≤ currentTime
  elapsed_lt : currentTime - last.samplingTime < 2 ^ 63

/-- The packets from one value of the counter to the next, around the largest `long` if
the next one is smaller. -/
def packetsBetween (old new : ℤ) : ℤ := if old ≤ new then new - old else 2 ^ 63 - 1 - old + new

/-- A number of packets per second whose cast to `int` is not negative (and 200 below
the largest), or for which ten times the number is no more than 98000 above or 999 below
a multiple of 2^32. -/
def GoodRate (rate : ℤ) : Prop := rate % 2 ^ 32 < 2 ^ 31 - 200 ∨ (10 * rate + 999) % 2 ^ 32 < 99000

theorem tdiv_bounds (x : ℤ) :
    (2 ≤ x.tdiv 1000 ∧ x.tdiv 1000 ≤ 100) ↔ 2000 ≤ x ∧ x < 101000 := by
  rcases Int.le_total 0 x with hx | hx
  · rw [Int.tdiv_eq_ediv_of_nonneg hx]
    omega
  · have hneg : x.tdiv 1000 = -(-x / 1000) := by
      rw [← Int.tdiv_eq_ediv_of_nonneg (Int.neg_nonneg_of_nonpos hx), Int.neg_tdiv, Int.neg_neg]
    omega

theorem bounded_minCapacity : Bounded minCapacity := ⟨Int.le_refl _, by decide⟩

theorem bmod_bounds (x : ℤ) :
    (2000 ≤ (100999 - x).bmod (2 ^ 32) ∧ (100999 - x).bmod (2 ^ 32) < 101000) ↔
      x % 2 ^ 32 < 99000 := by
  rw [Int.bmod_def]
  split_ifs <;> omega

theorem bounded_capacityAt_iff {rate : ℤ} (hlow : -2 ^ 31 ≤ rate) (hhigh : rate < 2 ^ 31) :
    Bounded (capacityAt rate) ↔ GoodRate rate := by
  unfold capacityAt GoodRate toInt maxSystemLoadPerSecond minFlowReconcilePerSecond
    flowReconcileDelayMillisec
  rw [Int.bmod_mul_bmod]
  split_ifs with hsmall
  · have hproduct : (10000 - rate) * 10 = 100999 - (10 * rate + 999) := by omega
    refine (tdiv_bounds _).trans ?_
    rw [hproduct, bmod_bounds]
    refine (or_iff_right_of_imp fun hrate => ?_).symm
    have hrange : 0 ≤ rate ∧ rate ≤ 9800 := by
      rw [Int.bmod_def] at hsmall
      split_ifs at hsmall <;> omega
    rw [Int.emod_eq_of_lt (by omega) (by omega)]
    omega
  · -- a sum that wrapped around would not be above the maximal load
    refine iff_of_true bounded_minCapacity (.inl ?_)
    rw [Int.bmod_def] at hsmall
    split_ifs at hsmall <;> omega

/-- Only the cast of a rate counts. -/
theorem goodRate_toInt (rate : ℤ) : GoodRate (toInt rate) ↔ GoodRate rate := by
  have hmod : rate.bmod (2 ^ 32) % 2 ^ 32 = rate % 2 ^ 32 := Int.bmod_emod
  unfold GoodRate toInt
  rw [hmod, Int.add_emod, Int.mul_emod, hmod, ← Int.mul_emod, ← Int.add_emod]

section Domain

variable {values : CounterValues} {last cnt : SimpleCounter} {currentTime : ℤ}

/-- The rate is the number of packets since the last time, per second, as an `int`. -/
theorem Orderly.getPktInRate_eq (h : Orderly values last cnt currentTime) :
    getPktInRate values last cnt currentTime =
      if currentTime - last.samplingTime < 1000 then 0
      else toInt (packetsBetween (last.getLong values) (cnt.getLong values) /
        ((currentTime - last.samplingTime) / 1000)) := by
  obtain ⟨hold₀, hold⟩ := h.values last.counter
  obtain ⟨hnew₀, hnew⟩ := h.values cnt.counter
  have hlast := h.last_le
  have hcurrent := h.le_current
  have helapsed := h.elapsed_lt
  have hlong : ∀ x : ℤ, 0 ≤ x → x < 2 ^ 63 → toLong x = x :=
    fun x h₀ h₁ => Int.bmod_eq_of_le (by omega) (by omega)
  unfold getPktInRate packetsBetween SimpleCounter.getLong
  rw [if_neg (by omega), hlong _ (by omega) helapsed, Int.tdiv_eq_ediv_of_nonneg (by omega)]
  dsimp only
  by_cases hshort : currentTime - last.samplingTime < 1000
  · rw [if_pos hshort, if_pos (by omega)]
  · rw [if_neg hshort, if_neg (by omega)]
    congr 1
    by_cases hle : values last.counter ≤ values cnt.counter
    · rw [if_pos hle, if_neg (by omega), hlong _ (by omega) (by omega),
        Int.tdiv_eq_ediv_of_nonneg (by omega)]
    · rw [if_neg hle, if_pos (by omega), hlong (2 ^ 63 - 1 - values last.counter) (by omega)
        (by omega), hlong _ (by omega) (by omega), Int.tdiv_eq_ediv_of_nonneg (by omega)]

end Domain

/-- **The capacity is bounded** exactly if there is no last or no live counter, less than
a second has passed since the last one, or the packets per second make a good rate. -/
theorem capacity_bounded_iff {values : CounterValues} {last pktInCounter : Option SimpleCounter}
    {currentTime : ℤ}
    (h : ∀ l ∈ last, ∀ cnt ∈ pktInCounter, Orderly values l cnt currentTime) :
    Bounded (getCurrentCapacity values last pktInCounter currentTime).1 ↔
      ∀ l ∈ last, ∀ cnt ∈ pktInCounter, currentTime - l.samplingTime < 1000 ∨
        GoodRate (packetsBetween (l.getLong values) (cnt.getLong values) /
          ((currentTime - l.samplingTime) / 1000)) := by
  cases pktInCounter with
  | none => exact iff_of_true bounded_minCapacity nofun
  | some cnt =>
    cases last with
    | none => exact iff_of_true bounded_minCapacity nofun
    | some last =>
      simp only [Option.mem_some_iff, forall_eq'] at h ⊢
      show Bounded (capacityAt (getPktInRate values last cnt currentTime)) ↔ _
      rw [h.getPktInRate_eq]
      split_ifs with hshort
      · exact iff_of_true ⟨by decide, by decide⟩ (.inl hshort)
      · rw [or_iff_right hshort, ← goodRate_toInt]
        exact bounded_capacityAt_iff (Int.le_bmod (by decide)) (Int.bmod_lt (by decide))

def setValues : CounterValues := fun r => if r = 0 then 100 else 4100

/-- 4000 packets in two seconds, by a counter that was set. -/
theorem capacity_bounded_set :
    Orderly setValues ⟨0, 0⟩ ⟨2000, 1⟩ 2000 ∧
      Bounded (getCurrentCapacity setValues (some ⟨0, 0⟩) (some ⟨2000, 1⟩) 2000).1 := by
  have h : Orderly setValues ⟨0, 0⟩ ⟨2000, 1⟩ 2000 := by
    refine ⟨fun r => ?_, by decide, by decide, by decide⟩
    unfold setValues
    split_ifs <;> decide
  refine ⟨h, (capacity_bounded_iff ?_).mpr ?_⟩
  · rintro l ⟨⟩ cnt ⟨⟩
    exact h
  · rintro l ⟨⟩ cnt ⟨⟩
    exact .inr (.inl (by decide))

/-- The counter stood at 150 when the copy was made, and is reset a second later. -/
theorem capacity_after_reset :
    let last := SimpleCounter.createCounter ⟨0, 0⟩
    let (cnt, values) := SimpleCounter.reset (fun _ => 150) 1000 1
    Orderly values last cnt 1000 ∧
      ¬ Bounded (getCurrentCapacity values (some last) (some cnt) 1000).1 := by
  refine ⟨⟨fun r => ?_, by decide, by decide, by decide⟩, fun h => absurd h.2 (by decide)⟩
  by_cases hr : r = 1
  · rw [hr, Function.update_self]
    decide
  · rw [Function.update_of_ne hr]
    decide

end NctuSdn.FlowReconcile
