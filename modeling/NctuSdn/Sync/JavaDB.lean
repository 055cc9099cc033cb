/-
Two puts on one row of the persistent storage engine
(`JavaDBStorageEngine.put`).

A put reads the list of versions of its key with a SELECT, scans it as the
in-memory engine does, writes the whole list back with an UPDATE, and commits.
Each call has its own connection, at the level READ COMMITTED: a SELECT sees
the last committed row, and an UPDATE replaces it at the commit.  A schedule
says whose statement is next.

A put is *overtaken* if the other one commits between its SELECT and its
commit (`Overtaken`).  It then writes a list without the other's version.
-/
import Mathlib.Data.List.Induction
import NctuSdn.Sync.Store

namespace NctuSdn

open List Function

variable {V : Type*} [DecidableEq V]

/-! ### One call -/

/-- Why a put throws: the version is obsolete, or the database refuses. -/
inductive PutError
  | obsoleteVersion
  | persist
deriving DecidableEq, Repr

/-- Which statement of a put is next. -/
inductive PutPhase (V : Type*)
  | start
  | selected (values : List (Versioned V))
  | updated (row : List (Versioned V))
  | returned
  | failed (e : PutError)
deriving DecidableEq

/-- The list that a put writes, given the one it has read.  An empty list is
taken for a missing row, and the INSERT fails on the key. -/
def newRow (value : Versioned V) (values : List (Versioned V)) :
    Except PutError (List (Versioned V)) :=
  match scanItems value values [] with
  | none => .error .obsoleteVersion
  | some itemsToRemove =>
    if values = [] then .error .persist else .ok (values.removeAll itemsToRemove ++ [value])

/-- The next statement of a put, on a row that exists: the row that is
committed, and where the put stands. -/
def putStep (value : Versioned V) (row : List (Versioned V)) :
    PutPhase V → List (Versioned V) × PutPhase V
  | .start => (row, .selected row)
  | .selected values =>
    match newRow value values with
    | .error e => (row, .failed e)
    | .ok row' => (row, .updated row')
  | .updated row' => (row', .returned)
  | .returned => (row, .returned)
  | .failed e => (row, .failed e)

/-! ### Two calls -/

/-- The committed row and the two calls. -/
structure PutSystem (V : Type*) where
  row : List (Versioned V)
  phase : Bool → PutPhase V

def PutSystem.begin (row : List (Versioned V)) : PutSystem V := ⟨row, fun _ => .start⟩

/-- One statement of the call `i`. -/
def PutSystem.step (v : Bool → Versioned V) (s : PutSystem V) (i : Bool) : PutSystem V :=
  let r := putStep (v i) s.row (s.phase i)
  ⟨r.1, Function.update s.phase i r.2⟩

def PutSystem.run (v : Bool → Versioned V) (s : PutSystem V) (sched : List Bool) : PutSystem V :=
  sched.foldl (PutSystem.step v) s

/-- All of `i` before all of the other. -/
def serial (i : Bool) : List Bool := [i, i, i, !i, !i, !i]

/-- The row is what the puts leave one after the other, in some order. -/
def Serializable (v : Bool → Versioned V) (row final : List (Versioned V)) : Prop :=
  ∃ i, final = ((PutSystem.begin row).run v (serial i)).row

/-- The other call commits after the SELECT of `o` and before its commit. -/
def Overtaken (o : Bool) (sched : List Bool) : Prop :=
  ∃ before rest, sched = before ++ (!o) :: rest ∧ before.count (!o) = 2 ∧
    0 < before.count o ∧ before.count o < 3

/-! ### The list that is written -/

section NewRow

variable {value : Versioned V} {values row : List (Versioned V)}

theorem newRow_eq_ok_iff : newRow value values = .ok row ↔
    values ≠ [] ∧ ¬ Below Versioned.rank values value.rank ∧
      row = insertMax Versioned.rank values value := by
  have hput : stored (doput (some values) value).1 = insertMax Versioned.rank values value :=
    stored_doput (some values) value
  have hbelow := scanItems_eq_none_iff value values []
  unfold doput at hput
  unfold newRow
  dsimp only at hput
  cases hscan : scanItems value values [] with
  | none => simp [hbelow.mp hscan]
  | some itemsToRemove =>
    rw [hscan] at hput
    have hnot : ¬ Below Versioned.rank values value.rank := by
      rw [← hbelow, hscan]
      simp
    by_cases hnil : values = []
    · simp [hnil]
    · simp only [hnil, if_false, Except.ok.injEq, ne_eq, not_false_eq_true, hnot, true_and]
      rw [← hput]
      exact eq_comm

theorem newRow_isOk (hne : values ≠ []) (hnot : ¬ Below Versioned.rank values value.rank) :
    newRow value values = .ok (insertMax Versioned.rank values value) :=
  newRow_eq_ok_iff.mpr ⟨hne, hnot, rfl⟩

theorem newRow_of_below (h : Below Versioned.rank values value.rank) :
    newRow value values = .error .obsoleteVersion := by
  unfold newRow
  rw [(scanItems_eq_none_iff value values []).mpr h]

end NewRow

/-! ### Stages of a run -/

/-- A call that has not committed has made `n` statements, and its SELECT has
seen `base`. -/
def Pending (value : Versioned V) (base : List (Versioned V)) (n : ℕ) (p : PutPhase V) : Prop :=
  (n = 0 ∧ p = .start) ∨ (n = 1 ∧ p = .selected base) ∨
    (n = 2 ∧ ∃ row, p = .updated row ∧ newRow value base = .ok row)

/-- What is known of the calls after a schedule that has not failed. -/
inductive Stage (v : Bool → Versioned V) (row : List (Versioned V)) (sched : List Bool)
    (s : PutSystem V) : Prop
  /-- Nobody has committed. -/
  | idle (hrow : s.row = row) (hfree : ∀ o, ¬ Overtaken o sched)
      (hpending : ∀ o, Pending (v o) row (sched.count o) (s.phase o))
  /-- One call has committed; the other has seen its row unless overtaken. -/
  | half (i : Bool) (mine : List (Versioned V)) (hmine : newRow (v i) row = .ok mine)
      (hrow : s.row = mine) (hdone : s.phase i = .returned) (hcount : 3 ≤ sched.count i)
      (hfree : ¬ Overtaken i sched) (base : List (Versioned V))
      (hbase : (Overtaken (!i) sched ∧ base = row) ∨ (¬ Overtaken (!i) sched ∧ base = mine))
      (hpending : Pending (v !i) base (sched.count !i) (s.phase !i))
  /-- Both have committed, `i` first. -/
  | full (i : Bool) (mine : List (Versioned V)) (hmine : newRow (v i) row = .ok mine)
      (hfree : ¬ Overtaken i sched) (hcount : ∀ o, 3 ≤ sched.count o)
      (hdone : ∀ o, s.phase o = .returned) (base : List (Versioned V))
      (hbase : (Overtaken (!i) sched ∧ base = row) ∨ (¬ Overtaken (!i) sched ∧ base = mine))
      (hlast : newRow (v !i) base = .ok s.row)
  /-- Somebody has failed. -/
  | failed (i : Bool) (e : PutError) (hfailed : s.phase i = .failed e)

variable {o : Bool}

theorem overtaken_concat {j : Bool} {sched : List Bool} : Overtaken o (sched ++ [j]) ↔
    Overtaken o sched ∨
      (j = !o ∧ sched.count (!o) = 2 ∧ 0 < sched.count o ∧ sched.count o < 3) := by
  constructor
  · rintro ⟨before, rest, heq, hcounts⟩
    rcases eq_nil_or_concat' rest with rfl | ⟨rest, j', rfl⟩
    · obtain ⟨rfl, hj⟩ := append_inj' heq rfl
      exact .inr ⟨singleton_inj.mp hj, hcounts⟩
    · rw [← cons_append, ← append_assoc] at heq
      obtain ⟨rfl, -⟩ := append_inj' heq rfl
      exact .inl ⟨before, rest, rfl, hcounts⟩
  · rintro (⟨before, rest, rfl, hcounts⟩ | ⟨rfl, hcounts⟩)
    · exact ⟨before, rest ++ [j], by simp, hcounts⟩
    · exact ⟨sched, [], rfl, hcounts⟩

section Stage

variable {v : Bool → Versioned V} {row : List (Versioned V)} {sched : List Bool}
  {s : PutSystem V} {i : Bool}

@[simp] theorem PutSystem.phase_step_self :
    (s.step v i).phase i = (putStep (v i) s.row (s.phase i)).2 :=
  update_self ..

theorem PutSystem.phase_step_of_ne (h : o ≠ i) : (s.step v i).phase o = s.phase o :=
  update_of_ne h ..

theorem PutSystem.row_step : (s.step v i).row = (putStep (v i) s.row (s.phase i)).1 := rfl

theorem count_concat_self : (sched ++ [i]).count i = sched.count i + 1 := by simp

theorem count_concat_of_ne (h : o ≠ i) : (sched ++ [i]).count o = sched.count o := by
  rw [count_append, count_singleton, beq_eq_false_iff_ne.mpr h.symm]
  rfl

variable {base : List (Versioned V)} {p : PutPhase V}

/-- One statement of a call that has not committed, and which is not the
commit, or fails. -/
theorem Pending.putStep {n : ℕ} (h : Pending (v i) base n p) (hbase : n = 0 → s.row = base)
    (hn : n < 2) (hp : s.phase i = p) :
    (s.step v i).row = s.row ∧
      (Pending (v i) base (n + 1) ((s.step v i).phase i) ∨
        ∃ e, (s.step v i).phase i = .failed e) := by
  rw [PutSystem.row_step, PutSystem.phase_step_self, hp]
  rcases h with ⟨rfl, rfl⟩ | ⟨rfl, rfl⟩ | ⟨rfl, -⟩
  · refine ⟨rfl, .inl (.inr (.inl ⟨rfl, ?_⟩))⟩
    rw [← hbase rfl]
    rfl
  · unfold NctuSdn.putStep
    dsimp only
    cases hnew : newRow (v i) base with
    | error e => exact ⟨rfl, .inr ⟨e, rfl⟩⟩
    | ok row' => exact ⟨rfl, .inl (.inr (.inr ⟨rfl, row', rfl, hnew⟩))⟩
  · omega

theorem Pending.commit (h : Pending (v i) base 2 p) (hp : s.phase i = p) :
    newRow (v i) base = .ok (s.step v i).row ∧ (s.step v i).phase i = .returned := by
  rcases h with ⟨hn, -⟩ | ⟨hn, -⟩ | ⟨-, row', rfl, hnew⟩
  · omega
  · omega
  · rw [PutSystem.row_step, PutSystem.phase_step_self, hp]
    exact ⟨hnew, rfl⟩

theorem Pending.le {value : Versioned V} {n : ℕ} (h : Pending value base n p) :
    n ≤ 2 := by
  rcases h with ⟨rfl, -⟩ | ⟨rfl, -⟩ | ⟨rfl, -⟩ <;> omega

theorem Pending.rebase {value : Versioned V} (h : Pending value base 0 p)
    (base' : List (Versioned V)) : Pending value base' 0 p := by
  rcases h with ⟨-, rfl⟩ | ⟨hn, -⟩ | ⟨hn, -⟩
  · exact .inl ⟨rfl, rfl⟩
  · omega
  · omega

theorem Overtaken.count_pos (h : Overtaken o sched) : 0 < sched.count o := by
  obtain ⟨before, rest, rfl, -, hpos, -⟩ := h
  rw [count_append]
  omega

theorem overtaken_concat_of_committed (hi : 3 ≤ sched.count i) :
    Overtaken o (sched ++ [i]) ↔ Overtaken o sched := by
  rw [overtaken_concat, or_iff_left]
  rintro ⟨rfl, hcount, -⟩
  omega

theorem overtaken_concat_of_first (ho : 3 ≤ sched.count (!o)) :
    Overtaken o (sched ++ [i]) ↔ Overtaken o sched := by
  rw [overtaken_concat, or_iff_left]
  rintro ⟨rfl, hcount, -⟩
  omega

theorem Stage.step_idle (hrow : s.row = row) (hfree : ∀ o, ¬ Overtaken o sched)
    (hpending : ∀ o, Pending (v o) row (sched.count o) (s.phase o)) (i : Bool) :
    Stage v row (sched ++ [i]) (s.step v i) := by
  have hi := hpending i
  have ho := hpending !i
  rcases Nat.lt_or_ge (sched.count i) 2 with hlt | hge
  · obtain ⟨hrow', hnext | ⟨e, he⟩⟩ := hi.putStep (fun _ => hrow) hlt rfl
    · refine .idle (hrow'.trans hrow) ?_ ?_
      · intro o
        rw [overtaken_concat, or_iff_right (hfree o)]
        rintro ⟨rfl, hcount, -⟩
        rw [hcount] at hlt
        omega
      · intro o
        by_cases hoi : o = i
        · subst hoi
          rw [count_concat_self]
          exact hnext
        · rw [count_concat_of_ne hoi, PutSystem.phase_step_of_ne hoi]
          exact hpending o
    · exact .failed i e he
  · have hcount : sched.count i = 2 := le_antisymm hi.le hge
    rw [hcount] at hi
    obtain ⟨hnew, hdone⟩ := hi.commit rfl
    -- the commit overtakes the other call if that one has selected
    have hover : Overtaken (!i) (sched ++ [i]) ↔ 0 < sched.count (!i) := by
      rw [overtaken_concat, or_iff_right (hfree !i), Bool.not_not, hcount]
      have := ho.le
      exact ⟨fun h => h.2.2.1, fun h => ⟨rfl, rfl, h, by omega⟩⟩
    have hfree' : ¬ Overtaken i (sched ++ [i]) := by
      rw [overtaken_concat, or_iff_right (hfree i)]
      rintro ⟨hne, -⟩
      simp at hne
    have hcount' : 3 ≤ (sched ++ [i]).count i := by
      rw [count_concat_self, hcount]
    rcases Nat.eq_zero_or_pos (sched.count !i) with hzero | hpos
    · refine .half i _ hnew rfl hdone hcount' hfree' _ (.inr ⟨?_, rfl⟩) ?_
      · rw [hover, hzero]
        exact Nat.lt_irrefl 0
      · rw [hzero] at ho
        rw [count_concat_of_ne (Bool.not_ne_self _), hzero,
          PutSystem.phase_step_of_ne (Bool.not_ne_self _)]
        exact ho.rebase _
    · refine .half i _ hnew rfl hdone hcount' hfree' row (.inl ⟨hover.mpr hpos, rfl⟩) ?_
      rw [count_concat_of_ne (Bool.not_ne_self _), PutSystem.phase_step_of_ne (Bool.not_ne_self _)]
      exact ho

theorem PutSystem.step_of_returned (h : s.phase i = .returned) : s.step v i = s := by
  unfold PutSystem.step
  rw [h]
  have hsame : update s.phase i .returned = s.phase := by
    rw [← h, update_eq_self]
  show PutSystem.mk s.row (update s.phase i .returned) = s
  rw [hsame]

theorem PutSystem.step_of_failed {e : PutError} (h : s.phase i = .failed e) : s.step v i = s := by
  unfold PutSystem.step
  rw [h]
  have hsame : update s.phase i (.failed e) = s.phase := by
    rw [← h, update_eq_self]
  show PutSystem.mk s.row (update s.phase i (.failed e)) = s
  rw [hsame]

theorem Stage.step_half {mine : List (Versioned V)} (hmine : newRow (v i) row = .ok mine)
    (hrow : s.row = mine) (hdone : s.phase i = .returned) (hcount : 3 ≤ sched.count i)
    (hfree : ¬ Overtaken i sched)
    (hbase : (Overtaken (!i) sched ∧ base = row) ∨ (¬ Overtaken (!i) sched ∧ base = mine))
    (hpending : Pending (v !i) base (sched.count !i) (s.phase !i)) :
    Stage v row (sched ++ [!i]) (s.step v !i) := by
  have hcount' : 3 ≤ (sched ++ [!i]).count i := by
    rwa [count_concat_of_ne (Bool.not_ne_self _).symm]
  have hdone' : (s.step v (!i)).phase i = .returned := by
    rwa [PutSystem.phase_step_of_ne (Bool.not_ne_self _).symm]
  have hfree' : ¬ Overtaken i (sched ++ [!i]) := by
    rw [overtaken_concat, or_iff_right hfree]
    rintro ⟨-, -, -, hlt⟩
    omega
  have hbase' : (Overtaken (!i) (sched ++ [!i]) ∧ base = row) ∨
      (¬ Overtaken (!i) (sched ++ [!i]) ∧ base = mine) := by
    rwa [overtaken_concat_of_first (by rwa [Bool.not_not])]
  rcases Nat.lt_or_ge (sched.count !i) 2 with hlt | hge
  · -- a call that selects now has not been overtaken
    have hnow : sched.count (!i) = 0 → s.row = base := by
      intro hzero
      rcases hbase with ⟨hover, -⟩ | ⟨-, rfl⟩
      · exact absurd hover.count_pos (by omega)
      · exact hrow
    obtain ⟨hrow', hnext | ⟨e, he⟩⟩ := hpending.putStep hnow hlt rfl
    · refine .half i mine hmine (hrow'.trans hrow) hdone' hcount' hfree' base hbase' ?_
      rw [count_concat_self]
      exact hnext
    · exact .failed (!i) e he
  · have htwo : sched.count (!i) = 2 := le_antisymm hpending.le hge
    rw [htwo] at hpending
    obtain ⟨hnew, hlast⟩ := hpending.commit rfl
    refine .full i mine hmine hfree' ?_ ?_ base hbase' hnew
    · intro o
      by_cases ho : o = i
      · rwa [ho]
      · rw [Bool.eq_not.mpr ho, count_concat_self, htwo]
    · intro o
      by_cases ho : o = i
      · rwa [ho]
      · rwa [Bool.eq_not.mpr ho]

/-- **One statement keeps the stage.** -/
theorem Stage.step (h : Stage v row sched s) (j : Bool) :
    Stage v row (sched ++ [j]) (s.step v j) := by
  cases h with
  | idle hrow hfree hpending => exact step_idle hrow hfree hpending j
  | half i mine hmine hrow hdone hcount hfree base hbase hpending =>
    by_cases hj : j = i
    · subst hj
      rw [PutSystem.step_of_returned hdone]
      refine .half j mine hmine hrow hdone ?_ ?_ base ?_ ?_
      · rw [count_concat_self]
        omega
      · rwa [overtaken_concat_of_committed hcount]
      · rwa [overtaken_concat_of_committed hcount]
      · rwa [count_concat_of_ne (Bool.not_ne_self _)]
    · obtain rfl : j = !i := Bool.eq_not.mpr hj
      exact step_half hmine hrow hdone hcount hfree hbase hpending
  | full i mine hmine hfree hcount hdone base hbase hlast =>
    rw [PutSystem.step_of_returned (hdone j)]
    refine .full i mine hmine ?_ ?_ hdone base ?_ hlast
    · rwa [overtaken_concat_of_committed (hcount j)]
    · intro o
      rw [count_append]
      exact Nat.le_add_right_of_le (hcount o)
    · rwa [overtaken_concat_of_committed (hcount j)]
  | failed i e hfailed =>
    refine .failed i e ?_
    by_cases hj : j = i
    · subst hj
      rw [PutSystem.step_of_failed hfailed, hfailed]
    · rw [PutSystem.phase_step_of_ne (Ne.symm hj), hfailed]

/-- **Every schedule.** -/
theorem stage_run (v : Bool → Versioned V) (row : List (Versioned V)) (sched : List Bool) :
    Stage v row sched ((PutSystem.begin row).run v sched) := by
  induction sched using List.reverseRecOn with
  | nil =>
    refine .idle rfl ?_ ?_
    · rintro o ⟨before, rest, heq, -⟩
      simp at heq
    · intro o
      exact .inl ⟨rfl, rfl⟩
  | append_singleton sched j ih =>
    unfold PutSystem.run
    rw [foldl_append]
    exact ih.step j

end Stage

/-! ### One after the other -/

/-- What a put on its own makes of the row. -/
def rowAfter (value : Versioned V) (row : List (Versioned V)) : List (Versioned V) :=
  match newRow value row with
  | .ok row' => row'
  | .error _ => row

section Serial

variable {v : Bool → Versioned V} {row mine : List (Versioned V)} {s : PutSystem V} {i : Bool}

theorem PutSystem.run_alone (h : s.phase i = .start) :
    (s.run v [i, i, i]).row = rowAfter (v i) s.row ∧
      ∀ o, o ≠ i → (s.run v [i, i, i]).phase o = s.phase o := by
  constructor
  · unfold rowAfter
    have hselect : s.step v i = ⟨s.row, update s.phase i (.selected s.row)⟩ := by
      unfold PutSystem.step
      rw [h]
      rfl
    show (((s.step v i).step v i).step v i).row = _
    rw [hselect]
    unfold PutSystem.step
    dsimp only
    rw [update_self, update_self]
    unfold putStep
    dsimp only
    cases newRow (v i) s.row with
    | error e => rfl
    | ok row' => rfl
  · intro o ho
    show (((s.step v i).step v i).step v i).phase o = s.phase o
    rw [phase_step_of_ne ho, phase_step_of_ne ho, phase_step_of_ne ho]

theorem row_serial (v : Bool → Versioned V) (row : List (Versioned V)) (i : Bool) :
    ((PutSystem.begin row).run v (serial i)).row = rowAfter (v !i) (rowAfter (v i) row) := by
  obtain ⟨hfirst, hother⟩ := PutSystem.run_alone (s := .begin row) (v := v) (i := i) rfl
  obtain ⟨hsecond, -⟩ := PutSystem.run_alone (s := (PutSystem.begin row).run v [i, i, i]) (v := v)
    (hother (!i) (Bool.not_ne_self _))
  rw [hfirst] at hsecond
  exact hsecond

theorem serializable_iff (final : List (Versioned V)) (i : Bool) :
    Serializable v row final ↔ final = rowAfter (v !i) (rowAfter (v i) row) ∨
      final = rowAfter (v i) (rowAfter (v !i) row) := by
  unfold Serializable
  simp only [row_serial]
  constructor
  · rintro ⟨j, hj⟩
    obtain rfl | hji := eq_or_ne j i
    · exact .inl hj
    · rw [Bool.eq_not.mpr hji, Bool.not_not] at hj
      exact .inr hj
  · rintro (h | h)
    · exact ⟨i, h⟩
    · refine ⟨!i, ?_⟩
      rwa [Bool.not_not]

omit [DecidableEq V] in
theorem forall_overtaken_iff {sched : List Bool} (hfree : ¬ Overtaken i sched) :
    (∀ o, Overtaken o sched → (v !o).version.compare (v o).version = .before) ↔
      (Overtaken (!i) sched → (v i).version.compare (v !i).version = .before) := by
  constructor
  · intro h hover
    have := h (!i) hover
    rwa [Bool.not_not] at this
  · intro h o hover
    obtain rfl | hoi := eq_or_ne o i
    · exact absurd hover hfree
    · rw [Bool.eq_not.mpr hoi] at hover ⊢
      rw [Bool.not_not]
      exact h hover

theorem rowAfter_of_ok (h : newRow (v i) row = .ok mine) : rowAfter (v i) row = mine := by
  unfold rowAfter
  rw [h]

theorem rowAfter_of_below {value : Versioned V} (h : Below Versioned.rank row value.rank) :
    rowAfter value row = row := by
  unfold rowAfter
  rw [newRow_of_below h]

theorem getLast_of_newRow {value : Versioned V} (h : newRow value row = .ok mine) :
    mine.getLast? = some value := by
  obtain ⟨-, hnot, rfl⟩ := newRow_eq_ok_iff.mp h
  rw [insertMax_of_not_below hnot, List.getLast?_concat]

/-- **An overtaken put and the other one** leave a serial result exactly if the
overtaken one is at least as new. -/
theorem serializable_overtaken_iff {a b : Versioned V} {ra rb : List (Versioned V)}
    (ha : newRow a row = .ok ra) (hb : newRow b row = .ok rb) :
    (rb = rowAfter b ra ∨ rb = rowAfter a rb) ↔ a.rank ≤ b.rank := by
  obtain ⟨hne, hnota, hra⟩ := newRow_eq_ok_iff.mp ha
  obtain ⟨-, hnotb, hrb⟩ := newRow_eq_ok_iff.mp hb
  have hmema : a ∈ ra := mem_of_getLast? (getLast_of_newRow ha)
  have hmemb : b ∈ rb := mem_of_getLast? (getLast_of_newRow hb)
  constructor
  · intro h
    by_contra hle
    have hab : a ≠ b := fun heq => hle (heq ▸ le_rfl)
    have hnota' : a ∉ rb := by
      intro hmem
      rw [hrb] at hmem
      rcases mem_of_mem_insertMax hmem with hmem | heq
      · exact hnota ⟨a, hmem, le_rfl⟩
      · exact hab heq
    have hne' : ∀ {l : List (Versioned V)} {x : Versioned V}, x ∈ l → l ≠ [] :=
      fun hx => ne_nil_of_mem hx
    rcases h with h | h
    · by_cases hbelow : Below Versioned.rank ra b.rank
      · rw [rowAfter_of_below hbelow] at h
        exact hnota' (h ▸ hmema)
      · have hnew := newRow_isOk (hne' hmema) hbelow
        rw [rowAfter, hnew] at h
        -- what is not older than `b` stays
        refine hnota' ?_
        rw [h]
        rw [insertMax_of_not_below hbelow]
        refine mem_append_left _ (mem_filter.mpr ⟨hmema, ?_⟩)
        simpa using hle
    · by_cases hbelow : Below Versioned.rank rb a.rank
      · obtain ⟨y, hy, hley⟩ := hbelow
        rw [hrb] at hy
        rcases mem_of_mem_insertMax hy with hy | rfl
        · exact hnota ⟨y, hy, hley⟩
        · exact hle hley
      · have hnew := newRow_isOk (hne' hmemb) hbelow
        rw [rowAfter, hnew] at h
        refine hnota' ?_
        rw [h]
        exact mem_of_getLast? (getLast_of_newRow hnew)
  · intro hle
    exact .inr (rowAfter_of_below ⟨b, hmemb, hle⟩).symm

end Serial

/-- **Serializability of two puts.**  If both calls return normally, what they
leave is what they leave one after the other in some order, exactly if the
version of a call that is overtaken is at least as new as the other's. -/
theorem puts_serializable_iff (v : Bool → Versioned V) (row : List (Versioned V))
    (sched : List Bool)
    (hdone : ∀ i, ((PutSystem.begin row).run v sched).phase i = .returned) :
    Serializable v row ((PutSystem.begin row).run v sched).row ↔
      ∀ o, Overtaken o sched → (v !o).version.compare (v o).version = .before := by
  cases stage_run v row sched with
  | idle hrow hfree hpending =>
    rcases hpending true with ⟨-, hp⟩ | ⟨-, hp⟩ | ⟨-, row', hp, -⟩
    all_goals
      rw [hdone] at hp
      cases hp
  | half i mine hmine hrow hdone' hcount hfree base hbase hpending =>
    rcases hpending with ⟨-, hp⟩ | ⟨-, hp⟩ | ⟨-, row', hp, -⟩
    all_goals
      rw [hdone] at hp
      cases hp
  | failed i e hfailed =>
    rw [hdone] at hfailed
    cases hfailed
  | full i mine hmine hfree hcount hdone' base hbase hlast =>
    rw [serializable_iff _ i, forall_overtaken_iff hfree]
    rcases hbase with ⟨hover, rfl⟩ | ⟨hover, rfl⟩
    · rw [rowAfter_of_ok hmine, rowAfter_of_ok hlast, serializable_overtaken_iff hmine hlast,
        VectorClock.compare_eq_before_iff]
      exact ⟨fun h _ => h, fun h => h hover⟩
    · refine iff_of_true (.inl ?_) fun h => absurd h hover
      rw [rowAfter_of_ok hmine, rowAfter_of_ok hlast]

def storedRow : List (Versioned ℕ) := [⟨0, .single 0 0 4⟩]

def twoPuts (second : Versioned ℕ) : Bool → Versioned ℕ
  | false => ⟨10, .single 1 0 5⟩
  | true => second

/-- Both calls select before either updates. -/
def selectBoth : List Bool := [false, true, false, false, true, true]

/-- Nodes 1 and 2 write: both calls return, the version of the first is gone,
and no serial order does that. -/
theorem concurrent_put_lost :
    (∀ i, ((PutSystem.begin storedRow).run (twoPuts ⟨20, .single 2 0 5⟩) selectBoth).phase i =
      .returned) ∧
    ((PutSystem.begin storedRow).run (twoPuts ⟨20, .single 2 0 5⟩) selectBoth).row.map
      Versioned.value = [0, 20] ∧
    ¬ Serializable (twoPuts ⟨20, .single 2 0 5⟩) storedRow
      ((PutSystem.begin storedRow).run (twoPuts ⟨20, .single 2 0 5⟩) selectBoth).row := by
  unfold Serializable
  decide +kernel

theorem puts_serializable_newer :
    (∀ i, ((PutSystem.begin storedRow).run (twoPuts ⟨20, .single 1 1 6⟩) selectBoth).phase i =
      .returned) ∧
    (Serializable (twoPuts ⟨20, .single 1 1 6⟩) storedRow
        ((PutSystem.begin storedRow).run (twoPuts ⟨20, .single 1 1 6⟩) selectBoth).row ↔
      ∀ o, Overtaken o selectBoth → (twoPuts ⟨20, .single 1 1 6⟩ !o).version.compare
        (twoPuts ⟨20, .single 1 1 6⟩ o).version = .before) :=
  ⟨by decide +kernel, puts_serializable_iff _ _ _ (by decide +kernel)⟩

end NctuSdn
