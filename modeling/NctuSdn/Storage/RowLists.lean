/-
The combination of lists of rows (`NoSqlCompoundPredicate.combineRowLists`).

The rows that two predicates have found are sorted by their primary keys, and one loop
goes through both lists: under AND it keeps the rows whose key is in both, under OR
those whose key is in one of them.

Design.  `combineRowLists` is given twice: as what the loop is for, by the merges of
`Lib.SortedMerge`, and round by round with the variables of the source
(`combineRounds`).  The loop is shown to be the merge as soon as there is a round for
every row, and what the result holds follows from the merges.  Rows have a value in
every column, and all values are in one order.
-/
import NctuSdn.Lib.SortedMerge

namespace NctuSdn.NoSql

open List

/-- `CompoundPredicate.Operator`. -/
inductive Connective
  | and
  | or
deriving DecidableEq, Repr

abbrev Row (Column V : Type) := Column → V

/-- `MemoryTable`: the rows in the order of their keys. -/
structure Table (Column V : Type) [LinearOrder V] where
  primaryKey : Column
  rows : List (Row Column V)
  sorted : rows.Pairwise fun row row' => row primaryKey < row' primaryKey

variable {Column V : Type} [LinearOrder V]

/-- The primary key of a row, by which lists of rows are compared. -/
def Table.key (table : Table Column V) (row : Row Column V) : V := row table.primaryKey

variable (table : Table Column V)

/-- The rows of both lists or of one of them, in the order of their keys. -/
def combineRowLists (operator : Connective) (list1 list2 : List (Row Column V)) :
    List (Row Column V) :=
  match operator with
  | .and => mergeInter table.key (sortBy table.key list1) (sortBy table.key list2)
  | .or => mergeUnion table.key (sortBy table.key list1) (sortBy table.key list2)

/-! ### The loop that combines lists -/

section Rounds

/-- An iterator, the row that it returned last and `update`. -/
structure Cursor (R : Type) where
  rest : List R
  row : Option R
  update : Bool

/-- The row at the beginning of a round and the rows after it. -/
def Cursor.next {R : Type} (c : Cursor R) : Option R × List R :=
  if c.update then (c.rest.head?, c.rest.tail) else (c.row, c.rest)

/-- The loop of `combineRowLists`, in so many rounds.  A key is read only with its row. -/
def combineRounds (operator : Connective) :
    ℕ → Cursor (Row Column V) → Cursor (Row Column V) → List (Row Column V) →
      Option (List (Row Column V))
  | 0, _, _, _ => none
  | n + 1, c1, c2, combined =>
    let (row1, rest1) := c1.next
    let (row2, rest2) := c2.next
    let go update1 update2 added :=
      combineRounds operator n ⟨rest1, row1, update1⟩ ⟨rest2, row2, update2⟩ (combined ++ added)
    match operator, row1, row2 with
    | .and, some r1, some r2 =>
      if table.key r1 = table.key r2 then go true true [r1]
      else if table.key r1 < table.key r2 then go true false []
      else go false true []
    | .or, some r1, some r2 =>
      if table.key r1 ≤ table.key r2 then go true (decide (table.key r1 = table.key r2)) [r1]
      else go false true [r2]
    | .or, some r1, none => go true false [r1]
    | .or, none, some r2 => go false true [r2]
    | _, _, _ => some combined

variable {table} {combined : List (Row Column V)} {c1 c2 : Cursor (Row Column V)} {n : ℕ}

theorem combineRounds_eq {operator : Connective} (xs ys : List (Row Column V))
    (h1 : c1.next = (xs.head?, xs.tail)) (h2 : c2.next = (ys.head?, ys.tail))
    (hn : xs.length + ys.length < n) :
    combineRounds table operator n c1 c2 combined = some (combined ++ match operator with
      | .and => mergeInter table.key xs ys
      | .or => mergeUnion table.key xs ys) := by
  -- on the rounds; `xs` and `ys` are the rows that are held or still to come
  induction n generalizing xs ys c1 c2 combined with
  | zero => exact absurd hn (Nat.not_lt_zero _)
  | succ n ih =>
    unfold combineRounds
    rw [h1, h2]
    match operator, xs, ys with
    | .and, [], ys => simp [mergeInter]
    | .and, _ :: _, [] => simp [mergeInter]
    | .and, a :: as, b :: bs =>
      rw [length_cons, length_cons] at hn
      dsimp only [head?_cons, tail_cons]
      rw [mergeInter]
      split_ifs with heq hlt
      · rw [ih as bs rfl rfl (by omega), append_assoc]
        rfl
      · rw [ih as (b :: bs) rfl rfl (by rw [length_cons]; omega), append_nil]
      · rw [ih (a :: as) bs rfl rfl (by rw [length_cons]; omega), append_nil]
    | .or, a :: as, b :: bs =>
      rw [length_cons, length_cons] at hn
      dsimp only [head?_cons, tail_cons]
      rw [mergeUnion]
      rcases lt_trichotomy (table.key a) (table.key b) with hlt | heq | hgt
      · rw [if_pos hlt.le, decide_eq_false hlt.ne, if_neg hlt.ne, if_pos hlt,
          ih as (b :: bs) rfl rfl (by rw [length_cons]; omega), append_assoc]
        rfl
      · rw [if_pos heq.le, decide_eq_true heq, if_pos heq,
          ih as bs rfl rfl (by omega), append_assoc]
        rfl
      · rw [if_neg hgt.not_ge, if_neg hgt.ne', if_neg hgt.asymm,
          ih (a :: as) bs rfl rfl (by rw [length_cons]; omega), append_assoc]
        rfl
    | .or, a :: as, [] =>
      refine (ih as [] rfl rfl (Nat.lt_of_succ_lt_succ ?_)).trans ?_
      · simpa using hn
      · simp [mergeUnion]
    | .or, [], b :: bs =>
      refine (ih [] bs rfl rfl (Nat.lt_of_succ_lt_succ ?_)).trans ?_
      · simpa using hn
      · cases bs <;> simp [mergeUnion]
    | .or, [], [] => simp [mergeUnion]

/-- **Lists are combined exactly**: the loop ends, and has the keys that are in both lists or in
one of them, once and in order. -/
theorem combineRowLists_exact (operator : Connective) (list1 list2 : List (Row Column V))
    (h1 : (list1.map table.key).Nodup) (h2 : (list2.map table.key).Nodup) :
    combineRounds table operator (list1.length + list2.length + 1)
        ⟨sortBy table.key list1, none, true⟩ ⟨sortBy table.key list2, none, true⟩ [] =
        some (combineRowLists table operator list1 list2) ∧
      StrictlySortedBy table.key (combineRowLists table operator list1 list2) ∧
      ∀ k, k ∈ (combineRowLists table operator list1 list2).map table.key ↔
        match operator with
        | .and => k ∈ list1.map table.key ∧ k ∈ list2.map table.key
        | .or => k ∈ list1.map table.key ∨ k ∈ list2.map table.key := by
  have hsorted1 := strictlySortedBy_sortBy h1
  have hsorted2 := strictlySortedBy_sortBy h2
  refine ⟨?_, ?_, fun k => ?_⟩
  · refine combineRounds_eq _ _ rfl rfl ?_
    rw [(sortBy_perm list1).length_eq, (sortBy_perm list2).length_eq]
    exact Nat.lt_succ_self _
  · cases operator with
    | and => exact hsorted1.sublist mergeInter_sublist
    | or => exact strictlySortedBy_mergeUnion hsorted1 hsorted2
  · simp only [mem_map_iff_copies]
    cases operator with
    | and =>
      dsimp only [combineRowLists]
      rw [copies_mergeInter (sortedBy_sortBy _) (sortedBy_sortBy _), copies_sortBy, copies_sortBy]
      exact Nat.lt_min
    | or =>
      dsimp only [combineRowLists]
      rw [copies_mergeUnion (sortedBy_sortBy _) (sortedBy_sortBy _), copies_sortBy, copies_sortBy]
      omega

end Rounds

/-! ### Persons -/

/-- A person with a number and an age. -/
def person (id age : ℕ) : Row ℕ ℕ := fun column => if column = 0 then id else age

def personTable : Table ℕ ℕ where
  primaryKey := 0
  rows := [person 1 60, person 2 30, person 3 45, person 4 30]
  sorted := by decide

/-- Three persons each, in any order, two of which are in both lists. -/
theorem combineRowLists_persons :
    ([person 3 45, person 1 60, person 2 30].map personTable.key).Nodup ∧
    ([person 4 30, person 2 30, person 3 45].map personTable.key).Nodup ∧
    combineRounds personTable .and 7
        ⟨sortBy personTable.key [person 3 45, person 1 60, person 2 30], none, true⟩
        ⟨sortBy personTable.key [person 4 30, person 2 30, person 3 45], none, true⟩ [] =
      some (combineRowLists personTable .and [person 3 45, person 1 60, person 2 30]
        [person 4 30, person 2 30, person 3 45]) ∧
    2 ∈ (combineRowLists personTable .and [person 3 45, person 1 60, person 2 30]
        [person 4 30, person 2 30, person 3 45]).map personTable.key ∧
    1 ∉ (combineRowLists personTable .and [person 3 45, person 1 60, person 2 30]
        [person 4 30, person 2 30, person 3 45]).map personTable.key := by
  have h1 : ([person 3 45, person 1 60, person 2 30].map personTable.key).Nodup := by decide
  have h2 : ([person 4 30, person 2 30, person 3 45].map personTable.key).Nodup := by decide
  obtain ⟨hrounds, -, hkeys⟩ := combineRowLists_exact .and _ _ h1 h2
  exact ⟨h1, h2, hrounds, (hkeys 2).mpr (by decide), fun h => absurd ((hkeys 1).mp h) (by decide)⟩

end NctuSdn.NoSql
