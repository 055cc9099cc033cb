/-
The one's-complement sum of 16-bit words and the checksum made from it.

Bytes are read as big-endian words, with a zero byte behind an odd one
(`sum16`).  A sum is brought back to 16 bits by adding what is above them to
what is left, until nothing is above them (`endAround`).  That keeps the sum
modulo 65535 and does not make zero of anything else, so `endAround` is 65535
exactly for the positive multiples of 65535.

A checksum is the complement of the folded sum of the data.  It verifies if
the data and the checksum together fold to 65535.  One fold is enough for
that exactly if it leaves no carry (`verifies_iff`).
-/
import Mathlib.Algebra.Ring.Nat
import Mathlib.Tactic.Common

namespace NctuSdn

/-! ### Words -/

/-- The sum of the 16-bit words of some bytes. -/
def sum16 : List (BitVec 8) → ℕ
  | a :: b :: rest => (a.toNat * 256 + b.toNat) + sum16 rest
  | [a] => a.toNat * 256
  | [] => 0

theorem sum16_append {xs : List (BitVec 8)} (h : xs.length % 2 = 0) (ys : List (BitVec 8)) :
    sum16 (xs ++ ys) = sum16 xs + sum16 ys := by
  induction xs using sum16.induct with
  | case1 a b rest ih =>
    have hrest : rest.length % 2 = 0 := by
      simp only [List.length_cons] at h
      omega
    rw [List.cons_append, List.cons_append, sum16, sum16, ih hrest]
    omega
  | case2 a => cases h
  | case3 => rw [List.nil_append, sum16, Nat.zero_add]

theorem sum16_le (xs : List (BitVec 8)) : sum16 xs ≤ (xs.length + 1) / 2 * 65535 := by
  induction xs using sum16.induct with
  | case1 a b rest ih =>
    have ha := a.isLt
    have hb := b.isLt
    simp only [sum16, List.length_cons]
    omega
  | case2 a =>
    have ha := a.isLt
    simp only [sum16, List.length_cons, List.length_nil]
    omega
  | case3 => exact Nat.zero_le _

/-! ### End-around carry -/

/-- Add the carry until there is none. -/
def endAround (n : ℕ) : ℕ :=
  if n < 65536 then n else endAround (n / 65536 + n % 65536)
termination_by n
decreasing_by omega

theorem endAround_eq_iff (n : ℕ) : endAround n = 65535 ↔ 0 < n ∧ n % 65535 = 0 := by
  induction n using endAround.induct with
  | case1 n h =>
    rw [endAround, if_pos h]
    omega
  | case2 n h ih =>
    rw [endAround, if_neg h, ih]
    omega

/-! ### Checksums -/

/-- One fold of a sum of at most 32 bits. -/
def foldOnce (n : ℕ) : ℕ := n / 65536 + n % 65536

/-- The complement of a sum that is folded once. -/
def complementOnce (n : ℕ) : ℕ := 65535 - foldOnce n % 65536

/-- **One fold is enough** exactly if it leaves no carry: only then data and
checksum add up to 65535. -/
theorem verifies_iff {n : ℕ} (h : n < 2 ^ 32) :
    endAround (n + complementOnce n) = 65535 ↔ foldOnce n < 65536 := by
  have hn : n = n / 65536 * 65535 + foldOnce n := by
    unfold foldOnce
    omega
  have hbound : foldOnce n < 2 * 65536 := by
    unfold foldOnce
    omega
  rw [endAround_eq_iff]
  rcases Nat.lt_or_ge (foldOnce n) 65536 with hfold | hfold
  · have hsum : n + complementOnce n = (n / 65536 + 1) * 65535 := by
      unfold complementOnce
      omega
    rw [hsum, Nat.mul_mod_left]
    exact iff_of_true ⟨by omega, rfl⟩ hfold
  · -- the carry that was dropped is missing
    have hsum : n + complementOnce n = 1 + (n / 65536 + 2) * 65535 := by
      unfold complementOnce
      omega
    rw [hsum, Nat.add_mul_mod_self_right]
    exact iff_of_false (fun hzero => absurd hzero.2 (by decide)) (by omega)

end NctuSdn
