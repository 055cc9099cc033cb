/-
Numbers in texts (`Character.digit`, `Integer.valueOf`, `String.split`).

Numbers are printed in ASCII digits (`Lib.Decimal`) and read in the digits of any script.
What was printed is read back (`CharacterDigit.valueOf_decimal`), and parts that were put
together with a separator come apart again (`splitText_intercalate`).
-/
import Mathlib.Algebra.Group.Int.Defs
import Mathlib.Algebra.Group.Nat.Defs
import Mathlib.Data.List.DropRight
import NctuSdn.Lib.Decimal
import NctuSdn.Topology.Link

namespace NctuSdn

open List Decimal

/-! ### Digits -/

/-- `Character.digit(c, 10)`.  Besides the ASCII digits it knows those of other
scripts, which are left open. -/
structure CharacterDigit where
  digit : Char → Option ℕ
  ascii : ∀ n : Fin 10, digit (Nat.digitChar n) = some n

def CharacterDigit.asciiOnly : CharacterDigit where
  digit c := if c.isDigit then some (c.toNat - 48) else none
  ascii := by decide

def CharacterDigit.value (d : CharacterDigit) : ℕ → List Char → Option ℕ
  | n, [] => some n
  | n, c :: s =>
    match d.digit c with
    | some k => d.value (10 * n + k) s
    | none => none

/-- A text of at least one digit, with its sign, as an `int`. -/
def CharacterDigit.signed (d : CharacterDigit) (negative : Bool) (s : List Char) :
    Except JavaException ℤ :=
  match s, d.value 0 s with
  | _ :: _, some n =>
    let x : ℤ := if negative then -n else n
    if -(2 ^ 31) ≤ x ∧ x < 2 ^ 31 then .ok x else .error .illegalArgument
  | _, _ => .error .illegalArgument

/-- `Integer.valueOf`; a `NumberFormatException` is an illegal argument. -/
def CharacterDigit.valueOf (d : CharacterDigit) : List Char → Except JavaException ℤ
  | '-' :: s => d.signed true s
  | '+' :: s => d.signed false s
  | s => d.signed false s

section Digits

variable (d : CharacterDigit)

theorem CharacterDigit.digit_of_isDigit {c : Char} (h : c.isDigit = true) :
    d.digit c = some (c.toNat - '0'.toNat) := by
  obtain ⟨hlow, hhigh⟩ := Char.isDigit_iff_toNat.mp h
  have hlow : 48 ≤ c.toNat := hlow
  have hhigh : c.toNat ≤ 57 := hhigh
  have hchar : ∀ n : Fin 10, Nat.digitChar n = Char.ofNat (48 + n) := by decide
  have hc : c = Nat.digitChar (⟨c.toNat - 48, by omega⟩ : Fin 10) := by
    rw [hchar]
    show c = Char.ofNat (48 + (c.toNat - 48))
    rw [show 48 + (c.toNat - 48) = c.toNat by omega, Char.ofNat_toNat]
  have hdigit := d.ascii ⟨c.toNat - 48, by omega⟩
  rw [← hc] at hdigit
  exact hdigit

theorem CharacterDigit.value_of_isDigit {s : List Char} (h : ∀ c ∈ s, c.isDigit = true) (n : ℕ) :
    d.value n s = some (Nat.ofDigitChars 10 s n) := by
  induction s generalizing n with
  | nil => rfl
  | cons c s ih =>
    obtain ⟨hc, hs⟩ := forall_mem_cons.mp h
    rw [CharacterDigit.value, d.digit_of_isDigit hc, Nat.ofDigitChars_cons]
    exact ih hs _

/-- Digits that were printed, with a sign that was printed before them. -/
theorem CharacterDigit.signed_toDigits {negative : Bool} {n : ℕ} {x : ℤ}
    (hx : (if negative then -(n : ℤ) else n) = x) (hrange : -(2 ^ 31) ≤ x ∧ x < 2 ^ 31) :
    d.signed negative (Nat.toDigits 10 n) = .ok x := by
  have hvalue : d.value 0 (Nat.toDigits 10 n) = some n := by
    rw [d.value_of_isDigit fun _ h => isDigit_of_mem _ h]
    exact congrArg some (Nat.ofDigitChars_toDigits (by decide) (by decide))
  unfold CharacterDigit.signed
  cases hdigits : Nat.toDigits 10 n with
  | nil => exact absurd hdigits Nat.toDigits_ne_nil
  | cons c s =>
    rw [hdigits] at hvalue
    rw [hvalue]
    dsimp only
    rw [hx, if_pos hrange]

/-- What `Integer.toString` has printed is read back. -/
theorem CharacterDigit.valueOf_decimal {x : ℤ} (h : -(2 ^ 31) ≤ x ∧ x < 2 ^ 31) :
    d.valueOf (decimal x) = .ok x := by
  cases x with
  | ofNat n =>
    unfold decimal CharacterDigit.valueOf
    have hsigned : d.signed false (Nat.toDigits 10 n) = .ok (Int.ofNat n) := d.signed_toDigits rfl h
    -- a digit is no sign
    split
    · next heq =>
      have hdigit := isDigit_of_mem '-' (heq ▸ mem_cons_self)
      exact absurd hdigit (by decide)
    · next heq =>
      have hdigit := isDigit_of_mem '+' (heq ▸ mem_cons_self)
      exact absurd hdigit (by decide)
    · exact hsigned
  | negSucc n => exact d.signed_toDigits rfl h

end Digits

/-! ### Parts of a text -/

/-- `split` at the characters of a class: empty parts at the end are left out, and
a text without such a character is its only part. -/
def splitText (p : Char → Bool) (s : List Char) : List (List Char) :=
  if s.any p then (s.splitOnP p).rdropWhile List.isEmpty else [s]

theorem splitOnP_intercalate {p : Char → Bool} {sep : Char} (hsep : p sep = true)
    {parts : List (List Char)} (hne : parts ≠ []) (hclean : ∀ t ∈ parts, ∀ c ∈ t, p c = false) :
    ([sep].intercalate parts).splitOnP p = parts := by
  induction parts with
  | nil => exact absurd rfl hne
  | cons t parts ih =>
    obtain ⟨ht, hparts⟩ := forall_mem_cons.mp hclean
    cases parts with
    | nil => rw [intercalate_singleton, splitOnP_eq_singleton ht]
    | cons t' parts =>
      rw [intercalate_cons_cons, append_assoc, singleton_append,
        splitOnP_append_cons_of_forall_mem ht sep hsep, ih (cons_ne_nil _ _) hparts]

/-- Parts that are not empty and have no separator in them come apart again. -/
theorem splitText_intercalate {p : Char → Bool} {sep : Char} (hsep : p sep = true)
    {parts : List (List Char)} (hne : parts ≠ []) (hparts : ∀ t ∈ parts, t ≠ [])
    (hclean : ∀ t ∈ parts, ∀ c ∈ t, p c = false) :
    splitText p ([sep].intercalate parts) = parts := by
  unfold splitText
  split
  · rw [splitOnP_intercalate hsep hne hclean, rdropWhile_eq_self_iff]
    intro _ hempty
    exact hparts _ (getLast_mem _) (isEmpty_iff.mp hempty)
  · next hnone =>
    -- without a separator there is one part
    cases parts with
    | nil => exact absurd rfl hne
    | cons t parts =>
      cases parts with
      | nil => rw [intercalate_singleton]
      | cons t' parts =>
        refine absurd (any_eq_true.mpr ⟨sep, ?_, hsep⟩) hnone
        rw [intercalate_cons_cons]
        simp

/-! ### Addresses -/

/-- `IPv4.fromIPv4Address`. -/
def fromIPv4Address (address : BitVec 32) : List Char :=
  ['.'].intercalate ([24, 16, 8, 0].map fun shift =>
    decimal ((address >>> shift) &&& 0xff).toNat)

theorem mem_fromIPv4Address {address : BitVec 32} {c : Char} (hc : c ∈ fromIPv4Address address) :
    (c.isDigit = true ∨ c = '-') ∨ c = '.' := by
  simp only [fromIPv4Address, map_cons, map_nil, intercalate_cons_cons, intercalate_singleton,
    mem_append, mem_singleton] at hc
  rcases hc with (hc | hc) | (hc | hc) | (hc | hc) | hc
  all_goals first
    | exact Or.inr hc
    | exact Or.inl (isDigit_or_dash_of_mem hc)

theorem fromIPv4Address_ne_nil (address : BitVec 32) : fromIPv4Address address ≠ [] := by
  simp [fromIPv4Address]

theorem splitText_fromIPv4Address (address : BitVec 32) :
    splitText (· == '.') (fromIPv4Address address) = [24, 16, 8, 0].map fun shift =>
      decimal ((address >>> shift) &&& 0xff).toNat := by
  refine splitText_intercalate rfl (by simp) ?_ ?_
  · intro t ht
    obtain ⟨shift, -, rfl⟩ := mem_map.mp ht
    exact decimal_ne_nil _
  · intro t ht c hc
    obtain ⟨shift, -, rfl⟩ := mem_map.mp ht
    refine beq_eq_false_iff_ne.mpr ?_
    rintro rfl
    exact absurd (isDigit_or_dash_of_mem hc) (by decide)

end NctuSdn
