/-
Decimal numbers in texts.

`decimal` prints an integer as Java does.  Numbers behind labels that end in a
dash can be read back one after the other, from the end of the text
(`append_label_inj`).
-/
import Mathlib.Data.Int.Notation
import Mathlib.Tactic.Common

namespace Decimal

open List Nat

/-- `Integer.toString` and its like. -/
def decimal : ℤ → List Char
  | .ofNat n => Nat.toDigits 10 n
  | .negSucc n => '-' :: Nat.toDigits 10 (n + 1)

theorem toDigits_injective {m n : ℕ} (h : toDigits 10 m = toDigits 10 n) : m = n := by
  have hvalue := congrArg (fun ds => ofDigitChars 10 ds 0) h
  simpa using hvalue

theorem dash_not_mem_toDigits (n : ℕ) : '-' ∉ toDigits 10 n := by
  intro h
  have hdigit := isDigit_of_mem_toDigits (by decide) (by decide) h
  exact absurd hdigit (by decide)

theorem decimal_injective {m n : ℤ} (h : decimal m = decimal n) : m = n := by
  cases m with
  | ofNat m =>
    cases n with
    | ofNat n => rw [toDigits_injective h]
    | negSucc n =>
      refine absurd ?_ (dash_not_mem_toDigits m)
      rw [show toDigits 10 m = '-' :: toDigits 10 (n + 1) from h]
      exact mem_cons_self
  | negSucc m =>
    cases n with
    | ofNat n =>
      refine absurd ?_ (dash_not_mem_toDigits n)
      rw [show toDigits 10 n = '-' :: toDigits 10 (m + 1) from h.symm]
      exact mem_cons_self
    | negSucc n =>
      have hdigits := toDigits_injective (cons_inj_right _ |>.mp h)
      rw [Nat.add_right_cancel hdigits]

/-- The digits at the end of a text, if they are behind something else. -/
theorem append_digits_inj {u v ds es : List Char} {x y : Char} (hx : x.isDigit = false)
    (hy : y.isDigit = false) (hds : ∀ d ∈ ds, d.isDigit) (hes : ∀ d ∈ es, d.isDigit)
    (h : (u ++ [x]) ++ ds = (v ++ [y]) ++ es) : u ++ [x] = v ++ [y] ∧ ds = es := by
  -- what one side has more of the digits would end in the character of the other side
  have hshort {u v ds es : List Char} {y : Char} (hy : y.isDigit = false)
      (hds : ∀ d ∈ ds, d.isDigit) (c : List Char) (hv : v ++ [y] = u ++ c) (hc : ds = c ++ es) :
      c = [] := by
    rcases eq_nil_or_concat c with hnil | ⟨c, z, rfl⟩
    · exact hnil
    · have hlast : y = z := by
        have hlast := congrArg List.getLast? hv
        simpa using hlast
      have hdigit := hds z (by rw [hc]; simp)
      rw [← hlast, hy] at hdigit
      cases hdigit
  rcases append_eq_append_iff.mp h with ⟨c, hv, hc⟩ | ⟨c, hu, hc⟩
  · cases hshort hy hds c hv hc
    exact ⟨by simpa using hv.symm, by simpa using hc⟩
  · cases hshort hx hes c hu hc
    exact ⟨by simpa using hu, by simpa using hc.symm⟩

theorem isDigit_of_mem {n : ℕ} : ∀ d ∈ toDigits 10 n, d.isDigit :=
  fun _ hd => isDigit_of_mem_toDigits (by decide) (by decide) hd

theorem decimal_ne_nil (x : ℤ) : decimal x ≠ [] := by
  cases x with
  | ofNat n => exact toDigits_ne_nil
  | negSucc n => exact cons_ne_nil _ _

theorem isDigit_or_dash_of_mem {x : ℤ} {c : Char} (hc : c ∈ decimal x) :
    c.isDigit = true ∨ c = '-' := by
  cases x with
  | ofNat n => exact Or.inl (isDigit_of_mem c hc)
  | negSucc n =>
    rcases mem_cons.mp hc with hsign | hdigit
    · exact Or.inr hsign
    · exact Or.inl (isDigit_of_mem c hdigit)

/-- The number at the end of a text, behind a dash that follows another
character. -/
theorem append_decimal_inj {u v : List Char} {x y : Char} (hx : x ≠ '-') (hy : y ≠ '-') {m n : ℤ}
    (h : u ++ [x] ++ ['-'] ++ decimal m = v ++ [y] ++ ['-'] ++ decimal n) :
    u ++ [x] = v ++ [y] ∧ m = n := by
  have hdash : '-'.isDigit = false := by decide
  -- a sign on one side only would be the other character of the other side
  have hsign {u v : List Char} {x : Char} (hx : x ≠ '-')
      (heq : u ++ [x] ++ ['-'] = v ++ ['-'] ++ ['-']) : False := by
    have hlast := congrArg List.getLast? (append_inj_left' heq rfl)
    exact hx (by simpa using hlast)
  cases m with
  | ofNat m =>
    cases n with
    | ofNat n =>
      obtain ⟨htext, hdigits⟩ :=
        append_digits_inj hdash hdash isDigit_of_mem isDigit_of_mem h
      exact ⟨append_inj_left' htext rfl, by rw [toDigits_injective hdigits]⟩
    | negSucc n =>
      rw [decimal, decimal, append_cons _ _ (toDigits 10 (n + 1))] at h
      obtain ⟨htext, -⟩ := append_digits_inj hdash hdash isDigit_of_mem isDigit_of_mem h
      exact absurd htext (hsign hx)
  | negSucc m =>
    cases n with
    | ofNat n =>
      rw [decimal, decimal, append_cons _ _ (toDigits 10 (m + 1))] at h
      obtain ⟨htext, -⟩ := append_digits_inj hdash hdash isDigit_of_mem isDigit_of_mem h
      exact absurd htext.symm (hsign hy)
    | negSucc n =>
      rw [decimal, decimal, append_cons _ _ (toDigits 10 (m + 1)),
        append_cons _ _ (toDigits 10 (n + 1))] at h
      obtain ⟨htext, hdigits⟩ :=
        append_digits_inj hdash hdash isDigit_of_mem isDigit_of_mem h
      have htext := append_inj_left' (append_inj_left' htext rfl) rfl
      exact ⟨htext, by rw [Nat.add_right_cancel (toDigits_injective hdigits)]⟩

/-- A number behind a label can be read back. -/
theorem append_label_inj {u v label w : List Char} {x : Char} (hlabel : label = w ++ [x, '-'])
    (hx : x ≠ '-') {m n : ℤ} (h : u ++ label ++ decimal m = v ++ label ++ decimal n) :
    u = v ∧ m = n := by
  have hsplit (t : List Char) : t ++ label = (t ++ w) ++ [x] ++ ['-'] := by
    rw [hlabel]
    simp
  rw [hsplit, hsplit] at h
  obtain ⟨htext, hnumber⟩ := append_decimal_inj hx hx h
  exact ⟨append_cancel_right (append_cancel_right htext), hnumber⟩

end Decimal
