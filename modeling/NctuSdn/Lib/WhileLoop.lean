/-
Loops that run until their body says stop.

The body either fails, stops, or moves to a new state.  `whileLoop` runs it a
bounded number of times.  When some measure falls with every move that changes
the state, a number of rounds above the measure is enough: more rounds give
the same result (`whileLoop_rounds`), also for a loop that stands still and so
never ends.  Whether some number of rounds is enough (`WhileEnds`) is passed on
from a state to the one that it moves to.

What a loop returns is described by a relation that its moves follow and that
leads nowhere from where it stops (`whileLoop_result`).
-/
import Mathlib.Logic.Relation
import Mathlib.Tactic.Common

namespace NctuSdn

open Relation

variable {σ ε : Type*}

/-- Runs the body until it stops; `out` is the failure of a loop that has used
up its rounds. -/
def whileLoop (out : ε) (body : σ → Except ε (Option σ)) : ℕ → σ → Except ε σ
  | 0, _ => .error out
  | n + 1, s =>
    match body s with
    | .error e => .error e
    | .ok none => .ok s
    | .ok (some s') => whileLoop out body n s'

variable {out : ε} {body : σ → Except ε (Option σ)} {s : σ}

theorem whileLoop_error {e : ε} (h : body s = .error e) (n : ℕ) :
    whileLoop out body (n + 1) s = .error e := by
  simp only [whileLoop, h]

theorem whileLoop_stop (h : body s = .ok none) (n : ℕ) :
    whileLoop out body (n + 1) s = .ok s := by
  simp only [whileLoop, h]

theorem whileLoop_move {s' : σ} (h : body s = .ok (some s')) (n : ℕ) :
    whileLoop out body (n + 1) s = whileLoop out body n s' := by
  simp only [whileLoop, h]

/-! ### Enough rounds -/

theorem whileLoop_endless (h : body s = .ok (some s)) (n : ℕ) :
    whileLoop out body n s = .error out := by
  induction n with
  | zero => rfl
  | succ n ih => rw [whileLoop_move h, ih]

theorem whileLoop_rounds (μ : σ → ℕ) (hμ : ∀ s s', body s = .ok (some s') → μ s' < μ s ∨ s' = s)
    {m n : ℕ} (hm : μ s < m) (hn : μ s < n) : whileLoop out body m s = whileLoop out body n s := by
  induction m generalizing n s with
  | zero => exact absurd hm (Nat.not_lt_zero _)
  | succ m ih =>
    obtain ⟨n, rfl⟩ := Nat.exists_eq_add_one_of_ne_zero (Nat.ne_zero_of_lt hn)
    match hb : body s with
    | .error e => rw [whileLoop_error hb, whileLoop_error hb]
    | .ok none => rw [whileLoop_stop hb, whileLoop_stop hb]
    | .ok (some s') =>
      obtain hlt | rfl := hμ s s' hb
      · rw [whileLoop_move hb, whileLoop_move hb]
        exact ih (by omega) (by omega)
      · rw [whileLoop_endless hb, whileLoop_endless hb]

/-! ### Loops that end -/

/-- Some number of rounds is enough. -/
def WhileEnds (out : ε) (body : σ → Except ε (Option σ)) (s : σ) : Prop :=
  ∃ n, whileLoop out body n s ≠ .error out

theorem whileEnds_of_error {e : ε} (h : body s = .error e) (hne : e ≠ out) :
    WhileEnds out body s := by
  refine ⟨1, fun hout => hne ?_⟩
  rw [whileLoop_error h] at hout
  exact Except.error.inj hout

theorem whileEnds_of_stop (h : body s = .ok none) : WhileEnds out body s := by
  refine ⟨1, fun hout => ?_⟩
  rw [whileLoop_stop h] at hout
  cases hout

theorem whileEnds_move_iff {s' : σ} (h : body s = .ok (some s')) :
    WhileEnds out body s ↔ WhileEnds out body s' := by
  constructor
  · rintro ⟨n, hn⟩
    cases n with
    | zero => exact absurd rfl hn
    | succ n => exact ⟨n, whileLoop_move h n ▸ hn⟩
  · rintro ⟨n, hn⟩
    exact ⟨n + 1, (whileLoop_move h n).symm ▸ hn⟩

theorem not_whileEnds_of_still (h : body s = .ok (some s)) : ¬ WhileEnds out body s := by
  rintro ⟨n, hn⟩
  exact hn (whileLoop_endless h n)

/-! ### The result -/

variable {R : σ → σ → Prop}

/-- Two chains of deterministic steps from one place that cannot go on end in
one place. -/
theorem reaches_end_unique (hR : Relator.RightUnique R) {t u : σ} (ht : ReflTransGen R s t)
    (htend : ∀ v, ¬ R t v) (hu : ReflTransGen R s u) (huend : ∀ v, ¬ R u v) : t = u := by
  obtain h | h := ReflTransGen.total_of_right_unique hR ht hu
  · obtain rfl | ⟨v, hv, -⟩ := ReflTransGen.cases_head h
    · rfl
    · exact absurd hv (htend v)
  · obtain rfl | ⟨v, hv, -⟩ := ReflTransGen.cases_head h
    · rfl
    · exact absurd hv (huend v)

theorem whileLoop_reaches (hmove : ∀ s s', body s = .ok (some s') → R s s') {n : ℕ} {t : σ}
    (h : whileLoop out body n s = .ok t) : ReflTransGen R s t ∧ body t = .ok none := by
  induction n generalizing s with
  | zero => cases h
  | succ n ih =>
    match hb : body s with
    | .error e =>
      rw [whileLoop_error hb] at h
      cases h
    | .ok none =>
      rw [whileLoop_stop hb] at h
      cases h
      exact ⟨.refl, hb⟩
    | .ok (some s') =>
      rw [whileLoop_move hb] at h
      obtain ⟨hreach, hstop⟩ := ih h
      exact ⟨.head (hmove s s' hb) hreach, hstop⟩

/-- The result of a loop whose moves follow a deterministic relation, and that
stops only where the relation does, is the end of the chain from the start. -/
theorem whileLoop_result (hmove : ∀ s s', body s = .ok (some s') → R s s')
    (hstop : ∀ s, body s = .ok none → ∀ s', ¬ R s s') (hR : Relator.RightUnique R) {n : ℕ} {t : σ}
    (h : whileLoop out body n s = .ok t) (u : σ) :
    t = u ↔ ReflTransGen R s u ∧ ∀ v, ¬ R u v := by
  obtain ⟨hreach, hend⟩ := whileLoop_reaches hmove h
  constructor
  · rintro rfl
    exact ⟨hreach, hstop t hend⟩
  · rintro ⟨hu, huend⟩
    exact reaches_end_unique hR hreach (hstop t hend) hu huend

/-! ### Limits -/

/-- A loop that collects what its rounds begin with, until the body stops or there are more than
the limit; 0 is no limit.  It returns where the body stopped. -/
def collect (out : ε) (body : σ → Except ε (Option σ)) (limit : ℕ) :
    ℕ → σ → List σ → Except ε (List σ × Option σ)
  | 0, _, _ => .error out
  | n + 1, s, results =>
    if limit = 0 ∨ results.length ≤ limit then
      match body s with
      | .error e => .error e
      | .ok none => .ok (results, some s)
      | .ok (some s') => collect out body limit n s' (results ++ [s])
    else .ok (results, none)

variable {results all : List σ} {last : Option σ} {m n limit : ℕ}

theorem prefix_of_collect (h : collect out body limit n s results = .ok (all, last)) :
    results <+: all := by
  induction n generalizing s results with
  | zero => cases h
  | succ n ih =>
    unfold collect at h
    split at h
    · split at h
      next => cases h
      next =>
        cases h
        exact List.prefix_rfl
      next s' _ => exact (List.prefix_append results [s]).trans (ih h)
    · cases h
      exact List.prefix_rfl

theorem collect_take (h : collect out body 0 n s results = .ok (all, last))
    (hlength : results.length ≤ limit + 2) (hm : limit + 2 - results.length < m) :
    ∃ last', collect out body (limit + 1) m s results = .ok (all.take (limit + 2), last') ∧
      (last' = none ∨ last' = last) := by
  induction n generalizing s results m with
  | zero => cases h
  | succ n ih =>
    obtain ⟨m, rfl⟩ := Nat.exists_eq_add_one_of_ne_zero (Nat.ne_zero_of_lt hm)
    by_cases hmore : results.length ≤ limit + 1
    · unfold collect at h ⊢
      rw [if_pos (.inl rfl)] at h
      rw [if_pos (.inr hmore)]
      split at h
      next => cases h
      next =>
        cases h
        rw [List.take_of_length_le hlength]
        exact ⟨_, rfl, .inr rfl⟩
      next s' _ =>
        have hnext : (results ++ [s]).length = results.length + 1 := by simp
        exact ih h (by omega) (by omega)
    · -- the limit is passed, and the results are the beginning of all
      have htake := List.prefix_iff_eq_take.mp (prefix_of_collect h)
      rw [show results.length = limit + 2 by omega] at htake
      unfold collect
      rw [if_neg (by omega), ← htake]
      exact ⟨none, rfl, .inl rfl⟩

end NctuSdn
