/-
Message passing with arbitrary delivery order.

A configuration is a state together with the multiset of messages in flight.
One step takes any message in flight and runs the handler on it; what the
handler sends is in flight afterwards.  Nothing is said about who the parties
are: the state of all of them is the one state, and the handler looks at the
message to know whose turn it is.

Two rules cover the proofs over such systems:

* `Net.invariant` — a property that holds initially and that every delivery
  preserves holds after every run;
* `Net.exists_quiescent`, `Net.wellFounded_step` — if every message weighs
  more than everything its handling sends, all runs are finite and each can
  be extended to one with nothing left in flight.

Messages that are relayed without any state are a case of their own
(`relay_bounded`, `not_relay_bounded`).
-/
import Mathlib.Algebra.BigOperators.Group.Multiset.Basic
import Mathlib.Algebra.Order.BigOperators.Group.Multiset
import Mathlib.Algebra.Order.Ring.Nat

namespace NctuSdn

open Multiset Relation

variable {σ M : Type*}

/-- A state and the messages in flight. -/
structure Net (σ M : Type*) where
  state : σ
  inFlight : Multiset M

namespace Net

variable (handle : σ → M → σ × List M)

def Step (c c' : Net σ M) : Prop :=
  ∃ m rest, c.inFlight = m ::ₘ rest ∧
    c' = ⟨(handle c.state m).1, rest + ((handle c.state m).2 : Multiset M)⟩

/-- Deliver any number of messages. -/
def Run : Net σ M → Net σ M → Prop := Relation.ReflTransGen (Step handle)

def Quiescent (c : Net σ M) : Prop := c.inFlight = 0

variable {handle} {c' c : Net σ M}

/-- **Invariant rule.** -/
theorem invariant {P : Net σ M → Prop} (hstep : ∀ s m rest, P ⟨s, m ::ₘ rest⟩ →
      P ⟨(handle s m).1, rest + ((handle s m).2 : Multiset M)⟩)
    (hrun : Run handle c c') (hc : P c) : P c' := by
  induction hrun with
  | refl => exact hc
  | tail _ h ih =>
    obtain ⟨m, rest, hfl, rfl⟩ := h
    refine hstep _ m rest ?_
    rw [← hfl]
    exact ih

/-! ### Termination by weight -/

section Weight

variable {w : M → ℕ}

def weight (w : M → ℕ) (c : Net σ M) : ℕ := (c.inFlight.map w).sum

section

variable (hw : ∀ s m, (((handle s m).2).map w).sum < w m)
include hw

theorem weight_lt_of_step (h : Step handle c c') : c'.weight w < c.weight w := by
  obtain ⟨m, rest, hfl, rfl⟩ := h
  unfold weight
  rw [hfl, map_add, sum_add, map_cons, sum_cons,
    map_coe, sum_coe, add_comm]
  exact Nat.add_lt_add_right (hw c.state m) _

theorem wellFounded_step :
    WellFounded fun c' c : Net σ M => Step handle c c' :=
  Subrelation.wf (fun {_ _} h => weight_lt_of_step hw h) (measure (weight w)).wf

theorem exists_quiescent (c : Net σ M) :
    ∃ c', Run handle c c' ∧ c'.Quiescent := by
  induction c using (wellFounded_step hw).induction with
  | _ c ih =>
    rcases empty_or_exists_mem c.inFlight with hnil | ⟨m, hm⟩
    · exact ⟨c, ReflTransGen.refl, hnil⟩
    · obtain ⟨rest, hrest⟩ := exists_cons_of_mem hm
      have hstep : Step handle c
          ⟨(handle c.state m).1, rest + ((handle c.state m).2 : Multiset M)⟩ :=
        ⟨m, rest, hrest, rfl⟩
      obtain ⟨c', hrun, hq⟩ := ih _ hstep
      exact ⟨c', ReflTransGen.head hstep hrun, hq⟩

end

end Weight

/-! ### The number of deliveries -/

/-- Deliver `n` messages. -/
inductive Steps (handle : σ → M → σ × List M) : ℕ → Net σ M → Net σ M → Prop
  | zero (c : Net σ M) : Steps handle 0 c c
  | succ {n : ℕ} {c c' c'' : Net σ M} (h : Steps handle n c c') (hstep : Step handle c' c'') :
      Steps handle (n + 1) c c''

/-- There is a bound on the number of deliveries. -/
def Bounded (handle : σ → M → σ × List M) (c : Net σ M) : Prop :=
  ∃ N, ∀ n c', Steps handle n c c' → n ≤ N

theorem Steps.trans {n k : ℕ} {c'' : Net σ M} (h : Steps handle n c c')
    (h' : Steps handle k c' c'') :
    Steps handle (n + k) c c'' := by
  induction h' with
  | zero => exact h
  | succ _ hstep ih => exact .succ (ih h) hstep

theorem Steps.add_weight_le {w : M → ℕ} (hw : ∀ s m, (((handle s m).2).map w).sum < w m) {n : ℕ}
    (h : Steps handle n c c') : n + c'.weight w ≤ c.weight w := by
  induction h with
  | zero => exact (Nat.zero_add _).le
  | succ _ hstep ih =>
    have hlt := weight_lt_of_step hw hstep
    omega

section Relay

variable (children : M → List M)

/-- Handling a message means sending its children. -/
def relay : Unit → M → Unit × List M := fun _ m => ((), children m)

variable {children}

/-- Each message can be given a weight if none leads to others for ever. -/
theorem exists_weight (hwf : WellFounded fun m' m => m' ∈ children m) :
    ∃ w : M → ℕ, ∀ m, ((children m).map w).sum < w m := by
  let w : M → ℕ := hwf.fix fun m ih => 1 + ((children m).attach.map fun c => ih c.1 c.2).sum
  have hw : ∀ m, w m = 1 + ((children m).map w).sum := by
    intro m
    have hfix := hwf.fix_eq
      (fun m ih => 1 + ((children m).attach.map fun c => ih c.1 c.2).sum) m
    refine hfix.trans ?_
    congr 2
    exact List.attach_map_val
  refine ⟨w, fun m => ?_⟩
  rw [hw m]
  omega

/-- **Well-founded relaying ends.** -/
theorem relay_bounded (hwf : WellFounded fun m' m => m' ∈ children m) (c : Net Unit M) :
    Bounded (relay children) c := by
  obtain ⟨w, hw⟩ := exists_weight hwf
  refine ⟨c.weight w, fun n c' h => ?_⟩
  have hle := h.add_weight_le fun _ m => hw m
  omega

theorem exists_steps_of_spawn {m m' : M}
    (h : TransGen (fun m m' => m' ∈ children m) m m') {c : Net Unit M} (hm : m ∈ c.inFlight) :
    ∃ n c', Steps (relay children) (n + 1) c c' ∧ m' ∈ c'.inFlight := by
  induction h using TransGen.head_induction_on generalizing c with
  | single hspawn =>
    obtain ⟨rest, hrest⟩ := exists_cons_of_mem hm
    refine ⟨0, _, .succ (.zero c) ⟨_, rest, hrest, rfl⟩, ?_⟩
    exact mem_add.mpr (.inr (mem_coe.mpr hspawn))
  | head hspawn _ ih =>
    obtain ⟨rest, hrest⟩ := exists_cons_of_mem hm
    obtain ⟨n, c', hsteps, hm'⟩ := ih
      (c := ⟨(), rest + (children _ : Multiset M)⟩)
      (mem_add.mpr (.inr (mem_coe.mpr hspawn)))
    have hfirst : Steps (relay children) 1 c ⟨(), rest + (children _ : Multiset M)⟩ :=
      .succ (.zero c) ⟨_, rest, hrest, rfl⟩
    refine ⟨n + 1, c', ?_, hm'⟩
    have hall := hfirst.trans hsteps
    rwa [Nat.add_comm] at hall

/-- **Relaying goes on for ever** if a message that is reached leads to itself. -/
theorem not_relay_bounded {m y : M} (hreach : ReflTransGen (fun m m' => m' ∈ children m) m y)
    (hself : TransGen (fun m m' => m' ∈ children m) y y) {c : Net Unit M}
    (hm : m ∈ c.inFlight) : ¬ Bounded (relay children) c := by
  have hround : ∀ k, ∃ n c', k ≤ n ∧ Steps (relay children) n c c' ∧ y ∈ c'.inFlight := by
    intro k
    induction k with
    | zero =>
      rcases reflTransGen_iff_eq_or_transGen.mp hreach with rfl | h
      · exact ⟨0, c, le_refl _, .zero c, hm⟩
      · obtain ⟨n, c', hsteps, hy⟩ := exists_steps_of_spawn h hm
        exact ⟨n + 1, c', Nat.zero_le _, hsteps, hy⟩
    | succ k ih =>
      obtain ⟨n, c', hle, hsteps, hy⟩ := ih
      obtain ⟨n', c'', hsteps', hy'⟩ := exists_steps_of_spawn hself hy
      exact ⟨n + (n' + 1), c'', by omega, hsteps.trans hsteps', hy'⟩
  rintro ⟨N, hN⟩
  obtain ⟨n, c', hle, hsteps, -⟩ := hround (N + 1)
  have hbound := hN n c' hsteps
  omega

end Relay

end Net

end NctuSdn
