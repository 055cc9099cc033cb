/-
Nodes joined by links, and what is passed on along them without turning back.

A *wiring* has ends, each at a node, and joins some of them in pairs: the
peer of an end is the other end of its link.  Links from a node to itself and
several links between two nodes are allowed.  Something that comes in at an
end and goes out again at another end of the same node moves `Onward`.

The one result relates this to the shape of the wiring.  In a forest, that is
without self-links, without parallel links and without cycles, nothing ever
comes back to the end it came in by (`IsForest.not_transGen_onward`).  In any
other wiring something can go round for ever (`exists_transGen_onward_self`).
-/
import Mathlib.Combinatorics.SimpleGraph.Acyclic

namespace NctuSdn

open SimpleGraph Relation

/-- Ends at nodes, joined in pairs. -/
structure Wiring (α V : Type*) where
  node : α → V
  peer : α → Option α
  symm : ∀ {a b}, peer a = some b → peer b = some a
  irrefl : ∀ a, peer a ≠ some a

namespace Wiring

variable {α V : Type*} (w : Wiring α V)

/-- The nodes and the links between different ones. -/
def graph : SimpleGraph V where
  Adj u v := u ≠ v ∧ ∃ a b, w.node a = u ∧ w.node b = v ∧ w.peer a = some b
  symm := by
    constructor
    rintro u v ⟨hne, a, b, ha, hb, hpeer⟩
    exact ⟨hne.symm, b, a, hb, ha, w.symm hpeer⟩
  loopless := ⟨fun _ h => h.1 rfl⟩

/-- No self-links, no parallel links, no cycles. -/
structure IsForest : Prop where
  noLoop : ∀ {a b}, w.peer a = some b → w.node a ≠ w.node b
  noParallel : ∀ {a b a' b'}, w.peer a = some b → w.peer a' = some b' →
    w.node a = w.node a' → w.node b = w.node b' → a = a'
  acyclic : w.graph.IsAcyclic

/-- In at `a`, out by another end of the node, and in at `b`. -/
def Onward (a b : α) : Prop := ∃ c, w.node c = w.node a ∧ c ≠ a ∧ w.peer c = some b

variable {w}

theorem isChain_edges_cons {G : SimpleGraph V} {u v t : V} (h : G.Adj u v) {p : G.Walk v t}
    (hp : p.edges.IsChain (· ≠ ·)) (hback : ¬ p.Nil → p.snd ≠ u) :
    (Walk.cons h p).edges.IsChain (· ≠ ·) := by
  cases p with
  | nil => simp
  | cons h' q =>
    have hne := hback Walk.not_nil_cons
    rw [Walk.snd_cons] at hne
    rw [Walk.edges_cons, Walk.edges_cons, List.isChain_cons_cons]
    refine ⟨?_, by rwa [Walk.edges_cons] at hp⟩
    intro heq
    rcases Sym2.eq_iff.mp heq with ⟨hu, -⟩ | ⟨hu, -⟩
    · exact h.ne hu
    · exact hne hu.symm

/-! ### Forests -/

theorem IsForest.exists_walk (hw : w.IsForest) {a b : α} (h : TransGen w.Onward a b) :
    ∃ p : w.graph.Walk (w.node a) (w.node b), ¬ p.Nil ∧ p.edges.IsChain (· ≠ ·) ∧
      ∃ c d, w.node c = w.node a ∧ c ≠ a ∧ w.peer c = some d ∧ p.snd = w.node d := by
  induction h using TransGen.head_induction_on with
  | single hstep =>
    rename_i x
    obtain ⟨c, hnode, hne, hpeer⟩ := hstep
    have hadj : w.graph.Adj (w.node x) (w.node b) :=
      ⟨hnode ▸ hw.noLoop hpeer, c, b, hnode, rfl, hpeer⟩
    exact ⟨.cons hadj .nil, by simp, by simp, c, b, hnode, hne, hpeer, by simp⟩
  | head hstep _ ih =>
    rename_i x y _
    obtain ⟨c, hnode, hne, hpeer⟩ := hstep
    obtain ⟨p, hnil, hchain, c', d, hnode', hne', hpeer', hsnd⟩ := ih
    have hadj : w.graph.Adj (w.node x) (w.node y) :=
      ⟨hnode ▸ hw.noLoop hpeer, c, y, hnode, rfl, hpeer⟩
    refine ⟨.cons hadj p, by simp, isChain_edges_cons hadj hchain fun _ hback => ?_, c, y,
      hnode, hne, hpeer, by simp⟩
    -- the link back to `x` is the only one there, and `y` is not left by it
    apply hne'
    apply hw.noParallel hpeer' (w.symm hpeer) hnode'
    rw [← hsnd, hback, hnode]

/-- **Nothing comes back in a forest.** -/
theorem IsForest.not_transGen_onward (hw : w.IsForest) (a : α) :
    ¬ TransGen w.Onward a a := by
  intro h
  obtain ⟨p, hnil, hchain, -⟩ := hw.exists_walk h
  have hpath : p.IsPath := (hw.acyclic.isPath_iff_isChain p).mpr hchain
  exact hnil (Walk.isPath_iff_nil.mp hpath)

/-! ### Loops -/

/-- Out by the first end and, without turning back, in at the second. -/
inductive Trip (w : Wiring α V) : α → α → Prop
  | link {a b : α} (h : w.peer a = some b) : Trip w a b
  | cons {a b c d : α} (h : w.peer a = some b) (hnode : w.node c = w.node b) (hne : c ≠ b)
      (rest : Trip w c d) : Trip w a d

theorem Trip.onward {a d x : α} (h : w.Trip a d) (hnode : w.node a = w.node x) (hne : a ≠ x) :
    TransGen w.Onward x d := by
  induction h generalizing x with
  | link hpeer => exact .single ⟨_, hnode, hne, hpeer⟩
  | cons hpeer hnode' hne' _ ih => exact .head ⟨_, hnode, hne, hpeer⟩ (ih hnode' hne')

theorem Trip.snoc {a b c d : α} (h : w.Trip a b) (hnode : w.node c = w.node b) (hne : c ≠ b)
    (hpeer : w.peer c = some d) : w.Trip a d := by
  induction h with
  | link h => exact .cons h hnode hne (.link hpeer)
  | cons h hnode' hne' _ ih => exact .cons h hnode' hne' (ih hnode hne)

theorem Trip.reverse {a d : α} (h : w.Trip a d) : w.Trip d a := by
  induction h with
  | link h => exact .link (w.symm h)
  | cons h hnode hne _ ih => exact ih.snoc hnode.symm hne.symm (w.symm h)

theorem exists_trip {u v : V} (p : w.graph.Walk u v) (hnil : ¬ p.Nil)
    (hchain : p.edges.IsChain (· ≠ ·)) :
    ∃ a b c d, w.node a = u ∧ w.node d = v ∧ w.Trip a d ∧ w.peer a = some b ∧
      w.node b = p.snd ∧ w.peer d = some c ∧ w.node c = p.penultimate := by
  induction p with
  | nil => exact absurd Walk.nil_nil hnil
  | cons hadj q ih =>
    obtain ⟨a, b, ha, hb, hpeer⟩ := hadj.2
    cases q with
    | nil =>
      exact ⟨a, b, a, b, ha, hb, .link hpeer, hpeer, by simpa using hb, w.symm hpeer,
        by simpa using ha⟩
    | cons hadj' q =>
      rw [Walk.edges_cons, Walk.edges_cons,
        List.isChain_cons_cons] at hchain
      obtain ⟨c, d, e, f, hc, hf, htrip, hpeerc, hd, hpeerf, he⟩ :=
        ih Walk.not_nil_cons (by rw [Walk.edges_cons]; exact hchain.2)
      have hne : c ≠ b := by
        -- otherwise the walk turns back at `b`
        rintro rfl
        rw [w.symm hpeer] at hpeerc
        cases hpeerc
        apply hchain.1
        rw [Walk.snd_cons] at hd
        rw [Sym2.eq_swap, ← ha, hd]
      refine ⟨a, b, e, f, ha, hf, .cons hpeer (hc.trans hb.symm) hne htrip, hpeer, ?_, hpeerf,
        ?_⟩
      · simpa using hb
      · rw [he]
        simp

/-- A wiring that is not a forest has a trip from a node to itself that comes
in by another end than it left by. -/
theorem exists_loop (hw : ¬ w.IsForest) :
    ∃ a b d, w.Trip a d ∧ w.node a = w.node d ∧ a ≠ d ∧ w.peer a = some b := by
  by_contra hloop
  push Not at hloop
  apply hw
  refine ⟨fun {a b} hpeer hnode => ?_, fun {a b a' b'} hpeer hpeer' hnode hnode' => ?_, ?_⟩
  · have hne : a ≠ b := by
      rintro rfl
      exact w.irrefl a hpeer
    exact hloop a b b (.link hpeer) hnode hne hpeer
  · by_contra hne
    have hne' : b' ≠ b := by
      rintro rfl
      apply hne
      exact Option.some.inj ((w.symm hpeer).symm.trans (w.symm hpeer'))
    exact hloop a b a' (.cons hpeer hnode'.symm hne' (.link (w.symm hpeer'))) hnode hne hpeer
  · intro v c hcycle
    have hnil : ¬ c.Nil := hcycle.not_nil
    obtain ⟨a, b, e, d, ha, hd, htrip, hpeer, hb, hpeer', he⟩ :=
      exists_trip c hnil hcycle.edges_nodup.isChain
    have hne : a ≠ d := by
      rintro rfl
      rw [hpeer] at hpeer'
      cases hpeer'
      exact hcycle.snd_ne_penultimate (hb.symm.trans he)
    exact hloop a b d htrip (ha.trans hd.symm) hne hpeer

/-- **Something goes round for ever** in a wiring that is not a forest, from
any end without a link whose node is connected to all links. -/
theorem exists_transGen_onward_self (hw : ¬ w.IsForest) {x : α} (hx : w.peer x = none)
    (hconn : ∀ a b, w.peer a = some b → w.graph.Reachable (w.node x) (w.node a)) :
    ∃ y, ReflTransGen w.Onward x y ∧ TransGen w.Onward y y := by
  obtain ⟨a, b, d, htrip, hnode, hne, hpeer⟩ := exists_loop hw
  -- whichever end of the node something comes in by, one way round is open
  have hround : ∀ y, w.node y = w.node a →
      ∃ z, ReflTransGen w.Onward y z ∧ TransGen w.Onward z z := by
    intro y hy
    by_cases hya : a = y
    · subst hya
      exact ⟨a, .refl, htrip.reverse.onward hnode.symm hne.symm⟩
    · exact ⟨d, (htrip.onward hy.symm hya).to_reflTransGen, htrip.onward hnode hne⟩
  obtain ⟨p, hp⟩ := (hconn a b hpeer).exists_isPath
  by_cases hnil : p.Nil
  · exact hround x hnil.eq
  · obtain ⟨c, _, _, e, hc, he, htrip', hpeer', -⟩ :=
      exists_trip p hnil hp.isTrail.edges_nodup.isChain
    have hcx : c ≠ x := by
      rintro rfl
      rw [hx] at hpeer'
      cases hpeer'
    obtain ⟨z, hz, hzz⟩ := hround e he
    exact ⟨z, (htrip'.onward hc hcx).to_reflTransGen.trans hz, hzz⟩

end Wiring

end NctuSdn
