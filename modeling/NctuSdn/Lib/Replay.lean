/-
Changes of a map as a list.

A change sets the value of a key or removes it.  Replaying a list of changes
leaves at each key what the last change of that key says.  Where no key is
touched after it has been set (`Final`), the order of the changes matters no
further: a key that is set has its value, a key that is only removed has none,
and the others are as before.

The lists are collected in a `LinkedHashSet`: what is in it already is not
added again and keeps its place (`addAll`).
-/
import Mathlib.Data.Finmap

namespace NctuSdn

open List

/-! ### Sets that remember the order of insertion -/

namespace LinkedHashSet

variable {E : Type*}

/-- `LinkedHashSet.add`; `same` is what the set takes for equality. -/
def add (same : E → E → Bool) (es : List E) (e : E) : List E :=
  if es.any (same e) then es else es ++ [e]

def addAll (same : E → E → Bool) (es es' : List E) : List E := es'.foldl (add same) es

variable {same : E → E → Bool} {es es' : List E}

theorem mem_add {e x : E} (h : ∀ e' ∈ es, same e e' = true → e' = e) :
    x ∈ add same es e ↔ x ∈ es ∨ x = e := by
  unfold add
  split
  case isTrue hany =>
    obtain ⟨e', he', hsame⟩ := any_eq_true.mp hany
    have heq := h e' he' hsame
    constructor
    · exact .inl
    · rintro (hx | rfl)
      · exact hx
      · exact heq ▸ he'
  case isFalse => rw [mem_append, mem_singleton]

/-- **Adding elements one by one.**  A relation that holds between all that is
there and each new element holds between earlier and later elements. -/
theorem addAll_rule {R : E → E → Prop} (hrefl : ∀ e, same e e = true)
    (hsame : ∀ e ∈ es', ∀ e', e' ∈ es ∨ e' ∈ es' → same e e' = true → e' = e) (hes : es.Pairwise R)
    (hnew : ∀ done e rest, es' = done ++ e :: rest → e ∉ es → e ∉ done →
      ∀ e', e' ∈ es ∨ e' ∈ done → R e' e) :
    (addAll same es es').Pairwise R ∧ ∀ x, x ∈ addAll same es es' ↔ x ∈ es ∨ x ∈ es' := by
  -- the elements added so far are those of a prefix
  have hprefix : ∀ done rest, es' = done ++ rest →
      (addAll same es done).Pairwise R ∧ ∀ x, x ∈ addAll same es done ↔ x ∈ es ∨ x ∈ done := by
    intro done
    induction done using List.reverseRecOn with
    | nil => exact fun rest _ => ⟨hes, fun x => by simp [addAll]⟩
    | append_singleton done e ih =>
      intro rest heq
      obtain ⟨hpair, hmem⟩ := ih (e :: rest) (by rw [heq, append_assoc]; rfl)
      have he : e ∈ es' := by simp [heq]
      have hall : ∀ e', e' ∈ addAll same es done → e' ∈ es ∨ e' ∈ es' := by
        intro e' he'
        rcases (hmem e').mp he' with he' | he'
        · exact .inl he'
        · exact .inr (by simp [heq, he'])
      have hadd : addAll same es (done ++ [e]) = add same (addAll same es done) e := by
        simp [addAll]
      have hexact : ∀ e' ∈ addAll same es done, same e e' = true → e' = e := by
        exact fun e' he' => hsame e he e' (hall e' he')
      rw [hadd]
      constructor
      · unfold add
        split
        case isTrue => exact hpair
        case isFalse hany =>
          have hfresh : e ∉ addAll same es done :=
            fun hin => hany (any_eq_true.mpr ⟨e, hin, hrefl e⟩)
          rw [hmem, not_or] at hfresh
          refine pairwise_append.mpr ⟨hpair, pairwise_singleton R e, ?_⟩
          intro e' he' x hx
          rw [mem_singleton.mp hx]
          exact hnew done e rest (by rw [heq, append_assoc]; rfl) hfresh.1 hfresh.2 e'
            ((hmem e').mp he')
      · intro x
        rw [mem_add hexact, hmem, mem_append, mem_singleton, or_assoc]
  exact hprefix es' [] (append_nil es').symm

end LinkedHashSet

/-! ### Replaying changes -/

section Replay

variable {κ ν E : Type*} [DecidableEq κ] (key : E → κ) (value : E → Option ν)

def applyChange (m : Finmap fun _ : κ => ν) (e : E) : Finmap fun _ : κ => ν :=
  match value e with
  | none => m.erase (key e)
  | some v => m.insert (key e) v

def replay (m : Finmap fun _ : κ => ν) (es : List E) : Finmap fun _ : κ => ν :=
  es.foldl (applyChange key value) m

/-- Later changes leave alone what earlier ones have set. -/
def Final (e e' : E) : Prop := value e ≠ none → key e' ≠ key e

variable {key value} {m : Finmap fun _ : κ => ν} {es : List E} {k : κ}

theorem lookup_applyChange (m : Finmap fun _ : κ => ν) (e : E) (k : κ) :
    (applyChange key value m e).lookup k = if k = key e then value e else m.lookup k := by
  unfold applyChange
  split
  case h_1 hvalue =>
    split
    case isTrue heq => rw [heq, hvalue, Finmap.lookup_erase]
    case isFalse hne => rw [Finmap.lookup_erase_ne hne]
  case h_2 v hvalue =>
    split
    case isTrue heq => rw [heq, hvalue, Finmap.lookup_insert]
    case isFalse hne => rw [Finmap.lookup_insert_of_ne _ hne]

@[simp] theorem replay_cons (e : E) :
    replay key value m (e :: es) = replay key value (applyChange key value m e) es := rfl

theorem lookup_replay_of_untouched (h : ∀ e ∈ es, key e ≠ k) :
    (replay key value m es).lookup k = m.lookup k := by
  induction es generalizing m with
  | nil => rfl
  | cons e es ih =>
    rw [replay_cons, ih fun e' he' => h e' (mem_cons_of_mem _ he'), lookup_applyChange,
      if_neg fun heq => h e mem_cons_self heq.symm]

theorem lookup_replay_of_removed (h : ∀ e ∈ es, key e = k → value e = none)
    (hm : m.lookup k = none ∨ ∃ e ∈ es, key e = k) :
    (replay key value m es).lookup k = none := by
  induction es generalizing m with
  | nil =>
    rcases hm with hm | ⟨e, he, -⟩
    · exact hm
    · cases he
  | cons e es ih =>
    rw [replay_cons]
    refine ih (fun e' he' => h e' (mem_cons_of_mem _ he')) ?_
    rw [lookup_applyChange]
    split
    case isTrue heq => exact .inl (h e mem_cons_self heq.symm)
    case isFalse hne =>
      rcases hm with hm | ⟨e', he', hkey⟩
      · exact .inl hm
      · rcases mem_cons.mp he' with rfl | he'
        · exact absurd hkey.symm hne
        · exact .inr ⟨e', he', hkey⟩

theorem lookup_replay_of_set (h : es.Pairwise (Final key value)) {e : E} (he : e ∈ es) {v : ν}
    (hv : value e = some v) : (replay key value m es).lookup (key e) = some v := by
  induction es generalizing m with
  | nil => cases he
  | cons e' es ih =>
    obtain ⟨hlater, hrest⟩ := pairwise_cons.mp h
    rw [replay_cons]
    rcases mem_cons.mp he with rfl | he
    · have hkey : ∀ e' ∈ es, key e' ≠ key e :=
        fun e' he' => hlater e' he' (hv ▸ Option.some_ne_none v)
      rw [lookup_replay_of_untouched hkey, lookup_applyChange, if_pos rfl, hv]
    · exact ih hrest he

end Replay

/-! ### Indexes -/

section Index

variable {κ ν : Type*} [DecidableEq κ] {key : ν → κ} {m : Finmap fun _ : κ => ν} {vs : List ν}

/-- The map finds the values of a list by their keys. -/
def IndexedBy (key : ν → κ) (m : Finmap fun _ : κ => ν) (vs : List ν) : Prop :=
  ∀ k v, m.lookup k = some v ↔ v ∈ vs ∧ key v = k

theorem indexedBy_empty : IndexedBy key ∅ [] := by
  intro k v
  simp

theorem IndexedBy.insert (h : IndexedBy key m vs) {v : ν} (hfree : ∀ v' ∈ vs, key v ≠ key v') :
    IndexedBy key (m.insert (key v) v) (vs ++ [v]) := by
  intro k v'
  rw [mem_append, mem_singleton]
  by_cases hk : k = key v
  · rw [hk, Finmap.lookup_insert]
    constructor
    · rintro ⟨⟩
      exact ⟨.inr rfl, rfl⟩
    · rintro ⟨hv' | rfl, heq⟩
      · exact absurd heq.symm (hfree v' hv')
      · rfl
  · rw [Finmap.lookup_insert_of_ne _ hk, h]
    constructor
    · exact fun hv' => ⟨.inl hv'.1, hv'.2⟩
    · rintro ⟨hv' | rfl, heq⟩
      · exact ⟨hv', heq⟩
      · exact absurd heq.symm hk

theorem indexedBy_foldl (h : (vs.map key).Nodup) :
    IndexedBy key (vs.foldl (fun m v => m.insert (key v) v) ∅) vs := by
  induction vs using List.reverseRecOn with
  | nil => exact indexedBy_empty
  | append_singleton vs v ih =>
    rw [map_append, map_singleton, ← concat_eq_append, nodup_concat] at h
    rw [foldl_append]
    exact (ih h.2).insert fun v' hv' heq => h.1 (heq ▸ mem_map_of_mem hv')

end Index

end NctuSdn
