/-
The target set over HTTP (`NCTUForwardResource.handlePost`).

The handler reads the body with a JSON parser.  It skips one token and then takes tokens in
pairs, a name and a value, until the first of a pair ends an object or the name is
`target_ip`.  For an object whose values are plain that is what it should do.

A parser at its end gives no token any more, which is not the end of an object: a body that
has been read without a reason to stop is read for ever.  Only the first tokens of the
pairs count, so an object can hide its end behind an array.
-/
import NctuSdn.Forwarding.TargetIP
import NctuSdn.Lib.WhileLoop

namespace NctuSdn

open List

/-! ### The parser -/

inductive JsonToken
  | startObject | endObject | startArray | endArray | fieldName | valueEmbeddedObject
  | valueString | valueNumberInt | valueNumberFloat | valueTrue | valueFalse | valueNull
deriving DecidableEq, Repr

/-- What the parser finds next: a token, with the current name and the text it then has,
or a reason to throw, in the token or in its text. -/
inductive ParserEvent
  | token (kind : JsonToken) (currentName : Option String) (text : List Char)
  | ioException
deriving DecidableEq, Repr

/-- What can be asked of the parser after `nextToken`; `none` is null. -/
structure CurrentToken where
  token : Option JsonToken
  currentName : Option String
  text : Option (List Char)

/-- How the loop is left other than at the end of an object: by the exception, with a value
for the target, or not at all within the rounds that are given. -/
inductive PostExit
  | ioException
  | target (value : Option (List Char))
  | outOfRounds
deriving DecidableEq, Repr

/-- `nextToken`.  At the end there is no token, name or text. -/
def nextToken : List ParserEvent → Except PostExit (CurrentToken × List ParserEvent)
  | [] => .ok (⟨none, none, none⟩, [])
  | .token kind currentName text :: jp => .ok (⟨some kind, currentName, some text⟩, jp)
  | .ioException :: _ => .error .ioException

/-! ### The handler -/

/-- One round of the loop of `handlePost`.  The parser interns names, so that `==` compares
what they say. -/
def postRound (jp : List ParserEvent) : Except PostExit (Option (List ParserEvent)) :=
  match nextToken jp with
  | .error e => .error e
  | .ok (current, jp) =>
    if current.token = some .endObject then .ok none
    else
      match nextToken jp with
      | .error e => .error e
      | .ok (value, jp) =>
        if current.currentName = some "target_ip" then .error (.target value.text)
        else .ok (some jp)

variable {S : Type*} [DecidableEq S]

/-- `handlePost` with at most `rounds` rounds: the state of the service, what it has
written, and the exception of `setTargetIP`; `none` if the loop is not left. -/
def handlePost (d : CharacterDigit) (f : NCTUForward S) (switches : List S)
    (time : S → BitVec 64 → ℤ) (rounds : ℕ) (src : List ParserEvent) :
    Option (NCTUForward S × List (S × OFFlowMod) × Except JavaException Unit) :=
  match nextToken src with
  | .error _ => some (f, [], .ok ())
  | .ok (_, jp) =>
    match whileLoop .outOfRounds postRound rounds jp with
    | .ok _ => some (f, [], .ok ())
    | .error .ioException => some (f, [], .ok ())
    | .error (.target value) =>
      let outcome := setTargetIP d f ⟨value, switches, time⟩
      some (outcome.state, outcome.written, outcome.result.map fun _ => ())
    | .error .outOfRounds => none

/-! ### When the loop is left -/

/-- The token is a reason to leave the loop. -/
def ParserEvent.Stops : ParserEvent → Prop
  | .token kind currentName _ => kind = .endObject ∨ currentName = some "target_ip"
  | .ioException => False

/-- The parser throws, or the first token of some pair is a reason to leave the loop. -/
def LeavesLoop (jp : List ParserEvent) : Prop :=
  .ioException ∈ jp ∨ ∃ i e, jp[2 * i]? = some e ∧ e.Stops

theorem not_leavesLoop_nil : ¬ LeavesLoop [] := by
  rintro (hmem | ⟨i, e, he, -⟩)
  · exact absurd hmem not_mem_nil
  · cases he

theorem leavesLoop_of_stops {e : ParserEvent} (h : e.Stops) (jp : List ParserEvent) :
    LeavesLoop (e :: jp) :=
  .inr ⟨0, e, rfl, h⟩

variable {jp : List ParserEvent}

theorem leavesLoop_pair_iff {e e' : ParserEvent} (he : ¬ e.Stops) (hne : e ≠ .ioException)
    (hne' : e' ≠ .ioException) :
    LeavesLoop (e :: e' :: jp) ↔ LeavesLoop jp := by
  refine or_congr ?_ ⟨?_, ?_⟩
  · simp [hne.symm, hne'.symm]
  · rintro ⟨_ | i, e₀, hget, hstops⟩
    · cases hget
      exact absurd hstops he
    · exact ⟨i, e₀, hget, hstops⟩
  · rintro ⟨i, e₀, hget, hstops⟩
    exact ⟨i + 1, e₀, hget, hstops⟩

theorem not_leavesLoop_single {e : ParserEvent} (he : ¬ e.Stops) (hne : e ≠ .ioException) :
    ¬ LeavesLoop [e] := by
  rintro (hmem | ⟨_ | i, e₀, hget, hstops⟩)
  · exact hne (mem_singleton.mp hmem).symm
  · cases hget
    exact he hstops
  · cases hget

theorem nextToken_nil : nextToken [] = .ok (⟨none, none, none⟩, []) :=
  rfl

section Round

variable {kind : JsonToken} {currentName : Option String} {text : List Char}

theorem nextToken_token (jp : List ParserEvent) :
    nextToken (.token kind currentName text :: jp) =
      .ok (⟨some kind, currentName, some text⟩, jp) :=
  rfl

theorem postRound_endObject (jp : List ParserEvent) :
    postRound (.token .endObject currentName text :: jp) = .ok none := by
  simp only [postRound, nextToken_token, if_pos]

theorem postRound_ioException (hkind : kind ≠ .endObject)
    (hnext : nextToken jp = .error .ioException) :
    postRound (.token kind currentName text :: jp) = .error .ioException := by
  simp only [postRound, nextToken_token, Option.some.injEq, if_neg hkind, hnext]

theorem postRound_target (hkind : kind ≠ .endObject) (hname : currentName = some "target_ip")
    {value : CurrentToken} {jp' : List ParserEvent} (hnext : nextToken jp = .ok (value, jp')) :
    postRound (.token kind currentName text :: jp) = .error (.target value.text) := by
  simp only [postRound, nextToken_token, Option.some.injEq, if_neg hkind, hnext, if_pos hname]

theorem postRound_other (hkind : kind ≠ .endObject) (hname : currentName ≠ some "target_ip")
    {value : CurrentToken} {jp' : List ParserEvent} (hnext : nextToken jp = .ok (value, jp')) :
    postRound (.token kind currentName text :: jp) = .ok (some jp') := by
  simp only [postRound, nextToken_token, Option.some.injEq, if_neg hkind, hnext, if_neg hname]

end Round

/-- At the name `target_ip` the loop is left whatever comes next. -/
theorem whileEnds_postRound_target {kind : JsonToken} {currentName : Option String}
    {text : List Char} (hkind : kind ≠ .endObject) (hname : currentName = some "target_ip")
    (jp : List ParserEvent) :
    WhileEnds .outOfRounds postRound (.token kind currentName text :: jp) := by
  match jp with
  | [] => exact whileEnds_of_error (postRound_target hkind hname rfl) nofun
  | .ioException :: jp => exact whileEnds_of_error (postRound_ioException hkind rfl) nofun
  | .token _ _ _ :: jp => exact whileEnds_of_error (postRound_target hkind hname rfl) nofun

/-- **The loop is left** exactly if it is given a reason. -/
theorem whileEnds_postRound_iff (jp : List ParserEvent) :
    WhileEnds .outOfRounds postRound jp ↔ LeavesLoop jp := by
  match jp with
  | [] =>
    -- without a token the parser stays where it is
    exact iff_of_false (not_whileEnds_of_still rfl) not_leavesLoop_nil
  | .ioException :: jp =>
    exact iff_of_true (whileEnds_of_error rfl nofun) (.inl mem_cons_self)
  | .token kind currentName text :: jp =>
    by_cases hkind : kind = .endObject
    · subst hkind
      refine iff_of_true (whileEnds_of_stop (postRound_endObject jp)) (leavesLoop_of_stops ?_ jp)
      exact Or.inl rfl
    by_cases hname : currentName = some "target_ip"
    · refine iff_of_true (whileEnds_postRound_target hkind hname jp) (leavesLoop_of_stops ?_ jp)
      exact Or.inr hname
    have hstops : ¬ (ParserEvent.token kind currentName text).Stops := not_or.mpr ⟨hkind, hname⟩
    match jp with
    | [] =>
      -- a token without a value: the next round has nothing to read
      rw [whileEnds_move_iff (postRound_other hkind hname rfl)]
      exact iff_of_false (not_whileEnds_of_still rfl) (not_leavesLoop_single hstops nofun)
    | .ioException :: jp =>
      exact iff_of_true (whileEnds_of_error (postRound_ioException hkind rfl) nofun)
        (.inl (mem_cons_of_mem _ mem_cons_self))
    | .token kind' currentName' text' :: jp =>
      rw [whileEnds_move_iff (postRound_other hkind hname rfl), whileEnds_postRound_iff jp]
      refine (leavesLoop_pair_iff hstops ?_ ?_).symm
      · nofun
      · nofun

/-! ### Objects of plain values -/

/-- A field of the body whose value is one token. -/
structure PlainField where
  name : String
  kind : JsonToken
  text : List Char

/-- What the parser finds in an object after its brace. -/
def fieldEvents : List PlainField → List ParserEvent
  | [] => [.token .endObject none ['\x7d']]
  | field :: fields =>
    .token .fieldName (some field.name) field.name.toList ::
      .token field.kind (some field.name) field.text :: fieldEvents fields

/-- What the parser finds in an object. -/
def objectEvents (fields : List PlainField) : List ParserEvent :=
  .token .startObject none ['\x7b'] :: fieldEvents fields

def PlainField.isTarget (field : PlainField) : Bool := field.name == "target_ip"

variable {field : PlainField}

theorem PlainField.isTarget_iff :
    field.isTarget = true ↔ field.name = "target_ip" :=
  beq_iff_eq

theorem postRound_field_target (hname : field.name = "target_ip") (fields : List PlainField) :
    postRound (fieldEvents (field :: fields)) = .error (.target (some field.text)) := by
  refine postRound_target ?_ (congrArg some hname) (nextToken_token _)
  nofun

theorem postRound_field_other (hname : field.name ≠ "target_ip") (fields : List PlainField) :
    postRound (fieldEvents (field :: fields)) = .ok (some (fieldEvents fields)) := by
  refine postRound_other ?_ (mt Option.some.inj hname) (nextToken_token _)
  nofun

def fieldExit : Option PlainField → Except PostExit (List ParserEvent)
  | none => .ok (fieldEvents [])
  | some field => .error (.target (some field.text))

theorem whileLoop_fieldEvents {fields : List PlainField} {rounds : ℕ}
    (hrounds : fields.length < rounds) :
    whileLoop .outOfRounds postRound rounds (fieldEvents fields) =
      fieldExit (fields.find? PlainField.isTarget) := by
  induction fields generalizing rounds with
  | nil =>
    obtain ⟨rounds, rfl⟩ := Nat.exists_eq_add_one_of_ne_zero (Nat.ne_zero_of_lt hrounds)
    exact whileLoop_stop (postRound_endObject []) rounds
  | cons field fields ih =>
    obtain ⟨rounds, rfl⟩ := Nat.exists_eq_add_one_of_ne_zero (Nat.ne_zero_of_lt hrounds)
    by_cases hname : field.name = "target_ip"
    · rw [find?_cons_of_pos (PlainField.isTarget_iff.mpr hname)]
      exact whileLoop_error (postRound_field_target hname fields) rounds
    · rw [find?_cons_of_neg (mt PlainField.isTarget_iff.mp hname)]
      rw [whileLoop_move (postRound_field_other hname fields)]
      exact ih (Nat.lt_of_succ_lt_succ hrounds)

def setFound (d : CharacterDigit) (f : NCTUForward S) (switches : List S)
    (time : S → BitVec 64 → ℤ) :
    Option PlainField → NCTUForward S × List (S × OFFlowMod) × Except JavaException Unit
  | none => (f, [], .ok ())
  | some field =>
    let outcome := setTargetIP d f ⟨some field.text, switches, time⟩
    (outcome.state, outcome.written, outcome.result.map fun _ => ())

/-- **An object of plain values** sets the target to the value of its first `target_ip`, and
changes nothing if there is none. -/
theorem handlePost_object (d : CharacterDigit) (f : NCTUForward S) (switches : List S)
    (time : S → BitVec 64 → ℤ) {fields : List PlainField} {rounds : ℕ}
    (hrounds : fields.length < rounds) :
    handlePost d f switches time rounds (objectEvents fields) =
      some (setFound d f switches time (fields.find? PlainField.isTarget)) := by
  simp only [handlePost, objectEvents, nextToken_token, whileLoop_fieldEvents hrounds]
  cases fields.find? PlainField.isTarget with
  | none => rfl
  | some field => rfl

theorem handlePost_object_target :
    handlePost .asciiOnly (⟨initialTarget, 0, .new ℕ 25⟩ : NCTUForward ℕ) [1] (fun _ _ => 0) 3
        (objectEvents [⟨"id", .valueString, ['7']⟩, ⟨"target_ip", .valueString, ['9']⟩]) =
      some (setFound .asciiOnly ⟨initialTarget, 0, .new ℕ 25⟩ [1] (fun _ _ => 0)
        (some ⟨"target_ip", .valueString, ['9']⟩)) :=
  handlePost_object .asciiOnly _ [1] (fun _ _ => 0) (Nat.lt_succ_self 2)

/-! ### The handler finishes -/

theorem handlePost_isSome_iff (d : CharacterDigit) (f : NCTUForward S) (switches : List S)
    (time : S → BitVec 64 → ℤ) (rounds : ℕ) {src : List ParserEvent} {current : CurrentToken}
    (hnext : nextToken src = .ok (current, jp)) :
    (handlePost d f switches time rounds src).isSome ↔
      whileLoop .outOfRounds postRound rounds jp ≠ .error .outOfRounds := by
  simp only [handlePost, hnext]
  match h : whileLoop .outOfRounds postRound rounds jp with
  | .ok _ | .error .ioException | .error (.target _) | .error .outOfRounds => simp [h]

/-- **The handler finishes**, for some number of rounds, exactly if the parser throws or a
token at an odd place, counted from zero, is a reason to leave the loop. -/
theorem handlePost_finishes_iff (d : CharacterDigit) (f : NCTUForward S) (switches : List S)
    (time : S → BitVec 64 → ℤ) (src : List ParserEvent) :
    (∃ rounds, (handlePost d f switches time rounds src).isSome) ↔
      .ioException ∈ src ∨ ∃ i e, src[2 * i + 1]? = some e ∧ e.Stops := by
  match src with
  | [] =>
    simp only [handlePost_isSome_iff d f switches time _ nextToken_nil]
    refine iff_of_false (not_whileEnds_of_still rfl) ?_
    rintro (hmem | ⟨i, e, he, -⟩)
    · exact absurd hmem not_mem_nil
    · cases he
  | .ioException :: jp => exact iff_of_true ⟨0, rfl⟩ (.inl mem_cons_self)
  | .token kind currentName text :: jp =>
    simp only [handlePost_isSome_iff d f switches time _ (nextToken_token jp)]
    have hne : ParserEvent.ioException ≠ .token kind currentName text := nofun
    rw [mem_cons, or_iff_right hne]
    exact whileEnds_postRound_iff jp

/-- The body `[]` is read for ever: its end is not the end of an object. -/
theorem handlePost_array_endless :
    ¬ ∃ rounds, (handlePost .asciiOnly (⟨initialTarget, 0, .new ℕ 25⟩ : NCTUForward ℕ) [1]
      (fun _ _ => 0) rounds
      [.token .startArray none ['['], .token .endArray none [']']]).isSome := by
  rintro ⟨rounds, h⟩
  rw [handlePost_isSome_iff _ _ _ _ _ (nextToken_token _)] at h
  have hmove : postRound [.token .endArray none [']']] = .ok (some []) := by decide
  exact (whileEnds_move_iff hmove).not.mpr (not_whileEnds_of_still rfl) ⟨rounds, h⟩

end NctuSdn
