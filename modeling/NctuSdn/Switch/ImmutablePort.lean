/-
Ports of a switch (`ImmutablePort`, `OFPhysicalPort`).

Two ports are equal if they differ at most in the case of their names, as
`String.equalsIgnoreCase` has it.  That method goes by characters, while the
lower-case forms under which names are stored come from `String.toLowerCase`,
which goes by the language of the machine (`CaseRules`).
-/
import Mathlib.Data.Finset.Dedup
import Mathlib.Data.Finset.Empty
import NctuSdn.Topology.Link

namespace NctuSdn

/-! ### Flags -/

inductive OFPortConfig
  | portDown | noStp | noRecv | noRecvStp | noFlood | noFwd | noPacketIn | bsnMirrorDest
deriving DecidableEq, Repr

def OFPortConfig.getValue : OFPortConfig → BitVec 32
  | portDown => 1 <<< 0
  | noStp => 1 <<< 1
  | noRecv => 1 <<< 2
  | noRecvStp => 1 <<< 3
  | noFlood => 1 <<< 4
  | noFwd => 1 <<< 5
  | noPacketIn => 1 <<< 6
  | bsnMirrorDest => 1 <<< 31

def OFPortConfig.values : List OFPortConfig :=
  [portDown, noStp, noRecv, noRecvStp, noFlood, noFwd, noPacketIn, bsnMirrorDest]

inductive OFPortState
  | linkDown | stpListen | stpLearn | stpForward | stpBlock | stpMask
deriving DecidableEq, Repr

def OFPortState.getValue : OFPortState → BitVec 32
  | linkDown => 1 <<< 0
  | stpListen => 0 <<< 8
  | stpLearn => 1 <<< 8
  | stpForward => 2 <<< 8
  | stpBlock => 3 <<< 8
  | stpMask => 3 <<< 8

def OFPortState.isStpState : OFPortState → Bool
  | linkDown | stpMask => false
  | _ => true

def OFPortState.values : List OFPortState :=
  [linkDown, stpListen, stpLearn, stpForward, stpBlock, stpMask]

/-- `OFPortState.getStpState`; `none` is the null that never comes. -/
def OFPortState.getStpState (state : BitVec 32) : Option OFPortState :=
  OFPortState.values.find? fun s => s.isStpState && state &&& stpMask.getValue == s.getValue

def OFPortState.isPortDown (state : BitVec 32) : Bool := state &&& linkDown.getValue != 0

inductive OFPortFeatures
  | tenMbHd | tenMbFd | hundredMbHd | hundredMbFd | oneGbHd | oneGbFd | tenGbFd | copper | fiber
  | autoneg | pause | pauseAsym
deriving DecidableEq, Repr

def OFPortFeatures.values : List OFPortFeatures :=
  [tenMbHd, tenMbFd, hundredMbHd, hundredMbFd, oneGbHd, oneGbFd, tenGbFd, copper, fiber, autoneg,
    pause, pauseAsym]

/-- `OFPortFeatures.getValue`: one bit after the other. -/
def OFPortFeatures.getValue : OFPortFeatures → BitVec 32
  | tenMbHd => 1 <<< 0
  | tenMbFd => 1 <<< 1
  | hundredMbHd => 1 <<< 2
  | hundredMbFd => 1 <<< 3
  | oneGbHd => 1 <<< 4
  | oneGbFd => 1 <<< 5
  | tenGbFd => 1 <<< 6
  | copper => 1 <<< 7
  | fiber => 1 <<< 8
  | autoneg => 1 <<< 9
  | pause => 1 <<< 10
  | pauseAsym => 1 <<< 11

def bitCount (x : BitVec 32) : ℕ := (List.range 32).countP x.getLsbD

def toEnumSet {E : Type} [DecidableEq E] (constants : List E) (getValue : E → BitVec 32)
    (bitmap : BitVec 32) : Except JavaException (Finset E) :=
  if constants.any fun element => bitCount (getValue element) != 1 then .error .illegalArgument
  else if ~~~(constants.foldl (fun all element => all ||| getValue element) 0) &&& bitmap ≠ 0 then
    .error .illegalArgument
  else .ok (constants.filter fun element => bitmap &&& getValue element != 0).toFinset

/-! ### Names -/

/-- The case mappings of the platform: those of `Character`, and
`String.toLowerCase` in the default locale. -/
structure CaseRules where
  charToUpperCase : Char → Char
  charToLowerCase : Char → Char
  toLowerCase : String → String

def CaseRules.equalsIgnoreCase (r : CaseRules) (a b : String) : Bool :=
  a.length == b.length && (a.toList.zip b.toList).all fun (c, c') =>
    c == c' || r.charToUpperCase c == r.charToUpperCase c' ||
      r.charToLowerCase c == r.charToLowerCase c'

theorem CaseRules.equalsIgnoreCase_refl (r : CaseRules) (a : String) :
    r.equalsIgnoreCase a a = true := by
  have hzip : ∀ cs : List Char, (cs.zip cs).all (fun (c, c') =>
      c == c' || r.charToUpperCase c == r.charToUpperCase c' ||
        r.charToLowerCase c == r.charToLowerCase c') = true := by
    intro cs
    induction cs with
    | nil => rfl
    | cons c cs ih =>
      rw [List.zip_cons_cons, List.all_cons, ih]
      simp
  unfold equalsIgnoreCase
  rw [hzip]
  simp

/-- The two ways to compare names without regard to case agree. -/
def CaseRules.Coherent (r : CaseRules) : Prop :=
  ∀ a b, r.equalsIgnoreCase a b = true → r.toLowerCase a = r.toLowerCase b

/-- Case on the letters `A` to `Z`. -/
def englishCase : CaseRules where
  charToUpperCase := Char.toUpper
  charToLowerCase := Char.toLower
  toLowerCase := fun s => s.map Char.toLower

/-- Case on the letters `A` to `Z` where the language is Turkish: the small
letter that belongs to `I` has no dot. -/
def turkishCase : CaseRules where
  charToUpperCase := Char.toUpper
  charToLowerCase := Char.toLower
  toLowerCase := fun s => s.map fun c => if c = 'I' then 'ı' else c.toLower

/-! ### Ports -/

structure ImmutablePort where
  portNumber : Port
  hardwareAddress : BitVec 48
  name : String
  config : Finset OFPortConfig
  portStateLinkDown : Bool
  stpState : OFPortState
  currentFeatures : Finset OFPortFeatures
  advertisedFeatures : Finset OFPortFeatures
  supportedFeatures : Finset OFPortFeatures
  peerFeatures : Finset OFPortFeatures
deriving DecidableEq

namespace ImmutablePort

def isEnabled (p : ImmutablePort) : Bool :=
  !p.portStateLinkDown && !decide (OFPortConfig.portDown ∈ p.config)

def equals (r : CaseRules) (p other : ImmutablePort) : Bool :=
  p.portNumber == other.portNumber && r.equalsIgnoreCase p.name other.name &&
    decide (p.advertisedFeatures = other.advertisedFeatures) && decide (p.config = other.config) &&
    decide (p.currentFeatures = other.currentFeatures) &&
    p.hardwareAddress == other.hardwareAddress && decide (p.peerFeatures = other.peerFeatures) &&
    p.portStateLinkDown == other.portStateLinkDown && p.stpState == other.stpState &&
    decide (p.supportedFeatures = other.supportedFeatures)

def create (name : String) (portNumber : Port) : ImmutablePort :=
  ⟨portNumber, 0, name, ∅, false, .stpListen, ∅, ∅, ∅, ∅⟩

theorem equals_refl (r : CaseRules) (p : ImmutablePort) : p.equals r p = true := by
  simp [equals, r.equalsIgnoreCase_refl]

theorem portNumber_of_equals {r : CaseRules} {p other : ImmutablePort}
    (h : p.equals r other = true) :
    p.portNumber = other.portNumber ∧ r.equalsIgnoreCase p.name other.name = true := by
  simp only [equals, Bool.and_eq_true, beq_iff_eq] at h
  tauto

end ImmutablePort

/-- `OFPhysicalPort`; `none` is null. -/
structure OFPhysicalPort where
  portNumber : Port
  hardwareAddress : Option (BitVec 48)
  name : Option String
  config : BitVec 32
  state : BitVec 32
  currentFeatures : BitVec 32
  advertisedFeatures : BitVec 32
  supportedFeatures : BitVec 32
  peerFeatures : BitVec 32
deriving DecidableEq, Repr

def ImmutablePort.fromOFPhysicalPort (p : OFPhysicalPort) : Except JavaException ImmutablePort :=
  match p.hardwareAddress, p.name, OFPortState.getStpState p.state with
  | some hardwareAddress, some name, some stpState => do
      let config ← toEnumSet OFPortConfig.values OFPortConfig.getValue p.config
      let features := toEnumSet OFPortFeatures.values OFPortFeatures.getValue
      let currentFeatures ← features p.currentFeatures
      let advertisedFeatures ← features p.advertisedFeatures
      let supportedFeatures ← features p.supportedFeatures
      let peerFeatures ← features p.peerFeatures
      pure ⟨p.portNumber, hardwareAddress, name, config, OFPortState.isPortDown p.state, stpState,
        currentFeatures, advertisedFeatures, supportedFeatures, peerFeatures⟩
  | _, _, _ => .error .nullPointer

end NctuSdn
