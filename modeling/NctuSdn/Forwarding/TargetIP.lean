/-
The redirect target of `NCTUForward` (`init`, `setTargetIP`, `onIpChanged`)
and the reading of dotted addresses (`IPv4.toIPv4Address`).

The target is kept twice, as the text that was set and as the address it
stands for.  `setTargetIP` replaces the text before it is parsed, so a text
that does not parse stays behind when the call throws.  A new address is
followed by a deletion on every switch, which goes through the damper and is
dropped if the same deletion was sent within the last 25 milliseconds.
-/
import NctuSdn.Forwarding.FlowCleanup
import NctuSdn.Packet.Numerals

namespace NctuSdn

/-! ### Dotted addresses -/

/-- `split("\\.")`. -/
def splitDots (s : List Char) : List (List Char) := splitText (· == '.') s

/-- One round of the loop of `toIPv4Address`. -/
def CharacterDigit.octet (d : CharacterDigit) (s : List Char) :
    Except JavaException (BitVec 32) := do
  let oct ← d.valueOf s
  if oct > 255 ∨ oct < 0 then .error .illegalArgument else return BitVec.ofInt 32 oct

def CharacterDigit.toIPv4Address (d : CharacterDigit) :
    Option (List Char) → Except JavaException (BitVec 32)
  | none => .error .illegalArgument
  | some ipAddress =>
    match splitDots ipAddress with
    | [o₀, o₁, o₂, o₃] => do
        let b₀ ← d.octet o₀
        let b₁ ← d.octet o₁
        let b₂ ← d.octet o₂
        let b₃ ← d.octet o₃
        return b₀ <<< 24 ||| b₁ <<< 16 ||| b₂ <<< 8 ||| b₃
    | _ => .error .illegalArgument

/-! ### The target -/

section Target

variable {S : Type*} [DecidableEq S]

/-- The fields of `NCTUForward` that the target is kept in, and its damper. -/
structure NCTUForward (S : Type*) where
  targetIPstring : List Char
  targetIP : BitVec 32
  messageDamper : OFMessageDamper S

/-- A call of `setTargetIP`: its argument, the switches that are connected and
when the damper is handed the message of a cookie for a switch. -/
structure SetTargetIP (S : Type*) where
  target : Option (List Char)
  switches : List S
  time : S → BitVec 64 → ℤ

/-- What a call leaves behind: the fields, the messages that were written, and
the returned text or the exception. -/
structure TargetOutcome (S : Type*) where
  state : NCTUForward S
  written : List (S × OFFlowMod)
  result : Except JavaException (List Char)

/-- `onIpChanged`, for a caller that returns `ret`. -/
def onIpChanged (d : CharacterDigit) (f : NCTUForward S) (switches : List S)
    (time : S → BitVec 64 → ℤ) (ret : List Char) : TargetOutcome S :=
  match d.toIPv4Address (some f.targetIPstring) with
  | .error e => ⟨f, [], .error e⟩
  | .ok targetIP =>
    let log := cleanFlowEntries time f.messageDamper switches
    ⟨{ f with targetIP := targetIP, messageDamper := log.damper }, log.written, .ok ret⟩

/-- `setTargetIP`.  A null argument is dereferenced before anything else. -/
def setTargetIP (d : CharacterDigit) (f : NCTUForward S) (call : SetTargetIP S) :
    TargetOutcome S :=
  match call.target with
  | none => ⟨f, [], .error .nullPointer⟩
  | some target =>
    let ret := f.targetIPstring
    if target ≠ f.targetIPstring then
      onIpChanged d { f with targetIPstring := target } call.switches call.time ret
    else ⟨f, [], .ok ret⟩

/-- The text that `init` sets. -/
def initialTarget : List Char := ['1', '0', '.', '0', '.', '0', '.', '1']

def initTarget (d : CharacterDigit) (switches : List S) (time : S → BitVec 64 → ℤ) :
    NCTUForward S :=
  (onIpChanged d ⟨initialTarget, 0, .new S 25⟩ switches time []).state

/-! ### Coherence -/

/-- The text is an address, and the address is the one kept. -/
def Coherent (d : CharacterDigit) (f : NCTUForward S) : Prop :=
  d.toIPv4Address (some f.targetIPstring) = .ok f.targetIP

/-- A deletion of every entry has been written to each of the switches. -/
def CleanRequested (written : List (S × OFFlowMod)) (switches : List S) : Prop :=
  ∀ sw ∈ switches, ∃ m, (sw, m) ∈ written ∧ Wipes m

/-- What a call should see to: text and address agree afterwards, and a new
address comes with a cleaning of all switches. -/
def Kept (d : CharacterDigit) (f : NCTUForward S) (call : SetTargetIP S) : Prop :=
  Coherent d (setTargetIP d f call).state ∧
    ((setTargetIP d f call).state.targetIP ≠ f.targetIP →
      CleanRequested (setTargetIP d f call).written call.switches)

/-- What a call needs for that: an argument that is null or an address, and
none but a new address on a switch that has just been cleaned. -/
def Admissible (d : CharacterDigit) (f : NCTUForward S) (call : SetTargetIP S) : Prop :=
  ∀ target, call.target = some target → ∃ ip, d.toIPv4Address (some target) = .ok ip ∧
    (ip ≠ f.targetIP → ∀ sw ∈ call.switches, ¬ CleanedRecently call.time f.messageDamper sw)

variable {d : CharacterDigit} {f : NCTUForward S} {call : SetTargetIP S}

theorem cleanRequested_iff (time : S → BitVec 64 → ℤ) (damper : OFMessageDamper S)
    (switches : List S) :
    CleanRequested (cleanFlowEntries time damper switches).written switches ↔
      ∀ sw ∈ switches, ¬ CleanedRecently time damper sw := by
  have hwipes := cleanFlowEntries_wipes time damper switches
  refine forall₂_congr fun sw hsw => ?_
  have hsent := sentTo_cleanFlowEntries time damper switches sw
  constructor
  · rintro ⟨m, hm, -⟩ hrecent
    have hnil := hsent.mpr fun _ => hrecent
    have hmem : m ∈ (cleanFlowEntries time damper switches).sentTo sw :=
      List.mem_map.mpr ⟨(sw, m), List.mem_filter.mpr ⟨hm, by simp⟩, rfl⟩
    rw [hnil] at hmem
    cases hmem
  · intro hrecent
    have hne : (cleanFlowEntries time damper switches).sentTo sw ≠ [] := fun hnil =>
      hrecent (hsent.mp hnil hsw)
    obtain ⟨m, hm⟩ := List.exists_mem_of_ne_nil _ hne
    obtain ⟨⟨sw', m'⟩, hsome, rfl⟩ := List.mem_map.mp hm
    obtain ⟨hmem, hsw'⟩ := List.mem_filter.mp hsome
    obtain rfl : sw' = sw := by simpa using hsw'
    exact ⟨m', hmem, hwipes _ hmem⟩

theorem setTargetIP_of_new {target : List Char} {ip : BitVec 32}
    (htarget : call.target = some target) (hne : target ≠ f.targetIPstring)
    (hip : d.toIPv4Address (some target) = .ok ip) :
    let log := cleanFlowEntries call.time f.messageDamper call.switches
    setTargetIP d f call = ⟨⟨target, ip, log.damper⟩, log.written, .ok f.targetIPstring⟩ := by
  unfold setTargetIP
  rw [htarget]
  dsimp only
  rw [if_pos hne]
  unfold onIpChanged
  rw [hip]

theorem setTargetIP_of_error {target : List Char} {e : JavaException}
    (htarget : call.target = some target) (hne : target ≠ f.targetIPstring)
    (hip : d.toIPv4Address (some target) = .error e) :
    setTargetIP d f call = ⟨{ f with targetIPstring := target }, [], .error e⟩ := by
  unfold setTargetIP
  rw [htarget]
  dsimp only
  rw [if_pos hne]
  unfold onIpChanged
  rw [hip]

/-- **One call.**  From a coherent state, text, address and switches are kept in
agreement exactly if the call is admissible. -/
theorem kept_iff_admissible (h : Coherent d f) : Kept d f call ↔ Admissible d f call := by
  unfold Kept Admissible
  cases htarget : call.target with
  | none =>
    have hcall : setTargetIP d f call = ⟨f, [], .error .nullPointer⟩ := by
      unfold setTargetIP
      rw [htarget]
    rw [hcall]
    exact iff_of_true ⟨h, fun hne => absurd rfl hne⟩ fun _ heq => by cases heq
  | some target =>
    by_cases hsame : target = f.targetIPstring
    · -- the text stays, and so does everything else
      have hcall : setTargetIP d f call = ⟨f, [], .ok f.targetIPstring⟩ := by
        unfold setTargetIP
        rw [htarget]
        exact if_neg (not_not.mpr hsame)
      rw [hcall]
      refine iff_of_true ⟨h, fun hne => absurd rfl hne⟩ fun _ heq => ?_
      cases heq
      exact ⟨f.targetIP, hsame ▸ h, fun hne => absurd rfl hne⟩
    · cases hip : d.toIPv4Address (some target) with
      | error e =>
        rw [setTargetIP_of_error htarget hsame hip]
        refine iff_of_false (fun hkept => ?_) fun hadm => ?_
        · cases hip.symm.trans hkept.1
        · obtain ⟨ip, hip', -⟩ := hadm target rfl
          cases hip.symm.trans hip'
      | ok ip =>
        rw [setTargetIP_of_new htarget hsame hip]
        rw [cleanRequested_iff]
        constructor
        · rintro ⟨-, hclean⟩ target' heq
          cases heq
          exact ⟨ip, hip, hclean⟩
        · intro hadm
          obtain ⟨ip', hip', hclean⟩ := hadm target rfl
          cases hip.symm.trans hip'
          exact ⟨hip, hclean⟩

/-! ### Runs -/

/-- `P` holds of every call of a run, in the state it is made in. -/
def EveryCall (d : CharacterDigit) (P : NCTUForward S → SetTargetIP S → Prop) :
    NCTUForward S → List (SetTargetIP S) → Prop
  | _, [] => True
  | f, call :: calls => P f call ∧ EveryCall d P (setTargetIP d f call).state calls

theorem everyCall_kept_iff (h : Coherent d f) (calls : List (SetTargetIP S)) :
    EveryCall d (Kept d) f calls ↔ EveryCall d (Admissible d) f calls := by
  induction calls generalizing f with
  | nil => exact Iff.rfl
  | cons call calls ih =>
    unfold EveryCall
    rw [← kept_iff_admissible h]
    exact and_congr_right fun hkept => ih hkept.1

theorem CharacterDigit.octet_of_value (d : CharacterDigit) {c : Char} {s : List Char} {n : ℕ}
    (hminus : c ≠ '-') (hplus : c ≠ '+') (hvalue : d.value 0 (c :: s) = some n) (hn : n ≤ 255) :
    d.octet (c :: s) = .ok (BitVec.ofInt 32 n) := by
  have hvalueOf : d.valueOf (c :: s) = .ok (n : ℤ) := by
    unfold valueOf
    split
    next heq => exact absurd (List.cons.inj heq).1 hminus
    next heq => exact absurd (List.cons.inj heq).1 hplus
    next =>
      unfold signed
      rw [hvalue]
      simp only [Bool.false_eq_true, if_false]
      exact if_pos ⟨by omega, by omega⟩
  unfold octet
  rw [hvalueOf]
  exact if_neg (by omega)

theorem toIPv4Address_initialTarget (d : CharacterDigit) :
    d.toIPv4Address (some initialTarget) = .ok 0x0a000001 := by
  have hsplit : splitDots initialTarget = [['1', '0'], ['0'], ['0'], ['1']] := by decide
  have h₀ : d.digit '0' = some 0 := d.ascii 0
  have h₁ : d.digit '1' = some 1 := d.ascii 1
  have ten : d.octet ['1', '0'] = .ok 10 :=
    d.octet_of_value (by decide) (by decide) (by simp only [CharacterDigit.value, h₀, h₁])
      (by decide)
  have zero : d.octet ['0'] = .ok 0 :=
    d.octet_of_value (by decide) (by decide) (by simp only [CharacterDigit.value, h₀]) (by decide)
  have one : d.octet ['1'] = .ok 1 :=
    d.octet_of_value (by decide) (by decide) (by simp only [CharacterDigit.value, h₁]) (by decide)
  unfold CharacterDigit.toIPv4Address
  dsimp only
  rw [hsplit]
  dsimp only
  rw [ten, zero, one]
  rfl

theorem coherent_initTarget (d : CharacterDigit) (switches : List S)
    (time : S → BitVec 64 → ℤ) : Coherent d (initTarget d switches time) := by
  unfold initTarget onIpChanged
  rw [toIPv4Address_initialTarget]
  exact toIPv4Address_initialTarget d

/-- **The target stays coherent.**  After `init`, every call of a run leaves a
text that is an address, the address that it is, and, if that is a new one,
switches that have been told to clean up, exactly if every call is
admissible. -/
theorem target_coherent_iff (d : CharacterDigit) (switches : List S) (time : S → BitVec 64 → ℤ)
    (calls : List (SetTargetIP S)) :
    Coherent d (initTarget d switches time) ∧
      (EveryCall d (Kept d) (initTarget d switches time) calls ↔
        EveryCall d (Admissible d) (initTarget d switches time) calls) :=
  ⟨coherent_initTarget d switches time,
    everyCall_kept_iff (coherent_initTarget d switches time) calls⟩

end Target

/-! ### Two ways to go wrong -/

def setAt (time : ℤ) (target : List Char) : SetTargetIP ℕ := ⟨some target, [1], fun _ _ => time⟩

/-- The text "x" is kept although it is no address; a second change of target
within 25 milliseconds is not followed by any deletion. -/
theorem target_incoherent :
    let d := CharacterDigit.asciiOnly
    let f : NCTUForward ℕ := initTarget d [1] fun _ _ => 0
    let g := (setTargetIP d f (setAt 1000 ['1', '.', '1', '.', '1', '.', '1'])).state
    (setTargetIP d f (setAt 1000 ['x'])).state.targetIPstring = ['x'] ∧
      d.toIPv4Address (some ['x']) = .error .illegalArgument ∧
      g.targetIP = 0x01010101 ∧
      (setTargetIP d g (setAt 1010 ['2', '.', '2', '.', '2', '.', '2'])).state.targetIP =
        0x02020202 ∧
      (setTargetIP d g (setAt 1010 ['2', '.', '2', '.', '2', '.', '2'])).written = [] := by
  decide +kernel

end NctuSdn
