/-
Pushing a route and taking it back (`ForwardingBase.pushRoute`,
`Forwarding.doForwardFlow`, `TopologyManager.processFlowRemoved`).

For every switch of a route but the last one, `pushRoute` accounts a match of
input port, addresses and VLAN to the port the flow leaves by; on every
switch it installs an entry whose cookie holds that port and the priority.
When the entry expires, the switch reports its match and the cookie, and
`processFlowRemoved` looks up what was accounted.
-/
import NctuSdn.Forwarding.NctuForward
import NctuSdn.Lib.Cells
import NctuSdn.OpenFlow.OpenVSwitch
import NctuSdn.Topology.Reroute

namespace NctuSdn

open List BitVec

/-! ### Cookies -/

/-- `AppCookie.makeCookie`, for a registered application. -/
def makeCookie (application user : BitVec 32) : BitVec 64 :=
  (application.signExtend 64 <<< 52) ||| (user.signExtend 64 &&& 0xffffffff)

def extractApp (cookie : BitVec 64) : BitVec 32 := ((cookie >>> 52) &&& 0xfff).setWidth 32

def extractUser (cookie : BitVec 64) : BitVec 32 := (cookie &&& 0xffffffff).setWidth 32

def forwardingAppId : BitVec 32 := 2

/-- `makeCookieFromPriority`.  The port is a `short` and is widened with its
sign. -/
def makeCookieFromPriority (app : BitVec 32) (outPort : Port) (priority : ℤ) : BitVec 64 :=
  makeCookie app ((BitVec.ofInt 32 priority <<< 16) ||| outPort.signExtend 32)

/-! ### Flow entries -/

/-- The commands used here. -/
inductive FlowModCommand
  | add
  | delete
deriving DecidableEq, Repr

/-- `OFFlowMod`: the match, the cookie and the port of the output action. -/
structure FlowMod where
  command : FlowModCommand
  ofMatch : OFMatch
  cookie : BitVec 64
  outPort : Option Port
deriving DecidableEq, Repr

/-- The match that is accounted to a link: everything that is not set is
zero, the wildcards included. -/
def linkMapMatch (m : OFMatch) (inPort : Port) : OFMatch :=
  { OFMatch.new with
    inputPort := inPort
    dataLayerDestination := m.dataLayerDestination
    dataLayerSource := m.dataLayerSource
    dataLayerVirtualLan := m.dataLayerVirtualLan
    wildcards := 0 }

/-- What is pushed: the arguments of `pushRoute` that stay the same along the
route. -/
structure PushRequest where
  ofMatch : OFMatch
  wildcardHints : Option (BitVec 32)
  pinSwitch : SwitchId
  flowModCommand : FlowModCommand
  changeCookie : Bool
  priority : ℤ

/-- The variables of the loop: the manager, what has been written, the cookie
and the two flags. -/
structure PushState (L T : Type*) where
  tm : TopologyManager L T
  written : List (SwitchId × FlowMod)
  cookie : BitVec 64
  trafficRefresh : Bool
  srcSwitchIncluded : Bool

variable {L T : Type*}

/-- `checkNeedClearEntry`: the switch is to be cleared, or traffic of a lower
class uses the port. -/
def checkNeedClearEntry (tm : TopologyManager L T) (sw : SwitchId) (outPort : Port)
    (priority : ℤ) : Except JavaException Bool :=
  if tm.forceClearSwitchID sw then .ok true
  else
    match tm.accounts.traffic (linkKey sw outPort) with
    | none => .ok false
    | some linkInfo =>
      anyUsed linkInfo ((List.range (2 - priority).toNat).map fun i : ℕ => priority + 1 + i)

/-- `clearPriorityFlowEntries`: the delete that is written. -/
def clearPriorityFlowEntries (outPort : Port) (priority : ℤ) : FlowMod where
  command := .delete
  ofMatch := OFMatch.new.setWildcards
    (ofpfwDlDst ||| ofpfwDlSrc ||| ofpfwDlVlan ||| ofpfwInPort ||| ofpfwDlType |||
      ofpfwDlVlanPcp ||| ofpfwNwDstAll ||| ofpfwNwProto ||| ofpfwNwSrcAll ||| ofpfwNwTos |||
      ofpfwTpDst ||| ofpfwTpSrc)
  cookie := makeCookieFromPriority forwardingAppId outPort priority
  outPort := none

def afterSwitchForceClear (tm : TopologyManager L T) (sw : SwitchId) : TopologyManager L T :=
  { tm with forceClearSwitchID := Function.update tm.forceClearSwitchID sw false }

/-- Account the flow to the port it leaves the switch by. -/
def registerLink (q : PushRequest) (st : PushState L T) (h : Hop) :
    PushState L T × Except JavaException Unit :=
  match checkNeedClearEntry st.tm h.switchDPID h.outPort q.priority with
  | .error e => (st, .error e)
  | .ok needClear =>
    let tm := if needClear then afterSwitchForceClear st.tm h.switchDPID else st.tm
    let clear := (h.switchDPID, clearPriorityFlowEntries h.outPort q.priority)
    let written := if needClear then st.written ++ [clear] else st.written
    let (accounts, result) := tm.accounts.addTraffic h.switchDPID h.outPort q.priority
      (linkMapMatch q.ofMatch h.inPort)
    ({ st with tm := { tm with accounts := accounts }, written := written }, result)

def flowModAt (q : PushRequest) (cookie : BitVec 64) (h : Hop) : FlowMod where
  command := q.flowModCommand
  ofMatch := (wildcard q.ofMatch q.wildcardHints).setInputPort h.inPort
  cookie := cookie
  outPort := some h.outPort

def cookieAt (q : PushRequest) (cookie : BitVec 64) (h : Hop) : BitVec 64 :=
  if q.changeCookie then makeCookieFromPriority (extractApp cookie) h.outPort q.priority
  else cookie

def writeFlowMod (q : PushRequest) (st : PushState L T) (h : Hop) : PushState L T :=
  { st with
    written := st.written ++ [(h.switchDPID, flowModAt q st.cookie h)]
    srcSwitchIncluded := st.srcSwitchIncluded || h.switchDPID == q.pinSwitch }

/-- The loop of `pushRoute`, from the last hop to the first; `isLast` holds in
the first round, which accounts nothing.  At a switch that is not connected
the call ends without the refresh. -/
def pushHops (engine : InstanceEngine L T) (connected : SwitchId → Bool) (q : PushRequest) :
    Bool → List Hop → PushState L T → PushState L T × Except JavaException Unit
  | _, [], st =>
    (if st.trafficRefresh then { st with tm := refreshTopo engine st.tm } else st, .ok ())
  | isLast, h :: hops, st =>
    if connected h.switchDPID then
      let st := { st with cookie := cookieAt q st.cookie h }
      if isLast then pushHops engine connected q false hops (writeFlowMod q st h)
      else
        match registerLink q st h with
        | (st, .error e) => (st, .error e)
        | (st, .ok ()) =>
          pushHops engine connected q false hops
            (writeFlowMod q { st with trafficRefresh := true } h)
    else (st, .ok ())

/-- The cast of the payload of an IPv4 frame; null can be cast. -/
def castIPv4 (eth : Ethernet) : Except JavaException Unit :=
  if eth.etherType = typeIPv4 then
    match eth.payload with
    | .ipv4 _ | .null => .ok ()
    | .arp _ | .other => .error .classCast
  else .ok ()

def pushRoute (engine : InstanceEngine L T) (connected : SwitchId → Bool)
    (tm : TopologyManager L T) (q : PushRequest) (cookie : BitVec 64) (eth : Ethernet)
    (route : Route) : PushState L T × Except JavaException Unit :=
  let st : PushState L T := ⟨tm, [], cookie, false, false⟩
  match castIPv4 eth with
  | .error e => (st, .error e)
  | .ok () => pushHops engine connected q true route.hops.reverse st

/-- The wildcards without a prior routing decision: L2 only, from
`PROP_FASTWILDCARDS`, which every switch is given as `OFPFW_ALL`. -/
def defaultHints : BitVec 32 :=
  ofpfwAll &&& ~~~ofpfwInPort &&& ~~~ofpfwDlVlan &&& ~~~ofpfwDlSrc &&& ~~~ofpfwDlDst &&&
    ~~~ofpfwNwSrcMask &&& ~~~ofpfwNwDstMask

/-- The wildcard hints; those of a decision may be null. -/
def hintsOf (decision : Option (Option (BitVec 32))) : Option (BitVec 32) :=
  match decision with
  | some wildcards => wildcards
  | none => some defaultHints

/-- `doForwardFlow`, once there is a route between the attachment points. -/
def doForwardFlow (engine : InstanceEngine L T) (connected : SwitchId → Bool)
    (tm : TopologyManager L T) (sw : SwitchId) (m : OFMatch)
    (decision : Option (Option (BitVec 32))) (eth : Ethernet) (route : Route) :
    PushState L T × Except JavaException Unit :=
  let cookie := makeCookie forwardingAppId 0
  match ethernetToPriority tm eth with
  | .error e => (⟨tm, [], cookie, false, false⟩, .error e)
  | .ok priority =>
    pushRoute engine connected tm ⟨m, hintsOf decision, sw, .add, true, priority⟩ cookie eth
      route

/-! ### Expiry -/

/-- `OFFlowRemoved` from a switch. -/
structure FlowRemoved where
  sw : SwitchId
  ofMatch : OFMatch
  cookie : BitVec 64
deriving DecidableEq, Repr

def expire (entry : SwitchId × FlowMod) : FlowRemoved :=
  ⟨entry.1, reported entry.2.ofMatch, entry.2.cookie⟩

namespace FlowRemoved

def priority (msg : FlowRemoved) : ℤ := ((extractUser msg.cookie).sshiftRight 16).toInt

def port (msg : FlowRemoved) : Port := (extractUser msg.cookie &&& 0xffff).setWidth 16

end FlowRemoved

def processFlowRemoved (engine : InstanceEngine L T) (tm : TopologyManager L T)
    (msg : FlowRemoved) : TopologyManager L T :=
  if extractApp msg.cookie ≠ forwardingAppId then tm
  else tm.removeTraffic engine msg.sw msg.port msg.priority msg.ofMatch

/-! ### What cookies carry -/

theorem getLsbD_lowMask {w n i : ℕ} (hn : i < n) (hw : i < w) :
    (BitVec.ofNat w (2 ^ n - 1)).getLsbD i = true := by
  simp [getLsbD_ofNat, Nat.testBit_two_pow_sub_one, hn, hw]

theorem extractUser_makeCookie (app user : BitVec 32) :
    extractUser (makeCookie app user) = user := by
  unfold extractUser makeCookie
  ext i hi
  have hmask : (0xffffffff : BitVec 64).getLsbD i = true := getLsbD_lowMask hi (by omega)
  have h₆₄ : i < 64 := by omega
  have h₅₂ : i < 52 := by omega
  simp only [getElem_setWidth, getLsbD_and, getLsbD_or, hmask,
    getLsbD_shiftLeft, getLsbD_signExtend]
  simp [h₆₄, h₅₂, hi]

/-- The application comes back if it has twelve bits; the user word does not
reach up to it. -/
theorem extractApp_makeCookie_of_lt {app : BitVec 32} (h : app.toNat < 2 ^ 12)
    (user : BitVec 32) : extractApp (makeCookie app user) = app := by
  have hmask : (0xffffffff : BitVec 64) >>> 52 = 0#64 := by decide
  unfold extractApp makeCookie
  rw [ushiftRight_or_distrib, ushiftRight_and_distrib, hmask, and_zero,
    or_zero]
  ext i hi
  have h₆₄ : i < 64 := by omega
  rcases Nat.lt_or_ge i 12 with h₁₂ | h₁₂
  · have hlow : (0xfff : BitVec 64).getLsbD i = true := getLsbD_lowMask h₁₂ h₆₄
    have h₅₂ : 52 + i < 64 := by omega
    simp only [getElem_setWidth, getLsbD_and, hlow, getLsbD_ushiftRight,
      getLsbD_shiftLeft, getLsbD_signExtend]
    simp [h₆₄, h₅₂, hi]
  · have hhigh : (0xfff : BitVec 64).getLsbD i = false :=
      Nat.testBit_lt_two_pow (Nat.lt_of_lt_of_le (by decide) (Nat.pow_le_pow_right (by decide) h₁₂))
    have happ : app.getLsbD i = false :=
      Nat.testBit_lt_two_pow (Nat.lt_of_lt_of_le h (Nat.pow_le_pow_right (by decide) h₁₂))
    rw [getElem_setWidth, getLsbD_and, hhigh, Bool.and_false]
    exact happ.symm

theorem extractApp_makeCookie (user : BitVec 32) :
    extractApp (makeCookie forwardingAppId user) = forwardingAppId :=
  extractApp_makeCookie_of_lt (by decide) user

theorem lowHalf (p : BitVec 32) (port : BitVec 16) :
    ((p <<< 16 ||| port.signExtend 32) &&& 0xffff).setWidth 16 = port := by
  ext i hi
  have hmask : (0xffff : BitVec 32).getLsbD i = true := getLsbD_lowMask hi (by omega)
  have h₃₂ : i < 32 := by omega
  simp only [getElem_setWidth, getLsbD_and, getLsbD_or, hmask,
    getLsbD_shiftLeft, getLsbD_signExtend]
  simp [h₃₂, hi]

theorem highHalf_neg (p : BitVec 32) {port : BitVec 16} (h : port.msb = true) :
    (p <<< 16 ||| port.signExtend 32).sshiftRight 16 = .allOnes 32 := by
  ext i hi
  rw [getElem_sshiftRight, getElem_allOnes]
  split
  · rw [getElem_or, getElem_signExtend, dif_neg (by omega), h, Bool.or_true]
  · rw [msb_or, msb_signExtend, h]
    simp

theorem highHalf_pos (p : Fin 3) {port : BitVec 16} (h : port.msb = false) :
    (BitVec.ofInt 32 p <<< 16 ||| port.signExtend 32).sshiftRight 16 = BitVec.ofInt 32 p := by
  have hport : port.setWidth 32 >>> 16 = 0#32 := by
    ext i hi
    simp
  have hzero : (port.setWidth 32).msb = false := by
    simp [msb_setWidth]
  have hp : ∀ p : Fin 3, BitVec.ofInt 32 p <<< 16 >>> 16 = BitVec.ofInt 32 p ∧
      (BitVec.ofInt 32 p <<< 16).msb = false := by decide
  rw [signExtend_eq_setWidth_of_msb_false h, sshiftRight_eq_of_msb_false,
    ushiftRight_or_distrib, hport, or_zero, (hp p).1]
  rw [msb_or, (hp p).2, hzero, Bool.or_false]

/-- **Reading a cookie back.**  The port is always there, the priority only if
the port is not negative as a `short`. -/
theorem cookie_carries (outPort : Port) (p : Fin 3) :
    let cookie := makeCookieFromPriority forwardingAppId outPort p
    extractApp cookie = forwardingAppId ∧
    (extractUser cookie &&& 0xffff).setWidth 16 = outPort ∧
    priorityIndex ((extractUser cookie).sshiftRight 16).toInt =
      if outPort.msb then none else some p := by
  dsimp only
  unfold makeCookieFromPriority
  rw [extractUser_makeCookie]
  refine ⟨extractApp_makeCookie _, lowHalf _ _, ?_⟩
  cases hmsb : outPort.msb with
  | true =>
    rw [highHalf_neg _ hmsb]
    rfl
  | false =>
    rw [highHalf_pos _ hmsb]
    revert p
    decide

/-! ### Registered applications -/

structure AppIDNotRegisteredException where
  application : BitVec 32
deriving DecidableEq, Repr

/-- `appIdMap`.  `registerApp` only takes ids of twelve bits. -/
structure AppIdMap where
  name : BitVec 32 → Option String
  valid : ∀ application, (name application).isSome → application.toNat < 2 ^ 12

/-- `AppCookie.makeCookie`, with its look into the map. -/
def AppIdMap.makeCookie (ids : AppIdMap) (application user : BitVec 32) :
    Except AppIDNotRegisteredException (BitVec 64) :=
  if (ids.name application).isSome then .ok (NctuSdn.makeCookie application user)
  else .error ⟨application⟩

/-- `makeCookieFromPriority`, with the look into the map. -/
def AppIdMap.makeCookieFromPriority (ids : AppIdMap) (app : BitVec 32) (outPort : Port)
    (priority : ℤ) : Except AppIDNotRegisteredException (BitVec 64) :=
  ids.makeCookie app ((BitVec.ofInt 32 priority <<< 16) ||| outPort.signExtend 32)

/-- The map in which `ForwardingBase` has registered itself. -/
def AppIdMap.forwarding : AppIdMap where
  name application := if application = forwardingAppId then some "Forwarding" else none
  valid application h := by
    split at h
    next heq => rw [heq]; decide
    next => cases h

/-- **When a flow cookie decodes.**  Application, priority and port come back
from a cookie as `processFlowRemoved` reads it exactly if the application is
registered and the port number is not negative. -/
theorem cookie_decodes_iff (ids : AppIdMap) (app : BitVec 32) (outPort : Port) (priority : ℤ)
    (hpriority : 0 ≤ priority ∧ priority ≤ 2) :
    (∃ cookie, ids.makeCookieFromPriority app outPort priority = .ok cookie ∧
        extractApp cookie = app ∧
        ((extractUser cookie).sshiftRight 16).toInt = priority ∧
        (extractUser cookie &&& 0xffff).setWidth 16 = outPort) ↔
      (ids.name app).isSome ∧ 0 ≤ outPort.toInt := by
  have hsign : outPort.msb = false ↔ 0 ≤ outPort.toInt := by
    rw [msb_eq_toInt, decide_eq_false_iff_not, Int.not_lt]
  obtain ⟨p, rfl⟩ : ∃ p : Fin 3, (p : ℤ) = priority :=
    ⟨⟨priority.toNat, by omega⟩, by dsimp only; omega⟩
  unfold AppIdMap.makeCookieFromPriority AppIdMap.makeCookie
  rw [← hsign]
  constructor
  · rintro ⟨cookie, hcookie, -, hback, -⟩
    split at hcookie
    next hname =>
      cases hcookie
      refine ⟨hname, ?_⟩
      rw [← Bool.not_eq_true]
      intro hneg
      rw [extractUser_makeCookie, highHalf_neg _ hneg] at hback
      exact absurd (hback.trans_ge hpriority.1) (by decide)
    next => cases hcookie
  · rintro ⟨hname, hport⟩
    rw [if_pos hname]
    refine ⟨_, rfl, extractApp_makeCookie_of_lt (ids.valid app hname) _, ?_, ?_⟩
    · rw [extractUser_makeCookie, highHalf_pos p hport]
      revert p
      decide
    · rw [extractUser_makeCookie, lowHalf]

theorem cookie_decodes_port_one :
    ∃ cookie, AppIdMap.forwarding.makeCookieFromPriority forwardingAppId 1 2 = .ok cookie ∧
      extractApp cookie = forwardingAppId ∧
      ((extractUser cookie).sshiftRight 16).toInt = 2 ∧
      (extractUser cookie &&& 0xffff).setWidth 16 = (1 : Port) :=
  (cookie_decodes_iff .forwarding forwardingAppId 1 2 (by decide)).mpr ⟨by decide, by decide⟩

/-- An entry towards `OFPP_LOCAL` (0xfffe) is read back with priority -1. -/
theorem cookie_of_local_port :
    ∃ cookie, AppIdMap.forwarding.makeCookieFromPriority forwardingAppId 0xfffe 0 = .ok cookie ∧
      extractApp cookie = forwardingAppId ∧
      ((extractUser cookie).sshiftRight 16).toInt = -1 ∧
      (extractUser cookie &&& 0xffff).setWidth 16 = (0xfffe : Port) :=
  ⟨_, rfl, by decide, by decide, by decide⟩

/-! ### Which entries are reported as they were accounted -/

/-- An entry with wildcards `w` matches the port, the addresses and the VLAN
that are accounted, and nothing else; a zero is the same as no match. -/
def PinsAccounted (w : BitVec 32) (m : OFMatch) (inPort : Port) : Prop :=
  (Wild w ofpfwInPort → inPort = 0) ∧
  (Wild w ofpfwDlSrc → m.dataLayerSource = 0) ∧
  (Wild w ofpfwDlDst → m.dataLayerDestination = 0) ∧
  (Wild w ofpfwDlVlan → m.dataLayerVirtualLan = 0) ∧
  (¬ Wild w ofpfwDlType → m.dataLayerType = 0) ∧
  (¬ Wild w ofpfwDlVlanPcp → m.dataLayerVirtualLanPriorityCodePoint = 0)

instance (w : BitVec 32) (m : OFMatch) (inPort : Port) : Decidable (PinsAccounted w m inPort) := by
  unfold PinsAccounted
  infer_instance

theorem ite_zero_eq_self {n : ℕ} {c : Prop} [Decidable c] {x : BitVec n} :
    (if c then 0 else x) = x ↔ (c → x = 0) := by
  split
  next h => exact ⟨fun heq _ => heq.symm, fun heq => (heq h).symm⟩
  next h => simp [h]

theorem ite_zero_eq_zero {n : ℕ} {c : Prop} [Decidable c] {x : BitVec n} :
    (if c then 0 else x) = 0 ↔ (¬ c → x = 0) := by
  split
  next h => simp [h]
  next h => simp [h]

theorem reported_eq_linkMapMatch_iff {m : OFMatch} (h : WellTagged m) (w : BitVec 32)
    (inPort : Port) :
    (reported ((m.setWildcards w).setInputPort inPort)).setWildcards 0 = linkMapMatch m inPort ↔
      PinsAccounted w m inPort := by
  have htagged : WellTagged ((m.setWildcards w).setInputPort inPort) := h
  obtain ⟨hport, hsrc, hdst, htype, hvlan, hpcp⟩ := reported_dataLayer htagged
  have hupper := reported_upper_eq_zero (m := (m.setWildcards w).setInputPort inPort)
  generalize reported ((m.setWildcards w).setInputPort inPort) = r at *
  constructor
  · intro heq
    obtain ⟨-, hport', hsrc', hdst', hvlan', hpcp', htype', -⟩ := OFMatch.ext_iff.mp heq
    exact ⟨ite_zero_eq_self.mp (hport.symm.trans hport'),
      ite_zero_eq_self.mp (hsrc.symm.trans hsrc'), ite_zero_eq_self.mp (hdst.symm.trans hdst'),
      ite_zero_eq_self.mp (hvlan.symm.trans hvlan'),
      ite_zero_eq_zero.mp (htype.symm.trans htype'), ite_zero_eq_zero.mp (hpcp.symm.trans hpcp')⟩
  · rintro ⟨hport', hsrc', hdst', hvlan', htype', hpcp'⟩
    have htype₀ : r.dataLayerType = 0 := htype.trans (ite_zero_eq_zero.mpr htype')
    obtain ⟨htos, hproto, hnwSrc, hnwDst, htpSrc, htpDst⟩ := hupper htype₀
    exact OFMatch.ext rfl (hport.trans (ite_zero_eq_self.mpr hport'))
      (hsrc.trans (ite_zero_eq_self.mpr hsrc')) (hdst.trans (ite_zero_eq_self.mpr hdst'))
      (hvlan.trans (ite_zero_eq_self.mpr hvlan')) (hpcp.trans (ite_zero_eq_zero.mpr hpcp'))
      htype₀ htos hproto hnwSrc hnwDst htpSrc htpDst

/-! ### What a push does -/

/-- The hops up to the first switch that is not connected. -/
def reached (connected : SwitchId → Bool) (hops : List Hop) : List Hop :=
  hops.takeWhile fun h => connected h.switchDPID

theorem reached_cons_of_connected {connected : SwitchId → Bool} {h : Hop}
    (hconn : connected h.switchDPID = true) (hops : List Hop) :
    reached connected (h :: hops) = h :: reached connected hops :=
  takeWhile_cons_of_pos hconn

theorem reached_cons_of_not_connected {connected : SwitchId → Bool} {h : Hop}
    (hconn : ¬ connected h.switchDPID = true) (hops : List Hop) :
    reached connected (h :: hops) = [] :=
  takeWhile_cons_of_neg hconn

/-- The switches the loop gets to, from the last one backwards. -/
def installedHops (connected : SwitchId → Bool) (route : Route) : List Hop :=
  reached connected route.hops.reverse

def entryAt (q : PushRequest) (h : Hop) : SwitchId × FlowMod :=
  (h.switchDPID, flowModAt q (makeCookieFromPriority forwardingAppId h.outPort q.priority) h)

def installs (written : List (SwitchId × FlowMod)) : List (SwitchId × FlowMod) :=
  written.filter fun w => w.2.command = .add

/-- The switches and ports that packets are sent out of. -/
def outputs (written : List (SwitchId × FlowMod)) : List (SwitchId × Port) :=
  written.filterMap fun w => w.2.outPort.map (w.1, ·)

def addHop (q : PushRequest) (s : TrafficState) (h : Hop) : TrafficState :=
  (s.addTraffic h.switchDPID h.outPort q.priority (linkMapMatch q.ofMatch h.inPort)).1

variable {priority : ℤ}

theorem addTraffic_isOk (s : TrafficState) (sw : SwitchId) (port : Port) {p : Fin 3}
    (hp : priorityIndex priority = some p) (m : OFMatch) :
    (s.addTraffic sw port priority m).2 = .ok () := by
  have hcount : ∀ s : TrafficState, (s.countMatch (linkKey sw port) priority).2 = .ok () := by
    intro s
    unfold TrafficState.countMatch
    rw [hp]
    split <;> rfl
  rcases TrafficState.addTraffic_cases s sw port priority m with ⟨-, heq⟩ | ⟨-, heq⟩
  · rw [heq]
  · rw [heq]
    exact hcount _

theorem checkNeedClearEntry_isOk (tm : TopologyManager L T) (sw : SwitchId) (outPort : Port)
    (p : Fin 3) : ∃ needClear, checkNeedClearEntry tm sw outPort p = .ok needClear := by
  unfold checkNeedClearEntry
  split
  · exact ⟨true, rfl⟩
  · split
    · exact ⟨false, rfl⟩
    · refine ⟨_, anyUsed_eq _ ?_⟩
      intro p' hp'
      obtain ⟨i, hi, rfl⟩ := mem_map.mp hp'
      have := mem_range.mp hi
      exact ⟨by omega, by omega⟩

section Push

variable (engine : InstanceEngine L T) (connected : SwitchId → Bool) {q : PushRequest} {p : Fin 3}

theorem cookieAt_eq (hchange : q.changeCookie = true) {cookie : BitVec 64}
    (happ : extractApp cookie = forwardingAppId) (h : Hop) :
    cookieAt q cookie h = makeCookieFromPriority forwardingAppId h.outPort q.priority := by
  unfold cookieAt
  rw [if_pos hchange, happ]

theorem installs_writeFlowMod (hadd : q.flowModCommand = .add) (st : PushState L T) (h : Hop) :
    installs (writeFlowMod q st h).written =
      installs st.written ++ [(h.switchDPID, flowModAt q st.cookie h)] := by
  show installs (st.written ++ [_]) = _
  unfold installs
  rw [filter_append]
  congr 1
  exact filter_cons_of_pos (decide_eq_true hadd)

theorem outputs_writeFlowMod (st : PushState L T) (h : Hop) :
    outputs (writeFlowMod q st h).written =
      outputs st.written ++ [(h.switchDPID, h.outPort)] := by
  show outputs (st.written ++ [_]) = _
  unfold outputs
  rw [filterMap_append]
  rfl

theorem registerLink_spec (hp : q.priority = p) (st : PushState L T) (h : Hop) :
    ∃ st', registerLink q st h = (st', .ok ()) ∧
      st'.tm.accounts = addHop q st.tm.accounts h ∧ st'.cookie = st.cookie ∧
      installs st'.written = installs st.written ∧ outputs st'.written = outputs st.written := by
  have hok := addTraffic_isOk st.tm.accounts h.switchDPID h.outPort
    (hp ▸ Accounts.priorityIndex_coe p) (linkMapMatch q.ofMatch h.inPort)
  obtain ⟨needClear, hneed⟩ := checkNeedClearEntry_isOk st.tm h.switchDPID h.outPort p
  rw [← hp] at hneed
  unfold registerLink
  rw [hneed]
  cases needClear with
  | false => exact ⟨_, Prod.ext rfl hok, rfl, rfl, rfl, rfl⟩
  | true =>
    refine ⟨_, Prod.ext rfl hok, rfl, rfl, ?_, ?_⟩
    · -- the delete that clears the switch is not an entry
      show installs (st.written ++ [_]) = _
      unfold installs
      rw [filter_append]
      exact append_nil _
    · show outputs (st.written ++ [_]) = _
      unfold outputs
      rw [filterMap_append]
      exact append_nil _

/-- **The loop accounts and installs hop by hop.** -/
theorem pushHops_spec (hp : q.priority = p) (hadd : q.flowModCommand = .add)
    (hchange : q.changeCookie = true) (hops : List Hop) (st : PushState L T)
    (happ : extractApp st.cookie = forwardingAppId) :
    ∃ st', pushHops engine connected q false hops st = (st', .ok ()) ∧
      st'.tm.accounts = (reached connected hops).foldl (addHop q) st.tm.accounts ∧
      installs st'.written = installs st.written ++
        (reached connected hops).map (entryAt q) := by
  induction hops generalizing st with
  | nil =>
    refine ⟨_, rfl, ?_, ?_⟩
    · split <;> rfl
    · refine Eq.trans ?_ (List.append_nil _).symm
      split <;> rfl
  | cons h hops ih =>
    unfold pushHops
    by_cases hconn : connected h.switchDPID = true
    · have hreached := reached_cons_of_connected hconn hops
      -- the hop is accounted first, under the cookie its entry will carry
      obtain ⟨st₁, hreg, haccounts, hcookie, hinstalls, -⟩ :=
        registerLink_spec hp { st with cookie := cookieAt q st.cookie h } h
      have hcookie' : st₁.cookie =
          makeCookieFromPriority forwardingAppId h.outPort q.priority :=
        hcookie.trans (cookieAt_eq hchange happ h)
      obtain ⟨st', hrun, haccounts', hinstalls'⟩ :=
        ih (writeFlowMod q { st₁ with trafficRefresh := true } h)
          ((congrArg extractApp hcookie').trans (extractApp_makeCookie _))
      refine ⟨st', ?_, ?_, ?_⟩
      · rw [if_pos hconn]
        dsimp only
        rw [hreg]
        exact hrun
      · rw [hreached, List.foldl_cons, haccounts']
        exact congrArg (fun s => (reached connected hops).foldl (addHop q) s) haccounts
      · rw [hreached, List.map_cons, hinstalls', installs_writeFlowMod hadd, List.append_assoc]
        rw [hinstalls, hcookie']
        rfl
    · rw [if_neg hconn, reached_cons_of_not_connected hconn]
      exact ⟨st, rfl, rfl, (List.append_nil _).symm⟩

theorem pushRoute_spec (hp : q.priority = p) (hadd : q.flowModCommand = .add)
    (hchange : q.changeCookie = true) (tm : TopologyManager L T) {cookie : BitVec 64}
    (happ : extractApp cookie = forwardingAppId) {eth : Ethernet} (hcast : castIPv4 eth = .ok ())
    (route : Route) :
    ∃ st, pushRoute engine connected tm q cookie eth route = (st, .ok ()) ∧
      st.tm.accounts = (installedHops connected route).tail.foldl (addHop q) tm.accounts ∧
      installs st.written = (installedHops connected route).map (entryAt q) := by
  have hpush : pushRoute engine connected tm q cookie eth route =
      pushHops engine connected q true route.hops.reverse ⟨tm, [], cookie, false, false⟩ := by
    unfold pushRoute
    rw [hcast]
  unfold installedHops
  rw [hpush]
  cases route.hops.reverse with
  | nil => exact ⟨_, rfl, rfl, rfl⟩
  | cons h hops =>
    unfold pushHops
    by_cases hconn : connected h.switchDPID = true
    · have hreached := reached_cons_of_connected hconn hops
      have hcookie := cookieAt_eq hchange happ h
      obtain ⟨st, hrun, haccounts, hinstalls⟩ :=
        pushHops_spec engine connected hp hadd hchange hops
          (writeFlowMod q ⟨tm, [], cookieAt q cookie h, false, false⟩ h)
          ((congrArg extractApp hcookie).trans (extractApp_makeCookie _))
      refine ⟨st, ?_, ?_, ?_⟩
      · rw [if_pos hconn]
        exact hrun
      · rw [hreached]
        exact haccounts
      · -- the last switch of the route gets an entry and is not accounted
        rw [hreached, hinstalls, installs_writeFlowMod hadd]
        rw [hcookie]
        rfl
    · rw [if_neg hconn, reached_cons_of_not_connected hconn]
      exact ⟨_, rfl, rfl, rfl⟩

/-- **Where the loop sends packets**, whatever the command and the cookie are. -/
theorem outputs_pushHops (hp : q.priority = p) (isLast : Bool) (hops : List Hop)
    (st : PushState L T) :
    outputs (pushHops engine connected q isLast hops st).1.written =
      outputs st.written ++
        (reached connected hops).map fun h => (h.switchDPID, h.outPort) := by
  induction hops generalizing isLast st with
  | nil =>
    unfold pushHops
    refine Eq.trans ?_ (List.append_nil _).symm
    dsimp only
    split <;> rfl
  | cons h hops ih =>
    unfold pushHops
    by_cases hconn : connected h.switchDPID = true
    · rw [if_pos hconn, reached_cons_of_connected hconn, List.map_cons]
      cases isLast with
      | true =>
        rw [if_pos rfl, ih, outputs_writeFlowMod, List.append_assoc]
        rfl
      | false =>
        obtain ⟨st₁, hreg, -, -, -, houtputs⟩ :=
          registerLink_spec hp { st with cookie := cookieAt q st.cookie h } h
        rw [if_neg Bool.false_ne_true, hreg]
        dsimp only
        rw [ih, outputs_writeFlowMod, houtputs, List.append_assoc]
        rfl
    · rw [if_neg hconn, reached_cons_of_not_connected hconn]
      exact (List.append_nil _).symm

theorem outputs_pushRoute (hp : q.priority = p) (tm : TopologyManager L T) (cookie : BitVec 64)
    (eth : Ethernet) (route : Route) :
    outputs (pushRoute engine connected tm q cookie eth route).1.written =
      if castIPv4 eth = .ok () then
        (installedHops connected route).map fun h => (h.switchDPID, h.outPort)
      else [] := by
  unfold pushRoute
  rcases castIPv4 eth with e | ⟨⟨⟩⟩
  · rfl
  · exact outputs_pushHops engine connected hp true _ _

end Push

theorem castIPv4_of_priority {tm : TopologyManager L T} {eth : Ethernet}
    (h : ethernetToPriority tm eth = .ok priority) : castIPv4 eth = .ok () := by
  unfold castIPv4
  unfold ethernetToPriority at h
  split
  next htype =>
    rw [if_pos htype] at h
    cases hpayload : eth.payload with
    | ipv4 ipPkt => rfl
    | null => rfl
    | arp | other => rw [hpayload] at h; cases h
  next => rfl

theorem eq_of_priorityIndex {p : Fin 3} (h : priorityIndex priority = some p) :
    priority = p := by
  unfold priorityIndex at h
  split at h
  · cases h
    dsimp only
    omega
  · cases h

def requestOf (sw : SwitchId) (m : OFMatch) (decision : Option (Option (BitVec 32)))
    (priority : ℤ) : PushRequest :=
  ⟨m, hintsOf decision, sw, .add, true, priority⟩

/-- **A push** accounts every installed hop but the last of the route, and
installs one entry per hop. -/
theorem doForwardFlow_spec (engine : InstanceEngine L T) (connected : SwitchId → Bool)
    {tm : TopologyManager L T} (hbounded : Bounded tm) (sw : SwitchId) (m : OFMatch)
    (decision : Option (Option (BitVec 32))) {eth : Ethernet}
    (hpriority : ethernetToPriority tm eth = .ok priority) (route : Route) :
    ∃ st p, doForwardFlow engine connected tm sw m decision eth route = (st, .ok ()) ∧
      priorityIndex priority = some p ∧
      st.tm.accounts = (installedHops connected route).tail.foldl
        (addHop (requestOf sw m decision priority)) tm.accounts ∧
      installs st.written =
        (installedHops connected route).map (entryAt (requestOf sw m decision priority)) := by
  obtain ⟨p, hp⟩ := Option.isSome_iff_exists.mp
    ((isSome_priorityIndex_iff priority).mpr (hbounded.ethernetToPriority hpriority))
  have hcoe : priority = p := eq_of_priorityIndex hp
  obtain ⟨st, hrun, haccounts, hinstalls⟩ :=
    pushRoute_spec engine connected (q := requestOf sw m decision priority) hcoe rfl rfl tm
      (extractApp_makeCookie 0) (castIPv4_of_priority hpriority) route
  refine ⟨st, p, ?_, hp, haccounts, hinstalls⟩
  unfold doForwardFlow
  rw [hpriority]
  exact hrun

/-! ### What the reports do -/

def Hop.link (h : Hop) : Link := linkKey h.switchDPID h.outPort

def FlowRemoved.link (msg : FlowRemoved) : Link := linkKey msg.sw msg.port

/-- What a report does to the account of its link. -/
def FlowRemoved.effect (msg : FlowRemoved) (a : LinkAccount) : LinkAccount :=
  if extractApp msg.cookie ≠ forwardingAppId then a
  else a.remove (priorityIndex msg.priority) (msg.ofMatch.setWildcards 0)

theorem addHop_local {q : PushRequest} {p : Fin 3} (hp : priorityIndex q.priority = some p) :
    Local TrafficState.accountOf (addHop q) Hop.link
      fun h a => a.add p (linkMapMatch q.ofMatch h.inPort) where
  self s h := by
    unfold addHop
    rw [TrafficState.accountOf_addTraffic _ _ _ hp]
    exact if_pos rfl
  other s h l hl := by
    unfold addHop
    rw [TrafficState.accountOf_addTraffic _ _ _ hp]
    exact if_neg hl

theorem accounts_removeTraffic (engine : InstanceEngine L T) (tm : TopologyManager L T)
    (sw : SwitchId) (port : Port) (priority : ℤ) (m : OFMatch) :
    (tm.removeTraffic engine sw port priority m).accounts =
      (tm.accounts.removeTraffic sw port priority m).1 := by
  unfold TopologyManager.removeTraffic
  split
  next heq => rw [heq]; rfl
  next heq => rw [heq]

theorem processFlowRemoved_local (engine : InstanceEngine L T) :
    Local (fun tm : TopologyManager L T => tm.accounts.accountOf) (processFlowRemoved engine)
      FlowRemoved.link FlowRemoved.effect where
  self tm msg := by
    unfold processFlowRemoved FlowRemoved.effect
    split
    next => rfl
    next =>
      rw [accounts_removeTraffic, TrafficState.accountOf_removeTraffic]
      exact if_pos rfl
  other tm msg l hl := by
    unfold processFlowRemoved
    split
    next => rfl
    next =>
      rw [accounts_removeTraffic, TrafficState.accountOf_removeTraffic]
      exact if_neg hl

/-- The match that is looked up when the entry for a hop expires. -/
def expiredMatch (m : OFMatch) (wildcardHints : Option (BitVec 32)) (inPort : Port) : OFMatch :=
  (reported ((wildcard m wildcardHints).setInputPort inPort)).setWildcards 0

/-- **The report of one entry** is about the link that was accounted; it takes
off what the switch makes of the match, at the priority that is left. -/
theorem expire_entryAt (q : PushRequest) {p : Fin 3} (hp : q.priority = p) (h : Hop) :
    (expire (entryAt q h)).link = h.link ∧
    ∀ a, (expire (entryAt q h)).effect a =
      a.remove (if h.outPort.msb then none else some p)
        (expiredMatch q.ofMatch q.wildcardHints h.inPort) := by
  obtain ⟨happ, hport, hpriority⟩ := cookie_carries h.outPort p
  rw [← hp] at happ hport hpriority
  refine ⟨congrArg (linkKey h.switchDPID) hport, fun a => ?_⟩
  have heffect : (expire (entryAt q h)).effect a =
      a.remove (priorityIndex (expire (entryAt q h)).priority)
        (expiredMatch q.ofMatch q.wildcardHints h.inPort) :=
    if_neg (not_not.mpr happ)
  rw [heffect]
  exact congrArg (fun q' => a.remove q' _) hpriority

/-! ### A push and the expiry of its entries -/

/-- The same matches and counters on every link; absent is empty and zero. -/
def Restored (s s' : TrafficState) : Prop :=
  ∀ l, s'.matchesOf l = s.matchesOf l ∧ ∀ p, s'.countOf l p = s.countOf l p

theorem restored_iff_same {s s' : TrafficState} :
    Restored s s' ↔ ∀ l, (s'.accountOf l).Same (s.accountOf l) :=
  forall_congr' fun _ => and_congr_right fun _ => funext_iff.symm

theorem nodup_links (connected : SwitchId → Bool) (route : Route) :
    ((installedHops connected route).map Hop.link).Nodup := by
  have hswitches : ((installedHops connected route).map Hop.switchDPID).Nodup := by
    have hsub := (takeWhile_sublist (l := route.hops.reverse)
      fun h => connected h.switchDPID).map Hop.switchDPID
    refine hsub.nodup ?_
    rw [map_reverse, nodup_reverse]
    exact route.nodup
  refine List.Nodup.of_map Link.src ?_
  rw [map_map]
  exact hswitches

section Expiry

variable (engine : InstanceEngine L T) {q : PushRequest} {p : Fin 3} {hops : List Hop}
  {tm tm' : TopologyManager L T} {reports : List FlowRemoved}

theorem accountOf_expired (hp : q.priority = p) (hnodup : (hops.map Hop.link).Nodup)
    (hreports : reports.Perm (hops.map fun h => expire (entryAt q h))) {h : Hop} (hh : h ∈ hops) :
    (reports.foldl (processFlowRemoved engine) tm).accounts.accountOf h.link =
      (tm.accounts.accountOf h.link).remove (if h.outPort.msb then none else some p)
        (expiredMatch q.ofMatch q.wildcardHints h.inPort) := by
  obtain ⟨hlink, heffect⟩ := expire_entryAt q hp h
  have hkeys : (reports.map FlowRemoved.link).Nodup := by
    rw [(hreports.map FlowRemoved.link).nodup_iff, map_map]
    have hcongr : hops.map (FlowRemoved.link ∘ fun h => expire (entryAt q h)) =
        hops.map Hop.link := map_congr_left fun h _ => (expire_entryAt q hp h).1
    rwa [hcongr]
  have hmem : expire (entryAt q h) ∈ reports :=
    hreports.mem_iff.mpr (mem_map_of_mem hh)
  have hget := (processFlowRemoved_local engine).get_foldl_of_mem hkeys hmem tm
  rw [hlink, heffect] at hget
  exact hget

theorem accountOf_expired_of_not_mem (hp : q.priority = p)
    (hreports : reports.Perm (hops.map fun h => expire (entryAt q h))) {l : Link}
    (hl : l ∉ hops.map Hop.link) :
    (reports.foldl (processFlowRemoved engine) tm).accounts.accountOf l =
      tm.accounts.accountOf l := by
  refine (processFlowRemoved_local engine).get_foldl_of_not_mem ?_ tm
  intro hmem
  obtain ⟨msg, hmsg, rfl⟩ := mem_map.mp hmem
  obtain ⟨h, hh, rfl⟩ := mem_map.mp (hreports.mem_iff.mp hmsg)
  apply hl
  rw [(expire_entryAt q hp h).1]
  exact mem_map_of_mem hh

section

variable (hp : q.priority = p) (hnodup : (hops.map Hop.link).Nodup)
include hp hnodup

theorem same_expired_counted_iff (hnonNegative : tm.accounts.NonNegative)
    (haccounts : tm'.accounts = hops.tail.foldl (addHop q) tm.accounts)
    (hreports : reports.Perm (hops.map fun h => expire (entryAt q h))) {h : Hop}
    (hh : h ∈ hops.tail) (hnew : linkMapMatch q.ofMatch h.inPort ∉ tm.accounts.matchesOf h.link) :
    ((reports.foldl (processFlowRemoved engine) tm').accounts.accountOf h.link).Same
        (tm.accounts.accountOf h.link) ↔
      expiredMatch q.ofMatch q.wildcardHints h.inPort = linkMapMatch q.ofMatch h.inPort ∧
        h.outPort.msb = false := by
  have hlocal := addHop_local (q := q) (p := p) (by rw [hp]; exact Accounts.priorityIndex_coe p)
  have hkeys : (hops.tail.map Hop.link).Nodup :=
    ((tail_sublist hops).map Hop.link).nodup hnodup
  rw [accountOf_expired engine hp hnodup hreports (mem_of_mem_tail hh), haccounts,
    hlocal.get_foldl_of_mem hkeys hh,
    LinkAccount.remove_add_same_iff hnew (hnonNegative h.link)]
  cases h.outPort.msb <;> simp

theorem same_expired_last_iff (haccounts : tm'.accounts = hops.tail.foldl (addHop q) tm.accounts)
    (hreports : reports.Perm (hops.map fun h => expire (entryAt q h))) {h : Hop}
    (hh : h ∈ hops.head?) :
    ((reports.foldl (processFlowRemoved engine) tm').accounts.accountOf h.link).Same
        (tm.accounts.accountOf h.link) ↔
      ((tm.accounts.traffic h.link).isSome →
        expiredMatch q.ofMatch q.wildcardHints h.inPort ∉ tm.accounts.matchesOf h.link) := by
  have hlocal := addHop_local (q := q) (p := p) (by rw [hp]; exact Accounts.priorityIndex_coe p)
  have hnot : h.link ∉ hops.tail.map Hop.link := by
    cases hops with
    | nil => cases hh
    | cons h' hops =>
      cases hh
      exact (nodup_cons.mp hnodup).1
  rw [accountOf_expired engine hp hnodup hreports (mem_of_mem_head? hh), haccounts,
    hlocal.get_foldl_of_not_mem hnot]
  exact LinkAccount.remove_same_iff

theorem restored_iff (hnonNegative : tm.accounts.NonNegative)
    (hnew : ∀ h ∈ hops.tail, linkMapMatch q.ofMatch h.inPort ∉ tm.accounts.matchesOf h.link)
    (haccounts : tm'.accounts = hops.tail.foldl (addHop q) tm.accounts)
    (hreports : reports.Perm (hops.map fun h => expire (entryAt q h))) :
    Restored tm.accounts (reports.foldl (processFlowRemoved engine) tm').accounts ↔
      (∀ h ∈ hops.tail,
        expiredMatch q.ofMatch q.wildcardHints h.inPort = linkMapMatch q.ofMatch h.inPort ∧
        h.outPort.msb = false) ∧
      ∀ h ∈ hops.head?, (tm.accounts.traffic h.link).isSome →
        expiredMatch q.ofMatch q.wildcardHints h.inPort ∉ tm.accounts.matchesOf h.link := by
  have hcounted (h) (hh : h ∈ hops.tail) := same_expired_counted_iff engine hp hnodup hnonNegative
    haccounts hreports hh (hnew h hh)
  have hlast (h) (hh : h ∈ hops.head?) := same_expired_last_iff engine hp hnodup haccounts
    hreports hh
  rw [restored_iff_same]
  constructor
  · intro hsame
    exact ⟨fun h hh => (hcounted h hh).mp (hsame h.link),
      fun h hh => (hlast h hh).mp (hsame h.link)⟩
  · rintro ⟨htail, hhead⟩ l
    by_cases hl : l ∈ hops.map Hop.link
    · obtain ⟨h, hh, rfl⟩ := mem_map.mp hl
      cases hops with
      | nil => cases hh
      | cons h' hops =>
        rcases mem_cons.mp hh with rfl | hh
        · exact (hlast h rfl).mpr (hhead h rfl)
        · exact (hcounted h hh).mpr (htail h hh)
    · have hlocal := addHop_local (q := q) (p := p)
        (by rw [hp]; exact Accounts.priorityIndex_coe p)
      have hnot : l ∉ hops.tail.map Hop.link := fun hmem =>
        hl (((tail_sublist hops).map Hop.link).subset hmem)
      rw [accountOf_expired_of_not_mem engine hp hreports hl, haccounts,
        hlocal.get_foldl_of_not_mem hnot]
      exact ⟨rfl, rfl⟩

end

end Expiry

theorem wildcard_eq (m : OFMatch) (wildcardHints : Option (BitVec 32)) :
    wildcard m wildcardHints = m.setWildcards (wildcardHints.getD m.wildcards) := by
  cases wildcardHints with
  | none => rfl
  | some w => rfl

/-- **Expiry undoes a push** exactly if every counted entry matches what was
counted, its port is not negative as a `short`, and the report of the last
switch finds nothing. -/
theorem expiry_restores_iff (engine : InstanceEngine L T) (connected : SwitchId → Bool)
    {tm : TopologyManager L T} (hreach : ManagerReaches engine tm) (sw : SwitchId)
    {packetData : List (BitVec 8)} {inPort : Port} {m : OFMatch}
    (hload : loadFromPacket packetData inPort = .ok m)
    (decision : Option (Option (BitVec 32))) {eth : Ethernet} {priority : ℤ}
    (hpriority : ethernetToPriority tm eth = .ok priority) (route : Route)
    (hnew : ∀ h ∈ (installedHops connected route).tail,
      linkMapMatch m h.inPort ∉ tm.accounts.matchesOf h.link)
    {reports : List FlowRemoved}
    (hreports : reports.Perm ((installs
      (doForwardFlow engine connected tm sw m decision eth route).1.written).map expire)) :
    Restored tm.accounts (reports.foldl (processFlowRemoved engine)
        (doForwardFlow engine connected tm sw m decision eth route).1.tm).accounts ↔
      (∀ h ∈ (installedHops connected route).tail,
        PinsAccounted ((hintsOf decision).getD m.wildcards) m h.inPort ∧
        h.outPort.msb = false) ∧
      ∀ h ∈ (installedHops connected route).head?, (tm.accounts.traffic h.link).isSome →
        expiredMatch m (hintsOf decision) h.inPort ∉ tm.accounts.matchesOf h.link := by
  have hbounded := hreach.bounded
  obtain ⟨st, p, hrun, hp, haccounts, hinstalls⟩ :=
    doForwardFlow_spec engine connected hbounded sw m decision hpriority route
  rw [hrun] at hreports ⊢
  rw [hinstalls, map_map] at hreports
  have hcoe : priority = p := eq_of_priorityIndex hp
  have hiff := restored_iff engine (q := requestOf sw m decision priority) hcoe
    (nodup_links connected route) hbounded.nonNegative hnew haccounts hreports
  refine hiff.trans (and_congr_left' (forall₂_congr fun h _ => and_congr_left' ?_))
  show (reported ((wildcard m (hintsOf decision)).setInputPort h.inPort)).setWildcards 0 = _ ↔ _
  rw [wildcard_eq]
  exact reported_eq_linkMapMatch_iff (loadFromPacket_spec hload).2 _ _

def bareFrame : List (BitVec 8) := [0, 0, 0, 0, 0, 2, 0, 0, 0, 0, 0, 1, 0x88, 0xb5]

def bareEthernet : Ethernet := ⟨2, 1, vlanUntagged, 0x88b5, .other⟩

def bareMatch : OFMatch :=
  { OFMatch.new with
    wildcards := ofpfwNwDstAll ||| ofpfwNwSrcAll ||| ofpfwNwProto ||| ofpfwNwTos ||| ofpfwTpDst |||
      ofpfwTpSrc
    inputPort := 1
    dataLayerSource := 1
    dataLayerDestination := 2
    dataLayerType := 0x88b5 }

theorem nodup_twoHops :
    (([⟨1, 1, 2⟩, ⟨2, 1, 2⟩] : List Hop).map Hop.switchDPID).Nodup := by decide

def twoHops : Route := ⟨[⟨1, 1, 2⟩, ⟨2, 1, 2⟩], nodup_twoHops⟩

/-- What is left after the push of the frame and the expiry of its entries. -/
def afterExpiry (decision : Option (Option (BitVec 32))) : TrafficState :=
  let st := (doForwardFlow twoSwitches (fun _ => true) (startUp twoSwitches ()) 1 bareMatch
    decision bareEthernet twoHops).1
  (((installs st.written).map expire).foldl (processFlowRemoved twoSwitches) st.tm).accounts

theorem expiry_restores_without_decision :
    Restored TrafficState.resetTraffic (afterExpiry none) := by
  have hreach : ManagerReaches twoSwitches (startUp twoSwitches ()) := ⟨(), .refl⟩
  have hload : loadFromPacket bareFrame 1 = .ok bareMatch := by decide +kernel
  have hpriority : ethernetToPriority (startUp twoSwitches ()) bareEthernet = .ok 0 := rfl
  refine (expiry_restores_iff twoSwitches (fun _ => true) hreach 1 hload none hpriority twoHops ?_
    (.refl _)).mpr ?_
  · decide
  · decide

/-- Under a decision that wildcards everything, as a firewall rule without
conditions makes it, the switch reports zeros: the flow stays accounted. -/
theorem expiry_keeps_wildcarded_flow :
    loadFromPacket bareFrame 1 = .ok bareMatch ∧
    ethernetToPriority (startUp twoSwitches ()) bareEthernet = .ok 0 ∧
    (afterExpiry (some (some ofpfwAll))).matchesOf (linkKey 1 2) = {linkMapMatch bareMatch 1} ∧
    (afterExpiry (some (some ofpfwAll))).countOf (linkKey 1 2) 0 = 1 ∧
    ¬ Restored TrafficState.resetTraffic (afterExpiry (some (some ofpfwAll))) := by
  have hcount : (afterExpiry (some (some ofpfwAll))).countOf (linkKey 1 2) 0 = 1 := by
    decide +kernel
  refine ⟨by decide +kernel, rfl, by decide +kernel, hcount, fun hrestored => ?_⟩
  have hzero := (hrestored (linkKey 1 2)).2 0
  rw [hcount] at hzero
  cases hzero

/-! ### The packet -/

/-- What is written along a route. -/
inductive RouteMessage
  | flowMod (fm : FlowMod)
  | packetOut (po : PacketOut)

/-- `ForwardingBase.pushPacket`.  A call for the input port returns where it is logged. -/
def pushPacketIn (debugEnabled : Bool) (pi : Option PacketIn) (outPort : Port) :
    Option PacketOut :=
  match pi with
  | none => none
  | some pi =>
    if pi.inPort = outPort ∧ debugEnabled then none
    else some ⟨pi.packetData, pi.inPort, outPort⟩

/-- The messages of `pushRoute`: on the switch of the packet-in, the packet follows the flow-mod.
A delete of `clearPriorityFlowEntries` has no output port. -/
def routeMessages (debugEnabled : Bool) (pi : Option PacketIn) (pinSwitch : SwitchId)
    (written : List (SwitchId × FlowMod)) : List (SwitchId × RouteMessage) :=
  written.flatMap fun w =>
    (w.1, .flowMod w.2) ::
      if w.1 = pinSwitch then
        (w.2.outPort.bind (pushPacketIn debugEnabled pi)).toList.map fun po =>
          (w.1, .packetOut po)
      else []

theorem mem_routeMessages_iff {debugEnabled : Bool} {pi : Option PacketIn}
    {pinSwitch sw : SwitchId} {written : List (SwitchId × FlowMod)} {po : PacketOut} :
    (sw, .packetOut po) ∈ routeMessages debugEnabled pi pinSwitch written ↔
      sw = pinSwitch ∧ ∃ fm, (sw, fm) ∈ written ∧
        fm.outPort.bind (pushPacketIn debugEnabled pi) = some po := by
  unfold routeMessages
  rw [mem_flatMap]
  constructor
  · rintro ⟨⟨sw', fm⟩, hfm, h⟩
    split_ifs at h with hsw
    · obtain ⟨_, hpo, heq⟩ := mem_map.mp ((mem_cons.mp h).resolve_left nofun)
      cases heq
      exact ⟨hsw, fm, hfm, Option.mem_toList.mp hpo⟩
    · cases mem_singleton.mp h
  · rintro ⟨rfl, fm, hfm, hpo⟩
    refine ⟨_, hfm, .tail _ ?_⟩
    rw [if_pos rfl, hpo]
    exact mem_singleton_self _

theorem mem_outputs_iff {written : List (SwitchId × FlowMod)} {sw : SwitchId} {port : Port} :
    (sw, port) ∈ outputs written ↔ ∃ fm, (sw, fm) ∈ written ∧ fm.outPort = some port := by
  unfold outputs
  rw [mem_filterMap]
  constructor
  · rintro ⟨⟨sw', fm⟩, hfm, h⟩
    obtain ⟨port', hport, heq⟩ := Option.map_eq_some_iff.mp h
    cases heq
    exact ⟨fm, hfm, hport⟩
  · rintro ⟨fm, hfm, hport⟩
    exact ⟨_, hfm, Option.map_eq_some_iff.mpr ⟨port, hport, rfl⟩⟩

/-- The messages are the same with and without debug logging, and no packet is sent out of the
port that it came in by. -/
def LoggingInnocent (pi : Option PacketIn) (pinSwitch : SwitchId)
    (written : List (SwitchId × FlowMod)) : Prop :=
  routeMessages true pi pinSwitch written = routeMessages false pi pinSwitch written ∧
    ∀ debugEnabled p sw po, pi = some p →
      (sw, .packetOut po) ∈ routeMessages debugEnabled pi pinSwitch written →
        po.outPort ≠ p.inPort

theorem loggingInnocent_iff_outputs (pi : Option PacketIn) (pinSwitch : SwitchId)
    (written : List (SwitchId × FlowMod)) :
    LoggingInnocent pi pinSwitch written ↔
      ∀ p, pi = some p → (pinSwitch, p.inPort) ∉ outputs written := by
  constructor
  · rintro ⟨-, hback⟩ p rfl hport
    obtain ⟨fm, hfm, houtPort⟩ := mem_outputs_iff.mp hport
    refine hback false p pinSwitch ⟨p.packetData, p.inPort, p.inPort⟩ rfl ?_ rfl
    refine mem_routeMessages_iff.mpr ⟨rfl, fm, hfm, ?_⟩
    rw [houtPort]
    exact if_neg fun hdebug => Bool.false_ne_true hdebug.2
  · intro hports
    -- the log level is only looked at for the input port
    have hpacket (p fm outPort) (hpi : pi = some p) (hfm : (pinSwitch, fm) ∈ written)
        (houtPort : fm.outPort = some outPort) (debugEnabled) :
        pushPacketIn debugEnabled pi outPort = some ⟨p.packetData, p.inPort, outPort⟩ := by
      subst hpi
      refine if_neg ?_
      rintro ⟨rfl, -⟩
      exact hports p rfl (mem_outputs_iff.mpr ⟨fm, hfm, houtPort⟩)
    refine ⟨flatMap_congr fun w hw => ?_, ?_⟩
    · split_ifs with hsw
      · have hfm : (pinSwitch, w.2) ∈ written := hsw ▸ hw
        cases houtPort : w.2.outPort with
        | none => rfl
        | some outPort =>
          cases hpi : pi with
          | none => rfl
          | some p =>
            have hsent := hpacket p w.2 outPort hpi hfm houtPort
            rw [Option.bind_some, Option.bind_some, ← hpi, hsent true, hsent false]
      · rfl
    · rintro debugEnabled p sw po hpi hpo
      obtain ⟨rfl, fm, hfm, hpo⟩ := mem_routeMessages_iff.mp hpo
      obtain ⟨outPort, houtPort, hpo⟩ := Option.bind_eq_some_iff.mp hpo
      rw [hpacket p fm outPort hpi hfm houtPort] at hpo
      cases hpo
      rintro rfl
      exact hports p hpi (mem_outputs_iff.mpr ⟨fm, hfm, houtPort⟩)

theorem castIPv4_eq_ok_iff (eth : Ethernet) :
    castIPv4 eth = .ok () ↔
      (eth.etherType = typeIPv4 → eth.payload = .null ∨ ∃ ip, eth.payload = .ipv4 ip) := by
  unfold castIPv4
  split
  next htype => cases eth.payload <;> simp [htype]
  next htype => simp [htype]

/-- **Logging does not change forwarding**, and no packet is sent back, exactly if there is no
packet, the payload is not what its type announces, or the route does not leave the switch of the
packet-in by the input port.  Hops are pushed from the end of the route, up to the first switch
that is not connected; those before it do not count. -/
theorem logging_innocent_iff (engine : InstanceEngine L T) (connected : SwitchId → Bool)
    (tm : TopologyManager L T) (q : PushRequest) (priority : Fin 3) (cookie : BitVec 64)
    (eth : Ethernet) (route : Route) (pi : Option PacketIn) :
    LoggingInnocent pi q.pinSwitch
        (pushRoute engine connected tm { q with priority := priority } cookie eth route).1.written ↔
      ∀ p, pi = some p →
        (eth.etherType = typeIPv4 → eth.payload = .null ∨ ∃ ip, eth.payload = .ipv4 ip) →
        ∀ h ∈ route.hops.reverse.takeWhile fun h => connected h.switchDPID,
          h.switchDPID = q.pinSwitch → h.outPort ≠ p.inPort := by
  rw [loggingInnocent_iff_outputs, outputs_pushRoute engine connected rfl]
  refine forall₂_congr fun p _ => ?_
  rw [← castIPv4_eq_ok_iff]
  by_cases hcast : castIPv4 eth = .ok ()
  · rw [if_pos hcast, List.mem_map]
    constructor
    · intro hnot _ h hh hsw hport
      exact hnot ⟨h, hh, Prod.ext hsw hport⟩
    · rintro hports ⟨h, hh, heq⟩
      obtain ⟨hsw, hport⟩ := Prod.mk.inj heq
      exact hports hcast h hh hsw hport
  · rw [if_neg hcast]
    exact iff_of_true not_mem_nil fun h => absurd h hcast

/-- On a route that leaves by the input port, the packet is sent back unless this is logged. -/
theorem logging_drops_packet :
    ¬ LoggingInnocent (some ⟨1, bareFrame, bareEthernet⟩) 1
      (pushRoute twoSwitches (fun _ => true) (startUp twoSwitches ())
        ⟨bareMatch, none, 1, .add, true, 0⟩ 0 bareEthernet
        ⟨[⟨1, 1, 1⟩], nodup_singleton _⟩).1.written := by
  rintro ⟨hsame, -⟩
  exact absurd (congrArg length hsame) (by decide +kernel)

end NctuSdn
