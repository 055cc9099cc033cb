/-
The ports of a switch, from its features reply on.

A handler keeps the PORT_STATUS messages that arrive before there is a switch,
applies those that arrive before the role of the switch is settled, and passes
on what those change that arrive later.  Two kinds of message fall through.
During the handshake of the driver every message but an ECHO_REQUEST goes to
the driver, also a PORT_STATUS; and a PORT_STATUS that arrives when the initial
role request has just timed out is applied after the switch has been activated,
by the state that still waits for the role, which does not pass on anything.
-/
import NctuSdn.Switch.OFChannelHandler

namespace NctuSdn

open List Option

variable {T D : Type}

/-! ### What was received -/

/-- The features reply, and the PORT_STATUS messages since then. -/
structure PortsReceived where
  reply : Option OFFeaturesReply
  statuses : List OFPortStatus

def PortsReceived.note (g : PortsReceived) (state : OFChannelHandler.ChannelState) :
    MessageBody T → PortsReceived
  | .featuresReply reply _ => if state = .waitFeaturesReply then ⟨some reply, []⟩ else g
  | .portStatus m => { g with statuses := g.statuses ++ [m] }
  | _ => g

/-- The ports of the features reply, with the PORT_STATUS messages applied. -/
def PortsReceived.Gives (env : ChannelEnvironment T D) (g : PortsReceived) (ports : PortManager) :
    Prop :=
  ∃ reply start, g.reply = some reply ∧ setFeaturesReply env.ports reply = .ok start ∧
    ports = start.run env.ports (g.statuses.map .handlePortStatusMessage)

/-- The changes that a PORT_STATUS message makes. -/
def PortManager.changes (env : PortEnvironment) (pm : PortManager) (m : OFPortStatus) :
    List PortChangeEvent :=
  match pm.handlePortStatusMessage env m with
  | .ok (_, changes) => changes
  | .error _ => []

namespace OFChannelHandler

variable (env : ChannelEnvironment T D)

def received : List (Reception T) → OFChannelHandler D → PortsReceived → PortsReceived
  | [], _, g => g
  | r :: rs, h, g => received rs (h.messageReceived env r) (g.note h.state r.message.body)

def notifications (h : OFChannelHandler D) : List PortChangeEvent :=
  h.outputs.filterMap fun
    | .notifyPortChanged event => some event
    | _ => none

def caused (h : OFChannelHandler D) (r : Reception T) : List PortChangeEvent :=
  match r.message.body, h.sw with
  | .portStatus m, some sw => sw.portManager.changes env.ports m
  | _, _ => []

/-- A PORT_STATUS message does not arrive during the handshake of the driver, nor
when the initial role request has timed out. -/
def Heard (h : OFChannelHandler D) (r : Reception T) : Prop :=
  ∀ m, r.message.body = .portStatus m → h.state ≠ .waitSwitchDriverSubHandshake ∧
    ¬ (h.state = .waitInitialRole ∧ h.timedOut r = true)

def AllHeard : OFChannelHandler D → List (Reception T) → Prop
  | _, [] => True
  | h, r :: rs => h.Heard r ∧ (h.messageReceived env r).AllHeard rs

/-! ### What the parts of a handler do -/

variable {env} {h h' h'' : OFChannelHandler D} {r : Reception T} {sw : ChannelSwitch D}
  {ports : PortManager}

/-- An output that is neither an activation nor a change of a port. -/
def Plain : ChannelOutput → Prop
  | .switchActivated _ | .notifyPortChanged _ => False
  | _ => True

variable {output : ChannelOutput}

theorem activations_emit (hplain : Plain output) :
    (h.emit output).activations = h.activations := by
  cases output <;> first | exact hplain.elim | simp [emit, activations]

theorem notifications_emit (hplain : Plain output) :
    (h.emit output).notifications = h.notifications := by
  cases output <;> first | exact hplain.elim | simp [emit, notifications]

/-- The switch is activated. -/
structure Activates (h : OFChannelHandler D) (ports : PortManager) (h' : OFChannelHandler D) :
    Prop where
  state : h'.state = .master
  pending : h'.roleChanger.requestPending = false
  activations : h'.activations = h.activations ++ [ports]
  notifications : h'.notifications = h.notifications
  sw : ∃ sw, h'.sw = some sw ∧ (h.activations ≠ [] → sw.portManager = ports)

/-- The role of the switch stays open, and the ports are as they are. -/
structure Keeps (env : ChannelEnvironment T D) (h h' : OFChannelHandler D) : Prop where
  state : h'.state = h.state
  role : h'.roleChanger.requestPending = true → h'.roleChanger.pendingRole = some env.role
  activations : h'.activations = h.activations
  notifications : h'.notifications = h.notifications
  ports : h'.sw.map ChannelSwitch.portManager = h.sw.map ChannelSwitch.portManager

/-- The request that is pending is for the role of the controller. -/
def Requested (env : ChannelEnvironment T D) (h : OFChannelHandler D) : Prop :=
  h.roleChanger.requestPending = true → h.roleChanger.pendingRole = some env.role

theorem Keeps.refl (hrequested : h.Requested env) : Keeps env h h :=
  ⟨rfl, hrequested, rfl, rfl, rfl⟩

theorem Keeps.emit (hrequested : h.Requested env) (hplain : Plain output) :
    Keeps env h (h.emit output) :=
  ⟨rfl, hrequested, activations_emit hplain, notifications_emit hplain, rfl⟩

theorem Activates.emit (ha : Activates h ports h') (hplain : Plain output) :
    Activates h ports (h'.emit output) :=
  ⟨ha.state, ha.pending, (activations_emit hplain).trans ha.activations,
    (notifications_emit hplain).trans ha.notifications, ha.sw⟩

theorem Keeps.emit_after (hk : Keeps env h h') (hplain : Plain output) :
    Keeps env h (h'.emit output) :=
  ⟨hk.state, hk.role, (activations_emit hplain).trans hk.activations,
    (notifications_emit hplain).trans hk.notifications, hk.ports⟩

variable (env r) in
theorem switchActivated_activates (hstate : h.state = .master)
    (hpending : h.roleChanger.requestPending = false) (hsw : h.sw = some sw) :
    Activates h sw.portManager (h.switchActivated env r sw).1 ∧
      (h.activations ≠ [] → (h.switchActivated env r sw).2 = .ok ()) := by
  have hactivations : (h.emit (.switchActivated sw.portManager)).activations =
      h.activations ++ [sw.portManager] := by
    simp [activations, OFChannelHandler.emit]
  have hnotifications : (h.emit (.switchActivated sw.portManager)).notifications =
      h.notifications := by
    simp [notifications, OFChannelHandler.emit]
  unfold switchActivated
  split
  next hfirst _ =>
    split
    · exact ⟨⟨hstate, hpending, hactivations, hnotifications, sw, hsw,
        fun hne => absurd hfirst hne⟩, fun hne => absurd hfirst hne⟩
    · exact ⟨⟨hstate, hpending, hactivations, hnotifications, _, rfl,
        fun hne => absurd hfirst hne⟩, fun hne => absurd hfirst hne⟩
  next =>
    exact ⟨⟨hstate, hpending, hactivations, hnotifications, sw, hsw, fun _ => rfl⟩, fun _ => rfl⟩

theorem setSwitchRole_spec (hsw : h.sw = some sw) {role : Option Role}
    (hrole : role ≠ some .slave) (status : RoleRecvStatus) :
    Activates h sw.portManager (h.setSwitchRole env r role status).1 ∧
      (h.activations ≠ [] → (h.setSwitchRole env r role status).2 = .ok ()) := by
  unfold setSwitchRole
  rw [hsw]
  dsimp only
  rw [if_pos hrole]
  obtain ⟨ha, hok⟩ := switchActivated_activates env r (h := ({ h with
    roleChanger := { h.roleChanger with requestPending := false }
    sw := some { sw with
      supportsNxRole := some (status = .receivedReply)
      haRole := role } } : OFChannelHandler D).setState .master) rfl rfl rfl
  exact ⟨⟨ha.state, ha.pending, ha.activations, ha.notifications, ha.sw⟩, hok⟩

theorem sendRoleRequest_cases (hsw : h.sw = some sw) (hrole : env.role ≠ .slave) :
    Activates h sw.portManager (h.sendRoleRequest env r env.role).1 ∨
      Keeps env h (h.sendRoleRequest env r env.role).1 := by
  unfold sendRoleRequest
  rw [hsw]
  dsimp only
  split
  · exact .inl (setSwitchRole_spec hsw (fun heq => hrole (some.inj heq)) _).1
  · have hplain : Plain (.roleRequest r.xid env.role) := trivial
    exact .inr ⟨rfl, fun _ => rfl, activations_emit (h := h) hplain,
      notifications_emit (h := h) hplain, rfl⟩

section

variable (hsw : h.sw = some sw) (hrole : env.role ≠ .slave) (hrequested : h.Requested env)
include hsw hrole hrequested

theorem reassertRole_cases (role : Role) :
    Activates h sw.portManager (h.reassertRole env r role).1 ∨
      Keeps env h (h.reassertRole env r role).1 := by
  unfold reassertRole
  split
  · exact .inr (.refl hrequested)
  · unfold sendRoleRequestIfNotPending
    split
    · exact sendRoleRequest_cases hsw hrole
    · exact .inr (.refl hrequested)

theorem deliverRoleReply_cases (role : Role) :
    Activates h sw.portManager (h.deliverRoleReply env r role).1 ∨
      Keeps env h (h.deliverRoleReply env r role).1 := by
  unfold deliverRoleReply
  split
  · exact .inr (.refl hrequested)
  next hpending =>
    split
    next hreply =>
      have heq := hrequested (by simpa using hpending)
      refine .inl (setSwitchRole_spec hsw (fun hslave => hrole ?_) _).1
      rw [← hreply.2, heq] at hslave
      exact some.inj hslave
    next => exact .inr (.refl hrequested)

theorem processRoleReply_cases (roleReply : Option (BitVec 32)) {other : Outcome D}
    (hother : Keeps env h other.1) :
    Activates h sw.portManager (h.processRoleReply env r roleReply other).1 ∨
      Keeps env h (h.processRoleReply env r roleReply other).1 := by
  unfold processRoleReply
  split
  · exact .inr hother
  · split
    · exact .inr (.refl hrequested)
    · exact deliverRoleReply_cases hsw hrole hrequested _

theorem deliverError_cases (errorType : BitVec 16) :
    (∃ result, h.deliverError env r errorType = (h, result) ∧ result ≠ .ok true) ∨
      Activates h sw.portManager (h.deliverError env r errorType).1 ∧
        (h.deliverError env r errorType).2 ≠ .ok false := by
  unfold deliverError
  split
  · exact .inl ⟨_, rfl, by simp⟩
  next hpending =>
    split
    · split
      · have hmaster : h.roleChanger.pendingRole ≠ some .slave := by
          rw [hrequested (by simpa using hpending)]
          exact fun heq => hrole (some.inj heq)
        have hactivates : Activates h sw.portManager
            (h.setSwitchRole env r h.roleChanger.pendingRole .unsupported).1 :=
          (setSwitchRole_spec hsw hmaster _).1
        right
        split
        next heq =>
          rw [heq] at hactivates
          exact ⟨hactivates, by simp⟩
        next heq =>
          rw [heq] at hactivates
          exact ⟨hactivates, by simp⟩
      · exact .inl ⟨_, rfl, by simp⟩
    · exact .inl ⟨_, rfl, by simp⟩

theorem checkTimeout_cases :
    h.timedOut r = true ∧ Activates h sw.portManager (h.checkTimeout env r).1 ∨
      h.timedOut r = false ∧ h.checkTimeout env r = (h, .ok ()) := by
  unfold checkTimeout
  cases htime : h.timedOut r with
  | false => exact .inr ⟨rfl, rfl⟩
  | true =>
    refine .inl ⟨rfl, (setSwitchRole_spec hsw (fun heq => hrole ?_) _).1⟩
    rw [hrequested (Bool.and_eq_true_iff.mp htime).1] at heq
    exact some.inj heq

end

/-! ### The initial role -/

theorem processMasterError_cases (hsw : h.sw = some sw) (hrole : env.role ≠ .slave)
    (hrequested : h.Requested env) (errorType errorCode : BitVec 16) :
    Activates h sw.portManager (h.processMasterError env r errorType errorCode).1 ∨
      Keeps env h (h.processMasterError env r errorType errorCode).1 := by
  unfold processMasterError
  extract_lets outcome
  have houtcome : Activates h sw.portManager outcome.1 ∨ Keeps env h outcome.1 := by
    unfold outcome
    split
    · exact reassertRole_cases hsw hrole hrequested .master
    · split
      · refine .inr ⟨rfl, hrequested, rfl, rfl, ?_⟩
        rw [hsw]
        rfl
      · exact .inr (.refl hrequested)
  obtain ⟨h₁, e | _⟩ := outcome
  · exact houtcome
  · exact houtcome.imp (fun ha => ha.emit trivial) fun hk => hk.emit_after trivial

section

variable {state : ChannelState} (hsw : h.sw = some sw) (hrole : env.role ≠ .slave)
  (hrequested : h.Requested env)
include hsw hrole hrequested

theorem processOFError_cases (hstate : state = .waitInitialRole ∨ state = .master)
    (errorType errorCode : BitVec 16) :
    Activates h sw.portManager (h.processOFError env r state errorType errorCode).1 ∨
      Keeps env h (h.processOFError env r state errorType errorCode).1 := by
  rcases deliverError_cases (r := r) hsw hrole hrequested errorType with
    ⟨result, heq, hne⟩ | ⟨hactivates, hne⟩
  · rcases hstate with rfl | rfl
    · dsimp only [processOFError]
      rw [heq]
      obtain e | ⟨_ | _⟩ := result <;> exact .inr (.refl hrequested)
    · dsimp only [processOFError]
      rw [heq]
      obtain e | ⟨_ | _⟩ := result
      · exact .inr (.refl hrequested)
      · exact processMasterError_cases hsw hrole hrequested errorType errorCode
      · exact absurd rfl hne
  · -- the error answers the request, so the state does not matter
    rcases hstate with rfl | rfl <;>
      (dsimp only [processOFError]
       generalize h.deliverError env r errorType = outcome at hactivates hne ⊢
       obtain ⟨h₁, e | ⟨_ | _⟩⟩ := outcome
       · exact .inl hactivates
       · exact absurd rfl hne
       · exact .inl hactivates)

/-- While the role is open or of a master, a message other than a PORT_STATUS leaves the
ports alone and says nothing about them. -/
theorem processMessage_cases (hbody : ∀ m, r.message.body ≠ .portStatus m)
    (hstate : state = .waitInitialRole ∨ state = .master) :
    Activates h sw.portManager (h.processMessage env r state).1 ∨
      Keeps env h (h.processMessage env r state).1 := by
  have hrefl : Keeps env h h := .refl hrequested
  unfold processMessage
  cases hmessage : r.message.body with
  | error errorType errorCode =>
    exact processOFError_cases hsw hrole hrequested hstate errorType errorCode
  | portStatus m => exact absurd hmessage (hbody m)
  | echoRequest => exact .inr (.emit hrequested trivial)
  | vendor roleReply =>
    rcases hstate with rfl | rfl
    · exact processRoleReply_cases hsw hrole hrequested roleReply hrefl
    · exact processRoleReply_cases hsw hrole hrequested roleReply (.emit hrequested trivial)
  | featuresReply | flowRemoved | packetIn | statsReply =>
    rcases hstate with rfl | rfl
    · exact .inr hrefl
    · exact .inr (.emit hrequested trivial)
  | _ => rcases hstate with rfl | rfl <;> exact .inr hrefl

end

/-! ### Port status messages -/

def ChannelSwitch.apply (env : ChannelEnvironment T D) (sw : ChannelSwitch D) (m : OFPortStatus) :
    ChannelSwitch D :=
  { sw with portManager := sw.portManager.run env.ports [.handlePortStatusMessage m] }

/-- A PORT_STATUS message changes the ports, and nothing else. -/
structure Applies (env : ChannelEnvironment T D) (m : OFPortStatus) (h h' : OFChannelHandler D)
    (sw : ChannelSwitch D) : Prop where
  state : h'.state = h.state
  sw : h'.sw = some (ChannelSwitch.apply env sw m)
  roleChanger : h'.roleChanger = h.roleChanger
  featuresReply : h'.featuresReply = h.featuresReply
  pending : h'.pendingPortStatusMsg = h.pendingPortStatusMsg
  activations : h'.activations = h.activations

theorem handlePortStatusMessage_applies (hsw : h.sw = some sw) (m : OFPortStatus)
    (doNotify : Bool) : Applies env m h (h.handlePortStatusMessage env m doNotify).1 sw := by
  unfold handlePortStatusMessage
  rw [hsw]
  dsimp only
  cases hresult : sw.portManager.handlePortStatusMessage env.ports m with
  | error e =>
    refine ⟨rfl, ?_, rfl, rfl, rfl, rfl⟩
    simp only [ChannelSwitch.apply, PortManager.run, PortManager.call, foldl_cons,
      foldl_nil, hresult]
    exact hsw
  | ok result =>
    have happly : ChannelSwitch.apply env sw m = { sw with portManager := result.1 } := by
      simp only [ChannelSwitch.apply, PortManager.run, PortManager.call, foldl_cons,
        foldl_nil, hresult]
    have hsome := congrArg some happly.symm
    cases doNotify with
    | false => exact ⟨rfl, hsome, rfl, rfl, rfl, rfl⟩
    | true =>
      refine ⟨rfl, hsome, rfl, rfl, rfl, ?_⟩
      simp [activations, filterMap_append, filterMap_map]

theorem handlePortStatusMessage_notifies (hsw : h.sw = some sw) (m : OFPortStatus) :
    (h.handlePortStatusMessage env m true).1.notifications =
      h.notifications ++ sw.portManager.changes env.ports m := by
  unfold handlePortStatusMessage PortManager.changes
  rw [hsw]
  dsimp only
  cases sw.portManager.handlePortStatusMessage env.ports m with
  | error e => exact (append_nil _).symm
  | ok result =>
    simp [notifications, filterMap_append, filterMap_map]

/-! ### The handshake -/

variable {g : PortsReceived}

/-- Nothing has been activated or requested yet. -/
def Quiet (h : OFChannelHandler D) : Prop :=
  h.activations = [] ∧ h.roleChanger.requestPending = false

/-- How the handler has the ports, by its state. -/
def Follows (env : ChannelEnvironment T D) (g : PortsReceived) (h : OFChannelHandler D) : Prop :=
  match h.state with
  | .init | .slave => False
  | .waitHello | .waitFeaturesReply => h.Quiet ∧ h.pendingPortStatusMsg = []
  | .waitSetL2TableReply | .waitConfigReply | .waitDescriptionStatReply =>
    h.Quiet ∧ h.featuresReply = g.reply ∧ h.pendingPortStatusMsg = g.statuses
  | .waitSwitchDriverSubHandshake =>
    h.Quiet ∧ ∃ sw, h.sw = some sw ∧ g.Gives env sw.portManager
  | .waitInitialRole =>
    h.activations = [] ∧ h.Requested env ∧ ∃ sw, h.sw = some sw ∧ g.Gives env sw.portManager
  | .master => h.activations ≠ [] ∧ h.Requested env ∧ h.sw ≠ none

/-- A step from `h` to `h'` after which `g` has been received: a first activation
has the ports that `g` gives. -/
structure Tracks (env : ChannelEnvironment T D) (g : PortsReceived) (h h' : OFChannelHandler D) :
    Prop where
  follows : Follows env g h'
  first : h.activations = [] → ∀ ports ∈ h'.activations.head?, g.Gives env ports

/-- Only outputs and the ids of the handshake have changed. -/
structure Unmoved (h h' : OFChannelHandler D) : Prop where
  state : h'.state = h.state
  sw : h'.sw = h.sw
  roleChanger : h'.roleChanger = h.roleChanger
  featuresReply : h'.featuresReply = h.featuresReply
  pending : h'.pendingPortStatusMsg = h.pendingPortStatusMsg
  activations : h'.activations = h.activations

theorem Unmoved.refl : Unmoved h h := ⟨rfl, rfl, rfl, rfl, rfl, rfl⟩

theorem Unmoved.emit (hplain : Plain output) :
    Unmoved h (h.emit output) :=
  ⟨rfl, rfl, rfl, rfl, rfl, activations_emit hplain⟩

theorem Unmoved.trans (hu : Unmoved h h') (hu' : Unmoved h' h'') : Unmoved h h'' :=
  ⟨hu'.state.trans hu.state, hu'.sw.trans hu.sw, hu'.roleChanger.trans hu.roleChanger,
    hu'.featuresReply.trans hu.featuresReply, hu'.pending.trans hu.pending,
    hu'.activations.trans hu.activations⟩

theorem Unmoved.follows (hu : Unmoved h h') (hf : Follows env g h) : Follows env g h' := by
  unfold Follows Quiet Requested at *
  rw [hu.state, hu.sw, hu.roleChanger, hu.featuresReply, hu.pending, hu.activations]
  exact hf

theorem head?_eq_none (hfirst : h.activations = []) (hsame : h'.activations = h.activations)
    {ports : PortManager} (hports : ports ∈ h'.activations.head?) : False := by
  rw [hsame, hfirst] at hports
  cases hports

theorem Tracks.of_same (hf : Follows env g h') (hsame : h'.activations = h.activations) :
    Tracks env g h h' :=
  ⟨hf, fun hfirst _ hports => (head?_eq_none hfirst hsame hports).elim⟩

theorem Unmoved.tracks (hu : Unmoved h h') (hf : Follows env g h) : Tracks env g h h' :=
  .of_same (hu.follows hf) hu.activations

theorem Tracks.unmoved (ht : Tracks env g h h') (hu : Unmoved h' h'') : Tracks env g h h'' :=
  ⟨hu.follows ht.follows, by rw [hu.activations]; exact ht.first⟩

theorem Activates.tracks (ha : Activates h ports h')
    (hgives : h.activations = [] → g.Gives env ports) : Tracks env g h h' := by
  refine ⟨?_, fun hfirst pm hpm => ?_⟩
  · unfold Follows
    rw [ha.state]
    refine ⟨by simp [ha.activations], fun hpending => ?_, ?_⟩
    · rw [ha.pending] at hpending
      cases hpending
    · obtain ⟨sw, hsw, -⟩ := ha.sw
      rw [hsw]
      exact some_ne_none sw
  · rw [ha.activations, hfirst] at hpm
    obtain rfl : ports = pm := some.inj hpm
    exact hgives hfirst

theorem logErrorDisconnect_unmoved (errorType errorCode : BitVec 16) :
    Unmoved h (h.logErrorDisconnect errorType errorCode).1 := by
  unfold logErrorDisconnect
  split
  · exact .refl
  · exact .emit trivial

theorem Quiet.checkTimeout (hq : h.Quiet) : h.checkTimeout env r = (h, .ok ()) := by
  unfold OFChannelHandler.checkTimeout timedOut
  rw [hq.2]
  rfl

theorem processMessage_waitHello (hbody : r.message.body ≠ .hello) :
    Unmoved h (h.processMessage env r .waitHello).1 := by
  unfold processMessage
  cases hmessage : r.message.body with
  | hello => exact absurd hmessage hbody
  | echoRequest => exact .emit trivial
  | error errorType errorCode => exact logErrorDisconnect_unmoved errorType errorCode
  | _ => exact .refl

theorem processMessage_waitFeaturesReply
    (hbody : ∀ reply tables, r.message.body ≠ .featuresReply reply tables) :
    Unmoved h (h.processMessage env r .waitFeaturesReply).1 := by
  unfold processMessage
  cases hmessage : r.message.body with
  | featuresReply reply tables => exact absurd hmessage (hbody reply tables)
  | echoRequest => exact .emit trivial
  | error errorType errorCode => exact logErrorDisconnect_unmoved errorType errorCode
  | _ => exact .refl

/-- The states in which PORT_STATUS messages are kept. -/
def Keeping (state : ChannelState) : Prop :=
  state = .waitSetL2TableReply ∨ state = .waitConfigReply ∨ state = .waitDescriptionStatReply

/-- Between two states in which PORT_STATUS messages are kept. -/
structure Advances (h h' : OFChannelHandler D) : Prop where
  state : Keeping h'.state
  roleChanger : h'.roleChanger = h.roleChanger
  featuresReply : h'.featuresReply = h.featuresReply
  pending : h'.pendingPortStatusMsg = h.pendingPortStatusMsg
  activations : h'.activations = h.activations

theorem Unmoved.advances (hu : Unmoved h h') (hstate : Keeping h.state) : Advances h h' :=
  ⟨hu.state ▸ hstate, hu.roleChanger, hu.featuresReply, hu.pending, hu.activations⟩

variable {state : ChannelState}

theorem Unmoved.setState (hu : Unmoved h h') (hstate : Keeping state) :
    Advances h (h'.setState state) :=
  ⟨hstate, hu.roleChanger, hu.featuresReply, hu.pending, hu.activations⟩

theorem sendHandShakeMessage_unmoved (type : OFType) : Unmoved h (h.sendHandShakeMessage type) :=
  have hplain : Plain (.write type h.handshakeTransactionIds) := trivial
  ⟨rfl, rfl, rfl, rfl, rfl, activations_emit (h := h) hplain⟩

theorem sendHandshakeSetConfig_unmoved : Unmoved h h.sendHandshakeSetConfig :=
  ((sendHandShakeMessage_unmoved _).trans (sendHandShakeMessage_unmoved _)).trans
    (sendHandShakeMessage_unmoved _)

theorem follows_of_keeping (hstate : Keeping h.state) :
    Follows env g h ↔
      h.Quiet ∧ h.featuresReply = g.reply ∧ h.pendingPortStatusMsg = g.statuses := by
  unfold Follows
  rcases hstate with heq | heq | heq <;> rw [heq]

theorem Advances.tracks (ha : Advances h h') (hstate : Keeping h.state) (hf : Follows env g h) :
    Tracks env g h h' := by
  refine .of_same ?_ ha.activations
  rw [follows_of_keeping hstate] at hf
  rw [follows_of_keeping ha.state, Quiet, ha.activations, ha.roleChanger, ha.featuresReply,
    ha.pending]
  exact hf

/-- Only a PORT_STATUS message, or the description of the switch, is of interest
while PORT_STATUS messages are kept. -/
theorem processMessage_keeping (hstate : Keeping state) (hsame : h.state = state)
    (hportStatus : ∀ m, r.message.body ≠ .portStatus m)
    (hdescription : state = .waitDescriptionStatReply →
      ∀ description, r.message.body ≠ .statsReply (some description)) :
    Advances h (h.processMessage env r state).1 := by
  have hrefl : Advances h h := Unmoved.refl.advances (hsame ▸ hstate)
  have hemit : ∀ {output : ChannelOutput}, Plain output → Advances h (h.emit output) :=
    fun hplain => (Unmoved.emit hplain).advances (hsame ▸ hstate)
  have herror : ∀ errorType errorCode, Advances h (h.logErrorDisconnect errorType errorCode).1 :=
    fun errorType errorCode =>
      (logErrorDisconnect_unmoved errorType errorCode).advances (hsame ▸ hstate)
  unfold processMessage
  cases hmessage : r.message.body with
  | portStatus m => exact absurd hmessage (hportStatus m)
  | echoRequest => exact hemit trivial
  | error errorType errorCode =>
    rcases hstate with rfl | rfl | rfl
    · exact herror errorType errorCode
    · dsimp only [processOFError]
      split
      · exact hrefl
      · exact herror errorType errorCode
    · exact herror errorType errorCode
  | getConfigReply =>
    rcases hstate with rfl | rfl | rfl
    · exact hrefl
    · exact (sendHandShakeMessage_unmoved _).setState (.inr (.inr rfl))
    · exact hrefl
  | vendor roleReply =>
    rcases hstate with rfl | rfl | rfl
    · exact sendHandshakeSetConfig_unmoved.setState (.inr (.inl rfl))
    · exact hrefl
    · exact hrefl
  | statsReply description =>
    rcases hstate with rfl | rfl | rfl
    · exact hrefl
    · exact hrefl
    · cases description with
      | none => exact hrefl
      | some description => exact absurd hmessage (hdescription rfl description)
  | _ => rcases hstate with rfl | rfl | rfl <;> exact hrefl

/-- While the role is open, what leaves the ports alone leaves them as they
are known. -/
theorem Keeps.follows_waitInitialRole (hk : Keeps env h h') (hstate : h.state = .waitInitialRole)
    (hnone : h.activations = []) (hsw : h.sw = some sw) (hgives : g.Gives env sw.portManager) :
    Follows env g h' := by
  unfold Follows
  rw [hk.state, hstate]
  refine ⟨hk.activations.trans hnone, hk.role, ?_⟩
  have hports := hk.ports.trans (congrArg (Option.map ChannelSwitch.portManager) hsw)
  obtain ⟨sw', hsw', heq⟩ := map_eq_some_iff.mp hports
  exact ⟨sw', hsw', heq ▸ hgives⟩

theorem gotoWaitInitialRoleState_tracks (hrole : env.role ≠ .slave) (hquiet : h.Quiet)
    (hsw : h.sw = some sw) (hgives : g.Gives env sw.portManager) :
    Tracks env g h (h.gotoWaitInitialRoleState env r).1 := by
  rcases sendRoleRequest_cases (h := h.setState .waitInitialRole) (r := r) hsw hrole with
    hactivates | hkeeps
  · have htracks : Tracks env g (h.setState .waitInitialRole) _ :=
      hactivates.tracks fun _ => hgives
    exact ⟨htracks.follows, htracks.first⟩
  · exact .of_same (hkeeps.follows_waitInitialRole rfl hquiet.1 hsw hgives) hkeeps.activations

theorem handlePending_spec (env : ChannelEnvironment T D) (hsw : h.sw = some sw)
    (pending : List OFPortStatus) :
    (h.handlePending env pending).1.state = h.state ∧
    (h.handlePending env pending).1.roleChanger = h.roleChanger ∧
    (h.handlePending env pending).1.featuresReply = h.featuresReply ∧
    (h.handlePending env pending).1.pendingPortStatusMsg = h.pendingPortStatusMsg ∧
    (h.handlePending env pending).1.activations = h.activations ∧
    ∃ sw', (h.handlePending env pending).1.sw = some sw' ∧
      ((h.handlePending env pending).2 = .ok () → sw'.portManager =
        sw.portManager.run env.ports (pending.map .handlePortStatusMessage)) := by
  induction pending generalizing h sw with
  | nil => exact ⟨rfl, rfl, rfl, rfl, rfl, sw, hsw, fun _ => rfl⟩
  | cons ps pending ih =>
    have happlies : Applies env ps h (h.handlePortStatusMessage env ps false).1 sw :=
      handlePortStatusMessage_applies hsw ps false
    unfold handlePending
    generalize h.handlePortStatusMessage env ps false = outcome at happlies ⊢
    obtain ⟨h₁, e | _⟩ := outcome
    · exact ⟨happlies.state, happlies.roleChanger, happlies.featuresReply, happlies.pending,
        happlies.activations, _, happlies.sw, fun hok => nomatch hok⟩
    · obtain ⟨hstate, hroleChanger, hfeatures, hpending, hactivations, sw', hsw', hports⟩ :=
        ih happlies.sw
      exact ⟨hstate.trans happlies.state, hroleChanger.trans happlies.roleChanger,
        hfeatures.trans happlies.featuresReply, hpending.trans happlies.pending,
        hactivations.trans happlies.activations, sw', hsw', hports⟩

theorem bindSwitch_tracks (hrole : env.role ≠ .slave)
    (hstate : h.state = .waitDescriptionStatReply) (hf : Follows env g h) (description : T) :
    Tracks env g h (h.bindSwitch env r description).1 := by
  have hkeeping : Keeping h.state := .inr (.inr hstate)
  obtain ⟨hquiet, hfeatures, hpending⟩ := (follows_of_keeping hkeeping).mp hf
  unfold bindSwitch
  obtain ⟨driver, supportsNxRole⟩ := env.drivers.getOFSwitchInstance description
  dsimp only
  split
  · exact Advances.tracks ⟨hkeeping, rfl, rfl, rfl, rfl⟩ hkeeping hf
  next reply hreply =>
    split
    · exact Advances.tracks ⟨hkeeping, rfl, rfl, rfl, rfl⟩ hkeeping hf
    next start hstart =>
      obtain ⟨hst, hroleChanger, hfe, hpe, hactivations, sw', hsw', hports⟩ :=
        handlePending_spec (h := { h with
          sw := some ⟨start, driver, supportsNxRole, none, false⟩ }) env rfl h.pendingPortStatusMsg
      split
      next heq =>
        rw [heq] at hst hroleChanger hfe hpe hactivations
        exact Advances.tracks ⟨hst ▸ hkeeping, hroleChanger, hfe, hpe, hactivations⟩ hkeeping hf
      next h₁ heq =>
        rw [heq] at hst hroleChanger hfe hpe hactivations hsw' hports
        dsimp only at hst hroleChanger hfe hpe hactivations hsw' hports ⊢
        have hgives : g.Gives env sw'.portManager :=
          ⟨reply, start, hfeatures.symm.trans hreply, hstart, by rw [hports rfl, hpending]⟩
        have hquiet₁ : h₁.Quiet :=
          ⟨hactivations.trans hquiet.1, by rw [hroleChanger]; exact hquiet.2⟩
        rw [hsw']
        dsimp only
        split
        · have htracks := gotoWaitInitialRoleState_tracks (r := r) (h := { h₁ with
            pendingPortStatusMsg := []
            sw := some { sw' with driver := env.drivers.startDriverHandshake sw'.driver } })
            hrole hquiet₁ rfl hgives
          exact ⟨htracks.follows, fun _ => htracks.first hquiet₁.1⟩
        · exact .of_same ⟨hquiet₁, _, rfl, hgives⟩ hactivations

/-! ### One message -/

theorem Gives.apply {m : OFPortStatus} (hgives : g.Gives env sw.portManager) :
    PortsReceived.Gives env { g with statuses := g.statuses ++ [m] }
      (ChannelSwitch.apply env sw m).portManager := by
  obtain ⟨reply, start, hreply, hstart, heq⟩ := hgives
  refine ⟨reply, start, hreply, hstart, ?_⟩
  simp only [ChannelSwitch.apply, heq, PortManager.run, map_append, foldl_append,
    map_cons, map_nil]

theorem note_of_ne {body : MessageBody T} (hportStatus : ∀ m, body ≠ .portStatus m)
    (hstate : state ≠ .waitFeaturesReply) : g.note state body = g := by
  cases body with
  | portStatus m => exact absurd rfl (hportStatus m)
  | featuresReply => exact if_neg hstate
  | _ => rfl

theorem Activates.requested (ha : Activates h ports h') : h'.Requested env := by
  intro hpending
  rw [ha.pending] at hpending
  cases hpending

theorem follows_master (hstate : h.state = .master) :
    Follows env g h ↔ h.activations ≠ [] ∧ h.Requested env ∧ h.sw ≠ none := by
  unfold Follows
  rw [hstate]

theorem Tracks.master (ht : Tracks env g h h') (hmaster : h'.state = .master)
    (hcases : Activates h' ports h'' ∨ Keeps env h' h'') : Tracks env g h h'' := by
  obtain ⟨hne, -, hsome⟩ := (follows_master hmaster).mp ht.follows
  have hhead : h''.activations.head? = h'.activations.head? := by
    rcases hcases with ha | hk
    · rw [ha.activations, List.head?_append_of_ne_nil _ hne]
    · rw [hk.activations]
  refine ⟨?_, by rw [hhead]; exact ht.first⟩
  rcases hcases with ha | hk
  · exact (ha.tracks fun hnil => absurd hnil hne).follows
  · refine (follows_master (hk.state.trans hmaster)).mpr
      ⟨by rw [hk.activations]; exact hne, hk.role, fun hnone => hsome ?_⟩
    have hports := hk.ports
    rw [hnone] at hports
    exact map_eq_none_iff.mp hports.symm

theorem processDriverMessage_tracks (hrole : env.role ≠ .slave)
    (hstate : h.state = .waitSwitchDriverSubHandshake) (hf : Follows env g h) :
    Tracks env g h (h.processDriverMessage env r).1 := by
  have hcases := hf
  unfold Follows at hcases
  rw [hstate] at hcases
  obtain ⟨hquiet, sw, hsw, hgives⟩ := hcases
  have hplain : Plain (.write .echoReply r.message.xid) := trivial
  have hecho : Tracks env g h (h.processOFEchoRequest r).1 := (Unmoved.emit hplain).tracks hf
  have hdriver (driver : D) : Follows env g { h with sw := some { sw with driver := driver } } := by
    unfold Follows
    dsimp only
    rw [hstate]
    exact ⟨hquiet, _, rfl, hgives⟩
  unfold processDriverMessage
  split
  · exact hecho
  · rw [hsw]
    dsimp only
    generalize env.drivers.processDriverHandshakeMessage sw.driver r.message = outcome
    obtain ⟨driver, e | _⟩ := outcome
    · exact .of_same (hdriver driver) rfl
    · dsimp only
      split
      · have htracks := gotoWaitInitialRoleState_tracks (r := r) (h := { h with
          sw := some { sw with driver := driver } }) hrole hquiet rfl hgives
        exact ⟨htracks.follows, htracks.first⟩
      · exact .of_same (hdriver driver) rfl

/-- A PORT_STATUS message is applied while the role is open, and passed on by a
master. -/
theorem processMessage_portStatus {m : OFPortStatus} (hm : r.message.body = .portStatus m) :
    h.processMessage env r .waitInitialRole = h.handlePortStatusMessage env m false ∧
      h.processMessage env r .master = h.handlePortStatusMessage env m true := by
  unfold processMessage
  rw [hm]
  exact ⟨rfl, rfl⟩

theorem waitInitialRole_tracks (hrole : env.role ≠ .slave) (hstate : h.state = .waitInitialRole)
    (hheard : h.Heard r) (hf : Follows env g h) :
    Tracks env (g.note h.state r.message.body) h (h.processOFMessage env r).1 := by
  have hcases := hf
  unfold Follows at hcases
  rw [hstate] at hcases
  obtain ⟨hnone, hrequested, sw, hsw, hgives⟩ := hcases
  unfold processOFMessage
  rw [hstate]
  dsimp only
  by_cases hportStatus : ∃ m, r.message.body = .portStatus m
  · -- it is applied, since there is no time-out
    obtain ⟨m, hm⟩ := hportStatus
    have htime : h.timedOut r = false := by
      have hnot := (hheard m hm).2
      rw [hstate] at hnot
      simpa using hnot
    rw [checkTimeout, htime]
    have happlies : Applies env m h (h.handlePortStatusMessage env m false).1 sw :=
      handlePortStatusMessage_applies hsw m false
    rw [if_neg Bool.false_ne_true]
    dsimp only
    rw [(processMessage_portStatus hm).1, hm]
    refine .of_same ?_ happlies.activations
    unfold Follows
    rw [happlies.state, hstate]
    refine ⟨happlies.activations.trans hnone, ?_, _, happlies.sw, Gives.apply hgives⟩
    rw [Requested, happlies.roleChanger]
    exact hrequested
  · have hother : ∀ m, r.message.body ≠ .portStatus m := fun m hm => hportStatus ⟨m, hm⟩
    rw [note_of_ne hother (by decide)]
    rcases checkTimeout_cases (r := r) hsw hrole hrequested with ⟨-, hactivates⟩ | ⟨-, heq⟩
    · -- the switch is activated, and then the message is handled
      have htracks : Tracks env g h _ := hactivates.tracks fun _ => hgives
      generalize h.checkTimeout env r = outcome at hactivates htracks ⊢
      obtain ⟨h₁, e | _⟩ := outcome
      · exact htracks
      · obtain ⟨sw₁, hsw₁, -⟩ := hactivates.sw
        exact htracks.master hactivates.state
          (processMessage_cases hsw₁ hrole hactivates.requested hother (.inl rfl))
    · rw [heq]
      dsimp only
      rcases processMessage_cases hsw hrole hrequested hother (.inl rfl) with hactivates | hkeeps
      · exact hactivates.tracks fun _ => hgives
      · exact .of_same (hkeeps.follows_waitInitialRole hstate hnone hsw hgives)
          hkeeps.activations

/-- After a time-out there is still a master, with the same ports, and nothing
has been passed on. -/
theorem checkTimeout_master (hrole : env.role ≠ .slave) (hstate : h.state = .master)
    (hne : h.activations ≠ []) (hrequested : h.Requested env) (hsw : h.sw = some sw) :
    ∃ h₁ sw₁, h.checkTimeout env r = (h₁, .ok ()) ∧ h₁.state = .master ∧
      h₁.activations ≠ [] ∧ h₁.Requested env ∧ h₁.sw = some sw₁ ∧
      sw₁.portManager = sw.portManager ∧ h₁.notifications = h.notifications := by
  rcases checkTimeout_cases (r := r) hsw hrole hrequested with ⟨htime, hactivates⟩ | ⟨-, heq⟩
  · obtain ⟨sw₁, hsw₁, hports⟩ := hactivates.sw
    have hpending := hrequested (Bool.and_eq_true_iff.mp htime).1
    have hok : (h.checkTimeout env r).2 = .ok () := by
      rw [checkTimeout, if_pos htime]
      refine (setSwitchRole_spec hsw ?_ _).2 hne
      rw [hpending]
      exact fun heq => hrole (some.inj heq)
    exact ⟨_, sw₁, Prod.ext rfl hok, hactivates.state, by simp [hactivates.activations],
      hactivates.requested, hsw₁, hports hne, hactivates.notifications⟩
  · exact ⟨h, sw, heq, hstate, hne, hrequested, hsw, rfl, rfl⟩

theorem master_step (hrole : env.role ≠ .slave) (hstate : h.state = .master)
    (hf : Follows env g h) :
    Follows env (g.note h.state r.message.body) (h.processOFMessage env r).1 ∧
      (h.processOFMessage env r).1.notifications = h.notifications ++ caused env h r := by
  obtain ⟨hne, hrequested, hsome⟩ := (follows_master hstate).mp hf
  obtain ⟨sw, hsw⟩ := ne_none_iff_exists'.mp hsome
  obtain ⟨h₁, sw₁, heq, hstate₁, hne₁, hrequested₁, hsw₁, hports, hnotifications⟩ :=
    checkTimeout_master (r := r) hrole hstate hne hrequested hsw
  unfold processOFMessage
  rw [hstate]
  dsimp only
  rw [heq]
  dsimp only
  by_cases hportStatus : ∃ m, r.message.body = .portStatus m
  · obtain ⟨m, hm⟩ := hportStatus
    have happlies : Applies env m h₁ (h₁.handlePortStatusMessage env m true).1 sw₁ :=
      handlePortStatusMessage_applies hsw₁ m true
    have hcaused : caused env h r = sw.portManager.changes env.ports m := by
      unfold caused
      rw [hm, hsw]
    rw [(processMessage_portStatus hm).2, hcaused, handlePortStatusMessage_notifies hsw₁,
      hnotifications, hports]
    refine ⟨(follows_master (happlies.state.trans hstate₁)).mpr ⟨?_, ?_, ?_⟩, rfl⟩
    · rw [happlies.activations]
      exact hne₁
    · rw [Requested, happlies.roleChanger]
      exact hrequested₁
    · rw [happlies.sw]
      exact some_ne_none _
  · have hother : ∀ m, r.message.body ≠ .portStatus m := fun m hm => hportStatus ⟨m, hm⟩
    have hcaused : caused env h r = [] := by
      unfold caused
      split
      next m _ hm _ => exact absurd hm (hother m)
      next => rfl
    have hstep := processMessage_cases hsw₁ hrole hrequested₁ hother (.inr rfl)
    have htracks : Tracks env (g.note .master r.message.body) h₁ h₁ :=
      .of_same ((follows_master hstate₁).mpr
        ⟨hne₁, hrequested₁, by rw [hsw₁]; exact some_ne_none sw₁⟩) rfl
    refine ⟨(htracks.master hstate₁ hstep).follows, ?_⟩
    rw [hcaused, append_nil, ← hnotifications]
    exact hstep.elim Activates.notifications Keeps.notifications

theorem follows_of_early (hstate : h.state = .waitHello ∨ h.state = .waitFeaturesReply) :
    Follows env g h ↔ h.Quiet ∧ h.pendingPortStatusMsg = [] := by
  unfold Follows
  rcases hstate with heq | heq <;> rw [heq]

theorem early_tracks (hstate : h.state = .waitHello ∨ h.state = .waitFeaturesReply)
    (hf : Follows env g h) :
    Tracks env (g.note h.state r.message.body) h (h.processOFMessage env r).1 := by
  obtain ⟨hquiet, hpending⟩ := (follows_of_early hstate).mp hf
  have hany : ∀ g : PortsReceived, Follows env g h :=
    fun _ => (follows_of_early hstate).mpr ⟨hquiet, hpending⟩
  unfold processOFMessage
  rcases hstate with heq | heq
  · rw [heq]
    dsimp only
    rw [hquiet.checkTimeout]
    dsimp only
    by_cases hbody : r.message.body = .hello
    · unfold processMessage
      rw [hbody]
      have hunmoved := sendHandShakeMessage_unmoved (h := h) .featuresRequest
      refine .of_same ⟨⟨hunmoved.activations.trans hquiet.1, hquiet.2⟩, hpending⟩
        hunmoved.activations
    · exact (processMessage_waitHello hbody).tracks (hany _)
  · rw [heq]
    dsimp only
    rw [hquiet.checkTimeout]
    dsimp only
    by_cases hbody : ∃ reply tables, r.message.body = .featuresReply reply tables
    · obtain ⟨reply, tables, hbody⟩ := hbody
      unfold processMessage
      rw [hbody]
      have hunmoved : Unmoved { h with featuresReply := some reply }
          (if 1 < tables.toInt then
            { h with featuresReply := some reply }.sendHandShakeMessage .vendor
          else { h with featuresReply := some reply }).sendHandshakeSetConfig := by
        split
        · exact (sendHandShakeMessage_unmoved _).trans sendHandshakeSetConfig_unmoved
        · exact sendHandshakeSetConfig_unmoved
      have hrequest := congrArg RoleChanger.requestPending hunmoved.roleChanger
      exact .of_same ⟨⟨hunmoved.activations.trans hquiet.1, hrequest.trans hquiet.2⟩,
        hunmoved.featuresReply, hunmoved.pending.trans hpending⟩ hunmoved.activations
    · refine (processMessage_waitFeaturesReply fun reply tables heq => ?_).tracks (hany _)
      exact hbody ⟨reply, tables, heq⟩

theorem keeping_tracks (hrole : env.role ≠ .slave) (hkeeping : Keeping h.state)
    (hf : Follows env g h) :
    Tracks env (g.note h.state r.message.body) h (h.processOFMessage env r).1 := by
  obtain ⟨hquiet, hfeatures, hpending⟩ := (follows_of_keeping hkeeping).mp hf
  have hprocess : h.processOFMessage env r = h.processMessage env r h.state := by
    unfold processOFMessage
    rcases hkeeping with heq | heq | heq <;>
    · rw [heq]
      dsimp only
      rw [hquiet.checkTimeout]
  rw [hprocess]
  by_cases hportStatus : ∃ m, r.message.body = .portStatus m
  · obtain ⟨m, hm⟩ := hportStatus
    -- the message is kept until the switch is there
    have hadd : ∀ state, Keeping state → h.processMessage env r state =
        ({ h with pendingPortStatusMsg := h.pendingPortStatusMsg ++ [m] }, .ok ()) := by
      rintro state (rfl | rfl | rfl) <;>
      · unfold processMessage
        rw [hm]
        rfl
    have hfollows : Follows env { g with statuses := g.statuses ++ [m] }
        { h with pendingPortStatusMsg := h.pendingPortStatusMsg ++ [m] } :=
      (follows_of_keeping (h := { h with
        pendingPortStatusMsg := h.pendingPortStatusMsg ++ [m] }) hkeeping).mpr
        ⟨hquiet, hfeatures, congrArg (· ++ [m]) hpending⟩
    rw [hadd _ hkeeping, hm]
    exact .of_same hfollows rfl
  · have hother : ∀ m, r.message.body ≠ .portStatus m := fun m hm => hportStatus ⟨m, hm⟩
    have hstate : h.state ≠ .waitFeaturesReply := by
      rcases hkeeping with heq | heq | heq <;> rw [heq] <;> decide
    rw [note_of_ne hother hstate]
    by_cases hdescription : h.state = .waitDescriptionStatReply ∧
        ∃ description, r.message.body = .statsReply (some description)
    · obtain ⟨hwait, description, hbody⟩ := hdescription
      have hbind : h.processMessage env r h.state = h.bindSwitch env r description := by
        unfold processMessage
        rw [hbody, hwait]
        rfl
      rw [hbind]
      exact bindSwitch_tracks hrole hwait hf description
    · refine (processMessage_keeping hkeeping rfl hother ?_).tracks hkeeping hf
      exact fun hwait description hbody => hdescription ⟨hwait, description, hbody⟩

/-- **One message.** -/
theorem processOFMessage_tracks (hrole : env.role ≠ .slave) (hheard : h.Heard r)
    (hf : Follows env g h) :
    Tracks env (g.note h.state r.message.body) h (h.processOFMessage env r).1 := by
  cases hstate : h.state with
  | init | slave =>
    unfold Follows at hf
    rw [hstate] at hf
    exact hf.elim
  | waitHello => exact hstate ▸ early_tracks (.inl hstate) hf
  | waitFeaturesReply => exact hstate ▸ early_tracks (.inr hstate) hf
  | waitSetL2TableReply => exact hstate ▸ keeping_tracks hrole (.inl hstate) hf
  | waitConfigReply => exact hstate ▸ keeping_tracks hrole (.inr (.inl hstate)) hf
  | waitDescriptionStatReply => exact hstate ▸ keeping_tracks hrole (.inr (.inr hstate)) hf
  | waitSwitchDriverSubHandshake =>
    have hother : ∀ m, r.message.body ≠ .portStatus m := fun m hm => (hheard m hm).1 hstate
    rw [note_of_ne hother (by decide)]
    unfold processOFMessage
    rw [hstate]
    exact processDriverMessage_tracks hrole hstate hf
  | waitInitialRole => exact hstate ▸ waitInitialRole_tracks hrole hstate hheard hf
  | master =>
    refine ⟨hstate ▸ (master_step hrole hstate hf).1, fun hnil => ?_⟩
    unfold Follows at hf
    rw [hstate] at hf
    exact absurd hnil hf.1

theorem messageReceived_unmoved (hbody : ¬ (r.message.body = .packetIn ∧ r.dropped = true)) :
    Unmoved (h.processOFMessage env r).1 (h.messageReceived env r) := by
  unfold messageReceived
  split
  next hpacketIn hdropped => exact absurd ⟨hpacketIn, hdropped⟩ hbody
  next =>
    generalize h.processOFMessage env r = outcome
    obtain ⟨h₁, e | _⟩ := outcome
    · exact .emit trivial
    · exact .refl

theorem messageReceived_tracks (hrole : env.role ≠ .slave) (hheard : h.Heard r)
    (hf : Follows env g h) :
    Tracks env (g.note h.state r.message.body) h (h.messageReceived env r) := by
  by_cases hbody : r.message.body = .packetIn ∧ r.dropped = true
  · have hsame : h.messageReceived env r = h := by
      unfold messageReceived
      rw [hbody.1, hbody.2]
    rw [hsame, hbody.1]
    exact .of_same hf rfl
  · exact (processOFMessage_tracks hrole hheard hf).unmoved (messageReceived_unmoved hbody)

theorem Follows.master_of_activated (hf : Follows env g h) (hne : h.activations ≠ []) :
    h.state = .master := by
  unfold Follows Quiet at hf
  split at hf
  all_goals first
    | assumption
    | exact hf.elim
    | exact absurd hf.1.1 hne
    | exact absurd hf.1 hne

theorem messageReceived_notifies (hrole : env.role ≠ .slave) (hstate : h.state = .master)
    (hf : Follows env g h) :
    (h.messageReceived env r).notifications = h.notifications ++ caused env h r := by
  unfold messageReceived
  split
  next hpacketIn _ =>
    rw [caused, hpacketIn]
    exact (append_nil _).symm
  next =>
    have hnotified := (master_step (r := r) hrole hstate hf).2
    generalize h.processOFMessage env r = outcome at hnotified ⊢
    obtain ⟨h₁, e | _⟩ := outcome
    · have hplain : Plain .close := trivial
      exact (notifications_emit hplain).trans hnotified
    · exact hnotified

/-! ### Connections -/

variable {rs : List (Reception T)}

theorem AllHeard.run (hrole : env.role ≠ .slave) (hheard : h.AllHeard env rs)
    (hf : Follows env g h) :
    Follows env (received env rs h g) (h.run env rs) := by
  induction rs generalizing h g with
  | nil => exact hf
  | cons r rs ih => exact ih hheard.2 (messageReceived_tracks hrole hheard.1 hf).follows

theorem allHeard_append :
    h.AllHeard env (rs ++ [r]) ↔ h.AllHeard env rs ∧ (h.run env rs).Heard r := by
  induction rs generalizing h with
  | nil => exact and_comm
  | cons r' rs ih => exact (and_congr_right' ih).trans and_assoc.symm

theorem received_append :
    received env (rs ++ [r]) h g =
      (received env rs h g).note (h.run env rs).state r.message.body := by
  induction rs generalizing h g with
  | nil => rfl
  | cons r' rs ih => exact ih

def connected : OFChannelHandler D := new.channelConnected

theorem follows_connected : Follows env ⟨none, []⟩ (connected : OFChannelHandler D) :=
  ⟨⟨rfl, rfl⟩, rfl⟩

end OFChannelHandler

open OFChannelHandler in
/-- **No port change is missed.**  In every run in which the PORT_STATUS messages
are heard, with one more message: if the switch is activated for the first time,
then with the ports of its features reply and all PORT_STATUS messages since
then; and if it has been activated before, then the handler is a master, and the
changes that the message causes are passed on, once and in order. -/
theorem port_changes_not_missed {env : ChannelEnvironment T D} (hrole : env.role = .master)
    {rs : List (Reception T)} {r : Reception T} (hheard : connected.AllHeard env (rs ++ [r])) :
    ((connected.run env rs).activations = [] →
      ∀ ports ∈ ((connected.run env rs).messageReceived env r).activations.head?,
        (received env (rs ++ [r]) connected ⟨none, []⟩).Gives env ports) ∧
    ((connected.run env rs).activations ≠ [] →
      (connected.run env rs).state = .master ∧
      ((connected.run env rs).messageReceived env r).notifications =
        (connected.run env rs).notifications ++ caused env (connected.run env rs) r) := by
  have hslave : env.role ≠ .slave := by
    rw [hrole]
    decide
  obtain ⟨hrs, hr⟩ := allHeard_append.mp hheard
  have hf := hrs.run hslave follows_connected
  refine ⟨?_, fun hne => ?_⟩
  · rw [received_append]
    exact (messageReceived_tracks hslave hr hf).first
  · have hmaster := hf.master_of_activated hne
    refine ⟨hmaster, ?_⟩
    exact messageReceived_notifies hslave hmaster hf

/-! ### Connections that keep up, and messages that fall through -/

def vendorDriver (waits : Bool) : SwitchDrivers Unit Bool where
  getOFSwitchInstance := fun _ => if waits then (false, some false) else (true, none)
  startDriverHandshake := fun d => d
  isDriverHandshakeComplete := fun d => d
  processDriverHandshakeMessage := fun d m =>
    match m.body with
    | .vendor _ => (true, .ok ())
    | _ => (d, .ok ())

/-- A switch whose driver waits for a vendor message, or that has no driver. -/
noncomputable def vendorEnvironment (waits : Bool) : ChannelEnvironment Unit Bool :=
  ⟨environmentOf englishCase, vendorDriver waits, .master⟩

def messageAt (now : ℤ) (body : MessageBody Unit) : Reception Unit :=
  ⟨⟨0, body⟩, now, now, 5, none, false⟩

def portlessHandshake : List (Reception Unit) :=
  [messageAt 0 .hello, messageAt 0 (.featuresReply ⟨7, []⟩ 1), messageAt 0 .getConfigReply,
    messageAt 0 (.statsReply (some ()))]

def portAdded : OFPortStatus := ⟨0, some ⟨1, some 0, some "eth1", 0, 0, 0, 0, 0, 0⟩⟩

open OFChannelHandler in
theorem port_changes_not_missed_timeout :
    connected.AllHeard (vendorEnvironment false) (portlessHandshake ++
      [messageAt 1 (.portStatus portAdded)] ++ [messageAt 20000 .barrierReply]) ∧
    (connected.run (vendorEnvironment false)
      (portlessHandshake ++ [messageAt 1 (.portStatus portAdded)])).activations = [] ∧
    ∀ ports ∈ ((connected.run (vendorEnvironment false)
        (portlessHandshake ++ [messageAt 1 (.portStatus portAdded)])).messageReceived
        (vendorEnvironment false) (messageAt 20000 .barrierReply)).activations.head?,
      (received (vendorEnvironment false) (portlessHandshake ++
        [messageAt 1 (.portStatus portAdded)] ++ [messageAt 20000 .barrierReply]) connected
        ⟨none, []⟩).Gives (vendorEnvironment false) ports := by
  have hheard : connected.AllHeard (vendorEnvironment false) (portlessHandshake ++
      [messageAt 1 (.portStatus portAdded)] ++ [messageAt 20000 .barrierReply]) := by
    refine ⟨?_, ?_, ?_, ?_, fun m _ => ⟨?_, ?_⟩, ?_, trivial⟩
    · exact fun _ hbody => nomatch hbody
    · exact fun _ hbody => nomatch hbody
    · exact fun _ hbody => nomatch hbody
    · exact fun _ hbody => nomatch hbody
    · exact fun hstate => nomatch hstate
    · exact fun htime => Bool.false_ne_true htime.2
    · exact fun _ hbody => nomatch hbody
  have hnone : (connected.run (vendorEnvironment false)
      (portlessHandshake ++ [messageAt 1 (.portStatus portAdded)])).activations = [] := rfl
  exact ⟨hheard, hnone, (port_changes_not_missed rfl hheard).1 hnone⟩

namespace OFChannelHandler

theorem not_gives_of_missing {waits : Bool} {g : PortsReceived}
    (hreply : g.reply = some ⟨7, []⟩) (hstatuses : g.statuses = [portAdded]) :
    ¬ g.Gives (vendorEnvironment waits) .new := by
  rintro ⟨reply, start, hsome, hstart, heq⟩
  rw [hreply] at hsome
  cases hsome
  have hnew : start = ⟨[], [], [], ∅, ∅⟩ := (Except.ok.inj hstart).symm
  rw [hstatuses, hnew] at heq
  have hlookup := congrArg (fun pm : PortManager => (pm.portsByNumber.lookup 1).isSome) heq
  have hnone : (PortManager.new.portsByNumber.lookup 1).isSome = false := by decide
  have hsome : ((PortManager.run (environmentOf englishCase) ⟨[], [], [], ∅, ∅⟩
      [.handlePortStatusMessage portAdded]).portsByNumber.lookup 1).isSome = true := by
    decide +kernel
  exact Bool.false_ne_true (hnone.symm.trans (hlookup.trans hsome))

/-- The port shows up during the handshake of the driver, or when the initial
role request has timed out. -/
theorem port_change_missed :
    ((connected.run (vendorEnvironment true)
        (portlessHandshake ++ [messageAt 1 (.portStatus portAdded)])).activations = [] ∧
      ∃ ports, ((connected.run (vendorEnvironment true)
          (portlessHandshake ++ [messageAt 1 (.portStatus portAdded)])).messageReceived
          (vendorEnvironment true) (messageAt 2 (.vendor none))).activations.head? = some ports ∧
        ¬ (received (vendorEnvironment true) (portlessHandshake ++
          [messageAt 1 (.portStatus portAdded)] ++ [messageAt 2 (.vendor none)]) connected
          ⟨none, []⟩).Gives (vendorEnvironment true) ports) ∧
    ((connected.run (vendorEnvironment false) portlessHandshake).activations = [] ∧
      ∃ ports, ((connected.run (vendorEnvironment false) portlessHandshake).messageReceived
          (vendorEnvironment false)
          (messageAt 20000 (.portStatus portAdded))).activations.head? = some ports ∧
        ¬ (received (vendorEnvironment false) (portlessHandshake ++
          [messageAt 20000 (.portStatus portAdded)]) connected ⟨none, []⟩).Gives
          (vendorEnvironment false) ports ∧
        ((connected.run (vendorEnvironment false) portlessHandshake).messageReceived
          (vendorEnvironment false)
          (messageAt 20000 (.portStatus portAdded))).notifications = []) := by
  refine ⟨⟨rfl, .new, rfl, ?_⟩, ⟨rfl, .new, rfl, ?_, ?_⟩⟩
  · exact not_gives_of_missing rfl rfl
  · exact not_gives_of_missing rfl rfl
  · rfl

end OFChannelHandler

end NctuSdn
