/-
The connection to a switch (`OFChannelHandler`).

Each of the ten states of a connection has its own answer to each kind of
message.  Before a message is handled, a role request that got no answer in
time is given up, and the switch is taken for one that does not know roles;
that may change the state, but the message is still handled by the state that
it was received in.  An exception closes the channel.

What the handler does to others is its output: messages to the switch, and
calls of the controller.  The driver of a switch has a state of its own and its
own part of the handshake; it leaves the ports alone.
-/
import NctuSdn.Core.SwitchManager
import NctuSdn.OpenFlow.Messages

namespace NctuSdn

/-! ### Messages and drivers -/

/-- The messages that a handler can get, as far as it reads them.  `statsReply`
has the description, or none if it cannot be read; `vendor` has the role of a
Nicira role reply; the messages that only a controller sends are `request`s. -/
inductive MessageBody (T : Type)
  | hello | barrierReply | echoReply | echoRequest
  | error (errorType errorCode : BitVec 16)
  | featuresReply (reply : OFFeaturesReply) (tables : BitVec 8)
  | flowRemoved | getConfigReply | packetIn
  | portStatus (status : OFPortStatus)
  | queueGetConfigReply
  | statsReply (description : Option T)
  | vendor (roleReply : Option (BitVec 32))
  | request (type : OFType)

/-- A message. -/
structure ChannelMessage (T : Type) where
  xid : BitVec 32
  body : MessageBody T

/-- `SwitchStateException`, another exception of the platform, or one of the
driver. -/
inductive ChannelException
  | switchState | driver
  | java (e : JavaException)

/-- The drivers: which one a description gives, with what it says about roles,
and the part of the handshake that each has.  A handshake may be started once,
which is all that is ever done. -/
structure SwitchDrivers (T D : Type) where
  getOFSwitchInstance : T → D × Option Bool
  startDriverHandshake : D → D
  isDriverHandshakeComplete : D → Bool
  processDriverHandshakeMessage : D → ChannelMessage T → D × Except ChannelException Unit

/-- The controller that a handler works for. -/
structure ChannelEnvironment (T D : Type) where
  ports : PortEnvironment
  drivers : SwitchDrivers T D
  role : Role

/-- A message as it is received: the time then, the time and the transaction id
that a role request gets if one is sent, the ports under which the switch is
known from the store, if it is, and whether the message is dropped under load
if it is a PACKET_IN. -/
structure Reception (T : Type) where
  message : ChannelMessage T
  now : ℤ
  submitTime : ℤ
  xid : BitVec 32
  storedPorts : Option (List ImmutablePort)
  dropped : Bool

/-! ### The handler -/

inductive OFChannelHandler.ChannelState
  | init | waitHello | waitFeaturesReply | waitSetL2TableReply | waitConfigReply
  | waitDescriptionStatReply | waitSwitchDriverSubHandshake | waitInitialRole | master | slave
deriving DecidableEq, Repr

inductive RoleRecvStatus
  | receivedReply | unsupported | noReply
deriving DecidableEq, Repr

/-- `RoleChanger`; `none` is null. -/
structure RoleChanger where
  requestPending : Bool
  pendingXid : BitVec 32
  pendingRole : Option Role
  roleSubmitTime : ℤ

def roleTimeoutMs : ℤ := 10 * 1000

/-- The switch of a handler. -/
structure ChannelSwitch (D : Type) where
  portManager : PortManager
  driver : D
  supportsNxRole : Option Bool
  haRole : Option Role
  tableFull : Bool

/-- What a handler does to the switch and to the controller. -/
inductive ChannelOutput
  | write (type : OFType) (xid : BitVec 32)
  | roleRequest (xid : BitVec 32) (role : Role)
  | switchActivated (ports : PortManager)
  | switchDeactivated
  | notifyPortChanged (event : PortChangeEvent)
  | handleMessage | deliverStatisticsReply | deliverOFFeaturesReply
  | disconnect | close

/-- `OFChannelHandler`, and its outputs so far. -/
structure OFChannelHandler (D : Type) where
  state : OFChannelHandler.ChannelState
  sw : Option (ChannelSwitch D)
  roleChanger : RoleChanger
  featuresReply : Option OFFeaturesReply
  pendingPortStatusMsg : List OFPortStatus
  handshakeTransactionIds : BitVec 32
  outputs : List ChannelOutput

/-- `getErrorString`; the text is for the log, but a code that is not known
raises an exception. -/
def getErrorString (errorType errorCode : BitVec 16) : Except ChannelException Unit :=
  let codes : Option ℕ :=
    match errorType.toNat with
    | 0 => some 2
    | 1 => some 9
    | 2 => some 9
    | 3 => some 6
    | 4 => some 2
    | 5 => some 3
    | _ => none
  match codes with
  | some n => if errorCode.toNat < n then .ok () else .error (.java .indexOutOfBounds)
  | none => .ok ()

def Role.fromNxRole (nxRole : BitVec 32) : Option Role :=
  match nxRole.toNat with
  | 0 => some .equal
  | 1 => some .master
  | 2 => some .slave
  | _ => none

namespace OFChannelHandler

variable {T D : Type} (env : ChannelEnvironment T D)

/-- What is left of a handler, and whether it goes on. -/
abbrev Outcome (D : Type) := OFChannelHandler D × Except ChannelException Unit

def new : OFChannelHandler D :=
  ⟨.init, none, ⟨false, -1, none, 0⟩, none, [], -1, []⟩

variable (h : OFChannelHandler D) (r : Reception T)

def emit (output : ChannelOutput) : OFChannelHandler D :=
  { h with outputs := h.outputs ++ [output] }

def setState (state : ChannelState) : OFChannelHandler D := { h with state := state }

def sendHandShakeMessage (type : OFType) : OFChannelHandler D :=
  { h.emit (.write type h.handshakeTransactionIds) with
    handshakeTransactionIds := h.handshakeTransactionIds - 1 }

def sendHandshakeSetConfig : OFChannelHandler D :=
  ((h.sendHandShakeMessage .setConfig).sendHandShakeMessage .barrierRequest).sendHandShakeMessage
    .getConfigRequest

def channelConnected : OFChannelHandler D :=
  (h.sendHandShakeMessage .hello).setState .waitHello

def illegalMessageReceived : Outcome D := (h, .error .switchState)

def logError (errorType errorCode : BitVec 16) : Outcome D :=
  (h, getErrorString errorType errorCode)

def logErrorDisconnect (errorType errorCode : BitVec 16) : Outcome D :=
  match getErrorString errorType errorCode with
  | .error e => (h, .error e)
  | .ok () => (h.emit .disconnect, .ok ())

/-! ### Roles -/

/-- The ports of the switch at each call of `controller.switchActivated`. -/
def activations : List PortManager :=
  h.outputs.filterMap fun
    | .switchActivated ports => some ports
    | _ => none

/-- `controller.switchActivated`: a switch that the manager knows from the store
gets its ports from there when it is activated for the first time. -/
def switchActivated (sw : ChannelSwitch D) : Outcome D :=
  let activated := h.emit (.switchActivated sw.portManager)
  match h.activations, r.storedPorts with
  | [], some ports =>
    match sw.portManager.updatePorts env.ports ports with
    | .error e => (activated, .error (.java e))
    | .ok (portManager, _) =>
      ({ activated with sw := some { sw with portManager := portManager } }, .ok ())
  | _, _ => (activated, .ok ())

def setSwitchRole (role : Option Role) (status : RoleRecvStatus) : Outcome D :=
  let h := { h with roleChanger := { h.roleChanger with requestPending := false } }
  match h.sw with
  | none => (h, .error (.java .nullPointer))
  | some sw =>
    let sw := { sw with supportsNxRole := some (status = .receivedReply), haRole := role }
    let h := { h with sw := some sw }
    if role ≠ some .slave then (h.setState .master).switchActivated env r sw
    else
      let h := h.setState .slave
      if status ≠ .receivedReply then (h.emit .disconnect, .ok ())
      else (h.emit .switchDeactivated, .ok ())

/-- A role request without an answer has timed out. -/
def timedOut : Bool :=
  h.roleChanger.requestPending && decide (roleTimeoutMs < r.now - h.roleChanger.roleSubmitTime)

def checkTimeout : Outcome D :=
  if h.timedOut r then h.setSwitchRole env r h.roleChanger.pendingRole .noReply else (h, .ok ())

def sendRoleRequest (role : Role) : Outcome D :=
  match h.sw with
  | none => (h, .error (.java .nullPointer))
  | some sw =>
    if sw.supportsNxRole = some false then h.setSwitchRole env r (some role) .unsupported
    else
      ({ h.emit (.roleRequest r.xid role) with
        roleChanger := ⟨true, r.xid, some role, r.submitTime⟩ }, .ok ())

def sendRoleRequestIfNotPending (role : Role) : Outcome D :=
  if !h.roleChanger.requestPending then h.sendRoleRequest env r role else (h, .ok ())

def reassertRole (role : Role) : Outcome D :=
  if env.role ≠ role then (h, .ok ()) else h.sendRoleRequestIfNotPending env r env.role

def deliverRoleReply (role : Role) : Outcome D :=
  if !h.roleChanger.requestPending then h.illegalMessageReceived
  else if h.roleChanger.pendingXid = r.message.xid ∧ h.roleChanger.pendingRole = some role then
    h.setSwitchRole env r (some role) .receivedReply
  else (h, .ok ())

/-- `deliverError`; whether the error was for the role changer. -/
def deliverError (errorType : BitVec 16) : OFChannelHandler D × Except ChannelException Bool :=
  if !h.roleChanger.requestPending then (h, .ok false)
  else if h.roleChanger.pendingXid = r.message.xid then
    if errorType = 1 then
      match h.setSwitchRole env r h.roleChanger.pendingRole .unsupported with
      | (h, .ok ()) => (h, .ok true)
      | (h, .error e) => (h, .error e)
    else (h, .error .switchState)
  else (h, .ok false)

def gotoWaitInitialRoleState : Outcome D :=
  (h.setState .waitInitialRole).sendRoleRequest env r env.role

def processRoleReply (roleReply : Option (BitVec 32)) (other : Outcome D) : Outcome D :=
  match roleReply with
  | none => other
  | some nxRole =>
    match Role.fromNxRole nxRole with
    | none => h.illegalMessageReceived
    | some role => h.deliverRoleReply env r role

/-! ### Ports -/

def handlePortStatusMessage (m : OFPortStatus) (doNotify : Bool) : Outcome D :=
  match h.sw with
  | none => (h, .error .switchState)
  | some sw =>
    match sw.portManager.handlePortStatusMessage env.ports m with
    | .error e => (h, .error (.java e))
    | .ok (portManager, changes) =>
      let h := { h with sw := some { sw with portManager := portManager } }
      if doNotify then
        ({ h with outputs := h.outputs ++ changes.map .notifyPortChanged }, .ok ())
      else (h, .ok ())

/-- The loop over the messages that were received before there was a switch. -/
def handlePending (h : OFChannelHandler D) : List OFPortStatus → Outcome D
  | [] => (h, .ok ())
  | ps :: pending =>
    match h.handlePortStatusMessage env ps false with
    | (h, .error e) => (h, .error e)
    | (h, .ok ()) => handlePending h pending

/-- The description of the switch: the switch is bound to a driver. -/
def bindSwitch (description : T) : Outcome D :=
  let (driver, supportsNxRole) := env.drivers.getOFSwitchInstance description
  let sw : ChannelSwitch D := ⟨.new, driver, supportsNxRole, none, false⟩
  let h := { h with sw := some sw }
  match h.featuresReply with
  | none => (h, .error (.java .nullPointer))
  | some featuresReply =>
    match setFeaturesReply env.ports featuresReply with
    | .error e => (h, .error (.java e))
    | .ok portManager =>
      let h := { h with sw := some { sw with portManager := portManager } }
      match h.handlePending env h.pendingPortStatusMsg with
      | (h, .error e) => (h, .error e)
      | (h, .ok ()) =>
        let h := { h with pendingPortStatusMsg := [] }
        match h.sw with
        | none => (h, .error (.java .nullPointer))
        | some sw =>
          let driver := env.drivers.startDriverHandshake sw.driver
          let h := { h with sw := some { sw with driver := driver } }
          if env.drivers.isDriverHandshakeComplete driver then
            h.gotoWaitInitialRoleState env r
          else (h.setState .waitSwitchDriverSubHandshake, .ok ())

/-! ### One handler for each kind of message

`state` is the state that the message was received in. -/

variable (state : ChannelState)

def processOFHello : Outcome D :=
  match state with
  | .waitHello => ((h.sendHandShakeMessage .featuresRequest).setState .waitFeaturesReply, .ok ())
  | _ => h.illegalMessageReceived

def processOFEchoRequest : Outcome D := (h.emit (.write .echoReply r.message.xid), .ok ())

/-- `processOFError` of a master, for an error that is not for the role changer:
the role is asserted again if the switch denies permission. -/
def processMasterError (errorType errorCode : BitVec 16) : Outcome D :=
  let outcome : Outcome D :=
    if errorType = 1 ∧ errorCode = 5 then h.reassertRole env r .master
    else if errorType = 4 ∧ errorCode = 0 then
      ({ h with sw := h.sw.map fun sw => { sw with tableFull := true } }, .ok ())
    else h.logError errorType errorCode
  match outcome with
  | (h, .error e) => (h, .error e)
  | (h, .ok ()) => (h.emit .handleMessage, .ok ())

def processOFError (errorType errorCode : BitVec 16) : Outcome D :=
  match state with
  | .init | .waitSwitchDriverSubHandshake => (h, .ok ())
  | .waitHello | .waitFeaturesReply | .waitSetL2TableReply | .waitDescriptionStatReply =>
    h.logErrorDisconnect errorType errorCode
  | .waitConfigReply =>
    -- a bad vendor: the switch does not know the L2 table extension
    if errorType = 1 ∧ errorCode = 3 then (h, .ok ())
    else h.logErrorDisconnect errorType errorCode
  | .waitInitialRole | .slave =>
    match h.deliverError env r errorType with
    | (h, .error e) => (h, .error e)
    | (h, .ok true) => (h, .ok ())
    | (h, .ok false) => h.logError errorType errorCode
  | .master =>
    match h.deliverError env r errorType with
    | (h, .error e) => (h, .error e)
    | (h, .ok true) => (h, .ok ())
    | (h, .ok false) => h.processMasterError env r errorType errorCode

/-- `processOFFeaturesReply`.  A master takes what it says about the switch, but
not the ports. -/
def processOFFeaturesReply (reply : OFFeaturesReply) (tables : BitVec 8) : Outcome D :=
  match state with
  | .init | .waitSwitchDriverSubHandshake | .slave => (h, .ok ())
  | .waitFeaturesReply =>
    let h := { h with featuresReply := some reply }
    let h := if 1 < tables.toInt then h.sendHandShakeMessage .vendor else h
    (h.sendHandshakeSetConfig.setState .waitConfigReply, .ok ())
  | .waitHello | .waitSetL2TableReply | .waitConfigReply | .waitDescriptionStatReply
  | .waitInitialRole => h.illegalMessageReceived
  | .master => (h.emit .deliverOFFeaturesReply, .ok ())

def processOFFlowRemoved : Outcome D :=
  match state with
  | .master => (h.emit .handleMessage, .ok ())
  | _ => (h, .ok ())

def processOFGetConfigReply : Outcome D :=
  match state with
  | .waitConfigReply =>
    ((h.sendHandShakeMessage .statsRequest).setState .waitDescriptionStatReply, .ok ())
  | _ => h.illegalMessageReceived

def processOFPacketIn : Outcome D :=
  match state with
  | .master => (h.emit .handleMessage, .ok ())
  | .slave => h.reassertRole env r .slave
  | _ => (h, .ok ())

def processOFPortStatus (m : OFPortStatus) : Outcome D :=
  match state with
  | .init | .waitHello | .waitFeaturesReply | .slave => (h, .ok ())
  | .waitSetL2TableReply | .waitConfigReply | .waitDescriptionStatReply =>
    ({ h with pendingPortStatusMsg := h.pendingPortStatusMsg ++ [m] }, .ok ())
  | .waitSwitchDriverSubHandshake | .waitInitialRole => h.handlePortStatusMessage env m false
  | .master => h.handlePortStatusMessage env m true

def processOFStatisticsReply (description : Option T) : Outcome D :=
  match state with
  | .init | .waitSwitchDriverSubHandshake => (h, .ok ())
  | .waitHello | .waitFeaturesReply | .waitSetL2TableReply | .waitConfigReply
  | .waitInitialRole => h.illegalMessageReceived
  | .waitDescriptionStatReply =>
    match description with
    | none => (h, .error (.java .indexOutOfBounds))
    | some description => h.bindSwitch env r description
  | .master | .slave => (h.emit .deliverStatisticsReply, .ok ())

def processOFVendor (roleReply : Option (BitVec 32)) : Outcome D :=
  match state with
  | .waitSetL2TableReply => (h.sendHandshakeSetConfig.setState .waitConfigReply, .ok ())
  | .waitInitialRole | .slave => h.processRoleReply env r roleReply (h, .ok ())
  | .master => h.processRoleReply env r roleReply (h.emit .handleMessage, .ok ())
  | _ => (h, .ok ())

/-- `processOFMessage`, after the time-out has been looked at. -/
def processMessage : Outcome D :=
  match r.message.body with
  | .hello => h.processOFHello state
  | .barrierReply | .echoReply | .queueGetConfigReply => (h, .ok ())
  | .echoRequest => h.processOFEchoRequest r
  | .error errorType errorCode => h.processOFError env r state errorType errorCode
  | .featuresReply reply tables => h.processOFFeaturesReply state reply tables
  | .flowRemoved => h.processOFFlowRemoved state
  | .getConfigReply => h.processOFGetConfigReply state
  | .packetIn => h.processOFPacketIn env r state
  | .portStatus m => h.processOFPortStatus env state m
  | .statsReply description => h.processOFStatisticsReply env r state description
  | .vendor roleReply => h.processOFVendor env r state roleReply
  | .request _ => h.illegalMessageReceived

def processDriverMessage : Outcome D :=
  match r.message.body with
  | .echoRequest => h.processOFEchoRequest r
  | _ =>
    match h.sw with
    | none => (h, .error (.java .nullPointer))
    | some sw =>
      match env.drivers.processDriverHandshakeMessage sw.driver r.message with
      | (driver, .error e) => ({ h with sw := some { sw with driver := driver } }, .error e)
      | (driver, .ok ()) =>
        let h := { h with sw := some { sw with driver := driver } }
        if env.drivers.isDriverHandshakeComplete driver then h.gotoWaitInitialRoleState env r
        else (h, .ok ())

def processOFMessage : Outcome D :=
  match h.state with
  | .init => h.illegalMessageReceived
  | .waitSwitchDriverSubHandshake => h.processDriverMessage env r
  | state =>
    match h.checkTimeout env r with
    | (h, .error e) => (h, .error e)
    | (h, .ok ()) => h.processMessage env r state

/-- `messageReceived`, one message; an exception closes the channel. -/
def messageReceived : OFChannelHandler D :=
  match r.message.body, r.dropped with
  | .packetIn, true => h
  | _, _ =>
    match h.processOFMessage env r with
    | (h, .ok ()) => h
    | (h, .error _) => h.emit .close

def run (h : OFChannelHandler D) (receptions : List (Reception T)) : OFChannelHandler D :=
  receptions.foldl (messageReceived env) h

end OFChannelHandler

end NctuSdn
