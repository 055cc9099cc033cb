/-
Authentication of an RPC channel (`AbstractRPCChannelHandler`).

Each end of a channel challenges the other when it connects and answers
challenges it receives with their HMAC under the shared secret.  A channel
whose challenge has been answered is authenticated.

The peer is symbolic.  It sends whatever it likes except HMACs under the
secret, of which it only has those it has received on the channel; what a
string stands for are the bytes it decodes to, so any other encoding of a
received value may be sent as well.

The same handler answers challenges with the same key on the same channel, so
it answers its own (`reflection_authenticates`).  Main result: `not_authenticated_of_no_reflection`.
-/
import Mathlib.Data.Int.Notation
import Mathlib.Data.Nat.Notation
import Mathlib.Logic.Function.Basic
import Mathlib.Logic.Relation

namespace NctuSdn

open List

/-! ### The handler -/

/-- `ClusterConfig`'s choice of authentication. -/
inductive AuthScheme
  | noAuth
  | challengeResponse
deriving DecidableEq, Repr

inductive ChannelState
  | opened
  | connected
  | authenticated
deriving DecidableEq, Repr

/-- The reasons for an `AuthException`. -/
inductive AuthException
  | noAuthenticationData
  | responseMismatch
  | unreadableSecret (path : String)
deriving DecidableEq, Repr

def AuthException.message : AuthException → String
  | .noAuthenticationData => "No authentication data in handshake message"
  | .responseMismatch => "Challenge response does not match expected response"
  | .unreadableSecret path =>
    "Could not read challenge/response shared secret from key store " ++ path

/-- What stops a handler: an `AuthException`, which `handshake` catches, or a
null dereference, which closes the channel. -/
inductive HandlerException
  | auth (e : AuthException)
  | nullPointer

/-- The platform functions the handler relies on.  HMAC-SHA1 is an injective
function, with results of twenty bytes. -/
structure Platform (Str Bytes Secret : Type*) where
  size : Bytes → ℕ
  printBase64Binary : Bytes → Str
  parseBase64Binary : Str → Bytes
  parse_print : ∀ b, parseBase64Binary (printBase64Binary b) = b
  hmacSha1 : Secret → Bytes → Bytes
  hmacSha1_injective : ∀ key, Function.Injective (hmacSha1 key)
  size_hmacSha1 : ∀ key b, size (hmacSha1 key b) = 20

/-- What the concrete handler is configured with; `getSharedSecret` gives no
secret when no key store is configured. -/
structure AuthConfig (Secret : Type*) where
  authScheme : AuthScheme
  sharedSecret : Except AuthException (Option Secret)
  localNodeId : Option ℤ

/-- `AuthChallengeResponse`, both fields optional. -/
structure AuthChallengeResponse (Str : Type*) where
  challenge : Option Str
  response : Option Str

/-- `HelloMessage`, without the header. -/
structure HelloMessage (Str : Type*) where
  nodeId : Option ℤ
  authScheme : Option AuthScheme
  authChallengeResponse : Option (AuthChallengeResponse Str)

/-- Messages by type, as far as an unauthenticated channel tells them apart.
A message whose body for its type is unset has body `none`. -/
inductive RpcMessage (Str : Type*)
  | hello (transactionId : ℤ) (body : Option (HelloMessage Str))
  | echoRequest (transactionId : Option ℤ)
  | echoReply (transactionId : ℤ)
  | error (transactionId : ℤ) (errorCode : ℕ) (message : String)
  | other

/-- What a handler does to its channel. -/
inductive ChannelAction (Str : Type*)
  | write (m : RpcMessage Str)
  | close

/-- The fields of the handler that the handshake uses. -/
structure ChannelHandler (Str : Type*) where
  channelState : ChannelState
  currentChallenge : Option Str

variable {Str Bytes Secret : Type*} (p : Platform Str Bytes Secret) (cfg : AuthConfig Secret)

-- `tid` is the value of `getTransactionId`, a counter all channels share

def authErrorCode : ℕ := 9

/-- The HMAC of a challenge, or nothing when there is no secret. -/
def generateResponse (challenge : Option Str) : Except HandlerException (Option Str) :=
  match cfg.sharedSecret with
  | .error e => .error (.auth e)
  | .ok none => .ok none
  | .ok (some key) =>
    match challenge with
    | none => .error .nullPointer
    | some challenge =>
      .ok (some (p.printBase64Binary (p.hmacSha1 key (p.parseBase64Binary challenge))))

/-- Compare a response with the expected one, byte by byte after decoding. -/
def authenticateResponse [DecidableEq Bytes] (challenge : Option Str) (response : Str) :
    Except HandlerException Unit :=
  match generateResponse p cfg challenge with
  | .error e => .error e
  | .ok none => .ok ()
  | .ok (some expected) =>
    if p.parseBase64Binary expected = p.parseBase64Binary response then .ok ()
    else .error (.auth .responseMismatch)

/-- Connect: without authentication the channel is authenticated at once, else
the peer is sent the encoding of sixteen random bytes. -/
def channelConnected (tid : ℤ) (challengeBytes : Bytes) :
    ChannelHandler Str × List (ChannelAction Str) :=
  match cfg.authScheme with
  | .noAuth =>
    (⟨.authenticated, none⟩, [.write (.hello tid (some ⟨cfg.localNodeId, some .noAuth, none⟩))])
  | .challengeResponse =>
    let challenge := p.printBase64Binary challengeBytes
    (⟨.connected, some challenge⟩, [.write (.hello tid
      (some ⟨cfg.localNodeId, some .challengeResponse, some ⟨some challenge, none⟩⟩))])

/-- The handshake proper.  What `handleHello` does on the authenticated
channel is not modelled. -/
def handshakeChallengeResponse [DecidableEq Bytes] (tid : ℤ) (h : ChannelHandler Str)
    (request : HelloMessage Str) :
    Except HandlerException (ChannelHandler Str × List (ChannelAction Str)) :=
  match request.authChallengeResponse with
  | none => .error (.auth .noAuthenticationData)
  | some ⟨_, some response⟩ =>
    match authenticateResponse p cfg h.currentChallenge response with
    | .error e => .error e
    | .ok () => .ok (⟨.authenticated, none⟩, [])
  | some ⟨some challenge, none⟩ =>
    match generateResponse p cfg (some challenge) with
    | .error e => .error e
    | .ok response =>
      .ok (h, [.write (.hello tid (some ⟨cfg.localNodeId, none, some ⟨none, response⟩⟩))])
  | some ⟨none, none⟩ => .error (.auth .noAuthenticationData)

/-- A failed handshake is reported to the peer and ends the channel. -/
def handshake [DecidableEq Bytes] (tid : ℤ) (h : ChannelHandler Str) (transactionId : ℤ)
    (request : HelloMessage Str) :
    Except HandlerException (ChannelHandler Str × List (ChannelAction Str)) :=
  match cfg.authScheme with
  | .noAuth => .ok (h, [])
  | .challengeResponse =>
    match handshakeChallengeResponse p cfg tid h request with
    | .error (.auth e) =>
      .ok (h, [.write (.error transactionId authErrorCode e.message), .close])
    | r => r

/-- Dispatch one message.  On an authenticated channel no handler touches the
two fields, and what it writes is not modelled. -/
def dispatch [DecidableEq Bytes] (tid : ℤ) (h : ChannelHandler Str) (m : RpcMessage Str) :
    Except HandlerException (ChannelHandler Str × List (ChannelAction Str)) :=
  match h.channelState with
  | .authenticated => .ok (h, [])
  | .opened | .connected =>
    match m with
    | .hello _ none => .error .nullPointer
    | .hello transactionId (some request) => handshake p cfg tid h transactionId request
    | .echoRequest none => .error .nullPointer
    | .echoRequest (some transactionId) => .ok (h, [.write (.echoReply transactionId)])
    | .error _ _ _ | .echoReply _ | .other => .ok (h, [])

/-- `messageReceived` with `exceptionCaught`: an exception closes the channel
and leaves the handler as it was.  Messages decoded together with one that
closed the channel are still dispatched, so closing is not tracked here. -/
def messageReceived [DecidableEq Bytes] (tid : ℤ) (h : ChannelHandler Str) (m : RpcMessage Str) :
    ChannelHandler Str × List (ChannelAction Str) :=
  match dispatch p cfg tid h m with
  | .ok r => r
  | .error _ => (h, [.close])

/-! ### The peer -/

/-- The strings a peer can read in what is written to it. -/
def ChannelAction.strings : ChannelAction Str → List Str
  | .write (.hello _ (some ⟨_, _, some cr⟩)) => cr.challenge.toList ++ cr.response.toList
  | _ => []

/-- A channel seen from both ends. -/
structure Session (Str : Type*) where
  handler : ChannelHandler Str
  received : List Str

/-- The session right after `channelConnected`. -/
def Session.connect (tid : ℤ) (challengeBytes : Bytes) : Session Str :=
  let r := channelConnected p cfg tid challengeBytes
  ⟨r.1, r.2.flatMap ChannelAction.strings⟩

def Session.send [DecidableEq Bytes] (tid : ℤ) (s : Session Str) (m : RpcMessage Str) :
    Session Str :=
  let r := messageReceived p cfg tid s.handler m
  ⟨r.1, s.received ++ r.2.flatMap ChannelAction.strings⟩

/-- Without the secret, a response is a value received on the channel or is
not an HMAC.  Nothing else the peer sends is restricted. -/
def CanSend (key : Secret) (received : List Str) : RpcMessage Str → Prop
  | .hello _ (some ⟨_, _, some ⟨_, some response⟩⟩) =>
    (∃ s ∈ received, p.parseBase64Binary s = p.parseBase64Binary response) ∨
      ∀ b, p.parseBase64Binary response ≠ p.hmacSha1 key b
  | _ => True

/-- The message asks for the HMAC of the challenge the handler has issued. -/
def Reflects (h : ChannelHandler Str) : RpcMessage Str → Prop
  | .hello _ (some ⟨_, _, some ⟨some challenge, none⟩⟩) =>
    ∃ current, h.currentChallenge = some current ∧
      p.parseBase64Binary challenge = p.parseBase64Binary current
  | _ => False

/-- The sessions a peer without the secret can bring about by messages that
`Allowed` lets it send. -/
def Attack [DecidableEq Bytes] (key : Secret)
    (Allowed : ChannelHandler Str → RpcMessage Str → Prop) :
    Session Str → Session Str → Prop :=
  Relation.ReflTransGen fun s s' =>
    ∃ m tid, CanSend p key s.received m ∧ Allowed s.handler m ∧ s' = s.send p cfg tid m

/-! ### What one message can do -/

section Step

variable {p cfg} {key : Secret} {h : ChannelHandler Str}

theorem generateResponse_some (hsecret : cfg.sharedSecret = .ok (some key)) (challenge : Str) :
    generateResponse p cfg (some challenge) =
      .ok (some (p.printBase64Binary (p.hmacSha1 key (p.parseBase64Binary challenge)))) := by
  unfold generateResponse
  rw [hsecret]

variable [DecidableEq Bytes]

theorem authenticateResponse_eq_ok_iff (hsecret : cfg.sharedSecret = .ok (some key))
    (challenge response : Str) :
    authenticateResponse p cfg (some challenge) response = .ok () ↔
      p.parseBase64Binary response = p.hmacSha1 key (p.parseBase64Binary challenge) := by
  unfold authenticateResponse
  rw [generateResponse_some hsecret]
  dsimp only
  rw [p.parse_print]
  split
  next heq => exact ⟨fun _ => heq.symm, fun _ => rfl⟩
  next heq => exact ⟨fun hok => (by cases hok), fun hresp => absurd hresp.symm heq⟩

section

variable (hscheme : cfg.authScheme = .challengeResponse)
  (hsecret : cfg.sharedSecret = .ok (some key))
include hscheme hsecret

theorem messageReceived_challenge (hstate : h.channelState = .connected) (tid transactionId : ℤ)
    (nodeId : Option ℤ) (scheme : Option AuthScheme) (challenge : Str) :
    messageReceived p cfg tid h
        (.hello transactionId (some ⟨nodeId, scheme, some ⟨some challenge, none⟩⟩)) =
      (h, [.write (.hello tid (some ⟨cfg.localNodeId, none, some ⟨none,
        some (p.printBase64Binary (p.hmacSha1 key (p.parseBase64Binary challenge)))⟩⟩))]) := by
  simp only [messageReceived, dispatch, hstate, handshake, hscheme, handshakeChallengeResponse,
    generateResponse_some hsecret]

theorem messageReceived_response (hstate : h.channelState = .connected) {current response : Str}
    (hcurrent : h.currentChallenge = some current)
    (hresp : p.parseBase64Binary response = p.hmacSha1 key (p.parseBase64Binary current))
    (tid transactionId : ℤ) (nodeId : Option ℤ) (scheme : Option AuthScheme)
    (challenge : Option Str) :
    messageReceived p cfg tid h
        (.hello transactionId (some ⟨nodeId, scheme, some ⟨challenge, some response⟩⟩)) =
      (⟨.authenticated, none⟩, []) := by
  have hok := (authenticateResponse_eq_ok_iff (p := p) hsecret current response).mpr hresp
  simp only [messageReceived, dispatch, hstate, handshake, hscheme, handshakeChallengeResponse,
    hcurrent, hok]

/-- On a connected channel a message that is neither a challenge nor the right
response changes nothing and tells the peer nothing. -/
theorem messageReceived_cases {current : Str} (tid : ℤ) (m : RpcMessage Str) :
    let r := messageReceived p cfg tid ⟨.connected, some current⟩ m
    (r.1 = ⟨.connected, some current⟩ ∧ r.2.flatMap ChannelAction.strings = []) ∨
    (∃ transactionId nodeId scheme challenge,
      m = .hello transactionId (some ⟨nodeId, scheme, some ⟨some challenge, none⟩⟩)) ∨
    (∃ transactionId nodeId scheme challenge response,
      m = .hello transactionId (some ⟨nodeId, scheme, some ⟨challenge, some response⟩⟩) ∧
        p.parseBase64Binary response = p.hmacSha1 key (p.parseBase64Binary current)) := by
  match m with
  | .hello _ none => exact .inl ⟨rfl, rfl⟩
  | .hello _ (some ⟨_, _, none⟩) | .hello _ (some ⟨_, _, some ⟨none, none⟩⟩) =>
    refine .inl ?_
    simp [messageReceived, dispatch, handshake, hscheme, handshakeChallengeResponse,
      ChannelAction.strings]
  | .hello transactionId (some ⟨nodeId, scheme, some ⟨some challenge, none⟩⟩) =>
    exact .inr (.inl ⟨transactionId, nodeId, scheme, challenge, rfl⟩)
  | .hello transactionId (some ⟨nodeId, scheme, some ⟨challenge, some response⟩⟩) =>
    by_cases hresp : p.parseBase64Binary response =
        p.hmacSha1 key (p.parseBase64Binary current)
    · exact .inr (.inr ⟨transactionId, nodeId, scheme, challenge, response, rfl, hresp⟩)
    · -- a wrong response: an error and the end of the channel
      refine .inl ?_
      have herr : authenticateResponse p cfg (some current) response =
          .error (.auth .responseMismatch) := by
        unfold authenticateResponse
        rw [generateResponse_some hsecret]
        dsimp only
        rw [p.parse_print, if_neg fun heq => hresp heq.symm]
      simp [messageReceived, dispatch, handshake, hscheme, handshakeChallengeResponse, herr,
        ChannelAction.strings]
  | .echoRequest none => exact .inl ⟨rfl, rfl⟩
  | .echoRequest (some _) => exact .inl ⟨rfl, rfl⟩
  | .echoReply _ => exact .inl ⟨rfl, rfl⟩
  | .error _ _ _ => exact .inl ⟨rfl, rfl⟩
  | .other => exact .inl ⟨rfl, rfl⟩

end

/-! ### Runs -/

/-- The channel waits for the answer to `current`, which the peer has not seen. -/
structure Sealed (p : Platform Str Bytes Secret) (key : Secret) (current : Str)
    (s : Session Str) : Prop where
  handler : s.handler = ⟨.connected, some current⟩
  unseen : ∀ x ∈ s.received,
    p.parseBase64Binary x ≠ p.hmacSha1 key (p.parseBase64Binary current)

omit [DecidableEq Bytes] in
theorem Sealed.connect (hscheme : cfg.authScheme = .challengeResponse) (tid : ℤ)
    {challengeBytes : Bytes} (hsize : p.size challengeBytes = 16) :
    Sealed p key (p.printBase64Binary challengeBytes)
      (Session.connect p cfg tid challengeBytes) := by
  unfold Session.connect channelConnected
  rw [hscheme]
  refine ⟨rfl, ?_⟩
  intro x hx
  simp only [flatMap_cons, flatMap_nil, append_nil, ChannelAction.strings,
    Option.toList_some, Option.toList_none, mem_singleton] at hx
  -- the challenge itself is too short to be an HMAC
  intro heq
  have hlen := congrArg p.size heq
  rw [hx, p.parse_print, p.size_hmacSha1, hsize] at hlen
  cases hlen

/-- **One message of a peer that does not reflect keeps the channel sealed.** -/
theorem Sealed.send (hscheme : cfg.authScheme = .challengeResponse)
    (hsecret : cfg.sharedSecret = .ok (some key)) {current : Str} {s : Session Str}
    (hs : Sealed p key current s) (tid : ℤ) {m : RpcMessage Str}
    (hcan : CanSend p key s.received m) (hrefl : ¬ Reflects p s.handler m) :
    Sealed p key current (s.send p cfg tid m) := by
  obtain ⟨h, received⟩ := s
  obtain ⟨hh, hunseen⟩ := hs
  subst hh
  unfold Session.send
  dsimp only
  rcases messageReceived_cases (p := p) hscheme hsecret tid m with
    ⟨hsame, hnone⟩ | ⟨transactionId, nodeId, scheme, challenge, rfl⟩ |
    ⟨transactionId, nodeId, scheme, challenge, response, rfl, hresp⟩
  · rw [hsame, hnone, append_nil]
    exact ⟨rfl, hunseen⟩
  · -- the peer learns the HMAC of another challenge
    rw [messageReceived_challenge hscheme hsecret rfl]
    refine ⟨rfl, fun x hx => ?_⟩
    rcases mem_append.mp hx with hx | hx
    · exact hunseen x hx
    · simp only [flatMap_cons, flatMap_nil, append_nil, ChannelAction.strings,
        Option.toList_some, Option.toList_none, nil_append, mem_singleton] at hx
      rw [hx, p.parse_print]
      exact fun heq => hrefl ⟨current, rfl, p.hmacSha1_injective key heq⟩
  · -- the right response is an HMAC the peer does not have
    rcases hcan with ⟨x, hx, heq⟩ | hnot
    · exact absurd (heq.trans hresp) (hunseen x hx)
    · exact absurd hresp (hnot _)

variable (p cfg key)

/-- **Reflection is the only way in.**  A peer that does not know the secret
and never sends the handler's own challenge back to it as a challenge never
reaches an authenticated channel. -/
theorem not_authenticated_of_no_reflection (hscheme : cfg.authScheme = .challengeResponse)
    (hsecret : cfg.sharedSecret = .ok (some key)) (tid : ℤ) (challengeBytes : Bytes)
    (hsize : p.size challengeBytes = 16) (s : Session Str)
    (hrun : Attack p cfg key (fun h m => ¬ Reflects p h m)
      (Session.connect p cfg tid challengeBytes) s) :
    s.handler.channelState ≠ .authenticated := by
  have hsealed : Sealed p key (p.printBase64Binary challengeBytes) s := by
    induction hrun with
    | refl => exact Sealed.connect hscheme tid hsize
    | tail _ hstep ih =>
      obtain ⟨m, tid', hcan, hrefl, rfl⟩ := hstep
      exact ih.send hscheme hsecret tid' hcan hrefl
  rw [hsealed.handler]
  exact fun heq => by cases heq

/-- Send the handler its own challenge, then its answer. -/
theorem reflection_authenticates (hscheme : cfg.authScheme = .challengeResponse)
    (hsecret : cfg.sharedSecret = .ok (some key)) (tid : ℤ) (challengeBytes : Bytes) :
    ∃ s, Attack p cfg key (fun _ _ => True) (Session.connect p cfg tid challengeBytes) s ∧
      s.handler.channelState = .authenticated := by
  have hstart : Session.connect p cfg tid challengeBytes =
      ⟨⟨.connected, some (p.printBase64Binary challengeBytes)⟩,
        [p.printBase64Binary challengeBytes]⟩ := by
    unfold Session.connect channelConnected
    rw [hscheme]
    rfl
  rw [hstart]
  let answer := p.printBase64Binary (p.hmacSha1 key challengeBytes)
  refine ⟨_, (Relation.ReflTransGen.single ⟨.hello 1 (some ⟨none, none,
    some ⟨some (p.printBase64Binary challengeBytes), none⟩⟩), tid, trivial, trivial, rfl⟩).tail
    ⟨.hello 2 (some ⟨none, none, some ⟨none, some answer⟩⟩), tid, ?_, trivial, rfl⟩, ?_⟩
  · -- the answer has been received
    refine .inl ⟨answer, ?_, rfl⟩
    unfold Session.send
    rw [messageReceived_challenge hscheme hsecret rfl]
    simp [ChannelAction.strings, p.parse_print, answer]
  · unfold Session.send
    rw [messageReceived_challenge hscheme hsecret rfl]
    rw [messageReceived_response hscheme hsecret rfl rfl]
    simp [p.parse_print, answer]

end Step

/-! ### Symbolic byte strings -/

/-- Byte strings built from raw ones by HMACs under numbered keys. -/
inductive Term
  | raw (size label : ℕ)
  | mac (key : ℕ) (t : Term)
deriving DecidableEq

/-- Terms as a platform; every term is its own encoding. -/
def symbolic : Platform Term Term ℕ where
  size
    | .raw size _ => size
    | .mac _ _ => 20
  printBase64Binary t := t
  parseBase64Binary t := t
  parse_print _ := rfl
  hmacSha1 := .mac
  hmacSha1_injective _ _ _ heq := (Term.mac.inj heq).2
  size_hmacSha1 _ _ := rfl

def guardedNode : AuthConfig ℕ := ⟨.challengeResponse, .ok (some 7), some 1⟩

theorem not_authenticated_of_guess :
    ((Session.connect symbolic guardedNode 0 (.raw 16 3)).send symbolic guardedNode 1
      (.hello 1 (some ⟨none, none, some ⟨none, some (.raw 20 4)⟩⟩))).handler.channelState ≠
      .authenticated := by
  refine not_authenticated_of_no_reflection symbolic guardedNode 7 rfl rfl 0 (.raw 16 3) rfl _
    (Relation.ReflTransGen.single ⟨_, 1, ?_, id, rfl⟩)
  exact .inr fun b heq => by cases heq

/-- The reflected challenge gets a peer without the secret in. -/
theorem authenticated_by_reflection :
    ¬ ∀ (tid : ℤ) (challengeBytes : Term) (s : Session Term),
      symbolic.size challengeBytes = 16 →
      Attack symbolic guardedNode 7 (fun _ _ => True)
        (Session.connect symbolic guardedNode tid challengeBytes) s →
      s.handler.channelState ≠ .authenticated := by
  intro hsafe
  obtain ⟨s, hrun, hauth⟩ :=
    reflection_authenticates symbolic guardedNode 7 rfl rfl 0 (.raw 16 3)
  exact hsafe 0 (.raw 16 3) s rfl hrun hauth

end NctuSdn
