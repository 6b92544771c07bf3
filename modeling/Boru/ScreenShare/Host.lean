import Boru.ScreenShare.Session

/-!
# The host of a screen share

The loop of the peer that shares its screen: it invites the viewer, waits for the acceptance, and
then streams.  While it streams it reads the viewer's frames and the commands of its user, and hands
authorized input to the platform's input backend.

What the loop does with pictures, sound and the quality of the stream is left out, as is what the
backend does with an event.  Whether a reconnect succeeds, the nonces and the times are inputs.
-/

namespace Boru.ScreenShare

/-- What a host session is started with. -/
structure HostConfig where
  peer : PublicKey
  localPublic : PublicKey
  sessionId : SessionId
  conversationId : UInt64
  permissionHook : PermissionHook
  /-- Where a normalized point is on the captured screen. -/
  normalizeToCapture : Coordinate → Coordinate → Option (UInt32 × UInt32)

inductive HostPhase where
  | negotiating
  | streaming
  | terminated

inductive HostCommand where
  | grantControl (capabilities : List Capability)
  | revokeControl
  /-- `started` says whether the capture of sound starts. -/
  | setAudioEnabled (enabled started : Bool)
  /-- Clipboard, source and quality commands. -/
  | other

inductive HostInput where
  | frame (now : Instant) (message : ControlMessage) (reconnected : Bool)
  | otherUnit
  /-- The stream or the unit cannot be read. -/
  | readError (reconnected : Bool)
  | pathFailed (reconnected : Bool)
  | command (now : Instant) (nonce : Option Nonce) (command : HostCommand)
  | commandsClosed
  | tick
  /-- Capture or encoding fails for good. -/
  | pipelineFailed
  | stop

structure InputEvent where
  kind : InputEventKind
  /-- A button, a key or a modifier mask. -/
  code : UInt32
  capability : Capability
  x : UInt32
  y : UInt32
  /-- Whether the key or button is down. -/
  pressed : Bool
  modifiers : UInt32
  deriving DecidableEq

/-- What can be seen of the control of the host. -/
inductive HostEffect where
  | applied (event : InputEvent)
  | granted (capabilities : List Capability)
  /-- Control was revoked, or the session reconnects or ends. -/
  | withdrawn
  deriving DecidableEq

structure Host where
  manager : SessionManager
  phase : HostPhase
  backend : Bool
  inputLimiter : SlidingWindowRateLimiter
  audioEnabled : Bool

/-- Whether the event takes control of a session away. -/
def SessionEvent.withdraws (id : SessionId) : SessionEvent → Bool
  | .reconnecting id' | .ended id' | .rejected id' _ => id' = id
  | .controlChanged id' active _ => id' = id && !active
  | _ => false

namespace Host

variable (c : HostConfig)

/-- `run_host_session`: a fresh manager with the invitation. -/
def new : Host :=
  let manager := SessionManager.new.startInvitation c.sessionId c.localPublic c.peer
    c.conversationId
  { manager := manager
    phase := if (manager.sessions.lookup c.sessionId).isSome then .negotiating else .terminated
    backend := false
    inputLimiter := {}
    audioEnabled := false }

variable (h : Host)

/-- Leave the loop; the backend is shut down. -/
def terminate : Host := { h with phase := .terminated, backend := false }

/-- What the outcome of a message or a reconnect means for the control of the session. -/
def withdrawals (o : Outcome) : List HostEffect :=
  if o.events.any fun event => event.withdraws c.sessionId then [.withdrawn] else []

def grant (capabilities : List Capability) (policy : PermissionHook) (nonce : Option Nonce)
    (now : Instant) : Host × List HostEffect :=
  let o := h.manager.grantControlWithPolicy c.sessionId capabilities policy nonce now
  ({ h with manager := o.manager }, if o.message.isSome then [.granted capabilities] else [])

def revoke : Host × List HostEffect :=
  ({ h with manager := (h.manager.revokeControl c.sessionId).manager }, [.withdrawn])

def applyRemote (h : Host) (now : Instant) (message : ControlMessage) : Host × List HostEffect :=
  let o := h.manager.applyRemote now c.peer message
  ({ h with manager := o.manager }, withdrawals c o)

/-- The check at the end of a round of the negotiation; streaming starts only after a message. -/
def settle (message : Bool) (h : Host) : Host :=
  match h.manager.state c.sessionId with
  | some .streaming => if message then { h with phase := .streaming } else h
  | some .awaitingAcceptance | some .connecting => h
  | _ => h.terminate

def negotiate : HostInput → Host × List HostEffect
  | .frame now message _ =>
    match message.validate with
    | .error _ => (h.terminate, [])
    | .ok () => ((h.applyRemote c now message).1.settle c true, (h.applyRemote c now message).2)
  | .command now nonce (.grantControl capabilities) =>
    let r := h.grant c capabilities c.permissionHook nonce now
    (r.1.settle c false, r.2)
  | .command _ _ .revokeControl => ((h.revoke c).1.settle c false, (h.revoke c).2)
  | .command _ _ _ | .otherUnit | .pathFailed _ | .tick | .pipelineFailed =>
    (h.settle c false, [])
  | .readError _ | .commandsClosed | .stop => (h.terminate, [])

/-- `reconnect_media`: control is reset; the session goes on if the viewer accepts again. -/
def reconnectMedia (reconnected : Bool) : Host × List HostEffect :=
  let r := h.manager.beginReconnect c.sessionId
  if ¬ r.2 then (h.terminate, [])
  else if reconnected then
    let o := (r.1.manager.completeReconnect c.sessionId).1
    ({ h with manager := o.manager }, withdrawals c r.1 ++ withdrawals c o)
  else
    let o := (r.1.manager.failReconnect c.sessionId).1
    ({ h.terminate with manager := o.manager }, withdrawals c r.1 ++ withdrawals c o)

/-- An input of the viewer: it must be authorized, within the rate, and the backend open. -/
def applyInput (now : Instant) (id : SessionId) (i : InputMessage) : Host × List HostEffect :=
  let capability := i.kind.capability
  let event (x y : UInt32) : InputEvent :=
    ⟨i.kind, i.code, capability, x, y, i.pressed, i.modifiers⟩
  -- the permissions are those of the session that the viewer names
  if ¬ (h.manager.permissions.lookup id).any fun p =>
      p.authorizeNonce id c.peer capability i.nonce now then (h, [])
  else
    let r := h.inputLimiter.allow now
    let h := { h with inputLimiter := r.1 }
    if ¬ r.2 then (h, [])
    else if ¬ h.backend then (h, [])
    else if i.kind.isPointer then
      match c.normalizeToCapture i.x i.y with
      | none => (h, [])
      | some (x, y) => (h, [.applied (event x y)])
    else (h, [.applied (event 0 0)])

/-- One round of the streaming loop. -/
def stream : HostInput → Host × List HostEffect
  | .frame now message reconnected =>
    match message.validate with
    -- a frame that fails its checks is handled like a broken path
    | .error _ => h.reconnectMedia c reconnected
    | .ok () =>
      match message with
      | .input _ id i => h.applyInput c now id i
      | message =>
        let r := h.applyRemote c now message
        (if r.1.manager.state c.sessionId = some .ended then r.1.terminate else r.1, r.2)
  | .readError reconnected | .pathFailed reconnected => h.reconnectMedia c reconnected
  | .command now nonce (.grantControl capabilities) =>
    -- the backend is opened before the grant is decided
    let h := { h with backend := h.backend || capabilities.any Capability.isControl }
    h.grant c capabilities c.permissionHook nonce now
  | .command _ _ .revokeControl => { h with backend := false }.revoke c
  | .command now nonce (.setAudioEnabled enabled started) =>
    if enabled && !h.audioEnabled then
      let r := h.grant c [.audio] unmanagedRoomPermissionHook nonce now
      ({ r.1 with audioEnabled := started }, r.2)
    else ({ h with audioEnabled := h.audioEnabled && enabled }, [])
  | .command _ _ .other | .otherUnit | .tick => (h, [])
  | .commandsClosed | .pipelineFailed | .stop => (h.terminate, [])

def step (input : HostInput) : Host × List HostEffect :=
  match h.phase with
  | .negotiating => h.negotiate c input
  | .streaming => h.stream c input
  | .terminated => (h, [])

end Host

def hostMachine (c : HostConfig) : Machine Host HostInput HostEffect where
  step := Host.step c

end Boru.ScreenShare
