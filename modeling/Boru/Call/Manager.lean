import Boru.Call.Wire
import Boru.LTS.Basic

/-!
# The call manager

An actor owns the calls of a node.  Commands reach it from the user interface, from timers and from
the connections: a control frame comes with the authenticated peer of its connection and with the
sender half of the connection.

What the actor does to the outside are effects: frames it sends, events it emits for the
application, connections it closes and timers it starts.  Statistics of media are left out; no call
depends on them.

The hash map of calls is iterated in an unspecified order, so an input carries the order in which
the map is iterated while the command is handled.  Frames are sent at best effort: an effect says
that the actor hands the frame to the connection.
-/

namespace Boru.Call

/-- Why a call reached its terminal state. -/
inductive CallEndReason where
  | localHangup
  | remoteHangup
  | connectionLost
  | protocolError
  | authorizationRevoked
  | deviceError
  | shutdown
  | negotiationTimeout
  deriving DecidableEq

def CallEndReason.ofHangup : HangupReason → CallEndReason
  | .localHangup => .localHangup
  | .remoteHangup => .remoteHangup
  | .connectionLost => .connectionLost
  | .protocolError => .protocolError
  | .authorizationRevoked => .authorizationRevoked
  | .deviceError => .deviceError
  | .shutdown => .shutdown
  | .negotiationTimeout => .negotiationTimeout

/-- Error which prevents a call from becoming active. -/
inductive CallError where
  | rejected
  | busy
  | connection
  deriving DecidableEq

/-- Events emitted by the call actor. -/
inductive CallEvent where
  | incoming (callId : CallId) (peer : PublicKey) (kind : CallKind)
  | outgoingRinging (callId : CallId) (peer : PublicKey)
  | active (callId : CallId) (peer : PublicKey) (kind : CallKind)
  | mediaStateChanged (callId : CallId) (audioMuted videoEnabled : Bool)
  | mediaReceived (peer : PublicKey) (datagram : Bytes)
  | mediaMalformed (peer : PublicKey)
  | ended (callId : CallId) (reason : CallEndReason)
  | failed (callId : Option CallId) (reason : CallError)
  deriving DecidableEq

/-- A connection and its sender half, by number. -/
abbrev WireTx := ℕ

/-- What the actor does to the outside. -/
inductive Effect where
  /-- A frame is sent on a connection. -/
  | send (tx : WireTx) (control : CallControl)
  | emit (event : CallEvent)
  /-- The resources of a call are shut down and its connection is closed. -/
  | close (connection : WireTx)
  | startTimer (callId : CallId)
  deriving DecidableEq

/-- What arrives on the media path. -/
inductive MediaReaderEvent where
  | packet (datagram : Bytes)
  | malformed
  deriving DecidableEq

inductive Command where
  | start (callId : CallId) (peer : PublicKey) (kind : CallKind) (connection : Option WireTx)
  | accept (callId : CallId)
  | reject (callId : CallId)
  | setMuted (callId : CallId) (muted : Bool)
  | setDeafened (callId : CallId) (deafened : Bool)
  | setCameraEnabled (callId : CallId) (enabled : Bool)
  /-- A peer connected; its stream is accepted elsewhere. -/
  | incoming (connection : WireTx)
  | revokePeer (peer : PublicKey)
  /-- A control frame of an authenticated peer. -/
  | control (peer : PublicKey) (control : CallControl) (tx : WireTx)
  | connectionClosed (peer : PublicKey)
  | media (peer : PublicKey) (event : MediaReaderEvent)
  | negotiationTimeout (callId : CallId)
  | terminate (callId : CallId) (generation : UInt64) (reason : HangupReason)
  | reconnect (callId : CallId)
  | shutdown
  deriving DecidableEq

/-- A command, the time at which it is handled, and the order in which the calls are iterated. -/
structure Input where
  now : Instant
  /-- The order of the calls; a call that is not listed comes after those that are. -/
  order : List CallId
  command : Command

structure CallState where
  peer : PublicKey
  kind : CallKind
  /-- The sender half of the connection on which the call was set up. -/
  tx : WireTx
  /-- Whether the call was created by an offer of the peer. -/
  incoming : Bool
  localAudioMuted : Bool
  /-- Whether the peer reports to be muted. -/
  remoteAudioMuted : Bool
  localVideoEnabled : Bool
  /-- Whether the peer reports its camera to be on. -/
  remoteVideoEnabled : Bool
  /-- The incarnation, changed by reconnects. -/
  generation : UInt64
  session : CallSession
  ending : Bool
  deafened : Bool
  connection : WireTx

def CallState.isActive (call : CallState) : Bool := call.session.state = .active

def CallState.create (peer : PublicKey) (kind : CallKind) (tx : WireTx) (incoming : Bool)
    (generation : UInt64) (session : CallSession) : CallState where
  peer := peer
  kind := kind
  tx := tx
  incoming := incoming
  localAudioMuted := false
  remoteAudioMuted := false
  localVideoEnabled := false
  remoteVideoEnabled := false
  generation := generation
  session := session
  ending := false
  deafened := false
  connection := tx

structure Manager where
  localPeer : PublicKey
  calls : HashMap CallId CallState
  /-- The calls for which a terminal event was reserved. -/
  terminalCalls : Finset CallId
  /-- The local media state by call: muted, and camera enabled. -/
  mediaState : HashMap CallId (Bool × Bool)
  nextGeneration : UInt64
  stopped : Bool

/-- The manager after a step, and what it has done. -/
abbrev Reaction := Manager × List Effect

def maxPendingCallOffers : ℕ := 32

def negotiationTimeout : Duration := 5000

/-- The side whose outgoing attempt survives a simultaneous call attempt. -/
inductive CollisionWinner where
  | localWins
  | remoteWins
  deriving DecidableEq

/-- Resolve a simultaneous call attempt deterministically from peer identity. -/
def resolveCollision (localPeer remotePeer : PublicKey) : CollisionWinner :=
  if localPeer.1 ≤ remotePeer.1 then .localWins else .remoteWins

/-- Whether a requested generation stands for the current one. -/
def generationMatches (current requested : UInt64) : Bool := requested = 0 || requested = current

namespace Manager

def spawn (localPeer : PublicKey) : Manager where
  localPeer := localPeer
  calls := ∅
  terminalCalls := ∅
  mediaState := ∅
  nextGeneration := 1
  stopped := false

variable (m : Manager)

def iter (order : List CallId) : List (CallId × CallState) :=
  (m.calls.entries.map fun e => (e.1, e.2)).insertionSort fun a b =>
    order.idxOf a.1 ≤ order.idxOf b.1

variable (callId : CallId)

def setCall (call : CallState) : Manager :=
  { m with calls := m.calls.insert callId call }

variable (now : Instant)

/-- Apply a signal to the session of a call, as if its peer had sent it. -/
def applySignal (callId : CallId) (signal : SessionSignal) : Manager :=
  match m.calls.lookup callId with
  | none => m
  | some call =>
    m.setCall callId { call with session := (call.session.apply now call.peer signal).1 }

def advanceGeneration : Manager :=
  { m with nextGeneration := max (m.nextGeneration + 1) 1 }

def generationOf : UInt64 :=
  ((m.calls.lookup callId).map CallState.generation).getD 0

/-! ### Termination -/

def terminalEvent (reason : HangupReason) : Option CallError → CallEvent
  | some error => .failed (some callId) error
  | none => .ended callId (.ofHangup reason)

/-- Terminate a call whose generation matches: it is marked, its terminal event is reserved, and
only then it is removed and shut down. -/
def terminateCallInner (generation : UInt64) (reason : HangupReason) (notifyPeer : Bool)
    (failedReason : Option CallError) : Reaction :=
  match m.calls.lookup callId with
  | none => (m, [])
  | some call =>
    if ¬ generationMatches call.generation generation then (m, [])
    else if call.ending then (m, [])
    else
      let m := m.setCall callId { call with ending := true }
      if callId ∈ m.terminalCalls then (m, [])
      else
        ({ m with
            terminalCalls := insert callId m.terminalCalls
            calls := m.calls.erase callId },
          (if notifyPeer then [.send call.tx (.hangup callId reason)] else []) ++
            [.close call.connection, .emit (terminalEvent callId reason failedReason)])

/-- Terminate a call; a failure is reported as a rejection. -/
def terminateCall (generation : UInt64) (reason : HangupReason) (notifyPeer failed : Bool) :
    Reaction :=
  m.terminateCallInner callId generation reason notifyPeer (if failed then some .rejected else none)

def terminateCallWithError (generation : UInt64) (error : CallError) : Reaction :=
  m.terminateCallInner callId generation .remoteHangup false (some error)

/-- Terminate several calls, one after the other. -/
def terminateAll (m : Manager) (reason : HangupReason) (notifyPeer : Bool) :
    List (CallId × CallState) → Reaction
  | [] => (m, [])
  | (callId, call) :: rest =>
    let r := m.terminateCall callId call.generation reason notifyPeer false
    let r' := r.1.terminateAll reason notifyPeer rest
    (r'.1, r.2 ++ r'.2)

/-! ### Control frames -/

/-- Accept a call, locally or by a frame of the peer: the call becomes active if its session accepts
the signal.  `reply` is what a local acceptance sends. -/
def acceptCall (callId : CallId) (reply : CallState → List Effect) : Reaction :=
  match m.calls.lookup callId with
  | none => (m, [])
  | some call =>
    let r := call.session.apply now call.peer (.accept callId)
    let m := m.setCall callId { call with session := r.1 }
    match r.2 with
    | .error _ => (m, [])
    | .ok _ => (m, reply call ++ [.emit (.active callId call.peer call.kind)])

def ring (peer : PublicKey) (callId : CallId) (kind : CallKind) (tx : WireTx) : Reaction :=
  let r := (CallSession.new callId kind m.localPeer peer).apply now peer (.offer callId kind)
  match r.2 with
  | .error _ => (m, [.send tx (.ringing callId)])
  | .ok _ =>
    ((m.setCall callId (.create peer kind tx true m.nextGeneration r.1)).advanceGeneration,
      [.send tx (.ringing callId), .emit (.incoming callId peer kind)])

variable (order : List CallId)

/-- Resolve a simultaneous attempt to call the peer, and ring. -/
def ringUnlessCalling (peer : PublicKey) (callId : CallId) (kind : CallKind) (tx : WireTx) :
    Reaction :=
  match (m.iter order).find? fun e => e.2.peer = peer && !e.2.incoming with
  | none => m.ring now peer callId kind tx
  | some (existingId, existing) =>
    if resolveCollision peer existing.peer = .remoteWins then
      let r := { m with calls := m.calls.erase existingId }.ring now peer callId kind tx
      (r.1, .send existing.tx (.hangup existingId .remoteHangup) :: r.2)
    else (m, [.send tx (.busy callId)])

/-- Handle an offer: too many pending offers and another call of the peer are answered with busy;
an active call of somebody else as well, but then the handling goes on. -/
def handleOffer (peer : PublicKey) (callId : CallId) (kind : CallKind) (tx : WireTx) : Reaction :=
  if maxPendingCallOffers ≤ (m.iter order).countP fun e => e.2.incoming && !e.2.isActive then
    (m, [.send tx (.busy callId)])
  else
    match (m.iter order).find? fun e => e.2.isActive || e.2.peer = peer with
    | none => m.ringUnlessCalling now order peer callId kind tx
    | some (_, existing) =>
      if existing.peer = peer then (m, [.send tx (.busy callId)])
      else
        let r := m.ringUnlessCalling now order peer callId kind tx
        (r.1, .send tx (.busy callId) :: r.2)

/-- Handle a request of the peer to reconnect. -/
def handleReconnect (callId : CallId) (generation : UInt64) : Reaction :=
  match m.calls.lookup callId with
  | none => (m, [])
  | some call =>
    let r := call.session.apply now call.peer (.reconnect callId generation)
    let call := { call with session := r.1 }
    match r.2 with
    | .error _ => (m.setCall callId call, [])
    | .ok _ => (m.setCall callId { call with generation := generation }, [])

/-- Handle a report of the peer's media state. -/
def handleMediaState (audioMuted videoEnabled : Bool) : Reaction :=
  let m := match m.calls.lookup callId with
    | none => m
    | some call => m.setCall callId
        { call with remoteAudioMuted := audioMuted, remoteVideoEnabled := videoEnabled }
  (m, [.emit (.mediaStateChanged callId audioMuted videoEnabled)])

/-- Handle a control frame.  The peer that sent it matters to offers only. -/
def handleControl (peer : PublicKey) (tx : WireTx) : CallControl → Reaction
  | .hello _ _ | .ringing _ | .requestKeyframe _ _ | .keepAlive _ => (m, [])
  | .offer callId kind _ => m.handleOffer now order peer callId kind tx
  | .accept callId _ => m.acceptCall now callId fun _ => []
  | .reject callId _ =>
    let m := m.applySignal now callId (.decline callId)
    m.terminateCall callId (m.generationOf callId) .remoteHangup false true
  | .busy callId => m.terminateCallWithError callId (m.generationOf callId) .busy
  | .mediaState callId audioMuted videoEnabled => m.handleMediaState callId audioMuted videoEnabled
  | .reconnect callId generation => m.handleReconnect now callId generation
  | .hangup callId reason =>
    let m := m.applySignal now callId (.leave callId)
    m.terminateCall callId (m.generationOf callId) reason false false

/-! ### Commands -/

/-- Start a call, unless a call is active or the peer has a call. -/
def handleStart (callId : CallId) (peer : PublicKey) (kind : CallKind)
    (connection : Option WireTx) : Reaction :=
  if (m.iter order).any fun e => e.2.isActive || e.2.peer = peer then
    (m, [.emit (.failed (some callId) .rejected)])
  else
    match connection with
    | none => (m, [.emit (.failed (some callId) .connection)])
    | some tx =>
      let session :=
        ((CallSession.new callId kind m.localPeer peer).startOffer now negotiationTimeout).1
      ((m.setCall callId (.create peer kind tx false m.nextGeneration session)).advanceGeneration,
        [.send tx (.hello callControlVersion callId),
          .send tx (.offer callId kind (callCapabilities kind)),
          .emit (.outgoingRinging callId peer), .startTimer callId])

def handleReject (callId : CallId) : Reaction :=
  let m := m.applySignal now callId (.decline callId)
  let sent := match m.calls.lookup callId with
    | none => []
    | some call => [Effect.send call.tx (.reject callId .declined)]
  let r := m.terminateCall callId (m.generationOf callId) .localHangup false false
  (r.1, sent ++ r.2)

/-- End a call whose negotiation has taken too long. -/
def handleTimeout (callId : CallId) : Reaction :=
  match m.calls.lookup callId with
  | none => (m, [])
  | some call =>
    match call.session.expire now with
    | none => (m, [])
    | some session =>
      let m := m.setCall callId { call with session := session }
      m.terminateCall callId (m.generationOf callId) .negotiationTimeout true false

/-- Request a new media generation. -/
def handleLocalReconnect (callId : CallId) : Reaction :=
  match m.calls.lookup callId with
  | none => (m, [])
  | some call =>
    let generation := saturatingAdd call.session.generation 1
    let r := call.session.apply now call.peer (.reconnect callId generation)
    let call := { call with session := r.1 }
    match r.2 with
    | .error _ => (m.setCall callId call, [])
    | .ok _ =>
      (m.setCall callId { call with generation := generation },
        [.send call.tx (.reconnect callId generation)])

/-- Change a call if it exists, and tell its peer the local media state. -/
def announceMedia (change : CallState → CallState) (media : Bool × Bool) : Reaction :=
  let m := { m with mediaState := m.mediaState.insert callId media }
  let event := Effect.emit (.mediaStateChanged callId media.1 media.2)
  match m.calls.lookup callId with
  | none => (m, [event])
  | some call =>
    (m.setCall callId (change call), [.send call.tx (.mediaState callId media.1 media.2), event])

def handleSetMuted (muted : Bool) : Reaction :=
  let media := m.mediaState.getD callId (false, false)
  if media.1 = muted then ({ m with mediaState := m.mediaState.insert callId media }, [])
  else m.announceMedia callId (fun call => { call with localAudioMuted := muted }) (muted, media.2)

def handleSetCameraEnabled (enabled : Bool) : Reaction :=
  let media := m.mediaState.getD callId (false, false)
  m.announceMedia callId (fun call => { call with localVideoEnabled := enabled }) (media.1, enabled)

def handleSetDeafened (deafened : Bool) : Manager :=
  match m.calls.lookup callId with
  | none => m
  | some call => m.setCall callId { call with deafened := deafened }

def handle : Command → Reaction
  | .start callId peer kind connection => m.handleStart now order callId peer kind connection
  | .accept callId => m.acceptCall now callId fun call =>
      [.send call.tx (.accept callId (negotiateForKind call.kind))]
  | .reject callId => m.handleReject now callId
  | .setMuted callId muted => m.handleSetMuted callId muted
  | .setDeafened callId deafened => (m.handleSetDeafened callId deafened, [])
  | .setCameraEnabled callId enabled => m.handleSetCameraEnabled callId enabled
  | .incoming _ => (m, [])
  | .revokePeer peer =>
    m.terminateAll .authorizationRevoked true ((m.iter order).filter fun e => e.2.peer = peer)
  | .control peer control tx => m.handleControl now order peer tx control
  | .connectionClosed peer =>
    m.terminateAll .connectionLost false ((m.iter order).filter fun e => e.2.peer = peer)
  | .media peer (.packet datagram) => (m, [.emit (.mediaReceived peer datagram)])
  | .media peer .malformed => (m, [.emit (.mediaMalformed peer)])
  | .negotiationTimeout callId => m.handleTimeout now callId
  | .terminate callId generation reason =>
    (m.applySignal now callId (.leave callId)).terminateCall callId generation reason true false
  | .reconnect callId => m.handleLocalReconnect now callId
  | .shutdown =>
    let r := m.terminateAll .shutdown false (m.iter order)
    ({ r.1 with stopped := true }, r.2)

end Manager

/-- The actor as a machine; after a shutdown it handles nothing. -/
def actor : Machine Manager Input Effect where
  step m i := if m.stopped then (m, []) else m.handle i.now i.order i.command

end Boru.Call
