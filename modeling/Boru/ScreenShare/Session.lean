import Boru.LTS.Basic
import Boru.ScreenShare.Protocol

/-!
# Screen-share sessions

The manager keeps a record and the permissions of each session it knows.  Sessions are started by a
local invitation or by the hello of a peer, and go through acceptance, streaming and reconnects to
their end.

The events for the application are sent at best effort; an outcome lists those that are handed over.
-/

namespace Boru.ScreenShare

open SessionPermissions

inductive SessionState where
  | idle
  | inviting
  | awaitingAcceptance
  | connecting
  | streaming
  | reconnecting
  | paused
  | ending
  | ended
  | failed
  deriving DecidableEq

structure SessionRecord where
  state : SessionState
  hostId : PublicKey
  peerId : Option PublicKey
  conversationId : UInt64

/-- Whether a hello of the host re-offers the session instead of offering a new one. -/
def SessionRecord.reoffered (record : SessionRecord) (peer : PublicKey) : Bool :=
  record.hostId = peer &&
    (record.state = .connecting || record.state = .streaming || record.state = .reconnecting)

inductive SessionEvent where
  | invitation (sessionId : SessionId) (hostId : PublicKey) (conversationId : UInt64)
      (hello : Hello)
  | accepted (sessionId : SessionId) (peerId : PublicKey)
  | rejected (sessionId : SessionId) (reason : String)
  | ended (sessionId : SessionId)
  | reconnecting (sessionId : SessionId)
  | reconnected (sessionId : SessionId)
  | controlRequest (sessionId : SessionId) (peerId : PublicKey) (capabilities : List Capability)
  | controlChanged (sessionId : SessionId) (active : Bool) (capabilities : List Capability)

/-- Bounded in-memory state for active sessions. -/
structure SessionManager where
  sessions : HashMap SessionId SessionRecord
  permissions : HashMap SessionId SessionPermissions

structure Outcome where
  manager : SessionManager
  events : List SessionEvent
  message : Option ControlMessage

def maxActiveSessions : ℕ := 8

def controlLost (id : SessionId) : SessionEvent := .controlChanged id false [.viewScreen]

namespace SessionManager

def new : SessionManager := ⟨∅, ∅⟩

variable (m : SessionManager)

def idle : Outcome := ⟨m, [], none⟩

variable (id : SessionId)

def setRecord (record : SessionRecord) : SessionManager :=
  { m with sessions := m.sessions.insert id record }

def setPermissions (p : SessionPermissions) : SessionManager :=
  { m with permissions := m.permissions.insert id p }

/-- Change the permissions of a session, if it has some. -/
def mapPermissions (f : SessionPermissions → SessionPermissions) : SessionManager :=
  match m.permissions.lookup id with
  | none => m
  | some p => m.setPermissions id (f p)

def forget : SessionManager :=
  ⟨m.sessions.erase id, m.permissions.erase id⟩

def state (m : SessionManager) (id : SessionId) : Option SessionState :=
  (m.sessions.lookup id).map SessionRecord.state

def startInvitation (hostId peer : PublicKey) (conversationId : UInt64) : SessionManager :=
  if id = .zero ∨ maxActiveSessions ≤ m.sessions.size then m
  else m.setRecord id ⟨.awaitingAcceptance, hostId, some peer, conversationId⟩

def acceptInvitation (hostId : PublicKey) : Outcome :=
  match m.sessions.lookup id with
  | none => m.idle
  | some record =>
    if record.hostId ≠ hostId ∨
        ¬ (record.state = .connecting ∨ record.state = .awaitingAcceptance) then m.idle
    else
      ⟨m.setRecord id { record with peerId := some hostId, state := .streaming }, [],
        some (.accept protocolVersion id)⟩

/-- Decline an invitation and remove all state. -/
def rejectInvitation (reason : String) : Outcome :=
  ⟨m.forget id, [],
    if (m.sessions.lookup id).isSome then some (.reject protocolVersion id reason) else none⟩

/-- `end`: end a session; its permissions end, too. -/
def endSession (m : SessionManager) (id : SessionId) : Outcome :=
  match m.sessions.lookup id with
  | none => m.idle
  | some record =>
    if record.state = .ended then m.idle
    else
      ⟨(m.setRecord id { record with state := .ended }).mapPermissions id finish,
        [], some (.endSession protocolVersion id)⟩

/-- Enter the reconnecting state after a transient failure; whether the session was streaming. -/
def beginReconnect : Outcome × Bool :=
  match m.sessions.lookup id with
  | none => (m.idle, false)
  | some record =>
    if record.state ≠ .streaming then (m.idle, false)
    else
      (⟨(m.setRecord id { record with state := .reconnecting }).mapPermissions id
          resetForReconnect,
        [.reconnecting id, controlLost id], none⟩, true)

/-- The media path is back; whether the session was reconnecting. -/
def completeReconnect : Outcome × Bool :=
  match m.sessions.lookup id with
  | none => (m.idle, false)
  | some record =>
    if record.state ≠ .reconnecting then (m.idle, false)
    else
      (⟨m.setRecord id { record with state := .streaming }, [.reconnected id], none⟩, true)

/-- Abandon a reconnect; whether the session was reconnecting. -/
def failReconnect : Outcome × Bool :=
  match m.sessions.lookup id with
  | none => (m.idle, false)
  | some record =>
    if record.state ≠ .reconnecting then (m.idle, false)
    else
      (⟨(m.setRecord id { record with state := .ended }).mapPermissions id
          finish, [.ended id], none⟩, true)

def grantControlWithPolicy (capabilities : List Capability) (policy : PermissionHook)
    (nonce : Option Nonce) (now : Instant) : Outcome :=
  match m.permissions.lookup id with
  | none => m.idle
  | some p =>
    let r := p.grantWithPolicy capabilities policy nonce now
    -- the permissions are changed even if the grant fails
    let m := m.setPermissions id r.1
    if ¬ r.2 then m.idle
    else
      match r.1.token with
      | none => m.idle
      | some token =>
        ⟨m, [.controlChanged id true capabilities],
          some (.grantControl protocolVersion id capabilities token.nonce)⟩

def revokeControl (m : SessionManager) (id : SessionId) : Outcome :=
  match m.permissions.lookup id with
  | none => m.idle
  | some p =>
    ⟨m.setPermissions id p.revokeControl, [controlLost id],
      some (.revokeControl protocolVersion id)⟩

/-! ### Messages of peers -/

def refuse (reason : String) : Outcome :=
  ⟨m, [], some (.reject protocolVersion id reason)⟩

variable (peer : PublicKey)

def applyHello (hello : Hello) : Outcome :=
  -- records of ended sessions count, and a session that is re-offered needs room, too
  if hello.sessionId = .zero ∨ maxActiveSessions ≤ m.sessions.size then
    m.refuse hello.sessionId "session is not available"
  else if hello.hostId ≠ peer then
    m.refuse hello.sessionId "invitation identity does not match the connected peer"
  else if hello.permission ≠ .viewOnly then m.refuse hello.sessionId "unsupported permission"
  else
    match m.sessions.lookup hello.sessionId with
    | some record =>
      if record.reoffered peer then
        ⟨(m.setRecord hello.sessionId
            { record with state := .reconnecting, peerId := some peer }).mapPermissions
            hello.sessionId resetForReconnect,
          [.reconnecting hello.sessionId, controlLost hello.sessionId], none⟩
      else m.refuse hello.sessionId "session already exists"
    | none =>
      ⟨(m.setRecord hello.sessionId
          ⟨.connecting, hello.hostId, some peer, hello.conversationId⟩).setPermissions
          hello.sessionId (.viewOnly hello.sessionId peer),
        [.invitation hello.sessionId hello.hostId hello.conversationId hello], none⟩

def applyAccept (id : SessionId) : Outcome :=
  match m.sessions.lookup id with
  | none => m.idle
  | some record =>
    if record.peerId = some peer ∧ (record.state = .awaitingAcceptance ∨
        record.state = .connecting ∨ record.state = .reconnecting) then
      ⟨(m.setRecord id { record with state := .streaming }).setPermissions id (.viewOnly id peer),
        [if record.state = .reconnecting then .reconnected id else .accepted id peer], none⟩
    else m.idle

def applyRequestControl (id : SessionId) (capabilities : List Capability) : Outcome :=
  match m.sessions.lookup id with
  | none => m.idle
  | some record =>
    if record.peerId = some peer ∧ record.hostId ≠ peer then
      ⟨m, [.controlRequest id peer capabilities], none⟩
    else m.idle

/-- Whether the peer is the host of a session and its permissions are for the peer. -/
def hostPermissions (id : SessionId) : Option SessionPermissions :=
  if (m.sessions.lookup id).any fun record => record.hostId = peer then
    (m.permissions.lookup id).filter fun p => p.peerId = peer
  else none

def applyGrantControl (now : Instant) (peer : PublicKey) (id : SessionId)
    (capabilities : List Capability) (nonce : Nonce) : Outcome :=
  match m.hostPermissions peer id with
  | none => m.idle
  | some p =>
    ⟨m.setPermissions id (p.grantWithNonce capabilities nonce now).1,
      [.controlChanged id true capabilities], none⟩

def applyRevokeControl (id : SessionId) : Outcome :=
  match m.hostPermissions peer id with
  | none => m.idle
  | some p => ⟨m.setPermissions id p.revokeControl, [controlLost id], none⟩

def applyReject (id : SessionId) (reason : String) : Outcome :=
  match m.sessions.lookup id with
  -- permissions without a record are dropped whoever sends the rejection
  | none => ⟨m.forget id, [], none⟩
  | some record =>
    if record.hostId ≠ peer ∧ record.peerId ≠ some peer then m.idle
    else ⟨m.forget id, [.rejected id reason], none⟩

def applyEndSession (id : SessionId) : Outcome :=
  match m.sessions.lookup id with
  | none => m.idle
  | some record =>
    if record.hostId ≠ peer ∧ record.peerId ≠ some peer then m.idle
    else if record.state = .ended then m.idle
    else
      ⟨(m.setRecord id { record with state := .ended }).mapPermissions id finish, [.ended id], none⟩

def applyRemote (now : Instant) (peer : PublicKey) : ControlMessage → Outcome
  | .hello hello => m.applyHello peer hello
  | .accept _ id => m.applyAccept peer id
  | .requestControl _ id capabilities => m.applyRequestControl peer id capabilities
  | .grantControl _ id capabilities nonce => m.applyGrantControl now peer id capabilities nonce
  | .revokeControl _ id => m.applyRevokeControl peer id
  | .input _ _ _ => m.idle
  | .reject _ id reason => m.applyReject peer id reason
  | .endSession _ id => m.applyEndSession peer id

end SessionManager

/-! ### Runs -/

inductive SessionOperation where
  | startInvitation (id : SessionId) (hostId peer : PublicKey) (conversationId : UInt64)
  | acceptInvitation (id : SessionId) (hostId : PublicKey)
  | rejectInvitation (id : SessionId) (reason : String)
  | endSession (id : SessionId)
  | beginReconnect (id : SessionId)
  | completeReconnect (id : SessionId)
  | failReconnect (id : SessionId)
  | grantControl (id : SessionId) (capabilities : List Capability) (policy : PermissionHook)
      (nonce : Option Nonce) (now : Instant)
  | revokeControl (id : SessionId)
  | applyRemote (now : Instant) (peer : PublicKey) (message : ControlMessage)

def SessionManager.perform (m : SessionManager) : SessionOperation → Outcome
  | .startInvitation id hostId peer conversationId =>
    ⟨m.startInvitation id hostId peer conversationId, [], none⟩
  | .acceptInvitation id hostId => m.acceptInvitation id hostId
  | .rejectInvitation id reason => m.rejectInvitation id reason
  | .endSession id => m.endSession id
  | .beginReconnect id => (m.beginReconnect id).1
  | .completeReconnect id => (m.completeReconnect id).1
  | .failReconnect id => (m.failReconnect id).1
  | .grantControl id capabilities policy nonce now =>
    m.grantControlWithPolicy id capabilities policy nonce now
  | .revokeControl id => m.revokeControl id
  | .applyRemote now peer message => m.applyRemote now peer message

/-- The manager as a machine; it emits the messages to send. -/
def sessionMachine : Machine SessionManager SessionOperation ControlMessage where
  step m op := ((m.perform op).manager, (m.perform op).message.toList)

namespace SessionManager

variable {m : SessionManager} {id : SessionId}

@[simp] theorem mapPermissions_sessions (f : SessionPermissions → SessionPermissions) :
    (m.mapPermissions id f).sessions = m.sessions := by
  unfold mapPermissions
  split <;> rfl

/-! ### What an operation does to the records -/

/-- The records after an operation. -/
inductive RecordChange (m : SessionManager) : HashMap SessionId SessionRecord → Prop
  | keep : RecordChange m m.sessions
  | update {id : SessionId} {record record' : SessionRecord} :
      m.sessions.lookup id = some record → RecordChange m (m.sessions.insert id record')
  | remove (id : SessionId) : RecordChange m (m.sessions.erase id)
  | add {id : SessionId} {record : SessionRecord} :
      id ≠ .zero → m.sessions.size < maxActiveSessions →
        RecordChange m (m.sessions.insert id record)

variable {peer : PublicKey}

theorem recordChange_applyHello (hello : Hello) :
    m.RecordChange (m.applyHello peer hello).manager.sessions := by
  unfold applyHello
  split
  · exact .keep
  next hr =>
    obtain ⟨hid, hs⟩ := not_or.1 hr
    split
    · exact .keep
    split
    · exact .keep
    split
    next record hrecord =>
      split
      · rw [mapPermissions_sessions]
        exact .update hrecord
      · exact .keep
    · exact .add hid (not_le.1 hs)

theorem recordChange_applyRemote (now : Instant) (msg : ControlMessage) :
    m.RecordChange (m.applyRemote now peer msg).manager.sessions := by
  cases msg with
  | hello hello => exact recordChange_applyHello hello
  | accept ver id =>
    simp only [applyRemote, applyAccept]
    split
    · exact .keep
    next record hrecord =>
      split
      · exact .update hrecord
      · exact .keep
  | reject ver id reason =>
    simp only [applyRemote, applyReject]
    split
    · exact .remove id
    · split
      · exact .keep
      · exact .remove id
  | endSession ver id =>
    simp only [applyRemote, applyEndSession]
    split
    · exact .keep
    next record hrecord =>
      split
      · exact .keep
      split
      · exact .keep
      · rw [mapPermissions_sessions]
        exact .update hrecord
  | requestControl ver id caps =>
    simp only [applyRemote, applyRequestControl]
    split
    · exact .keep
    · split <;> exact .keep
  | grantControl ver id caps nonce =>
    simp only [applyRemote, applyGrantControl]
    split <;> exact .keep
  | revokeControl ver id =>
    simp only [applyRemote, applyRevokeControl]
    split <;> exact .keep
  | input ver id input => exact .keep

theorem recordChange_perform (op : SessionOperation) :
    m.RecordChange (m.perform op).manager.sessions := by
  cases op with
  | startInvitation id hostId peer ci =>
    simp only [perform, startInvitation]
    split
    · exact .keep
    next hr =>
      obtain ⟨hid, hs⟩ := not_or.1 hr
      exact .add hid (not_le.1 hs)
  | acceptInvitation id hostId =>
    simp only [perform, acceptInvitation]
    split
    · exact .keep
    next record hrecord =>
      split
      · exact .keep
      · exact .update hrecord
  | rejectInvitation id reason => exact .remove id
  | endSession id =>
    simp only [perform, endSession]
    split
    · exact .keep
    next record hrecord =>
      split
      · exact .keep
      · rw [mapPermissions_sessions]
        exact .update hrecord
  | beginReconnect id =>
    simp only [perform, beginReconnect]
    split
    · exact .keep
    next record hrecord =>
      split
      · exact .keep
      · rw [mapPermissions_sessions]
        exact .update hrecord
  | completeReconnect id =>
    simp only [perform, completeReconnect]
    split
    · exact .keep
    next record hrecord =>
      split
      · exact .keep
      · exact .update hrecord
  | failReconnect id =>
    simp only [perform, failReconnect]
    split
    · exact .keep
    next record hrecord =>
      split
      · exact .keep
      · rw [mapPermissions_sessions]
        exact .update hrecord
  | grantControl id caps policy nonce now =>
    simp only [perform, grantControlWithPolicy]
    split
    · exact .keep
    · split
      · exact .keep
      · split <;> exact .keep
  | revokeControl id =>
    simp only [perform, revokeControl]
    split <;> exact .keep
  | applyRemote now peer msg => exact recordChange_applyRemote now msg

end SessionManager

end Boru.ScreenShare
