import Boru.Integers
import Boru.Mailbox.Types

/-!
# Call sessions

One session is pinned to the authenticated identity of its peer.  Signals move it from an offer to
an active call, through reconnects, and to its end.  The state machine is the same for the caller,
whose session starts as offered, and the callee, whose session starts as ringing: a signal to accept
makes either of them active.

Times are in milliseconds.

* `CallSession.apply_accept_cases` : what a signal to accept does.
* `CallSession.settles_apply` : no other signal to an existing call activates its session.
-/

namespace Boru.Call

open GroupEncryption (Block)

/-- A random identity for one voice or video call. -/
abbrev CallId := Block 16

/-- The media kind enabled for a call session. -/
inductive CallKind where
  | voice
  | video
  deriving DecidableEq

/-- Lifecycle of one authenticated call session. -/
inductive SessionState where
  /-- No offer has been exchanged yet. -/
  | idle
  /-- An offer is awaiting the peer's response. -/
  | offered
  /-- An incoming offer is awaiting local user consent. -/
  | ringing
  /-- Both sides accepted. -/
  | active
  /-- The media path is being re-established. -/
  | reconnecting
  | declined
  | ended
  deriving DecidableEq

/-- Whether no further signal can change this session. -/
@[simp] def SessionState.isTerminal : SessionState → Bool
  | .declined | .ended => true
  | _ => false

/-- Reliable lifecycle signal carried by the authenticated call-control stream. -/
inductive SessionSignal where
  | offer (callId : CallId) (kind : CallKind)
  | accept (callId : CallId)
  | decline (callId : CallId)
  | leave (callId : CallId)
  | reconnect (callId : CallId) (generation : UInt64)

@[simp] def SessionSignal.callId : SessionSignal → CallId
  | offer callId _ | accept callId | decline callId | leave callId | reconnect callId _ => callId

/-- Why a signal was not applied. -/
inductive SessionError where
  /-- The signal came from a different authenticated peer. -/
  | unauthorizedPeer
  /-- The signal belongs to another call. -/
  | wrongCall
  /-- The signal cannot be applied in the current state. -/
  | wrongState

/-- Result of applying a signal. -/
structure SessionUpdate where
  /-- Whether the state changed as a result of the signal. -/
  changed : Bool
  /-- State after processing the signal. -/
  state : SessionState

/-- Local-only counters. -/
structure SessionDiagnostics where
  accepted : UInt64 := 0
  declined : UInt64 := 0
  leaves : UInt64 := 0
  reconnects : UInt64 := 0
  unauthorized : UInt64 := 0
  timeouts : UInt64 := 0

structure CallSession where
  callId : CallId
  kind : CallKind
  localPeer : PublicKey
  /-- Expected remote authenticated identity. -/
  remotePeer : PublicKey
  state : SessionState
  deadline : Option Instant
  generation : UInt64
  diagnostics : SessionDiagnostics

namespace CallSession

/-- The result of a method that may change the session and return an error. -/
abbrev Outcome := CallSession × Except SessionError SessionUpdate

/-- Create a session pinned to the authenticated peer identity. -/
def new (callId : CallId) (kind : CallKind) (localPeer remotePeer : PublicKey) : CallSession where
  callId := callId
  kind := kind
  localPeer := localPeer
  remotePeer := remotePeer
  state := .idle
  deadline := none
  generation := 0
  diagnostics := {}

variable (s : CallSession)

def update (changed : Bool) : SessionUpdate := ⟨changed, s.state⟩

/-- The session after a transition, and its report. -/
def moved : Outcome := (s, .ok (s.update true))

variable (now : Instant)

/-- Record a locally initiated offer. -/
def startOffer (timeout : Duration) : Outcome :=
  if s.state ≠ .idle then (s, .error .wrongState)
  else moved { s with deadline := some (now + timeout), state := .offered }

/-- The session after a signal of the wrong peer. -/
def unauthorized (s : CallSession) : CallSession :=
  { s with diagnostics := { s.diagnostics with
      unauthorized := saturatingAdd s.diagnostics.unauthorized 1 } }

/-- Record an incoming offer from the authenticated connection peer. -/
def receiveOffer (peer : PublicKey) (kind : CallKind) (timeout : Duration) : Outcome :=
  if peer ≠ s.remotePeer then (s.unauthorized, .error .unauthorizedPeer)
  else if s.state ≠ .idle then (s, .error .wrongState)
  else moved { s with kind := kind, deadline := some (now + timeout), state := .ringing }

/-- Accept an offer or finish a reconnect. -/
def acceptSignal : Outcome :=
  match s.state with
  | .offered | .ringing | .reconnecting =>
    moved { s with
      deadline := none
      state := .active
      diagnostics := { s.diagnostics with accepted := saturatingAdd s.diagnostics.accepted 1 } }
  | .active => (s, .ok (s.update false))
  | _ => (s, .error .wrongState)

def declineSignal : Outcome :=
  match s.state with
  | .offered | .ringing =>
    moved { s with
      deadline := none
      state := .declined
      diagnostics := { s.diagnostics with declined := saturatingAdd s.diagnostics.declined 1 } }
  | .declined => (s, .ok (s.update false))
  | _ => (s, .error .wrongState)

/-- End an established or pending call. -/
def leaveSignal : Outcome :=
  if s.state.isTerminal then (s, .ok (s.update false))
  else moved { s with
    deadline := none
    state := .ended
    diagnostics := { s.diagnostics with leaves := saturatingAdd s.diagnostics.leaves 1 } }

/-- Re-establish the media path for the existing call. -/
def reconnectSignal (generation : UInt64) : Outcome :=
  match s.state with
  | .active =>
    if s.generation < generation then
      moved { s with
        generation := generation
        deadline := some (now + 5000)
        state := .reconnecting
        diagnostics := { s.diagnostics with
          reconnects := saturatingAdd s.diagnostics.reconnects 1 } }
    else (s, .error .wrongState)
  | .reconnecting =>
    if generation = s.generation then (s, .ok (s.update false)) else (s, .error .wrongState)
  | _ => (s, .error .wrongState)

/-- Apply a lifecycle signal after verifying its authenticated sender. -/
def apply (peer : PublicKey) (signal : SessionSignal) : Outcome :=
  if peer ≠ s.remotePeer then (s.unauthorized, .error .unauthorizedPeer)
  else if signal.callId ≠ s.callId then (s, .error .wrongCall)
  else
    match signal with
    | .offer _ kind => s.receiveOffer now peer kind 5000
    | .accept _ => s.acceptSignal
    | .decline _ => s.declineSignal
    | .leave _ => s.leaveSignal
    | .reconnect _ generation => s.reconnectSignal now generation

/-- End an overdue pending or reconnecting session. -/
def expire : Option CallSession :=
  if s.deadline.any (· ≤ now) ∧
      (s.state = .offered ∨ s.state = .ringing ∨ s.state = .reconnecting) then
    some { s with
      deadline := none
      state := .ended
      diagnostics := { s.diagnostics with timeouts := saturatingAdd s.diagnostics.timeouts 1 } }
  else none

end CallSession

/-! ### Transitions -/

/-- The changes of state that do not activate a session. -/
def SessionState.Settles (before after : SessionState) : Prop :=
  after = before ∨ after.isTerminal ∨ before = .active ∧ after = .reconnecting

/-- The sessions of one call: the identities that a session is pinned to do not change. -/
structure CallSession.Pinned (s s' : CallSession) : Prop where
  callId : s'.callId = s.callId
  remotePeer : s'.remotePeer = s.remotePeer

namespace CallSession

variable (s : CallSession)

theorem Pinned.refl : Pinned s s := ⟨rfl, rfl⟩

variable (now : Instant)

/-- No signal changes what a session is pinned to. -/
theorem pinned_apply (peer : PublicKey) (signal : SessionSignal) :
    Pinned s (s.apply now peer signal).1 := by
  constructor <;> cases signal <;>
    simp only [apply, receiveOffer, acceptSignal, declineSignal, leaveSignal, reconnectSignal] <;>
    split_ifs <;> first | rfl | (split <;> rfl)

theorem settles_declineSignal : s.state.Settles s.declineSignal.1.state := by
  unfold declineSignal
  split
  all_goals first | exact .inl rfl | exact .inr (.inl rfl)

theorem settles_leaveSignal : s.state.Settles s.leaveSignal.1.state := by
  unfold leaveSignal
  split_ifs
  · exact .inl rfl
  · exact .inr (.inl rfl)

theorem settles_reconnectSignal {gen : UInt64} :
    s.state.Settles (s.reconnectSignal now gen).1.state := by
  unfold reconnectSignal
  split
  · next h =>
    split_ifs
    · exact .inr (.inr ⟨h, rfl⟩)
    · exact .inl rfl
  · split_ifs <;> exact .inl rfl
  · exact .inl rfl

variable {peer : PublicKey}

/-- Signals to decline, to leave and to reconnect do not activate a session. -/
theorem settles_apply {s : CallSession} {signal : SessionSignal} {now : Instant}
    (ho : ∀ callId kind, signal ≠ .offer callId kind) (ha : ∀ callId, signal ≠ .accept callId) :
    s.state.Settles (s.apply now peer signal).1.state := by
  unfold apply
  split_ifs
  · exact .inl rfl
  · exact .inl rfl
  · cases signal with
    | offer callId kind => exact absurd rfl (ho callId kind)
    | accept callId => exact absurd rfl (ha callId)
    | decline callId => exact s.settles_declineSignal
    | leave callId => exact s.settles_leaveSignal
    | reconnect callId gen => exact s.settles_reconnectSignal now

/-- What a signal to accept does: a session that has been offered, is ringing or is reconnecting
becomes active, an active one stays active, and every other is left in its state with an error. -/
theorem apply_accept_cases {callId : CallId} :
    ((∃ er, (s.apply now peer (.accept callId)).2 = .error er) ∧
      (s.apply now peer (.accept callId)).1.state = s.state) ∨
    ((∃ update, (s.apply now peer (.accept callId)).2 = .ok update) ∧
      (s.apply now peer (.accept callId)).1.state = .active ∧
      s.state ≠ .idle ∧ ¬ s.state.isTerminal) := by
  unfold apply acceptSignal
  split_ifs
  · exact .inl ⟨⟨_, rfl⟩, rfl⟩
  · exact .inl ⟨⟨_, rfl⟩, rfl⟩
  · dsimp only
    split
    · next h => exact .inr ⟨⟨_, rfl⟩, rfl, by simp [h], by simp [h]⟩
    · next h => exact .inr ⟨⟨_, rfl⟩, rfl, by simp [h], by simp [h]⟩
    · next h => exact .inr ⟨⟨_, rfl⟩, rfl, by simp [h], by simp [h]⟩
    · next h => exact .inr ⟨⟨_, rfl⟩, h, by simp [h], by simp [h]⟩
    · exact .inl ⟨⟨_, rfl⟩, rfl⟩

/-- Only overdue sessions expire, and they end. -/
theorem expire_eq_some {s s' : CallSession} {now : Instant} (h : s.expire now = some s') :
    Pinned s s' ∧ s'.state = .ended := by
  unfold expire at h
  split_ifs at h
  cases h
  exact ⟨⟨rfl, rfl⟩, rfl⟩

end CallSession

end Boru.Call
