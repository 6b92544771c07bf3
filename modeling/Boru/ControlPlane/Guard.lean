import Mathlib.Data.Finset.Card
import Boru.LTS.Basic
import Boru.Mailbox.Types

/-!
# The guard of the control plane

Every control frame passes the guard: a rate limit on who delivered it, the attribution to its
sender, the bounds on its content, the deduplication and the table of peers.  The set of seen frames
and the table are bounded; the set is cleared when it is full, and the table forgets stale peers and
then the one it has not heard of for the longest time.

The payloads that have checks of their own (extensions and the advertisements of public rooms) are
parameters with these checks, as is the coarse location of a presence.  The order in which a hash
map is iterated is an input.  Times are in milliseconds.

* `ControlPlaneGuard.admitFrame` : the gates, in their order.
* `guardMachine` : the guard as a machine, which emits what it accepts and what it forgets.
-/

namespace Boru.ControlPlane

/-! ### Envelopes -/

/-- The payloads with checks of their own. -/
structure Content where
  Extensions : Type
  ExtensionsViolation : Type
  Advertisement : Type
  Withdrawal : Type
  /-- Why they are refused. -/
  AdvertisementViolation : Type
  Coarse : Type
  validateExtensions : Extensions → Except ExtensionsViolation Unit
  /-- `PublicRoomAdvertisement::validate`. -/
  validateAdvertisement : Advertisement → Except AdvertisementViolation Unit
  /-- `PublicRoomWithdrawal::validate`. -/
  validateWithdrawal : Withdrawal → Except AdvertisementViolation Unit
  sanitized : Coarse → Option Coarse

variable {C : Content}

inductive ControlPayload (C : Content) where
  | hello (appProtocolVersion : UInt8)
  | presence (ttlSecs : Option UInt32) (coarse : Option C.Coarse)
  | capabilities (capabilities : List String)
  | diagnosticHint (hintCode : UInt32) (note : Option String)
  | extensions (payload : C.Extensions)
  | publicRoomAdvertisement (payload : C.Advertisement)
  | publicRoomWithdrawal (payload : C.Withdrawal)

structure ControlEnvelope (C : Content) where
  protocolVersion : UInt8
  senderNodeId : PublicKey
  /-- The sender's counter. -/
  sequence : UInt64
  payload : ControlPayload C
  signature : Option (GroupEncryption.Block 64)
  /-- Whether the signature was verified when the frame was decoded. -/
  signatureValid : Bool

def ControlEnvelope.dedupKey (envelope : ControlEnvelope C) : PublicKey × UInt64 :=
  (envelope.senderNodeId, envelope.sequence)

/-! ### Content -/

/-- Why an advertisement is refused. -/
inductive AdvertViolation (C : Content) where
  | capabilitiesTooMany (count max : ℕ)
  | capabilityTooLong (index len max : ℕ)
  | capabilityInvalid (index : ℕ)
  | diagnosticNoteTooLong (len max : ℕ)
  | presenceTtlTooLarge (ttl max : UInt32)
  | extensions (violation : C.ExtensionsViolation)
  | advertisement (violation : C.AdvertisementViolation)
  | withdrawal (violation : C.AdvertisementViolation)

structure ControlAdvertPolicy where
  maxCapabilities : ℕ := 64
  maxCapabilityIdLen : ℕ := 64
  maxDiagnosticNoteLen : ℕ := 256
  maxPresenceTtlSecs : UInt32 := 3600

namespace ControlAdvertPolicy

def capabilityChar (c : Char) : Bool :=
  c.isAlphanum || c = '-' || c = '_' || c = '.'

def checkCapabilities (policy : ControlAdvertPolicy) (index : ℕ) :
    List String → Except (AdvertViolation C) Unit
  | [] => .ok ()
  | id :: ids =>
    if id.utf8ByteSize = 0 ∨ policy.maxCapabilityIdLen < id.utf8ByteSize then
      .error (.capabilityTooLong index id.utf8ByteSize policy.maxCapabilityIdLen)
    else if ¬ id.toList.all capabilityChar then .error (.capabilityInvalid index)
    else policy.checkCapabilities (index + 1) ids

/-- Check a frame against the bounds. -/
def check (policy : ControlAdvertPolicy) (envelope : ControlEnvelope C) :
    Except (AdvertViolation C) Unit :=
  match envelope.payload with
  | .hello _ => .ok ()
  | .presence ttlSecs _ =>
    match ttlSecs with
    | none => .ok ()
    | some ttl =>
      if policy.maxPresenceTtlSecs < ttl then
        .error (.presenceTtlTooLarge ttl policy.maxPresenceTtlSecs)
      else .ok ()
  | .capabilities capabilities =>
    if policy.maxCapabilities < capabilities.length then
      .error (.capabilitiesTooMany capabilities.length policy.maxCapabilities)
    else policy.checkCapabilities 0 capabilities
  | .diagnosticHint _ note =>
    match note with
    | none => .ok ()
    | some note =>
      if policy.maxDiagnosticNoteLen < note.utf8ByteSize then
        .error (.diagnosticNoteTooLong note.utf8ByteSize policy.maxDiagnosticNoteLen)
      else .ok ()
  | .extensions payload => (C.validateExtensions payload).mapError .extensions
  | .publicRoomAdvertisement payload => (C.validateAdvertisement payload).mapError .advertisement
  | .publicRoomWithdrawal payload => (C.validateWithdrawal payload).mapError .withdrawal

end ControlAdvertPolicy

/-! ### Rate limit -/

/-- A sliding window for each peer that delivers frames. -/
structure ControlPlaneRateLimiter where
  /-- When the frames of a window were delivered, oldest first. -/
  windows : HashMap PublicKey (List Instant)
  maxFrames : ℕ
  window : Duration
  maxSenders : ℕ

namespace ControlPlaneRateLimiter

def withLimits (maxFrames : ℕ) (window : Duration) (maxSenders : ℕ) : ControlPlaneRateLimiter :=
  ⟨∅, max maxFrames 1, window, max maxSenders 1⟩

/-- Make room for a new peer: forget the window with the oldest first frame. -/
def makeRoom (l : ControlPlaneRateLimiter) (sender : PublicKey) (order : List PublicKey) :
    ControlPlaneRateLimiter :=
  if sender ∉ l.windows ∧ l.maxSenders ≤ l.windows.size then
    let fronts := (l.windows.iter order).filterMap fun e => e.2.head?.map fun t => (e.1, t)
    match HashMap.minByKey (fun e : PublicKey × Instant => e.2) fronts with
    | none => l
    | some oldest => { l with windows := l.windows.erase oldest.1 }
  else l

/-- `ControlPlaneRateLimiter::admit`: whether a peer may deliver another frame. -/
def admitFrame (l : ControlPlaneRateLimiter) (sender : PublicKey) (now : Instant)
    (order : List PublicKey) : ControlPlaneRateLimiter × Bool :=
  let l := l.makeRoom sender order
  let entries := (l.windows.getD sender []).dropWhile fun t => t + l.window < now
  if l.maxFrames ≤ entries.length then
    ({ l with windows := l.windows.insert sender entries }, false)
  else ({ l with windows := l.windows.insert sender (entries ++ [now]) }, true)

end ControlPlaneRateLimiter

/-! ### Peers -/

structure PeerControlState (C : Content) where
  peerId : PublicKey
  lastSeen : Instant
  discoverySeenAt : Instant
  /-- Highest sequence accepted from this peer. -/
  lastSequence : UInt64
  protocolVersion : UInt8
  /-- The version of its application, if it said hello. -/
  appProtocolVersion : Option UInt8
  capabilities : List String
  extensions : Option C.Extensions
  coarse : Option C.Coarse
  /-- How long its presence lasts. -/
  ttl : Duration

def PeerControlState.isStale (entry : PeerControlState C) (now : Instant) : Bool :=
  entry.ttl ≤ now - entry.lastSeen

/-- What became of a frame in the table. -/
inductive StoreOutcome where
  | new
  | refreshed
  | duplicate

structure PeerControlStateStore (C : Content) where
  peers : HashMap PublicKey (PeerControlState C)
  maxPeers : ℕ
  /-- How long a presence lasts at most. -/
  defaultTtl : Duration

namespace PeerControlStateStore

/-- An empty table with explicit limits. -/
def withLimits (maxPeers : ℕ) (defaultTtl : Duration) : PeerControlStateStore C :=
  ⟨∅, max maxPeers 1, max defaultTtl 1⟩

variable (store : PeerControlStateStore C)

/-- Change the default duration of a presence. -/
def setDefaultTtl (ttl : Duration) : PeerControlStateStore C :=
  { store with defaultTtl := max ttl 1 }

def forget (peer : PublicKey) : PeerControlStateStore C :=
  { store with peers := store.peers.erase peer }

variable (now : Instant)

/-- The peer to evict: a stale one, or else the one that was heard of first. -/
def toEvict (order : List PublicKey) : Option PublicKey :=
  match (store.peers.iter order).find? fun e => e.2.isStale now with
  | some stale => some stale.1
  | none =>
    (HashMap.minByKey (fun e : PublicKey × PeerControlState C => e.2.lastSeen)
      (store.peers.iter order)).map Prod.fst

/-- How long the presence of the sender lasts. -/
def ttlOf (payload : ControlPayload C) : Duration :=
  match payload with
  | .presence ttlSecs _ =>
    min ((ttlSecs.map fun secs => secs.toNat * 1000).getD store.defaultTtl) store.defaultTtl
  | _ => store.defaultTtl

/-- What a frame says about its sender, on top of what was known. -/
def advertised (entry : PeerControlState C) : ControlPayload C → PeerControlState C
  | .hello appProtocolVersion => { entry with appProtocolVersion := some appProtocolVersion }
  | .capabilities capabilities => { entry with capabilities := capabilities }
  | .extensions payload => { entry with extensions := some payload }
  | .presence _ coarse => { entry with coarse := coarse.bind C.sanitized }
  | _ => entry

def newEntry (envelope : ControlEnvelope C) (now : Instant) : PeerControlState C :=
  advertised
    { peerId := envelope.senderNodeId, lastSeen := now, discoverySeenAt := now
      lastSequence := envelope.sequence, protocolVersion := envelope.protocolVersion
      appProtocolVersion := none, capabilities := [], extensions := none, coarse := none
      ttl := store.ttlOf envelope.payload } envelope.payload

/-- The entry of a known peer after a newer frame. -/
def refreshedEntry (entry : PeerControlState C) (envelope : ControlEnvelope C) (now : Instant) :
    PeerControlState C :=
  advertised { entry with
      lastSeen := now, lastSequence := envelope.sequence
      protocolVersion := envelope.protocolVersion, ttl := store.ttlOf envelope.payload }
    envelope.payload

/-- `evict_one`, before an unknown peer is recorded, with the peer that is evicted. -/
def makeRoom (order : List PublicKey) : PeerControlStateStore C × Option PublicKey :=
  if store.maxPeers ≤ store.peers.size then
    match store.toEvict now order with
    | some peer => (store.forget peer, some peer)
    | none => (store, none)
  else (store, none)

/-- Record a frame for its sender, with the peer that is evicted for it. -/
def record (envelope : ControlEnvelope C) (now : Instant) (order : List PublicKey) :
    PeerControlStateStore C × StoreOutcome × Option PublicKey :=
  match store.peers.lookup envelope.senderNodeId with
  | some entry =>
    if envelope.sequence ≤ entry.lastSequence then (store, .duplicate, none)
    else
      ({ store with
          peers := store.peers.insert envelope.senderNodeId
            (store.refreshedEntry entry envelope now) }, .refreshed, none)
  | none =>
    let r := store.makeRoom now order
    ({ r.1 with
        peers := r.1.peers.insert envelope.senderNodeId (store.newEntry envelope now) },
      .new, r.2)

/-- Forget the peers whose presence is over. -/
def expireStale : PeerControlStateStore C × List PublicKey :=
  ({ store with
      peers := store.peers.retain fun entry => if entry.isStale now then none else some entry },
    (store.peers.entries.filter fun e => e.2.isStale now).map Sigma.fst)

end PeerControlStateStore

/-! ### The guard -/

/-- Why a frame is dropped. -/
inductive GuardRejectReason (C : Content) where
  | spoofedSender
  | rateLimited
  | duplicate
  | advertViolation (violation : AdvertViolation C)

inductive GuardVerdict (C : Content) where
  | accept
  | reject (reason : GuardRejectReason C)

/-- What the guard lets through and what it forgets. -/
inductive GuardEvent where
  /-- A frame of the sender with this sequence number is accepted. -/
  | accepted (sender : PublicKey) (sequence : UInt64)
  | removed (peer : PublicKey)
  /-- The set of seen frames is cleared. -/
  | cleared
  deriving DecidableEq

structure ControlPlaneGuard (C : Content) where
  rateLimiter : ControlPlaneRateLimiter
  dedup : Finset (PublicKey × UInt64)
  dedupCap : ℕ
  presence : PeerControlStateStore C
  policy : ControlAdvertPolicy

namespace ControlPlaneGuard

def withLimits (rateLimiter : ControlPlaneRateLimiter) (dedupCap : ℕ)
    (presence : PeerControlStateStore C) (policy : ControlAdvertPolicy) : ControlPlaneGuard C :=
  ⟨rateLimiter, ∅, dedupCap, presence, policy⟩

/-- `ControlPlaneGuard::new`: the default limits. -/
def new : ControlPlaneGuard C :=
  .withLimits (.withLimits 60 10000 4096) 4096 (.withLimits 1024 300000) {}

/-- Whether the sender of a frame is authentic: by its signature, or since it delivered the frame
itself. -/
def attributed (envelope : ControlEnvelope C) (deliveredFrom : PublicKey) : Bool :=
  match envelope.signature with
  | some _ => envelope.signatureValid
  | none => envelope.senderNodeId = deliveredFrom

variable (guard : ControlPlaneGuard C)

/-- The set of seen frames before a frame is looked up; it is cleared when it is full. -/
def seen : Finset (PublicKey × UInt64) :=
  if guard.dedupCap ≤ guard.dedup.card then ∅ else guard.dedup

def clearing : List GuardEvent :=
  if guard.dedupCap ≤ guard.dedup.card then [.cleared] else []

/-- The last two gates: the set of seen frames and the table of peers. -/
def settle (envelope : ControlEnvelope C) (now : Instant) (order : List PublicKey) :
    ControlPlaneGuard C × GuardVerdict C × List GuardEvent :=
  if envelope.dedupKey ∈ guard.seen then
    ({ guard with dedup := guard.seen }, .reject .duplicate, guard.clearing)
  else
    let r := guard.presence.record envelope now order
    let guard' :=
      { guard with dedup := insert envelope.dedupKey guard.seen, presence := r.1 }
    match r.2.1 with
    | .duplicate => (guard', .reject .duplicate, guard.clearing)
    | .new | .refreshed =>
      (guard', .accept, guard.clearing ++ r.2.2.toList.map GuardEvent.removed ++
        [.accepted envelope.senderNodeId envelope.sequence])

/-- `ControlPlaneGuard::admit`: admit one frame.  The rate limiter reads a clock of its own. -/
def admitFrame (guard : ControlPlaneGuard C) (envelope : ControlEnvelope C)
    (deliveredFrom : PublicKey) (clock now : Instant) (order : List PublicKey) :
    ControlPlaneGuard C × GuardVerdict C × List GuardEvent :=
  -- a frame that a later gate rejects still counts for the rate
  let r := guard.rateLimiter.admitFrame deliveredFrom clock order
  let guard := { guard with rateLimiter := r.1 }
  if ¬ r.2 then (guard, .reject .rateLimited, [])
  else if ¬ attributed envelope deliveredFrom then (guard, .reject .spoofedSender, [])
  else
    match guard.policy.check envelope with
    | .error violation => (guard, .reject (.advertViolation violation), [])
    | .ok () => guard.settle envelope now order

end ControlPlaneGuard

inductive GuardInput (C : Content) where
  | admitFrame (envelope : ControlEnvelope C) (deliveredFrom : PublicKey) (clock now : Instant)
      (order : List PublicKey)
  | expireStale (now : Instant)
  | setDefaultPresenceTtl (ttl : Duration)
  | clearDedup

def guardMachine (C : Content) : Machine (ControlPlaneGuard C) (GuardInput C) GuardEvent where
  step guard
    | .admitFrame envelope deliveredFrom clock now order =>
      let r := guard.admitFrame envelope deliveredFrom clock now order
      (r.1, r.2.2)
    | .expireStale now =>
      let r := guard.presence.expireStale now
      ({ guard with presence := r.1 }, r.2.map .removed)
    | .setDefaultPresenceTtl ttl =>
      ({ guard with presence := guard.presence.setDefaultTtl ttl }, [])
    | .clearDedup => ({ guard with dedup := ∅ }, [.cleared])

end Boru.ControlPlane
