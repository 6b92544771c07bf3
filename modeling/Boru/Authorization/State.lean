import Boru.Integers
import Boru.LTS.Basic
import Boru.Mailbox.Types
import Boru.Prog.Basic

/-!
# Room roles, capabilities and signed moderation events

The state of a room names its owner, the role and the permissions of every member and the banned
keys.  It changes by signed events, each of which bears the next sequence number of the room and an
identifier that is the hash of its contents, and by `admitMember`, which is the local boundary at
which a member is let in without an event.

`AuthorizationState.apply` changes the state before its last check, so an error of that check would
leave a changed state behind.

Hashes, signatures and the encoding of what is signed are a parameter, `AuthorizationCrypto`.
-/

namespace Boru.Authorization

open GroupEncryption (Block)
open Gossip (TopicId)

/-! ### Roles, permissions and events -/

/-- Room role, ordered from least to most authority. -/
inductive Role where
  /-- A newly admitted, restricted participant. -/
  | guest
  | member
  | moderator
  /-- The sole room authority. -/
  | owner
  deriving DecidableEq

/-- Actions that can be authorized. -/
inductive Permission where
  | sendMessages
  | pinMessages
  | screenShare
  | manageRoom
  | invite
  | kick
  | ban
  | manageRoles
  deriving DecidableEq

def Role.defaultPermissions : Role → List Permission
  | .owner =>
    [.sendMessages, .pinMessages, .screenShare, .manageRoom, .invite, .kick, .ban, .manageRoles]
  | .moderator => [.sendMessages, .pinMessages, .screenShare, .invite, .kick, .ban]
  | .member => [.sendMessages, .pinMessages, .screenShare]
  | .guest => [.sendMessages]

/-- Numeric authority used for strict hierarchy checks. -/
def Role.authority : Role → ℕ
  | .guest => 0
  | .member => 1
  | .moderator => 2
  | .owner => 3

/-- A room authorization operation. -/
inductive AuthorizationAction where
  | grant (permission : Permission)
  | revoke (permission : Permission)
  | changeRole (role : Role)
  | ban
  | unban
  /-- Admit a new non-owner member. -/
  | admitAs (role : Role)
  deriving DecidableEq

/-- Signed, replay-protected authorization operation. -/
structure AuthorizationEvent where
  version : UInt8
  groupId : TopicId
  eventId : Block 32
  /-- The position in the order of events of the room. -/
  sequence : UInt64
  actor : PublicKey
  target : PublicKey
  action : AuthorizationAction
  signature : Block 64

/-- Fail-closed authorization errors. -/
inductive AuthorizationError where
  | unsupportedVersion (version : UInt8)
  | wrongGroup
  | invalidSignature
  | eventIdMismatch
  | replay
  | outOfOrder (expectedAfter actual : UInt64)
  | unknownActor
  | unknownTarget
  | banned
  | permissionDenied
  | ownerSafety
  | invalidTransition
  | decode (message : String)
  deriving DecidableEq

def authorizationVersion : UInt8 := 1

def signingDomain : String := "boru/room-authorization"

/-! ### Cryptography -/

structure SignedFields where
  groupId : TopicId
  /-- The identifier; zeros where the identifier itself is derived. -/
  eventId : Block 32
  sequence : UInt64
  actor : PublicKey
  target : PublicKey
  action : AuthorizationAction

/-- The cryptography and the encoding that events depend on. -/
structure AuthorizationCrypto where
  /-- `canonical_signed_bytes`: a domain, a version and the fields. -/
  canonicalSignedBytes : String → UInt8 → SignedFields → Except String Bytes
  hash : Bytes → Block 32
  /-- Whether a signature over the bytes is that of the key. -/
  verify : PublicKey → Bytes → Block 64 → Bool

namespace AuthorizationCrypto

/-- The bytes that the signature of an event covers. -/
def signingBytes (C : AuthorizationCrypto) (version : UInt8) (fields : SignedFields) :
    Except AuthorizationError Bytes :=
  (C.canonicalSignedBytes signingDomain version fields).mapError .decode

def deriveId (C : AuthorizationCrypto) (groupId : TopicId) (sequence : UInt64)
    (actor target : PublicKey) (action : AuthorizationAction) :
    Except AuthorizationError (Block 32) := do
  let bytes ← C.signingBytes authorizationVersion
    ⟨groupId, Block.replicate 32 0, sequence, actor, target, action⟩
  pure (C.hash bytes)

end AuthorizationCrypto

/-! ### The state of a room -/

structure AuthorizationState where
  groupId : TopicId
  owner : PublicKey
  members : HashMap PublicKey Role
  permissions : HashMap PublicKey (Finset Permission)
  banned : Finset PublicKey
  /-- The sequence number of the last accepted event. -/
  lastSequence : UInt64
  /-- The identifiers of the accepted events. -/
  appliedEvents : Finset (Block 32)

namespace AuthorizationState

variable (s : AuthorizationState)

variable (peer : PublicKey)

/-- Set the role of a member and the permissions that come with it. -/
def setRole (role : Role) : AuthorizationState :=
  { s with
    members := s.members.insert peer role
    permissions := s.permissions.insert peer role.defaultPermissions.toFinset }

/-- Start a room with exactly one authority. -/
def new (groupId : TopicId) (owner : PublicKey) : AuthorizationState :=
  setRole
    { groupId := groupId
      owner := owner
      members := ∅
      permissions := ∅
      banned := ∅
      lastSequence := 0
      appliedEvents := ∅ }
    owner .owner

def roleOf : Option Role := s.members.lookup peer

def isBanned : Bool := peer ∈ s.banned

/-- Validate the invariants required before trusting this state. -/
def validate : Except AuthorizationError Unit :=
  let ownerCount := s.members.countValues (· = Role.owner)
  let keysMatch := s.members.keys.all (· ∈ s.permissions) && s.permissions.keys.all (· ∈ s.members)
  if s.members.lookup s.owner ≠ some .owner ∨ ownerCount ≠ 1 ∨ s.owner ∈ s.banned ∨ ¬ keysMatch then
    .error .invalidTransition
  else .ok ()

/-- Test and bootstrap boundary for admitting a member. -/
def admitMember (role : Role) : AuthorizationState × Except AuthorizationError Unit :=
  if peer ∈ s.banned ∨ peer ∈ s.members ∨ role = .owner then (s, .error .invalidTransition)
  else (s.setRole peer role, .ok ())

/-- Check a capability at the enforcement boundary. -/
def allows (permission : Permission) : Bool :=
  peer ∈ s.members && !s.isBanned peer &&
    (s.permissions.lookup peer).any fun permissions => permission ∈ permissions

end AuthorizationState

/-- Verify an event against the state of its room. -/
def AuthorizationEvent.verify (C : AuthorizationCrypto) (e : AuthorizationEvent)
    (s : AuthorizationState) : Except AuthorizationError Unit :=
  if e.version ≠ authorizationVersion then .error (.unsupportedVersion e.version)
  else if e.groupId ≠ s.groupId then .error .wrongGroup
  else if e.eventId ∈ s.appliedEvents then .error .replay
  else if e.sequence ≠ saturatingAdd s.lastSequence 1 then
    .error (.outOfOrder s.lastSequence e.sequence)
  else do
    let expected ← C.deriveId e.groupId e.sequence e.actor e.target e.action
    if e.eventId ≠ expected then .error .eventIdMismatch
    else do
      let bytes ← C.signingBytes e.version
        ⟨e.groupId, e.eventId, e.sequence, e.actor, e.target, e.action⟩
      if C.verify e.actor bytes e.signature then .ok () else .error .invalidSignature

namespace AuthorizationState

variable (s : AuthorizationState)

/-- Whether a member of the role may act upon the target. -/
def managesTarget (actorRole : Role) (target : PublicKey) : Bool :=
  (s.roleOf target).any fun role => target ≠ s.owner && role.authority < actorRole.authority

/-- The permissions that a moderator may grant and revoke. -/
def moderatorGrants : List Permission := [.pinMessages, .invite, .kick, .ban]

/-- Whether a member of the role may grant and revoke the permission. -/
def mayGrant (permission : Permission) : Role → Bool
  | .owner => true
  | .moderator => permission ∈ moderatorGrants
  | .guest | .member => false

/-- The decision on an action of a member of the role. -/
def allowed (actorRole : Role) (target : PublicKey) : AuthorizationAction → Bool
  | .grant permission | .revoke permission =>
    s.managesTarget actorRole target && mayGrant permission actorRole
  | .changeRole role => actorRole = .owner && role ≠ .owner && s.managesTarget actorRole target
  | .ban => s.managesTarget actorRole target && (actorRole = .owner || actorRole = .moderator)
  | .unban =>
    s.managesTarget actorRole target && (actorRole = .owner || actorRole = .moderator) &&
      target ∈ s.banned
  | .admitAs role =>
    actorRole = .owner && s.roleOf target = none && role ≠ .owner && target ∉ s.banned

/-- Pure policy evaluation: authentication, order, hierarchy, bans and owner safety. -/
def evaluate (C : AuthorizationCrypto) (s : AuthorizationState) (e : AuthorizationEvent) :
    Except AuthorizationError Unit := do
  s.validate
  e.verify C s
  match s.roleOf e.actor with
  | none => .error .unknownActor
  | some actorRole =>
    if e.actor ∈ s.banned then .error .banned
    else if e.target ∈ s.banned ∧ e.action ≠ .unban then .error .banned
    else if s.allowed actorRole e.target e.action then .ok ()
    else if e.target = s.owner ∨ e.action = .changeRole .owner then .error .ownerSafety
    else .error (if s.roleOf e.target = none then .unknownTarget else .permissionDenied)

/-- What an action changes, before the event is recorded. -/
@[simp] def perform (target : PublicKey) : AuthorizationAction → AuthorizationState
  | .grant permission =>
    { s with permissions := s.permissions.upsert target ∅ (insert permission) }
  | .revoke permission =>
    { s with permissions := s.permissions.upsert target ∅ (·.erase permission) }
  | .changeRole role => s.setRole target role
  | .admitAs role => s.setRole target role
  | .ban => { s with banned := insert target s.banned }
  | .unban => { s with banned := s.banned.erase target }

/-- The action of an accepted event and the record of the event. -/
def accept (e : AuthorizationEvent) : AuthorizationState :=
  { s.perform e.target e.action with
    lastSequence := e.sequence
    appliedEvents := insert e.eventId s.appliedEvents }

/-- Apply a signed event after policy evaluation. -/
def apply (C : AuthorizationCrypto) (s : AuthorizationState) (e : AuthorizationEvent) :
    AuthorizationState × Except AuthorizationError Unit :=
  match s.evaluate C e with
  | .error err => (s, .error err)
  | .ok () => (s.accept e, (s.accept e).validate)

end AuthorizationState

/-! ### Runs -/

/-- The calls that change the state of a room. -/
inductive Call where
  | apply (event : AuthorizationEvent)
  | admitMember (peer : PublicKey) (role : Role)

/-- The state after a call, and what the call returns. -/
def AuthorizationState.call (C : AuthorizationCrypto) (s : AuthorizationState) :
    Call → AuthorizationState × Except AuthorizationError Unit
  | .apply e => s.apply C e
  | .admitMember peer role => s.admitMember peer role

/-- The room as a machine: calls in, calls with their results out. -/
def room (C : AuthorizationCrypto) :
    Machine AuthorizationState Call (Call × Except AuthorizationError Unit) where
  step s c := ((s.call C c).1, [(c, (s.call C c).2)])

/-- The events among the calls that returned without an error, in order. -/
def accepted (results : List (Call × Except AuthorizationError Unit)) : List AuthorizationEvent :=
  results.filterMap fun
    | (.apply e, .ok ()) => some e
    | _ => none

end Boru.Authorization
