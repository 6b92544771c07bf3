import Boru.LTS.Basic
import Boru.GroupEncryption.MessageGroup
import Boru.GroupEncryption.Persistence

/-!
# The encryption state of all groups

The high-level API of group encryption: group states by group, the role mirror that is consulted
for every message, and the version each group was last committed at.

The API is generic in the group scheme (`GroupScheme`): group operations consume the state of a
group and return either a new state with an output or an error.  `MessageGroup.scheme` is the
scheme that is used.  A method is a program on the encryption state whose changes stay when it
stops with an error, as those of a method on `&mut self` do.

The random source and the registry database are a part of the state (`world`).  The outcomes of the
accesses to the database are an input of each call.
-/

namespace Boru.GroupEncryption

open MessageGroup

/-- A group scheme: operations that consume the state of a group. -/
structure GroupScheme where
  State : Type
  /-- The random source and the registry database. -/
  World : Type
  Keys : Type
  Pki : Type
  Error : Type
  /-- The state of a group with the given members that is not established yet. -/
  init : PeerId → Keys → Pki → List PeerId → Except MembershipError State
  create : State → List PeerId → Prog World Error (State × EncryptedGroupEnvelope)
  add : State → PeerId → Prog World Error (State × EncryptedGroupEnvelope)
  remove : State → PeerId → Prog World Error (State × EncryptedGroupEnvelope)
  update : State → Prog World Error (State × EncryptedGroupEnvelope)
  send : State → Bytes → Except Error (State × EncryptedGroupEnvelope)
  /-- Process an incoming message. -/
  receive : State → EncryptedGroupEnvelope → Prog World Error (State × Option GroupOutput)
  members : State → HashSet PeerId
  codec : Codec State

def MessageGroup.scheme (S : Suite) (codec : Codec (GroupState S)) : GroupScheme where
  State := GroupState S
  World := S.World
  Keys := S.Keys
  Pki := S.Pki
  Error := GroupError
  init myId myKeys pki initialMembers := .ok (init myId myKeys pki
    (Membership.create myId initialMembers) (OrderingState.new myId) {})
  create := create
  add := add
  remove := remove
  update := update
  send := send
  receive := receive
  members := members
  codec := codec

/-- An error of a group operation, or one of the checks made before it. -/
inductive GroupFailure (E : Type) where
  | scheme (e : E)
  | other (message : String)

inductive EncryptionError (E : Type) where
  | groupNotFound (g : GroupId)
  | group (e : GroupFailure E)
  | membership (e : MembershipError)
  /-- The acting peer is not a member of the group, or has no recorded role. -/
  | notMember (peer : PeerId)
  /-- The acting peer lacks the role required for this operation. -/
  | notAuthorized (peer : PeerId)
  /-- The peer's role does not permit writing messages. -/
  | forbiddenRole (peer : PeerId) (role : MemberRole)
  /-- A saved state exists but cannot be loaded. -/
  | groupStateLoad (e : GroupStateLoadError)
  | groupStateWrite (e : GroupAuthTxError)
  | internal (message : String)

inductive GroupStateLoadOutcome where
  /-- A valid state was loaded, validated, and installed. -/
  | loaded
  /-- No persisted state exists. -/
  | missing

/-- Domain event published after a mutation commits. -/
inductive GroupAuthEvent where
  | memberJoined (g : GroupId) (member : PeerId) (version : ℕ)
  | memberRemoved (g : GroupId) (member : PeerId) (version : ℕ)
  | roleChanged (g : GroupId) (member : PeerId) (role : MemberRole) (version : ℕ)
  | epochRotated (g : GroupId) (oldVersion newVersion : ℕ)

structure EncryptionState (A : GroupScheme) where
  groups : HashMap GroupId A.State
  kmgState : A.Keys
  registry : A.Pki
  /-- The random source and the registry database. -/
  world : A.World
  db : Option Database
  /-- Role mirror used for per-message enforcement. -/
  groupRoles : HashMap GroupId Roles
  selfIds : HashMap GroupId PeerId
  groupVersions : HashMap GroupId ℕ

namespace EncryptionState

open Prog

variable {A : GroupScheme}

variable (g : GroupId) (myId : PeerId) (state : A.State) (roles : Roles)
  (disk : Disk)

abbrev Method (A : GroupScheme) := Prog (EncryptionState A) (EncryptionError A.Error)

/-- Run a group operation on the world. -/
def call {α : Type} (x : Prog A.World A.Error α) : Method A α :=
  (x.mapErr fun e => .group (.scheme e)).within world fun s world => { s with world }

/-- The role mirror entry of a peer in a group. -/
def memberRole (s : EncryptionState A) (g : GroupId) (peer : PeerId) : Option MemberRole :=
  (s.groupRoles.lookup g).bind fun roles => roles.lookup peer

def localIdentity : Method A PeerId := do
  let s ← get
  okOr (s.selfIds.lookup g) (.internal ("no local identity recorded for " ++ g.debug))

/-! ### Persistence -/

/-- Persist a state and a role mirror of a group as one transaction: the new version. -/
def persistGroupMutation (expectedVersion : ℕ) (fault : Option GroupAuthFault) (disk : Disk) :
    Method A ℕ := do
  let s ← get
  match s.db with
  -- nothing to commit: the version stays at its in-memory value
  | none => pure expectedVersion
  | some db => do
    require (¬ disk.poisoned) (.internal "db lock poisoned")
    let (db, version) ← ofExcept .groupStateWrite
      (Persistence.saveGroupStateAndRoles A.codec disk db g state roles (s.selfIds.lookup g)
        expectedVersion fault)
    modify fun s => { s with db := some db }
    pure version

/-- Persist the current state and role mirror of a group. -/
def persistCurrentGroupState : Method A ℕ := do
  let s ← get
  match s.groups.lookup g with
  | none => pure (s.groupVersions.getD g 0)
  | some state => do
    let version ← persistGroupMutation g state ((s.groupRoles.lookup g).getD ∅)
      (s.groupVersions.getD g 0) none disk
    modify fun s => { s with groupVersions := s.groupVersions.insert g version }
    pure version

/-- Validate that a decoded state and its role mirror are consistent. -/
def validateLoadedGroupState (selfId : Option PeerId) : Except GroupStateLoadError Unit :=
  let members := A.members state
  if members.keys = [] then .error (.corrupt g "decoded state has an empty member set")
  else
    match selfId.filter (· ∉ members) with
    | some me => .error (.corrupt g
      ("stored local identity " ++ me.debug ++ " is not a member of the decoded group state"))
    | none =>
      match roles.keys.find? (· ∉ members) with
      | some peer => .error (.corrupt g ("role mirror references non-member " ++ peer.debug))
      | none => .ok ()

def loadGroupStateFromDb : Method A GroupStateLoadOutcome := do
  let s ← get
  match s.db with
  | none => pure .missing
  | some db => do
    require (¬ disk.poisoned) (.internal "db lock: poisoned lock: another task failed inside")
    match Persistence.loadGroupState A.codec disk db g with
    | .error .missing => pure .missing
    | .error e => throw (.groupStateLoad e)
    | .ok state => do
      let loaded ← ofExcept .groupStateLoad (Persistence.loadGroupRoles A.codec disk db g)
      let (roles, selfId) := loaded.getD (∅, none)
      ofExcept .groupStateLoad (validateLoadedGroupState g state roles selfId)
      let version ← ofExcept .groupStateLoad (Persistence.loadGroupVersion disk db g)
      modify fun s => { s with
        groups := s.groups.insert g state
        groupRoles := if roles.keys = [] then s.groupRoles else s.groupRoles.insert g roles
        selfIds := match selfId with
          | none => s.selfIds
          | some me => s.selfIds.insert g me
        groupVersions := s.groupVersions.insert g version }
      pure .loaded

/-- Roll back a group to the last committed state, or to the backup if there is no database. -/
def rollbackGroupState (backup : Bytes) (disk : Disk) : Method A Unit := do
  let s ← get
  match s.db with
  | some _ => do
    set { s with
      groups := s.groups.erase g
      groupRoles := s.groupRoles.erase g
      groupVersions := s.groupVersions.erase g }
    let _ ← (loadGroupStateFromDb g disk).attempt
  | none =>
    match A.codec.takeState backup with
    | .error _ => pure ()
    | .ok (old, _) => modify fun s => { s with groups := s.groups.insert g old }

/-- Remove the persisted rows of a group. -/
def deleteGroupStateFromDb : Method A Unit := do
  let s ← get
  match s.db with
  | none => pure ()
  | some db =>
    -- the lock is unwrapped: nothing happens after a panic
    if disk.poisoned then pure ()
    else set { s with
      db := some (Persistence.deleteGroup disk db g)
      groupVersions := s.groupVersions.erase g }

/-! ### Creating and joining -/

/-- An empty state for a group we expect to join. -/
def initGroup : Method A Unit := do
  let s ← get
  let state ← ofExcept .membership (A.init myId s.kmgState s.registry [])
  set { s with
    groups := s.groups.insert g state
    selfIds := s.selfIds.insert g myId
    groupRoles := s.groupRoles.upsert g ∅ fun roles => HashMap.orInsert roles myId .writer }

/-- Create a group with ourselves as the owner. -/
def createGroup (initialMembers : List PeerId) (disk : Disk) : Method A EncryptedGroupEnvelope := do
  let s ← get
  let state ← ofExcept .membership (A.init myId s.kmgState s.registry initialMembers)
  modify fun s => { s with selfIds := s.selfIds.insert g myId }
  let roles : Roles := initialMembers.foldl
    (fun roles m => HashMap.orInsert roles m .writer) (AList.insert myId .admin ∅)
  let (state, message) ← call (A.create state initialMembers)
  match ← (persistGroupMutation g state roles 0 none disk).attempt with
  | .error e => do
    modify fun s =>
      { s with groupRoles := s.groupRoles.erase g, selfIds := s.selfIds.erase g }
    throw e
  | .ok version => do
    modify fun s => { s with
      groups := s.groups.insert g state
      groupRoles := s.groupRoles.insert g roles
      groupVersions := s.groupVersions.insert g version }
    pure message

/-! ### Mutations -/

variable (s : EncryptionState A) (g : GroupId) (actor member : PeerId)
  (fault : Option GroupAuthFault) (disk : Disk) (state : A.State) (sender : PeerId)
  (event : Option GroupEvent)

/-- Apply a group operation and commit its result: the message and the versions before and after.
A failed operation or transaction rolls the group back. -/
def mutateGroup (op : A.State → Prog A.World A.Error (A.State × EncryptedGroupEnvelope))
    (newRoles : Roles → Roles)
    (fault : Option GroupAuthFault) (disk : Disk) : Method A (EncryptedGroupEnvelope × ℕ × ℕ) := do
  let s ← get
  let state ← okOr (s.groups.lookup g) (.groupNotFound g)
  set { s with groups := s.groups.erase g }
  let backup ← ofExcept (fun e => .internal ("state backup failed: " ++ e.message))
    (A.codec.encodeState state)
  match ← (call (op state)).attempt with
  | .error e => do
    rollbackGroupState g backup disk
    throw e
  | .ok (state, message) => do
    let roles := newRoles ((s.groupRoles.lookup g).getD ∅)
    let expected := s.groupVersions.getD g 0
    match ← (persistGroupMutation g state roles expected fault disk).attempt with
    | .error e => do
      rollbackGroupState g backup disk
      throw e
    | .ok version => do
      modify fun s => { s with
        groups := s.groups.insert g state
        groupRoles := s.groupRoles.insert g roles
        groupVersions := s.groupVersions.insert g version }
      pure (message, expected, version)

/-- Only an admin may manage a group. -/
def requireAdmin : Method A Unit := do
  let s ← get
  require (((s.memberRole g actor).getD .writer).canManage) (.notAuthorized actor)

def applyMemberJoin : Method A (EncryptedGroupEnvelope × GroupAuthEvent) := do
  let myId ← localIdentity g
  requireAdmin g myId
  let s ← get
  let state ← okOr (s.groups.lookup g) (.groupNotFound g)
  require (member ∉ A.members state) (.group (.other "member is already in the group"))
  require (member ≠ myId) (.group (.other "cannot add ourselves to the group"))
  let (message, _, version) ←
    mutateGroup g (A.add · member) (fun roles => roles.insert member .writer) fault disk
  pure (message, .memberJoined g member version)

def applyMemberRemove : Method A (EncryptedGroupEnvelope × GroupAuthEvent) := do
  let myId ← localIdentity g
  requireAdmin g myId
  let s ← get
  let state ← okOr (s.groups.lookup g) (.groupNotFound g)
  require (member ∈ A.members state) (.group (.other "member is not in the group"))
  require (member ≠ myId) (.group (.other "cannot remove ourselves with this API"))
  let (message, _, version) ←
    mutateGroup g (A.remove · member) (fun roles => roles.erase member) fault disk
  pure (message, .memberRemoved g member version)

def rotateEpoch : Method A (EncryptedGroupEnvelope × GroupAuthEvent) := do
  requireAdmin g actor
  let (message, oldVersion, newVersion) ← mutateGroup g A.update id fault disk
  pure (message, .epochRotated g oldVersion newVersion)

def applyRoleChange (role : MemberRole) (disk : Disk) : Method A GroupAuthEvent := do
  let s ← get
  let actorRole ← okOr (s.memberRole g actor) (.notMember actor)
  require actorRole.canManage (.notAuthorized actor)
  let roles ← okOr (s.groupRoles.lookup g) (.groupNotFound g)
  require (member ∈ roles) (.notMember member)
  let state ← okOr (s.groups.lookup g) (.groupNotFound g)
  let version ← persistGroupMutation g state (roles.insert member role)
    (s.groupVersions.getD g 0) none disk
  modify fun s => { s with
    groupRoles := s.groupRoles.insert g (roles.insert member role)
    groupVersions := s.groupVersions.insert g version }
  pure (.roleChanged g member role version)

/-! ### Messages -/

def sendMessage (plaintext : Bytes) (disk : Disk) : Method A EncryptedGroupEnvelope := do
  let myId ← localIdentity g
  let s ← get
  let state ← okOr (s.groups.lookup g) (.groupNotFound g)
  require (myId ∈ A.members state) (.notMember myId)
  let role := (s.memberRole g myId).getD .writer
  require role.canWrite (.forbiddenRole myId role)
  -- the group is taken out of the map, and put back only if the operation succeeds
  set { s with groups := s.groups.erase g }
  let (state, message) ← ofExcept (fun e => .group (.scheme e)) (A.send state plaintext)
  modify fun s => { s with groups := s.groups.insert g state }
  let _ ← (persistCurrentGroupState g disk).attempt
  pure message

/-- Drop application plaintext unless the sender of the envelope may write. -/
def enforceRole : Method A (Option GroupEvent) :=
  if event.any GroupEvent.isApplication then do
    let s ← get
    let state ← okOr (s.groups.lookup g) (.groupNotFound g)
    if sender ∉ A.members state then pure none
    else if ((s.memberRole g sender).getD .writer).canWrite then pure event
    else pure none
  else pure event

/-- Process an incoming message: at most one event is returned. -/
def receiveMessage (envelope : EncryptedGroupEnvelope) (disk : Disk) :
    Method A (Option GroupEvent) := do
  let s ← get
  match s.groups.lookup g with
  | none => pure none
  | some state => do
    set { s with groups := s.groups.erase g }
    let (state, output) ← call (A.receive state envelope)
    modify fun s => { s with groups := s.groups.insert g state }
    let _ ← (persistCurrentGroupState g disk).attempt
    match output with
    | none => pure none
    -- the first event of the batch, checked against the sender of this envelope
    | some output => enforceRole g envelope.sender output.events.head?

/-! ### Runs -/

/-- The operations, and what may happen between them. -/
inductive Op (A : GroupScheme) where
  | initGroup (g : GroupId) (myId : PeerId)
  | createGroup (g : GroupId) (myId : PeerId) (initialMembers : List PeerId)
  | applyMemberJoin (g : GroupId) (member : PeerId) (fault : Option GroupAuthFault)
  | applyMemberRemove (g : GroupId) (member : PeerId) (fault : Option GroupAuthFault)
  | applyRoleChange (g : GroupId) (actor member : PeerId) (role : MemberRole)
  | rotateEpoch (g : GroupId) (actor : PeerId) (fault : Option GroupAuthFault)
  | sendMessage (g : GroupId) (plaintext : Bytes)
  | receiveMessage (g : GroupId) (envelope : EncryptedGroupEnvelope)
  | loadGroupStateFromDb (g : GroupId)
  | deleteGroupStateFromDb (g : GroupId)
  | withDb (db : Database)
  /-- Other users of the attached database, the registry or the random source change them. -/
  | outside (world : A.World) (db : Database)

/-- The values the operations return. -/
inductive Outcome where
  | done
  | message (envelope : EncryptedGroupEnvelope)
  | event (event : Option GroupEvent)
  | committed (envelope : EncryptedGroupEnvelope) (event : GroupAuthEvent)
  | changed (event : GroupAuthEvent)
  | load (outcome : GroupStateLoadOutcome)

def Op.run : Op A → Disk → Method A Outcome
  | .initGroup g myId, _ => (fun _ => .done) <$> EncryptionState.initGroup g myId
  | .createGroup g myId initialMembers, disk =>
    .message <$> EncryptionState.createGroup g myId initialMembers disk
  | .applyMemberJoin g member fault, disk =>
    (fun r => .committed r.1 r.2) <$> EncryptionState.applyMemberJoin g member fault disk
  | .applyMemberRemove g member fault, disk =>
    (fun r => .committed r.1 r.2) <$> EncryptionState.applyMemberRemove g member fault disk
  | .applyRoleChange g actor member role, disk =>
    .changed <$> EncryptionState.applyRoleChange g actor member role disk
  | .rotateEpoch g actor fault, disk =>
    (fun r => .committed r.1 r.2) <$> EncryptionState.rotateEpoch g actor fault disk
  | .sendMessage g plaintext, disk => .message <$> EncryptionState.sendMessage g plaintext disk
  | .receiveMessage g envelope, disk => .event <$> EncryptionState.receiveMessage g envelope disk
  | .loadGroupStateFromDb g, disk => .load <$> EncryptionState.loadGroupStateFromDb g disk
  | .deleteGroupStateFromDb g, disk =>
    (fun _ => .done) <$> EncryptionState.deleteGroupStateFromDb g disk
  | .withDb db, _ => (fun _ => .done) <$> modify fun s => { s with db := some db }
  | .outside world db, _ =>
    (fun _ => .done) <$> modify fun s => { s with world, db := s.db.map fun _ => db }

/-- An operation with the outcomes of its accesses to the database. -/
structure Input (A : GroupScheme) where
  op : Op A
  disk : Disk := {}

/-- The encryption state as a reactive machine that outputs the result of every operation. -/
def machine (A : GroupScheme) :
    Machine (EncryptionState A) (Input A) (Except (EncryptionError A.Error) Outcome) :=
  ⟨fun s i => let r := (i.op.run i.disk).exec s; (r.2, [r.1])⟩

/-! ### A suite to run

Ciphertexts are plaintexts and all keys are equal.  The suite serves to run the model on concrete
messages; nothing is attached to it but the flow of messages and members. -/

/-- Identifiers of contents without hashing. -/
def plainId : EncryptedGroupContent → ℕ
  | .application _ generation => 8 * generation.toNat
  | .control (.create _) => 1
  | .control .update => 2
  | .control (.remove removed) => 8 * removed.bits.toNat + 3
  | .control (.add added) => 8 * added.bits.toNat + 4
  | .control (.ack _ ackSeq) => 8 * ackSeq.bits.toNat + 5
  | .control (.addAck _ ackSeq) => 8 * ackSeq.bits.toNat + 6

/-- The suite without cryptography.  Peers are named by one byte, and only seeds can be sent. -/
def plainSuite : Suite where
  World := Unit
  Pki := Unit
  Keys := Unit
  Bundle := Unit
  TwoParty := Unit
  TwoPartyMessage := Bytes
  contentId content := ⟨BitVec.ofNat 256 (plainId content)⟩
  encodeDirect dm := match dm.content with
    | .twoParty ciphertext => UInt8.ofNat dm.recipient.bits.toNat :: ciphertext
    | .welcome .. | .forward _ => []
  decodeDirect
    | [] => none
    | recipient :: ciphertext => some ⟨⟨BitVec.ofNat 256 recipient.toNat⟩, .twoParty ciphertext⟩
  randomArray := pure ⟨List.replicate 32 0, rfl⟩
  identityKey _ _ := pure (some ⟨List.replicate 32 0, rfl⟩)
  keyBundle _ _ := pure ((), some ())
  initTwoParty _ := ()
  send _ _ plaintext := pure ((), plaintext)
  receive _ _ ciphertext := .ok ((), (), ciphertext)
  hkdf n _ _ := .ok ⟨List.replicate n 0, List.length_replicate⟩
  aeadEncrypt _ plaintext _ := .ok plaintext
  aeadDecrypt _ ciphertext _ := .ok ciphertext

def plainCodec : Codec (GroupState plainSuite) where
  encodeState _ := .error ⟨"not stored"⟩
  takeState _ := .error ⟨"not stored"⟩
  encodeVersion _ := .error ⟨"not stored"⟩
  takeVersion _ := .error ⟨"not stored"⟩
  encodeRoles _ := .error ⟨"not stored"⟩
  decodeRoles _ := .error ⟨"not stored"⟩
  verifyingKey _ := .error ⟨"not stored"⟩
  blake3 _ := ⟨List.replicate 32 0, rfl⟩

/-- Message groups without cryptography. -/
def plainScheme : GroupScheme := scheme plainSuite plainCodec

/-- A new encryption state without a database. -/
def plainState : EncryptionState plainScheme where
  groups := ∅
  kmgState := ()
  registry := ()
  world := ()
  db := none
  groupRoles := ∅
  selfIds := ∅
  groupVersions := ∅

/-! ### What receiving does -/

/-- Persisting changes nothing but the database and the versions. -/
structure Persisted (s s' : EncryptionState A) : Prop where
  groups : s'.groups = s.groups
  groupRoles : s'.groupRoles = s.groupRoles
  selfIds : s'.selfIds = s.selfIds

theorem Persisted.refl : Persisted s s := ⟨rfl, rfl, rfl⟩

theorem persistGroupMutation_persisted (roles : Roles) (ex : ℕ)
    (fault : Option GroupAuthFault) (disk : Disk) :
    leaves (persistGroupMutation g state roles ex fault disk) (Persisted s) s := by
  simp only [persistGroupMutation, wp_bind, wp_get]
  cases s.db with
  | none => exact .refl s
  | some db =>
    simp only [wp_bind, wp_require, wp_ofExcept, wp_pure]
    exact ⟨fun _ => ⟨fun _ _ => ⟨rfl, rfl, rfl⟩, fun _ _ => .refl s⟩, fun _ => .refl s⟩

theorem persistCurrentGroupState_persisted :
    leaves (persistCurrentGroupState g disk) (Persisted s) s := by
  simp only [persistCurrentGroupState, wp_bind, wp_get]
  cases s.groups.lookup g with
  | none => exact .refl s
  | some state =>
    simp only [wp_bind, wp_pure]
    exact wp_mono (persistGroupMutation_persisted s g state _ _ none disk)
      (fun _ _ h => ⟨h.groups, h.groupRoles, h.selfIds⟩) fun _ _ h => h

def mayWrite (peer : PeerId) : Bool :=
  peer ∈ A.members state && ((s.memberRole g peer).getD .writer).canWrite

/-- What is surfaced of the first event of a batch: application plaintext only if the sender of the
envelope may write. -/
def surfaced : Option GroupEvent :=
  if event.any GroupEvent.isApplication && !s.mayWrite g state sender then none else event

variable {s : EncryptionState A} {g : GroupId} {state : A.State}

theorem surfaced_eq_application {sender : PeerId} {event : Option GroupEvent} {text : Bytes}
    {id : OpId} :
    s.surfaced g state sender event = some (.application text id) ↔
      event = some (.application text id) ∧ s.mayWrite g state sender := by
  unfold surfaced
  constructor
  · intro h
    split_ifs at h with hd
    subst h
    exact ⟨rfl, by simpa [GroupEvent.isApplication] using hd⟩
  · rintro ⟨rfl, hw⟩
    simp [hw]

theorem mayWrite_congr {s' : EncryptionState A} (h : s'.groupRoles = s.groupRoles) (g : GroupId)
    (state : A.State) (peer : PeerId) : s'.mayWrite g state peer = s.mayWrite g state peer := by
  unfold mayWrite memberRole
  rw [h]

/-- The first event of a batch is looked at, nothing is changed. -/
theorem enforceRole_same (s : EncryptionState A) (g : GroupId) (sender : PeerId)
    (event : Option GroupEvent) :
    leaves (enforceRole g sender event) (fun s' => s' = s) s := by
  unfold enforceRole
  split
  · simp only [wp_bind, wp_get, wp_okOr, implies_true, and_true]
    intro y _
    split_ifs <;> rfl
  · exact rfl

variable (h : s.groups.lookup g = some state)

include h

theorem enforceRole_surfaced (sender : PeerId) (event : Option GroupEvent) :
    wp (enforceRole g sender event)
      (fun r s' => r = s.surfaced g state sender event ∧ s' = s) (fun _ _ => False) s := by
  unfold enforceRole surfaced mayWrite
  by_cases ha : event.any GroupEvent.isApplication
  · simp only [ha, if_true, wp_bind, wp_get, h]
    by_cases hmem : sender ∈ A.members state
    · by_cases hr : ((s.memberRole g sender).getD .writer).canWrite <;> simp [hmem, hr]
    · simp [hmem]
  · simp [ha]

/-- Receiving an envelope the group accepts: the first event of the batch is surfaced unless it is
plaintext and the sender of the envelope may not write. -/
theorem receiveMessage_of_ok {state' : A.State} {env : EncryptedGroupEnvelope}
    {out : Option GroupOutput} {world : A.World}
    (hr : (A.receive state env).exec s.world = (.ok (state', out), world)) (disk : Disk) :
    wp (receiveMessage g env disk)
      (fun r s' => r = s.surfaced g state' env.sender (out.bind (·.events.head?)) ∧
        s'.groups.lookup g = some state' ∧ s'.groupRoles = s.groupRoles)
      (fun _ _ => False) s := by
  simp only [receiveMessage, wp_bind, wp_get, h, wp_set, call, wp_within, wp_mapErr, wp_of_ok hr,
    wp_modify, wp_attempt]
  refine wp_mono (E := fun _ s' => Persisted _ s')
    (persistCurrentGroupState_persisted _ g disk) ?_ ?_
  all_goals
    intro _ s' hs'
    have hs : s'.groups.lookup g = some state' := by
      rw [hs'.groups]
      exact AList.lookup_insert _
    cases out with
    | none => exact ⟨rfl, hs, hs'.groupRoles⟩
    | some out =>
      refine wp_mono (enforceRole_surfaced hs env.sender out.events.head?) ?_ fun _ _ hf => hf
      rintro r s'' ⟨rfl, rfl⟩
      refine ⟨?_, hs, hs'.groupRoles⟩
      unfold surfaced
      rw [mayWrite_congr hs'.groupRoles]
      rfl

/-- What persisting the received state leaves is what receiving leaves: the role of the sender is
only looked at. -/
theorem leaves_receiveMessage {P : EncryptionState A → Prop} {st' : A.State}
    {env : EncryptedGroupEnvelope} {out : Option GroupOutput} {world : A.World}
    (hr : (A.receive state env).exec s.world = (.ok (st', out), world)) {disk : Disk}
    (hs : leaves (persistCurrentGroupState g disk) P
      { s with world, groups := (s.groups.erase g).insert g st' }) :
    leaves (receiveMessage g env disk) P s := by
  simp only [receiveMessage, wp_bind, wp_get, h, wp_set, call, wp_within, wp_mapErr, wp_of_ok hr,
    wp_modify, wp_attempt]
  refine wp_mono hs ?_ ?_
  all_goals
    intro _ s' hs'
    cases out with
    | none => exact hs'
    | some out =>
      refine wp_mono (enforceRole_same s' g env.sender out.events.head?) ?_ ?_
      all_goals
        rintro _ _ rfl
        exact hs'

/-- Receiving an envelope the group rejects: the group is not put back. -/
theorem receiveMessage_of_error {env : EncryptedGroupEnvelope} {e : A.Error}
    {world : A.World} (hr : (A.receive state env).exec s.world = (.error e, world)) (disk : Disk) :
    wp (receiveMessage g env disk) (fun _ _ => False)
      (fun _ s' => s' = { s with groups := s.groups.erase g, world }) s := by
  simp only [receiveMessage, wp_bind, wp_get, h, wp_set, call, wp_within, wp_mapErr, wp_of_error hr]

end EncryptionState

end Boru.GroupEncryption
