import Mathlib.Data.List.Range
import Boru.GroupEncryption.Types

/-!
# Persistence of encrypted groups

The two tables a group is kept in: the encoded state of the group with its version, and the role
mirror with our identity.  `saveGroupStateAndRoles` writes both rows in one transaction and checks
that the stored version is the one the caller started from; a failure anywhere leaves the database
as it was.

Every statement of the database can fail.  Which ones do is an input of each call (`Disk`).
-/

namespace Boru.GroupEncryption

def PeerId.toKey (p : PeerId) : Key :=
  ⟨(List.range 32).map fun i => UInt8.ofNat (p.bits.toNat >>> (8 * (31 - i))), by simp⟩

/-- The encodings used by the store, for group states in `St`. -/
structure Codec (St : Type) where
  encodeState : St → Except Failure Bytes
  /-- Decode a group state from the front of a byte string: the state and the rest. -/
  takeState : Bytes → Except Failure (St × Bytes)
  encodeVersion : UInt32 → Except Failure Bytes
  /-- Decode a storage version from the front of a byte string. -/
  takeVersion : Bytes → Except Failure (UInt32 × Bytes)
  encodeRoles : Roles → Except Failure Bytes
  decodeRoles : Bytes → Except Failure Roles
  verifyingKey : Key → Except Failure PeerId
  blake3 : Bytes → Key

/-! ### Database -/

/-- A row of the table of group states. -/
structure StateRow where
  state : Bytes
  /-- The version of the optimistic concurrency check. -/
  version : ℕ

/-- A row of the table of role mirrors. -/
structure RolesRow where
  roles : Bytes
  selfId : Option Bytes

structure Database where
  states : HashMap GroupId StateRow
  roles : HashMap GroupId RolesRow

/-- Which accesses to the database fail during a call. -/
structure Disk where
  /-- Another thread panicked while it held the lock. -/
  poisoned : Bool := false
  /-- Start a transaction and read the version. -/
  start : Option Failure := none
  writeRoles : Option Failure := none
  writeState : Option Failure := none
  commit : Option Failure := none
  readState : Option Failure := none
  readRoles : Option Failure := none
  readVersion : Option Failure := none
  deleteState : Option Failure := none
  deleteRoles : Option Failure := none

/-- Failures injected to verify the rollback of a transaction. -/
inductive GroupAuthFault where
  | afterMembershipWrite
  | afterCryptoStateWrite
  deriving DecidableEq

/-- Errors from a transactional write. -/
inductive GroupAuthTxError where
  /-- The stored version is not the one the caller expected. -/
  | versionConflict (expected current : ℕ)
  | io (e : Failure)

inductive GroupStateLoadError where
  | missing
  /-- A record exists but cannot be decoded or is not valid. -/
  | corrupt (groupId : GroupId) (reason : String)
  /-- The stored state uses a format version that cannot be loaded. -/
  | unsupportedVersion (groupId : GroupId) (version : UInt32)
  | io (e : Failure)

namespace Persistence

variable {St : Type} (C : Codec St)

def access {ε : Type} (io : Failure → ε) : Option Failure → Except ε Unit
  | none => .ok ()
  | some e => .error (io e)

def groupStateStorageVersion : UInt32 := 1

/-- The stored form of a state: version, state and the hash of both. -/
def encodeEnvelope (state : St) : Except Failure Bytes := do
  let version ← C.encodeVersion groupStateStorageVersion
  let state ← C.encodeState state
  let body := version ++ state
  pure (body ++ (C.blake3 body).1)

/-- Decode the stored form of a state. -/
def decodeEnvelope (blob : Bytes) : Except Failure (UInt32 × St) := do
  let (version, rest) ← C.takeVersion blob
  let (state, rest) ← C.takeState rest
  if rest.length < 32 then .error ⟨"Hit the end of buffer, expected more data"⟩
  else pure (version, state)

/-- Decode a stored state, telling corruption from unsupported versions. -/
def decodeGroupStateBlob (g : GroupId) (blob : Bytes) : Except GroupStateLoadError St :=
  match C.takeState blob with
  -- the raw state that was written before there were versions
  | .ok _ => .error (.unsupportedVersion g 0)
  | .error _ =>
    if blob.length < 32 then
      .error (.corrupt g "stored state blob is too short to contain a checksum")
    else if (C.blake3 (blob.take (blob.length - 32))).1 ≠ blob.drop (blob.length - 32) then
      .error (.corrupt g "integrity checksum mismatch (stored record corrupted)")
    else
      match decodeEnvelope C blob with
      | .error e => .error (.corrupt g ("postcard decode failed: " ++ e.message))
      | .ok (version, state) =>
        if version ≠ groupStateStorageVersion then .error (.unsupportedVersion g version)
        else .ok state

/-- The stored version of a group, 0 without a row. -/
def storedVersion (db : Database) (g : GroupId) : ℕ :=
  ((db.states.lookup g).map (·.version)).getD 0

variable (disk : Disk)

variable (db : Database)

variable (g : GroupId)

/-- Write the state and the role mirror of a group in one transaction: the database after the
commit, and the new version. -/
def saveGroupStateAndRoles (state : St) (roles : Roles) (selfId : Option PeerId)
    (expectedVersion : ℕ) (fault : Option GroupAuthFault) :
    Except GroupAuthTxError (Database × ℕ) := do
  access .io disk.start
  let current := storedVersion db g
  if current ≠ expectedVersion then .error (.versionConflict expectedVersion current)
  else do
    let rolesBlob ← (C.encodeRoles roles).mapError .io
    access .io disk.writeRoles
    let rolesRow := ⟨rolesBlob, selfId.map fun p => p.toKey.1⟩
    access .io
      (if fault = some .afterMembershipWrite then some ⟨"injected fault: after membership write"⟩
      else none)
    let blob ← (encodeEnvelope C state).mapError .io
    access .io disk.writeState
    access .io
      (if fault = some .afterCryptoStateWrite then
        some ⟨"injected fault: after crypto-state write"⟩
      else none)
    access .io disk.commit
    pure (⟨db.states.insert g ⟨blob, current + 1⟩, db.roles.insert g rolesRow⟩, current + 1)

def loadGroupState : Except GroupStateLoadError St := do
  access .io disk.readState
  match db.states.lookup g with
  | none => .error .missing
  | some row => decodeGroupStateBlob C g row.state

def decodeSelfId : Option Bytes → Except GroupStateLoadError (Option PeerId)
  | none => .ok none
  | some bytes =>
    match Block.ofBytes? 32 bytes with
    | none => .error (.corrupt g "stored self_id is not exactly 32 bytes")
    | some key =>
      match C.verifyingKey key with
      | .error e =>
        .error (.corrupt g ("stored self_id is not a valid ed25519 key: " ++ e.message))
      | .ok peer => .ok (some peer)

/-- Load the role mirror of a group and our identity. -/
def loadGroupRoles : Except GroupStateLoadError (Option (Roles × Option PeerId)) := do
  access .io disk.readRoles
  match db.roles.lookup g with
  | none => pure none
  | some row => do
    let roles ← (C.decodeRoles row.roles).mapError fun e =>
      .corrupt g ("role mirror decode failed: " ++ e.message)
    let selfId ← decodeSelfId C g row.selfId
    pure (some (roles, selfId))

def loadGroupVersion : Except GroupStateLoadError ℕ := do
  access .io disk.readVersion
  pure (storedVersion db g)

/-- Delete the rows of a group; a deletion that fails is only logged. -/
def deleteGroup : Database where
  states := if disk.deleteState = none then db.states.erase g else db.states
  roles := if disk.deleteRoles = none then db.roles.erase g else db.roles

end Persistence

end Boru.GroupEncryption
