import Boru.Storage.Outbox

/-!
# Companion devices in the message store

A companion device works under a *grant*: a row with the device it is bound to, a revision that
every change of the row advances, and a scope.  What companions do is recorded as change
references, under the numbers of one sequence that all registrations share, and a companion
catches up by paging through the references of its registration.

Every method is one transaction, which returns an error and changes nothing or returns the store
after it.  A snapshot token is JSON in hexadecimal in the code; here it is the record it is read
as, `none` if it is malformed.  Clients hold the tokens, and nothing authenticates them.
-/

namespace Boru.Companion

open GroupEncryption (Key Failure)

structure DeviceRegistration where
  deviceId : Bytes
  grantRevision : ℤ
  grantScope : String
  revoked : Bool := false

structure ChangeReference where
  registrationId : Bytes
  operationId : Bytes
  messageHash : Bytes
  sequence : ℤ
  entityRevision : ℤ
  kind : String
  tombstone : Bool := false

structure MessageStore where
  deviceRegistrations : Table Bytes DeviceRegistration := ∅
  /-- The references by their change identifiers, the newest first. -/
  changeReferences : Table Bytes ChangeReference := ∅
  changeSequence : ℤ := 0
  syncEpoch : Bytes := []

structure CompanionSnapshotToken where
  epoch : Bytes
  registrationId : Bytes
  deviceId : Bytes
  grantRevision : ℤ
  scope : String
  watermark : ℤ
  expiresAtMs : UInt64

structure CompanionChange where
  sequence : ℤ
  changeId : Bytes
  entityId : Bytes
  entityRevision : ℤ
  kind : String
  tombstone : Bool
  deriving DecidableEq

structure CompanionChangePage where
  changes : List CompanionChange
  nextSequence : ℤ
  /-- `end`. -/
  atEnd : Bool
  deriving DecidableEq

def CompanionChange.ofRow (row : Bytes × ChangeReference) : CompanionChange :=
  ⟨row.2.sequence, row.1, row.2.messageHash, row.2.entityRevision, row.2.kind, row.2.tombstone⟩

namespace MessageStore

variable (s : MessageStore)

variable (snapshot : CompanionSnapshotToken) (after : ℤ)
  (registrationId operationId changeId deviceId : Bytes) (grantRevision : ℤ)

/-- The row of a live grant: device and revision must be those of the registration. -/
def authorizeCompanion : Option DeviceRegistration :=
  (s.deviceRegistrations.lookup registrationId).filter fun row =>
    row.deviceId = deviceId && !row.revoked && row.grantRevision = grantRevision

def registerDevice : MessageStore :=
  let row : DeviceRegistration := match s.deviceRegistrations.lookup registrationId with
    | none => ⟨deviceId, 1, "accessible", false⟩
    | some row => { row with deviceId, revoked := false, grantRevision := row.grantRevision + 1 }
  { s with deviceRegistrations := s.deviceRegistrations.insert registrationId row }

/-- Change the grant of a registration that is not revoked, under a new revision. -/
def updateGrant (set : DeviceRegistration → DeviceRegistration) : Bool × MessageStore :=
  let (rows, changed) := s.deviceRegistrations.updateRow registrationId (!·.revoked) fun row =>
    { set row with grantRevision := row.grantRevision + 1 }
  (changed, { s with deviceRegistrations := rows })

def setCompanionScope (scope : String) : Bool × MessageStore :=
  s.updateGrant registrationId fun row => { row with grantScope := scope }

def revokeDevice : Bool × MessageStore :=
  s.updateGrant registrationId fun row => { row with revoked := true }

/-- Rotate the epoch and invalidate every grant. -/
def resetSyncState (newEpoch : Bytes) : MessageStore :=
  { s with
    deviceRegistrations := s.deviceRegistrations.update (fun _ row => !row.revoked) fun row =>
      { row with revoked := true, grantRevision := row.grantRevision + 1 }
    syncEpoch := newEpoch }

/-- Advance the sequence and record a change under it.  Both the identifiers and the numbers of
the references are unique. -/
def recordChange (messageHash : Bytes) (kind : String) : Except Failure MessageStore :=
  let sequence := s.changeSequence + 1
  if changeId ∈ s.changeReferences ∨
      (s.changeReferences.entries.any fun e => e.2.sequence = sequence) then
    .error ⟨"record companion change reference"⟩
  else .ok { s with
    changeSequence := sequence
    changeReferences := s.changeReferences.insert changeId
      ⟨registrationId, operationId, messageHash, sequence, sequence, kind, false⟩ }

def recordCompanionReadChange (conversationId : Key) : Except Failure MessageStore :=
  s.recordChange registrationId operationId changeId conversationId.1 "read_state"

def beginCompanionSnapshot (now : UInt64) : Except Failure CompanionSnapshotToken :=
  match s.authorizeCompanion registrationId deviceId grantRevision with
  | none => .error ⟨"companion grant revoked or stale"⟩
  | some grant => .ok ⟨s.syncEpoch, registrationId, grant.deviceId, grantRevision,
      grant.grantScope, s.changeSequence, saturatingAdd now (15 * 60 * 1000)⟩

/-- Whether changes after the cursor may be gone, by the smallest number that is left. -/
def cursorPruned (watermark after : ℤ) : Bool :=
  after < 0 || match (s.changeReferences.entries.map (·.2.sequence)).min? with
    | some old => after < old - 1
    | none => watermark > after

/-- The references of the token's registration after the cursor, up to its watermark. -/
def inRange (ref : ChangeReference) : Bool :=
  ref.registrationId = snapshot.registrationId && after < ref.sequence &&
    ref.sequence ≤ snapshot.watermark

/-- The page after the cursor, of at most 500 changes. -/
def changesAfter (limit : ℕ) : CompanionChangePage :=
  let changes := (s.changeReferences.selectBy (fun _ ref => inRange snapshot after ref)
    (·.sequence) (max 1 (min limit 500))).map .ofRow
  let next := (changes.getLast?.map (·.sequence)).getD after
  ⟨changes, next, snapshot.watermark ≤ next || changes.isEmpty⟩

def resumeCompanionChanges (token : Option CompanionSnapshotToken) (after : ℤ) (limit : ℕ)
    (now : UInt64) : Except Failure CompanionChangePage :=
  match token with
  | none => .error ⟨"malformed snapshot token"⟩
  | some snapshot =>
    if snapshot.expiresAtMs < now then .error ⟨"snapshot expired"⟩
    else if s.syncEpoch ≠ snapshot.epoch then .error ⟨"snapshot invalidated by epoch change"⟩
    else if s.authorizeCompanion snapshot.registrationId snapshot.deviceId
        snapshot.grantRevision = none then
      .error ⟨"snapshot invalidated by authorization change"⟩
    else if s.cursorPruned snapshot.watermark after then .error ⟨"cursor pruned"⟩
    else if snapshot.watermark < after then .error ⟨"cursor beyond snapshot"⟩
    else .ok (s.changesAfter snapshot after limit)

def pruneCompanionChanges (throughSequence : ℤ) : MessageStore :=
  { s with changeReferences := s.changeReferences.delete fun _ ref =>
      ref.sequence ≤ throughSequence }

end MessageStore

end Boru.Companion
