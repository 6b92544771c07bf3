import Boru.Collections.Table
import Boru.Integers

/-!
# The tables of shared files

The tables behind file sharing: the files a profile offers and the file objects they refer to, the
permissions granted to single peers, and the rings, which are named sets of peers that share
permissions.  A catalogue received from a peer is stored in the same tables under the peer's
identity.

Public keys appear in the tables in their text form.  Sizes and times are `u64` in the code and
`INTEGER` in the tables; flags are stored as `0` and `1` and are Booleans here.

Foreign keys are enforced, so every shared file has its file object; that is a field of `Tables`.
-/

namespace Boru.Transfer

/-- A public key, in its text form. -/
abbrev UserId := String

/-- A content hash, as hexadecimal digits. -/
abbrev ContentHash := String

/-! ### Rows -/

/-- The columns of `file_objects`, by the content hash. -/
structure FileObject where
  size : ℤ
  mimeType : String
  filename : String
  createdAtMs : ℤ
  /-- Where a file that is served in place lives. -/
  sourcePath : Option String := none

structure SharedFileKey where
  contentHash : ContentHash
  profileUserId : UserId
  deriving DecidableEq

structure SharedFileColumns where
  metadataId : String
  /-- The name shown to peers. -/
  displayFilename : String
  description : Option String
  offered : Bool
  createdAtMs : ℤ
  updatedAtMs : ℤ
  version : ℤ := 1

/-- The primary key of `shared_file_permissions`. -/
structure PermissionKey where
  contentHash : ContentHash
  grantorUserId : UserId
  granteeUserId : UserId
  /-- The permission: `read`, `deny` or another text. -/
  permission : String

/-- The other columns of `shared_file_permissions`. -/
structure PermissionColumns where
  createdAtMs : ℤ
  expiresAtMs : Option ℤ

/-- The columns of `rings`, by the identifier of the ring. -/
structure Ring where
  ownerUserId : UserId
  name : String
  /-- Whether the ring grants its permissions to every peer. -/
  isOpen : Bool

/-- The primary key of `ring_resource_permissions`. -/
structure RingResourceKey where
  ringId : ℤ
  contentHash : ContentHash
  permission : String

/-- The columns of `profile_manifest_state`, by the profile. -/
structure ManifestState where
  revision : ℤ
  /-- The hash of the manifest; for a remote catalogue, when it was generated. -/
  manifestHash : String
  createdAtMs : ℤ

/-- The columns of `file_collections`, by the identifier of the collection. -/
structure FileCollection where
  profileUserId : UserId
  name : String
  description : Option String
  createdAtMs : ℤ
  updatedAtMs : ℤ

structure Tables where
  fileObjects : Table ContentHash FileObject
  sharedFiles : Table SharedFileKey SharedFileColumns
  /-- `shared_file_permissions`. -/
  permissions : Table PermissionKey PermissionColumns := ∅
  rings : Table ℤ Ring := ∅
  /-- `ring_members`, by the ring and the member, with the time of joining. -/
  ringMembers : Table (ℤ × UserId) ℤ := ∅
  /-- `ring_resource_permissions`, with the time of creation. -/
  ringResourcePermissions : Table RingResourceKey ℤ := ∅
  manifests : Table UserId ManifestState := ∅
  fileCollections : Table ℤ FileCollection := ∅
  collectionSequence : ℤ := 0
  /-- `file_collection_items`, by the collection and the file, with the position. -/
  fileCollectionItems : Table (ℤ × ContentHash) ℤ := ∅
  sharedFiles_objects : ∀ k ∈ sharedFiles.keys, k.contentHash ∈ fileObjects.keys

/-! ### Catalogues -/

/-- A shared file as a catalogue lists it. -/
structure RemoteSharedFile where
  /-- Stable identifier assigned by the publisher. -/
  sharedFileId : String
  displayName : String
  description : Option String
  mimeType : String
  sizeBytes : UInt64
  contentHash : ContentHash
  versionNumber : UInt32
  updatedAtMs : UInt64

structure FileCatalogueCollection where
  name : String
  description : Option String

structure SignedFileCatalogue where
  ownerId : UserId
  revision : UInt64
  generatedAtMs : UInt64
  collections : List FileCatalogueCollection
  files : List RemoteSharedFile

/-! ### Rows as they are returned -/

structure SharedFileRow where
  contentHash : ContentHash
  profileUserId : UserId
  metadataId : String
  displayFilename : String
  description : Option String
  offered : Bool
  createdAtMs : UInt64
  updatedAtMs : UInt64
  version : UInt64
  deriving DecidableEq

def SharedFileRow.of (k : SharedFileKey) (c : SharedFileColumns) : SharedFileRow where
  contentHash := k.contentHash
  profileUserId := k.profileUserId
  metadataId := c.metadataId
  displayFilename := c.displayFilename
  description := c.description
  offered := c.offered
  createdAtMs := asU64 c.createdAtMs
  updatedAtMs := asU64 c.updatedAtMs
  version := asU64 c.version

structure SharedFilePermission where
  contentHash : ContentHash
  grantorUserId : UserId
  granteeUserId : UserId
  permission : String
  createdAtMs : UInt64
  expiresAtMs : Option UInt64

def SharedFilePermission.isActiveAt (p : SharedFilePermission) (nowMs : UInt64) : Bool :=
  p.expiresAtMs.all fun expires => nowMs < expires

/-- The expiry filter of the statements: `expires_at_ms IS NULL OR expires_at_ms > now`. -/
def PermissionColumns.unexpired (c : PermissionColumns) (now : ℤ) : Bool :=
  c.expiresAtMs.all fun expires => now < expires

namespace Tables

variable (db : Tables)

/-! ### Queries -/

variable (contentHash : ContentHash)

def getFileObject : Option FileObject :=
  db.fileObjects.lookup contentHash

def fileObjectExists : Bool := (db.getFileObject contentHash).isSome

/-- List the files of a profile, the last changed first. -/
def listSharedFiles (profileUserId : UserId) (offeredOnly : Bool) : List SharedFileRow :=
  ((db.sharedFiles.select fun k c => k.profileUserId = profileUserId &&
      (!offeredOnly || c.offered)).insertionSort fun a b => b.2.updatedAtMs ≤ a.2.updatedAtMs).map
    fun e => .of e.1 e.2

/-- Look up a shared file by its stable metadata identifier; identifiers may be used twice. -/
def getSharedFileByMetadataId (profileUserId : UserId) (metadataId : String) :
    Option SharedFileRow :=
  (db.sharedFiles.select fun k c => k.profileUserId = profileUserId &&
    c.metadataId = metadataId).head?.map fun e => .of e.1 e.2

def listPermissionsForGrantee (granteeUserId : UserId) : List SharedFilePermission :=
  ((db.permissions.select fun k _ => k.granteeUserId = granteeUserId).insertionSort
      fun a b => b.2.createdAtMs ≤ a.2.createdAtMs).map fun e =>
    { contentHash := e.1.contentHash, grantorUserId := e.1.grantorUserId,
      granteeUserId := e.1.granteeUserId, permission := e.1.permission,
      createdAtMs := asU64 e.2.createdAtMs, expiresAtMs := e.2.expiresAtMs.map asU64 }

variable (grantorUserId : UserId)

/-- Whether a permission on a file, by a grantor, is active at `now`. -/
def activeOn (now : ℤ) (k : PermissionKey) (c : PermissionColumns) : Bool :=
  k.contentHash = contentHash && k.grantorUserId = grantorUserId && c.unexpired now

def countReadGrantsForFile (nowMs : UInt64) : ℕ :=
  db.permissions.count fun k c =>
    activeOn contentHash grantorUserId (asI64 nowMs) k c && k.permission = "read"

def hasActivePermissionsForFile (nowMs : UInt64) : Bool :=
  db.permissions.count (activeOn contentHash grantorUserId (asI64 nowMs)) != 0

/-- Whether a ring of the owner lets the requester use a permission on a file: an open ring, or one
the requester is a member of. -/
def checkRingAccess (ownerUserId requesterUserId : UserId) (contentHash : ContentHash)
    (permission : String) : Bool :=
  db.ringResourcePermissions.keys.any fun rp =>
    (db.rings.lookup rp.ringId).any fun r =>
      r.ownerUserId = ownerUserId && rp.contentHash = contentHash && rp.permission = permission &&
        (r.isOpen || (db.ringMembers.lookup (rp.ringId, requesterUserId)).isSome)

end Tables

end Boru.Transfer
