import Boru.Prog.Basic
import Boru.Proto.Types
import Boru.Text
import Boru.Transfer.Tables

/-!
# Access to shared files

A peer asks for a file that it knows from a catalogue, and `checkPermission` decides: it validates
the request, looks up the offer, checks who the requester is to the owner, compares the content hash
and the version, prepares the file for transfer, checks the permissions once more and issues a
signed descriptor.

Every read of the database is awaited, so other tasks can change the tables between two reads.
`Run` gives what each read sees: the tables and the clock at that point, or that the database
failed.  The file preparation, which works on the blob store, and the number of free preparation
slots are part of it too.  The list of friends is the handler's own copy, made when it was created.

The function returns as soon as a check fails, most of the time after recording a diagnostic event
with the first 16 bytes of the file identifier.  A stage of the function goes on with a value or
says how it ends; `answer` adds the panic of an event whose identifier cannot be cut off.

## Main results

* `authorize_eq_ok`, `recheck_eq_ok`, `prepareFile_eq_ok` and the lemmas of the other stages : what
  a stage that goes on has found out.
* `exists_cleared_iff` : which requests pass the checks up to and after the preparation, as a
  condition on the request and on what each read sees.
* `Quiet.silent`, `checked_logged` : which requests are refused without a diagnostic event.
-/

namespace Boru.FileAccess

open Transfer (UserId ContentHash Tables SharedFileRow SharedFilePermission FileObject)

/-! ### Requests and responses -/

/-- Stable error codes for file-access operations. -/
inductive FileAccessErrorCode where
  | unsupportedVersion
  | permissionDenied
  | notFound
  | invalidRequest
  | rateLimited
  | busy
  | responseTooLarge
  | internalError

structure FileAccessRequest where
  /-- Suggested filename, from the catalogue. -/
  filename : String
  /-- Expected file size in bytes, from the catalogue. -/
  expectedSize : UInt64
  /-- Stable shared-file identifier from the catalogue. -/
  sharedFileId : String
  expectedContentHash : { bytes : Bytes // bytes.length = 32 }
  expectedVersion : UInt64

/-- The longest file name in a request, in bytes. -/
def maxFilenameBytes : ℕ := 512

def FileAccessRequest.validate (request : FileAccessRequest) :
    Except (FileAccessErrorCode × String) Unit :=
  let filename := request.filename.toList
  if request.sharedFileId.isEmpty then .error (.invalidRequest, "shared_file_id is empty")
  else if request.expectedContentHash.val = List.replicate 32 0 then
    .error (.invalidRequest, "content hash is empty")
  else if '/' ∈ filename ∨ '\\' ∈ filename then
    .error (.invalidRequest, "filename contains path separators")
  else if maxFilenameBytes < Text.byteLen filename then
    .error (.invalidRequest, "filename exceeds maximum length")
  else if filename ≠ [] ∧ filename.any Text.isControl then
    .error (.invalidRequest, "filename contains control characters")
  else .ok ()

/-- The fields of a descriptor that its signature covers. -/
structure DescriptorSignedPayload where
  ownerId : UserId
  requester : UserId
  /-- Stable shared-file identifier from the catalogue. -/
  sharedFileId : String
  blobHash : { bytes : Bytes // bytes.length = 32 }
  sizeBytes : UInt64
  nonce : Bytes
  issuedAtMs : UInt64
  expiresAtMs : UInt64
  deriving DecidableEq

/-- A signed descriptor that authorises the requester to download a file. -/
structure SignedDownloadDescriptor where
  payload : DescriptorSignedPayload
  signature : Bytes
  deriving DecidableEq

inductive FileAccessResponse where
  | granted (descriptor : SignedDownloadDescriptor)
  /-- The wire version is not supported. -/
  | unsupportedVersion
  /-- The requester may not download this file. -/
  | permissionDenied
  | notFound
  | disabled
  /-- The content has changed since the catalogue was issued. -/
  | changed
  | unavailable
  | busy
  | rateLimited
  /-- The requested version is not the current one. -/
  | versionMismatch (currentVersion : UInt64)
  deriving DecidableEq

def FileAccessResponse.from : FileAccessErrorCode → FileAccessResponse
  | .unsupportedVersion => .unsupportedVersion
  | .permissionDenied => .permissionDenied
  | .notFound => .notFound
  | .invalidRequest => .notFound
  | .rateLimited => .rateLimited
  | .busy => .busy
  | .responseTooLarge => .unavailable
  | .internalError => .unavailable

def FileAccessResponse.isGranted : FileAccessResponse → Bool
  | .granted _ => true
  | _ => false

/-! ### The handler and what it meets -/

/-- What a peer is to the owner of a profile. -/
inductive FriendRelationship where
  | notFriend
  | outgoingPending
  | incomingPending
  | friends
  | blocked
  deriving DecidableEq

/-- The friends of a profile, by their public keys. -/
abbrev FriendsStore := HashMap UserId FriendRelationship

structure FileAccessHandler where
  profileUserId : UserId
  /-- The friends, as they were when the handler was created. -/
  friends : FriendsStore
  /-- Files larger than this are not prepared. -/
  maxFileSizeBytes : UInt64
  /-- The signature of the owner's key. -/
  sign : DescriptorSignedPayload → Bytes

/-- How long a descriptor is valid, in milliseconds. -/
def downloadDescriptorTtl : ℕ := 60000

/-- Where the function awaits the database, or the file preparation. -/
inductive Point where
  | sharedFile
  | ring
  | permissions
  | readGrants
  | fileObject
  | preparation
  | permissionsAgain
  | readGrantsAgain
  | issue

/-- What the function meets at a point. -/
structure Access where
  tables : Tables
  nowMs : UInt64
  failed : Bool := false

def Access.read {α : Type} (a : Access) (query : Tables → α) : Option α :=
  if a.failed then none else some (query a.tables)

/-- The result of preparing a file. -/
inductive Preparation where
  /-- The preparation took too long. -/
  | timedOut
  | failed (message : String)
  /-- The file is ready, with a verified size. -/
  | ready (sizeBytes : UInt64)

structure Run where
  /-- The tables and the clock at each point. -/
  access : Point → Access
  freeSlots : ℕ
  preparation : Preparation
  nonce : Bytes

/-- The fields of a diagnostic event, apart from the peer and the file. -/
structure Diagnostic where
  result : String
  errorCategory : String
  /-- Whether the version was right, when it was checked. -/
  versionOk : Option Bool := none
  /-- Whether the preparation succeeded, when it ran. -/
  prepOk : Option Bool := none
  descriptorIssued : Bool := false
  deriving DecidableEq

inductive Ending where
  /-- It records a diagnostic event, or none, and returns. -/
  | returns (diag : Option Diagnostic) (response : FileAccessResponse)
  | overflows

/-- A part of the function that goes on with a value or ends it. -/
abbrev Stage := Except Ending

/-- Record a diagnostic event and return. -/
@[simp] def logs {α : Type} (diag : Diagnostic) (response : FileAccessResponse) : Stage α :=
  .error (.returns (some diag) response)

@[simp] def stops {α : Type} (response : FileAccessResponse) : Stage α :=
  .error (.returns none response)

/-! ### The stages -/

namespace FileAccessHandler

variable (h : FileAccessHandler) (run : Run) (requester : UserId) (request : FileAccessRequest)
  (contentHash : ContentHash) (a : Access) (sharedFileId : String) (row : SharedFileRow)
  (ring : Bool)

def isFriend : Bool := h.friends.lookup requester = some .friends

def validated : Stage Unit :=
  match request.validate with
  | .ok () => .ok ()
  | .error (code, _) => logs ⟨"InvalidRequest", "invalid", none, none, false⟩ (.from code)

def lookupFile : Stage SharedFileRow :=
  match (run.access .sharedFile).read fun db =>
      db.getSharedFileByMetadataId h.profileUserId request.sharedFileId with
  | some (some row) => .ok row
  | some none => logs ⟨"NotFound", "not_found", none, none, false⟩ .notFound
  | none => logs ⟨"NotFound", "internal", none, none, false⟩ (.from .internalError)

def offered : Stage Unit :=
  if row.offered then .ok () else logs ⟨"Disabled", "disabled", none, none, false⟩ .disabled

/-- The loop over the permissions of the requester: an active `deny` ends it, and the result is
whether there is an active `read`. -/
def scan (contentHash : ContentHash) (nowMs : UInt64) : Bool → List SharedFilePermission →
    Option Bool
  | granted, [] => some granted
  | granted, p :: ps =>
    if p.grantorUserId = h.profileUserId ∧ p.contentHash = contentHash ∧ p.isActiveAt nowMs then
      if p.permission = "deny" then none
      else scan contentHash nowMs (granted || p.permission = "read") ps
    else scan contentHash nowMs granted ps

/-- What the permissions say at a point: denied, or whether the requester has a read grant. -/
def grantedAt : Option (Option Bool) :=
  (a.read fun db => db.listPermissionsForGrantee requester).map (h.scan contentHash a.nowMs false)

/-- Whether the file has read grants at a point. -/
def restrictedAt : Option Bool :=
  (a.read fun db => db.countReadGrantsForFile contentHash h.profileUserId a.nowMs).map (0 < ·)

/-- Whether a ring lets the requester read at a point. -/
def ringAt : Option Bool :=
  a.read fun db => db.checkRingAccess h.profileUserId requester contentHash "read"

/-- The rule: a ring allows; otherwise, where there are read grants the requester needs one, and
where there are none the requester must be a friend. -/
def allows (granted restricted friend : Bool) : Bool :=
  ring || (if restricted then granted else friend)

/-- The authorization checks before the preparation.  The result is whether a ring allows
reading. -/
def authorize : Stage Bool :=
  if h.friends.lookup requester = some .blocked then
    logs ⟨"PermissionDenied", "permission", none, none, false⟩ .permissionDenied
  else match h.ringAt requester row.contentHash (run.access .ring) with
  | none => logs ⟨"PermissionDenied", "internal", none, none, false⟩ (.from .internalError)
  | some ring => match h.grantedAt requester row.contentHash (run.access .permissions) with
    | none => stops (.from .internalError)
    | some none => stops .permissionDenied
    | some (some granted) => match h.restrictedAt row.contentHash (run.access .readGrants) with
      | none => stops (.from .internalError)
      | some restricted =>
        if !ring && ((restricted && !granted) || (!restricted && !h.isFriend requester)) then
          stops .permissionDenied
        else .ok ring

/-- The content hash and the version, where an expected version of `0` accepts any version. -/
def integrity : Stage Unit :=
  if Hex.encode request.expectedContentHash.val ≠ row.contentHash then stops .changed
  else if request.expectedVersion ≠ 0 ∧ request.expectedVersion ≠ row.version then
    stops (.versionMismatch row.version)
  else .ok ()

/-- The file object, the bounds of the preparation, and the preparation.  The result is the verified
size. -/
def prepareFile : Stage UInt64 :=
  match (run.access .fileObject).read fun db => db.getFileObject row.contentHash with
  | none => logs ⟨"Unavailable", "internal", none, none, false⟩ (.from .internalError)
  | some none => logs ⟨"Unavailable", "availability", none, none, false⟩ .unavailable
  | some (some object) =>
    if h.maxFileSizeBytes < asU64 object.size then
      logs ⟨"Unavailable", "availability", none, some false, false⟩ .unavailable
    else if run.freeSlots = 0 then logs ⟨"Busy", "busy", none, some false, false⟩ .busy
    else match run.preparation with
    | .timedOut => logs ⟨"Unavailable", "availability", none, some false, false⟩ .unavailable
    | .failed message =>
      if Text.contains message "not found" || Text.contains message "missing" then
        logs ⟨"Unavailable", "availability", none, some false, false⟩ .unavailable
      else logs ⟨"Unavailable", "internal", none, some false, false⟩ (.from .internalError)
    | .ready sizeBytes => .ok sizeBytes

/-- The authorization checks after the preparation, with the answer of the rings from before it. -/
def recheck : Stage Unit :=
  match h.grantedAt requester row.contentHash (run.access .permissionsAgain) with
  | none => logs ⟨"PermissionDenied", "internal", none, some true, false⟩ (.from .internalError)
  | some none =>
    logs ⟨"PermissionDenied", "permission", none, some true, false⟩ .permissionDenied
  | some (some granted) => match h.restrictedAt row.contentHash (run.access .readGrantsAgain) with
    | none => logs ⟨"PermissionDenied", "internal", none, some true, false⟩ (.from .internalError)
    | some restricted =>
      if !ring then
        if restricted then
          if !granted then
            logs ⟨"PermissionDenied", "permission", none, some true, false⟩ .permissionDenied
          else .ok ()
        else if !h.isFriend requester then
          logs ⟨"PermissionDenied", "permission", none, some true, false⟩ .permissionDenied
        else .ok ()
      else .ok ()

/-- The content hash and the version once more, where the version has to be the current one. -/
def confirm : Stage Unit :=
  if Hex.encode request.expectedContentHash.val ≠ row.contentHash then
    logs ⟨"Changed", "integrity", none, some true, false⟩ .changed
  else if request.expectedVersion ≠ row.version then
    logs ⟨"VersionMismatch", "version", some true, some true, false⟩ (.versionMismatch row.version)
  else .ok ()

def signDownloadDescriptor (blobHash : { bytes : Bytes // bytes.length = 32 })
    (sizeBytes nowMs expiresAtMs : UInt64) : SignedDownloadDescriptor :=
  let payload : DescriptorSignedPayload :=
    { ownerId := h.profileUserId, requester := requester, sharedFileId := request.sharedFileId,
      blobHash := blobHash, sizeBytes := sizeBytes, nonce := run.nonce, issuedAtMs := nowMs,
      expiresAtMs := expiresAtMs }
  ⟨payload, h.sign payload⟩

def issue (sizeBytes : UInt64) : Ending :=
  let nowMs := (run.access .issue).nowMs
  if 2 ^ 64 ≤ nowMs.toNat + downloadDescriptorTtl then .overflows
  else match Hex.decode row.contentHash with
  | none => .returns none (.from .internalError)
  | some bytes =>
    if hlen : bytes.length = 32 then
      .returns (some ⟨"Granted", "none", some true, some true, true⟩)
        (.granted (h.signDownloadDescriptor run requester request ⟨bytes, hlen⟩ sizeBytes nowMs
          (nowMs + UInt64.ofNat downloadDescriptorTtl)))
    else .returns none (.from .internalError)

/-- The stages up to the checks after the preparation: the offer and the verified size. -/
def cleared : Stage (SharedFileRow × UInt64) := do
  validated request
  let row ← h.lookupFile run request
  offered row
  let ring ← h.authorize run requester row
  integrity request row
  let sizeBytes ← h.prepareFile run row
  h.recheck run requester row ring
  return (row, sizeBytes)

def checked : Stage (SharedFileRow × UInt64) := do
  let (row, sizeBytes) ← h.cleared run requester request
  confirm request row
  return (row, sizeBytes)

def ending : Ending :=
  match h.checked run requester request with
  | .ok (row, sizeBytes) => h.issue run requester request row sizeBytes
  | .error ending => ending

/-- What the caller sees of a request. -/
inductive Answer where
  /-- A response, and the diagnostic event with the shortened identifier of the file. -/
  | responds (diag : Option (List Char × Diagnostic)) (response : FileAccessResponse)
  | panicked
  deriving DecidableEq

/-- The prefix of the file identifier in a diagnostic event: its first 16 bytes. -/
def diagPrefix : Option (List Char) :=
  Text.upTo sharedFileId.toList (min (Text.byteLen sharedFileId.toList) 16)

/-- End the function; `access_diag` panics if the identifier cannot be cut off. -/
def answer : Ending → Answer
  | .overflows => .panicked
  | .returns none response => .responds none response
  | .returns (some diag) response =>
    match diagPrefix sharedFileId with
    | some shortened => .responds (some (shortened, diag)) response
    | none => .panicked

/-- Perform a request-time permission, availability, and integrity check. -/
def checkPermission : Answer := answer request.sharedFileId (h.ending run requester request)

/-! ### What a stage that goes on has found out -/

variable {h run requester request row ring} {sizeBytes : UInt64}

theorem validated_eq_ok {u : Unit} : validated request = .ok u ↔ request.validate = .ok () := by
  unfold validated
  cases request.validate <;> simp

variable (h run request) in
/-- The shared file that the request names is found. -/
def Finds (row : SharedFileRow) : Prop :=
  (run.access .sharedFile).read (fun db =>
    db.getSharedFileByMetadataId h.profileUserId request.sharedFileId) = some (some row)

theorem lookupFile_eq_ok : h.lookupFile run request = .ok row ↔ h.Finds run request row := by
  unfold lookupFile Finds
  rcases (run.access .sharedFile).read _ with _ | _ | row' <;> simp

theorem offered_eq_ok {u : Unit} : offered row = .ok u ↔ row.offered := by
  unfold offered
  split_ifs with ho <;> simp [ho]

variable (h requester) in
/-- The permissions and the read grants can be read, and allow the file to a requester for whom the
rings have answered `ring`. -/
def Authorizes (contentHash : ContentHash) (ring : Bool) (permissions readGrants : Access) : Prop :=
  ∃ granted restricted,
    h.grantedAt requester contentHash permissions = some (some granted) ∧
    h.restrictedAt contentHash readGrants = some restricted ∧
    allows ring granted restricted (h.isFriend requester)

theorem authorize_eq_ok : h.authorize run requester row = .ok ring ↔
    h.friends.lookup requester ≠ some .blocked ∧
    h.ringAt requester row.contentHash (run.access .ring) = some ring ∧
    h.Authorizes requester row.contentHash ring (run.access .permissions)
      (run.access .readGrants) := by
  unfold authorize Authorizes
  split_ifs with hb
  · simp [hb]
  rcases h.ringAt requester row.contentHash (run.access .ring) with _ | ring'
  · simp
  rcases h.grantedAt requester row.contentHash (run.access .permissions) with _ | _ | granted
  · simp
  · simp
  rcases h.restrictedAt row.contentHash (run.access .readGrants) with _ | restricted
  · simp
  cases h.isFriend requester <;> cases ring' <;> cases restricted <;> cases granted <;>
    simp [allows, hb]

/-- When the authorization checks answer that permission is denied. -/
theorem authorize_denied :
    (∃ diag, h.authorize run requester row = .error (.returns diag .permissionDenied)) ↔
      h.friends.lookup requester = some .blocked ∨
      ∃ ring, h.ringAt requester row.contentHash (run.access .ring) = some ring ∧
        (h.grantedAt requester row.contentHash (run.access .permissions) = some none ∨
        ∃ granted restricted,
          h.grantedAt requester row.contentHash (run.access .permissions) = some (some granted) ∧
          h.restrictedAt row.contentHash (run.access .readGrants) = some restricted ∧
          ¬ allows ring granted restricted (h.isFriend requester)) := by
  unfold authorize
  split_ifs with hb
  · simp [hb]
  rcases h.ringAt requester row.contentHash (run.access .ring) with _ | ring'
  · simp [hb, FileAccessResponse.from]
  rcases h.grantedAt requester row.contentHash (run.access .permissions) with _ | _ | granted
  · simp [hb, FileAccessResponse.from]
  · simp
  rcases h.restrictedAt row.contentHash (run.access .readGrants) with _ | restricted
  · simp [hb, FileAccessResponse.from]
  cases h.isFriend requester <;> cases ring' <;> cases restricted <;> cases granted <;>
    simp [allows, hb]

theorem integrity_eq_ok {u : Unit} : integrity request row = .ok u ↔
    Hex.encode request.expectedContentHash.val = row.contentHash ∧
      (request.expectedVersion = 0 ∨ request.expectedVersion = row.version) := by
  unfold integrity
  split_ifs with hh hv
  · simp [hh]
  · simp only [stops, reduceCtorEq, false_iff, not_and, not_or]
    exact fun _ => hv
  · simp only [true_iff]
    exact ⟨not_not.1 hh, by tauto⟩

variable (h run) in
/-- The file is known and within the bounds of the preparation, which succeeds. -/
def Prepares (contentHash : ContentHash) (sizeBytes : UInt64) : Prop :=
  (∃ object, (run.access .fileObject).read (fun db => db.getFileObject contentHash) =
      some (some object) ∧ asU64 object.size ≤ h.maxFileSizeBytes) ∧
    run.freeSlots ≠ 0 ∧ run.preparation = .ready sizeBytes

theorem prepareFile_eq_ok :
    h.prepareFile run row = .ok sizeBytes ↔ h.Prepares run row.contentHash sizeBytes := by
  unfold prepareFile Prepares
  rcases (run.access .fileObject).read _ with _ | _ | object
  · simp
  · simp
  dsimp only
  split_ifs with hsi hs
  · simp [UInt64.not_le.2 hsi]
  · simp [hs]
  · cases run.preparation with
    | timedOut => simp
    | failed msg =>
      dsimp only
      split_ifs <;> simp
    | ready size => simp [UInt64.not_lt.1 hsi, hs]

theorem recheck_eq_ok {u : Unit} : h.recheck run requester row ring = .ok u ↔
    h.Authorizes requester row.contentHash ring (run.access .permissionsAgain)
      (run.access .readGrantsAgain) := by
  unfold recheck Authorizes
  rcases h.grantedAt requester row.contentHash (run.access .permissionsAgain) with _ | _ | granted
  · simp
  · simp
  rcases h.restrictedAt row.contentHash (run.access .readGrantsAgain) with _ | restricted
  · simp
  cases h.isFriend requester <;> cases ring <;> cases restricted <;> cases granted <;>
    simp [allows]

theorem confirm_eq_ok {u : Unit} : confirm request row = .ok u ↔
    Hex.encode request.expectedContentHash.val = row.contentHash ∧
      request.expectedVersion = row.version := by
  unfold confirm
  split_ifs with hh hv
  · simp [hh]
  · simp [hv]
  · simp [not_not.1 hh, not_not.1 hv]

/-! ### How a stage that does not go on ends -/

/-- The function ends with a refusal, after a diagnostic event. -/
def Logged (e : Ending) : Prop :=
  ∃ diag response, e = .returns (some diag) response ∧ response.isGranted = false

/-- The function ends with a refusal, without a diagnostic event. -/
def Silent (e : Ending) : Prop :=
  ∃ response, e = .returns none response ∧ response.isGranted = false

/-- If the stage does not go on, it ends in a way that has a property. -/
def Ends {α : Type} (P : Ending → Prop) (x : Stage α) : Prop := ∀ e, x = .error e → P e

section Ends

variable {α β : Type} {P Q : Ending → Prop} {x : Stage α}

theorem Ends.bind {f : α → Stage β} (hx : Ends P x) (hf : ∀ a, x = .ok a → Ends P (f a)) :
    Ends P (x >>= f) := by
  cases x with
  | error e => exact fun e' he => hx e' (congrArg _ (Except.error.inj he))
  | ok a => exact hf a rfl

theorem ends_ok (a : α) : Ends P (.ok a : Stage α) := by
  intro e he
  cases he

theorem isGranted_from (code : FileAccessErrorCode) :
    (FileAccessResponse.from code).isGranted = false := by
  cases code <;> rfl

theorem ends_logs {diag : Diagnostic} {res : FileAccessResponse}
    (hr : res.isGranted = false) : Ends Logged (logs diag res : Stage α) := fun _ he =>
  ⟨diag, res, (Except.error.inj he).symm, hr⟩

theorem ends_stops {res : FileAccessResponse} (hr : res.isGranted = false) :
    Ends Silent (stops res : Stage α) := fun _ he =>
  ⟨res, (Except.error.inj he).symm, hr⟩

end Ends

theorem validated_logged : Ends Logged (validated request) := by
  unfold validated
  rcases request.validate with ⟨code, _⟩ | ⟨⟩
  · exact ends_logs (isGranted_from code)
  · exact ends_ok _

theorem lookupFile_logged : Ends Logged (h.lookupFile run request) := by
  unfold lookupFile
  rcases (run.access .sharedFile).read _ with _ | _ | row'
  · exact ends_logs rfl
  · exact ends_logs rfl
  · exact ends_ok _

theorem offered_logged : Ends Logged (offered row) := by
  unfold offered
  split_ifs
  · exact ends_ok _
  · exact ends_logs rfl

theorem prepareFile_logged : Ends Logged (h.prepareFile run row) := by
  unfold prepareFile
  rcases (run.access .fileObject).read _ with _ | _ | object
  · exact ends_logs rfl
  · exact ends_logs rfl
  dsimp only
  split_ifs
  · exact ends_logs rfl
  · exact ends_logs rfl
  cases run.preparation with
  | timedOut => exact ends_logs rfl
  | failed msg =>
    dsimp only
    split_ifs
    · exact ends_logs rfl
    · exact ends_logs rfl
  | ready size => exact ends_ok _

theorem recheck_logged : Ends Logged (h.recheck run requester row ring) := by
  unfold recheck
  rcases h.grantedAt requester row.contentHash (run.access .permissionsAgain) with _ | _ | granted
  · exact ends_logs rfl
  · exact ends_logs rfl
  rcases h.restrictedAt row.contentHash (run.access .readGrantsAgain) with _ | restricted
  · exact ends_logs rfl
  dsimp only
  split_ifs
  · exact ends_logs rfl
  · exact ends_ok _
  · exact ends_logs rfl
  · exact ends_ok _
  · exact ends_ok _

theorem confirm_logged : Ends Logged (confirm request row) := by
  unfold confirm
  split_ifs
  · exact ends_logs rfl
  · exact ends_logs rfl
  · exact ends_ok _

theorem integrity_silent : Ends Silent (integrity request row) := by
  unfold integrity
  split_ifs
  · exact ends_stops rfl
  · exact ends_stops rfl
  · exact ends_ok _

/-- The authorization checks before the preparation end with an event if the rings are not asked, or
the database fails when they are. -/
theorem authorize_logged (hb : h.friends.lookup requester ≠ some .blocked →
    h.ringAt requester row.contentHash (run.access .ring) = none) :
    Ends Logged (h.authorize run requester row) := by
  unfold authorize
  split_ifs with hbl
  · exact ends_logs rfl
  · rw [hb hbl]
    exact ends_logs rfl

/-- Once the rings have been asked, they end without an event. -/
theorem authorize_silent (hb : h.friends.lookup requester ≠ some .blocked) {ring : Bool}
    (hr : h.ringAt requester row.contentHash (run.access .ring) = some ring) :
    Ends Silent (h.authorize run requester row) := by
  unfold authorize
  rw [if_neg hb, hr]
  rcases h.grantedAt requester row.contentHash (run.access .permissions) with _ | _ | granted
  · exact ends_stops rfl
  · exact ends_stops rfl
  rcases h.restrictedAt row.contentHash (run.access .readGrants) with _ | restricted
  · exact ends_stops rfl
  dsimp only
  split_ifs
  · exact ends_stops rfl
  · exact ends_ok _

/-- What is known of a request that has passed the checks after the preparation. -/
theorem cleared_eq_ok : h.cleared run requester request = .ok (row, sizeBytes) ↔
    request.validate = .ok () ∧ h.lookupFile run request = .ok row ∧ row.offered ∧
      ∃ ring, h.authorize run requester row = .ok ring ∧ integrity request row = .ok () ∧
        h.prepareFile run row = .ok sizeBytes ∧ h.recheck run requester row ring = .ok () := by
  simp only [cleared, Prog.except_bind_eq_ok_iff, validated_eq_ok, offered_eq_ok]
  constructor
  · rintro ⟨-, hv, row', hl, -, ho, ring, ha, ⟨⟩, hi, size, hp, ⟨⟩, hr, ⟨⟩⟩
    exact ⟨hv, hl, ho, ring, ha, hi, hp, hr⟩
  · rintro ⟨hv, hl, ho, ring, ha, hi, hp, hr⟩
    exact ⟨(), hv, row, hl, (), ho, ring, ha, (), hi, sizeBytes, hp, (), hr, rfl⟩

variable (h run requester request) in
/-- The request passes every check but those of the version: it is valid, the file is offered and
has the expected hash, the requester is not blocked and is allowed the file before and after the
preparation, which succeeds. -/
def Passes (row : SharedFileRow) : Prop :=
  request.validate = .ok () ∧ row.offered ∧
    Hex.encode request.expectedContentHash.val = row.contentHash ∧
    h.friends.lookup requester ≠ some .blocked ∧
    (∃ sizeBytes, h.Prepares run row.contentHash sizeBytes) ∧
    ∃ ring, h.ringAt requester row.contentHash (run.access .ring) = some ring ∧
      h.Authorizes requester row.contentHash ring (run.access .permissions)
        (run.access .readGrants) ∧
      h.Authorizes requester row.contentHash ring (run.access .permissionsAgain)
        (run.access .readGrantsAgain)

/-- Which requests get to the last checks. -/
theorem exists_cleared_iff :
    (∃ sizeBytes, h.cleared run requester request = .ok (row, sizeBytes)) ↔
      h.Finds run request row ∧ h.Passes run requester request row ∧
        (request.expectedVersion = 0 ∨ request.expectedVersion = row.version) := by
  constructor
  · rintro ⟨size, hc⟩
    obtain ⟨hva, hl, ho, ring, ha, hi, hpr, hr⟩ :=
      cleared_eq_ok.1 hc
    obtain ⟨hb, hri, hbe⟩ := authorize_eq_ok.1 ha
    obtain ⟨hh, hv⟩ := integrity_eq_ok.1 hi
    exact ⟨lookupFile_eq_ok.1 hl, ⟨hva, ho, hh, hb,
      ⟨size, prepareFile_eq_ok.1 hpr⟩, ring, hri, hbe, recheck_eq_ok.1 hr⟩,
      hv⟩
  · rintro ⟨hf, ⟨hva, ho, hh, hb, ⟨size, hp⟩, ring, hri, hbe, haf⟩, hv⟩
    exact ⟨size, cleared_eq_ok.2 ⟨hva, lookupFile_eq_ok.2 hf, ho, ring,
      authorize_eq_ok.2 ⟨hb, hri, hbe⟩, integrity_eq_ok.2 ⟨hh, hv⟩,
      prepareFile_eq_ok.2 hp, recheck_eq_ok.2 haf⟩⟩

/-- A hash that the request knows has the length of a hash, so the descriptor can be issued. -/
theorem issue_eq (hh : Hex.encode request.expectedContentHash.val = row.contentHash)
    (hc : (run.access .issue).nowMs.toNat + downloadDescriptorTtl < 2 ^ 64) :
    ∃ d, h.issue run requester request row sizeBytes =
      .returns (some ⟨"Granted", "none", some true, some true, true⟩) (.granted d) := by
  unfold issue
  rw [if_neg (by omega), ← hh, Hex.decode_encode]
  dsimp only
  rw [dif_pos request.expectedContentHash.2]
  exact ⟨_, rfl⟩

theorem issue_overflows
    (hc : ¬ (run.access .issue).nowMs.toNat + downloadDescriptorTtl < 2 ^ 64) :
    h.issue run requester request row sizeBytes = .overflows := by
  unfold issue
  exact if_pos (not_lt.1 hc)

/-! ### How the function ends -/

variable (h run requester request) in
/-- The request is valid, for an offered file, from a requester who is not blocked and for whom the
rings have answered; but the permissions do not allow the file then, or the expected hash or version
is another one. -/
def Quiet : Prop :=
  request.validate = .ok () ∧ ∃ row, h.Finds run request row ∧ row.offered ∧
    h.friends.lookup requester ≠ some .blocked ∧
    ∃ ring, h.ringAt requester row.contentHash (run.access .ring) = some ring ∧
      ¬ (h.Authorizes requester row.contentHash ring (run.access .permissions)
          (run.access .readGrants) ∧
        Hex.encode request.expectedContentHash.val = row.contentHash ∧
        (request.expectedVersion = 0 ∨ request.expectedVersion = row.version))

/-- Such a request is refused without an event. -/
theorem Quiet.silent (hq : h.Quiet run requester request) :
    Silent (h.ending run requester request) := by
  obtain ⟨hv, row, hf, ho, hb, ring, hri, hr⟩ := hq
  have hc : h.cleared run requester request = (do
      let ring ← h.authorize run requester row
      integrity request row
      let sizeBytes ← h.prepareFile run row
      h.recheck run requester row ring
      return (row, sizeBytes)) := by
    unfold cleared
    simp only [(validated_eq_ok (u := ())).2 hv, lookupFile_eq_ok.2 hf,
      (offered_eq_ok (u := ())).2 ho, Prog.except_ok_bind]
  have hs := authorize_silent hb hri
  unfold ending checked
  rw [hc]
  cases ha : h.authorize run requester row with
  | error e => exact hs e ha
  | ok ring' =>
    cases hi : integrity request row with
    | error e => exact integrity_silent e hi
    | ok u =>
      obtain ⟨-, hring', hbe⟩ := authorize_eq_ok.1 ha
      obtain rfl : ring' = ring := Option.some.inj (hring'.symm.trans hri)
      exact absurd ⟨hbe, integrity_eq_ok.1 hi⟩ hr

/-- Every other request is refused with an event, or passes all checks. -/
theorem checked_logged (hq : ¬ h.Quiet run requester request) :
    Ends Logged (h.checked run requester request) := by
  refine Ends.bind (validated_logged.bind fun u hv => lookupFile_logged.bind fun row hl =>
    offered_logged.bind fun u ho => ?_) fun _ _ => confirm_logged.bind fun _ _ => ends_ok _
  have hre : ∀ ring, Ends Logged (do
      let sizeBytes ← h.prepareFile run row
      h.recheck run requester row ring
      return (row, sizeBytes)) := fun ring =>
    prepareFile_logged.bind fun _ _ => recheck_logged.bind fun _ _ => ends_ok _
  by_cases hb : h.friends.lookup requester ≠ some .blocked →
      h.ringAt requester row.contentHash (run.access .ring) = none
  · refine (authorize_logged hb).bind fun ring ha => ?_
    obtain ⟨hnot, hri, -⟩ := authorize_eq_ok.1 ha
    rw [hb hnot] at hri
    cases hri
  · obtain ⟨hnot, hri⟩ := Classical.not_imp.1 hb
    obtain ⟨ring, hri⟩ := Option.ne_none_iff_exists'.1 hri
    have hp : h.Authorizes requester row.contentHash ring (run.access .permissions)
          (run.access .readGrants) ∧
        Hex.encode request.expectedContentHash.val = row.contentHash ∧
        (request.expectedVersion = 0 ∨ request.expectedVersion = row.version) := by
      by_contra hr
      exact hq ⟨validated_eq_ok.1 hv, row, lookupFile_eq_ok.1 hl,
        offered_eq_ok.1 ho, hnot, ring, hri, hr⟩
    rw [authorize_eq_ok.2 ⟨hnot, hri, hp.1⟩, (integrity_eq_ok (u := ())).2 hp.2]
    exact hre ring

theorem checked_eq_ok : h.checked run requester request = .ok (row, sizeBytes) ↔
    h.cleared run requester request = .ok (row, sizeBytes) ∧ confirm request row = .ok () := by
  simp only [checked, Prog.except_bind_eq_ok_iff]
  constructor
  · rintro ⟨_, hc, ⟨⟩, hco, ⟨⟩⟩
    exact ⟨hc, hco⟩
  · rintro ⟨hc, hco⟩
    exact ⟨_, hc, (), hco, rfl⟩

theorem exists_checked_iff : (∃ r, h.checked run requester request = .ok r) ↔
    ∃ row, h.Finds run request row ∧ h.Passes run requester request row ∧
      request.expectedVersion = row.version := by
  constructor
  · rintro ⟨⟨row, size⟩, hch⟩
    obtain ⟨hc, hco⟩ := checked_eq_ok.1 hch
    obtain ⟨hf, hp, -⟩ := exists_cleared_iff.1 ⟨size, hc⟩
    exact ⟨row, hf, hp, (confirm_eq_ok.1 hco).2⟩
  · rintro ⟨row, hf, hp, hv⟩
    obtain ⟨size, hc⟩ := exists_cleared_iff.2 ⟨hf, hp, .inr hv⟩
    exact ⟨(row, size), checked_eq_ok.2 ⟨hc, confirm_eq_ok.2 ⟨hp.2.2.1, hv⟩⟩⟩

/-! ### What the caller sees -/

section Answer

variable {sfi : String} {e : Ending}

theorem answer_eq_responds {diag : Option (List Char × Diagnostic)} {response : FileAccessResponse}
    (ha : answer sfi e = .responds diag response) :
    ∃ d, e = .returns d response := by
  rcases e with ⟨_ | d, r'⟩ | _
  · cases ha
    exact ⟨_, rfl⟩
  · unfold answer at ha
    cases hc : diagPrefix sfi with
    | none =>
      rw [hc] at ha
      cases ha
    | some s =>
      rw [hc] at ha
      cases ha
      exact ⟨_, rfl⟩
  · cases ha

/-- An event can be recorded if and only if the identifier can be cut off. -/
theorem answer_returns_some_ne_panicked {diag : Diagnostic} {res : FileAccessResponse} :
    answer sfi (.returns (some diag) res) ≠ .panicked ↔ (diagPrefix sfi).isSome := by
  unfold answer
  cases diagPrefix sfi <;> simp

/-- Where an identifier can be cut off. -/
theorem isSome_diagPrefix : (diagPrefix sfi).isSome ↔
    ∃ part, part <+: sfi.toList ∧
      Text.byteLen part = min (Text.byteLen sfi.toList) 16 := Text.isSome_upTo

end Answer

end FileAccessHandler

end Boru.FileAccess
