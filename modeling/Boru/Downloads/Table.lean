import Boru.Collections.Table
import Boru.Integers
import Boru.Prog.Basic

/-!
# The table of downloads

Every download has a row in `downloads`, whose state is a text.  Workers, the batching flusher, the
user interface and the recovery after a restart write the state, each with a condition of its own on
the state that is there.  `DownloadState` lists the states a row goes through.

The identifiers are assigned by the database and never used twice (`AUTOINCREMENT`); this is a field
of `Downloads`.  Sizes and times are `u64` in the code and `INTEGER` in the table.

## Main results

* `Downloads.lookup_updateRow` : what an update of one row does to every row.
* `Downloads.wp_update` : the rule for such an update.
-/

namespace Boru

/-! ### States -/

/-- Durable states used by the download worker. -/
inductive DownloadState where
  /-- Waiting for a worker slot. -/
  | queued
  | resolvingPeer
  /-- Requesting a fresh access descriptor. -/
  | requestingPermission
  /-- Receiving bytes into a temporary file. -/
  | downloading
  /-- Checking size and content hash. -/
  | verifying
  /-- Installed and durably recorded as verified. -/
  | complete
  /-- Paused by the user or during restart recovery. -/
  | paused
  | failed
  | cancelled
  /-- The catalogue no longer matches the requested content. -/
  | versionMismatch

namespace DownloadState

/-- Whether this state will not be advanced by the worker. -/
def isTerminal : DownloadState → Bool
  | complete | failed | cancelled | versionMismatch => true
  | _ => false

/-- Database spelling for this state. -/
def asStr : DownloadState → String
  | queued => "queued"
  | resolvingPeer => "resolving_peer"
  | requestingPermission => "requesting_permission"
  | downloading => "downloading"
  | verifying => "verifying"
  | complete => "complete"
  | paused => "paused"
  | failed => "failed"
  | cancelled => "cancelled"
  | versionMismatch => "version_mismatch"

end DownloadState

/-! ### Rows -/

/-- The columns of `downloads`, by the identifier of the download. -/
structure Download where
  contentHash : String
  remotePeer : String
  state : String
  bytesDownloaded : ℤ
  totalBytes : ℤ
  createdAtMs : ℤ
  updatedAtMs : ℤ
  lastError : Option String := none
  retryCount : ℤ := 0
  nextRetryAtMs : Option ℤ := none
  /-- Where the content is received. -/
  tempPath : Option String := none
  destinationPath : Option String := none
  deriving DecidableEq

/-- The table of downloads, and the last identifier that was assigned. -/
structure Downloads where
  rows : Table ℤ Download
  lastId : ℤ
  /-- Every row has an identifier that was assigned. -/
  assigned : ∀ id ∈ rows.keys, id ≤ lastId

/-- Why an operation on the downloads fails. -/
inductive DownloadError where
  | notFound
  | paused
  | affectedNoRows
  | cannotPause (state : String)
  | cannotResume (state : String)
  | cannotCancel (state : String)
  | notAwaitingAuthorisation
  | descriptorExpired
  | hashMismatch
  | cannotComplete (id : ℤ)

abbrev Downloads.Method := Prog Downloads DownloadError

namespace Downloads

def updateRow (s : Downloads) (id : ℤ) (cond : Download → Bool) (set : Download → Download) :
    Downloads where
  rows := (s.rows.updateRow id cond set).1
  lastId := s.lastId
  assigned := by
    intro k hk
    refine s.assigned k (AList.mem_keys.1 (AList.lookup_isSome.1 ?_))
    have hsome := AList.lookup_isSome.2 (AList.mem_keys.2 hk)
    cases h : s.rows.lookup k with
    | some c => rfl
    | none =>
      rw [Table.lookup_updateRow_of_none h] at hsome
      cases hsome

variable (s : Downloads)

/-- `INSERT INTO downloads …`, with a new identifier. -/
def insertRow (c : Download) : Downloads where
  rows := s.rows.insert (s.lastId + 1) c
  lastId := s.lastId + 1
  assigned := by
    intro k hk
    rcases (AList.mem_insert _).1 (AList.mem_keys.2 hk) with rfl | hmem
    · exact le_rfl
    · exact (s.assigned k (AList.mem_keys.1 hmem)).trans (by omega)

def deleteRows (cond : ℤ → Download → Bool) : Downloads where
  rows := s.rows.delete cond
  lastId := s.lastId
  assigned := by
    intro k hk
    refine s.assigned k (AList.mem_keys.1 (AList.lookup_isSome.1 ?_))
    have hsome := AList.lookup_isSome.2 (AList.mem_keys.2 hk)
    rw [Table.lookup_delete] at hsome
    cases h : s.rows.lookup k with
    | some c => rfl
    | none =>
      rw [h] at hsome
      cases hsome

theorem lookup_updateRow (id : ℤ) (cond : Download → Bool) (set : Download → Download) (k : ℤ) :
    (s.updateRow id cond set).rows.lookup k =
      (s.rows.lookup k).map fun c => if k = id ∧ cond c then set c else c := by
  show (s.rows.updateRow id cond set).1.lookup k = _
  by_cases hk : k = id
  · subst hk
    simp [Table.lookup_updateRow_self]
  · simp [Table.lookup_updateRow_ne _ _ _ hk, hk]

theorem lookup_insertRow_of_some {s : Downloads} {c d : Download} {k : ℤ}
    (h : s.rows.lookup k = some d) : (s.insertRow c).rows.lookup k = some d := by
  have hle := s.assigned k (AList.mem_keys.1 (AList.lookup_isSome.1 (by rw [h]; rfl)))
  have hne : k ≠ s.lastId + 1 := by omega
  show (s.rows.insert (s.lastId + 1) c).lookup k = some d
  rw [AList.lookup_insert_ne hne, h]

/-- Update a row: whether there was one that met the condition. -/
def update (id : ℤ) (cond : Download → Bool) (set : Download → Download) : Method Bool := fun s =>
  (.ok ((s.rows.lookup id).any cond), s.updateRow id cond set)

@[simp] theorem wp_update {id : ℤ} {cond : Download → Bool} {set : Download → Download}
    {Q : Bool → Downloads → Prop} {E : DownloadError → Downloads → Prop} {s : Downloads} :
    Prog.wp (update id cond set) Q E s ↔
      Q ((s.rows.lookup id).any cond) (s.updateRow id cond set) := Iff.rfl

def row (id : ℤ) : Method Download := do
  Prog.okOr ((← get).rows.lookup id) .notFound

@[simp] theorem wp_row {id : ℤ} {Q : Download → Downloads → Prop}
    {E : DownloadError → Downloads → Prop} {s : Downloads} :
    Prog.wp (row id) Q E s ↔ (∀ c, s.rows.lookup id = some c → Q c s) ∧
      (s.rows.lookup id = none → E .notFound s) := by
  unfold row
  rw [Prog.wp_bind, Prog.wp_get, Prog.wp_okOr]

/-! ### Operations

`now` is the clock of the call. -/

variable (now : UInt64)

/-- Create a download entry (queued state). -/
def createDownload (contentHash remotePeer : String) (totalBytes : UInt64) : Method ℤ := do
  modify fun s => s.insertRow {
    contentHash, remotePeer
    state := "queued"
    bytesDownloaded := 0
    totalBytes := asI64 totalBytes
    createdAtMs := asI64 now
    updatedAtMs := asI64 now }
  return (← get).lastId

variable (id : ℤ)

/-- Persist the temporary and final filesystem paths for restart recovery. -/
def setDownloadPaths (tempPath destinationPath : String) : Method Unit := do
  let _ ← update id (fun _ => true) fun c => { c with
    tempPath := some tempPath, destinationPath := some destinationPath, updatedAtMs := asI64 now }

/-- Persist the temporary file path, or clear it. -/
def setDownloadTempPath (path : Option String) : Method Unit := do
  let _ ← update id (fun _ => true) fun c => { c with tempPath := path, updatedAtMs := asI64 now }

variable (bytesDownloaded : UInt64)

variable (state : String)

/-- The row that a progress update leaves. -/
def progress (c : Download) : Download :=
  { c with bytesDownloaded := asI64 bytesDownloaded, state, updatedAtMs := asI64 now }

def updateDownloadProgress : Method Unit := do
  let changed ← update id (·.state ≠ "paused") (progress now bytesDownloaded state)
  if changed then pure ()
  else
    let c ← row id
    if c.state = "paused" then throw .paused else throw .affectedNoRows

/-- An entry of a progress batch; paused or missing downloads are skipped. -/
def flushEntry (s : Downloads) (entry : ℤ × UInt64 × String) : Downloads :=
  s.updateRow entry.1 (·.state ≠ "paused") (progress now entry.2.1 entry.2.2)

/-- Write multiple progress updates in a single transaction. -/
def flushProgressBatch (batch : List (ℤ × UInt64 × String)) : Method Unit :=
  modify fun s => batch.foldl (flushEntry now) s

/-- Pause a non-terminal download without discarding its durable state. -/
def pauseDownload : Method Unit := do
  let current := (← row id).state
  if current = "paused" then pure ()
  else if current ∈ ["complete", "completed", "cancelled", "failed", "version_mismatch"] then
    throw (.cannotPause current)
  else
    let _ ← update id (·.state = current) fun c => { c with
      state := "paused", updatedAtMs := asI64 now }

/-- Begin a truthful resume of a paused download. -/
def resumeDownload : Method Unit := do
  let current := (← row id).state
  if current = "paused" then
    let _ ← update id (·.state = "paused") fun c => { c with
      state := "resolving_peer", lastError := none, nextRetryAtMs := none,
      updatedAtMs := asI64 now }
  else if current ∈ ["resolving_peer", "requesting_permission", "downloading", "verifying"] then
    pure ()
  else throw (.cannotResume current)

/-- Accept a fresh descriptor while checking its expiry at a supplied time. -/
def acceptResumedDescriptorAt (descriptorContentHash : String)
    (totalBytes expiresAtMs now : UInt64) : Method Unit := do
  let c ← row id
  if c.state ≠ "resolving_peer" ∧ c.state ≠ "requesting_permission" then
    throw .notAwaitingAuthorisation
  else if expiresAtMs ≤ now then
    let _ ← update id (fun _ => true) fun c => { c with
      state := "paused", lastError := some "resume descriptor expired; fresh permission required",
      updatedAtMs := asI64 now }
    throw .descriptorExpired
  else if c.contentHash ≠ descriptorContentHash then
    let expected := c.contentHash
    let _ ← update id (fun _ => true) fun c => { c with
      state := "version_mismatch"
      lastError := some ("resume descriptor hash mismatch: expected " ++ expected ++ ", got " ++
        descriptorContentHash)
      updatedAtMs := asI64 now }
    throw .hashMismatch
  else
    let _ ← update id (fun _ => true) fun c => { c with
      state := "downloading", totalBytes := asI64 totalBytes, lastError := none,
      nextRetryAtMs := none, updatedAtMs := asI64 now }

/-- Accept a resumed descriptor without an expiry. -/
def acceptResumedDescriptor (descriptorContentHash : String) (totalBytes : UInt64) : Method Unit :=
  acceptResumedDescriptorAt id descriptorContentHash totalBytes (UInt64.ofNat (2 ^ 64 - 1)) 0

/-- The remote peer rejects the permission request of a resumed download. -/
def rejectResumedPermission (reason : String) : Method Unit := do
  let _ ← update id (fun c => c.state ∈ ["resolving_peer", "requesting_permission"]) fun c =>
    { c with
      state := "paused", lastError := some reason, retryCount := c.retryCount + 1,
      updatedAtMs := asI64 now }

/-- Mark a download as failed with an error message. -/
def failDownload (error : String) (nextRetryAtMs : Option UInt64) : Method Unit := do
  let changed ← update id (·.state ≠ "paused") fun c => { c with
    state := "failed", lastError := some error, retryCount := c.retryCount + 1,
    nextRetryAtMs := nextRetryAtMs.map asI64, updatedAtMs := asI64 now }
  if changed then pure ()
  else
    let c ← row id
    if c.state = "paused" then throw .paused else pure ()

/-- Mark a download complete after its temporary output has been verified and atomically installed
by the download worker. -/
def completeDownload : Method Unit := do
  let changed ← update id (fun c => c.state ∉ ["complete", "cancelled", "paused"]) fun c => { c with
    state := "complete", bytesDownloaded := asI64 bytesDownloaded, lastError := none,
    nextRetryAtMs := none, updatedAtMs := asI64 now }
  if changed then pure () else throw (.cannotComplete id)

/-- Cancel a non-terminal download. -/
def cancelDownload : Method Unit := do
  let current := (← row id).state
  if current = "cancelled" then pure ()
  else if current ∈ ["complete", "completed", "failed", "version_mismatch"] then
    throw (.cannotCancel current)
  else
    let _ ← update id (·.state = current) fun c => { c with
      state := "cancelled", updatedAtMs := asI64 now }

/-- The claim of a queued download by a tick of the manager. -/
def claimQueued : Method Bool :=
  update id (·.state = "queued") fun c => { c with
    state := "resolving_peer", updatedAtMs := asI64 now }

/-- Remove the record of a download that has ended. -/
def deleteDownloadHistory : Method Bool := fun s =>
  let gone : ℤ → Download → Bool := fun k c => k = id &&
    c.state ∈ ["complete", "completed", "failed", "cancelled", "version_mismatch"]
  (.ok (0 < s.rows.count gone), s.deleteRows gone)

/-- The write of a state by the recovery after a restart. -/
def setDownloadStateForRecovery : Method Unit := do
  let _ ← update id (fun _ => true) fun c => { c with state, updatedAtMs := asI64 now }

end Downloads

end Boru
