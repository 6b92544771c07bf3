import Boru.Downloads.Table
import Boru.Posix.Files
import Boru.Text

/-!
# Recovery of downloads after a restart

`recoverDownloadsFromRestart` reads the rows that a restart has interrupted and gives each of them a
new state.  A row that was being verified is verified again: if the file at its destination has the
expected size and hash, the row is complete and the temporary file is removed; if the temporary file
has, it is moved to the destination and the row is complete; otherwise the row goes back to
`downloading`, so that the content is fetched again.

Three things are not checked.  A temporary file is moved over whatever is at the destination.  A row
without a destination is complete although nothing is installed.  And the paths of a row, or of two
rows, may lead to the same place: then a temporary file that is moved or removed may be the file
that another row, or the row itself, has been completed for.  `Separate` leaves these cases out.

## Main results

* `recoverRow_outcome` : what the recovery of one row does to the row and to the files.
* `Kept.installs` : if the paths do not interfere, completing a row keeps the files of the others.
* `recovered` : which rows are left in progress; rows that have been completed have their file, and
  no other file is lost.
* `lostFiles_left_downloading` : a row that is left in progress.
-/

namespace Boru

open Posix Prog Tree Downloads List

/-! ### Verification -/

/-- Why a file is not accepted as a download. -/
inductive VerifyError where
  /-- The path leads to nothing. -/
  | stat (e : Errno)
  | notRegular
  | sizeMismatch (expected : UInt64) (actual : ℕ)
  | hashMismatch (expected actual : String)

/-- Result of validating a downloaded temporary file. -/
structure VerifiedDownload where
  bytes : ℕ
  contentHash : String

abbrev Files := Tree (List Char) (List UInt8)

def textPath (text : String) : Path (List Char) := Path.parse text.toList

/-- Validate a temporary download without modifying either file or database.  `blake3` is the hash
of a byte string, as hexadecimal digits. -/
def verifyDownloadFile (blake3 : List UInt8 → String) (files : Files) (path : String)
    (expectedSize : UInt64) (expectedHash : String) : Except VerifyError VerifiedDownload :=
  match files.find false (textPath path) with
  | .error e => .error (.stat e)
  | .ok (_, .file bytes) =>
    if bytes.length ≠ expectedSize.toNat then .error (.sizeMismatch expectedSize bytes.length)
    else if blake3 bytes ≠ Text.toAsciiLowercase expectedHash then
      .error (.hashMismatch expectedHash (blake3 bytes))
    else .ok ⟨bytes.length, blake3 bytes⟩
  | .ok _ => .error .notRegular

/-! ### Interrupted downloads -/

/-- The states that a restart interrupts. -/
inductive Interrupted where
  | resolvingPeer
  | requestingPermission
  | downloading
  | verifying
  deriving DecidableEq

namespace Interrupted

def state : Interrupted → DownloadState
  | resolvingPeer => .resolvingPeer
  | requestingPermission => .requestingPermission
  | downloading => .downloading
  | verifying => .verifying

/-- The interrupted state with a database spelling. -/
def ofText (text : String) : Option Interrupted :=
  if text = "resolving_peer" then some resolvingPeer
  else if text = "requesting_permission" then some requestingPermission
  else if text = "downloading" then some downloading
  else if text = "verifying" then some verifying
  else none

theorem ofText_eq_some {text : String} {i : Interrupted} :
    ofText text = some i ↔ text = i.state.asStr := by
  constructor
  · intro h
    unfold ofText at h
    split_ifs at h <;> cases h <;> assumption
  · rintro rfl
    cases i <;> decide

end Interrupted

structure RecoveryRow where
  id : ℤ
  state : Interrupted
  totalBytes : UInt64
  contentHash : String
  /-- Where the content is received. -/
  tempPath : Option String
  destinationPath : Option String
  deriving DecidableEq

/-- What the recovery reads of a row, if the row was interrupted. -/
def RecoveryRow.ofRow (id : ℤ) (c : Download) : Option RecoveryRow :=
  (Interrupted.ofText c.state).map fun state =>
    ⟨id, state, asU64 c.totalBytes, c.contentHash, c.tempPath, c.destinationPath⟩

/-- `SELECT … WHERE state IN ('resolving_peer', …)`. -/
def Downloads.interrupted (s : Downloads) : List RecoveryRow :=
  (s.rows.select fun _ c => (Interrupted.ofText c.state).isSome).filterMap fun e =>
    RecoveryRow.ofRow e.1 e.2

/-- The table of downloads and the files. -/
structure DownloadStore where
  downloads : Downloads
  files : Files

def DownloadStore.verifying (s : DownloadStore) : List RecoveryRow :=
  s.downloads.interrupted.filter (·.state = .verifying)

inductive RecoveryError where
  /-- An operation on the table fails. -/
  | download (e : DownloadError)
  /-- A verified download cannot be installed. -/
  | install (e : Errno)

namespace RecoveryRow

variable (blake3 : List UInt8 → String) (files : Files) (r : RecoveryRow)

/-- The path leads to a file with the expected size and hash. -/
def verifies (path : String) : Bool :=
  files.isFile (textPath path) &&
    (verifyDownloadFile blake3 files path r.totalBytes r.contentHash).isOk

def destinationValid : Bool := r.destinationPath.any (r.verifies blake3 files)

def tempValid : Bool := r.tempPath.any (r.verifies blake3 files)

end RecoveryRow

/-! ### Recovery -/

def onDownloads {α : Type} (x : Downloads.Method α) : Prog DownloadStore RecoveryError α :=
  within DownloadStore.downloads (fun s downloads => { s with downloads }) (mapErr .download x)

def onFiles {α : Type} (x : Prog Files Errno α) : Prog DownloadStore RecoveryError α :=
  within DownloadStore.files (fun s files => { s with files }) (mapErr .install x)

/-- The files of a download that has been verified again: remove the temporary file, or install
it. -/
def installVerified (destinationValid : Bool) (r : RecoveryRow) :
    Prog DownloadStore RecoveryError Unit := do
  if destinationValid then
    match r.tempPath with
    | none => pure ()
    | some temp =>
      if (← get).files.isFile (textPath temp) then
        let _ ← (attempt (onFiles (removeFile (textPath temp))) :
          Prog DownloadStore RecoveryError (Except RecoveryError Unit))
      else pure ()
  else
    match r.tempPath, r.destinationPath with
    | some temp, some destination => onFiles (rename (textPath temp) (textPath destination))
    | _, _ => pure ()

def recoverRow (blake3 : List UInt8 → String) (now : ℤ → UInt64) (r : RecoveryRow) :
    Prog DownloadStore RecoveryError Unit := do
  let files := (← get).files
  let setState (state : String) : Prog DownloadStore RecoveryError Unit :=
    onDownloads (setDownloadStateForRecovery (now r.id) r.id state)
  match r.state with
  | .resolvingPeer | .requestingPermission =>
    let tempExists := r.tempPath.any fun path => files.isFile (textPath path)
    setState (if tempExists then "paused" else "queued")
  | .downloading => setState "paused"
  | .verifying =>
    let destinationValid := r.destinationValid blake3 files
    let tempValid := !destinationValid && r.tempValid blake3 files
    if destinationValid || tempValid then
      installVerified destinationValid r
      onDownloads (completeDownload (now r.id) r.id r.totalBytes)
    else setState "downloading"

/-- Recover download rows left in an in-progress state by a restart.  `order` is the order in which
the database returns the rows, and `now` the clock when a row is written. -/
def recoverDownloadsFromRestart (blake3 : List UInt8 → String)
    (order : List RecoveryRow → List RecoveryRow) (now : ℤ → UInt64) :
    Prog DownloadStore RecoveryError Unit := do
  (order (← get).downloads.interrupted).forM (recoverRow blake3 now)

/-! ### Valid files -/

def Expected (blake3 : List UInt8 → String) (size : UInt64) (hash : String) (bytes : List UInt8) :
    Prop := bytes.length = size.toNat ∧ blake3 bytes = Text.toAsciiLowercase hash

namespace RecoveryRow

variable {blake3 : List UInt8 → String} {files t u : Files} {r r' : RecoveryRow} {path : String}
  {q : Place (List Char)}

def TempAt (files : Files) (r : RecoveryRow) (q : Place (List Char)) : Prop :=
  ∃ path, r.tempPath = some path ∧ files.locate true (textPath path) = .ok q

def DestinationAt (files : Files) (r : RecoveryRow) (q : Place (List Char)) : Prop :=
  ∃ path, r.destinationPath = some path ∧ files.locate true (textPath path) = .ok q

/-- Where the destination leads if it is a link. -/
def LeadsTo (files : Files) (r : RecoveryRow) (q : Place (List Char)) : Prop :=
  ∃ path, r.destinationPath = some path ∧ files.locate false (textPath path) = .ok q

theorem verifies_iff : r.verifies blake3 files path = true ↔
    ∃ bytes, files.content (textPath path) = some bytes ∧
      Expected blake3 r.totalBytes r.contentHash bytes := by
  unfold verifies verifyDownloadFile isFile content
  cases files.find false (textPath path) with
  | error e => simp
  | ok x =>
    obtain ⟨q, node⟩ := x
    cases node with
    | dir | symlink target => simp
    | file bytes =>
      unfold Expected
      by_cases hs : bytes.length = r.totalBytes.toNat
      · by_cases hh : blake3 bytes = Text.toAsciiLowercase r.contentHash
        · simp [hs, hh, Except.toBool]
        · simp [hs, hh, Except.toBool]
      · simp [hs, Except.toBool]

end RecoveryRow

/-! ### The recovery of one row -/

/-- What the recovery does to the files of a row that has been verified again. -/
inductive Installs (blake3 : List UInt8 → String) (r : RecoveryRow) (t u : Files) : Prop where
  /-- The destination is valid, and there is no temporary file to remove. -/
  | present (hvalid : r.destinationValid blake3 t = true) (hfiles : u = t)
  /-- The destination is valid, and the temporary file is removed. -/
  | cleaned (p : Place (List Char)) (hvalid : r.destinationValid blake3 t = true)
    (htemp : r.TempAt t p) (hfiles : t.Removes u p)
  /-- The temporary file is valid, but there is no destination. -/
  | nowhere (hinvalid : r.destinationValid blake3 t = false)
    (hvalid : r.tempValid blake3 t = true) (hnone : r.destinationPath = none) (hfiles : u = t)
  /-- The temporary file is valid, and is at its destination. -/
  | inPlace (q : Place (List Char)) (hinvalid : r.destinationValid blake3 t = false)
    (hvalid : r.tempValid blake3 t = true) (htemp : r.TempAt t q)
    (hdestination : r.DestinationAt t q) (hfiles : u = t)
  /-- The temporary file is valid, and is moved to its destination. -/
  | moved (p q : Place (List Char)) (hinvalid : r.destinationValid blake3 t = false)
    (hvalid : r.tempValid blake3 t = true) (htemp : r.TempAt t p)
    (hdestination : r.DestinationAt t q) (hfiles : t.Moves u p q)

inductive Outcome (blake3 : List UInt8 → String) (r : RecoveryRow) (t u : Files)
    (state : String) : Prop where
  /-- The row waits for a worker or for the user. -/
  | waiting (hstate : r.state ≠ .verifying) (h : state = "queued" ∨ state = "paused")
    (hfiles : u = t)
  /-- Neither file is valid, and the content is to be fetched again. -/
  | reverted (hstate : r.state = .verifying) (hdestination : r.destinationValid blake3 t = false)
    (htemp : r.tempValid blake3 t = false) (h : state = "downloading") (hfiles : u = t)
  /-- A file is valid, and the row is complete. -/
  | completed (hstate : r.state = .verifying) (h : state = "complete")
    (hfiles : Installs blake3 r t u)

/-- Two rows name the same content and the same paths. -/
structure SameTarget (c c' : Download) : Prop where
  contentHash_eq : c'.contentHash = c.contentHash
  totalBytes_eq : c'.totalBytes = c.totalBytes
  destinationPath_eq : c'.destinationPath = c.destinationPath

section RecoverRow

variable {blake3 : List UInt8 → String} {now : ℤ → UInt64} {r : RecoveryRow} {s : DownloadStore}
  {c : Download}

/-- The temporary file is to be moved to the destination, and this fails. -/
def RecoveryRow.InstallFails (blake3 : List UInt8 → String) (files : Files) (r : RecoveryRow) :
    Prop :=
  r.destinationValid blake3 files = false ∧ ∃ temp destination e, r.tempPath = some temp ∧
    r.destinationPath = some destination ∧
    (rename (textPath temp) (textPath destination)).exec files = (.error e, files)

/-- What holds of a store after one row has been written. -/
def Writes (s s' : DownloadStore) (id : ℤ) (P : Download → Download → Prop) : Prop :=
  (∀ k, k ≠ id → s'.downloads.rows.lookup k = s.downloads.rows.lookup k) ∧
    ∀ c, s.downloads.rows.lookup id = some c →
      ∃ c', s'.downloads.rows.lookup id = some c' ∧ SameTarget c c' ∧ P c c'

theorem writes_updateRow {id : ℤ} {cond : Download → Bool} {set : Download → Download}
    {P : Download → Download → Prop} (hs : ∀ c, SameTarget c (set c))
    (hco : ∀ c, s.downloads.rows.lookup id = some c → cond c = true) (hP : ∀ c, P c (set c)) :
    Writes s { s with downloads := s.downloads.updateRow id cond set } id P := by
  refine ⟨fun k hk => ?_, fun c hc => ⟨set c, ?_, hs c, hP c⟩⟩
  · refine (lookup_updateRow _ _ _ _ _).trans ?_
    simp [hk]
  · refine (lookup_updateRow _ _ _ _ _).trans ?_
    simp [hc, hco c hc]

theorem Writes.mono {s s' : DownloadStore} {id : ℤ} {P P' : Download → Download → Prop}
    (h : Writes s s' id P) (hP : ∀ c c', P c c' → P' c c') : Writes s s' id P' := by
  refine ⟨h.1, fun c hc => ?_⟩
  obtain ⟨c', hc', ht, hPc⟩ := h.2 c hc
  exact ⟨c', hc', ht, hP c c' hPc⟩

variable {E : RecoveryError → DownloadStore → Prop}

theorem wp_setState {state : String} :
    wp (onDownloads (setDownloadStateForRecovery (now r.id) r.id state))
      (fun _ s' => s'.files = s.files ∧ Writes s s' r.id fun _ c' => c'.state = state) E s := by
  exact ⟨rfl, writes_updateRow (fun _ => ⟨rfl, rfl, rfl⟩) (fun _ _ => rfl) fun _ => rfl⟩

theorem wp_complete (hE : ∀ e s', E e s') :
    wp (onDownloads (completeDownload (now r.id) r.id r.totalBytes))
      (fun _ s' => s'.files = s.files ∧ Writes s s' r.id fun _ c' => c'.state = "complete")
      E s := by
  unfold onDownloads completeDownload
  rw [wp_within, wp_mapErr, wp_bind, wp_update]
  split_ifs with hch
  · obtain ⟨d, hd, hco⟩ := (Option.any_eq_true _ _).1 hch
    refine ⟨rfl, writes_updateRow (fun _ => ⟨rfl, rfl, rfl⟩) (fun c hc => ?_) fun _ => rfl⟩
    rw [hc] at hd
    cases hd
    exact hco
  · exact hE _ _

/-- Installing changes the files alone, and fails only where the temporary file is to be moved. -/
theorem wp_installVerified :
    wp (installVerified (r.destinationValid blake3 s.files) r)
      (fun _ s' => s'.downloads = s.downloads ∧ ¬ r.InstallFails blake3 s.files ∧
        (r.destinationValid blake3 s.files = true ∨ r.tempValid blake3 s.files = true →
          Installs blake3 r s.files s'.files))
      (fun _ s' => s'.downloads = s.downloads ∧ r.InstallFails blake3 s.files) s := by
  unfold installVerified RecoveryRow.InstallFails
  cases hd : r.destinationValid blake3 s.files with
  | true =>
    rw [if_pos rfl]
    cases ht : r.tempPath with
    | none => exact ⟨rfl, by simp, fun _ => .present hd rfl⟩
    | some temp =>
      rw [wp_bind, wp_get]
      split_ifs with hf
      · rw [wp_bind, wp_attempt, onFiles, wp_within, wp_mapErr]
        rcases removeFile_cases (textPath temp) s.files with ⟨e, he⟩ | ⟨p, u, hu, hp, hr⟩
        · exact (wp_of_error he).2 ⟨rfl, by simp, fun _ => .present hd rfl⟩
        · exact (wp_of_ok hu).2 ⟨rfl, by simp, fun _ => .cleaned p hd ⟨temp, ht, hp⟩ hr⟩
      · exact ⟨rfl, by simp, fun _ => .present hd rfl⟩
  | false =>
    rw [if_neg Bool.false_ne_true]
    cases ht : r.tempPath with
    | none => exact ⟨rfl, by simp, by simp [RecoveryRow.tempValid, ht]⟩
    | some temp =>
      cases hpa : r.destinationPath with
      | none =>
        exact ⟨rfl, by simp, fun h => .nowhere hd (h.resolve_left nofun) hpa rfl⟩
      | some de =>
        dsimp only
        rw [onFiles, wp_within, wp_mapErr]
        rcases rename_cases (textPath temp) (textPath de) s.files with
          ⟨e, he⟩ | ⟨p, q, u, hu, hp, hq, hm⟩
        · exact (wp_of_error he).2 ⟨rfl, rfl, temp, de, e, rfl, rfl, he⟩
        · refine (wp_of_ok hu).2 ⟨rfl, ?_, fun h => ?_⟩
          · rintro ⟨-, temp', d', e, htemp', hpath', he⟩
            cases htemp'
            cases hpath'
            rw [hu] at he
            cases he
          · rcases hm with ⟨rfl, rfl⟩ | hm
            · exact .inPlace p hd (h.resolve_left nofun) ⟨temp, ht, hp⟩ ⟨de, hpa, hq⟩ rfl
            · exact .moved p q hd (h.resolve_left nofun) ⟨temp, ht, hp⟩ ⟨de, hpa, hq⟩ hm

/-- **What the recovery of one row does.** -/
theorem recoverRow_outcome (hE : ∀ e s', E e s') :
    wp (recoverRow blake3 now r)
      (fun _ s' => Writes s s' r.id fun _ c' => Outcome blake3 r s.files s'.files c'.state)
      E s := by
  have hse : ∀ state,
      (∀ s' : DownloadStore, s'.files = s.files → Outcome blake3 r s.files s'.files state) →
      wp (onDownloads (setDownloadStateForRecovery (now r.id) r.id state))
        (fun _ s' => Writes s s' r.id fun _ c' => Outcome blake3 r s.files s'.files c'.state)
        E s := by
    intro state ho
    refine wp_mono wp_setState ?_ fun _ _ h => h
    rintro - s' ⟨hf, hw⟩
    refine hw.mono ?_
    rintro c c' rfl
    exact ho s' hf
  unfold recoverRow
  rw [wp_bind, wp_get]
  cases hs : r.state with
  | resolvingPeer | requestingPermission =>
    refine hse _ fun s' hf => .waiting (by rw [hs]; decide) ?_ hf
    split_ifs
    · exact .inr rfl
    · exact .inl rfl
  | downloading =>
    exact hse _ fun s' hf => .waiting (by rw [hs]; decide) (.inr rfl) hf
  | verifying =>
    dsimp only
    split_ifs with hv
    · have hv' : r.destinationValid blake3 s.files = true ∨ r.tempValid blake3 s.files = true := by
        simp only [Bool.or_eq_true, Bool.and_eq_true] at hv
        exact hv.imp_right And.right
      rw [wp_bind]
      refine wp_mono wp_installVerified ?_ fun e s' _ => hE e s'
      rintro - s₁ ⟨hd, -, hi⟩
      refine wp_mono (wp_complete hE) ?_ fun _ _ h => h
      rintro - s' ⟨hf, hw⟩
      unfold Writes at hw
      rw [hd] at hw
      refine Writes.mono hw fun c c' hc => .completed hs hc ?_
      rw [hf]
      exact hi hv'
    · simp only [Bool.or_eq_true, Bool.and_eq_true, not_or, not_and, Bool.not_eq_true,
        Bool.not_eq_eq_eq_not] at hv
      exact hse _ fun s' hf => .reverted hs hv.1 (hv.2 hv.1) rfl hf

end RecoverRow

/-! ### The table -/

namespace Downloads

variable {d : Downloads} {r r' : RecoveryRow}

theorem mem_interrupted :
    r ∈ d.interrupted ↔ ∃ c, d.rows.lookup r.id = some c ∧ RecoveryRow.ofRow r.id c = some r := by
  unfold interrupted
  rw [mem_filterMap]
  constructor
  · rintro ⟨⟨id, c⟩, hmem, hr⟩
    obtain ⟨hl, -⟩ := Table.mem_select.1 hmem
    obtain ⟨state, -, rfl⟩ := Option.map_eq_some_iff.1 hr
    exact ⟨c, hl, hr⟩
  · rintro ⟨c, hl, hr⟩
    obtain ⟨state, hs, -⟩ := Option.map_eq_some_iff.1 hr
    exact ⟨(r.id, c), Table.mem_select.2 ⟨hl, by rw [hs]; rfl⟩, hr⟩

theorem eq_of_mem_interrupted (h : r ∈ d.interrupted) (h' : r' ∈ d.interrupted)
    (hid : r.id = r'.id) : r = r' := by
  obtain ⟨c, hc, hr⟩ := mem_interrupted.1 h
  obtain ⟨c', hc', hr'⟩ := mem_interrupted.1 h'
  rw [hid, hc'] at hc
  cases hc
  rw [hid, hr'] at hr
  exact (Option.some.inj hr).symm

theorem nodup_interrupted : d.interrupted.Nodup := by
  have hk := Table.nodup_keys_select d.rows fun _ c => (Interrupted.ofText c.state).isSome
  rw [List.Nodup, pairwise_map] at hk
  refine List.Pairwise.filterMap _ ?_ hk
  rintro ⟨id, c⟩ ⟨id', c'⟩ hne r hr r' hr' rfl
  obtain ⟨_, -, rfl⟩ := Option.map_eq_some_iff.1 hr
  obtain ⟨_, -, h⟩ := Option.map_eq_some_iff.1 hr'
  exact hne (congrArg RecoveryRow.id h).symm

end Downloads

def RecoveryRow.Ends (r : RecoveryRow) (state : String) : Prop :=
  r.state ≠ .verifying ∧ (state = "queued" ∨ state = "paused") ∨
    r.state = .verifying ∧ (state = "complete" ∨ state = "downloading")

variable {blake3 : List UInt8 → String} {r : RecoveryRow} {t u : Files}

theorem Outcome.ends {state : String} (h : Outcome blake3 r t u state) : r.Ends state := by
  cases h with
  | waiting hs h _ => exact .inl ⟨hs, h⟩
  | reverted hs _ _ h _ => exact .inr ⟨hs, .inr h⟩
  | completed hs h _ => exact .inr ⟨hs, .inl h⟩

theorem Outcome.installs (h : Outcome blake3 r t u "complete") : Installs blake3 r t u := by
  cases h with
  | waiting _ h _ | reverted _ _ _ h _ => exact absurd h (by decide)
  | completed _ _ hf => exact hf

theorem Outcome.invalid (h : Outcome blake3 r t u "downloading") :
    r.destinationValid blake3 t = false ∧ r.tempValid blake3 t = false := by
  cases h with
  | waiting _ h _ => exact absurd h (by decide)
  | reverted _ hd ht _ _ => exact ⟨hd, ht⟩
  | completed _ h _ => exact absurd h (by decide)

/-- How far a recovery has come with the table. -/
structure Progress (s₀ : DownloadStore) (todo : List RecoveryRow) (s : DownloadStore) : Prop where
  /-- No row is left twice. -/
  nodup : todo.Nodup
  /-- Only interrupted rows are left. -/
  todo_mem : ∀ r ∈ todo, r ∈ s₀.downloads.interrupted
  /-- Other rows, and those that are left, are unchanged. -/
  others : ∀ id, (∀ r ∈ s₀.downloads.interrupted, r.id = id → r ∈ todo) →
    s.downloads.rows.lookup id = s₀.downloads.rows.lookup id
  /-- The rows that are done have a new state. -/
  done : ∀ r ∈ s₀.downloads.interrupted, r ∉ todo → ∀ c, s₀.downloads.rows.lookup r.id = some c →
    ∃ c', s.downloads.rows.lookup r.id = some c' ∧ SameTarget c c' ∧ r.Ends c'.state

section Rows

variable {s₀ s s' : DownloadStore} {r : RecoveryRow} {todo : List RecoveryRow}
  {P : Download → Download → Prop}

theorem Progress.lookup_head (h : Progress s₀ (r :: todo) s) :
    s.downloads.rows.lookup r.id = s₀.downloads.rows.lookup r.id := by
  refine h.others r.id fun r' hr' hid => ?_
  rw [eq_of_mem_interrupted hr' (h.todo_mem r mem_cons_self) hid]
  exact mem_cons_self

/-- Another row than the one that is written stays as it is. -/
theorem Progress.lookup_other (h : Progress s₀ (r :: todo) s) (hw : Writes s s' r.id P)
    {r' : RecoveryRow} (hr' : r' ∈ s₀.downloads.interrupted) (hne : r' ≠ r) :
    s'.downloads.rows.lookup r'.id = s.downloads.rows.lookup r'.id :=
  hw.1 _ fun hid =>
    hne (eq_of_mem_interrupted hr' (h.todo_mem r mem_cons_self) hid)

theorem Progress.step (h : Progress s₀ (r :: todo) s) (hw : Writes s s' r.id P)
    (hP : ∀ c c', P c c' → r.Ends c'.state) : Progress s₀ todo s' := by
  obtain ⟨hnot, hn⟩ := nodup_cons.1 h.nodup
  have hr := h.todo_mem r mem_cons_self
  refine ⟨hn, fun r' hr' => h.todo_mem r' (mem_cons_of_mem r hr'), ?_, ?_⟩
  · intro id hid
    have hne : id ≠ r.id := by
      rintro rfl
      exact hnot (hid r hr rfl)
    rw [hw.1 id hne]
    exact h.others id fun r' hr' he => mem_cons_of_mem r (hid r' hr' he)
  · intro r' hr' hd c hc
    by_cases hrr : r' = r
    · subst hrr
      obtain ⟨c', hc', ht, hPc⟩ := hw.2 c (h.lookup_head.trans hc)
      exact ⟨c', hc', ht, hP c c' hPc⟩
    · rw [h.lookup_other hw hr' hrr]
      exact h.done r' hr' (by simp [hrr, hd]) c hc

end Rows

/-! ### The files -/

/-- The paths of the downloads that were being verified do not interfere. -/
structure Separate (blake3 : List UInt8 → String) (s : DownloadStore) : Prop where
  temp_not_link : ∀ r ∈ s.verifying, ∀ path, r.tempPath = some path →
    s.files.readLink (textPath path) = none
  /-- No destination leads to a temporary file. -/
  temp_destination : ∀ r ∈ s.verifying, ∀ r' ∈ s.verifying, ∀ q, r.TempAt s.files q →
    ¬ r'.LeadsTo s.files q
  /-- Downloads with the same destination have the same content. -/
  same_content : ∀ r ∈ s.verifying, ∀ r' ∈ s.verifying, ∀ q, r.LeadsTo s.files q →
    r'.LeadsTo s.files q → r.totalBytes = r'.totalBytes ∧ r.contentHash = r'.contentHash
  /-- A file that is to be installed has a destination, and nothing is there. -/
  free : ∀ r ∈ s.verifying, r.tempValid blake3 s.files = true →
    r.destinationValid blake3 s.files = false →
    ∃ path, r.destinationPath = some path ∧ s.files.existsAt (textPath path) = false ∧
      s.files.readLink (textPath path) = none

/-- Every temporary file belongs to one download. -/
def DownloadStore.OwnTemps (s : DownloadStore) : Prop :=
  ∀ r ∈ s.verifying, ∀ r' ∈ s.verifying, ∀ q, r.TempAt s.files q → r'.TempAt s.files q → r = r'

/-- The file at a place is the one that a download expects. -/
def RecoveryRow.HeldAt (blake3 : List UInt8 → String) (r : RecoveryRow) (files : Files)
    (q : Place (List Char)) : Prop :=
  ∃ bytes, files.node q = some (.file bytes) ∧ Expected blake3 r.totalBytes r.contentHash bytes

structure Kept (blake3 : List UInt8 → String) (s₀ : DownloadStore) (todo : List RecoveryRow)
    (u : Files) : Prop where
  /-- The directories and links are the same. -/
  frame : s₀.files.SameDirs u
  /-- Files that are not temporary are kept. -/
  files : ∀ q bytes, s₀.files.node q = some (.file bytes) →
    (∀ r ∈ s₀.verifying, ¬ r.TempAt s₀.files q) → u.node q = some (.file bytes)
  /-- The temporary files of the rows that are left are kept, unless another row has used them. -/
  temps : ∀ r ∈ s₀.verifying, r ∈ todo → ∀ q, r.TempAt s₀.files q →
    u.node q = s₀.files.node q ∨ u.node q = none ∧ ¬ s₀.OwnTemps
  /-- At a destination there is what was there, or the expected file. -/
  destinations : ∀ r ∈ s₀.verifying, ∀ q, r.LeadsTo s₀.files q →
    u.node q = s₀.files.node q ∨ r.HeldAt blake3 u q

section Files

variable {H : List UInt8 → String} {s₀ : DownloadStore} {r r' : RecoveryRow} {t u : Files}
  {q : Place (List Char)} {todo : List RecoveryRow} {path : String}

theorem RecoveryRow.tempAt_iff (h : t.SameDirs u) : r.TempAt u q ↔ r.TempAt t q := by
  unfold RecoveryRow.TempAt
  simp only [h.locate_iff]

/-- A path verifies if the expected file is where it leads. -/
theorem RecoveryRow.any_verifies_iff {p : Option String} (h : t.SameDirs u) :
    p.any (r.verifies H u) = true ↔
      ∃ q, (∃ path, p = some path ∧ t.locate false (textPath path) = .ok q) ∧ r.HeldAt H u q := by
  cases p with
  | none => simp
  | some path =>
    rw [Option.any_some, RecoveryRow.verifies_iff]
    constructor
    · rintro ⟨bytes, hc, hep⟩
      obtain ⟨q, hl, hn⟩ := content_eq_some.1 hc
      exact ⟨q, ⟨path, rfl, h.locate_iff.1 hl⟩, bytes, hn, hep⟩
    · rintro ⟨q, ⟨_, ⟨⟩, hl⟩, bytes, hn, hep⟩
      exact ⟨bytes, content_eq_some.2 ⟨q, h.locate_iff.2 hl, hn⟩, hep⟩

theorem RecoveryRow.destinationValid_iff (h : t.SameDirs u) :
    r.destinationValid H u = true ↔ ∃ q, r.LeadsTo t q ∧ r.HeldAt H u q :=
  RecoveryRow.any_verifies_iff h

theorem Separate.tempValid_iff (hsep : Separate H s₀) (hr : r ∈ s₀.verifying)
    (h : s₀.files.SameDirs u) :
    r.tempValid H u = true ↔ ∃ q, r.TempAt s₀.files q ∧ r.HeldAt H u q := by
  refine (RecoveryRow.any_verifies_iff h).trans (exists_congr fun q => and_congr_left' ?_)
  refine exists_congr fun path => and_congr_right fun hp => ?_
  exact locate_false_iff (hsep.temp_not_link r hr path hp)

theorem RecoveryRow.TempAt.unique {q' : Place (List Char)} (h : r.TempAt t q) (h' : r.TempAt t q') :
    q = q' := by
  obtain ⟨path, hp, hq⟩ := h
  obtain ⟨path', hpath', hq'⟩ := h'
  rw [hp] at hpath'
  cases hpath'
  rw [hq] at hq'
  exact Except.ok.inj hq'

/-- No temporary file is a link. -/
theorem Kept.not_symlink (hsep : Separate H s₀) (h : Kept H s₀ todo t)
    (hr : r ∈ s₀.verifying) (hq : r.TempAt s₀.files q) (ta : Path (List Char)) :
    t.node q ≠ some (.symlink ta) := by
  obtain ⟨path, hp, hl⟩ := hq
  intro hn
  exact not_symlink_of_readLink (hsep.temp_not_link r hr path hp) hl ta
    ((h.frame.symlink_iff q ta).1 hn)

theorem Kept.weaken (h : Kept H s₀ (r :: todo) t) : Kept H s₀ todo t :=
  ⟨h.frame, h.files, fun r' hr' ht => h.temps r' hr' (mem_cons_of_mem r ht), h.destinations⟩

variable (hsep : Separate H s₀) (h : Kept H s₀ (r :: todo) t)

include hsep h

/-- A row is done: its temporary file is gone, and the expected file may have come to its
destination, where nothing was. -/
theorem Kept.changes {p : Place (List Char)} (hr : r ∈ s₀.verifying) (hnot : r ∉ todo)
    (hp : r.TempAt s₀.files p) (hdi : t.SameDirs u) (hgone : u.node p = none)
    (hn : ∀ x, x ≠ p → u.node x = t.node x ∨
      t.node x = none ∧ r.LeadsTo s₀.files x ∧ r.HeldAt H u x) :
    Kept H s₀ todo u ∧ ∀ r' ∈ s₀.verifying, ∀ q, r'.LeadsTo s₀.files q →
      r'.HeldAt H t q → r'.HeldAt H u q := by
  have hf : ∀ x bytes, x ≠ p → t.node x = some (.file bytes) →
      u.node x = some (.file bytes) := by
    intro x bytes hx ho
    rcases hn x hx with hs | ⟨hfr, -⟩
    · exact hs.trans ho
    · rw [hfr] at ho
      cases ho
  have hd : ∀ r' ∈ s₀.verifying, ∀ x, r'.LeadsTo s₀.files x → x ≠ p := by
    rintro r' hr' x hx rfl
    exact hsep.temp_destination r hr r' hr' x hp hx
  refine ⟨⟨h.frame.trans hdi, ?_, ?_, ?_⟩, ?_⟩
  · intro x bytes hx hno
    refine hf x bytes ?_ (h.files x bytes hx hno)
    rintro rfl
    exact hno r hr hp
  · intro r' hr' ht x hx
    by_cases hxp : x = p
    · subst hxp
      exact .inr ⟨hgone, fun hown => hnot (hown r hr r' hr' x hp hx ▸ ht)⟩
    rcases hn x hxp with hs | ⟨-, hq, -⟩
    · rw [hs]
      exact h.temps r' hr' (mem_cons_of_mem r ht) x hx
    · exact absurd hq (hsep.temp_destination r' hr' r hr x hx)
  · intro r' hr' x hx
    rcases hn x (hd r' hr' x hx) with hs | ⟨-, hq, hhe⟩
    · unfold RecoveryRow.HeldAt
      rw [hs]
      exact h.destinations r' hr' x hx
    · -- a download with the same destination expects the same file
      obtain ⟨hb, hh⟩ := hsep.same_content r hr r' hr' x hq hx
      right
      unfold RecoveryRow.HeldAt at hhe ⊢
      rwa [← hb, ← hh]
  · rintro r' hr' x hx ⟨bytes, ho, hep⟩
    exact ⟨bytes, hf x bytes (hd r' hr' x hx) ho, hep⟩

omit hsep in
/-- A destination that is not valid was not valid before. -/
theorem Kept.destination_invalid (hr : r ∈ s₀.verifying) (hi : r.destinationValid H t = false) :
    r.destinationValid H s₀.files = false := by
  refine Bool.eq_false_iff.2 fun hv => Bool.eq_false_iff.1 hi ?_
  obtain ⟨q, hq, hh⟩ := (RecoveryRow.destinationValid_iff (.refl _)).1 hv
  refine (RecoveryRow.destinationValid_iff h.frame).2 ⟨q, hq, ?_⟩
  rcases h.destinations r hr q hq with hs | hn
  · unfold RecoveryRow.HeldAt
    rw [hs]
    exact hh
  · exact hn

/-- A temporary file that is valid was valid before. -/
theorem Kept.temp_valid (hr : r ∈ s₀.verifying) (hv : r.tempValid H t = true) :
    r.tempValid H s₀.files = true := by
  obtain ⟨q, hq, bytes, hn, hep⟩ := (hsep.tempValid_iff hr h.frame).1 hv
  refine (hsep.tempValid_iff hr (.refl _)).2 ⟨q, hq, bytes, ?_, hep⟩
  rcases h.temps r hr mem_cons_self q hq with hs | ⟨hs, -⟩
  · exact hs ▸ hn
  · rw [hs] at hn
    cases hn

/-- A temporary file that no other row has used is valid if it was. -/
theorem Kept.temp_invalid (hown : s₀.OwnTemps) (hr : r ∈ s₀.verifying)
    (hi : r.tempValid H t = false) : r.tempValid H s₀.files = false := by
  refine Bool.eq_false_iff.2 fun hv => Bool.eq_false_iff.1 hi ?_
  obtain ⟨q, hq, hh⟩ := (hsep.tempValid_iff hr (.refl _)).1 hv
  refine (hsep.tempValid_iff hr h.frame).2 ⟨q, hq, ?_⟩
  unfold RecoveryRow.HeldAt
  rw [(h.temps r hr mem_cons_self q hq).resolve_right fun hn => hn.2 hown]
  exact hh

/-- A file that is installed has a destination, and replaces nothing. -/
theorem Kept.free (hr : r ∈ s₀.verifying) (hi : r.destinationValid H t = false)
    (hv : r.tempValid H t = true) :
    r.destinationPath ≠ none ∧
      ∀ q, r.DestinationAt t q → t.node q = none ∧ r.LeadsTo s₀.files q := by
  obtain ⟨path, hp, hes, hli⟩ := hsep.free r hr (h.temp_valid hsep hr hv)
    (h.destination_invalid hr hi)
  refine ⟨by simp [hp], fun q hq => ?_⟩
  obtain ⟨path', hpath', hl⟩ := hq
  rw [hp] at hpath'
  cases hpath'
  have hlo := (locate_false_iff hli).2 (h.frame.locate_iff.1 hl)
  have hle : r.LeadsTo s₀.files q := ⟨path, hp, hlo⟩
  have hs : t.node q = s₀.files.node q := by
    refine (h.destinations r hr q hle).resolve_right fun hh => ?_
    exact Bool.eq_false_iff.1 hi ((RecoveryRow.destinationValid_iff h.frame).2 ⟨q, hle, hh⟩)
  refine ⟨?_, hle⟩
  rw [hs]
  by_contra hn
  rw [existsAt_iff.2 ⟨q, canonicalize_eq_ok.2 ⟨hlo, hn⟩⟩] at hes
  cases hes

/-- **The files of a row that is completed.**  The expected file is at its destination, and no
destination loses the file that is expected there. -/
theorem Kept.installs (hr : r ∈ s₀.verifying) (hnot : r ∉ todo) (hin : Installs H r t u) :
    Kept H s₀ todo u ∧ (∃ q, r.LeadsTo s₀.files q ∧ r.HeldAt H u q) ∧
      ∀ r' ∈ s₀.verifying, ∀ q, r'.LeadsTo s₀.files q → r'.HeldAt H t q →
        r'.HeldAt H u q := by
  cases hin with
  | present hv hf =>
    subst hf
    exact ⟨h.weaken, (RecoveryRow.destinationValid_iff h.frame).1 hv, fun _ _ _ _ hh => hh⟩
  | cleaned p hv ht hre =>
    have hp := (RecoveryRow.tempAt_iff h.frame).1 ht
    obtain ⟨hke, hk⟩ := h.changes hsep hr hnot hp
      (hre.sameDirs (h.not_symlink hsep hr hp)) hre.node_self fun x hx => .inl (hre.node_ne x hx)
    obtain ⟨q, hq, hh⟩ := (RecoveryRow.destinationValid_iff h.frame).1 hv
    exact ⟨hke, ⟨q, hq, hk r hr q hq hh⟩, hk⟩
  | nowhere hi hv hno hf =>
    exact absurd hno (h.free hsep hr hi hv).1
  | inPlace q hi hv ht hd hf =>
    exact absurd ((h.free hsep hr hi hv).2 q hd).2
      (hsep.temp_destination r hr r hr q ((RecoveryRow.tempAt_iff h.frame).1 ht))
  | moved p q hi hv ht hd hm =>
    have hp := (RecoveryRow.tempAt_iff h.frame).1 ht
    obtain ⟨hfr, hq⟩ := (h.free hsep hr hi hv).2 q hd
    have hh : r.HeldAt H u q := by
      obtain ⟨p', hp', bytes, hn, hep⟩ := (hsep.tempValid_iff hr h.frame).1 hv
      cases hp.unique hp'
      exact ⟨bytes, hm.node_target.trans hn, hep⟩
    have hdi := hm.sameDirs (h.not_symlink hsep hr hp) fun target hn => by
      rw [hfr] at hn
      cases hn
    obtain ⟨hke, hk⟩ := h.changes hsep hr hnot hp hdi hm.node_source fun x hx => by
      by_cases hxq : x = q
      · exact .inr (hxq ▸ ⟨hfr, hq, hh⟩)
      · exact .inl (hm.node_ne x hx hxq)
    exact ⟨hke, ⟨q, hq, hh⟩, hk⟩

end Files

/-! ### The whole recovery -/

/-- How far a recovery has come, if the paths do not interfere. -/
structure Sound (blake3 : List UInt8 → String) (s₀ : DownloadStore) (todo : List RecoveryRow)
    (s : DownloadStore) : Prop where
  kept : Kept blake3 s₀ todo s.files
  /-- Rows that have been completed have their file. -/
  completed : ∀ r ∈ s₀.verifying, r ∉ todo → ∀ c, s.downloads.rows.lookup r.id = some c →
    c.state = "complete" → ∃ q, r.LeadsTo s₀.files q ∧ r.HeldAt blake3 s.files q
  /-- Rows that are to be fetched again had no valid file. -/
  reverted : ∀ r ∈ s₀.verifying, r ∉ todo → ∀ c, s.downloads.rows.lookup r.id = some c →
    c.state = "downloading" → r.destinationValid blake3 s₀.files = false ∧
      (s₀.OwnTemps → r.tempValid blake3 s₀.files = false)

section Run

variable {b : List UInt8 → String} {now : ℤ → UInt64}
  {order : List RecoveryRow → List RecoveryRow} {s₀ s s' : DownloadStore} {r : RecoveryRow}
  {todo : List RecoveryRow}

theorem DownloadStore.mem_verifying :
    r ∈ s.verifying ↔ r ∈ s.downloads.interrupted ∧ r.state = .verifying := by
  unfold DownloadStore.verifying
  rw [mem_filter, decide_eq_true_iff]

/-- What the recovery of a row leaves to the rest of the rows. -/
theorem Sound.step (hsep : Separate b s₀) (hp : Progress s₀ (r :: todo) s)
    (h : Sound b s₀ (r :: todo) s)
    (hw : Writes s s' r.id fun _ c' => Outcome b r s.files s'.files c'.state) :
    Sound b s₀ todo s' := by
  have hr := hp.todo_mem r mem_cons_self
  have hnot := (nodup_cons.1 hp.nodup).1
  obtain ⟨c, hc, -⟩ := mem_interrupted.1 hr
  obtain ⟨c', hc', -, ho⟩ := hw.2 c (hp.lookup_head.trans hc)
  -- the files that are there for the rows that are done stay there
  obtain ⟨hke, hk⟩ : Kept b s₀ todo s'.files ∧
      ∀ r' ∈ s₀.verifying, ∀ q, r'.LeadsTo s₀.files q → r'.HeldAt b s.files q →
        r'.HeldAt b s'.files q := by
    cases ho with
    | waiting _ _ hf | reverted _ _ _ _ hf =>
      rw [hf]
      exact ⟨h.kept.weaken, fun _ _ _ _ hh => hh⟩
    | completed hs _ hi =>
      obtain ⟨hke, -, hk⟩ := h.kept.installs hsep (DownloadStore.mem_verifying.2 ⟨hr, hs⟩) hnot hi
      exact ⟨hke, hk⟩
  refine ⟨hke, ?_, ?_⟩
  · intro r' hr' hdn d hd hco
    by_cases hrr : r' = r
    · subst hrr
      rw [hc'] at hd
      cases hd
      rw [hco] at ho
      exact (h.kept.installs hsep hr' hnot ho.installs).2.1
    · have hr'' := DownloadStore.mem_verifying.1 hr'
      rw [hp.lookup_other hw hr''.1 hrr] at hd
      obtain ⟨q, hq, hh⟩ := h.completed r' hr' (by simp [hrr, hdn]) d hd hco
      exact ⟨q, hq, hk r' hr' q hq hh⟩
  · intro r' hr' hdn d hd hdo
    by_cases hrr : r' = r
    · subst hrr
      rw [hc'] at hd
      cases hd
      rw [hdo] at ho
      obtain ⟨hde, ht⟩ := ho.invalid
      exact ⟨h.kept.destination_invalid hr' hde,
        fun hown => h.kept.temp_invalid hsep hown hr' ht⟩
    · have hr'' := DownloadStore.mem_verifying.1 hr'
      rw [hp.lookup_other hw hr''.1 hrr] at hd
      exact h.reverted r' hr' (by simp [hrr, hdn]) d hd hdo

/-- **The recovery of all rows.** -/
theorem wp_recover (hor : ∀ rows, (order rows).Perm rows) :
    wp (recoverDownloadsFromRestart b order now)
      (fun _ s' => Progress s₀ [] s' ∧ (Separate b s₀ → Sound b s₀ [] s'))
      (fun _ _ => True) s₀ := by
  have hmem : ∀ r, r ∈ order s₀.downloads.interrupted ↔ r ∈ s₀.downloads.interrupted :=
    fun r => (hor _).mem_iff
  refine wp_forM (P := fun todo s =>
    Progress s₀ todo s ∧ (Separate b s₀ → Sound b s₀ todo s)) ?_ _ ?_
  · rintro r todo s ⟨hp, hs⟩
    refine wp_mono (recoverRow_outcome fun _ _ => trivial) ?_ fun _ _ h => h
    intro _ s' hw
    exact ⟨hp.step hw fun _ _ ho => ho.ends, fun hsep => (hs hsep).step hsep hp hw⟩
  · refine ⟨⟨(hor _).nodup_iff.2 (nodup_interrupted), fun r hr => (hmem r).1 hr,
      fun _ _ => rfl, fun r hr hnot => absurd ((hmem r).2 hr) hnot⟩, fun _ => ⟨?_, ?_, ?_⟩⟩
    · exact ⟨.refl _, fun _ _ hq _ => hq, fun _ _ _ _ _ => .inl rfl, fun _ _ _ _ => .inl rfl⟩
    · exact fun r hr hnot => absurd ((hmem r).2 (DownloadStore.mem_verifying.1 hr).1) hnot
    · exact fun r hr hnot => absurd ((hmem r).2 (DownloadStore.mem_verifying.1 hr).1) hnot

variable {id : ℤ}

/-- A row that is not interrupted is not among the rows that are recovered. -/
theorem Progress.lookup_of_not_interrupted (h : Progress s₀ [] s)
    (hid : ∀ c, s₀.downloads.rows.lookup id = some c → Interrupted.ofText c.state = none) :
    s.downloads.rows.lookup id = s₀.downloads.rows.lookup id := by
  refine h.others id fun r hr he => ?_
  obtain ⟨c, hc, hro⟩ := mem_interrupted.1 hr
  obtain ⟨state, hs, -⟩ := Option.map_eq_some_iff.1 hro
  rw [hid c (he ▸ hc)] at hs
  cases hs

variable {c : Download}

theorem Progress.exists_row (h : Progress s₀ [] s) {state : Interrupted}
    (hc : s₀.downloads.rows.lookup id = some c) (hs : Interrupted.ofText c.state = some state) :
    ∃ r ∈ s₀.downloads.interrupted, r.id = id ∧ RecoveryRow.ofRow id c = some r ∧
      ∃ c', s.downloads.rows.lookup id = some c' ∧ SameTarget c c' ∧ r.Ends c'.state := by
  obtain ⟨r, rfl, hr⟩ : ∃ r : RecoveryRow, r.id = id ∧ RecoveryRow.ofRow id c = some r := by
    unfold RecoveryRow.ofRow
    rw [hs]
    exact ⟨_, rfl, rfl⟩
  have hmem := mem_interrupted.2 ⟨c, hc, hr⟩
  exact ⟨r, hmem, rfl, hr, h.done r hmem not_mem_nil c hc⟩

theorem RecoveryRow.ofRow_eq_some (h : RecoveryRow.ofRow id c = some r) :
    Interrupted.ofText c.state = some r.state ∧ r.totalBytes = asU64 c.totalBytes ∧
      r.contentHash = c.contentHash ∧ r.destinationPath = c.destinationPath := by
  obtain ⟨state, hs, rfl⟩ := Option.map_eq_some_iff.1 h
  exact ⟨hs, rfl, rfl, rfl⟩

theorem Progress.lookup_of_ofText (h : Progress s₀ [] s) (hc : s₀.downloads.rows.lookup id = some c)
    (hs : Interrupted.ofText c.state = none) :
    s.downloads.rows.lookup id = some c := by
  rw [← hc]
  refine h.lookup_of_not_interrupted fun d hd => ?_
  rw [hc] at hd
  cases hd
  exact hs

/-- A row that is left in progress was being verified, and is to be fetched again. -/
theorem Progress.left_in_progress (h : Progress s₀ [] s) {c' : Download}
    (hc' : s.downloads.rows.lookup id = some c') (hs' : Interrupted.ofText c'.state ≠ none) :
    ∃ c, s₀.downloads.rows.lookup id = some c ∧ c.state = "verifying" ∧
      c'.state = "downloading" := by
  cases hc : s₀.downloads.rows.lookup id with
  | none =>
    have hn := h.lookup_of_not_interrupted fun d hd => by
      rw [hc] at hd
      cases hd
    rw [hn, hc] at hc'
    cases hc'
  | some c =>
    cases hs : Interrupted.ofText c.state with
    | none =>
      rw [h.lookup_of_ofText hc hs] at hc'
      cases hc'
      exact absurd hs hs'
    | some state =>
      obtain ⟨r, -, -, hr, d, hd, -, hen⟩ := h.exists_row hc hs
      rw [hc'] at hd
      cases hd
      rcases hen with ⟨-, h | h⟩ | ⟨hv, h | h⟩
      · exact absurd (by rw [h]; rfl) hs'
      · exact absurd (by rw [h]; rfl) hs'
      · exact absurd (by rw [h]; rfl) hs'
      · have ht := (RecoveryRow.ofRow_eq_some hr).1
        rw [hv] at ht
        exact ⟨c, rfl, Interrupted.ofText_eq_some.1 ht, h⟩

/-- A row that has been completed has the expected file at its destination. -/
theorem Sound.content_of_complete (hp : Progress s₀ [] s)
    (h : Sound b s₀ [] s) {c' : Download} (hc : s₀.downloads.rows.lookup id = some c)
    (hne : c.state ≠ "complete") (hc' : s.downloads.rows.lookup id = some c')
    (hco : c'.state = "complete") :
    ∃ path bytes, c'.destinationPath = some path ∧
      s.files.content (textPath path) = some bytes ∧
      Expected b (asU64 c'.totalBytes) c'.contentHash bytes := by
  cases hs : Interrupted.ofText c.state with
  | none =>
    rw [hp.lookup_of_ofText hc hs] at hc'
    cases hc'
    exact absurd hco hne
  | some state =>
    obtain ⟨r, hmem, rfl, hro, d, hd, ht, hen⟩ := hp.exists_row hc hs
    rw [hc'] at hd
    cases hd
    have hv : r.state = .verifying := by
      rw [hco] at hen
      rcases hen with ⟨-, h⟩ | ⟨h, -⟩
      · exact absurd h (by decide)
      · exact h
    have hr := DownloadStore.mem_verifying.2 ⟨hmem, hv⟩
    obtain ⟨q, ⟨path, hpa, hl⟩, bytes, hn, hep⟩ :=
      h.completed r hr not_mem_nil c' hc' hco
    obtain ⟨-, hb, hh, hde⟩ := RecoveryRow.ofRow_eq_some hro
    refine ⟨path, bytes, ?_, content_eq_some.2 ⟨q, h.kept.frame.locate_iff.2 hl, hn⟩, ?_⟩
    · rw [ht.destinationPath_eq, ← hde, hpa]
    · rw [ht.totalBytes_eq, ht.contentHash_eq, ← hb, ← hh]
      exact hep

end Run

/-- **Recovery after a restart.**  If the recovery returns, the rows that were not interrupted are
unchanged, and the only rows that are left in progress are rows that were being verified and are to
be fetched again.  If the paths do not interfere, these are rows without a valid destination, and
without a valid temporary file unless rows share one, every row that has been completed has the
expected file at its destination, and every file that was there, temporary files apart, is still
there. -/
theorem recovered (blake3 : List UInt8 → String) (order : List RecoveryRow → List RecoveryRow)
    (now : ℤ → UInt64) (s s' : DownloadStore) (horder : ∀ rows, (order rows).Perm rows)
    (hok : (recoverDownloadsFromRestart blake3 order now).exec s = (.ok (), s')) :
    (∀ id c, s.downloads.rows.lookup id = some c → Interrupted.ofText c.state = none →
      s'.downloads.rows.lookup id = some c) ∧
    (∀ id c', s'.downloads.rows.lookup id = some c' → Interrupted.ofText c'.state ≠ none →
      ∃ c, s.downloads.rows.lookup id = some c ∧ c.state = "verifying" ∧ c'.state = "downloading") ∧
    (Separate blake3 s →
      (∀ r ∈ s.verifying, ∀ c', s'.downloads.rows.lookup r.id = some c' →
        c'.state = "downloading" → r.destinationValid blake3 s.files = false ∧
          (s.OwnTemps → r.tempValid blake3 s.files = false)) ∧
      (∀ id c c', s.downloads.rows.lookup id = some c → c.state ≠ "complete" →
        s'.downloads.rows.lookup id = some c' → c'.state = "complete" →
        ∃ path bytes, c'.destinationPath = some path ∧
          s'.files.content (textPath path) = some bytes ∧
          Expected blake3 (asU64 c'.totalBytes) c'.contentHash bytes) ∧
      ∀ q bytes, s.files.node q = some (.file bytes) → (∀ r ∈ s.verifying, ¬ r.TempAt s.files q) →
        s'.files.node q = some (.file bytes)) := by
  obtain ⟨hp, hs⟩ := (wp_of_ok hok).1 (wp_recover horder)
  exact ⟨fun id c hc hst => hp.lookup_of_ofText hc hst,
    fun id c' hc' hst => hp.left_in_progress hc' hst, fun hsep =>
    ⟨fun r hr c' hc' h => (hs hsep).reverted r hr not_mem_nil c' hc' h,
      fun id c c' hc hne hc' h => (hs hsep).content_of_complete hp hc hne hc' h,
      (hs hsep).kept.files⟩⟩

/-- A directory with a temporary file. -/
def sampleFiles : Files where
  nodes := toAList [⟨[], .dir⟩, ⟨["d".toList], .dir⟩, ⟨["d".toList, "a.part".toList], .file [1]⟩]
  root := by decide
  inDirectory := by decide
  cwd := []
  cwd_dir := by decide

def sampleRow (state : String) (tempPath destinationPath : Option String) : Download where
  contentHash := "AA"
  remotePeer := "peer"
  state := state
  bytesDownloaded := 1
  totalBytes := 1
  createdAtMs := 0
  updatedAtMs := 0
  tempPath := tempPath
  destinationPath := destinationPath

/-- A download that was being verified and has lost its files. -/
def lostFiles : DownloadStore where
  downloads := ⟨toAList [⟨1, sampleRow "verifying" (some "/d/b.part") (some "/d/b")⟩], 1, by decide⟩
  files := sampleFiles

/-- A row without files is left in progress. -/
theorem lostFiles_left_downloading :
    ((recoverDownloadsFromRestart (fun _ => "aa") id fun _ => 7).exec lostFiles).1 = .ok () ∧
      (((recoverDownloadsFromRestart (fun _ => "aa") id fun _ => 7).exec
        lostFiles).2.downloads.rows.lookup 1).map Download.state = some "downloading" :=
  ⟨rfl, by decide +kernel⟩

/-- A download that was being verified, whose temporary file is valid, and one that has failed. -/
def partFile : DownloadStore where
  downloads := ⟨toAList [⟨2, sampleRow "failed" none none⟩,
    ⟨1, sampleRow "verifying" (some "/d/a.part") (some "/d/a")⟩], 2, by decide⟩
  files := sampleFiles

theorem verifying_partFile : partFile.verifying =
    [⟨1, .verifying, 1, "AA", some "/d/a.part", some "/d/a"⟩] := by decide +kernel

theorem separate_partFile : Separate (fun _ => "aa") partFile := by
  constructor
  all_goals
    intro r hr
    rw [verifying_partFile, mem_singleton] at hr
    subst hr
  · rintro path ⟨⟩
    decide +kernel
  · intro r' hr' q ⟨path, h, hq⟩ ⟨path', h', hq'⟩
    rw [verifying_partFile, mem_singleton] at hr'
    subst hr'
    cases h
    cases h'
    rw [← hq] at hq'
    exact absurd (Except.ok.inj hq') (by decide)
  · intro r' hr' q _ _
    rw [verifying_partFile, mem_singleton] at hr'
    subst hr'
    exact ⟨rfl, rfl⟩
  · exact fun _ _ => ⟨_, rfl, by decide +kernel, by decide +kernel⟩

/-- The temporary file is installed. -/
theorem recovered_partFile :
    ((recoverDownloadsFromRestart (fun _ => "aa") id fun _ => 7).exec partFile).1 = .ok () ∧
      Separate (fun _ => "aa") partFile ∧
      ∃ path bytes, some "/d/a" = some path ∧
        ((recoverDownloadsFromRestart (fun _ => "aa") id fun _ => 7).exec
          partFile).2.files.content (textPath path) = some bytes ∧
        Expected (fun _ => "aa") 1 "AA" bytes :=
  ⟨rfl, separate_partFile, ((recovered (fun _ => "aa") id (fun _ => 7) partFile _
    (fun _ => .refl _) rfl).2.2 separate_partFile).2.1 1
    (sampleRow "verifying" (some "/d/a.part") (some "/d/a")) _ rfl (by decide) rfl rfl⟩

end Boru
