import Boru.FileAccess.Policy

/-!
# The catalogue and the access policy

`catalogueEntriesForPeer` selects the files that a peer sees in the owner's catalogue, and the
authorization stage of `checkPermission` decides which of them the peer may download.  The two are
written independently, and they differ: the catalogue does not look at blocked peers and rings, and
takes every active permission on a file, also a `deny` for somebody else, as a sign that the file is
for selected peers only.

## Main results

* `listed_iff_not_denied_iff` : for an offered file, the catalogue and the policy agree on a
  requester if and only if none of these differences shows.
-/

namespace Boru.FileAccess

open FileAccessHandler

open Transfer (UserId ContentHash Tables SharedFileKey SharedFileRow SharedFilePermission
  FileObject RemoteSharedFile)

/-! ### The catalogue of a peer -/

section Catalogue

variable (db : Tables) (profileUserId : UserId) (nowMs : UInt64)

/-- Whether a permission is one of the profile on the file, and active. -/
def applies (contentHash : ContentHash) (p : SharedFilePermission) : Bool :=
  p.grantorUserId = profileUserId && p.contentHash = contentHash && p.isActiveAt nowMs

/-- Whether the requester's permissions hide a file, which they do if they deny it, or if they do
not grant it and the file is restricted or the requester is no friend. -/
def hidden (isFriend : Bool) (permissions : List SharedFilePermission) (contentHash : ContentHash) :
    Bool :=
  let mine := permissions.filter (applies profileUserId nowMs contentHash)
  let denied := mine.any fun p => p.permission = "deny"
  let granted := mine.any fun p => p.permission = "read"
  denied || (!granted &&
    (db.hasActivePermissionsForFile contentHash profileUserId nowMs || !isFriend))

/-- The entry of a file.  An identifier that was used already is replaced by the content hash. -/
def catalogueEntry (usedIds : List String) (row : SharedFileRow) (object : FileObject) :
    RemoteSharedFile where
  sharedFileId := if row.metadataId ∈ usedIds then row.contentHash else row.metadataId
  displayName := row.displayFilename
  description := row.description
  mimeType := object.mimeType
  sizeBytes := asU64 object.size
  contentHash := row.contentHash
  versionNumber := UInt32.ofNat (min row.version.toNat (2 ^ 32 - 1))
  updatedAtMs := row.updatedAtMs

/-- The loop over the offered files. -/
def catalogueFiles (isFriend : Bool) (permissions : List SharedFilePermission) :
    List String → List SharedFileRow → List RemoteSharedFile
  | _, [] => []
  | usedIds, row :: rows =>
    if !db.fileObjectExists row.contentHash then catalogueFiles isFriend permissions usedIds rows
    else if hidden db profileUserId nowMs isFriend permissions row.contentHash then
      catalogueFiles isFriend permissions usedIds rows
    else match db.getFileObject row.contentHash with
    | none => catalogueFiles isFriend permissions usedIds rows
    | some object =>
      catalogueEntry usedIds row object ::
        catalogueFiles isFriend permissions (row.metadataId :: usedIds) rows

/-- The files of the view that a requester is given of the catalogue. -/
def catalogueEntriesForPeer (requester : UserId) (friends : FriendsStore) : List RemoteSharedFile :=
  let isFriend := decide (friends.lookup requester = some .friends)
  let permissions := db.listPermissionsForGrantee requester
  catalogueFiles db profileUserId nowMs isFriend permissions []
    (db.listSharedFiles profileUserId true)

variable {db profileUserId nowMs}

/-- A hash is listed if and only if it is the hash of a file that has its object and is not
hidden. -/
theorem exists_mem_catalogueFiles {isFriend : Bool} {p : List SharedFilePermission}
    {ui : List String} {rows : List SharedFileRow} {contentHash : ContentHash} :
    (∃ f ∈ catalogueFiles db profileUserId nowMs isFriend p ui rows,
        f.contentHash = contentHash) ↔
      (∃ row ∈ rows, row.contentHash = contentHash) ∧ db.fileObjectExists contentHash ∧
        hidden db profileUserId nowMs isFriend p contentHash = false := by
  induction rows generalizing ui with
  | nil => simp [catalogueFiles]
  | cons row rows ih =>
    unfold catalogueFiles
    by_cases hr : row.contentHash = contentHash
    · subst hr
      split_ifs with hes hh
      · simp_all
      · rw [ih]
        simp_all
      · cases ho : db.getFileObject row.contentHash with
        | none => simp [Tables.fileObjectExists, ho] at hes
        | some object =>
          refine iff_of_true ⟨_, List.mem_cons_self, rfl⟩ ⟨⟨row, List.mem_cons_self, rfl⟩, ?_, ?_⟩
          · simpa using hes
          · simpa using hh
    · have hs : (∃ r ∈ row :: rows, r.contentHash = contentHash) ↔
          ∃ r ∈ rows, r.contentHash = contentHash := by
        simp [hr]
      rw [hs]
      split_ifs with hes hh
      · exact ih
      · exact ih
      · cases db.getFileObject row.contentHash with
        | none => exact ih
        | some object =>
          refine Iff.trans ?_ (@ih (row.metadataId :: ui))
          simp [catalogueEntry, hr]

theorem fileObjectExists_of_mem {row : SharedFileRow} {oo : Bool}
    (hr : row ∈ db.listSharedFiles profileUserId oo) :
    db.fileObjectExists row.contentHash := by
  obtain ⟨⟨k, c⟩, he, rfl⟩ := List.mem_map.1 hr
  have hl := (Table.mem_select.1 ((List.mem_insertionSort _).1 he)).1
  have hkey := db.sharedFiles_objects k
    (AList.mem_keys.1 (AList.lookup_isSome.1 (by rw [hl]; rfl)))
  exact AList.lookup_isSome.2 (AList.mem_keys.2 hkey)

end Catalogue

/-! ### The relations between a requester and a file -/

/-- A run during which nothing changes. -/
def Run.still (db : Tables) (nowMs : UInt64) : Run where
  access _ := ⟨db, nowMs, false⟩
  freeSlots := 1
  preparation := .timedOut
  nonce := []

section Agreement

variable (h : FileAccessHandler) (db : Tables) (nowMs : UInt64) (requester : UserId)

/-- The catalogue lists the file for the requester. -/
def Listed (row : SharedFileRow) : Prop :=
  ∃ f ∈ catalogueEntriesForPeer db h.profileUserId nowMs requester h.friends,
    f.contentHash = row.contentHash

/-- The authorization stage answers that permission is denied. -/
def Denied (row : SharedFileRow) : Prop :=
  ∃ diag, h.authorize (Run.still db nowMs) requester row = .error (.returns diag .permissionDenied)

def Blocks : Prop := h.friends.lookup requester = some .blocked

variable (contentHash : ContentHash)

/-- Whether an active permission of the requester on the file has the text. -/
def Holds (permission : String) : Prop :=
  ∃ p ∈ db.listPermissionsForGrantee requester,
    applies h.profileUserId nowMs contentHash p ∧ p.permission = permission

/-- Whether a ring lets the requester read the file. -/
def InRing : Prop := db.checkRingAccess h.profileUserId requester contentHash "read"

/-- Whether somebody has an active read grant on the file. -/
def Selected : Prop := 0 < db.countReadGrantsForFile contentHash h.profileUserId nowMs

/-- Whether there is any active permission on the file. -/
def Restricted : Prop := db.hasActivePermissionsForFile contentHash h.profileUserId nowMs

/-- None of the differences between the catalogue and the policy shows: the requester is denied the
file, or
* a blocked requester has no read grant,
* a requester with a read grant is in a ring or a friend, or the grant counts for the statements,
* a requester in a ring has a read grant too, or is a friend and the file has no permission at all,
* if a friend without a read grant is not in a ring, then the permissions on the file, if any,
  include a read grant. -/
def Concordant : Prop :=
  Holds h db nowMs requester contentHash "deny" ∨
    (Blocks h requester → ¬ Holds h db nowMs requester contentHash "read") ∧
    (¬ Blocks h requester → Holds h db nowMs requester contentHash "read" →
      InRing h db requester contentHash ∨ Selected h db nowMs contentHash ∨ h.isFriend requester) ∧
    (¬ Blocks h requester → InRing h db requester contentHash →
      Holds h db nowMs requester contentHash "read" ∨
        (h.isFriend requester ∧ ¬ Restricted h db nowMs contentHash)) ∧
    (h.isFriend requester → ¬ Holds h db nowMs requester contentHash "read" →
      ¬ InRing h db requester contentHash → Restricted h db nowMs contentHash →
        Selected h db nowMs contentHash)

variable {h db nowMs requester contentHash}

/-- The loop over the permissions in one step. -/
theorem scan_eq (gr : Bool) (ps : List SharedFilePermission) :
    h.scan contentHash nowMs gr ps =
      if ps.any fun p => applies h.profileUserId nowMs contentHash p && p.permission = "deny"
      then none
      else some (gr || ps.any fun p =>
        applies h.profileUserId nowMs contentHash p && p.permission = "read") := by
  induction ps generalizing gr with
  | nil => simp [scan]
  | cons p ps ih =>
    rw [scan, List.any_cons, List.any_cons]
    have ha : (p.grantorUserId = h.profileUserId ∧ p.contentHash = contentHash ∧
        p.isActiveAt nowMs) ↔ applies h.profileUserId nowMs contentHash p := by
      simp [applies, and_assoc]
    by_cases hap : applies h.profileUserId nowMs contentHash p
    · rw [if_pos (ha.2 hap), hap]
      by_cases hd : p.permission = "deny"
      · simp [hd]
      · simp [hd, ih, Bool.or_assoc]
    · rw [if_neg (ha.not.2 hap), ih, Bool.eq_false_of_not_eq_true hap]
      simp

theorem holds_iff {permission : String} : Holds h db nowMs requester contentHash permission ↔
    (db.listPermissionsForGrantee requester).any fun p =>
      applies h.profileUserId nowMs contentHash p && p.permission = permission := by
  simp [Holds]

theorem not_isFriend_of_blocks (hb : Blocks h requester) : ¬ h.isFriend requester := by
  have hl : h.friends.lookup requester = some .blocked := hb
  simp [isFriend, hl]

/-- A read grant is a permission. -/
theorem Selected.restricted (hs : Selected h db nowMs contentHash) :
    Restricted h db nowMs contentHash := by
  have hle : db.countReadGrantsForFile contentHash h.profileUserId nowMs ≤
      db.permissions.count (Tables.activeOn contentHash h.profileUserId (asI64 nowMs)) :=
    List.countP_mono_left fun e _ he => (Bool.and_eq_true_iff.1 he).1
  have hpos : 0 < db.permissions.count
      (Tables.activeOn contentHash h.profileUserId (asI64 nowMs)) := Nat.lt_of_lt_of_le hs hle
  exact bne_iff_ne.2 hpos.ne'

/-- **When the authorization stage denies.** -/
theorem denied_iff {row : SharedFileRow} : Denied h db nowMs requester row ↔
    Blocks h requester ∨ Holds h db nowMs requester row.contentHash "deny" ∨
      ¬ (InRing h db requester row.contentHash ∨
        (Selected h db nowMs row.contentHash ∧ Holds h db nowMs requester row.contentHash "read") ∨
        (¬ Selected h db nowMs row.contentHash ∧ h.isFriend requester)) := by
  have hg : h.grantedAt requester row.contentHash ((Run.still db nowMs).access .permissions) =
      some (h.scan row.contentHash nowMs false (db.listPermissionsForGrantee requester)) := rfl
  have hri : h.ringAt requester row.contentHash ((Run.still db nowMs).access .ring) =
      some (db.checkRingAccess h.profileUserId requester row.contentHash "read") := rfl
  have hr : h.restrictedAt row.contentHash ((Run.still db nowMs).access .readGrants) =
      some (decide (0 < db.countReadGrantsForFile row.contentHash h.profileUserId nowMs)) := rfl
  refine authorize_denied.trans (or_congr_right ?_)
  rw [hg, hri, hr, scan_eq]
  rw [holds_iff, holds_iff]
  by_cases hs : Selected h db nowMs row.contentHash <;> split_ifs <;>
    simp_all [allows, InRing, Selected]

/-- **When the catalogue lists an offered file.** -/
theorem listed_iff {row : SharedFileRow} (hr : row ∈ db.listSharedFiles h.profileUserId true) :
    Listed h db nowMs requester row ↔
      ¬ Holds h db nowMs requester row.contentHash "deny" ∧
        (Holds h db nowMs requester row.contentHash "read" ∨
          (¬ Restricted h db nowMs row.contentHash ∧ h.isFriend requester)) := by
  have ha : ∀ permission : String,
      ((db.listPermissionsForGrantee requester).filter
        (applies h.profileUserId nowMs row.contentHash)).any (fun p => p.permission = permission) =
      (db.listPermissionsForGrantee requester).any fun p =>
        applies h.profileUserId nowMs row.contentHash p && p.permission = permission := by
    intro permission
    rw [List.any_filter]
  have hf : decide (h.friends.lookup requester = some .friends) = h.isFriend requester := rfl
  unfold Listed catalogueEntriesForPeer
  rw [exists_mem_catalogueFiles, hf]
  unfold hidden
  dsimp only
  rw [ha, ha, holds_iff, holds_iff]
  have ht : ∃ r ∈ db.listSharedFiles h.profileUserId true, r.contentHash = row.contentHash :=
    ⟨row, hr, rfl⟩
  rw [and_iff_right ht, and_iff_right (fileObjectExists_of_mem hr)]
  unfold Restricted
  cases (db.listPermissionsForGrantee requester).any fun p =>
      applies h.profileUserId nowMs row.contentHash p && p.permission = "deny" <;>
    cases (db.listPermissionsForGrantee requester).any fun p =>
      applies h.profileUserId nowMs row.contentHash p && p.permission = "read" <;>
    simp

/-- **The catalogue and the access policy.**  For an offered file, the catalogue lists it for the
requesters that the authorization stage does not deny it to, and for no others, if and only if none
of the differences between the two shows for the requester and the file. -/
theorem listed_iff_not_denied_iff (h : FileAccessHandler) (db : Tables) (nowMs : UInt64)
    (requester : UserId) (row : SharedFileRow)
    (hrow : row ∈ db.listSharedFiles h.profileUserId true) :
    (Listed h db nowMs requester row ↔ ¬ Denied h db nowMs requester row) ↔
      Concordant h db nowMs requester row.contentHash := by
  rw [listed_iff hrow, denied_iff]
  unfold Concordant
  have hbl := @not_isFriend_of_blocks h requester
  have hse := @Selected.restricted h db nowMs row.contentHash
  by_cases hd : Holds h db nowMs requester row.contentHash "deny"
  · simp [hd]
  by_cases hb : Blocks h requester
  · have hnot := hbl hb
    simp [hd, hb, hnot]
  by_cases hre : Holds h db nowMs requester row.contentHash "read"
  · by_cases hri : InRing h db requester row.contentHash <;>
      by_cases hs : Selected h db nowMs row.contentHash <;> simp [hd, hb, hre, hri, hs]
  · by_cases hs : Selected h db nowMs row.contentHash
    · have hr := hse hs
      by_cases hri : InRing h db requester row.contentHash <;>
        simp [hd, hb, hre, hri, hs, hr]
    · by_cases hri : InRing h db requester row.contentHash <;>
        by_cases hf : h.isFriend requester <;> simp [hd, hb, hre, hri, hs, hf]

end Agreement

/-! ### Where they differ -/

/-- A file that is offered and denied to Bob. -/
def sharedOnce : Tables where
  fileObjects := AList.singleton "ab" ⟨4, "text/plain", "notes", 0, none⟩
  sharedFiles := AList.singleton ⟨"ab", "owner"⟩ ⟨"id", "notes", none, true, 0, 0, 1⟩
  permissions := AList.singleton ⟨"ab", "owner", "bob", "deny"⟩ ⟨0, none⟩
  sharedFiles_objects := by decide

/-- The same file, with a read grant for Carol instead. -/
def sharedWithCarol : Tables :=
  { sharedOnce with permissions := AList.singleton ⟨"ab", "owner", "carol", "read"⟩ ⟨0, none⟩ }

/-- The owner, whose friend Alice is and who has blocked Carol. -/
def owner : FileAccessHandler where
  profileUserId := "owner"
  friends := (AList.singleton "carol" .blocked : FriendsStore).insert "alice" .friends
  maxFileSizeBytes := 1024
  sign _ := []

def sharedRow : SharedFileRow := .of ⟨"ab", "owner"⟩ ⟨"id", "notes", none, true, 0, 0, 1⟩

/-- The denial for Bob hides the file from Alice, who may download it; and a grant shows the file to
Carol, who is blocked. -/
theorem catalogue_and_policy_differ :
    (¬ Listed owner sharedOnce 0 "alice" sharedRow ∧
        ¬ Denied owner sharedOnce 0 "alice" sharedRow) ∧
      Listed owner sharedWithCarol 0 "carol" sharedRow ∧
      Denied owner sharedWithCarol 0 "carol" sharedRow := by
  refine ⟨⟨by unfold Listed; decide, ?_⟩, by unfold Listed; decide, _, rfl⟩
  rintro ⟨diag, hd⟩
  cases hd

/-- Bob is denied the file by both. -/
theorem listed_iff_not_denied_iff_bob :
    sharedRow ∈ sharedOnce.listSharedFiles owner.profileUserId true ∧
      ((Listed owner sharedOnce 0 "bob" sharedRow ↔ ¬ Denied owner sharedOnce 0 "bob" sharedRow) ↔
        Concordant owner sharedOnce 0 "bob" "ab") :=
  ⟨by decide, listed_iff_not_denied_iff owner sharedOnce 0 "bob" sharedRow (by decide)⟩

end Boru.FileAccess
