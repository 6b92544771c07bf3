import Boru.FileAccess.Policy

/-!
# The checks around the file preparation

The preparation of a file can take a minute, so `checkPermission` authorizes the requester twice:
before the preparation and after it.  The second time it reads the permissions and the read grants
again, but not the offer, not the list of friends and not the rings; and it compares the version in
another way than before.  Every diagnostic event cuts the file identifier off after 16 bytes, which
panics if a character lies across that point.

## Main results

* `granted_justified` : a request that is granted is justified by the policy as it stands after the
  preparation, if what is not read again has not changed by then, and what is read again does not
  change afterwards.
* `wildcard_iff` : an expected version of `0` is answered as the current version is, if and only if
  the current version is `0` or the request does not get to the last version check.
* `ne_panicked_iff` : a request is answered if and only if its file identifier can be cut off after
  16 bytes or it is refused without a diagnostic event.
-/

namespace Boru.FileAccess

open Transfer (UserId ContentHash Tables SharedFileRow)

namespace FileAccessHandler

variable (h : FileAccessHandler) (run : Run) (requester : UserId) (request : FileAccessRequest)

/-! ### The policy after the preparation -/

def Grants : Prop :=
  ∃ diag descriptor, h.checkPermission run requester request = .responds diag (.granted descriptor)

variable (contentHash : ContentHash)

variable (a : Access)

/-- What the permissions of the requester say: `none` if they deny the file, and whether they grant
it. -/
def verdict : Option Bool :=
  h.scan contentHash a.nowMs false (a.tables.listPermissionsForGrantee requester)

/-- Whether the file is restricted to peers with read grants. -/
def selective : Bool :=
  0 < a.tables.countReadGrantsForFile contentHash h.profileUserId a.nowMs

/-- A ring, a grant or the friendship allows reading. -/
def Allowed (friends : FriendsStore) (contentHash : ContentHash) (a : Access) : Prop :=
  a.tables.checkRingAccess h.profileUserId requester contentHash "read" ∨
    if h.selective contentHash a then h.verdict requester contentHash a = some true
    else friends.lookup requester = some .friends

def Offered : Prop :=
  ∃ c, a.tables.sharedFiles.lookup ⟨contentHash, h.profileUserId⟩ = some c ∧ c.offered

/-- The policy lets the requester have the file, with these tables and this list of friends. -/
structure Justified (friends : FriendsStore) (contentHash : ContentHash) (a : Access) : Prop where
  offered : h.Offered contentHash a
  not_blocked : friends.lookup requester ≠ some .blocked
  /-- The requester is not denied the file. -/
  not_denied : h.verdict requester contentHash a ≠ none
  /-- A ring, a grant or the friendship allows reading. -/
  allowed : h.Allowed requester friends contentHash a

/-- Nothing that is not read again has been taken back when the preparation completes, and what is
read again is read as it stood then. -/
structure Steady (friends : FriendsStore) (row : SharedFileRow) : Prop where
  offer : row.offered → h.Offered row.contentHash (run.access .preparation)
  /-- The requester is to the owner what the handler's list of friends says. -/
  friend : friends.lookup requester = h.friends.lookup requester
  /-- A requester whom a ring has let in is allowed to read. -/
  ring : h.ringAt requester row.contentHash (run.access .ring) = some true →
    h.Allowed requester friends row.contentHash (run.access .preparation)
  /-- The permissions do not change before they are read again. -/
  permissions : h.verdict requester row.contentHash (run.access .permissionsAgain) =
    h.verdict requester row.contentHash (run.access .preparation)
  readGrants : h.selective row.contentHash (run.access .readGrantsAgain) =
    h.selective row.contentHash (run.access .preparation)

variable {h run requester request}

theorem Access.of_read {α β : Type} {a : Access} {q : Tables → α} {f : α → β} {v : β}
    (hv : (a.read q).map f = some v) : f (q a.tables) = v := by
  unfold Access.read at hv
  split_ifs at hv with hf
  · cases hv
  · exact Option.some.inj hv

/-- Only a request that passes every check is granted. -/
theorem Grants.checked (hg : h.Grants run requester request) :
    ∃ row sb, h.checked run requester request = .ok (row, sb) := by
  obtain ⟨diag, de, ha⟩ := hg
  obtain ⟨d, hen⟩ := answer_eq_responds ha
  have hnot : ¬ h.Quiet run requester request := by
    intro hq
    obtain ⟨res, hs, hr⟩ := hq.silent
    rw [hen] at hs
    cases hs
    cases hr
  cases hc : h.checked run requester request with
  | ok r => exact ⟨r.1, r.2, rfl⟩
  | error e =>
    obtain ⟨d', res, rfl, hr⟩ := checked_logged hnot e hc
    unfold ending at hen
    rw [hc] at hen
    cases hen
    cases hr

/-- **What a granted request is justified by.**  If the offer, the list of friends and what a ring
allowed still stand when the preparation completes, and the permissions do not change between then
and their second reading, a request is granted only if the policy at that moment lets the requester
have the file. -/
theorem granted_justified (h : FileAccessHandler) (run : Run) (requester : UserId)
    (request : FileAccessRequest) (friends : FriendsStore)
    (hsteady : ∀ row, h.Finds run request row → h.Steady run requester friends row)
    (hgrants : h.Grants run requester request) :
    ∃ row, h.Finds run request row ∧
      h.Justified requester friends row.contentHash (run.access .preparation) := by
  obtain ⟨row, size, hc⟩ := hgrants.checked
  obtain ⟨-, hl, ho, ring, ha, -, -, hre⟩ :=
    cleared_eq_ok.1 (checked_eq_ok.1 hc).1
  obtain ⟨hb, hri, -⟩ := authorize_eq_ok.1 ha
  obtain ⟨granted, restricted, hg, hr, hal⟩ := recheck_eq_ok.1 hre
  have hf := lookupFile_eq_ok.1 hl
  have hs := hsteady row hf
  have hv := hs.permissions.symm.trans (Access.of_read hg)
  have hse := hs.readGrants.symm.trans (Access.of_read hr)
  refine ⟨row, hf, hs.offer ho, hs.friend ▸ hb, by rw [hv]; nofun, ?_⟩
  cases ring with
  | true => exact hs.ring hri
  | false =>
    -- no ring: the rule was applied to what is read again, and that stood like this
    right
    rw [hse, hv, hs.friend]
    cases restricted with
    | true => simpa [allows] using hal
    | false => simpa [allows, isFriend] using hal

def someHash : { bytes : Bytes // bytes.length = 32 } := ⟨List.replicate 32 1, rfl⟩

/-- A profile that offers a file, in version `1`, to an open ring. -/
def inOpenRing : Tables where
  fileObjects := AList.singleton (Hex.encode someHash.val) ⟨4, "text/plain", "notes", 0, none⟩
  sharedFiles := AList.singleton ⟨Hex.encode someHash.val, "owner"⟩
    ⟨"id", "notes", none, true, 0, 0, 1⟩
  rings := AList.singleton 1 ⟨"owner", "everyone", true⟩
  ringResourcePermissions := AList.singleton ⟨1, Hex.encode someHash.val, "read"⟩ 0
  sharedFiles_objects := by decide

/-- The same, with the file taken out of the ring. -/
def outOfRing : Tables := { inOpenRing with ringResourcePermissions := ∅ }

/-- A profile without friends. -/
def someOwner : FileAccessHandler := ⟨"owner", ∅, 1024, fun _ => []⟩

def someRequest : FileAccessRequest := ⟨"notes", 4, "id", someHash, 1⟩

/-- A run in which the tables are `before` until the preparation completes, and `after` then. -/
def changingTo (before after : Tables) : Run where
  access
    | .sharedFile | .ring | .permissions | .readGrants | .fileObject => ⟨before, 0, false⟩
    | .preparation | .permissionsAgain | .readGrantsAgain | .issue => ⟨after, 0, false⟩
  freeSlots := 1
  preparation := .ready 4
  nonce := []

/-- The file is taken out of the ring during the preparation, and the request is granted to a
requester who has nothing but the ring. -/
theorem granted_after_ring_revoked :
    someOwner.Grants (changingTo inOpenRing outOfRing) "mallory" someRequest ∧
      ¬ someOwner.Justified "mallory" ∅ (Hex.encode someHash.val)
        ((changingTo inOpenRing outOfRing).access .preparation) := by
  refine ⟨⟨_, _, rfl⟩, fun hj => ?_⟩
  have ha := hj.allowed
  revert ha
  unfold Allowed
  decide

/-- Without the change, the grant is justified. -/
theorem granted_justified_still :
    someOwner.Grants (changingTo inOpenRing inOpenRing) "alice" someRequest ∧
      ∃ row, someOwner.Finds (changingTo inOpenRing inOpenRing) someRequest row ∧
        someOwner.Justified "alice" ∅ row.contentHash
          ((changingTo inOpenRing inOpenRing).access .preparation) := by
  have hg : someOwner.Grants (changingTo inOpenRing inOpenRing) "alice" someRequest :=
    ⟨_, _, rfl⟩
  refine ⟨hg, granted_justified _ _ _ _ ∅ (fun row hr => ?_) hg⟩
  cases hr
  exact ⟨fun _ => ⟨_, rfl, rfl⟩, rfl, fun _ => .inl rfl, rfl, rfl⟩

/-! ### The version -/

section Version

variable {row : SharedFileRow} {version : UInt64}

/-- Up to the checks after the preparation, any version that is accepted leads to the same. -/
theorem cleared_version (hr : h.Finds run request row) (hve : version = 0 ∨ version = row.version) :
    h.cleared run requester { request with expectedVersion := version } =
      h.cleared run requester { request with expectedVersion := 0 } := by
  have hl : ∀ v, h.lookupFile run { request with expectedVersion := v } = .ok row :=
    fun _ => lookupFile_eq_ok.2 hr
  have hv : ∀ v, validated { request with expectedVersion := v } = validated request :=
    fun _ => rfl
  have hi : integrity { request with expectedVersion := version } row =
      integrity { request with expectedVersion := 0 } row := by
    unfold integrity
    have hs : ¬ (version ≠ 0 ∧ version ≠ row.version) := by tauto
    simp [hs]
  unfold cleared
  simp only [hl, hv, hi, Prog.except_ok_bind]

/-- A request with a version other than the current one that gets to the last version check. -/
theorem checkPermission_mismatch {size : UInt64}
    (hc : h.cleared run requester request = .ok (row, size))
    (hh : Hex.encode request.expectedContentHash.val = row.contentHash)
    (hne : request.expectedVersion ≠ row.version) :
    h.checkPermission run requester request = answer request.sharedFileId
      (.returns (some ⟨"VersionMismatch", "version", some true, some true, false⟩)
        (.versionMismatch row.version)) := by
  have hco : confirm request row =
      logs ⟨"VersionMismatch", "version", some true, some true, false⟩
        (.versionMismatch row.version) := by
    unfold confirm
    rw [if_neg (not_not.2 hh), if_pos hne]
  unfold checkPermission ending checked
  rw [hc, Prog.except_ok_bind]
  dsimp only
  rw [hco]
  rfl

theorem checkPermission_issue {size : UInt64}
    (hc : h.checked run requester request = .ok (row, size)) :
    h.checkPermission run requester request =
      answer request.sharedFileId (h.issue run requester request row size) := by
  unfold checkPermission ending
  rw [hc]

/-- What is issued is not a version mismatch, unless both panic over the event. -/
theorem answer_mismatch_eq_iff {size : UInt64} {sfi : String} {c : UInt64}
    (hh : Hex.encode request.expectedContentHash.val = row.contentHash) :
    answer sfi
        (.returns (some ⟨"VersionMismatch", "version", some true, some true, false⟩)
          (.versionMismatch c)) =
      answer sfi (h.issue run requester request row size) ↔
    diagPrefix sfi = none := by
  by_cases hc : (run.access .issue).nowMs.toNat + downloadDescriptorTtl < 2 ^ 64
  · obtain ⟨d, hi⟩ : ∃ d, h.issue run requester request row size =
        .returns (some ⟨"Granted", "none", some true, some true, true⟩) (.granted d) :=
      issue_eq hh hc
    rw [hi]
    unfold answer
    cases diagPrefix sfi <;> simp
  · rw [issue_overflows hc]
    unfold answer
    cases diagPrefix sfi <;> simp

/-- **The version `0`.**  A request with the expected version `0` is answered as the same request
with the current version is, if and only if the current version is `0`, or the request does not pass
the other checks, or both panic. -/
theorem wildcard_iff (h : FileAccessHandler) (run : Run) (requester : UserId)
    (request : FileAccessRequest) (row : SharedFileRow) (hrow : h.Finds run request row) :
    h.checkPermission run requester { request with expectedVersion := 0 } =
        h.checkPermission run requester { request with expectedVersion := row.version } ↔
      row.version = 0 ∨ ¬ h.Passes run requester request row ∨
        diagPrefix request.sharedFileId = none := by
  have hs : h.cleared run requester { request with expectedVersion := row.version } =
      h.cleared run requester { request with expectedVersion := 0 } :=
    cleared_version hrow (.inr rfl)
  by_cases hp : h.Passes run requester request row
  · obtain ⟨size, hc⟩ : ∃ size,
        h.cleared run requester { request with expectedVersion := 0 } = .ok (row, size) :=
      exists_cleared_iff.2 ⟨hrow, hp, .inl rfl⟩
    have hh := hp.2.2.1
    rw [hc] at hs
    have hcu := checkPermission_issue
      (checked_eq_ok.2 ⟨hs, confirm_eq_ok.2 ⟨hh, rfl⟩⟩)
    by_cases hz : row.version = 0
    · rw [hz]
      simp
    · have hm := checkPermission_mismatch hc hh (Ne.symm hz)
      rw [hm, hcu]
      simp only [hz, hp, not_true, false_or]
      exact answer_mismatch_eq_iff hh
  · have her : ∀ r, h.cleared run requester { request with expectedVersion := 0 } ≠ .ok r := by
      rintro ⟨row', size⟩ hc
      obtain ⟨hf, hpasses', -⟩ := exists_cleared_iff.1 ⟨size, hc⟩
      obtain rfl : row' = row := Option.some.inj (Option.some.inj (hf.symm.trans hrow))
      exact hp hpasses'
    refine iff_of_true ?_ (.inr (.inl hp))
    cases hc : h.cleared run requester { request with expectedVersion := 0 } with
    | ok r => exact absurd hc (her r)
    | error e =>
      rw [hc] at hs
      unfold checkPermission ending checked
      rw [hc, hs]
      rfl

/-- The file has version `1`: the version `0` is refused at the end, and the version `1` is not. -/
theorem wildcard_refused :
    someOwner.Finds (changingTo inOpenRing inOpenRing) someRequest
        (.of ⟨Hex.encode someHash.val, "owner"⟩ ⟨"id", "notes", none, true, 0, 0, 1⟩) ∧
      (∃ diag, someOwner.checkPermission (changingTo inOpenRing inOpenRing) "alice"
        { someRequest with expectedVersion := 0 } = .responds diag (.versionMismatch 1)) ∧
      someOwner.Grants (changingTo inOpenRing inOpenRing) "alice"
        { someRequest with expectedVersion := 1 } :=
  ⟨rfl, ⟨_, rfl⟩, _, _, rfl⟩

/-- The request of `wildcard_refused`. -/
theorem wildcard_iff_some_request :
    let row : SharedFileRow :=
      .of ⟨Hex.encode someHash.val, "owner"⟩ ⟨"id", "notes", none, true, 0, 0, 1⟩
    let run := changingTo inOpenRing inOpenRing
    someOwner.Finds run someRequest row ∧
      (someOwner.checkPermission run "alice" { someRequest with expectedVersion := 0 } =
          someOwner.checkPermission run "alice"
            { someRequest with expectedVersion := row.version } ↔
        row.version = 0 ∨ ¬ someOwner.Passes run "alice" someRequest row ∨
          diagPrefix someRequest.sharedFileId = none) :=
  ⟨rfl, wildcard_iff _ _ _ _ _ rfl⟩

end Version

/-! ### Panics -/

/-- **Which requests are answered.**  A request is answered, and does not panic, if and only if it
is refused without an event, or its file identifier can be cut off after 16 bytes and, should a
descriptor be issued, the clock is not within its lifetime of the end of `u64`. -/
theorem ne_panicked_iff (h : FileAccessHandler) (run : Run) (requester : UserId)
    (request : FileAccessRequest) :
    h.checkPermission run requester request ≠ .panicked ↔
      h.Quiet run requester request ∨
        (∃ part, part <+: request.sharedFileId.toList ∧
          Text.byteLen part = min (Text.byteLen request.sharedFileId.toList) 16) ∧
        ((∃ row, h.Finds run request row ∧ h.Passes run requester request row ∧
            request.expectedVersion = row.version) →
          (run.access .issue).nowMs.toNat + downloadDescriptorTtl < 2 ^ 64) := by
  rw [← isSome_diagPrefix, ← exists_checked_iff]
  by_cases hq : h.Quiet run requester request
  · obtain ⟨response, hs, -⟩ := hq.silent
    refine iff_of_true ?_ (.inl hq)
    unfold checkPermission
    rw [hs]
    exact fun hp => by cases hp
  · rw [or_iff_right hq]
    cases hc : h.checked run requester request with
    | error e =>
      obtain ⟨diag, response, rfl, -⟩ := checked_logged hq e hc
      have hen : h.ending run requester request = .returns (some diag) response := by
        unfold ending
        rw [hc]
      unfold checkPermission
      rw [hen, answer_returns_some_ne_panicked]
      simp
    | ok r =>
      obtain ⟨row, size⟩ := r
      have hh := (confirm_eq_ok.1 (checked_eq_ok.1 hc).2).1
      rw [checkPermission_issue hc]
      by_cases hcl : (run.access .issue).nowMs.toNat + downloadDescriptorTtl < 2 ^ 64
      · obtain ⟨d, hi⟩ : ∃ d, h.issue run requester request row size =
            .returns (some ⟨"Granted", "none", some true, some true, true⟩)
              (.granted d) := issue_eq hh hcl
        rw [hi, answer_returns_some_ne_panicked]
        exact ⟨fun hp => ⟨hp, fun _ => hcl⟩, And.left⟩
      · rw [issue_overflows hcl]
        exact iff_of_false (fun hp => hp rfl) fun hp => hcl (hp.2 ⟨_, rfl⟩)

/-- An identifier of fifteen letters and a character of two bytes: the file is not there, and the
event that says so panics. -/
theorem panicked_at_char_boundary :
    someOwner.checkPermission (changingTo inOpenRing inOpenRing) "mallory"
      { someRequest with sharedFileId := "aaaaaaaaaaaaaaaé" } = .panicked := by
  decide

end FileAccessHandler

end Boru.FileAccess
