import Boru.Companion.Store
import Mathlib.Logic.Relation

/-!
# The change feed of a companion

A companion reads the changes of its registration page by page, with a snapshot token.  A request
is authorized for the registration that it names, and the page is selected by the registration in
the token: the two need not be the same.

## Main results

* `isolated_iff` : when a page shows the changes of the device that asks only.
* `served_one_grant` : a token is served under one grant only.
-/

namespace Boru.Companion

open GroupEncryption (Key Failure)

inductive CompanionErrorCode where
  | unknownMethod
  | staleGrant
  deriving DecidableEq

inductive CompanionResponse (α : Type) where
  | approvalRequired
  | error (code : CompanionErrorCode)
  | result (requestId : String) (value : α)
  deriving DecidableEq

structure CompanionPolicy where
  /-- The endpoints approved without a store. -/
  approved : Finset Key := ∅
  store : Option MessageStore

def CompanionPolicy.authorize (policy : CompanionPolicy) (endpoint : Key)
    (registrationId deviceId : Bytes) (grantRevision : ℤ) : Bool :=
  endpoint.1 = deviceId && match policy.store with
    | some store => (store.authorizeCompanion registrationId deviceId grantRevision).isSome
    | none => endpoint ∈ policy.approved

structure ChangesResume where
  requestId : String
  registrationId : Bytes
  deviceId : Bytes
  grantRevision : ℤ
  token : Option CompanionSnapshotToken
  afterSequence : ℤ
  limit : ℕ

def handleChangesResume (policy : CompanionPolicy) (remote : Key) (r : ChangesResume)
    (now : UInt64) : CompanionResponse CompanionChangePage :=
  if ¬ policy.authorize remote r.registrationId r.deviceId r.grantRevision then .approvalRequired
  else match policy.store with
    | none => .error .unknownMethod
    | some store =>
      match store.resumeCompanionChanges r.token r.afterSequence r.limit now with
      | .ok page => .result r.requestId page
      | .error _ => .error .staleGrant

namespace MessageStore

variable {s : MessageStore} {snapshot : CompanionSnapshotToken} {after : ℤ} {limit : ℕ}
  {now : UInt64} {page : CompanionChangePage}

/-- `remote` is the device authorized now for the registration the change belongs to. -/
def OwnedBy (s : MessageStore) (remote : Key) (change : CompanionChange) : Prop :=
  ∃ ref row, s.changeReferences.lookup change.changeId = some ref ∧
    s.deviceRegistrations.lookup ref.registrationId = some row ∧
    row.deviceId = remote.1 ∧ row.revoked = false

/-- A token and a cursor pass every check. -/
def Serves (s : MessageStore) (snapshot : CompanionSnapshotToken) (after : ℤ) (now : UInt64) :
    Prop :=
  ¬ snapshot.expiresAtMs < now ∧ s.syncEpoch = snapshot.epoch ∧
    (∃ row, s.authorizeCompanion snapshot.registrationId snapshot.deviceId
      snapshot.grantRevision = some row) ∧
    s.cursorPruned snapshot.watermark after = false ∧ after ≤ snapshot.watermark

theorem authorizeCompanion_eq_some {ri di : Bytes} {grantRevision : ℤ} {row : DeviceRegistration} :
    s.authorizeCompanion ri di grantRevision = some row ↔
      s.deviceRegistrations.lookup ri = some row ∧ row.deviceId = di ∧
        row.revoked = false ∧ row.grantRevision = grantRevision := by
  simp [authorizeCompanion, and_assoc]

theorem resumeCompanionChanges_eq_ok :
    s.resumeCompanionChanges (some snapshot) after limit now = .ok page ↔
      s.Serves snapshot after now ∧ s.changesAfter snapshot after limit = page := by
  unfold resumeCompanionChanges Serves
  dsimp only
  split_ifs <;> simp_all [← Option.ne_none_iff_exists']

/-- A page is of the registration in the token, and that is the registration of its device. -/
theorem ownedBy_iff (hs : s.Serves snapshot after now) {c : CompanionChange}
    (h : c ∈ (s.changesAfter snapshot after limit).changes) (remote : Key) :
    s.OwnedBy remote c ↔ snapshot.deviceId = remote.1 := by
  obtain ⟨⟨id, ref⟩, hmem, rfl⟩ := List.mem_map.1 h
  obtain ⟨hid, hr⟩ := Table.mem_selectBy hmem
  obtain ⟨-, -, ⟨row, hro⟩, -⟩ := hs
  obtain ⟨hro, hd, hl, -⟩ := authorizeCompanion_eq_some.1 hro
  have hrf : ref.registrationId = snapshot.registrationId := by
    simp only [inRange, Bool.and_eq_true, decide_eq_true_eq] at hr
    exact hr.1.1
  rw [← hrf] at hro
  constructor
  · rintro ⟨ref', row', hid', hrow', hre, -⟩
    cases hid.symm.trans hid'
    cases hro.symm.trans hrow'
    exact hd.symm.trans hre
  · exact fun h => ⟨ref, row, hid, hro, hd.trans h, hl⟩

theorem changesAfter_eq_nil_iff : (s.changesAfter snapshot after limit).changes = [] ↔
    ∀ id ref, s.changeReferences.lookup id = some ref → ¬ inRange snapshot after ref := by
  simp only [changesAfter, Table.selectBy, List.map_eq_nil_iff, List.take_eq_nil_iff]
  rw [or_iff_right (by omega), List.eq_nil_iff_forall_not_mem, Prod.forall]
  simp only [Table.mem_orderBy, not_and]

end MessageStore

open MessageStore

variable {approved : Finset Key} {s : MessageStore} {remote : Key} {r : ChangesResume}
  {now : UInt64}

theorem handleChangesResume_eq_result {page : CompanionChangePage} :
    handleChangesResume ⟨approved, some s⟩ remote r now = .result r.requestId page ↔
      CompanionPolicy.authorize ⟨approved, some s⟩ remote r.registrationId r.deviceId
        r.grantRevision ∧ ∃ snapshot, r.token = some snapshot ∧
          s.Serves snapshot r.afterSequence now ∧
          s.changesAfter snapshot r.afterSequence r.limit = page := by
  unfold handleChangesResume
  split_ifs with ha
  · cases ht : r.token with
    | none => simp [resumeCompanionChanges]
    | some snapshot =>
      simp only [ha, Option.some.injEq, exists_eq_left', ← resumeCompanionChanges_eq_ok]
      cases s.resumeCompanionChanges (some snapshot) r.afterSequence r.limit now <;> simp
  · simp [ha]

/-- **A page shows the changes of the device that asks only, exactly if** the token is bound to
that device, or is refused, or there is no change in its range. -/
theorem isolated_iff (approved : Finset Key) (s : MessageStore) (remote : Key) (r : ChangesResume)
    (now : UInt64) :
    (∀ page, handleChangesResume ⟨approved, some s⟩ remote r now = .result r.requestId page →
      ∀ change ∈ page.changes, s.OwnedBy remote change) ↔
    (CompanionPolicy.authorize ⟨approved, some s⟩ remote r.registrationId r.deviceId
        r.grantRevision → ∀ snapshot, r.token = some snapshot →
      s.Serves snapshot r.afterSequence now → snapshot.deviceId = remote.1 ∨
        ∀ id ref, s.changeReferences.lookup id = some ref →
          ¬ inRange snapshot r.afterSequence ref) := by
  simp only [handleChangesResume_eq_result, and_imp, forall_exists_index]
  constructor
  · intro h ha snapshot ht hs
    have hp := h _ ha snapshot ht hs rfl
    refine or_iff_not_imp_right.2 fun hso => ?_
    obtain ⟨change, hc⟩ := List.exists_mem_of_ne_nil _ (mt changesAfter_eq_nil_iff.1 hso)
    exact (ownedBy_iff hs hc remote).1 (hp change hc)
  · rintro h page ha snapshot ht hs rfl change hc
    rw [ownedBy_iff hs hc]
    refine (h ha snapshot ht hs).resolve_right fun hn => ?_
    rw [changesAfter_eq_nil_iff.2 hn] at hc
    cases hc

/-- Two registrations with a device each. -/
def twoDevices : MessageStore where
  deviceRegistrations := (AList.insert [1] ⟨List.replicate 32 1, 1, "accessible", false⟩ ∅).insert
    [2] ⟨List.replicate 32 2, 1, "accessible", false⟩
  changeReferences := AList.insert [7] ⟨[2], [9], [5], 1, 1, "message", false⟩ ∅
  changeSequence := 1

/-- The device of the first registration reads the second's change, with a token it made up. -/
theorem foreign_change_shown :
    let remote : Key := .replicate 32 1
    ∃ page change,
      handleChangesResume ⟨∅, some twoDevices⟩ remote ⟨"r", [1], List.replicate 32 1, 1,
        some ⟨[], [2], List.replicate 32 2, 1, "", 1, 9⟩, 0, 10⟩ 0 = .result "r" page ∧
      change ∈ page.changes ∧ ¬ twoDevices.OwnedBy remote change := by
  refine ⟨⟨[⟨1, [7], [5], 1, "message", false⟩], 1, true⟩, _, by decide +kernel,
    List.mem_singleton.2 rfl, ?_⟩
  rintro ⟨ref, row, hr, hro, hd, -⟩
  cases hr
  cases hro
  revert hd
  decide

/-! ### Grants over time -/

namespace MessageStore

/-- A method that changes grants, or leaves them alone. -/
inductive Step (s : MessageStore) : MessageStore → Prop where
  | register (id device : Bytes) : Step s (s.registerDevice id device)
  | scope (id : Bytes) (scope : String) : Step s (s.setCompanionScope id scope).2
  | revoke (id : Bytes) : Step s (s.revokeDevice id).2
  | reset (epoch : Bytes) : Step s (s.resetSyncState epoch)
  | other {t : MessageStore} (h : t.deviceRegistrations = s.deviceRegistrations) : Step s t

variable {t : MessageStore}

theorem Step.of_recordCompanionReadChange {ri oi ci : Bytes} {conversation : Key}
    (h : s.recordCompanionReadChange ri oi ci conversation = .ok t) : Step s t := by
  simp only [recordCompanionReadChange, recordChange] at h
  split_ifs at h
  cases h
  exact .other rfl

theorem Step.prune (through : ℤ) : Step s (s.pruneCompanionChanges through) := .other rfl

/-- The grant is the given one, or has a later revision. -/
def Renews (s : MessageStore) (id : Bytes) (row : DeviceRegistration) : Prop :=
  ∃ r, s.deviceRegistrations.lookup id = some r ∧ (r = row ∨ row.grantRevision < r.grantRevision)

variable {id : Bytes} {row : DeviceRegistration}

theorem Step.renews (h : Step s t) (hs : s.Renews id row) : t.Renews id row := by
  obtain ⟨r, hr, hle⟩ := hs
  cases h with
  | register id' device =>
    by_cases he : id = id'
    · subst he
      refine ⟨_, AList.lookup_insert _, .inr ?_⟩
      rw [hr]
      grind
    · exact ⟨r, (AList.lookup_insert_ne he).trans hr, hle⟩
  | scope | revoke | reset =>
    refine ⟨_, (Table.lookup_update ..).trans (congrArg _ hr), ?_⟩
    grind
  | other h => exact ⟨r, h ▸ hr, hle⟩

theorem renews_of_steps (h : Relation.ReflTransGen Step s t) (hs : s.Renews id row) :
    t.Renews id row := by
  induction h with
  | refl => exact hs
  | tail _ h ih => exact h.renews ih

/-- Authorized twice with one revision, a device has the same grant both times. -/
theorem lookup_of_authorized {ri di : Bytes} {revision : ℤ}
    (hs : ∃ row, s.authorizeCompanion ri di revision = some row)
    (h : Relation.ReflTransGen Step s t)
    (ht : ∃ row, t.authorizeCompanion ri di revision = some row) :
    t.deviceRegistrations.lookup ri = s.deviceRegistrations.lookup ri := by
  obtain ⟨row, hs⟩ := hs
  obtain ⟨r, ht⟩ := ht
  obtain ⟨hs, -, -, hv⟩ := authorizeCompanion_eq_some.1 hs
  obtain ⟨ht, -, -, hv'⟩ := authorizeCompanion_eq_some.1 ht
  obtain ⟨r', hr', rfl | hlt⟩ := renews_of_steps h ⟨row, hs, .inl rfl⟩
  · exact hr'.trans hs.symm
  · cases ht.symm.trans hr'
    exact absurd (hv.trans hv'.symm) hlt.ne

/-- A snapshot is served under the grant it was begun under. -/
theorem begun_one_grant {ri di : Bytes} {revision : ℤ} {token : CompanionSnapshotToken} {n : ℕ}
    {now' : UInt64} (hs : s.beginCompanionSnapshot ri di revision now = .ok token)
    (h : Relation.ReflTransGen Step s t)
    (ht : t.resumeCompanionChanges (some token) after n now' = .ok page) :
    t.deviceRegistrations.lookup ri = s.deviceRegistrations.lookup ri := by
  obtain ⟨⟨-, -, ht, -⟩, -⟩ := resumeCompanionChanges_eq_ok.1 ht
  cases hg : s.authorizeCompanion ri di revision with
  | none => simp [beginCompanionSnapshot, hg] at hs
  | some row =>
    simp only [beginCompanionSnapshot, hg] at hs
    cases hs
    -- the token names the device of the row, which is the one that asked
    rw [(authorizeCompanion_eq_some.1 hg).2.1] at ht
    exact lookup_of_authorized ⟨row, hg⟩ h ht

/-- **A token is served under one grant only.**  If a token is served twice, then whatever has
happened in between, the grant is the same: it was not revoked, changed or registered anew. -/
theorem served_one_grant {token : CompanionSnapshotToken} {a a' : ℤ} {n n' : ℕ} {now' : UInt64}
    {p p' : CompanionChangePage}
    (hs : s.resumeCompanionChanges (some token) a n now = .ok p)
    (h : Relation.ReflTransGen Step s t)
    (ht : t.resumeCompanionChanges (some token) a' n' now' = .ok p') :
    t.deviceRegistrations.lookup token.registrationId =
      s.deviceRegistrations.lookup token.registrationId := by
  obtain ⟨⟨-, -, hs, -⟩, -⟩ := resumeCompanionChanges_eq_ok.1 hs
  obtain ⟨⟨-, -, ht, -⟩, -⟩ := resumeCompanionChanges_eq_ok.1 ht
  exact lookup_of_authorized hs h ht

/-- Another device is registered in between. -/
theorem served_one_grant_twice :
    let s : MessageStore := .registerDevice {} [1] [2]
    (s.registerDevice [3] [4]).deviceRegistrations.lookup [1] =
      s.deviceRegistrations.lookup [1] := by
  intro s
  let page (s : MessageStore) := s.resumeCompanionChanges (some ⟨[], [1], [2], 1, "", 0, 0⟩) 0 0 0
  have h : page s = .ok ⟨[], 0, true⟩ := rfl
  have h' : page (s.registerDevice [3] [4]) = .ok ⟨[], 0, true⟩ := rfl
  exact served_one_grant h (.single (.register [3] [4])) h'

end MessageStore

end Boru.Companion
