import Boru.GroupEncryption.Rollback
import Boru.GroupEncryption.Versions
import Boru.GroupEncryption.Members

/-!
# Loading what was saved

A group that is loaded must have members, our identity must be one of them, and so must every peer
of the role mirror.  A group is saved without these checks.  Local operations change the members
and the mirror together; messages that are received change the members alone.  So a group can be
saved that will not be loaded again.

The state of the store is looked at one group at a time (`View`).  An operation on a group leaves
the views of all other groups as they are.

## Main results

* `EncryptionState.reloads_iff_of_matches` : rows that hold what is in memory are loaded iff they
  are valid.
* `EncryptionState.persisted_reloads` : in every run without a step that takes a peer of the role
  mirror, or our identity, out of the group, a group that is saved is loaded again.
* `EncryptionState.removed_member_not_reloaded` : a received removal after which it is not.
-/

namespace Boru

open Option

open AList (lookup_insert lookup_insert_ne lookup_erase lookup_erase_ne)

theorem HashMap.mem_upsert {K V : Type*} [DecidableEq K] {m : HashMap K V} {k p : K} {d : V}
    {f : V → V} : p ∈ m.upsert k d f ↔ p = k ∨ p ∈ m := AList.mem_insert _

theorem HashMap.lookup_orInsert_eq_some {K V : Type*} [DecidableEq K] {m : HashMap K V} {k p : K}
    {v w : V} (h : (m.orInsert k v).lookup p = some w) : m.lookup p = some w ∨ p = k ∧ w = v := by
  by_cases hp : p = k
  · subst hp
    rw [orInsert, lookup_upsert, getD] at h
    cases hm : m.lookup p with
    | none =>
      rw [hm] at h
      exact .inr ⟨rfl, (some.inj h).symm⟩
    | some u =>
      rw [hm] at h
      exact .inl h
  · rw [orInsert, lookup_upsert_ne m v id hp] at h
    exact .inl h

namespace GroupEncryption

variable {St : Type} {disk : Disk} {db : Database} {g : GroupId}

/-- A save that commits has written both rows. -/
theorem Persistence.saved_rows {C : Codec St} {db' : Database} {y : St}
    {roles : Roles} {selfId : Option PeerId} {ex version : ℕ} {fault : Option GroupAuthFault}
    (h : saveGroupStateAndRoles C disk db g y roles selfId ex fault = .ok (db', version)) :
    ∃ blob rb, encodeEnvelope C y = .ok blob ∧ C.encodeRoles roles = .ok rb ∧
      db' = ⟨db.states.insert g ⟨blob, version⟩,
        db.roles.insert g ⟨rb, selfId.map fun p => p.toKey.1⟩⟩ := by
  have hec := saveGroupStateAndRoles_eq C disk db g y roles selfId ex fault
  rw [h] at hec
  exact ((Prog.wp_of_ok hec).1 (saveStatements_effect C disk db g y roles selfId ex fault)).2.2

theorem Persistence.row_of_loadGroupState {C : Codec St} {y : St}
    (h : loadGroupState C disk db g = .ok y) :
    ∃ row, db.states.lookup g = some row := by
  obtain ⟨-, -, h⟩ := Prog.except_bind_eq_ok h
  cases hl : db.states.lookup g with
  | none =>
    rw [hl] at h
    cases h
  | some row => exact ⟨row, rfl⟩

/-- If the row has an identity, one is read. -/
theorem Persistence.selfId_of_loadGroupRoles {C : Codec St} {row : RolesRow}
    {loaded : Option (Roles × Option PeerId)}
    (hr : db.roles.lookup g = some row) (hs : row.selfId.isSome)
    (h : loadGroupRoles C disk db g = .ok loaded) :
    ∃ roles selfId, loaded = some (roles, selfId) ∧ selfId.isSome := by
  obtain ⟨bytes, hb⟩ := isSome_iff_exists.1 hs
  obtain ⟨-, -, h⟩ := Prog.except_bind_eq_ok h
  rw [hr] at h
  obtain ⟨roles, -, h⟩ := Prog.except_bind_eq_ok h
  obtain ⟨selfId, hd, h⟩ := Prog.except_bind_eq_ok h
  refine ⟨roles, selfId, (Except.ok.inj h).symm, ?_⟩
  simp only [hb, decodeSelfId] at hd
  split at hd
  · cases hd
  · split at hd
    · cases hd
    · cases hd
      rfl

namespace EncryptionState

open Prog Persistence

variable {A : GroupScheme}

/-! ### What is valid -/

/-- The state, the role mirror and our identity of a group that can be loaded. -/
structure Fits (A : GroupScheme) (y : A.State) (roles : Roles) (selfId : Option PeerId) : Prop where
  roles : ∀ p ∈ roles, p ∈ A.members y
  selfId : ∀ me ∈ selfId, me ∈ A.members y
  members : ∃ p, p ∈ A.members y

/-- The validation accepts exactly these. -/
theorem validateLoadedGroupState_iff {y : A.State} {roles : Roles} {selfId : Option PeerId} :
    validateLoadedGroupState g y roles selfId = .ok () ↔ Fits A y roles selfId := by
  unfold validateLoadedGroupState
  dsimp only
  constructor
  · intro h
    split_ifs at h with hem
    split at h
    · cases h
    · rename_i hs
      split at h
      · cases h
      · rename_i hr
        refine ⟨fun p hp => ?_, fun me hme => ?_, List.exists_mem_of_ne_nil _ hem⟩
        · simpa using List.find?_eq_none.1 hr p hp
        · simpa using filter_eq_none_iff.1 hs me hme
  · intro h
    obtain ⟨p, hp⟩ := h.members
    rw [if_neg (List.ne_nil_of_mem hp)]
    have hs : selfId.filter (fun me => decide (me ∉ A.members y)) = none :=
      filter_eq_none_iff.2 fun me hme => by simpa using h.selfId me hme
    have hr : roles.keys.find? (fun p => decide (p ∉ A.members y)) = none :=
      List.find?_eq_none.2 fun p hp => by simpa using h.roles p hp
    simp only [hs, hr]

/-! ### One group -/

/-- What is in memory and in the database of one group. -/
structure View (A : GroupScheme) where
  state : Option A.State
  /-- The role mirror, empty if there is none. -/
  mirror : Roles
  selfId : Option PeerId
  version : Option ℕ
  stateRow : Option StateRow
  rolesRow : Option RolesRow

/-- The role mirror of a group, empty if there is none. -/
def mirror (s : EncryptionState A) (g : GroupId) : Roles :=
  (s.groupRoles.lookup g).getD ∅

variable {s : EncryptionState A} {g : GroupId} {roles : Roles}

theorem mirror_of_lookup (h : s.groupRoles.lookup g = some roles) : s.mirror g = roles := by
  unfold mirror
  rw [h]
  rfl

theorem mirror_of_none (h : s.groupRoles.lookup g = none) : s.mirror g = ∅ := by
  unfold mirror
  rw [h]
  rfl

variable {y : A.State} {selfId : Option PeerId} {version : ℕ}

theorem lookup_groupRoles_install {g' : GroupId} (hg : g' ≠ g) :
    (s.install g y roles selfId version).groupRoles.lookup g' = s.groupRoles.lookup g' := by
  unfold install
  split_ifs
  · rfl
  · exact lookup_insert_ne hg

/-- An empty mirror is not installed, which is the same if there was none. -/
theorem mirror_install (h : s.mirror g = ∅ ∨ s.mirror g = roles) :
    (s.install g y roles selfId version).mirror g = roles := by
  by_cases hem : roles.keys = []
  · have hnil : roles = ∅ := AList.ext (List.map_eq_nil_iff.1 hem)
    subst hnil
    exact h.elim id id
  · refine mirror_of_lookup ?_
    unfold install
    rw [if_neg hem]
    exact lookup_insert _

def view (s : EncryptionState A) (g : GroupId) : View A where
  state := s.groups.lookup g
  mirror := s.mirror g
  selfId := s.selfIds.lookup g
  version := s.groupVersions.lookup g
  stateRow := s.db.bind fun db => db.states.lookup g
  rolesRow := s.db.bind fun db => db.roles.lookup g

def HasAdmin (roles : Roles) : Prop :=
  ∃ p role, roles.lookup p = some role ∧ role.canManage

theorem not_hasAdmin_empty : ¬ HasAdmin ∅ := by
  rintro ⟨p, role, ⟨⟩, -⟩

namespace View

variable (v : View A)

def rows : Option StateRow × Option RolesRow := (v.stateRow, v.rolesRow)

def Identified : Prop :=
  ∀ row, v.stateRow = some row → ∃ r, v.rolesRow = some r ∧ r.selfId.isSome

/-- What is in memory could be loaded.  With an admin our identity is known, also in the rows: a
rollback, which needs one, restores it. -/
structure Sound (v : View A) : Prop where
  fits : ∀ y, v.state = some y → Fits A y v.mirror v.selfId
  admin : HasAdmin v.mirror → v.selfId.isSome ∧ v.Identified

/-- The rows hold what is in memory. -/
def Matches : Prop :=
  ∃ y version blob rolesBlob, v.state = some y ∧ v.version = some version ∧
    encodeEnvelope A.codec y = .ok blob ∧
    A.codec.encodeRoles v.mirror = .ok rolesBlob ∧ v.stateRow = some ⟨blob, version⟩ ∧
    v.rolesRow = some ⟨rolesBlob, v.selfId.map fun p => p.toKey.1⟩

end View

/-- A group loads again: from the same database, into a memory with the same role mirror or with
none, without failures of the database. -/
def Reloads (s : EncryptionState A) (g : GroupId) : Prop :=
  ∀ t : EncryptionState A, t.db = s.db → t.mirror g = ∅ ∨ t.mirror g = s.mirror g →
    wp (loadGroupStateFromDb g {})
      (fun r t' => r = .loaded ∧ t'.groups.lookup g = s.groups.lookup g ∧
        t'.mirror g = s.mirror g ∧ t'.groupVersions.lookup g = s.groupVersions.lookup g)
      (fun _ _ => False) t

/-- **What was saved is loaded iff it is valid.** -/
theorem reloads_iff_of_matches (hC : A.codec.Lawful) (hm : (s.view g).Matches)
    (hy : s.groups.lookup g = some y) :
    s.Reloads g ↔ Fits A y (s.mirror g) (s.selfIds.lookup g) := by
  obtain ⟨z, version, blob, rolesBlob, hz, hv, hb, hrl, hrw, hro⟩ := hm
  cases hy.symm.trans hz
  obtain ⟨db, hdb, hrw⟩ := bind_eq_some_iff.1 hrw
  simp only [view, hdb] at hro
  have hs : loadGroupState A.codec {} db g = .ok y :=
    loadGroupState_of_row hC rfl hrw hb
  have hmi : loadGroupRoles A.codec {} db g =
      .ok (some (s.mirror g, s.selfIds.lookup g)) :=
    loadGroupRoles_of_row hC rfl hro hrl
  constructor
  · intro h
    obtain ⟨r, s', hec, hr, -⟩ := exists_ok_of_wp (h s rfl (.inr rfl))
    rcases (wp_of_ok hec).1 (load_cases hdb g {}) with ⟨y', roles, selfId, _, hre, -⟩ | ⟨hr', -⟩
    · cases hs.symm.trans hre.state
      have hp := hre.mirror
      rw [hmi] at hp
      cases hp
      exact (validateLoadedGroupState_iff).1 hre.valid
    · cases hr.symm.trans hr'
  · intro hf t ht hmem
    have hre : Readable A g db {} y (s.mirror g) (s.selfIds.lookup g) version := by
      refine ⟨rfl, hs, ?_, (validateLoadedGroupState_iff).2 hf, ?_⟩
      · rw [hmi]
        rfl
      · show Except.ok (storedVersion db g) = _
        rw [storedVersion, hrw]
        rfl
    refine wp_mono (load_of_readable (ht.trans hdb) hre) ?_ fun _ _ h => h
    rintro r t' ⟨rfl, rfl⟩
    exact ⟨rfl, (lookup_insert _).trans hy.symm, mirror_install hmem,
      (lookup_insert _).trans hv.symm⟩

/-! ### What an operation on a group does -/

/-- The memory of all other groups is the same. -/
structure Elsewhere (g : GroupId) (s s' : EncryptionState A) : Prop where
  groups : ∀ g' ≠ g, s'.groups.lookup g' = s.groups.lookup g'
  groupRoles : ∀ g' ≠ g, s'.groupRoles.lookup g' = s.groupRoles.lookup g'
  selfIds : ∀ g' ≠ g, s'.selfIds.lookup g' = s.selfIds.lookup g'
  groupVersions : ∀ g' ≠ g, s'.groupVersions.lookup g' = s.groupVersions.lookup g'

variable {s₁ s' : EncryptionState A}

theorem Elsewhere.trans (h : Elsewhere g s s₁) (h' : Elsewhere g s₁ s') : Elsewhere g s s' where
  groups g' hg := (h'.groups g' hg).trans (h.groups g' hg)
  groupRoles g' hg := (h'.groupRoles g' hg).trans (h.groupRoles g' hg)
  selfIds g' hg := (h'.selfIds g' hg).trans (h.selfIds g' hg)
  groupVersions g' hg := (h'.groupVersions g' hg).trans (h.groupVersions g' hg)

theorem elsewhere_install {me : PeerId} :
    Elsewhere g s (s.install g y roles (some me) version) where
  groups _ hg := lookup_insert_ne hg
  groupRoles _ hg := lookup_groupRoles_install hg
  selfIds _ hg := lookup_insert_ne hg
  groupVersions _ hg := lookup_insert_ne hg

/-- The outcome of an operation on a group: the other groups are as they were, what is in memory
could be loaded, and the rows are as they were or hold what is in memory. -/
structure Kept (g : GroupId) (s s' : EncryptionState A) : Prop where
  db : s'.db.isSome
  others : ∀ g' ≠ g, s'.view g' = s.view g'
  sound : (s'.view g).Sound
  rows : (s'.view g).rows = (s.view g).rows ∨ (s'.view g).Matches

theorem Elsewhere.view {g' : GroupId} (h : Elsewhere g s s') (hdb : s'.db = s.db) (hg : g' ≠ g) :
    s'.view g' = s.view g' := by
  unfold EncryptionState.view mirror
  rw [h.groups g' hg, h.groupRoles g' hg, h.selfIds g' hg, h.groupVersions g' hg, hdb]

theorem rows_congr (hdb : s'.db = s.db) : (s'.view g).rows = (s.view g).rows := by
  unfold View.rows view
  rw [hdb]

theorem Elsewhere.kept (h : Elsewhere g s s') (hdb : s'.db = s.db) (hso : s.db.isSome)
    (hm : s'.mirror g = roles) (hs : s'.selfIds.lookup g = selfId)
    (hf : ∀ y, s'.groups.lookup g = some y → Fits A y roles selfId)
    (ham : HasAdmin roles → selfId.isSome ∧ (s.view g).Identified) : Kept g s s' := by
  subst hm hs
  refine ⟨hdb ▸ hso, fun _ hg => h.view hdb hg, ⟨hf, fun ha => ⟨(ham ha).1, ?_⟩⟩,
    .inl (rows_congr hdb)⟩
  have hk := (ham ha).2
  unfold View.Identified EncryptionState.view at hk ⊢
  rw [hdb]
  exact hk

/-- The memory of the group was changed before. -/
theorem Elsewhere.trans_kept (h : Elsewhere g s s₁) (hdb : s₁.db = s.db) (h' : Kept g s₁ s') :
    Kept g s s' where
  db := h'.db
  others g' hg := (h'.others g' hg).trans (h.view hdb hg)
  sound := h'.sound
  rows := h'.rows.imp_left fun hr => hr.trans (rows_congr hdb)

theorem Kept.refl (hdb : s.db.isSome) (hs : (s.view g).Sound) :
    Kept g s s := ⟨hdb, fun _ _ => rfl, hs, .inl rfl⟩

def savedDb (db : Database) (g : GroupId) (blob rolesBlob : Bytes) (version : ℕ)
    (selfId : Option PeerId) : Database :=
  ⟨db.states.insert g ⟨blob, version⟩, db.roles.insert g ⟨rolesBlob, selfId.map fun p => p.toKey.1⟩⟩

variable {db : Database}

/-- A group was saved, and is in memory as it was saved. -/
theorem Elsewhere.kept_of_saved {blob rb : Bytes} (h : Elsewhere g s s')
    (hdb : s.db = some db) (hd' : s'.db = some (savedDb db g blob rb version selfId))
    (hs : s'.groups.lookup g = some y) (hm : s'.mirror g = roles)
    (hse : s'.selfIds.lookup g = selfId) (hv : s'.groupVersions.lookup g = some version)
    (hb : encodeEnvelope A.codec y = .ok blob)
    (hro : A.codec.encodeRoles roles = .ok rb) (hf : Fits A y roles selfId)
    (ham : HasAdmin roles → selfId.isSome) : Kept g s s' := by
  subst hm hse
  have hrw : (s'.view g).stateRow = some ⟨blob, version⟩ := by
    simp only [EncryptionState.view, hd', savedDb, bind_some, lookup_insert]
  have hr : (s'.view g).rolesRow =
      some ⟨rb, (s'.view g).selfId.map fun p => p.toKey.1⟩ := by
    simp only [EncryptionState.view, hd', savedDb, bind_some, lookup_insert]
  refine ⟨by rw [hd']; rfl, fun g' hg => ?_, ⟨fun z hz => ?_, fun ha => ⟨ham ha, ?_⟩⟩,
    .inr ⟨y, version, blob, rb, hs, hv, hb, hro, hrw, hr⟩⟩
  · unfold EncryptionState.view mirror
    rw [h.groups g' hg, h.groupRoles g' hg, h.selfIds g' hg, h.groupVersions g' hg, hdb, hd']
    simp only [savedDb, bind_some, lookup_insert_ne hg]
  · cases hs.symm.trans hz
    exact hf
  · rintro - -
    exact ⟨_, hr, by rw [isSome_map]; exact ham ha⟩

variable {fault : Option GroupAuthFault}

/-- What saving does: both rows are written, or nothing happens. -/
theorem persistGroupMutation_saves (hdb : s.db = some db) {ex : ℕ} :
    wp (persistGroupMutation g y roles ex fault disk)
      (fun version s' => ∃ blob rb, encodeEnvelope A.codec y = .ok blob ∧
        A.codec.encodeRoles roles = .ok rb ∧
        s' = { s with db := some (savedDb db g blob rb version (s.selfIds.lookup g)) })
      (fun _ s' => s' = s) s := by
  simp only [persistGroupMutation, wp_bind, wp_get, hdb, wp_require, wp_ofExcept, implies_true,
    and_true]
  rintro - ⟨db', version⟩ hs
  obtain ⟨blob, rb, hb, hr, rfl⟩ := saved_rows hs
  exact ⟨blob, rb, hb, hr, rfl⟩

/-! ### Messages -/

theorem persistCurrentGroupState_kept (hdb : s.db.isSome) (hy : s.groups.lookup g = some y)
    (hs : (s.view g).Sound) : leaves (persistCurrentGroupState g disk) (Kept g s) s := by
  obtain ⟨db, hdb⟩ := isSome_iff_exists.1 hdb
  simp only [persistCurrentGroupState, wp_bind, wp_get, hy]
  refine wp_mono (persistGroupMutation_saves hdb) ?_ ?_
  · rintro version _ ⟨blob, rolesBlob, hb, hr, rfl⟩
    exact Elsewhere.kept_of_saved ⟨fun _ _ => rfl, fun _ _ => rfl, fun _ _ => rfl,
      fun _ hg => lookup_insert_ne hg⟩ hdb rfl hy rfl rfl (lookup_insert _) hb hr
      (hs.fits y hy) fun ha => (hs.admin ha).1
  · rintro e _ rfl
    exact .refl (by rw [hdb]; rfl) hs

/-- A group operation of the message plane has put a new state in memory. -/
theorem message_kept {y' : A.State} (hdb : s.db.isSome) (hs : (s.view g).Sound)
    (hf : Fits A y' (s.mirror g) (s.selfIds.lookup g)) (world : A.World) (disk : Disk) :
    leaves (persistCurrentGroupState g disk) (Kept g s)
      { s with world, groups := (s.groups.erase g).insert g y' } := by
  have hel : Elsewhere g s { s with world, groups := (s.groups.erase g).insert g y' } :=
    ⟨fun g' hg => by rw [lookup_insert_ne hg, lookup_erase_ne hg],
      fun _ _ => rfl, fun _ _ => rfl, fun _ _ => rfl⟩
  have hst : ((s.groups.erase g).insert g y').lookup g = some y' := lookup_insert _
  have hso : (view { s with world, groups := (s.groups.erase g).insert g y' } g).Sound := by
    refine ⟨fun z hz => ?_, hs.admin⟩
    cases hst.symm.trans hz
    exact hf
  exact wp_mono
    (persistCurrentGroupState_kept (s := { s with world, groups := (s.groups.erase g).insert g y' })
      hdb hst hso)
    (fun _ _ h => hel.trans_kept rfl h) fun _ _ h => hel.trans_kept rfl h

theorem lost_kept (hdb : s.db.isSome) (hs : (s.view g).Sound) {world : A.World} :
    Kept g s { s with world, groups := s.groups.erase g } := by
  refine Elsewhere.kept ⟨fun _ hg => lookup_erase_ne hg, fun _ _ => rfl, fun _ _ => rfl,
    fun _ _ => rfl⟩ rfl hdb rfl rfl (fun z hz => ?_) hs.admin
  cases (lookup_erase g s.groups).symm.trans hz

variable {drops : A.State → EncryptedGroupEnvelope → PeerId → Prop}

theorem sendMessage_kept (laws : A.MembershipLaws drops) (hdb : s.db.isSome)
    (hs : (s.view g).Sound) (text : Bytes) :
    leaves (sendMessage g text disk) (Kept g s) s := by
  have hsa := Kept.refl hdb hs
  simp only [sendMessage, localIdentity, wp_bind, wp_get, wp_okOr, wp_require, wp_ofExcept,
    wp_attempt, hsa, implies_true, and_true]
  intro myId _ y hy _ _
  refine ⟨fun r hr => ?_, fun _ _ => lost_kept hdb hs⟩
  have hf := hs.fits y hy
  have hm := laws.send hr
  exact message_kept hdb hs ⟨fun p hp => hm ▸ hf.roles p hp,
    fun me hme => hm ▸ hf.selfId me hme, hm ▸ hf.members⟩ s.world disk

/-- A message is received that takes neither a peer of the role mirror, nor our identity, nor all
members out of the group. -/
def Harmless (drops : A.State → EncryptedGroupEnvelope → PeerId → Prop) (s : EncryptionState A)
    (g : GroupId) (envelope : EncryptedGroupEnvelope) : Prop :=
  ∀ y, s.groups.lookup g = some y → (∀ p ∈ s.mirror g, ¬ drops y envelope p) ∧
    (∀ me ∈ s.selfIds.lookup g, ¬ drops y envelope me) ∧ ∃ p ∈ A.members y, ¬ drops y envelope p

theorem receiveMessage_kept (laws : A.MembershipLaws drops) {env : EncryptedGroupEnvelope}
    (hdb : s.db.isSome) (hs : (s.view g).Sound) (hh : Harmless drops s g env) :
    leaves (receiveMessage g env disk) (Kept g s) s := by
  cases hy : s.groups.lookup g with
  | none => simpa [receiveMessage, hy] using Kept.refl hdb hs
  | some y =>
    obtain ⟨hr, hse, p, hp, hpd⟩ := hh y hy
    have hfi := hs.fits y hy
    rcases hx : (A.receive y env).exec s.world with ⟨e | ⟨y', out⟩, world⟩
    · refine wp_mono (receiveMessage_of_error hy hx disk) (fun _ _ hf => hf.elim) ?_
      rintro _ _ rfl
      exact lost_kept hdb hs
    · have hst : ∀ q ∈ A.members y, ¬ drops y env q → q ∈ A.members y' := fun q hq hd =>
        (laws.receive y env q hq hd).of_exec hx
      exact leaves_receiveMessage hy hx (message_kept hdb hs
        ⟨fun q hq => hst q (hfi.roles q hq) (hr q hq),
          fun me hme => hst me (hfi.selfId me hme) (hse me hme), p, hst p hp hpd⟩
        world disk)

/-! ### Mutations -/

theorem Readable.selfId_isSome {disk : Disk} (h : Readable A g db disk y roles selfId version)
    (hro : ∀ row, db.states.lookup g = some row →
      ∃ r, db.roles.lookup g = some r ∧ r.selfId.isSome) : selfId.isSome := by
  obtain ⟨row, hl⟩ := row_of_loadGroupState h.state
  obtain ⟨r, hr, hso⟩ := hro row hl
  have hm := h.mirror
  cases hlo : loadGroupRoles A.codec disk db g with
  | error e =>
    rw [hlo] at hm
    cases hm
  | ok loaded =>
    obtain ⟨roles', selfId', rfl, hs⟩ := selfId_of_loadGroupRoles hr hso hlo
    rw [hlo] at hm
    cases hm
    exact hs

/-- A group that is not in memory is loaded. -/
theorem loadGroupStateFromDb_kept (hs : s.db.isSome) (h : Elsewhere g s s₁)
    (hdb : s₁.db = s.db) (hk : (s.view g).Identified) (hg : s₁.groups.lookup g = none)
    (hr : s₁.groupRoles.lookup g = none) :
    leaves (loadGroupStateFromDb g disk) (Kept g s) s₁ := by
  obtain ⟨db, hdb'⟩ := isSome_iff_exists.1 hs
  have hgo : Kept g s s₁ := by
    refine h.kept hdb hs (mirror_of_none hr) rfl (fun z hz => ?_)
      fun ha => (not_hasAdmin_empty ha).elim
    rw [hg] at hz
    cases hz
  refine wp_mono (load_cases (hdb.trans hdb') g disk) ?_ ?_
  · rintro r s' (⟨y, roles, selfId, version, hre, -, rfl⟩ | ⟨-, rfl, -⟩)
    · have hro := hk
      simp only [view, hdb'] at hro
      obtain ⟨me, rfl⟩ := isSome_iff_exists.1 (hre.selfId_isSome hro)
      refine (h.trans (elsewhere_install)).kept hdb hs
        (mirror_install (.inl (mirror_of_none hr))) (lookup_insert _) (fun z hz => ?_)
        fun _ => ⟨rfl, hk⟩
      obtain rfl := HashMap.eq_of_lookup_insert hz
      exact (validateLoadedGroupState_iff).1 hre.valid
    · exact hgo
  · rintro e s' ⟨rfl, -⟩
    exact hgo

/-- A rollback leaves the group as its rows have it, or takes it out of memory. -/
theorem rollbackGroupState_kept (hs : s.db.isSome) (h : Elsewhere g s s₁) (hdb : s₁.db = s.db)
    (hk : (s.view g).Identified) {backup : Bytes} :
    leaves (rollbackGroupState g backup disk) (Kept g s) s₁ := by
  obtain ⟨db, hdb'⟩ := isSome_iff_exists.1 hs
  have hd : s₁.db = some db := hdb.trans hdb'
  simp only [rollbackGroupState, wp_bind, wp_get, hd, wp_attempt]
  -- the group is taken out of memory before it is loaded
  refine loadGroupStateFromDb_kept hs (h.trans ?_) hdb'.symm hk (lookup_erase g _)
    (lookup_erase g _)
  exact ⟨fun _ hg => lookup_erase_ne hg, fun _ hg => lookup_erase_ne hg,
    fun _ _ => rfl, fun _ hg => lookup_erase_ne hg⟩

theorem mutateGroup_kept {op : A.State → Prog A.World A.Error (A.State × EncryptedGroupEnvelope)}
    {newRoles : Roles → Roles} (hso : s.db.isSome)
    (hs : (s.view g).Sound) (ha : HasAdmin (s.mirror g)) (hop : ∀ y, s.groups.lookup g = some y →
      Ensures (op y) fun r => Fits A r.1 (newRoles (s.mirror g)) (s.selfIds.lookup g)) :
    leaves (mutateGroup g op newRoles fault disk) (Kept g s) s := by
  obtain ⟨hse, hrw⟩ := hs.admin ha
  obtain ⟨db, hdb⟩ := isSome_iff_exists.1 hso
  have hr : ∀ world backup, leaves (rollbackGroupState g backup disk) (Kept g s)
      { s with groups := s.groups.erase g, world } := by
    intro world backup
    have hel : Elsewhere g s { s with groups := s.groups.erase g, world } :=
      ⟨fun _ hg => lookup_erase_ne hg, fun _ _ => rfl, fun _ _ => rfl, fun _ _ => rfl⟩
    exact rollbackGroupState_kept hso hel rfl hrw
  simp only [mutateGroup, wp_bind, wp_okOr, wp_ofExcept]
  refine ⟨fun y hy => ⟨fun backup _ => ?_, fun _ _ => lost_kept hso hs⟩, fun _ => .refl hso hs⟩
  simp only [call, wp_attempt, wp_within, wp_mapErr]
  rcases hx : (op y).exec s.world with ⟨e | ⟨y', msg⟩, world⟩
  · rw [wp_of_error hx]
    simp only [wp_bind]
    exact wp_mono (hr world backup) (fun _ _ h => h) fun _ _ h => h
  · rw [wp_of_ok hx]
    have hf : Fits A y' (newRoles (s.mirror g)) (s.selfIds.lookup g) :=
      (hop y hy).of_exec hx
    simp only [wp_bind, wp_attempt]
    refine wp_mono (persistGroupMutation_saves
      (s := { s with groups := s.groups.erase g, world }) hdb) ?_ ?_
    · rintro version _ ⟨blob, rolesBlob, hb, hro, rfl⟩
      refine Elsewhere.kept_of_saved ⟨fun g' hg => ?_, fun _ hg => lookup_insert_ne hg,
        fun _ _ => rfl, fun _ hg => lookup_insert_ne hg⟩ hdb rfl (lookup_insert _)
        (mirror_of_lookup (lookup_insert _)) rfl (lookup_insert _) hb hro hf
        fun _ => hse
      rw [lookup_insert_ne hg, lookup_erase_ne hg]
    · rintro e _ rfl
      exact wp_mono (hr world backup) (fun _ _ h => h) fun _ _ h => h

theorem hasAdmin_of_isAdmin {peer : PeerId} (h : s.isAdmin g peer) : HasAdmin (s.mirror g) := by
  unfold isAdmin memberRole at h
  unfold mirror
  cases hr : s.groupRoles.lookup g with
  | none =>
    rw [hr] at h
    cases h
  | some roles =>
    rw [hr, bind_some] at h
    cases hro : roles.lookup peer with
    | none =>
      rw [hro] at h
      cases h
    | some role =>
      rw [hro] at h
      exact ⟨peer, role, hro, h⟩

theorem mutation_kept (laws : A.MembershipLaws drops) {op : Op A} {m : Mutation A}
    (hm : op.mutation = some m) (hso : s.db.isSome) (hs : (s.view m.group).Sound) :
    leaves (op.run disk) (Kept m.group s) s := by
  refine (wp_run_mutation hm (.refl hso hs) disk).2 fun y hy ha => ?_
  have hf := hs.fits y hy
  have hmu : HasAdmin (s.mirror m.group) → Ensures (m.change y) (fun r =>
      Fits A r.1 (m.newRoles (s.mirror m.group)) (s.selfIds.lookup m.group)) →
      leaves (mutateGroup m.group m.change m.newRoles m.fault disk) (Kept m.group s) s := by
    refine fun ham hop => mutateGroup_kept hso hs ham (fun z hz => ?_)
    cases hy.symm.trans hz
    exact hop
  cases op with
  | applyMemberJoin g mm fault =>
    cases hm
    obtain ⟨myId, hse, ham, -⟩ := ha
    refine hmu (hasAdmin_of_isAdmin ham) ((laws.add y mm).mono fun r hr =>
      ⟨fun p hp => hr p ?_, fun me hme => hr me (.inr (hf.selfId me hme)), mm, hr mm (.inl rfl)⟩)
    exact ((AList.mem_insert _).1 hp).imp_right (hf.roles p)
  | applyMemberRemove g mm fault =>
    cases hm
    obtain ⟨myId, hse, ham, -, hne⟩ := ha
    refine hmu (hasAdmin_of_isAdmin ham) ((laws.remove y mm).mono fun r hr => ?_)
    have hme : myId ∈ A.members r.1 := hr myId (hf.selfId myId hse) (Ne.symm hne)
    refine ⟨fun p hp => ?_, fun me hme' => ?_, myId, hme⟩
    · obtain ⟨hp', hp⟩ := AList.mem_erase.1 hp
      exact hr p (hf.roles p hp) hp'
    · cases hse.symm.trans hme'
      exact hme
  | rotateEpoch g actor fault =>
    cases hm
    obtain ⟨p, hp⟩ := hf.members
    exact hmu (hasAdmin_of_isAdmin ha) ((laws.update y).mono fun r hr =>
      ⟨fun q hq => hr q (hf.roles q hq), fun me hme => hr me (hf.selfId me hme), p, hr p hp⟩)
  | _ => cases hm

theorem applyRoleChange_kept (hso : s.db.isSome) (hs : (s.view g).Sound) (actor member : PeerId)
    (role : MemberRole) : leaves (applyRoleChange g actor member role disk) (Kept g s) s := by
  have hsa := Kept.refl hso hs
  obtain ⟨db, hdb⟩ := isSome_iff_exists.1 hso
  simp only [applyRoleChange, wp_bind, wp_get, wp_okOr, wp_require, hsa, implies_true, and_true]
  intro actorRole ha hm roles hr hme y hy
  have hmi : s.mirror g = roles := mirror_of_lookup hr
  have hi : s.isAdmin g actor := by
    unfold isAdmin
    rw [ha]
    exact hm
  have hse := (hs.admin (hasAdmin_of_isAdmin hi)).1
  have hf : Fits A y roles (s.selfIds.lookup g) := hmi ▸ hs.fits y hy
  refine wp_mono (persistGroupMutation_saves hdb) ?_ ?_
  · rintro version _ ⟨blob, rolesBlob, hb, hen, rfl⟩
    refine Elsewhere.kept_of_saved ⟨fun _ _ => rfl, fun _ hg => lookup_insert_ne hg,
      fun _ _ => rfl, fun _ hg => lookup_insert_ne hg⟩ hdb rfl hy
      (mirror_of_lookup (lookup_insert _)) rfl (lookup_insert _) hb hen
      ⟨fun p hp => hf.roles p ?_, hf.selfId, hf.members⟩ fun _ => hse
    rcases (AList.mem_insert _).1 hp with rfl | hp
    · exact hme
    · exact hp
  · rintro e _ rfl
    exact hsa

/-! ### Creating and joining -/

theorem initGroup_kept (laws : A.MembershipLaws drops) {myId : PeerId} (hso : s.db.isSome)
    (hs : (s.view g).Sound) (hmi : ∀ p ∈ s.mirror g, p = myId) :
    leaves (initGroup g myId) (Kept g s) s := by
  simp only [initGroup, wp_bind, wp_ofExcept]
  refine ⟨fun y hy => ?_, fun _ _ => .refl hso hs⟩
  have hmem : myId ∈ A.members y := laws.init hy
  refine Elsewhere.kept ⟨fun _ hg => lookup_insert_ne hg,
    fun _ hg => HashMap.lookup_upsert_ne _ _ _ hg, fun _ hg => lookup_insert_ne hg,
    fun _ _ => rfl⟩ rfl hso (mirror_of_lookup (HashMap.lookup_upsert _ _ _ _))
    (lookup_insert _) (fun z hz => ?_) fun ha => ⟨rfl, ?_⟩
  · obtain rfl := HashMap.eq_of_lookup_insert hz
    refine ⟨fun p hp => ?_, fun me hme => ?_, myId, hmem⟩
    · rcases HashMap.mem_upsert.1 hp with rfl | hp
      · exact hmem
      · exact hmi p hp ▸ hmem
    · cases hme
      exact hmem
  · -- the writer is no new admin
    obtain ⟨p, role, hp, hm⟩ := ha
    rcases HashMap.lookup_orInsert_eq_some hp with hp | ⟨-, rfl⟩
    · exact (hs.admin ⟨p, role, hp, hm⟩).2
    · cases hm

theorem mem_createdRoles {me p : PeerId} {initialMembers : List PeerId}
    (h : p ∈ createdRoles me initialMembers) : p = me ∨ p ∈ initialMembers := by
  have hf : ∀ (l : List PeerId) (roles : Roles),
      p ∈ l.foldl (fun roles m => HashMap.orInsert roles m .writer) roles → p ∈ roles ∨ p ∈ l := by
    intro l
    induction l with
    | nil => exact fun roles hp => .inl hp
    | cons q l ih =>
      intro roles hp
      rw [List.mem_cons]
      rcases ih _ hp with hp | hp
      · rcases HashMap.mem_upsert.1 hp with rfl | hp
        · exact .inr (.inl rfl)
        · exact .inl hp
      · exact .inr (.inr hp)
  rcases hf initialMembers _ h with hp | hp
  · rcases (AList.mem_insert _).1 hp with rfl | hp
    · exact .inl rfl
    · cases hp
  · exact .inr hp

theorem createGroup_kept (laws : A.MembershipLaws drops) {myId : PeerId} (hso : s.db.isSome)
    (hs : (s.view g).Sound) (hmem : ∀ y, s.groups.lookup g = some y → myId ∈ A.members y)
    (ms : List PeerId) :
    leaves (createGroup g myId ms disk) (Kept g s) s := by
  obtain ⟨db, hdb⟩ := isSome_iff_exists.1 hso
  simp only [createGroup, wp_bind, wp_ofExcept, wp_modify]
  refine ⟨fun y₀ hi => ?_, fun _ _ => .refl hso hs⟩
  simp only [call, wp_within, wp_mapErr]
  rcases hx : (A.create y₀ ms).exec s.world with ⟨e | ⟨y, msg⟩, world⟩
  · -- the identity is recorded although the group is not created
    rw [wp_of_error hx]
    refine Elsewhere.kept ⟨fun _ _ => rfl, fun _ _ => rfl, fun _ hg => lookup_insert_ne hg,
      fun _ _ => rfl⟩ rfl hso rfl (lookup_insert _) (fun z hz => ?_)
      fun ha => ⟨rfl, (hs.admin ha).2⟩
    have hf := hs.fits z hz
    refine ⟨hf.roles, fun me hme => ?_, hf.members⟩
    cases hme
    exact hmem z hz
  · rw [wp_of_ok hx]
    simp only [wp_attempt]
    refine wp_mono (persistGroupMutation_saves
      (s := { s with selfIds := s.selfIds.insert g myId, world }) hdb) ?_ ?_
    · rintro version _ ⟨blob, rolesBlob, hb, hr, rfl⟩
      have hm := (laws.create hi).of_exec hx
      refine Elsewhere.kept_of_saved ⟨fun _ hg => lookup_insert_ne hg,
        fun _ hg => lookup_insert_ne hg, fun _ hg => lookup_insert_ne hg,
        fun _ hg => lookup_insert_ne hg⟩ hdb rfl (lookup_insert _)
        (mirror_of_lookup (lookup_insert _)) rfl (lookup_insert _) hb hr
        ⟨fun p hp => hm p (mem_createdRoles hp), fun me hme => ?_, myId,
          hm myId (.inl rfl)⟩ fun _ => ?_
      · obtain rfl := HashMap.eq_of_lookup_insert hme
        exact hm myId (.inl rfl)
      · exact isSome_of_eq_some (lookup_insert _)
    · rintro e _ rfl
      refine Elsewhere.kept ⟨fun _ _ => rfl, fun _ hg => lookup_erase_ne hg, fun g' hg => ?_,
        fun _ _ => rfl⟩ rfl hso (mirror_of_none (lookup_erase _ _))
        (lookup_erase _ _) (fun z hz => ?_) fun ha => (not_hasAdmin_empty ha).elim
      · rw [lookup_erase_ne hg, lookup_insert_ne hg]
      · refine ⟨fun p hp => ?_, fun me hme => ?_, (hs.fits z hz).members⟩
        · cases hp
        · cases hme

/-! ### Runs -/

/-- The group an operation works on; none for those that load or replace what is stored. -/
def Op.group : Op A → Option GroupId
  | .initGroup g _ | .createGroup g _ _ | .applyMemberJoin g _ _ | .applyMemberRemove g _ _
  | .applyRoleChange g _ _ _ | .rotateEpoch g _ _ | .sendMessage g _ | .receiveMessage g _ => some g
  | .loadGroupStateFromDb _ | .deleteGroupStateFromDb _ | .withDb _ | .outside _ _ => none

/-- The steps that keep the role mirror and our identity within the group: a message takes none of
them out of it, a group is initialised anew only if nobody else is in its mirror, and created anew
only under an identity that is a member. -/
def Careful (drops : A.State → EncryptedGroupEnvelope → PeerId → Prop) (s : EncryptionState A)
    (i : Input A) : Prop :=
  match i.op with
  | .initGroup g myId => ∀ p ∈ s.mirror g, p = myId
  | .createGroup g myId _ => ∀ y, s.groups.lookup g = some y → myId ∈ A.members y
  | .receiveMessage g envelope => Harmless drops s g envelope
  | _ => True

theorem run_kept (laws : A.MembershipLaws drops) {i : Input A} (hg : i.op.group = some g)
    (hdb : s.db.isSome) (hs : (s.view g).Sound) (hc : Careful drops s i) :
    leaves (i.op.run i.disk) (Kept g s) s := by
  obtain ⟨op, disk⟩ := i
  cases op with
  | initGroup =>
    cases hg
    exact wp_map.2 (initGroup_kept laws hdb hs hc)
  | createGroup =>
    cases hg
    exact wp_map.2 (createGroup_kept laws hdb hs hc _)
  | applyMemberJoin | applyMemberRemove | rotateEpoch =>
    cases hg
    exact mutation_kept (m := ⟨_, _, _, _⟩) laws rfl hdb hs
  | applyRoleChange =>
    cases hg
    exact wp_map.2 (applyRoleChange_kept hdb hs _ _ _)
  | sendMessage =>
    cases hg
    exact wp_map.2 (sendMessage_kept laws hdb hs _)
  | receiveMessage =>
    cases hg
    exact wp_map.2 (receiveMessage_kept laws hdb hs hc)
  | loadGroupStateFromDb | deleteGroupStateFromDb | withDb | outside => cases hg

/-- Every group whose rows a step has changed loads again. -/
def PersistedReloads (s : EncryptionState A) (i : Input A) : Prop :=
  ∀ g, (((machine A).step s i).1.view g).rows ≠ (s.view g).rows → ((machine A).step s i).1.Reloads g

/-- Nothing is in memory, and there is a database. -/
structure Fresh (s : EncryptionState A) : Prop where
  groups : s.groups = ∅
  groupRoles : s.groupRoles = ∅
  selfIds : s.selfIds = ∅
  db : s.db.isSome

theorem Fresh.sound (h : Fresh s) (g : GroupId) : (s.view g).Sound := by
  refine ⟨fun y hy => ?_, fun ha => ?_⟩
  · simp only [view, h.groups] at hy
    cases hy
  · have hm : s.mirror g = ∅ := mirror_of_none (by rw [h.groupRoles]; rfl)
    exact (not_hasAdmin_empty (hm ▸ ha)).elim

theorem Kept.sound_of_forall (h : Kept g s s') (hs : ∀ g', (s.view g').Sound) (g' : GroupId) :
    (s'.view g').Sound := by
  by_cases hg : g' = g
  · exact hg ▸ h.sound
  · rw [h.others g' hg]
    exact hs g'

/-- The run lemma, for every group scheme whose members obey the laws. -/
theorem persistedReloads_along (laws : A.MembershipLaws drops) (hC : A.codec.Lawful)
    {is : List (Input A)} (ho : ∀ i ∈ is, i.op.group.isSome)
    (hc : (machine A).Along (Careful drops) s is) (hdb : s.db.isSome) (hs : ∀ g, (s.view g).Sound) :
    (machine A).Along PersistedReloads s is := by
  induction is generalizing s with
  | nil => exact trivial
  | cons i is ih =>
    obtain ⟨g, hg⟩ := isSome_iff_exists.1 (ho i List.mem_cons_self)
    have hk := step_of_wp (run_kept laws hg hdb (hs g) hc.1)
    refine ⟨fun g' hr => ?_, ih (fun j hj => ho j (List.mem_cons_of_mem _ hj)) hc.2 hk.db
      (hk.sound_of_forall hs)⟩
    by_cases hg' : g' = g
    · subst hg'
      have hm := hk.rows.resolve_left hr
      obtain ⟨y, -, -, -, hy, -⟩ := hm
      exact (reloads_iff_of_matches hC (hk.rows.resolve_left hr) hy).2 (hk.sound.fits y hy)
    · exact absurd (congrArg View.rows (hk.others g' hg')) hr

/-- **What is saved loads again.**  A store starts with nothing in memory and any database, and its
encodings decode to what was encoded.  In every run of operations on groups, with any failures of
the database, in which no step takes a peer of the role mirror or our identity out of a group: if a
step has changed the rows of a group, the group loads, with the state, the role mirror and the
version it has in memory. -/
theorem persisted_reloads (S : Suite) (codec : Codec (GroupState S)) (hC : codec.Lawful)
    (s : EncryptionState (MessageGroup.scheme S codec)) (hfresh : s.Fresh)
    (is : List (Input (MessageGroup.scheme S codec))) (hops : ∀ i ∈ is, i.op.group.isSome)
    (hc : (machine _).Along (Careful MessageGroup.drops) s is) :
    (machine _).Along PersistedReloads s is :=
  persistedReloads_along (MessageGroup.membershipLaws S) hC hops hc hfresh.db hfresh.sound

/-- A group is created, a member is added, and the epoch is rotated. -/
def localRun : List (Input storedScheme) :=
  [⟨.createGroup ⟨0⟩ ⟨0⟩ [⟨1⟩, ⟨2⟩], {}⟩, ⟨.applyMemberJoin ⟨0⟩ ⟨3⟩ none, {}⟩,
    ⟨.applyMemberRemove ⟨0⟩ ⟨1⟩ none, {}⟩, ⟨.rotateEpoch ⟨0⟩ ⟨0⟩ none, {}⟩]

theorem localRun_reloads : (machine storedScheme).Along PersistedReloads storedState localRun := by
  have ho : ∀ i ∈ localRun, i.op.group.isSome := by
    simp only [localRun, List.forall_mem_cons]
    exact ⟨rfl, rfl, rfl, rfl, by simp⟩
  refine persisted_reloads plainSuite _ (Codec.unary_lawful _) storedState ⟨rfl, rfl, rfl, rfl⟩
    localRun ho ⟨fun y hy => ?_, trivial, trivial, trivial, trivial⟩
  cases (show (none : Option (GroupState plainSuite)) = some y from hy)

/-! ### A received removal -/

/-- A message was received, and the group saved. -/
structure SavedAs (s s' : EncryptionState A) (g : GroupId) (y : A.State) (version : ℕ) : Prop where
  state : s'.groups.lookup g = some y
  mirror : s'.mirror g = s.mirror g
  row : ∃ blob, (s'.view g).stateRow = some ⟨blob, version⟩
  held : (s'.view g).Matches

theorem receiveMessage_saved {y' : A.State} {env : EncryptedGroupEnvelope}
    {out : Option GroupOutput} {world : A.World} {blob rb : Bytes} (hdb : s.db = some db)
    (hy : s.groups.lookup g = some y) (hr : (A.receive y env).exec s.world = (.ok (y', out), world))
    (hb : encodeEnvelope A.codec y' = .ok blob) (hro : A.codec.encodeRoles (s.mirror g) = .ok rb)
    (hv : s.groupVersions.getD g 0 = storedVersion db g) :
    leaves (receiveMessage g env {}) (fun s' => SavedAs s s' g y' (storedVersion db g + 1)) s := by
  have hs : ((s.groups.erase g).insert g y').lookup g = some y' := lookup_insert _
  have hsv := saveGroupStateAndRoles_ok db g hb hro (s.selfIds.lookup g)
  rw [← hv] at hsv ⊢
  have hsa : SavedAs s { s with
      world
      db := some (savedDb db g blob rb (s.groupVersions.getD g 0 + 1) (s.selfIds.lookup g))
      groups := (s.groups.erase g).insert g y'
      groupVersions := s.groupVersions.insert g (s.groupVersions.getD g 0 + 1) } g y'
      (s.groupVersions.getD g 0 + 1) :=
    ⟨hs, rfl, ⟨blob, lookup_insert _⟩, y', _, blob, rb, hs,
      lookup_insert _, hb, hro, lookup_insert _, lookup_insert _⟩
  unfold mirror at hsv
  refine leaves_receiveMessage hy hr ?_
  simp only [persistCurrentGroupState, persistGroupMutation, wp_bind, wp_get, hs, hdb,
    wp_require, wp_ofExcept, hsv, wp_pure, Except.ok.injEq, forall_eq', reduceCtorEq,
    false_imp_iff, implies_true, and_true, not_false_eq_true, true_imp_iff, not_true_eq_false]
  exact hsa

def threeGroup : GroupState plainSuite :=
  MessageGroup.init ⟨0⟩ () () (Membership.create ⟨0⟩ [⟨1⟩, ⟨2⟩]) (OrderingState.new ⟨0⟩) {}

/-- Whether peer 1 is gone after the group has received its removal. -/
def goneAfterRemoval (y : GroupState plainSuite) : Bool :=
  match ((MessageGroup.receive y removal).exec ()).1 with
  | .ok (y', _) => ⟨1⟩ ∉ MessageGroup.members y'
  | .error _ => false

theorem goneAfterRemoval_created :
    (((MessageGroup.create threeGroup [⟨1⟩, ⟨2⟩]).exec ()).1.toOption.any
      fun r => goneAfterRemoval r.1) = true := by
  decide +kernel

theorem exists_removed : ∃ y msg y' out,
    (MessageGroup.create threeGroup [⟨1⟩, ⟨2⟩]).exec () = (.ok (y, msg), ()) ∧
    (MessageGroup.receive y removal).exec () = (.ok (y', out), ()) ∧
    ⟨1⟩ ∉ MessageGroup.members y' := by
  have h := goneAfterRemoval_created
  rcases hc : (MessageGroup.create threeGroup [⟨1⟩, ⟨2⟩]).exec () with ⟨e | ⟨y, msg⟩, u⟩
  · rw [hc] at h
    cases h
  · rw [hc] at h
    replace h : goneAfterRemoval y = true := h
    unfold goneAfterRemoval at h
    rcases hr : (MessageGroup.receive y removal).exec () with ⟨e | ⟨y', out⟩, u'⟩
    · rw [hr] at h
      cases h
    · rw [hr] at h
      exact ⟨y, msg, y', out, rfl, hr, of_decide_eq_true h⟩

/-- We create a group with peers 1 and 2, and peer 2 removes peer 1. -/
def removalRun : List (Input storedScheme) :=
  [⟨.createGroup ⟨0⟩ ⟨0⟩ [⟨1⟩, ⟨2⟩], {}⟩, ⟨.receiveMessage ⟨0⟩ removal, {}⟩]

/-- The group is saved with peer 1 in the role mirror, and does not load. -/
theorem removed_member_not_reloaded :
    ¬ (machine storedScheme).Along PersistedReloads storedState removalRun := by
  obtain ⟨y, msg, y', out, hc, hr, hg⟩ := exists_removed
  let C := Codec.unary (GroupState plainSuite)
  have hC : C.Lawful := Codec.unary_lawful (GroupState plainSuite)
  let roles := createdRoles ⟨0⟩ [⟨1⟩, ⟨2⟩]
  obtain ⟨blob, hb⟩ : ∃ blob, encodeEnvelope C y = .ok blob := ⟨_, rfl⟩
  obtain ⟨blob', hblob'⟩ : ∃ blob, encodeEnvelope C y' = .ok blob := ⟨_, rfl⟩
  obtain ⟨rolesBlob, hro⟩ : ∃ blob, C.encodeRoles roles = .ok blob := ⟨_, rfl⟩
  have hf := step_of_wp (i := (⟨.createGroup ⟨0⟩ ⟨0⟩ [⟨1⟩, ⟨2⟩], {}⟩ : Input storedScheme))
    (wp_map.2 (wp_mono (createGroup_of_save (s := storedState) rfl rfl hc
      (saveGroupStateAndRoles_ok ⟨∅, ∅⟩ ⟨0⟩ hb hro (some ⟨0⟩)))
      (fun _ _ h => h) fun _ _ h => h.elim))
  rintro ⟨-, h, -⟩
  -- what is known of the state after the creation
  generalize hdb : (Database.mk (AList.insert (⟨0⟩ : GroupId) ⟨blob, _⟩ ∅) _) = db at hf
  generalize ((machine storedScheme).step storedState _).1 = s₁ at hf h
  have hrow : db.states.lookup ⟨0⟩ = some ⟨blob, 1⟩ := by
    rw [← hdb]
    exact lookup_insert _
  have hd : s₁.db = some db := congrArg EncryptionState.db hf
  have hy₁ : s₁.groups.lookup ⟨0⟩ = some y := by
    rw [hf]
    exact lookup_insert _
  have hm : s₁.mirror ⟨0⟩ = roles := mirror_of_lookup (by
    rw [hf]
    exact lookup_insert _)
  have hve : s₁.groupVersions.getD ⟨0⟩ 0 = storedVersion db ⟨0⟩ := by
    rw [storedVersion, hrow, hf]
    rfl
  have hs := step_of_wp (i := (⟨.receiveMessage ⟨0⟩ removal, {}⟩ : Input storedScheme))
    (wp_map.2 (receiveMessage_saved hd hy₁ hr hblob' (hm ▸ hro) hve))
  -- the rows now hold the group without peer 1, and the mirror with it
  have hre := h ⟨0⟩ (by
    intro heq
    obtain ⟨blob₂, hrow₂⟩ := hs.row
    have hrow₁ : (s₁.view ⟨0⟩).stateRow = some ⟨blob, 1⟩ := by
      unfold view
      rw [hd]
      exact hrow
    have hrw := (hrow₂.symm.trans (congrArg Prod.fst heq)).trans hrow₁
    have hv := congrArg StateRow.version (some.inj hrw)
    rw [storedVersion, hrow] at hv
    cases hv)
  have hfi := (reloads_iff_of_matches hC hs.held hs.state).1 hre
  refine hg (hfi.roles ⟨1⟩ ?_)
  rw [hs.mirror, hm]
  decide

end EncryptionState

end GroupEncryption

end Boru
