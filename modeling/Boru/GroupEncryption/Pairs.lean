import Boru.GroupEncryption.Reload

/-!
# Relations between a group and its role mirror

The state of a group and its role mirror are changed, saved, rolled back and loaded together.  A
relation between the two that an operation keeps for the group it works on then holds of every group
in memory, and of what can be read from the rows of the database.

The relation is arbitrary (`R`), but for the empty mirror, which is related to no state: it is not
installed when a group is loaded.  What each operation has to keep is a hypothesis of its lemma.

## Main results

* `EncryptionState.RowsHold.saved` : a save keeps the relation in the rows.
* `EncryptionState.mutateGroup_holds` : a mutation keeps the relation if the group operation and the
  change of the mirror do, whether it commits or is rolled back.
-/

namespace Boru.GroupEncryption

open AList (lookup_insert lookup_insert_ne lookup_erase lookup_erase_ne)

/-- Decoding what was encoded keeps the relation, as far as it succeeds: for a state in its stored
form, for a state alone, and for a role mirror. -/
structure Codec.Keeps {St : Type} (C : Codec St) (R : St → Roles → Prop) : Prop where
  envelope : ∀ {y y' roles g blob}, Persistence.encodeEnvelope C y = .ok blob →
    Persistence.decodeGroupStateBlob C g blob = .ok y' → R y roles → R y' roles
  state : ∀ {y y' roles blob rest}, C.encodeState y = .ok blob →
    C.takeState blob = .ok (y', rest) → R y roles → R y' roles
  roles : ∀ {y roles roles' blob}, C.encodeRoles roles = .ok blob →
    C.decodeRoles blob = .ok roles' → R y roles → R y roles'

namespace EncryptionState

open Prog Persistence

variable {A : GroupScheme}

/-! ### Rows -/

variable {g : GroupId} {db : Database} {disk : Disk} {y : A.State}
  {roles : Roles} {R : A.State → Roles → Prop}

/-- Only the rows of the group matter. -/
theorem Readable.congr {db' : Database} {me : Option PeerId} {version : ℕ}
    (h : Readable A g db' disk y roles me version) (hs : db'.states.lookup g = db.states.lookup g)
    (hr : db'.roles.lookup g = db.roles.lookup g) :
    Readable A g db disk y roles me version := by
  obtain ⟨hl, hsta, hm, hv, hst⟩ := h
  refine ⟨hl, ?_, ?_, hv, ?_⟩
  · rw [← hsta]
    unfold loadGroupState
    rw [hs]
  · rw [← hm]
    unfold loadGroupRoles
    rw [hr]
  · rw [← hst]
    unfold loadGroupVersion storedVersion
    rw [hs]

/-- What can be read from the rows of a save is related if what was saved is. -/
theorem Readable.saved (hC : A.codec.Keeps R) {z : A.State} {mirror : Roles}
    {selfId me : Option PeerId} {ver v : ℕ} {blob rb : Bytes}
    (h : Readable A g (savedDb db g blob rb v me) disk y roles selfId ver)
    (hb : encodeEnvelope A.codec z = .ok blob)
    (hr : A.codec.encodeRoles mirror = .ok rb) (hR : R z mirror) : R y roles := by
  obtain ⟨-, -, hst⟩ := except_bind_eq_ok h.state
  rw [show (savedDb db g blob rb v me).states.lookup g = some ⟨blob, v⟩ from lookup_insert _] at hst
  have hm := h.mirror
  cases hl : loadGroupRoles A.codec disk (savedDb db g blob rb v me) g with
  | error e =>
    rw [hl] at hm
    cases hm
  | ok loaded =>
    rw [hl] at hm
    obtain ⟨-, -, hl⟩ := except_bind_eq_ok hl
    rw [show (savedDb db g blob rb v me).roles.lookup g =
      some ⟨rb, me.map fun p => p.toKey.1⟩ from lookup_insert _] at hl
    obtain ⟨r, hd, hl⟩ := except_bind_eq_ok hl
    obtain ⟨me', -, hl⟩ := except_bind_eq_ok hl
    cases hl
    cases hm
    refine hC.roles hr ?_ (hC.envelope hb hst hR)
    cases hdr : A.codec.decodeRoles rb with
    | error e =>
      rw [hdr] at hd
      cases hd
    | ok r =>
      rw [hdr] at hd
      cases hd
      rfl

/-- Whatever can be read from the rows of a database is related. -/
def RowsHold (R : A.State → Roles → Prop) (db : Database) : Prop :=
  ∀ g disk y roles selfId version, Readable A g db disk y roles selfId version → R y roles

/-- Every group in memory is related to its role mirror, and so is what can be read. -/
structure Holds (R : A.State → Roles → Prop) (s : EncryptionState A) : Prop where
  memory : ∀ g y, s.groups.lookup g = some y → R y (s.mirror g)
  rows : ∀ db, s.db = some db → RowsHold R db

theorem RowsHold.saved (hC : A.codec.Keeps R) (h : RowsHold R db) (hR : R y roles)
    {blob rb : Bytes} (hb : encodeEnvelope A.codec y = .ok blob)
    (hr : A.codec.encodeRoles roles = .ok rb) (ver : ℕ) (selfId : Option PeerId) :
    RowsHold R (savedDb db g blob rb ver selfId) := by
  intro g' disk z mirror me v hre
  by_cases hg : g' = g
  · subst hg
    exact hre.saved hC hb hr hR
  · exact h g' disk z mirror me v (hre.congr (lookup_insert_ne hg) (lookup_insert_ne hg))

/-- A deletion keeps the relation unless it deletes the mirror alone. -/
theorem RowsHold.deleted (h : RowsHold R db)
    (hd : disk.deleteRoles = none → disk.deleteState = none) :
    RowsHold R (deleteGroup disk db g) := by
  intro g' disk' y roles me ver hr
  by_cases hg : g' = g
  · subst hg
    by_cases hs : disk.deleteState = none
    · -- there is no row left
      obtain ⟨row, hro⟩ := row_of_loadGroupState hr.state
      simp only [deleteGroup, hs, if_true, lookup_erase] at hro
      cases hro
    · refine h g' disk' y roles me ver (hr.congr ?_ ?_)
      · simp only [deleteGroup, if_neg hs]
      · simp only [deleteGroup, if_neg (mt hd hs)]
  · refine h g' disk' y roles me ver (hr.congr ?_ ?_)
    · unfold deleteGroup
      dsimp only
      split_ifs
      · exact lookup_erase_ne hg
      · rfl
    · unfold deleteGroup
      dsimp only
      split_ifs
      · exact lookup_erase_ne hg
      · rfl

/-! ### Memory -/

variable {s : EncryptionState A}

theorem mirror_congr {s' : EncryptionState A} (h : s'.groupRoles.lookup g = s.groupRoles.lookup g) :
    s'.mirror g = s.mirror g := by
  unfold mirror
  rw [h]

theorem Holds.update {s' : EncryptionState A} (h : Holds R s) (g : GroupId)
    (hgr : ∀ g' ≠ g, s'.groups.lookup g' = s.groups.lookup g')
    (hr : ∀ g' ≠ g, s'.groupRoles.lookup g' = s.groupRoles.lookup g')
    (hro : ∀ db, s'.db = some db → RowsHold R db)
    (hg : ∀ y, s'.groups.lookup g = some y → R y (s'.mirror g)) : Holds R s' := by
  refine ⟨fun g' y hy => ?_, hro⟩
  by_cases hne : g' = g
  · subst hne
    exact hg y hy
  · rw [mirror_congr (hr g' hne)]
    rw [hgr g' hne] at hy
    exact h.memory g' y hy

/-- A group is taken out of the map, and the world may change. -/
theorem Holds.erase (h : Holds R s) (g : GroupId) (world : A.World) :
    Holds R { s with groups := s.groups.erase g, world } := by
  refine h.update g (fun _ hne => lookup_erase_ne hne) (fun _ _ => rfl) h.rows fun y hy => ?_
  cases (lookup_erase g s.groups).symm.trans hy

/-- A group is put back in the map. -/
theorem Holds.insert (h : Holds R s) (hR : R y (s.mirror g)) :
    Holds R { s with groups := s.groups.insert g y } := by
  refine h.update g (fun _ hne => lookup_insert_ne hne) (fun _ _ => rfl) h.rows fun z hz => ?_
  obtain rfl := HashMap.eq_of_lookup_insert hz
  exact hR

/-! ### Saving and loading -/

theorem persistGroupMutation_holds (hC : A.codec.Keeps R)
    (hro : ∀ db, s.db = some db → RowsHold R db) (hR : R y roles) {ex : ℕ}
    {fault : Option GroupAuthFault} :
    wp (persistGroupMutation g y roles ex fault disk)
      (fun _ s' => ∃ db, s' = { s with db } ∧ ∀ db', db = some db' → RowsHold R db')
      (fun _ s' => s' = s ∧ s.db ≠ none) s := by
  cases hdb : s.db with
  | none =>
    simp only [persistGroupMutation, wp_bind, wp_get, hdb]
    exact ⟨none, by rw [← hdb], by rintro _ ⟨⟩⟩
  | some db =>
    refine wp_mono (persistGroupMutation_saves hdb) ?_ ?_
    · rintro ver _ ⟨blob, rolesBlob, hb, hr, rfl⟩
      refine ⟨_, rfl, ?_⟩
      rintro _ ⟨⟩
      exact (hro db hdb).saved hC hR hb hr ver _
    · rintro e _ rfl
      exact ⟨rfl, by simp⟩

theorem persistCurrentGroupState_holds (hC : A.codec.Keeps R) (h : Holds R s) :
    leaves (persistCurrentGroupState g disk) (Holds R) s := by
  simp only [persistCurrentGroupState, wp_bind, wp_get]
  cases hy : s.groups.lookup g with
  | none => exact h
  | some y =>
    simp only [wp_bind]
    refine wp_mono (persistGroupMutation_holds hC h.rows (h.memory g y hy)) ?_ ?_
    · rintro ver _ ⟨db, rfl, hr⟩
      exact ⟨h.memory, hr⟩
    · rintro e _ ⟨rfl, -⟩
      exact h

theorem keys_ne_nil (hem : ∀ y, ¬ R y ∅) (h : R y roles) : roles.keys ≠ [] := by
  intro hnil
  have hr : roles = ∅ := AList.ext (List.map_eq_nil_iff.1 hnil)
  exact hem y (hr ▸ h)

theorem loadGroupStateFromDb_holds (hem : ∀ y, ¬ R y ∅) (h : Holds R s) :
    leaves (loadGroupStateFromDb g disk) (Holds R) s := by
  cases hdb : s.db with
  | none =>
    simp only [loadGroupStateFromDb, wp_bind, wp_get, hdb]
    exact h
  | some db =>
    refine wp_mono (load_cases hdb g disk) ?_ ?_
    · rintro r s' (⟨y, roles, me, ver, hr, -, rfl⟩ | ⟨-, rfl, -⟩)
      · have hR := h.rows db hdb g disk y roles me ver hr
        have hm : (s.install g y roles me ver).groupRoles.lookup g = some roles := by
          unfold install
          rw [if_neg (keys_ne_nil hem hR)]
          exact lookup_insert _
        refine h.update g (fun _ hne => lookup_insert_ne hne)
          (fun _ hne => lookup_groupRoles_install hne) h.rows fun z hz => ?_
        obtain rfl := HashMap.eq_of_lookup_insert hz
        rw [mirror_of_lookup hm]
        exact hR
      · exact h
    · rintro e s' ⟨rfl, -⟩
      exact h

/-- The rows are related, and so is the group that the backup holds. -/
theorem rollbackGroupState_holds (hC : A.codec.Keeps R) (hem : ∀ y, ¬ R y ∅) (h : Holds R s)
    (hR : R y (s.mirror g)) {bk : Bytes} (hb : A.codec.encodeState y = .ok bk) (disk : Disk) :
    leaves (rollbackGroupState g bk disk) (Holds R) s := by
  simp only [rollbackGroupState, wp_bind, wp_get]
  cases hdb : s.db with
  | some db =>
    simp only [wp_bind, wp_attempt]
    refine loadGroupStateFromDb_holds hem (h.update g (fun _ hne => lookup_erase_ne hne)
      (fun _ hne => lookup_erase_ne hne) (fun db' hdb' => h.rows db' (hdb.trans hdb'))
      fun z hz => ?_)
    cases (lookup_erase g s.groups).symm.trans hz
  | none =>
    cases ht : A.codec.takeState bk with
    | error e => exact h
    | ok old => exact h.insert (hC.state hb ht hR)

theorem deleteGroupStateFromDb_holds (h : Holds R s)
    (hd : disk.deleteRoles = none → disk.deleteState = none) :
    leaves (deleteGroupStateFromDb g disk) (Holds R) s := by
  simp only [deleteGroupStateFromDb, wp_bind, wp_get]
  cases hdb : s.db with
  | none => exact h
  | some db =>
    split_ifs
    · exact h
    · refine ⟨h.memory, ?_⟩
      rintro _ ⟨⟩
      exact (h.rows db hdb).deleted hd

/-! ### Operations -/

theorem mutateGroup_holds (hC : A.codec.Keeps R) (hem : ∀ y, ¬ R y ∅) (h : Holds R s)
    {op : A.State → Prog A.World A.Error (A.State × EncryptedGroupEnvelope)}
    {newRoles : Roles → Roles}
    (hop : ∀ y, s.groups.lookup g = some y → Ensures (op y) fun r => R r.1 (newRoles (s.mirror g)))
    (fault : Option GroupAuthFault) (disk : Disk) :
    leaves (mutateGroup g op newRoles fault disk) (Holds R) s := by
  simp only [mutateGroup, wp_bind, wp_okOr, wp_ofExcept]
  refine ⟨fun y hy => ⟨fun backup hb => ?_, fun _ _ => h.erase g s.world⟩, fun _ => h⟩
  have hr : ∀ world, leaves (rollbackGroupState g backup disk) (Holds R)
      { s with groups := s.groups.erase g, world } := fun world =>
    rollbackGroupState_holds hC hem (h.erase g world) (h.memory g y hy) hb disk
  simp only [call, wp_attempt, wp_within, wp_mapErr]
  rcases hx : (op y).exec s.world with ⟨e | ⟨y', msg⟩, world⟩
  · rw [wp_of_error hx]
    simp only [wp_bind]
    exact wp_mono (hr world) (fun _ _ h => h) fun _ _ h => h
  · rw [wp_of_ok hx]
    have hR : R y' (newRoles (s.mirror g)) := (hop y hy).of_exec hx
    simp only [wp_bind, wp_attempt]
    refine wp_mono (persistGroupMutation_holds hC (h.erase g world).rows hR) ?_ ?_
    · rintro ver _ ⟨db, rfl, hro⟩
      refine h.update g (fun g' hne => ?_) (fun _ hne => lookup_insert_ne hne) hro fun z hz => ?_
      · rw [lookup_insert_ne hne, lookup_erase_ne hne]
      · obtain rfl := HashMap.eq_of_lookup_insert hz
        rw [mirror_of_lookup (lookup_insert _)]
        exact hR
    · rintro e _ ⟨rfl, -⟩
      exact wp_mono (hr world) (fun _ _ h => h) fun _ _ h => h

theorem initGroup_holds (h : Holds R s) {myId : PeerId}
    (hi : ∀ y, A.init myId s.kmgState s.registry [] = .ok y →
      R y ((s.mirror g).orInsert myId .writer)) :
    leaves (initGroup g myId) (Holds R) s := by
  simp only [initGroup, wp_bind, wp_ofExcept]
  refine ⟨fun y hy => ?_, fun _ _ => h⟩
  refine h.update g (fun _ hne => lookup_insert_ne hne)
    (fun _ hne => HashMap.lookup_upsert_ne _ _ _ hne) h.rows fun z hz => ?_
  obtain rfl := HashMap.eq_of_lookup_insert hz
  rw [mirror_of_lookup (HashMap.lookup_upsert _ _ _ _)]
  exact hi _ hy

/-- A creation that is not saved loses the mirror of the group: there must be no such group, or
nothing to save to. -/
theorem createGroup_holds (hC : A.codec.Keeps R) (h : Holds R s) {myId : PeerId}
    {members : List PeerId} (hf : s.groups.lookup g = none ∨ s.db = none)
    (hc : ∀ y, A.init myId s.kmgState s.registry members = .ok y →
      Ensures (A.create y members) fun r => R r.1 (createdRoles myId members))
    (disk : Disk) :
    leaves (createGroup g myId members disk) (Holds R) s := by
  simp only [createGroup, wp_bind, wp_ofExcept, wp_modify]
  refine ⟨fun y₀ hi => ?_, fun _ _ => h⟩
  simp only [call, wp_within, wp_mapErr]
  rcases hx : (A.create y₀ members).exec s.world with ⟨e | ⟨y, msg⟩, world⟩
  · rw [wp_of_error hx]
    exact ⟨h.memory, h.rows⟩
  · rw [wp_of_ok hx]
    have hR : R y (createdRoles myId members) := (hc y₀ hi).of_exec hx
    simp only [wp_attempt]
    refine wp_mono (persistGroupMutation_holds
      (s := { s with selfIds := s.selfIds.insert g myId, world }) hC h.rows hR) ?_ ?_
    · rintro ver _ ⟨db, rfl, hr⟩
      refine h.update g (fun _ hne => lookup_insert_ne hne)
        (fun _ hne => lookup_insert_ne hne) hr fun z hz => ?_
      obtain rfl := HashMap.eq_of_lookup_insert hz
      rw [mirror_of_lookup (lookup_insert _)]
      exact hR
    · rintro e _ ⟨rfl, hs⟩
      refine h.update g (fun _ _ => rfl) (fun _ hne => lookup_erase_ne hne) h.rows fun z hz => ?_
      cases (hf.resolve_right hs).symm.trans hz

variable {member : PeerId}

theorem mutation_holds (hC : A.codec.Keeps R) (hem : ∀ y, ¬ R y ∅) (h : Holds R s) {op : Op A}
    {m : Mutation A} (hm : op.mutation = some m)
    (hop : ∀ y, s.groups.lookup m.group = some y → s.Admitted y op →
      Ensures (m.change y) fun r => R r.1 (m.newRoles (s.mirror m.group)))
    (disk : Disk) : leaves (op.run disk) (Holds R) s := by
  refine (wp_run_mutation hm h disk).2 fun y hy ha => ?_
  refine mutateGroup_holds hC hem h (fun z hz => ?_) m.fault disk
  cases hy.symm.trans hz
  exact hop y hy ha

theorem applyRoleChange_holds (hC : A.codec.Keeps R) (h : Holds R s) {actor : PeerId}
    {role : MemberRole} (hro : ∀ y, s.groups.lookup g = some y → s.isAdmin g actor →
      R y ((s.mirror g).insert member role)) :
    leaves (applyRoleChange g actor member role disk) (Holds R) s := by
  simp only [applyRoleChange, wp_bind, wp_get, wp_okOr, wp_require, h, implies_true, and_true]
  intro actorRole ha hm roles hr _ y hy
  have ham : s.isAdmin g actor := by
    unfold isAdmin
    rw [ha]
    exact hm
  have hR : R y (roles.insert member role) := mirror_of_lookup hr ▸ hro y hy ham
  refine wp_mono (persistGroupMutation_holds hC h.rows hR) ?_ ?_
  · rintro ver _ ⟨db, rfl, hrw⟩
    refine h.update g (fun _ _ => rfl) (fun _ hne => lookup_insert_ne hne) hrw fun z hz => ?_
    cases hy.symm.trans hz
    rw [mirror_of_lookup (lookup_insert _)]
    exact hR
  · rintro e _ ⟨rfl, -⟩
    exact h

/-! ### Messages -/

theorem sendMessage_holds (hC : A.codec.Keeps R) (h : Holds R s) {text : Bytes}
    (hs : ∀ y r, s.groups.lookup g = some y → A.send y text = .ok r → R r.1 (s.mirror g)) :
    leaves (sendMessage g text disk) (Holds R) s := by
  simp only [sendMessage, localIdentity, wp_bind, wp_get, wp_okOr, wp_require, wp_ofExcept,
    wp_attempt, h, implies_true, and_true]
  intro myId _ y hy _ _
  refine ⟨fun r hr => ?_, fun _ _ => h.erase g s.world⟩
  exact persistCurrentGroupState_holds hC ((h.erase g s.world).insert (hs y r hy hr))

theorem receiveMessage_holds (hC : A.codec.Keeps R) (h : Holds R s) {env : EncryptedGroupEnvelope}
    (hr : ∀ y, s.groups.lookup g = some y → Ensures (A.receive y env) fun r => R r.1 (s.mirror g)) :
    leaves (receiveMessage g env disk) (Holds R) s := by
  cases hy : s.groups.lookup g with
  | none => simpa [receiveMessage, hy] using h
  | some y =>
    rcases hx : (A.receive y env).exec s.world with ⟨e | ⟨y', out⟩, world⟩
    · refine wp_mono (receiveMessage_of_error hy hx disk) (fun _ _ hf => hf.elim) ?_
      rintro _ _ rfl
      exact h.erase g world
    · have hR : R y' (s.mirror g) := (hr y hy).of_exec hx
      exact leaves_receiveMessage hy hx
        (persistCurrentGroupState_holds hC ((h.erase g world).insert hR))

end EncryptionState

end Boru.GroupEncryption
