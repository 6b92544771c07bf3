import Boru.GroupEncryption.Codec

/-!
# What a failed mutation leaves behind

`applyMemberJoin`, `applyMemberRemove` and `rotateEpoch` take the group out of the map, change it
and save it.  If the group operation or the save fails they roll back: without a database to a
backup of the state, with a database to the row of the last save.  The row is not the group that was
in memory if an earlier save failed, which the message operations tolerate; and it may not be
readable.

## Main results

* `EncryptionState.rollback_keeps_iff` : a rollback restores the group iff the row, or the backup,
  is the group in memory.
* `EncryptionState.failed_mutation_keeps_iff` : in a run every failed mutation leaves its group as
  it was iff this holds whenever one fails.
-/

namespace Boru.GroupEncryption

namespace EncryptionState

open Prog Persistence MessageGroup

variable {A : GroupScheme}

/-! ### Loading -/

/-- The rows of a group can be read, and are valid. -/
structure Readable (A : GroupScheme) (g : GroupId) (db : Database) (disk : Disk) (y : A.State)
    (roles : Roles) (selfId : Option PeerId) (version : ℕ) : Prop where
  unlocked : disk.poisoned = false
  state : loadGroupState A.codec disk db g = .ok y
  mirror : (loadGroupRoles A.codec disk db g).map (·.getD (∅, none)) = .ok (roles, selfId)
  valid : validateLoadedGroupState g y roles selfId = .ok ()
  stored : loadGroupVersion disk db g = .ok version

/-- The rows of a group cannot be read, or are not valid. -/
def Unreadable (A : GroupScheme) (g : GroupId) (db : Database) (disk : Disk) : Prop :=
  ∀ y roles selfId version, ¬ Readable A g db disk y roles selfId version

/-- A group is put in memory as it was read. -/
def install (s : EncryptionState A) (g : GroupId) (y : A.State) (roles : Roles)
    (selfId : Option PeerId) (version : ℕ) :
    EncryptionState A :=
  { s with
    groups := s.groups.insert g y
    groupRoles := if roles.keys = [] then s.groupRoles else s.groupRoles.insert g roles
    selfIds := match selfId with
      | none => s.selfIds
      | some me => s.selfIds.insert g me
    groupVersions := s.groupVersions.insert g version }

variable {s : EncryptionState A} {db : Database}

/-- Loading puts in memory what the rows hold, or changes nothing. -/
theorem load_cases (hdb : s.db = some db) (g : GroupId) (disk : Disk) :
    wp (loadGroupStateFromDb g disk)
      (fun r s' => (∃ y roles me version, Readable A g db disk y roles me version ∧
          r = .loaded ∧ s' = s.install g y roles me version) ∨
        (r = .missing ∧ s' = s ∧ Unreadable A g db disk))
      (fun _ s' => s' = s ∧ Unreadable A g db disk) s := by
  simp only [loadGroupStateFromDb, wp_bind, wp_get, hdb, wp_require, true_and]
  refine ⟨fun hl => ?_, fun hl y roles me version h => ?_⟩
  · cases hs : loadGroupState A.codec disk db g with
    | error e =>
      have hnot : Unreadable A g db disk := by
        intro y roles me version h
        rw [h.state] at hs
        cases hs
      cases e
      · exact .inr ⟨rfl, rfl, hnot⟩
      all_goals exact ⟨rfl, hnot⟩
    | ok y =>
      simp only [wp_bind, wp_ofExcept, wp_pure, true_and]
      refine ⟨fun loaded hr => ⟨fun _ hv => ⟨fun version hve => .inl ?_,
        fun e he y' roles me version h => ?_⟩, fun e he y' roles me version h => ?_⟩,
        fun e he y' roles me version h => ?_⟩
      · exact ⟨y, _, _, version, ⟨by simpa using hl, hs, by rw [hr]; rfl, hv, hve⟩, rfl⟩
      · rw [h.stored] at he
        cases he
      · have hm := h.mirror
        rw [hr] at hm
        cases hs.symm.trans h.state
        have hp : loaded.getD (∅, none) = (roles, me) := Except.ok.inj hm
        have hv := h.valid
        rw [hp] at he
        rw [he] at hv
        cases hv
      · have hm := h.mirror
        rw [he] at hm
        cases hm
  · rw [h.unlocked] at hl
    exact hl (by simp)

variable {g : GroupId} {y : A.State} {roles : Roles} {version : ℕ}

/-- Rows that can be read are put in memory. -/
theorem load_of_readable (hdb : s.db = some db) {disk : Disk} {me : Option PeerId}
    (h : Readable A g db disk y roles me version) :
    wp (loadGroupStateFromDb g disk)
      (fun r s' => r = .loaded ∧ s' = s.install g y roles me version) (fun _ _ => False) s := by
  refine wp_mono (load_cases hdb g disk) ?_ ?_
  · rintro r s' (⟨y', roles', selfId', version', h', hr, rfl⟩ | ⟨-, -, hnot⟩)
    · cases h.state.symm.trans h'.state
      cases (h.mirror.symm.trans h'.mirror)
      cases h.stored.symm.trans h'.stored
      exact ⟨hr, rfl⟩
    · exact (hnot _ _ _ _ h).elim
  · rintro e s' ⟨-, hnot⟩
    exact hnot _ _ _ _ h

/-! ### Mutations -/

structure Mutation (A : GroupScheme) where
  group : GroupId
  change : A.State → Prog A.World A.Error (A.State × EncryptedGroupEnvelope)
  newRoles : Roles → Roles
  fault : Option GroupAuthFault

def Op.mutation : Op A → Option (Mutation A)
  | .applyMemberJoin g member fault =>
    some ⟨g, (A.add · member), (·.insert member .writer), fault⟩
  | .applyMemberRemove g member fault => some ⟨g, (A.remove · member), (·.erase member), fault⟩
  | .rotateEpoch g _ fault => some ⟨g, A.update, id, fault⟩
  | _ => none

/-- Whether a peer is an admin in the role mirror. -/
def isAdmin (s : EncryptionState A) (g : GroupId) (peer : PeerId) : Bool :=
  ((s.memberRole g peer).getD .writer).canManage

/-- The checks before the group with state `y` is touched. -/
def Admitted (s : EncryptionState A) (y : A.State) : Op A → Prop
  | .applyMemberJoin g member _ => ∃ myId, s.selfIds.lookup g = some myId ∧ s.isAdmin g myId ∧
    member ∉ A.members y ∧ member ≠ myId
  | .applyMemberRemove g member _ => ∃ myId, s.selfIds.lookup g = some myId ∧ s.isAdmin g myId ∧
    member ∈ A.members y ∧ member ≠ myId
  | .rotateEpoch g actor _ => s.isAdmin g actor
  | _ => False

/-- A mutation changes the group if it is admitted, and nothing otherwise. -/
theorem wp_run_mutation {op : Op A} {m : Mutation A} (hm : op.mutation = some m)
    {Q E : EncryptionState A → Prop} (hE : E s) (disk : Disk) :
    wp (op.run disk) (fun _ => Q) (fun _ => E) s ↔
      ∀ y, s.groups.lookup m.group = some y → Admitted s y op →
        wp (mutateGroup m.group m.change m.newRoles m.fault disk) (fun _ => Q) (fun _ => E) s := by
  cases op with
  | applyMemberJoin g member fault | applyMemberRemove g member fault =>
    cases hm
    simp only [Op.run, wp_map, applyMemberJoin, applyMemberRemove, localIdentity, requireAdmin,
      wp_bind, wp_get, wp_okOr, wp_require, hE, implies_true, and_true]
    constructor
    · rintro h y hy ⟨myId, hs, ha, hmem, hne⟩
      exact h myId hs ha y hy hmem hne
    · exact fun h myId hs ha y hy hmem hne => h y hy ⟨myId, hs, ha, hmem, hne⟩
  | rotateEpoch g actor fault =>
    cases hm
    simp only [Op.run, wp_map, rotateEpoch, requireAdmin, wp_bind, wp_get, wp_require, hE,
      implies_true, and_true]
    refine ⟨fun h _ _ => h, fun h ha => ?_⟩
    cases hy : s.groups.lookup g with
    | none => simpa [mutateGroup, hy] using hE
    | some y => exact h y hy ha
  | _ => cases hm

/-- The state, the role mirror and the version of a group are the same. -/
structure SameMemory (g : GroupId) (s s' : EncryptionState A) : Prop where
  groups : s'.groups.lookup g = s.groups.lookup g
  groupRoles : s'.groupRoles.lookup g = s.groupRoles.lookup g
  groupVersions : s'.groupVersions.lookup g = s.groupVersions.lookup g

section

variable (s : EncryptionState A) (g : GroupId) (y : A.State)

theorem SameMemory.refl (s : EncryptionState A) : SameMemory g s s :=
  ⟨rfl, rfl, rfl⟩

/-- If the operation is a mutation and fails, it leaves its group as it was. -/
def FailureKeeps (i : Input A) : Prop :=
  ∀ m, i.op.mutation = some m →
    ∀ e s', (i.op.run i.disk).exec s = (.error e, s') → SameMemory m.group s s'

/-! ### Rolling back -/

/-- The rows of a group can be read, and hold what is in memory. -/
def InRows (db : Database) (disk : Disk) : Prop :=
  ∃ roles selfId version, Readable A g db disk y roles selfId version ∧
    s.groupRoles.lookup g = (if roles.keys = [] then none else some roles) ∧
    s.groupVersions.lookup g = some version

/-- What a rollback reads is what is in memory: the backup decodes to the state, or the rows hold
the group. -/
def Restorable (disk : Disk) : Prop :=
  ∃ backup, A.codec.encodeState y = .ok backup ∧ match s.db with
    | none => ∃ rest, A.codec.takeState backup = .ok (y, rest)
    | some db => InRows s g y db disk

end

section

variable (hy : s.groups.lookup g = some y)

include hy

theorem not_sameMemory {s' : EncryptionState A} (h : s'.groups.lookup g = none) :
    ¬ SameMemory g s s' := by
  intro hs
  rw [hs.groups, hy] at h
  cases h

theorem sameMemory_install_iff {s₁ : EncryptionState A} {y' : A.State} {me : Option PeerId}
    (hro : s₁.groupRoles.lookup g = none) :
    SameMemory g s (s₁.install g y' roles me version) ↔ y' = y ∧
      s.groupRoles.lookup g = (if roles.keys = [] then none else some roles) ∧
      s.groupVersions.lookup g = some version := by
  have hg : (s₁.install g y' roles me version).groups.lookup g = some y' :=
    AList.lookup_insert _
  have hv : (s₁.install g y' roles me version).groupVersions.lookup g = some version :=
    AList.lookup_insert _
  have hr : (s₁.install g y' roles me version).groupRoles.lookup g =
      if roles.keys = [] then none else some roles := by
    unfold install
    split_ifs
    · exact hro
    · exact AList.lookup_insert _
  constructor
  · intro h
    refine ⟨?_, hr.symm.trans h.groupRoles |>.symm, hv.symm.trans h.groupVersions |>.symm⟩
    exact Option.some.inj (hg.symm.trans (h.groups.trans hy))
  · rintro ⟨rfl, hroles', hve⟩
    exact ⟨hg.trans hy.symm, hr.trans hroles'.symm, hv.trans hve.symm⟩

/-- Loading restores a group that was taken out iff the rows hold it. -/
theorem reload_keeps_iff {s₁ : EncryptionState A} (hdb : s₁.db = some db)
    (hg : s₁.groups.lookup g = none) (hr : s₁.groupRoles.lookup g = none) (disk : Disk) :
    leaves (loadGroupStateFromDb g disk) (SameMemory g s) s₁ ↔ InRows s g y db disk := by
  have hgo : ¬ SameMemory g s s₁ := not_sameMemory hy hg
  have hl := load_cases hdb g disk
  constructor
  · intro h
    by_contra hrows
    refine wp_absurd (wp_mono (wp_and hl h) ?_ ?_)
    · rintro r s' ⟨⟨y', roles, me, version, hre, -, rfl⟩ | ⟨-, rfl, -⟩, hs⟩
      · obtain ⟨rfl, hm, hv⟩ := (sameMemory_install_iff hy hr).1 hs
        exact hrows ⟨roles, me, version, hre, hm, hv⟩
      · exact hgo hs
    · rintro e s' ⟨⟨rfl, -⟩, hs⟩
      exact hgo hs
  · rintro ⟨roles, me, version, hre, hm, hv⟩
    refine wp_mono (load_of_readable hdb hre) ?_ fun _ _ h => h.elim
    rintro r s' ⟨-, rfl⟩
    exact (sameMemory_install_iff hy hr).2 ⟨rfl, hm, hv⟩

/-- **When a rollback restores a group.**  The group was taken out of the map before. -/
theorem rollback_keeps_iff {bk : Bytes} (hb : A.codec.encodeState y = .ok bk)
    (world : A.World) (disk : Disk) {E : EncryptionError A.Error → EncryptionState A → Prop} :
    wp (rollbackGroupState g bk disk) (fun _ s' => SameMemory g s s') E
      { s with groups := s.groups.erase g, world } ↔ Restorable s g y disk := by
  have hr : Restorable s g y disk ↔ match s.db with
      | none => ∃ rest, A.codec.takeState bk = .ok (y, rest)
      | some db => InRows s g y db disk := by
    constructor
    · rintro ⟨backup', hbackup', h⟩
      cases hbackup'.symm.trans hb
      exact h
    · exact fun h => ⟨bk, hb, h⟩
  rw [hr]
  simp only [rollbackGroupState, wp_bind, wp_get]
  cases hdb : s.db with
  | some db =>
    simp only [wp_bind, wp_attempt]
    exact reload_keeps_iff hy rfl (AList.lookup_erase g _) (AList.lookup_erase g _) disk
  | none =>
    cases ht : A.codec.takeState bk with
    | error e =>
      refine iff_of_false (not_sameMemory hy (AList.lookup_erase g s.groups)) ?_
      rintro ⟨rest, ⟨⟩⟩
    | ok p =>
      obtain ⟨old, rest⟩ := p
      have hs : ((s.groups.erase g).insert g old).lookup g = some old := AList.lookup_insert _
      constructor
      · intro h
        cases hs.symm.trans (h.groups.trans hy)
        exact ⟨rest, rfl⟩
      · rintro ⟨rest', heq⟩
        obtain ⟨rfl, -⟩ := Prod.mk.inj (Except.ok.inj heq)
        exact ⟨hs.trans hy.symm, rfl, rfl⟩

end

/-! ### Failed mutations -/

/-- The state cannot be encoded, the group operation fails, or the result cannot be saved. -/
def Fails (s : EncryptionState A) (y : A.State) (m : Mutation A) (disk : Disk) : Prop :=
  (∃ e, A.codec.encodeState y = .error e) ∨ match ((m.change y).exec s.world).1 with
    | .error _ => True
    | .ok (y', _) => ∃ db, s.db = some db ∧ (disk.poisoned ∨ ∃ e,
      saveGroupStateAndRoles A.codec disk db m.group y'
        (m.newRoles ((s.groupRoles.lookup m.group).getD ∅)) (s.selfIds.lookup m.group)
        (s.groupVersions.getD m.group 0) m.fault = .error e)

/-- A save that fails changes nothing. -/
theorem persistGroupMutation_error_iff {ex : ℕ} {fault : Option GroupAuthFault} {disk : Disk}
    {P : EncryptionState A → Prop} :
    wp (persistGroupMutation g y roles ex fault disk) (fun _ _ => True) (fun _ s' => P s')
      s ↔ ((∃ db, s.db = some db ∧ (disk.poisoned ∨ ∃ e,
        saveGroupStateAndRoles A.codec disk db g y roles (s.selfIds.lookup g) ex
          fault = .error e)) → P s) := by
  simp only [persistGroupMutation, wp_bind, wp_get]
  cases hdb : s.db with
  | none => simp
  | some db =>
    simp only [wp_bind, wp_require, wp_ofExcept, wp_modify, wp_pure, implies_true, true_and]
    constructor
    · rintro ⟨hs, hl⟩ ⟨db', hdb', hf⟩
      cases hdb'
      by_cases hp : disk.poisoned
      · exact hl (by simpa using hp)
      · obtain ⟨e, he⟩ := hf.resolve_left hp
        exact hs hp e he
    · intro h
      exact ⟨fun _ e he => h ⟨db, rfl, .inr ⟨e, he⟩⟩, fun hp => h ⟨db, rfl, .inl (not_not.1 hp)⟩⟩

theorem mutateGroup_keeps_iff (m : Mutation A) (disk : Disk) :
    wp (mutateGroup m.group m.change m.newRoles m.fault disk) (fun _ _ => True)
      (fun _ s' => SameMemory m.group s s') s ↔
      ∀ y, s.groups.lookup m.group = some y → Fails s y m disk → Restorable s m.group y disk := by
  simp only [mutateGroup, wp_bind, wp_get, wp_okOr, wp_set, wp_ofExcept, SameMemory.refl,
    implies_true, and_true]
  refine forall_congr' fun y => forall_congr' fun hy => ?_
  cases hb : A.codec.encodeState y with
  | error e =>
    -- there is no backup, and the group is gone
    have hg : ¬ SameMemory m.group s { s with groups := s.groups.erase m.group } :=
      not_sameMemory hy (AList.lookup_erase m.group s.groups)
    refine iff_of_false (fun h => hg (h.2 e rfl)) fun h => ?_
    obtain ⟨backup, hbackup', -⟩ := h (.inl ⟨e, hb⟩)
    rw [hb] at hbackup'
    cases hbackup'
  | ok backup =>
    have hr := fun w => rollback_keeps_iff (E := fun _ s' => SameMemory m.group s s')
      hy hb w disk
    unfold Fails
    simp only [Except.ok.injEq, forall_eq', reduceCtorEq, false_imp_iff, implies_true, and_true,
      hb, exists_false, false_or, call, wp_attempt, wp_within, wp_mapErr]
    rcases hx : (m.change y).exec s.world with ⟨e | ⟨y', msg⟩, w⟩
    · rw [wp_of_error hx]
      simp only [wp_bind, true_imp_iff]
      exact hr w
    · rw [wp_of_ok hx]
      simp only [wp_bind, wp_attempt, wp_modify, wp_pure, wp_throw]
      rw [persistGroupMutation_error_iff]
      exact imp_congr_right fun _ => hr w

section

variable (s : EncryptionState A) (i : Input A)

/-- If a mutation that is admitted fails, a rollback would restore its group. -/
def Recoverable : Prop :=
  ∀ m, i.op.mutation = some m → ∀ y, s.groups.lookup m.group = some y → Admitted s y i.op →
    Fails s y m i.disk → Restorable s m.group y i.disk

theorem failureKeeps_iff_recoverable : FailureKeeps s i ↔ Recoverable s i := by
  refine forall₂_congr fun m hm => ?_
  rw [forall_error_iff, wp_run_mutation hm (.refl m.group s)]
  simp only [mutateGroup_keeps_iff]
  constructor
  · exact fun h y hy ha hf => h y hy ha y hy hf
  · intro h y hy ha y' hy' hf
    cases hy.symm.trans hy'
    exact h y hy ha hf

/-- **Failed mutations keep the group exactly when it can be restored.**  Along a run, every
`applyMemberJoin`, `applyMemberRemove` and `rotateEpoch` that fails leaves the state, the role
mirror and the version of its group as they were iff, whenever one that is admitted fails, the rows
hold what is in memory and can be read (without a database: the backup decodes to the state). -/
theorem failed_mutation_keeps_iff (is : List (Input A)) :
    (machine A).Along FailureKeeps s is ↔ (machine A).Along Recoverable s is :=
  Machine.along_congr failureKeeps_iff_recoverable s is

end

/-! ### A rollback to an older row -/

/-- What holds after an operation, however it ends, holds in the next state. -/
theorem step_of_wp {P : EncryptionState A → Prop} {i : Input A}
    (h : leaves (i.op.run i.disk) P s) : P ((machine A).step s i).1 := by
  show P ((i.op.run i.disk).exec s).2
  rcases hx : (i.op.run i.disk).exec s with ⟨e | r, s'⟩
  · exact (wp_of_error hx).1 h
  · exact (wp_of_ok hx).1 h

/-- The role mirror of a group at its creation. -/
def createdRoles (myId : PeerId) (initialMembers : List PeerId) : Roles :=
  initialMembers.foldl (fun roles m => HashMap.orInsert roles m .writer)
    (AList.insert myId .admin ∅)

/-- A creation that meets no failure. -/
theorem createGroup_of_save {db' : Database} {myId : PeerId} {members : List PeerId} {y₀ : A.State}
    {msg : EncryptedGroupEnvelope} {world : A.World}
    (hdb : s.db = some db) (hi : A.init myId s.kmgState s.registry members = .ok y₀)
    (hc : (A.create y₀ members).exec s.world = (.ok (y, msg), world))
    (hs : saveGroupStateAndRoles A.codec {} db g y (createdRoles myId members)
      (some myId) 0 none = .ok (db', version)) :
    wp (createGroup g myId members {}) (fun _ s' => s' = { s with
        world
        db := some db'
        groups := s.groups.insert g y
        groupRoles := s.groupRoles.insert g (createdRoles myId members)
        selfIds := s.selfIds.insert g myId
        groupVersions := s.groupVersions.insert g version })
      (fun _ _ => False) s := by
  have hse : (s.selfIds.insert g myId).lookup g = some myId := AList.lookup_insert _
  unfold createdRoles at hs ⊢
  simp only [createGroup, wp_bind, wp_get, wp_ofExcept, wp_modify, call, wp_within, wp_mapErr,
    wp_attempt, persistGroupMutation, wp_require, hi, hdb, hse, hs, wp_of_ok hc,
    wp_pure, Except.ok.injEq, forall_eq', reduceCtorEq, false_imp_iff, implies_true, and_true,
    not_false_eq_true, not_true_eq_false]

/-- A message is sent although it cannot be saved. -/
theorem sendMessage_of_no_start {myId : PeerId} {y' : A.State} {text : Bytes}
    {msg : EncryptedGroupEnvelope} {e : Failure} (hdb : s.db = some db)
    (hse : s.selfIds.lookup g = some myId) (hy : s.groups.lookup g = some y)
    (hmem : myId ∈ A.members y) (hr : ((s.memberRole g myId).getD .writer).canWrite)
    (hsn : A.send y text = .ok (y', msg)) :
    wp (sendMessage g text { start := some e })
      (fun _ s' => s' = { s with groups := (s.groups.erase g).insert g y' })
      (fun _ _ => False) s := by
  have hs : ((s.groups.erase g).insert g y').lookup g = some y' := AList.lookup_insert _
  have hsa : ∀ roles selfId ex fault, saveGroupStateAndRoles A.codec
      { start := some e } db g y' roles selfId ex fault = .error (.io e) :=
    fun _ _ _ _ => rfl
  simp only [sendMessage, localIdentity, wp_bind, wp_get, wp_okOr, wp_require, wp_set, wp_ofExcept,
    wp_modify, wp_attempt, persistCurrentGroupState, persistGroupMutation, hse, hy, hmem, hr,
    hsn, hdb, hs, hsa, wp_pure, Option.some.injEq, Except.ok.injEq, forall_eq', reduceCtorEq,
    false_imp_iff, implies_true, and_true, not_true_eq_false]

def ownGroup : GroupState plainSuite :=
  init ⟨0⟩ () () (Membership.create ⟨0⟩ []) (OrderingState.new ⟨0⟩) {}

/-- Whether sending a message in the group advances our ratchet. -/
def sendAdvances (y : GroupState plainSuite) : Bool :=
  match send y [42] with
  | .ok (y', _) => decide (⟨0⟩ ∈ members y ∧ ⟨1⟩ ∉ members y' ∧
    y'.ratchet ≠ y.ratchet)
  | .error _ => false

theorem sendAdvances_created :
    (((create ownGroup []).exec ()).1.toOption.any fun r => sendAdvances r.1) =
      true := by
  decide +kernel

theorem exists_advanced : ∃ y msg y' msg',
    (create ownGroup []).exec () = (.ok (y, msg), ()) ∧
    send y [42] = .ok (y', msg') ∧ ⟨0⟩ ∈ members y ∧
    ⟨1⟩ ∉ members y' ∧ y'.ratchet ≠ y.ratchet := by
  have h := sendAdvances_created
  rcases hc : (create ownGroup []).exec () with ⟨e | ⟨y, msg⟩, u⟩
  · rw [hc] at h
    cases h
  · rw [hc] at h
    replace h : sendAdvances y = true := h
    unfold sendAdvances at h
    rcases hs : send y [42] with e | ⟨y', msg'⟩
    · rw [hs] at h
      cases h
    · rw [hs] at h
      exact ⟨y, msg, y', msg', rfl, hs, of_decide_eq_true h⟩

/-- We create a group, a message is sent while the database is busy, and a member cannot be added
for the same reason. -/
def busyRun : List (Input storedScheme) :=
  [⟨.createGroup ⟨0⟩ ⟨0⟩ [], {}⟩,
    ⟨.sendMessage ⟨0⟩ [42], { start := some ⟨"database is locked"⟩ }⟩,
    ⟨.applyMemberJoin ⟨0⟩ ⟨1⟩ none, { start := some ⟨"database is locked"⟩ }⟩]

/-- The rollback reloads the row from before the message: our ratchet moves back. -/
theorem rollback_to_older_row :
    ¬ (machine storedScheme).Along FailureKeeps storedState busyRun := by
  obtain ⟨y, msg, y', message', hc, hse, hmem, hnot, hne⟩ := exists_advanced
  let C := Codec.unary (GroupState plainSuite)
  obtain ⟨blob, hb⟩ : ∃ blob, encodeEnvelope C y = .ok blob := ⟨_, rfl⟩
  obtain ⟨rolesBlob, hr⟩ : ∃ blob, C.encodeRoles (createdRoles ⟨0⟩ []) = .ok blob := ⟨_, rfl⟩
  have hsa := saveGroupStateAndRoles_ok ⟨∅, ∅⟩ ⟨0⟩ hb hr (some ⟨0⟩)
  -- the creation is saved, the message is not
  have hf := step_of_wp (i := (⟨.createGroup ⟨0⟩ ⟨0⟩ [], {}⟩ : Input storedScheme))
    (wp_map.2 (wp_mono (createGroup_of_save (s := storedState) rfl rfl hc hsa)
      (fun _ _ h => h) fun _ _ h => h.elim))
  have hs := step_of_wp
    (i := (⟨.sendMessage ⟨0⟩ [42], { start := some ⟨"database is locked"⟩ }⟩ : Input storedScheme))
    (wp_map.2 (wp_mono (sendMessage_of_no_start (g := ⟨0⟩) (congrArg db hf)
      (by rw [hf]; exact AList.lookup_insert _) (by rw [hf]; exact AList.lookup_insert _)
      hmem (by rw [hf]; rfl) hse) (fun _ _ h => h) fun _ _ h => h.elim))
  rintro ⟨-, -, h, -⟩
  rw [hs, hf, failureKeeps_iff_recoverable] at h
  obtain ⟨backup, -, roles, selfId, version, hre, -⟩ := h _ rfl y' (AList.lookup_insert _)
    ⟨⟨0⟩, AList.lookup_insert _, rfl, hnot, by decide⟩ (.inr (by
      split
      · trivial
      · exact ⟨_, rfl, .inr ⟨_, rfl⟩⟩))
  have heq := hre.state.symm.trans (loadGroupState_of_row
    (Codec.unary_lawful (GroupState plainSuite)) rfl (AList.lookup_insert _) hb)
  exact hne (congrArg GroupState.ratchet (Except.ok.inj heq))

end EncryptionState

end Boru.GroupEncryption
