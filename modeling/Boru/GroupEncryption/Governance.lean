import Boru.GroupEncryption.Pairs

/-!
# Who can manage a group

The roles of a group are held twice: in its membership state, which names the owner, and in the role
mirror, which is consulted.  The owner is an admin in both when a group is created, and nothing else
protects this: an admin can demote or remove the owner, a welcome replaces the owner without regard
to the mirror, and a group that we join starts with ourselves as its owner and as a writer in the
mirror.

The operations of the store and those of the membership states are taken together (`Action`).  The
membership operations of received messages go through the key agreement.

## Main results

* `MembershipOp.governs_iff` : which membership operations keep the owner an admin.
* `EncryptionState.owner_manages` : in every run whose steps keep to `KeepsOwner`, the owner of each
  group is a member and an admin in both places.
* `EncryptionState.owner_unseated` : runs after which it is not.
-/

namespace Boru

namespace HashMap

variable {K V : Type*} [DecidableEq K] {m : HashMap K V} {k : K} {v : V}

theorem lookup_orInsert_of_lookup (h : m.lookup k = some v) (k' : K) (w : V) :
    (m.orInsert k' w).lookup k = some v := by
  unfold orInsert
  by_cases hk : k = k'
  · subst hk
    rw [lookup_upsert, getD, h]
    rfl
  · rw [lookup_upsert_ne m w id hk]
    exact h

theorem lookup_foldl_orInsert (h : m.lookup k = some v) {ks : List K} {w : V} :
    (ks.foldl (fun m k' => m.orInsert k' w) m).lookup k = some v := by
  induction ks generalizing m with
  | nil => exact h
  | cons k' ks ih => exact ih (lookup_orInsert_of_lookup h k' w)

end HashMap

namespace GroupEncryption

/-! ### Membership states -/

namespace MembershipState

structure Owned (y : MembershipState) : Prop where
  member : y.owner ∈ y.members
  role : y.roles.lookup y.owner = some .admin

variable {y : MembershipState}

theorem Owned.roleOf (h : y.Owned) : y.roleOf y.owner = some .admin := by
  unfold MembershipState.roleOf
  rw [if_pos h.member, h.role]
  rfl

theorem Owned.canManage (h : y.Owned) : y.canManage y.owner := by
  unfold MembershipState.canManage
  rw [h.roleOf]
  rfl

/-- Two states with the same owner, members and roles. -/
structure Agrees (y y' : MembershipState) : Prop where
  owner : y'.owner = y.owner
  members : ∀ p, p ∈ y'.members ↔ p ∈ y.members
  roles : ∀ p, y'.roles.lookup p = y.roles.lookup p

theorem Agrees.refl (y : MembershipState) : Agrees y y := ⟨rfl, fun _ => Iff.rfl, fun _ => rfl⟩

variable {y' : MembershipState}

theorem Agrees.owned (h : Agrees y y') (hy : y.Owned) : y'.Owned := by
  refine ⟨?_, ?_⟩
  · rw [h.owner, h.members]
    exact hy.member
  · rw [h.owner, h.roles]
    exact hy.role

theorem SameRoles.owned (h : SameRoles y y') (hy : y.Owned) : y'.Owned :=
  Agrees.owned ⟨h.owner, by simp [h.members], by simp [h.roles]⟩ hy

end MembershipState

namespace Membership

theorem owned_create (me : PeerId) (members : List PeerId) : (create me members).Owned :=
  ⟨mem_create.2 (.inl rfl), HashMap.lookup_foldl_orInsert (AList.lookup_insert _)⟩

variable {y : MembershipState}

theorem owned_add (h : y.Owned) (adder added : PeerId) (op : OpId) : (add y adder added op).Owned :=
  ⟨(mem_add adder).2 (.inr h.member), HashMap.lookup_orInsert_of_lookup h.role _ _⟩

variable {y' : MembershipState}

theorem owner_remove {remover removed : PeerId} {op : OpId}
    (h : remove y remover removed op = .ok y') : y'.owner = y.owner := by
  unfold remove at h
  split_ifs at h
  cases h
  rfl

theorem owned_remove_iff {remover r : PeerId} {op : OpId} (hy : y.Owned)
    (h : remove y remover r op = .ok y') :
    y'.Owned ↔ r ≠ y.owner := by
  have hmem := mem_remove h (p := y.owner)
  unfold remove at h
  split_ifs at h
  cases h
  constructor
  · intro ho
    exact (hmem.1 ho.member).1.symm
  · intro hne
    exact ⟨hmem.2 ⟨hne.symm, hy.member⟩, (AList.lookup_erase_ne hne.symm).trans hy.role⟩

theorem owner_setRole {actor target : PeerId} {role : MemberRole}
    (h : y.setRole actor target role = .ok y') : y'.owner = y.owner ∧ y.canManage actor := by
  unfold MembershipState.setRole at h
  split_ifs at h with hme hm
  cases h
  exact ⟨rfl, hm⟩

theorem owned_setRole_iff {actor t : PeerId} {role : MemberRole} (hy : y.Owned)
    (h : y.setRole actor t role = .ok y') :
    y'.Owned ↔ (t = y.owner → role = .admin) := by
  unfold MembershipState.setRole at h
  split_ifs at h
  cases h
  by_cases ht : t = y.owner
  · subst ht
    have hr : (y.roles.insert y.owner role).lookup y.owner = some role := AList.lookup_insert _
    constructor
    · intro ho _
      exact Option.some.inj (hr.symm.trans ho.role)
    · intro ha
      exact ⟨hy.member, hr.trans (congrArg some (ha rfl))⟩
  · refine iff_of_true ⟨hy.member, ?_⟩ fun h => absurd h ht
    exact (AList.lookup_insert_ne (Ne.symm ht)).trans hy.role

variable {welcome : MembershipState}

theorem owner_fromWelcome : (fromWelcome y welcome).owner = welcome.owner := by
  exact (sameRoles_mergeOperations _ _).owner

/-- The owner of a welcome becomes an admin, but need not be a member. -/
theorem owned_fromWelcome_iff :
    (fromWelcome y welcome).Owned ↔
      welcome.owner ∈ y.members ∨ welcome.owner ∈ welcome.members := by
  rw [← mem_fromWelcome]
  constructor
  · intro h
    exact owner_fromWelcome ▸ h.member
  · intro h
    refine ⟨(owner_fromWelcome).symm ▸ h, ?_⟩
    rw [owner_fromWelcome]
    unfold fromWelcome
    rw [(sameRoles_mergeOperations _ _).roles]
    exact HashMap.lookup_foldl_orInsert (AList.lookup_insert _)

end Membership

/-- The operations on a membership state. -/
inductive MembershipOp where
  | fromWelcome (welcome : MembershipState)
  | add (adder added : PeerId) (operationId : OpId)
  | remove (remover removed : PeerId) (operationId : OpId)
  | ack (acker : PeerId) (operationId : OpId)
  | setRole (actor target : PeerId) (role : MemberRole)

/-- The owner is a member and an admin, also in the role mirror. -/
def MembershipState.Governs (y : MembershipState) (roles : Roles) : Prop :=
  y.Owned ∧ roles.lookup y.owner = some .admin

namespace MembershipOp

def apply (y : MembershipState) : MembershipOp → Except MembershipError MembershipState
  | .fromWelcome welcome => .ok (Membership.fromWelcome y welcome)
  | .add adder added operationId => .ok (Membership.add y adder added operationId)
  | .remove remover removed operationId => Membership.remove y remover removed operationId
  | .ack acker operationId => Membership.ack y acker operationId
  | .setRole actor target role => y.setRole actor target role

/-- The owner of a welcome is a member, and an admin in the role mirror; the owner is not removed,
and is given no other role by a member that may do so. -/
def Keeps (y : MembershipState) (roles : Roles) : MembershipOp → Prop
  | .fromWelcome welcome => (welcome.owner ∈ y.members ∨ welcome.owner ∈ welcome.members) ∧
    roles.lookup welcome.owner = some .admin
  | .remove _ removed _ => removed ≠ y.owner
  | .setRole actor target role => y.canManage actor → target = y.owner → role = .admin
  | .add .. | .ack .. => True

/-- **Which membership operations keep the owner an admin.** -/
theorem governs_iff {y y' : MembershipState} {roles : Roles} {op : MembershipOp}
    (hy : y.Governs roles) (h : op.apply y = .ok y') :
    y'.Governs roles ↔ op.Keeps y roles := by
  obtain ⟨ho, hm⟩ := hy
  cases op with
  | fromWelcome welcome =>
    cases h
    unfold MembershipState.Governs
    rw [Membership.owned_fromWelcome_iff, Membership.owner_fromWelcome]
    exact Iff.rfl
  | add adder added oi =>
    cases h
    exact iff_of_true ⟨Membership.owned_add ho adder added oi, hm⟩ trivial
  | remove remover removed oi =>
    replace h : Membership.remove y remover removed oi = .ok y' := h
    unfold MembershipState.Governs
    rw [Membership.owned_remove_iff ho h, Membership.owner_remove h]
    exact and_iff_left hm
  | ack acker oi =>
    have hs := Membership.sameRoles_ack h
    exact iff_of_true ⟨hs.owned ho, hs.owner ▸ hm⟩ trivial
  | setRole actor target role =>
    obtain ⟨how, hma⟩ := Membership.owner_setRole h
    unfold MembershipState.Governs
    rw [Membership.owned_setRole_iff ho h, how]
    constructor
    · rintro ⟨hr, -⟩ _
      exact hr
    · intro hk
      exact ⟨hk hma, hm⟩

end MembershipOp

/-! ### Message groups -/

/-- Whether a control message may make somebody else the owner, or take the owner out of the group:
in the group of `me`, which is then owned by `me` if it is created anew. -/
def ControlMessage.unseats (me owner : PeerId) : ControlMessage → Bool
  | .remove removed => removed = owner
  | .create _ => me ≠ owner
  | .add added => added = me
  | .ack .. | .update | .addAck .. => false

def EncryptedGroupEnvelope.unseats (me owner : PeerId) (m : EncryptedGroupEnvelope) : Bool :=
  match m.content with
  | .application .. => false
  | .control control => control.unseats me owner

namespace Dcgka

variable {S : Suite} {y y' : DcgkaState S} {sender : PeerId} {seq : OpId}
  {dm : Option (Direct S)} {control : ControlMessage}
  {dgm : MembershipState} {owner : PeerId}

/-- The group has the given owner, who is a member and an admin. -/
structure Seated (owner : PeerId) (y : DcgkaState S) : Prop where
  owner : y.dgm.owner = owner
  owned : y.dgm.Owned

theorem SameRoles.seated (h : SameRoles y y') (hy : Seated owner y) : Seated owner y' :=
  ⟨h.dgm.owner.trans hy.owner, h.dgm.owned hy.owned⟩

/-- A control message leaves the owner where they are, unless it unseats them or comes with a
welcome. -/
theorem Performs.seated (h : Performs sender seq dm control y y') (hy : Seated owner y)
    (hc : control.unseats y.myId owner = false ∨ dm = none ∧ ∃ a, control = .add a) :
    Seated owner y' := by
  obtain ⟨dgm, ha, hs⟩ := h
  refine hs.seated ?_
  cases ha with
  | create members =>
    obtain hc | ⟨-, a, ⟨⟩⟩ := hc
    exact ⟨not_not.1 (of_decide_eq_false hc), Membership.owned_create y.myId members⟩
  | update | ack | addAck => exact hy
  | remove hr =>
    obtain hc | ⟨-, a, ⟨⟩⟩ := hc
    have hne : _ ≠ y.dgm.owner := hy.owner.symm ▸ of_decide_eq_false hc
    exact ⟨(Membership.owner_remove hr).trans hy.owner,
      (Membership.owned_remove_iff hy.owned hr).2 hne⟩
  | add => exact ⟨hy.owner, Membership.owned_add hy.owned sender _ seq⟩
  | welcome hdm history =>
    obtain hc | ⟨rfl, -⟩ := hc
    · exact absurd rfl (of_decide_eq_false hc)
    · cases hdm

theorem Performs.seated_of_create {members : List PeerId}
    (h : Performs sender seq dm (.create members) y y') : Seated y.myId y' := by
  obtain ⟨dgm, ha, hs⟩ := h
  cases ha
  exact hs.seated ⟨rfl, Membership.owned_create y.myId members⟩

end Dcgka

namespace MessageGroup

open Prog

variable {S : Suite}

def dgm (y : GroupState S) : MembershipState := y.dcgka.dgm

def withDgm (y : GroupState S) (dgm : MembershipState) : GroupState S :=
  { y with dcgka := { y.dcgka with dgm } }

def owner (y : GroupState S) : PeerId := (dgm y).owner

/-- The owner of a group is a member and an admin, also in the role mirror. -/
def Governed (y : GroupState S) (roles : Roles) : Prop :=
  (dgm y).Governs roles

theorem not_governed_empty (y : GroupState S) : ¬ Governed y ∅ := by
  rintro ⟨-, ⟨⟩⟩

variable {y : GroupState S}

theorem Governed.seated {roles : Roles} (h : Governed y roles) :
    Dcgka.Seated (MessageGroup.owner y) y.dcgka := ⟨rfl, h.1⟩

/-- The owner stays, and is an admin in the mirror. -/
theorem governed_of_seated {p : PeerId} {roles : Roles}
    (h : Dcgka.Seated p y.dcgka) (hr : roles.lookup p = some .admin) :
    Governed y roles := ⟨h.owned, h.owner.symm ▸ hr⟩

theorem Performs.seated {control : ControlMessage} {y' : GroupState S} {p : PeerId}
    (h : Performs control y y') (hy : Dcgka.Seated p y.dcgka)
    (hc : control.unseats y.dcgka.myId p = false ∨ ∃ added, control = .add added) :
    Dcgka.Seated p y'.dcgka := by
  obtain ⟨seq, dcgka, hs, hp⟩ := h
  refine hp.seated (hs.seated hy) ?_
  rw [hs.myId]
  exact hc.imp_right fun ha => ⟨rfl, ha⟩

theorem Performs.seated_of_create {members : List PeerId} {y' : GroupState S}
    (h : Performs (.create members) y y') : Dcgka.Seated y.dcgka.myId y'.dcgka := by
  obtain ⟨seq, dcgka, hs, hp⟩ := h
  exact hs.myId ▸ hp.seated_of_create

theorem stable_seated {me owner : PeerId} :
    Stable (S := S) (fun y => y.dcgka.myId = me ∧ Dcgka.Seated owner y.dcgka)
      (fun m => m.unseats me owner = false) where
  orderer h _ _ := h
  ack := by
    intro m hm
    unfold EncryptedGroupEnvelope.isAck at hm
    unfold EncryptedGroupEnvelope.unseats
    split
    · rfl
    · rename_i control hc
      rw [hc] at hm
      cases control <;> first | rfl | cases hm
  ready := by
    rintro y m ⟨rfl, hy⟩ hm
    refine (processReady_proceeds).mono ?_
    rintro r ⟨-, hd | ⟨control, hc, hp⟩⟩
    · rw [hd]
      exact ⟨rfl, hy⟩
    · unfold EncryptedGroupEnvelope.unseats at hm
      rw [hc] at hm
      exact ⟨hp.follows.myId, hp.seated hy (.inl hm)⟩

section Operations

variable {y : GroupState S} {roles : Roles} {member : PeerId}

/-- A role other than that of the owner is set in the mirror, or the owner is made an admin. -/
theorem Governed.insert (h : Governed y roles) {role : MemberRole}
    (hr : member = owner y → role = .admin) : Governed y (roles.insert member role) := by
  refine ⟨h.1, ?_⟩
  by_cases hm : owner y = member
  · subst hm
    rw [← hr rfl]
    exact AList.lookup_insert _
  · exact (AList.lookup_insert_ne hm).trans h.2

theorem create_governed {members : List PeerId} : Ensures (create y members) fun r =>
      Governed r.1 (EncryptionState.createdRoles y.dcgka.myId members) := by
  refine (create_performs y members).mono ?_
  rintro r ⟨ms, -, hr⟩
  exact governed_of_seated hr.seated_of_create
    (HashMap.lookup_foldl_orInsert (AList.lookup_insert _))

theorem add_governed (h : Governed y roles) (hm : member ∉ members y) :
    Ensures (add y member) fun r => Governed r.1 (roles.insert member .writer) := by
  -- the owner is in the group already
  have hne : owner y ≠ member := by
    rintro rfl
    exact hm h.1.member
  refine (add_performs y member).mono fun r hr => ?_
  exact governed_of_seated (hr.seated h.seated (.inr ⟨member, rfl⟩))
    ((AList.lookup_insert_ne hne).trans h.2)

theorem remove_governed (h : Governed y roles) (hm : member ≠ owner y) :
    Ensures (remove y member) fun r => Governed r.1 (roles.erase member) := by
  refine (remove_performs y member).mono fun r hr => ?_
  exact governed_of_seated (hr.seated h.seated (.inl (decide_eq_false hm)))
    ((AList.lookup_erase_ne hm.symm).trans h.2)

theorem update_governed (h : Governed y roles) : Ensures (update y) fun r => Governed r.1 roles :=
  (update_performs y).mono fun _ hr => governed_of_seated (hr.seated h.seated (.inl rfl)) h.2

end Operations

end MessageGroup

/-! ### The store -/

namespace EncryptionState

open Prog MessageGroup

variable {S : Suite} {codec : Codec (GroupState S)}

/-- Apply an operation to the membership state of a group. -/
def changeMembership (g : GroupId) (op : MembershipOp) : Method (scheme S codec) Outcome := do
  let s ← get
  let y ← okOr (s.groups.lookup g) (.groupNotFound g)
  let dgm' ← ofExcept .membership (op.apply (dgm y))
  set { s with groups := s.groups.insert g (withDgm y dgm') }
  pure .done

/-- The operations of the store, and those of the membership states. -/
inductive Action (S : Suite) (codec : Codec (GroupState S)) where
  | call (input : Input (scheme S codec))
  | membership (g : GroupId) (op : MembershipOp)

def Action.run : Action S codec → Method (scheme S codec) Outcome
  | .call input => input.op.run input.disk
  | .membership g op => changeMembership g op

/-- The store with direct access to the membership states. -/
def governance (S : Suite) (codec : Codec (GroupState S)) :
    Machine (EncryptionState (scheme S codec)) (Action S codec)
      (Except (EncryptionError GroupError) Outcome) :=
  ⟨fun s a => let r := a.run.exec s; (r.2, [r.1])⟩

/-- The owner of a group is an admin in the membership state and in the role mirror, so there is a
member that can manage the group. -/
structure Managed (s : EncryptionState (scheme S codec)) (g : GroupId) (y : GroupState S) :
    Prop where
  member : owner y ∈ (dgm y).members
  role : (dgm y).roleOf (owner y) = some .admin
  mirror : s.memberRole g (owner y) = some .admin
  manager : ∃ p ∈ (dgm y).members, (dgm y).canManage p ∧ s.isAdmin g p

variable {g : GroupId}

theorem memberRole_of_mirror {A : GroupScheme} {s : EncryptionState A} {p : PeerId}
    {role : MemberRole} (h : (s.mirror g).lookup p = some role) :
    s.memberRole g p = some role := by
  unfold mirror at h
  unfold memberRole
  cases hr : s.groupRoles.lookup g with
  | none =>
    rw [hr] at h
    cases h
  | some roles =>
    rw [hr] at h
    exact h

variable {s : EncryptionState (scheme S codec)}

theorem Governed.managed {y : GroupState S} (h : Governed y (s.mirror g)) : Managed s g y := by
  have hm : s.memberRole g (owner y) = some .admin := memberRole_of_mirror h.2
  refine ⟨h.1.member, h.1.roleOf, hm, owner y, h.1.member, h.1.canManage, ?_⟩
  unfold isAdmin
  rw [hm]
  rfl

/-- The steps that keep the owners admins. -/
def KeepsOwner (s : EncryptionState (scheme S codec)) : Action S codec → Prop
  | .membership g op => ∀ y : GroupState S, s.groups.lookup g = some y →
    op.Keeps (dgm y) (s.mirror g)
  | .call ⟨op, disk⟩ =>
    match op with
    -- we become the owner of a group we join, and a writer in its mirror
    | .initGroup g myId => (s.mirror g).lookup myId = some .admin
    -- a creation that cannot be saved loses the mirror, and not the group that was there before
    | .createGroup g _ _ => s.groups.lookup g = none ∨ s.db = none
    | .applyMemberRemove g member fault => ∀ y : GroupState S, s.groups.lookup g = some y →
      s.Admitted y (.applyMemberRemove g member fault) → member ≠ owner y
    | .applyRoleChange g actor member role => ∀ y : GroupState S, s.groups.lookup g = some y →
      s.isAdmin g actor → member = owner y → role = .admin
    | .receiveMessage g envelope => ∀ y : GroupState S, s.groups.lookup g = some y →
      ∀ m ∈ handled y envelope, m.unseats y.dcgka.myId (owner y) = false
    -- the state is not left behind alone
    | .deleteGroupStateFromDb _ => disk.deleteRoles = none → disk.deleteState = none
    | .withDb db | .outside _ db => RowsHold (A := scheme S codec) Governed db
    | .applyMemberJoin .. | .rotateEpoch .. | .sendMessage .. | .loadGroupStateFromDb _ => True

theorem changeMembership_holds (h : Holds (A := scheme S codec) Governed s) {op : MembershipOp}
    (hk : s.KeepsOwner (.membership g op)) :
    leaves (changeMembership g op) (Holds (A := scheme S codec) Governed) s := by
  simp only [changeMembership, wp_bind, wp_get, wp_okOr, wp_ofExcept, h, implies_true, and_true]
  intro y hy dgm hd
  exact h.insert ((MembershipOp.governs_iff (h.memory g y hy) hd).2 (hk y hy))

/-- Decoding a state or a role mirror keeps the owner, the members and the roles, if it succeeds. -/
structure KeepsRoles (codec : Codec (GroupState S)) : Prop where
  envelope : ∀ {y y' g blob}, Persistence.encodeEnvelope codec y = .ok blob →
    Persistence.decodeGroupStateBlob codec g blob = .ok y' → (dgm y).Agrees (dgm y')
  state : ∀ {y y' blob rest}, codec.encodeState y = .ok blob →
    codec.takeState blob = .ok (y', rest) → (dgm y).Agrees (dgm y')
  roles : ∀ {roles roles' blob}, codec.encodeRoles roles = .ok blob →
    codec.decodeRoles blob = .ok roles' → ∀ p, roles'.lookup p = roles.lookup p

theorem KeepsRoles.keeps (h : KeepsRoles codec) : codec.Keeps Governed := by
  have ha : ∀ {y y' : GroupState S} {roles}, (dgm y).Agrees (dgm y') → Governed y roles →
      Governed y' roles := by
    rintro y y' roles hag ⟨ho, hm⟩
    exact ⟨hag.owned ho, hag.owner.symm ▸ hm⟩
  refine ⟨fun hb hd => ha (h.envelope hb hd), fun hb hd => ha (h.state hb hd), ?_⟩
  rintro y roles roles' blob hb hd ⟨ho, hm⟩
  exact ⟨ho, (h.roles hb hd _).trans hm⟩

theorem keepsRoles_of_lawful (hC : codec.Lawful) : KeepsRoles codec where
  envelope hb hd := by
    cases (Persistence.decodeGroupStateBlob_encodeEnvelope hC hb _).symm.trans hd
    exact .refl _
  state hb hd := by
    have ht := hC.state hb []
    rw [List.append_nil] at ht
    cases ht.symm.trans hd
    exact .refl _
  roles hb hd p := by
    cases (hC.roles hb).symm.trans hd
    rfl

theorem run_holds (hC : codec.Keeps Governed) (h : Holds (A := scheme S codec) Governed s)
    {op : Op (scheme S codec)} {disk : Disk} (hk : s.KeepsOwner (.call ⟨op, disk⟩)) :
    leaves (op.run disk) (Holds (A := scheme S codec) Governed) s := by
  have hem : ∀ y : GroupState S, ¬ Governed y ∅ := not_governed_empty
  cases op with
  | initGroup g myId =>
    refine wp_map.2 (initGroup_holds h ?_)
    rintro y ⟨⟩
    exact ⟨Membership.owned_create myId [], HashMap.lookup_orInsert_of_lookup hk _ _⟩
  | createGroup g myId members =>
    refine wp_map.2 (createGroup_holds hC h hk ?_ disk)
    rintro y ⟨⟩
    exact create_governed
  | applyMemberJoin g member fault =>
    refine mutation_holds hC hem h rfl (fun y hy ha => ?_) disk
    obtain ⟨_, _, _, hm, _⟩ := ha
    exact add_governed (h.memory g y hy) hm
  | applyMemberRemove g member fault =>
    refine mutation_holds hC hem h rfl (fun y hy ha => ?_) disk
    exact remove_governed (h.memory g y hy) (hk y hy ha)
  | applyRoleChange g actor member role =>
    refine wp_map.2 (applyRoleChange_holds hC h (fun y hy ham => ?_))
    exact (h.memory g y hy).insert (hk y hy ham)
  | rotateEpoch g actor fault =>
    refine mutation_holds hC hem h rfl (fun y hy _ => ?_) disk
    exact update_governed (h.memory g y hy)
  | sendMessage g text =>
    refine wp_map.2 (sendMessage_holds hC h (fun y r hy hr => ?_))
    unfold MessageGroup.Governed MessageGroup.dgm
    rw [(MessageGroup.send_dcgka hr).1]
    exact h.memory g y hy
  | receiveMessage g env =>
    refine wp_map.2 (receiveMessage_holds hC h (fun y hy => ?_))
    have hy' := h.memory g y hy
    exact (MessageGroup.receive_stable (MessageGroup.stable_seated)
      ⟨rfl, hy'.seated⟩ (hk y hy)).mono fun _ hr => MessageGroup.governed_of_seated hr.2 hy'.2
  | loadGroupStateFromDb g => exact wp_map.2 (loadGroupStateFromDb_holds hem h)
  | deleteGroupStateFromDb g => exact wp_map.2 (deleteGroupStateFromDb_holds h hk)
  | withDb db =>
    refine wp_map.2 ⟨h.memory, ?_⟩
    rintro _ ⟨⟩
    exact hk
  | outside world db =>
    refine wp_map.2 ⟨h.memory, fun db' hdb' => ?_⟩
    obtain ⟨-, -, rfl⟩ := Option.map_eq_some_iff.1 hdb'
    exact hk

/-- **The owner of a group can manage it.**  A store starts without groups and without a database,
and what it decodes has the owner, members and roles of what was encoded.  After every run of its
operations, with any failures of the database, and of operations on the membership states, all of
which keep the owners admins: the owner of each group is a member whose role is admin, in the
membership state and in the role mirror, so there is a member that can manage the group. -/
theorem owner_manages (S : Suite) (codec : Codec (GroupState S)) (hC : KeepsRoles codec)
    (s : EncryptionState (scheme S codec)) (hgroups : s.groups = ∅) (hdb : s.db = none)
    (actions : List (Action S codec)) (hk : (governance S codec).Along KeepsOwner s actions)
    (g : GroupId) (y : GroupState S)
    (hy : ((governance S codec).exec s actions).groups.lookup g = some y) :
    Managed ((governance S codec).exec s actions) g y := by
  have hs : Holds (A := scheme S codec) Governed s := by
    refine ⟨fun g y hy => ?_, fun db h => ?_⟩
    · rw [hgroups] at hy
      cases hy
    · rw [hdb] at h
      cases h
  have hh := Machine.exec_invariant_along hk hs fun s a ha h => by
    cases a with
    | call input => exact exec_of_wp (run_holds hC.keeps h ha)
    | membership g op => exact exec_of_wp (changeMembership_holds h ha)
  exact Governed.managed (hh.memory g y hy)

/-! ### A group that is handed over -/

/-- A new store without a database. -/
noncomputable def newStore : EncryptionState (scheme plainSuite (Codec.unary _)) :=
  { storedState with db := none }

/-- We create a group with peer 1, and make it an admin in both places.  It takes the group over and
removes us. -/
noncomputable def handover : List (Action plainSuite (Codec.unary _)) :=
  [.call ⟨.createGroup ⟨0⟩ ⟨0⟩ [⟨1⟩], {}⟩,
    .membership ⟨0⟩ (.setRole ⟨0⟩ ⟨1⟩ .admin),
    .call ⟨.applyRoleChange ⟨0⟩ ⟨0⟩ ⟨1⟩ .admin, {}⟩,
    .membership ⟨0⟩ (.fromWelcome (.new ⟨1⟩ [⟨0⟩])),
    .membership ⟨0⟩ (.remove ⟨1⟩ ⟨0⟩ ⟨7⟩)]

theorem handover_manages : ∃ y, owner y = ⟨1⟩ ∧
    Managed ((governance plainSuite (Codec.unary _)).exec newStore handover) ⟨0⟩ y := by
  have ho : ∀ n ∈ [4, 5], (((governance plainSuite (Codec.unary _)).exec newStore
      (handover.take n)).groups.lookup ⟨0⟩).map owner = some ⟨1⟩ := by
    decide +kernel
  obtain ⟨y, hy, howner'⟩ := Option.map_eq_some_iff.1 (ho 5 (by decide))
  refine ⟨y, howner', owner_manages plainSuite _ (keepsRoles_of_lawful (Codec.unary_lawful _))
    newStore rfl rfl handover ⟨.inl rfl, fun _ _ _ _ => rfl, fun _ _ _ _ => rfl,
      fun _ _ => ⟨.inr (by decide), ?_⟩, fun z hz => ?_, trivial⟩ ⟨0⟩ y hy⟩
  · decide +kernel
  · obtain ⟨z', hz', howner'⟩ := Option.map_eq_some_iff.1 (ho 4 (by decide))
    obtain rfl := Option.some.inj (hz'.symm.trans hz)
    show (⟨0⟩ : PeerId) ≠ owner z'
    rw [howner']
    decide

/-! ### Groups nobody can manage -/

/-- The group is there, and none of its members can manage it. -/
def unmanaged (s : EncryptionState (scheme S codec)) (g : GroupId) : Bool :=
  (s.groups.lookup g).any fun y =>
    (dgm y).members.keys.all fun p => !((dgm y).canManage p && s.isAdmin g p)

def founding : Action plainSuite plainCodec := .call ⟨.createGroup ⟨0⟩ ⟨0⟩ [⟨1⟩], {}⟩

/-- The owner gives up their role, in the membership state or in the mirror, or is removed; or we
join a group. -/
def unseatingRuns : List (List (Action plainSuite plainCodec)) :=
  [[founding, .membership ⟨0⟩ (.setRole ⟨0⟩ ⟨0⟩ .reader)],
    [founding, .call ⟨.applyRoleChange ⟨0⟩ ⟨0⟩ ⟨0⟩ .reader, {}⟩],
    [founding, .membership ⟨0⟩ (.remove ⟨1⟩ ⟨0⟩ ⟨7⟩)],
    [.call ⟨.initGroup ⟨0⟩ ⟨0⟩, {}⟩]]

/-- Peer 1 sends a welcome to the group it does not own. -/
def takeover : List (Action plainSuite plainCodec) :=
  [founding, .membership ⟨0⟩ (.fromWelcome (.new ⟨1⟩ []))]

/-- After each of the runs nobody can manage the group; after the takeover its owner cannot. -/
theorem owner_unseated :
    (∀ actions ∈ unseatingRuns,
      unmanaged ((governance plainSuite plainCodec).exec plainState actions) ⟨0⟩) ∧
    (((governance plainSuite plainCodec).exec plainState takeover).groups.lookup ⟨0⟩).map owner =
      some ⟨1⟩ ∧
    ((governance plainSuite plainCodec).exec plainState takeover).memberRole ⟨0⟩ ⟨1⟩ =
      some .writer := by
  decide +kernel

end EncryptionState

end GroupEncryption

end Boru
