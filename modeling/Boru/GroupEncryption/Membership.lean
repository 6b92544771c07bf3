import Boru.GroupEncryption.Types

/-!
# Group membership

The owner-centric membership state behind the group key agreement.  Operations take effect
immediately; acknowledgements are recorded but do not gate membership.  No operation checks the
authority of its actor, and the view of the members is the same for every viewer.
-/

namespace Boru.GroupEncryption

inductive MembershipError where
  | operationNotFound
  /-- The target member is not in the group. -/
  | notMember
  /-- The acting peer lacks the role required. -/
  | notAuthorized (peer : PeerId)

/-- Whether a membership operation is an add or a remove. -/
inductive OpKind where
  | add
  | remove
  deriving DecidableEq

/-- A recorded membership operation. -/
structure OperationEntry where
  opId : OpId
  kind : OpKind
  peer : PeerId

structure MembershipState where
  /-- The authority for membership changes. -/
  owner : PeerId
  members : HashSet PeerId
  roles : Roles
  operations : List OperationEntry
  /-- The identifiers of the add operations. -/
  addOps : Finset OpId
  /-- The identifiers of the remove operations. -/
  removeOps : Finset OpId
  /-- The peers that acknowledged an operation. -/
  acks : HashMap OpId (Finset PeerId)

namespace MembershipState

/-- A group with the given owner, an implicit member, and initial members. -/
def new (owner : PeerId) (initialMembers : List PeerId) : MembershipState where
  owner := owner
  members := (HashSet.insert ∅ owner).extend initialMembers
  roles := initialMembers.foldl (fun roles m => roles.orInsert m .writer)
    (AList.insert owner .admin ∅)
  operations := []
  addOps := ∅
  removeOps := ∅
  acks := ∅

/-- The role of a member: the recorded one, else `admin` for the owner and `writer` for others. -/
def roleOf (y : MembershipState) (peer : PeerId) : Option MemberRole :=
  if peer ∈ y.members then
    (y.roles.lookup peer).orElse fun _ => some (if peer = y.owner then .admin else .writer)
  else none

def canManage (y : MembershipState) (peer : PeerId) : Bool :=
  (y.roleOf peer).any MemberRole.canManage

def setRole (y : MembershipState) (actor target : PeerId) (role : MemberRole) :
    Except MembershipError MembershipState :=
  if target ∉ y.members then .error .notMember
  else if ¬ y.canManage actor then .error (.notAuthorized actor)
  else .ok { y with roles := y.roles.insert target role }

/-- The owner, the members and their roles are the same in both states. -/
structure SameRoles (y y' : MembershipState) : Prop where
  owner : y'.owner = y.owner
  members : y'.members = y.members
  roles : y'.roles = y.roles

namespace SameRoles

theorem rfl {y : MembershipState} : SameRoles y y := ⟨Eq.refl _, Eq.refl _, Eq.refl _⟩

theorem trans {y y' y'' : MembershipState} (h : SameRoles y y') (h' : SameRoles y' y'') :
    SameRoles y y'' :=
  ⟨h'.owner.trans h.owner, h'.members.trans h.members, h'.roles.trans h.roles⟩

end SameRoles

end MembershipState

namespace Membership

/-- Create a group with ourselves as the owner. -/
def create (myId : PeerId) (initialMembers : List PeerId) : MembershipState :=
  .new myId initialMembers

variable (y : MembershipState)

/-- Record an operation of a welcome state. -/
def mergeOperation (op : OperationEntry) : MembershipState :=
  { y with
    operations := y.operations ++ [op]
    addOps := if op.kind = .add then insert op.opId y.addOps else y.addOps
    removeOps := if op.kind = .remove then insert op.opId y.removeOps else y.removeOps }

/-- Merge a welcome state, which is authoritative, into ours. -/
def fromWelcome (welcome : MembershipState) : MembershipState :=
  let members := y.members.extend welcome.members.keys
  let roles := welcome.roles.entries.foldl (fun roles e => roles.insert e.1 e.2) y.roles
  let roles : Roles := roles.insert welcome.owner .admin
  let roles := members.keys.foldl (fun roles m => roles.orInsert m .writer) roles
  -- the operations known before the merge are not recorded twice
  let fresh := welcome.operations.filter fun op => op.opId ∉ y.operations.map (·.opId)
  let merged := fresh.foldl mergeOperation { y with owner := welcome.owner, members, roles }
  { merged with
    acks := welcome.acks.entries.foldl (fun acks e => acks.upsert e.1 ∅ (· ∪ e.2)) merged.acks }

def add (y : MembershipState) (_adder added : PeerId) (operationId : OpId) : MembershipState :=
  { y with
    operations := if added ∈ y.members then y.operations
      else y.operations ++ [⟨operationId, .add, added⟩]
    members := y.members.insert added
    roles := y.roles.orInsert added .writer
    addOps := insert operationId y.addOps }

def remove (y : MembershipState) (_remover removed : PeerId) (operationId : OpId) :
    Except MembershipError MembershipState :=
  if removed ∉ y.members then .error .notMember
  else .ok { y with
    members := y.members.erase removed
    roles := y.roles.erase removed
    operations := y.operations ++ [⟨operationId, .remove, removed⟩]
    removeOps := insert operationId y.removeOps }

/-- Record that `acker` has acknowledged an operation. -/
def ack (acker : PeerId) (operationId : OpId) : Except MembershipError MembershipState :=
  if operationId ∉ y.addOps ∧ operationId ∉ y.removeOps then .error .operationNotFound
  else .ok { y with acks := y.acks.upsert operationId ∅ (insert acker) }

/-- The members visible to a viewer: the same for everyone. -/
def membersView (_viewer : PeerId) : HashSet PeerId := y.members

def isAdd (operationId : OpId) : Bool := operationId ∈ y.addOps

def isRemove (operationId : OpId) : Bool := operationId ∈ y.removeOps

/-- Acknowledgements change neither the members nor their roles. -/
theorem sameRoles_ack {y y' : MembershipState} {acker : PeerId} {op : OpId}
    (h : ack y acker op = .ok y') : y.SameRoles y' := by
  unfold ack at h
  split_ifs at h
  cases h
  exact ⟨rfl, rfl, rfl⟩

end Membership

end Boru.GroupEncryption
