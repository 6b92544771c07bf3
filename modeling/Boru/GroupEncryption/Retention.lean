import Boru.GroupEncryption.EncryptionState

/-!
# What a failed message leaves behind

`sendMessage` and `receiveMessage` take the state of the group out of the map, hand it to the group
operation, and put the new state back.  The group operation consumes the state: if it fails, there
is nothing to put back.

## Main results

* `EncryptionState.err_keeps_entry_iff` : in a run every failed message leaves the entries of its
  group as they were iff the group operations of all messages succeed.
-/

namespace Boru.GroupEncryption

namespace EncryptionState

open Prog

variable {A : GroupScheme}

/-- The entries of a group are the same in both states. -/
structure SameEntry (g : GroupId) (s s' : EncryptionState A) : Prop where
  groups : s'.groups.lookup g = s.groups.lookup g
  groupRoles : s'.groupRoles.lookup g = s.groupRoles.lookup g
  selfIds : s'.selfIds.lookup g = s.selfIds.lookup g
  groupVersions : s'.groupVersions.lookup g = s.groupVersions.lookup g

theorem SameEntry.refl (g : GroupId) (s : EncryptionState A) : SameEntry g s s :=
  ⟨rfl, rfl, rfl, rfl⟩

def Op.messageGroup : Op A → Option GroupId
  | .sendMessage g _ | .receiveMessage g _ => some g
  | _ => none

variable (s : EncryptionState A)

variable (i : Input A)

/-- If the operation is a message and fails, it leaves the entries of its group as they were. -/
def ErrKeepsEntry : Prop :=
  ∀ g, i.op.messageGroup = some g →
    ∀ e s', (i.op.run i.disk).exec s = (.error e, s') → SameEntry g s s'

/-- We are a member of the group with a role that can write. -/
structure MaySend (s : EncryptionState A) (g : GroupId) (state : A.State) : Prop where
  stored : s.groups.lookup g = some state
  writer : ∃ myId, s.selfIds.lookup g = some myId ∧ myId ∈ A.members state ∧
    ((s.memberRole g myId).getD .writer).canWrite

/-- The group operation of a message succeeds on the stored state of the group. -/
def Accepts : Prop :=
  match i.op with
  | .sendMessage g plaintext => ∀ state, MaySend s g state → ∃ r, A.send state plaintext = .ok r
  | .receiveMessage g envelope => ∀ state, s.groups.lookup g = some state →
      ∃ r, ((A.receive state envelope).exec s.world).1 = .ok r
  | _ => True

/-- A stored group is lost if it is not in the map afterwards. -/
theorem not_sameEntry {g : GroupId} {s s' : EncryptionState A} {state : A.State}
    (h : s.groups.lookup g = some state) (h' : s'.groups.lookup g = none) :
    ¬ SameEntry g s s' := by
  intro hs
  rw [hs.groups, h] at h'
  cases h'

theorem sendMessage_keeps_iff (g : GroupId) (text : Bytes) (disk : Disk) :
    wp (sendMessage g text disk) (fun _ _ => True) (fun _ s' => SameEntry g s s') s ↔
      ∀ state, MaySend s g state → ∃ r, A.send state text = .ok r := by
  -- the checks leave the state as it is, so only the error of the group operation matters
  simp only [sendMessage, localIdentity, SameEntry.refl, wp_bind, wp_get, wp_okOr, wp_require,
    wp_ofExcept, wp_modify, wp_attempt, wp_pure, wp_true, implies_true, and_true, true_and]
  constructor
  · rintro h state ⟨hs, myId, hse, hmem, hro⟩
    cases hsn : A.send state text with
    | ok r => exact ⟨r, rfl⟩
    | error e =>
      have hsa := h myId hse state hs hmem hro e hsn
      exact absurd hsa (not_sameEntry hs (AList.lookup_erase g s.groups))
  · intro h myId hse state hs hmem hro e he
    obtain ⟨r, hr⟩ := h state ⟨hs, myId, hse, hmem, hro⟩
    rw [hr] at he
    cases he

theorem receiveMessage_keeps_iff (g : GroupId) (env : EncryptedGroupEnvelope) (disk : Disk) :
    wp (receiveMessage g env disk) (fun _ _ => True) (fun _ s' => SameEntry g s s') s ↔
      ∀ state, s.groups.lookup g = some state →
        ∃ r, ((A.receive state env).exec s.world).1 = .ok r := by
  cases hs : s.groups.lookup g with
  | none => simp [receiveMessage, hs]
  | some state =>
    rcases hr : (A.receive state env).exec s.world with ⟨e | ⟨state', out⟩, world⟩
    · have hl := receiveMessage_of_error hs hr disk
      constructor
      · -- the run ends both with the entry kept and with the group gone
        intro hk
        refine absurd (wp_and hk hl) ?_
        intro hb
        refine wp_absurd (wp_mono hb (fun _ _ h => h.2) ?_)
        rintro _ s' ⟨hsa, rfl⟩
        exact not_sameEntry hs (AList.lookup_erase g s.groups) hsa
      · intro h
        obtain ⟨r, hok⟩ := h state rfl
        rw [hr] at hok
        cases hok
    · have hsu := receiveMessage_of_ok hs hr disk
      refine iff_of_true (wp_mono hsu (fun _ _ _ => trivial) fun _ _ hf => hf.elim) ?_
      rintro _ ⟨⟩
      rw [hr]
      exact ⟨_, rfl⟩

theorem errKeepsEntry_iff_accepts : ErrKeepsEntry s i ↔ Accepts s i := by
  obtain ⟨op, disk⟩ := i
  unfold ErrKeepsEntry Accepts
  cases op with
  | sendMessage g text =>
    simp only [Op.messageGroup, Option.some.injEq, forall_eq', forall_error_iff, Op.run, wp_map]
    exact sendMessage_keeps_iff s g text disk
  | receiveMessage g env =>
    simp only [Op.messageGroup, Option.some.injEq, forall_eq', forall_error_iff, Op.run, wp_map]
    exact receiveMessage_keeps_iff s g env disk
  | _ => simp [Op.messageGroup]

/-- **Failed messages keep the group exactly when they do not fail in the group.**  Along a run,
every `sendMessage` and `receiveMessage` that fails leaves the entries of its group as they were
iff the group accepts every message: an error of the group operation always loses the group. -/
theorem err_keeps_entry_iff (s : EncryptionState A) (is : List (Input A)) :
    (machine A).Along ErrKeepsEntry s is ↔ (machine A).Along Accepts s is :=
  Machine.along_congr errKeepsEntry_iff_accepts s is

/-- A group with ourselves as the only member. -/
def loneGroup : EncryptionState plainScheme :=
  (machine plainScheme).exec plainState [⟨.createGroup ⟨0⟩ ⟨0⟩ [], {}⟩]

/-- An application message of a peer that was never a member. -/
def strangersMessage : EncryptedGroupEnvelope :=
  .newApplication plainSuite.contentId ⟨7⟩ [1] 0 []

/-- The established group rejects the message of a stranger: there is no ratchet for it. -/
theorem loneGroup_rejects : ((loneGroup.groups.lookup ⟨0⟩).all fun state =>
    ((plainScheme.receive state strangersMessage).exec loneGroup.world).1.toBool) = false := by
  decide +kernel

/-- An application message of a stranger removes an established group from memory. -/
theorem strangers_message_loses_group :
    ¬ (machine plainScheme).Along ErrKeepsEntry plainState
      [⟨.createGroup ⟨0⟩ ⟨0⟩ [], {}⟩, ⟨.receiveMessage ⟨0⟩ strangersMessage, {}⟩] := by
  rintro ⟨-, hl, -⟩
  have ha := (errKeepsEntry_iff_accepts loneGroup _).1 hl
  refine absurd ?_ (Bool.eq_false_iff.1 loneGroup_rejects)
  rw [Option.all_eq_true]
  intro state hs
  obtain ⟨r, hr⟩ := ha state hs
  rw [hr]
  rfl

end EncryptionState

end Boru.GroupEncryption
