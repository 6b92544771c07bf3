import Boru.GroupEncryption.EncryptionState

/-!
# Who wrote what is surfaced

One call of `receiveMessage` may process several messages: those that were queued before we joined
are processed together with the next envelope.  The event that is surfaced is the first one of this
batch, while the role check looks at the sender of the envelope now received.

`MessageGroup.firstSpeaker` reads off the state before the call which message the first event stems
from: the first one the orderer hands out that is not an acknowledgement.

## Main results

* `MessageGroup.process_head` : the first event stems from the first speaker.
* `EncryptionState.surfaces_authorised_iff` : whatever the role mirror is, surfaced plaintext was
  written by a member that may write iff the first speaker, where it is an application message, was
  sent by the sender of the envelope.
-/

namespace Boru.GroupEncryption

namespace MessageGroup

open Prog

variable {S : Suite}

variable (y : GroupState S)

variable (message : EncryptedGroupEnvelope)

/-- The messages a call processes, in order, were it not for the messages it creates itself. -/
def batch : List EncryptedGroupEnvelope :=
  if y.ratchet.isSome then
    let orderer := y.orderer.queue message
    (orderer.drain (orderer.waiting + 1)).filter fun m => !y.welcome.any fun w => w.id = m.id
  else if isCreateOrWelcome y message then [message]
  else []

/-- The first message of a batch that yields an event. -/
def firstSpeaker : Option EncryptedGroupEnvelope :=
  (batch y message).find? (speaks y)

theorem processReady_isApplication : Ensures (processReady y message) fun r =>
      ∀ ev ∈ r.2, ev.isApplication = message.isApplication := by
  unfold processReady EncryptedGroupEnvelope.isApplication
  split
  · rename_i ctl hc
    refine .andThen fun r => ?_
    dsimp only
    split
    · exact .pure (by rintro _ ⟨⟩; rw [hc]; rfl)
    · refine .pure fun ev hev => ?_
      obtain ⟨out, -, rfl⟩ := Option.map_eq_some_iff.1 hev
      rw [hc]
      rfl
  · rename_i ct gen hc
    exact .andThen fun r => .pure (by rintro _ ⟨⟩; rw [hc]; rfl)

/-- The first event of the loop stems from the first message that speaks. -/
theorem processAll_head (n : ℕ) (y : GroupState S) : Ensures (processAll n y) fun r =>
      r.2.head?.map (·.1) =
        ((y.orderer.drain n).filter fun m => !y.welcome.any fun w => w.id = m.id).find?
          (speaks y) := by
  induction n generalizing y with
  | zero => exact .pure rfl
  | succ n ih =>
    rw [processAll, OrderingState.drain]
    rcases y.orderer.nextReadyMessage with ⟨orderer, _ | message⟩
    · exact .pure rfl
    · dsimp only
      split
      · -- the welcome is skipped
        rename_i hw
        rw [List.filter_cons_of_neg (by simpa using hw)]
        exact ih { y with orderer }
      · rename_i hw
        rw [List.filter_cons_of_pos (by simpa using hw)]
        refine .bind (processReady_event { y with orderer } message) ?_
        rintro ⟨z, ev⟩ ⟨hev, hq⟩
        by_cases hs : speaks y message
        · obtain ⟨e, rfl⟩ := Option.isSome_iff_exists.1 (hev.trans hs)
          rw [List.find?_cons_of_pos hs]
          exact .andThen fun r => .pure rfl
        · -- an acknowledgement changes nothing the rest of the loop depends on
          have hsa := hq hs
          have hn : ev = none := by
            rw [Bool.not_eq_true] at hs
            exact Option.isSome_eq_false_iff.1 (hev.trans hs) |> Option.isNone_iff_eq_none.1
          have hsp : speaks z = speaks y := by
            unfold speaks
            rw [hsa.members, hsa.myId]
            rfl
          rw [List.find?_cons_of_neg hs, hn]
          refine .bind (ih z) fun r hr => .pure ?_
          rw [hsa.orderer, hsa.welcome, hsp] at hr
          exact hr

theorem processAll_isApplication (n : ℕ) (y : GroupState S) :
    Ensures (processAll n y) fun r => ∀ p ∈ r.2, p.2.isApplication = p.1.isApplication := by
  induction n generalizing y with
  | zero => exact .pure (by simp)
  | succ n ih =>
    rw [processAll]
    rcases y.orderer.nextReadyMessage with ⟨orderer, _ | message⟩
    · exact .pure (by simp)
    · dsimp only
      split
      · exact ih _
      · refine .bind (processReady_isApplication { y with orderer } message) fun r hr => ?_
        refine .bind (ih r.1) fun r' hr' => .pure ?_
        intro p hp
        rcases List.mem_append.1 hp with hp | hp
        · obtain ⟨ev, hev, rfl⟩ := Option.map_eq_some_iff.1 (Option.mem_toList.1 hp)
          exact hr ev hev
        · exact hr' p hp

/-- **The first event stems from the first speaker**, and is plaintext iff that is an application
message. -/
theorem process_head :
    Ensures (process y message) fun r => ∀ evs, r.2 = some evs →
      evs.head?.map (·.1) = firstSpeaker y message ∧
        ∀ p ∈ evs, p.2.isApplication = p.1.isApplication := by
  unfold firstSpeaker batch
  refine .andThen fun _ => ?_
  split
  · refine .bind ((processAll_head _ _).and (processAll_isApplication _ _)) ?_
    rintro r ⟨hh, ha⟩
    refine .pure ?_
    rintro _ ⟨⟩
    exact ⟨hh, ha⟩
  · split
    · -- the welcome is the only message processed
      refine .bind ((processReady_event _ message).and (processReady_isApplication _ message)) ?_
      rintro r ⟨⟨hen, -⟩, ha⟩
      refine .pure fun evs hev => ?_
      obtain ⟨ev, he, rfl⟩ := Option.map_eq_some_iff.1 hev
      have hs : speaks y message := hen.symm.trans (by rw [he]; rfl)
      rw [List.find?_cons_of_pos hs]
      refine ⟨rfl, ?_⟩
      intro p hp
      obtain rfl := List.mem_singleton.1 hp
      exact ha ev he
    · exact .pure (by rintro _ ⟨⟩)

end MessageGroup

open MessageGroup
/-! ### Surfaced plaintext -/

namespace EncryptionState

open Prog

variable {S : Suite} {codec : Codec (GroupState S)}

/-- The message the first event of a call stems from. -/
def source (y : GroupState S) (envelope : EncryptedGroupEnvelope) (world : S.World) :
    Option EncryptedGroupEnvelope :=
  match (process y envelope).exec world with
  | (.ok (_, some events), _) => events.head?.map (·.1)
  | _ => none

variable {y y' : GroupState S} {envelope m : EncryptedGroupEnvelope} {world world' : S.World}
  {rest : List (EncryptedGroupEnvelope × GroupEvent)}

theorem source_of_exec {ev : GroupEvent}
    (h : (process y envelope).exec world = (.ok (y', some ((m, ev) :: rest)), world')) :
    source y envelope world = some m := by
  unfold source
  rw [h]
  rfl

/-- Application plaintext is surfaced only if the author of that very message is a member of the
group in the resulting state with a role that can write. -/
def SurfacesAuthorised (s : EncryptionState (scheme S codec)) (g : GroupId)
    (envelope : EncryptedGroupEnvelope) (disk : Disk) : Prop :=
  ∀ plaintext id s',
    (receiveMessage g envelope disk).exec s = (.ok (some (.application plaintext id)), s') →
    ∃ y m y', s.groups.lookup g = some y ∧ source y envelope s.world = some m ∧
      s'.groups.lookup g = some y' ∧ s'.mayWrite g y' m.sender

/-- The group accepts the envelope, and its sender is a member afterwards. -/
def Delivers (y : GroupState S) (envelope : EncryptedGroupEnvelope) (world : S.World) : Prop :=
  ∃ y' events world',
    (process y envelope).exec world = (.ok (y', some events), world') ∧ envelope.sender ∈ members y'

theorem exec_receive
    {r : Except GroupError (GroupState S × Option (List (EncryptedGroupEnvelope × GroupEvent)))}
    (h : (process y envelope).exec world = (r, world')) :
    (receive y envelope).exec world = (r.map fun p => (p.1, p.2.map fun es =>
        .new (es.map (·.2)) (members y) (members p.1)), world') := by
  unfold receive
  rw [exec_bind, h]
  cases r <;> rfl

variable {g : GroupId} {pl : Bytes} {id : OpId}

/-- What a call surfaces, and from which message. -/
theorem exec_receiveMessage_application {s s' : EncryptionState (scheme S codec)}
    {disk : Disk} (hy : s.groups.lookup g = some y)
    (h : (receiveMessage g envelope disk).exec s = (.ok (some (.application pl id)), s')) :
    ∃ y' m rest world', (process y envelope).exec s.world =
        (.ok (y', some ((m, .application pl id) :: rest)), world') ∧
      s'.groups.lookup g = some y' ∧ s'.groupRoles = s.groupRoles ∧
      s.mayWrite g y' envelope.sender := by
  rcases hp : (process y envelope).exec s.world with ⟨e | ⟨y', evs⟩, world'⟩
  · exact ((wp_of_ok h).1 (receiveMessage_of_error hy (exec_receive hp) disk)).elim
  · obtain ⟨hs, hst, hr⟩ :=
      (wp_of_ok h).1 (receiveMessage_of_ok hy (exec_receive hp) disk)
    obtain ⟨hev, hw⟩ := surfaced_eq_application.1 hs.symm
    cases evs with
    | none => cases hev
    | some evs =>
      cases evs with
      | nil => cases hev
      | cons p rest =>
        obtain ⟨m, ev⟩ := p
        obtain rfl : ev = .application pl id := Option.some.inj hev
        exact ⟨y', m, rest, world', rfl, hst, hr, hw⟩

/-- The plaintext of the first event is surfaced if the sender of the envelope may write. -/
theorem exec_receiveMessage_of_mayWrite {s : EncryptionState (scheme S codec)}
    (hy : s.groups.lookup g = some y) (hp : (process y envelope).exec s.world =
      (.ok (y', some ((m, .application pl id) :: rest)), world'))
    (hw : s.mayWrite g y' envelope.sender) (disk : Disk) :
    ∃ s', (receiveMessage g envelope disk).exec s = (.ok (some (.application pl id)), s') ∧
      s'.groups.lookup g = some y' ∧ s'.groupRoles = s.groupRoles := by
  obtain ⟨r, s', hec, hr, hst, hro⟩ :=
    exists_ok_of_wp (receiveMessage_of_ok hy (exec_receive hp) disk)
  have hs : r = some (.application pl id) :=
    hr.trans (surfaced_eq_application.2 ⟨rfl, hw⟩)
  exact ⟨s', hs ▸ hec, hst, hro⟩

/-- A store with the one group `y`, in whose role mirror `reader` is a reader. -/
def withReader (codec : Codec (GroupState S)) (g : GroupId) (y : GroupState S) (world : S.World)
    (reader : PeerId) : EncryptionState (scheme S codec) where
  groups := AList.insert g y ∅
  kmgState := y.dcgka.myKeys
  registry := y.dcgka.pki
  world := world
  db := none
  groupRoles := AList.insert g (AList.insert reader .reader ∅) ∅
  selfIds := ∅
  groupVersions := ∅

section

variable (codec)

theorem memberRole_withReader (r peer : PeerId) :
    (withReader codec g y world r).memberRole g peer = if peer = r then some .reader else none := by
  have hr : (withReader codec g y world r).groupRoles.lookup g =
      some (AList.insert r .reader ∅) := AList.lookup_insert _
  unfold memberRole
  rw [hr]
  split
  next h => rw [h]; exact AList.lookup_insert _
  next h => exact AList.lookup_insert_ne h

theorem mayWrite_withReader {r peer : PeerId} (hm : peer ∈ members y') :
    (withReader codec g y world r).mayWrite g y' peer = decide (peer ≠ r) := by
  have hmem : decide (peer ∈ (scheme S codec).members y') = true :=
    decide_eq_true hm
  unfold mayWrite
  rw [memberRole_withReader, hmem]
  by_cases h : peer = r <;> simp [h, MemberRole.canWrite]

/-- Plaintext of another author is surfaced to a store that has the author as a reader. -/
theorem not_surfacesAuthorised_withReader (g : GroupId) (hp : (process y envelope).exec world =
      (.ok (y', some ((m, .application pl id) :: rest)), world'))
    (hm : envelope.sender ∈ members y') (ho : envelope.sender ≠ m.sender) :
    ¬ SurfacesAuthorised (withReader codec g y world m.sender) g envelope {} := by
  intro h
  have hy : (withReader codec g y world m.sender).groups.lookup g = some y := AList.lookup_insert _
  have hw : (withReader codec g y world m.sender).mayWrite g y' envelope.sender := by
    rw [mayWrite_withReader codec hm]
    exact decide_eq_true ho
  obtain ⟨s', hec, hsr, hro⟩ := exec_receiveMessage_of_mayWrite hy hp hw {}
  obtain ⟨y₁, m', y₁', hy₁, hs, hst, ha⟩ := h pl id s' hec
  obtain rfl : y = y₁ := Option.some.inj (hy.symm.trans hy₁)
  obtain rfl : m = m' := Option.some.inj ((source_of_exec hp).symm.trans hs)
  -- the author is a reader in the mirror, which the call has left as it was
  have hr := (mayWrite_congr hro g _ _).symm.trans ha
  simp only [mayWrite, memberRole_withReader, Bool.and_eq_true] at hr
  cases hr.2

end

/-- **Whose plaintext is surfaced.**  For a group state, an envelope and a world, every encryption
state with this group surfaces only plaintext of members that may write iff, provided the group
accepts the envelope of a member, the first message that yields an event, where it is an application
message, was sent by the sender of the envelope. -/
theorem surfaces_authorised_iff (codec : Codec (GroupState S)) (g : GroupId) (y : GroupState S)
    (envelope : EncryptedGroupEnvelope) (world : S.World) :
    (∀ s : EncryptionState (scheme S codec), s.groups.lookup g = some y →
      s.world = world → ∀ disk, SurfacesAuthorised s g envelope disk) ↔
    (Delivers y envelope world → ∀ m, firstSpeaker y envelope = some m →
      m.isApplication → m.sender = envelope.sender) := by
  constructor
  · rintro h ⟨y', events, world', hpr, hm⟩ m hf hap
    obtain ⟨hh, hen⟩ := (process_head y envelope).of_exec hpr _ rfl
    obtain ⟨⟨m', ev⟩, hp, rfl⟩ := Option.map_eq_some_iff.1 (hh.trans hf)
    obtain ⟨rest, rfl⟩ := List.head?_eq_some_iff.1 hp
    have hev : ev.isApplication := (hen _ List.mem_cons_self).trans hap
    by_contra hother
    cases ev with
    | control | removedOurselves => cases hev
    | application pl id =>
      refine not_surfacesAuthorised_withReader codec g hpr hm (Ne.symm hother) ?_
      exact h _ (AList.lookup_insert _) rfl {}
  · rintro ho s hy rfl disk pl id s' hec
    obtain ⟨y', m, rest, world', hpr, hs, hr, hw⟩ :=
      exec_receiveMessage_application hy hec
    obtain ⟨hh, hap⟩ := (process_head y envelope).of_exec hpr _ rfl
    have hm : envelope.sender ∈ members y' := by
      simp only [mayWrite, Bool.and_eq_true, decide_eq_true_eq] at hw
      exact hw.1
    have ha : m.sender = envelope.sender :=
      ho ⟨y', _, world', hpr, hm⟩ m hh.symm (hap _ List.mem_cons_self).symm
    refine ⟨y, m, y', hy, source_of_exec hpr, hs, ?_⟩
    rw [ha]
    exact (mayWrite_congr hr g y' envelope.sender).trans hw

/-! ### A removed author -/

def creation : EncryptedGroupEnvelope :=
  .newControl plainSuite.contentId ⟨1⟩ (.create [⟨0⟩, ⟨1⟩, ⟨2⟩]) [0 :: List.replicate 32 0]

/-- Peer 1 sends a message. -/
def authored : EncryptedGroupEnvelope :=
  .newApplication plainSuite.contentId ⟨1⟩ [42] 0 []

def removal : EncryptedGroupEnvelope :=
  .newControl plainSuite.contentId ⟨2⟩ (.remove ⟨1⟩) [0 :: List.replicate 32 0]

/-- The message of peer 1 arrives before the creation of the group, and waits. -/
def reordered : EncryptionState plainScheme :=
  (machine plainScheme).exec plainState
    [⟨.initGroup ⟨0⟩ ⟨0⟩, {}⟩, ⟨.receiveMessage ⟨0⟩ authored, {}⟩,
      ⟨.receiveMessage ⟨0⟩ creation, {}⟩]

/-- The removal of peer 1 is the envelope received, and the plaintext of peer 1 is surfaced. -/
theorem removal_surfaces : ((receiveMessage ⟨0⟩ removal {}).exec reordered).1.toOption =
    some (some (.application [42] authored.id)) := by
  decide +kernel

theorem source_removal : ((reordered.groups.lookup ⟨0⟩).all fun y =>
    (source (S := plainSuite) y removal reordered.world).all (·.sender = ⟨1⟩)) = true := by
  decide +kernel

theorem removal_removes : (((receiveMessage ⟨0⟩ removal {}).exec reordered).2.groups.lookup ⟨0⟩).any
    (fun y' => ((receiveMessage ⟨0⟩ removal {}).exec reordered).2.mayWrite ⟨0⟩ y' ⟨1⟩) = false := by
  decide +kernel

/-- Plaintext of a peer that is no member any more is surfaced, by the envelope that removes the
peer. -/
theorem removed_author_surfaced : ¬ SurfacesAuthorised reordered ⟨0⟩ removal {} := by
  intro h
  rcases hx : (receiveMessage ⟨0⟩ removal {}).exec reordered with ⟨r, s'⟩
  have hr : r = .ok (some (.application [42] authored.id)) := by
    have hs := removal_surfaces
    rw [hx] at hs
    cases r with
    | error => cases hs
    | ok a => exact congrArg Except.ok (Option.some.inj hs)
  obtain ⟨y, m, y', hy, hso, hy', hw⟩ := h _ _ s' (hr ▸ hx)
  have hf := (Option.all_eq_true _ _).1 source_removal y hy
  have ha : m.sender = ⟨1⟩ := of_decide_eq_true ((Option.all_eq_true _ _).1 hf m hso)
  have hre := removal_removes
  rw [hx] at hre
  rw [ha] at hw
  exact absurd hw (Bool.eq_false_iff.1 ((Option.any_eq_false _ _).1 hre y' hy'))

end EncryptionState

end Boru.GroupEncryption
