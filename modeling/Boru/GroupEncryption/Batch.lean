import Boru.GroupEncryption.Authorship
import Boru.GroupEncryption.Fifo

/-!
# Events of a batch

`MessageGroup.receive` returns the events of all messages it has processed, and `receiveMessage`
passes on the first of them.  The other events are lost, and so is an application message if the
sender of the envelope now received may not write.

A batch has one event to pass on if at most one of the messages that wait is not an
acknowledgement: acknowledgements yield no event as long as we are a member, and after our removal
they only repeat it.

## Main results

* `MessageGroup.process_uniform` : the events of such a batch are all equal.
* `EncryptionState.no_event_dropped` : in a run of such calls every event is returned.
* `EncryptionState.second_event_dropped` : two messages that waited for the group to be joined, of
  which only the first is returned.
-/

namespace Boru.GroupEncryption

open MessageGroup List

/-! ### Waiting messages -/

namespace OrderingState

/-- The identifiers of the messages that are ready or pending, the welcome apart. -/
def waitingIds (y : OrderingState) : List OpId :=
  (y.ready ++ y.depsOf.keys).filter fun id => !y.isWelcome id

variable {y : OrderingState}

theorem mem_waitingIds {id : OpId} :
    id ∈ y.waitingIds ↔ (id ∈ y.ready ∨ id ∈ y.depsOf.keys) ∧ y.isWelcome id = false := by
  unfold waitingIds
  rw [mem_filter, mem_append, Bool.not_eq_true']

/-- The messages that are ready or pending, the welcome apart. -/
def waitingMessages (y : OrderingState) : List EncryptedGroupEnvelope :=
  y.waitingIds.filterMap fun id => y.messages.lookup id

/-- Whether the message stored under an identifier is not an acknowledgement. -/
def nonAck (y : OrderingState) (id : OpId) : Bool :=
  (y.messages.lookup id).any fun m => !m.isAck

/-- At most one of the messages that wait is not an acknowledgement. -/
def Lone (y : OrderingState) : Prop :=
  ∀ id ∈ y.waitingIds, ∀ id' ∈ y.waitingIds, y.nonAck id → y.nonAck id' → id = id'

instance (y : OrderingState) : Decidable y.Lone :=
  inferInstanceAs (Decidable (∀ id ∈ y.waitingIds, ∀ id' ∈ y.waitingIds, _ → _ → id = id'))

def OnlyAcks (y : OrderingState) : Prop := ∀ id ∈ y.waitingIds, y.nonAck id = false

/-- `m` was handed out from under `id`. -/
structure Taken (y y' : OrderingState) (id : OpId) (m : EncryptedGroupEnvelope) : Prop where
  waiting : id ∈ y.waitingIds
  lookup : y.messages.lookup id = some m
  messages : y'.messages = y.messages.erase id
  waitingIds : ∀ id' ∈ y'.waitingIds, id' ∈ y.waitingIds

theorem cascade_waitingIds (n : ℕ) (y : OrderingState) (key : OpId) :
    (cascade n y key).messages = y.messages ∧
      ∀ id ∈ (cascade n y key).waitingIds, id ∈ y.waitingIds := by
  refine cascade_induct
    (P := fun z => z.messages = y.messages ∧ ∀ id ∈ z.waitingIds, id ∈ y.waitingIds)
    (fun _ _ h => h) ?_ n ⟨rfl, fun _ h => h⟩ key
  rintro z dep deps ⟨hm, hsub⟩ hd
  have hde : dep ∈ z.depsOf.keys := AList.lookup_isSome.1 (by rw [hd]; rfl)
  refine ⟨hm, fun id hid => hsub id ?_⟩
  obtain ⟨hid, hw⟩ := mem_waitingIds.1 hid
  refine mem_waitingIds.2 ⟨?_, hw⟩
  rcases hid with hid | hid
  · rcases mem_append.1 hid with hid | hid
    · exact .inl hid
    · exact .inr (mem_singleton.1 hid ▸ hde)
  · rw [AList.keys_erase] at hid
    exact .inr (mem_of_mem_erase hid)

theorem popReady_taken {w : EncryptedGroupEnvelope} {y' : OrderingState} {ids : List OpId}
    {m : EncryptedGroupEnvelope} (hw : y.welcomeMessage = some w)
    (h : popReady w.id y ids = (y', some m)) : ∃ id, Taken { y with ready := ids } y' id m := by
  induction ids generalizing y with
  | nil => cases h
  | cons ni rest ih =>
    -- what is left after the first identifier is popped
    have hr : ∀ messages, ∀ id ∈ waitingIds { y with
          ready := rest, depsOf := y.depsOf.erase ni, messages },
        id ∈ waitingIds { y with ready := ni :: rest } := by
      intro messages id hid
      obtain ⟨hid, hwe⟩ := mem_waitingIds.1 hid
      refine mem_waitingIds.2 ⟨?_, hwe⟩
      rcases hid with hid | hid
      · exact .inl (mem_cons_of_mem _ hid)
      · rw [AList.keys_erase] at hid
        exact .inr (mem_of_mem_erase hid)
    have hla : ∀ id, Taken { y with ready := rest, depsOf := y.depsOf.erase ni } y' id m →
        Taken { y with ready := ni :: rest } y' id m := fun id ht =>
      ⟨hr _ id ht.waiting, ht.lookup, ht.messages,
        fun id' hid' => hr _ id' (ht.waitingIds id' hid')⟩
    rw [popReady] at h
    have hs : popReady w.id { y with ready := rest, depsOf := y.depsOf.erase ni } rest =
        (y', some m) → ∃ id, Taken { y with ready := ni :: rest } y' id m := by
      intro h
      obtain ⟨id, ht⟩ := ih (y := { y with ready := rest, depsOf := y.depsOf.erase ni }) hw h
      exact ⟨id, hla id ht⟩
    split_ifs at h with hwe
    · exact hs h
    · split at h
      · exact hs h
      · rename_i msg hl
        obtain ⟨rfl, hm⟩ := Prod.mk.inj h
        cases hm
        obtain ⟨hme, hsub⟩ := cascade_waitingIds ((y.depsOf.erase ni).keys.length + 1) { y with
            ready := rest, depsOf := y.depsOf.erase ni, messages := y.messages.erase ni }
          ni
        refine ⟨ni, mem_waitingIds.2 ⟨.inl mem_cons_self, ?_⟩, hl, hme,
          fun id hid => hr _ id (hsub id hid)⟩
        rw [Bool.eq_false_iff, Ne, isWelcome_eq_true]
        rintro ⟨w', hw', hid⟩
        cases hw.symm.trans hw'
        exact hwe hid.symm

theorem nextReadyMessage_taken {y' : OrderingState} {m : EncryptedGroupEnvelope}
    (h : y.nextReadyMessage = (y', some m)) : ∃ id, Taken y y' id m := by
  unfold nextReadyMessage at h
  split at h
  · cases h
  · rename_i w hw
    exact popReady_taken hw h

namespace Taken

variable {y y' : OrderingState} {id : OpId} {m : EncryptedGroupEnvelope}

variable (h : Taken y y' id m)

include h

theorem mem_waitingMessages : m ∈ y.waitingMessages :=
  mem_filterMap.2 ⟨id, h.waiting, h.lookup⟩

theorem lookup_of_lookup {id' : OpId} {m' : EncryptedGroupEnvelope}
    (h' : y'.messages.lookup id' = some m') : id' ≠ id ∧ y.messages.lookup id' = some m' := by
  rw [h.messages] at h'
  have hne : id' ≠ id := by
    rintro rfl
    rw [AList.lookup_erase] at h'
    cases h'
  rw [AList.lookup_erase_ne hne] at h'
  exact ⟨hne, h'⟩

theorem waitingMessages_subset : ∀ m' ∈ y'.waitingMessages, m' ∈ y.waitingMessages := by
  intro m' hm'
  obtain ⟨id', hid', hl⟩ := mem_filterMap.1 hm'
  exact mem_filterMap.2 ⟨id', h.waitingIds id' hid', (h.lookup_of_lookup hl).2⟩

theorem nonAck_of_nonAck {id' : OpId} (h' : y'.nonAck id') : id' ≠ id ∧ y.nonAck id' := by
  obtain ⟨m', hm', ha⟩ := (Option.any_eq_true _ _).1 h'
  obtain ⟨hne, hl⟩ := h.lookup_of_lookup hm'
  exact ⟨hne, (Option.any_eq_true _ _).2 ⟨m', hl, ha⟩⟩

theorem lone (hl : y.Lone) : y'.Lone := fun a ha b hb hna hnb =>
  hl a (h.waitingIds a ha) b (h.waitingIds b hb) (h.nonAck_of_nonAck hna).2
    (h.nonAck_of_nonAck hnb).2

theorem onlyAcks (ho : y.OnlyAcks) : y'.OnlyAcks := by
  intro a ha
  rw [Bool.eq_false_iff]
  intro hna
  have := ho a (h.waitingIds a ha)
  rw [(h.nonAck_of_nonAck hna).2] at this
  cases this

/-- Once the only message that is not an acknowledgement is taken, only those are left. -/
theorem onlyAcks_of_lone (hl : y.Lone) (hm : ¬ m.isAck) : y'.OnlyAcks := by
  intro a ha
  rw [Bool.eq_false_iff]
  intro hna
  obtain ⟨hne, hna⟩ := h.nonAck_of_nonAck hna
  have hid : y.nonAck id := (Option.any_eq_true _ _).2 ⟨m, h.lookup, by simpa using hm⟩
  exact hne (hl a (h.waitingIds a ha) id h.waiting hna hid)

theorem isAck_of_onlyAcks (ho : y.OnlyAcks) : m.isAck := by
  have hid := ho id h.waiting
  unfold nonAck at hid
  rw [h.lookup] at hid
  simpa using hid

end Taken

end OrderingState

namespace MessageGroup

open Prog OrderingState

variable {S : Suite}

theorem StoresAck.onlyAcks {o o' : OrderingState} (h : StoresAck o o') (ho : o.OnlyAcks) :
    o'.OnlyAcks := by
  rcases h with rfl | ⟨answer, ha, rfl⟩
  · exact ho
  · intro id hid
    have hol := ho id hid
    unfold nonAck at hol ⊢
    by_cases hne : id = answer.id
    · rw [hne]
      simp [ha]
    · rwa [AList.lookup_insert_ne hne]

/-! ### The events of a batch -/

/-- All events are equal; an application message among them leaves the members as they were and
was waiting. -/
structure Uniform (y : GroupState S)
    (r : GroupState S × List (EncryptedGroupEnvelope × GroupEvent)) : Prop where
  equal : ∀ p ∈ r.2, ∀ q ∈ r.2, p.2 = q.2
  application : ∀ p ∈ r.2, p.2.isApplication →
    members r.1 = members y ∧ p.1 ∈ y.orderer.waitingMessages

/-- Acknowledgements yield no event, except that they repeat our removal. -/
theorem processAll_onlyAcks (n : ℕ) (y : GroupState S) (ho : y.orderer.OnlyAcks) :
    Ensures (processAll n y) fun r => members r.1 = members y ∧
      ∀ p ∈ r.2, y.myId ∉ members y ∧ p.2 = .removedOurselves := by
  induction n generalizing y with
  | zero => exact .pure ⟨rfl, by simp⟩
  | succ n ih =>
    rw [processAll]
    rcases hn : y.orderer.nextReadyMessage with ⟨orderer, _ | msg⟩
    · exact .pure ⟨rfl, by simp⟩
    · obtain ⟨id, ht⟩ := nextReadyMessage_taken hn
      dsimp only
      split
      · exact ih { y with orderer } (ht.onlyAcks ho)
      · refine .bind (processReady_of_isAck { y with orderer } (ht.isAck_of_onlyAcks ho)) ?_
        rintro ⟨z, ev⟩ ⟨hs, rfl⟩
        refine .bind (ih z (hs.orderer ▸ ht.onlyAcks ho)) ?_
        rintro r ⟨hm, hr⟩
        rw [hs.myId, hs.members] at hr
        refine .pure ⟨hm.trans hs.members, fun p hp => ?_⟩
        rcases mem_append.1 hp with hp | hp
        · split_ifs at hp with hmem
          · cases hp
          · obtain rfl := mem_singleton.1 hp
            exact ⟨hmem, rfl⟩
        · exact hr p hp

theorem processAll_member (n : ℕ) (y : GroupState S) (hmem : y.myId ∈ members y)
    (ho : y.orderer.OnlyAcks) :
    Ensures (processAll n y) fun r => r.2 = [] ∧ members r.1 = members y :=
  (processAll_onlyAcks n y ho).mono fun _ h =>
    ⟨eq_nil_iff_forall_not_mem.2 fun p hp => (h.2 p hp).1 hmem, h.1⟩

variable {y : GroupState S}

/-- An application message, and then acknowledgements only. -/
theorem uniform_of_application {n : ℕ} {z : GroupState S} {msg : EncryptedGroupEnvelope}
    {ev : Option GroupEvent} (hw : msg ∈ y.orderer.waitingMessages) (hm : members z = members y)
    (hre : Ensures (processAll n z) fun r => r.2 = [] ∧ members r.1 = members z) :
    Ensures (do
      let (y, events) ← processAll n z
      pure (y, (ev.map fun e => (msg, e)).toList ++ events)) (Uniform y) := by
  refine .bind hre ?_
  rintro r ⟨hr, hr'⟩
  refine .pure ?_
  simp only [hr]
  cases ev with
  | none => exact ⟨by simp, by simp⟩
  | some e =>
    refine ⟨by simp, fun p hp _ => ⟨hr'.trans hm, ?_⟩⟩
    obtain rfl := mem_singleton.1 hp
    exact hw

/-- A control message that is not an acknowledgement, and then acknowledgements only. -/
theorem uniform_of_control {n : ℕ} {z : GroupState S} {msg : EncryptedGroupEnvelope}
    {ev : Option GroupEvent} (ho : z.orderer.OnlyAcks)
    (hre : z.myId ∉ members z → ev = some .removedOurselves)
    (hev : ∀ e, ev = some e → e.isApplication = false) :
    Ensures (do
      let (y, events) ← processAll n z
      pure (y, (ev.map fun e => (msg, e)).toList ++ events)) (Uniform y) := by
  by_cases hmem : z.myId ∈ members z
  · refine .bind (processAll_member n z hmem ho) ?_
    rintro r ⟨hr, -⟩
    refine .pure ?_
    simp only [hr]
    cases ev with
    | none => exact ⟨by simp, by simp⟩
    | some e =>
      refine ⟨by simp, fun p hp ha => ?_⟩
      obtain rfl := mem_singleton.1 hp
      rw [hev e rfl] at ha
      cases ha
  · refine .bind (processAll_onlyAcks n z ho) fun r hr => .pure ?_
    have hall : ∀ p ∈ ((ev.map fun e => (msg, e)).toList ++ r.2),
        p.2 = .removedOurselves := by
      intro p hp
      rw [hre hmem] at hp
      rcases mem_cons.1 hp with rfl | hp
      · rfl
      · exact (hr.2 p hp).2
    refine ⟨fun p hp q hq => (hall p hp).trans (hall q hq).symm, fun p hp ha => ?_⟩
    rw [hall p hp] at ha
    cases ha

variable (n : ℕ)

/-- The loop of a member with one message that is not an acknowledgement. -/
theorem processAll_lone (y : GroupState S) (hmem : y.myId ∈ members y) (hl : y.orderer.Lone) :
    Ensures (processAll n y) (Uniform y) := by
  induction n generalizing y with
  | zero => exact .pure ⟨by simp, by simp⟩
  | succ n ih =>
    rw [processAll]
    rcases hn : y.orderer.nextReadyMessage with ⟨orderer, _ | msg⟩
    · exact .pure ⟨by simp, by simp⟩
    · obtain ⟨id, ht⟩ := nextReadyMessage_taken hn
      -- what holds of the rest of the loop
      have hla : ∀ z : GroupState S, z.orderer = orderer → members z = members y →
          ∀ r, Uniform z r → Uniform y r := by
        rintro z rfl hz r hr
        exact ⟨hr.equal, fun p hp ha => ⟨(hr.application p hp ha).1.trans hz,
          ht.waitingMessages_subset _ (hr.application p hp ha).2⟩⟩
      dsimp only
      split
      · exact (ih { y with orderer } hmem (ht.lone hl)).mono (hla _ rfl rfl)
      · by_cases hac : msg.isAck
        · refine .bind (processReady_of_isAck { y with orderer } hac) ?_
          rintro ⟨z, ev⟩ ⟨hsa, hev⟩
          have hz : z.myId ∈ members z := by
            rw [hsa.myId, hsa.members]
            exact hmem
          refine .bind (ih z hz (hsa.orderer ▸ ht.lone hl)) fun r hr => .pure ?_
          have hno : ev = none := hev.trans (if_pos hmem)
          rw [hno]
          exact hla z hsa.orderer hsa.members r hr
        · have ho := ht.onlyAcks_of_lone hl hac
          by_cases ha : msg.isApplication
          · refine .bind (processReady_of_isApplication { y with orderer } ha) ?_
            rintro ⟨z, ev⟩ hsa
            have hz : z.myId ∈ members z := by
              rw [hsa.myId, hsa.members]
              exact hmem
            exact uniform_of_application ht.mem_waitingMessages hsa.members
              (processAll_member n z hz (hsa.orderer ▸ ho))
          · refine .bind ((processReady_of_control { y with orderer } ha).and
              (processReady_isApplication { y with orderer } msg)) ?_
            rintro ⟨z, ev⟩ ⟨⟨hs, hre⟩, hev⟩
            refine uniform_of_control (hs.onlyAcks ho) hre fun e he => ?_
            rw [hev e he]
            exact Bool.eq_false_iff.2 ha

/-- Nothing waits: the loop ends at once. -/
theorem processAll_idle (h : y.orderer.waiting = 0) :
    Ensures (processAll n y) fun r => r.2 = [] ∧ members r.1 = members y := by
  cases n with
  | zero => exact .pure ⟨rfl, rfl⟩
  | succ n =>
    rw [processAll]
    rcases hn : y.orderer.nextReadyMessage with ⟨orderer, _ | msg⟩
    · exact .pure ⟨rfl, rfl⟩
    · have := waiting_nextReadyMessage_lt hn
      omega

theorem processAll_single (h : y.orderer.waiting ≤ 1) : Ensures (processAll n y) (Uniform y) := by
  cases n with
  | zero => exact .pure ⟨by simp, by simp⟩
  | succ n =>
    rw [processAll]
    rcases hn : y.orderer.nextReadyMessage with ⟨orderer, _ | msg⟩
    · exact .pure ⟨by simp, by simp⟩
    · obtain ⟨id, ht⟩ := nextReadyMessage_taken hn
      have hz : orderer.waiting = 0 := by
        have := waiting_nextReadyMessage_lt hn
        omega
      dsimp only
      split
      · refine (processAll_idle n (y := { y with orderer }) hz).mono ?_
        rintro r ⟨hr, -⟩
        exact ⟨by simp [hr], by simp [hr]⟩
      · by_cases ha : msg.isApplication
        · refine .bind ((processReady_of_isApplication { y with orderer } ha).and
            (processReady_waiting { y with orderer } msg)) ?_
          rintro ⟨z, ev⟩ ⟨hs, hw⟩
          exact uniform_of_application ht.mem_waitingMessages hs.members
            (processAll_idle n (hw.trans hz))
        · refine .bind ((processReady_waiting { y with orderer } msg).and
            (processReady_isApplication { y with orderer } msg)) ?_
          rintro ⟨z, ev⟩ ⟨hw, hev⟩
          refine .bind (processAll_idle n (y := z) (hw.trans hz)) ?_
          rintro r ⟨hr, -⟩
          refine .pure ?_
          simp only [hr]
          cases ev with
          | none => exact ⟨by simp, by simp⟩
          | some e =>
            refine ⟨by simp, fun p hp hp' => ?_⟩
            obtain rfl := mem_singleton.1 hp
            rw [hev e rfl] at hp'
            exact absurd hp' ha

/-- The batch of an envelope has one event: at most one of the messages that wait is not an
acknowledgement, and if we are no member there is only one of them. -/
def Single (y : GroupState S) (envelope : EncryptedGroupEnvelope) : Prop :=
  if y.myId ∈ members y then (y.orderer.queue envelope).Lone
  else (y.orderer.queue envelope).waiting ≤ 1

instance (y : GroupState S) (envelope : EncryptedGroupEnvelope) : Decidable (Single y envelope) :=
  inferInstanceAs (Decidable (ite _ _ _))

/-- **One event to pass on.** -/
theorem process_uniform {env : EncryptedGroupEnvelope} (h : Single y env) :
    Ensures (process y env) fun r => ∀ evs, r.2 = some evs →
      Uniform { y with orderer := y.orderer.queue env } (r.1, evs) := by
  have hl : ∀ n, Ensures (processAll n { y with orderer := y.orderer.queue env })
      (Uniform { y with orderer := y.orderer.queue env }) := by
    intro n
    unfold Single at h
    split_ifs at h with hmem
    · exact processAll_lone n _ hmem h
    · exact processAll_single n h
  refine .andThen fun _ => ?_
  split
  · refine .bind (hl _) fun r hr => .pure ?_
    rintro _ ⟨⟩
    exact hr
  · split
    · rename_i hj
      -- the message that lets us join is a control message
      refine .bind (processReady_isApplication _ env) fun r hr =>
        .pure fun evs hev => ?_
      obtain ⟨ev, he, rfl⟩ := Option.map_eq_some_iff.1 hev
      refine ⟨by simp, fun p hp hp' => ?_⟩
      obtain rfl := mem_singleton.1 hp
      rw [hr ev he] at hp'
      unfold isCreateOrWelcome at hj
      unfold EncryptedGroupEnvelope.isApplication at hp'
      split at hp' <;> simp_all
    · exact .pure (by rintro _ ⟨⟩)

end MessageGroup

/-! ### Runs -/

namespace EncryptionState

open Prog

variable {S : Suite} {codec : Codec (GroupState S)}

/-- Receive envelopes of one group, with the outcomes of the accesses to the database. -/
def receiving (A : GroupScheme) (g : GroupId) :
    Machine (EncryptionState A) (EncryptedGroupEnvelope × Disk)
      (Except (EncryptionError A.Error) (Option GroupEvent)) :=
  ⟨fun s i => let r := (receiveMessage g i.1 i.2).exec s; (r.2, [r.1])⟩

/-- A call outputs the event; if it is application plaintext, its author is a member of the
resulting group that may write. -/
def Due (s : EncryptionState (scheme S codec)) (g : GroupId)
    (envelope : EncryptedGroupEnvelope) (event : GroupEvent) : Prop :=
  ∃ y y' events world' m, s.groups.lookup g = some y ∧
    (process y envelope).exec s.world = (.ok (y', some events), world') ∧
    (m, event) ∈ events ∧ (event.isApplication → s.mayWrite g y' m.sender)

/-- Every event that is due in some call of a run is returned by some call of the run. -/
def NoEventDropped (s : EncryptionState (scheme S codec)) (g : GroupId)
    (is : List (EncryptedGroupEnvelope × Disk)) : Prop :=
  ∀ pre i post, is = pre ++ i :: post → ∀ event,
    Due ((receiving _ g).exec s pre) g i.1 event → .ok (some event) ∈ (receiving _ g).trace s is

variable {s : EncryptionState (scheme S codec)} {g : GroupId}

def stored (s : EncryptionState (scheme S codec)) (g : GroupId) :
    Option (GroupState S) := s.groups.lookup g

/-- The batch of the call has one event, and the sender of the envelope may write if the author of
an application message that waits may. -/
def Unbatched (g : GroupId) (s : EncryptionState (scheme S codec))
    (i : EncryptedGroupEnvelope × Disk) : Prop :=
  ∀ y ∈ s.stored g, MessageGroup.Single y i.1 ∧
    ∀ m ∈ (y.orderer.queue i.1).waitingMessages, m.isApplication →
      s.mayWrite g y m.sender → s.mayWrite g y i.1.sender

instance (g : GroupId) (s : EncryptionState (scheme S codec))
    (i : EncryptedGroupEnvelope × Disk) : Decidable (Unbatched g s i) :=
  inferInstanceAs (Decidable (∀ y ∈ s.stored g, MessageGroup.Single y i.1 ∧
    ∀ m ∈ (y.orderer.queue i.1).waitingMessages, m.isApplication →
      s.mayWrite g y m.sender → s.mayWrite g y i.1.sender))

theorem mayWrite_of_members {y y' : GroupState S} (h : members y' = members y) (peer : PeerId) :
    s.mayWrite g y' peer = s.mayWrite g y peer := by
  have hm : (scheme S codec).members y' =
      (scheme S codec).members y := h
  unfold mayWrite
  rw [hm]

theorem returned_of_due {i : EncryptedGroupEnvelope × Disk} (hi : Unbatched g s i)
    {event : GroupEvent} (hd : Due s g i.1 event) :
    ((receiveMessage g i.1 i.2).exec s).1 = .ok (some event) := by
  obtain ⟨y, y', evs, world', m, hy, hp, hmem, hwr⟩ := hd
  obtain ⟨hsi, ha⟩ := hi y hy
  have hu := (process_uniform hsi).of_exec hp evs rfl
  have hk := ((process_head y i.1).of_exec hp evs rfl).2 _ hmem
  have hh : (evs.map (·.2)).head? = some event := by
    cases evs with
    | nil => cases hmem
    | cons p rest => exact congrArg some (hu.equal p mem_cons_self _ hmem)
  obtain ⟨r, s', hec, hr, -⟩ :=
    exists_ok_of_wp (receiveMessage_of_ok hy (exec_receive hp) i.2)
  have hs : s.surfaced g y' i.1.sender (some event) = some event := by
    unfold surfaced
    by_cases hap : event.isApplication
    · obtain ⟨hm, hw⟩ := hu.application _ hmem hap
      change members y' = members y at hm
      have hse : s.mayWrite g y' i.1.sender := by
        rw [mayWrite_of_members hm]
        refine ha m hw (hk.symm.trans hap) ?_
        rw [← mayWrite_of_members hm]
        exact hwr hap
      simp [hse]
    · simp [hap]
  rw [hec]
  refine congrArg Except.ok (hr.trans ?_)
  show s.surfaced g y' i.1.sender (evs.map (·.2)).head? = some event
  rw [hh]
  exact hs

/-- **No event is dropped** in a run of calls whose batches have one event each. -/
theorem no_event_dropped (s : EncryptionState (scheme S codec)) (g : GroupId)
    (is : List (EncryptedGroupEnvelope × Disk)) (h : (receiving _ g).Along (Unbatched g) s is) :
    NoEventDropped s g is := by
  rintro pre i post rfl ev hd
  obtain ⟨-, hi, -⟩ := Machine.along_append.1 h
  rw [Machine.trace_append]
  refine mem_append_right _ (mem_append_left _ ?_)
  exact mem_singleton.2 (returned_of_due hi hd).symm

/-! ### A group that is joined late -/

def expecting : EncryptionState (scheme plainSuite plainCodec) :=
  (machine plainScheme).exec plainState [⟨.initGroup ⟨0⟩ ⟨0⟩, {}⟩]

/-- The creation of the group arrives before the message of its creator. -/
theorem creation_then_message :
    @NoEventDropped plainSuite plainCodec expecting ⟨0⟩ [(creation, {}), (authored, {})] :=
  no_event_dropped expecting ⟨0⟩ [(creation, {}), (authored, {})] (by decide +kernel)

/-- Peer 1 sends a second message. -/
def authoredNext : EncryptedGroupEnvelope :=
  .newApplication plainSuite.contentId ⟨1⟩ [43] 1 []

/-- Whether the events of a call on the group are the plaintexts of the two messages, with peer 1 as
a writer. -/
def outputsBoth (s : EncryptionState plainScheme) (y : GroupState plainSuite) : Bool :=
  match ((process y authoredNext).exec s.world).1 with
  | .ok (y', some events) =>
    decide (events = [(authored, .application [42] authored.id),
      (authoredNext, .application [43] authoredNext.id)]) && s.mayWrite ⟨0⟩ y' ⟨1⟩
  | _ => false

theorem outputsBoth_reordered :
    ((reordered.groups.lookup ⟨0⟩).any fun y => outputsBoth reordered y) = true := by
  decide +kernel

/-- The first message of peer 1 arrived before the creation of the group and waits; when the second
one arrives both are decrypted, and only the first is returned. -/
theorem second_event_dropped :
    ¬ @NoEventDropped plainSuite plainCodec reordered ⟨0⟩ [(authoredNext, {})] := by
  intro h
  obtain ⟨y, hy, hb⟩ := (Option.any_eq_true _ _).1 outputsBoth_reordered
  have hd : @Due plainSuite plainCodec reordered ⟨0⟩ authoredNext
      (.application [43] authoredNext.id) := by
    unfold outputsBoth at hb
    rcases hp : (process y authoredNext).exec reordered.world with ⟨r, w'⟩
    rw [hp] at hb
    split at hb
    · rename_i y' evs hr
      simp only at hr
      simp only [Bool.and_eq_true, decide_eq_true_eq] at hb
      obtain ⟨rfl, hw⟩ := hb
      exact ⟨y, y', _, w', authoredNext, hy, hr ▸ hp, by simp, fun _ => hw⟩
    · cases hb
  have hmem := mem_map_of_mem (f := Except.toOption) (h [] _ _ rfl _ hd)
  have hne : (some (some (.application [43] authoredNext.id)) : Option (Option GroupEvent)) ≠
      some (some (.application [42] authored.id)) := by decide
  exact hne (mem_singleton.1 hmem)

end EncryptionState

end Boru.GroupEncryption
