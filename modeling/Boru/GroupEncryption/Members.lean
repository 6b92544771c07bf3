import Boru.GroupEncryption.Batch

/-!
# Which members stay

What the operations of a message group do to its members.  Only two kinds of control messages make
a member go: its removal, and a creation that does not name it.  Messages that waited are processed
together with the one that is received, and so are their removals.

## Main results

* `Dcgka.processRemote_performs` : a control message changes the membership as it says, and nothing
  else changes it.
* `MessageGroup.receive_stable` : what every message that is processed keeps is kept by receiving.
* `GroupScheme.MembershipLaws` : the laws of the members of a group scheme.
* `MessageGroup.membershipLaws` : message groups satisfy them.
-/

namespace Boru

theorem HashSet.mem_extend {K : Type*} [DecidableEq K] {s : HashSet K} {ks : List K} {k : K} :
    k ∈ s.extend ks ↔ k ∈ s ∨ k ∈ ks := by
  induction ks generalizing s with
  | nil => simp [HashSet.extend]
  | cons k' ks ih =>
    show k ∈ (s.insert k').extend ks ↔ _
    rw [ih, HashSet.mem_insert, List.mem_cons]
    tauto

namespace GroupEncryption

open Prog

/-- Whether a control message makes a peer go, in the group of `me`. -/
def ControlMessage.drops (me : PeerId) (peer : PeerId) : ControlMessage → Bool
  | .remove removed => peer = removed
  | .create initialMembers => peer ≠ me ∧ peer ∉ initialMembers
  | .ack .. | .update | .add _ | .addAck .. => false

/-- Whether a control message makes a peer come, in the group of `me`. -/
def ControlMessage.brings (me : PeerId) (peer : PeerId) : ControlMessage → Bool
  | .add added => peer = added
  | .create initialMembers => peer = me ∨ peer ∈ initialMembers
  | .ack .. | .update | .remove _ | .addAck .. => false

/-- Whether a message makes a peer go, in the group of `me`. -/
def EncryptedGroupEnvelope.drops (me : PeerId) (peer : PeerId) (m : EncryptedGroupEnvelope) :
    Bool :=
  match m.content with
  | .application .. => false
  | .control control => control.drops me peer

/-- Acknowledgements make nobody go. -/
theorem EncryptedGroupEnvelope.drops_of_isAck {me peer : PeerId} {m : EncryptedGroupEnvelope}
    (h : m.isAck) : m.drops me peer = false := by
  unfold isAck at h
  unfold drops
  split
  · rfl
  · rename_i control hc
    rw [hc] at h
    cases control <;> first | rfl | cases h

/-! ### Membership -/

namespace Membership

variable {p : PeerId}

theorem mem_create {me : PeerId} {initialMembers : List PeerId} :
    p ∈ (create me initialMembers).members ↔ p = me ∨ p ∈ initialMembers := by
  show p ∈ ((HashSet.insert ∅ me).extend initialMembers) ↔ _
  rw [HashSet.mem_extend, HashSet.mem_insert]
  simp

variable {y : MembershipState}

theorem mem_add (adder : PeerId) {added : PeerId} {op : OpId} :
    p ∈ (add y adder added op).members ↔ p = added ∨ p ∈ y.members :=
  HashSet.mem_insert

theorem mem_remove {y' : MembershipState} {remover removed : PeerId} {op : OpId}
    (h : remove y remover removed op = .ok y') :
    p ∈ y'.members ↔ p ≠ removed ∧ p ∈ y.members := by
  unfold remove at h
  split_ifs at h
  cases h
  exact AList.mem_erase

theorem sameRoles_mergeOperations (y : MembershipState) (ops : List OperationEntry) :
    y.SameRoles (ops.foldl mergeOperation y) := by
  induction ops generalizing y with
  | nil => exact .rfl
  | cons op ops ih =>
    have hop : y.SameRoles (mergeOperation y op) := ⟨rfl, rfl, rfl⟩
    exact hop.trans (ih (mergeOperation y op))

theorem mem_fromWelcome {welcome : MembershipState} :
    p ∈ (fromWelcome y welcome).members ↔ p ∈ y.members ∨ p ∈ welcome.members := by
  unfold fromWelcome
  rw [(sameRoles_mergeOperations _ _).members]
  exact HashSet.mem_extend

end Membership

/-! ### The key agreement -/

namespace Dcgka

variable {S : Suite}

theorem answerSeed_sameRoles {y : DcgkaState S} {sender : PeerId} {seq : OpId}
    (re : List PeerId) {sk : Key} :
    Ensures (answerSeed y sender seq re sk) fun r => SameRoles y r.1 := by
  refine .bind (.foldlM (Q := fun acc => SameRoles y acc.1) (fun acc member h => ?_) _ .rfl) ?_
  · exact .andThen fun sk => .bind (encryptTo_sameRoles acc.1 member sk.1) fun _ h' =>
      .pure (h.trans h')
  · intro r hr
    exact .bind (processAck_recorded r.1) fun _ h' =>
      .pure (hr.trans h'.1)

theorem processSeed_sameRoles {y : DcgkaState S} {sender : PeerId} {seq : OpId}
    {dm : Option (Direct S)} :
    Ensures (processSeed y sender seq dm) fun r => SameRoles y r.1 := by
  refine .bind (obtainSeed_sameRoles y) fun r hr => ?_
  cases r with
  | none => exact .pure .rfl
  | some p =>
    obtain ⟨z, seed⟩ := p
    have hz : SameRoles y z := hr _ rfl
    refine .bind (storeSecrets_sameRoles z seed sender seq _) fun z' hz' => ?_
    refine .andThen fun secret => ?_
    refine .bind (updateRatchet_sameRoles z') fun q hq => ?_
    have hs : SameRoles y q.1 := (hz.trans hz').trans hq
    dsimp only
    split
    · exact .pure hs
    · exact (answerSeed_sameRoles _).mono fun _ h => hs.trans h

theorem answerAdd_sameRoles {y : DcgkaState S} {sender : PeerId} {seq : OpId} {added : PeerId}
    {secret : Option Key} :
    Ensures (answerAdd y sender seq added secret) fun r => SameRoles y r.1 :=
  .andThen fun own => .bind (encryptTo_sameRoles y added own.1) fun r hr =>
    .bind (processAddAck_recorded r.1 r.1.myId sender seq none) fun _ h' =>
      .pure (hr.trans h'.1)

/-- What a control message, with the direct message for us, does to the membership. -/
inductive Applies (y : DcgkaState S) (sender : PeerId) (seq : OpId)
    (dm : Option (Direct S)) : ControlMessage → MembershipState → Prop where
  | create (initialMembers : List PeerId) :
    Applies y sender seq dm (.create initialMembers) (Membership.create y.myId initialMembers)
  | update : Applies y sender seq dm .update y.dgm
  | ack (ackSender : PeerId) (ackSeq : OpId) :
    Applies y sender seq dm (.ack ackSender ackSeq) y.dgm
  | addAck (ackSender : PeerId) (ackSeq : OpId) :
    Applies y sender seq dm (.addAck ackSender ackSeq) y.dgm
  | remove {removed : PeerId} {dgm : MembershipState}
    (h : Membership.remove y.dgm sender removed seq = .ok dgm) :
    Applies y sender seq dm (.remove removed) dgm
  | add {added : PeerId} (h : added ≠ y.myId) :
    Applies y sender seq dm (.add added) (Membership.add y.dgm sender added seq)
  /-- We are added, and take the history of the member that adds us over. -/
  | welcome (h : dm.isSome) (history : MembershipState) : Applies y sender seq dm (.add y.myId)
      (Membership.add (Membership.fromWelcome y.dgm history) sender y.myId seq)

/-- A control message was processed: the membership is changed as it says. -/
def Performs (sender : PeerId) (seq : OpId) (dm : Option (Direct S))
    (control : ControlMessage) (y y' : DcgkaState S) : Prop :=
  ∃ dgm, Applies y sender seq dm control dgm ∧ SameRoles { y with dgm } y'

section Performs

variable {y y' y'' : DcgkaState S} {sender : PeerId} {seq : OpId}
  {dm : Option (Direct S)} {control : ControlMessage}
  {dgm : MembershipState}

theorem Applies.performs (h : Applies y sender seq dm control dgm) :
    Performs sender seq dm control y { y with dgm } := ⟨dgm, h, .rfl⟩

theorem Performs.trans (h : Performs sender seq dm control y y') (h' : SameRoles y' y'') :
    Performs sender seq dm control y y'' := by
  obtain ⟨dgm, ha, hs⟩ := h
  exact ⟨dgm, ha, hs.trans h'⟩

end Performs

theorem processRemove_performs {y : DcgkaState S} {sender : PeerId} {seq : OpId}
    {removed : PeerId} {dm : Option (Direct S)} :
    Ensures (processRemove y sender seq removed dm) fun r =>
      Performs sender seq dm (.remove removed) y r.1 :=
  .bind (.ofExcept fun _ h => Applies.remove h) fun _ h =>
    (processSeed_sameRoles).mono fun _ h' => h.performs.trans h'

variable {dm : Option (Direct S)}

variable (y : DcgkaState S) (s : PeerId) (seq : OpId)

theorem processWelcome_performs (hdm : dm.isSome) (history : MembershipState)
    (ct : S.TwoPartyMessage) :
    Ensures (processWelcome y s seq history ct) fun r =>
      Performs s seq dm (.add y.myId) y r.1 := by
  refine .bind (decryptFrom_sameRoles _) fun a ha => .andThen fun secret => ?_
  refine .bind (updateRatchet_sameRoles _) fun b hb => ?_
  refine .bind (updateRatchet_sameRoles _) fun c hc => ?_
  refine .bind (processAck_recorded c.1) fun d hd =>
    .andThen fun _ => .pure ?_
  have hb' : SameRoles a.1 b.1 := ⟨hb.myId, hb.dgm⟩
  have hc' : SameRoles b.1 c.1 := ⟨hc.myId, hc.dgm⟩
  exact (Applies.welcome hdm history).performs.trans (((ha.trans hb').trans hc').trans hd.1)

theorem processAdd_performs (added : PeerId) (dm : Option (Direct S)) :
    Ensures (processAdd y s seq added dm) fun r =>
      Performs s seq dm (.add added) y r.1 := by
  unfold processAdd
  split_ifs with ha
  · subst ha
    split
    · split_ifs
      · exact .throw _
      · exact processWelcome_performs y s seq rfl _ _
    · exact .throw _
    · exact .throw _
  · refine .bind (ratchetAdd_sameRoles _) fun p hp => ?_
    have hadd : Performs s seq dm (.add added) y p.1 :=
      (Applies.add ha).performs.trans hp
    dsimp only
    split
    · exact .pure hadd
    · exact (answerAdd_sameRoles).mono fun _ h => hadd.trans h

/-- The membership after a message from the network. -/
theorem processRemote_performs (s : PeerId) {control : ControlMessage} :
    Ensures (processRemote y seq s control dm) fun r =>
      Performs s seq dm control y r.1 := by
  unfold processRemote
  split_ifs
  · exact .throw _
  · cases control with
    | create ms =>
      exact (processSeed_sameRoles).mono fun _ h =>
        (Applies.create ms).performs.trans h
    | update =>
      exact (processSeed_sameRoles).mono fun _ h => Applies.update.performs.trans h
    | remove removed => exact processRemove_performs
    | add added => exact processAdd_performs y s seq added dm
    | ack a ac =>
      exact (processAck_recorded y).mono fun _ h =>
        (Applies.ack a ac).performs.trans h.1
    | addAck a ac =>
      exact (processAddAck_recorded y s a ac dm).mono fun _ h =>
        (Applies.addAck a ac).performs.trans h.1

/-- The membership after a message of our own. -/
theorem processLocal_performs (i : OperationOutput S) : Ensures (processLocal y seq i) fun r =>
      Performs y.myId seq none i.controlMessage y r.1 := by
  have ho : Ensures (processOwn y seq i.controlMessage) fun r =>
      Performs y.myId seq none i.controlMessage y r.1 := by
    cases i.controlMessage with
    | create ms =>
      exact (processSeed_sameRoles).mono fun _ h =>
        (Applies.create ms).performs.trans h
    | update =>
      exact (processSeed_sameRoles).mono fun _ h =>
        Applies.update.performs.trans h
    | remove removed => exact processRemove_performs
    | add added => exact processAdd_performs y y.myId seq added none
    | ack | addAck => exact .throw _
  exact .bind ho fun _ h => .andThen fun _ => .andThen fun _ => .andThen fun _ => .pure h

structure Follows (control : ControlMessage) (y y' : DcgkaState S) : Prop where
  myId : y'.myId = y.myId
  stays : ∀ p ∈ y.dgm.members, control.drops y.myId p = false → p ∈ y'.dgm.members
  comes : ∀ p, control.brings y.myId p → p ∈ y'.dgm.members

variable {y : DcgkaState S} {control : ControlMessage}

theorem Follows.trans {y' y'' : DcgkaState S} (h : Follows control y y') (h' : SameView y' y'') :
    Follows control y y'' where
  myId := h'.myId.trans h.myId
  stays p hp hd := h'.members ▸ h.stays p hp hd
  comes p hp := h'.members ▸ h.comes p hp

theorem Applies.follows {s : PeerId} {seq : OpId} {dgm : MembershipState}
    (h : Applies y s seq dm control dgm) :
    Follows control y { y with dgm } := by
  refine ⟨rfl, fun p hp hd => ?_, fun p hb => ?_⟩
  · cases h with
    | create ms =>
      refine Membership.mem_create.2 (Classical.or_iff_not_imp_left.2 fun hme => ?_)
      simp only [ControlMessage.drops, decide_eq_false_iff_not, not_and, not_not] at hd
      exact hd hme
    | remove h => exact (Membership.mem_remove h).2 ⟨of_decide_eq_false hd, hp⟩
    | add => exact (Membership.mem_add s).2 (.inr hp)
    | welcome => exact (Membership.mem_add s).2 (.inr (Membership.mem_fromWelcome.2 (.inl hp)))
    | update | ack | addAck => exact hp
  · cases h with
    | create ms => exact Membership.mem_create.2 (of_decide_eq_true hb)
    | add | welcome => exact (Membership.mem_add s).2 (.inl (of_decide_eq_true hb))
    | remove | update | ack | addAck => cases hb

theorem Performs.follows {y' : DcgkaState S} {s : PeerId} {seq : OpId}
    (h : Performs s seq dm control y y') : Follows control y y' := by
  obtain ⟨dgm, ha, hs⟩ := h
  exact ha.follows.trans hs.sameView

end Dcgka

/-! ### Message groups -/

namespace MessageGroup

open OrderingState

variable {S : Suite}

/-- What a control message does to the members of a group. -/
def Follows (control : ControlMessage) (y y' : GroupState S) : Prop :=
  Dcgka.Follows control y.dcgka y'.dcgka

def Performs (control : ControlMessage) (y y' : GroupState S) : Prop :=
  ∃ seq dcgka, Dcgka.SameRoles y.dcgka dcgka ∧
    Dcgka.Performs dcgka.myId seq none control dcgka y'.dcgka

variable {y : GroupState S}

theorem Performs.follows {y' : GroupState S} {control : ControlMessage}
    (h : Performs control y y') : Follows control y y' := by
  obtain ⟨seq, dcgka, hs, hpe⟩ := h
  have hr := hpe.follows
  refine ⟨hr.myId.trans hs.myId, fun p hp hd => hr.stays p (hs.dgm.members ▸ hp) ?_,
    fun p hp => hr.comes p ?_⟩
  · rw [hs.myId]
    exact hd
  · rw [hs.myId]
    exact hp

theorem processLocal_performs {dcgka : DcgkaState S} (h : Dcgka.SameRoles y.dcgka dcgka)
    (out : OperationOutput S) :
    Ensures (processLocal { y with dcgka } out) fun r =>
      Performs out.controlMessage y r.1 :=
  .bind (.mapErr (Dcgka.processLocal_performs dcgka _ out)) fun _ hr =>
    .andThen fun _ => .pure ⟨_, dcgka, h, hr⟩

section

variable (y) (added removed : PeerId) (im : List PeerId)

/-- The list of members without repetitions has them all. -/
theorem mem_foldl_dedup {l acc : List PeerId} {p : PeerId} (h : p ∈ acc ∨ p ∈ l) :
    p ∈ l.foldl (fun acc id => if id ∈ acc then acc else acc ++ [id]) acc := by
  induction l generalizing acc with
  | nil => simpa using h
  | cons q l ih =>
    refine ih ?_
    dsimp only
    rw [List.mem_cons] at h
    split_ifs with hq
    · rcases h with hp | rfl | hp
      · exact .inl hp
      · exact .inl hq
      · exact .inr hp
    · rw [List.mem_append, List.mem_singleton]
      tauto

/-- A group is created with at least ourselves and the members named. -/
theorem create_performs :
    Ensures (create y im) fun r => ∃ ms : List PeerId,
      (∀ p ∈ im, p ∈ ms) ∧ Performs (.create ms) y r.1 := by
  refine .andThen fun _ => .bind (.mapErr (Q := fun r : Performed S =>
    Dcgka.SameRoles y.dcgka r.1 ∧ ∃ ms : List PeerId, r.2.controlMessage = .create ms ∧
      ∀ p ∈ im, p ∈ ms) ?_) fun r hr => ?_
  · refine .bind (Dcgka.generateSeed_sameRoles y.dcgka _) fun r hr => .pure ⟨hr, _, rfl, ?_⟩
    intro p hp
    have hmem := mem_foldl_dedup (.inr hp : p ∈ [] ∨ p ∈ im)
    split_ifs
    · exact hmem
    · exact List.mem_append_left _ hmem
  · obtain ⟨hs, ms, hc, hms⟩ := hr
    exact .bind (processLocal_performs hs r.2) fun q hq => .pure ⟨ms, hms, hc ▸ hq⟩

variable {y} in
/-- An operation is performed by the processing of the message that it sends. -/
theorem sends_performs {x : Dcgka.Call S (Performed S)} {control : ControlMessage}
    (hx : Ensures x fun r => Dcgka.SameRoles y.dcgka r.1 ∧ r.2.controlMessage = control) :
    Ensures (do
      let (dcgka, out) ← x.mapErr .dcgka
      processLocal { y with dcgka } out) fun r => Performs control y r.1 :=
  .bind (.mapErr hx) fun r hr => (processLocal_performs hr.1 r.2).mono fun _ hq => hr.2 ▸ hq

theorem add_performs : Ensures (add y added) fun r => Performs (.add added) y r.1 := by
  refine .andThen fun _ => .andThen fun _ => .andThen fun _ => sends_performs ?_
  exact .andThen fun secret => .bind (Dcgka.encryptTo_sameRoles y.dcgka added secret.1)
    fun _ h => .pure ⟨h, rfl⟩

theorem remove_performs : Ensures (remove y removed) fun r => Performs (.remove removed) y r.1 := by
  refine .andThen fun _ => .andThen fun _ => sends_performs ?_
  exact .bind (Dcgka.generateSeed_sameRoles y.dcgka _) fun _ h => .pure ⟨h, rfl⟩

theorem update_performs : Ensures (update y) fun r => Performs .update y r.1 := by
  refine .andThen fun _ => sends_performs ?_
  exact .bind (Dcgka.generateSeed_sameRoles y.dcgka _) fun _ h => .pure ⟨h, rfl⟩

/-- The members after a creation: at least ourselves and those named. -/
theorem create_members : Ensures (create y im) fun r =>
      ∀ p, p = y.dcgka.myId ∨ p ∈ im → p ∈ members r.1 := by
  refine (create_performs y im).mono ?_
  rintro r ⟨ms, hms, h⟩ p hp
  exact h.follows.comes p (decide_eq_true (hp.imp_right (hms p)))

theorem add_members :
    Ensures (add y added) fun r => ∀ p, p = added ∨ p ∈ members y → p ∈ members r.1 := by
  refine (add_performs y added).mono fun r h p hp => ?_
  rcases hp with rfl | hp
  · exact h.follows.comes p (decide_eq_true rfl)
  · exact h.follows.stays p hp rfl

theorem remove_members :
    Ensures (remove y removed) fun r => ∀ p ∈ members y, p ≠ removed → p ∈ members r.1 :=
  (remove_performs y removed).mono fun _ h p hp hne => h.follows.stays p hp (decide_eq_false hne)

theorem update_members : Ensures (update y) fun r => ∀ p ∈ members y, p ∈ members r.1 :=
  (update_performs y).mono fun _ h p hp => h.follows.stays p hp rfl

end

theorem send_dcgka {text : Bytes} {r : GroupState S × EncryptedGroupEnvelope}
    (h : send y text = .ok r) :
    r.1.dcgka = y.dcgka ∧ r.1.myId = y.myId := by
  unfold send at h
  split at h
  · cases h
  · obtain ⟨p, -, h⟩ := except_bind_eq_ok h
    cases h
    exact ⟨rfl, rfl⟩

theorem send_members {text : Bytes} {r : GroupState S × EncryptedGroupEnvelope}
    (h : send y text = .ok r) :
    members r.1 = members y := by
  unfold members
  rw [(send_dcgka h).1, (send_dcgka h).2]

/-! ### Receiving -/

theorem StoresAck.waitingMessages {o o' : OrderingState} (h : StoresAck o o')
    {P : EncryptedGroupEnvelope → Prop} (hac : ∀ m : EncryptedGroupEnvelope, m.isAck → P m)
    (ho : ∀ m ∈ o.waitingMessages, P m) : ∀ m ∈ o'.waitingMessages, P m := by
  rcases h with rfl | ⟨answer, ha, rfl⟩
  · exact ho
  · intro m hm
    obtain ⟨id, hid, hl⟩ := List.mem_filterMap.1 hm
    obtain ⟨-, rfl⟩ | ⟨-, hl⟩ := HashMap.lookup_insert_cases hl
    · -- the place of a waiting message is taken by our acknowledgement
      exact hac _ ha
    · exact ho m (List.mem_filterMap.2 ⟨id, hid, hl⟩)

/-- A predicate on groups that a message keeps if it is fine, as acknowledgements are. -/
structure Stable (P : GroupState S → Prop) (fine : EncryptedGroupEnvelope → Prop) : Prop where
  orderer : ∀ {y}, P y → ∀ orderer welcome, P { y with orderer, welcome }
  ack : ∀ {m : EncryptedGroupEnvelope}, m.isAck → fine m
  ready : ∀ {y m}, P y → fine m → Ensures (processReady y m) fun r => P r.1

/-- Our answer is the only message a group stores on its own. -/
theorem processReady_storesAck (y : GroupState S) (message : EncryptedGroupEnvelope) :
    Ensures (processReady y message) fun r => StoresAck y.orderer r.1.orderer := by
  by_cases h : message.isApplication
  · exact (processReady_of_isApplication y h).mono fun r hr => .inl hr.orderer
  · exact (processReady_of_control y h).mono fun r hr => hr.1

/-- A message was processed: a control message changes the key agreement as it says, and an
application message does not change it. -/
def Proceeds (message : EncryptedGroupEnvelope) (y y' : GroupState S) : Prop :=
  y'.myId = y.myId ∧ (y'.dcgka = y.dcgka ∨ ∃ control, message.content = .control control ∧
    Dcgka.Performs message.sender message.id (directMessageFor y message) control y.dcgka y'.dcgka)

variable {message : EncryptedGroupEnvelope}

theorem processReady_proceeds :
    Ensures (processReady y message) fun r => Proceeds message y r.1 := by
  unfold processReady
  split
  · rename_i control hc
    refine .bind (Q := fun r : GroupState S × Option EncryptedGroupEnvelope =>
      Proceeds message y r.1) ?_ fun r hr => ?_
    · refine .bind (.mapErr (Dcgka.processRemote_performs y.dcgka _ _)) ?_
      rintro ⟨dcgka, out⟩ hp
      refine .pure ?_
      unfold answer
      split <;> exact ⟨rfl, .inr ⟨control, hc, hp⟩⟩
    · dsimp only
      split <;> exact .pure hr
  · refine .bind (.ofExcept fun r hr => ?_) fun r hr => .pure hr
    unfold decrypt at hr
    split at hr
    · cases hr
    · obtain ⟨p, -, hr⟩ := except_bind_eq_ok hr
      obtain ⟨text, -, hr⟩ := except_bind_eq_ok hr
      cases hr
      exact ⟨rfl, .inl rfl⟩

section Stable

variable {P : GroupState S → Prop} {fine : EncryptedGroupEnvelope → Prop}

theorem processAll_stable (hP : Stable P fine) (n : ℕ) {y : GroupState S} (h : P y)
    (hw : ∀ m ∈ y.orderer.waitingMessages, fine m) : Ensures (processAll n y) fun r => P r.1 := by
  induction n generalizing y with
  | zero => exact .pure h
  | succ n ih =>
    rw [processAll]
    rcases hn : y.orderer.nextReadyMessage with ⟨orderer, _ | message⟩
    · exact .pure (hP.orderer h orderer y.welcome)
    · obtain ⟨id, ht⟩ := nextReadyMessage_taken hn
      have hwa : ∀ m ∈ orderer.waitingMessages, fine m :=
        fun m hm => hw m (ht.waitingMessages_subset m hm)
      have ho : P { y with orderer } := hP.orderer h orderer y.welcome
      dsimp only
      split
      · exact ih ho hwa
      · refine .bind ((hP.ready ho (hw message ht.mem_waitingMessages)).and
          (processReady_storesAck { y with orderer } message)) fun r hr => ?_
        exact .bind (ih hr.1 (hr.2.waitingMessages (fun _ hm => hP.ack hm) hwa))
          fun _ h' => .pure h'

end Stable

theorem processReady_members {me peer : PeerId} (hme : y.dcgka.myId = me)
    (hmem : peer ∈ members y) (hm : message.drops me peer = false) :
    Ensures (processReady y message) fun r => r.1.dcgka.myId = me ∧ peer ∈ members r.1 := by
  refine (processReady_proceeds).mono ?_
  rintro r ⟨hg, hd | ⟨control, hc, hp⟩⟩
  · unfold members
    rw [hd]
    exact ⟨hme, hmem⟩
  · unfold EncryptedGroupEnvelope.drops at hm
    rw [hc] at hm
    have hf := hp.follows
    exact ⟨hf.myId.trans hme, hf.stays peer hmem (hme ▸ hm)⟩

theorem stable_members {me peer : PeerId} :
    Stable (S := S) (fun y => y.dcgka.myId = me ∧ peer ∈ members y)
      (fun m => m.drops me peer = false) where
  orderer h _ _ := h
  ack hm := EncryptedGroupEnvelope.drops_of_isAck hm
  ready h hm := processReady_members h.1 h.2 hm

/-- The messages that are processed when one is received: those that wait, or the one that lets us
join. -/
def handled (y : GroupState S) (message : EncryptedGroupEnvelope) : List EncryptedGroupEnvelope :=
  if y.ratchet.isSome then (y.orderer.queue message).waitingMessages
  else if isCreateOrWelcome y message then [message]
  else []

/-- Whether a message that is processed makes a peer go. -/
def drops (y : GroupState S) (message : EncryptedGroupEnvelope) (peer : PeerId) : Prop :=
  ∃ m ∈ handled y message, m.drops y.dcgka.myId peer

/-- A predicate is kept when every message that is processed is fine. -/
theorem receive_stable {P : GroupState S → Prop} {fine : EncryptedGroupEnvelope → Prop}
    (hP : Stable P fine) (h : P y) {message : EncryptedGroupEnvelope}
    (hm : ∀ m ∈ handled y message, fine m) : Ensures (receive y message) fun r => P r.1 := by
  unfold handled at hm
  refine .bind (.andThen fun _ => ?_) fun r (hr : P r.1) => .pure hr
  split_ifs at hm ⊢
  · exact .bind (processAll_stable hP _ (hP.orderer h (y.orderer.queue message) y.welcome) hm)
      fun _ h => .pure h
  · exact .bind (hP.ready (hP.orderer h ((y.orderer.queue message).setWelcome message)
      (some message)) (hm message List.mem_cons_self)) fun _ h => .pure h
  · exact .pure (hP.orderer h (y.orderer.queue message) y.welcome)

theorem receive_members {peer : PeerId} (hmem : peer ∈ members y) (hd : ¬ drops y message peer) :
    Ensures (receive y message) fun r => peer ∈ members r.1 :=
  (receive_stable (stable_members) ⟨rfl, hmem⟩ fun m hm =>
    Bool.eq_false_iff.2 fun h => hd ⟨m, hm, h⟩).mono fun _ h => h.2

end MessageGroup

/-! ### Laws of a group scheme -/

/-- What the operations of a group scheme do to its members; `drops y m p` says that receiving `m`
may make the member `p` go. -/
structure GroupScheme.MembershipLaws (A : GroupScheme)
    (drops : A.State → EncryptedGroupEnvelope → PeerId → Prop) : Prop where
  init : ∀ {me keys pki initialMembers y}, A.init me keys pki initialMembers = .ok y →
    me ∈ A.members y
  create : ∀ {me keys pki initialMembers y}, A.init me keys pki initialMembers = .ok y →
    Ensures (A.create y initialMembers) fun r =>
      ∀ p, p = me ∨ p ∈ initialMembers → p ∈ A.members r.1
  add : ∀ y added, Ensures (A.add y added) fun r =>
    ∀ p, p = added ∨ p ∈ A.members y → p ∈ A.members r.1
  remove : ∀ y removed, Ensures (A.remove y removed) fun r =>
    ∀ p ∈ A.members y, p ≠ removed → p ∈ A.members r.1
  update : ∀ y, Ensures (A.update y) fun r => ∀ p ∈ A.members y, p ∈ A.members r.1
  send : ∀ {y plaintext r}, A.send y plaintext = .ok r → A.members r.1 = A.members y
  receive : ∀ y message p, p ∈ A.members y → ¬ drops y message p →
    Ensures (A.receive y message) fun r => p ∈ A.members r.1

/-- **The members of a message group.** -/
theorem MessageGroup.membershipLaws (S : Suite) {codec : Codec (GroupState S)} :
    (MessageGroup.scheme S codec).MembershipLaws MessageGroup.drops where
  init := by
    rintro me keys pki ms _ ⟨⟩
    exact Membership.mem_create.2 (.inl rfl)
  create := by
    rintro me keys pki ms _ ⟨⟩
    exact MessageGroup.create_members _ ms
  add := MessageGroup.add_members
  remove := MessageGroup.remove_members
  update := MessageGroup.update_members
  send := MessageGroup.send_members
  receive y message _ hmem hd := MessageGroup.receive_members hmem hd

end GroupEncryption

end Boru
