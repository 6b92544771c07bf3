import Boru.GroupEncryption.EncryptionState

/-!
# The orderer as a queue

The dependencies of a message are the messages of others that are stored when it arrives.  All of
those are ready or the welcome, so they count as processed: every message is ready as soon as it is
queued, and no dependency is ever recorded.  The orderer is a first-in-first-out queue of the
envelopes it does not know yet, and it knows an envelope by its identifier for as long as it stores
an envelope with this identifier.

`OrdererLog.history` is the abstract queue with its past: what was handed out, followed by what
waits.  The `history_*` lemmas say what each operation does to it.

## Main results

* `OrdererLog.prompt_step` : nothing ever waits for a dependency.
* `OrdererLog.exactly_once` : every envelope queued is handed out exactly once, provided no two
  envelopes are confused by their identifiers and no envelope comes back after it was handed out.
-/

namespace Boru

open List
namespace GroupEncryption

namespace OrderingState

def isWelcome (y : OrderingState) (id : OpId) : Bool :=
  y.welcomeMessage.any fun welcome => welcome.id = id

/-- The messages that wait to be handed out, in order. -/
def pending (y : OrderingState) : List EncryptedGroupEnvelope :=
  y.ready.filterMap fun id => if y.isWelcome id then none else y.messages.lookup id

/-- Nothing waits for a dependency: every stored message of another peer is ready or the welcome. -/
structure Prompt (y : OrderingState) : Prop where
  keyed : ∀ id m, y.messages.lookup id = some m → m.id = id
  depsOf : y.depsOf = ∅
  dependents : y.dependents = ∅
  nodup : y.ready.Nodup
  stored : ∀ id ∈ y.ready, (y.messages.lookup id).isSome
  anchored : ∀ w, y.welcomeMessage = some w → (y.messages.lookup w.id).isSome
  foreign : ∀ id m, y.messages.lookup id = some m → m.sender ≠ y.myId →
    id ∈ y.ready ∨ y.isWelcome id

variable {y : OrderingState} {id : OpId}

theorem isWelcome_eq_true : y.isWelcome id = true ↔ ∃ w, y.welcomeMessage = some w ∧ w.id = id := by
  unfold isWelcome
  cases y.welcomeMessage <;> simp

variable {m : EncryptedGroupEnvelope}

theorem mem_pending :
    m ∈ y.pending ↔ ∃ id ∈ y.ready, y.isWelcome id = false ∧ y.messages.lookup id = some m := by
  unfold pending
  rw [mem_filterMap]
  refine exists_congr fun id => and_congr_right fun _ => ?_
  cases y.isWelcome id <;> simp

theorem pending_length_le : y.pending.length ≤ y.waiting :=
  (length_filterMap_le _ _).trans (Nat.le_add_right _ _)

theorem cascadeReady_of_dependents (h : y.dependents = ∅) {key : OpId} :
    y.cascadeReady key = y := by
  obtain ⟨clock, myId, ready, dependents, depsOf, messages, wm⟩ := y
  subst h
  rfl

namespace Prompt

variable {y : OrderingState}

theorem new (myId : PeerId) : (OrderingState.new myId).Prompt where
  keyed _ _ h := by cases h
  depsOf := rfl
  dependents := rfl
  nodup := nodup_nil
  stored _ h := by cases h
  anchored _ h := by cases h
  foreign _ _ h := by cases h

/-! ### Queueing -/

theorem allDepsSatisfied (h : y.Prompt) (m : EncryptedGroupEnvelope) :
    let y' := { y with messages := y.messages.insert m.id m }
    y'.allDepsSatisfied (y'.extractDependencies m.id) = true := by
  intro y'
  refine all_eq_true.2 fun dep hd => ?_
  obtain ⟨⟨id, m'⟩, he, rfl⟩ := mem_map.1 hd
  obtain ⟨hen, hc⟩ := mem_filter.1 he
  obtain ⟨hne, hs⟩ := of_decide_eq_true hc
  have hl : y.messages.lookup id = some m' :=
    (AList.lookup_insert_ne hne).symm.trans (AList.mem_lookup_iff.2 hen)
  unfold isProcessed
  rcases h.foreign id m' hl hs with hr | hw
  · have : id ∈ y'.ready := hr
    simp [this]
  · have : y'.welcomeMessage.any (fun w => w.id = id) = true := hw
    simp [this]

variable {m : EncryptedGroupEnvelope}

/-- A message the orderer does not know becomes ready at once. -/
theorem queue_of_new (h : y.Prompt) (hs : m.sender ≠ y.myId) (hn : y.messages.lookup m.id = none) :
    y.queue m = { y with messages := y.messages.insert m.id m, ready := y.ready ++ [m.id] } := by
  unfold queue
  simp only [if_neg hs, hn, Option.isSome_none, Bool.false_eq_true, if_false]
  split_ifs with hd hall
  · rfl
  · exact cascadeReady_of_dependents (y := { y with
      messages := y.messages.insert m.id m, ready := y.ready ++ [m.id] }) h.dependents
  · exact absurd (h.allDepsSatisfied m) hall

theorem queue_new (h : y.Prompt) (hs : m.sender ≠ y.myId) (hn : y.messages.lookup m.id = none) :
    (y.queue m).Prompt := by
  have hf : m.id ∉ y.ready := fun hmem => by
    have := h.stored _ hmem
    rw [hn] at this
    cases this
  rw [h.queue_of_new hs hn]
  refine ⟨?_, h.depsOf, h.dependents, ?_, ?_, ?_, ?_⟩
  · intro id m' hm'
    obtain ⟨hid, rfl⟩ | ⟨-, hm'⟩ := HashMap.lookup_insert_cases hm'
    · exact hid.symm
    · exact h.keyed id m' hm'
  · refine nodup_append.2 ⟨h.nodup, nodup_singleton _, ?_⟩
    intro a ha b hb hab
    rw [mem_singleton.1 hb] at hab
    exact hf (hab ▸ ha)
  · intro id hid
    rcases mem_append.1 hid with ho | hnw
    · exact HashMap.isSome_lookup_insert (h.stored id ho) _ _
    · rw [mem_singleton.1 hnw, AList.lookup_insert]
      rfl
  · intro w hw
    exact HashMap.isSome_lookup_insert (h.anchored w hw) _ _
  · intro id m' hm' hse
    obtain ⟨hid, -⟩ | ⟨-, hm'⟩ := HashMap.lookup_insert_cases hm'
    · exact .inl (mem_append_right _ (mem_singleton.2 hid))
    · exact (h.foreign id m' hm' hse).imp_left (mem_append_left _)

theorem pending_queue (h : y.Prompt) (hs : m.sender ≠ y.myId) (hn : y.messages.lookup m.id = none) :
    (y.queue m).pending = y.pending ++ [m] := by
  have hwe : y.isWelcome m.id = false := by
    rw [Bool.eq_false_iff, Ne, isWelcome_eq_true]
    rintro ⟨w, hw, hid⟩
    have := h.anchored w hw
    rw [hid, hn] at this
    cases this
  have ho : y.ready.filterMap (fun id => if y.isWelcome id then none
      else (y.messages.insert m.id m).lookup id) = y.pending := by
    refine filterMap_congr fun id hid => ?_
    have hne : id ≠ m.id := by
      rintro rfl
      have := h.stored _ hid
      rw [hn] at this
      cases this
    rw [AList.lookup_insert_ne hne]
  rw [h.queue_of_new hs hn]
  show (y.ready ++ [m.id]).filterMap (fun id => if y.isWelcome id then none
    else (y.messages.insert m.id m).lookup id) = y.pending ++ [m]
  rw [filterMap_append, ho]
  simp [hwe]

/-! ### Our own messages and the welcome -/

theorem insert_own (h : y.Prompt) (hs : m.sender = y.myId) (clock : ℕ) :
    OrderingState.Prompt { y with clock, messages := y.messages.insert m.id m } := by
  refine ⟨?_, h.depsOf, h.dependents, h.nodup,
    fun id hid => HashMap.isSome_lookup_insert (h.stored id hid) _ _,
    fun w hw => HashMap.isSome_lookup_insert (h.anchored w hw) _ _, ?_⟩
  · intro id m' hm'
    obtain ⟨hid, rfl⟩ | ⟨-, hm'⟩ := HashMap.lookup_insert_cases hm'
    · exact hid.symm
    · exact h.keyed id m' hm'
  · intro id m' hm' hse
    obtain ⟨-, rfl⟩ | ⟨-, hm'⟩ := HashMap.lookup_insert_cases hm'
    · exact absurd hs hse
    · exact h.foreign id m' hm' hse

end Prompt

/-- A message of our own changes nothing that waits, unless it has the identifier of a message that
waits. -/
theorem pending_insert (h : m.id ∈ y.ready → y.isWelcome m.id) {clock : ℕ} :
    pending { y with clock, messages := y.messages.insert m.id m } = y.pending := by
  refine filterMap_congr fun id hid => ?_
  show (if y.isWelcome id then none else (y.messages.insert m.id m).lookup id) = _
  by_cases hm : id = m.id
  · subst hm
    rw [if_pos (h hid), if_pos (h hid)]
  · rw [AList.lookup_insert_ne hm]

variable {w : EncryptedGroupEnvelope}

theorem lookup_setWelcome :
    (y.setWelcome w).messages.lookup id =
      if id = w.id then some ((y.messages.lookup id).getD w) else y.messages.lookup id := by
  split_ifs with hid
  · subst hid
    exact HashMap.lookup_upsert _ _ _ _
  · exact HashMap.lookup_upsert_ne _ _ _ hid

theorem isWelcome_setWelcome : (y.setWelcome w).isWelcome id = decide (w.id = id) := rfl

theorem Prompt.setWelcome (h : y.Prompt) (hn : y.welcomeMessage = none)
    (w : EncryptedGroupEnvelope) : (y.setWelcome w).Prompt := by
  have hso : ∀ id, (y.messages.lookup id).isSome →
      ((y.setWelcome w).messages.lookup id).isSome := by
    intro id hid
    rw [lookup_setWelcome]
    split_ifs
    · rfl
    · exact hid
  refine ⟨?_, h.depsOf, h.dependents, h.nodup, fun id hid => hso id (h.stored id hid), ?_, ?_⟩
  · intro id m hm
    rw [lookup_setWelcome] at hm
    split_ifs at hm with hid
    · subst hid
      cases hl : y.messages.lookup w.id with
      | none => rw [hl] at hm; rw [← Option.some.inj hm]; rfl
      | some m' =>
        rw [hl] at hm
        rw [← Option.some.inj hm]
        exact h.keyed _ _ hl
    · exact h.keyed id m hm
  · rintro _ ⟨⟩
    rw [lookup_setWelcome, if_pos rfl]
    rfl
  · intro id m hm hs
    by_cases hid : id = w.id
    · exact .inr (decide_eq_true hid.symm)
    · rw [lookup_setWelcome, if_neg hid] at hm
      refine .inl ((h.foreign id m hm hs).resolve_right ?_)
      simp [isWelcome, hn]

/-- The welcome does not wait any more once it is set. -/
theorem Prompt.pending_setWelcome (h : y.Prompt) (hn : y.welcomeMessage = none) :
    (y.setWelcome w).pending = y.pending.filter fun m => m.id ≠ w.id := by
  have hall : ∀ id, y.isWelcome id = false := fun id => by simp [isWelcome, hn]
  unfold pending
  rw [filter_filterMap]
  refine filterMap_congr fun id hid => ?_
  rw [isWelcome_setWelcome, lookup_setWelcome, hall]
  obtain ⟨m, hm⟩ := Option.isSome_iff_exists.1 (h.stored id hid)
  have hkey := h.keyed id m hm
  by_cases hw : id = w.id
  · simp [hm, hkey, hw, Option.filter]
  · simp [hm, hkey, hw, Ne.symm hw, Option.filter]

/-! ### Handing out -/

/-- What handing out the next message does. -/
structure Handed (y : OrderingState) (r : OrderingState × Option EncryptedGroupEnvelope) :
    Prop where
  prompt : r.1.Prompt
  pending : y.pending = r.2.toList ++ r.1.pending
  myId : r.1.myId = y.myId
  welcomeMessage : r.1.welcomeMessage = y.welcomeMessage
  messages : ∀ id m, r.1.messages.lookup id = some m → y.messages.lookup id = some m

theorem Prompt.skip (h : y.Prompt) {rest : List OpId} (hi : y.ready = id :: rest)
    (hw : y.isWelcome id = true) :
    Prompt { y with ready := rest, depsOf := y.depsOf.erase id } ∧
      y.pending = pending { y with ready := rest, depsOf := y.depsOf.erase id } := by
  have hn := h.nodup
  rw [hi] at hn
  refine ⟨⟨h.keyed, ?_, h.dependents, (nodup_cons.1 hn).2, ?_, h.anchored, ?_⟩, ?_⟩
  · show y.depsOf.erase id = ∅
    rw [h.depsOf]
    rfl
  · exact fun id' hid' => h.stored id' (hi ▸ mem_cons_of_mem _ hid')
  · intro id' m hm hs
    rcases h.foreign id' m hm hs with hr | hwelcome'
    · rw [hi] at hr
      rcases mem_cons.1 hr with rfl | hr
      · exact .inr hw
      · exact .inl hr
    · exact .inr hwelcome'
  · unfold pending
    rw [hi, filterMap_cons_none (by rw [if_pos hw])]
    rfl

theorem Prompt.pop (h : y.Prompt) {rest : List OpId} (hi : y.ready = id :: rest)
    (hwe : y.isWelcome id = false) (hm : y.messages.lookup id = some m) :
    Handed y ({ y with
      ready := rest, depsOf := y.depsOf.erase id, messages := y.messages.erase id }, some m) := by
  have hn := h.nodup
  rw [hi] at hn
  obtain ⟨hf, hre⟩ := nodup_cons.1 hn
  have hne : ∀ id' ∈ rest, id' ≠ id := fun id' hid' heq => hf (heq ▸ hid')
  have hl : ∀ id' ≠ id, (y.messages.erase id).lookup id' = y.messages.lookup id' :=
    fun id' hne => AList.lookup_erase_ne hne
  have hsub : ∀ id' m', (y.messages.erase id).lookup id' = some m' →
      id' ≠ id ∧ y.messages.lookup id' = some m' := by
    intro id' m' hm'
    have hne : id' ≠ id := by
      rintro rfl
      rw [AList.lookup_erase] at hm'
      cases hm'
    exact ⟨hne, (hl id' hne).symm.trans hm'⟩
  refine ⟨⟨?_, ?_, h.dependents, hre, ?_, ?_, ?_⟩, ?_, rfl, rfl, ?_⟩
  · exact fun id' m' hm' => h.keyed id' m' (hsub id' m' hm').2
  · show y.depsOf.erase id = ∅
    rw [h.depsOf]
    rfl
  · intro id' hid'
    rw [hl id' (hne id' hid')]
    exact h.stored id' (hi ▸ mem_cons_of_mem _ hid')
  · intro w hw
    have hwi : w.id ≠ id := by
      rintro rfl
      exact Bool.eq_false_iff.1 hwe (isWelcome_eq_true.2 ⟨w, hw, rfl⟩)
    rw [hl _ hwi]
    exact h.anchored w hw
  · intro id' m' hm' hs
    obtain ⟨hne', hm'⟩ := hsub id' m' hm'
    refine (h.foreign id' m' hm' hs).imp_left fun hr => ?_
    rw [hi] at hr
    exact (mem_cons.1 hr).resolve_left hne'
  · show y.ready.filterMap _ = m :: rest.filterMap _
    rw [hi, filterMap_cons_some (b := m) (by rw [hwe]; exact hm)]
    refine congrArg _ (filterMap_congr fun id' hid' => ?_)
    show (if y.isWelcome id' then none else y.messages.lookup id') =
      if y.isWelcome id' then none else (y.messages.erase id).lookup id'
    rw [hl id' (hne id' hid')]
  · exact fun id' m' hm' => (hsub id' m' hm').2

theorem popReady_handed {w : EncryptedGroupEnvelope} (h : y.Prompt)
    (hw : y.welcomeMessage = some w) :
    Handed y (popReady w.id y y.ready) ∧ ((popReady w.id y y.ready).2 = none → y.pending = []) := by
  generalize hi : y.ready = ids
  induction ids generalizing y with
  | nil =>
    have hem : y.pending = [] := by
      unfold pending
      rw [hi]
      rfl
    have hs : popReady w.id y [] = (y, none) := by
      rw [popReady, ← hi]
    rw [hs]
    exact ⟨⟨h, rfl, rfl, rfl, fun _ _ => id⟩, fun _ => hem⟩
  | cons id rest ih =>
    rw [popReady]
    by_cases hid : id = w.id
    · have hwe : y.isWelcome id = true := isWelcome_eq_true.2 ⟨w, hw, hid.symm⟩
      obtain ⟨hpr, hp⟩ := h.skip hi hwe
      obtain ⟨hh, hn⟩ := ih hpr hw rfl
      rw [if_pos hid, hp]
      exact ⟨⟨hh.prompt, hp.trans hh.pending, hh.myId, hh.welcomeMessage, hh.messages⟩, hn⟩
    · have hwe : y.isWelcome id = false := by
        rw [Bool.eq_false_iff, Ne, isWelcome_eq_true]
        rintro ⟨w', hw', hid'⟩
        rw [hw] at hw'
        exact hid (by rw [← hid', ← Option.some.inj hw'])
      obtain ⟨m, hm⟩ := Option.isSome_iff_exists.1 (h.stored id (hi ▸ mem_cons_self))
      rw [if_neg hid]
      simp only [hm]
      rw [cascadeReady_of_dependents (y := { y with
        ready := rest, depsOf := y.depsOf.erase id, messages := y.messages.erase id }) h.dependents]
      exact ⟨h.pop hi hwe hm, by rintro ⟨⟩⟩

theorem Prompt.nextReadyMessage (h : y.Prompt) : Handed y y.nextReadyMessage := by
  unfold OrderingState.nextReadyMessage
  split
  · exact ⟨h, rfl, rfl, rfl, fun _ _ => id⟩
  · rename_i w hw
    exact (popReady_handed h hw).1

/-- Draining hands out all that waits. -/
theorem Prompt.drain_eq (h : y.Prompt) (hw : y.welcomeMessage.isSome) {n : ℕ}
    (hn : y.pending.length < n) : y.drain n = y.pending := by
  induction n generalizing y with
  | zero => omega
  | succ n ih =>
    obtain ⟨w, hw'⟩ := Option.isSome_iff_exists.1 hw
    obtain ⟨hh, hno⟩ := popReady_handed h hw'
    have hne : y.nextReadyMessage = popReady w.id y y.ready := by
      unfold OrderingState.nextReadyMessage
      rw [hw']
    rw [drain, hne]
    rcases hr : popReady w.id y y.ready with ⟨y', _ | m⟩
    · rw [hr] at hno
      exact (hno rfl).symm
    · rw [hr] at hh
      have hp : y.pending = m :: y'.pending := hh.pending
      rw [hp] at hn ⊢
      exact congrArg _ (ih hh.prompt (hh.welcomeMessage ▸ hw) (Nat.lt_of_succ_lt_succ hn))

end OrderingState

/-! ### Runs -/

inductive OrdererOp where
  | control (control : ControlMessage) (directMessages : List Bytes)
  | application (generation : UInt32) (ciphertext : Bytes)
  | setWelcome (message : EncryptedGroupEnvelope)
  | queue (message : EncryptedGroupEnvelope)
  | nextReady

def OrdererOp.isSetWelcome : OrdererOp → Bool
  | .setWelcome _ => true
  | .control .. | .application .. | .queue _ | .nextReady => false

/-- An orderer with the envelopes of others it was handed, and those it has handed out. -/
structure OrdererLog where
  state : OrderingState
  queued : List EncryptedGroupEnvelope
  yielded : List EncryptedGroupEnvelope

namespace OrdererLog

open OrderingState

variable {contentId : EncryptedGroupContent → OpId}

def new (myId : PeerId) : OrdererLog := ⟨.new myId, [], []⟩

def step (contentId : EncryptedGroupContent → OpId) (l : OrdererLog) : OrdererOp → OrdererLog
  | .control control directMessages =>
    { l with state := (l.state.nextControlMessage contentId control directMessages).1 }
  | .application generation ciphertext =>
    { l with state := (l.state.nextApplicationMessage contentId generation ciphertext).1 }
  | .setWelcome message => { l with state := l.state.setWelcome message }
  | .queue message => { l with
      state := l.state.queue message
      queued := if message.sender = l.state.myId then l.queued else l.queued ++ [message] }
  | .nextReady =>
    let r := l.state.nextReadyMessage
    { l with state := r.1, yielded := l.yielded ++ r.2.toList }

/-- The orderer as a machine; what it hands out is in its log. -/
def machine (contentId : EncryptedGroupContent → OpId) : Machine OrdererLog OrdererOp Empty :=
  ⟨fun l op => (l.step contentId op, [])⟩

/-- What was handed out, and what waits to be, in order. -/
def history (l : OrdererLog) : List EncryptedGroupEnvelope := l.yielded ++ l.state.pending

theorem queue_of_known {y : OrderingState} {m : EncryptedGroupEnvelope}
    (h : m.sender = y.myId ∨ (y.messages.lookup m.id).isSome) : y.queue m = y := by
  unfold queue
  rcases h with h | h
  · rw [if_pos h]
  · simp [h]

/-- A new message of another peer. -/
structure Novel (y : OrderingState) (m : EncryptedGroupEnvelope) : Prop where
  sender : m.sender ≠ y.myId
  lookup : y.messages.lookup m.id = none

theorem novel_or_known {y : OrderingState} {m : EncryptedGroupEnvelope} :
    Novel y m ∨ m.sender = y.myId ∨ (y.messages.lookup m.id).isSome := by
  by_cases hs : m.sender = y.myId
  · exact .inr (.inl hs)
  · cases hl : y.messages.lookup m.id with
    | none => exact .inl ⟨hs, hl⟩
    | some _ => exact .inr (.inr rfl)

section

variable (contentId)

variable {l : OrdererLog}

/-- **Nothing waits for a dependency**, whatever the operations, as long as the welcome is set at
most once. -/
theorem prompt_step (h : l.state.Prompt) {op : OrdererOp}
    (hw : op.isSetWelcome → l.state.welcomeMessage = none) :
    (l.step contentId op).state.Prompt := by
  cases op with
  | control | application => exact h.insert_own rfl _
  | setWelcome w => exact h.setWelcome (hw rfl) w
  | queue m =>
    show (l.state.queue m).Prompt
    rcases novel_or_known with hn | hk
    · exact h.queue_new hn.sender hn.lookup
    · rwa [queue_of_known hk]
  | nextReady => exact h.nextReadyMessage.prompt

theorem welcomeMessage_step (h : l.state.Prompt) {op : OrdererOp} (hop : op.isSetWelcome = false) :
    (l.step contentId op).state.welcomeMessage = l.state.welcomeMessage := by
  cases op with
  | control | application => rfl
  | setWelcome => cases hop
  | queue m =>
    show (l.state.queue m).welcomeMessage = _
    rcases novel_or_known with hn | hk
    · rw [h.queue_of_new hn.sender hn.lookup]
    · rw [queue_of_known hk]
  | nextReady => exact h.nextReadyMessage.welcomeMessage

/-! ### The history -/

/-- The identifier is not that of a message that waits. -/
def Unused (y : OrderingState) (id : OpId) : Prop := id ∈ y.ready → y.isWelcome id

instance (y : OrderingState) (id : OpId) : Decidable (Unused y id) :=
  inferInstanceAs (Decidable (_ → _))

theorem history_control {ctl : ControlMessage} {dm : List Bytes}
    (h : Unused l.state (contentId (.control ctl))) :
    (l.step contentId (.control ctl dm)).history = l.history :=
  congrArg (l.yielded ++ ·) (pending_insert (m := .newControl contentId l.state.myId ctl dm) h)

theorem history_application {gen : UInt32} {ct : Bytes}
    (h : Unused l.state (contentId (.application ct gen))) :
    (l.step contentId (.application gen ct)).history = l.history :=
  congrArg (l.yielded ++ ·) (pending_insert
    (m := .newApplication contentId l.state.myId ct gen []) h)

theorem history_queue_of_known {m : EncryptedGroupEnvelope}
    (h : m.sender = l.state.myId ∨ (l.state.messages.lookup m.id).isSome) :
    (l.step contentId (.queue m)).history = l.history := by
  show l.yielded ++ (l.state.queue m).pending = _
  rw [queue_of_known h]
  rfl

theorem history_queue_of_novel (h : l.state.Prompt) {m : EncryptedGroupEnvelope}
    (hm : Novel l.state m) : (l.step contentId (.queue m)).history = l.history ++ [m] := by
  show l.yielded ++ (l.state.queue m).pending = _
  rw [h.pending_queue hm.sender hm.lookup]
  exact (append_assoc _ _ _).symm

theorem history_nextReady (h : l.state.Prompt) :
    (l.step contentId .nextReady).history = l.history := by
  show (l.yielded ++ l.state.nextReadyMessage.2.toList) ++ l.state.nextReadyMessage.1.pending =
    l.yielded ++ l.state.pending
  rw [h.nextReadyMessage.pending, append_assoc]

theorem history_setWelcome (h : l.state.Prompt) (hn : l.state.welcomeMessage = none)
    (w : EncryptedGroupEnvelope) :
    (l.step contentId (.setWelcome w)).history =
      l.yielded ++ l.state.pending.filter fun m => m.id ≠ w.id :=
  congrArg (l.yielded ++ ·) (h.pending_setWelcome hn)

end

/-! ### Exactly once -/

/-- When the orderer is drained, every envelope that was queued has been handed out once, the
welcome apart. -/
def ExactlyOnce (w : EncryptedGroupEnvelope) (l : OrdererLog) : Prop :=
  ∀ m ∈ l.queued, m ≠ w → (l.yielded ++ l.state.drain (l.state.waiting + 1)).count m = 1

instance (w : EncryptedGroupEnvelope) (l : OrdererLog) : Decidable (ExactlyOnce w l) :=
  inferInstanceAs (Decidable (∀ m ∈ l.queued, m ≠ w → _ = 1))

/-- No envelope is taken for another one.  Our own messages and the welcome do not have the
identifier of another message that waits.  An envelope that is queued is the one stored under its
identifier, if there is one; otherwise it was not handed out before. -/
def Unconfused (contentId : EncryptedGroupContent → OpId) (l : OrdererLog) : OrdererOp → Prop
  | .control control _ => Unused l.state (contentId (.control control))
  | .application generation ciphertext =>
    Unused l.state (contentId (.application ciphertext generation))
  | .setWelcome w => w.id ∈ l.state.ready → l.state.messages.lookup w.id = some w
  | .queue m => m.sender ≠ l.state.myId →
    (∀ m' ∈ l.state.messages.lookup m.id,
      m' = m ∨ m ∈ l.yielded ∨ l.state.welcomeMessage = some m) ∧
    (l.state.messages.lookup m.id = none → m ∉ l.yielded)
  | .nextReady => True

instance (l : OrdererLog) : (op : OrdererOp) → Decidable (Unconfused contentId l op)
  | .control .. | .application .. => inferInstanceAs (Decidable (Unused _ _))
  | .setWelcome _ => inferInstanceAs (Decidable (_ → _))
  | .queue _ => inferInstanceAs (Decidable (_ → _ ∧ _))
  | .nextReady => inferInstanceAs (Decidable True)

/-- Everything queued is in the history once. -/
structure Served (l : OrdererLog) : Prop where
  prompt : l.state.Prompt
  nodup : l.history.Nodup
  served : ∀ m ∈ l.queued, m ∈ l.history ∨ l.state.welcomeMessage = some m
  anchor : ∀ w m, l.state.welcomeMessage = some w → l.state.messages.lookup w.id = some m →
    m = w ∨ m.sender = l.state.myId

namespace Served

variable {l : OrdererLog}

theorem new (myId : PeerId) : (OrdererLog.new myId).Served :=
  ⟨.new myId, nodup_nil, by rintro _ ⟨⟩, by rintro _ _ ⟨⟩⟩

variable {m : EncryptedGroupEnvelope}

/-- Storing a message of our own whose identifier is unused. -/
theorem insert_own (h : l.Served) (hs : m.sender = l.state.myId) (hid : Unused l.state m.id)
    (clock : ℕ) :
    Served { l with state := { l.state with
      clock, messages := l.state.messages.insert m.id m } } := by
  have hh : history { l with state := { l.state with
      clock, messages := l.state.messages.insert m.id m } } = l.history :=
    congrArg (l.yielded ++ ·) (pending_insert hid)
  refine ⟨h.prompt.insert_own hs clock, hh ▸ h.nodup, ?_, ?_⟩
  · rw [hh]
    exact h.served
  · intro w m' hw hm'
    by_cases hwm : w.id = m.id
    · rw [hwm, AList.lookup_insert] at hm'
      exact .inr (Option.some.inj hm' ▸ hs)
    · rw [AList.lookup_insert_ne hwm] at hm'
      exact h.anchor w m' hw hm'

theorem setWelcome (h : l.Served) (hn : l.state.welcomeMessage = none)
    {w : EncryptedGroupEnvelope} (hw : Unconfused contentId l (.setWelcome w)) :
    (l.step contentId (.setWelcome w)).Served := by
  have hh := history_setWelcome contentId h.prompt hn w
  have hwa : ∀ id, l.state.isWelcome id = false := fun id => by simp [isWelcome, hn]
  refine ⟨prompt_step contentId h.prompt fun _ => hn, ?_, ?_, ?_⟩
  · rw [hh]
    exact h.nodup.sublist (Sublist.append_left filter_sublist _)
  · intro m hm
    rw [hh]
    have hse := (h.served m hm).resolve_right (by rw [hn]; rintro ⟨⟩)
    rcases mem_append.1 hse with hy | hp
    · exact .inl (mem_append_left _ hy)
    · by_cases hid : m.id = w.id
      · -- what waits under the identifier of the welcome is the welcome
        obtain ⟨id, hr, -, hlo⟩ := mem_pending.1 hp
        have hkey := h.prompt.keyed id m hlo
        rw [← hkey, hid] at hr hlo
        rw [hw hr] at hlo
        exact .inr hlo
      · exact .inl (mem_append_right _ (mem_filter.2 ⟨hp, decide_eq_true hid⟩))
  · rintro _ m ⟨⟩ hm
    change (l.state.setWelcome w).messages.lookup w.id = some m at hm
    rw [lookup_setWelcome, if_pos rfl] at hm
    cases hl : l.state.messages.lookup w.id with
    | none => rw [hl] at hm; exact .inl (Option.some.inj hm).symm
    | some m' =>
      rw [hl] at hm
      obtain rfl : m' = m := Option.some.inj hm
      by_cases hs : m'.sender = l.state.myId
      · exact .inr hs
      · have hr := (h.prompt.foreign _ _ hl hs).resolve_right (by simp [hwa])
        rw [hw hr] at hl
        exact .inl (Option.some.inj hl).symm

theorem mem_queued {m' : EncryptedGroupEnvelope} (h : m' ∈ (l.step contentId (.queue m)).queued) :
    m' ∈ l.queued ∨ m' = m ∧ m.sender ≠ l.state.myId := by
  change m' ∈ ite _ _ _ at h
  split_ifs at h with hs
  · exact .inl h
  · exact (mem_append.1 h).imp_right fun hl => ⟨mem_singleton.1 hl, hs⟩

variable (h : l.Served)

include h

theorem queue_of_novel (hn : Novel l.state m) (hyi : m ∉ l.yielded) :
    (l.step contentId (.queue m)).Served := by
  have hh := history_queue_of_novel contentId h.prompt hn
  have hs : (l.step contentId (.queue m)).state = { l.state with
      messages := l.state.messages.insert m.id m, ready := l.state.ready ++ [m.id] } :=
    h.prompt.queue_of_new hn.sender hn.lookup
  have hf : m ∉ l.history := by
    intro hmem
    rcases mem_append.1 hmem with hy | hp
    · exact hyi hy
    · obtain ⟨id, -, -, hl⟩ := mem_pending.1 hp
      rw [← h.prompt.keyed id m hl, hn.lookup] at hl
      cases hl
  refine ⟨prompt_step contentId h.prompt (by rintro ⟨⟩), ?_, ?_, ?_⟩
  · rw [hh, ← concat_eq_append]
    exact h.nodup.concat hf
  · intro m' hm'
    rw [hh, hs]
    rcases mem_queued hm' with ho | ⟨rfl, -⟩
    · exact (h.served m' ho).imp_left (mem_append_left _)
    · exact .inl (mem_append_right _ (mem_singleton_self _))
  · intro w m' hw hm'
    rw [hs] at hw hm' ⊢
    have hwi : w.id ≠ m.id := by
      intro hid
      have := h.prompt.anchored w hw
      rw [hid, hn.lookup] at this
      cases this
    rw [AList.lookup_insert_ne hwi] at hm'
    exact h.anchor w m' hw hm'

/-- A stored message of another peer waits or is the welcome. -/
theorem mem_history_of_stored (hs : m.sender ≠ l.state.myId)
    (hl : l.state.messages.lookup m.id = some m) :
    m ∈ l.history ∨ l.state.welcomeMessage = some m := by
  by_cases hwe : l.state.isWelcome m.id
  · obtain ⟨w, hw, hid⟩ := isWelcome_eq_true.1 hwe
    rw [← hid] at hl
    obtain rfl := (h.anchor w m hw hl).resolve_right hs
    exact .inr hw
  · have hr := (h.prompt.foreign _ _ hl hs).resolve_right hwe
    exact .inl (mem_append_right _ (mem_pending.2 ⟨_, hr, Bool.eq_false_iff.2 hwe, hl⟩))

theorem queue (hm : Unconfused contentId l (.queue m)) : (l.step contentId (.queue m)).Served := by
  rcases novel_or_known with hn | hk
  · exact h.queue_of_novel hn ((hm hn.sender).2 hn.lookup)
  · have hh := history_queue_of_known contentId hk
    have hst : (l.step contentId (.queue m)).state = l.state := queue_of_known hk
    refine ⟨hst ▸ h.prompt, hh ▸ h.nodup, ?_, by rw [hst]; exact h.anchor⟩
    intro m' hm'
    rw [hh, hst]
    rcases mem_queued hm' with ho | ⟨rfl, hs⟩
    · exact h.served m' ho
    · obtain ⟨m'', hl⟩ := Option.isSome_iff_exists.1 (hk.resolve_left hs)
      rcases (hm hs).1 m'' hl with rfl | hy | hw
      · exact h.mem_history_of_stored hs hl
      · exact .inl (mem_append_left _ hy)
      · exact .inr hw

theorem nextReady : (l.step contentId .nextReady).Served := by
  have hh := h.prompt.nextReadyMessage
  have hhi := history_nextReady contentId h.prompt
  refine ⟨hh.prompt, hhi ▸ h.nodup, ?_, ?_⟩
  · intro m hm
    rw [hhi]
    exact (h.served m hm).imp_right hh.welcomeMessage.trans
  · intro w m hw hm
    rw [show (l.step contentId .nextReady).state.myId = _ from hh.myId]
    exact h.anchor w m (hh.welcomeMessage.symm.trans hw) (hh.messages _ _ hm)

theorem step {op : OrdererOp} (hop : Unconfused contentId l op)
    (hw : op.isSetWelcome → l.state.welcomeMessage = none) : (l.step contentId op).Served := by
  cases op with
  | control control dms => exact h.insert_own (m := .newControl contentId _ control dms) rfl hop _
  | application generation ciphertext =>
    exact h.insert_own (m := .newApplication contentId _ ciphertext generation []) rfl hop _
  | setWelcome w => exact h.setWelcome (hw rfl) hop
  | queue m => exact h.queue hop
  | nextReady => exact h.nextReady

theorem exactlyOnce {w : EncryptedGroupEnvelope} (hw : l.state.welcomeMessage = some w) :
    ExactlyOnce w l := by
  intro m hm hne
  have hd : l.state.drain (l.state.waiting + 1) = l.state.pending :=
    h.prompt.drain_eq (by rw [hw]; rfl) (Nat.lt_succ_of_le (pending_length_le))
  have hmem : m ∈ l.history := (h.served m hm).resolve_right fun hwe =>
    hne (Option.some.inj (hwe.symm.trans hw))
  rw [hd]
  exact count_eq_one_of_mem h.nodup hmem

end Served

/-- **Exactly once.**  In every run with one welcome that never confuses two envelopes, every
envelope queued, the welcome apart, has been handed out exactly once when the orderer is drained. -/
theorem exactly_once {myId : PeerId} {w : EncryptedGroupEnvelope} {pre post : List OrdererOp}
    (hpre : ∀ op ∈ pre, op.isSetWelcome = false) (hpost : ∀ op ∈ post, op.isSetWelcome = false)
    (h : (machine contentId).Along (Unconfused contentId) (.new myId)
      (pre ++ .setWelcome w :: post)) :
    ExactlyOnce w ((machine contentId).exec (.new myId) (pre ++ .setWelcome w :: post)) := by
  obtain ⟨hgp, hgs, hg⟩ := Machine.along_append.1 h
  rw [Machine.exec_append]
  have hstep : ∀ o l op, (Unconfused contentId l op ∧ op.isSetWelcome = false) →
      (Served l ∧ l.state.welcomeMessage = o) →
      Served (l.step contentId op) ∧ (l.step contentId op).state.welcomeMessage = o := by
    rintro o l op ⟨hop, hse⟩ ⟨hs, ho⟩
    refine ⟨hs.step hop fun hset' => ?_, (welcomeMessage_step contentId hs.prompt hse).trans ho⟩
    rw [hse] at hset'
    cases hset'
  have hb := Machine.exec_invariant_along
    (hgp.and (Machine.along_of_forall hpre _)) ⟨.new myId, rfl⟩ (hstep none)
  have ha := Machine.exec_invariant_along
    (hg.and (Machine.along_of_forall hpost _))
    ⟨hb.1.step hgs fun _ => hb.2, rfl⟩ (hstep (some w))
  exact ha.1.exactlyOnce ha.2

/-! ### Two runs -/

def groupCreation : EncryptedGroupEnvelope :=
  .newControl EncryptionState.plainSuite.contentId ⟨1⟩ (.create [⟨0⟩, ⟨1⟩, ⟨2⟩]) []

def textMessage (sender : PeerId) (generation : UInt32) : EncryptedGroupEnvelope :=
  .newApplication EncryptionState.plainSuite.contentId sender [42] generation []

/-- Two messages of peer 1 around the welcome, the first of which arrives twice while it waits. -/
theorem two_messages_exactly_once :
    ExactlyOnce groupCreation ((machine EncryptionState.plainSuite.contentId).exec (.new ⟨0⟩)
      ([.queue (textMessage ⟨1⟩ 0), .application 7 [1], .queue (textMessage ⟨1⟩ 0)] ++
        .setWelcome groupCreation :: [.nextReady, .queue (textMessage ⟨1⟩ 1)])) :=
  exactly_once (by decide) (by decide) (by decide +kernel)

/-- A message that comes back after it was handed out is handed out again. -/
theorem replay_yielded_twice :
    ¬ ExactlyOnce groupCreation ((machine EncryptionState.plainSuite.contentId).exec (.new ⟨0⟩)
      [.setWelcome groupCreation, .queue (textMessage ⟨1⟩ 0), .nextReady,
        .queue (textMessage ⟨1⟩ 0)]) := by
  decide +kernel

-- the same content of two senders: the second envelope is dropped
example : ¬ ExactlyOnce groupCreation
    ((machine EncryptionState.plainSuite.contentId).exec (.new ⟨0⟩)
      [.setWelcome groupCreation, .queue (textMessage ⟨1⟩ 0), .queue (textMessage ⟨2⟩ 0)]) := by
  decide +kernel

end OrdererLog

end GroupEncryption

end Boru
