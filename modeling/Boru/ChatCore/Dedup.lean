import Boru.ChatCore.NetEvent

/-!
# What deduplication loses

The transport delivers a message several times, so the handler remembers the messages it has seen.
A message is remembered under its sender, the hash of its contents and the second of sending; the
identity of its envelope and the room are not part of the key, and it is remembered before the
handler has decided whether to drop it.  So a message is lost if another message with the same
contents was sent in the same second, to the same room or to another, or if an earlier delivery of
it was dropped because its sender was blocked or its time was not acceptable yet.

* `nothing_lost` : nothing else is lost.
-/

namespace Boru.ChatCore

open GroupEncryption (Block)
open Gossip (TopicId)

/-- A signed message that arrives in a room. -/
structure Arrival where
  signed : SignedMessage
  topic : Option TopicId
  clock : Clock
  hooks : Hooks
  /-- What the transport cache holds for the key of the message. -/
  cached : Option SignedMessage

namespace Arrival

def delivery (a : Arrival) : Delivery := ⟨a.topic, a.signed.toEvent, a.clock, a.hooks, a.cached⟩

def incoming (a : Arrival) : Incoming := ⟨a.signed.sender, a.signed.message, a.signed.sentAt⟩

/-- The key under which the message is remembered. -/
def key (C : ChatCodec) (a : Arrival) : DedupKey := a.incoming.key C

/-- The envelopes are the same: the sender and the message id are. -/
def SameEnvelope (a b : Arrival) : Prop :=
  a.signed.sender = b.signed.sender ∧ a.signed.messageId = b.signed.messageId

instance decidableSameEnvelope (a b : Arrival) : Decidable (a.SameEnvelope b) :=
  inferInstanceAs (Decidable (_ ∧ _))

end Arrival

/-- The handler fed with signed messages; it reports which of them it dropped and why. -/
def arrivals (C : ChatCodec) : Machine Chat Arrival (Arrival × Option Drop) where
  step s a := ((s.handle C a.delivery).chat, [(a, (s.handle C a.delivery).dropped)])

/-- The envelope has been processed: it was delivered and not dropped. -/
def Processed (history : List (Arrival × Option Drop)) (a : Arrival) : Prop :=
  ∃ r ∈ history, r.2 = none ∧ r.1.SameEnvelope a

instance decidableProcessed (history : List (Arrival × Option Drop)) (a : Arrival) :
    Decidable (Processed history a) :=
  inferInstanceAs (Decidable (∃ r ∈ history, r.2 = none ∧ r.1.SameEnvelope a))

/-! ### What is remembered -/

namespace Chat

variable {C : ChatCodec} {s : Chat} {d : Delivery} {m : Incoming}

theorem mem_of_mem_remember {seen : HashMap DedupKey Instant} {k key : DedupKey} {now : Instant}
    (h : k ∈ remember seen key now) : k = key ∨ k ∈ seen := by
  have hi : k ∈ seen.insert key now → k = key ∨ k ∈ seen := (AList.mem_insert _).1
  unfold remember at h
  dsimp only at h
  split at h
  · rw [← AList.lookup_isSome, pruneSeenMessages, HashMap.lookup_retain] at h
    exact hi (AList.lookup_isSome.1 (Option.isSome_of_isSome_bind h))
  · exact hi h

/-- What is remembered after content was handled was remembered before, or it is the content, and
then the content was dispatched if it was acceptable. -/
theorem mem_seen_handleContent {k : DedupKey} (h : k ∈ (s.handleContent C d m).chat.seen) :
    k ∈ s.seen ∨ k = m.key C ∧
      (Acceptable s.app.localPublic d m → (s.handleContent C d m).dropped = none) := by
  by_cases ha : s.unauthorized d m
  · simp only [handleContent, ha] at h
    exact .inl h
  by_cases hs : m.key C ∈ s.seen
  · simp only [handleContent, ha, hs] at h
    obtain rfl | h := (AList.mem_insert _).1 h
    · exact .inl hs
    · exact .inl h
  · have hr : (s.handleContent C d m).chat.seen = remember s.seen (m.key C) d.clock.instant := by
      rw [handleContent, if_neg ha]
      split_ifs <;> rfl
    rw [hr] at h
    obtain rfl | h := mem_of_mem_remember h
    · exact .inr ⟨rfl, fun hac => dropped_handleContent_eq_none.2 ⟨by simpa using ha, hs, hac⟩⟩
    · exact .inl h

end Chat

/-- Everything remembered was delivered, and dispatched if it was acceptable then. -/
structure Remembers (C : ChatCodec) (localPublic : PublicKey) (s : Chat)
    (history : List (Arrival × Option Drop)) : Prop where
  localPublic_eq : s.app.localPublic = localPublic
  recorded : ∀ k ∈ s.seen, ∃ r ∈ history, r.1.key C = k ∧
    (Acceptable localPublic r.1.delivery r.1.incoming → r.2 = none)

/-- Every delivery keeps the record. -/
theorem Remembers.step {C : ChatCodec} {lp : PublicKey} {s : Chat}
    {history : List (Arrival × Option Drop)} (h : Remembers C lp s history) (a : Arrival) :
    Remembers C lp ((arrivals C).step s a).1 (history ++ ((arrivals C).step s a).2) := by
  have ho : ∀ k ∈ s.seen, ∃ r ∈ history ++ [(a, (s.handle C a.delivery).dropped)],
      r.1.key C = k ∧ (Acceptable lp r.1.delivery r.1.incoming → r.2 = none) := by
    intro k hk
    obtain ⟨r, hr, hrk⟩ := h.recorded k hk
    exact ⟨r, List.mem_append_left _ hr, hrk⟩
  have hh : s.handle C a.delivery = s.handleMessage C a.delivery a.incoming := rfl
  refine ⟨(s.localPublic_handle a.delivery).trans h.localPublic_eq, fun k hk => ?_⟩
  by_cases hev : ∃ ev, a.incoming.message = .roomAuthorization ev
  · -- authorization events are not remembered
    obtain ⟨ev, hev⟩ := hev
    refine ho k ?_
    change k ∈ (s.handle C a.delivery).chat.seen at hk
    rw [hh, Chat.handleMessage, hev] at hk
    simp only [Chat.handleAuthorization] at hk
    split at hk <;> exact hk
  · have hc : s.handle C a.delivery = s.handleContent C a.delivery a.incoming := by
      exact Chat.handleMessage_eq_handleContent fun ev he => hev ⟨ev, he⟩
    change k ∈ (s.handle C a.delivery).chat.seen at hk
    rw [hc] at hk
    obtain hk | ⟨rfl, ha⟩ := Chat.mem_seen_handleContent hk
    · exact ho k hk
    · refine ⟨_, List.mem_append_right _ (List.mem_singleton_self _), rfl, fun h' => ?_⟩
      rw [hc]
      exact ha (by rw [h.localPublic_eq]; exact h')

theorem mem_run_of_mem_trace {C : ChatCodec} {run : List Arrival} {s : Chat}
    {r : Arrival × Option Drop} (h : r ∈ (arrivals C).trace s run) : r.1 ∈ run := by
  induction run generalizing s with
  | nil => cases h
  | cons a run ih =>
    obtain h | h := List.mem_append.1 h
    · obtain rfl := List.mem_singleton.1 h
      exact List.mem_cons_self
    · exact List.mem_cons_of_mem _ (ih h)

/-- Authorization events are never duplicates. -/
theorem Chat.mem_seen_of_duplicate_message {C : ChatCodec} {s : Chat} {d : Delivery} {m : Incoming}
    (h : (s.handleMessage C d m).dropped = some .duplicate) :
    m.key C ∈ s.seen := by
  unfold handleMessage at h
  split at h
  · unfold handleAuthorization at h
    split at h
    · cases h
    · dsimp only at h
      split at h <;> cases h
  · unfold handleContent at h
    split_ifs at h with ha hs
    · cases h
    · exact hs
    all_goals cases h

/-- **What deduplication loses.**  Suppose that all earlier deliveries with the key of a message
carried the same envelope and came from a sender that was not blocked, at an acceptable time.  Then
the message is suppressed as a duplicate only if its envelope has been processed, and if it may be
sent in the room and is acceptable now, it is processed now or has been before. -/
theorem nothing_lost (C : ChatCodec) (app : AppState) (run : List Arrival) (a : Arrival)
    (hrun : ∀ b ∈ run, b.key C = a.key C → b.SameEnvelope a ∧
      Acceptable app.localPublic b.delivery b.incoming) :
    let s := (arrivals C).exec ⟨app, ∅⟩ run
    let history := (arrivals C).trace ⟨app, ∅⟩ run
    ((s.handle C a.delivery).dropped = some .duplicate → Processed history a) ∧
    ((∀ ev, a.signed.message ≠ .roomAuthorization ev) →
      s.unauthorized a.delivery a.incoming = false →
      Acceptable app.localPublic a.delivery a.incoming →
      (s.handle C a.delivery).dropped = none ∨ Processed history a) := by
  intro s history
  have hs : Remembers C app.localPublic s history :=
    Machine.trace_invariant_along (G := fun _ _ => True)
      (Machine.along_of_forall (fun _ _ => trivial) _)
      ⟨rfl, fun k hk => absurd hk (AList.notMem_empty k)⟩ fun s h a _ hr => hr.step a
  -- what is remembered under the key of the message was the same envelope, and was dispatched
  have hp : a.key C ∈ s.seen → Processed history a := by
    intro hk
    obtain ⟨r, hr, hrk, hn⟩ := hs.recorded _ hk
    obtain ⟨hsa, hac⟩ := hrun r.1 (mem_run_of_mem_trace hr) hrk
    exact ⟨r, hr, hn hac, hsa⟩
  have hh : s.handle C a.delivery = s.handleMessage C a.delivery a.incoming := rfl
  constructor
  · intro hd
    exact hp (Chat.mem_seen_of_duplicate_message hd)
  · intro hc ha hac
    rw [hh, Chat.handleMessage_eq_handleContent hc, Chat.dropped_handleContent_eq_none]
    by_cases hk : a.key C ∈ s.seen
    · exact .inr (hp hk)
    · exact .inl ⟨ha, hk, by rw [hs.localPublic_eq]; exact hac⟩

/-- A text of a peer, sent in second 5 and arriving in room `topic` at the given milliseconds. -/
def Arrival.text (id : UInt8) (topic : TopicId) (unixMs : UInt64) (hooks : Hooks) : Arrival where
  signed := ⟨Block.replicate 32 9, .message "hello", 5, Block.replicate 32 id⟩
  topic := topic
  clock := ⟨unixMs.toNat, unixMs⟩
  hooks := hooks
  cached := none

/-- A state with two rooms that the peer owns. -/
def AppState.ownedRooms : AppState :=
  { AppState.new ∅ (Block.replicate 32 1) none with
    roomAuthorization := AList.insert ⟨2⟩ (.new ⟨2⟩ (Block.replicate 32 9))
      (AList.insert ⟨1⟩ (.new ⟨1⟩ (Block.replicate 32 9)) ∅) }

/-- A message that is delivered twice is processed once. -/
theorem nothing_lost_redelivery :
    let a := Arrival.text 1 ⟨1⟩ 5000 .default
    let s := (arrivals .sample).exec ⟨.ownedRooms, ∅⟩ [a]
    (s.handle .sample a.delivery).dropped = some .duplicate ∧
      Processed ((arrivals .sample).trace ⟨.ownedRooms, ∅⟩ [a]) a := by
  refine ⟨by decide +kernel, ?_⟩
  refine (nothing_lost .sample .ownedRooms [.text 1 ⟨1⟩ 5000 .default] (.text 1 ⟨1⟩ 5000 .default)
    ?_).1 (by decide +kernel)
  intro b hb _
  obtain rfl := List.mem_singleton.1 hb
  exact ⟨⟨rfl, rfl⟩, rfl, fun _ => ⟨by decide, by decide⟩⟩

/-- Four messages that are suppressed and never processed: the same text sent again in the same
second, the same text sent to another room, a message that was first delivered while its sender was
blocked, and one that was first delivered by a clock that is behind by more than five minutes. -/
theorem messages_lost :
    let lost (first second : Arrival) : Prop :=
      (((arrivals .sample).exec ⟨.ownedRooms, ∅⟩ [first]).handle .sample second.delivery).dropped =
          some .duplicate ∧
        ¬ Processed ((arrivals .sample).trace ⟨.ownedRooms, ∅⟩ [first]) second
    lost (.text 1 ⟨1⟩ 5000 .default) (.text 2 ⟨1⟩ 5000 .default) ∧
    lost (.text 1 ⟨1⟩ 5000 .default) (.text 2 ⟨2⟩ 5000 .default) ∧
    lost (.text 1 ⟨1⟩ 5000 { Hooks.default with isBlocked := fun _ => true })
      (.text 1 ⟨1⟩ 6000 .default) ∧
    lost { Arrival.text 1 ⟨1⟩ 5000 .default with
        signed := ⟨Block.replicate 32 9, .message "hello", 500, Block.replicate 32 1⟩ }
      { Arrival.text 1 ⟨1⟩ 500000 .default with
        signed := ⟨Block.replicate 32 9, .message "hello", 500, Block.replicate 32 1⟩ } := by
  decide +kernel

end Boru.ChatCore
