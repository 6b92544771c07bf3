import Boru.ChatCore.NetEvent

/-!
# Permission to pin

The gate of the handler asks whether the sender may pin in the room in which the message arrived.
The pin is applied to the room that the message names.  So a peer that may pin in one room, and is a
friend or takes part in the other, pins in the other room whatever its rights are there.

* `pin_permission_iff` : when the callback of a pin implies the permission in the room it names.
-/

namespace Boru.ChatCore

open Authorization (AuthorizationState)
open GroupEncryption (Block)
open Gossip (TopicId)

/-- The room of a callback that pins or removes a pin. -/
def Callback.pinTopic : Callback → Option TopicId
  | .pinMessage topic _ _ _ | .unpinMessage topic _ _ _ => some topic
  | _ => none

/-- The message pins a message of the room, or removes a pin there. -/
def Message.Pins (topic : TopicId) (message : Message) : Prop :=
  ∃ hash, message = .pinMessage topic hash ∨ message = .unpinMessage topic hash

/-- The checks that a pin passes: the permission in the room of arrival, the checks of every
message, and the relation of the sender to the room that the message names. -/
def Chat.PinPasses (C : ChatCodec) (s : Chat) (d : Delivery) (m : Incoming) (topic : TopicId) :
    Prop :=
  s.app.roomAllows d.topic m.sender .pinMessages ∧ m.key C ∉ s.seen ∧
    Acceptable s.app.localPublic d m ∧
    (m.sender = s.app.localPublic ∨ s.app.isFriend m.sender ∨
      d.hooks.acceptsGroupPeer (some topic) m.sender)

section pins

variable {C : ChatCodec} {s : Chat} {d : Delivery} {m : Incoming} {topic : TopicId}

theorem Message.Pins.requiredRoomPermission {msg : Message} (h : msg.Pins topic) :
    requiredRoomPermission msg = some .pinMessages := by
  obtain ⟨hash, rfl | rfl⟩ := h <;> rfl

theorem Message.Pins.ne_roomAuthorization {msg : Message} (h : msg.Pins topic)
    (event : Bytes) : msg ≠ .roomAuthorization event := by
  obtain ⟨hash, rfl | rfl⟩ := h <;> exact nofun

/-- The callbacks of a pin that has passed every check. -/
theorem pins_dispatch (hm : m.message.Pins topic) (f : Frontend)
    (hf : ∀ cb ∈ f.calls, cb.pinTopic = none) :
    (∃ cb ∈ (dispatch C d m f).calls, cb.pinTopic = some topic) ↔
      (m.sender = f.app.localPublic ∨ f.app.isFriend m.sender ∨
        d.hooks.acceptsGroupPeer (some topic) m.sender) := by
  have hp : ∀ cb : Callback, cb.pinTopic = some topic →
      ((∃ cb' ∈ (dispatchPin C d m f topic cb).calls, cb'.pinTopic = some topic) ↔
        (m.sender = f.app.localPublic ∨ f.app.isFriend m.sender ∨
          d.hooks.acceptsGroupPeer (some topic) m.sender)) := by
    intro cb hcb
    unfold dispatchPin
    split
    · next h =>
      simp only [Bool.or_eq_true, decide_eq_true_eq, or_assoc] at h
      refine iff_of_true ⟨cb, List.mem_append_right _ (List.mem_singleton_self cb), hcb⟩ h
    · next h =>
      simp only [Bool.or_eq_true, decide_eq_true_eq, or_assoc] at h
      refine iff_of_false ?_ h
      rintro ⟨cb', hcb', ht⟩
      rw [hf cb' hcb'] at ht
      cases ht
  obtain ⟨sender, msg, sentAt⟩ := m
  obtain ⟨hash, rfl | rfl⟩ := hm
  · exact hp _ rfl
  · exact hp _ rfl

/-- The callback of a pin is invoked exactly when the pin passes its checks. -/
theorem pins_handleMessage (hm : m.message.Pins topic) :
    (∃ cb ∈ (s.handleMessage C d m).calls, cb.pinTopic = some topic) ↔ s.PinPasses C d m topic := by
  have ha : s.unauthorized d m = false ↔
      s.app.roomAllows d.topic m.sender .pinMessages = true := by
    simp [Chat.unauthorized, hm.requiredRoomPermission]
  rw [Chat.handleMessage_eq_handleContent hm.ne_roomAuthorization]
  by_cases h : s.Admits C d m
  · rw [Chat.handleContent_of_admits h]
    have hs : ∀ cb ∈ (Frontend.invoke C d.clock ⟨s.app, []⟩
        (.recordActivity m.sender)).calls, cb.pinTopic = none := by
      intro cb hcb
      obtain rfl := List.mem_singleton.1 hcb
      rfl
    rw [pins_dispatch hm _ hs]
    exact ⟨fun hr => ⟨ha.1 h.1, h.2.1, h.2.2, hr⟩, fun hp => hp.2.2.2⟩
  · refine iff_of_false ?_ fun hp => h ⟨ha.2 hp.1, hp.2.1, hp.2.2.1⟩
    obtain ⟨-, calls, hc, heq, -⟩ := Chat.handleContent_of_not_admits h
    rw [heq]
    rintro ⟨cb, hcb, ht⟩
    obtain rfl | rfl := hc
    · cases hcb
    · obtain rfl := List.mem_singleton.1 hcb
      cases ht

end pins

/-- **Permission to pin.**  The callback for the room that a pin of a remote peer names is invoked
only if the peer may pin in that room, exactly when the message arrived in that room, the peer may
pin there, or the message fails another check. -/
theorem pin_permission_iff (C : ChatCodec) (s : Chat) (d : Delivery) (p : PublicKey)
    (message : Message) (sentAt : UInt64) (backfilled : Bool) (u : TopicId)
    (hevent : d.event = .message p message sentAt backfilled) (hp : p ≠ s.app.localPublic)
    (hpin : message.Pins u) :
    ((∃ cb ∈ (s.handle C d).calls, cb.pinTopic = some u) →
        s.app.roomAllows (some u) p .pinMessages) ↔
      (d.topic = some u ∨ s.app.roomAllows (some u) p .pinMessages ∨
        ¬ (s.app.roomAllows d.topic p .pinMessages ∧
          (p, C.messageHash message, sentAt) ∉ s.seen ∧
          Acceptable s.app.localPublic d ⟨p, message, sentAt⟩ ∧
          (s.app.isFriend p ∨ d.hooks.acceptsGroupPeer (some u) p))) := by
  have hh : s.handle C d = s.handleMessage C d ⟨p, message, sentAt⟩ := by
    simp [Chat.handle, hevent]
  have hpa : s.PinPasses C d ⟨p, message, sentAt⟩ u ↔
      (s.app.roomAllows d.topic p .pinMessages ∧ (p, C.messageHash message, sentAt) ∉ s.seen ∧
        Acceptable s.app.localPublic d ⟨p, message, sentAt⟩ ∧
        (s.app.isFriend p ∨ d.hooks.acceptsGroupPeer (some u) p)) := by
    simp [Chat.PinPasses, Incoming.key, Incoming.hash, hp]
  rw [hh, pins_handleMessage hpin, hpa]
  constructor
  · intro h
    by_cases hps : s.app.roomAllows d.topic p .pinMessages ∧
        (p, C.messageHash message, sentAt) ∉ s.seen ∧
        Acceptable s.app.localPublic d ⟨p, message, sentAt⟩ ∧
        (s.app.isFriend p ∨ d.hooks.acceptsGroupPeer (some u) p)
    · exact .inr (.inl (h hps))
    · exact .inr (.inr hps)
  · rintro (ht | ha | hf) hps
    · rw [← ht]
      exact hps.1
    · exact ha
    · exact absurd hps hf

/-- A state with two managed rooms: in the first the friend `p` is a member, in the second it is
not. -/
def Chat.twoRooms (p : PublicKey) : Chat where
  app :=
    { AppState.new (AList.insert p .empty ∅) (Block.replicate 32 1) none with
      roomAuthorization := AList.insert ⟨2⟩ (.new ⟨2⟩ (Block.replicate 32 1))
        (AList.insert ⟨1⟩ ((AuthorizationState.new ⟨1⟩ (Block.replicate 32 1)).setRole p .member)
          ∅) }
  seen := ∅

/-- A member pins a message in its room, where it may. -/
theorem pin_permission_iff_member :
    let p := Block.replicate 32 9
    let message := Message.pinMessage ⟨1⟩ (Block.replicate 32 7)
    (∃ cb ∈ ((Chat.twoRooms p).handle .sample
      ⟨some ⟨1⟩, .message p message 5 false, ⟨0, 5000⟩, .default, none⟩).calls,
      cb.pinTopic = some ⟨1⟩) → (Chat.twoRooms p).app.roomAllows (some ⟨1⟩) p .pinMessages :=
  (pin_permission_iff .sample (Chat.twoRooms (Block.replicate 32 9))
    ⟨some ⟨1⟩, .message (Block.replicate 32 9) (.pinMessage ⟨1⟩ (Block.replicate 32 7)) 5 false,
      ⟨0, 5000⟩, .default, none⟩ (Block.replicate 32 9) _ 5 false ⟨1⟩ rfl (by decide)
    ⟨_, .inl rfl⟩).2 (.inl rfl)

/-- A member of one room pins a message in the other room, where it may do nothing. -/
theorem pin_across_rooms :
    let p := Block.replicate 32 9
    let message := Message.pinMessage ⟨2⟩ (Block.replicate 32 7)
    (∃ cb ∈ ((Chat.twoRooms p).handle .sample
      ⟨some ⟨1⟩, .message p message 5 false, ⟨0, 5000⟩, .default, none⟩).calls,
      cb.pinTopic = some ⟨2⟩) ∧
      (Chat.twoRooms p).app.roomAllows (some ⟨2⟩) p .pinMessages = false := by
  decide +kernel

end Boru.ChatCore
