import Boru.Proto.Plumtree.State

/-!
# What the PlumTree handlers change

The handlers are built from a few loops over peers.  Each of these has one lemma here that says
which fields of the state it replaces and which events it pushes (`Act.eagerPush_eq`,
`Act.lazyPush_spec`, `Act.onDispatchTimer_eq`, `Act.optimizeTree_cases`); the arguments about whole
runs use these and never the loops.
-/

namespace Boru.Plumtree

open List

variable {PI : Type} [LinearOrder PI]

omit [LinearOrder PI] in
theorem bestIHave_mem {l : List (PI × Round)} {x : PI × Round} (h : bestIHave l = some x) :
    x ∈ l := by
  cases l with
  | nil => cases h
  | cons y l =>
    -- the best announcement so far is always one of the list
    suffices hm : ∀ (l' : List (PI × Round)) (b : PI × Round), b ∈ y :: l → l' ⊆ l →
        l'.foldl (fun best z => if z.2 < best.2 then z else best) b ∈ y :: l by
      cases h
      exact hm l y mem_cons_self fun _ => id
    intro l'
    induction l' with
    | nil => exact fun b hb _ => hb
    | cons z l' ih =>
      intro b hb hl
      refine ih _ ?_ fun _ hw => hl (mem_cons_of_mem _ hw)
      dsimp only
      split_ifs
      · exact mem_cons_of_mem _ (hl mem_cons_self)
      · exact hb

namespace Act

variable {c : Act PI}

theorem foldl_push {α : Type} (f : α → OutEvent PI) (l : List α) :
    l.foldl (fun c x => c.push (f x)) c = { c with io := c.io ++ l.map f } := by
  induction l generalizing c with
  | nil => simp
  | cons x l ih => rw [foldl_cons, ih]; simp [push]

/-- The peers a message of `sender` is pushed to. -/
def eagerTargets (c : Act PI) (sender : PI) : List PI :=
  c.eagerPushPeers.keys.filter fun peer => peer ≠ c.me ∧ peer ≠ sender

theorem mem_eagerTargets {sender peer : PI} (h : peer ∈ c.eagerTargets sender) :
    peer ∈ c.eagerPushPeers := BTreeSet.mem_keys.1 (mem_filter.1 h).1

theorem eagerPush_eq (c : Act PI) (g : Gossip) (sender : PI) : c.eagerPush g sender = { c with
      io := c.io ++ (c.eagerTargets sender).map fun peer => .sendMessage peer (.gossip g) } :=
  foldl_push _ _

theorem get_foldl_enqueue (iHave : IHave) (peers : List PI) (queue : BTreeMap PI (List IHave))
    {p : PI} (hp : p ∉ peers) : (peers.foldl (enqueue iHave) queue).get p = queue.get p := by
  induction peers generalizing queue with
  | nil => rfl
  | cons peer peers ih =>
    obtain ⟨hne, hnm⟩ := ne_and_not_mem_of_not_mem_cons hp
    rw [foldl_cons, ih _ hnm, enqueue, BTreeMap.get_alter, if_neg hne]

/-- Lazy push changes the queues of lazy peers, and at most schedules their dispatch. -/
theorem lazyPush_spec (c : Act PI) (g : Gossip) (sender : PI) :
    ∃ queue scheduled l, c.lazyPush g sender = { c with
        lazyPushQueue := queue, dispatchTimerScheduled := scheduled, io := c.io ++ l } ∧
      (∀ e ∈ l, e = .scheduleTimer c.config.dispatchTimeout .dispatchLazyPush) ∧
      ∀ p, p ∉ c.lazyPushPeers → queue.get p = c.lazyPushQueue.get p := by
  unfold lazyPush
  split
  · exact ⟨c.lazyPushQueue, c.dispatchTimerScheduled, [], by simp, by simp, fun _ _ => rfl⟩
  · rename_i round _
    have hq : ∀ p, p ∉ c.lazyPushPeers →
        ((c.lazyPushPeers.keys.filter fun peer => peer ≠ sender).foldl
          (enqueue ⟨g.id, round⟩) c.lazyPushQueue).get p = c.lazyPushQueue.get p :=
      fun p hp => get_foldl_enqueue _ _ _ fun h =>
        hp (BTreeSet.mem_keys.1 (mem_filter.1 h).1)
    dsimp only
    split_ifs
    · exact ⟨_, true, [_], rfl, by simp, hq⟩
    · exact ⟨_, c.dispatchTimerScheduled, [], by simp, by simp, hq⟩

/-- The announcements sent out by a dispatch. -/
def announcements (c : Act PI) : List (OutEvent PI) :=
  c.lazyPushQueue.entries.flatMap fun e =>
    (chunks ((c.maxMessageSize - 1 - 2) / IHave.postcardMaxSize) e.2).map fun chunk =>
      .sendMessage e.1 (.iHave chunk)

/-- A dispatch empties the queue into messages. -/
theorem onDispatchTimer_eq : c.onDispatchTimer = { c with
      lazyPushQueue := ∅, dispatchTimerScheduled := false, io := c.io ++ c.announcements } := by
  have hl : ∀ (n : ℕ) (es : List (PI × List IHave)) (c : Act PI),
      es.foldl (fun c e =>
        (chunks n e.2).foldl (fun c ck => c.push (.sendMessage e.1 (.iHave ck))) c) c =
      { c with io := c.io ++ es.flatMap fun e =>
          (chunks n e.2).map fun ck => .sendMessage e.1 (.iHave ck) } := fun n es => by
    induction es with
    | nil => simp
    | cons e es ih => intro c; rw [foldl_cons, foldl_push, ih]; simp
  unfold onDispatchTimer announcements
  dsimp only
  rw [hl]

/-- The tree optimisation does nothing, or grafts a peer that announced the message (unless it is
eager already) and prunes the sender. -/
theorem optimizeTree_cases (sender : PI) (round : Round) (l : List (PI × Round)) :
    c.optimizeTree sender round l = c ∨ ∃ x ∈ l, c.optimizeTree sender round l =
      ((if x.1 ∈ c.eagerPushPeers then c
        else (c.addEager x.1).push (.sendMessage x.1 (.graft ⟨none, x.2⟩))).addLazy sender).push
          (.sendMessage sender .prune) := by
  unfold optimizeTree
  split
  · exact .inl rfl
  · rename_i peer r hb
    split_ifs with h he
    · exact .inr ⟨(peer, r), bestIHave_mem hb, by rw [if_pos he]⟩
    · exact .inr ⟨(peer, r), bestIHave_mem hb, by rw [if_neg he]⟩
    · exact .inl rfl

/-- The events with which a message is passed on: it is sent to eager peers, and a dispatch of
the announcements is scheduled. -/
def Forward (c : Act PI) (e : OutEvent PI) : Prop :=
  (∃ peer ∈ c.eagerPushPeers, ∃ gossip, e = .sendMessage peer (.gossip gossip)) ∨
    e = .scheduleTimer c.config.dispatchTimeout .dispatchLazyPush

theorem forward_of_mem_eagerTargets {g : Gossip} {sender : PI} {e : OutEvent PI}
    (h : e ∈ (c.eagerTargets sender).map fun peer => .sendMessage peer (.gossip g)) :
    c.Forward e := by
  obtain ⟨peer, hp, rfl⟩ := mem_map.1 h
  exact .inl ⟨peer, mem_eagerTargets hp, g, rfl⟩

/-- A swarm broadcast records the message as received and passes it on. -/
theorem broadcast_swarm_spec (H : Bytes → MessageId) (c : Act PI) (content : Bytes)
    (now : Instant) :
    ∃ queue scheduled l, broadcast H c content .swarm now = { c with
        receivedMessages := c.receivedMessages.insert (H content) ()
          (now + c.config.messageIdRetention)
        cache := c.cache.insert (H content) ⟨H content, content, .swarm 0⟩
          (now + c.config.messageCacheRetention)
        locallyAuthored := insert (H content) c.locallyAuthored
        lazyPushQueue := queue, dispatchTimerScheduled := scheduled, io := c.io ++ l } ∧
      (∀ e ∈ l, c.Forward e) ∧ ∀ p, p ∉ c.lazyPushPeers → queue.get p = c.lazyPushQueue.get p := by
  obtain ⟨queue, scheduled, l, h, hl, hq⟩ := lazyPush_spec { c with
    receivedMessages := c.receivedMessages.insert (H content) () (now + c.config.messageIdRetention)
    cache := c.cache.insert (H content) ⟨H content, content, .swarm 0⟩
      (now + c.config.messageCacheRetention)
    locallyAuthored := insert (H content) c.locallyAuthored }
    ⟨H content, content, .swarm 0⟩ c.me
  refine ⟨queue, scheduled, l ++ (c.eagerTargets c.me).map fun peer =>
    .sendMessage peer (.gossip ⟨H content, content, .swarm 0⟩), ?_, fun e he => ?_, hq⟩
  · simp only [broadcast, h, eagerPush_eq, append_assoc]
    rfl
  · rcases mem_append.1 he with he | he
    · exact .inr (hl e he)
    · exact forward_of_mem_eagerTargets he

/-- A broadcast to the neighbors only sends the message. -/
theorem broadcast_neighbors_spec (blake3 : Bytes → MessageId) (c : Act PI) (content : Bytes)
    (now : Instant) :
    ∃ l, broadcast blake3 c content .neighbors now = { c with io := c.io ++ l } ∧
      ∀ e ∈ l, c.Forward e :=
  ⟨_, eagerPush_eq c _ _, fun _ => forward_of_mem_eagerTargets⟩

/-- A new swarm message is recorded as received, no longer missing, and passed on; the
application may be told of a gap. -/
theorem storeSwarm_spec (sender : PI) (msg : Gossip) (round : Round) (now : Instant) :
    ∃ queue scheduled l cache, c.storeSwarm sender msg round now = { c with
        receivedMessages := c.receivedMessages.insert msg.id () (now + c.config.messageIdRetention)
        cache := cache
        maxSeenRound := max c.maxSeenRound round
        graftTimerScheduled := c.graftTimerScheduled.erase msg.id
        missingMessages := c.missingMessages.erase msg.id
        lazyPushQueue := queue, dispatchTimerScheduled := scheduled, io := c.io ++ l } ∧
      (∀ e ∈ l, c.Forward e ∨ e = .emitEvent (.missingMessages c.maxSeenRound sender)) ∧
      ∀ p, p ∉ c.lazyPushPeers → queue.get p = c.lazyPushQueue.get p := by
  let g : Gossip := { msg with scope := .swarm round.next }
  let gap : List (OutEvent PI) := if c.maxSeenRound + 1 < round
    then [.emitEvent (.missingMessages c.maxSeenRound sender)] else []
  let sent : List (OutEvent PI) := (c.eagerTargets sender).map fun peer =>
    .sendMessage peer (.gossip g)
  let c₁ : Act PI := { c with
    receivedMessages := c.receivedMessages.insert msg.id () (now + c.config.messageIdRetention)
    cache := c.cache.insert msg.id g (now + c.config.messageCacheRetention)
    maxSeenRound := max c.maxSeenRound round
    io := c.io ++ gap }
  have hs : c.storeSwarm sender msg round now =
      { (c₁.eagerPush g sender).lazyPush g sender with
        graftTimerScheduled := ((c₁.eagerPush g sender).lazyPush g sender).graftTimerScheduled.erase
          msg.id
        missingMessages := ((c₁.eagerPush g sender).lazyPush g sender).missingMessages.erase
          msg.id } := by
    simp only [storeSwarm, c₁, gap]
    split_ifs
    · rfl
    · simp only [append_nil]; rfl
  obtain ⟨queue, scheduled, l, h, hl, hq⟩ := lazyPush_spec (c₁.eagerPush g sender) g sender
  rw [eagerPush_eq] at h hl hq
  refine ⟨queue, scheduled, gap ++ sent ++ l, c₁.cache, ?_, fun e he => ?_, hq⟩
  · rw [hs, eagerPush_eq, h]
    simp only [c₁, append_assoc]
    rfl
  · rcases mem_append.1 he with he | he
    · rcases mem_append.1 he with he | he
      · refine .inr ?_
        simp only [gap] at he
        split_ifs at he
        · exact mem_singleton.1 he
        · cases he
      · exact .inl (forward_of_mem_eagerTargets he)
    · exact .inl (.inr (hl e he))

/-- Announcements only change the missing messages and schedule graft timers. -/
theorem onIHave_spec (c : Act PI) (sender : PI) (i : List IHave) :
    ∃ m scheduled l, c.onIHave sender i = { c with
        missingMessages := m, graftTimerScheduled := scheduled, io := c.io ++ l } ∧
      ∀ e ∈ l, ∃ id, e = .scheduleTimer c.config.graftTimeout1 (.sendGraft id) := by
  unfold onIHave
  induction i generalizing c with
  | nil => exact ⟨c.missingMessages, c.graftTimerScheduled, [], by simp, by simp⟩
  | cons iH i ih =>
    obtain ⟨m, scheduled, l, h, hl⟩ := ih (onIHaveOne sender c iH)
    rw [foldl_cons, h]
    unfold onIHaveOne at hl ⊢
    dsimp only at hl ⊢
    split_ifs at hl ⊢
    · exact ⟨m, scheduled, l, rfl, hl⟩
    · exact ⟨m, scheduled, l, rfl, hl⟩
    · refine ⟨m, scheduled,
        .scheduleTimer c.config.graftTimeout1 (.sendGraft iH.id) :: l, ?_, fun e he => ?_⟩
      · simp [push]
      · rcases mem_cons.1 he with rfl | he
        · exact ⟨iH.id, rfl⟩
        · exact hl e he

end Act

end Boru.Plumtree
