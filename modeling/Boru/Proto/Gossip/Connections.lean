import Boru.Proto.Gossip.State

/-!
# Connections shared by several topics

The record `peerTopics` and the outbox only change through `handleOutEvent`, once for every event
of a topic.  `requests` lists these events for a step of the protocol, and `handle_eq` says that
the step runs `handleOutEvent` over them.

## Main results

* `disconnects_unshared_iff` : a run closes no connection that another topic is recorded for
  exactly if no topic asks to disconnect a peer that is recorded for it and for another topic.
* `disconnect_closes_shared` : a peer that leaves one of two topics is disconnected.
-/

namespace Boru.Gossip

variable {PI R : Type} [LinearOrder PI] [SeedableRng R] {blake3 : Bytes → Plumtree.MessageId}

section

variable (blake3 : Bytes → Plumtree.MessageId) (s : State PI R) (i : Input PI)

/-- The record of the connections as a machine of its own, that handles events of the topics. -/
def connections : Machine (ConnsMap PI) (TopicId × Topic.OutEvent PI) (OutEvent PI) :=
  ⟨fun conns request => handleOutEvent request.1 request.2 conns⟩

/-- The events of a topic that handles `event`. -/
def requestsOf (event : Topic.InEvent PI) (now : Instant)
    (states : HashMap TopicId (Topic.State PI R)) (topic : TopicId) :
    List (TopicId × Topic.OutEvent PI) :=
  match states.lookup topic with
  | none => []
  | some state => (state.handle blake3 event now).2.map fun e => (topic, e)

/-- The record of the connections when the first event of a topic is handled. -/
def State.noted : ConnsMap PI :=
  match i.event.mapped with
  | .all _ => s.peerTopics
  | .topicEvent topic event =>
    let c := Act.join ⟨s, []⟩ topic event
    if (c.states.lookup topic).isSome then (c.note topic event).peerTopics else c.peerTopics

/-- The events of the topics that a step handles, in order. -/
def State.requests : List (TopicId × Topic.OutEvent PI) :=
  match i.event.mapped with
  | .all event => (s.topics i.order).flatMap (requestsOf blake3 event i.now s.states)
  | .topicEvent topic event =>
    requestsOf blake3 event i.now (Act.join ⟨s, []⟩ topic event).states topic

end

/-! ### A step runs the connections over its requests -/

namespace Act

section

variable (blake3 : Bytes → Plumtree.MessageId) (c : Act PI R) (event : Topic.InEvent PI)
  (now : Instant) (topic : TopicId)

/-- The connections and the outbox after handling the given requests. -/
def answer (requests : List (TopicId × Topic.OutEvent PI)) : Act PI R :=
  { c with
    peerTopics := connections.exec c.peerTopics requests
    outbox := c.outbox ++ connections.trace c.peerTopics requests }

omit [SeedableRng R] in
theorem answer_nil : c.answer [] = c := by
  simp [answer]

omit [SeedableRng R] in
theorem answer_append (l₁ l₂ : List (TopicId × Topic.OutEvent PI)) :
    c.answer (l₁ ++ l₂) = (c.answer l₁).answer l₂ := by
  simp only [answer, Machine.exec_append, Machine.trace_append, List.append_assoc]

omit [SeedableRng R] in
theorem foldl_handleOut (evs : List (Topic.OutEvent PI)) :
    evs.foldl (handleOut topic) c = c.answer (evs.map fun e => (topic, e)) := by
  induction evs generalizing c with
  | nil => exact (answer_nil c).symm
  | cons e evs ih =>
    have hc : c.answer ((e :: evs).map fun e => (topic, e)) =
        (c.answer [(topic, e)]).answer (evs.map fun e => (topic, e)) := by
      rw [← answer_append]
      rfl
    have hone : c.answer [(topic, e)] = c.handleOut topic e := by
      simp [answer, handleOut, connections]
    rw [List.foldl_cons, ih, hc, hone]

/-- A topic that handles an event answers its requests, and no other topic's state changes. -/
theorem handleState_eq :
    ∃ states : HashMap TopicId (Topic.State PI R),
    c.handleState blake3 event now topic =
      { c.answer (requestsOf blake3 event now c.states topic) with states := states } ∧
      ∀ u, u ≠ topic → states.lookup u = c.states.lookup u := by
  unfold handleState requestsOf
  cases c.states.lookup topic with
  | none =>
    refine ⟨c.states, ?_, fun _ _ => rfl⟩
    rw [answer_nil]
  | some state =>
    refine ⟨c.states.insert topic (state.handle blake3 event now).1, ?_,
      fun u hu => AList.lookup_insert_ne hu⟩
    exact foldl_handleOut _ _ _

/-- Topics that handle an event one after the other answer their requests in this order. -/
theorem foldl_handleState (topics : List TopicId) (hn : topics.Nodup) :
    ∃ states : HashMap TopicId (Topic.State PI R),
      topics.foldl (handleState blake3 event now) c =
        { c.answer (topics.flatMap (requestsOf blake3 event now c.states)) with
          states := states } := by
  induction topics generalizing c with
  | nil => exact ⟨c.states, by rw [List.flatMap_nil, answer_nil]; rfl⟩
  | cons topic topics ih =>
    obtain ⟨hnot, hnodup'⟩ := List.nodup_cons.1 hn
    obtain ⟨states, hc, ho⟩ := handleState_eq blake3 c event now topic
    obtain ⟨states', hr⟩ := ih (c.handleState blake3 event now topic) hnodup'
    -- the states of the topics still to come are those before the step
    have hs : topics.flatMap (requestsOf blake3 event now states) =
        topics.flatMap (requestsOf blake3 event now c.states) := by
      refine List.flatMap_congr fun u hu => ?_
      have hne : u ≠ topic := fun h => hnot (h ▸ hu)
      rw [requestsOf, requestsOf, ho u hne]
    refine ⟨states', ?_⟩
    rw [List.foldl_cons, hr, hc, List.flatMap_cons, answer_append, hs]
    rfl

end

end Act

/-- **What a step does to the connections.** -/
theorem handle_eq (s : State PI R) (i : Input PI) :
    (s.handle blake3 i).1.peerTopics =
        connections.exec (s.noted i) (s.requests blake3 i) ∧
      (s.handle blake3 i).2 = connections.trace (s.noted i) (s.requests blake3 i) := by
  unfold State.handle State.noted State.requests
  cases i.event.mapped with
  | all event =>
    have hn : (s.topics i.order).Nodup :=
      (List.perm_insertionSort _ _).nodup_iff.2 s.states.keys_nodup
    have hall : ∀ c : Act PI R, c.peerTopics = s.peerTopics → c.states = s.states →
        c.outbox = [] →
        let c' := (s.topics i.order).foldl (Act.handleState blake3 event i.now) c
        c'.peerTopics = connections.exec s.peerTopics
            ((s.topics i.order).flatMap (requestsOf blake3 event i.now s.states)) ∧
          c'.outbox = connections.trace s.peerTopics
            ((s.topics i.order).flatMap (requestsOf blake3 event i.now s.states)) := by
      intro c hp hs ho
      obtain ⟨states, h⟩ := Act.foldl_handleState blake3 c event i.now _ hn
      rw [h, ← hp, ← hs]
      exact ⟨rfl, by rw [Act.answer, ho, List.nil_append]⟩
    cases event with
    | updatePeerData data | _ => exact hall _ rfl rfl rfl
  | topicEvent topic event =>
    have hj : ∀ c : Act PI R, c.outbox = [] → (c.join topic event).outbox = [] := by
      intro c hc
      unfold Act.join
      split
      · split <;> exact hc
      · exact hc
    have hno : ∀ c : Act PI R, (c.note topic event).states = c.states ∧
        (c.note topic event).outbox = c.outbox := by
      intro c
      cases event <;> exact ⟨rfl, rfl⟩
    dsimp only [Act.handleTopicEvent]
    generalize hc : Act.join ⟨s, []⟩ topic event = c
    have ho : c.outbox = [] := hc ▸ hj _ rfl
    have hq : ∀ c' : Act PI R,
        let c'' :=
          if event = .command .quit then { c' with states := c'.states.erase topic } else c'
        c''.peerTopics = c'.peerTopics ∧ c''.outbox = c'.outbox := by
      intro c'
      split_ifs <;> exact ⟨rfl, rfl⟩
    rw [(hq _).1, (hq _).2]
    cases hl : c.states.lookup topic with
    | none => simp [requestsOf, hl, ho]
    | some state =>
      obtain ⟨states, h, -⟩ := Act.handleState_eq blake3 (c.note topic event) event i.now topic
      simp only [Option.isSome_some, ↓reduceIte]
      rw [h, (hno c).1]
      refine ⟨rfl, ?_⟩
      show (c.note topic event).outbox ++ _ = _
      rw [(hno c).2, ho, List.nil_append]

/-! ### When closing a connection is right -/

variable (conns : ConnsMap PI)

/-- If the connection to a peer is closed on this request, no topic but the asking one is recorded
for the peer. -/
def ClosesUnshared (request : TopicId × Topic.OutEvent PI) : Prop :=
  ∀ p, .disconnectPeer p ∈ (handleOutEvent request.1 request.2 conns).2 →
    (conns.getD p ∅).erase request.1 = ∅

/-- If this request is to disconnect a peer that is recorded for the asking topic, it is recorded
for no other topic. -/
def AsksUnshared : TopicId × Topic.OutEvent PI → Prop
  | (topic, .disconnectPeer p) => topic ∈ conns.getD p ∅ → conns.getD p ∅ = {topic}
  | _ => True

instance (conns : ConnsMap PI) : DecidablePred (AsksUnshared conns)
  | (topic, .disconnectPeer p) =>
    inferInstanceAs (Decidable (topic ∈ conns.getD p ∅ → conns.getD p ∅ = {topic}))
  | (_, .sendMessage _ _) => isTrue trivial
  | (_, .emitEvent _) => isTrue trivial
  | (_, .scheduleTimer _ _) => isTrue trivial
  | (_, .peerData _ _) => isTrue trivial

theorem closesUnshared_iff (request : TopicId × Topic.OutEvent PI) :
    ClosesUnshared conns request ↔ AsksUnshared conns request := by
  obtain ⟨topic, event⟩ := request
  cases event with
  | disconnectPeer peer =>
    unfold ClosesUnshared AsksUnshared handleOutEvent HashMap.getD
    dsimp only
    cases hl : conns.lookup peer with
    | none => simp
    | some list =>
      dsimp only [Option.getD_some]
      split_ifs with hc
      · constructor
        · intro h hmem
          have her : list.erase topic = ∅ := by simpa [hl] using h peer (by simp)
          rw [← Finset.insert_erase hmem, her]
          rfl
        · intro h p hp
          obtain rfl : p = peer := by simpa using hp
          rw [hl]
          rcases hc with hmem | hem
          · rw [h hmem]
            simp
          · exact hem
      · constructor
        · exact fun _ hmem => absurd (.inl hmem) hc
        · simp
  | _ => simp [ClosesUnshared, AsksUnshared, handleOutEvent]

/-- The step emits what `handleOutEvent` makes of its requests, and closes no connection that
another topic than the asking one is recorded for. -/
def State.ClosesUnshared (blake3 : Bytes → Plumtree.MessageId) (s : State PI R) (i : Input PI) :
    Prop :=
  (s.handle blake3 i).2 = connections.trace (s.noted i) (s.requests blake3 i) ∧
    connections.Along Gossip.ClosesUnshared (s.noted i) (s.requests blake3 i)

theorem State.closesUnshared_iff (s : State PI R) (i : Input PI) :
    s.ClosesUnshared blake3 i ↔
      connections.Along AsksUnshared (s.noted i) (s.requests blake3 i) := by
  have hi := Machine.along_congr (M := connections) Gossip.closesUnshared_iff (s.noted i)
    (s.requests blake3 i)
  exact ⟨fun h => hi.1 h.2, fun h => ⟨(handle_eq s i).2, hi.2 h⟩⟩

/-- **When shared connections stay open.**  The steps of a run close no connection that another
topic is recorded for exactly if no topic asks to disconnect a peer that is recorded both for it
and for another topic. -/
theorem disconnects_unshared_iff (blake3 : Bytes → Plumtree.MessageId) (me : PI) (meData : PeerData)
    (config : Topic.Config) (rng : R) (inputs : List (Input PI)) :
    let s₀ := State.new me meData config rng
    (machine blake3).Along (State.ClosesUnshared blake3) s₀ inputs ↔
      (machine blake3).Along
        (fun s i => connections.Along AsksUnshared (s.noted i) (s.requests blake3 i))
        s₀ inputs := by
  intro s₀
  exact Machine.along_congr State.closesUnshared_iff s₀ inputs

/-- Peer `1` joins two topics and leaves the first one: its connection is closed although it is
still recorded for the second topic and a neighbor there. -/
theorem disconnect_closes_shared :
    let blake3 : Bytes → Plumtree.MessageId := fun content => ⟨content.length⟩
    let a : TopicId := ⟨0⟩
    let b : TopicId := ⟨1⟩
    let at0 : InEvent ℕ → Input ℕ := fun event => ⟨event, 0, fun _ => 0⟩
    let s₀ : State ℕ (List ℕ) := .new 0 ⟨[]⟩ {} []
    let s := (machine blake3).exec s₀ [at0 (.command a (.join [])), at0 (.command b (.join [])),
      at0 (.recvMessage 1 ⟨a, .swarm (.join none)⟩), at0 (.recvMessage 1 ⟨b, .swarm (.join none)⟩)]
    let i := at0 (.recvMessage 1 ⟨a, .swarm (.disconnect ⟨true, false⟩)⟩)
    let r := s.handle blake3 i
    .disconnectPeer 1 ∈ r.2 ∧ (s.noted i).lookup 1 = some {a, b} ∧
      (r.1.states.lookup b).map (fun t => decide (1 ∈ t.swarm.activeView)) = some true ∧
      ¬ s.ClosesUnshared blake3 i := by
  intro blake3 a b at0 s₀ s i r
  rw [State.closesUnshared_iff]
  decide +kernel

end Boru.Gossip
