import Boru.Proto.Plumtree.Spec

/-!
# Delivery of gossip messages

A message is delivered to the application when it is received with a valid id that is not in the
cache of received ids (`handle_deliveries`).  The id of a delivered swarm message stays in that
cache for the configured retention: it is inserted with a later deadline by a broadcast of the
same content, and removed only when its deadline has passed.  So two deliveries of the same swarm
message are at least the retention apart (`received_apart`).
-/

namespace Boru.Plumtree

open OutEvent

variable {PI : Type} [LinearOrder PI] {blake3 : Bytes → MessageId}

/-- The message an event delivers to the application. -/
def OutEvent.delivered : OutEvent PI → Option (GossipEvent PI)
  | .emitEvent (.received event) => some event
  | _ => none

/-- The message delivered in an event, when the ids in `received` were received before. -/
def newDelivery (blake3 : Bytes → MessageId) (received : Received) :
    InEvent PI → Option (GossipEvent PI)
  | .recvMessage sender (.gossip message) =>
    if message.validate blake3 ∧ received.containsKey message.id = false
    then some (.fromMessage message sender) else none
  | _ => none

variable {event : InEvent PI}

omit [LinearOrder PI] in
/-- Only valid gossip messages are delivered. -/
theorem newDelivery_eq_some {blake3 : Bytes → MessageId}
    {received : Received} {delivery : GossipEvent PI}
    (h : newDelivery blake3 received event = some delivery) :
    ∃ sender msg, event = .recvMessage sender (.gossip msg) ∧
      blake3 msg.content = msg.id ∧ delivery = .fromMessage msg sender := by
  cases event with
  | recvMessage sender msg =>
    cases msg with
    | gossip msg =>
      simp only [newDelivery] at h
      split_ifs at h with hv
      · have hid : blake3 msg.content = msg.id := by simpa [Gossip.validate] using hv.1
        exact ⟨sender, msg, rfl, hid, (Option.some.inj h).symm⟩
    | _ => cases h
  | _ => cases h

/-- The ids of own broadcasts and the largest round. -/
def State.marks (s : State PI) : Finset MessageId × Round := (s.locallyAuthored, s.maxSeenRound)

namespace Act

variable {c : Act PI}

section

variable (blake3 : Bytes → MessageId) (received : Received)

def deliveries (c : Act PI) : List (GossipEvent PI) := c.io.filterMap delivered

/-- The id that an event records as received, when the ids in `received` were received before. -/
def newId : InEvent PI → Option MessageId
  | .broadcast content .swarm => some (blake3 content)
  | .recvMessage _ (.gossip ⟨id, content, .swarm round⟩) =>
    if Gossip.validate blake3 ⟨id, content, .swarm round⟩ ∧ received.containsKey id = false
    then some id else none
  | _ => none

/-- The cache of received ids after an event. -/
def nextReceived (retention : Duration) (now : Instant) (received : Received) :
    InEvent PI → Received
  | .timerExpired .evictCache => (received.expireUntil now).2
  | event =>
    match newId blake3 received event with
    | none => received
    | some id => received.insert id () (now + retention)

/-- A handler keeps the configuration, leaves the ids in `received` and delivers `new`. -/
structure Leaves (c c' : Act PI) (received : Received) (new : List (GossipEvent PI)) : Prop where
  config : c'.config = c.config
  received : c'.receivedMessages = received
  deliveries : c'.deliveries = c.deliveries ++ new

def nextMarks (marks : Finset MessageId × Round) : InEvent PI → Finset MessageId × Round
  | .broadcast content .swarm => (insert (blake3 content) marks.1, marks.2)
  | .recvMessage _ (.gossip message) =>
    if !message.validate blake3 then marks
    else if received.containsKey message.id then (marks.1.erase message.id, marks.2)
    else match message.scope with
      | .neighbors => marks
      | .swarm round => (marks.1, max marks.2 round)
  | _ => marks

end

/-- A handler also leaves `marks`. -/
structure Turns (c c' : Act PI) (received : Received)
    (marks : Finset MessageId × Round) (new : List (GossipEvent PI)) : Prop
    extends Leaves c c' received new where
  marks : c'.marks = marks

variable {c' : Act PI} {received : Received}
  {marks : Finset MessageId × Round}

theorem Turns.of_io {l : List (OutEvent PI)} (hc : c'.config = c.config)
    (hr : c'.receivedMessages = received) (hm : c'.marks = marks) (hio : c'.io = c.io ++ l)
    (hl : ∀ e ∈ l, e.delivered = none) : Turns c c' received marks [] := by
  refine ⟨⟨hc, hr, ?_⟩, hm⟩
  rw [Act.deliveries, hio, List.filterMap_append, List.filterMap_eq_nil_iff.2 hl]
  rfl

theorem Turns.of_same (hc : c'.config = c.config) (hr : c'.receivedMessages = received)
    (hm : c'.marks = marks) (hio : c'.io = c.io) : Turns c c' received marks [] :=
  .of_io (l := []) hc hr hm (by rw [hio, List.append_nil]) (by simp)

theorem Forward.delivered {e : OutEvent PI} (h : c.Forward e) : e.delivered = none := by
  rcases h with ⟨peer, -, gossip, rfl⟩ | rfl <;> rfl

theorem optimizeTree_turns (c : Act PI) (sender : PI) (round : Round) (l : List (PI × Round)) :
    Turns c (c.optimizeTree sender round l) c.receivedMessages c.marks [] := by
  rcases optimizeTree_cases sender round l with h | ⟨x, -, h⟩
  · rw [h]
    exact .of_same rfl rfl rfl rfl
  · rw [h]
    split_ifs
    · exact .of_io (l := [_]) rfl rfl rfl rfl (by simp [delivered])
    · exact .of_io (l := [.sendMessage x.1 (.graft ⟨none, x.2⟩), .sendMessage sender .prune]) rfl
        rfl rfl (by simp [push, addLazy, addEager]) (by simp [delivered])

theorem acceptSwarm_turns (c : Act PI) (sender : PI) (msg : Gossip) (round : Round)
    (now : Instant) :
    Turns c (c.acceptSwarm sender msg round now)
      (c.receivedMessages.insert msg.id () (now + c.config.messageIdRetention))
      (c.locallyAuthored, max c.maxSeenRound round) [] := by
  obtain ⟨queue, scheduled, l, cache, h, hl, -⟩ := storeSwarm_spec sender msg round now
  have hs : Turns c (c.storeSwarm sender msg round now)
      (c.receivedMessages.insert msg.id () (now + c.config.messageIdRetention))
      (c.locallyAuthored, max c.maxSeenRound round) [] := by
    rw [h]
    refine .of_io (l := l) rfl rfl rfl rfl fun e he => ?_
    rcases hl e he with he | rfl
    · exact he.delivered
    · rfl
  unfold acceptSwarm
  generalize c.storeSwarm sender msg round now = c' at hs ⊢
  dsimp only
  split
  · exact ⟨⟨hs.config, hs.received, hs.deliveries⟩, hs.marks⟩
  · have ho := optimizeTree_turns c' sender round.next ‹_›
    exact ⟨⟨ho.config.trans hs.config, ho.received.trans hs.received, ho.deliveries.trans
      (by rw [hs.deliveries, List.append_nil])⟩, ho.marks.trans hs.marks⟩

theorem deliveries_push_received (c : Act PI) (event : GossipEvent PI) :
    (c.push (.emitEvent (.received event))).deliveries = c.deliveries ++ [event] := by
  simp [deliveries, push, delivered]

theorem onGossip_turns (c : Act PI) (sender : PI) (msg : Gossip) (now : Instant) :
    Turns c (onGossip blake3 c sender msg now)
      (nextReceived blake3 c.config.messageIdRetention now c.receivedMessages
        (.recvMessage sender (.gossip msg)))
      (nextMarks blake3 c.receivedMessages c.marks (.recvMessage sender (.gossip msg)))
      (newDelivery blake3 c.receivedMessages (.recvMessage sender (.gossip msg))).toList := by
  obtain ⟨id, content, sc⟩ := msg
  unfold onGossip nextReceived newDelivery nextMarks
  by_cases hv : Gossip.validate blake3 ⟨id, content, sc⟩
  · by_cases hr : c.receivedMessages.containsKey id
    · have hid : newId blake3 c.receivedMessages
          (.recvMessage sender (.gossip ⟨id, content, sc⟩)) = none := by
        cases sc <;> simp [newId, hr]
      simp only [hv, hr, hid, Bool.not_true, Bool.false_eq_true, ↓reduceIte, Bool.true_eq_false,
        and_false]
      split_ifs with hm
      · exact .of_same rfl rfl rfl rfl
      · refine .of_io (l := [_]) rfl rfl ?_ rfl (by simp [delivered])
        exact Prod.ext (Finset.erase_eq_of_notMem hm).symm rfl
    · simp only [hv, hr, ↓reduceIte, and_self, Option.toList_some]
      cases sc with
      | neighbors => exact ⟨⟨rfl, rfl, deliveries_push_received c _⟩, rfl⟩
      | swarm round =>
        have ha := acceptSwarm_turns (c.push (.emitEvent (.received
          (.fromMessage ⟨id, content, .swarm round⟩ sender)))) sender ⟨id, content, .swarm round⟩
          round now
        simp only [newId, hv, hr]
        exact ⟨⟨ha.config, ha.received, ha.deliveries.trans
          (by rw [deliveries_push_received, List.append_nil])⟩, ha.marks⟩
  · have hid : newId blake3 c.receivedMessages
        (.recvMessage sender (.gossip ⟨id, content, sc⟩)) = none := by
      cases sc <;> simp [newId, hv]
    simp only [hv, hid]
    exact .of_same rfl rfl rfl rfl

/-- **What an event delivers and records as received.** -/
theorem handleEvent_turns (blake3 : Bytes → MessageId) (c : Act PI) (now : Instant)
    (event : InEvent PI) :
    Turns c (handleEvent blake3 c now event)
      (nextReceived blake3 c.config.messageIdRetention now c.receivedMessages event)
      (nextMarks blake3 c.receivedMessages c.marks event)
      (newDelivery blake3 c.receivedMessages event).toList := by
  cases event with
  | recvMessage sender msg =>
    cases msg with
    | gossip ds =>
      obtain ⟨⟨hc, hr, hd⟩, hm⟩ := @onGossip_turns _ _ blake3 { c with stats := { c.stats with
        payloadMessagesReceived := c.stats.payloadMessagesReceived + 1 } } sender ds now
      exact ⟨⟨hc, hr, hd⟩, hm⟩
    | prune => exact .of_same rfl rfl rfl rfl
    | graft ds =>
      simp only [handleEvent, handleMessage, onGraft]
      split
      · exact .of_same rfl rfl rfl rfl
      · split
        · exact .of_same rfl rfl rfl rfl
        · rename_i msg _
          exact .of_io (l := [.sendMessage sender (.gossip msg)]) rfl rfl rfl rfl
            (by simp [delivered])
    | iHave ds =>
      obtain ⟨missing, scheduled, l, h, hl⟩ := onIHave_spec { c with stats := { c.stats with
        controlMessagesReceived := c.stats.controlMessagesReceived + 1 } } sender ds
      rw [handleEvent, handleMessage, h]
      refine .of_io (l := l) rfl rfl rfl rfl fun e he => ?_
      obtain ⟨id, rfl⟩ := hl e he
      rfl
  | broadcast content scope =>
    cases scope with
    | swarm =>
      obtain ⟨queue, scheduled, l, h, hl, -⟩ := broadcast_swarm_spec blake3 c content now
      rw [handleEvent, h]
      exact .of_io (l := l) rfl rfl rfl rfl fun e he => (hl e he).delivered
    | neighbors =>
      obtain ⟨l, h, hl⟩ := broadcast_neighbors_spec blake3 c content now
      rw [handleEvent, h]
      exact .of_io (l := l) rfl rfl rfl rfl fun e he => (hl e he).delivered
  | neighborUp peer | neighborDown peer => exact .of_same rfl rfl rfl rfl
  | timerExpired timer =>
    cases timer with
    | sendGraft id =>
      simp only [handleEvent, onSendGraftTimer]
      split_ifs
      · exact .of_same rfl rfl rfl rfl
      · split
        · rename_i peer round rest _
          exact .of_io (l := [.sendMessage peer (.graft ⟨some id, round⟩),
            .scheduleTimer c.config.graftTimeout2 (.sendGraft id)]) rfl rfl rfl
            (by simp [push, addEager]) (by simp [delivered])
        · exact .of_same rfl rfl rfl rfl
    | dispatchLazyPush =>
      rw [handleEvent, onDispatchTimer_eq]
      refine .of_io (l := c.announcements) rfl rfl rfl rfl fun e he => ?_
      obtain ⟨x, -, hx⟩ := List.mem_flatMap.1 he
      obtain ⟨chunk, -, rfl⟩ := List.mem_map.1 hx
      rfl
    | evictCache =>
      exact .of_io (l := [.scheduleTimer c.config.cacheEvictInterval .evictCache]) rfl rfl rfl
        rfl (by simp [delivered])

end Act

namespace State

variable (s : State PI) (now : Instant)

/-- The received ids an event is checked against: the first event evicts the caches before. -/
def receivedAt : Received :=
  if s.init then s.receivedMessages else (s.receivedMessages.expireUntil now).2

theorem start_frame {now : Instant} :
    (Act.start ⟨s, []⟩ now).config = s.config ∧
      (Act.start ⟨s, []⟩ now).receivedMessages = s.receivedAt now ∧
      (Act.start ⟨s, []⟩ now).deliveries = [] := by
  unfold Act.start receivedAt
  split_ifs <;> exact ⟨rfl, rfl, rfl⟩

/-- An event delivers at most one message: a valid one whose id was not received. -/
theorem handle_deliveries :
    (s.handle blake3 event now).2.filterMap delivered =
      (newDelivery blake3 (s.receivedAt now) event).toList := by
  obtain ⟨-, hr, hd⟩ := start_frame s
  have h := (Act.handleEvent_turns blake3 (Act.start ⟨s, []⟩ now) now event).deliveries
  rwa [hd, hr, List.nil_append] at h

theorem handle_frame {event : InEvent PI} {now : Instant} :
    (s.handle blake3 event now).1.config = s.config ∧
      (s.handle blake3 event now).1.receivedMessages =
        Act.nextReceived blake3 s.config.messageIdRetention now (s.receivedAt now) event := by
  obtain ⟨hc, hr, -⟩ := start_frame s
  obtain ⟨⟨hc', hr', -⟩, -⟩ := Act.handleEvent_turns blake3 (Act.start ⟨s, []⟩ now) now event
  rw [hc, hr] at hr'
  exact ⟨hc'.trans hc, hr'⟩

theorem handle_marks {event : InEvent PI} {now : Instant} :
    (s.handle blake3 event now).1.locallyAuthored =
        (Act.nextMarks blake3 (s.receivedAt now) s.marks event).1 ∧
      (s.handle blake3 event now).1.maxSeenRound =
        (Act.nextMarks blake3 (s.receivedAt now) s.marks event).2 := by
  have hs : (Act.start ⟨s, []⟩ now).marks = s.marks := by
    unfold Act.start
    split_ifs <;> rfl
  rw [← (s.start_frame).2.1, ← hs]
  exact Prod.ext_iff.1 (Act.handleEvent_turns blake3 (Act.start ⟨s, []⟩ now) now event).marks

end State

/-- The id is recorded as received until `deadline` at least. -/
def KeptUntil (deadline : Instant) (id : MessageId) (received : Received) : Prop :=
  ∃ expires, deadline ≤ expires ∧ received.map.lookup id = some (expires, ())

namespace KeptUntil

variable {dl now : Instant} {id : MessageId} {received : Received}

section

variable (h : KeptUntil dl id received)

include h

theorem containsKey : received.containsKey id = true := by
  obtain ⟨expires, -, hl⟩ := h
  simp [TimeBoundCache.containsKey, hl]

/-- A later deadline replaces an earlier one. -/
theorem insert {ex : Instant} (hd : dl ≤ ex) (id' : MessageId) :
    KeptUntil dl id (received.insert id' () ex) := by
  by_cases hi : id = id'
  · subst hi
    exact ⟨ex, hd, AList.lookup_insert _⟩
  · obtain ⟨e, he, hl⟩ := h
    exact ⟨e, he, by rw [TimeBoundCache.map_insert, AList.lookup_insert_ne hi, hl]⟩

/-- Before the deadline, eviction keeps the id. -/
theorem expireUntil (hn : now < dl) : KeptUntil dl id (received.expireUntil now).2 := by
  obtain ⟨e, he, hl⟩ := h
  exact ⟨e, he, TimeBoundCache.lookup_expireUntil_of_lt hl (hn.trans_le he)⟩

end

theorem receivedAt {s : State PI} (h : KeptUntil dl id s.receivedMessages)
    (hn : now < dl) : KeptUntil dl id (s.receivedAt now) := by
  unfold State.receivedAt
  split_ifs
  · exact h
  · exact h.expireUntil hn

/-- One event before the deadline keeps the id, if a retention from now reaches the deadline. -/
theorem handle {s : State PI} (h : KeptUntil dl id s.receivedMessages) (hn : now < dl)
    (hd : dl ≤ now + s.config.messageIdRetention) (event : InEvent PI) :
    KeptUntil dl id (s.handle blake3 event now).1.receivedMessages := by
  rw [(s.handle_frame).2]
  have hr := h.receivedAt hn
  unfold Act.nextReceived
  split
  · exact hr.expireUntil hn
  · split
    · exact hr
    · exact hr.insert hd _

end KeptUntil

/-- A step delivers the swarm message `id` to the application. -/
def DeliversSwarm (blake3 : Bytes → MessageId) (id : MessageId) (out : List (OutEvent PI)) : Prop :=
  ∃ event ∈ out.filterMap delivered, (∃ round, event.scope = .swarm round) ∧
    blake3 event.content = id

instance (id : MessageId) (out : List (OutEvent PI)) : Decidable (DeliversSwarm blake3 id out) :=
  decidable_of_iff (∃ event ∈ out.filterMap delivered,
    event.scope ≠ .neighbors ∧ blake3 event.content = id) <| by
    refine exists_congr fun event => and_congr_right fun _ => and_congr_left fun _ => ?_
    cases event.scope <;> simp

variable {s : State PI} {id : MessageId}

/-- A delivered swarm message was not recorded as received before. -/
theorem not_containsKey_of_deliversSwarm {now : Instant}
    (h : DeliversSwarm blake3 id (s.handle blake3 event now).2) :
    Act.newId blake3 (s.receivedAt now) event = some id ∧
      (s.receivedAt now).containsKey id = false := by
  obtain ⟨ge, hmem, ⟨round, hr⟩, rfl⟩ := h
  rw [State.handle_deliveries, Option.mem_toList] at hmem
  cases event with
  | recvMessage sender msg =>
    cases msg with
    | gossip msg =>
      obtain ⟨id, content, scope⟩ := msg
      simp only [newDelivery] at hmem
      split_ifs at hmem with hc
      · cases hmem
        obtain rfl : scope = .swarm round := hr
        have hid : blake3 content = id := by simpa [Gossip.validate] using hc.1
        simp only [Act.newId, if_pos hc]
        exact ⟨congrArg some hid.symm, hid.symm ▸ hc.2⟩
    | _ => cases hmem
  | _ => cases hmem

theorem keptUntil_of_deliversSwarm {now : Instant}
    (h : DeliversSwarm blake3 id (s.handle blake3 event now).2) :
    KeptUntil (now + s.config.messageIdRetention) id
      (s.handle blake3 event now).1.receivedMessages := by
  obtain ⟨hid, -⟩ := not_containsKey_of_deliversSwarm h
  rw [(s.handle_frame).2]
  unfold Act.nextReceived
  split
  · cases hid
  · rw [hid]
    exact ⟨_, le_rfl, AList.lookup_insert _⟩

/-- A run keeps the id as long as its events are before the deadline, and not before the event
that set it. -/
theorem KeptUntil.exec {start : Instant}
    (h : KeptUntil (start + s.config.messageIdRetention) id s.receivedMessages)
    {is : List (InEvent PI × Instant)}
    (hin : ∀ i ∈ is, start ≤ i.2 ∧ i.2 < start + s.config.messageIdRetention) :
    KeptUntil (start + s.config.messageIdRetention) id
      ((machine blake3).exec s is).receivedMessages := by
  refine (Machine.exec_invariant_along (M := machine blake3)
    (P := fun s' => s'.config = s.config ∧
      KeptUntil (start + s.config.messageIdRetention) id s'.receivedMessages)
    (Machine.along_of_forall hin s) ⟨rfl, h⟩ fun s' i hi hs' => ?_).2
  obtain ⟨hc, hk⟩ := hs'
  refine ⟨(s'.handle_frame).1.trans hc, hk.handle hi.2 ?_ i.1⟩
  rw [hc]
  exact Nat.add_le_add_right hi.1 _

theorem exec_config {is : List (InEvent PI × Instant)} :
    ((machine blake3).exec s is).config = s.config :=
  Machine.exec_invariant (P := fun s' : State PI => s'.config = s.config) rfl
    (fun _ _ hc => (State.handle_frame _).1.trans hc) is

/-- After a delivery the id is kept, so an event before its deadline does not deliver it again. -/
theorem not_deliversSwarm_again {x y : InEvent PI × Instant} {mid : List (InEvent PI × Instant)}
    (hx : DeliversSwarm blake3 id ((machine blake3).step s x).2)
    (hm : ∀ i ∈ mid, x.2 ≤ i.2 ∧ i.2 ≤ y.2) (hlt : y.2 < x.2 + s.config.messageIdRetention) :
    ¬ DeliversSwarm blake3 id ((machine blake3).step ((machine blake3).exec s (x :: mid)) y).2 := by
  intro hy
  have hc : ((machine blake3).step s x).1.config = s.config := (State.handle_frame _).1
  have hk := keptUntil_of_deliversSwarm hx
  rw [← hc] at hk hlt
  have hk' : KeptUntil _ id
      ((machine blake3).exec ((machine blake3).step s x).1 mid).receivedMessages :=
    hk.exec fun i hi => ⟨(hm i hi).1, lt_of_le_of_lt (hm i hi).2 hlt⟩
  have hnot := (not_containsKey_of_deliversSwarm hy).2
  rw [Machine.exec_cons, (hk'.receivedAt hlt).containsKey] at hnot
  cases hnot

/-- **At-most-once delivery.**  In every run from every state, with time never going back:
deliveries of the same swarm message are at least the retention of message ids apart, an event
delivers at most one message, and only valid messages are delivered. -/
theorem received_apart (blake3 : Bytes → MessageId) (s : State PI)
    (pre mid post : List (InEvent PI × Instant)) (x y : InEvent PI × Instant) (id : MessageId)
    (hmono : ((pre ++ x :: (mid ++ y :: post)).map Prod.snd).Pairwise (· ≤ ·)) :
    let M := machine blake3
    (DeliversSwarm blake3 id (M.step (M.exec s pre) x).2 →
      DeliversSwarm blake3 id (M.step (M.exec s (pre ++ x :: mid)) y).2 →
        x.2 + s.config.messageIdRetention ≤ y.2) ∧
    ((M.step (M.exec s pre) x).2.filterMap delivered).length ≤ 1 ∧
    ∀ event ∈ (M.step (M.exec s pre) x).2.filterMap delivered,
      ∃ sender msg, x.1 = .recvMessage sender (.gossip msg) ∧
        blake3 msg.content = msg.id ∧ event = .fromMessage msg sender := by
  intro M
  have hd : (M.step (M.exec s pre) x).2.filterMap delivered =
      (newDelivery blake3 ((M.exec s pre).receivedAt x.2) x.1).toList :=
    State.handle_deliveries _ _
  refine ⟨fun hx hy => ?_, ?_, fun event he => ?_⟩
  · obtain ⟨-, hxs, -⟩ := List.pairwise_append.1 (List.map_append ▸ hmono)
    obtain ⟨hx_, hmy⟩ := List.pairwise_cons.1 (List.map_cons ▸ hxs)
    obtain ⟨-, -, hm⟩ := List.pairwise_append.1 (List.map_append ▸ hmy)
    by_contra hlt
    have hc : (M.exec s pre).config = s.config := exec_config
    rw [not_le, ← hc] at hlt
    refine not_deliversSwarm_again hx (fun i hi => ⟨?_, ?_⟩) hlt (Machine.exec_append s pre _ ▸ hy)
    · exact hx_ _ (List.mem_map_of_mem (List.mem_append_left _ hi))
    · exact hm _ (List.mem_map_of_mem hi) _ (List.mem_map_of_mem List.mem_cons_self)
  · rw [hd]
    cases newDelivery blake3 ((M.exec s pre).receivedAt x.2) x.1 <;> simp
  · rw [hd, Option.mem_toList] at he
    exact newDelivery_eq_some he

/-- The same message from two peers, with an eviction of the caches in between: it is delivered
twice once its id has expired. -/
theorem received_apart_expired :
    let blake3 : Bytes → MessageId := fun content => ⟨content.length⟩
    let M := machine blake3
    let s : State ℕ := State.new 0 {} 4096
    let msg : Gossip := ⟨blake3 [1], [1], .swarm 0⟩
    let x := (InEvent.recvMessage 1 (.gossip msg), 0)
    let y := (InEvent.recvMessage 2 (.gossip msg), 90000)
    let mid := [(InEvent.timerExpired .evictCache, 90000)]
    (DeliversSwarm blake3 msg.id (M.step (M.exec s []) x).2 ∧
      DeliversSwarm blake3 msg.id (M.step (M.exec s (x :: mid)) y).2) ∧
      x.2 + s.config.messageIdRetention ≤ y.2 := by
  intro blake3 M s msg x y mid
  have hx : DeliversSwarm blake3 msg.id (M.step (M.exec s []) x).2 := by decide +kernel
  have hy : DeliversSwarm blake3 msg.id (M.step (M.exec s (x :: mid)) y).2 := by
    decide +kernel
  exact ⟨⟨hx, hy⟩, (received_apart blake3 s [] mid [] x y msg.id (by decide)).1 hx hy⟩

end Boru.Plumtree
