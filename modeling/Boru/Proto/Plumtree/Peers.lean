import Boru.Proto.Plumtree.Delivery

/-!
# The eager and the lazy peers

`State.moves` is what an event does to the two peer sets, as a list of moves that only depends on
the event and on the state before it; `handle_peers` says that `State.handle` performs exactly
these moves.  Every move keeps the sets disjoint, and `mem_applyAll` says which peers are in one of
the sets afterwards.
-/

namespace Boru.Plumtree

variable {PI : Type} [LinearOrder PI] {blake3 : Bytes → MessageId}

structure Peers (PI : Type) [LT PI] where
  eager : BTreeSet PI
  /-- Peers used for control message exchange. -/
  lazy : BTreeSet PI

/-- A change of the peer sets. -/
inductive Move (PI : Type) where
  | toEager (peer : PI)
  | toLazy (peer : PI)
  | drop (peer : PI)
  deriving DecidableEq

/-- The peer a move puts into one of the sets. -/
def Move.inserted : Move PI → Option PI
  | .toEager peer => some peer
  | .toLazy peer => some peer
  | .drop _ => none

namespace Peers

def apply (s : Peers PI) : Move PI → Peers PI
  | .toEager peer => ⟨s.eager.insert peer, s.lazy.remove peer⟩
  | .toLazy peer => ⟨s.eager.remove peer, s.lazy.insert peer⟩
  | .drop peer => ⟨s.eager.remove peer, s.lazy.remove peer⟩

def applyAll (s : Peers PI) (ms : List (Move PI)) : Peers PI := ms.foldl apply s

instance : Membership PI (Peers PI) := ⟨fun s p => p ∈ s.eager ∨ p ∈ s.lazy⟩

instance (s : Peers PI) (p : PI) : Decidable (p ∈ s) :=
  inferInstanceAs (Decidable (p ∈ s.eager ∨ p ∈ s.lazy))

/-- No peer is in both sets. -/
def Apart (s : Peers PI) : Prop := ∀ p ∈ s.eager, p ∉ s.lazy

variable {s : Peers PI} {p : PI}

theorem mem_def : p ∈ s ↔ p ∈ s.eager ∨ p ∈ s.lazy := Iff.rfl

theorem Apart.apply (h : s.Apart) (m : Move PI) : (s.apply m).Apart := by
  intro p hp
  cases m with
  | toEager peer =>
    simp only [Peers.apply, BTreeSet.mem_insert, BTreeSet.mem_remove] at hp ⊢
    rcases hp with rfl | hp
    · exact fun hl => hl.1 rfl
    · exact fun hl => h p hp hl.2
  | toLazy peer =>
    simp only [Peers.apply, BTreeSet.mem_insert, BTreeSet.mem_remove] at hp ⊢
    exact fun hl => hl.elim hp.1 (h p hp.2)
  | drop peer =>
    simp only [Peers.apply, BTreeSet.mem_remove] at hp ⊢
    exact fun hl => h p hp.2 hl.2

theorem Apart.applyAll (h : s.Apart) (ms : List (Move PI)) : (s.applyAll ms).Apart := by
  induction ms generalizing s with
  | nil => exact h
  | cons m ms ih => exact ih (h.apply m)

theorem mem_apply {m : Move PI} : p ∈ s.apply m ↔ m ≠ .drop p ∧ (m.inserted = some p ∨ p ∈ s) := by
  cases m with
  | toEager peer | toLazy peer =>
    simp only [mem_def, apply, Move.inserted, Option.some.injEq, eq_comm (a := peer)]
    by_cases h : p = peer <;> simp [h]
  | drop peer =>
    simp only [mem_def, apply, Move.inserted]
    by_cases h : p = peer
    · simp [h]
    · simp [h, eq_comm (a := peer)]

/-- Without drops, a peer is in one of the sets afterwards if it was before or was inserted. -/
theorem mem_applyAll {ms : List (Move PI)} (h : .drop p ∉ ms) :
    p ∈ s.applyAll ms ↔ (∃ m ∈ ms, m.inserted = some p) ∨ p ∈ s := by
  induction ms generalizing s with
  | nil => simp [applyAll]
  | cons m ms ih =>
    obtain ⟨hm, hms⟩ := List.ne_and_not_mem_of_not_mem_cons h
    have := ih (s := s.apply m) hms
    rw [mem_apply] at this
    simp only [applyAll, List.foldl_cons] at this ⊢
    rw [this]
    simp only [List.mem_cons, exists_eq_or_imp, hm.symm, ne_eq, not_false_eq_true, true_and]
    rw [or_left_comm, ← or_assoc]

end Peers

section

variable (blake3 : Bytes → MessageId) (received : Received)
  (s : State PI)

def State.peers : Peers PI := ⟨s.eagerPushPeers, s.lazyPushPeers⟩

def optimizeMoves (threshold : Round) (eager : BTreeSet PI) (sender : PI) (round : Round)
    (iHaves : List (PI × Round)) : List (Move PI) :=
  match bestIHave iHaves with
  | none => []
  | some (peer, r) =>
    if r < round ∧ threshold ≤ round - r then
      if peer ∈ eager then [.toLazy sender] else [.toEager peer, .toLazy sender]
    else []

def gossipMoves (sender : PI) (message : Gossip) : List (Move PI) :=
  if !message.validate blake3 then []
  else if received.containsKey message.id then
    if message.id ∈ s.locallyAuthored then [] else [.toLazy sender]
  else match message.scope, s.missingMessages.lookup message.id with
    | .swarm round, some iHaves =>
      optimizeMoves s.config.optimizationThreshold s.eagerPushPeers sender round.next iHaves
    | _, _ => []

/-- The moves of an event, when the ids in `received` were received before. -/
def eventMoves : InEvent PI → List (Move PI)
  | .recvMessage sender (.gossip message) => gossipMoves blake3 received s sender message
  | .recvMessage sender .prune => [.toLazy sender]
  | .recvMessage sender (.graft _) => [.toEager sender]
  | .recvMessage _ (.iHave _) => []
  | .broadcast _ _ => []
  | .neighborUp peer => [.toEager peer]
  | .neighborDown peer => [.drop peer]
  | .timerExpired (.sendGraft id) =>
    if received.containsKey id then []
    else match s.missingMessages.lookup id with
      | some ((peer, _) :: _) => [.toEager peer]
      | _ => []
  | .timerExpired _ => []

def State.moves (event : InEvent PI) (now : Instant) : List (Move PI) :=
  eventMoves blake3 (s.receivedAt now) s event

end

namespace Act

variable {c : Act PI} {msg : Gossip}

theorem peers_acceptSwarm (sender : PI) (round : Round) (now : Instant) :
    (c.acceptSwarm sender msg round now).peers = c.peers.applyAll
      (match c.missingMessages.lookup msg.id with
        | none => []
        | some ih => optimizeMoves c.config.optimizationThreshold c.eagerPushPeers sender
            round.next ih) := by
  obtain ⟨queue, scheduled, l, cache, h, -, -⟩ := storeSwarm_spec sender msg round now
  unfold acceptSwarm
  rw [h]
  cases c.missingMessages.lookup msg.id with
  | none => rfl
  | some ih =>
    dsimp only [optimizeTree, optimizeMoves]
    cases bestIHave ih with
    | none => rfl
    | some x => dsimp only; split_ifs <;> rfl

theorem peers_onGossip {sender : PI} {now : Instant} :
    (onGossip blake3 c sender msg now).peers =
      c.peers.applyAll (gossipMoves blake3 c.receivedMessages c.toState sender msg) := by
  unfold onGossip gossipMoves
  split_ifs
  · rfl
  · rfl
  · rfl
  · cases hs : msg.scope with
    | neighbors => rfl
    | swarm round =>
      refine (peers_acceptSwarm _ _ _).trans ?_
      simp only [push]
      cases c.missingMessages.lookup msg.id <;> rfl

theorem handleEvent_peers (blake3 : Bytes → MessageId) (c : Act PI) (now : Instant)
    (ev : InEvent PI) :
    (handleEvent blake3 c now ev).peers =
      c.peers.applyAll (eventMoves blake3 c.receivedMessages c.toState ev) := by
  cases ev with
  | recvMessage sender msg =>
    cases msg with
    | gossip ds => exact peers_onGossip
    | prune => rfl
    | graft ds =>
      simp only [handleEvent, handleMessage, onGraft]
      split
      · rfl
      · split <;> rfl
    | iHave ds =>
      obtain ⟨missing, scheduled, l, h, -⟩ := onIHave_spec { c with stats := { c.stats with
        controlMessagesReceived := c.stats.controlMessagesReceived + 1 } } sender ds
      rw [handleEvent, handleMessage, h]
      rfl
  | broadcast content scope =>
    cases scope with
    | swarm =>
      obtain ⟨queue, scheduled, l, h, -, -⟩ := broadcast_swarm_spec blake3 c content now
      rw [handleEvent, h]
      rfl
    | neighbors =>
      obtain ⟨l, h, -⟩ := broadcast_neighbors_spec blake3 c content now
      rw [handleEvent, h]
      rfl
  | neighborUp peer | neighborDown peer => rfl
  | timerExpired timer =>
    cases timer with
    | sendGraft id =>
      simp only [handleEvent, onSendGraftTimer, eventMoves]
      split_ifs
      · rfl
      · rcases c.missingMessages.lookup id with - | (- | ⟨x, l⟩) <;> rfl
    | dispatchLazyPush => rw [handleEvent, onDispatchTimer_eq]; rfl
    | evictCache => rfl

end Act

theorem start_eventMoves (s : State PI) (ev : InEvent PI) (now : Instant) :
    eventMoves blake3 (s.receivedAt now) (Act.start ⟨s, []⟩ now).toState ev =
      s.moves blake3 ev now := by
  unfold Act.start
  split_ifs
  · rfl
  · cases ev with
    | recvMessage sender message => cases message <;> rfl
    | timerExpired timer => cases timer <;> rfl
    | _ => rfl

/-- **What an event does to the peer sets.** -/
theorem handle_peers {blake3 : Bytes → MessageId} {s : State PI} {ev : InEvent PI} {now : Instant} :
    (s.handle blake3 ev now).1.peers = s.peers.applyAll (s.moves blake3 ev now) := by
  have hs : (Act.start ⟨s, []⟩ now).peers = s.peers := by
    unfold Act.start
    split_ifs <;> rfl
  have h := Act.handleEvent_peers blake3 (Act.start ⟨s, []⟩ now) now ev
  rw [(State.start_frame s).2.1, start_eventMoves, hs] at h
  exact h

/-- Only the departure of a peer drops it. -/
theorem drop_mem_moves {s : State PI} {ev : InEvent PI} {now : Instant} {p : PI}
    (h : .drop p ∈ s.moves blake3 ev now) : ev = .neighborDown p := by
  have ho : ∀ (t : Round) (eager : BTreeSet PI) (sender : PI) (round : Round)
      (l : List (PI × Round)), .drop p ∉ optimizeMoves t eager sender round l := by
    intro t eager sender round l
    unfold optimizeMoves
    cases bestIHave l with
    | none => simp
    | some x => dsimp only; split_ifs <;> simp
  cases ev with
  | neighborDown peer =>
    obtain rfl : p = peer := by simpa [State.moves, eventMoves] using h
    rfl
  | recvMessage sender m =>
    cases m with
    | gossip m =>
      simp only [State.moves, eventMoves, gossipMoves] at h
      split_ifs at h
      · simp at h
      · simp at h
      · simp at h
      · split at h
        · exact absurd h (ho _ _ _ _ _)
        · simp at h
    | _ => simp [State.moves, eventMoves] at h
  | timerExpired timer =>
    cases timer with
    | sendGraft id =>
      simp only [State.moves, eventMoves] at h
      split_ifs at h
      · simp at h
      · split at h <;> simp at h
    | _ => simp [State.moves, eventMoves] at h
  | _ => simp [State.moves, eventMoves] at h

end Boru.Plumtree
