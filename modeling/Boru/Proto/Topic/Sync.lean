import Boru.Proto.Hyparview.Link
import Boru.Proto.Plumtree.Peers
import Boru.Proto.Topic.State

/-!
# The membership layer and the broadcast layer in step

The membership layer owns the active view, the broadcast layer owns the eager and the lazy peers.
They are synchronised only by replaying the outbox after each event.  Seen from one peer `p`, an
event leads to a list of notices about `p`; both "`p` is active" and "`p` is eager or lazy" end up
as the last of these notices, if there is one (`handle_alternates`, `handle_covered`).

## Main results

* `layers_in_sync` : the notices about a peer alternate and end with its membership in the active
  view, no peer is both eager and lazy, and every active peer is one of the two.
* `peers_active_iff` : the eager and lazy peers are all active in every state of a run exactly when
  every peer that a gossip message or a timer of the run inserts is active.
* `prune_inserts_stranger` : a `Prune` of a peer that is not active inserts it.
-/

namespace Boru.Topic

open Handshake Plumtree OutEvent

variable {PI R : Type} [LinearOrder PI] {blake3 : Bytes → MessageId}

/-- What an event tells the application about `p`. -/
def OutEvent.noticeOf (p : PI) : OutEvent PI → Option Bool
  | .emitEvent (.neighborUp peer) => if peer = p then some true else none
  | .emitEvent (.neighborDown peer) => if peer = p then some false else none
  | _ => none

/-- The event of the broadcast layer that an event of the topic amounts to, if any. -/
def InEvent.toGossip : InEvent PI → Option (Plumtree.InEvent PI)
  | .command (.broadcast content scope) => some (.broadcast content scope)
  | .recvMessage sender (.gossip message) => some (.recvMessage sender message)
  | .timerExpired (.gossip timer) => some (.timerExpired timer)
  | .peerDisconnected peer => some (.neighborDown peer)
  | _ => none

/-- The moves of peers that an event causes in the broadcast layer before the outbox is
replayed. -/
def State.moves (blake3 : Bytes → MessageId) (s : State PI R) (event : InEvent PI) (now : Instant) :
    List (Move PI) :=
  match event.toGossip with
  | none => []
  | some event => s.gossip.moves blake3 event now

/-! ### The broadcast layer alone -/

theorem noticeOf_ofGossip (p : PI) (e : Plumtree.OutEvent PI) : (ofGossip e).noticeOf p = none := by
  cases e with
  | emitEvent event => cases event <;> rfl
  | _ => rfl

namespace Act

variable {c : Act PI R}

/-- The notices about `p` in the outbox. -/
def notices (c : Act PI R) (p : PI) : List Bool := c.outbox.filterMap (noticeOf p)

theorem notices_handleGossip (now : Instant) (event : Plumtree.InEvent PI) (p : PI) :
    (c.handleGossip blake3 now event).notices p = c.notices p := by
  simp only [notices, handleGossip, List.filterMap_append, List.filterMap_map, Function.comp_def,
    noticeOf_ofGossip]
  simp

theorem notices_forwardNeighbors {now : Instant} (p : PI) :
    (c.forwardNeighbors blake3 now).notices p = c.notices p := by
  unfold forwardNeighbors
  generalize c.outbox.filterMap forwarded = evs
  induction evs generalizing c with
  | nil => rfl
  | cons event evs ih => rw [List.foldl_cons, ih, notices_handleGossip]

/-- Since the active view was `a`, the application was told of every change. -/
def Told (a : PI → Bool) (c : Act PI R) : Prop :=
  ∀ p, Alternates (a p) (c.notices p) (decide (p ∈ c.swarm.activeView))

theorem Told.handleGossip {a : PI → Bool} (h : c.Told a) (now : Instant)
    (event : Plumtree.InEvent PI) : (c.handleGossip blake3 now event).Told a := by
  intro p
  rw [notices_handleGossip]
  exact h p

theorem Told.forwardNeighbors {a : PI → Bool} (h : c.Told a) (now : Instant) :
    (c.forwardNeighbors blake3 now).Told a := by
  unfold Act.forwardNeighbors
  generalize c.outbox.filterMap forwarded = evs
  induction evs generalizing c with
  | nil => exact h
  | cons event evs ih => exact ih (h.handleGossip now event)

/-- A peer is eager or lazy after a replay of `es` if the last notice about it is an up one; with
no notice, if it was before. -/
theorem covered_forward (blake3 : Bytes → MessageId) (now : Instant) (es : List (OutEvent PI))
    (c : Act PI R) (p : PI) :
    (decide (p ∈ c.gossip.peers) :: es.filterMap (noticeOf p)).getLast? =
      some (decide (p ∈ ((es.filterMap forwarded).foldl
        (handleGossip blake3 now) c).gossip.peers)) := by
  induction es generalizing c with
  | nil => rfl
  | cons e es ih =>
    have hno : e.noticeOf p = none → e.forwarded = none →
        (decide (p ∈ c.gossip.peers) :: (e :: es).filterMap (noticeOf p)).getLast? =
          some (decide (p ∈ (((e :: es).filterMap forwarded).foldl
            (handleGossip blake3 now) c).gossip.peers)) := by
      intro hn hf
      rw [List.filterMap_cons_none hn, List.filterMap_cons_none hf]
      exact ih c
    -- a forwarded event performs its move, which decides about its own peer only
    have hmo : ∀ (event : Plumtree.InEvent PI) (m : Move PI) (q : PI) (b : Bool),
        e.forwarded = some event →
        (c.handleGossip blake3 now event).gossip.peers = c.gossip.peers.apply m →
        (e.noticeOf p = if q = p then some b else none) →
        (∀ s : Peers PI, decide (p ∈ s.apply m) = if q = p then b else decide (p ∈ s)) →
        (decide (p ∈ c.gossip.peers) :: (e :: es).filterMap (noticeOf p)).getLast? =
          some (decide (p ∈ (((e :: es).filterMap forwarded).foldl
            (handleGossip blake3 now) c).gossip.peers)) := by
      intro event m q b hf hp hn hm
      have := ih (c.handleGossip blake3 now event)
      rw [hp, hm] at this
      rw [List.filterMap_cons_some hf]
      by_cases hq : q = p
      · rw [if_pos hq] at this hn
        rw [List.filterMap_cons_some hn]
        exact this
      · rw [if_neg hq] at this hn
        rw [List.filterMap_cons_none hn]
        exact this
    cases e with
    | emitEvent event =>
      cases event with
      | neighborUp q =>
        refine hmo _ (.toEager q) q true rfl (handle_peers) rfl fun s => ?_
        by_cases hq : q = p <;> simp [Peers.mem_apply, Move.inserted]
      | neighborDown q =>
        refine hmo _ (.drop q) q false rfl (handle_peers) rfl fun s => ?_
        by_cases hq : q = p <;> simp [Peers.mem_apply, Move.inserted]
      | received event | missingMessages sinceRound fromPeer => exact hno rfl rfl
    | sendMessage peer message | scheduleTimer delay timer | disconnectPeer peer
    | peerData peer data => exact hno rfl rfl

end Act

variable {s : State PI R} {event : InEvent PI} {now : Instant} {p : PI}

/-- The broadcast layer alone gives nothing to forward. -/
theorem forwardNeighbors_handleGossip (event : Plumtree.InEvent PI) :
    (Act.handleGossip blake3 now ⟨s, []⟩ event).forwardNeighbors blake3 now =
      Act.handleGossip blake3 now ⟨s, []⟩ event := by
  have hf : ∀ e : Plumtree.OutEvent PI, (ofGossip e).forwarded = none := by
    intro e
    cases e with
    | emitEvent event => cases event <;> rfl
    | _ => rfl
  have hnil : (Act.handleGossip blake3 now ⟨s, []⟩ event).outbox.filterMap forwarded
      = [] := by
    simp [Act.handleGossip, hf]
  rw [Act.forwardNeighbors, hnil, List.foldl_nil]

theorem apart_handleGossip {c : Act PI R} (h : c.gossip.peers.Apart) {event : Plumtree.InEvent PI} :
    (c.handleGossip blake3 now event).gossip.peers.Apart := by
  have hp : (c.handleGossip blake3 now event).gossip.peers = _ :=
    handle_peers
  rw [hp]
  exact h.applyAll _

theorem drop_mem_moves (h : .drop p ∈ s.moves blake3 event now) : event = .peerDisconnected p := by
  unfold State.moves at h
  split at h
  · cases h
  · rename_i gossip hg
    obtain rfl := Plumtree.drop_mem_moves h
    cases event with
    | peerDisconnected peer => cases hg; rfl
    | command command => cases command <;> cases hg
    | recvMessage sender msg => cases msg <;> cases hg
    | timerExpired timer => cases timer <;> cases hg
    | updatePeerData data => cases hg

variable [Rng R]

/-! ### The notices of the membership layer -/

theorem noticeOf_ofSwarm (p : PI) (e : Hyparview.OutEvent PI) :
    (ofSwarm e).noticeOf p = e.noticeOf p := by
  cases e with
  | emitEvent event => cases event <;> rfl
  | _ => rfl

namespace Act

variable {c : Act PI R}

theorem notices_handleSwarm (event : Hyparview.InEvent PI) (p : PI) :
    (c.handleSwarm event).notices p =
      c.notices p ++ (c.swarm.handle event).2.filterMap (Hyparview.OutEvent.noticeOf p) := by
  simp only [notices, handleSwarm, List.filterMap_append, List.filterMap_map, Function.comp_def,
    noticeOf_ofSwarm]

theorem Told.handleSwarm {a : PI → Bool} (h : c.Told a) {event : Hyparview.InEvent PI}
    (hq : event ≠ .quit) : (c.handleSwarm event).Told a := by
  intro p
  rw [notices_handleSwarm]
  exact (h p).append (Hyparview.handle_alternates c.swarm event hq p)

theorem Told.process {a : PI → Bool} (h : c.Told a) (now : Instant) {event : InEvent PI}
    (hq : event ≠ .command .quit) : (c.process blake3 now event).Told a := by
  cases event with
  | command command =>
    cases command with
    | join peers =>
      clear hq
      induction peers generalizing c with
      | nil => exact h
      | cons peer peers ih =>
        have hne : Hyparview.InEvent.requestJoin peer ≠ .quit := by simp
        exact ih (h.handleSwarm hne)
    | broadcast content scope => exact h.handleGossip now _
    | quit => exact absurd rfl hq
  | recvMessage sender msg =>
    have h' : ({ c with stats := { c.stats with
        messagesReceived := c.stats.messagesReceived + 1 } } : Act PI R).Told a := h
    cases msg with
    | swarm msg => exact h'.handleSwarm (by simp)
    | gossip msg => exact h'.handleGossip now _
  | timerExpired tm =>
    cases tm with
    | swarm tm => exact h.handleSwarm (by simp)
    | gossip tm => exact h.handleGossip now _
  | peerDisconnected peer => exact (h.handleSwarm (by simp)).handleGossip now _
  | updatePeerData data => exact h.handleSwarm (by simp)

/-! ### The peers of the broadcast layer -/

/-- Processing an event performs its moves, and only those. -/
theorem peers_process (s : State PI R) (now : Instant) (event : InEvent PI) :
    (Act.process blake3 now ⟨s, []⟩ event).gossip.peers =
      s.gossip.peers.applyAll (s.moves blake3 event now) := by
  have hj : ∀ (peers : List PI) (c : Act PI R),
      (peers.foldl (fun c peer => c.handleSwarm (.requestJoin peer)) c).gossip = c.gossip := by
    intro peers
    induction peers with
    | nil => exact fun _ => rfl
    | cons peer peers ih => exact fun c => ih _
  cases event with
  | command command =>
    cases command with
    | join peers => rw [Act.process, hj]; rfl
    | broadcast content scope => exact handle_peers
    | quit => rfl
  | recvMessage sender msg =>
    cases msg with
    | swarm msg => rfl
    | gossip msg => exact handle_peers
  | timerExpired tm =>
    cases tm with
    | swarm tm => rfl
    | gossip tm => exact handle_peers
  | peerDisconnected peer => exact handle_peers
  | updatePeerData data => rfl

end Act

/-! ### One event -/

section

variable (blake3 s now)

/-- The notices of an event alternate, and end with whether `p` is active. -/
theorem handle_alternates (hq : event ≠ .command .quit) (p : PI) :
    Alternates (decide (p ∈ s.swarm.activeView))
      ((s.handle blake3 event now).2.filterMap (noticeOf p))
      (decide (p ∈ (s.handle blake3 event now).1.swarm.activeView)) := by
  have h₀ : (⟨s, []⟩ : Act PI R).Told fun p => decide (p ∈ s.swarm.activeView) := fun _ => rfl
  exact (h₀.process now hq).forwardNeighbors now p

/-- A peer is eager or lazy after an event if the last notice about it is an up one; with no
notice, if the moves of the event make it so. -/
theorem handle_covered (event : InEvent PI) (now : Instant) (p : PI) :
    (decide (p ∈ s.gossip.peers.applyAll (s.moves blake3 event now)) ::
        (s.handle blake3 event now).2.filterMap (noticeOf p)).getLast? =
      some (decide (p ∈ (s.handle blake3 event now).1.gossip.peers)) := by
  have h := Act.covered_forward blake3 now
    (Act.process blake3 now ⟨s, []⟩ event).outbox (Act.process blake3 now ⟨s, []⟩ event) p
  rw [Act.peers_process] at h
  have hn : (s.handle blake3 event now).2.filterMap (noticeOf p) =
      (Act.process blake3 now ⟨s, []⟩ event).notices p :=
    Act.notices_forwardNeighbors p
  rw [hn]
  exact h

/-- **What one event does to a peer.**  Afterwards the layers agree on the peer, or the event gave
no notice about it: it is active as before, and eager or lazy as the moves of the event have it. -/
theorem handle_cases (hq : event ≠ .command .quit) (p : PI) :
    (p ∈ (s.handle blake3 event now).1.swarm.activeView ↔
        p ∈ (s.handle blake3 event now).1.gossip.peers) ∨
      (p ∈ (s.handle blake3 event now).1.swarm.activeView ↔ p ∈ s.swarm.activeView) ∧
        (p ∈ (s.handle blake3 event now).1.gossip.peers ↔
          p ∈ s.gossip.peers.applyAll (s.moves blake3 event now)) := by
  have ha := (handle_alternates blake3 s now hq p).getLast
  have hc := handle_covered blake3 s event now p
  generalize (s.handle blake3 event now).2.filterMap (noticeOf p) = l at ha hc
  cases l with
  | nil =>
    have ha' : decide (p ∈ s.swarm.activeView) = _ := Option.some.inj ha
    have hc' : decide (p ∈ s.gossip.peers.applyAll (s.moves blake3 event now)) = _ :=
      Option.some.inj hc
    exact .inr ⟨(decide_eq_decide.1 ha').symm, (decide_eq_decide.1 hc').symm⟩
  | cons b l =>
    refine .inl ?_
    simpa using Option.some.inj (ha.symm.trans hc)

end

theorem not_mem_of_peerDisconnected (s : State PI R) (now : Instant) (p : PI) :
    p ∉ (s.handle blake3 (.peerDisconnected p) now).1.swarm.activeView := by
  have hs : ∀ (evs : List (Plumtree.InEvent PI)) (c : Act PI R),
      (evs.foldl (Act.handleGossip blake3 now) c).swarm = c.swarm := by
    intro evs
    induction evs with
    | nil => exact fun _ => rfl
    | cons event evs ih => exact fun c => ih _
  have h : (s.handle blake3 (.peerDisconnected p) now).1.swarm =
      (s.swarm.handle (.peerDisconnected p)).1 := hs _ _
  rw [h]
  exact Hyparview.not_mem_of_peerDisconnected s.swarm p

/-! ### Every active peer is eager or lazy -/

/-- The peer sets are disjoint, and every active peer is in one of them. -/
structure State.Covered (s : State PI R) : Prop where
  apart : s.gossip.peers.Apart
  covers : ∀ p ∈ s.swarm.activeView, p ∈ s.gossip.peers

theorem apart_handle (h : s.gossip.peers.Apart) :
    (s.handle blake3 event now).1.gossip.peers.Apart := by
  have hf : ∀ (evs : List (Plumtree.InEvent PI)) (c : Act PI R), c.gossip.peers.Apart →
      (evs.foldl (Act.handleGossip blake3 now) c).gossip.peers.Apart := by
    intro evs
    induction evs with
    | nil => exact fun _ hc => hc
    | cons event evs ih => exact fun c hc => ih _ (apart_handleGossip hc)
  refine hf _ _ ?_
  rw [Act.peers_process]
  exact h.applyAll _

/-- One event keeps all active peers covered. -/
theorem State.Covered.handle (h : s.Covered) (now : Instant) (hq : event ≠ .command .quit) :
    (s.handle blake3 event now).1.Covered := by
  refine ⟨apart_handle h.apart, fun p hp => ?_⟩
  rcases handle_cases blake3 s now hq p with hi | ⟨ha, hc⟩
  · exact hi.1 hp
  · have hd : .drop p ∉ s.moves blake3 event now := fun hm => by
      obtain rfl := drop_mem_moves hm
      exact not_mem_of_peerDisconnected s now p hp
    rw [hc, Peers.mem_applyAll hd]
    exact .inr (h.covers p (ha.1 hp))

omit [Rng R] in
theorem covered_withRng {me : PI} {meData : Option PeerData} {config : Config} {rng : R} :
    (State.withRng me meData config rng).Covered :=
  ⟨fun p hp => absurd hp (BTreeSet.not_mem_empty p), fun p hp => absurd hp (IndexSet.not_mem_new p)⟩

/-- **The layers stay in step.**  In every run without `Quit`: for every peer the notices given to
the application alternate, starting with an up one, and the peer is active exactly if the last one
is an up one; no peer is both eager and lazy, and every active peer is one of the two. -/
theorem layers_in_sync (blake3 : Bytes → MessageId) (me : PI) (meData : Option PeerData)
    (config : Config) (rng : R) (events : List (InEvent PI × Instant))
    (hquit : ∀ e ∈ events, e.1 ≠ .command .quit) :
    let s₀ := State.withRng me meData config rng
    let s := (machine blake3).exec s₀ events
    let notices := fun p => ((machine blake3).trace s₀ events).filterMap (noticeOf p)
    (∀ p, (false :: notices p).IsChain (· ≠ ·) ∧
      (p ∈ s.swarm.activeView ↔ (notices p).getLast? = some true)) ∧
    (∀ p ∈ s.gossip.eagerPushPeers, p ∉ s.gossip.lazyPushPeers) ∧
    ∀ p ∈ s.swarm.activeView, p ∈ s.gossip.eagerPushPeers ∨ p ∈ s.gossip.lazyPushPeers := by
  intro s₀ s notices
  have hc : s.Covered := Machine.exec_invariant_along (M := machine blake3)
    (Machine.along_of_forall hquit s₀) (covered_withRng)
    fun _ i hi h => h.handle i.2 hi
  have ht : ∀ p, Alternates false (notices p) (decide (p ∈ s.swarm.activeView)) := by
    intro p
    refine Machine.trace_invariant_along (M := machine blake3)
      (P := fun s hit => Alternates false (hit.filterMap (noticeOf p))
        (decide (p ∈ s.swarm.activeView)))
      (Machine.along_of_forall hquit s₀) rfl fun s hit i hi h => ?_
    rw [List.filterMap_append]
    exact h.append (handle_alternates blake3 s i.2 hi p)
  refine ⟨fun p => ⟨(ht p).isChain, ?_⟩, hc.apart, hc.covers⟩
  have hl := (ht p).getLast
  cases hn : notices p with
  | nil =>
    rw [hn] at hl
    simpa using hl
  | cons b l =>
    rw [hn, List.getLast?_cons_cons] at hl
    rw [hl]
    simp

/-- Peers `1` and `2` join, `1` prunes us and the connection to `2` is closed. -/
theorem layers_in_sync_two_joins :
    let blake3 : Bytes → MessageId := fun content => ⟨content.length⟩
    let s₀ : State ℕ (List ℕ) := .withRng 0 none {} []
    let events := [(InEvent.recvMessage 1 (.swarm (.join none)), 0),
      (.recvMessage 2 (.swarm (.join none)), 1), (.recvMessage 1 (.gossip .prune), 2),
      (.peerDisconnected 2, 3)]
    let s := (machine blake3).exec s₀ events
    let notices := fun p => ((machine blake3).trace s₀ events).filterMap (noticeOf p)
    (notices 2 = [true, false] ∧ 1 ∈ s.swarm.activeView ∧ 1 ∈ s.gossip.lazyPushPeers) ∧
    (∀ p, (false :: notices p).IsChain (· ≠ ·) ∧
      (p ∈ s.swarm.activeView ↔ (notices p).getLast? = some true)) ∧
    (∀ p ∈ s.gossip.eagerPushPeers, p ∉ s.gossip.lazyPushPeers) ∧
    ∀ p ∈ s.swarm.activeView, p ∈ s.gossip.eagerPushPeers ∨ p ∈ s.gossip.lazyPushPeers := by
  intro blake3 s₀ events
  exact ⟨by decide +kernel, layers_in_sync blake3 0 none {} [] events (by decide +kernel)⟩

/-! ### Eager and lazy peers that are not active -/

/-- All eager and lazy peers are active. -/
def State.PeersActive (s : State PI R) : Prop :=
  (∀ p ∈ s.gossip.eagerPushPeers, p ∈ s.swarm.activeView) ∧
    ∀ p ∈ s.gossip.lazyPushPeers, p ∈ s.swarm.activeView

omit [Rng R] in
theorem State.peersActive_iff : s.PeersActive ↔ ∀ p ∈ s.gossip.peers, p ∈ s.swarm.activeView := by
  constructor
  · rintro ⟨he, hl⟩ p (hp | hp)
    · exact he p hp
    · exact hl p hp
  · exact fun h => ⟨fun p hp => h p (.inl hp), fun p hp => h p (.inr hp)⟩

/-- Every peer that the event would move into the eager or the lazy set is active.  The event is
the input, and `State.moves` reads the state before it: the sender of a `Prune` or `Graft` and of a
duplicate message, the peers of the tree optimisation, and the peer that a graft timer asks. -/
def InsertsActive (blake3 : Bytes → MessageId) (s : State PI R) (i : InEvent PI × Instant) : Prop :=
  ∀ p ∈ (s.moves blake3 i.1 i.2).filterMap Move.inserted, p ∈ s.swarm.activeView

instance (s : State PI R) (i : InEvent PI × Instant) : Decidable (InsertsActive blake3 s i) :=
  inferInstanceAs (Decidable (∀ p ∈ (s.moves blake3 i.1 i.2).filterMap Move.inserted,
    p ∈ s.swarm.activeView))

/-- An event that inserts a peer goes to the broadcast layer only: the active view stays, and every
inserted peer is in one of the sets afterwards. -/
theorem handle_of_inserted (hp : p ∈ (s.moves blake3 event now).filterMap Move.inserted) :
    (s.handle blake3 event now).1.swarm = s.swarm ∧
      p ∈ (s.handle blake3 event now).1.gossip.peers := by
  obtain ⟨m, hm, hmp⟩ := List.mem_filterMap.1 hp
  have hg : ∀ (s' : State PI R) (e : Plumtree.InEvent PI),
      s'.swarm = s.swarm → s'.gossip = s.gossip → event.toGossip = some e →
      (∀ q, e ≠ .neighborDown q) →
      Act.process blake3 now ⟨s, []⟩ event = Act.handleGossip blake3 now ⟨s', []⟩ e →
      (s.handle blake3 event now).1.swarm = s.swarm ∧
        p ∈ (s.handle blake3 event now).1.gossip.peers := by
    intro s' e hsw hgo he hdo hpr
    have hc : (s.handle blake3 event now).1 =
        (Act.handleGossip blake3 now ⟨s', []⟩ e).countSent.toState := by
      rw [State.handle, hpr, forwardNeighbors_handleGossip]
    have hpe : (Act.handleGossip blake3 now ⟨s', []⟩ e).countSent.gossip.peers =
        s.gossip.peers.applyAll (s.moves blake3 event now) := by
      rw [State.moves, he, ← hgo]
      exact handle_peers
    rw [hc]
    refine ⟨hsw, ?_⟩
    rw [hpe, Peers.mem_applyAll]
    · exact .inl ⟨m, hm, hmp⟩
    · intro hd
      rw [State.moves, he] at hd
      exact hdo p (Plumtree.drop_mem_moves hd)
  cases event with
  | command command =>
    cases command with
    | broadcast content scope => exact hg s _ rfl rfl rfl (by simp) rfl
    | _ => cases hm
  | recvMessage sender msg =>
    cases msg with
    | swarm msg => cases hm
    | gossip msg =>
      exact hg { s with stats := { s.stats with
        messagesReceived := s.stats.messagesReceived + 1 } } _ rfl rfl rfl (by simp) rfl
  | timerExpired tm =>
    cases tm with
    | swarm tm => cases hm
    | gossip tm => exact hg s _ rfl rfl rfl (by simp) rfl
  | peerDisconnected peer =>
    obtain rfl : m = .drop peer := List.mem_singleton.1 hm
    cases hmp
  | updatePeerData data => cases hm

/-- From a state in which all eager and lazy peers are active, an event leads to such a state
exactly if every peer it inserts is active. -/
theorem peersActive_handle_iff (h : s.PeersActive) (hq : event ≠ .command .quit) :
    (s.handle blake3 event now).1.PeersActive ↔ InsertsActive blake3 s (event, now) := by
  rw [State.peersActive_iff] at h ⊢
  constructor
  · intro h' p hp
    obtain ⟨hsw, hpe⟩ := handle_of_inserted hp
    rw [← hsw]
    exact h' p hpe
  · intro hin p hp
    rcases handle_cases blake3 s now hq p with hi | ⟨ha, hc⟩
    · exact hi.2 hp
    · rw [ha]
      by_cases hd : .drop p ∈ s.moves blake3 event now
      · obtain rfl := drop_mem_moves hd
        have hmo : s.moves blake3 (.peerDisconnected p) now = [.drop p] := rfl
        rw [hc] at hp
        exact absurd rfl (Peers.mem_apply.1 hp).1
      · rw [hc, Peers.mem_applyAll hd] at hp
        rcases hp with ⟨m, hm, hmp⟩ | hp
        · exact hin p (List.mem_filterMap.2 ⟨m, hm, hmp⟩)
        · exact h p hp

/-- **When the peer sets are subsets of the active view.**  In a run without `Quit`, the eager and
the lazy peers are active in every state reached exactly if every peer that an event of the run
inserts is active when the event arrives. -/
theorem peers_active_iff (blake3 : Bytes → MessageId) (me : PI) (meData : Option PeerData)
    (config : Config) (rng : R) (events : List (InEvent PI × Instant))
    (hquit : ∀ e ∈ events, e.1 ≠ .command .quit) :
    let s₀ := State.withRng me meData config rng
    (∀ pre, pre <+: events → ((machine blake3).exec s₀ pre).PeersActive) ↔
      (machine blake3).Along (InsertsActive blake3) s₀ events := by
  refine Machine.forall_prefix_iff_along (M := machine blake3) ?_ hquit
    fun s i hi h => peersActive_handle_iff h hi
  exact ⟨fun p hp => absurd hp (BTreeSet.not_mem_empty p),
    fun p hp => absurd hp (BTreeSet.not_mem_empty p)⟩

/-- A neighbor that prunes us and grafts again stays within the active view. -/
theorem peers_active_iff_neighbor :
    let blake3 : Bytes → MessageId := fun content => ⟨content.length⟩
    let s₀ : State ℕ (List ℕ) := .withRng 0 none {} []
    let events := [(InEvent.recvMessage 1 (.swarm (.join none)), 0),
      (.recvMessage 1 (.gossip .prune), 1), (.recvMessage 1 (.gossip (.graft ⟨none, 0⟩)), 2)]
    1 ∈ ((machine blake3).exec s₀ events).gossip.eagerPushPeers ∧
    ∀ pre, pre <+: events → ((machine blake3).exec s₀ pre).PeersActive := by
  intro blake3 s₀ events
  exact ⟨by decide +kernel,
    (peers_active_iff blake3 0 none {} [] events (by decide +kernel)).2 (by decide +kernel)⟩

/-- A `Prune` of a peer that never was a neighbor makes it a lazy peer. -/
theorem prune_inserts_stranger :
    let blake3 : Bytes → MessageId := fun content => ⟨content.length⟩
    let s₀ : State ℕ (List ℕ) := .withRng 0 none {} []
    let s := (machine blake3).exec s₀ [(.recvMessage 1 (.gossip .prune), 0)]
    1 ∈ s.gossip.lazyPushPeers ∧ s.swarm.activeView.items = [] ∧ ¬ s.PeersActive := by
  intro blake3 s₀ s
  have hl : 1 ∈ s.gossip.lazyPushPeers := by decide +kernel
  have ha : 1 ∉ s.swarm.activeView := by decide +kernel
  exact ⟨hl, rfl, fun h => ha (h.2 1 hl)⟩

end Boru.Topic
