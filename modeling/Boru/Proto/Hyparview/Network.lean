import Boru.Proto.Hyparview.Views
import Boru.Proto.Hyparview.Link

/-!
# Networks of HyParView nodes

A `Network` is one `State` per node and a FIFO channel for every ordered pair of nodes.  Nodes are
asked to join others, their timers expire, and messages are delivered in any interleaving; no node
quits and no connection is lost.

The protocol is meant to keep active connections bidirectional.  It does so as long as no node
evicts a peer to which it still has a neighbor request pending (`active_symm`): seen from a pair of
nodes, a network is the handshake of `Boru.Handshake.Pair` (`Network.Paired`).  Eviction does not
clear the pending request to the evicted peer, though, and every completed handshake leaves one
behind on the side that answered.  A peer that comes back after such an eviction is added without
being told (`active_not_symm_rejoin`).
-/

namespace Boru.Hyparview

open Handshake

variable {PI R : Type}

/-- The states of all nodes and the messages under way between them. -/
structure Network (PI R : Type) where
  node : PI → State PI R
  /-- The messages under way from one node to another, the oldest first. -/
  channel : PI → PI → List (Message PI)

inductive Action (PI : Type) where
  /-- The oldest message from `src` to `dest` arrives. -/
  | deliver (src dest : PI)
  | requestJoin (node peer : PI)
  | timerExpired (node : PI) (timer : Timer PI)

variable [DecidableEq PI]

def OutEvent.messageTo (q : PI) : OutEvent PI → Option (Message PI)
  | .sendMessage peer message => if peer = q then some message else none
  | _ => none

namespace Network

section

variable (nodes : Finset PI) (n : Network PI R) (meData : PI → Option PeerData)
  (config : PI → Config) (rng : PI → R) (a b : PI)

/-- The initial network: nodes that never heard of each other. -/
def new : Network PI R where
  node a := State.new a (meData a) (config a) (rng a)
  channel _ _ := []

/-- Take the oldest message from `src` to `dest`, leaving `rest`. -/
def consume (src dest : PI) (rest : List (Message PI)) : Network PI R :=
  { n with channel := Function.update n.channel src (Function.update (n.channel src) dest rest) }

/-- No message is under way between members. -/
def Quiescent : Prop :=
  ∀ a ∈ nodes, ∀ b ∈ nodes, n.channel a b = []

instance (nodes : Finset PI) (n : Network PI R) : Decidable (n.Quiescent nodes) :=
  inferInstanceAs (Decidable (∀ a ∈ nodes, ∀ b ∈ nodes, n.channel a b = []))

/-! ### Networks seen from a pair of nodes -/

/-- What `a` knows of `b`, and the signals under way from `a` to `b`. -/
def endpoint : Endpoint :=
  Act.endpoint ((n.channel a b).filterMap Message.signal) ⟨n.node a, []⟩ b

/-- Every two nodes satisfy the invariant of the handshake. -/
structure Paired (n : Network PI R) : Prop where
  views : ∀ a, ∃ config, (n.node a).Views a config
  inv : ∀ a b, a ≠ b → Inv (n.endpoint a b) (n.endpoint b a)

theorem endpoint_new : (new meData config rng).endpoint a b = ⟨false, false, [], []⟩ :=
  Endpoint.ext (decide_eq_false (IndexSet.not_mem_new b)) rfl rfl rfl

theorem paired_new : (new meData config rng).Paired :=
  ⟨fun a => ⟨config a, new_views⟩, fun a b _ => by
    rw [endpoint_new, endpoint_new]; exact .init⟩

variable {nodes n a b}

theorem sent_of_quiescent (hq : n.Quiescent nodes) (ha : a ∈ nodes) (hb : b ∈ nodes) :
    (n.endpoint a b).sent = [] := by
  simp [endpoint, Act.endpoint, hq a ha b hb]

/-- In a quiescent network whose pairs are in step, active connections are bidirectional. -/
theorem Paired.active_iff (h : n.Paired) (hq : n.Quiescent nodes) (ha : a ∈ nodes)
    (hb : b ∈ nodes) : b ∈ (n.node a).activeView ↔ a ∈ (n.node b).activeView := by
  by_cases hab : a = b
  · rw [hab]
  have hag := (h.inv a b hab).agree
  rw [sent_of_quiescent hq ha hb, sent_of_quiescent hq hb ha] at hag
  simpa [endpoint, Act.endpoint] using hag rfl rfl

variable {rest : List (Message PI)}

theorem endpoint_consume {src dest : PI} :
    (n.consume src dest rest).endpoint src dest =
      { n.endpoint src dest with sent := rest.filterMap Message.signal } :=
   Endpoint.ext rfl rfl (by simp [endpoint, consume, Act.endpoint]) rfl

theorem endpoint_consume_ne {src dest a b : PI} (h : (a, b) ≠ (src, dest)) :
    (n.consume src dest rest).endpoint a b = n.endpoint a b := by
  have hc : (n.consume src dest rest).channel a b = n.channel a b := by
    simp only [consume]
    by_cases ha : a = src
    · subst ha
      have hb : b ≠ dest := fun hb => h (by rw [hb])
      rw [Function.update_self, Function.update_of_ne hb]
    · rw [Function.update_of_ne ha]
  rw [endpoint, hc]
  rfl

end

/-! ### Steps -/

variable [Rng R] (nodes : Finset PI) (n : Network PI R) (a : PI)

/-- Inject an event into a node and send out the messages it pushes. -/
def fire (event : InEvent PI) : Network PI R × List (PI × OutEvent PI) :=
  let r := (n.node a).handle event
  ({ node := Function.update n.node a r.1
     channel := Function.update n.channel a fun b =>
      n.channel a b ++ r.2.filterMap (OutEvent.messageTo b) },
    r.2.map fun e => (a, e))

/-- One step of the network with members `nodes`. -/
def step : Action PI → Network PI R × List (PI × OutEvent PI)
  | .deliver src dest =>
    if src ∈ nodes ∧ dest ∈ nodes then
      match n.channel src dest with
      | [] => (n, [])
      | message :: rest => (n.consume src dest rest).fire dest (.recvMessage src message)
    else (n, [])
  | .requestJoin node peer => if node ∈ nodes then n.fire node (.requestJoin peer) else (n, [])
  | .timerExpired node timer =>
    if node ∈ nodes then n.fire node (.timerExpired timer) else (n, [])

def machine : Machine (Network PI R) (Action PI) (PI × OutEvent PI) :=
  ⟨step nodes⟩

/-- If the action makes a node evict a peer, the node has no request to that peer pending. -/
def EvictsSettled : Action PI → Prop
  | .deliver src dest => ∀ message ∈ (n.channel src dest).head?,
      ∀ q ∈ (n.node dest).evictedBy (.recvMessage src message),
        q ∉ (n.node dest).pendingNeighborRequests
  | _ => True

instance (n : Network PI R) : (action : Action PI) → Decidable (n.EvictsSettled action)
  | .deliver _ _ => inferInstanceAs (Decidable (∀ _ ∈ _, ∀ _ ∈ _, _))
  | .requestJoin _ _ => isTrue trivial
  | .timerExpired _ _ => isTrue trivial

variable {nodes n a} {b : PI} {ev : InEvent PI}

theorem filterMap_messageTo {b : PI} (es : List (OutEvent PI)) :
    (es.filterMap (OutEvent.messageTo b)).filterMap Message.signal =
      es.filterMap (OutEvent.signalTo b) := by
  rw [List.filterMap_filterMap]
  congr 1
  funext e
  cases e with
  | sendMessage peer msg =>
    simp only [OutEvent.messageTo, OutEvent.signalTo]
    split_ifs <;> rfl
  | scheduleTimer | disconnectPeer | emitEvent | peerData => rfl

theorem endpoint_fire_ne (h : b ≠ a) (c : PI) : (n.fire a ev).1.endpoint b c = n.endpoint b c := by
  simp only [endpoint, fire, Function.update_of_ne h]

theorem views_fire (h : ∀ b, ∃ config, (n.node b).Views b config) (b : PI) :
    ∃ config, ((n.fire a ev).1.node b).Views b config := by
  by_cases hb : b = a
  · subst hb
    obtain ⟨config, hc⟩ := h b
    exact ⟨config, by simpa [fire] using handle_views hc⟩
  · simpa [fire, hb] using h b

section Kept

variable {J : Endpoint → Endpoint → Prop} {E : Endpoint → Prop} {G : Endpoint → Signal → Prop}
  (hJ : Kept J E G) (hv : ∀ b, ∃ config, (n.node b).Views b config)

include hJ hv

/-- To keep all pairs related it suffices to look at the pairs of the node that acts. -/
theorem related_fire (hq : ev ≠ .quit)
    (hne : ∀ b c, b ≠ c → b ≠ a → c ≠ a → J (n.endpoint b c) (n.endpoint c b))
    (hs : ∀ b, b ≠ a → ∀ e, Act.Effect a ((n.node a).evictedBy ev) b (n.endpoint a b) ev e →
      J e (n.endpoint b a))
    (c : PI) (hbc : b ≠ c) :
    J ((n.fire a ev).1.endpoint b c) ((n.fire a ev).1.endpoint c b) := by
  have ha : ∀ b, b ≠ a →
      J ((n.fire a ev).1.endpoint a b) ((n.fire a ev).1.endpoint b a) := fun b hb => by
    obtain ⟨config, hc⟩ := hv a
    have he := handle_effect (n.node a) ev hq ((n.channel a b).filterMap Message.signal) b
    rw [hc.me_eq] at he
    rw [endpoint_fire_ne hb]
    refine hJ.congr (hs b hb _ he) ?_ ?_ ?_
    · simp [endpoint, Act.endpoint, fire]
    · simp [endpoint, Act.endpoint, fire]
    · simp [endpoint, Act.endpoint, fire, filterMap_messageTo]
  by_cases hb : b = a
  · subst hb; exact ha c hbc.symm
  by_cases hc : c = a
  · subst hc; exact hJ.symm (ha b hbc)
  · rw [endpoint_fire_ne hb, endpoint_fire_ne hc]
    exact hne b c hbc hb hc

variable (h : ∀ b c, b ≠ c → J (n.endpoint b c) (n.endpoint c b))

include h

theorem related_deliver {src dest : PI} {msg : Message PI} {rest : List (Message PI)}
    (hch : n.channel src dest = msg :: rest)
    (hE : ∀ q ∈ (n.node dest).evictedBy (.recvMessage src msg), E (n.endpoint dest q))
    (hG : ∀ σ ∈ msg.signal, G (n.endpoint dest src) σ) (c : PI) (hbc : b ≠ c) :
    J (((n.consume src dest rest).fire dest (.recvMessage src msg)).1.endpoint b c)
      (((n.consume src dest rest).fire dest (.recvMessage src msg)).1.endpoint c b) := by
  have hqu : InEvent.recvMessage src msg ≠ .quit := by simp
  refine related_fire (n := n.consume src dest rest) hJ hv hqu (fun b c hbc hb hc => ?_)
    (fun b hb e he => ?_) c hbc
  · rw [endpoint_consume_ne (by simp [hc]), endpoint_consume_ne (by simp [hb])]
    exact h b c hbc
  rw [endpoint_consume_ne (by simp [hb])] at he
  have hin := h dest b hb.symm
  by_cases hs : b = src
  · -- the sender: the message leaves its channel
    subst hs
    rw [endpoint_consume]
    have hse : (n.endpoint b dest).sent = (msg :: rest).filterMap Message.signal := by
      simp [endpoint, Act.endpoint, hch]
    have hb' : n.endpoint b dest = { n.endpoint b dest with
        sent := (msg :: rest).filterMap Message.signal } :=
      Endpoint.ext rfl rfl hse rfl
    rw [hb'] at hin
    cases he with
    | evict _ _ hne => exact absurd rfl (hne msg)
    | recv hm hr =>
      rw [List.filterMap_cons_some hm] at hin
      exact hJ.recv hin hr (hG _ hm)
    | act hm hl => rw [List.filterMap_cons_none (hm _ rfl)] at hin; exact hJ.act hin hl
    | self hq => exact absurd hq hb
  · rw [endpoint_consume_ne (by simp [hs])]
    cases he with
    | evict he ha => exact hJ.evict hin (hE b he)
    | recv => exact absurd rfl hs
    | act _ hl => exact hJ.act hin hl
    | self hq => exact absurd hq hb

/-! ### Steps and runs -/

/-- A step keeps all pairs related, if an endpoint that evicts its peer and one that receives a
signal meet what the relation asks of them. -/
theorem related_step {nodes : Finset PI} {ac : Action PI}
    (hE : ∀ src dest, ac = .deliver src dest → ∀ msg ∈ (n.channel src dest).head?,
      ∀ q ∈ (n.node dest).evictedBy (.recvMessage src msg), E (n.endpoint dest q))
    (hG : ∀ src dest, ac = .deliver src dest → ∀ msg ∈ (n.channel src dest).head?,
      ∀ σ ∈ msg.signal, G (n.endpoint dest src) σ) (b c : PI) (hbc : b ≠ c) :
    J ((n.step nodes ac).1.endpoint b c) ((n.step nodes ac).1.endpoint c b) := by
  have hf : ∀ {a ev}, ev ≠ .quit → (∀ b, ev ≠ .peerDisconnected b) →
      (∀ b m, ev ≠ .recvMessage b m) →
      J ((n.fire a ev).1.endpoint b c) ((n.fire a ev).1.endpoint c b) := by
    intro a ev hqu hc hr
    refine related_fire hJ hv hqu (fun b c hbc _ _ => h b c hbc) (fun b hb e he => ?_) c hbc
    cases he with
    | evict he =>
      cases ev with
      | recvMessage sender msg => exact absurd rfl (hr sender msg)
      | _ => cases he
    | close => exact absurd rfl (hc b)
    | recv hm => exact absurd rfl (hr b _)
    | act _ hl => exact hJ.act (h a b hb.symm) hl
    | self hq => exact absurd hq hb
  cases ac with
  | deliver src dest =>
    simp only [Network.step]
    split_ifs
    · split
      · exact h b c hbc
      · rename_i msg rest hch
        exact related_deliver hJ hv h hch (hE src dest rfl msg (by simp [hch]))
          (hG src dest rfl msg (by simp [hch])) c hbc
    · exact h b c hbc
  | requestJoin node peer | timerExpired node timer =>
    simp only [Network.step]
    split_ifs
    · exact hf (by simp) (by simp) (by simp)
    · exact h b c hbc

end Kept

theorem views_step (hv : ∀ b, ∃ config, (n.node b).Views b config) (ac : Action PI) :
    ∀ b, ∃ config, ((n.step nodes ac).1.node b).Views b config := by
  cases ac with
  | deliver src dest =>
    simp only [Network.step]
    split_ifs
    · split
      · exact hv
      · exact views_fire hv
    · exact hv
  | requestJoin node peer | timerExpired node timer =>
    simp only [Network.step]
    split_ifs
    · exact views_fire hv
    · exact hv

theorem Paired.step {ac : Action PI} (h : n.Paired) (hg : n.EvictsSettled ac) :
    (n.step nodes ac).1.Paired := by
  refine ⟨views_step h.views ac, related_step Inv.kept h.views h.inv ?_ (by simp)⟩
  rintro src dest rfl msg hm q hq
  exact decide_eq_false (hg msg hm q hq)

/-- **Active connections are bidirectional as long as evicted peers are settled.**  In every run
of every network in which no node evicts a peer to which it has a neighbor request pending,
whenever no message is under way, two nodes are in each other's active view or in neither's. -/
theorem active_symm (nodes : Finset PI) (meData : PI → Option PeerData) (config : PI → Config)
    (rng : PI → R) (actions : List (Action PI))
    (hg : (machine nodes).Along EvictsSettled (new meData config rng) actions) :
    let n := (machine nodes).exec (new meData config rng) actions
    n.Quiescent nodes → ∀ a ∈ nodes, ∀ b ∈ nodes,
      (b ∈ (n.node a).activeView ↔ a ∈ (n.node b).activeView) := by
  intro n hq a ha b hb
  have h : n.Paired := Machine.exec_invariant_along hg (paired_new meData config rng)
    fun _ _ hg h => h.step hg
  exact h.active_iff hq ha hb

/-- Nodes `1` and `2` join node `0`, which has room for one neighbor: `1` is evicted after its
handshake was completed, and the network settles on the connection between `0` and `2`. -/
theorem active_symm_two_joins :
    let nodes : Finset ℕ := {0, 1, 2}
    let n := (machine nodes).exec
      (new (fun _ => none) (fun _ => { activeViewCapacity := 1 }) fun _ => ([] : List ℕ))
      [.requestJoin 1 0, .deliver 1 0, .deliver 0 1, .deliver 1 0, .requestJoin 2 0, .deliver 2 0,
       .deliver 0 1, .deliver 0 1, .deliver 0 2, .deliver 2 0]
    (n.Quiescent nodes ∧ 2 ∈ (n.node 0).activeView) ∧ ∀ a ∈ nodes, ∀ b ∈ nodes,
      (b ∈ (n.node a).activeView ↔ a ∈ (n.node b).activeView) :=
  ⟨by decide +kernel, active_symm _ _ _ _ _ (by decide +kernel) (by decide +kernel)⟩

/-- **Active connections need not be bidirectional.**  Node `1` joins `0` and keeps its request
to `0` pending when the handshake is completed.  It evicts `0` for `2`, then evicts `2` for `0`,
which has asked to join: the stale request keeps `1` from telling `0` that it was accepted.  With
all messages delivered, `0` is in the active view of `1`, but `1` is not in the one of `0`. -/
theorem active_not_symm_rejoin :
    let nodes : Finset ℕ := {0, 1, 2}
    let n := (machine nodes).exec
      (new (fun _ => none) (fun _ => { activeViewCapacity := 1 }) fun _ => ([] : List ℕ))
      [.requestJoin 1 0, .deliver 1 0, .deliver 0 1, .deliver 1 0, .requestJoin 2 1, .deliver 2 1,
       .deliver 1 0, .deliver 1 0, .deliver 1 2, .deliver 2 1, .requestJoin 0 1, .deliver 0 1,
       .deliver 1 2, .deliver 1 2, .deliver 2 0, .deliver 0 2]
    n.Quiescent nodes ∧ 0 ∈ (n.node 1).activeView ∧ 1 ∉ (n.node 0).activeView := by
  decide +kernel

/-! ### Pending requests -/

/-- If the action delivers a `Neighbor` message, it answers a request of its receiver. -/
def AnswersRequest (n : Network PI R) : Action PI → Prop
  | .deliver src dest => ∀ message ∈ (n.channel src dest).head?,
      message.signal = some .neighbor → src ∈ (n.node dest).pendingNeighborRequests
  | _ => True

instance (n : Network PI R) : (action : Action PI) → Decidable (n.AnswersRequest action)
  | .deliver _ _ => inferInstanceAs (Decidable (∀ _ ∈ _, _ → _))
  | .requestJoin _ _ => isTrue trivial
  | .timerExpired _ _ => isTrue trivial

/-- **Requests are settled as long as they are answered by requests.**  In every run of every
network in which `Neighbor` messages reach only nodes that have their sender pending, whenever no
message is under way, no node has another one pending. -/
theorem requests_settled (nodes : Finset PI) (meData : PI → Option PeerData) (config : PI → Config)
    (rng : PI → R) (actions : List (Action PI))
    (hg : (machine nodes).Along AnswersRequest (new meData config rng) actions) :
    let n := (machine nodes).exec (new meData config rng) actions
    n.Quiescent nodes → ∀ a ∈ nodes, ∀ b ∈ nodes, a ≠ b →
      b ∉ (n.node a).pendingNeighborRequests := by
  intro n hq a ha b hb hab
  have h := Machine.exec_invariant_along (P := fun n => (∀ a, ∃ config, (n.node a).Views a config) ∧
      ∀ a b, a ≠ b → Handshake.Balanced (n.endpoint a b) (n.endpoint b a))
    hg ⟨fun a => ⟨config a, new_views⟩, fun a b _ => ?_⟩ fun n action hi hn => ?_
  · have hs : Handshake.Balanced (n.endpoint a b) (n.endpoint b a) := h.2 a b hab
    rw [Handshake.Balanced, sent_of_quiescent hq ha hb, sent_of_quiescent hq hb ha] at hs
    simpa [endpoint, Act.endpoint] using Nat.eq_zero_of_add_eq_zero_right (Nat.le_zero.1 hs)
  · rw [endpoint_new, endpoint_new]
    exact le_rfl
  · refine ⟨views_step hn.1 action, related_step Handshake.Balanced.kept hn.1 hn.2 (by simp) ?_⟩
    rintro src dest rfl msg hm σ hσ rfl
    exact decide_eq_true (hi msg hm hσ)

/-- Two nodes join each other at the same time. -/
theorem requests_settled_crossing :
    let nodes : Finset ℕ := {0, 1}
    let n := (machine nodes).exec (new (fun _ => none) (fun _ => {}) fun _ => ([] : List ℕ))
      [.requestJoin 0 1, .requestJoin 1 0, .deliver 0 1, .deliver 1 0, .deliver 0 1, .deliver 1 0]
    (n.Quiescent nodes ∧ 1 ∈ (n.node 0).activeView ∧ 0 ∈ (n.node 1).activeView) ∧
      ∀ a ∈ nodes, ∀ b ∈ nodes, a ≠ b → b ∉ (n.node a).pendingNeighborRequests :=
  ⟨by decide +kernel, requests_settled _ _ _ _ _ (by decide +kernel) (by decide +kernel)⟩

/-- **A plain join leaves a request behind.**  Node `0` joins `1`, and answers the request with
which `1` accepts it; nobody answers the answer. -/
theorem request_left_by_join :
    let nodes : Finset ℕ := {0, 1}
    let n := (machine nodes).exec (new (fun _ => none) (fun _ => {}) fun _ => ([] : List ℕ))
      [.requestJoin 0 1, .deliver 0 1, .deliver 1 0, .deliver 0 1]
    n.Quiescent nodes ∧ 1 ∈ (n.node 0).activeView ∧ 0 ∈ (n.node 1).activeView ∧
      1 ∈ (n.node 0).pendingNeighborRequests := by
  decide +kernel

end Network

end Boru.Hyparview
