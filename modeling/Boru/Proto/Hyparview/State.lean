import Mathlib.Data.Finset.Option
import Boru.LTS.Basic
import Boru.Collections.IndexSet
import Boru.Proto.Types

/-!
# The HyParView membership protocol

HyParView maintains, per topic, an *active view* (the peers we are connected to) and a
*passive view* (an address book from which lost connections are replaced).  This file is the
state machine: `State.handle` consumes one `InEvent` and pushes `OutEvent`s.

Every handler takes and returns an `Act`: the state it mutates together with the events pushed
so far.  Random choices are draws from the generator in the state.
-/

namespace Boru.Hyparview

/-! ### Messages and events -/

/-- Kinds of timers HyParView needs to schedule. -/
inductive Timer (PI : Type) where
  | doShuffle
  | pendingNeighborRequest (peer : PI)
  deriving DecidableEq

/-- The time-to-live of a message, decreased by one at every hop. -/
abbrev Ttl := ℕ

/-- No hop is left. -/
def Ttl.expired (t : Ttl) : Bool := decide (t = 0)

/-- The time-to-live of the forwarded message. -/
def Ttl.next (t : Ttl) : Ttl := t - 1

/-- Informs other peers that a new peer joined the swarm. -/
structure ForwardJoin (PI : Type) where
  /-- The peer that newly joined the swarm. -/
  peer : PeerInfo PI
  /-- The time-to-live for this message. -/
  ttl : Ttl
  deriving DecidableEq

/-- Exchanges peers for the passive view. -/
structure Shuffle (PI : Type) where
  /-- The peer that initiated the shuffle request. -/
  origin : PI
  /-- A random subset of the active and passive peers of the `origin` peer. -/
  nodes : List (PeerInfo PI)
  /-- The time-to-live for this message. -/
  ttl : Ttl
  deriving DecidableEq

/-- The answer to a `Shuffle` whose random walk has ended. -/
structure ShuffleReply (PI : Type) where
  /-- A random subset of the active and passive peers of the replying peer. -/
  nodes : List (PeerInfo PI)
  deriving DecidableEq

/-- The priority of a neighbor request: only `low` may be denied. -/
inductive Priority where
  | high
  | low
  deriving DecidableEq

/-- Asks a peer to become neighbors, or tells it that we now are. -/
structure Neighbor where
  /-- The priority of the message that triggered this neighbor request. -/
  priority : Priority
  /-- The user data of the peer sending this message. -/
  data : Option PeerData
  deriving DecidableEq

/-- Sent when leaving the swarm or when dropping a neighbor. -/
structure Disconnect where
  /-- The sender only closes the connection and is not shutting down. -/
  alive : Bool
  /-- Obsolete, kept for wire compatibility. -/
  respond : Bool
  deriving DecidableEq

/-- Messages that we can send to and receive from peers. -/
inductive Message (PI : Type) where
  | join (data : Option PeerData)
  | forwardJoin (details : ForwardJoin PI)
  | shuffle (details : Shuffle PI)
  | shuffleReply (details : ShuffleReply PI)
  | neighbor (details : Neighbor)
  | disconnect (details : Disconnect)
  deriving DecidableEq

def Message.isDisconnect {PI : Type} : Message PI → Bool
  | .disconnect _ => true
  | _ => false

inductive InEvent (PI : Type) where
  | recvMessage (peer : PI) (message : Message PI)
  | timerExpired (timer : Timer PI)
  | peerDisconnected (peer : PI)
  | requestJoin (peer : PI)
  | updatePeerData (data : PeerData)
  | quit

/-- Events emitted to the application. -/
inductive Event (PI : Type) where
  | neighborUp (peer : PI)
  | neighborDown (peer : PI)

inductive OutEvent (PI : Type) where
  | sendMessage (peer : PI) (message : Message PI)
  | scheduleTimer (delay : Duration) (timer : Timer PI)
  | disconnectPeer (peer : PI)
  | emitEvent (event : Event PI)
  | peerData (peer : PI) (data : PeerData)

/-- Why a peer leaves the active view. -/
inductive RemovalReason where
  | connectionClosed
  | disconnectReceived (isAlive : Bool)
  | random
  deriving DecidableEq

/-! ### State -/

/-- Configuration of the membership layer. -/
structure Config where
  /-- Number of peers to which active connections are maintained. -/
  activeViewCapacity : ℕ := 5
  /-- Number of peers for which contact information is remembered. -/
  passiveViewCapacity : ℕ := 30
  /-- Number of hops a `ForwardJoin` is propagated until the peer is added to an active view. -/
  activeRandomWalkLength : Ttl := 6
  /-- Number of hops a `ForwardJoin` is propagated until the peer is added to a passive view. -/
  passiveRandomWalkLength : Ttl := 3
  /-- Number of hops a `Shuffle` is propagated until a peer replies to it. -/
  shuffleRandomWalkLength : Ttl := 6
  /-- Number of active peers to be included in a `Shuffle` request. -/
  shuffleActiveViewCount : ℕ := 3
  /-- Number of passive peers to be included in a `Shuffle` request. -/
  shufflePassiveViewCount : ℕ := 4
  /-- Interval between shuffle requests, in milliseconds. -/
  shuffleInterval : Duration := 60000
  /-- Time after which a `Neighbor` request is considered failed, in milliseconds. -/
  neighborRequestTimeout : Duration := 500

/-- The state of the HyParView protocol. -/
structure State (PI R : Type) where
  me : PI
  /-- Our opaque user data to transmit to peers on join messages. -/
  meData : Option PeerData
  activeView : IndexSet PI
  /-- The peers we know about but are not connected to. -/
  passiveView : IndexSet PI
  config : Config
  /-- Whether a shuffle timer is currently scheduled. -/
  shuffleScheduled : Bool
  rng : R
  /-- Statistics: messages received from peers that were not active. -/
  totalConnections : ℕ
  /-- Neighbor requests we sent out but did not yet receive a reply for. -/
  pendingNeighborRequests : Finset PI
  /-- The opaque data we received for other peers. -/
  peerData : HashMap PI PeerData
  /-- Disconnecting peers that stay in the passive view once the connection closes. -/
  aliveDisconnectPeers : Finset PI

/-- A state being mutated by a handler, with the events pushed so far. -/
structure Act (PI R : Type) extends State PI R where
  io : List (OutEvent PI)

variable {PI R : Type}

def State.new (me : PI) (meData : Option PeerData) (config : Config) (rng : R) : State PI R where
  me := me
  meData := meData
  activeView := .new
  passiveView := .new
  config := config
  shuffleScheduled := false
  rng := rng
  totalConnections := 0
  pendingNeighborRequests := ∅
  peerData := ∅
  aliveDisconnectPeers := ∅

namespace State

variable (s : State PI R)

def passiveIsFull : Bool := decide (s.config.passiveViewCapacity ≤ s.passiveView.len)

def activeIsFull : Bool := decide (s.config.activeViewCapacity ≤ s.activeView.len)

def peerInfo [DecidableEq PI] (id : PI) : PeerInfo PI := ⟨id, s.peerData.lookup id⟩

end State

namespace Act

def push (c : Act PI R) (e : OutEvent PI) : Act PI R := { c with io := c.io ++ [e] }

def pushFromIter (c : Act PI R) (es : List (OutEvent PI)) : Act PI R := { c with io := c.io ++ es }

variable [DecidableEq PI] [Rng R]

variable (c : Act PI R)

/-- Remember the data a peer transmitted, telling the application when it is new. -/
def insertPeerInfo (info : PeerInfo PI) : Act PI R :=
  match info.data with
  | none => c
  | some data =>
    let same := decide (c.peerData.lookup info.id = some data)
    let c := if !same && !data.bytes.isEmpty then c.push (.peerData info.id data) else c
    { c with peerData := c.peerData.insert info.id data }

variable (peer : PI)

/-- Ask a peer to become neighbors, unless a request to it is already pending. -/
def sendNeighbor (priority : Priority) : Act PI R :=
  if peer ∈ c.pendingNeighborRequests then c
  else
    { c with pendingNeighborRequests := insert peer c.pendingNeighborRequests }.push
      (.sendMessage peer (.neighbor ⟨priority, c.meData⟩))

variable (data : Option PeerData)

/-- Add a peer to the passive view, making room by dropping a random one.  A peer that is in the
active view is not added. -/
def addPassive : Act PI R :=
  let c := c.insertPeerInfo ⟨peer, data⟩
  if peer ∈ c.activeView ∨ peer ∈ c.passiveView ∨ peer = c.me then c
  else
    let d := c.passiveView.removeRandom c.rng
    let c := if c.passiveIsFull then { c with passiveView := d.1.2, rng := d.2 } else c
    { c with passiveView := (c.passiveView.insert peer).2 }

/-- Reply with up to `len` passive peers, filled up with active ones. -/
def sendShuffleReply (dest : PI) (len : ℕ) : Act PI R :=
  let p := c.passiveView.shuffledAndCapped len c.rng
  let a := if p.1.length < len then c.activeView.shuffledAndCapped (len - p.1.length) p.2
    else ([], p.2)
  { c with rng := a.2 }.push (.sendMessage dest (.shuffleReply ⟨(p.1 ++ a.1).map c.peerInfo⟩))

/-- Tell a peer that we drop it, leaving it some of our nodes first. -/
def sendDisconnect (alive : Bool) : Act PI R :=
  ((c.sendShuffleReply peer
      (c.config.shuffleActiveViewCount + c.config.shufflePassiveViewCount)).push
    (.sendMessage peer (.disconnect ⟨alive, false⟩))).push (.disconnectPeer peer)

def closeActive : RemovalReason → Act PI R
  -- send a disconnect message, then close connection
  | .random => c.sendDisconnect peer true
  -- close connection without sending anything further
  | .disconnectReceived _ => c.push (.disconnectPeer peer)
  | .connectionClosed => c.push (.disconnectPeer peer)

def keepAsPassive : RemovalReason → Bool × Act PI R
  | .connectionClosed => (decide (peer ∈ c.aliveDisconnectPeers),
      { c with aliveDisconnectPeers := c.aliveDisconnectPeers.erase peer })
  | .disconnectReceived isAlive => (isAlive, c)
  | .random => (true, c)

/-- Move a removed peer to the passive view, and mark it as alive so that it stays there when
the connection closes. -/
def retainPassive (reason : RemovalReason) : Act PI R :=
  let data := c.peerData.lookup peer
  let c := { c with peerData := c.peerData.erase peer }.addPassive peer data
  if reason = .connectionClosed then c
  else { c with aliveDisconnectPeers := insert peer c.aliveDisconnectPeers }

/-- Remove the peer at an index from the active view. -/
def removeActiveByIndex (index : ℕ) (reason : RemovalReason) : Option PI × Act PI R :=
  match (c.activeView.removeIndex index).1 with
  | none => (none, c)
  | some peer =>
    let c := { c with activeView := (c.activeView.removeIndex index).2 }.push
      (.emitEvent (.neighborDown peer))
    let k := (c.closeActive peer reason).keepAsPassive peer reason
    (some peer, if k.1 then k.2.retainPassive peer reason else k.2)

/-- Ask a random passive peer to become a neighbor if there is room for one more. -/
def refillActiveFromPassive (skipPeers : Finset PI) : Act PI R :=
  if c.config.activeViewCapacity ≤ c.activeView.len + c.pendingNeighborRequests.card then c
  else
    let d := c.passiveView.pickRandomWithout (skipPeers ∪ c.pendingNeighborRequests) c.rng
    let c := { c with rng := d.2 }
    match d.1 with
    | none => c
    | some node =>
      let priority := if c.activeView.isEmpty then Priority.high else .low
      -- the timer checks if the node replied, otherwise another passive node is tried
      (c.sendNeighbor node priority).push
        (.scheduleTimer c.config.neighborRequestTimeout (.pendingNeighborRequest node))

/-- Remove a peer from the active view and look for a replacement. -/
def removeActive (reason : RemovalReason) : Act PI R :=
  match c.activeView.getIndexOf peer with
  | none => c
  | some idx =>
    let r := c.removeActiveByIndex idx reason
    r.2.refillActiveFromPassive r.1.toFinset

/-- Remove a random peer from the active view. -/
def freeRandomSlotInActiveView : Act PI R :=
  let d := c.activeView.pickRandomIndex c.rng
  let c := { c with rng := d.2 }
  match d.1 with
  | none => c
  | some index => (c.removeActiveByIndex index .random).2

def addActiveUnchecked (priority : Priority) (reply : Bool) : Act PI R :=
  let c := { c with passiveView := (c.passiveView.remove peer).2 }
  if (c.activeView.insert peer).1 then
    let c := { c with activeView := (c.activeView.insert peer).2 }.push
      (.emitEvent (.neighborUp peer))
    if reply then c.sendNeighbor peer priority else c
  else c

/-- Add a peer to the active view; a full view makes room for a high-priority request only.
Returns whether the peer is in the view. -/
def addActive (priority : Priority) (reply : Bool) : Bool × Act PI R :=
  if peer = c.me then (false, c)
  else
    let c := c.insertPeerInfo ⟨peer, data⟩
    if peer ∈ c.activeView then (true, if reply then c.sendNeighbor peer priority else c)
    else match priority, c.activeIsFull with
      | .high, isFull =>
        let c := if isFull then c.freeRandomSlotInActiveView else c
        (true, c.addActiveUnchecked peer .high reply)
      | .low, false => (true, c.addActiveUnchecked peer .low reply)
      | .low, true => (false, c)

/-! ### Handlers -/

/-- A `Disconnect` message was received. -/
def onDisconnect (details : Disconnect) : Act PI R :=
  let c := { c with pendingNeighborRequests := c.pendingNeighborRequests.erase peer }
  if peer ∈ c.activeView then c.removeActive peer (.disconnectReceived details.alive)
  else if details.alive ∧ peer ∈ c.passiveView then
    { c with aliveDisconnectPeers := insert peer c.aliveDisconnectPeers }
  else c

def handleConnectionClosed : Act PI R :=
  let c := { c with pendingNeighborRequests := c.pendingNeighborRequests.erase peer }
  if peer ∈ c.activeView then c.removeActive peer .connectionClosed
  else if peer ∈ c.aliveDisconnectPeers then
    { c with aliveDisconnectPeers := c.aliveDisconnectPeers.erase peer }
  else { c with passiveView := (c.passiveView.remove peer).2, peerData := c.peerData.erase peer }

/-- Leave the swarm, informing all neighbors. -/
def handleQuit : Act PI R :=
  c.activeView.items.foldl (fun c peer =>
    { c with activeView := (c.activeView.remove peer).2 }.sendDisconnect peer false) c

/-- A peer wants to join: it becomes a neighbor and is announced to all other neighbors. -/
def onJoin : Act PI R :=
  let c := (c.addActive peer data .high true).2
  c.pushFromIter ((c.activeView.iterWithout peer).map fun node =>
    .sendMessage node (.forwardJoin ⟨⟨peer, data⟩, c.config.activeRandomWalkLength⟩))

variable (sender : PI)

/-- A new peer was announced: ask it to become a neighbor, or walk on. -/
def onForwardJoin (message : ForwardJoin PI) : Act PI R :=
  let peerId := message.peer.id
  if peerId ∈ c.activeView then (c.insertPeerInfo message.peer).sendNeighbor peerId .high
  else if message.ttl.expired ∨ c.activeView.len ≤ 1 then
    (c.insertPeerInfo message.peer).sendNeighbor peerId .high
  else
    let c := if message.ttl = c.config.passiveRandomWalkLength
      then c.addPassive peerId message.peer.data else c
    if peerId ∉ c.activeView ∧ peerId ∉ c.pendingNeighborRequests then
      let d := c.activeView.pickRandomWithout {sender} c.rng
      let c := { c with rng := d.2 }
      match d.1 with
      -- never taken: there are at least two peers in the active view
      | none => c
      | some next => c.push (.sendMessage next (.forwardJoin ⟨message.peer, message.ttl.next⟩))
    else c

/-- A `Neighbor` message is a reply if we had asked the sender, and a request otherwise. -/
def onNeighbor (details : Neighbor) : Act PI R :=
  let isReply := decide (sender ∈ c.pendingNeighborRequests)
  let c := { c with pendingNeighborRequests := c.pendingNeighborRequests.erase sender }
  let r := c.addActive sender details.data details.priority (!isReply)
  if r.1 then r.2 else r.2.sendDisconnect sender true

/-- A shuffle request: answer it at the end of its walk, forward it before. -/
def onShuffle (shuffle : Shuffle PI) : Act PI R :=
  if shuffle.ttl.expired ∨ c.activeView.len ≤ 1 then
    (shuffle.nodes.foldl (fun c node => c.addPassive node.id node.data) c).sendShuffleReply
      shuffle.origin shuffle.nodes.length
  else
    let d := c.activeView.pickRandomWithout {shuffle.origin, sender} c.rng
    let c := { c with rng := d.2 }
    match d.1 with
    | none => c
    | some node => c.push
        (.sendMessage node (.shuffle ⟨shuffle.origin, shuffle.nodes, shuffle.ttl.next⟩))

/-- The answer to our shuffle request. -/
def onShuffleReply (message : ShuffleReply PI) : Act PI R :=
  (message.nodes.foldl (fun c node => c.addPassive node.id node.data) c).refillActiveFromPassive ∅

/-- Start a shuffle with a random neighbor. -/
def handleShuffleTimer : Act PI R :=
  let d := c.activeView.pickRandom c.rng
  let c := { c with rng := d.2 }
  let c := match d.1 with
    | none => c
    | some node =>
      let active := c.activeView.shuffledWithoutAndCapped {node}
        c.config.shuffleActiveViewCount c.rng
      let passive := c.passiveView.shuffledWithoutAndCapped {node}
        c.config.shufflePassiveViewCount active.2
      { c with rng := passive.2 }.push (.sendMessage node (.shuffle
        ⟨c.me, (active.1 ++ passive.1).map c.peerInfo ++ [PeerInfo.mk c.me c.meData],
          c.config.shuffleRandomWalkLength⟩))
  c.push (.scheduleTimer c.config.shuffleInterval .doShuffle)

/-- A neighbor request timed out: forget the peer and try another one. -/
def handlePendingNeighborTimer : Act PI R :=
  if peer ∈ c.pendingNeighborRequests then
    { c with
      pendingNeighborRequests := c.pendingNeighborRequests.erase peer
      passiveView := (c.passiveView.remove peer).2 }.refillActiveFromPassive ∅
  else c

def handleJoin : Act PI R :=
  c.push (.sendMessage peer (.join c.meData))

def dispatch : Message PI → Act PI R
  | .join data => c.onJoin sender data
  | .forwardJoin details => c.onForwardJoin sender details
  | .shuffle details => c.onShuffle sender details
  | .shuffleReply details => c.onShuffleReply details
  | .neighbor details => c.onNeighbor sender details
  | .disconnect details => c.onDisconnect sender details

def handleMessage (message : Message PI) : Act PI R :=
  let c := if !message.isDisconnect && decide (sender ∉ c.activeView)
    then { c with totalConnections := c.totalConnections + 1 } else c
  c.dispatch sender message

/-- Dispatch an input event to its handler. -/
def handleEvent : InEvent PI → Act PI R
  | .recvMessage sender message => c.handleMessage sender message
  | .timerExpired .doShuffle => c.handleShuffleTimer
  | .timerExpired (.pendingNeighborRequest peer) => c.handlePendingNeighborTimer peer
  | .peerDisconnected peer => c.handleConnectionClosed peer
  | .requestJoin peer => c.handleJoin peer
  | .updatePeerData data => { c with meData := some data }
  | .quit => c.handleQuit

/-- Schedule the first shuffle timer; this only happens on the first call of `handle`. -/
def scheduleShuffle : Act PI R :=
  if c.shuffleScheduled then c
  else { c with shuffleScheduled := true }.push (.scheduleTimer c.config.shuffleInterval .doShuffle)

end Act

variable [DecidableEq PI] [Rng R]

/-- Handle an input event: the next state and the pushed events. -/
def State.handle (s : State PI R) (event : InEvent PI) : State PI R × List (OutEvent PI) :=
  let c := (Act.handleEvent ⟨s, []⟩ event).scheduleShuffle
  (c.toState, c.io)

/-- The protocol as a reactive machine. -/
def machine : Machine (State PI R) (InEvent PI) (OutEvent PI) := ⟨State.handle⟩

end Boru.Hyparview
