import Boru.Proto.Hyparview.State
import Boru.Proto.Plumtree.State

/-!
# The gossip protocol of one topic

A topic runs a HyParView state (`swarm`) and a PlumTree state (`gossip`) side by side.  Every event
goes to one of the layers; afterwards the neighbors that came up or went down in the membership
layer are reported to the broadcast layer by replaying the outbox.
-/

namespace Boru.Topic

/-! ### Messages and events -/

/-- A message of one of the two layers. -/
inductive Message (PI : Type) where
  | swarm (message : Hyparview.Message PI)
  | gossip (message : Plumtree.Message)
  deriving DecidableEq

/-- A timer of one of the two layers. -/
inductive Timer (PI : Type) where
  | swarm (timer : Hyparview.Timer PI)
  | gossip (timer : Plumtree.Timer)
  deriving DecidableEq

inductive Command (PI : Type) where
  | join (peers : List PI)
  | broadcast (content : Bytes) (scope : Plumtree.Scope)
  | quit
  deriving DecidableEq

inductive InEvent (PI : Type) where
  | recvMessage (peer : PI) (message : Message PI)
  | command (command : Command PI)
  | timerExpired (timer : Timer PI)
  | peerDisconnected (peer : PI)
  | updatePeerData (data : PeerData)
  deriving DecidableEq

/-- Events emitted to the application. -/
inductive Event (PI : Type) where
  | neighborUp (peer : PI)
  | neighborDown (peer : PI)
  | received (event : Plumtree.GossipEvent PI)
  | missingMessages (sinceRound : Plumtree.Round) (fromPeer : PI)
  deriving DecidableEq

inductive OutEvent (PI : Type) where
  | sendMessage (peer : PI) (message : Message PI)
  | emitEvent (event : Event PI)
  | scheduleTimer (delay : Duration) (timer : Timer PI)
  | disconnectPeer (peer : PI)
  | peerData (peer : PI) (data : PeerData)

variable {PI R : Type}

/-- The output event for an event of the membership layer. -/
def OutEvent.ofSwarm : Hyparview.OutEvent PI → OutEvent PI
  | .sendMessage peer message => .sendMessage peer (.swarm message)
  | .scheduleTimer delay timer => .scheduleTimer delay (.swarm timer)
  | .disconnectPeer peer => .disconnectPeer peer
  | .emitEvent (.neighborUp peer) => .emitEvent (.neighborUp peer)
  | .emitEvent (.neighborDown peer) => .emitEvent (.neighborDown peer)
  | .peerData peer data => .peerData peer data

/-- The output event for an event of the broadcast layer. -/
def OutEvent.ofGossip : Plumtree.OutEvent PI → OutEvent PI
  | .sendMessage peer message => .sendMessage peer (.gossip message)
  | .scheduleTimer delay timer => .scheduleTimer delay (.gossip timer)
  | .emitEvent (.received event) => .emitEvent (.received event)
  | .emitEvent (.missingMessages sinceRound fromPeer) =>
    .emitEvent (.missingMessages sinceRound fromPeer)

def OutEvent.isSend : OutEvent PI → Bool
  | .sendMessage _ _ => true
  | _ => false

/-! ### State -/

/-- The smallest value supported for `Config.maxMessageSize`. -/
def minMaxMessageSize : ℕ := 512

/-- The bytes of a message taken up by the topic and the layer. -/
def postcardHeaderSize : ℕ := 33

/-- Protocol configuration.  A state cannot be created with too small a message size. -/
structure Config where
  membership : Hyparview.Config := {}
  broadcast : Plumtree.Config := {}
  maxMessageSize : ℕ := 4096
  /-- The size is large enough for control messages. -/
  size_ok : minMaxMessageSize ≤ maxMessageSize := by decide

structure Stats where
  messagesSent : ℕ := 0
  messagesReceived : ℕ := 0

structure State (PI R : Type) [LT PI] where
  me : PI
  swarm : Hyparview.State PI R
  gossip : Plumtree.State PI
  stats : Stats

/-- A state being mutated, with the events in the outbox. -/
structure Act (PI R : Type) [LT PI] extends State PI R where
  outbox : List (OutEvent PI)

variable [LinearOrder PI] [Rng R]

def State.withRng (me : PI) (meData : Option PeerData) (config : Config) (rng : R) :
    State PI R where
  me := me
  swarm := .new me meData config.membership rng
  gossip := .new me config.broadcast (config.maxMessageSize - postcardHeaderSize)
  stats := {}

namespace Act

/-- Let the membership layer handle an event. -/
def handleSwarm (c : Act PI R) (event : Hyparview.InEvent PI) : Act PI R :=
  let r := c.swarm.handle event
  { c with swarm := r.1, outbox := c.outbox ++ r.2.map .ofSwarm }

/-- Let the broadcast layer handle an event. -/
def handleGossip (blake3 : Bytes → Plumtree.MessageId) (now : Instant) (c : Act PI R)
    (event : Plumtree.InEvent PI) : Act PI R :=
  let r := c.gossip.handle blake3 event now
  { c with gossip := r.1, outbox := c.outbox ++ r.2.map .ofGossip }

/-- Process an event, storing the output in the outbox. -/
def process (blake3 : Bytes → Plumtree.MessageId) (now : Instant) (c : Act PI R) :
    InEvent PI → Act PI R
  | .command (.join peers) => peers.foldl (fun c peer => c.handleSwarm (.requestJoin peer)) c
  | .command (.broadcast content scope) => c.handleGossip blake3 now (.broadcast content scope)
  | .command .quit => c.handleSwarm .quit
  | .recvMessage sender message =>
    let c := { c with
      stats := { c.stats with messagesReceived := c.stats.messagesReceived + 1 } }
    match message with
    | .swarm message => c.handleSwarm (.recvMessage sender message)
    | .gossip message => c.handleGossip blake3 now (.recvMessage sender message)
  | .timerExpired (.swarm timer) => c.handleSwarm (.timerExpired timer)
  | .timerExpired (.gossip timer) => c.handleGossip blake3 now (.timerExpired timer)
  | .peerDisconnected peer =>
    (c.handleSwarm (.peerDisconnected peer)).handleGossip blake3 now (.neighborDown peer)
  | .updatePeerData data => c.handleSwarm (.updatePeerData data)

end Act

/-- The event of the broadcast layer that an event in the outbox is forwarded as. -/
def OutEvent.forwarded : OutEvent PI → Option (Plumtree.InEvent PI)
  | .emitEvent (.neighborUp peer) => some (.neighborUp peer)
  | .emitEvent (.neighborDown peer) => some (.neighborDown peer)
  | _ => none

namespace Act

/-- Forward neighbors that came up or went down to the broadcast layer. -/
def forwardNeighbors (blake3 : Bytes → Plumtree.MessageId) (now : Instant) (c : Act PI R) :
    Act PI R :=
  (c.outbox.filterMap OutEvent.forwarded).foldl (handleGossip blake3 now) c

/-- Count the messages in the outbox. -/
def countSent (c : Act PI R) : Act PI R :=
  { c with stats := { c.stats with
    messagesSent := c.stats.messagesSent + (c.outbox.filter OutEvent.isSend).length } }

end Act

/-- Handle an event at the instant `now`: the next state and the drained outbox. -/
def State.handle (blake3 : Bytes → Plumtree.MessageId) (s : State PI R) (event : InEvent PI)
    (now : Instant) : State PI R × List (OutEvent PI) :=
  let c := ((Act.process blake3 now ⟨s, []⟩ event).forwardNeighbors blake3 now).countSent
  (c.toState, c.outbox)

/-- The protocol of a topic as a reactive machine. -/
def machine (blake3 : Bytes → Plumtree.MessageId) :
    Machine (State PI R) (InEvent PI × Instant) (OutEvent PI) :=
  ⟨fun s i => s.handle blake3 i.1 i.2⟩

end Boru.Topic
