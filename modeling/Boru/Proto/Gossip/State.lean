import Boru.Proto.Topic.State

/-!
# The gossip protocol of all topics

The protocol state holds a topic state for every joined topic and forwards events to them.  The
topics share one connection per peer: `peerTopics` records for every peer the topics on which it
sent us a message, and `handleOutEvent` consults this record when a topic asks to close the
connection to a peer.

The map of the topic states is iterated in an unspecified order; a step gets this order as an
input.
-/

namespace Boru

/-- A generator that can be seeded from another one. -/
class SeedableRng (R : Type*) extends Rng R where
  /-- `from_rng`: the new generator, and the generator it was seeded from. -/
  fromRng : R → R × R

export SeedableRng (fromRng)

instance : SeedableRng (List ℕ) where
  fromRng r := (r, r)

namespace Gossip

/-! ### Messages and events -/

structure Message (PI : Type) where
  topic : TopicId
  message : Topic.Message PI
  deriving DecidableEq

/-- A timer to be registered into the runtime. -/
structure Timer (PI : Type) where
  topic : TopicId
  timer : Topic.Timer PI
  deriving DecidableEq

inductive InEvent (PI : Type) where
  | recvMessage (peer : PI) (message : Message PI)
  | command (topic : TopicId) (command : Topic.Command PI)
  | timerExpired (timer : Timer PI)
  | peerDisconnected (peer : PI)
  | updatePeerData (data : PeerData)

inductive OutEvent (PI : Type) where
  | sendMessage (peer : PI) (message : Message PI)
  | emitEvent (topic : TopicId) (event : Topic.Event PI)
  | scheduleTimer (delay : Duration) (timer : Timer PI)
  | disconnectPeer (peer : PI)
  | peerData (peer : PI) (data : PeerData)
  deriving DecidableEq

/-- The topics for which each peer's connection is in use. -/
abbrev ConnsMap (PI : Type) := HashMap PI (Finset TopicId)

/-- An event for all topics or for one topic. -/
inductive InEventMapped (PI : Type) where
  | all (event : Topic.InEvent PI)
  | topicEvent (topic : TopicId) (event : Topic.InEvent PI)

variable {PI R : Type}

/-- The topic event for an event, and whom it concerns. -/
def InEvent.mapped : InEvent PI → InEventMapped PI
  | .recvMessage peer ⟨topic, message⟩ => .topicEvent topic (.recvMessage peer message)
  | .command topic cmd => .topicEvent topic (.command cmd)
  | .timerExpired ⟨topic, timer⟩ => .topicEvent topic (.timerExpired timer)
  | .peerDisconnected peer => .all (.peerDisconnected peer)
  | .updatePeerData data => .all (.updatePeerData data)

/-! ### Connections -/

variable [LinearOrder PI]

/-- Turn an event of a topic into events of the protocol.  A request to disconnect a peer removes
the topic from the topics of the peer. -/
def handleOutEvent (topic : TopicId) (event : Topic.OutEvent PI) (conns : ConnsMap PI) :
    ConnsMap PI × List (OutEvent PI) :=
  match event with
  | .sendMessage peer message => (conns, [.sendMessage peer ⟨topic, message⟩])
  | .emitEvent event => (conns, [.emitEvent topic event])
  | .scheduleTimer delay timer => (conns, [.scheduleTimer delay ⟨topic, timer⟩])
  | .disconnectPeer peer =>
    match conns.lookup peer with
    | none => (conns, [])
    | some list =>
      let conns := conns.insert peer (list.erase topic)
      -- `list.remove(&topic) || list.is_empty()`: true as soon as the topic was in the list
      if topic ∈ list ∨ list.erase topic = ∅ then (conns.erase peer, [.disconnectPeer peer])
      else (conns, [])
  | .peerData peer data => (conns, [.peerData peer data])

/-! ### State -/

structure State (PI R : Type) [LT PI] where
  me : PI
  meData : PeerData
  config : Topic.Config
  rng : R
  states : HashMap TopicId (Topic.State PI R)
  /-- The topics on which a peer sent us messages. -/
  peerTopics : ConnsMap PI

/-- A state being mutated, with the events in the outbox. -/
structure Act (PI R : Type) [LT PI] extends State PI R where
  outbox : List (OutEvent PI)

variable [SeedableRng R]

def State.new (me : PI) (meData : PeerData) (config : Topic.Config) (rng : R) : State PI R where
  me := me
  meData := meData
  config := config
  rng := rng
  states := ∅
  peerTopics := ∅

namespace Act

/-- When receiving a join command, initialize the state of the topic if it doesn't exist. -/
def join (c : Act PI R) (topic : TopicId) : Topic.InEvent PI → Act PI R
  | .command (.join _) =>
    match c.states.lookup topic with
    | some _ => c
    | none =>
      let r := fromRng c.rng
      { c with
        rng := r.2
        states := c.states.insert topic (.withRng c.me (some c.meData) c.config r.1) }
  | _ => c

/-- When receiving a message, take note that the topic may want to keep the connection. -/
def note (c : Act PI R) (topic : TopicId) : Topic.InEvent PI → Act PI R
  | .recvMessage peer _ => { c with peerTopics := c.peerTopics.upsert peer ∅ (insert topic) }
  | _ => c

def handleOut (topic : TopicId) (c : Act PI R) (event : Topic.OutEvent PI) : Act PI R :=
  let r := handleOutEvent topic event c.peerTopics
  { c with peerTopics := r.1, outbox := c.outbox ++ r.2 }

variable (blake3 : Bytes → Plumtree.MessageId)

/-- Let a topic handle an event, and handle its events. -/
def handleState (event : Topic.InEvent PI) (now : Instant) (c : Act PI R) (topic : TopicId) :
    Act PI R :=
  match c.states.lookup topic with
  | none => c
  | some state =>
    let r := state.handle blake3 event now
    r.2.foldl (handleOut topic) { c with states := c.states.insert topic r.1 }

def handleTopicEvent (now : Instant) (c : Act PI R) (topic : TopicId) (event : Topic.InEvent PI) :
    Act PI R :=
  let c := c.join topic event
  let c :=
    if (c.states.lookup topic).isSome then
      (c.note topic event).handleState blake3 event now topic
    else c
  -- the state of the topic is dropped after its last event
  if event = .command .quit then { c with states := c.states.erase topic } else c

/-- Handle an event for all topics, visited in the given order. -/
def handleAll (now : Instant) (c : Act PI R) (event : Topic.InEvent PI) (topics : List TopicId) :
    Act PI R :=
  let c := match event with
    | .updatePeerData data => { c with meData := data }
    | _ => c
  topics.foldl (handleState blake3 event now) c

end Act

/-- An event with the instant at which it is handled and the order in which the map of the topic
states is iterated. -/
structure Input (PI : Type) where
  event : InEvent PI
  now : Instant
  /-- The place of each topic in the iteration. -/
  order : TopicId → ℕ

/-- The joined topics in the order of an iteration. -/
def State.topics (s : State PI R) (order : TopicId → ℕ) : List TopicId :=
  s.states.keys.insertionSort fun t u => order t ≤ order u

/-- Handle an event: the next state and the drained outbox. -/
def State.handle (blake3 : Bytes → Plumtree.MessageId) (s : State PI R) (i : Input PI) :
    State PI R × List (OutEvent PI) :=
  let c := match i.event.mapped with
    | .topicEvent topic event => Act.handleTopicEvent blake3 i.now ⟨s, []⟩ topic event
    | .all event => Act.handleAll blake3 i.now ⟨s, []⟩ event (s.topics i.order)
  (c.toState, c.outbox)

/-- The protocol as a reactive machine. -/
def machine (blake3 : Bytes → Plumtree.MessageId) : Machine (State PI R) (Input PI) (OutEvent PI) :=
  ⟨State.handle blake3⟩

end Gossip

end Boru
