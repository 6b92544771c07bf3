import Boru.LTS.Basic
import Boru.Collections.BTree
import Boru.Collections.Chunks
import Boru.Collections.TimeBoundCache
import Boru.Proto.Types

/-!
# The PlumTree broadcast protocol

PlumTree broadcasts messages over the neighbors the membership layer provides.  Full messages are
pushed to *eager* peers at once, message ids are announced to *lazy* peers in batches, and a node
that hears of an id without receiving the message grafts the announcing peer after a timeout.
This file is the state machine: `State.handle` consumes one `InEvent` at an instant and pushes
`OutEvent`s.

A message id is the hash of the message's content.  The hash function `blake3` is a parameter.
-/

namespace Boru.Plumtree

/-! ### Messages and events -/

/-- A message identifier, which is the message content's hash. -/
structure MessageId where
  bytes : BitVec 256
  deriving DecidableEq

/-- Number of delivery hops a message has taken. -/
abbrev Round := UInt16

/-- Increment the round count by one, wrapping around as an optimised build does. -/
def Round.next (r : Round) : Round := r + 1

/-- Kinds of timers PlumTree needs to schedule. -/
inductive Timer where
  /-- Request the content of a message by grafting a peer that announced it. -/
  | sendGraft (id : MessageId)
  /-- Dispatch the announcements in the lazy push queue. -/
  | dispatchLazyPush
  | evictCache
  deriving DecidableEq

inductive DeliveryScope where
  /-- From the swarm, with a distance in hops from the original broadcaster. -/
  | swarm (round : Round)
  /-- From a neighbor that broadcast the message to its neighbors only. -/
  | neighbors
  deriving DecidableEq

/-- The broadcast scope of a message. -/
inductive Scope where
  | swarm
  | neighbors
  deriving DecidableEq

structure Gossip where
  id : MessageId
  content : Bytes
  scope : DeliveryScope
  deriving DecidableEq

/-- Informs peers that we have a message without transmitting its payload. -/
structure IHave where
  id : MessageId
  round : Round
  deriving DecidableEq

/-- The largest encoded size of an `IHave`: 32 bytes of id and a varint of at most three. -/
def IHave.postcardMaxSize : ℕ := 35

/-- Signals a peer that it was moved to the eager set, and asks it to do the same. -/
structure Graft where
  id : Option MessageId
  /-- Delivery round of the `IHave` that triggered the graft. -/
  round : Round
  deriving DecidableEq

/-- Messages that we can send to and receive from peers. -/
inductive Message where
  | gossip (details : Gossip)
  | prune
  | graft (details : Graft)
  | iHave (details : List IHave)
  deriving DecidableEq

inductive InEvent (PI : Type) where
  | recvMessage (peer : PI) (message : Message)
  | broadcast (content : Bytes) (scope : Scope)
  | timerExpired (timer : Timer)
  | neighborUp (peer : PI)
  | neighborDown (peer : PI)

/-- A message delivered to the application. -/
structure GossipEvent (PI : Type) where
  content : Bytes
  /-- The peer before us in the gossiping path. -/
  deliveredFrom : PI
  scope : DeliveryScope
  deriving DecidableEq

/-- Events emitted to the application. -/
inductive Event (PI : Type) where
  | received (event : GossipEvent PI)
  | missingMessages (sinceRound : Round) (fromPeer : PI)
  deriving DecidableEq

inductive OutEvent (PI : Type) where
  | sendMessage (peer : PI) (message : Message)
  | scheduleTimer (delay : Duration) (timer : Timer)
  | emitEvent (event : Event PI)
  deriving DecidableEq

namespace Gossip

/-- The delivery round of a swarm message. -/
def round (g : Gossip) : Option Round :=
  match g.scope with
  | .swarm round => some round
  | .neighbors => none

/-- Validate that the message id is the hash of the message content. -/
def validate (blake3 : Bytes → MessageId) (g : Gossip) : Bool := decide (blake3 g.content = g.id)

end Gossip

/-- The event for a message received from a peer. -/
def GossipEvent.fromMessage {PI : Type} (message : Gossip) (sender : PI) : GossipEvent PI :=
  ⟨message.content, sender, message.scope⟩

/-! ### State -/

/-- Configuration of the broadcast layer; durations are in milliseconds. -/
structure Config where
  /-- Time to wait for an announced message before it is requested. -/
  graftTimeout1 : Duration := 300
  /-- Time to wait for a requested message before it is requested from the next peer. -/
  graftTimeout2 : Duration := 200
  /-- Timeout after which announcements are pushed to peers. -/
  dispatchTimeout : Duration := 15
  /-- The number of hops a lazy peer must be closer to the origin to become eager. -/
  optimizationThreshold : Round := 7
  /-- Duration for which messages are kept to answer grafts. -/
  messageCacheRetention : Duration := 30000
  /-- Duration for which the ids of received messages are kept. -/
  messageIdRetention : Duration := 90000
  /-- How often the caches are checked for expired items. -/
  cacheEvictInterval : Duration := 1000

structure Stats where
  payloadMessagesReceived : ℕ := 0
  controlMessagesReceived : ℕ := 0
  maxLastDeliveryHop : Round := 0

/-- The ids of the messages received, each until it expires. -/
abbrev Received := TimeBoundCache Instant MessageId Unit

/-- State of the PlumTree protocol. -/
structure State (PI : Type) [LT PI] where
  me : PI
  config : Config
  eagerPushPeers : BTreeSet PI
  /-- Peers used for control message exchange. -/
  lazyPushPeers : BTreeSet PI
  /-- Announcements waiting to be dispatched. -/
  lazyPushQueue : BTreeMap PI (List IHave)
  /-- For announced messages whose payload we have not received: who announced them. -/
  missingMessages : HashMap MessageId (List (PI × Round))
  /-- Messages for which the full payload has been seen. -/
  receivedMessages : Received
  cache : TimeBoundCache Instant MessageId Gossip
  /-- Message ids for which a graft timer has been scheduled. -/
  graftTimerScheduled : Finset MessageId
  dispatchTimerScheduled : Bool
  init : Bool
  /-- Message ids that have been broadcast by this node. -/
  locallyAuthored : Finset MessageId
  stats : Stats
  /-- The maximum round number seen across all received swarm messages. -/
  maxSeenRound : Round
  /-- The largest message the layer may send, in bytes. -/
  maxMessageSize : ℕ

/-- A state being mutated by a handler, with the events pushed so far. -/
structure Act (PI : Type) [LT PI] extends State PI where
  io : List (OutEvent PI)

variable {PI : Type} [LinearOrder PI]

def State.new (me : PI) (config : Config) (maxMessageSize : ℕ) : State PI where
  me := me
  config := config
  eagerPushPeers := ∅
  lazyPushPeers := ∅
  lazyPushQueue := ∅
  missingMessages := ∅
  receivedMessages := .empty
  cache := .empty
  graftTimerScheduled := ∅
  dispatchTimerScheduled := false
  init := false
  locallyAuthored := ∅
  stats := {}
  maxSeenRound := 0
  maxMessageSize := maxMessageSize

/-- `min_by` on the rounds: the first of the announcements with the least round. -/
def bestIHave : List (PI × Round) → Option (PI × Round)
  | [] => none
  | x :: xs => some (xs.foldl (fun best y => if y.2 < best.2 then y else best) x)

namespace Act

variable (c : Act PI)

def push (e : OutEvent PI) : Act PI := { c with io := c.io ++ [e] }

/-- Move a peer into the eager set. -/
def addEager (peer : PI) : Act PI :=
  { c with
    lazyPushPeers := c.lazyPushPeers.remove peer
    eagerPushPeers := c.eagerPushPeers.insert peer }

def addLazy (peer : PI) : Act PI :=
  { c with
    eagerPushPeers := c.eagerPushPeers.remove peer
    lazyPushPeers := c.lazyPushPeers.insert peer }

/-- Immediately send a message to the eager peers. -/
def eagerPush (gossip : Gossip) (sender : PI) : Act PI :=
  (c.eagerPushPeers.keys.filter fun peer => peer ≠ c.me ∧ peer ≠ sender).foldl
    (fun c peer => c.push (.sendMessage peer (.gossip gossip))) c

/-- Append an announcement to the queue of a peer. -/
def enqueue (iHave : IHave) (queue : BTreeMap PI (List IHave)) (peer : PI) :
    BTreeMap PI (List IHave) :=
  queue.alter peer fun list => some (list.getD [] ++ [iHave])

/-- Queue an announcement for every lazy peer, and schedule the dispatch of the queue. -/
def lazyPush (gossip : Gossip) (sender : PI) : Act PI :=
  match gossip.round with
  | none => c
  | some round =>
    let peers := c.lazyPushPeers.keys.filter fun peer => peer ≠ sender
    let c := { c with
      lazyPushQueue := peers.foldl (enqueue ⟨gossip.id, round⟩) c.lazyPushQueue }
    if !peers.isEmpty && !c.dispatchTimerScheduled then
      { c with dispatchTimerScheduled := true }.push
        (.scheduleTimer c.config.dispatchTimeout .dispatchLazyPush)
    else c

/-! ### Handlers -/

/-- Send out all queued announcements, in chunks that fit into a message. -/
def onDispatchTimer : Act PI :=
  -- space for the discriminator and the length
  let chunkSize := c.maxMessageSize - 1 - 2
  let chunkLen := chunkSize / IHave.postcardMaxSize
  -- popping the first entry until none is left visits the queue in order
  let c := c.lazyPushQueue.entries.foldl (fun c e =>
    (chunks chunkLen e.2).foldl (fun c chunk => c.push (.sendMessage e.1 (.iHave chunk))) c)
    { c with lazyPushQueue := ∅ }
  { c with dispatchTimerScheduled := false }

variable (blake3 : Bytes → MessageId)

def broadcast (c : Act PI) (content : Bytes) (scope : Scope) (now : Instant) : Act PI :=
  let id := blake3 content
  match scope with
  | .neighbors => c.eagerPush ⟨id, content, .neighbors⟩ c.me
  | .swarm =>
    let message : Gossip := ⟨id, content, .swarm 0⟩
    let c := { c with
      receivedMessages := c.receivedMessages.insert id () (now + c.config.messageIdRetention)
      cache := c.cache.insert id message (now + c.config.messageCacheRetention)
      locallyAuthored := insert id c.locallyAuthored }
    (c.lazyPush message c.me).eagerPush message c.me

/-- If an announcement of the message has come over a much shorter path than the message, make
its sender eager and prune the sender of the message. -/
def optimizeTree (gossipSender : PI) (round : Round) (previousIHaves : List (PI × Round)) :
    Act PI :=
  match bestIHave previousIHaves with
  | none => c
  | some (iHavePeer, iHaveRound) =>
    if iHaveRound < round ∧ c.config.optimizationThreshold ≤ round - iHaveRound then
      let c := if iHavePeer ∈ c.eagerPushPeers then c
        else (c.addEager iHavePeer).push (.sendMessage iHavePeer (.graft ⟨none, iHaveRound⟩))
      (c.addLazy gossipSender).push (.sendMessage gossipSender .prune)
    else c

variable (sender : PI)

/-- Store and forward a swarm message, which is then no longer missing. -/
def storeSwarm (message : Gossip) (prevRound : Round) (now : Instant) : Act PI :=
  let c := { c with
    receivedMessages := c.receivedMessages.insert message.id ()
      (now + c.config.messageIdRetention) }
  -- a round gap lets the application request a backfill
  let c := if c.maxSeenRound + 1 < prevRound
    then c.push (.emitEvent (.missingMessages c.maxSeenRound sender)) else c
  let c := { c with maxSeenRound := max c.maxSeenRound prevRound }
  let message := { message with scope := .swarm prevRound.next }
  let c := { c with
    cache := c.cache.insert message.id message (now + c.config.messageCacheRetention) }
  let c := (c.eagerPush message sender).lazyPush message sender
  { c with
    graftTimerScheduled := c.graftTimerScheduled.erase message.id
    missingMessages := c.missingMessages.erase message.id }

/-- A swarm message was received for the first time. -/
def acceptSwarm (message : Gossip) (prevRound : Round) (now : Instant) : Act PI :=
  let previousIHaves := c.missingMessages.lookup message.id
  let c := c.storeSwarm sender message prevRound now
  let c := match previousIHaves with
    | none => c
    | some previousIHaves => c.optimizeTree sender prevRound.next previousIHaves
  { c with stats := { c.stats with
    maxLastDeliveryHop := max c.stats.maxLastDeliveryHop prevRound } }

def onGossip (c : Act PI) (sender : PI) (message : Gossip) (now : Instant) : Act PI :=
  if !message.validate blake3 then c
  else if c.receivedMessages.containsKey message.id then
    -- our own message came back from an eager forwarder, which is not pruned for it
    if message.id ∈ c.locallyAuthored then
      { c with locallyAuthored := c.locallyAuthored.erase message.id }
    else (c.addLazy sender).push (.sendMessage sender .prune)
  else
    let c := c.push (.emitEvent (.received (.fromMessage message sender)))
    match message.scope with
    | .neighbors => c
    | .swarm prevRound => c.acceptSwarm sender message prevRound now

/-- A `Prune` message was received. -/
def onPrune : Act PI := c.addLazy sender

/-- One announcement: remember who made it, and give the message time to arrive. -/
def onIHaveOne (c : Act PI) (iHave : IHave) : Act PI :=
  if c.receivedMessages.containsKey iHave.id then c
  else
    let c := { c with missingMessages :=
      c.missingMessages.upsert iHave.id [] (· ++ [(sender, iHave.round)]) }
    if iHave.id ∈ c.graftTimerScheduled then c
    else { c with graftTimerScheduled := insert iHave.id c.graftTimerScheduled }.push
      (.scheduleTimer c.config.graftTimeout1 (.sendGraft iHave.id))

/-- An `IHave` message was received. -/
def onIHave (iHaves : List IHave) : Act PI :=
  iHaves.foldl (onIHaveOne sender) c

/-- A graft timer expired: if the message has still not arrived, request it from the first peer
that announced it. -/
def onSendGraftTimer (id : MessageId) : Act PI :=
  let c := { c with graftTimerScheduled := c.graftTimerScheduled.erase id }
  if c.receivedMessages.containsKey id then c
  else match c.missingMessages.lookup id with
    | some ((peer, round) :: rest) =>
      let c := { c with missingMessages := c.missingMessages.insert id rest }.addEager peer
      (c.push (.sendMessage peer (.graft ⟨some id, round⟩))).push
        (.scheduleTimer c.config.graftTimeout2 (.sendGraft id))
    | _ => c

/-- A `Graft` message was received. -/
def onGraft (details : Graft) : Act PI :=
  let c := c.addEager sender
  match details.id with
  | none => c
  | some id =>
    match c.cache.get id with
    | none => c
    | some message => c.push (.sendMessage sender (.gossip message))

variable (peer : PI)

def onNeighborUp : Act PI := c.addEager peer

/-- The announcements left when those of `peer` are dropped. -/
def withoutPeer (iHaves : List (PI × Round)) : Option (List (PI × Round)) :=
  let kept := iHaves.filter fun e => e.1 ≠ peer
  if kept.isEmpty then none else some kept

def onNeighborDown : Act PI :=
  { c with
    missingMessages := c.missingMessages.retain (withoutPeer peer)
    eagerPushPeers := c.eagerPushPeers.remove peer
    lazyPushPeers := c.lazyPushPeers.remove peer }

/-- Evict the caches, and schedule the next eviction. -/
def onEvictCacheTimer (now : Instant) : Act PI :=
  { c with
    cache := (c.cache.expireUntil now).2
    receivedMessages := (c.receivedMessages.expireUntil now).2 }.push
    (.scheduleTimer c.config.cacheEvictInterval .evictCache)

def handleMessage (c : Act PI) (sender : PI) (message : Message) (now : Instant) : Act PI :=
  match message with
  | .gossip details =>
    onGossip blake3 { c with stats := { c.stats with
      payloadMessagesReceived := c.stats.payloadMessagesReceived + 1 } } sender details now
  | .prune => { c with stats := { c.stats with
      controlMessagesReceived := c.stats.controlMessagesReceived + 1 } }.onPrune sender
  | .iHave details => { c with stats := { c.stats with
      controlMessagesReceived := c.stats.controlMessagesReceived + 1 } }.onIHave sender details
  | .graft details => { c with stats := { c.stats with
      controlMessagesReceived := c.stats.controlMessagesReceived + 1 } }.onGraft sender details

/-- The first event also starts the eviction timer. -/
def start (now : Instant) : Act PI :=
  if c.init then c else { c with init := true }.onEvictCacheTimer now

/-- Dispatch an input event to its handler. -/
def handleEvent (c : Act PI) (now : Instant) : InEvent PI → Act PI
  | .recvMessage sender message => handleMessage blake3 c sender message now
  | .broadcast content scope => broadcast blake3 c content scope now
  | .neighborUp peer => c.onNeighborUp peer
  | .neighborDown peer => c.onNeighborDown peer
  | .timerExpired .dispatchLazyPush => c.onDispatchTimer
  | .timerExpired (.sendGraft id) => c.onSendGraftTimer id
  | .timerExpired .evictCache => c.onEvictCacheTimer now

end Act

/-- Handle an input event at the instant `now`: the next state and the pushed events. -/
def State.handle (blake3 : Bytes → MessageId) (s : State PI) (event : InEvent PI) (now : Instant) :
    State PI × List (OutEvent PI) :=
  let c := Act.handleEvent blake3 (Act.start ⟨s, []⟩ now) now event
  (c.toState, c.io)

/-- The protocol as a reactive machine; every input event comes with the instant at which it is
handled. -/
def machine (blake3 : Bytes → MessageId) :
    Machine (State PI) (InEvent PI × Instant) (OutEvent PI) :=
  ⟨fun s i => s.handle blake3 i.1 i.2⟩

end Boru.Plumtree
