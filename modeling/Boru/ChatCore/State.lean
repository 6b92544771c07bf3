import Boru.ChatCore.Protocol

/-!
# The chat application state

`AppState` is the state that the handler of network events changes, through the callbacks that a
frontend implements.  A callback and its arguments are a value, `Callback`, and `AppState.call` is
what the application state does when it is called; callbacks that it leaves at their default do
nothing to it, or what the default does.

The fields that belong to drawing and to the composer, the statistics of the transport and the map
of messages sent by the node itself are left out: no callback of the handler reads or writes them.
-/

namespace Boru.ChatCore

open Authorization (AuthorizationEvent AuthorizationState Permission)
open Gossip (TopicId)

/-- The clocks that the application reads. -/
structure Clock where
  /-- The monotonic clock, in milliseconds. -/
  instant : Instant
  unixMs : UInt64

def Clock.unixSecs (clock : Clock) : UInt64 := clock.unixMs / 1000

/-! ### Entries of the chat log -/

/-- Whether a message originated locally, from a remote peer, or is a system notice. -/
inductive ChatKind where
  | system
  | localUser
  | remote

/-- A single entry in the chat log. -/
structure ChatEntry where
  kind : ChatKind
  label : String
  body : String
  /-- Hash of the protocol message that produced this entry, when known. -/
  messageHash : Option MessageHash
  /-- Whether this entry has been edited after initial delivery. -/
  edited : Bool
  /-- Emoji reactions attached to this entry. -/
  reactions : List String
  /-- Unix milliseconds when this entry was created. -/
  timestamp : Option UInt64
  mentions : List Mention

namespace ChatEntry

def create (clock : Clock) (kind : ChatKind) (label body : String) : ChatEntry where
  kind := kind
  label := label
  body := body
  messageHash := none
  edited := false
  reactions := []
  timestamp := some clock.unixMs
  mentions := []

def system (clock : Clock) (text : String) : ChatEntry := create clock .system "System" text

/-- Create a remote message entry; the time of sending replaces that of arrival. -/
def remote (clock : Clock) (label text : String) (hash : Option MessageHash)
    (sentAt : Option UInt64) (mentions : List Mention) : ChatEntry :=
  let entry := { create clock .remote label text with mentions := mentions }
  let entry := match sentAt with
    | some secs => { entry with timestamp := some (secs * 1000) }
    | none => entry
  match hash with
  | some hash => { entry with messageHash := some hash }
  | none => entry

variable (entry : ChatEntry)

def hasHash (hash : MessageHash) : Bool := entry.messageHash = some hash

def edit (newText : String) : ChatEntry :=
  { entry with body := newText, edited := true }

def delete : ChatEntry :=
  { entry with body := "[message deleted]", edited := false, reactions := [] }

def react (emoji : String) : ChatEntry :=
  { entry with reactions := entry.reactions ++ [emoji] }

end ChatEntry

/-! ### Friends -/

structure FriendRecord where
  /-- User-chosen display label. -/
  label : Option String
  /-- Most recently announced self-name from the peer. -/
  lastAnnouncedName : Option String
  /-- Whether the peer was last observed online. -/
  online : Bool
  /-- Last time the peer was observed online. -/
  lastSeenAt : Option UInt64
  /-- Last time the peer was observed offline. -/
  lastOfflineAt : Option UInt64
  /-- Recently observed endpoint addresses, newest first. -/
  knownAddrs : List Bytes
  addrsUpdatedAt : Option UInt64
  rooms : HashMap TopicId Ticket

namespace FriendRecord

def empty : FriendRecord := ⟨none, none, false, none, none, [], none, ∅⟩

def maxKnownAddrs : ℕ := 5

/-- Append an address that is not there yet. -/
def pushAbsent (merged : List Bytes) (addr : Bytes) : List Bytes :=
  if addr ∈ merged then merged else merged ++ [addr]

/-- Record addresses.  The known addresses have been drained when the merged list is compared with
them, so every list that is not empty counts as a change. -/
def recordAddrs (r : FriendRecord) (clock : Clock) (addrs : List Bytes) : FriendRecord :=
  let merged := ((addrs ++ r.knownAddrs).foldl pushAbsent []).take maxKnownAddrs
  if merged ≠ [] then
    { r with knownAddrs := merged, addrsUpdatedAt := some clock.unixMs }
  else { r with knownAddrs := [] }

end FriendRecord

/-! ### The state and its callbacks -/

structure AppState where
  localPublic : PublicKey
  entries : List ChatEntry
  /-- Whether to scroll to the latest message. -/
  followLatest : Bool
  /-- Whether the user has requested to quit. -/
  shouldQuit : Bool
  /-- Pending file download: file name and ticket. -/
  pendingFile : Option (String × String)
  pendingImage : List (String × MessageHash × PublicKey)
  pendingGif : List (Bytes × PublicKey)
  friends : HashMap PublicKey FriendRecord
  /-- Whether the friends have unsaved changes. -/
  friendsDirty : Bool
  /-- Last announced display name by peer. -/
  names : HashMap PublicKey String
  /-- Last time any activity of a peer was seen. -/
  lastActivity : HashMap PublicKey Instant
  neighbors : Finset PublicKey
  /-- Typing leases: when they expire. -/
  typing : HashMap (TopicId × PublicKey) Instant
  roomAuthorization : HashMap TopicId AuthorizationState

inductive ReactionOp where
  | add
  | remove

/-- The callbacks that the handler of network events invokes. -/
inductive Callback where
  | applyRoomAuthorization (topic : Option TopicId) (event : AuthorizationEvent)
  | recordActivity (peer : PublicKey)
  | recordPresence (peer : PublicKey)
  | recordPeerTicket (peer : PublicKey) (ticket : String)
  | recordProfileImageTicket (peer : PublicKey) (ticket : String)
  | clearProfileImage (peer : PublicKey)
  | onProfileUpdate (peer : PublicKey) (profile : Bytes)
  | setName (peer : PublicKey) (name : String)
  | friendMarkOnline (peer : PublicKey)
  | friendSetName (peer : PublicKey) (name : String)
  | markFriendsDirty
  | pushSystem (text : String)
  | pushRemote (peer : PublicKey) (label text : String) (hash : Option MessageHash)
      (sentAt : Option UInt64)
  | pushRemoteWithIdentity (peer : PublicKey) (label text : String) (hash : Option MessageHash)
      (sentAt : Option UInt64) (messageId : Option MessageId)
  | pushRemoteWithMentions (peer : PublicKey) (label text : String) (mentions : List Mention)
      (hash : Option MessageHash) (sentAt : Option UInt64)
  | persistRemoteMessage (topic : Option TopicId) (peer : PublicKey) (hash : MessageHash)
      (sentAt : UInt64) (text : String) (signed : Option SignedMessage) (messageId : MessageId)
      (replyTo : Option MessageId)
  | persistRemoteThreadMessage (topic : Option TopicId) (peer : PublicKey) (hash : MessageHash)
      (sentAt : UInt64) (text : String) (signed : Option SignedMessage)
      (target : Option ThreadTarget)
  | persistRemoteFileShare (topic : Option TopicId) (peer : PublicKey) (hash : MessageHash)
      (sentAt : UInt64) (name : String) (signed : Option SignedMessage)
  | setPendingFile (name ticket : String) (size : UInt64) (thumbnailHash : Option MessageHash)
      (senderLabel : Option String)
  | setPendingFolder (name ticket : String) (size : UInt64) (collectionHash : Option MessageHash)
      (collectionEntries : UInt64) (senderLabel : Option String)
  | setPendingDirectOffer (offerId : FileOfferId) (name : String) (size : UInt64)
      (owner : PublicKey) (senderLabel : Option String)
  | setPendingDirectOfferReady (offerId : FileOfferId) (ticket : String)
      (thumbnailHash : Option MessageHash) (owner : PublicKey) (senderLabel : Option String)
  | setPendingImage (name : String) (hash : MessageHash) (sender : PublicKey)
  | setPendingGif (gif : Bytes) (sender : PublicKey) (messageHash : MessageHash)
  | onLatencyPing (peer : PublicKey) (sentAtMs : UInt64)
  | recordLatency (peer : PublicKey) (latencyMs : UInt64)
  | onExactReadReceipt (topic : Option TopicId) (reader : PublicKey) (messageHash : MessageHash)
      (messageId : MessageId)
  | onTyping (topic : Option TopicId) (peer : PublicKey) (active : Bool)
  | clearTypingPeer (peer : PublicKey)
  | editMessage (hash : MessageHash) (newText : String)
  | deleteMessage (hash : MessageHash)
  | addReaction (hash : MessageHash) (emoji : String)
  | applyReactionEvent (messageId : MessageHash) (actor : PublicKey) (emoji : String)
      (op : ReactionOp)
  | pinMessage (topic : TopicId) (hash : MessageHash) (author : PublicKey) (sentAt : UInt64)
  | unpinMessage (topic : TopicId) (hash : MessageHash) (author : PublicKey) (sentAt : UInt64)
  | onNeighborStatusChange (peer : PublicKey) (online : Bool)
  | requestQuit

namespace AppState

def new (friends : HashMap PublicKey FriendRecord) (localPublic : PublicKey)
    (localLabel : Option String) : AppState where
  localPublic := localPublic
  entries := []
  followLatest := true
  shouldQuit := false
  pendingFile := none
  pendingImage := []
  pendingGif := []
  friends := friends
  friendsDirty := false
  names := match localLabel with
    | some label => AList.insert localPublic label ∅
    | none => ∅
  lastActivity := ∅
  neighbors := ∅
  typing := ∅
  roomAuthorization := ∅

/-! #### Queries -/

variable (app : AppState)

/-- Whether a peer may perform an action in a room.  Without a topic everything is allowed, in a
room without authorization state nothing is. -/
def roomAllows (topic : Option TopicId) (peer : PublicKey) (permission : Permission) : Bool :=
  match topic with
  | none => true
  | some topic => (app.roomAuthorization.lookup topic).any fun state => state.allows peer permission

def isFriend (peer : PublicKey) : Bool := (app.friends.lookup peer).isSome

variable (C : ChatCodec)

def visible (name : Option String) : Option String :=
  name.filter fun n => !n.toList.all C.isWhitespace

/-- The display name of a peer: label, announced name, session name or the end of the key. -/
def resolveName (app : AppState) (peer : PublicKey) : String :=
  let friend := app.friends.lookup peer
  (visible C (friend.bind FriendRecord.label) <|>
    visible C (friend.bind FriendRecord.lastAnnouncedName) <|>
    visible C (app.names.lookup peer)).getD
      (String.ofList ((C.keyString peer).toList.reverse.take 5).reverse)

/-- The most recent announced raw display name of a peer. -/
def lastAnnouncedName (app : AppState) (peer : PublicKey) : Option String :=
  ((app.friends.lookup peer).bind FriendRecord.lastAnnouncedName).or (app.names.lookup peer)

/-! #### Updates -/

def pushEntry (entry : ChatEntry) : AppState :=
  { app with entries := app.entries ++ [entry], followLatest := true }

def updateEntry (hash : MessageHash) (f : ChatEntry → ChatEntry) : AppState :=
  { app with entries := app.entries.modify (app.entries.findIdx (·.hasHash hash)) f }

/-- Change the record of a friend, which is created if there is none. -/
def updateFriend (peer : PublicKey) (f : FriendRecord → FriendRecord) : AppState :=
  { app with friends := app.friends.upsert peer .empty f }

variable (clock : Clock)

variable (peer : PublicKey)

def friendMarkOnline : AppState :=
  app.updateFriend peer fun r => { r with online := true, lastSeenAt := some clock.unixMs }

def friendMarkOffline : AppState :=
  app.updateFriend peer fun r => { r with online := false, lastOfflineAt := some clock.unixMs }

def recordActivity : AppState :=
  { app with lastActivity := app.lastActivity.insert peer clock.instant }

/-- Apply a signed authorization event to the room's state, and whether that succeeded. -/
def applyRoomAuthorization (app : AppState) (topic : Option TopicId) (event : AuthorizationEvent) :
    AppState × Bool :=
  match topic with
  | none => (app, false)
  | some topic =>
    match app.roomAuthorization.lookup topic with
    | none => (app, false)
    | some state =>
      let r := state.apply C.authorization event
      ({ app with roomAuthorization := app.roomAuthorization.insert topic r.1 }, r.2.isOk)

/-- Record the ticket a peer advertises, unless it is our own or malformed. -/
def recordPeerTicket (app : AppState) (clock : Clock) (peer : PublicKey) (ticket : String) :
    AppState :=
  if peer = app.localPublic then app
  else
    match C.parseTicket ticket with
    | none => app
    | some ticket =>
      { app.updateFriend peer fun r =>
          let r := r.recordAddrs clock ticket.peers
          { r with rooms := r.rooms.insert ticket.topic ticket } with
        friendsDirty := true }

def typingLease : Duration := 4000

def onTyping (topic : Option TopicId) (peer : PublicKey) (active : Bool) : AppState :=
  match topic with
  | none => app
  | some topic =>
    if active then
      { app with typing := app.typing.insert (topic, peer) (clock.instant + typingLease) }
    else { app with typing := app.typing.erase (topic, peer) }

/-- Remove the typing leases of a peer. -/
def clearTypingPeer : AppState :=
  { app with typing := app.typing.retainKeys fun k => k.2 ≠ peer }

def markNeighbor (online : Bool) : AppState :=
  if app.isFriend peer then
    if online then app.friendMarkOnline clock peer
    else { app.friendMarkOffline clock peer with friendsDirty := true }
  else app

/-- A neighbor connects or disconnects. -/
def onNeighborStatusChange (app : AppState) (clock : Clock) (peer : PublicKey) (online : Bool) :
    AppState :=
  let app := app.markNeighbor clock peer online
  let name := app.resolveName C peer
  if online then
    let app := app.pushEntry (.system clock (name ++ " joined the chat"))
    let app := app.recordActivity clock peer
    { app with neighbors := insert peer app.neighbors }
  else
    let app := app.pushEntry (.system clock (name ++ " left the chat"))
    let app := app.recordActivity clock peer
    { app with neighbors := app.neighbors.erase peer }

/-- What the application state does when a callback is invoked. -/
def call (app : AppState) : Callback → AppState
  | .applyRoomAuthorization topic event => (app.applyRoomAuthorization C topic event).1
  | .recordActivity peer => app.recordActivity clock peer
  | .recordPeerTicket peer ticket => app.recordPeerTicket C clock peer ticket
  | .setName peer name => { app with names := app.names.insert peer name }
  | .friendMarkOnline peer => app.friendMarkOnline clock peer
  | .friendSetName peer name =>
    app.updateFriend peer fun r => { r with lastAnnouncedName := some name }
  | .markFriendsDirty => { app with friendsDirty := true }
  | .pushSystem text => app.pushEntry (.system clock text)
  | .pushRemote _ label text hash sentAt =>
    app.pushEntry (.remote clock label text hash sentAt [])
  | .pushRemoteWithIdentity _ label text hash sentAt _ =>
    app.pushEntry (.remote clock label text hash sentAt [])
  | .pushRemoteWithMentions _ label text mentions hash sentAt =>
    app.pushEntry (.remote clock label text hash sentAt mentions)
  | .setPendingFile name ticket _ _ _ => { app with pendingFile := some (name, ticket) }
  | .setPendingFolder name ticket _ _ _ _ => { app with pendingFile := some (name, ticket) }
  | .setPendingImage name hash sender =>
    { app with pendingImage := app.pendingImage ++ [(name, hash, sender)] }
  | .setPendingGif gif sender _ => { app with pendingGif := app.pendingGif ++ [(gif, sender)] }
  | .onTyping topic peer active => app.onTyping clock topic peer active
  | .clearTypingPeer peer => app.clearTypingPeer peer
  | .editMessage hash newText => app.updateEntry hash (·.edit newText)
  | .deleteMessage hash => app.updateEntry hash ChatEntry.delete
  | .addReaction hash emoji => app.updateEntry hash (·.react emoji)
  | .applyReactionEvent messageId _ emoji .add => app.updateEntry messageId (·.react emoji)
  | .applyReactionEvent _ _ _ .remove => app
  | .onNeighborStatusChange peer online => app.onNeighborStatusChange C clock peer online
  | .requestQuit => { app with shouldQuit := true }
  -- left at their defaults, or written to storage outside this state
  | .recordPresence _ | .recordProfileImageTicket _ _ | .clearProfileImage _
  | .onProfileUpdate _ _ | .persistRemoteMessage _ _ _ _ _ _ _ _
  | .persistRemoteThreadMessage _ _ _ _ _ _ _ | .persistRemoteFileShare _ _ _ _ _ _
  | .setPendingDirectOffer _ _ _ _ _ | .setPendingDirectOfferReady _ _ _ _ _
  | .onLatencyPing _ _ | .recordLatency _ _ | .onExactReadReceipt _ _ _ _
  | .pinMessage _ _ _ _ | .unpinMessage _ _ _ _ => app

/-! #### The local key and the log -/

/-- The local key and the log are the same. -/
structure SameLog (app app' : AppState) : Prop where
  localPublic : app'.localPublic = app.localPublic
  entries : app'.entries = app.entries

section SameLog

variable {C : ChatCodec} {clock : Clock}

variable (app : AppState) {topic : Option TopicId}

theorem sameLog_applyRoomAuthorization {ev : AuthorizationEvent} :
    app.SameLog (app.applyRoomAuthorization C topic ev).1 := by
  unfold applyRoomAuthorization
  split
  · exact ⟨rfl, rfl⟩
  · split <;> exact ⟨rfl, rfl⟩

theorem sameLog_recordPeerTicket {peer : PublicKey} {t : String} :
    app.SameLog (app.recordPeerTicket C clock peer t) := by
  unfold recordPeerTicket
  split
  · exact ⟨rfl, rfl⟩
  · split <;> exact ⟨rfl, rfl⟩

theorem sameLog_onTyping {peer : PublicKey} {active : Bool} :
    app.SameLog (app.onTyping clock topic peer active) := by
  unfold onTyping
  split
  · exact ⟨rfl, rfl⟩
  · split <;> exact ⟨rfl, rfl⟩

theorem sameLog_markNeighbor {peer : PublicKey} {o : Bool} :
    app.SameLog (app.markNeighbor clock peer o) := by
  unfold markNeighbor
  split
  · split <;> exact ⟨rfl, rfl⟩
  · exact ⟨rfl, rfl⟩

/-- No callback changes the local key. -/
theorem localPublic_call (cb : Callback) : (app.call C clock cb).localPublic = app.localPublic := by
  cases cb with
  | applyRoomAuthorization topic ev =>
    exact (app.sameLog_applyRoomAuthorization).localPublic
  | recordPeerTicket peer ticket => exact (app.sameLog_recordPeerTicket).localPublic
  | onTyping topic peer active => exact (app.sameLog_onTyping).localPublic
  | onNeighborStatusChange peer o =>
    cases o <;> exact (app.sameLog_markNeighbor).localPublic
  | applyReactionEvent _ _ _ op => cases op <;> rfl
  | _ => rfl

theorem localPublic_foldl_call (c : List Callback) (app : AppState) :
    (c.foldl (call C clock) app).localPublic = app.localPublic := by
  induction c generalizing app with
  | nil => rfl
  | cons cb c ih => rw [List.foldl_cons, ih, localPublic_call]

end SameLog

end AppState

end Boru.ChatCore
