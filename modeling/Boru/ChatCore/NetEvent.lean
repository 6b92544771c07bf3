import Boru.ChatCore.State

/-!
# The handler of network events

`Chat.handle` is the dispatcher that both frontends use.  A message passes a gate for the permission
that its kind requires in the room it arrived in, the deduplication, which remembers it, and the
checks for blocked senders and for the time of sending; then `dispatch` invokes the callbacks of its
kind.

The answers of the hooks that `AppState` leaves at their default (blocked and muted peers, members
of groups, the age at which messages are stale, known tickets) are part of the input, so that they
may differ from event to event; `Hooks.default` are those of `AppState` itself.  So is the signed
envelope that the transport cache holds for a message.  Diagnostic records are left out.

* `runs_dispatch` : what the callbacks of a message can be.
* `Chat.handleContent_of_admits`, `Chat.handleContent_of_not_admits` : a message is dispatched
  exactly when it passes every check.
* `Chat.app_handle` : the application state changes by callbacks only.
-/

namespace Boru.ChatCore

open Gossip (TopicId)

/-! ### Inputs -/

/-- The answers of a frontend to the questions of the handler. -/
structure Hooks where
  /-- Whether the messages of a peer are dropped. -/
  isBlocked : PublicKey → Bool
  /-- Whether system notifications about a peer are suppressed. -/
  isMuted : PublicKey → Bool
  /-- Whether a peer takes part in a topic without being a friend. -/
  acceptsGroupPeer : Option TopicId → PublicKey → Bool
  /-- Seconds after which messages are stale. -/
  messageTtl : UInt64
  /-- Whether a file share with this ticket has been shown. -/
  isKnownFileTicket : String → Bool

/-- The hooks as `AppState` leaves them. -/
def Hooks.default : Hooks where
  isBlocked _ := false
  isMuted _ := false
  acceptsGroupPeer _ _ := false
  messageTtl := 3600
  isKnownFileTicket _ := false

/-- An event and what the handler learns about it. -/
structure Delivery where
  /-- The room in which the event arrived. -/
  topic : Option TopicId
  event : NetEvent
  clock : Clock
  hooks : Hooks
  /-- `get_signed_message`: the envelope of the message, if it is cached. -/
  signed : Option SignedMessage

/-! ### Callbacks -/

/-- The application state, and the callbacks invoked on it so far. -/
structure Frontend where
  app : AppState
  calls : List Callback

variable (C : ChatCodec)

def Frontend.invoke (clock : Clock) (f : Frontend) (cb : Callback) : Frontend :=
  ⟨f.app.call C clock cb, f.calls ++ [cb]⟩

/-- A message with what the handler has computed of it. -/
structure Incoming where
  sender : PublicKey
  message : Message
  /-- Unix seconds when the message was sent. -/
  sentAt : UInt64

section dispatch

variable (C : ChatCodec) (d : Delivery) (m : Incoming)

def Incoming.hash : MessageHash := C.messageHash m.message

variable (f : Frontend)

/-- Whether a peer is a friend or takes part in the topic. -/
def accepts : Bool :=
  f.app.isFriend m.sender || d.hooks.acceptsGroupPeer d.topic m.sender

/-- Whether notifications about the sender are suppressed. -/
def muted : Bool := m.sender ≠ f.app.localPublic && d.hooks.isMuted m.sender

/-- `if is_friend || accepts_group_peer { friend_mark_online }`. -/
def markOnline : Frontend :=
  if accepts d m f then f.invoke C d.clock (.friendMarkOnline m.sender) else f

/-- The callback for the profile image that comes with a name. -/
def imageCallback (peer : PublicKey) : Option String → Callback
  | some ticket => .recordProfileImageTicket peer ticket
  | none => .clearProfileImage peer

variable (name : String)

def recordFriendName : Frontend :=
  if accepts d m f then
    (f.invoke C d.clock (.friendSetName m.sender name)).invoke C d.clock .markFriendsDirty
  else f

def dispatchAboutMe (profileImageTicket : Option String) : Frontend :=
  let oldName := (f.app.lastAnnouncedName m.sender).or (f.app.names.lookup m.sender)
  let f := f.invoke C d.clock (.setName m.sender name)
  let f := f.invoke C d.clock (imageCallback m.sender profileImageTicket)
  if m.sender ≠ f.app.localPublic then
    let f := recordFriendName C d m f name
    if oldName ≠ some name ∧ ¬ muted d m f then
      f.invoke C d.clock (.pushSystem (C.fmtShort m.sender ++ " is now known as " ++ name))
    else f
  else f

variable (text : String)

/-- A text or a reply from a remote peer. -/
def dispatchText : Frontend :=
  let messageId := (d.signed.map SignedMessage.messageId).getD (m.hash C)
  let f := f.invoke C d.clock (.persistRemoteMessage d.topic m.sender (m.hash C) m.sentAt text
    d.signed messageId m.message.replyToMessageId)
  let f := markOnline C d m f
  f.invoke C d.clock (.pushRemoteWithIdentity m.sender (f.app.resolveName C m.sender) text
    (some (m.hash C)) (some m.sentAt) (some messageId))

/-- A text with mentions from a remote peer. -/
def dispatchMentions (mentions : List Mention) : Frontend :=
  let f := f.invoke C d.clock (.persistRemoteMessage d.topic m.sender (m.hash C) m.sentAt text
    d.signed (m.hash C) none)
  let f := markOnline C d m f
  f.invoke C d.clock (.pushRemoteWithMentions m.sender (f.app.resolveName C m.sender) text mentions
    (some (m.hash C)) (some m.sentAt))

/-- A text in a thread from a remote peer. -/
def dispatchThread (target : ThreadTarget) : Frontend :=
  let f := f.invoke C d.clock (.persistRemoteThreadMessage d.topic m.sender (m.hash C) m.sentAt
    text d.signed (some target))
  f.invoke C d.clock (.pushRemote m.sender (f.app.resolveName C m.sender) text (some (m.hash C))
    (some m.sentAt))

/-- Show a file that a remote peer shares, with a notice unless its ticket is known. -/
def showFile (ticket : String) (size : UInt64) (thumbnailHash : Option MessageHash)
    (senderName : String) : Frontend :=
  let f := if d.hooks.isKnownFileTicket ticket then f
    else f.invoke C d.clock (.pushSystem (senderName ++ " shared a file"))
  f.invoke C d.clock (.setPendingFile name ticket size thumbnailHash (some senderName))

/-- A file or a directory that a remote peer shares. -/
def dispatchFileShare (ticket : String) (size : UInt64)
    (thumbnailHash collectionHash : Option MessageHash) (collectionEntries : UInt64) : Frontend :=
  let f := f.invoke C d.clock (.persistRemoteFileShare d.topic m.sender (m.hash C) m.sentAt name
    d.signed)
  if accepts d m f then
    let f := f.invoke C d.clock (.friendMarkOnline m.sender)
    if muted d m f then f
    else
      let senderName := f.app.resolveName C m.sender
      if collectionHash.isSome then
        let f := f.invoke C d.clock (.pushSystem (senderName ++ " shared a folder"))
        f.invoke C d.clock (.setPendingFolder name ticket size collectionHash collectionEntries
          (some senderName))
      else showFile C d f name ticket size thumbnailHash senderName
  else f

/-- Persist an offer whose envelope is cached. -/
def persistOffer : Frontend :=
  match d.signed with
  | some signed => f.invoke C d.clock
      (.persistRemoteFileShare d.topic m.sender (m.hash C) m.sentAt name (some signed))
  | none => f

/-- A file that a remote peer offers. -/
def dispatchFileOffer (offerId : FileOfferId) (name : String) (size : UInt64) : Frontend :=
  let f := f.invoke C d.clock (.friendMarkOnline m.sender)
  let label := f.app.resolveName C m.sender
  let f := persistOffer C d m f name
  f.invoke C d.clock (.setPendingDirectOffer offerId name size m.sender (some label))

/-- An offer whose file has become available. -/
def dispatchFileOfferReady (offerId : FileOfferId) (ticket : String)
    (thumbnailHash : Option MessageHash) : Frontend :=
  let f := persistOffer C d m f ""
  let f := f.invoke C d.clock (.friendMarkOnline m.sender)
  f.invoke C d.clock (.setPendingDirectOfferReady offerId ticket thumbnailHash m.sender
    (some (f.app.resolveName C m.sender)))

/-- An image or a catalogue entry: the peer is marked online, and unless it is muted the callback is
invoked. -/
def dispatchShare (cb : Callback) : Frontend :=
  if accepts d m f then
    let f := f.invoke C d.clock (.friendMarkOnline m.sender)
    if muted d m f then f else f.invoke C d.clock cb
  else f

/-- A pin or the removal of one: the sender is the local user, a friend, or takes part in the topic
that the message names. -/
def dispatchPin (pinTopic : TopicId) (cb : Callback) : Frontend :=
  if m.sender = f.app.localPublic || f.app.isFriend m.sender ||
      d.hooks.acceptsGroupPeer (some pinTopic) m.sender then
    f.invoke C d.clock cb
  else f

/-- Invoke the callbacks of a message that has passed every check. -/
def dispatch : Frontend :=
  let remote := m.sender ≠ f.app.localPublic
  match m.message with
  | .aboutMe name ticket => dispatchAboutMe C d m f name ticket
  | .profileUpdate profile =>
    if remote then f.invoke C d.clock (.onProfileUpdate m.sender profile) else f
  | .message text | .reply text _ => if remote then dispatchText C d m f text else f
  | .messageWithMentions text mentions =>
    if remote then dispatchMentions C d m f text mentions else f
  | .threadMessage text target => if remote then dispatchThread C d m f text target else f
  | .fileShare name ticket size thumbnailHash collectionHash collectionEntries =>
    if remote then
      dispatchFileShare C d m f name ticket size thumbnailHash collectionHash collectionEntries
    else f
  | .fileOffer offerId name size =>
    if remote ∧ accepts d m f then dispatchFileOffer C d m f offerId name size else f
  | .fileOfferReady offerId ticket thumbnailHash =>
    if remote ∧ accepts d m f then dispatchFileOfferReady C d m f offerId ticket thumbnailHash
    else f
  | .imageShare name hash =>
    if remote then dispatchShare C d m f (.setPendingImage name hash m.sender) else f
  | .sharedGif gif =>
    if remote then dispatchShare C d m f (.setPendingGif gif m.sender (m.hash C)) else f
  | .presence => f.invoke C d.clock (.recordPresence m.sender)
  | .presenceWithTicket ticket =>
    (f.invoke C d.clock (.recordPresence m.sender)).invoke C d.clock
      (.recordPeerTicket m.sender ticket)
  | .heartbeat => f.invoke C d.clock (.recordActivity m.sender)
  | .latencyPing sentAtMs =>
    (f.invoke C d.clock (.recordActivity m.sender)).invoke C d.clock
      (.onLatencyPing m.sender sentAtMs)
  | .latencyPong sentAtMs =>
    let f := f.invoke C d.clock (.recordActivity m.sender)
    if sentAtMs ≤ d.clock.unixMs then
      f.invoke C d.clock (.recordLatency m.sender (d.clock.unixMs - sentAtMs))
    else f
  | .readReceiptExact messageHash messageId =>
    if remote then
      f.invoke C d.clock (.onExactReadReceipt d.topic m.sender messageHash messageId)
    else f
  | .typing active => if remote then f.invoke C d.clock (.onTyping d.topic m.sender active) else f
  | .edit originalHash newText =>
    if remote then f.invoke C d.clock (.editMessage originalHash newText) else f
  | .delete messageHash => if remote then f.invoke C d.clock (.deleteMessage messageHash) else f
  | .reaction messageHash emoji =>
    if remote then f.invoke C d.clock (.addReaction messageHash emoji) else f
  | .reactionAdd messageId emoji =>
    if remote then f.invoke C d.clock (.applyReactionEvent messageId m.sender emoji .add) else f
  | .reactionRemove messageId emoji =>
    if remote then f.invoke C d.clock (.applyReactionEvent messageId m.sender emoji .remove) else f
  | .pinMessage pinTopic messageHash =>
    dispatchPin C d m f pinTopic (.pinMessage pinTopic messageHash m.sender m.sentAt)
  | .unpinMessage pinTopic messageHash =>
    dispatchPin C d m f pinTopic (.unpinMessage pinTopic messageHash m.sender m.sentAt)
  -- handled before deduplication, by the frontend, by another layer, or recorded as a diagnostic
  | .roomAuthorization _ | .leave | .diagnosticProbe _ | .readReceipt _ | .contactControl _
  | .roomAdvertisement _ _ | .roomWithdrawal _ _ | .encryptedGroupMessage _ _ => f

end dispatch

/-! ### The handler -/

/-- The key under which a message is remembered: sender, hash of the contents, seconds of
sending. -/
abbrev DedupKey := PublicKey × MessageHash × UInt64

def Incoming.key (m : Incoming) : DedupKey := (m.sender, m.hash C, m.sentAt)

/-- The application state and the messages seen by the process. -/
structure Chat where
  app : AppState
  /-- `SEEN_MESSAGES`: when a message was last seen. -/
  seen : HashMap DedupKey Instant

inductive Drop where
  | malformedAuthorization
  | rejectedAuthorization
  | unauthorized
  | duplicate
  | blocked
  | stale
  | futureDated
  deriving DecidableEq

/-- What handling an event results in. -/
structure Handled where
  chat : Chat
  calls : List Callback
  /-- Why the message was dropped, if it was. -/
  dropped : Option Drop

def maxFutureSkewSecs : UInt64 := 300

def dedupTtl : Duration := 7200 * 1000

def dedupSweepThreshold : ℕ := 10000

namespace Chat

/-- Forget the messages that were seen too long ago. -/
def pruneSeenMessages (seen : HashMap DedupKey Instant) (now : Instant) :
    HashMap DedupKey Instant :=
  seen.retain fun firstSeen => if now - firstSeen < dedupTtl then some firstSeen else none

/-- Remember a message, and sweep when too many are remembered. -/
def remember (seen : HashMap DedupKey Instant) (key : DedupKey) (now : Instant) :
    HashMap DedupKey Instant :=
  let seen := seen.insert key now
  if dedupSweepThreshold ≤ seen.entries.length then pruneSeenMessages seen now else seen

variable (C : ChatCodec)

variable (s : Chat)

variable (d : Delivery)

/-- Handle an authorization event: it is applied before any other effect. -/
def handleAuthorization (event : Bytes) : Handled :=
  match C.decodeAuthorization event with
  | none => ⟨s, [], some .malformedAuthorization⟩
  | some event =>
    let r := s.app.applyRoomAuthorization C d.topic event
    ⟨{ s with app := r.1 }, [.applyRoomAuthorization d.topic event],
      if r.2 then none else some .rejectedAuthorization⟩

variable (m : Incoming)

/-- Whether the sender may not send a message of this kind in the room of arrival. -/
def unauthorized : Bool :=
  (requiredRoomPermission m.message).any fun permission =>
    !s.app.roomAllows d.topic m.sender permission

/-- Whether a message is too old. -/
def isStale : Bool :=
  d.hooks.messageTtl < saturatingSub d.clock.unixSecs m.sentAt

/-- Whether a message is dated too far in the future. -/
def isFutureDated : Bool :=
  maxFutureSkewSecs < saturatingSub m.sentAt d.clock.unixSecs

/-- Handle a message that is not an authorization event.  It is remembered as seen before the checks
of its sender and its time. -/
def handleContent : Handled :=
  if s.unauthorized d m then ⟨s, [], some .unauthorized⟩
  else if m.key C ∈ s.seen then
    ⟨{ s with seen := s.seen.insert (m.key C) d.clock.instant }, [], some .duplicate⟩
  else
    let seen := remember s.seen (m.key C) d.clock.instant
    let f := Frontend.invoke C d.clock ⟨s.app, []⟩ (.recordActivity m.sender)
    if d.hooks.isBlocked m.sender then ⟨⟨f.app, seen⟩, f.calls, some .blocked⟩
    else if m.sender ≠ s.app.localPublic ∧ isStale d m then
      ⟨⟨f.app, seen⟩, f.calls, some .stale⟩
    else if m.sender ≠ s.app.localPublic ∧ isFutureDated d m then
      ⟨⟨f.app, seen⟩, f.calls, some .futureDated⟩
    else
      let f := dispatch C d m f
      ⟨⟨f.app, seen⟩, f.calls, none⟩

def handleMessage : Handled :=
  match m.message with
  | .roomAuthorization event => s.handleAuthorization C d event
  | _ => s.handleContent C d m

def invokeAll (clock : Clock) (calls : List Callback) : Handled :=
  ⟨{ s with app := calls.foldl (AppState.call C clock) s.app }, calls, none⟩

/-- Process a decoded event with explicit room context. -/
def handle : Handled :=
  match d.event with
  | .message sender message sentAt _ => s.handleMessage C d ⟨sender, message, sentAt⟩
  | .neighborUp peer => s.invokeAll C d.clock [.onNeighborStatusChange peer true]
  | .neighborDown peer =>
    s.invokeAll C d.clock [.clearTypingPeer peer, .onNeighborStatusChange peer false]
  | .closed => s.invokeAll C d.clock [.pushSystem "The gossip receiver closed.", .requestQuit]
  | .error message =>
    s.invokeAll C d.clock [.pushSystem ("Network error: " ++ message), .requestQuit]

end Chat

/-! ### The callbacks of a message -/

/-- What a callback says about the message that causes it: edits and deletions are those that the
message asks for, and a remote entry is that of the message. -/
def Callback.CausedBy (m : Incoming) : Callback → Prop
  | .editMessage hash newText => m.message = .edit hash newText
  | .deleteMessage hash => m.message = .delete hash
  | .pushRemote peer _ _ hash _ | .pushRemoteWithIdentity peer _ _ hash _ _
  | .pushRemoteWithMentions peer _ _ _ hash _ => peer = m.sender ∧ hash = some (m.hash C)
  | _ => True

/-- The state of the frontend is the result of the callbacks invoked on it, and these are caused by
the message. -/
structure Frontend.Runs (C : ChatCodec) (clock : Clock) (m : Incoming) (app : AppState)
    (f : Frontend) : Prop where
  app_eq : f.app = f.calls.foldl (AppState.call C clock) app
  caused : ∀ cb ∈ f.calls, cb.CausedBy C m

section runs

variable {C : ChatCodec} {d : Delivery} {m : Incoming} {app : AppState} {f : Frontend}

theorem Frontend.runs_start (clock : Clock) :
    Frontend.Runs C clock m app ⟨app, []⟩ := ⟨rfl, by simp⟩

theorem Frontend.Runs.invoke (h : f.Runs C d.clock m app) (cb : Callback) (hcb : cb.CausedBy C m) :
    (f.invoke C d.clock cb).Runs C d.clock m app where
  app_eq := by simp [Frontend.invoke, ← h.app_eq]
  caused cb' h' := by
    obtain h' | h' := List.mem_append.1 h'
    · exact h.caused cb' h'
    · exact List.mem_singleton.1 h' ▸ hcb

theorem runs_ite {p : Prop} [Decidable p] {f f' : Frontend} (h : f.Runs C d.clock m app)
    (h' : f'.Runs C d.clock m app) : (if p then f else f').Runs C d.clock m app := by
  split
  · exact h
  · exact h'

variable (h : f.Runs C d.clock m app)

include h

theorem runs_markOnline :
    (markOnline C d m f).Runs C d.clock m app := runs_ite (h.invoke _ (by trivial)) h

theorem runs_dispatchAboutMe (name : String) (t : Option String) :
    (dispatchAboutMe C d m f name t).Runs C d.clock m app := by
  have hn := h.invoke (.setName m.sender name) trivial
  have hi := hn.invoke (imageCallback m.sender t) (by cases t <;> trivial)
  have hf : (recordFriendName C d m _ name).Runs C d.clock m app :=
    runs_ite ((hi.invoke _ (by trivial)).invoke _ (by trivial)) hi
  exact runs_ite (runs_ite (hf.invoke _ (by trivial)) hf) hi

theorem runs_dispatchFileShare (name t : String) (size : UInt64)
    (th ch : Option MessageHash) (ce : UInt64) :
    (dispatchFileShare C d m f name t size th ch ce).Runs C d.clock m app := by
  have hp := h.invoke (.persistRemoteFileShare d.topic m.sender (m.hash C) m.sentAt name
    d.signed) trivial
  have ho := hp.invoke (.friendMarkOnline m.sender) trivial
  exact runs_ite (runs_ite ho (runs_ite ((ho.invoke _ (by trivial)).invoke _ (by trivial))
    ((runs_ite ho (ho.invoke _ (by trivial))).invoke _ (by trivial)))) hp

theorem runs_persistOffer (name : String) : (persistOffer C d m f name).Runs C d.clock m app := by
  unfold persistOffer
  split
  · exact h.invoke _ (by trivial)
  · exact h

theorem runs_dispatchShare {cb : Callback} (hcb : cb.CausedBy C m) :
    (dispatchShare C d m f cb).Runs C d.clock m app := by
  have ho := h.invoke (.friendMarkOnline m.sender) trivial
  exact runs_ite (runs_ite ho (ho.invoke _ hcb)) h

/-- The callbacks of a message are caused by it, and change the state one after the other. -/
theorem runs_dispatch : (dispatch C d m f).Runs C d.clock m app := by
  obtain ⟨sender, message, sentAt⟩ := m
  cases message with
  | aboutMe name t => exact runs_dispatchAboutMe h name t
  | message | reply | messageWithMentions =>
    exact runs_ite ((runs_markOnline (h.invoke _ (by trivial))).invoke _ ⟨rfl, rfl⟩) h
  | threadMessage text target => exact runs_ite ((h.invoke _ (by trivial)).invoke _ ⟨rfl, rfl⟩) h
  | fileShare => exact runs_ite (runs_dispatchFileShare h ..) h
  | fileOffer offerId name size =>
    exact runs_ite ((runs_persistOffer (h.invoke _ (by trivial)) name).invoke _ (by trivial)) h
  | fileOfferReady =>
    exact runs_ite (((runs_persistOffer h "").invoke _ (by trivial)).invoke _ (by trivial)) h
  | imageShare | sharedGif => exact runs_ite (runs_dispatchShare h trivial) h
  | pinMessage tp hash | unpinMessage tp hash =>
    exact runs_ite (h.invoke _ (by trivial)) h
  | presence | heartbeat => exact h.invoke _ (by trivial)
  | presenceWithTicket | latencyPing => exact (h.invoke _ (by trivial)).invoke _ (by trivial)
  | latencyPong =>
    have ha := h.invoke (.recordActivity sender) trivial
    exact runs_ite (ha.invoke _ (by trivial)) ha
  | edit | delete => exact runs_ite (h.invoke _ rfl) h
  | profileUpdate | readReceiptExact | typing | reaction | reactionAdd | reactionRemove =>
    exact runs_ite (h.invoke _ (by trivial)) h
  | roomAuthorization | leave | diagnosticProbe | readReceipt | contactControl
  | roomAdvertisement | roomWithdrawal | encryptedGroupMessage => exact h

end runs

/-! ### What the handler does with a message -/

/-- The sender is not blocked, and a message of a remote peer is neither stale nor future-dated. -/
def Acceptable (localPublic : PublicKey) (d : Delivery) (m : Incoming) : Prop :=
  d.hooks.isBlocked m.sender = false ∧
    (m.sender ≠ localPublic → Chat.isStale d m = false ∧ Chat.isFutureDated d m = false)

namespace Chat

variable {C : ChatCodec} {s : Chat} {d : Delivery} {m : Incoming}

/-- The message passes every check. -/
def Admits (C : ChatCodec) (s : Chat) (d : Delivery) (m : Incoming) : Prop :=
  s.unauthorized d m = false ∧ m.key C ∉ s.seen ∧ Acceptable s.app.localPublic d m

/-- A message that passes every check is dispatched. -/
theorem handleContent_of_admits (h : s.Admits C d m) :
    s.handleContent C d m =
      ⟨⟨(dispatch C d m (Frontend.invoke C d.clock ⟨s.app, []⟩ (.recordActivity m.sender))).app,
        remember s.seen (m.key C) d.clock.instant⟩,
        (dispatch C d m (Frontend.invoke C d.clock ⟨s.app, []⟩ (.recordActivity m.sender))).calls,
        none⟩ := by
  obtain ⟨ha, hse, hb, ht⟩ := h
  have hs : ¬ (m.sender ≠ s.app.localPublic ∧ isStale d m = true) := fun h => by
    simp [(ht h.1).1] at h
  have hf : ¬ (m.sender ≠ s.app.localPublic ∧ isFutureDated d m = true) := fun h => by
    simp [(ht h.1).2] at h
  simp [handleContent, ha, hse, hb, hs, hf]

/-- A message that fails a check leads to no callback other than the record of activity. -/
theorem handleContent_of_not_admits (h : ¬ s.Admits C d m) :
    (s.handleContent C d m).dropped ≠ none ∧
      ∃ c, (c = [] ∨ c = [.recordActivity m.sender]) ∧
        (s.handleContent C d m).calls = c ∧
        (s.handleContent C d m).chat.app = c.foldl (AppState.call C d.clock) s.app := by
  unfold handleContent
  split_ifs with ha hse hb hs hf
  · exact ⟨by simp, [], .inl rfl, rfl, rfl⟩
  · exact ⟨by simp, [], .inl rfl, rfl, rfl⟩
  · exact ⟨by simp, _, .inr rfl, rfl, rfl⟩
  · exact ⟨by simp, _, .inr rfl, rfl, rfl⟩
  · exact ⟨by simp, _, .inr rfl, rfl, rfl⟩
  · refine absurd ⟨by simpa using ha, hse, by simpa using hb, fun hr => ?_⟩ h
    exact ⟨by simpa [hr] using hs, by simpa [hr] using hf⟩

/-- A message is dropped exactly when it fails a check. -/
theorem dropped_handleContent_eq_none :
    (s.handleContent C d m).dropped = none ↔ s.Admits C d m := by
  constructor
  · intro hn
    by_contra h
    exact (handleContent_of_not_admits h).1 hn
  · intro h
    rw [handleContent_of_admits h]

theorem handleMessage_eq_handleContent (h : ∀ ev, m.message ≠ .roomAuthorization ev) :
    s.handleMessage C d m = s.handleContent C d m := by
  unfold handleMessage
  split
  · next ev hevent => exact absurd hevent (h ev)
  · rfl

/-- The callbacks of content are caused by it and account for the state afterwards. -/
theorem runs_handleContent :
    Frontend.Runs C d.clock m s.app
      ⟨(s.handleContent C d m).chat.app, (s.handleContent C d m).calls⟩ := by
  by_cases h : s.Admits C d m
  · rw [handleContent_of_admits h]
    exact runs_dispatch ((Frontend.runs_start d.clock).invoke _ (by trivial))
  · obtain ⟨-, calls, hc, heq, ha⟩ := handleContent_of_not_admits h
    rw [heq, ha]
    refine ⟨rfl, fun cb hcb => ?_⟩
    obtain rfl | rfl := hc
    · cases hcb
    · obtain rfl := List.mem_singleton.1 hcb
      trivial

/-- The application state changes by callbacks only. -/
theorem app_handle (s : Chat) (d : Delivery) :
    (s.handle C d).chat.app = (s.handle C d).calls.foldl (AppState.call C d.clock) s.app := by
  unfold handle
  split
  · next sender message sentAt _ _ =>
    unfold handleMessage
    split
    · unfold handleAuthorization
      split <;> rfl
    · exact runs_handleContent.app_eq
  all_goals rfl

/-- No event changes the local key. -/
theorem localPublic_handle (s : Chat) (d : Delivery) :
    (s.handle C d).chat.app.localPublic = s.app.localPublic := by
  rw [s.app_handle d, AppState.localPublic_foldl_call]

end Chat

end Boru.ChatCore
