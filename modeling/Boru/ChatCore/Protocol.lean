import Boru.Authorization.State

/-!
# Chat messages

The messages of a chat room as they reach the application: the sender has been authenticated and the
time of sending decoded from the signed envelope.  Payloads that no part of the model looks into
(profiles, advertisements, probes, catalogue entries) are kept as their encodings.

A message is referred to by the hash of its contents, which does not cover its author.  The hash,
the decoding of embedded payloads and the texts of keys are a parameter, `ChatCodec`.
-/

namespace Boru.ChatCore

open Authorization (AuthorizationCrypto AuthorizationEvent Permission)
open GroupEncryption (Block)
open Gossip (TopicId)

/-- Content hash used by richer interaction messages to refer to a chat message. -/
abbrev MessageHash := Block 32

/-- Stable address of a signed chat message. -/
abbrev MessageId := Block 32

/-- Opaque identifier for a direct file offer. -/
abbrev FileOfferId := Block 32

/-- A mention of a peer in a message. -/
structure Mention where
  peerId : PublicKey
  /-- Display label captured when the message was composed. -/
  label : String
  /-- Start of the byte range in the message body. -/
  start : UInt32
  /-- Exclusive end of the range. -/
  stop : UInt32

/-- Metadata used when a message is sent as a thread reply. -/
structure ThreadTarget where
  threadRootId : MessageId
  /-- An optional reply being directly addressed by this message. -/
  replyToMessageId : Option MessageId

/-- A ticket that peers use to join a topic. -/
structure Ticket where
  topic : TopicId
  peers : List Bytes
  /-- Optional capability for private-room lookup. -/
  discoverySecret : Option Bytes

/-- Messages that can be sent between peers in the chat. -/
inductive Message where
  /-- Announce or change your display name. -/
  | aboutMe (name : String) (profileImageTicket : Option String)
  | message (text : String)
  /-- Announce a file or a directory available for download. -/
  | fileShare (name ticket : String) (size : UInt64)
      (thumbnailHash collectionHash : Option MessageHash) (collectionEntries : UInt64)
  | leave
  | presence
  /-- Presence heartbeat plus a ticket for opening a chat with this peer. -/
  | presenceWithTicket (ticket : String)
  /-- Acknowledge that the sender read a message. -/
  | readReceipt (messageHash : MessageHash)
  /-- Replace the text of a previously sent message. -/
  | edit (originalHash : MessageHash) (newText : String)
  /-- Mark a previously sent message as deleted. -/
  | delete (messageHash : MessageHash)
  /-- Add an emoji reaction to a previously sent message. -/
  | reaction (messageHash : MessageHash) (emoji : String)
  /-- Announce an image available for download and inline display. -/
  | imageShare (name : String) (hash : MessageHash)
  /-- Broadcast a public room advertisement into the directory topic. -/
  | roomAdvertisement (ad signature : Bytes)
  | heartbeat
  | latencyPing (sentAtMs : UInt64)
  | latencyPong (sentAtMs : UInt64)
  /-- A diagnostic probe sent through the normal gossip path. -/
  | diagnosticProbe (probe : Bytes)
  /-- Opaque contact-layer control message. -/
  | contactControl (payload : Bytes)
  /-- Publish the sender's profile and metadata over gossip. -/
  | profileUpdate (profile : Bytes)
  | encryptedGroupMessage (groupId : Block 32) (envelope : Bytes)
  /-- Announce an external catalogue GIF. -/
  | sharedGif (gif : Bytes)
  /-- A text message that points at an earlier message. -/
  | reply (text : String) (replyToMessageId : MessageId)
  | typing (active : Bool)
  /-- Signed room authorization state transition. -/
  | roomAuthorization (event : Bytes)
  /-- A regular text message addressed to a thread root. -/
  | threadMessage (text : String) (target : ThreadTarget)
  /-- Authenticated reaction add keyed by stable message id and actor. -/
  | reactionAdd (messageId : MessageHash) (emoji : String)
  | reactionRemove (messageId : MessageHash) (emoji : String)
  /-- Pin a message in the conversation it names. -/
  | pinMessage (topic : TopicId) (messageHash : MessageHash)
  /-- Remove a message pin in the conversation it names. -/
  | unpinMessage (topic : TopicId) (messageHash : MessageHash)
  /-- Broadcast a room withdrawal into the directory topic. -/
  | roomWithdrawal (topic : TopicId) (signature : Bytes)
  /-- Announce a file that is available for direct download from the sender. -/
  | fileOffer (offerId : FileOfferId) (name : String) (size : UInt64)
  /-- Upgrade a previously announced file offer. -/
  | fileOfferReady (offerId : FileOfferId) (ticket : String) (thumbnailHash : Option MessageHash)
  /-- A text message carrying stable mention metadata. -/
  | messageWithMentions (text : String) (mentions : List Mention)
  /-- Exact read acknowledgement for a signed-message occurrence. -/
  | readReceiptExact (messageHash : MessageHash) (messageId : MessageId)

/-- The referenced parent, if this message is a reply. -/
def Message.replyToMessageId : Message → Option MessageId
  | .reply _ replyTo => some replyTo
  | _ => none

/-- A signed envelope that has been verified and decoded. -/
structure SignedMessage where
  sender : PublicKey
  message : Message
  /-- Unix seconds when the message was sent. -/
  sentAt : UInt64
  /-- The stable address of the envelope. -/
  messageId : MessageId

/-- Events that the gossip layer hands to the application. -/
inductive NetEvent where
  /-- A decoded message from a peer (`from`). -/
  | message (sender : PublicKey) (message : Message) (sentAt : UInt64) (backfilled : Bool)
  /-- A peer has joined the gossip mesh. -/
  | neighborUp (peer : PublicKey)
  /-- A peer has left the gossip mesh. -/
  | neighborDown (peer : PublicKey)
  /-- The gossip receiver stream closed. -/
  | closed
  | error (message : String)

/-- The event of a signed message that arrives live. -/
def SignedMessage.toEvent (signed : SignedMessage) : NetEvent :=
  .message signed.sender signed.message signed.sentAt false

/-- What chat messages depend on: hashes, encodings and texts. -/
structure ChatCodec where
  /-- `message_hash`: the hash of the encoded message, without its author. -/
  messageHash : Message → MessageHash
  decodeAuthorization : Bytes → Option AuthorizationEvent
  parseTicket : String → Option Ticket
  keyString : PublicKey → String
  fmtShort : PublicKey → String
  isWhitespace : Char → Bool
  authorization : AuthorizationCrypto

/-- A codec for concrete runs: the hash tells the kinds of messages apart, and texts by their
lengths. -/
def ChatCodec.sample : ChatCodec where
  messageHash
    | .message text => Block.replicate 32 text.length.toUInt8
    | .edit _ _ => Block.replicate 32 201
    | .delete _ => Block.replicate 32 202
    | .pinMessage _ _ => Block.replicate 32 203
    | .unpinMessage _ _ => Block.replicate 32 204
    | _ => Block.replicate 32 205
  decodeAuthorization _ := none
  parseTicket _ := none
  keyString _ := ""
  fmtShort _ := ""
  isWhitespace c := c.isWhitespace
  authorization :=
    { canonicalSignedBytes := fun _ _ _ => .ok []
      hash := fun _ => Block.replicate 32 0
      verify := fun _ _ _ => false }

/-- The room capability required before applying a message's effects. -/
def requiredRoomPermission : Message → Option Permission
  | .message _ | .reply _ _ | .threadMessage _ _ | .messageWithMentions _ _
  | .fileShare _ _ _ _ _ _ | .fileOffer _ _ _ | .fileOfferReady _ _ _ | .imageShare _ _
  | .edit _ _ | .delete _ | .reaction _ _ | .reactionAdd _ _ | .reactionRemove _ _
  | .profileUpdate _ | .encryptedGroupMessage _ _ | .sharedGif _ => some .sendMessages
  | .pinMessage _ _ | .unpinMessage _ _ => some .pinMessages
  | .contactControl _ => some .invite
  | .roomAdvertisement _ _ | .roomWithdrawal _ _ => some .manageRoom
  | .aboutMe _ _ | .typing _ | .roomAuthorization _ | .leave | .presence
  | .presenceWithTicket _ | .readReceipt _ | .readReceiptExact _ _ | .heartbeat
  | .latencyPing _ | .latencyPong _ | .diagnosticProbe _ => none

end Boru.ChatCore
