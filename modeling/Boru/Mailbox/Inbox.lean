import Boru.Mailbox.Sync

/-!
# The inbox protocol

A peer sends signed messages to the inbox of another: envelopes, acknowledgements, requests to
synchronise, and tombstones by which the author of a message has it deleted.  The handler forwards
what it accepts to the application through a bounded channel.

Envelopes and tombstones share one map of seen identifiers, by the hash of the envelope and by the
identifier of the deleted message.  An envelope that is in the map is forwarded again; a tombstone
that is in the map is rejected, whoever signed it and whatever put the identifier there.

* `Inbox.tombstone_emitted_iff` : a valid tombstone is emitted exactly if its identifier is not in
  the map and the channel takes it; and what is in the map was put there by an emitted envelope or
  tombstone.
-/

namespace Boru

open GroupEncryption (Block Failure)

open Prog

/-! ### Messages -/

/-- Proof that the original message author authorized deletion. -/
structure AuthorDeleteProof where
  msgId : Block 32
  /-- The conversation this message belongs to. -/
  conversationId : Block 32
  createdAtUnixSecs : UInt64
  author : PublicKey
  authorSignature : Block 64
  deriving DecidableEq

/-- The inner payload of an inbox protocol message. -/
inductive InboxPayload where
  /-- An encrypted mailbox envelope for the recipient. -/
  | deliver (envelope : MailboxEnvelope)
  /-- Acknowledgement that an envelope was received and accepted. -/
  | ack (ack : MailboxAck)
  /-- Request missed envelopes since a timestamp. -/
  | syncRequest (sinceMs : UInt64)
  /-- Response containing a page of missed envelopes. -/
  | syncResponse (page : SyncResponsePage)
  /-- Signed deletion tombstone for a previously delivered message. -/
  | deleteTombstone (proof : AuthorDeleteProof)
  deriving DecidableEq

/-- A signed, timestamped envelope for inbox protocol messages. -/
structure SignedInboxMessage where
  sender : PublicKey
  sentAtUnixSecs : UInt64
  inner : InboxPayload
  signature : Block 64

/-- Events emitted by the inbox protocol to the application. -/
inductive InboxEvent where
  /-- A mailbox envelope was received from a peer and accepted. -/
  | envelopeReceived (sender : PublicKey) (envelope : MailboxEnvelope)
  /-- An acknowledgement was received for a previously sent envelope. -/
  | ackReceived (sender : PublicKey) (ack : MailboxAck)
  | syncRequested (sender : PublicKey) (sinceMs : UInt64)
  | deleteTombstoneReceived (sender : PublicKey) (proof : AuthorDeleteProof)
  deriving DecidableEq

/-- The cryptography, the encodings and the texts of keys that the inbox depends on. -/
structure InboxCrypto extends MailboxCrypto where
  decode : Bytes → Except String SignedInboxMessage
  /-- Whether the signature over the canonical or the legacy bytes of a message is the sender's. -/
  messageSigned : SignedInboxMessage → Bool
  /-- Whether the signature of a proof, over the canonical or the legacy bytes, is its author's. -/
  proofSigned : AuthorDeleteProof → Bool
  /-- The text of the error if an envelope cannot be encoded. -/
  encodeError : MailboxEnvelope → String
  display : PublicKey → String
  fmtShort : PublicKey → String

def maxInboxClockSkew : UInt64 := 24 * 60 * 60

/-- Verify that the proof was signed by the claimed author. -/
def AuthorDeleteProof.verify (C : InboxCrypto) (proof : AuthorDeleteProof) : Except String Unit :=
  if C.proofSigned proof then .ok () else .error "invalid author delete proof signature"

/-- Verify the signature and check the timestamp is within the replay window. -/
def SignedInboxMessage.verify (C : InboxCrypto) (bytes : Bytes) (expectedSender : Option PublicKey)
    (now : UInt64) : Except Failure (PublicKey × InboxPayload × UInt64) :=
  match C.decode bytes with
  | .error e => .error ⟨"decode signed inbox message: " ++ e⟩
  | .ok msg =>
    if expectedSender.any (· ≠ msg.sender) then
      .error ⟨"inbox message sender mismatch: expected " ++
        (expectedSender.map C.display).getD "" ++ ", got " ++ C.display msg.sender⟩
    else if maxInboxClockSkew.toNat < absDiff msg.sentAtUnixSecs now then
      .error ⟨"inbox message timestamp " ++ toString msg.sentAtUnixSecs ++
        " is outside replay window (now=" ++ toString now ++ ")"⟩
    else if ¬ C.messageSigned msg then .error ⟨"verify inbox message signature"⟩
    else .ok (msg.sender, msg.inner, msg.sentAtUnixSecs)

/-! ### The state of the inbox -/

/-- The bounded channel to the application. -/
structure InboxChannel where
  capacity : ℕ
  /-- The events that the application has not taken yet. -/
  queued : List InboxEvent
  closed : Bool

/-- Whether the channel takes an event. -/
def InboxChannel.hasRoom (tx : InboxChannel) : Prop :=
  tx.closed = false ∧ tx.queued.length < tx.capacity

instance InboxChannel.decidableHasRoom (tx : InboxChannel) : Decidable tx.hasRoom :=
  inferInstanceAs (Decidable (_ ∧ _))

/-- Inbox protocol state shared across connections. -/
structure InboxInner where
  /-- Senders whose messages are currently accepted. -/
  allowedSenders : Finset PublicKey
  /-- Live authorization lookup, which takes precedence. -/
  authorizationFn : Option (PublicKey → Bool)
  /-- Message ids seen within the replay window. -/
  seenMessageIds : HashMap (Block 32) UInt64
  /-- Channel to forward received messages to the application. -/
  envelopeTx : InboxChannel
  /-- Provider of pending envelopes for a requester and a timestamp. -/
  pendingFn : Option (PublicKey → UInt64 → List MailboxEnvelope × Bool)

/-- The readings of the clock while one message is handled. -/
structure InboxClock where
  /-- At the check of the message, in seconds. -/
  received : UInt64
  /-- At the check of a tombstone, in seconds. -/
  checked : UInt64
  /-- When seen identifiers are pruned, in seconds. -/
  pruned : UInt64
  /-- When an identifier is recorded, in seconds. -/
  recorded : UInt64
  /-- At the check of a request to synchronise, in milliseconds. -/
  requested : UInt64

namespace Inbox

variable (C : InboxCrypto) (clock : InboxClock) (mid : Block 32) (now : UInt64) (s : InboxInner)
  (event : InboxEvent) (sender : PublicKey)

/-- Whether messages of the peer are accepted. -/
def authorized (peer : PublicKey) : Bool :=
  match s.authorizationFn with
  | some f => f peer
  | none => peer ∈ s.allowedSenders

/-- Forward an event to the application, or fail. -/
def emitInboxEvent : Prog InboxInner Failure Unit := do
  let s ← get
  require (s.envelopeTx.closed = false) ⟨"inbox event channel closed: cannot deliver event"⟩
  require (s.envelopeTx.queued.length < s.envelopeTx.capacity)
    ⟨"inbox event channel full: request rejected, peer should retry"⟩
  set { s with envelopeTx := { s.envelopeTx with queued := s.envelopeTx.queued ++ [event] } }

/-- Drop the identifiers that have left the replay window. -/
def pruneSeen : InboxInner :=
  { s with seenMessageIds := s.seenMessageIds.retain fun ts =>
      if saturatingSub now maxInboxClockSkew < ts then some ts else none }

def markSeen : InboxInner :=
  { s with seenMessageIds := s.seenMessageIds.insert mid now }

/-- Forward an event whose identifier is new, and record the identifier after that. -/
def emitNew : Prog InboxInner Failure Unit := do
  modify (pruneSeen clock.pruned)
  emitInboxEvent event
  modify (markSeen mid clock.recorded)

/-- Handle an envelope.  An envelope seen before is forwarded again. -/
def handleDeliver (envelope : MailboxEnvelope) : Prog InboxInner Failure Unit := do
  require (envelope.sender = sender)
    ⟨"inbox envelope sender mismatch: transport=" ++ C.display sender ++ ", envelope=" ++
      C.display envelope.sender⟩
  let _ ← okOr (C.encodedLen envelope) ⟨"encode envelope for id: " ++ C.encodeError envelope⟩
  let s ← get
  if C.fingerprint envelope ∈ s.seenMessageIds then
    emitInboxEvent (.envelopeReceived sender envelope)
  else
    emitNew clock (C.fingerprint envelope) (.envelopeReceived sender envelope)

/-- Handle a request to synchronise: a page for the requester, or an event for the application. -/
def handleSyncRequest (sinceMs : UInt64) :
    Prog InboxInner Failure (Option (List MailboxEnvelope × Bool)) := do
  let now := clock.requested
  require (sinceMs ≤ saturatingAdd now maxSyncFutureSkewMs)
    ⟨"sync request from " ++ C.fmtShort sender ++ " has since_ms " ++ toString sinceMs ++
      " which is >" ++ toString maxSyncFutureSkewMs ++ "ms in the future (now=" ++ toString now ++
      ")"⟩
  let floor := saturatingSub now maxSyncLookback
  let effectiveSince := if sinceMs < floor then floor else sinceMs
  let s ← get
  match s.pendingFn with
  | some f => pure (some (f sender effectiveSince))
  | none =>
    emitInboxEvent (.syncRequested sender effectiveSince)
    pure none

def handleTombstone (proof : AuthorDeleteProof) : Prog InboxInner Failure Unit := do
  ofExcept
    (fun e => ⟨"rejecting delete tombstone with invalid author proof: " ++ e⟩) (proof.verify C)
  require (absDiff proof.createdAtUnixSecs clock.checked ≤ maxInboxClockSkew.toNat)
    ⟨"delete tombstone author timestamp " ++ toString proof.createdAtUnixSecs ++
      " is outside replay window (now=" ++ toString clock.checked ++ ")"⟩
  let s ← get
  require (proof.msgId ∉ s.seenMessageIds)
    ⟨"duplicate delete tombstone for message " ++ toString proof.msgId.1⟩
  emitNew clock proof.msgId (.deleteTombstoneReceived sender proof)

/-- Dispatch the payload of a verified message. -/
def dispatch : InboxPayload → Prog InboxInner Failure (Option (List MailboxEnvelope × Bool))
  | .deliver envelope => do
    handleDeliver C clock sender envelope
    pure none
  | .ack ack => do
    ofExcept (fun e => ⟨"inbox: rejecting ack with invalid signature: " ++ e.message⟩)
      (ack.verify C.ackSigned sender)
    emitInboxEvent (.ackReceived sender ack)
    pure none
  | .syncRequest sinceMs => handleSyncRequest C clock sender sinceMs
  | .syncResponse _ => pure none
  | .deleteTombstone proof => do
    handleTombstone C clock sender proof
    pure none

/-- Dispatch a verified inbox message and return pending envelopes and a `has_more` flag when the
caller should send a response back. -/
def handleRequest (buf : Bytes) :
    Prog InboxInner Failure (Option (List MailboxEnvelope × Bool)) := do
  let verified ← ofExcept id (SignedInboxMessage.verify C buf (some sender) clock.received)
  let s ← get
  require (authorized s verified.1)
    ⟨"inbox message from unauthorized peer " ++ C.fmtShort verified.1⟩
  dispatch C clock verified.1 verified.2.1

/-! ### Runs -/

/-- What can happen to an inbox: a message arrives, the application takes events from the channel or
drops it, and contacts change. -/
inductive Input where
  | request (clock : InboxClock) (sender : PublicKey) (buf : Bytes)
  | receive (n : ℕ)
  | close
  | authorize (allowedSenders : Finset PublicKey) (authorizationFn : Option (PublicKey → Bool))

/-- The inbox as a machine: the emitted events come out. -/
def inbox : Machine InboxInner Input InboxEvent where
  step s
    | .request clock sender buf =>
      let s' := ((handleRequest C clock sender buf).exec s).2
      (s', s'.envelopeTx.queued.drop s.envelopeTx.queued.length)
    | .receive n =>
      ({ s with envelopeTx := { s.envelopeTx with queued := s.envelopeTx.queued.drop n } }, [])
    | .close => ({ s with envelopeTx := { s.envelopeTx with closed := true } }, [])
    | .authorize allowedSenders authorizationFn =>
      ({ s with allowedSenders := allowedSenders, authorizationFn := authorizationFn }, [])

/-! ### What handling a message does -/

variable {C : InboxCrypto} {clock : InboxClock} {s : InboxInner} {sender : PublicKey}

/-- The state after an event was put into the channel. -/
def push (event : InboxEvent) (s : InboxInner) : InboxInner :=
  { s with envelopeTx := { s.envelopeTx with queued := s.envelopeTx.queued ++ [event] } }

theorem wp_emitInboxEvent {event : InboxEvent} {Q : Unit → InboxInner → Prop}
    {E : Failure → InboxInner → Prop} (hQ : s.envelopeTx.hasRoom → Q () (push event s))
    (hE : ¬ s.envelopeTx.hasRoom → ∀ err, E err s) : wp (emitInboxEvent event) Q E s := by
  simp only [emitInboxEvent, wp_bind, wp_require]
  refine ⟨fun ho => ⟨fun hlt => hQ ⟨ho, hlt⟩, fun hf => ?_⟩, fun hc => ?_⟩
  · exact hE (fun h => hf h.2) _
  · exact hE (fun h => hc h.1) _

theorem mem_of_mem_pruneSeen {now : UInt64} {k : Block 32}
    (h : k ∈ (pruneSeen now s).seenMessageIds) : k ∈ s.seenMessageIds := by
  rw [← AList.lookup_isSome] at h ⊢
  rw [pruneSeen, HashMap.lookup_retain] at h
  exact Option.isSome_of_isSome_bind h

theorem wp_emitNew {mid : Block 32} {event : InboxEvent} {Q : Unit → InboxInner → Prop}
    {E : Failure → InboxInner → Prop}
    (hQ : s.envelopeTx.hasRoom →
      Q () (markSeen mid clock.recorded (push event (pruneSeen clock.pruned s))))
    (hE : ¬ s.envelopeTx.hasRoom → ∀ err, E err (pruneSeen clock.pruned s)) :
    wp (emitNew clock mid event) Q E s := by
  simp only [emitNew, wp_bind]
  exact wp_emitInboxEvent hQ hE

end Inbox

/-- The identifier under which an emitted event is recorded as seen. -/
def InboxEvent.dedupId (C : InboxCrypto) : InboxEvent → Option (Block 32)
  | .envelopeReceived _ envelope => some (C.fingerprint envelope)
  | .deleteTombstoneReceived _ proof => some proof.msgId
  | .ackReceived _ _ | .syncRequested _ _ => none

namespace Inbox

/-- At most one event is put into the channel, and no identifier is recorded but its own. -/
def Forwards (C : InboxCrypto) (s s' : InboxInner) : Prop :=
  (s'.envelopeTx.queued = s.envelopeTx.queued ∧
      ∀ k ∈ s'.seenMessageIds, k ∈ s.seenMessageIds) ∨
    ∃ event, s'.envelopeTx.queued = s.envelopeTx.queued ++ [event] ∧
      ∀ k ∈ s'.seenMessageIds, k ∈ s.seenMessageIds ∨ event.dedupId C = some k

theorem Forwards.refl (C : InboxCrypto) (s : InboxInner) : Forwards C s s :=
  .inl ⟨rfl, fun _ hk => hk⟩

variable {C : InboxCrypto} {s : InboxInner}

theorem forwards_emitInboxEvent (event : InboxEvent) :
    wp (emitInboxEvent event) (fun _ => Forwards C s) (fun _ => Forwards C s) s :=
  wp_emitInboxEvent (fun _ => .inr ⟨event, rfl, fun _ hk => .inl hk⟩) fun _ _ => .refl C s

variable {clock : InboxClock}

theorem forwards_emitNew {mid : Block 32} {event : InboxEvent} (hm : event.dedupId C = some mid) :
    wp (emitNew clock mid event) (fun _ => Forwards C s) (fun _ => Forwards C s) s := by
  refine wp_emitNew (fun _ => .inr ⟨event, rfl, fun k hk => ?_⟩) fun _ _ => ?_
  · obtain rfl | hk := (AList.mem_insert _).1 hk
    · exact .inr hm
    · exact .inl (mem_of_mem_pruneSeen hk)
  · exact .inl ⟨rfl, fun _ => mem_of_mem_pruneSeen⟩

theorem forwards_dispatch (C : InboxCrypto) (clock : InboxClock) (sender : PublicKey)
    (data : InboxPayload) (s : InboxInner) :
    wp (dispatch C clock sender data) (fun _ => Forwards C s) (fun _ => Forwards C s)
      s := by
  cases data with
  | deliver env =>
    simp only [dispatch, handleDeliver, wp_bind, wp_require, wp_okOr, wp_get]
    refine ⟨fun _ => ⟨fun _ _ => ?_, fun _ => .refl C s⟩, fun _ => .refl C s⟩
    split_ifs
    · exact forwards_emitInboxEvent _
    · exact forwards_emitNew rfl
  | ack ack =>
    simp only [dispatch, wp_bind, wp_ofExcept]
    exact ⟨fun _ _ => forwards_emitInboxEvent _, fun _ _ => .refl C s⟩
  | syncRequest sinceMs =>
    simp only [dispatch, handleSyncRequest, wp_bind, wp_require, wp_get]
    refine ⟨fun _ => ?_, fun _ => .refl C s⟩
    cases s.pendingFn with
    | some f => exact .refl C s
    | none =>
      simp only [wp_bind]
      exact forwards_emitInboxEvent _
  | syncResponse page => exact .refl C s
  | deleteTombstone proof =>
    simp only [dispatch, handleTombstone, wp_bind, wp_require, wp_ofExcept]
    exact ⟨fun _ _ => ⟨fun _ => ⟨fun _ => forwards_emitNew rfl, fun _ => .refl C s⟩,
      fun _ => .refl C s⟩, fun _ _ => .refl C s⟩

theorem forwards_handleRequest (sender : PublicKey) (buf : Bytes) :
    Forwards C s ((handleRequest C clock sender buf).exec s).2 := by
  refine exec_of_wp ?_
  simp only [handleRequest, wp_bind, wp_ofExcept, wp_require]
  exact ⟨fun verified _ => ⟨fun _ => forwards_dispatch C clock _ _ s, fun _ => .refl C s⟩,
    fun _ _ => .refl C s⟩

/-! ### Tombstones -/

/-- An authorised message with a tombstone whose proof verifies and is inside the replay window. -/
structure ValidTombstone (C : InboxCrypto) (s : InboxInner) (clock : InboxClock)
    (sender : PublicKey) (buf : Bytes) (proof : AuthorDeleteProof) : Prop where
  /-- The message is authentic and carries the tombstone. -/
  verified : ∃ sentAt, SignedInboxMessage.verify C buf (some sender) clock.received =
    .ok (sender, .deleteTombstone proof, sentAt)
  authorized : authorized s sender
  signed : proof.verify C = .ok ()
  in_window : absDiff proof.createdAtUnixSecs clock.checked ≤ maxInboxClockSkew.toNat

theorem step_tombstone {buf : Bytes} {p : AuthorDeleteProof}
    (h : ValidTombstone C s clock sender buf p) :
    ((inbox C).step s (.request clock sender buf)).2 =
      if p.msgId ∉ s.seenMessageIds ∧ s.envelopeTx.hasRoom then
        [.deleteTombstoneReceived sender p] else [] := by
  obtain ⟨sentAt, hv⟩ := h.verified
  refine exec_of_wp (x := handleRequest C clock sender buf) (s := s) (P := fun s' =>
    s'.envelopeTx.queued.drop s.envelopeTx.queued.length = if p.msgId ∉ s.seenMessageIds ∧
      s.envelopeTx.hasRoom then [.deleteTombstoneReceived sender p] else []) ?_
  simp only [handleRequest, hv, wp_bind, wp_ofExcept, wp_require, wp_get,
    Except.ok.injEq, forall_eq', h.authorized, dispatch, handleTombstone, h.signed, h.in_window,
    reduceCtorEq, true_implies, not_true_eq_false, false_implies, and_true, implies_true]
  refine fun _ => ⟨fun hf => wp_emitNew (fun hr => ?_) fun hr _ => ?_, fun hs => ?_⟩
  · simp [hf, hr, markSeen, push, pruneSeen]
  · simp [hr, pruneSeen]
  · simp [not_not.1 hs]

/-- What is recorded as seen was so from the start or is the identifier of an emitted event. -/
theorem seen_origin (s₀ : InboxInner) (is : List Input) :
    ∀ k ∈ ((inbox C).exec s₀ is).seenMessageIds, k ∈ s₀.seenMessageIds ∨
      ∃ event ∈ (inbox C).trace s₀ is, event.dedupId C = some k := by
  refine Machine.trace_invariant_along (G := fun _ _ => True) (P := fun s evs =>
      ∀ k ∈ InboxInner.seenMessageIds s, k ∈ s₀.seenMessageIds ∨
        ∃ event ∈ evs, InboxEvent.dedupId C event = some k)
    (Machine.along_of_step (fun _ _ => trivial) _ _) (fun _ hk => .inl hk) ?_
  intro s evs input _ ih k hk
  have ho : k ∈ s.seenMessageIds → k ∈ s₀.seenMessageIds ∨
      ∃ event ∈ evs ++ ((inbox C).step s input).2, event.dedupId C = some k := by
    intro hk
    obtain hk | ⟨event, hmem, hid⟩ := ih k hk
    · exact .inl hk
    · exact .inr ⟨event, List.mem_append_left _ hmem, hid⟩
  cases input with
  | request clock sender buf =>
    obtain ⟨-, hs⟩ | ⟨event, hq, hs⟩ := forwards_handleRequest sender buf
    · exact ho (hs k hk)
    · obtain hk | hid := hs k hk
      · exact ho hk
      · have hout : ((inbox C).step s (.request clock sender buf)).2 = [event] := by
          simp [inbox, hq]
        exact .inr ⟨event, by simp [hout], hid⟩
  | receive n | close | authorize a af => exact ho hk

/-- A tombstone by the author for the message is among the events. -/
def TombstoneEmitted (author : PublicKey) (msgId : Block 32) (events : List InboxEvent) : Prop :=
  ∃ sender proof, .deleteTombstoneReceived sender proof ∈ events ∧ proof.author = author ∧
    proof.msgId = msgId

/-- **Tombstones.**  After any run, a valid tombstone that is not a repetition is emitted exactly if
its message is not recorded as seen and the channel takes the event; a message that is recorded as
seen was recorded at the start, or an envelope or a tombstone with its identifier was emitted, by
whatever author. -/
theorem tombstone_emitted_iff (C : InboxCrypto) (s₀ : InboxInner) (inputs : List Input)
    (clock : InboxClock) (sender : PublicKey) (buf : Bytes) (proof : AuthorDeleteProof)
    (h : ValidTombstone C ((inbox C).exec s₀ inputs) clock sender buf proof) :
    let s := (inbox C).exec s₀ inputs
    let events := (inbox C).trace s₀ inputs
    ((¬ TombstoneEmitted proof.author proof.msgId events →
        .deleteTombstoneReceived sender proof ∈ ((inbox C).step s (.request clock sender buf)).2) ↔
      TombstoneEmitted proof.author proof.msgId events ∨
        proof.msgId ∉ s.seenMessageIds ∧ s.envelopeTx.hasRoom) ∧
      (proof.msgId ∈ s.seenMessageIds → proof.msgId ∈ s₀.seenMessageIds ∨
        ∃ event ∈ events, event.dedupId C = some proof.msgId) := by
  refine ⟨?_, seen_origin s₀ inputs proof.msgId⟩
  rw [step_tombstone h, or_iff_not_imp_left]
  refine imp_congr_right fun _ => ?_
  split_ifs with hc
  · exact iff_of_true (List.mem_singleton.2 rfl) hc
  · exact iff_of_false List.not_mem_nil hc

/-- The proof by which an author has the message deleted whose envelope has the content 97. -/
def sampleProof (author : UInt8) : AuthorDeleteProof where
  msgId := Block.replicate 32 97
  conversationId := Block.replicate 32 0
  createdAtUnixSecs := 0
  author := Block.replicate 32 author
  authorSignature := Block.replicate 64 0

/-- Messages of one peer: the envelope for the byte 0, the tombstone of an author for any other. -/
def sampleCrypto : InboxCrypto where
  toMailboxCrypto := Mailbox.plainCrypto
  decode bytes := .ok
    { sender := Block.replicate 32 3
      sentAtUnixSecs := 0
      inner := if bytes = [0] then .deliver (.v2 (Mailbox.envelopeAt 50 97))
        else .deleteTombstone (sampleProof (bytes.headD 0))
      signature := Block.replicate 64 0 }
  messageSigned _ := true
  proofSigned _ := true
  encodeError _ := ""
  display _ := ""
  fmtShort _ := ""

/-- An inbox that accepts messages of that peer. -/
def sampleInbox : InboxInner where
  allowedSenders := {Block.replicate 32 3}
  authorizationFn := none
  seenMessageIds := ∅
  envelopeTx := ⟨8, [], false⟩
  pendingFn := none

/-- The message of that peer for a byte. -/
def sampleRequest (n : UInt8) : Input := .request ⟨0, 0, 0, 0, 0⟩ (Block.replicate 32 3) [n]

/-- The tombstone of the author comes first and is emitted. -/
theorem tombstone_emitted_first :
    ValidTombstone sampleCrypto sampleInbox ⟨0, 0, 0, 0, 0⟩ (Block.replicate 32 3) [3]
        (sampleProof 3) ∧
      .deleteTombstoneReceived (Block.replicate 32 3) (sampleProof 3) ∈
        ((inbox sampleCrypto).step sampleInbox (sampleRequest 3)).2 := by
  have hv : ValidTombstone sampleCrypto sampleInbox ⟨0, 0, 0, 0, 0⟩ (Block.replicate 32 3) [3]
      (sampleProof 3) := ⟨⟨0, by decide⟩, by decide, by decide, by decide⟩
  refine ⟨hv, ?_⟩
  refine (tombstone_emitted_iff sampleCrypto sampleInbox [] _ _ _ _ hv).1.2 (.inr (by decide)) ?_
  rintro ⟨_, _, hmem, -⟩
  cases hmem

/-- The tombstone is valid and not emitted after the envelope was delivered, nor after a tombstone
that another author signed. -/
theorem tombstone_suppressed :
    let author := Block.replicate 32 3
    let events₁ := (inbox sampleCrypto).trace sampleInbox [sampleRequest 0, sampleRequest 3]
    let events₂ := (inbox sampleCrypto).trace sampleInbox [sampleRequest 4, sampleRequest 3]
    ValidTombstone sampleCrypto ((inbox sampleCrypto).exec sampleInbox [sampleRequest 0])
        ⟨0, 0, 0, 0, 0⟩ author [3] (sampleProof 3) ∧
      events₁ = [.envelopeReceived author (.v2 (Mailbox.envelopeAt 50 97))] ∧
      ValidTombstone sampleCrypto ((inbox sampleCrypto).exec sampleInbox [sampleRequest 4])
        ⟨0, 0, 0, 0, 0⟩ author [3] (sampleProof 3) ∧
      events₂ = [.deleteTombstoneReceived author (sampleProof 4)] := by
  refine ⟨⟨⟨0, by decide⟩, by decide, by decide, by decide⟩, by decide,
    ⟨⟨0, by decide⟩, by decide, by decide, by decide⟩, by decide⟩

end Inbox

end Boru
