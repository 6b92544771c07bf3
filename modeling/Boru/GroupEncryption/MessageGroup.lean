import Boru.GroupEncryption.Dcgka
import Boru.GroupEncryption.Ordering

/-!
# Message groups

The group API of the message scheme: the key agreement, the orderer and the ratchets of the
application messages put together.  `receive` may process several messages at once: all that are
ready once the received one is queued.

`process` is `receive` with every event paired with the message it stems from; the pairs are
forgotten in the output.

## Main results

* `MessageGroup.processAll_fuel` : the loop of `receive` needs no more fuel than it gets.
* `MessageGroup.processReady_event` : exactly the acknowledgements processed by a member yield no
  event, and they leave the orderer and the members as they are.
-/

namespace Boru.GroupEncryption

open EncryptedGroupEnvelope

/-! ### Ratchets -/

inductive RatchetError where
  | hkdf (e : Failure)
  | tooDistantInTheFuture
  | tooDistantInThePast
  | indexOutOfBounds
  | secretReuse

structure RatchetSecretState where
  secret : Key
  generation : UInt32
  deriving DecidableEq

abbrev RatchetKeyMaterial := Key × Block 12

namespace RatchetSecret

def init (secret : Key) : RatchetSecretState := ⟨secret, 0⟩

/-- Derive the key material of the current generation and the secret of the next one. -/
def ratchetForward (S : Suite) (y : RatchetSecretState) :
    Except RatchetError (RatchetSecretState × UInt32 × RatchetKeyMaterial) := do
  let nonce ← (S.hkdf 12 (utf8 "nonce") y.secret.1).mapError .hkdf
  let key ← (S.hkdf 32 (utf8 "key") y.secret.1).mapError .hkdf
  let secret ← (S.hkdf 32 (utf8 "chain") y.secret.1).mapError .hkdf
  pure (⟨secret, y.generation + 1⟩, y.generation, key, nonce)

end RatchetSecret

/-- Message ratchet for decryption, with the key material of skipped messages. -/
structure DecryptionRatchetState where
  /-- Key material of past generations, the latest first. -/
  pastSecrets : List (Option RatchetKeyMaterial)
  ratchetHead : RatchetSecretState

namespace DecryptionRatchet

def init (secret : Key) : DecryptionRatchetState := ⟨[], RatchetSecret.init secret⟩

/-- Ratchet forward over `n` generations, keeping their key material. -/
def skip (S : Suite) : ℕ → DecryptionRatchetState → Except RatchetError DecryptionRatchetState
  | 0, y => pure y
  | n + 1, y => do
    let (head, _, material) ← RatchetSecret.ratchetForward S y.ratchetHead
    skip S n ⟨some material :: y.pastSecrets, head⟩

def secretForDecryption (S : Suite) (y : DecryptionRatchetState)
    (generation maximumForwardDistance oooTolerance : UInt32) :
    Except RatchetError (DecryptionRatchetState × RatchetKeyMaterial) :=
  let head := y.ratchetHead.generation
  if head < 4294967295 - maximumForwardDistance ∧ generation > head + maximumForwardDistance then
    .error .tooDistantInTheFuture
  else if generation < head ∧ head - generation > oooTolerance then .error .tooDistantInThePast
  else if generation ≥ head then do
    let y ← skip S (generation - head).toNat y
    let (head, _, material) ← RatchetSecret.ratchetForward S y.ratchetHead
    pure (⟨(none :: y.pastSecrets).take oooTolerance.toNat, head⟩, material)
  else
    let windowIndex := (head - generation).toInt32.toInt - 1
    if windowIndex < 0 then .error .tooDistantInThePast
    else
      match y.pastSecrets[windowIndex.toNat]? with
      | none => .error .indexOutOfBounds
      | some none => .error .secretReuse
      | some (some material) =>
        .ok ({ y with pastSecrets := y.pastSecrets.set windowIndex.toNat none }, material)

end DecryptionRatchet

/-! ### Groups -/

/-- Configuration of the message ratchets. -/
structure GroupConfig where
  /-- How many incoming messages can be skipped. -/
  maximumForwardDistance : UInt32 := 1000
  /-- The window for which decryption secrets are kept. -/
  outOfOrderTolerance : UInt32 := 100

structure GroupState (S : Suite) where
  myId : PeerId
  dcgka : DcgkaState S
  orderer : OrderingState
  /-- The message that let us join. -/
  welcome : Option EncryptedGroupEnvelope
  /-- Our encryption ratchet; the group is established as soon as there is one. -/
  ratchet : Option RatchetSecretState
  /-- The decryption ratchets of the other members. -/
  decryptionRatchet : HashMap PeerId DecryptionRatchetState
  config : GroupConfig

/-- Dispatched event after processing a group message. -/
inductive GroupEvent where
  /-- Control message which should be broadcast to all members of the group. -/
  | control (message : EncryptedGroupEnvelope)
  | application (plaintext : Bytes) (messageId : OpId)
  /-- Signal that we've been removed from the group. -/
  | removedOurselves
  deriving DecidableEq

/-- Whether an event is a decrypted payload. -/
def GroupEvent.isApplication : GroupEvent → Bool
  | .application .. => true
  | .control _ | .removedOurselves => false

/-- Result from processing a remote message. -/
structure GroupOutput where
  /-- The events, in the order of the messages processed. -/
  events : List GroupEvent
  removedMembers : Finset PeerId
  addedMembers : Finset PeerId

/-- The events and the difference of the members before and after. -/
def GroupOutput.new (events : List GroupEvent) (pre post : HashSet PeerId) : GroupOutput where
  events := events
  removedMembers := pre.keys.toFinset \ post.keys.toFinset
  addedMembers := post.keys.toFinset \ pre.keys.toFinset

inductive GroupError where
  | dcgka (e : DcgkaError)
  | encryptionRatchet (e : RatchetError)
  | decryptionRatchet (e : RatchetError)
  | aead (e : Failure)
  /-- Creating or joining a group is not possible, state is already established. -/
  | groupAlreadyEstablished
  /-- State is not ready yet, group needs to be created or joined first. -/
  | groupNotYetEstablished
  | notAddOurselves
  /-- Decryption ratchet not established yet to process a message. -/
  | decryptionRachetUnavailable (sender : PeerId) (generation : UInt32)
  /-- To-be-added member is already part of the group. -/
  | addedExistsAlready (id : PeerId)
  /-- To-be-removed member is not part of the group. -/
  | inexistentRemovedMember (id : PeerId)

namespace MessageGroup

open Prog

variable {S : Suite}

abbrev Call (S : Suite) := Prog S.World GroupError

/-- Initial state, to be called before creating or joining a group. -/
def init (myId : PeerId) (myKeys : S.Keys) (pki : S.Pki) (dgm : MembershipState)
    (orderer : OrderingState) (config : GroupConfig) : GroupState S where
  myId := myId
  dcgka := Dcgka.init myId myKeys pki dgm
  orderer := orderer
  welcome := none
  ratchet := none
  decryptionRatchet := ∅
  config := config

variable (y : GroupState S)

def members : HashSet PeerId := Dcgka.memberView y.dcgka y.myId

/-! ### Local operations -/

/-- Process our own control message. -/
def processLocal (y : GroupState S) (output : OperationOutput S) :
    Call S (GroupState S × EncryptedGroupEnvelope) := do
  let (orderer, message) := y.orderer.nextControlMessage S.contentId output.controlMessage
    (output.directMessages.map S.encodeDirect)
  let (dcgka, process) ← (Dcgka.processLocal y.dcgka message.id output).mapErr .dcgka
  let secret ← okOr process.meUpdateSecret
    (.dcgka (.panic "local operation always yields an update secret for us"))
  pure ({ y with orderer, dcgka, ratchet := some (RatchetSecret.init secret) }, message)

def create (y : GroupState S) (initialMembers : List PeerId) :
    Call S (GroupState S × EncryptedGroupEnvelope) := do
  require y.ratchet.isNone .groupAlreadyEstablished
  let (dcgka, pre) ← (Dcgka.create y.dcgka initialMembers).mapErr .dcgka
  let (y, message) ← processLocal { y with dcgka } pre
  -- our own "create" is the welcome message
  pure ({ y with orderer := y.orderer.setWelcome message }, message)

def add (y : GroupState S) (added : PeerId) : Call S (GroupState S × EncryptedGroupEnvelope) := do
  require y.ratchet.isSome .groupNotYetEstablished
  require (y.myId ≠ added) .notAddOurselves
  require (added ∉ members y) (.addedExistsAlready added)
  let (dcgka, pre) ← (Dcgka.add y.dcgka added).mapErr .dcgka
  processLocal { y with dcgka } pre

def remove (y : GroupState S) (removed : PeerId) :
    Call S (GroupState S × EncryptedGroupEnvelope) := do
  require y.ratchet.isSome .groupNotYetEstablished
  require (removed ∈ members y) (.inexistentRemovedMember removed)
  let (dcgka, pre) ← (Dcgka.remove y.dcgka removed).mapErr .dcgka
  processLocal { y with dcgka } pre

def update (y : GroupState S) : Call S (GroupState S × EncryptedGroupEnvelope) := do
  require y.ratchet.isSome .groupNotYetEstablished
  let (dcgka, pre) ← (Dcgka.update y.dcgka).mapErr .dcgka
  processLocal { y with dcgka } pre

/-- Encrypt an application message with our ratchet. -/
def encrypt (S : Suite) (ratchet : RatchetSecretState) (plaintext : Bytes) :
    Except GroupError (RatchetSecretState × UInt32 × Bytes) := do
  let (ratchet, generation, key, nonce) ←
    (RatchetSecret.ratchetForward S ratchet).mapError .encryptionRatchet
  let ciphertext ← (S.aeadEncrypt key plaintext nonce).mapError .aead
  pure (ratchet, generation, ciphertext)

/-- Encrypt an application message towards the group. -/
def send (plaintext : Bytes) : Except GroupError (GroupState S × EncryptedGroupEnvelope) :=
  match y.ratchet with
  | none => .error .groupNotYetEstablished
  | some ratchet => do
    let (ratchet, generation, ciphertext) ← encrypt S ratchet plaintext
    let (orderer, message) := y.orderer.nextApplicationMessage S.contentId generation ciphertext
    pure ({ y with ratchet := some ratchet, orderer }, message)

/-! ### Incoming messages -/

/-- Decrypt an application message with the ratchet of its sender. -/
def decrypt (sender : PeerId) (ciphertext : Bytes) (generation : UInt32) :
    Except GroupError (GroupState S × Bytes) :=
  match y.decryptionRatchet.lookup sender with
  | none => .error (.decryptionRachetUnavailable sender generation)
  | some ratchet => do
    let (ratchet, key, nonce) ←
      (DecryptionRatchet.secretForDecryption S ratchet generation
        y.config.maximumForwardDistance y.config.outOfOrderTolerance).mapError .decryptionRatchet
    let plaintext ← (S.aeadDecrypt key ciphertext nonce).mapError .aead
    pure ({ y with decryptionRatchet := y.decryptionRatchet.insert sender ratchet }, plaintext)

/-- Take the answer to a control message to the orderer. -/
def answer (output : ProcessOutput S) : GroupState S × Option EncryptedGroupEnvelope :=
  match output.controlMessage with
  | none => (y, none)
  | some control =>
    let r := y.orderer.nextControlMessage S.contentId control
      (output.directMessages.map S.encodeDirect)
    ({ y with orderer := r.1 }, some r.2)

/-- Process a control message of another member. -/
def processRemote (y : GroupState S) (seq : OpId) (sender : PeerId) (control : ControlMessage)
    (directMessage : Option (Direct S)) :
    Call S (GroupState S × Option EncryptedGroupEnvelope) := do
  let (dcgka, output) ←
    (Dcgka.processRemote y.dcgka seq sender control directMessage).mapErr .dcgka
  let ratchet := (output.meUpdateSecret.map RatchetSecret.init).orElse fun _ => y.ratchet
  let decryptionRatchet := match output.senderUpdateSecret with
    | none => y.decryptionRatchet
    | some secret => y.decryptionRatchet.insert sender (DecryptionRatchet.init secret)
  pure (answer { y with dcgka, ratchet, decryptionRatchet } output)

variable (message : EncryptedGroupEnvelope)

/-- The direct message for us, the first of those that can be decoded. -/
def directMessageFor : Option (Direct S) :=
  (message.directMessages.filterMap S.decodeDirect).find? fun dm => dm.recipient = y.myId

/-- Process a message that the orderer marked as ready. -/
def processReady : Call S (GroupState S × Option GroupEvent) :=
  match message.content with
  | .control control => do
    let (y, output) ←
      processRemote y message.id message.sender control (directMessageFor y message)
    if y.myId ∉ members y then pure (y, some .removedOurselves)
    else pure (y, output.map .control)
  | .application ciphertext generation => do
    let (y, plaintext) ← ofExcept id (decrypt y message.sender ciphertext generation)
    pure (y, some (.application plaintext message.id))

/-- Process the ready messages one after another; the events with the messages they stem from.
Every message handed out decreases the number of waiting messages, which bounds the loop. -/
def processAll :
    ℕ → GroupState S → Call S (GroupState S × List (EncryptedGroupEnvelope × GroupEvent))
  | 0, y => pure (y, [])
  | n + 1, y =>
    match y.orderer.nextReadyMessage with
    | (orderer, none) => pure ({ y with orderer }, [])
    | (orderer, some message) =>
      -- the welcome was processed when it was received
      if y.welcome.any fun welcome => welcome.id = message.id then
        processAll n { y with orderer }
      else do
        let (y, event) ← processReady { y with orderer } message
        let (y, events) ← processAll n y
        pure (y, (event.map fun e => (message, e)).toList ++ events)

/-- Whether a message lets us join the group: a "create" with us, or an "add" of us. -/
def isCreateOrWelcome : Bool :=
  match message.content with
  | .control (.create initialMembers) => y.myId ∈ initialMembers
  | .control (.add added) => added = y.myId
  | _ => false

def isCreate : Bool :=
  match message.content with
  | .control (.create _) => true
  | _ => false

/-- Handle an incoming message: `receive` with every event paired with its message. -/
def process : Call S (GroupState S × Option (List (EncryptedGroupEnvelope × GroupEvent))) := do
  require (¬ (isCreate message ∧ y.ratchet.isSome)) .groupAlreadyEstablished
  let orderer := y.orderer.queue message
  if y.ratchet.isSome then do
    let (y, events) ← processAll (orderer.waiting + 1) { y with orderer }
    pure (y, some events)
  else if isCreateOrWelcome y message then do
    -- we can join the group now; the welcome is processed before anything else
    let (y, event) ←
      processReady { y with orderer := orderer.setWelcome message, welcome := some message } message
    pure (y, event.map fun e => [(message, e)])
  else
    -- kept for later, we have not joined yet
    pure ({ y with orderer }, none)

def receive : Call S (GroupState S × Option GroupOutput) := do
  let (y', events) ← process y message
  pure (y', events.map fun es => .new (es.map (·.2)) (members y) (members y'))

/-! ### One message -/

/-- Whether a message yields an event: all do but the acknowledgements, and those do as well once
we are no member any more. -/
def speaks : Bool :=
  !message.isAck || y.myId ∉ members y

/-- What an acknowledgement leaves unchanged. -/
structure SameGroup (y y' : GroupState S) : Prop where
  myId : y'.myId = y.myId
  members : members y' = members y
  orderer : y'.orderer = y.orderer
  welcome : y'.welcome = y.welcome

variable (seq : OpId)

variable (sender : PeerId)

theorem processRemote_of_isAck {ctl : ControlMessage} (dm : Option (Direct S)) (h : ctl.isAck) :
    Ensures (processRemote y seq sender ctl dm) fun r => SameGroup y r.1 ∧ r.2 = none := by
  refine .bind (.mapErr (Dcgka.processRemote_of_isAck y.dcgka seq sender dm h)) ?_
  rintro ⟨dcgka, out⟩ ⟨hv, hn⟩
  refine .pure ?_
  simp only at hn
  simp only [answer, hn]
  exact ⟨⟨rfl, hv.members, rfl, rfl⟩, trivial⟩

theorem processRemote_of_not_isAck {ctl : ControlMessage}
    (dm : Option (Direct S)) (h : ¬ ctl.isAck) :
    Ensures (processRemote y seq sender ctl dm) fun r => r.2.isSome := by
  refine .bind (.mapErr (Dcgka.processRemote_of_not_isAck y.dcgka seq sender dm h)) ?_
  rintro ⟨dcgka, out⟩ hs
  refine .pure ?_
  obtain ⟨ctl, hc⟩ := Option.isSome_iff_exists.1 hs
  simp only at hc
  simp only [answer, hc]
  rfl

/-- Exactly the messages that speak yield an event; the others leave the orderer and the members
as they are. -/
theorem processReady_event : Ensures (processReady y message) fun r =>
      r.2.isSome = speaks y message ∧ (¬ speaks y message → SameGroup y r.1) := by
  unfold processReady speaks isAck
  split
  · rename_i ctl hc
    by_cases ha : ctl.isAck
    · refine .bind (processRemote_of_isAck y _ _ _ ha) ?_
      rintro ⟨z, out⟩ ⟨hs, hn⟩
      simp only at hs hn
      simp only [hs.members, hs.myId]
      split
      · exact .pure ⟨by simp_all, fun _ => hs⟩
      · exact .pure ⟨by simp_all, fun _ => hs⟩
    · refine .bind (processRemote_of_not_isAck y _ _ _ ha) ?_
      rintro ⟨z, out⟩ hso
      simp only [hc, ha]
      split
      · exact .pure ⟨by simp, by simp⟩
      · exact .pure ⟨by simpa using hso, by simp⟩
  · rename_i ct gen hc
    refine .andThen fun _ => .pure ⟨?_, ?_⟩ <;> simp [hc]

/-- An acknowledgement changes nothing, and is heard of only by a peer that is no member. -/
theorem processReady_of_isAck {message : EncryptedGroupEnvelope} (h : message.isAck) :
    Ensures (processReady y message) fun r => SameGroup y r.1 ∧
      r.2 = if y.myId ∈ members y then none else some .removedOurselves := by
  unfold isAck at h
  unfold processReady
  split
  · rename_i ctl hc
    simp only [hc] at h
    refine .bind (processRemote_of_isAck y _ _ _ h) ?_
    rintro ⟨z, out⟩ ⟨hs, hn⟩
    simp only at hs hn
    simp only [hs.members, hs.myId, hn]
    by_cases hmem : y.myId ∈ members y
    · simp only [hmem]
      exact .pure ⟨hs, rfl⟩
    · simp only [hmem]
      exact .pure ⟨hs, rfl⟩
  · rename_i hc
    simp [hc] at h

theorem sameGroup_decrypt {y : GroupState S} {sender : PeerId} {ct : Bytes}
    {gen : UInt32} {r : GroupState S × Bytes}
    (h : decrypt y sender ct gen = .ok r) : SameGroup y r.1 := by
  unfold decrypt at h
  split at h
  · cases h
  · obtain ⟨p, -, h⟩ := except_bind_eq_ok h
    obtain ⟨text, -, h⟩ := except_bind_eq_ok h
    cases h
    exact ⟨rfl, rfl, rfl, rfl⟩

theorem processReady_of_isApplication {message : EncryptedGroupEnvelope}
    (h : message.isApplication) : Ensures (processReady y message) fun r => SameGroup y r.1 := by
  unfold isApplication at h
  unfold processReady
  split
  · rename_i hc
    simp [hc] at h
  · exact .bind (.ofExcept fun r hr => sameGroup_decrypt hr) fun r hr => .pure hr

/-- What processing a message does to the orderer: at most an acknowledgement of our own is stored
in it. -/
def StoresAck (orderer orderer' : OrderingState) : Prop :=
  orderer' = orderer ∨ ∃ answer : EncryptedGroupEnvelope, answer.isAck ∧ orderer' = { orderer with
    clock := orderer.clock + 1, messages := orderer.messages.insert answer.id answer }

/-- A control message that leaves us without membership is heard of as our removal. -/
theorem processReady_of_control {message : EncryptedGroupEnvelope} (h : ¬ message.isApplication) :
    Ensures (processReady y message) fun r => StoresAck y.orderer r.1.orderer ∧
      (r.1.myId ∉ members r.1 → r.2 = some .removedOurselves) := by
  unfold isApplication at h
  unfold processReady
  split
  · rename_i ctl hco
    have hs : Ensures
        (processRemote y message.id message.sender ctl (directMessageFor y message))
        fun r => StoresAck y.orderer r.1.orderer := by
      refine .bind (.mapErr (Dcgka.processRemote_answersAck)) ?_
      rintro ⟨dcgka, out⟩ ha
      refine .pure ?_
      unfold answer
      split
      · exact .inl rfl
      · rename_i c hc
        exact .inr ⟨.newControl S.contentId _ c _, ha c hc, rfl⟩
    refine .bind hs fun r hr => ?_
    dsimp only
    split
    · exact .pure ⟨hr, fun _ => rfl⟩
    · rename_i hmem
      exact .pure ⟨hr, fun hout => absurd hout hmem⟩
  · rename_i hco
    simp [hco] at h

/-! ### The loop -/

theorem processReady_waiting :
    Ensures (processReady y message) fun r => r.1.orderer.waiting = y.orderer.waiting := by
  unfold processReady
  split
  · refine .bind (Q := fun r => r.1.orderer.waiting = y.orderer.waiting)
      (.andThen fun r => .pure ?_) fun r hr => ?_
    · unfold answer
      split <;> rfl
    dsimp only
    split <;> exact .pure hr
  · refine .bind (.ofExcept fun r hr => sameGroup_decrypt hr) fun r hr => .pure ?_
    exact congrArg OrderingState.waiting hr.orderer

/-- **Enough fuel.**  More fuel than waiting messages changes nothing. -/
theorem processAll_fuel {n : ℕ} {y : GroupState S} (h : y.orderer.waiting < n) :
    processAll (n + 1) y = processAll n y := by
  induction n generalizing y with
  | zero => omega
  | succ n ih =>
    rw [processAll, processAll]
    rcases hne : y.orderer.nextReadyMessage with ⟨orderer, _ | message⟩
    · rfl
    · have hlt := OrderingState.waiting_nextReadyMessage_lt hne
      have hn : orderer.waiting < n := by omega
      dsimp only
      split
      · exact ih hn
      · -- what a ready message returns has no more messages waiting
        funext s
        change Prog.exec (_ >>= _) s = Prog.exec (_ >>= _) s
        rw [Prog.exec_bind, Prog.exec_bind]
        rcases hs : (processReady { y with orderer } message).exec s with ⟨e | r, s'⟩
        · rfl
        · have hw := (processReady_waiting { y with orderer } message).of_exec hs
          dsimp only
          rw [ih (hw.trans_lt hn)]

end MessageGroup

end Boru.GroupEncryption
