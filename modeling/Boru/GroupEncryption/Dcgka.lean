import Boru.Prog.Basic
import Boru.GroupEncryption.Membership

/-!
# Decentralised continuous group key agreement

The key agreement under the message scheme: a seed is sent to every member through two-party
channels, every member derives the member secrets of all others from it, and acknowledgements
advance the outer ratchets.

The cryptography, the registry of key bundles and the codec of the direct messages are parameters
(`Suite`).  A call works on the state of the group and on a world outside of it, the random source
and the registry database; panics are errors of their own (`DcgkaError.panic`).

## Main results

* `Dcgka.processRemote_of_isAck` : an acknowledgement is never answered, and leaves the members as
  they are.
* `Dcgka.processRemote_of_not_isAck` : every other control message is answered.
-/

namespace Boru.GroupEncryption

/-! ### Direct messages -/

/-- The content of a direct message with two-party ciphertexts in `M`. -/
inductive DirectMessageContent (M : Type) where
  | welcome (ciphertext : M) (history : MembershipState)
  | twoParty (ciphertext : M)
  | forward (ciphertext : M)

/-- A message for one member, sent along with a control message. -/
structure DirectMessage (M : Type) where
  recipient : PeerId
  content : DirectMessageContent M

inductive DirectMessageType where
  | welcome
  | twoParty
  | forward

def DirectMessage.messageType {M : Type} (dm : DirectMessage M) : DirectMessageType :=
  match dm.content with
  | .welcome .. => .welcome
  | .twoParty _ => .twoParty
  | .forward _ => .forward

/-! ### Parameters -/

/-- The cryptography and the services the key agreement is built on. -/
structure Suite where
  /-- The random source and the registry database. -/
  World : Type
  /-- Handles of the registry of identity keys and key bundles. -/
  Pki : Type
  Keys : Type
  Bundle : Type
  TwoParty : Type
  TwoPartyMessage : Type
  /-- The hash of the encoding of a content. -/
  contentId : EncryptedGroupContent → OpId
  encodeDirect : DirectMessage TwoPartyMessage → Bytes
  decodeDirect : Bytes → Option (DirectMessage TwoPartyMessage)
  randomArray : Prog World Failure Key
  identityKey : Pki → PeerId → Prog World Failure (Option Key)
  keyBundle : Pki → PeerId → Prog World Failure (Pki × Option Bundle)
  /-- A two-party channel from a key bundle. -/
  initTwoParty : Bundle → TwoParty
  send : TwoParty → Keys → Bytes → Prog World Failure (TwoParty × TwoPartyMessage)
  receive : TwoParty → Keys → TwoPartyMessage → Except Failure (TwoParty × Keys × Bytes)
  /-- Derive `n` bytes from a salt and key material. -/
  hkdf : (n : ℕ) → Bytes → Bytes → Except Failure (Block n)
  aeadEncrypt : Key → Bytes → Block 12 → Except Failure Bytes
  aeadDecrypt : Key → Bytes → Block 12 → Except Failure Bytes

def utf8 (s : String) : Bytes := s.toUTF8.toList

inductive DcgkaError where
  /-- The given key does not match the required 32 byte length. -/
  | invalidKeySize
  /-- Expected ratchet secret but couldn't find anything. -/
  | missingRatchetSecret
  /-- Expected member secret but couldn't find anything. -/
  | missingMemberSecret (id : PeerId) (seq : OpId)
  /-- Expected a direct message but got nothing instead. -/
  | missingDirectMessage (expected : DirectMessageType)
  /-- Expected a direct message of one type but got one of another. -/
  | unexpectedDirectMessageType (expected actual : DirectMessageType)
  | notOurDirectMessage (myId recipient : PeerId)
  | dgmOperation (e : MembershipError)
  /-- Failed retrieving a bundle from the registry. -/
  | preKeyRegistry (e : Failure)
  | identityRegistry (e : Failure)
  | missingPreKeys (id : PeerId)
  | missingIdentityKey (id : PeerId)
  /-- No randomness available. -/
  | rng (e : Failure)
  | twoParty (e : Failure)
  | hkdf (e : Failure)
  /-- An assertion of the code failed. -/
  | panic (message : String)

/-! ### State -/

structure DcgkaState (S : Suite) where
  pki : S.Pki
  myKeys : S.Keys
  myId : PeerId
  /-- The seed of the local operation under way. -/
  nextSeed : Option Key
  twoParty : HashMap PeerId S.TwoParty
  /-- Member secrets by sender, operation and member, kept until the member acknowledges. -/
  memberSecrets : HashMap (PeerId × OpId × PeerId) Key
  /-- Chain secrets of the outer ratchets. -/
  ratchet : HashMap PeerId Key
  dgm : MembershipState

/-- The direct messages of a suite. -/
abbrev Direct (S : Suite) := DirectMessage S.TwoPartyMessage

/-- Output of processing a control message. -/
structure ProcessOutput (S : Suite) where
  /-- Control message that should be broadcast. -/
  controlMessage : Option ControlMessage := none
  /-- Direct messages that should be sent along. -/
  directMessages : List (Direct S) := []
  senderUpdateSecret : Option Key := none
  meUpdateSecret : Option Key := none

structure OperationOutput (S : Suite) where
  /-- Control message that should be broadcast. -/
  controlMessage : ControlMessage
  /-- Direct messages that should be sent along. -/
  directMessages : List (Direct S)
  meUpdateSecret : Option Key := none

/-- The new state, and the output of what was processed. -/
abbrev Processed (S : Suite) := DcgkaState S × ProcessOutput S

/-- The new state, and the output of a local operation. -/
abbrev Performed (S : Suite) := DcgkaState S × OperationOutput S

namespace Dcgka

open Prog

variable {S : Suite} (y : DcgkaState S)

abbrev Call (S : Suite) := Prog S.World DcgkaError

/-- New state with our own identity and keys. -/
def init (myId : PeerId) (myKeys : S.Keys) (pki : S.Pki) (dgm : MembershipState) :
    DcgkaState S where
  pki := pki
  myKeys := myKeys
  myId := myId
  nextSeed := none
  twoParty := ∅
  memberSecrets := ∅
  ratchet := ∅
  dgm := dgm

def memberView (viewer : PeerId) : HashSet PeerId :=
  Membership.membersView y.dgm viewer

def chainSecretFromWelcome : Key :=
  ⟨[168, 234, 241, 118, 147, 12, 137, 47, 48, 26, 61, 243, 183, 11, 158, 143, 99, 219, 142, 131,
    41, 18, 245, 167, 132, 195, 241, 26, 89, 106, 154, 134], rfl⟩

def chainSecretFromAdd : Key :=
  ⟨[58, 3, 204, 193, 45, 117, 68, 208, 41, 238, 11, 13, 169, 250, 180, 215, 22, 4, 43, 226, 179, 34,
    182, 188, 85, 49, 221, 39, 150, 98, 220, 156], rfl⟩

def keyTryFromBytes (bytes : Bytes) : Call S Key := okOr (Block.ofBytes? 32 bytes) .invalidKeySize

def identityKey (id : PeerId) : Call S Key := do
  let key ← (S.identityKey y.pki id).mapErr .identityRegistry
  okOr key (.missingIdentityKey id)

def hkdf (salt : String) (ikm : Bytes) : Call S Key := ofExcept .hkdf (S.hkdf 32 (utf8 salt) ikm)

/-! ### Two-party channels and ratchets -/

/-- Take the channel to a peer, initialised from a key bundle on first use. -/
def takeTwoParty (peer : PeerId) : Call S (DcgkaState S × S.TwoParty) :=
  match y.twoParty.lookup peer with
  | some channel => pure ({ y with twoParty := y.twoParty.erase peer }, channel)
  | none => do
    let (pki, bundle) ← (S.keyBundle y.pki peer).mapErr .preKeyRegistry
    let bundle ← okOr bundle (.missingPreKeys peer)
    pure ({ y with pki }, S.initTwoParty bundle)

def encryptTo (recipient : PeerId) (plaintext : Bytes) :
    Call S (DcgkaState S × S.TwoPartyMessage) := do
  let (y, channel) ← takeTwoParty y recipient
  let (channel, ciphertext) ← (S.send channel y.myKeys plaintext).mapErr .twoParty
  pure ({ y with twoParty := y.twoParty.insert recipient channel }, ciphertext)

def decryptFrom (sender : PeerId) (ciphertext : S.TwoPartyMessage) :
    Call S (DcgkaState S × Bytes) := do
  let (y, channel) ← takeTwoParty y sender
  let (channel, myKeys, plaintext) ← ofExcept .twoParty (S.receive channel y.myKeys ciphertext)
  pure ({ y with myKeys, twoParty := y.twoParty.insert sender channel }, plaintext)

/-- The next update secret of a member, derived from its outer ratchet. -/
def updateRatchet (member : PeerId) (memberSecret : Key) : Call S (DcgkaState S × Key) := do
  let identityKey ← identityKey y member
  -- mix in the previous outer chain secret if it exists
  let previous := ((y.ratchet.lookup member).map (·.1)).getD []
  let ikm := previous ++ memberSecret.1 ++ identityKey.1
  let updateSecret ← hkdf "update" ikm
  let next ← hkdf "chain" ikm
  pure ({ y with ratchet := y.ratchet.insert member next }, updateSecret)

/-- Encrypt the seed for one recipient, ourselves excluded. -/
def sendSeed (seed : Key) (acc : DcgkaState S × List (Direct S)) (recipient : PeerId) :
    Call S (DcgkaState S × List (Direct S)) :=
  if recipient = acc.1.myId then pure acc
  else do
    let (y, ciphertext) ← encryptTo acc.1 recipient seed.1
    pure (y, acc.2 ++ [⟨recipient, .twoParty ciphertext⟩])

/-- Generate a seed and encrypt it for every recipient. -/
def generateSeed (recipients : List PeerId) : Call S (DcgkaState S × List (Direct S)) := do
  let seed ← S.randomArray.mapErr .rng
  recipients.foldlM (sendSeed seed) ({ y with nextSeed := some seed }, [])

/-! ### Acknowledgements -/

/-- Advance the ratchet of the sender of an acknowledgement. -/
def finishAck (sender : PeerId) (secret : Key) : Call S (Processed S) := do
  let (y, updateSecret) ← updateRatchet y sender secret
  pure (y, { senderUpdateSecret := some updateSecret })

/-- Record an acknowledgement.  The condition requires an identifier that is an add and a remove
at once. -/
def recordAck (sender : PeerId) (ackSeq : OpId) : Call S MembershipState :=
  if Membership.isAdd y.dgm ackSeq ∧ Membership.isRemove y.dgm ackSeq ∧ sender ≠ y.myId then
    ofExcept .dgmOperation (Membership.ack y.dgm sender ackSeq)
  else pure y.dgm

def processAck (sender ackSender : PeerId) (ackSeq : OpId) (directMessage : Option (Direct S)) :
    Call S (Processed S) := do
  let dgm ← recordAck y sender ackSeq
  let memberSecret := y.memberSecrets.lookup (ackSender, ackSeq, sender)
  let y := { y with dgm, memberSecrets := y.memberSecrets.erase (ackSender, ackSeq, sender) }
  match memberSecret, directMessage with
  | none, none => pure (y, {})
  | some secret, _ => finishAck y sender secret
  | none, some ⟨recipient, .forward ciphertext⟩ =>
    if recipient ≠ y.myId then pure (y, {})
    else do
      let (y, plaintext) ← decryptFrom y sender ciphertext
      let secret ← keyTryFromBytes plaintext
      finishAck y sender secret
  | none, some dm => throw (.unexpectedDirectMessageType .forward dm.messageType)

/-- The ratchet state of the sender that comes with an "add-ack" for a new member. -/
def adoptRatchet (sender : PeerId) (directMessage : Option (Direct S)) : Call S (DcgkaState S) :=
  match directMessage with
  | none => pure y
  | some ⟨recipient, .forward ciphertext⟩ =>
    if recipient ≠ y.myId then throw (.notOurDirectMessage y.myId recipient)
    else do
      let (y, plaintext) ← decryptFrom y sender ciphertext
      let secret ← keyTryFromBytes plaintext
      pure { y with ratchet := y.ratchet.insert sender secret }
  | some dm => throw (.unexpectedDirectMessageType .forward dm.messageType)

def processAddAck (sender _ackSender : PeerId) (ackSeq : OpId) (directMessage : Option (Direct S)) :
    Call S (Processed S) := do
  let dgm ← ofExcept .dgmOperation (Membership.ack y.dgm sender ackSeq)
  let y ← adoptRatchet { y with dgm } sender directMessage
  -- we were not a member yet when a concurrent "add-ack" was sent
  if y.myId ∉ memberView y sender then pure (y, {})
  else do
    let (y, updateSecret) ← updateRatchet y sender chainSecretFromAdd
    pure (y, { senderUpdateSecret := some updateSecret })

/-! ### Seeds -/

/-- The seed of a control message: our own, or the one in the direct message; none if we are not
one of its recipients. -/
def obtainSeed (sender : PeerId) (recipients : List PeerId) (directMessage : Option (Direct S)) :
    Call S (Option (DcgkaState S × Key)) :=
  if sender = y.myId then
    match y.nextSeed with
    | none => throw (.panic "seed was generated before")
    | some seed => pure (some ({ y with nextSeed := none }, seed))
  else if y.myId ∈ recipients then
    match directMessage with
    | some ⟨recipient, .twoParty ciphertext⟩ =>
      if recipient ≠ y.myId then throw (.notOurDirectMessage y.myId recipient)
      else do
        let (y, plaintext) ← decryptFrom y sender ciphertext
        let seed ← keyTryFromBytes plaintext
        pure (some (y, seed))
    | some dm => throw (.unexpectedDirectMessageType .twoParty dm.messageType)
    | none => throw (.missingDirectMessage .twoParty)
  else pure none

/-- The secret of a member, derived from the seed and its identity key. -/
def memberSecret (seed : Key) (member : PeerId) : Call S Key := do
  let identityKey ← identityKey y member
  hkdf "update" (seed.1 ++ identityKey.1)

/-- Store the secret of a recipient until it acknowledges. -/
def storeSecret (seed : Key) (sender : PeerId) (seq : OpId) (y : DcgkaState S)
    (recipient : PeerId) : Call S (DcgkaState S) := do
  let secret ← memberSecret y seed recipient
  pure { y with memberSecrets := y.memberSecrets.insert (sender, seq, recipient) secret }

/-- Forward our member secret to a member the sender did not know yet. -/
def forwardSecret (sender : PeerId) (seq : OpId)
    (acc : DcgkaState S × List (Direct S)) (member : PeerId) :
    Call S (DcgkaState S × List (Direct S)) := do
  let secret ← okOr (acc.1.memberSecrets.lookup (sender, seq, acc.1.myId))
    (.missingMemberSecret sender seq)
  let (y, ciphertext) ← encryptTo acc.1 member secret.1
  pure (y, acc.2 ++ [⟨member, .forward ciphertext⟩])

/-- Acknowledge a seed received from another member. -/
def answerSeed (sender : PeerId) (seq : OpId) (recipients : List PeerId)
    (senderUpdateSecret : Key) : Call S (Processed S) := do
  let members := (memberView y y.myId).keys.filter fun m => m ≠ sender ∧ m ∉ recipients
  let (y, forwardMessages) ← members.foldlM (forwardSecret sender seq) (y, [])
  let (y, output) ← processAck y y.myId sender seq none
  pure (y, {
    controlMessage := some (.ack sender seq)
    directMessages := forwardMessages
    senderUpdateSecret := some senderUpdateSecret
    meUpdateSecret := output.senderUpdateSecret })

/-- Handle the next seed of the group. -/
def processSeed (sender : PeerId) (seq : OpId) (directMessage : Option (Direct S)) :
    Call S (Processed S) := do
  let recipients := (memberView y sender).keys.filter fun m => m ≠ sender
  match ← obtainSeed y sender recipients directMessage with
  | none => pure (y, { controlMessage := some (.ack sender seq) })
  | some (y, seed) => do
    let y ← recipients.foldlM (storeSecret seed sender seq) y
    let secret ← memberSecret y seed sender
    let (y, senderUpdateSecret) ← updateRatchet y sender secret
    if sender = y.myId then pure (y, { senderUpdateSecret := some senderUpdateSecret })
    else answerSeed y sender seq recipients senderUpdateSecret

/-! ### Processing control messages -/

def processCreate (sender : PeerId) (seq : OpId) (initialMembers : List PeerId)
    (directMessage : Option (Direct S)) : Call S (Processed S) :=
  processSeed { y with dgm := Membership.create y.myId initialMembers } sender seq directMessage

def processRemove (sender : PeerId) (seq : OpId) (removed : PeerId)
    (directMessage : Option (Direct S)) : Call S (Processed S) := do
  let dgm ← ofExcept .dgmOperation (Membership.remove y.dgm sender removed seq)
  processSeed { y with dgm } sender seq directMessage

/-- Join a group with the history and ratchet state of the member that added us. -/
def processWelcome (sender : PeerId) (seq : OpId) (history : MembershipState)
    (ciphertext : S.TwoPartyMessage) : Call S (Processed S) := do
  let dgm := Membership.fromWelcome y.dgm history
  let y := { y with dgm := Membership.add dgm sender y.myId seq }
  let (y, plaintext) ← decryptFrom y sender ciphertext
  let secret ← keyTryFromBytes plaintext
  let y := { y with ratchet := y.ratchet.insert sender secret }
  let (y, secret) ← updateRatchet y sender chainSecretFromWelcome
  let y := { y with memberSecrets := y.memberSecrets.insert (sender, seq, y.myId) secret }
  let (y, senderUpdateSecret) ← updateRatchet y sender chainSecretFromAdd
  let (y, output) ← processAck y y.myId sender seq none
  let meUpdateSecret ← okOr output.senderUpdateSecret
    (.panic "sender update secret from process_ack")
  pure (y, {
    controlMessage := some (.ack sender seq)
    senderUpdateSecret := some senderUpdateSecret
    meUpdateSecret := some meUpdateSecret })

/-- Advance the ratchet of the sender of an "add" twice; nothing if we were not a member yet. -/
def ratchetAdd (sender : PeerId) (seq : OpId) (added : PeerId) :
    Call S (DcgkaState S × Option Key) :=
  if y.myId ∉ memberView y sender then pure (y, none)
  else do
    let (y, secret) ← updateRatchet y sender chainSecretFromWelcome
    let y := { y with memberSecrets := y.memberSecrets.insert (sender, seq, added) secret }
    let (y, updateSecret) ← updateRatchet y sender chainSecretFromAdd
    pure (y, some updateSecret)

/-- Acknowledge an "add" of another member with our ratchet state for the added one. -/
def answerAdd (sender : PeerId) (seq : OpId) (added : PeerId) (senderUpdateSecret : Option Key) :
    Call S (Processed S) := do
  let secret ← okOr (y.ratchet.lookup y.myId) .missingRatchetSecret
  let (y, ciphertext) ← encryptTo y added secret.1
  let (y, output) ← processAddAck y y.myId sender seq none
  pure (y, {
    controlMessage := some (.addAck sender seq)
    directMessages := [⟨added, .forward ciphertext⟩]
    senderUpdateSecret := senderUpdateSecret
    meUpdateSecret := output.senderUpdateSecret })

def processAdd (sender : PeerId) (seq : OpId) (added : PeerId) (directMessage : Option (Direct S)) :
    Call S (Processed S) :=
  if added = y.myId then
    match directMessage with
    | some ⟨recipient, .welcome ciphertext history⟩ =>
      if recipient ≠ y.myId then throw (.notOurDirectMessage y.myId recipient)
      else processWelcome y sender seq history ciphertext
    | some dm => throw (.unexpectedDirectMessageType .welcome dm.messageType)
    | none => throw (.missingDirectMessage .welcome)
  else do
    let y := { y with dgm := Membership.add y.dgm sender added seq }
    let (y, senderUpdateSecret) ← ratchetAdd y sender seq added
    if sender = y.myId then pure (y, { senderUpdateSecret })
    else answerAdd y sender seq added senderUpdateSecret

/-- Handler for a control message from the network. -/
def processRemote (seq : OpId) (sender : PeerId) (control : ControlMessage)
    (directMessage : Option (Direct S)) : Call S (Processed S) :=
  if sender = y.myId then throw (.panic "do not process own control messages")
  else
    match control with
    | .create initialMembers => processCreate y sender seq initialMembers directMessage
    | .ack ackSender ackSeq => processAck y sender ackSender ackSeq directMessage
    | .update => processSeed y sender seq directMessage
    | .remove removed => processRemove y sender seq removed directMessage
    | .add added => processAdd y sender seq added directMessage
    | .addAck ackSender ackSeq => processAddAck y sender ackSender ackSeq directMessage

/-- Process the control message of a local operation under our own identity. -/
def processOwn (seq : OpId) : ControlMessage → Call S (Processed S)
  | .create initialMembers => processCreate y y.myId seq initialMembers none
  | .update => processSeed y y.myId seq none
  | .remove removed => processRemove y y.myId seq removed none
  | .add added => processAdd y y.myId seq added none
  | .ack .. | .addAck .. => throw
    (.panic "only call process_local after local create, update, remove or add operations")

/-- Handler called after every local membership operation. -/
def processLocal (seq : OpId) (input : OperationOutput S) : Call S (Performed S) := do
  let (y, output) ← processOwn y seq input.controlMessage
  require (output.controlMessage = none) (.panic "output.control_message.is_none()")
  require (output.directMessages.isEmpty) (.panic "output.direct_messages.is_empty()")
  let secret ← okOr output.senderUpdateSecret (.panic "output.sender_update_secret.unwrap()")
  pure (y, { input with meUpdateSecret := some secret })

/-! ### Local operations -/

/-- Create a group with the given members and ourselves. -/
def create (initialMembers : List PeerId) : Call S (Performed S) := do
  let members := initialMembers.foldl (fun acc id => if id ∈ acc then acc else acc ++ [id]) []
  let members := if y.myId ∈ members then members else members ++ [y.myId]
  let (y, directMessages) ← generateSeed y members
  pure (y, { controlMessage := .create members, directMessages })

/-- Generate a new seed for the group. -/
def update : Call S (Performed S) := do
  let recipients := (memberView y y.myId).keys.filter fun m => m ≠ y.myId
  let (y, directMessages) ← generateSeed y recipients
  pure (y, { controlMessage := .update, directMessages })

/-- Remove a member, with a new seed for the remaining members. -/
def remove (removed : PeerId) : Call S (Performed S) := do
  let recipients := (memberView y y.myId).keys.filter fun m => m ≠ y.myId ∧ m ≠ removed
  let (y, directMessages) ← generateSeed y recipients
  pure (y, { controlMessage := .remove removed, directMessages })

/-- Add a member: send it our ratchet state and the history of the group. -/
def add (added : PeerId) : Call S (Performed S) := do
  let secret ← okOr (y.ratchet.lookup y.myId) .missingRatchetSecret
  let (y, ciphertext) ← encryptTo y added secret.1
  pure (y, {
    controlMessage := .add added
    directMessages := [⟨added, .welcome ciphertext y.dgm⟩] })

/-! ### What a call leaves unchanged -/

/-- The identity and the members are the same in both states. -/
structure SameView (y y' : DcgkaState S) : Prop where
  myId : y'.myId = y.myId
  members : y'.dgm.members = y.dgm.members

/-- The identity, the owner, the members and their roles are the same in both states. -/
structure SameRoles (y y' : DcgkaState S) : Prop where
  myId : y'.myId = y.myId
  dgm : y.dgm.SameRoles y'.dgm

namespace SameRoles

variable {y}

theorem rfl : SameRoles y y := ⟨Eq.refl _, .rfl⟩

theorem trans {y' y'' : DcgkaState S} (h : SameRoles y y') (h' : SameRoles y' y'') :
    SameRoles y y'' := ⟨h'.myId.trans h.myId, h.dgm.trans h'.dgm⟩

theorem sameView {y' : DcgkaState S} (h : SameRoles y y') : SameView y y' :=
  ⟨h.myId, h.dgm.members⟩

end SameRoles

theorem takeTwoParty_sameRoles {peer : PeerId} :
    Ensures (takeTwoParty y peer) fun r => SameRoles y r.1 := by
  unfold takeTwoParty
  split
  · exact .pure ⟨rfl, .rfl⟩
  · exact .andThen fun _ => .andThen fun _ => .pure ⟨rfl, .rfl⟩

theorem encryptTo_sameRoles (recipient : PeerId) (text : Bytes) :
    Ensures (encryptTo y recipient text) fun r => SameRoles y r.1 :=
  .bind (takeTwoParty_sameRoles y) fun _ h => .andThen fun _ => .pure ⟨h.myId, h.dgm⟩

theorem decryptFrom_sameRoles {sender : PeerId} {ct : S.TwoPartyMessage} :
    Ensures (decryptFrom y sender ct) fun r => SameRoles y r.1 :=
  .bind (takeTwoParty_sameRoles y) fun _ h => .andThen fun _ => .pure ⟨h.myId, h.dgm⟩

theorem updateRatchet_sameRoles {member : PeerId} {secret : Key} :
    Ensures (updateRatchet y member secret) fun r => SameRoles y r.1 :=
  .andThen fun _ => .andThen fun _ => .andThen fun _ => .pure ⟨rfl, .rfl⟩

theorem generateSeed_sameRoles (re : List PeerId) :
    Ensures (generateSeed y re) fun r => SameRoles y r.1 := by
  refine .andThen fun seed => .foldlM (fun acc recipient h => ?_) re ⟨rfl, .rfl⟩
  unfold sendSeed
  split_ifs
  · exact .pure h
  · exact .bind (encryptTo_sameRoles acc.1 recipient seed.1) fun _ h' => .pure (h.trans h')

variable {dm : Option (Direct S)}

theorem obtainSeed_sameRoles {sender : PeerId} {re : List PeerId} :
    Ensures (obtainSeed y sender re dm) fun r => ∀ p ∈ r, SameRoles y p.1 := by
  unfold obtainSeed
  split_ifs
  · split
    · exact .throw _
    · exact .pure (by rintro _ ⟨⟩; exact ⟨rfl, .rfl⟩)
  · split
    · split_ifs
      · exact .throw _
      · refine .bind (decryptFrom_sameRoles y) fun p hp => .andThen fun seed => .pure ?_
        rintro _ ⟨⟩
        exact hp
    · exact .throw _
    · exact .throw _
  · exact .pure (by rintro _ ⟨⟩)

theorem storeSecrets_sameRoles (seed : Key) (sender : PeerId) (seq : OpId) (re : List PeerId) :
    Ensures (re.foldlM (storeSecret seed sender seq) y) (SameRoles y) :=
  .foldlM (fun _ _ h => .andThen fun _ => .pure ⟨h.myId, h.dgm⟩) re .rfl

variable {added : PeerId}

theorem ratchetAdd_sameRoles {sender : PeerId} {seq : OpId} :
    Ensures (ratchetAdd y sender seq added) fun r => SameRoles y r.1 := by
  unfold ratchetAdd
  split
  · exact .pure .rfl
  · refine .bind (updateRatchet_sameRoles y) fun p hp => ?_
    refine .bind (updateRatchet_sameRoles _) fun q hq => .pure ?_
    exact hp.trans ⟨hq.myId, hq.dgm⟩

theorem adoptRatchet_sameRoles (sender : PeerId) (dm : Option (Direct S)) :
    Ensures (adoptRatchet y sender dm) (SameRoles y) := by
  unfold adoptRatchet
  split
  · exact .pure .rfl
  · split_ifs
    · exact .throw _
    · exact .bind (decryptFrom_sameRoles y) fun p hp => .andThen fun _ =>
        .pure ⟨hp.myId, hp.dgm⟩
  · exact .throw _

/-! ### Answers -/

/-- The outcome of processing an acknowledgement: no answer, and the same members. -/
def Acknowledged (y : DcgkaState S) (r : Processed S) : Prop :=
  SameView y r.1 ∧ r.2.controlMessage = none

/-- There is no answer, and the members have the same roles. -/
def Recorded (y : DcgkaState S) (r : Processed S) : Prop :=
  SameRoles y r.1 ∧ r.2.controlMessage = none

variable {y} {r : Processed S}

theorem Recorded.acknowledged (h : Recorded y r) : Acknowledged y r := ⟨h.1.sameView, h.2⟩

theorem SameRoles.trans_recorded {y' : DcgkaState S} (h : SameRoles y y') (h' : Recorded y' r) :
    Recorded y r := ⟨h.trans h'.1, h'.2⟩

section

variable (y)

theorem finishAck_recorded {sender : PeerId} {secret : Key} :
    Ensures (finishAck y sender secret) (Recorded y) :=
  .bind (updateRatchet_sameRoles y) fun _ h => .pure ⟨h, rfl⟩

theorem recordAck_sameRoles {sender : PeerId} {ackSeq : OpId} :
    Ensures (recordAck y sender ackSeq) fun dgm => y.dgm.SameRoles dgm := by
  unfold recordAck
  split_ifs
  · exact .ofExcept fun _ h => Membership.sameRoles_ack h
  · exact .pure .rfl

theorem processAck_recorded {sender a : PeerId} {ac : OpId} {dm : Option (Direct S)} :
    Ensures (processAck y sender a ac dm) (Recorded y) := by
  refine .bind (recordAck_sameRoles y) fun dgm hd => ?_
  generalize hz : ({ y with
    dgm, memberSecrets := y.memberSecrets.erase (a, ac, sender) } : DcgkaState S) = z
  have hs : SameRoles y z := hz ▸ ⟨rfl, hd⟩
  dsimp only
  split
  · exact .pure ⟨hs, rfl⟩
  · exact (finishAck_recorded z).mono fun _ h => hs.trans_recorded h
  · split_ifs
    · exact .pure ⟨hs, rfl⟩
    · refine .bind (decryptFrom_sameRoles z) fun p hp => .andThen fun secret => ?_
      exact (finishAck_recorded _).mono fun _ h => (hs.trans hp).trans_recorded h
  · exact .throw _

theorem processAddAck_recorded (sender a : PeerId) (ackSeq : OpId) (dm : Option (Direct S)) :
    Ensures (processAddAck y sender a ackSeq dm) (Recorded y) := by
  refine .bind (.ofExcept fun _ h => Membership.sameRoles_ack h) fun dgm hd => ?_
  refine .bind (adoptRatchet_sameRoles { y with dgm } sender dm) fun z hz => ?_
  have hs : SameRoles y z := ⟨hz.myId, hd.trans hz.dgm⟩
  split
  · exact .pure ⟨hs, rfl⟩
  · exact .bind (updateRatchet_sameRoles z) fun p hp => .pure ⟨hs.trans hp, rfl⟩

/-- An acknowledgement is never answered, and leaves the members as they are. -/
theorem processRemote_of_isAck (seq : OpId) (sender : PeerId) {ctl : ControlMessage}
    (dm : Option (Direct S)) (h : ctl.isAck) :
    Ensures (processRemote y seq sender ctl dm) (Acknowledged y) := by
  unfold processRemote
  split_ifs
  · exact .throw _
  · cases ctl with
    | ack a ac =>
      exact (processAck_recorded y).mono fun _ => Recorded.acknowledged
    | addAck a ac =>
      exact (processAddAck_recorded y sender a ac dm).mono fun _ => Recorded.acknowledged
    | create _ | update | remove _ | add _ => cases h

end

def AnswersAck (r : Processed S) : Prop :=
  ∀ control, r.2.controlMessage = some control → control.isAck

/-- The outcome has a control message to broadcast. -/
def Answered (r : Processed S) : Prop := r.2.controlMessage.isSome

/-- Only acknowledgements are sent in answer, and another member is answered. -/
def Replies (y : DcgkaState S) (sender : PeerId) (r : Processed S) : Prop :=
  AnswersAck r ∧ (sender ≠ y.myId → Answered r)

variable {sender : PeerId}

theorem Replies.of_ack {ctl : ControlMessage} (hc : r.2.controlMessage = some ctl)
    (h : ctl.isAck) : Replies y sender r := by
  refine ⟨fun ctl' hc' => ?_, fun _ => ?_⟩
  · rwa [← Option.some.inj (hc.symm.trans hc')]
  · rw [Answered, hc]
    rfl

theorem Replies.of_own (hc : r.2.controlMessage = none) (h : sender = y.myId) :
    Replies y sender r := by
  refine ⟨fun ctl hctl => ?_, fun hne => absurd h hne⟩
  rw [hc] at hctl
  cases hctl

theorem Acknowledged.answersAck (h : Acknowledged y r) : AnswersAck r := by
  intro ctl hc
  rw [h.2] at hc
  cases hc

theorem processSeed_replies {seq : OpId} :
    Ensures (processSeed y sender seq dm) (Replies y sender) := by
  refine .bind (obtainSeed_sameRoles y) fun r hr => ?_
  cases r with
  | none => exact .pure (.of_ack rfl rfl)
  | some p =>
    obtain ⟨z, seed⟩ := p
    have hz : SameRoles y z := hr _ rfl
    refine .bind (storeSecrets_sameRoles z seed sender seq _) fun z' hz' => ?_
    refine .andThen fun secret => ?_
    refine .bind (updateRatchet_sameRoles z') fun q hq => ?_
    have hid : q.1.myId = y.myId := ((hz.trans hz').trans hq).myId
    dsimp only
    split_ifs with he
    · exact .pure (.of_own rfl (he.trans hid))
    · exact .andThen fun _ => .andThen fun _ => .pure (.of_ack rfl rfl)

theorem processAdd_replies {seq : OpId} :
    Ensures (processAdd y sender seq added dm) (Replies y sender) := by
  unfold processAdd
  split_ifs
  · split
    · split_ifs
      · exact .throw _
      · exact .andThen fun _ => .andThen fun _ => .andThen fun _ => .andThen fun _ =>
          .andThen fun _ => .andThen fun _ => .pure (.of_ack rfl rfl)
    · exact .throw _
    · exact .throw _
  · refine .bind (ratchetAdd_sameRoles _) fun p hp => ?_
    dsimp only
    split_ifs with he
    · exact .pure (.of_own rfl (he.trans hp.myId))
    · exact .andThen fun _ => .andThen fun _ => .andThen fun _ => .pure (.of_ack rfl rfl)

/-- Every control message but an acknowledgement is replied to. -/
theorem processRemote_replies {seq : OpId} {ctl : ControlMessage} (h : ¬ ctl.isAck) :
    Ensures (processRemote y seq sender ctl dm) (Replies y sender) := by
  unfold processRemote
  split_ifs
  · exact .throw _
  · cases ctl with
    | create members =>
      exact processSeed_replies (y := { y with dgm := Membership.create y.myId members })
    | update => exact processSeed_replies
    | remove removed =>
      exact .andThen fun dgm => processSeed_replies (y := { y with dgm })
    | add added => exact processAdd_replies
    | ack _ _ | addAck _ _ => exact absurd rfl h

/-- Whatever is received, only acknowledgements are sent in answer. -/
theorem processRemote_answersAck {seq : OpId} {ctl : ControlMessage} :
    Ensures (processRemote y seq sender ctl dm) AnswersAck := by
  by_cases h : ctl.isAck
  · exact (processRemote_of_isAck y seq sender dm h).mono fun _ h => h.answersAck
  · exact (processRemote_replies h).mono fun _ h => h.1

/-- Every control message of another member that is not an acknowledgement is answered. -/
theorem processRemote_of_not_isAck (y : DcgkaState S) (seq : OpId) (sender : PeerId)
    {ctl : ControlMessage} (dm : Option (Direct S)) (h : ¬ ctl.isAck) :
    Ensures (processRemote y seq sender ctl dm) Answered := by
  by_cases hne : sender = y.myId
  · unfold processRemote
    rw [if_pos hne]
    exact .throw _
  · exact (processRemote_replies h).mono fun _ h => h.2 hne

end Dcgka

end Boru.GroupEncryption
