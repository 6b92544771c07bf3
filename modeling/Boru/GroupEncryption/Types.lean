import Boru.Collections.HashMap
import Boru.Proto.Types

/-!
# Identities, roles and envelopes of encrypted groups

The data that group encryption exchanges with its peers.  An `EncryptedGroupEnvelope` carries a
control message of the group key agreement or an encrypted application message.  Its identifier is
the hash of the content alone: neither the sender nor the direct messages enter it.
-/

namespace Boru.GroupEncryption

/-- A peer identifier: the 32 bytes of its public key. -/
structure PeerId where
  /-- The bytes, most significant first. -/
  bits : BitVec 256
  deriving DecidableEq

/-- An operation identifier: a 32-byte hash. -/
structure OpId where
  /-- The bytes, most significant first. -/
  bits : BitVec 256
  deriving DecidableEq

/-- A group identifier: 32 random bytes. -/
structure GroupId where
  /-- The bytes, most significant first. -/
  bits : BitVec 256
  deriving DecidableEq

def GroupId.debug (g : GroupId) : String := "GroupId(\"" ++ g.bits.toHex ++ "\")"

def PeerId.debug (p : PeerId) : String := "PeerId(\"" ++ p.bits.toHex ++ "\")"

/-- Arrays of `n` bytes. -/
abbrev Block (n : ℕ) := { bytes : Bytes // bytes.length = n }

/-- `try_into`: a byte string of the right length as an array. -/
def Block.ofBytes? (n : ℕ) (bytes : Bytes) : Option (Block n) :=
  if h : bytes.length = n then some ⟨bytes, h⟩ else none

/-- Arrays of equal bytes. -/
def Block.replicate (n : ℕ) (b : UInt8) : Block n := ⟨List.replicate n b, List.length_replicate⟩

/-- 256-bit secrets and public keys. -/
abbrev Key := Block 32

/-- An error of a library, known by its message. -/
structure Failure where
  message : String
  deriving DecidableEq

/-! ### Roles -/

/-- Membership role of a peer in a group. -/
inductive MemberRole where
  /-- Group owner or administrator: manages membership and can write. -/
  | admin
  | writer
  /-- Read-only member: cannot write messages. -/
  | reader
  deriving DecidableEq

abbrev Roles := HashMap PeerId MemberRole

/-- Whether this role is permitted to send messages. -/
def MemberRole.canWrite : MemberRole → Bool
  | .admin | .writer => true
  | .reader => false

/-- Whether this role is permitted to manage membership. -/
def MemberRole.canManage : MemberRole → Bool
  | .admin => true
  | .writer | .reader => false

/-! ### Envelopes -/

/-- Control messages of the group key agreement. -/
inductive ControlMessage where
  | create (initialMembers : List PeerId)
  | ack (ackSender : PeerId) (ackSeq : OpId)
  | update
  | remove (removed : PeerId)
  | add (added : PeerId)
  | addAck (ackSender : PeerId) (ackSeq : OpId)
  deriving DecidableEq

/-- Whether the control message only acknowledges another one. -/
def ControlMessage.isAck : ControlMessage → Bool
  | .ack .. | .addAck .. => true
  | .create _ | .update | .remove _ | .add _ => false

/-- The content of a group message: a control message, or an encrypted payload with the ratchet
generation used. -/
inductive EncryptedGroupContent where
  | control (message : ControlMessage)
  | application (ciphertext : Bytes) (generation : UInt32)
  deriving DecidableEq

/-- A self-contained encrypted group message. -/
structure EncryptedGroupEnvelope where
  /-- Unique identifier, the hash of the content. -/
  id : OpId
  sender : PeerId
  content : EncryptedGroupContent
  /-- Serialised direct messages for key delivery. -/
  directMessages : List Bytes
  deriving DecidableEq

namespace EncryptedGroupEnvelope

def newControl (contentId : EncryptedGroupContent → OpId) (sender : PeerId)
    (control : ControlMessage) (directMessages : List Bytes) : EncryptedGroupEnvelope :=
  ⟨contentId (.control control), sender, .control control, directMessages⟩

/-- A new envelope carrying an encrypted application message. -/
def newApplication (contentId : EncryptedGroupContent → OpId) (sender : PeerId) (ciphertext : Bytes)
    (generation : UInt32) (directMessages : List Bytes) :
    EncryptedGroupEnvelope :=
  ⟨contentId (.application ciphertext generation), sender, .application ciphertext generation,
    directMessages⟩

/-- Whether the envelope carries an application message. -/
def isApplication (m : EncryptedGroupEnvelope) : Bool :=
  match m.content with
  | .application .. => true
  | .control _ => false

def isAck (m : EncryptedGroupEnvelope) : Bool :=
  match m.content with
  | .application .. => false
  | .control c => c.isAck

end EncryptedGroupEnvelope

end Boru.GroupEncryption
