import Boru.GroupEncryption.Types

/-!
# Mailbox envelopes and acknowledgements

A mailbox holds encrypted envelopes for their recipients.  The current format of an envelope signs
every field; the old one does not sign the time of creation.  The recipient signs an acknowledgement
of each envelope.

Hashes, signatures and ciphers are a parameter, `MailboxCrypto`.
-/

namespace Boru

open GroupEncryption (Key Block Failure)

abbrev PublicKey := Key

/-- Public encryption identity advertised by a recipient. -/
structure MailboxPublicKey where
  /-- Identity key used to authenticate envelopes and acknowledgements. -/
  identity : PublicKey
  /-- X25519 public key used for envelope encryption. -/
  encryption : Key
  deriving DecidableEq

/-- Recipient-side mailbox identity. -/
structure MailboxIdentity where
  identity : PublicKey
  secret : Key

/-! ### Envelopes -/

structure MailboxEnvelopeV1 where
  /-- Authenticated sender identity (`from`). -/
  sender : PublicKey
  /-- Recipient identity and encryption key. -/
  recipient : MailboxPublicKey
  /-- Ephemeral X25519 public key for this envelope. -/
  ephemeral : Key
  nonce : Block 12
  /-- Ciphertext including the AEAD tag. -/
  ciphertext : Bytes
  /-- Creation time, not covered by the signature. -/
  createdAt : UInt64
  /-- Sender signature over the other fields up to the ciphertext. -/
  signature : Block 64
  deriving DecidableEq

structure MailboxEnvelopeV2 where
  version : UInt32
  /-- Authenticated sender identity (`from`). -/
  sender : PublicKey
  /-- Recipient identity and encryption key. -/
  recipient : MailboxPublicKey
  /-- Ephemeral X25519 public key for this envelope. -/
  ephemeral : Key
  nonce : Block 12
  /-- Ciphertext including the AEAD tag. -/
  ciphertext : Bytes
  createdAt : UInt64
  /-- Sender signature over all preceding fields. -/
  signature : Block 64
  deriving DecidableEq

/-- An encrypted, signed mailbox entry. -/
inductive MailboxEnvelope where
  | v1 (e : MailboxEnvelopeV1)
  | v2 (e : MailboxEnvelopeV2)
  deriving DecidableEq

def envelopeVersionV2 : UInt32 := 2

namespace MailboxEnvelope

/-- Authenticated sender identity (`from`). -/
def sender : MailboxEnvelope → PublicKey
  | .v1 e => e.sender
  | .v2 e => e.sender

/-- Recipient identity and encryption key. -/
def recipient : MailboxEnvelope → MailboxPublicKey
  | .v1 e => e.recipient
  | .v2 e => e.recipient

def ephemeral : MailboxEnvelope → Key
  | .v1 e => e.ephemeral
  | .v2 e => e.ephemeral

def nonce : MailboxEnvelope → Block 12
  | .v1 e => e.nonce
  | .v2 e => e.nonce

/-- Ciphertext including the AEAD tag. -/
def ciphertext : MailboxEnvelope → Bytes
  | .v1 e => e.ciphertext
  | .v2 e => e.ciphertext

def createdAt : MailboxEnvelope → UInt64
  | .v1 e => e.createdAt
  | .v2 e => e.createdAt

def signature : MailboxEnvelope → Block 64
  | .v1 e => e.signature
  | .v2 e => e.signature

end MailboxEnvelope

/-! ### Acknowledgements -/

/-- A recipient-signed acknowledgement for one envelope. -/
structure MailboxAck where
  version : UInt32
  /-- Identifier of the envelope, in hexadecimal. -/
  messageId : String
  originalSender : PublicKey
  recipient : PublicKey
  acknowledgedAtMs : UInt64
  status : Option String
  signature : Block 64
  deriving DecidableEq

def acknowledgementVersion : UInt32 := 1

namespace MailboxAck

/-- Verify an acknowledgement against the expected recipient. -/
def verify (signed : MailboxAck → Bool) (expected : PublicKey) (ack : MailboxAck) :
    Except Failure Unit :=
  if ack.version ≠ acknowledgementVersion then
    .error ⟨"unsupported mailbox acknowledgement version " ++ toString ack.version⟩
  else if ack.recipient ≠ expected then .error ⟨"mailbox acknowledgement signer mismatch"⟩
  else if ack.status ≠ some "accepted" then
    .error ⟨"mailbox acknowledgement does not confirm acceptance"⟩
  else if ¬ signed ack then .error ⟨"verify mailbox acknowledgement"⟩
  else .ok ()

end MailboxAck

/-! ### Cryptography -/

/-- The cryptography and the encodings the mailbox depends on. -/
structure MailboxCrypto where
  /-- The identifier of an envelope: the hash of what its signature covers, in hexadecimal. -/
  messageId : MailboxEnvelope → String
  fingerprint : MailboxEnvelope → Key
  encodedLen : MailboxEnvelope → Option ℕ
  /-- Whether the signature of an envelope is its sender's. -/
  signed : MailboxEnvelope → Bool
  /-- The public key of an X25519 secret. -/
  encryptionKey : Key → Key
  decrypt : MailboxIdentity → MailboxEnvelope → Except Failure Bytes
  /-- Whether the signature of an acknowledgement is its recipient's. -/
  ackSigned : MailboxAck → Bool

namespace MailboxCrypto

/-- The public key that senders need to seal envelopes. -/
def publicKey (C : MailboxCrypto) (identity : MailboxIdentity) : MailboxPublicKey :=
  ⟨identity.identity, C.encryptionKey identity.secret⟩

def verifySignature (C : MailboxCrypto) (e : MailboxEnvelope) : Except Failure Unit :=
  match e with
  | .v1 _ =>
    if C.signed e then .ok () else .error ⟨"verify mailbox envelope signature: signature error"⟩
  | .v2 e₂ =>
    if e₂.version ≠ envelopeVersionV2 then
      .error ⟨"unsupported mailbox envelope version " ++ toString e₂.version⟩
    else if C.signed e then .ok ()
    else .error ⟨"verify mailbox envelope signature: signature error"⟩

end MailboxCrypto

end Boru
