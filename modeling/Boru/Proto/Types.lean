import Mathlib.Data.Finset.Basic
import Boru.Collections.HashMap

/-!
# Data shared by the protocol layers

Both layers of the protocol are generic over the identity of a peer.  Byte strings are lists of
bytes, and instants and durations are natural numbers of one unit.
-/

namespace Boru

abbrev Bytes := List UInt8

abbrev Instant := ℕ

abbrev Duration := ℕ

/-- Opaque binary data that is transmitted on messages that introduce new peers. -/
structure PeerData where
  /-- The bytes as the application supplied them. -/
  bytes : Bytes
  deriving DecidableEq

/-- A peer's identifier and the opaque data it provided. -/
structure PeerInfo (PI : Type) where
  id : PI
  data : Option PeerData
  deriving DecidableEq

structure Gossip.TopicId where
  bits : BitVec 256
  deriving DecidableEq

end Boru
