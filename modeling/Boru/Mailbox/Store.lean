import Mathlib.Data.String.Basic
import Boru.Prog.Basic
import Boru.Integers
import Boru.Mailbox.Types

/-!
# The mailbox store

Envelopes that wait for their recipients.  An incoming envelope is accepted if it is authentic, from
an allowed sender and neither expired nor from the future; it is kept until it is acknowledged or
expires.  What was accepted is remembered by its identifier, with the time it was accepted and its
hash, so that a replay is recognised after the acknowledgement.

The methods read the clock; the readings are arguments (`now`, and `later` where there is a second
one).  A file holds a store as `save` leaves it.

## Main results

* `MailboxStore.wp_acceptIncomingWithStatus` : what accepting an envelope does.
* `MailboxStore.lookup_expire_dedup` : what expiry forgets.
* `MailboxStore.mem_sorted`, `MailboxStore.pairwise_sorted` : what is served, and in which order.
* `MailboxStore.fillPage_eq_take` : a page is the first 64 envelopes, if they are small enough.
-/

namespace Boru

open GroupEncryption (Key Failure)

open Prog

/-- Maximum allowed forward clock skew of an envelope. -/
def maxFutureSkewMs : UInt64 := 60000

/-- Default retention period in milliseconds. -/
def defaultMailboxTtl : UInt64 := 604800000

def maxSyncEnvelopes : ℕ := 64

/-- Maximum number of encoded bytes in a page. -/
def maxSyncResponseBytes : ℕ := 512 * 1024

/-- How far back a page may go. -/
def maxSyncLookback : UInt64 := defaultMailboxTtl

def mailboxSchemaVersion : UInt32 := 1

/-- The outcome of accepting an envelope. -/
inductive IncomingAcceptance where
  /-- The envelope was newly retained. -/
  | inserted
  /-- The envelope was already retained and was not inserted again. -/
  | duplicate

/-- Validate authorization, recipient identity, signature and retention of an envelope. -/
def MailboxEnvelope.validateFor (C : MailboxCrypto) (identity : MailboxIdentity)
    (allowedSenders : List PublicKey) (ttl now : UInt64) (e : MailboxEnvelope) :
    Except Failure Bytes := do
  C.verifySignature e
  if e.sender ∉ allowedSenders then .error ⟨"mailbox sender is not authorized"⟩
  else if e.recipient ≠ C.publicKey identity then
    .error ⟨"mailbox envelope is addressed to another recipient"⟩
  else if saturatingAdd now maxFutureSkewMs < e.createdAt ∨
      ttl < saturatingSub now e.createdAt then
    .error ⟨"mailbox envelope is expired or from the future"⟩
  else C.decrypt identity e

structure MailboxStore where
  schemaVersion : UInt32
  recipient : Option PublicKey
  /-- The retained envelopes, by their identifiers. -/
  entries : HashMap String MailboxEnvelope
  /-- Replay evidence: when an envelope was accepted, and its hash. -/
  dedup : HashMap String (UInt64 × Key)
  /-- The retention period in milliseconds. -/
  ttl : UInt64

namespace MailboxStore

def emptyAt : MailboxStore := ⟨mailboxSchemaVersion, none, ∅, ∅, defaultMailboxTtl⟩

/-- A mailbox with a custom retention period. -/
def withTtl (ttl : UInt64) : MailboxStore := { emptyAt with ttl }

/-- Remove expired entries and replay evidence. -/
def expire (now : UInt64) (s : MailboxStore) : MailboxStore :=
  let cutoff := saturatingSub now s.ttl
  { s with
    entries := s.entries.retain fun e => if cutoff < e.createdAt then some e else none
    dedup := s.dedup.retain fun d => if cutoff < d.1 then some d else none }

/-- The file that is written: a copy without the expired entries. -/
def save (now : UInt64) (s : MailboxStore) : MailboxStore := s.expire now

/-- Load a mailbox from its file, if there is one.  The retention period is not part of the
file. -/
def load (file : Option MailboxStore) : Except Failure (Option MailboxStore) :=
  match file with
  | none => .ok none
  | some store =>
    if store.schemaVersion ≠ mailboxSchemaVersion then
      .error ⟨"unsupported mailbox schema version " ++ toString store.schemaVersion⟩
    else .ok (some { store with ttl := defaultMailboxTtl })

variable (C : MailboxCrypto)

/-- Enqueue an authenticated envelope from an allowed sender. -/
def enqueue (envelope : MailboxEnvelope) (allowedSenders : List PublicKey) :
    Prog MailboxStore Failure String := do
  ofExcept id (C.verifySignature envelope)
  require (envelope.sender ∈ allowedSenders) ⟨"mailbox sender is not authorized"⟩
  let s ← get
  match s.recipient with
  | some recipient =>
    require (envelope.recipient.identity = recipient) ⟨"mailbox recipient mismatch"⟩
  | none => set { s with recipient := some envelope.recipient.identity }
  let id := C.messageId envelope
  let s ← get
  require (s.entries.lookup id = none) ⟨"duplicate mailbox message"⟩
  set { s with entries := s.entries.insert id envelope }
  pure id

/-- Accept an incoming envelope and report whether it was newly retained. -/
def acceptIncomingWithStatus (identity : MailboxIdentity) (envelope : MailboxEnvelope)
    (allowedSenders : List PublicKey) (now later : UInt64) :
    Prog MailboxStore Failure (String × Bytes × IncomingAcceptance) := do
  let s ← get
  let payload ← ofExcept id (envelope.validateFor C identity allowedSenders s.ttl now)
  let id := C.messageId envelope
  let fingerprint := C.fingerprint envelope
  match s.entries.lookup id with
  | some existing =>
    if existing.sender ≠ envelope.sender ∨ existing.recipient ≠ envelope.recipient ∨
        existing.ephemeral ≠ envelope.ephemeral ∨ existing.nonce ≠ envelope.nonce ∨
        existing.ciphertext ≠ envelope.ciphertext ∨ existing.createdAt ≠ envelope.createdAt ∨
        existing.signature ≠ envelope.signature then
      throw ⟨"conflicting mailbox envelope for message id " ++ id⟩
    else pure (id, payload, .duplicate)
  | none =>
    match s.dedup.lookup id with
    | some (_, storedFingerprint) =>
      if storedFingerprint ≠ fingerprint then
        throw ⟨"conflicting mailbox envelope for message id " ++ id⟩
      else pure (id, payload, .duplicate)
    | none => do
      let _ ← enqueue C envelope allowedSenders
      modify fun s => { s with dedup := s.dedup.insert id (later, fingerprint) }
      pure (id, payload, .inserted)

/-- Remove an entry after a valid acknowledgement signed by the recipient. -/
def acknowledge (ack : MailboxAck) : Prog MailboxStore Failure Bool := do
  let s ← get
  let recipient ← okOr s.recipient ⟨"mailbox recipient is not configured"⟩
  ofExcept id (ack.verify C.ackSigned recipient)
  set { s with entries := s.entries.erase ack.messageId }
  pure (s.entries.lookup ack.messageId).isSome

/-- The order of replay: by the time of creation, then by the identifier. -/
def Replay (a b : MailboxEnvelope) : Prop :=
  a.createdAt < b.createdAt ∨ a.createdAt = b.createdAt ∧ C.messageId a ≤ C.messageId b

instance (C : MailboxCrypto) : DecidableRel (Replay C) :=
  fun _ _ => inferInstanceAs (Decidable (_ ∨ _))

def values (s : MailboxStore) : List MailboxEnvelope := s.entries.entries.map fun x => x.2

/-- The retained envelopes a condition holds of, in the order of replay. -/
def sorted (cond : MailboxEnvelope → Bool) (s : MailboxStore) : List MailboxEnvelope :=
  (s.values.filter cond).insertionSort (Replay C)

/-- The pending envelopes in the order of replay. -/
def pending (now : UInt64) (s : MailboxStore) : List MailboxEnvelope × MailboxStore :=
  let s := s.expire now
  (s.sorted C fun _ => true, s)

/-- Fill a page that has `count` envelopes of `encodedBytes` bytes already. -/
def fillPage (C : MailboxCrypto) (count encodedBytes : ℕ) :
    List MailboxEnvelope → List MailboxEnvelope
  | [] => []
  | e :: es =>
    if maxSyncEnvelopes ≤ count then []
    else
      let size := (C.encodedLen e).getD (2 ^ 64 - 1)
      if maxSyncResponseBytes < min (encodedBytes + size) (2 ^ 64 - 1) then []
      else e :: fillPage C (count + 1) (encodedBytes + size) es

/-- A page of the envelopes for `who`, resuming at `sinceMs`. -/
def pendingForRecipientSince (who : PublicKey) (sinceMs now later : UInt64) (s : MailboxStore) :
    List MailboxEnvelope × MailboxStore :=
  let s := s.expire now
  let floor := saturatingSub later maxSyncLookback
  let sinceMs := if sinceMs < floor then floor else sinceMs
  (fillPage C 0 0 (s.sorted C fun e => e.recipient.identity = who && sinceMs ≤ e.createdAt), s)

/-! ### Accepting -/

section Accept

variable {C : MailboxCrypto} {identity : MailboxIdentity} {env : MailboxEnvelope}
  {a : List PublicKey} {now later : UInt64} {s : MailboxStore}

/-- A valid envelope is within its retention period. -/
theorem createdAt_of_validateFor {ttl : UInt64} {data : Bytes}
    (h : env.validateFor C identity a ttl now = .ok data) :
    now.toNat ≤ env.createdAt.toNat + ttl.toNat := by
  obtain ⟨-, -, h⟩ := except_bind_eq_ok h
  split_ifs at h with hs hr ht
  have ha : ¬ ttl.toNat < (saturatingSub now env.createdAt).toNat := fun hlt =>
    ht (.inr hlt)
  rw [toNat_saturatingSub] at ha
  omega

/-- Enqueuing does not touch the replay evidence. -/
theorem wp_enqueue :
    wp (enqueue C env a)
      (fun _ s' => s'.dedup = s.dedup ∧ s'.ttl = s.ttl)
      (fun _ s' => s'.dedup = s.dedup ∧ s'.ttl = s.ttl) s := by
  unfold enqueue
  simp only [wp_bind, wp_ofExcept, wp_require, wp_get]
  cases hr : s.recipient with
  | some recipient | none => simp

variable (C identity env a now later s) in
/-- **What accepting an envelope does.**  It is inserted only if it is valid, and unknown to the
replay evidence, which then knows it; otherwise the evidence stays as it is. -/
theorem wp_acceptIncomingWithStatus :
    wp (acceptIncomingWithStatus C identity env a now later)
      (fun r s' => s'.ttl = s.ttl ∧
        (r.2.2 = .duplicate ∧ s'.dedup = s.dedup ∨
        r.2.2 = .inserted ∧ now.toNat ≤ env.createdAt.toNat + s.ttl.toNat ∧
          s.dedup.lookup (C.messageId env) = none ∧
          s'.dedup = s.dedup.insert (C.messageId env) (later, C.fingerprint env)))
      (fun _ s' => s'.dedup = s.dedup ∧ s'.ttl = s.ttl) s := by
  unfold acceptIncomingWithStatus
  simp only [wp_bind, wp_ofExcept, wp_get]
  refine ⟨fun data hv => ?_, fun _ _ => ⟨trivial, trivial⟩⟩
  cases hen : s.entries.lookup (C.messageId env) with
  | some existing =>
    dsimp only
    split_ifs
    · exact ⟨rfl, rfl⟩
    · exact ⟨rfl, .inl ⟨rfl, rfl⟩⟩
  | none =>
    cases hde : s.dedup.lookup (C.messageId env) with
    | some d =>
      dsimp only
      split_ifs
      · exact ⟨rfl, rfl⟩
      · exact ⟨rfl, .inl ⟨rfl, rfl⟩⟩
    | none =>
      rw [wp_bind]
      refine wp_mono wp_enqueue (fun id s' hs' => ?_) fun _ s' hs' => hs'
      obtain ⟨hd, ht⟩ := hs'
      simp only [wp_bind, wp_modify, wp_pure]
      refine ⟨ht, .inr ⟨trivial, createdAt_of_validateFor hv, trivial, ?_⟩⟩
      rw [hd]

end Accept

/-! ### Expiry -/

theorem mem_values_expire {s : MailboxStore} {now : UInt64} {e : MailboxEnvelope} :
    e ∈ (s.expire now).values ↔ e ∈ s.values ∧ now.toNat - s.ttl.toNat < e.createdAt.toNat := by
  have hlt : ∀ e : MailboxEnvelope, saturatingSub now s.ttl < e.createdAt ↔
      now.toNat - s.ttl.toNat < e.createdAt.toNat := by
    intro e
    rw [← toNat_saturatingSub]
    exact Iff.rfl
  simp only [values, List.mem_map, expire, HashMap.retain, List.mem_filterMap, HashMap.retainEntry]
  constructor
  · rintro ⟨x, ⟨y, hy, hx⟩, rfl⟩
    split_ifs at hx with hf
    · cases hx
      exact ⟨⟨y, hy, rfl⟩, (hlt _).1 hf⟩
    · cases hx
  · rintro ⟨⟨y, hy, rfl⟩, hf⟩
    exact ⟨y, ⟨y, hy, by rw [if_pos ((hlt _).2 hf)]; rfl⟩, rfl⟩

/-! ### Pages -/

theorem replay_trans {C : MailboxCrypto} {a b c : MailboxEnvelope} (hab : Replay C a b)
    (hbc : Replay C b c) : Replay C a c := by
  rcases hab with hab | ⟨hab, hid⟩ <;> rcases hbc with hbc | ⟨hbc, hid'⟩
  · exact .inl (UInt64.lt_trans hab hbc)
  · exact .inl (hbc ▸ hab)
  · exact .inl (hab ▸ hbc)
  · exact .inr ⟨hab.trans hbc, hid.trans hid'⟩

theorem replay_total (a b : MailboxEnvelope) : Replay C a b ∨ Replay C b a := by
  rcases Nat.lt_trichotomy a.createdAt.toNat b.createdAt.toNat with h | h | h
  · exact .inl (.inl h)
  · have heq := UInt64.toNat_inj.1 h
    rcases le_total (C.messageId a) (C.messageId b) with hid | hid
    · exact .inl (.inr ⟨heq, hid⟩)
    · exact .inr (.inr ⟨heq.symm, hid⟩)
  · exact .inr (.inl h)

/-- Envelopes are served in the order of their creation. -/
theorem pairwise_sorted (cond : MailboxEnvelope → Bool) (s : MailboxStore) :
    (s.sorted C cond).Pairwise fun a b => a.createdAt.toNat ≤ b.createdAt.toNat := by
  have : Std.Total (Replay C) := ⟨replay_total C⟩
  have : IsTrans MailboxEnvelope (Replay C) := ⟨fun _ _ _ => replay_trans⟩
  refine (List.pairwise_insertionSort (Replay C) _).imp fun {a b} h => ?_
  rcases h with h | ⟨h, -⟩
  · exact Nat.le_of_lt h
  · rw [h]

/-- The encoded size of an envelope as it counts for a page. -/
def encodedSize (e : MailboxEnvelope) : ℕ :=
  (C.encodedLen e).getD (2 ^ 64 - 1)

/-- **Pages are cut by number alone** where the envelopes are small enough. -/
theorem fillPage_eq_take {C : MailboxCrypto} {count eb : ℕ} {es : List MailboxEnvelope}
    (h : eb + ((es.take (maxSyncEnvelopes - count)).map (encodedSize C)).sum ≤
      maxSyncResponseBytes) :
    fillPage C count eb es = es.take (maxSyncEnvelopes - count) := by
  induction es generalizing count eb with
  | nil => simp [fillPage]
  | cons e es ih =>
    rw [fillPage]
    split_ifs with hf
    · rw [Nat.sub_eq_zero_of_le hf, List.take_zero]
    · obtain ⟨n, hn⟩ : ∃ n, maxSyncEnvelopes - count = n + 1 :=
        ⟨maxSyncEnvelopes - count - 1, by omega⟩
      have hn' : maxSyncEnvelopes - (count + 1) = n := by omega
      rw [hn, List.take_succ_cons, List.map_cons, List.sum_cons] at h
      have hs : (C.encodedLen e).getD (2 ^ 64 - 1) = encodedSize C e := rfl
      rw [hn, List.take_succ_cons]
      rw [if_neg (by omega), ih (by rw [hn']; omega), hn']

end MailboxStore

end Boru
