import Boru.Prog.Basic
import Boru.Collections.Table
import Boru.Integers
import Boru.Mailbox.Types

/-!
# The delivery outbox

The table of messages to deliver, one row for each message and recipient, and the statements that
work on it.  Workers claim rows that are due, which puts a lease on them until a deadline, and
finish or release them; a message ends as acknowledged or as expired.

Every operation is one transaction: if the database fails, nothing happens.  Times are `u64` in the
code and `i64` in the table; `asI64` is the conversion between them.

## Main results

* `Storage.claimDueOutbox_claims` and the lemmas of the other claims : a claim puts its lease on
  rows that are neither locked nor at their end, changes no others, and returns rows with its
  lease.
-/

namespace Boru

open GroupEncryption (Key Block Failure)

/-! ### Tables -/

abbrev MessageId := Key

abbrev DeviceId := Key

inductive DeliveryStatus where
  | pending
  | sent
  | acked
  | expired
  /-- A row currently being delivered by one worker. -/
  | sending
  deriving DecidableEq

/-- Whether a delivery has come to an end. -/
def DeliveryStatus.isTerminal : DeliveryStatus → Bool
  | .acked | .expired => true
  | .pending | .sent | .sending => false

structure OutboxKey where
  msgId : MessageId
  recipientDeviceId : DeviceId
  deriving DecidableEq

structure OutboxColumns where
  status : DeliveryStatus
  attempts : ℕ
  nextAttemptAtMs : ℤ
  lastErrorCode : Option String := none
  lastAttemptAtMs : Option ℤ := none
  leaseOwner : Option String := none
  lockedUntilMs : Option ℤ := none
  expiresAtMs : Option ℤ := none

abbrev OutboxTable := Table OutboxKey OutboxColumns

structure OutboxRow where
  msgId : MessageId
  recipientDeviceId : DeviceId
  status : DeliveryStatus
  attempts : UInt32
  nextAttemptAtMs : UInt64
  lastErrorCode : Option String
  lastAttemptAtMs : Option UInt64
  leaseOwner : Option String
  lockedUntilMs : Option UInt64
  expiresAtMs : Option UInt64

def OutboxRow.key (r : OutboxRow) : OutboxKey := ⟨r.msgId, r.recipientDeviceId⟩

structure DmMessage where
  senderId : DeviceId
  recipientId : DeviceId
  envelope : Option Bytes
  createdAtMs : ℤ
  acknowledgedAtMs : Option ℤ

/-- A direct message in the mailbox outbox. -/
structure DmOutboxEntry where
  recipientId : DeviceId
  envelope : Bytes
  createdAtMs : ℤ

structure Storage where
  outbox : OutboxTable
  inbox : Table MessageId ℤ
  dmMessages : Table MessageId DmMessage
  dmOutbox : Table MessageId DmOutboxEntry
  /-- The acknowledgements that were processed, by the identifiers of the envelopes. -/
  dmAcknowledgements : Table MessageId MailboxAck

/-- The cryptography and the encodings the statements depend on. -/
structure Formats where
  isPublicKey : DeviceId → Bool
  /-- Whether the signature of an acknowledgement is its recipient's. -/
  ackSigned : MailboxAck → Bool
  hexDecode : String → Except Failure Bytes
  envelopeId : Bytes → Except Failure String

/-- The largest number of rows claimed at once. -/
def maxOutboxClaimLimit : ℕ := 100

/-- `limit.clamp(1, MAX_OUTBOX_CLAIM_LIMIT)`. -/
def clampLimit (limit : UInt32) : ℕ := max 1 (min limit.toNat maxOutboxClaimLimit)

namespace Storage

/-- A row from the table as it is returned. -/
def rowToOutbox (F : Formats) (k : OutboxKey) (c : OutboxColumns) : Except Failure OutboxRow :=
  if ¬ F.isPublicKey k.recipientDeviceId then .error ⟨"invalid public key"⟩
  else if 2 ^ 32 ≤ c.attempts then .error ⟨"get attempts"⟩
  else .ok {
    msgId := k.msgId
    recipientDeviceId := k.recipientDeviceId
    status := c.status
    attempts := UInt32.ofNat c.attempts
    nextAttemptAtMs := asU64 c.nextAttemptAtMs
    lastErrorCode := c.lastErrorCode
    lastAttemptAtMs := c.lastAttemptAtMs.map asU64
    leaseOwner := c.leaseOwner
    lockedUntilMs := c.lockedUntilMs.map asU64
    expiresAtMs := c.expiresAtMs.map asU64 }

variable (now : UInt64)

variable (c : OutboxColumns)

def due : Bool := c.nextAttemptAtMs ≤ asI64 now

/-- There is no lease on the row, or it has expired. -/
def unlocked : Bool :=
  c.lockedUntilMs.all fun locked => locked ≤ asI64 now

def lease (owner : String) (lockedUntil : UInt64) (c : OutboxColumns) : OutboxColumns :=
  { c with leaseOwner := some owner, lockedUntilMs := some (asI64 lockedUntil) }

/-- Take the lease off a row. -/
def unlease : OutboxColumns :=
  { c with leaseOwner := none, lockedUntilMs := none }

/-! ### Claims -/

variable (F : Formats)

def claimFirst (now : UInt64) (leaseOwner : String) (leaseDurationMs : UInt64)
    (candidate : Option (OutboxKey × OutboxColumns)) (s : Storage) :
    Except Failure (Option OutboxRow × Storage) :=
  match candidate with
  | none => .ok (none, s)
  | some (k, _) =>
    let lockedUntil := saturatingAdd now leaseDurationMs
    let (outbox, changed) := s.outbox.updateRow k (unlocked now) (lease leaseOwner lockedUntil)
    if ¬ changed then .ok (none, s)
    else
      match outbox.lookup k with
      | none => .error ⟨"claimed outbox row disappeared"⟩
      | some c => do
        let row ← rowToOutbox F k c
        pure (some row, { s with outbox })

def claimDueOutbox (now : UInt64) (leaseOwner : String) (leaseDurationMs : UInt64) (limit : UInt32)
    (s : Storage) : Except Failure (Option OutboxRow × Storage) :=
  claimFirst F now leaseOwner leaseDurationMs
    (s.outbox.selectBy
      (fun _ c => c.status ≠ .acked && c.status ≠ .expired && due now c && unlocked now c)
      (·.nextAttemptAtMs) (clampLimit limit)).head? s

/-- Claim the oldest due row addressed to one peer. -/
def claimDueOutboxForPeer (now : UInt64) (recipient : DeviceId) (leaseOwner : String)
    (leaseDurationMs : UInt64) (s : Storage) :
    Except Failure (Option OutboxRow × Storage) :=
  claimFirst F now leaseOwner leaseDurationMs
    (s.outbox.select fun k c => k.recipientDeviceId = recipient && c.status ≠ .acked &&
      c.status ≠ .expired && due now c && unlocked now c).head? s

/-- Change the candidates one after another: the table, and the candidates that were changed.  The
update of a row that fails (`rowFails`) counts as no change. -/
def claimEach (rowFails : OutboxKey → Bool) (cond : OutboxColumns → Bool)
    (set : OutboxColumns → OutboxColumns) :
    List OutboxKey → OutboxTable → OutboxTable × List OutboxKey
  | [], t => (t, [])
  | k :: ks, t =>
    if rowFails k then claimEach rowFails cond set ks t
    else
      let (t, changed) := t.updateRow k cond set
      let (t, rest) := claimEach rowFails cond set ks t
      (t, if changed then k :: rest else rest)

variable (rowFails : OutboxKey → Bool)

/-- Claim the rows selected.  Those that cannot be converted are not returned. -/
def claimAll (cond : OutboxColumns → Bool) (set : OutboxColumns → OutboxColumns)
    (candidates : List (OutboxKey × OutboxColumns)) (s : Storage) :
    Except Failure (List OutboxRow × Storage) :=
  let (outbox, claimed) := claimEach rowFails cond set (candidates.map Prod.fst) s.outbox
  let rows := claimed.filterMap fun k =>
    (outbox.lookup k).bind fun c => (rowToOutbox F k c).toOption
  .ok (rows, { s with outbox })

def claimNDueOutbox (now : UInt64) (leaseOwner : String) (leaseDurationMs : UInt64) (limit : UInt32)
    (s : Storage) :
    Except Failure (List OutboxRow × Storage) :=
  let lockedUntil := saturatingAdd now leaseDurationMs
  claimAll F rowFails (unlocked now) (lease leaseOwner lockedUntil)
    (s.outbox.selectBy
      (fun _ c => c.status ≠ .acked && c.status ≠ .expired && due now c && unlocked now c)
      (·.nextAttemptAtMs) (clampLimit limit)) s

/-- Claim due rows that are pending or sent, and mark them as being sent. -/
def claimPendingDeliveriesWithLease (limit : UInt32) (now : UInt64) (leaseOwner : String)
    (leaseDurationMs : UInt64) (s : Storage) :
    Except Failure (List OutboxRow × Storage) :=
  claimAll F rowFails (fun c => c.status = .pending || c.status = .sent)
    (fun c => { lease leaseOwner (saturatingAdd now leaseDurationMs) c with
      status := .sending, lastAttemptAtMs := some (asI64 now) })
    (s.outbox.selectBy
      (fun _ c => (c.status = .pending || c.status = .sent) && due now c && unlocked now c)
      (·.nextAttemptAtMs) (clampLimit limit)) s

/-- Claim due rows for a worker without a name. -/
def claimPendingDeliveries (limit : UInt32) (now : UInt64) (s : Storage) :
    Except Failure (List OutboxRow × Storage) :=
  claimPendingDeliveriesWithLease F rowFails limit now "legacy" 60000 s

/-! ### Leases -/

/-- Whether an error code is that of a failure that is not tried again. -/
def isTerminalError (code : String) : Bool :=
  ["expired", "reject", "unauthor", "revoked", "payload_too_large",
    "invalid_recipient_state"].any fun part => part.toList <:+: code.toList.map Char.toLower

def finishedStatus (success : Bool) (errorCode : Option String) : DeliveryStatus :=
  if success then .sent else if errorCode.any isTerminalError then .expired else .pending

variable (k : OutboxKey)

variable (leaseOwner : String)

/-- Finish a claimed attempt and release its lease; `clock` is the time that is read. -/
def finishOutboxAttempt (success : Bool) (nextAttemptAtMs : UInt64) (errorCode : Option String)
    (clock : UInt64) (s : Storage) :
    Bool × Storage :=
  let (outbox, changed) := s.outbox.updateRow k
    (fun c => c.leaseOwner = some leaseOwner && c.status ≠ .acked)
    fun c => { unlease c with
      attempts := c.attempts + 1
      lastAttemptAtMs := some (asI64 clock)
      nextAttemptAtMs := asI64 nextAttemptAtMs
      lastErrorCode := errorCode
      status := finishedStatus success errorCode }
  (changed, { s with outbox })

def extendOutboxLease (now lockedUntilMs : UInt64) (s : Storage) : Bool × Storage :=
  let (outbox, changed) := s.outbox.updateRow k
    (fun c => c.leaseOwner = some leaseOwner && c.lockedUntilMs.any (asI64 now < ·))
    fun c => { c with lockedUntilMs := some (asI64 lockedUntilMs) }
  (changed, { s with outbox })

/-- Release a lease without recording an attempt. -/
def releaseOutboxLease (s : Storage) : Bool × Storage :=
  let (outbox, changed) := s.outbox.updateRow k (·.leaseOwner = some leaseOwner) unlease
  (changed, { s with outbox })

/-- Update the rows a condition holds of: their number. -/
def updateOutbox (cond : OutboxKey → OutboxColumns → Bool) (set : OutboxColumns → OutboxColumns)
    (s : Storage) : ℕ × Storage :=
  (s.outbox.count cond, { s with outbox := s.outbox.update cond set })

/-- Take the leases whose deadlines have passed off the rows. -/
def recoverStaleOutboxLeases : Storage → ℕ × Storage :=
  updateOutbox
    (fun _ c => c.lockedUntilMs.any (· ≤ asI64 now) && c.status ≠ .acked && c.status ≠ .expired)
    unlease

/-- Make rows that stay in the status `sending` pending again. -/
def recoverStaleSendingDeliveries : Storage → ℕ × Storage :=
  updateOutbox
    (fun _ c => c.status = .sending && (c.lockedUntilMs.any (· ≤ asI64 now) ||
      c.lockedUntilMs.isNone && c.lastAttemptAtMs.any (· < saturatingSubI64 (asI64 now) 60000)))
    fun c => { unlease c with
      status := .pending, nextAttemptAtMs := asI64 now, lastErrorCode := some "sending_recovered" }

/-- Expire the deliveries of messages past their expiry. -/
def expireOutbox (s : Storage) : ℕ × Storage :=
  updateOutbox
    (fun k c => c.status ≠ .acked && c.status ≠ .expired &&
      (s.inbox.lookup k.msgId).any (· ≤ asI64 now))
    (fun c => { unlease c with status := .expired, lastErrorCode := some "message_expired" }) s

/-! ### Queueing and outcomes -/

variable (nextAttemptAtMs : UInt64)

def newRow : OutboxColumns where
  status := .pending
  attempts := 0
  nextAttemptAtMs := asI64 nextAttemptAtMs

variable (s : Storage)

/-- Enqueue a message for delivery. -/
def enqueueOutbox : Storage :=
  { s with outbox := s.outbox.insertOrIgnore k (newRow nextAttemptAtMs) }

/-- Make a row due now. -/
def retryOutboxNow (now : UInt64) (s : Storage) : ℕ × Storage :=
  updateOutbox
    (fun k' c => k' = k && (c.status = .pending || c.status = .sent) && unlocked now c &&
      (s.inbox.lookup k.msgId).any (asI64 now < ·))
    (fun c => { c with nextAttemptAtMs := asI64 now, lastErrorCode := none }) s

/-- Make all messages for a peer due now. -/
def wakeOutboxForPeer (recipient : DeviceId) (now : UInt64) : Storage → ℕ × Storage :=
  updateOutbox
    (fun k c => k.recipientDeviceId = recipient && c.status ≠ .acked && c.status ≠ .expired)
    fun c => { c with nextAttemptAtMs := asI64 now }

/-- The row of an acknowledged message. -/
def acknowledged (c : OutboxColumns) : OutboxColumns := { unlease c with status := .acked }

/-- Mark a message as acknowledged. -/
def markAcked : Storage :=
  { s with outbox := (s.outbox.updateRow k (fun _ => true) acknowledged).1 }

def markSent : Storage :=
  { s with outbox := (s.outbox.updateRow k (fun c => c.status ≠ .acked && c.status ≠ .expired)
    fun c => { unlease c with
      status := .sent, nextAttemptAtMs := asI64 nextAttemptAtMs }).1 }

/-- Record a delivery attempt; `clock` is the time that is read. -/
def recordAttempt (errorCode : Option String) (clock : UInt64) (s : Storage) : Storage :=
  { s with outbox := (s.outbox.updateRow k (·.status ≠ .acked) fun c => { c with
    attempts := c.attempts + 1
    nextAttemptAtMs := asI64 nextAttemptAtMs
    lastErrorCode := errorCode
    lastAttemptAtMs := some (asI64 clock)
    status := .sent }).1 }

/-! ### Direct messages -/

/-- The direct message whose envelope has the given identifier, the first in the order of the
rows. -/
def findEnvelope (F : Formats) (s : Storage) (messageId : String) :
    List (MessageId × DmMessage) → Except Failure (Option (MessageId × DmMessage × DmOutboxEntry))
  | [] => .ok none
  | (id, m) :: rest =>
    match s.dmOutbox.lookup id with
    | none => findEnvelope F s messageId rest
    | some o => do
      if (← F.envelopeId o.envelope) = messageId then pure (some (id, m, o))
      else findEnvelope F s messageId rest

/-- Process an acknowledgement from a recipient; `fault` is a failure injected before the
commit. -/
def processOutgoingAck (F : Formats) (peer : DeviceId) (ack : MailboxAck) (fault : Bool)
    (s : Storage) : Except Failure (Bool × Storage) := do
  if 128 < ack.messageId.utf8ByteSize then .error ⟨"acknowledgement message id is too long"⟩
  else if ack.status ≠ some "accepted" then
    .error ⟨"acknowledgement does not indicate successful recipient acceptance"⟩
  else do
    ack.verify F.ackSigned peer
    let bytes ← F.hexDecode ack.messageId
    match Block.ofBytes? 32 bytes with
    | none => .error ⟨"acknowledgement message id must be 32 bytes"⟩
    | some envelopeId =>
      if (s.dmAcknowledgements.lookup envelopeId).isSome then pure (false, s)
      else
        match ← findEnvelope F s ack.messageId
          (s.dmMessages.select fun _ m => m.acknowledgedAtMs.isNone) with
        | none => .error ⟨"acknowledgement refers to an unknown message"⟩
        | some (id, m, o) =>
          if m.senderId ≠ ack.originalSender then
            .error ⟨"acknowledgement original sender mismatch"⟩
          else if m.recipientId ≠ o.recipientId ∨ m.recipientId ≠ peer then
            .error ⟨"acknowledgement recipient mismatch"⟩
          else if fault then .error ⟨"injected acknowledgement database failure"⟩
          else pure (true, { s with
            dmAcknowledgements := s.dmAcknowledgements.insert envelopeId ack
            dmMessages := s.dmMessages.update (fun id' _ => id' = id) fun m =>
              { m with acknowledgedAtMs := some (asI64 ack.acknowledgedAtMs) }
            dmOutbox := s.dmOutbox.erase id
            outbox := (s.outbox.updateRow ⟨id, m.recipientId⟩ (fun _ => true) acknowledged).1 })

/-- Queue a direct message that is not acknowledged. -/
def repairProjection (row : MessageId × DmMessage) : Storage :=
  match row.2.envelope with
  | none => s
  | some envelope => { s with
    dmOutbox := s.dmOutbox.insertOrIgnore row.1 ⟨row.2.recipientId, envelope, row.2.createdAtMs⟩
    outbox := s.outbox.insertOrIgnore ⟨row.1, row.2.recipientId⟩ (newRow now) }

/-- Queue all direct messages that are not acknowledged: their number. -/
def repairPendingDmProjections : ℕ × Storage :=
  let rows := s.dmMessages.select fun _ m => m.acknowledgedAtMs.isNone && m.envelope.isSome
  (rows.length, rows.foldl (repairProjection now) s)

/-! ### What a claim does -/

def Leased (owner : String) (deadline : UInt64) (c : OutboxColumns) : Prop :=
  c.leaseOwner = some owner ∧ c.lockedUntilMs = some (asI64 deadline)

def Claimable (c : OutboxColumns) : Prop :=
  c.status.isTerminal = false ∧ unlocked now c

/-- The effect of a claim on the table: rows that may be claimed get the lease, all others stay as
they are, and the rows with the given keys have the lease. -/
structure Claims (now : UInt64) (owner : String) (deadline : UInt64)
    (t t' : OutboxTable) (keys : List OutboxKey) : Prop where
  rows : ∀ k c, t.lookup k = some c → ∃ c', t'.lookup k = some c' ∧
    (c' = c ∨ Claimable now c ∧ Leased owner deadline c' ∧ c'.status.isTerminal = false)
  absent : ∀ k, t.lookup k = none → t'.lookup k = none
  leased : ∀ k ∈ keys, ∃ c, t.lookup k = some c ∧ Claimable now c ∧
    ∃ c', t'.lookup k = some c' ∧ Leased owner deadline c'

theorem Claims.refl (owner : String) (deadline : UInt64) (t : OutboxTable) :
    Claims now owner deadline t t [] :=
  ⟨fun _ c h => ⟨c, h, .inl rfl⟩, fun _ h => h, nofun⟩

theorem claimable_of_due {now : UInt64} {c : OutboxColumns} :
    (c.status ≠ .acked && c.status ≠ .expired && due now c && unlocked now c) →
      Claimable now c := by
  unfold Claimable DeliveryStatus.isTerminal
  cases c.status <;> simp

theorem rowToOutbox_key {F : Formats} {k : OutboxKey} {c : OutboxColumns} {row : OutboxRow}
    (h : rowToOutbox F k c = .ok row) : row.key = k := by
  unfold rowToOutbox at h
  split_ifs at h
  cases h
  rfl

theorem claimFirst_claims {F : Formats} {now : UInt64} {owner : String} {du : UInt64}
    {ca : Option (OutboxKey × OutboxColumns)} {s s' : Storage} {row : Option OutboxRow}
    (hc : ∀ k c, ca = some (k, c) → s.outbox.lookup k = some c ∧ Claimable now c)
    (h : claimFirst F now owner du ca s = .ok (row, s')) :
    Claims now owner (saturatingAdd now du) s.outbox s'.outbox (row.toList.map OutboxRow.key) := by
  unfold claimFirst at h
  split at h
  · cases h
    exact .refl _ _ _ _
  · rename_i k c
    obtain ⟨hl, hcl⟩ := hc k c rfl
    have hs : (s.outbox.updateRow k (unlocked now)
        (lease owner (saturatingAdd now du))).1.lookup k =
        some (lease owner (saturatingAdd now du) c) := by
      rw [Table.lookup_updateRow_self, hl, Option.map_some, if_pos hcl.2]
    dsimp only at h
    split_ifs at h
    · simp only [hs] at h
      obtain ⟨r, hr, h⟩ := Prog.except_bind_eq_ok h
      cases h
      refine ⟨fun k' c' h' => ?_, fun k' h' => Table.lookup_updateRow_of_none h', ?_⟩
      · by_cases hk : k' = k
        · subst hk
          cases hl.symm.trans h'
          exact ⟨_, hs, .inr ⟨hcl, ⟨rfl, rfl⟩, hcl.1⟩⟩
        · exact ⟨c', (Table.lookup_updateRow_ne _ _ _ hk).trans h', .inl rfl⟩
      · intro k' hk'
        obtain rfl := List.mem_singleton.1 hk'
        rw [rowToOutbox_key hr]
        exact ⟨c, hl, hcl, _, hs, rfl, rfl⟩
    · cases h
      exact .refl _ _ _ _

section ClaimEach

variable {rowFails : OutboxKey → Bool} {cond : OutboxColumns → Bool}
  {set : OutboxColumns → OutboxColumns} {now : UInt64} {owner : String} {dl : UInt64}

variable {ks : List OutboxKey}

theorem claimEach_leased (hse : ∀ c, Leased owner dl (set c))
    {t : OutboxTable} {k : OutboxKey} {c : OutboxColumns}
    (h : t.lookup k = some c) (hc : Leased owner dl c) :
    ∃ c', (claimEach rowFails cond set ks t).1.lookup k = some c' ∧ Leased owner dl c' := by
  induction ks generalizing t c with
  | nil => exact ⟨c, h, hc⟩
  | cons k' ks ih =>
    rw [claimEach]
    split_ifs
    · exact ih h hc
    · by_cases hk : k = k'
      · subst hk
        have hs := Table.lookup_updateRow_self t k cond set
        rw [h, Option.map_some] at hs
        refine ih hs ?_
        split_ifs
        · exact hse c
        · exact hc
      · exact ih ((Table.lookup_updateRow_ne t cond set hk).trans h) hc

theorem claimEach_claims (hst : ∀ c, Leased owner dl (set c))
    (hs : ∀ c, c.status.isTerminal = false → (set c).status.isTerminal = false) {t₀ : OutboxTable}
    (hks : ∀ k ∈ ks, ∃ c, t₀.lookup k = some c ∧ Claimable now c)
    {t : OutboxTable} (ht : Claims now owner dl t₀ t []) :
    Claims now owner dl t₀ (claimEach rowFails cond set ks t).1
      (claimEach rowFails cond set ks t).2 := by
  induction ks generalizing t with
  | nil => exact ht
  | cons k ks ih =>
    obtain ⟨c₀, hc₀, hcl⟩ := hks k List.mem_cons_self
    have hr := fun k' hk' => hks k' (List.mem_cons_of_mem k hk')
    rw [claimEach]
    split_ifs with hf
    · exact ih hr ht
    · have hse := Table.lookup_updateRow_self t k cond set
      -- the row is as it was at the start, or has the lease
      have hstep : Claims now owner dl t₀ (t.updateRow k cond set).1 [] := by
        refine ⟨fun k' c' h' => ?_,
          fun k' h' => Table.lookup_updateRow_of_none (ht.absent k' h'), nofun⟩
        obtain ⟨c₁, hc₁, hre⟩ := ht.rows k' c' h'
        by_cases hk : k' = k
        · subst hk
          cases hc₀.symm.trans h'
          rw [hc₁, Option.map_some] at hse
          refine ⟨_, hse, ?_⟩
          have ho : c₁.status.isTerminal = false := by
            rcases hre with rfl | ⟨-, -, h⟩
            · exact hcl.1
            · exact h
          split_ifs
          · exact .inr ⟨hcl, hst c₁, hs c₁ ho⟩
          · exact hre
        · exact ⟨c₁, (Table.lookup_updateRow_ne t cond set hk).trans hc₁, hre⟩
      have hih := ih hr hstep
      dsimp only
      refine ⟨hih.rows, hih.absent, fun k' hk' => ?_⟩
      split_ifs at hk' with hch
      · rcases List.mem_cons.1 hk' with rfl | hk'
        · obtain ⟨c, hc, hco⟩ := (Option.any_eq_true _ _).1 hch
          rw [hc, Option.map_some, if_pos hco] at hse
          exact ⟨c₀, hc₀, hcl, claimEach_leased hst hse (hst c)⟩
        · exact hih.leased k' hk'
      · exact hih.leased k' hk'

theorem claimAll_claims {F : Formats} (hse : ∀ c, Leased owner dl (set c))
    (hs : ∀ c, c.status.isTerminal = false → (set c).status.isTerminal = false)
    {ca : List (OutboxKey × OutboxColumns)} {s s' : Storage} {rows : List OutboxRow}
    (hc : ∀ k c, (k, c) ∈ ca → s.outbox.lookup k = some c ∧ Claimable now c)
    (h : claimAll F rowFails cond set ca s = .ok (rows, s')) :
    Claims now owner dl s.outbox s'.outbox (rows.map OutboxRow.key) := by
  have hcl : Claims now owner dl s.outbox
      (claimEach rowFails cond set (ca.map Prod.fst) s.outbox).1
      (claimEach rowFails cond set (ca.map Prod.fst) s.outbox).2 := by
    refine claimEach_claims hse hs (fun k hk => ?_) (.refl now owner dl s.outbox)
    obtain ⟨p, hp, rfl⟩ := List.mem_map.1 hk
    exact ⟨p.2, hc p.1 p.2 hp⟩
  cases h
  refine ⟨hcl.rows, hcl.absent, fun k hk => ?_⟩
  obtain ⟨row, hr, rfl⟩ := List.mem_map.1 hk
  obtain ⟨k', hk', hco⟩ := List.mem_filterMap.1 hr
  obtain ⟨c, -, hco⟩ := Option.bind_eq_some_iff.1 hco
  cases hok : rowToOutbox F k' c with
  | error e =>
    rw [hok] at hco
    cases hco
  | ok r =>
    rw [hok] at hco
    cases hco
    rw [rowToOutbox_key hok]
    exact hcl.leased k' hk'

end ClaimEach

section Claims

variable {F : Formats} {rowFails : OutboxKey → Bool} {now : UInt64} {owner : String}
  {d : UInt64} {limit : UInt32} {s s' : Storage}

theorem claimDueOutbox_claims {row : Option OutboxRow}
    (h : s.claimDueOutbox F now owner d limit = .ok (row, s')) :
    Claims now owner (saturatingAdd now d) s.outbox s'.outbox (row.toList.map OutboxRow.key) := by
  refine claimFirst_claims (fun k c hc => ?_) h
  obtain ⟨hl, hco⟩ := Table.mem_selectBy (List.mem_of_mem_head? hc)
  exact ⟨hl, claimable_of_due hco⟩

theorem claimDueOutboxForPeer_claims {recipient : DeviceId} {row : Option OutboxRow}
    (h : s.claimDueOutboxForPeer F now recipient owner d = .ok (row, s')) :
    Claims now owner (saturatingAdd now d) s.outbox s'.outbox (row.toList.map OutboxRow.key) := by
  refine claimFirst_claims (fun k c hc => ?_) h
  obtain ⟨hl, hco⟩ := Table.mem_select.1 (List.mem_of_mem_head? hc)
  refine ⟨hl, claimable_of_due ?_⟩
  simp only [Bool.and_eq_true] at hco ⊢
  exact ⟨⟨⟨hco.1.1.1.2, hco.1.1.2⟩, hco.1.2⟩, hco.2⟩

theorem claimNDueOutbox_claims {rows : List OutboxRow}
    (h : s.claimNDueOutbox F rowFails now owner d limit = .ok (rows, s')) :
    Claims now owner (saturatingAdd now d) s.outbox s'.outbox (rows.map OutboxRow.key) := by
  refine claimAll_claims ?_ ?_ (fun k c hc => ?_) h
  · exact fun _ => ⟨rfl, rfl⟩
  · exact fun _ hc => hc
  obtain ⟨hl, hco⟩ := Table.mem_selectBy hc
  exact ⟨hl, claimable_of_due hco⟩

theorem claimPendingDeliveriesWithLease_claims {rows : List OutboxRow}
    (h : s.claimPendingDeliveriesWithLease F rowFails limit now owner d = .ok (rows, s')) :
    Claims now owner (saturatingAdd now d) s.outbox s'.outbox (rows.map OutboxRow.key) := by
  refine claimAll_claims ?_ ?_ (fun k c hc => ?_) h
  · exact fun _ => ⟨rfl, rfl⟩
  · exact fun _ _ => rfl
  obtain ⟨hl, hco⟩ := Table.mem_selectBy hc
  simp only [Bool.and_eq_true, Bool.or_eq_true, decide_eq_true_eq] at hco
  refine ⟨hl, ?_, hco.2⟩
  rcases hco.1.1 with hst | hst <;> rw [hst] <;> rfl

end Claims

end Storage

end Boru
