import Boru.Storage.Leases

/-!
# The end of a delivery

A delivery ends when it is acknowledged or when it expires.  Every statement that writes the status
of a row guards the rows at their end, with one exception: `record_attempt` guards acknowledged rows
only, and makes an expired row `Sent` again, which is then claimed and delivered.

`finish_outbox_attempt` guards acknowledged rows only as well, but also asks for the lease, and an
expired row has none.

## Main results

* `Outbox.terminal_final_iff` : in a run from a store whose expired rows have no lease, all steps
  keep the rows that are at their end, and no claim returns one, exactly when no attempt is recorded
  on an expired row.
* `Outbox.recorded_attempt_revives` : an expired row that is claimed again.
-/

namespace Boru

open Storage

open GroupEncryption (Block Failure)

/-! ### Operations -/

/-- The operations on the outbox, with the times they read. -/
inductive OutboxOp where
  | enqueueOutbox (k : OutboxKey) (nextAttemptAtMs : UInt64)
  | claimDueOutbox (now : UInt64) (leaseOwner : String) (leaseDurationMs : UInt64) (limit : UInt32)
  | claimNDueOutbox (now : UInt64) (leaseOwner : String) (leaseDurationMs : UInt64)
    (limit : UInt32) (rowFails : OutboxKey → Bool)
  | claimDueOutboxForPeer (now : UInt64) (recipient : DeviceId) (leaseOwner : String)
    (leaseDurationMs : UInt64)
  | claimPendingDeliveriesWithLease (limit : UInt32) (now : UInt64) (leaseOwner : String)
    (leaseDurationMs : UInt64) (rowFails : OutboxKey → Bool)
  | claimPendingDeliveries (limit : UInt32) (now : UInt64) (rowFails : OutboxKey → Bool)
  | markSent (k : OutboxKey) (nextAttemptAtMs : UInt64)
  | markAcked (k : OutboxKey)
  | recordAttempt (k : OutboxKey) (nextAttemptAtMs : UInt64) (errorCode : Option String)
    (clock : UInt64)
  | finishOutboxAttempt (k : OutboxKey) (leaseOwner : String) (success : Bool)
    (nextAttemptAtMs : UInt64) (errorCode : Option String) (clock : UInt64)
  | extendOutboxLease (k : OutboxKey) (leaseOwner : String) (now lockedUntilMs : UInt64)
  | releaseOutboxLease (k : OutboxKey) (leaseOwner : String)
  | retryOutboxNow (k : OutboxKey) (now : UInt64)
  | wakeOutboxForPeer (recipient : DeviceId) (now : UInt64)
  | recoverStaleOutboxLeases (now : UInt64)
  | recoverStaleSendingDeliveries (now : UInt64)
  | expireOutbox (now : UInt64)
  | processOutgoingAck (peer : DeviceId) (ack : MailboxAck) (fault : Bool)
  | repairPendingDmProjections (now : UInt64)

/-- Perform an operation: the rows a claim returns, and the store. -/
def OutboxOp.perform (F : Formats) : OutboxOp → Storage → Except Failure (List OutboxRow × Storage)
  | .enqueueOutbox k next, s => pure ([], s.enqueueOutbox k next)
  | .claimDueOutbox now owner duration limit, s => do
    let (row, s) ← s.claimDueOutbox F now owner duration limit
    pure (row.toList, s)
  | .claimNDueOutbox now owner duration limit rowFails, s =>
    s.claimNDueOutbox F rowFails now owner duration limit
  | .claimDueOutboxForPeer now recipient owner duration, s => do
    let (row, s) ← s.claimDueOutboxForPeer F now recipient owner duration
    pure (row.toList, s)
  | .claimPendingDeliveriesWithLease limit now owner duration rowFails, s =>
    s.claimPendingDeliveriesWithLease F rowFails limit now owner duration
  | .claimPendingDeliveries limit now rowFails, s => s.claimPendingDeliveries F rowFails limit now
  | .markSent k next, s => pure ([], s.markSent k next)
  | .markAcked k, s => pure ([], s.markAcked k)
  | .recordAttempt k next errorCode clock, s => pure ([], s.recordAttempt k next errorCode clock)
  | .finishOutboxAttempt k owner success next errorCode clock, s =>
    pure ([], (s.finishOutboxAttempt k owner success next errorCode clock).2)
  | .extendOutboxLease k owner now lockedUntil, s =>
    pure ([], (s.extendOutboxLease k owner now lockedUntil).2)
  | .releaseOutboxLease k owner, s => pure ([], (s.releaseOutboxLease k owner).2)
  | .retryOutboxNow k now, s => pure ([], (s.retryOutboxNow k now).2)
  | .wakeOutboxForPeer recipient now, s => pure ([], (s.wakeOutboxForPeer recipient now).2)
  | .recoverStaleOutboxLeases now, s => pure ([], (s.recoverStaleOutboxLeases now).2)
  | .recoverStaleSendingDeliveries now, s => pure ([], (s.recoverStaleSendingDeliveries now).2)
  | .expireOutbox now, s => pure ([], (s.expireOutbox now).2)
  | .processOutgoingAck peer ack fault, s => do
    let (_, s) ← s.processOutgoingAck F peer ack fault
    pure ([], s)
  | .repairPendingDmProjections now, s => pure ([], (s.repairPendingDmProjections now).2)

namespace Outbox

inductive Input where
  /-- An operation on the outbox; the database may fail. -/
  | op (o : OutboxOp) (fault : Option Failure)
  | elsewhere (inbox : Table MessageId ℤ) (dmMessages : Table MessageId DmMessage)
    (dmOutbox : Table MessageId DmOutboxEntry) (dmAcknowledgements : Table MessageId MailboxAck)

variable (F : Formats)

variable (s : Storage)

/-- One step, and the rows it returns to be delivered. -/
def step : Input → Storage × List OutboxRow
  | .op o fault =>
    match fault with
    | some _ => (s, [])
    | none =>
      match o.perform F s with
      | .error _ => (s, [])
      | .ok (rows, s') => (s', rows)
  | .elsewhere inbox dmMessages dmOutbox dmAcknowledgements =>
    ({ s with inbox, dmMessages, dmOutbox, dmAcknowledgements }, [])

def machine : Machine Storage Input OutboxRow := ⟨step F⟩

/-- A status may follow another: acknowledged is for ever, and expired becomes nothing else than
acknowledged. -/
def Final (before after : DeliveryStatus) : Prop :=
  (before = .acked → after = .acked) ∧ (before = .expired → after = .expired ∨ after = .acked)

/-- A step keeps the rows that are at their end, and returns none of them. -/
def KeepsTerminal (i : Input) : Prop :=
  (∀ k c, s.outbox.lookup k = some c → ∃ c', (step F s i).1.outbox.lookup k = some c' ∧
    Final c.status c'.status) ∧
  ∀ row ∈ (step F s i).2, ∀ c, s.outbox.lookup row.key = some c → c.status.isTerminal = false

/-- The step records no attempt on an expired row. -/
def SparesExpired : Input → Prop
  | .op (.recordAttempt k ..) none => ∀ c ∈ s.outbox.lookup k, c.status ≠ .expired
  | _ => True

instance (s : Storage) (i : Input) : Decidable (SparesExpired s i) := by
  unfold SparesExpired
  split <;> infer_instance

/-! ### What an operation does to a row -/

variable (c : OutboxColumns)

def Released : Prop := c.status = .expired → c.leaseOwner = none

structure Advances (c c' : OutboxColumns) : Prop where
  final : Final c.status c'.status
  released : Released c → Released c'

theorem Advances.refl : Advances c c := ⟨⟨id, .inl⟩, id⟩

theorem Advances.trans {a b c : OutboxColumns} (h₁ : Advances a b) (h₂ : Advances b c) :
    Advances a c := by
  refine ⟨⟨fun ha => h₂.final.1 (h₁.final.1 ha), fun ha => ?_⟩,
    fun ha => h₂.released (h₁.released ha)⟩
  rcases h₁.final.2 ha with hb | hb
  · exact h₂.final.2 hb
  · exact .inr (h₂.final.1 hb)

/-- A row that is not at its end moves on to any status without a lease. -/
theorem Advances.of_open {c c' : OutboxColumns} (h : c.status.isTerminal = false)
    (h' : Released c') : Advances c c' := by
  refine ⟨⟨fun hc => ?_, fun hc => ?_⟩, fun _ => h'⟩ <;>
  · rw [hc] at h
    cases h

/-- All rows move on, and new rows that are expired have no lease. -/
structure Advancing (t t' : OutboxTable) : Prop where
  rows : ∀ k c, t.lookup k = some c → ∃ c', t'.lookup k = some c' ∧ Advances c c'
  new : ∀ k c', t.lookup k = none → t'.lookup k = some c' → Released c'

namespace Advancing

variable {t t' t'' : OutboxTable}

theorem refl (t : OutboxTable) : Advancing t t :=
  ⟨fun _ c h => ⟨c, h, .refl c⟩, fun _ _ h h' => by rw [h] at h'; cases h'⟩

theorem trans (h₁ : Advancing t t') (h₂ : Advancing t' t'') : Advancing t t'' := by
  refine ⟨fun k c hc => ?_, fun k c hn hc => ?_⟩
  · obtain ⟨c', hc', ha⟩ := h₁.rows k c hc
    obtain ⟨c'', hc'', hadv'⟩ := h₂.rows k c' hc'
    exact ⟨c'', hc'', ha.trans hadv'⟩
  · cases hm : t'.lookup k with
    | none => exact h₂.new k c hm hc
    | some c' =>
      obtain ⟨c'', hc'', ha⟩ := h₂.rows k c' hm
      cases hc''.symm.trans hc
      exact ha.released (h₁.new k c' hn hm)

theorem released (h : Advancing t t') (ht : ∀ k c, t.lookup k = some c → Released c) :
    ∀ k c, t'.lookup k = some c → Released c := by
  intro k c' hc'
  cases hc : t.lookup k with
  | none => exact h.new k c' hc hc'
  | some c =>
    obtain ⟨c'', hc'', ha⟩ := h.rows k c hc
    cases hc''.symm.trans hc'
    exact ha.released (ht k c hc)

/-- An update that moves on the rows it changes. -/
theorem update {cond : OutboxKey → OutboxColumns → Bool} {set : OutboxColumns → OutboxColumns}
    (h : ∀ k c, t.lookup k = some c → cond k c → Advances c (set c)) :
    Advancing t (t.update cond set) := by
  refine ⟨fun k c hc => ?_, fun k c' hn hc' => ?_⟩
  · refine ⟨_, by rw [Table.lookup_update, hc, Option.map_some], ?_⟩
    split_ifs with hco
    · exact h k c hc hco
    · exact .refl c
  · rw [Table.lookup_update, hn] at hc'
    cases hc'

theorem updateRow {k : OutboxKey} {cond : OutboxColumns → Bool}
    {set : OutboxColumns → OutboxColumns}
    (h : ∀ c, t.lookup k = some c → cond c → Advances c (set c)) :
    Advancing t (t.updateRow k cond set).1 := by
  dsimp only [Table.updateRow]
  refine update fun k' c hc hco => ?_
  rw [Bool.and_eq_true, decide_eq_true_eq] at hco
  obtain ⟨rfl, hco⟩ := hco
  exact h c hc hco

theorem insertOrIgnore (t : OutboxTable) (k : OutboxKey) (next : UInt64) :
    Advancing t (t.insertOrIgnore k (newRow next)) := by
  refine ⟨fun k' c hc => ⟨c, Table.lookup_insertOrIgnore_of_some hc, .refl c⟩, ?_⟩
  intro k' c' hn hc'
  obtain ⟨-, rfl⟩ := Table.lookup_insertOrIgnore_of_none hn hc'
  exact nofun

theorem of_claims {now : UInt64} {owner : String} {deadline : UInt64} {keys : List OutboxKey}
    (h : Storage.Claims now owner deadline t t' keys) : Advancing t t' := by
  refine ⟨fun k c hc => ?_, fun k c' hn hc' => ?_⟩
  · obtain ⟨c', hc', rfl | ⟨hcl, -, ho⟩⟩ := h.rows k c hc
    · exact ⟨c', hc', .refl c'⟩
    · refine ⟨c', hc', .of_open hcl.1 fun hep => ?_⟩
      rw [hep] at ho
      cases ho
  · rw [h.absent k hn] at hc'
    cases hc'

end Advancing

theorem advances_acknowledged : Advances c (acknowledged c) :=
  ⟨⟨fun _ => rfl, fun _ => .inr rfl⟩, nofun⟩

theorem processOutgoingAck_advancing {F : Formats} {peer : DeviceId} {ack : MailboxAck}
    {fault b : Bool} {s s' : Storage} (h : s.processOutgoingAck F peer ack fault = .ok (b, s')) :
    Advancing s.outbox s'.outbox := by
  unfold processOutgoingAck at h
  split at h
  · cases h
  split at h
  · cases h
  obtain ⟨-, -, h⟩ := Prog.except_bind_eq_ok h
  obtain ⟨bytes, -, h⟩ := Prog.except_bind_eq_ok h
  split at h
  · cases h
  split at h
  · cases h
    exact .refl _
  obtain ⟨found, -, h⟩ := Prog.except_bind_eq_ok h
  split at h
  · cases h
  split_ifs at h
  cases h
  dsimp only
  exact .updateRow fun c _ _ => advances_acknowledged c

theorem repairProjection_advancing (now : UInt64) (rows : List (MessageId × DmMessage))
    (s : Storage) :
    Advancing s.outbox (rows.foldl (repairProjection now) s).outbox := by
  induction rows generalizing s with
  | nil => exact .refl _
  | cons row rows ih =>
    refine Advancing.trans ?_ (ih _)
    unfold repairProjection
    split
    · exact .refl _
    · exact .insertOrIgnore _ _ _

/-- A change that leaves the status and the owner of the lease. -/
theorem Advances.of_eq {c c' : OutboxColumns} (hs : c'.status = c.status)
    (ho : c'.leaseOwner = c.leaseOwner ∨ c'.leaseOwner = none) : Advances c c' := by
  refine ⟨by rw [hs]; exact (Advances.refl c).final, fun h hep => ?_⟩
  rcases ho with ho | ho
  · rw [ho]
    exact h (hs ▸ hep)
  · exact ho

/-- What an operation returns is not at its end. -/
def ReturnsOpen (t : OutboxTable) (rows : List OutboxRow) : Prop :=
  ∀ row ∈ rows, ∀ c, t.lookup row.key = some c → c.status.isTerminal = false

theorem returnsOpen_nil (t : OutboxTable) : ReturnsOpen t [] := by
  intro row hr
  cases hr

theorem claims_advancing {now : UInt64} {owner : String} {deadline : UInt64}
    {t t' : OutboxTable} {rows : List OutboxRow}
    (h : Storage.Claims now owner deadline t t' (rows.map OutboxRow.key)) :
    Advancing t t' ∧ ReturnsOpen t rows := by
  refine ⟨.of_claims h, fun row hr c hc => ?_⟩
  obtain ⟨c₀, hc₀, hcl, -⟩ := h.leased row.key (List.mem_map_of_mem hr)
  cases hc.symm.trans hc₀
  exact hcl.1

/-- **What an operation does.**  Only an attempt recorded on an expired row is a step back. -/
theorem perform_advancing {F : Formats} {o : OutboxOp} {s s' : Storage} {rows : List OutboxRow}
    (hr : ∀ k c, s.outbox.lookup k = some c → Released c) (hg : SparesExpired s (.op o none))
    (h : o.perform F s = .ok (rows, s')) :
    Advancing s.outbox s'.outbox ∧ ReturnsOpen s.outbox rows := by
  cases o with
  | enqueueOutbox k next =>
    cases h
    exact ⟨.insertOrIgnore _ _ _, returnsOpen_nil _⟩
  | claimDueOutbox now owner d l =>
    obtain ⟨⟨row, t⟩, hcl, h⟩ := Prog.except_bind_eq_ok h
    cases h
    exact claims_advancing (claimDueOutbox_claims hcl)
  | claimNDueOutbox now owner d l rf =>
    exact claims_advancing (claimNDueOutbox_claims h)
  | claimDueOutboxForPeer now recipient owner d =>
    obtain ⟨⟨row, t⟩, hcl, h⟩ := Prog.except_bind_eq_ok h
    cases h
    exact claims_advancing (claimDueOutboxForPeer_claims hcl)
  | claimPendingDeliveriesWithLease l now owner d rf
  | claimPendingDeliveries l now rf =>
    exact claims_advancing (claimPendingDeliveriesWithLease_claims h)
  | markSent k next =>
    cases h
    dsimp only [markSent]
    refine ⟨.updateRow fun c _ hc => .of_open ?_ nofun, returnsOpen_nil _⟩
    simp only [Bool.and_eq_true, decide_eq_true_eq] at hc
    exact isTerminal_eq_false hc.1 hc.2
  | markAcked k =>
    cases h
    dsimp only [markAcked]
    exact ⟨.updateRow fun c _ _ => advances_acknowledged c, returnsOpen_nil _⟩
  | recordAttempt k next ec clock =>
    cases h
    dsimp only [recordAttempt]
    refine ⟨.updateRow fun c hl hc => .of_open ?_ nofun, returnsOpen_nil _⟩
    exact isTerminal_eq_false (of_decide_eq_true hc) (hg c hl)
  | finishOutboxAttempt k owner success next ec clock =>
    cases h
    refine ⟨.updateRow fun c hl hc => .of_open ?_ fun _ => rfl, returnsOpen_nil _⟩
    simp only [Bool.and_eq_true, decide_eq_true_eq] at hc
    refine isTerminal_eq_false hc.2 fun hep => ?_
    have hn := hr k c hl hep
    rw [hc.1] at hn
    cases hn
  | extendOutboxLease k owner now lockedUntil =>
    cases h
    exact ⟨.updateRow fun c _ _ => .of_eq rfl (.inl rfl), returnsOpen_nil _⟩
  | releaseOutboxLease k owner =>
    cases h
    exact ⟨.updateRow fun c _ _ => .of_eq rfl (.inr rfl), returnsOpen_nil _⟩
  | retryOutboxNow k now =>
    cases h
    dsimp only [retryOutboxNow, updateOutbox]
    exact ⟨.update fun _ c _ _ => .of_eq rfl (.inl rfl), returnsOpen_nil _⟩
  | wakeOutboxForPeer recipient now =>
    cases h
    dsimp only [wakeOutboxForPeer, updateOutbox]
    exact ⟨.update fun _ c _ _ => .of_eq rfl (.inl rfl), returnsOpen_nil _⟩
  | recoverStaleOutboxLeases now =>
    cases h
    dsimp only [recoverStaleOutboxLeases, updateOutbox]
    exact ⟨.update fun _ c _ _ => .of_eq rfl (.inr rfl), returnsOpen_nil _⟩
  | recoverStaleSendingDeliveries now =>
    cases h
    dsimp only [recoverStaleSendingDeliveries, updateOutbox]
    refine ⟨.update fun _ c _ hc => .of_open ?_ nofun, returnsOpen_nil _⟩
    rw [Bool.and_eq_true, decide_eq_true_eq] at hc
    rw [hc.1]
    rfl
  | expireOutbox now =>
    cases h
    dsimp only [expireOutbox, updateOutbox]
    refine ⟨.update fun _ c _ hc => .of_open ?_ fun _ => rfl, returnsOpen_nil _⟩
    simp only [Bool.and_eq_true, decide_eq_true_eq] at hc
    exact isTerminal_eq_false hc.1.1 hc.1.2
  | processOutgoingAck peer ack fault =>
    obtain ⟨⟨b, t⟩, ha, h⟩ := Prog.except_bind_eq_ok h
    cases h
    exact ⟨processOutgoingAck_advancing ha, returnsOpen_nil _⟩
  | repairPendingDmProjections now =>
    cases h
    exact ⟨repairProjection_advancing now _ s, returnsOpen_nil _⟩

/-! ### Runs -/

/-- The expired rows have no lease. -/
def AllReleased (s : Storage) : Prop := ∀ k c, s.outbox.lookup k = some c → Released c

section Step

variable {F : Formats} {s : Storage} {i : Input}

theorem step_advancing (hr : AllReleased s) (hg : SparesExpired s i) :
    Advancing s.outbox (step F s i).1.outbox ∧ ReturnsOpen s.outbox (step F s i).2 := by
  cases i with
  | elsewhere inbox dmMessages dmOutbox da => exact ⟨.refl _, returnsOpen_nil _⟩
  | op o fault =>
    cases fault with
    | some e => exact ⟨.refl _, returnsOpen_nil _⟩
    | none =>
      unfold step
      cases hp : o.perform F s with
      | error e =>
        simp only [hp]
        exact ⟨.refl _, returnsOpen_nil _⟩
      | ok p =>
        simp only [hp]
        exact perform_advancing hr hg hp

/-- An attempt recorded on an expired row makes it `Sent`. -/
theorem sparesExpired_of_keepsTerminal (h : KeepsTerminal F s i) : SparesExpired s i := by
  cases i with
  | elsewhere inbox dmMessages dmOutbox da => exact trivial
  | op o fault =>
    cases fault with
    | some e => cases o <;> exact trivial
    | none =>
      cases o with
      | recordAttempt k next ec clock =>
        intro c hc hep
        obtain ⟨c', hc', hf⟩ := h.1 k c hc
        have ha : (step F s (.op (.recordAttempt k next ec clock) none)).1.outbox.lookup
            k = some { c with
              attempts := c.attempts + 1
              nextAttemptAtMs := asI64 next
              lastErrorCode := ec
              lastAttemptAtMs := some (asI64 clock)
              status := .sent } := by
          show (s.outbox.updateRow k _ _).1.lookup k = _
          rw [Table.lookup_updateRow_self, hc, Option.map_some, if_pos (by simp [hep])]
        cases hc'.symm.trans ha
        rcases hf.2 hep with h | h <;> cases h
      | _ => exact trivial

/-- **One step.** -/
theorem keepsTerminal_iff_sparesExpired (hr : AllReleased s) :
    KeepsTerminal F s i ↔ SparesExpired s i := by
  refine ⟨sparesExpired_of_keepsTerminal, fun hg => ?_⟩
  obtain ⟨ha, ho⟩ := step_advancing (F := F) hr hg
  refine ⟨fun k c hc => ?_, ho⟩
  obtain ⟨c', hc', h⟩ := ha.rows k c hc
  exact ⟨c', hc', h.final⟩

end Step

/-- **The end of a delivery is final.**  In a run from a store whose expired rows have no lease, a
fresh one for instance, acknowledged rows stay acknowledged, expired rows become nothing else than
acknowledged, and neither is returned by a claim, exactly when no attempt is recorded on an expired
row. -/
theorem terminal_final_iff (F : Formats) (s : Storage) (hr : AllReleased s) (is : List Input) :
    (machine F).Along (KeepsTerminal F) s is ↔ (machine F).Along SparesExpired s is :=
  Machine.along_congr_of_invariant hr (fun _ _ h => keepsTerminal_iff_sparesExpired h)
    fun _ _ h hg => (step_advancing h hg).1.released h

/-- A message for a peer that expires at time 10. -/
def delivery : OutboxKey := ⟨Block.replicate 32 0, Block.replicate 32 1⟩

/-- A store with the expiry of the message and an empty outbox. -/
def freshStore : Storage where
  outbox := ∅
  inbox := Table.insertOrIgnore ∅ delivery.msgId 10
  dmMessages := ∅
  dmOutbox := ∅
  dmAcknowledgements := ∅

theorem freshStore_allReleased : AllReleased freshStore := by
  intro k c hc
  cases hc

/-- The message is tried, and expires. -/
def expiry : List Input :=
  [.op (.enqueueOutbox delivery 0) none, .op (.claimDueOutbox 0 "a" 5 1) none,
    .op (.recordAttempt delivery 7 (some "timeout") 1) none, .op (.expireOutbox 10) none,
    .op (.claimDueOutbox 11 "b" 5 1) none]

theorem expiry_final :
    (machine Workers.keysOnly).Along (KeepsTerminal Workers.keysOnly) freshStore expiry ∧
      (((machine Workers.keysOnly).exec freshStore expiry).outbox.lookup delivery).map
        OutboxColumns.status = some .expired := by
  have hg : (machine Workers.keysOnly).Along SparesExpired freshStore expiry := by
    decide +kernel
  exact ⟨(terminal_final_iff Workers.keysOnly freshStore freshStore_allReleased expiry).2 hg,
    by decide +kernel⟩

/-- The worker reports its attempt after the message has expired: the row is `Sent`, and is claimed
once more. -/
theorem recorded_attempt_revives :
    ¬ (machine Workers.keysOnly).Along (KeepsTerminal Workers.keysOnly) freshStore
        (expiry ++ [.op (.recordAttempt delivery 7 none 12) none]) ∧
      ((machine Workers.keysOnly).trace ((machine Workers.keysOnly).exec freshStore
        (expiry ++ [.op (.recordAttempt delivery 7 none 12) none]))
        [.op (.claimDueOutbox 13 "b" 5 1) none]).map OutboxRow.key = [delivery] := by
  refine ⟨fun h => ?_, by decide +kernel⟩
  have hs := sparesExpired_of_keepsTerminal (Machine.along_append.1 h).2.1
  revert hs
  decide +kernel

end Outbox

end Boru
