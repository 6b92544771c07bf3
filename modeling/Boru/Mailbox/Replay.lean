import Boru.LTS.Basic
import Boru.Mailbox.Store

/-!
# Replayed envelopes

A mailbox that accepts envelopes, has them acknowledged, serves them and is written to disk and read
back, while time passes.  An envelope should be reported as inserted once.

The evidence of an accepted envelope expires a retention period after it was accepted; the envelope
itself is valid up to a retention period after it was created.  An envelope created before it was
accepted has expired when the evidence of it is forgotten.  The clock of the sender may be ahead of
ours, however, by up to `MAX_FUTURE_SKEW_MS`, and then the envelope outlives the evidence.  The
retention period is not written to disk either: a mailbox with a shorter one comes back with the
default one, and envelopes it has forgotten are valid again.

## Main results

* `Mailbox.inserted_at_most_once` : in every run in which envelopes are accepted after they were
  created, and only mailboxes with at least the default retention period are read back, every
  envelope is inserted at most once.
* `Mailbox.envelope_inserted_twice` : two runs in which an envelope is inserted twice.
-/

namespace Boru

open Prog MailboxStore

open GroupEncryption (Block)

structure Mailbox where
  store : MailboxStore
  clock : UInt64

namespace Mailbox

inductive Input where
  | tick (now : UInt64)
  /-- `accept_incoming_with_status`; `later` is the second reading of the clock. -/
  | accept (identity : MailboxIdentity) (envelope : MailboxEnvelope)
    (allowedSenders : List PublicKey) (later : UInt64)
  | acknowledge (ack : MailboxAck)
  | pending
  /-- `pending_for_recipient_since`; `later` is the second reading of the clock. -/
  | pendingForRecipientSince (who : PublicKey) (sinceMs later : UInt64)
  | saveLoad

/-- A reading of a clock that never goes back. -/
def reading (clock later : UInt64) : UInt64 := if clock ≤ later then later else clock

/-- One step, and the envelope it reports as inserted. -/
def step (C : MailboxCrypto) (m : Mailbox) : Input → Mailbox × List MailboxEnvelope
  | .tick now => ({ m with clock := reading m.clock now }, [])
  | .accept identity envelope allowedSenders later =>
    let later := reading m.clock later
    let (r, store) := exec (acceptIncomingWithStatus C identity envelope
      allowedSenders m.clock later) m.store
    (⟨store, later⟩, match r with
      | .ok (_, _, .inserted) => [envelope]
      | _ => [])
  | .acknowledge ack =>
    ({ m with store := (exec (acknowledge C ack) m.store).2 }, [])
  | .pending => ({ m with store := (m.store.pending C m.clock).2 }, [])
  | .pendingForRecipientSince who sinceMs later =>
    let later := reading m.clock later
    (⟨(m.store.pendingForRecipientSince C who sinceMs m.clock later).2, later⟩, [])
  | .saveLoad =>
    match load (some (m.store.save m.clock)) with
    | .ok (some store) => ({ m with store }, [])
    | _ => (m, [])

def machine (C : MailboxCrypto) : Machine Mailbox Input MailboxEnvelope := ⟨step C⟩

/-- An envelope of the current format is accepted after it was created, and a mailbox that is read
back has at least the default retention period. -/
def Timely (m : Mailbox) : Input → Prop
  | .accept _ (.v2 e) _ later => e.createdAt < reading m.clock later
  | .saveLoad => defaultMailboxTtl ≤ m.store.ttl
  | _ => True

instance (m : Mailbox) (i : Input) : Decidable (Timely m i) := by
  unfold Timely
  split <;> infer_instance

/-! ### Evidence -/

/-- A step that inserts nothing: it forgets only evidence that has expired. -/
structure Quiet (m m' : Mailbox) : Prop where
  clock : m.clock.toNat ≤ m'.clock.toNat
  ttl : m'.store.ttl.toNat ≤ m.store.ttl.toNat
  evidence : ∀ id d, m.store.dedup.lookup id = some d → m'.store.dedup.lookup id = some d ∨
    d.1.toNat ≤ m.clock.toNat - m.store.ttl.toNat

structure Inserts (C : MailboxCrypto) (envelope : MailboxEnvelope) (m m' : Mailbox) : Prop where
  clock : m.clock.toNat ≤ m'.clock.toNat
  ttl : m'.store.ttl = m.store.ttl
  valid : m.clock.toNat ≤ envelope.createdAt.toNat + m.store.ttl.toNat
  unknown : m.store.dedup.lookup (C.messageId envelope) = none
  evidence : m'.store.dedup =
    m.store.dedup.insert (C.messageId envelope) (m'.clock, C.fingerprint envelope)

theorem le_reading (clock later : UInt64) : clock.toNat ≤ (reading clock later).toNat := by
  unfold reading
  split_ifs with h
  · exact h
  · exact le_refl _

variable {m m' : Mailbox}

/-- A step that keeps the evidence and the retention period. -/
theorem Quiet.of_eq (hc : m.clock.toNat ≤ m'.clock.toNat)
    (hd : m'.store.dedup = m.store.dedup) (ht : m'.store.ttl = m.store.ttl) : Quiet m m' :=
  ⟨hc, by rw [ht], fun _ _ h => .inl (by rw [hd]; exact h)⟩

/-- A step that removes what has expired. -/
theorem Quiet.of_expire (hc : m.clock.toNat ≤ m'.clock.toNat)
    (hde : m'.store.dedup = (m.store.expire m.clock).dedup)
    (ht : m'.store.ttl.toNat ≤ m.store.ttl.toNat) : Quiet m m' := by
  refine ⟨hc, ht, fun id d hd => ?_⟩
  rw [hde, expire, HashMap.lookup_retain, hd, Option.bind_some]
  split_ifs with hlt
  · exact .inl rfl
  · refine .inr ?_
    have hle : ¬ (saturatingSub m.clock m.store.ttl).toNat < d.1.toNat := hlt
    rw [toNat_saturatingSub] at hle
    omega

section Step

variable {C : MailboxCrypto} {m : Mailbox}

/-- Accepting inserts the envelope, or keeps the evidence. -/
theorem accept_cases (i : MailboxIdentity) (env : MailboxEnvelope)
    (a : List PublicKey) (l : UInt64) :
    let r := step C m (.accept i env a l)
    (Quiet m r.1 ∧ r.2 = []) ∨ (Inserts C env m r.1 ∧ r.2 = [env]) := by
  have hwp := wp_acceptIncomingWithStatus C i env a m.clock
    (reading m.clock l) m.store
  dsimp only [step]
  rcases hec : exec (acceptIncomingWithStatus C i env
    a m.clock (reading m.clock l)) m.store with ⟨r, store⟩
  cases r with
  | error e =>
    obtain ⟨hd, ht⟩ := (wp_of_error hec).1 hwp
    exact .inl ⟨.of_eq (le_reading _ _) hd ht, rfl⟩
  | ok r =>
    obtain ⟨id, data, acceptance⟩ := r
    obtain ⟨ht, ⟨rfl, hd⟩ | ⟨rfl, hv, hu, hd⟩⟩ := (wp_of_ok hec).1 hwp
    · exact .inl ⟨.of_eq (le_reading _ _) hd ht, rfl⟩
    · exact .inr ⟨⟨le_reading _ _, ht, hv, hu, hd⟩, rfl⟩

/-- An acknowledgement keeps the evidence. -/
theorem acknowledge_quiet (ack : MailboxAck) : Quiet m (step C m (.acknowledge ack)).1 := by
  have hwp : wp (acknowledge C ack)
      (fun _ s' => s'.dedup = m.store.dedup ∧ s'.ttl = m.store.ttl)
      (fun _ s' => s'.dedup = m.store.dedup ∧ s'.ttl = m.store.ttl) m.store := by
    unfold acknowledge
    simp
  obtain ⟨hd, ht⟩ := exec_of_wp hwp
  exact .of_eq (le_refl _) hd ht

theorem saveLoad_quiet (h : defaultMailboxTtl ≤ m.store.ttl) :
    Quiet m (step C m .saveLoad).1 ∧ (step C m .saveLoad).2 = [] := by
  dsimp only [step]
  split
  · rename_i store hl
    refine ⟨?_, rfl⟩
    dsimp only [load] at hl
    split_ifs at hl
    cases hl
    exact .of_expire (le_refl _) rfl h
  · exact ⟨.of_eq (le_refl _) rfl rfl, rfl⟩

/-- **What a step does.** -/
theorem step_cases {i : Input} (hg : Timely m i) :
    (Quiet m (step C m i).1 ∧ (step C m i).2 = []) ∨
      ∃ env, Inserts C env m (step C m i).1 ∧ (step C m i).2 = [env] ∧
        ∀ e, env = .v2 e → e.createdAt < (step C m i).1.clock := by
  cases i with
  | tick now => exact .inl ⟨.of_eq (le_reading _ _) rfl rfl, rfl⟩
  | accept iy env a later =>
    rcases accept_cases (C := C) (m := m) iy env a later with h | h
    · exact .inl h
    · refine .inr ⟨env, h.1, h.2, ?_⟩
      rintro e rfl
      exact hg
  | acknowledge ack => exact .inl ⟨acknowledge_quiet ack, rfl⟩
  | pending => exact .inl ⟨.of_expire (le_refl _) rfl (le_refl _), rfl⟩
  | pendingForRecipientSince who sinceMs later =>
    exact .inl ⟨.of_expire (le_reading _ _) rfl (le_refl _), rfl⟩
  | saveLoad => exact .inl (saveLoad_quiet hg)

end Step

/-! ### Runs -/

/-- There is evidence of the envelope, from after it was created, or it has expired. -/
def Remembered (C : MailboxCrypto) (m : Mailbox) (e : MailboxEnvelopeV2) : Prop :=
  (∃ d, m.store.dedup.lookup (C.messageId (.v2 e)) = some d ∧ e.createdAt.toNat < d.1.toNat) ∨
    e.createdAt.toNat + m.store.ttl.toNat < m.clock.toNat

variable {C : MailboxCrypto} {e : MailboxEnvelopeV2}

theorem Remembered.of_quiet (h : Remembered C m e) (hq : Quiet m m') : Remembered C m' e := by
  have hc := hq.clock
  have ht := hq.ttl
  rcases h with ⟨d, hd, hlt⟩ | hep
  · rcases hq.evidence _ d hd with hk | hf
    · exact .inl ⟨d, hk, hlt⟩
    · exact .inr (by omega)
  · exact .inr (by omega)

theorem Remembered.of_inserts {envelope : MailboxEnvelope} (h : Remembered C m e)
    (hi : Inserts C envelope m m') :
    Remembered C m' e := by
  have hc := hi.clock
  have ht := hi.ttl
  rcases h with ⟨d, hd, hlt⟩ | hep
  · have hne : C.messageId (.v2 e) ≠ C.messageId envelope := by
      intro heq
      rw [heq, hi.unknown] at hd
      cases hd
    refine .inl ⟨d, ?_, hlt⟩
    rw [hi.evidence, AList.lookup_insert_ne hne]
    exact hd
  · exact .inr (by rw [ht]; omega)

theorem Inserts.not_remembered (hi : Inserts C (.v2 e) m m') : ¬ Remembered C m e := by
  rintro (⟨d, hd, -⟩ | hep)
  · rw [hi.unknown] at hd
    cases hd
  · have hv := hi.valid
    have hc : (MailboxEnvelope.v2 e).createdAt = e.createdAt := rfl
    rw [hc] at hv
    omega

/-- Envelopes that were inserted are remembered, and were inserted once. -/
structure Once (C : MailboxCrypto) (m : Mailbox) (inserted : List MailboxEnvelope) : Prop where
  remembered : ∀ e, .v2 e ∈ inserted → Remembered C m e
  count : ∀ e, inserted.count (.v2 e) ≤ 1

theorem Once.step {inserted : List MailboxEnvelope} {i : Input} (h : Once C m inserted)
    (hg : Timely m i) :
    Once C (step C m i).1 (inserted ++ (step C m i).2) := by
  rcases step_cases (C := C) hg with ⟨hq, hout⟩ | ⟨env, hi, hout, hc⟩
  · rw [hout, List.append_nil]
    exact ⟨fun e he => (h.remembered e he).of_quiet hq, h.count⟩
  · rw [hout]
    refine ⟨fun e he => ?_, fun e => ?_⟩
    · rcases List.mem_append.1 he with he | he
      · exact (h.remembered e he).of_inserts hi
      · obtain rfl := List.mem_singleton.1 he
        have hk : (Mailbox.step C m i).1.store.dedup.lookup (C.messageId (.v2 e)) =
            some ((Mailbox.step C m i).1.clock, C.fingerprint (.v2 e)) := by
          rw [hi.evidence, AList.lookup_insert]
        exact .inl ⟨_, hk, hc e rfl⟩
    · rw [List.count_append]
      by_cases heq : env = .v2 e
      · subst heq
        have hn : .v2 e ∉ inserted := fun he => hi.not_remembered (h.remembered e he)
        rw [List.count_eq_zero_of_not_mem hn, List.count_singleton_self]
      · rw [List.count_singleton, if_neg (by simpa using heq)]
        exact h.count e

/-- **Envelopes are inserted at most once.**  In every run in which envelopes of the current format
are accepted after they were created, and only mailboxes with at least the default retention period
are read back, no such envelope is reported as inserted twice. -/
theorem inserted_at_most_once (C : MailboxCrypto) (m : Mailbox) (is : List Input)
    (hg : (machine C).Along Timely m is) (e : MailboxEnvelopeV2) :
    ((machine C).trace m is).count (.v2 e) ≤ 1 :=
  (Machine.trace_invariant_along (P := Once C) hg ⟨nofun, fun _ => Nat.zero_le 1⟩
    fun _ _ _ hi h => h.step hi).count e

def plainCrypto : MailboxCrypto where
  messageId e := String.ofList (e.ciphertext.map fun b => Char.ofNat b.toNat)
  fingerprint e := Block.replicate 32 (e.ciphertext.headD 0)
  encodedLen e := some (e.ciphertext.length + 256)
  signed _ := true
  encryptionKey k := k
  decrypt _ e := .ok e.ciphertext
  ackSigned _ := true

def recipient : MailboxIdentity := ⟨Block.replicate 32 1, Block.replicate 32 2⟩

def envelopeAt (createdAt : UInt64) (content : UInt8) : MailboxEnvelopeV2 where
  version := envelopeVersionV2
  sender := Block.replicate 32 3
  recipient := ⟨Block.replicate 32 1, Block.replicate 32 2⟩
  ephemeral := Block.replicate 32 4
  nonce := Block.replicate 12 0
  ciphertext := [content]
  createdAt := createdAt
  signature := Block.replicate 64 0

def deliver (createdAt : UInt64) : Input :=
  .accept recipient (.v2 (envelopeAt createdAt 97)) [Block.replicate 32 3] 0

/-- The recipient acknowledges the envelope. -/
def receipt : MailboxAck where
  version := acknowledgementVersion
  messageId := "a"
  originalSender := Block.replicate 32 3
  recipient := Block.replicate 32 1
  acknowledgedAtMs := 200
  status := some "accepted"
  signature := Block.replicate 64 0

/-- The envelope is delivered, acknowledged, and delivered again after a restart. -/
def redelivery : List Input := [deliver 50, .acknowledge receipt, .tick 300, .saveLoad, deliver 50]

theorem redelivery_inserted_once :
    (machine plainCrypto).trace ⟨.emptyAt, 100⟩ redelivery = [.v2 (envelopeAt 50 97)] ∧
      ((machine plainCrypto).trace ⟨.emptyAt, 100⟩ redelivery).count
        (.v2 (envelopeAt 50 97)) ≤ 1 := by
  have hg : (machine plainCrypto).Along Timely ⟨.emptyAt, 100⟩ redelivery := by decide +kernel
  exact ⟨by decide +kernel, inserted_at_most_once plainCrypto _ redelivery hg (envelopeAt 50 97)⟩

/-- An envelope from a clock 60 ms ahead is accepted, acknowledged, and accepted again a retention
period later.  So is an envelope of a mailbox with a retention period of a second, after it was
forgotten and the mailbox was read back. -/
theorem envelope_inserted_twice :
    ((machine plainCrypto).trace ⟨.emptyAt, 100⟩ [deliver 160, .acknowledge receipt,
      .tick (100 + defaultMailboxTtl), .pending, deliver 160]).count (.v2 (envelopeAt 160 97)) = 2 ∧
    ((machine plainCrypto).trace ⟨.withTtl 1000, 100⟩ [deliver 50, .tick 2000, .saveLoad,
      deliver 50]).count (.v2 (envelopeAt 50 97)) = 2 := by
  decide +kernel

end Mailbox

end Boru
