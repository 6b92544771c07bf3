import Boru.Storage.Leases
import Mathlib.Data.List.DropRight

/-!
# Failures of deliveries

A failed delivery leaves a text.  The worker's classification reads a code before the first colon
of the text; finishing the attempt looks for words anywhere in it.  Every code of a failure that is
not retried contains one of the words, so the two agree on it.  They disagree where the details of
a transient failure contain one.

## Main results

* `failures_agree_iff` : the texts on which the two agree.
* `rejected_stream_is_terminal` : a failed connection that is not tried again.
-/

namespace Boru

open List

open GroupEncryption (Block)

inductive DeliveryFailure where
  | peerOffline
  | addressUnavailable
  | connectionFailed
  | timeout
  | relayUnavailable
  | protocolRejected
  | unauthorised
  | invalidRecipientState
  | messageExpired
  | contactRevoked
  | payloadTooLarge
  | localStorageFailure
  | internalError
  deriving DecidableEq

namespace DeliveryFailure

/-- Characters with the property `White_Space`. -/
def isWhitespace (c : Char) : Bool :=
  (9 ≤ c.toNat && c.toNat ≤ 13) || (8192 ≤ c.toNat && c.toNat ≤ 8202) ||
    c.toNat ∈ [32, 133, 160, 5760, 8232, 8233, 8239, 8287, 12288]

/-- What is before the first colon, without white space at its ends. -/
def codeOf (code : String) : List Char :=
  ((code.toList.takeWhile (· ≠ ':')).dropWhile isWhitespace).rdropWhile isWhitespace

/-- The stable codes. -/
def codes : List (String × DeliveryFailure) :=
  [("peer_offline", peerOffline), ("address_unavailable", addressUnavailable),
    ("connection_failed", connectionFailed), ("timeout", timeout),
    ("relay_unavailable", relayUnavailable), ("protocol_rejected", protocolRejected),
    ("unauthorised", unauthorised), ("unauthorized", unauthorised),
    ("invalid_recipient_state", invalidRecipientState), ("message_expired", messageExpired),
    ("outbox envelope expired", messageExpired), ("contact_revoked", contactRevoked),
    ("payload_too_large", payloadTooLarge), ("local_storage_failure", localStorageFailure)]

/-- Parse a stable failure code.  Unknown legacy text stays transient. -/
def fromCode (code : String) : DeliveryFailure :=
  ((codes.find? fun e => e.1.toList = codeOf code).map Prod.snd).getD internalError

/-- Whether another automatic attempt is safe without changing intent: the failures of the class
`Transient`. -/
def automaticRetry : DeliveryFailure → Bool
  | peerOffline | addressUnavailable | connectionFailed | timeout | relayUnavailable
  | localStorageFailure | internalError => true
  | protocolRejected | messageExpired | payloadTooLarge
  | unauthorised | invalidRecipientState | contactRevoked => false

/-- The code is one of a failure that is not retried, or none of the words is in the text. -/
def Unambiguous (code : String) : Prop :=
  codeOf code ∈ (codes.filter fun e => !e.2.automaticRetry).map (·.1.toList) ∨
    Storage.isTerminalError code = false

theorem isTerminalError_of_codes :
    ∀ e ∈ codes, e.2.automaticRetry = false → Storage.isTerminalError e.1 = true := by
  decide

theorem isTerminalError_of_infix {word code : String} (h : word.toList <:+: code.toList)
    (hw : Storage.isTerminalError word = true) : Storage.isTerminalError code = true := by
  obtain ⟨part, hp, hin⟩ := any_eq_true.1 hw
  exact any_eq_true.2 ⟨part, hp, decide_eq_true ((of_decide_eq_true hin).trans (h.map _))⟩

theorem codeOf_infix (code : String) : codeOf code <:+: code.toList := by
  unfold codeOf
  have hr := rdropWhile_prefix isWhitespace
    ((code.toList.takeWhile (· ≠ ':')).dropWhile isWhitespace)
  have ht := takeWhile_prefix (l := code.toList) (· ≠ ':')
  exact hr.isInfix.trans ((dropWhile_suffix _).isInfix.trans ht.isInfix)

theorem codes_injective : ∀ e ∈ codes, ∀ e' ∈ codes, e.1.toList = e'.1.toList → e = e' := by
  decide +kernel

/-- What is not retried has one of the codes, and what has one of them is not. -/
theorem not_automaticRetry_iff {code : String} : (fromCode code).automaticRetry = false ↔
    codeOf code ∈ (codes.filter fun e => !e.2.automaticRetry).map (·.1.toList) := by
  unfold fromCode
  rw [mem_map]
  cases hf : codes.find? fun e => e.1.toList = codeOf code with
  | none =>
    refine iff_of_false (by decide) ?_
    rintro ⟨e, he, hc⟩
    simpa [hc] using find?_eq_none.1 hf e (mem_filter.1 he).1
  | some e =>
    have hmem := mem_of_find?_eq_some hf
    have hc : e.1.toList = codeOf code := by simpa using find?_some hf
    constructor
    · exact fun hr => ⟨e, mem_filter.2 ⟨hmem, by simpa using hr⟩, hc⟩
    · rintro ⟨e', he', hcode'⟩
      obtain ⟨hmem', hr⟩ := mem_filter.1 he'
      obtain rfl := codes_injective e hmem e' hmem' (hc.trans hcode'.symm)
      simpa using hr

/-- A failure that is not retried is terminal. -/
theorem isTerminalError_of_not_retry {code : String} (h : (fromCode code).automaticRetry = false) :
    Storage.isTerminalError code = true := by
  obtain ⟨e, he, hc⟩ := mem_map.1 (not_automaticRetry_iff.1 h)
  obtain ⟨he, hr⟩ := mem_filter.1 he
  refine isTerminalError_of_infix ?_ (isTerminalError_of_codes e he (by simpa using hr))
  rw [hc]
  exact codeOf_infix code

/-- **Which failures are terminal.**  For a row that the worker has leased: the failure makes the
row terminal exactly if it is not to be retried, for every text that is not ambiguous, and for no
other.  The text of a recipient who may not be reached any more is that of an internal error. -/
theorem failures_agree_iff (k : OutboxKey) (leaseOwner code : String) (next clock : UInt64)
    (s : Storage) (h : (s.outbox.lookup k).any fun c =>
      c.leaseOwner = some leaseOwner && c.status ≠ .acked) :
    ((((s.finishOutboxAttempt k leaseOwner false next (some code) clock).2.outbox.lookup k).map
        (·.status) = some .expired ↔ (fromCode code).automaticRetry = false) ↔
      Unambiguous code) ∧ fromCode "recipient is no longer authorized" = internalError := by
  refine ⟨?_, by decide⟩
  obtain ⟨c, hc, hl⟩ := (Option.any_eq_true _ _).1 h
  have hs : ((s.finishOutboxAttempt k leaseOwner false next (some code) clock).2.outbox.lookup
      k).map (·.status) = some (Storage.finishedStatus false (some code)) := by
    unfold Storage.finishOutboxAttempt
    dsimp only
    rw [Table.lookup_updateRow_self, hc, Option.map_some, if_pos hl]
    rfl
  rw [hs, Unambiguous, ← not_automaticRetry_iff]
  have hte := @isTerminalError_of_not_retry code
  cases ht : Storage.isTerminalError code with
  | false => simpa [Storage.finishedStatus, ht] using hte
  | true => simp [Storage.finishedStatus, ht]

def key : OutboxKey := ⟨Block.replicate 32 0, Block.replicate 32 1⟩

/-- A store with one message, which a worker has claimed. -/
def claimed : Storage := { Workers.oneDelivery with
  outbox := Table.insertOrIgnore ∅ key (Storage.lease "a" 1000 (Storage.newRow 0)) }

/-- A code with details. -/
theorem failures_agree_iff_rejected :
    ((claimed.finishOutboxAttempt key "a" false 5 (some "protocol_rejected: version")
      1).2.outbox.lookup key).map (·.status) = some .expired :=
  ((failures_agree_iff key "a" "protocol_rejected: version" 5 1 claimed (by decide +kernel)).1.2
    (.inl (by decide +kernel))).2 (by decide +kernel)

/-- The details of a failed connection contain one of the words. -/
theorem rejected_stream_is_terminal :
    let code := "connection_failed: stream rejected"
    ((claimed.finishOutboxAttempt key "a" false 5 (some code) 1).2.outbox.lookup key).map
        (·.status) = some .expired ∧
      (fromCode code).automaticRetry = true ∧
      fromCode "recipient is no longer authorized" ≠ unauthorised := by
  decide +kernel

end DeliveryFailure

end Boru
