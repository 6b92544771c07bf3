import Boru.Collections.Table
import Boru.Integers
import Boru.LTS.Basic
import Boru.Mailbox.Types
import Boru.Prog.Basic

/-!
# Group membership events and their replay markers

A group has an owner, members, open invitations and an epoch.  Signed events change them; an event
names the epoch it belongs to, and its identifier is a truncated hash of its contents.

Accepted identifiers are kept in a cache of bounded size and, where a store is attached, in a table
that the groups of the process share.  The markers of epochs that lie more than two epochs back are
pruned from both.  Every statement of the store can fail.

Hashes, signatures and encodings are a parameter, `GroupEventCrypto`.
-/

namespace Boru.GroupEvents

open Prog

open GroupEncryption (Block)
open Gossip (TopicId)

/-! ### Events -/

/-- The role an authenticated actor has in a group. -/
inductive Role where
  | owner
  | member
  deriving DecidableEq

inductive GroupEventPayload where
  | memberInvited (member : PublicKey)
  | memberJoined (member : PublicKey)
  | memberLeft (member : PublicKey)
  | memberRemoved (member : PublicKey)
  | metadataChanged (name description : Option String)
  | epochChanged (epoch : UInt64)
  deriving DecidableEq

/-- The signed envelope shared by every event. -/
structure GroupEventEnvelope where
  version : UInt8
  groupId : TopicId
  /-- Event identifier used for replay protection. -/
  eventId : Block 16
  nonce : Block 16
  epoch : UInt64
  actor : PublicKey
  timestamp : UInt64
  payload : GroupEventPayload
  /-- Signature over all fields except this signature. -/
  signature : Block 64
  deriving DecidableEq

/-- An authenticated group-control event. -/
inductive GroupEvent where
  | memberInvited (e : GroupEventEnvelope)
  | memberJoined (e : GroupEventEnvelope)
  | memberLeft (e : GroupEventEnvelope)
  | memberRemoved (e : GroupEventEnvelope)
  | metadataChanged (e : GroupEventEnvelope)
  | epochChanged (e : GroupEventEnvelope)
  deriving DecidableEq

namespace GroupEvent

def envelope : GroupEvent → GroupEventEnvelope
  | memberInvited e | memberJoined e | memberLeft e | memberRemoved e | metadataChanged e
  | epochChanged e => e

def fromPayload (e : GroupEventEnvelope) : GroupEventPayload → GroupEvent
  | .memberInvited _ => memberInvited e
  | .memberJoined _ => memberJoined e
  | .memberLeft _ => memberLeft e
  | .memberRemoved _ => memberRemoved e
  | .metadataChanged _ _ => metadataChanged e
  | .epochChanged _ => epochChanged e

def variantMatches (event : GroupEvent) : Bool :=
  event = fromPayload event.envelope event.envelope.payload

end GroupEvent

inductive ReplayStoreError where
  /-- Underlying database failure. -/
  | db (message : String)
  /-- The shared connection lock was poisoned. -/
  | lock (message : String)

def ReplayStoreError.toString : ReplayStoreError → String
  | db message => "replay store db error: " ++ message
  | lock message => "replay store lock error: " ++ message

/-- Validation failures for group events. -/
inductive GroupValidationError where
  | decode (message : String)
  | unsupportedVersion (version : UInt8)
  | invalidSignature
  | wrongGroup
  | wrongEpoch (expected actual : UInt64)
  | notMember
  | permissionDenied
  | replay
  | eventIdMismatch
  | replayStore (message : String)
  | timestampOutOfRange
  | payloadTooLarge (length : ℕ)
  | payloadMismatch

def groupEventVersion : UInt8 := 2

def maxGroupEventPayload : ℕ := 16 * 1024

def maxGroupEventClockSkewSecs : ℕ := 24 * 60 * 60

def replayWindowPriorEpochs : UInt64 := 2

def replayMemoryCacheMax : ℕ := 4096

def replayPruneBatch : ℕ := 500

/-! ### Cryptography -/

/-- The contents of an event: all that its identifier is derived from. -/
structure EventContents where
  version : UInt8
  actor : PublicKey
  groupId : TopicId
  epoch : UInt64
  timestamp : UInt64
  nonce : Block 16
  payload : GroupEventPayload
  deriving DecidableEq

def GroupEventEnvelope.contents (e : GroupEventEnvelope) : EventContents :=
  ⟨e.version, e.actor, e.groupId, e.epoch, e.timestamp, e.nonce, e.payload⟩

/-- The cryptography and the encodings that events depend on. -/
structure GroupEventCrypto where
  encodePayload : GroupEventPayload → Except String Bytes
  /-- The bytes that are signed: contents and identifier under the domain of group events. -/
  unsignedBytes : EventContents → Block 16 → Except String Bytes
  /-- The bytes that were signed before there was a domain. -/
  legacyUnsignedBytes : EventContents → Block 16 → Except String Bytes
  /-- Whether a signature over the bytes is that of the key. -/
  verify : PublicKey → Block 64 → Bytes → Bool
  /-- The identifier of an event: the first bytes of the hash of its contents. -/
  makeEventId : EventContents → Except String (Block 16)

namespace GroupEventCrypto

/-- Verify a signature against the canonical bytes or else against the legacy ones. -/
def verifyCanonicalOrLegacy (C : GroupEventCrypto) (key : PublicKey) (signature : Block 64)
    (canonical legacy : Bytes) : Bool :=
  C.verify key signature canonical || C.verify key signature legacy

end GroupEventCrypto

/-! ### The store of replay markers -/

/-- The columns of a replay marker besides its key. -/
structure ReplayMarker where
  epoch : ℤ
  seenAt : ℤ

/-- The store of accepted events, by group and identifier. -/
structure ReplayStore where
  markers : Table (TopicId × Block 16) ReplayMarker

/-- Outcome of an attempt to record a marker. -/
inductive RecordOutcome where
  /-- The marker was newly inserted. -/
  | recorded
  | alreadySeen

namespace ReplayStore

variable (store : ReplayStore)

/-- Check whether an event has already been accepted; `failing` is the error of the lookup, if it
fails. -/
def contains (failing : Option ReplayStoreError) (groupId : TopicId) (eventId : Block 16) :
    Except ReplayStoreError Bool :=
  match failing with
  | some err => .error err
  | none => .ok ((groupId, eventId) ∈ store.markers)

/-- Atomically record the marker of an accepted event. -/
def record (failing : Option ReplayStoreError) (groupId : TopicId) (epoch : UInt64)
    (eventId : Block 16) (seenAt : UInt64) :
    Except ReplayStoreError RecordOutcome × ReplayStore :=
  match failing with
  | some err => (.error err, store)
  | none =>
    (.ok (if (groupId, eventId) ∈ store.markers then .alreadySeen else .recorded),
      ⟨store.markers.insertOrIgnore (groupId, eventId) ⟨asI64 epoch, asI64 seenAt⟩⟩)

variable (groupId : TopicId)

variable (minEpoch : UInt64)

/-- Whether a marker is of the group and older than the epoch. -/
def isExpired (key : TopicId × Block 16) (marker : ReplayMarker) : Bool :=
  key.1 = groupId && marker.epoch < asI64 minEpoch

/-- The keys of the next batch of expired markers. -/
def nextBatch : List (TopicId × Block 16) :=
  ((store.markers.select (isExpired groupId minEpoch)).map Prod.fst).take replayPruneBatch

/-- Delete one batch of expired markers. -/
def deleteBatch : ReplayStore :=
  ⟨store.markers.delete fun key marker =>
    isExpired groupId minEpoch key marker && key ∈ store.nextBatch groupId minEpoch⟩

/-- The loop of `pruneOlderThan`: at most `n` statements, whose errors are given in order; `total`
counts the markers deleted so far. -/
def pruneBatches (groupId : TopicId) (minEpoch : UInt64) :
    ℕ → List (Option ReplayStoreError) → ℕ → ReplayStore → Except ReplayStoreError ℕ × ReplayStore
  | 0, _, total, store => (.ok total, store)
  | n + 1, failing, total, store =>
    match failing.head?.join with
    | some err => (.error err, store)
    | none =>
      let deleted := (store.nextBatch groupId minEpoch).length
      if deleted < replayPruneBatch then
        (.ok (total + deleted), store.deleteBatch groupId minEpoch)
      else
        pruneBatches groupId minEpoch n failing.tail (total + deleted)
          (store.deleteBatch groupId minEpoch)

/-- Remove the markers of the group that are older than the epoch, in bounded batches. -/
def pruneOlderThan (failing : List (Option ReplayStoreError)) (groupId : TopicId)
    (minEpoch : UInt64) : Except ReplayStoreError ℕ × ReplayStore :=
  pruneBatches groupId minEpoch (store.markers.entries.length + 1) failing 0 store

end ReplayStore

/-! ### The state of a group -/

/-- Authoritative membership state. -/
structure GroupState where
  groupId : TopicId
  owner : PublicKey
  epoch : UInt64
  members : HashMap PublicKey Role
  invited : Finset PublicKey
  /-- The replay cache: the epochs in which events were accepted. -/
  seen : HashMap (Block 16) UInt64
  /-- The durable store, if one is attached. -/
  replayStore : Option ReplayStore

/-- What the surroundings contribute to one application of an event: the clock and the failures of
the store. -/
structure Surroundings where
  now : UInt64
  /-- The clock when the marker is recorded. -/
  recordedAt : UInt64
  containsFails : Option ReplayStoreError
  recordFails : Option ReplayStoreError
  pruneFails : List (Option ReplayStoreError)

namespace GroupState

/-- Create a state with an owner, who is implicitly a member. -/
def new (groupId : TopicId) (owner : PublicKey) : GroupState where
  groupId := groupId
  owner := owner
  epoch := 0
  members := (∅ : HashMap PublicKey Role).insert owner .owner
  invited := ∅
  seen := ∅
  replayStore := none

/-- Create a state with a durable replay store attached. -/
def withReplayStore (groupId : TopicId) (owner : PublicKey) (store : ReplayStore) : GroupState :=
  { new groupId owner with replayStore := some store }

def roleOf (s : GroupState) (peer : PublicKey) : Option Role := s.members.lookup peer

/-- Prune replay markers older than the retention window.  A failure of the store is only logged. -/
def pruneReplay (s : GroupState) (failing : List (Option ReplayStoreError)) : GroupState :=
  let minEpoch := saturatingSub s.epoch replayWindowPriorEpochs
  { s with
    seen := s.seen.retain fun epoch => if minEpoch ≤ epoch then some epoch else none
    replayStore := s.replayStore.map fun store =>
      (store.pruneOlderThan failing s.groupId minEpoch).2 }

/-- The order of the cache entries by epoch and identifier. -/
def olderEntry (a b : UInt64 × Block 16) : Bool :=
  a.1 < b.1 || a.1 = b.1 && a.2.1 ≤ b.2.1

/-- Enforce the bound of the cache by evicting the oldest entries first. -/
def capSeenCache (s : GroupState) : GroupState :=
  if s.seen.entries.length ≤ replayMemoryCacheMax then s
  else
    let byEpoch := (s.seen.entries.map fun e => (e.2, e.1)).mergeSort olderEntry
    let excess := s.seen.entries.length - replayMemoryCacheMax
    { s with seen := (byEpoch.take excess).foldl (fun seen e => seen.erase e.2) s.seen }

end GroupState

/-! ### Verification -/

namespace GroupEventEnvelope

variable (e : GroupEventEnvelope) (s : GroupState)

/-- An epoch may only be replaced by a greater one. -/
def checkEpochChange : Except GroupValidationError Unit :=
  match e.payload with
  | .epochChanged epoch =>
    if epoch ≤ s.epoch then .error (.wrongEpoch (s.epoch + 1) epoch) else .ok ()
  | _ => .ok ()

/-- Authentication: size, time, signature and identifier. -/
def authenticate (C : GroupEventCrypto) (now : UInt64) (e : GroupEventEnvelope) :
    Except GroupValidationError Unit := do
  let encodedPayload ← (C.encodePayload e.payload).mapError .decode
  if maxGroupEventPayload < encodedPayload.length then
    .error (.payloadTooLarge encodedPayload.length)
  else if maxGroupEventClockSkewSecs < absDiff now e.timestamp then .error .timestampOutOfRange
  else do
    let unsigned ← (C.unsignedBytes e.contents e.eventId).mapError .decode
    let legacy ← (C.legacyUnsignedBytes e.contents e.eventId).mapError .decode
    if ¬ C.verifyCanonicalOrLegacy e.actor e.signature unsigned legacy then
      .error .invalidSignature
    else do
      let expectedId ← (C.makeEventId e.contents).mapError GroupValidationError.decode
      if expectedId ≠ e.eventId then .error .eventIdMismatch else .ok ()

/-- The identifier is new to the cache and to the store, which must answer. -/
def checkReplay (failing : Option ReplayStoreError) (e : GroupEventEnvelope) (s : GroupState) :
    Except GroupValidationError Unit :=
  if e.eventId ∈ s.seen then .error .replay
  else
    match s.replayStore with
    | none => .ok ()
    | some store => do
      let persisted ← (store.contains failing s.groupId e.eventId).mapError fun err =>
        GroupValidationError.replayStore err.toString
      if persisted then .error .replay else .ok ()

/-- Whether the actor accepts its own open invitation. -/
def joinsByInvitation : Bool :=
  e.payload = .memberJoined e.actor && e.actor ∈ s.invited

/-- The role of the actor: that of a member also for whoever accepts an invitation. -/
def actorRole : Option Role :=
  if e.actor = s.owner then some .owner
  else if e.actor ∈ s.members then some .member
  else if e.joinsByInvitation s then some .member
  else none

/-- Whether the role permits the operation. -/
def allowed (role : Role) : Bool :=
  match e.payload with
  | .memberInvited _ | .memberRemoved _ | .metadataChanged _ _ | .epochChanged _ => role = .owner
  | .memberLeft member => role = .member && member = e.actor
  | .memberJoined member => member = e.actor && member ∈ s.invited

/-- Authority: the role of the actor, if it permits the operation. -/
def authorize : Except GroupValidationError Role :=
  match e.actorRole s with
  | none => .error .notMember
  | some role => if e.allowed s role then .ok role else .error .permissionDenied

end GroupEventEnvelope

/-- Validate authentication, authority, identity, epoch, replay, time and size. -/
def GroupEvent.verify (C : GroupEventCrypto) (w : Surroundings) (event : GroupEvent)
    (s : GroupState) : Except GroupValidationError Role :=
  let e := event.envelope
  if e.version ≠ groupEventVersion then .error (.unsupportedVersion e.version)
  else if e.groupId ≠ s.groupId then .error .wrongGroup
  else if e.epoch ≠ s.epoch then .error (.wrongEpoch s.epoch e.epoch)
  else if ¬ event.variantMatches then .error .payloadMismatch
  else do
    e.checkEpochChange s
    e.authenticate C w.now
    e.checkReplay w.containsFails s
    e.authorize s

/-! ### Application -/

namespace GroupState

def perform (s : GroupState) : GroupEventPayload → GroupState
  | .memberInvited member => { s with invited := insert member s.invited }
  | .memberJoined member =>
    { s with invited := s.invited.erase member, members := s.members.insert member .member }
  | .memberLeft member | .memberRemoved member => { s with members := s.members.erase member }
  | .metadataChanged _ _ => s
  | .epochChanged epoch => { s with epoch := epoch }

/-- Change the state by an event whose marker is recorded. -/
def commit (s : GroupState) (w : Surroundings) (e : GroupEventEnvelope) : GroupState :=
  let s := s.perform e.payload
  let s := { s with seen := s.seen.insert e.eventId e.epoch }
  let s := s.capSeenCache
  match e.payload with
  | .epochChanged _ => s.pruneReplay w.pruneFails
  | _ => s

/-- Validate and apply an event.  The marker is recorded before the state changes. -/
def apply (C : GroupEventCrypto) (w : Surroundings) (s : GroupState) (event : GroupEvent) :
    GroupState × Except GroupValidationError Unit :=
  let e := event.envelope
  match event.verify C w s with
  | .error err => (s, .error err)
  | .ok _ =>
    match s.replayStore with
    | none => (s.commit w e, .ok ())
    | some store =>
      match store.record w.recordFails s.groupId e.epoch e.eventId w.recordedAt with
      | (.error err, store) =>
        ({ s with replayStore := some store }, .error (.replayStore err.toString))
      | (.ok .alreadySeen, store) => ({ s with replayStore := some store }, .error .replay)
      | (.ok .recorded, store) => ({ s with replayStore := some store }.commit w e, .ok ())

end GroupState

/-! ### Runs -/

/-- What can happen to a group: an event is applied, its markers are pruned, or the state of another
group records or prunes markers in the shared store. -/
inductive Call where
  | apply (w : Surroundings) (event : GroupEvent)
  | pruneReplay (failing : List (Option ReplayStoreError))
  | otherRecord (failing : Option ReplayStoreError) (groupId : TopicId) (epoch : UInt64)
      (eventId : Block 16) (seenAt : UInt64)
  | otherPrune (failing : List (Option ReplayStoreError)) (groupId : TopicId) (minEpoch : UInt64)

/-- The store after a use by the state of another group. -/
def GroupState.share (s : GroupState) (groupId : TopicId) (use : ReplayStore → ReplayStore) :
    GroupState :=
  if groupId = s.groupId then s else { s with replayStore := s.replayStore.map use }

/-- The group as a machine: the applied events and their results come out. -/
def group (C : GroupEventCrypto) :
    Machine GroupState Call (GroupEvent × Except GroupValidationError Unit) where
  step s
    | .apply w event => ((s.apply C w event).1, [(event, (s.apply C w event).2)])
    | .pruneReplay failing => (s.pruneReplay failing, [])
    | .otherRecord failing groupId epoch eventId seenAt =>
      (s.share groupId fun store => (store.record failing groupId epoch eventId seenAt).2, [])
    | .otherPrune failing groupId minEpoch =>
      (s.share groupId fun store => (store.pruneOlderThan failing groupId minEpoch).2, [])

/-- The envelopes of the events that were applied, in order. -/
def accepted (results : List (GroupEvent × Except GroupValidationError Unit)) :
    List GroupEventEnvelope :=
  results.filterMap fun
    | (event, .ok ()) => some event.envelope
    | _ => none

/-! ### What an application does -/

variable {C : GroupEventCrypto} {w : Surroundings} {s : GroupState} {event : GroupEvent}
  {e : GroupEventEnvelope}

/-- What is known of an event that `verify` accepts, apart from its freshness. -/
structure GroupState.Accepted (C : GroupEventCrypto) (s : GroupState) (e : GroupEventEnvelope) :
    Prop where
  epoch_eq : e.epoch = s.epoch
  /-- An epoch is replaced by a greater one. -/
  advances : ∀ epoch, e.payload = .epochChanged epoch → s.epoch < epoch
  /-- The identifier is that of the contents. -/
  eventId_eq : C.makeEventId e.contents = .ok e.eventId
  /-- The role of the actor permits the operation. -/
  permitted : ∃ role, e.actorRole s = some role ∧ e.allowed s role

namespace GroupEventEnvelope

theorem lt_of_checkEpochChange (h : e.checkEpochChange s = .ok ()) {epoch : UInt64}
    (he : e.payload = .epochChanged epoch) : s.epoch < epoch := by
  simp only [checkEpochChange, he] at h
  split_ifs at h with hle
  exact UInt64.not_le.1 hle

theorem eventId_of_authenticate {now : UInt64} (h : e.authenticate C now = .ok ()) :
    C.makeEventId e.contents = .ok e.eventId := by
  obtain ⟨encoded, -, h⟩ := except_bind_eq_ok h
  split_ifs at h
  obtain ⟨unsigned, -, h⟩ := except_bind_eq_ok h
  obtain ⟨legacy, -, h⟩ := except_bind_eq_ok h
  split_ifs at h
  obtain ⟨expectedId, hid, h⟩ := except_bind_eq_ok h
  split_ifs at h with hne
  cases hm : C.makeEventId e.contents with
  | error msg =>
    rw [hm] at hid
    cases hid
  | ok id =>
    rw [hm] at hid
    cases hid
    rw [not_not.1 hne]

theorem permitted_of_authorize {role : Role} (h : e.authorize s = .ok role) :
    e.actorRole s = some role ∧ e.allowed s role := by
  simp only [authorize] at h
  split at h
  · cases h
  · rename_i r hr
    split_ifs at h with ha
    cases h
    exact ⟨hr, ha⟩

end GroupEventEnvelope

theorem GroupEvent.accepted_of_verify {role : Role} (h : event.verify C w s = .ok role) :
    s.Accepted C event.envelope := by
  simp only [verify] at h
  split_ifs at h with _ _ hep
  obtain ⟨⟨⟩, hc, h⟩ := except_bind_eq_ok h
  obtain ⟨⟨⟩, ha, h⟩ := except_bind_eq_ok h
  obtain ⟨⟨⟩, -, h⟩ := except_bind_eq_ok h
  exact ⟨not_not.1 hep, fun _ he => GroupEventEnvelope.lt_of_checkEpochChange hc he,
    GroupEventEnvelope.eventId_of_authenticate ha, role,
    GroupEventEnvelope.permitted_of_authorize h⟩

namespace GroupState

/-- The store after the marker of an accepted event was recorded, if there is a store. -/
def Marked (s : GroupState) (w : Surroundings) (e : GroupEventEnvelope)
    (store : Option ReplayStore) : Prop :=
  (s.replayStore = none ∧ store = none) ∨
    ∃ before, s.replayStore = some before ∧ (s.groupId, e.eventId) ∉ before.markers ∧
      store = some ⟨before.markers.insert (s.groupId, e.eventId)
        ⟨asI64 e.epoch, asI64 w.recordedAt⟩⟩

variable (s : GroupState) (w : Surroundings) (e : GroupEventEnvelope) (payload : GroupEventPayload)

/-- An application fails and changes nothing, or records the marker and commits the event. -/
theorem apply_cases (C : GroupEventCrypto) (w : Surroundings) (s : GroupState)
    (event : GroupEvent) :
    (∃ err, s.apply C w event = (s, .error err)) ∨
      s.Accepted C event.envelope ∧ ∃ store, s.Marked w event.envelope store ∧
        s.apply C w event = ({ s with replayStore := store }.commit w event.envelope, .ok ()) := by
  simp only [apply]
  split
  · exact .inl ⟨_, rfl⟩
  rename_i role hv
  have ha := GroupEvent.accepted_of_verify hv
  cases hs : s.replayStore with
  | none =>
    have hse : { s with replayStore := none } = s := by rw [← hs]
    refine .inr ⟨ha, none, .inl ⟨hs, rfl⟩, ?_⟩
    rw [hse]
  | some pre =>
    have hse : { s with replayStore := some pre } = s := by rw [← hs]
    cases hf : w.recordFails with
    | some err =>
      simp [ReplayStore.record, hse]
    | none =>
      by_cases hmem : (s.groupId, event.envelope.eventId) ∈ pre.markers
      · refine .inl ⟨.replay, ?_⟩
        simp [ReplayStore.record, hmem, Table.insertOrIgnore, hse]
      · refine .inr ⟨ha, _, .inr ⟨pre, hs, hmem, rfl⟩, ?_⟩
        simp [ReplayStore.record, hmem, Table.insertOrIgnore]

/-! Recording an event and pruning its traces change neither the members nor the epoch. -/

/-- The cache is all that the eviction changes. -/
theorem capSeenCache_eq : ∃ seen, s.capSeenCache = { s with seen := seen } := by
  simp only [capSeenCache]
  split_ifs
  · exact ⟨s.seen, rfl⟩
  · exact ⟨_, rfl⟩

/-- What a commit does apart from the cache: the operation, and a prune after a change of epoch. -/
theorem commit_eq :
    ∃ seen, s.commit w e = { s.perform e.payload with seen := seen } ∨
      (∃ ep, e.payload = .epochChanged ep) ∧
        s.commit w e = { s.perform e.payload with seen := seen }.pruneReplay w.pruneFails := by
  obtain ⟨seen, hs⟩ := capSeenCache_eq
    { s.perform e.payload with seen := (s.perform e.payload).seen.insert e.eventId e.epoch }
  refine ⟨seen, ?_⟩
  simp only [commit, hs]
  cases he : e.payload with
  | epochChanged ep => exact .inr ⟨⟨ep, rfl⟩, rfl⟩
  | memberInvited _ | memberJoined _ | memberLeft _ | memberRemoved _ | metadataChanged _ _ =>
    exact .inl rfl

@[simp] theorem groupId_perform :
    (s.perform payload).groupId = s.groupId := by cases payload <;> rfl

@[simp] theorem owner_perform : (s.perform payload).owner = s.owner := by cases payload <;> rfl

@[simp] theorem replayStore_perform :
    (s.perform payload).replayStore = s.replayStore := by cases payload <;> rfl

/-- The group, the owner, the epoch, the members and the invitations are those of the operation. -/
theorem commit_fields :
    (s.commit w e).groupId = s.groupId ∧ (s.commit w e).owner = s.owner ∧
      (s.commit w e).epoch = (s.perform e.payload).epoch ∧
      (s.commit w e).members = (s.perform e.payload).members ∧
      (s.commit w e).invited = (s.perform e.payload).invited := by
  obtain ⟨seen, h | ⟨-, h⟩⟩ := commit_eq s w e
  · simp [h]
  · simp [h, pruneReplay]

end GroupState

end Boru.GroupEvents
