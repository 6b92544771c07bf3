import Boru.Prog.Basic
import Boru.Integers.BigEndian
import Boru.Call.Session

/-!
# Media datagrams

The fixed header of the datagrams that carry call media, and what is checked of it before a payload
is copied.  All fields of a received header come from the peer.

A function of the media path stops with an error that it returns, or panics (`Fault`).  An index or
a range outside of a byte string panics.

## Main results

* `MediaDatagram.parse_encode` : an encoded datagram is parsed to itself, or fails one of the
  checks.
* `MediaDatagram.parse_ne_panicked` : parsing panics on no input.
-/

namespace Boru.Call

open GroupEncryption (Block)

/-- Number of bytes in the fixed media datagram header (`MEDIA_HEADER_LEN`). -/
def mediaHeaderLen : ℕ := 40

/-- Current media datagram protocol version (`MEDIA_VERSION`). -/
def mediaVersion : UInt8 := 1

/-- Bit indicating that a video fragment starts a keyframe (`FLAG_KEYFRAME`). -/
def flagKeyframe : UInt16 := (1 : UInt16) <<< 0

/-- Bit indicating a discontinuity in the media sequence (`FLAG_DISCONTINUITY`). -/
def flagDiscontinuity : UInt16 := (1 : UInt16) <<< 1

def knownFlags : UInt16 := flagKeyframe ||| flagDiscontinuity

/-- Maximum encoded video access unit accepted by the live media path
(`MAX_ENCODED_VIDEO_FRAME_BYTES`). -/
def maxEncodedVideoFrameBytes : ℕ := 2 * 1024 * 1024

/-- Maximum number of fragments permitted for one encoded video access unit
(`MAX_VIDEO_FRAGMENTS_PER_FRAME`). -/
def maxVideoFragmentsPerFrame : UInt16 := 2048

/-- Errors encountered while framing or sizing media datagrams. -/
inductive MediaDatagramError where
  /-- The input was shorter than the fixed header. -/
  | truncatedHeader (actual : ℕ)
  /-- The four-byte protocol marker did not match. -/
  | badMagic
  /-- The protocol version is not supported. -/
  | badVersion (version : UInt8)
  /-- The media kind byte is not defined by this protocol. -/
  | unknownKind (kind : UInt8)
  /-- One or more reserved flag bits were set. -/
  | invalidFlags (flags : UInt16)
  | invalidCallId
  /-- The codec track identifier was all zeroes. -/
  | invalidTrackId
  /-- A datagram must contain at least one fragment. -/
  | invalidFragmentCount
  /-- The fragment index must be less than the fragment count. -/
  | fragmentIndexOutOfBounds (index count : UInt16)
  /-- The negotiated datagram is too small for the media framing header. -/
  | datagramTooSmall (maximum header : ℕ)
  /-- An encoded media frame contained no bytes to fragment. -/
  | emptyPayload
  /-- The frame would require more fragments than the wire field can carry. -/
  | fragmentCountOverflow
  /-- The peer advertised more fragments than the hard protocol limit. -/
  | tooManyFragments (count maximum : UInt16)
  /-- The peer advertised a frame larger than the hard protocol limit. -/
  | encodedFrameTooLarge (advertised maximum : ℕ)
  /-- The local reassembly budget is full of incomplete frames. -/
  | tooManyIncompleteFrames (maximum : ℕ)
  /-- A fragment arrived after its frame's reassembly deadline. -/
  | fragmentExpired

/-- How a function of the media path stops early. -/
inductive Fault where
  | returned (error : MediaDatagramError)
  | panicked

/-- The error of a function that does not panic. -/
def returning {α : Type} : Except MediaDatagramError α → Except Fault α
  | .ok a => .ok a
  | .error e => .error (.returned e)

/-- Return the error if the condition holds. -/
def reject (c : Prop) [Decidable c] (error : MediaDatagramError) : Except Fault Unit :=
  if c then .error (.returned error) else .ok ()

def byteAt (input : Bytes) (i : ℕ) : Except Fault UInt8 :=
  match input[i]? with
  | some byte => .ok byte
  | none => .error .panicked

def slice (input : Bytes) (start stop : ℕ) : Except Fault Bytes :=
  if start ≤ stop ∧ stop ≤ input.length then .ok ((input.take stop).drop start)
  else .error .panicked

/-- `copy_from_slice` into an array of `n` bytes. -/
def copyFromSlice (n : ℕ) (bytes : Bytes) : Except Fault (Block n) :=
  if h : bytes.length = n then .ok ⟨bytes, h⟩ else .error .panicked

theorem returning_ok {α : Type} (a : α) : returning (.ok a) = .ok a := rfl

theorem returning_eq_ok {α : Type} {x : Except MediaDatagramError α} {a : α} :
    returning x = .ok a ↔ x = .ok a := by
  cases x <;> simp [returning]

theorem reject_eq_ok {c : Prop} [Decidable c] {er : MediaDatagramError} :
    reject c er = .ok () ↔ ¬ c := by
  unfold reject
  split_ifs with h <;> simp [h]

/-! ### What does not panic -/

section Panics

variable {α β : Type}

theorem bind_ne_panicked {x : Except Fault α} {f : α → Except Fault β} (hx : x ≠ .error .panicked)
    (hf : ∀ a, x = .ok a → f a ≠ .error .panicked) :
    x >>= f ≠ .error .panicked := by
  cases x with
  | error e => exact fun h => hx (congrArg _ (Except.error.inj h))
  | ok a => exact hf a rfl

theorem returning_ne_panicked {x : Except MediaDatagramError α} :
    returning x ≠ .error .panicked := by
  cases x <;> simp [returning]

theorem reject_ne_panicked {c : Prop} [Decidable c] {er : MediaDatagramError} :
    reject c er ≠ .error .panicked := by
  unfold reject
  split_ifs <;> simp

theorem byteAt_ne_panicked {it : Bytes} {i : ℕ} (h : i < it.length) :
    byteAt it i ≠ .error .panicked := by
  rw [byteAt, List.getElem?_eq_getElem h]
  nofun

theorem slice_ne_panicked {i : Bytes} {start stop : ℕ} (h : start ≤ stop)
    (h' : stop ≤ i.length) : slice i start stop ≠ .error .panicked := by
  rw [slice, if_pos ⟨h, h'⟩]
  nofun

end Panics

/-! ### What is read -/

/-- A list starts with two parts iff it starts with the first one and continues with the other. -/
theorem append_prefix_iff (f back i : Bytes) :
    f ++ back <+: i ↔ f <+: i ∧ back <+: i.drop f.length := by
  constructor
  · rintro ⟨rest, rfl⟩
    rw [List.append_assoc, List.drop_left]
    exact ⟨List.prefix_append _ _, List.prefix_append _ _⟩
  · rintro ⟨⟨rest, rfl⟩, hb⟩
    rw [List.drop_left] at hb
    exact (List.prefix_append_right_inj f).2 hb

theorem slice_eq_ok_iff {i bytes : Bytes} {start stop : ℕ} (hs : start ≤ i.length) :
    slice i start stop = .ok bytes ↔ bytes <+: i.drop start ∧ stop = start + bytes.length := by
  unfold slice
  split_ifs with h
  · rw [Except.ok.injEq, List.drop_take, List.prefix_iff_eq_take]
    constructor
    · rintro rfl
      simp; omega
    · rintro ⟨h₁, h₂⟩
      rw [h₂, Nat.add_sub_cancel_left, ← h₁]
  · refine ⟨nofun, fun ⟨h₁, h₂⟩ => ?_⟩
    have hlen := h₁.length_le
    rw [List.length_drop] at hlen
    omega

theorem byteAt_eq_ok_iff {it : Bytes} {i : ℕ} {byte : UInt8} :
    byteAt it i = .ok byte ↔ [byte] <+: it.drop i := by
  unfold byteAt
  cases h : it.drop i with
  | nil => rw [← List.head?_drop, h]; simp
  | cons b rest => rw [← List.head?_drop, h]; simp [eq_comm]

/-! ### Datagrams -/

/-- The media pipeline to which a datagram belongs. -/
inductive MediaKind where
  | audio
  | video
  deriving DecidableEq

namespace MediaKind

def toWire : MediaKind → UInt8
  | .audio => 1
  | .video => 2

def fromWire (value : UInt8) : Except MediaDatagramError MediaKind :=
  if value = 1 then .ok .audio
  else if value = 2 then .ok .video
  else .error (.unknownKind value)

theorem fromWire_toWire (kind : MediaKind) : fromWire kind.toWire = .ok kind := by
  cases kind <;> rfl

end MediaKind

/-- A parsed media datagram, including its unmodified payload. -/
structure MediaDatagram where
  /-- Audio or video routing key. -/
  kind : MediaKind
  flags : UInt16
  callId : CallId
  /-- Codec track identifier within the call. -/
  trackId : UInt32
  /-- Monotonically increasing packet sequence number. -/
  sequence : UInt32
  timestamp : UInt32
  fragmentIndex : UInt16
  fragmentCount : UInt16
  payload : Bytes
  deriving DecidableEq

/-- Fragment metadata that can be checked without allocating a reassembly buffer. -/
structure FragmentMeta where
  fragmentIndex : UInt16
  /-- Peer-advertised number of fragments in the frame. -/
  fragmentCount : UInt16
  /-- Size of this fragment payload in bytes. -/
  payloadLen : ℕ

/-- Validate hostile fragment metadata before copying the payload or allocating storage for a
frame. -/
def validateFragmentMeta (fragment : FragmentMeta) : Except MediaDatagramError Unit :=
  if fragment.fragmentCount = 0 then .error .invalidFragmentCount
  else if maxVideoFragmentsPerFrame < fragment.fragmentCount then
    .error (.tooManyFragments fragment.fragmentCount maxVideoFragmentsPerFrame)
  else if fragment.fragmentCount ≤ fragment.fragmentIndex then
    .error (.fragmentIndexOutOfBounds fragment.fragmentIndex fragment.fragmentCount)
  else if maxEncodedVideoFrameBytes < fragment.payloadLen then
    .error (.encodedFrameTooLarge fragment.payloadLen maxEncodedVideoFrameBytes)
  else .ok ()

theorem validateFragmentMeta_eq_ok_iff {fragment : FragmentMeta} :
    validateFragmentMeta fragment = .ok () ↔
      fragment.fragmentCount ≤ maxVideoFragmentsPerFrame ∧
      fragment.fragmentIndex < fragment.fragmentCount ∧
      fragment.payloadLen ≤ maxEncodedVideoFrameBytes := by
  unfold validateFragmentMeta
  split_ifs with h₁ h₂ h₃ h₄
  · simp [h₁]
  · simp [h₂]
  · simp [h₃]
  · simp [h₄]
  · simpa using ⟨UInt16.not_lt.1 h₂, UInt16.not_le.1 h₃, Nat.le_of_not_lt h₄⟩

/-- Convert a negotiated datagram size into room for an encoded media payload. -/
def payloadCapacity (datagramSize : ℕ) : Except MediaDatagramError ℕ :=
  if datagramSize < mediaHeaderLen then .error (.datagramTooSmall datagramSize mediaHeaderLen)
  else .ok (datagramSize - mediaHeaderLen)

/-- The marker of the protocol, `BCL1`. -/
def mediaMagic : Bytes := [0x42, 0x43, 0x4c, 0x31]

namespace MediaDatagram

variable (datagram : MediaDatagram)

def fragmentMeta : FragmentMeta where
  fragmentIndex := datagram.fragmentIndex
  fragmentCount := datagram.fragmentCount
  payloadLen := datagram.payload.length

/-- Encode a datagram using the fixed version-1 wire header. -/
def encode : Bytes :=
  mediaMagic ++ [mediaVersion] ++ [datagram.kind.toWire] ++ toBeBytes 2 datagram.flags.toNat ++
    datagram.callId.1 ++ toBeBytes 4 datagram.trackId.toNat ++
    toBeBytes 4 datagram.sequence.toNat ++ toBeBytes 4 datagram.timestamp.toNat ++
    toBeBytes 2 datagram.fragmentIndex.toNat ++ toBeBytes 2 datagram.fragmentCount.toNat ++
    datagram.payload

/-- Parse and validate a complete media datagram. -/
def parse (input : Bytes) : Except Fault MediaDatagram := do
  reject (input.length < mediaHeaderLen) (.truncatedHeader input.length)
  let magic ← slice input 0 4
  reject (magic ≠ mediaMagic) .badMagic
  let version ← byteAt input 4
  reject (version ≠ mediaVersion) (.badVersion version)
  let kind ← returning (MediaKind.fromWire (← byteAt input 5))
  let flags := UInt16.ofNat (fromBeBytes [← byteAt input 6, ← byteAt input 7])
  reject (flags &&& ~~~knownFlags ≠ 0) (.invalidFlags flags)
  -- the source copies into an array of 16 bytes, which panics for any other length
  let callId ← copyFromSlice 16 (← slice input 8 24)
  reject (callId.1.all (· = 0)) .invalidCallId
  let trackId := UInt32.ofNat (fromBeBytes (← slice input 24 28))
  reject (trackId = 0) .invalidTrackId
  let sequence := UInt32.ofNat (fromBeBytes (← slice input 28 32))
  let timestamp := UInt32.ofNat (fromBeBytes (← slice input 32 36))
  let fragmentIndex := UInt16.ofNat (fromBeBytes (← slice input 36 38))
  let fragmentCount := UInt16.ofNat (fromBeBytes (← slice input 38 40))
  -- checked before the payload is copied
  returning (validateFragmentMeta
    { fragmentIndex := fragmentIndex, fragmentCount := fragmentCount
      payloadLen := input.length - mediaHeaderLen })
  let payload ← slice input mediaHeaderLen input.length
  return {
    kind := kind, flags := flags, callId := callId, trackId := trackId, sequence := sequence
    timestamp := timestamp, fragmentIndex := fragmentIndex, fragmentCount := fragmentCount
    payload := payload }

def check : Except Fault Unit := do
  reject (datagram.flags &&& ~~~knownFlags ≠ 0) (.invalidFlags datagram.flags)
  reject (datagram.callId.1.all (· = 0)) .invalidCallId
  reject (datagram.trackId = 0) .invalidTrackId
  returning (validateFragmentMeta datagram.fragmentMeta)

theorem check_eq_ok_iff {datagram : MediaDatagram} :
    datagram.check = .ok () ↔ datagram.flags &&& ~~~knownFlags = 0 ∧
      ¬ datagram.callId.1.all (· = 0) ∧ datagram.trackId ≠ 0 ∧
      validateFragmentMeta datagram.fragmentMeta = .ok () := by
  unfold check
  constructor
  · intro h
    obtain ⟨_, hf, h⟩ := Prog.except_bind_eq_ok h
    obtain ⟨_, hc, h⟩ := Prog.except_bind_eq_ok h
    obtain ⟨_, ht, h⟩ := Prog.except_bind_eq_ok h
    exact ⟨not_not.1 (reject_eq_ok.1 hf), reject_eq_ok.1 hc, reject_eq_ok.1 ht, returning_eq_ok.1 h⟩
  · rintro ⟨hf, hc, ht, hm⟩
    rw [reject_eq_ok.2 (not_not.2 hf), reject_eq_ok.2 hc, reject_eq_ok.2 ht, hm]
    rfl

@[simp] theorem length_encode :
    datagram.encode.length = mediaHeaderLen + datagram.payload.length := by
  simp [encode, mediaMagic, mediaHeaderLen, datagram.callId.2]
  omega

/-- Every field of a datagram has its place. -/
theorem encode_prefix_iff {datagram : MediaDatagram} {i : Bytes} :
    datagram.encode <+: i ↔ mediaMagic <+: i ∧ [mediaVersion] <+: i.drop 4 ∧
      [datagram.kind.toWire] <+: i.drop 5 ∧
      toBeBytes 2 datagram.flags.toNat <+: i.drop 6 ∧
      datagram.callId.1 <+: i.drop 8 ∧
      toBeBytes 4 datagram.trackId.toNat <+: i.drop 24 ∧
      toBeBytes 4 datagram.sequence.toNat <+: i.drop 28 ∧
      toBeBytes 4 datagram.timestamp.toNat <+: i.drop 32 ∧
      toBeBytes 2 datagram.fragmentIndex.toNat <+: i.drop 36 ∧
      toBeBytes 2 datagram.fragmentCount.toNat <+: i.drop 38 ∧
      datagram.payload <+: i.drop 40 := by
  have hm : mediaMagic.length = 4 := rfl
  simp only [encode, append_prefix_iff, List.length_append, List.length_singleton,
    length_toBeBytes, datagram.callId.2, hm, and_assoc]

theorem fromBeBytes_u16 (x : UInt16) : UInt16.ofNat (fromBeBytes (toBeBytes 2 x.toNat)) = x := by
  rw [fromBeBytes_toBeBytes x.toNat_lt, UInt16.ofNat_toNat]

theorem fromBeBytes_u32 (x : UInt32) : UInt32.ofNat (fromBeBytes (toBeBytes 4 x.toNat)) = x := by
  rw [fromBeBytes_toBeBytes x.toNat_lt, UInt32.ofNat_toNat]

/-- An encoded datagram is parsed to itself, unless its fields fail a check. -/
theorem parse_encode : parse datagram.encode = (do datagram.check; return datagram) := by
  obtain ⟨hm, hv, hk, hf, hca, htr, hse, ht, hi, hc, hp⟩ :=
    encode_prefix_iff.1 (List.prefix_refl datagram.encode)
  have hlen : datagram.encode.length = 40 + datagram.payload.length := length_encode datagram
  have hs : ∀ {bytes : Bytes} (start stop : ℕ), bytes <+: datagram.encode.drop start →
      start ≤ 40 → stop = start + bytes.length → slice datagram.encode start stop = .ok bytes :=
    fun start stop h hst hsp => (slice_eq_ok_iff (by omega)).2 ⟨h, hsp⟩
  -- the flags are read byte by byte, the other numbers as slices
  obtain ⟨hh, hl⟩ := (append_prefix_iff [UInt8.ofNat (datagram.flags.toNat / 256)]
    [UInt8.ofNat datagram.flags.toNat] _).1 hf
  rw [List.drop_drop, List.length_singleton] at hl
  have hr : UInt16.ofNat (fromBeBytes [.ofNat (datagram.flags.toNat / 256),
      .ofNat datagram.flags.toNat]) = datagram.flags := fromBeBytes_u16 datagram.flags
  have hco : copyFromSlice 16 datagram.callId.1 = .ok datagram.callId := dif_pos datagram.callId.2
  have hsh : ∀ e, reject (datagram.encode.length < mediaHeaderLen) e = .ok () := fun e =>
    reject_eq_ok.2 (by simp)
  have hm' : reject (mediaMagic ≠ mediaMagic) .badMagic = .ok () := reject_eq_ok.2 (by simp)
  have hv' : reject (mediaVersion ≠ mediaVersion) (.badVersion mediaVersion) = .ok () :=
    reject_eq_ok.2 (by simp)
  unfold parse check
  -- every read returns the field that was written there, and what is left are the checks
  rw [hsh, hs 0 4 hm (by decide) rfl, byteAt_eq_ok_iff.2 hv, byteAt_eq_ok_iff.2 hk,
    byteAt_eq_ok_iff.2 hh, byteAt_eq_ok_iff.2 hl,
    hs 8 24 hca (by decide) (by rw [datagram.callId.2]),
    hs 24 28 htr (by decide) (by simp), hs 28 32 hse (by decide) (by simp),
    hs 32 36 ht (by decide) (by simp), hs 36 38 hi (by decide) (by simp),
    hs 38 40 hc (by decide) (by simp), hs mediaHeaderLen _ hp (by decide) hlen,
    length_encode, Nat.add_sub_cancel_left]
  simp only [Prog.except_ok_bind, hm', hv', hr, fromBeBytes_u16, fromBeBytes_u32,
    MediaKind.fromWire_toWire, returning_ok, hco, bind_assoc, fragmentMeta]

theorem parse_ne_panicked (it : Bytes) : parse it ≠ .error .panicked := by
  refine bind_ne_panicked reject_ne_panicked fun _ hsh => ?_
  have hlen : 40 ≤ it.length := Nat.le_of_not_lt (reject_eq_ok.1 hsh)
  -- all reads are within the header, whose length was checked first
  have hs : ∀ start stop, start ≤ stop → stop ≤ 40 →
      slice it start stop ≠ .error .panicked := fun start stop h h' =>
    slice_ne_panicked h (h'.trans hlen)
  have hb : ∀ i < 40, byteAt it i ≠ .error .panicked := fun i h =>
    byteAt_ne_panicked (h.trans_le hlen)
  refine bind_ne_panicked (hs 0 4 (by decide) (by decide)) fun magic _ => ?_
  refine bind_ne_panicked reject_ne_panicked fun _ _ => ?_
  refine bind_ne_panicked (hb 4 (by decide)) fun ver _ => ?_
  refine bind_ne_panicked reject_ne_panicked fun _ _ => ?_
  refine bind_ne_panicked (hb 5 (by decide)) fun wire _ => ?_
  refine bind_ne_panicked returning_ne_panicked fun kind _ => ?_
  refine bind_ne_panicked (hb 6 (by decide)) fun high _ => ?_
  refine bind_ne_panicked (hb 7 (by decide)) fun low _ => ?_
  refine bind_ne_panicked reject_ne_panicked fun _ _ => ?_
  refine bind_ne_panicked (hs 8 24 (by decide) (by decide)) fun call hc => ?_
  have hc' := ((slice_eq_ok_iff (by omega)).1 hc).2
  have hco : copyFromSlice 16 call ≠ .error .panicked := by
    rw [copyFromSlice, dif_pos (by omega)]
    nofun
  refine bind_ne_panicked hco fun callId _ => ?_
  refine bind_ne_panicked reject_ne_panicked fun _ _ => ?_
  refine bind_ne_panicked (hs 24 28 (by decide) (by decide)) fun track _ => ?_
  refine bind_ne_panicked reject_ne_panicked fun _ _ => ?_
  refine bind_ne_panicked (hs 28 32 (by decide) (by decide)) fun seq _ => ?_
  refine bind_ne_panicked (hs 32 36 (by decide) (by decide)) fun ts _ => ?_
  refine bind_ne_panicked (hs 36 38 (by decide) (by decide)) fun index _ => ?_
  refine bind_ne_panicked (hs 38 40 (by decide) (by decide)) fun count _ => ?_
  refine bind_ne_panicked returning_ne_panicked fun _ _ => ?_
  exact bind_ne_panicked (slice_ne_panicked hlen le_rfl) fun data _ => nofun

end MediaDatagram

end Boru.Call
