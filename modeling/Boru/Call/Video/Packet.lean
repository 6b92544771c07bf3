import Boru.Collections.Chunks
import Boru.Call.Media

/-!
# Packets of call video

An encoded frame is cut into fragments, each with a header of its own, that fit into the datagrams
of the connection.

## Main results

* `VideoPacketizer.fragmentFrame_of_overflow`, `VideoPacketizer.fragmentFrame_eq_ok` : what the
  packetizer answers, in terms of the sizes, where a datagram has room for more than the header.
* `VideoPacketizer.payloads_cut` : the payloads of the fragments are the pieces of the frame.
* `VideoPacketizer.check_cut` : which of the fragments a receiver accepts.
-/

namespace Boru.Call

/-- An encoded video access unit.  Its codec and dimensions are not sent with it. -/
structure EncodedVideoFrame where
  /-- Presentation timestamp copied from the raw frame. -/
  timestampUs : UInt64
  /-- Whether this access unit is independently decodable. -/
  keyframe : Bool
  bytes : Bytes

/-- Stateful packetizer for encoded live-video frames. -/
structure VideoPacketizer where
  nextFrameId : UInt32

namespace VideoPacketizer

/-- A packetizer whose first frame has id zero. -/
def new : VideoPacketizer := ⟨0⟩

def fragment (frameId : UInt32) (callId : CallId) (trackId : UInt32) (frame : EncodedVideoFrame)
    (fragmentCount : UInt16) (payload : Bytes) (index : ℕ) : MediaDatagram where
  kind := .video
  flags := if frame.keyframe then flagKeyframe else 0
  callId := callId
  trackId := trackId
  sequence := frameId
  timestamp := frame.timestampUs.toUInt32
  fragmentIndex := UInt16.ofNat index
  fragmentCount := fragmentCount
  payload := payload

/-- The fragments of a frame with payloads of this length. -/
def fragments (frameId : UInt32) (callId : CallId) (trackId : UInt32) (frame : EncodedVideoFrame)
    (fragmentCount : UInt16) (capacity : ℕ) : List MediaDatagram :=
  (chunks capacity frame.bytes).mapIdx fun index payload =>
    fragment frameId callId trackId frame fragmentCount payload index

/-- Fragment one encoded frame using the negotiated datagram size. -/
def fragmentFrame (packetizer : VideoPacketizer) (callId : CallId) (trackId : UInt32)
    (frame : EncodedVideoFrame) (maxDatagramSize : ℕ) :
    VideoPacketizer × Except Fault (List MediaDatagram) :=
  match payloadCapacity maxDatagramSize with
  | .error e => (packetizer, .error (.returned e))
  | .ok capacity =>
    if frame.bytes.isEmpty then (packetizer, .error (.returned .emptyPayload))
    else
      match divCeil frame.bytes.length capacity with
      | none => (packetizer, .error .panicked)
      | some fragmentCount =>
        -- `u16::try_from`
        if 2 ^ 16 ≤ fragmentCount then (packetizer, .error (.returned .fragmentCountOverflow))
        else
          ({ packetizer with nextFrameId := packetizer.nextFrameId + 1 },
            .ok (fragments packetizer.nextFrameId callId trackId frame (.ofNat fragmentCount)
              capacity))

end VideoPacketizer

/-- A bounded encoded video packet transported by a live call, as the older interface has it. -/
structure VideoPacket where
  callId : CallId
  sequence : UInt32
  timestamp : UInt32
  /-- Whether this packet starts an independently decodable frame. -/
  keyframe : Bool
  /-- Encoded live-media payload. -/
  payload : Bytes

namespace VideoPacketizer

variable {frameId : UInt32} {callId : CallId} {trackId : UInt32} {frame : EncodedVideoFrame}
  {capacity : ℕ} {d : MediaDatagram}

/-- The fragments, with their number as the packetizer counts them. -/
def cut (frameId : UInt32) (callId : CallId) (trackId : UInt32) (frame : EncodedVideoFrame)
    (capacity : ℕ) : List MediaDatagram :=
  fragments frameId callId trackId frame (.ofNat (chunks capacity frame.bytes).length) capacity

theorem length_cut : (cut frameId callId trackId frame capacity).length =
    (chunks capacity frame.bytes).length := List.length_mapIdx

theorem cut_getElem? (i : ℕ) : (cut frameId callId trackId frame capacity)[i]? =
    (chunks capacity frame.bytes)[i]?.map fun data =>
      fragment frameId callId trackId frame (.ofNat (chunks capacity frame.bytes).length)
        data i := List.getElem?_mapIdx

/-- A fragment is one of the pieces, with the header of the frame. -/
theorem mem_cut (h : d ∈ cut frameId callId trackId frame capacity) :
    ∃ i data, data ∈ chunks capacity frame.bytes ∧
      i < (chunks capacity frame.bytes).length ∧
      d = fragment frameId callId trackId frame (.ofNat (chunks capacity frame.bytes).length)
        data i := by
  obtain ⟨i, hi⟩ := List.mem_iff_getElem?.1 h
  rw [cut_getElem?, Option.map_eq_some_iff] at hi
  obtain ⟨data, hp, rfl⟩ := hi
  exact ⟨i, data, List.mem_of_getElem? hp, (List.getElem?_eq_some_iff.1 hp).1, rfl⟩

/-- The payloads of the fragments are the pieces. -/
theorem payloads_cut : (cut frameId callId trackId frame capacity).map MediaDatagram.payload =
    chunks capacity frame.bytes := by
  refine List.ext_getElem? fun i => ?_
  rw [List.getElem?_map, cut_getElem?, Option.map_map]
  exact Option.map_id'

section Count

variable (hc : (chunks capacity frame.bytes).length < 2 ^ 16)

include hc

theorem check_cut (hd : d ∈ cut frameId callId trackId frame capacity) :
    d.check = .ok () ↔ (¬ callId.1.all (· = 0) ∧ trackId ≠ 0 ∧
      (chunks capacity frame.bytes).length ≤ 2048) ∧
      d.payload.length ≤ maxEncodedVideoFrameBytes := by
  obtain ⟨i, data, -, hi, rfl⟩ := mem_cut hd
  have hf : (if frame.keyframe then flagKeyframe else 0) &&& ~~~knownFlags = 0 := by
    split_ifs <;> decide
  have hle : UInt16.ofNat (chunks capacity frame.bytes).length ≤ maxVideoFragmentsPerFrame ↔
      (chunks capacity frame.bytes).length ≤ 2048 := by
    rw [UInt16.le_iff_toNat_le, UInt16.toNat_ofNat_of_lt' hc]
    rfl
  have hlt : UInt16.ofNat i < UInt16.ofNat (chunks capacity frame.bytes).length := by
    rw [UInt16.lt_iff_toNat_lt, UInt16.toNat_ofNat_of_lt' hc,
      UInt16.toNat_ofNat_of_lt' (hi.trans hc)]
    exact hi
  rw [MediaDatagram.check_eq_ok_iff, validateFragmentMeta_eq_ok_iff]
  show (if frame.keyframe then flagKeyframe else 0) &&& ~~~knownFlags = 0 ∧ _ ∧ _ ∧
    UInt16.ofNat _ ≤ _ ∧ UInt16.ofNat i < UInt16.ofNat _ ∧ _ ↔ _
  rw [and_iff_right hf, hle, and_iff_right hlt, and_assoc, and_assoc]
  rfl

end Count

variable {p : VideoPacketizer} {maxDatagramSize : ℕ}

/-- The fragments fit into the datagrams. -/
theorem length_encode_le (h : mediaHeaderLen < maxDatagramSize)
    (hd : d ∈ cut frameId callId trackId frame (maxDatagramSize - mediaHeaderLen)) :
    d.encode.length ≤ maxDatagramSize := by
  obtain ⟨i, data, hp, -, rfl⟩ := mem_cut hd
  have hlen := length_le_of_mem_chunks (Nat.sub_pos_of_lt h) hp
  rw [MediaDatagram.length_encode]
  show mediaHeaderLen + data.length ≤ _
  omega

section Capacity

variable (h : mediaHeaderLen < maxDatagramSize) (hbytes : frame.bytes ≠ [])

include h hbytes

/-- A frame of more pieces than fit into the count is an error. -/
theorem fragmentFrame_of_overflow
    (hlen : (2 ^ 16 - 1) * (maxDatagramSize - mediaHeaderLen) < frame.bytes.length) :
    p.fragmentFrame callId trackId frame maxDatagramSize =
      (p, .error (.returned .fragmentCountOverflow)) := by
  have hpos : 0 < maxDatagramSize - mediaHeaderLen := Nat.sub_pos_of_lt h
  have hcount : 2 ^ 16 ≤ (chunks (maxDatagramSize - mediaHeaderLen) frame.bytes).length :=
    Nat.lt_of_not_le fun hle => hlen.not_ge ((length_chunks_le_iff hpos).1 hle)
  unfold fragmentFrame
  rw [payloadCapacity, if_neg h.not_gt]
  simp only [List.isEmpty_iff, hbytes, if_false, divCeil_length hpos, if_pos hcount]

/-- Every other frame is cut into pieces. -/
theorem fragmentFrame_eq_ok (p : VideoPacketizer) (callId : CallId) (trackId : UInt32)
    (hlen : frame.bytes.length ≤ (2 ^ 16 - 1) * (maxDatagramSize - mediaHeaderLen)) :
    p.fragmentFrame callId trackId frame maxDatagramSize =
      ({ p with nextFrameId := p.nextFrameId + 1 },
        .ok (cut p.nextFrameId callId trackId frame (maxDatagramSize - mediaHeaderLen))) := by
  have hpos : 0 < maxDatagramSize - mediaHeaderLen := Nat.sub_pos_of_lt h
  have hcount : ¬ 2 ^ 16 ≤ (chunks (maxDatagramSize - mediaHeaderLen) frame.bytes).length :=
    Nat.not_le.2 (Nat.lt_succ_of_le ((length_chunks_le_iff hpos).2 hlen))
  unfold fragmentFrame
  rw [payloadCapacity, if_neg h.not_gt]
  simp only [List.isEmpty_iff, hbytes, if_false, divCeil_length hpos, if_neg hcount, cut]

end Capacity

end VideoPacketizer

end Boru.Call
