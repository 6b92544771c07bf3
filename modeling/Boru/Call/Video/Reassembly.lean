import Mathlib.Algebra.Order.BigOperators.Group.List
import Mathlib.Data.Finset.Lattice.Lemmas
import Mathlib.Data.List.ReduceOption
import Boru.LTS.Basic
import Boru.Call.Video.Packet

/-!
# Bounded reassembly of call video

Video is latency-sensitive: incomplete access units are discarded after a short deadline rather than
being retained until a missing fragment arrives.  All peer-controlled sizes are checked before
payloads are copied.

The order in which expired frames are retired is the order of the entries of the map.

## Main results

* `VideoReassembler.wellFormed_exec` : in every run, whatever is received, what is kept of the
  frames is bounded (`VideoReassembler.WellFormed.stored_le`) and no step panics.
-/

namespace Boru.Call

/-- Maximum number of incomplete frames retained by one reassembler
(`MAX_INCOMPLETE_VIDEO_FRAMES`). -/
def maxIncompleteVideoFrames : ℕ := 10

/-- Deadline for an incomplete frame, in milliseconds (`VIDEO_REASSEMBLY_TIMEOUT`). -/
def videoReassemblyTimeout : Duration := 200

/-- Result of attempting to assemble live video packets. -/
inductive ReassemblyResult where
  /-- No complete access unit is available yet. -/
  | pending
  /-- A complete encoded access unit is ready for the live decoder. -/
  | complete (bytes : Bytes)

abbrev FrameKey := CallId × UInt32 × UInt32

def MediaDatagram.frameKey (datagram : MediaDatagram) : FrameKey :=
  (datagram.callId, datagram.trackId, datagram.sequence)

def saturatingAddUsize (a b : ℕ) : ℕ := min (a + b) (2 ^ 64 - 1)

/-- A frame some of whose fragments have arrived. -/
structure IncompleteFrame where
  fragmentCount : UInt16
  fragments : List (Option Bytes)
  receivedFragments : ℕ
  totalBytes : ℕ
  firstSeen : Instant
  deadline : Instant
  keyframe : Bool
  timestamp : UInt32

/-- The bytes of the fragments that have arrived, in order. -/
def IncompleteFrame.bytes (frame : IncompleteFrame) : Bytes := frame.fragments.reduceOption.flatten

/-- A frame of which one fragment has arrived. -/
def IncompleteFrame.first (packet : MediaDatagram) (now : Instant) (timeout : Duration) :
    IncompleteFrame where
  fragmentCount := packet.fragmentCount
  fragments := (List.replicate packet.fragmentCount.toNat none).set packet.fragmentIndex.toNat
    (some packet.payload)
  receivedFragments := 1
  totalBytes := packet.payload.length
  firstSeen := now
  deadline := now + timeout
  keyframe := packet.flags &&& flagKeyframe ≠ 0
  timestamp := packet.timestamp

/-- The frame with a further fragment, and the bytes of them all. -/
def IncompleteFrame.add (frame : IncompleteFrame) (packet : MediaDatagram) (newTotal : ℕ) :
    IncompleteFrame :=
  { frame with
    fragments := frame.fragments.set packet.fragmentIndex.toNat (some packet.payload)
    totalBytes := newTotal
    receivedFragments := frame.receivedFragments + 1 }

/-- Bounded live-video fragment reassembler. -/
structure VideoReassembler where
  frames : HashMap FrameKey IncompleteFrame
  /-- Completed and expired keys prevent a delayed fragment from resurrecting an old frame. -/
  retired : Finset FrameKey
  retiredOrder : List FrameKey
  maxIncompleteFrames : ℕ
  timeout : Duration
  packetCount : ℕ

/-- Forget the oldest retired keys until the queue is not longer than the limit. -/
def trimRetired (limit : ℕ) : Finset FrameKey → List FrameKey → Finset FrameKey × List FrameKey
  | retired, [] => (retired, [])
  | retired, old :: order =>
    if limit < (old :: order).length then trimRetired limit (retired.erase old) order
    else (retired, old :: order)

namespace VideoReassembler

def withTimeout (timeout : Duration) : VideoReassembler where
  frames := ∅
  retired := ∅
  retiredOrder := []
  maxIncompleteFrames := maxIncompleteVideoFrames
  timeout := timeout
  packetCount := 0

/-- Create an empty reassembler using the protocol hard limits. -/
def new : VideoReassembler := withTimeout videoReassemblyTimeout

variable (reassembler : VideoReassembler)

variable (key : FrameKey)

def retire : VideoReassembler :=
  if key ∈ reassembler.retired then reassembler
  else
    let trimmed := trimRetired (reassembler.maxIncompleteFrames * 2)
      (insert key reassembler.retired) (reassembler.retiredOrder ++ [key])
    { reassembler with retired := trimmed.1, retiredOrder := trimmed.2 }

/-- Remove a frame and remember its key. -/
def discard : VideoReassembler :=
  { reassembler with frames := reassembler.frames.erase key }.retire key

/-- Discard all frames whose deadline has passed and return the count removed. -/
def expireAt (now : Instant) : VideoReassembler × ℕ :=
  let expired := reassembler.frames.entries.filterMap fun entry =>
    if entry.2.deadline ≤ now then some entry.1 else none
  (expired.foldl discard reassembler, expired.length)

def count : VideoReassembler :=
  { reassembler with packetCount := saturatingAddUsize reassembler.packetCount 1 }

def store (frame : IncompleteFrame) : VideoReassembler :=
  { reassembler with frames := reassembler.frames.insert key frame }.count

/-- Take a frame out that has all its fragments. -/
def finish : VideoReassembler × Except Fault ReassemblyResult :=
  match reassembler.frames.lookup key with
  | none => (reassembler, .error .panicked)
  | some frame => (reassembler.discard key, .ok (.complete frame.bytes))

def extend (frame : IncompleteFrame) (packet : MediaDatagram) (now : Instant) :
    VideoReassembler × Except Fault ReassemblyResult :=
  if frame.deadline ≤ now then
    (reassembler.discard packet.frameKey, .error (.returned .fragmentExpired))
  else if frame.fragmentCount ≠ packet.fragmentCount then
    (reassembler, .error (.returned .invalidFragmentCount))
  else
    match frame.fragments[packet.fragmentIndex.toNat]? with
    | none => (reassembler, .error .panicked)
    -- retransmitted fragments are harmless and must not inflate the frame budget
    | some (some _) => (reassembler.count, .ok .pending)
    | some none =>
      let newTotal := saturatingAddUsize frame.totalBytes packet.payload.length
      if maxEncodedVideoFrameBytes < newTotal then
        (reassembler, .error (.returned (.encodedFrameTooLarge newTotal maxEncodedVideoFrameBytes)))
      else
        let frame := frame.add packet newTotal
        let reassembler := reassembler.store packet.frameKey frame
        if frame.receivedFragments ≠ frame.fragmentCount.toNat then (reassembler, .ok .pending)
        else reassembler.finish packet.frameKey

def start (packet : MediaDatagram) (now : Instant) :
    VideoReassembler × Except Fault ReassemblyResult :=
  if reassembler.maxIncompleteFrames ≤ reassembler.frames.size then
    (reassembler, .error (.returned (.tooManyIncompleteFrames reassembler.maxIncompleteFrames)))
  else if packet.fragmentIndex.toNat < packet.fragmentCount.toNat then
    let reassembler :=
      reassembler.store packet.frameKey (.first packet now reassembler.timeout)
    if packet.fragmentCount = 1 then reassembler.finish packet.frameKey
    else (reassembler, .ok .pending)
  -- the index is out of bounds
  else (reassembler, .error .panicked)

/-- Accept one parsed video fragment and assemble it when all fragments arrive. -/
def pushDatagramAt (packet : MediaDatagram) (now : Instant) :
    VideoReassembler × Except Fault ReassemblyResult :=
  match validateFragmentMeta packet.fragmentMeta with
  | .error e => (reassembler, .error (.returned e))
  | .ok () =>
    let reassembler := (reassembler.expireAt now).1
    if packet.frameKey ∈ reassembler.retired then
      (reassembler, .error (.returned .fragmentExpired))
    else
      match reassembler.frames.lookup packet.frameKey with
      | some frame => reassembler.extend frame packet now
      | none => reassembler.start packet now

/-- Accept a packet of the older interface, which is a frame of one fragment. -/
def pushAt (packet : VideoPacket) (now : Instant) :
    VideoReassembler × Except Fault ReassemblyResult :=
  reassembler.pushDatagramAt
    { kind := .video
      flags := if packet.keyframe then flagKeyframe else 0
      callId := packet.callId
      trackId := 1
      sequence := packet.sequence
      timestamp := packet.timestamp
      fragmentIndex := 0
      fragmentCount := 1
      payload := packet.payload } now

/-- Parse what was received and accept it. -/
def receive (input : Bytes) (now : Instant) : VideoReassembler × Except Fault ReassemblyResult :=
  match MediaDatagram.parse input with
  | .error e => (reassembler, .error e)
  | .ok packet => reassembler.pushDatagramAt packet now

end VideoReassembler

inductive ReassemblerInput where
  | receive (input : Bytes) (now : Instant)
  | pushDatagram (packet : MediaDatagram) (now : Instant)
  /-- A packet of the older interface is pushed. -/
  | push (packet : VideoPacket) (now : Instant)
  | expire (now : Instant)

/-- The reassembler as a machine, which outputs the results. -/
def videoReassembler :
    Machine VideoReassembler ReassemblerInput (Except Fault ReassemblyResult) where
  step reassembler
    | .receive input now =>
      ((reassembler.receive input now).1, [(reassembler.receive input now).2])
    | .pushDatagram packet now =>
      ((reassembler.pushDatagramAt packet now).1, [(reassembler.pushDatagramAt packet now).2])
    | .push packet now =>
      ((reassembler.pushAt packet now).1, [(reassembler.pushAt packet now).2])
    | .expire now => ((reassembler.expireAt now).1, [])

/-! ### What is kept is bounded -/

/-- A fragment that is put into an empty slot adds its bytes. -/
theorem length_flatten_set {slots : List (Option Bytes)} {i : ℕ} {data : Bytes}
    (h : slots[i]? = some none) :
    (slots.set i (some data)).reduceOption.flatten.length =
      slots.reduceOption.flatten.length + data.length := by
  induction slots generalizing i with
  | nil => cases h
  | cons slot slots ih =>
    cases i with
    | zero =>
      obtain rfl : slot = none := by simpa using h
      simp [Nat.add_comm]
    | succ i =>
      have ih := ih (by simpa using h)
      cases slot with
      | none => simpa using ih
      | some bytes => simp [ih, Nat.add_assoc]

/-- The bytes of a frame are those that are counted, and there are not too many of them. -/
structure IncompleteFrame.Bounded (frame : IncompleteFrame) : Prop where
  slots : frame.fragments.length = frame.fragmentCount.toNat
  total : frame.bytes.length = frame.totalBytes
  budget : frame.totalBytes ≤ maxEncodedVideoFrameBytes

/-- A further fragment, if it is within the budget. -/
theorem IncompleteFrame.Bounded.add {frame : IncompleteFrame} (h : frame.Bounded)
    {pk : MediaDatagram} (hs : frame.fragments[pk.fragmentIndex.toNat]? = some none)
    (hb : ¬ maxEncodedVideoFrameBytes < saturatingAddUsize frame.totalBytes pk.payload.length) :
    (frame.add pk (saturatingAddUsize frame.totalBytes pk.payload.length)).Bounded := by
  refine ⟨(List.length_set ..).trans h.slots, ?_, Nat.le_of_not_lt hb⟩
  have ht : frame.fragments.reduceOption.flatten.length = frame.totalBytes := h.total
  rw [IncompleteFrame.bytes, IncompleteFrame.add, length_flatten_set hs]
  simp only [saturatingAddUsize, maxEncodedVideoFrameBytes] at hb ⊢
  omega

/-- One fragment, if it is within the budget. -/
theorem IncompleteFrame.bounded_first {pk : MediaDatagram}
    (hi : pk.fragmentIndex.toNat < pk.fragmentCount.toNat)
    (hb : pk.payload.length ≤ maxEncodedVideoFrameBytes) (now : Instant)
    (t : Duration) : (first pk now t).Bounded := by
  have hs : (List.replicate pk.fragmentCount.toNat (none : Option Bytes))[
      pk.fragmentIndex.toNat]? = some none := by
    rw [List.getElem?_replicate, if_pos hi]
  refine ⟨by simp [first], ?_, hb⟩
  rw [IncompleteFrame.bytes, first, length_flatten_set hs]
  simp

theorem length_trimRetired (limit : ℕ) (r : Finset FrameKey) (o : List FrameKey) :
    (trimRetired limit r o).2.length ≤ limit := by
  induction o generalizing r with
  | nil => exact Nat.zero_le _
  | cons old o ih =>
    unfold trimRetired
    split_ifs with h
    · exact ih _
    · exact Nat.le_of_not_lt h

theorem trimRetired_subset (l : ℕ) {r : Finset FrameKey} {o : List FrameKey} (h : r ⊆ o.toFinset) :
    (trimRetired l r o).1 ⊆ (trimRetired l r o).2.toFinset := by
  induction o generalizing r with
  | nil => exact h
  | cons old o ih =>
    unfold trimRetired
    split_ifs
    · rw [List.toFinset_cons] at h
      exact ih (Finset.subset_insert_iff.1 h)
    · exact h

namespace VideoReassembler

/-- The number of frames, their bytes and the number of remembered keys are bounded. -/
structure WellFormed (reassembler : VideoReassembler) : Prop where
  frame : ∀ {key frame}, reassembler.frames.lookup key = some frame → frame.Bounded
  size : reassembler.frames.size ≤ reassembler.maxIncompleteFrames
  order : reassembler.retiredOrder.length ≤ reassembler.maxIncompleteFrames * 2
  retired : reassembler.retired ⊆ reassembler.retiredOrder.toFinset

theorem WellFormed.new : new.WellFormed where
  frame h := by cases h
  size := Nat.zero_le _
  order := Nat.zero_le _
  retired := Finset.empty_subset _

variable {re : VideoReassembler}

section

variable (h : re.WellFormed)

include h

/-- The frames together have no more bytes than the limits allow. -/
theorem WellFormed.stored_le :
    (re.frames.entries.map fun entry => entry.2.bytes.length).sum ≤
      re.maxIncompleteFrames * maxEncodedVideoFrameBytes := by
  have hen : ∀ n ∈ re.frames.entries.map fun entry => entry.2.bytes.length,
      n ≤ maxEncodedVideoFrameBytes := by
    intro n hn
    obtain ⟨entry, hmem, rfl⟩ := List.mem_map.1 hn
    have hf := h.frame (AList.mem_lookup_iff.2 hmem)
    exact hf.total.trans_le hf.budget
  refine (List.sum_le_card_nsmul _ _ hen).trans ?_
  rw [List.length_map]
  exact Nat.mul_le_mul_right _ h.size

theorem WellFormed.retire (key : FrameKey) : (re.retire key).WellFormed := by
  unfold VideoReassembler.retire
  split_ifs
  · exact h
  · refine ⟨h.frame, h.size, length_trimRetired _ _ _, trimRetired_subset _ ?_⟩
    rw [List.toFinset_append, Finset.insert_subset_iff]
    exact ⟨by simp, h.retired.trans Finset.subset_union_left⟩

theorem WellFormed.discard (key : FrameKey) : (re.discard key).WellFormed := by
  refine WellFormed.retire ?_ key
  refine ⟨fun {k frame} hk => ?_, ?_, h.order, h.retired⟩
  · exact h.frame (HashMap.lookup_of_erase hk).2
  · exact (HashMap.size_erase_le _ _).trans h.size

theorem WellFormed.expireAt (now : Instant) : (re.expireAt now).1.WellFormed :=
  List.foldlRecOn _ _ h fun _ h key _ => h.discard key

theorem WellFormed.count : re.count.WellFormed :=
  ⟨h.frame, h.size, h.order, h.retired⟩

/-- A frame may be stored in the place of another one, or if there is room. -/
theorem WellFormed.store {key : FrameKey} {frame : IncompleteFrame} (hf : frame.Bounded)
    (hr : key ∈ re.frames ∨ re.frames.size < re.maxIncompleteFrames) :
    (re.store key frame).WellFormed := by
  refine ⟨fun {k f} hk => ?_, ?_, h.order, h.retired⟩
  · obtain ⟨-, rfl⟩ | ⟨-, hk⟩ := HashMap.lookup_insert_cases hk
    · exact hf
    · exact h.frame hk
  · rcases hr with hkey | hlt
    · exact (HashMap.size_insert_of_mem hkey).trans_le h.size
    · exact (HashMap.size_insert_le _ _ _).trans hlt

end

/-- A step that keeps the bounds and does not panic. -/
def Safe (result : VideoReassembler × Except Fault ReassemblyResult) : Prop :=
  result.1.WellFormed ∧ result.2 ≠ .error .panicked

theorem WellFormed.safe_ok (h : re.WellFormed) {r : ReassemblyResult} :
    Safe (re, .ok r) := ⟨h, nofun⟩

theorem WellFormed.safe_returned (h : re.WellFormed) {e : MediaDatagramError} :
    Safe (re, .error (.returned e)) := ⟨h, nofun⟩

theorem WellFormed.safe_finish {key : FrameKey} {frame : IncompleteFrame}
    (h : (re.store key frame).WellFormed) :
    Safe ((re.store key frame).finish key) := by
  have hl : (re.store key frame).frames.lookup key = some frame :=
    AList.lookup_insert _
  rw [finish, hl]
  exact (h.discard key).safe_ok

section

variable (h : re.WellFormed)

include h

variable {now : Instant}

theorem WellFormed.safe_extend {frame : IncompleteFrame} {pk : MediaDatagram}
    (hf : re.frames.lookup pk.frameKey = some frame)
    (hi : pk.fragmentIndex < pk.fragmentCount) :
    Safe (re.extend frame pk now) := by
  have hb := h.frame hf
  have hr : pk.frameKey ∈ re.frames ∨
      re.frames.size < re.maxIncompleteFrames :=
    .inl (AList.lookup_isSome.1 (by rw [hf]; rfl))
  unfold extend
  split_ifs with hd hc
  · exact (h.discard _).safe_returned
  · exact h.safe_returned
  rw [not_not] at hc
  -- the metadata of the packet was validated, so its index is that of a slot
  have hlt : pk.fragmentIndex.toNat < frame.fragments.length := by
    rw [hb.slots, hc]
    exact UInt16.lt_iff_toNat_lt.1 hi
  split
  next hslot => exact absurd (List.getElem?_eq_none_iff.1 hslot) hlt.not_ge
  next => exact h.count.safe_ok
  next hslot =>
    dsimp only
    split_ifs with hbu hm
    · exact h.safe_returned
    · exact (h.store (hb.add hslot hbu) hr).safe_ok
    · exact (h.store (hb.add hslot hbu) hr).safe_finish

theorem WellFormed.safe_start {pk : MediaDatagram} (hi : pk.fragmentIndex < pk.fragmentCount)
    (hb : pk.payload.length ≤ maxEncodedVideoFrameBytes) :
    Safe (re.start pk now) := by
  have hlt := UInt16.lt_iff_toNat_lt.1 hi
  have hf := IncompleteFrame.bounded_first hlt hb now re.timeout
  unfold start
  split_ifs with hfu
  · exact h.safe_returned
  · exact (h.store hf (.inr (Nat.lt_of_not_le hfu))).safe_finish
  · exact (h.store hf (.inr (Nat.lt_of_not_le hfu))).safe_ok

theorem WellFormed.safe_pushDatagramAt {pk : MediaDatagram} : Safe (re.pushDatagramAt pk now) := by
  unfold pushDatagramAt
  split
  next => exact h.safe_returned
  next hm =>
    -- the checks at the start are what keeps the indexing below in range
    obtain ⟨-, hi, hb⟩ := validateFragmentMeta_eq_ok_iff.1 hm
    have hep := h.expireAt now
    dsimp only
    split_ifs
    · exact hep.safe_returned
    · split
      next hframe => exact hep.safe_extend hframe hi
      next => exact hep.safe_start hi hb

theorem WellFormed.safe_receive {i : Bytes} : Safe (re.receive i now) := by
  unfold receive
  split
  next e hparse =>
    refine ⟨h, fun he => MediaDatagram.parse_ne_panicked i ?_⟩
    rw [hparse, Except.error.inj he]
  next packet _ => exact h.safe_pushDatagramAt

/-- One step keeps the bounds, and does not panic. -/
theorem WellFormed.step (i : ReassemblerInput) :
    (videoReassembler.step re i).1.WellFormed ∧
      .error .panicked ∉ (videoReassembler.step re i).2 := by
  have hout : ∀ {result}, Safe result →
      result.1.WellFormed ∧ .error .panicked ∉ [result.2] := fun hs =>
    ⟨hs.1, fun hmem => hs.2 (List.mem_singleton.1 hmem).symm⟩
  cases i with
  | receive input now => exact hout (h.safe_receive)
  | pushDatagram pk now => exact hout (h.safe_pushDatagramAt)
  | push pk now => exact hout (h.safe_pushDatagramAt)
  | expire now => exact ⟨h.expireAt now, List.not_mem_nil⟩

end

/-- **Hostile datagrams.**  Whatever is received, what is kept is bounded, and no step panics. -/
theorem wellFormed_exec (is : List ReassemblerInput) :
    (videoReassembler.exec new is).WellFormed ∧
      .error .panicked ∉ videoReassembler.trace new is := by
  refine Machine.trace_invariant_along (M := videoReassembler) (G := fun _ _ => True)
    (P := fun re history => re.WellFormed ∧ .error .panicked ∉ history)
    (Machine.along_of_step (fun _ _ => trivial) new is) ⟨.new, List.not_mem_nil⟩ ?_
  rintro re history i - ⟨h, hh⟩
  obtain ⟨hstep, hout⟩ := h.step i
  exact ⟨hstep, List.not_mem_append hh hout⟩

/-- **Bounded memory**, whatever is received. -/
theorem stored_bounded (is : List ReassemblerInput) :
    let r := videoReassembler.exec new is
    (r.frames.entries.map fun e => e.2.bytes.length).sum ≤
      r.maxIncompleteFrames * maxEncodedVideoFrameBytes :=
  (wellFormed_exec is).1.stored_le

end VideoReassembler

end Boru.Call
