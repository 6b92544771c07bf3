import Boru.LTS.Collector
import Boru.Call.Video.Reassembly

/-!
# The round trip of a video frame

The fragments of a frame that arrive in any order, any number of times, at a reassembler that has
received nothing else.  The reassembler then follows a `Collector` of the fragments
(`agrees_pushDatagramAt`, `completions_eq`), so it returns the frame once if the frame is within the
budget and the fragments arrive before the deadline.

The packetizer and the receiver do not have the same limits.  The packetizer refuses frames of more
than 65535 fragments, the receiver those of more than 2048 or of more than 2 MiB: a frame between
these limits is sent and lost.  And a datagram size that leaves no room for a payload is a division
by zero in the packetizer.  `VideoPacketizer.roundTrips_iff` says when the round trip succeeds.
-/

namespace Boru.Call

open MediaDatagram

/-! ### The fragments of a frame -/

/-- These datagrams are all fragments of one frame, in order. -/
structure Fragmentation (fragments : List MediaDatagram) (key : FrameKey) : Prop where
  key : ∀ d ∈ fragments, d.frameKey = key
  count : ∀ d ∈ fragments, d.fragmentCount.toNat = fragments.length
  index : ∀ (i : ℕ) (d : MediaDatagram), fragments[i]? = some d → d.fragmentIndex.toNat = i

variable (fragments : List MediaDatagram)

/-- The slots of a frame of which these fragments have arrived. -/
def slots (received : Finset MediaDatagram) : List (Option Bytes) :=
  fragments.map fun d => if d ∈ received then some d.payload else none

namespace Fragmentation

variable {fs : List MediaDatagram} {key : FrameKey} {r : Finset MediaDatagram}
  {d : MediaDatagram}

section

variable (h : Fragmentation fs key)

include h

theorem nodup : fs.Nodup := by
  refine List.nodup_iff_getElem?_ne_getElem?.2 fun i j hij hj heq => ?_
  have hd := List.getElem?_eq_getElem hj
  exact hij.ne ((h.index i _ (heq.trans hd)).symm.trans (h.index j _ hd))

theorem getElem?_index (hd : d ∈ fs) : fs[d.fragmentIndex.toNat]? = some d := by
  obtain ⟨i, hi⟩ := List.mem_iff_getElem?.1 hd
  rwa [h.index i d hi]

theorem index_lt (hd : d ∈ fs) : d.fragmentIndex.toNat < d.fragmentCount.toNat := by
  rw [h.count d hd]
  exact (List.getElem?_eq_some_iff.1 (h.getElem?_index hd)).1

theorem slots_getElem? (hd : d ∈ fs) :
    (slots fs r)[d.fragmentIndex.toNat]? =
      some (if d ∈ r then some d.payload else none) := by
  rw [slots, List.getElem?_map, h.getElem?_index hd]
  rfl

/-- A fragment that arrives is put into its slot. -/
theorem slots_set (hd : d ∈ fs) :
    (slots fs r).set d.fragmentIndex.toNat (some d.payload) =
      slots fs (insert d r) := by
  -- only the fragment itself has its index
  refine List.ext_getElem? fun i => ?_
  by_cases hi : d.fragmentIndex.toNat = i
  · have hlt : d.fragmentIndex.toNat < (slots fs r).length := by
      rw [slots, List.length_map, ← h.count d hd]
      exact h.index_lt hd
    rw [← hi, List.getElem?_set_self hlt, h.slots_getElem? hd, if_pos (Finset.mem_insert_self _ _)]
  · rw [List.getElem?_set_ne hi, slots, slots, List.getElem?_map, List.getElem?_map]
    cases he : fs[i]? with
    | none => rfl
    | some e =>
      have hne : e ≠ d := fun heq => hi (h.index i d (heq ▸ he))
      simp [hne]

end

theorem slots_empty : slots fs ∅ = List.replicate fs.length none := by
  simp [slots]

/-- When all have arrived, the slots hold all payloads. -/
theorem slots_toFinset : (slots fs fs.toFinset).reduceOption = fs.map payload := by
  have hs : slots fs fs.toFinset =
      (fs.map payload).map some := by
    rw [List.map_map]
    exact List.map_congr_left fun d hd => if_pos (List.mem_toFinset.2 hd)
  rw [hs, List.reduceOption, List.filterMap_map]
  exact List.filterMap_some

end Fragmentation

/-! ### The reassembler collects the fragments -/

def completed : Except Fault ReassemblyResult → Option Bytes
  | .ok (.complete bytes) => some bytes
  | _ => none

def fragmentCollector : Collector MediaDatagram where
  parts := fragments.toFinset
  size d := d.payload.length
  budget := maxEncodedVideoFrameBytes
  timeout := videoReassemblyTimeout

structure Holds (fragments : List MediaDatagram) (deadline : Instant)
    (received : Finset MediaDatagram) (frame : IncompleteFrame) : Prop where
  count : frame.fragmentCount.toNat = fragments.length
  filled : frame.fragments = slots fragments received
  number : frame.receivedFragments = received.card
  total : frame.totalBytes = ∑ d ∈ received, d.payload.length
  deadline : frame.deadline = deadline

/-- A reassembler with the hard limits that has retired nothing. -/
structure Pristine (reassembler : VideoReassembler) : Prop where
  retired : reassembler.retired = ∅
  order : reassembler.retiredOrder = []
  limit : reassembler.maxIncompleteFrames = maxIncompleteVideoFrames
  timeout : reassembler.timeout = videoReassemblyTimeout

/-- A reassembler that received only fragments of one frame, and what a collector of them has. -/
inductive Follows (fragments : List MediaDatagram) (key : FrameKey) :
    VideoReassembler → Collector.State MediaDatagram → Prop where
  | waiting {reassembler} (h : Pristine reassembler) (hframes : reassembler.frames = ∅) :
    Follows fragments key reassembler .waiting
  | collecting {reassembler deadline received frame} (h : Pristine reassembler)
    (hframes : reassembler.frames = AList.singleton key frame)
    (hframe : Holds fragments deadline received frame)
    (hsub : received ⊆ fragments.toFinset) :
    Follows fragments key reassembler (.collecting deadline received)
  | closed {reassembler} (hframes : reassembler.frames = ∅) (hkey : key ∈ reassembler.retired) :
    Follows fragments key reassembler .closed

/-- A step of the reassembler that the collector makes too. -/
def Agrees (key : FrameKey) (result : VideoReassembler × Except Fault ReassemblyResult)
    (out : Collector.State MediaDatagram × List Unit) : Prop :=
  Follows fragments key result.1 out.1 ∧
    [result.2].filterMap completed = out.2.map fun _ => (fragments.map payload).flatten

section Simulation

variable {f : List MediaDatagram} {key : FrameKey} {rc : Finset MediaDatagram}
  {d : MediaDatagram} {reassembler : VideoReassembler} {dl now : Instant}
  {frame : IncompleteFrame}

theorem Follows.closed_discard (h : Pristine reassembler) (hf : reassembler.frames.erase key = ∅) :
    Follows f key (reassembler.discard key) .closed := by
  have hd : reassembler.discard key =
      { reassembler with frames := ∅, retired := {key}, retiredOrder := [key] } := by
    unfold VideoReassembler.discard VideoReassembler.retire
    rw [h.retired, h.order, h.limit, hf]
    rfl
  rw [hd]
  exact .closed rfl (Finset.mem_singleton_self key)

theorem Follows.mem_retired (h : Follows f key reassembler .closed) :
    key ∈ reassembler.retired := by
  cases h with
  | closed _ hkey => exact hkey

theorem Pristine.store (h : Pristine reassembler) (key : FrameKey) (frame : IncompleteFrame) :
    Pristine (reassembler.store key frame) := ⟨h.retired, h.order, h.limit, h.timeout⟩

/-- All fragments have arrived iff there are as many of them. -/
theorem Holds.complete_iff (hfragments : Fragmentation f key)
    (hf : Holds f dl rc frame) (hsub : rc ⊆ f.toFinset) :
    frame.receivedFragments = frame.fragmentCount.toNat ↔ rc = f.toFinset := by
  have hc := List.toFinset_card_of_nodup hfragments.nodup
  rw [hf.number, hf.count, ← hc]
  exact ⟨fun h => Finset.eq_of_subset_of_card_le hsub h.ge, congrArg _⟩

/-- The frame with the fragments that have arrived is stored, and taken out if it is complete. -/
theorem agrees_keep (hfragments : Fragmentation f key) (h : Pristine reassembler)
    (hfr : reassembler.frames.insert key frame = AList.singleton key frame)
    (hf : Holds f dl rc frame) (hsub : rc ⊆ f.toFinset) :
    Agrees f key
      (if frame.receivedFragments ≠ frame.fragmentCount.toNat then
        (reassembler.store key frame, .ok .pending)
      else (reassembler.store key frame).finish key)
      ((fragmentCollector f).keep dl rc) := by
  have hc := hf.complete_iff hfragments hsub
  have hs : (reassembler.store key frame).frames = AList.singleton key frame := hfr
  by_cases hall : rc = f.toFinset
  · have hfi : (reassembler.store key frame).finish key =
        ((reassembler.store key frame).discard key, .ok (.complete frame.bytes)) := by
      unfold VideoReassembler.finish
      rw [hs, HashMap.lookup_singleton]
    rw [if_neg (not_not.2 (hc.2 hall)), hfi, Collector.keep_of_eq hall]
    refine ⟨.closed_discard (h.store key frame) ?_, ?_⟩
    · rw [hs, HashMap.erase_singleton]
    · -- the frame that is taken out has all its slots filled
      have hb : frame.bytes = (f.map payload).flatten := by
        rw [IncompleteFrame.bytes, hf.filled, hall, Fragmentation.slots_toFinset]
      rw [hb]
      rfl
  · rw [if_pos (mt hc.1 hall), Collector.keep_of_ne hall]
    exact ⟨.collecting (h.store key frame) hs hf hsub, rfl⟩

theorem expireAt_of_empty (hf : reassembler.frames = ∅) :
    (reassembler.expireAt now).1 = reassembler := by
  unfold VideoReassembler.expireAt
  rw [hf]
  rfl

theorem expireAt_of_singleton (hf : reassembler.frames = AList.singleton key frame) :
    (reassembler.expireAt now).1 =
      if frame.deadline ≤ now then reassembler.discard key else reassembler := by
  unfold VideoReassembler.expireAt
  rw [hf]
  by_cases h : frame.deadline ≤ now <;> simp [h]

section

variable (hfra : Fragmentation f key)

include hfra

theorem agrees_start (h : Pristine reassembler) (hf : reassembler.frames = ∅) (hd : d ∈ f) :
    Agrees f key (reassembler.start d now)
      ((fragmentCollector f).keep (now + videoReassemblyTimeout) {d}) := by
  have hkey := hfra.key d hd
  have hr : ¬ reassembler.maxIncompleteFrames ≤ reassembler.frames.size := by
    rw [h.limit, hf]
    decide
  have hfi : Holds f (now + videoReassemblyTimeout) {d}
      (.first d now reassembler.timeout) := by
    refine ⟨hfra.count d hd, ?_, (Finset.card_singleton d).symm, ?_, congrArg _ h.timeout⟩
    · rw [IncompleteFrame.first, hfra.count d hd, ← Fragmentation.slots_empty, hfra.slots_set hd]
      rfl
    · rfl
  have hk := agrees_keep hfra h (by rw [hf, AList.insert_empty]) hfi
    (Finset.singleton_subset_iff.2 (List.mem_toFinset.2 hd))
  -- for the first fragment the code compares the count with 1 instead of counting
  have hone : d.fragmentCount = 1 ↔ 1 = d.fragmentCount.toNat := by
    rw [← UInt16.toNat_inj, eq_comm]
    rfl
  change Agrees _ _ (if 1 ≠ d.fragmentCount.toNat then _ else _) _ at hk
  unfold VideoReassembler.start
  rw [if_neg hr, if_pos (hfra.index_lt hd), hkey]
  simpa only [hone, ite_not] using hk

/-- A further fragment before the deadline. -/
theorem agrees_extend (h : Pristine reassembler)
    (hfr : reassembler.frames = AList.singleton key frame)
    (hf : Holds f dl rc frame) (hsub : rc ⊆ f.toFinset)
    (hd : d ∈ f) (hn : now < dl) :
    Agrees f key (reassembler.extend frame d now)
      (if d ∈ rc then (.collecting dl rc, [])
      else if maxEncodedVideoFrameBytes < ∑ e ∈ insert d rc, e.payload.length then
        (.collecting dl rc, [])
      else (fragmentCollector f).keep dl (insert d rc)) := by
  have hkey := hfra.key d hd
  have hcount : frame.fragmentCount = d.fragmentCount := by
    rw [← UInt16.toNat_inj, hf.count, hfra.count d hd]
  have hs : ∀ e, Agrees f key (reassembler, .error e)
      (.collecting dl rc, []) := fun e => ⟨.collecting h hfr hf hsub, rfl⟩
  unfold VideoReassembler.extend
  rw [if_neg (by rw [hf.deadline]; exact hn.not_ge), if_neg (not_not.2 hcount),
    hf.filled, hfra.slots_getElem? hd, hkey]
  by_cases hol : d ∈ rc
  · rw [if_pos hol, if_pos hol]
    exact ⟨.collecting ⟨h.retired, h.order, h.limit, h.timeout⟩ hfr hf hsub, rfl⟩
  · have hsu : ∑ e ∈ insert d rc, e.payload.length = frame.totalBytes + d.payload.length := by
      rw [Finset.sum_insert hol, hf.total, Nat.add_comm]
    -- the budget is far below the point where the addition saturates
    have hb : maxEncodedVideoFrameBytes <
        saturatingAddUsize frame.totalBytes d.payload.length ↔
        maxEncodedVideoFrameBytes < frame.totalBytes + d.payload.length := by
      simp only [saturatingAddUsize, maxEncodedVideoFrameBytes]
      omega
    rw [if_neg hol, if_neg hol, hsu]
    by_cases ho : maxEncodedVideoFrameBytes < frame.totalBytes + d.payload.length
    · rw [if_pos (hb.2 ho), if_pos ho]
      exact hs _
    · rw [if_neg (mt hb.1 ho), if_neg ho]
      have ht : saturatingAddUsize frame.totalBytes d.payload.length =
          frame.totalBytes + d.payload.length := by
        simp only [saturatingAddUsize, maxEncodedVideoFrameBytes] at ho ⊢
        omega
      have ha : Holds f dl (insert d rc)
          (frame.add d (saturatingAddUsize frame.totalBytes d.payload.length)) := by
        refine ⟨hf.count, ?_, ?_, ht.trans hsu.symm, hf.deadline⟩
        · rw [IncompleteFrame.add, hf.filled, hfra.slots_set hd]
        · rw [Finset.card_insert_of_notMem hol, ← hf.number]
          rfl
      exact agrees_keep hfra h (by rw [hfr, AList.insert_singleton_eq]) ha
        (Finset.insert_subset (List.mem_toFinset.2 hd) hsub)

/-- **One step of the collector.** -/
theorem agrees_pushDatagramAt (hd : d ∈ f) (hv : validateFragmentMeta d.fragmentMeta = .ok ())
    {state : Collector.State MediaDatagram} (hfo : Follows f key reassembler state) :
    Agrees f key (reassembler.pushDatagramAt d now) ((fragmentCollector f).take state d now) := by
  have hkey := hfra.key d hd
  have hs : ¬ (fragmentCollector f).budget < (fragmentCollector f).size d :=
    Nat.not_lt.2 (validateFragmentMeta_eq_ok_iff.1 hv).2.2
  unfold VideoReassembler.pushDatagramAt Collector.take
  rw [hv, if_neg hs, hkey]
  cases hfo with
  | waiting h hf =>
    dsimp only
    rw [expireAt_of_empty hf, h.retired, hf]
    exact agrees_start hfra h hf hd
  | @collecting dl rc frame h hf hfr hsub =>
    dsimp only
    -- a late fragment finds its frame expired, and its key among the retired ones
    rw [expireAt_of_singleton hf, hfr.deadline]
    by_cases hl : dl ≤ now
    · have hc : Follows f key (reassembler.discard key) .closed :=
        .closed_discard h (by rw [hf, HashMap.erase_singleton])
      rw [if_pos hl, if_pos hl, if_pos hc.mem_retired]
      exact ⟨hc, rfl⟩
    · rw [if_neg hl, if_neg hl, h.retired, hf, HashMap.lookup_singleton]
      exact agrees_extend hfra h hf hfr hsub hd (Nat.lt_of_not_le hl)
  | closed hf hkey =>
    rw [expireAt_of_empty hf, if_pos hkey]
    exact ⟨.closed hf hkey, rfl⟩

end

/-- Any other datagram changes nothing. -/
theorem receive_of_not_check (h : d.check ≠ .ok ()) :
    ∃ e, reassembler.receive d.encode now = (reassembler, .error e) := by
  unfold VideoReassembler.receive
  rw [parse_encode]
  cases hc : d.check with
  | ok u => exact absurd hc h
  | error e => exact ⟨e, rfl⟩

end Simulation

def arrival (a : MediaDatagram × Instant) : ReassemblerInput := .receive a.1.encode a.2

theorem step_arrival (reassembler : VideoReassembler) (a : MediaDatagram × Instant) :
    videoReassembler.step reassembler (arrival a) =
      ((reassembler.receive a.1.encode a.2).1, [(reassembler.receive a.1.encode a.2).2]) := rfl

section Runs

variable {fr : List MediaDatagram} {key : FrameKey} {ar : List (MediaDatagram × Instant)}

/-- If all headers are refused, nothing is output. -/
theorem completions_of_not_check (h : ∀ a ∈ ar, a.1.check ≠ .ok ())
    (reassembler : VideoReassembler) :
    (videoReassembler.trace reassembler (ar.map arrival)).filterMap completed = [] := by
  induction ar generalizing reassembler with
  | nil => rfl
  | cons a ar ih =>
    obtain ⟨e, he⟩ := receive_of_not_check (h a List.mem_cons_self)
    rw [List.map_cons, Machine.trace_cons, step_arrival, he]
    exact ih (fun b hb => h b (List.mem_cons_of_mem _ hb)) reassembler

/-- **The reassembler follows the collector** on the fragments of a frame whose headers pass all
checks but that of their size. -/
theorem completions_eq (hfragments : Fragmentation fr key)
    (hc : ∀ d ∈ fr, d.check = .ok () ↔ d.payload.length ≤ maxEncodedVideoFrameBytes)
    (har : ∀ a ∈ ar, a.1 ∈ fr) :
    (videoReassembler.trace .new (ar.map arrival)).filterMap completed =
      ((fragmentCollector fr).machine.trace .waiting ar).map fun _ =>
        (fr.map payload).flatten := by
  -- one arrival is one part for the collector, and a complete frame is one output
  refine Machine.trace_simulation (R := Follows fr key) arrival completed
    (fun _ => (fr.map payload).flatten)
    (.waiting ⟨rfl, rfl, rfl, rfl⟩ rfl) fun reassembler state a ha hf => ?_
  obtain ⟨d, now⟩ := a
  have hd := har _ ha
  suffices hag : Agrees fr key (reassembler.receive d.encode now)
    ((fragmentCollector fr).take state d now) from hag
  by_cases hs : d.payload.length ≤ maxEncodedVideoFrameBytes
  · have hok := (hc d hd).2 hs
    have hr : reassembler.receive d.encode now = reassembler.pushDatagramAt d now := by
      rw [VideoReassembler.receive, parse_encode, hok]
      rfl
    rw [hr]
    exact agrees_pushDatagramAt hfragments hd (check_eq_ok_iff.1 hok).2.2.2 hf
  · obtain ⟨e, he⟩ := receive_of_not_check (mt (hc d hd).1 hs)
    rw [he, Collector.take_of_lt (C := fragmentCollector fr) (Nat.lt_of_not_le hs)]
    exact ⟨hf, rfl⟩

end Runs

namespace VideoPacketizer

variable {callId : CallId} {trackId : UInt32} {frame : EncodedVideoFrame}

theorem fragmentation_cut {fd : UInt32} {capacity : ℕ}
    (hcount : (chunks capacity frame.bytes).length < 2 ^ 16) :
    Fragmentation (cut fd callId trackId frame capacity) (callId, trackId, fd) := by
  refine ⟨fun d hd => ?_, fun d hd => ?_, fun i d hd => ?_⟩
  · obtain ⟨i, data, -, -, rfl⟩ := mem_cut hd
    rfl
  · obtain ⟨i, data, -, -, rfl⟩ := mem_cut hd
    rw [length_cut]
    exact UInt16.toNat_ofNat_of_lt' hcount
  · rw [cut_getElem?, Option.map_eq_some_iff] at hd
    obtain ⟨data, hp, rfl⟩ := hd
    exact UInt16.toNat_ofNat_of_lt' ((List.getElem?_eq_some_iff.1 hp).1.trans hcount)

/-- Packetizing returns an error, or fragments that fit into the datagrams and, as they arrive,
bring back the frame once; nothing panics. -/
def RoundTrips (packetizer : VideoPacketizer) (callId : CallId) (trackId : UInt32)
    (frame : EncodedVideoFrame) (maxDatagramSize : ℕ) (arrivals : List (MediaDatagram × Instant)) :
    Prop :=
  match (packetizer.fragmentFrame callId trackId frame maxDatagramSize).2 with
  | .error (.returned _) => True
  | .error .panicked => False
  | .ok fragments =>
    (∀ d ∈ fragments, d.encode.length ≤ maxDatagramSize) ∧
    .error .panicked ∉ videoReassembler.trace .new (arrivals.map arrival) ∧
    (videoReassembler.trace .new (arrivals.map arrival)).filterMap completed = [frame.bytes]

/-- What arrives at all arrives before the deadline. -/
def InTime (arrivals : List (MediaDatagram × Instant)) : Prop :=
  ∀ a ∈ arrivals, ∃ b ∈ Collector.punctual videoReassemblyTimeout arrivals, b.1 = a.1

/-- The sizes with which packetizing is an error, or the frame is within the limits of the receiver
and arrives in time. -/
def Deliverable (callId : CallId) (trackId : UInt32) (frame : EncodedVideoFrame)
    (maxDatagramSize : ℕ) (arrivals : List (MediaDatagram × Instant)) : Prop :=
  maxDatagramSize < mediaHeaderLen ∨
  mediaHeaderLen < maxDatagramSize ∧
    ((2 ^ 16 - 1) * (maxDatagramSize - mediaHeaderLen) < frame.bytes.length ∨
      (frame.bytes.length ≤ 2048 * (maxDatagramSize - mediaHeaderLen) ∧
        frame.bytes.length ≤ maxEncodedVideoFrameBytes ∧
        ¬ callId.1.all (· = 0) ∧ trackId ≠ 0 ∧ InTime arrivals))

section Cut

variable {fi : UInt32} {capacity : ℕ} {arrivals : List (MediaDatagram × Instant)}
  (hpos : 0 < capacity) (hn : (chunks capacity frame.bytes).length < 2 ^ 16)

include hpos hn

/-- The fragments together have the size of the frame. -/
theorem sum_cut :
    ∑ d ∈ (cut fi callId trackId frame capacity).toFinset, d.payload.length =
      frame.bytes.length := by
  rw [List.sum_toFinset _ (fragmentation_cut hn).nodup]
  calc ((cut fi callId trackId frame capacity).map fun d => d.payload.length).sum
    _ = (((cut fi callId trackId frame capacity).map payload).map
          List.length).sum := by rw [List.map_map]; rfl
    _ = frame.bytes.length := by rw [payloads_cut, ← List.length_flatten, flatten_chunks hpos]

/-- What the reassembler makes of the fragments of a frame, all of which arrive. -/
theorem completions_cut (hb : frame.bytes ≠ [])
    (har : ∀ d, d ∈ arrivals.map Prod.fst ↔ d ∈ cut fi callId trackId frame capacity) :
    (videoReassembler.trace .new (arrivals.map arrival)).filterMap completed = [frame.bytes] ↔
      (frame.bytes.length ≤ 2048 * capacity ∧ frame.bytes.length ≤ maxEncodedVideoFrameBytes ∧
        ¬ callId.1.all (· = 0) ∧ trackId ≠ 0 ∧ InTime arrivals) := by
  have hmem : ∀ a ∈ arrivals, a.1 ∈ cut fi callId trackId frame capacity := fun a ha =>
    (har a.1).1 (List.mem_map_of_mem ha)
  rw [← length_chunks_le_iff hpos]
  by_cases hh : ¬ callId.1.all (· = 0) ∧ trackId ≠ 0 ∧ (chunks capacity frame.bytes).length ≤ 2048
  · have hc : ∀ d ∈ cut fi callId trackId frame capacity,
        d.check = .ok () ↔ d.payload.length ≤ maxEncodedVideoFrameBytes := fun d hd =>
      (check_cut hn hd).trans (and_iff_right hh)
    have hp :
        (fragmentCollector (cut fi callId trackId frame capacity)).parts.Nonempty := by
      rw [fragmentCollector, List.toFinset_nonempty_iff, ← List.length_pos_iff, length_cut,
        List.length_pos_iff]
      exact mt (chunks_eq_nil_iff hpos).1 hb
    have hin : (∀ d ∈ (cut fi callId trackId frame capacity).toFinset,
        ∃ b ∈ Collector.punctual videoReassemblyTimeout arrivals, b.1 = d) ↔ InTime arrivals := by
      constructor
      · exact fun h a ha => h a.1 (List.mem_toFinset.2 (hmem a ha))
      · intro h d hd
        obtain ⟨a, ha, rfl⟩ := List.mem_map.1 ((har d).2 (List.mem_toFinset.1 hd))
        exact h a ha
    have ht := Collector.trace_eq_iff hp fun a ha => List.mem_toFinset.2 (hmem a ha)
    rw [completions_eq (fragmentation_cut hn) hc hmem, payloads_cut, flatten_chunks hpos,
      List.map_eq_singleton_iff]
    calc (∃ u, _ = [u] ∧ frame.bytes = frame.bytes)
      _ ↔ _ = [()] := ⟨fun ⟨_, h, _⟩ => h, fun h => ⟨(), h, rfl⟩⟩
      _ ↔ _ := ht
      _ ↔ frame.bytes.length ≤ maxEncodedVideoFrameBytes ∧ InTime arrivals :=
        and_congr (by rw [← sum_cut hpos hn]; rfl) hin
      _ ↔ _ := by tauto
  · rw [completions_of_not_check fun a ha h => hh ((check_cut hn (hmem a ha)).1 h).1]
    exact iff_of_false nofun fun h => hh ⟨h.2.2.1, h.2.2.2.1, h.1⟩

end Cut

/-- **The round trip of a frame.**  Every non-empty frame and datagram size, whatever the order in
which all fragments arrive, some of them more than once. -/
theorem roundTrips_iff (packetizer : VideoPacketizer) (callId : CallId) (trackId : UInt32)
    (frame : EncodedVideoFrame) (maxDatagramSize : ℕ) (arrivals : List (MediaDatagram × Instant))
    (hbytes : frame.bytes ≠ [])
    (harrivals : ∀ fragments,
      (packetizer.fragmentFrame callId trackId frame maxDatagramSize).2 = .ok fragments →
      ∀ d, d ∈ arrivals.map Prod.fst ↔ d ∈ fragments) :
    RoundTrips packetizer callId trackId frame maxDatagramSize arrivals ↔
      Deliverable callId trackId frame maxDatagramSize arrivals := by
  unfold RoundTrips Deliverable
  rcases Nat.lt_trichotomy maxDatagramSize mediaHeaderLen with hlt | rfl | hgt
  · rw [fragmentFrame, payloadCapacity, if_pos hlt]
    exact iff_of_true trivial (.inl hlt)
  · -- with room for the header alone, the number of fragments is a division by zero
    rw [fragmentFrame, payloadCapacity]
    simp [hbytes, divCeil]
  · have hpos : 0 < maxDatagramSize - mediaHeaderLen := Nat.sub_pos_of_lt hgt
    rw [or_iff_right hgt.not_gt, and_iff_right hgt]
    by_cases ho : (2 ^ 16 - 1) * (maxDatagramSize - mediaHeaderLen) < frame.bytes.length
    · rw [fragmentFrame_of_overflow hgt hbytes ho]
      exact iff_of_true trivial (.inl ho)
    · have hok := fragmentFrame_eq_ok hgt hbytes packetizer callId trackId (Nat.le_of_not_lt ho)
      have hcount : (chunks (maxDatagramSize - mediaHeaderLen) frame.bytes).length < 2 ^ 16 :=
        Nat.lt_succ_of_le ((length_chunks_le_iff hpos).2 (Nat.le_of_not_lt ho))
      rw [hok, or_iff_right ho]
      dsimp only
      rw [and_iff_right fun d hd => length_encode_le hgt hd,
        and_iff_right (VideoReassembler.wellFormed_exec _).2]
      exact completions_cut hpos hcount hbytes (harrivals _ (congrArg Prod.snd hok))

/-- A frame of more fragments than the receiver accepts is packetized, and lost even if all of them
arrive at once. -/
theorem not_roundTrips_of_lt (p : VideoPacketizer) {frame : EncodedVideoFrame}
    {size : ℕ} (h : mediaHeaderLen < size)
    (hl : 2048 * (size - mediaHeaderLen) < frame.bytes.length)
    (hcount : frame.bytes.length ≤ (2 ^ 16 - 1) * (size - mediaHeaderLen)) :
    ¬ RoundTrips p callId trackId frame size
      ((cut p.nextFrameId callId trackId frame (size - mediaHeaderLen)).map fun d => (d, 0)) := by
  intro hr
  have hpos : 0 < size - mediaHeaderLen := Nat.sub_pos_of_lt h
  have hb : frame.bytes ≠ [] := List.ne_nil_of_length_pos (Nat.zero_lt_of_lt hl)
  unfold RoundTrips at hr
  rw [fragmentFrame_eq_ok h hb p callId trackId hcount] at hr
  have hc' : (chunks (size - mediaHeaderLen) frame.bytes).length < 2 ^ 16 :=
    Nat.lt_succ_of_le ((length_chunks_le_iff hpos).2 hcount)
  have ha : ∀ d, d ∈ ((cut p.nextFrameId callId trackId frame
      (size - mediaHeaderLen)).map fun d => (d, 0)).map Prod.fst ↔
      d ∈ cut p.nextFrameId callId trackId frame (size - mediaHeaderLen) :=
    fun d => by rw [List.map_map]; exact Iff.of_eq (congrArg _ (List.map_id _))
  exact hl.not_ge ((completions_cut hpos hc' hb ha).1 hr.2.2).1

def sampleCall : CallId := GroupEncryption.Block.replicate 16 7

def sampleFrame : EncodedVideoFrame := ⟨123456, true, [1, 2, 3]⟩

/-- Its two fragments, as they arrive: the second one first, and again after the deadline. -/
def sampleArrivals : List (MediaDatagram × Instant) :=
  [(fragment 0 sampleCall 1 sampleFrame 2 [3] 1, 0),
    (fragment 0 sampleCall 1 sampleFrame 2 [1, 2] 0, 199),
    (fragment 0 sampleCall 1 sampleFrame 2 [3] 1, 200)]

/-- Datagrams with two bytes of payload. -/
theorem roundTrips_sample : RoundTrips .new sampleCall 1 sampleFrame 42 sampleArrivals := by
  refine (roundTrips_iff .new sampleCall 1 sampleFrame 42 sampleArrivals (by decide) ?_).2 ?_
  · intro fragments h d
    have hc : fragments = [fragment 0 sampleCall 1 sampleFrame 2 [1, 2] 0,
        fragment 0 sampleCall 1 sampleFrame 2 [3] 1] := (Except.ok.inj h).symm.trans (by decide)
    rw [hc, sampleArrivals]
    simp only [List.map_cons, List.mem_cons]
    tauto
  · unfold Deliverable InTime
    decide

def longFrame : EncodedVideoFrame := ⟨123456, true, List.replicate 2049 1⟩

/-- Datagrams without payload panic.  Of 2049 datagrams with one byte of payload the receiver
accepts none. -/
theorem not_roundTrips_sample :
    ¬ RoundTrips .new sampleCall 1 sampleFrame 40 [] ∧
    ¬ RoundTrips .new sampleCall 1 longFrame 41
      ((cut 0 sampleCall 1 longFrame 1).map fun d => (d, 0)) := by
  have hlen : longFrame.bytes.length = 2049 := List.length_replicate
  exact ⟨id, not_roundTrips_of_lt .new (by decide) (by rw [hlen]; decide) (by rw [hlen]; decide)⟩

end VideoPacketizer

end Boru.Call
