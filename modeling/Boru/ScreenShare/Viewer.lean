import Boru.LTS.Basic
import Boru.Integers
import Boru.ScreenShare.Protocol

/-!
# The viewer's decode pipeline

The viewer queues the media units that arrive, in the order of their sequence numbers, and hands
them to its decoder in batches.  A dependent frame needs the frames back to the last keyframe, so
after a loss the pipeline drops dependent frames until the next keyframe.

The decoder is a parameter: a state, what it answers to a frame and what a reset does.  What the
pipeline reports about itself (the statistics) is left out.

* `ViewerPipeline.enqueue`, `ViewerPipeline.process` : the two ends of the queue.
* `viewer` : the pipeline as a machine, which emits the frames handed to the decoder.
-/

namespace Boru.ScreenShare

abbrev ScreenShareError := String

def maxMediaFrame : ℕ := 4 * 1024 * 1024

structure MediaHeader where
  version : UInt16
  sessionId : SessionId
  sequence : UInt64
  timestampUs : UInt64
  encodeTimestampUs : UInt64
  codec : UInt8
  /-- `FLAG_KEYFRAME` and `FLAG_CODEC_CONFIG`. -/
  flags : UInt8
  width : UInt16
  height : UInt16
  /-- The generation of the encoder's configuration. -/
  configGeneration : UInt64
  payloadLen : UInt32

namespace MediaHeader

def flagKeyframe : UInt8 := 1

def flagCodecConfig : UInt8 := 2

def keyframe (header : MediaHeader) : Bool := header.flags &&& flagKeyframe ≠ 0

def validate (header : MediaHeader) : Except ScreenShareError Unit :=
  if header.version ≠ protocolVersion then .error "unsupported media protocol version"
  else if header.sessionId = .zero then .error "media session id is empty"
  else if header.codec = 0 ∨ 8 < header.codec then .error "invalid media codec"
  else if header.width = 0 ∨ header.height = 0 ∨ 16384 < header.width ∨ 16384 < header.height then
    .error "invalid media dimensions"
  else if header.payloadLen = 0 ∨ maxMediaFrame < header.payloadLen.toNat then
    .error "media payload exceeds limit"
  else if header.flags &&& ~~~ (flagKeyframe ||| flagCodecConfig) ≠ 0 then
    .error "invalid media flags"
  else .ok ()

end MediaHeader

/-- A frame as the decoder gets it. -/
structure EncodedFrame where
  timestampUs : UInt64
  encodeTimestampUs : UInt64
  sequence : UInt64
  keyframe : Bool
  configGeneration : UInt64
  width : UInt32
  height : UInt32
  bytes : Bytes

abbrev MediaUnit := MediaHeader × Bytes

namespace MediaUnit

def keyframe (u : MediaUnit) : Bool := u.1.keyframe

def number (u : MediaUnit) : ℕ := u.1.sequence.toNat

def frame (u : MediaUnit) : EncodedFrame where
  timestampUs := u.1.timestampUs
  encodeTimestampUs := u.1.encodeTimestampUs
  sequence := u.1.sequence
  keyframe := u.1.keyframe
  configGeneration := u.1.configGeneration
  width := u.1.width.toUInt32
  height := u.1.height.toUInt32
  bytes := u.2

end MediaUnit

/-- A decoder with states `D` and pictures `P`. -/
structure VideoDecoder (D P : Type) where
  decode : D → EncodedFrame → D × Except ScreenShareError (Option P)
  reset : D → D

structure ViewerPipeline (D P : Type) where
  decoder : D
  sessionId : SessionId
  queue : List MediaUnit
  queueCapacity : ℕ
  decoded : Option P
  lastSequence : Option UInt64
  /-- Dependent frames are dropped. -/
  waitingForKeyframe : Bool
  authorized : Bool
  ended : Bool
  droppedFrames : UInt64
  decodeErrors : UInt64
  keyframeRequests : UInt64
  pendingKeyframeRequest : Bool

/-- A frame that was handed to the decoder. -/
structure Handed where
  number : ℕ
  keyframe : Bool
  decoded : Bool
  deriving DecidableEq

namespace ViewerPipeline

variable {D P : Type} (V : VideoDecoder D P)

def new (decoder : D) (sessionId : SessionId) (queueCapacity : ℕ) :
    Except ScreenShareError (ViewerPipeline D P) :=
  if sessionId = .zero then .error "viewer session id is empty"
  else if queueCapacity = 0 then .error "viewer queue capacity must be non-zero"
  else
    .ok
      { decoder := decoder, sessionId := sessionId, queue := [], queueCapacity := queueCapacity
        decoded := none, lastSequence := none, waitingForKeyframe := false, authorized := true
        ended := false, droppedFrames := 0, decodeErrors := 0, keyframeRequests := 0
        pendingKeyframeRequest := false }

variable (p : ViewerPipeline D P)

/-- Revoke the authorization and discard all media. -/
def revoke : ViewerPipeline D P :=
  { p with authorized := false, queue := [], decoded := none }

/-- `end`: the session is over; discard all media. -/
def finish : ViewerPipeline D P :=
  { p with ended := true, queue := [], decoded := none }

def isActive : Bool := p.authorized && !p.ended

def drop (n : UInt64) : ViewerPipeline D P :=
  { p with droppedFrames := saturatingAdd p.droppedFrames n }

def noteKeyframeRequest : ViewerPipeline D P :=
  { p with keyframeRequests := saturatingAdd p.keyframeRequests 1, pendingKeyframeRequest := true }

/-- Missing-frame detection: a jump of the sequence makes a dependent frame useless. -/
def noteGap (header : MediaHeader) : ViewerPipeline D P :=
  match p.lastSequence with
  | none => p
  | some last =>
    let gap := saturatingSub header.sequence (last + 1)
    if gap = 0 then p
    else if header.keyframe then p.drop gap
    else { p.drop gap with waitingForKeyframe := true }.noteKeyframeRequest

/-- Drop the oldest unit if the queue is full. -/
def makeRoom : ViewerPipeline D P :=
  if p.queueCapacity ≤ p.queue.length then { p.drop 1 with queue := p.queue.tail } else p

variable (u : MediaUnit)

/-- Queue a unit and advance the watermark. -/
def push : ViewerPipeline D P :=
  { p with lastSequence := some u.1.sequence, queue := p.queue ++ [u] }

def enqueue (header : MediaHeader) (payload : Bytes) :
    ViewerPipeline D P × Except ScreenShareError Unit :=
  if ¬ p.isActive then (p, .error "viewer session is not active")
  else
    match header.validate with
    | .error e => (p, .error e)
    | .ok () =>
      if header.sessionId ≠ p.sessionId then
        (p, .error "media session id does not match viewer")
      else if p.lastSequence.any fun last => header.sequence ≤ last then (p.drop 1, .ok ())
      else if payload.length ≠ header.payloadLen.toNat then
        (p, .error "media payload length mismatch")
      -- the gap is noted before the oldest unit may be dropped to make room
      else ((p.noteGap header).makeRoom.push (header, payload), .ok ())

/-- What the decoder's answer to a frame does. -/
def absorb : Except ScreenShareError (Option P) → ViewerPipeline D P
  | .ok (some picture) =>
    -- the watermark becomes that of the frame, also when it was ahead of it
    { p with
      lastSequence := some u.1.sequence, waitingForKeyframe := false, decoded := some picture }
  | .ok none =>
    let p := { p with lastSequence := some u.1.sequence }
    if !u.keyframe && !p.waitingForKeyframe then
      { p with waitingForKeyframe := true }.noteKeyframeRequest
    else p
  | .error _ =>
    { p.drop 1 with
      decodeErrors := saturatingAdd p.decodeErrors 1, waitingForKeyframe := true
      decoder := V.reset p.decoder }.noteKeyframeRequest

def gavePicture : Except ScreenShareError (Option P) → Bool
  | .ok (some _) => true
  | _ => false

/-- One round of the decode loop. -/
def consume : ViewerPipeline D P × List Handed :=
  if p.waitingForKeyframe && !u.keyframe then (p.drop 1, [])
  else
    let r := V.decode p.decoder u.frame
    ({ p with decoder := r.1 }.absorb V u r.2, [⟨u.number, u.keyframe, gavePicture r.2⟩])

def drain (p : ViewerPipeline D P) : List MediaUnit → ViewerPipeline D P × List Handed
  | [] => (p, [])
  | u :: queue =>
    let r := p.consume V u
    ((r.1.drain queue).1, r.2 ++ (r.1.drain queue).2)

/-- Decode all queued units; with the frames handed to the decoder and the number of units. -/
def process : ViewerPipeline D P × List Handed × ℕ :=
  if ¬ p.isActive then (p, [], 0)
  else
    let r := { p with queue := [] }.drain V p.queue
    (r.1, r.2, p.queue.length)

def takeFrame : ViewerPipeline D P × Option P :=
  ({ p with decoded := none }, p.decoded)

/-- Whether a keyframe is to be asked for; only once. -/
def takeKeyframeRequest : ViewerPipeline D P × Bool :=
  ({ p with pendingKeyframeRequest := false }, p.pendingKeyframeRequest)

end ViewerPipeline

inductive ViewerInput where
  | enqueue (header : MediaHeader) (payload : Bytes)
  | process
  | revoke
  | finish
  | takeFrame
  | takeKeyframeRequest

/-- The pipeline as a machine; it emits the frames handed to the decoder. -/
def viewer {D P : Type} (V : VideoDecoder D P) :
    Machine (ViewerPipeline D P) ViewerInput Handed where
  step p
    | .enqueue header payload => ((p.enqueue header payload).1, [])
    | .process => ((p.process V).1, (p.process V).2.1)
    | .revoke => (p.revoke, [])
    | .finish => (p.finish, [])
    | .takeFrame => (p.takeFrame.1, [])
    | .takeKeyframeRequest => (p.takeKeyframeRequest.1, [])

end Boru.ScreenShare
