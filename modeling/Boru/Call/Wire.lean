import Boru.Call.Session

/-!
# Control messages of calls

The messages by which two call managers set up, change and end calls, and the negotiation of media
that both sides support.
-/

namespace Boru.Call

/-- Audio codecs supported by the initial call protocol. -/
inductive AudioCodec where
  | opus
  deriving DecidableEq

/-- Video codecs supported by the initial call protocol. -/
inductive VideoCodec where
  | h264
  deriving DecidableEq

/-- Audio capabilities advertised by a call participant. -/
structure AudioCapabilities where
  /-- Audio codecs supported in preference order. -/
  codecs : List AudioCodec
  sampleRates : List UInt32
  channels : List UInt8
  /-- Supported audio frame durations in milliseconds. -/
  frameMs : List UInt16
  deriving DecidableEq

/-- Video capabilities advertised by a call participant. -/
structure VideoCapabilities where
  /-- Video codecs supported in preference order. -/
  codecs : List VideoCodec
  maxWidth : UInt32
  maxHeight : UInt32
  maxFps : UInt32
  deriving DecidableEq

/-- Capabilities advertised by a call participant. -/
structure MediaCapabilities where
  audio : AudioCapabilities
  /-- None for a voice-only call. -/
  video : Option VideoCapabilities
  deriving DecidableEq

/-- Video parameters selected for an established call. -/
structure NegotiatedVideo where
  codec : VideoCodec
  width : UInt32
  height : UInt32
  fps : UInt32
  deriving DecidableEq

/-- Media parameters selected for an established call. -/
structure NegotiatedMedia where
  audioCodec : AudioCodec
  sampleRate : UInt32
  channels : UInt8
  frameMs : UInt16
  video : Option NegotiatedVideo
  deriving DecidableEq

/-! ### Bounds -/

def maxCapabilityListEntries : ℕ := 8

def maxAudioSampleRate : UInt32 := 192000

def maxAudioChannels : UInt8 := 8

def maxAudioFrameMs : UInt16 := 120

def maxVideoFps : UInt32 := 60

def maxVideoWidth : UInt32 := 1920

def maxVideoHeight : UInt32 := 1080

/-- Validate an advertised audio capability set. -/
def validateAudioCapabilities (value : AudioCapabilities) : Except String Unit :=
  if maxCapabilityListEntries < value.codecs.length then .error "too many audio codecs"
  else if maxCapabilityListEntries < value.sampleRates.length then
    .error "too many audio sample rates"
  else if maxCapabilityListEntries < value.channels.length then
    .error "too many audio channel counts"
  else if maxCapabilityListEntries < value.frameMs.length then
    .error "too many audio frame durations"
  else if value.sampleRates.any fun rate => rate = 0 || maxAudioSampleRate < rate then
    .error "audio sample rate out of bounds"
  else if value.channels.any fun channels => channels = 0 || maxAudioChannels < channels then
    .error "audio channel count out of bounds"
  else if value.frameMs.any fun frameMs => frameMs = 0 || maxAudioFrameMs < frameMs then
    .error "audio frame duration out of bounds"
  else .ok ()

def validateVideoCapabilities (video : VideoCapabilities) : Except String Unit :=
  if maxCapabilityListEntries < video.codecs.length then .error "too many video codecs"
  else if video.maxWidth = 0 ∨ video.maxHeight = 0 then .error "video dimensions must be non-zero"
  else if maxVideoWidth < video.maxWidth ∨ maxVideoHeight < video.maxHeight then
    .error "video resolution out of bounds"
  else if video.maxFps = 0 ∨ maxVideoFps < video.maxFps then
    .error "video frame rate out of bounds"
  else .ok ()

/-- Validate all peer-advertised media capabilities. -/
def validateCapabilities (value : MediaCapabilities) : Except String Unit := do
  validateAudioCapabilities value.audio
  match value.video with
  | some video => validateVideoCapabilities video
  | none => pure ()

/-! ### Negotiation -/

/-- The first of the local values that the remote side has too. -/
def firstCommon {α : Type} [DecidableEq α] (localValues remoteValues : List α) : Option α :=
  localValues.find? (· ∈ remoteValues)

/-- Select the video common to both participants; the outer option is a failure. -/
def negotiateVideo :
    Option VideoCapabilities → Option VideoCapabilities → Option (Option NegotiatedVideo)
  | some l, some r => do
    let codec ← firstCommon l.codecs r.codecs
    pure (some ⟨codec, min l.maxWidth r.maxWidth, min l.maxHeight r.maxHeight,
      min l.maxFps r.maxFps⟩)
  | none, _ | _, none => some none

/-- Select media common to both participants using local preference order. -/
def negotiate (l r : MediaCapabilities) : Option NegotiatedMedia := do
  (validateCapabilities l).toOption
  (validateCapabilities r).toOption
  let audioCodec ← firstCommon l.audio.codecs r.audio.codecs
  let sampleRate ← firstCommon l.audio.sampleRates r.audio.sampleRates
  let channels ← firstCommon l.audio.channels r.audio.channels
  let frameMs ← firstCommon l.audio.frameMs r.audio.frameMs
  let video ← negotiateVideo l.video r.video
  pure ⟨audioCodec, sampleRate, channels, frameMs, video⟩

/-- The version-1 media capability set. -/
def v1Defaults : MediaCapabilities where
  audio := ⟨[.opus], [48000], [1], [20]⟩
  video := some ⟨[.h264], 1920, 1080, 30⟩

variable (kind : CallKind)

def callCapabilities : MediaCapabilities :=
  if kind = .voice then { v1Defaults with video := none } else v1Defaults

/-- Select media for a kind of call and the capabilities of the peer. -/
def negotiateForCapabilities (remote : MediaCapabilities) : Option NegotiatedMedia :=
  negotiate (callCapabilities kind) remote

/-- The version-1 capabilities negotiate with themselves, so accepting a call always selects
media. -/
theorem isSome_negotiate : (negotiateForCapabilities kind (callCapabilities kind)).isSome := by
  cases kind <;> decide

/-- The media selected when a call is accepted. -/
def negotiateForKind : NegotiatedMedia :=
  (negotiateForCapabilities kind (callCapabilities kind)).get (isSome_negotiate kind)

/-! ### Messages -/

inductive RejectReason where
  | declined
  | busy
  | blocked
  | unauthorized
  | unsupportedVersion
  | noCommonAudioCodec
  | noCommonVideoCodec
  | noAudioDevice
  | noCamera
  | permissionDenied
  | protocolError
  deriving DecidableEq

inductive HangupReason where
  | localHangup
  | remoteHangup
  | connectionLost
  | protocolError
  | authorizationRevoked
  | deviceError
  | shutdown
  | negotiationTimeout
  deriving DecidableEq

def callControlVersion : UInt16 := 1

/-- Control message for call setup, state, and teardown. -/
inductive CallControl where
  /-- Initiates protocol version and call identity negotiation. -/
  | hello (version : UInt16) (callId : CallId)
  /-- Advertises the desired call kind and media capabilities. -/
  | offer (callId : CallId) (kind : CallKind) (capabilities : MediaCapabilities)
  /-- Indicates that the callee is alerting the user. -/
  | ringing (callId : CallId)
  | accept (callId : CallId) (selected : NegotiatedMedia)
  | reject (callId : CallId) (reason : RejectReason)
  /-- Indicates that the callee is unavailable. -/
  | busy (callId : CallId)
  /-- Reports local mute and camera state. -/
  | mediaState (callId : CallId) (audioMuted videoEnabled : Bool)
  /-- Requests an intra frame for a video track. -/
  | requestKeyframe (callId : CallId) (trackId : UInt32)
  /-- Keeps the reliable control stream alive. -/
  | keepAlive (callId : CallId)
  /-- Requests a new media generation for an established call. -/
  | reconnect (callId : CallId) (generation : UInt64)
  | hangup (callId : CallId) (reason : HangupReason)
  deriving DecidableEq

end Boru.Call
