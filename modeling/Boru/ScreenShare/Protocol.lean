import Boru.ScreenShare.Permissions

/-!
# Control messages of a screen share

What two peers say to each other about a session, and the checks that a message from the network
passes before it is applied.

Coordinates are single-precision numbers in the code.  A coordinate is a rational number or not
finite; nothing else is ever asked about it here.
-/

namespace Boru.ScreenShare

/-- `SCREEN_SHARE_PROTOCOL_VERSION`. -/
def protocolVersion : UInt16 := 1

def maxInputCode : UInt32 := 0xFFFF

def maxCodecs : ℕ := 16

def maxCodecName : ℕ := 32

def maxReason : ℕ := 256

/-- `MAX_MODIFIER_MASK`: shift, control, alt and meta. -/
def maxModifierMask : UInt32 := 15

inductive Coordinate where
  | finite (value : Rat)
  | notFinite
  deriving DecidableEq

def Coordinate.isZero : Coordinate → Bool
  | .finite value => value = 0
  | .notFinite => false

def Coordinate.inUnit : Coordinate → Bool
  | .finite value => 0 ≤ value && value ≤ 1
  | .notFinite => false

inductive InputEventKind where
  | pointerMove
  | pointerButton
  | wheel
  | key
  | modifierChange
  deriving DecidableEq

def InputEventKind.capability : InputEventKind → Capability
  | .pointerMove | .pointerButton | .wheel => .controlPointer
  | .key | .modifierChange => .controlKeyboard

/-- Whether the kind carries coordinates. -/
def InputEventKind.isPointer : InputEventKind → Bool
  | .pointerMove | .pointerButton | .wheel => true
  | .key | .modifierChange => false

inductive Permission where
  | viewOnly
  | capabilities (capabilities : List Capability)
  deriving DecidableEq

/-- Negotiation capabilities advertised by the host. -/
structure Hello where
  version : UInt16
  sessionId : SessionId
  /-- Identity that initiated the invitation. -/
  hostId : PublicKey
  conversationId : UInt64
  /-- Codec names, ordered by preference. -/
  codecs : List String
  width : UInt16
  height : UInt16
  /-- Target frame rate in frames per second. -/
  frameRate : UInt16
  /-- Permission granted after acceptance. -/
  permission : Permission
  deriving DecidableEq

structure InputMessage where
  nonce : Nonce
  kind : InputEventKind
  /-- A button, a key or a modifier mask. -/
  code : UInt32
  x : Coordinate
  y : Coordinate
  /-- Whether the key or button is down. -/
  pressed : Bool
  modifiers : UInt32
  deriving DecidableEq

inductive ControlMessage where
  | hello (hello : Hello)
  | accept (version : UInt16) (sessionId : SessionId)
  | reject (version : UInt16) (sessionId : SessionId) (reason : String)
  | endSession (version : UInt16) (sessionId : SessionId)
  | requestControl (version : UInt16) (sessionId : SessionId) (capabilities : List Capability)
  | grantControl (version : UInt16) (sessionId : SessionId) (capabilities : List Capability)
      (nonce : Nonce)
  | revokeControl (version : UInt16) (sessionId : SessionId)
  | input (version : UInt16) (sessionId : SessionId) (input : InputMessage)
  deriving DecidableEq

inductive ProtocolError where
  | unsupportedVersion (received supported : UInt16)
  | malformed (reason : String)
  deriving DecidableEq

/-- Check the fields of an invitation. -/
def Hello.validate (h : Hello) : Except ProtocolError UInt16 :=
  if h.sessionId = .zero then .error (.malformed "empty session id")
  else if maxCodecs < h.codecs.length then .error (.malformed "too many codec capabilities")
  else if h.codecs.any fun codec => codec.utf8ByteSize = 0 || maxCodecName < codec.utf8ByteSize ||
      !codec.toList.all (fun c => c.toNat < 128) then
    .error (.malformed "invalid codec capability")
  else if match h.permission with
      | .viewOnly => false
      | .capabilities cs => cs = [] || maxCapabilities < cs.length || !decide cs.Nodup then
    .error (.malformed "invalid permission capability list")
  else if h.width = 0 || h.height = 0 || 16384 < h.width || 16384 < h.height then
    .error (.malformed "invalid dimensions")
  else if h.frameRate = 0 || 240 < h.frameRate then .error (.malformed "invalid frame rate")
  else .ok h.version

def InputMessage.validate (i : InputMessage) : Except ProtocolError Unit :=
  let position : Except ProtocolError Unit :=
    if ¬ i.kind.isPointer then
      if maxInputCode < i.code then .error (.malformed "input code out of range")
      else if ¬ i.x.isZero ∨ ¬ i.y.isZero then
        .error (.malformed "keyboard input coordinates must be zero")
      else if i.kind = .modifierChange ∧ i.code &&& ~~~ maxModifierMask ≠ 0 then
        .error (.malformed "modifier change code must be a valid modifier mask")
      else .ok ()
    else if ¬ i.x.inUnit ∨ ¬ i.y.inUnit then
      .error (.malformed "input coordinates out of range")
    else
      match i.kind with
      | .pointerMove =>
        if i.code ≠ 0 then .error (.malformed "pointer move code must be zero") else .ok ()
      | .pointerButton =>
        if i.code < 1 ∨ 3 < i.code then .error (.malformed "invalid pointer button code")
        else .ok ()
      | .wheel =>
        if i.code < 4 ∨ 7 < i.code then .error (.malformed "invalid wheel code") else .ok ()
      | _ => .ok ()
  match position with
  | .error e => .error e
  | .ok () =>
    if i.modifiers &&& ~~~ maxModifierMask ≠ 0 then .error (.malformed "invalid modifier mask")
    else .ok ()

/-- Check a list of capabilities that is asked for or granted. -/
def validateCapabilities (capabilities : List Capability) : Except ProtocolError Unit :=
  if capabilities = [] ∨ maxCapabilities < capabilities.length ∨ .viewScreen ∈ capabilities then
    .error (.malformed "invalid control capability request")
  else .ok ()

/-- Check the fields of a message that do not depend on its version. -/
def ControlMessage.version : ControlMessage → Except ProtocolError UInt16
  | .hello h => h.validate
  | .accept version _ | .reject version _ _ | .endSession version _ | .revokeControl version _ =>
    .ok version
  | .requestControl version _ capabilities | .grantControl version _ capabilities _ =>
    (validateCapabilities capabilities).map fun _ => version
  | .input version _ i => i.validate.map fun _ => version

/-- Validate untrusted wire data before applying it to session state. -/
def ControlMessage.validate (message : ControlMessage) : Except ProtocolError Unit :=
  match message.version with
  | .error e => .error e
  | .ok version =>
    if version ≠ protocolVersion then .error (.unsupportedVersion version protocolVersion)
    else
      match message with
      | .reject _ _ reason =>
        if reason.utf8ByteSize = 0 ∨ maxReason < reason.utf8ByteSize then
          .error (.malformed "invalid rejection reason")
        else .ok ()
      | _ => .ok ()

theorem Hello.sessionId_ne_zero {hello : Hello}
    (h : (ControlMessage.hello hello).validate = .ok ()) : hello.sessionId ≠ .zero := by
  intro hz
  simp [ControlMessage.validate, ControlMessage.version, Hello.validate, hz] at h

end Boru.ScreenShare
