import Boru.Mailbox.Types

/-!
# Permissions of a screen share

Every share is view-only until the host grants a capability.  A grant comes with a fresh nonce,
which the viewer echoes in every input; revoking control, a reconnect and the end of the session
drop what was granted.

The nonce of a grant on the host's side is drawn from the operating system, which may fail; the
argument `nonce` stands for the result.  Times are in milliseconds.

* `SessionPermissions.mem_grantWithNonce`, `SessionPermissions.mem_grant` : what a grant adds.
-/

namespace Boru.ScreenShare

open GroupEncryption (Block)

/-- Opaque identifier for one negotiation. -/
abbrev SessionId := Block 16

/-- `ScreenShareSessionId::zero`. -/
def SessionId.zero : SessionId := Block.replicate 16 0

abbrev Nonce := Block 16

/-- What a peer may be allowed to do. -/
inductive Capability where
  | viewScreen
  | controlPointer
  | controlKeyboard
  | clipboard
  | audio
  deriving DecidableEq

/-- Whether the capability controls the host's input. -/
def Capability.isControl : Capability → Bool
  | .controlPointer | .controlKeyboard => true
  | _ => false

def maxCapabilities : ℕ := 5

def controlGrantTtl : Duration := 15 * 60 * 1000

def inputRateWindow : Duration := 1000

def maxInputEventsPerWindow : ℕ := 200

/-- A sliding-window rate limiter: the times of the events in the window, oldest first. -/
structure SlidingWindowRateLimiter where
  window : Duration := inputRateWindow
  maxEvents : ℕ := maxInputEventsPerWindow
  events : List Instant := []

/-- Record an event unless the window is full. -/
def SlidingWindowRateLimiter.allow (l : SlidingWindowRateLimiter) (now : Instant) :
    SlidingWindowRateLimiter × Bool :=
  let events := l.events.dropWhile fun t => l.window ≤ now - t
  if l.maxEvents ≤ events.length then ({ l with events := events }, false)
  else ({ l with events := events ++ [now] }, true)

structure ControlToken where
  nonce : Nonce
  issuedAt : Instant

/-- Whether the token has not expired. -/
def ControlToken.isValidAt (token : ControlToken) (now : Instant) : Bool :=
  now - token.issuedAt < controlGrantTtl

structure SessionPermissions where
  sessionId : SessionId
  peerId : PublicKey
  granted : List Capability
  active : Bool
  token : Option ControlToken

/-- The room policy: whether a peer may be granted a capability. -/
abbrev PermissionHook := PublicKey → Capability → Bool

/-- `UnmanagedRoomPermissionHook`: no policy. -/
def unmanagedRoomPermissionHook : PermissionHook := fun _ _ => true

/-- Add one capability to those granted, and note whether one was added. -/
def addCapability (acc : List Capability × Bool) (capability : Capability) :
    List Capability × Bool :=
  if capability = .viewScreen then acc
  else if capability ∉ acc.1 ∧ acc.1.length < maxCapabilities then (acc.1 ++ [capability], true)
  else acc

/-- Add capabilities to those granted, and note whether any was added. -/
def addCapabilities (granted capabilities : List Capability) : List Capability × Bool :=
  capabilities.foldl addCapability (granted, false)

namespace SessionPermissions

def viewOnly (sessionId : SessionId) (peerId : PublicKey) : SessionPermissions where
  sessionId := sessionId
  peerId := peerId
  granted := [.viewScreen]
  active := true
  token := none

variable (p : SessionPermissions)

variable (sessionId : SessionId) (peerId : PublicKey) (capability : Capability)
  (capabilities : List Capability) (nonce : Nonce) (now : Instant)

/-- Whether the nonce is that of the current token, and the token has not expired. -/
def nonceMatches : Bool :=
  p.token.any fun token => token.nonce = nonce && token.isValidAt now

/-- Whether a capability is granted to a peer in a session. -/
def allows : Bool :=
  p.active && p.sessionId = sessionId && p.peerId = peerId && p.granted.contains capability

/-- `authorize_nonce`: whether an input with this nonce is authorized. -/
def authorizeNonce : Bool :=
  p.allows sessionId peerId capability && p.nonceMatches nonce now

/-- Grant capabilities with a fresh nonce.  If none can be drawn the grant fails, although the
capabilities have been added. -/
def grant (nonce : Option Nonce) (now : Instant) : SessionPermissions × Bool :=
  if ¬ p.active then (p, false)
  else
    let added := addCapabilities p.granted capabilities
    let p := { p with granted := added.1 }
    if added.2 then
      match nonce with
      | none => (p, false)
      | some nonce => ({ p with token := some ⟨nonce, now⟩ }, true)
    else (p, true)

/-- Grant capabilities if the policy allows all of them. -/
def grantWithPolicy (policy : PermissionHook) (nonce : Option Nonce) (now : Instant) :
    SessionPermissions × Bool :=
  if capabilities.any fun capability => capability ≠ .viewScreen && !policy p.peerId capability
  then (p, false)
  else p.grant capabilities nonce now

def grantWithNonce : SessionPermissions × Bool :=
  if ¬ p.active then (p, false)
  else
    let added := addCapabilities p.granted capabilities
    ({ p with
        granted := added.1
        token := if added.2 then some ⟨nonce, now⟩ else p.token }, true)

/-- Drop everything but the view, and the token. -/
def revokeControl : SessionPermissions :=
  { p with granted := p.granted.filter (· = .viewScreen), token := none }

/-- Back to view-only after a reconnect. -/
def resetForReconnect : SessionPermissions := p.revokeControl

def finish : SessionPermissions :=
  { p with active := false, granted := [], token := none }

/-- No capability that controls the host's input is granted. -/
def NoControl : Prop := ∀ c ∈ p.granted, c.isControl = false

end SessionPermissions

/-! ### What a grant adds -/

variable {capabilities : List Capability} {acc : List Capability × Bool}

theorem mem_foldl_addCapability {c : Capability}
    (h : c ∈ (capabilities.foldl addCapability acc).1) : c ∈ acc.1 ∨ c ∈ capabilities := by
  induction capabilities generalizing acc with
  | nil => exact .inl h
  | cons capability rest ih =>
    obtain ha | hr := ih h
    · unfold addCapability at ha
      split_ifs at ha
      · exact .inl ha
      · obtain ha | ha := List.mem_append.1 ha
        · exact .inl ha
        · exact .inr (List.mem_cons.2 (.inl (List.mem_singleton.1 ha)))
      · exact .inl ha
    · exact .inr (List.mem_cons_of_mem _ hr)

theorem mem_addCapabilities {c : Capability} {gr : List Capability}
    (h : c ∈ (addCapabilities gr capabilities).1) : c ∈ gr ∨ c ∈ capabilities :=
  mem_foldl_addCapability h

theorem foldl_addCapability_of_added (h : acc.2 = true) :
    (capabilities.foldl addCapability acc).2 = true := by
  induction capabilities generalizing acc with
  | nil => exact h
  | cons capability rest ih =>
    refine ih ?_
    unfold addCapability
    split_ifs
    · exact h
    · rfl
    · exact h

/-- If no capability was added, the granted ones are those from before. -/
theorem foldl_addCapability_of_not_added (h : ¬ (capabilities.foldl addCapability acc).2 = true) :
    (capabilities.foldl addCapability acc).1 = acc.1 := by
  induction capabilities generalizing acc with
  | nil => rfl
  | cons capability rest ih =>
    rw [List.foldl_cons] at h ⊢
    rw [ih h]
    unfold addCapability at h ⊢
    split_ifs at h ⊢
    · rfl
    · exact absurd (foldl_addCapability_of_added rfl) h
    · rfl

namespace SessionPermissions

variable {p : SessionPermissions} {capabilities : List Capability} {now : Instant} {c : Capability}

variable {nonce : Nonce}

theorem mem_grantWithNonce (h : c ∈ (p.grantWithNonce capabilities nonce now).1.granted) :
    c ∈ p.granted ∨ p.active ∧ c ∈ capabilities := by
  unfold grantWithNonce at h
  split at h
  · exact .inl h
  · next ha => exact (mem_addCapabilities h).imp_right fun hc => ⟨not_not.1 ha, hc⟩

theorem mem_grant {nonce : Option Nonce} (h : c ∈ (p.grant capabilities nonce now).1.granted) :
    c ∈ p.granted ∨ p.active ∧ c ∈ capabilities := by
  unfold grant at h
  split at h
  · exact .inl h
  next hac =>
    have ha (hc : c ∈ (addCapabilities p.granted capabilities).1) :
        c ∈ p.granted ∨ p.active ∧ c ∈ capabilities :=
      (mem_addCapabilities hc).imp_right fun hc => ⟨not_not.1 hac, hc⟩
    dsimp only at h
    split at h
    · split at h <;> exact ha h
    · exact ha h

theorem mem_grantWithPolicy {policy : PermissionHook} {nonce : Option Nonce}
    (h : c ∈ (p.grantWithPolicy capabilities policy nonce now).1.granted) :
    c ∈ p.granted ∨ p.active ∧ c ∈ capabilities := by
  unfold grantWithPolicy at h
  split at h
  · exact .inl h
  · exact mem_grant h

/-- With a fresh nonce a grant that fails, or that leaves no token, adds nothing. -/
theorem grantWithPolicy_granted {pol : PermissionHook}
    (h : (p.grantWithPolicy capabilities pol (some nonce) now).2 = true →
      (p.grantWithPolicy capabilities pol (some nonce) now).1.token = none) :
    (p.grantWithPolicy capabilities pol (some nonce) now).1.granted = p.granted := by
  unfold grantWithPolicy grant at h ⊢
  split
  · rfl
  next hpolicy =>
    rw [if_neg hpolicy] at h
    split
    · rfl
    next hactive =>
      rw [if_neg hactive] at h
      dsimp only at h ⊢
      split
      next hadded =>
        rw [if_pos hadded] at h
        cases h rfl
      next hadded => exact foldl_addCapability_of_not_added hadded

theorem noControl_viewOnly (sessionId : SessionId) (peerId : PublicKey) :
    (viewOnly sessionId peerId).NoControl := by
  intro c hc
  obtain rfl := List.mem_singleton.1 hc
  rfl

theorem noControl_revokeControl (p : SessionPermissions) : p.revokeControl.NoControl := by
  intro c hc
  obtain rfl : c = .viewScreen := by simpa using (List.mem_filter.1 hc).2
  rfl

theorem noControl_finish (p : SessionPermissions) : p.finish.NoControl := by
  intro c hc
  cases hc

end SessionPermissions

end Boru.ScreenShare
