import Boru.Call.Manager

/-!
# What a command does to the calls

Every command does one of three things to the calls of the manager.  It is quiet: calls may end,
lose their media path or change in what their session does not depend on, but none is created or
activated, and no event says so.  Or it activates one call.  Or it creates one call.

* `Manager.handle_cases` : the inversion of the command handler.
* `step_cases` : the inversion of a step of the actor.
-/

namespace Boru.Call

open CallSession

def Effect.created : Effect → Option CallId
  | .emit (.incoming callId _ _) | .emit (.outgoingRinging callId _) => some callId
  | _ => none

def Effect.activated : Effect → Option CallId
  | .emit (.active callId _ _) => some callId
  | _ => none

/-- An effect that reports neither a creation nor an activation. -/
def Effect.Quiet (e : Effect) : Prop := e.created = none ∧ e.activated = none

attribute [simp] Effect.created Effect.activated Effect.Quiet

/-! ### Calls that go on -/

theorem SessionState.Settles.trans {a b c : SessionState} (hab : a.Settles b) (hbc : b.Settles c) :
    a.Settles c := by
  obtain rfl | hb | ⟨rfl, rfl⟩ := hab
  · exact hbc
  · obtain rfl | hc | ⟨rfl, -⟩ := hbc
    · exact .inr (.inl hb)
    · exact .inr (.inl hc)
    · cases hb
  · obtain rfl | hc | ⟨h, -⟩ := hbc
    · exact .inr (.inr ⟨rfl, rfl⟩)
    · exact .inr (.inl hc)
    · cases h

/-- A session that settles as active was active before. -/
theorem SessionState.Settles.eq_active {a : SessionState} (h : a.Settles .active) :
    a = .active := by
  obtain h | h | ⟨-, h⟩ := h
  · exact h.symm
  · cases h
  · cases h

/-- The same call later, not having been activated in between. -/
structure CallState.Continues (call call' : CallState) : Prop where
  peer : call'.peer = call.peer
  incoming : call'.incoming = call.incoming
  pinned : call.session.Pinned call'.session
  settles : call.session.state.Settles call'.session.state

namespace CallState

theorem Continues.refl (call : CallState) : call.Continues call :=
  ⟨rfl, rfl, .refl _, .inl rfl⟩

theorem Continues.trans {a b c : CallState} (hab : a.Continues b) (hbc : b.Continues c) :
    a.Continues c where
  peer := hbc.peer.trans hab.peer
  incoming := hbc.incoming.trans hab.incoming
  pinned := ⟨hbc.pinned.callId.trans hab.pinned.callId,
    hbc.pinned.remotePeer.trans hab.pinned.remotePeer⟩
  settles := hab.settles.trans hbc.settles

/-- A call goes on when a signal other than an offer or an acceptance is applied to its session. -/
theorem Continues.apply {call : CallState} {signal : SessionSignal} (now : Instant)
    (ho : ∀ callId kind, signal ≠ .offer callId kind) (ha : ∀ callId, signal ≠ .accept callId) :
    call.Continues { call with session := (call.session.apply now call.peer signal).1 } where
  peer := rfl
  incoming := rfl
  pinned := call.session.pinned_apply now call.peer signal
  settles := settles_apply ho ha

end CallState

/-- What becomes of a call in a quiet step: it may be gone, and otherwise it goes on. -/
def Evolves (before after : Option CallState) : Prop :=
  ∀ call' ∈ after, ∃ call ∈ before, call.Continues call'

theorem Evolves.refl (call : Option CallState) : Evolves call call :=
  fun call' h => ⟨call', h, .refl call'⟩

theorem Evolves.trans {a b c : Option CallState} (hab : Evolves a b) (hbc : Evolves b c) :
    Evolves a c := by
  intro z hz
  obtain ⟨y, hy, hyz⟩ := hbc z hz
  obtain ⟨x, hx, hxy⟩ := hab y hy
  exact ⟨x, hx, hxy.trans hyz⟩

/-- No call appears in a quiet step. -/
theorem Evolves.eq_none {pre post : Option CallState} (h : Evolves pre post)
    (hb : pre = none) : post = none := by
  cases post with
  | none => rfl
  | some call' =>
    obtain ⟨call, hc, -⟩ := h call' rfl
    rw [hb] at hc
    cases hc

namespace Manager

@[simp] theorem lookup_setCall_self (m : Manager) (callId : CallId) (call : CallState) :
    (m.setCall callId call).calls.lookup callId = some call := AList.lookup_insert _

variable {m : Manager} {callId : CallId} {call : CallState}

theorem lookup_setCall_of_ne {callId' : CallId} (h : callId' ≠ callId) :
    (m.setCall callId call).calls.lookup callId' = m.calls.lookup callId' :=
  AList.lookup_insert_ne h

/-- A step that creates and activates no call. -/
structure Quiet (m : Manager) (r : Reaction) : Prop where
  calls : ∀ callId, Evolves (m.calls.lookup callId) (r.1.calls.lookup callId)
  effects : ∀ e ∈ r.2, e.Quiet

theorem Quiet.trans {r r' : Reaction} (h : Quiet m r) (h' : Quiet r.1 r') :
    Quiet m (r'.1, r.2 ++ r'.2) where
  calls callId := (h.calls callId).trans (h'.calls callId)
  effects e he := (List.mem_append.1 he).elim (h.effects e) (h'.effects e)

variable {out : List Effect}

/-- A step that leaves the calls as they are. -/
theorem quiet_of_calls_eq {m' : Manager} (h : m'.calls = m.calls) (hout : ∀ e ∈ out, e.Quiet) :
    Quiet m (m', out) where
  calls callId := by rw [h]; exact .refl _
  effects := hout

/-- A step that changes one call, which goes on. -/
theorem quiet_setCall {call' : CallState} (hca : m.calls.lookup callId = some call)
    (h : call.Continues call') (hout : ∀ e ∈ out, e.Quiet) :
    Quiet m (m.setCall callId call', out) where
  calls c := by
    by_cases hc : c = callId
    · subst hc
      intro z hz
      rw [lookup_setCall_self] at hz
      cases hz
      exact ⟨call, hca, h⟩
    · rw [lookup_setCall_of_ne hc]
      exact .refl _
  effects := hout

section

variable (m : Manager) (now : Instant) (k : CallId) (g : UInt64) (rs : HangupReason) (np : Bool)

theorem quiet_idle : Quiet m (m, []) := quiet_of_calls_eq rfl (by simp)

/-! ### Termination -/

theorem quiet_terminateCallInner (fr : Option CallError) :
    Quiet m (m.terminateCallInner k g rs np fr) := by
  unfold terminateCallInner
  split
  · exact m.quiet_idle
  · next call h =>
    have hm : Quiet m (m.setCall k { call with ending := true }, []) :=
      quiet_setCall h ⟨rfl, rfl, .refl _, .inl rfl⟩ (by simp)
    split
    · exact m.quiet_idle
    split
    · exact m.quiet_idle
    dsimp only
    split
    · exact hm
    -- the call is removed; the other calls are not touched
    refine ⟨fun c => ?_, ?_⟩
    · by_cases hc : c = k
      · subst hc
        intro z hz
        simp at hz
      · simpa only [AList.lookup_erase_ne hc] using hm.calls c
    · cases np <;> cases fr <;> simp [terminalEvent]

theorem quiet_terminateCall (f : Bool) : Quiet m (m.terminateCall k g rs np f) :=
  m.quiet_terminateCallInner ..

theorem quiet_terminateAll (en : List (CallId × CallState)) (m : Manager) :
    Quiet m (m.terminateAll rs np en) := by
  induction en generalizing m with
  | nil => exact m.quiet_idle
  | cons e rest ih => exact (m.quiet_terminateCall ..).trans (ih _)

theorem quiet_terminate_applySignal (signal : SessionSignal) (g : UInt64)
    (rs : HangupReason) (np f : Bool) (ho : ∀ k kind, signal ≠ .offer k kind)
    (ha : ∀ k, signal ≠ .accept k) :
    Quiet m ((m.applySignal now k signal).terminateCall k g rs np f) := by
  have hs : Quiet m (m.applySignal now k signal, []) := by
    unfold applySignal
    split
    · exact m.quiet_idle
    · next call h => exact quiet_setCall h (.apply now ho ha) (by simp)
  exact hs.trans (quiet_terminateCall ..)

theorem quiet_handleReject : Quiet m (m.handleReject now k) := by
  have ht := m.quiet_terminate_applySignal now k (.decline k)
    ((m.applySignal now k (.decline k)).generationOf k)
    .localHangup false false (by simp) (by simp)
  refine ⟨ht.calls, List.forall_mem_append.2 ⟨?_, ht.effects⟩⟩
  split <;> simp

theorem quiet_handleTimeout : Quiet m (m.handleTimeout now k) := by
  unfold handleTimeout
  split
  · exact m.quiet_idle
  · next call hcall =>
    split
    · exact m.quiet_idle
    · next session hep =>
      obtain ⟨hp, hen⟩ := expire_eq_some hep
      have hs : Quiet m (m.setCall k { call with session := session }, []) :=
        quiet_setCall hcall ⟨rfl, rfl, hp, .inr (.inl (by rw [hen]; rfl))⟩ (by simp)
      exact hs.trans (quiet_terminateCall ..)

/-! ### Reconnects and media state -/

theorem quiet_handleReconnect : Quiet m (m.handleReconnect now k g) := by
  unfold handleReconnect
  split
  · exact m.quiet_idle
  · next call hcall =>
    have hg : call.Continues { call with
        session := (call.session.apply now call.peer (.reconnect k g)).1 } :=
      .apply now (by simp) (by simp)
    dsimp only
    split
    · exact quiet_setCall hcall hg (by simp)
    · exact quiet_setCall hcall ⟨rfl, rfl, hg.pinned, hg.settles⟩ (by simp)

theorem quiet_handleLocalReconnect : Quiet m (m.handleLocalReconnect now k) := by
  unfold handleLocalReconnect
  split
  · exact m.quiet_idle
  · next call hcall =>
    have hg : call.Continues { call with
        session := (call.session.apply now call.peer
          (.reconnect k (saturatingAdd call.session.generation 1))).1 } :=
      .apply now (by simp) (by simp)
    dsimp only
    split
    · exact quiet_setCall hcall hg (by simp)
    · exact quiet_setCall hcall ⟨rfl, rfl, hg.pinned, hg.settles⟩ (by simp)

theorem quiet_handleMediaState (am ve : Bool) : Quiet m (m.handleMediaState k am ve) := by
  unfold handleMediaState
  split
  · exact quiet_of_calls_eq rfl (by simp)
  · next call hcall => exact quiet_setCall hcall ⟨rfl, rfl, .refl _, .inl rfl⟩ (by simp)

/-- Announcing the local media state is quiet when the change of the call keeps its session. -/
theorem quiet_announceMedia {c : CallState → CallState} {me : Bool × Bool}
    (hc : ∀ call : CallState, call.Continues (c call)) :
    Quiet m (m.announceMedia k c me) := by
  unfold announceMedia
  dsimp only
  split
  · exact quiet_of_calls_eq rfl (by simp)
  · next call hcall =>
    have hs : Quiet m (m.setCall k (c call), []) :=
      quiet_setCall hcall (hc call) (by simp)
    exact ⟨hs.calls, by simp⟩

theorem quiet_handleSetMuted {muted : Bool} : Quiet m (m.handleSetMuted k muted) := by
  unfold handleSetMuted
  dsimp only
  split_ifs
  · exact quiet_of_calls_eq rfl (by simp)
  · exact m.quiet_announceMedia k fun _ => ⟨rfl, rfl, .refl _, .inl rfl⟩

theorem quiet_handleSetCameraEnabled {enabled : Bool} :
    Quiet m (m.handleSetCameraEnabled k enabled) :=
  m.quiet_announceMedia k fun _ => ⟨rfl, rfl, .refl _, .inl rfl⟩

theorem quiet_handleSetDeafened {d : Bool} : Quiet m (m.handleSetDeafened k d, []) := by
  unfold handleSetDeafened
  split
  · exact m.quiet_idle
  · next call hcall => exact quiet_setCall hcall ⟨rfl, rfl, .refl _, .inl rfl⟩ (by simp)

end

/-! ### Activation and creation -/

structure Activation (m : Manager) (r : Reaction) (callId : CallId)
    (call call' : CallState) : Prop where
  before : m.calls.lookup callId = some call
  after : r.1.calls = m.calls.insert callId call'
  peer : call'.peer = call.peer
  incoming : call'.incoming = call.incoming
  pinned : call.session.Pinned call'.session
  pending : call.session.state ≠ .idle ∧ ¬ call.session.state.isTerminal
  active : call'.session.state = .active
  effects : ∀ e ∈ r.2, e.created = none ∧ (e.activated = none ∨ e.activated = some callId)
  emitted : ∃ e ∈ r.2, e.activated = some callId

/-- A step that creates a call: ringing if the peer offered it, offered otherwise. -/
structure Creation (m : Manager) (r : Reaction) (callId : CallId) (call : CallState) : Prop where
  after : r.1.calls = m.calls.insert callId call
  id : call.session.callId = callId
  remotePeer : call.session.remotePeer = call.peer
  state : call.session.state = if call.incoming then .ringing else .offered
  effects : ∀ e ∈ r.2, e.activated = none ∧ (e.created = none ∨ e.created = some callId)
  emitted : ∃ e ∈ r.2, e.created = some callId

/-- Further effects that report nothing. -/
theorem Creation.cons {m' : Manager} {e : Effect} (h : Creation m (m', out) callId call)
    (he : e.Quiet) :
    Creation m (m', e :: out) callId call := by
  refine ⟨h.after, h.id, h.remotePeer, h.state, fun e' he' => ?_, ?_⟩
  · obtain rfl | he' := List.mem_cons.1 he'
    · exact ⟨he.2, .inl he.1⟩
    · exact h.effects e' he'
  · obtain ⟨e', he', hc⟩ := h.emitted
    exact ⟨e', List.mem_cons_of_mem _ he', hc⟩

/-- Accepting a call does nothing to it or activates it. -/
theorem acceptCall_cases (m : Manager) (now : Instant) (callId : CallId)
    (rp : CallState → List Effect) (hr : ∀ call, ∀ e ∈ rp call, e.Quiet) :
    Quiet m (m.acceptCall now callId rp) ∨
      ∃ call call', Activation m (m.acceptCall now callId rp) callId call call' := by
  unfold acceptCall
  split
  · exact .inl (m.quiet_idle)
  · next call hc =>
    have hp := call.session.pinned_apply now call.peer (.accept callId)
    dsimp only
    obtain ⟨⟨error, her⟩, hs⟩ | ⟨⟨update, hok⟩, ha, hpe⟩ :=
      call.session.apply_accept_cases now
    · rw [her]
      exact .inl (quiet_setCall hc ⟨rfl, rfl, hp, .inl hs⟩ (by simp))
    · rw [hok]
      refine .inr ⟨call, _, hc, rfl, rfl, rfl, hp, hpe, ha,
        List.forall_mem_append.2 ⟨fun e he => ?_, by simp⟩, by simp⟩
      exact ⟨(hr call e he).1, .inl (hr call e he).2⟩

/-- A ringing call whose session belongs to it is activated. -/
theorem acceptCall_of_ringing {now : Instant} {rp : CallState → List Effect}
    (hc : m.calls.lookup callId = some call) (hid : call.session.callId = callId)
    (hp : call.session.remotePeer = call.peer) (hr : call.session.state = .ringing) :
    ∃ call', (m.acceptCall now callId rp).1.calls.lookup callId = some call' ∧
      call'.incoming = call.incoming ∧
      .emit (.active callId call.peer call.kind) ∈ (m.acceptCall now callId rp).2 := by
  obtain ⟨update, hok⟩ : ∃ update,
      (call.session.apply now call.peer (.accept callId)).2 = .ok update := by
    simp [apply, acceptSignal, moved, hid, hp, hr]
  simp [acceptCall, hc, hok]

theorem ring_eq (m : Manager) (now : Instant) (peer : PublicKey) (callId : CallId) (kind : CallKind)
    (tx : WireTx) :
    m.ring now peer callId kind tx =
      ((m.setCall callId (.create peer kind tx true m.nextGeneration
        { new callId kind m.localPeer peer with
          deadline := some (now + 5000), state := .ringing })).advanceGeneration,
        [.send tx (.ringing callId), .emit (.incoming callId peer kind)]) := by
  simp [ring, apply, new, receiveOffer, moved]

/-- An attempt compared with itself stays. -/
theorem resolveCollision_self (peer : PublicKey) : resolveCollision peer peer = .localWins :=
  if_pos (List.le_refl _)

/-- An offer of the peer rings: there is room for it, the first call that is active or of the peer
is not the peer's, and the peer is not being called. -/
def Rings (m : Manager) (order : List CallId) (peer : PublicKey) : Prop :=
  ((m.iter order).countP fun e => e.2.incoming && !e.2.isActive) < maxPendingCallOffers ∧
    (∀ e, (m.iter order).find? (fun e => e.2.isActive || e.2.peer = peer) = some e →
      e.2.peer ≠ peer) ∧
    (m.iter order).find? (fun e => e.2.peer = peer && !e.2.incoming) = none

/-- An offer that rings is answered with busy as well if somebody else has an active call. -/
theorem handleOffer_of_rings {o : List CallId} {peer : PublicKey} (h : m.Rings o peer)
    (now : Instant) (callId : CallId) (kind : CallKind) (tx : WireTx) :
    m.handleOffer now o peer callId kind tx =
      ((m.ring now peer callId kind tx).1,
        (if ((m.iter o).find? fun e => e.2.isActive || e.2.peer = peer).isSome then
            [.send tx (.busy callId)]
          else []) ++ (m.ring now peer callId kind tx).2) := by
  obtain ⟨hro, hf, hc⟩ := h
  have hr : m.ringUnlessCalling now o peer callId kind tx =
      m.ring now peer callId kind tx := by
    unfold ringUnlessCalling
    rw [hc]
  unfold handleOffer
  rw [if_neg (Nat.not_le.2 hro), hr]
  split
  · next hnone =>
    rw [hnone]
    rfl
  · next ei ex hsome =>
    rw [hsome, if_neg (hf _ hsome)]
    rfl

/-- An offer that does not ring is answered with busy, and that is all. -/
theorem handleOffer_of_not_rings {o : List CallId} {peer : PublicKey}
    (h : ¬ m.Rings o peer) {now : Instant} {callId : CallId} {kind : CallKind} {tx : WireTx} :
    (m.handleOffer now o peer callId kind tx).1 = m ∧
      ∀ e ∈ (m.handleOffer now o peer callId kind tx).2, e = .send tx (.busy callId) := by
  unfold handleOffer
  split
  · simp
  · next hr =>
    -- the first match is not the peer's, so the peer is being called
    have hc : (∀ e, (m.iter o).find? (fun e => e.2.isActive || e.2.peer = peer) =
        some e → e.2.peer ≠ peer) →
        m.ringUnlessCalling now o peer callId kind tx = (m, [.send tx (.busy callId)]) := by
      intro hf
      unfold ringUnlessCalling
      split
      · next hn => exact absurd ⟨Nat.not_le.1 hr, hf, hn⟩ h
      · next ei ex hsome =>
        have hp := List.find?_some hsome
        simp only [Bool.and_eq_true, decide_eq_true_eq] at hp
        rw [hp.1, resolveCollision_self]
        rfl
    split
    · next hn =>
      rw [hc (by simp [hn])]
      simp
    · next ei ex hsome =>
      split
      · simp
      · next hne =>
        rw [hc (by simp [hsome, hne])]
        simp

theorem handleOffer_cases (m : Manager) {now : Instant} {o : List CallId} {peer : PublicKey}
    {callId : CallId} {kind : CallKind} {tx : WireTx} :
    Quiet m (m.handleOffer now o peer callId kind tx) ∨
      ∃ call, Creation m (m.handleOffer now o peer callId kind tx) callId call := by
  by_cases hr : m.Rings o peer
  · obtain ⟨call, hri⟩ : ∃ call, Creation m (m.ring now peer callId kind tx) callId call := by
      rw [ring_eq]
      exact ⟨_, rfl, rfl, rfl, rfl, by simp, by simp⟩
    rw [handleOffer_of_rings hr]
    refine .inr ⟨call, ?_⟩
    split
    · exact hri.cons ⟨rfl, rfl⟩
    · exact hri
  · obtain ⟨hm, hout⟩ := handleOffer_of_not_rings hr
    refine .inl ⟨fun c => by rw [hm]; exact .refl _, fun e he => ?_⟩
    rw [hout e he]
    exact ⟨rfl, rfl⟩

theorem handleStart_cases (m : Manager) {now : Instant} {o : List CallId} {callId : CallId}
    {peer : PublicKey} {kind : CallKind} {conn : Option WireTx} :
    Quiet m (m.handleStart now o callId peer kind conn) ∨
      ∃ call, Creation m (m.handleStart now o callId peer kind conn) callId call := by
  have hf : ∀ er, Quiet m (m, [.emit (.failed (some callId) er)]) := fun er =>
    quiet_of_calls_eq rfl (by simp)
  unfold handleStart
  split
  · exact .inl (hf _)
  split
  · exact .inl (hf _)
  · exact .inr ⟨_, rfl, rfl, rfl, rfl, by simp, by simp⟩

end Manager

/-- The command accepts a call: the user does, or a frame. -/
def Command.Accepts (command : Command) (callId : CallId) : Prop :=
  command = .accept callId ∨
    ∃ peer selected tx, command = .control peer (.accept callId selected) tx

namespace Manager

theorem handleControl_cases (m : Manager) {now : Instant} {o : List CallId} {peer : PublicKey}
    {tx : WireTx} {ctl : CallControl} :
    Quiet m (m.handleControl now o peer tx ctl) ∨
      (∃ callId call call', (Command.control peer ctl tx).Accepts callId ∧
        Activation m (m.handleControl now o peer tx ctl) callId call call') ∨
      ∃ callId call, Creation m (m.handleControl now o peer tx ctl) callId call := by
  cases ctl with
  | hello | ringing | requestKeyframe | keepAlive => exact .inl m.quiet_idle
  | offer callId kind caps =>
    obtain h | ⟨call, h⟩ := m.handleOffer_cases
    · exact .inl h
    · exact .inr (.inr ⟨callId, call, h⟩)
  | accept callId s =>
    obtain h | ⟨call, call', h⟩ := m.acceptCall_cases now callId (fun _ => []) (by simp)
    · exact .inl h
    · exact .inr (.inl ⟨callId, call, call', .inr ⟨peer, s, tx, rfl⟩, h⟩)
  | reject callId r =>
    exact .inl (m.quiet_terminate_applySignal now callId _ _ _ _ _ (by simp) (by simp))
  | busy callId => exact .inl (m.quiet_terminateCallInner ..)
  | mediaState callId am ve => exact .inl (m.quiet_handleMediaState ..)
  | reconnect callId generation => exact .inl (m.quiet_handleReconnect ..)
  | hangup callId r =>
    exact .inl (m.quiet_terminate_applySignal now callId _ _ _ _ _ (by simp) (by simp))

/-- **What a command does to the calls**: nothing new, or it activates a call that it names, or it
creates a call. -/
theorem handle_cases (m : Manager) (now : Instant) (o : List CallId) (cmd : Command) :
    Quiet m (m.handle now o cmd) ∨
      (∃ callId call call', cmd.Accepts callId ∧
        Activation m (m.handle now o cmd) callId call call') ∨
      ∃ callId call, Creation m (m.handle now o cmd) callId call := by
  cases cmd with
  | start callId peer kind connection =>
    obtain h | ⟨call, h⟩ := m.handleStart_cases
    · exact .inl h
    · exact .inr (.inr ⟨callId, call, h⟩)
  | accept callId =>
    obtain h | ⟨call, call', h⟩ := m.acceptCall_cases now callId
      (fun call => [.send call.tx (.accept callId (negotiateForKind call.kind))]) (by simp)
    · exact .inl h
    · exact .inr (.inl ⟨callId, call, call', .inl rfl, h⟩)
  | control peer control tx => exact m.handleControl_cases
  | reject callId => exact .inl (m.quiet_handleReject now callId)
  | setMuted callId muted => exact .inl (m.quiet_handleSetMuted callId)
  | setDeafened callId d => exact .inl (m.quiet_handleSetDeafened callId)
  | setCameraEnabled callId enabled => exact .inl (m.quiet_handleSetCameraEnabled callId)
  | incoming connection => exact .inl (m.quiet_idle)
  | revokePeer peer | connectionClosed peer => exact .inl (quiet_terminateAll ..)
  | media peer ev =>
    cases ev <;> exact .inl (quiet_of_calls_eq rfl (by simp))
  | negotiationTimeout callId => exact .inl (m.quiet_handleTimeout now callId)
  | terminate callId generation reason =>
    exact .inl (m.quiet_terminate_applySignal now callId _ _ _ _ _ (by simp) (by simp))
  | reconnect callId => exact .inl (m.quiet_handleLocalReconnect now callId)
  | shutdown =>
    have hall := quiet_terminateAll .shutdown false (m.iter o) m
    exact .inl ⟨hall.calls, hall.effects⟩

end Manager

theorem step_cases (m : Manager) (i : Input) :
    m.Quiet (actor.step m i) ∨
      (m.stopped = false ∧ ∃ callId call call', i.command.Accepts callId ∧
        m.Activation (actor.step m i) callId call call') ∨
      ∃ callId call, m.Creation (actor.step m i) callId call := by
  by_cases hs : m.stopped
  · have h : actor.step m i = (m, []) := if_pos hs
    rw [h]
    exact .inl (m.quiet_idle)
  · have h : actor.step m i = m.handle i.now i.order i.command := if_neg hs
    rw [h]
    obtain h | h | h := m.handle_cases i.now i.order i.command
    · exact .inl h
    · exact .inr (.inl ⟨by simpa using hs, h⟩)
    · exact .inr (.inr h)

end Boru.Call
