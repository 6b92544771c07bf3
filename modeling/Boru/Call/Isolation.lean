import Boru.Call.Steps

/-!
# Isolation of peers

A control frame comes from an authenticated peer and names a call.  A call of somebody else should
be the same after the frame as before, and nothing should be reported about it.

The handler finds the call by its id alone and applies the signal in the name of the call's own
peer, so the check of the session, that the signal comes from the peer it is pinned to, never
fails.  Whoever knows the id of a call can accept it, reject it, hang it up, make it busy, move its
generation or replace it by an offer of the same id.

* `Manager.leaves_of_ne` : no frame touches a call that it does not name.
* `isolates_iff` : which frames of another peer leave a call alone.
-/

namespace Boru.Call

open GroupEncryption (Block)

def CallEvent.callId : CallEvent → Option CallId
  | .incoming callId _ _ | .outgoingRinging callId _ | .active callId _ _
  | .mediaStateChanged callId _ _ | .ended callId _ => some callId
  | .failed callId _ => callId
  | .mediaReceived _ _ | .mediaMalformed _ => none

/-- The call that an effect reports something about. -/
def Effect.reported : Effect → Option CallId
  | .emit event => event.callId
  | _ => none

attribute [simp] CallEvent.callId Effect.reported

/-- The call that a control frame names. -/
def CallControl.callId : CallControl → CallId
  | .hello _ callId | .offer callId _ _ | .ringing callId | .accept callId _ | .reject callId _
  | .busy callId | .mediaState callId _ _ | .requestKeyframe callId _ | .keepAlive callId
  | .reconnect callId _ | .hangup callId _ => callId

/-- The step leaves a call alone: it is there with its peer, its state and its generation, and
nothing is reported about it. -/
structure Manager.Leaves (r : Reaction) (callId : CallId) (call : CallState) : Prop where
  present : ∃ call', r.1.calls.lookup callId = some call' ∧ call'.peer = call.peer ∧
    call'.session.state = call.session.state ∧ call'.generation = call.generation
  silent : ∀ e ∈ r.2, e.reported ≠ some callId

variable (m : Manager)

/-- A frame of a peer leaves the calls of all other peers alone. -/
def Manager.Isolates (now : Instant) (order : List CallId) (peer : PublicKey) (tx : WireTx)
    (control : CallControl) : Prop :=
  ∀ callId call, m.calls.lookup callId = some call → call.peer ≠ peer →
    Leaves (m.handleControl now order peer tx control) callId call

/-- The session of a call is pinned to the call's id and peer. -/
def CallState.Owns (call : CallState) (callId : CallId) : Prop :=
  call.peer = call.session.remotePeer ∧ callId = call.session.callId

/-- A termination of the call goes through: it has not been marked, and no terminal event was ever
reserved for its id. -/
def Manager.Ends (callId : CallId) (call : CallState) : Prop :=
  call.ending = false ∧ callId ∉ m.terminalCalls

/-- What a frame needs, beside naming the call, to act on a call, whoever sends it. -/
def Manager.ActsOn (order : List CallId) (peer : PublicKey) (callId : CallId) (call : CallState) :
    CallControl → Prop
  | .hello _ _ | .ringing _ | .requestKeyframe _ _ | .keepAlive _ => False
  | .offer _ _ _ => m.Rings order peer
  | .accept _ _ =>
    call.Owns callId ∧ call.session.state ≠ .idle ∧ ¬ call.session.state.isTerminal
  | .reject _ _ => m.Ends callId call ∨
    call.Owns callId ∧ (call.session.state = .offered ∨ call.session.state = .ringing)
  | .busy _ => m.Ends callId call
  | .mediaState _ _ _ => True
  | .reconnect _ generation => call.Owns callId ∧
    (call.session.state = .active ∧ call.session.generation < generation ∨
      call.session.state = .reconnecting ∧ generation = call.session.generation ∧
        generation ≠ call.generation)
  | .hangup _ _ => m.Ends callId call ∨ call.Owns callId ∧ ¬ call.session.state.isTerminal

/-! ### Signals to a session -/

namespace CallSession

/-- A signal of another peer, or to another call, is an error and changes no state. -/
theorem apply_of_foreign {s : CallSession} {peer : PublicKey} (now : Instant)
    (signal : SessionSignal) (h : ¬ (peer = s.remotePeer ∧ signal.callId = s.callId)) :
    (∃ er, (s.apply now peer signal).2 = .error er) ∧
      (s.apply now peer signal).1.state = s.state := by
  unfold apply
  split_ifs with hp hid
  · exact ⟨⟨_, rfl⟩, rfl⟩
  · exact ⟨⟨_, rfl⟩, rfl⟩
  · exact absurd ⟨not_not.1 hp, not_not.1 hid⟩ h

variable {s : CallSession} {peer : PublicKey} {k : CallId}

variable (now : Instant)

theorem apply_accept_eq_error_iff :
    (∃ er, (s.apply now peer (.accept k)).2 = .error er) ↔
      ¬ ((peer = s.remotePeer ∧ k = s.callId) ∧ s.state ≠ .idle ∧ ¬ s.state.isTerminal) := by
  by_cases h : peer = s.remotePeer ∧ k = s.callId
  · obtain ⟨rfl, rfl⟩ := h
    cases hs : s.state <;>
      simp [apply, acceptSignal, moved, hs]
  · simp [h, (apply_of_foreign now (.accept k) h).1]

theorem apply_decline_state_iff :
    (s.apply now peer (.decline k)).1.state = s.state ↔
      ¬ ((peer = s.remotePeer ∧ k = s.callId) ∧ (s.state = .offered ∨ s.state = .ringing)) := by
  by_cases h : peer = s.remotePeer ∧ k = s.callId
  · obtain ⟨rfl, rfl⟩ := h
    cases hs : s.state <;> simp [apply, declineSignal, moved, hs]
  · simp [h, (apply_of_foreign now (.decline k) h).2]

theorem apply_leave_state_iff :
    (s.apply now peer (.leave k)).1.state = s.state ↔
      ¬ ((peer = s.remotePeer ∧ k = s.callId) ∧ ¬ s.state.isTerminal) := by
  by_cases h : peer = s.remotePeer ∧ k = s.callId
  · obtain ⟨rfl, rfl⟩ := h
    cases hs : s.state <;>
      simp [apply, leaveSignal, moved, hs]
  · simp [h, (apply_of_foreign now (.leave k) h).2]

/-- What a signal to reconnect does: an active session starts to reconnect with a later
generation, a session reconnecting with this generation stays, and every other is left in its state
with an error. -/
theorem apply_reconnect_cases (s : CallSession) {now : Instant} {peer : PublicKey}
    {k : CallId} {generation : UInt64} :
    ((∃ update, (s.apply now peer (.reconnect k generation)).2 = .ok update) ∧
      (s.apply now peer (.reconnect k generation)).1.state = .reconnecting ∧
      (peer = s.remotePeer ∧ k = s.callId) ∧
      (s.state = .active ∧ s.generation < generation ∨
        s.state = .reconnecting ∧ generation = s.generation)) ∨
    ((∃ er, (s.apply now peer (.reconnect k generation)).2 = .error er) ∧
      (s.apply now peer (.reconnect k generation)).1.state = s.state ∧
      ¬ ((peer = s.remotePeer ∧ k = s.callId) ∧
        (s.state = .active ∧ s.generation < generation ∨
          s.state = .reconnecting ∧ generation = s.generation))) := by
  by_cases h : peer = s.remotePeer ∧ k = s.callId
  · obtain ⟨rfl, rfl⟩ := h
    have ha : s.apply now s.remotePeer (.reconnect s.callId generation) =
        s.reconnectSignal now generation := by
      simp [apply]
    rw [ha]
    unfold reconnectSignal
    cases hs : s.state with
    | active =>
      dsimp only
      split_ifs with hlt
      · simp [moved, hlt]
      · simp [hs, hlt]
    | reconnecting =>
      dsimp only
      split_ifs with heq
      · simp [hs, heq]
      · simp [hs, heq]
    | _ => simp [hs]
  · obtain ⟨her, hs⟩ := apply_of_foreign now (.reconnect k generation) h
    exact .inr ⟨her, hs, fun hc => h hc.1⟩

end CallSession

namespace Manager

variable {m : Manager} {callId c : CallId} {call call' : CallState}

/-! ### Calls that a frame does not name -/

/-- The step touches no call but one, and reports nothing about others. -/
structure Touches (m : Manager) (r : Reaction) (callId : CallId) : Prop where
  calls : ∀ c, c ≠ callId → r.1.calls.lookup c = m.calls.lookup c
  effects : ∀ e ∈ r.2, e.reported = none ∨ e.reported = some callId

theorem touches_nil : Touches m (m, []) callId :=
  ⟨fun _ _ => rfl, by simp⟩

/-- A change of one call, with effects that report about this call only. -/
theorem touches_setCall {out : List Effect}
    (hout : ∀ e ∈ out, e.reported = none ∨ e.reported = some callId) :
    Touches m (m.setCall callId call, out) callId :=
  ⟨fun _ hc => lookup_setCall_of_ne hc, hout⟩

variable (rs : HangupReason) (np : Bool) (fr : Option CallError)

/-- A termination that goes through. -/
theorem terminateCallInner_of_ends {generation : UInt64} (hc : m.calls.lookup callId = some call)
    (hg : generationMatches call.generation generation) (h : m.Ends callId call) :
    m.terminateCallInner callId generation rs np fr = ({ m with
          terminalCalls := insert callId m.terminalCalls
          calls := (m.calls.insert callId { call with ending := true }).erase callId },
        (if np then [.send call.tx (.hangup callId rs)] else []) ++
          [.close call.connection, .emit (terminalEvent callId rs fr)]) := by
  unfold terminateCallInner
  rw [hc]
  simp only [hg, h.1]
  exact if_neg h.2

variable {g : UInt64}

/-- A termination that does not go through marks the call at most. -/
theorem terminateCallInner_of_not_ends (hc : m.calls.lookup callId = some call)
    (h : ¬ m.Ends callId call) :
    m.terminateCallInner callId g rs np fr = (m, []) ∨
      m.terminateCallInner callId g rs np fr =
        (m.setCall callId { call with ending := true }, []) := by
  unfold terminateCallInner
  rw [hc]
  dsimp only
  split
  · exact .inl rfl
  split
  · exact .inl rfl
  · next hen =>
    split
    · exact .inr rfl
    · next hr => exact absurd ⟨by simpa using hen, hr⟩ h

theorem touches_terminateCallInner (m : Manager) (callId : CallId) (g : UInt64) :
    Touches m (m.terminateCallInner callId g rs np fr) callId := by
  cases hca : m.calls.lookup callId with
  | none =>
    unfold terminateCallInner
    rw [hca]
    exact touches_nil
  | some call =>
    by_cases hen : m.Ends callId call
    · by_cases hg : generationMatches call.generation g
      · rw [terminateCallInner_of_ends rs np fr hca hg hen]
        refine ⟨fun c hc => (AList.lookup_erase_ne hc).trans (AList.lookup_insert_ne hc), ?_⟩
        cases np <;> cases fr <;> simp [terminalEvent]
      · unfold terminateCallInner
        rw [hca]
        simp only [hg]
        exact touches_nil
    · obtain h | h := terminateCallInner_of_not_ends rs np fr hca hen <;> rw [h]
      · exact touches_nil
      · exact touches_setCall (by simp)

theorem touches_terminate_applySignal (m : Manager) (now : Instant) (callId : CallId)
    (signal : SessionSignal) (g : UInt64) (f : Bool) :
    Touches m ((m.applySignal now callId signal).terminateCall callId g rs np f) callId := by
  have h := touches_terminateCallInner rs np (if f then some .rejected else none)
    (m.applySignal now callId signal) callId g
  refine ⟨fun c hc => (h.calls c hc).trans ?_, h.effects⟩
  unfold applySignal
  split
  · rfl
  · exact lookup_setCall_of_ne hc

theorem touches_handleOffer (m : Manager) {now : Instant} {od : List CallId} {peer : PublicKey}
    {callId : CallId} {kind : CallKind} {tx : WireTx} :
    Touches m (m.handleOffer now od peer callId kind tx) callId := by
  by_cases hr : m.Rings od peer
  · rw [handleOffer_of_rings hr, ring_eq]
    refine ⟨fun c hc => AList.lookup_insert_ne hc, ?_⟩
    split <;> simp
  · obtain ⟨hm, hout⟩ := handleOffer_of_not_rings hr
    refine ⟨fun c _ => by rw [hm], fun e he => ?_⟩
    rw [hout e he]
    exact .inl rfl

/-- A control frame touches no call but the one it names. -/
theorem touches_handleControl (m : Manager) (now : Instant) (od : List CallId) (peer : PublicKey)
    (tx : WireTx) (ctl : CallControl) :
    Touches m (m.handleControl now od peer tx ctl) ctl.callId := by
  cases ctl with
  | hello ver callId | ringing callId | requestKeyframe callId trackId | keepAlive callId =>
    exact touches_nil
  | offer callId kind caps => exact m.touches_handleOffer
  | accept callId se =>
    simp only [handleControl, acceptCall]
    split
    · exact touches_nil
    · split
      · exact touches_setCall (by simp)
      · exact touches_setCall (by simp)
  | reject callId rs => exact touches_terminate_applySignal ..
  | busy callId => exact touches_terminateCallInner ..
  | mediaState callId am ve =>
    simp only [handleControl, handleMediaState]
    split
    · exact ⟨fun _ _ => rfl, by simp [CallControl.callId]⟩
    · exact touches_setCall (by simp)
  | reconnect callId g =>
    simp only [handleControl, handleReconnect]
    split
    · exact touches_nil
    · split
      · exact touches_setCall (by simp)
      · exact touches_setCall (by simp)
  | hangup callId rs => exact touches_terminate_applySignal ..

variable (now : Instant) {o : List CallId} {peer : PublicKey}

/-- A call that the frame does not name is left alone. -/
theorem leaves_of_ne {tx : WireTx} {ctl : CallControl}
    (hc : m.calls.lookup callId = some call) (hne : callId ≠ ctl.callId) :
    Leaves (m.handleControl now o peer tx ctl) callId call := by
  have h := m.touches_handleControl now o peer tx ctl
  refine ⟨⟨call, (h.calls callId hne).trans hc, rfl, rfl, rfl⟩, fun e he hr => ?_⟩
  obtain hn | hs := h.effects e he
  · rw [hn] at hr
    cases hr
  · exact hne (Option.some.inj (hr.symm.trans hs))

/-! ### The call that a frame names -/

/-- A step that reports something about a call does not leave it alone. -/
theorem not_leaves_of_mem {r : Reaction} {e : Effect} (he : e ∈ r.2)
    (h : e.reported = some callId) : ¬ Leaves r callId call :=
  fun hl => hl.silent e he h

/-- A step that changes one call leaves it alone if its state and generation are the same. -/
theorem leaves_setCall_iff (hp : call'.peer = call.peer) :
    Leaves (m.setCall callId call', []) callId call ↔
      call'.session.state = call.session.state ∧ call'.generation = call.generation := by
  constructor
  · rintro ⟨⟨z, hz, -, hs, hg⟩, -⟩
    rw [lookup_setCall_self] at hz
    cases hz
    exact ⟨hs, hg⟩
  · exact fun h => ⟨⟨call', lookup_setCall_self .., hp, h.1, h.2⟩, by simp⟩

/-- A termination leaves a call alone exactly when it does not go through. -/
theorem leaves_terminateCallInner_iff {g : UInt64} (hc : m.calls.lookup callId = some call')
    (hge : generationMatches call'.generation g) (hp : call'.peer = call.peer)
    (hg : call'.generation = call.generation) :
    Leaves (m.terminateCallInner callId g rs np fr) callId call ↔
      ¬ m.Ends callId call' ∧ call'.session.state = call.session.state := by
  by_cases hen : m.Ends callId call'
  · rw [terminateCallInner_of_ends rs np fr hc hge hen]
    refine iff_of_false (fun h => h.silent (.emit (terminalEvent callId rs fr)) ?_ ?_)
      fun h => h.1 hen
    · simp
    · cases fr <;> rfl
  · simp only [hen, not_false_eq_true, true_and]
    obtain h | h := terminateCallInner_of_not_ends rs np fr hc hen <;> rw [h]
    · constructor
      · rintro ⟨⟨z, hz, -, hs, -⟩, -⟩
        cases hc.symm.trans hz
        exact hs
      · exact fun hs => ⟨⟨call', hc, hp, hs, hg⟩, by simp⟩
    · refine (leaves_setCall_iff ?_).trans ?_
      · exact hp
      · exact and_iff_left hg

theorem lookup_applySignal (signal : SessionSignal) (hc : m.calls.lookup callId = some call) :
    (m.applySignal now callId signal).calls.lookup callId =
      some { call with session := (call.session.apply now call.peer signal).1 } := by
  unfold applySignal
  rw [hc]
  exact lookup_setCall_self ..

theorem generationMatches_generationOf (hc : m.calls.lookup callId = some call) :
    generationMatches call.generation (m.generationOf callId) := by
  simp [generationMatches, generationOf, hc]

/-- A signal and a termination in the name of the call leave it alone exactly when the termination
does not go through and the signal changes no state. -/
theorem leaves_terminate_applySignal_iff {signal : SessionSignal} {f : Bool}
    (hc : m.calls.lookup callId = some call) :
    Leaves ((m.applySignal now callId signal).terminateCall callId
        ((m.applySignal now callId signal).generationOf callId) rs np f)
        callId call ↔
      ¬ m.Ends callId call ∧
        (call.session.apply now call.peer signal).1.state = call.session.state := by
  -- the call is signalled in the name of its own peer, so only its state decides
  have hs := lookup_applySignal now signal hc
  have h := leaves_terminateCallInner_iff rs np
    (if f then some .rejected else none) hs
    (generationMatches_generationOf hs) (show _ = call.peer from rfl) rfl
  have ht : (m.applySignal now callId signal).terminalCalls = m.terminalCalls := by
    unfold applySignal
    split <;> rfl
  simpa only [Ends, ht, terminateCall] using h

theorem leaves_accept_iff (hc : m.calls.lookup callId = some call) :
    Leaves (m.acceptCall now callId fun _ => []) callId call ↔
      ¬ (call.Owns callId ∧ call.session.state ≠ .idle ∧ ¬ call.session.state.isTerminal) := by
  unfold CallState.Owns
  rw [← CallSession.apply_accept_eq_error_iff now]
  unfold acceptCall
  rw [hc]
  dsimp only
  obtain ⟨⟨er, her⟩, hs⟩ | ⟨⟨update, hok⟩, -⟩ :=
    call.session.apply_accept_cases now
  · rw [her]
    exact iff_of_true ⟨⟨_, lookup_setCall_self .., rfl, hs, rfl⟩, by simp⟩ ⟨er, rfl⟩
  · rw [hok]
    refine iff_of_false (not_leaves_of_mem (List.mem_singleton_self _) rfl) ?_
    simp

theorem leaves_reconnect_iff (hc : m.calls.lookup callId = some call) :
    Leaves (m.handleReconnect now callId g) callId call ↔
      ¬ (call.Owns callId ∧
        (call.session.state = .active ∧ call.session.generation < g ∨
          call.session.state = .reconnecting ∧ g = call.session.generation ∧
            g ≠ call.generation)) := by
  unfold handleReconnect
  rw [hc]
  dsimp only
  obtain ⟨⟨update, hok⟩, hs, ho, hca⟩ | ⟨⟨error, her⟩, hs, hnot⟩ :=
    call.session.apply_reconnect_cases
  · rw [hok]
    refine (leaves_setCall_iff (by rfl)).trans ?_
    have ho' : call.Owns callId := ho
    rw [hs]
    obtain ⟨ha, hlt⟩ | ⟨hr, heq⟩ := hca
    · simp [ha, hlt, ho']
    · simp [hr, heq, ho']
  · rw [her]
    refine iff_of_true ((leaves_setCall_iff (by rfl)).2 ⟨hs, rfl⟩) ?_
    rintro ⟨ho, ha | ⟨hr, heq, -⟩⟩
    · exact hnot ⟨ho, .inl ha⟩
    · exact hnot ⟨ho, .inr ⟨hr, heq⟩⟩

/-- What a frame does to the call it names. -/
theorem leaves_handleControl_iff {tx : WireTx} {control : CallControl}
    (hc : m.calls.lookup control.callId = some call) :
    Leaves (m.handleControl now o peer tx control) control.callId call ↔
      ¬ m.ActsOn o peer control.callId call control := by
  have hnil : Leaves (m, []) control.callId call :=
    ⟨⟨call, hc, rfl, rfl, rfl⟩, by simp⟩
  cases control with
  | hello | ringing | requestKeyframe | keepAlive => exact iff_of_true hnil id
  | offer callId kind caps =>
    change Leaves (m.handleOffer now o peer callId kind tx) callId call ↔ ¬ m.Rings o peer
    by_cases hr : m.Rings o peer
    · rw [handleOffer_of_rings hr, ring_eq]
      exact iff_of_false (not_leaves_of_mem (e := .emit (.incoming callId peer kind)) (by simp) rfl)
        (not_not.2 hr)
    · obtain ⟨hm, hout⟩ := handleOffer_of_not_rings hr
      refine iff_of_true ⟨⟨call, by rw [hm]; exact hc, rfl, rfl, rfl⟩, fun e he => ?_⟩ hr
      rw [hout e he]
      simp
  | accept callId se => exact leaves_accept_iff now hc
  | reject callId rs =>
    refine (leaves_terminate_applySignal_iff _ _ now hc).trans ?_
    rw [CallSession.apply_decline_state_iff, ← not_or]
    rfl
  | busy callId =>
    refine (leaves_terminateCallInner_iff _ _ _ hc (generationMatches_generationOf hc)
      rfl rfl).trans ?_
    simp [ActsOn]
  | mediaState callId am ve =>
    exact iff_of_false (not_leaves_of_mem (List.mem_singleton_self _) rfl) (not_not.2 trivial)
  | reconnect callId g => exact leaves_reconnect_iff now hc
  | hangup callId rs =>
    refine (leaves_terminate_applySignal_iff _ _ now hc).trans ?_
    rw [CallSession.apply_leave_state_iff, ← not_or]
    rfl

end Manager

/-- **Isolation of peers.**  A control frame leaves the calls of all other peers alone exactly when
it does not act on a call of somebody else under the id it names. -/
theorem isolates_iff (m : Manager) (now : Instant) (order : List CallId) (peer : PublicKey)
    (tx : WireTx) (control : CallControl) :
    m.Isolates now order peer tx control ↔
      ∀ call, m.calls.lookup control.callId = some call → call.peer ≠ peer →
        ¬ m.ActsOn order peer control.callId call control := by
  constructor
  · intro h call hc hp
    exact (Manager.leaves_handleControl_iff now hc).1 (h control.callId call hc hp)
  · intro h callId call hc hp
    by_cases hne : callId = control.callId
    · subst hne
      exact (Manager.leaves_handleControl_iff now hc).2 (h call hc hp)
    · exact Manager.leaves_of_ne now hc hne

/-- A peer's call rings, and another peer hangs it up. -/
theorem stranger_ends_call :
    ¬ (actor.exec (.spawn (Block.replicate 32 0))
      [⟨0, [], .control (Block.replicate 32 1)
        (.offer (Block.replicate 16 7) .voice (callCapabilities .voice)) 0⟩]).Isolates
      1 [] (Block.replicate 32 2) 1 (.hangup (Block.replicate 16 7) .remoteHangup) := by
  intro h
  obtain ⟨call, hc, hp⟩ : ∃ call, (actor.exec (.spawn (Block.replicate 32 0))
      [⟨0, [], .control (Block.replicate 32 1)
        (.offer (Block.replicate 16 7) .voice (callCapabilities .voice)) 0⟩]).calls.lookup
          (Block.replicate 16 7) = some call ∧ call.peer ≠ Block.replicate 32 2 :=
    ⟨_, rfl, by decide +kernel⟩
  obtain ⟨z, hz, -⟩ := (h _ call hc hp).present
  cases hz

end Boru.Call
