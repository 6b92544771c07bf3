import Boru.Call.Steps

/-!
# Exclusion of calls

At most one call should be active at a time, and an offer that is turned away as busy should not
ring as well.

Three handlers look for other calls, and each sees different ones.  Starting a call fails while any
call is active.  An offer is answered with busy while any call is active, but the handling stops
there only for calls of the same peer.  Accepting a call, by the user or by a frame, looks at no
other call at all.

* `excludes_iff` : the runs in which every step keeps the exclusion.
-/

namespace Boru.Call

open GroupEncryption (Block)

namespace Manager

variable (m : Manager) (i : Input)

/-- At most one call is active. -/
def Exclusive : Prop :=
  ∀ c c' call call', m.calls.lookup c = some call → m.calls.lookup c' = some call' →
    call.session.state = .active → call'.session.state = .active → c = c'

/-- An offer that the step answers with busy is not answered with ringing, and no call is
inserted. -/
def BusyOnly : Prop :=
  ∀ peer callId kind capabilities tx,
    i.command = .control peer (.offer callId kind capabilities) tx →
    .send tx (.busy callId) ∈ (actor.step m i).2 →
    .send tx (.ringing callId) ∉ (actor.step m i).2 ∧ (actor.step m i).1.calls = m.calls

def Excludes : Prop := (actor.step m i).1.Exclusive ∧ m.BusyOnly i

/-- The step accepts a pending call while another one is active. -/
def AcceptsSecond : Prop :=
  m.stopped = false ∧ ∃ callId call c other, i.command.Accepts callId ∧
    m.calls.lookup callId = some call ∧
    (call.session.state = .offered ∨ call.session.state = .ringing ∨
      call.session.state = .reconnecting) ∧
    c ≠ callId ∧ m.calls.lookup c = some other ∧ other.session.state = .active

/-- The step handles an offer that rings although the search for calls of the peer or active calls
found one. -/
def RingsWhileBusy : Prop :=
  m.stopped = false ∧ ∃ peer callId kind capabilities tx,
    i.command = .control peer (.offer callId kind capabilities) tx ∧ m.Rings i.order peer ∧
    ((m.iter i.order).find? fun e => e.2.isActive || e.2.peer = peer).isSome

/-! ### Sessions of calls -/

/-- The session of every call is pinned to it and has been started. -/
def Started : Prop :=
  ∀ callId call, m.calls.lookup callId = some call →
    call.session.callId = callId ∧ call.session.remotePeer = call.peer ∧ call.session.state ≠ .idle

theorem started_spawn (lp : PublicKey) : (spawn lp).Started := by
  intro callId call hc
  cases hc

variable {m : Manager} {i : Input}

theorem started_step (hm : m.Started) : (actor.step m i).1.Started := by
  intro c z hz
  obtain h | ⟨-, callId, call, call', -, h⟩ | ⟨callId, call, h⟩ := step_cases m i
  · obtain ⟨x, hx, hg⟩ := h.calls c z hz
    obtain ⟨hid, hp, hi⟩ := hm c x hx
    refine ⟨hg.pinned.callId.trans hid, ?_, ?_⟩
    · rw [hg.pinned.remotePeer, hg.peer, hp]
    · intro hz
      have hs := hg.settles
      rw [hz] at hs
      obtain heq | ht | ⟨-, heq⟩ := hs
      · exact hi heq.symm
      · cases ht
      · cases heq
  · rw [h.after] at hz
    obtain ⟨rfl, rfl⟩ | ⟨-, hz⟩ := HashMap.lookup_insert_cases hz
    · obtain ⟨hid, hp, -⟩ := hm c call h.before
      refine ⟨h.pinned.callId.trans hid, ?_, by simp [h.active]⟩
      rw [h.pinned.remotePeer, h.peer, hp]
    · exact hm c z hz
  · rw [h.after] at hz
    obtain ⟨rfl, rfl⟩ | ⟨-, hz⟩ := HashMap.lookup_insert_cases hz
    · refine ⟨h.id, h.remotePeer, ?_⟩
      rw [h.state]
      split <;> simp
    · exact hm c z hz

/-! ### One active call -/

/-- Accepting a pending call makes it active. -/
theorem active_of_accepts {callId : CallId} {call : CallState} (hm : m.Started)
    (hs : m.stopped = false) (hcm : i.command.Accepts callId)
    (hc : m.calls.lookup callId = some call)
    (hp : call.session.state = .offered ∨ call.session.state = .ringing ∨
      call.session.state = .reconnecting) :
    ∃ call', (actor.step m i).1.calls = m.calls.insert callId call' ∧
      call'.session.state = .active := by
  obtain ⟨hid, hpe, -⟩ := hm callId call hc
  obtain ⟨reply, hstep⟩ : ∃ reply, actor.step m i = m.acceptCall i.now callId reply := by
    obtain hcm | ⟨peer, s, tx, hcm⟩ := hcm
    · exact ⟨_, by simp only [actor, hs, hcm]; rfl⟩
    · exact ⟨_, by simp only [actor, hs, hcm]; rfl⟩
  -- calls in the table have a session with their own id and peer, which authorizes the signal
  have ha : call.session.apply i.now call.peer (.accept callId) =
      CallSession.acceptSignal call.session := by
    simp [CallSession.apply, hid, hpe]
  rw [hstep]
  unfold acceptCall
  rw [hc]
  dsimp only
  rw [ha]
  refine ⟨{ call with session := call.session.acceptSignal.1 }, ?_, ?_⟩
  · split <;> rfl
  · unfold CallSession.acceptSignal
    obtain h | h | h := hp <;> rw [h] <;> rfl

/-- A step keeps the calls exclusive exactly when it does not accept a second one. -/
theorem exclusive_step_iff (hm : m.Started) (hex : m.Exclusive) :
    (actor.step m i).1.Exclusive ↔ ¬ m.AcceptsSecond i := by
  constructor
  · rintro h ⟨hs, callId, call, c, other, hcm, hc, hp, hne, ho, ha⟩
    obtain ⟨call', haf, hactive'⟩ := active_of_accepts hm hs hcm hc hp
    refine hne (h c callId other call' ?_ ?_ ha hactive')
    · rw [haf, AList.lookup_insert_ne hne, ho]
    · rw [haf, AList.lookup_insert]
  · intro hse c c' x x' hx hx' ha hactive'
    obtain h | ⟨hs, callId, call, call', hcm, h⟩ | ⟨callId, call, h⟩ := step_cases m i
    · -- what is active after a quiet step was active before
      have hb : ∀ c z, (actor.step m i).1.calls.lookup c = some z →
          z.session.state = .active →
          ∃ z', m.calls.lookup c = some z' ∧ z'.session.state = .active := by
        intro c z hz hz'
        obtain ⟨y, hy, hg⟩ := h.calls c z hz
        exact ⟨y, hy, (hz' ▸ hg.settles).eq_active⟩
      obtain ⟨y, hy, hya⟩ := hb c x hx ha
      obtain ⟨y', hy', hya'⟩ := hb c' x' hx' hactive'
      exact hex c c' y y' hy hy' hya hya'
    · -- no call but the accepted one is active, unless it was active before
      have hon : ∀ c z, (actor.step m i).1.calls.lookup c = some z →
          z.session.state = .active → c = callId := by
        intro c z hz hz'
        by_contra hne
        rw [h.after, AList.lookup_insert_ne hne] at hz
        obtain ⟨hi, ht⟩ := h.pending
        cases hst : call.session.state with
        | idle => exact hi hst
        | active => exact hne (hex c callId z call hz h.before hz' hst)
        | offered | ringing | reconnecting =>
          exact hse ⟨hs, callId, call, c, z, hcm, h.before, by simp [hst], hne, hz, hz'⟩
        | declined | ended => simp [hst] at ht
      rw [hon c x hx ha, hon c' x' hx' hactive']
    · -- a call that is created is not active
      have hb : ∀ c z, (actor.step m i).1.calls.lookup c = some z →
          z.session.state = .active → m.calls.lookup c = some z := by
        intro c z hz hz'
        rw [h.after] at hz
        obtain ⟨-, rfl⟩ | ⟨-, hz⟩ := HashMap.lookup_insert_cases hz
        · rw [h.state] at hz'
          split at hz' <;> cases hz'
        · exact hz
      exact hex c c' x x' (hb c x hx ha) (hb c' x' hx' hactive') ha hactive'

/-! ### Offers answered with busy -/

theorem step_offer (hs : m.stopped = false) {peer : PublicKey} {callId : CallId} {kind : CallKind}
    {caps : MediaCapabilities} {tx : WireTx}
    (hc : i.command = .control peer (.offer callId kind caps) tx) :
    actor.step m i = m.handleOffer i.now i.order peer callId kind tx := by
  simp [actor, hs, hc, handle, handleControl]

/-- An offer answered with busy does not ring, exactly when the search for other calls finds none
before an offer rings. -/
theorem busyOnly_iff : m.BusyOnly i ↔ ¬ m.RingsWhileBusy i := by
  constructor
  · rintro h ⟨hs, peer, callId, kind, caps, tx, hc, hr, hf⟩
    have hstep := step_offer hs hc
    rw [handleOffer_of_rings hr, ring_eq, if_pos hf] at hstep
    refine (h peer callId kind caps tx hc ?_).1 ?_ <;> rw [hstep] <;> simp
  · intro h peer callId kind caps tx hc hb
    cases hs : m.stopped with
    | true =>
      have hstep : actor.step m i = (m, []) := if_pos hs
      rw [hstep] at hb
      cases hb
    | false =>
      have hstep := step_offer hs hc
      by_cases hr : m.Rings i.order peer
      · have hn : ¬ ((m.iter i.order).find?
            fun e => e.2.isActive || e.2.peer = peer).isSome := fun hf =>
          h ⟨hs, peer, callId, kind, caps, tx, hc, hr, hf⟩
        rw [hstep, handleOffer_of_rings hr, ring_eq, if_neg hn] at hb
        simp at hb
      · obtain ⟨hm, hout⟩ := handleOffer_of_not_rings hr
        rw [hstep, hm]
        exact ⟨fun hri => by simpa using hout _ hri, rfl⟩

end Manager

/-- **Exclusion.**  Along a run at most one call is active after every step, and no offer that is
answered with busy rings, exactly when no step accepts a second call or rings while busy. -/
theorem excludes_iff (localPeer : PublicKey) (inputs : List Input) :
    actor.Along Manager.Excludes (.spawn localPeer) inputs ↔
      actor.Along (fun m i => ¬ m.AcceptsSecond i ∧ ¬ m.RingsWhileBusy i) (.spawn localPeer)
        inputs := by
  refine Machine.along_congr_of_invariant (P := fun m => m.Started ∧ m.Exclusive) ?_ ?_ ?_
  · refine ⟨Manager.started_spawn localPeer, ?_⟩
    intro c c' call call' hc
    cases hc
  · intro m i hm
    exact and_congr (Manager.exclusive_step_iff hm.1 hm.2) Manager.busyOnly_iff
  · intro m i hm hi
    exact ⟨Manager.started_step hm.1, (Manager.exclusive_step_iff hm.1 hm.2).2 hi.1⟩

/-- Two peers offer calls one after the other, and the user accepts both: the second offer is
answered with busy and with ringing, and in the end both calls are active. -/
theorem two_active_calls :
    let first : List Input :=
      [⟨0, [], .control (Block.replicate 32 1)
        (.offer (Block.replicate 16 7) .voice (callCapabilities .voice)) 0⟩,
        ⟨1, [], .accept (Block.replicate 16 7)⟩]
    let s : Input := ⟨2, [], .control (Block.replicate 32 2)
      (.offer (Block.replicate 16 8) .voice (callCapabilities .voice)) 1⟩
    let m := actor.exec (.spawn (Block.replicate 32 0)) first
    let m' := actor.exec m [s, ⟨3, [], .accept (Block.replicate 16 8)⟩]
    .send 1 (.busy (Block.replicate 16 8)) ∈ (actor.step m s).2 ∧
      .send 1 (.ringing (Block.replicate 16 8)) ∈ (actor.step m s).2 ∧
      (m'.calls.lookup (Block.replicate 16 7)).any CallState.isActive ∧
      (m'.calls.lookup (Block.replicate 16 8)).any CallState.isActive := by
  decide +kernel

end Boru.Call
