import Boru.Call.Steps

/-!
# Consent of the callee

A call that a peer offered rings until the local user accepts it.  The manager is watched from the
outside: for every call it is recorded whether the call has been active, or reported as active,
since it was created.

The session does not know on which side it is, and the handler of control frames applies every frame
in the name of the call's own peer.  So a frame that accepts a call also accepts one that is ringing
here, whoever sent it: the caller, or any other authenticated peer that knows the id.

* `consent_iff` : after every run, the next step keeps consent exactly when it does not handle such
  a frame.
-/

namespace Boru.Call

open GroupEncryption (Block)

/-- The manager, and the calls that have been active since they were created. -/
structure Watch where
  manager : Manager
  /-- The calls that have been active, or reported as active. -/
  answered : Finset CallId

namespace Watch

/-- A new manager, watched from the start. -/
def spawn (localPeer : PublicKey) : Watch := ⟨.spawn localPeer, ∅⟩

/-- The calls answered before a step, without those created in it. -/
def kept (w : Watch) (i : Input) : Finset CallId :=
  w.answered \ ((actor.step w.manager i).2.filterMap Effect.created).toFinset

def activeCalls (m : Manager) : Finset CallId :=
  m.calls.keys.toFinset.filter fun callId => (m.calls.lookup callId).any CallState.isActive

/-- One step of the manager, and what is seen of it. -/
def next (w : Watch) (i : Input) : Watch where
  manager := (actor.step w.manager i).1
  answered := w.kept i ∪ ((actor.step w.manager i).2.filterMap Effect.activated).toFinset ∪
    activeCalls (actor.step w.manager i).1

end Watch

def watched : Machine Watch Input Effect where
  step w i := (w.next i, (actor.step w.manager i).2)

/-- A call that was created by an offer of its peer becomes active, or is reported as active, for
the first time. -/
def Watch.FirstActive (w : Watch) (i : Input) (callId : CallId) : Prop :=
  ((w.next i).manager.calls.lookup callId).any CallState.incoming ∧
    callId ∉ w.kept i ∧ callId ∈ (w.next i).answered

instance Watch.decidableFirstActive (w : Watch) (i : Input) (callId : CallId) :
    Decidable (w.FirstActive i callId) := inferInstanceAs (Decidable (_ ∧ _ ∧ _))

/-- A frame accepts a call that rings here. -/
def Manager.AcceptedByFrame (m : Manager) (i : Input) : Prop :=
  m.stopped = false ∧ ∃ peer callId selected tx call,
    i.command = .control peer (.accept callId selected) tx ∧
      m.calls.lookup callId = some call ∧ call.incoming ∧ call.session.state = .ringing

/-! ### Invariant -/

/-- What the watch knows about a call. -/
structure Watch.Tracks (w : Watch) (callId : CallId) (call : CallState) : Prop where
  id : call.session.callId = callId
  remotePeer : call.session.remotePeer = call.peer
  notIdle : call.session.state ≠ .idle
  notOffered : call.incoming → call.session.state ≠ .offered
  answered : call.session.state = .active ∨ call.session.state = .reconnecting → callId ∈ w.answered
  unanswered : call.incoming → call.session.state = .ringing → callId ∉ w.answered

/-- The watch knows about every call. -/
def Watch.Consistent (w : Watch) : Prop :=
  ∀ callId call, w.manager.calls.lookup callId = some call → w.Tracks callId call

theorem mem_activeCalls {m : Manager} {callId : CallId} :
    callId ∈ Watch.activeCalls m ↔
      ∃ call, m.calls.lookup callId = some call ∧ call.session.state = .active := by
  simp only [Watch.activeCalls, Finset.mem_filter, List.mem_toFinset, Option.any_eq_true,
    CallState.isActive, decide_eq_true_eq]
  constructor
  · rintro ⟨-, call, hc, ha⟩
    exact ⟨call, hc, ha⟩
  · rintro ⟨call, hc, ha⟩
    exact ⟨AList.mem_keys.1 (AList.lookup_isSome.1 (by simp [hc])), call, hc, ha⟩

namespace Watch

variable {w : Watch} {i : Input} {c callId : CallId} {call call' : CallState}

/-- What has been seen after a step. -/
theorem mem_answered_next :
    c ∈ (w.next i).answered ↔ c ∈ w.kept i ∨
      (∃ e ∈ (actor.step w.manager i).2, e.activated = some c) ∨
      ∃ call, (actor.step w.manager i).1.calls.lookup c = some call ∧
        call.session.state = .active := by
  simp only [next, Finset.mem_union, List.mem_toFinset, List.mem_filterMap, mem_activeCalls,
    or_assoc]

theorem mem_kept :
    c ∈ w.kept i ↔ c ∈ w.answered ∧ ∀ e ∈ (actor.step w.manager i).2, e.created ≠ some c := by
  simp only [kept, Finset.mem_sdiff, List.mem_toFinset, List.mem_filterMap, not_exists, not_and]

theorem kept_of_quiet (h : w.manager.Quiet (actor.step w.manager i)) :
    c ∈ w.kept i ↔ c ∈ w.answered := by
  rw [mem_kept]
  refine and_iff_left fun e he hc => ?_
  rw [(h.effects e he).1] at hc
  cases hc

theorem kept_of_activation (h : w.manager.Activation (actor.step w.manager i) callId call call') :
    c ∈ w.kept i ↔ c ∈ w.answered := by
  rw [mem_kept]
  refine and_iff_left fun e he hc => ?_
  rw [(h.effects e he).1] at hc
  cases hc

theorem kept_of_creation (h : w.manager.Creation (actor.step w.manager i) callId call) :
    c ∈ w.kept i ↔ c ∈ w.answered ∧ c ≠ callId := by
  rw [mem_kept]
  refine and_congr_right fun _ => ⟨?_, ?_⟩
  · rintro hnot rfl
    obtain ⟨e, he, hc⟩ := h.emitted
    exact hnot e he hc
  · intro hne e he hc
    obtain hn | hs := (h.effects e he).2
    · rw [hn] at hc
      cases hc
    · exact hne (Option.some.inj (hc.symm.trans hs))

/-- After a quiet step no more calls have been answered than before. -/
theorem answered_of_quiet (hw : w.Consistent) (h : w.manager.Quiet (actor.step w.manager i)) :
    c ∈ (w.next i).answered ↔ c ∈ w.answered := by
  rw [mem_answered_next, kept_of_quiet h]
  refine or_iff_left_of_imp ?_
  rintro (⟨e, he, hc⟩ | ⟨call', hcall', ha⟩)
  · rw [(h.effects e he).2] at hc
    cases hc
  · obtain ⟨call, hca, hg⟩ := h.calls c call' hcall'
    have hb := hg.settles
    rw [ha] at hb
    exact (hw c call hca).answered (.inl hb.eq_active)

theorem answered_of_activation (hw : w.Consistent)
    (h : w.manager.Activation (actor.step w.manager i) callId call call') :
    c ∈ (w.next i).answered ↔ c ∈ w.answered ∨ c = callId := by
  rw [mem_answered_next, kept_of_activation h]
  refine or_congr_right' fun hc => ⟨?_, ?_⟩
  · rintro (⟨e, he, hac⟩ | ⟨z, hz, ha⟩)
    · obtain hn | hs := (h.effects e he).2
      · rw [hn] at hac
        cases hac
      · exact Option.some.inj (hac.symm.trans hs)
    · by_contra hne
      rw [h.after, AList.lookup_insert_ne hne] at hz
      exact hc ((hw c z hz).answered (.inl ha))
  · rintro rfl
    exact .inl h.emitted

/-- A call that has just been created is not answered. -/
theorem answered_of_creation (hw : w.Consistent)
    (h : w.manager.Creation (actor.step w.manager i) callId call) :
    c ∈ (w.next i).answered ↔ c ∈ w.answered ∧ c ≠ callId := by
  rw [mem_answered_next, kept_of_creation h]
  refine or_iff_left_of_imp ?_
  rintro (⟨e, he, hac⟩ | ⟨z, hz, ha⟩)
  · rw [(h.effects e he).1] at hac
    cases hac
  · rw [h.after] at hz
    obtain ⟨-, rfl⟩ | ⟨hne, hz⟩ := HashMap.lookup_insert_cases hz
    · rw [h.state] at ha
      split at ha <;> cases ha
    · exact ⟨(hw c z hz).answered (.inl ha), hne⟩

theorem consistent_spawn (lp : PublicKey) : (spawn lp).Consistent := by
  intro callId call hc
  cases hc

/-- A call that goes on is tracked as before. -/
theorem Tracks.continues (h : w.Tracks c call) (hg : call.Continues call')
    (ha : c ∈ (w.next i).answered ↔ c ∈ w.answered) : (w.next i).Tracks c call' := by
  have hs := hg.settles
  refine ⟨hg.pinned.callId.trans h.id, ?_, ?_, ?_, ?_, ?_⟩
  · rw [hg.pinned.remotePeer, hg.peer, h.remotePeer]
  · intro hi
    rw [hi] at hs
    obtain heq | ht | ⟨-, heq⟩ := hs
    · exact h.notIdle heq.symm
    · cases ht
    · cases heq
  · intro hin ho
    rw [ho] at hs
    obtain heq | ht | ⟨-, heq⟩ := hs
    · exact h.notOffered (hg.incoming ▸ hin) heq.symm
    · cases ht
    · cases heq
  · intro hst
    rw [ha]
    refine h.answered ?_
    obtain hst | hst := hst <;> rw [hst] at hs
    · exact .inl hs.eq_active
    · obtain heq | ht | ⟨heq, -⟩ := hs
      · exact .inr heq.symm
      · cases ht
      · exact .inl heq
  · intro hin hr
    rw [hr] at hs
    rw [ha]
    obtain heq | ht | ⟨-, heq⟩ := hs
    · exact h.unanswered (hg.incoming ▸ hin) heq.symm
    · cases ht
    · cases heq

/-- Every step keeps the watch consistent. -/
theorem consistent_next (hw : w.Consistent) (i : Input) : (w.next i).Consistent := by
  intro c z hz
  change (actor.step w.manager i).1.calls.lookup c = some z at hz
  obtain h | ⟨-, callId, call, call', -, h⟩ | ⟨callId, call, h⟩ := step_cases w.manager i
  · obtain ⟨x, hx, hg⟩ := h.calls c z hz
    exact (hw c x hx).continues hg (answered_of_quiet hw h)
  · have ha := answered_of_activation (c := c) hw h
    rw [h.after] at hz
    obtain ⟨rfl, rfl⟩ | ⟨hne, hz⟩ := HashMap.lookup_insert_cases hz
    · have hx := hw c call h.before
      refine ⟨h.pinned.callId.trans hx.id, ?_, ?_, ?_, ?_, ?_⟩
      · rw [h.pinned.remotePeer, h.peer, hx.remotePeer]
      · simp [h.active]
      · simp [h.active]
      · simp [ha]
      · simp [h.active]
    · exact (hw c z hz).continues (.refl z) (by simp [ha, hne])
  · have ha := answered_of_creation (c := c) hw h
    rw [h.after] at hz
    obtain ⟨rfl, rfl⟩ | ⟨hne, hz⟩ := HashMap.lookup_insert_cases hz
    · have hs := h.state
      refine ⟨h.id, h.remotePeer, ?_, ?_, ?_, ?_⟩
      · split at hs <;> simp [hs]
      · intro hin
        simp [hs, hin]
      · split at hs <;> simp [hs]
      · simp [ha]
    · exact (hw c z hz).continues (.refl z) (by simp [ha, hne])

/-! ### Consent -/

theorem accepts_of_firstActive (hw : w.Consistent) (h : w.FirstActive i c) :
    i.command.Accepts c ∧ w.manager.stopped = false ∧ ∃ call,
      w.manager.calls.lookup c = some call ∧ call.incoming ∧ call.session.state = .ringing := by
  obtain ⟨hin, hk, ha⟩ := h
  obtain h | ⟨hs, callId, call, call', hcm, h⟩ | ⟨callId, call, h⟩ := step_cases w.manager i
  · rw [kept_of_quiet h] at hk
    exact absurd ((answered_of_quiet hw h).1 ha) hk
  · rw [kept_of_activation h] at hk
    obtain hc | rfl := (answered_of_activation hw h).1 ha
    · exact absurd hc hk
    have hx := hw c call h.before
    have hi' : call.incoming := by
      change ((actor.step w.manager i).1.calls.lookup c).any CallState.incoming at hin
      rw [h.after, AList.lookup_insert] at hin
      exact h.incoming ▸ hin
    refine ⟨hcm, hs, call, h.before, hi', ?_⟩
    -- the call is pending and has not been answered, so it can only be ringing
    cases hst : call.session.state with
    | ringing => rfl
    | idle => exact absurd hst hx.notIdle
    | offered => exact absurd hst (hx.notOffered hi')
    | active => exact absurd (hx.answered (.inl hst)) hk
    | reconnecting => exact absurd (hx.answered (.inr hst)) hk
    | declined | ended => exact absurd (by simp [hst]) h.pending.2
  · rw [kept_of_creation h] at hk
    exact absurd ((answered_of_creation hw h).1 ha) hk

/-- A frame that accepts a ringing call activates it. -/
theorem firstActive_of_acceptedByFrame (hw : w.Consistent) (h : w.manager.AcceptedByFrame i) :
    ∃ c, w.FirstActive i c ∧ i.command ≠ .accept c := by
  obtain ⟨hs, peer, c, s, tx, call, hcm, hc, hin, hr⟩ := h
  have hx := hw c call hc
  have hstep : actor.step w.manager i = w.manager.acceptCall i.now c fun _ => [] := by
    simp [actor, hs, hcm, Manager.handle, Manager.handleControl]
  obtain ⟨call', hcall', hin', hem⟩ := Manager.acceptCall_of_ringing hc hx.id hx.remotePeer hr
  rw [← hstep] at hcall' hem
  refine ⟨c, ⟨?_, ?_, ?_⟩, by simp [hcm]⟩
  · simp [next, hcall', hin', hin]
  · rw [mem_kept]
    exact fun hmem => hx.unanswered hin hr hmem.1
  · exact mem_answered_next.2 (.inr (.inl ⟨_, hem, rfl⟩))

end Watch

/-- **Consent.**  After every run of the manager, the next step activates calls offered by a peer
for the first time only by a local acceptance of the call, exactly when it does not handle a frame
that accepts a call ringing here. -/
theorem consent_iff (localPeer : PublicKey) (inputs : List Input) (i : Input) :
    (∀ callId, (watched.exec (.spawn localPeer) inputs).FirstActive i callId →
      i.command = .accept callId) ↔
    ¬ (watched.exec (.spawn localPeer) inputs).manager.AcceptedByFrame i := by
  have hw : (watched.exec (.spawn localPeer) inputs).Consistent :=
    Machine.exec_invariant (Watch.consistent_spawn localPeer)
      (fun w i hw => Watch.consistent_next hw i) inputs
  constructor
  · intro hc hfr
    obtain ⟨c, hf, hne⟩ := Watch.firstActive_of_acceptedByFrame hw hfr
    exact hne (hc c hf)
  · intro hnot c hf
    obtain ⟨hcm, hs, call, hca, hin, hr⟩ := Watch.accepts_of_firstActive hw hf
    obtain hcm | ⟨peer, s, tx, hcm⟩ := hcm
    · exact hcm
    · exact absurd ⟨hs, peer, c, s, tx, call, hcm, hca, hin, hr⟩ hnot

/-- A peer offers a call, and another peer accepts it before the user does. -/
theorem stranger_accepts_call :
    (watched.exec (.spawn (Block.replicate 32 0))
      [⟨0, [], .control (Block.replicate 32 1)
        (.offer (Block.replicate 16 7) .voice (callCapabilities .voice)) 0⟩]).FirstActive
      ⟨1, [], .control (Block.replicate 32 2)
        (.accept (Block.replicate 16 7) (negotiateForKind .voice)) 1⟩ (Block.replicate 16 7) ∧
    Command.control (Block.replicate 32 2)
      (.accept (Block.replicate 16 7) (negotiateForKind .voice)) 1 ≠
        .accept (Block.replicate 16 7) := by
  decide +kernel

end Boru.Call
