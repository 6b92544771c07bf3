import Boru.LTS.History
import Boru.GroupEvents.State

/-!
# Who is a member of a group

The owner invites, the invited join, and the owner removes.  Over every sequence of events, accepted
and rejected:

* `membership_authority` : the owner stays the owner as long as it neither removes itself nor joins
  on its own invitation, and only so long; every other member joined after an invitation of the
  owner; and whoever was removed needs a new invitation to join again, provided that nobody is
  removed while an invitation of theirs is open.

A removal does not withdraw an open invitation, and nothing keeps the owner from naming itself, so
neither condition can be dropped.
-/

namespace Boru.GroupEvents

open GroupEventEnvelope

open GroupEncryption (Block)
open Gossip (TopicId)

variable {C : GroupEventCrypto} {w : Surroundings} {s : GroupState} {e : GroupEventEnvelope}

/-! ### Steps -/

theorem accepted_append (l₁ l₂ : List (GroupEvent × Except GroupValidationError Unit)) :
    accepted (l₁ ++ l₂) = accepted l₁ ++ accepted l₂ := List.filterMap_append

namespace GroupState

theorem share_eq (s : GroupState) (groupId : TopicId) (use : ReplayStore → ReplayStore) :
    ∃ store, s.share groupId use = { s with replayStore := store } := by
  simp only [share]
  split_ifs
  · exact ⟨s.replayStore, rfl⟩
  · exact ⟨_, rfl⟩

/-- The call is not an accepted event. -/
def Rejects (C : GroupEventCrypto) (s : GroupState) (c : Call) : Prop :=
  ∀ w event, c = .apply w event → (s.apply C w event).2 ≠ .ok ()

/-- A call applies an event, or changes at most the replay markers. -/
theorem step_cases (C : GroupEventCrypto) (s : GroupState) (c : Call) :
    (s.Rejects C c ∧ ∃ seen store rs, accepted rs = [] ∧
        (group C).step s c = ({ s with seen := seen, replayStore := store }, rs)) ∨
      ∃ w ev store, (c = .apply w ev ∧ (s.apply C w ev).2 = .ok ()) ∧
        s.Accepted C ev.envelope ∧ s.Marked w ev.envelope store ∧ (group C).step s c =
          ({ s with replayStore := store }.commit w ev.envelope, [(ev, .ok ())]) := by
  cases c with
  | apply w ev =>
    obtain ⟨err, h⟩ | ⟨ha, store, hm, h⟩ := apply_cases C w s ev
    · refine .inl ⟨?_, s.seen, s.replayStore, [(ev, .error err)], rfl, by simp [group, h]⟩
      intro w' event' heq
      cases heq
      simp [h]
    · exact .inr ⟨w, ev, store, ⟨rfl, by rw [h]⟩, ha, hm, by simp [group, h]⟩
  | pruneReplay fa => exact .inl ⟨fun _ _ h => (nomatch h), _, _, [], rfl, rfl⟩
  | otherRecord fa groupId epoch eventId seenAt =>
    obtain ⟨store, h⟩ := share_eq s groupId fun store =>
      (store.record fa groupId epoch eventId seenAt).2
    exact .inl ⟨fun _ _ h => (nomatch h), s.seen, store, [], rfl, by simp [group, h]⟩
  | otherPrune fa groupId me =>
    obtain ⟨store, h⟩ := share_eq s groupId fun store =>
      (store.pruneOlderThan fa groupId me).2
    exact .inl ⟨fun _ _ h => (nomatch h), s.seen, store, [], rfl, by simp [group, h]⟩

variable {store : Option ReplayStore}

/-- The membership after an event was applied. -/
theorem commit_membership :
    ({ s with replayStore := store }.commit w e).owner = s.owner ∧
      ({ s with replayStore := store }.commit w e).members = (s.perform e.payload).members ∧
      ({ s with replayStore := store }.commit w e).invited = (s.perform e.payload).invited := by
  obtain ⟨-, ho, -, hm, hi⟩ := commit_fields { s with replayStore := store } w e
  refine ⟨ho, hm.trans ?_, hi.trans ?_⟩
  · cases e.payload <;> rfl
  · cases e.payload <;> rfl

/-! ### The owner -/

/-- The owner is that of the beginning and has its role. -/
def HasOwner (owner : PublicKey) (s : GroupState) : Prop :=
  s.owner = owner ∧ s.roleOf owner = some .owner

/-- No accepted event removes the owner or lets it join. -/
def SparesOwner (C : GroupEventCrypto) (owner : PublicKey) (s : GroupState) (c : Call) : Prop :=
  ∀ w event, c = .apply w event → (s.apply C w event).2 = .ok () →
    event.envelope.payload ≠ .memberRemoved owner ∧ event.envelope.payload ≠ .memberJoined owner

theorem not_memberLeft_owner (h : s.Accepted C e) : e.payload ≠ .memberLeft s.owner := by
  intro hl
  obtain ⟨role, hr, ha⟩ := h.permitted
  simp only [allowed, hl, Bool.and_eq_true, decide_eq_true_eq] at ha
  obtain ⟨rfl, hac⟩ := ha
  simp [actorRole, ← hac] at hr

/-- An operation leaves the owner its role iff it neither removes the owner nor lets it join. -/
theorem roleOf_owner_perform (hs : s.roleOf s.owner = some .owner) (h : s.Accepted C e) :
    (s.perform e.payload).roleOf s.owner = some .owner ↔
      e.payload ≠ .memberRemoved s.owner ∧ e.payload ≠ .memberJoined s.owner := by
  have hl := not_memberLeft_owner h
  simp only [roleOf] at hs ⊢
  cases hp : e.payload with
  | memberInvited _ | metadataChanged _ _ | epochChanged _ => simp [perform, hs]
  | memberJoined m =>
    by_cases hm : m = s.owner
    · simp [perform, hm]
    · simp [perform, AList.lookup_insert_ne (Ne.symm hm), hs, hm]
  | memberLeft m =>
    have hm : m ≠ s.owner := by
      rintro rfl
      exact hl hp
    simp [perform, AList.lookup_erase_ne (Ne.symm hm), hs]
  | memberRemoved m =>
    by_cases hm : m = s.owner
    · simp [perform, hm]
    · simp [perform, AList.lookup_erase_ne (Ne.symm hm), hs, hm]

variable {owner : PublicKey}

theorem hasOwner_step_iff (hs : s.HasOwner owner) (c : Call) :
    ((group C).step s c).1.HasOwner owner ↔ s.SparesOwner C owner c := by
  obtain ⟨rfl, hro⟩ := hs
  obtain ⟨hr, seen, store, rs, -, hstep⟩ |
    ⟨w, ev, store, ⟨rfl, hok⟩, haccepted, -, hstep⟩ := step_cases C s c
  · rw [hstep]
    refine iff_of_true ⟨rfl, hro⟩ fun w ev hc hok => ?_
    exact absurd hok (hr w ev hc)
  · obtain ⟨ho, hm, -⟩ := commit_membership
    rw [hstep, HasOwner, ho, roleOf, hm, ← roleOf, roleOf_owner_perform hro haccepted]
    constructor
    · rintro ⟨-, hsp⟩ w' event' heq -
      cases heq
      exact hsp
    · intro hsp
      exact ⟨rfl, hsp w ev rfl hok⟩

/-! ### Members and invitations -/

/-- The membership of `k` comes from the accepted events: it joined after an invitation of the
owner, and nothing ended the membership since. -/
def JoinedByInvitation (owner k : PublicKey) (events : List GroupEventEnvelope) : Prop :=
  ∃ before join after, events = before ++ join :: after ∧ join.payload = .memberJoined k ∧
    (∃ invitation ∈ before, invitation.payload = .memberInvited k ∧ invitation.actor = owner) ∧
    ∀ e ∈ after, e.payload ≠ .memberRemoved k ∧ e.payload ≠ .memberLeft k

variable {k : PublicKey} {events : List GroupEventEnvelope}

theorem JoinedByInvitation.concat (h : JoinedByInvitation owner k events)
    (hr : e.payload ≠ .memberRemoved k) (hl : e.payload ≠ .memberLeft k) :
    JoinedByInvitation owner k (events ++ [e]) := by
  obtain ⟨pre, join, post, rfl, hj, hi, ha⟩ := h
  refine ⟨pre, join, post ++ [e], by simp, hj, hi, fun e' he' => ?_⟩
  obtain he' | he' := List.mem_append.1 he'
  · exact ha e' he'
  · obtain rfl := List.mem_singleton.1 he'
    exact ⟨hr, hl⟩

/-- Members and invitations against the events accepted so far. -/
structure Traced (owner : PublicKey) (s : GroupState) (events : List GroupEventEnvelope) :
    Prop where
  /-- The owner is that of the beginning. -/
  owner_eq : s.owner = owner
  /-- Every open invitation was issued by the owner. -/
  invitations : ∀ k ∈ s.invited, ∃ invitation ∈ events,
    invitation.payload = .memberInvited k ∧ invitation.actor = owner
  /-- Every member other than the owner joined by invitation. -/
  memberships : ∀ k ∈ s.members, k ≠ owner → JoinedByInvitation owner k events

theorem actor_of_memberInvited (h : s.Accepted C e) (hp : e.payload = .memberInvited k) :
    e.actor = s.owner := by
  obtain ⟨role, hr, ha⟩ := h.permitted
  obtain rfl : role = .owner := by simpa [allowed, hp] using ha
  simp only [actorRole] at hr
  split_ifs at hr with ho
  · exact ho
  · cases hr
  · cases hr

theorem mem_invited_of_memberJoined (h : s.Accepted C e) (hp : e.payload = .memberJoined k) :
    k ∈ s.invited := by
  obtain ⟨role, -, ha⟩ := h.permitted
  simp only [allowed, hp, Bool.and_eq_true, decide_eq_true_eq] at ha
  exact ha.2

/-- The open invitations after an operation are those before it and the new one. -/
theorem mem_invited_perform {data : GroupEventPayload} (h : k ∈ (s.perform data).invited) :
    k ∈ s.invited ∨ data = .memberInvited k := by
  cases data with
  | memberInvited member =>
    obtain rfl | hk := Finset.mem_insert.1 h
    · exact .inr rfl
    · exact .inl hk
  | memberJoined member => exact .inl (Finset.mem_of_mem_erase h)
  | memberLeft _ | memberRemoved _ | metadataChanged _ _ | epochChanged _ => exact .inl h

/-- The members after an operation are those that it does not remove, and whoever joined. -/
theorem mem_members_perform {data : GroupEventPayload} (h : k ∈ (s.perform data).members) :
    data = .memberJoined k ∨ k ∈ s.members ∧ data ≠ .memberRemoved k ∧ data ≠ .memberLeft k := by
  cases data with
  | memberJoined m =>
    obtain rfl | hk := (AList.mem_insert _).1 h
    · exact .inl rfl
    · exact .inr ⟨hk, by simp, by simp⟩
  | memberLeft m =>
    obtain ⟨hne, hk⟩ := AList.mem_erase.1 h
    exact .inr ⟨hk, by simp, by simpa using hne.symm⟩
  | memberRemoved m =>
    obtain ⟨hne, hk⟩ := AList.mem_erase.1 h
    exact .inr ⟨hk, by simpa using hne.symm, by simp⟩
  | memberInvited _ | metadataChanged _ _ | epochChanged _ => exact .inr ⟨h, by simp, by simp⟩

theorem traced_perform (h : s.Traced owner events) (he : s.Accepted C e) {s' : GroupState}
    (ho : s'.owner = s.owner) (hm : s'.members = (s.perform e.payload).members)
    (hin : s'.invited = (s.perform e.payload).invited) : s'.Traced owner (events ++ [e]) := by
  refine ⟨ho.trans h.owner_eq, fun k hk => ?_, fun k hk hne => ?_⟩
  · rw [hin] at hk
    obtain hk | hp := mem_invited_perform hk
    · obtain ⟨i, hmem, hi⟩ := h.invitations k hk
      exact ⟨i, List.mem_append_left _ hmem, hi⟩
    · exact ⟨e, by simp, hp, (actor_of_memberInvited he hp).trans h.owner_eq⟩
  · rw [hm] at hk
    obtain hp | ⟨hk, hr, hl⟩ := mem_members_perform hk
    · exact ⟨events, e, [], rfl, hp, h.invitations k (mem_invited_of_memberJoined he hp), by simp⟩
    · exact (h.memberships k hk hne).concat hr hl

theorem traced_trace {s₀ : GroupState} (h₀ : s₀.Traced owner []) (calls : List Call) :
    ((group C).exec s₀ calls).Traced owner (accepted ((group C).trace s₀ calls)) := by
  refine Machine.trace_invariant_along (G := fun _ _ => True)
    (P := fun s rs => Traced owner s (accepted rs))
    (Machine.along_of_step (fun _ _ => trivial) _ _) h₀ ?_
  intro s rs c _ h
  rw [accepted_append]
  obtain ⟨-, seen, store, new, hn, hstep⟩ | ⟨w, ev, store, -, ha, -, hstep⟩ := step_cases C s c
  · rw [hstep, hn, List.append_nil]
    exact ⟨h.owner_eq, h.invitations, h.memberships⟩
  · obtain ⟨ho, hm, hi⟩ := commit_membership
    rw [hstep]
    exact traced_perform h ha ho hm hi

/-! ### Removed members -/

/-- `k` was removed and not invited again. -/
def Uninvited (k : PublicKey) (events : List GroupEventEnvelope) : Prop :=
  ∃ before removal after, events = before ++ removal :: after ∧
    removal.payload = .memberRemoved k ∧ ∀ e ∈ after, e.payload ≠ .memberInvited k

/-- Whoever joins after a removal was invited in between. -/
def RejoinsByInvitation (k : PublicKey) (events : List GroupEventEnvelope) : Prop :=
  ∀ before removal between join after,
    events = before ++ removal :: (between ++ join :: after) →
    removal.payload = .memberRemoved k → join.payload = .memberJoined k →
    ∃ invitation ∈ between, invitation.payload = .memberInvited k

/-- No accepted event removes somebody who has an open invitation. -/
def ClosesInvitations (C : GroupEventCrypto) (s : GroupState) (c : Call) : Prop :=
  ∀ w event k, c = .apply w event → (s.apply C w event).2 = .ok () →
    event.envelope.payload = .memberRemoved k → k ∉ s.invited

/-- Removed and not invited again, nobody has an open invitation. -/
theorem uninvited_concat (h : Uninvited k events → k ∉ s.invited)
    (hc : e.payload = .memberRemoved k → k ∉ s.invited) :
    Uninvited k (events ++ [e]) → k ∉ (s.perform e.payload).invited := by
  rintro ⟨pre, removal, post, heq, hr, ha⟩ hk
  obtain ⟨-, rfl, rfl⟩ | ⟨after', rfl, rfl⟩ := History.eq_or_of_snoc heq
  · obtain hk | hp := mem_invited_perform hk
    · exact hc hr hk
    · rw [hr] at hp
      cases hp
  · obtain hk | hp := mem_invited_perform hk
    · exact h ⟨pre, removal, after', rfl, hr, fun e' he' => ha e' (List.mem_append_left _ he')⟩ hk
    · exact ha e (by simp) hp

theorem rejoinsByInvitation_concat (ho : RejoinsByInvitation k events)
    (h : Uninvited k events → k ∉ s.invited) (he : s.Accepted C e) :
    RejoinsByInvitation k (events ++ [e]) := by
  intro pre removal between join after heq hr hj
  have he' : events ++ [e] = (pre ++ removal :: between) ++ join :: after := by simpa using heq
  obtain ⟨-, rfl, rfl⟩ | ⟨after', rfl, rfl⟩ := History.eq_or_of_snoc he'
  · -- the last event joins, so it found an open invitation
    by_contra hn
    push Not at hn
    have hev : events = pre ++ removal :: between := (List.append_inj' he' rfl).1
    exact h ⟨pre, removal, between, hev, hr, hn⟩ (mem_invited_of_memberJoined he hj)
  · exact ho pre removal between join after' (by simp) hr hj

theorem rejoinsByInvitation_trace {s₀ : GroupState} {ca : List Call}
    (h : (group C).Along (ClosesInvitations C) s₀ ca) :
    (Uninvited k (accepted ((group C).trace s₀ ca)) → k ∉ ((group C).exec s₀ ca).invited) ∧
      RejoinsByInvitation k (accepted ((group C).trace s₀ ca)) := by
  refine Machine.trace_invariant_along (P := fun s rs =>
    (Uninvited k (accepted rs) → k ∉ GroupState.invited s) ∧
      RejoinsByInvitation k (accepted rs)) h ?_ ?_
  · refine ⟨?_, ?_⟩
    · rintro ⟨pre, removal, post, heq, -⟩
      simp [accepted] at heq
    · intro pre removal between join post heq
      simp [accepted] at heq
  · rintro s rs c hc ⟨hu, hr⟩
    rw [accepted_append]
    obtain ⟨-, seen, store, new, hn, hstep⟩ |
      ⟨w, event, store, ⟨rfl, hok⟩, ha, -, hstep⟩ := step_cases C s c
    · rw [hstep, hn, List.append_nil]
      exact ⟨hu, hr⟩
    · obtain ⟨-, -, hi⟩ := commit_membership
      rw [hstep, hi]
      refine ⟨uninvited_concat hu fun hp => ?_, rejoinsByInvitation_concat hr hu ha⟩
      exact hc w event k rfl hok hp

variable (groupId : TopicId)

/-- The states in which groups are created, without or with a replay store. -/
def create (owner : PublicKey) : Option ReplayStore → GroupState
  | none => new groupId owner
  | some store => withReplayStore groupId owner store

theorem create_eq :
    create groupId owner store = { new groupId owner with replayStore := store } := by
  cases store <;> rfl

theorem hasOwner_create : (create groupId owner store).HasOwner owner := by
  rw [create_eq]
  exact ⟨rfl, AList.lookup_insert _⟩

theorem traced_create : (create groupId owner store).Traced owner [] := by
  rw [create_eq]
  refine ⟨rfl, fun k hk => absurd hk (Finset.notMem_empty k), fun k hk hne => ?_⟩
  obtain rfl | hk := (AList.mem_insert _).1 hk
  · exact absurd rfl hne
  · exact absurd hk (AList.notMem_empty k)

end GroupState

open GroupState

/-- **Membership authority.**  The owner keeps its role throughout a run iff no accepted event
removes it or lets it join; every other member joined after an invitation of the owner; and if
nobody is removed while an invitation of theirs is open, whoever is removed joins again only after a
new invitation. -/
theorem membership_authority (C : GroupEventCrypto) (groupId : TopicId) (owner : PublicKey)
    (store : Option ReplayStore) (calls : List Call) :
    let s₀ := create groupId owner store
    let events := accepted ((group C).trace s₀ calls)
    ((∀ pre, pre <+: calls → ((group C).exec s₀ pre).roleOf owner = some .owner) ↔
        (group C).Along (SparesOwner C owner) s₀ calls) ∧
      (∀ k ∈ ((group C).exec s₀ calls).members, k ≠ owner → JoinedByInvitation owner k events) ∧
      ((group C).Along (ClosesInvitations C) s₀ calls → ∀ k, RejoinsByInvitation k events) := by
  intro s₀ events
  have ht : ∀ pre, ((group C).exec s₀ pre).Traced owner _ :=
    traced_trace (traced_create groupId)
  refine ⟨?_, (ht calls).memberships, fun h k => (rejoinsByInvitation_trace h).2⟩
  rw [← Machine.forall_prefix_iff_along (Q := fun _ => True)
    (hasOwner_create groupId) (fun _ _ => trivial)
    (fun s c _ hs => hasOwner_step_iff hs c)]
  exact forall₂_congr fun pre _ => (and_iff_right (ht pre).owner_eq).symm

/-- A cryptography whose identifiers are the nonces and that accepts every signature. -/
def GroupEventCrypto.byNonce : GroupEventCrypto where
  encodePayload _ := .ok []
  unsignedBytes _ _ := .ok []
  legacyUnsignedBytes _ _ := .ok []
  verify _ _ _ := true
  makeEventId contents := .ok contents.nonce

/-- The application of an event of that cryptography, with a store that does not fail. -/
def Call.sample (nonce : UInt8) (epoch : UInt64) (actor : PublicKey) (payload : GroupEventPayload) :
    Call :=
  .apply ⟨0, 0, none, none, []⟩ <| .fromPayload
    { version := groupEventVersion, groupId := ⟨0⟩, eventId := Block.replicate 16 nonce
      nonce := Block.replicate 16 nonce, epoch := epoch, actor := actor, timestamp := 0
      payload := payload, signature := Block.replicate 64 0 } payload

/-- The owner removes itself; the owner invites itself, joins and is an ordinary member; and a peer
that is removed before it joins still joins. -/
theorem owner_lost_and_stale_invitation :
    let owner := Block.replicate 32 1
    let peer := Block.replicate 32 2
    let s₀ := create ⟨0⟩ owner none
    ((group .byNonce).exec s₀ [.sample 1 0 owner (.memberRemoved owner)]).roleOf owner = none ∧
      ((group .byNonce).exec s₀ [.sample 1 0 owner (.memberInvited owner),
        .sample 2 0 owner (.memberJoined owner)]).roleOf owner = some .member ∧
      (accepted ((group .byNonce).trace s₀ [.sample 1 0 owner (.memberInvited peer),
        .sample 2 0 owner (.memberRemoved peer), .sample 3 0 peer (.memberJoined peer)])).map
          (·.payload) = [.memberInvited peer, .memberRemoved peer, .memberJoined peer] := by
  decide

end Boru.GroupEvents
