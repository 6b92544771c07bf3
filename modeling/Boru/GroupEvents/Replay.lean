import Boru.GroupEvents.Membership

/-!
# Replay protection of group events

An event is of one epoch, and the epoch of a group only grows.  So it is enough that the marker of
an event stays as long as the epoch of the event is current: the prunes spare the last epochs, the
cache may evict what it likes, and the store answers or the event is refused.

The epochs are stored as signed numbers, so from `2 ^ 63` on the comparison of a prune with the
stored epochs goes wrong; the result assumes smaller epochs.

* `replay_protection` : no event is applied twice, up to collisions of the hash; the epoch never
  decreases; a failed application changes nothing.
-/

namespace Boru.GroupEvents

open GroupEncryption (Block)
open Gossip (TopicId)

variable {C : GroupEventCrypto} {w : Surroundings} {s : GroupState} {e : GroupEventEnvelope}

/-! ### Prunes -/

namespace ReplayStore

variable {store : ReplayStore} {groupId : TopicId} {minEpoch : UInt64} {key : TopicId × Block 16}
  {marker : ReplayMarker}

/-- A prune spares whatever has not expired, wherever it fails. -/
theorem lookup_pruneBatches (n : ℕ) (fa : List (Option ReplayStoreError)) (total : ℕ)
    (h : store.markers.lookup key = some marker) (hk : ¬ isExpired groupId minEpoch key marker) :
    (pruneBatches groupId minEpoch n fa total store).2.markers.lookup key = some marker := by
  induction n generalizing fa total store with
  | zero => exact h
  | succ n ih =>
    simp only [pruneBatches]
    cases fa.head?.join with
    | some err => exact h
    | none =>
      have hb : (store.deleteBatch groupId minEpoch).markers.lookup key = some marker := by
        simp [deleteBatch, Table.lookup_delete, h, hk]
      split_ifs
      · exact hb
      · exact ih _ _ hb

theorem lookup_pruneOlderThan (fa : List (Option ReplayStoreError))
    (h : store.markers.lookup key = some marker) (hk : ¬ isExpired groupId minEpoch key marker) :
    (store.pruneOlderThan fa groupId minEpoch).2.markers.lookup key = some marker :=
  lookup_pruneBatches _ fa 0 h hk

end ReplayStore

/-! ### Markers of the current epoch -/

/-- The epochs that the call names are below `2 ^ 63`. -/
def Call.epochsBounded : Call → Bool
  | .apply _ event =>
    match event.envelope.payload with
    | .epochChanged epoch => epoch.toNat < 2 ^ 63
    | _ => true
  | _ => true

namespace GroupState

/-- The state against the events applied so far: none is of a later epoch, those of the current
epoch have their markers, and no two agree in identifier and epoch. -/
structure Guarded (C : GroupEventCrypto) (s : GroupState) (events : List GroupEventEnvelope) :
    Prop where
  /-- The epoch fits into a signed number. -/
  epoch_lt : s.epoch.toNat < 2 ^ 63
  epoch_le : ∀ e ∈ events, e.epoch ≤ s.epoch
  /-- A store is attached, and it has the markers of the current epoch. -/
  marked : ∃ store, s.replayStore = some store ∧ ∀ e ∈ events, e.epoch = s.epoch →
    ∃ seenAt, store.markers.lookup (s.groupId, e.eventId) = some ⟨asI64 s.epoch, seenAt⟩
  /-- Every identifier is that of the contents. -/
  eventId_eq : ∀ e ∈ events, C.makeEventId e.contents = .ok e.eventId
  /-- No two events agree in identifier and epoch. -/
  once : (events.map fun e => (e.eventId, e.epoch)).Nodup

variable {events : List GroupEventEnvelope}

/-- The retention window reaches up to the current epoch. -/
theorem not_isExpired_current (hlt : s.epoch.toNat < 2 ^ 63) (groupId : TopicId)
    (key : TopicId × Block 16) (seenAt : ℤ) :
    ¬ ReplayStore.isExpired groupId (saturatingSub s.epoch replayWindowPriorEpochs) key
      ⟨asI64 s.epoch, seenAt⟩ := by
  have hm := toNat_saturatingSub s.epoch replayWindowPriorEpochs
  simp only [ReplayStore.isExpired, Bool.and_eq_true, decide_eq_true_eq]
  rw [asI64_eq, asI64_eq]
  omega

theorem guarded_pruneReplay (h : s.Guarded C events) (fa : List (Option ReplayStoreError)) :
    (s.pruneReplay fa).Guarded C events := by
  obtain ⟨store, hs, hm⟩ := h.marked
  have hp : (s.pruneReplay fa).replayStore = some (store.pruneOlderThan fa s.groupId
      (saturatingSub s.epoch replayWindowPriorEpochs)).2 := by simp [pruneReplay, hs]
  refine ⟨h.epoch_lt, h.epoch_le, ⟨_, hp, fun e he hep => ?_⟩, h.eventId_eq, h.once⟩
  obtain ⟨seenAt, hl⟩ := hm e he hep
  exact ⟨seenAt, ReplayStore.lookup_pruneOlderThan fa hl (not_isExpired_current h.epoch_lt _ _ _)⟩

/-- Uses of the store by other groups leave the markers of this group. -/
theorem guarded_share (h : s.Guarded C events) (groupId : TopicId) (use : ReplayStore → ReplayStore)
    (hu : groupId ≠ s.groupId → ∀ (store : ReplayStore) id marker,
      store.markers.lookup (s.groupId, id) = some marker →
        (use store).markers.lookup (s.groupId, id) = some marker) :
    (s.share groupId use).Guarded C events := by
  simp only [share]
  split_ifs with hg
  · exact h
  · obtain ⟨store, hs, hm⟩ := h.marked
    refine ⟨h.epoch_lt, h.epoch_le, ⟨use store, by simp [hs], fun e he hep => ?_⟩,
      h.eventId_eq, h.once⟩
    obtain ⟨seenAt, hl⟩ := hm e he hep
    exact ⟨seenAt, hu hg store _ _ hl⟩

/-- The epoch after an accepted event: the one that the event sets, or the same. -/
theorem epoch_perform (h : s.Accepted C e) :
    (∃ ep, e.payload = .epochChanged ep ∧ (s.perform e.payload).epoch = ep ∧
        s.epoch < ep) ∨
      (∀ ep, e.payload ≠ .epochChanged ep) ∧ (s.perform e.payload).epoch = s.epoch := by
  cases hp : e.payload with
  | epochChanged ep => exact .inl ⟨ep, rfl, rfl, h.advances ep hp⟩
  | memberInvited _ | memberJoined _ | memberLeft _ | memberRemoved _ | metadataChanged _ _ =>
    exact .inr ⟨by simp, rfl⟩

variable {st : Option ReplayStore}

theorem not_mem_of_marked (h : s.Guarded C events) (he : s.Accepted C e) (hma : s.Marked w e st) :
    (e.eventId, e.epoch) ∉ events.map fun e => (e.eventId, e.epoch) := by
  intro hmem
  obtain ⟨e', he', heq⟩ := List.mem_map.1 hmem
  obtain ⟨hid, hep⟩ := Prod.mk.inj heq
  obtain ⟨pre, hb, hm⟩ := h.marked
  obtain ⟨seenAt, hl⟩ := hm e' he' (hep.trans he.epoch_eq)
  obtain ⟨hn, -⟩ | ⟨before', hbefore', hf, -⟩ := hma
  · rw [hn] at hb
    cases hb
  · obtain rfl : pre = before' := Option.some.inj (hb.symm.trans hbefore')
    rw [hid] at hl
    exact hf (AList.lookup_isSome.1 (Option.isSome_of_eq_some hl))

theorem once_concat (h : s.Guarded C events) (he : s.Accepted C e) (hm : s.Marked w e st) :
    ((events ++ [e]).map fun e => (e.eventId, e.epoch)).Nodup := by
  rw [List.map_append, List.nodup_append]
  refine ⟨h.once, List.nodup_singleton _, ?_⟩
  intro a ha b hb hab
  obtain rfl := List.mem_singleton.1 hb
  subst hab
  exact not_mem_of_marked h he hm ha

/-- The marker of an event of the current epoch is recorded beside the others. -/
theorem lookup_concat {st : ReplayStore} {sa : ℤ}
    (hm : ∀ e' ∈ events, e'.epoch = s.epoch → ∃ sa,
      st.markers.lookup (s.groupId, e'.eventId) = some ⟨asI64 s.epoch, sa⟩) :
    ∀ e' ∈ events ++ [e], e'.epoch = s.epoch → ∃ sa',
      (st.markers.insert (s.groupId, e.eventId) ⟨asI64 s.epoch, sa⟩).lookup
        (s.groupId, e'.eventId) = some ⟨asI64 s.epoch, sa'⟩ := by
  intro e' he' hep
  by_cases hid : e'.eventId = e.eventId
  · exact ⟨sa, by rw [hid, AList.lookup_insert]⟩
  · obtain he' | he' := List.mem_append.1 he'
    · obtain ⟨sa', hl⟩ := hm e' he' hep
      exact ⟨sa', by rw [AList.lookup_insert_ne (by simp [hid]), hl]⟩
    · obtain rfl := List.mem_singleton.1 he'
      exact absurd rfl hid

/-- After the operation of an accepted event and the record of its marker. -/
theorem guarded_perform (h : s.Guarded C events) (he : s.Accepted C e) (hm : s.Marked w e st)
    (hbo : ∀ epoch, e.payload = .epochChanged epoch → epoch.toNat < 2 ^ 63) {s' : GroupState}
    (hg : s'.groupId = s.groupId) (hep : s'.epoch = (s.perform e.payload).epoch)
    (hs : s'.replayStore = st) :
    s'.Guarded C (events ++ [e]) := by
  have hi : ∀ e' ∈ events ++ [e], C.makeEventId e'.contents = .ok e'.eventId :=
    List.forall_mem_append.2 ⟨h.eventId_eq, List.forall_mem_singleton.2 he.eventId_eq⟩
  have hle : ∀ e' ∈ events ++ [e], e'.epoch ≤ s.epoch := by
    refine List.forall_mem_append.2 ⟨h.epoch_le, List.forall_mem_singleton.2 ?_⟩
    rw [he.epoch_eq]
    exact UInt64.le_refl _
  have ho := once_concat h he hm
  obtain ⟨pre, hb, hma⟩ := h.marked
  obtain ⟨hn, -⟩ | ⟨before', hbefore', hf, rfl⟩ := hm
  · rw [hn] at hb
    cases hb
  obtain rfl : pre = before' := Option.some.inj (hb.symm.trans hbefore')
  obtain ⟨epoch, hp, hnw, ha⟩ | ⟨-, hsa⟩ := epoch_perform he
  · -- no event so far is of the new epoch
    have hs' : s'.epoch = epoch := hep.trans hnw
    refine ⟨by rw [hs']; exact hbo epoch hp, fun e' he' => ?_, ⟨_, hs, ?_⟩, hi, ho⟩
    · rw [hs']
      exact UInt64.le_trans (hle e' he') (UInt64.le_of_lt ha)
    · intro e' he' heq
      have := hle e' he'
      rw [heq, hs'] at this
      exact absurd ha (UInt64.not_lt.2 this)
  · have hs' : s'.epoch = s.epoch := hep.trans hsa
    refine ⟨by rw [hs']; exact h.epoch_lt, by rwa [hs'], ⟨_, hs, ?_⟩, hi, ho⟩
    rw [hs', hg, he.epoch_eq]
    exact lookup_concat hma

theorem guarded_commit (h : s.Guarded C events) (he : s.Accepted C e) (hm : s.Marked w e st)
    (hb : ∀ epoch, e.payload = .epochChanged epoch → epoch.toNat < 2 ^ 63) :
    ({ s with replayStore := st }.commit w e).Guarded C (events ++ [e]) := by
  have hep : ({ s with replayStore := st }.perform e.payload).epoch =
      (s.perform e.payload).epoch := by cases e.payload <;> rfl
  obtain ⟨seen, hc | ⟨-, hc⟩⟩ := commit_eq { s with replayStore := st } w e
  · rw [hc]
    exact guarded_perform h he hm hb (by simp) hep (by simp)
  · rw [hc]
    refine guarded_pruneReplay ?_ _
    exact guarded_perform h he hm hb (by simp) hep (by simp)

theorem guarded_step {rs : List (GroupEvent × Except GroupValidationError Unit)}
    (h : s.Guarded C (accepted rs)) (c : Call) (hb : c.epochsBounded) :
    ((group C).step s c).1.Guarded C (accepted (rs ++ ((group C).step s c).2)) := by
  have hn : accepted [] = [] := rfl
  rw [accepted_append]
  cases c with
  | apply w ev =>
    obtain ⟨err, hap⟩ | ⟨ha, st, hm, hap⟩ := apply_cases C w s ev
    · have hstep : (group C).step s (.apply w ev) = (s, [(ev, .error err)]) := by
        simp [group, hap]
      have hn : accepted [(ev, .error err)] = [] := rfl
      rw [hstep, hn, List.append_nil]
      exact h
    · have hstep : (group C).step s (.apply w ev) =
          ({ s with replayStore := st }.commit w ev.envelope, [(ev, .ok ())]) := by
        simp [group, hap]
      rw [hstep]
      exact guarded_commit h ha hm fun epoch hp => by
        simpa [Call.epochsBounded, hp] using hb
  | pruneReplay fa =>
    simpa [group, hn] using guarded_pruneReplay h fa
  | otherRecord fa groupId epoch eventId seenAt =>
    have hs := guarded_share h groupId
      (fun st => (st.record fa groupId epoch eventId seenAt).2)
      fun _ st id marker hl => by
        cases fa with
        | some err => exact hl
        | none => exact Table.lookup_insertOrIgnore_of_some hl
    simpa [group, hn] using hs
  | otherPrune fa groupId minEpoch =>
    have hs := guarded_share h groupId
      (fun st => (st.pruneOlderThan fa groupId minEpoch).2)
      fun hne st id marker hl => ReplayStore.lookup_pruneOlderThan fa hl
        (by simp [ReplayStore.isExpired, hne.symm])
    simpa [group, hn] using hs

theorem guarded_trace {s₀ : GroupState} (h₀ : s₀.Guarded C []) {ca : List Call}
    (hb : ∀ c ∈ ca, c.epochsBounded) :
    ((group C).exec s₀ ca).Guarded C (accepted ((group C).trace s₀ ca)) :=
  Machine.trace_invariant_along (G := fun _ c => c.epochsBounded)
    (P := fun s rs => Guarded C s (accepted rs))
    (Machine.along_of_forall hb s₀) h₀ fun _ _ c hc h => guarded_step h c hc

theorem epoch_le_step (c : Call) : s.epoch ≤ ((group C).step s c).1.epoch := by
  obtain ⟨-, seen, st, rs, -, hstep⟩ | ⟨w, ev, st, -, ha, -, hstep⟩ := step_cases C s c
  · rw [hstep]
    exact UInt64.le_refl _
  · obtain ⟨-, -, hep, -⟩ := commit_fields { s with replayStore := st } w ev.envelope
    have hs : ({ s with replayStore := st }.perform ev.envelope.payload).epoch =
        (s.perform ev.envelope.payload).epoch := by cases ev.envelope.payload <;> rfl
    rw [hstep, hep, hs]
    obtain ⟨epoch, -, hn, hlt⟩ | ⟨-, heq⟩ := epoch_perform ha
    · rw [hn]
      exact UInt64.le_of_lt hlt
    · rw [heq]
      exact UInt64.le_refl _

end GroupState

open GroupState

/-- Two events with different contents and the same identifier. -/
def Collision (C : GroupEventCrypto) (events : List GroupEventEnvelope) : Prop :=
  ∃ e₁ ∈ events, ∃ e₂ ∈ events, e₁.contents ≠ e₂.contents ∧
    C.makeEventId e₁.contents = C.makeEventId e₂.contents

theorem nodup_or_collision {events : List GroupEventEnvelope} (h : s.Guarded C events) :
    (events.map (·.eventId)).Nodup ∨ Collision C events := by
  by_cases hc : Collision C events
  · exact .inr hc
  · left
    have hi : events.map (·.eventId) =
        (events.map fun e => (e.eventId, e.epoch)).map Prod.fst := by simp
    rw [hi]
    refine List.Nodup.map_on ?_ h.once
    -- the identifier of an applied event determines its contents, and so its epoch
    intro x hx y hy hxy
    obtain ⟨e₁, he₁, rfl⟩ := List.mem_map.1 hx
    obtain ⟨e₂, he₂, rfl⟩ := List.mem_map.1 hy
    have hid : e₁.eventId = e₂.eventId := hxy
    have hco : e₁.contents = e₂.contents := by
      by_contra hne
      refine hc ⟨e₁, he₁, e₂, he₂, hne, ?_⟩
      rw [h.eventId_eq e₁ he₁, h.eventId_eq e₂ he₂, hid]
    have hep : e₁.epoch = e₂.epoch := congrArg EventContents.epoch hco
    rw [hid, hep]

/-- **Replay protection.**  With a replay store attached and epochs below `2 ^ 63`, whatever the
store fails to do, no identifier is applied twice unless two applied events collide; the epoch never
decreases; and an application that returns an error leaves the state as it was. -/
theorem replay_protection (C : GroupEventCrypto) (s₀ : GroupState) (calls : List Call)
    (hstore : s₀.replayStore.isSome) (h₀ : s₀.epoch.toNat < 2 ^ 63)
    (hbounded : ∀ c ∈ calls, c.epochsBounded) :
    let events := accepted ((group C).trace s₀ calls)
    ((events.map (·.eventId)).Nodup ∨ Collision C events) ∧
      (group C).Along (fun s c => s.epoch ≤ ((group C).step s c).1.epoch ∧
        ∀ w ev err, c = .apply w ev → (s.apply C w ev).2 = .error err →
          (s.apply C w ev).1 = s) s₀ calls := by
  obtain ⟨store, hs⟩ := Option.isSome_iff_exists.1 hstore
  have hg : s₀.Guarded C [] := ⟨h₀, by simp, ⟨store, hs, by simp⟩, by simp, by simp⟩
  refine ⟨nodup_or_collision (guarded_trace hg hbounded), ?_⟩
  refine Machine.along_of_step (fun s c => ⟨epoch_le_step c, ?_⟩) s₀ calls
  intro w ev err _ her
  obtain ⟨err', h⟩ | ⟨-, store, -, h⟩ := apply_cases C w s ev
  · rw [h]
  · rw [h] at her
    cases her

/-- An invitation that arrives twice and once more after the epoch has changed is applied once. -/
theorem replay_protection_invitation :
    let owner := Block.replicate 32 1
    let invitation := Call.sample 1 0 owner (.memberInvited (Block.replicate 32 2))
    let calls := [invitation, invitation, .sample 2 0 owner (.epochChanged 1), invitation]
    let events := accepted ((group .byNonce).trace (withReplayStore ⟨0⟩ owner ⟨∅⟩) calls)
    events.length = 2 ∧ ((events.map (·.eventId)).Nodup ∨ Collision .byNonce events) :=
  ⟨by decide, (replay_protection .byNonce _ _ rfl (by decide) (by decide)).1⟩

end Boru.GroupEvents
