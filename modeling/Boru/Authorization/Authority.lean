import Boru.Authorization.State

/-!
# Who has authority in a room

The state of a room is changed by calls that anyone may provoke with any event.  The results are
about all sequences of such calls:

* `room_authority` : the owner keeps its role, its permissions and its freedom from bans and is the
  only owner; a failed call changes nothing; events are accepted in the order of their numbers and
  once; and whoever is not the owner changes no role and reaches only members of lower authority.
* `exercised_permission_held` : as long as the permission of a moderator is not revoked, its events
  are accepted only if it holds the permission they exercise.

The second result needs its condition: the policy looks at the role of the actor and never at the
permissions, so a moderator without the permission to ban still bans.
-/

namespace Boru.Authorization

open GroupEncryption (Block)
open Gossip (TopicId)

variable {C : AuthorizationCrypto} {s : AuthorizationState} {e : AuthorizationEvent}

namespace AuthorizationState

/-! ### Valid states -/

structure Valid (s : AuthorizationState) : Prop where
  /-- The owner has the role of the owner. -/
  owner_role : s.roleOf s.owner = some .owner
  sole_owner : ∀ p, s.roleOf p = some .owner → p = s.owner
  owner_unbanned : s.owner ∉ s.banned
  /-- Exactly the members have permissions. -/
  keys_match : ∀ p, p ∈ s.members ↔ p ∈ s.permissions

theorem validate_eq_ok_iff : s.validate = .ok () ↔ s.Valid := by
  have hk : (s.members.keys.all (· ∈ s.permissions) && s.permissions.keys.all (· ∈ s.members)) =
      true ↔ ∀ p, p ∈ s.members ↔ p ∈ s.permissions := by
    simp only [Bool.and_eq_true, List.all_eq_true, decide_eq_true_eq]
    exact ⟨fun h p => ⟨h.1 p, h.2 p⟩, fun h => ⟨fun p => (h p).1, fun p => (h p).2⟩⟩
  simp only [validate]
  constructor
  · intro h
    split at h
    · cases h
    · rename_i hc
      push Not at hc
      obtain ⟨ho, hone, hu, hm⟩ := hc
      exact ⟨ho, (HashMap.countValues_eq_one_iff ho).1 hone, hu, hk.1 hm⟩
  · intro h
    rw [if_neg]
    push Not
    exact ⟨h.owner_role, (HashMap.countValues_eq_one_iff h.owner_role).2 h.sole_owner,
      h.owner_unbanned, hk.2 h.keys_match⟩

/-! ### Accepted events -/

/-- What is known of an event that `evaluate` accepts. -/
structure Accepted (s : AuthorizationState) (e : AuthorizationEvent) : Prop where
  valid : s.Valid
  fresh : e.eventId ∉ s.appliedEvents
  sequence : e.sequence = saturatingAdd s.lastSequence 1
  unbanned : e.actor ∉ s.banned
  permitted : ∃ actorRole, s.roleOf e.actor = some actorRole ∧ s.allowed actorRole e.target e.action

theorem fresh_of_verify (h : e.verify C s = .ok ()) :
    e.eventId ∉ s.appliedEvents ∧ e.sequence = saturatingAdd s.lastSequence 1 := by
  simp only [AuthorizationEvent.verify] at h
  split_ifs at h with hv hg ha hs
  exact ⟨ha, not_not.1 hs⟩

theorem accepted_of_evaluate (h : s.evaluate C e = .ok ()) : s.Accepted e := by
  obtain ⟨⟨⟩, hva, h⟩ := Prog.except_bind_eq_ok h
  obtain ⟨⟨⟩, hv, h⟩ := Prog.except_bind_eq_ok h
  obtain ⟨hf, hs⟩ := fresh_of_verify hv
  cases hr : s.roleOf e.actor with
  | none =>
    rw [hr] at h
    cases h
  | some actorRole =>
    simp only [hr] at h
    split_ifs at h with hb ht ha
    exact ⟨validate_eq_ok_iff.1 hva, hf, hs, hb, actorRole, hr, ha⟩

variable {ar : Role} {target : PublicKey}

theorem managesTarget_iff :
    s.managesTarget ar target ↔
      ∃ role, s.roleOf target = some role ∧ target ≠ s.owner ∧
        role.authority < ar.authority := by
  simp [managesTarget, Option.any_eq_true]

/-- Every action but an admission needs a target of lower authority. -/
theorem managesTarget_of_allowed {a : AuthorizationAction}
    (h : s.allowed ar target a) (ha : ∀ role, a ≠ .admitAs role) :
    s.managesTarget ar target := by
  cases a with
  | grant permission | revoke permission | ban => exact (Bool.and_eq_true_iff.1 h).1
  | changeRole role => exact (Bool.and_eq_true_iff.1 h).2
  | unban => exact (Bool.and_eq_true_iff.1 (Bool.and_eq_true_iff.1 h).1).1
  | admitAs role => exact absurd rfl (ha role)

theorem ne_owner_of_allowed {a : AuthorizationAction} (hv : s.Valid)
    (h : s.allowed ar target a) : target ≠ s.owner := by
  by_cases ha : ∃ role, a = .admitAs role
  · obtain ⟨role, rfl⟩ := ha
    rintro rfl
    simp [allowed, hv.owner_role] at h
  · push Not at ha
    obtain ⟨-, -, hne, -⟩ := managesTarget_iff.1 (managesTarget_of_allowed h ha)
    exact hne

/-! ### What an accepted event changes -/

end AuthorizationState

/-- The role that an action gives to its target. -/
def AuthorizationAction.assigns : AuthorizationAction → Option Role
  | .changeRole role | .admitAs role => some role
  | .grant _ | .revoke _ | .ban | .unban => none

namespace AuthorizationState

theorem roleOf_setRole {s : AuthorizationState} {peer : PublicKey} {role : Role} {p : PublicKey} :
    (s.setRole peer role).roleOf p = if p = peer then some role else s.roleOf p := by
  split_ifs with h
  · subst h
    exact AList.lookup_insert _
  · exact AList.lookup_insert_ne h

theorem roleOf_accept (s : AuthorizationState) (e : AuthorizationEvent) (p : PublicKey) :
    (s.accept e).roleOf p = if p = e.target then e.action.assigns <|> s.roleOf p
      else s.roleOf p := by
  cases h : e.action with
  | changeRole role | admitAs role =>
    have heq : (s.accept e).roleOf p = (s.setRole e.target role).roleOf p := by
      simp [accept, h, roleOf]
    rw [heq, roleOf_setRole]
    rfl
  | grant permission | revoke permission | ban | unban =>
    have heq : (s.accept e).roleOf p = s.roleOf p := by
      simp [accept, h, roleOf]
    simp [heq, AuthorizationAction.assigns]

variable {p : PublicKey}

section

variable (s)

/-- Only the target gets other permissions. -/
theorem permissions_accept_of_ne {e : AuthorizationEvent} (hp : p ≠ e.target) :
    (s.accept e).permissions.lookup p = s.permissions.lookup p := by
  cases h : e.action with
  | grant permission | revoke permission =>
    simpa [accept, h] using HashMap.lookup_upsert_ne s.permissions _ _ hp
  | changeRole role | admitAs role =>
    simpa [accept, h, setRole] using AList.lookup_insert_ne hp
  | ban | unban => simp [accept, h]

/-- Only the target is banned or freed. -/
theorem banned_accept_of_ne {e : AuthorizationEvent} (hp : p ≠ e.target) :
    p ∈ (s.accept e).banned ↔ p ∈ s.banned := by
  cases h : e.action with
  | grant permission | revoke permission | changeRole role | admitAs role =>
    simp [accept, h, setRole]
  | ban | unban => simp [accept, h, hp]

/-- An action that gives no role changes none. -/
theorem roleOf_accept_of_assigns {e : AuthorizationEvent} (h : e.action.assigns = none)
    (p : PublicKey) : (s.accept e).roleOf p = s.roleOf p := by
  simp [roleOf_accept, h]

theorem owner_accept (e : AuthorizationEvent) : (s.accept e).owner = s.owner := by
  cases h : e.action <;> simp [accept, h, setRole]

end

variable {role : Role}

theorem assigns_of_allowed {actorRole : Role} {target : PublicKey} {a : AuthorizationAction}
    (h : s.allowed actorRole target a) (hr : a.assigns = some role) :
    actorRole = .owner ∧ role ≠ .owner := by
  cases a with
  | changeRole r | admitAs r =>
    obtain rfl : r = role := by simpa [AuthorizationAction.assigns] using hr
    simp only [allowed, Bool.and_eq_true, decide_eq_true_eq] at h
    tauto
  | grant permission | revoke permission | ban | unban => cases hr

theorem keys_match_setRole {peer : PublicKey} (h : ∀ p, p ∈ s.members ↔ p ∈ s.permissions)
    (p : PublicKey) :
    p ∈ (s.setRole peer role).members ↔ p ∈ (s.setRole peer role).permissions := by
  simp [setRole, h]

theorem keys_match_accept (h : s.Accepted e) (p : PublicKey) :
    p ∈ (s.accept e).members ↔ p ∈ (s.accept e).permissions := by
  have hk := h.valid.keys_match
  obtain ⟨actorRole, -, hal⟩ := h.permitted
  cases ha : e.action with
  | grant permission | revoke permission =>
    have ht : e.target ∈ s.members := by
      obtain ⟨role, hr, -⟩ :=
        managesTarget_iff.1 (managesTarget_of_allowed hal (by simp [ha]))
      exact AList.lookup_isSome.1 (Option.isSome_of_eq_some hr)
    simp only [accept, perform, ha, HashMap.upsert, AList.mem_insert, hk]
    rw [hk] at ht
    constructor
    · exact Or.inr
    · rintro (rfl | hp)
      · exact ht
      · exact hp
  | changeRole role | admitAs role =>
    simpa [accept, ha] using keys_match_setRole hk p
  | ban | unban => simp [accept, ha, hk]

theorem valid_accept (h : s.Accepted e) : (s.accept e).Valid := by
  obtain ⟨actorRole, -, hal⟩ := h.permitted
  have hne : s.owner ≠ e.target := (ne_owner_of_allowed h.valid hal).symm
  refine ⟨?_, ?_, ?_, keys_match_accept h⟩
  · rw [owner_accept, roleOf_accept, if_neg hne]
    exact h.valid.owner_role
  · intro p hp
    rw [owner_accept]
    rw [roleOf_accept] at hp
    split_ifs at hp with ht
    · cases ha : e.action.assigns with
      | none => exact h.valid.sole_owner p (by simpa [ha] using hp)
      | some role =>
        have hr : role = .owner := by simpa [ha] using hp
        exact absurd hr (assigns_of_allowed hal ha).2
    · exact h.valid.sole_owner p hp
  · rw [owner_accept, banned_accept_of_ne s hne]
    exact h.valid.owner_unbanned

/-- The last check of `apply` never fails. -/
theorem apply_eq (C : AuthorizationCrypto) (s : AuthorizationState) (e : AuthorizationEvent) :
    (∃ err, s.apply C e = (s, .error err)) ∨ s.Accepted e ∧ s.apply C e = (s.accept e, .ok ()) := by
  simp only [apply]
  split
  · rename_i err _
    exact .inl ⟨err, rfl⟩
  · rename_i hok
    have h := accepted_of_evaluate hok
    exact .inr ⟨h, by rw [validate_eq_ok_iff.2 (valid_accept h)]⟩

theorem call_cases (C : AuthorizationCrypto) (s : AuthorizationState) (c : Call) :
    (∃ err, s.call C c = (s, .error err)) ∨
      (∃ e, c = .apply e ∧ s.Accepted e ∧ s.call C c = (s.accept e, .ok ())) ∨
      ∃ peer role, c = .admitMember peer role ∧
        (peer ∉ s.banned ∧ peer ∉ s.members ∧ role ≠ .owner) ∧
        s.call C c = (s.setRole peer role, .ok ()) := by
  cases c with
  | apply e =>
    obtain h | h := apply_eq C s e
    · exact .inl h
    · exact .inr (.inl ⟨e, rfl, h⟩)
  | admitMember peer role =>
    simp only [call, admitMember]
    split_ifs with h
    · exact .inl ⟨_, rfl⟩
    · push Not at h
      exact .inr (.inr ⟨peer, role, rfl, h, rfl⟩)

/-! ### The owner -/

/-- The state is valid, and its owner holds every permission. -/
structure Governed (owner : PublicKey) (s : AuthorizationState) : Prop where
  /-- The owner is that of the beginning. -/
  owner_eq : s.owner = owner
  /-- The state passes its own check. -/
  valid : s.Valid
  all_permissions : ∀ permission, s.allows owner permission

theorem governed_new {g : TopicId} {owner : PublicKey} : (new g owner).Governed owner := by
  refine ⟨rfl, ⟨?_, ?_, Finset.notMem_empty _, keys_match_setRole fun p => by simp⟩, ?_⟩
  · exact (roleOf_setRole).trans (if_pos rfl)
  · intro p hp
    rw [new, roleOf_setRole] at hp
    split_ifs at hp with h
    · exact h
    · simp [roleOf] at hp
  · intro permission
    have hmem : owner ∈ (new g owner).members := (AList.mem_insert _).2 (.inl rfl)
    have hl : (new g owner).permissions.lookup owner =
        some Role.owner.defaultPermissions.toFinset := AList.lookup_insert _
    have hb : (new g owner).isBanned owner = false := rfl
    rw [allows, hl, hb]
    cases permission <;> simp [hmem, Role.defaultPermissions]

/-- A call that leaves role, permissions and ban of the owner alone leaves its capabilities. -/
theorem allows_congr {s s' : AuthorizationState} (hr : s'.roleOf p = s.roleOf p)
    (hp : s'.permissions.lookup p = s.permissions.lookup p)
    (hb : p ∈ s'.banned ↔ p ∈ s.banned) (permission : Permission) :
    s'.allows p permission = s.allows p permission := by
  have hmem : p ∈ s'.members ↔ p ∈ s.members := by
    rw [← AList.lookup_isSome, ← AList.lookup_isSome]
    exact iff_of_eq (congrArg (·.isSome = true) hr)
  simp [allows, isBanned, hmem, hp, hb]

variable {owner : PublicKey}

theorem governed_accept (h : s.Governed owner) (he : s.Accepted e) :
    (s.accept e).Governed owner := by
  obtain ⟨rfl, hv, hall⟩ := h
  obtain ⟨actorRole, -, ha⟩ := he.permitted
  have hne : s.owner ≠ e.target := (ne_owner_of_allowed hv ha).symm
  refine ⟨owner_accept s e, valid_accept he, fun permission => ?_⟩
  rw [allows_congr (by rw [roleOf_accept, if_neg hne]) (permissions_accept_of_ne s hne)
    (banned_accept_of_ne s hne)]
  exact hall permission

theorem governed_setRole {peer : PublicKey} (h : s.Governed owner) (hpe : peer ∉ s.members)
    (hr : role ≠ .owner) : (s.setRole peer role).Governed owner := by
  obtain ⟨rfl, hv, hall⟩ := h
  have hne : s.owner ≠ peer := by
    rintro rfl
    exact hpe (AList.lookup_isSome.1 (Option.isSome_of_eq_some hv.owner_role))
  refine ⟨rfl, ⟨?_, ?_, hv.owner_unbanned, keys_match_setRole hv.keys_match⟩, ?_⟩
  · exact (roleOf_setRole).trans ((if_neg hne).trans hv.owner_role)
  · intro p hp
    rw [roleOf_setRole] at hp
    split_ifs at hp
    · exact absurd (Option.some.inj hp) hr
    · exact hv.sole_owner p hp
  · intro permission
    rw [allows_congr ((roleOf_setRole).trans (if_neg hne)) (AList.lookup_insert_ne hne) Iff.rfl]
    exact hall permission

theorem governed_call (h : s.Governed owner) (c : Call) : (s.call C c).1.Governed owner := by
  obtain ⟨err, hc⟩ | ⟨e, -, he, hc⟩ | ⟨peer, role, -, ⟨-, hp, hr⟩, hc⟩ := call_cases C s c
  · rw [hc]
    exact h
  · rw [hc]
    exact governed_accept h he
  · rw [hc]
    exact governed_setRole h hp hr

theorem governed_exec (C : AuthorizationCrypto) (g : TopicId) (owner : PublicKey)
    (ca : List Call) : ((room C).exec (new g owner) ca).Governed owner :=
  Machine.exec_invariant (governed_new) (fun _ c h => governed_call h c) ca

/-! ### The order of events -/

/-- The record of a state against the events accepted so far. -/
structure Recorded (s : AuthorizationState) (events : List AuthorizationEvent) : Prop where
  last_sequence : s.lastSequence.toNat = events.length
  /-- The identifiers of the events are recorded. -/
  applied : s.appliedEvents = (events.map (·.eventId)).toFinset
  /-- No two events have the same identifier. -/
  once : (events.map (·.eventId)).Nodup
  /-- The events have the numbers from one on. -/
  in_order : events.map (·.sequence.toNat) = List.range' 1 events.length

theorem recorded_accept {evs : List AuthorizationEvent} (h : s.Recorded evs)
    (hlt : evs.length < 2 ^ 64 - 1) (he : s.Accepted e) :
    (s.accept e).Recorded (evs ++ [e]) := by
  have hn : e.sequence.toNat = evs.length + 1 := by
    rw [he.sequence, toNat_saturatingAdd, h.last_sequence]
    simp
    omega
  have hf : e.eventId ∉ evs.map (·.eventId) := by
    have := he.fresh
    rwa [h.applied, List.mem_toFinset] at this
  refine ⟨?_, ?_, ?_, ?_⟩
  · simpa [accept] using hn
  · ext id
    simp only [accept, h.applied, Finset.mem_insert, List.mem_toFinset, List.map_append,
      List.map_cons, List.map_nil, List.mem_append, List.mem_singleton]
    exact or_comm
  · simpa [List.nodup_append, h.once] using hf
  · simp [h.in_order, List.range'_concat]
    omega

end AuthorizationState

theorem accepted_append (l₁ l₂ : List (Call × Except AuthorizationError Unit)) :
    accepted (l₁ ++ l₂) = accepted l₁ ++ accepted l₂ := List.filterMap_append

namespace AuthorizationState

/-- The record is right as long as the numbers last. -/
theorem recorded_trace (C : AuthorizationCrypto) {g : TopicId} {owner : PublicKey}
    {ca : List Call} :
    (accepted ((room C).trace (new g owner) ca)).length < 2 ^ 64 - 1 →
      ((room C).exec (new g owner) ca).Recorded (accepted ((room C).trace (new g owner) ca)) := by
  refine Machine.trace_invariant_along (G := fun _ _ => True)
    (P := fun s rs => (accepted rs).length < 2 ^ 64 - 1 → Recorded s (accepted rs))
    (Machine.along_of_step (fun _ _ => trivial) _ _) ?_ ?_
  · intro _
    exact ⟨rfl, rfl, List.nodup_nil, rfl⟩
  · intro s rs c _ ih hlt
    rw [accepted_append, List.length_append] at hlt
    rw [accepted_append]
    have h := ih (by omega)
    obtain ⟨err, hc⟩ | ⟨e, rfl, he, hc⟩ | ⟨peer, role, rfl, -, hc⟩ := call_cases C s c
    · have hstep : (room C).step s c = (s, [(c, .error err)]) := by simp [room, hc]
      have hn : accepted [(c, .error err)] = [] := by cases c <;> rfl
      rw [hstep, hn, List.append_nil]
      exact h
    · have hstep : (room C).step s (.apply e) = (s.accept e, [(.apply e, .ok ())]) := by
        simp [room, hc]
      rw [hstep]
      exact recorded_accept h (by omega) he
    · have hstep : (room C).step s (.admitMember peer role) =
          (s.setRole peer role, [(.admitMember peer role, .ok ())]) := by simp [room, hc]
      have hn : accepted [(Call.admitMember peer role, .ok ())] = [] := rfl
      rw [hstep, hn, List.append_nil]
      exact ⟨h.last_sequence, h.applied, h.once, h.in_order⟩

/-! ### Whoever is not the owner -/

/-- What one call may do to a room: nothing if it fails; an accepted event has the next number; and
the event of an actor other than the owner gives no role and reaches at most its target, who is not
the owner and has less authority than the actor. -/
def Confined (C : AuthorizationCrypto) (owner : PublicKey) (s : AuthorizationState) (c : Call) :
    Prop :=
  (∀ err, (s.call C c).2 = .error err → (s.call C c).1 = s) ∧
    ∀ e, c = .apply e → (s.call C c).2 = .ok () →
      e.sequence.toNat = s.lastSequence.toNat + 1 ∧
      (e.actor ≠ owner → (∀ p, (s.call C c).1.roleOf p = s.roleOf p) ∧
        ∀ p, ((s.call C c).1.isBanned p ≠ s.isBanned p ∨
            (s.call C c).1.permissions.lookup p ≠ s.permissions.lookup p) →
          p = e.target ∧ p ≠ owner ∧ ∃ actorRole role, s.roleOf e.actor = some actorRole ∧
            s.roleOf p = some role ∧ role.authority < actorRole.authority)

/-- The event of an actor other than the owner changes no role. -/
theorem roleOf_accept_of_ne_owner (h : s.Accepted e) (hac : e.actor ≠ s.owner) (p : PublicKey) :
    (s.accept e).roleOf p = s.roleOf p := by
  obtain ⟨actorRole, hr, hal⟩ := h.permitted
  cases ha : e.action.assigns with
  | none => exact roleOf_accept_of_assigns s ha p
  | some role =>
    obtain ⟨rfl, -⟩ := assigns_of_allowed hal ha
    exact absurd (h.valid.sole_owner _ hr) hac

/-- The event of an actor other than the owner acts upon a member of lower authority. -/
theorem target_of_ne_owner (h : s.Accepted e) (hac : e.actor ≠ s.owner) :
    ∃ actorRole role, s.roleOf e.actor = some actorRole ∧ s.roleOf e.target = some role ∧
      role.authority < actorRole.authority := by
  obtain ⟨actorRole, hr, hal⟩ := h.permitted
  have hn : ∀ role, e.action ≠ .admitAs role := by
    intro role ha
    obtain ⟨rfl, -⟩ := assigns_of_allowed hal (by rw [ha]; rfl)
    exact hac (h.valid.sole_owner _ hr)
  obtain ⟨role, ht, -, hlt⟩ := managesTarget_iff.1 (managesTarget_of_allowed hal hn)
  exact ⟨actorRole, role, hr, ht, hlt⟩

theorem confined_of_governed {owner : PublicKey} (h : s.Governed owner)
    (hlt : s.lastSequence.toNat < 2 ^ 64 - 1) (c : Call) : s.Confined C owner c := by
  obtain ⟨err, hc⟩ | ⟨e, rfl, he, hc⟩ | ⟨peer, role, rfl, -, hc⟩ := call_cases C s c
  · simp [Confined, hc]
  · refine ⟨by simp [hc], ?_⟩
    intro e' heq _
    obtain rfl : e = e' := Call.apply.inj heq
    rw [hc]
    refine ⟨?_, fun ha => ?_⟩
    · rw [he.sequence, toNat_saturatingAdd]
      simp
      omega
    rw [← h.owner_eq] at ha ⊢
    refine ⟨roleOf_accept_of_ne_owner he ha, fun p hch => ?_⟩
    obtain rfl : p = e.target := by
      by_contra hp
      obtain hb | hpe := hch
      · exact hb (by simp [isBanned, banned_accept_of_ne s hp])
      · exact hpe (permissions_accept_of_ne s hp)
    obtain ⟨_, -, hal⟩ := he.permitted
    exact ⟨rfl, ne_owner_of_allowed h.valid hal, target_of_ne_owner he ha⟩
  · simp [Confined, hc]

end AuthorizationState

open AuthorizationState

/-- **Room authority.**  After any sequence of calls with fewer than `2 ^ 64 - 1` accepted events,
the state is valid; the owner is the only member with the owner's role, is not banned and holds
every permission; the accepted events have the numbers from one on and distinct identifiers; and
whatever call comes next is confined. -/
theorem room_authority (C : AuthorizationCrypto) (groupId : TopicId) (owner : PublicKey)
    (calls : List Call)
    (hlt : (accepted ((room C).trace (new groupId owner) calls)).length < 2 ^ 64 - 1) :
    let s := (room C).exec (new groupId owner) calls
    let events := accepted ((room C).trace (new groupId owner) calls)
    s.validate = .ok () ∧ (∀ p, s.roleOf p = some .owner ↔ p = owner) ∧
      s.isBanned owner = false ∧ (∀ permission, s.allows owner permission) ∧
      events.map (·.sequence.toNat) = List.range' 1 events.length ∧
      (events.map (·.eventId)).Nodup ∧ ∀ c, s.Confined C owner c := by
  intro s events
  have hg : s.Governed owner := governed_exec C groupId owner calls
  have hr : s.Recorded events := recorded_trace C hlt
  have hl : s.lastSequence.toNat < 2 ^ 64 - 1 := by
    rw [hr.last_sequence]
    exact hlt
  refine ⟨validate_eq_ok_iff.2 hg.valid, fun p => ?_, ?_, hg.all_permissions, hr.in_order,
    hr.once, confined_of_governed hg hl⟩
  · constructor
    · intro hp
      exact (hg.valid.sole_owner p hp).trans hg.owner_eq
    · rintro rfl
      have := hg.valid.owner_role
      rwa [hg.owner_eq] at this
  · have := hg.valid.owner_unbanned
    rw [hg.owner_eq] at this
    simpa [isBanned] using this

/-! ### Permissions and what they stand for -/

/-- The permission that an action exercises: who grants or revokes a permission passes on its
own. -/
def AuthorizationAction.exercises : AuthorizationAction → Permission
  | .grant permission | .revoke permission => permission
  | .changeRole _ => .manageRoles
  | .ban | .unban => .ban
  | .admitAs _ => .invite

/-- A cryptography whose identifiers are the sequence numbers and that accepts every signature. -/
def AuthorizationCrypto.numbering : AuthorizationCrypto where
  canonicalSignedBytes _ _ fields := .ok [fields.sequence.toUInt8]
  hash bytes := Block.replicate 32 (bytes.headD 0)
  verify _ _ _ := true

def AuthorizationEvent.numbered (sequence : UInt64) (actor target : PublicKey)
    (action : AuthorizationAction) : AuthorizationEvent :=
  { version := authorizationVersion, groupId := ⟨0⟩, sequence := sequence, actor := actor
    target := target, action := action
    eventId := Block.replicate 32 sequence.toUInt8, signature := Block.replicate 64 0 }

/-- The owner of a room bans a member that it admitted. -/
theorem room_authority_ban :
    let owner := Block.replicate 32 1
    let calls := [Call.apply (.numbered 1 owner (Block.replicate 32 2) (.admitAs .member)),
      Call.apply (.numbered 2 owner (Block.replicate 32 2) .ban)]
    let s := (room .numbering).exec (new ⟨0⟩ owner) calls
    s.isBanned (Block.replicate 32 2) ∧ s.validate = .ok () := by
  refine ⟨by decide, ?_⟩
  exact (room_authority .numbering ⟨0⟩ (Block.replicate 32 1) _ (by decide)).1

namespace AuthorizationState

theorem moderator_of_allowed {actorRole : Role} {target : PublicKey} {a : AuthorizationAction}
    (h : s.allowed actorRole target a) (hne : actorRole ≠ .owner) :
    actorRole = .moderator ∧ a.exercises ∈ moderatorGrants := by
  cases a with
  | grant permission | revoke permission =>
    have hg := (Bool.and_eq_true_iff.1 h).2
    cases actorRole with
    | owner => exact absurd rfl hne
    | moderator => exact ⟨rfl, of_decide_eq_true hg⟩
    | guest | member => cases hg
  | changeRole role | admitAs role => exact absurd (assigns_of_allowed h rfl).1 hne
  | ban | unban =>
    simp only [allowed, Bool.and_eq_true, Bool.or_eq_true, decide_eq_true_eq, hne] at h
    exact ⟨by tauto, by decide⟩

/-- The member holds the permission if it is a moderator. -/
def HoldsAsModerator (p : PublicKey) (permission : Permission) (s : AuthorizationState) : Prop :=
  s.roleOf p = some .moderator → ∃ held, s.permissions.lookup p = some held ∧ permission ∈ held

variable {p : PublicKey} {permission : Permission}

theorem holdsAsModerator_setRole (hg : permission ∈ moderatorGrants)
    (h : s.HoldsAsModerator p permission) (peer : PublicKey) (role : Role) :
    (s.setRole peer role).HoldsAsModerator p permission := by
  intro hr
  rw [roleOf_setRole] at hr
  split_ifs at hr with hp
  · subst hp
    cases hr
    refine ⟨_, AList.lookup_insert _, ?_⟩
    -- the permissions a moderator may grant are among those of its role
    revert hg
    cases permission <;> decide
  · obtain ⟨held, hh, hmem⟩ := h hr
    exact ⟨held, (AList.lookup_insert_ne hp).trans hh, hmem⟩

/-- A change of the permissions of one member, who keeps the permission. -/
theorem holdsAsModerator_update {s' : AuthorizationState} {target : PublicKey}
    (hr : ∀ q, s'.roleOf q = s.roleOf q)
    (ho : ∀ q, q ≠ target → s'.permissions.lookup q = s.permissions.lookup q)
    (h : s.HoldsAsModerator p permission)
    (ht : ∀ held, s.permissions.lookup target = some held → permission ∈ held →
      target = p ∧ s.roleOf p = some .moderator →
      ∃ held', s'.permissions.lookup target = some held' ∧ permission ∈ held') :
    s'.HoldsAsModerator p permission := by
  intro hro
  rw [hr] at hro
  obtain ⟨held, hh, hmem⟩ := h hro
  by_cases hp : p = target
  · subst hp
    exact ht held hh hmem ⟨rfl, hro⟩
  · exact ⟨held, (ho p hp).trans hh, hmem⟩

theorem holdsAsModerator_accept (hg : permission ∈ moderatorGrants)
    (h : s.HoldsAsModerator p permission)
    (hk : e.action = .revoke permission → e.target = p → s.roleOf p ≠ some .moderator) :
    (s.accept e).HoldsAsModerator p permission := by
  cases ha : e.action with
  | changeRole role | admitAs role =>
    have hs := holdsAsModerator_setRole hg h e.target role
    simpa [accept, ha, HoldsAsModerator, roleOf] using hs
  | ban | unban => simpa [accept, ha, HoldsAsModerator, roleOf] using h
  | grant other =>
    refine holdsAsModerator_update (roleOf_accept_of_assigns s (by rw [ha]; rfl))
      (fun q hq => permissions_accept_of_ne s hq) h fun held hh hmem _ => ?_
    exact ⟨insert other held, by simp [accept, ha, HashMap.getD, hh], by simp [hmem]⟩
  | revoke other =>
    refine holdsAsModerator_update (roleOf_accept_of_assigns s (by rw [ha]; rfl))
      (fun q hq => permissions_accept_of_ne s hq) h fun held hh hmem hm => ?_
    obtain ⟨rfl, hm⟩ := hm
    have hne : permission ≠ other := by
      rintro rfl
      exact hk ha rfl hm
    exact ⟨held.erase other, by simp [accept, ha, HashMap.getD, hh], by simp [hmem, hne]⟩

/-- No accepted event takes the permission from the moderator `p`. -/
def KeepsPermission (C : AuthorizationCrypto) (p : PublicKey) (permission : Permission)
    (s : AuthorizationState) (c : Call) : Prop :=
  ∀ e, c = .apply e → e.action = .revoke permission → e.target = p →
    s.roleOf p = some .moderator → (s.apply C e).2 ≠ .ok ()

theorem holdsAsModerator_call (hg : permission ∈ moderatorGrants) (c : Call)
    (hk : s.KeepsPermission C p permission c) (h : s.HoldsAsModerator p permission) :
    (s.call C c).1.HoldsAsModerator p permission := by
  obtain ⟨err, hc⟩ | ⟨e, rfl, he, hc⟩ | ⟨peer, role, -, -, hc⟩ := call_cases C s c
  · rw [hc]
    exact h
  · rw [hc]
    refine holdsAsModerator_accept hg h fun ha ht hr => ?_
    refine hk e rfl ha ht hr ?_
    exact congrArg Prod.snd hc
  · rw [hc]
    exact holdsAsModerator_setRole hg h peer role

theorem holdsAsModerator_new {g : TopicId} {owner : PublicKey} :
    (new g owner).HoldsAsModerator p permission := by
  intro hr
  rw [new, roleOf_setRole] at hr
  split_ifs at hr
  · cases hr
  · simp [roleOf] at hr

end AuthorizationState

/-- **Exercised permissions.**  An event accepted from an actor other than the owner finds the actor
holding the permission that the event exercises, if no accepted event took that permission from the
actor while it was a moderator. -/
theorem exercised_permission_held (C : AuthorizationCrypto) (groupId : TopicId) (owner : PublicKey)
    (calls : List Call) (e : AuthorizationEvent)
    (hok : (((room C).exec (new groupId owner) calls).apply C e).2 = .ok ())
    (hactor : e.actor ≠ owner)
    (hkept : (room C).Along (KeepsPermission C e.actor e.action.exercises) (new groupId owner)
      calls) :
    ((room C).exec (new groupId owner) calls).allows e.actor e.action.exercises := by
  have hgo := governed_exec C groupId owner calls
  set s := (room C).exec (new groupId owner) calls with hs
  obtain ⟨err, her⟩ | ⟨he, -⟩ := apply_eq C s e
  · rw [her] at hok
    cases hok
  obtain ⟨actorRole, hr, ha⟩ := he.permitted
  have hne : actorRole ≠ .owner := by
    rintro rfl
    exact hactor ((hgo.valid.sole_owner _ hr).trans hgo.owner_eq)
  obtain ⟨rfl, hg⟩ := moderator_of_allowed ha hne
  have hh : s.HoldsAsModerator e.actor e.action.exercises :=
    Machine.exec_invariant_along hkept (holdsAsModerator_new)
      fun s c hc h => holdsAsModerator_call hg c hc h
  obtain ⟨held, hhe, hmem⟩ := hh hr
  have hm : e.actor ∈ s.members := AList.lookup_isSome.1 (Option.isSome_of_eq_some hr)
  simp [allows, isBanned, hm, he.unbanned, hhe, hmem]

/-- A moderator bans a guest. -/
theorem exercised_permission_held_ban :
    let moderator := Block.replicate 32 2
    let calls := [Call.admitMember moderator .moderator,
      Call.admitMember (Block.replicate 32 3) .guest]
    ((room .numbering).exec (new ⟨0⟩ (Block.replicate 32 1)) calls).allows moderator .ban :=
  exercised_permission_held .numbering ⟨0⟩ (Block.replicate 32 1) _
    (.numbered 1 (Block.replicate 32 2) (Block.replicate 32 3) .ban) (by decide) (by decide)
    ⟨fun _ h => (by cases h), fun _ h => (by cases h), trivial⟩

/-- The owner revokes the permission to ban of a moderator, and the moderator still bans.  The same
moderator, who does not hold the permission to manage roles either, grants permissions. -/
theorem revoked_moderator_bans :
    let owner := Block.replicate 32 1
    let moderator := Block.replicate 32 2
    let guest := Block.replicate 32 3
    let calls := [Call.admitMember moderator .moderator, Call.admitMember guest .guest,
      Call.apply (.numbered 1 owner moderator (.revoke .ban))]
    let s := (room .numbering).exec (new ⟨0⟩ owner) calls
    (s.allows moderator .ban = false ∧
        (s.apply .numbering (.numbered 2 moderator guest .ban)).2 = .ok ()) ∧
      s.allows moderator .manageRoles = false ∧
        (s.apply .numbering (.numbered 2 moderator guest (.grant .ban))).2 = .ok () := by
  decide

end Boru.Authorization
