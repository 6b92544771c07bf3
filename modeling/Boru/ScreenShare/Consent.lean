import Boru.LTS.History
import Boru.ScreenShare.Host

/-!
# Input needs the consent of the host

An input event may reach the backend only on the consent of the user: a grant of the capability that
nothing has withdrawn since.  The loop authorizes an input by the permissions of the session that
the viewer names, and the viewer can make itself the host of another session and grant itself
control there.  A grant for which no nonce can be drawn is a second way: it fails after the
capability has been added.

* `SessionManager.tame_applyRemote` : a message that grants no control only takes control away.
* `applied_of_consent` : in a run without such grants every event handed to the backend has the
  consent of the user.
-/

namespace Boru.ScreenShare

open History SessionPermissions SessionEvent

/-- The capability is granted and nothing has been withdrawn since. -/
def Consented (history : List HostEffect) (capability : Capability) : Prop :=
  Since (fun effect => ∃ capabilities, effect = .granted capabilities ∧ capability ∈ capabilities)
    (· = .withdrawn) history

/-- Every event handed to the backend had the user's consent at that time. -/
def ConsentedInput (history : List HostEffect) : Prop :=
  Each (fun before effect => ∀ event, effect = .applied event →
    Consented before event.capability) history

/-- Whether a grant gives control that has not been granted yet. -/
def SessionPermissions.gains (capabilities : List Capability) (p : SessionPermissions) : Bool :=
  p.active && capabilities.any fun c => c.isControl && !p.granted.contains c

/-- Whether the viewer grants itself control, as the recorded host of a session, or the user grants
control without a nonce. -/
def Host.overreaches (c : HostConfig) (h : Host) : HostInput → Bool
  | .frame _ (.grantControl _ id capabilities _) _ =>
    (h.manager.hostPermissions c.peer id).any (gains capabilities)
  | .command _ none (.grantControl capabilities) =>
    (h.manager.permissions.lookup c.sessionId).any (gains capabilities)
  | _ => false

namespace SessionPermissions

variable {p : SessionPermissions} {capabilities : List Capability} {cap : Capability}

/-- What a grant that gives no control adds does not control the input. -/
theorem mem_of_not_gains (h : ¬ p.gains capabilities = true)
    (hca : cap ∈ p.granted ∨ p.active ∧ cap ∈ capabilities) (hco : cap.isControl = true) :
    cap ∈ p.granted := by
  obtain hca | ⟨ha, hca⟩ := hca
  · exact hca
  · by_contra hnot
    refine h ?_
    rw [gains, Bool.and_eq_true, List.any_eq_true]
    exact ⟨ha, cap, hca, by simp [hco, hnot]⟩

end SessionPermissions

namespace SessionManager

variable {m : SessionManager} {o : Outcome} {id : SessionId} {peer : PublicKey}

/-- After the outcome a session has no control, or the control it had and no event takes away. -/
def Tame (m : SessionManager) (o : Outcome) : Prop :=
  ∀ id p', o.manager.permissions.lookup id = some p' →
    p'.NoControl ∨ ∃ p, m.permissions.lookup id = some p ∧
      (∀ cap ∈ p'.granted, cap.isControl = true → cap ∈ p.granted) ∧
      o.events.any (withdraws id) = false

/-- The permissions are as before, and no event takes any away. -/
theorem Tame.of_keep (hk : o.manager.permissions = m.permissions)
    (hev : ∀ id, o.events.any (withdraws id) = false) : m.Tame o := by
  intro id p' hp'
  rw [hk] at hp'
  exact .inr ⟨p', hp', fun _ h _ => h, hev id⟩

theorem tame_idle : m.Tame m.idle := .of_keep rfl fun _ => rfl

/-- One session loses control; the events are about it only. -/
theorem Tame.of_drop (hid : ∀ p', o.manager.permissions.lookup id = some p' → p'.NoControl)
    (hne : ∀ id', id' ≠ id → o.manager.permissions.lookup id' = m.permissions.lookup id')
    (hev : ∀ id', id' ≠ id → o.events.any (withdraws id') = false) : m.Tame o := by
  intro id' p' hp'
  by_cases h : id' = id
  · exact .inl (hid p' (h ▸ hp'))
  · exact .inr ⟨p', hne id' h ▸ hp', fun _ h _ => h, hev id' h⟩

theorem lookup_permissions_mapPermissions {f : SessionPermissions → SessionPermissions}
    (id' : SessionId) :
    (m.mapPermissions id f).permissions.lookup id' =
      if id' = id then (m.permissions.lookup id).map f else m.permissions.lookup id' := by
  unfold mapPermissions
  split
  next hnone =>
    split
    next h => rw [h, hnone]; rfl
    · rfl
  next p hp =>
    split
    next h => rw [h, hp]; exact AList.lookup_insert _
    next h => exact AList.lookup_insert_ne h

variable {events : List SessionEvent} {message : Option ControlMessage}

/-- Changing a record and resetting the permissions of its session. -/
theorem Tame.of_mapPermissions {record : SessionRecord}
    {f : SessionPermissions → SessionPermissions} (hf : ∀ p, (f p).NoControl)
    (hev : ∀ id', id' ≠ id → events.any (withdraws id') = false) :
    m.Tame ⟨(m.setRecord id record).mapPermissions id f, events, message⟩ := by
  refine .of_drop (fun p' hp' => ?_) (fun id' h => ?_) hev
  · rw [lookup_permissions_mapPermissions, if_pos rfl] at hp'
    obtain ⟨p, -, rfl⟩ := Option.map_eq_some_iff.1 hp'
    exact hf p
  · rw [lookup_permissions_mapPermissions, if_neg h]
    rfl

theorem Tame.of_setPermissions {ses : HashMap SessionId SessionRecord} {p : SessionPermissions}
    (hp : p.NoControl) (hev : ∀ id', id' ≠ id → events.any (withdraws id') = false) :
    m.Tame ⟨setPermissions ⟨ses, m.permissions⟩ id p, events, message⟩ := by
  refine .of_drop (fun p' hp' => ?_) (fun id' h => AList.lookup_insert_ne h) hev
  obtain rfl := HashMap.eq_of_lookup_insert hp'
  exact hp

theorem Tame.of_forget (hev : ∀ id', id' ≠ id → events.any (withdraws id') = false) :
    m.Tame ⟨m.forget id, events, message⟩ := by
  refine .of_drop (fun p' hp' => ?_) (fun id' h => AList.lookup_erase_ne h) hev
  rw [forget, AList.lookup_erase] at hp'
  cases hp'

/-! ### Messages of the viewer -/

theorem tame_applyHello (hello : Hello) : m.Tame (m.applyHello peer hello) := by
  unfold applyHello
  split
  · exact .of_keep rfl fun _ => rfl
  split
  · exact .of_keep rfl fun _ => rfl
  split
  · exact .of_keep rfl fun _ => rfl
  split
  · split
    · exact .of_mapPermissions noControl_revokeControl fun id' h => by
        simp [withdraws, controlLost, h.symm]
    · exact .of_keep rfl fun _ => rfl
  · exact .of_setPermissions (noControl_viewOnly _ _) fun _ _ => rfl

theorem tame_applyAccept : m.Tame (m.applyAccept peer id) := by
  unfold applyAccept
  split
  · exact tame_idle
  split
  · refine .of_setPermissions (noControl_viewOnly _ _) fun id' _ => ?_
    split <;> rfl
  · exact tame_idle

variable {now : Instant}

theorem tame_applyGrantControl {capabilities : List Capability} {nonce : Nonce}
    (h : ¬ (m.hostPermissions peer id).any (gains capabilities) = true) :
    m.Tame (m.applyGrantControl now peer id capabilities nonce) := by
  unfold applyGrantControl
  split
  · exact tame_idle
  next p hp =>
    rw [hp] at h
    intro id' p' hp'
    refine .inr ?_
    have hev : ∀ id', [controlChanged id true capabilities].any
        (withdraws id') = false := fun id' => by simp [withdraws]
    obtain ⟨rfl, rfl⟩ | ⟨-, hp'⟩ := HashMap.lookup_insert_cases hp'
    · have hl : m.permissions.lookup id' = some p := by
        unfold hostPermissions at hp
        split at hp
        · exact (Option.filter_eq_some_iff.1 hp).1
        · cases hp
      exact ⟨p, hl, fun cap hca => mem_of_not_gains h (mem_grantWithNonce hca), hev id'⟩
    · exact ⟨p', hp', fun _ h _ => h, hev id'⟩

theorem tame_applyReject (reason : String) : m.Tame (m.applyReject peer id reason) := by
  unfold applyReject
  split
  · exact .of_forget fun _ _ => rfl
  split
  · exact tame_idle
  · exact .of_forget fun id' h => by simp [withdraws, h.symm]

theorem tame_applyEndSession : m.Tame (m.applyEndSession peer id) := by
  unfold applyEndSession
  split
  · exact tame_idle
  split
  · exact tame_idle
  split
  · exact tame_idle
  · exact .of_mapPermissions noControl_finish fun id' h => by
      simp [withdraws, h.symm]

/-- A message that is not a grant of control only takes control away. -/
theorem tame_applyRemote {message : ControlMessage}
    (h : ∀ ver id capabilities nonce, message = .grantControl ver id capabilities nonce →
      ¬ (m.hostPermissions peer id).any (gains capabilities) = true) :
    m.Tame (m.applyRemote now peer message) := by
  cases message with
  | hello hello => exact tame_applyHello hello
  | accept ver id => exact tame_applyAccept
  | reject ver id reason => exact tame_applyReject reason
  | endSession ver id => exact tame_applyEndSession
  | requestControl ver id capabilities =>
    simp only [applyRemote, applyRequestControl]
    split
    · exact tame_idle
    split
    · exact .of_keep rfl fun _ => rfl
    · exact tame_idle
  | grantControl ver id capabilities nonce =>
    exact tame_applyGrantControl (h ver id capabilities nonce rfl)
  | revokeControl ver id =>
    simp only [applyRemote, applyRevokeControl]
    split
    · exact tame_idle
    · exact .of_setPermissions (noControl_revokeControl _) fun id' h => by
        simp [withdraws, controlLost, h.symm]
  | input ver id input => exact tame_idle

/-! ### What the host does itself -/

theorem tame_revokeControl : m.Tame (m.revokeControl id) := by
  unfold revokeControl
  split
  · exact tame_idle
  · exact .of_setPermissions (noControl_revokeControl _) fun id' h => by
      simp [withdraws, controlLost, h.symm]

theorem tame_beginReconnect : m.Tame (m.beginReconnect id).1 := by
  unfold beginReconnect
  split
  · exact tame_idle
  split
  · exact tame_idle
  · exact .of_mapPermissions noControl_revokeControl fun id' h => by
      simp [withdraws, controlLost, h.symm]

theorem tame_completeReconnect : m.Tame (m.completeReconnect id).1 := by
  unfold completeReconnect
  split
  · exact tame_idle
  split
  · exact tame_idle
  · exact .of_keep rfl fun _ => rfl

theorem tame_failReconnect : m.Tame (m.failReconnect id).1 := by
  unfold failReconnect
  split
  · exact tame_idle
  split
  · exact tame_idle
  · exact .of_mapPermissions noControl_finish fun id' h => by
      simp [withdraws, h.symm]

/-- What a grant of the user leaves of other sessions and adds to this one. -/
theorem lookup_grantControlWithPolicy {capabilities : List Capability} {pol : PermissionHook}
    {nonce : Option Nonce} {id' : SessionId} {p' : SessionPermissions}
    (hp' : (m.grantControlWithPolicy id capabilities pol nonce now).manager.permissions.lookup
      id' = some p') :
    m.permissions.lookup id' = some p' ∨ id' = id ∧ ∃ p, m.permissions.lookup id = some p ∧
      p' = (p.grantWithPolicy capabilities pol nonce now).1 ∧
      ((m.grantControlWithPolicy id capabilities pol nonce now).message.isSome ∨
        ((p.grantWithPolicy capabilities pol nonce now).2 = true → p'.token = none)) := by
  unfold grantControlWithPolicy at hp' ⊢
  split at hp'
  · exact .inl hp'
  next p hp =>
    rw [hp]
    dsimp only at hp' ⊢
    -- whether or not there is a message, the permissions of the session are replaced
    have hr : ∀ o : Outcome, o.manager = m.setPermissions id
        (p.grantWithPolicy capabilities pol nonce now).1 →
        o.manager.permissions.lookup id' = some p' →
        m.permissions.lookup id' = some p' ∨ id' = id ∧
          p' = (p.grantWithPolicy capabilities pol nonce now).1 := by
      intro o ho hl
      rw [ho] at hl
      obtain ⟨hid, heq⟩ | ⟨-, hol⟩ := HashMap.lookup_insert_cases hl
      · exact .inr ⟨hid, heq.symm⟩
      · exact .inl hol
    split at hp'
    next hf =>
      obtain h | ⟨h, heq⟩ := hr _ rfl hp'
      · exact .inl h
      · exact .inr ⟨h, p, rfl, heq, .inr fun hok => absurd hok hf⟩
    next hok =>
      rw [if_neg hok]
      split at hp'
      next ht =>
        obtain h | ⟨h, heq⟩ := hr _ rfl hp'
        · exact .inl h
        · exact .inr ⟨h, p, rfl, heq, .inr fun _ => heq ▸ ht⟩
      next token ht =>
        obtain h | ⟨h, heq⟩ := hr _ rfl hp'
        · exact .inl h
        · exact .inr ⟨h, p, rfl, heq, .inl rfl⟩

end SessionManager

theorem InputEventKind.isControl_capability (kind : InputEventKind) :
    kind.capability.isControl = true := by cases kind <;> rfl

/-! ### The loop -/

/-- The control that the viewer has in the loop's session has the consent of the user, and it has
none in other sessions. -/
structure Consistent (c : HostConfig) (m : SessionManager) (history : List HostEffect) : Prop where
  own : ∀ p, m.permissions.lookup c.sessionId = some p →
    ∀ cap ∈ p.granted, cap.isControl = true → Consented history cap
  others : ∀ id p, id ≠ c.sessionId → m.permissions.lookup id = some p → p.NoControl
  input : ConsentedInput history

section Loop

variable {c : HostConfig} {m : SessionManager} {h : Host} {log : List HostEffect}

theorem ConsentedInput.append_withdrawals (hh : ConsentedInput log) (o : Outcome) :
    ConsentedInput (log ++ Host.withdrawals c o) := by
  unfold Host.withdrawals
  split
  · exact hh.snoc nofun
  · rwa [List.append_nil]

theorem Consistent.of_tame {o : Outcome} (hc : Consistent c m log) (ho : m.Tame o) :
    Consistent c o.manager (log ++ Host.withdrawals c o) where
  own p' hp' cap hca hco := by
    obtain hno | ⟨p, hp, hsub, hev⟩ := ho _ p' hp'
    · rw [hno cap hca] at hco
      cases hco
    · have hout : Host.withdrawals c o = [] := if_neg (Bool.eq_false_iff.1 hev)
      rw [hout, List.append_nil]
      exact hc.own p hp cap (hsub cap hca hco) hco
  others id p' hid hp' := by
    obtain hno | ⟨p, hp, hsub, -⟩ := ho id p' hp'
    · exact hno
    · intro cap hca
      by_contra hco
      rw [Bool.not_eq_false] at hco
      exact absurd (hc.others id p hid hp cap (hsub cap hca hco)) (by simp [hco])
  input := hc.input.append_withdrawals o

theorem Consistent.append_nil (hc : Consistent c m log) : Consistent c m (log ++ []) := by
  rwa [List.append_nil]

variable {now : Instant}

theorem consistent_applyRemote {message : ControlMessage} {r : Bool}
    (hg : h.overreaches c (.frame now message r) = false)
    (hc : Consistent c h.manager log) :
    Consistent c (h.applyRemote c now message).1.manager
      (log ++ (h.applyRemote c now message).2) := by
  refine hc.of_tame (SessionManager.tame_applyRemote ?_)
  rintro ver id capabilities nonce rfl
  exact Bool.eq_false_iff.1 hg

theorem consistent_revoke (hc : Consistent c h.manager log) :
    Consistent c (h.revoke c).1.manager (log ++ (h.revoke c).2) where
  own p' hp' cap hcap hco := by
    have hno : p'.NoControl := by
      simp only [Host.revoke, SessionManager.revokeControl] at hp'
      split at hp'
      next hnone =>
        rw [SessionManager.idle, hnone] at hp'
        cases hp'
      next p _ =>
        obtain rfl := HashMap.eq_of_lookup_insert hp'
        exact p.noControl_revokeControl
    rw [hno cap hcap] at hco
    cases hco
  others := (hc.of_tame SessionManager.tame_revokeControl).others
  input := hc.input.snoc nofun

theorem consistent_grant {capabilities : List Capability} {pol : PermissionHook}
    {nonce : Option Nonce}
    (hn : nonce = none → ∀ p, h.manager.permissions.lookup c.sessionId = some p →
      ¬ p.gains capabilities = true)
    (hc : Consistent c h.manager log) :
    Consistent c (h.grant c capabilities pol nonce now).1.manager
      (log ++ (h.grant c capabilities pol nonce now).2) where
  own p' hp' cap hca hco := by
    -- what was granted before keeps its consent, since a grant withdraws nothing
    have ho : ∀ p, h.manager.permissions.lookup c.sessionId = some p → cap ∈ p.granted →
        Consented (log ++ (h.grant c capabilities pol nonce now).2) cap := by
      intro p hp hca
      refine (hc.own p hp cap hca hco).append ?_
      simp only [Host.grant]
      split <;> simp
    obtain hs | ⟨-, p, hp, rfl, hm⟩ := SessionManager.lookup_grantControlWithPolicy hp'
    · exact ho p' hs hca
    · have hmem := mem_grantWithPolicy hca
      obtain hso | hf := hm
      · obtain hca | ⟨-, hca⟩ := hmem
        · exact ho p hp hca
        · rw [Host.grant, if_pos hso]
          exact Since.of_last ⟨capabilities, rfl, hca⟩
      · cases nonce with
        | none =>
          have hnot := hn rfl p hp
          exact ho p hp (mem_of_not_gains hnot hmem hco)
        | some nonce =>
          rw [grantWithPolicy_granted hf] at hca
          exact ho p hp hca
  others id p' hid hp' := by
    obtain hs | ⟨heq, -⟩ := SessionManager.lookup_grantControlWithPolicy hp'
    · exact hc.others id p' hid hs
    · exact absurd heq hid
  input := by
    simp only [Host.grant]
    split
    · exact hc.input.snoc nofun
    · simpa using hc.input

theorem consistent_reconnectMedia (r : Bool) (hc : Consistent c h.manager log) :
    Consistent c (h.reconnectMedia c r).1.manager (log ++ (h.reconnectMedia c r).2) := by
  have hb := hc.of_tame (o := (h.manager.beginReconnect c.sessionId).1)
    SessionManager.tame_beginReconnect
  unfold Host.reconnectMedia
  dsimp only
  split
  · exact hc.append_nil
  split
  · rw [← List.append_assoc]
    exact hb.of_tame SessionManager.tame_completeReconnect
  · rw [← List.append_assoc]
    exact hb.of_tame SessionManager.tame_failReconnect

/-- An event is applied only by the permissions of the session that the viewer names. -/
theorem applyInput_cases {id : SessionId} {i : InputMessage} :
    (h.applyInput c now id i).1.manager = h.manager ∧
      ((h.applyInput c now id i).2 = [] ∨ ∃ ev p,
        (h.applyInput c now id i).2 = [.applied ev] ∧ ev.capability = i.kind.capability ∧
        h.manager.permissions.lookup id = some p ∧ i.kind.capability ∈ p.granted) := by
  unfold Host.applyInput
  dsimp only
  split
  · exact ⟨rfl, .inl rfl⟩
  next ha =>
    obtain ⟨p, hp, ha⟩ : ∃ p, h.manager.permissions.lookup id = some p ∧
        p.authorizeNonce id c.peer i.kind.capability i.nonce now = true := by
      cases hp : h.manager.permissions.lookup id with
      | none =>
        rw [hp] at ha
        exact absurd Bool.false_ne_true ha
      | some p =>
        rw [hp] at ha
        exact ⟨p, rfl, not_not.1 ha⟩
    simp only [authorizeNonce, allows, Bool.and_eq_true, List.contains_iff_mem] at ha
    have hmem := ha.1.2
    split
    · exact ⟨rfl, .inl rfl⟩
    split
    · exact ⟨rfl, .inl rfl⟩
    split
    · split
      · exact ⟨rfl, .inl rfl⟩
      · exact ⟨rfl, .inr ⟨_, p, rfl, rfl, hp, hmem⟩⟩
    · exact ⟨rfl, .inr ⟨_, p, rfl, rfl, hp, hmem⟩⟩

theorem consistent_applyInput {id : SessionId} {i : InputMessage}
    (hc : Consistent c h.manager log) :
    Consistent c (h.applyInput c now id i).1.manager (log ++ (h.applyInput c now id i).2) := by
  obtain ⟨hm, hout⟩ := @applyInput_cases c h now id i
  rw [hm]
  obtain hout | ⟨ev, p, hout, hca, hp, hmem⟩ := hout
  · rw [hout]
    exact hc.append_nil
  · rw [hout]
    have hco := i.kind.isControl_capability
    -- a session that authorizes an input can only be the loop's own
    have hid : id = c.sessionId := by
      by_contra hne
      rw [hc.others id p hne hp _ hmem] at hco
      cases hco
    subst hid
    have hcn := hc.own p hp _ hmem hco
    refine ⟨fun p hp cap hca hco => (hc.own p hp cap hca hco).append (by simp),
      hc.others, hc.input.snoc ?_⟩
    rintro event' ⟨⟩
    rwa [hca]

theorem settle_manager (message : Bool) : (h.settle c message).manager = h.manager := by
  unfold Host.settle
  split
  · split <;> rfl
  · rfl
  · rfl
  · rfl

theorem grantControl_not_gains {nonce : Option Nonce} {capabilities : List Capability}
    (hg : h.overreaches c (.command now nonce (.grantControl capabilities)) = false)
    (hn : nonce = none) (p : SessionPermissions)
    (hp : h.manager.permissions.lookup c.sessionId = some p) : ¬ p.gains capabilities = true := by
  subst hn
  simpa [Host.overreaches, hp] using hg

variable {input : HostInput}

section

variable (hg : h.overreaches c input = false) (hc : Consistent c h.manager log)

include hg hc

theorem consistent_negotiate :
    Consistent c (h.negotiate c input).1.manager (log ++ (h.negotiate c input).2) := by
  unfold Host.negotiate
  split
  · split
    · exact hc.append_nil
    · rw [settle_manager]
      exact consistent_applyRemote hg hc
  · rw [settle_manager]
    exact consistent_grant (grantControl_not_gains hg) hc
  · rw [settle_manager]
    exact consistent_revoke hc
  all_goals first
    | exact hc.append_nil
    | rw [settle_manager]
      exact hc.append_nil

theorem consistent_stream :
    Consistent c (h.stream c input).1.manager (log ++ (h.stream c input).2) := by
  unfold Host.stream
  split
  · split
    · exact consistent_reconnectMedia _ hc
    split
    · exact consistent_applyInput hc
    · have hr := consistent_applyRemote hg hc
      dsimp only
      split <;> exact hr
  · exact consistent_reconnectMedia _ hc
  · exact consistent_reconnectMedia _ hc
  · exact consistent_grant (grantControl_not_gains hg) hc
  · exact consistent_revoke hc
  · split
    · refine consistent_grant (fun _ p _ => ?_) hc
      simp [gains, Capability.isControl]
    · exact hc.append_nil
  all_goals exact hc.append_nil

theorem consistent_step : Consistent c (h.step c input).1.manager (log ++ (h.step c input).2) := by
  unfold Host.step
  split
  · exact consistent_negotiate hg hc
  · exact consistent_stream hg hc
  · exact hc.append_nil

end

theorem consistent_new : Consistent c (Host.new c).manager [] := by
  have hn : ∀ id, (Host.new c).manager.permissions.lookup id = none := fun id => by
    simp only [Host.new, SessionManager.startInvitation]
    split <;> rfl
  refine ⟨fun p hp => ?_, fun id p _ hp => ?_, each_nil⟩
  · rw [hn] at hp
    cases hp
  · rw [hn] at hp
    cases hp

end Loop

/-- **Input needs consent.**  In a run of a host session in which the viewer, as the recorded host
of a session, grants itself no control and the user grants none without a nonce, every event handed
to the backend needs a capability that the user has granted to the session, with no revocation,
reconnect or end since. -/
theorem applied_of_consent (c : HostConfig) (inputs : List HostInput)
    (h : (hostMachine c).Along (fun h input => h.overreaches c input = false) (Host.new c) inputs) :
    ConsentedInput ((hostMachine c).trace (Host.new c) inputs) := by
  have hr := Machine.trace_invariant_along (P := fun h history => Consistent c h.manager history)
    h (consistent_new) fun h history input hg hc => consistent_step hg hc
  exact hr.input

/-- A host session without a room policy. -/
def shareConfig : HostConfig where
  peer := GroupEncryption.Block.replicate 32 2
  localPublic := GroupEncryption.Block.replicate 32 1
  sessionId := GroupEncryption.Block.replicate 16 1
  conversationId := 0
  permissionHook := unmanagedRoomPermissionHook
  normalizeToCapture := fun _ _ => none

/-- The viewer presses a key in a session, with the nonce of a grant. -/
def keyFrame (id : SessionId) (nonce : Nonce) : HostInput :=
  .frame 0 (.input protocolVersion id
    { nonce := nonce, kind := .key, code := 65, x := .finite 0, y := .finite 0, pressed := true
      modifiers := 0 }) false

/-- The viewer accepts, the user grants a capability, and the viewer goes on with `rest`. -/
def shareRun (capability : Capability) (rest : List HostInput) : List HostInput :=
  .frame 0 (.accept protocolVersion shareConfig.sessionId) false ::
    .command 0 (some (GroupEncryption.Block.replicate 16 7)) (.grantControl [capability]) :: rest

/-- The key that the viewer presses after a grant of the keyboard reaches the backend. -/
theorem granted_key_applied :
    ConsentedInput ((hostMachine shareConfig).trace (Host.new shareConfig)
      (shareRun .controlKeyboard
        [keyFrame shareConfig.sessionId (GroupEncryption.Block.replicate 16 7)])) ∧
    ∃ event, .applied event ∈ (hostMachine shareConfig).trace (Host.new shareConfig)
      (shareRun .controlKeyboard
        [keyFrame shareConfig.sessionId (GroupEncryption.Block.replicate 16 7)]) :=
  ⟨applied_of_consent shareConfig _ (by decide),
    ⟨.key, 65, .controlKeyboard, 0, 0, true, 0⟩, by decide⟩

def viewerSession : SessionId := GroupEncryption.Block.replicate 16 2

/-- The viewer invites the host to a session of its own, grants itself the keyboard there and
presses a key. -/
def selfGrant : List HostInput :=
  [.frame 0 (.hello
      { version := protocolVersion, sessionId := viewerSession, hostId := shareConfig.peer
        conversationId := 0, codecs := [], width := 640, height := 480, frameRate := 30
        permission := .viewOnly }) false,
    .frame 0 (.grantControl protocolVersion viewerSession [.controlKeyboard]
      (GroupEncryption.Block.replicate 16 9)) false,
    keyFrame viewerSession (GroupEncryption.Block.replicate 16 9)]

/-- The user has granted the pointer only, and the viewer's key reaches the backend. -/
theorem self_granted_key_applied :
    ¬ ConsentedInput ((hostMachine shareConfig).trace (Host.new shareConfig)
      (shareRun .controlPointer selfGrant)) := by
  have ht : (hostMachine shareConfig).trace (Host.new shareConfig)
      (shareRun .controlPointer selfGrant) = [.granted [.controlPointer]] ++
        .applied ⟨.key, 65, .controlKeyboard, 0, 0, true, 0⟩ :: [] := by
    decide
  intro h
  obtain ⟨pre, effect, post, heq, ⟨capabilities, rfl, hmem⟩, -⟩ := h _ _ _ ht _ rfl
  have hgr : HostEffect.granted capabilities ∈ [HostEffect.granted [.controlPointer]] := by
    rw [heq]
    simp
  obtain ⟨rfl⟩ := List.mem_singleton.1 hgr
  cases List.mem_singleton.1 hmem

end Boru.ScreenShare
