import Boru.Call.Isolation

/-!
# Terminal events

A call that is terminated should be removed and reported once, and nothing should be reported about
it later, unless a new call takes its id.

The manager remembers every id for which it has reserved a terminal event, for ever.  So a call that
takes an id used before is never terminated: it is only marked, and stays.  Reports about the media
state, and about a call that cannot be started, are made for any id that is named, whether or not
there is such a call.

* `Manager.handle_ending` : what a command that terminates calls does to them.
* `Manager.handle_steady` : what every other command does.
* `terminates_once_iff` : the runs in which every step handles terminations properly.
-/

namespace Boru.Call

open List Manager

open GroupEncryption (Block)

def Effect.terminal : Effect → Option CallId
  | .emit (.ended callId _) => some callId
  | .emit (.failed callId _) => callId
  | _ => none

attribute [simp] Effect.terminal

theorem Effect.reported_of_terminal {e : Effect} {c : CallId} (h : e.terminal = some c) :
    e.reported = some c := by
  unfold terminal at h
  split at h
  · exact h
  · exact h
  · cases h

theorem Effect.terminal_of_not_reported {e : Effect} (h : e.reported = none) :
    e.terminal = none := by
  refine Option.eq_none_iff_forall_ne_some.2 fun c hc => ?_
  rw [reported_of_terminal hc] at h
  cases h

/-- The terminal events of a call among the effects. -/
def terminalCount (effects : List Effect) (callId : CallId) : ℕ :=
  (effects.filterMap Effect.terminal).count callId

theorem terminalCount_append (l l' : List Effect) (c : CallId) :
    terminalCount (l ++ l') c = terminalCount l c + terminalCount l' c := by
  simp [terminalCount, count_append]

/-- Effects that report nothing about a call have no terminal event of it. -/
theorem terminalCount_eq_zero {ef : List Effect} {c : CallId}
    (h : ∀ e ∈ ef, e.reported ≠ some c) : terminalCount ef c = 0 := by
  refine count_eq_zero.2 fun hmem => ?_
  obtain ⟨e, he, ht⟩ := mem_filterMap.1 hmem
  exact h e he (Effect.reported_of_terminal ht)

def Command.Ends : Command → Prop
  | .control _ (.reject _ _) _ | .control _ (.busy _) _ | .control _ (.hangup _ _) _ | .reject _
  | .negotiationTimeout _ | .terminate _ _ _ | .revokePeer _ | .connectionClosed _
  | .shutdown => True
  | _ => False

namespace Manager

/-- The command terminates the call, with its own generation or with generation zero. -/
def Terminates (now : Instant) (c : CallId) (call : CallState) : Command → Prop
  | .control _ (.reject callId _) _ | .control _ (.busy callId) _ | .control _ (.hangup callId _) _
  | .reject callId => c = callId
  | .negotiationTimeout callId => c = callId ∧ (call.session.expire now).isSome
  | .terminate callId generation _ => c = callId ∧ generationMatches call.generation generation
  | .revokePeer peer | .connectionClosed peer => call.peer = peer
  | .shutdown => True
  | _ => False

/-- The command reports the media state of the call, whether or not the call exists. -/
def ReportsMedia (m : Manager) (c : CallId) : Command → Prop
  | .control _ (.mediaState callId _ _) _ | .setCameraEnabled callId _ => c = callId
  | .setMuted callId muted => c = callId ∧ (m.mediaState.getD callId (false, false)).1 ≠ muted
  | _ => False

def FailsToStart (m : Manager) (order : List CallId) (c : CallId) : Command → Prop
  | .start callId peer _ connection => c = callId ∧
    (((m.iter order).any fun e => e.2.isActive || e.2.peer = peer) ∨ connection = none)
  | _ => False

end Manager

/-- The manager, and the calls that have been reported as ended and not been created since. -/
structure Audit where
  manager : Manager
  finished : Finset CallId

namespace Audit

def spawn (localPeer : PublicKey) : Audit := ⟨.spawn localPeer, ∅⟩

/-- One step of the manager, and what it reports. -/
def next (w : Audit) (i : Input) : Audit where
  manager := (actor.step w.manager i).1
  finished := (w.finished ∪ ((actor.step w.manager i).2.filterMap Effect.terminal).toFinset.filter
      fun c => (w.manager.calls.lookup c).isSome) \
    ((actor.step w.manager i).2.filterMap Effect.created).toFinset

/-- The step handles terminations properly: a call that is terminated is removed and reported once,
a call that is not is not reported as ended, and nothing is reported about a call that is over,
unless it is created anew. -/
structure Proper (w : Audit) (i : Input) : Prop where
  ends : ∀ c call, w.manager.stopped = false → w.manager.calls.lookup c = some call →
    Manager.Terminates i.now c call i.command →
    terminalCount (actor.step w.manager i).2 c = 1 ∧
      (actor.step w.manager i).1.calls.lookup c = none
  stays : ∀ c call, w.manager.calls.lookup c = some call →
    ¬ Manager.Terminates i.now c call i.command →
    terminalCount (actor.step w.manager i).2 c = 0
  silent : ∀ c ∈ w.finished, (∀ e ∈ (actor.step w.manager i).2, e.created ≠ some c) →
    ∀ e ∈ (actor.step w.manager i).2, e.reported ≠ some c

/-- What keeps a step from handling terminations properly: it terminates a call whose id was
terminated before, it fails to start a call of an id that is used or over, or it reports the media
state of a call that is over. -/
def Repeats (w : Audit) (i : Input) : Prop :=
  w.manager.stopped = false ∧
    ((∃ c call, w.manager.calls.lookup c = some call ∧
        Manager.Terminates i.now c call i.command ∧ c ∈ w.manager.terminalCalls) ∨
      (∃ c, w.manager.FailsToStart i.order c i.command ∧
        ((w.manager.calls.lookup c).isSome ∨ c ∈ w.finished)) ∨
      ∃ c ∈ w.finished, w.manager.ReportsMedia c i.command)

end Audit

def audited : Machine Audit Input Effect where
  step w i := (w.next i, (actor.step w.manager i).2)

/-! ### Terminations -/

namespace Manager

variable {m m' : Manager} {c callId : CallId} {call : CallState} {r r' : Reaction}

/-- Calls that are marked have a terminal event reserved. -/
def Reserved (m : Manager) : Prop :=
  ∀ c call, m.calls.lookup c = some call → call.ending → c ∈ m.terminalCalls

variable {call' : CallState}

theorem Reserved.setCall (hm : m.Reserved) (h : call'.ending → callId ∈ m.terminalCalls) :
    (m.setCall callId call').Reserved := by
  intro c z hz hen
  obtain ⟨rfl, rfl⟩ | ⟨-, hz⟩ := HashMap.lookup_insert_cases hz
  · exact h hen
  · exact hm c z hz hen

/-- A call may change as long as its mark does not. -/
theorem Reserved.update (hm : m.Reserved) (hc : m.calls.lookup callId = some call)
    (hen : call'.ending = call.ending) :
    (m.setCall callId call').Reserved :=
  hm.setCall fun h => hm callId call hc (hen ▸ h)

/-- The step terminates some of the calls, and reports nothing about others. -/
structure Ending (m : Manager) (r : Reaction) (ended : CallId → Prop) : Prop where
  ends : ∀ c, ended c → c ∉ m.terminalCalls →
    terminalCount r.2 c = 1 ∧ r.1.calls.lookup c = none ∧ c ∈ r.1.terminalCalls
  fails : ∀ c, ended c → c ∈ m.terminalCalls → ∀ e ∈ r.2, e.reported ≠ some c
  absent : ∀ c, m.calls.lookup c = none → r.1.calls.lookup c = none
  others : ∀ c, ¬ ended c → ∀ e ∈ r.2, e.reported ≠ some c
  grows : m.terminalCalls ⊆ r.1.terminalCalls
  only : ∀ c ∈ r.1.terminalCalls, c ∈ m.terminalCalls ∨ ended c
  reserved : r.1.Reserved

variable {ended : CallId → Prop}

theorem Ending.congr {ended' : CallId → Prop} (h : Ending m r ended)
    (hi : ∀ c, ended c ↔ ended' c) : Ending m r ended' := by
  obtain rfl : ended = ended' := funext fun c => propext (hi c)
  exact h

/-- A step that terminates nothing. -/
theorem ending_nil (hm : m.Reserved) : Ending m (m, []) fun _ => False where
  ends c h := h.elim
  fails c h := h.elim
  absent c h := h
  others c _ := by simp
  grows := Finset.Subset.refl _
  only c hc := .inl hc
  reserved := hm

variable (rs : HangupReason) (np : Bool) (fr : Option CallError)

/-- Terminating one call with a generation that matches. -/
theorem ending_of_matches (hm : m.Reserved) {generation : UInt64}
    (hca : m.calls.lookup callId = some call) (hg : generationMatches call.generation generation) :
    Ending m (m.terminateCallInner callId generation rs np fr) (· = callId) := by
  have ht := touches_terminateCallInner rs np fr m callId generation
  have hq := m.quiet_terminateCallInner callId generation rs np fr
  have ho : ∀ c, c ≠ callId →
      ∀ e ∈ (m.terminateCallInner callId generation rs np fr).2, e.reported ≠ some c := by
    intro c hne e he hr
    obtain h | h := ht.effects e he <;> rw [h] at hr
    · cases hr
    · exact hne (Option.some.inj hr).symm
  have ha := fun c => (hq.calls c).eq_none
  by_cases hed : m.Ends callId call
  · have hte := terminateCallInner_of_ends rs np fr hca hg hed
    rw [hte] at ho ha ⊢
    refine ⟨?_, ?_, ha, ho, Finset.subset_insert _ _, fun c hc => ?_, fun c z hz hen => ?_⟩
    · rintro c rfl -
      cases np <;> cases fr <;>
        simp [terminalCount, terminalEvent, filterMap_cons]
    · rintro c rfl hmem
      exact absurd hmem hed.2
    · simpa [or_comm] using hc
    · obtain ⟨hne, hz⟩ := HashMap.lookup_of_erase hz
      rw [AList.lookup_insert_ne hne] at hz
      exact Finset.mem_insert_of_mem (hm c z hz hen)
  · -- the call was marked before, or a terminal event was reserved for its id
    have hmem : callId ∈ m.terminalCalls := by
      by_contra hnot
      refine hed ⟨?_, hnot⟩
      by_contra hen
      exact hnot (hm callId call hca (by simpa using hen))
    have he' : ∀ c, c = callId → c ∉ m.terminalCalls → False := by
      rintro c rfl hnot
      exact hnot hmem
    obtain h | h := terminateCallInner_of_not_ends rs np fr hca hed <;> rw [h] at ho ha ⊢
    · exact ⟨fun c hc hnot => (he' c hc hnot).elim, by simp, ha, ho,
        Finset.Subset.refl _, fun c hc => .inl hc, hm⟩
    · exact ⟨fun c hc hnot => (he' c hc hnot).elim, by simp, ha, ho,
        Finset.Subset.refl _, fun c hc => .inl hc, hm.setCall fun _ => hmem⟩

/-- Terminating the call of an id, if there is one and the generation matches. -/
theorem ending_terminateCallInner (hm : m.Reserved) (callId : CallId) (generation : UInt64) :
    Ending m (m.terminateCallInner callId generation rs np fr) fun c =>
      c = callId ∧ ∃ call, m.calls.lookup callId = some call ∧
        generationMatches call.generation generation := by
  by_cases h : ∃ call, m.calls.lookup callId = some call ∧
      generationMatches call.generation generation
  · obtain ⟨call, hca, hg⟩ := h
    exact (ending_of_matches rs np fr hm hca hg).congr fun c =>
      (and_iff_left ⟨call, hca, hg⟩).symm
  · have hnil : m.terminateCallInner callId generation rs np fr = (m, []) := by
      unfold terminateCallInner
      split
      · rfl
      · next call hca => exact if_pos fun hg => h ⟨call, hca, hg⟩
    rw [hnil]
    exact (ending_nil hm).congr fun c => (iff_of_false id fun hc => h hc.2)

/-- One termination after another. -/
theorem Ending.trans {e' : CallId → Prop} (h : Ending m r ended) (h' : Ending r.1 r' e')
    (hd : ∀ c, ended c → ¬ e' c) :
    Ending m (r'.1, r.2 ++ r'.2) fun c => ended c ∨ e' c where
  ends c hc hnot := by
    rw [terminalCount_append]
    obtain hc | hc := hc
    · obtain ⟨hco, hg, hmem⟩ := h.ends c hc hnot
      have hs := h'.others c (hd c hc)
      exact ⟨by rw [hco, terminalCount_eq_zero hs], h'.absent c hg, h'.grows hmem⟩
    · have hc' : ¬ ended c := fun hl => hd c hl hc
      have hn' : c ∉ r.1.terminalCalls := fun hmem => (h.only c hmem).elim hnot hc'
      obtain ⟨hco, hg, hmem⟩ := h'.ends c hc hn'
      exact ⟨by rw [hco, terminalCount_eq_zero (h.others c hc')], hg, hmem⟩
  fails c hc hmem e he := by
    obtain hc | hc := hc
    · obtain he | he := mem_append.1 he
      · exact h.fails c hc hmem e he
      · exact h'.others c (hd c hc) e he
    · obtain he | he := mem_append.1 he
      · exact h.others c (fun hl => hd c hl hc) e he
      · exact h'.fails c hc (h.grows hmem) e he
  absent c hc := h'.absent c (h.absent c hc)
  others c hc e he := by
    rw [not_or] at hc
    exact (mem_append.1 he).elim (h.others c hc.1 e) (h'.others c hc.2 e)
  grows := h.grows.trans h'.grows
  only c hc := by
    obtain hc | hc := h'.only c hc
    · exact (h.only c hc).imp_right .inl
    · exact .inr (.inr hc)
  reserved := h'.reserved

/-- Frames that are sent before report nothing. -/
theorem Ending.send_append {sent : List Effect} (h : Ending m r ended)
    (hse : ∀ e ∈ sent, e.reported = none) : Ending m (r.1, sent ++ r.2) ended := by
  have hs : ∀ c, ∀ e ∈ sent, e.reported ≠ some c := fun c e he hc => by
    rw [hse e he] at hc
    cases hc
  refine ⟨fun c hc hnot => ?_, fun c hc hmem e he => ?_, h.absent, fun c hc e he => ?_, h.grows,
    h.only, h.reserved⟩
  · rw [terminalCount_append, terminalCount_eq_zero (hs c), zero_add]
    exact h.ends c hc hnot
  · exact (mem_append.1 he).elim (hs c e) (h.fails c hc hmem e)
  · exact (mem_append.1 he).elim (hs c e) (h.others c hc e)

variable {generation : UInt64}

/-- The session of the call changes before it is terminated. -/
theorem ending_setCall (hm : m.Reserved) (hca : m.calls.lookup callId = some call)
    (hen : call'.ending = call.ending) :
    Ending m ((m.setCall callId call').terminateCallInner callId generation rs np
      fr) fun c => c = callId ∧ generationMatches call'.generation generation := by
  have h := ending_terminateCallInner rs np fr (hm.update hca hen)
    callId generation
  refine (⟨h.ends, h.fails, fun c hc => h.absent c ?_, h.others, h.grows, h.only, h.reserved⟩ :
    Ending m _ _).congr fun c => ?_
  · have hne : c ≠ callId := by
      rintro rfl
      rw [hca] at hc
      cases hc
    rw [lookup_setCall_of_ne hne, hc]
  · simp

theorem ending_applySignal (hm : m.Reserved) {now : Instant} {callId : CallId}
    {signal : SessionSignal} {generation : UInt64} :
    Ending m ((m.applySignal now callId signal).terminateCallInner callId generation rs
      np fr) fun c => c = callId ∧ ∃ call, m.calls.lookup callId = some call ∧
        generationMatches call.generation generation := by
  unfold applySignal
  cases hc : m.calls.lookup callId with
  | none =>
    have h := ending_terminateCallInner rs np fr hm callId generation
    rwa [hc] at h
  | some call =>
    refine (ending_setCall rs np fr hm hc ?_).congr fun c => ?_
    · rfl
    · simp

/-- Terminating calls of the table, each once. -/
theorem ending_terminateAll {l : List (CallId × CallState)} (hm : m.Reserved)
    (hn : (l.map Prod.fst).Nodup) (hl : ∀ e ∈ l, m.calls.lookup e.1 = some e.2) :
    Ending m (m.terminateAll rs np l) (· ∈ l.map Prod.fst) := by
  induction l generalizing m with
  | nil => exact (ending_nil hm).congr (by simp)
  | cons e rest ih =>
    obtain ⟨callId, call⟩ := e
    rw [map_cons, nodup_cons] at hn
    have hf : Ending m (m.terminateCall callId call.generation rs np false)
        (· = callId) :=
      ending_of_matches rs np _ hm (hl _ mem_cons_self) (by simp [generationMatches])
    have hr : ∀ e ∈ rest,
        (m.terminateCall callId call.generation rs np false).1.calls.lookup e.1 = some e.2 := by
      intro e he
      have hne : e.1 ≠ callId := by
        rintro rfl
        exact hn.1 (mem_map.2 ⟨e, he, rfl⟩)
      have ht := touches_terminateCallInner rs np none m callId call.generation
      exact (ht.calls e.1 hne).trans (hl e (mem_cons_of_mem _ he))
    refine (hf.trans (ih hf.reserved hn.2 hr) ?_).congr fun c => ?_
    · rintro c rfl
      exact hn.1
    · simp

/-! ### The calls, as they are iterated -/

variable {o : List CallId}

theorem mem_iter {e : CallId × CallState} : e ∈ m.iter o ↔ m.calls.lookup e.1 = some e.2 := by
  unfold iter
  rw [(perm_insertionSort _ _).mem_iff, mem_map, ← Option.mem_def, AList.mem_lookup_iff]
  constructor
  · rintro ⟨⟨k, v⟩, hmem, rfl⟩
    exact hmem
  · intro hmem
    exact ⟨⟨e.1, e.2⟩, hmem, rfl⟩

theorem nodup_iter (m : Manager) (o : List CallId) : ((m.iter o).map Prod.fst).Nodup := by
  have hp : ((m.iter o).map Prod.fst).Perm m.calls.keys := by
    have h := (perm_insertionSort
      (fun a b : CallId × CallState => o.idxOf a.1 ≤ o.idxOf b.1)
      (m.calls.entries.map fun e => (e.1, e.2))).map Prod.fst
    rwa [map_map] at h
  exact hp.nodup_iff.2 m.calls.keys_nodup

/-- Terminating those calls of the table that are selected. -/
theorem ending_terminateAll_filter {p : CallId × CallState → Bool} (hm : m.Reserved) :
    Ending m (m.terminateAll rs np ((m.iter o).filter p))
      fun c => ∃ call, m.calls.lookup c = some call ∧ p (c, call) := by
  refine (ending_terminateAll rs np hm ?_ fun e he => ?_).congr fun c => ?_
  · exact (m.nodup_iter o).sublist (filter_sublist.map _)
  · exact mem_iter.1 (mem_filter.1 he).1
  · simp only [mem_map, mem_filter, mem_iter]
    constructor
    · rintro ⟨⟨k, v⟩, ⟨hk, hp⟩, rfl⟩
      exact ⟨v, hk, hp⟩
    · rintro ⟨call, hc, hp⟩
      exact ⟨(c, call), ⟨hc, hp⟩, rfl⟩

/-! ### Commands that terminate calls -/

variable {now : Instant}

theorem ending_generationOf (hm : m.Reserved) {signal : SessionSignal} :
    Ending m ((m.applySignal now callId signal).terminateCallInner callId
      ((m.applySignal now callId signal).generationOf callId) rs np fr)
      fun c => ∃ call, m.calls.lookup c = some call ∧ c = callId := by
  refine (ending_applySignal rs np fr hm).congr fun c => ⟨?_, ?_⟩
  · rintro ⟨rfl, call, hc, -⟩
    exact ⟨call, hc, rfl⟩
  · rintro ⟨call, hc, rfl⟩
    have hs := lookup_applySignal now signal hc
    exact ⟨rfl, call, hc, by simp [generationMatches, generationOf, hs]⟩

theorem ending_handleTimeout (hm : m.Reserved) :
    Ending m (m.handleTimeout now callId) fun c => ∃ call, m.calls.lookup c = some call ∧
      c = callId ∧ (call.session.expire now).isSome := by
  unfold handleTimeout
  cases hca : m.calls.lookup callId with
  | none =>
    refine (ending_nil hm).congr fun c => iff_of_false id ?_
    rintro ⟨call, hc, rfl, -⟩
    rw [hca] at hc
    cases hc
  | some call =>
    cases hep : call.session.expire now with
    | none =>
      dsimp only
      rw [hep]
      refine (ending_nil hm).congr fun c => iff_of_false id ?_
      rintro ⟨z, hz, rfl, hs⟩
      cases hca.symm.trans hz
      rw [hep] at hs
      cases hs
    | some session =>
      dsimp only
      rw [hep]
      have hse := m.lookup_setCall_self callId { call with session := session }
      refine (ending_setCall .negotiationTimeout true none hm hca ?_).congr fun c => ⟨?_, ?_⟩
      · rfl
      · rintro ⟨rfl, -⟩
        exact ⟨call, hca, rfl, by simp [hep]⟩
      · rintro ⟨z, hz, rfl, -⟩
        exact ⟨rfl, generationMatches_generationOf hse⟩

variable {peer : PublicKey} {tx : WireTx}

theorem ending_handleControl (hm : m.Reserved) {ctl : CallControl}
    (hen : (Command.control peer ctl tx).Ends) :
    Ending m (m.handleControl now o peer tx ctl) fun c => ∃ call,
      m.calls.lookup c = some call ∧ Terminates now c call (.control peer ctl tx) := by
  cases ctl with
  | reject callId rs =>
    exact ending_generationOf .remoteHangup false _ hm
  | busy callId =>
    refine (ending_terminateCallInner .remoteHangup false _ hm callId _).congr fun c => ⟨?_, ?_⟩
    · rintro ⟨rfl, call, hca, -⟩
      exact ⟨call, hca, rfl⟩
    · rintro ⟨call, hca, hc⟩
      obtain rfl : c = callId := hc
      exact ⟨rfl, call, hca, generationMatches_generationOf hca⟩
  | hangup callId rs => exact ending_generationOf rs false _ hm
  | _ => cases hen

/-- **What a command that terminates calls does**: it terminates those, and no others. -/
theorem handle_ending (hm : m.Reserved) {command : Command} (hco : command.Ends) :
    Ending m (m.handle now o command) fun c => ∃ call, m.calls.lookup c = some call ∧
      Terminates now c call command := by
  cases command with
  | control peer control tx => exact ending_handleControl hm hco
  | reject callId =>
    -- the peer is told before the call is looked at
    refine (ending_generationOf .localHangup false none hm).send_append ?_
    split <;> simp
  | negotiationTimeout callId => exact ending_handleTimeout hm
  | terminate callId generation rs =>
    refine (ending_applySignal rs true none hm).congr fun c => ⟨?_, ?_⟩
    · rintro ⟨rfl, call, hca, hg⟩
      exact ⟨call, hca, rfl, hg⟩
    · rintro ⟨call, hca, hc, hg⟩
      obtain rfl : c = callId := hc
      exact ⟨rfl, call, hca, hg⟩
  | revokePeer peer =>
    exact (ending_terminateAll_filter .authorizationRevoked true hm).congr
      fun c => by simp [Terminates]
  | connectionClosed peer =>
    exact (ending_terminateAll_filter .connectionLost false hm).congr fun c => by simp [Terminates]
  | shutdown =>
    have h := ending_terminateAll .shutdown false hm (m.nodup_iter o) fun e => mem_iter.1
    -- the manager also stops, of which the calls know nothing
    have hs : Ending m (m.handle now o .shutdown) (· ∈ (m.iter o).map Prod.fst) :=
      ⟨h.ends, h.fails, h.absent, h.others, h.grows, h.only, h.reserved⟩
    exact hs.congr fun c => by simp [Terminates, mem_iter]
  | _ => cases hco

/-! ### Other commands -/

/-- The step terminates no call.  It reports only about calls that exist, calls that it creates, and
the call whose media state changes. -/
structure Steady (m : Manager) (command : Command) (r : Reaction) : Prop where
  reserved : r.1.Reserved
  terminal : ∀ e ∈ r.2, e.terminal = none
  reported : ∀ e ∈ r.2, ∀ c, e.reported = some c →
    e.created = some c ∨ m.ReportsMedia c command ∨ (m.calls.lookup c).isSome
  media : ∀ c, m.ReportsMedia c command →
    (∃ e ∈ r.2, e.reported = some c) ∧ ∀ e ∈ r.2, e.created = none

variable {command : Command}

theorem steady_of_silent (hm : r.1.Reserved) (hme : ∀ c, ¬ m.ReportsMedia c command)
    (hout : ∀ e ∈ r.2, e.reported = none) :
    Steady m command r := by
  refine ⟨hm, fun e he => Effect.terminal_of_not_reported (hout e he), fun e he c hc => ?_,
    fun c hc => absurd hc (hme c)⟩
  rw [hout e he] at hc
  cases hc

/-- A step that reports only the creation of calls. -/
theorem steady_of_created (hm : r.1.Reserved) (hme : ∀ c, ¬ m.ReportsMedia c command)
    (hout : ∀ e ∈ r.2, e.reported = none ∨ e.terminal = none ∧ e.reported = e.created) :
    Steady m command r := by
  refine ⟨hm, fun e he => ?_, fun e he c hc => .inl ?_, fun c hc => absurd hc (hme c)⟩
  · exact (hout e he).elim Effect.terminal_of_not_reported And.left
  · obtain hn | ⟨-, heq⟩ := hout e he
    · rw [hn] at hc
      cases hc
    · rw [← heq, hc]

/-- A call that is created is not marked. -/
theorem Reserved.create {peer : PublicKey} {kind : CallKind} {tx : WireTx} {incoming : Bool}
    {generation : UInt64} {se : CallSession} (hm : m.Reserved) :
    (m.setCall callId
      (.create peer kind tx incoming generation se)).advanceGeneration.Reserved := by
  intro c call hc hen
  exact hm.setCall (by simp [CallState.create]) c call hc hen

theorem steady_handleOffer (hm : m.Reserved) {kind : CallKind} {caps : MediaCapabilities} :
    Steady m (.control peer (.offer callId kind caps) tx)
      (m.handleOffer now o peer callId kind tx) := by
  by_cases hr : m.Rings o peer
  · rw [handleOffer_of_rings hr, ring_eq]
    refine steady_of_created hm.create (fun c hc => hc) ?_
    split <;> simp
  · obtain ⟨hs, hout⟩ := handleOffer_of_not_rings hr
    refine steady_of_silent ?_ (fun c hc => hc) fun e he => ?_
    · rw [hs]
      exact hm
    · rw [hout e he]
      rfl

theorem steady_acceptCall (hm : m.Reserved) {rp : CallState → List Effect}
    (hme : ∀ c, ¬ m.ReportsMedia c command) (hr : ∀ call, ∀ e ∈ rp call, e.reported = none) :
    Steady m command (m.acceptCall now callId rp) := by
  unfold acceptCall
  cases hca : m.calls.lookup callId with
  | none => exact steady_of_silent hm hme (by simp)
  | some call =>
    have hs : (m.setCall callId { call with
        session := (call.session.apply now call.peer (.accept callId)).1 }).Reserved :=
      hm.update hca rfl
    dsimp only
    split
    · exact steady_of_silent hs hme (by simp)
    · refine ⟨hs, forall_mem_append.2 ⟨fun e he => ?_, by simp⟩,
        forall_mem_append.2 ⟨fun e he c hc => ?_, forall_mem_singleton.2 fun c hc => ?_⟩,
        fun c hc => absurd hc (hme c)⟩
      · exact Effect.terminal_of_not_reported (hr call e he)
      · rw [hr call e he] at hc
        cases hc
      · obtain rfl : callId = c := Option.some.inj hc
        exact .inr (.inr (by simp [hca]))

theorem steady_of_media {am ve : Bool} (out : List Effect) (hm : m'.Reserved)
    (hme : ∀ c, m.ReportsMedia c command ↔ c = callId)
    (hout : ∀ e ∈ out, e.reported = none ∧ e.created = none) :
    Steady m command (m', out ++ [.emit (.mediaStateChanged callId am ve)]) := by
  refine ⟨hm, forall_mem_append.2 ⟨fun e he => ?_, by simp⟩,
    forall_mem_append.2 ⟨fun e he c hc => ?_, forall_mem_singleton.2 fun c hc => ?_⟩,
    fun c hc => ?_⟩
  · exact Effect.terminal_of_not_reported (hout e he).1
  · rw [(hout e he).1] at hc
    cases hc
  · exact .inr (.inl ((hme c).2 (Option.some.inj hc).symm))
  · obtain rfl := (hme c).1 hc
    exact ⟨by simp, forall_mem_append.2 ⟨fun e he => (hout e he).2, by simp⟩⟩

theorem steady_announceMedia {ch : CallState → CallState} {me : Bool × Bool}
    (hm : m.Reserved) (hme : ∀ c, m.ReportsMedia c command ↔ c = callId)
    (hc : ∀ call : CallState, (ch call).ending = call.ending) :
    Steady m command (m.announceMedia callId ch me) := by
  unfold announceMedia
  dsimp only
  cases hca : m.calls.lookup callId with
  | none => exact steady_of_media [] hm hme (by simp)
  | some call =>
    have hs : (m.setCall callId (ch call)).Reserved := hm.update hca (hc call)
    exact steady_of_media [.send call.tx (.mediaState callId me.1 me.2)] hs hme (by simp)

theorem steady_handleReconnect (hm : m.Reserved) :
    Steady m (.control peer (.reconnect callId generation) tx)
      (m.handleReconnect now callId generation) := by
  unfold handleReconnect
  cases hca : m.calls.lookup callId with
  | none => exact steady_of_silent hm (fun c hc => hc) (by simp)
  | some call =>
    dsimp only
    split
    · exact steady_of_silent (hm.update hca rfl) (fun c hc => hc) (by simp)
    · exact steady_of_silent (hm.update hca rfl) (fun c hc => hc) (by simp)

theorem steady_handleLocalReconnect (hm : m.Reserved) :
    Steady m (.reconnect callId) (m.handleLocalReconnect now callId) := by
  unfold handleLocalReconnect
  cases hca : m.calls.lookup callId with
  | none => exact steady_of_silent hm (fun c hc => hc) (by simp)
  | some call =>
    dsimp only
    split
    · exact steady_of_silent (hm.update hca rfl) (fun c hc => hc) (by simp)
    · exact steady_of_silent (hm.update hca rfl) (fun c hc => hc) (by simp)

/-- A call that cannot be started is reported as failed, and nothing changes. -/
theorem handle_failsToStart (h : m.FailsToStart o c command) :
    ∃ er, m.handle now o command = (m, [.emit (.failed (some c) er)]) := by
  cases command with
  | start callId peer kind conn =>
    obtain ⟨hc, hf⟩ := h
    obtain rfl : c = callId := hc
    simp only [handle, handleStart]
    split
    · exact ⟨_, rfl⟩
    · next hnot =>
      obtain ha | rfl := hf
      · exact absurd ha hnot
      · exact ⟨_, rfl⟩
  | _ => exact h.elim

section

variable (hm : m.Reserved)

include hm

variable {now : Instant}

theorem steady_handleStart {callId : CallId} {peer : PublicKey} {kind : CallKind}
    {conn : Option WireTx} (hs : ∀ c, ¬ m.FailsToStart o c (.start callId peer kind conn)) :
    Steady m (.start callId peer kind conn) (m.handleStart now o callId peer kind conn) := by
  unfold handleStart
  split
  · next ha => exact absurd ⟨rfl, .inl ha⟩ (hs callId)
  · split
    · exact absurd ⟨rfl, .inr rfl⟩ (hs callId)
    · exact steady_of_created hm.create (fun c hc => hc) (by simp)

theorem steady_handleSetMuted {muted : Bool} :
    Steady m (.setMuted callId muted) (m.handleSetMuted callId muted) := by
  unfold handleSetMuted
  dsimp only
  split
  · next heq =>
    refine steady_of_silent ?_ ?_ (by simp)
    · exact hm
    · rintro c ⟨-, hne⟩
      exact hne heq
  · next hne =>
    refine steady_announceMedia hm (fun c => ?_) fun call => rfl
    exact and_iff_left hne

theorem steady_handleSetDeafened {d : Bool} :
    Steady m (.setDeafened callId d) (m.handleSetDeafened callId d, []) := by
  unfold handleSetDeafened
  split
  · exact steady_of_silent hm (fun c hc => hc) (by simp)
  · next call hcall =>
    exact steady_of_silent (hm.update hcall rfl) (fun c hc => hc) (by simp)

theorem steady_handleControl {ctl : CallControl} {peer : PublicKey} {tx : WireTx}
    (hco : ¬ (Command.control peer ctl tx).Ends) :
    Steady m (.control peer ctl tx) (m.handleControl now o peer tx ctl) := by
  cases ctl with
  | hello | ringing | requestKeyframe | keepAlive =>
    exact steady_of_silent hm (fun c hc => hc) fun _ => not_mem_nil.elim
  | offer callId kind caps =>
    exact steady_handleOffer hm
  | accept callId s => exact steady_acceptCall hm (fun c hc => hc) (by simp)
  | mediaState callId am ve =>
    -- the state is reported even if there is no such call
    refine steady_of_media [] ?_ (fun c => Iff.rfl) (by simp)
    split
    · exact hm
    · next call hcall => exact hm.update hcall rfl
  | reconnect callId generation => exact steady_handleReconnect hm
  | _ => exact absurd trivial hco

/-- **What every other command does.** -/
theorem handle_steady (hco : ¬ command.Ends) (hs : ∀ c, ¬ m.FailsToStart o c command) :
    Steady m command (m.handle now o command) := by
  cases command with
  | start callId peer kind connection => exact steady_handleStart hm hs
  | accept callId =>
    exact steady_acceptCall hm (fun c hc => hc) (by simp)
  | setMuted callId muted => exact steady_handleSetMuted hm
  | setCameraEnabled callId enabled =>
    exact steady_announceMedia hm (fun c => Iff.rfl) fun call => rfl
  | setDeafened callId d => exact steady_handleSetDeafened hm
  | incoming connection => exact steady_of_silent hm (fun c hc => hc) fun _ => not_mem_nil.elim
  | media peer ev =>
    cases ev <;> exact steady_of_silent hm (fun c hc => hc) (forall_mem_singleton.2 rfl)
  | reconnect callId => exact steady_handleLocalReconnect hm
  | control peer control tx => exact steady_handleControl hm hco
  | _ => exact absurd trivial hco

end

theorem ends_of_terminates {now : Instant} (h : Terminates now c call command) : command.Ends := by
  cases command with
  | control peer control tx => cases control <;> trivial
  | _ => trivial

theorem not_ends_of_failsToStart (h : m.FailsToStart o c command) :
    ¬ command.Ends ∧ ∀ c', ¬ m.ReportsMedia c' command := by
  cases command with
  | start => exact ⟨id, fun _ => id⟩
  | _ => exact h.elim

theorem not_ends_of_reportsMedia (h : m.ReportsMedia c command) : ¬ command.Ends := by
  cases command with
  | control peer control tx => cases control <;> first | exact id | exact h.elim
  | _ => first | exact id | exact h.elim

/-- No call appears in a step that does not create it. -/
theorem lookup_step_eq_none {i : Input} (hc : m.calls.lookup c = none)
    (hcr : ∀ e ∈ (actor.step m i).2, e.created ≠ some c) :
    (actor.step m i).1.calls.lookup c = none := by
  obtain h | ⟨-, callId, call, call', -, h⟩ | ⟨callId, call, h⟩ := step_cases m i
  · exact (h.calls c).eq_none hc
  · have hne : c ≠ callId := by
      rintro rfl
      rw [h.before] at hc
      cases hc
    rw [h.after, AList.lookup_insert_ne hne, hc]
  · have hne : c ≠ callId := by
      rintro rfl
      obtain ⟨e, he, hec⟩ := h.emitted
      exact hcr e he hec
    rw [h.after, AList.lookup_insert_ne hne, hc]

end Manager

namespace Audit

variable {w : Audit} {i : Input} {c : CallId}

/-- Calls that are marked have a terminal event reserved, and calls that are over are gone. -/
structure Consistent (w : Audit) : Prop where
  reserved : w.manager.Reserved
  gone : ∀ c ∈ w.finished, w.manager.calls.lookup c = none

/-- What a step reports, in the three kinds of commands. -/
theorem step_reports (hw : w.Consistent) (hs : w.manager.stopped = false) :
    (i.command.Ends ∧ w.manager.Ending (actor.step w.manager i) fun c =>
      ∃ call, w.manager.calls.lookup c = some call ∧ Manager.Terminates i.now c call i.command) ∨
    (∃ c er, w.manager.FailsToStart i.order c i.command ∧
      actor.step w.manager i = (w.manager, [.emit (.failed (some c) er)])) ∨
    (¬ i.command.Ends ∧ (∀ c, ¬ w.manager.FailsToStart i.order c i.command) ∧
      w.manager.Steady i.command (actor.step w.manager i)) := by
  have hstep : actor.step w.manager i = w.manager.handle i.now i.order i.command := by
    simp [actor, hs]
  rw [hstep]
  by_cases hen : i.command.Ends
  · exact .inl ⟨hen, handle_ending hw.reserved hen⟩
  · by_cases hst : ∃ c, w.manager.FailsToStart i.order c i.command
    · obtain ⟨c, hc⟩ := hst
      obtain ⟨er, her⟩ := handle_failsToStart hc
      exact .inr (.inl ⟨c, er, hc, her⟩)
    · have hnot := not_exists.1 hst
      exact .inr (.inr ⟨hen, hnot, handle_steady hw.reserved hen hnot⟩)

/-- A step that repeats something does not handle terminations properly. -/
theorem not_proper_of_repeats (hw : w.Consistent) (h : w.Repeats i) : ¬ w.Proper i := by
  intro hp
  obtain ⟨hs, h⟩ := h
  obtain ⟨c, call, hca, ht, hmem⟩ | ⟨c, hst, hc⟩ | ⟨c, hc, hme⟩ := h
  · have hco := (hp.ends c call hs hca ht).1
    obtain ⟨-, hen⟩ | ⟨c', er, hst, -⟩ | ⟨hnot, -⟩ := step_reports (i := i) hw hs
    · rw [terminalCount_eq_zero (hen.fails c ⟨call, hca, ht⟩ hmem)] at hco
      cases hco
    · exact (not_ends_of_failsToStart hst).1 (ends_of_terminates ht)
    · exact hnot (ends_of_terminates ht)
  · obtain ⟨er, her⟩ := handle_failsToStart hst
    have hstep : actor.step w.manager i = (w.manager, [.emit (.failed (some c) er)]) := by
      simpa [actor, hs] using her
    obtain hc | hc := hc
    · obtain ⟨call, hca⟩ := Option.isSome_iff_exists.1 hc
      have hco := hp.stays c call hca fun ht =>
        (not_ends_of_failsToStart hst).1 (ends_of_terminates ht)
      simp [hstep, terminalCount] at hco
    · refine hp.silent c hc ?_ (.emit (.failed (some c) er)) ?_ rfl
      · simp [hstep]
      · simp [hstep]
  · obtain ⟨hed, -⟩ | ⟨c', er, hst, -⟩ | ⟨-, -, hsd⟩ := step_reports (i := i) hw hs
    · exact not_ends_of_reportsMedia hme hed
    · exact (not_ends_of_failsToStart hst).2 c hme
    · obtain ⟨⟨e, he, hr⟩, hcr⟩ := hsd.media c hme
      exact hp.silent c hc (fun e he => by rw [hcr e he]; simp) e he hr

/-- A command that terminates calls, none of them of an id that was terminated before. -/
theorem proper_of_ending (hw : w.Consistent)
    (hen : w.manager.Ending (actor.step w.manager i) fun c =>
      ∃ call, w.manager.calls.lookup c = some call ∧ Manager.Terminates i.now c call i.command)
    (hn : ∀ c call, w.manager.calls.lookup c = some call →
      Manager.Terminates i.now c call i.command → c ∉ w.manager.terminalCalls) : w.Proper i := by
  refine ⟨fun c call _ hca ht => ?_, fun c call hca ht => ?_, fun c hc _ => ?_⟩
  · obtain ⟨hco, hg, -⟩ := hen.ends c ⟨call, hca, ht⟩ (hn c call hca ht)
    exact ⟨hco, hg⟩
  · refine terminalCount_eq_zero (hen.others c ?_)
    rintro ⟨z, hz, hzt⟩
    cases hca.symm.trans hz
    exact ht hzt
  · -- a call that is over is not in the table, so it is not one that is terminated
    refine hen.others c ?_
    rintro ⟨z, hz, -⟩
    rw [hw.gone c hc] at hz
    cases hz

/-- A call that cannot be started, of an id that is neither used nor over. -/
theorem proper_of_failsToStart {c' : CallId} {er : CallError}
    (hst : w.manager.FailsToStart i.order c' i.command)
    (hstep : actor.step w.manager i = (w.manager, [.emit (.failed (some c') er)]))
    (ho : ∀ c, ((w.manager.calls.lookup c).isSome ∨ c ∈ w.finished) → c ≠ c') :
    w.Proper i := by
  have hs : ∀ c, c ≠ c' → ∀ e ∈ (actor.step w.manager i).2, e.reported ≠ some c := by
    intro c hne e he hr
    rw [hstep] at he
    obtain rfl := mem_singleton.1 he
    exact hne (Option.some.inj hr).symm
  refine ⟨fun c call _ _ ht => ?_, fun c call hca _ => ?_, fun c hc _ => ?_⟩
  · exact absurd (ends_of_terminates ht) (not_ends_of_failsToStart hst).1
  · exact terminalCount_eq_zero (hs c (ho c (.inl (by simp [hca]))))
  · exact hs c (ho c (.inr hc))

/-- A command that terminates no call, and reports no media state of a call that is over. -/
theorem proper_of_steady (hw : w.Consistent) (hen : ¬ i.command.Ends)
    (hs : w.manager.Steady i.command (actor.step w.manager i))
    (hme : ∀ c ∈ w.finished, ¬ w.manager.ReportsMedia c i.command) : w.Proper i := by
  refine ⟨fun c call _ _ ht => ?_, fun c call _ _ => ?_, fun c hc hcr e he hr => ?_⟩
  · exact absurd (ends_of_terminates ht) hen
  · refine count_eq_zero.2 fun hmem => ?_
    obtain ⟨e, he, ht⟩ := mem_filterMap.1 hmem
    rw [hs.terminal e he] at ht
    cases ht
  · obtain hn | hre | hp := hs.reported e he c hr
    · exact hcr e he hn
    · exact hme c hc hre
    · rw [hw.gone c hc] at hp
      cases hp

theorem proper_of_stopped (hs : w.manager.stopped) : w.Proper i := by
  have hstep : actor.step w.manager i = (w.manager, []) := if_pos hs
  refine ⟨fun c call hr => ?_, fun c call _ _ => ?_, fun c _ _ e he => ?_⟩
  · rw [hs] at hr
    cases hr
  · rw [hstep]
    rfl
  · rw [hstep] at he
    cases he

theorem proper_of_not_repeats (hw : w.Consistent) (h : ¬ w.Repeats i) : w.Proper i := by
  cases hs : w.manager.stopped with
  | true => exact proper_of_stopped hs
  | false =>
    obtain ⟨-, hen⟩ | ⟨c', error, hst, hstep⟩ | ⟨hed, -, hsd⟩ :=
      step_reports (i := i) hw hs
    · refine proper_of_ending hw hen fun c call hca ht hmem => ?_
      exact h ⟨hs, .inl ⟨c, call, hca, ht, hmem⟩⟩
    · refine proper_of_failsToStart hst hstep ?_
      rintro c hc rfl
      exact h ⟨hs, .inr (.inl ⟨c, hst, hc⟩)⟩
    · refine proper_of_steady hw hed hsd fun c hc hme => ?_
      exact h ⟨hs, .inr (.inr ⟨c, hc, hme⟩)⟩

theorem proper_iff (hw : w.Consistent) : w.Proper i ↔ ¬ w.Repeats i :=
  ⟨fun h hr => not_proper_of_repeats hw hr h, proper_of_not_repeats hw⟩

theorem mem_finished_next :
    c ∈ (w.next i).finished ↔ (c ∈ w.finished ∨ (w.manager.calls.lookup c).isSome ∧
        ∃ e ∈ (actor.step w.manager i).2, e.terminal = some c) ∧
      ∀ e ∈ (actor.step w.manager i).2, e.created ≠ some c := by
  simp only [next, Finset.mem_sdiff, Finset.mem_union, Finset.mem_filter, mem_toFinset,
    mem_filterMap, not_exists, not_and, and_comm]

/-- A proper step keeps the audit consistent. -/
theorem consistent_next (hw : w.Consistent) (h : w.Proper i) : (w.next i).Consistent := by
  constructor
  · change (actor.step w.manager i).1.Reserved
    cases hs : w.manager.stopped with
    | true =>
      have hstep : actor.step w.manager i = (w.manager, []) := if_pos hs
      rw [hstep]
      exact hw.reserved
    | false =>
      obtain ⟨-, hen⟩ | ⟨c', error, -, hstep⟩ | ⟨-, -, hst⟩ :=
        step_reports (i := i) hw hs
      · exact hen.reserved
      · rw [hstep]
        exact hw.reserved
      · exact hst.reserved
  · intro c hc
    obtain ⟨ho | ⟨hp, e, he, ht⟩, hcr⟩ := mem_finished_next.1 hc
    · exact lookup_step_eq_none (hw.gone c ho) hcr
    · -- a terminal event of a call means that it was terminated
      obtain ⟨call, hca⟩ := Option.isSome_iff_exists.1 hp
      have hco : terminalCount (actor.step w.manager i).2 c ≠ 0 := by
        rw [terminalCount, Ne, count_eq_zero, not_not]
        exact mem_filterMap.2 ⟨e, he, ht⟩
      have hte : Manager.Terminates i.now c call i.command := by
        by_contra hnot
        exact hco (h.stays c call hca hnot)
      have hs : w.manager.stopped = false := by
        by_contra hs
        have hstep : actor.step w.manager i = (w.manager, []) := if_pos (by simpa using hs)
        rw [hstep] at he
        cases he
      exact (h.ends c call hs hca hte).2

end Audit

/-- **Terminal events.**  Along a run every step handles terminations properly exactly when no step
terminates a call whose id was terminated before, fails to start a call of an id that is used or
over, or reports the media state of a call that is over. -/
theorem terminates_once_iff (localPeer : PublicKey) (inputs : List Input) :
    audited.Along Audit.Proper (.spawn localPeer) inputs ↔
      audited.Along (fun w i => ¬ w.Repeats i) (.spawn localPeer) inputs := by
  refine Machine.along_congr_of_invariant (P := Audit.Consistent) ?_ ?_ ?_
  · refine ⟨?_, by simp [Audit.spawn]⟩
    intro c call hc
    cases hc
  · exact fun w i hw => Audit.proper_iff hw
  · exact fun w i hw hi => Audit.consistent_next hw ((Audit.proper_iff hw).2 hi)

/-- A call is offered and hung up, and offered again under the same id: the second hangup ends
nothing.  The call stays, and no event is emitted for it. -/
theorem reused_id_never_ends :
    let offer : Input := ⟨0, [], .control (Block.replicate 32 1)
      (.offer (Block.replicate 16 7) .voice (callCapabilities .voice)) 0⟩
    let hangup : Input := ⟨1, [], .control (Block.replicate 32 1)
      (.hangup (Block.replicate 16 7) .remoteHangup) 0⟩
    let m := actor.exec (.spawn (Block.replicate 32 0)) [offer, hangup, offer]
    terminalCount (actor.trace (.spawn (Block.replicate 32 0)) [offer, hangup])
        (Block.replicate 16 7) = 1 ∧
      (m.calls.lookup (Block.replicate 16 7)).isSome ∧
      terminalCount (actor.step m hangup).2 (Block.replicate 16 7) = 0 ∧
      ((actor.step m hangup).1.calls.lookup (Block.replicate 16 7)).isSome := by
  decide +kernel

end Boru.Call
