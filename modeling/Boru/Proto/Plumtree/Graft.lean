import Boru.LTS.Timers
import Boru.Proto.Plumtree.Delivery

/-!
# Announced messages and graft timers

A message that was announced but not received is requested when a graft timer expires.  `Tracked`
says that a graft timer is outstanding for every id that has announcements left, and for every id
in `graftTimerScheduled`.  The handlers keep it, with one exception: a graft timer that expires
while the message is recorded as received is not renewed, although the announcements may still be
there, since a broadcast of the same content records the id without dropping them.

## Main results

* `announced_tracked` : as long as the last graft timer of an id does not expire in this situation,
  every announced message that is not received has a graft timer.
* `announced_forgotten` : a run that ends with an announced message without a graft timer.
-/

namespace Boru.Plumtree

open List

variable {PI : Type} [LinearOrder PI] {blake3 : Bytes → MessageId}

def OutEvent.scheduled : OutEvent PI → Option Timer
  | .scheduleTimer _ timer => some timer
  | _ => none

/-- The timer whose expiry an input event is. -/
def fired (i : InEvent PI × Instant) : Option Timer :=
  match i.1 with
  | .timerExpired timer => some timer
  | _ => none

def timedMachine (blake3 : Bytes → MessageId) :
    Machine (State PI × Multiset Timer) (InEvent PI × Instant) (OutEvent PI) :=
  (machine blake3).withTimers fired OutEvent.scheduled

/-- The announcements of a message that are still to be used. -/
def State.announced (s : State PI) (id : MessageId) : List (PI × Round) :=
  s.missingMessages.getD id []

namespace Act

variable {c c' : Act PI} {timers : Multiset Timer} {id : MessageId}

/-- Every id with a timer on record or with announcements has an outstanding graft timer: one of
`timers` or one scheduled since. -/
def Tracked (timers : Multiset Timer) (c : Act PI) : Prop :=
  ∀ id, id ∈ c.graftTimerScheduled ∨ c.announced id ≠ [] →
    .sendGraft id ∈ timers ∨ .sendGraft id ∈ c.io.filterMap OutEvent.scheduled

/-- `c'` tracks no more messages than `c`. -/
structure Relaxes (c c' : Act PI) : Prop where
  scheduled : c'.graftTimerScheduled ⊆ c.graftTimerScheduled
  announced : ∀ id, c'.announced id ≠ [] → c.announced id ≠ []
  io : c.io <+: c'.io

theorem Relaxes.of_eq (hs : c'.graftTimerScheduled = c.graftTimerScheduled)
    (hm : c'.missingMessages = c.missingMessages) (hio : c.io <+: c'.io) : Relaxes c c' :=
  ⟨hs ▸ subset_rfl, fun id => by rw [State.announced, hm]; exact fun h => h, hio⟩

theorem Relaxes.trans {c'' : Act PI} (h : Relaxes c c') (h' : Relaxes c' c'') : Relaxes c c'' :=
  ⟨h'.scheduled.trans h.scheduled, fun id hid => h.announced id (h'.announced id hid),
    h.io.trans h'.io⟩

theorem Tracked.relax (h : c.Tracked timers) (hr : Relaxes c c') : c'.Tracked timers := by
  intro id hid
  refine (h id (hid.imp (fun hs => hr.scheduled hs) (hr.announced id))).imp_right fun hio => ?_
  exact (hr.io.filterMap _).subset hio

/-! ### The handlers -/

section

variable (c) (peer sender : PI) (msg : Gossip)

theorem relaxes_optimizeTree (round : Round) (l : List (PI × Round)) :
    Relaxes c (c.optimizeTree sender round l) := by
  rcases optimizeTree_cases sender round l with h | ⟨x, -, h⟩
  · rw [h]
    exact .of_eq rfl rfl (prefix_rfl)
  · rw [h]
    split_ifs
    · exact .of_eq rfl rfl (prefix_append _ _)
    · refine .of_eq rfl rfl ?_
      exact (prefix_append _ _).trans (prefix_append _ _)

theorem relaxes_acceptSwarm (round : Round) (now : Instant) :
    Relaxes c (c.acceptSwarm sender msg round now) := by
  have hs : Relaxes c (c.storeSwarm sender msg round now) := by
    obtain ⟨queue, scheduled, l, cache, h, -, -⟩ := storeSwarm_spec sender msg round now
    rw [h]
    refine ⟨Finset.erase_subset _ _, fun id hid => ?_, prefix_append _ _⟩
    by_cases heq : id = msg.id
    · subst heq
      exact absurd (by simp [State.announced, HashMap.getD]) hid
    · simpa [State.announced, HashMap.getD, AList.lookup_erase_ne heq] using hid
  unfold acceptSwarm
  generalize c.storeSwarm sender msg round now = c' at hs ⊢
  cases c.missingMessages.lookup msg.id with
  | none => exact hs.trans (.of_eq rfl rfl prefix_rfl)
  | some pih =>
    have ho := hs.trans (relaxes_optimizeTree c' sender round.next pih)
    exact ho.trans (.of_eq rfl rfl prefix_rfl)

theorem relaxes_onGossip (now : Instant) : Relaxes c (onGossip blake3 c sender msg now) := by
  unfold onGossip
  split_ifs
  · exact .of_eq rfl rfl prefix_rfl
  · exact .of_eq rfl rfl prefix_rfl
  · exact .of_eq rfl rfl (prefix_append _ _)
  · have hp : Relaxes c (c.push (.emitEvent (.received (.fromMessage msg sender)))) :=
      .of_eq rfl rfl (prefix_append _ _)
    split
    · exact hp
    · exact hp.trans (relaxes_acceptSwarm _ _ _ _ _)

/-- The announcements of a peer that left are dropped. -/
theorem announced_onNeighborDown :
    (c.onNeighborDown peer).announced id = (c.announced id).filter fun x => x.1 ≠ peer := by
  unfold State.announced HashMap.getD onNeighborDown
  rw [HashMap.lookup_retain]
  cases c.missingMessages.lookup id with
  | none => rfl
  | some iHaves =>
    rw [Option.bind_some, withoutPeer]
    split_ifs with hem
    · exact (isEmpty_iff.1 hem).symm
    · rfl

theorem relaxes_onNeighborDown : Relaxes c (c.onNeighborDown peer) := by
  refine ⟨subset_rfl, fun id hid hnil => hid ?_, prefix_rfl⟩
  rw [announced_onNeighborDown, hnil, filter_nil]

end

variable (h : c.Tracked timers)

include h

theorem Tracked.onIHaveOne (sender : PI) (ih : IHave) :
    (Act.onIHaveOne sender c ih).Tracked timers := by
  -- an announcement concerns its own id only
  have ho : ∀ id, id ≠ ih.id →
      (c.missingMessages.upsert ih.id [] (· ++ [(sender, ih.round)])).getD id [] =
        c.announced id := by
    intro id hne
    rw [HashMap.getD, HashMap.lookup_upsert_ne _ _ _ hne]
    rfl
  unfold Act.onIHaveOne
  dsimp only
  split_ifs with hr hsc
  · exact h
  · intro id hid
    by_cases heq : id = ih.id
    · subst heq
      exact h _ (.inl hsc)
    · refine h id (hid.imp_right fun ha => ?_)
      rwa [State.announced, ho id heq] at ha
  · intro id hid
    by_cases heq : id = ih.id
    · exact .inr (by simp [push, OutEvent.scheduled, heq])
    · have hi' : id ∈ c.graftTimerScheduled ∨ c.announced id ≠ [] := by
        refine hid.imp (fun hs => ?_) fun ha => ?_
        · exact (Finset.mem_insert.1 hs).resolve_left heq
        · rwa [State.announced, push, ho id heq] at ha
      refine (h id hi').imp_right fun hio => ?_
      exact ((prefix_append c.io _).filterMap _).subset hio

theorem Tracked.onIHave (sender : PI) (i : List IHave) : (c.onIHave sender i).Tracked timers := by
  induction i generalizing c with
  | nil => exact h
  | cons iHave i ih => exact ih (h.onIHaveOne sender iHave)

/-- A graft timer is renewed if it is needed, or there is another one. -/
theorem Tracked.onSendGraftTimer
    (hla : c.receivedMessages.containsKey id → c.announced id ≠ [] →
      2 ≤ timers.count (.sendGraft id)) :
    (c.onSendGraftTimer id).Tracked (timers.erase (.sendGraft id)) := by
  have ho : ∀ c' : Act PI, c'.graftTimerScheduled = c.graftTimerScheduled.erase id →
      (∀ id', id' ≠ id → c'.announced id' = c.announced id') → c.io <+: c'.io →
      (c'.announced id ≠ [] → .sendGraft id ∈ timers.erase (.sendGraft id) ∨
        .sendGraft id ∈ c'.io.filterMap OutEvent.scheduled) →
      c'.Tracked (timers.erase (.sendGraft id)) := by
    intro c' hs ha hio hse id' hid'
    rw [hs] at hid'
    by_cases heq : id' = id
    · subst heq
      exact hse (hid'.resolve_left (Finset.notMem_erase _ _))
    · rw [ha id' heq] at hid'
      refine (h id' (hid'.imp_left Finset.mem_of_mem_erase)).imp (fun ht => ?_) fun hl => ?_
      · exact (Multiset.mem_erase_of_ne (by simpa using heq)).2 ht
      · exact (hio.filterMap _).subset hl
  unfold Act.onSendGraftTimer
  dsimp only
  split_ifs with hr
  · refine ho _ rfl (fun _ _ => rfl) prefix_rfl fun ha => .inl ?_
    have hc := hla hr ha
    rw [← Multiset.one_le_count_iff_mem, Multiset.count_erase_self]
    omega
  · split
    · refine ho _ rfl (fun id' hne => ?_) ?_ fun _ => .inr ?_
      · simp only [State.announced, HashMap.getD, push, addEager, AList.lookup_insert_ne hne]
      · exact (prefix_append _ _).trans (prefix_append _ _)
      · simp [push, OutEvent.scheduled]
    · rename_i hem
      refine ho _ rfl (fun _ _ => rfl) prefix_rfl fun ha => absurd ?_ ha
      -- no announcement is left to be used
      unfold State.announced HashMap.getD
      rcases hl : c.missingMessages.lookup id with - | (- | ⟨x, rest⟩)
      · rfl
      · rfl
      · exact absurd hl (hem x.1 x.2 rest)

/-- All other events keep the messages tracked. -/
theorem Tracked.handleEvent (now : Instant) {ev : InEvent PI}
    (hg : ∀ id, ev ≠ .timerExpired (.sendGraft id)) :
    (Act.handleEvent blake3 c now ev).Tracked timers := by
  cases ev with
  | recvMessage sender message =>
    have hs : ∀ stats, ({ c with stats := stats } : Act PI).Tracked timers := fun _ => h
    cases message with
    | gossip ds => exact (hs _).relax (relaxes_onGossip _ sender ds now)
    | prune => exact h.relax (.of_eq rfl rfl prefix_rfl)
    | graft ds =>
      refine h.relax ?_
      simp only [Act.handleEvent, handleMessage, onGraft]
      split
      · exact .of_eq rfl rfl prefix_rfl
      · split
        · exact .of_eq rfl rfl prefix_rfl
        · exact .of_eq rfl rfl (prefix_append _ _)
    | iHave ds => exact (hs _).onIHave sender ds
  | broadcast content scope =>
    refine h.relax ?_
    cases scope with
    | swarm =>
      obtain ⟨queue, scheduled, l, hb, -, -⟩ := broadcast_swarm_spec blake3 c content now
      rw [Act.handleEvent, hb]
      exact .of_eq rfl rfl (prefix_append _ _)
    | neighbors =>
      obtain ⟨l, hb, -⟩ := broadcast_neighbors_spec blake3 c content now
      rw [Act.handleEvent, hb]
      exact .of_eq rfl rfl (prefix_append _ _)
  | neighborUp peer => exact h.relax (.of_eq rfl rfl prefix_rfl)
  | neighborDown peer => exact h.relax (relaxes_onNeighborDown c peer)
  | timerExpired timer =>
    cases timer with
    | sendGraft id => exact absurd rfl (hg id)
    | dispatchLazyPush =>
      rw [Act.handleEvent, onDispatchTimer_eq]
      exact h.relax (.of_eq rfl rfl (prefix_append _ _))
    | evictCache => exact h.relax (.of_eq rfl rfl (prefix_append _ _))

theorem Tracked.start (now : Instant) : (c.start now).Tracked timers := by
  unfold Act.start
  split_ifs
  · exact h
  · exact h.relax (.of_eq rfl rfl (prefix_append _ _))

end Act

/-! ### Runs -/

/-- If the graft timer of an announced message expires while the message is recorded as received,
another graft timer of the message is outstanding. -/
def KeepsGraftTimer (s : State PI × Multiset Timer) (i : InEvent PI × Instant) : Prop :=
  match i.1 with
  | .timerExpired (.sendGraft id) => (s.1.receivedAt i.2).containsKey id = true →
      s.1.announced id ≠ [] → 2 ≤ s.2.count (.sendGraft id)
  | _ => True

instance (s : State PI × Multiset Timer) : DecidablePred (KeepsGraftTimer s)
  | (.timerExpired (.sendGraft id), now) => inferInstanceAs (Decidable
      ((s.1.receivedAt now).containsKey id = true → s.1.announced id ≠ [] →
        2 ≤ s.2.count (.sendGraft id)))
  | (.timerExpired .dispatchLazyPush, _) => isTrue trivial
  | (.timerExpired .evictCache, _) => isTrue trivial
  | (.recvMessage _ _, _) => isTrue trivial
  | (.broadcast _ _, _) => isTrue trivial
  | (.neighborUp _, _) => isTrue trivial
  | (.neighborDown _, _) => isTrue trivial

omit [LinearOrder PI] in
theorem fired_eq_some {ev : InEvent PI} {now : Instant} {timer : Timer}
    (h : fired (ev, now) = some timer) : ev = .timerExpired timer := by
  cases ev with
  | timerExpired t => exact congrArg _ (Option.some.inj h)
  | _ => cases h

theorem tracked_step {s : State PI × Multiset Timer} {i : InEvent PI × Instant}
    (hk : KeepsGraftTimer s i) (h : Act.Tracked s.2 ⟨s.1, []⟩) :
    let s' := ((timedMachine blake3).step s i).1
    Act.Tracked s'.2 ⟨s'.1, []⟩ := by
  obtain ⟨s, timers⟩ := s
  obtain ⟨ev, now⟩ := i
  have hs := h.start now
  -- the timers that the event schedules are outstanding after it
  suffices h' : (Act.handleEvent blake3 (Act.start ⟨s, []⟩ now) now ev).Tracked _ from
    fun id hid => .inl (Multiset.mem_add.2 (h' id hid))
  by_cases hg : ∃ id, ev = .timerExpired (.sendGraft id)
  · obtain ⟨id, rfl⟩ := hg
    have hsa : (Act.start ⟨s, []⟩ now).announced id = s.announced id := by
      unfold Act.start
      split_ifs <;> rfl
    refine hs.onSendGraftTimer fun hr ha => hk ?_ (hsa ▸ ha)
    rwa [(State.start_frame s).2.1] at hr
  · have hg' : ∀ id, ev ≠ .timerExpired (.sendGraft id) := fun id he => hg ⟨id, he⟩
    refine Act.Tracked.handleEvent (fun id hid => ?_) now hg'
    exact (hs id hid).imp_left fun ht =>
      Machine.mem_afterFiring ht fun hf => hg' id (fired_eq_some hf)

/-- **No announced message is forgotten** in a run in which the last graft timer of an announced
message does not expire while the message is recorded as received: every announced message that is
not received has an outstanding graft timer. -/
theorem announced_tracked (blake3 : Bytes → MessageId) (me : PI) (config : Config)
    (maxMessageSize : ℕ) (events : List (InEvent PI × Instant))
    (hrun : (timedMachine blake3).Along KeepsGraftTimer (State.new me config maxMessageSize, 0)
      events) :
    let s := (timedMachine blake3).exec (State.new me config maxMessageSize, 0) events
    ∀ id, s.1.announced id ≠ [] → s.1.receivedMessages.containsKey id = false →
      .sendGraft id ∈ s.2 := by
  intro s id hid _
  have ht : Act.Tracked s.2 ⟨s.1, []⟩ :=
    Machine.exec_invariant_along (M := timedMachine blake3)
      (P := fun s => Act.Tracked s.2 ⟨s.1, []⟩) hrun
      (fun id hid => by simp [State.announced, State.new, HashMap.getD] at hid)
      fun s i hi h => tracked_step hi h
  exact (ht id (.inr hid)).resolve_right (by simp)

/-- Two peers announce a message; when the timer expires, the first one is asked for it, and the
second one stays in the queue with a new timer. -/
theorem announced_tracked_two_peers :
    let blake3 : Bytes → MessageId := fun content => ⟨content.length⟩
    let s₀ : State ℕ × Multiset Timer := (.new 0 {} 1024, 0)
    let events := [(InEvent.recvMessage 1 (.iHave [⟨⟨7⟩, 1⟩]), 0),
      (.recvMessage 2 (.iHave [⟨⟨7⟩, 2⟩]), 1), (.timerExpired (.sendGraft ⟨7⟩), 2)]
    let s := (timedMachine blake3).exec s₀ events
    s.1.announced ⟨7⟩ = [(2, 2)] ∧ ∀ id, s.1.announced id ≠ [] →
      s.1.receivedMessages.containsKey id = false → .sendGraft id ∈ s.2 := by
  intro blake3 s₀ events
  exact ⟨by decide +kernel, announced_tracked blake3 0 {} 1024 events (by decide +kernel)⟩

/-- A peer announces a message that we then broadcast ourselves.  The graft timer expires without
effect, and when the id has been evicted the announcement is left without a timer. -/
theorem announced_forgotten :
    let blake3 : Bytes → MessageId := fun content => ⟨content.length⟩
    let s₀ : State ℕ × Multiset Timer := (.new 0 {} 1024, 0)
    let retention := s₀.1.config.messageIdRetention
    let events := [(InEvent.recvMessage 1 (.iHave [⟨⟨1⟩, 1⟩]), 0), (.broadcast [7] .swarm, 1),
      (.timerExpired (.sendGraft ⟨1⟩), 2), (.timerExpired .evictCache, 1 + retention)]
    let s := (timedMachine blake3).exec s₀ events
    (timedMachine blake3).Along (Machine.Fires fired) s₀ events ∧
      (events.map Prod.snd).Pairwise (· ≤ ·) ∧ s.1.announced ⟨1⟩ = [(1, 1)] ∧
      s.1.receivedMessages.containsKey ⟨1⟩ = false ∧ .sendGraft ⟨1⟩ ∉ s.2 := by
  decide +kernel

end Boru.Plumtree
