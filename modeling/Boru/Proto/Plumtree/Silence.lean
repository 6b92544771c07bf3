import Boru.Proto.Plumtree.Graft

/-!
# Peers that left

A peer that left is dropped from the eager and the lazy peers and from the announcements, but not
from the queue of announcements to be sent.  `Forgotten` says that it is in none of these; then no
event sends it a message, until it comes up again or sends a message itself.

## Main results

* `silent_after_neighborDown_iff` : nothing is ever sent to a peer that left exactly if no
  announcement was queued for it when it left.
* `dispatch_to_departed` : a queued announcement is sent to a peer that left.
-/

namespace Boru.Plumtree

variable {PI : Type} [LinearOrder PI] {blake3 : Bytes → MessageId}

/-- The announcements queued for a peer. -/
def State.queued (s : State PI) (p : PI) : List IHave := (s.lazyPushQueue.get p).getD []

/-- `p` is in no container from which the receivers of messages are taken. -/
structure State.Forgotten (s : State PI) (p : PI) : Prop where
  eager : p ∉ s.eagerPushPeers
  lazy : p ∉ s.lazyPushPeers
  queued : s.queued p = []
  announced : ∀ id, ∀ x ∈ s.announced id, x.1 ≠ p

/-- The event does not come from `p`: neither does `p` come up nor is a message of it received. -/
def InEvent.NotFrom (p : PI) : InEvent PI → Prop
  | .neighborUp peer => peer ≠ p
  | .recvMessage sender _ => sender ≠ p
  | _ => True

def OutEvent.SendsTo (p : PI) : OutEvent PI → Prop
  | .sendMessage peer _ => peer = p
  | _ => False

namespace Act

variable {c c' : Act PI} {p : PI}

theorem Forward.not_sendsTo {e : OutEvent PI} (h : c.Forward e) (hp : p ∉ c.eagerPushPeers) :
    ¬ e.SendsTo p := by
  rcases h with ⟨peer, hpe, gossip, rfl⟩ | rfl
  · rintro rfl
    exact hp hpe
  · exact id

/-- `p` is forgotten and no message has been sent to it. -/
structure Silent (p : PI) (c : Act PI) : Prop where
  forgotten : c.Forgotten p
  io : ∀ e ∈ c.io, ¬ e.SendsTo p

section

variable (h : c.Silent p)

include h

/-- A handler that leaves the peers alone, adds no announcement by or for `p` and sends it no
message keeps `p` silent. -/
theorem Silent.frame {l : List (OutEvent PI)} (hea : c'.eagerPushPeers = c.eagerPushPeers)
    (hla : c'.lazyPushPeers = c.lazyPushPeers) (hq : c'.lazyPushQueue.get p = c.lazyPushQueue.get p)
    (ha : ∀ id, c'.announced id ⊆ c.announced id) (hio : c'.io = c.io ++ l)
    (hl : ∀ e ∈ l, ¬ e.SendsTo p) : c'.Silent p := by
  refine ⟨⟨hea ▸ h.forgotten.eager, hla ▸ h.forgotten.lazy, ?_, ?_⟩, ?_⟩
  · rw [State.queued, hq]
    exact h.forgotten.queued
  · exact fun id x hx => h.forgotten.announced id x (ha id hx)
  · rw [hio]
    exact List.forall_mem_append.2 ⟨h.io, hl⟩

theorem Silent.of_eq (hea : c'.eagerPushPeers = c.eagerPushPeers)
    (hl : c'.lazyPushPeers = c.lazyPushPeers) (hq : c'.lazyPushQueue = c.lazyPushQueue)
    (hm : c'.missingMessages = c.missingMessages) (hio : c'.io = c.io) : c'.Silent p := by
  refine h.frame (l := []) hea hl (hq ▸ rfl) (fun id => ?_) (by simp [hio]) (by simp)
  rw [State.announced, hm]
  exact List.Subset.refl _

theorem Silent.push {e : OutEvent PI} (he : ¬ e.SendsTo p) : (c.push e).Silent p :=
  h.frame (l := [e]) rfl rfl rfl (fun _ => List.Subset.refl _) rfl (by simpa using he)

theorem Silent.schedule (delay : Duration) (timer : Timer) :
    (c.push (.scheduleTimer delay timer)).Silent p :=
  h.push id

theorem Silent.addEager {peer : PI} (hne : peer ≠ p) : (c.addEager peer).Silent p := by
  refine ⟨⟨?_, ?_, h.forgotten.queued, h.forgotten.announced⟩, h.io⟩
  · simp [Act.addEager, hne.symm, h.forgotten.eager]
  · simp [Act.addEager, h.forgotten.lazy]

theorem Silent.addLazy {peer : PI} (hne : peer ≠ p) : (c.addLazy peer).Silent p := by
  refine ⟨⟨?_, ?_, h.forgotten.queued, h.forgotten.announced⟩, h.io⟩
  · simp [Act.addLazy, h.forgotten.eager]
  · simp [Act.addLazy, hne.symm, h.forgotten.lazy]

/-! ### The handlers -/

theorem Silent.optimizeTree {sender : PI} (hs : sender ≠ p) (round : Round)
    {l : List (PI × Round)} (hl : ∀ x ∈ l, x.1 ≠ p) : (c.optimizeTree sender round l).Silent p := by
  rcases optimizeTree_cases sender round l with heq | ⟨x, hx, heq⟩
  · rw [heq]
    exact h
  · rw [heq]
    have hg : (if x.1 ∈ c.eagerPushPeers then c else
        (c.addEager x.1).push (.sendMessage x.1 (.graft ⟨none, x.2⟩))).Silent p := by
      split_ifs
      · exact h
      · exact (h.addEager (hl x hx)).push (hl x hx)
    exact (hg.addLazy hs).push hs

end

theorem announced_erase_subset (id id' : MessageId) :
    HashMap.getD (c.missingMessages.erase id) id' [] ⊆ c.announced id' := by
  unfold HashMap.getD
  by_cases heq : id' = id
  · subst heq
    simp
  · rw [AList.lookup_erase_ne heq]
    exact List.Subset.refl _

variable (h : c.Silent p)

include h

theorem Silent.acceptSwarm {sender : PI} (hse : sender ≠ p) (msg : Gossip)
    (round : Round) (now : Instant) :
    (c.acceptSwarm sender msg round now).Silent p := by
  have hs : (c.storeSwarm sender msg round now).Silent p := by
    obtain ⟨queue, scheduled, l, cache, heq, hl, hq⟩ :=
      storeSwarm_spec sender msg round now
    rw [heq]
    refine h.frame (l := l) rfl rfl (hq p h.forgotten.lazy)
      (fun id => announced_erase_subset msg.id id) rfl fun e he => ?_
    rcases hl e he with hf | rfl
    · exact hf.not_sendsTo h.forgotten.eager
    · exact id
  unfold Act.acceptSwarm
  cases hp : c.missingMessages.lookup msg.id with
  | none => exact hs.of_eq rfl rfl rfl rfl rfl
  | some iHaves =>
    have hne : ∀ x ∈ iHaves, x.1 ≠ p := by
      have := h.forgotten.announced msg.id
      rwa [State.announced, HashMap.getD, hp] at this
    have ho := hs.optimizeTree hse round.next hne
    exact ho.of_eq rfl rfl rfl rfl rfl

theorem Silent.onGossip {sender : PI} (hs : sender ≠ p) (msg : Gossip) (now : Instant) :
    (Act.onGossip blake3 c sender msg now).Silent p := by
  unfold Act.onGossip
  split_ifs
  · exact h
  · exact h.of_eq rfl rfl rfl rfl rfl
  · exact (h.addLazy hs).push hs
  · have hp := h.push (e := .emitEvent (.received (.fromMessage msg sender))) id
    split
    · exact hp
    · exact hp.acceptSwarm hs _ _ _

theorem Silent.onIHave {sender : PI} (hs : sender ≠ p) (iH : List IHave) :
    (c.onIHave sender iH).Silent p := by
  have hone : ∀ (c : Act PI) (i : IHave), c.Silent p →
      (onIHaveOne sender c i).Silent p := by
    intro c i h
    have ha : ({ c with
        missingMessages := c.missingMessages.upsert i.id [] (· ++ [(sender, i.round)])
        } : Act PI).Silent p := by
      refine ⟨⟨h.forgotten.eager, h.forgotten.lazy, h.forgotten.queued, fun id x hx => ?_⟩, h.io⟩
      have ho := h.forgotten.announced id
      unfold State.announced HashMap.getD at hx
      by_cases heq : id = i.id
      · rw [heq, HashMap.lookup_upsert, ← heq] at hx
        rcases List.mem_append.1 hx with hx | hx
        · exact ho x hx
        · rw [List.mem_singleton.1 hx]
          exact hs
      · rw [HashMap.lookup_upsert_ne _ _ _ heq] at hx
        exact ho x hx
    unfold onIHaveOne
    dsimp only
    split_ifs
    · exact h
    · exact ha
    · refine Silent.schedule ?_ _ _
      exact ha.of_eq rfl rfl rfl rfl rfl
  induction iH generalizing c with
  | nil => exact h
  | cons i iH ih => exact ih (hone c i h)

theorem Silent.onSendGraftTimer (id : MessageId) : (c.onSendGraftTimer id).Silent p := by
  unfold Act.onSendGraftTimer
  dsimp only
  split_ifs
  · exact h.of_eq rfl rfl rfl rfl rfl
  · split
    · rename_i peer round rest hl
      have hmem : ∀ x ∈ (peer, round) :: rest, x.1 ≠ p := by
        have := h.forgotten.announced id
        rwa [State.announced, HashMap.getD, hl] at this
      have hp : ({ c with
          graftTimerScheduled := c.graftTimerScheduled.erase id
          missingMessages := c.missingMessages.insert id rest } : Act PI).Silent p := by
        refine ⟨⟨h.forgotten.eager, h.forgotten.lazy, h.forgotten.queued, fun id' x hx => ?_⟩, h.io⟩
        by_cases heq : id' = id
        · rw [State.announced, HashMap.getD, heq, AList.lookup_insert] at hx
          exact hmem x (List.mem_cons_of_mem _ hx)
        · rw [State.announced, HashMap.getD, AList.lookup_insert_ne heq] at hx
          exact h.forgotten.announced id' x hx
      have hne : peer ≠ p := hmem _ List.mem_cons_self
      have hs := (hp.addEager hne).push (e := .sendMessage peer (.graft ⟨some id, round⟩)) hne
      exact hs.schedule _ _
    · exact h.of_eq rfl rfl rfl rfl rfl

theorem Silent.onDispatchTimer : c.onDispatchTimer.Silent p := by
  rw [onDispatchTimer_eq]
  refine ⟨⟨h.forgotten.eager, h.forgotten.lazy, rfl, h.forgotten.announced⟩, ?_⟩
  refine List.forall_mem_append.2 ⟨h.io, fun e he => ?_⟩
  obtain ⟨⟨peer, iHaves⟩, hx, hch⟩ := List.mem_flatMap.1 he
  obtain ⟨chunk, hc, rfl⟩ := List.mem_map.1 hch
  -- the queue of `p` is empty, so it is cut into no pieces
  rintro rfl
  have hq := h.forgotten.queued
  rw [State.queued, BTreeMap.get_eq_some.2 hx] at hq
  obtain rfl : iHaves = [] := hq
  unfold chunks at hc
  split_ifs at hc <;> cases hc

theorem Silent.onNeighborDown (peer : PI) : (c.onNeighborDown peer).Silent p := by
  refine ⟨⟨?_, ?_, h.forgotten.queued, fun id x hx => ?_⟩, h.io⟩
  · simp [Act.onNeighborDown, h.forgotten.eager]
  · simp [Act.onNeighborDown, h.forgotten.lazy]
  · rw [announced_onNeighborDown] at hx
    exact h.forgotten.announced id x (List.mem_filter.1 hx).1

theorem Silent.onEvictCacheTimer (now : Instant) : (c.onEvictCacheTimer now).Silent p := by
  refine Silent.schedule ?_ _ _
  exact h.of_eq rfl rfl rfl rfl rfl

/-- An event that does not come from `p` leaves it forgotten and sends it nothing. -/
theorem Silent.handleEvent (now : Instant) {ev : InEvent PI} (hev : ev.NotFrom p) :
    (Act.handleEvent blake3 c now ev).Silent p := by
  have hf : ∀ {l : List (OutEvent PI)}, (∀ e ∈ l, c.Forward e) →
      ∀ e ∈ l, ¬ e.SendsTo p := fun hl e he => (hl e he).not_sendsTo h.forgotten.eager
  cases ev with
  | recvMessage sender msg =>
    have hs : ∀ stats, ({ c with stats := stats } : Act PI).Silent p :=
      fun _ => h.of_eq rfl rfl rfl rfl rfl
    cases msg with
    | gossip ds => exact (hs _).onGossip hev ds now
    | prune => exact (hs _).addLazy hev
    | graft ds =>
      have ha := (hs { c.stats with
        controlMessagesReceived := c.stats.controlMessagesReceived + 1 }).addEager hev
      simp only [Act.handleEvent, handleMessage, onGraft]
      split
      · exact ha
      · split
        · exact ha
        · exact ha.push hev
    | iHave ds => exact (hs _).onIHave hev ds
  | broadcast content scope =>
    cases scope with
    | swarm =>
      obtain ⟨queue, scheduled, l, hb, hl, hq⟩ := broadcast_swarm_spec blake3 c content now
      rw [Act.handleEvent, hb]
      exact h.frame rfl rfl (hq p h.forgotten.lazy) (fun _ => List.Subset.refl _) rfl (hf hl)
    | neighbors =>
      obtain ⟨l, hb, hl⟩ := broadcast_neighbors_spec blake3 c content now
      rw [Act.handleEvent, hb]
      exact h.frame rfl rfl rfl (fun _ => List.Subset.refl _) rfl (hf hl)
  | neighborUp peer => exact h.addEager hev
  | neighborDown peer => exact h.onNeighborDown peer
  | timerExpired timer =>
    cases timer with
    | sendGraft id => exact h.onSendGraftTimer id
    | dispatchLazyPush => exact h.onDispatchTimer
    | evictCache => exact h.onEvictCacheTimer now

theorem Silent.start (now : Instant) : (c.start now).Silent p := by
  unfold Act.start
  split_ifs
  · exact h
  · refine Silent.onEvictCacheTimer ?_ now
    exact h.of_eq rfl rfl rfl rfl rfl

end Act

/-! ### Runs -/

variable {s : State PI} {p : PI}

/-- One event that does not come from a forgotten peer. -/
theorem State.Forgotten.handle (blake3 : Bytes → MessageId) (h : s.Forgotten p) {ev : InEvent PI}
    (hev : ev.NotFrom p) (now : Instant) :
    (s.handle blake3 ev now).1.Forgotten p ∧ ∀ e ∈ (s.handle blake3 ev now).2, ¬ e.SendsTo p := by
  have hs : (⟨s, []⟩ : Act PI).Silent p := ⟨h, by simp⟩
  have hen : (Act.handleEvent blake3 (Act.start ⟨s, []⟩ now) now ev).Silent p :=
    (hs.start now).handleEvent now hev
  exact ⟨hen.forgotten, hen.io⟩

/-- A peer that left with an empty queue is forgotten. -/
theorem forgotten_neighborDown (hq : s.queued p = []) (now : Instant) :
    (s.handle blake3 (.neighborDown p) now).1.Forgotten p := by
  have hs : (Act.start ⟨s, []⟩ now).queued p = s.queued p := by
    unfold Act.start
    split_ifs <;> rfl
  refine ⟨?_, ?_, hs.trans hq, fun id x hx => ?_⟩
  · exact fun hmem => (BTreeSet.mem_remove.1 hmem).1 rfl
  · exact fun hmem => (BTreeSet.mem_remove.1 hmem).1 rfl
  · have hx' : x ∈ ((Act.start ⟨s, []⟩ now).onNeighborDown p).announced id := hx
    rw [Act.announced_onNeighborDown] at hx'
    simpa using (List.mem_filter.1 hx').2

/-- A dispatch sends the announcements queued for a peer. -/
theorem dispatch_sendsTo (hs : IHave.postcardMaxSize + 3 ≤ s.maxMessageSize)
    (hq : s.queued p ≠ []) (now : Instant) :
    ∃ e ∈ (s.handle blake3 (.timerExpired .dispatchLazyPush) now).2, e.SendsTo p := by
  obtain ⟨hqu, hm⟩ : (Act.start ⟨s, []⟩ now).lazyPushQueue = s.lazyPushQueue ∧
      (Act.start ⟨s, []⟩ now).maxMessageSize = s.maxMessageSize := by
    unfold Act.start
    split_ifs <;> exact ⟨rfl, rfl⟩
  obtain ⟨iHaves, hg⟩ : ∃ iHaves, s.lazyPushQueue.get p = some iHaves := by
    rw [← Option.isSome_iff_exists, Option.isSome_iff_ne_none]
    intro hn
    exact hq (by rw [State.queued, hn, Option.getD_none])
  rw [State.queued, hg] at hq
  have hlen : 0 < (s.maxMessageSize - 1 - 2) / IHave.postcardMaxSize :=
    Nat.div_pos (by omega) (by decide)
  obtain ⟨chunk, hc⟩ := List.exists_mem_of_ne_nil _ (mt (chunks_eq_nil_iff hlen).1 hq)
  refine ⟨.sendMessage p (.iHave chunk), ?_, rfl⟩
  have hio : (s.handle blake3 (.timerExpired .dispatchLazyPush) now).2 =
      (Act.start ⟨s, []⟩ now).io ++ (Act.start ⟨s, []⟩ now).announcements := by
    rw [State.handle, Act.handleEvent, Act.onDispatchTimer_eq]
  rw [hio]
  refine List.mem_append_right _ (List.mem_flatMap.2 ⟨(p, iHaves), ?_, ?_⟩)
  · rw [hqu]
    exact BTreeMap.get_eq_some.1 hg
  · rw [hm]
    exact List.mem_map.2 ⟨chunk, hc, rfl⟩

/-- Nothing is sent to a forgotten peer in a run of events that do not come from it. -/
theorem State.Forgotten.trace (h : s.Forgotten p) {evs : List (InEvent PI × Instant)}
    (hev : ∀ i ∈ evs, i.1.NotFrom p) :
    ∀ e ∈ (machine blake3).trace s evs, ¬ e.SendsTo p := by
  have hr := Machine.trace_invariant_along (M := machine blake3)
    (P := fun s hit => s.Forgotten p ∧ ∀ e ∈ hit, ¬ e.SendsTo p)
    (Machine.along_of_forall hev s) ⟨h, by simp⟩ fun s hit i hi hs => by
      obtain ⟨hs', hout⟩ := hs.1.handle blake3 hi i.2
      exact ⟨hs', List.forall_mem_append.2 ⟨hs.2, hout⟩⟩
  exact hr.2

/-- **When a peer that left is sent nothing more.**  If messages have room for an announcement,
then no run after the departure of `p`, in which `p` does not come up again and no message of it is
received, sends it a message, exactly if no announcement was queued for it when it left. -/
theorem silent_after_neighborDown_iff (blake3 : Bytes → MessageId) (s : State PI) (p : PI)
    (now : Instant) (hsize : IHave.postcardMaxSize + 3 ≤ s.maxMessageSize) :
    (∀ events : List (InEvent PI × Instant), (∀ i ∈ events, i.1.NotFrom p) →
      ∀ e ∈ (machine blake3).trace (s.handle blake3 (.neighborDown p) now).1 events,
        ¬ e.SendsTo p) ↔ s.queued p = [] := by
  constructor
  · intro h
    by_contra hq
    obtain ⟨hq', hm⟩ : (s.handle blake3 (.neighborDown p) now).1.queued p = s.queued p ∧
        (s.handle blake3 (.neighborDown p) now).1.maxMessageSize = s.maxMessageSize := by
      unfold State.handle Act.start
      split_ifs <;> exact ⟨rfl, rfl⟩
    rw [← hm] at hsize
    rw [← hq'] at hq
    obtain ⟨e, he, hto⟩ := dispatch_sendsTo hsize hq now
    refine h [(.timerExpired .dispatchLazyPush, now)] (by simp [InEvent.NotFrom]) e ?_ hto
    exact List.mem_append_left _ he
  · intro hq events hev
    exact (forgotten_neighborDown hq now).trace hev

/-- A neighbor leaves while nothing is queued for it, and we broadcast a message. -/
theorem silent_after_neighborDown_iff_idle :
    let blake3 : Bytes → MessageId := fun content => ⟨content.length⟩
    let s₀ : State ℕ := .new 0 {} 1024
    let s := (machine blake3).exec s₀ [(.neighborUp 1, 0), (.recvMessage 1 .prune, 1)]
    1 ∈ s.lazyPushPeers ∧ ∀ e ∈ (machine blake3).trace (s.handle blake3 (.neighborDown 1) 2).1
      [(.broadcast [7] .swarm, 3), (.timerExpired .dispatchLazyPush, 4)], ¬ e.SendsTo 1 := by
  intro blake3 s₀ s
  refine ⟨by decide +kernel, ?_⟩
  exact (silent_after_neighborDown_iff blake3 s 1 2 (by decide +kernel)).2 (by decide +kernel) _
    (by simp [InEvent.NotFrom])

/-- An announcement queued for a lazy peer is sent to it after it left. -/
theorem dispatch_to_departed :
    let blake3 : Bytes → MessageId := fun content => ⟨content.length⟩
    let s₀ : State ℕ × Multiset Timer := (.new 0 {} 1024, 0)
    let before := [(InEvent.neighborUp 1, 0), (.recvMessage 1 .prune, 1),
      (.broadcast [7] .swarm, 2), (.neighborDown 1, 3)]
    let after := [(InEvent.timerExpired .dispatchLazyPush, 4)]
    let s := (timedMachine blake3).exec s₀ before
    (timedMachine blake3).Along (Machine.Fires fired) s₀ (before ++ after) ∧
      .sendMessage 1 (.iHave [⟨⟨1⟩, 0⟩]) ∈ (timedMachine blake3).trace s after := by
  decide +kernel

end Boru.Plumtree
