import Boru.Proto.Hyparview.State

/-!
# The two views of a HyParView node

The active and the passive view of a node are disjoint, contain other nodes only, and respect
their configured capacities, whatever events the node is fed and whatever the random choices
are (`views_exec`).  Peers move between the views through many handlers; the argument is one
lemma per handler, on top of three operations that really change a view: `Act.addPassive`,
`Act.removeActiveByIndex` and `Act.addActiveUnchecked`.
-/

namespace Boru.Hyparview

open IndexSet

variable {PI R : Type} {me : PI} {config : Config}

/-- The state belongs to `me`, is configured by `config`, and its views are well formed. -/
structure State.Views (me : PI) (config : Config) (s : State PI R) : Prop where
  /-- The identity never changes. -/
  me_eq : s.me = me
  /-- The configuration cannot change at runtime. -/
  config_eq : s.config = config
  /-- No peer is in both views. -/
  disjoint : ∀ p ∈ s.activeView, p ∉ s.passiveView
  me_active : s.me ∉ s.activeView
  /-- We are not in our own address book. -/
  me_passive : s.me ∉ s.passiveView
  /-- The active view respects its capacity, unless it has none. -/
  active_len : 1 ≤ s.config.activeViewCapacity → s.activeView.len ≤ s.config.activeViewCapacity
  /-- The passive view respects its capacity, unless it has none. -/
  passive_len : 1 ≤ s.config.passiveViewCapacity → s.passiveView.len ≤ s.config.passiveViewCapacity

/-- `s'` has the identity, the configuration and the views of `s`. -/
structure SameViews (s s' : State PI R) : Prop where
  me : s'.me = s.me
  config : s'.config = s.config
  active : s'.activeView = s.activeView
  passive : s'.passiveView = s.passiveView

/-- `s'` has the identity, the configuration and the active view of `s`. -/
structure SameActive (s s' : State PI R) : Prop where
  me : s'.me = s.me
  config : s'.config = s.config
  active : s'.activeView = s.activeView

theorem SameActive.trans {s s' s'' : State PI R} (h : SameActive s s') (h' : SameActive s' s'') :
    SameActive s s'' :=
  ⟨h'.me.trans h.me, h'.config.trans h.config, h'.active.trans h.active⟩

namespace SameViews

variable {s s' s'' : State PI R}

theorem sameActive (h : SameViews s s') : SameActive s s' := ⟨h.me, h.config, h.active⟩

theorem refl (s : State PI R) : SameViews s s := ⟨rfl, rfl, rfl, rfl⟩

theorem trans (h : SameViews s s') (h' : SameViews s' s'') : SameViews s s'' :=
  ⟨h'.me.trans h.me, h'.config.trans h.config, h'.active.trans h.active, h'.passive.trans h.passive⟩

end SameViews

theorem State.Views.congr {s s' : State PI R} (hv : s.Views me config) (h : SameViews s s') :
    s'.Views me config := by
  obtain ⟨hm, hc, ha, hp⟩ := h
  obtain ⟨h1, h2, h3, h4, h5, h6, h7⟩ := hv
  constructor <;> simp only [hm, hc, ha, hp] <;> assumption

theorem new_views {meData : Option PeerData} {rng : R} :
    (State.new me meData config rng).Views me config :=
  ⟨rfl, rfl, fun _ h => absurd h (not_mem_new _), not_mem_new _,
    not_mem_new _, fun _ => Nat.zero_le _, fun _ => Nat.zero_le _⟩

namespace Act

section

variable (c : Act PI R)

theorem scheduleShuffle_same : SameViews c.toState c.scheduleShuffle.toState := by
  unfold scheduleShuffle; split_ifs <;> exact ⟨rfl, rfl, rfl, rfl⟩

variable [DecidableEq PI] (peer : PI) (reason : RemovalReason)

theorem insertPeerInfo_same (info : PeerInfo PI) :
    SameViews c.toState (c.insertPeerInfo info).toState := by
  unfold insertPeerInfo
  split
  · exact .refl _
  · dsimp only; split_ifs <;> exact ⟨rfl, rfl, rfl, rfl⟩

theorem sendNeighbor_same (pr : Priority) :
    SameViews c.toState (c.sendNeighbor peer pr).toState := by
  unfold sendNeighbor; split_ifs <;> exact ⟨rfl, rfl, rfl, rfl⟩

theorem keepAsPassive_same : SameViews c.toState (c.keepAsPassive peer reason).2.toState := by
  cases reason <;> exact ⟨rfl, rfl, rfl, rfl⟩

variable {c}

theorem removePassive_views (h : c.Views me config) :
    ({ c with passiveView := (c.passiveView.remove peer).2 } : Act PI R).Views me config where
  me_eq := h.me_eq
  config_eq := h.config_eq
  disjoint p hp hq := h.disjoint p hp (mem_remove.1 hq).1
  me_active := h.me_active
  me_passive hp := h.me_passive (mem_remove.1 hp).1
  active_len := h.active_len
  passive_len hc := len_remove_le.trans (h.passive_len hc)

end

variable [DecidableEq PI] [Rng R] {c : Act PI R}

/-! ### Handlers that leave the views alone -/

section

variable (c) (peer : PI) (reason : RemovalReason)

theorem sendDisconnect_same {alive : Bool} :
    SameViews c.toState (c.sendDisconnect peer alive).toState := ⟨rfl, rfl, rfl, rfl⟩

theorem closeActive_same : SameViews c.toState (c.closeActive peer reason).toState := by
  cases reason <;> exact ⟨rfl, rfl, rfl, rfl⟩

theorem refillActiveFromPassive_same {sp : Finset PI} :
    SameViews c.toState (c.refillActiveFromPassive sp).toState := by
  unfold refillActiveFromPassive
  split_ifs
  · exact .refl _
  · dsimp only
    split
    · exact ⟨rfl, rfl, rfl, rfl⟩
    · simp only [sendNeighbor]
      split_ifs <;> exact ⟨rfl, rfl, rfl, rfl⟩

theorem handleShuffleTimer_same : SameViews c.toState c.handleShuffleTimer.toState := by
  unfold handleShuffleTimer
  dsimp only
  split <;> exact ⟨rfl, rfl, rfl, rfl⟩

end

/-! ### Handlers that change a view -/

theorem addPassive_same (c : Act PI R) (peer : PI) (data : Option PeerData) :
    SameActive c.toState (c.addPassive peer data).toState := by
  have hs := (insertPeerInfo_same c ⟨peer, data⟩).sameActive
  unfold addPassive
  dsimp only
  split_ifs <;> exact ⟨hs.me, hs.config, hs.active⟩

theorem addPassive_views (h : c.Views me config) (peer : PI) (data : Option PeerData) :
    (c.addPassive peer data).Views me config := by
  unfold addPassive
  have hv := h.congr (insertPeerInfo_same c ⟨peer, data⟩)
  generalize c.insertPeerInfo ⟨peer, data⟩ = c at hv
  dsimp only
  split_ifs with hmem hf
  · exact hv
  · -- a random peer makes room
    rw [not_or, not_or] at hmem
    refine ⟨hv.me_eq, hv.config_eq, fun p hp hq => ?_, hv.me_active, fun hq => ?_,
      hv.active_len, fun hc => ?_⟩
    · rcases mem_insert.1 hq with rfl | hq
      · exact hmem.1 hp
      · exact hv.disjoint p hp (mem_of_mem_removeRandom hq)
    · rcases mem_insert.1 hq with hq | hq
      · exact hmem.2.2 hq.symm
      · exact hv.me_passive (mem_of_mem_removeRandom hq)
    · have h1 := len_insert_le (s := (c.passiveView.removeRandom c.rng).1.2) (x := peer)
      have h2 : (c.passiveView.removeRandom c.rng).1.2.len ≤ c.passiveView.len - 1 :=
        len_removeRandom_le
      have h3 := hv.passive_len hc
      dsimp only at hc ⊢
      omega
  · rw [not_or, not_or] at hmem
    refine ⟨hv.me_eq, hv.config_eq, fun p hp hq => ?_, hv.me_active, fun hq => ?_,
      hv.active_len, fun hc => ?_⟩
    · rcases mem_insert.1 hq with rfl | hq
      · exact hmem.1 hp
      · exact hv.disjoint p hp hq
    · rcases mem_insert.1 hq with hq | hq
      · exact hmem.2.2 hq.symm
      · exact hv.me_passive hq
    · have h1 := len_insert_le (s := c.passiveView) (x := peer)
      simp only [State.passiveIsFull, decide_eq_true_eq] at hf
      dsimp only
      omega

theorem addPassive_foldl_views (h : c.Views me config) {ns : List (PeerInfo PI)} :
    (ns.foldl (fun c node => c.addPassive node.id node.data) c).Views me config := by
  induction ns generalizing c with
  | nil => exact h
  | cons node ns ih => exact ih (addPassive_views h _ _)

theorem retainPassive_views (h : c.Views me config) (peer : PI) (reason : RemovalReason) :
    (c.retainPassive peer reason).Views me config := by
  have hv : ({ c with peerData := c.peerData.erase peer } : Act PI R).Views me config :=
    h.congr ⟨rfl, rfl, rfl, rfl⟩
  have hv' := addPassive_views hv peer (c.peerData.lookup peer)
  unfold retainPassive
  split_ifs
  · exact hv'
  · exact hv'.congr ⟨rfl, rfl, rfl, rfl⟩

theorem retainPassive_same (c : Act PI R) (peer : PI) (reason : RemovalReason) :
    SameActive c.toState (c.retainPassive peer reason).toState := by
  have hs := addPassive_same { c with peerData := c.peerData.erase peer } peer
    (c.peerData.lookup peer)
  unfold retainPassive
  split_ifs <;> exact ⟨hs.me, hs.config, hs.active⟩

variable {reason : RemovalReason}

theorem removeActiveByIndex_views (h : c.Views me config) (i : ℕ) :
    (c.removeActiveByIndex i reason).2.Views me config := by
  unfold removeActiveByIndex
  split
  · exact h
  · rename_i peer hp
    rw [removeIndex_fst] at hp
    obtain ⟨hi, -⟩ := List.getElem?_eq_some_iff.1 hp
    have hlen : (c.activeView.removeIndex i).2.len ≤ c.activeView.len := by
      rw [len_removeIndex hi]; omega
    have hv : ({ c with activeView := (c.activeView.removeIndex i).2 } :
        Act PI R).Views me config :=
      ⟨h.me_eq, h.config_eq, fun p hp' => h.disjoint p ((mem_removeIndex hp).1 hp').1,
        fun hm => h.me_active ((mem_removeIndex hp).1 hm).1, h.me_passive,
        fun hc => hlen.trans (h.active_len hc), h.passive_len⟩
    have hs := (closeActive_same (({ c with
      activeView := (c.activeView.removeIndex i).2 } : Act PI R).push
        (.emitEvent (.neighborDown peer))) peer reason).trans
      (keepAsPassive_same _ peer reason)
    have hv' := (hv.congr ⟨rfl, rfl, rfl, rfl⟩).congr hs
    dsimp only
    split_ifs
    · exact retainPassive_views hv' peer reason
    · exact hv'

theorem removeActiveByIndex_same (c : Act PI R) (i : ℕ) (reason : RemovalReason) :
    SameActive { c.toState with activeView := (c.activeView.removeIndex i).2 }
      (c.removeActiveByIndex i reason).2.toState := by
  unfold removeActiveByIndex
  split
  · rename_i hn
    rw [removeIndex_fst, List.getElem?_eq_none_iff] at hn
    exact ⟨rfl, rfl, by simp [removeIndex, Nat.not_lt.2 hn]⟩
  · rename_i peer hp
    have hs := ((closeActive_same (({ c with
      activeView := (c.activeView.removeIndex i).2 } : Act PI R).push
        (.emitEvent (.neighborDown peer))) peer reason).trans
      (keepAsPassive_same _ peer reason)).sameActive
    dsimp only
    split_ifs
    · exact hs.trans (retainPassive_same _ _ _)
    · exact hs

theorem removeActive_views (h : c.Views me config) (peer : PI) :
    (c.removeActive peer reason).Views me config := by
  unfold removeActive
  split
  · exact h
  · exact (removeActiveByIndex_views h _).congr (refillActiveFromPassive_same _)

theorem freeRandomSlotInActiveView_views (h : c.Views me config) :
    c.freeRandomSlotInActiveView.Views me config := by
  unfold freeRandomSlotInActiveView
  dsimp only
  split
  · exact h.congr ⟨rfl, rfl, rfl, rfl⟩
  · apply removeActiveByIndex_views
    exact h.congr ⟨rfl, rfl, rfl, rfl⟩

theorem freeRandomSlotInActiveView_frame (c : Act PI R) :
    c.freeRandomSlotInActiveView.me = c.me ∧ c.freeRandomSlotInActiveView.config = c.config := by
  unfold freeRandomSlotInActiveView
  dsimp only
  split
  · exact ⟨rfl, rfl⟩
  · rename_i i _
    have hs := removeActiveByIndex_same { c with
      rng := (c.activeView.pickRandomIndex c.rng).2 } i .random
    exact ⟨hs.me, hs.config⟩

variable (h : c.Views me config)

include h

variable (peer : PI) (data : Option PeerData) (p : PI) (msg : Message PI)

/-- After a slot was freed, a view that respects its capacity has room. -/
theorem freeRandomSlotInActiveView_room (hc : 1 ≤ c.config.activeViewCapacity) :
    c.freeRandomSlotInActiveView.activeView.len < c.config.activeViewCapacity := by
  have hlen := h.active_len hc
  unfold freeRandomSlotInActiveView
  dsimp only
  split
  · rename_i hn
    have := pickRandomIndex_eq_none.1 hn
    simp only [len, this, List.length_nil]
    omega
  · rename_i i hi
    have hlt := pickRandomIndex_lt hi
    rw [(removeActiveByIndex_same _ _ _).active, len_removeIndex hlt]
    omega

omit [Rng R] in
theorem addActiveUnchecked_views {peer : PI} (hp : peer ≠ c.me)
    (hro : 1 ≤ c.config.activeViewCapacity → c.activeView.len < c.config.activeViewCapacity)
    {pr : Priority} {reply : Bool} :
    (c.addActiveUnchecked peer pr reply).Views me config := by
  have hv := removePassive_views peer h
  unfold addActiveUnchecked
  dsimp only
  split_ifs with hi hr
  all_goals try exact hv
  all_goals
    have hv' : ({ c with
        passiveView := (c.passiveView.remove peer).2
        activeView := (c.activeView.insert peer).2 } : Act PI R).Views me config := by
      refine ⟨hv.me_eq, hv.config_eq, fun p hp' hq => ?_, fun hm => ?_, hv.me_passive,
        fun hc => ?_, hv.passive_len⟩
      · rcases mem_insert.1 hp' with rfl | hp'
        · exact (mem_remove.1 hq).2 rfl
        · exact hv.disjoint p hp' hq
      · rcases mem_insert.1 hm with hm | hm
        · exact hp hm.symm
        · exact hv.me_active hm
      · exact len_insert_le.trans (hro hc)
  · refine State.Views.congr ?_ (sendNeighbor_same _ _ _)
    exact hv'.congr ⟨rfl, rfl, rfl, rfl⟩
  · exact hv'.congr ⟨rfl, rfl, rfl, rfl⟩

theorem addActive_views {pr : Priority} {reply : Bool} :
    (c.addActive peer data pr reply).2.Views me config := by
  by_cases hme : peer = c.me
  · simpa [addActive, hme] using h
  · have hs := insertPeerInfo_same c ⟨peer, data⟩
    have hv := h.congr hs
    have hm' : peer ≠ (c.insertPeerInfo ⟨peer, data⟩).me := hs.me ▸ hme
    simp only [addActive, hme, ↓reduceIte]
    generalize c.insertPeerInfo ⟨peer, data⟩ = c at hv hm'
    by_cases hin : peer ∈ c.activeView
    · split_ifs
      · exact hv.congr (sendNeighbor_same _ _ _)
      · exact hv
    · simp only [hin, ↓reduceIte]
      split
      · split_ifs with hf
        · obtain ⟨hm, hc⟩ := freeRandomSlotInActiveView_frame c
          exact addActiveUnchecked_views (freeRandomSlotInActiveView_views hv) (by rwa [hm])
            (hc ▸ freeRandomSlotInActiveView_room hv)
        · simp only [State.activeIsFull, decide_eq_true_eq, not_le] at hf
          exact addActiveUnchecked_views hv hm' (fun _ => hf)
      · rename_i hf
        simp only [State.activeIsFull, decide_eq_false_iff_not, not_le] at hf
        exact addActiveUnchecked_views hv hm' (fun _ => hf)
      · exact hv

/-! ### Event handlers -/

theorem onDisconnect_views {details : Disconnect} :
    (c.onDisconnect peer details).Views me config := by
  unfold onDisconnect
  dsimp only
  split_ifs
  · apply removeActive_views
    exact h.congr ⟨rfl, rfl, rfl, rfl⟩
  · exact h.congr ⟨rfl, rfl, rfl, rfl⟩
  · exact h.congr ⟨rfl, rfl, rfl, rfl⟩

theorem handleConnectionClosed_views : (c.handleConnectionClosed peer).Views me config := by
  unfold handleConnectionClosed
  dsimp only
  split_ifs
  · apply removeActive_views
    exact h.congr ⟨rfl, rfl, rfl, rfl⟩
  · exact h.congr ⟨rfl, rfl, rfl, rfl⟩
  · exact (removePassive_views peer h).congr ⟨rfl, rfl, rfl, rfl⟩

theorem handleQuit_views : c.handleQuit.Views me config := by
  unfold handleQuit
  -- the loop runs over a copy of the view, so generalise the list it runs over
  generalize c.activeView.items = peers
  induction peers generalizing c with
  | nil => exact h
  | cons peer peers ih =>
    refine ih (State.Views.congr ?_ (sendDisconnect_same _ peer))
    refine ⟨h.me_eq, h.config_eq, fun p hp => h.disjoint p (mem_remove.1 hp).1,
      fun hm => h.me_active (mem_remove.1 hm).1, h.me_passive, fun hc => ?_,
      h.passive_len⟩
    exact len_remove_le.trans (h.active_len hc)

theorem onJoin_views : (c.onJoin peer data).Views me config :=
  (addActive_views h peer data).congr ⟨rfl, rfl, rfl, rfl⟩

theorem onForwardJoin_views {msg : ForwardJoin PI} : (c.onForwardJoin p msg).Views me config := by
  have hv := (h.congr (insertPeerInfo_same c msg.peer)).congr
    (sendNeighbor_same _ msg.peer.id .high)
  unfold onForwardJoin
  dsimp only
  split_ifs
  · exact hv
  · exact hv
  all_goals
    first
    | exact addPassive_views h _ _
    | exact h
    | split
      · exact (addPassive_views h _ _).congr ⟨rfl, rfl, rfl, rfl⟩
      · exact (addPassive_views h _ _).congr ⟨rfl, rfl, rfl, rfl⟩
    | split <;> exact h.congr ⟨rfl, rfl, rfl, rfl⟩

theorem onNeighbor_views {details : Neighbor} : (c.onNeighbor p details).Views me config := by
  have hv : ({ c with pendingNeighborRequests := c.pendingNeighborRequests.erase p } :
      Act PI R).Views me config :=
    h.congr ⟨rfl, rfl, rfl, rfl⟩
  unfold onNeighbor
  dsimp only
  split_ifs
  · exact addActive_views hv _ _
  · exact (addActive_views hv _ _).congr (sendDisconnect_same _ _)

theorem onShuffle_views {shuffle : Shuffle PI} : (c.onShuffle p shuffle).Views me config := by
  unfold onShuffle
  split_ifs
  · exact (addPassive_foldl_views h).congr ⟨rfl, rfl, rfl, rfl⟩
  · dsimp only
    split <;> exact h.congr ⟨rfl, rfl, rfl, rfl⟩

theorem onShuffleReply_views {msg : ShuffleReply PI} : (c.onShuffleReply msg).Views me config :=
  (addPassive_foldl_views h).congr (refillActiveFromPassive_same _)

theorem handlePendingNeighborTimer_views : (c.handlePendingNeighborTimer peer).Views me config := by
  unfold handlePendingNeighborTimer
  split_ifs
  · refine State.Views.congr ?_ (refillActiveFromPassive_same _)
    exact (removePassive_views peer h).congr ⟨rfl, rfl, rfl, rfl⟩
  · exact h

theorem dispatch_views : (c.dispatch p msg).Views me config := by
  cases msg with
  | join data => exact onJoin_views h p data
  | forwardJoin ds => exact onForwardJoin_views h p
  | shuffle ds => exact onShuffle_views h p
  | shuffleReply ds => exact onShuffleReply_views h
  | neighbor ds => exact onNeighbor_views h p
  | disconnect ds => exact onDisconnect_views h p

theorem handleMessage_views : (c.handleMessage p msg).Views me config := by
  unfold handleMessage
  split_ifs
  · apply dispatch_views
    exact h.congr ⟨rfl, rfl, rfl, rfl⟩
  · exact dispatch_views h p msg

theorem handleEvent_views {ev : InEvent PI} : (c.handleEvent ev).Views me config := by
  cases ev with
  | recvMessage p msg => exact handleMessage_views h p msg
  | timerExpired timer =>
    cases timer with
    | doShuffle => exact h.congr (handleShuffleTimer_same c)
    | pendingNeighborRequest peer => exact handlePendingNeighborTimer_views h peer
  | peerDisconnected peer => exact handleConnectionClosed_views h peer
  | requestJoin peer | updatePeerData data => exact h.congr ⟨rfl, rfl, rfl, rfl⟩
  | quit => exact handleQuit_views h

end Act

variable [DecidableEq PI] [Rng R]

/-- One event keeps the views well formed. -/
theorem handle_views {s : State PI R} (h : s.Views me config) {ev : InEvent PI} :
    (s.handle ev).1.Views me config :=
  (Act.handleEvent_views (c := ⟨s, []⟩) h).congr (Act.scheduleShuffle_same _)

/-- **The views stay well formed.**  From every initial state with positive capacities, after
every sequence of events and for every outcome of the random choices, the two views are
disjoint, neither contains the node itself, and both respect their capacities. -/
theorem views_exec (me : PI) (meData : Option PeerData) (config : Config) (rng : R)
    (ha : 1 ≤ config.activeViewCapacity) (hp : 1 ≤ config.passiveViewCapacity)
    (events : List (InEvent PI)) :
    let s := machine.exec (State.new me meData config rng) events
    (∀ p ∈ s.activeView, p ∉ s.passiveView) ∧ me ∉ s.activeView ∧ me ∉ s.passiveView ∧
      s.activeView.len ≤ config.activeViewCapacity ∧
      s.passiveView.len ≤ config.passiveViewCapacity := by
  intro s
  have h : s.Views me config := Machine.exec_invariant (new_views)
    (fun _ ev h => handle_views h) events
  obtain ⟨hm, hc, hd, hma, hmp, hla, hlp⟩ := h
  rw [hm] at hma hmp
  rw [hc] at hla hlp
  exact ⟨hd, hma, hmp, hla ha, hlp hp⟩

/-- Node `0` with one slot in each view is joined by `1`, `2` and `3`: each join evicts the peer
before, and the evicted peers push each other out of the passive view. -/
theorem views_exec_three_joins :
    let config : Config := { activeViewCapacity := 1, passiveViewCapacity := 1 }
    let s := machine.exec (State.new 0 none config [0])
      [.recvMessage 1 (.join none), .recvMessage 2 (.join none), .recvMessage 3 (.join none)]
    (s.activeView.items = [3] ∧ s.passiveView.items = [2]) ∧
      (∀ p ∈ s.activeView, p ∉ s.passiveView) ∧ 0 ∉ s.activeView ∧ 0 ∉ s.passiveView ∧
      s.activeView.len ≤ 1 ∧ s.passiveView.len ≤ 1 :=
  ⟨by decide, views_exec 0 none { activeViewCapacity := 1, passiveViewCapacity := 1 } [0]
    (by decide) (by decide) _⟩

end Boru.Hyparview
