import Boru.Handshake.Pair
import Boru.Proto.Hyparview.State

/-!
# What one node knows of one other peer

The handlers of HyParView shuffle peers between views, but seen from a single peer `q` they do
little: `Act.endpoint` is the part of a state that concerns `q` (is it active, is a request to it
pending, what is under way to it, what was the application told about it), and every handler
acts on it by the operations of `Handshake.Endpoint`.

`handle_endpoint` sums this up: one event makes room for another peer at the cost of `q`, or
closes the connection to `q`, or is a handshake message of `q`, or is something the node does on
its own.
-/

namespace Boru.Hyparview

open Handshake OutEvent

variable {PI R : Type}

/-- The handshake signal a message carries. -/
def Message.signal : Message PI → Option Signal
  | .join _ => some .join
  | .neighbor _ => some .neighbor
  | .disconnect _ => some .disconnect
  | .forwardJoin _ | .shuffle _ | .shuffleReply _ => none

variable [DecidableEq PI]

def OutEvent.signalTo (q : PI) : OutEvent PI → Option Signal
  | .sendMessage peer message => if peer = q then message.signal else none
  | _ => none

/-- What an event tells the application about `q`. -/
def OutEvent.noticeOf (q : PI) : OutEvent PI → Option Bool
  | .emitEvent (.neighborUp peer) => if peer = q then some true else none
  | .emitEvent (.neighborDown peer) => if peer = q then some false else none
  | _ => none

/-- The part of a state that concerns `q`, when the signals `ch` were already under way to it. -/
def Act.endpoint (ch : List Signal) (c : Act PI R) (q : PI) : Endpoint where
  active := decide (q ∈ c.activeView)
  pending := decide (q ∈ c.pendingNeighborRequests)
  sent := ch ++ c.io.filterMap (signalTo q)
  log := c.io.filterMap (noticeOf q)

/-- The peer that has to make room for `peer` in a full active view. -/
def State.evictedFor [Rng R] (s : State PI R) (peer : PI) : Option PI :=
  if peer ≠ s.me ∧ peer ∉ s.activeView ∧ s.activeIsFull then
    (s.activeView.pickRandomIndex s.rng).1.bind fun index => s.activeView.items[index]?
  else none

/-- The neighbor that an event evicts: joins and high-priority requests of peers outside a full
active view make room for their sender. -/
def State.evictedBy [Rng R] (s : State PI R) : InEvent PI → Option PI
  | .recvMessage sender (.join _) => s.evictedFor sender
  | .recvMessage sender (.neighbor ⟨.high, _⟩) => s.evictedFor sender
  | _ => none

namespace Act

variable {ch : List Signal} {c : Act PI R} {q : PI}

/-! ### Pushed events -/

theorem endpoint_push (e : OutEvent PI) : (c.push e).endpoint ch q = { c.endpoint ch q with
        sent := (c.endpoint ch q).sent ++ (e.signalTo q).toList
        log := (c.endpoint ch q).log ++ (e.noticeOf q).toList } := by
  refine Endpoint.ext rfl rfl ?_ ?_
  · cases h : e.signalTo q <;> simp [endpoint, push, h]
  · cases h : e.noticeOf q <;> simp [endpoint, push, h]

/-- An event that is no signal to `q` and no notice about it. -/
def Quiet (q : PI) (e : OutEvent PI) : Prop := e.signalTo q = none ∧ e.noticeOf q = none

theorem endpoint_push_quiet {e : OutEvent PI} (h : Quiet q e) :
    (c.push e).endpoint ch q = c.endpoint ch q := by
  rw [endpoint_push, h.1, h.2]; simp

theorem endpoint_pushFromIter_quiet {es : List (OutEvent PI)} (h : ∀ e ∈ es, Quiet q e) :
    (c.pushFromIter es).endpoint ch q = c.endpoint ch q := by
  have h₁ : es.filterMap (signalTo q) = [] :=
    List.filterMap_eq_nil_iff.2 fun e he => (h e he).1
  have h₂ : es.filterMap (noticeOf q) = [] :=
    List.filterMap_eq_nil_iff.2 fun e he => (h e he).2
  exact Endpoint.ext rfl rfl (by simp [endpoint, pushFromIter, h₁])
    (by simp [endpoint, pushFromIter, h₂])

variable {peer : PI} {message : Message PI}

theorem quiet_sendMessage (h : message.signal = none) : Quiet q (.sendMessage peer message) := by
  refine ⟨?_, rfl⟩
  simp [signalTo, h]

theorem endpoint_send {σ : Signal} (h : message.signal = some σ) :
    (c.push (.sendMessage q message)).endpoint ch q = (c.endpoint ch q).send σ := by
  rw [endpoint_push]
  simp [signalTo, noticeOf, h, Endpoint.send]

theorem endpoint_send_ne (h : q ≠ peer) :
    (c.push (.sendMessage peer message)).endpoint ch q = c.endpoint ch q :=
  endpoint_push_quiet ⟨if_neg h.symm, rfl⟩

/-! ### Operations without random choices -/

@[simp] theorem endpoint_insertPeerInfo (info : PeerInfo PI) :
    (c.insertPeerInfo info).endpoint ch q = c.endpoint ch q := by
  unfold insertPeerInfo
  split
  · rfl
  · dsimp only
    split_ifs
    · exact endpoint_push_quiet ⟨rfl, rfl⟩
    · rfl

/-- Storing peer data changes nothing else of the state. -/
theorem insertPeerInfo_frame (c : Act PI R) {info : PeerInfo PI} :
    ∃ peerData io, c.insertPeerInfo info = { c with peerData, io } := by
  unfold insertPeerInfo
  split
  · exact ⟨_, _, rfl⟩
  · dsimp only
    split_ifs <;> exact ⟨_, _, rfl⟩

variable {pr : Priority} {reason : RemovalReason}

@[simp] theorem endpoint_keepAsPassive :
    (c.keepAsPassive peer reason).2.endpoint ch q = c.endpoint ch q := by
  cases reason <;> rfl

theorem endpoint_scheduleShuffle : c.scheduleShuffle.endpoint ch q = c.endpoint ch q := by
  unfold scheduleShuffle
  split_ifs
  · rfl
  · exact endpoint_push_quiet ⟨rfl, rfl⟩

theorem endpoint_erasePending (ch : List Signal) (c : Act PI R) (q : PI) :
    ({ c with pendingNeighborRequests := c.pendingNeighborRequests.erase q } :
      Act PI R).endpoint ch q = (c.endpoint ch q).forget :=
  Endpoint.ext rfl (by simp [endpoint, Endpoint.forget]) rfl rfl

theorem endpoint_erasePending_ne (h : q ≠ peer) :
    ({ c with pendingNeighborRequests := c.pendingNeighborRequests.erase peer } :
      Act PI R).endpoint ch q = c.endpoint ch q :=
  Endpoint.ext rfl (by simp [endpoint, h]) rfl rfl

theorem endpoint_sendNeighbor :
    (c.sendNeighbor q pr).endpoint ch q = (c.endpoint ch q).request := by
  unfold sendNeighbor Endpoint.request
  by_cases h : q ∈ c.pendingNeighborRequests
  · rw [if_pos h, if_pos (by simpa [endpoint] using h)]
  · rw [if_neg h, if_neg (by simpa [endpoint] using h), endpoint_send rfl]
    simp [endpoint, Endpoint.send]

theorem endpoint_sendNeighbor_ne (h : q ≠ peer) :
    (c.sendNeighbor peer pr).endpoint ch q = c.endpoint ch q := by
  unfold sendNeighbor
  split_ifs
  · rfl
  · rw [endpoint_send_ne h]
    simp [endpoint, h]

/-- A request to any peer leaves `q` alone or is a request to `q`. -/
theorem sendNeighbor_cases (ch : List Signal) (q : PI) (c : Act PI R) (peer : PI) (pr : Priority) :
    MayAsk (c.endpoint ch q) ((c.sendNeighbor peer pr).endpoint ch q) := by
  by_cases h : q = peer
  · subst h; exact .inr (endpoint_sendNeighbor)
  · exact .inl (endpoint_sendNeighbor_ne h)

/-- A peer that becomes a neighbor, and is told so when a reply is due. -/
def welcome (reply : Bool) (a : Endpoint) : Endpoint :=
  if reply then a.connect.request else a.connect

theorem endpoint_addActiveUnchecked (h : q ∉ c.activeView) {reply : Bool} :
    (c.addActiveUnchecked q pr reply).endpoint ch q = welcome reply (c.endpoint ch q) := by
  have hup : (({ c with
      passiveView := (c.passiveView.remove q).2
      activeView := (c.activeView.insert q).2 } : Act PI R).push
      (.emitEvent (.neighborUp q))).endpoint ch q = (c.endpoint ch q).connect := by
    rw [endpoint_push, Endpoint.connect, if_neg (by simpa [endpoint] using h)]
    refine Endpoint.ext ?_ rfl ?_ ?_
    · simp [endpoint, Endpoint.up]
    · simp [endpoint, Endpoint.up, signalTo]
    · simp [endpoint, Endpoint.up, noticeOf]
  simp only [addActiveUnchecked, IndexSet.insert_fst, h, not_false_eq_true, decide_true,
    ↓reduceIte, welcome]
  split_ifs
  · rw [endpoint_sendNeighbor, hup]
  · exact hup

theorem endpoint_addActiveUnchecked_ne (h : q ≠ peer) {reply : Bool} :
    (c.addActiveUnchecked peer pr reply).endpoint ch q = c.endpoint ch q := by
  have hs : (({ c with
      passiveView := (c.passiveView.remove peer).2
      activeView := (c.activeView.insert peer).2 } : Act PI R).push
      (.emitEvent (.neighborUp peer))).endpoint ch q = c.endpoint ch q := by
    have hq : Quiet q (.emitEvent (.neighborUp peer)) := ⟨rfl, if_neg h.symm⟩
    rw [endpoint_push_quiet hq]
    exact Endpoint.ext (by simp [endpoint, h]) rfl rfl rfl
  unfold addActiveUnchecked
  dsimp only
  split_ifs
  · rw [endpoint_sendNeighbor_ne h, hs]
  · exact hs
  · rfl

variable [Rng R]

/-! ### Operations that do not concern the handshake -/

@[simp] theorem endpoint_addPassive {peer : PI} {data : Option PeerData} :
    (c.addPassive peer data).endpoint ch q = c.endpoint ch q := by
  unfold addPassive
  dsimp only
  split_ifs <;> exact endpoint_insertPeerInfo _

@[simp] theorem endpoint_foldl_addPassive {ns : List (PeerInfo PI)} :
    (ns.foldl (fun c node => c.addPassive node.id node.data) c).endpoint ch q =
      c.endpoint ch q := by
  induction ns generalizing c with
  | nil => rfl
  | cons node ns ih => rw [List.foldl_cons, ih, endpoint_addPassive]

@[simp] theorem endpoint_sendShuffleReply (dest : PI) (len : ℕ) :
    (c.sendShuffleReply dest len).endpoint ch q = c.endpoint ch q :=
  endpoint_push_quiet (quiet_sendMessage rfl)

@[simp] theorem endpoint_retainPassive :
    (c.retainPassive peer reason).endpoint ch q = c.endpoint ch q := by
  unfold retainPassive
  split_ifs <;> exact endpoint_addPassive

theorem endpoint_handleShuffleTimer : c.handleShuffleTimer.endpoint ch q = c.endpoint ch q := by
  unfold handleShuffleTimer
  rw [endpoint_push_quiet ⟨rfl, rfl⟩]
  split
  · rfl
  · exact endpoint_push_quiet (quiet_sendMessage rfl)

/-! ### Requests, goodbyes and removals -/

theorem refillActiveFromPassive_cases (ch : List Signal) (q : PI) (c : Act PI R) (sp : Finset PI) :
    MayAsk (c.endpoint ch q) ((c.refillActiveFromPassive sp).endpoint ch q) := by
  unfold refillActiveFromPassive
  split_ifs
  · exact .inl rfl
  · dsimp only
    split
    · exact .inl rfl
    · rw [endpoint_push_quiet ⟨rfl, rfl⟩]
      exact sendNeighbor_cases _ _ _ _ _

theorem endpoint_sendDisconnect {alive : Bool} :
    (c.sendDisconnect q alive).endpoint ch q = (c.endpoint ch q).send .disconnect := by
  unfold sendDisconnect
  rw [endpoint_push_quiet ⟨rfl, rfl⟩, endpoint_send rfl, endpoint_sendShuffleReply]

theorem endpoint_sendDisconnect_ne (h : q ≠ peer) {alive : Bool} :
    (c.sendDisconnect peer alive).endpoint ch q = c.endpoint ch q := by
  unfold sendDisconnect
  rw [endpoint_push_quiet ⟨rfl, rfl⟩, endpoint_send_ne h, endpoint_sendShuffleReply]

/-- The goodbye that goes with the removal of a neighbor. -/
def sayBye (reason : RemovalReason) (a : Endpoint) : Endpoint :=
  if reason = .random then a.send .disconnect else a

theorem endpoint_closeActive :
    (c.closeActive q reason).endpoint ch q = sayBye reason (c.endpoint ch q) := by
  cases reason with
  | random => exact endpoint_sendDisconnect
  | disconnectReceived | connectionClosed => exact endpoint_push_quiet ⟨rfl, rfl⟩

theorem endpoint_closeActive_ne (h : q ≠ peer) :
    (c.closeActive peer reason).endpoint ch q = c.endpoint ch q := by
  cases reason with
  | random => exact endpoint_sendDisconnect_ne h
  | disconnectReceived | connectionClosed => exact endpoint_push_quiet ⟨rfl, rfl⟩

theorem endpoint_removeActiveByIndex (ch : List Signal) {i : ℕ}
    (h : c.activeView.items[i]? = some q) (reason : RemovalReason) :
    (c.removeActiveByIndex i reason).2.endpoint ch q = sayBye reason (c.endpoint ch q).down := by
  have hd : (({ c with activeView := (c.activeView.removeIndex i).2 } : Act PI R).push
      (.emitEvent (.neighborDown q))).endpoint ch q = (c.endpoint ch q).down := by
    rw [endpoint_push]
    refine Endpoint.ext ?_ rfl ?_ ?_
    · simp [endpoint, Endpoint.down, IndexSet.mem_removeIndex h]
    · simp [endpoint, Endpoint.down, signalTo]
    · simp [endpoint, Endpoint.down, noticeOf]
  unfold removeActiveByIndex
  rw [IndexSet.removeIndex_fst, h]
  dsimp only
  split_ifs
  · rw [endpoint_retainPassive, endpoint_keepAsPassive, endpoint_closeActive, hd]
  · rw [endpoint_keepAsPassive, endpoint_closeActive, hd]

theorem endpoint_removeActiveByIndex_ne {i : ℕ} (h : c.activeView.items[i]? ≠ some q) :
    (c.removeActiveByIndex i reason).2.endpoint ch q = c.endpoint ch q := by
  unfold removeActiveByIndex
  rw [IndexSet.removeIndex_fst]
  split
  · rfl
  · rename_i peer hp
    have hne : q ≠ peer := fun he => h (he ▸ hp)
    have hs : (({ c with activeView := (c.activeView.removeIndex i).2 } : Act PI R).push
        (.emitEvent (.neighborDown peer))).endpoint ch q = c.endpoint ch q := by
      have hq : Quiet q (.emitEvent (.neighborDown peer)) := ⟨rfl, if_neg hne.symm⟩
      rw [endpoint_push_quiet hq]
      exact Endpoint.ext (by simp [endpoint, IndexSet.mem_removeIndex hp, hne]) rfl rfl rfl
    dsimp only
    split_ifs
    · rw [endpoint_retainPassive, endpoint_keepAsPassive, endpoint_closeActive_ne hne, hs]
    · rw [endpoint_keepAsPassive, endpoint_closeActive_ne hne, hs]

/-- Removing `q` drops it; it may be asked again as a replacement of itself. -/
theorem removeActive_cases {reason : RemovalReason} (hr : reason ≠ .random) :
    MayAsk (c.endpoint ch q).drop ((c.removeActive q reason).endpoint ch q) := by
  unfold removeActive
  split
  · rename_i hn
    refine .inl (if_neg ?_).symm
    simpa [endpoint] using IndexSet.getIndexOf_eq_none.1 hn
  · rename_i idx hi
    have hix := IndexSet.getIndexOf_eq_some hi
    have hq : (c.endpoint ch q).active = true := decide_eq_true (List.mem_of_getElem? hix)
    have hd : (c.endpoint ch q).drop = (c.endpoint ch q).down := if_pos hq
    have hre := endpoint_removeActiveByIndex ch hix reason
    rw [sayBye, if_neg hr, ← hd] at hre
    rw [← hre]
    exact refillActiveFromPassive_cases _ _ _ _

/-- Removing another peer leaves `q` alone, or asks it as a replacement. -/
theorem removeActive_cases_ne (h : q ≠ peer) :
    MayAsk (c.endpoint ch q) ((c.removeActive peer reason).endpoint ch q) := by
  unfold removeActive
  split
  · exact .inl rfl
  · rename_i idx hi
    have hne : c.activeView.items[idx]? ≠ some q := by
      rw [IndexSet.getIndexOf_eq_some hi]
      exact fun he => h (Option.some.inj he).symm
    rw [← endpoint_removeActiveByIndex_ne hne]
    exact refillActiveFromPassive_cases _ _ _ _

/-- A closed neighborhood: an active peer is removed, otherwise nothing `q` can see changes. -/
theorem removeIfActive_cases {c' : Act PI R} {reason : RemovalReason} (hr : reason ≠ .random)
    (hc' : c'.endpoint ch q = c.endpoint ch q) :
    MayAsk (c.endpoint ch q).drop
      ((if q ∈ c.activeView then c.removeActive q reason else c').endpoint ch q) := by
  split_ifs with hin
  · exact removeActive_cases hr
  · refine .inl (hc'.trans (if_neg ?_).symm)
    simpa [endpoint] using hin

theorem removeIfActive_cases_ne {c' : Act PI R} (h : q ≠ peer)
    (hc' : c'.endpoint ch q = c.endpoint ch q) :
    MayAsk (c.endpoint ch q)
      ((if peer ∈ c.activeView then c.removeActive peer reason else c').endpoint ch q) := by
  split_ifs
  · exact removeActive_cases_ne h
  · exact .inl hc'

/-! ### Additions -/

/-- The peer a random slot is taken from. -/
def slotOwner (c : Act PI R) : Option PI :=
  (c.activeView.pickRandomIndex c.rng).1.bind fun index => c.activeView.items[index]?

omit [DecidableEq PI] in
theorem mem_of_slotOwner (h : c.slotOwner = some q) : q ∈ c.activeView := by
  obtain ⟨i, -, hi⟩ := Option.bind_eq_some_iff.1 h
  exact List.mem_of_getElem? hi

/-- Freeing a slot leaves `q` alone, unless the slot is the one of `q`. -/
theorem freeRandomSlotInActiveView_cases (ch : List Signal) (q : PI) (c : Act PI R) :
    c.freeRandomSlotInActiveView.endpoint ch q = c.endpoint ch q ∨
      c.slotOwner = some q ∧
        c.freeRandomSlotInActiveView.endpoint ch q = (c.endpoint ch q).down.send .disconnect := by
  unfold freeRandomSlotInActiveView slotOwner
  dsimp only
  split
  · exact .inl rfl
  · rename_i i hi
    rw [hi]
    by_cases h : c.activeView.items[i]? = some q
    · exact .inr ⟨h, endpoint_removeActiveByIndex
        (c := { c with rng := (c.activeView.pickRandomIndex c.rng).2 }) ch h .random⟩
    · exact .inl (endpoint_removeActiveByIndex_ne
        (c := { c with rng := (c.activeView.pickRandomIndex c.rng).2 }) h)

theorem freeRandomSlotInActiveView_not_mem (h : q ∉ c.activeView) :
    q ∉ c.freeRandomSlotInActiveView.activeView ∧
      c.freeRandomSlotInActiveView.endpoint ch q = c.endpoint ch q := by
  rcases freeRandomSlotInActiveView_cases ch q c with he | ⟨ho, -⟩
  · refine ⟨fun hm => ?_, he⟩
    have := congrArg Endpoint.active he
    simp only [endpoint, decide_eq_decide] at this
    exact h (this.1 hm)
  · exact absurd (mem_of_slotOwner ho) h

/-- A peer that is added is welcomed, or is turned down because it is not active. -/
theorem addActive_cases (ch : List Signal) (hq : q ≠ c.me) (data : Option PeerData)
    (pr : Priority) (rp : Bool) :
    (c.addActive q data pr rp).1 = true ∧
        (c.addActive q data pr rp).2.endpoint ch q = welcome rp (c.endpoint ch q) ∨
      (c.addActive q data pr rp).1 = false ∧ (c.endpoint ch q).active = false ∧
        (c.addActive q data pr rp).2.endpoint ch q = c.endpoint ch q := by
  have hi : (c.insertPeerInfo ⟨q, data⟩).endpoint ch q = c.endpoint ch q :=
    endpoint_insertPeerInfo _
  simp only [addActive, if_neg hq, ← hi]
  generalize c.insertPeerInfo ⟨q, data⟩ = c
  by_cases hin : q ∈ c.activeView
  · have hc : (c.endpoint ch q).connect = c.endpoint ch q := if_pos (decide_eq_true hin)
    simp only [hin, ↓reduceIte, welcome, hc]
    refine .inl ⟨trivial, ?_⟩
    split_ifs
    · exact endpoint_sendNeighbor
    · rfl
  · simp only [hin, ↓reduceIte]
    split
    · refine .inl ⟨rfl, ?_⟩
      split_ifs
      · obtain ⟨hm, he⟩ := freeRandomSlotInActiveView_not_mem hin
        rw [endpoint_addActiveUnchecked hm, he]
      · exact endpoint_addActiveUnchecked hin
    · exact .inl ⟨rfl, endpoint_addActiveUnchecked hin⟩
    · exact .inr ⟨rfl, decide_eq_false hin, rfl⟩

/-- Adding another peer leaves `q` alone, unless it has to make room. -/
theorem addActive_cases_ne (ch : List Signal) (h : q ≠ peer) (data : Option PeerData)
    (pr : Priority) (reply : Bool) :
    (c.addActive peer data pr reply).2.endpoint ch q = c.endpoint ch q ∨
      pr = .high ∧ c.evictedFor peer = some q ∧
        (c.addActive peer data pr reply).2.endpoint ch q =
          (c.endpoint ch q).down.send .disconnect := by
  by_cases hme : peer = c.me
  · simp [addActive, hme]
  have hi : (c.insertPeerInfo ⟨peer, data⟩).endpoint ch q = c.endpoint ch q :=
    endpoint_insertPeerInfo _
  have hev : c.evictedFor peer =
      if peer ∉ (c.insertPeerInfo ⟨peer, data⟩).activeView ∧
        (c.insertPeerInfo ⟨peer, data⟩).activeIsFull then
        (c.insertPeerInfo ⟨peer, data⟩).slotOwner
      else none := by
    obtain ⟨peerData, io, hins⟩ := insertPeerInfo_frame c
    rw [hins]
    simp only [State.evictedFor, ne_eq, hme, not_false_eq_true, true_and]
    rfl
  simp only [addActive, if_neg hme, hev, ← hi]
  generalize c.insertPeerInfo ⟨peer, data⟩ = c
  by_cases hin : peer ∈ c.activeView
  · refine .inl ?_
    split_ifs
    · exact endpoint_sendNeighbor_ne h
    · rfl
  · simp only [hin, ↓reduceIte, not_false_eq_true, true_and]
    split
    · split_ifs with hf
      · rw [endpoint_addActiveUnchecked_ne h]
        exact (freeRandomSlotInActiveView_cases ch q c).imp_right fun ho => ⟨rfl, ho⟩
      · exact .inl (endpoint_addActiveUnchecked_ne h)
    · exact .inl (endpoint_addActiveUnchecked_ne h)
    · exact .inl rfl

/-! ### Handlers -/

theorem onDisconnect_cases (c : Act PI R) (q : PI) {details : Disconnect} :
    MayAsk (c.endpoint ch q).forget.drop ((c.onDisconnect q details).endpoint ch q) := by
  rw [← endpoint_erasePending]
  exact removeIfActive_cases (by simp) (by split_ifs <;> rfl)

theorem onDisconnect_cases_ne (h : q ≠ peer) {details : Disconnect} :
    MayAsk (c.endpoint ch q) ((c.onDisconnect peer details).endpoint ch q) := by
  rw [← endpoint_erasePending_ne (c := c) h]
  exact removeIfActive_cases_ne h (by split_ifs <;> rfl)

theorem handleConnectionClosed_cases (ch : List Signal) (c : Act PI R) (q : PI) :
    MayAsk (c.endpoint ch q).forget.drop ((c.handleConnectionClosed q).endpoint ch q) := by
  rw [← endpoint_erasePending]
  exact removeIfActive_cases (by simp) (by split_ifs <;> rfl)

theorem handleConnectionClosed_cases_ne (h : q ≠ peer) :
    MayAsk (c.endpoint ch q) ((c.handleConnectionClosed peer).endpoint ch q) := by
  rw [← endpoint_erasePending_ne (c := c) h]
  exact removeIfActive_cases_ne h (by split_ifs <;> rfl)

section

variable (c) (sender : PI) (peer)

theorem onJoin_eq {data : Option PeerData} :
    (c.onJoin peer data).endpoint ch q = (c.addActive peer data .high true).2.endpoint ch q := by
  refine endpoint_pushFromIter_quiet fun e he => ?_
  obtain ⟨node, -, rfl⟩ := List.mem_map.1 he
  exact quiet_sendMessage rfl

theorem onForwardJoin_cases {message : ForwardJoin PI} :
    MayAsk (c.endpoint ch q) ((c.onForwardJoin sender message).endpoint ch q) := by
  have hs := sendNeighbor_cases ch q (c.insertPeerInfo message.peer)
    message.peer.id .high
  rw [endpoint_insertPeerInfo] at hs
  unfold onForwardJoin
  dsimp only
  split_ifs
  · exact hs
  · exact hs
  all_goals
    refine .inl ?_
    try split
    all_goals
      first
      | rfl
      | exact endpoint_addPassive
      | exact endpoint_push_quiet (quiet_sendMessage rfl)
      | exact (endpoint_push_quiet (quiet_sendMessage rfl)).trans (endpoint_addPassive)

theorem onShuffle_eq {shuffle : Shuffle PI} :
    (c.onShuffle sender shuffle).endpoint ch q = c.endpoint ch q := by
  unfold onShuffle
  split_ifs
  · rw [endpoint_sendShuffleReply, endpoint_foldl_addPassive]
  · dsimp only
    split
    · rfl
    · exact endpoint_push_quiet (quiet_sendMessage rfl)

theorem onShuffleReply_cases {message : ShuffleReply PI} :
    MayAsk (c.endpoint ch q) ((c.onShuffleReply message).endpoint ch q) := by
  rw [← endpoint_foldl_addPassive (c := c)]
  exact refillActiveFromPassive_cases _ _ _ _

theorem handlePendingNeighborTimer_local :
    Local (c.endpoint ch q) ((c.handlePendingNeighborTimer peer).endpoint ch q) := by
  unfold handlePendingNeighborTimer
  split_ifs
  · have hr := refillActiveFromPassive_cases ch q ({ c with
      pendingNeighborRequests := c.pendingNeighborRequests.erase peer
      passiveView := (c.passiveView.remove peer).2 } : Act PI R) ∅
    by_cases h : q = peer
    · subst h
      have he := endpoint_erasePending ch c q
      rcases hr with hr | hr
      · exact hr ▸ he ▸ .expire
      · exact hr ▸ he ▸ .retry
    · exact (endpoint_erasePending_ne (c := c) h ▸ hr : MayAsk _ _).act
  · exact .stay

end

/-- A `Neighbor` message of `q` is a reply, or is accepted and answered, or is turned down. -/
theorem onNeighbor_recv (hq : q ≠ c.me) {ds : Neighbor} :
    Recv (c.endpoint ch q) .neighbor ((c.onNeighbor q ds).endpoint ch q) := by
  unfold onNeighbor
  have ha := addActive_cases (c := { c with
    pendingNeighborRequests := c.pendingNeighborRequests.erase q }) ch hq ds.data
    ds.priority (!decide (q ∈ c.pendingNeighborRequests))
  rw [endpoint_erasePending] at ha
  rcases ha with ⟨h₁, he⟩ | ⟨h₁, hac, he⟩
  · rw [if_pos h₁, he]
    by_cases hp : q ∈ c.pendingNeighborRequests
    · simpa [welcome, hp] using Recv.reply (a := c.endpoint ch q) (decide_eq_true hp)
    · simpa [welcome, hp] using Recv.accept (a := c.endpoint ch q) (decide_eq_false hp)
  · rw [if_neg (by simp [h₁]), endpoint_sendDisconnect, he]
    exact .refuse hac

theorem onNeighbor_me {details : Neighbor} :
    Tells (c.endpoint ch c.me) ((c.onNeighbor c.me details).endpoint ch c.me) := by
  simp only [onNeighbor, addActive, ↓reduceIte, Bool.false_eq_true]
  rw [endpoint_sendDisconnect]
  exact (Tells.forget _).trans (.send _ _)

variable {p : PI}

theorem onNeighbor_cases_ne (ch : List Signal) (h : q ≠ p) (ds : Neighbor) :
    (c.onNeighbor p ds).endpoint ch q = c.endpoint ch q ∨
      ds.priority = .high ∧ c.evictedFor p = some q ∧
        (c.onNeighbor p ds).endpoint ch q = (c.endpoint ch q).down.send .disconnect := by
  have ha := addActive_cases_ne (c := { c with
    pendingNeighborRequests := c.pendingNeighborRequests.erase p }) ch h ds.data
    ds.priority (!decide (p ∈ c.pendingNeighborRequests))
  rw [endpoint_erasePending_ne h] at ha
  unfold onNeighbor
  dsimp only
  split_ifs
  · exact ha
  · rw [endpoint_sendDisconnect_ne h]
    exact ha

/-- What an event does to the endpoint `a` of `q` at the node `me`, when it evicts `evicted`. -/
inductive Effect (me : PI) (evicted : Option PI) (q : PI) (a : Endpoint) :
    InEvent PI → Endpoint → Prop where
  /-- `q` makes room for another peer. -/
  | evict {event : InEvent PI} (he : evicted = some q) (ha : a.active = true)
      (hs : ∀ message, event ≠ .recvMessage q message) :
      Effect me evicted q a event (a.down.send .disconnect)
  /-- The connection to `q` was closed. -/
  | close {b : Endpoint} (h : MayAsk a.forget.drop b) :
      Effect me evicted q a (.peerDisconnected q) b
  /-- A handshake message of `q`. -/
  | recv {message : Message PI} {σ : Signal} {b : Endpoint} (hm : message.signal = some σ)
      (hr : Recv a σ b) : Effect me evicted q a (.recvMessage q message) b
  /-- Something that does not come from `q`. -/
  | act {event : InEvent PI} {b : Endpoint}
      (hs : ∀ message, event = .recvMessage q message → message.signal = none)
      (hl : Local a b) : Effect me evicted q a event b
  /-- A node that hears from itself only updates its books. -/
  | self {event : InEvent PI} {b : Endpoint} (hq : q = me) (ht : Tells a b) :
      Effect me evicted q a event b

variable {me : PI} {evicted : Option PI} {event : InEvent PI}

omit [DecidableEq PI] in
theorem Effect.other {a b : Endpoint} (h : q ≠ p) (hl : Local a b) :
    Effect me evicted q a (.recvMessage p message) b :=
  .act (fun _ he => absurd (InEvent.recvMessage.inj he).1.symm h) hl

omit [DecidableEq PI] in
/-- Adding a peer other than `q`, which may have to make room. -/
theorem Effect.making_room {a b : Endpoint} (h : q ≠ p)
    (hb : b = a ∨ evicted = some q ∧ b = a.down.send .disconnect)
    (ha : evicted = some q → a.active = true) :
    Effect me evicted q a (.recvMessage p message) b := by
  rcases hb with rfl | ⟨he, rfl⟩
  · exact .other h .stay
  · exact .evict he (ha he) fun m heq => h (InEvent.recvMessage.inj heq).1.symm

theorem active_of_evictedFor (ch : List Signal) (h : c.evictedFor p = some q) :
    (c.endpoint ch q).active = true := by
  unfold State.evictedFor at h
  split_ifs at h
  exact decide_eq_true (mem_of_slotOwner h)

theorem dispatch_effect (c : Act PI R) (p : PI) (message : Message PI) :
    Effect c.me (c.evictedBy (.recvMessage p message)) q (c.endpoint ch q)
      (.recvMessage p message) ((c.dispatch p message).endpoint ch q) := by
  by_cases h : q = p
  · subst h
    cases message with
    | join data =>
      by_cases hme : q = c.me
      · refine .self hme (.of_eq ?_ ?_) <;> simp [dispatch, onJoin_eq, addActive, hme]
      · refine .recv rfl ?_
        obtain ⟨-, he⟩ | ⟨hf, -⟩ := addActive_cases ch hme data .high true
        · exact (onJoin_eq c q).trans he ▸ .join
        · simp only [addActive, ↓reduceIte] at hf
          split_ifs at hf
    | forwardJoin ds =>
      exact .act (by rintro _ ⟨⟩; rfl) (onForwardJoin_cases c q).act
    | shuffle ds =>
      exact .act (by rintro _ ⟨⟩; rfl) (onShuffle_eq c q ▸ .stay)
    | shuffleReply ds =>
      exact .act (by rintro _ ⟨⟩; rfl) (onShuffleReply_cases c).act
    | neighbor ds =>
      by_cases hme : q = c.me
      · exact .self hme (hme ▸ onNeighbor_me)
      · exact .recv rfl (onNeighbor_recv hme)
    | disconnect ds =>
      refine .recv rfl ?_
      rcases onDisconnect_cases c q with he | he
      · exact he ▸ .disconnect
      · exact he ▸ .reconnect
  · cases message with
    | join data =>
      refine .making_room h ?_ (active_of_evictedFor ch)
      rw [dispatch, onJoin_eq]
      exact (addActive_cases_ne ch h data .high true).imp_right fun ho => ⟨ho.2.1, ho.2.2⟩
    | forwardJoin ds => exact .other h (onForwardJoin_cases c p).act
    | shuffle ds => exact .other h (onShuffle_eq c p ▸ .stay)
    | shuffleReply ds => exact .other h (onShuffleReply_cases c).act
    | neighbor ds =>
      obtain ⟨pr, data⟩ := ds
      rcases onNeighbor_cases_ne (c := c) ch h ⟨pr, data⟩ with he | ⟨rfl, hev, he⟩
      · exact .other h (he ▸ .stay)
      · exact .making_room h (.inr ⟨hev, he⟩) (active_of_evictedFor ch)
    | disconnect ds => exact .other h (onDisconnect_cases_ne h).act

theorem handleEvent_effect (ch : List Signal) (q : PI) (c : Act PI R) (event : InEvent PI)
    (hq : event ≠ .quit) :
    Effect c.me (c.evictedBy event) q (c.endpoint ch q) event
      ((c.handleEvent event).endpoint ch q) := by
  cases event with
  | recvMessage p message =>
    unfold handleEvent handleMessage
    dsimp only
    split_ifs
    · exact dispatch_effect { c with totalConnections := c.totalConnections + 1 } p message
    · exact dispatch_effect c p message
  | timerExpired timer =>
    refine .act (fun _ he => nomatch he) ?_
    cases timer with
    | doShuffle => exact endpoint_handleShuffleTimer (c := c) ▸ .stay
    | pendingNeighborRequest peer => exact handlePendingNeighborTimer_local c peer
  | peerDisconnected peer =>
    by_cases h : q = peer
    · subst h
      exact .close (handleConnectionClosed_cases ch c q)
    · exact .act (fun _ he => nomatch he) (handleConnectionClosed_cases_ne h).act
  | requestJoin peer =>
    refine .act (fun _ he => nomatch he) ?_
    by_cases h : q = peer
    · subst h
      exact (endpoint_send rfl : (c.handleJoin q).endpoint ch q = _) ▸ .join
    · exact (endpoint_send_ne h : (c.handleJoin peer).endpoint ch q = _) ▸ .stay
  | updatePeerData data => exact .act (fun _ he => nomatch he) .stay
  | quit => exact absurd rfl hq

end Act

open Act in
/-- **What one event does to one peer.**  Seen from `q`, an event that is not `Quit` evicts it,
closes its connection, is one of its handshake messages, or is something the node does on its
own. -/
theorem handle_effect [Rng R] (s : State PI R) (event : InEvent PI) (hq : event ≠ .quit)
    (ch : List Signal) (q : PI) :
    Effect s.me (s.evictedBy event) q (Act.endpoint ch ⟨s, []⟩ q) event
      (Act.endpoint ch ⟨(s.handle event).1, (s.handle event).2⟩ q) := by
  have h := handleEvent_effect ch q ⟨s, []⟩ event hq
  rw [← endpoint_scheduleShuffle (c := handleEvent ⟨s, []⟩ event)] at h
  exact h

/-- **The application is told of every change.**  The notices about `q` alternate, and end with
whether `q` is in the active view. -/
theorem handle_alternates [Rng R] (s : State PI R) (event : InEvent PI) (hq : event ≠ .quit)
    (q : PI) :
    Alternates (decide (q ∈ s.activeView)) ((s.handle event).2.filterMap (noticeOf q))
      (decide (q ∈ (s.handle event).1.activeView)) := by
  have ht : Tells (Act.endpoint [] ⟨s, []⟩ q)
      (Act.endpoint [] ⟨(s.handle event).1, (s.handle event).2⟩ q) := by
    have he := handle_effect s event hq [] q
    generalize Act.endpoint [] ⟨(s.handle event).1, (s.handle event).2⟩ q = b at he ⊢
    cases he with
    | evict _ ha => exact (Tells.down ha).trans (.send _ _)
    | close h => exact ((Tells.forget _).trans (.drop _)).trans h.tells
    | recv _ hr => exact hr.tells
    | act _ hl => exact hl.tells
    | self _ ht => exact ht
  obtain ⟨l, hl, ha⟩ := ht
  obtain rfl : (s.handle event).2.filterMap (noticeOf q) = l := hl
  exact ha

/-- After its connection was closed, a peer is not in the active view. -/
theorem not_mem_of_peerDisconnected [Rng R] (s : State PI R) (q : PI) :
    q ∉ (s.handle (.peerDisconnected q)).1.activeView := by
  have ha : ((Act.handleConnectionClosed ⟨s, []⟩ q).endpoint [] q).active = false := by
    rcases Act.handleConnectionClosed_cases [] ⟨s, []⟩ q with h | h
    · rw [h, Endpoint.drop_active]
    · rw [h, Endpoint.request]
      split_ifs <;> exact Endpoint.drop_active _
  rw [← Act.endpoint_scheduleShuffle] at ha
  exact of_decide_eq_false ha

end Boru.Hyparview
