import Boru.LTS.History
import Boru.ControlPlane.Guard

/-!
# Replay protection of the control plane

Two bounded memories protect against replays: the table of peers holds the highest sequence number
accepted from each of them, and the set of seen frames holds the frames themselves.  Both forget.
So an attacker who waits for the expiry of a peer, or fills the table, may replay an older frame;
and the same frame if the set was cleared as well.

* `Remembers` : what the two memories know about a history.
* `accepted_increasing` : between two removals of its entry the frames of a sender are accepted in
  order, and a frame is accepted again only after both memories have lost it.
-/

namespace Boru.ControlPlane

open History

/-- A frame that is accepted after this history is newer than the sender's frames since its entry
was last removed. -/
def Newer (before : List GuardEvent) (event : GuardEvent) : Prop :=
  ∀ sender sequence, event = .accepted sender sequence →
    ∀ earlier, Since (· = .accepted sender earlier) (· = .removed sender) before →
      earlier < sequence

/-- A frame that is accepted again after this history has been forgotten twice: the entry of its
sender was removed, and the set of seen frames was cleared. -/
def Forgotten (before : List GuardEvent) (event : GuardEvent) : Prop :=
  ∀ front back, before = front ++ event :: back →
    ∀ sender sequence, event = .accepted sender sequence → .removed sender ∈ back ∧ .cleared ∈ back

variable {C : Content} {dedup : Finset (PublicKey × UInt64)}
  {peers : HashMap PublicKey (PeerControlState C)} {history : List GuardEvent}

/-- What the memories know: the table has what was accepted since the removal of an entry, and the
set what was accepted since it was cleared. -/
structure Remembers (dedup : Finset (PublicKey × UInt64))
    (peers : HashMap PublicKey (PeerControlState C)) (history : List GuardEvent) : Prop where
  table : ∀ sender sequence,
    Since (· = .accepted sender sequence) (· = .removed sender) history →
      ∃ entry, peers.lookup sender = some entry ∧ sequence ≤ entry.lastSequence
  set : ∀ sender sequence, Since (· = .accepted sender sequence) (· = .cleared) history →
    (sender, sequence) ∈ dedup
  newer : Each Newer history
  forgotten : Each Forgotten history

namespace Remembers

theorem nil : Remembers dedup peers [] :=
  ⟨fun _ _ h => absurd h not_since_nil, fun _ _ h => absurd h not_since_nil, each_nil, each_nil⟩

theorem mono {d' : Finset (PublicKey × UInt64)} (h : Remembers dedup peers history)
    (hsub : dedup ⊆ d') : Remembers d' peers history :=
  ⟨h.table, fun sender seq hs => hsub (h.set sender seq hs), h.newer, h.forgotten⟩

theorem clear (h : Remembers dedup peers history) : Remembers ∅ peers (history ++ [.cleared]) where
  table sender sequence hs :=
    h.table sender sequence ((since_append_iff (by simp)).1 hs).1
  set sender sequence hs :=
    absurd rfl (((since_append_iff (by simp)).1 hs).2 .cleared (List.mem_singleton_self _))
  newer := h.newer.snoc nofun
  forgotten := h.forgotten.snoc nofun

theorem not_accepted_of_removed {gone : List PublicKey} {sender : PublicKey} {sequence : UInt64} :
    ∀ ev ∈ gone.map GuardEvent.removed, ¬ ev = .accepted sender sequence := by
  intro ev hev
  obtain ⟨peer, -, rfl⟩ := List.mem_map.1 hev
  exact nofun

/-- Some entries are removed from the table. -/
theorem remove {ps' : HashMap PublicKey (PeerControlState C)} {gone : List PublicKey}
    (h : Remembers dedup peers history)
    (hk : ∀ peer ∉ gone, ps'.lookup peer = peers.lookup peer) :
    Remembers dedup ps' (history ++ gone.map .removed) where
  table sender seq hs := by
    obtain ⟨ho, hnot⟩ := (since_append_iff not_accepted_of_removed).1 hs
    have hse : sender ∉ gone := fun hmem => hnot _ (List.mem_map_of_mem hmem) rfl
    rw [hk sender hse]
    exact h.table sender seq ho
  set sender seq hs :=
    h.set sender seq ((since_append_iff not_accepted_of_removed).1 hs).1
  newer := h.newer.append fun pre ev hev sender seq heq =>
    absurd heq (not_accepted_of_removed ev hev)
  forgotten := h.forgotten.append fun pre ev hev front back hb sender seq heq =>
    absurd heq (not_accepted_of_removed ev hev)

/-- A frame is accepted that is not in the set, and newer than what the table has of its sender. -/
theorem accept {sender : PublicKey} {seq : UInt64} {entry : PeerControlState C}
    (h : Remembers dedup peers history) (hst : (sender, seq) ∉ dedup)
    (ht : ∀ old, peers.lookup sender = some old → old.lastSequence < seq)
    (hen : entry.lastSequence = seq) :
    Remembers (insert (sender, seq) dedup) (peers.insert sender entry)
      (history ++ [.accepted sender seq]) where
  table p' seq' hs := by
    obtain hn | ⟨-, ho⟩ := since_snoc_iff.1 hs
    · cases hn
      exact ⟨entry, AList.lookup_insert _, hen ▸ UInt64.le_refl _⟩
    · -- an entry of the same sender is replaced by one with a higher number
      obtain ⟨old, ho, hle⟩ := h.table p' seq' ho
      by_cases hse : p' = sender
      · subst hse
        exact ⟨entry, AList.lookup_insert _,
          hen ▸ UInt64.le_of_lt (UInt64.lt_of_le_of_lt hle (ht old ho))⟩
      · exact ⟨old, (AList.lookup_insert_ne hse).trans ho, hle⟩
  set p' seq' hs := by
    obtain hn | ⟨-, ho⟩ := since_snoc_iff.1 hs
    · cases hn
      exact Finset.mem_insert_self _ _
    · exact Finset.mem_insert_of_mem (h.set p' seq' ho)
  newer := h.newer.snoc fun p' seq' heq e hs => by
    cases heq
    obtain ⟨old, ho, hle⟩ := h.table sender e hs
    exact UInt64.lt_of_le_of_lt hle (ht old ho)
  forgotten := h.forgotten.snoc fun f back hh p' seq' heq => by
    cases heq
    constructor
    · by_contra hnot
      -- had the entry stayed since the first acceptance, the number would not be newer
      obtain ⟨old, ho, hle⟩ := h.table sender seq
        ⟨f, _, back, hh, rfl, fun ev hev hr => hnot (hr ▸ hev)⟩
      exact UInt64.lt_irrefl _ (UInt64.lt_of_le_of_lt hle (ht old ho))
    · by_contra hnot
      exact hst (h.set sender seq ⟨f, _, back, hh, rfl, fun ev hev hc => hnot (hc ▸ hev)⟩)

end Remembers

namespace PeerControlStateStore

theorem lastSequence_advertised {entry : PeerControlState C} {data : ControlPayload C} :
    (advertised entry data).lastSequence = entry.lastSequence := by
  cases data <;> rfl

variable (store : PeerControlStateStore C)

theorem makeRoom_eq {now : Instant} {od : List PublicKey} :
    (∀ peer ∉ (store.makeRoom now od).2.toList,
      (store.makeRoom now od).1.peers.lookup peer = store.peers.lookup peer) ∧
    ∀ peer, store.peers.lookup peer = none →
      (store.makeRoom now od).1.peers.lookup peer = none := by
  unfold makeRoom
  split
  · split
    next peer _ =>
      constructor
      · intro peer' hpeer'
        exact AList.lookup_erase_ne fun h => hpeer' (by simp [h])
      · intro peer' hn
        by_cases h : peer' = peer
        · rw [h]
          exact AList.lookup_erase _ _
        · exact (AList.lookup_erase_ne h).trans hn
    · exact ⟨fun _ _ => rfl, fun _ h => h⟩
  · exact ⟨fun _ _ => rfl, fun _ h => h⟩

end PeerControlStateStore

namespace ControlPlaneGuard

variable {g : ControlPlaneGuard C} {env : ControlEnvelope C} {now : Instant}
  {o : List PublicKey}

section

variable (h : Remembers g.dedup g.presence.peers history)

include h

theorem remembers_seen : Remembers g.seen g.presence.peers (history ++ g.clearing) := by
  unfold seen clearing
  split
  · exact h.clear
  · rwa [List.append_nil]

theorem remembers_settle :
    Remembers (g.settle env now o).1.dedup
      (g.settle env now o).1.presence.peers
      (history ++ (g.settle env now o).2.2) := by
  have hs := remembers_seen h
  unfold settle
  split
  · exact hs
  next hfresh =>
    unfold PeerControlStateStore.record
    split
    next entry hentry =>
      split
      · exact hs.mono (Finset.subset_insert _ _)
      next hnewer =>
        have ht : ∀ old, g.presence.peers.lookup env.senderNodeId = some old →
            old.lastSequence < env.sequence := by
          intro old ho
          cases hentry.symm.trans ho
          exact UInt64.not_le.1 hnewer
        have ha := hs.accept hfresh ht
          (show (g.presence.refreshedEntry entry env now).lastSequence = _ from
            PeerControlStateStore.lastSequence_advertised)
        simpa [ControlEnvelope.dedupKey] using ha
    next hnone =>
      obtain ⟨hk, hab⟩ := g.presence.makeRoom_eq
      -- another peer may have to go, which the history records
      have hr := hs.remove hk
      have ht : ∀ old, (g.presence.makeRoom now o).1.peers.lookup
          env.senderNodeId = some old → old.lastSequence < env.sequence := by
        intro old ho
        rw [hab _ hnone] at ho
        cases ho
      have ha := hr.accept hfresh ht
        (show (g.presence.newEntry env now).lastSequence = _ from
          PeerControlStateStore.lastSequence_advertised)
      simpa [ControlEnvelope.dedupKey] using ha

theorem remembers_admitFrame {df : PublicKey} {clk : Instant} :
    Remembers (g.admitFrame env df clk now o).1.dedup
      (g.admitFrame env df clk now o).1.presence.peers
      (history ++ (g.admitFrame env df clk now o).2.2) := by
  unfold admitFrame
  dsimp only
  split
  · rwa [List.append_nil]
  split
  · rwa [List.append_nil]
  split
  · rwa [List.append_nil]
  · exact remembers_settle h

end

theorem lookup_expireStale {store : PeerControlStateStore C} {peer : PublicKey}
    (h : peer ∉ (store.expireStale now).2) :
    (store.expireStale now).1.peers.lookup peer = store.peers.lookup peer := by
  refine (HashMap.lookup_retain _ _ _).trans ?_
  cases hen : store.peers.lookup peer with
  | none => rfl
  | some entry =>
    have hf : entry.isStale now = false := by
      by_contra hstale
      refine h (List.mem_map.2 ⟨⟨peer, entry⟩, List.mem_filter.2 ⟨?_, ?_⟩, rfl⟩)
      · exact AList.mem_lookup_iff.1 hen
      · simpa using hstale
    simp [hf]

theorem remembers_step {i : GuardInput C} (h : Remembers g.dedup g.presence.peers history) :
    Remembers ((guardMachine C).step g i).1.dedup
      ((guardMachine C).step g i).1.presence.peers
      (history ++ ((guardMachine C).step g i).2) := by
  cases i with
  | admitFrame env df clock now o => exact remembers_admitFrame h
  | expireStale now => exact h.remove fun peer hp => lookup_expireStale hp
  | setDefaultPresenceTtl ttl =>
    rw [guardMachine, List.append_nil]
    exact h
  | clearDedup => exact h.clear

end ControlPlaneGuard

/-- **Replay protection.**  In every run of a guard that has seen nothing, whatever its limits and
the clock, the frames accepted of one sender have increasing sequence numbers between two removals
of its entry; and a frame is accepted again only if since then the entry of its sender was removed
and the set of seen frames was cleared. -/
theorem accepted_increasing (C : Content) (rateLimiter : ControlPlaneRateLimiter) (dedupCap : ℕ)
    (presence : PeerControlStateStore C) (policy : ControlAdvertPolicy)
    (inputs : List (GuardInput C)) :
    Each Newer ((guardMachine C).trace (.withLimits rateLimiter dedupCap presence policy) inputs) ∧
      Each Forgotten
        ((guardMachine C).trace (.withLimits rateLimiter dedupCap presence policy) inputs) := by
  have hr := Machine.trace_invariant_along (M := guardMachine C) (G := fun _ _ => True)
    (P := fun gu history => Remembers gu.dedup gu.presence.peers history)
    (Machine.along_of_step (fun _ _ => trivial)
      (.withLimits rateLimiter dedupCap presence policy) inputs)
    .nil fun gu history input _ h => ControlPlaneGuard.remembers_step h
  exact ⟨hr.newer, hr.forgotten⟩

/-- Content without extensions or public rooms. -/
def plainContent : Content where
  Extensions := Empty
  ExtensionsViolation := Empty
  Advertisement := Empty
  Withdrawal := Empty
  AdvertisementViolation := Empty
  Coarse := Empty
  validateExtensions := nofun
  validateAdvertisement := nofun
  validateWithdrawal := nofun
  sanitized := nofun

def samplePeer : PublicKey := GroupEncryption.Block.replicate 32 7

/-- The peer says hello with a sequence number. -/
def sampleHello (sequence : UInt64) (now : Instant) : GuardInput plainContent :=
  .admitFrame
    { protocolVersion := 1, senderNodeId := samplePeer, sequence := sequence, payload := .hello 1
      signature := none, signatureValid := false } samplePeer now now []

/-- After its expiry a peer's older frame is accepted; and if the set of seen frames has no room,
the same frame twice. -/
theorem replay_after_expiry :
    (guardMachine plainContent).trace .new
        [sampleHello 5 0, .expireStale 300000, sampleHello 3 300000] =
      [.accepted samplePeer 5, .removed samplePeer, .accepted samplePeer 3] ∧
    (guardMachine plainContent).trace
        (.withLimits (.withLimits 60 10000 4096) 1 (.withLimits 1024 300000) {})
        [sampleHello 5 0, .expireStale 300000, sampleHello 5 300000] =
      [.accepted samplePeer 5, .removed samplePeer, .cleared, .accepted samplePeer 5] := by
  decide

end Boru.ControlPlane
