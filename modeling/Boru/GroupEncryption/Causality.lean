import Boru.GroupEncryption.Fifo

/-!
# Causal order

Peers that run an orderer each and exchange envelopes.  The network remembers for every envelope
what its sender had created or taken from its orderer before.  Envelopes carry no dependencies, and
a receiver hands them out in the order of their arrival (`Boru.GroupEncryption.Fifo`), so causal
order is whatever the transport makes of it.

## Main results

* `OrdererNetwork.causal_of_inOrder` : if no envelope arrives at a peer after one that depends on
  it, and no message of one's own has the identifier of one that waits, then every peer takes the
  envelopes in causal order.
* `OrdererNetwork.overtaken_message_not_causal` : two messages of one sender that swap places on
  their way are handed out in the wrong order.
-/

namespace Boru.GroupEncryption

open List

/-! ### Lists in the order of a relation -/

section Ordered

variable {α : Type*} {R R' : α → α → Prop} {l l' : List α}

/-- No element comes for the first time after one it is related to. -/
def Ordered (R : α → α → Prop) (l : List α) : Prop :=
  ∀ pre b post a, l = pre ++ b :: post → R a b → a ≠ b → a ∈ post → a ∈ pre

theorem Ordered.nil : Ordered R ([] : List α) := by
  intro pre b post a h
  simp at h

theorem Ordered.concat (h : Ordered R l) {c : α} (hc : c ∈ l ∨ ∀ b ∈ l, R c b → b = c) :
    Ordered R (l ++ [c]) := by
  intro pre b post a heq hR hne ha
  rcases eq_nil_or_concat post with rfl | ⟨post, c', rfl⟩
  · cases ha
  · rw [concat_eq_append, ← cons_append, ← append_assoc] at heq
    obtain ⟨hl, hc'⟩ := append_inj' heq rfl
    obtain rfl : c = c' := singleton_inj.1 hc'
    rw [concat_eq_append, mem_append, mem_singleton] at ha
    rcases ha with ha | rfl
    · exact h pre b post a hl hR hne ha
    · have hb : b ∈ l := hl ▸ mem_append_right _ mem_cons_self
      rcases hc with hc | hc
      · rw [hl, mem_append, mem_cons] at hc
        rcases hc with hc | hc | hc
        · exact hc
        · exact absurd hc hne
        · exact h pre b post a hl hR hne hc
      · exact absurd (hc b hb hR).symm hne

theorem Ordered.filter (h : Ordered R l) (q : α → Bool) : Ordered R (l.filter q) := by
  intro pre b post a heq hR hne ha
  obtain ⟨l₁, l₂, rfl, rfl, h₂⟩ := filter_eq_append_iff.1 heq
  obtain ⟨l₃, l₄, rfl, h₃, -, rfl⟩ := filter_eq_cons_iff.1 h₂
  obtain ⟨ha, hq⟩ := mem_filter.1 ha
  have hp := h (l₁ ++ l₃) b l₄ a (by simp) hR hne ha
  rcases mem_append.1 hp with h₁ | h₁
  · exact mem_filter.2 ⟨h₁, hq⟩
  · exact absurd hq (h₃ a h₁)

theorem Ordered.congr (h : Ordered R l) (hR : ∀ a, ∀ b ∈ l, R' a b → R a b) : Ordered R' l := by
  rintro pre b post a rfl hab hne ha
  exact h pre b post a rfl (hR a b (by simp) hab) hne ha

theorem Ordered.of_append (h : Ordered R (l ++ l')) : Ordered R l := by
  rintro pre b post a rfl hab hne ha
  exact h pre b (post ++ l') a (by simp) hab hne (mem_append_left _ ha)

end Ordered

/-! ### The network -/

structure OrdererNetwork where
  peers : PeerId → OrdererLog
  /-- The envelopes created so far, each with what its sender had created or taken before. -/
  pasts : List (EncryptedGroupEnvelope × List EncryptedGroupEnvelope)

namespace OrdererNetwork

open OrderingState OrdererLog

variable {contentId : EncryptedGroupContent → OpId}

section

variable (contentId : EncryptedGroupContent → OpId) (N : OrdererNetwork) (p : PeerId)

/-- Nothing was created yet. -/
def initial : OrdererNetwork := ⟨.new, []⟩

def created : List EncryptedGroupEnvelope := N.pasts.map (·.1)

/-- What a peer has created or taken from its orderer. -/
def past : List EncryptedGroupEnvelope :=
  (N.created.filter fun m => m.sender = p) ++ (N.peers p).yielded

/-- The sender of `m₂` had created or taken `m₁` before it created `m₂`. -/
def Before (m₁ m₂ : EncryptedGroupEnvelope) : Prop :=
  ∃ e ∈ N.pasts, e.1 = m₂ ∧ m₁ ∈ e.2

instance (N : OrdererNetwork) (m₁ m₂ : EncryptedGroupEnvelope) : Decidable (N.Before m₁ m₂) :=
  inferInstanceAs (Decidable (∃ e ∈ N.pasts, e.1 = m₂ ∧ m₁ ∈ e.2))

def creates (y : OrderingState) : OrdererOp → Option EncryptedGroupEnvelope
  | .control control directMessages =>
    some (y.nextControlMessage contentId control directMessages).2
  | .application generation ciphertext =>
    some (y.nextApplicationMessage contentId generation ciphertext).2
  | .setWelcome _ | .queue _ | .nextReady => none

/-- Only envelopes that were created arrive, and a peer is welcomed once. -/
def enabled : OrdererOp → Bool
  | .queue m => m ∈ N.created
  | .setWelcome _ => (N.peers p).state.welcomeMessage.isNone
  | .control .. | .application .. | .nextReady => true

/-- Remember what the sender of a new envelope knows. -/
def record (m : EncryptedGroupEnvelope) :
    List (EncryptedGroupEnvelope × List EncryptedGroupEnvelope) :=
  if m ∈ N.created then N.pasts else N.pasts ++ [(m, N.past p)]

def step (a : PeerId × OrdererOp) : OrdererNetwork :=
  if N.enabled a.1 a.2 then
    { peers := Function.update N.peers a.1 ((N.peers a.1).step contentId a.2)
      pasts := ((creates contentId (N.peers a.1).state a.2).map (N.record a.1)).getD N.pasts }
  else N

def machine : Machine OrdererNetwork (PeerId × OrdererOp) Empty :=
  ⟨fun N a => (N.step contentId a, [])⟩

/-- No peer takes `m₂` before `m₁` if the sender of `m₂` had created or taken `m₁` before. -/
def Causal : Prop := ∀ p, Ordered N.Before (N.peers p).yielded

/-- An envelope that is new to a peer does not arrive after one that depends on it, and a message
of one's own does not have the identifier of one that waits. -/
def InOrder : PeerId × OrdererOp → Prop
  | (p, .queue m) => m ∈ (N.peers p).history ∨
    ∀ m₂ ∈ (N.peers p).history, N.Before m m₂ → m₂ = m
  | (p, .control control _) => Unused (N.peers p).state (contentId (.control control))
  | (p, .application generation ciphertext) =>
    Unused (N.peers p).state (contentId (.application ciphertext generation))
  | (_, .setWelcome _) | (_, .nextReady) => True

end

instance (N : OrdererNetwork) : (a : PeerId × OrdererOp) → Decidable (InOrder contentId N a)
  | (_, .queue _) => inferInstanceAs (Decidable (_ ∨ _))
  | (_, .control ..) | (_, .application ..) => inferInstanceAs (Decidable (Unused _ _))
  | (_, .setWelcome _) | (_, .nextReady) => inferInstanceAs (Decidable True)

/-! ### The invariant -/

/-- The state of one peer: what it has taken and what waits was created and is in causal order. -/
structure Orderly (N : OrdererNetwork) (l : OrdererLog) : Prop where
  prompt : l.state.Prompt
  idle : l.state.welcomeMessage = none → l.yielded = []
  created : ∀ m ∈ l.history, m ∈ N.created
  ordered : Ordered N.Before l.history

variable {N : OrdererNetwork}

theorem Orderly.causal (h : ∀ p, N.Orderly (N.peers p)) : N.Causal :=
  fun p => (h p).ordered.of_append

theorem Orderly.initial (p : PeerId) : OrdererNetwork.initial.Orderly (.new p) :=
  ⟨.new p, fun _ => rfl, by rintro _ ⟨⟩, .nil⟩

variable {l : OrdererLog}

/-- The same relation and the same history. -/
theorem Orderly.congr {l' : OrdererLog} (h : N.Orderly l) (hp : l'.state.Prompt)
    (hh : l'.history = l.history) (hi : l'.state.welcomeMessage = none → l'.yielded = []) :
    N.Orderly l' :=
  ⟨hp, hi, hh ▸ h.created, hh ▸ h.ordered⟩

variable {N' : OrdererNetwork} {p : PeerId} {m : EncryptedGroupEnvelope}

theorem before_record {m₁ m₂ : EncryptedGroupEnvelope} (hp : N'.pasts = N.record p m)
    (hm₂ : m₂ ∈ N.created) (h : N'.Before m₁ m₂) :
    N.Before m₁ m₂ := by
  obtain ⟨e, he, rfl, hm₁⟩ := h
  rw [hp] at he
  unfold record at he
  split_ifs at he with hn
  · exact ⟨e, he, rfl, hm₁⟩
  · rcases mem_append.1 he with he | he
    · exact ⟨e, he, rfl, hm₁⟩
    · rw [mem_singleton.1 he] at hm₂
      exact absurd hm₂ hn

theorem mem_created_record {m' : EncryptedGroupEnvelope} (hp : N'.pasts = N.record p m)
    (h : m' ∈ N.created) : m' ∈ N'.created := by
  unfold created at h ⊢
  rw [hp]
  unfold record
  split_ifs
  · exact h
  · rw [map_append]
    exact mem_append_left _ h

/-- A new envelope is in no history yet, so remembering its past leaves all histories in order. -/
theorem Orderly.record (h : N.Orderly l) (hp : N'.pasts = N.record p m) : N'.Orderly l :=
  ⟨h.prompt, h.idle, fun m' hm' => mem_created_record hp (h.created m' hm'),
    h.ordered.congr fun _ m₂ hm₂ => before_record hp (h.created m₂ hm₂)⟩

theorem Orderly.of_pasts (h : N.Orderly l) (hp : N'.pasts = N.pasts) : N'.Orderly l := by
  obtain ⟨peers, pasts⟩ := N
  obtain ⟨peers', p'⟩ := N'
  obtain rfl : p' = pasts := hp
  exact ⟨h.prompt, h.idle, h.created, h.ordered⟩

/-- The orderer that performs an operation stays in order. -/
theorem Orderly.step {op : OrdererOp} (h : N.Orderly (N.peers p)) (hen : N.enabled p op = true)
    (hop : InOrder contentId N (p, op)) : N.Orderly ((N.peers p).step contentId op) := by
  have hs : op.isSetWelcome → (N.peers p).state.welcomeMessage = none := by
    intro hs
    cases op with
    | setWelcome w => exact Option.isNone_iff_eq_none.1 hen
    | _ => cases hs
  have hp := prompt_step contentId h.prompt hs
  cases op with
  | control => exact h.congr hp (history_control contentId hop) h.idle
  | application => exact h.congr hp (history_application contentId hop) h.idle
  | setWelcome w =>
    -- nothing was handed out before the welcome, so the whole history is filtered
    have hy := h.idle (hs rfl)
    have hh := history_setWelcome contentId h.prompt (hs rfl) w
    have hf : ((N.peers p).step contentId (.setWelcome w)).history =
        (N.peers p).history.filter fun m => m.id ≠ w.id := by
      rw [hh, history, hy]
      rfl
    refine ⟨hp, by rintro ⟨⟩, ?_, ?_⟩
    · rw [hf]
      exact fun m hm => h.created m (mem_filter.1 hm).1
    · rw [hf]
      exact h.ordered.filter _
  | queue m =>
    have hi : ((N.peers p).step contentId (.queue m)).state.welcomeMessage = none →
        (N.peers p).yielded = [] := fun hn =>
      h.idle ((welcomeMessage_step contentId h.prompt rfl).symm.trans hn)
    rcases novel_or_known with hnw | hk
    · have hh := history_queue_of_novel contentId h.prompt hnw
      refine ⟨hp, hi, ?_, ?_⟩
      · rw [hh]
        intro m' hm'
        rcases mem_append.1 hm' with hm' | hm'
        · exact h.created m' hm'
        · rw [mem_singleton.1 hm']
          exact of_decide_eq_true hen
      · rw [hh]
        exact h.ordered.concat hop
    · exact h.congr hp (history_queue_of_known contentId hk) hi
  | nextReady =>
    refine h.congr hp (history_nextReady contentId h.prompt) fun hn => ?_
    have hw := h.prompt.nextReadyMessage.welcomeMessage.symm.trans hn
    show (N.peers p).yielded ++ _ = []
    rw [h.idle hw, nextReadyMessage, hw]
    rfl

theorem orderly_step (h : ∀ p, N.Orderly (N.peers p)) {a : PeerId × OrdererOp}
    (ha : InOrder contentId N a) (q : PeerId) :
    (N.step contentId a).Orderly ((N.step contentId a).peers q) := by
  obtain ⟨p, op⟩ := a
  unfold step
  split_ifs with hen
  · have hq : N.Orderly (Function.update N.peers p ((N.peers p).step contentId op) q) := by
      by_cases hqp : q = p
      · subst hqp
        rw [Function.update_self]
        exact (h q).step hen ha
      · rw [Function.update_of_ne hqp]
        exact h q
    cases hc : creates contentId (N.peers p).state op with
    | none => exact hq.of_pasts rfl
    | some m => exact hq.record (p := p) (m := m) rfl
  · exact h q

/-- **Causal order is the order of arrival.**  In every run in which no envelope arrives at a peer
after one that depends on it, and no message of one's own has the identifier of one that waits,
every peer takes the envelopes in causal order. -/
theorem causal_of_inOrder {as : List (PeerId × OrdererOp)}
    (h : (machine contentId).Along (InOrder contentId) initial as) :
    ((machine contentId).exec initial as).Causal :=
  Orderly.causal (Machine.exec_invariant_along (P := fun N => ∀ p, N.Orderly (N.peers p)) h
    Orderly.initial fun _ _ ha hN => orderly_step hN ha)

/-- Peer 1 creates the group, welcomes peer 0 and sends two messages. -/
def twoMessages : List (PeerId × OrdererOp) :=
  [(⟨1⟩, .control (.create [⟨0⟩, ⟨1⟩, ⟨2⟩]) []), (⟨0⟩, .setWelcome groupCreation),
    (⟨1⟩, .application 0 [42]), (⟨1⟩, .application 1 [42])]

/-- The two messages arrive in order. -/
theorem causal_in_order : ((machine EncryptionState.plainSuite.contentId).exec initial
    (twoMessages ++ [(⟨0⟩, .queue (textMessage ⟨1⟩ 0)), (⟨0⟩, .queue (textMessage ⟨1⟩ 1)),
      (⟨0⟩, .nextReady), (⟨0⟩, .nextReady)])).Causal :=
  causal_of_inOrder (by decide +kernel)

/-- The network after the second message has overtaken the first. -/
def overtaken : OrdererNetwork :=
  (machine EncryptionState.plainSuite.contentId).exec initial
    (twoMessages ++ [(⟨0⟩, .queue (textMessage ⟨1⟩ 1)), (⟨0⟩, .queue (textMessage ⟨1⟩ 0)),
      (⟨0⟩, .nextReady), (⟨0⟩, .nextReady)])

theorem overtaken_yielded :
    (overtaken.peers ⟨0⟩).yielded = [] ++ textMessage ⟨1⟩ 1 :: [textMessage ⟨1⟩ 0] := by
  decide +kernel

theorem overtaken_before : overtaken.Before (textMessage ⟨1⟩ 0) (textMessage ⟨1⟩ 1) := by
  decide +kernel

/-- The second message of a sender is taken before the first. -/
theorem overtaken_message_not_causal : ¬ overtaken.Causal := by
  intro h
  have hp := h ⟨0⟩ _ _ _ _ overtaken_yielded overtaken_before (by decide)
    mem_cons_self
  cases hp

end OrdererNetwork

end Boru.GroupEncryption
