import Mathlib.Data.List.Basic

/-!
# A symmetric neighbor handshake over two FIFO channels

Two endpoints each keep two flags about the other: `active` (the other is my neighbor) and
`pending` (I asked the other and have not heard back).  They exchange three signals over a FIFO
channel in each direction: `join` (make me your neighbor), `neighbor` (a request when the receiver
has nothing pending, a reply when it has) and `disconnect`.

## Main definitions

* `Endpoint` : the flags of one side, the signals it has under way, and what it told its user.
* `Local`, `Recv` : what an endpoint does on its own and on receiving a signal.
* `Inv` : the invariant of the two endpoints.
* `Tells` : the user is told alternately that the neighbor is up and that it is down.

## Main results

* `Inv.act`, `Inv.recv`, `Inv.evict` : everything an endpoint does keeps the invariant, provided
  it never drops a neighbor while it has something pending for it.
* `Inv.agree` : with both channels drained, the endpoints agree on being neighbors.
* `Local.tells`, `Recv.tells` : the notices given to the user alternate and match the flag.

The key fact of the invariant is `Half.owed`: a pending flag whose request has been consumed means
that the other side has accepted, or that a `disconnect` is on its way.
-/

namespace Boru.Handshake

/-- The signals the endpoints exchange. -/
inductive Signal where
  | join
  | neighbor
  | disconnect
  deriving DecidableEq

/-- One side of the handshake. -/
@[ext]
structure Endpoint where
  /-- The other endpoint is my neighbor. -/
  active : Bool
  /-- I asked the other endpoint and have not heard back. -/
  pending : Bool
  /-- The signals on their way to the other endpoint. -/
  sent : List Signal
  /-- What the user was told: `true` for an up neighbor, `false` for a down one. -/
  log : List Bool

namespace Endpoint

variable (a : Endpoint)

def send (σ : Signal) : Endpoint := { a with sent := a.sent ++ [σ] }

/-- Ask the other endpoint, unless something is pending already. -/
def request : Endpoint :=
  if a.pending then a else { a with pending := true, sent := a.sent ++ [.neighbor] }

/-- Stop waiting for an answer. -/
def forget : Endpoint := { a with pending := false }

/-- The other endpoint becomes a neighbor. -/
def up : Endpoint := { a with active := true, log := a.log ++ [true] }

/-- The other endpoint is no longer a neighbor. -/
def down : Endpoint := { a with active := false, log := a.log ++ [false] }

/-- Make the other endpoint a neighbor if it is not one. -/
def connect : Endpoint := if a.active then a else a.up

/-- Drop the other endpoint if it is a neighbor. -/
def drop : Endpoint := if a.active then a.down else a

@[simp] theorem connect_active : a.connect.active = true := by
  unfold connect; split_ifs with h
  · exact h
  · rfl

@[simp] theorem connect_pending : a.connect.pending = a.pending := by
  unfold connect; split_ifs <;> rfl

@[simp] theorem connect_sent : a.connect.sent = a.sent := by
  unfold connect; split_ifs <;> rfl

@[simp] theorem drop_active : a.drop.active = false := by
  unfold drop; split_ifs with h
  · rfl
  · simpa using h

@[simp] theorem drop_pending : a.drop.pending = a.pending := by
  unfold drop; split_ifs <;> rfl

@[simp] theorem drop_sent : a.drop.sent = a.sent := by
  unfold drop; split_ifs <;> rfl

end Endpoint

attribute [simp] Endpoint.send Endpoint.forget

/-- `b` is `a`, having asked the other endpoint or not. -/
def MayAsk (a b : Endpoint) : Prop := b = a ∨ b = a.request

/-- What an endpoint does without hearing from the other one. -/
inductive Local (a : Endpoint) : Endpoint → Prop where
  | stay : Local a a
  | request : Local a a.request
  | join : Local a (a.send .join)
  | expire : Local a a.forget
  | retry : Local a a.forget.request

inductive Recv (a : Endpoint) : Signal → Endpoint → Prop where
  | join : Recv a .join a.connect.request
  /-- A `neighbor` that answers our request. -/
  | reply (h : a.pending = true) : Recv a .neighbor a.forget.connect
  /-- A `neighbor` that asks us, and is answered. -/
  | accept (h : a.pending = false) : Recv a .neighbor a.forget.connect.request
  /-- A `neighbor` that is turned down. -/
  | refuse (h : a.active = false) : Recv a .neighbor (a.forget.send .disconnect)
  | disconnect : Recv a .disconnect a.forget.drop
  /-- The lost neighbor may be asked again at once. -/
  | reconnect : Recv a .disconnect a.forget.drop.request

/-! ### The notices given to the user -/

/-- Starting from `x`, the notices `l` alternate and end with `y`. -/
def Alternates : Bool → List Bool → Bool → Prop
  | x, [], y => x = y
  | x, e :: l, y => e ≠ x ∧ Alternates e l y

variable {x y : Bool} {l : List Bool}

theorem Alternates.append {z : Bool} {l' : List Bool} (h : Alternates x l y)
    (h' : Alternates y l' z) : Alternates x (l ++ l') z := by
  induction l generalizing x with
  | nil => cases h; exact h'
  | cons e l ih => exact ⟨h.1, ih h.2⟩

/-- Alternating notices form a chain of different ones. -/
theorem Alternates.isChain (h : Alternates x l y) : (x :: l).IsChain (· ≠ ·) := by
  induction l generalizing x with
  | nil => simp
  | cons e l ih => exact List.isChain_cons_cons.2 ⟨h.1.symm, ih h.2⟩

/-- The last notice is the state reached. -/
theorem Alternates.getLast (h : Alternates x l y) : (x :: l).getLast? = some y := by
  induction l generalizing x with
  | nil => cases h; rfl
  | cons e l ih => rw [List.getLast?_cons_cons]; exact ih h.2

/-- Between `a` and `b` the user was told of every change of the active flag. -/
def Tells (a b : Endpoint) : Prop := ∃ l, b.log = a.log ++ l ∧ Alternates a.active l b.active

namespace Tells

variable {a b c : Endpoint}

theorem of_eq (hl : b.log = a.log) (ha : b.active = a.active) : Tells a b :=
  ⟨[], by simp [hl], ha.symm⟩

theorem trans (h : Tells a b) (h' : Tells b c) : Tells a c := by
  obtain ⟨l, hl, ha⟩ := h
  obtain ⟨l', hl', ha'⟩ := h'
  exact ⟨l ++ l', by rw [hl', hl, List.append_assoc], ha.append ha'⟩

theorem send (a : Endpoint) (σ : Signal) : Tells a (a.send σ) := of_eq rfl rfl

theorem forget (a : Endpoint) : Tells a a.forget := of_eq rfl rfl

theorem request (a : Endpoint) : Tells a a.request := by
  unfold Endpoint.request; split_ifs <;> exact of_eq rfl rfl

theorem down (h : a.active = true) : Tells a a.down := ⟨[false], rfl, by simp [h], rfl⟩

theorem connect (a : Endpoint) : Tells a a.connect := by
  unfold Endpoint.connect
  split_ifs with h
  · exact of_eq rfl rfl
  · exact ⟨[true], rfl, by simpa using h, rfl⟩

theorem drop (a : Endpoint) : Tells a a.drop := by
  unfold Endpoint.drop
  split_ifs with h
  · exact down h
  · exact of_eq rfl rfl

end Tells

variable {a b : Endpoint}

theorem MayAsk.tells (h : MayAsk a b) : Tells a b := by
  rcases h with rfl | rfl
  · exact .of_eq rfl rfl
  · exact .request a

theorem MayAsk.act (h : MayAsk a b) : Local a b := by
  rcases h with rfl | rfl
  · exact .stay
  · exact .request

theorem Local.tells (h : Local a b) : Tells a b := by
  cases h with
  | stay => exact .of_eq rfl rfl
  | request => exact .request a
  | join => exact .send a _
  | expire => exact .forget a
  | retry => exact (Tells.forget a).trans (.request _)

theorem Recv.tells {σ : Signal} (h : Recv a σ b) : Tells a b := by
  cases h with
  | join => exact (Tells.connect a).trans (.request _)
  | reply => exact (Tells.forget a).trans (.connect _)
  | accept => exact ((Tells.forget a).trans (.connect _)).trans (.request _)
  | refuse => exact (Tells.forget a).trans (.send _ _)
  | disconnect => exact (Tells.forget a).trans (.drop _)
  | reconnect => exact ((Tells.forget a).trans (.drop _)).trans (.request _)

/-! ### Relations between the endpoints -/

/-- A relation of the endpoints that everything they do keeps, if `E` holds of an endpoint that
drops its neighbor and `G` of one that receives a signal. -/
structure Kept (J : Endpoint → Endpoint → Prop) (E : Endpoint → Prop)
    (G : Endpoint → Signal → Prop) : Prop where
  symm {a b : Endpoint} : J a b → J b a
  /-- Only the flags and the channels matter. -/
  congr {a a' b : Endpoint} : J a b → a'.active = a.active → a'.pending = a.pending →
    a'.sent = a.sent → J a' b
  act {a a' b : Endpoint} : J a b → Local a a' → J a' b
  evict {a b : Endpoint} : J a b → E a → J (a.down.send .disconnect) b
  recv {a a' b : Endpoint} {σ : Signal} {rest : List Signal} :
    J a { b with sent := σ :: rest } → Recv a σ a' → G a σ → J a' { b with sent := rest }

/-! ### The invariant -/

variable (ch : List Signal)

/-- The signals of a channel other than `join`: those that change the receiver for certain. -/
def news : List Signal := ch.filter (· ≠ .join)

@[simp] theorem news_append (ch' : List Signal) : news (ch ++ ch') = news ch ++ news ch' :=
  List.filter_append ..

@[simp] theorem news_nil : news [] = [] := rfl

@[simp] theorem news_join : news (.join :: ch) = news ch := rfl

@[simp] theorem news_neighbor : news (.neighbor :: ch) = .neighbor :: news ch := rfl

@[simp] theorem news_disconnect : news (.disconnect :: ch) = .disconnect :: news ch := rfl

theorem disconnect_not_mem {ch : List Signal} (h : news ch = []) : Signal.disconnect ∉ ch :=
  fun hm => by
    have : Signal.disconnect ∈ news ch := List.mem_filter.2 ⟨hm, by decide⟩
    rw [h] at this; cases this

/-- The last news of a channel is still the last one when the first is consumed. -/
theorem getLast_news_cons {σ : Signal} {ch : List Signal}
    (h : (news ch).getLast? = some .disconnect) :
    (news (σ :: ch)).getLast? = some .disconnect := by
  have hc : ∀ τ, (τ :: news ch).getLast? = some .disconnect := fun τ => by
    cases hn : news ch with
    | nil => rw [hn] at h; cases h
    | cons x xs => rw [List.getLast?_cons_cons, ← hn]; exact h
  cases σ with
  | join => exact h
  | neighbor | disconnect => exact hc _

/-- The part of the invariant about the signals `a` sends to `b`. -/
structure Half (a b : Endpoint) : Prop where
  /-- After saying goodbye an endpoint is neither a neighbor nor waiting for an answer. -/
  bye : (news a.sent).getLast? = some .disconnect → a.active = false ∧ a.pending = false
  /-- A request that was consumed has been accepted, or is being turned down. -/
  owed : a.pending = true → news a.sent = [] → b.active = true ∨ .disconnect ∈ b.sent

structure Inv (a b : Endpoint) : Prop where
  left : Half a b
  right : Half b a
  /-- With no news under way the endpoints agree. -/
  agree : news a.sent = [] → news b.sent = [] → a.active = b.active

namespace Inv

variable {a a' b : Endpoint} {rest : List Signal}

theorem init : Inv ⟨false, false, [], []⟩ ⟨false, false, [], []⟩ :=
  ⟨⟨by simp, by simp⟩, ⟨by simp, by simp⟩, by simp⟩

section

variable (h : Inv a b)

include h

theorem symm : Inv b a := ⟨h.right, h.left, fun h₁ h₂ => (h.agree h₂ h₁).symm⟩

/-- The invariant only reads the flags and the channels. -/
theorem congr (ha : a'.active = a.active) (hp : a'.pending = a.pending) (hs : a'.sent = a.sent) :
    Inv a' b := by
  obtain ⟨⟨h1, h2⟩, ⟨h3, h4⟩, h5⟩ := h
  exact ⟨⟨by rwa [ha, hp, hs], by rwa [hp, hs]⟩, ⟨h3, by rwa [ha, hs]⟩, by rwa [ha, hs]⟩

theorem request : Inv a.request b := by
  unfold Endpoint.request
  split_ifs with hp
  · exact h
  · refine ⟨⟨by simp, by simp⟩, ⟨h.right.bye, fun hb hi => ?_⟩, by simp⟩
    exact (h.right.owed hb hi).imp_right fun hd => List.mem_append_left _ hd

/-- Asking to join keeps the invariant. -/
theorem join : Inv (a.send .join) b := by
  refine ⟨⟨fun hl => h.left.bye (by simpa using hl), fun hp ho => ?_⟩,
    ⟨h.right.bye, fun hb hi => ?_⟩, fun ho hi => h.agree (by simpa using ho) hi⟩
  · exact h.left.owed hp (by simpa using ho)
  · exact (h.right.owed hb hi).imp_right fun hd => List.mem_append_left _ hd

/-- Giving up waiting keeps the invariant. -/
theorem forget : Inv a.forget b :=
  ⟨⟨fun hl => ⟨(h.left.bye hl).1, rfl⟩, by simp⟩, ⟨h.right.bye, h.right.owed⟩, h.agree⟩

/-- Whatever an endpoint does on its own keeps the invariant. -/
theorem act (hl : Local a a') : Inv a' b := by
  cases hl with
  | stay => exact h
  | request => exact h.request
  | join => exact h.join
  | expire => exact h.forget
  | retry => exact h.forget.request

/-- Dropping a neighbor with nothing pending for it keeps the invariant. -/
theorem evict (hp : a.pending = false) : Inv (a.down.send .disconnect) b :=
  ⟨⟨fun _ => ⟨rfl, hp⟩, fun ht => by rw [show a.pending = true from ht] at hp; cases hp⟩,
    ⟨h.right.bye, fun _ _ => .inr (by simp)⟩, by simp⟩

end

variable {σ : Signal}

/-- The goodbye of the other side stands after its first signal was consumed. -/
theorem bye_tail (h : Inv a { b with sent := σ :: rest })
    (hl : (news rest).getLast? = some .disconnect) : b.active = false ∧ b.pending = false :=
  h.right.bye (getLast_news_cons hl)

/-- An endpoint that accepts its partner, and lets it know unless something is pending already,
keeps the invariant when the consumed signal was no goodbye. -/
theorem accept (h : Inv a { b with sent := σ :: rest }) (hσ : σ ≠ .disconnect)
    (ha : a'.active = true) (hp : a.pending = true) (hs : a'.sent = a.sent) :
    Inv a' { b with sent := rest } := by
  have hnd : .disconnect ∉ rest → Signal.disconnect ∉ σ :: rest := fun hn hm =>
    (List.mem_cons.1 hm).elim (fun he => hσ he.symm) hn
  have hb : (news a'.sent).getLast? ≠ some .disconnect := fun hl => by
    rw [(h.left.bye (hs ▸ hl)).2] at hp
    cases hp
  refine ⟨⟨fun hl => absurd hl hb, fun _ ho => ?_⟩, ⟨h.bye_tail, fun _ _ => .inl ha⟩,
    fun ho hi => ?_⟩
  · refine (h.left.owed hp (hs ▸ ho)).imp_right fun hm => ?_
    exact (List.mem_cons.1 hm).resolve_left fun he => hσ he.symm
  · -- with something pending and no news under way, the other side has accepted
    exact ha.trans ((h.left.owed hp (hs ▸ ho)).resolve_right (hnd (disconnect_not_mem hi))).symm

/-- The same when the partner is told by a new request. -/
theorem accept_request (h : Inv a { b with sent := σ :: rest }) (ha : a'.active = true)
    (hp : a'.pending = false) : Inv a'.request { b with sent := rest } := by
  simp only [Endpoint.request, hp]
  exact ⟨⟨by simp, by simp⟩, ⟨h.bye_tail, fun _ _ => .inl ha⟩, by simp⟩

/-- A goodbye ends the neighborhood and every request to its sender. -/
theorem dropped (h : Inv a { b with sent := .disconnect :: rest }) :
    Inv a.forget.drop { b with sent := rest } := by
  -- if it was the last signal under way, its sender has gone by `Half.bye`
  have hb : news rest = [] → b.active = false ∧ b.pending = false := fun hi =>
    h.right.bye (by simp [hi])
  refine ⟨⟨by simp, by simp⟩, ⟨h.bye_tail, fun hp hi => ?_⟩,
    fun _ hi => (Endpoint.drop_active _).trans (hb hi).1.symm⟩
  rw [(hb hi).2] at hp; cases hp

/-- **Receiving keeps the invariant.**  Whatever an endpoint does on the next signal of its
partner keeps the invariant. -/
theorem recv (h : Inv a { b with sent := σ :: rest }) (hr : Recv a σ a') :
    Inv a' { b with sent := rest } := by
  cases hr with
  | join =>
    cases hp : a.pending with
    | true =>
      rw [Endpoint.request, if_pos (by simpa using hp)]
      exact h.accept (by decide) (by simp) hp (by simp)
    | false => exact h.accept_request (by simp) (by simpa using hp)
  | reply hp => exact h.accept (by decide) (by simp) hp (by simp)
  | accept hp => exact h.accept_request (by simp) (by simp)
  | refuse ha =>
    exact ⟨⟨fun _ => ⟨ha, rfl⟩, by simp⟩, ⟨h.bye_tail, fun _ _ => .inr (by simp)⟩, by simp⟩
  | disconnect => exact h.dropped
  | reconnect => exact h.dropped.request

/-- The invariant is kept if only neighbors with nothing pending are dropped. -/
theorem kept : Kept Inv (·.pending = false) fun _ _ => True :=
  ⟨symm, congr, act, evict, fun h hr _ => h.recv hr⟩

end Inv

/-! ### Requests and what is under way -/

/-- The endpoints wait for no more answers than there are `neighbor` signals under way. -/
def Balanced (a b : Endpoint) : Prop :=
  a.pending.toNat + b.pending.toNat ≤ a.sent.count .neighbor + b.sent.count .neighbor

namespace Balanced

variable {a a' b : Endpoint} {σ : Signal} {rest : List Signal}

theorem of_le (h : Balanced a b) (hp : a'.pending.toNat ≤ a.pending.toNat)
    (hs : a.sent.count .neighbor ≤ a'.sent.count .neighbor) : Balanced a' b := by
  unfold Balanced at *
  omega

theorem request (h : Balanced a b) : Balanced a.request b := by
  unfold Endpoint.request
  split_ifs
  · exact h
  · simp only [Balanced, List.count_append, List.count_singleton_self, Bool.toNat_true] at h ⊢
    omega

theorem forget (h : Balanced a b) : Balanced a.forget b := h.of_le (Nat.zero_le _) (Nat.le_refl _)

theorem act (h : Balanced a b) (hl : Local a a') : Balanced a' b := by
  cases hl with
  | stay => exact h
  | request => exact h.request
  | join => exact h.of_le (Nat.le_refl _) (by simp)
  | expire => exact h.forget
  | retry => exact h.forget.request

/-- An answer ends a wait. -/
theorem recv (h : Balanced a { b with sent := σ :: rest }) (hr : Recv a σ a')
    (hσ : σ = .neighbor → a.pending = true) : Balanced a' { b with sent := rest } := by
  have ht : σ ≠ .neighbor → Balanced a { b with sent := rest } := fun hne => by
    simpa [Balanced, List.count_cons_of_ne hne] using h
  have hre : a.pending = true → σ = .neighbor → Balanced a.forget { b with sent := rest } := by
    rintro hp rfl
    simp only [Balanced, hp, Endpoint.forget, List.count_cons_self, Bool.toNat_true,
      Bool.toNat_false] at h ⊢
    omega
  cases hr with
  | join =>
    have hc : Balanced a.connect { b with sent := rest } :=
      (ht (by decide)).of_le (by simp) (by simp)
    exact hc.request
  | reply hp => exact (hre hp rfl).of_le (by simp) (by simp)
  | accept hp => cases hp.symm.trans (hσ rfl)
  | refuse => exact (hre (hσ rfl) rfl).of_le (Nat.le_refl _) (by simp)
  | disconnect => exact (ht (by decide)).forget.of_le (by simp) (by simp)
  | reconnect =>
    have hd : Balanced a.forget.drop { b with sent := rest } :=
      (ht (by decide)).forget.of_le (by simp) (by simp)
    exact hd.request

/-- The balance is kept if only requested answers are received. -/
theorem kept : Kept Balanced (fun _ => True) fun a σ => σ = .neighbor → a.pending = true where
  symm h := by unfold Balanced at *; omega
  congr h _ hp hs := h.of_le (by simp [hp]) (by simp [hs])
  act := act
  evict h _ := h.of_le (Nat.le_refl _) (by simp [Endpoint.down])
  recv := recv

end Balanced

end Boru.Handshake
