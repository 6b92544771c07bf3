import Boru.Call.Terminal

/-!
# Simultaneous calls

Two peers start a call to each other.  Each dials a connection of its own and sends its offer on it;
the answer comes back on the same connection.  Frames of one connection arrive in the order in which
they were sent, in each direction; beyond that they arrive in any order.  A manager that ends a call
closes its connection.  Both sides of the connection notice that at some time, and what has not been
delivered by then is lost; each tells its manager, which ends all its calls with the peer.  Nobody
accepts, hangs up or times out meanwhile: what is asked is what the frames alone lead to.

The manager has a rule for such attempts, that the attempt of the smaller key survives.  It is never
used: an offer from a peer that is being called is answered with busy before the rule is asked, and
the rule would compare the peer's key with itself.  So an offer that meets an attempt of its
receiver is answered with busy, the caller ends its attempt and closes the connection, and the other
attempt ends with the connection, wherever it has got to: no call is left.

* `Stage` : the fate of one attempt, seen from the outside.
* `Matches.step` : the managers and the network follow the attempts until one of them is given up.
* `Lost.step` : from then on the other attempt is bound to end.
* `glare_resolved_iff` : when exactly one attempt survives, on both sides.
-/

namespace Boru.Call

open Function Manager

open GroupEncryption (Block)

inductive Side where
  | left
  | right
  deriving DecidableEq

namespace Side

def other : Side → Side
  | left => right
  | right => left

variable (x : Side)

@[simp] theorem other_other : x.other.other = x := by cases x <;> rfl

@[simp] theorem other_ne : x.other ≠ x := by cases x <;> simp [other]

@[simp] theorem ne_other : x ≠ x.other := (other_ne x).symm

theorem eq_or_eq_other (y : Side) : y = x ∨ y = x.other := by cases x <;> cases y <;> simp [other]

/-- The connection that the peer dials. -/
def connection : Side → WireTx
  | left => 0
  | right => 1

theorem connection_other_ne : x.other.connection ≠ x.connection := by
  cases x <;> simp [other, connection]

end Side

/-- Two peers that have no calls, and the calls they are about to start. -/
structure Parties where
  key : Side → PublicKey
  /-- The id of the call that a peer starts. -/
  callId : Side → CallId
  kind : Side → CallKind
  manager : Side → Manager
  running : ∀ x, (manager x).stopped = false
  free : ∀ x c, (manager x).calls.lookup c = none
  unused : ∀ x, callId x ∉ (manager x).terminalCalls

/-- What happens next: a peer starts its call, the first frame that a peer has sent on a connection
is delivered, or a side of a connection notices that it was closed. -/
inductive Happening where
  | start (caller : Side) (now : Instant) (order : List CallId)
  | deliver (connection sender : Side) (now : Instant) (order : List CallId)
  | closed (connection side : Side) (now : Instant) (order : List CallId)

/-- The managers, the frames in flight by connection and sender, the connections that were closed,
and the sides that have noticed it. -/
structure Network where
  manager : Side → Manager
  started : Side → Bool
  flight : Side → Side → List CallControl
  closed : Side → Bool
  noticed : Side → Side → Bool

/-- The frames that are sent on a connection. -/
def sentOn (tx : WireTx) (effects : List Effect) : List CallControl :=
  effects.filterMap fun e => match e with
    | .send tx' control => if tx' = tx then some control else none
    | _ => none

theorem send_of_mem_sentOn {tx : WireTx} {f : CallControl} {effects : List Effect}
    (h : f ∈ sentOn tx effects) : .send tx f ∈ effects := by
  obtain ⟨e, he, hf⟩ := List.mem_filterMap.1 h
  split at hf
  · split_ifs at hf with htx
    rwa [← htx, ← Option.some.inj hf]
  · cases hf

namespace Network

/-- The network before the calls are started. -/
def initial (p : Parties) : Network where
  manager := p.manager
  started _ := false
  flight _ _ := []
  closed _ := false
  noticed _ _ := false

/-- A peer handles a command.  What it sends is in flight, unless the connection was closed before,
and the connections of the calls that it ends are closed. -/
def handle (n : Network) (side : Side) (i : Input) : Network where
  manager := update n.manager side (actor.step (n.manager side) i).1
  started := n.started
  flight connection sender :=
    if sender = side ∧ n.closed connection = false then
      n.flight connection sender ++ sentOn connection.connection (actor.step (n.manager side) i).2
    else n.flight connection sender
  closed connection := n.closed connection ||
    decide (.close connection.connection ∈ (actor.step (n.manager side) i).2)
  noticed := n.noticed

def take (n : Network) (connection sender : Side) : Network :=
  { n with flight := fun c s =>
      if c = connection ∧ s = sender then (n.flight c s).tail else n.flight c s }

/-- A side of a connection notices that it was closed, and reads no more frames from it. -/
def notice (n : Network) (connection side : Side) : Network :=
  { n with
    flight := fun c s => if c = connection ∧ s = side.other then [] else n.flight c s
    noticed := fun c s => decide (c = connection ∧ s = side) || n.noticed c s }

def next (p : Parties) (n : Network) : Happening → Network
  | .start caller now order =>
    if n.started caller then n
    else
      { n with started := update n.started caller true }.handle caller
        ⟨now, order, .start (p.callId caller) (p.key caller.other) (p.kind caller)
          (some caller.connection)⟩
  | .deliver connection sender now order =>
    match n.flight connection sender with
    | [] => n
    | control :: _ =>
      (n.take connection sender).handle sender.other
        ⟨now, order, .control (p.key sender) control connection.connection⟩
  | .closed connection side now order =>
    if n.closed connection && !n.noticed connection side then
      (n.notice connection side).handle side ⟨now, order, .connectionClosed (p.key side.other)⟩
    else n

end Network

def network (p : Parties) : Machine Network Happening Unit where
  step n e := (n.next p e, [])

namespace Network

variable (p : Parties) (n : Network)

/-- A peer has the attempt in its table: as an outgoing call if it is the caller, and as an incoming
call otherwise. -/
def Has (side caller : Side) : Prop :=
  ∃ call, (n.manager side).calls.lookup (p.callId caller) = some call ∧
    call.incoming = decide (side ≠ caller)

/-- One of the attempts survives on both sides, and the other on none. -/
def Resolved : Prop :=
  ∃ caller, (∀ side, n.Has p side caller) ∧ ∀ side, ¬ n.Has p side caller.other

/-- Nothing is on its way: neither a frame nor the news that a connection was closed. -/
def Quiet : Prop :=
  (∀ connection sender, n.flight connection sender = []) ∧
    ∀ connection side, n.closed connection → n.noticed connection side

/-- An offer is delivered to a peer that has not started its own call. -/
def Unopposed : Happening → Prop
  | .deliver connection sender _ _ => connection = sender ∧
    (∃ callId kind capabilities rest,
      n.flight connection sender = .offer callId kind capabilities :: rest) ∧
    n.started sender.other = false
  | _ => False

end Network

/-! ### The fate of one attempt -/

inductive Stage where
  /-- The caller has not started it. -/
  | idle
  /-- The caller could not start it: the other peer's attempt was ringing. -/
  | refused
  /-- A hello and an offer are on their way. -/
  | dialled
  | offered
  | busy
  /-- It rings, and the answer is on its way. -/
  | ringing
  | rung
  deriving DecidableEq

namespace Stage

/-- The caller has the attempt in its table. -/
def Calling : Stage → Bool
  | .dialled | .offered | .busy | .ringing | .rung => true
  | .idle | .refused => false

/-- The callee has the attempt in its table. -/
def Called : Stage → Bool
  | .ringing | .rung => true
  | _ => false

def callerFrames (callId : CallId) (kind : CallKind) : Stage → List CallControl
  | .dialled => [.hello callControlVersion callId, .offer callId kind (callCapabilities kind)]
  | .offered => [.offer callId kind (callCapabilities kind)]
  | _ => []

def calleeFrames (callId : CallId) : Stage → List CallControl
  | .busy => [.busy callId]
  | .ringing => [.ringing callId]
  | _ => []

/-- The stages at which the other attempt can be. -/
def Fits (stage opponent : Stage) : Bool :=
  match stage with
  | .idle => true
  | .refused => opponent.Called
  | .dialled | .offered => !opponent.Called
  | .busy => opponent.Calling && !opponent.Called
  | .ringing | .rung => !opponent.Calling

/-- What becomes of an attempt, given the stage of the other one, until its caller gives up. -/
def Next (stage opponent next : Stage) : Bool :=
  match stage, next with
  | .idle, .refused => opponent.Called
  | .idle, .dialled => !opponent.Called
  | .dialled, .offered | .ringing, .rung => true
  | .offered, .ringing => opponent = .idle
  | .offered, .busy => opponent ≠ .idle
  | _, _ => false

variable {s o t : Stage}

theorem fits_next (h : s.Fits o) (h' : o.Fits s) (hn : s.Next o t) : t.Fits o ∧ o.Fits t := by
  revert h h' hn
  cases s <;> cases t <;> cases o <;> decide

/-- An attempt rings from the moment when its offer meets no attempt of the callee. -/
theorem called_next (hn : s.Next o t) : t.Called ↔ s.Called ∨ s = .offered ∧ o = .idle := by
  revert hn
  cases s <;> cases t <;> cases o <;> decide

theorem not_called_of_calling (h : s.Fits o) (hs : s.Calling) : ¬ o.Called := by
  revert h hs
  cases s <;> cases o <;> decide

/-- An attempt whose offer is on its way is opposed by one that was started. -/
theorem calling_of_fits (h : o.Fits .offered) (ho : o ≠ .idle) : o.Calling := by
  revert h ho
  cases o <;> decide

end Stage

attribute [simp] Network.handle Stage.callerFrames Stage.calleeFrames

/-- The stages of both attempts, by caller. -/
abbrev Stages := Side → Stage

/-! ### A table with at most one call -/

namespace Manager

/-- The table has no call, or one call, which is the peer's. -/
def Table (m : Manager) (peer : PublicKey) : Option (CallId × Bool × WireTx) → Prop
  | none => ∀ c, m.calls.lookup c = none
  | some (callId, incoming, connection) => ∃ call : CallState, call.peer = peer ∧
    call.incoming = incoming ∧ call.connection = connection ∧ call.ending = false ∧
    ∀ c, m.calls.lookup c = if c = callId then some call else none

variable {m : Manager} {peer : PublicKey} {k : CallId} {i : Bool} {tx : WireTx}

theorem iter_of_table_none (h : m.Table peer none) (od : List CallId) : m.iter od = [] := by
  refine List.eq_nil_iff_forall_not_mem.2 fun e he => ?_
  rw [mem_iter, h e.1] at he
  cases he

/-- A table with one call is found to have a call of the peer. -/
theorem find_of_table (h : m.Table peer (some (k, i, tx))) (order : List CallId) :
    ∃ e, (m.iter order).find? (fun e => e.2.isActive || e.2.peer = peer) = some e ∧
      e.2.peer = peer := by
  obtain ⟨call, hp, -, -, -, hl⟩ := h
  have hmem : (k, call) ∈ m.iter order := mem_iter.2 (by simp [hl])
  cases hf : (m.iter order).find? fun e => e.2.isActive || e.2.peer = peer with
  | none => simpa [hp] using List.find?_eq_none.1 hf _ hmem
  | some e =>
    have he := mem_iter.1 (List.mem_of_find?_eq_some hf)
    rw [hl] at he
    split at he
    · exact ⟨e, rfl, by rw [← Option.some.inj he, hp]⟩
    · cases he

theorem any_of_table (h : m.Table peer (some (k, i, tx))) (od : List CallId) :
    (m.iter od).any fun e => e.2.isActive || e.2.peer = peer := by
  obtain ⟨e, hfi, -⟩ := find_of_table h od
  have hf := List.find?_some hfi
  exact List.any_eq_true.2 ⟨e, List.mem_of_find?_eq_some hfi, hf⟩

/-- A call that is inserted into an empty table is the only one. -/
theorem table_setCall {call : CallState} (h : m.Table peer none) (hp : call.peer = peer)
    (hi : call.incoming = i) (ht : call.connection = tx) (hen : call.ending = false) :
    (m.setCall k call).advanceGeneration.Table peer (some (k, i, tx)) := by
  refine ⟨call, hp, hi, ht, hen, fun c => ?_⟩
  change (m.setCall k call).calls.lookup c = _
  split_ifs with hc
  · rw [hc, lookup_setCall_self]
  · rw [lookup_setCall_of_ne hc, h c]

/-- A table has the call of its entry, and no other. -/
theorem exists_lookup_iff {entry : Option (CallId × Bool × WireTx)} (h : m.Table peer entry) :
    (∃ call, m.calls.lookup k = some call ∧ call.incoming = i) ↔ ∃ tx, entry = some (k, i, tx) := by
  cases entry with
  | none =>
    refine iff_of_false ?_ nofun
    rintro ⟨call, hca, -⟩
    rw [h k] at hca
    cases hca
  | some entry =>
    obtain ⟨k', i', tx⟩ := entry
    obtain ⟨call, -, hi, -, -, hl⟩ := h
    rw [hl]
    constructor
    · rintro ⟨z, hz, hout⟩
      split_ifs at hz with hc
      exact ⟨tx, by rw [hc, ← hout, ← Option.some.inj hz, hi]⟩
    · rintro ⟨tx, heq⟩
      cases heq
      exact ⟨call, if_pos rfl, hi⟩

theorem handleOffer_of_empty (h : m.Table peer none) (now : Instant) (o : List CallId)
    (k : CallId) (kind : CallKind) (tx : WireTx) :
    (m.handleOffer now o peer k kind tx).1.Table peer (some (k, true, tx)) ∧
      (m.handleOffer now o peer k kind tx).1.terminalCalls = m.terminalCalls ∧
      (m.handleOffer now o peer k kind tx).1.stopped = m.stopped ∧
      (m.handleOffer now o peer k kind tx).2 =
        [.send tx (.ringing k), .emit (.incoming k peer kind)] := by
  have hnil := iter_of_table_none h o
  have hr : m.Rings o peer := by
    simp [Rings, hnil, maxPendingCallOffers]
  rw [handleOffer_of_rings hr, ring_eq, hnil]
  exact ⟨table_setCall h rfl rfl rfl rfl, rfl, rfl, rfl⟩

theorem handleOffer_of_table (h : m.Table peer (some (k, i, tx))) (now : Instant) (o : List CallId)
    (k' : CallId) (kind : CallKind) (tx' : WireTx) :
    m.handleOffer now o peer k' kind tx' = (m, [.send tx' (.busy k')]) := by
  obtain ⟨e, hf, hp⟩ := find_of_table h o
  simp only [handleOffer, hf, hp, if_true, ite_self]

/-- The peer is being called: there is no other call, and a termination goes through. -/
def Calls (m : Manager) (peer : PublicKey) (callId : CallId) (connection : WireTx) : Prop :=
  m.Table peer (some (callId, false, connection)) ∧ callId ∉ m.terminalCalls

def Outgoing (m : Manager) (callId : CallId) : Prop :=
  ∃ call, m.calls.lookup callId = some call ∧ call.incoming = false

theorem Quiet.outgoing {r : Reaction} (h : Quiet m r) (ho : r.1.Outgoing k) : m.Outgoing k := by
  obtain ⟨call', hl, hi⟩ := ho
  obtain ⟨call, hc, hco⟩ := h.calls k call' hl
  exact ⟨call, hc, hco.incoming.symm.trans hi⟩

/-- A call that is answered with busy is over. -/
theorem Calls.busy (h : m.Calls peer k tx) :
    ¬ (m.terminateCallWithError k (m.generationOf k) .busy).1.Outgoing k ∧
      .close tx ∈ (m.terminateCallWithError k (m.generationOf k) .busy).2 := by
  obtain ⟨⟨call, -, -, rfl, hen, hl⟩, hu⟩ := h
  have hca : m.calls.lookup k = some call := by simp [hl]
  unfold terminateCallWithError
  rw [terminateCallInner_of_ends .remoteHangup false (some .busy) hca
    (generationMatches_generationOf hca) ⟨hen, hu⟩]
  refine ⟨?_, by simp⟩
  rintro ⟨z, hz, -⟩
  exact (HashMap.lookup_of_erase hz).1 rfl

/-- So is one whose peer has closed a connection. -/
theorem Calls.closed (h : m.Calls peer k tx) (now : Instant) (o : List CallId) :
    ¬ (m.handle now o (.connectionClosed peer)).1.Outgoing k := by
  obtain ⟨⟨call, hp, -, -, hen, hl⟩, hu⟩ := h
  have hm : m.Reserved := by
    intro c z hz hze
    rw [hl] at hz
    split_ifs at hz
    rw [← Option.some.inj hz, hen] at hze
    cases hze
  have he : Ending m (m.handle now o (.connectionClosed peer)) _ := handle_ending hm trivial
  have hg := (he.ends k ⟨call, by simp [hl], hp⟩ hu).2.1
  rintro ⟨z, hz, -⟩
  rw [hg] at hz
  cases hz

theorem terminateCallInner_silent (m : Manager) (k : CallId) (g : UInt64) (rs : HangupReason)
    (fr : Option CallError) : (m.terminateCallInner k g rs false fr).1.stopped = m.stopped ∧
      ∀ tx f, .send tx f ∉ (m.terminateCallInner k g rs false fr).2 := by
  unfold terminateCallInner
  split
  · simp
  · split
    · simp
    · split
      · simp
      · dsimp only
        split <;> simp [setCall]

theorem terminateAll_silent (rs : HangupReason) (l : List (CallId × CallState)) (m : Manager) :
    (m.terminateAll rs false l).1.stopped = m.stopped ∧
      ∀ tx f, .send tx f ∉ (m.terminateAll rs false l).2 := by
  induction l generalizing m with
  | nil => simp [terminateAll]
  | cons e l ih =>
    have he := m.terminateCallInner_silent e.1 e.2.generation rs none
    have hl := ih (m.terminateCall e.1 e.2.generation rs false false).1
    exact ⟨hl.1.trans he.1, fun tx f hf => (List.mem_append.1 hf).elim (he.2 tx f) (hl.2 tx f)⟩

end Manager

/-! ### The network follows the attempts -/

/-- The call that a peer has in its table: its own attempt, or the other one. -/
def Stages.entry (p : Parties) (stages : Stages) (side : Side) : Option (CallId × Bool × WireTx) :=
  if (stages side).Calling then some (p.callId side, false, side.connection)
  else if (stages side.other).Called then some (p.callId side.other, true, side.other.connection)
  else none

/-- The network is in a state that the stages of the attempts describe. -/
structure Matches (p : Parties) (n : Network) (stages : Stages) : Prop where
  started : ∀ x, n.started x = decide (stages x ≠ .idle)
  caller : ∀ x, n.flight x x = (stages x).callerFrames (p.callId x) (p.kind x)
  callee : ∀ x, n.flight x x.other = (stages x).calleeFrames (p.callId x)
  running : ∀ x, (n.manager x).stopped = false
  unused : ∀ x, p.callId x ∉ (n.manager x).terminalCalls
  table : ∀ x, (n.manager x).Table (p.key x.other) (stages.entry p x)
  opened : ∀ x, n.closed x = false
  unnoticed : ∀ x y, n.noticed x y = false
  fits : ∀ x, (stages x).Fits (stages x.other)

namespace Matches

variable {p : Parties} {n n' : Network} {st : Stages} {x : Side} {sg : Stage}

theorem initial (p : Parties) : Matches p (.initial p) fun _ => .idle where
  started _ := rfl
  caller _ := rfl
  callee _ := rfl
  running := p.running
  unused := p.unused
  table := p.free
  opened _ := rfl
  unnoticed _ _ := rfl
  fits _ := rfl

variable (h : Matches p n st)

include h

/-- The stages fit, from the side of each attempt. -/
theorem fits_both (x : Side) : (st x).Fits (st x.other) ∧ (st x.other).Fits (st x) := by
  have ho := h.fits x.other
  rw [x.other_other] at ho
  exact ⟨h.fits x, ho⟩

/-- One attempt advances, and one manager changes. -/
theorem advance (side : Side) (hs : n'.started = update n.started x (decide (sg ≠ .idle)))
    (hcr : n'.flight x x = sg.callerFrames (p.callId x) (p.kind x))
    (hcl : n'.flight x x.other = sg.calleeFrames (p.callId x))
    (hf : ∀ s, n'.flight x.other s = n.flight x.other s)
    (hop : n'.closed = n.closed ∧ n'.noticed = n.noticed)
    (ho : n'.manager side.other = n.manager side.other) (hr : (n'.manager side).stopped = false)
    (hu : p.callId side ∉ (n'.manager side).terminalCalls)
    (ht : (n'.manager side).Table (p.key side.other) (Stages.entry p (update st x sg) side))
    (hsa : Stages.entry p (update st x sg) side.other = st.entry p side.other)
    (hn : (st x).Next (st x.other) sg) : Matches p n' (update st x sg) where
  started y := by
    obtain rfl | rfl := x.eq_or_eq_other y
    · simp [hs]
    · simp [hs, h.started]
  caller y := by
    obtain rfl | rfl := x.eq_or_eq_other y
    · simpa using hcr
    · simpa [hf] using h.caller x.other
  callee y := by
    obtain rfl | rfl := x.eq_or_eq_other y
    · simpa using hcl
    · simpa [hf] using h.callee x.other
  running y := by
    obtain rfl | rfl := side.eq_or_eq_other y
    · exact hr
    · rw [ho]
      exact h.running _
  unused y := by
    obtain rfl | rfl := side.eq_or_eq_other y
    · exact hu
    · rw [ho]
      exact h.unused _
  table y := by
    obtain rfl | rfl := side.eq_or_eq_other y
    · exact ht
    · rw [ho, hsa]
      exact h.table _
  opened y := by rw [hop.1, h.opened]
  unnoticed y z := by rw [hop.2, h.unnoticed]
  fits y := by
    have hfi := Stage.fits_next (h.fits_both x).1 (h.fits_both x).2 hn
    obtain rfl | rfl := x.eq_or_eq_other y
    · simpa using hfi.1
    · simpa using hfi.2

theorem exclusive (hc : (st x).Calling) : ¬ (st x.other).Called :=
  Stage.not_called_of_calling (h.fits x) hc

theorem step_eq (side : Side) (i : Input) :
    actor.step (n.manager side) i = (n.manager side).handle i.now i.order i.command := by
  simp [actor, h.running]

/-! One lemma for each transition of an attempt. -/

/-- The caller cannot start its call: the other attempt rings here. -/
theorem refuse (hs : st x = .idle) (hc : (st x.other).Called) (now : Instant) (od : List CallId) :
    Matches p (n.next p (.start x now od)) (update st x .refused) := by
  have hnot : n.started x = false := by simp [h.started, hs]
  have hcl := h.caller x
  have hca := h.callee x
  have ht := h.table x
  have hen : st.entry p x = some (p.callId x.other, true, x.other.connection) := by
    simp [Stages.entry, hs, Stage.Calling, hc]
  rw [hs] at hcl hca
  rw [hen] at ht
  have hstep := h.step_eq x ⟨now, od, .start (p.callId x) (p.key x.other) (p.kind x)
    (some x.connection)⟩
  simp only [handle, handleStart, any_of_table ht] at hstep
  simp only [Network.next, hnot]
  refine h.advance x ?_ ?_ ?_ ?_ ?_ ?_ ?_ ?_ ?_ ?_ ?_
  · simp
  · simp [hstep, sentOn, hcl]
  · simp [hca]
  · simp [hstep, sentOn]
  · simp [hstep]
  · simp
  · simpa [hstep] using h.running x
  · simpa [hstep] using h.unused x
  · simpa [hstep, Stages.entry, Stage.Calling, hc] using ht
  · simp [Stages.entry, Stage.Called, hs]
  · simp [Stage.Next, hs, hc]

/-- The caller starts its call, and its table was empty. -/
theorem dial (hs : st x = .idle) (hc : ¬ (st x.other).Called) (now : Instant) (od : List CallId) :
    Matches p (n.next p (.start x now od)) (update st x .dialled) := by
  have hnot : n.started x = false := by simp [h.started, hs]
  have hcl := h.caller x
  have hca := h.callee x
  have ht := h.table x
  have hen : st.entry p x = none := by
    simp [Stages.entry, hs, Stage.Calling, hc]
  rw [hs] at hcl hca
  rw [hen] at ht
  have hstep := h.step_eq x ⟨now, od, .start (p.callId x) (p.key x.other) (p.kind x)
    (some x.connection)⟩
  simp only [handle, handleStart, iter_of_table_none ht] at hstep
  simp only [Network.next, hnot]
  refine h.advance x ?_ ?_ ?_ ?_ ?_ ?_ ?_ ?_ ?_ ?_ ?_
  · simp
  · simp [hstep, sentOn, hcl, h.opened]
  · simp [hca]
  · simp [hstep, sentOn, x.connection_other_ne.symm]
  · simp [hstep]
  · simp
  · simpa [hstep, setCall, advanceGeneration] using h.running x
  · simpa [hstep, setCall, advanceGeneration] using h.unused x
  · simpa [hstep, Stages.entry, Stage.Calling, CallState.create] using
      table_setCall ht rfl rfl rfl rfl
  · simp [Stages.entry, Stage.Called, hs]
  · simp [Stage.Next, hs, hc]

/-- A frame is delivered, and the attempt of its connection advances. -/
theorem deliver {sender : Side} {now : Instant} {o : List CallId} {ctl : CallControl}
    {rest : List CallControl} {r : Reaction} (hf : n.flight x sender = ctl :: rest)
    (hr : (n.manager sender.other).handle now o (.control (p.key sender) ctl x.connection) = r)
    (hi : st x ≠ .idle ∧ sg ≠ .idle)
    (hcr : (if sender = x then rest else n.flight x x ++ sentOn x.connection r.2) =
      sg.callerFrames (p.callId x) (p.kind x))
    (hcl : (if sender = x then n.flight x x.other ++ sentOn x.connection r.2 else rest) =
      sg.calleeFrames (p.callId x))
    (hq : sentOn x.other.connection r.2 = []) (hop : ∀ tx, .close tx ∉ r.2)
    (hru : r.1.stopped = false) (hu : p.callId sender.other ∉ r.1.terminalCalls)
    (ht : r.1.Table (p.key sender) (Stages.entry p (update st x sg) sender.other))
    (hs : Stages.entry p (update st x sg) sender = st.entry p sender)
    (hnext : (st x).Next (st x.other) sg) :
    Matches p (n.next p (.deliver x sender now o)) (update st x sg) := by
  have hstep : actor.step (n.manager sender.other)
      ⟨now, o, .control (p.key sender) ctl x.connection⟩ = r :=
    (h.step_eq sender.other _).trans hr
  have hcs : n.closed = fun _ => false := funext h.opened
  -- the network after the delivery, with the result of the handler in place
  have hn : n.next p (.deliver x sender now o) =
      { n with
        manager := update n.manager sender.other r.1
        flight := fun c s =>
          if s = sender.other then (n.take x sender).flight c s ++ sentOn c.connection r.2
          else (n.take x sender).flight c s } := by
    simp [Network.next, hf, Network.take, hstep, hop, hcs]
  rw [hn]
  refine h.advance sender.other ?_ ?_ ?_ ?_ ⟨rfl, rfl⟩ ?_ ?_ ?_ ?_ ?_ hnext
  · simp [h.started, hi]
  · rw [← hcr]
    obtain rfl | rfl := x.eq_or_eq_other sender
    · simp [Network.take, hf]
    · simp [Network.take]
  · rw [← hcl]
    obtain rfl | rfl := x.eq_or_eq_other sender
    · simp [Network.take]
    · simp [Network.take, hf]
  · intro s
    simp [Network.take, hq]
  · simp
  · simpa using hru
  · simpa using hu
  · simpa using ht
  · simpa using hs

/-- The hello is delivered; nothing answers it. -/
theorem hello (hs : st x = .dialled) (now : Instant) (od : List CallId) :
    Matches p (n.next p (.deliver x x now od)) (update st x .offered) := by
  have hca := h.caller x
  have hc := h.callee x
  simp only [hs] at hca hc
  have hr : (n.manager x.other).handle now od
      (.control (p.key x) (.hello callControlVersion (p.callId x)) x.connection) =
      (n.manager x.other, []) := rfl
  refine h.deliver hca hr ?_ ?_ ?_ ?_ ?_ ?_ ?_ ?_ ?_ (by simp [Stage.Next, hs])
  · simp [hs]
  · simp
  · simp [hc, sentOn]
  · rfl
  · simp
  · exact h.running x.other
  · exact h.unused x.other
  · simpa [Stages.entry, Stage.Called, hs] using h.table x.other
  · simp [Stages.entry, Stage.Calling, hs]

/-- The offer is delivered to a peer that is calling, too, and is answered with busy. -/
theorem collide (hs : st x = .offered) (hi : st x.other ≠ .idle) {now : Instant} {o : List CallId} :
    Matches p (n.next p (.deliver x x now o)) (update st x .busy) := by
  have hcl := h.caller x
  have hca := h.callee x
  have ht := h.table x.other
  simp only [hs] at hcl hca
  have hc : (st x.other).Calling := Stage.calling_of_fits (hs ▸ (h.fits_both x).2) hi
  have hen : st.entry p x.other = some (p.callId x.other, false, x.other.connection) := by
    simp [Stages.entry, hc]
  simp only [Side.other_other, hen] at ht
  have hr : (n.manager x.other).handle now o (.control (p.key x)
      (.offer (p.callId x) (p.kind x) (callCapabilities (p.kind x))) x.connection) =
      (n.manager x.other, [.send x.connection (.busy (p.callId x))]) :=
    handleOffer_of_table ht ..
  refine h.deliver hcl hr ?_ ?_ ?_ ?_ ?_ ?_ ?_ ?_ ?_ ?_
  · simp [hs]
  · simp
  · simp [hca, sentOn]
  · simp [sentOn, x.connection_other_ne.symm]
  · simp
  · exact h.running x.other
  · exact h.unused x.other
  · simpa [Stages.entry, hc] using ht
  · simp [Stages.entry, Stage.Calling, hs]
  · simp [Stage.Next, hs, hi]

/-- The offer is delivered to a peer without a call, and rings. -/
theorem ring (hs : st x = .offered) (hi : st x.other = .idle) (now : Instant) (o : List CallId) :
    Matches p (n.next p (.deliver x x now o)) (update st x .ringing) := by
  have hcr := h.caller x
  have hcl := h.callee x
  have ht := h.table x.other
  have hen : st.entry p x.other = none := by
    simp [Stages.entry, hi, hs, Stage.Called, Stage.Calling]
  simp only [hs] at hcr hcl
  simp only [Side.other_other, hen] at ht
  obtain ⟨hta, hte, hst, hout⟩ := handleOffer_of_empty ht now o (p.callId x) (p.kind x) x.connection
  have hr : (n.manager x.other).handle now o (.control (p.key x)
      (.offer (p.callId x) (p.kind x) (callCapabilities (p.kind x))) x.connection) =
      (n.manager x.other).handleOffer now o (p.key x) (p.callId x) (p.kind x)
        x.connection := rfl
  refine h.deliver hcr hr ?_ ?_ ?_ ?_ ?_ ?_ ?_ ?_ ?_ ?_
  · simp [hs]
  · simp
  · simp [hout, hcl, sentOn]
  · simp [hout, sentOn, x.connection_other_ne.symm]
  · simp [hout]
  · exact hst.trans (h.running x.other)
  · rw [hte]
    exact h.unused x.other
  · simpa [Stages.entry, hi, Stage.Called, Stage.Calling] using hta
  · simp [Stages.entry, Stage.Calling, hs]
  · simp [Stage.Next, hs, hi]

theorem rung (hs : st x = .ringing) (now : Instant) (od : List CallId) :
    Matches p (n.next p (.deliver x x.other now od)) (update st x .rung) := by
  have hcl := h.caller x
  have hca := h.callee x
  simp only [hs] at hcl hca
  have hr : (n.manager x.other.other).handle now od
      (.control (p.key x.other) (.ringing (p.callId x)) x.connection) = (n.manager x, []) := by
    rw [Side.other_other]
    rfl
  refine h.deliver hca hr ?_ ?_ ?_ ?_ ?_ ?_ ?_ ?_ ?_ (by simp [Stage.Next, hs])
  · simp [hs]
  · simp [hcl, sentOn]
  · simp
  · rfl
  · simp
  · exact h.running x
  · simpa using h.unused x
  · simpa [Stages.entry, Stage.Calling, hs] using h.table x
  · simp [Stages.entry, Stage.Called, hs]

/-- Which attempts a peer has in its table. -/
theorem has_iff {side c : Side} :
    n.Has p side c ↔ if side = c then (st side).Calling else (st c).Called := by
  unfold Network.Has
  rw [exists_lookup_iff (h.table side), Stages.entry]
  obtain rfl | rfl := side.eq_or_eq_other c
  · rw [if_pos rfl]
    split_ifs with hc hca <;> simp [hc]
  · have hec := h.exclusive (x := side)
    rw [if_neg side.ne_other]
    split_ifs with hc hca
    · simpa using hec hc
    · simp [hca]
    · simp [hca]

end Matches

/-! ### An attempt that is given up -/

/-- What a peer can hear from the sender once both calls are started: the frames of the attempts,
and that a connection was closed. -/
inductive Hears (p : Parties) (sender : Side) : Command → Prop
  | hello (version : UInt16) : Hears p sender
      (.control (p.key sender) (.hello version (p.callId sender)) sender.connection)
  | offer (kind : CallKind) (capabilities : MediaCapabilities) : Hears p sender
      (.control (p.key sender) (.offer (p.callId sender) kind capabilities) sender.connection)
  | busy : Hears p sender
      (.control (p.key sender) (.busy (p.callId sender.other)) sender.other.connection)
  | ringing : Hears p sender
      (.control (p.key sender) (.ringing (p.callId sender.other)) sender.other.connection)
  | closed : Hears p sender (.connectionClosed (p.key sender))

/-- What it does then: it answers on the connection of the sender, and starts no call.  Its own call
stays the only one, or ends. -/
structure Heard (p : Parties) (sender : Side) (m : Manager) (r : Reaction) : Prop where
  running : r.1.stopped = m.stopped
  sends : ∀ tx f, .send tx f ∈ r.2 → Hears p sender.other (.control (p.key sender.other) f tx)
  outgoing : ∀ k, r.1.Outgoing k → m.Outgoing k
  calls : m.Calls (p.key sender) (p.callId sender.other) sender.other.connection →
    r.1.Calls (p.key sender) (p.callId sender.other) sender.other.connection ∨
      ¬ r.1.Outgoing (p.callId sender.other)

section

variable {p : Parties} {s : Side} {m : Manager} {now : Instant}
  {o : List CallId} {command : Command}

/-- A peer may answer that it is busy, or that the call rings. -/
theorem Hears.answer (p : Parties) (s : Side) :
    Hears p s.other (.control (p.key s.other) (.busy (p.callId s)) s.connection) ∧
      Hears p s.other (.control (p.key s.other) (.ringing (p.callId s)) s.connection) := by
  have hb := @Hears.busy p s.other
  have hr := @Hears.ringing p s.other
  rw [s.other_other] at hb hr
  exact ⟨hb, hr⟩

theorem heard_idle : Heard p s m (m, []) :=
  ⟨rfl, by simp, fun _ h => h, fun h => .inl h⟩

theorem heard_offer (kind : CallKind) :
    Heard p s m (m.handleOffer now o (p.key s) (p.callId s) kind s.connection) := by
  obtain ⟨hb, hri⟩ := Hears.answer p s
  by_cases hr : m.Rings o (p.key s)
  · refine ⟨?_, fun tx f hf => ?_, fun k hk => ?_, fun hc => ?_⟩
    · rw [handleOffer_of_rings hr, ring_eq]
      rfl
    · rw [handleOffer_of_rings hr, ring_eq] at hf
      obtain hf | hf := List.mem_append.1 hf
      · split at hf
        · obtain ⟨rfl, rfl⟩ := Effect.send.inj (List.mem_singleton.1 hf)
          exact hb
        · cases hf
      · obtain ⟨rfl, rfl⟩ : tx = s.connection ∧ f = .ringing (p.callId s) := by simpa using hf
        exact hri
    · rw [handleOffer_of_rings hr, ring_eq] at hk
      obtain ⟨call, hl, hi⟩ := hk
      obtain ⟨-, rfl⟩ | ⟨-, hl⟩ := HashMap.lookup_insert_cases hl
      · cases hi
      · exact ⟨call, hl, hi⟩
    · rw [handleOffer_of_table hc.1]
      exact .inl hc
  · obtain ⟨hm, hout⟩ :=
      @handleOffer_of_not_rings m o (p.key s) hr now (p.callId s) kind s.connection
    refine ⟨by rw [hm], fun tx f hf => ?_, fun k hk => hm ▸ hk, fun hc => .inl (hm.symm ▸ hc)⟩
    obtain ⟨rfl, rfl⟩ := Effect.send.inj (hout _ hf)
    exact hb

theorem heard_handle (h : Hears p s command) : Heard p s m (m.handle now o command) := by
  cases h with
  | hello | ringing => exact heard_idle
  | offer kind capabilities => exact heard_offer kind
  | busy =>
    obtain ⟨hs, hq⟩ := m.terminateCallInner_silent (p.callId s.other)
      (m.generationOf (p.callId s.other)) .remoteHangup (some .busy)
    exact ⟨hs, fun tx f hf => absurd hf (hq tx f),
      fun k hk => (m.quiet_terminateCallInner ..).outgoing hk, fun hc => .inr hc.busy.1⟩
  | closed =>
    obtain ⟨hs, hq⟩ := terminateAll_silent .connectionLost
      ((m.iter o).filter fun e => e.2.peer = p.key s) m
    exact ⟨hs, fun tx f hf => absurd hf (hq tx f),
      fun k hk => (quiet_terminateAll ..).outgoing hk, fun hc => .inr (hc.closed now o)⟩

end

/-- Both calls were started, and only their frames are in flight. -/
structure Crossing (p : Parties) (n : Network) : Prop where
  started : ∀ y, n.started y
  running : ∀ y, (n.manager y).stopped = false
  heard : ∀ c s, ∀ f ∈ n.flight c s, Hears p s (.control (p.key s) f c.connection)

/-- The caller of an attempt has given it up and closed the connection.  The attempt of the other
peer ends at the latest when that peer notices it. -/
structure Lost (p : Parties) (n : Network) (x : Side) : Prop extends Crossing p n where
  closed : n.closed x
  gone : ¬ (n.manager x).Outgoing (p.callId x)
  calls : (n.manager x.other).Outgoing (p.callId x.other) →
    (n.manager x.other).Calls (p.key x) (p.callId x.other) x.other.connection
  noticed : n.noticed x x.other → ¬ (n.manager x.other).Outgoing (p.callId x.other)

section

variable {p : Parties} {n w : Network} {st : Stages} {s x : Side} {i : Input}

theorem mem_flight_of_take {conn : Side} (c t : Side) (f : CallControl)
    (h : f ∈ (n.take conn s).flight c t) : f ∈ n.flight c t := by
  simp only [Network.take] at h
  split_ifs at h
  · exact List.mem_of_mem_tail h
  · exact h

/-- A peer hears something; `w` is the network from which that has been taken. -/
theorem Crossing.handle (h : Crossing p n) (hm : w.manager = n.manager)
    (hs : w.started = n.started) (hf : ∀ c t, ∀ f ∈ w.flight c t, f ∈ n.flight c t)
    (hc : Hears p s i.command) : Crossing p (w.handle s.other i) ∧
      Heard p s (n.manager s.other) (actor.step (w.manager s.other) i) := by
  have hstep : actor.step (w.manager s.other) i =
      (n.manager s.other).handle i.now i.order i.command := by
    simp [actor, hm, h.running]
  have hh : Heard p s (n.manager s.other) (actor.step (w.manager s.other) i) := by
    rw [hstep]
    exact heard_handle hc
  refine ⟨⟨fun y => ?_, fun y => ?_, fun c t f hft => ?_⟩, hh⟩
  · exact (congrFun hs y).trans (h.started y)
  · obtain rfl | rfl := s.other.eq_or_eq_other y
    · simpa using hh.running.trans (h.running _)
    · simpa [hm] using h.running s
  · simp only [Network.handle] at hft
    split_ifs at hft with ht
    · obtain hft | hft := List.mem_append.1 hft
      · exact h.heard c t f (hf c t f hft)
      · rw [ht.1]
        exact hh.sends _ _ (send_of_mem_sentOn hft)
    · exact h.heard c t f (hf c t f hft)

namespace Lost

variable (h : Lost p n x)

include h

theorem handle (hm : w.manager = n.manager) (hs : w.started = n.started)
    (hcl : w.closed = n.closed) (hf : ∀ c t, ∀ f ∈ w.flight c t, f ∈ n.flight c t)
    (hc : Hears p s i.command) (hn : w.noticed x x.other → n.noticed x x.other ∨
      s = x ∧ i.command = .connectionClosed (p.key x)) : Lost p (w.handle s.other i) x := by
  obtain ⟨hcr, hh⟩ := h.toCrossing.handle hm hs hf hc
  -- no call is started
  have hout : ∀ y k, ((w.handle s.other i).manager y).Outgoing k → (n.manager y).Outgoing k := by
    intro y k hk
    obtain rfl | rfl := s.other.eq_or_eq_other y
    · exact hh.outgoing k (by simpa using hk)
    · simpa [hm] using hk
  refine ⟨hcr, by simp [hcl, h.closed], fun hk => h.gone (hout _ _ hk), fun hk => ?_,
    fun hno hk => ?_⟩
  · have hca := h.calls (hout _ _ hk)
    obtain rfl | rfl := x.eq_or_eq_other s
    · have hk' := (hh.calls hca).resolve_right (not_not_intro (by simpa using hk))
      simpa using hk'
    · simpa [hm] using hca
  · obtain hno | ⟨rfl, hcmd⟩ := hn hno
    · exact h.noticed hno (hout _ _ hk)
    · refine (h.calls (hout _ _ hk)).closed i.now i.order ?_
      simpa [actor, hm, h.running, hcmd] using hk

theorem step (e : Happening) : Lost p (n.next p e) x := by
  cases e with
  | start caller now o =>
    simp only [Network.next, if_pos (h.started caller)]
    exact h
  | deliver conn sender now o =>
    simp only [Network.next]
    cases hf : n.flight conn sender with
    | nil => exact h
    | cons f rest =>
      exact h.handle (s := sender) rfl rfl rfl mem_flight_of_take
        (h.heard conn sender f (by simp [hf])) .inl
  | closed conn side now o =>
    simp only [Network.next]
    split_ifs
    · have hl := h.handle (s := side.other) (w := n.notice conn side)
        (i := ⟨now, o, .connectionClosed (p.key side.other)⟩) rfl rfl rfl
        (fun c t f hft => ?_) .closed fun hno => ?_
      · rwa [side.other_other] at hl
      · simp only [Network.notice] at hft
        split_ifs at hft
        · cases hft
        · exact hft
      · simp only [Network.notice, Bool.or_eq_true, decide_eq_true_eq] at hno
        obtain ⟨-, rfl⟩ | hno := hno
        · rw [x.other_other]
          exact .inr ⟨rfl, rfl⟩
        · exact .inl hno
    · exact h

end Lost

namespace Matches

variable (h : Matches p n st)

include h

theorem crossing (hs : st x = .busy) : Crossing p n := by
  have hfi := h.fits x
  refine ⟨fun y => ?_, h.running, fun c t f hf => ?_⟩
  · rw [h.started]
    obtain rfl | rfl := x.eq_or_eq_other y
    · simp [hs]
    · rw [hs] at hfi
      revert hfi
      cases st x.other <;> decide
  · obtain rfl | rfl := c.eq_or_eq_other t
    · rw [h.caller] at hf
      cases hst : st t <;> simp only [hst, Stage.callerFrames, List.mem_cons, List.not_mem_nil,
        or_false] at hf
      · obtain rfl | rfl := hf
        · exact .hello _
        · exact .offer _ _
      · exact hf ▸ .offer _ _
    · rw [h.callee] at hf
      cases hst : st c <;> simp only [hst, Stage.calleeFrames, List.mem_cons, List.not_mem_nil,
        or_false] at hf
      · exact hf ▸ (Hears.answer p c).1
      · exact hf ▸ (Hears.answer p c).2

/-- The caller learns that the callee is busy, and gives up. -/
theorem fail (hs : st x = .busy) (now : Instant) (o : List CallId) :
    Lost p (n.next p (.deliver x x.other now o)) x := by
  have hf := h.callee x
  have hcall : ∀ y, (st y).Calling →
      (n.manager y).Calls (p.key y.other) (p.callId y) y.connection := fun y hy => by
    have ht := h.table y
    rw [Stages.entry, if_pos hy] at ht
    exact ⟨ht, h.unused y⟩
  have hx := (hcall x (by simp [hs, Stage.Calling])).busy
  have hfi := h.fits x
  simp only [hs, Stage.calleeFrames] at hf hfi
  have hstep : actor.step (n.manager x)
      ⟨now, o, .control (p.key x.other) (.busy (p.callId x)) x.connection⟩ =
      (n.manager x).terminateCallWithError (p.callId x)
        ((n.manager x).generationOf (p.callId x)) .busy := h.step_eq x _
  obtain ⟨hcr, -⟩ := (h.crossing hs).handle (s := x.other) (w := n.take x x.other)
    (i := ⟨now, o, .control (p.key x.other) (.busy (p.callId x)) x.connection⟩) rfl rfl
    mem_flight_of_take (Hears.answer p x).1
  simp only [Network.next, hf]
  refine ⟨hcr, ?_, ?_, fun _ => ?_, fun hno => ?_⟩
  · simpa [Network.take, h.opened, hstep] using hx.2
  · simpa [Network.take, hstep] using hx.1
  · simpa [Network.take] using hcall x.other (Bool.and_eq_true_iff.1 hfi).1
  · simp [Network.take, h.unnoticed] at hno

end Matches

end

/-! ### Attempts that ring -/

variable (stages : Stages)

/-- The answer that the callee is busy reaches the caller. -/
def Stages.GivesUp : Happening → Prop
  | .deliver connection sender _ _ => sender = connection.other ∧ stages connection = .busy
  | _ => False

def Stages.Rings : Prop := ∃ x, (stages x).Called

/-- An attempt rings, and none has been given up. -/
def Network.Rings (p : Parties) (n : Network) : Prop :=
  (∀ x, n.closed x = false) ∧ ∃ x, n.Has p x.other x

theorem Stages.rings_iff (x : Side) :
    stages.Rings ↔ (stages x).Called ∨ (stages x.other).Called := by
  constructor
  · rintro ⟨y, hy⟩
    obtain rfl | rfl := x.eq_or_eq_other y
    · exact .inl hy
    · exact .inr hy
  · rintro (h | h)
    · exact ⟨x, h⟩
    · exact ⟨x.other, h⟩

section

variable {p : Parties} {n : Network} {st : Stages} {x : Side} {e : Happening} {sg : Stage}

namespace Matches

/-- An attempt advances, and rings if its offer meets no attempt of the callee. -/
theorem goes (hm : Matches p (n.next p e) (update st x sg)) (hn : (st x).Next (st x.other) sg)
    (hu : n.Unopposed e ↔ st x = .offered ∧ st x.other = .idle) :
    ∃ st', Matches p (n.next p e) st' ∧ (st'.Rings ↔ st.Rings ∨ n.Unopposed e) := by
  refine ⟨_, hm, ?_⟩
  rw [Stages.rings_iff _ x, Stages.rings_iff st x, hu]
  simp only [update_self, update_of_ne x.other_ne, Stage.called_next hn]
  exact or_right_comm

variable (h : Matches p n st)

include h

theorem unopposed_iff {now : Instant} {o : List CallId} :
    n.Unopposed (.deliver x x now o) ↔ st x = .offered ∧ st x.other = .idle := by
  refine (and_iff_right rfl).trans ?_
  rw [h.started, h.caller]
  cases st x <;> simp

/-- The network follows the attempts until one of them is given up. -/
theorem step (hg : ¬ st.GivesUp e) :
    ∃ st', Matches p (n.next p e) st' ∧ (st'.Rings ↔ st.Rings ∨ n.Unopposed e) := by
  -- what neither starts a call nor finds a frame changes nothing
  have hstay : n.next p e = n → ¬ n.Unopposed e →
      ∃ st', Matches p (n.next p e) st' ∧ (st'.Rings ↔ st.Rings ∨ n.Unopposed e) :=
    fun hn hu => ⟨st, hn.symm ▸ h, (or_iff_left hu).symm⟩
  cases e with
  | start x now o =>
    by_cases hs : st x = .idle
    · by_cases hc : (st x.other).Called
      · exact (h.refuse hs hc now o).goes (by simp [Stage.Next, hs, hc])
          (iff_of_false id (by simp [hs]))
      · exact (h.dial hs hc now o).goes (by simp [Stage.Next, hs, hc])
          (iff_of_false id (by simp [hs]))
    · exact hstay (if_pos (by simp [h.started, hs])) id
  | deliver x sender now o =>
    obtain rfl | rfl := x.eq_or_eq_other sender
    · have hu : n.Unopposed (.deliver sender sender now o) ↔ _ := h.unopposed_iff
      have hca := h.caller sender
      cases hs : st sender with
      | dialled => exact (h.hello hs now o).goes (by simp [Stage.Next, hs]) hu
      | offered =>
        by_cases hi : st sender.other = .idle
        · exact (h.ring hs hi now o).goes (by simp [Stage.Next, hs, hi]) hu
        · exact (h.collide hs hi).goes (by simp [Stage.Next, hs, hi]) hu
      | _ => exact hstay (by simp [Network.next, hca, hs]) (by simp [hu, hs])
    · have hu : ¬ n.Unopposed (.deliver x x.other now o) := fun hu => x.ne_other hu.1
      have hc := h.callee x
      cases hs : st x with
      | busy => exact absurd ⟨rfl, hs⟩ hg
      | ringing =>
        exact (h.rung hs now o).goes (by simp [Stage.Next, hs]) (iff_of_false hu (by simp [hs]))
      | _ => exact hstay (by simp [Network.next, hc, hs]) hu
  | closed conn side now o => exact hstay (by simp [Network.next, h.opened]) id

theorem rings_iff : n.Rings p ↔ st.Rings := by
  refine (and_iff_right h.opened).trans (exists_congr fun x => ?_)
  rw [h.has_iff, if_neg x.other_ne]

end Matches

theorem Lost.not_rings (h : Lost p n x) : ¬ n.Rings p := fun hr => by
  have hc := h.closed
  rw [hr.1 x] at hc
  cases hc

/-- The states that are reached. -/
def Network.Known (p : Parties) (n : Network) : Prop :=
  (∃ stages, Matches p n stages) ∨ ∃ x, Lost p n x

theorem known_next (h : n.Known p) (e : Happening) :
    (n.next p e).Known p ∧ ((n.next p e).Rings p ↔ n.Rings p ∨ n.Unopposed e) := by
  obtain ⟨st, h⟩ | ⟨x, h⟩ := h
  · by_cases hg : st.GivesUp e
    · cases e with
      | deliver conn sender now o =>
        obtain ⟨rfl, hs⟩ := hg
        have hl := h.fail hs now o
        refine ⟨.inr ⟨conn, hl⟩, iff_of_false hl.not_rings ?_⟩
        rw [h.rings_iff, Stages.rings_iff st conn]
        rintro ((hc | hc) | hc)
        · rw [hs] at hc
          cases hc
        · exact h.exclusive (by simp [hs, Stage.Calling]) hc
        · exact conn.ne_other hc.1
      | _ => exact hg.elim
    · obtain ⟨st', hm, hr⟩ := h.step hg
      refine ⟨.inl ⟨st', hm⟩, ?_⟩
      rw [hm.rings_iff, h.rings_iff]
      exact hr
  · have hl := h.step e
    refine ⟨.inr ⟨x, hl⟩, iff_of_false hl.not_rings ?_⟩
    rintro (hr | hu)
    · exact h.not_rings hr
    · cases e with
      | deliver conn sender now o =>
        have hs := h.started sender.other
        rw [hu.2.2] at hs
        cases hs
      | _ => exact hu

/-- When nothing is in flight, an attempt that was started rings or is over. -/
theorem Stage.settled {s : Stage} {callId : CallId} {kind : CallKind} (hi : s ≠ .idle)
    (hca : s.callerFrames callId kind = []) (hc : s.calleeFrames callId = []) :
    s.Calling = s.Called := by
  cases s with
  | idle => exact absurd rfl hi
  | dialled | offered => cases hca
  | busy | ringing => cases hc
  | refused | rung => rfl

/-- A peer whose attempt is in its table has an outgoing call. -/
theorem Network.Has.outgoing (h : n.Has p x x) : (n.manager x).Outgoing (p.callId x) := by
  simpa [Has, Outgoing] using h

/-- When nothing is on its way, an attempt that was given up has taken the other one with it. -/
theorem Lost.not_resolved (h : Lost p n x) (hq : n.Quiet) : ¬ n.Resolved p := by
  rintro ⟨c, hb, -⟩
  have ho := (hb c).outgoing
  obtain rfl | rfl := x.eq_or_eq_other c
  · exact h.gone ho
  · exact h.noticed (hq.2 x x.other h.closed) ho

theorem Matches.resolved_iff (h : Matches p n st) (hs : ∀ x, n.started x) (hq : n.Quiet) :
    n.Resolved p ↔ n.Rings p := by
  -- with nothing in flight the two sides of an attempt agree about it
  have hc : ∀ x, (st x).Calling = (st x).Called := fun x =>
    Stage.settled (by simpa [h.started] using hs x) ((h.caller x).symm.trans (hq.1 x x))
      ((h.callee x).symm.trans (hq.1 x x.other))
  rw [h.rings_iff]
  constructor
  · rintro ⟨x, hb, -⟩
    have hca := h.has_iff.1 (hb x.other)
    rw [if_neg x.other_ne] at hca
    exact ⟨x, hca⟩
  · rintro ⟨x, hx⟩
    have hcx : (st x).Calling := (hc x).trans hx
    have ho := h.exclusive hcx
    refine ⟨x, fun side => h.has_iff.2 ?_, fun side hh => ?_⟩
    · split_ifs with hsi
      · rw [hsi]
        exact hcx
      · exact hx
    · have hh := h.has_iff.1 hh
      split_ifs at hh with hsi
      · rw [hsi, hc] at hh
        exact ho hh
      · exact ho hh

end

/-- **Simultaneous calls.**  Two peers have started calls to each other, and nothing is on its way.
Exactly one of the two attempts survives on both sides, and it is the same one, exactly when some
offer was delivered to a peer that had not started its own call. -/
theorem glare_resolved_iff (p : Parties) (events : List Happening)
    (hstarted : ∀ x, ((network p).exec (.initial p) events).started x)
    (hquiet : ((network p).exec (.initial p) events).Quiet) :
    ((network p).exec (.initial p) events).Resolved p ↔
      ¬ (network p).Along (fun n e => ¬ n.Unopposed e) (.initial p) events := by
  have h₀ : (Network.initial p).Known p := .inl ⟨_, Matches.initial p⟩
  have hl := Machine.exec_latch_iff (M := network p) (P := Network.Rings p)
    (G := Network.Unopposed) h₀ events known_next
  rw [or_iff_right] at hl
  · rw [← hl]
    obtain ⟨st, h⟩ | ⟨x, h⟩ :=
      Machine.exec_invariant (M := network p) h₀ (fun n e h => (known_next h e).1) events
    · exact h.resolved_iff hstarted hquiet
    · exact iff_of_false (h.not_resolved hquiet) h.not_rings
  · rw [(Matches.initial p).rings_iff]
    rintro ⟨x, hx⟩
    cases hx

/-- Two peers whose managers have just been spawned. -/
def Parties.spawn (key : Side → PublicKey) (callId : Side → CallId) (kind : Side → CallKind) :
    Parties where
  key := key
  callId := callId
  kind := kind
  manager x := .spawn (key x)
  running _ := rfl
  free _ _ := rfl
  unused _ := Finset.notMem_empty _

/-- Two peers and their voice calls. -/
def Parties.pair : Parties :=
  .spawn (fun x => Block.replicate 32 (if x = .left then 1 else 2))
    (fun x => Block.replicate 16 (if x = .left then 7 else 8)) fun _ => .voice

/-- The second peer starts its call when the first one's rings, and cannot. -/
theorem glare_resolved_in_turn :
    let events : List Happening := [.start .left 0 [], .deliver .left .left 1 [],
      .deliver .left .left 2 [], .start .right 3 [], .deliver .left .right 4 []]
    (∀ x, ((network .pair).exec (.initial .pair) events).started x) ∧
      ((network .pair).exec (.initial .pair) events).Quiet ∧
      (((network .pair).exec (.initial .pair) events).Resolved .pair ↔
        ¬ (network .pair).Along (fun n e => ¬ n.Unopposed e) (.initial .pair) events) := by
  intro events
  have hs : ∀ x, ((network .pair).exec (.initial .pair) events).started x := by
    rintro (_ | _) <;> decide +kernel
  have hq : ((network .pair).exec (.initial .pair) events).Quiet := by
    constructor <;> rintro (_ | _) (_ | _) <;> decide +kernel
  exact ⟨hs, hq, glare_resolved_iff .pair events hs hq⟩

/-- The offers cross: both are answered with busy, both callers give up, and no attempt survives. -/
theorem crossing_offers_fail :
    let events : List Happening := [.start .left 0 [], .start .right 1 [],
      .deliver .left .left 2 [], .deliver .left .left 3 [], .deliver .right .right 4 [],
      .deliver .right .right 5 [], .deliver .left .right 6 [], .deliver .right .left 7 [],
      .closed .left .left 8 [], .closed .left .right 9 [], .closed .right .left 10 [],
      .closed .right .right 11 []]
    (∀ x, ((network .pair).exec (.initial .pair) events).started x) ∧
      ((network .pair).exec (.initial .pair) events).Quiet ∧
      ¬ ((network .pair).exec (.initial .pair) events).Resolved .pair := by
  intro events
  refine ⟨?_, ?_, ?_⟩
  · rintro (_ | _) <;> decide +kernel
  · constructor <;> rintro (_ | _) (_ | _) <;> decide +kernel
  · rintro ⟨x, hb, -⟩
    obtain ⟨call, hc, -⟩ := hb x
    have hg : ((network .pair).exec (.initial .pair) events).manager x |>.calls.lookup
        (Parties.pair.callId x) |>.isNone := by
      cases x <;> decide +kernel
    rw [hc] at hg
    cases hg

end Boru.Call
