import Mathlib.Algebra.Ring.Nat
import Boru.LTS.Basic
import Boru.Proto.Types

/-!
# Reconnecting

At most one attempt to reach a peer should be under way, and after a failure the next attempt
should wait.  The scheduler remembers this in a table of bounded size.  When the table is full, a
peer that is scheduled takes the place of another one, whose attempt may be running or whose
backoff may not be over, and which starts afresh when it is scheduled again.

Durations are in milliseconds.  The order in which the table is iterated is an input.

## Main results

* `attempts_spaced` : the attempts of every run in which no such entry is evicted.
* `evicted_in_flight` : an attempt that is started while another one is running.
-/

namespace Boru.ControlPlane

open Function

structure ReconnectEntry where
  /-- Completed failed attempts. -/
  attempts : ℕ
  nextAttemptAt : Instant
  inFlight : Bool

def ReconnectEntry.isDue (now : Instant) (entry : ReconnectEntry) : Bool :=
  !entry.inFlight && entry.nextAttemptAt ≤ now

structure ReconnectScheduler (P : Type) where
  peers : HashMap P ReconnectEntry
  maxPeers : ℕ
  initialBackoff : Duration
  maxBackoff : Duration

namespace ReconnectScheduler

variable {P : Type}

def withLimits (initialBackoff maxBackoff : Duration) (maxPeers : ℕ) : ReconnectScheduler P :=
  ⟨∅, max maxPeers 1, initialBackoff, max maxBackoff initialBackoff⟩

variable (s : ReconnectScheduler P)

def backoffFor (attempts : ℕ) : Duration :=
  if attempts = 0 then 0
  else
    let initialMs := max s.initialBackoff 1 % 2 ^ 64
    let maxMs := max s.maxBackoff 1 % 2 ^ 64
    min (min (initialMs * 2 ^ min (attempts - 1) 30) (2 ^ 64 - 1)) maxMs

def due (now : Instant) : ReconnectScheduler P × List P :=
  let mark (e : ReconnectEntry) := if e.isDue now then { e with inFlight := true } else e
  ({ s with peers := s.peers.retain (some ∘ mark) },
    (s.peers.entries.filter fun e => e.2.isDue now).map Sigma.fst)

variable [DecidableEq P]

/-- The entry that is removed when the table is full. -/
def victim (order : List P) : Option P :=
  let entries := s.peers.iter order
  let queued := entries.filter fun e => !e.2.inFlight
  (((HashMap.maxByKey fun e => e.2.nextAttemptAt) queued).or
    ((HashMap.minByKey fun e => e.2.nextAttemptAt) entries)).map Prod.fst

/-- The table without one of its entries. -/
def evictOne (order : List P) : HashMap P ReconnectEntry :=
  match s.victim order with
  | some peer => s.peers.erase peer
  | none => s.peers

def schedule (peer : P) (now : Instant) (order : List P) : ReconnectScheduler P × Bool :=
  if peer ∈ s.peers then (s, false)
  else
    let peers := if s.maxPeers ≤ s.peers.size then s.evictOne order else s.peers
    ({ s with peers := peers.insert peer ⟨0, now, false⟩ }, true)

def onFailure (peer : P) (now : Instant) : ReconnectScheduler P :=
  match s.peers.lookup peer with
  | none => s
  | some entry =>
    let attempts := min (entry.attempts + 1) (2 ^ 32 - 1)
    { s with peers := s.peers.insert peer ⟨attempts, now + s.backoffFor attempts, false⟩ }

def reset (peer : P) : ReconnectScheduler P := { s with peers := s.peers.erase peer }

end ReconnectScheduler

inductive ReconnectCall (P : Type) where
  | schedule (peer : P) (order : List P)
  | due
  | onFailure (peer : P)
  | reset (peer : P)

/-- What was reported about a peer: whether an attempt is outstanding, how often it has failed since
it was reset (counted as far as a `u32` goes), and when last. -/
structure Attempts where
  outstanding : Bool
  failures : ℕ
  failedAt : Instant

/-- The scheduler, and what was reported about the peers. -/
structure Reconnects (P : Type) extends ReconnectScheduler P where
  attempts : P → Attempts

namespace Reconnects

variable {P : Type} [DecidableEq P]

def start (s : ReconnectScheduler P) : Reconnects P := ⟨s, fun _ => ⟨false, 0, 0⟩⟩

def next (w : Reconnects P) : ReconnectCall P × Instant → Reconnects P
  | (.schedule peer order, now) => ⟨(w.schedule peer now order).1, w.attempts⟩
  | (.due, now) => ⟨(w.due now).1, fun p =>
      if p ∈ (w.due now).2 then { w.attempts p with outstanding := true }
      else w.attempts p⟩
  | (.onFailure peer, now) => ⟨w.onFailure peer now,
      update w.attempts peer ⟨false, min ((w.attempts peer).failures + 1) (2 ^ 32 - 1), now⟩⟩
  | (.reset peer, _) => ⟨w.reset peer, update w.attempts peer ⟨false, 0, 0⟩⟩

def machine : Machine (Reconnects P) (ReconnectCall P × Instant) Empty where
  step w i := (w.next i, [])

/-- The attempts that start have no other attempt of the peer outstanding, and wait for the backoff
of its last failure. -/
def Spaced (w : Reconnects P) : ReconnectCall P × Instant → Prop
  | (.due, now) => ∀ p ∈ (w.due now).2, (w.attempts p).outstanding = false ∧
      (0 < (w.attempts p).failures →
        (w.attempts p).failedAt + w.backoffFor (w.attempts p).failures ≤ now)
  | _ => True

/-- The call evicts no entry with an attempt in flight or with failures, and reports no failure of a
peer that is not queued. -/
def Keeps (w : Reconnects P) : ReconnectCall P × Instant → Prop
  | (.schedule peer order, _) => peer ∉ w.peers →
      w.maxPeers ≤ w.peers.size → ∀ q entry, w.victim order = some q →
      w.peers.lookup q = some entry → entry.inFlight = false ∧ entry.attempts = 0
  | (.onFailure peer, _) => peer ∈ w.peers
  | _ => True

/-- An entry knows the attempts of its peer, and peers without an entry have none. -/
def Knows (backoff : ℕ → Duration) (a : Attempts) : Option ReconnectEntry → Prop
  | none => a.outstanding = false ∧ a.failures = 0
  | some entry => entry.inFlight = a.outstanding ∧ entry.attempts = a.failures ∧
      (0 < a.failures → a.failedAt + backoff a.failures ≤ entry.nextAttemptAt)

def Known (w : Reconnects P) : Prop :=
  ∀ p, Knows w.backoffFor (w.attempts p) (w.peers.lookup p)

variable {w : Reconnects P}

theorem mem_due {s : ReconnectScheduler P} {now : Instant} {p : P} :
    p ∈ (s.due now).2 ↔ ∃ e, s.peers.lookup p = some e ∧ e.isDue now := by
  simp [ReconnectScheduler.due, ← Option.mem_def, AList.mem_lookup_iff]

variable {b : ℕ → Duration} {a : P → Attempts} {m : HashMap P ReconnectEntry} {q : P}

theorem knows_insert {e : ReconnectEntry} (h : ∀ p ≠ q, Knows b (a p) (m.lookup p))
    (hq : Knows b (a q) (some e)) (p : P) : Knows b (a p) ((m.insert q e).lookup p) := by
  by_cases hp : p = q
  · subst hp
    rwa [AList.lookup_insert]
  · rw [AList.lookup_insert_ne hp]
    exact h p hp

theorem knows_erase (h : ∀ p ≠ q, Knows b (a p) (m.lookup p)) (hq : Knows b (a q) none) (p : P) :
    Knows b (a p) ((m.erase q).lookup p) := by
  by_cases hp : p = q
  · subst hp
    rwa [AList.lookup_erase]
  · rw [AList.lookup_erase_ne hp]
    exact h p hp

/-- An entry without failures that is not in flight can be evicted. -/
theorem Known.evict (h : w.Known) {o : List P}
    (hk : ∀ q e, w.victim o = some q → w.peers.lookup q = some e →
      e.inFlight = false ∧ e.attempts = 0) (p : P) :
    Knows w.backoffFor (w.attempts p) ((w.evictOne o).lookup p) := by
  unfold ReconnectScheduler.evictOne
  split
  · next q hv =>
    refine knows_erase (fun p _ => h p) ?_ p
    have hq := h q
    cases hl : w.peers.lookup q with
    | none => rwa [hl] at hq
    | some e =>
      obtain ⟨hi, ha⟩ := hk q e hv hl
      rw [hl] at hq
      obtain ⟨ho, hf, -⟩ := hq
      exact ⟨ho.symm.trans hi, hf.symm.trans ha⟩
  · exact h p

/-- A step keeps what the entries know. -/
theorem Known.next (h : w.Known) {i : ReconnectCall P × Instant} (hk : w.Keeps i) :
    (w.next i).Known := by
  obtain ⟨call, now⟩ := i
  cases call with
  | schedule peer order =>
    by_cases hm : peer ∈ w.peers
    · simpa [Reconnects.next, ReconnectScheduler.schedule, hm] using h
    · have hp := h peer
      rw [AList.lookup_eq_none.2 hm] at hp
      intro p
      simp only [Reconnects.next, ReconnectScheduler.schedule, if_neg hm]
      refine knows_insert (fun p _ => ?_) ⟨hp.1.symm, hp.2.symm, by simp [hp.2]⟩ p
      split_ifs with hf
      · exact h.evict (hk hm hf) p
      · exact h p
  | due =>
    intro p
    have hp := h p
    simp only [Reconnects.next, mem_due]
    change Knows w.backoffFor _ ((w.peers.retain _).lookup p)
    rw [HashMap.lookup_retain]
    cases hl : w.peers.lookup p with
    | none =>
      rw [hl] at hp
      simpa using hp
    | some e =>
      rw [hl] at hp
      by_cases hd : e.isDue now
      · simpa [hd, Knows] using hp.2
      · simpa [hd] using hp
  | onFailure peer =>
    obtain ⟨e, he⟩ := Option.isSome_iff_exists.1 (AList.lookup_isSome.2 hk)
    have hp := h peer
    rw [he] at hp
    intro p
    simp only [Reconnects.next, ReconnectScheduler.onFailure, he]
    refine knows_insert (fun p hne => ?_) ?_ p
    · rw [update_of_ne hne]
      exact h p
    · rw [update_self, hp.2.1]
      exact ⟨rfl, rfl, fun _ => le_rfl⟩
  | reset peer =>
    refine knows_erase (a := update w.attempts peer _) (fun p hne => ?_) ?_
    · rw [update_of_ne hne]
      exact h p
    · rw [update_self]
      exact ⟨rfl, rfl⟩

theorem Known.spaced (h : w.Known) (i : ReconnectCall P × Instant) : w.Spaced i := by
  obtain ⟨call, now⟩ := i
  cases call with
  | due =>
    intro p hp
    obtain ⟨e, he, hd⟩ := mem_due.1 hp
    have hk := h p
    rw [he] at hk
    simp only [ReconnectEntry.isDue, Bool.and_eq_true, Bool.not_eq_true', decide_eq_true_eq] at hd
    exact ⟨hk.1.symm.trans hd.1, fun hf => (hk.2.2 hf).trans hd.2⟩
  | _ => trivial

/-- **Attempts are spaced.**  In every run that evicts no entry with an attempt in flight or with
failures, and reports no failure of a peer that is not queued, no peer is returned by `due` while an
attempt is outstanding, or before the backoff of its last failure is over. -/
theorem attempts_spaced (initialBackoff maxBackoff : Duration) (maxPeers : ℕ)
    (calls : List (ReconnectCall P × Instant))
    (h : machine.Along Keeps (start (.withLimits initialBackoff maxBackoff maxPeers)) calls) :
    machine.Along Spaced (start (.withLimits initialBackoff maxBackoff maxPeers)) calls :=
  h.imp_of_invariant (P := Known) (fun _ => ⟨rfl, rfl⟩) (fun _ i hw _ => hw.spaced i)
    fun _ _ hw hk => hw.next hk

/-- A peer is tried again two seconds after it was not reached. -/
theorem attempts_spaced_twice :
    machine.Along Spaced (start (.withLimits 2000 300000 256))
      [(.schedule "a" [], 0), (.due, 0), (.onFailure "a", 10), (.due, 2010)] :=
  attempts_spaced _ _ _ _
    ⟨fun _ h => absurd h (by decide), trivial, by simp only [Keeps]; decide, trivial, trivial⟩

/-- With room for one peer: an attempt is running, and a second peer and the first one are
scheduled. -/
theorem evicted_in_flight :
    let w := machine.exec (start (.withLimits 2000 300000 1)) [(.schedule "a" [], 0), (.due, 0),
      (.schedule "b" [], 1), (.schedule "a" [], 2)]
    "a" ∈ (w.due 2).2 ∧ (w.attempts "a").outstanding := by
  decide

end Reconnects

end Boru.ControlPlane
