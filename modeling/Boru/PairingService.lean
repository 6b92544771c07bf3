import Boru.LTS.History
import Mathlib.Data.List.Nodup
import Mathlib.Logic.Function.Basic

/-!
# Pairings that wait for a connection

Pairings that were accepted before a connection was established are kept in a file.  Every call
reads the file, and writes it back as a whole.  Resolving the pairings waits for the network once
per pairing in between, and what other calls write meanwhile is overwritten.  The keys of the
pairings are taken to be valid.

## Main results

* `Kept.step` : calls that do not overlap keep what was saved, and nothing that was removed.
* `pairings_kept` : the same for every run without overlapping calls.
* `saved_while_resolving` : a pairing that is lost.
-/

namespace Boru.PairingService

open Function History

structure PendingPairing where
  ourKey : String
  peerKey : String
  peerDisplayName : String
  createdAtUnixMs : UInt64
  retryCount : UInt32

/-- A call that is running, with what it has read. -/
inductive Task where
  | save (pairing : PendingPairing) (existing : List PendingPairing)
  | remove (peerKey : String) (existing : List PendingPairing)
  /-- The pairings that are still to be tried, and the ones that were not reachable. -/
  | resolve (pairings remaining : List PendingPairing)

/-- What the calls have done: the changes of the file, and the resolved pairings. -/
inductive Report where
  | saved (pairing : PendingPairing)
  | removed (peerKey : String)
  | connected (peerKey : String)
  | stillPending (peerKey : String) (retryCount : UInt32)

/-- The file with the pending pairings, the calls, and the reports, oldest first. -/
structure Pairings where
  file : List PendingPairing
  tasks : ℕ → Option Task
  log : List Report

inductive Event where
  | savePendingPairing (task : ℕ) (pairing : PendingPairing)
  | removePendingPairing (task : ℕ) (peerKey : String)
  | resolvePendingPairings (task : ℕ)
  /-- A call takes its next step: it writes the file, or its connection is established or fails. -/
  | advance (task : ℕ) (connects : Bool)

/-- Replace the entry for the same peer, or add one. -/
def put (pairing : PendingPairing) : List PendingPairing → List PendingPairing
  | [] => [pairing]
  | p :: ps => if p.peerKey = pairing.peerKey then pairing :: ps else p :: put pairing ps

namespace Pairings

def empty : Pairings := ⟨[], fun _ => none, []⟩

variable (s : Pairings)

/-- A call reads the file, or waits for its next connection. -/
def wait (task : ℕ) (t : Task) (log : List Report) : Pairings :=
  ⟨s.file, update s.tasks task (some t), s.log ++ log⟩

/-- The file is written, and the call returns. -/
def write (task : ℕ) (file : List PendingPairing) (log : List Report) : Pairings :=
  ⟨file, update s.tasks task none, s.log ++ log⟩

def next : Event → Pairings
  | .savePendingPairing task pairing => s.wait task (.save pairing s.file) []
  | .removePendingPairing task peerKey => s.wait task (.remove peerKey s.file) []
  | .resolvePendingPairings task =>
    if s.file = [] then s else s.wait task (.resolve s.file []) []
  | .advance task connects =>
    match s.tasks task with
    | none => s
    | some (.save pairing existing) => s.write task (put pairing existing) [.saved pairing]
    | some (.remove peerKey existing) =>
      s.write task (existing.filter (·.peerKey ≠ peerKey)) [.removed peerKey]
    | some (.resolve [] remaining) => s.write task remaining []
    | some (.resolve (p :: ps) remaining) =>
      if connects then s.wait task (.resolve ps remaining) [.connected p.peerKey]
      else
        let p := { p with retryCount := p.retryCount + 1 }
        s.wait task (.resolve ps (remaining ++ [p])) [.stillPending p.peerKey p.retryCount]

def machine : Machine Pairings Event Unit where
  step s e := (s.next e, [])

def keys (ps : List PendingPairing) : List String := ps.map (·.peerKey)

/-- No call is running. -/
def Idle : Prop := ∀ task, s.tasks task = none

/-- Calls start only when no other call is running. -/
def Alone : Event → Prop
  | .advance _ _ => True
  | _ => s.Idle

end Pairings

open Pairings

/-- The report is about a change of the entry for the peer. -/
def Report.Changes (k : String) : Report → Prop
  | saved p => p.peerKey = k
  | removed k' | connected k' => k' = k
  | stillPending _ _ => False

/-- The pairing was the last to be saved for its peer, which was neither removed nor connected
since. -/
def Owed (log : List Report) (p : PendingPairing) : Prop :=
  Since (fun r => ∃ n, r = .saved { p with retryCount := n }) (Report.Changes p.peerKey) log

/-- The peer was removed, and not saved since. -/
def Gone (log : List Report) (k : String) : Prop :=
  Since (· = .removed k) (fun r => ∃ p, r = .saved p ∧ p.peerKey = k) log

/-- The pairing is among the entries, whatever the number of its attempts. -/
def Has (ps : List PendingPairing) (p : PendingPairing) : Prop :=
  ∃ n, { p with retryCount := n } ∈ ps

/-- The entries are those that are owed to the callers. -/
structure Holds (log : List Report) (ps : List PendingPairing) : Prop where
  nodup : (keys ps).Nodup
  owed : ∀ p, Owed log p → Has ps p
  gone : ∀ k, Gone log k → k ∉ keys ps

variable {log : List Report} {ps ps' : List PendingPairing} {p : PendingPairing} {k : String}

theorem Holds.snoc (h : Holds log ps) {r : Report} (hn : (keys ps').Nodup)
    (hsaved : ∀ p, r = .saved p → p ∈ ps')
    (hmem : ∀ p, ¬ r.Changes p.peerKey → Has ps p → Has ps' p)
    (hkeys : ∀ k ∈ keys ps', r ≠ .removed k ∧ (k ∈ keys ps ∨ ∃ p, r = .saved p ∧ p.peerKey = k)) :
    Holds (log ++ [r]) ps' where
  nodup := hn
  owed p ho := by
    rcases since_snoc_iff.1 ho with ⟨n, hr⟩ | ⟨hc, ho⟩
    · exact ⟨n, hsaved _ hr⟩
    · exact hmem p hc (h.owed p ho)
  gone k hg hk := by
    obtain ⟨hne, hold⟩ := hkeys k hk
    rcases since_snoc_iff.1 hg with hr | ⟨hs, hg⟩
    · exact hne hr
    · exact h.gone k hg (hold.resolve_right hs)

/-- The entry for a peer is replaced, and the others stay. -/
theorem mem_put {q : PendingPairing} (hq : q = p ∨ q ∈ ps ∧ q.peerKey ≠ p.peerKey) :
    q ∈ put p ps := by
  induction ps with
  | nil => simpa [put] using hq
  | cons x ps ih =>
    unfold put
    split_ifs <;> grind

theorem keys_put : keys (put p ps) =
    if p.peerKey ∈ keys ps then keys ps else keys ps ++ [p.peerKey] := by
  induction ps with
  | nil => rfl
  | cons q ps ih =>
    unfold put
    unfold keys at *
    by_cases h : q.peerKey = p.peerKey
    · simp [h]
    · simp only [if_neg h, List.map_cons, List.mem_cons, Ne.symm h, false_or, ih]
      split_ifs <;> rfl

theorem Holds.put (h : Holds log ps) (p : PendingPairing) :
    Holds (log ++ [.saved p]) (put p ps) := by
  refine h.snoc ?_ ?_ ?_ ?_
  · rw [keys_put]
    split_ifs with hp
    · exact h.nodup
    · exact List.concat_eq_append ▸ h.nodup.concat hp
  · rintro _ ⟨⟩
    exact mem_put (.inl rfl)
  · rintro q hc ⟨n, hq⟩
    exact ⟨n, mem_put (.inr ⟨hq, Ne.symm hc⟩)⟩
  · intro k hk
    refine ⟨nofun, ?_⟩
    rw [keys_put] at hk
    split_ifs at hk
    · exact .inl hk
    · simpa [eq_comm] using hk

theorem Holds.remove (h : Holds log ps) (k : String) :
    Holds (log ++ [.removed k]) (ps.filter (·.peerKey ≠ k)) := by
  have hsub : (keys (ps.filter (·.peerKey ≠ k))).Sublist (keys ps) :=
    List.filter_sublist.map _
  refine h.snoc (h.nodup.sublist hsub) nofun ?_ fun k' hk => ⟨?_, .inl (hsub.subset hk)⟩
  · rintro q hc ⟨n, hq⟩
    exact ⟨n, List.mem_filter.2 ⟨hq, decide_eq_true (Ne.symm hc)⟩⟩
  · rintro ⟨⟩
    obtain ⟨q, hq, hqk⟩ := List.mem_map.1 hk
    exact of_decide_eq_true (List.mem_filter.1 hq).2 hqk

theorem Holds.connect {qs : List PendingPairing} (h : Holds log (qs ++ p :: ps)) :
    Holds (log ++ [.connected p.peerKey]) (qs ++ ps) := by
  have hsub : (keys (qs ++ ps)).Sublist (keys (qs ++ p :: ps)) :=
    ((List.sublist_cons_self p ps).append_left qs).map _
  refine h.snoc (h.nodup.sublist hsub) nofun ?_ fun k hk => ⟨nofun, .inl (hsub.subset hk)⟩
  rintro q hc ⟨n, hq⟩
  have hne : { q with retryCount := n } ≠ p := by
    rintro rfl
    exact hc rfl
  exact ⟨n, by simpa [hne] using hq⟩

/-- A pairing that could not be connected keeps its place, with one attempt more. -/
theorem Holds.retry {qs : List PendingPairing} (h : Holds log (qs ++ p :: ps)) {n n' : UInt32} :
    Holds (log ++ [.stillPending p.peerKey n]) (qs ++ { p with retryCount := n' } :: ps) := by
  have hk : keys (qs ++ { p with retryCount := n' } :: ps) = keys (qs ++ p :: ps) := by simp [keys]
  refine h.snoc (hk ▸ h.nodup) nofun ?_ fun k hk' => ⟨nofun, .inl (hk ▸ hk')⟩
  rintro q - ⟨m, hq⟩
  rcases List.mem_append.1 hq with hq | hq
  · exact ⟨m, List.mem_append_left _ hq⟩
  rcases List.mem_cons.1 hq with rfl | hq
  · exact ⟨n', by simp⟩
  · exact ⟨m, List.mem_append_right _ (List.mem_cons_of_mem _ hq)⟩

/-- The pairings that a call has read and not dropped. -/
def Task.pending : Task → List PendingPairing
  | save _ existing | remove _ existing => existing
  | resolve pairings remaining => remaining ++ pairings

/-- The file holds what is owed, or else the one call that is running does. -/
structure Kept (s : Pairings) : Prop where
  idle : s.Idle → Holds s.log s.file
  busy : ∀ task t, s.tasks task = some t →
    Holds s.log t.pending ∧ ∀ other, other ≠ task → s.tasks other = none

variable {s : Pairings} {task : ℕ} {t : Task}

/-- One call changes what it has read, or returns; there is no other. -/
theorem kept_update (ho : ∀ other, other ≠ task → s.tasks other = none) {o : Option Task}
    (h : Holds log (o.elim ps Task.pending)) :
    Kept ⟨ps, update s.tasks task o, log⟩ where
  idle hi := by
    obtain rfl : o = none := by simpa using hi task
    exact h
  busy task' t ht := by
    by_cases he : task' = task
    · subst he
      obtain rfl : o = some t := by simpa using ht
      exact ⟨h, fun other hne => by simp [hne, ho other hne]⟩
    · simp [he, ho task' he] at ht

/-- A call that starts alone has read what is owed. -/
theorem Kept.start (h : Kept s) (hi : s.Idle) (ht : t.pending = s.file) :
    Kept (s.wait task t []) := by
  refine kept_update (fun other _ => hi other) ?_
  rw [List.append_nil, Option.elim_some, ht]
  exact h.idle hi

theorem Kept.step (h : Kept s) {e : Event} (hc : s.Alone e) : Kept (s.next e) := by
  cases e with
  | savePendingPairing task pairing => exact h.start hc rfl
  | removePendingPairing task pk => exact h.start hc rfl
  | resolvePendingPairings task =>
    unfold next
    dsimp only
    split_ifs
    · exact h
    · exact h.start hc rfl
  | advance task connects =>
    unfold next
    dsimp only
    split
    · exact h
    · rename_i pairing ex ht
      obtain ⟨hp, ho⟩ := h.busy _ _ ht
      exact kept_update ho (hp.put pairing)
    · rename_i pk ex ht
      obtain ⟨hp, ho⟩ := h.busy _ _ ht
      exact kept_update ho (hp.remove pk)
    · rename_i r ht
      obtain ⟨hp, ho⟩ := h.busy _ _ ht
      refine kept_update ho ?_
      simpa [Task.pending] using hp
    · rename_i p ps r ht
      obtain ⟨hp, ho⟩ := h.busy _ _ ht
      split_ifs
      · exact kept_update ho hp.connect
      · refine kept_update ho ?_
        simpa [Task.pending] using hp.retry

/-- **Pairings are kept.**  In every run in which no two calls overlap, when all calls have
returned: the pairing that was the last to be saved for its peer, if the peer was neither removed
nor connected since, is in the file as it was saved, up to the number of attempts; and there is no
entry for a peer that was removed and not saved since. -/
theorem pairings_kept (events : List Event) (h : machine.Along Alone empty events)
    (hi : (machine.exec empty events).Idle) :
    let s := machine.exec empty events
    (∀ p, Owed s.log p → ∃ n, { p with retryCount := n } ∈ s.file) ∧
      ∀ k, Gone s.log k → k ∉ keys s.file := by
  have he : Kept empty :=
    ⟨fun _ => ⟨List.nodup_nil, fun _ ho => absurd ho not_since_nil, nofun⟩, nofun⟩
  have hk := (Machine.exec_invariant_along h he fun s e hc hs => hs.step hc).idle hi
  exact ⟨hk.owed, hk.gone⟩

/-- A pairing with a peer. -/
def pairing (peerKey : String) : PendingPairing := ⟨"me", peerKey, "", 0, 0⟩

/-- A pairing is saved and could not be resolved. -/
theorem pairings_kept_in_turn :
    ∃ n, { pairing "a" with retryCount := n } ∈ (machine.exec empty
      [.savePendingPairing 0 (pairing "a"), .advance 0 false, .resolvePendingPairings 1,
        .advance 1 false, .advance 1 false]).file := by
  refine (pairings_kept _ ?_ ?_).1 (pairing "a")
    ⟨[], .saved (pairing "a"), [.stillPending "a" 1], rfl, ⟨0, rfl⟩, ?_⟩
  · simp [machine, Alone, next, Idle, empty, wait, write, put]
  · intro task
    simp [machine, next, empty, wait, write, put, update]
  · simp [Report.Changes]

/-- What is saved while the pairings are resolved is overwritten. -/
theorem saved_while_resolving :
    let s := machine.exec empty [.savePendingPairing 0 (pairing "a"), .advance 0 false,
      .resolvePendingPairings 1, .savePendingPairing 2 (pairing "b"), .advance 2 false,
      .advance 1 false, .advance 1 false]
    s.Idle ∧ Owed s.log (pairing "b") ∧ "b" ∉ keys s.file := by
  refine ⟨fun task => ?_, ⟨[.saved (pairing "a")], .saved (pairing "b"), [.stillPending "a" 1],
    rfl, ⟨0, rfl⟩, ?_⟩, ?_⟩
  · simp +contextual [machine, next, empty, wait, write, put, update]
  · simp [Report.Changes]
  · decide

end Boru.PairingService
