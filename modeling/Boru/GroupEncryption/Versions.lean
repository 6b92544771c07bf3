import Boru.Prog.Basic
import Boru.LTS.Basic
import Boru.GroupEncryption.Persistence

/-!
# Concurrent saves of a group

Any number of holders share one database.  Each remembers for every group the version it last loaded
or saved, and saves from this version.  A save is a transaction of two writes, one for each table,
with failures before, between and after them (`saveStatements`); the transaction is what undoes the
first write if the second does not happen.

The store logs the saves that commit.

## Main results

* `Persistence.saveGroupStateAndRoles_eq` : the function the encryption state calls is this
  transaction.
* `SharedStore.saves_serialise` : at most one save commits from a version, every commit increases
  the version by one, all other saves leave both rows as they were, and the two rows of a group are
  those of its last commit.
-/

namespace Boru.GroupEncryption

namespace Persistence

open Prog

variable {St : Type}

def perform (failure : Option Failure) : Prog Database GroupAuthTxError Unit :=
  ofExcept id (access .io failure)

def inject (fault : Option GroupAuthFault) (here : GroupAuthFault) (message : String) :
    Prog Database GroupAuthTxError Unit :=
  perform (if fault = some here then some ⟨message⟩ else none)

variable (C : Codec St)

variable (disk : Disk)

/-- The statements of `saveGroupStateAndRoles`, on the database as the transaction sees it. -/
def saveStatements (g : GroupId) (state : St) (roles : Roles)
    (selfId : Option PeerId) (expectedVersion : ℕ) (fault : Option GroupAuthFault) :
    Prog Database GroupAuthTxError ℕ := do
  perform disk.start
  let db ← get
  let current := storedVersion db g
  require (current = expectedVersion) (.versionConflict expectedVersion current)
  let rolesBlob ← ofExcept .io (C.encodeRoles roles)
  perform disk.writeRoles
  modify fun db => { db with
    roles := db.roles.insert g ⟨rolesBlob, selfId.map fun p => p.toKey.1⟩ }
  inject fault .afterMembershipWrite "injected fault: after membership write"
  let blob ← ofExcept .io (encodeEnvelope C state)
  perform disk.writeState
  modify fun db => { db with states := db.states.insert g ⟨blob, current + 1⟩ }
  inject fault .afterCryptoStateWrite "injected fault: after crypto-state write"
  perform disk.commit
  pure (current + 1)

variable (db : Database)

variable (g : GroupId)

theorem save_spec (state : St) (r : Roles) (me : Option PeerId)
    (ver : ℕ) (fl : Option GroupAuthFault) :
    wp (atomically (saveStatements C disk g state r me ver fl))
      (fun version db' => saveGroupStateAndRoles C disk db g state r me ver fl = .ok (db', version))
      (fun e db' => saveGroupStateAndRoles C disk db g state r me ver fl =
        .error e ∧ db' = db) db := by
  simp only [saveStatements, inject, perform, wp_atomically, wp_bind, wp_ofExcept, wp_require,
    wp_pure, id]
  refine ⟨fun _ h₁ => ⟨fun hv => ⟨fun rolesBlob h₂ => ⟨fun _ h₃ => ⟨fun _ h₄ =>
    ⟨fun blob h₅ => ⟨fun _ h₆ => ⟨fun _ h₇ => ⟨fun _ h₈ => ?_, fun e h₈ => ?_⟩, fun e h₇ => ?_⟩,
      fun e h₆ => ?_⟩, fun e h₅ => ?_⟩, fun e h₄ => ?_⟩, fun e h₃ => ?_⟩, fun e h₂ => ?_⟩,
      fun hv => ?_⟩, fun e h₁ => ?_⟩
  -- every access, and both functions go on or stop there
  all_goals
    simp [saveGroupStateAndRoles, *, bind, Except.bind, pure, Except.pure, Except.mapError]

/-- The save that the encryption state calls is the transaction of the statements. -/
theorem saveGroupStateAndRoles_eq (state : St) (r : Roles)
    (me : Option PeerId) (ver : ℕ) (fl : Option GroupAuthFault) :
    (atomically (saveStatements C disk g state r me ver fl)).exec db =
      match saveGroupStateAndRoles C disk db g state r me ver fl with
      | .ok (db', version) => (.ok version, db')
      | .error e => (.error e, db) := by
  have hsp := save_spec C disk db g state r me ver fl
  rcases hx : (atomically (saveStatements C disk g state r me ver fl)).exec
    db with ⟨e | version, db'⟩
  · obtain ⟨hs, rfl⟩ := (wp_of_error hx).1 hsp
    rw [hs]
  · have hs := (wp_of_ok hx).1 hsp
    rw [hs]

/-- A save that commits did so from the stored version, and has written both rows. -/
theorem saveStatements_effect (state : St) (roles : Roles)
    (me : Option PeerId) (ver : ℕ) (fault : Option GroupAuthFault) :
    wp (atomically (saveStatements C disk g state roles me ver fault))
      (fun version db' => storedVersion db g = ver ∧ version = ver + 1 ∧
        ∃ blob rb, encodeEnvelope C state = .ok blob ∧ C.encodeRoles roles = .ok rb ∧
          db' = ⟨db.states.insert g ⟨blob, version⟩,
            db.roles.insert g ⟨rb, me.map fun p => p.toKey.1⟩⟩)
      (fun _ db' => db' = db) db := by
  simp only [saveStatements, inject, perform, wp_atomically, wp_bind, wp_ofExcept, wp_require,
    implies_true, and_true]
  rintro _ - rfl rb hr _ - _ - blob hb _ - _ - _ -
  exact ⟨rfl, rfl, blob, rb, hb, hr, rfl⟩

end Persistence

/-! ### Holders of one database -/

structure Commit (H St : Type) where
  holder : H
  group : GroupId
  base : ℕ
  version : ℕ
  state : St
  roles : Roles
  selfId : Option PeerId

/-- A database with its holders, and the saves that have committed. -/
structure SharedStore (H St : Type) where
  db : Database
  /-- The version each holder has last loaded or saved. -/
  known : H → GroupId → ℕ
  /-- The saves that have committed, in order. -/
  commits : List (Commit H St)

namespace SharedStore

open Prog Persistence

variable {H St : Type}

inductive Action (H St : Type) where
  | load (holder : H) (g : GroupId) (disk : Disk)
  /-- Save a group from the version last loaded or saved. -/
  | save (holder : H) (g : GroupId) (state : St) (roles : Roles)
    (selfId : Option PeerId) (disk : Disk) (fault : Option GroupAuthFault)

def learn [DecidableEq H] (s : SharedStore H St) (holder : H) (g : GroupId) (version : ℕ) :
    H → GroupId → ℕ :=
  fun h g' => if h = holder ∧ g' = g then version else s.known h g'

/-- Perform an action: the results of the saves are output. -/
def step [DecidableEq H] (C : Codec St) (s : SharedStore H St) :
    Action H St → SharedStore H St × List (Except GroupAuthTxError ℕ)
  | .load holder g disk =>
    match loadGroupVersion disk s.db g with
    | .error _ => (s, [])
    | .ok version => ({ s with known := s.learn holder g version }, [])
  | .save holder g state roles selfId disk fault =>
    let base := s.known holder g
    match (atomically (saveStatements C disk g state roles selfId base fault)).exec s.db with
    | (.error e, db) => ({ s with db }, [.error e])
    | (.ok version, db) => ({
        db
        known := s.learn holder g version
        commits := s.commits ++ [⟨holder, g, base, version, state, roles, selfId⟩] },
        [.ok version])

def machine (H : Type) [DecidableEq H] (C : Codec St) :
    Machine (SharedStore H St) (Action H St) (Except GroupAuthTxError ℕ) := ⟨step C⟩

def commitsOf (s : SharedStore H St) (g : GroupId) : List (Commit H St) :=
  s.commits.filter fun c => c.group = g

/-- Both rows of the group are those written by the commit. -/
def Wrote (C : Codec St) (db : Database) (c : Commit H St) : Prop :=
  ∃ blob rolesBlob, encodeEnvelope C c.state = .ok blob ∧ C.encodeRoles c.roles = .ok rolesBlob ∧
    db.states.lookup c.group = some ⟨blob, c.version⟩ ∧
    db.roles.lookup c.group = some ⟨rolesBlob, c.selfId.map fun p => p.toKey.1⟩

/-- What has happened since the database was `db₀`. -/
structure Serial (C : Codec St) (db₀ : Database) (s : SharedStore H St) : Prop where
  /-- At most one save commits from a version of a group. -/
  distinct : (s.commits.map fun c => (c.group, c.base)).Nodup
  /-- A commit increases the version by one. -/
  next : ∀ c ∈ s.commits, c.version = c.base + 1
  /-- All commits are below the stored version. -/
  past : ∀ c ∈ s.commits, c.base < storedVersion s.db c.group
  /-- The stored version counts the commits. -/
  stored : ∀ g, storedVersion s.db g = storedVersion db₀ g + (s.commitsOf g).length
  /-- Both rows are those of the last commit. -/
  last : ∀ g c, (s.commitsOf g).getLast? = some c → Wrote C s.db c
  /-- Without a commit both rows are the initial ones. -/
  untouched : ∀ g, s.commitsOf g = [] →
    s.db.states.lookup g = db₀.states.lookup g ∧ s.db.roles.lookup g = db₀.roles.lookup g

structure Committed (C : Codec St) (s s' : SharedStore H St) (c : Commit H St) : Prop where
  commits : s'.commits = s.commits ++ [c]
  base : c.base = storedVersion s.db c.group
  version : c.version = c.base + 1
  rows : ∃ blob rolesBlob, encodeEnvelope C c.state = .ok blob ∧
    C.encodeRoles c.roles = .ok rolesBlob ∧
    s'.db = ⟨s.db.states.insert c.group ⟨blob, c.version⟩,
      s.db.roles.insert c.group ⟨rolesBlob, c.selfId.map fun p => p.toKey.1⟩⟩

/-- What an action can do: commit, or leave the database as it is. -/
theorem step_cases [DecidableEq H] (C : Codec St) (s : SharedStore H St) (a : Action H St) :
    ((step C s a).1.db = s.db ∧ (step C s a).1.commits = s.commits) ∨
      ∃ c, Committed C s (step C s a).1 c ∧ (step C s a).2 = [.ok c.version] := by
  cases a with
  | load holder g disk =>
    left
    simp only [step]
    cases loadGroupVersion disk s.db g <;> exact ⟨rfl, rfl⟩
  | save holder g state r me disk fault =>
    have hef := saveStatements_effect C disk s.db g state r me (s.known holder g) fault
    simp only [step]
    rcases hx : (atomically (saveStatements C disk g state r me (s.known holder g)
      fault)).exec s.db with ⟨e | version, db'⟩
    · exact .inl ⟨(wp_of_error hx).1 hef, rfl⟩
    · obtain ⟨hb, hv, hr⟩ := (wp_of_ok hx).1 hef
      exact .inr ⟨⟨holder, g, s.known holder g, version, state, r, me⟩, ⟨rfl, hb.symm, hv, hr⟩, rfl⟩

namespace Committed

variable {C : Codec St} {s s' : SharedStore H St} {c : Commit H St}

variable (h : Committed C s s' c)

include h

theorem wrote : Wrote C s'.db c := by
  obtain ⟨blob, rb, hb, hr, hdb⟩ := h.rows
  refine ⟨blob, rb, hb, hr, ?_, ?_⟩
  · rw [hdb]
    exact AList.lookup_insert _
  · rw [hdb]
    exact AList.lookup_insert _

/-- The rows of the other groups stay. -/
theorem lookup_ne {g : GroupId} (hg : g ≠ c.group) :
    s'.db.states.lookup g = s.db.states.lookup g ∧ s'.db.roles.lookup g = s.db.roles.lookup g := by
  obtain ⟨blob, rolesBlob, -, -, hdb⟩ := h.rows
  rw [hdb]
  exact ⟨AList.lookup_insert_ne hg, AList.lookup_insert_ne hg⟩

theorem storedVersion_eq (g : GroupId) :
    storedVersion s'.db g = storedVersion s.db g + if c.group = g then 1 else 0 := by
  by_cases hg : g = c.group
  · obtain ⟨blob, -, -, -, hs, -⟩ := h.wrote
    rw [hg, if_pos rfl, storedVersion, hs, ← h.base, ← h.version]
    rfl
  · rw [if_neg (Ne.symm hg), storedVersion, (h.lookup_ne hg).1]
    rfl

theorem commitsOf_eq (g : GroupId) :
    s'.commitsOf g = s.commitsOf g ++ if c.group = g then [c] else [] := by
  unfold commitsOf
  rw [h.commits]
  by_cases hg : c.group = g <;> simp [hg]

theorem serial {db₀ : Database} (hs : Serial C db₀ s) : Serial C db₀ s' where
  distinct := by
    rw [h.commits, List.map_append]
    refine List.nodup_append.2 ⟨hs.distinct, List.nodup_singleton _, ?_⟩
    rintro _ ho _ hn rfl
    obtain ⟨c', hc', heq⟩ := List.mem_map.1 ho
    obtain ⟨hgr, hb⟩ := Prod.mk.inj (heq.trans (List.mem_singleton.1 hn))
    -- an earlier commit is below the stored version, from which this one was made
    have hp := hs.past c' hc'
    rw [hgr, hb, h.base] at hp
    exact lt_irrefl _ hp
  next c' hc' := by
    rw [h.commits] at hc'
    rcases List.mem_append.1 hc' with hc' | hc'
    · exact hs.next c' hc'
    · rw [List.mem_singleton.1 hc']
      exact h.version
  past c' hc' := by
    rw [h.commits] at hc'
    rw [h.storedVersion_eq]
    rcases List.mem_append.1 hc' with hc' | hc'
    · have := hs.past c' hc'
      omega
    · rw [List.mem_singleton.1 hc', h.base, if_pos rfl]
      omega
  stored g := by
    rw [h.storedVersion_eq, h.commitsOf_eq, hs.stored]
    split_ifs <;> simp
    omega
  last g c' hc' := by
    rw [h.commitsOf_eq] at hc'
    split_ifs at hc' with hg
    · rw [List.getLast?_concat] at hc'
      rw [← Option.some.inj hc']
      exact h.wrote
    · rw [List.append_nil] at hc'
      have hmem := List.mem_of_getLast? hc'
      have hgr : c'.group = g := of_decide_eq_true (List.mem_filter.1 hmem).2
      obtain ⟨blob, rb, hbl, hr, hst, hro⟩ := hs.last g c' hc'
      have hne := h.lookup_ne (g := c'.group) (by rw [hgr]; exact Ne.symm hg)
      exact ⟨blob, rb, hbl, hr, hne.1.trans hst, hne.2.trans hro⟩
  untouched g hg := by
    rw [h.commitsOf_eq] at hg
    split_ifs at hg with hgr
    · simp at hg
    · rw [List.append_nil] at hg
      obtain ⟨hst, hro⟩ := hs.untouched g hg
      obtain ⟨hstate', hrow'⟩ := h.lookup_ne (Ne.symm hgr)
      exact ⟨hstate'.trans hst, hrow'.trans hro⟩

end Committed

theorem Serial.step [DecidableEq H] {C : Codec St} {db₀ : Database} {s : SharedStore H St}
    (hs : Serial C db₀ s) (a : Action H St) : Serial C db₀ (step C s a).1 := by
  rcases step_cases C s a with ⟨hdb, hco⟩ | ⟨c, hc, -⟩
  · generalize (SharedStore.step C s a).1 = s' at hdb hco ⊢
    obtain ⟨db', known', c'⟩ := s'
    obtain rfl : db' = s.db := hdb
    obtain rfl : c' = s.commits := hco
    exact ⟨hs.distinct, hs.next, hs.past, hs.stored, hs.last, hs.untouched⟩
  · exact hc.serial hs

/-- **Saves of one group are serialised.**  After any interleaving of loads and saves by any
holders, with any failures: at most one save has committed from each version of a group, the stored
version has increased by one for each commit, the two rows of a group are those written by its last
commit, and every further save that is rejected or fails leaves the database as it is. -/
theorem saves_serialise [DecidableEq H] (C : Codec St) (db₀ : Database) (known : H → GroupId → ℕ)
    (actions : List (Action H St)) :
    let s := (machine H C).exec ⟨db₀, known, []⟩ actions
    Serial C db₀ s ∧
      ∀ a e, .error e ∈ ((machine H C).step s a).2 → ((machine H C).step s a).1.db = s.db := by
  intro s
  constructor
  · have hi : Serial C db₀ (⟨db₀, known, []⟩ : SharedStore H St) :=
      ⟨List.nodup_nil, by rintro _ ⟨⟩, by rintro _ ⟨⟩, fun _ => rfl, by rintro _ _ ⟨⟩,
        fun _ _ => ⟨rfl, rfl⟩⟩
    exact Machine.exec_invariant (P := Serial C db₀) hi (fun s a hs => hs.step a) actions
  · intro a e he
    rcases step_cases C s a with ⟨hdb, -⟩ | ⟨c, -, hout⟩
    · exact hdb
    · change .error e ∈ (SharedStore.step C s a).2 at he
      rw [hout] at he
      cases List.mem_singleton.1 he

end SharedStore

end Boru.GroupEncryption
