import Boru.LTS.Basic
import Boru.Storage.Outbox

/-!
# Leases on the outbox

Any number of workers claim rows of one outbox, extend, release and finish their leases, while stale
leases are recovered and messages expire.  All read one clock.  A worker takes itself to hold a row
from a claim that returned it until the deadline of the claim, or of the last extension that
succeeded, unless it gives the row back before.

The deadline is a `u64`, and the table holds it as an `i64`.  A deadline from `2 ^ 63` on is
negative there, and the row is claimable at once.

## Main results

* `Workers.leases_exclusive` : in every run in which no deadline crosses `2 ^ 63`, no two workers
  hold a row at the same time, and nobody changes a row under the lease of another.
* `Workers.wrapped_deadline_shared` : two workers that hold the same row.
-/

namespace Boru

open Storage

open GroupEncryption (Block Failure)

/-! ### Deadlines -/

/-- A deadline does not cross `2 ^ 63` from where the clock stands. -/
def InRange (now deadline : UInt64) : Prop := deadline.toNat < 2 ^ 63 ∨ 2 ^ 63 ≤ now.toNat

instance (now deadline : UInt64) : Decidable (InRange now deadline) :=
  inferInstanceAs (Decidable (_ ∨ _))

/-- Such a deadline is still ahead in the table. -/
theorem Storage.asI64_lt {now deadline : UInt64} (h : InRange now deadline) (hlt : now < deadline) :
    asI64 now < asI64 deadline := by
  have hn : now.toNat < deadline.toNat := hlt
  rw [asI64_eq, asI64_eq]
  unfold InRange at h
  split_ifs <;> omega

theorem Storage.unlocked_of_any {now : UInt64} {c : OutboxColumns}
    (h : c.lockedUntilMs.any (· ≤ asI64 now) = true) : unlocked now c := by
  obtain ⟨locked, hl, hle⟩ := (Option.any_eq_true _ _).1 h
  unfold unlocked
  rw [hl]
  exact hle

theorem Storage.isTerminal_eq_false {st : DeliveryStatus} (ha : st ≠ .acked)
    (hep : st ≠ .expired) : st.isTerminal = false := by
  cases st <;> first | rfl | contradiction

/-! ### Workers -/

/-- What a worker does, or the maintenance of the outbox. -/
inductive WorkerOp where
  | claimDueOutbox (leaseDurationMs : UInt64) (limit : UInt32)
  | claimNDueOutbox (leaseDurationMs : UInt64) (limit : UInt32) (rowFails : OutboxKey → Bool)
  | claimDueOutboxForPeer (recipient : DeviceId) (leaseDurationMs : UInt64)
  | claimPendingDeliveriesWithLease (limit : UInt32) (leaseDurationMs : UInt64)
    (rowFails : OutboxKey → Bool)
  | extendOutboxLease (k : OutboxKey) (lockedUntilMs : UInt64)
  | releaseOutboxLease (k : OutboxKey)
  | finishOutboxAttempt (k : OutboxKey) (success : Bool) (nextAttemptAtMs : UInt64)
    (errorCode : Option String) (clock : UInt64)
  | recoverStaleOutboxLeases
  | recoverStaleSendingDeliveries
  | expireOutbox

/-- What a worker learns from an operation. -/
inductive Belief where
  /-- It holds the rows until the deadline. -/
  | granted (keys : List OutboxKey) (deadline : UInt64)
  /-- It holds the row no more. -/
  | gaveBack (k : OutboxKey)
  | nothing

/-- Perform an operation of a worker at the given time. -/
def WorkerOp.perform (F : Formats) (now : UInt64) (worker : String) :
    WorkerOp → Storage → Except Failure (Belief × Storage)
  | .claimDueOutbox duration limit, s => do
    let (row, s) ← s.claimDueOutbox F now worker duration limit
    pure (.granted (row.toList.map OutboxRow.key) (saturatingAdd now duration), s)
  | .claimNDueOutbox duration limit rowFails, s => do
    let (rows, s) ← s.claimNDueOutbox F rowFails now worker duration limit
    pure (.granted (rows.map OutboxRow.key) (saturatingAdd now duration), s)
  | .claimDueOutboxForPeer recipient duration, s => do
    let (row, s) ← s.claimDueOutboxForPeer F now recipient worker duration
    pure (.granted (row.toList.map OutboxRow.key) (saturatingAdd now duration), s)
  | .claimPendingDeliveriesWithLease limit duration rowFails, s => do
    let (rows, s) ← s.claimPendingDeliveriesWithLease F rowFails limit now worker duration
    pure (.granted (rows.map OutboxRow.key) (saturatingAdd now duration), s)
  | .extendOutboxLease k lockedUntil, s =>
    let (changed, s) := s.extendOutboxLease k worker now lockedUntil
    pure (if changed then .granted [k] lockedUntil else .nothing, s)
  | .releaseOutboxLease k, s => pure (.gaveBack k, (s.releaseOutboxLease k worker).2)
  | .finishOutboxAttempt k success next errorCode clock, s =>
    pure (.gaveBack k, (s.finishOutboxAttempt k worker success next errorCode clock).2)
  | .recoverStaleOutboxLeases, s => pure (.nothing, (s.recoverStaleOutboxLeases now).2)
  | .recoverStaleSendingDeliveries, s => pure (.nothing, (s.recoverStaleSendingDeliveries now).2)
  | .expireOutbox, s => pure (.nothing, (s.expireOutbox now).2)

/-- The row an operation extends, releases or finishes. -/
def WorkerOp.row : WorkerOp → Option OutboxKey
  | .extendOutboxLease k _ | .releaseOutboxLease k | .finishOutboxAttempt k .. => some k
  | _ => none

/-- The deadline an operation sets. -/
def WorkerOp.deadline (now : UInt64) : WorkerOp → Option UInt64
  | .claimDueOutbox duration _ | .claimNDueOutbox duration .. | .claimDueOutboxForPeer _ duration
  | .claimPendingDeliveriesWithLease _ duration _ => some (saturatingAdd now duration)
  | .extendOutboxLease _ lockedUntil => some lockedUntil
  | _ => none

/-- A lease as its worker knows it. -/
structure Lease where
  owner : String
  key : OutboxKey
  deadline : UInt64

/-- The store, the clock, and the leases of the workers. -/
structure Workers where
  store : Storage
  clock : UInt64
  /-- The leases the workers take themselves to hold. -/
  leases : List Lease

namespace Workers

/-- The leases after a worker has learnt something. -/
def learn (worker : String) (b : Belief) (leases : List Lease) : List Lease :=
  match b with
  | .granted keys deadline => keys.map (⟨worker, ·, deadline⟩) ++
    leases.filter fun l => ¬ (l.owner = worker ∧ l.key ∈ keys)
  | .gaveBack k => leases.filter fun l => ¬ (l.owner = worker ∧ l.key = k)
  | .nothing => leases

inductive Input where
  | tick (now : UInt64)
  /-- A worker performs an operation; the database may fail. -/
  | act (worker : String) (op : WorkerOp) (fault : Option Failure)

variable (F : Formats)

variable (w : Workers)

/-- One step.  The clock never goes back. -/
def step : Input → Workers
  | .tick now => { w with clock := max w.clock now }
  | .act worker op fault =>
    match fault with
    | some _ => w
    | none =>
      match op.perform F w.clock worker w.store with
      | .error _ => w
      | .ok (b, store) => { w with store, leases := learn worker b w.leases }

def machine : Machine Workers Input Unit := ⟨fun w i => (w.step F i, [])⟩

/-- No two workers hold an unexpired lease on the same row. -/
def Exclusive : Prop :=
  ∀ l ∈ w.leases, ∀ l' ∈ w.leases, l.key = l'.key → w.clock < l.deadline → w.clock < l'.deadline →
    l.owner = l'.owner

instance (w : Workers) : Decidable w.Exclusive :=
  inferInstanceAs (Decidable (∀ l ∈ w.leases, ∀ l' ∈ w.leases, _))

/-- Extending, releasing or finishing by a worker that is not the owner of the lease leaves the row
as it is. -/
def ForeignKept : Input → Prop
  | .tick _ => True
  | .act worker op fault => ∀ k c, op.row = some k → w.store.outbox.lookup k = some c →
    c.leaseOwner ≠ some worker → (w.step F (.act worker op fault)).store.outbox.lookup k = some c

/-- The deadline an operation sets, if any, does not cross `2 ^ 63` from the clock. -/
def DeadlineInRange : Input → Prop
  | .tick _ => True
  | .act _ op _ => ∀ deadline ∈ op.deadline w.clock, InRange w.clock deadline

instance (w : Workers) : (i : Input) → Decidable (w.DeadlineInRange i)
  | .tick _ => isTrue trivial
  | .act _ op _ => Option.decidableForallMem (op.deadline w.clock)

/-! ### What an operation does to a row -/

/-- What an operation of a worker, who learns `b` from it, can do to a row. -/
inductive RowChange (now : UInt64) (worker : String) (b : Belief) (k : OutboxKey)
    (c c' : OutboxColumns) : Prop where
  | same (h : c' = c)
  | claimed (hc : Storage.Claimable now c) {keys : List OutboxKey} {deadline : UInt64}
    (hb : b = .granted keys deadline)
  | extended (ho : c.leaseOwner = some worker) {deadline : UInt64} (hb : b = .granted [k] deadline)
  | gaveBack (ho : c.leaseOwner = some worker) (hb : b = .gaveBack k)
  | recovered (hc : Storage.Claimable now c)
  | expired (hs : c'.status = .expired) (ho : c'.leaseOwner = none)

/-- The rows granted were claimable, or the worker's own, and have its lease. -/
def Grants (now : UInt64) (worker : String) (b : Belief) (s s' : Storage) : Prop :=
  ∀ keys deadline, b = .granted keys deadline → ∀ k ∈ keys, ∃ c, s.outbox.lookup k = some c ∧
    (Storage.Claimable now c ∨ c.leaseOwner = some worker) ∧
    ∃ c', s'.outbox.lookup k = some c' ∧ Storage.Leased worker deadline c'

/-- What an operation does: the rows it changes, what it grants, and with which deadline. -/
structure Effect (now : UInt64) (worker : String) (op : WorkerOp) (b : Belief) (s s' : Storage) :
    Prop where
  rows : ∀ k c, s.outbox.lookup k = some c → ∃ c', s'.outbox.lookup k = some c' ∧
    RowChange now worker b k c c'
  grants : Grants now worker b s s'
  deadline : ∀ keys deadline, b = .granted keys deadline → op.deadline now = some deadline

section Effects

variable {now : UInt64} {worker : String} {s s' : Storage}

variable {op : WorkerOp}

theorem Effect.of_claims {deadline : UInt64} {keys : List OutboxKey}
    (hd : op.deadline now = some deadline)
    (h : Storage.Claims now worker deadline s.outbox s'.outbox keys) :
    Effect now worker op (.granted keys deadline) s s' := by
  refine ⟨fun k c hc => ?_, ?_, ?_⟩
  · obtain ⟨c', hc', rfl | ⟨hcl, -⟩⟩ := h.rows k c hc
    · exact ⟨c', hc', .same rfl⟩
    · exact ⟨c', hc', .claimed hcl rfl⟩
  · rintro _ _ ⟨⟩ k hk
    obtain ⟨c, hc, hcl, hl⟩ := h.leased k hk
    exact ⟨c, hc, .inl hcl, hl⟩
  · rintro _ _ ⟨⟩
    exact hd

/-- An update of one row by its owner, from which the worker learns nothing or gives it back. -/
theorem Effect.of_updateRow {k : OutboxKey} {cond : OutboxColumns → Bool}
    {set : OutboxColumns → OutboxColumns} (hs : s'.outbox = (s.outbox.updateRow k cond set).1)
    (hco : ∀ c, cond c → c.leaseOwner = some worker) :
    Effect now worker op (.gaveBack k) s s' := by
  refine ⟨fun k' c hc => ?_, nofun, nofun⟩
  rw [hs]
  by_cases hk : k' = k
  · subst hk
    rw [Table.lookup_updateRow_self, hc, Option.map_some]
    refine ⟨_, rfl, ?_⟩
    split_ifs with h
    · exact .gaveBack (hco c h) rfl
    · exact .same rfl
  · exact ⟨c, (Table.lookup_updateRow_ne _ _ _ hk).trans hc, .same rfl⟩

theorem Effect.of_updateOutbox {cond : OutboxKey → OutboxColumns → Bool}
    {set : OutboxColumns → OutboxColumns}
    (h : ∀ k c, cond k c → RowChange now worker .nothing k c (set c)) :
    Effect now worker op .nothing s (s.updateOutbox cond set).2 := by
  refine ⟨fun k c hc => ?_, nofun, nofun⟩
  refine ⟨if cond k c then set c else c, ?_, ?_⟩
  · show (s.outbox.update cond set).lookup k = _
    rw [Table.lookup_update, hc, Option.map_some]
  · split_ifs with hco
    · exact h k c hco
    · exact .same rfl

theorem Effect.of_extendOutboxLease (k : OutboxKey) (lu : UInt64) :
    Effect now worker (.extendOutboxLease k lu)
      (if (s.extendOutboxLease k worker now lu).1 then .granted [k] lu
        else .nothing) s (s.extendOutboxLease k worker now lu).2 := by
  have hs := Table.lookup_updateRow_self s.outbox k
    (fun c => c.leaseOwner = some worker && c.lockedUntilMs.any (asI64 now < ·))
    fun c => { c with lockedUntilMs := some (asI64 lu) }
  have ho : ∀ c : OutboxColumns,
      (c.leaseOwner = some worker && c.lockedUntilMs.any (asI64 now < ·)) = true →
        c.leaseOwner = some worker := by
    intro c hc
    rw [Bool.and_eq_true] at hc
    exact of_decide_eq_true hc.1
  refine ⟨fun k' c hc => ?_, ?_, ?_⟩
  · by_cases hk : k' = k
    · subst hk
      rw [hc] at hs
      refine ⟨_, hs, ?_⟩
      by_cases hco : (c.leaseOwner = some worker && c.lockedUntilMs.any (asI64 now < ·)) = true
      · have hch : (s.extendOutboxLease k' worker now lu).1 = true :=
          (Option.any_eq_true _ _).2 ⟨c, hc, hco⟩
        rw [if_pos hch]
        exact .extended (ho c hco) rfl
      · exact .same (if_neg hco)
    · exact ⟨c, (Table.lookup_updateRow_ne _ _ _ hk).trans hc, .same rfl⟩
  · intro keys deadline hb k' hk'
    split_ifs at hb with hch
    cases hb
    obtain rfl := List.mem_singleton.1 hk'
    obtain ⟨c, hc, hco⟩ := (Option.any_eq_true _ _).1 hch
    rw [hc, Option.map_some, if_pos hco] at hs
    exact ⟨c, hc, .inr (ho c hco), _, hs, ho c hco, rfl⟩
  · intro keys deadline hb
    split_ifs at hb
    cases hb
    rfl

end Effects

variable {now : UInt64} {worker : String} {b : Belief}

/-- **What an operation does to the rows.** -/
theorem perform_effect {F : Formats} {op : WorkerOp} {s s' : Storage}
    (h : op.perform F now worker s = .ok (b, s')) :
    Effect now worker op b s s' := by
  cases op with
  | claimDueOutbox d limit =>
    obtain ⟨⟨row, t⟩, hcl, h⟩ := Prog.except_bind_eq_ok h
    cases h
    exact .of_claims rfl (claimDueOutbox_claims hcl)
  | claimNDueOutbox d limit rf =>
    obtain ⟨⟨rows, t⟩, hcl, h⟩ := Prog.except_bind_eq_ok h
    cases h
    exact .of_claims rfl (claimNDueOutbox_claims hcl)
  | claimDueOutboxForPeer recipient d =>
    obtain ⟨⟨row, t⟩, hcl, h⟩ := Prog.except_bind_eq_ok h
    cases h
    exact .of_claims rfl (claimDueOutboxForPeer_claims hcl)
  | claimPendingDeliveriesWithLease limit d rf =>
    obtain ⟨⟨rows, t⟩, hcl, h⟩ := Prog.except_bind_eq_ok h
    cases h
    exact .of_claims rfl (claimPendingDeliveriesWithLease_claims hcl)
  | extendOutboxLease k lu =>
    cases h
    exact .of_extendOutboxLease k lu
  | releaseOutboxLease k =>
    cases h
    exact .of_updateRow rfl fun c hc => of_decide_eq_true hc
  | finishOutboxAttempt k success next errorCode clock =>
    cases h
    refine .of_updateRow rfl fun c hc => ?_
    rw [Bool.and_eq_true] at hc
    exact of_decide_eq_true hc.1
  | recoverStaleOutboxLeases =>
    cases h
    refine .of_updateOutbox fun k c hc => .recovered ?_
    simp only [Bool.and_eq_true, decide_eq_true_eq] at hc
    refine ⟨isTerminal_eq_false hc.1.2 hc.2, unlocked_of_any hc.1.1⟩
  | recoverStaleSendingDeliveries =>
    cases h
    refine .of_updateOutbox fun k c hc => .recovered ?_
    simp only [Bool.and_eq_true, Bool.or_eq_true, decide_eq_true_eq] at hc
    refine ⟨by rw [hc.1]; rfl, ?_⟩
    rcases hc.2 with hl | ⟨hn, -⟩
    · exact unlocked_of_any hl
    · rw [Option.isNone_iff_eq_none] at hn
      unfold unlocked
      rw [hn]
      rfl
  | expireOutbox =>
    cases h
    exact .of_updateOutbox fun k c hc => .expired rfl rfl

/-! ### The invariant -/

/-- The row is locked for a lease, or has expired and is nobody's. -/
def Held (l : Lease) (c : OutboxColumns) : Prop :=
  Storage.Leased l.owner l.deadline c ∨ c.status = .expired ∧ c.leaseOwner = none

def Backed (w : Workers) (l : Lease) : Prop :=
  InRange w.clock l.deadline ∧ ∃ c, w.store.outbox.lookup l.key = some c ∧ Held l c

/-- Leases that have not expired are backed by the table, and no two workers have one on the same
row. -/
structure Sound (w : Workers) : Prop where
  backed : ∀ l ∈ w.leases, w.clock < l.deadline → w.Backed l
  exclusive : w.Exclusive

variable {l : Lease} {c : OutboxColumns}

/-- A row that is held cannot be claimed. -/
theorem Held.not_claimable (h : Held l c) (hr : InRange now l.deadline) (hlt : now < l.deadline) :
    ¬ Storage.Claimable now c := by
  rintro ⟨hs, hu⟩
  rcases h with ⟨-, hl⟩ | ⟨hep, -⟩
  · have ha := asI64_lt hr hlt
    unfold unlocked at hu
    rw [hl, Option.all_some, decide_eq_true_eq] at hu
    omega
  · rw [hep] at hs
    cases hs

/-- The owner of a row that is held holds it. -/
theorem Held.owner_eq (h : Held l c) (ho : c.leaseOwner = some worker) : l.owner = worker := by
  rcases h with ⟨how, -⟩ | ⟨-, hn⟩
  · exact Option.some.inj (how.symm.trans ho)
  · rw [hn] at ho
    cases ho

/-- A row stays held unless its own worker extends it or gives it back. -/
theorem Held.of_rowChange {c' : OutboxColumns} (h : Held l c) (hr : InRange now l.deadline)
    (hlt : now < l.deadline) (hch : RowChange now worker b l.key c c') :
    Held l c' ∨ l.owner = worker ∧ ((∃ deadline, b = .granted [l.key] deadline) ∨
      b = .gaveBack l.key) := by
  cases hch with
  | same heq => exact .inl (heq ▸ h)
  | claimed hc hb => exact absurd hc (h.not_claimable hr hlt)
  | extended ho hb => exact .inr ⟨h.owner_eq ho, .inl ⟨_, hb⟩⟩
  | gaveBack ho hb => exact .inr ⟨h.owner_eq ho, .inr hb⟩
  | recovered hc => exact absurd hc (h.not_claimable hr hlt)
  | expired hs ho => exact .inl (.inr ⟨hs, ho⟩)

/-- A lease after an operation is a new one, or one from before that is not its worker's lease on a
row granted or given back. -/
theorem mem_learn {le : List Lease} (h : l ∈ learn worker b le) :
    (∃ keys, b = .granted keys l.deadline ∧ l.key ∈ keys ∧ l.owner = worker) ∨
      l ∈ le ∧ (l.owner = worker → (∀ deadline, b ≠ .granted [l.key] deadline) ∧
        b ≠ .gaveBack l.key) := by
  unfold learn at h
  split at h
  · rename_i keys deadline
    rw [List.mem_append, List.mem_map, List.mem_filter] at h
    rcases h with ⟨k, hk, rfl⟩ | ⟨hl, hke⟩
    · exact .inl ⟨keys, rfl, hk, rfl⟩
    · refine .inr ⟨hl, fun ho => ⟨?_, nofun⟩⟩
      rintro deadline' ⟨⟩
      simp [ho] at hke
  · rw [List.mem_filter] at h
    refine .inr ⟨h.1, fun ho => ⟨nofun, ?_⟩⟩
    rintro ⟨⟩
    simp [ho] at h
  · exact .inr ⟨h, fun _ => ⟨nofun, nofun⟩⟩

section Step

variable {F : Formats} {w : Workers} {worker : String} {op : WorkerOp} {b : Belief}
  {store : Storage}

theorem Sound.backed_of_effect (hs : w.Sound) (he : Effect w.clock worker op b w.store store)
    (hr : ∀ deadline ∈ op.deadline w.clock, InRange w.clock deadline) {l : Lease}
    (hl : l ∈ learn worker b w.leases) (hlt : w.clock < l.deadline) :
    Backed { w with store, leases := learn worker b w.leases } l := by
  rcases mem_learn hl with ⟨keys, hb, hk, ho⟩ | ⟨hl, hke⟩
  · obtain ⟨-, -, -, c', hc', hle⟩ := he.grants keys l.deadline hb l.key hk
    exact ⟨hr _ (he.deadline keys l.deadline hb), c', hc', .inl (ho ▸ hle)⟩
  · obtain ⟨hra, c, hc, hh⟩ := hs.backed l hl hlt
    obtain ⟨c', hc', hch⟩ := he.rows l.key c hc
    rcases hh.of_rowChange hra hlt hch with h | ⟨ho, ⟨deadline, hb⟩ | hb⟩
    · exact ⟨hra, c', hc', h⟩
    · exact absurd hb ((hke ho).1 deadline)
    · exact absurd hb (hke ho).2

/-- A row granted is held by no other worker. -/
theorem Sound.owner_of_granted (hs : w.Sound) (he : Effect w.clock worker op b w.store store)
    {keys : List OutboxKey} {deadline : UInt64} (hb : b = .granted keys deadline) {l : Lease}
    (hk : l.key ∈ keys) (hl : l ∈ w.leases) (hlt : w.clock < l.deadline) : l.owner = worker := by
  obtain ⟨hr, c, hc, hh⟩ := hs.backed l hl hlt
  obtain ⟨c₀, hc₀, hw, -⟩ := he.grants keys deadline hb l.key hk
  cases hc.symm.trans hc₀
  rcases hw with hcl | ho
  · exact absurd hcl (hh.not_claimable hr hlt)
  · exact hh.owner_eq ho

theorem Sound.exclusive_of_effect (hs : w.Sound) (he : Effect w.clock worker op b w.store store) :
    Exclusive { w with store, leases := learn worker b w.leases } := by
  intro l hl l' hl' hkey hlt hlt'
  rcases mem_learn hl with ⟨keys, hb, hk, ho⟩ | ⟨hl, -⟩ <;>
    rcases mem_learn hl' with ⟨keys', hb', hk', howner'⟩ | ⟨hl', -⟩
  · rw [ho, howner']
  · rw [ho]
    exact (hs.owner_of_granted he hb (hkey ▸ hk) hl' hlt').symm
  · rw [howner']
    exact hs.owner_of_granted he hb' (hkey ▸ hk') hl hlt
  · exact hs.exclusive l hl l' hl' hkey hlt hlt'

/-- What an operation does, unless it fails. -/
theorem step_act_cases (fl : Option Failure) :
    w.step F (.act worker op fl) = w ∨
      ∃ b store, op.perform F w.clock worker w.store = .ok (b, store) ∧
        w.step F (.act worker op fl) = { w with store, leases := learn worker b w.leases } := by
  unfold Workers.step
  cases fl with
  | some e => exact .inl rfl
  | none =>
    cases hp : op.perform F w.clock worker w.store with
    | error e => exact .inl (by simp only [hp])
    | ok p => exact .inr ⟨p.1, p.2, rfl, by simp only [hp]⟩

/-- One step keeps the leases exclusive. -/
theorem Sound.step (hs : w.Sound) (i : Input) (hr : w.DeadlineInRange i) : (w.step F i).Sound := by
  cases i with
  | tick now =>
    have hle : w.clock ≤ if w.clock ≤ now then now else w.clock := by
      split_ifs with h
      · exact h
      · exact UInt64.le_refl _
    refine ⟨fun l hl hlt => ?_, fun l hl l' hl' hkey hlt hlt' => hs.exclusive l hl l' hl' hkey
      (UInt64.lt_of_le_of_lt hle hlt) (UInt64.lt_of_le_of_lt hle hlt')⟩
    obtain ⟨hra, hh⟩ := hs.backed l hl (UInt64.lt_of_le_of_lt hle hlt)
    exact ⟨hra.imp_right fun h => Nat.le_trans h hle, hh⟩
  | act worker op fault =>
    rcases step_act_cases fault with hsa | ⟨b, store, hp, hstep⟩
    · rw [hsa]
      exact hs
    · rw [hstep]
      have he := perform_effect hp
      exact ⟨fun l hl hlt => hs.backed_of_effect he hr hl hlt, hs.exclusive_of_effect he⟩

theorem perform_foreign {now : UInt64} {s s' : Storage} {k : OutboxKey} {c : OutboxColumns}
    (hr : op.row = some k) (hc : s.outbox.lookup k = some c) (ho : c.leaseOwner ≠ some worker)
    (h : op.perform F now worker s = .ok (b, s')) : s'.outbox.lookup k = some c := by
  cases op with
  | extendOutboxLease | releaseOutboxLease | finishOutboxAttempt =>
    -- each asks for the lease in its condition
    cases hr
    cases h
    exact (Table.lookup_updateRow_self _ _ _ _).trans (by simp [hc, ho])
  | _ => cases hr

theorem foreignKept (w : Workers) (i : Input) : w.ForeignKept F i := by
  cases i with
  | tick now => exact trivial
  | act worker op fault =>
    intro k c hr hc ho
    rcases step_act_cases fault with hs | ⟨b, store, hp, hstep⟩
    · rw [hs]
      exact hc
    · rw [hstep]
      exact perform_foreign hr hc ho hp

end Step

/-- **Mutual exclusion of the workers.**  However the workers and the maintenance interleave, as
long as no deadline crosses `2 ^ 63`, there is never more than one worker with an unexpired lease on
a row; and a worker that is not the owner of the lease changes nothing of the row. -/
theorem leases_exclusive (F : Formats) (store : Storage) (clock : UInt64) (is : List Input)
    (hr : (machine F).Along DeadlineInRange ⟨store, clock, []⟩ is) :
    (∀ pre, pre <+: is → ((machine F).exec ⟨store, clock, []⟩ pre).Exclusive) ∧
      (machine F).Along (ForeignKept F) ⟨store, clock, []⟩ is := by
  have hs : Sound ⟨store, clock, []⟩ := ⟨nofun, nofun⟩
  refine ⟨fun pre hp => ?_, Machine.along_of_step foreignKept _ is⟩
  obtain ⟨post, rfl⟩ := hp
  have hp := (Machine.along_append.1 hr).1
  exact (Machine.exec_invariant_along hp hs fun w i hi hw => hw.step i hi).exclusive

/-- A store with one message for a peer. -/
def oneDelivery : Storage where
  outbox := Table.insertOrIgnore ∅ ⟨Block.replicate 32 0, Block.replicate 32 1⟩ (newRow 0)
  inbox := ∅
  dmMessages := ∅
  dmOutbox := ∅
  dmAcknowledgements := ∅

/-- Formats that accept every key and no acknowledgement. -/
def keysOnly : Formats where
  isPublicKey _ := true
  ackSigned _ := false
  hexDecode _ := .error ⟨"invalid digit"⟩
  envelopeId _ := .error ⟨"invalid envelope"⟩

/-- Two workers claim the message, the second one after the lease of the first has expired. -/
def handOver : List Input :=
  [.act "a" (.claimDueOutbox 1000 1) none, .act "b" (.claimDueOutbox 1000 1) none, .tick 1000,
    .act "b" (.claimDueOutbox 1000 1) none]

theorem handOver_exclusive :
    (machine keysOnly).Along DeadlineInRange ⟨oneDelivery, 0, []⟩ handOver ∧
    (∀ pre, pre <+: handOver → ((machine keysOnly).exec ⟨oneDelivery, 0, []⟩ pre).Exclusive) ∧
    (machine keysOnly).Along (ForeignKept keysOnly) ⟨oneDelivery, 0, []⟩ handOver := by
  have hr : (machine keysOnly).Along DeadlineInRange ⟨oneDelivery, 0, []⟩ handOver := by
    decide +kernel
  exact ⟨hr, leases_exclusive keysOnly oneDelivery 0 handOver hr⟩

/-- A lease of `2 ^ 63` milliseconds is over at once in the table: the deadline wraps to a negative
number, and both workers hold the message. -/
theorem wrapped_deadline_shared :
    ¬ ((machine keysOnly).exec ⟨oneDelivery, 0, []⟩
      [.act "a" (.claimDueOutbox 9223372036854775808 1) none,
        .act "b" (.claimDueOutbox 9223372036854775808 1) none]).Exclusive := by
  decide +kernel

end Workers

end Boru
