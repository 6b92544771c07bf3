import Boru.Collections.HashMap
import Boru.Downloads.Table
import Boru.LTS.Basic

/-!
# Cancellation flags

A worker polls a flag that the manager handed out for its download.  The manager keeps the flags in
a map by download, and reaches a flag only while the map holds it.

Pausing sets the flag of a download and nothing resets it, so the worker of a resumed download stops
at once.  Cancelling takes the flag out of the map without setting it, so the worker goes on.

## Main results

* `DownloadManager.signals_iff` : the runs in which cancellations reach the workers and pauses end
  when a download is resumed.
-/

namespace Boru

open Prog

structure DownloadManager where
  storage : Downloads
  /-- The flags by download; a flag is the number of its creation. -/
  cancelFlags : HashMap ℤ ℕ := ∅
  /-- What the flags read that were created, whether or not the map holds them. -/
  flags : List Bool := []

namespace DownloadManager

def reads (m : DownloadManager) (flag : ℕ) : Bool := m.flags.getD flag false

/-- Register a cancellation flag for a download: a new flag, which is not set. -/
def registerCancelFlag (id : ℤ) : Prog DownloadManager DownloadError ℕ := do
  let flag := (← get).flags.length
  modify fun m => { m with
    flags := m.flags ++ [false], cancelFlags := m.cancelFlags.insert id flag }
  return flag

/-- The cancellation flag for a download; one is created if none exists. -/
def cancelFlag (id : ℤ) : Prog DownloadManager DownloadError ℕ := do
  match (← get).cancelFlags.lookup id with
  | some flag => return flag
  | none => registerCancelFlag id

def removeCancelFlag (id : ℤ) : Prog DownloadManager DownloadError Unit :=
  modify fun m => { m with cancelFlags := m.cancelFlags.erase id }

def withStorage : Downloads.Method Unit → Prog DownloadManager DownloadError Unit :=
  within storage fun m storage => { m with storage }

/-- Pause an active download: signal its worker, forget its temporary file, and pause its row. -/
def pauseDownload (now : UInt64) (id : ℤ) : Prog DownloadManager DownloadError Unit := do
  let flag ← cancelFlag id
  modify fun m => { m with flags := m.flags.set flag true }
  withStorage (Downloads.setDownloadTempPath now id none)
  withStorage (Downloads.pauseDownload now id)

def resumeDownload (now : UInt64) (id : ℤ) : Prog DownloadManager DownloadError Unit :=
  withStorage (Downloads.resumeDownload now id)

/-- Cancel a download permanently. -/
def cancelDownload (now : UInt64) (id : ℤ) : Prog DownloadManager DownloadError Unit := do
  withStorage (Downloads.cancelDownload now id)
  removeCancelFlag id

inductive Call where
  | registerCancelFlag (id : ℤ)
  | cancelFlag (id : ℤ)
  | removeCancelFlag (id : ℤ)
  | pauseDownload (now : UInt64) (id : ℤ)
  | resumeDownload (now : UInt64) (id : ℤ)
  | cancelDownload (now : UInt64) (id : ℤ)

def Call.perform : Call → Prog DownloadManager DownloadError Unit
  | registerCancelFlag id => do let _ ← DownloadManager.registerCancelFlag id
  | cancelFlag id => do let _ ← DownloadManager.cancelFlag id
  | removeCancelFlag id => DownloadManager.removeCancelFlag id
  | pauseDownload now id => DownloadManager.pauseDownload now id
  | resumeDownload now id => DownloadManager.resumeDownload now id
  | cancelDownload now id => DownloadManager.cancelDownload now id

def machine : Machine DownloadManager Call Empty := ⟨fun m call => ((call.perform.exec m).2, [])⟩

/-- A cancellation that succeeds sets the flag that the map held for the download, the last one
handed out, and after a resumption that succeeds the flag of the download is not set. -/
def Signals (m : DownloadManager) : Call → Prop
  | .cancelDownload now id => wp (cancelDownload now id) (fun _ m' =>
      ∀ flag, m.cancelFlags.lookup id = some flag → m'.reads flag = true) (fun _ _ => True) m
  | .resumeDownload now id => wp (resumeDownload now id) (fun _ m' =>
      wp (cancelFlag id) (fun flag m'' => m''.reads flag = false) (fun _ _ => False) m')
      (fun _ _ => True) m
  | _ => True

/-- A download that is cancelled has been paused before under its flag, and one that is resumed has
a flag that was not, or none. -/
def Prepared (m : DownloadManager) : Call → Prop
  | .cancelDownload _ id => ∀ c, m.storage.rows.lookup id = some c →
      c.state ∉ ["complete", "completed", "failed", "version_mismatch"] →
      ∀ flag, m.cancelFlags.lookup id = some flag → m.reads flag = true
  | .resumeDownload _ id => ∀ c, m.storage.rows.lookup id = some c →
      c.state ∈ ["paused", "resolving_peer", "requesting_permission", "downloading", "verifying"] →
      ∀ flag, m.cancelFlags.lookup id = some flag → m.reads flag = false
  | _ => True

variable {m : DownloadManager} {id : ℤ}

theorem wp_cancelDownload_iff {now : UInt64} {d : Downloads} {p : Prop} :
    wp (Downloads.cancelDownload now id) (fun _ _ => p) (fun _ _ => True) d ↔
      ∀ c, d.rows.lookup id = some c →
        c.state ∉ ["complete", "completed", "failed", "version_mismatch"] → p := by
  simp only [Downloads.cancelDownload, wp_bind, Downloads.wp_row, implies_true, and_true]
  refine forall₂_congr fun c _ => ?_
  split_ifs with hc hen
  · simp [hc]
  · simp [hen]
  · simp [hen]

theorem wp_resumeDownload_iff {now : UInt64} {d : Downloads} {p : Prop} :
    wp (Downloads.resumeDownload now id) (fun _ _ => p) (fun _ _ => True) d ↔
      ∀ c, d.rows.lookup id = some c → c.state ∈ ["paused", "resolving_peer",
        "requesting_permission", "downloading", "verifying"] → p := by
  simp only [Downloads.resumeDownload, wp_bind, Downloads.wp_row, implies_true, and_true]
  refine forall₂_congr fun c _ => ?_
  split_ifs with hp ha
  · simp [hp]
  · simp [ha]
  · simp [hp, ha]

/-- The flag of a download is not set exactly if there is none, or it was not set. -/
theorem wp_cancelFlag_iff :
    wp (cancelFlag id) (fun flag m' => m'.reads flag = false) (fun _ _ => False) m ↔
      ∀ flag, m.cancelFlags.lookup id = some flag → m.reads flag = false := by
  simp only [cancelFlag, wp_bind, wp_get]
  cases m.cancelFlags.lookup id with
  | some flag => simp
  | none => simp [registerCancelFlag, reads]

theorem signals_iff_prepared (m : DownloadManager) (call : Call) :
    m.Signals call ↔ m.Prepared call := by
  cases call with
  | cancelDownload now id =>
    simp only [Signals, cancelDownload, removeCancelFlag, withStorage, wp_bind, wp_within,
      wp_modify, reads]
    exact wp_cancelDownload_iff
  | resumeDownload now id =>
    simp only [Signals, wp_cancelFlag_iff, resumeDownload, withStorage, wp_within]
    simp only [reads]
    exact wp_resumeDownload_iff
  | _ => exact Iff.rfl

/-- **Cancellations reach the workers**, and resumed downloads are not stopped by the old pause,
exactly in the runs in which every download is paused before it is cancelled and gets a new flag
between a pause and its resumption. -/
theorem signals_iff (storage : Downloads) (calls : List Call) :
    machine.Along Signals ⟨storage, ∅, []⟩ calls ↔ machine.Along Prepared ⟨storage, ∅, []⟩ calls :=
  Machine.along_congr signals_iff_prepared _ calls

/-- A download that is received. -/
def receiving : Downloads where
  rows := AList.insert 1 ⟨"h", "p", "downloading", 0, 9, 0, 0, none, 0, none, none, none⟩ ∅
  lastId := 1
  assigned := by decide

/-- The flag of a download that is cancelled is not set, and that of one that is paused and resumed
still is. -/
theorem worker_missed :
    ¬ machine.Along Signals ⟨receiving, ∅, []⟩ [.cancelFlag 1, .cancelDownload 0 1] ∧
      ¬ machine.Along Signals ⟨receiving, ∅, []⟩
        [.cancelFlag 1, .pauseDownload 0 1, .resumeDownload 0 1] := by
  constructor
  · rintro ⟨-, h, -⟩
    cases h 0 rfl
  · rintro ⟨-, -, h, -⟩
    cases h

end DownloadManager

end Boru
