import Boru.Downloads.Table
import Mathlib.Data.Finset.Insert

/-!
# The tick of the download manager

A tick claims a queued download for the workers.  Downloads that were interrupted by a restart are
queued again and handed to the startup scheduler, which starts them itself; a tick must leave these
alone.  The query of a tick does not know the scheduler: it picks the queued download that was
created first, and when the scheduler holds that one the tick ends.

## Main results

* `DownloadManager.serves_iff` : a tick serves the downloads outside the scheduler exactly when
  there are none or the scheduler does not hold the oldest queued one.
-/

namespace Boru

/-- The scheduler of the downloads that a restart interrupted; admissions stand for downloads. -/
structure BoundedStartupScheduler where
  /-- Admissions that were not started yet. -/
  pending : List ℤ := []
  /-- Every download that was pushed, started or not. -/
  ids : Finset ℤ := ∅

namespace BoundedStartupScheduler

/-- Add admissions at the end of the queue. -/
def push (scheduler : BoundedStartupScheduler) (items : List ℤ) : BoundedStartupScheduler :=
  items.foldl (fun s id => { pending := s.pending ++ [id], ids := insert id s.ids }) scheduler

def contains (scheduler : BoundedStartupScheduler) (id : ℤ) : Bool := id ∈ scheduler.ids

end BoundedStartupScheduler

namespace Downloads

/-- The queued downloads in the order of their creation. -/
def queued (s : Downloads) : List (ℤ × Download) :=
  s.rows.orderBy (fun _ c => c.state = "queued") (·.createdAtMs)

theorem mem_queued {s : Downloads} {id : ℤ} {c : Download} :
    (id, c) ∈ s.queued ↔ s.rows.lookup id = some c ∧ c.state = "queued" := by
  unfold queued
  rw [Table.mem_orderBy, decide_eq_true_iff]

/-- The first of the queued downloads is the oldest. -/
theorem createdAtMs_le_of_queued {s : Downloads} {p : ℤ × Download} {rest : List (ℤ × Download)}
    (h : s.queued = p :: rest) {q : ℤ × Download} (hq : q ∈ s.queued) :
    p.2.createdAtMs ≤ q.2.createdAtMs := by
  have hs : s.queued.Pairwise _ := Table.pairwise_orderBy
  rw [h] at hs hq
  rcases List.mem_cons.1 hq with rfl | hr
  · exact le_rfl
  · exact (List.pairwise_cons.1 hs).1 q hr

end Downloads

namespace DownloadManager

variable (now : UInt64) (scheduler : BoundedStartupScheduler) (s : Downloads)

/-- Advance the download state machine by one tick: whether a download was claimed. -/
def tick : Downloads.Method Bool := do
  -- `ORDER BY created_at_ms ASC LIMIT 1`
  match ((← get).rows.selectBy (fun _ c => c.state = "queued") (·.createdAtMs) 1).head? with
  | none => return false
  | some (id, _) => if scheduler.contains id then return false else Downloads.claimQueued now id

/-- A download that is queued and that the scheduler does not hold. -/
def Outside (id : ℤ) (c : Download) : Prop :=
  s.rows.lookup id = some c ∧ c.state = "queued" ∧ id ∉ scheduler.ids

/-- A tick returns `false` only if no download is queued outside the scheduler, and otherwise claims
the oldest of these. -/
def Serves : Prop :=
  (tick now scheduler).wp (fun claimed s' =>
    if claimed then ∃ id c, Outside scheduler s id c ∧
      (∀ id' c', Outside scheduler s id' c' → c.createdAtMs ≤ c'.createdAtMs) ∧
      s' = s.updateRow id (·.state = "queued") fun c => { c with
        state := "resolving_peer", updatedAtMs := asI64 now }
    else ∀ id c, ¬ Outside scheduler s id c) (fun _ _ => False) s

variable {now scheduler s}

/-- **When a tick serves the queue.**  The scheduler blocks it exactly by holding the first queued
download. -/
theorem serves_iff : Serves now scheduler s ↔
    (∀ id c, ¬ Outside scheduler s id c) ∨ ∀ p ∈ s.queued.head?, p.1 ∉ scheduler.ids := by
  have hqu : (s.rows.selectBy (fun _ c => c.state = "queued") (·.createdAtMs) 1).head? =
      s.queued.head? := List.head?_take
  unfold Serves tick
  rw [Prog.wp_bind, Prog.wp_get, hqu]
  cases hq : s.queued with
  | nil =>
    have hn : ∀ id c, ¬ Outside scheduler s id c := by
      rintro id c ⟨hl, hs, -⟩
      have hmem := Downloads.mem_queued.2 ⟨hl, hs⟩
      rw [hq] at hmem
      cases hmem
    exact iff_of_true hn (.inl hn)
  | cons p rest =>
    have hmem : p ∈ s.queued := hq ▸ List.mem_cons_self
    obtain ⟨hl, hs⟩ := Downloads.mem_queued.1 hmem
    have hle : ∀ id c, Outside scheduler s id c → p.2.createdAtMs ≤ c.createdAtMs :=
      fun id c h => Downloads.createdAtMs_le_of_queued hq (Downloads.mem_queued.2 ⟨h.1, h.2.1⟩)
    by_cases hh : p.1 ∈ scheduler.ids
    · simp [BoundedStartupScheduler.contains, hh]
    · refine iff_of_true ?_ (.inr ?_)
      · have ha : (s.rows.lookup p.1).any (·.state = "queued") = true := by
          rw [hl]
          exact decide_eq_true hs
        simp only [List.head?_cons, BoundedStartupScheduler.contains, hh, decide_false,
          Bool.false_eq_true, if_false, Downloads.claimQueued, Downloads.wp_update, ha, if_true]
        exact ⟨p.1, p.2, ⟨hl, hs, hh⟩, hle, rfl⟩
      · simpa using hh

/-- Two queued downloads, of which a restart handed the older one to the scheduler: a tick leaves
the other one where it is and reports an idle queue. -/
theorem tick_blocked :
    let row : ℤ → Download := fun created => {
      contentHash := "", remotePeer := "", state := "queued", bytesDownloaded := 0,
      totalBytes := 0, createdAtMs := created, updatedAtMs := created }
    let s : Downloads := ⟨AList.insert 2 (row 20) (AList.insert 1 (row 10) ∅), 2, by decide⟩
    let scheduler := BoundedStartupScheduler.push {} [1]
    Outside scheduler s 2 (row 20) ∧ (tick 30 scheduler).exec s = (.ok false, s) ∧
      ¬ Serves 30 scheduler s := by
  intro row s scheduler
  have hout : Outside scheduler s 2 (row 20) := ⟨by decide, rfl, by decide⟩
  have ht : (tick 30 scheduler).exec s = (.ok false, s) := rfl
  refine ⟨hout, ht, fun h => ?_⟩
  unfold Serves Prog.wp at h
  rw [ht] at h
  exact h 2 (row 20) hout

end DownloadManager

end Boru
