import Boru.Downloads.Recovery
import Boru.LTS.Basic

/-!
# The end of a download

A download that is complete, failed, cancelled or of another version has ended.  There is no
operation by which the user starts it again, so its state should never change.

Pausing, resuming, cancelling, claiming and the answers to a resumed download look at the state of
the row.  Three writers do not look far enough.  Progress updates, single or in a batch, spare
paused rows only, although a batch holds values collected before the row ended.  `failDownload`
spares paused rows only, and `completeDownload` does not spare failed rows and those of another
version.  And the recovery after a restart writes the state of the rows it has read before, whatever
has happened to them in between.

## Main results

* `keepsEnded_iff` : which steps change the state of a download that has ended.
* `ended_final_iff` : in a run no such state changes, exactly when no step is one of these.
* `flushed_after_completion` : a batch that is written after the completion.
-/

namespace Boru

open Prog

namespace Downloads

/-! ### Downloads that have ended -/

def Ended (state : String) : Prop := ∃ d : DownloadState, d.isTerminal = true ∧ d.asStr = state

theorem ended_iff {state : String} : Ended state ↔
    state = "complete" ∨ state = "failed" ∨ state = "cancelled" ∨ state = "version_mismatch" := by
  constructor
  · rintro ⟨d, ht, rfl⟩
    cases d <;> revert ht <;> decide
  · rintro (rfl | rfl | rfl | rfl)
    · exact ⟨.complete, rfl, rfl⟩
    · exact ⟨.failed, rfl, rfl⟩
    · exact ⟨.cancelled, rfl, rfl⟩
    · exact ⟨.versionMismatch, rfl, rfl⟩

instance (state : String) : Decidable (Ended state) := decidable_of_iff' _ ended_iff

/-- A download that has ended differs from every other one. -/
theorem Ended.ne {state other : String} (h : Ended state) (ho : ¬ Ended other) : state ≠ other := by
  rintro rfl
  exact ho h

/-- The downloads that have ended keep their states. -/
def Keeps (d d' : Downloads) : Prop :=
  ∀ id c c', d.rows.lookup id = some c → Ended c.state → d'.rows.lookup id = some c' →
    c'.state = c.state

variable {d : Downloads} {id : ℤ} {cond : Download → Bool} {set : Download → Download}

theorem Keeps.refl (d : Downloads) : Keeps d d := by
  intro id c c' hc _ hc'
  rw [hc] at hc'
  cases hc'
  rfl

/-- **When an update of one row keeps the states.** -/
theorem keeps_updateRow : Keeps d (d.updateRow id cond set) ↔
    ∀ c, d.rows.lookup id = some c → Ended c.state → cond c = true → (set c).state = c.state := by
  constructor
  · intro h c hc hen hco
    refine h id c (set c) hc hen ?_
    rw [lookup_updateRow, hc]
    simp [hco]
  · intro h k c c' hc hen hc'
    rw [lookup_updateRow, hc, Option.map_some] at hc'
    cases hc'
    split_ifs with hw
    · obtain ⟨rfl, hco⟩ := hw
      exact h c hc hen hco
    · rfl

/-- An update that spares the downloads that have ended. -/
theorem keeps_of_guard (h : ∀ c, Ended c.state → cond c = false) :
    Keeps d (d.updateRow id cond set) :=
  keeps_updateRow.2 fun c _ hen hc => by
    rw [h c hen] at hc
    cases hc

theorem keeps_of_not_ended {c : Download} (hc : d.rows.lookup id = some c) (h : ¬ Ended c.state) :
    Keeps d (d.updateRow id cond set) :=
  keeps_updateRow.2 fun c' hc' hen _ => by
    rw [hc] at hc'
    cases hc'
    exact absurd hen h

/-! ### Batches -/

/-- The state of a row after the entry of a batch. -/
def flushState (state entry : String) : String := if state = "paused" then state else entry

/-- The states that a batch holds for a download. -/
def statesFor (id : ℤ) (batch : List (ℤ × UInt64 × String)) : List String :=
  (batch.filter (·.1 = id)).map (·.2.2)

theorem state_flush (now : UInt64) (batch : List (ℤ × UInt64 × String)) (d : Downloads) (id : ℤ) :
    ((batch.foldl (flushEntry now) d).rows.lookup id).map Download.state =
      (d.rows.lookup id).map fun c => (statesFor id batch).foldl flushState c.state := by
  induction batch generalizing d with
  | nil => rfl
  | cons entry batch ih =>
    obtain ⟨k, bytes, state⟩ := entry
    rw [List.foldl_cons, ih, flushEntry, lookup_updateRow, Option.map_map]
    congr 1
    funext c
    unfold statesFor
    by_cases hk : k = id
    · subst hk
      by_cases hp : c.state = "paused" <;> simp [hp, flushState, progress]
    · simp [hk, Ne.symm hk]

/-- Entries leave a paused row as it is. -/
theorem foldl_flushState_paused (st : List String) : st.foldl flushState "paused" = "paused" := by
  induction st with
  | nil => rfl
  | cons state st ih => exact ih

/-- Entries leave a row that is not paused in the state of the last one, unless one of them pauses
it. -/
theorem foldl_flushState {state : String} (hs : state ≠ "paused") (states : List String) :
    states.foldl flushState state =
      if "paused" ∈ states then "paused" else states.getLast?.getD state := by
  induction states generalizing state with
  | nil => simp
  | cons entry states ih =>
    rw [List.foldl_cons, flushState, if_neg hs]
    by_cases hen : entry = "paused"
    · subst hen
      rw [foldl_flushState_paused, if_pos List.mem_cons_self]
    · rw [ih hen]
      have hmem : "paused" ∈ entry :: states ↔ "paused" ∈ states := by
        simp [Ne.symm hen]
      simp only [hmem]
      cases states with
      | nil => rfl
      | cons entry' states =>
        rfl

/-- The entries of a batch for a download that has ended leave its state: none of them pauses it,
and the last one has its state. -/
def Agrees (state : String) (states : List String) : Prop :=
  "paused" ∉ states ∧ ∀ last, states.getLast? = some last → last = state

theorem foldl_flushState_eq_self {state : String} (h : Ended state) (states : List String) :
    states.foldl flushState state = state ↔ Agrees state states := by
  have hne : state ≠ "paused" := h.ne (by decide)
  rw [foldl_flushState hne]
  unfold Agrees
  by_cases hp : "paused" ∈ states
  · simp [hp, hne.symm]
  · rw [if_neg hp, and_iff_right hp]
    cases states.getLast? <;> simp

theorem keeps_flush {now : UInt64} {batch : List (ℤ × UInt64 × String)} :
    Keeps d (batch.foldl (flushEntry now) d) ↔
      ∀ id c, d.rows.lookup id = some c → Ended c.state → Agrees c.state (statesFor id batch) := by
  have hs : ∀ id c, d.rows.lookup id = some c → ∀ c',
      (batch.foldl (flushEntry now) d).rows.lookup id = some c' →
      c'.state = (statesFor id batch).foldl flushState c.state := by
    intro id c hc c' hc'
    have h := state_flush now batch d id
    rw [hc, hc'] at h
    exact Option.some.inj h
  constructor
  · intro h id c hc hen
    have hso := state_flush now batch d id
    rw [hc] at hso
    obtain ⟨c', hc', -⟩ := Option.map_eq_some_iff.1 hso
    rw [← foldl_flushState_eq_self hen, ← hs id c hc c' hc']
    exact h id c c' hc hen hc'
  · intro h id c c' hc hen hc'
    rw [hs id c hc c' hc']
    exact (foldl_flushState_eq_self hen _).2 (h id c hc hen)

end Downloads

/-! ### Operations -/

/-- The operations on the table of downloads. -/
inductive DownloadOp where
  | createDownload (contentHash remotePeer : String) (totalBytes : UInt64)
  | setDownloadPaths (id : ℤ) (tempPath destinationPath : String)
  | setDownloadTempPath (id : ℤ) (path : Option String)
  | updateDownloadProgress (id : ℤ) (bytesDownloaded : UInt64) (state : String)
  | flushProgressBatch (batch : List (ℤ × UInt64 × String))
  | pauseDownload (id : ℤ)
  | resumeDownload (id : ℤ)
  | acceptResumedDescriptor (id : ℤ) (descriptorContentHash : String) (totalBytes : UInt64)
  | acceptResumedDescriptorAt (id : ℤ) (descriptorContentHash : String)
    (totalBytes expiresAtMs : UInt64)
  | rejectResumedPermission (id : ℤ) (reason : String)
  | failDownload (id : ℤ) (error : String) (nextRetryAtMs : Option UInt64)
  | completeDownload (id : ℤ) (bytesDownloaded : UInt64)
  | cancelDownload (id : ℤ)
  | claimQueued (id : ℤ)
  | deleteDownloadHistory (id : ℤ)

namespace DownloadOp

open Downloads

def perform (now : UInt64) : DownloadOp → Downloads.Method Unit
  | createDownload contentHash remotePeer totalBytes => do
    let _ ← Downloads.createDownload now contentHash remotePeer totalBytes
  | setDownloadPaths id tempPath destinationPath =>
    Downloads.setDownloadPaths now id tempPath destinationPath
  | setDownloadTempPath id path => Downloads.setDownloadTempPath now id path
  | updateDownloadProgress id bytesDownloaded state =>
    Downloads.updateDownloadProgress now id bytesDownloaded state
  | flushProgressBatch batch => Downloads.flushProgressBatch now batch
  | pauseDownload id => Downloads.pauseDownload now id
  | resumeDownload id => Downloads.resumeDownload now id
  | acceptResumedDescriptor id hash totalBytes =>
    Downloads.acceptResumedDescriptor id hash totalBytes
  | acceptResumedDescriptorAt id hash totalBytes expiresAtMs =>
    Downloads.acceptResumedDescriptorAt id hash totalBytes expiresAtMs now
  | rejectResumedPermission id reason => Downloads.rejectResumedPermission now id reason
  | failDownload id error nextRetryAtMs => Downloads.failDownload now id error nextRetryAtMs
  | completeDownload id bytesDownloaded => Downloads.completeDownload now id bytesDownloaded
  | cancelDownload id => Downloads.cancelDownload now id
  | claimQueued id => do let _ ← Downloads.claimQueued now id
  | deleteDownloadHistory id => do let _ ← Downloads.deleteDownloadHistory id

/-- The operation gives no other state to a download that has ended. -/
def Spares (d : Downloads) : DownloadOp → Prop
  | updateDownloadProgress id _ state =>
    ∀ c, d.rows.lookup id = some c → Ended c.state → state = c.state
  | flushProgressBatch batch =>
    ∀ id c, d.rows.lookup id = some c → Ended c.state → Agrees c.state (statesFor id batch)
  | failDownload id _ _ => ∀ c, d.rows.lookup id = some c → Ended c.state → c.state = "failed"
  | completeDownload id _ =>
    ∀ c, d.rows.lookup id = some c → c.state ≠ "failed" ∧ c.state ≠ "version_mismatch"
  | _ => True

variable {now : UInt64} {d : Downloads} {id : ℤ} {tb : UInt64}

theorem keeps_createDownload {ch rp : String} :
    Keeps d ((perform now (createDownload ch rp tb)).exec d).2 := by
  intro id c c' hc _ hc'
  have hs : ((perform now (createDownload ch rp tb)).exec
      d).2.rows.lookup id = some c := lookup_insertRow_of_some hc
  rw [hs] at hc'
  cases hc'
  rfl

theorem keeps_deleteDownloadHistory :
    Keeps d ((perform now (deleteDownloadHistory id)).exec d).2 := by
  intro k c c' hc _ hc'
  have hc'' : (d.rows.delete _).lookup k = some c' := hc'
  rw [Table.lookup_delete, hc] at hc''
  obtain ⟨h, -⟩ := Option.filter_eq_some_iff.1 hc''
  cases h
  rfl

variable (bytesDownloaded : UInt64) {state : String}

theorem exec_updateDownloadProgress :
    ((Downloads.updateDownloadProgress now id bytesDownloaded state).exec d).2 =
      d.updateRow id (·.state ≠ "paused") (progress now bytesDownloaded state) := by
  refine exec_of_wp (P := fun s => s = _) ?_
  unfold Downloads.updateDownloadProgress
  rw [wp_bind, wp_update]
  split_ifs
  · exact rfl
  · rw [wp_bind, wp_row]
    refine ⟨fun c _ => ?_, fun _ => rfl⟩
    split_ifs <;> exact rfl

theorem keeps_updateDownloadProgress :
    Keeps d ((Downloads.updateDownloadProgress now id bytesDownloaded state).exec d).2 ↔
      ∀ c, d.rows.lookup id = some c → Ended c.state → state = c.state := by
  rw [exec_updateDownloadProgress, keeps_updateRow]
  refine forall₃_congr fun c _ hen => ?_
  have hc : decide (c.state ≠ "paused") = true := decide_eq_true (hen.ne (by decide))
  exact ⟨fun h => h hc, fun h _ => h⟩

theorem keeps_failDownload {er : String} {nextRetryAtMs : Option UInt64} :
    Keeps d ((Downloads.failDownload now id er nextRetryAtMs).exec d).2 ↔
      ∀ c, d.rows.lookup id = some c → Ended c.state → c.state = "failed" := by
  have hec : ((Downloads.failDownload now id er nextRetryAtMs).exec d).2 =
      d.updateRow id (·.state ≠ "paused") fun c => { c with
        state := "failed", lastError := some er, retryCount := c.retryCount + 1,
        nextRetryAtMs := nextRetryAtMs.map asI64, updatedAtMs := asI64 now } := by
    refine exec_of_wp (P := fun s => s = _) ?_
    unfold Downloads.failDownload
    rw [wp_bind, wp_update]
    split_ifs
    · exact rfl
    · rw [wp_bind, wp_row]
      refine ⟨fun c _ => ?_, fun _ => rfl⟩
      split_ifs <;> exact rfl
  rw [hec, keeps_updateRow]
  refine forall₃_congr fun c _ hen => ?_
  have hc : decide (c.state ≠ "paused") = true := decide_eq_true (hen.ne (by decide))
  exact ⟨fun h => (h hc).symm, fun h _ => h.symm⟩

theorem exec_completeDownload :
    ((Downloads.completeDownload now id bytesDownloaded).exec d).2 =
      d.updateRow id (fun c => c.state ∉ ["complete", "cancelled", "paused"]) fun c => { c with
        state := "complete", bytesDownloaded := asI64 bytesDownloaded, lastError := none,
        nextRetryAtMs := none, updatedAtMs := asI64 now } := by
  refine exec_of_wp (P := fun s => s = _) ?_
  unfold Downloads.completeDownload
  rw [wp_bind, wp_update]
  split_ifs <;> exact rfl

theorem keeps_completeDownload :
    Keeps d ((Downloads.completeDownload now id bytesDownloaded).exec d).2 ↔
      ∀ c, d.rows.lookup id = some c → c.state ≠ "failed" ∧ c.state ≠ "version_mismatch" := by
  rw [exec_completeDownload, keeps_updateRow]
  refine forall₂_congr fun c _ => ?_
  rw [ended_iff, decide_eq_true_iff]
  dsimp only
  constructor
  · intro h
    refine ⟨fun hs => ?_, fun hs => ?_⟩
    all_goals
      rw [hs] at h
      exact absurd (h (by decide) (by decide)) (by decide)
  · rintro ⟨hf, hm⟩ hen hc
    rcases hen with h | h | h | h
    · exact h.symm
    · exact absurd h hf
    · exact absurd (by rw [h]; decide) hc
    · exact absurd h hm

theorem keeps_pauseDownload : Keeps d ((Downloads.pauseDownload now id).exec d).2 := by
  refine exec_of_wp ?_
  unfold Downloads.pauseDownload
  rw [wp_bind, wp_row]
  refine ⟨fun c hc => ?_, fun _ => .refl d⟩
  dsimp only
  split_ifs with hp ht
  · exact .refl d
  · exact .refl d
  · refine keeps_of_not_ended hc fun hen => ht ?_
    rcases ended_iff.1 hen with h | h | h | h <;> rw [h] <;> decide

theorem keeps_cancelDownload : Keeps d ((Downloads.cancelDownload now id).exec d).2 := by
  refine exec_of_wp ?_
  unfold Downloads.cancelDownload
  rw [wp_bind, wp_row]
  refine ⟨fun c hc => ?_, fun _ => .refl d⟩
  dsimp only
  split_ifs with hca ht
  · exact .refl d
  · exact .refl d
  · refine keeps_of_not_ended hc fun hen => ?_
    rcases ended_iff.1 hen with h | h | h | h
    · exact ht (by rw [h]; decide)
    · exact ht (by rw [h]; decide)
    · exact hca h
    · exact ht (by rw [h]; decide)

theorem keeps_resumeDownload : Keeps d ((Downloads.resumeDownload now id).exec d).2 := by
  refine exec_of_wp ?_
  unfold Downloads.resumeDownload
  rw [wp_bind, wp_row]
  refine ⟨fun c hc => ?_, fun _ => .refl d⟩
  dsimp only
  split_ifs with hp ha
  · exact keeps_of_not_ended hc (by rw [hp]; decide)
  · exact .refl d
  · exact .refl d

theorem keeps_acceptResumedDescriptorAt {hash : String} {eam : UInt64} :
    Keeps d ((Downloads.acceptResumedDescriptorAt id hash tb eam now).exec d).2 := by
  refine exec_of_wp ?_
  unfold Downloads.acceptResumedDescriptorAt
  rw [wp_bind, wp_row]
  refine ⟨fun c hc => ?_, fun _ => .refl d⟩
  split_ifs with hs hep hh
  · exact .refl d
  all_goals
    refine keeps_of_not_ended hc fun hen => hs ⟨?_, ?_⟩
    · exact hen.ne (by decide)
    · exact hen.ne (by decide)

/-- **Which operations keep the states of the downloads that have ended.** -/
theorem keeps_iff (o : DownloadOp) : Keeps d ((o.perform now).exec d).2 ↔ o.Spares d := by
  cases o with
  | createDownload ch rp tb =>
    exact iff_of_true (keeps_createDownload) trivial
  | setDownloadPaths id tempPath destinationPath | setDownloadTempPath id path =>
    exact iff_of_true (keeps_updateRow.2 fun _ _ _ _ => rfl) trivial
  | updateDownloadProgress id bytesDownloaded state =>
    exact keeps_updateDownloadProgress bytesDownloaded
  | flushProgressBatch batch => exact keeps_flush
  | pauseDownload id => exact iff_of_true keeps_pauseDownload trivial
  | resumeDownload id => exact iff_of_true keeps_resumeDownload trivial
  | acceptResumedDescriptor id hash tb =>
    exact iff_of_true (keeps_acceptResumedDescriptorAt) trivial
  | acceptResumedDescriptorAt id hash tb eam =>
    exact iff_of_true (keeps_acceptResumedDescriptorAt) trivial
  | rejectResumedPermission id reason =>
    refine iff_of_true (keeps_of_guard fun c hen => decide_eq_false fun hmem => ?_) trivial
    rcases ended_iff.1 hen with h | h | h | h <;> rw [h] at hmem <;> revert hmem <;> decide
  | failDownload id error nram => exact keeps_failDownload
  | completeDownload id bytesDownloaded => exact keeps_completeDownload bytesDownloaded
  | cancelDownload id => exact iff_of_true keeps_cancelDownload trivial
  | claimQueued id =>
    refine iff_of_true (keeps_of_guard fun c hen => decide_eq_false ?_) trivial
    exact hen.ne (by decide)
  | deleteDownloadHistory id => exact iff_of_true keeps_deleteDownloadHistory trivial

end DownloadOp

/-! ### Recovery of one row -/

namespace RecoveryRow

open Downloads

variable {blake3 : List UInt8 → String} {now : ℤ → UInt64} {r : RecoveryRow} {s : DownloadStore}

/-- The recovery of a row gives no other state to it if it has ended: it tries to complete the row,
which is spared, or it stops before. -/
def Spares (blake3 : List UInt8 → String) (s : DownloadStore) (r : RecoveryRow) : Prop :=
  ∀ c, s.downloads.rows.lookup r.id = some c → Ended c.state →
    r.state = .verifying ∧
    (r.destinationValid blake3 s.files = true ∨ r.tempValid blake3 s.files = true) ∧
    (c.state = "complete" ∨ c.state = "cancelled" ∨ r.InstallFails blake3 s.files)

theorem keeps_setState {state : String} (hs : ¬ Ended state) :
    wp (onDownloads (setDownloadStateForRecovery (now r.id) r.id state))
      (fun _ s' => Keeps s.downloads s'.downloads) (fun _ s' => Keeps s.downloads s'.downloads) s ↔
      ∀ c, s.downloads.rows.lookup r.id = some c → ¬ Ended c.state := by
  show Keeps _ (s.downloads.updateRow _ _ _) ↔ _
  rw [keeps_updateRow]
  refine forall₂_congr fun c _ => ⟨fun h hen => ?_, fun h hen => absurd hen h⟩
  exact hen.ne hs (h hen rfl).symm

theorem keeps_complete {files : Files} :
    wp (onDownloads (completeDownload (now r.id) r.id r.totalBytes))
      (fun _ s' => Keeps s.downloads s'.downloads) (fun _ s' => Keeps s.downloads s'.downloads)
      { s with files } ↔
      ∀ c, s.downloads.rows.lookup r.id = some c →
        c.state ≠ "failed" ∧ c.state ≠ "version_mismatch" := by
  unfold onDownloads
  rw [wp_within, wp_mapErr]
  exact wp_const_iff.trans (DownloadOp.keeps_completeDownload r.totalBytes)

/-- **When the recovery of a row keeps the states of the downloads that have ended.** -/
theorem keeps_recoverRow :
    Keeps s.downloads ((recoverRow blake3 now r).exec s).2.downloads ↔ r.Spares blake3 s := by
  -- a row that is given a state that is not an end must not have ended
  have hse : ∀ state, ¬ Ended state → (r.state ≠ .verifying ∨
      r.destinationValid blake3 s.files = false ∧ r.tempValid blake3 s.files = false) →
      (wp (onDownloads (setDownloadStateForRecovery (now r.id) r.id state))
        (fun _ s' => Keeps s.downloads s'.downloads) (fun _ s' => Keeps s.downloads s'.downloads)
        s ↔ r.Spares blake3 s) := by
    intro state hs hca
    rw [keeps_setState hs]
    refine forall₂_congr fun c _ => ⟨fun h hen => absurd hen h, fun h hen => ?_⟩
    obtain ⟨hve, hv, -⟩ := h hen
    rcases hca with hne | ⟨hd, ht⟩
    · exact hne hve
    · rw [hd, ht] at hv
      simp at hv
  refine (wp_const_iff (P := fun s' : DownloadStore =>
    Keeps s.downloads s'.downloads)).symm.trans ?_
  unfold recoverRow
  rw [wp_bind, wp_get]
  cases hs : r.state with
  | resolvingPeer | requestingPermission =>
    refine hse _ ?_ (.inl (by rw [hs]; decide))
    split_ifs <;> decide
  | downloading => exact hse _ (by decide) (.inl (by rw [hs]; decide))
  | verifying =>
    dsimp only
    split_ifs with hv
    · have hv' : r.destinationValid blake3 s.files = true ∨ r.tempValid blake3 s.files = true := by
        simp only [Bool.or_eq_true, Bool.and_eq_true] at hv
        exact hv.imp_right And.right
      rw [wp_bind]
      have hi := @wp_installVerified blake3 r s
      rcases hec : (installVerified (r.destinationValid blake3 s.files) r).exec s with
        ⟨e | ⟨⟩, s'⟩
      · obtain ⟨hsa, hf⟩ := (wp_of_error hec).1 hi
        rw [wp_of_error hec, hsa]
        exact iff_of_true (.refl _) fun c _ _ => ⟨hs, hv', .inr (.inr hf)⟩
      · obtain ⟨hsa, hin, -⟩ := (wp_of_ok hec).1 hi
        obtain ⟨dw, files⟩ := s'
        obtain rfl : dw = s.downloads := hsa
        rw [wp_of_ok hec, keeps_complete]
        refine forall₂_congr fun c _ => ⟨fun h hen => ⟨hs, hv', ?_⟩, fun h => ?_⟩
        · rcases ended_iff.1 hen with hc | hc | hc | hc
          · exact .inl hc
          · exact absurd hc h.1
          · exact .inr (.inl hc)
          · exact absurd hc h.2
        · refine ⟨fun hc => ?_, fun hc => ?_⟩
          all_goals
            rw [hc] at h
            rcases (h (by decide)).2.2 with h | h | h
            · exact absurd h (by decide)
            · exact absurd h (by decide)
            · exact hin h
    · simp only [Bool.or_eq_true, Bool.and_eq_true, not_or, not_and, Bool.not_eq_true,
        Bool.not_eq_eq_eq_not] at hv
      exact hse _ (by decide) (.inr ⟨hv.1, hv.2 hv.1⟩)

end RecoveryRow

/-! ### Runs -/

namespace Downloads

/-- The table of downloads with the files, and what the recoveries that are running have still to
do. -/
structure System where
  store : DownloadStore
  /-- The rows that each recovery has read and not yet written. -/
  recoveries : List (List RecoveryRow)

inductive Input where
  /-- An operation on the table; the database may fail. -/
  | op (o : DownloadOp) (now : UInt64) (fault : Bool)
  /-- A recovery starts and reads the interrupted rows. -/
  | startRecovery
  /-- A recovery goes on with one of its rows. -/
  | recover (k i : ℕ) (now : ℤ → UInt64)
  | files (files : Files)

def System.next (s : System) (k i : ℕ) : Option RecoveryRow := (s.recoveries[k]?).bind (·[i]?)

variable (blake3 : List UInt8 → String)

variable (s : System)

/-- One step.  A recovery that fails does not go on. -/
def step : Input → System × List Empty
  | .op o now fault =>
    if fault then (s, [])
    else ({ s with store.downloads := ((o.perform now).exec s.store.downloads).2 }, [])
  | .startRecovery =>
    ({ s with recoveries := s.recoveries ++ [s.store.downloads.interrupted] }, [])
  | .recover k i now =>
    match s.next k i with
    | none => (s, [])
    | some r =>
      let result := (recoverRow blake3 now r).exec s.store
      let left := if result.1.isOk then ((s.recoveries[k]?).getD []).eraseIdx i else []
      ({ store := result.2, recoveries := s.recoveries.set k left }, [])
  | .files files => ({ s with store.files := files }, [])

def machine : Machine System Input Empty := ⟨step blake3⟩

/-- A step keeps the states of the downloads that have ended. -/
def KeepsEnded (i : Input) : Prop :=
  Keeps s.store.downloads (step blake3 s i).1.store.downloads

/-- A step gives no other state to a download that has ended. -/
def SparesEnded : Input → Prop
  | .op o _ fault => fault = false → o.Spares s.store.downloads
  | .recover k i _ => ∀ r, s.next k i = some r → r.Spares blake3 s.store
  | _ => True

/-- **Which steps change the state of a download that has ended.** -/
theorem keepsEnded_iff (i : Input) : KeepsEnded blake3 s i ↔ SparesEnded blake3 s i := by
  unfold KeepsEnded
  cases i with
  | op o now fl =>
    cases fl with
    | true => exact iff_of_true (.refl _) fun h => by cases h
    | false => exact (DownloadOp.keeps_iff o).trans ⟨fun h _ => h, fun h => h rfl⟩
  | startRecovery | files files => exact iff_of_true (.refl _) trivial
  | recover k i now =>
    show _ ↔ ∀ r, s.next k i = some r → r.Spares blake3 s.store
    cases hn : s.next k i with
    | none =>
      simp only [step, hn]
      refine iff_of_true (.refl _) fun r hr => ?_
      cases hr
    | some r =>
      simp only [step, hn]
      rw [RecoveryRow.keeps_recoverRow]
      refine ⟨fun h r' hr' => ?_, fun h => h r rfl⟩
      cases hr'
      exact h

/-- **The end of a download.**  In every run, no step changes the state of a download that has
ended, if and only if no step is a progress update with another state, a failure of a download that
has ended otherwise, a completion of one that has failed or is of another version, or the recovery
of a row that has ended since it was read. -/
theorem ended_final_iff (blake3 : List UInt8 → String) (s : System) (is : List Input) :
    (machine blake3).Along (KeepsEnded blake3) s is ↔
      (machine blake3).Along (SparesEnded blake3) s is :=
  Machine.along_congr (keepsEnded_iff blake3) s is

def noDownloads : System where
  store := ⟨⟨∅, 0, by decide⟩, sampleFiles⟩
  recoveries := []

/-- A batch that was collected before the completion is written after it. -/
theorem flushed_after_completion :
    ¬ (machine fun _ => "aa").Along (KeepsEnded fun _ => "aa") noDownloads
      [.op (.createDownload "AA" "peer" 1024) 1 false,
        .op (.completeDownload 1 1024) 2 false,
        .op (.flushProgressBatch [(1, 512, "downloading")]) 3 false] := by
  intro h
  obtain ⟨-, -, hf, -⟩ := h
  exact absurd (hf 1 _ _ rfl ⟨.complete, rfl, rfl⟩ rfl) (by decide)

end Downloads

end Boru
