import Boru.ScreenShare.Session

/-!
# Capacity of the session table

The manager keeps at most `MAX_ACTIVE_SESSIONS` records, and refuses an invitation when the table is
full.  Sessions that have ended keep their record, and the check comes before the one for a session
that is re-offered.  So the table is full of what is over, and then refuses everybody.

* `SessionManager.bounded_exec` : the table never holds more than `MAX_ACTIVE_SESSIONS` records.
* `admits_iff` : invitations are never refused wrongly in a run exactly if the table is never full
  when it holds an ended session or the invitation re-offers a session.
-/

namespace Boru.ScreenShare

namespace SessionManager

variable {m : SessionManager} {peer : PublicKey} {hello : Hello}

section

variable (m : SessionManager) (peer : PublicKey) (hello : Hello)

def active : ℕ := m.sessions.countValues fun record => record.state ≠ .ended

/-- A valid invitation of the peer that it names as the host. -/
def Authorised : Prop :=
  (ControlMessage.hello hello).validate = .ok () ∧ hello.hostId = peer

/-- The invitation re-offers a session that goes on. -/
def Reconnects : Prop :=
  hello.hostId = peer ∧ hello.permission = .viewOnly ∧
    ∃ record, m.sessions.lookup hello.sessionId = some record ∧ record.reoffered peer = true

/-- The answer to an invitation there is no room for. -/
def unavailable (id : SessionId) : ControlMessage :=
  .reject protocolVersion id "session is not available"

/-- No invitation is refused for lack of capacity while fewer than `MAX_ACTIVE_SESSIONS` sessions go
on, or if it re-offers one of them. -/
def Admits : SessionOperation → Prop
  | .applyRemote now peer (.hello hello) =>
    (Authorised peer hello ∧ m.active < maxActiveSessions) ∨ m.Reconnects peer hello →
      (m.applyRemote now peer (.hello hello)).message ≠ some (unavailable hello.sessionId)
  | _ => True

/-- The table is full, and an invitation finds an ended session in it or re-offers a session. -/
def Exhausted : SessionOperation → Prop
  | .applyRemote _ peer (.hello hello) =>
    maxActiveSessions ≤ m.sessions.size ∧
      ((Authorised peer hello ∧ ∃ id, m.state id = some .ended) ∨ m.Reconnects peer hello)
  | _ => False

end

/-! ### The table is bounded -/

/-- At most `MAX_ACTIVE_SESSIONS` records, none of them of the zero session. -/
structure Bounded (m : SessionManager) : Prop where
  size_le : m.sessions.size ≤ maxActiveSessions
  zero_notMem : SessionId.zero ∉ m.sessions

theorem bounded_new : new.Bounded := ⟨Nat.zero_le _, AList.notMem_empty _⟩

theorem Bounded.of_recordChange {m' : SessionManager} (h : m.Bounded)
    (hc : m.RecordChange m'.sessions) : m'.Bounded := by
  obtain ⟨sessions, permissions⟩ := m'
  cases hc with
  | keep => exact ⟨h.size_le, h.zero_notMem⟩
  | @update id record record' hr =>
    have hmem : id ∈ m.sessions := AList.lookup_isSome.1 (by rw [hr]; rfl)
    refine ⟨(HashMap.size_insert_of_mem hmem).trans_le h.size_le, fun hz => ?_⟩
    obtain heq | hz := (AList.mem_insert _).1 hz
    · exact h.zero_notMem (heq ▸ hmem)
    · exact h.zero_notMem hz
  | remove id =>
    exact ⟨(HashMap.size_erase_le _ id).trans h.size_le,
      fun hz => h.zero_notMem (AList.mem_erase.1 hz).2⟩
  | add hid hs =>
    refine ⟨(HashMap.size_insert_le _ _ _).trans hs, fun hz => ?_⟩
    obtain heq | hz := (AList.mem_insert _).1 hz
    · exact hid heq.symm
    · exact h.zero_notMem hz

theorem bounded_exec (ops : List SessionOperation) : (sessionMachine.exec new ops).Bounded :=
  Machine.exec_invariant bounded_new (fun _ op h => h.of_recordChange (recordChange_perform op)) ops

/-! ### Invitations that are refused -/

/-- With a full table, fewer sessions go on than it holds iff one of them has ended. -/
theorem Bounded.active_lt_iff (h : m.Bounded) (hf : maxActiveSessions ≤ m.sessions.size) :
    m.active < maxActiveSessions ↔ ∃ id, m.state id = some .ended := by
  rw [← Nat.le_antisymm h.size_le hf, active, HashMap.countValues_lt_size_iff]
  simp [state]

/-- An invitation to a session is refused for lack of capacity iff the table is full. -/
theorem unavailable_iff (hid : hello.sessionId ≠ .zero) :
    (m.applyHello peer hello).message = some (unavailable hello.sessionId) ↔
      maxActiveSessions ≤ m.sessions.size := by
  unfold applyHello unavailable
  split
  next hfull => simpa [refuse] using hfull.resolve_left hid
  next hroom =>
    have hs := (not_or.1 hroom).2
    refine iff_of_false ?_ hs
    split
    · simp [refuse]
    split
    · simp [refuse]
    split
    · split <;> simp [refuse]
    · simp

theorem Reconnects.sessionId_ne_zero (hm : m.Bounded) (h : m.Reconnects peer hello) :
    hello.sessionId ≠ .zero := by
  obtain ⟨-, -, record, hr, -⟩ := h
  intro hz
  have hmem : hello.sessionId ∈ m.sessions := AList.lookup_isSome.1 (by rw [hr]; rfl)
  exact hm.zero_notMem (hz ▸ hmem)

theorem admits_iff_not_exhausted (hm : m.Bounded) (op : SessionOperation) :
    m.Admits op ↔ ¬ m.Exhausted op := by
  unfold Admits Exhausted
  split
  next now peer hello =>
    by_cases hid : hello.sessionId = .zero
    · -- no session has this identifier
      have ha : ¬ Authorised peer hello := fun h => Hello.sessionId_ne_zero h.1 hid
      have hre : ¬ m.Reconnects peer hello := fun h => h.sessionId_ne_zero hm hid
      simp [ha, hre]
    · rw [applyRemote, Ne, unavailable_iff hid]
      by_cases hf : maxActiveSessions ≤ m.sessions.size
      · simp [hf, hm.active_lt_iff hf]
      · simp [hf]
  · simp

end SessionManager

open SessionManager

/-- **Capacity is exhausted by what is over.**  In a run of the manager no invitation is refused
wrongly for lack of capacity exactly if none comes while the table is full and holds an ended
session, or re-offers a session while the table is full. -/
theorem admits_iff (ops : List SessionOperation) :
    sessionMachine.Along Admits .new ops ↔
      sessionMachine.Along (fun m op => ¬ m.Exhausted op) .new ops :=
  Machine.along_congr_of_invariant bounded_new (fun _ op hm => admits_iff_not_exhausted hm op)
    fun _ op hm _ => hm.of_recordChange (recordChange_perform op)

def sampleSession (n : UInt8) : SessionId := GroupEncryption.Block.replicate 16 n

/-- A peer that shares its screen. -/
def sampleHost : PublicKey := GroupEncryption.Block.replicate 32 1

/-- Its invitation to the session with the given number. -/
def sampleHello (n : UInt8) : Hello where
  version := protocolVersion
  sessionId := sampleSession n
  hostId := sampleHost
  conversationId := 0
  codecs := []
  width := 640
  height := 480
  frameRate := 30
  permission := .viewOnly

/-- The peer shares its screen and stops, once for each number. -/
def shareAndEnd (ns : List UInt8) : List SessionOperation :=
  ns.flatMap fun n =>
    [.applyRemote 0 sampleHost (.hello (sampleHello n)),
      .applyRemote 0 sampleHost (.endSession protocolVersion (sampleSession n))]

/-- After eight sessions that have ended none goes on, and the ninth invitation is refused. -/
theorem ended_sessions_exhaust :
    (sessionMachine.exec .new (shareAndEnd [1, 2, 3, 4, 5, 6, 7, 8])).active = 0 ∧
      ¬ sessionMachine.Along Admits .new (shareAndEnd [1, 2, 3, 4, 5, 6, 7, 8, 9]) := by
  have ha : (sessionMachine.exec .new (shareAndEnd [1, 2, 3, 4, 5, 6, 7, 8])).active = 0 := by
    decide
  have hau : Authorised sampleHost (sampleHello 9) := ⟨by decide, rfl⟩
  refine ⟨ha, fun h => ?_⟩
  rw [show shareAndEnd [1, 2, 3, 4, 5, 6, 7, 8, 9] =
    shareAndEnd [1, 2, 3, 4, 5, 6, 7, 8] ++ shareAndEnd [9] from rfl, Machine.along_append] at h
  have hn := h.2.1
  refine hn (.inl ⟨hau, ?_⟩) (by decide)
  decide

end Boru.ScreenShare
