import Boru.GroupEncryption.Types

/-!
# Ordering of group messages

The orderer of a group.  Incoming messages are queued and become ready when all messages stored
before them have been processed; `nextReadyMessage` hands out the ready messages first in, first
out, but none before the welcome.  Our own messages are stored as well, but never become ready.

## Main results

* `OrderingState.cascade_fuel` : the recursion of `cascadeReady` needs no more fuel than it gets.
* `OrderingState.waiting_nextReadyMessage_lt` : every message handed out decreases the number of
  waiting messages, so draining the orderer ends.
-/

namespace Boru.GroupEncryption

structure OrderingState where
  clock : ℕ
  myId : PeerId
  /-- Queue of the messages whose dependencies are met. -/
  ready : List OpId
  /-- The messages that depend on a message. -/
  dependents : HashMap OpId (HashSet OpId)
  /-- The dependencies of a pending message. -/
  depsOf : HashMap OpId (List OpId)
  messages : HashMap OpId EncryptedGroupEnvelope
  /-- The welcome message that established this baseline. -/
  welcomeMessage : Option EncryptedGroupEnvelope

namespace OrderingState

def new (myId : PeerId) : OrderingState where
  clock := 1
  myId := myId
  ready := []
  dependents := ∅
  depsOf := ∅
  messages := ∅
  welcomeMessage := none

variable (y : OrderingState)

/-- Whether a message has been, or is about to be, processed: it is ready, it is the welcome, or
nothing is recorded of it. -/
def isProcessed (id : OpId) : Bool :=
  id ∈ y.ready || y.welcomeMessage.any (fun welcome => welcome.id = id) ||
    ((y.depsOf.lookup id).isNone && (y.dependents.lookup id).isNone &&
      (y.messages.lookup id).isNone)

def allDepsSatisfied (deps : List OpId) : Bool := deps.all y.isProcessed

/-- The dependencies of a message: all stored messages of others, itself excluded. -/
def extractDependencies (excludeId : OpId) : List OpId :=
  (y.messages.entries.filter fun e => e.1 ≠ excludeId ∧ e.2.sender ≠ y.myId).map (·.1)

/-- Promote a message if its dependencies are now satisfied, and then those that depend on it. -/
def promote (recurse : OrderingState → OpId → OrderingState) (y : OrderingState) (dep : OpId) :
    OrderingState :=
  match y.depsOf.lookup dep with
  | none => y
  | some deps =>
    if y.allDepsSatisfied deps then
      recurse { y with depsOf := y.depsOf.erase dep, ready := y.ready ++ [dep] } dep
    else y

/-- Promote the messages that depended on `key`.  Every promotion removes a pending message, so
their number bounds the depth of the recursion. -/
def cascade : ℕ → OrderingState → OpId → OrderingState
  | 0, y, _ => y
  | n + 1, y, key =>
    ((y.dependents.lookup key).getD ∅).keys.foldl (promote (cascade n))
      { y with dependents := y.dependents.erase key }

/-- After a message became ready or was consumed, promote the messages that waited for it. -/
def cascadeReady (key : OpId) : OrderingState :=
  cascade (y.depsOf.keys.length + 1) y key

def nextControlMessage (contentId : EncryptedGroupContent → OpId) (y : OrderingState)
    (control : ControlMessage) (directMessages : List Bytes) :
    OrderingState × EncryptedGroupEnvelope :=
  let envelope := .newControl contentId y.myId control directMessages
  -- stored for dependency tracking, but never ready
  ({ y with clock := y.clock + 1, messages := y.messages.insert envelope.id envelope }, envelope)

def nextApplicationMessage (contentId : EncryptedGroupContent → OpId) (y : OrderingState)
    (generation : UInt32) (ciphertext : Bytes) : OrderingState × EncryptedGroupEnvelope :=
  let envelope := .newApplication contentId y.myId ciphertext generation []
  ({ y with clock := y.clock + 1, messages := y.messages.insert envelope.id envelope }, envelope)

def queue (message : EncryptedGroupEnvelope) : OrderingState :=
  let id := message.id
  if message.sender = y.myId then y
  else if (y.messages.lookup id).isSome then y
  else
    let y := { y with messages := y.messages.insert id message }
    let deps := y.extractDependencies id
    if deps = [] then { y with ready := y.ready ++ [id] }
    else if y.allDepsSatisfied deps then
      cascadeReady { y with ready := y.ready ++ [id] } id
    else
      { y with
        depsOf := y.depsOf.insert id deps
        dependents := deps.foldl (fun m dep => m.upsert dep ∅ (·.insert id)) y.dependents }

/-- Mark a message as the welcome anchor. -/
def setWelcome (message : EncryptedGroupEnvelope) : OrderingState :=
  { y with welcomeMessage := some message, messages := y.messages.orInsert message.id message }

/-- Pop ready messages up to the first one that is neither the welcome nor consumed already. -/
def popReady (welcomeId : OpId) : OrderingState → List OpId →
    OrderingState × Option EncryptedGroupEnvelope
  | y, [] => ({ y with ready := [] }, none)
  | y, nextId :: rest =>
    let y := { y with ready := rest, depsOf := y.depsOf.erase nextId }
    if nextId = welcomeId then popReady welcomeId y rest
    else
      match y.messages.lookup nextId with
      | none => popReady welcomeId y rest
      | some message =>
        (cascadeReady { y with messages := y.messages.erase nextId } nextId, some message)

/-- The next ready message, none before the welcome. -/
def nextReadyMessage : OrderingState × Option EncryptedGroupEnvelope :=
  match y.welcomeMessage with
  | none => (y, none)
  | some welcome => popReady welcome.id y y.ready

/-- The messages the orderer hands out one after another. -/
def drain : ℕ → OrderingState → List EncryptedGroupEnvelope
  | 0, _ => []
  | n + 1, y =>
    match y.nextReadyMessage with
    | (_, none) => []
    | (y, some message) => message :: drain n y

/-! ### The number of waiting messages -/

/-- The number of messages that are ready or pending. -/
def waiting : ℕ := y.ready.length + y.depsOf.keys.length

theorem length_keys_erase_le (m : HashMap OpId (List OpId)) (id : OpId) :
    (AList.erase id m).keys.length ≤ m.keys.length := by
  rw [AList.keys_erase]
  exact List.length_erase_le

theorem length_keys_erase_lt {m : HashMap OpId (List OpId)} {id : OpId} {deps : List OpId}
    (h : m.lookup id = some deps) : (AList.erase id m).keys.length < m.keys.length := by
  have hmem : id ∈ m.keys := AList.lookup_isSome.1 (by rw [h]; rfl)
  rw [AList.keys_erase, List.length_erase_of_mem hmem]
  have := List.length_pos_of_mem hmem
  omega

/-- What every step of a cascade keeps holds after the cascade. -/
theorem cascade_induct {P : OrderingState → Prop}
    (hdr : ∀ y key, P y → P { y with dependents := y.dependents.erase key })
    (hp : ∀ y dep deps, P y → y.depsOf.lookup dep = some deps →
      P { y with depsOf := y.depsOf.erase dep, ready := y.ready ++ [dep] })
    (n : ℕ) {y : OrderingState} (h : P y) (key : OpId) : P (cascade n y key) := by
  induction n generalizing y key with
  | zero => exact h
  | succ n ih =>
    refine List.foldlRecOn _ _ (hdr y key h) ?_
    intro z hz dep _
    unfold promote
    split
    · exact hz
    · rename_i deps hd
      split_ifs
      · exact ih (hp z dep deps hz hd) dep
      · exact hz

theorem depsOf_cascade_le (n : ℕ) (y : OrderingState) (key : OpId) :
    (cascade n y key).depsOf.keys.length ≤ y.depsOf.keys.length := by
  refine cascade_induct (P := fun z => z.depsOf.keys.length ≤ y.depsOf.keys.length)
    (fun _ _ h => h) ?_ n le_rfl key
  intro z dep deps h _
  exact (length_keys_erase_le _ _).trans h

theorem waiting_cascade_le (n : ℕ) (y : OrderingState) (key : OpId) :
    (cascade n y key).waiting ≤ y.waiting := by
  refine cascade_induct (P := fun z => z.waiting ≤ y.waiting) (fun _ _ h => h) ?_ n le_rfl key
  intro z dep deps h hd
  have := length_keys_erase_lt hd
  simp only [waiting, List.length_append, List.length_singleton] at h ⊢
  omega

/-- **Enough fuel.**  More fuel than pending messages changes nothing. -/
theorem cascade_fuel {n : ℕ} {y : OrderingState} (h : y.depsOf.keys.length < n) (key : OpId) :
    cascade (n + 1) y key = cascade n y key := by
  induction n generalizing y key with
  | zero => omega
  | succ n ih =>
    -- the fold keeps the number of pending messages below the fuel
    have hf : ∀ (ids : List OpId) (y : OrderingState), y.depsOf.keys.length < n + 1 →
        ids.foldl (promote (cascade (n + 1))) y = ids.foldl (promote (cascade n)) y := by
      intro ids
      induction ids with
      | nil => exact fun _ _ => rfl
      | cons dep ids ihs =>
        intro y hy
        have hstep : promote (cascade (n + 1)) y dep = promote (cascade n) y dep ∧
            (promote (cascade n) y dep).depsOf.keys.length < n + 1 := by
          unfold promote
          cases hd : y.depsOf.lookup dep with
          | none => exact ⟨rfl, hy⟩
          | some deps =>
            have hlt := length_keys_erase_lt hd
            dsimp only
            split_ifs
            · exact ⟨ih (hlt.trans_le (Nat.le_of_lt_succ hy)) dep,
                (depsOf_cascade_le _ _ _).trans_lt (hlt.trans hy)⟩
            · exact ⟨rfl, hy⟩
        rw [List.foldl_cons, hstep.1]
        exact ihs _ hstep.2
    exact hf _ _ h

theorem waiting_popReady_lt {wi : OpId} {y : OrderingState} {ids : List OpId}
    {msg : EncryptedGroupEnvelope} (h : (popReady wi y ids).2 = some msg) :
    (popReady wi y ids).1.waiting < ids.length + y.depsOf.keys.length := by
  induction ids generalizing y with
  | nil => cases h
  | cons ni rest ih =>
    have hle := length_keys_erase_le y.depsOf ni
    simp only [popReady, List.length_cons] at h ⊢
    split_ifs at h ⊢ with hw
    · have := ih h
      simp only at this
      omega
    · split at h
      · have := ih h
        simp only at this
        omega
      · have := waiting_cascade_le ((AList.erase ni y.depsOf).keys.length + 1) { y with
            ready := rest, depsOf := y.depsOf.erase ni, messages := y.messages.erase ni }
          ni
        simp only [waiting, cascadeReady] at this ⊢
        omega

/-- Every message handed out decreases the number of waiting messages. -/
theorem waiting_nextReadyMessage_lt {y y' : OrderingState} {message : EncryptedGroupEnvelope}
    (h : y.nextReadyMessage = (y', some message)) : y'.waiting < y.waiting := by
  unfold nextReadyMessage at h
  split at h
  · cases h
  · rename_i welcome _
    have hp : (y.popReady welcome.id y.ready).2 = some message := by rw [h]
    have hlt := waiting_popReady_lt hp
    rwa [h] at hlt

end OrderingState

end Boru.GroupEncryption
