import Boru.Proto.Plumtree.Delivery

/-!
# Arithmetic on rounds

Rounds are 16-bit numbers that come from other peers.  The round of a new message is increased, and
compared with the largest round seen and with the rounds of announcements.  A build that checks
arithmetic panics on overflow, and any other one wraps around.

## Main results

* `rounds_safe_iff` : the runs in which no operation overflows.
* `last_round_overflows` : a message whose round cannot be increased.
-/

namespace Boru.Plumtree

variable {PI : Type} [LinearOrder PI] {blake3 : Bytes → MessageId}

inductive RoundOp where
  | add (a b : Round)
  | sub (a b : Round)

/-- The result of the operation is a round. -/
def RoundOp.Safe : RoundOp → Prop
  | .add a b => a.toNat + b.toNat < 2 ^ 16
  | .sub a b => b ≤ a

instance (op : RoundOp) : Decidable op.Safe := by
  cases op <;> unfold RoundOp.Safe <;> infer_instance

/-- The operations with which an event is handled: the test for a gap, the next round, and the
test whether an announcement has come over a shorter path. -/
def State.roundOps (blake3 : Bytes → MessageId) (s : State PI) (event : InEvent PI)
    (now : Instant) : List RoundOp :=
  match newDelivery blake3 (s.receivedAt now) event with
  | some ⟨content, _, .swarm prevRound⟩ =>
    .add s.maxSeenRound 1 :: .add prevRound 1 ::
      ((s.missingMessages.lookup (blake3 content)).bind bestIHave).toList.filterMap fun x =>
        if x.2 < prevRound.next then some (.sub prevRound.next x.2) else none
  | _ => []

def RoundsSafe (blake3 : Bytes → MessageId) (s : State PI) (i : InEvent PI × Instant) : Prop :=
  ∀ op ∈ s.roundOps blake3 i.1 i.2, op.Safe

instance (s : State PI) (i : InEvent PI × Instant) : Decidable (RoundsSafe blake3 s i) :=
  inferInstanceAs (Decidable (∀ op ∈ _, _))

/-- The event does not deliver a swarm message with the largest round. -/
def BelowLast (blake3 : Bytes → MessageId) (s : State PI) (i : InEvent PI × Instant) : Prop :=
  ∀ delivery, newDelivery blake3 (s.receivedAt i.2) i.1 = some delivery →
    delivery.scope ≠ .swarm 65535

theorem add_one_safe {r : Round} : RoundOp.Safe (.add r 1) ↔ r ≠ 65535 := by
  unfold RoundOp.Safe
  rw [Ne, ← UInt16.toNat_inj]
  have := r.toNat_lt
  simp
  omega

theorem roundsSafe_iff {s : State PI} (h : s.maxSeenRound ≠ 65535) (i : InEvent PI × Instant) :
    RoundsSafe blake3 s i ↔ BelowLast blake3 s i := by
  unfold RoundsSafe BelowLast State.roundOps
  cases hd : newDelivery blake3 (s.receivedAt i.2) i.1 with
  | none => simp
  | some delivery =>
    obtain ⟨content, sender, scope⟩ := delivery
    cases scope with
    | neighbors => simp
    | swarm round =>
      have hsub : ∀ op ∈ ((s.missingMessages.lookup (blake3 content)).bind
          bestIHave).toList.filterMap (fun x =>
            if x.2 < round.next then some (RoundOp.sub round.next x.2) else none), op.Safe := by
        intro op hop
        obtain ⟨x, -, hx⟩ := List.mem_filterMap.1 hop
        split_ifs at hx with hlt
        cases hx
        exact UInt16.le_of_lt hlt
      simpa [add_one_safe, h] using fun _ => hsub

/-- The largest round grows only with the round of a delivered message. -/
theorem maxSeenRound_ne {s : State PI} {i : InEvent PI × Instant} (h : s.maxSeenRound ≠ 65535)
    (hi : BelowLast blake3 s i) : (s.handle blake3 i.1 i.2).1.maxSeenRound ≠ 65535 := by
  rw [(s.handle_marks).2]
  unfold Act.nextMarks
  split
  · exact h
  · rename_i sender msg hev
    split_ifs with hv hr
    · exact h
    · exact h
    · split
      · exact h
      · rename_i round hs
        have hro : round ≠ 65535 := by
          have hl := hi (.fromMessage msg sender) (by simp_all [newDelivery])
          simpa [GossipEvent.fromMessage, hs] using hl
        change (if s.maxSeenRound ≤ round then round else s.maxSeenRound) ≠ 65535
        split_ifs
        · exact hro
        · exact h
  · exact h

/-- **When the arithmetic on rounds is safe.**  In every run from a new state, no operation
overflows exactly if no event delivers a swarm message with the largest round. -/
theorem rounds_safe_iff (blake3 : Bytes → MessageId) (me : PI) (config : Config)
    (maxMessageSize : ℕ) (inputs : List (InEvent PI × Instant)) :
    (machine blake3).Along (RoundsSafe blake3) (.new me config maxMessageSize) inputs ↔
      (machine blake3).Along (BelowLast blake3) (.new me config maxMessageSize) inputs :=
  Machine.along_congr_of_invariant (P := fun s => s.maxSeenRound ≠ 65535)
    (show (0 : Round) ≠ 65535 by decide)
    (fun _ i h => roundsSafe_iff h i) fun _ _ h hi => maxSeenRound_ne h hi

/-- The round of a message cannot be increased, and neither can the largest round after it. -/
theorem last_round_overflows :
    let blake3 : Bytes → MessageId := fun content => ⟨content.length⟩
    let s : State ℕ := .new 0 {} 4096
    let x := (InEvent.recvMessage 1 (.gossip ⟨⟨1⟩, [7], .swarm 65535⟩), 0)
    let y := (InEvent.recvMessage 1 (.gossip ⟨⟨2⟩, [7, 7], .swarm 0⟩), 1)
    ¬ RoundsSafe blake3 s x ∧ ¬ RoundsSafe blake3 ((machine blake3).step s x).1 y := by
  decide +kernel

end Boru.Plumtree
