import Mathlib.Algebra.Order.BigOperators.Group.List
import Mathlib.Data.Nat.Log
import Boru.Proto.Plumtree.Spec
import Boru.Proto.Topic.State

/-!
# The size of announcements

A dispatch cuts the announcements queued for a peer into messages.  It reserves one byte for the
kind of the message, two for the length of the list and the largest size of an announcement for
each element, but the length of a list of 2¹⁴ announcements takes three bytes.

## Main results

* `dispatch_fits_iff` : all messages fit exactly if the reserved bytes, with those the division
  leaves over, hold the length of a full list.
* `dispatch_too_large` : a queue for which a message is one byte too large.
-/

namespace Boru.Plumtree

open Topic (minMaxMessageSize postcardHeaderSize)

/-- The encoded size of a number: seven bits in every byte. -/
def varintSize (n : ℕ) : ℕ := 1 + Nat.log 128 n

/-- The encoded size of an announcement. -/
def iHaveSize (iHave : IHave) : ℕ := 32 + varintSize iHave.round.toNat

/-- The encoded size of a wire message: the header, the kind, the length and the elements. -/
def iHaveMessageSize (chunk : List IHave) : ℕ :=
  postcardHeaderSize + 1 + varintSize chunk.length + (chunk.map iHaveSize).sum

variable {PI : Type} [LinearOrder PI]

/-- The announcements that the events send to a peer. -/
def announcedTo (p : PI) (events : List (OutEvent PI)) : List IHave :=
  events.flatMap fun
    | .sendMessage peer (.iHave chunk) => if peer = p then chunk else []
    | _ => []

/-- The number of announcements in a message, when messages have `size` bytes. -/
def chunkLen (size : ℕ) : ℕ := (size - postcardHeaderSize - 1 - 2) / IHave.postcardMaxSize

/-- A dispatch of the queue of `s` does not panic, sends every peer its announcements in order,
leaves an empty queue, and no message is larger than `size`. -/
structure Dispatches (size : ℕ) (s : State PI) : Prop where
  /-- No subtraction goes below zero, and the list is not cut into empty pieces. -/
  room : 1 + 2 + IHave.postcardMaxSize ≤ s.maxMessageSize
  queue : (Act.onDispatchTimer ⟨s, []⟩).lazyPushQueue = ∅
  announced : ∀ p, announcedTo p (Act.onDispatchTimer ⟨s, []⟩).io = (s.lazyPushQueue.get p).getD []
  fits : ∀ p chunk, .sendMessage p (.iHave chunk) ∈ (Act.onDispatchTimer ⟨s, []⟩).io →
    iHaveMessageSize chunk ≤ size

theorem iHaveSize_le (ih : IHave) : iHaveSize ih ≤ IHave.postcardMaxSize := by
  have hr : ih.round.toNat ≤ 65535 := Nat.le_of_lt_succ ih.round.toNat_lt
  have hl : Nat.log 128 ih.round.toNat ≤ Nat.log 128 65535 := Nat.log_mono_right hr
  have hm : Nat.log 128 65535 = 2 := by decide +kernel
  unfold iHaveSize varintSize IHave.postcardMaxSize
  omega

/-- A list of at most `n` announcements is not larger than `n` of the largest ones. -/
theorem iHaveMessageSize_le {n : ℕ} {ck : List IHave} (h : ck.length ≤ n) :
    iHaveMessageSize ck ≤ postcardHeaderSize + 1 + varintSize n + n * IHave.postcardMaxSize := by
  have hsu : (ck.map iHaveSize).sum ≤ ck.length * IHave.postcardMaxSize := by
    have := List.sum_le_card_nsmul (ck.map iHaveSize) IHave.postcardMaxSize fun x hx => by
      obtain ⟨iHave, -, rfl⟩ := List.mem_map.1 hx
      exact iHaveSize_le iHave
    simpa using this
  have hlen : varintSize ck.length ≤ varintSize n :=
    Nat.add_le_add_left (Nat.log_mono_right h) 1
  exact Nat.add_le_add (Nat.add_le_add_left hlen _) (hsu.trans (Nat.mul_le_mul_right _ h))

/-- What the entries of a map hold for a key. -/
theorem flatMap_entries {α : Type} (m : BTreeMap PI (List α)) (p : PI) :
    (m.entries.flatMap fun e => if e.1 = p then e.2 else []) = (m.get p).getD [] := by
  obtain ⟨entries, sorted⟩ := m
  unfold BTreeMap.get
  induction entries with
  | nil => rfl
  | cons e entries ih =>
    obtain ⟨he, hso⟩ := List.pairwise_cons.1 sorted
    rw [List.flatMap_cons, ih hso, BTreeMap.getAux]
    by_cases hp : p = e.1
    · rw [BTreeMap.getAux_eq_none fun x hx => hp ▸ (he x hx).ne]
      simp [hp]
    · simp [hp, Ne.symm hp]

theorem announcedTo_announcements {c : Act PI}
    (h : 0 < (c.maxMessageSize - 1 - 2) / IHave.postcardMaxSize) (p : PI) :
    announcedTo p c.announcements = (c.lazyPushQueue.get p).getD [] := by
  rw [announcedTo, Act.announcements, List.flatMap_assoc, ← flatMap_entries]
  congr 1
  funext e
  rw [List.flatMap_map]
  by_cases he : e.1 = p
  · simp [he, List.flatMap_id', flatten_chunks h]
  · simp [he]

/-- The encoded length of a full list fits into the two bytes reserved for it and those that the
division leaves over. -/
def LengthFits (size : ℕ) : Prop :=
  varintSize (chunkLen size) ≤ 2 + (size - postcardHeaderSize - 1 - 2) % IHave.postcardMaxSize

instance (size : ℕ) : Decidable (LengthFits size) := inferInstanceAs (Decidable (_ ≤ _))

/-- As many of the largest announcements as go into a message. -/
def fullList (size : ℕ) : List IHave := List.replicate (chunkLen size) ⟨⟨0⟩, 65535⟩

variable {size : ℕ} {s : State PI} (hsize : minMaxMessageSize ≤ size)

include hsize

theorem chunkLen_pos : 0 < chunkLen size := by
  unfold minMaxMessageSize at hsize
  exact Nat.div_pos (by unfold postcardHeaderSize IHave.postcardMaxSize; omega) (by decide)

theorem lengthFits_iff : LengthFits size ↔ postcardHeaderSize + 1 + varintSize (chunkLen size) +
    chunkLen size * IHave.postcardMaxSize ≤ size := by
  have hd := Nat.div_add_mod' (size - postcardHeaderSize - 1 - 2) IHave.postcardMaxSize
  rw [← chunkLen] at hd
  unfold minMaxMessageSize at hsize
  unfold LengthFits postcardHeaderSize at *
  omega

variable (hs : s.maxMessageSize = size - postcardHeaderSize)

include hs

theorem LengthFits.dispatches (h : LengthFits size) : Dispatches size s := by
  have hpos : 0 < (s.maxMessageSize - 1 - 2) / IHave.postcardMaxSize := hs ▸ chunkLen_pos hsize
  refine ⟨?_, ?_, fun p => ?_, fun p chunk hm => ?_⟩
  · rw [hs]
    unfold minMaxMessageSize at hsize
    unfold postcardHeaderSize IHave.postcardMaxSize
    omega
  · rw [Act.onDispatchTimer_eq]
  · rw [Act.onDispatchTimer_eq]
    exact announcedTo_announcements hpos p
  · rw [Act.onDispatchTimer_eq] at hm
    obtain ⟨e, -, he⟩ := List.mem_flatMap.1 hm
    obtain ⟨chunk', hc, heq⟩ := List.mem_map.1 he
    cases heq
    have hlen := length_le_of_mem_chunks hpos hc
    rw [hs] at hlen
    exact (iHaveMessageSize_le hlen).trans ((lengthFits_iff hsize).1 h)

/-- A full list is one piece, and its message is the largest. -/
theorem Dispatches.lengthFits {p : PI} (hq : s.lazyPushQueue.entries = [(p, fullList size)])
    (h : Dispatches size s) : LengthFits size := by
  have hpos := chunkLen_pos hsize
  have hne : fullList size ≠ [] := by simpa [fullList] using hpos.ne'
  have hf := h.fits p (fullList size) <| by
    rw [Act.onDispatchTimer_eq]
    refine List.mem_flatMap.2 ⟨(p, fullList size), ?_, List.mem_map.2 ⟨_, ?_, rfl⟩⟩
    · exact hq ▸ List.mem_cons_self
    · rw [hs, ← chunkLen, chunks_of_ne_nil hpos hne]
      simp [fullList]
  have hl : iHaveSize ⟨⟨0⟩, 65535⟩ = IHave.postcardMaxSize := by decide +kernel
  refine (lengthFits_iff hsize).2 (le_trans (le_of_eq ?_) hf)
  simp only [iHaveMessageSize, fullList, List.length_replicate, List.map_replicate,
    List.sum_replicate, hl]
  rfl

omit hsize hs

/-- **When announcements fit into messages.**  For every configuration of a topic: the dispatch of
every queue does not panic, sends every peer its announcements in order, empties the queue and
sends no message larger than the configured size, exactly if the length of a full list fits. -/
theorem dispatch_fits_iff (p : PI) (config : Topic.Config) :
    (∀ s : State PI, s.maxMessageSize = config.maxMessageSize - postcardHeaderSize →
      Dispatches config.maxMessageSize s) ↔ LengthFits config.maxMessageSize := by
  constructor
  · intro h
    let s : State PI := .new p config.broadcast (config.maxMessageSize - postcardHeaderSize)
    have hf := h { s with lazyPushQueue :=
      ⟨[(p, fullList config.maxMessageSize)], List.pairwise_singleton _ _⟩ } rfl
    exact hf.lengthFits config.size_ok rfl rfl
  · exact fun h s hs => h.dispatches config.size_ok hs

/-- The length of 2¹⁴ announcements takes three bytes, and the message is one byte too large. -/
theorem dispatch_too_large :
    let config : Topic.Config := { maxMessageSize := 573476 }
    let s : State ℕ := .new 0 config.broadcast (config.maxMessageSize - postcardHeaderSize)
    ¬ Dispatches config.maxMessageSize { s with lazyPushQueue :=
      ⟨[(1, List.replicate 16384 ⟨⟨0⟩, 65535⟩)], List.pairwise_singleton _ _⟩ } := by
  intro config s h
  have hlen : chunkLen 573476 = 16384 := by decide +kernel
  have hf := h.lengthFits config.size_ok rfl (by rw [fullList, hlen])
  revert hf
  decide +kernel

end Boru.Plumtree
