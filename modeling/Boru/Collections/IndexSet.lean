import Mathlib.Data.Finset.Basic

/-!
# Insertion-ordered sets with random selection

`IndexSet` is the set both HyParView views are kept in: a wrapper around an insertion-ordered
hash set, with operations that select, remove or reorder elements at random.  The elements are a
duplicate-free list in index order, so removal by swapping with the last element is visible.

Randomness is a generator in the sense of `Rng`: a state from which a number below a bound can
be drawn.  All that is known of a draw is that it respects the bound, so a statement about every
`Rng` is a statement about every outcome of the random choices.

## Main results

* `IndexSet.mem_removeIndex` : removal by index removes exactly the element at that index.
* `IndexSet.mem_of_mem_removeRandom` : random removal adds nothing.
-/

namespace Boru

/-- A random number generator. -/
class Rng (R : Type*) where
  /-- `random_range(0..n)`: draw a number below `n`. -/
  randomRange : R → ℕ → ℕ × R
  /-- A draw respects its bound. -/
  randomRange_lt : ∀ (r : R) {n : ℕ}, 0 < n → (randomRange r n).1 < n

export Rng (randomRange randomRange_lt)

/-- The generator that plays back a fixed list of draws (reduced to the bound asked for). -/
instance : Rng (List ℕ) where
  randomRange r n := (r.headD 0 % n, r.tail)
  randomRange_lt _ _ hn := Nat.mod_lt _ hn

section Choice

variable {α R : Type*} [Rng R]

/-- `choose`: a random element, `none` for an empty iterator. -/
def choose (xs : List α) (rng : R) : Option α × R :=
  if xs.isEmpty then (none, rng)
  else (xs[(randomRange rng xs.length).1]?, (randomRange rng xs.length).2)

/-- The permutation drawn by `shuffle` for the first `n` positions. -/
def shuffleAux : ℕ → List α → R → List α × R
  | 0, xs, rng => (xs, rng)
  | n + 1, xs, rng =>
    let d := randomRange rng xs.length
    match xs[d.1]? with
    | none => (xs, d.2)
    | some x =>
      let rest := shuffleAux n (xs.eraseIdx d.1) d.2
      (x :: rest.1, rest.2)

/-- `shuffle`: all elements in random order. -/
def shuffle (xs : List α) (rng : R) : List α × R := shuffleAux xs.length xs rng

end Choice

/-- A set whose elements are numbered in the order of insertion. -/
structure IndexSet (α : Type*) where
  items : List α
  /-- No element occurs twice. -/
  nodup : items.Nodup

namespace IndexSet

variable {α R : Type*}

instance : Membership α (IndexSet α) := ⟨fun s x => x ∈ s.items⟩

variable {s : IndexSet α} {x : α}

theorem mem_def : x ∈ s ↔ x ∈ s.items := Iff.rfl

instance [DecidableEq α] (s : IndexSet α) (x : α) : Decidable (x ∈ s) :=
  inferInstanceAs (Decidable (x ∈ s.items))

def new : IndexSet α := ⟨[], List.nodup_nil⟩

def len (s : IndexSet α) : ℕ := s.items.length

/-- Whether the set has no elements. -/
def isEmpty (s : IndexSet α) : Bool := s.items.isEmpty

/-- Insert at the end; `true` if the element was not there before. -/
def insert [DecidableEq α] (s : IndexSet α) (x : α) : Bool × IndexSet α :=
  if h : x ∈ s.items then (false, s)
  else (true, ⟨s.items ++ [x], by
    rw [List.nodup_append]
    exact ⟨s.nodup, List.nodup_singleton x, fun a ha b hb => by
      rw [List.mem_singleton] at hb; subst hb; rintro rfl; exact h ha⟩⟩)

/-- The elements left when index `i` is overwritten by the last element, which is popped. -/
def swapRemoveIdx (xs : List α) (i : ℕ) : List α :=
  match xs.getLast? with
  | none => []
  | some z => (xs.set i z).dropLast

variable {i : ℕ}

theorem swapRemoveIdx_perm {xs : List α} (h : i < xs.length) :
    (swapRemoveIdx xs i).Perm (xs.eraseIdx i) := by
  rcases List.eq_nil_or_concat xs with rfl | ⟨init, z, rfl⟩
  · simp at h
  · simp only [List.concat_eq_append] at h ⊢
    have hl : (init ++ [z]).getLast? = some z := by simp
    simp only [swapRemoveIdx, hl]
    by_cases hi : i < init.length
    · rw [List.set_append_left _ _ hi, List.dropLast_concat, List.eraseIdx_append_of_lt_length hi]
      exact (List.set_perm_cons_eraseIdx hi z).trans (List.perm_append_singleton _ _).symm
    · have hi' : i = init.length := by simp at h; omega
      subst hi'
      simp [List.eraseIdx_append_of_length_le]

theorem nodup_swapRemoveIdx {xs : List α} (hn : xs.Nodup) (h : i < xs.length) :
    (swapRemoveIdx xs i).Nodup :=
  (swapRemoveIdx_perm h).nodup_iff.2 (hn.eraseIdx i)

/-- `swap_remove_index`: remove the element at an index, moving the last element there. -/
def removeIndex (s : IndexSet α) (i : ℕ) : Option α × IndexSet α :=
  if h : i < s.items.length then
    (some (s.items[i]), ⟨swapRemoveIdx s.items i, nodup_swapRemoveIdx s.nodup h⟩)
  else (none, s)

def getIndexOf [DecidableEq α] (s : IndexSet α) (x : α) : Option ℕ :=
  if x ∈ s.items then some (s.items.idxOf x) else none

/-- `swap_remove`: remove an element, moving the last element to its index. -/
def remove [DecidableEq α] (s : IndexSet α) (x : α) : Option α × IndexSet α :=
  match s.getIndexOf x with
  | none => (none, s)
  | some i => s.removeIndex i

/-- `shift_remove_index`: remove the element at an index, keeping the order of the others. -/
def shiftRemoveIndex (s : IndexSet α) (i : ℕ) : Option α × IndexSet α :=
  (s.items[i]?, ⟨s.items.eraseIdx i, s.nodup.eraseIdx i⟩)

/-- The elements in index order, skipping `x`. -/
def iterWithout [DecidableEq α] (s : IndexSet α) (x : α) : List α := s.items.filter (· ≠ x)

section Random

variable [Rng R]

section

variable (s : IndexSet α) (len : ℕ) (rng : R)

/-- A random index, `none` for the empty set. -/
def pickRandomIndex : Option ℕ × R :=
  if s.isEmpty then (none, rng)
  else (some (randomRange rng s.len).1, (randomRange rng s.len).2)

def removeRandom : (Option α × IndexSet α) × R :=
  match s.pickRandomIndex rng with
  | (none, rng) => ((none, s), rng)
  | (some i, rng) => (s.shiftRemoveIndex i, rng)

def pickRandom : Option α × R :=
  match s.pickRandomIndex rng with
  | (none, rng) => (none, rng)
  | (some i, rng) => (s.items[i]?, rng)

/-- A random element, but none of `without`. -/
def pickRandomWithout [DecidableEq α] (s : IndexSet α) (without : Finset α) (rng : R) :
    Option α × R :=
  choose (s.items.filter (· ∉ without)) rng

/-- All elements in random order. -/
def shuffled : List α × R := shuffle s.items rng

/-- The first `len` elements of a random order. -/
def shuffledAndCapped : List α × R :=
  ((s.shuffled rng).1.take len, (s.shuffled rng).2)

/-- All elements but those of `without`, in random order. -/
def shuffledWithout [DecidableEq α] (s : IndexSet α) (without : Finset α) (rng : R) : List α × R :=
  shuffle (s.items.filter (· ∉ without)) rng

/-- The first `len` elements of a random order that omits `without`. -/
def shuffledWithoutAndCapped [DecidableEq α] (s : IndexSet α) (without : Finset α) (len : ℕ)
    (rng : R) : List α × R :=
  ((s.shuffledWithout without rng).1.take len, (s.shuffledWithout without rng).2)

end

end Random

/-! ### Membership and size -/

@[simp] theorem not_mem_new (x : α) : x ∉ (new : IndexSet α) := List.not_mem_nil

theorem isEmpty_iff : s.isEmpty = true ↔ s.items = [] := List.isEmpty_iff

section

variable [DecidableEq α] {s : IndexSet α} {x y : α}

@[simp] theorem insert_fst : (s.insert x).1 = decide (x ∉ s) := by
  unfold insert; split_ifs with h <;> simp [mem_def, h]

@[simp] theorem mem_insert : y ∈ (s.insert x).2 ↔ y = x ∨ y ∈ s := by
  unfold insert
  split_ifs with h
  · exact ⟨.inr, fun hy => hy.elim (fun e => e ▸ h) id⟩
  · simp [mem_def, or_comm]

theorem len_insert_le : (s.insert x).2.len ≤ s.len + 1 := by
  unfold insert; split_ifs <;> simp [len]

theorem getIndexOf_eq_some {i : ℕ} (h : s.getIndexOf x = some i) : s.items[i]? = some x := by
  unfold getIndexOf at h
  split_ifs at h with hx
  cases h
  exact List.getElem?_idxOf hx

theorem getIndexOf_eq_none : s.getIndexOf x = none ↔ x ∉ s := by
  unfold getIndexOf; split_ifs with h <;> simp [mem_def, h]

end

theorem removeIndex_fst (s : IndexSet α) (i : ℕ) : (s.removeIndex i).1 = s.items[i]? := by
  unfold removeIndex; split_ifs with h <;> simp [h]

theorem mem_removeIndex {y : α} (h : s.items[i]? = some x) :
    y ∈ (s.removeIndex i).2 ↔ y ∈ s ∧ y ≠ x := by
  obtain ⟨hi, rfl⟩ := List.getElem?_eq_some_iff.1 h
  simp only [removeIndex, hi, ↓reduceDIte, mem_def, (swapRemoveIdx_perm hi).mem_iff]
  rw [← (List.getElem_cons_eraseIdx_perm hi).mem_iff, List.mem_cons]
  have hnd := (List.getElem_cons_eraseIdx_perm hi).nodup_iff.2 s.nodup
  have hni := (List.nodup_cons.1 hnd).1
  constructor
  · intro hy
    exact ⟨.inr hy, fun e => hni (e ▸ hy)⟩
  · rintro ⟨hy | hy, hne⟩
    · exact absurd hy hne
    · exact hy

theorem len_removeIndex (h : i < s.len) : (s.removeIndex i).2.len = s.len - 1 := by
  unfold len at h
  simp only [removeIndex, h, ↓reduceDIte, len, (swapRemoveIdx_perm h).length_eq]
  exact List.length_eraseIdx_of_lt h

theorem mem_remove [DecidableEq α] {y : α} : y ∈ (s.remove x).2 ↔ y ∈ s ∧ y ≠ x := by
  unfold remove
  split
  · rename_i h
    have hx := getIndexOf_eq_none.1 h
    exact ⟨fun hy => ⟨hy, fun e => hx (e ▸ hy)⟩, And.left⟩
  · rename_i i h
    exact mem_removeIndex (getIndexOf_eq_some h)

theorem len_remove_le [DecidableEq α] : (s.remove x).2.len ≤ s.len := by
  unfold remove
  split
  · exact Nat.le_refl _
  · rename_i i h
    obtain ⟨hi, -⟩ := List.getElem?_eq_some_iff.1 (getIndexOf_eq_some h)
    rw [len_removeIndex hi]; exact Nat.sub_le _ _

section Random

variable [Rng R]

variable {s : IndexSet α} {rng : R}

theorem pickRandomIndex_lt {i : ℕ} (h : (s.pickRandomIndex rng).1 = some i) : i < s.len := by
  unfold pickRandomIndex at h
  split_ifs at h with he
  cases h
  refine randomRange_lt rng (List.length_pos_of_ne_nil fun hn => he ?_)
  rw [isEmpty_iff]; exact hn

theorem pickRandomIndex_eq_none : (s.pickRandomIndex rng).1 = none ↔ s.items = [] := by
  unfold pickRandomIndex; split_ifs with he <;> simp_all [isEmpty_iff]

theorem mem_of_mem_removeRandom {y : α} (h : y ∈ (s.removeRandom rng).1.2) : y ∈ s := by
  unfold removeRandom at h
  split at h
  · exact h
  · exact List.mem_of_mem_eraseIdx h

theorem len_removeRandom_le : (s.removeRandom rng).1.2.len ≤ s.len - 1 := by
  unfold removeRandom
  split
  · rename_i rng' h
    have : s.items = [] := pickRandomIndex_eq_none.1 (congrArg Prod.fst h)
    simp [len, this]
  · rename_i i rng' h
    have hi : i < s.items.length := pickRandomIndex_lt (congrArg Prod.fst h)
    simp [shiftRemoveIndex, len, List.length_eraseIdx_of_lt hi]

end Random

end IndexSet

end Boru
