import Mathlib.Algebra.Order.Ring.Nat
import Mathlib.Data.List.Basic

/-!
# Lists in pieces

`chunks n xs` cuts a list into pieces of length `n`, of which the last one may be shorter.  Put
together the pieces are the list (`flatten_chunks`), and there are `divCeil xs.length n` of them
(`length_chunks`).
-/

namespace Boru

/-- `chunks(n)`: the list cut into pieces of length `n`, the last one possibly shorter.  The fuel
is the length of the list. -/
def chunksAux {α : Type} (n : ℕ) : ℕ → List α → List (List α)
  | 0, _ => []
  | fuel + 1, xs => if xs.isEmpty then [] else xs.take n :: chunksAux n fuel (xs.drop n)

@[inherit_doc chunksAux]
def chunks {α : Type} (n : ℕ) (xs : List α) : List (List α) :=
  -- `chunks(0)` panics, and there are no pieces
  if n = 0 then [] else chunksAux n xs.length xs

/-- `div_ceil`: the quotient, rounded up.  Dividing by zero panics. -/
def divCeil (a b : ℕ) : Option ℕ :=
  if b = 0 then none else some (if 0 < a % b then a / b + 1 else a / b)

variable {α : Type} {n : ℕ}

/-- Only the empty list is cut into no pieces. -/
theorem chunks_eq_nil_iff (hn : 0 < n) {xs : List α} : chunks n xs = [] ↔ xs = [] := by
  rw [chunks, if_neg hn.ne']
  cases xs <;> simp [chunksAux]

/-- More fuel than elements changes nothing. -/
theorem chunksAux_of_le (hn : 0 < n) {fuel : ℕ} {xs : List α} (h : xs.length ≤ fuel) :
    chunksAux n fuel xs = chunksAux n xs.length xs := by
  induction fuel using Nat.strong_induction_on generalizing xs with
  | _ fuel ih =>
    cases xs with
    | nil => cases fuel <;> simp [chunksAux]
    | cons x xs =>
      obtain ⟨fuel, rfl⟩ := Nat.exists_eq_add_one_of_ne_zero (Nat.ne_zero_of_lt h)
      rw [List.length_cons] at h ⊢
      have hd : ((x :: xs).drop n).length ≤ xs.length := by
        rw [List.length_drop, List.length_cons]; omega
      simp only [chunksAux]
      rw [ih fuel (Nat.lt_succ_self _) (hd.trans (Nat.le_of_succ_le_succ h)),
        ← ih xs.length (Nat.lt_of_succ_le h) hd]

/-- The first piece, and the pieces of the rest. -/
theorem chunks_of_ne_nil (hn : 0 < n) {xs : List α} (h : xs ≠ []) :
    chunks n xs = xs.take n :: chunks n (xs.drop n) := by
  cases xs with
  | nil => exact absurd rfl h
  | cons x xs =>
    rw [chunks, chunks, if_neg hn.ne', if_neg hn.ne', List.length_cons, chunksAux,
      List.isEmpty_cons, if_neg Bool.false_ne_true]
    refine congrArg _ (chunksAux_of_le hn ?_)
    rw [List.length_drop, List.length_cons]
    omega

/-- Prove something of the pieces of every list, first piece by first piece. -/
theorem chunks_induction (hn : 0 < n) {P : List α → Prop} (hnil : P [])
    (hstep : ∀ xs, xs ≠ [] → P (xs.drop n) → P xs) (xs : List α) : P xs := by
  induction hlen : xs.length using Nat.strong_induction_on generalizing xs with
  | _ len ih =>
    by_cases h : xs = []
    · exact h ▸ hnil
    · have hpos := List.length_pos_of_ne_nil h
      exact hstep xs h (ih _ (by rw [List.length_drop]; omega) _ rfl)

@[simp] theorem chunks_nil (n : ℕ) : chunks n ([] : List α) = [] := by
  rw [chunks]
  split_ifs <;> rfl

/-- Put together, the pieces are the list. -/
theorem flatten_chunks (hn : 0 < n) (xs : List α) : (chunks n xs).flatten = xs := by
  induction xs using chunks_induction hn with
  | hnil => simp
  | hstep xs h ih => rw [chunks_of_ne_nil hn h, List.flatten_cons, ih, List.take_append_drop]

theorem length_le_of_mem_chunks (hn : 0 < n) {xs ck : List α} (h : ck ∈ chunks n xs) :
    ck.length ≤ n := by
  induction xs using chunks_induction hn with
  | hnil => simp at h
  | hstep xs hne ih =>
    rw [chunks_of_ne_nil hn hne, List.mem_cons] at h
    rcases h with rfl | h
    · exact List.length_take_le _ _
    · exact ih h

theorem length_chunks_le_iff (hn : 0 < n) {xs : List α} {k : ℕ} :
    (chunks n xs).length ≤ k ↔ xs.length ≤ k * n := by
  induction xs using chunks_induction hn generalizing k with
  | hnil => simp
  | hstep xs h ih =>
    rw [chunks_of_ne_nil hn h, List.length_cons]
    cases k with
    | zero => simpa using h
    | succ k => rw [Nat.succ_le_succ_iff, ih, List.length_drop, Nat.succ_mul]; omega

/-- The least number of pieces of length `b` that hold `a` elements. -/
theorem divCeil_le_iff {a b k : ℕ} (hb : 0 < b) :
    (if 0 < a % b then a / b + 1 else a / b) ≤ k ↔ a ≤ k * b := by
  split_ifs with hr
  · rw [Nat.succ_le_iff, Nat.div_lt_iff_lt_mul hb]
    refine ⟨Nat.le_of_lt, fun h => lt_of_le_of_ne h ?_⟩
    rintro rfl
    exact hr.ne' (Nat.mul_mod_left k b)
  · have hd := Nat.dvd_of_mod_eq_zero (Nat.eq_zero_of_not_pos hr)
    conv_rhs => rw [← Nat.div_mul_cancel hd]
    exact (Nat.mul_le_mul_right_iff hb).symm

/-- There are as many pieces as the quotient says. -/
theorem divCeil_length (hn : 0 < n) (xs : List α) :
    divCeil xs.length n = some (chunks n xs).length := by
  rw [divCeil, if_neg hn.ne']
  refine congrArg some (eq_of_forall_ge_iff fun k => ?_)
  rw [divCeil_le_iff hn, length_chunks_le_iff hn]

end Boru
