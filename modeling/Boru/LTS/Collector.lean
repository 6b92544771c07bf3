import Mathlib.Algebra.Order.BigOperators.Group.Finset
import Boru.LTS.Basic

/-!
# Collecting the parts of a whole

A collector waits for every part of a whole.  The parts arrive in any order and any number of times,
each with the time of its arrival.  It gives up when a part arrives at its deadline or later, which
is some time after the first part, and it takes no part that would exceed its budget.

It outputs the whole at most once, and only if the parts together are within its budget and each of
them arrives before the deadline: `Collector.trace_eq_iff`.
-/

namespace Boru

structure Collector (ι : Type*) where
  parts : Finset ι
  /-- How much of the budget a part takes. -/
  size : ι → ℕ
  /-- What the parts that are kept may take. -/
  budget : ℕ
  /-- The time between the first part and the deadline. -/
  timeout : ℕ

namespace Collector

inductive State (ι : Type*) where
  /-- No part yet. -/
  | waiting
  /-- Some of the parts, and a deadline for the others. -/
  | collecting (deadline : ℕ) (received : Finset ι)
  /-- The whole was output, or the deadline has passed. -/
  | closed

/-- The arrivals before the deadline that the first one sets. -/
def punctual {ι : Type*} (timeout : ℕ) : List (ι × ℕ) → List (ι × ℕ)
  | [] => []
  | first :: rest => first :: rest.takeWhile fun arrival => arrival.2 < first.2 + timeout

variable {ι : Type*} [DecidableEq ι] (C : Collector ι)

/-- Output the whole if these are all parts. -/
def keep (deadline : ℕ) (received : Finset ι) : State ι × List Unit :=
  if received = C.parts then (.closed, [()]) else (.collecting deadline received, [])

def take (state : State ι) (part : ι) (now : ℕ) : State ι × List Unit :=
  -- a part that is too large by itself is not looked at
  if C.budget < C.size part then (state, [])
  else
    match state with
    | .waiting => C.keep (now + C.timeout) {part}
    | .collecting deadline received =>
      if deadline ≤ now then (.closed, [])
      else if part ∈ received then (.collecting deadline received, [])
      else if C.budget < ∑ i ∈ insert part received, C.size i then
        (.collecting deadline received, [])
      else C.keep deadline (insert part received)
    | .closed => (.closed, [])

def machine : Machine (State ι) (ι × ℕ) Unit where
  step state arrival := C.take state arrival.1 arrival.2

variable {C}

theorem keep_of_eq {received : Finset ι} (h : received = C.parts) (deadline : ℕ) :
    C.keep deadline received = (.closed, [()]) := if_pos h

theorem keep_of_ne {received : Finset ι} (h : received ≠ C.parts) (deadline : ℕ) :
    C.keep deadline received = (.collecting deadline received, []) := if_neg h

theorem take_of_lt {part : ι} (h : C.budget < C.size part) (state : State ι) (now : ℕ) :
    C.take state part now = (state, []) := by
  exact if_pos h

/-- The whole is output only if it is within the budget. -/
theorem take_of_budget_lt (h : C.budget < ∑ i ∈ C.parts, C.size i) (state : State ι) (part : ι)
    (now : ℕ) : (C.take state part now).2 = [] := by
  have hk : ∀ deadline received, ∑ i ∈ received, C.size i ≤ C.budget →
      (C.keep deadline received).2 = [] := by
    intro deadline received hle
    have hne : received ≠ C.parts := by
      rintro rfl
      exact hle.not_gt h
    rw [keep_of_ne hne]
  unfold take
  split_ifs with hs
  · rfl
  · cases state with
    | waiting => exact hk _ _ (by simpa using hs)
    | collecting deadline received =>
      dsimp only
      split_ifs with _ _ hsu
      · rfl
      · rfl
      · rfl
      · exact hk _ _ (Nat.le_of_not_lt hsu)
    | closed => rfl

theorem trace_of_budget_lt (h : C.budget < ∑ i ∈ C.parts, C.size i) (state : State ι)
    (arr : List (ι × ℕ)) : C.machine.trace state arr = [] := by
  induction arr generalizing state with
  | nil => rfl
  | cons arrival arr ih =>
    rw [Machine.trace_cons, ih, List.append_nil]
    exact take_of_budget_lt h state _ _

theorem trace_closed (arr : List (ι × ℕ)) : C.machine.trace .closed arr = [] := by
  induction arr with
  | nil => rfl
  | cons arrival arr ih =>
    have hstep : C.machine.step .closed arrival = (.closed, []) := by
      show C.take .closed arrival.1 arrival.2 = _
      unfold take
      split_ifs <;> rfl
    rw [Machine.trace_cons, hstep, ih]
    rfl

omit [DecidableEq ι] in
theorem size_le_of_mem (hbudget : ∑ i ∈ C.parts, C.size i ≤ C.budget) {part : ι}
    (h : part ∈ C.parts) : ¬ C.budget < C.size part :=
  Nat.not_lt.2 ((Finset.single_le_sum (fun _ _ => Nat.zero_le _) h).trans hbudget)

section Budget

variable (hbudget : ∑ i ∈ C.parts, C.size i ≤ C.budget) {received : Finset ι}
  (hsub : received ⊆ C.parts) (hne : received ≠ C.parts)

include hbudget hsub hne

/-- A part that is not late is kept, or was kept before. -/
theorem take_collecting {deadline now : ℕ} {part : ι} (hp : part ∈ C.parts) (hn : now < deadline) :
    C.take (.collecting deadline received) part now = C.keep deadline (insert part received) := by
  have hs : ∑ i ∈ insert part received, C.size i ≤ C.budget :=
    (Finset.sum_le_sum_of_subset (Finset.insert_subset hp hsub)).trans hbudget
  unfold take
  rw [if_neg (size_le_of_mem hbudget hp)]
  dsimp only
  rw [if_neg hn.not_ge]
  split_ifs with ho
  · rw [Finset.insert_eq_of_mem ho, keep_of_ne hne]
  · omega
  · rfl

/-- The whole is output iff the missing parts arrive before the deadline. -/
theorem trace_collecting (deadline : ℕ) {arr : List (ι × ℕ)}
    (ha : ∀ arrival ∈ arr, arrival.1 ∈ C.parts) :
    C.machine.trace (.collecting deadline received) arr = [()] ↔
      ∀ part ∈ C.parts, part ∈ received ∨
        ∃ arrival ∈ arr.takeWhile fun arrival => arrival.2 < deadline, arrival.1 = part := by
  have hm : ¬ ∀ part ∈ C.parts, part ∈ received := fun h => hne (hsub.antisymm h)
  induction arr generalizing received with
  | nil => simpa using hm
  | cons arrival arr ih =>
    obtain ⟨part, now⟩ := arrival
    have hp : part ∈ C.parts := ha (part, now) List.mem_cons_self
    have hr : ∀ arrival ∈ arr, arrival.1 ∈ C.parts := fun arrival h =>
      ha arrival (List.mem_cons_of_mem _ h)
    show (C.take (.collecting deadline received) part now).2 ++
      C.machine.trace (C.take (.collecting deadline received) part now).1 arr = _ ↔ _
    by_cases hn : now < deadline
    · rw [List.takeWhile_cons_of_pos (by simpa using hn), take_collecting hbudget hsub hne hp hn]
      by_cases hall : insert part received = C.parts
      · rw [keep_of_eq hall, trace_closed]
        refine iff_of_true rfl fun i hi => ?_
        rw [← hall, Finset.mem_insert] at hi
        exact hi.symm.imp_right fun h => ⟨(part, now), List.mem_cons_self, h.symm⟩
      · have hs' := Finset.insert_subset hp hsub
        have hih := ih hs' hall hr fun h => hall (hs'.antisymm h)
        rw [keep_of_ne hall]
        refine Iff.trans hih (forall₂_congr fun i hi => ?_)
        simp only [Finset.mem_insert, List.mem_cons, exists_eq_or_imp]
        tauto
    · have hl : C.take (.collecting deadline received) part now = (.closed, []) := by
        unfold take
        rw [if_neg (size_le_of_mem hbudget hp)]
        exact if_pos (Nat.le_of_not_lt hn)
      rw [List.takeWhile_cons_of_neg (by simpa using hn), hl, trace_closed]
      simpa using hm

end Budget

/-- **The whole is output** iff it is within the budget and all its parts arrive in time. -/
theorem trace_eq_iff (hp : C.parts.Nonempty) {arr : List (ι × ℕ)}
    (ha : ∀ arrival ∈ arr, arrival.1 ∈ C.parts) :
    C.machine.trace .waiting arr = [()] ↔ ∑ i ∈ C.parts, C.size i ≤ C.budget ∧
      ∀ part ∈ C.parts, ∃ arrival ∈ punctual C.timeout arr, arrival.1 = part := by
  by_cases hbudget : ∑ i ∈ C.parts, C.size i ≤ C.budget
  swap
  · rw [trace_of_budget_lt (Nat.lt_of_not_le hbudget)]
    exact iff_of_false nofun fun h => hbudget h.1
  rw [and_iff_right hbudget]
  cases arr with
  | nil =>
    obtain ⟨part, hpa⟩ := hp
    exact iff_of_false nofun fun h => by simpa [punctual] using h part hpa
  | cons first arr =>
    obtain ⟨part, now⟩ := first
    have hpa : part ∈ C.parts := ha (part, now) List.mem_cons_self
    have hr : ∀ arrival ∈ arr, arrival.1 ∈ C.parts := fun arrival h =>
      ha arrival (List.mem_cons_of_mem _ h)
    have hstep : C.machine.step .waiting (part, now) = C.keep (now + C.timeout) {part} := by
      exact if_neg (size_le_of_mem hbudget hpa)
    rw [Machine.trace_cons, hstep, punctual]
    by_cases hall : {part} = C.parts
    · rw [keep_of_eq hall, trace_closed]
      refine iff_of_true rfl fun i hi => ⟨(part, now), List.mem_cons_self, ?_⟩
      rw [← hall, Finset.mem_singleton] at hi
      exact hi.symm
    · rw [keep_of_ne hall, List.nil_append, trace_collecting hbudget
        (Finset.singleton_subset_iff.2 hpa) hall _ hr]
      simp only [Finset.mem_singleton, List.mem_cons, exists_eq_or_imp, eq_comm (a := part)]

end Collector

end Boru
