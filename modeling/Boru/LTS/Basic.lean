import Mathlib.Data.List.Basic

/-!
# Reactive machines

The protocol layers are IO-less state machines: the implementer injects one event at a time
and processes the events that come out.  A `Machine` is such a state machine, and every
statement about "all sequences of events" is a statement about `Machine.exec` and
`Machine.trace`.

## Main definitions

* `Machine S I O` : a step function `S → I → S × List O`.
* `Machine.exec s is` : the state after the inputs `is`.
* `Machine.trace s is` : the outputs of that run, in order.
* `Machine.Along G s is` : the guard `G` holds at every step of the run.
-/

namespace Boru

/-- A deterministic reactive machine with states `S`, inputs `I` and outputs `O`. -/
structure Machine (S I O : Type*) where
  /-- Consume one input: the next state and the outputs, in the order they were pushed. -/
  step : S → I → S × List O

namespace Machine

variable {S I O : Type*} (M : Machine S I O)

/-- The state after a sequence of inputs. -/
def exec (s : S) (is : List I) : S := is.foldl (fun s i => (M.step s i).1) s

/-- The outputs of a run, in order. -/
def trace : S → List I → List O
  | _, [] => []
  | s, i :: is => (M.step s i).2 ++ trace (M.step s i).1 is

/-- The guard `G` holds at every step of the run from `s` on `is`. -/
def Along (G : S → I → Prop) : S → List I → Prop
  | _, [] => True
  | s, i :: is => G s i ∧ Along G (M.step s i).1 is

variable {M}

@[simp] theorem exec_nil (s : S) : M.exec s [] = s := rfl

@[simp] theorem exec_cons (s : S) (i : I) (is : List I) :
    M.exec s (i :: is) = M.exec (M.step s i).1 is := rfl

theorem exec_append (s : S) (is js : List I) :
    M.exec s (is ++ js) = M.exec (M.exec s is) js := List.foldl_append

@[simp] theorem trace_nil (s : S) : M.trace s [] = [] := rfl

@[simp] theorem trace_cons (s : S) (i : I) (is : List I) :
    M.trace s (i :: is) = (M.step s i).2 ++ M.trace (M.step s i).1 is := rfl

theorem trace_append (s : S) (is js : List I) :
    M.trace s (is ++ js) = M.trace s is ++ M.trace (M.exec s is) js := by
  induction is generalizing s with
  | nil => rfl
  | cons i is ih => simp [ih]

@[simp] theorem along_nil (G : S → I → Prop) (s : S) : M.Along G s [] := trivial

variable {G : S → I → Prop} {s : S} {is : List I}

@[simp] theorem along_cons {i : I} :
    M.Along G s (i :: is) ↔ G s i ∧ M.Along G (M.step s i).1 is := Iff.rfl

instance decidableAlong {G : S → I → Prop} [∀ s i, Decidable (G s i)] :
    (s : S) → (is : List I) → Decidable (M.Along G s is)
  | _, [] => isTrue trivial
  | s, i :: is => @instDecidableAnd _ _ _ (decidableAlong (M.step s i).1 is)

variable {H : S → I → Prop}

theorem along_congr (h : ∀ s i, G s i ↔ H s i) (s : S) (is : List I) :
    M.Along G s is ↔ M.Along H s is := by
  induction is generalizing s with
  | nil => exact Iff.rfl
  | cons i is ih => exact and_congr (h s i) (ih _)

variable {P : S → Prop}

/-- Guards that agree on the states of an invariant, which the steps meeting one of them keep. -/
theorem along_congr_of_invariant (h₀ : P s) (h : ∀ s i, P s → (G s i ↔ H s i))
    (hstep : ∀ s i, P s → H s i → P (M.step s i).1) :
    M.Along G s is ↔ M.Along H s is := by
  induction is generalizing s with
  | nil => exact Iff.rfl
  | cons i is ih =>
    rw [along_cons, h s i h₀]
    exact and_congr_right fun hi => ih (hstep s i h₀ hi)

/-- A guard that implies another one on the states of an invariant, which its steps keep. -/
theorem Along.imp_of_invariant (hh : M.Along H s is) (h₀ : P s) (h : ∀ s i, P s → H s i → G s i)
    (hstep : ∀ s i, P s → H s i → P (M.step s i).1) : M.Along G s is := by
  induction is generalizing s with
  | nil => exact trivial
  | cons i is ih => exact ⟨h s i h₀ hh.1, ih hh.2 (hstep s i h₀ hh.1)⟩

theorem along_append {js : List I} :
    M.Along G s (is ++ js) ↔ M.Along G s is ∧ M.Along G (M.exec s is) js := by
  induction is generalizing s with
  | nil => exact (Iff.of_eq (true_and _)).symm
  | cons i is ih => exact (and_congr_right fun _ => ih).trans and_assoc.symm

/-- Two guards hold along a run together. -/
theorem Along.and (hg : M.Along G s is) (hh : M.Along H s is) :
    M.Along (fun s i => G s i ∧ H s i) s is := by
  induction is generalizing s with
  | nil => exact trivial
  | cons i is ih => exact ⟨⟨hg.1, hh.1⟩, ih hg.2 hh.2⟩

/-- A guard on the inputs alone holds along a run iff it holds of every input. -/
theorem along_of_forall {G : I → Prop} (h : ∀ i ∈ is, G i) (s : S) :
    M.Along (fun _ i => G i) s is := by
  induction is generalizing s with
  | nil => exact trivial
  | cons i is ih =>
    exact ⟨h i List.mem_cons_self, ih (fun j hj => h j (List.mem_cons_of_mem _ hj)) _⟩

/-- A property of every step holds along every run. -/
theorem along_of_step (h : ∀ s i, G s i) (s : S) (is : List I) : M.Along G s is := by
  induction is generalizing s with
  | nil => exact trivial
  | cons i is ih => exact ⟨h s i, ih _⟩

/-- **Guarded invariants.**  A predicate that holds initially and is preserved by every step
meeting the guard holds after every run that meets the guard. -/
theorem exec_invariant_along (hg : M.Along G s is) (h₀ : P s)
    (hstep : ∀ s i, G s i → P s → P (M.step s i).1) :
    P (M.exec s is) := by
  induction is generalizing s with
  | nil => exact h₀
  | cons i is ih => exact ih hg.2 (hstep s i hg.1 h₀)

/-- Every state of every run satisfies an inductive invariant. -/
theorem exec_invariant (h₀ : P s) (hstep : ∀ s i, P s → P (M.step s i).1) (is : List I) :
    P (M.exec s is) :=
  exec_invariant_along (G := fun _ _ => True) (along_of_forall (fun _ _ => trivial) s) h₀
    fun s i _ => hstep s i

variable {T : Type*}

/-- **Simulation of outputs.**  A machine `N` is simulated on the inputs `f j` if steps from related
states lead to related states with the outputs that `N` has, where `g` reads the outputs that
count. -/
theorem trace_simulation {J P Q : Type*} {N : Machine T J P} {R : S → T → Prop} (f : J → I)
    (g : O → Option Q) (k : P → Q) {js : List J} {t : T} (h₀ : R s t)
    (hstep : ∀ s t, ∀ j ∈ js, R s t → R (M.step s (f j)).1 (N.step t j).1 ∧
      (M.step s (f j)).2.filterMap g = (N.step t j).2.map k) :
    (M.trace s (js.map f)).filterMap g = (N.trace t js).map k := by
  induction js generalizing s t with
  | nil => rfl
  | cons j js ih =>
    obtain ⟨hn, hout⟩ := hstep s t j List.mem_cons_self h₀
    rw [List.map_cons, trace_cons, trace_cons, List.filterMap_append, List.map_append, hout,
      ih hn fun s t j hj => hstep s t j (List.mem_cons_of_mem _ hj)]

/-- A property that no step from `Q` undoes, and that exactly some steps bring about. -/
theorem exec_latch_iff {Q : S → Prop} (h₀ : Q s) (is : List I)
    (h : ∀ {s}, Q s → ∀ i, Q (M.step s i).1 ∧ (P (M.step s i).1 ↔ P s ∨ G s i)) :
    P (M.exec s is) ↔ P s ∨ ¬ M.Along (fun s i => ¬ G s i) s is := by
  induction is generalizing s with
  | nil => simp
  | cons i is ih =>
    obtain ⟨hq, hp⟩ := h h₀ i
    rw [exec_cons, ih hq, hp, along_cons, not_and_or, not_not, or_assoc]

/-- **Exact guards.**  If, from states satisfying `P`, a step meeting `Q` leads to `P` exactly when
it meets the guard, then `P` holds in all states of a run exactly when all its steps meet the
guard. -/
theorem forall_prefix_iff_along {Q : I → Prop} (h₀ : P s) (hq : ∀ i ∈ is, Q i)
    (hstep : ∀ s i, Q i → P s → (P (M.step s i).1 ↔ G s i)) :
    (∀ pre, pre <+: is → P (M.exec s pre)) ↔ M.Along G s is := by
  induction is generalizing s with
  | nil => simpa using h₀
  | cons i is ih =>
    have hi := hstep s i (hq i List.mem_cons_self) h₀
    have hih : P (M.step s i).1 → ((∀ pre, pre <+: is → P (M.exec (M.step s i).1 pre)) ↔
        M.Along G (M.step s i).1 is) := fun hP =>
      ih hP fun j hj => hq j (List.mem_cons_of_mem _ hj)
    constructor
    · intro h
      have hP : P (M.step s i).1 := h [i] (by simp)
      exact ⟨hi.1 hP, (hih hP).1 fun pre hp => h (i :: pre) (List.cons_prefix_cons.2 ⟨rfl, hp⟩)⟩
    · rintro ⟨hG, hr⟩ pre hp
      have hP := hi.2 hG
      cases pre with
      | nil => exact h₀
      | cons j pre =>
        obtain ⟨rfl, ht⟩ := List.cons_prefix_cons.1 hp
        exact (hih hP).2 hr pre ht

theorem trace_invariant_from {P : S → List O → Prop} (hi : List O) (hg : M.Along G s is)
    (h₀ : P s hi) (hstep : ∀ s h i, G s i → P s h → P (M.step s i).1 (h ++ (M.step s i).2)) :
    P (M.exec s is) (hi ++ M.trace s is) := by
  induction is generalizing s hi with
  | nil => simpa using h₀
  | cons i is ih =>
    have := ih _ hg.2 (hstep s hi i hg.1 h₀)
    simpa using this

/-- **History invariants.**  A predicate on the state and on everything output so far that is
preserved by every step meeting the guard holds at the end of every run meeting the guard. -/
theorem trace_invariant_along {P : S → List O → Prop} (hg : M.Along G s is) (h₀ : P s [])
    (hstep : ∀ s h i, G s i → P s h → P (M.step s i).1 (h ++ (M.step s i).2)) :
    P (M.exec s is) (M.trace s is) :=
  trace_invariant_from [] hg h₀ hstep

end Machine

end Boru
