import Boru.LTS.Basic

/-!
# Histories

What a machine has emitted so far is a list, oldest first.  Statements such as "nothing is applied
that was not granted before" are about every entry of a history and what came before it.

* `Each R history` : every entry stands in the relation `R` to what came before it.
* `Since P Q history` : `P` holds of an entry, and `Q` of none after it.
-/

namespace Boru.History

open List

variable {O : Type*} {R : List O → O → Prop} {P Q : O → Prop} {history out : List O} {x : O}

/-- Every entry of the history stands in the relation `R` to what came before it. -/
def Each (R : List O → O → Prop) (history : List O) : Prop :=
  ∀ before x after, history = before ++ x :: after → R before x

/-- `P` holds of an entry of the history, and `Q` of no later one. -/
def Since (P Q : O → Prop) (history : List O) : Prop :=
  ∃ before x after, history = before ++ x :: after ∧ P x ∧ ∀ y ∈ after, ¬ Q y

theorem each_nil : Each R ([] : List O) := by
  intro pre x post h
  simp at h

/-- An entry of a longer history is the new one or an old one. -/
theorem eq_or_of_snoc {pre post : List O} {y : O} (h : history ++ [x] = pre ++ y :: post) :
    (history = pre ∧ x = y ∧ post = []) ∨
      ∃ front, post = front ++ [x] ∧ history = pre ++ y :: front := by
  obtain rfl | ⟨front, last, rfl⟩ := eq_nil_or_concat post
  · obtain ⟨hb, hx⟩ := append_inj' h rfl
    exact .inl ⟨hb, singleton_inj.1 hx, rfl⟩
  · rw [concat_eq_append, ← cons_append, ← append_assoc] at h
    obtain ⟨hh, hx⟩ := append_inj' h rfl
    exact .inr ⟨front, by rw [concat_eq_append, singleton_inj.1 hx], hh⟩

theorem Each.snoc (h : Each R history) (hx : R history x) : Each R (history ++ [x]) := by
  intro pre y post heq
  obtain ⟨rfl, rfl, -⟩ | ⟨front, -, hf⟩ := eq_or_of_snoc heq
  · exact hx
  · exact h pre y front hf

theorem Each.append (h : Each R history) (hout : ∀ pre, ∀ x ∈ out, R pre x) :
    Each R (history ++ out) := by
  induction out generalizing history with
  | nil => rwa [append_nil]
  | cons x out ih =>
    rw [append_cons]
    exact ih (h.snoc (hout history x mem_cons_self)) fun pre y hy =>
      hout pre y (mem_cons_of_mem _ hy)

theorem Since.of_last (hx : P x) : Since P Q (history ++ [x]) :=
  ⟨history, x, [], rfl, hx, by simp⟩

theorem Since.append (h : Since P Q history) (hout : ∀ y ∈ out, ¬ Q y) :
    Since P Q (history ++ out) := by
  obtain ⟨pre, x, post, rfl, hx, ha⟩ := h
  refine ⟨pre, x, post ++ out, by simp, hx, fun y hy => ?_⟩
  exact (mem_append.1 hy).elim (ha y) (hout y)

theorem since_snoc_iff : Since P Q (history ++ [x]) ↔ P x ∨ (¬ Q x ∧ Since P Q history) := by
  constructor
  · rintro ⟨pre, y, post, heq, hy, ha⟩
    obtain ⟨-, rfl, -⟩ | ⟨front, rfl, hf⟩ := eq_or_of_snoc heq
    · exact .inl hy
    · refine .inr ⟨ha x (by simp), pre, y, front, hf, hy, fun z hz => ?_⟩
      exact ha z (mem_append_left _ hz)
  · rintro (hx | ⟨hx, h⟩)
    · exact .of_last hx
    · exact h.append fun y hy => by rwa [mem_singleton.1 hy]

/-- New entries without `P` leave what they do not undo. -/
theorem since_append_iff (hout : ∀ y ∈ out, ¬ P y) :
    Since P Q (history ++ out) ↔ Since P Q history ∧ ∀ y ∈ out, ¬ Q y := by
  induction out generalizing history with
  | nil => simp
  | cons x out ih =>
    have hx : ¬ P x := hout x mem_cons_self
    rw [append_cons, ih fun y hy => hout y (mem_cons_of_mem _ hy), since_snoc_iff,
      or_iff_right hx, forall_mem_cons, and_comm (a := ¬ Q x), and_assoc]

theorem not_since_nil : ¬ Since P Q ([] : List O) := by
  rintro ⟨pre, x, post, h, -⟩
  simp at h

end Boru.History
