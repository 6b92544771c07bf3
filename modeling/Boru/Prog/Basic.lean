import Mathlib.Data.List.Basic

/-!
# Programs with state and errors

A method that works on `&mut self` and returns a `Result` is a program that reads and changes a
state and may stop with an error.  The changes made before the error stay: `Prog σ ε` is
`ExceptT ε (StateM σ)`, not the other way round.

`Prog.wp x Q E s` says what holds after running `x` from `s`: `Q` if it returns a value, `E` if it
stops with an error.  Programs are total, so `wp` describes a run exactly, and the rules below are
equivalences; `Prog.Ensures x Q` is the special case that says nothing about errors and holds from
every state.

## Main results

* `Prog.wp_bind`, `Prog.wp_attempt`, `Prog.wp_atomically`, `Prog.wp_within` : the rules for
  sequencing, for catching an error, for transactions and for a program on a component of the state.
* `Prog.Ensures.bind`, `Prog.Ensures.foldlM` : postconditions of sequences and loops.
-/

namespace Boru

/-- Programs over the states `σ` that may stop with an error in `ε`. -/
abbrev Prog (σ ε : Type) : Type → Type := ExceptT ε (StateM σ)

namespace Prog

variable {σ τ ε δ α β : Type}

variable (x : Prog σ ε α)

/-- The result of a program, and the state it leaves. -/
def exec (s : σ) : Except ε α × σ := x.run.run s

/-- `ok_or`: the value, or stop with the error. -/
def okOr (o : Option α) (e : ε) : Prog σ ε α :=
  match o with
  | some a => pure a
  | none => throw e

/-- Stop with the error unless the condition holds. -/
def require (c : Prop) [Decidable c] (e : ε) : Prog σ ε Unit :=
  if c then pure () else throw e

/-- `map_err(f)?` on a computation without state. -/
def ofExcept (f : δ → ε) : Except δ α → Prog σ ε α
  | .ok a => pure a
  | .error d => throw (f d)

def mapErr (f : δ → ε) (x : Prog σ δ α) : Prog σ ε α := fun s =>
  match x.exec s with
  | (.ok a, s') => (.ok a, s')
  | (.error d, s') => (.error (f d), s')

/-- Run a program without letting its error stop the caller. -/
def attempt : Prog σ δ (Except ε α) := fun s =>
  let r := x.exec s
  (.ok r.1, r.2)

/-- Run a program on a component of the state. -/
def within (read : σ → τ) (write : σ → τ → σ) (x : Prog τ ε α) : Prog σ ε α := fun s =>
  let r := x.exec (read s)
  (r.1, write s r.2)

/-- Run a program as a transaction: an error undoes its changes. -/
def atomically : Prog σ ε α := fun s =>
  match x.exec s with
  | (.ok a, s') => (.ok a, s')
  | (.error e, _) => (.error e, s)

/-- What holds after running `x` from `s`: `Q` of a value, `E` of an error. -/
def wp (Q : α → σ → Prop) (E : ε → σ → Prop) (s : σ) : Prop :=
  match x.exec s with
  | (.ok a, s') => Q a s'
  | (.error e, s') => E e s'

/-- What holds of the state after running `x` from `s`, however it ends. -/
abbrev leaves (P : σ → Prop) (s : σ) : Prop := wp x (fun _ => P) (fun _ => P) s

/-! ### Rules -/

/-- A sequence without state returns only if both parts do. -/
theorem except_bind_eq_ok_iff {x : Except ε α} {f : α → Except ε β} {b : β} :
    x >>= f = .ok b ↔ ∃ a, x = .ok a ∧ f a = .ok b := by
  cases x with
  | error e => exact ⟨nofun, nofun⟩
  | ok a => exact ⟨fun h => ⟨a, rfl, h⟩, by rintro ⟨_, ⟨⟩, h⟩; exact h⟩

alias ⟨except_bind_eq_ok, _⟩ := except_bind_eq_ok_iff

theorem except_ok_bind (a : α) (f : α → Except ε β) : Except.ok a >>= f = f a := rfl

section Rules

variable {Q : α → σ → Prop} {E : ε → σ → Prop} {s : σ}

@[simp] theorem wp_pure {a : α} : wp (pure a) Q E s ↔ Q a s := Iff.rfl

variable {e : ε}

@[simp] theorem wp_throw : wp (throw e : Prog σ ε α) Q E s ↔ E e s := Iff.rfl

@[simp] theorem wp_get {Q : σ → σ → Prop} : wp (get : Prog σ ε σ) Q E s ↔ Q s s := Iff.rfl

variable {s' : σ}

@[simp] theorem wp_set {Q : PUnit → σ → Prop} :
    wp (set s' : Prog σ ε PUnit) Q E s ↔ Q ⟨⟩ s' := Iff.rfl

@[simp] theorem wp_modify {Q : PUnit → σ → Prop} {f : σ → σ} :
    wp (modify f : Prog σ ε PUnit) Q E s ↔ Q ⟨⟩ (f s) := Iff.rfl

theorem exec_bind (x : Prog σ ε α) (f : α → Prog σ ε β) (s : σ) :
    (x >>= f).exec s = match x.exec s with
      | (.ok a, s') => (f a).exec s'
      | (.error e, s') => (.error e, s') := by
  simp only [exec, ExceptT.run_bind, StateT.run_bind]
  generalize StateT.run (ExceptT.run x) s = r
  obtain ⟨a | a, s'⟩ := r <;> rfl

variable {x : Prog σ ε α}

@[simp] theorem wp_bind {f : α → Prog σ ε β} {Q : β → σ → Prop} :
    wp (x >>= f) Q E s ↔ wp x (fun a s' => wp (f a) Q E s') E s := by
  unfold wp
  rw [exec_bind]
  obtain ⟨a | a, s'⟩ := x.exec s <;> exact Iff.rfl

@[simp] theorem wp_map {f : α → β} {Q : β → σ → Prop} :
    wp (f <$> x) Q E s ↔ wp x (fun a s' => Q (f a) s') E s := by
  rw [← bind_pure_comp, wp_bind]
  exact Iff.rfl

@[simp] theorem wp_okOr {o : Option α} :
    wp (okOr o e) Q E s ↔ (∀ a, o = some a → Q a s) ∧ (o = none → E e s) := by
  cases o <;> simp [okOr]

@[simp] theorem wp_require {c : Prop} [Decidable c] {Q : Unit → σ → Prop} :
    wp (require c e) Q E s ↔ (c → Q () s) ∧ (¬ c → E e s) := by
  unfold require
  split_ifs with h <;> simp [h]

@[simp] theorem wp_ofExcept {f : δ → ε} {x : Except δ α} :
    wp (ofExcept f x) Q E s ↔ (∀ a, x = .ok a → Q a s) ∧ (∀ d, x = .error d → E (f d) s) := by
  cases x <;> simp [ofExcept]

@[simp] theorem wp_mapErr {f : δ → ε} {x : Prog σ δ α} :
    wp (mapErr f x) Q E s ↔ wp x Q (fun d s' => E (f d) s') s := by
  unfold wp mapErr exec
  simp only [ExceptT.run, StateT.run]
  obtain ⟨a | a, s'⟩ := x s <;> exact Iff.rfl

@[simp] theorem wp_attempt {E : δ → σ → Prop} {Q : Except ε α → σ → Prop} :
    wp (attempt x) Q E s ↔ wp x (fun a s' => Q (.ok a) s') (fun e s' => Q (.error e) s') s := by
  unfold wp attempt exec
  simp only [ExceptT.run, StateT.run]
  obtain ⟨a | a, s'⟩ := x s <;> exact Iff.rfl

@[simp] theorem wp_within {read : σ → τ} {write : σ → τ → σ} {x : Prog τ ε α} :
    wp (within read write x) Q E s ↔
      wp x (fun a t => Q a (write s t)) (fun e t => E e (write s t)) (read s) := by
  unfold wp within exec
  simp only [ExceptT.run, StateT.run]
  obtain ⟨a | a, t⟩ := x (read s) <;> exact Iff.rfl

@[simp] theorem wp_atomically : wp (atomically x) Q E s ↔ wp x Q (fun e _ => E e s) s := by
  unfold wp atomically exec
  simp only [ExceptT.run, StateT.run]
  obtain ⟨a | a, s'⟩ := x s <;> exact Iff.rfl

theorem wp_of_ok {a : α} (h : x.exec s = (.ok a, s')) : wp x Q E s ↔ Q a s' := by
  unfold wp
  rw [h]

theorem wp_of_error (h : x.exec s = (.error e, s')) : wp x Q E s ↔ E e s' := by
  unfold wp
  rw [h]

theorem exists_ok_of_wp (h : wp x Q (fun _ _ => False) s) :
    ∃ a s', x.exec s = (.ok a, s') ∧ Q a s' := by
  rcases hx : x.exec s with ⟨e | a, s'⟩
  · exact ((wp_of_error hx).1 h).elim
  · exact ⟨a, s', rfl, (wp_of_ok hx).1 h⟩

theorem wp_mono {Q' : α → σ → Prop} {E' : ε → σ → Prop} (h : wp x Q E s)
    (hQ : ∀ a s', Q a s' → Q' a s') (hE : ∀ e s', E e s' → E' e s') : wp x Q' E' s := by
  rcases hx : x.exec s with ⟨e | a, s'⟩
  · exact (wp_of_error hx).2 (hE _ _ ((wp_of_error hx).1 h))
  · exact (wp_of_ok hx).2 (hQ _ _ ((wp_of_ok hx).1 h))

variable {P : σ → Prop}

/-- What holds of the state however the program ends. -/
theorem exec_of_wp (h : wp x (fun _ => P) (fun _ => P) s) : P (x.exec s).2 := by
  rcases hec : x.exec s with ⟨_ | _, s'⟩
  · exact (wp_of_error hec).1 h
  · exact (wp_of_ok hec).1 h

theorem wp_const_iff : wp x (fun _ => P) (fun _ => P) s ↔ P (x.exec s).2 := by
  rcases hec : x.exec s with ⟨_ | _, s'⟩
  · exact wp_of_error hec
  · exact wp_of_ok hec

@[simp] theorem wp_true : wp x (fun _ _ => True) (fun _ _ => True) s := by
  unfold wp
  split <;> trivial

theorem wp_and {Q' : α → σ → Prop} {E' : ε → σ → Prop} (h : wp x Q E s) (h' : wp x Q' E' s) :
    wp x (fun a s' => Q a s' ∧ Q' a s') (fun e s' => E e s' ∧ E' e s') s := by
  unfold wp at h h' ⊢
  split <;> simp_all

theorem wp_absurd : ¬ wp x (fun _ _ => False) (fun _ _ => False) s := by
  unfold wp
  split <;> exact id

/-- **Loop rule.**  What every iteration keeps of the state, however it ends, a loop keeps. -/
theorem wp_foldlM {f : α → β → Prog σ ε α}
    (hf : ∀ a b s, P s → wp (f a b) (fun _ => P) (fun _ => P) s) (bs : List β) (a : α) (hs : P s) :
    wp (bs.foldlM f a) (fun _ => P) (fun _ => P) s := by
  induction bs generalizing a s with
  | nil => exact hs
  | cons b bs ih =>
    rw [List.foldlM_cons, wp_bind]
    exact wp_mono (hf a b s hs) (fun a' s' hs' => ih a' hs') fun _ _ h => h

/-- **Loop rule.**  What an iteration takes from the elements that are left to the rest of them, a
loop takes from all elements to none. -/
theorem wp_forM {f : β → Prog σ ε Unit} {P : List β → σ → Prop} {E : ε → σ → Prop}
    (hf : ∀ b bs s, P (b :: bs) s → wp (f b) (fun _ => P bs) E s) (bs : List β) (hs : P bs s) :
    wp (bs.forM f) (fun _ => P []) E s := by
  induction bs generalizing s with
  | nil => exact hs
  | cons b bs ih => exact wp_bind.2 (wp_mono (hf b bs s hs) (fun _ _ h => ih h) fun _ _ h => h)

/-- A postcondition of the errors alone. -/
theorem forall_error_iff :
    (∀ e s', x.exec s = (.error e, s') → E e s') ↔ wp x (fun _ _ => True) E s := by
  rcases hx : x.exec s with ⟨e | a, s'⟩
  · rw [wp_of_error hx]
    exact ⟨fun h => h e s' rfl, by rintro h _ _ ⟨⟩; exact h⟩
  · rw [wp_of_ok hx]
    exact ⟨fun _ => trivial, by rintro - _ _ ⟨⟩⟩

end Rules

/-! ### Postconditions of the values alone -/

/-- Every value the program returns satisfies `Q`. -/
def Ensures (Q : α → Prop) : Prop :=
  ∀ s, wp x (fun a _ => Q a) (fun _ _ => True) s

namespace Ensures

variable {Q : α → Prop} {R : β → Prop}

variable {x : Prog σ ε α} {a : α}

theorem of_exec (h : Ensures x Q) {s s' : σ} (hx : x.exec s = (.ok a, s')) :
    Q a := (wp_of_ok hx).1 (h s)

theorem pure (h : Q a) : Ensures (Pure.pure a : Prog σ ε α) Q := fun _ => h

theorem throw (e : ε) : Ensures (MonadExcept.throw e : Prog σ ε α) Q := fun _ => trivial

variable {f : α → Prog σ ε β}

theorem bind (hx : Ensures x Q) (hf : ∀ a, Q a → Ensures (f a) R) : Ensures (x >>= f) R := fun s =>
  wp_bind.2 (wp_mono (hx s) (fun a s' ha => hf a ha s') fun _ _ h => h)

theorem trivial (x : Prog σ ε α) : Ensures x fun _ => True := fun _ => wp_true

/-- Sequencing when nothing is known of the first value. -/
theorem andThen (hf : ∀ a, Ensures (f a) R) :
    Ensures (x >>= f) R := bind (trivial x) fun a _ => hf a

theorem mono {Q' : α → Prop} (h : Ensures x Q) (hQ : ∀ a, Q a → Q' a) :
    Ensures x Q' := fun s => wp_mono (h s) (fun a _ => hQ a) fun _ _ h => h

theorem and {Q' : α → Prop} (h : Ensures x Q) (h' : Ensures x Q') :
    Ensures x fun a => Q a ∧ Q' a := fun s =>
  wp_mono (wp_and (h s) (h' s)) (fun _ _ ha => ha) fun _ _ _ => True.intro

theorem mapErr {f : δ → ε} {x : Prog σ δ α} (h : Ensures x Q) : Ensures (mapErr f x) Q := fun s =>
  wp_mapErr.2 (wp_mono (h s) (fun _ _ ha => ha) fun _ _ _ => True.intro)

theorem ofExcept {f : δ → ε} {x : Except δ α} (h : ∀ a, x = .ok a → Q a) :
    Ensures (ofExcept f x : Prog σ ε α) Q := fun _ => wp_ofExcept.2 ⟨h, fun _ _ => True.intro⟩

/-- **Loop rule.**  What every iteration keeps holds after a loop. -/
theorem foldlM {f : α → β → Prog σ ε α} (hf : ∀ a b, Q a → Ensures (f a b) Q) (bs : List β)
    (ha : Q a) : Ensures (bs.foldlM f a) Q := by
  induction bs generalizing a with
  | nil => exact pure ha
  | cons b bs ih => exact bind (hf a b ha) fun a' ha' => ih ha'

end Ensures

end Prog

end Boru
