import Mathlib.Data.Multiset.AddSub
import Boru.LTS.Basic

/-!
# Timers

A reactive machine does not run timers: it outputs a request to schedule one, and the implementer
injects an input when the timer has expired.  `Machine.withTimers` adds the bookkeeping of the
implementer, the multiset of the timers that are scheduled and have not fired yet.  In the runs
that meet `Machine.Fires`, every scheduled timer fires at most once.
-/

namespace Boru.Machine

variable {S I O T : Type*} [DecidableEq T]

/-- The timers left when `t`, if any, has fired. -/
def afterFiring (timers : Multiset T) : Option T → Multiset T
  | none => timers
  | some t => timers.erase t

/-- The machine together with the timers that are scheduled and have not fired. -/
def withTimers (M : Machine S I O) (fired : I → Option T) (scheduled : O → Option T) :
    Machine (S × Multiset T) I O :=
  ⟨fun s i =>
    let r := M.step s.1 i
    ((r.1, afterFiring s.2 (fired i) + Multiset.ofList (r.2.filterMap scheduled)), r.2)⟩

/-- A timer that fires has been scheduled and has not fired before. -/
def Fires (fired : I → Option T) (s : S × Multiset T) (i : I) : Prop := ∀ t ∈ fired i, t ∈ s.2

instance (fired : I → Option T) (s : S × Multiset T) (i : I) : Decidable (Fires fired s i) :=
  inferInstanceAs (Decidable (∀ t ∈ fired i, t ∈ s.2))

theorem mem_afterFiring {ti : Multiset T} {fired : Option T} {t : T} (ht : t ∈ ti)
    (hne : fired ≠ some t) : t ∈ afterFiring ti fired := by
  cases fired with
  | none => exact ht
  | some u =>
    have htu : t ≠ u := fun h => hne (h ▸ rfl)
    exact (Multiset.mem_erase_of_ne htu).2 ht

end Boru.Machine
