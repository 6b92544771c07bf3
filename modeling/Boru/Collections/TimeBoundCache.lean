import Boru.Collections.HashMap

/-!
# Caches whose entries expire

A `TimerMap` is a priority queue of items ordered by a point in time, and by the order of
insertion among items of the same time.  It is the list of its entries in the order in which they
are popped.

A `TimeBoundCache` is a hash map whose entries carry an expiry time, together with a `TimerMap` of
all expiry times ever announced.  Inserting a key again leaves its older deadlines in the queue;
`TimeBoundCache.lookup_expireUntil` says that such stale deadlines do no harm.
-/

namespace Boru

structure TimerMapEntry (T α : Type*) where
  time : T
  /-- The number of items inserted before. -/
  seq : ℕ
  item : α
  deriving DecidableEq

structure TimerMap (T α : Type*) [LE T] where
  /-- The entries, the one that is popped first at the front. -/
  heap : List (TimerMapEntry T α)
  seq : ℕ
  /-- Earlier items are popped first. -/
  sorted : heap.Pairwise fun x y => x.time ≤ y.time

namespace TimerMap

variable {T α : Type*} [LinearOrder T]

def Before (x y : TimerMapEntry T α) : Prop := x.time < y.time ∨ x.time = y.time ∧ x.seq < y.seq

instance (x y : TimerMapEntry T α) : Decidable (Before x y) :=
  inferInstanceAs (Decidable (_ ∨ _))

/-- Push an entry to its place in the order. -/
def pushAux (e : TimerMapEntry T α) : List (TimerMapEntry T α) → List (TimerMapEntry T α)
  | [] => [e]
  | x :: xs => if Before e x then e :: x :: xs else x :: pushAux e xs

theorem mem_pushAux {e x : TimerMapEntry T α} {es : List (TimerMapEntry T α)} :
    x ∈ pushAux e es ↔ x = e ∨ x ∈ es := by
  induction es with
  | nil => simp [pushAux]
  | cons y es ih =>
    rw [pushAux]
    split_ifs
    · exact List.mem_cons
    · rw [List.mem_cons, List.mem_cons]; tauto

theorem sorted_pushAux {e : TimerMapEntry T α} {es : List (TimerMapEntry T α)}
    (h : es.Pairwise fun x y => x.time ≤ y.time) :
    (pushAux e es).Pairwise fun x y => x.time ≤ y.time := by
  induction es with
  | nil => exact List.pairwise_singleton _ _
  | cons y es ih =>
    obtain ⟨hy, hes⟩ := List.pairwise_cons.1 h
    rw [pushAux]
    split_ifs with hb
    · have hey : e.time ≤ y.time := hb.elim le_of_lt fun hb => hb.1.le
      refine List.pairwise_cons.2 ⟨fun x hx => ?_, h⟩
      rcases List.mem_cons.1 hx with rfl | hx
      · exact hey
      · exact hey.trans (hy x hx)
    · refine List.pairwise_cons.2 ⟨fun x hx => ?_, ih hes⟩
      rcases mem_pushAux.1 hx with rfl | hx
      · exact not_lt.1 fun hlt => hb (.inl hlt)
      · exact hy x hx

/-- Insert a new entry at the specified instant. -/
def insert (m : TimerMap T α) (instant : T) (item : α) : TimerMap T α :=
  ⟨pushAux ⟨instant, m.seq, item⟩ m.heap, m.seq + 1, sorted_pushAux m.sorted⟩

/-- Pop entries as long as they are equal or before `limit`. -/
def drainAux (limit : T) :
    List (TimerMapEntry T α) → List (TimerMapEntry T α) × List (TimerMapEntry T α)
  | [] => ([], [])
  | e :: es =>
    if e.time ≤ limit then (e :: (drainAux limit es).1, (drainAux limit es).2) else ([], e :: es)

theorem drainAux_append (limit : T) (es : List (TimerMapEntry T α)) :
    (drainAux limit es).1 ++ (drainAux limit es).2 = es := by
  induction es with
  | nil => rfl
  | cons e es ih =>
    rw [drainAux]
    split_ifs
    · exact congrArg (e :: ·) ih
    · rfl

/-- Remove and return all entries before and equal to `limit`. -/
def drainUntil (m : TimerMap T α) (limit : T) : List (TimerMapEntry T α) × TimerMap T α :=
  ((drainAux limit m.heap).1, ⟨(drainAux limit m.heap).2, m.seq,
    (List.pairwise_append.1 (drainAux_append limit m.heap ▸ m.sorted)).2.1⟩)

variable {m : TimerMap T α} {limit : T} {e : TimerMapEntry T α}

theorem time_le_of_mem_drainUntil (h : e ∈ (m.drainUntil limit).1) : e.time ≤ limit := by
  simp only [drainUntil] at h
  generalize m.heap = heap at h
  induction heap with
  | nil => cases h
  | cons x xs ih =>
    rw [drainAux] at h
    split_ifs at h with hx
    · rcases List.mem_cons.1 h with rfl | h
      · exact hx
      · exact ih h
    · cases h

/-- The entries are popped in their order, so none that is due is left. -/
theorem mem_drainUntil (h : e ∈ m.heap) (hle : e.time ≤ limit) : e ∈ (m.drainUntil limit).1 := by
  obtain ⟨heap, seq, sorted⟩ := m
  simp only [drainUntil] at h ⊢
  induction heap with
  | nil => cases h
  | cons x xs ih =>
    obtain ⟨hx, hxs⟩ := List.pairwise_cons.1 sorted
    rw [drainAux]
    rcases List.mem_cons.1 h with rfl | h
    · rw [if_pos hle]
      exact List.mem_cons_self
    · rw [if_pos ((hx e h).trans hle)]
      exact List.mem_cons_of_mem _ (ih hxs h)

theorem mem_heap_drainUntil (h : e ∈ m.heap) (hlt : limit < e.time) :
    e ∈ (m.drainUntil limit).2.heap := by
  rw [← drainAux_append limit m.heap, List.mem_append] at h
  exact h.resolve_left fun hd => not_le.2 hlt (time_le_of_mem_drainUntil hd)

end TimerMap

/-- A hash map where entries expire after a time. -/
structure TimeBoundCache (T K V : Type*) [LE T] where
  map : HashMap K (T × V)
  /-- All deadlines announced so far that have not passed. -/
  expiry : TimerMap T K

namespace TimeBoundCache

variable {T K V : Type*} [LinearOrder T] [DecidableEq K]

def empty : TimeBoundCache T K V := ⟨∅, ⟨[], 0, List.Pairwise.nil⟩⟩

/-- Insert an item into the cache, marked with an expiration time. -/
def insert (c : TimeBoundCache T K V) (key : K) (value : V) (expires : T) : TimeBoundCache T K V :=
  ⟨c.map.insert key (expires, value), c.expiry.insert expires key⟩

variable (c : TimeBoundCache T K V)

variable (key : K)

def containsKey : Bool := (c.map.lookup key).isSome

def get : Option V := (c.map.lookup key).map Prod.snd

/-- Process one drained deadline: the entry is removed if the deadline is its own.  Otherwise it
was added again with another time, or is gone already. -/
def expireOne (r : ℕ × HashMap K (T × V)) (e : TimerMapEntry T K) : ℕ × HashMap K (T × V) :=
  match r.2.lookup e.item with
  | some (time, _) => if time = e.time then (r.1 + 1, r.2.erase e.item) else r
  | none => r

/-- Remove all entries with an expiry instant lower or equal to `instant`, and return the number
of items that were removed. -/
def expireUntil (instant : T) : ℕ × TimeBoundCache T K V :=
  let drain := c.expiry.drainUntil instant
  let r := drain.1.foldl expireOne (0, c.map)
  (r.1, ⟨r.2, drain.2⟩)

@[simp] theorem map_insert (value : V) (ex : T) :
    (c.insert key value ex).map = c.map.insert key (ex, value) := rfl

variable {c key} {x : T × V} {i : T}

theorem lookup_expireOne {r : ℕ × HashMap K (T × V)} {e : TimerMapEntry T K} :
    (expireOne r e).2.lookup key = some x ↔
      r.2.lookup key = some x ∧ ¬ (e.item = key ∧ e.time = x.1) := by
  unfold expireOne
  by_cases hk : e.item = key
  · subst hk
    split
    · rename_i time v hl
      split_ifs with ht
      · rw [AList.lookup_erase, hl]
        refine iff_of_false nofun fun h => h.2 ⟨rfl, ?_⟩
        rw [← Option.some.inj h.1, ht]
      · refine (and_iff_left_of_imp fun h hx => ht ?_).symm
        rw [hx.2, ← Option.some.inj (hl.symm.trans h)]
    · rename_i hl
      simp [hl]
  · split
    · split_ifs
      · simp [hk, AList.lookup_erase_ne (Ne.symm hk)]
      · simp [hk]
    · simp [hk]

/-- An entry is removed if its own deadline is drained. -/
theorem lookup_expireUntil :
    (c.expireUntil i).2.map.lookup key = some x ↔ c.map.lookup key = some x ∧
      ∀ e ∈ (c.expiry.drainUntil i).1, ¬ (e.item = key ∧ e.time = x.1) := by
  simp only [expireUntil]
  generalize (c.expiry.drainUntil i).1 = drain
  suffices h : ∀ r : ℕ × HashMap K (T × V), (drain.foldl expireOne r).2.lookup key = some x ↔
      r.2.lookup key = some x ∧ ∀ e ∈ drain, ¬ (e.item = key ∧ e.time = x.1) from h _
  induction drain with
  | nil => simp
  | cons e drain ih =>
    intro r
    rw [List.foldl_cons, ih, lookup_expireOne, and_assoc, List.forall_mem_cons]

/-- Entries whose deadline has not passed are kept. -/
theorem lookup_expireUntil_of_lt (h : c.map.lookup key = some x) (hlt : i < x.1) :
    (c.expireUntil i).2.map.lookup key = some x := by
  refine lookup_expireUntil.2 ⟨h, fun e he hx => ?_⟩
  exact not_le.2 hlt (hx.2 ▸ TimerMap.time_le_of_mem_drainUntil he)

/-- The entries that are removed are counted. -/
theorem expireUntil_count : (c.expireUntil i).1 + (c.expireUntil i).2.map.size = c.map.size := by
  simp only [expireUntil]
  generalize (c.expiry.drainUntil i).1 = drain
  suffices h : ∀ r : ℕ × HashMap K (T × V),
      (drain.foldl expireOne r).1 + (drain.foldl expireOne r).2.size = r.1 + r.2.size by
    simpa using h (0, c.map)
  induction drain with
  | nil => exact fun _ => rfl
  | cons e drain ih =>
    intro r
    rw [List.foldl_cons, ih]
    unfold expireOne
    split
    · rename_i time v hl
      split_ifs
      · have hmem : e.item ∈ r.2 := AList.lookup_isSome.1 (by rw [hl]; rfl)
        dsimp only
        rw [← HashMap.size_erase_of_mem hmem]
        omega
      · rfl
    · rfl

end TimeBoundCache

end Boru
