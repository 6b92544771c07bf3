import Boru.Collections.TimeBoundCache

/-!
# The expiring caches of the protocols over their histories

The caches of the gossip protocols are filled by `insert` and emptied by `expire_until`, with any
deadlines and instants.  After such calls a cache holds a key with the deadline and the value of
its latest insertion, if this deadline is after every instant given since.  An instant that is
earlier than a previous one does not bring entries back.
-/

namespace Boru.TimeBoundCache

variable {T K V : Type*} [LinearOrder T] [DecidableEq K]

inductive Call (T K V : Type*) where
  | insert (key : K) (value : V) (expires : T)
  | expireUntil (instant : T)

def call (c : TimeBoundCache T K V) : Call T K V → TimeBoundCache T K V
  | .insert key value expires => c.insert key value expires
  | .expireUntil instant => (c.expireUntil instant).2

variable {c : TimeBoundCache T K V} {key : K} {x : T × V} {instant : T}

/-- The deadline of every entry is in the queue. -/
def Queued (c : TimeBoundCache T K V) : Prop :=
  ∀ key x, c.map.lookup key = some x → ∃ e ∈ c.expiry.heap, e.item = key ∧ e.time = x.1

/-- Expiry removes exactly the entries whose deadline has passed. -/
theorem Queued.lookup_expireUntil (h : c.Queued) :
    (c.expireUntil instant).2.map.lookup key = some x ↔
      c.map.lookup key = some x ∧ instant < x.1 := by
  refine ⟨fun hx => ?_, fun hx => lookup_expireUntil_of_lt hx.1 hx.2⟩
  obtain ⟨hl, hd⟩ := TimeBoundCache.lookup_expireUntil.1 hx
  obtain ⟨e, he, hi, ht⟩ := h key x hl
  refine ⟨hl, lt_of_not_ge fun hle => ?_⟩
  exact hd e (TimerMap.mem_drainUntil he (ht.trans_le hle)) ⟨hi, ht⟩

theorem Queued.call (h : c.Queued) (op : Call T K V) : (c.call op).Queued := by
  intro key x hx
  cases op with
  | insert k v d =>
    by_cases hk : key = k
    · subst hk
      obtain rfl : (d, v) = x := Option.some.inj ((AList.lookup_insert c.map).symm.trans hx)
      exact ⟨_, TimerMap.mem_pushAux.2 (.inl rfl), rfl, rfl⟩
    · obtain ⟨e, he, hi⟩ := h key x ((AList.lookup_insert_ne hk).symm.trans hx)
      exact ⟨e, TimerMap.mem_pushAux.2 (.inr he), hi⟩
  | expireUntil instant =>
    obtain ⟨hl, hlt⟩ := h.lookup_expireUntil.1 hx
    obtain ⟨e, he, hi, ht⟩ := h key x hl
    exact ⟨e, TimerMap.mem_heap_drainUntil he (ht ▸ hlt), hi, ht⟩

/-- The call neither inserts the key nor reaches the deadline. -/
def Call.Keeps (key : K) (deadline : T) : Call T K V → Prop
  | .insert k _ _ => k ≠ key
  | .expireUntil instant => instant < deadline

theorem Queued.lookup_call (h : c.Queued) (op : Call T K V) :
    (c.call op).map.lookup key = some x ↔
      op = .insert key x.2 x.1 ∨ c.map.lookup key = some x ∧ op.Keeps key x.1 := by
  cases op with
  | insert k v d =>
    by_cases hk : key = k
    · subst hk
      refine (Eq.congr_left (AList.lookup_insert c.map)).trans ?_
      simp [Call.Keeps, Prod.ext_iff, and_comm]
    · refine (Eq.congr_left (AList.lookup_insert_ne hk)).trans ?_
      simp [Call.Keeps, Ne.symm hk]
  | expireUntil instant => simpa [Call.Keeps, TimeBoundCache.call] using h.lookup_expireUntil

/-- The latest insertion of the key, of this deadline and value, which no call has undone. -/
def Latest (calls : List (Call T K V)) (key : K) (x : T × V) : Prop :=
  ∃ before since, calls = before ++ .insert key x.2 x.1 :: since ∧ ∀ op ∈ since, op.Keeps key x.1

omit [DecidableEq K] in
theorem latest_cons {op : Call T K V} {ca : List (Call T K V)} :
    Latest (op :: ca) key x ↔
      op = .insert key x.2 x.1 ∧ (∀ op ∈ ca, op.Keeps key x.1) ∨ Latest ca key x := by
  constructor
  · rintro ⟨pre, s, heq, hk⟩
    rcases List.cons_eq_append_iff.1 heq with ⟨-, hop⟩ | ⟨before', -, htl⟩
    · obtain ⟨rfl, rfl⟩ := List.cons.inj hop
      exact .inl ⟨rfl, hk⟩
    · exact .inr ⟨before', s, htl, hk⟩
  · rintro (⟨rfl, hk⟩ | ⟨pre, s, rfl, hk⟩)
    · exact ⟨[], ca, rfl, hk⟩
    · exact ⟨op :: pre, s, rfl, hk⟩

theorem Queued.lookup_foldl (h : c.Queued) (ca : List (Call T K V)) :
    (ca.foldl TimeBoundCache.call c).map.lookup key = some x ↔
      Latest ca key x ∨ c.map.lookup key = some x ∧ ∀ op ∈ ca, op.Keeps key x.1 := by
  induction ca generalizing c with
  | nil => simp [Latest]
  | cons op ca ih =>
    rw [List.foldl_cons, ih (h.call op), h.lookup_call op, latest_cons, List.forall_mem_cons]
    tauto

/-- What the last expiry of any history leaves, and how many entries it removes. -/
theorem expireUntil_history (calls : List (Call T K V)) (instant : T) (key : K) (x : T × V) :
    let c := calls.foldl call empty
    ((c.expireUntil instant).2.map.lookup key = some x ↔
      Latest (calls ++ [.expireUntil instant]) key x) ∧
    (c.expireUntil instant).1 + (c.expireUntil instant).2.map.size = c.map.size := by
  have hem : (empty : TimeBoundCache T K V).Queued := fun key x hx => by cases hx
  refine ⟨?_, expireUntil_count⟩
  have hr : ((calls ++ [Call.expireUntil instant]).foldl call empty).map.lookup key = some x ↔
      _ := hem.lookup_foldl _
  rw [List.foldl_append] at hr
  exact hr.trans (or_iff_left fun hx => by cases hx.1)

/-- The second instant is before the deadline, but the first one was not. -/
theorem expired_stays_gone :
    let c := [Call.insert 0 () 5, .expireUntil 10].foldl call (empty : TimeBoundCache ℕ ℕ Unit)
    3 < 5 ∧ (c.expireUntil 3).2.map.lookup 0 = none := by
  decide

end Boru.TimeBoundCache
