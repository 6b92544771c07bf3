import Mathlib.Data.List.AList
import Mathlib.Data.List.Sort

/-!
# Hash maps

A hash map is an association list without duplicate keys (`AList`), read through `AList.lookup`
and changed through `AList.insert` and `AList.erase`.  The order of the entries stands for the
unspecified iteration order of a hash map.  A `HashSet` is a map without values; sets that are
never iterated over are finite sets (`Finset`) instead.
-/

namespace Boru

open List

/-- A map from keys `K` to values `V`. -/
abbrev HashMap (K V : Type*) := AList (fun _ : K => V)

namespace HashMap

variable {K V : Type*} [DecidableEq K]

/-- `get(&k).copied().unwrap_or(d)`. -/
def getD (m : HashMap K V) (k : K) (d : V) : V := (m.lookup k).getD d

variable {m : HashMap K V} {k : K} {v : V}

theorem eq_of_lookup_insert {w : V} (h : (m.insert k v).lookup k = some w) : v = w :=
  Option.some.inj ((AList.lookup_insert m).symm.trans h)

variable {c : K}

/-- An entry of a map into which a value was inserted is that value or an old one. -/
theorem lookup_insert_cases {w : V} (h : (m.insert k v).lookup c = some w) :
    (c = k ∧ v = w) ∨ (c ≠ k ∧ m.lookup c = some w) := by
  by_cases hc : c = k
  · rw [hc] at h
    exact .inl ⟨hc, eq_of_lookup_insert h⟩
  · exact .inr ⟨hc, (AList.lookup_insert_ne hc).symm.trans h⟩

theorem isSome_lookup_insert (h : (m.lookup c).isSome) (k : K) (v : V) :
    ((m.insert k v).lookup c).isSome := by
  by_cases hc : c = k
  · rw [hc, AList.lookup_insert]
    rfl
  · rwa [AList.lookup_insert_ne hc]

/-- An entry of a map from which a key was removed is an old one. -/
theorem lookup_of_erase (h : (m.erase k).lookup c = some v) : c ≠ k ∧ m.lookup c = some v := by
  have hc : c ≠ k := by
    rintro rfl
    rw [AList.lookup_erase] at h
    cases h
  exact ⟨hc, (AList.lookup_erase_ne hc).symm.trans h⟩

section

variable (m : HashMap K V) (f : V → Option V) (k : K) (v : V)

theorem lookup_singleton :
    (AList.singleton k v : HashMap K V).lookup k = some v := AList.lookup_insert ∅

theorem erase_singleton : (AList.singleton k v : HashMap K V).erase k = ∅ :=
  AList.ext (kerase_cons_eq rfl)

/-- `*entry(k).or_insert(d) = f(..)`: update the value of `k`, starting from `d` if absent. -/
def upsert (d : V) (f : V → V) : HashMap K V :=
  m.insert k (f (m.getD k d))

def orInsert : HashMap K V := m.upsert k v id

/-- The entry left of `e` by a closure that drops or changes values. -/
def retainEntry (e : Sigma fun _ : K => V) : Option (Sigma fun _ : K => V) :=
  (f e.2).map fun v => ⟨e.1, v⟩

omit [DecidableEq K] in
theorem nodupKeys_filterMap {f : V → Option V} {es : List (Sigma fun _ : K => V)}
    (h : es.NodupKeys) : (es.filterMap (retainEntry f)).NodupKeys := by
  refine List.Nodup.sublist ?_ h
  clear h
  induction es with
  | nil => exact List.Sublist.refl _
  | cons e es ih =>
    cases hf : f e.2 with
    | none => rw [filterMap_cons_none (by simp [retainEntry, hf])]; exact ih.cons _
    | some v =>
      rw [filterMap_cons_some (b := ⟨e.1, v⟩) (by simp [retainEntry, hf])]
      exact ih.cons_cons _

/-- `retain` with a closure that also changes the values: keep the values `f` does not drop. -/
def retain : HashMap K V :=
  ⟨m.entries.filterMap (retainEntry f), nodupKeys_filterMap m.nodupKeys⟩

theorem lookup_retain : (m.retain f).lookup k = (m.lookup k).bind f := by
  obtain ⟨es, hes⟩ := m
  simp only [AList.lookup, retain]
  induction es with
  | nil => rfl
  | cons e es ih =>
    obtain ⟨k', v⟩ := e
    obtain ⟨hk, htl⟩ := nodupKeys_cons.1 hes
    by_cases h : k = k'
    · subst h
      rw [dlookup_cons_eq, Option.bind_some]
      cases hf : f v with
      | none =>
        rw [filterMap_cons_none (by simp [retainEntry, hf]), ih htl, dlookup_eq_none.2 hk]
        rfl
      | some w =>
        rw [filterMap_cons_some (b := ⟨k, w⟩) (by simp [retainEntry, hf]), dlookup_cons_eq]
    · have hne : ∀ (x : V) (l : List (Sigma fun _ : K => V)),
          dlookup k (⟨k', x⟩ :: l) = dlookup k l := fun _ _ =>
        dlookup_cons_ne _ _ h
      rw [hne]
      cases hf : f v with
      | none => rw [filterMap_cons_none (by simp [retainEntry, hf]), ih htl]
      | some w =>
        rw [filterMap_cons_some (b := ⟨k', w⟩) (by simp [retainEntry, hf]), hne, ih htl]

omit [DecidableEq K] in
theorem nodupKeys_filter {p : Sigma (fun _ : K => V) → Bool} {es : List (Sigma fun _ : K => V)}
    (h : es.NodupKeys) : (es.filter p).NodupKeys :=
  List.Nodup.sublist (filter_sublist.map Sigma.fst) h

/-- `retain` with a closure that looks at the keys only. -/
def retainKeys (p : K → Bool) : HashMap K V :=
  ⟨m.entries.filter fun e => p e.1, nodupKeys_filter m.nodupKeys⟩

def size : ℕ := m.entries.length

omit [DecidableEq K] in
theorem length_keys : m.keys.length = m.size := length_map _

end

theorem size_erase_of_mem (h : k ∈ m) : size (m.erase k) + 1 = m.size := by
  rw [← length_keys, ← length_keys, AList.keys_erase]
  exact length_erase_add_one (AList.mem_keys.1 h)

/-- A value that is replaced takes no room. -/
theorem size_insert_of_mem (h : k ∈ m) : size (m.insert k v) = m.size := by
  rw [← size_erase_of_mem h, ← length_keys, ← length_keys, AList.keys_insert, AList.keys_erase,
    length_cons]

section

variable (m : HashMap K V) (k : K)

theorem size_insert_le (v : V) : size (m.insert k v) ≤ m.size + 1 := by
  rw [← length_keys, ← length_keys, AList.keys_insert]
  exact Nat.succ_le_succ length_erase_le

theorem size_erase_le : size (m.erase k) ≤ m.size := by
  rw [← length_keys, ← length_keys, AList.keys_erase]
  exact length_erase_le

/-- The entries as the map is iterated, where the order of the keys is given. -/
def iter (order : List K) : List (K × V) :=
  (m.entries.map fun e => (e.1, e.2)).insertionSort fun a b => order.idxOf a.1 ≤ order.idxOf b.1

/-- `min_by_key`: the first of the entries with the least key. -/
def minByKey {A : Type*} (key : A → ℕ) : List A → Option A
  | [] => none
  | x :: xs => some (xs.foldl (fun best y => if key y < key best then y else best) x)

/-- `max_by_key`: the last of the entries with the greatest key. -/
def maxByKey {A : Type*} (key : A → ℕ) : List A → Option A
  | [] => none
  | x :: xs => some (xs.foldl (fun best y => if key y < key best then best else y) x)

def countValues (p : V → Bool) : ℕ := m.entries.countP fun e => p e.2

end

/-- Not all values are counted iff one of them is not. -/
theorem countValues_lt_size_iff {p : V → Bool} :
    m.countValues p < m.size ↔ ∃ k v, m.lookup k = some v ∧ p v = false := by
  have hle : m.countValues p ≤ m.size := countP_le_length
  rw [Nat.lt_iff_le_and_ne, and_iff_right hle, Ne, countValues, size, countP_eq_length, not_forall]
  constructor
  · rintro ⟨⟨k, v⟩, hv⟩
    obtain ⟨hmem, hp⟩ := Classical.not_imp.1 hv
    exact ⟨k, v, AList.mem_lookup_iff.2 hmem, Bool.eq_false_iff.2 hp⟩
  · rintro ⟨k, v, hk, hp⟩
    exact ⟨⟨k, v⟩, fun h => Bool.eq_false_iff.1 hp (h (AList.mem_lookup_iff.1 hk))⟩

/-- A value that is in the map under the key `k` is counted once iff it is under no other key. -/
theorem countValues_eq_one_iff [DecidableEq V] (hk : m.lookup k = some v) :
    m.countValues (· = v) = 1 ↔ ∀ k', m.lookup k' = some v → k' = k := by
  have hmem : ∀ k' : K, (⟨k', v⟩ : Sigma fun _ : K => V) ∈
      m.entries.filter (fun e => decide (e.2 = v)) ↔ m.lookup k' = some v := fun k' => by
    simpa using (AList.mem_lookup_iff (s := m)).symm
  have hn := (List.NodupKeys.nodup m.nodupKeys).filter fun e => decide (e.2 = v)
  unfold countValues
  rw [countP_eq_length_filter]
  constructor
  · intro hone k' hk'
    obtain ⟨e, he⟩ := length_eq_one_iff.1 hone
    have h := (hmem k).2 hk
    have h' := (hmem k').2 hk'
    rw [he, mem_singleton] at h h'
    exact congrArg Sigma.fst (h'.trans h.symm)
  · intro hall
    -- every entry counted is that of `k`, and no entry occurs twice
    have heq := eq_replicate_of_mem (a := ⟨k, v⟩)
        (l := m.entries.filter fun e => decide (e.2 = v)) fun e he => by
      obtain ⟨k', w⟩ := e
      obtain rfl : w = v := by simpa using (mem_filter.1 he).2
      rw [hall k' ((hmem k').1 he)]
    rw [heq] at hn
    have hle := nodup_replicate.1 hn
    exact Nat.le_antisymm hle (length_pos_of_mem ((hmem k).2 hk))

@[simp] theorem lookup_upsert (m : HashMap K V) (k : K) (d : V) (f : V → V) :
    (m.upsert k d f).lookup k = some (f (m.getD k d)) := AList.lookup_insert _

theorem lookup_upsert_ne (m : HashMap K V) {k' : K} (d : V) (f : V → V) (h : k' ≠ k) :
    (m.upsert k d f).lookup k' = m.lookup k' := AList.lookup_insert_ne h

end HashMap

/-- A set whose elements are iterated over: a map without values. -/
abbrev HashSet (K : Type*) := HashMap K Unit

namespace HashSet

variable {K : Type*} [DecidableEq K]

def insert (s : HashSet K) (k : K) : HashSet K := AList.insert k () s

def extend (s : HashSet K) (ks : List K) : HashSet K := ks.foldl insert s

theorem mem_insert {s : HashSet K} {k k' : K} : k' ∈ s.insert k ↔ k' = k ∨ k' ∈ s :=
  AList.mem_insert _

end HashSet

end Boru
