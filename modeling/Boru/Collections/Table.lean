import Mathlib.Data.List.AList
import Mathlib.Data.List.Sort

/-!
# Tables with a primary key

The rows of a database table by their primary key.  A new row is put in front, and changing a row
leaves it where it is, so the entries are in descending order of the row identifiers.

## Main results

* `Table.lookup_update` : what a conditional update does to each row.
* `Table.lookup_delete` : what a deletion does to each row.
* `Table.mem_select` : a selection returns the rows that meet its condition.
-/

namespace Boru

open List

/-- A table with keys in `K` and the other columns in `C`. -/
abbrev Table (K C : Type*) := AList fun _ : K => C

namespace Table

variable {K C : Type*}

variable (t : Table K C) (cond : K → C → Bool)

/-- Apply a change to the columns of every row. -/
def mapRows (f : K → C → C) : Table K C where
  entries := t.entries.map fun e => ⟨e.1, f e.1 e.2⟩
  nodupKeys := by
    have hkeys : (t.entries.map fun e => (⟨e.1, f e.1 e.2⟩ : Sigma fun _ : K => C)).keys =
        t.entries.keys := by
      simp [keys, Function.comp_def]
    unfold List.NodupKeys
    rw [hkeys]
    exact t.nodupKeys

def update (set : C → C) : Table K C :=
  t.mapRows fun k c => if cond k c then set c else c

/-- The number of rows a condition holds of. -/
def count : ℕ := t.entries.countP fun e => cond e.1 e.2

def delete : Table K C where
  entries := t.entries.filter fun e => !cond e.1 e.2
  nodupKeys := t.nodupKeys.sublist filter_sublist

/-- `SELECT … WHERE … ORDER BY rowid`. -/
def select : List (K × C) :=
  (t.entries.reverse.filter fun e => cond e.1 e.2).map fun e => (e.1, e.2)

/-- `SELECT … WHERE … ORDER BY …, rowid`; the sort is stable. -/
def orderBy (order : C → ℤ) : List (K × C) :=
  (t.select cond).insertionSort fun a b => order a.2 ≤ order b.2

/-- `SELECT … WHERE … ORDER BY …, rowid LIMIT …`. -/
def selectBy (order : C → ℤ) (limit : ℕ) : List (K × C) := (t.orderBy cond order).take limit

variable [DecidableEq K]

variable (t : Table K C) (cond : K → C → Bool) (set : C → C) (k : K)

/-- `INSERT … ON CONFLICT DO NOTHING`. -/
def insertOrIgnore (c : C) : Table K C :=
  if k ∈ t then t else t.insert k c

/-- `UPDATE … WHERE key = … AND …`: the table, and whether a row was changed.  There is at most one
row with the key. -/
def updateRow (cond : C → Bool) (set : C → C) : Table K C × Bool :=
  (t.update (fun k' c => k' = k && cond c) set, (t.lookup k).any cond)

theorem lookup_mapRows (f : K → C → C) (k : K) :
    (t.mapRows f).lookup k = (t.lookup k).map (f k) := by
  obtain ⟨es, hes⟩ := t
  show dlookup k (es.map fun e => (⟨e.1, f e.1 e.2⟩ : Sigma fun _ : K => C)) =
    (dlookup k es).map (f k)
  clear hes
  induction es with
  | nil => rfl
  | cons e es ih =>
    obtain ⟨k', c⟩ := e
    by_cases h : k = k'
    · subst h
      simp only [map_cons, dlookup_cons_eq, Option.map_some]
    · rw [map_cons, dlookup_cons_ne _ _ (by exact h), dlookup_cons_ne _ _ (by exact h), ih]

/-- **What an update does to each row.** -/
theorem lookup_update :
    (t.update cond set).lookup k = (t.lookup k).map fun c => if cond k c then set c else c :=
  lookup_mapRows t _ k

/-- **What a deletion does to each row.** -/
theorem lookup_delete : (t.delete cond).lookup k = (t.lookup k).filter fun c => !cond k c := by
  refine Option.ext fun c => ?_
  rw [← Option.mem_def, AList.mem_lookup_iff, ← Option.mem_def, Option.mem_filter_iff,
    AList.mem_lookup_iff]
  exact mem_filter

variable {k k' : K}

theorem lookup_updateRow_ne (t : Table K C) (cond : C → Bool) (set : C → C) (h : k' ≠ k) :
    (t.updateRow k cond set).1.lookup k' = t.lookup k' := by
  show (t.update _ set).lookup k' = _
  rw [lookup_update]
  simp [h]

theorem lookup_updateRow_self (t : Table K C) (k : K) (cond : C → Bool) (set : C → C) :
    (t.updateRow k cond set).1.lookup k =
      (t.lookup k).map fun c => if cond c then set c else c := by
  show (t.update _ set).lookup k = _
  rw [lookup_update]
  simp

variable {t : Table K C}

theorem lookup_updateRow_of_none {cond : C → Bool} {set : C → C} (h : t.lookup k' = none) :
    (t.updateRow k cond set).1.lookup k' = none := by
  show (t.update _ set).lookup k' = _
  rw [lookup_update, h]
  rfl

variable {c : C}

theorem lookup_insertOrIgnore_of_some {c' : C} (h : t.lookup k' = some c') :
    (t.insertOrIgnore k c).lookup k' = some c' := by
  unfold insertOrIgnore
  split_ifs with hk
  · exact h
  · have hne : k' ≠ k := by
      rintro rfl
      exact hk (AList.lookup_isSome.1 (by rw [h]; rfl))
    rw [AList.lookup_insert_ne hne, h]

theorem lookup_insertOrIgnore_of_none {c' : C} (h : t.lookup k' = none)
    (h' : (t.insertOrIgnore k c).lookup k' = some c') :
    k' = k ∧ c' = c := by
  unfold insertOrIgnore at h'
  split_ifs at h' with hk
  · rw [h] at h'
    cases h'
  · by_cases hne : k' = k
    · subst hne
      rw [AList.lookup_insert] at h'
      exact ⟨rfl, (Option.some.inj h').symm⟩
    · rw [AList.lookup_insert_ne hne, h] at h'
      cases h'

theorem mem_keys_insertOrIgnore : k' ∈ (t.insertOrIgnore k c).keys ↔ k' = k ∨ k' ∈ t.keys := by
  unfold insertOrIgnore
  split_ifs with hk
  · constructor
    · exact Or.inr
    · rintro (rfl | h)
      · exact hk
      · exact h
  · exact AList.mem_insert _

/-- The row under a key, where the row that is there already stays. -/
theorem lookup_insertOrIgnore (t : Table K C) (k k' : K) (c : C) :
    (t.insertOrIgnore k c).lookup k' = (t.lookup k').or (if k' = k then some c else none) := by
  unfold insertOrIgnore
  by_cases hk : k ∈ t
  · rw [if_pos hk]
    cases h : t.lookup k' with
    | some v => rfl
    | none =>
      have hne : k' ≠ k := by
        rintro rfl
        exact AList.lookup_eq_none.1 h hk
      rw [if_neg hne]
      rfl
  · rw [if_neg hk]
    by_cases hkk : k' = k
    · subst hkk
      rw [AList.lookup_insert, AList.lookup_eq_none.2 hk, if_pos rfl]
      rfl
    · rw [AList.lookup_insert_ne hkk, if_neg hkk, Option.or_none]

variable {cond : K → C → Bool}

/-- **What a selection returns.** -/
theorem mem_select : (k, c) ∈ t.select cond ↔ t.lookup k = some c ∧ cond k c := by
  unfold select
  rw [mem_map]
  constructor
  · rintro ⟨⟨k', c'⟩, he, heq⟩
    obtain ⟨rfl, rfl⟩ := Prod.mk.inj heq
    rw [mem_filter, mem_reverse] at he
    exact ⟨AList.mem_lookup_iff.2 he.1, he.2⟩
  · rintro ⟨hl, hc⟩
    refine ⟨⟨k, c⟩, ?_, rfl⟩
    rw [mem_filter, mem_reverse]
    exact ⟨AList.mem_lookup_iff.1 hl, hc⟩

omit [DecidableEq K] in
/-- A selection returns no key twice. -/
theorem nodup_keys_select (t : Table K C) (cond : K → C → Bool) :
    ((t.select cond).map Prod.fst).Nodup := by
  unfold select
  rw [map_map]
  have hk : ((t.entries.reverse.filter fun e => cond e.1 e.2).map Sigma.fst).Sublist
      (t.entries.map Sigma.fst).reverse := by
    rw [← map_reverse]
    exact filter_sublist.map _
  exact (nodup_reverse.2 t.nodupKeys).sublist hk

/-- A new row that a selection leaves out does not change it. -/
theorem select_insert_of_not (c : C) (h : ∀ c, ¬ cond k c) :
    select (t.insert k c) cond = t.select cond := by
  unfold select
  rw [AList.entries_insert]
  have hf : ∀ es : List (Sigma fun _ : K => C),
      (es.kerase k).filter (fun e => cond e.1 e.2) = es.filter fun e => cond e.1 e.2 := by
    intro es
    induction es with
    | nil => rfl
    | cons e es ih =>
      obtain ⟨k', c'⟩ := e
      by_cases hk : k = k'
      · subst hk
        rw [filter_cons_of_neg (by exact h c')]
        exact congrArg _ (kerase_cons_eq rfl)
      · rw [kerase_cons_ne hk, filter_cons, filter_cons, ih]
  rw [filter_reverse, filter_cons_of_neg (by exact h c), hf, ← filter_reverse]

omit [DecidableEq K] in
/-- Deleting rows that a selection leaves out does not change it. -/
theorem select_delete_of_not {gone : K → C → Bool} (h : ∀ k c, cond k c → ¬ gone k c) :
    (t.delete gone).select cond = t.select cond := by
  unfold select delete
  rw [filter_reverse, filter_filter, filter_reverse]
  congr 3
  funext e
  cases hc : cond e.1 e.2 with
  | false => rfl
  | true => simpa using h e.1 e.2 hc

theorem mem_orderBy {o : C → ℤ} : (k, c) ∈ t.orderBy cond o ↔ t.lookup k = some c ∧ cond k c :=
  (mem_insertionSort _).trans mem_select

omit [DecidableEq K] in
theorem pairwise_orderBy {o : C → ℤ} : (t.orderBy cond o).Pairwise fun a b => o a.2 ≤ o b.2 :=
  pairwise_insertionSort _ _

theorem mem_selectBy {o : C → ℤ} {l : ℕ} (h : (k, c) ∈ t.selectBy cond o l) :
    t.lookup k = some c ∧ cond k c :=
  mem_orderBy.1 (mem_of_mem_take h)

end Table

end Boru
