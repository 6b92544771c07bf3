import Mathlib.Data.List.Basic
import Mathlib.Order.Lattice

/-!
# Ordered maps and sets

A `BTreeMap` is the list of its entries in strictly increasing order of the keys, which is the
order of iteration.  All changes are instances of `BTreeMap.alter`, and `BTreeMap.get_alter` says
what they do.  A `BTreeSet` is a map to `Unit`.
-/

namespace Boru

/-- A map whose entries are sorted by key. -/
structure BTreeMap (K V : Type*) [LT K] where
  /-- The entries in the order of iteration. -/
  entries : List (K × V)
  /-- The keys are strictly increasing. -/
  sorted : entries.Pairwise fun x y => x.1 < y.1

namespace BTreeMap

variable {K V : Type*} [LinearOrder K]

/-- The value of a key in a list of entries. -/
def getAux (k : K) : List (K × V) → Option V
  | [] => none
  | (k', v) :: es => if k = k' then some v else getAux k es

/-- Replace the value of `k` in a sorted list of entries. -/
def alterAux (k : K) (f : Option V → Option V) : List (K × V) → List (K × V)
  | [] => ((f none).map (k, ·)).toList
  | (k', v) :: es =>
    if k < k' then ((f none).map (k, ·)).toList ++ (k', v) :: es
    else if k = k' then ((f (some v)).map (k, ·)).toList ++ es
    else (k', v) :: alterAux k f es

variable {k : K} {f : Option V → Option V} {es : List (K × V)}

theorem mem_alterAux {x : K × V} (h : x ∈ alterAux k f es) : x.1 = k ∨ x ∈ es := by
  induction es with
  | nil =>
    obtain ⟨v, -, rfl⟩ := Option.map_eq_some_iff.1 (Option.mem_toList.1 h)
    exact .inl rfl
  | cons y es ih =>
    have hn : ∀ o : Option V, x ∈ (o.map (k, ·)).toList → x.1 = k := fun o ho => by
      obtain ⟨v, -, rfl⟩ := Option.map_eq_some_iff.1 (Option.mem_toList.1 ho)
      rfl
    unfold alterAux at h
    split_ifs at h
    · exact (List.mem_append.1 h).imp (hn _) id
    · exact (List.mem_append.1 h).imp (hn _) (List.mem_cons_of_mem _)
    · rcases List.mem_cons.1 h with h | h
      · exact .inr (h ▸ List.mem_cons_self)
      · exact (ih h).imp_right (List.mem_cons_of_mem _)

theorem sorted_alterAux (h : es.Pairwise fun x y => x.1 < y.1) :
    (alterAux k f es).Pairwise fun x y => x.1 < y.1 := by
  induction es with
  | nil => cases hf : f none <;> simp [alterAux]
  | cons y es ih =>
    obtain ⟨hy, hes⟩ := List.pairwise_cons.1 h
    have hn : ∀ (o : Option V) (l : List (K × V)), (∀ x ∈ l, k < x.1) →
        l.Pairwise (fun x y => x.1 < y.1) →
        ((o.map (k, ·)).toList ++ l).Pairwise fun x y => x.1 < y.1 := fun o l hl hp => by
      cases o with
      | none => exact hp
      | some v => exact List.pairwise_cons.2 ⟨hl, hp⟩
    rcases lt_trichotomy k y.1 with hlt | heq | hgt
    · rw [alterAux, if_pos hlt]
      refine hn _ _ (fun x hx => ?_) h
      rcases List.mem_cons.1 hx with rfl | hx
      · exact hlt
      · exact hlt.trans (hy x hx)
    · rw [alterAux, if_neg heq.not_lt, if_pos heq]
      exact hn _ _ (fun x hx => heq ▸ hy x hx) hes
    · rw [alterAux, if_neg hgt.not_gt, if_neg hgt.ne']
      refine List.pairwise_cons.2 ⟨fun x hx => ?_, ih hes⟩
      rcases mem_alterAux hx with hk | hx
      · exact hk ▸ hgt
      · exact hy x hx

def empty : BTreeMap K V := ⟨[], List.Pairwise.nil⟩

instance : EmptyCollection (BTreeMap K V) := ⟨empty⟩

variable (m : BTreeMap K V)

def get (k : K) : Option V := getAux k m.entries

/-- Replace the value of a key; `none` stands for an absent key. -/
def alter (k : K) (f : Option V → Option V) : BTreeMap K V :=
  ⟨alterAux k f m.entries, sorted_alterAux m.sorted⟩

def keys : List K := m.entries.map Prod.fst

@[simp] theorem get_empty (k : K) : (∅ : BTreeMap K V).get k = none := rfl

theorem getAux_eq_none (h : ∀ x ∈ es, k ≠ x.1) : getAux k es = none := by
  induction es with
  | nil => rfl
  | cons y es ih =>
    rw [getAux, if_neg (h y List.mem_cons_self)]
    exact ih fun x hx => h x (List.mem_cons_of_mem _ hx)

theorem getAux_append (k k' : K) (o : Option V) (es : List (K × V)) :
    getAux k' ((o.map (k, ·)).toList ++ es) =
      if k' = k then o.or (getAux k' es) else getAux k' es := by
  cases o with
  | none => simp
  | some v => simp [getAux]

theorem getAux_alterAux (h : es.Pairwise fun x y => x.1 < y.1) (k' : K) :
    getAux k' (alterAux k f es) = if k' = k then f (getAux k es) else getAux k' es := by
  induction es with
  | nil => simpa [alterAux, getAux] using getAux_append k k' (f none) []
  | cons y es ih =>
    obtain ⟨hy, hes⟩ := List.pairwise_cons.1 h
    rcases lt_trichotomy k y.1 with hlt | heq | hgt
    · -- `k` comes before all keys
      have hk : getAux k (y :: es) = none := getAux_eq_none fun x hx => by
        rcases List.mem_cons.1 hx with rfl | hx
        · exact hlt.ne
        · exact (hlt.trans (hy x hx)).ne
      rw [alterAux, if_pos hlt, getAux_append]
      by_cases he : k' = k
      · rw [if_pos he, if_pos he, he, hk, Option.or_none]
      · rw [if_neg he, if_neg he]
    · have hk : getAux k es = none := getAux_eq_none fun x hx => heq ▸ (hy x hx).ne
      rw [alterAux, if_neg heq.not_lt, if_pos heq, getAux_append, getAux, getAux, if_pos heq, ← heq]
      by_cases he : k' = k
      · rw [if_pos he, if_pos he, he, hk, Option.or_none]
      · rw [if_neg he, if_neg he, if_neg he]
    · rw [alterAux, if_neg hgt.not_gt, if_neg hgt.ne', getAux, ih hes, getAux, getAux,
        if_neg hgt.ne']
      by_cases he : k' = k
      · rw [if_pos he, if_pos he, if_neg (he ▸ hgt.ne')]
      · rw [if_neg he, if_neg he]

/-- **What a change does**: the value of `k` is replaced, all other values are kept. -/
theorem get_alter (k k' : K) (f : Option V → Option V) :
    (m.alter k f).get k' = if k' = k then f (m.get k) else m.get k' :=
  getAux_alterAux m.sorted k'

theorem getAux_eq_some {v : V} (h : es.Pairwise fun x y => x.1 < y.1) :
    getAux k es = some v ↔ (k, v) ∈ es := by
  induction es with
  | nil => simp [getAux]
  | cons y es ih =>
    obtain ⟨hy, hes⟩ := List.pairwise_cons.1 h
    rw [getAux, List.mem_cons]
    split_ifs with he
    · constructor
      · rintro ⟨rfl⟩; exact .inl (by rw [he])
      · rintro (heq | hm)
        · rw [← heq]
        · exact absurd he.symm (hy _ hm).ne
    · rw [ih hes]
      exact ⟨.inr, fun h => h.resolve_left fun heq => he (by rw [← heq])⟩

theorem get_eq_some {m : BTreeMap K V} {v : V} :
    m.get k = some v ↔ (k, v) ∈ m.entries := getAux_eq_some m.sorted

end BTreeMap

abbrev BTreeSet (K : Type*) [LT K] := BTreeMap K Unit

namespace BTreeSet

variable {K : Type*} [LinearOrder K]

instance : Membership K (BTreeSet K) := ⟨fun s k => (s.get k).isSome⟩

instance (s : BTreeSet K) (k : K) : Decidable (k ∈ s) :=
  inferInstanceAs (Decidable ((s.get k).isSome = true))

variable {s : BTreeSet K} {k : K}

theorem mem_def : k ∈ s ↔ (s.get k).isSome = true := Iff.rfl

def insert (s : BTreeSet K) (k : K) : BTreeSet K := s.alter k fun _ => some ()

def remove (s : BTreeSet K) (k : K) : BTreeSet K := s.alter k fun _ => none

@[simp] theorem not_mem_empty (k : K) : k ∉ (∅ : BTreeSet K) := by simp [mem_def]

@[simp] theorem mem_insert {k' : K} : k' ∈ s.insert k ↔ k' = k ∨ k' ∈ s := by
  rw [mem_def, mem_def, insert, BTreeMap.get_alter]
  split_ifs with h <;> simp [h]

@[simp] theorem mem_remove {k' : K} : k' ∈ s.remove k ↔ k' ≠ k ∧ k' ∈ s := by
  rw [mem_def, mem_def, remove, BTreeMap.get_alter]
  split_ifs with h <;> simp [h]

theorem mem_keys : k ∈ s.keys ↔ k ∈ s := by
  rw [mem_def, Option.isSome_iff_exists, BTreeMap.keys, List.mem_map]
  constructor
  · rintro ⟨⟨_, u⟩, h, rfl⟩
    exact ⟨u, BTreeMap.get_eq_some.2 h⟩
  · rintro ⟨u, h⟩
    exact ⟨(k, u), BTreeMap.get_eq_some.1 h, rfl⟩

end BTreeSet

end Boru
