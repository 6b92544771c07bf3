import Mathlib.Data.List.Infix

/-!
# Paths

A path is the list of its components, as `std::path::Path::components` gives them; a place is where
a path leads to, as the names on the way from the root.

## Main results

* `Place.path_prefix_iff` : one place lies under another if and only if the components of its path
  start with those of the other.
-/

namespace Boru.Posix

variable {N : Type*}

inductive Component (N : Type*) where
  /-- The root directory, at the beginning of an absolute path. -/
  | rootDir
  | curDir
  | parentDir
  | normal (name : N)
  deriving DecidableEq

abbrev Path (N : Type*) := List (Component N)

/-- A place in a tree of directories: the names on the way from the root. -/
abbrev Place (N : Type*) := List N

namespace Path

def isAbsolute : Path N → Bool
  | .rootDir :: _ => true
  | _ => false

/-- `join`: an absolute path replaces the first one. -/
def join : Path N → Path N → Path N
  | _, .rootDir :: q => .rootDir :: q
  | [], q => q
  | p, .curDir :: q => p ++ q
  | p, q => p ++ q

variable (p : Path N)

/-- `file_name`: the last component, if it is a name. -/
def fileName : Option N :=
  match p.getLast? with
  | some (.normal n) => some n
  | _ => none

/-- `parent`: the path without its last component. -/
def parent : Option (Path N) :=
  match p.getLast? with
  | none | some .rootDir => none
  | some _ => some p.dropLast

@[simp] theorem fileName_concat (n : N) : fileName (p ++ [.normal n]) = some n := by
  simp [fileName]

@[simp] theorem parent_concat (n : N) : parent (p ++ [.normal n]) = some p := by
  simp [parent]

/-- The component that a part of a text between two separators stands for. -/
def segment (part : List Char) : Option (Component (List Char)) :=
  if part = [] ∨ part = ['.'] then none
  else if part = ['.', '.'] then some .parentDir
  else some (.normal part)

def parse (text : List Char) : Path (List Char) :=
  let parts := text.splitOn '/'
  let body := parts.filterMap segment
  match text with
  | '/' :: _ => .rootDir :: body
  | _ => if parts.head? = some ['.'] then .curDir :: body else body

def IsName (text : List Char) : Prop :=
  text ≠ [] ∧ '/' ∉ text ∧ text ≠ ['.'] ∧ text ≠ ['.', '.']

instance (text : List Char) : Decidable (IsName text) :=
  inferInstanceAs (Decidable (_ ∧ _ ∧ _ ∧ _))

/-- A text of three characters is a name, if it has no separator. -/
theorem isName_of_three_le {text : List Char} (hl : 3 ≤ text.length) (hs : '/' ∉ text) :
    IsName text := by
  refine ⟨?_, hs, ?_, ?_⟩
  all_goals
    rintro rfl
    simp at hl

theorem parse_of_isName {text : List Char} (h : IsName text) : parse text = [.normal text] := by
  obtain ⟨hne, hsl, hdo, hd⟩ := h
  have hsp : text.splitOn '/' = [text] := by
    refine List.splitOnP_eq_singleton fun c hc => ?_
    simp only [beq_eq_false_iff_ne]
    rintro rfl
    exact hsl hc
  have hs : segment text = some (.normal text) := by
    simp [segment, hne, hdo, hd]
  obtain ⟨c, rest, rfl⟩ := List.exists_cons_of_ne_nil hne
  have hc : c ≠ '/' := by
    rintro rfl
    exact hsl List.mem_cons_self
  unfold parse
  rw [hsp]
  dsimp only [List.filterMap_cons, List.filterMap_nil]
  rw [hs]
  split
  · rename_i heq
    exact absurd (List.cons.inj heq).1 hc
  · rw [if_neg (by simpa using hdo)]

theorem join_normal (n : N) : join p [.normal n] = p ++ [.normal n] := by
  cases p <;> rfl

end Path

def Place.path (q : Place N) : Path N := .rootDir :: q.map .normal

theorem Place.path_append (q r : Place N) : Place.path (q ++ r) = q.path ++ r.map .normal := by
  simp [Place.path]

theorem normal_injective : Function.Injective (Component.normal : N → Component N) := by
  intro a b h
  cases h
  rfl

theorem Place.path_prefix_iff {q r : Place N} : q.path <+: r.path ↔ q <+: r := by
  unfold Place.path
  rw [List.cons_prefix_cons, and_iff_right rfl]
  constructor
  · rintro ⟨rest, h⟩
    obtain ⟨front, back, rfl, hf, -⟩ := List.map_eq_append_iff.1 h.symm
    exact ⟨back, congrArg (· ++ back) ((List.map_injective_iff.2 normal_injective) hf).symm⟩
  · rintro ⟨rest, rfl⟩
    exact ⟨rest.map .normal, List.map_append.symm⟩

end Boru.Posix
