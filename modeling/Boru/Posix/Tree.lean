import Boru.Collections.HashMap
import Boru.Posix.Path

/-!
# Trees of directories

A tree gives the node at each place: a directory, a file or a symbolic link.  `walk` follows a path
from a directory, as the operating system does: a link in the middle of a path is followed, and one
at its end unless the caller asks otherwise.  The number of links that may be followed is bounded,
so a cycle of links is an error.  The last component may be missing; the place is then the one at
which a node would be created.

## Main results

* `Tree.walk_append` : following two paths one after the other.
* `Tree.walk_mono` : a larger bound on the links leads to the same place.
* `Tree.walk_of_le` : adding nodes changes no walk that ends at a node.
-/

namespace Boru.Posix

inductive Node (N A : Type*) where
  | dir
  | file (content : A)
  | symlink (target : Path N)
  deriving DecidableEq

/-- Errors of the operating system. -/
inductive Errno where
  | notFound
  | notADirectory
  | tooManyLinks
  | alreadyExists
  | isADirectory

/-- A tree of directories, and the directory that relative paths start from. -/
structure Tree (N A : Type*) [DecidableEq N] where
  nodes : HashMap (Place N) (Node N A)
  root : nodes.lookup [] = some .dir
  /-- Every other node is in a directory. -/
  inDirectory : ∀ p ∈ nodes.keys, p ≠ [] → nodes.lookup p.dropLast = some .dir
  cwd : Place N
  cwd_dir : nodes.lookup cwd = some .dir

namespace Tree

variable {N A : Type} [DecidableEq N] (t : Tree N A)

def node (p : Place N) : Option (Node N A) := t.nodes.lookup p

/-- Follow a path from a directory; `jump` continues after a link. -/
def pass (nofollow : Bool) (links : ℕ) (jump : Place N → Path N → Except Errno (Place N × ℕ)) :
    Place N → Path N → Except Errno (Place N × ℕ)
  | here, [] => .ok (here, links)
  | _, .rootDir :: cs => pass nofollow links jump [] cs
  | here, .curDir :: cs => pass nofollow links jump here cs
  | here, .parentDir :: cs => pass nofollow links jump here.dropLast cs
  | here, .normal n :: cs =>
    match t.node (here ++ [n]) with
    | none => if cs.isEmpty then .ok (here ++ [n], links) else .error .notFound
    | some .dir => pass nofollow links jump (here ++ [n]) cs
    | some (.file _) => if cs.isEmpty then .ok (here ++ [n], links) else .error .notADirectory
    | some (.symlink target) =>
      if nofollow && cs.isEmpty then .ok (here ++ [n], links) else jump here (target ++ cs)

/-- Follow a path from a directory, through at most `links` symbolic links: the place, and how many
more links could be followed. -/
def walk (nofollow : Bool) : ℕ → Place N → Path N → Except Errno (Place N × ℕ)
  | 0 => t.pass nofollow 0 fun _ _ => .error .tooManyLinks
  | links + 1 => t.pass nofollow (links + 1) (walk nofollow links)

variable (nofollow : Bool)

/-- Follow a path from what another path has led to. -/
def enter (ds : Path N) (r : Place N × ℕ) : Except Errno (Place N × ℕ) :=
  match t.node r.1 with
  | some .dir => t.walk nofollow r.2 r.1 ds
  | none => .error .notFound
  | some _ => .error .notADirectory

section Nodes

variable {t} {p : Place N} {n : N} {x : Node N A}

@[simp] theorem node_nil : t.node [] = some .dir := t.root

@[simp] theorem node_cwd : t.node t.cwd = some .dir := t.cwd_dir

theorem node_dropLast (h : t.node p = some x) : t.node p.dropLast = some .dir := by
  by_cases hp : p = []
  · rw [hp]
    exact t.root
  · exact t.inDirectory p (AList.mem_keys.1 (AList.lookup_isSome.1 (by
      unfold node at h
      rw [h]
      rfl))) hp

theorem node_of_concat (h : t.node (p ++ [n]) = some x) : t.node p = some .dir := by
  have hd := node_dropLast h
  rwa [List.dropLast_concat] at hd

/-- Everything above a node is a directory. -/
theorem node_of_append {r : Place N} (hr : r ≠ []) (h : t.node (p ++ r) = some x) :
    t.node p = some .dir := by
  induction r using List.reverseRecOn generalizing x with
  | nil => exact absurd rfl hr
  | append_singleton r n ih =>
    rw [← List.append_assoc] at h
    have hd := node_of_concat h
    by_cases hnil : r = []
    · rwa [hnil, List.append_nil] at hd
    · exact ih hnil hd

end Nodes

section Walk

variable {t} {nf : Bool} {links : ℕ} {here : Place N} {cs ds : Path N} {n : N}

@[simp] theorem walk_nil : t.walk nf links here [] = .ok (here, links) := by
  cases links <;> rfl

@[simp] theorem walk_rootDir : t.walk nf links here (.rootDir :: cs) = t.walk nf links [] cs := by
  cases links <;> rfl

@[simp] theorem walk_curDir : t.walk nf links here (.curDir :: cs) = t.walk nf links here cs := by
  cases links <;> rfl

@[simp] theorem walk_parentDir :
    t.walk nf links here (.parentDir :: cs) = t.walk nf links here.dropLast cs := by
  cases links <;> rfl

theorem walk_missing (h : t.node (here ++ [n]) = none) :
    t.walk nf links here (.normal n :: cs) =
      if cs.isEmpty then .ok (here ++ [n], links) else .error .notFound := by
  cases links <;> simp [walk, pass, h]

theorem walk_dir (h : t.node (here ++ [n]) = some .dir) :
    t.walk nf links here (.normal n :: cs) = t.walk nf links (here ++ [n]) cs := by
  cases links <;> simp [walk, pass, h]

theorem walk_file {a : A} (h : t.node (here ++ [n]) = some (.file a)) :
    t.walk nf links here (.normal n :: cs) =
      if cs.isEmpty then .ok (here ++ [n], links) else .error .notADirectory := by
  cases links <;> simp [walk, pass, h]

theorem walk_symlink_zero {target : Path N} (h : t.node (here ++ [n]) = some (.symlink target)) :
    t.walk nf 0 here (.normal n :: cs) =
      if nf && cs.isEmpty then .ok (here ++ [n], 0) else .error .tooManyLinks := by
  simp [walk, pass, h]

theorem walk_symlink_succ {ta : Path N} (h : t.node (here ++ [n]) = some (.symlink ta)) :
    t.walk nf (links + 1) here (.normal n :: cs) =
      if nf && cs.isEmpty then .ok (here ++ [n], links + 1)
      else t.walk nf links here (ta ++ cs) := by
  simp [walk, pass, h]

/-- Induction along a walk.  After a link the walk starts over with the target of the link in front
of the rest, and one link less. -/
theorem walk_induction {motive : ℕ → Place N → Path N → Prop}
    (nil : ∀ links here, t.node here = some .dir → motive links here [])
    (rootDir : ∀ links here cs, motive links [] cs → motive links here (.rootDir :: cs))
    (curDir : ∀ links here cs, motive links here cs → motive links here (.curDir :: cs))
    (parentDir : ∀ links here cs, motive links here.dropLast cs →
      motive links here (.parentDir :: cs))
    (missing : ∀ links here n cs, t.node here = some .dir → t.node (here ++ [n]) = none →
      motive links here (.normal n :: cs))
    (dir : ∀ links here n cs, t.node (here ++ [n]) = some .dir → motive links (here ++ [n]) cs →
      motive links here (.normal n :: cs))
    (file : ∀ links here n cs a, t.node (here ++ [n]) = some (.file a) →
      motive links here (.normal n :: cs))
    (symlink_zero : ∀ here n cs target, t.node (here ++ [n]) = some (.symlink target) →
      motive 0 here (.normal n :: cs))
    (symlink_succ : ∀ links here n cs target, t.node here = some .dir →
      t.node (here ++ [n]) = some (.symlink target) → motive links here (target ++ cs) →
      motive (links + 1) here (.normal n :: cs))
    (links : ℕ) (here : Place N) (cs : Path N) (hhere : t.node here = some .dir) :
    motive links here cs := by
  -- with a number of links, given what becomes of a link
  have hl : ∀ links, (∀ here n cs target, t.node here = some .dir →
      t.node (here ++ [n]) = some (.symlink target) → motive links here (.normal n :: cs)) →
      ∀ cs here, t.node here = some .dir → motive links here cs := by
    intro links hli cs
    induction cs with
    | nil => exact nil links
    | cons c cs ih =>
      intro here hhere
      cases c with
      | rootDir => exact rootDir _ here cs (ih [] node_nil)
      | curDir => exact curDir _ here cs (ih here hhere)
      | parentDir => exact parentDir _ here cs (ih _ (node_dropLast hhere))
      | normal n =>
        cases hn : t.node (here ++ [n]) with
        | none => exact missing _ here n cs hhere hn
        | some x =>
          cases x with
          | dir => exact dir _ here n cs hn (ih _ hn)
          | file a => exact file _ here n cs a hn
          | symlink target => exact hli here n cs target hhere hn
  induction links generalizing here cs with
  | zero => exact hl 0 (fun here n cs target _ => symlink_zero here n cs target) cs here hhere
  | succ links ih =>
    refine hl _ (fun here n cs target hhere hn => ?_) cs here hhere
    exact symlink_succ links here n cs target hhere hn (ih here _ hhere)

/-- **Following two paths one after the other.** -/
theorem walk_append (hhere : t.node here = some .dir) (hds : ds ≠ []) :
    t.walk nf links here (cs ++ ds) = t.walk false links here cs >>= t.enter nf ds := by
  have hem : ∀ cs : Path N, (cs ++ ds).isEmpty = false := fun cs => by simp [hds]
  refine walk_induction (motive := fun links here cs => t.walk nf links here (cs ++ ds) =
    t.walk false links here cs >>= t.enter nf ds)
    ?_ ?_ ?_ ?_ ?_ ?_ ?_ ?_ ?_ links here cs hhere
  · intro links here hhere
    simp [Except.bind, bind, enter, hhere]
  · intro links here cs ih
    simpa using ih
  · intro links here cs ih
    simpa using ih
  · intro links here cs ih
    simpa using ih
  · intro links here n cs _ hn
    rw [List.cons_append, walk_missing hn, walk_missing hn, hem]
    cases cs <;> simp [Except.bind, bind, enter, hn]
  · intro links here n cs hn ih
    rw [List.cons_append, walk_dir hn, walk_dir hn, ih]
  · intro links here n cs a hn
    rw [List.cons_append, walk_file hn, walk_file hn, hem]
    cases cs <;> simp [Except.bind, bind, enter, hn]
  · intro here n cs target hn
    rw [List.cons_append, walk_symlink_zero hn, walk_symlink_zero hn, hem]
    simp [Except.bind, bind]
  · intro links here n cs target _ hn ih
    rw [List.cons_append, walk_symlink_succ hn, walk_symlink_succ hn, hem, ← List.append_assoc, ih]
    simp

theorem walk_append_eq_ok {r : Place N × ℕ} (hhere : t.node here = some .dir) (hds : ds ≠ []) :
    t.walk nf links here (cs ++ ds) = .ok r ↔
      ∃ d rest, t.walk false links here cs = .ok (d, rest) ∧ t.node d = some .dir ∧
        t.walk nf rest d ds = .ok r := by
  rw [walk_append hhere hds]
  cases hw : t.walk false links here cs with
  | error e => simp [bind, Except.bind]
  | ok s =>
    obtain ⟨d, rest⟩ := s
    simp only [bind, Except.bind, enter, Except.ok.injEq, Prod.mk.injEq]
    constructor
    · intro h
      split at h
      · exact ⟨d, rest, ⟨rfl, rfl⟩, by assumption, h⟩
      · cases h
      · cases h
    · rintro ⟨d', rest', ⟨rfl, rfl⟩, hd, h⟩
      rw [hd]
      exact h

/-- A single name leads to its place, unless it is a link that is followed. -/
theorem walk_last
    (h : ∀ ta, t.node (here ++ [n]) = some (.symlink ta) → nf = true) :
    t.walk nf links here [.normal n] = .ok (here ++ [n], links) := by
  cases hn : t.node (here ++ [n]) with
  | none => simp [walk_missing hn]
  | some x =>
    cases x with
    | dir => simp [walk_dir hn]
    | file a => simp [walk_file hn]
    | symlink ta =>
      cases links with
      | zero => simp [walk_symlink_zero hn, h ta hn]
      | succ links => simp [walk_symlink_succ hn, h ta hn]

@[simp] theorem walk_true_normal :
    t.walk true links here [.normal n] = .ok (here ++ [n], links) := walk_last fun _ _ => rfl

variable (hhere : t.node here = some .dir)

include hhere

/-- Induction along a walk that ends: at a directory, or with the name of what is there. -/
theorem walk_ok_induction {motive : ℕ → Place N → Path N → Prop} {r : Place N × ℕ}
    (h : t.walk nf links here cs = .ok r) (nil : motive r.2 r.1 [])
    (rootDir : ∀ links here cs, motive links [] cs → motive links here (.rootDir :: cs))
    (curDir : ∀ links here cs, motive links here cs → motive links here (.curDir :: cs))
    (parentDir : ∀ links here cs,
      motive links here.dropLast cs → motive links here (.parentDir :: cs))
    (last : ∀ here n, r.1 = here ++ [n] →
      (∀ target, t.node r.1 = some (.symlink target) → nf = true) → motive r.2 here [.normal n])
    (dir : ∀ links here n cs, t.node (here ++ [n]) = some .dir →
      motive links (here ++ [n]) cs → motive links here (.normal n :: cs))
    (symlink : ∀ links here n cs target, t.node (here ++ [n]) = some (.symlink target) →
      ¬ (nf && cs.isEmpty) = true → motive links here (target ++ cs) →
      motive (links + 1) here (.normal n :: cs)) :
    motive links here cs := by
  -- a name at the end, with what is known of links there
  have hl : ∀ links here n cs, cs.isEmpty = true → (here ++ [n], links) = r →
      (∀ target, t.node (here ++ [n]) = some (.symlink target) → nf = true) →
      motive links here (.normal n :: cs) := by
    rintro links here n cs hcs rfl hli
    rw [List.isEmpty_iff.1 hcs]
    exact last here n rfl hli
  revert h
  refine walk_induction (motive := fun links here cs => t.walk nf links here cs = .ok r →
    motive links here cs) ?_ ?_ ?_ ?_ ?_ ?_ ?_ ?_ ?_ links here cs hhere
  · intro links here _ h
    rw [walk_nil] at h
    cases h
    exact nil
  · intro links here cs ih h
    exact rootDir links here cs (ih (walk_rootDir.symm.trans h))
  · intro links here cs ih h
    exact curDir links here cs (ih (walk_curDir.symm.trans h))
  · intro links here cs ih h
    exact parentDir links here cs (ih (walk_parentDir.symm.trans h))
  · intro links here n cs _ hn h
    rw [walk_missing hn] at h
    split_ifs at h with hcs
    exact hl links here n cs hcs (Except.ok.inj h) (by simp [hn])
  · intro links here n cs hn ih h
    exact dir links here n cs hn (ih ((walk_dir hn).symm.trans h))
  · intro links here n cs a hn h
    rw [walk_file hn] at h
    split_ifs at h with hcs
    exact hl links here n cs hcs (Except.ok.inj h) (by simp [hn])
  · intro here n cs target hn h
    rw [walk_symlink_zero hn] at h
    split_ifs at h with hcs
    rw [Bool.and_eq_true] at hcs
    exact hl 0 here n cs hcs.2 (Except.ok.inj h) fun _ _ => hcs.1
  · intro links here n cs target _ hn ih h
    rw [walk_symlink_succ hn] at h
    split_ifs at h with hcs
    · rw [Bool.and_eq_true] at hcs
      exact hl _ here n cs hcs.2 (Except.ok.inj h) fun _ _ => hcs.1
    · exact symlink links here n cs target hn hcs (ih h)

/-- With more links to spare, a walk that ends leads to the same place. -/
theorem walk_mono {r : Place N × ℕ} (h : t.walk nf links here cs = .ok r) (more : ℕ) :
    t.walk nf (links + more) here cs = .ok (r.1, r.2 + more) := by
  refine walk_ok_induction (motive := fun links here cs =>
    t.walk nf (links + more) here cs = .ok (r.1, r.2 + more)) hhere h walk_nil
    (fun _ _ _ ih => walk_rootDir.trans ih) (fun _ _ _ ih => walk_curDir.trans ih)
    (fun _ _ _ ih => walk_parentDir.trans ih) ?_
    (fun _ _ _ _ hn ih => (walk_dir hn).trans ih) ?_
  · intro here n hr hl
    rw [hr] at hl ⊢
    exact walk_last hl
  · intro links here n cs target hn hf ih
    rwa [Nat.add_right_comm, walk_symlink_succ hn, if_neg hf]

theorem walk_links_le {r : Place N × ℕ} (h : t.walk nf links here cs = .ok r) : r.2 ≤ links :=
  walk_ok_induction (motive := fun links _ _ => r.2 ≤ links) hhere h le_rfl (fun _ _ _ ih => ih)
    (fun _ _ _ ih => ih) (fun _ _ _ ih => ih) (fun _ _ _ _ => le_rfl) (fun _ _ _ _ _ ih => ih)
    fun _ _ _ _ _ _ _ ih => Nat.le_succ_of_le ih

/-- Following a relative path from where another one has led to. -/
theorem walk_join {p q : Path N} {d : Place N} {rest : ℕ} {r : Place N × ℕ}
    (hp : t.walk false links here p = .ok (d, rest)) (hd : t.node d = some .dir)
    (hq : q.isAbsolute = false) (h : t.walk false rest d q = .ok r) :
    t.walk false links here (p.join q) = .ok r := by
  have ha : ∀ q, t.walk false rest d q = .ok r → t.walk false links here (p ++ q) = .ok r := by
    intro q h
    by_cases hnil : q = []
    · subst hnil
      rw [walk_nil] at h
      cases h
      rwa [List.append_nil]
    · exact (walk_append_eq_ok hhere hnil).2 ⟨d, rest, hp, hd, h⟩
  cases p with
  | nil =>
    rw [walk_nil] at hp
    cases hp
    cases q with
    | nil => exact h
    | cons c q =>
      cases c with
      | rootDir => cases hq
      | curDir | parentDir | normal n => exact h
  | cons c p =>
    cases q with
    | nil => exact ha [] h
    | cons c' q =>
      cases c' with
      | rootDir => cases hq
      | curDir => exact ha q (walk_curDir.symm.trans h)
      | parentDir | normal n => exact ha _ h

end Walk

/-! ### Growing trees -/

/-- Every node of a tree is in another one, in which relative paths start from the same
directory. -/
structure Le (t u : Tree N A) : Prop where
  node_eq : ∀ {p x}, t.node p = some x → u.node p = some x
  /-- The working directory is the same. -/
  cwd_eq : u.cwd = t.cwd

theorem Le.refl (t : Tree N A) : t.Le t := ⟨id, rfl⟩

theorem Le.trans {t u v : Tree N A} (h₁ : t.Le u) (h₂ : u.Le v) : t.Le v :=
  ⟨fun h => h₂.node_eq (h₁.node_eq h), h₂.cwd_eq.trans h₁.cwd_eq⟩

/-- Adding nodes changes no walk that ends at a node. -/
theorem walk_of_le {t u : Tree N A} {nofollow : Bool} {links : ℕ} {here : Place N} {cs : Path N}
    {r : Place N × ℕ} (hle : t.Le u) (hhere : t.node here = some .dir)
    (h : t.walk nofollow links here cs = .ok r) (hr : t.node r.1 ≠ none) :
    u.walk nofollow links here cs = .ok r := by
  obtain ⟨x, hx⟩ := Option.ne_none_iff_exists'.1 hr
  refine walk_ok_induction (motive := fun links here cs => u.walk nofollow links here cs = .ok r)
    hhere h walk_nil (fun _ _ _ ih => walk_rootDir.trans ih) (fun _ _ _ ih => walk_curDir.trans ih)
    (fun _ _ _ ih => walk_parentDir.trans ih) ?_
    (fun _ _ _ _ hn ih => (walk_dir (hle.node_eq hn)).trans ih) ?_
  · intro here n hr hl
    rw [hx, ← hle.node_eq hx, hr] at hl
    rw [walk_last hl, ← hr]
  · intro links here n cs target hn hf ih
    rwa [walk_symlink_succ (hle.node_eq hn), if_neg hf]

/-! ### Queries -/

/-- How many symbolic links the operating system follows. -/
def maxLinks : ℕ := 40

/-- Where a path leads to, or where opening it for writing creates a file. -/
def locate (p : Path N) : Except Errno (Place N) :=
  if p = [] then .error .notFound else (t.walk nofollow maxLinks t.cwd p).map Prod.fst

/-- `metadata`, or `symlink_metadata` for `nofollow`: the place of a path and the node there. -/
def find (p : Path N) : Except Errno (Place N × Node N A) := do
  let q ← t.locate nofollow p
  match t.node q with
  | some x => .ok (q, x)
  | none => .error .notFound

variable (p : Path N)

def canonicalize : Except Errno (Place N) := (t.find false p).map Prod.fst

def existsAt : Bool := (t.find false p).isOk

def readLink : Option (Path N) :=
  match t.find true p with
  | .ok (_, .symlink target) => some target
  | _ => none

/-- A symbolic link that leads to nothing. -/
def Dangling : Prop := (t.readLink p).isSome ∧ t.existsAt p = false

instance (p : Path N) : Decidable (t.Dangling p) := inferInstanceAs (Decidable (_ ∧ _))

def absolute : Path N := if p.isAbsolute then p else t.cwd.path ++ p

section Queries

variable {t} {no : Bool} {path p : Path N} {q d : Place N} {n : N}

theorem locate_eq_ok : t.locate no p = .ok q ↔
    p ≠ [] ∧ ∃ links, t.walk no maxLinks t.cwd p = .ok (q, links) := by
  unfold locate
  split_ifs with hp
  · simp [hp]
  · cases hw : t.walk no maxLinks t.cwd p with
    | error e => simp [Except.map]
    | ok r => simp [Except.map, hp, Prod.ext_iff]

theorem find_eq_ok {x : Node N A} : t.find no p = .ok (q, x) ↔
    t.locate no p = .ok q ∧ t.node q = some x := by
  unfold find
  cases hl : t.locate no p with
  | error e => simp [bind, Except.bind]
  | ok q' =>
    simp only [bind, Except.bind, Except.ok.injEq]
    constructor
    · intro h
      split at h
      · cases h
        exact ⟨rfl, by assumption⟩
      · cases h
    · rintro ⟨rfl, hn⟩
      rw [hn]

theorem canonicalize_eq_ok :
    t.canonicalize p = .ok q ↔ t.locate false p = .ok q ∧ t.node q ≠ none := by
  unfold canonicalize
  constructor
  · intro h
    cases hf : t.find false p with
    | error e =>
      rw [hf] at h
      cases h
    | ok r =>
      rw [hf] at h
      cases h
      obtain ⟨hl, hn⟩ := find_eq_ok.1 hf
      exact ⟨hl, by simp [hn]⟩
  · rintro ⟨hl, hn⟩
    obtain ⟨x, hx⟩ := Option.ne_none_iff_exists'.1 hn
    rw [find_eq_ok.2 ⟨hl, hx⟩]
    rfl

theorem existsAt_iff : t.existsAt p = true ↔ ∃ q, t.canonicalize p = .ok q := by
  unfold existsAt canonicalize
  cases t.find false p <;> simp [Except.toBool, Except.map]

/-- Where a path that ends with a name leads to. -/
theorem locate_concat : t.locate no (p ++ [.normal n]) = .ok q ↔
    ∃ d links rest, t.walk false maxLinks t.cwd p = .ok (d, links) ∧ t.node d = some .dir ∧
      t.walk no links d [.normal n] = .ok (q, rest) := by
  rw [locate_eq_ok, and_iff_right (by simp)]
  simp only [walk_append_eq_ok node_cwd (List.cons_ne_nil _ _)]
  constructor
  · rintro ⟨rest, d, links, hp, hd, hn⟩
    exact ⟨d, links, rest, hp, hd, hn⟩
  · rintro ⟨d, links, rest, hp, hd, hn⟩
    exact ⟨rest, d, links, hp, hd, hn⟩

/-- A walk that ends with something else than a name ends in a directory. -/
theorem node_of_walk_concat {c : Component N} {links rest : ℕ} {no : Bool}
    (hc : ∀ n, c ≠ .normal n) (hd : t.node d = some .dir)
    (h : t.walk no links d [c] = .ok (q, rest)) : t.node q = some .dir := by
  cases c with
  | rootDir =>
    rw [walk_rootDir, walk_nil] at h
    cases h
    exact node_nil
  | curDir =>
    rw [walk_curDir, walk_nil] at h
    cases h
    exact hd
  | parentDir =>
    rw [walk_parentDir, walk_nil] at h
    cases h
    exact node_dropLast hd
  | normal n => exact absurd rfl (hc n)

/-- A path that leads to something else than a directory ends with a name, in a directory. -/
theorem concat_of_not_dir {no : Bool} (h : t.locate no path = .ok q) (hno : t.node q ≠ some .dir) :
    ∃ p n d links rest, path = p ++ [Component.normal n] ∧
      t.walk false maxLinks t.cwd p = .ok (d, links) ∧ t.node d = some .dir ∧
      t.walk no links d [.normal n] = .ok (q, rest) := by
  obtain ⟨hne, rest, hw⟩ := locate_eq_ok.1 h
  obtain ⟨p, c, rfl⟩ : ∃ p c, path = p ++ [c] :=
    ⟨_, _, (List.dropLast_concat_getLast hne).symm⟩
  obtain ⟨d, links, hp, hd, hl⟩ :=
    (walk_append_eq_ok node_cwd (List.cons_ne_nil _ _)).1 hw
  have hc : ∃ n, c = .normal n := by
    by_contra hc
    exact hno (node_of_walk_concat (fun n hn => hc ⟨n, hn⟩) hd hl)
  obtain ⟨n, rfl⟩ := hc
  exact ⟨p, n, d, links, rest, rfl, hp, hd, hl⟩

theorem readLink_eq_some {ta : Path N} : t.readLink path = some ta ↔
    ∃ q, t.locate true path = .ok q ∧ t.node q = some (.symlink ta) := by
  unfold readLink
  constructor
  · intro h
    split at h
    · cases h
      exact ⟨_, find_eq_ok.1 (by assumption)⟩
    · cases h
  · rintro ⟨q, hf⟩
    rw [find_eq_ok.2 hf]

/-- If a path of names leads to something, so does its first name. -/
theorem canonicalize_of_walk {ms : List N} {q : Place N} {rest : ℕ}
    (h : t.walk false maxLinks t.cwd (p ++ (n :: ms).map .normal) = .ok (q, rest))
    (hq : t.node q ≠ none) : ∃ q', t.canonicalize (p ++ [.normal n]) = .ok q' := by
  have hs : p ++ (n :: ms).map Component.normal = (p ++ [.normal n]) ++ ms.map .normal := by
    simp
  rw [hs] at h
  by_cases hms : ms.map (Component.normal : N → Component N) = []
  · rw [hms, List.append_nil] at h
    exact ⟨q, canonicalize_eq_ok.2 ⟨locate_eq_ok.2 ⟨by simp, rest, h⟩, hq⟩⟩
  · obtain ⟨d', rest', hd', hd, -⟩ := (walk_append_eq_ok node_cwd hms).1 h
    exact ⟨d', canonicalize_eq_ok.2 ⟨locate_eq_ok.2 ⟨by simp, rest', hd'⟩, by simp [hd]⟩⟩

end Queries

end Tree

end Boru.Posix
