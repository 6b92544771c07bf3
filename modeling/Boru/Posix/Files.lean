import Boru.Posix.Create

/-!
# Removing and moving files

`removeFile` takes a file or a link away, and `rename` moves one and replaces what was at the
target.  Neither follows a link at the end of its paths.  As long as only regular files come and go,
the directories and links stay as they are, and every path leads to the same place as before.

## Main results

* `Tree.removeFile_cases`, `Tree.rename_cases` : what the two operations do.
* `Tree.SameDirs.locate_iff` : files that come and go change no place a path leads to.
* `Tree.locate_false_iff` : following links at the end of a path matters only if it is a link.
-/

namespace Boru.Posix

namespace Tree

variable {N A : Type} [DecidableEq N]

/-- Whether a directory is at a place can be decided whatever the contents of the files are. -/
instance decidableEqDir : (x : Option (Node N A)) → Decidable (x = some .dir)
  | some .dir => isTrue rfl
  | some (.file _) => isFalse (by simp)
  | some (.symlink _) => isFalse (by simp)
  | none => isFalse (by simp)

variable (t : Tree N A)

/-- A tree without a node that is not a directory. -/
def remove (q : Place N) (hq : t.node q ≠ some .dir) : Tree N A where
  nodes := t.nodes.erase q
  root := by
    have hne : [] ≠ q := by
      rintro rfl
      exact hq node_nil
    rw [AList.lookup_erase_ne hne]
    exact t.root
  inDirectory := by
    intro p hp hne
    have hdir := t.inDirectory p
      (AList.mem_keys.1 (AList.mem_erase.1 (AList.mem_keys.2 hp)).2) hne
    have hpq : p.dropLast ≠ q := by
      rintro rfl
      exact hq hdir
    rw [AList.lookup_erase_ne hpq]
    exact hdir
  cwd := t.cwd
  cwd_dir := by
    have hne : t.cwd ≠ q := by
      rintro rfl
      exact hq node_cwd
    rw [AList.lookup_erase_ne hne]
    exact t.cwd_dir

section Remove

variable {t : Tree N A} {p q : Place N} {hq : t.node q ≠ some .dir}

@[simp] theorem node_remove_self : (t.remove q hq).node q = none := AList.lookup_erase _ _

theorem node_remove_ne (h : p ≠ q) : (t.remove q hq).node p = t.node p := AList.lookup_erase_ne h

theorem node_remove_of_dir (h : t.node p = some .dir) : (t.remove q hq).node p = some .dir := by
  have hne : p ≠ q := by
    rintro rfl
    exact hq h
  rw [node_remove_ne hne, h]

theorem node_remove_ne_dir (h : t.node p ≠ some .dir) : (t.remove q hq).node p ≠ some .dir := by
  by_cases hpq : p = q
  · subst hpq
    rw [node_remove_self]
    exact (Option.some_ne_none _).symm
  · rwa [node_remove_ne hpq]

end Remove

/-- One tree lacks a node of another. -/
structure Removes (t u : Tree N A) (p : Place N) : Prop where
  /-- Something was there that is not a directory. -/
  not_dir : t.node p ≠ some .dir
  node_self : u.node p = none
  /-- Nothing else has changed. -/
  node_ne : ∀ r, r ≠ p → u.node r = t.node r
  /-- The working directory is the same. -/
  cwd_eq : u.cwd = t.cwd

/-- A node of one tree is at another place in the other, instead of what was there. -/
structure Moves (t u : Tree N A) (p q : Place N) : Prop where
  ne : p ≠ q
  not_dir : t.node p ≠ some .dir
  /-- What is replaced is not a directory. -/
  target_not_dir : t.node q ≠ some .dir
  node_source : u.node p = none
  node_target : u.node q = t.node p
  /-- Nothing else has changed. -/
  node_ne : ∀ r, r ≠ p → r ≠ q → u.node r = t.node r
  /-- The working directory is the same. -/
  cwd_eq : u.cwd = t.cwd

variable (path : Path N)

def removeFile : Prog (Tree N A) Errno Unit := fun t =>
  match t.locate true path with
  | .error e => (.error e, t)
  | .ok p =>
    if t.node p = none then (.error .notFound, t)
    else if hp : t.node p = some .dir then (.error .isADirectory, t)
    else (.ok (), t.remove p hp)

/-- `rename`, of a file or a link. -/
def rename (source target : Path N) : Prog (Tree N A) Errno Unit := fun t =>
  match t.locate true source, t.locate true target with
  | .error e, _ => (.error e, t)
  | .ok _, .error e => (.error e, t)
  | .ok p, .ok q =>
    match t.node p with
    | none => (.error .notFound, t)
    | some x =>
      if p = q then (.ok (), t)
      else if hp : t.node p = some .dir then (.error .isADirectory, t)
      else if hq : t.node q = some .dir then (.error .isADirectory, t)
      else if hd : t.node q.dropLast = some .dir then
        (.ok (), ((t.remove p hp).remove q (node_remove_ne_dir hq)).put q x node_remove_self
          (node_remove_of_dir (node_remove_of_dir hd)))
      else (.error .notFound, t)

def content : Option A :=
  match t.find false path with
  | .ok (_, .file a) => some a
  | _ => none

def isFile : Bool := (t.content path).isSome

section Operations

variable {t : Tree N A} {path source target : Path N} {p q : Place N} {a : A}

theorem content_eq_some :
    t.content path = some a ↔ ∃ q, t.locate false path = .ok q ∧ t.node q = some (.file a) := by
  unfold content
  constructor
  · intro h
    split at h
    · cases h
      exact ⟨_, find_eq_ok.1 (by assumption)⟩
    · cases h
  · rintro ⟨q, hf⟩
    rw [find_eq_ok.2 hf]

/-- **What removing a file does.** -/
theorem removeFile_cases (path : Path N) (t : Tree N A) :
    (∃ e, (removeFile path).exec t = (.error e, t)) ∨
      ∃ p u, (removeFile path).exec t = (.ok (), u) ∧ t.locate true path = .ok p ∧
        t.Removes u p := by
  show (∃ e, removeFile path t = (.error e, t)) ∨
    ∃ p u, removeFile path t = (.ok (), u) ∧ t.locate true path = .ok p ∧ t.Removes u p
  unfold removeFile
  cases t.locate true path with
  | error e => exact .inl ⟨e, rfl⟩
  | ok p =>
    dsimp only
    split_ifs with hn hd
    · exact .inl ⟨_, rfl⟩
    · exact .inl ⟨_, rfl⟩
    · exact .inr ⟨p, _, rfl, rfl, hd, node_remove_self, fun _ h => node_remove_ne h, rfl⟩

/-- **What renaming a file does.** -/
theorem rename_cases (source target : Path N) (t : Tree N A) :
    (∃ e, (rename source target).exec t = (.error e, t)) ∨
      ∃ p q u, (rename source target).exec t = (.ok (), u) ∧ t.locate true source = .ok p ∧
        t.locate true target = .ok q ∧ (p = q ∧ u = t ∨ t.Moves u p q) := by
  show (∃ e, rename source target t = (.error e, t)) ∨
    ∃ p q u, rename source target t = (.ok (), u) ∧ t.locate true source = .ok p ∧
      t.locate true target = .ok q ∧ (p = q ∧ u = t ∨ t.Moves u p q)
  unfold rename
  cases t.locate true source with
  | error e => exact .inl ⟨e, rfl⟩
  | ok p =>
    cases t.locate true target with
    | error e => exact .inl ⟨e, rfl⟩
    | ok q =>
      dsimp only
      split
      · exact .inl ⟨_, rfl⟩
      · rename_i x hx
        split_ifs with hpq hp hq hd
        · exact .inr ⟨p, q, t, rfl, rfl, rfl, .inl ⟨hpq, rfl⟩⟩
        · exact .inl ⟨_, rfl⟩
        · exact .inl ⟨_, rfl⟩
        · have ha := adds_put ((t.remove p hp).remove q (node_remove_ne_dir hq)) q x
            node_remove_self (node_remove_of_dir (node_remove_of_dir hd))
          refine .inr ⟨p, q, _, rfl, rfl, rfl, .inr ⟨hpq, hp, hq, ?_, ?_, ?_, rfl⟩⟩
          · rw [ha.node_ne p hpq, node_remove_ne hpq, node_remove_self]
          · rw [ha.node_self, hx]
          · intro r hrp hrq
            rw [ha.node_ne r hrq, node_remove_ne hrq, node_remove_ne hrp]
        · exact .inl ⟨_, rfl⟩

end Operations

/-! ### Files that come and go -/

/-- Two trees with the same directories and links. -/
structure SameDirs (t u : Tree N A) : Prop where
  dir_iff : ∀ p, u.node p = some .dir ↔ t.node p = some .dir
  symlink_iff : ∀ p target, u.node p = some (.symlink target) ↔ t.node p = some (.symlink target)
  cwd_eq : u.cwd = t.cwd

namespace SameDirs

variable {t u v : Tree N A} {nf : Bool} {links : ℕ} {here : Place N} {cs : Path N}

theorem refl (t : Tree N A) : t.SameDirs t := ⟨fun _ => Iff.rfl, fun _ _ => Iff.rfl, rfl⟩

theorem symm (h : t.SameDirs u) : u.SameDirs t :=
  ⟨fun p => (h.dir_iff p).symm, fun p target => (h.symlink_iff p target).symm, h.cwd_eq.symm⟩

theorem trans (h₁ : t.SameDirs u) (h₂ : u.SameDirs v) : t.SameDirs v :=
  ⟨fun p => (h₂.dir_iff p).trans (h₁.dir_iff p),
    fun p target => (h₂.symlink_iff p target).trans (h₁.symlink_iff p target),
    h₂.cwd_eq.trans h₁.cwd_eq⟩

/-- Trees that differ in places where neither has a directory or a link. -/
theorem of_forall {S : Place N → Prop} (hs : ∀ p, ¬ S p → u.node p = t.node p)
    (ho : ∀ p, S p → t.node p = none ∨ ∃ a, t.node p = some (.file a))
    (hn : ∀ p, S p → u.node p = none ∨ ∃ a, u.node p = some (.file a)) (hc : u.cwd = t.cwd) :
    t.SameDirs u := by
  refine ⟨fun p => ?_, fun p target => ?_, hc⟩
  all_goals
    by_cases hp : S p
    · rcases ho p hp with h | ⟨a, h⟩ <;> rcases hn p hp with h' | ⟨a', h'⟩ <;> simp [h, h']
    · rw [hs p hp]

theorem walk_eq_ok {r : Place N × ℕ} (hs : t.SameDirs u) (hh : t.node here = some .dir)
    (h : t.walk nf links here cs = .ok r) : u.walk nf links here cs = .ok r := by
  refine walk_ok_induction (motive := fun links here cs => u.walk nf links here cs = .ok r)
    hh h walk_nil (fun _ _ _ ih => walk_rootDir.trans ih) (fun _ _ _ ih => walk_curDir.trans ih)
    (fun _ _ _ ih => walk_parentDir.trans ih) ?_
    (fun _ _ _ _ hn ih => (walk_dir ((hs.dir_iff _).2 hn)).trans ih) ?_
  · intro here n hr hl
    rw [walk_last fun target hu => hl target ((hs.symlink_iff _ _).1 (hr ▸ hu)), ← hr]
  · intro links here n cs target hn hf ih
    rwa [walk_symlink_succ ((hs.symlink_iff _ _).2 hn), if_neg hf]

/-- **Files that come and go change no place a path leads to.** -/
theorem locate_iff {path : Path N} {q : Place N} (h : t.SameDirs u) :
    u.locate nf path = .ok q ↔ t.locate nf path = .ok q := by
  have hi : ∀ {t u : Tree N A}, t.SameDirs u → t.locate nf path = .ok q →
      u.locate nf path = .ok q := by
    intro t u h hl
    obtain ⟨hne, links, hw⟩ := locate_eq_ok.1 hl
    refine locate_eq_ok.2 ⟨hne, links, ?_⟩
    rw [h.cwd_eq]
    exact h.walk_eq_ok node_cwd hw
  exact ⟨hi h.symm, hi h⟩

end SameDirs

section Links

variable {t u : Tree N A} {path : Path N} {p q : Place N}

/-- What is neither a directory nor a link is a file or nothing. -/
theorem none_or_file_of_ne (hd : t.node p ≠ some .dir)
    (hl : ∀ target, t.node p ≠ some (.symlink target)) :
    t.node p = none ∨ ∃ a, t.node p = some (.file a) := by
  cases h : t.node p with
  | none => exact .inl rfl
  | some x =>
    cases x with
    | dir => exact absurd h hd
    | file a => exact .inr ⟨a, rfl⟩
    | symlink target => exact absurd h (hl target)

theorem Removes.sameDirs (h : t.Removes u p) (hl : ∀ target, t.node p ≠ some (.symlink target)) :
    t.SameDirs u := by
  refine .of_forall (S := fun r => r = p) h.node_ne ?_ ?_ h.cwd_eq
  · rintro r rfl
    exact none_or_file_of_ne h.not_dir hl
  · rintro r rfl
    exact .inl h.node_self

theorem Moves.sameDirs (h : t.Moves u p q) (hs : ∀ target, t.node p ≠ some (.symlink target))
    (ht : ∀ target, t.node q ≠ some (.symlink target)) : t.SameDirs u := by
  have hm := none_or_file_of_ne h.not_dir hs
  refine .of_forall (S := fun r => r = p ∨ r = q) (fun r hr => ?_) ?_ ?_ h.cwd_eq
  · exact h.node_ne r (fun he => hr (.inl he)) fun he => hr (.inr he)
  · rintro r (rfl | rfl)
    · exact hm
    · exact none_or_file_of_ne h.target_not_dir ht
  · rintro r (rfl | rfl)
    · exact .inl h.node_source
    · rwa [h.node_target]

/-- Not following a link at the end of a walk makes a difference only if there is one. -/
theorem walk_false_of_true {links : ℕ} {here : Place N} {cs : Path N} {r : Place N × ℕ}
    (hh : t.node here = some .dir) (hr : ∀ target, t.node r.1 ≠ some (.symlink target))
    (h : t.walk true links here cs = .ok r) : t.walk false links here cs = .ok r := by
  refine walk_ok_induction (motive := fun links here cs => t.walk false links here cs = .ok r)
    hh h walk_nil (fun _ _ _ ih => walk_rootDir.trans ih) (fun _ _ _ ih => walk_curDir.trans ih)
    (fun _ _ _ ih => walk_parentDir.trans ih) ?_
    (fun _ _ _ _ hn ih => (walk_dir hn).trans ih) ?_
  · intro here n hl _
    rw [walk_last fun target hn => absurd (hl ▸ hn) (hr target), ← hl]
  · intro links here n cs target hn _ ih
    rwa [walk_symlink_succ hn, Bool.false_and, if_neg Bool.false_ne_true]

theorem not_symlink_of_readLink (hl : t.readLink path = none) (h : t.locate true path = .ok q)
    (target : Path N) : t.node q ≠ some (.symlink target) := by
  intro hn
  rw [readLink_eq_some.2 ⟨q, h, hn⟩] at hl
  cases hl

/-- A path that is no link leads to the same place whether links are followed at its end or not. -/
theorem locate_false_iff (hl : t.readLink path = none) :
    t.locate false path = .ok q ↔ t.locate true path = .ok q := by
  have hi : ∀ q, t.locate true path = .ok q → t.locate false path = .ok q := by
    intro q h
    obtain ⟨hne, rest, hw⟩ := locate_eq_ok.1 h
    exact locate_eq_ok.2 ⟨hne, rest, walk_false_of_true node_cwd (not_symlink_of_readLink hl h) hw⟩
  refine ⟨fun h => ?_, hi q⟩
  obtain ⟨q', hq'⟩ := exists_locate_true h
  have hs := hi q' hq'
  rw [h] at hs
  cases hs
  exact hq'

end Links

end Tree

end Boru.Posix
