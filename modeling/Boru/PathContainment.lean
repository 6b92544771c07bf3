import Boru.Posix.Tree

/-!
# Path containment

Before a file is written, its path is compared with the directory it has to stay in.  The file need
not exist yet, so `canonicalizeAllowMissing` resolves the deepest ancestor that exists and appends
the remaining names as they are.  The operating system does the same, with one exception: a symbolic
link that leads to nothing does not exist for the resolution, but opening it for writing follows it.

## Main results

* `absolute_canonicalizeAllowMissing` : unless a path is a dangling link, its canonical form is the
  place that opening it for writing leads to.
* `isPathContained_sound`, `symlinkIsSafe_sound` : what is accepted stays in the root, dangling
  links apart.
-/

namespace Boru.PathContainment

open Posix Tree

variable {N A : Type} [DecidableEq N] (t : Tree N A)

/-- The loop of `canonicalizeAllowMissing`: the components of the ancestor, the last one first, and
the names that were cut off. -/
def climb (path : Path N) : Path N → List N → Path N
  -- the empty path cannot be resolved and has no parent
  | [], _ => path
  | c :: rest, tail =>
    match t.canonicalize (c :: rest).reverse with
    | .ok q => q.path ++ tail.map .normal
    | .error _ =>
      match c with
      | .normal n => climb path rest (n :: tail)
      | _ => path

/-- Canonicalize a path, resolving symlinks, even when trailing components do not exist yet. -/
def canonicalizeAllowMissing (path : Path N) : Path N := climb t path path.reverse []

/-- Check that a path resolves inside a root after symlink resolution. -/
def isPathContained (path root : Path N) : Bool :=
  decide (canonicalizeAllowMissing t root <+: canonicalizeAllowMissing t path)

/-- The target of a link at a path: as it is, or relative to the directory of the link. -/
def linkTarget (path target : Path N) : Path N :=
  if target.isAbsolute then target else (path.parent.getD [.curDir]).join target

/-- Check that a symlink does not escape the shared root folder. -/
def symlinkIsSafe (path root : Path N) : Bool :=
  match t.find true path with
  | .error _ => false
  | .ok (_, .symlink target) => isPathContained t (linkTarget path target) root
  -- not a symlink: nothing to escape
  | .ok _ => true

/-- A place lies under the canonical form of a root. -/
def Under (root : Path N) (q : Place N) : Prop :=
  t.absolute (canonicalizeAllowMissing t root) <+: q.path

instance (root : Path N) (q : Place N) : Decidable (Under t root q) :=
  inferInstanceAs (Decidable (_ <+: _))

section Canonical

variable {t} {path root p : Path N} {q d : Place N} {n : N}

/-- The climb ends at an ancestor that can be resolved. -/
theorem climb_of_ok {tail : List N} (h : t.canonicalize p = .ok q) :
    climb t path p.reverse tail = q.path ++ tail.map .normal := by
  have hne : p.reverse ≠ [] := by
    intro hnil
    rw [List.reverse_eq_nil_iff.1 hnil] at h
    cases h
  obtain ⟨c, rest, hre⟩ := List.exists_cons_of_ne_nil hne
  have hr : t.canonicalize (c :: rest).reverse = .ok q := by
    rw [← hre, List.reverse_reverse, h]
  rw [hre]
  cases c <;> simp only [climb, hr]

/-- A name whose path cannot be resolved is cut off. -/
theorem climb_concat {tail : List N} (h : ∀ q, t.canonicalize (p ++ [Component.normal n]) ≠ .ok q) :
    climb t path (p ++ [Component.normal n]).reverse tail = climb t path p.reverse (n :: tail) := by
  have hr : (p ++ [Component.normal n]).reverse = .normal n :: p.reverse := by simp
  rw [hr]
  simp only [climb]
  rw [List.reverse_cons, List.reverse_reverse]
  cases hc : t.canonicalize (p ++ [Component.normal n]) with
  | ok q => exact absurd hc (h q)
  | error e => rfl

theorem canonicalizeAllowMissing_of_ok (h : t.canonicalize path = .ok q) :
    canonicalizeAllowMissing t path = q.path := by
  unfold canonicalizeAllowMissing
  rw [climb_of_ok h]
  simp

/-- A path that leads to where nothing is, and is not a link, leads there by its last name. -/
theorem concat_of_missing (h : t.locate false path = .ok q) (hn : t.node q = none)
    (hli : t.readLink path = none) :
    ∃ p n d ls, path = p ++ [Component.normal n] ∧
      t.walk false maxLinks t.cwd p = .ok (d, ls) ∧ t.node d = some .dir ∧
      q = d ++ [n] := by
  obtain ⟨p, n, d, ls, rest, rfl, hp, hd, hl⟩ :=
    concat_of_not_dir h (by simp [hn])
  refine ⟨p, n, d, ls, rfl, hp, hd, ?_⟩
  have hnot : ∀ ta, t.node (d ++ [n]) ≠ some (.symlink ta) := by
    intro ta hs
    rw [readLink_eq_some.2 ⟨d ++ [n], locate_concat.2
      ⟨d, ls, ls, hp, hd, walk_true_normal⟩, hs⟩] at hli
    cases hli
  rw [walk_last fun ta h => absurd h (hnot ta)] at hl
  cases hl
  rfl

/-- **The canonical form of a path.**  Unless the path is a dangling link, it is the place that
opening the path for writing leads to. -/
theorem absolute_canonicalizeAllowMissing (h : t.locate false path = .ok q)
    (hda : ¬ t.Dangling path) :
    t.absolute (canonicalizeAllowMissing t path) = q.path := by
  cases hn : t.node q with
  | some x =>
    have hc : t.canonicalize path = .ok q :=
      canonicalize_eq_ok.2 ⟨h, by simp [hn]⟩
    rw [canonicalizeAllowMissing_of_ok hc]
    rfl
  | none =>
    have hm : ∀ q', t.canonicalize path ≠ .ok q' := by
      intro q' hq'
      obtain ⟨hl, hs⟩ := canonicalize_eq_ok.1 hq'
      cases hl.symm.trans h
      exact hs hn
    have hli : t.readLink path = none := by
      by_contra hli
      refine hda ⟨Option.isSome_iff_ne_none.2 hli, ?_⟩
      rw [Bool.eq_false_iff]
      intro hes
      obtain ⟨q', hq'⟩ := existsAt_iff.1 hes
      exact hm q' hq'
    obtain ⟨p, n, d, links, rfl, hp, hd, rfl⟩ := concat_of_missing h hn hli
    unfold canonicalizeAllowMissing
    rw [climb_concat hm]
    by_cases hnil : p = []
    · -- a single name: the path is returned as it is
      subst hnil
      cases hp
      simp [climb, absolute, Path.isAbsolute, Place.path]
    · have hpa : t.canonicalize p = .ok d :=
        canonicalize_eq_ok.2 ⟨locate_eq_ok.2 ⟨hnil, links, hp⟩, by simp [hd]⟩
      rw [climb_of_ok hpa, Place.path_append]
      rfl

/-- Names of which the first leads to nothing are appended as they are. -/
theorem canonicalizeAllowMissing_of_missing {ns : List N} (hp : t.canonicalize p = .ok d)
    (hns : ∀ n ∈ ns.head?, ∀ q, t.canonicalize (p ++ [.normal n]) ≠ .ok q) :
    canonicalizeAllowMissing t (p ++ ns.map Component.normal) = Place.path (d ++ ns) := by
  have hc : ∀ (path : Path N) (ms tail : List N), ms <+: ns →
      climb t path (p ++ ms.map Component.normal).reverse tail =
        climb t path p.reverse (ms ++ tail) := by
    intro path ms
    induction ms using List.reverseRecOn with
    | nil => simp
    | append_singleton ms m ih =>
      intro tail hms
      have hu : ∀ q, t.canonicalize ((p ++ ms.map .normal) ++ [.normal m]) ≠ .ok q := by
        intro q hq
        obtain ⟨n, ns', hn⟩ : ∃ n ns', ms ++ [m] = n :: ns' :=
          List.exists_cons_of_ne_nil (by simp)
        obtain ⟨hl, hno⟩ := canonicalize_eq_ok.1 hq
        obtain ⟨-, rest, hw⟩ := locate_eq_ok.1 hl
        have hpa :
            (p ++ ms.map Component.normal) ++ [.normal m] = p ++ (n :: ns').map .normal := by
          rw [← hn]
          simp
        rw [hpa] at hw
        obtain ⟨q', hq'⟩ := canonicalize_of_walk hw hno
        obtain ⟨rest', rfl⟩ := hms
        exact hns n (by rw [hn]; rfl) q' hq'
      rw [List.map_append, List.map_singleton, ← List.append_assoc, climb_concat hu,
        ih _ ((List.prefix_append ms [m]).trans hms)]
      simp
  unfold canonicalizeAllowMissing
  rw [hc _ ns [] List.prefix_rfl, climb_of_ok hp, List.append_nil, Place.path_append]

/-- The canonical form of a path that is not empty is not empty. -/
theorem canonicalizeAllowMissing_ne_nil (hr : root ≠ []) :
    canonicalizeAllowMissing t root ≠ [] := by
  have hcl : ∀ rev tail, climb t root rev tail ≠ [] := by
    intro rev
    induction rev with
    | nil => exact fun _ => hr
    | cons c rest ih =>
      intro tail
      cases hc : t.canonicalize (c :: rest).reverse with
      | ok q => cases c <;> simp only [climb, hc] <;> simp [Place.path]
      | error e =>
        cases c with
        | normal n =>
          simp only [climb, hc]
          exact ih _
        | rootDir | curDir | parentDir => simpa only [climb, hc] using hr
  exact hcl _ _

theorem absolute_prefix {r s : Path N} (hr : r ≠ []) (h : r <+: s) :
    t.absolute r <+: t.absolute s := by
  obtain ⟨c, r, rfl⟩ := List.exists_cons_of_ne_nil hr
  obtain ⟨rest, rfl⟩ := h
  cases c with
  | rootDir => exact List.prefix_append _ _
  | curDir | parentDir | normal n =>
    exact (List.prefix_append_right_inj _).2 (List.prefix_append _ _)

/-- **What `isPathContained` accepts stays in the root**, dangling links apart. -/
theorem isPathContained_sound (hr : root ≠ []) (ho : t.locate false path = .ok q)
    (hd : ¬ t.Dangling path) (h : isPathContained t path root = true) :
    Under t root q := by
  have hle := absolute_prefix (t := t) (canonicalizeAllowMissing_ne_nil hr) (of_decide_eq_true h)
  rwa [absolute_canonicalizeAllowMissing ho hd] at hle

/-- A link leads to where its target leads to. -/
theorem locate_linkTarget {ta : Path N} (hln : t.readLink path = some ta)
    (ho : t.locate false path = .ok q) (ht : linkTarget path ta ≠ []) :
    t.locate false (linkTarget path ta) = .ok q := by
  obtain ⟨q₀, hl, hs⟩ := readLink_eq_some.1 hln
  obtain ⟨p, n, d, ls, rest, rfl, hp, hd, hla⟩ :=
    concat_of_not_dir hl (by rw [hs]; simp)
  rw [walk_true_normal] at hla
  cases hla
  obtain ⟨d', links', rest', hp', -, hf⟩ := locate_concat.1 ho
  rw [hp] at hp'
  cases hp'
  -- the walk through the link goes on with its target, and one link less
  cases ls with
  | zero =>
    rw [walk_symlink_zero hs] at hf
    cases hf
  | succ ls =>
    rw [walk_symlink_succ hs, List.append_nil] at hf
    have hm := walk_mono hd hf
    refine locate_eq_ok.2 ⟨ht, ?_⟩
    unfold linkTarget
    split_ifs with ha
    · obtain ⟨more, hli⟩ := Nat.exists_eq_add_of_le
        ((Nat.le_succ ls).trans (walk_links_le node_cwd hp))
      obtain ⟨ts, rfl⟩ : ∃ ts, ta = .rootDir :: ts := by
        cases ta with
        | nil => cases ha
        | cons c ts =>
          cases c with
          | rootDir => exact ⟨ts, rfl⟩
          | curDir | parentDir | normal n => cases ha
      have hen := hm more
      rw [← hli] at hen
      exact ⟨_, hen⟩
    · rw [Path.parent_concat]
      exact ⟨_, walk_join node_cwd hp hd (Bool.eq_false_of_not_eq_true ha) (hm 1)⟩

/-- **A link that `symlinkIsSafe` accepts stays in the root**, if its target is not a dangling
link. -/
theorem symlinkIsSafe_sound {ta : Path N} (hr : root ≠ [])
    (hli : t.readLink path = some ta) (ho : t.locate false path = .ok q)
    (hd : ¬ t.Dangling (linkTarget path ta)) (h : symlinkIsSafe t path root = true) :
    Under t root q := by
  obtain ⟨q₀, hl, hs⟩ := readLink_eq_some.1 hli
  unfold symlinkIsSafe at h
  rw [find_eq_ok.2 ⟨hl, hs⟩] at h
  dsimp only at h
  have ht : linkTarget path ta ≠ [] := by
    intro hnil
    rw [hnil] at h
    have hem := List.prefix_nil.1 (of_decide_eq_true h)
    exact canonicalizeAllowMissing_ne_nil hr hem
  exact isPathContained_sound hr (locate_linkTarget hli ho ht) hd h

end Canonical

end Boru.PathContainment
