import Boru.Posix.Tree
import Boru.Prog.Basic

/-!
# Creating nodes

`create` adds a node at a place where nothing is; it does not follow a link at the end of the path.
`createDirAll` makes a directory with its ancestors, as the standard library does: it tries to make
the directory, and if an ancestor is missing it makes the ancestors first and tries again.  What has
been made stays when a later step fails.

## Main results

* `Tree.create_cases` : what a creation does.
* `Tree.createDirAll_growsIn` : below an existing directory, only the named directories are made.
-/

namespace Boru.Posix

namespace Tree

open Prog List

variable {N A : Type} [DecidableEq N]

def put (t : Tree N A) (q : Place N) (x : Node N A) (hq : t.node q = none)
    (hd : t.node q.dropLast = some .dir) : Tree N A where
  nodes := t.nodes.insert q x
  root := by
    have hne : [] ≠ q := by
      rintro rfl
      rw [node_nil] at hq
      cases hq
    rw [AList.lookup_insert_ne hne]
    exact t.root
  inDirectory := by
    intro p hp hne
    have hold : ∀ p : Place N, t.node p = some .dir →
        (t.nodes.insert q x).lookup p = some .dir := by
      intro p hdir
      have hpq : p ≠ q := by
        rintro rfl
        rw [hdir] at hq
        cases hq
      rw [AList.lookup_insert_ne hpq]
      exact hdir
    rcases (AList.mem_insert _).1 (AList.mem_keys.2 hp) with rfl | hmem
    · exact hold _ hd
    · exact hold _ (t.inDirectory p (AList.mem_keys.1 hmem) hne)
  cwd := t.cwd
  cwd_dir := by
    have hne : t.cwd ≠ q := by
      rintro rfl
      rw [node_cwd] at hq
      cases hq
    rw [AList.lookup_insert_ne hne]
    exact t.cwd_dir

/-- One tree has one more node than another. -/
structure Adds (t u : Tree N A) (q : Place N) (x : Node N A) : Prop where
  missing : t.node q = none
  node_self : u.node q = some x
  /-- Nothing else has changed. -/
  node_ne : ∀ p, p ≠ q → u.node p = t.node p
  /-- The working directory is the same. -/
  cwd_eq : u.cwd = t.cwd

theorem adds_put (t : Tree N A) (q : Place N) (x : Node N A) (hq : t.node q = none)
    (hd : t.node q.dropLast = some .dir) : t.Adds (t.put q x hq hd) q x :=
  ⟨hq, AList.lookup_insert _, fun _ hp => AList.lookup_insert_ne hp, rfl⟩

structure GrowsIn (S : Place N → Prop) (t u : Tree N A) : Prop where
  le : t.Le u
  new : ∀ p, t.node p = none → u.node p ≠ none → S p

namespace GrowsIn

variable {S S' : Place N → Prop} {t u v : Tree N A}

theorem refl (t : Tree N A) : GrowsIn S t t := ⟨.refl t, fun _ hp hp' => absurd hp hp'⟩

theorem trans (h₁ : GrowsIn S t u) (h₂ : GrowsIn S u v) : GrowsIn S t v := by
  refine ⟨h₁.le.trans h₂.le, fun p hp hp' => ?_⟩
  by_cases hu : u.node p = none
  · exact h₂.new p hu hp'
  · exact h₁.new p hp hu

theorem mono (h : GrowsIn S t u) (hS : ∀ p, S p → S' p) : GrowsIn S' t u :=
  ⟨h.le, fun p hp hp' => hS p (h.new p hp hp')⟩

end GrowsIn

theorem Adds.growsIn {S : Place N → Prop} {t u : Tree N A} {q : Place N} {x : Node N A}
    (h : t.Adds u q x) (hq : S q) : GrowsIn S t u := by
  refine ⟨⟨?_, h.cwd_eq⟩, ?_⟩
  · intro p y hp
    have hne : p ≠ q := by
      rintro rfl
      rw [h.missing] at hp
      cases hp
    rw [h.node_ne p hne, hp]
  · intro p hp hp'
    by_cases hpq : p = q
    · rw [hpq]
      exact hq
    · rw [h.node_ne p hpq] at hp'
      exact absurd hp hp'

/-- Create a node where nothing is (`O_CREAT`, `O_EXCL` and `O_NOFOLLOW`, or `mkdir`). -/
def create (x : Node N A) (path : Path N) : Prog (Tree N A) Errno Unit := fun t =>
  match t.locate true path with
  | .error e => (.error e, t)
  | .ok q =>
    match hq : t.node q with
    | some _ => (.error .alreadyExists, t)
    | none =>
      match hd : t.node q.dropLast with
      | some .dir => (.ok (), t.put q x hq hd)
      | _ => (.error .notFound, t)

variable (path : Path N)

def mkdir : Prog (Tree N A) Errno Unit := create .dir path

def isDir (t : Tree N A) (path : Path N) : Bool :=
  match t.find false path with
  | .ok (_, .dir) => true
  | _ => false

/-- An error of `mkdir` does not matter if the directory is there. -/
def unlessDir (e : Errno) : Prog (Tree N A) Errno Unit := do
  if (← get).isDir path then pure () else throw e

/-- `create_dir_all`, for the components of a path with the last one first. -/
def createDirAllRev : Path N → Prog (Tree N A) Errno Unit
  | [] => pure ()
  | c :: rest => do
    match ← attempt (mkdir (c :: rest).reverse) with
    | .ok () => pure ()
    | .error .notFound =>
      createDirAllRev rest
      match ← attempt (mkdir (c :: rest).reverse) with
      | .ok () => pure ()
      | .error e => unlessDir (c :: rest).reverse e
    | .error e => unlessDir (c :: rest).reverse e

def createDirAll : Prog (Tree N A) Errno Unit := createDirAllRev path.reverse

section Create

variable {t : Tree N A} {x : Node N A} {path p : Path N} {d : Place N} {n : N} {links : ℕ}

/-- **What a creation does.**  It fails and changes nothing, or adds the node.  That something is
not found is never said of a place where a node is. -/
theorem create_cases (x : Node N A) (path : Path N) (t : Tree N A) :
    (∃ e, (create x path).exec t = (.error e, t) ∧
      (e = .notFound → ∀ q, t.locate true path = .ok q → t.node q = none)) ∨
      ∃ q u, (create x path).exec t = (.ok (), u) ∧ t.locate true path = .ok q ∧ t.Adds u q x := by
  show (∃ e, create x path t = (.error e, t) ∧
      (e = .notFound → ∀ q, t.locate true path = .ok q → t.node q = none)) ∨
    ∃ q u, create x path t = (.ok (), u) ∧ t.locate true path = .ok q ∧ t.Adds u q x
  unfold create
  cases hl : t.locate true path with
  | error e => exact .inl ⟨e, rfl, fun _ q hq => by cases hq⟩
  | ok q =>
    dsimp only
    split
    · exact .inl ⟨_, rfl, fun he => by cases he⟩
    · rename_i hq
      split
      · rename_i hd
        exact .inr ⟨q, _, rfl, rfl, adds_put t q x hq hd⟩
      · refine .inl ⟨_, rfl, fun _ q' hq' => ?_⟩
        cases hq'
        exact hq

theorem isDir_iff :
    t.isDir path = true ↔ ∃ q, t.locate false path = .ok q ∧ t.node q = some .dir := by
  unfold isDir
  constructor
  · intro h
    split at h
    · exact ⟨_, find_eq_ok.1 (by assumption)⟩
    · cases h
  · rintro ⟨q, hf⟩
    rw [find_eq_ok.2 hf]

end Create

/-! ### Creating a directory with its ancestors -/

section CreateDirAll

variable {t u : Tree N A} {path p : Path N} {d : Place N} {n : N} {ls : ℕ} {Q E : Tree N A → Prop}

/-- What holds after `mkdir`, whose failure does not matter if the directory is there. -/
structure Tries (path : Path N) (Q E : Tree N A → Prop) (t : Tree N A) : Prop where
  made : ∀ q u, t.locate true path = .ok q → t.Adds u q .dir → Q u
  there : t.isDir path = true → Q t
  fails : t.isDir path = false → E t

theorem wp_unlessDir {e : Errno} (h : Tries path Q E t) :
    wp (unlessDir path e) (fun _ => Q) (fun _ => E) t := by
  unfold unlessDir
  rw [wp_bind, wp_get]
  cases hd : t.isDir path with
  | true => exact h.there hd
  | false => exact h.fails hd

/-- `mkdir` followed by a look at its error. -/
theorem wp_mkdir {f : Except Errno Unit → Prog (Tree N A) Errno Unit} (h : Tries path Q E t)
    (hok : f (.ok ()) = pure ())
    (her : ∀ e, (e = .notFound → ∀ q, t.locate true path = .ok q → t.node q = none) →
      wp (f (.error e)) (fun _ => Q) (fun _ => E) t) :
    wp (attempt (mkdir path) >>= f) (fun _ => Q) (fun _ => E) t := by
  rw [wp_bind, wp_attempt]
  rcases create_cases .dir path t with ⟨e, hec, hf⟩ | ⟨q, u, hec, hl, ha⟩
  · exact (wp_of_error hec).2 (her e hf)
  · refine (wp_of_ok hec).2 ?_
    rw [hok]
    exact h.made q u hl ha

/-- The rule for `createDirAll`: the ancestors are made first if one of them is missing. -/
theorem wp_createDirAll_concat {c : Component N} (h : Tries (p ++ [c]) Q E t)
    (hpa : (∀ q, t.locate true (p ++ [c]) = .ok q → t.node q = none) →
      wp (createDirAll p) (fun _ => Tries (p ++ [c]) Q E) (fun _ => E) t) :
    wp (createDirAll (p ++ [c])) (fun _ => Q) (fun _ => E) t := by
  have hr : (c :: p.reverse).reverse = p ++ [c] := by simp
  unfold createDirAll at hpa ⊢
  rw [reverse_append, reverse_singleton, singleton_append, createDirAllRev, hr]
  refine wp_mkdir h rfl fun e hf => ?_
  cases e with
  | notFound =>
    rw [wp_bind]
    refine wp_mono (hpa (hf rfl)) (fun _ u hu => ?_) fun _ _ hE => hE
    exact wp_mkdir hu rfl fun e _ => wp_unlessDir hu
  | notADirectory | tooManyLinks | alreadyExists | isADirectory => exact wp_unlessDir h

/-- A path that leads somewhere does so without following a link at its end. -/
theorem exists_locate_true {q : Place N} (h : t.locate false path = .ok q) :
    ∃ q', t.locate true path = .ok q' := by
  obtain ⟨hne, rest, hw⟩ := locate_eq_ok.1 h
  obtain ⟨p, c, rfl⟩ : ∃ p c, path = p ++ [c] :=
    ⟨_, _, (dropLast_concat_getLast hne).symm⟩
  obtain ⟨d, ls, hp, hd, -⟩ := (walk_append_eq_ok node_cwd (cons_ne_nil _ _)).1 hw
  have hl : ∃ r, t.walk true ls d [c] = .ok r := by
    cases c with
    | rootDir => exact ⟨_, walk_rootDir.trans walk_nil⟩
    | curDir => exact ⟨_, walk_curDir.trans walk_nil⟩
    | parentDir => exact ⟨_, walk_parentDir.trans walk_nil⟩
    | normal n => exact ⟨_, walk_true_normal⟩
  obtain ⟨⟨q', rest'⟩, hl⟩ := hl
  exact ⟨q', locate_eq_ok.2 ⟨hne, rest',
    (walk_append_eq_ok node_cwd (cons_ne_nil _ _)).2 ⟨d, ls, hp, hd, hl⟩⟩⟩

/-- A path that leads to something is not free. -/
theorem node_ne_none_of_canonicalize {q q' : Place N} (h : t.canonicalize path = .ok q)
    (hl : t.locate true path = .ok q') : t.node q' ≠ none := by
  intro hn
  obtain ⟨ho, hs⟩ := canonicalize_eq_ok.1 h
  obtain ⟨p, n, d, ls, rest, rfl, hp, hd, hla⟩ :=
    concat_of_not_dir hl (by simp [hn])
  rw [walk_true_normal] at hla
  cases hla
  obtain ⟨d', links', rest', hp', -, hlast'⟩ := locate_concat.1 ho
  rw [hp] at hp'
  cases hp'
  rw [walk_missing hn] at hlast'
  cases hlast'
  exact hs hn

theorem wp_createDirAll_of_isDir (h : t.isDir path = true) (hQ : Q t) :
    wp (createDirAll path) (fun _ => Q) (fun _ => E) t := by
  obtain ⟨q, hl, hd⟩ := isDir_iff.1 h
  have hc : t.canonicalize path = .ok q :=
    canonicalize_eq_ok.2 ⟨hl, by simp [hd]⟩
  obtain ⟨p, c, rfl⟩ : ∃ p c, path = p ++ [c] :=
    ⟨_, _, (dropLast_concat_getLast (locate_eq_ok.1 hl).1).symm⟩
  have hf : ∀ q', t.locate true (p ++ [c]) = .ok q' → t.node q' ≠ none :=
    fun q' => node_ne_none_of_canonicalize hc
  refine wp_createDirAll_concat ⟨fun q' u hq' ha => absurd ha.missing (hf q' hq'),
    fun _ => hQ, fun hnot => ?_⟩ fun hfr => ?_
  · rw [h] at hnot
    cases hnot
  · -- the directory is there, so `mkdir` does not say that something is not found
    obtain ⟨q', hq'⟩ := exists_locate_true hl
    exact absurd (hfr q' hq') (hf q' hq')

/-- A walk to a directory goes on into a directory that was made in it. -/
theorem walk_adds (hle : t.Le u) (hp : t.walk false maxLinks t.cwd p = .ok (d, ls))
    (hd : t.node d = some .dir) (hq : u.node (d ++ [n]) = some .dir) :
    u.walk false maxLinks u.cwd (p ++ [.normal n]) = .ok (d ++ [n], ls) := by
  have hw := walk_of_le hle node_cwd hp (by simp [hd])
  rw [hle.cwd_eq]
  refine (walk_append_eq_ok (hle.node_eq node_cwd) (cons_ne_nil _ _)).2
    ⟨d, ls, hw, hle.node_eq hd, ?_⟩
  rw [walk_dir hq, walk_nil]

/-- A place below a directory, on the way along some names. -/
def Below (d : Place N) (ns : List N) (q : Place N) : Prop := ∃ k, k ≠ [] ∧ k <+: ns ∧ q = d ++ k

variable (hp : t.walk false maxLinks t.cwd p = .ok (d, ls))

include hp

/-- Below a name that leads to nothing there is nothing. -/
theorem node_last {ns : List N} (hd : t.node d = some .dir)
    (hns : ∀ m ∈ ns.head?, ∀ q, t.canonicalize (p ++ [.normal m]) ≠ .ok q)
    (hf : ∀ q, t.locate true ((p ++ ns.map .normal) ++ [.normal n]) = .ok q → t.node q = none) :
    t.node ((d ++ ns) ++ [n]) = none := by
  cases ns with
  | nil =>
    rw [append_nil]
    refine hf _ (locate_concat.2 ⟨d, ls, ls, ?_, hd, walk_true_normal⟩)
    rwa [map_nil, append_nil]
  | cons m ms =>
    by_contra hso
    obtain ⟨x, hx⟩ := Option.ne_none_iff_exists'.1 hso
    have hs : (d ++ m :: ms) ++ [n] = (d ++ [m]) ++ (ms ++ [n]) := by simp
    rw [hs] at hx
    have hdi := node_of_append (by simp) hx
    refine hns m rfl (d ++ [m]) (canonicalize_eq_ok.2 ⟨locate_concat.2
      ⟨d, ls, ls, hp, hd, ?_⟩, by simp [hdi]⟩)
    rw [walk_dir hdi, walk_nil]

/-- Below something that is not a directory nothing is made. -/
theorem wp_createDirAll_of_not_dir (hd : t.node d ≠ some .dir) (hno : t.node d ≠ none)
    (ns : List N) :
    wp (createDirAll (p ++ ns.map .normal)) (fun _ _ => False) (fun _ u => u = t) t := by
  -- no path of names from there leads to a directory
  have hwa : ∀ (ns : List N) q rest,
      t.walk false maxLinks t.cwd (p ++ ns.map .normal) = .ok (q, rest) → t.node q ≠ some .dir := by
    intro ns q rest hw
    by_cases hns : ns.map (Component.normal : N → Component N) = []
    · rw [hns, append_nil, hp] at hw
      cases hw
      exact hd
    · obtain ⟨d', rest', hp', hdi, -⟩ := (walk_append_eq_ok node_cwd hns).1 hw
      rw [hp] at hp'
      cases hp'
      exact absurd hdi hd
  have hn : ∀ ns : List N, t.isDir (p ++ ns.map .normal) = true → False := by
    intro ns hdi
    obtain ⟨q, hl, hq⟩ := isDir_iff.1 hdi
    obtain ⟨-, rest, hw⟩ := locate_eq_ok.1 hl
    exact hwa ns q rest hw hq
  induction ns using reverseRecOn with
  | nil =>
    have hnil : p ≠ [] := by
      rintro rfl
      cases hp
      exact hd node_cwd
    have hl : t.locate false p = .ok d := locate_eq_ok.2 ⟨hnil, ls, hp⟩
    have hf : ∀ q', t.locate true p = .ok q' → t.node q' ≠ none :=
      fun q' => node_ne_none_of_canonicalize (canonicalize_eq_ok.2 ⟨hl, hno⟩)
    have ht : t.isDir p = true → False := by simpa using hn []
    obtain ⟨q, hq⟩ := exists_locate_true hl
    obtain ⟨p, c, rfl⟩ : ∃ p' c, p = p' ++ [c] :=
      ⟨_, _, (dropLast_concat_getLast hnil).symm⟩
    rw [map_nil, append_nil]
    exact wp_createDirAll_concat ⟨fun q' u hq' ha => hf q' hq' ha.missing, ht,
      fun _ => rfl⟩ fun hfr => absurd (hfr q hq) (hf q hq)
  | append_singleton ns n ih =>
    have hpa : p ++ (ns ++ [n]).map Component.normal = (p ++ ns.map .normal) ++ [.normal n] := by
      simp
    have ht := hn (ns ++ [n])
    rw [hpa] at ht ⊢
    refine wp_createDirAll_concat ⟨fun q u hl _ => ?_, ht, fun _ => rfl⟩ fun _ =>
      wp_mono ih (fun _ _ h => h.elim) fun _ _ h => h
    obtain ⟨d', links', rest, hw, hdi, -⟩ := locate_concat.1 hl
    exact hwa ns d' links' hw hdi

/-- **Which directories are made.**  Below a directory in which the first name leads to nothing, a
directory is made for each of the names. -/
theorem createDirAll_growsIn (hd : t.node d = some .dir) (ns : List N)
    (hns : ∀ n ∈ ns.head?, ∀ q, t.canonicalize (p ++ [.normal n]) ≠ .ok q) :
    wp (createDirAll (p ++ ns.map .normal))
      (fun _ u => GrowsIn (Below d ns) t u ∧
        u.walk false maxLinks u.cwd (p ++ ns.map .normal) = .ok (d ++ ns, ls) ∧
        u.node (d ++ ns) = some .dir)
      (fun _ u => GrowsIn (Below d ns) t u) t := by
  induction ns using reverseRecOn with
  | nil =>
    rw [map_nil, append_nil, append_nil]
    by_cases hnil : p = []
    · subst hnil
      exact ⟨.refl t, hp, hd⟩
    · exact wp_createDirAll_of_isDir (isDir_iff.2 ⟨d, locate_eq_ok.2 ⟨hnil, ls, hp⟩, hd⟩)
        ⟨.refl t, hp, hd⟩
  | append_singleton ns n ih =>
    have hh : ∀ m ∈ ns.head?, ∀ q, t.canonicalize (p ++ [.normal m]) ≠ .ok q := by
      intro m hm
      refine hns m ?_
      cases ns with
      | nil => cases hm
      | cons m' ms => exact hm
    have hmo : ∀ q, Below d ns q → Below d (ns ++ [n]) q := by
      rintro q ⟨k, hk, hle, rfl⟩
      exact ⟨k, hk, hle.trans (prefix_append ns [n]), rfl⟩
    have hs : Below d (ns ++ [n]) (d ++ (ns ++ [n])) := ⟨_, by simp, prefix_rfl, rfl⟩
    -- nothing on the way leads anywhere, so only an empty way leads to a directory
    have hwa : ∀ q rest,
        t.walk false maxLinks t.cwd (p ++ (ns ++ [n]).map .normal) = .ok (q, rest) →
        t.node q = none := by
      intro q rest hw
      by_contra hq
      obtain ⟨m, ms, hms⟩ : ∃ m ms, ns ++ [n] = m :: ms :=
        exists_cons_of_ne_nil (by simp)
      rw [hms] at hw hns
      obtain ⟨q', hq'⟩ := canonicalize_of_walk hw hq
      exact hns m (by simp) q' hq'
    have hpa : p ++ (ns ++ [n]).map Component.normal = (p ++ ns.map .normal) ++ [.normal n] := by
      simp
    have hn : t.isDir ((p ++ ns.map .normal) ++ [.normal n]) = false := by
      rw [Bool.eq_false_iff]
      intro hdi
      obtain ⟨q, hl, hq⟩ := isDir_iff.1 hdi
      obtain ⟨-, rest, hw⟩ := locate_eq_ok.1 hl
      rw [hwa q rest (hpa ▸ hw)] at hq
      cases hq
    rw [hpa]
    refine wp_createDirAll_concat ⟨?_, fun hdi => ?_, fun _ => .refl t⟩ fun hf => ?_
    · intro q u hl ha
      obtain ⟨d', links', rest, hw, hd', hla⟩ := locate_concat.1 hl
      rw [walk_true_normal] at hla
      cases hla
      obtain rfl : ns = [] := by
        by_contra hne
        obtain ⟨m, ms, rfl⟩ := exists_cons_of_ne_nil hne
        obtain ⟨q', hq'⟩ := canonicalize_of_walk hw (by simp [hd'])
        exact hh m rfl q' hq'
      rw [map_nil, append_nil, hp] at hw
      cases hw
      rw [map_nil, append_nil]
      have hg := ha.growsIn hs
      exact ⟨hg, walk_adds hg.le hp hd ha.node_self, ha.node_self⟩
    · rw [hn] at hdi
      cases hdi
    · refine wp_mono (ih hh) ?_ fun _ u hu => hu.mono hmo
      rintro - u ⟨hg, hw, hdi⟩
      have hl :
          u.locate true ((p ++ ns.map .normal) ++ [.normal n]) = .ok ((d ++ ns) ++ [n]) :=
        locate_concat.2 ⟨d ++ ns, ls, ls, hw, hdi, walk_true_normal⟩
      have hla : u.node ((d ++ ns) ++ [n]) = none := by
        by_contra hso
        obtain ⟨k, -, hk, heq⟩ := hg.new _ (node_last hp hd hh hf) hso
        rw [append_assoc, append_cancel_left_eq] at heq
        have hln := hk.length_le
        rw [← heq, length_append, length_singleton] at hln
        omega
      refine ⟨fun q v hq ha => ?_, fun ht => ?_, fun _ => hg.mono hmo⟩
      · cases hl.symm.trans hq
        have hg' : GrowsIn (Below d (ns ++ [n])) u v :=
          ha.growsIn (by rw [append_assoc]; exact hs)
        rw [← append_assoc]
        exact ⟨(hg.mono hmo).trans hg', walk_adds hg'.le hw hdi ha.node_self, ha.node_self⟩
      · obtain ⟨q, hq, hqd⟩ := isDir_iff.1 ht
        have hf' := node_ne_none_of_canonicalize (canonicalize_eq_ok.2
          ⟨hq, by simp [hqd]⟩) hl
        exact absurd hla hf'

end CreateDirAll

end Tree

end Boru.Posix
