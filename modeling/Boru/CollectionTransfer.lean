import Boru.PathContainment
import Boru.Posix.Create

/-!
# Downloads of directories

A directory is shared as a collection of named files.  `downloadCollectionToDir` makes a directory
of its own below the target directory and writes the files there.  The names of the files are split
into components, each of which is checked, and the path is compared with the directory.  The name of
the directory comes from the remote peer as well, but it is joined to the target directory as it is.

## Main results

* `exportEntry_growsIn` : whatever its name, an entry creates nodes in the directory only.
* `contained_of_checked` : all that is created is in the target directory, if the name of the
  directory passes the checks for the names of the files.
* `escapes_with_parent` : the name `../escape`.
-/

namespace Boru.CollectionTransfer

open Posix PathContainment Prog Tree Path List

variable {A H : Type}

/-- Why a directory is not downloaded. -/
inductive TransferError where
  | downloadFailed
  | folderExists
  | createFolder (e : Errno)
  /-- A component of an entry name is not valid. -/
  | invalidComponent (message : String)
  /-- The export path escapes the root directory. -/
  | escapesRoot
  /-- The parent directory of an entry cannot be created. -/
  | createParent (e : Errno)
  /-- The file of an entry cannot be created. -/
  | createTarget (e : Errno)
  /-- The content of an entry cannot be read to its end. -/
  | readBlob

/-- Validate a single path component of a collection entry name. -/
def validatePathComponent (component : List Char) : Except TransferError Unit :=
  if component = [] then .error (.invalidComponent "path component must not be empty")
  else if '/' ∈ component then
    .error (.invalidComponent "path components must not contain the path separator '/'")
  else if '\\' ∈ component then
    .error (.invalidComponent "path components must not contain the path separator '\\'")
  else if component = ['.'] ∨ component = ['.', '.'] then
    .error (.invalidComponent "path component must not be '.' or '..'")
  else .ok ()

/-- Build the export target path for a collection entry name under a root. -/
def getExportPath (t : Tree (List Char) A) (root : Path (List Char)) (name : List Char) :
    Except TransferError (Path (List Char)) := do
  let path ← (name.splitOn '/').foldlM (fun path part => do
    validatePathComponent part
    return path.join (parse part)) root
  if isPathContained t path root then .ok path else .error .escapesRoot

/-- Export one entry.  `read` gives what can be read of a blob, and whether this is all of it. -/
def exportEntry (read : H → A × Bool) (root : Path (List Char)) (entry : List Char × H) :
    Prog (Tree (List Char) A) TransferError (Path (List Char)) := do
  let target ← ofExcept id (getExportPath (← get) root entry.1)
  match target.parent with
  | some parent => mapErr .createParent (createDirAll parent)
  | none => pure ()
  mapErr .createTarget (create (.file (read entry.2).1) target)
  require ((read entry.2).2 = true) .readBlob
  return target

/-- Export every entry of a collection under a root. -/
def exportCollection (read : H → A × Bool) (collection : List (List Char × H))
    (root : Path (List Char)) : Prog (Tree (List Char) A) TransferError (List (Path (List Char))) :=
  collection.foldlM (fun exported entry => do
    let target ← exportEntry read root entry
    return exported ++ [target]) []

/-- Download a whole-directory share and expand it under the target root as a folder named after
the root name. -/
def downloadCollectionToDir (loaded : Except TransferError (List (List Char × H)))
    (read : H → A × Bool) (rootName : List Char) (targetRoot : Path (List Char)) :
    Prog (Tree (List Char) A) TransferError (Path (List Char)) := do
  let collection ← ofExcept id loaded
  let rootDir := targetRoot.join (parse rootName)
  require ((← get).existsAt rootDir = false) .folderExists
  mapErr .createFolder (createDirAll rootDir)
  let _ ← exportCollection read collection rootDir
  return rootDir

/-! ### Entries -/

section Entries

variable {t u : Tree (List Char) A} {root path p : Path (List Char)} {name : List Char}
  {r d : Place (List Char)} {n : List Char}

theorem isName_of_validatePathComponent {x : Unit} (h : validatePathComponent n = .ok x) :
    Path.IsName n := by
  unfold validatePathComponent at h
  split_ifs at h with hem hs hb hd
  exact ⟨hem, hs, fun hdo => hd (.inl hdo), fun hdo => hd (.inr hdo)⟩

/-- The loop over the components appends them. -/
theorem foldlM_join_eq_ok {pa : List (List Char)} (h : pa.foldlM (fun path part => do
      validatePathComponent part
      return join path (parse part)) root = .ok path) :
    path = root ++ pa.map .normal := by
  induction pa generalizing root with
  | nil =>
    cases h
    simp
  | cons part pa ih =>
    obtain ⟨joined, hstep, h⟩ := except_bind_eq_ok h
    obtain ⟨x, hv, hj⟩ := except_bind_eq_ok hstep
    cases hj
    rw [ih h, parse_of_isName (isName_of_validatePathComponent hv), join_normal]
    simp

/-- An export path is the root with at least one name, and is contained in the root. -/
theorem getExportPath_eq_ok (h : getExportPath t root name = .ok path) :
    ∃ ns n, path = root ++ (ns ++ [n]).map .normal ∧ isPathContained t path root = true := by
  obtain ⟨joined, hj, h⟩ := except_bind_eq_ok h
  split_ifs at h with hc
  cases h
  have hp : name.splitOn '/' ≠ [] := splitOn_ne_nil _ _
  refine ⟨(name.splitOn '/').dropLast, (name.splitOn '/').getLast hp, ?_, hc⟩
  rw [dropLast_concat_getLast hp]
  exact foldlM_join_eq_ok hj

/-- A path of names goes through existing nodes up to a point, and the next name leads to
nothing. -/
theorem exists_split (hr : t.canonicalize root = .ok r) (ns : List (List Char)) :
    ∃ ms tail d, ns = ms ++ tail ∧ t.canonicalize (root ++ ms.map .normal) = .ok d ∧
      ∀ n ∈ tail.head?, ∀ q, t.canonicalize ((root ++ ms.map .normal) ++ [.normal n]) ≠ .ok q := by
  induction ns using reverseRecOn with
  | nil => exact ⟨[], [], r, rfl, by simpa using hr, fun n hn => by cases hn⟩
  | append_singleton ns n ih =>
    obtain ⟨ms, tail, d, rfl, hd, ht⟩ := ih
    by_cases hnil : tail = []
    · subst hnil
      rw [append_nil]
      by_cases hn : ∃ q, t.canonicalize ((root ++ ms.map .normal) ++ [.normal n]) = .ok q
      · obtain ⟨q, hq⟩ := hn
        exact ⟨ms ++ [n], [], q, by simp, by simpa using hq, fun m hm => by cases hm⟩
      · refine ⟨ms, [n], d, rfl, hd, fun m hm q hq => hn ⟨q, ?_⟩⟩
        cases hm
        exact hq
    · obtain ⟨m, rest, rfl⟩ := exists_cons_of_ne_nil hnil
      exact ⟨ms, m :: rest ++ [n], d, by simp, hd, ht⟩

/-- **Why the check is enough.**  If the canonical form of a path lies in a directory, so does the
directory in which its first missing name will be made: the name would lead to something if the
directory were further down. -/
theorem prefix_of_isPathContained {ms tail : List (List Char)} (hro : t.canonicalize root = .ok r)
    (hr : t.node r = some .dir) (hd : t.canonicalize (root ++ ms.map .normal) = .ok d)
    (ht : ∀ n ∈ tail.head?, ∀ q, t.canonicalize ((root ++ ms.map .normal) ++ [.normal n]) ≠ .ok q)
    (hne : tail ≠ [])
    (h : isPathContained t (root ++ (ms ++ tail).map .normal) root = true) : r <+: d := by
  have hle : r <+: d ++ tail := by
    have hf := of_decide_eq_true h
    rw [canonicalizeAllowMissing_of_ok hro, map_append, ← append_assoc,
      canonicalizeAllowMissing_of_missing hd ht] at hf
    exact Place.path_prefix_iff.1 hf
  rcases prefix_or_prefix_of_prefix hle (prefix_append d tail) with hrd | ⟨k, rfl⟩
  · exact hrd
  cases k with
  | nil => simp
  | cons n k =>
    exfalso
    have hk : n :: k <+: tail := (prefix_append_right_inj d).1 hle
    have hn : t.node (d ++ [n]) = some .dir := by
      by_cases hnil : k = []
      · rwa [hnil] at hr
      · have hs : d ++ n :: k = (d ++ [n]) ++ k := by simp
        rw [hs] at hr
        exact node_of_append hnil hr
    obtain ⟨rest, rfl⟩ := hk
    obtain ⟨hl, -⟩ := canonicalize_eq_ok.1 hd
    obtain ⟨-, ls, hw⟩ := locate_eq_ok.1 hl
    refine ht n rfl (d ++ [n]) (canonicalize_eq_ok.2 ⟨locate_concat.2
      ⟨d, ls, ls, hw, node_of_concat hn, ?_⟩,
      by simp [hn]⟩)
    rw [walk_dir hn, walk_nil]

end Entries

/-! ### The export -/

section Export

variable {t u : Tree (List Char) A} {root target p : Path (List Char)} {r d : Place (List Char)}
  {read : H → A × Bool}

/-- The directory of the export: what its path leads to. -/
structure Rooted (root : Path (List Char)) (r : Place (List Char)) (t : Tree (List Char) A) :
    Prop where
  canonical : t.canonicalize root = .ok r
  dir : t.node r = some .dir

/-- It stays the same when the tree grows. -/
theorem Rooted.of_le (h : Rooted root r t) (hle : t.Le u) : Rooted root r u := by
  obtain ⟨hl, hn⟩ := canonicalize_eq_ok.1 h.canonical
  obtain ⟨hne, ls, hw⟩ := locate_eq_ok.1 hl
  have hw' := walk_of_le hle node_cwd hw hn
  rw [← hle.cwd_eq] at hw'
  have hd := hle.node_eq h.dir
  exact ⟨canonicalize_eq_ok.2 ⟨locate_eq_ok.2 ⟨hne, ls, hw'⟩, by simp [hd]⟩, hd⟩

/-- Directories along names are made below the place that the path before them leads to. -/
theorem wp_createDirAll_below (tail : List (List Char)) {S : Place (List Char) → Prop}
    (hd : t.canonicalize p = .ok d)
    (ht : ∀ n ∈ tail.head?, ∀ q, t.canonicalize (p ++ [.normal n]) ≠ .ok q)
    (hS : ∀ q, Tree.Below d tail q → S q) :
    wp (createDirAll (p ++ tail.map .normal))
      (fun _ u => Tree.GrowsIn S t u ∧ Rooted (p ++ tail.map .normal) (d ++ tail) u)
      (fun _ u => Tree.GrowsIn S t u) t := by
  obtain ⟨hl, hn⟩ := canonicalize_eq_ok.1 hd
  obtain ⟨hne, ls, hw⟩ := locate_eq_ok.1 hl
  by_cases hdi : t.node d = some .dir
  · refine wp_mono (createDirAll_growsIn hw hdi tail ht) ?_ fun _ u hu => hu.mono hS
    rintro - u ⟨hg, hw', hdi'⟩
    have hl' := locate_eq_ok.2 ⟨by simp [hne], ls, hw'⟩
    exact ⟨hg.mono hS, canonicalize_eq_ok.2 ⟨hl', by simp [hdi']⟩, hdi'⟩
  · -- below a file nothing is made
    refine wp_mono (wp_createDirAll_of_not_dir hw hdi hn tail) (fun _ _ h => h.elim) ?_
    rintro - u rfl
    exact .refl u

/-- What a file and its parent directories add to the tree, for a path whose first names lead to
something and whose other names do not. -/
theorem wp_create_below {tail : List (List Char)} {n : List Char} {a : A}
    {S : Place (List Char) → Prop} (hd : t.canonicalize p = .ok d)
    (ht : ∀ m ∈ (tail ++ [n]).head?, ∀ q, t.canonicalize (p ++ [.normal m]) ≠ .ok q)
    (hS : ∀ k, k ≠ [] → S (d ++ k)) :
    wp (createDirAll (p ++ tail.map .normal))
      (fun _ u => wp (create (.file a) ((p ++ tail.map .normal) ++ [.normal n]))
        (fun _ v => Tree.GrowsIn S t v) (fun _ v => Tree.GrowsIn S t v) u)
      (fun _ u => Tree.GrowsIn S t u) t := by
  have hh : ∀ m ∈ tail.head?, ∀ q, t.canonicalize (p ++ [.normal m]) ≠ .ok q := by
    intro m hm
    refine ht m ?_
    cases tail with
    | nil => cases hm
    | cons m' rest => exact hm
  have hb : ∀ q, Tree.Below d tail q → S q := by
    rintro q ⟨k, hk, -, rfl⟩
    exact hS k hk
  refine wp_mono (wp_createDirAll_below tail hd hh hb) ?_ fun _ _ h => h
  rintro - u ⟨hg, hro⟩
  rcases create_cases (.file a) ((p ++ tail.map .normal) ++ [.normal n]) u with
    ⟨e, hec, -⟩ | ⟨q, v, hec, hq, ha⟩
  · exact (wp_of_error hec).2 hg
  · refine (wp_of_ok hec).2 (hg.trans (ha.growsIn ?_))
    obtain ⟨-, ls, hw⟩ := locate_eq_ok.1 (canonicalize_eq_ok.1 hro.canonical).1
    have hp : u.locate true ((p ++ tail.map .normal) ++ [.normal n]) = .ok ((d ++ tail) ++ [n]) :=
      locate_concat.2 ⟨d ++ tail, ls, ls, hw, hro.dir, walk_true_normal⟩
    cases hp.symm.trans hq
    rw [append_assoc]
    exact hS _ (by simp)

variable (read) in
/-- **What an entry creates.**  Whatever its name, everything is in the directory of the export. -/
theorem exportEntry_growsIn (hr : Rooted root r t) (entry : List Char × H) :
    wp (exportEntry read root entry) (fun _ u => Tree.GrowsIn (r <+: ·) t u)
      (fun _ u => Tree.GrowsIn (r <+: ·) t u) t := by
  unfold exportEntry
  rw [wp_bind, wp_get, wp_bind, wp_ofExcept]
  refine ⟨fun target ht => ?_, fun _ _ => .refl t⟩
  obtain ⟨ns, n, rfl, hc⟩ := getExportPath_eq_ok ht
  have hp :
      root ++ (ns ++ [n]).map Component.normal = (root ++ ns.map .normal) ++ [.normal n] := by
    simp
  have hre : wp (createDirAll (root ++ ns.map .normal))
      (fun _ u => wp (create (.file (read entry.2).1)
        ((root ++ ns.map .normal) ++ [.normal n]))
        (fun _ v => Tree.GrowsIn (r <+: ·) t v) (fun _ v => Tree.GrowsIn (r <+: ·) t v) u)
      (fun _ u => Tree.GrowsIn (r <+: ·) t u) t := by
    obtain ⟨ms, tail, d, hs, hd, hta⟩ := exists_split hr.canonical (ns ++ [n])
    rcases eq_nil_or_concat' tail with rfl | ⟨tail, m, rfl⟩
    · -- the path leads to something, so nothing is created
      rw [append_nil] at hs
      rw [← hs, hp] at hd
      obtain ⟨d', ls, rest, hw, hdi, -⟩ :=
        locate_concat.1 (canonicalize_eq_ok.1 hd).1
      have hne : root ++ ns.map Component.normal ≠ [] := by
        have hr' := (locate_eq_ok.1 (canonicalize_eq_ok.1 hr.canonical).1).1
        simp [hr']
      refine wp_createDirAll_of_isDir (isDir_iff.2 ⟨d', locate_eq_ok.2 ⟨hne, ls, hw⟩, hdi⟩) ?_
      rcases create_cases (.file (read entry.2).1) ((root ++ ns.map .normal) ++ [.normal n]) t with
        ⟨e, hec, -⟩ | ⟨q, v, -, hq, ha⟩
      · exact (wp_of_error hec).2 (.refl t)
      · exact absurd ha.missing (node_ne_none_of_canonicalize hd hq)
    · have hns : ns = ms ++ tail ∧ n = m := by
        rw [← append_assoc] at hs
        obtain ⟨h₁, h₂⟩ := append_inj' hs rfl
        exact ⟨h₁, singleton_inj.1 h₂⟩
      obtain ⟨rfl, rfl⟩ := hns
      rw [append_assoc] at hc
      have hrd := prefix_of_isPathContained hr.canonical hr.dir hd hta (by simp) hc
      rw [map_append, ← append_assoc]
      exact wp_create_below hd hta fun k _ => hrd.trans (prefix_append d k)
  rw [hp, parent_concat]
  refine wp_bind.2 (wp_mapErr.2 (wp_mono hre (fun _ u hu => ?_) fun _ _ h => h))
  refine wp_bind.2 (wp_mapErr.2 (wp_mono hu (fun _ v hv => ?_) fun _ _ h => h))
  exact wp_bind.2 (wp_require.2 ⟨fun _ => hv, fun _ => hv⟩)

/-- The entries one after the other. -/
theorem exportCollection_growsIn (hr : Rooted root r t) {col : List (List Char × H)} :
    wp (exportCollection read col root) (fun _ u => Tree.GrowsIn (r <+: ·) t u)
      (fun _ u => Tree.GrowsIn (r <+: ·) t u) t := by
  refine wp_foldlM (fun e entry u hu => ?_) col [] (.refl t)
  have hen := exportEntry_growsIn read (hr.of_le hu.le) entry
  exact wp_bind.2 (wp_mono hen (fun _ v hv => hu.trans hv) fun _ v hv => hu.trans hv)

end Export

/-! ### The download -/

section Download

variable (t : Tree (List Char) A) (targetRoot : Path (List Char)) (rootName : List Char)

/-- Whatever a download creates lies under the target root. -/
def Contained (loaded : Except TransferError (List (List Char × H))) (read : H → A × Bool) : Prop :=
  ∀ q, t.node q = none →
    ((downloadCollectionToDir loaded read rootName targetRoot).exec t).2.node q ≠ none →
    Under t targetRoot q

/-- The place of the target root: it leads to a directory, or it is missing in one. -/
def Root (r : Place (List Char)) : Prop :=
  Rooted targetRoot r t ∨ ∃ base d n, targetRoot = base ++ [.normal n] ∧ r = d ++ [n] ∧
    Rooted base d t ∧ ∀ q, t.canonicalize targetRoot ≠ .ok q

/-- The path of the folder leads to something already; or the target root has a place, and the path
passes the checks that are made for the entries: it has only names after the target root, and is
contained in it. -/
def Checked : Prop :=
  t.existsAt (targetRoot.join (parse rootName)) = true ∨
    (∃ r, Root t targetRoot r) ∧
      (∃ ns : List (List Char), targetRoot.join (parse rootName) = targetRoot ++ ns.map .normal) ∧
      isPathContained t (targetRoot.join (parse rootName)) targetRoot = true

variable {t targetRoot rootName}

/-- What holds after a download that finds the folder free. -/
theorem wp_download {col : List (List Char × H)} {read : H → A × Bool}
    {P : Tree (List Char) A → Prop} (hf : t.existsAt (targetRoot.join (parse rootName)) = false) :
    wp (downloadCollectionToDir (.ok col) read rootName targetRoot) (fun _ => P)
        (fun _ => P) t ↔
      wp (createDirAll (targetRoot.join (parse rootName)))
        (fun _ u => wp (exportCollection read col
          (targetRoot.join (parse rootName))) (fun _ => P) (fun _ => P) u) (fun _ => P) t := by
  unfold downloadCollectionToDir
  simp [wp_ofExcept, hf]

/-- Directories along names are made under the root, if the path is contained in it and leads to
nothing yet. -/
theorem Root.wp_createDirAll {r : Place (List Char)} {ns : List (List Char)}
    (hr : Root t targetRoot r)
    (hc : isPathContained t (targetRoot ++ ns.map .normal) targetRoot = true)
    (hes : t.existsAt (targetRoot ++ ns.map .normal) = false) :
    wp (createDirAll (targetRoot ++ ns.map .normal))
      (fun _ u => Tree.GrowsIn (r <+: ·) t u ∧
        ∃ d, r <+: d ∧ Rooted (targetRoot ++ ns.map .normal) d u)
      (fun _ u => Tree.GrowsIn (r <+: ·) t u) t := by
  obtain hr | ⟨base, d, n, rfl, rfl, hr, hm⟩ := hr
  · obtain ⟨ms, tail, d, rfl, hd, ht⟩ := exists_split hr.canonical ns
    have htail : tail ≠ [] := by
      rintro rfl
      rw [append_nil] at hes
      rw [existsAt_iff.2 ⟨d, hd⟩] at hes
      cases hes
    have hrd := prefix_of_isPathContained hr.canonical hr.dir hd ht htail hc
    rw [map_append, ← append_assoc]
    refine wp_mono (wp_createDirAll_below tail hd ht fun q ⟨k, _, _, hq⟩ => ?_)
      (fun _ u hu => ⟨hu.1, _, hrd.trans (prefix_append d tail), hu.2⟩) fun _ _ h => h
    rw [hq]
    exact hrd.trans (prefix_append d k)
  · rw [append_assoc]
    refine wp_mono (wp_createDirAll_below (n :: ns) hr.canonical ?_ ?_)
      (fun _ u hu => ⟨hu.1, _, ⟨ns, by simp⟩, hu.2⟩) fun _ _ h => h
    · rintro _ ⟨⟩
      exact hm
    · rintro q ⟨_ | ⟨m, k⟩, hk, hle, rfl⟩
      · exact absurd rfl hk
      · rw [(cons_prefix_cons.1 hle).1]
        exact ⟨k, by simp⟩

/-- What is in the place of the root is under it. -/
theorem Root.under {r q : Place (List Char)} (hr : Root t targetRoot r) (hq : r <+: q) :
    Under t targetRoot q := by
  have hc : canonicalizeAllowMissing t targetRoot = r.path := by
    obtain hr | ⟨base, d, n, rfl, rfl, hr, hm⟩ := hr
    · exact canonicalizeAllowMissing_of_ok hr.canonical
    · have hn : ∀ m ∈ [n].head?, ∀ q, t.canonicalize (base ++ [.normal m]) ≠ .ok q := by
        rintro _ ⟨⟩
        exact hm
      exact canonicalizeAllowMissing_of_missing hr.canonical hn
  unfold Under
  rw [hc]
  exact Place.path_prefix_iff.2 hq

/-- **Where a download stays.**  If the name of the folder passes the checks, all that is created
lies under the target root, for every collection and whatever can be read of it. -/
theorem contained_of_checked (hc : Checked t targetRoot rootName)
    (loaded : Except TransferError (List (List Char × H))) (read : H → A × Bool) :
    Contained t targetRoot rootName loaded read := by
  suffices hwp : wp (downloadCollectionToDir loaded read rootName targetRoot)
      (fun _ u => ∀ q, t.node q = none → u.node q ≠ none → Under t targetRoot q)
      (fun _ u => ∀ q, t.node q = none → u.node q ≠ none → Under t targetRoot q) t from
    wp_const_iff.1 hwp
  have hsa : ∀ q, t.node q = none → t.node q ≠ none → Under t targetRoot q :=
    fun q hq hq' => absurd hq hq'
  cases loaded with
  | error e => exact wp_bind.2 hsa
  | ok col =>
    by_cases hes : t.existsAt (targetRoot.join (parse rootName)) = true
    · unfold downloadCollectionToDir
      simpa [wp_ofExcept, hes] using hsa
    have hfr := Bool.eq_false_of_not_eq_true hes
    obtain ⟨⟨r, hr⟩, ⟨ns, hns⟩, hco⟩ := hc.resolve_left hes
    have hg : ∀ u, Tree.GrowsIn (r <+: ·) t u → ∀ q, t.node q = none → u.node q ≠ none →
        Under t targetRoot q := fun u hu q hq hq' => hr.under (hu.new q hq hq')
    refine (wp_download hfr).2 ?_
    rw [hns] at hfr hco ⊢
    refine wp_mono (hr.wp_createDirAll hco hfr) ?_ fun _ u hu => hg u hu
    rintro - u ⟨hu, d, hrd, hro⟩
    have hall : ∀ v, Tree.GrowsIn (d <+: ·) u v → Tree.GrowsIn (r <+: ·) t v := fun v hv =>
      hu.trans (hv.mono fun q hq => hrd.trans hq)
    exact wp_mono (exportCollection_growsIn hro) (fun _ v hv => hg v (hall v hv))
      fun _ v hv => hg v (hall v hv)

end Download

/-- A directory for downloads in the home directory. -/
def home : Tree (List Char) (List UInt8) where
  nodes := toAList [⟨[], .dir⟩, ⟨["home".toList], .dir⟩,
    ⟨["home".toList, "downloads".toList], .dir⟩]
  root := by decide
  inDirectory := by decide
  cwd := []
  cwd_dir := by decide

/-- A folder with the name `../escape` is made next to the target directory, with its files. -/
theorem escapes_with_parent :
    ¬ Contained home (parse "/home/downloads".toList) "../escape".toList
      (.ok [("run.sh".toList, ())]) fun _ => ([1], true) := by
  intro h
  have hu := h ["home".toList, "escape".toList, "run.sh".toList] (by decide +kernel)
  revert hu
  decide +kernel

/-- A folder with a single name. -/
theorem contained_of_checked_photos :
    Checked home (parse "/home/downloads".toList) "photos".toList ∧
      ∀ (loaded : Except TransferError (List (List Char × Unit)))
        (read : Unit → List UInt8 × Bool),
        Contained home (parse "/home/downloads".toList) "photos".toList loaded read := by
  have hc : Checked home (parse "/home/downloads".toList) "photos".toList :=
    .inr ⟨⟨["home".toList, "downloads".toList], .inl ⟨rfl, by decide⟩⟩,
      ⟨["photos".toList], by decide⟩, by decide +kernel⟩
  exact ⟨hc, contained_of_checked hc⟩

end Boru.CollectionTransfer
