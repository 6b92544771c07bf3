import Boru.PathContainment
import Boru.Text

/-!
# Safe destinations

The name of a download comes from a remote peer.  `safeDestinationPath` makes one file name of it,
checks that the file stays in the download directory, and numbers the name if a file of that name
exists.  The numbered names are not checked again; they are names in the same directory.

## Main results

* `safeDestinationPath_sound` : the destination is in the download directory, dangling links apart.
* `containment_sound` : what the three checks accept stays in the root.
* `symlinkIsSafe_file_outside` : `symlinkIsSafe` accepts every path that is not a link.
-/

namespace Boru.SafeDestination

open Posix PathContainment Path

variable {A : Type}

/-- The operations on Unicode text. -/
structure Unicode where
  toUppercase : List Char → List Char
  isWhitespace : Char → Bool

inductive DestinationError where
  /-- The download directory must be absolute. -/
  | notAbsolute
  | directoryReference
  /-- The filename contains a drive-letter prefix. -/
  | driveLetter
  /-- The destination path escapes the download directory. -/
  | escapes
  | noFilename
  /-- The deduplication attempts are exhausted. -/
  | exhausted

/-- Maximum number of deduplication attempts before giving up. -/
def maxDedupAttempts : ℕ := 10000

variable (name : List Char)

/-- The name without path separators. -/
def stripped : List Char := name.filter fun c => c ≠ '/' ∧ c ≠ '\\'

/-- Check that a name is no traversal component after separator removal. -/
def checkTraversal : Except DestinationError Unit :=
  if name = "..".toList ∨ name = ".".toList then .error .directoryReference
  else match name with
  | drive :: ':' :: _ => if drive.isAlpha then .error .driveLetter else .ok ()
  | _ => .ok ()

variable (U : Unicode)

/-- Whether a name is a reserved platform filename, with or without an extension. -/
def isReservedPlatformName (name : List Char) : Bool :=
  ["CON", "PRN", "AUX", "NUL", "COM1", "COM2", "COM3", "COM4", "COM5", "COM6", "COM7", "COM8",
    "COM9", "LPT1", "LPT2", "LPT3", "LPT4", "LPT5", "LPT6", "LPT7", "LPT8", "LPT9"].any
    fun reserved => reserved.toList = U.toUppercase (name.takeWhile (· != '.'))

/-- Whether a name consists entirely of `.` characters. -/
def isAllDots : Bool := !name.isEmpty && name.all (· == '.')

/-- Sanitise a display name into a safe filesystem name. -/
def sanitiseFilename (name fallbackStem : List Char) : List Char :=
  let cleaned := stripped name
  if cleaned.isEmpty || cleaned.all U.isWhitespace then fallbackStem
  else if isReservedPlatformName U cleaned || isAllDots cleaned then
    -- the extension is kept if there is one
    let stem := ((Text.rsplitOnce '.' cleaned).map Prod.snd).getD []
    if !stem.isEmpty && !isReservedPlatformName U stem && !isAllDots stem then
      fallbackStem ++ '.' :: stem
    else fallbackStem
  else cleaned

/-- The `n`-th deduplicated variant of a filename. -/
def dedupName (filename : List Char) (n : ℕ) : List Char :=
  if n = 0 then filename
  else
    let number := " (".toList ++ Nat.toDigits 10 n ++ [')']
    match Text.rsplitOnce '.' filename with
    | some (base, suffix) =>
      if base.isEmpty then filename ++ number else base ++ number ++ '.' :: suffix
    | none => filename ++ number

/-- If a path exists, a variant that does not. -/
def deduplicatePath (t : Tree (List Char) A) (path : Path (List Char)) (maxAttempts : ℕ) :
    Except DestinationError (Path (List Char)) :=
  if !t.existsAt path then .ok path
  else match path.fileName with
  | none => .error .noFilename
  | some filename =>
    let candidate := fun i => (path.parent.getD []).join (parse (dedupName filename i))
    match (List.range' 1 maxAttempts).find? fun i => !t.existsAt (candidate i) with
    | some i => .ok (candidate i)
    | none => .error .exhausted

/-- Derive a safe filesystem destination from a remote display name. -/
def safeDestinationPath (t : Tree (List Char) A) (downloadDir : Path (List Char))
    (displayName fallbackStem : List Char) : Except DestinationError (Path (List Char)) :=
  if !downloadDir.isAbsolute then .error .notAbsolute
  else do
    checkTraversal (stripped displayName)
    let candidate := downloadDir.join (parse (sanitiseFilename U displayName fallbackStem))
    if !isPathContained t candidate downloadDir then .error .escapes
    else deduplicatePath t candidate maxDedupAttempts

/-! ### The names are names -/

section Names

variable {U : Unicode} {name fallbackStem filename : List Char}

theorem slash_not_mem_stripped : '/' ∉ stripped name := by
  simp [stripped]

theorem not_dots_of_checkTraversal {u : Unit} (h : checkTraversal name = .ok u) :
    name ≠ ['.'] ∧ name ≠ ['.', '.'] := by
  unfold checkTraversal at h
  split_ifs at h with hd
  exact ⟨fun hdo => hd (.inr hdo), fun hdo => hd (.inl hdo)⟩

/-- The sanitised name is a single name, if the fallback is one. -/
theorem isName_sanitiseFilename {u : Unit} (hf : Path.IsName fallbackStem)
    (hch : checkTraversal (stripped name) = .ok u) :
    Path.IsName (sanitiseFilename U name fallbackStem) := by
  unfold sanitiseFilename
  dsimp only
  split_ifs with hem _ hsm
  · exact hf
  · -- the fallback with an extension has at least three characters
    obtain ⟨hne, hsl, -, -⟩ := hf
    cases hs : Text.rsplitOnce '.' (stripped name) with
    | none =>
      rw [hs] at hsm
      simp at hsm
    | some parts =>
      obtain ⟨pre, after⟩ := parts
      rw [hs] at hsm
      have haf : after ≠ [] := by
        rintro rfl
        simp at hsm
      have hmem : '/' ∉ after := by
        intro hc
        apply slash_not_mem_stripped
        rw [Text.rsplitOnce_eq_some hs]
        simp [hc]
      refine isName_of_three_le ?_ (by simp [hsl, hmem])
      have hst := List.length_pos_iff.2 hne
      have ha := List.length_pos_iff.2 haf
      simp only [Option.map_some, Option.getD_some, List.length_append, List.length_cons]
      omega
  · exact hf
  · obtain ⟨hdo, hd⟩ := not_dots_of_checkTraversal hch
    refine ⟨?_, slash_not_mem_stripped, hdo, hd⟩
    intro hnil
    rw [hnil] at hem
    simp at hem

theorem slash_not_mem_toDigits (n : ℕ) : '/' ∉ Nat.toDigits 10 n := by
  intro h
  have hd := Nat.isDigit_of_mem_toDigits (by decide) le_rfl h
  revert hd
  decide

/-- A numbered name is a single name. -/
theorem isName_dedupName (h : Path.IsName filename) (n : ℕ) :
    Path.IsName (dedupName filename n) := by
  unfold dedupName
  split_ifs with hn
  · exact h
  have hd := slash_not_mem_toDigits n
  -- a numbered name has at least four characters, and no separator
  have hna : ∀ pre post : List Char, '/' ∉ pre → '/' ∉ post →
      Path.IsName (pre ++ (" (".toList ++ Nat.toDigits 10 n ++ [')']) ++ post) := by
    intro pre post hb ha
    refine isName_of_three_le ?_ (by simp [hb, ha, hd])
    have hp : (" (".toList).length = 2 := rfl
    simp only [List.length_append, List.length_cons]
    omega
  have hw : Path.IsName (filename ++ (" (".toList ++ Nat.toDigits 10 n ++ [')'])) := by
    simpa using hna filename [] h.2.1 (by simp)
  cases hsp : Text.rsplitOnce '.' filename with
  | none => exact hw
  | some parts =>
    obtain ⟨base, suffix⟩ := parts
    have hf := Text.rsplitOnce_eq_some hsp
    have hs := h.2.1
    rw [hf] at hs
    dsimp only
    split_ifs
    · exact hw
    · exact hna base ('.' :: suffix) (fun hc => hs (by simp [hc]))
        (fun hc => hs (List.mem_append_right _ hc))

end Names

/-! ### The destination -/

section Destination

variable {U : Unicode} {t : Tree (List Char) A} {dir path : Path (List Char)}
  {displayName fallbackStem name : List Char} {q : Place (List Char)}

/-- A deduplicated path is the path, or a name in the same directory that does not exist. -/
theorem deduplicatePath_eq_ok {ma : ℕ} (hn : Path.IsName name)
    (h : deduplicatePath t (dir ++ [.normal name]) ma = .ok path) :
    path = dir ++ [.normal name] ∨
      t.existsAt path = false ∧ ∃ name', path = dir ++ [.normal name'] := by
  unfold deduplicatePath at h
  split_ifs at h with hes
  · cases h
    exact .inl rfl
  rw [fileName_concat] at h
  dsimp only at h
  rw [parent_concat] at h
  split at h
  · rename_i i hfi
    cases h
    have hj : dir.join (parse (dedupName name i)) =
        dir ++ [.normal (dedupName name i)] := by
      rw [parse_of_isName (isName_dedupName hn i), join_normal]
    refine .inr ⟨?_, _, hj⟩
    have hf := List.find?_some hfi
    simpa using hf
  · cases h

/-- What is created at a name in a directory is in the directory. -/
theorem under_of_missing (ho : t.locate false (dir ++ [.normal name]) = .ok q)
    (hdi : dir ≠ []) (hes : t.existsAt (dir ++ [.normal name]) = false)
    (hda : ¬ t.Dangling (dir ++ [.normal name])) : Under t dir q := by
  have hn : t.node q = none := by
    by_contra hs
    have hc := Tree.canonicalize_eq_ok.2 ⟨ho, hs⟩
    rw [Tree.existsAt_iff.2 ⟨q, hc⟩] at hes
    cases hes
  have hl : t.readLink (dir ++ [.normal name]) = none := by
    by_contra hl
    exact hda ⟨Option.isSome_iff_ne_none.2 hl, hes⟩
  obtain ⟨p, n, d, links, heq, hp, hd, rfl⟩ := concat_of_missing ho hn hl
  obtain ⟨rfl, -⟩ := List.append_inj' heq rfl
  have hc : t.canonicalize dir = .ok d :=
    Tree.canonicalize_eq_ok.2 ⟨Tree.locate_eq_ok.2 ⟨hdi, links, hp⟩, by simp [hd]⟩
  unfold Under
  rw [canonicalizeAllowMissing_of_ok hc]
  exact Place.path_prefix_iff.2 (List.prefix_append d [n])

/-- **The destination stays in the download directory**, dangling links apart. -/
theorem safeDestinationPath_sound (hf : Path.IsName fallbackStem)
    (h : safeDestinationPath U t dir displayName fallbackStem = .ok path)
    (ho : t.locate false path = .ok q) (hd : ¬ t.Dangling path) :
    Under t dir q := by
  unfold safeDestinationPath at h
  split_ifs at h with ha
  have hdi : dir ≠ [] := by
    rintro rfl
    exact ha rfl
  cases hch : checkTraversal (stripped displayName) with
  | error e =>
    rw [hch] at h
    cases h
  | ok u =>
    rw [hch] at h
    change (if _ then _ else _) = _ at h
    have hn := isName_sanitiseFilename (U := U) hf hch
    rw [parse_of_isName hn, join_normal] at h
    split_ifs at h with hc
    obtain rfl | ⟨hes, name', rfl⟩ := deduplicatePath_eq_ok hn h
    · exact isPathContained_sound hdi ho hd (by simpa using hc)
    · exact under_of_missing ho hdi hes hd

end Destination

/-- **Path containment.**  A place that opening a path for writing leads to, or at which it creates
a file, lies under the canonical root, if the path is contained in the root or is the destination
for a name, and is not a dangling link; or if it is a link that is safe, and its target is not a
dangling link. -/
theorem containment_sound (U : Unicode) (t : Tree (List Char) A) (path root : Path (List Char))
    (q : Place (List Char)) (hroot : root ≠ []) (hopen : t.locate false path = .ok q) :
    (isPathContained t path root = true → ¬ t.Dangling path → Under t root q) ∧
    (∀ target, t.readLink path = some target → symlinkIsSafe t path root = true →
      ¬ t.Dangling (linkTarget path target) → Under t root q) ∧
    ∀ displayName fallbackStem, Path.IsName fallbackStem →
      safeDestinationPath U t root displayName fallbackStem = .ok path → ¬ t.Dangling path →
      Under t root q := by
  refine ⟨fun h hd => isPathContained_sound hroot hopen hd h, fun target hl h hd =>
    symlinkIsSafe_sound hroot hl hopen hd h, fun displayName fallbackStem hf h hd =>
    safeDestinationPath_sound hf h hopen hd⟩

/-- A shared directory with a file, a link to the file and a link that leads to nothing, and another
directory with a file. -/
def shared : Tree (List Char) Unit where
  nodes := List.toAList [⟨[], .dir⟩, ⟨["share".toList], .dir⟩,
    ⟨["share".toList, "a".toList], .file ()⟩,
    ⟨["share".toList, "link".toList], .symlink [.normal "a".toList]⟩,
    ⟨["share".toList, "gone".toList], .symlink (parse "/etc/new".toList)⟩,
    ⟨["etc".toList], .dir⟩, ⟨["etc".toList, "passwd".toList], .file ()⟩]
  root := by decide
  inDirectory := by decide
  cwd := []
  cwd_dir := by decide

def ascii : Unicode := ⟨List.map Char.toUpper, Char.isWhitespace⟩

/-- A file outside the root is no link, so it is accepted. -/
theorem symlinkIsSafe_file_outside :
    symlinkIsSafe shared (parse "/etc/passwd".toList) (parse "/share".toList) = true ∧
      shared.locate false (parse "/etc/passwd".toList) = .ok ["etc".toList, "passwd".toList] ∧
      ¬ Under shared (parse "/share".toList) ["etc".toList, "passwd".toList] :=
  ⟨by decide +kernel, rfl, by decide +kernel⟩

-- a dangling link in the root is taken to be a file that does not exist yet, and leads out of it
example : isPathContained shared (parse "/share/gone".toList) (parse "/share".toList) ∧
    shared.locate false (parse "/share/gone".toList) = .ok ["etc".toList, "new".toList] :=
  ⟨by decide +kernel, rfl⟩

/-- A new file, a link and the destination of a download in the shared directory. -/
theorem containment_sound_share :
    (isPathContained shared (parse "/share/new".toList) (parse "/share".toList) = true ∧
      Under shared (parse "/share".toList) ["share".toList, "new".toList]) ∧
    (symlinkIsSafe shared (parse "/share/link".toList) (parse "/share".toList) = true ∧
      Under shared (parse "/share".toList) ["share".toList, "a".toList]) ∧
    safeDestinationPath ascii shared (parse "/share".toList) "../a".toList "f".toList =
        .ok (parse "/share/..a".toList) ∧
      Under shared (parse "/share".toList) ["share".toList, "..a".toList] :=
  ⟨⟨by decide +kernel, (containment_sound ascii shared (parse "/share/new".toList) _ _
      (by decide) rfl).1 (by decide +kernel) (by decide +kernel)⟩,
    ⟨by decide +kernel, (containment_sound ascii shared (parse "/share/link".toList) _ _
      (by decide) rfl).2.1 _ rfl (by decide +kernel) (by decide +kernel)⟩,
    rfl, (containment_sound ascii shared (parse "/share/..a".toList) _ _ (by decide) rfl).2.2
      "../a".toList "f".toList (by decide +kernel) rfl (by decide +kernel)⟩

end Boru.SafeDestination
