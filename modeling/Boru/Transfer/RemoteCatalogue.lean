import Boru.LTS.Basic
import Boru.Transfer.Tables

/-!
# Catalogues of remote peers

A catalogue received from a peer replaces what the tables hold of that peer, in one transaction: a
call that fails leaves the tables as they are, so a call here is one that returned `Ok`.  The files
of all peers share the table of file objects, which is keyed by the content hash, and an object that
is there already is left as it is.  What a peer's files look like is therefore read from the object
that was stored first, whoever advertised it.

## Main results

* `Tables.getRemoteSharedFiles_replace_of_ne` : a call leaves the files of every other peer as they
  are.
* `Tables.replaces_iff_undisputed` : in a run of calls, every call leaves its owner with exactly the
  files of the catalogue if and only if no call disputes an object that is in the table or lists a
  hash in two ways.
-/

namespace Boru.Transfer

open List

/-- A file of a remote peer as it is returned. -/
structure RemoteSharedFileRow where
  contentHash : ContentHash
  displayFilename : String
  mimeType : String
  sizeBytes : UInt64
  deriving DecidableEq

namespace RemoteSharedFile

variable (file : RemoteSharedFile)

/-- What the file looks like to the user of the catalogue. -/
def row : RemoteSharedFileRow :=
  ⟨file.contentHash, file.displayName, file.mimeType, file.sizeBytes⟩

def object (now : ℤ) : FileObject where
  size := asI64 file.sizeBytes
  mimeType := file.mimeType
  filename := file.displayName
  createdAtMs := now

def columns (now : ℤ) : SharedFileColumns where
  metadataId := file.sharedFileId
  displayFilename := file.displayName
  description := file.description
  offered := true
  createdAtMs := now
  updatedAtMs := now

end RemoteSharedFile

namespace Tables

/-! ### Storing a catalogue -/

/-- Remove the files and the collections of the previous revision. -/
def clearRemoteCatalogue (peer : UserId) (db : Tables) : Tables :=
  let gone := (db.fileCollections.select fun _ c => c.profileUserId = peer).map Prod.fst
  { db with
    sharedFiles := db.sharedFiles.delete fun k _ => k.profileUserId = peer
    fileCollections := db.fileCollections.delete fun _ c => c.profileUserId = peer
    fileCollectionItems := db.fileCollectionItems.delete fun k _ => k.1 ∈ gone
    sharedFiles_objects := fun k hk =>
      db.sharedFiles_objects k ((filter_sublist.map Sigma.fst).subset hk) }

def storeRemoteFile (peer : UserId) (now : ℤ) (db : Tables) (file : RemoteSharedFile) : Tables :=
  { db with
    fileObjects := db.fileObjects.insertOrIgnore file.contentHash (file.object now)
    sharedFiles := db.sharedFiles.insert ⟨file.contentHash, peer⟩ (file.columns now)
    sharedFiles_objects := fun k hk => by
      rw [Table.mem_keys_insertOrIgnore]
      rcases (AList.mem_insert _).1 (AList.mem_keys.2 hk) with rfl | h
      · exact .inl rfl
      · exact .inr (db.sharedFiles_objects k (AList.mem_keys.1 h)) }

/-- Store a collection of the catalogue; one of the same name gives way to it, with its items. -/
def storeRemoteCollection (peer : UserId) (now : ℤ) (db : Tables)
    (collection : FileCatalogueCollection) : Tables :=
  let same := fun c : FileCollection => c.profileUserId = peer && c.name = collection.name
  let gone := (db.fileCollections.select fun _ c => same c).map Prod.fst
  let kept : Table ℤ FileCollection := db.fileCollections.delete fun _ c => same c
  let id := db.collectionSequence + 1
  { db with
    fileCollections := kept.insert id ⟨peer, collection.name, collection.description, now, now⟩
    collectionSequence := id
    fileCollectionItems := db.fileCollectionItems.delete fun k _ => k.1 ∈ gone }

/-- Store a remote peer's catalogue locally. -/
def replaceRemoteCatalogue (db : Tables) (nowMs : UInt64) (catalogue : SignedFileCatalogue) :
    Tables :=
  let peer := catalogue.ownerId
  let now := asI64 nowMs
  let state : ManifestState :=
    ⟨asI64 catalogue.revision, toString catalogue.generatedAtMs.toNat, now⟩
  let db := { db with manifests := db.manifests.insert peer state }
  let db := db.clearRemoteCatalogue peer
  let db := catalogue.files.foldl (storeRemoteFile peer now) db
  catalogue.collections.foldl (storeRemoteCollection peer now) db

/-- Read back the shared files stored from a remote peer's catalogue. -/
def getRemoteSharedFiles (db : Tables) (peer : UserId) : List RemoteSharedFileRow :=
  ((db.sharedFiles.select fun k _ => k.profileUserId = peer).insertionSort
      fun a b => b.2.updatedAtMs ≤ a.2.updatedAtMs).filterMap fun e =>
    (db.fileObjects.lookup e.1.contentHash).map fun o =>
      ⟨e.1.contentHash, e.2.displayFilename, o.mimeType, asU64 o.size⟩

/-! ### What a call does to the tables -/

variable {db : Tables} {peer : UserId} {now : ℤ}

theorem mem_getRemoteSharedFiles {r : RemoteSharedFileRow} :
    r ∈ db.getRemoteSharedFiles peer ↔ ∃ h c o, db.sharedFiles.lookup ⟨h, peer⟩ = some c ∧
      db.fileObjects.lookup h = some o ∧ r = ⟨h, c.displayFilename, o.mimeType, asU64 o.size⟩ := by
  unfold getRemoteSharedFiles
  simp only [mem_filterMap, mem_insertionSort, Option.map_eq_some_iff]
  constructor
  · rintro ⟨⟨⟨h, p⟩, c⟩, he, o, ho, rfl⟩
    obtain ⟨hl, hp⟩ := Table.mem_select.1 he
    obtain rfl : p = peer := of_decide_eq_true hp
    exact ⟨h, c, o, hl, ho, rfl⟩
  · rintro ⟨h, c, o, hl, ho, rfl⟩
    exact ⟨(⟨h, peer⟩, c), Table.mem_select.2 ⟨hl, decide_eq_true rfl⟩, o, ho, rfl⟩

variable {files : List RemoteSharedFile} {h : ContentHash}

theorem lookup_fileObjects_storeRemoteFiles :
    (files.foldl (storeRemoteFile peer now) db).fileObjects.lookup h =
      (db.fileObjects.lookup h).or
        ((files.find? fun f => f.contentHash = h).map fun f => f.object now) := by
  induction files generalizing db with
  | nil => simp
  | cons f files ih =>
    rw [foldl_cons, ih]
    show ((db.fileObjects.insertOrIgnore f.contentHash (f.object now)).lookup h).or _ = _
    rw [Table.lookup_insertOrIgnore, Option.or_assoc]
    by_cases hf : f.contentHash = h
    · rw [if_pos hf.symm, find?_cons_of_pos (by simpa using hf)]
      rfl
    · rw [if_neg (Ne.symm hf), find?_cons_of_neg (by simpa using hf), Option.none_or]

/-- The last file with a hash is the one stored under it. -/
theorem lookup_sharedFiles_storeRemoteFiles :
    (files.foldl (storeRemoteFile peer now) db).sharedFiles.lookup ⟨h, peer⟩ =
      ((files.reverse.find? fun f => f.contentHash = h).map fun f => f.columns now).or
        (db.sharedFiles.lookup ⟨h, peer⟩) := by
  induction files generalizing db with
  | nil => simp
  | cons f files ih =>
    rw [foldl_cons, ih, reverse_cons, find?_append, Option.map_or, Option.or_assoc]
    congr 1
    show (db.sharedFiles.insert ⟨f.contentHash, peer⟩ (f.columns now)).lookup ⟨h, peer⟩ = _
    by_cases hf : f.contentHash = h
    · subst hf
      simp
    · have hne : (⟨h, peer⟩ : SharedFileKey) ≠ ⟨f.contentHash, peer⟩ := by
        intro heq
        exact hf (SharedFileKey.mk.inj heq).1.symm
      rw [AList.lookup_insert_ne hne]
      simp [hf]

/-- The collections of a catalogue leave the files alone. -/
theorem storeRemoteCollections_files (co : List FileCatalogueCollection) :
    (co.foldl (storeRemoteCollection peer now) db).fileObjects = db.fileObjects ∧
      (co.foldl (storeRemoteCollection peer now) db).sharedFiles = db.sharedFiles := by
  induction co generalizing db with
  | nil => exact ⟨rfl, rfl⟩
  | cons c co ih => exact ih

section Replace

variable (db : Tables) (nowMs : UInt64) (c : SignedFileCatalogue)

/-- The object under a hash after a call: the one that was there, or the first of the catalogue. -/
theorem lookup_fileObjects_replace (h : ContentHash) :
    (db.replaceRemoteCatalogue nowMs c).fileObjects.lookup h =
      (db.fileObjects.lookup h).or ((c.files.find? fun f => f.contentHash = h).map
        fun f => f.object (asI64 nowMs)) := by
  unfold replaceRemoteCatalogue
  rw [(storeRemoteCollections_files _).1, lookup_fileObjects_storeRemoteFiles]
  rfl

/-- The owner's file under a hash after a call: the last of the catalogue, and no other. -/
theorem lookup_sharedFiles_replace (h : ContentHash) :
    (db.replaceRemoteCatalogue nowMs c).sharedFiles.lookup ⟨h, c.ownerId⟩ =
      (c.files.reverse.find? fun f => f.contentHash = h).map fun f => f.columns (asI64 nowMs) := by
  unfold replaceRemoteCatalogue
  rw [(storeRemoteCollections_files _).2, lookup_sharedFiles_storeRemoteFiles]
  have hg : (db.sharedFiles.delete fun k _ => k.profileUserId = c.ownerId).lookup
      ⟨h, c.ownerId⟩ = none := by
    rw [Table.lookup_delete]
    cases db.sharedFiles.lookup ⟨h, c.ownerId⟩ <;> simp
  exact (congrArg _ hg).trans Option.or_none

variable {c} in
/-- **A call leaves the files of every other peer as they are.** -/
theorem getRemoteSharedFiles_replace_of_ne {other : UserId} (hne : other ≠ c.ownerId) :
    (db.replaceRemoteCatalogue nowMs c).getRemoteSharedFiles other =
      db.getRemoteSharedFiles other := by
  have hs : ∀ (files : List RemoteSharedFile) (db : Tables),
      ((files.foldl (storeRemoteFile c.ownerId (asI64 nowMs)) db).sharedFiles.select
        fun k _ => k.profileUserId = other) = db.sharedFiles.select
          fun k _ => k.profileUserId = other := by
    intro files
    induction files with
    | nil => exact fun _ => rfl
    | cons f files ih =>
      intro db
      rw [foldl_cons, ih]
      exact Table.select_insert_of_not _ fun _ => by simpa using hne.symm
  have hr : ((db.replaceRemoteCatalogue nowMs c).sharedFiles.select
      fun k _ => k.profileUserId = other) =
        db.sharedFiles.select fun k _ => k.profileUserId = other := by
    unfold replaceRemoteCatalogue
    rw [(storeRemoteCollections_files _).2, hs]
    show ((db.sharedFiles.delete fun k _ => k.profileUserId = c.ownerId).select _) = _
    refine Table.select_delete_of_not fun k _ hk => ?_
    rw [of_decide_eq_true hk]
    simpa using hne
  unfold getRemoteSharedFiles
  rw [hr]
  refine filterMap_congr fun e he => ?_
  -- the object of a row that is there is there too, and is left as it is
  have hmem := (Table.mem_select.1 ((mem_insertionSort _).1 he)).1
  have hob := db.sharedFiles_objects e.1
    (AList.mem_keys.1 (AList.lookup_isSome.1 (by rw [hmem]; rfl)))
  obtain ⟨o, ho⟩ := Option.isSome_iff_exists.1 (AList.lookup_isSome.2 (AList.mem_keys.2 hob))
  rw [lookup_fileObjects_replace, ho]
  rfl

end Replace

/-! ### Runs of calls -/

structure Call where
  nowMs : UInt64
  catalogue : SignedFileCatalogue

def catalogues : Machine Tables Call Empty where
  step db call := (db.replaceRemoteCatalogue call.nowMs call.catalogue, [])

/-- The call leaves its owner with exactly the files of the catalogue, and every other peer with the
files it had. -/
def Replaces (db : Tables) (call : Call) : Prop :=
  let after := db.replaceRemoteCatalogue call.nowMs call.catalogue
  (∀ r, r ∈ after.getRemoteSharedFiles call.catalogue.ownerId ↔
    ∃ f ∈ call.catalogue.files, r = f.row) ∧
  ∀ other, other ≠ call.catalogue.ownerId →
    after.getRemoteSharedFiles other = db.getRemoteSharedFiles other

/-- The catalogue says of each of its hashes one thing, and what the table of objects says of it. -/
def Undisputed (db : Tables) (call : Call) : Prop :=
  (∀ f ∈ call.catalogue.files, ∀ g ∈ call.catalogue.files, f.contentHash = g.contentHash →
    f.displayName = g.displayName ∧ f.mimeType = g.mimeType ∧ f.sizeBytes = g.sizeBytes) ∧
  ∀ f ∈ call.catalogue.files, ∀ o, db.fileObjects.lookup f.contentHash = some o →
    o.mimeType = f.mimeType ∧ asU64 o.size = f.sizeBytes

section Exact

variable {db : Tables} {call : Call} {f : RemoteSharedFile}

/-- The owner's listing after a call: for each hash of the catalogue, the name of its last file and
what the object of the hash says. -/
theorem mem_getRemoteSharedFiles_replace {r : RemoteSharedFileRow} :
    r ∈ (db.replaceRemoteCatalogue call.nowMs call.catalogue).getRemoteSharedFiles
        call.catalogue.ownerId ↔
      ∃ last o, (call.catalogue.files.reverse.find? fun f => f.contentHash = r.contentHash) =
          some last ∧
        (db.replaceRemoteCatalogue call.nowMs call.catalogue).fileObjects.lookup r.contentHash =
          some o ∧
        r = ⟨r.contentHash, last.displayName, o.mimeType, asU64 o.size⟩ := by
  rw [mem_getRemoteSharedFiles]
  constructor
  · rintro ⟨h, c, o, hc, ho, rfl⟩
    rw [lookup_sharedFiles_replace, Option.map_eq_some_iff] at hc
    obtain ⟨last, hl, rfl⟩ := hc
    exact ⟨last, o, hl, ho, rfl⟩
  · rintro ⟨last, o, hl, ho, hr⟩
    refine ⟨r.contentHash, last.columns (asI64 call.nowMs), o, ?_, ho, hr⟩
    rw [lookup_sharedFiles_replace, hl]
    rfl

theorem exists_last (hf : f ∈ call.catalogue.files) : ∃ last ∈ call.catalogue.files,
    last.contentHash = f.contentHash ∧
      (call.catalogue.files.reverse.find? fun g => g.contentHash = f.contentHash) = some last := by
  have hs : (call.catalogue.files.reverse.find?
      fun g => g.contentHash = f.contentHash).isSome :=
    find?_isSome.2 ⟨f, mem_reverse.2 hf, by simp⟩
  obtain ⟨last, hl⟩ := Option.isSome_iff_exists.1 hs
  exact ⟨last, mem_reverse.1 (mem_of_find?_eq_some hl), by simpa using find?_some hl, hl⟩

variable (db) in
theorem exists_object (hf : f ∈ call.catalogue.files) : ∃ o,
    (db.replaceRemoteCatalogue call.nowMs call.catalogue).fileObjects.lookup f.contentHash =
      some o := by
  have hfi : (call.catalogue.files.find? fun g => g.contentHash = f.contentHash).isSome :=
    find?_isSome.2 ⟨f, hf, by simp⟩
  refine Option.isSome_iff_exists.1 ?_
  rw [lookup_fileObjects_replace, Option.isSome_or, Option.isSome_map, hfi, Bool.or_true]

/-- Undisputed files are stored with an object that says what they say. -/
theorem Undisputed.object (hu : Undisputed db call) (hf : f ∈ call.catalogue.files) {o : FileObject}
    (ho : (db.replaceRemoteCatalogue call.nowMs call.catalogue).fileObjects.lookup f.contentHash =
      some o) : o.mimeType = f.mimeType ∧ asU64 o.size = f.sizeBytes := by
  rw [lookup_fileObjects_replace] at ho
  cases hol : db.fileObjects.lookup f.contentHash with
  | some o' =>
    rw [hol] at ho
    cases ho
    exact hu.2 f hf o hol
  | none =>
    rw [hol, Option.none_or, Option.map_eq_some_iff] at ho
    obtain ⟨first, hfi, rfl⟩ := ho
    obtain ⟨-, hm, hs⟩ := hu.1 first (mem_of_find?_eq_some hfi) f hf (by simpa using find?_some hfi)
    exact ⟨hm, (asU64_asI64 _).trans hs⟩

/-- A file whose entry is listed is described by the last file and by the object of its hash. -/
theorem eq_of_row_mem
    (hro : f.row ∈ (db.replaceRemoteCatalogue call.nowMs call.catalogue).getRemoteSharedFiles
      call.catalogue.ownerId) {last : RemoteSharedFile} {o : FileObject}
    (hl : (call.catalogue.files.reverse.find? fun g => g.contentHash = f.contentHash) = some last)
    (ho : (db.replaceRemoteCatalogue call.nowMs call.catalogue).fileObjects.lookup f.contentHash =
      some o) :
    f.displayName = last.displayName ∧ f.mimeType = o.mimeType ∧ f.sizeBytes = asU64 o.size := by
  obtain ⟨last', o', hlast', ho', hr⟩ := mem_getRemoteSharedFiles_replace.1 hro
  obtain rfl : last' = last := Option.some.inj (hlast'.symm.trans hl)
  obtain rfl : o' = o := Option.some.inj (ho'.symm.trans ho)
  obtain ⟨-, hn, hm, hs⟩ := RemoteSharedFileRow.mk.inj hr
  exact ⟨hn, hm, hs⟩

/-- One call is exact if and only if its catalogue is undisputed. -/
theorem replaces_iff (db : Tables) (call : Call) : Replaces db call ↔ Undisputed db call := by
  constructor
  · rintro ⟨hec, -⟩
    have hro : ∀ f ∈ call.catalogue.files, f.row ∈
        (db.replaceRemoteCatalogue call.nowMs call.catalogue).getRemoteSharedFiles
          call.catalogue.ownerId := fun f hf => (hec _).2 ⟨f, hf, rfl⟩
    refine ⟨fun f hf g hg hfg => ?_, fun f hf o ho => ?_⟩
    · obtain ⟨last, -, -, hl⟩ := exists_last hf
      obtain ⟨o, ho⟩ := exists_object db hf
      obtain ⟨hn, hm, hs⟩ := eq_of_row_mem (hro f hf) hl ho
      rw [hfg] at hl ho
      obtain ⟨hname', hmime', hsize'⟩ := eq_of_row_mem (hro g hg) hl ho
      exact ⟨hn.trans hname'.symm, hm.trans hmime'.symm, hs.trans hsize'.symm⟩
    · obtain ⟨last, -, -, hl⟩ := exists_last hf
      have ha := lookup_fileObjects_replace db call.nowMs call.catalogue f.contentHash
      rw [ho] at ha
      obtain ⟨-, hm, hs⟩ := eq_of_row_mem (hro f hf) hl ha
      exact ⟨hm.symm, hs.symm⟩
  · intro hu
    refine ⟨fun r => ?_, fun other hne => getRemoteSharedFiles_replace_of_ne db call.nowMs hne⟩
    rw [mem_getRemoteSharedFiles_replace]
    constructor
    · rintro ⟨last, o, hl, ho, hr⟩
      have hmem := mem_reverse.1 (mem_of_find?_eq_some hl)
      have hh : last.contentHash = r.contentHash := by simpa using find?_some hl
      rw [← hh] at ho
      obtain ⟨hm, hs⟩ := hu.object hmem ho
      refine ⟨last, hmem, hr.trans ?_⟩
      rw [← hh, hm, hs]
      rfl
    · rintro ⟨f, hf, rfl⟩
      obtain ⟨last, hmem, hh, hl⟩ := exists_last hf
      obtain ⟨o, ho⟩ := exists_object db hf
      obtain ⟨hm, hs⟩ := hu.object hf ho
      refine ⟨last, o, hl, ho, ?_⟩
      rw [(hu.1 last hmem f hf hh).1, hm, hs]
      rfl

end Exact

/-- **Catalogues and the shared objects.**  In every run of calls from every state of the tables,
each call leaves its owner with exactly the files of its catalogue and every other peer's files
unchanged if and only if no catalogue of the run contradicts itself or an object that is in the
table when it comes. -/
theorem replaces_iff_undisputed (db : Tables) (calls : List Call) :
    catalogues.Along Replaces db calls ↔ catalogues.Along Undisputed db calls :=
  Machine.along_congr replaces_iff db calls

/-- Two peers advertise one hash, and the second one's file is shown with the type and the size that
the first one gave. -/
theorem not_replaces_second_peer :
    let file : RemoteSharedFile :=
      { sharedFileId := "id", displayName := "film", description := none, mimeType := "video/mp4",
        sizeBytes := 5, contentHash := "ab", versionNumber := 1, updatedAtMs := 0 }
    let call (owner : UserId) (file : RemoteSharedFile) : Call := ⟨0, ⟨owner, 1, 0, [], [file]⟩⟩
    let calls := [call "mallory" { file with mimeType := "text/ht", sizeBytes := 1 },
      call "alice" file]
    let start : Tables := { fileObjects := ∅, sharedFiles := ∅, sharedFiles_objects := by decide }
    ¬ catalogues.Along Replaces start calls ∧
      (catalogues.exec start calls).getRemoteSharedFiles "alice" =
        [⟨"ab", "film", "text/ht", 1⟩] := by
  refine ⟨fun h => ?_, by decide⟩
  have hr := (h.2.1.1 ⟨"ab", "film", "video/mp4", 5⟩).2 ⟨_, mem_singleton_self _, rfl⟩
  revert hr
  decide

end Tables

end Boru.Transfer
