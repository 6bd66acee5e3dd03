import TapeRs.Ltfs.Replay

open TapeRs.Keyed

namespace TapeRs.Ltfs.Incremental

open DirectoryNode EntryReplays Fields Option

variable {new old : DirectoryNode} {dir entry : DirectoryNode}

def deletedFile (file : FileNode) : FileNode := { name := file.name, deltaFields := Fields.deletion }

def deletedDir (dir : DirectoryNode) : DirectoryNode := { name := dir.name, deltaFields := Fields.deletion }

def names (dir : DirectoryNode) : List String := dir.files.map (·.name) ++ dir.subdirs.map (·.name)

theorem not_mem_names {name : String} : name ∉ names dir ↔ dir.fileAt name = none ∧ dir.dirAt name = none := by
  rw [names, List.mem_append, not_or]
  exact and_congr lookup_eq_none.symm lookup_eq_none.symm

theorem difference_files (new old : DirectoryNode) : (difference new old).files =
    new.files.filter (fun file => collected (·.name) file.name old.files ≠ some file) ++
      (old.files.filter (fun file => file.name ∉ names new)).map deletedFile := by
  cases new
  rfl

theorem difference_subdirs (new old : DirectoryNode) : (difference new old).subdirs =
    differences new.subdirs old.subdirs ++
      (old.subdirs.filter (fun dir => dir.name ∉ names new)).map deletedDir := by
  cases new
  rfl

theorem difference_header (new old : DirectoryNode) :
    (difference new old).name = new.name ∧ (difference new old).nodeMeta = new.nodeMeta ∧
      (difference new old).xattrs = new.xattrs ∧ (difference new old).deltaFields =
        if new.nodeMeta = old.nodeMeta ∧ new.xattrs = old.xattrs then navigation else none := by
  cases new
  exact ⟨rfl, rfl, rfl, rfl⟩

theorem validateDir_eq (dir : DirectoryNode) (root : Bool) :
    validateDir dir root = (do
      validateFields dir.deltaFields dir.name true root
      let names ← validateFiles dir.files []
      validateDirs dir.subdirs names) := by
  cases dir
  rw [validateDir]

theorem lookup_deletions {α β : Type} (keyed : α → String) (key : β → String) (f : α → β)
    (keeps : ∀ entry, key (f entry) = keyed entry) {entries : List α} (nodup : (entries.map keyed).Nodup)
    (used : List String) (name : String) :
    lookup key name ((entries.filter (fun entry => keyed entry ∉ used)).map f) =
      if name ∈ used then none else (lookup keyed name entries).map f := by
  rw [lookup_map keyed key f keeps, lookup_filter keyed _ nodup]
  cases found : lookup keyed name entries with
  | none => simp
  | some entry =>
    rw [filter_some, (lookup_member found).2]
    by_cases taken : name ∈ used <;> simp [taken]

def priorOf (old dir : DirectoryNode) : Option DirectoryNode :=
  (old.dirAt dir.name).filter (fun prior => prior.nodeMeta.fileUid = dir.nodeMeta.fileUid)

theorem priorOf_some {prior : DirectoryNode} :
    priorOf old dir = some prior ↔ old.dirAt dir.name = some prior ∧ prior.nodeMeta.fileUid = dir.nodeMeta.fileUid := by
  rw [priorOf, filter_eq_some_iff, decide_eq_true_eq]

def diffDir (old dir : DirectoryNode) : Option DirectoryNode :=
  match priorOf old dir with
  | some prior => if prior = dir then none else some (difference dir prior)
  | none => some dir

theorem diffDir_name (recorded : diffDir old dir = some entry) : entry.name = dir.name := by
  unfold diffDir at recorded
  split at recorded
  · split at recorded
    · cases recorded
    · cases recorded
      exact (difference_header dir _).1
  · cases recorded
    rfl

theorem diffDir_cases (recorded : diffDir old dir = some entry) :
    entry = dir ∨ ∃ prior ∈ old.subdirs, entry = difference dir prior := by
  unfold diffDir at recorded
  split at recorded
  · rename_i prior found
    obtain ⟨foundDir, -⟩ := filter_eq_some_iff.mp found
    split at recorded
    · cases recorded
    · cases recorded
      exact .inr ⟨prior, (lookup_member foundDir).1, rfl⟩
  · cases recorded
    exact .inl rfl

theorem lookup_diffDir (old dir : DirectoryNode) (name : String) :
    lookup (·.name) name (diffDir old dir).toList = if dir.name = name then diffDir old dir else none := by
  cases recorded : diffDir old dir with
  | none => simp
  | some entry => simp [lookup_cons, diffDir_name recorded]

/-- What the difference records under one name. -/
inductive DiffEntry (new old : DirectoryNode) (name : String) : Prop
  | sameFile (file : FileNode) (now : new.fileAt name = some file) (before : old.fileAt name = some file)
      (noFile : (difference new old).fileAt name = none) (noDir : (difference new old).dirAt name = none)
  | changedFile (file : FileNode) (now : new.fileAt name = some file) (before : old.fileAt name ≠ some file)
      (entry : (difference new old).fileAt name = some file) (noDir : (difference new old).dirAt name = none)
  | sameDir (dir : DirectoryNode) (now : new.dirAt name = some dir) (before : old.dirAt name = some dir)
      (noFile : (difference new old).fileAt name = none) (noDir : (difference new old).dirAt name = none)
  | changedDir (dir prior : DirectoryNode) (now : new.dirAt name = some dir) (before : old.dirAt name = some prior)
      (uid : prior.nodeMeta.fileUid = dir.nodeMeta.fileUid) (noFile : (difference new old).fileAt name = none)
      (entry : (difference new old).dirAt name = some (difference dir prior))
  | newDir (dir : DirectoryNode) (now : new.dirAt name = some dir)
      (before : ∀ prior, old.dirAt name = some prior → prior.nodeMeta.fileUid ≠ dir.nodeMeta.fileUid)
      (noFile : (difference new old).fileAt name = none) (entry : (difference new old).dirAt name = some dir)
  | goneFile (file : FileNode) (noFile : new.fileAt name = none) (noDir : new.dirAt name = none)
      (before : old.fileAt name = some file) (entry : (difference new old).fileAt name = some (deletedFile file))
      (noEntry : (difference new old).dirAt name = none)
  | goneDir (dir : DirectoryNode) (noFile : new.fileAt name = none) (noDir : new.dirAt name = none)
      (before : old.dirAt name = some dir) (noEntry : (difference new old).fileAt name = none)
      (entry : (difference new old).dirAt name = some (deletedDir dir))
  | absent (noFile : new.fileAt name = none) (noDir : new.dirAt name = none) (noOldFile : old.fileAt name = none)
      (noOldDir : old.dirAt name = none) (noEntry : (difference new old).fileAt name = none)
      (noDirEntry : (difference new old).dirAt name = none)

theorem nodup_with_deletions {α β : Type} {keyed : α → String} {key : β → String} (f : α → β)
    (keeps : ∀ entry, key (f entry) = keyed entry) {entries : List α} (nodup : (entries.map keyed).Nodup)
    (used : List String) {kept : List β} (keptNodup : (kept.map key).Nodup) (inUse : kept.map key ⊆ used) :
    ((kept ++ (entries.filter (fun entry => keyed entry ∉ used)).map f).map key).Nodup := by
  have deletedNames : ((entries.filter (fun entry => keyed entry ∉ used)).map f).map key =
      (entries.filter (fun entry => keyed entry ∉ used)).map keyed := by
    rw [List.map_map]
    exact List.map_congr_left fun entry _ => keeps entry
  rw [List.map_append, deletedNames]
  refine List.nodup_append.mpr ⟨keptNodup, nodup.sublist (List.filter_sublist.map keyed), ?_⟩
  rintro name inKept _ inDeleted rfl
  obtain ⟨entry, member, rfl⟩ := List.mem_map.mp inDeleted
  have free := (List.mem_filter.mp member).2
  simp only [decide_eq_true_eq] at free
  exact free (inUse inKept)

section Old

variable (oldDistinct : old.Distinct)
include oldDistinct

theorem collected_prior (dir : DirectoryNode) :
    collected (fun d : DirectoryNode => (d.name, d.nodeMeta.fileUid)) (dir.name, dir.nodeMeta.fileUid) old.subdirs =
      priorOf old dir := by
  have nodup : (old.subdirs.map (fun d : DirectoryNode => (d.name, d.nodeMeta.fileUid))).Nodup := by
    refine List.Nodup.of_map Prod.fst ?_
    rw [List.map_map]
    exact oldDistinct.subdirs
  rw [collected_eq_lookup _ nodup]
  apply ext
  intro prior
  rw [lookup_eq_some nodup, priorOf, filter_eq_some_iff, DirectoryNode.dirAt,
    lookup_eq_some oldDistinct.subdirs]
  simp only [Prod.mk.injEq, decide_eq_true_eq, and_assoc]

theorem differences_cons (dir : DirectoryNode) (rest : List DirectoryNode) :
    differences (dir :: rest) old.subdirs = (diffDir old dir).toList ++ differences rest old.subdirs := by
  rw [differences, collected_prior oldDistinct, diffDir]
  cases priorOf old dir with
  | none => rfl
  | some prior => by_cases same : prior = dir <;> simp [same]

theorem mem_differences {dirs : List DirectoryNode} :
    entry ∈ differences dirs old.subdirs ↔ ∃ dir ∈ dirs, diffDir old dir = some entry := by
  induction dirs with
  | nil => simp [differences]
  | cons dir rest ih =>
    rw [differences_cons oldDistinct, List.mem_append, ih]
    simp

theorem differences_names (dirs : List DirectoryNode) :
    ((differences dirs old.subdirs).map (·.name)).Sublist (dirs.map (·.name)) := by
  induction dirs with
  | nil => rw [differences]
  | cons dir rest ih =>
    rw [differences_cons oldDistinct]
    cases recorded : diffDir old dir with
    | none => exact ih.cons _
    | some entry => simpa [diffDir_name recorded] using ih

end Old

theorem differences_lookup {dirs : List DirectoryNode} (nodup : (dirs.map (·.name)).Nodup) (oldDistinct : old.Distinct)
    (name : String) :
    lookup (·.name) name (differences dirs old.subdirs) = (lookup (·.name) name dirs).bind (diffDir old) := by
  induction dirs with
  | nil => rw [differences]; rfl
  | cons dir rest ih =>
    rw [List.map_cons, List.nodup_cons] at nodup
    rw [differences_cons oldDistinct, lookup_append, lookup_diffDir, lookup_cons, ih nodup.2]
    by_cases here : dir.name = name
    · have absent : lookup (·.name) name rest = none := lookup_eq_none.mpr (here ▸ nodup.1)
      rw [absent, if_pos here, if_pos here, bind_none, or_none, bind_some]
    · rw [if_neg here, if_neg here, none_or]

section Both

variable (newDistinct : new.Distinct) (oldDistinct : old.Distinct)
include newDistinct oldDistinct

theorem difference_fileAt (name : String) :
    (difference new old).fileAt name =
      ((new.fileAt name).filter (fun file => old.fileAt name ≠ some file)).or
        (if name ∈ names new then none else (old.fileAt name).map deletedFile) := by
  rw [DirectoryNode.fileAt, difference_files, lookup_append,
    lookup_filter (fun file : FileNode => file.name) _ newDistinct.files,
    lookup_deletions (fun file : FileNode => file.name) _ deletedFile (fun _ => rfl) oldDistinct.files]
  congr 1
  cases found : new.fileAt name with
  | none => rw [show lookup _ name new.files = none from found]; rfl
  | some file =>
    rw [show lookup _ name new.files = some file from found, filter_some, filter_some,
      collected_eq_lookup _ oldDistinct.files, (lookup_member found).2]
    rfl

theorem difference_dirAt (name : String) :
    (difference new old).dirAt name =
      ((new.dirAt name).bind (diffDir old)).or
        (if name ∈ names new then none else (old.dirAt name).map deletedDir) := by
  rw [DirectoryNode.dirAt, difference_subdirs, lookup_append, differences_lookup newDistinct.subdirs oldDistinct,
    lookup_deletions (fun dir : DirectoryNode => dir.name) _ deletedDir (fun _ => rfl) oldDistinct.subdirs]
  rfl

theorem diffEntry (name : String) : DiffEntry new old name := by
  have fileEntry := difference_fileAt newDistinct oldDistinct name
  have dirEntry := difference_dirAt newDistinct oldDistinct name
  cases nowFile : new.fileAt name with
  | some file =>
    have noDir := newDistinct.dirAt_of_fileAt nowFile
    have used : name ∈ names new := by
      by_contra free
      simp [(not_mem_names.mp free).1] at nowFile
    simp only [nowFile, noDir, if_pos used, or_none, bind_none] at fileEntry dirEntry
    by_cases before : old.fileAt name = some file
    · exact .sameFile file nowFile before (by simpa [before, filter_some] using fileEntry) dirEntry
    · exact .changedFile file nowFile before (by simpa [before, filter_some] using fileEntry) dirEntry
  | none =>
    cases nowDir : new.dirAt name with
    | some dir =>
      have used : name ∈ names new := by
        by_contra free
        simp [(not_mem_names.mp free).2] at nowDir
      have named : dir.name = name := (lookup_member nowDir).2
      simp only [nowFile, nowDir, if_pos used, or_none, bind_some, filter_none]
        at fileEntry dirEntry
      cases before : priorOf old dir with
      | none =>
        refine .newDir dir nowDir (fun prior found same => ?_) fileEntry (by simpa [diffDir, before] using dirEntry)
        simp [priorOf, named, found, same] at before
      | some prior =>
        obtain ⟨found, uid⟩ := filter_eq_some_iff.mp before
        rw [named] at found
        by_cases same : prior = dir
        · exact .sameDir dir nowDir (same ▸ found) fileEntry (by simpa [diffDir, before, same] using dirEntry)
        · exact .changedDir dir prior nowDir found (by simpa using uid) fileEntry
            (by simpa [diffDir, before, same] using dirEntry)
    | none =>
      have free : name ∉ names new := not_mem_names.mpr ⟨nowFile, nowDir⟩
      simp only [nowFile, nowDir, if_neg free, filter_none, bind_none, none_or]
        at fileEntry dirEntry
      cases beforeFile : old.fileAt name with
      | some file =>
        rw [beforeFile] at fileEntry
        rw [oldDistinct.dirAt_of_fileAt beforeFile] at dirEntry
        exact .goneFile file nowFile nowDir beforeFile fileEntry dirEntry
      | none =>
        rw [beforeFile] at fileEntry
        cases beforeDir : old.dirAt name with
        | some dir =>
          rw [beforeDir] at dirEntry
          exact .goneDir dir nowFile nowDir beforeDir fileEntry dirEntry
        | none =>
          rw [beforeDir] at dirEntry
          exact .absent nowFile nowDir beforeFile beforeDir fileEntry dirEntry

theorem difference_distinct : (difference new old).Distinct := by
  have changedNames := (List.filter_sublist (l := new.files)
    (p := fun file => collected (·.name) file.name old.files ≠ some file)).map (·.name)
  have dirNames := differences_names oldDistinct new.subdirs
  refine .of_lookups ?_ ?_ fun name => ?_
  · rw [difference_files]
    exact nodup_with_deletions deletedFile (fun _ => rfl) oldDistinct.files (names new) (newDistinct.files.sublist changedNames)
      fun name member => List.mem_append_left _ (changedNames.subset member)
  · rw [difference_subdirs]
    exact nodup_with_deletions deletedDir (fun _ => rfl) oldDistinct.subdirs (names new) (newDistinct.subdirs.sublist dirNames)
      fun name member => List.mem_append_right _ (dirNames.subset member)
  · cases diffEntry newDistinct oldDistinct name with
    | sameFile | sameDir | changedDir | newDir | goneDir | absent => exact .inl (by assumption)
    | changedFile | goneFile => exact .inr (by assumption)

end Both

section Replay

theorem complete_full (directory : Bool) : complete none directory = .ok () := by
  cases directory <;> rfl

theorem mergeMeta_full (dst src : NodeMeta) : mergeMeta dst src none = src := rfl

theorem mergeMeta_navigation (dst src : NodeMeta) : mergeMeta dst src navigation = dst := by
  simp [mergeMeta, has, navigation]

theorem mergeFileMetadata_full {prior file : FileNode} (full : file.deltaFields = none) (named : prior.name = file.name)
    (bare : file.symlink.isSome → file.extents = []) : mergeFileMetadata prior file = file := by
  cases file with
  | mk deltaFields openForWrite name length nodeMeta extents xattrs symlink =>
    simp only at full named bare
    subst full named
    cases symlink with
    | none => simp [mergeFileMetadata, has, mergeMeta_full]
    | some target => simp [mergeFileMetadata, has, mergeMeta_full, bare rfl]

theorem patchedFile_full {dst : DirectoryNode} {file : FileNode} (full : file.deltaFields = none)
    (bare : file.symlink.isSome → file.extents = []) : patchedFile file (dst.fileAt file.name) = file := by
  have unstamped : { file with deltaFields := none } = file := by rw [← full]
  cases found : dst.fileAt file.name with
  | none => exact unstamped
  | some prior =>
    simp only [patchedFile]
    split
    · exact mergeFileMetadata_full full (lookup_member found).2 bare
    · exact unstamped

/-- A way to write trees down, with what the replay of a difference that is written so leaves of the new tree. -/
structure Form where
  file : FileNode → FileNode
  dir : DirectoryNode → DirectoryNode
  /-- The recorded fields of a complete directory. -/
  fields : Fields
  carriedFile : DirectoryNode → FileNode → FileNode
  carried : DirectoryNode → DirectoryNode → DirectoryNode
  live : fields.deleted = false
  whole : complete fields true = .ok ()
  has : fields.has "fileuid" = true ∧ fields.has "extendedattributes" = true
  described : ∀ dst src, mergeMeta dst src fields = src
  dir_name : ∀ dir', (dir dir').name = dir'.name
  dir_full : ∀ {dir'}, dir'.deltaFields = none →
    (dir dir').deltaFields = fields ∧ (dir dir').nodeMeta = dir'.nodeMeta ∧ (dir dir').xattrs = dir'.xattrs
  dir_navigation : ∀ {dir'}, dir'.deltaFields = Fields.navigation → (dir dir').deltaFields = Fields.navigation
  dir_deleted : ∀ dir', (dir (deletedDir dir')).deltaFields.deleted = true
  dir_distinct : ∀ {dir'}, dir'.Distinct → (dir dir').Distinct
  dir_fileAt : ∀ dir' name, (dir dir').fileAt name = (dir'.fileAt name).map file
  dir_dirAt : ∀ dir' name, (dir dir').dirAt name = (dir'.dirAt name).map dir
  file_full : ∀ {file'}, file'.deltaFields = none →
    (file file').deltaFields.deleted = false ∧ complete (file file').deltaFields false = .ok ()
  file_deleted : ∀ file', (file (deletedFile file')).deltaFields.deleted = true
  file_patched : ∀ {old : DirectoryNode} {file'}, file'.deltaFields = none → (file'.symlink.isSome → file'.extents = []) →
    patchedFile (file file') (old.fileAt file'.name) = carriedFile old file'
  file_kept : ∀ {old : DirectoryNode} {file'}, old.fileAt file'.name = none ∨ old.fileAt file'.name = some file' →
    carriedFile old file' = file'
  header : ∀ new old, (carried new old).name = new.name ∧ (carried new old).nodeMeta = new.nodeMeta ∧
    (carried new old).xattrs = new.xattrs ∧ (carried new old).deltaFields = new.deltaFields
  distinct : ∀ {new} old, new.Distinct → (carried new old).Distinct
  fileAt : ∀ new old name, (carried new old).fileAt name = (new.fileAt name).map (carriedFile old)
  dirAt : ∀ new old name, (carried new old).dirAt name =
    (new.dirAt name).map fun dir => (priorOf old dir).elim dir (carried dir)
  self : ∀ {dir'}, dir'.UniqueNames → carried dir' dir' = dir'

namespace Form

def plain : Form where
  file := id
  dir := id
  fields := none
  carriedFile _ file := file
  carried new _ := new
  live := rfl
  whole := complete_full true
  has := ⟨rfl, rfl⟩
  described := mergeMeta_full
  dir_name _ := rfl
  dir_full full := ⟨full, rfl, rfl⟩
  dir_navigation := id
  dir_deleted _ := rfl
  dir_distinct := id
  dir_fileAt _ _ := (congrFun Option.map_id _).symm
  dir_dirAt _ _ := (congrFun Option.map_id _).symm
  file_full full := by
    rw [id, full]
    exact ⟨rfl, complete_full false⟩
  file_deleted _ := rfl
  file_patched := patchedFile_full
  file_kept _ := rfl
  header _ _ := ⟨rfl, rfl, rfl, rfl⟩
  distinct _ := id
  fileAt _ _ _ := (congrFun Option.map_id _).symm
  dirAt new old name := by
    have same : (fun dir => (priorOf old dir).elim dir fun _ => dir) = id := by
      funext dir
      cases priorOf old dir <;> rfl
    exact same ▸ (congrFun Option.map_id _).symm
  self _ := rfl

variable (form : Form)

theorem full_replays (full : dir.Full) (unique : dir.UniqueNames) (bare : dir.LinksBare) :
    Replays (form.dir dir) { name := dir.name } dir false := by
  induction dir using inductionOn with
  | node dir ih =>
    obtain ⟨fields, nodeMeta, xattrs⟩ := form.dir_full full.here.1
    have emptyDistinct : DirectoryNode.Distinct { name := dir.name } := by simp [Distinct]
    apply replays_node (form.dir_distinct unique.here) emptyDistinct unique.here (by simp) (by simp) full.here.1
    · rw [fields, nodeMeta, form.described]
    · rw [fields, form.has.2, xattrs]
      rfl
    · intro name
      have fileEntry := form.dir_fileAt dir name
      have dirEntry := form.dir_dirAt dir name
      cases foundFile : dir.fileAt name with
      | some file =>
        obtain ⟨member, named⟩ := lookup_member foundFile
        have fileFull := full.here.2 file member
        rw [foundFile, map_some] at fileEntry
        apply filePatched _ fileEntry (form.file_full fileFull).1 (form.file_full fileFull).2
        rw [foundFile, ← named, form.file_patched fileFull (bare.here file member), form.file_kept (.inl rfl)]
      | none =>
        rw [foundFile, map_none] at fileEntry
        cases foundDir : dir.dirAt name with
        | some child =>
          obtain ⟨member, named⟩ := lookup_member foundDir
          obtain ⟨childFields, -⟩ := form.dir_full (full.below member).here.1
          have replays := ih child member (full.below member) (unique.below member) (bare.below member)
          rw [foundDir, map_some] at dirEntry
          apply dirCreated _ child dirEntry (by rw [childFields, form.live]) (by simp [DirectoryNode.dirAt])
            (by rw [childFields, form.whole]) _ foundDir
          rw [← named]
          exact replays
        | none =>
          rw [foundDir, map_none] at dirEntry
          exact .untouched fileEntry dirEntry foundFile (foundDir ▸ .none)

theorem difference_header (new old : DirectoryNode) :
    (form.dir (difference new old)).deltaFields = navigation ∧
        new.nodeMeta = old.nodeMeta ∧ new.xattrs = old.xattrs ∨
      (form.dir (difference new old)).deltaFields = form.fields ∧
        (form.dir (difference new old)).nodeMeta = new.nodeMeta ∧
        (form.dir (difference new old)).xattrs = new.xattrs := by
  obtain ⟨-, nodeMeta, xattrs, fields⟩ := Incremental.difference_header new old
  split at fields
  · exact .inl ⟨form.dir_navigation fields, by assumption⟩
  · rw [← nodeMeta, ← xattrs]
    exact .inr (form.dir_full fields)

theorem difference_replays {root : Bool} (full : new.Full) (newUnique : new.UniqueNames) (oldUnique : old.UniqueNames)
    (bare : new.LinksBare) (uid : new.nodeMeta.fileUid = old.nodeMeta.fileUid)
    (named : root = false → new.name = old.name) :
    Replays (form.dir (difference new old)) old (form.carried new old) root := by
  induction new using inductionOn generalizing old root with
  | node new ih =>
    have carriedFile := form.fileAt new old
    have carriedDir := form.dirAt new old
    obtain ⟨carriedName, carriedMeta, carriedXattrs, carriedFields⟩ := form.header new old
    have written := form.difference_header new old
    apply replays_node (form.dir_distinct (difference_distinct newUnique.here oldUnique.here)) oldUnique.here
      (form.distinct old newUnique.here)
    · intro _ explicit
      rcases written with ⟨navigation, -⟩ | ⟨-, nodeMeta, -⟩
      · rw [navigation] at explicit
        simp [Fields.has, Fields.navigation] at explicit
      · rw [nodeMeta, uid]
    · rw [carriedName, form.dir_name, (Incremental.difference_header new old).1]
      cases root with
      | true => rfl
      | false => exact named rfl
    · rw [carriedFields, full.here.1]
    · rw [carriedMeta]
      rcases written with ⟨navigation, unchanged, -⟩ | ⟨fields, nodeMeta, -⟩
      · rw [navigation, mergeMeta_navigation, unchanged]
      · rw [fields, nodeMeta, form.described]
    · rw [carriedXattrs]
      rcases written with ⟨navigation, -, unchanged⟩ | ⟨fields, -, xattrs⟩
      · simp [navigation, Fields.has, Fields.navigation, unchanged]
      · rw [fields, form.has.2, xattrs]
        rfl
    · intro name
      have fileEntry := form.dir_fileAt (difference new old) name
      have dirEntry := form.dir_dirAt (difference new old) name
      cases diffEntry newUnique.here oldUnique.here name with
      | sameFile file now before noFile noDir =>
        rw [noFile] at fileEntry
        rw [noDir] at dirEntry
        apply untouched fileEntry dirEntry
        · obtain ⟨-, rfl⟩ := lookup_member now
          rw [carriedFile, now, before, map_some, form.file_kept (.inr before)]
        · rw [carriedDir, newUnique.here.dirAt_of_fileAt now, oldUnique.here.dirAt_of_fileAt before]
          exact .none
      | changedFile file now before entry noDir =>
        obtain ⟨member, fileNamed⟩ := lookup_member now
        have fileFull := full.here.2 file member
        rw [entry, map_some] at fileEntry
        apply filePatched _ fileEntry (form.file_full fileFull).1 (form.file_full fileFull).2
        rw [carriedFile, now, ← fileNamed, form.file_patched fileFull (bare.here file member)]
        rfl
      | sameDir dir now before noFile noDir =>
        rw [noFile] at fileEntry
        rw [noDir] at dirEntry
        apply untouched fileEntry dirEntry
        · rw [carriedFile, newUnique.here.fileAt_of_dirAt now, oldUnique.here.fileAt_of_dirAt before]
          rfl
        · obtain ⟨member, rfl⟩ := lookup_member now
          rw [carriedDir, now, before, map_some, priorOf_some.mpr ⟨before, rfl⟩, elim_some,
            form.self (newUnique.below member)]
          exact .some (.refl dir)
      | changedDir dir prior now before sameUid noFile entry =>
        obtain ⟨member, dirNamed⟩ := lookup_member now
        obtain ⟨priorMember, priorNamed⟩ := lookup_member before
        have replays : Replays (form.dir (difference dir prior)) prior (form.carried dir prior) false :=
          ih dir member (full.below member) (newUnique.below member) (oldUnique.below priorMember)
            (bare.below member) sameUid.symm fun _ => dirNamed.trans priorNamed.symm
        have childWritten := form.difference_header dir prior
        rw [entry, map_some] at dirEntry
        apply dirPatched _ prior (form.carried dir prior) dirEntry _ before _ replays
        · rw [carriedDir, now, map_some, priorOf_some.mpr ⟨dirNamed ▸ before, sameUid⟩, elim_some]
        · rcases childWritten with ⟨navigation, -⟩ | ⟨fields, -⟩
          · rw [navigation]
            decide
          · rw [fields, form.live]
        · rcases childWritten with ⟨navigation, -⟩ | ⟨-, nodeMeta, -⟩
          · simp [refersTo, navigation, Fields.has, Fields.navigation]
          · simp [refersTo, nodeMeta, sameUid]
      | newDir dir now before noFile entry =>
        obtain ⟨member, dirNamed⟩ := lookup_member now
        obtain ⟨fields, nodeMeta, -⟩ := form.dir_full (full.below member).here.1
        have replays := form.full_replays (full.below member) (newUnique.below member) (bare.below member)
        rw [entry, map_some] at dirEntry
        apply dirCreated _ dir dirEntry (by rw [fields, form.live]) _ (by rw [fields, form.whole])
          (dirNamed ▸ replays)
        · have unmatched : priorOf old dir = none := by
            rw [eq_none_iff_forall_ne_some]
            intro prior found
            obtain ⟨found, sameUid⟩ := priorOf_some.mp found
            exact before prior (dirNamed ▸ found) sameUid
          rw [carriedDir, now, map_some, unmatched, elim_none]
        · intro prior found
          simp [refersTo, fields, nodeMeta, form.has.1, before prior found]
      | goneFile file noFile noDir before entry noEntry =>
        rw [entry, map_some] at fileEntry
        apply fileDeleted _ fileEntry (form.file_deleted file)
        · rw [carriedFile, noFile]
          rfl
        · rw [carriedDir, noDir, oldUnique.here.dirAt_of_fileAt before]
          exact .none
      | goneDir dir noFile noDir before noEntry entry =>
        rw [entry, map_some] at dirEntry
        apply dirDeleted _ dirEntry (form.dir_deleted dir)
        · rw [carriedDir, noDir]
          rfl
        · rw [carriedFile, noFile, oldUnique.here.fileAt_of_dirAt before]
          rfl
      | absent noFile noDir noOldFile noOldDir noEntry noDirEntry =>
        rw [noEntry] at fileEntry
        rw [noDirEntry] at dirEntry
        apply untouched fileEntry dirEntry
        · rw [carriedFile, noFile, noOldFile]
          rfl
        · rw [carriedDir, noDir, noOldDir]
          exact .none

end Form

end Replay

end TapeRs.Ltfs.Incremental
