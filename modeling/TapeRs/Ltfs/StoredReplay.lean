import TapeRs.Ltfs.DirectoryRoundTrip
import TapeRs.Ltfs.View

open TapeRs.Keyed

namespace TapeRs.Ltfs.Incremental

open DirectoryNode IndexParser Fields List

def Trimmed (root : DirectoryNode) : Prop :=
  ∀ dir ∈ root.directories, TrimmedTimes dir.nodeMeta ∧ ∀ file ∈ dir.files, TrimmedTimes file.nodeMeta

instance (root : DirectoryNode) : Decidable (Trimmed root) :=
  inferInstanceAs (Decidable (∀ dir ∈ root.directories, _ ∧ ∀ file ∈ dir.files, _))

section Entries

theorem fileEntry_full {incremental : Bool} {root : DirectoryNode} (full : root.Full) (bare : root.LinksBare)
    (trimmed : Trimmed root) : ∀ file ∈ root.files, FileEntry incremental file := by
  intro file member
  have times := (forall_directories.mp trimmed).1.2 file member
  exact .inl ⟨full.here.2 file member, bare.here file member, times⟩

theorem treeEntry_full {root : DirectoryNode} (full : root.Full) (bare : root.LinksBare) (trimmed : Trimmed root)
    (incremental : Bool) : TreeEntry incremental root := by
  induction root using inductionOn with
  | node root ih =>
    apply treeEntry_iff.mpr
    constructor
    · have times := (forall_directories.mp trimmed).1.1
      exact ⟨.inl ⟨full.here.1, times⟩, fileEntry_full full bare trimmed⟩
    · intro child member
      exact ih child member (full.below member) (bare.below member) ((forall_directories.mp trimmed).2 child member)

theorem treeEntry_deletion (name : String) : TreeEntry true (dirDeletion name) := by
  apply treeEntry_iff.mpr
  constructor
  · exact ⟨.inr (.inr ⟨rfl, rfl⟩), by simp [dirDeletion]⟩
  · simp [dirDeletion]

theorem treeEntry_difference {new old : DirectoryNode} (full : new.Full) (bare : new.LinksBare) (trimmed : Trimmed new)
    (oldUnique : old.UniqueNames) : TreeEntry true (difference new old) := by
  induction new using inductionOn generalizing old with
  | node new ih =>
    obtain ⟨name, nodeMeta, xattrs, fields⟩ := difference_header new old
    apply treeEntry_iff.mpr
    constructor
    · constructor
      · rw [fields, nodeMeta]
        split
        · exact .inr (.inl ⟨rfl, rfl⟩)
        · exact .inl ⟨rfl, (forall_directories.mp trimmed).1.1⟩
      · intro file member
        rw [difference_files, mem_append] at member
        rcases member with kept | removed
        · exact fileEntry_full full bare trimmed file (mem_filter.mp kept).1
        · obtain ⟨prior, _, rfl⟩ := mem_map.mp removed
          exact .inr ⟨rfl, rfl⟩
    · intro child member
      rw [difference_subdirs, mem_append] at member
      rcases member with kept | removed
      · obtain ⟨dir, among, entry⟩ := (mem_differences oldUnique.here).mp kept
        have below := (forall_directories.mp trimmed).2 dir among
        rcases diffDir_cases entry with rfl | ⟨prior, known, rfl⟩
        · exact treeEntry_full (full.below among) (bare.below among) below true
        · exact ih dir among (full.below among) (bare.below among) below (oldUnique.below known)
      · obtain ⟨prior, _, rfl⟩ := mem_map.mp removed
        exact treeEntry_deletion prior.name

end Entries

section Validation

variable {file : FileNode}

theorem mem_fileElements {tag : String} :
    tag ∈ fileElements file ↔ tag ∈ insert "extendedattributes" fileNames ∨
      (tag = "openforwrite" ∧ file.openForWrite.isSome = true) ∨ (tag = "symlink" ∧ file.symlink.isSome = true) ∨
      (tag = "extentinfo" ∧ file.symlink.isSome = false) := by
  unfold fileElements payloadNames openNames
  cases file.openForWrite.isSome <;> cases file.symlink.isSome <;>
    simp only [Bool.false_eq_true, if_false, if_true, Finset.mem_insert, and_false, and_true, false_or, or_false,
      reduceCtorEq] <;> tauto

theorem not_deleted_file (file : FileNode) : "deleted" ∉ fileElements file := by
  rw [mem_fileElements]
  have base : "deleted" ∉ insert "extendedattributes" fileNames := by decide
  simp [base]

theorem stored_has {tag : String} (base : tag ∈ insert "extendedattributes" fileNames) :
    (storedFile true file).deltaFields.has tag = true := by
  simp only [storedFile, recorded, if_true, has, decide_eq_true_eq]
  exact mem_fileElements.mpr (.inl base)

theorem storedFile_live (file : FileNode) : (storedFile true file).deltaFields.deleted = false := by
  simp only [storedFile, recorded, if_true, deleted, decide_eq_false_iff_not]
  exact not_deleted_file file

theorem validateFields_stored {fields : Fields} {directory : Bool} (live : fields.deleted = false)
    (named : fields.has "name" = true) (held : directory = true → fields.has "contents" = true)
    (identified : fields.has "fileuid" = true) (name : String) (root : Bool) :
    validateFields fields name directory root = validateFields none name directory root := by
  have noneLive : deleted none = false := rfl
  have noneHas : ∀ key, has none key = true := fun _ => rfl
  have contents : (directory && !fields.has "contents") = false := by
    cases directory with
    | false => rfl
    | true => rw [held rfl]; rfl
  unfold validateFields
  simp only [live, named, identified, noneLive, noneHas, contents, Bool.not_true, Bool.false_or, Bool.false_eq_true,
    if_false, Bool.false_and, Bool.and_false]

theorem validateFile_stored (entry : FileEntry true file) :
    validateFile (storedEntry true file) = validateFile file := by
  rcases entry with ⟨full, -⟩ | ⟨-, removed⟩
  · have live : storedEntry true file = storedFile true file := by simp [storedEntry, full, deleted]
    have apart : symlinkWithExtents (storedFile true file).deltaFields = false := by
      have base : ∀ tag ∈ ["symlink", "extentinfo"], tag ∉ insert "extendedattributes" fileNames := by decide
      simp only [storedFile, recorded, if_true, symlinkWithExtents, Bool.and_eq_false_iff, decide_eq_false_iff_not,
        mem_fileElements, base "symlink" (by decide), base "extentinfo" (by decide)]
      cases file.symlink.isSome <;> simp
    have fields : validateFields (storedFile true file).deltaFields file.name false false =
        validateFields none file.name false false :=
      validateFields_stored (storedFile_live file) (stored_has (by decide)) (by simp) (stored_has (by decide)) _ _
    have named : (storedFile true file).name = file.name := rfl
    rw [live, validateFile, validateFile, apart, full, named, fields]
    rfl
  · rw [storedEntry, removed]
    rfl

theorem storedEntry_name (incremental : Bool) (file : FileNode) : (storedEntry incremental file).name = file.name := by
  unfold storedEntry
  split <;> rfl

theorem validateFiles_stored {files : List FileNode} (entries : ∀ file ∈ files, FileEntry true file)
    (seen : List String) : validateFiles (files.map (storedEntry true)) seen = validateFiles files seen := by
  induction files generalizing seen with
  | nil => rfl
  | cons file rest ih =>
    rw [map_cons, validateFiles, validateFiles, validateFile_stored (entries file (by simp)), storedEntry_name,
      ih fun other member => entries other (mem_cons_of_mem _ member)]

theorem storedDir_name (incremental : Bool) (dir : DirectoryNode) : (storedDir incremental dir).name = dir.name := by
  cases dir
  rw [storedDir]

theorem validateDirs_stored {dirs : List DirectoryNode}
    (each : ∀ child ∈ dirs, ∀ root, validateDir (storedDir true child) root = validateDir child root)
    (seen : List String) : validateDirs (dirs.map (storedDir true)) seen = validateDirs dirs seen := by
  induction dirs generalizing seen with
  | nil => rfl
  | cons child rest ih =>
    rw [map_cons, validateDirs, validateDirs, storedDir_name, each child (by simp),
      ih fun other member => each other (mem_cons_of_mem _ member)]

theorem validateDir_stored {dir : DirectoryNode} (entries : TreeEntry true dir) (root : Bool) :
    validateDir (storedDir true dir) root = validateDir dir root := by
  induction dir using inductionOn generalizing root with
  | node dir ih =>
    obtain ⟨⟨kind, fileEntries⟩, dirEntries⟩ := treeEntry_iff.mp entries
    have children := validateDirs_stored fun child member root => ih child member (dirEntries child member) root
    rcases kind with ⟨full, -⟩ | ⟨-, navigation⟩ | ⟨-, removed⟩
    · have fields : validateFields (recorded true dirElements) dir.name true root =
          validateFields none dir.name true root :=
        validateFields_stored (by decide) (by decide) (fun _ => by decide) (by decide) dir.name root
      rw [storedDir_full full, validateDir_eq, validateDir_eq, fields, validateFiles_stored fileEntries, full]
      simp only [children]
    · rw [storedDir_navigation navigation, validateDir_eq, validateDir_eq, validateFiles_stored fileEntries, navigation]
      simp only [children]
    · rw [removed, storedDir_deletion]

end Validation

section Lookups

theorem storedDir_subdirs (incremental : Bool) (dir : DirectoryNode) :
    (storedDir incremental dir).subdirs = dir.subdirs.map (storedDir incremental) := by
  cases dir
  rw [storedDir, storedDirs_eq]

theorem storedDir_files (incremental : Bool) (dir : DirectoryNode) :
    (storedDir incremental dir).files = dir.files.map (storedEntry incremental) := by
  cases dir
  rw [storedDir]

theorem storedDir_fileAt (incremental : Bool) (dir : DirectoryNode) (name : String) :
    (storedDir incremental dir).fileAt name = (dir.fileAt name).map (storedEntry incremental) := by
  rw [DirectoryNode.fileAt, storedDir_files,
    lookup_map (fun file : FileNode => file.name) _ _ (storedEntry_name incremental)]
  rfl

theorem storedDir_dirAt (incremental : Bool) (dir : DirectoryNode) (name : String) :
    (storedDir incremental dir).dirAt name = (dir.dirAt name).map (storedDir incremental) := by
  rw [DirectoryNode.dirAt, storedDir_subdirs,
    lookup_map (fun dir : DirectoryNode => dir.name) _ _ (storedDir_name incremental)]
  rfl

theorem storedDir_distinct {incremental : Bool} {dir : DirectoryNode} (distinct : dir.Distinct) :
    (storedDir incremental dir).Distinct := by
  have files : (dir.files.map (storedEntry incremental)).map (·.name) = dir.files.map (·.name) := by
    simp [storedEntry_name]
  have dirs : (dir.subdirs.map (storedDir incremental)).map (·.name) = dir.subdirs.map (·.name) := by
    simp [storedDir_name]
  rw [Distinct, storedDir_files, storedDir_subdirs, files, dirs]
  exact distinct

end Lookups

section Carry

/-- What a replay through the stored form leaves in a file: an absent flag keeps the old one. -/
def carryFile (old : DirectoryNode) (file : FileNode) : FileNode :=
  match old.fileAt file.name with
  | some prior =>
    if prior.nodeMeta.fileUid = file.nodeMeta.fileUid then
      { file with openForWrite := file.openForWrite.or prior.openForWrite }
    else file
  | none => file

mutual
def carry (new old : DirectoryNode) : DirectoryNode :=
  match new with
  | ⟨deltaFields, name, nodeMeta, files, subdirs, xattrs⟩ =>
    ⟨deltaFields, name, nodeMeta, files.map (carryFile old), carryAll subdirs old, xattrs⟩

def carryAll : List DirectoryNode → DirectoryNode → List DirectoryNode
  | [], _ => []
  | dir :: rest, old =>
    (match priorOf old dir with
      | some prior => carry dir prior
      | none => dir) :: carryAll rest old
end

def carryDir (old dir : DirectoryNode) : DirectoryNode :=
  match priorOf old dir with
  | some prior => carry dir prior
  | none => dir

theorem carryAll_eq (dirs : List DirectoryNode) (old : DirectoryNode) : carryAll dirs old = dirs.map (carryDir old) := by
  induction dirs with
  | nil => rw [carryAll]; rfl
  | cons dir rest ih => rw [carryAll, ih, map_cons, carryDir]

theorem carry_eq (new old : DirectoryNode) :
    carry new old = { new with files := new.files.map (carryFile old), subdirs := new.subdirs.map (carryDir old) } := by
  cases new
  rw [carry, carryAll_eq]

theorem carryFile_header (old : DirectoryNode) (file : FileNode) :
    (carryFile old file).name = file.name ∧ (carryFile old file).nodeMeta = file.nodeMeta := by
  unfold carryFile
  split
  · split <;> exact ⟨rfl, rfl⟩
  · exact ⟨rfl, rfl⟩

theorem carryDir_header (old dir : DirectoryNode) :
    (carryDir old dir).name = dir.name ∧ (carryDir old dir).nodeMeta = dir.nodeMeta := by
  unfold carryDir
  split
  · rw [carry_eq]
    exact ⟨rfl, rfl⟩
  · exact ⟨rfl, rfl⟩

theorem carry_fileAt (new old : DirectoryNode) (name : String) :
    (carry new old).fileAt name = (new.fileAt name).map (carryFile old) := by
  rw [DirectoryNode.fileAt, carry_eq,
    lookup_map (fun file : FileNode => file.name) _ _ fun file => (carryFile_header old file).1]
  rfl

theorem carry_dirAt (new old : DirectoryNode) (name : String) :
    (carry new old).dirAt name = (new.dirAt name).map (carryDir old) := by
  rw [DirectoryNode.dirAt, carry_eq,
    lookup_map (fun dir : DirectoryNode => dir.name) _ _ fun dir => (carryDir_header old dir).1]
  rfl

theorem carry_distinct {new : DirectoryNode} (old : DirectoryNode) (distinct : new.Distinct) : (carry new old).Distinct := by
  have files : (new.files.map (carryFile old)).map (·.name) = new.files.map (·.name) := by
    simp [(carryFile_header old _).1]
  have dirs : (new.subdirs.map (carryDir old)).map (·.name) = new.subdirs.map (·.name) := by
    simp [(carryDir_header old _).1]
  rw [Distinct, carry_eq]
  simp only [files, dirs]
  exact distinct

theorem carryFile_same {old : DirectoryNode} {file : FileNode} (found : old.fileAt file.name = some file) :
    carryFile old file = file := by
  simp only [carryFile, found, if_true, Option.or_self]

theorem carry_self {dir : DirectoryNode} (unique : dir.UniqueNames) : carry dir dir = dir := by
  induction dir using inductionOn with
  | node dir ih =>
    have files : dir.files.map (carryFile dir) = dir.files := by
      conv => rhs; rw [← map_id dir.files]
      apply map_congr_left
      intro file member
      exact carryFile_same ((lookup_eq_some unique.here.files).mpr ⟨member, rfl⟩)
    have dirs : dir.subdirs.map (carryDir dir) = dir.subdirs := by
      conv => rhs; rw [← map_id dir.subdirs]
      apply map_congr_left
      intro child member
      have found : priorOf dir child = some child :=
        priorOf_some.mpr ⟨(lookup_eq_some unique.here.subdirs).mpr ⟨member, rfl⟩, rfl⟩
      rw [carryDir, found]
      exact ih child member (unique.below member)
    rw [carry_eq, files, dirs]
    cases dir
    rfl

end Carry

section Replay

variable {file : FileNode}

theorem complete_storedFile (file : FileNode) : complete (storedFile true file).deltaFields false = .ok () := by
  have none : requiredFields.find? (fun key => !(storedFile true file).deltaFields.has key) = none := by
    rw [find?_eq_none]
    intro key member
    have base : ∀ key ∈ requiredFields, key ∈ insert "extendedattributes" fileNames := by decide
    rw [stored_has (base key member)]
    decide
  have sized : (storedFile true file).deltaFields.has "length" = true := stored_has (by decide)
  simp only [complete, none, sized, Bool.not_true, Bool.and_false, Bool.false_eq_true, if_false]

theorem mergeMeta_stored {fields : Fields} (has : ∀ tag ∈ metaTags, fields.has tag = true) (dst src : NodeMeta) :
    mergeMeta dst src fields = src := by
  unfold mergeMeta
  rw [has "fileuid" (by decide), has "readonly" (by decide), has "creationtime" (by decide),
    has "changetime" (by decide), has "modifytime" (by decide), has "accesstime" (by decide),
    has "backuptime" (by decide)]
  rfl

theorem mergeFileMetadata_stored {prior : FileNode} (full : file.deltaFields = none)
    (bare : file.symlink.isSome → file.extents = []) (named : prior.name = file.name) :
    mergeFileMetadata prior (storedFile true file) =
      { file with openForWrite := file.openForWrite.or prior.openForWrite } := by
  have base : ∀ tag ∈ metaTags, tag ∈ insert "extendedattributes" fileNames := by decide
  have nodeMeta : mergeMeta prior.nodeMeta file.nodeMeta (storedFile true file).deltaFields = file.nodeMeta :=
    mergeMeta_stored (fun tag member => stored_has (base tag member)) _ _
  have sized : (storedFile true file).deltaFields.has "length" = true := stored_has (by decide)
  have attributed : (storedFile true file).deltaFields.has "extendedattributes" = true := stored_has (by decide)
  have has : ∀ tag, (storedFile true file).deltaFields.has tag = decide (tag ∈ fileElements file) := fun _ => rfl
  have outside : ∀ tag ∈ ["openforwrite", "symlink", "extentinfo"], tag ∉ insert "extendedattributes" fileNames := by
    decide
  have opened : (storedFile true file).deltaFields.has "openforwrite" = file.openForWrite.isSome := by
    rw [has, Bool.eq_iff_iff, decide_eq_true_eq, mem_fileElements]
    simp [outside "openforwrite" (by decide)]
  have linked : (storedFile true file).deltaFields.has "symlink" = file.symlink.isSome := by
    rw [has, Bool.eq_iff_iff, decide_eq_true_eq, mem_fileElements]
    simp [outside "symlink" (by decide)]
  have extended : (storedFile true file).deltaFields.has "extentinfo" = !file.symlink.isSome := by
    rw [has, Bool.eq_iff_iff, decide_eq_true_eq, mem_fileElements]
    simp [outside "extentinfo" (by decide)]
  have parts : (storedFile true file).nodeMeta = file.nodeMeta ∧ (storedFile true file).length = file.length ∧
      (storedFile true file).openForWrite = file.openForWrite ∧ (storedFile true file).symlink = file.symlink ∧
      (storedFile true file).extents = file.extents ∧ (storedFile true file).xattrs = file.xattrs :=
    ⟨rfl, rfl, rfl, rfl, rfl, rfl⟩
  unfold mergeFileMetadata
  simp only [parts, nodeMeta, sized, attributed, opened, linked, extended, if_true, named]
  cases file with
  | mk deltaFields openForWrite name length nodeMeta extents xattrs symlink =>
    simp only at full bare
    subst full
    cases symlink with
    | none => cases openForWrite <;> rfl
    | some target =>
      have empty := bare rfl
      subst empty
      cases openForWrite <;> rfl

theorem patchedFile_stored {old : DirectoryNode} (full : file.deltaFields = none)
    (bare : file.symlink.isSome → file.extents = []) :
    patchedFile (storedFile true file) (old.fileAt file.name) = carryFile old file := by
  have unstamped : { storedFile true file with deltaFields := none } = file := by
    rw [← full]
    rfl
  unfold carryFile
  cases found : old.fileAt file.name with
  | none => exact unstamped
  | some prior =>
    have uid : (storedFile true file).nodeMeta.fileUid = file.nodeMeta.fileUid := rfl
    simp only [patchedFile, uid]
    split
    · exact mergeFileMetadata_stored full bare (lookup_member found).2
    · exact unstamped

theorem dirElements_has : (recorded true dirElements).deleted = false ∧
    (∀ tag ∈ metaTags, (recorded true dirElements).has tag = true) ∧
    (recorded true dirElements).has "extendedattributes" = true ∧ complete (recorded true dirElements) true = .ok () := by
  decide

theorem storedEntry_full (full : file.deltaFields = none) : storedEntry true file = storedFile true file := by
  simp [storedEntry, full, deleted]

def Form.stored : Form where
  file := storedEntry true
  dir := storedDir true
  fields := recorded true dirElements
  carriedFile := carryFile
  carried := carry
  live := dirElements_has.1
  whole := dirElements_has.2.2.2
  has := ⟨dirElements_has.2.1 _ (by decide), dirElements_has.2.2.1⟩
  described := mergeMeta_stored dirElements_has.2.1
  dir_name := storedDir_name true
  dir_full full := by
    rw [storedDir_full full]
    exact ⟨rfl, rfl, rfl⟩
  dir_navigation navigation := by rw [storedDir_navigation navigation]
  dir_deleted dir := by
    rw [show deletedDir dir = dirDeletion dir.name from rfl, storedDir_deletion]
    rfl
  dir_distinct := storedDir_distinct
  dir_fileAt := storedDir_fileAt true
  dir_dirAt := storedDir_dirAt true
  file_full full := by
    rw [storedEntry_full full]
    exact ⟨storedFile_live _, complete_storedFile _⟩
  file_deleted _ := rfl
  file_patched full bare := by rw [storedEntry_full full, patchedFile_stored full bare]
  file_kept kept := by
    rcases kept with absent | found
    · rw [carryFile, absent]
    · exact carryFile_same found
  header new old := by
    rw [carry_eq]
    exact ⟨rfl, rfl, rfl, rfl⟩
  distinct := carry_distinct
  fileAt := carry_fileAt
  dirAt new old name := by
    rw [carry_dirAt]
    congr 1
    funext dir
    rw [carryDir]
    cases priorOf old dir <;> rfl
  self := carry_self

end Replay

end TapeRs.Ltfs.Incremental
