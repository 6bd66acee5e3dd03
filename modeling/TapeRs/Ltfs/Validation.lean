import TapeRs.Ltfs.Difference
import TapeRs.Ltfs.Edits

namespace TapeRs.Ltfs.Incremental

open DirectoryNode Namespace Fields List

variable {dir : DirectoryNode} {root : Bool}

def RootName (name : String) : Prop := '/' ∉ name.toList ∧ illegalPart name = false

instance (name : String) : Decidable (RootName name) := inferInstanceAs (Decidable (_ ∧ _))

def NameFits (name : String) (root : Bool) : Prop := RootName name ∧ (root = false → name.isEmpty = false)

section Fields

variable {name : String} {directory root : Bool}

theorem legal_fits (legal : LegalName name) : NameFits name root := ⟨⟨legal.2.1, legal.2.2⟩, fun _ => legal.1⟩

theorem name_accepted (fits : NameFits name root) :
    ¬ ((!root && name.isEmpty) || '/' ∈ name.toList || '\x00' ∈ name.toList || name = "." || name = "..") := by
  obtain ⟨⟨noSlash, fine⟩, nonempty⟩ := fits
  unfold illegalPart at fine
  simp only [Bool.or_eq_false_iff, decide_eq_false_iff_not] at fine
  cases root with
  | true => simp [noSlash, fine]
  | false => simp [noSlash, fine, nonempty rfl]

theorem validateFields_full (fits : NameFits name root) : validateFields none name directory root = .ok () := by
  rw [validateFields, if_neg (name_accepted fits)]
  simp [deleted, has]

theorem validateFields_navigation (fits : NameFits name root) :
    validateFields navigation name true root = .ok () := by
  rw [validateFields, if_neg (name_accepted fits)]
  cases root <;> decide

theorem validateFields_deletion (fits : NameFits name false) :
    validateFields deletion name directory false = .ok () := by
  rw [validateFields, if_neg (name_accepted fits)]
  cases directory <;> decide

end Fields

theorem validateFiles_ok {files : List FileNode} {seen : List String}
    (valid : ∀ file ∈ files, validateFile file = .ok ()) (nodup : (files.map (·.name)).Nodup)
    (fresh : ∀ file ∈ files, file.name ∉ seen) :
    validateFiles files seen = .ok ((files.map (·.name)).reverse ++ seen) := by
  induction files generalizing seen with
  | nil => rfl
  | cons file rest ih =>
    rw [map_cons, nodup_cons] at nodup
    have later : ∀ other ∈ rest, other.name ∉ file.name :: seen := by
      intro other member
      rw [mem_cons, not_or]
      refine ⟨fun same => nodup.1 ?_, fresh other (mem_cons_of_mem _ member)⟩
      exact same ▸ mem_map_of_mem member
    rw [validateFiles, valid file (by simp), Result.ok_bind, if_neg (fresh file (by simp))]
    rw [ih (fun other member => valid other (mem_cons_of_mem _ member)) nodup.2 later]
    simp

theorem validateDirs_ok {dirs : List DirectoryNode} {seen : List String}
    (valid : ∀ child ∈ dirs, validateDir child false = .ok ()) (nodup : (dirs.map (·.name)).Nodup)
    (fresh : ∀ child ∈ dirs, child.name ∉ seen) : validateDirs dirs seen = .ok () := by
  induction dirs generalizing seen with
  | nil => rw [validateDirs]
  | cons dir rest ih =>
    rw [map_cons, nodup_cons] at nodup
    have later : ∀ other ∈ rest, other.name ∉ dir.name :: seen := by
      intro other member
      rw [mem_cons, not_or]
      refine ⟨fun same => nodup.1 ?_, fresh other (mem_cons_of_mem _ member)⟩
      exact same ▸ mem_map_of_mem member
    rw [validateDirs, if_neg (fresh dir (by simp)), valid dir (by simp)]
    exact ih (fun other member => valid other (mem_cons_of_mem _ member)) nodup.2 later

theorem validateDir_ok (fields : validateFields dir.deltaFields dir.name true root = .ok ())
    (files : ∀ file ∈ dir.files, validateFile file = .ok ()) (distinct : dir.Distinct)
    (children : ∀ child ∈ dir.subdirs, validateDir child false = .ok ()) : validateDir dir root = .ok () := by
  rw [validateDir_eq, fields, Result.ok_bind, validateFiles_ok files distinct.files (by simp), Result.ok_bind]
  refine validateDirs_ok children distinct.subdirs fun child member taken => ?_
  rw [append_nil, mem_reverse] at taken
  exact (nodup_append.mp distinct).2.2 _ taken _ (mem_map_of_mem member) rfl

theorem validateFile_full {file : FileNode} (whole : file.deltaFields = none) (legal : LegalName file.name) :
    validateFile file = .ok () := by
  rw [validateFile, whole, validateFields_full (legal_fits legal)]
  rfl

theorem validateFile_deleted {file : FileNode} (legal : LegalName file.name) :
    validateFile (deletedFile file) = .ok () := by
  show (do
    validateFields deletion file.name false false
    if symlinkWithExtents deletion then throw (bad "symlink 与 extentinfo 互斥")) = _
  rw [validateFields_deletion (legal_fits legal), Result.ok_bind, if_neg (by decide)]
  rfl

theorem validateDir_deleted (legal : LegalName dir.name) : validateDir (deletedDir dir) false = .ok () :=
  validateDir_ok (validateFields_deletion (legal_fits legal)) (by simp [deletedDir]) (by simp [deletedDir, Distinct])
    (by simp [deletedDir])

theorem validateDir_full (unique : dir.UniqueNames) (orderly : dir.Throughout Orderly) (fits : NameFits dir.name root) :
    validateDir dir root = .ok () := by
  induction dir using DirectoryNode.inductionOn generalizing root with
  | node dir ih =>
    obtain ⟨⟨whole, files, names⟩, below⟩ := throughout_iff.mp orderly
    refine validateDir_ok ?_ (fun file member => ?_) unique.here fun child member => ?_
    · rw [whole]
      exact validateFields_full fits
    · exact validateFile_full (files file member).1 (files file member).2
    · exact ih child member (unique.below member) (below child member) (legal_fits (names child member))

theorem validateDir_difference {new old : DirectoryNode} (newUnique : new.UniqueNames) (oldUnique : old.UniqueNames)
    (newOrderly : new.Throughout Orderly) (oldOrderly : old.Throughout Orderly) (fits : NameFits new.name root) :
    validateDir (difference new old) root = .ok () := by
  induction new using DirectoryNode.inductionOn generalizing old root with
  | node new ih =>
    obtain ⟨⟨_, newFiles, newNames⟩, newBelow⟩ := throughout_iff.mp newOrderly
    obtain ⟨⟨_, oldFiles, oldNames⟩, oldBelow⟩ := throughout_iff.mp oldOrderly
    obtain ⟨name, _, _, fields⟩ := difference_header new old
    refine validateDir_ok ?_ (fun file member => ?_) (difference_distinct newUnique.here oldUnique.here)
      fun child member => ?_
    · rw [fields, name]
      split
      · exact validateFields_navigation fits
      · exact validateFields_full fits
    · rw [difference_files, mem_append] at member
      rcases member with changed | gone
      · have there := (mem_filter.mp changed).1
        exact validateFile_full (newFiles file there).1 (newFiles file there).2
      · obtain ⟨before, kept, rfl⟩ := mem_map.mp gone
        exact validateFile_deleted (oldFiles before (mem_filter.mp kept).1).2
    · rw [difference_subdirs, mem_append] at member
      rcases member with recorded | gone
      · obtain ⟨dir, there, entry⟩ := (mem_differences oldUnique.here).mp recorded
        rcases diffDir_cases entry with rfl | ⟨prior, known, rfl⟩
        · exact validateDir_full (newUnique.below there) (newBelow _ there) (legal_fits (newNames _ there))
        · exact ih dir there (newUnique.below there) (oldUnique.below known) (newBelow dir there) (oldBelow prior known)
            (legal_fits (newNames dir there))
      · obtain ⟨before, kept, rfl⟩ := mem_map.mp gone
        exact validateDir_deleted (oldNames before (mem_filter.mp kept).1)

end TapeRs.Ltfs.Incremental
