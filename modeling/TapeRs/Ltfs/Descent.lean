import Mathlib.Data.List.Flatten
import TapeRs.Ltfs.Replay

open TapeRs.Keyed

namespace TapeRs.Ltfs

open Incremental
open List hiding lookup lookup_cons

def updateFile (name : String) (f : FileNode → FileNode) : List FileNode → List FileNode
  | [] => []
  | file :: rest => if file.name = name then f file :: rest else file :: updateFile name f rest

namespace DirectoryNode

variable {name : String} {root : DirectoryNode}

/-- The directory a path leads to; each name takes the first child that has it. -/
def descend : DirectoryNode → List String → Option DirectoryNode
  | dir, [] => some dir
  | dir, part :: rest => (dir.dirAt part).bind (descend · rest)

def edit (f : DirectoryNode → DirectoryNode) : List String → DirectoryNode → DirectoryNode
  | [], dir => f dir
  | part :: rest, dir => { dir with subdirs := updateDir part (edit f rest) dir.subdirs }

theorem updateDir_found {dirs : List DirectoryNode} {child : DirectoryNode}
    (found : lookup (·.name) name dirs = some child) :
    child.name = name ∧ ∃ left right, dirs = left ++ child :: right ∧
      ∀ f, updateDir name f dirs = left ++ f child :: right := by
  induction dirs with
  | nil => cases found
  | cons dir rest ih =>
    rw [lookup_cons] at found
    by_cases here : dir.name = name
    · rw [if_pos here] at found
      obtain rfl := Option.some.inj found
      refine ⟨here, [], rest, rfl, fun f => ?_⟩
      rw [updateDir, if_pos here]
      rfl
    · rw [if_neg here] at found
      obtain ⟨named, left, right, rfl, updated⟩ := ih found
      refine ⟨named, dir :: left, right, rfl, fun f => ?_⟩
      rw [updateDir, if_neg here, updated]
      rfl

theorem updateFile_found {files : List FileNode} {file : FileNode} (found : lookup (·.name) name files = some file) :
    ∃ left right, files = left ++ file :: right ∧ ∀ f, updateFile name f files = left ++ f file :: right := by
  induction files with
  | nil => cases found
  | cons head rest ih =>
    rw [lookup_cons] at found
    by_cases here : head.name = name
    · rw [if_pos here] at found
      obtain rfl := Option.some.inj found
      refine ⟨[], rest, rfl, fun f => ?_⟩
      rw [updateFile, if_pos here]
      rfl
    · rw [if_neg here] at found
      obtain ⟨left, right, rfl, updated⟩ := ih found
      refine ⟨head :: left, right, rfl, fun f => ?_⟩
      rw [updateFile, if_neg here, updated]
      rfl

section Found

variable {root child dir : DirectoryNode} {part : String} {rest path : List String} {f : DirectoryNode → DirectoryNode}

theorem descend_cons (found : root.dirAt part = some child) : root.descend (part :: rest) = child.descend rest := by
  rw [descend, found, Option.bind_some]

theorem descend_cons_some : root.descend (part :: rest) = some dir ↔
    ∃ child, root.dirAt part = some child ∧ child.descend rest = some dir := by
  rw [descend, Option.bind_eq_some_iff]

theorem descend_append (upper lower : List String) :
    root.descend (upper ++ lower) = (root.descend upper).bind (descend · lower) := by
  induction upper generalizing root with
  | nil => rfl
  | cons part rest ih =>
    rw [cons_append, descend, descend, Option.bind_assoc]
    congr 1
    funext child
    exact ih

theorem edit_name (keeps : ∀ dir, root.descend path = some dir → (f dir).name = dir.name) :
    (edit f path root).name = root.name := by
  cases path with
  | nil => exact keeps root rfl
  | cons part rest => rfl

theorem edit_cons (rest : List String) (found : root.dirAt part = some child) : child.name = part ∧
    ∃ left right, root.subdirs = left ++ child :: right ∧
      ∀ f, edit f (part :: rest) root = { root with subdirs := left ++ edit f rest child :: right } := by
  obtain ⟨named, left, right, split, updated⟩ := updateDir_found found
  refine ⟨named, left, right, split, fun f => ?_⟩
  rw [edit, updated]

end Found

theorem updateDir_absent {f : DirectoryNode → DirectoryNode} {dirs : List DirectoryNode}
    (absent : lookup (·.name) name dirs = none) : updateDir name f dirs = dirs := by
  induction dirs with
  | nil => rfl
  | cons dir rest ih =>
    have other := lookup_eq_none.mp absent
    rw [map_cons, mem_cons, not_or] at other
    rw [updateDir, if_neg (fun same => other.1 same.symm), ih (lookup_eq_none.mpr other.2)]

theorem edit_absent {f : DirectoryNode → DirectoryNode} {path : List String} (absent : root.descend path = none) :
    edit f path root = root := by
  induction path generalizing root with
  | nil => cases absent
  | cons part rest ih =>
    cases here : root.dirAt part with
    | none =>
      rw [edit, updateDir_absent here]
      cases root
      rfl
    | some child =>
      obtain ⟨_, left, right, split, edited⟩ := edit_cons rest here
      rw [descend_cons here] at absent
      rw [edited, ih absent, ← split]
      cases root
      rfl

def Throughout (P : DirectoryNode → Prop) (root : DirectoryNode) : Prop := ∀ dir ∈ root.directories, P dir

instance (P : DirectoryNode → Prop) [DecidablePred P] (root : DirectoryNode) : Decidable (root.Throughout P) :=
  inferInstanceAs (Decidable (∀ dir ∈ root.directories, P dir))

def Local (P : DirectoryNode → Prop) : Prop :=
  ∀ dir subdirs, subdirs.map (·.name) = dir.subdirs.map (·.name) → P dir → P { dir with subdirs }

theorem throughout_iff {P : DirectoryNode → Prop} :
    root.Throughout P ↔ P root ∧ ∀ child ∈ root.subdirs, child.Throughout P :=
  forall_directories

theorem leaf_throughout {P : DirectoryNode → Prop} {nodeMeta : NodeMeta} (here : P { name, nodeMeta }) :
    ({ name, nodeMeta } : DirectoryNode).Throughout P :=
  throughout_iff.mpr ⟨here, by simp⟩

theorem leaf_uids (name : String) (nodeMeta : NodeMeta) :
    ({ name, nodeMeta } : DirectoryNode).uids = [nodeMeta.fileUid] := by
  rw [uids_eq]
  rfl

theorem local_distinct : Local Distinct := by
  intro dir subdirs names distinct
  show (dir.files.map (·.name) ++ subdirs.map (·.name)).Nodup
  rw [names]
  exact distinct

section Edits

variable {P : DirectoryNode → Prop} {root child dir : DirectoryNode}

theorem throughout_replace {new : DirectoryNode} {left right : List DirectoryNode} (reads : Local P)
    (holds : root.Throughout P) (split : root.subdirs = left ++ child :: right) (named : new.name = child.name) :
    ({ root with subdirs := left ++ new :: right } : DirectoryNode).Throughout P ↔ new.Throughout P := by
  have names : (left ++ new :: right).map (·.name) = root.subdirs.map (·.name) := by
    rw [split]
    simp [named]
  obtain ⟨here, below⟩ := throughout_iff.mp holds
  rw [split] at below
  rw [throughout_iff]
  constructor
  · intro both
    exact both.2 new (by simp)
  · intro fresh
    refine ⟨reads root _ names here, ?_⟩
    intro other member
    rcases mem_append.mp member with before | after
    · exact below other (mem_append_left _ before)
    · rcases mem_cons.mp after with rfl | after
      · exact fresh
      · exact below other (mem_append_right _ (mem_cons_of_mem _ after))

theorem edit_throughout {f : DirectoryNode → DirectoryNode} {path : List String} (reads : Local P)
    (holds : root.Throughout P) (found : root.descend path = some dir) (keeps : (f dir).name = dir.name) :
    (edit f path root).Throughout P ↔ (f dir).Throughout P := by
  induction path generalizing root with
  | nil =>
    obtain rfl := Option.some.inj found
    rfl
  | cons part rest ih =>
    obtain ⟨child, here, below⟩ := descend_cons_some.mp found
    obtain ⟨_, left, right, split, edited⟩ := edit_cons rest here
    have childHolds : child.Throughout P := (throughout_iff.mp holds).2 child (by rw [split]; simp)
    have sameName : (edit f rest child).name = child.name := by
      apply edit_name
      intro other led
      rw [below] at led
      obtain rfl := Option.some.inj led
      exact keeps
    rw [edited, throughout_replace reads holds split sameName]
    exact ih childHolds below

theorem descend_throughout {path : List String} (holds : root.Throughout P) (found : root.descend path = some dir) :
    dir.Throughout P := by
  induction path generalizing root with
  | nil =>
    obtain rfl := Option.some.inj found
    exact holds
  | cons part rest ih =>
    obtain ⟨child, here, below⟩ := descend_cons_some.mp found
    exact ih ((throughout_iff.mp holds).2 child (lookup_member here).1) below

end Edits

theorem replaced_uids {child : DirectoryNode} {left right : List DirectoryNode}
    (split : root.subdirs = left ++ child :: right) :
    ∃ others, root.uids.Perm (child.uids ++ others) ∧
      ∀ new : DirectoryNode, ({ root with subdirs := left ++ new :: right } : DirectoryNode).uids.Perm
        (new.uids ++ others) := by
  have around : ∀ new : DirectoryNode, ({ root with subdirs := left ++ new :: right } : DirectoryNode).uids.Perm
      (new.uids ++ (root.nodeMeta.fileUid :: root.files.map (·.nodeMeta.fileUid) ++
        (left.flatMap uids ++ right.flatMap uids))) := by
    intro new
    rw [uids_eq]
    show (root.nodeMeta.fileUid :: root.files.map (·.nodeMeta.fileUid) ++ (left ++ new :: right).flatMap uids).Perm _
    rw [flatMap_append, flatMap_cons]
    have inner : (left.flatMap uids ++ (new.uids ++ right.flatMap uids)).Perm
        (new.uids ++ (left.flatMap uids ++ right.flatMap uids)) :=
      perm_append_comm_assoc _ _ _
    exact (List.Perm.append_left _ inner).trans (perm_append_comm_assoc _ _ _)
  have whole : root = { root with subdirs := left ++ child :: right } := by
    rw [← split]
    cases root
    rfl
  refine ⟨_, ?_, around⟩
  rw [congrArg uids whole]
  exact around child

theorem edit_uids {path : List String} {dir : DirectoryNode} (found : root.descend path = some dir) :
    ∃ others, root.uids.Perm (dir.uids ++ others) ∧
      ∀ f : DirectoryNode → DirectoryNode, (edit f path root).uids.Perm ((f dir).uids ++ others) := by
  induction path generalizing root with
  | nil =>
    obtain rfl := Option.some.inj found
    exact ⟨[], by simp, fun f => by simp [edit]⟩
  | cons part rest ih =>
    obtain ⟨child, here, below⟩ := descend_cons_some.mp found
    obtain ⟨_, left, right, split, edited⟩ := edit_cons rest here
    obtain ⟨others, before, after⟩ := ih below
    obtain ⟨outer, whole, replaced⟩ := replaced_uids split
    refine ⟨others ++ outer, ?_, fun f => ?_⟩
    · rw [← append_assoc]
      exact whole.trans (before.append_right _)
    · rw [edited, ← append_assoc]
      exact (replaced _).trans ((after f).append_right _)

def fileShape (file : FileNode) : Fields × String × UInt64 := (file.deltaFields, file.name, file.nodeMeta.fileUid)

/-- The same directory with at most some entries gone and metadata changed. -/
structure Trims (new old : DirectoryNode) : Prop where
  name : new.name = old.name
  deltaFields : new.deltaFields = old.deltaFields
  fileUid : new.nodeMeta.fileUid = old.nodeMeta.fileUid
  files : (new.files.map fileShape).Sublist (old.files.map fileShape)
  subdirs : new.subdirs.Sublist old.subdirs

namespace Trims

variable {new old : DirectoryNode}

theorem refl (dir : DirectoryNode) : Trims dir dir := ⟨rfl, rfl, rfl, .refl _, .refl _⟩

theorem trans {a b c : DirectoryNode} (first : Trims a b) (second : Trims b c) : Trims a c :=
  ⟨first.name.trans second.name, first.deltaFields.trans second.deltaFields, first.fileUid.trans second.fileUid,
    first.files.trans second.files, first.subdirs.trans second.subdirs⟩

theorem fileNames (trims : Trims new old) : (new.files.map (·.name)).Sublist (old.files.map (·.name)) := by
  have names := trims.files.map (fun shape => shape.2.1)
  rwa [map_map, map_map] at names

theorem distinct (trims : Trims new old) (distinct : old.Distinct) : new.Distinct :=
  List.Nodup.sublist (trims.fileNames.append (trims.subdirs.map _)) distinct

theorem uniqueNames (trims : Trims new old) (unique : old.UniqueNames) : new.UniqueNames :=
  throughout_iff.mpr ⟨trims.distinct unique.here, fun _ member => unique.below (trims.subdirs.subset member)⟩

theorem uids (trims : Trims new old) : new.uids.Sublist old.uids := by
  rw [uids_eq, uids_eq, trims.fileUid]
  have files := trims.files.map (fun shape => shape.2.2)
  rw [map_map, map_map] at files
  exact (files.cons_cons _).append (trims.subdirs.flatMap _)

end Trims

section Additions

variable (dir : DirectoryNode)

def withFile (file : FileNode) : DirectoryNode :=
  { dir with files := discard (·.name) file.name dir.files ++ [file] }

def withDir (child : DirectoryNode) : DirectoryNode := { dir with subdirs := dir.subdirs ++ [child] }

variable {dir}

theorem withFile_distinct {file : FileNode} (distinct : dir.Distinct) :
    (dir.withFile file).Distinct ↔ dir.dirAt file.name = none := by
  constructor
  · intro added
    refine lookup_eq_none.mpr fun taken => ?_
    exact (nodup_append.mp added).2.2 file.name (by simp [withFile]) file.name taken rfl
  · intro absent
    refine nodup_append.mpr ⟨nodup_replaced distinct.files file, distinct.subdirs, ?_⟩
    rintro name inFiles _ inDirs rfl
    rw [withFile, map_append, mem_append] at inFiles
    rcases inFiles with kept | placed
    · exact (nodup_append.mp distinct).2.2 name ((map_discard_sublist _ _).subset kept) name inDirs rfl
    · rw [map_singleton, mem_singleton] at placed
      exact lookup_eq_none.mp absent (placed ▸ inDirs)

theorem withFile_uniqueNames {file : FileNode} (unique : dir.UniqueNames) :
    (dir.withFile file).UniqueNames ↔ dir.dirAt file.name = none := by
  rw [← withFile_distinct unique.here]
  exact ⟨fun added => added.here, fun here => throughout_iff.mpr ⟨here, fun _ member => unique.below member⟩⟩

theorem withDir_distinct {child : DirectoryNode} (distinct : dir.Distinct) :
    (dir.withDir child).Distinct ↔ dir.fileAt child.name = none ∧ dir.dirAt child.name = none := by
  constructor
  · intro added
    constructor
    · refine lookup_eq_none.mpr fun taken => ?_
      exact (nodup_append.mp added).2.2 child.name taken child.name (by simp [withDir]) rfl
    · refine lookup_eq_none.mpr fun taken => ?_
      have nodup := added.subdirs
      rw [withDir, map_append, nodup_append] at nodup
      exact nodup.2.2 child.name taken child.name (by simp) rfl
  · rintro ⟨noFile, noDir⟩
    refine nodup_append.mpr ⟨distinct.files, nodup_snoc distinct.subdirs noDir, ?_⟩
    rintro name inFiles _ inDirs rfl
    rw [withDir, map_append, mem_append] at inDirs
    rcases inDirs with kept | placed
    · exact (nodup_append.mp distinct).2.2 name inFiles name kept rfl
    · rw [map_singleton, mem_singleton] at placed
      exact lookup_eq_none.mp noFile (placed ▸ inFiles)

theorem withDir_uniqueNames {child : DirectoryNode} (unique : dir.UniqueNames) :
    (dir.withDir child).UniqueNames ↔
      dir.fileAt child.name = none ∧ dir.dirAt child.name = none ∧ child.UniqueNames := by
  rw [← and_assoc, ← withDir_distinct unique.here]
  constructor
  · intro added
    exact ⟨added.here, added.below (by simp [withDir])⟩
  · rintro ⟨here, below⟩
    refine throughout_iff.mpr ⟨here, fun other member => ?_⟩
    rcases mem_append.mp member with kept | placed
    · exact unique.below kept
    · exact mem_singleton.mp placed ▸ below

theorem withDir_uids (child : DirectoryNode) : (dir.withDir child).uids = dir.uids ++ child.uids := by
  rw [uids_eq, uids_eq]
  simp [withDir]

theorem withFile_uids (dir : DirectoryNode) (file : FileNode) :
    ∃ kept, kept.Sublist dir.uids ∧ (dir.withFile file).uids.Perm (file.nodeMeta.fileUid :: kept) := by
  refine ⟨dir.nodeMeta.fileUid :: (discard (·.name) file.name dir.files).map (·.nodeMeta.fileUid) ++
    dir.subdirs.flatMap uids, ?_, ?_⟩
  · rw [uids_eq]
    exact ((filter_sublist.map _).cons_cons _).append (.refl _)
  · rw [uids_eq]
    show (dir.nodeMeta.fileUid :: (discard (·.name) file.name dir.files ++ [file]).map (·.nodeMeta.fileUid) ++
      dir.subdirs.flatMap uids).Perm _
    rw [map_append, map_singleton, ← cons_append, append_assoc, singleton_append]
    exact perm_middle

end Additions

end DirectoryNode

end TapeRs.Ltfs
