import TapeRs.Data.KeyedList
import TapeRs.Ltfs.Index

open TapeRs.Keyed

namespace TapeRs.Ltfs

open List

namespace DirectoryNode

variable {root child : DirectoryNode}

mutual
def directories : DirectoryNode → List DirectoryNode
  | ⟨deltaFields, name, nodeMeta, files, subdirs, xattrs⟩ =>
    ⟨deltaFields, name, nodeMeta, files, subdirs, xattrs⟩ :: directoriesOf subdirs

def directoriesOf : List DirectoryNode → List DirectoryNode
  | [] => []
  | dir :: rest => dir.directories ++ directoriesOf rest
end

theorem directoriesOf_eq (dirs : List DirectoryNode) : directoriesOf dirs = dirs.flatMap directories := by
  induction dirs with
  | nil => rfl
  | cons dir rest ih => rw [directoriesOf, ih, flatMap_cons]

theorem directories_eq (dir : DirectoryNode) : dir.directories = dir :: dir.subdirs.flatMap directories := by
  cases dir
  rw [directories, directoriesOf_eq]

theorem forall_directories {P : DirectoryNode → Prop} {dir : DirectoryNode} :
    (∀ d ∈ dir.directories, P d) ↔ P dir ∧ ∀ child ∈ dir.subdirs, ∀ d ∈ child.directories, P d := by
  rw [directories_eq]
  simp only [mem_cons, mem_flatMap, forall_eq_or_imp, forall_exists_index, and_imp]
  exact and_congr_right fun _ =>
    ⟨fun all child member d below => all d child member below, fun all d child member below => all child member d below⟩

def fileAt (dir : DirectoryNode) (name : String) : Option FileNode :=
  lookup (·.name) name dir.files

def dirAt (dir : DirectoryNode) (name : String) : Option DirectoryNode :=
  lookup (·.name) name dir.subdirs

def Distinct (dir : DirectoryNode) : Prop :=
  (dir.files.map (·.name) ++ dir.subdirs.map (·.name)).Nodup

instance (dir : DirectoryNode) : Decidable dir.Distinct :=
  inferInstanceAs (Decidable (List.Nodup _))

def UniqueNames (root : DirectoryNode) : Prop :=
  ∀ dir ∈ root.directories, dir.Distinct

instance (root : DirectoryNode) : Decidable root.UniqueNames :=
  inferInstanceAs (Decidable (∀ dir ∈ root.directories, dir.Distinct))

/-- Every object of the tree is complete, as in a full index or a replayed view. -/
def Full (root : DirectoryNode) : Prop :=
  ∀ dir ∈ root.directories, dir.deltaFields = none ∧ ∀ file ∈ dir.files, file.deltaFields = none

instance (root : DirectoryNode) : Decidable root.Full :=
  inferInstanceAs (Decidable (∀ dir ∈ root.directories, _ ∧ ∀ file ∈ dir.files, _))

def LinksBare (root : DirectoryNode) : Prop :=
  ∀ dir ∈ root.directories, ∀ file ∈ dir.files, file.symlink.isSome → file.extents = []

instance (root : DirectoryNode) : Decidable root.LinksBare :=
  inferInstanceAs (Decidable (∀ dir ∈ root.directories, ∀ file ∈ dir.files, _ → _))

def uids (root : DirectoryNode) : List UInt64 :=
  root.directories.flatMap (fun dir => dir.nodeMeta.fileUid :: dir.files.map (·.nodeMeta.fileUid))

theorem uids_eq (dir : DirectoryNode) : dir.uids =
    dir.nodeMeta.fileUid :: dir.files.map (·.nodeMeta.fileUid) ++ dir.subdirs.flatMap uids := by
  unfold uids
  rw [directories_eq, flatMap_cons, flatMap_assoc]

theorem UniqueNames.here (unique : root.UniqueNames) : root.Distinct :=
  (forall_directories.mp unique).1

theorem UniqueNames.below (unique : root.UniqueNames) (member : child ∈ root.subdirs) : child.UniqueNames :=
  (forall_directories.mp unique).2 child member

theorem Full.here (full : root.Full) : root.deltaFields = none ∧ ∀ file ∈ root.files, file.deltaFields = none :=
  (forall_directories.mp full).1

theorem Full.below (full : root.Full) (member : child ∈ root.subdirs) : child.Full :=
  (forall_directories.mp full).2 child member

theorem LinksBare.here (bare : root.LinksBare) : ∀ file ∈ root.files, file.symlink.isSome → file.extents = [] :=
  (forall_directories.mp bare).1

theorem LinksBare.below (bare : root.LinksBare) (member : child ∈ root.subdirs) : child.LinksBare :=
  (forall_directories.mp bare).2 child member

namespace Distinct

variable {dir : DirectoryNode}

theorem of_lookups (files : (dir.files.map (·.name)).Nodup) (subdirs : (dir.subdirs.map (·.name)).Nodup)
    (apart : ∀ name, dir.fileAt name = none ∨ dir.dirAt name = none) : dir.Distinct := by
  refine nodup_append.mpr ⟨files, subdirs, ?_⟩
  rintro name inFiles _ inDirs rfl
  rcases apart name with absent | absent
  · exact lookup_eq_none.mp absent inFiles
  · exact lookup_eq_none.mp absent inDirs

variable (distinct : dir.Distinct)
include distinct

theorem files : (dir.files.map (·.name)).Nodup :=
  (nodup_append.mp distinct).1

theorem subdirs : (dir.subdirs.map (·.name)).Nodup :=
  (nodup_append.mp distinct).2.1

theorem dirAt_of_fileAt {name : String} {file : FileNode} (found : dir.fileAt name = some file) :
    dir.dirAt name = none := by
  obtain ⟨member, rfl⟩ := lookup_member found
  refine lookup_eq_none.mpr fun taken => ?_
  exact (nodup_append.mp distinct).2.2 _ (mem_map_of_mem member) _ taken rfl

theorem fileAt_of_dirAt {name : String} (found : dir.dirAt name = some child) : dir.fileAt name = none := by
  cases free : dir.fileAt name with
  | none => rfl
  | some file =>
    have absent := distinct.dirAt_of_fileAt free
    rw [found] at absent
    cases absent

theorem apart (name : String) : dir.fileAt name = none ∨ dir.dirAt name = none := by
  cases found : dir.fileAt name with
  | none => exact .inl rfl
  | some file => exact .inr (distinct.dirAt_of_fileAt found)

end Distinct

/-- Two directory trees that differ at most in the order of siblings. -/
inductive Same : DirectoryNode → DirectoryNode → Prop
  | node {a b : DirectoryNode} (order : List DirectoryNode)
      (deltaFields : a.deltaFields = b.deltaFields) (name : a.name = b.name)
      (nodeMeta : a.nodeMeta = b.nodeMeta) (xattrs : a.xattrs = b.xattrs)
      (files : a.files.Perm b.files)
      (children : List.Forall₂ Same a.subdirs order) (siblings : order.Perm b.subdirs) : Same a b

namespace Same

variable {a b c : DirectoryNode}

theorem refl (a : DirectoryNode) : Same a a := by
  induction a using inductionOn with
  | node d ih => exact .node d.subdirs rfl rfl rfl rfl (.refl _) (forall₂_same.mpr ih) (.refl _)

theorem of_eq (equal : a = b) : Same a b := equal ▸ refl a

theorem trans (left : Same a b) (right : Same b c) : Same a c := by
  induction a using inductionOn generalizing b c with
  | node d ih =>
    cases left with
    | node order fields name nodeMeta xattrs files children siblings =>
      cases right with
      | node order' fields' name' nodeMeta' xattrs' files' children' siblings' =>
        obtain ⟨order'', matched, reordered⟩ := perm_comp_forall₂ siblings children'
        refine .node order'' (fields.trans fields') (name.trans name') (nodeMeta.trans nodeMeta')
          (xattrs.trans xattrs') (files.trans files') ?_ (reordered.trans siblings')
        exact compose (fun child member _ _ => ih child member) children matched
where
  compose {left middle right : List DirectoryNode}
      (step : ∀ x ∈ left, ∀ y z, Same x y → Same y z → Same x z)
      (first : List.Forall₂ Same left middle) (second : List.Forall₂ Same middle right) :
      List.Forall₂ Same left right := by
    induction first generalizing right with
    | nil => exact second
    | cons head _ ih =>
      cases second with
      | cons head' tail' =>
        exact .cons (step _ (by simp) _ _ head head')
          (ih (fun x member => step x (mem_cons_of_mem _ member)) tail')

theorem of_lookups (distinctLeft : a.Distinct) (distinctRight : b.Distinct)
    (deltaFields : a.deltaFields = b.deltaFields) (name : a.name = b.name)
    (nodeMeta : a.nodeMeta = b.nodeMeta) (xattrs : a.xattrs = b.xattrs)
    (files : ∀ n, a.fileAt n = b.fileAt n) (dirs : ∀ n, Option.Rel Same (a.dirAt n) (b.dirAt n)) :
    Same a b := by
  have filesRelated : ∀ n, Option.Rel Eq (a.fileAt n) (b.fileAt n) := by
    intro n
    rw [files n]
    cases b.fileAt n with
    | none => exact .none
    | some _ => exact .some rfl
  obtain ⟨_, filesEq, filesPerm⟩ := exists_matching distinctLeft.files distinctRight.files filesRelated
  rw [forall₂_eq_eq_eq] at filesEq
  subst filesEq
  obtain ⟨order, children, siblings⟩ := exists_matching distinctLeft.subdirs distinctRight.subdirs dirs
  exact .node order deltaFields name nodeMeta xattrs filesPerm children siblings

variable (same : Same a b)
include same

theorem name : a.name = b.name := by cases same; assumption

theorem nodeMeta : a.nodeMeta = b.nodeMeta := by cases same; assumption

theorem xattrs : a.xattrs = b.xattrs := by cases same; assumption

theorem files : a.files.Perm b.files := by cases same; assumption

theorem names_perm :
    (a.files.map (·.name) ++ a.subdirs.map (·.name)).Perm (b.files.map (·.name) ++ b.subdirs.map (·.name)) := by
  cases same with
  | node order _ _ _ _ files children siblings =>
    rw [map_key_of_matching (·.name) (fun _ _ same => same.name) children]
    exact (files.map _).append (siblings.map _)

theorem distinct : a.Distinct ↔ b.Distinct :=
  same.names_perm.nodup_iff

theorem fileAt (distinct : a.Distinct) (name : String) : a.fileAt name = b.fileAt name :=
  lookup_perm _ name same.files distinct.files

theorem dirAt (distinct : a.Distinct) (name : String) : Option.Rel Same (a.dirAt name) (b.dirAt name) := by
  cases same with
  | node order _ _ _ _ _ children siblings =>
    have keeps : ∀ x y : DirectoryNode, Same x y → x.name = y.name := fun _ _ same => same.name
    have nodup : (order.map (·.name)).Nodup := map_key_of_matching (·.name) keeps children ▸ distinct.subdirs
    unfold DirectoryNode.dirAt
    rw [← lookup_perm (·.name) name siblings nodup]
    exact lookup_matching keeps children name

theorem uids_perm : a.uids.Perm b.uids := by
  induction a using inductionOn generalizing b with
  | node d ih =>
    cases same with
    | node order _ _ nodeMeta _ files children siblings =>
      have below : (d.subdirs.flatMap uids).Perm (order.flatMap uids) :=
        flatMap_perm_of_matching children fun child member _ same => ih child member same
      rw [uids_eq, uids_eq, nodeMeta]
      exact ((files.map _).cons _).append (below.trans (siblings.flatMap_right _))

end Same

end DirectoryNode

end TapeRs.Ltfs
