import TapeRs.Ltfs.Namespace

open TapeRs.Keyed

namespace TapeRs.Ltfs

open DirectoryNode Namespace Result List
open Except

def LegalName (name : String) : Prop :=
  name.isEmpty = false ∧ '/' ∉ name.toList ∧ illegalPart name = false

instance (name : String) : Decidable (LegalName name) := inferInstanceAs (Decidable (_ ∧ _ ∧ _))

namespace DirectoryNode

def Orderly (dir : DirectoryNode) : Prop :=
  dir.deltaFields = none ∧ (∀ file ∈ dir.files, file.deltaFields = none ∧ LegalName file.name) ∧
    ∀ child ∈ dir.subdirs, LegalName child.name

instance (dir : DirectoryNode) : Decidable dir.Orderly :=
  inferInstanceAs (Decidable (_ ∧ (∀ file ∈ dir.files, _) ∧ ∀ child ∈ dir.subdirs, _))

theorem local_orderly : Local Orderly := by
  rintro dir subdirs names ⟨whole, files, children⟩
  refine ⟨whole, files, fun child member => ?_⟩
  have named : child.name ∈ dir.subdirs.map (·.name) := names ▸ mem_map_of_mem member
  obtain ⟨other, inside, same⟩ := mem_map.mp named
  exact same ▸ children other inside

theorem Trims.orderly {new old : DirectoryNode} (trims : Trims new old) (orderly : old.Throughout Orderly) :
    new.Throughout Orderly := by
  obtain ⟨⟨whole, files, children⟩, below⟩ := throughout_iff.mp orderly
  refine throughout_iff.mpr ⟨⟨trims.deltaFields.trans whole, fun file member => ?_,
    fun child member => children child (trims.subdirs.subset member)⟩,
    fun child member => below child (trims.subdirs.subset member)⟩
  have shape : fileShape file ∈ old.files.map fileShape := trims.files.subset (mem_map_of_mem member)
  obtain ⟨other, inside, same⟩ := mem_map.mp shape
  obtain ⟨fields, rest⟩ := Prod.mk.inj same
  have legal := files other inside
  rw [fields, (Prod.mk.inj rest).1] at legal
  exact legal

section Additions

variable {dir : DirectoryNode}

theorem withFile_orderly {file : FileNode} (orderly : dir.Throughout Orderly) (whole : file.deltaFields = none)
    (legal : LegalName file.name) : (dir.withFile file).Throughout Orderly := by
  obtain ⟨⟨here, files, children⟩, below⟩ := throughout_iff.mp orderly
  refine throughout_iff.mpr ⟨⟨here, fun other member => ?_, children⟩, below⟩
  rcases mem_append.mp member with kept | placed
  · exact files other (mem_filter.mp kept).1
  · obtain rfl := mem_singleton.mp placed
    exact ⟨whole, legal⟩

theorem withDir_orderly {child : DirectoryNode} (orderly : dir.Throughout Orderly) (legal : LegalName child.name)
    (fresh : child.Throughout Orderly) : (dir.withDir child).Throughout Orderly := by
  obtain ⟨⟨here, files, children⟩, below⟩ := throughout_iff.mp orderly
  refine throughout_iff.mpr ⟨⟨here, files, fun other member => ?_⟩, fun other member => ?_⟩
  · rcases mem_append.mp member with kept | placed
    · exact children other kept
    · exact mem_singleton.mp placed ▸ legal
  · rcases mem_append.mp member with kept | placed
    · exact below other kept
    · exact mem_singleton.mp placed ▸ fresh

end Additions

end DirectoryNode

namespace LtfsIndex

/-- Identifiers are only dropped or taken above the highest one, which never falls. -/
structure Grows (before after : LtfsIndex) : Prop where
  highest : before.highestFileUid ≤ after.highestFileUid
  uids : ∃ fresh, fresh.Nodup ∧ (∀ uid ∈ fresh, before.highestFileUid < uid ∧ uid ≤ after.highestFileUid) ∧
    after.root.uids.Subperm (fresh ++ before.root.uids)

namespace Grows

variable {a b c : LtfsIndex}

theorem of_subperm (highest : b.highestFileUid = a.highestFileUid) (uids : b.root.uids.Subperm a.root.uids) :
    Grows a b :=
  ⟨highest ▸ UInt64.le_refl _, [], nodup_nil, by simp, uids⟩

theorem trans (first : Grows a b) (second : Grows b c) : Grows a c := by
  obtain ⟨early, earlyNodup, earlyRange, earlyUids⟩ := first.uids
  obtain ⟨late, lateNodup, lateRange, lateUids⟩ := second.uids
  refine ⟨UInt64.le_trans first.highest second.highest, late ++ early, ?_, ?_, ?_⟩
  · refine nodup_append.mpr ⟨lateNodup, earlyNodup, ?_⟩
    rintro uid inLate _ inEarly rfl
    exact UInt64.lt_irrefl _ (UInt64.lt_of_lt_of_le (lateRange uid inLate).1 (earlyRange uid inEarly).2)
  · intro uid member
    rcases mem_append.mp member with inLate | inEarly
    · exact ⟨UInt64.lt_of_le_of_lt first.highest (lateRange uid inLate).1, (lateRange uid inLate).2⟩
    · exact ⟨(earlyRange uid inEarly).1, UInt64.le_trans (earlyRange uid inEarly).2 second.highest⟩
  · rw [append_assoc]
    exact lateUids.trans ((subperm_append_left late).mpr earlyUids)

end Grows

/-- What an edit keeps that adds no name beside an equal one. -/
structure Tame (before after : LtfsIndex) : Prop where
  name : after.root.name = before.root.name
  unique : before.root.UniqueNames → after.root.UniqueNames
  orderly : before.root.Throughout Orderly → after.root.Throughout Orderly
  grows : Grows before after

namespace Tame

variable {a b c : LtfsIndex}

theorem trans (first : Tame a b) (second : Tame b c) : Tame a c :=
  ⟨second.name.trans first.name, fun unique => second.unique (first.unique unique),
    fun orderly => second.orderly (first.orderly orderly), first.grows.trans second.grows⟩

theorem of_root (root : b.root = a.root) (highest : b.highestFileUid = a.highestFileUid) : Tame a b :=
  ⟨by rw [root], by rw [root]; exact id, by rw [root]; exact id, .of_subperm highest (by rw [root])⟩

theorem refl (a : LtfsIndex) : Tame a a := of_root rfl rfl

theorem of_trims {f : DirectoryNode → DirectoryNode} {path : List String} {dir : DirectoryNode}
    (found : a.root.descend path = some dir) (root : b.root = edit f path a.root)
    (highest : b.highestFileUid = a.highestFileUid) (trims : Trims (f dir) dir) : Tame a b where
  name := by
    rw [root]
    apply edit_name
    intro other led
    rw [found] at led
    exact Option.some.inj led ▸ trims.name
  unique := by
    intro unique
    rw [root]
    exact (edit_throughout local_distinct unique found trims.name).mpr
      (trims.uniqueNames (descend_throughout unique found))
  orderly := by
    intro orderly
    rw [root]
    exact (edit_throughout local_orderly orderly found trims.name).mpr
      (trims.orderly (descend_throughout orderly found))
  grows := by
    obtain ⟨others, before, after⟩ := edit_uids found
    refine .of_subperm highest ?_
    rw [root]
    exact (after f).subperm.trans (((subperm_append_right others).mpr trims.uids.subperm).trans before.symm.subperm)

end Tame

end LtfsIndex

namespace Namespace

theorem splitLast_eq_some {path dirs : List String} {name : String} :
    splitLast path = some (dirs, name) ↔ path = dirs ++ [name] := by
  unfold splitLast
  cases last : path.getLast? with
  | none =>
    rw [getLast?_eq_none_iff] at last
    simp [last]
  | some final =>
    obtain ⟨front, rfl⟩ := getLast?_eq_some_iff.mp last
    rw [Option.map_some, dropLast_concat, Option.some.injEq, Prod.mk.injEq]
    constructor
    · rintro ⟨rfl, rfl⟩
      rfl
    · intro same
      obtain ⟨rfl, single⟩ := append_inj' same rfl
      exact ⟨rfl, head_eq_of_cons_eq single⟩

theorem parts_legal {path : String} {names : List String} (read : parts path = .ok names) :
    ∀ name ∈ names, LegalName name := by
  unfold parts at read
  split at read
  · cases read
  rename_i legal
  obtain rfl := ok.inj read
  intro name member
  have solid := Text.components_solid member
  have fine : illegalPart name = false := by
    simpa using fun bad => legal (any_eq_true.mpr ⟨name, member, bad⟩)
  exact ⟨solid.1, solid.2, fine⟩

theorem dirMut_ok {root dir : DirectoryNode} {path : List String} :
    dirMut root path = .ok dir ↔ root.descend path = some dir := by
  unfold dirMut
  cases root.descend path <;> simp

theorem touch_trims (now : String) (dir : DirectoryNode) : Trims (touch now dir) dir :=
  ⟨rfl, rfl, rfl, .refl _, .refl _⟩

theorem touch_uids (now : String) (dir : DirectoryNode) : (touch now dir).uids = dir.uids := by
  rw [uids_eq, uids_eq dir]
  rfl

def Node.uids : Node → List UInt64
  | .file leaf => [leaf.nodeMeta.fileUid]
  | .directory tree => tree.uids

theorem take_cases {dir rest : DirectoryNode} {name : String} {node : Node} (taken : take dir name = some (node, rest)) :
    (∃ file left right, node = .file file ∧ file.name = name ∧ dir.files = left ++ file :: right ∧
      rest = { dir with files := left ++ right }) ∨
    (dir.fileAt name = none ∧ ∃ child left right, node = .directory child ∧ child.name = name ∧
      dir.subdirs = left ++ child :: right ∧ rest = { dir with subdirs := left ++ right }) := by
  unfold take at taken
  split at taken
  · rename_i file atFile
    obtain ⟨rfl, rfl⟩ := Prod.mk.inj (Option.some.inj taken)
    obtain ⟨named, left, right, split, erased⟩ := lookup_erased atFile
    exact .inl ⟨file, left, right, rfl, named, split, by rw [erased]⟩
  · rename_i noFile
    split at taken
    · rename_i child atDir
      obtain ⟨rfl, rfl⟩ := Prod.mk.inj (Option.some.inj taken)
      obtain ⟨named, left, right, split, erased⟩ := lookup_erased atDir
      exact .inr ⟨noFile, child, left, right, rfl, named, split, by rw [erased]⟩
    · cases taken

section Taken

variable {dir rest : DirectoryNode} {name : String} {node : Node}

theorem take_trims (taken : take dir name = some (node, rest)) : Trims rest dir := by
  rcases take_cases taken with ⟨file, left, right, _, _, split, rfl⟩ | ⟨_, child, left, right, _, _, split, rfl⟩
  · refine ⟨rfl, rfl, rfl, ?_, .refl _⟩
    rw [split]
    exact ((sublist_cons_self file right).append_left left).map _
  · refine ⟨rfl, rfl, rfl, .refl _, ?_⟩
    rw [split]
    exact (sublist_cons_self child right).append_left left

theorem take_uids (taken : take dir name = some (node, rest)) : (node.uids ++ rest.uids).Perm dir.uids := by
  rcases take_cases taken with ⟨file, left, right, rfl, _, split, rfl⟩ | ⟨_, child, left, right, rfl, _, split, rfl⟩
  · rw [uids_eq, uids_eq dir, split]
    simp only [Node.uids, map_append, map_cons, cons_append, nil_append, append_assoc]
    exact (List.Perm.swap _ _ _).trans (perm_middle.symm.cons _)
  · rw [uids_eq, uids_eq dir, split]
    simp only [Node.uids, flatMap_append, flatMap_cons]
    exact (perm_append_comm_assoc _ _ _).trans (List.Perm.append_left _ (perm_append_comm_assoc _ _ _))

theorem take_free (distinct : dir.Distinct) (taken : take dir name = some (node, rest)) :
    rest.fileAt name = none ∧ rest.dirAt name = none := by
  rcases take_cases taken with
    ⟨file, left, right, rfl, rfl, split, rfl⟩ | ⟨noFile, child, left, right, rfl, rfl, split, rfl⟩
  · have nodup := distinct.files
    rw [split, map_append, map_cons] at nodup
    have absent : file.name ∉ (left ++ right).map (·.name) := by
      rw [map_append]
      exact (nodup_cons.mp (perm_middle.nodup_iff.mp nodup)).1
    have found : dir.fileAt file.name = some file :=
      (lookup_eq_some distinct.files).mpr ⟨by rw [split]; simp, rfl⟩
    exact ⟨lookup_eq_none.mpr absent, distinct.dirAt_of_fileAt found⟩
  · have nodup := distinct.subdirs
    rw [split, map_append, map_cons] at nodup
    have absent : child.name ∉ (left ++ right).map (·.name) := by
      rw [map_append]
      exact (nodup_cons.mp (perm_middle.nodup_iff.mp nodup)).1
    exact ⟨noFile, lookup_eq_none.mpr absent⟩

theorem vacate_trims {target vacant : DirectoryNode} (vacated : vacate node target name = .ok vacant) :
    Trims vacant target := by
  unfold vacate at vacated
  split at vacated
  · rename_i taken
    obtain ⟨_, _, same⟩ := bind_ok.mp vacated
    exact ok.inj same ▸ take_trims taken
  · exact ok.inj vacated ▸ .refl _

theorem vacate_free {target vacant : DirectoryNode} (distinct : target.Distinct)
    (vacated : vacate node target name = .ok vacant) : vacant.fileAt name = none ∧ vacant.dirAt name = none := by
  unfold vacate at vacated
  split at vacated
  · rename_i taken
    obtain ⟨_, _, same⟩ := bind_ok.mp vacated
    exact ok.inj same ▸ take_free distinct taken
  rename_i taken
  obtain rfl := ok.inj vacated
  unfold take at taken
  split at taken
  · cases taken
  rename_i noFile
  split at taken
  · cases taken
  · rename_i noDir
    exact ⟨noFile, noDir⟩

end Taken

section Pushed

variable {dir : DirectoryNode} {name now : String} {node : Node}

theorem push_name (node : Node) : (push node name now dir).name = dir.name := by
  cases node <;> rfl

theorem push_file (leaf : FileNode) (free : dir.fileAt name = none) :
    push (.file leaf) name now dir =
      dir.withFile { leaf with name, nodeMeta := { leaf.nodeMeta with changeTime := now } } := by
  rw [push, withFile, discard_absent (lookup_eq_none.mp free)]

theorem push_uids (node : Node) : (push node name now dir).uids.Perm (node.uids ++ dir.uids) := by
  cases node with
  | file leaf =>
    rw [uids_eq, uids_eq dir]
    simp only [push, Node.uids, map_append, map_cons, map_nil, cons_append, nil_append,
      append_assoc]
    exact (perm_middle.cons _).trans (List.Perm.swap _ _ _)
  | directory tree =>
    have same : ({ tree with name, nodeMeta := { tree.nodeMeta with changeTime := now } } : DirectoryNode).uids =
        tree.uids := by rw [uids_eq, uids_eq tree]
    rw [push, withDir_uids, same]
    exact perm_append_comm

theorem renamed_throughout {P : DirectoryNode → Prop} {tree : DirectoryNode} {nodeMeta : NodeMeta}
    (blind : P tree → P { tree with name, nodeMeta }) (holds : tree.Throughout P) :
    ({ tree with name, nodeMeta } : DirectoryNode).Throughout P :=
  throughout_iff.mpr ⟨blind (throughout_iff.mp holds).1, (throughout_iff.mp holds).2⟩

def Node.Unique : Node → Prop
  | .file _ => True
  | .directory tree => tree.UniqueNames

def Node.Whole : Node → Prop
  | .file leaf => leaf.deltaFields = none
  | .directory tree => tree.Throughout Orderly

theorem push_unique (unique : dir.UniqueNames) (below : node.Unique)
    (free : dir.fileAt name = none ∧ dir.dirAt name = none) : (push node name now dir).UniqueNames := by
  cases node with
  | file leaf =>
    rw [push_file leaf free.1]
    exact (withFile_uniqueNames unique).mpr free.2
  | directory tree => exact (withDir_uniqueNames unique).mpr ⟨free.1, free.2, renamed_throughout id below⟩

theorem push_orderly (orderly : dir.Throughout Orderly) (below : node.Whole) (legal : LegalName name) :
    (push node name now dir).Throughout Orderly := by
  cases node with
  | file leaf =>
    obtain ⟨⟨here, files, children⟩, others⟩ := throughout_iff.mp orderly
    refine throughout_iff.mpr ⟨⟨here, fun other member => ?_, children⟩, others⟩
    rcases mem_append.mp member with kept | placed
    · exact files other kept
    · obtain rfl := mem_singleton.mp placed
      exact ⟨below, legal⟩
  | directory tree => exact withDir_orderly orderly legal (renamed_throughout id below)

theorem take_unique {rest : DirectoryNode} (unique : dir.UniqueNames) (taken : take dir name = some (node, rest)) :
    node.Unique := by
  rcases take_cases taken with ⟨leaf, _, _, rfl, _⟩ | ⟨_, tree, left, right, rfl, _, split, _⟩
  · trivial
  · exact unique.below (by rw [split]; simp)

theorem take_whole {rest : DirectoryNode} (orderly : dir.Throughout Orderly) (taken : take dir name = some (node, rest)) :
    node.Whole := by
  rcases take_cases taken with ⟨leaf, left, right, rfl, _, split, _⟩ | ⟨_, tree, left, right, rfl, _, split, _⟩
  · exact ((throughout_iff.mp orderly).1.2.1 leaf (by rw [split]; simp)).1
  · exact (throughout_iff.mp orderly).2 tree (by rw [split]; simp)

end Pushed

end Namespace

namespace LtfsIndex

variable {index after : LtfsIndex} {clock : Clock} {path : String}

theorem nextUid_ok {highest uid : UInt64} (given : nextUid highest = .ok uid) :
    highest ≠ 0 ∧ highest < uid ∧ uid = highest + 1 := by
  unfold nextUid at given
  split at given
  · cases given
  rename_i room
  rw [Bool.or_eq_true, decide_eq_true_eq, decide_eq_true_eq, not_or] at room
  obtain rfl := ok.inj given
  refine ⟨room.2, ?_, rfl⟩
  have full : highest.toNat ≠ 18446744073709551615 := fun same => room.1 (UInt64.toNat_inj.mp same)
  have small := highest.toNat_lt
  rw [UInt64.lt_iff_toNat_lt, UInt64.toNat_add, UInt64.toNat_one]
  omega

theorem moved_tame {parent targetParent : List String} {dir rest place vacant : DirectoryNode} {node : Node}
    {old new : String} (led : index.root.descend parent = some dir) (taken : take dir old = some (node, rest))
    (ledTarget : (edit (fun _ => touch (clock 0) rest) parent index.root).descend targetParent = some place)
    (vacated : vacate node place new = .ok vacant) (legal : LegalName new) :
    Tame index { index with
      root := edit (fun _ => touch (clock 2) (push node new (clock 1) vacant)) targetParent
        (edit (fun _ => touch (clock 0) rest) parent index.root) } := by
  have left : Tame index { index with root := edit (fun _ => touch (clock 0) rest) parent index.root } :=
    .of_trims led rfl rfl ((touch_trims _ _).trans (take_trims taken))
  have emptied := vacate_trims vacated
  have placed := touch_trims (clock 2) (push node new (clock 1) vacant)
  have sameName : (touch (clock 2) (push node new (clock 1) vacant)).name = place.name :=
    placed.name.trans ((push_name node).trans emptied.name)
  refine ⟨?_, ?_, ?_, .of_subperm rfl ?_⟩
  · refine (edit_name fun other led => ?_).trans left.name
    rw [ledTarget] at led
    exact Option.some.inj led ▸ sameName
  · intro unique
    have middle := left.unique unique
    have there := descend_throughout middle ledTarget
    refine (edit_throughout local_distinct middle ledTarget sameName).mpr (placed.uniqueNames ?_)
    exact push_unique (emptied.uniqueNames there) (take_unique (descend_throughout unique led) taken)
      (vacate_free (throughout_iff.mp there).1 vacated)
  · intro orderly
    have middle := left.orderly orderly
    have there := descend_throughout middle ledTarget
    refine (edit_throughout local_orderly middle ledTarget sameName).mpr (placed.orderly ?_)
    exact push_orderly (emptied.orderly there) (take_whole (descend_throughout orderly led) taken) legal
  · obtain ⟨others, before, edited⟩ := edit_uids led
    obtain ⟨around, beforeTarget, editedTarget⟩ := edit_uids ledTarget
    have middle := edited (fun _ => touch (clock 0) rest)
    have smaller : (touch (clock 2) (push node new (clock 1) vacant)).uids.Subperm (node.uids ++ place.uids) :=
      placed.uids.subperm.trans ((push_uids node).subperm.trans
        ((subperm_append_left node.uids).mpr emptied.uids.subperm))
    have outer := (editedTarget (fun _ => touch (clock 2) (push node new (clock 1) vacant))).subperm.trans
      ((subperm_append_right around).mpr smaller)
    have source : (node.uids ++ place.uids ++ around).Perm index.root.uids := by
      rw [append_assoc]
      have inner := (beforeTarget.symm.trans middle).append_left node.uids
      have joined : (node.uids ++ ((touch (clock 0) rest).uids ++ others)).Perm index.root.uids := by
        rw [touch_uids, ← append_assoc]
        exact ((take_uids taken).append_right others).trans before.symm
      exact inner.trans joined
    exact outer.trans source.subperm

theorem createDirectory_tame (done : index.createDirectory clock path = .ok after) : Tame index after := by
  obtain ⟨names, read, done⟩ := bind_ok.mp done
  split at done
  · cases done
  rename_i parents name last
  obtain rfl := splitLast_eq_some.mp last
  obtain ⟨uid, given, done⟩ := bind_ok.mp done
  obtain ⟨dir, led, done⟩ := bind_ok.mp done
  rw [dirMut_ok] at led
  split at done
  · cases done
  rename_i absent
  obtain rfl := ok.inj done
  simp only [Bool.or_eq_true, any_eq_true, decide_eq_true_eq, not_or, not_exists, not_and] at absent
  have noFile : dir.fileAt name = none := by
    rw [DirectoryNode.fileAt, lookup_eq_none, mem_map]
    rintro ⟨file, member, same⟩
    exact absent.1 file member same
  have noDir : dir.dirAt name = none := by
    rw [DirectoryNode.dirAt, lookup_eq_none, mem_map]
    rintro ⟨child, member, same⟩
    exact absent.2 child member same
  have legal : LegalName name := parts_legal read name (by simp)
  obtain ⟨_, above, rfl⟩ := nextUid_ok given
  have trims := touch_trims (clock 1)
    (dir.withDir { name, nodeMeta := .now (clock 0) (index.highestFileUid + 1) false })
  refine ⟨?_, ?_, ?_, ?_⟩
  · exact edit_name fun _ _ => rfl
  · intro unique
    refine (edit_throughout local_distinct unique led rfl).mpr (trims.uniqueNames ?_)
    exact (withDir_uniqueNames (descend_throughout unique led)).mpr
      ⟨noFile, noDir, leaf_throughout (by simp [Distinct])⟩
  · intro orderly
    refine (edit_throughout local_orderly orderly led rfl).mpr (trims.orderly ?_)
    exact withDir_orderly (descend_throughout orderly led) legal (leaf_throughout (by simp [Orderly]))
  · obtain ⟨others, before, edited⟩ := edit_uids led
    refine ⟨UInt64.le_of_lt above, [index.highestFileUid + 1], nodup_singleton _, ?_, ?_⟩
    · intro uid member
      obtain rfl := mem_singleton.mp member
      exact ⟨above, UInt64.le_refl _⟩
    · have added := trims.uids.subperm
      rw [withDir_uids, leaf_uids] at added
      have around := (subperm_append_right others).mpr added
      refine (edited _).subperm.trans (around.trans (List.Perm.subperm ?_))
      have front := (perm_append_comm : (dir.uids ++ [index.highestFileUid + 1]).Perm _).append_right others
      rw [append_assoc [index.highestFileUid + 1]] at front
      exact front.trans (before.symm.append_left _)

theorem removeDirectory_tame (done : index.removeDirectory clock path = .ok after) : Tame index after := by
  obtain ⟨names, _, done⟩ := bind_ok.mp done
  split at done
  · cases done
  obtain ⟨dir, led, done⟩ := bind_ok.mp done
  rw [dirMut_ok] at led
  split at done
  · cases done
  split at done
  · cases done
  · obtain rfl := ok.inj done
    refine .of_trims led rfl rfl ((touch_trims _ _).trans ?_)
    exact ⟨rfl, rfl, rfl, .refl _, eraseP_sublist⟩

theorem renamePath_ok {source target : String} : index.renamePath clock source target = .ok after ↔
    ∃ parent old targetParent new dir node rest,
      parts source = .ok (parent ++ [old]) ∧ parts target = .ok (targetParent ++ [new]) ∧
      ¬((parent ++ [old]).length < (targetParent ++ [new]).length ∧ parent ++ [old] <+: targetParent ++ [new]) ∧
      index.root.descend parent = some dir ∧ take dir old = some (node, rest) ∧
      (parent ++ [old] = targetParent ++ [new] ∧ after = index ∨
        parent ++ [old] ≠ targetParent ++ [new] ∧ ∃ place vacant,
          (edit (fun _ => touch (clock 0) rest) parent index.root).descend targetParent = some place ∧
          vacate node place new = .ok vacant ∧
          after = { index with
            root := edit (fun _ => touch (clock 2) (push node new (clock 1) vacant)) targetParent
              (edit (fun _ => touch (clock 0) rest) parent index.root) }) := by
  constructor
  · intro done
    obtain ⟨src, readSource, done⟩ := bind_ok.mp done
    obtain ⟨dst, readTarget, done⟩ := bind_ok.mp done
    split at done
    · cases done
    rename_i parent old lastSource
    obtain rfl := splitLast_eq_some.mp lastSource
    split at done
    · cases done
    rename_i targetParent new lastTarget
    obtain rfl := splitLast_eq_some.mp lastTarget
    split at done
    · cases done
    rename_i outside
    rw [Bool.and_eq_true, decide_eq_true_eq, isPrefixOf_iff_prefix] at outside
    obtain ⟨dir, led, done⟩ := bind_ok.mp done
    split at done
    · cases done
    rename_i node rest taken
    refine ⟨parent, old, targetParent, new, dir, node, rest, readSource, readTarget, outside, dirMut_ok.mp led,
      taken, ?_⟩
    split at done
    · rename_i same
      exact .inl ⟨same, (ok.inj done).symm⟩
    rename_i apart
    obtain ⟨place, ledTarget, done⟩ := bind_ok.mp done
    obtain ⟨vacant, vacated, done⟩ := bind_ok.mp done
    exact .inr ⟨apart, place, vacant, dirMut_ok.mp ledTarget, vacated, (ok.inj done).symm⟩
  · rintro ⟨parent, old, targetParent, new, dir, node, rest, readSource, readTarget, outside, led, taken, moved⟩
    refine bind_ok.mpr ⟨_, readSource, bind_ok.mpr ⟨_, readTarget, ?_⟩⟩
    rw [splitLast_eq_some.mpr rfl, splitLast_eq_some.mpr rfl]
    dsimp only
    rw [if_neg (by rwa [Bool.and_eq_true, decide_eq_true_eq, isPrefixOf_iff_prefix])]
    refine bind_ok.mpr ⟨dir, dirMut_ok.mpr led, ?_⟩
    rw [taken]
    dsimp only
    rcases moved with ⟨same, rfl⟩ | ⟨apart, place, vacant, ledTarget, vacated, rfl⟩
    · rw [if_pos same]
      rfl
    · rw [if_neg apart]
      exact bind_ok.mpr ⟨place, dirMut_ok.mpr ledTarget, bind_ok.mpr ⟨vacant, vacated, rfl⟩⟩

theorem renamePath_tame {source target : String} (done : index.renamePath clock source target = .ok after) :
    Tame index after := by
  obtain ⟨parent, old, targetParent, new, dir, node, rest, _, readTarget, _, led, taken, moved⟩ := renamePath_ok.mp done
  rcases moved with ⟨_, rfl⟩ | ⟨_, place, vacant, ledTarget, vacated, rfl⟩
  · exact .refl _
  · exact moved_tame led taken ledTarget vacated (parts_legal readTarget new (by simp))

theorem nodeMetadata_tame {change : NodeMeta → List Xattr → Result (NodeMeta × List Xattr)}
    (keeps : ∀ nodeMeta xattrs new, change nodeMeta xattrs = .ok new → new.1.fileUid = nodeMeta.fileUid)
    (done : index.nodeMetadata path change = .ok after) : Tame index after := by
  obtain ⟨names, _, done⟩ := bind_ok.mp done
  split at done
  · obtain ⟨new, changed, done⟩ := bind_ok.mp done
    obtain rfl := ok.inj done
    have own : index.root.descend [] = some index.root := rfl
    exact .of_trims (f := fun root => { root with nodeMeta := new.1, xattrs := new.2 }) own rfl rfl
      ⟨rfl, rfl, keeps _ _ _ changed, .refl _, .refl _⟩
  · rename_i parents name last
    obtain ⟨parent, led, done⟩ := bind_ok.mp done
    rw [dirMut_ok] at led
    split at done
    · rename_i file atFile
      obtain ⟨new, changed, done⟩ := bind_ok.mp done
      obtain rfl := ok.inj done
      refine .of_trims led rfl rfl ⟨rfl, rfl, rfl, ?_, .refl _⟩
      obtain ⟨left, right, split, updated⟩ := updateFile_found atFile
      dsimp only
      rw [updated, split, map_append, map_append, map_cons, map_cons, fileShape, fileShape,
        keeps _ _ _ changed]
    · split at done
      · cases done
      rename_i dir atDir
      obtain ⟨new, changed, done⟩ := bind_ok.mp done
      obtain rfl := ok.inj done
      obtain rfl := splitLast_eq_some.mp last
      have there : index.root.descend (parents ++ [name]) = some dir := by
        rw [descend_append, led, Option.bind_some, descend_cons atDir]
        rfl
      exact .of_trims there rfl rfl ⟨rfl, rfl, keeps _ _ _ changed, .refl _, .refl _⟩

theorem setCatalogVersion_tame {version : String} (done : index.setCatalogVersion path version = .ok after) :
    Tame index after := by
  refine nodeMetadata_tame (fun nodeMeta xattrs new changed => ?_) done
  exact ok.inj changed ▸ rfl

theorem setNodeXattr_tame {attr : Xattr} {createOnly replaceOnly : Bool}
    (done : index.setNodeXattr clock path attr createOnly replaceOnly = .ok after) : Tame index after := by
  unfold setNodeXattr at done
  split at done
  · cases done
  refine nodeMetadata_tame (fun nodeMeta xattrs new changed => ?_) done
  dsimp only at changed
  split at changed
  · cases changed
  · split at changed
    · cases changed
    · exact ok.inj changed ▸ rfl

theorem removeNodeXattr_tame {key : String} (done : index.removeNodeXattr clock path key = .ok after) :
    Tame index after := by
  refine nodeMetadata_tame (fun nodeMeta xattrs new changed => ?_) done
  split at changed
  · exact ok.inj changed ▸ rfl
  · cases changed

theorem changeNodeMetadata_tame {nanos : String → Option String} {change : MetadataChange}
    (done : index.changeNodeMetadata nanos clock path change = .ok after) : Tame index after := by
  obtain ⟨_, _, done⟩ := bind_ok.mp done
  refine nodeMetadata_tame (fun nodeMeta xattrs new changed => ?_) done
  exact ok.inj changed ▸ rfl

theorem setNodeReadonly_tame {readonly : Bool} (done : index.setNodeReadonly clock path readonly = .ok after) :
    Tame index after := by
  refine nodeMetadata_tame (fun nodeMeta xattrs new changed => ?_) done
  exact ok.inj changed ▸ rfl

end LtfsIndex

end TapeRs.Ltfs
