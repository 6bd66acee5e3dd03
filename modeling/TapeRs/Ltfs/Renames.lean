import TapeRs.Ltfs.Edits

open TapeRs.Keyed

namespace TapeRs.Ltfs

open Incremental DirectoryNode Namespace UniqueNames
open Option

/-- What a rename leaves alone of a node: all but its name, its times and what lies below it. -/
inductive Info where
  | file (fileUid length : UInt64) (extents : List Extent) (xattrs : List Xattr) (symlink : Option String)
  | directory (fileUid : UInt64) (xattrs : List Xattr)
deriving DecidableEq

namespace Info

def ofFile (file : FileNode) : Info :=
  .file file.nodeMeta.fileUid file.length file.extents file.xattrs file.symlink

def ofDirectory (dir : DirectoryNode) : Info := .directory dir.nodeMeta.fileUid dir.xattrs

def IsFile (info : Info) : Prop := ∃ file, info = ofFile file

def IsDirectory (info : Info) : Prop := ∃ dir, info = ofDirectory dir

end Info

namespace DirectoryNode

variable {root dir a b : DirectoryNode} {name : String} {path : List String}
  {child : DirectoryNode} {f : DirectoryNode → DirectoryNode}

def infoAt : DirectoryNode → List String → Option Info
  | dir, [] => some (.ofDirectory dir)
  | dir, name :: rest =>
    match dir.dirAt name with
    | some child => child.infoAt rest
    | none => if rest = [] then (dir.fileAt name).map .ofFile else none

theorem infoAt_child (found : dir.dirAt name = some child) (rest : List String) :
    dir.infoAt (name :: rest) = child.infoAt rest := by
  rw [infoAt, found]

theorem infoAt_file (absent : dir.dirAt name = none) (rest : List String) :
    dir.infoAt (name :: rest) = if rest = [] then (dir.fileAt name).map .ofFile else none := by
  rw [infoAt, absent]

theorem infoAt_congr (dirs : a.dirAt name = b.dirAt name) (files : a.fileAt name = b.fileAt name) (rest : List String) :
    a.infoAt (name :: rest) = b.infoAt (name :: rest) := by
  rw [infoAt, infoAt, dirs, files]

theorem infoAt_descend (found : root.descend path = some dir) (rest : List String) :
    root.infoAt (path ++ rest) = dir.infoAt rest := by
  induction path generalizing root with
  | nil => rw [← some.inj found, List.nil_append]
  | cons part upper ih =>
    obtain ⟨child, here, below⟩ := descend_cons_some.mp found
    rw [List.cons_append, infoAt_child here, ih below]

theorem descend_of_infoAt {info : Info} (found : root.infoAt path = some info) (tree : info.IsDirectory) :
    ∃ dir, root.descend path = some dir := by
  induction path generalizing root with
  | nil => exact ⟨root, rfl⟩
  | cons part rest ih =>
    cases here : root.dirAt part with
    | some child =>
      obtain ⟨dir, led⟩ := ih (infoAt_child here rest ▸ found)
      exact ⟨dir, (descend_cons here).trans led⟩
    | none =>
      rw [infoAt_file here] at found
      split at found
      · obtain ⟨file, _, rfl⟩ := map_eq_some_iff.mp found
        obtain ⟨dir, same⟩ := tree
        cases same
      · cases found

theorem descend_snoc {part : String} : root.descend (path ++ [part]) = some child ↔
    ∃ dir, root.descend path = some dir ∧ dir.dirAt part = some child := by
  rw [descend_append, bind_eq_some_iff]
  refine exists_congr fun dir => and_congr_right fun _ => ?_
  rw [descend_cons_some]
  simp [descend]

theorem edit_dirAt {part : String} {rest : List String} (found : root.dirAt part = some child)
    (led : child.descend rest = some dir) (keeps : (f dir).name = dir.name) (other : String) :
    (edit f (part :: rest) root).dirAt other = if other = part then some (edit f rest child) else root.dirAt other := by
  have named : ∀ tree, lookup (·.name) part root.subdirs = some tree → (edit f rest tree).name = tree.name := by
    intro tree here
    obtain rfl : tree = child := some.inj (here.symm.trans found)
    refine edit_name fun inner reached => ?_
    rw [led] at reached
    exact some.inj reached ▸ keeps
  rw [dirAt, edit, updateDir_lookup named]
  split
  · rename_i same
    rw [same, show lookup (·.name) part root.subdirs = some child from found, map_some]
  · rfl

theorem edit_descend (found : root.descend path = some dir) (keeps : (f dir).name = dir.name) :
    (edit f path root).descend path = some (f dir) := by
  induction path generalizing root with
  | nil =>
    obtain rfl := some.inj found
    rfl
  | cons part rest ih =>
    obtain ⟨child, here, below⟩ := descend_cons_some.mp found
    have inner : (edit f (part :: rest) root).dirAt part = some (edit f rest child) := by
      rw [edit_dirAt here below keeps, if_pos rfl]
    rw [descend_cons inner, ih below]

theorem edit_infoAt_outside (found : root.descend path = some dir) (keeps : (f dir).name = dir.name)
    {other : List String} (outside : ¬path <+: other) : (edit f path root).infoAt other = root.infoAt other := by
  induction path generalizing root other with
  | nil => exact absurd List.nil_prefix outside
  | cons part rest ih =>
    obtain ⟨child, here, below⟩ := descend_cons_some.mp found
    cases other with
    | nil => rfl
    | cons name lower =>
      by_cases same : name = part
      · subst same
        have inner : (edit f (name :: rest) root).dirAt name = some (edit f rest child) := by
          rw [edit_dirAt here below keeps, if_pos rfl]
        rw [infoAt_child inner, infoAt_child here]
        exact ih below fun inside => outside ((List.prefix_cons_inj name).mpr inside)
      · have beside : (edit f (part :: rest) root).dirAt name = root.dirAt name := by
          rw [edit_dirAt here below keeps, if_neg same]
        exact infoAt_congr beside rfl lower

/-- `a` and `b` agree on every path that does not go through the entry `name`. -/
def AgreeBeside (name : String) (a b : DirectoryNode) : Prop :=
  ∀ path : List String, path.head? ≠ some name → a.infoAt path = b.infoAt path

theorem AgreeBeside.of_entries (uid : a.nodeMeta.fileUid = b.nodeMeta.fileUid) (xattrs : a.xattrs = b.xattrs)
    (dirs : ∀ other, other ≠ name → a.dirAt other = b.dirAt other)
    (files : ∀ other, other ≠ name → a.fileAt other = b.fileAt other) : AgreeBeside name a b := by
  intro path beside
  cases path with
  | nil => rw [infoAt, infoAt, Info.ofDirectory, Info.ofDirectory, uid, xattrs]
  | cons other rest =>
    have apart : other ≠ name := fun same => beside (by rw [same, List.head?_cons])
    exact infoAt_congr (dirs other apart) (files other apart) rest

theorem AgreeBeside.trans {c : DirectoryNode} (first : AgreeBeside name a b) (second : AgreeBeside name b c) :
    AgreeBeside name a c :=
  fun path beside => (first path beside).trans (second path beside)

theorem edit_agrees {new : DirectoryNode} (found : root.descend path = some dir) (keeps : new.name = dir.name)
    (agrees : AgreeBeside name new dir) {other : List String} (outside : ¬path ++ [name] <+: other) :
    (edit (fun _ => new) path root).infoAt other = root.infoAt other := by
  by_cases below : path <+: other
  · obtain ⟨rest, rfl⟩ := below
    have beside : rest.head? ≠ some name := by
      intro first
      obtain ⟨lower, rfl⟩ := List.head?_eq_some_iff.mp first
      exact outside ⟨lower, by simp⟩
    rw [infoAt_descend (edit_descend (f := fun _ => new) found keeps), infoAt_descend found, agrees rest beside]
  · exact edit_infoAt_outside found keeps below

theorem entries_nil (nothing : ∀ name, dir.infoAt [name] = none) : dir.files = [] ∧ dir.subdirs = [] := by
  have dirs : ∀ name, dir.dirAt name = none := by
    intro name
    cases found : dir.dirAt name with
    | none => rfl
    | some child =>
      have there := nothing name
      rw [infoAt_child found, infoAt] at there
      cases there
  refine ⟨List.eq_nil_iff_forall_not_mem.mpr fun file member => ?_,
    List.eq_nil_iff_forall_not_mem.mpr fun child member =>
      lookup_eq_none.mp (dirs child.name) (List.mem_map_of_mem member)⟩
  have there := nothing file.name
  rw [infoAt_file (dirs _), if_pos rfl, map_eq_none_iff] at there
  exact lookup_eq_none.mp there (List.mem_map_of_mem member)

theorem infoAt_nil (files : dir.files = []) (subdirs : dir.subdirs = []) (name : String) (rest : List String) :
    dir.infoAt (name :: rest) = none := by
  rw [infoAt_file (by rw [dirAt, subdirs, lookup_nil]), fileAt, files, lookup_nil, map_none, ite_self]

end DirectoryNode

namespace Namespace

variable {dir rest : DirectoryNode} {name now : String} {node : Node}

def Node.infoAt : Node → List String → Option Info
  | .file leaf, [] => some (.ofFile leaf)
  | .file _, _ :: _ => none
  | .directory tree, path => tree.infoAt path

theorem touch_infoAt (now : String) (dir : DirectoryNode) (path : List String) :
    (touch now dir).infoAt path = dir.infoAt path := by
  cases path with
  | nil => rfl
  | cons name rest => exact infoAt_congr rfl rfl rest

theorem free_infoAt (free : dir.fileAt name = none ∧ dir.dirAt name = none) (path : List String) :
    dir.infoAt (name :: path) = none := by
  rw [infoAt_file free.2, free.1, map_none, ite_self]

theorem take_infoAt (distinct : dir.Distinct) (taken : take dir name = some (node, rest)) (path : List String) :
    node.infoAt path = dir.infoAt (name :: path) := by
  rcases take_cases taken with ⟨leaf, left, right, rfl, rfl, split, _⟩ | ⟨_, tree, left, right, rfl, rfl, split, _⟩
  · have found : dir.fileAt leaf.name = some leaf :=
      (lookup_eq_some distinct.files).mpr ⟨by rw [split]; simp, rfl⟩
    rw [infoAt_file (distinct.dirAt_of_fileAt found), found]
    cases path <;> rfl
  · have found : dir.dirAt tree.name = some tree :=
      (lookup_eq_some distinct.subdirs).mpr ⟨by rw [split]; simp, rfl⟩
    rw [infoAt_child found]
    rfl

theorem take_agrees (taken : take dir name = some (node, rest)) : AgreeBeside name rest dir := by
  rcases take_cases taken with
    ⟨leaf, left, right, rfl, rfl, split, rfl⟩ | ⟨_, tree, left, right, rfl, rfl, split, rfl⟩
  · refine .of_entries rfl rfl (fun _ _ => rfl) fun other apart => ?_
    show lookup _ _ (left ++ right) = lookup _ _ dir.files
    rw [split, lookup_append, lookup_append, lookup_cons, if_neg (Ne.symm apart)]
  · refine .of_entries rfl rfl (fun other apart => ?_) fun _ _ => rfl
    show lookup _ _ (left ++ right) = lookup _ _ dir.subdirs
    rw [split, lookup_append, lookup_append, lookup_cons, if_neg (Ne.symm apart)]

theorem take_none : take dir name = none ↔ dir.fileAt name = none ∧ dir.dirAt name = none := by
  unfold take
  cases dir.fileAt name with
  | some file => simp
  | none => cases dir.dirAt name <;> simp

theorem take_directory {child : DirectoryNode} (distinct : dir.Distinct) (found : dir.dirAt name = some child) :
    ∃ rest, take dir name = some (.directory child, rest) := by
  rw [take, distinct.fileAt_of_dirAt found, found]
  exact ⟨_, rfl⟩

theorem vacate_ok {target vacant : DirectoryNode} : vacate node target name = .ok vacant ↔
    take target name = none ∧ vacant = target ∨
      ∃ existing, take target name = some (existing, vacant) ∧ replaceable node existing = .ok () := by
  unfold vacate
  cases taken : take target name with
  | none => simp [eq_comm]
  | some found =>
    obtain ⟨existing, left⟩ := found
    constructor
    · intro done
      obtain ⟨_, fits, same⟩ := Result.bind_ok.mp done
      exact .inr ⟨existing, by rw [Except.ok.inj same], fits⟩
    · rintro (⟨missing, _⟩ | ⟨other, same, fits⟩)
      · cases missing
      · obtain ⟨rfl, rfl⟩ := Prod.mk.inj (some.inj same)
        exact Result.bind_ok.mpr ⟨(), fits, rfl⟩

theorem replaceable_directory {new old : DirectoryNode} :
    replaceable (.directory new) (.directory old) = .ok () ↔ old.files = [] ∧ old.subdirs = [] := by
  simp [replaceable]

theorem vacate_agrees {target vacant : DirectoryNode} (vacated : vacate node target name = .ok vacant) :
    AgreeBeside name vacant target := by
  rcases vacate_ok.mp vacated with ⟨_, rfl⟩ | ⟨existing, taken, _⟩
  · exact fun _ _ => rfl
  · exact take_agrees taken

theorem push_fileAt (leaf : FileNode) (free : dir.fileAt name = none) (other : String) :
    (push (.file leaf) name now dir).fileAt other =
      if other = name then some { leaf with name, nodeMeta := { leaf.nodeMeta with changeTime := now } }
      else dir.fileAt other := by
  have absent : lookup (·.name) (FileNode.name { leaf with name, nodeMeta := { leaf.nodeMeta with changeTime := now } }) dir.files = none := free
  exact lookup_snoc absent other

theorem push_dirAt (tree : DirectoryNode) (free : dir.dirAt name = none) (other : String) :
    (push (.directory tree) name now dir).dirAt other =
      if other = name then some { tree with name, nodeMeta := { tree.nodeMeta with changeTime := now } }
      else dir.dirAt other := by
  have absent : lookup (·.name) (DirectoryNode.name { tree with name, nodeMeta := { tree.nodeMeta with changeTime := now } }) dir.subdirs = none := free
  exact lookup_snoc absent other

theorem push_agrees (free : dir.fileAt name = none ∧ dir.dirAt name = none) :
    AgreeBeside name (push node name now dir) dir := by
  cases node with
  | file leaf =>
    refine .of_entries rfl rfl (fun _ _ => rfl) fun other apart => ?_
    rw [push_fileAt leaf free.1, if_neg apart]
  | directory tree =>
    refine .of_entries rfl rfl (fun other apart => ?_) fun _ _ => rfl
    rw [push_dirAt tree free.2, if_neg apart]

theorem push_infoAt (free : dir.fileAt name = none ∧ dir.dirAt name = none) (path : List String) :
    (push node name now dir).infoAt (name :: path) = node.infoAt path := by
  cases node with
  | file leaf =>
    have absent : (push (.file leaf) name now dir).dirAt name = none := free.2
    rw [infoAt_file absent, push_fileAt leaf free.1, if_pos rfl]
    cases path <;> rfl
  | directory tree =>
    have found : (push (.directory tree) name now dir).dirAt name = _ := push_dirAt tree free.2 name
    rw [if_pos rfl] at found
    rw [infoAt_child found]
    cases path with
    | nil => rfl
    | cons other rest => exact infoAt_congr rfl rfl rest

end Namespace

namespace LtfsIndex

variable {index after : LtfsIndex} {clock : Clock} {source target : String}

/-- What may stand at `dst` before a node from `src` takes its place. -/
def Replaceable (root : DirectoryNode) (src dst : List String) : Prop :=
  root.infoAt dst = none ∨
    (∃ old new, root.infoAt src = some new ∧ root.infoAt dst = some old ∧ new.IsFile ∧ old.IsFile) ∨
    ∃ old new, root.infoAt src = some new ∧ root.infoAt dst = some old ∧ new.IsDirectory ∧ old.IsDirectory ∧
      ∀ name rest, root.infoAt (dst ++ name :: rest) = none

/-- The tree with the node at `src` and all below it moved to `dst`. -/
def Moved (before after : DirectoryNode) (src dst : List String) : Prop :=
  ∀ path, after.infoAt path =
    if dst <+: path then before.infoAt (src ++ path.drop dst.length)
    else if src <+: path then none
    else before.infoAt path

/-- A rename that did what it is for. -/
def Respects (index after : LtfsIndex) (source target : String) : Prop :=
  ∃ src dst, parts source = .ok src ∧ parts target = .ok dst ∧ after.root.UniqueNames ∧
    (src = dst ∧ after = index ∨
      src ≠ dst ∧ Replaceable index.root src dst ∧ Moved index.root after.root src dst)

/-- The target is the directory that holds the source, a directory, and nothing else. -/
def OnlyEntry (index : LtfsIndex) (source target : String) : Prop :=
  ∃ dst name info, parts target = .ok dst ∧ dst ≠ [] ∧ parts source = .ok (dst ++ [name]) ∧
    index.root.infoAt (dst ++ [name]) = some info ∧ info.IsDirectory ∧
    ∀ other rest, other ≠ name → index.root.infoAt (dst ++ other :: rest) = none

section Moving

variable {parent targetParent : List String} {old new : String} {dir rest place vacant : DirectoryNode} {node : Node}

theorem parent_of_emptied {lower : List String} {name : String} (led : index.root.descend parent = some dir)
    (outside : ¬parent ++ [old] <+: targetParent ++ [new]) (inside : parent ++ [old] <+: targetParent ++ new :: name :: lower)
    (emptied : ∀ name, ¬parent ++ [old] <+: targetParent ++ [new, name] →
      index.root.infoAt (targetParent ++ [new, name]) = none) : parent = targetParent ++ [new] := by
  have target : targetParent ++ [new] <+: targetParent ++ new :: name :: lower := ⟨name :: lower, by simp⟩
  have under : targetParent ++ [new] <+: parent := by
    rcases List.prefix_or_prefix_of_prefix inside target with below | above
    · exact absurd below outside
    · rcases List.prefix_concat_iff.mp above with same | above
      · exact absurd (same ▸ List.prefix_rfl) outside
      · exact above
  obtain ⟨deeper, rfl⟩ := under
  cases deeper with
  | nil => rw [List.append_nil]
  | cons next rest =>
    have short : ¬targetParent ++ [new] ++ next :: rest ++ [old] <+: targetParent ++ [new, next] := by
      intro fits
      have := fits.length_le
      simp at this
    have split : targetParent ++ [new] ++ next :: rest = targetParent ++ [new, next] ++ rest := by simp
    rw [split, descend_append] at led
    obtain ⟨inner, reached, _⟩ := bind_eq_some_iff.mp led
    have there := infoAt_descend reached []
    rw [List.append_nil, emptied next short] at there
    cases there

variable (unique : index.root.UniqueNames) (led : index.root.descend parent = some dir) (taken : take dir old = some (node, rest))
include unique led taken

theorem detached_infoAt (path : List String) :
    (edit (fun _ => touch (clock 0) rest) parent index.root).infoAt path =
      if parent ++ [old] <+: path then none else index.root.infoAt path := by
  have named : (touch (clock 0) rest).name = dir.name := (take_trims taken).name
  split
  · rename_i inside
    obtain ⟨lower, rfl⟩ := inside
    have distinct : dir.Distinct := here (descend_throughout unique led)
    rw [List.append_assoc, infoAt_descend (edit_descend (f := fun _ => touch (clock 0) rest) led named), touch_infoAt]
    exact free_infoAt (take_free distinct taken) lower
  · rename_i outside
    refine edit_agrees led named ?_ outside
    exact fun path beside => (touch_infoAt _ _ _).trans (take_agrees taken path beside)

theorem detached_unique : (edit (fun _ => touch (clock 0) rest) parent index.root).UniqueNames := by
  have trims : Trims (touch (clock 0) rest) dir := (touch_trims _ _).trans (take_trims taken)
  exact (edit_throughout local_distinct unique led trims.name).mpr (trims.uniqueNames (descend_throughout unique led))

theorem moved_infoAt
    (ledTarget : (edit (fun _ => touch (clock 0) rest) parent index.root).descend targetParent = some place)
    (vacated : vacate node place new = .ok vacant) (distinct : place.Distinct) :
    Moved index.root (edit (fun _ => touch (clock 2) (push node new (clock 1) vacant)) targetParent
      (edit (fun _ => touch (clock 0) rest) parent index.root)) (parent ++ [old]) (targetParent ++ [new]) := by
  have named : (touch (clock 2) (push node new (clock 1) vacant)).name = place.name :=
    (push_name node).trans (vacate_trims vacated).name
  have free := vacate_free distinct vacated
  intro path
  split
  · rename_i inside
    obtain ⟨lower, rfl⟩ := inside
    rw [List.drop_left, List.append_assoc, List.append_assoc, infoAt_descend led,
      infoAt_descend (edit_descend (f := fun _ => touch (clock 2) (push node new (clock 1) vacant)) ledTarget named),
      touch_infoAt]
    exact (push_infoAt free lower).trans (take_infoAt (here (descend_throughout unique led)) taken lower)
  · rename_i outside
    rw [← detached_infoAt unique led taken]
    refine edit_agrees ledTarget named ?_ outside
    exact fun path beside => (touch_infoAt _ _ _).trans
      ((push_agrees free).trans (vacate_agrees vacated) path beside)

/-- What stood at the target in the copy without the node also stood there before, and a source that lay below an
    emptied target lay right below it. -/
theorem replaced_before
    (ledTarget : (edit (fun _ => touch (clock 0) rest) parent index.root).descend targetParent = some place)
    (vacated : vacate node place new = .ok vacant) (distinct : place.Distinct)
    (outside : ¬parent ++ [old] <+: targetParent ++ [new]) :
    Replaceable index.root (parent ++ [old]) (targetParent ++ [new]) ∨
      ∃ info, parent = targetParent ++ [new] ∧ index.root.infoAt (parent ++ [old]) = some info ∧ info.IsDirectory ∧
        ∀ other lower, other ≠ old → index.root.infoAt (parent ++ other :: lower) = none := by
  have source := (infoAt_descend led [old]).trans (take_infoAt (here (descend_throughout unique led)) taken []).symm
  have seen : ∀ lower, place.infoAt (new :: lower) =
      if parent ++ [old] <+: targetParent ++ new :: lower then none
      else index.root.infoAt (targetParent ++ new :: lower) := by
    intro lower
    rw [← infoAt_descend ledTarget, detached_infoAt unique led taken]
  have here := seen []
  rw [if_neg outside] at here
  rcases vacate_ok.mp vacated with ⟨absent, _⟩ | ⟨existing, found, fits⟩
  · exact .inl (.inl (here ▸ free_infoAt (take_none.mp absent) []))
  have stood := take_infoAt distinct found
  rw [← stood] at here
  cases node with
  | file leaf =>
    cases existing with
    | directory tree => cases fits
    | file other => exact .inl (.inr (.inl ⟨_, _, source, here.symm, ⟨leaf, rfl⟩, ⟨other, rfl⟩⟩))
  | directory tree =>
    cases existing with
    | file other => cases fits
    | directory other =>
      have empty := replaceable_directory.mp fits
      have nothing : ∀ name lower, place.infoAt (new :: name :: lower) = none :=
        fun name lower => (stood _).symm.trans (infoAt_nil empty.1 empty.2 name lower)
      by_cases inside : ∃ name lower, parent ++ [old] <+: targetParent ++ new :: name :: lower
      · obtain ⟨name, lower, inside⟩ := inside
        obtain rfl := parent_of_emptied led outside inside fun name apart =>
          (if_neg apart).symm.trans ((seen [name]).symm.trans (nothing name []))
        refine .inr ⟨_, rfl, source, ⟨tree, rfl⟩, fun other lower apart => ?_⟩
        have elsewhere : ¬targetParent ++ [new] ++ [old] <+: targetParent ++ new :: other :: lower := by
          simp [Ne.symm apart]
        rw [List.append_assoc]
        exact (if_neg elsewhere).symm.trans ((seen (other :: lower)).symm.trans (nothing other lower))
      · refine .inl (.inr (.inr ⟨_, _, source, here.symm, ⟨tree, rfl⟩, ⟨other, rfl⟩, fun name lower => ?_⟩))
        rw [List.append_assoc]
        exact (if_neg fun under => inside ⟨name, lower, under⟩).symm.trans
          ((seen (name :: lower)).symm.trans (nothing name lower))

end Moving

theorem respects_of_ok (unique : index.root.UniqueNames) (ordinary : ¬OnlyEntry index source target)
    (done : index.renamePath clock source target = .ok after) : Respects index after source target := by
  have kept : after.root.UniqueNames := (renamePath_tame done).unique unique
  obtain ⟨parent, old, targetParent, new, dir, node, rest, readSource, readTarget, above, led, taken, moved⟩ :=
    renamePath_ok.mp done
  refine ⟨_, _, readSource, readTarget, kept, ?_⟩
  rcases moved with ⟨same, rfl⟩ | ⟨apart, place, vacant, ledTarget, vacated, rfl⟩
  · exact .inl ⟨same, rfl⟩
  have outside : ¬parent ++ [old] <+: targetParent ++ [new] := by
    intro below
    rcases Nat.lt_or_ge (parent ++ [old]).length (targetParent ++ [new]).length with shorter | longer
    · exact above ⟨shorter, below⟩
    · exact apart (below.eq_of_length_le longer)
  have distinct : place.Distinct := here (descend_throughout (detached_unique unique led taken) ledTarget)
  refine .inr ⟨apart, ?_, moved_infoAt unique led taken ledTarget vacated distinct⟩
  rcases replaced_before unique led taken ledTarget vacated distinct outside with fine | ⟨info, rfl, stood, tree, alone⟩
  · exact fine
  · exact absurd ⟨_, old, info, readTarget, by simp, readSource, stood, tree, alone⟩ ordinary

/-- The source is taken out before the target is looked at, so the directory that held only the source looks empty. -/
theorem onlyEntry_renames (unique : index.root.UniqueNames) (only : OnlyEntry index source target) :
    ∃ after, index.renamePath clock source target = .ok after ∧ ¬Respects index after source target := by
  obtain ⟨dst, name, info, readTarget, long, readSource, stood, tree, alone⟩ := only
  obtain ⟨child, reached⟩ := descend_of_infoAt stood tree
  obtain ⟨dir, led, found⟩ := descend_snoc.mp reached
  have distinct : dir.Distinct := here (descend_throughout unique led)
  obtain ⟨rest, taken⟩ := take_directory distinct found
  have nothing : ∀ other, rest.infoAt [other] = none := by
    intro other
    by_cases same : other = name
    · exact same ▸ free_infoAt (take_free distinct taken) []
    · have beside : [other].head? ≠ some name := by simpa using same
      rw [take_agrees taken [other] beside, ← infoAt_descend led, alone other [] same]
  have empty : (touch (clock 0) rest).files = [] ∧ (touch (clock 0) rest).subdirs = [] := entries_nil nothing
  obtain ⟨targetParent, new, rfl⟩ := (List.eq_nil_or_concat' dst).resolve_left long
  obtain ⟨place, ledTarget, stands⟩ :=
    descend_snoc.mp (edit_descend (f := fun _ => touch (clock 0) rest) led (take_trims taken).name)
  have placed : place.Distinct := here (descend_throughout (detached_unique unique led taken) ledTarget)
  obtain ⟨vacant, replaced⟩ := take_directory placed stands
  have vacated : vacate (.directory child) place new = .ok vacant :=
    vacate_ok.mpr (.inr ⟨_, replaced, replaceable_directory.mpr empty⟩)
  have apart : targetParent ++ [new] ++ [name] ≠ targetParent ++ [new] := by simp
  refine ⟨_, renamePath_ok.mpr ⟨_, name, targetParent, new, dir, _, rest, readSource, readTarget, by simp, led, taken,
    .inr ⟨apart, place, vacant, ledTarget, vacated, rfl⟩⟩, ?_⟩
  rintro ⟨src, dst, readsSource, readsTarget, _, respected⟩
  obtain rfl := Except.ok.inj (readSource.symm.trans readsSource)
  obtain rfl := Except.ok.inj (readTarget.symm.trans readsTarget)
  have before := infoAt_descend led []
  rw [List.append_nil] at before
  rcases respected with ⟨same, _⟩ | ⟨_, absent | ⟨_, _, _, there, _, file, same⟩ | ⟨_, _, _, _, _, _, nothing⟩, _⟩
  · exact apart same
  · cases absent.symm.trans before
  · subst same
    cases there.symm.trans before
  · cases (nothing name []).symm.trans stood

theorem renames_respect_contents (unique : index.root.UniqueNames) :
    (∀ after, index.renamePath clock source target = .ok after → Respects index after source target) ↔
      ¬OnlyEntry index source target := by
  constructor
  · intro respected only
    obtain ⟨after, done, broken⟩ := onlyEntry_renames unique only
    exact broken (respected after done)
  · exact fun ordinary after done => respects_of_ok unique ordinary done

/-- The directory `a` with an attribute and, as its one entry, the directory `b`. -/
def archiveIndex : LtfsIndex where
  version := ltfsVersion
  creator := "tape-rs"
  volumeUuid := 0
  generation := 1
  updateTime := ""
  selfLocation := ⟨'b', 10⟩
  highestFileUid := 4
  root :=
    { name := "volume"
      nodeMeta := { fileUid := 1 }
      subdirs := [
        { name := "a"
          nodeMeta := { fileUid := 2 }
          xattrs := [⟨"owner", "archive", false⟩]
          subdirs := [{ name := "b", nodeMeta := { fileUid := 3 }, files := [{ name := "c", nodeMeta := { fileUid := 4 } }] }] }] }

theorem archiveIndex_onlyEntry : OnlyEntry archiveIndex "a/b" "a" := by
  refine ⟨["a"], "b", .directory 3 [], by decide +kernel, by simp, by decide +kernel, rfl, ⟨{ nodeMeta := { fileUid := 3 } }, rfl⟩, ?_⟩
  intro other rest apart
  have led : archiveIndex.root.descend ["a"] = some (archiveIndex.root.subdirs.head (by decide)) := rfl
  rw [infoAt_descend led]
  refine free_infoAt ⟨rfl, ?_⟩ rest
  exact lookup_eq_none.mpr (by simpa [archiveIndex] using apart)

theorem rename_replaces_full_parent : archiveIndex.root.UniqueNames ∧
    archiveIndex.root.infoAt ["a"] = some (.directory 2 [⟨"owner", "archive", false⟩]) ∧
    archiveIndex.root.infoAt ["a", "b"] = some (.directory 3 []) ∧
    ∃ after, archiveIndex.renamePath (fun _ => "") "a/b" "a" = .ok after ∧ ¬Respects archiveIndex after "a/b" "a" := by
  have unique : archiveIndex.root.UniqueNames := by decide
  exact ⟨unique, rfl, rfl, onlyEntry_renames unique archiveIndex_onlyEntry⟩

theorem renames_respect_contents_archive : archiveIndex.root.UniqueNames ∧
    ((∀ after, archiveIndex.renamePath (fun _ => "") "a/b" "d" = .ok after → Respects archiveIndex after "a/b" "d") ↔
      ¬OnlyEntry archiveIndex "a/b" "d") := by
  have unique : archiveIndex.root.UniqueNames := by decide
  exact ⟨unique, renames_respect_contents unique⟩

end LtfsIndex

end TapeRs.Ltfs
