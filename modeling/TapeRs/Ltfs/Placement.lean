import TapeRs.Ltfs.Edits

namespace TapeRs.Ltfs

open Incremental DirectoryNode List

/-- Finds or makes the directories of a path one after the other and applies the caller's edit to the last one.
    New directories draw their identifiers from `uid`. -/
def ensureDir (f : DirectoryNode → DirectoryNode) (clock : Clock) :
    List String → DirectoryNode → UInt64 → DirectoryNode × UInt64
  | [], dir, uid => (f dir, uid)
  | part :: rest, dir, uid =>
    match dir.dirAt part with
    | some child =>
      let made := ensureDir f clock rest child uid
      ({ dir with subdirs := updateDir part (fun _ => made.1) dir.subdirs }, made.2)
    | none =>
      let made := ensureDir f (fun reading => clock (reading + 1)) rest
        { name := part, nodeMeta := .now (clock 0) (uid + 1) false } (uid + 1)
      (dir.withDir made.1, made.2)

/-- Enters a file at the end of a path; `node` already carries the next identifier. -/
def LtfsIndex.register (index : LtfsIndex) (clock : Clock) (dirs : List String) (node : FileNode) : LtfsIndex :=
  let made := ensureDir (·.withFile node) clock dirs index.root (index.highestFileUid + 1)
  { index with root := made.1, highestFileUid := made.2 }

namespace DirectoryNode

/-- No directory on the way has the name of a file, and the file has not the name of a directory. -/
def Clear : DirectoryNode → List String → String → Prop
  | dir, [], name => dir.dirAt name = none
  | dir, part :: rest, name =>
    match dir.dirAt part with
    | some child => child.Clear rest name
    | none => dir.fileAt part = none

def decidableClear (dir : DirectoryNode) (path : List String) (name : String) : Decidable (dir.Clear path name) :=
  match path with
  | [] => inferInstanceAs (Decidable (dir.dirAt name = none))
  | part :: rest =>
    show Decidable (match dir.dirAt part with
      | some child => child.Clear rest name
      | none => dir.fileAt part = none) from
    match dir.dirAt part with
    | some child => child.decidableClear rest name
    | none => inferInstanceAs (Decidable (dir.fileAt part = none))

instance (dir : DirectoryNode) (path : List String) (name : String) : Decidable (dir.Clear path name) :=
  decidableClear dir path name

def missing : DirectoryNode → List String → Nat
  | _, [] => 0
  | dir, part :: rest =>
    match dir.dirAt part with
    | some child => child.missing rest
    | none => rest.length + 1

end DirectoryNode

def drawn (uid : UInt64) (count : Nat) : List UInt64 :=
  (List.range count).map fun step => uid + 1 + UInt64.ofNat step

theorem drawn_succ (uid : UInt64) (count : Nat) : drawn uid (count + 1) = (uid + 1) :: drawn (uid + 1) count := by
  unfold drawn
  rw [range_succ_eq_map, map_cons, map_map]
  refine congrArg₂ cons ?_ (map_congr_left fun step _ => ?_)
  · simp
  · show uid + 1 + UInt64.ofNat (step + 1) = uid + 1 + 1 + UInt64.ofNat step
    rw [UInt64.ofNat_add, UInt64.add_comm (UInt64.ofNat step), ← UInt64.add_assoc]
    rfl

section Ensured

variable {node : FileNode} {dir child : DirectoryNode} {part : String} {rest path : List String}

theorem ensureDir_found (f : DirectoryNode → DirectoryNode) (clock : Clock) (rest : List String) (uid : UInt64)
    (found : dir.dirAt part = some child) : child.name = part ∧ ∃ left right, dir.subdirs = left ++ child :: right ∧
      ensureDir f clock (part :: rest) dir uid =
        ({ dir with subdirs := left ++ (ensureDir f clock rest child uid).1 :: right },
          (ensureDir f clock rest child uid).2) := by
  obtain ⟨named, left, right, split, updated⟩ := updateDir_found found
  refine ⟨named, left, right, split, ?_⟩
  rw [ensureDir, found]
  dsimp only
  rw [updated]

theorem ensureDir_absent (f : DirectoryNode → DirectoryNode) (clock : Clock) (rest : List String) (uid : UInt64)
    (absent : dir.dirAt part = none) : ∃ later time, ensureDir f clock (part :: rest) dir uid =
      (dir.withDir (ensureDir f later rest { name := part, nodeMeta := .now time (uid + 1) false } (uid + 1)).1,
        (ensureDir f later rest { name := part, nodeMeta := .now time (uid + 1) false } (uid + 1)).2) := by
  refine ⟨fun reading => clock (reading + 1), clock 0, ?_⟩
  rw [ensureDir, absent]

theorem ensureDir_name (clock : Clock) (uid : UInt64) :
    (ensureDir (·.withFile node) clock path dir uid).1.name = dir.name := by
  cases path with
  | nil => rfl
  | cons part rest =>
    rw [ensureDir]
    cases dir.dirAt part <;> rfl

section Fresh

variable (node) (clock : Clock) (rest : List String) (name : String) (nodeMeta : NodeMeta) (uid : UInt64)

theorem ensureDir_leaf_unique :
    (ensureDir (·.withFile node) clock rest { name, nodeMeta } uid).1.UniqueNames := by
  have leaf : ∀ name nodeMeta, ({ name, nodeMeta } : DirectoryNode).UniqueNames :=
    fun _ _ => leaf_throughout (by simp [Distinct])
  induction rest generalizing clock name nodeMeta uid with
  | nil => exact (withFile_uniqueNames (leaf name nodeMeta)).mpr rfl
  | cons part rest ih =>
    obtain ⟨later, time, made⟩ := ensureDir_absent (·.withFile node) clock rest uid
      (show ({ name, nodeMeta } : DirectoryNode).dirAt part = none from rfl)
    rw [made]
    exact (withDir_uniqueNames (leaf name nodeMeta)).mpr ⟨rfl, rfl, ih later _ _ _⟩

theorem ensureDir_leaf_uids :
    (ensureDir (·.withFile node) clock rest { name, nodeMeta } uid).1.uids.Perm
      (node.nodeMeta.fileUid :: nodeMeta.fileUid :: drawn uid rest.length) ∧
    (ensureDir (·.withFile node) clock rest { name, nodeMeta } uid).2 = uid + UInt64.ofNat rest.length := by
  induction rest generalizing clock name nodeMeta uid with
  | nil =>
    refine ⟨?_, by simp [ensureDir]⟩
    rw [ensureDir, uids_eq]
    exact List.Perm.swap _ _ _
  | cons part rest ih =>
    obtain ⟨later, time, made⟩ := ensureDir_absent (·.withFile node) clock rest uid
      (show ({ name, nodeMeta } : DirectoryNode).dirAt part = none from rfl)
    obtain ⟨uids, last⟩ := ih later part (.now time (uid + 1) false) (uid + 1)
    rw [made]
    constructor
    · rw [withDir_uids, leaf_uids, length_cons, drawn_succ]
      exact (uids.cons _).trans (List.Perm.swap _ _ _)
    · rw [last, length_cons, UInt64.ofNat_add, UInt64.add_comm (UInt64.ofNat _), UInt64.add_assoc]
      rfl

end Fresh

theorem ensureDir_unique (clock : Clock) (uid : UInt64) (unique : dir.UniqueNames) :
    (ensureDir (·.withFile node) clock path dir uid).1.UniqueNames ↔ dir.Clear path node.name := by
  induction path generalizing dir with
  | nil => exact withFile_uniqueNames unique
  | cons part rest ih =>
    cases found : dir.dirAt part with
    | some child =>
      obtain ⟨_, left, right, split, made⟩ := ensureDir_found (·.withFile node) clock rest uid found
      have below : child.UniqueNames := unique.below (by rw [split]; simp)
      rw [made, Clear, found]
      exact (throughout_replace local_distinct unique split (ensureDir_name clock uid)).trans (ih below)
    | none =>
      obtain ⟨later, time, made⟩ := ensureDir_absent (·.withFile node) clock rest uid found
      rw [made, Clear, found]
      dsimp only
      rw [withDir_uniqueNames unique, ensureDir_name]
      constructor
      · intro both
        exact both.1
      · intro free
        exact ⟨free, found, ensureDir_leaf_unique node later rest part _ _⟩

theorem ensureDir_uids (node : FileNode) (dir : DirectoryNode) (path : List String) (clock : Clock) (uid : UInt64) :
    (∃ kept, kept.Subperm dir.uids ∧ (ensureDir (·.withFile node) clock path dir uid).1.uids.Perm
      (node.nodeMeta.fileUid :: drawn uid (dir.missing path) ++ kept)) ∧
    (ensureDir (·.withFile node) clock path dir uid).2 = uid + UInt64.ofNat (dir.missing path) := by
  induction path generalizing dir with
  | nil =>
    obtain ⟨kept, fewer, uids⟩ := withFile_uids dir node
    exact ⟨⟨kept, fewer.subperm, uids⟩, by simp [ensureDir, missing]⟩
  | cons part rest ih =>
    cases found : dir.dirAt part with
    | some child =>
      obtain ⟨_, left, right, split, made⟩ := ensureDir_found (·.withFile node) clock rest uid found
      obtain ⟨⟨kept, fewer, uids⟩, last⟩ := ih child
      obtain ⟨outer, whole, replaced⟩ := replaced_uids split
      rw [made, missing, found]
      refine ⟨⟨kept ++ outer, ?_, ?_⟩, last⟩
      · exact ((subperm_append_right outer).mpr fewer).trans whole.symm.subperm
      · rw [← append_assoc]
        exact (replaced _).trans (uids.append_right _)
    | none =>
      obtain ⟨later, time, made⟩ := ensureDir_absent (·.withFile node) clock rest uid found
      obtain ⟨uids, last⟩ := ensureDir_leaf_uids node later rest part (.now time (uid + 1) false) (uid + 1)
      rw [made, missing, found]
      refine ⟨⟨dir.uids, .refl _, ?_⟩, ?_⟩
      · rw [withDir_uids, drawn_succ]
        exact perm_append_comm.trans (uids.append_right _)
      · rw [last, UInt64.ofNat_add, UInt64.add_comm (UInt64.ofNat _), UInt64.add_assoc]
        rfl

theorem ensureDir_orderly (clock : Clock) (uid : UInt64) (orderly : dir.Throughout Orderly)
    (whole : node.deltaFields = none) (legal : LegalName node.name) (legalPath : ∀ part ∈ path, LegalName part) :
    (ensureDir (·.withFile node) clock path dir uid).1.Throughout Orderly := by
  induction path generalizing dir clock uid with
  | nil => exact withFile_orderly orderly whole legal
  | cons part rest ih =>
    have later : ∀ part ∈ rest, LegalName part := fun other member => legalPath other (mem_cons_of_mem _ member)
    cases found : dir.dirAt part with
    | some child =>
      obtain ⟨_, left, right, split, made⟩ := ensureDir_found (·.withFile node) clock rest uid found
      have below : child.Throughout Orderly := (throughout_iff.mp orderly).2 child (by rw [split]; simp)
      rw [made]
      exact (throughout_replace local_orderly orderly split (ensureDir_name clock uid)).mpr (ih clock uid below later)
    | none =>
      obtain ⟨after, time, made⟩ := ensureDir_absent (·.withFile node) clock rest uid found
      rw [made]
      refine withDir_orderly orderly ?_ (ih after _ (leaf_throughout (by simp [Orderly])) later)
      rw [ensureDir_name]
      exact legalPath part (by simp)

end Ensured

section Drawn

variable {uid : UInt64} {count : Nat}

theorem toNat_drawn {step : Nat} (room : uid.toNat + count < UInt64.size) (inside : step < count) :
    (uid + 1 + UInt64.ofNat step).toNat = uid.toNat + 1 + step := by
  have size : UInt64.size = 18446744073709551616 := rfl
  rw [UInt64.toNat_add, UInt64.toNat_add, UInt64.toNat_one, UInt64.toNat_ofNat']
  omega

theorem drawn_range (room : uid.toNat + count < UInt64.size) :
    ∀ other ∈ drawn uid count, uid < other ∧ other ≤ uid + UInt64.ofNat count := by
  intro other member
  obtain ⟨step, inside, rfl⟩ := mem_map.mp member
  have size : UInt64.size = 18446744073709551616 := rfl
  have value := toNat_drawn room (mem_range.mp inside)
  have bound := mem_range.mp inside
  rw [UInt64.lt_iff_toNat_lt, UInt64.le_iff_toNat_le, value, UInt64.toNat_add, UInt64.toNat_ofNat']
  omega

theorem drawn_nodup (room : uid.toNat + count < UInt64.size) : (drawn uid count).Nodup := by
  refine List.Nodup.map_on ?_ nodup_range
  intro first inFirst second inSecond same
  have values := congrArg UInt64.toNat same
  rw [toNat_drawn room (mem_range.mp inFirst), toNat_drawn room (mem_range.mp inSecond)] at values
  omega

end Drawn

namespace LtfsIndex

variable {index : LtfsIndex} {clock : Clock} {dirs : List String} {node : FileNode}

def demand (index : LtfsIndex) (dirs : List String) : Nat := index.root.missing dirs + 1

theorem register_uids (clock : Clock) (dirs : List String) (given : node.nodeMeta.fileUid = index.highestFileUid + 1) :
    (∃ kept, kept.Subperm index.root.uids ∧
      (index.register clock dirs node).root.uids.Perm (drawn index.highestFileUid (index.demand dirs) ++ kept)) ∧
    (index.register clock dirs node).highestFileUid = index.highestFileUid + UInt64.ofNat (index.demand dirs) := by
  obtain ⟨⟨kept, fewer, uids⟩, last⟩ :=
    ensureDir_uids node index.root dirs clock (index.highestFileUid + 1)
  refine ⟨⟨kept, fewer, ?_⟩, ?_⟩
  · rw [demand, drawn_succ]
    rwa [given] at uids
  · show (ensureDir _ _ _ _ _).2 = _
    rw [last, demand, UInt64.ofNat_add, UInt64.add_comm (UInt64.ofNat _), UInt64.add_assoc]
    rfl

theorem register_grows (given : node.nodeMeta.fileUid = index.highestFileUid + 1)
    (room : index.highestFileUid.toNat + index.demand dirs < UInt64.size) :
    Grows index (index.register clock dirs node) := by
  obtain ⟨⟨kept, fewer, uids⟩, last⟩ := register_uids clock dirs given
  have range := drawn_range room
  refine ⟨?_, drawn index.highestFileUid (index.demand dirs), drawn_nodup room, ?_, ?_⟩
  · obtain ⟨above, within⟩ := range (index.highestFileUid + 1) (by rw [demand, drawn_succ]; simp)
    rw [last]
    exact UInt64.le_of_lt (UInt64.lt_of_lt_of_le above within)
  · rw [last]
    exact range
  · exact uids.subperm.trans ((subperm_append_left _).mpr fewer)

theorem register_unique (unique : index.root.UniqueNames) :
    (index.register clock dirs node).root.UniqueNames ↔ index.root.Clear dirs node.name :=
  ensureDir_unique clock _ unique

theorem register_name : (index.register clock dirs node).root.name = index.root.name :=
  ensureDir_name clock _

end LtfsIndex

end TapeRs.Ltfs
