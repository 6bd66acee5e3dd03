import Mathlib.Data.Prod.Lex
import TapeRs.Daemon.State
import TapeRs.Ltfs.Namespace

/-!
The records of one tape's index (`catalog_of` of `daemon/files.rs`).
-/

namespace TapeRs.Ltfs

mutual
def walkBelow (dir : DirectoryNode) (path : String) : List (String × DirectoryNode) :=
  match dir with
  | ⟨_, _, _, _, subdirs, _⟩ => walkEach subdirs path

def walkEach : List DirectoryNode → String → List (String × DirectoryNode)
  | [], _ => []
  | child :: rest, path =>
    (joinPath path child.name, child) :: (walkBelow child (joinPath path child.name) ++ walkEach rest path)
end

/-- The directories below the root. -/
def LtfsIndex.walkDirectories (index : LtfsIndex) : List (String × DirectoryNode) :=
  walkBelow index.root ""

theorem walkDirs_eq (dirs : List DirectoryNode) (path : String) :
    walkDirs dirs path = dirs.flatMap fun child => walkDir child (joinPath path child.name) := by
  induction dirs with
  | nil => rfl
  | cons child rest ih => rw [walkDirs, ih, List.flatMap_cons]

theorem walkDir_eq (dir : DirectoryNode) (path : String) :
    walkDir dir path = dir.files.map (fun file => (joinPath path file.name, file)) ++
      dir.subdirs.flatMap fun child => walkDir child (joinPath path child.name) := by
  cases dir
  rw [walkDir, walkDirs_eq]

theorem walkEach_eq (dirs : List DirectoryNode) (path : String) :
    walkEach dirs path = dirs.flatMap fun child =>
      (joinPath path child.name, child) :: walkBelow child (joinPath path child.name) := by
  induction dirs with
  | nil => rfl
  | cons child rest ih => rw [walkEach, ih, List.flatMap_cons, List.cons_append]

theorem walkBelow_eq (dir : DirectoryNode) (path : String) :
    walkBelow dir path = dir.subdirs.flatMap fun child =>
      (joinPath path child.name, child) :: walkBelow child (joinPath path child.name) := by
  cases dir
  rw [walkBelow, walkEach_eq]

open DirectoryNode

theorem walkDir_perm {a b : DirectoryNode} (same : Same a b) (path : String) : (walkDir a path).Perm (walkDir b path) := by
  induction a using inductionOn generalizing b path with
  | node d ih =>
    rw [walkDir_eq, walkDir_eq]
    cases same with
    | node order _ _ _ _ files children siblings =>
      refine (files.map _).append (.trans ?_ (siblings.flatMap_right _))
      refine Keyed.flatMap_perm_of_matching children fun child member other same => ?_
      rw [same.name]
      exact ih child member same _

/-- Up to the order of siblings the walk meets the same directories, though their own children may stand in another
    order. -/
theorem walkBelow_perm {β : Type} {f : String × DirectoryNode → β} {a b : DirectoryNode} (same : Same a b)
    (blind : ∀ path a b, Same a b → f (path, a) = f (path, b)) (path : String) :
    ((walkBelow a path).map f).Perm ((walkBelow b path).map f) := by
  induction a using inductionOn generalizing b path with
  | node d ih =>
    rw [walkBelow_eq, walkBelow_eq, List.map_flatMap, List.map_flatMap]
    cases same with
    | node order _ _ _ _ files children siblings =>
      refine .trans ?_ (siblings.flatMap_right _)
      refine Keyed.flatMap_perm_of_matching children fun child member other same => ?_
      rw [same.name, List.map_cons, List.map_cons, blind _ _ _ same]
      exact (ih child member same _).cons _

end TapeRs.Ltfs

namespace TapeRs.Daemon

open Json Ltfs FileRec SortedMap List

variable {index : LtfsIndex} {record : FileRec}

def xattrValue (key : String) (xattrs : List Xattr) : Option String :=
  (Keyed.lookup (·.key) key xattrs).map (·.value)

def parseVersion (text : String) : Option (UInt64 × UInt64) :=
  match text.toList.dropWhile (· ≠ '.') with
  | _ :: seq => do
    let round ← Text.parseU64 (String.ofList (text.toList.takeWhile (· ≠ '.')))
    return (round, ← Text.parseU64 (String.ofList seq))
  | [] => none

def nodeVersion (xattrs : List Xattr) : UInt64 × UInt64 :=
  ((xattrValue xattrVersion xattrs).bind parseVersion).getD (0, 0)

def xattrDeletedPath : String := "tapers.deletedPath"

def xattrSha256 : String := "ltfs.hash.sha256sum"

def tombstoneDir : String := ".tapers/deleted"

def isTombstonePath (path : String) : Bool :=
  (tombstoneDir ++ "/").toList.isPrefixOf (path.toList.dropWhile (· = '/'))

def isPrivatePath (path : String) : Bool :=
  path = ".tapers" || ".tapers/".toList.isPrefixOf path.toList

def nodeValue (nodeMeta : NodeMeta) : Value :=
  .ofFields [("readonly", .bool nodeMeta.readonly), ("creation_time", .string nodeMeta.creationTime),
    ("change_time", .string nodeMeta.changeTime), ("modify_time", .string nodeMeta.modifyTime),
    ("access_time", .string nodeMeta.accessTime), ("backup_time", .string nodeMeta.backupTime)]

def xattrsValue (xattrs : List Xattr) : Value :=
  .array (xattrs.map fun attr =>
    .ofFields [("key", .string attr.key), ("value", .string attr.value), ("base64", .bool attr.base64)])

def deletedRec (target : String) (file : FileNode) : FileRec where
  path := target
  length := 0
  sha256 := ""
  version := nodeVersion file.xattrs
  deleted := true
  metadata :=
    if xattrValue "tapers.deletedKind" file.xattrs = some "directory" then .ofFields [("kind", .string "directory")]
    else .null

def liveRec (path : String) (file : FileNode) : FileRec where
  path := "/" ++ path
  length := file.length
  sha256 := (xattrValue xattrSha256 file.xattrs).getD ""
  version := nodeVersion file.xattrs
  deleted := false
  metadata :=
    let metadata : Value := .ofFields [("modify_time", .string file.nodeMeta.modifyTime),
      ("node", nodeValue file.nodeMeta), ("xattrs", xattrsValue file.xattrs)]
    match file.symlink with
    | some target => (metadata.set "kind" (.string "symlink")).set "symlink" (.string target)
    | none => metadata

def directoryRec (path : String) (dir : DirectoryNode) : FileRec where
  path := "/" ++ path
  length := 0
  sha256 := ""
  version := nodeVersion dir.xattrs
  deleted := false
  metadata := .ofFields [("kind", .string "directory"), ("modify_time", .string dir.nodeMeta.modifyTime),
    ("xattrs", xattrsValue dir.xattrs), ("node", nodeValue dir.nodeMeta)]

def fileRec (path : String) (file : FileNode) : Option FileRec :=
  if isTombstonePath path then (xattrValue xattrDeletedPath file.xattrs).map (deletedRec · file)
  else some (liveRec path file)

namespace FileRec

def order (record : FileRec) : Nat ×ₗ Nat := toLex (record.version.1.toNat, record.version.2.toNat)

def keepsOld (record old : FileRec) : Bool :=
  (record.deleted && !old.deleted) || (old.deleted = record.deleted && record.order ≤ old.order)

/-- A node comes before a tombstone, then the later version. -/
def rank (record : FileRec) : Bool ×ₗ (Nat ×ₗ Nat) := toLex (!record.deleted, record.order)

end FileRec

def catalogFile (state : SortedMap String FileRec × UInt64) (entry : String × FileNode) :
    SortedMap String FileRec × UInt64 :=
  match fileRec entry.1 entry.2 with
  | none => state
  | some record =>
    let bytes := if isTombstonePath entry.1 then state.2 else state.2 + entry.2.length
    match state.1.get record.path with
    | some old => (if record.keepsOld old then state.1 else state.1.insert record.path record, bytes)
    | none => (state.1.insert record.path record, bytes)

def catalogDirectory (byPath : SortedMap String FileRec) (entry : String × DirectoryNode) : SortedMap String FileRec :=
  if isPrivatePath entry.1 then byPath
  else
    let record := directoryRec entry.1 entry.2
    match byPath.get record.path with
    | some old => if old.deleted || old.order < record.order then byPath.insert record.path record else byPath
    | none => byPath.insert record.path record

def catalogOf (index : LtfsIndex) : List FileRec × UInt64 :=
  let (byPath, bytes) := index.walkFiles.foldl catalogFile (.empty, 0)
  ((index.walkDirectories.foldl catalogDirectory byPath).entries.map Prod.snd, bytes)

/-- The node a record is made of. -/
inductive Origin (index : LtfsIndex) : FileRec → Prop
  | file {path : String} {file : FileNode} (member : (path, file) ∈ index.walkFiles)
      (native : isTombstonePath path = false) : Origin index (liveRec path file)
  | directory {path : String} {dir : DirectoryNode} (member : (path, dir) ∈ index.walkDirectories)
      (native : isPrivatePath path = false) : Origin index (directoryRec path dir)
  | tombstone {path target : String} {file : FileNode} (member : (path, file) ∈ index.walkFiles)
      (buried : isTombstonePath path = true) (names : xattrValue xattrDeletedPath file.xattrs = some target) :
      Origin index (deletedRec target file)

def fileRecs (files : List (String × FileNode)) : List FileRec := files.filterMap fun entry => fileRec entry.1 entry.2

def directoryRecs (dirs : List (String × DirectoryNode)) : List FileRec :=
  (dirs.filter fun entry => !isPrivatePath entry.1).map fun entry => directoryRec entry.1 entry.2

/-- A record for each node, in the order of the two walks. -/
def nodeRecs (index : LtfsIndex) : List FileRec := fileRecs index.walkFiles ++ directoryRecs index.walkDirectories

/-- The bytes of the files that are no tombstones. -/
def liveBytes (files : List (String × FileNode)) : Nat :=
  ((files.filter fun entry => !isTombstonePath entry.1).map fun entry => entry.2.length.toNat).sum

theorem mem_nodeRecs : record ∈ nodeRecs index ↔ Origin index record := by
  constructor
  · intro member
    rcases mem_append.mp member with member | member
    · obtain ⟨⟨path, file⟩, listed, made⟩ := mem_filterMap.mp member
      unfold fileRec at made
      split at made
      · rename_i buried
        obtain ⟨target, names, rfl⟩ := Option.map_eq_some_iff.mp made
        exact .tombstone listed buried names
      · rename_i native
        obtain rfl := Option.some.inj made
        exact .file listed (by simpa using native)
    · obtain ⟨⟨path, dir⟩, kept, rfl⟩ := mem_map.mp member
      obtain ⟨listed, native⟩ := mem_filter.mp kept
      exact .directory listed (by simpa using native)
  · intro origin
    cases origin with
    | file member native => exact mem_append_left _ (mem_filterMap.mpr ⟨_, member, by simp [fileRec, native]⟩)
    | directory member native =>
      exact mem_append_right _ (mem_map.mpr ⟨_, mem_filter.mpr ⟨member, by simp [native]⟩, rfl⟩)
    | tombstone member buried names =>
      exact mem_append_left _ (mem_filterMap.mpr ⟨_, member, by simp [fileRec, buried, names]⟩)

theorem keepsOld_iff {old : FileRec} : record.keepsOld old = true ↔ record.rank ≤ old.rank := by
  unfold keepsOld rank
  rw [Prod.Lex.toLex_le_toLex]
  cases record.deleted <;> cases old.deleted <;> simp

theorem catalogFile_eq (byPath : SortedMap String FileRec) (bytes : UInt64) (entry : String × FileNode) :
    catalogFile (byPath, bytes) entry =
      ((fileRecs [entry]).foldl (promote path rank) byPath,
        if isTombstonePath entry.1 then bytes else bytes + entry.2.length) := by
  unfold catalogFile
  cases made : fileRec entry.1 entry.2 with
  | none =>
    have buried : isTombstonePath entry.1 = true := by
      unfold fileRec at made
      split at made
      · assumption
      · cases made
    simp [fileRecs, made, buried]
  | some record =>
    dsimp only
    simp only [fileRecs, filterMap_cons, made, filterMap_nil, foldl_cons, foldl_nil,
      promote]
    cases byPath.get record.path with
    | none => rfl
    | some old => simp only [keepsOld_iff]

theorem foldl_catalogFile (files : List (String × FileNode)) (byPath : SortedMap String FileRec) (bytes : UInt64) :
    (files.foldl catalogFile (byPath, bytes)).1 =
        (fileRecs files).foldl (promote path rank) byPath ∧
      (files.foldl catalogFile (byPath, bytes)).2.toNat = (bytes.toNat + liveBytes files) % 2 ^ 64 := by
  induction files generalizing byPath bytes with
  | nil => exact ⟨rfl, (Nat.mod_eq_of_lt bytes.toNat_lt).symm⟩
  | cons entry rest ih =>
    rw [foldl_cons, catalogFile_eq]
    obtain ⟨merged, counted⟩ := ih ((fileRecs [entry]).foldl (promote path rank) byPath)
      (if isTombstonePath entry.1 then bytes else bytes + entry.2.length)
    constructor
    · rw [merged, ← foldl_append]
      congr 1
      exact filterMap_append.symm
    · rw [counted]
      cases buried : isTombstonePath entry.1 with
      | true => simp [liveBytes, buried]
      | false =>
        simp only [liveBytes, buried, Bool.false_eq_true, if_false, filter_cons, Bool.not_false, if_true,
          map_cons, sum_cons, UInt64.toNat_add, Nat.mod_add_mod]
        rw [Nat.add_assoc]

theorem foldl_catalogDirectory (dirs : List (String × DirectoryNode)) (byPath : SortedMap String FileRec) :
    dirs.foldl catalogDirectory byPath =
      (directoryRecs dirs).foldl (promote path rank) byPath := by
  induction dirs generalizing byPath with
  | nil => rfl
  | cons entry rest ih =>
    rw [foldl_cons, ih, catalogDirectory]
    cases hidden : isPrivatePath entry.1 with
    | true => simp [directoryRecs, hidden]
    | false =>
      simp only [directoryRecs, hidden, filter_cons, Bool.not_false, if_true, map_cons, foldl_cons,
        Bool.false_eq_true, if_false, promote]
      congr 1
      cases byPath.get (directoryRec entry.1 entry.2).path with
      | none => rfl
      | some old =>
        have replaces : (old.deleted || decide (old.order < (directoryRec entry.1 entry.2).order)) = true ↔
            ¬(directoryRec entry.1 entry.2).rank ≤ old.rank := by
          rw [← keepsOld_iff, keepsOld, show (directoryRec entry.1 entry.2).deleted = false from rfl]
          cases old.deleted <;> simp
        simp only [replaces, ite_not]

def byPath (index : LtfsIndex) : SortedMap String FileRec :=
  (nodeRecs index).foldl (SortedMap.promote FileRec.path FileRec.rank) .empty

theorem catalogOf_records (index : LtfsIndex) : (catalogOf index).1 = (byPath index).entries.map Prod.snd := by
  obtain ⟨merged, _⟩ := foldl_catalogFile index.walkFiles .empty 0
  show (index.walkDirectories.foldl catalogDirectory (index.walkFiles.foldl catalogFile (.empty, 0)).1).entries.map _ = _
  rw [merged, foldl_catalogDirectory, ← foldl_append]
  rfl

theorem catalogOf_bytes (index : LtfsIndex) :
    (catalogOf index).2.toNat = liveBytes index.walkFiles % 2 ^ 64 := by
  have counted := (foldl_catalogFile index.walkFiles .empty 0).2
  rwa [UInt64.toNat_zero, Nat.zero_add] at counted

theorem byPath_best (index : LtfsIndex) (path : String) :
    SortedMap.Best FileRec.path FileRec.rank (nodeRecs index) path ((byPath index).get path) :=
  foldl_promote_best _ path

theorem mem_catalogOf : record ∈ (catalogOf index).1 ↔ (byPath index).get record.path = some record := by
  rw [catalogOf_records, mem_map]
  constructor
  · rintro ⟨⟨path, _⟩, member, rfl⟩
    have found := mem_entries.mp member
    have best := byPath_best index path
    rw [found] at best
    rw [best.2.1, found]
  · intro found
    exact ⟨(record.path, record), mem_entries.mpr found, rfl⟩

/-- No two nodes have the same path. -/
def PathsDistinct (index : LtfsIndex) : Prop :=
  (index.walkFiles.map Prod.fst ++ index.walkDirectories.map Prod.fst).Nodup

instance (index : LtfsIndex) : Decidable (PathsDistinct index) := inferInstanceAs (Decidable (List.Nodup _))

theorem native_unique (paths : PathsDistinct index) {a b : FileRec} (first : Origin index a) (second : Origin index b)
    (live : a.deleted = false) (other : b.deleted = false) (same : a.path = b.path) : a = b := by
  have slash : ∀ {p q : String}, "/" ++ p = "/" ++ q → p = q := fun same => by simpa using same
  obtain ⟨files, dirs, apart⟩ := nodup_append.mp paths
  cases first with
  | tombstone => cases live
  | file member native =>
    cases second with
    | tombstone => cases other
    | file member' native' =>
      obtain rfl := slash same
      rw [inj_on_of_nodup_map files member member' rfl |> Prod.mk.inj |>.2]
    | directory member' native' =>
      exact absurd (slash same) (apart _ (mem_map_of_mem member) _ (mem_map_of_mem member'))
  | directory member native =>
    cases second with
    | tombstone => cases other
    | file member' native' =>
      exact absurd (slash same).symm (apart _ (mem_map_of_mem member') _ (mem_map_of_mem member))
    | directory member' native' =>
      obtain rfl := slash same
      rw [inj_on_of_nodup_map dirs member member' rfl |> Prod.mk.inj |>.2]

/-- What the extraction is for. -/
structure Extracts (index : LtfsIndex) (catalog : List FileRec × UInt64) : Prop where
  ordered : catalog.1.Pairwise (·.path < ·.path)
  origin : ∀ record ∈ catalog.1, Origin index record
  covers : ∀ record, Origin index record → ∃ kept ∈ catalog.1, kept.path = record.path
  native : ∀ record, Origin index record → record.deleted = false → record ∈ catalog.1
  deleted : ∀ record ∈ catalog.1, record.deleted = true → ∀ other, Origin index other → other.path = record.path →
    other.deleted = true ∧ other.order ≤ record.order
  bytes : catalog.2.toNat = liveBytes index.walkFiles % 2 ^ 64

theorem catalogOf_extracts (paths : PathsDistinct index) : Extracts index (catalogOf index) where
  ordered := by
    rw [catalogOf_records, pairwise_map]
    refine (pairwise_map.mp (byPath index).sorted).imp_of_mem fun {a b} left right less => ?_
    have keyed : ∀ entry ∈ (byPath index).entries, entry.2.path = entry.1 := by
      rintro ⟨path, record⟩ member
      have best := byPath_best index path
      rw [mem_entries.mp member] at best
      exact best.2.1
    rwa [keyed a left, keyed b right]
  origin record member := by
    have best := byPath_best index record.path
    rw [mem_catalogOf.mp member] at best
    exact mem_nodeRecs.mp best.1
  covers record origin := by
    have best := byPath_best index record.path
    cases found : (byPath index).get record.path with
    | none =>
      rw [found] at best
      exact absurd rfl (best record (mem_nodeRecs.mpr origin))
    | some kept =>
      rw [found] at best
      exact ⟨kept, mem_catalogOf.mpr (best.2.1 ▸ found), best.2.1⟩
  native record origin live := by
    have best := byPath_best index record.path
    cases found : (byPath index).get record.path with
    | none =>
      rw [found] at best
      exact absurd rfl (best record (mem_nodeRecs.mpr origin))
    | some kept =>
      rw [found] at best
      have above := keepsOld_iff.mpr (best.2.2 record (mem_nodeRecs.mpr origin) rfl)
      have alive : kept.deleted = false := by
        unfold keepsOld at above
        cases dead : kept.deleted <;> simp_all
      obtain rfl := native_unique paths origin (mem_nodeRecs.mp best.1) live alive best.2.1.symm
      exact mem_catalogOf.mpr found
  deleted record member dead other origin same := by
    have best := byPath_best index record.path
    rw [mem_catalogOf.mp member] at best
    have above := keepsOld_iff.mpr (best.2.2 other (mem_nodeRecs.mpr origin) same)
    unfold keepsOld at above
    cases buried : other.deleted <;> simp_all
  bytes := catalogOf_bytes index

section Siblings

variable {index other : LtfsIndex}

theorem liveBytes_perm {files others : List (String × FileNode)} (perm : files.Perm others) :
    liveBytes files = liveBytes others :=
  ((perm.filter _).map _).sum_eq

theorem nodeRecs_perm (same : DirectoryNode.Same index.root other.root) : (nodeRecs index).Perm (nodeRecs other) := by
  refine ((walkDir_perm same "").filterMap _).append ?_
  have mapped : ∀ dirs : List (String × DirectoryNode), directoryRecs dirs =
      ((dirs.map fun entry => (entry.1, directoryRec entry.1 entry.2)).filter fun made => !isPrivatePath made.1).map
        Prod.snd := by
    intro dirs
    rw [filter_map, map_map]
    rfl
  rw [mapped, mapped]
  refine ((walkBelow_perm same (fun path a b same => ?_) "").filter _).map _
  simp only [directoryRec, same.nodeMeta, same.xattrs]

/-- Tombstones of one path and version tell the same. -/
def NoTies (index : LtfsIndex) : Prop :=
  ∀ a b, Origin index a → Origin index b → a.deleted = true → b.deleted = true → a.path = b.path → a.version = b.version →
    a = b

theorem nodeRecs_apart (paths : PathsDistinct index) (ties : NoTies index) (a : FileRec) (first : a ∈ nodeRecs index)
    (b : FileRec) (second : b ∈ nodeRecs index) (same : a.path = b.path) (level : a.rank = b.rank) : a = b := by
  obtain ⟨alike, versions⟩ := Prod.mk.inj (toLex.injective level)
  have first := mem_nodeRecs.mp first
  have second := mem_nodeRecs.mp second
  cases dead : a.deleted with
  | false => exact native_unique paths first second dead (by simpa [dead] using alike) same
  | true =>
    refine ties a b first second dead (by simpa [dead] using alike) same ?_
    obtain ⟨rounds, seqs⟩ := Prod.mk.inj (toLex.injective versions)
    exact Prod.ext (UInt64.toNat_inj.mp rounds) (UInt64.toNat_inj.mp seqs)

theorem catalogOf_siblings (same : DirectoryNode.Same index.root other.root) :
    (catalogOf other).2 = (catalogOf index).2 ∧
      (PathsDistinct index → NoTies index → catalogOf other = catalogOf index) := by
  have bytes : (catalogOf other).2 = (catalogOf index).2 := by
    apply UInt64.toNat_inj.mp
    rw [catalogOf_bytes, catalogOf_bytes, LtfsIndex.walkFiles, LtfsIndex.walkFiles, liveBytes_perm (walkDir_perm same "")]
  refine ⟨bytes, fun paths ties => Prod.ext ?_ bytes⟩
  have maps : byPath other = byPath index := by
    refine ext_get fun path => ?_
    refine (SortedMap.Best.unique ?_ (nodeRecs_apart paths ties) (byPath_best index path) (byPath_best other path)).symm
    exact fun record => (nodeRecs_perm same).mem_iff
  rw [catalogOf_records, catalogOf_records, maps]

end Siblings

def sampleTape (files : List FileNode) (subdirs : List DirectoryNode) : LtfsIndex :=
  { LtfsIndex.empty 1 "tape-rs" 'b' "" with root := { nodeMeta := { fileUid := 1 }, files, subdirs } }

def sampleTombstone (name : String) (attrs : List (String × String)) : FileNode :=
  { name, xattrs := attrs.map fun attr => ⟨attr.1, attr.2, false⟩ }

def sampleTombstones (files : List FileNode) : LtfsIndex :=
  sampleTape [] [{ name := ".tapers", subdirs := [{ name := "deleted", files }] }]

end TapeRs.Daemon
