import TapeRs.Data.KeyedList
import TapeRs.Ltfs.Index

open TapeRs.Keyed

namespace TapeRs.Ltfs

namespace Fields

def has (fields : Fields) (key : String) : Bool :=
  match fields with
  | none => true
  | some names => key ∈ names

def deleted (fields : Fields) : Bool :=
  match fields with
  | none => false
  | some names => "deleted" ∈ names

/-- Cardinality of an explicit field set; the source only asks it where the set is explicit. -/
def count (fields : Fields) : Nat :=
  match fields with
  | none => 0
  | some names => names.card

def navigation : Fields := some {"name", "contents"}

def deletion : Fields := some {"name", "deleted"}

end Fields

namespace Incremental

def bad (detail : String) : TapeError := .ltfs ("增量索引: " ++ detail)

mutual
/-- What changed between two versions of one directory. Unchanged children are left out and
    children missing from `new` become deletion entries. -/
def difference (new old : DirectoryNode) : DirectoryNode :=
  match new with
  | ⟨_, name, nodeMeta, files, subdirs, xattrs⟩ =>
    let names := files.map (·.name) ++ subdirs.map (·.name)
    let changedFiles := files.filter (fun file => collected (·.name) file.name old.files ≠ some file)
    let deletedFiles := (old.files.filter (fun file => file.name ∉ names)).map
      (fun file => { name := file.name, deltaFields := Fields.deletion : FileNode })
    let deletedDirs := (old.subdirs.filter (fun dir => dir.name ∉ names)).map
      (fun dir => { name := dir.name, deltaFields := Fields.deletion : DirectoryNode })
    { deltaFields := if nodeMeta = old.nodeMeta ∧ xattrs = old.xattrs then Fields.navigation else none
      name
      nodeMeta
      xattrs
      files := changedFiles ++ deletedFiles
      subdirs := differences subdirs old.subdirs ++ deletedDirs }

def differences : List DirectoryNode → List DirectoryNode → List DirectoryNode
  | [], _ => []
  | dir :: rest, oldDirs =>
    match collected (fun d => (d.name, d.nodeMeta.fileUid)) (dir.name, dir.nodeMeta.fileUid) oldDirs with
    | some prior =>
      if prior = dir then differences rest oldDirs
      else difference dir prior :: differences rest oldDirs
    | none => dir :: differences rest oldDirs
end

def validateFields (fields : Fields) (name : String) (directory root : Bool) : Result Unit :=
  if (!root && name.isEmpty) || '/' ∈ name.toList || '\x00' ∈ name.toList || name = "." || name = ".." then
    .error (bad "非法对象名")
  else if fields.deleted then
    if root || fields.count ≠ 2 || !fields.has "name" then .error (bad "删除项只能包含 name 和空 deleted")
    else .ok ()
  else if !fields.has "name" || (directory && !fields.has "contents") then
    .error (bad "缺少 name/contents")
  else if !fields.has "fileuid" && (!directory || fields.count ≠ 2) then
    .error (bad "修改缺少 fileuid")
  else .ok ()

/-- Both elements present in an explicit set; a complete object is not checked here. -/
def symlinkWithExtents (fields : Fields) : Bool :=
  match fields with
  | none => false
  | some names => "symlink" ∈ names && "extentinfo" ∈ names

def validateFile (file : FileNode) : Result Unit := do
  validateFields file.deltaFields file.name false false
  if symlinkWithExtents file.deltaFields then throw (bad "symlink 与 extentinfo 互斥")

def validateFiles : List FileNode → List String → Result (List String)
  | [], seen => .ok seen
  | file :: rest, seen => do
    validateFile file
    if file.name ∈ seen then throw (bad "同一路径出现多次")
    validateFiles rest (file.name :: seen)

mutual
def validateDir (dir : DirectoryNode) (root : Bool) : Result Unit :=
  match dir with
  | ⟨deltaFields, name, _, files, subdirs, _⟩ => do
    validateFields deltaFields name true root
    let names ← validateFiles files []
    validateDirs subdirs names

def validateDirs : List DirectoryNode → List String → Result Unit
  | [], _ => .ok ()
  | child :: rest, seen => do
    if child.name ∈ seen then throw (bad "同一路径出现多次")
    validateDir child false
    validateDirs rest (child.name :: seen)
end

def requiredFields : List String :=
  ["name", "fileuid", "readonly", "creationtime", "changetime", "modifytime"]

/-- A new object needs every mandatory element; the first missing one is reported. -/
def complete (fields : Fields) (directory : Bool) : Result Unit :=
  match requiredFields.find? (fun key => !fields.has key) with
  | some key => .error (bad ("新对象缺少 " ++ key))
  | none => if !directory && !fields.has "length" then .error (bad "新文件缺少 length") else .ok ()

def removeFiles (files : List FileNode) (deltas : List FileNode) : List FileNode :=
  deltas.foldl (fun files delta => if delta.deltaFields.deleted then discard (·.name) delta.name files else files)
    files

def updateDir (name : String) (f : DirectoryNode → DirectoryNode) : List DirectoryNode → List DirectoryNode
  | [] => []
  | dir :: rest => if dir.name = name then f dir :: rest else dir :: updateDir name f rest

mutual
def removeDeleted (dst delta : DirectoryNode) : DirectoryNode :=
  match delta with
  | ⟨_, _, _, files, subdirs, _⟩ =>
    { dst with files := removeFiles dst.files files, subdirs := removeDirs dst.subdirs subdirs }

def removeDirs (dirs : List DirectoryNode) : List DirectoryNode → List DirectoryNode
  | [] => dirs
  | delta :: rest =>
    if delta.deltaFields.deleted then removeDirs (discard (·.name) delta.name dirs) rest
    else removeDirs (updateDir delta.name (fun child => removeDeleted child delta) dirs) rest
end

def mergeMeta (dst src : NodeMeta) (fields : Fields) : NodeMeta :=
  { fileUid := if fields.has "fileuid" then src.fileUid else dst.fileUid
    readonly := if fields.has "readonly" then src.readonly else dst.readonly
    creationTime := if fields.has "creationtime" then src.creationTime else dst.creationTime
    changeTime := if fields.has "changetime" then src.changeTime else dst.changeTime
    modifyTime := if fields.has "modifytime" then src.modifyTime else dst.modifyTime
    accessTime := if fields.has "accesstime" then src.accessTime else dst.accessTime
    backupTime := if fields.has "backuptime" then src.backupTime else dst.backupTime }

def mergeFileMetadata (out file : FileNode) : FileNode :=
  let fields := file.deltaFields
  let extentInfo := fields.has "extentinfo"
  let linked := file.symlink.isSome && fields.has "symlink"
  { name := out.name
    nodeMeta := mergeMeta out.nodeMeta file.nodeMeta fields
    length := if fields.has "length" then file.length else out.length
    openForWrite := if fields.has "openforwrite" then file.openForWrite else out.openForWrite
    -- A symlink is applied after the extents and clears them again.
    extents := if linked then [] else if extentInfo then file.extents else out.extents
    symlink := if linked then file.symlink else if extentInfo then none else out.symlink
    xattrs := if fields.has "extendedattributes" then file.xattrs else out.xattrs
    deltaFields := none }

def mergeDirectoryMetadata (dst patch : DirectoryNode) (root : Bool) : Result DirectoryNode :=
  if root && patch.deltaFields.has "fileuid" && dst.nodeMeta.fileUid ≠ patch.nodeMeta.fileUid then
    .error (bad "根目录 UID 变化")
  else
    .ok { dst with
      name := if root then patch.name else dst.name
      nodeMeta := mergeMeta dst.nodeMeta patch.nodeMeta patch.deltaFields
      xattrs := if patch.deltaFields.has "extendedattributes" then patch.xattrs else dst.xattrs
      deltaFields := none }

def discardName (dst : DirectoryNode) (name : String) : DirectoryNode :=
  { dst with files := discard (·.name) name dst.files, subdirs := discard (·.name) name dst.subdirs }

def mergeFile (dst : DirectoryNode) (file : FileNode) : Result DirectoryNode :=
  if file.deltaFields.deleted then .ok dst
  else
    match rewriteFirst (fun v => v.name = file.name && v.nodeMeta.fileUid = file.nodeMeta.fileUid)
        (fun v => (.ok (mergeFileMetadata v file) : Result FileNode)) dst.files with
    | some merged => do return { dst with files := ← merged }
    | none => do
      complete file.deltaFields false
      let dst := discardName dst file.name
      return { dst with files := dst.files ++ [{ file with deltaFields := none }] }

def mergeFiles : DirectoryNode → List FileNode → Result DirectoryNode
  | dst, [] => .ok dst
  | dst, file :: rest => do
    let dst ← mergeFile dst file
    mergeFiles dst rest

mutual
def mergeDir (dst patch : DirectoryNode) (root : Bool) : Result DirectoryNode :=
  match patch with
  | ⟨deltaFields, name, nodeMeta, files, subdirs, xattrs⟩ => do
    let dst ← mergeDirectoryMetadata dst ⟨deltaFields, name, nodeMeta, files, subdirs, xattrs⟩ root
    let dst ← mergeFiles dst files
    mergeSubdirs dst subdirs

def mergeSubdirs (dst : DirectoryNode) : List DirectoryNode → Result DirectoryNode
  | [] => .ok dst
  | dir :: rest =>
    if dir.deltaFields.deleted then mergeSubdirs dst rest
    else
      match rewriteFirst
          (fun v => v.name = dir.name && (!dir.deltaFields.has "fileuid" || v.nodeMeta.fileUid = dir.nodeMeta.fileUid))
          (fun v => mergeDir v dir false) dst.subdirs with
      | some merged => do mergeSubdirs { dst with subdirs := ← merged } rest
      | none => do
        complete dir.deltaFields true
        let dst := discardName dst dir.name
        let node ← mergeDir { name := dir.name } dir false
        mergeSubdirs { dst with subdirs := dst.subdirs ++ [node] } rest
end

def validateUidList (highest : UInt64) : List UInt64 → List UInt64 → Result (List UInt64)
  | [], seen => .ok seen
  | uid :: rest, seen =>
    if uid = 0 || (highest ≠ 0 && highest < uid) || uid ∈ seen then
      .error (bad "UID 为零、重复或超过 highestfileuid")
    else validateUidList highest rest (uid :: seen)

mutual
def validateUids (dir : DirectoryNode) (highest : UInt64) (seen : List UInt64) : Result (List UInt64) :=
  match dir with
  | ⟨_, _, nodeMeta, files, subdirs, _⟩ => do
    let seen ← validateUidList highest (nodeMeta.fileUid :: files.map (·.nodeMeta.fileUid)) seen
    validateUidsOf subdirs highest seen

def validateUidsOf : List DirectoryNode → UInt64 → List UInt64 → Result (List UInt64)
  | [], _, seen => .ok seen
  | child :: rest, highest, seen => do
    let seen ← validateUids child highest seen
    validateUidsOf rest highest seen
end

end Incremental

namespace LtfsIndex

open Incremental

/-- Where the full index lies that an increment on top of this view starts from. -/
def fullBase (index : LtfsIndex) : Option IndexLocation :=
  if index.incremental then index.previousLocation else some index.selfLocation

def incrementalBase (index : LtfsIndex) : Option IndexLocation :=
  if index.incremental then some index.selfLocation else none

def validateIncremental (index : LtfsIndex) : Result Unit :=
  if !index.incremental then .ok ()
  else if index.version ≠ "2.5.0" || index.generation = 0 || index.previousLocation.isNone then
    .error (bad "缺少完整基线、有效代数或 2.5.0 格式版本")
  else if [index.previousLocation, index.previousIncrementalLocation].reduceOption.any (fun loc =>
      loc.partition ≠ index.selfLocation.partition || index.selfLocation.startBlock ≤ loc.startBlock) then
    .error (bad "前驱位置或分区非法")
  else if !index.unknownElements.isEmpty then .error (bad "包含未知元素，不能安全重放")
  else validateDir index.root true

def incrementalDelta (index base : LtfsIndex) : LtfsIndex :=
  { index.cloneWithRoot (difference index.root base.root) with
    version := "2.5.0"
    incremental := true
    materialized := false
    previousLocation := base.fullBase
    previousIncrementalLocation := base.incrementalBase }

def incrementalSince (index base : LtfsIndex) : Result LtfsIndex :=
  if index.volumeUuid ≠ base.volumeUuid || index.generation ≤ base.generation then
    .error (bad "卷身份或代数不匹配")
  else do
    let delta := index.incrementalDelta base
    delta.validateIncremental
    return delta

def applyIncremental (index delta : LtfsIndex) : Result LtfsIndex := do
  delta.validateIncremental
  if !delta.incremental || delta.volumeUuid ≠ index.volumeUuid || delta.generation ≤ index.generation ||
      (delta.highestFileUid ≠ 0 && (index.highestFileUid = 0 || delta.highestFileUid < index.highestFileUid)) then
    throw (bad "卷、代数或 highestfileuid 不匹配")
  if delta.previousLocation ≠ index.fullBase || delta.previousIncrementalLocation ≠ index.incrementalBase then
    throw (bad "完整基线或增量前驱不匹配")
  let root ← mergeDir (removeDeleted index.root delta.root) delta.root true
  let _ ← validateUids root delta.highestFileUid []
  return { delta.cloneWithRoot root with
    materialized := true
    allowPolicyUpdate := index.allowPolicyUpdate
    unknownElements :=
      index.unknownElements.foldl (fun out name => if name ∈ out then out else out ++ [name]) delta.unknownElements }

end LtfsIndex

end TapeRs.Ltfs
