import TapeRs.Data.Text
import TapeRs.Ltfs.Descent

open TapeRs.Keyed

namespace TapeRs.Ltfs

open DirectoryNode

/-- The readings of the wall clock during one call, numbered as the source takes them; a branch that is not taken leaves
    its numbers out. -/
abbrev Clock := Nat → String

/-- Native attributes of a node that a caller may change. -/
structure MetadataChange where
  readonly : Option Bool := none
  accessTime : Option String := none
  modifyTime : Option String := none
deriving DecidableEq, Repr

namespace MetadataChange

/-- `nanos` is the canonical nanosecond text of a timestamp that chrono parses. -/
def canonicalTime (nanos : String → Option String) (time : String) : Bool :=
  time.toList.all (fun c => c.toNat < 128) && time.length = 30 && time.toList.getLast? = some 'Z' && nanos time = some time

def validate (nanos : String → Option String) (change : MetadataChange) : Result Unit :=
  if [change.accessTime, change.modifyTime].reduceOption.all (canonicalTime nanos) then .ok ()
  else .error (.ltfs "时间必须为四位年份的LTFS UTC纳秒格式")

def isEmpty (change : MetadataChange) : Bool :=
  change.readonly.isNone && change.accessTime.isNone && change.modifyTime.isNone

end MetadataChange

def xattrVersion : String := "tapers.version"

def setXattr (key value : String) (xattrs : List Xattr) : List Xattr :=
  discard (·.key) key xattrs ++ [{ key, value, base64 := false }]

def NodeMeta.now (time : String) (fileUid : UInt64) (readonly : Bool) : NodeMeta :=
  { readonly, creationTime := time, changeTime := time, modifyTime := time, accessTime := time, backupTime := time
    fileUid }

namespace Namespace

def illegalPart (part : String) : Bool :=
  part = "." || part = ".." || '\x00' ∈ part.toList

def parts (path : String) : Result (List String) :=
  if (Text.components path).any illegalPart then .error (.ltfs "元数据路径非法") else .ok (Text.components path)

def splitLast (path : List String) : Option (List String × String) :=
  path.getLast?.map (path.dropLast, ·)

def dirMut (root : DirectoryNode) (path : List String) : Result DirectoryNode :=
  match root.descend path with
  | some dir => .ok dir
  | none => .error (.ltfs "父目录不存在")

def touch (now : String) (dir : DirectoryNode) : DirectoryNode :=
  { dir with nodeMeta := { dir.nodeMeta with changeTime := now, modifyTime := now } }

inductive Node where
  | file (file : FileNode)
  | directory (dir : DirectoryNode)

/-- Takes the first file of the name out of the directory, or else the first subdirectory. -/
def take (dir : DirectoryNode) (name : String) : Option (Node × DirectoryNode) :=
  match dir.fileAt name with
  | some file => some (.file file, { dir with files := dir.files.eraseP (·.name = name) })
  | none =>
    match dir.dirAt name with
    | some child => some (.directory child, { dir with subdirs := dir.subdirs.eraseP (·.name = name) })
    | none => none

def replaceable : Node → Node → Result Unit
  | .file _, .file _ => .ok ()
  | .directory _, .directory existing =>
    if existing.files.isEmpty && existing.subdirs.isEmpty then .ok () else .error (.ltfs "目标目录非空")
  | _, _ => .error (.ltfs "源与目标类型不一致")

def push (node : Node) (name now : String) (dir : DirectoryNode) : DirectoryNode :=
  match node with
  | .file file =>
    { dir with files := dir.files ++ [{ file with name, nodeMeta := { file.nodeMeta with changeTime := now } }] }
  | .directory child => dir.withDir { child with name, nodeMeta := { child.nodeMeta with changeTime := now } }

def vacate (node : Node) (target : DirectoryNode) (name : String) : Result DirectoryNode :=
  match take target name with
  | some (existing, rest) => do
    replaceable node existing
    return rest
  | none => .ok target

end Namespace

namespace LtfsIndex

open Namespace

def findDirectory (index : LtfsIndex) (path : String) : Option DirectoryNode :=
  match parts path with
  | .ok names => index.root.descend names
  | .error _ => none

/-- The next identifier; zero and one are never given to a new directory here. -/
def nextUid (highest : UInt64) : Result UInt64 :=
  if highest = 0xFFFFFFFFFFFFFFFF || highest = 0 then .error (.ltfs "UID 空间耗尽") else .ok (highest + 1)

def createDirectory (index : LtfsIndex) (clock : Clock) (path : String) : Result LtfsIndex := do
  let names ← parts path
  match splitLast names with
  | none => throw (.ltfs "根目录已存在")
  | some (parents, name) =>
    let uid ← nextUid index.highestFileUid
    let dir ← dirMut index.root parents
    if dir.files.any (·.name = name) || dir.subdirs.any (·.name = name) then throw (.ltfs "路径已存在")
    else
      return { index with
        root := edit (fun dir => touch (clock 1) (dir.withDir { name, nodeMeta := .now (clock 0) uid false })) parents
          index.root
        highestFileUid := uid }

def removeDirectory (index : LtfsIndex) (clock : Clock) (path : String) : Result LtfsIndex := do
  let names ← parts path
  match splitLast names with
  | none => throw (.ltfs "不能删除根目录")
  | some (parents, name) =>
    let dir ← dirMut index.root parents
    match dir.dirAt name with
    | none => throw (.ltfs "目录不存在")
    | some child =>
      if !child.files.isEmpty || !child.subdirs.isEmpty then throw (.ltfs "目录非空")
      else
        return { index with
          root := edit (fun dir => touch (clock 0) { dir with subdirs := dir.subdirs.eraseP (·.name = name) }) parents
            index.root }

def renamePath (index : LtfsIndex) (clock : Clock) (source target : String) : Result LtfsIndex := do
  let src ← parts source
  let dst ← parts target
  match splitLast src with
  | none => throw (.ltfs "不能重命名根目录")
  | some (parent, old) =>
    match splitLast dst with
    | none => throw (.ltfs "不能覆盖根目录")
    | some (targetParent, new) =>
      if src.length < dst.length && src.isPrefixOf dst then throw (.ltfs "不能移动目录到自身子目录")
      else
        let dir ← dirMut index.root parent
        match take dir old with
        | none => throw (.ltfs "源路径不存在")
        | some (node, rest) =>
          if src = dst then return index
          else
            -- The copy without the node; it becomes the tree only at the very end.
            let next := edit (fun _ => touch (clock 0) rest) parent index.root
            let place ← dirMut next targetParent
            let vacant ← vacate node place new
            return { index with
              root := edit (fun _ => touch (clock 2) (push node new (clock 1) vacant)) targetParent next }

/-- Rewrites the metadata and the attributes of the node at a path: a file before a directory of that name. -/
def nodeMetadata (index : LtfsIndex) (path : String)
    (change : NodeMeta → List Xattr → Result (NodeMeta × List Xattr)) : Result LtfsIndex := do
  let names ← parts path
  match splitLast names with
  | none =>
    let (nodeMeta, xattrs) ← change index.root.nodeMeta index.root.xattrs
    return { index with root := { index.root with nodeMeta, xattrs } }
  | some (parents, name) =>
    let parent ← dirMut index.root parents
    match parent.fileAt name with
    | some file =>
      let (nodeMeta, xattrs) ← change file.nodeMeta file.xattrs
      return { index with
        root := edit (fun parent => { parent with
          files := updateFile name (fun file => { file with nodeMeta, xattrs }) parent.files }) parents index.root }
    | none =>
      match parent.dirAt name with
      | none => throw (.ltfs "路径不存在")
      | some dir =>
        let (nodeMeta, xattrs) ← change dir.nodeMeta dir.xattrs
        return { index with root := edit (fun dir => { dir with nodeMeta, xattrs }) names index.root }

def setCatalogVersion (index : LtfsIndex) (path version : String) : Result LtfsIndex :=
  index.nodeMetadata path fun nodeMeta xattrs => .ok (nodeMeta, setXattr xattrVersion version xattrs)

def replaceXattr (attr : Xattr) : List Xattr → List Xattr
  | [] => []
  | head :: rest => if head.key = attr.key then attr :: rest else head :: replaceXattr attr rest

def setNodeXattr (index : LtfsIndex) (clock : Clock) (path : String) (attr : Xattr) (createOnly replaceOnly : Bool) :
    Result LtfsIndex :=
  if attr.key.isEmpty || (createOnly && replaceOnly) then .error (.ltfs "扩展属性参数非法")
  else
    index.nodeMetadata path fun nodeMeta xattrs =>
      let found := xattrs.any (·.key = attr.key)
      if found && createOnly then .error (.ltfs "扩展属性已存在")
      else if !found && replaceOnly then .error (.ltfs "扩展属性不存在")
      else
        .ok ({ nodeMeta with changeTime := clock 0 }, if found then replaceXattr attr xattrs else xattrs ++ [attr])

def removeNodeXattr (index : LtfsIndex) (clock : Clock) (path key : String) : Result LtfsIndex :=
  index.nodeMetadata path fun nodeMeta xattrs =>
    if xattrs.any (·.key = key) then
      .ok ({ nodeMeta with changeTime := clock 0 }, xattrs.eraseP (·.key = key))
    else .error (.ltfs "扩展属性不存在")

def changeNodeMetadata (nanos : String → Option String) (index : LtfsIndex) (clock : Clock) (path : String)
    (change : MetadataChange) : Result LtfsIndex := do
  change.validate nanos
  index.nodeMetadata path fun nodeMeta xattrs =>
    .ok ({ nodeMeta with
      readonly := change.readonly.getD nodeMeta.readonly
      accessTime := change.accessTime.getD nodeMeta.accessTime
      modifyTime := change.modifyTime.getD nodeMeta.modifyTime
      changeTime := if change.isEmpty then nodeMeta.changeTime else clock 0 }, xattrs)

def setNodeReadonly (index : LtfsIndex) (clock : Clock) (path : String) (readonly : Bool) : Result LtfsIndex :=
  index.nodeMetadata path fun nodeMeta xattrs => .ok ({ nodeMeta with readonly, changeTime := clock 0 }, xattrs)

end LtfsIndex

end TapeRs.Ltfs
