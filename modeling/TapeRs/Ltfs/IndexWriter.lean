import TapeRs.Crates
import TapeRs.Data.Percent
import TapeRs.Ltfs.Incremental

namespace TapeRs.Ltfs

open Xml

namespace IndexWriter

def writeText (tag text : String) : List Event :=
  if (tag = "name" || tag = "key" || tag = "symlink") && text.toList.any Text.isAsciiControl then
    [.start tag [("percentencoded", "true")], .text (Text.percentEncode text), .close tag]
  else [.start tag [], .text text, .close tag]

def writeU64 (tag : String) (value : UInt64) : List Event :=
  writeText tag (Text.decimal value)

def writeBool (tag : String) (value : Bool) : List Event :=
  writeText tag (if value then "true" else "false")

def writeLocation (tag : String) (location : IndexLocation) : List Event :=
  .start tag [] :: (writeText "partition" (String.ofList [location.partition]) ++
    writeU64 "startblock" location.startBlock ++ [.close tag])

def writeMeta (nodeMeta : NodeMeta) (fields : Fields) : List Event :=
  (if fields.has "readonly" then writeBool "readonly" nodeMeta.readonly else []) ++
  (if fields.has "creationtime" then writeText "creationtime" nodeMeta.creationTime else []) ++
  (if fields.has "changetime" then writeText "changetime" nodeMeta.changeTime else []) ++
  (if fields.has "modifytime" then writeText "modifytime" nodeMeta.modifyTime else []) ++
  (if fields.has "accesstime" then writeText "accesstime" nodeMeta.accessTime else []) ++
  (if fields.has "backuptime" then writeText "backuptime" nodeMeta.backupTime else []) ++
  (if fields.has "fileuid" then writeU64 "fileuid" nodeMeta.fileUid else [])

def writeXattr (xattr : Xattr) : List Event :=
  let attributes := if xattr.base64 then [("type", "base64")] else []
  .start "xattr" [] :: (writeText "key" xattr.key ++
    (if xattr.value.isEmpty then [.empty "value" attributes]
      else [.start "value" attributes, .text xattr.value, .close "value"]) ++ [.close "xattr"])

def writeXattrs (xattrs : List Xattr) : List Event :=
  if xattrs.isEmpty then []
  else .start "extendedattributes" [] :: (xattrs.flatMap writeXattr ++ [.close "extendedattributes"])

/-- The attribute set of a node; an increment says so explicitly when it is empty. -/
def writeNodeXattrs (xattrs : List Xattr) (fields : Fields) (incremental : Bool) : List Event :=
  if fields.has "extendedattributes" then
    writeXattrs xattrs ++
      (if xattrs.isEmpty && (incremental || fields.isSome) then [.empty "extendedattributes" []] else [])
  else []

def writeExtent (extent : Extent) : List Event :=
  .start "extent" [] :: (writeText "partition" (String.ofList [extent.partition]) ++
    writeU64 "startblock" extent.startBlock ++ writeU64 "byteoffset" extent.byteOffset ++
    writeU64 "bytecount" extent.byteCount ++ writeU64 "fileoffset" extent.fileOffset ++ [.close "extent"])

/-- The link target or the extents of a file; a link target replaces the extents. -/
def writePayload (file : FileNode) : List Event :=
  match file.symlink, file.deltaFields.has "symlink" with
  | some target, true => writeText "symlink" target
  | _, _ =>
    if file.deltaFields.has "extentinfo" then
      .start "extentinfo" [] :: (file.extents.flatMap writeExtent ++ [.close "extentinfo"])
    else []

def writeFile (file : FileNode) (incremental : Bool) : List Event :=
  .start "file" [] :: (writeText "name" file.name ++
    (if file.deltaFields.deleted then [.empty "deleted" []]
      else
        (if file.deltaFields.has "length" then writeU64 "length" file.length else []) ++
        writeMeta file.nodeMeta file.deltaFields ++
        writeNodeXattrs file.xattrs file.deltaFields incremental ++
        (match file.openForWrite with
          | some value => if file.deltaFields.has "openforwrite" then writeBool "openforwrite" value else []
          | none => []) ++
        writePayload file) ++ [.close "file"])

mutual
def writeDirectory (dir : DirectoryNode) (incremental : Bool) : List Event :=
  match dir with
  | ⟨deltaFields, name, nodeMeta, files, subdirs, xattrs⟩ =>
    .start "directory" [] :: (writeText "name" name ++
      (if deltaFields.deleted then [.empty "deleted" []]
        else
          writeMeta nodeMeta deltaFields ++
          writeNodeXattrs xattrs deltaFields incremental ++
          .start "contents" [] :: (files.flatMap (writeFile · incremental) ++
            writeDirectories subdirs incremental ++ [.close "contents"])) ++ [.close "directory"])

def writeDirectories : List DirectoryNode → Bool → List Event
  | [], _ => []
  | dir :: rest, incremental => writeDirectory dir incremental ++ writeDirectories rest incremental
end

def writeOptional {α : Type} (value : Option α) (write : α → List Event) : List Event :=
  match value with
  | some value => write value
  | none => []

def writeHeader (crates : Crates) (index : LtfsIndex) : List Event :=
  writeText "creator" index.creator ++
  writeOptional index.comment (writeText "comment") ++
  writeText "volumeuuid" (crates.uuidToString index.volumeUuid) ++
  writeU64 "generationnumber" index.generation ++
  writeText "updatetime" index.updateTime ++
  writeLocation "location" index.selfLocation ++
  writeOptional index.previousLocation (writeLocation "previousgenerationlocation") ++
  writeOptional index.previousIncrementalLocation (writeLocation "previousincrementallocation") ++
  (if index.incremental then [] else writeBool "allowpolicyupdate" index.allowPolicyUpdate) ++
  writeOptional index.volumeLockState (writeText "volumelockstate") ++
  writeU64 "highestfileuid" index.highestFileUid

def rootName (incremental : Bool) : String :=
  if incremental then "ltfsincrementalindex" else "ltfsindex"

def declaration : Event := .misc "xml version=\"1.0\" encoding=\"UTF-8\""

def document (crates : Crates) (index : LtfsIndex) : List Event :=
  declaration :: .start (rootName index.incremental) [("version", escape index.version)] ::
    (writeHeader crates index ++ writeDirectory index.root index.incremental ++
      [.close (rootName index.incremental)])

end IndexWriter

namespace LtfsIndex

open IndexWriter

def toXml (crates : Crates) (index : LtfsIndex) : Result (List UInt8) :=
  if index.incremental && index.materialized then
    .error (.ltfs "已重放视图不能作为原始增量序列化，请生成差分或完整检查点")
  else .ok (crates.xmlWrite (document crates index))

def xmlFitsWithin (crates : Crates) (index : LtfsIndex) (limit : Nat) : Result Bool := do
  let xml ← index.toXml crates
  return xml.length ≤ limit

end LtfsIndex

end TapeRs.Ltfs
