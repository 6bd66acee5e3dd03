import TapeRs.Crates
import TapeRs.Data.Percent
import TapeRs.Ltfs.Incremental

namespace TapeRs.Ltfs

open Xml

/-- Memory limits of a streaming scan, in bytes. -/
structure Limits where
  event : Nat := 64 * 1024 * 1024
  field : Nat := 64 * 1024 * 1024
  resident : Nat := 128 * 1024 * 1024
deriving DecidableEq, Repr

namespace Limits

def exceeded : TapeError := .localCapacity "流式索引 XML 事件、字段或当前节点元数据超过内存预算"

end Limits

/-- Metadata kept for the open nodes of a streaming scan, the innermost node first. -/
structure MetadataBudget where
  limits : Limits := {}
  nodes : List Nat := []
  resident : Nat := 0
  header : Nat := 0
deriving DecidableEq, Repr

namespace MetadataBudget

def charge (budget : MetadataBudget) (bytes : Nat) : Result MetadataBudget :=
  match budget.nodes with
  | node :: outer =>
    if budget.resident + bytes ≤ budget.limits.resident then
      .ok { budget with nodes := (node + bytes) :: outer, resident := budget.resident + bytes }
    else .error Limits.exceeded
  | [] =>
    if budget.header + bytes ≤ budget.limits.resident then .ok { budget with header := budget.header + bytes }
    else .error Limits.exceeded

def start (budget : MetadataBudget) (node : Bool) (bytes : Nat) : Result MetadataBudget :=
  charge (if node then { budget with nodes := 0 :: budget.nodes } else budget) (bytes + 64)

def endNode (budget : MetadataBudget) : Result MetadataBudget :=
  match budget.nodes with
  | node :: outer =>
    if node ≤ budget.resident then .ok { budget with nodes := outer, resident := budget.resident - node }
    else .error Limits.exceeded
  | [] => .error Limits.exceeded

def text (budget : MetadataBudget) (existing added : Nat) : Result Unit :=
  if existing + added ≤ budget.limits.field then .ok () else .error Limits.exceeded

end MetadataBudget

/-- A node of a streaming scan with its path from the volume root. -/
inductive IndexEntry where
  | file (path : String) (node : FileNode)
  | directory (path : String) (node : DirectoryNode)
deriving DecidableEq

/-- The part of the parser a streaming scan uses. -/
structure StreamState where
  resources : MetadataBudget := {}
  streaming : Bool := false
  incrementalStream : Option Bool := some false
  rootSeen : Bool := false
  pendingEntry : Option IndexEntry := none
deriving DecidableEq

/-- The header of the index as far as it has been read. -/
structure HeaderState where
  incremental : Bool := false
  version : String := ""
  creator : String := ""
  comment : Option String := none
  volumeUuid : Option Uuid := none
  generation : UInt64 := 0
  updateTime : String := ""
  selfLocation : Option IndexLocation := none
  previousLocation : Option IndexLocation := none
  previousIncrementalLocation : Option IndexLocation := none
  allowPolicyUpdate : Bool := true
  highestFileUid : UInt64 := 0
  volumeLockState : Option String := none
  headerFields : Finset String := ∅
deriving DecidableEq

/-- Stacks have their top first. -/
structure IndexParser where
  stream : StreamState := {}
  header : HeaderState := {}
  path : List String := []
  text : String := ""
  percentEncoded : Finset Nat := ∅
  unknownElements : List String := []
  dirStack : List DirectoryNode := []
  fileStack : List FileNode := []
  curExtent : Option Extent := none
  curLocation : Option IndexLocation := none
  curLocationTag : Option String := none
  curXattr : Option Xattr := none
deriving DecidableEq

def knownElements : List String :=
  ["ltfsincrementalindex", "previousincrementallocation", "deleted", "comment", "openforwrite", "ltfsindex",
    "creator", "volumeuuid", "generationnumber", "updatetime", "location", "previousgenerationlocation",
    "allowpolicyupdate", "volumelockstate", "highestfileuid", "directory", "contents", "file", "name", "length",
    "readonly", "creationtime", "changetime", "modifytime", "accesstime", "backuptime", "fileuid",
    "extendedattributes", "xattr", "key", "value", "symlink", "extentinfo", "extent", "partition", "startblock",
    "byteoffset", "bytecount", "fileoffset"]

namespace IndexParser

def nestingLimit : Nat := 2 * (1024 + 1) + 8

def locationTags : List String := ["location", "previousgenerationlocation", "previousincrementallocation"]

def encodedTags : List String := ["name", "key", "symlink"]

def numericTags : List String :=
  ["length", "fileuid", "generationnumber", "highestfileuid", "startblock", "byteoffset", "bytecount", "fileoffset"]

def containerTags : List String :=
  ["ltfsindex", "ltfsincrementalindex", "directory", "contents", "file", "extendedattributes", "xattr", "extentinfo",
    "extent", "location", "previousgenerationlocation", "previousincrementallocation"]

def noteUnknown (p : IndexParser) (name : String) : Result IndexParser :=
  if name ∉ knownElements ∧ name ∉ p.unknownElements then
    if p.stream.streaming then .error (.ltfs ("逐条扫描遇到无法保真的索引元素: " ++ name))
    else .ok { p with unknownElements := p.unknownElements ++ [name] }
  else .ok p

def emptyFields (p : IndexParser) : Fields :=
  if p.header.incremental then some ∅ else none

def freshExtent : Extent :=
  { partition := 'b', startBlock := 0, byteOffset := 0, byteCount := 0, fileOffset := 0 }

def freshLocation : IndexLocation :=
  { partition := 'b', startBlock := 0 }

def startRoot (p : IndexParser) (name : String) (attributes : Attributes) : Result IndexParser :=
  if p.stream.streaming && name = "ltfsincrementalindex" && p.stream.incrementalStream = some false then
    .error (.ltfs "逐条扫描仅支持完整索引；增量索引须先重放")
  else if p.stream.streaming && name = "ltfsindex" && p.stream.incrementalStream = some true then
    .error (.ltfs "增量逐条扫描收到完整索引")
  else
    .ok { p with header := { p.header with
      incremental := name = "ltfsincrementalindex"
      version := attributes.foldl (fun version a => if a.1 = "version" then a.2 else version) p.header.version } }

def startDirectory (p : IndexParser) : Result IndexParser :=
  if p.stream.streaming && (p.path.head? = some "ltfsindex" || p.path.head? = some "ltfsincrementalindex") &&
      p.stream.rootSeen then
    .error (.ltfs "完整索引包含多个根目录")
  else .ok { p with dirStack := { deltaFields := p.emptyFields } :: p.dirStack }

def startElement (p : IndexParser) (name : String) (attributes : Attributes) : Result IndexParser :=
  if name = "ltfsindex" || name = "ltfsincrementalindex" then p.startRoot name attributes
  else if name = "directory" then p.startDirectory
  else if name = "file" then .ok { p with fileStack := { deltaFields := p.emptyFields } :: p.fileStack }
  else if name = "xattr" then .ok { p with curXattr := some { key := "", value := "", base64 := false } }
  else if name = "value" then
    .ok { p with curXattr := p.curXattr.map (fun x =>
      { x with base64 := attributes.any (fun a => a.1 = "type" && a.2 = "base64") }) }
  else if name = "extent" then .ok { p with curExtent := some freshExtent }
  else if name ∈ locationTags then .ok { p with curLocation := some freshLocation, curLocationTag := some name }
  else .ok p

def whenStreaming (p : IndexParser) (charge : MetadataBudget → Result MetadataBudget) : Result IndexParser :=
  if p.stream.streaming then do
    let resources ← charge p.stream.resources
    .ok { p with stream := { p.stream with resources } }
  else .ok p

def markEncoded (p : IndexParser) (name : String) (attributes : Attributes) : IndexParser :=
  if decide (name ∈ encodedTags) && attributes.any (fun a => a.1 = "percentencoded" && (a.2 = "true" || a.2 = "1")) then
    { p with percentEncoded := insert p.path.length p.percentEncoded }
  else p

def onStart (p : IndexParser) (name : String) (attributes : Attributes) (size : Nat) : Result IndexParser := do
  let p ← p.whenStreaming (·.start (name = "directory" || name = "file") size)
  if nestingLimit ≤ p.path.length then .error (.localCapacity "索引 XML 嵌套深度超过预算")
  else do
    let p ← (markEncoded { p with text := "" } name attributes).noteUnknown name
    if name = "deleted" && !p.header.incremental then .error (.ltfs "完整索引不能包含 deleted")
    else if p.header.incremental && (name = "allowpolicyupdate" || name = "dataplacementpolicy") then
      .error (.ltfs "增量索引不允许放置策略")
    else do
      let p ← p.startElement name attributes
      .ok { p with path := name :: p.path }

def ignoresLayoutText (p : IndexParser) (text : String) : Bool :=
  p.stream.streaming && (Text.trim text).isEmpty &&
    match p.path.head? with
    | none => true
    | some tag => tag ∈ containerTags

def onText (p : IndexParser) (text : String) : Result IndexParser := do
  let p ← p.whenStreaming fun budget => do
    budget.text p.text.utf8ByteSize text.utf8ByteSize
    .ok budget
  .ok { p with text := p.text ++ text }

def parseIndexU64 (tag text : String) : Result UInt64 :=
  match Text.parseU64 text with
  | some value => .ok value
  | none => .error (.ltfs ("索引数值非法: " ++ tag ++ "=" ++ text.quote))

def parseIndexPartition (text : String) : Result Char :=
  match Text.asciiLetter text with
  | some letter => .ok letter
  | none => .error (.ltfs ("索引 partition 非法: " ++ text.quote))

def decodeName (text : String) : Result String :=
  match Text.percentDecode text with
  | .ok name => .ok name
  | .error .truncated => .error (.ltfs "名称百分号编码截断")
  | .error .notHex => .error (.ltfs "invalid digit found in string")
  | .error .notUtf8 => .error (.ltfs "invalid utf-8 sequence")

/-- Records an element in an explicit field set; `none` when it is there already. -/
def recordField (fields : Fields) (name : String) : Option Fields :=
  match fields with
  | none => some none
  | some names => if name ∈ names then none else some (some (insert name names))

def noteField (p : IndexParser) (name parent : String) : Option IndexParser :=
  if parent = "file" then
    match p.fileStack with
    | [] => some p
    | file :: rest =>
      (recordField file.deltaFields name).map fun deltaFields =>
        { p with fileStack := { file with deltaFields } :: rest }
  else if parent = "directory" then
    match p.dirStack with
    | [] => some p
    | dir :: rest =>
      (recordField dir.deltaFields name).map fun deltaFields =>
        { p with dirStack := { dir with deltaFields } :: rest }
  else some p

def noteHeader (p : IndexParser) (name parent : String) : Result IndexParser :=
  if parent = "ltfsincrementalindex" then
    if name ∈ p.header.headerFields then .error (.ltfs ("增量头字段重复: " ++ name))
    else .ok { p with header := { p.header with headerFields := insert name p.header.headerFields } }
  else .ok p

def endIncremental (p : IndexParser) (name parent trimmed : String) : Result IndexParser := do
  let p ← p.noteHeader name parent
  if (name = "readonly" || name = "openforwrite") && trimmed ∉ ["true", "false", "1", "0"] then
    .error (.ltfs "增量 readonly 非法")
  else if name = "partition" && (Text.asciiLetter trimmed).isNone then
    .error (.ltfs "增量 partition 非法")
  else if name ∈ numericTags && (Text.parseU64 trimmed).isNone then
    .error (.ltfs ("增量数值非法: " ++ name))
  else
    match p.noteField name parent with
    | none => .error (.ltfs ("增量字段重复: " ++ name))
    | some p => if name = "deleted" && !trimmed.isEmpty then .error (.ltfs "deleted 必须为空元素") else .ok p

def checkElement (p : IndexParser) (name parent trimmed : String) : Result IndexParser :=
  if p.header.incremental then p.endIncremental name parent trimmed else .ok p

def endLocationField (p : IndexParser) (name parent trimmed : String) : Result IndexParser :=
  match p.curLocation with
  | none => .ok p
  | some location =>
    if parent ∉ locationTags then .ok p
    else if name = "partition" then do
      let partition ← parseIndexPartition trimmed
      .ok { p with curLocation := some { location with partition } }
    else if name = "startblock" then do
      let startBlock ← parseIndexU64 name trimmed
      .ok { p with curLocation := some { location with startBlock } }
    else .ok p

def closeLocation (p : IndexParser) : IndexParser :=
  let taken := { p with curLocation := none, curLocationTag := none }
  match p.curLocation, p.curLocationTag with
  | some location, some tag =>
    if tag = "location" then { taken with header := { p.header with selfLocation := some location } }
    else if tag = "previousincrementallocation" then
      { taken with header := { p.header with previousIncrementalLocation := some location } }
    else { taken with header := { p.header with previousLocation := some location } }
  | _, _ => taken

def endExtentField (p : IndexParser) (name parent trimmed : String) : Result IndexParser :=
  match p.curExtent with
  | none => .ok p
  | some extent =>
    if parent ≠ "extent" then .ok p
    else if name = "partition" then do
      let partition ← parseIndexPartition trimmed
      .ok { p with curExtent := some { extent with partition } }
    else if name = "startblock" then do
      let startBlock ← parseIndexU64 name trimmed
      .ok { p with curExtent := some { extent with startBlock } }
    else if name = "byteoffset" then do
      let byteOffset ← parseIndexU64 name trimmed
      .ok { p with curExtent := some { extent with byteOffset } }
    else if name = "bytecount" then do
      let byteCount ← parseIndexU64 name trimmed
      .ok { p with curExtent := some { extent with byteCount } }
    else if name = "fileoffset" then do
      let fileOffset ← parseIndexU64 name trimmed
      .ok { p with curExtent := some { extent with fileOffset } }
    else .ok p

def closeExtent (p : IndexParser) : IndexParser :=
  match p.curExtent, p.fileStack with
  | some extent, file :: rest =>
    { p with curExtent := none, fileStack := { file with extents := file.extents ++ [extent] } :: rest }
  | _, _ => { p with curExtent := none }

def endXattrField (p : IndexParser) (name text : String) : IndexParser :=
  { p with curXattr := p.curXattr.map fun x =>
      if name = "key" then { x with key := text } else if name = "value" then { x with value := text } else x }

/-- An attribute belongs to the open file, or to the open directory when no file is open. -/
def closeXattr (p : IndexParser) : IndexParser :=
  match p.curXattr, p.fileStack, p.dirStack with
  | some x, file :: rest, _ =>
    { p with curXattr := none, fileStack := { file with xattrs := file.xattrs ++ [x] } :: rest }
  | some x, [], dir :: rest =>
    { p with curXattr := none, dirStack := { dir with xattrs := dir.xattrs ++ [x] } :: rest }
  | _, _, _ => { p with curXattr := none }

def applyMeta (m : NodeMeta) (tag text : String) : Result NodeMeta :=
  if tag = "readonly" then .ok { m with readonly := text = "true" || text = "1" || text = "yes" }
  else if tag = "creationtime" then .ok { m with creationTime := text }
  else if tag = "changetime" then .ok { m with changeTime := text }
  else if tag = "modifytime" then .ok { m with modifyTime := text }
  else if tag = "accesstime" then .ok { m with accessTime := text }
  else if tag = "backuptime" then .ok { m with backupTime := text }
  else if tag = "fileuid" then do
    let fileUid ← parseIndexU64 tag text
    .ok { m with fileUid }
  else .ok m

def setFileField (file : FileNode) (name text trimmed : String) : Result FileNode :=
  if name = "name" then .ok { file with name := text }
  else if name = "length" then do
    let length ← parseIndexU64 name trimmed
    .ok { file with length }
  else if name = "symlink" then .ok { file with symlink := some text }
  else if name = "openforwrite" then .ok { file with openForWrite := some (trimmed = "true" || trimmed = "1") }
  else do
    let nodeMeta ← applyMeta file.nodeMeta name trimmed
    .ok { file with nodeMeta }

def endFileField (p : IndexParser) (name parent text trimmed : String) : Result IndexParser :=
  match p.fileStack with
  | [] => .ok p
  | file :: rest =>
    if parent ≠ "file" then .ok p
    else do
      let file ← setFileField file name text trimmed
      .ok { p with fileStack := file :: rest }

def setDirectoryField (dir : DirectoryNode) (name text trimmed : String) : Result DirectoryNode :=
  if name = "name" then .ok { dir with name := text }
  else do
    let nodeMeta ← applyMeta dir.nodeMeta name trimmed
    .ok { dir with nodeMeta }

def endDirectoryField (p : IndexParser) (name parent text trimmed : String) : Result IndexParser :=
  match p.dirStack with
  | [] => .ok p
  | dir :: rest =>
    if parent ≠ "directory" then .ok p
    else do
      let dir ← setDirectoryField dir name text trimmed
      .ok { p with dirStack := dir :: rest }

def setHeaderField (crates : Crates) (h : HeaderState) (name text trimmed : String) : Result HeaderState :=
  if name = "creator" then .ok { h with creator := trimmed }
  else if name = "comment" then .ok { h with comment := some text }
  else if name = "volumeuuid" then .ok { h with volumeUuid := crates.uuidParse trimmed }
  else if name = "generationnumber" then do
    let generation ← parseIndexU64 name trimmed
    .ok { h with generation }
  else if name = "updatetime" then .ok { h with updateTime := trimmed }
  else if name = "allowpolicyupdate" then
    .ok { h with allowPolicyUpdate := trimmed = "true" || trimmed = "1" || trimmed = "yes" }
  else if name = "highestfileuid" then do
    let highestFileUid ← parseIndexU64 name trimmed
    .ok { h with highestFileUid }
  else if name = "volumelockstate" then .ok { h with volumeLockState := some trimmed }
  else .ok h

def endHeaderField (crates : Crates) (p : IndexParser) (name parent text trimmed : String) : Result IndexParser :=
  if parent ≠ "ltfsindex" ∧ parent ≠ "ltfsincrementalindex" then .ok p
  else do
    let header ← setHeaderField crates p.header name text trimmed
    .ok { p with header }

/-- Path of a node below the open directories; the root directory has no component. -/
def entryPath (p : IndexParser) (name : String) : String :=
  let path := (p.dirStack.reverse.drop 1).foldl (fun path dir =>
    (if path.isEmpty then path else path ++ "/") ++ dir.name) ""
  if name.isEmpty then path else (if path.isEmpty then path else path ++ "/") ++ name

def closeFile (p : IndexParser) : Result IndexParser :=
  match p.fileStack, p.dirStack with
  | file :: files, dir :: dirs =>
    if p.stream.streaming then
      .ok { p with
        fileStack := files
        stream := { p.stream with pendingEntry := some (.file (p.entryPath file.name) file) } }
    else .ok { p with fileStack := files, dirStack := { dir with files := dir.files ++ [file] } :: dirs }
  | files, _ =>
    if p.stream.streaming then .error (.ltfs "索引文件缺少父目录") else .ok { p with fileStack := files.tail }

/-- A streaming scan hands the directory out; the root stays on the stack for the header. -/
def emitDirectory (p : IndexParser) (done : DirectoryNode) (outer : List DirectoryNode) : IndexParser :=
  match outer with
  | [] =>
    { p with stream := { p.stream with
        rootSeen := true, pendingEntry := some (.directory "" { done with name := "" }) } }
  | _ =>
    let path := entryPath { p with dirStack := outer } done.name
    { p with dirStack := outer, stream := { p.stream with pendingEntry := some (.directory path done) } }

def attachDirectory (p : IndexParser) (done : DirectoryNode) (outer : List DirectoryNode) : IndexParser :=
  match outer with
  | parent :: rest => { p with dirStack := { parent with subdirs := parent.subdirs ++ [done] } :: rest }
  | [] => p

def closeDirectory (p : IndexParser) : IndexParser :=
  match p.dirStack with
  | [] => p
  | done :: outer => if p.stream.streaming then p.emitDirectory done outer else p.attachDirectory done outer

def endElement (crates : Crates) (p : IndexParser) (name parent text : String) : Result IndexParser := do
  let p ← p.checkElement name parent (Text.trim text)
  let p ← p.endLocationField name parent (Text.trim text)
  if name ∈ locationTags then .ok p.closeLocation
  else do
    let p ← p.endExtentField name parent (Text.trim text)
    if name = "extent" then .ok p.closeExtent
    else if parent = "xattr" then .ok (p.endXattrField name text)
    else if name = "xattr" then .ok p.closeXattr
    else do
      let p ← p.endFileField name parent text (Text.trim text)
      let p ← p.endDirectoryField name parent text (Text.trim text)
      let p ← endHeaderField crates p name parent text (Text.trim text)
      if name = "file" then p.closeFile
      else if name = "directory" then .ok p.closeDirectory
      else .ok p

def takeText (p : IndexParser) (depth : Nat) : Result String :=
  if depth ∈ p.percentEncoded then decodeName p.text else .ok p.text

def onEnd (crates : Crates) (p : IndexParser) : Result IndexParser := do
  let name := p.path.headD ""
  let path := p.path.tail
  let p ← p.whenStreaming fun budget =>
    if name = "file" || name = "directory" then budget.endNode else .ok budget
  let text ← p.takeText path.length
  endElement crates { p with path, text := "", percentEncoded := p.percentEncoded.erase path.length }
    name (path.headD "") text

def requiredHeader : List String :=
  ["creator", "volumeuuid", "generationnumber", "updatetime", "location", "previousgenerationlocation",
    "highestfileuid", "directory"]

def missingHeader (h : HeaderState) : Option String :=
  if h.incremental then requiredHeader.find? (· ∉ h.headerFields) else none

def finish (p : IndexParser) : Result LtfsIndex :=
  if !p.path.isEmpty || (p.header.incremental && p.header.selfLocation.isNone) then
    .error (.ltfs "索引 XML 截断或缺少 location")
  else
    match missingHeader p.header, p.header.volumeUuid, p.dirStack with
    | some key, _, _ => .error (.ltfs ("增量缺少 " ++ key))
    | none, none, _ => .error (.ltfs "index 缺少 volumeuuid")
    | none, some _, [] => .error (.ltfs "index 缺少 root directory")
    | none, some volumeUuid, root :: _ =>
      .ok
        { incremental := p.header.incremental
          materialized := false
          previousIncrementalLocation := p.header.previousIncrementalLocation
          comment := p.header.comment
          version := if p.header.version.isEmpty then ltfsVersion else p.header.version
          creator := p.header.creator
          volumeUuid
          generation := p.header.generation
          updateTime := p.header.updateTime
          selfLocation := p.header.selfLocation.getD freshLocation
          previousLocation := p.header.previousLocation
          allowPolicyUpdate := p.header.allowPolicyUpdate
          highestFileUid := p.header.highestFileUid
          volumeLockState := p.header.volumeLockState
          unknownElements := p.unknownElements
          root }

def handle (crates : Crates) (p : IndexParser) (event : Event) (size : Nat) : Result IndexParser :=
  match event with
  | .start tag attributes => p.onStart tag attributes size
  | .empty tag attributes => do
    let p ← p.onStart tag attributes size
    p.onEnd crates
  | .close _ => do
    let p ← p.whenStreaming (·.charge size)
    p.onEnd crates
  | .text content | .cdata content =>
    if p.ignoresLayoutText content then .ok p
    else do
      let p ← p.whenStreaming (·.charge size)
      p.onText content
  | .misc _ => .ok p

end IndexParser

/-- How an index is read: as a tree, or entry by entry with or without the check of paths. -/
structure ScanMode where
  streaming : Bool
  incrementalStream : Option Bool
  checkPaths : Bool
  limits : Limits := {}
deriving DecidableEq, Repr

namespace IndexEntry

def path : IndexEntry → String
  | .file path _ => path
  | .directory path _ => path

def validateIncremental : IndexEntry → Result Unit
  | .file _ node => Incremental.validateFile node
  | .directory path node => Incremental.validateFields node.deltaFields node.name true path.isEmpty

end IndexEntry

namespace ScanMode

def tree : ScanMode := { streaming := false, incrementalStream := some false, checkPaths := true }

def full : ScanMode := { streaming := true, incrementalStream := some false, checkPaths := true }

def increment : ScanMode := { streaming := true, incrementalStream := some true, checkPaths := true }

def initial (mode : ScanMode) : IndexParser :=
  { stream := { streaming := mode.streaming, incrementalStream := mode.incrementalStream
                resources := { limits := mode.limits } } }

/-- Discovery mode learns from the first tag whether the document is an increment. -/
def discover (mode : ScanMode) (p : IndexParser) (event : Event) : IndexParser :=
  match event with
  | .start tag _ =>
    if mode.incrementalStream.isNone && p.path.isEmpty then
      { p with stream := { p.stream with incrementalStream := some (tag = "ltfsincrementalindex") } }
    else p
  | _ => p

def emit (mode : ScanMode) (p : IndexParser) (seen : List String) (entry : IndexEntry) : Result (List String) :=
  if p.stream.incrementalStream = some true then do
    entry.validateIncremental
    if mode.checkPaths && entry.path ∈ seen then .error (.ltfs "增量索引包含重复路径")
    else .ok (entry.path :: seen)
  else .ok seen

def scan (crates : Crates) (mode : ScanMode) :
    IndexParser → List String → List ReadEvent → Result (IndexParser × List IndexEntry)
  | p, _, [] => .ok (p, [])
  | p, seen, read :: rest =>
    if mode.streaming && mode.limits.event < read.consumed then .error Limits.exceeded
    else do
      let p ← (mode.discover p read.event).handle crates read.event read.size
      match p.stream.pendingEntry with
      | none => mode.scan crates p seen rest
      | some entry => do
        let seen ← mode.emit p seen entry
        let (p, entries) ← mode.scan crates { p with stream := { p.stream with pendingEntry := none } } seen rest
        .ok (p, entry :: entries)

def parseWith (crates : Crates) (mode : ScanMode) (xml : List UInt8) : Result (LtfsIndex × List IndexEntry) := do
  let read := crates.xmlRead xml
  let (p, entries) ← mode.scan crates mode.initial [] read.events
  match read.failure with
  | some message => .error (.xmlSource message)
  | none => do
    let index ← p.finish
    if mode.streaming && index.incremental ≠ p.stream.incrementalStream.getD false then
      .error (.ltfs "逐条扫描的索引类型不匹配")
    else do
      index.validateIncremental
      if mode.streaming && !index.unknownElements.isEmpty then
        .error (.ltfs ("逐条扫描遇到无法保真的索引元素: " ++ ", ".intercalate index.unknownElements))
      else .ok (index, entries)

end ScanMode

namespace LtfsIndex

def parse (crates : Crates) (xml : List UInt8) : Result LtfsIndex :=
  Prod.fst <$> ScanMode.tree.parseWith crates xml

def scanFull (crates : Crates) (xml : List UInt8) : Result (LtfsIndex × List IndexEntry) :=
  ScanMode.full.parseWith crates xml

def scanIncremental (crates : Crates) (xml : List UInt8) : Result (LtfsIndex × List IndexEntry) :=
  ScanMode.increment.parseWith crates xml

end LtfsIndex

end TapeRs.Ltfs
