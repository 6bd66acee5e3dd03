import TapeRs.Data.Op
import TapeRs.Ltfs.IndexWriter
import TapeRs.Ltfs.Placement
import TapeRs.Ltfs.Report

open TapeRs.Keyed

namespace TapeRs.Ltfs

open DirectoryNode Namespace

/-- The third-party functions that volume operations call beside the index codec. -/
structure Host where
  crates : Crates
  md5 : List UInt8 → List UInt8
  sha256 : List UInt8 → List UInt8
  /-- The canonical nanosecond text of a timestamp that chrono parses. -/
  nanos : String → Option String

structure ReservationKey where
  value : UInt64
deriving DecidableEq

structure VolumeCoherencyInfo where
  vcr : List UInt8
  generation : UInt64
  block : UInt64
  volumeUuid : Uuid
deriving DecidableEq

/-- The commands that reach the drive, over whatever state `δ` it has; each may fail. -/
structure Drive (δ : Type) where
  verifyHolder : ReservationKey → Op δ TapeError Unit
  locate : Nat → UInt64 → Op δ TapeError Unit
  locateIfNeeded : Nat → UInt64 → Op δ TapeError Unit
  readPosition : Op δ TapeError (Nat × UInt64)
  /-- A block of at most the given size; nothing is read from a filemark. -/
  readBlock : Nat → Op δ TapeError (List UInt8)
  writeBlock : List UInt8 → Op δ TapeError Nat
  writeFilemark : Nat → Op δ TapeError Unit
  writeFilemarkImmediate : Nat → Op δ TapeError Unit
  appendOnlyMode : Op δ TapeError Bool
  allowOverwriteCurrent : Nat → UInt64 → Op δ TapeError Unit
  readVcr : Op δ TapeError (Option (List UInt8))
  writeVci : Nat → VolumeCoherencyInfo → Op δ TapeError Unit

structure CommittedIndexConstruct where
  volumeUuid : Uuid
  generation : UInt64
  location : IndexLocation
  sha256 : List UInt8
  incremental : Bool
deriving DecidableEq

structure HashPolicy where
  md5 : Bool := false
  sha256 : Bool := true
deriving DecidableEq

/-- `working` holds the changes that are not committed yet, `index` the published view. -/
structure Volume where
  label : Label
  working : LtfsIndex
  index : LtfsIndex
  committedConstruct : CommittedIndexConstruct
  p1WriteHead : UInt64
  dirty : Bool
  lastDpIndex : Option IndexLocation
  lastDpIncremental : Option IndexLocation
  lastIp : Option (UInt64 × UInt64)
  incrementalDepth : UInt32
  incrementalLimit : UInt32
  recovery : RecoveryReport
  writable : Bool
  restrictedReason : Option String
  hashPolicy : HashPolicy
  reservationGuard : Option ReservationKey
deriving DecidableEq

def p1DataStart : UInt64 := 4

def p0IndexBlock : UInt64 := 5

namespace Volume

def locked (index : LtfsIndex) : Bool :=
  match index.volumeLockState with
  | none => false
  | some lock => lock ≠ "unlocked"

def mount (label : Label) (report : RecoveryReport) (maxChainLen : UInt32) : Result Volume :=
  match report.restrictedReason, report.view with
  | none, some view =>
    let index := view.index
    let lossy := !index.unknownElements.isEmpty
    let writable := report.appendOk && !lossy && !locked index
    .ok {
      label
      working := index
      index
      committedConstruct :=
        { volumeUuid := index.volumeUuid, generation := index.generation, location := index.selfLocation
          sha256 := view.constructSha256, incremental := index.incremental }
      p1WriteHead := max report.dp.eod p1DataStart
      dirty := false
      lastDpIndex := report.dp.lastIndex.bind fun candidate =>
        if candidate.index.incremental then candidate.index.previousLocation else some candidate.index.selfLocation
      lastDpIncremental := (report.dp.lastIndex.filter (·.index.incremental)).map (·.index.selfLocation)
      lastIp := report.ip.lastIndex.map fun candidate => (candidate.index.generation, candidate.startBlock)
      incrementalDepth := report.incrementalDepth
      incrementalLimit := min 5 maxChainLen
      recovery := report
      writable
      restrictedReason :=
        if writable then none
        else if locked index then
          some ("卷已锁定 (volumelockstate=" ++ index.volumeLockState.getD "" ++ ")，只读挂载")
        else if lossy then
          some ("索引含本实现不会回写的元素，只读挂载: " ++ ", ".intercalate index.unknownElements)
        else
          some ("恢复只读: dp_tail=" ++ report.dp.tail.debug ++ " ip_tail=" ++ report.ip.tail.debug)
      hashPolicy := {}
      reservationGuard := none }
  | some reason, _ => .error (.recoveryRestricted reason)
  -- A view without a reason to withhold it is always there.
  | none, none => .error (.recoveryRestricted "两个分区都没有有效索引")

def freeze (stage : String) (error : TapeError) (volume : Volume) : Volume :=
  { volume with
    writable := false
    restrictedReason := some ("提交在 " ++ stage ++ " 阶段失败，结果未定: " ++ error.display) }

def loseReservation (error : TapeError) (volume : Volume) : Volume :=
  { volume with writable := false, restrictedReason := some ("执行资格已失去: " ++ error.display) }

def edited (volume : Volume) (working : LtfsIndex) : Volume :=
  { volume with working, dirty := true }

end Volume

/-- A volume and the drive it is mounted in. -/
structure Mounted (δ : Type) where
  volume : Volume
  device : δ

abbrev VolumeOp (δ : Type) := Op (Mounted δ) TapeError

namespace Mounted

variable {δ ε α : Type}

def send (command : Op δ ε α) : Op (Mounted δ) ε α := fun state =>
  let answer := command state.device
  (answer.1, { state with device := answer.2 })

def onVolume (f : Volume → Volume) (state : Mounted δ) : Mounted δ := { state with volume := f state.volume }

def ensureWritable : VolumeOp δ Unit := do
  let state ← Op.get
  if state.volume.writable then pure ()
  else Op.throw (.recoveryRestricted (state.volume.restrictedReason.getD "卷为只读"))

def checkReservationGuard (drive : Drive δ) : VolumeOp δ Unit := do
  let state ← Op.get
  match state.volume.reservationGuard with
  | none => pure ()
  | some key => (send (drive.verifyHolder key)).onError id fun error => onVolume (.loseReservation error)

end Mounted

/-- Logical attributes carried over to a new copy of a file. -/
structure FileMetadata where
  nodeMeta : NodeMeta
  xattrs : List Xattr
deriving DecidableEq

/-- What a source hands over block by block, and how it ends. -/
structure BlockSource where
  blocks : List (List UInt8)
  failure : Option TapeError := none

def xattrMd5 : String := "ltfs.hash.md5sum"

def xattrSha256 : String := "ltfs.hash.sha256sum"

def hex (bytes : List UInt8) : String :=
  String.ofList (bytes.flatMap fun byte => [Nat.digitChar (byte.toNat / 16), Nat.digitChar (byte.toNat % 16)])

def splitPath (path : String) : Result (List String × String) :=
  match splitLast (Text.components path) with
  | some found => .ok found
  | none => .error (.ltfs "文件路径为空")

namespace Volume

def hashes (policy : Bool) (preserved : Option FileMetadata) (key : String) : Bool :=
  policy || preserved.any fun kept => kept.xattrs.any (·.key = key)

/-- The attributes of a new file; content hashes are those of the written bytes or absent. -/
def fileXattrs (host : Host) (volume : Volume) (bytes : List UInt8) (xattrs : List (String × String))
    (preserved : Option FileMetadata) : List Xattr :=
  let given := xattrs.foldl (fun all pair => setXattr pair.1 pair.2 all) ((preserved.map (·.xattrs)).getD [])
  let plain := given.filter fun attr => attr.key ≠ xattrMd5 && attr.key ≠ xattrSha256
  let withMd5 := if hashes volume.hashPolicy.md5 preserved xattrMd5 then setXattr xattrMd5 (hex (host.md5 bytes)) plain
    else plain
  if hashes volume.hashPolicy.sha256 preserved xattrSha256 then setXattr xattrSha256 (hex (host.sha256 bytes)) withMd5
  else withMd5

/-- Metadata of a new node: the given one under a new identifier, or five times the present. -/
def newMeta (preserved : Option FileMetadata) (now : String) (uid : UInt64) : NodeMeta :=
  match preserved with
  | some kept => { kept.nodeMeta with fileUid := uid }
  | none => .now now uid false

def appendedNode (host : Host) (now : String) (volume : Volume) (source : BlockSource) (xattrs : List (String × String))
    (preserved : Option FileMetadata) (name : String) : FileNode :=
  let bytes := source.blocks.flatten
  let byteCount := UInt64.ofNat bytes.length
  { name
    length := byteCount
    nodeMeta := newMeta preserved now (volume.working.highestFileUid + 1)
    extents :=
      if 0 < byteCount then
        [{ partition := volume.label.dataPartition, startBlock := volume.p1WriteHead, byteOffset := 0, byteCount
           fileOffset := 0 }]
      else []
    xattrs := fileXattrs host volume bytes xattrs preserved }

def appended (host : Host) (clock : Clock) (volume : Volume) (source : BlockSource) (xattrs : List (String × String))
    (preserved : Option FileMetadata) (dirs : List String) (name : String) : Volume :=
  { volume with
    p1WriteHead := volume.p1WriteHead + UInt64.ofNat source.blocks.length
    working := volume.working.register (fun reading => clock (reading + 1)) dirs
      (volume.appendedNode host (clock 0) source xattrs preserved name)
    dirty := true }

def spent (volume : Volume) : Volume :=
  { volume with working := { volume.working with highestFileUid := volume.working.highestFileUid + 1 } }

def linkNode (now : String) (volume : Volume) (target : String) (preserved : Option FileMetadata) (name : String) :
    FileNode :=
  { name
    nodeMeta := newMeta preserved now (volume.working.highestFileUid + 1)
    symlink := some target
    xattrs := (preserved.map (·.xattrs)).getD [] }

def linked (clock : Clock) (volume : Volume) (target : String) (preserved : Option FileMetadata) (dirs : List String)
    (name : String) : Volume :=
  volume.edited (volume.working.register (fun reading => clock (reading + 1)) dirs
    (volume.linkNode (clock 0) target preserved name))

end Volume

namespace Mounted

variable {δ : Type} (drive : Drive δ) (host : Host) (clock : Clock)

def writeRecords : List (List UInt8) → Option TapeError → VolumeOp δ Unit
  | [], none => pure ()
  | [], some error => (Op.throw error).onError id fun error => onVolume (.freeze "data_source" error)
  | block :: rest, failure => do
    let written ← (send (drive.writeBlock block)).onError id fun error => onVolume (.freeze "data_records" error)
    if written = block.length then writeRecords rest failure
    else
      (Op.throw (.invalidResponse block.length written)).onError id fun error =>
        onVolume (.freeze "data_records" error)

def appendBlocks (path : String) (source : BlockSource) (xattrs : List (String × String))
    (preserved : Option FileMetadata) : VolumeOp δ UInt64 := do
  ensureWritable
  if path.isEmpty || path.toList.getLast? = some '/' then Op.throw (.ltfs ("非法文件路径: " ++ path))
  else do
    checkReservationGuard drive
    let state ← Op.get
    send (drive.locateIfNeeded 1 state.volume.p1WriteHead)
    writeRecords drive source.blocks source.failure
    match splitPath path with
    | .ok (dirs, name) => do
      Op.modify (onVolume (·.appended host clock source xattrs preserved dirs name))
      pure (UInt64.ofNat source.blocks.flatten.length)
    | .error error => do
      Op.modify (onVolume fun volume =>
        { volume.spent with p1WriteHead := volume.p1WriteHead + UInt64.ofNat source.blocks.length })
      Op.throw error

def addSymlinkWithMetadata (path target : String) (preserved : Option FileMetadata) : VolumeOp δ Unit := do
  ensureWritable
  if target.isEmpty then Op.throw (.ltfs ("符号链接目标为空: " ++ path))
  else
    match splitPath path with
    | .ok (dirs, name) => Op.modify (onVolume (·.linked clock target preserved dirs name))
    | .error error => do
      Op.modify (onVolume (·.spent))
      Op.throw error

/-- Takes every file of the name out of its directory; tells whether there was one. -/
def removeFile (path : String) : VolumeOp δ Bool := do
  ensureWritable
  let (dirs, name) ← Op.lift (splitPath path)
  let state ← Op.get
  match state.volume.working.root.descend dirs with
  | none => pure false
  | some dir =>
    if dir.files.any (·.name = name) then do
      Op.modify (onVolume fun volume => volume.edited { volume.working with
        root := edit (fun dir => { dir with files := discard (·.name) name dir.files }) dirs volume.working.root })
      pure true
    else pure false

def rewrite (f : LtfsIndex → Result LtfsIndex) : VolumeOp δ Unit := do
  ensureWritable
  let state ← Op.get
  let working ← Op.lift (f state.volume.working)
  Op.modify (onVolume (·.edited working))

def createDirectory (path : String) : VolumeOp δ Unit := rewrite (·.createDirectory clock path)

def removeDirectory (path : String) : VolumeOp δ Unit := rewrite (·.removeDirectory clock path)

def setCatalogVersion (path version : String) : VolumeOp δ Unit := rewrite (·.setCatalogVersion path version)

def renamePath (source target : String) : VolumeOp δ Unit := rewrite (·.renamePath clock source target)

def setNodeXattr (path : String) (attr : Xattr) (createOnly replaceOnly : Bool) : VolumeOp δ Unit :=
  rewrite (·.setNodeXattr clock path attr createOnly replaceOnly)

def removeNodeXattr (path key : String) : VolumeOp δ Unit := rewrite (·.removeNodeXattr clock path key)

def setNodeReadonly (path : String) (readonly : Bool) : VolumeOp δ Unit :=
  rewrite (·.setNodeReadonly clock path readonly)

def changeNodeMetadata (path : String) (change : MetadataChange) : VolumeOp δ Unit := do
  ensureWritable
  let state ← Op.get
  let working ← Op.lift (state.volume.working.changeNodeMetadata host.nanos clock path change)
  Op.modify (onVolume fun volume => { volume with working, dirty := volume.dirty || !change.isEmpty })

def setRootXattr (key value : String) : VolumeOp δ Unit :=
  rewrite fun working =>
    .ok { working with root := { working.root with xattrs := setXattr key value working.root.xattrs } }

def discardCatalogPath (path : String) : VolumeOp δ Unit := do
  ensureWritable
  let (dirs, name) ← Op.lift (splitPath path)
  let state ← Op.get
  match state.volume.working.root.descend dirs with
  | none => pure ()
  | some _ =>
    Op.modify (onVolume fun volume => volume.edited { volume.working with
      root := edit (fun dir => { dir with
        files := discard (·.name) name dir.files
        subdirs := discard (·.name) name dir.subdirs }) dirs volume.working.root })

def provideDirectory (path : String) : VolumeOp δ Unit := do
  let state ← Op.get
  if (state.volume.working.findDirectory path).isSome then pure ()
  else do
    let _ ← removeFile path
    let state ← Op.get
    let working ← Op.lift (state.volume.working.createDirectory clock path)
    Op.modify (onVolume fun volume => { volume with working })

def putCatalogDirectory (path version : String) (metadata : FileMetadata) : VolumeOp δ Unit := do
  ensureWritable
  provideDirectory clock path
  let (dirs, name) ← Op.lift (splitPath path)
  -- The directory is there by now; the source would panic otherwise.
  Op.modify (onVolume fun volume => volume.edited { volume.working with
    root := edit (fun dir => { dir with
      nodeMeta := { metadata.nodeMeta with fileUid := dir.nodeMeta.fileUid }
      xattrs := setXattr xattrVersion version metadata.xattrs }) (dirs ++ [name]) volume.working.root })

end Mounted

end TapeRs.Ltfs
