import TapeRs.Ltfs.Volume

namespace TapeRs.Ltfs

abbrev StageOp (δ : Type) := Op (Mounted δ) (String × TapeError)

def chunks {α : Type} (size : Nat) (data : List α) : List (List α) :=
  (List.range ((data.length + size - 1) / size)).map fun piece => (data.drop (piece * size)).take size

def vcrIsValid (vcr : List UInt8) : Bool :=
  !vcr.isEmpty && !vcr.all (· = 0) && !vcr.all (· = 0xFF)

namespace Volume

def blockSize (volume : Volume) : Nat := volume.label.blocksize.toNat

def prepared (incremental : Bool) (now : String) (volume : Volume) : Volume :=
  { volume with working := { volume.working with
      generation := volume.working.generation + 1
      updateTime := now
      previousLocation := volume.lastDpIndex
      previousIncrementalLocation := volume.lastDpIncremental
      incremental
      version := if incremental || volume.lastDpIncremental.isSome then "2.5.0" else volume.working.version } }

def locatedAt (block : UInt64) (volume : Volume) : Volume :=
  { volume with working := { volume.working with
      selfLocation := { partition := volume.label.dataPartition, startBlock := block } } }

def marked (incremental : Bool) (volume : Volume) : Volume :=
  { volume with working := { volume.working with incremental } }

/-- The document to write and whether it is an increment. An adaptive commit falls back to the full index where that
    takes no more blocks. -/
def encode (host : Host) (volume : Volume) (incremental adaptive : Bool) : Result (List UInt8 × Bool) :=
  if incremental then do
    let increment ← volume.working.incrementalSince volume.index
    let delta ← increment.toXml host.crates
    if adaptive then do
      let budget := (delta.length + volume.blockSize - 1) / volume.blockSize * volume.blockSize
      let whole := { volume.working with incremental := false }
      if ← whole.xmlFitsWithin host.crates budget then do
        let xml ← whole.toXml host.crates
        return (xml, false)
      else return (delta, true)
    else return (delta, true)
  else do
    let xml ← volume.working.toXml host.crates
    return (xml, false)

def published (host : Host) (incremental checkpoint : Bool) (xml : List UInt8) (volume : Volume) : Volume :=
  let working := { volume.working with materialized := incremental }
  { volume with
    dirty := false
    lastDpIndex := if incremental then volume.lastDpIndex else some working.selfLocation
    lastDpIncremental := if incremental then some working.selfLocation else none
    incrementalDepth := if incremental then volume.incrementalDepth + 1 else 0
    lastIp := if checkpoint then some (working.generation, p0IndexBlock) else volume.lastIp
    working
    index := working
    committedConstruct :=
      { volumeUuid := working.volumeUuid, generation := working.generation, location := working.selfLocation
        sha256 := host.sha256 xml, incremental } }

def ipIndex (volume : Volume) (block : UInt64) : LtfsIndex :=
  { volume.working with
    selfLocation := { partition := volume.label.indexPartition, startBlock := p0IndexBlock }
    previousIncrementalLocation := none
    previousLocation := some { partition := volume.label.dataPartition, startBlock := block } }

def needsCheckpoint (volume : Volume) : Bool :=
  volume.dirty || volume.index.incremental ||
    match volume.lastIp with
    | none => true
    | some (generation, _) => generation ≠ volume.index.generation

end Volume

namespace Mounted

variable {δ : Type} (drive : Drive δ) (host : Host) (clock : Clock)

def atStage {α : Type} (stage : String) (op : VolumeOp δ α) : StageOp δ α :=
  op.onError (stage, ·) fun _ state => state

def verifyGuard (stage : String) : StageOp δ Unit := do
  let state ← Op.get
  match state.volume.reservationGuard with
  | none => pure ()
  | some key => atStage stage (send (drive.verifyHolder key))

def writeBlocks : List (List UInt8) → VolumeOp δ Unit
  | [] => pure ()
  | block :: rest => do
    let _ ← send (drive.writeBlock block)
    writeBlocks rest

def writeVciAll (block : UInt64) (checkpoint : Bool) : VolumeOp δ Unit := do
  match ← send drive.readVcr with
  | none => pure ()
  | some vcr =>
    if vcrIsValid vcr then do
      let state ← Op.get
      let volume := state.volume
      let info (generation block : UInt64) : VolumeCoherencyInfo :=
        { vcr, generation, block, volumeUuid := volume.label.volumeUuid }
      match if checkpoint then some (volume.working.generation, p0IndexBlock) else volume.lastIp with
      | none => send (drive.writeVci 1 (info volume.working.generation block))
      | some (generation, ipBlock) => do
        send (drive.writeVci 0 (info generation ipBlock))
        send (drive.writeVci 1 (info volume.working.generation block))
    else pure ()

/-- A drive in append-only mode lets the index partition be rewritten only under a verified reservation. -/
def allowOverwrite : StageOp δ Unit := do
  if ← atStage "index_partition" (send drive.appendOnlyMode) then do
    let state ← Op.get
    match state.volume.reservationGuard with
    | none => Op.throw ("index_partition", .refused "append-only设备重写IP需要已核验PR guard")
    | some key => do
      atStage "index_partition" (send (drive.verifyHolder key))
      atStage "index_partition" (send (drive.allowOverwriteCurrent 0 p1DataStart))
  else pure ()

def writeIpIndex (block : UInt64) : StageOp δ Unit := do
  let state ← Op.get
  let xml ← atStage "encode" (Op.lift ((state.volume.ipIndex block).toXml host.crates))
  atStage "index_partition" (send (drive.locate 0 p1DataStart))
  allowOverwrite drive
  atStage "index_partition" (send (drive.writeFilemarkImmediate 1))
  atStage "index_partition" (writeBlocks drive (chunks state.volume.blockSize xml))
  atStage "index_partition" (send (drive.writeFilemark 1))

def writeCheckpoint (checkpoint : Bool) (block : UInt64) : StageOp δ Unit :=
  if checkpoint then writeIpIndex drive host block else pure ()

def commitInner (incremental checkpoint adaptive : Bool) : StageOp δ Unit := do
  verifyGuard drive "guard_pre"
  Op.modify (onVolume (.prepared incremental (clock 0)))
  let state ← Op.get
  let block := state.volume.p1WriteHead + 1
  atStage "locate" (send (drive.locateIfNeeded 1 state.volume.p1WriteHead))
  atStage "opening_fm" (send (drive.writeFilemarkImmediate 1))
  Op.modify (onVolume (.locatedAt block))
  let state ← Op.get
  let (xml, incremental) ← atStage "encode" (Op.lift (state.volume.encode host incremental adaptive))
  Op.modify (onVolume (.marked incremental))
  let pieces := chunks state.volume.blockSize xml
  atStage "index_records" (writeBlocks drive pieces)
  atStage "closing_fm" (send (drive.writeFilemark 1))
  Op.modify (onVolume fun volume => { volume with p1WriteHead := block + UInt64.ofNat pieces.length + 1 })
  writeCheckpoint drive host checkpoint block
  verifyGuard drive "guard"
  atStage "barrier" (send (drive.writeFilemark 0))
  atStage "vci" (writeVciAll drive block checkpoint)
  Op.modify (onVolume (.published host incremental checkpoint xml))

def checkpointExisting : StageOp δ Unit := do
  verifyGuard drive "guard_pre"
  let state ← Op.get
  let block := state.volume.index.selfLocation.startBlock
  writeIpIndex drive host block
  verifyGuard drive "guard"
  atStage "barrier" (send (drive.writeFilemark 0))
  atStage "vci" (writeVciAll drive block true)
  Op.modify (onVolume fun volume => { volume with lastIp := some (volume.index.generation, p0IndexBlock) })

def finishCommit (result : StageOp δ Unit) : VolumeOp δ Unit :=
  result.onError (fun failure => .commitFailed failure.1 failure.2) fun failure =>
    onVolume (.freeze failure.1 failure.2)

def commitMode (incremental checkpoint : Bool) : VolumeOp δ Unit := do
  let state ← Op.get
  if state.volume.dirty then do
    ensureWritable
    finishCommit (commitInner drive host clock incremental checkpoint false)
  else pure ()

def sync : VolumeOp δ Unit := commitMode drive host clock false false

def commit : VolumeOp δ Unit := do
  let state ← Op.get
  if !state.volume.dirty && !state.volume.index.incremental && state.volume.needsCheckpoint then do
    ensureWritable
    finishCommit (checkpointExisting drive host)
  else do
    Op.modify (onVolume fun volume => { volume with dirty := volume.dirty || volume.index.incremental })
    commitMode drive host clock false true

def commitIncremental : VolumeOp δ Unit := do
  let state ← Op.get
  if !state.volume.dirty then pure ()
  else if state.volume.index.selfLocation.partition ≠ state.volume.label.dataPartition then commit drive host clock
  else if state.volume.incrementalLimit ≤ state.volume.incrementalDepth then sync drive host clock
  else commitMode drive host clock true false

def syncBatch : VolumeOp δ Unit := do
  let state ← Op.get
  if !state.volume.dirty || state.volume.index.selfLocation.partition ≠ state.volume.label.dataPartition ||
      state.volume.incrementalLimit ≤ state.volume.incrementalDepth then commitIncremental drive host clock
  else do
    ensureWritable
    finishCommit (commitInner drive host clock true false true)

end Mounted

/-- What becomes of the blocks behind the last index. -/
inductive TailPolicy where
  | discard
  | salvage
deriving DecidableEq

structure CloseTailReport where
  tail : TailKind
  abandonedFirstBlock : UInt64
  abandonedEndBlock : UInt64
  salvaged : Option (String × UInt64)
  generation : UInt64
deriving DecidableEq

def lostAndFound : String := "_ltfs_lostandfound"

def xattrAbandoned : String := "tapers.abandonedBlocks"

def xattrEmptyRecovery : String := "tapers.emptyRecovery"

def emptyRecoveryMarker (previous : CommittedIndexConstruct) : String :=
  Text.decimal previous.generation ++ ":" ++ String.ofList [previous.location.partition] ++ ":" ++
    Text.decimal previous.location.startBlock ++ ":" ++ (if previous.incremental then "1" else "0") ++ ":" ++
    hex previous.sha256

/-- Blocks of a tail read so far; only the last block of an extent may be short. -/
structure Salvage where
  extents : List Extent := []
  total : UInt64 := 0
  pending : Option Extent := none

namespace Salvage

def close (salvage : Salvage) : Salvage :=
  { salvage with extents := salvage.extents ++ salvage.pending.toList, pending := none }

def read (salvage : Salvage) (partition : Char) (blockSize block size : UInt64) : Salvage :=
  let pending : Extent :=
    match salvage.pending with
    | some extent => { extent with byteCount := extent.byteCount + size }
    | none => { partition, startBlock := block, byteOffset := 0, byteCount := size, fileOffset := salvage.total }
  let next := { salvage with total := salvage.total + size, pending := some pending }
  if size < blockSize then next.close else next

end Salvage

namespace Volume

def tailName (volume : Volume) (first : UInt64) : String :=
  "tail-gen" ++ Text.decimal volume.index.generation ++ "-block" ++ Text.decimal first

def salvagedNode (now : String) (volume : Volume) (first : UInt64) (salvage : Salvage) : FileNode :=
  { name := volume.tailName first
    length := salvage.total
    nodeMeta := .now now (volume.working.highestFileUid + 1) true
    extents := salvage.extents }

def salvaged (clock : Clock) (volume : Volume) (first : UInt64) (salvage : Salvage) : Volume :=
  { volume with
    working := volume.working.register (fun reading => clock (reading + 1)) [lostAndFound]
      (volume.salvagedNode (clock 0) first salvage) }

def closeTailRefusal (volume : Volume) : Option String :=
  let report := volume.recovery
  if report.dp.tail ≠ .unindexedData && report.dp.tail ≠ .truncatedIndex then
    some ("DP 尾部为 " ++ report.dp.tail.debug)
  else if report.restrictedReason.isSome then report.restrictedReason
  else if !report.chainOk then some "DP 回指链未通过"
  else if report.dp.lastIndex.isNone then some "DP 上没有有效索引"
  else if report.ipAhead then some "视图来自 IP，DP 尾部另有内容"
  else if !volume.index.unknownElements.isEmpty then some "索引含不会回写的元素"
  else if locked volume.index then some "卷已锁定"
  else if volume.index.walkFiles.any (fun entry => entry.2.extents.any (·.partition = volume.label.indexPartition)) then
    some "视图含位于 IP 的文件数据"
  else none

def tailStart (volume : Volume) : UInt64 :=
  match volume.recovery.dp.lastIndex with
  | some last => last.endBlock + 1
  | none => 0

/-- The abandoned blocks are noted at the root; a discarded tail also notes the index it goes back to. -/
def tailNoted (policy : TailPolicy) (first eod : UInt64) (volume : Volume) : Volume :=
  let range := String.ofList [volume.label.dataPartition] ++ ":" ++ Text.decimal first ++ "-" ++
    Text.decimal (if eod = 0 then 0 else eod - 1)
  let earlier := ((volume.working.root.xattrs.find? (·.key = xattrAbandoned)).map (·.value ++ ";")).getD ""
  let noted := setXattr xattrAbandoned (earlier ++ range) volume.working.root.xattrs
  let xattrs :=
    if policy = .discard then setXattr xattrEmptyRecovery (emptyRecoveryMarker volume.committedConstruct) noted
    else noted
  { volume with
    working := { volume.working with root := { volume.working.root with xattrs } }
    p1WriteHead := eod
    writable := true
    restrictedReason := none
    dirty := true }

end Volume

namespace Mounted

variable {δ : Type} (drive : Drive δ) (host : Host) (clock : Clock)

def salvageBlocks : Nat → UInt64 → Salvage → VolumeOp δ Salvage
  | 0, _, salvage => pure salvage
  | count + 1, block, salvage => fun state =>
    match send (drive.readBlock state.volume.blockSize) state with
    | (.ok [], after) => (.ok salvage, after)
    | (.ok bytes, after) =>
      salvageBlocks count (block + 1) (salvage.read state.volume.label.dataPartition
        (UInt64.ofNat state.volume.blockSize) block (UInt64.ofNat bytes.length)) after
    | (.error (.scsiCommand status senseKey asc ascq), after) =>
      if senseKey = 0x08 then (.ok salvage, after) else (.error (.scsiCommand status senseKey asc ascq), after)
    | (.error error, after) => (.error error, after)

def salvageTail (first eod : UInt64) : VolumeOp δ (Option (String × UInt64)) := do
  send (drive.locate 1 first)
  let read ← salvageBlocks drive (eod.toNat - first.toNat) first {}
  let salvage := read.close
  if salvage.total = 0 then pure none
  else do
    let state ← Op.get
    Op.modify (onVolume fun volume => volume.salvaged clock first salvage)
    pure (some (lostAndFound ++ "/" ++ state.volume.tailName first, salvage.total))

def salvageUnder (policy : TailPolicy) (first eod : UInt64) : VolumeOp δ (Option (String × UInt64)) :=
  if policy = .salvage then salvageTail drive clock first eod else pure none

def admitCloseTail : VolumeOp δ Unit := do
  let state ← Op.get
  match state.volume.reservationGuard with
  | none => Op.throw (.recoveryRestricted "收尾要求先完成设备层隔离并设置预留自检键")
  | some key => do
    send (drive.verifyHolder key)
    match state.volume.closeTailRefusal with
    | some why => Op.throw (.recoveryRestricted ("不能自动收尾: " ++ why))
    | none => pure ()

def closeTail (policy : TailPolicy) : VolumeOp δ CloseTailReport := do
  admitCloseTail drive
  let state ← Op.get
  let first := state.volume.tailStart
  let eod := state.volume.recovery.dp.eod
  send (drive.locate 1 eod)
  let position ← send drive.readPosition
  if position.1 ≠ 1 || position.2 ≠ eod then
    Op.throw (.recoveryRestricted ("不能自动收尾: LOCATE " ++ Text.decimal eod ++ " 后位置为 " ++ Nat.repr position.1 ++
      "@" ++ Text.decimal position.2))
  else do
    let salvaged ← salvageUnder drive clock policy first eod
    Op.modify (onVolume (.tailNoted policy first eod))
    commit drive host (fun reading => clock (reading + 3))
    Op.modify (onVolume fun volume => { volume with
      recovery := { volume.recovery with dp := { volume.recovery.dp with tail := .complete }, appendOk := true } })
    let closed ← Op.get
    pure {
      tail := state.volume.recovery.dp.tail
      abandonedFirstBlock := first
      abandonedEndBlock := eod
      salvaged
      generation := closed.volume.index.generation }

end Mounted

end TapeRs.Ltfs
