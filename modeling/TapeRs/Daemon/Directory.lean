import Mathlib.Data.List.Dedup
import Mathlib.Data.Prod.Lex
import TapeRs.Data.Upsert
import TapeRs.Daemon.ControlLog

namespace TapeRs.Daemon

open Json

/-- A row of `pools`; integer columns are signed. -/
structure PoolRow where
  name : String
  fileLimit : Int
deriving DecidableEq, Repr

structure TapeRow where
  poolUuid : String
  volumeUuid : String := ""
  generation : Int := 0
  files : Int := 0
  bytesUsed : Int := 0
  bytesWritten : Int := 0
deriving DecidableEq, Repr

/-- A row of `files`. The metadata column holds the compact text of the value. -/
structure FileRow where
  barcode : String
  generation : Int
  length : Int
  sha256 : String
  version : Int × Int
  deleted : Bool
  metadata : Value

structure StagedRow where
  barcode : String
  generation : Int
  part : Int
  path : String
  length : Int
  sha256 : String
  version : Int × Int
  deleted : Bool
  metadata : Value

def StagedRow.file (row : StagedRow) : FileRow :=
  { barcode := row.barcode, generation := row.generation, length := row.length, sha256 := row.sha256
    version := row.version, deleted := row.deleted, metadata := row.metadata }

inductive TaskStatus where
  | staged
  | committed
  | failed
  | indeterminate
deriving DecidableEq, Repr

def TaskStatus.parse : String → Option TaskStatus
  | "staged" => some staged
  | "committed" => some committed
  | "failed" => some failed
  | "indeterminate" => some indeterminate
  | _ => none

structure TaskRow where
  round : Int
  path : String
  status : TaskStatus
  generation : Option Int
  reason : String
deriving DecidableEq, Repr

abbrev TaskTable := SortedMap (String ×ₗ Int) TaskRow

abbrev FileTable := SortedMap (String ×ₗ String) FileRow

/-- The order in which the database goes through the rows of a query that asks for none. -/
structure Plan where
  pools : List (String × PoolRow) → List (String × PoolRow)
  staged : List StagedRow → List StagedRow
  pools_perm : ∀ rows, (pools rows).Perm rows
  staged_perm : ∀ rows, (staged rows).Perm rows

def Plan.inOrder : Plan where
  pools rows := rows
  staged rows := rows
  pools_perm _ := .rfl
  staged_perm _ := .rfl

/-- The local directory. A table with a primary key is a map from the key. -/
structure Directory where
  applied : UInt64 := 0
  frozenIndex : Option Int := none
  pools : SortedMap String PoolRow := .empty
  tapes : SortedMap String TapeRow := .empty
  files : FileTable := .empty
  staging : List StagedRow := []
  fileTasks : TaskTable := .empty

namespace TaskTable

def doubt (tasks : TaskTable) (index : UInt64) : TaskTable :=
  tasks.map fun _ row =>
    if row.status = .staged ∧ row.round < Word.signed index then
      { row with status := .indeterminate, reason := "设备 owner 已变更；请查询文件路径确认提交结果" }
    else row

def changeOwner (tasks : TaskTable) (index : UInt64) : Command → Applied → TaskTable
  | .takeover .., .newExecutor _ | .assignExecutor .., .newExecutor _ => tasks.doubt index
  | _, _ => tasks

def stage (tasks : TaskTable) (task round : UInt64) (pool path : String) : TaskTable :=
  if tasks.contains (toLex (pool, Word.signed task)) then tasks
  else
    tasks.insert (toLex (pool, Word.signed task))
      { round := Word.signed round, path, status := .staged, generation := none, reason := "" }

def finish (tasks : TaskTable) (task round : UInt64) (pool path : String) (status : TaskStatus)
    (generation : Option UInt64) (reason : String) : TaskTable :=
  tasks.map fun key row =>
    if key = toLex (pool, Word.signed task) ∧ row.round = Word.signed round ∧ row.path = path ∧ row.status = .staged then
      { row with status, generation := generation.map Word.signed, reason }
    else row

def record (tasks : TaskTable) : Command → Result TaskTable
  | .fileTask task round pool path status generation reason =>
    if Management.maxSigned < task ∨ Management.maxSigned < round ∨ generation.any (Management.maxSigned < ·) then
      .error (.ltfs "文件任务号、轮次或索引代数超出目录库范围")
    else
      match TaskStatus.parse status with
      | some .staged => .ok (tasks.stage task round pool path)
      | some status => .ok (tasks.finish task round pool path status generation reason)
      | none => .error (.ltfs "文件任务状态无效")
  | _ => .ok tasks

end TaskTable

namespace Directory

def dbErr (message : String) : TapeError := .ltfs ("目录库: " ++ message)

def checked (d : Directory) : Result Directory :=
  if d.tapes.entries.all fun entry => d.pools.contains entry.2.poolUuid then .ok d
  else .error (dbErr "FOREIGN KEY constraint failed")

def freeze (d : Directory) (index : UInt64) : Command → Applied → Result Directory
  | .catalogFreeze _, .admin (.ok (.json result)) =>
    match ((result.field "frozen_index").asNumber).filter fun frozen =>
        0 < frozen && frozen ≤ index && frozen ≤ Management.maxSigned with
    | none => .error (.ltfs "目录冻结结论缺少有效索引")
    | some frozen =>
      let d :=
        if frozen = index then { d with frozenIndex := d.frozenIndex.or (some (Word.signed frozen)) } else d
      if d.frozenIndex = some (Word.signed frozen) then .ok d else .error (.ltfs "目录冻结投影与控制状态不一致")
  -- The control state answers with JSON only.
  | .catalogFreeze _, .admin (.ok (.text _)) => .error (.ltfs "目录冻结结论解析失败: expected value at line 1 column 1")
  | _, _ => .ok d

def updatePool (d : Directory) (p : Value) : Result Directory :=
  match (p.field "file_limit").asNumber.filter fun limit => Management.maxSigned < limit with
  | some _ => .error (dbErr "out of range integral type conversion attempted")
  | none =>
    match (p.field "uuid").asString.filter d.pools.contains with
    | none => .ok d
    | some uuid =>
      match (p.field "name").asString, (p.field "file_limit").asNumber with
      | none, _ => .error (dbErr "NOT NULL constraint failed: pools.name")
      | _, none => .error (dbErr "NOT NULL constraint failed: pools.file_limit")
      | some name, some limit =>
        if d.pools.entries.any fun entry => entry.1 ≠ uuid && entry.2.name = name then
          .error (dbErr "UNIQUE constraint failed: pools.name")
        else .ok { d with pools := d.pools.insert uuid { name, fileLimit := Word.signed limit } }

def insertTape (d : Directory) (a : Value) : Result Directory :=
  match (a.field "barcode").asString, (a.field "pool_uuid").asString with
  | some barcode, some pool =>
    if d.tapes.contains barcode then .error (dbErr "UNIQUE constraint failed: tapes.barcode")
    else checked { d with tapes := d.tapes.insert barcode { poolUuid := pool } }
  | _, _ => .error (dbErr "NOT NULL constraint failed: tapes.pool_uuid")

def removeTape (d : Directory) (barcode : String) : Directory := { d with tapes := d.tapes.erase barcode }

def carryOut (d : Directory) : Applied → Result Directory
  | .management result => do
    let d ← (match result.get "pool_update" with | some p => d.updatePool p | none => .ok d)
    let d ← (match result.get "assignment" with | some a => d.insertTape a | none => .ok d)
    match (result.get "unassigned").bind Value.asString with
    | some barcode => .ok (d.removeTape barcode)
    | none => .ok d
  | _ => .ok d

def deletePool (d : Directory) : Command → Applied → Result Directory
  | .manage request, .admin (.ok (.json result)) =>
    if (request.field "resource").isText "pools" && (request.field "action").isText "delete" then
      match (result.field "uuid").asString with
      | some uuid => checked { d with pools := d.pools.erase uuid }
      | none => .ok d
    else .ok d
  | .manage _, .admin (.ok (.text _)) => .error (.ltfs "管理结论解析失败: expected value at line 1 column 1")
  | _, _ => .ok d

/-- `INSERT OR REPLACE INTO pools`: rows with this identifier or this name give way. -/
def createPool (d : Directory) (uuid name : String) (fileLimit : UInt64) : Result Directory :=
  checked { d with
    pools := (d.pools.filter fun _ row => row.name ≠ name).insert uuid { name, fileLimit := Word.signed fileLimit } }

def findPool (d : Directory) (plan : Plan) (pool : String) : Option String :=
  (plan.pools (d.pools.entries.filter fun entry => entry.1 = pool || entry.2.name = pool)).head?.map Prod.fst

def assignTape (d : Directory) (plan : Plan) (barcode pool : String) : Result Directory :=
  match d.findPool plan pool with
  | none => .error (dbErr "Query returned no rows")
  | some uuid => checked { d with tapes := d.tapes.insert barcode { poolUuid := uuid } }

def administer (d : Directory) (plan : Plan) : Command → Applied → Result Directory
  | .poolCreate uuid name fileLimit, .admin (.ok _) => d.createPool uuid name fileLimit
  | .tapeAssign barcode pool, .admin (.ok _) => d.assignTape plan barcode pool
  | .tapeUnassign barcode, .admin (.ok _) => .ok (d.removeTape barcode)
  | _, _ => .ok d

/-- The rows of one part of a batch; an empty part leaves a mark, so that it is counted. -/
def partRows (barcode : String) (generation : UInt64) (part : UInt32) (files : List FileRec) : List StagedRow :=
  if files.isEmpty then
    [{ barcode, generation := Word.signed generation, part := part.toNat, path := "", length := -1, sha256 := ""
       version := (0, 0), deleted := false, metadata := .null }]
  else
    files.map fun f =>
      { barcode, generation := Word.signed generation, part := part.toNat, path := f.path, length := Word.signed f.length
        sha256 := f.sha256, version := (Word.signed f.version.1, Word.signed f.version.2), deleted := f.deleted
        metadata := f.metadata }

def stagePart (d : Directory) (barcode : String) (generation : UInt64) (part : UInt32) (files : List FileRec) : Directory :=
  { d with staging := d.staging ++ partRows barcode generation part files }

def batch (d : Directory) (barcode : String) (generation : UInt64) : List StagedRow :=
  d.staging.filter fun row => row.barcode = barcode && row.generation = Word.signed generation

/-- The version of a row; the later one has the greater numbers, compared in turn. -/
def rank (row : FileRow) : Int ×ₗ Int := toLex row.version

/-- A batch of a tape as it goes into `files`: the rows of records, in the pool that the tape is in. -/
def merging (d : Directory) (plan : Plan) (barcode : String) (generation : UInt64) (full : Bool) :
    SortedMap.Batch (String ×ₗ String) FileRow String :=
  { source := barcode
    full
    entries :=
      match d.tapes.get barcode with
      | none => []
      | some tape =>
        (plan.staged ((d.batch barcode generation).filter fun row => 0 ≤ row.length)).map fun row =>
          (toLex (tape.poolUuid, row.path), row.file) }

def complete (d : Directory) (barcode : String) (generation : UInt64) (parts : UInt32) : Bool :=
  (((d.batch barcode generation).map (·.part)).dedup.length : Int) = parts.toNat

def commitTape (d : Directory) (plan : Plan) (barcode volumeUuid : String)
    (generation files bytesUsed bytesWritten : UInt64) (parts : UInt32) (full : Bool) : Directory :=
  let d :=
    if d.complete barcode generation parts then
      { d with
        files := d.files.mergeBatch FileRow.barcode rank (d.merging plan barcode generation full)
        tapes := d.tapes.map fun key row =>
          if key = barcode then
            { row with
              volumeUuid, generation := Word.signed generation, files := Word.signed files
              bytesUsed := Word.signed bytesUsed, bytesWritten := Word.signed bytesWritten }
          else row }
    else d
  { d with
    staging := d.staging.filter fun row => !(row.barcode = barcode && row.generation ≤ Word.signed generation) }

def reclaimTape (d : Directory) (barcode volumeUuid : String) : Directory :=
  { d with
    files := d.files.filter fun _ row => row.barcode ≠ barcode
    staging := d.staging.filter fun row => row.barcode ≠ barcode
    tapes := d.tapes.map fun key row =>
      if key = barcode then
        { row with volumeUuid, generation := 1, files := 0, bytesUsed := 0, bytesWritten := 0 }
      else row }

def catalog (d : Directory) (plan : Plan) : Command → Applied → Directory
  | .catalogPart barcode generation part files, _ => d.stagePart barcode generation part files
  | .tapeCommitted barcode volumeUuid generation files bytesUsed bytesWritten parts full, .catalogCommitted =>
    d.commitTape plan barcode volumeUuid generation files bytesUsed bytesWritten parts full
  | .tapeReclaimed barcode volumeUuid, .reclaimed => d.reclaimTape barcode volumeUuid
  | _, _ => d

def applyDirect (d : Directory) (plan : Plan) (index : UInt64) (cmd : Command) (outcome : Applied) : Result Directory :=
  if index ≤ d.applied then .ok d
  else
    match outcome with
    | .catalogRejected => .ok { d with applied := index }
    | outcome => do
      let d ← d.freeze index cmd outcome
      let fileTasks ← (d.fileTasks.changeOwner index cmd outcome).record cmd
      let d := { d with fileTasks }
      let d ← d.carryOut outcome
      let d ← d.deletePool cmd outcome
      let d ← d.administer plan cmd outcome
      .ok { d.catalog plan cmd outcome with applied := index }

def apply (d : Directory) (plan : Plan) (index : UInt64) : Command → Applied → Result Directory
  | .executorReport _ _ _ _ command, .reported inner => d.apply plan index command inner
  | cmd, outcome => d.applyDirect plan index cmd outcome

def matchesControl (d : Directory) (c : ControlState) : Bool :=
  d.pools.entries.length = c.pools.entries.length && d.pools.entries.all fun (uuid, row) =>
    (c.pools.get uuid).any fun pool =>
      pool.name = row.name && pool.fileLimit = Word.unsigned row.fileLimit &&
        (c.tapes.entries.filter fun entry => entry.2 = uuid).map Prod.fst =
          (d.tapes.entries.filter fun entry => entry.2.poolUuid = uuid).map Prod.fst

end Directory

/-- What a node makes of the log: the control state and the directory. -/
structure Node where
  ctl : ControlState := {}
  directory : Directory := {}

namespace Node

def apply (plan : UInt64 → Plan) (n : Node) (entry : Entry) : Result Node := do
  let (ctl, outcome) := n.ctl.apply entry.1 entry.2
  let directory ← n.directory.apply (plan entry.1) entry.1 entry.2 outcome
  .ok { ctl, directory }

def replay (plan : UInt64 → Plan) (log : List Entry) : Result Node := log.foldlM (apply plan) {}

end Node

end TapeRs.Daemon
