import TapeRs.Daemon.Snapshot

namespace TapeRs.Daemon

open Json

/-- A drive of a library was replaced by another one while the nodes were down. -/
structure DriveReplacement where
  library : String
  old : String
  new : String
deriving DecidableEq, Repr

structure DriveRemoval where
  library : String
  serial : String
deriving DecidableEq, Repr

/-- The libraries, by the serial numbers of their changers, and the changes recorded since the cluster was set up. -/
structure LibrariesConfig where
  defaultLibrary : String
  libraries : List String
  /-- Libraries that snapshots up to an index may lack. -/
  additionFloors : SortedMap String UInt64 := .empty
  driveReplacements : List DriveReplacement := []
  driveRemovals : List DriveRemoval := []

def gateway : String := "@gateway"

namespace Management

def listsDrive (m : Value) (serial : String) : Bool :=
  ((m.field "inventory").field "drives").asArray.any fun drives =>
    drives.any fun drive => (drive.field "serial").isText serial

def policy (m : Value) (serial : String) : Option Value :=
  ((m.get "drives").bind Value.asObject).bind (Assoc.find serial)

def expireInventory (m : Value) (serial : String) : Value :=
  if listsDrive m serial && m.asObject.isSome then m.set "inventory" .null else m

/-- The policy of a drive passes to the one in its place, over what that one has. -/
def movePolicy (m : Value) (old new : String) : Except String Value :=
  match (m.get "drives").bind Value.asObject with
  | none => .ok m
  | some drives =>
    match Assoc.find old drives with
    | none => .ok m
    | some previous =>
      let kept := Assoc.erase old drives
      match (Assoc.find new kept).getD (.object []), previous with
      | .object current, .object fields =>
        let row := fields.foldl (fun row entry => Assoc.insert entry.1 entry.2 row) current
        .ok (m.set "drives" (.object (Assoc.insert new (.object row) kept)))
      | _, _ => .error "驱动策略损坏，无法完成离线更换"

def replaceDrive (m : Value) (old new : String) : Except String Value := do
  let m ← movePolicy m old new
  return expireInventory m old

def dropPolicy (m : Value) (serial : String) : Value :=
  match policy m serial with
  | some _ => m.set "drives" ((m.field "drives").remove serial)
  | none => m

def worksOn (serial : String) (task : Value) : Bool :=
  ((task.field "request").field "resource").isText "drives" && ((task.field "request").field "target").isText serial &&
    active task

def stopTask (serial : String) (task : Value) : Value :=
  if worksOn serial task then
    (task.set "state" (.string "indeterminate")).set "result"
      (.ofFields [("reason", .string "驱动已从配置移除；任务未继续执行")])
  else task

def stopTasks (m : Value) (serial : String) : Value :=
  match (m.get "tasks").bind Value.asObject with
  | none => m
  | some tasks =>
    if tasks.any fun entry => worksOn serial entry.2 then
      m.set "tasks" (.object (tasks.map fun entry => (entry.1, stopTask serial entry.2)))
    else m

def removeDrive (m : Value) (serial : String) : Value := stopTasks (expireInventory (dropPolicy m serial) serial) serial

def migrate (replacements : List DriveReplacement) (removals : List DriveRemoval) (m : Value) : Except String Value := do
  let m ← replacements.foldlM (fun m r => replaceDrive m r.old r.new) m
  return removals.foldl (fun m r => removeDrive m r.serial) m

end Management

structure ClusterState where
  defaultLibrary : String
  controls : SortedMap String ControlState
  driveReplacements : List DriveReplacement
  driveRemovals : List DriveRemoval

/-- A command for a library; an older log names none. -/
structure ScopedCommand where
  library : Option String
  command : Command

namespace ClusterState

def new (config : LibrariesConfig) : ClusterState where
  defaultLibrary := config.defaultLibrary
  controls := (config.libraries ++ [gateway]).foldl (fun controls id => controls.insert id {}) .empty
  driveReplacements := config.driveReplacements
  driveRemovals := config.driveRemovals

/-- The state of a library, with the recorded changes of its drives carried out. -/
def reconciled (s : ClusterState) (library : String) (c : ControlState) : Except String ControlState :=
  if c.catalogFrozenIndex.isSome then .ok c
  else do
    let m ← Management.migrate (s.driveReplacements.filter fun r => r.library = library)
      (s.driveRemovals.filter fun r => r.library = library) c.management
    return { c with management := m }

def reconcileDriveReplacements (s : ClusterState) (library : String) : Except String ClusterState :=
  match s.controls.get library with
  | none => .ok s
  | some c => do
    let c ← s.reconciled library c
    return { s with controls := s.controls.insert library c }

def concernsVips : Command → Bool
  | .vipAcquire .. | .vipRelease .. => true
  | _ => false

/-- The entry is one of an older log and has moved addresses of the default library. -/
def copiesVips (s : ClusterState) (scope : String) (entry : ScopedCommand) (outcome : Applied) : Bool :=
  scope = s.defaultLibrary && (match outcome with | .catalogRejected => false | _ => true) && concernsVips entry.command &&
    entry.library.isNone

def copyVips (s : ClusterState) (scope : String) (entry : ScopedCommand) (outcome : Applied) : ClusterState :=
  if s.copiesVips scope entry outcome then
    match s.controls.get scope, s.controls.get gateway with
    | some c, some g => { s with controls := s.controls.insert gateway { g with vips := c.vips } }
    | _, _ => s
  else s

def applyEntry (s : ClusterState) (index : UInt64) (entry : ScopedCommand) : Except String (ClusterState × Applied) :=
  let scope := entry.library.getD s.defaultLibrary
  match s.controls.get scope with
  | none => .error ("日志引用未配置的库 " ++ scope)
  | some control => do
    let applied := control.apply index entry.command
    let next ← reconcileDriveReplacements { s with controls := s.controls.insert scope applied.1 } scope
    return (next.copyVips scope entry applied.2, applied.2)

def run (s : ClusterState) (log : List (UInt64 × ScopedCommand)) : Except String ClusterState :=
  log.foldlM (fun s entry => (s.applyEntry entry.1 entry.2).map Prod.fst) s

variable {Bytes : Type} (wire : Wire Bytes)

/-- The snapshot of one control state, as a value inside that of the cluster. -/
def controlRow (source index : UInt64) (c : ControlState) : Value := .ofFields (Snapshot.fields wire ⟨c, source, index⟩)

def snapshot (s : ClusterState) (source index : UInt64) : Bytes :=
  wire.print (.ofFields [("cluster_version", .number 2), ("default_library", .string s.defaultLibrary),
    ("source", .number source), ("directory_index", .number index),
    ("controls", .object (s.controls.entries.map fun entry => (entry.1, controlRow wire source index entry.2)))])

def restoreLegacy (config : LibrariesConfig) (data : Bytes) : Except String (ClusterState × UInt64 × UInt64) :=
  match Snapshot.decode wire data with
  | none => .error "旧控制快照无法解析"
  | some legacy =>
    if (((legacy.control.management.field "inventory").field "library_serial").asString).any fun serial =>
        serial ≠ config.defaultLibrary then .error "默认库设备与旧库存身份不一致，拒绝迁移"
    else do
      let s := new config
      -- Addresses that are held stay held until the old node gives them up.
      let g := { (s.controls.get gateway).getD {} with vips := legacy.control.vips, executor := legacy.control.executor }
      let s := { s with controls := (s.controls.insert gateway g).insert config.defaultLibrary legacy.control }
      let s ← s.reconcileDriveReplacements config.defaultLibrary
      return (s, legacy.source, legacy.directoryIndex)

def restoreRows : ClusterState → List (String × Value) → Except String ClusterState
  | s, [] => .ok s
  | s, (id, row) :: rest =>
    match Snapshot.decode wire (wire.print row) with
    | none => .error ("库 " ++ id ++ " 的控制快照损坏")
    | some content => do
      let s ← reconcileDriveReplacements { s with controls := s.controls.insert id content.control } id
      restoreRows s rest

def lacksOnlyAdded (config : LibrariesConfig) (directoryIndex : UInt64) (ids present : List String) : Bool :=
  present.all (fun id => id ∈ ids) &&
    ids.all fun id => id ∈ present || (config.additionFloors.get id).any fun floor => directoryIndex ≤ floor

def restore (config : LibrariesConfig) (data : Bytes) : Except String (ClusterState × UInt64 × UInt64) :=
  match wire.parse data with
  | none => .error "控制快照损坏"
  | some v =>
    if (v.get "cluster_version").isNone then restoreLegacy wire config data
    else if !(v.field "cluster_version").isNumber 2 || !(v.field "default_library").isText config.defaultLibrary then
      .error "控制快照版本或默认库不匹配"
    else
      match (v.field "controls").asObject, (v.field "directory_index").asNumber with
      | none, _ => .error "控制快照缺少分库状态"
      | _, none => .error "快照缺少目录索引"
      | some rows, some directoryIndex =>
        let s := new config
        if !lacksOnlyAdded config directoryIndex (s.controls.entries.map Prod.fst) (rows.map Prod.fst) then
          .error "快照与配置的库集合不匹配"
        else do
          let s ← restoreRows wire s rows
          match (v.field "source").asNumber with
          | none => .error "快照缺少 source"
          | some source => return (s, source, directoryIndex)

end ClusterState

end TapeRs.Daemon
