import TapeRs.Daemon.State

namespace TapeRs.Daemon.Management

open Json

def maxTasks : Nat := 1024

def maxState : Nat := 2 * 2 ^ 20

def maxResult : Nat := 256 * 2 ^ 10

def maxSigned : UInt64 := 9223372036854775807

def empty : Value :=
  .ofFields [("pools", .object []), ("tapes", .object []), ("drives", .object []), ("tasks", .object []),
    ("inventory", .null)]

def text (v : Value) (key : String) : Except String String :=
  match (v.get key).bind Value.asString with
  | some s =>
    if s ≠ "" ∧ s.utf8ByteSize ≤ 4096 ∧ '\x00' ∉ s.toList then .ok s else .error ("缺少或无效的字段：" ++ key)
  | none => .error ("缺少或无效的字段：" ++ key)

def name (s : String) : Except String Unit :=
  if 1 ≤ s.utf8ByteSize ∧ s.utf8ByteSize ≤ 16 ∧ s.toList.all (fun c => c.isAlphanum || c = '_') then .ok ()
  else .error "名称须为 1–16 个 ASCII 字母、数字或下划线"

def active (task : Value) : Bool := (task.field "state").isText "queued" || (task.field "state").isText "running"

def activeTasks (m : Value) : Bool :=
  match (m.field "tasks").asObject with
  | some tasks => tasks.any fun entry => active entry.2
  | none => false

def stripSuffix (s suffix : String) : Option String :=
  if suffix.toList.isSuffixOf s.toList then
    some (String.ofList (s.toList.take (s.toList.length - suffix.toList.length)))
  else none

def checkMedia (restriction barcode : String) : Except String Unit :=
  if restriction = "none" ∨ (stripSuffix barcode restriction).any (fun volser => volser.toList.length = 6) then .ok ()
  else .error "条码不符合池介质限制"

/-- How a cleaning cartridge is recognised: by what its slot reports or by its label. -/
def cleaningCartridge (mediumType : Option UInt64) (barcode : String) : Option String :=
  if mediumType = some 2 then some "element_status"
  else
    match if barcode.utf8ByteSize = 8 then stripSuffix barcode "L1" else some barcode with
    | none => none
    | some volser =>
      if volser.utf8ByteSize = 6 ∧ "CLN".toList.isPrefixOf volser.toList ∧
          volser.toList.all (fun c => c.isUpper || c.isDigit) then some "barcode"
      else none

def cleaningSource (m : Value) (barcode : String) : Option String :=
  let mediumType := ((((m.field "inventory").field "volumes").asArray.bind fun rows =>
      rows.find? fun v => (v.field "barcode").isText barcode).bind fun v =>
      (v.field "medium_type").asNumber).filter fun v => v < 256
  cleaningCartridge mediumType barcode

def requireDataTape (m : Value) (barcode : String) : Except String Unit :=
  if (cleaningSource m barcode).isSome then .error "清洗带不能分配到数据池或执行 LTFS 数据操作" else .ok ()

def tapeAllowed (m : Value) (barcode : String) : Bool :=
  (cleaningSource m barcode).isNone && (((m.field "tapes").field barcode).field "offline").isNull &&
    (((m.field "tapes").field barcode).field "blacklist").isNull

def mediaRestriction (m : Value) (uuid : String) : String :=
  ((((m.field "pools").field uuid).field "mediarestriction").asString).getD "none"

def restrictions : List String :=
  ["none", "L5", "L6", "L7", "L8", "L9", "M8", "JB", "JC", "JD", "JE", "JY", "JZ", "JV", "JK", "JL", "JM", "JF"]

def updatePool (c : ControlState) (uuid : String) (f : Pool → Pool) : ControlState :=
  match c.pools.get uuid with
  | some pool => { c with pools := c.pools.insert uuid (f pool) }
  | none => c

/-- Checks one attribute of a pool and, for those the control state itself keeps, sets it. -/
def poolAttribute (c : ControlState) (uuid attribute' value : String) : Except String ControlState :=
  match attribute' with
  | "poolname" => do
    name value
    if c.pools.entries.any (fun entry => entry.1 ≠ uuid && entry.2.name = value) then .error "池名称已存在"
    else .ok (updatePool c uuid fun pool => { pool with name := value })
  | "file_limit" =>
    match (Text.parseU64 value).filter fun n => 0 < n && n ≤ maxSigned with
    | some limit => .ok (updatePool c uuid fun pool => { pool with fileLimit := limit })
    | none => .error "file_limit 必须为正整数"
  | "mediarestriction" => if value ∈ restrictions then .ok c else .error "不支持的介质限制"
  | "mountlimit" | "lowspacewarningthreshold" =>
    match (Text.parseU64 value).filter fun n => n ≤ 32767 with
    | some _ => .ok c
    | none => .error "属性必须为 0–32767 的整数"
  | "lowspacewarningenable" | "nospacewarningenable" =>
    if value = "yes" ∨ value = "no" then .ok c else .error "属性必须为 yes 或 no"
  | _ => .error "不支持的池属性"

def poolSet (c : ControlState) (target : String) (p : Value) : Except String (ControlState × Value) :=
  match c.resolvePool target with
  | none => .error "池不存在"
  | some uuid => do
    let attribute' ← text p "attribute"
    let value ← text p "value"
    let c ← poolAttribute c uuid attribute' value
    let c := { c with management := c.management.setPath ["pools", uuid, attribute'] (.string value) }
    return (c, .ofFields [("uuid", .string uuid), ("name", .string (c.poolName uuid)),
      ("file_limit", .number (c.poolLimit uuid))])

def tapeActions : List String :=
  ["unassign", "offline", "online", "blacklist", "clear-blacklist", "move", "validate", "objects", "restore"]

def validateTapeAction (c : ControlState) (action target : String) (p : Value) : Except String Unit :=
  match action with
  | "online" =>
    if (((c.management.field "tapes").field target).field "offline").isNull then .error "磁带当前不是离线状态"
    else .ok ()
  | "offline" => do
    let _ ← text p "message"
    return ()
  | "blacklist" => do
    let _ ← text p "reason"
    return ()
  | "move" => do
    let location ← text p "location"
    if location ≠ "homeslot" ∧ location ≠ "ieslot" then .error "location 必须为 homeslot 或 ieslot"
    else if location = "ieslot" ∧ (((c.management.field "tapes").field target).field "offline").isNull then
      .error "移动至 I/E 前必须先 offline"
    else .ok ()
  | "objects" =>
    if (p.get "offset").any (fun v => v.asNumber.isNone) ||
        (p.get "limit").any (fun v => v.asNumber.all fun n => n = 0 || 500 < n) then
      .error "offset 必须为非负整数，limit 须为 1–500"
    else .ok ()
  | "restore" => do
    let destination ← text p "destination"
    if destination.toList.head? ≠ some '/' then .error "恢复目的地必须是 owner 上的绝对路径"
    else if !(p.field "confirm").isTrue then .error "恢复到 owner 文件系统须显式 confirm=true"
    else .ok ()
  | "validate" =>
    if (p.get "full_read").any (fun v => v.asBool.isNone) then .error "full_read 必须为布尔值" else .ok ()
  | _ => .ok ()

def validateDrive (c : ControlState) (action target : String) (p : Value) : Except String Unit :=
  if target = "" then .error "驱动器序列号为空"
  else
    match c.executor.filter (·.fenced) with
    | none => .error "设备 owner 尚未就绪"
    | some owner =>
      let inventory := c.management.field "inventory"
      if !(inventory.field "owner").isNumber owner.node || !(inventory.field "round").isNumber owner.round then
        .error "驱动库存已过期，请先显式 rescan"
      else if !((inventory.field "drives").asArray.any fun drives =>
          drives.any fun drive => (drive.field "serial").isText target) then .error "驱动器不在当前库存中"
      else if action = "role" then do
        let role ← text p "role"
        if role.toList.all (fun r => r ∈ "mrg".toList) && role.toList.Nodup then .ok ()
        else .error "角色必须为无重复的 m/r/g 组合"
      else .ok ()

def validateJob (c : ControlState) (resource action target : String) (p : Value) : Except String Unit := do
  if resource = "tapes" ∧ action ∈ ["assign", "online", "validate", "objects", "restore"] then
    requireDataTape c.management target
  if (resource, action) = ("libraries", "rescan") ∨ (resource, action) = ("pools", "set") then .ok ()
  else if (resource, action) = ("tapes", "assign") then
    if c.tapes.contains target then .error "磁带已经分配"
    else
      let pool ← text p "pool"
      match c.resolvePool pool with
      | none => .error "池不存在"
      | some uuid => checkMedia (mediaRestriction c.management uuid) target
  else if resource = "tapes" ∧ action ∈ tapeActions then
    if c.tapes.contains target then validateTapeAction c action target p else .error "磁带尚未分配"
  else if resource = "drives" ∧ action ∈ ["up", "down", "role"] then validateDrive c action target p
  else .error "未知管理操作"

def cancelTask (task : Value) : Value :=
  let task := if (task.field "state").isText "queued" then task.set "state" (.string "cancelled") else task
  if (task.field "state").isText "running" || (task.field "state").isText "cancelled" then
    task.set "cancel_requested" (.bool true)
  else task

def poolDelete (c : ControlState) (target : String) : Except String (ControlState × Value) :=
  match c.resolvePool target with
  | none => .error "池不存在"
  | some uuid =>
    if c.tapes.entries.any (fun entry => entry.2 = uuid) then .error "池仍有磁带，不能删除"
    else if activeTasks c.management then .error "存在未结束管理任务"
    else .ok
      ({ c with
          pools := c.pools.erase uuid
          management := c.management.set "pools" ((c.management.field "pools").remove uuid) },
        .ofFields [("uuid", .string uuid), ("deleted", .bool true)])

def enqueue (c : ControlState) (index : UInt64) (resource action target : String) (r p : Value) :
    Except String (ControlState × Value) := do
  validateJob c resource action target p
  if c.executor.all (fun e => !e.fenced) || !c.executorReady then .error "设备 owner 尚未就绪"
  else if maxState < c.management.size + 2 * maxResult + r.size + 16384 then .error "管理结果预留空间不足，请清理终态历史"
  else if maxTasks ≤ (((c.management.field "tasks").asObject).getD []).length then
    .error "管理任务历史已满，请显式清理终态历史"
  else if activeTasks c.management then .error "已有管理任务执行中"
  else if c.reclaims then .error "回收执行期间不能启动其他管理任务"
  else
    let task := Value.ofFields [("id", .number index), ("request", r), ("state", .string "queued"),
      ("progress", .number 0), ("cancel_requested", .bool false), ("round", .null), ("owner", .null),
      ("result", .null), ("created_index", .number index)]
    .ok ({ c with management := c.management.setPath ["tasks", Text.decimal index] task },
      .ofFields [("task", .number index), ("status", .string "queued")])

def applyInner (c : ControlState) (index : UInt64) (r : Value) : Except String (ControlState × Value) := do
  let resource ← text r "resource"
  let action ← text r "action"
  match (r.field "target").asString with
  | none => .error "缺少 target"
  | some target =>
    if 255 < target.utf8ByteSize ∨ '/' ∈ target.toList ∨ '\x00' ∈ target.toList then .error "资源标识非法"
    else
      let p := r.field "params"
      if p.asObject.isNone then .error "params 必须是对象"
      else if (resource, action) = ("pools", "delete") then poolDelete c target
      else if (resource, action) = ("tasks", "cancel") then
        match (c.management.field "tasks").get target with
        | none => .error "任务不存在"
        | some task =>
          .ok ({ c with management := c.management.setPath ["tasks", target] (cancelTask task) }, cancelTask task)
      else if (resource, action) = ("tasks", "clearhistory") then
        if !(p.field "confirm").isTrue then .error "清理任务历史须显式 confirm=true"
        else
          let tasks := c.management.field "tasks"
          let kept := tasks.retain active
          .ok ({ c with management := c.management.set "tasks" kept }, .ofFields [("cleared",
            .number (UInt64.ofNat (((tasks.asObject).getD []).length - ((kept.asObject).getD []).length)))])
      else do
        if (resource, action) = ("pools", "set") then let _ ← poolSet c target p
        enqueue c index resource action target r p

def apply (c : ControlState) (index : UInt64) (req : Value) : ControlState × Except String Reply :=
  let next := if c.management.isNull then { c with management := empty } else c
  match applyInner next index req with
  | .error reason => (c, .error reason)
  | .ok (next, reply) =>
    let next := { next with management := next.management.set "revision" (.number index) }
    if maxState < next.management.size then (c, .error "管理状态容量已满，请清理终态任务历史")
    else (next, .ok (.json reply))

def running (task : Value) : Bool := (task.field "state").isText "running"

def interruptTask (task : Value) : Value :=
  if running task then
    (task.set "state" (.string "indeterminate")).set "result"
      (.ofFields [("detail", .string "执行轮次已结束，须核实设备及目的地状态；不会自动重放")])
  else task

def interrupt (c : ControlState) : ControlState :=
  match (c.management.get "tasks").bind Value.asObject with
  | none => c
  | some tasks =>
    if tasks.any (fun entry => running entry.2) then
      { c with
        management := (c.management.set "tasks" (.object (tasks.map fun entry => (entry.1, interruptTask entry.2)))).set
          "revision" (.number c.appliedIndex) }
    else c

def requestText (r : Value) (key : String) : String := ((r.field key).asString).getD ""

def keepCapacity (saved : Value) : Value :=
  .ofFields [("capacity", saved.field "capacity"), ("capacity_refresh", saved.field "capacity_refresh"),
    ("index_capacity", saved.field "index_capacity"), ("index_capacity_refresh", saved.field "index_capacity_refresh")]

def finishUnassign (c : ControlState) (target : String) : ControlState :=
  let saved := (c.management.field "tapes").field target
  let tapes := (c.management.field "tapes").remove target
  let tapes :=
    if !(saved.field "capacity").isNull || !(saved.field "index_capacity").isNull then
      tapes.set target (keepCapacity saved)
    else tapes
  { c with
    tapes := c.tapes.erase target
    tapeSummary := c.tapeSummary.erase target
    tapeState := c.tapeState.erase target
    management := c.management.set "tapes" tapes }

def finishAssign (c : ControlState) (target : String) (p result : Value) : ControlState :=
  let c := { c with management :=
    c.management.setPath ["tapes", target, "home_address"] (result.field "home_address") }
  match c.resolvePool (requestText p "pool") with
  | some pool => { c with tapes := c.tapes.insert target pool }
  | none => c

def recordResult (c : ControlState) (resource target : String) (result : Value) : ControlState :=
  let m := match result.get "inventory" with
    | some observation => c.management.set "inventory" observation
    | none => c.management
  let m :=
    if resource = "tapes" ∧ (result.get "home_address").isSome then
      m.setPath ["tapes", target, "home_address"] (result.field "home_address")
    else m
  { c with management := m }

def finishConfig (c : ControlState) (r result : Value) : Except String ControlState :=
  let resource := requestText r "resource"
  let action := requestText r "action"
  let target := requestText r "target"
  let p := r.field "params"
  let c := recordResult c resource target result
  if (resource, action) = ("pools", "set") then do
    let changed ← poolSet c target p
    return changed.1
  else if (resource, action) = ("tapes", "assign") then .ok (finishAssign c target p result)
  else if (resource, action) = ("tapes", "unassign") then .ok (finishUnassign c target)
  else if resource = "tapes" ∧ action ∈ ["offline", "online", "blacklist", "clear-blacklist"] then
    let (key, value) :=
      match action with
      | "offline" => ("offline", p.field "message")
      | "online" => ("offline", .null)
      | "blacklist" => ("blacklist", p.field "reason")
      | _ => ("blacklist", .null)
    .ok { c with management := c.management.setPath ["tapes", target, key] value }
  else if resource = "drives" then
    match action with
    | "up" => .ok { c with management := c.management.setPath ["drives", target, "enabled"] (.bool true) }
    | "down" => .ok { c with management := c.management.setPath ["drives", target, "enabled"] (.bool false) }
    | "role" => .ok { c with management := c.management.setPath ["drives", target, "role"] (p.field "role") }
    | _ => .error "未知驱动器策略操作"
  else .ok c

def amend (c : ControlState) (key : String) (fields : List (String × Value)) : ControlState :=
  let task := fields.foldl (fun task entry => task.set entry.1 entry.2) ((c.management.field "tasks").field key)
  { c with management := (c.management.setPath ["tasks", key] task).set "revision" (.number c.appliedIndex) }

/-- A report on a task by the device owner; `true` when its configuration change took effect. -/
def report (c : ControlState) (id round : UInt64) (phase : String) (result : Value) : ControlState × Bool :=
  match c.executor.filter fun e => e.round = round && e.fenced with
  | none => (c, false)
  | some owner =>
    let key := Text.decimal id
    match (c.management.field "tasks").get key with
    | none => (c, false)
    | some task =>
      let state := task.field "state"
      if phase = "running" ∧ state.isText "queued" then
        (amend c key [("state", .string "running"), ("round", .number round), ("owner", .number owner.node)], false)
      else if phase = "progress" ∧ state.isText "running" ∧ (task.field "round").isNumber round then
        match ((result.field "progress").asNumber).filter fun n => n ≤ 100 with
        | some progress => (amend c key [("progress", .number progress)], false)
        | none => (c, false)
      else if !state.isText "running" ∨ !(task.field "round").isNumber round ∨
          phase ∉ ["success", "failed", "cancelled"] then (c, false)
      else if phase = "success" then
        let r := task.field "request"
        match finishConfig c r result with
        | .error detail =>
          -- What the report brought besides the change stays.
          let c := recordResult c (requestText r "resource") (requestText r "target") result
          (amend c key [("state", .string "failed"), ("result", .ofFields [("detail", .string detail)])], false)
        | .ok c => (amend c key [("state", .string phase), ("progress", .number 100),
            ("finished_index", .number c.appliedIndex), ("result", result)], true)
      else (amend c key [("state", .string phase), ("finished_index", .number c.appliedIndex), ("result", result)], false)

/-- What the directory has to change for a finished task; read from the state, not from the report. -/
def directoryChanges (c : ControlState) (id : UInt64) : Value :=
  let r := ((c.management.field "tasks").field (Text.decimal id)).field "request"
  let target := requestText r "target"
  match (r.field "resource").asString, (r.field "action").asString with
  | some "pools", some "set" =>
    let name :=
      if ((r.field "params").field "attribute").isText "poolname" then
        (((r.field "params").field "value").asString).getD target
      else target
    match c.resolvePool name with
    | some uuid => .ofFields [("pool_update", .ofFields [("uuid", .string uuid), ("name", .string (c.poolName uuid)),
        ("file_limit", .number (c.poolLimit uuid))])]
    | none => .object []
  | some "tapes", some "assign" =>
    match c.tapes.get target with
    | some uuid => .ofFields [("assignment", .ofFields [("barcode", .string target), ("pool_uuid", .string uuid)])]
    | none => .object []
  | some "tapes", some "unassign" => .ofFields [("unassigned", .string target)]
  | _, _ => .object []

def invalidated (reason : String) : Value :=
  .ofFields [("status", .string "invalidated"), ("error", .string reason)]

def optionalNumber : Option UInt64 → Value
  | some n => .number n
  | none => .null

def observePartition (c : ControlState) (observation : Value) (uuid key refreshKey errorKey : String) (record : Value) :
    Value :=
  let record :=
    if ((record.field key).field "volume_uuid").asString.any (fun old => old ≠ uuid) then
      (record.set key .null).set refreshKey (invalidated "卷身份已变化")
    else record
  match observation.get key with
  | none => record
  | some cap =>
    let measured :=
      match (cap.field "maximum").asNumber, (cap.field "remaining").asNumber with
      | some maximum, some remaining =>
        if 0 < maximum ∧ remaining ≤ maximum ∧ maximum ≤ maxSigned then some (maximum, remaining) else none
      | _, _ => none
    let record :=
      match measured with
      | some (maximum, remaining) => record.set key (.ofFields [("volume_uuid", .string uuid),
          ("generation", observation.field "generation"), ("maximum", .number maximum),
          ("remaining", .number remaining), ("observed_at", observation.field "observed_at"),
          ("partition", cap.field "partition")])
      | none => record
    record.set refreshKey (.ofFields [("status", .string (if measured.isSome then "ok" else "failed")),
      ("observed_at", observation.field "observed_at"),
      ("error", if measured.isSome then .null else observation.field errorKey),
      ("owner", optionalNumber (c.executor.map (·.node))), ("round", optionalNumber (c.executor.map (·.round)))])

def capacityKeys : List (String × String) :=
  [("capacity", "capacity_refresh"), ("index_capacity", "index_capacity_refresh")]

def updateRecord (c : ControlState) (barcode : String) (index : UInt64) (f : Value → Option Value) : ControlState :=
  match (c.management.get "tapes").bind (Value.get · barcode) with
  | none => c
  | some record =>
    match f record with
    | none => c
    | some changed =>
      { c with management := (c.management.setPath ["tapes", barcode] changed).set "revision" (.number index) }

def invalidateCapacity (c : ControlState) (barcode reason : String) (index : UInt64) : ControlState :=
  updateRecord c barcode index fun record =>
    some (capacityKeys.foldl (fun record keys => (record.set keys.1 .null).set keys.2 (invalidated reason)) record)

/-- Drops what was measured of another volume than the one with this identifier. -/
def invalidateOtherVolume (c : ControlState) (barcode uuid : String) (index : UInt64) : ControlState :=
  updateRecord c barcode index fun record =>
    let stale := capacityKeys.filter fun keys =>
      !(record.field keys.1).isNull && !((record.field keys.1).field "volume_uuid").isText uuid
    if stale.isEmpty then none
    else some (stale.foldl (fun record keys => (record.set keys.1 .null).set keys.2 (invalidated "卷身份已变化")) record)

def observeTape (c : ControlState) (barcode : String) (observation : Value) (index : UInt64) : ControlState :=
  if !c.tapes.contains barcode ∨ 8192 < observation.size then c
  else if (observation.field "invalidate").isTrue then
    invalidateCapacity c barcode (((observation.field "reason").asString).getD "介质身份失效") index
  else
    match ((observation.field "volume_uuid").asString).filter fun s => s ≠ "" && s.utf8ByteSize ≤ 128 with
    | none => c
    | some uuid =>
      if ((observation.field "generation").asNumber).all (fun g => g = 0) ∨
          ((observation.field "observed_at").asString).all (fun s => s = "" || 64 < s.utf8ByteSize) then c
      else
        let m := if c.management.isNull then empty else c.management
        let previous := (m.field "tapes").get barcode
        let record := previous.getD (.object [])
        let record := observePartition c observation uuid "capacity" "capacity_refresh" "error" record
        let record := observePartition c observation uuid "index_capacity" "index_capacity_refresh" "index_error" record
        let recorded := m.setPath ["tapes", barcode] record
        if maxState < recorded.size then
          match previous with
          | some previous => { c with management := recorded.setPath ["tapes", barcode] previous }
          | none => { c with management := recorded.set "tapes" ((recorded.field "tapes").remove barcode) }
        else { c with management := recorded.set "revision" (.number index) }

end TapeRs.Daemon.Management
