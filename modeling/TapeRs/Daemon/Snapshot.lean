import TapeRs.Daemon.Control

namespace TapeRs.Daemon

open Json

namespace Management

def taskStates : List String := ["queued", "running", "success", "failed", "cancelled", "indeterminate"]

def validTask (key : String) (task : Value) : Bool :=
  ((Text.parseU64 key).filter fun id => 0 < id).any (fun id => (task.field "id").isNumber id) &&
    taskStates.any (fun state => (task.field "state").isText state) &&
    (task.field "cancel_requested").asBool.isSome &&
    ((task.field "request").field "params").asObject.isSome &&
    ["resource", "action", "target"].all fun k => ((task.field "request").field k).asString.isSome

def rows (m : Value) (key : String) : List (String × Value) := ((m.field key).asObject).getD []

def validSnapshot (m : Value) : Bool :=
  m.isNull ||
    (m.size ≤ maxState && ["pools", "tapes", "drives", "tasks"].all (fun key => (m.field key).asObject.isSome) &&
      (m.get "nodegroups").isNone && (m.get "nodes").isNone &&
      ["pools", "drives"].all (fun key => (rows m key).all fun row =>
        (row.2.get "nodegroup").isNone && (row.2.get "nodegroup_name").isNone) &&
      ["pools", "tapes", "drives"].all (fun key => (rows m key).all fun row => row.2.asObject.isSome) &&
      ((m.field "inventory").isNull || (m.field "inventory").asObject.isSome) &&
      (rows m "tasks").all fun row => validTask row.1 row.2)

end Management

/-- What a snapshot holds: the control state, and where the directory that belongs to it is fetched. -/
structure SnapshotContent where
  control : ControlState
  /-- The node that made the snapshot. -/
  source : UInt64
  /-- How far its directory had come; 0 for a node without one. -/
  directoryIndex : UInt64

/-- How JSON values and network addresses are written and read. -/
structure Wire (Bytes : Type) where
  print : Value → Bytes
  parse : Bytes → Option Value
  parse_print : ∀ v, parse (print v) = some v
  showAddress : UInt32 → String
  readAddress : String → Option UInt32
  read_show : ∀ address, readAddress (showAddress address) = some address

namespace Snapshot

def item (row : Value) (place : Nat) : Option Value := row.asArray.bind fun items => items[place]?

def number (row : Value) (place : Nat) : Option UInt64 := (item row place).bind Value.asNumber

def string (row : Value) (place : Nat) : Option String := (item row place).bind Value.asString

def optional {α : Type} (write : α → Value) : Option α → Value
  | some x => write x
  | none => .null

def table {κ α : Type} [LinearOrder κ] (write : κ → α → Value) (m : SortedMap κ α) : Value :=
  .array (m.entries.map fun entry => write entry.1 entry.2)

def executorRow (e : Executor) : Value := .array [.number e.node, .number e.term, .number e.round, .bool e.fenced]

def activityRow (a : DeviceActivityState) : Value :=
  .ofFields [("node", .number a.node), ("instance", .number a.inst), ("round", .number a.round),
    ("sequence", .number a.sequence), ("busy", .bool a.busy)]

def holderRow (owner : VipOwner) : Value := .array [.number owner.node, .number owner.round]

def candidateRow (node : Nat) (candidate : Candidate) : Value :=
  .array [.number (UInt64.ofNat node), .number candidate.inst, .number candidate.sequence, .string candidate.group,
    .number (UInt64.ofNat candidate.drives), .bool candidate.eligible]

def historyRow (entry : UInt64 × UInt64) : Value := .array [.number entry.1, .number entry.2]

def poolRow (uuid : String) (pool : Pool) : Value := .array [.string uuid, .string pool.name, .number pool.fileLimit]

def tapeRow (barcode uuid : String) : Value := .array [.string barcode, .string uuid]

def stateRow (barcode : String) (status : TapeStatus) : Value := .array [.string barcode, .string status.text]

def summaryRow (barcode : String) (s : TapeSummary) : Value :=
  .array [.string barcode, .string s.volumeUuid, .number s.generation, .number s.files, .number s.bytesUsed,
    .number s.bytesWritten]

/-- Files the rows of a table one after the other; a table that names a key `once` must not name it again. -/
def fileRows {κ α : Type} [LinearOrder κ] (once : Bool) (read : Value → Option (κ × α)) :
    SortedMap κ α → List Value → Option (SortedMap κ α)
  | m, [] => some m
  | m, row :: rest =>
    match read row with
    | none => none
    | some (key, value) => if once && m.contains key then none else fileRows once read (m.insert key value) rest

def readTable {κ α : Type} [LinearOrder κ] (once : Bool) (read : Value → Option (κ × α)) (rows : Value) :
    Option (SortedMap κ α) :=
  rows.asArray.bind (fileRows once read .empty)

def readLater {κ α : Type} [LinearOrder κ] (once : Bool) (read : Value → Option (κ × α)) :
    Option Value → Option (SortedMap κ α)
  | none => some .empty
  | some rows => readTable once read rows

def readIndex : Option Value → Option (Option UInt64)
  | none => some none
  | some .null => some none
  | some value => value.asNumber.map some

def readActivity : Value → Option (Option DeviceActivityState)
  | .null => some none
  | a => do
    let fields ← a.asObject
    if fields.length ≠ 5 then none
    else
      let node ← (a.get "node").bind Value.asNumber
      let inst ← (a.get "instance").bind Value.asNumber
      let round ← (a.get "round").bind Value.asNumber
      let sequence ← (a.get "sequence").bind Value.asNumber
      let busy ← (a.get "busy").bind Value.asBool
      return some { node, inst, round, sequence, busy }

def readExecutor : Option Value → Option (Option Executor)
  | none => some none
  | some .null => some none
  | some e => do
    let node ← number e 0
    let term ← number e 1
    let round ← number e 2
    let fenced ← (item e 3).bind Value.asBool
    return some { node, term, round, fenced }

def readHolder (token : UInt64) : Value → Option (Option VipOwner)
  | .null => some none
  | h => do
    let node ← number h 0
    let round ← number h 1
    if node = 0 ∨ round = 0 ∨ token < round then none else return some { node, round }

def readCandidate (row : Value) : Option (Nat × Candidate) := do
  let node ← number row 0
  let inst ← number row 1
  let sequence ← number row 2
  let group ← string row 3
  let drives ← number row 4
  let eligible ← (item row 5).bind Value.asBool
  return (node.toNat, { inst, sequence, group, drives := drives.toNat, eligible })

def readHistory (row : Value) : Option (UInt64 × UInt64) := do
  let round ← number row 0
  let node ← number row 1
  return (round, node)

def readPool (row : Value) : Option (String × Pool) := do
  let uuid ← string row 0
  let name ← string row 1
  let fileLimit ← number row 2
  return (uuid, { name, fileLimit })

def readTape (row : Value) : Option (String × String) := do
  let barcode ← string row 0
  let uuid ← string row 1
  return (barcode, uuid)

def readState (row : Value) : Option (String × TapeStatus) := do
  let barcode ← string row 0
  let status ← (string row 1).bind TapeStatus.parse
  return (barcode, status)

def readSummary (row : Value) : Option (String × TapeSummary) := do
  let barcode ← string row 0
  let volumeUuid ← string row 1
  let generation ← number row 2
  let files ← number row 3
  let bytesUsed ← number row 4
  return (barcode, { volumeUuid, generation, files, bytesUsed, bytesWritten := (number row 5).getD 0 })

def catalogFits (applied : UInt64) (quiesce frozen : Option UInt64) : Bool :=
  quiesce.all (fun q => q ≠ 0 && q ≤ applied) &&
    frozen.all fun f => f ≠ 0 && f ≤ applied && quiesce.any fun q => q ≤ f

def activityFits (c : ControlState) : Bool :=
  c.deviceActivity.all fun a => a.node ≠ 0 && a.inst ≠ 0 && a.round ≠ 0 && a.sequence ≠ 0 &&
    c.executorInstance = a.inst && c.executorReady &&
    c.executor.any fun e => e.fenced && e.node = a.node && e.round = a.round

variable {Bytes : Type} (wire : Wire Bytes)

def vipRow (address : Nat) (record : VipRecord) : Value :=
  .array [.string (wire.showAddress (UInt32.ofNat address)), .number record.token, optional holderRow record.holder]

def readVip (applied : UInt64) (row : Value) : Option (Nat × VipRecord) := do
  let address ← (string row 0).bind wire.readAddress
  let token ← number row 1
  if token = 0 ∨ applied < token then none
  else
    let holder ← (item row 2).bind (readHolder token)
    return (address.toNat, { token, holder })

def fields (s : SnapshotContent) : List (String × Value) :=
  let c := s.control
  [("management", c.management), ("source", .number s.source), ("directory_index", .number s.directoryIndex),
    ("applied_index", .number c.appliedIndex), ("executor", optional executorRow c.executor),
    ("executor_instance", .number c.executorInstance), ("executor_report_sequence", .number c.executorReportSequence),
    ("executor_ready", .bool c.executorReady), ("device_activity", optional activityRow c.deviceActivity),
    ("catalog_quiesce_index", optional .number c.catalogQuiesceIndex),
    ("catalog_frozen_index", optional .number c.catalogFrozenIndex), ("vips", table (vipRow wire) c.vips),
    ("candidates", table candidateRow c.candidates), ("history", .array (c.history.map historyRow)),
    ("pools", table poolRow c.pools), ("tapes", table tapeRow c.tapes), ("tape_state", table stateRow c.tapeState),
    ("tape_summary", table summaryRow c.tapeSummary)]

def encode (s : SnapshotContent) : Bytes := wire.print (.ofFields (fields wire s))

def readControl (v : Value) : Option ControlState := do
  let appliedIndex ← (v.get "applied_index").bind Value.asNumber
  let deviceActivity ← (v.get "device_activity").bind readActivity
  let catalogQuiesceIndex ← readIndex (v.get "catalog_quiesce_index")
  let catalogFrozenIndex ← readIndex (v.get "catalog_frozen_index")
  let vips ← readLater true (readVip wire appliedIndex) (v.get "vips")
  let candidates ← readLater false readCandidate (v.get "candidates")
  let executor ← readExecutor (v.get "executor")
  let history ← ((v.get "history").bind Value.asArray).bind (List.mapM readHistory)
  let pools ← (v.get "pools").bind (readTable false readPool)
  let tapes ← (v.get "tapes").bind (readTable false readTape)
  let tapeState ← (v.get "tape_state").bind (readTable false readState)
  let tapeSummary ← (v.get "tape_summary").bind (readTable false readSummary)
  return {
    catalogQuiesceIndex, catalogFrozenIndex, management := v.field "management", vips, executor
    executorInstance := ((v.get "executor_instance").bind Value.asNumber).getD 0
    executorReportSequence := ((v.get "executor_report_sequence").bind Value.asNumber).getD 0
    executorReady := ((v.get "executor_ready").bind Value.asBool).getD false
    deviceActivity, candidates, appliedIndex, history, pools, tapes, tapeState, tapeSummary }

def decode (data : Bytes) : Option SnapshotContent := do
  let v ← wire.parse data
  let control ← readControl wire v
  if !catalogFits control.appliedIndex control.catalogQuiesceIndex control.catalogFrozenIndex || !activityFits control ||
      !Management.validSnapshot control.management then none
  else
    let source ← (v.get "source").bind Value.asNumber
    let directoryIndex ← (v.get "directory_index").bind Value.asNumber
    return { control, source, directoryIndex }

end Snapshot

end TapeRs.Daemon
