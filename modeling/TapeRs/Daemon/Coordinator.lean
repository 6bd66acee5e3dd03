import TapeRs.Daemon.ControlLog
import TapeRs.Daemon.Permission

namespace TapeRs.Daemon

/-- What the thread that works on the devices tells the control loop. -/
inductive ExecEvent where
  | management (round : UInt64) (command : Command)
  | fileTask (task round : UInt64) (pool path status : String) (generation : Option UInt64) (reason : String)
  | capability (drives : Nat) (eligible : Bool)
  | fenced (round : UInt64)
  | fenceFailed (round : UInt64) (reason : String)
  | serving (round : UInt64)
  | tapeState (round : UInt64) (barcode state : String)
  | committed (round : UInt64) (barcode volumeUuid : String) (generation filesTotal bytesUsed bytesWritten : UInt64)
      (files : List FileRec) (full : Bool)
  | lost (round : UInt64) (reason : String)
  | reclaimed (round : UInt64) (barcode volumeUuid : String)
  | reclaimAbandoned (round : UInt64) (barcode state : String)

def ExecEvent.genuine : ExecEvent → Bool
  | management _ (.observeTape ..) | management _ (.managementReport ..) => true
  | management .. => false
  | _ => true

/-- What the control loop asks that thread to do. -/
inductive ExecRequest where
  | stop (round : Option UInt64) (reason : String)
  | takeover (round : UInt64)
  | recover (round : UInt64)
deriving DecidableEq, Repr

structure CatalogReport where
  barcode : String
  volumeUuid : String
  generation : UInt64
  filesTotal : UInt64
  bytesUsed : UInt64
  bytesWritten : UInt64
  full : Bool
  files : List FileRec
  part : UInt32 := 0
  finished : Bool := false

namespace CatalogReport

def catalogPartBytes : Nat := 1048576

def cost (file : FileRec) : Nat :=
  file.path.utf8ByteSize + file.sha256.utf8ByteSize + file.metadata.size + 72

/-- The records of the next part, and those left over; a part takes at least one record. -/
def takePart (size : Nat) (some : Bool) : List FileRec → List FileRec × List FileRec
  | [] => ([], [])
  | file :: rest =>
    if catalogPartBytes < size + cost file ∧ some then ([], file :: rest)
    else
      let (taken, left) := takePart (size + cost file) true rest
      (file :: taken, left)

/-- The next command of a catalog report; there is none when the part numbers run out, where the process stops. -/
def nextCommand (r : CatalogReport) : Option (CatalogReport × Command) :=
  match takePart 0 false r.files with
  | ([], _) =>
    some ({ r with finished := true },
      .tapeCommitted r.barcode r.volumeUuid r.generation r.filesTotal r.bytesUsed r.bytesWritten r.part r.full)
  | (taken, left) =>
    if r.part.toNat + 1 < UInt32.size then
      some ({ r with files := left, part := r.part + 1 }, .catalogPart r.barcode r.generation r.part taken)
    else none

end CatalogReport

inductive PendingReport where
  | command (command : Command)
  | catalog (report : CatalogReport)

def PendingReport.command? : PendingReport → Option Command
  | command c => some c
  | catalog _ => none

/-- A question to the majority whether the round still stands. -/
structure Check where
  serial : UInt64
  term : UInt64
  round : UInt64
  phase : Phase
  deadline : Nat
deriving DecidableEq, Repr

/-- The control loop's view of one library. `sent` and `requests` are what it has handed to the log and to the device
    thread; `issued` and `closings` record the reports it has prepared, by round, and the rounds it has closed. -/
structure Coordinator where
  id : UInt64
  inst : UInt64
  group : String
  validity : Nat
  scope : Option String := none
  cooldown : Nat
  cooldownUntil : Nat
  permission : Permission
  up : Nat := 0
  capabilitySequence : UInt64 := 0
  round : Option UInt64 := none
  startedAt : Nat
  started : Bool := false
  recovering : Bool := false
  catalogReady : Bool := true
  reportSequence : UInt64 := 0
  reports : List Command := []
  pending : List PendingReport := []
  check : Option Check := none
  serial : UInt64 := 0
  nextCheck : Nat
  nextReport : Nat
  sent : List Command := []
  requests : List ExecRequest := []
  issued : List (UInt64 × Command) := []
  closings : List UInt64 := []

def ControlState.phase (ctl : ControlState) : Phase :=
  if ctl.executorReady then .serving
  else if ctl.executor.any (·.fenced) then .execution
  else .fencing

namespace Coordinator

/-- Times are in nanoseconds. The process stops when the instance is not a real one. -/
def new (id inst : UInt64) (group : String) (validity cooldown now : Nat) : Option (Result Coordinator) :=
  if group = "" ∨ validity < 100000000 then
    some (.error (.ltfs "控制/执行分离需要非空设备组和至少 100ms 的执行许可"))
  else
    (({} : ActivityRegistry).enable id inst).map fun activity => .ok
      { id, inst, group, validity, cooldown
        cooldownUntil := now
        permission := { activity }
        startedAt := now
        nextCheck := now
        nextReport := now }

def closeRound (c : Coordinator) (now : Nat) (round : UInt64) : Coordinator :=
  { c with permission := c.permission.close now round, closings := c.closings ++ [round] }

def report (c : Coordinator) (round : UInt64) (command : Command) : Coordinator :=
  if c.round ≠ some round then c else { c with pending := c.pending ++ [.command command] }

def number (c : Coordinator) (round : UInt64) (command : Command) : Coordinator :=
  { c with
    reportSequence := c.reportSequence + 1
    reports := [.executorReport c.id c.inst round (c.reportSequence + 1) command]
    issued := c.issued ++ [(round, command)] }

def prepareReport (c : Coordinator) : Coordinator :=
  match c.reports, c.round, c.pending with
  | [], some round, .command command :: rest => { c with pending := rest }.number round command
  | [], some round, .catalog catalog :: rest =>
    match catalog.nextCommand with
    | some (catalog, command) =>
      { c with pending := if catalog.finished then rest else .catalog catalog :: rest }.number round command
    | none => c
  | _, _, _ => c

def lose (c : Coordinator) (now : Nat) (round : UInt64) (reason : String) : Coordinator :=
  if c.round = some round then
    { c.closeRound now round with cooldownUntil := now + c.cooldown, up := 0 }.report round (.abandoned c.id round reason)
  else c

def capable (c : Coordinator) (now drives : Nat) (eligible : Bool) : Coordinator :=
  let c := { c with up := if eligible then min (c.up + 1) 255 else 0 }
  let c :=
    match c.round with
    | some round => if !eligible && c.scope.isSome then c.lose now round "本库完整设备组或入口网络资格已失效" else c
    | none => c
  { c with
    capabilitySequence := c.capabilitySequence + 1
    sent := c.sent ++ [.candidate c.id c.inst (c.capabilitySequence + 1) c.group drives
      (2 ≤ c.up && c.cooldownUntil ≤ now)] }

def event (c : Coordinator) (now : Nat) (ctl : ControlState) : ExecEvent → Coordinator
  | .management round command => c.report round command
  | .fileTask task round pool path status generation reason =>
    c.report round (.fileTask task round pool path status generation reason)
  | .capability drives eligible => c.capable now drives eligible
  | .fenced round => c.report round (.fenced c.id round)
  | .serving round => c.report round (.executorReady c.id round)
  | .committed round barcode volumeUuid generation filesTotal bytesUsed bytesWritten files full =>
    if full && (ctl.tapeSummary.get barcode).any (fun s => generation < s.generation) then
      c.report round (.tapeState barcode TapeStatus.check.text)
    else if c.round = some round then
      { c with
        pending := c.pending ++
          [.catalog { barcode, volumeUuid, generation, filesTotal, bytesUsed, bytesWritten, full, files }] }
    else c
  | .tapeState round barcode state | .reclaimAbandoned round barcode state =>
    c.report round (.tapeState barcode state)
  | .reclaimed round barcode volumeUuid => c.report round (.tapeReclaimed barcode volumeUuid)
  | .fenceFailed round reason | .lost round reason => c.lose now round reason

def settled (ctl : ControlState) : Command → Bool
  | .executorReport _ _ _ sequence _ => sequence ≤ ctl.executorReportSequence
  | _ => false

def observe (c : Coordinator) (now : Nat) (ctl : ControlState) (directoryIdle : Bool) : Coordinator :=
  let c := { c with permission := { c.permission with activity := c.permission.activity.observe ctl.deviceActivity } }
  if directoryIdle then
    { c with
      reports := c.reports.dropWhile (settled ctl)
      nextReport := if c.reports.head?.any (settled ctl) then now else c.nextReport }
  else c

def own (c : Coordinator) (ctl : ControlState) : Option UInt64 :=
  (ctl.executor.filter fun e => e.node = c.id && ctl.executorInstance = c.inst).map (·.round)

def adopt (c : Coordinator) (now : Nat) (own : Option UInt64) : Coordinator :=
  let c :=
    match c.round with
    | some round => { c.closeRound now round with requests := c.requests ++ [ExecRequest.stop (some round) "设备 owner 已变更"] }
    | none => c
  { c with
    round := own
    startedAt := now
    started := false
    recovering := false
    reportSequence := 0
    nextReport := now
    reports := []
    pending := []
    check := none
    nextCheck := now }

def drain (c : Coordinator) (round : UInt64) : Coordinator :=
  let updates := c.permission.activity.pending
  let c := { c with permission := { c.permission with activity := { c.permission.activity with pending := [] } } }
  updates.foldl
    (fun c update => if update.round = round then c.report round (.deviceActivity update.sequence update.busy) else c) c

def alive (c : Coordinator) (now : Nat) (round : UInt64) : Bool :=
  c.permission.allows now round .fencing || c.permission.allows now round .execution ||
    c.permission.allows now round .serving

def expire (c : Coordinator) (now : Nat) (directoryReady : Bool) (round : UInt64) : Coordinator :=
  if (!directoryReady || (c.started && !c.alive now round) ||
      (!c.started && !c.alive now round && c.validity < now - c.startedAt)) && c.cooldownUntil ≤ now then
    let reason := "目录未就绪或多数派执行许可已失效"
    let c := c.lose now round reason
    { c with
      requests := c.requests ++ [.stop (some round) ("轮次 " ++ Text.decimal round ++ " 已停止：" ++ reason)] }
  else c

def ask (c : Coordinator) (now : Nat) (term : UInt64) (ctl : ControlState) (directoryReady : Bool) (round : UInt64) :
    Coordinator :=
  if directoryReady && c.cooldownUntil ≤ now && c.nextCheck ≤ now then
    { c with
      serial := c.serial + 1
      check := some { serial := c.serial + 1, term, round, phase := ctl.phase, deadline := now + c.validity }
      nextCheck := now + c.validity / 4 }
  else c

def start (c : Coordinator) (now : Nat) (round : UInt64) : Coordinator :=
  if !c.started && c.catalogReady && c.permission.allows now round .fencing then
    { c with started := true, requests := c.requests ++ [.takeover round] }
  else c

def recover (c : Coordinator) (now : Nat) (ctl : ControlState) (round : UInt64) : Coordinator :=
  if c.started && !c.recovering && c.catalogReady && ctl.executor.any (·.fenced) &&
      c.permission.allows now round .execution then
    { c with recovering := true, requests := c.requests ++ [.recover round] }
  else c

def send (c : Coordinator) (now : Nat) : Coordinator :=
  if c.nextReport ≤ now then
    let c := c.prepareReport
    { c with
      sent := c.sent ++ c.reports.head?.toList
      nextReport := now + min (c.validity / 4) 1000000000 }
  else c

/-- The owner's part of a turn of the control loop; what a leader proposes in its turn is left to the log. -/
def tick (c : Coordinator) (now : Nat) (term : UInt64) (ctl : ControlState) (directoryReady : Bool) : Coordinator :=
  let c := if c.own ctl = c.round then c else c.adopt now (c.own ctl)
  match c.round with
  | none => c
  | some round =>
    let c := c.drain round
    let c := c.expire now directoryReady round
    let c := c.ask now term ctl directoryReady round
    let c := c.start now round
    let c := c.recover now ctl round
    c.send now

/-- The majority has answered; `reads` are the questions answered, with the log index each answer is about. -/
def confirm (c : Coordinator) (now : Nat) (term : UInt64) (ctl : ControlState) (applied : UInt64) (directoryReady : Bool)
    (reads : List (UInt64 × UInt64)) : Coordinator :=
  match c.check with
  | none => c
  | some check =>
    if directoryReady && term = check.term && check.phase = ctl.phase && ctl.executorInstance = c.inst &&
        ctl.executor.any (fun e => e.node = c.id && e.round = check.round) &&
        reads.any (fun r => r.1 = check.serial && r.2 ≤ applied) then
      { c with permission := (c.permission.renew now check.round check.phase check.deadline).1, check := none }
    else c

end Coordinator

end TapeRs.Daemon
