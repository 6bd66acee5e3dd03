import TapeRs.Daemon.Management

namespace TapeRs.Daemon

open Json

namespace Command

def survivesFreeze : Command → Bool
  | catalogFreeze .. | candidate .. | vipRelease .. | rebalanceExecutor .. | assignExecutor .. | takeover ..
  | executorReport .. | fenced .. | executorReady .. | abandoned .. => true
  | _ => false

def haltedByQuiesce : Command → Bool
  | manage .. | poolCreate .. | tapeAssign .. | tapeUnassign .. | tapeReclaim .. | rebalanceExecutor ..
  | assignExecutor .. | takeover .. => true
  | _ => false

def ownerLifecycle : Command → Bool
  | deviceActivity .. | fenced .. | executorReady .. | abandoned .. => true
  | _ => false

def activity? : Command → Option (UInt64 × Bool)
  | deviceActivity sequence busy => some (sequence, busy)
  | _ => none

end Command

def quoted (text : String) : String :=
  String.ofList ('"' :: text.toList.flatMap (fun c => if c = '"' ∨ c = '\\' then ['\\', c] else [c]) ++ ['"'])

namespace ControlState

def rejects (c : ControlState) (cmd : Command) : Bool :=
  (c.catalogFrozenIndex.isSome && !cmd.survivesFreeze) ||
    (c.catalogQuiesceIndex.isSome && cmd.haltedByQuiesce && c.catalogFrozenIndex.isNone)

def guarded (c : ControlState) (cmd : Command) (run : ControlState × Applied) : ControlState × Applied :=
  if c.rejects cmd then (c, .catalogRejected) else run

def reply (key : String) (value : Value) : Applied := .admin (.ok (.json (.ofFields [(key, value)])))

def quiesceCatalog (c : ControlState) (index : UInt64) : ControlState × Applied :=
  if Management.activeTasks c.management || c.reclaims then
    (c, .admin (.error "管理任务或回收仍未结束，不能暂停旧目录"))
  else
    let quiesce := c.catalogQuiesceIndex.getD index
    ({ c with catalogQuiesceIndex := some quiesce }, reply "quiesce_index" (.number quiesce))

def resumeCatalog (c : ControlState) (quiesceIndex : UInt64) : ControlState × Applied :=
  if quiesceIndex = 0 ∨ c.catalogQuiesceIndex ≠ some quiesceIndex then (c, .admin (.error "目录暂停轮次已变化"))
  else ({ c with catalogQuiesceIndex := none }, reply "resumed" (.bool true))

def freezeCatalog (c : ControlState) (index quiesceIndex : UInt64) : ControlState × Applied :=
  if quiesceIndex = 0 ∨ c.catalogQuiesceIndex ≠ some quiesceIndex then (c, .admin (.error "目录暂停轮次已变化"))
  else
    match c.catalogFrozenIndex with
    | some frozen => (c, reply "frozen_index" (.number frozen))
    | none =>
      if c.executor.isSome || Management.activeTasks c.management || c.reclaims then
        (c, .admin (.error "设备 owner、管理任务或回收仍未结束"))
      else ({ c with catalogFrozenIndex := some index }, reply "frozen_index" (.number index))

def runs (c : ControlState) (node round : UInt64) : Bool :=
  c.executor.any fun e => e.node = node && e.round = round

def acquireVip (c : ControlState) (index : UInt64) (address : UInt32) (node round expectedToken : UInt64) :
    ControlState :=
  let record := (c.vips.get address.toNat).getD {}
  if record.token < index ∧ record.token = expectedToken ∧ record.holder.isNone ∧ node ≠ 0 ∧ c.runs node round then
    { c with vips := c.vips.insert address.toNat { token := index, holder := some { node, round } } }
  else c

def releaseVip (c : ControlState) (address : UInt32) (node round token : UInt64) : ControlState :=
  match c.vips.get address.toNat with
  | some record =>
    if record.token = token ∧ record.holder = some { node, round } then
      { c with vips := c.vips.insert address.toNat { record with holder := none } }
    else c
  | none => c

def recordCandidate (c : ControlState) (node inst sequence : UInt64) (group : String) (drives : Nat)
    (eligible : Bool) : ControlState :=
  if node = 0 ∨ inst = 0 ∨ sequence = 0 ∨ group = "" ∨ (c.candidates.get node.toNat).any (fun old =>
      inst < old.inst || (inst = old.inst && sequence ≤ old.sequence)) then c
  else
    { c with
      candidates := c.candidates.insert node.toNat { inst, sequence, group, drives, eligible := eligible && 0 < drives } }

def takeOver (c : ControlState) (index node term : UInt64) : ControlState × Applied :=
  let c := Management.interrupt c
  let e : Executor := { node, term, round := index, fenced := false }
  let history := c.history ++ [(index, node)]
  ({ c with
      executorInstance := 0
      executorReportSequence := 0
      executorReady := false
      deviceActivity := none
      history := history.drop (history.length - historyKept)
      executor := some e }, .newExecutor e)

def assign (c : ControlState) (index node inst term : UInt64) (expectedRound : Option UInt64) (group : String) :
    ControlState × Applied :=
  if c.executor.map (·.round) ≠ expectedRound ∨ !(c.candidates.get node.toNat).any (fun candidate =>
      candidate.inst = inst && candidate.eligible && candidate.group = group) then (c, .nothing)
  else
    let (c, outcome) := c.guarded (.takeover node term) (c.takeOver index node term)
    ({ c with executorInstance := inst }, outcome)

def provesIdle (c : ControlState) (expectedRound expectedInstance idleSequence : UInt64) : Bool :=
  c.executorReady && c.executorInstance = expectedInstance &&
    c.executor.any (fun e => e.fenced && e.round = expectedRound) &&
    c.deviceActivity.any fun a => !a.busy && a.round = expectedRound && a.inst = expectedInstance &&
      a.sequence = idleSequence && c.executor.any fun e => e.node = a.node

def rebalance (c : ControlState) (index node inst term expectedRound expectedInstance idleSequence : UInt64)
    (group : String) : ControlState × Applied :=
  if c.provesIdle expectedRound expectedInstance idleSequence then
    c.guarded (.assignExecutor node inst term (some expectedRound) group)
      (c.assign index node inst term (some expectedRound) group)
  else (c, .nothing)

def confirmFence (c : ControlState) (node round : UInt64) : ControlState × Applied :=
  match c.executor with
  | some e =>
    if e.round = round ∧ e.node = node then
      ({ c with executor := some { e with fenced := true } }, .fenceConfirmed { e with fenced := true })
    else (c, .fenceSuperseded node round)
  | none => (c, .fenceSuperseded node round)

def announceReady (c : ControlState) (node round : UInt64) : ControlState :=
  if c.executor.any (fun e => e.node = node && e.round = round && e.fenced) then { c with executorReady := true } else c

def abandon (c : ControlState) (node round : UInt64) : ControlState × Applied :=
  if c.runs node round then
    let c := Management.interrupt c
    ({ c with executor := none, executorReady := false, deviceActivity := none }, .executorGone node round)
  else (c, .nothing)

def poolCreate (c : ControlState) (uuid name : String) (fileLimit : UInt64) : ControlState × Except String Reply :=
  if Management.activeTasks c.management then (c, .error "存在未结束管理任务")
  else if name = "" ∨ '/' ∈ name.toList then (c, .error ("池名非法: " ++ quoted name))
  else if c.pools.contains uuid then (c, .error ("池 UUID 已存在: " ++ uuid))
  else if c.pools.entries.any (fun entry => entry.2.name = name) then (c, .error ("池名已存在: " ++ name))
  else if fileLimit = 0 then (c, .error "文件数上限必须大于 0")
  else ({ c with pools := c.pools.insert uuid { name, fileLimit } }, .ok (.text uuid))

def tapeUnassign (c : ControlState) (barcode : String) : ControlState × Except String Reply :=
  if Management.activeTasks c.management then (c, .error "存在未结束管理任务")
  else if !c.tapes.contains barcode then (c, .error (barcode ++ " 未归属任何池"))
  else
    match (c.tapeSummary.get barcode).filter fun s => 0 < s.files with
    | some s => (c, .error (barcode ++ " 上还有 " ++ Text.decimal s.files ++ " 个文件，不能解除归属"))
    | none =>
      let m :=
        match (c.management.get "tapes").bind Value.asObject with
        | some options =>
          (c.management.set "tapes" ((Value.object options).remove barcode)).set "revision" (.number c.appliedIndex)
        | none => c.management
      ({ c with
          management := m
          tapes := c.tapes.erase barcode
          tapeSummary := c.tapeSummary.erase barcode
          tapeState := c.tapeState.erase barcode }, .ok (.text (barcode ++ " 已解除归属")))

def hasReclaimTarget (c : ControlState) (barcode pool : String) : Bool :=
  c.tapes.entries.any fun entry => entry.2 = pool && entry.1 ≠ barcode &&
    Management.tapeAllowed c.management entry.1 && c.tapeStatus entry.1 = .appendable

def tapeReclaim (c : ControlState) (barcode : String) : ControlState × Except String Reply :=
  if Management.activeTasks c.management then (c, .error "存在未结束管理任务")
  else if !Management.tapeAllowed c.management barcode then (c, .error "回收源带离线或在黑名单中")
  else
    match c.tapes.get barcode with
    | none => (c, .error (barcode ++ " 未归属任何池"))
    | some pool =>
      let status := c.tapeStatus barcode
      if status.inReclaim then (c, .error (barcode ++ " 已在回收中"))
      else if status = .labelMismatch ∨ status = .check then
        (c, .error (barcode ++ " 当前状态是 " ++ status.text ++ "，先人工处理再回收"))
      else if !c.hasReclaimTarget barcode pool then
        (c, .error (barcode ++ " 所在的池里没有别的可写带作为回收目标"))
      else ({ c with tapeState := c.tapeState.insert barcode .reclaiming }, .ok (.text (barcode ++ " 开始回收")))

def tapeAssign (c : ControlState) (barcode pool : String) : ControlState × Except String Reply :=
  if Management.activeTasks c.management then (c, .error "存在未结束管理任务")
  else if barcode = "" then (c, .error "条码为空")
  else
    match c.resolvePool pool with
    | none => (c, .error ("没有这个池: " ++ pool))
    | some uuid =>
      match c.tapes.get barcode with
      | some current =>
        (c, .error (barcode ++ " 已归属池 " ++ ((c.pools.get current).map (·.name)).getD "?"))
      | none =>
        match Management.requireDataTape c.management barcode with
        | .error reason => (c, .error reason)
        | .ok () =>
          match Management.checkMedia (Management.mediaRestriction c.management uuid) barcode with
          | .error reason => (c, .error reason)
          | .ok () =>
            ({ c with tapes := c.tapes.insert barcode uuid },
              .ok (.text (barcode ++ " 已归入池 " ++ c.poolName uuid)))

def setTapeState (c : ControlState) (index : UInt64) (barcode state : String) : ControlState :=
  match TapeStatus.parse state with
  | none => c
  | some status =>
    if c.tapes.contains barcode ∧ (status = .reformatting → c.tapeState.get barcode = some .reclaiming) then
      let c :=
        if status = .reformatting then Management.invalidateCapacity c barcode "磁带即将重新格式化" index else c
      { c with tapeState := c.tapeState.insert barcode status }
    else c

def tapeReclaimed (c : ControlState) (index : UInt64) (barcode volumeUuid : String) : ControlState × Applied :=
  -- A late duplicate must not empty a tape that has been written to since.
  if (c.tapeState.get barcode).any (·.inReclaim) then
    let c := Management.invalidateOtherVolume c barcode volumeUuid index
    ({ c with
        tapeSummary := c.tapeSummary.insert barcode
          { volumeUuid, generation := 1, files := 0, bytesUsed := 0, bytesWritten := 0 }
        tapeState := c.tapeState.insert barcode .appendable }, .reclaimed)
  else (c, .nothing)

def tapeCommitted (c : ControlState) (index : UInt64) (barcode volumeUuid : String)
    (generation files bytesUsed bytesWritten : UInt64) : ControlState × Applied :=
  let newer := (c.tapeSummary.get barcode).all fun s => s.generation ≤ generation
  if c.tapes.contains barcode && newer then
    let c :=
      if (c.tapeSummary.get barcode).any (fun s => s.volumeUuid ≠ volumeUuid) then
        Management.invalidateOtherVolume c barcode volumeUuid index
      else c
    ({ c with tapeSummary := c.tapeSummary.insert barcode { volumeUuid, generation, files, bytesUsed, bytesWritten } },
      .catalogCommitted)
  else (c, .nothing)

def managementReport (c : ControlState) (task round : UInt64) (phase : String) (result : Value) :
    ControlState × Applied :=
  let (c, done) := Management.report c task round phase result
  if done then (c, .management (Management.directoryChanges c task)) else (c, .nothing)

def admissible (c : ControlState) (e : Executor) (node round : UInt64) : Command → Bool
  | .fenced n r | .abandoned n r _ => n = node && r = round
  | .executorReady n r => e.fenced && n = node && r = round
  | .deviceActivity sequence _ =>
    e.fenced && c.executorReady &&
      (match c.deviceActivity with
        | none => some 1
        | some a => Word.succ? a.sequence) = some sequence
  | .tapeState .. | .fileTask .. | .managementReport .. | .observeTape .. | .catalogPart .. | .tapeCommitted ..
  | .tapeReclaimed .. => e.fenced
  | _ => false

def accepts (c : ControlState) (node inst round sequence : UInt64) (command : Command) : Bool :=
  match c.executor.filter fun e => e.node = node && e.round = round with
  | none => false
  | some e =>
    c.executorInstance = inst && Word.succ? c.executorReportSequence = some sequence &&
      (c.candidates.get node.toNat).any (fun candidate => candidate.inst = inst) && c.admissible e node round command

def advanced (c : ControlState) (index : UInt64) : ControlState := { c with appliedIndex := index }

def apply (c : ControlState) (index : UInt64) (cmd : Command) : ControlState × Applied :=
  let c := c.advanced index
  c.guarded cmd <|
    match cmd with
    | .catalogQuiesce => c.quiesceCatalog index
    | .catalogResume quiesceIndex => c.resumeCatalog quiesceIndex
    | .catalogFreeze quiesceIndex => c.freezeCatalog index quiesceIndex
    | .manage request =>
      let (c, answer) := Management.apply c index request
      (c, .admin answer)
    | .observeTape barcode observation => (Management.observeTape c barcode observation index, .nothing)
    | .managementReport task round phase result => c.managementReport task round phase result
    | .vipAcquire address node round expectedToken => (c.acquireVip index address node round expectedToken, .nothing)
    | .vipRelease address node round token => (c.releaseVip address node round token, .nothing)
    | .executorReport node inst round sequence command =>
      if c.catalogFrozenIndex.isSome && !command.ownerLifecycle then (c, .catalogRejected)
      else if c.accepts node inst round sequence command then
        let c := { c with executorReportSequence := sequence }
        match command.activity? with
        | some (sequence, busy) =>
          ({ c with deviceActivity := some { node, inst, round, sequence, busy } }, .reported .nothing)
        | none =>
          let (c, inner) := c.apply index command
          (c, .reported inner)
      else (c, .nothing)
    | .executorReady node round => (c.announceReady node round, .nothing)
    | .candidate node inst sequence group drives eligible =>
      (c.recordCandidate node inst sequence group drives eligible, .nothing)
    | .deviceActivity .. => (c, .nothing)
    | .rebalanceExecutor node inst term expectedRound expectedInstance idleSequence group =>
      c.rebalance index node inst term expectedRound expectedInstance idleSequence group
    | .assignExecutor node inst term expectedRound group => c.assign index node inst term expectedRound group
    | .takeover node term => c.takeOver index node term
    | .fenced node round => c.confirmFence node round
    | .abandoned node round _ => c.abandon node round
    | .poolCreate uuid name fileLimit =>
      let (c, answer) := c.poolCreate uuid name fileLimit
      (c, .admin answer)
    | .tapeAssign barcode pool =>
      let (c, answer) := c.tapeAssign barcode pool
      (c, .admin answer)
    | .tapeUnassign barcode =>
      let (c, answer) := c.tapeUnassign barcode
      (c, .admin answer)
    | .tapeState barcode state => (c.setTapeState index barcode state, .nothing)
    | .tapeReclaim barcode =>
      let (c, answer) := c.tapeReclaim barcode
      (c, .admin answer)
    | .tapeReclaimed barcode volumeUuid => c.tapeReclaimed index barcode volumeUuid
    -- File records and file tasks live in the directory only.
    | .catalogPart .. => (c, .nothing)
    | .fileTask .. => (c, .nothing)
    | .tapeCommitted barcode volumeUuid generation files bytesUsed bytesWritten _ _ =>
      c.tapeCommitted index barcode volumeUuid generation files bytesUsed bytesWritten

end ControlState

end TapeRs.Daemon
