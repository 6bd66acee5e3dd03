import TapeRs.Daemon.DirectoryStages

namespace TapeRs.Daemon

open Json Directory ControlState

/-- The part of the control state that outlives its executors. -/
structure Records where
  catalogQuiesceIndex : Option UInt64
  catalogFrozenIndex : Option UInt64
  management : Value
  vips : SortedMap Nat VipRecord
  pools : SortedMap String Pool
  tapes : SortedMap String String
  tapeState : SortedMap String TapeStatus
  tapeSummary : SortedMap String TapeSummary

def ControlState.records (c : ControlState) : Records :=
  { catalogQuiesceIndex := c.catalogQuiesceIndex
    catalogFrozenIndex := c.catalogFrozenIndex
    management := c.management
    vips := c.vips
    pools := c.pools
    tapes := c.tapes
    tapeState := c.tapeState
    tapeSummary := c.tapeSummary }

/-- Nothing has come of a command, apart from what concerns the executor that is there. -/
def Applied.idle : Applied → Bool
  | nothing | catalogRejected | fenceConfirmed _ | fenceSuperseded .. => true
  | _ => false

theorem Applied.calm_of_idle {outcome : Applied} (idle : outcome.idle) : outcome.endsRound = false := by
  cases outcome with
  | newExecutor | executorGone => cases idle
  | _ => rfl

def Command.changesExecutor : Command → Bool
  | .takeover .. | .assignExecutor .. | .rebalanceExecutor .. | .abandoned .. => true
  | _ => false

/-- What a command, taken out of the reports around it, does to the records. -/
inductive Effect (index : UInt64) (c : ControlState) : Command × Applied → Records → Prop
  | same {cmd : Command} {outcome : Applied} (idle : outcome.idle) : Effect index c (cmd, outcome) c.records
  | relieve {cmd : Command} {outcome : Applied} (changes : cmd.changesExecutor) (ends : outcome.endsRound) :
      Effect index c (cmd, outcome) (Management.interrupt c).records
  | quiesce (thawed : c.catalogFrozenIndex = none) :
      Effect index c (.catalogQuiesce, (c.quiesceCatalog index).2) (c.quiesceCatalog index).1.records
  | resume (quiesceIndex : UInt64) (thawed : c.catalogFrozenIndex = none) :
      Effect index c (.catalogResume quiesceIndex, (c.resumeCatalog quiesceIndex).2) (c.resumeCatalog quiesceIndex).1.records
  | freeze (quiesceIndex : UInt64) :
      Effect index c (.catalogFreeze quiesceIndex, (c.freezeCatalog index quiesceIndex).2)
        (c.freezeCatalog index quiesceIndex).1.records
  | acquire (address : UInt32) (node round token : UInt64) (thawed : c.catalogFrozenIndex = none) :
      Effect index c (.vipAcquire address node round token, .nothing) (c.acquireVip index address node round token).records
  | release (address : UInt32) (node round token : UInt64) :
      Effect index c (.vipRelease address node round token, .nothing) (c.releaseVip address node round token).records
  | manage (r : Value) (thawed : c.catalogFrozenIndex = none) :
      Effect index c (.manage r, .admin (Management.apply c index r).2) (Management.apply c index r).1.records
  | observe (barcode : String) (observation : Value) (thawed : c.catalogFrozenIndex = none) :
      Effect index c (.observeTape barcode observation, .nothing)
        (Management.observeTape c barcode observation index).records
  | report (task round : UInt64) (phase : String) (result : Value) (thawed : c.catalogFrozenIndex = none) :
      Effect index c (.managementReport task round phase result, (c.managementReport task round phase result).2)
        (c.managementReport task round phase result).1.records
  | create (uuid name : String) (fileLimit : UInt64) (thawed : c.catalogFrozenIndex = none) :
      Effect index c (.poolCreate uuid name fileLimit, .admin (c.poolCreate uuid name fileLimit).2)
        (c.poolCreate uuid name fileLimit).1.records
  | assign (barcode pool : String) (thawed : c.catalogFrozenIndex = none) :
      Effect index c (.tapeAssign barcode pool, .admin (c.tapeAssign barcode pool).2) (c.tapeAssign barcode pool).1.records
  | unassign (barcode : String) (thawed : c.catalogFrozenIndex = none) :
      Effect index c (.tapeUnassign barcode, .admin (c.tapeUnassign barcode).2) (c.tapeUnassign barcode).1.records
  | state (barcode state : String) (thawed : c.catalogFrozenIndex = none) :
      Effect index c (.tapeState barcode state, .nothing) (c.setTapeState index barcode state).records
  | reclaim (barcode : String) (thawed : c.catalogFrozenIndex = none) :
      Effect index c (.tapeReclaim barcode, .admin (c.tapeReclaim barcode).2) (c.tapeReclaim barcode).1.records
  | reclaimed (barcode volumeUuid : String) (thawed : c.catalogFrozenIndex = none) :
      Effect index c (.tapeReclaimed barcode volumeUuid, (c.tapeReclaimed index barcode volumeUuid).2)
        (c.tapeReclaimed index barcode volumeUuid).1.records
  | commit (barcode volumeUuid : String) (generation files bytesUsed bytesWritten : UInt64) (parts : UInt32) (full : Bool)
      (thawed : c.catalogFrozenIndex = none) :
      Effect index c (.tapeCommitted barcode volumeUuid generation files bytesUsed bytesWritten parts full,
          (c.tapeCommitted index barcode volumeUuid generation files bytesUsed bytesWritten).2)
        (c.tapeCommitted index barcode volumeUuid generation files bytesUsed bytesWritten).1.records

/-- The state that the command of an entry finds: the index has moved on, and a report around it has been counted. -/
def ControlState.found (c : ControlState) (index sequence : UInt64) : ControlState :=
  { c with appliedIndex := index, executorReportSequence := sequence }

namespace ControlState

variable {c : ControlState} {index : UInt64} {cmd : Command}

def Has (c : ControlState) (index : UInt64) (effect : Command × Applied) (after : Records) : Prop :=
  ∃ sequence, Effect index (c.found index sequence) effect after

theorem thawed_of_free (free : c.rejects cmd = false) (halts : cmd.survivesFreeze = false) :
    c.catalogFrozenIndex = none := by
  unfold rejects at free
  rw [halts] at free
  simp only [Bool.not_false, Bool.and_true, Bool.or_eq_false_iff] at free
  exact Option.not_isSome_iff_eq_none.mp (Bool.eq_false_iff.mp free.1)

theorem guarded_has {run : ControlState × Applied} (plain : ∀ outcome, unwrap cmd outcome = (cmd, outcome))
    (ran : (c.advanced index).rejects cmd = false → Effect index (c.advanced index) (cmd, run.2) run.1.records) :
    c.Has index (unwrap cmd ((c.advanced index).guarded cmd run).2)
      ((c.advanced index).guarded cmd run).1.records := by
  refine ⟨c.executorReportSequence, ?_⟩
  rw [plain]
  unfold guarded
  split
  · exact .same rfl
  · rename_i free
    exact ran (Bool.eq_false_iff.mpr free)

theorem assign_effect (c : ControlState) (index node inst term : UInt64) (expectedRound : Option UInt64)
    (group : String) (changes : cmd.changesExecutor) :
    Effect index c (cmd, (c.assign index node inst term expectedRound group).2)
      (c.assign index node inst term expectedRound group).1.records := by
  unfold assign guarded
  split
  · exact .same rfl
  · cases c.rejects (.takeover node term) with
    | true => exact .same rfl
    | false => exact .relieve changes rfl

theorem apply_effect (c : ControlState) (index : UInt64) (cmd : Command) :
    c.Has index (unwrap cmd (c.apply index cmd).2) (c.apply index cmd).1.records := by
  induction cmd generalizing c with
  | executorReport node inst round sequence command ih =>
    simp only [apply, guarded]
    split
    · exact ⟨c.executorReportSequence, .same rfl⟩
    split
    · exact ⟨c.executorReportSequence, .same rfl⟩
    split
    · split
      · rename_i number busy kind
        cases command with
        | deviceActivity => exact ⟨c.executorReportSequence, .same rfl⟩
        | _ => cases kind
      · exact ih { c.advanced index with executorReportSequence := sequence }
    · exact ⟨c.executorReportSequence, .same rfl⟩
  | catalogQuiesce => exact guarded_has (fun _ => rfl) fun free => .quiesce (thawed_of_free free rfl)
  | catalogResume quiesceIndex => exact guarded_has (fun _ => rfl) fun free => .resume _ (thawed_of_free free rfl)
  | catalogFreeze quiesceIndex => exact guarded_has (fun _ => rfl) fun _ => .freeze _
  | manage request => exact guarded_has (fun _ => rfl) fun free => .manage _ (thawed_of_free free rfl)
  | observeTape barcode observation => exact guarded_has (fun _ => rfl) fun free => .observe _ _ (thawed_of_free free rfl)
  | managementReport task round phase result =>
    exact guarded_has (fun _ => rfl) fun free => .report _ _ _ _ (thawed_of_free free rfl)
  | vipAcquire address node round expectedToken =>
    exact guarded_has (fun _ => rfl) fun free => .acquire _ _ _ _ (thawed_of_free free rfl)
  | vipRelease address node round token => exact guarded_has (fun _ => rfl) fun _ => .release _ _ _ _
  | poolCreate uuid name fileLimit => exact guarded_has (fun _ => rfl) fun free => .create _ _ _ (thawed_of_free free rfl)
  | tapeAssign barcode pool => exact guarded_has (fun _ => rfl) fun free => .assign _ _ (thawed_of_free free rfl)
  | tapeUnassign barcode => exact guarded_has (fun _ => rfl) fun free => .unassign _ (thawed_of_free free rfl)
  | tapeState barcode state => exact guarded_has (fun _ => rfl) fun free => .state _ _ (thawed_of_free free rfl)
  | tapeReclaim barcode => exact guarded_has (fun _ => rfl) fun free => .reclaim _ (thawed_of_free free rfl)
  | tapeReclaimed barcode volumeUuid => exact guarded_has (fun _ => rfl) fun free => .reclaimed _ _ (thawed_of_free free rfl)
  | tapeCommitted barcode volumeUuid generation files bytesUsed bytesWritten parts full =>
    exact guarded_has (fun _ => rfl) fun free => .commit _ _ _ _ _ _ _ _ (thawed_of_free free rfl)
  | assignExecutor node inst term expectedRound group =>
    exact guarded_has (fun _ => rfl) fun _ => assign_effect _ _ _ _ _ _ _ rfl
  | rebalanceExecutor node inst term expectedRound expectedInstance idleSequence group =>
    refine guarded_has (fun _ => rfl) fun _ => ?_
    unfold rebalance guarded
    split
    · split
      · exact .same rfl
      · exact assign_effect _ _ _ _ _ _ _ rfl
    · exact .same rfl
  | takeover node term => exact guarded_has (fun _ => rfl) fun _ => .relieve rfl rfl
  | abandoned node round reason =>
    refine guarded_has (fun _ => rfl) fun _ => ?_
    simp only [abandon]
    split
    · exact .relieve rfl rfl
    · exact .same rfl
  | fenced node round =>
    refine guarded_has (fun _ => rfl) fun _ => ?_
    simp only [confirmFence]
    split
    · split <;> exact .same rfl
    · exact .same rfl
  | executorReady node round =>
    refine guarded_has (fun _ => rfl) fun _ => ?_
    simp only [announceReady]
    split <;> exact .same rfl
  | candidate node inst sequence group drives eligible =>
    refine guarded_has (fun _ => rfl) fun _ => ?_
    simp only [recordCandidate]
    split <;> exact .same rfl
  | deviceActivity | catalogPart | fileTask => exact guarded_has (fun _ => rfl) fun _ => .same rfl

end ControlState

def Command.reportable : Command → Bool
  | .fenced .. | .abandoned .. | .executorReady .. | .deviceActivity .. | .tapeState .. | .fileTask ..
  | .managementReport .. | .observeTape .. | .catalogPart .. | .tapeCommitted .. | .tapeReclaimed .. => true
  | _ => false

theorem Command.reportable_unwrap {cmd : Command} (reported : cmd.reportable) (outcome : Applied) :
    unwrap cmd outcome = (cmd, outcome) := by
  cases cmd with
  | executorReport => cases reported
  | _ => rfl

theorem ControlState.apply_unwrap (c : ControlState) (index : UInt64) (cmd : Command) :
    (unwrap cmd (c.apply index cmd).2).1 = cmd ∨
      ∃ node inst round sequence command, cmd = .executorReport node inst round sequence command ∧
        c.core.Runs node inst round ∧ command.reportable ∧ (unwrap cmd (c.apply index cmd).2).1 = command := by
  cases cmd with
  | executorReport node inst round sequence command =>
    simp only [apply, guarded]
    split
    · exact .inl rfl
    split
    · exact .inl rfl
    split
    · rename_i accepted
      obtain ⟨e, current, ofNode, ofRound, owned, _, _, allowed⟩ := accepts_iff.mp accepted
      have reported : command.reportable := by
        cases command <;> first | rfl | cases allowed
      refine .inr ⟨node, inst, round, sequence, command, rfl, ⟨owned, e, current, ofNode, ofRound⟩, reported, ?_⟩
      split
      · exact congrArg Prod.fst (Command.reportable_unwrap reported _)
      · exact congrArg Prod.fst (Command.reportable_unwrap reported _)
    · exact .inl rfl
  | _ => exact .inl rfl

theorem replay_effect (log : List Entry) (entry : Entry) :
    (replay log).Has entry.1 (unwrap entry.2 (outcome log entry)) (replay (log ++ [entry])).records := by
  rw [replay_append]
  exact (replay log).apply_effect entry.1 entry.2

def Command.quiesces : Command → Bool
  | .catalogQuiesce | .catalogResume .. => true
  | _ => false

def Command.freezes : Command → Bool
  | .catalogFreeze .. => true
  | _ => false

def Command.movesVips : Command → Bool
  | .vipAcquire .. | .vipRelease .. => true
  | _ => false

def Command.movesPools : Command → Bool
  | .manage .. | .managementReport .. | .poolCreate .. | .tapeAssign .. | .tapeUnassign .. => true
  | _ => false

def Command.marksTapes : Command → Bool
  | .managementReport .. | .tapeUnassign .. | .tapeState .. | .tapeReclaim .. | .tapeReclaimed .. | .tapeCommitted .. => true
  | _ => false

def Command.plans : Command → Bool
  | .takeover .. | .assignExecutor .. | .rebalanceExecutor .. | .abandoned .. | .manage .. | .observeTape ..
  | .managementReport .. | .tapeUnassign .. | .tapeState .. | .tapeReclaimed .. | .tapeCommitted .. => true
  | _ => false

/-- The records that a command does not write to. -/
structure Kept (c : ControlState) (effect : Command × Applied) (after : Records) : Prop where
  quiesced : effect.1.quiesces = false → after.catalogQuiesceIndex = c.catalogQuiesceIndex
  frozen : effect.1.freezes = false → after.catalogFrozenIndex = c.catalogFrozenIndex
  vips : effect.1.movesVips = false → after.vips = c.vips
  pools : effect.1.movesPools = false → after.pools = c.pools ∧ after.tapes = c.tapes
  tapes : effect.1.marksTapes = false → after.tapeState = c.tapeState ∧ after.tapeSummary = c.tapeSummary
  management : effect.1.plans = false → after.management = c.management
  calm : effect.1.changesExecutor = false → effect.2.endsRound = false

theorem Effect.kept {index : UInt64} {c : ControlState} {effect : Command × Applied} {after : Records}
    (has : Effect index c effect after) : Kept c effect after := by
  cases has
  case same idle =>
    exact ⟨fun _ => rfl, fun _ => rfl, fun _ => rfl, fun _ => ⟨rfl, rfl⟩, fun _ => ⟨rfl, rfl⟩, fun _ => rfl,
      fun _ => Applied.calm_of_idle idle⟩
  case relieve cmd _ changes _ =>
    obtain ⟨m, only⟩ := Management.interrupt_only c
    have plans : cmd.plans = true := by
      cases cmd <;> first | rfl | cases changes
    rw [only]
    exact ⟨fun _ => rfl, fun _ => rfl, fun _ => rfl, fun _ => ⟨rfl, rfl⟩, fun _ => ⟨rfl, rfl⟩,
      fun still => absurd plans (Bool.eq_false_iff.mp still), fun still => absurd changes (Bool.eq_false_iff.mp still)⟩
  -- The other commands write one thing or another; what they leave alone is then the same by definition.
  case' quiesce => unfold quiesceCatalog
  case' resume => unfold resumeCatalog
  case' freeze => unfold freezeCatalog
  case' acquire =>
    unfold acquireVip
    dsimp only
  case' release => unfold releaseVip
  case' manage r _ =>
    obtain ⟨m, pools, only⟩ := Management.apply_frame c index r
    rw [only]
  case' observe barcode observation _ =>
    obtain ⟨m, _, only⟩ := Management.observeTape_only c barcode observation index
    rw [only]
  case' report id round phase result _ =>
    have calm := (c.managementReport_steady id round phase result).calm
    obtain ⟨m, pools, tapes, only | ⟨_, _, _, _, _, _, only⟩⟩ := c.managementReport_frame id round phase result
    all_goals rw [only]
  case' create uuid name fileLimit _ =>
    rcases c.poolCreate_cases uuid name fileLimit with ⟨_, only⟩ | ⟨_, _, only⟩
    all_goals rw [only]
  case' assign barcode pool _ =>
    rcases c.tapeAssign_cases barcode pool with ⟨_, only⟩ | ⟨_, _, _, _, _, only⟩
    all_goals rw [only]
  case' unassign barcode _ =>
    rcases c.tapeUnassign_cases barcode with ⟨_, only⟩ | ⟨_, _, _, _, _, only⟩
    all_goals rw [only]
  case' state barcode state _ =>
    obtain ⟨m, states, _, only⟩ := c.setTapeState_frame index barcode state
    rw [only]
  case' reclaim barcode _ =>
    rcases c.tapeReclaim_cases barcode with ⟨_, only⟩ | ⟨_, only⟩
    all_goals rw [only]
  case' reclaimed barcode volumeUuid _ =>
    obtain ⟨m, summary, states, _, only, _, calm⟩ := c.tapeReclaimed_frame index barcode volumeUuid
    rw [only]
  case' commit barcode volumeUuid generation files bytesUsed bytesWritten _ _ _ =>
    obtain ⟨m, summary, _, only, _, calm⟩ :=
      c.tapeCommitted_frame index barcode volumeUuid generation files bytesUsed bytesWritten
    rw [only]
  all_goals
    repeat' split
    all_goals constructor <;> intro still <;> first | rfl | exact ⟨rfl, rfl⟩ | assumption | cases still

/-- An entry changes only what its command is about. -/
theorem entry_keeps_other_records (log : List Entry) (entry : Entry) :
    Kept (replay log) (unwrap entry.2 (outcome log entry)) (replay (log ++ [entry])).records := by
  obtain ⟨_, effect⟩ := replay_effect log entry
  exact { effect.kept with }

end TapeRs.Daemon
