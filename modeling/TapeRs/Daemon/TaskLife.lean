import TapeRs.Daemon.Tidy

namespace TapeRs.Daemon

open Json ControlState Value Directory Text List

namespace Management

def stateOf (task : Value) : Option String := (task.field "state").asString

def endStates : List String := ["success", "failed", "cancelled", "indeterminate"]

theorem running_iff {task : Value} : running task ↔ stateOf task = some "running" := decide_eq_true_iff

theorem active_iff {task : Value} : active task ↔ stateOf task = some "queued" ∨ stateOf task = some "running" := by
  simp [active, isText, stateOf]

theorem extends_of_stateOf {task : Value} {state : String} (there : stateOf task = some state) : task.Extends :=
  extends_of_isText (decide_eq_true there)

theorem not_active_of_ended {task : Value} {state : String} (ended : state ∈ endStates) (there : stateOf task = some state) :
    active task = false := by
  rw [Bool.eq_false_iff, ne_eq, active_iff, there]
  simp only [endStates, mem_cons, not_mem_nil, or_false] at ended
  rcases ended with rfl | rfl | rfl | rfl <;> decide

theorem stateOf_set {task : Value} (takes : task.Extends) (key : String) (value : Value) :
    stateOf (task.set key value) = if "state" = key then value.asString else stateOf task := by
  rw [stateOf, field_set takes]
  split <;> rfl

theorem stateOf_interruptTask (task : Value) :
    stateOf (interruptTask task) = if running task then some "indeterminate" else stateOf task := by
  unfold interruptTask
  split
  · rename_i runs
    have takes := extends_of_stateOf (running_iff.mp runs)
    rw [stateOf_set (extends_set takes ..), stateOf_set takes]
    rfl
  · rfl

theorem stateOf_cancelTask (task : Value) :
    stateOf (cancelTask task) = if stateOf task = some "queued" then some "cancelled" else stateOf task := by
  unfold cancelTask
  have named : ∀ text, ((task.field "state").isText text = true) = (stateOf task = some text) := by
    intro text
    simp [isText, stateOf]
  simp only [named]
  by_cases queued : stateOf task = some "queued"
  · have takes := extends_of_stateOf queued
    rw [if_pos queued, if_pos queued]
    split
    · rw [stateOf_set (extends_set takes ..), stateOf_set takes]
      rfl
    · rw [stateOf_set takes]
      rfl
  · rw [if_neg queued, if_neg queued]
    split
    · rename_i ends
      have takes : task.Extends := by
        rcases Bool.or_eq_true_iff.mp ends with there | there
        · exact extends_of_isText there
        · exact extends_of_isText there
      rw [stateOf_set takes]
      rfl
    · rfl

theorem round_cancelTask (task : Value) : (cancelTask task).field "round" = task.field "round" := by
  unfold cancelTask
  have kept : ∀ {v : Value} (key : String) (value : Value), v.Extends → key ≠ "round" →
      (v.set key value).field "round" = v.field "round" := by
    intro v key value takes apart
    rw [field_set takes, if_neg (Ne.symm apart)]
  by_cases queued : (task.field "state").isText "queued"
  · have takes := extends_of_isText queued
    simp only [if_pos queued]
    split
    · rw [kept _ _ (extends_set takes ..) (by decide), kept _ _ takes (by decide)]
    · rw [kept _ _ takes (by decide)]
  · simp only [if_neg queued]
    split
    · rename_i ends
      have takes : task.Extends := by
        rcases Bool.or_eq_true_iff.mp ends with there | there
        · exact extends_of_isText there
        · exact extends_of_isText there
      exact kept _ _ takes (by decide)
    · rfl

/-- What an entry that ends no round can do to the task under a key. -/
inductive Turn (index : UInt64) (c : ControlState) (effect : Command × Applied) (key : String) :
    Option Value → Option Value → Prop
  | same {task : Option Value} : Turn index c effect key task task
  | cancel {task : Value} : Turn index c effect key (some task) (some (cancelTask task))
  | clear {task : Value} (ended : active task = false) : Turn index c effect key (some task) none
  | file {old : Option Value} {task : Value} (here : key = Text.decimal index) (queued : stateOf task = some "queued") :
      Turn index c effect key old (some task)
  | amend {id : UInt64} {phase : String} {result task : Value} {e : Executor} {fields : List (String × Value)}
      (called : effect.1 = .managementReport id e.round phase result) (here : key = Text.decimal id)
      (current : c.executor = some e) (amends : Amends task e.node e.round fields) :
      Turn index c effect key (some task) (some (fields.foldl (fun task entry => task.set entry.1 entry.2) task))
  | succeed {id : UInt64} {result task : Value} {e : Executor} {rest : List (String × Value)}
      (called : effect.1 = .managementReport id e.round "success" result) (here : key = Text.decimal id)
      (current : c.executor = some e) (runs : running task) (bound : (task.field "round").isNumber e.round)
      (apart : ∀ entry ∈ rest, entry.1 ≠ "state") :
      Turn index c effect key (some task)
        (some ((("state", .string "success") :: rest).foldl (fun task entry => task.set entry.1 entry.2) task))

def Turns (index : UInt64) (c : ControlState) (effect : Command × Applied) (tasks after : SortedMap String Value) : Prop :=
  (effect.2.endsRound ∧ ∀ key, after.get key = (tasks.get key).map interruptTask) ∨
    (effect.2.endsRound = false ∧ ∀ key, Turn index c effect key (tasks.get key) (after.get key))

variable {index : UInt64} {c : ControlState} {effect : Command × Applied} {tasks : SortedMap String Value}

theorem Turns.refl (calm : effect.2.endsRound = false) : Turns index c effect tasks tasks := .inr ⟨calm, fun _ => .same⟩

theorem Turns.one (calm : effect.2.endsRound = false) {key : String} {task : Value}
    (turn : Turn index c effect key (tasks.get key) (some task)) : Turns index c effect tasks (tasks.insert key task) := by
  refine .inr ⟨calm, fun other => ?_⟩
  rw [SortedMap.get_insert]
  split
  · rename_i same
    rw [same]
    exact turn
  · exact .same

theorem interrupt_turns (filed : Filed c.management tasks) (ends : effect.2.endsRound) :
    ∃ after, Filed (interrupt c).management after ∧ Turns index c effect tasks after := by
  unfold interrupt
  have idle : (∀ key task, tasks.get key = some task → running task = false) →
      ∃ after, Filed c.management after ∧ Turns index c effect tasks after := by
    intro none'
    refine ⟨tasks, filed, .inl ⟨ends, fun key => ?_⟩⟩
    cases there : tasks.get key with
    | none => rfl
    | some task => simp [interruptTask, none' key task there]
  split
  · rename_i nothing
    refine idle fun key task there => ?_
    have gone : tasks = .empty := by
      rcases filed.tasks with shape | ⟨_, empty⟩
      · cases got : c.management.get "tasks" with
        | none =>
          rw [field, got] at shape
          cases shape
        | some found =>
          rw [field, got, Option.getD_some] at shape
          rw [got, shape] at nothing
          cases nothing
      · exact empty
    rw [gone] at there
    cases there
  · rename_i fields there
    split
    · exact ⟨_, (filed.map there interruptTask).other (by decide) _, .inl ⟨ends, fun key => SortedMap.get_map ..⟩⟩
    rename_i still
    refine idle fun key task found => ?_
    rw [filed.entries there] at still
    by_contra runs
    exact still (any_eq_true.mpr ⟨_, SortedMap.mem_entries.mpr found, by simpa using runs⟩)

theorem apply_turns (filed : Filed c.management tasks) (index : UInt64) (r : Value) : ∃ after,
    Filed (apply c index r).1.management after ∧
      Turns index c (.manage r, .admin (apply c index r).2) tasks after := by
  rcases apply_cases c index r with ⟨_, refused⟩ | ⟨next, answer, ran, granted⟩
  · rw [refused]
    exact ⟨tasks, filed, .refl rfl⟩
  rw [granted]
  rcases applyInner_ok ran with ⟨_, _, deleted⟩ | ⟨_, m, handled, rfl⟩
  · obtain ⟨_, _, _, _, beside, rfl, _⟩ := poolDelete_ok deleted
    exact ⟨tasks, (beside.filed (begun_filed filed)).other (by decide) _, .refl rfl⟩
  have started : Filed ({ c with management := begun c.management } : ControlState).management tasks := begun_filed filed
  cases handled with
  | @cancel target task there =>
    rw [started.get] at there
    refine ⟨_, (started.insert target _).other (by decide) _, .one rfl ?_⟩
    rw [there]
    exact .cancel
  | clear =>
    refine ⟨_, (started.retain active).other (by decide) _, .inr ⟨rfl, fun key => ?_⟩⟩
    rw [SortedMap.get_filter]
    cases tasks.get key with
    | none => exact .same
    | some task =>
      cases working : active task with
      | true =>
        rw [Option.filter_some, if_pos working]
        exact .same
      | false =>
        rw [Option.filter_some, if_neg (by simp [working])]
        exact .clear working
  | @file task idle valid asks queued =>
    refine ⟨_, (started.insert _ task).other (by decide) _, .one rfl (.file rfl ?_)⟩
    rw [stateOf, queued]
    rfl

theorem report_turns (filed : Filed c.management tasks) (id round : UInt64) (phase : String) (result : Value) : ∃ after,
    Filed (c.managementReport id round phase result).1.management after ∧
      Turns index c (.managementReport id round phase result, (c.managementReport id round phase result).2) tasks after := by
  unfold managementReport
  rcases report_cases c id round phase result with
    dropped | ⟨e, task, current, rfl, _, there, ⟨m, fields, beside, amends, changed⟩ | ⟨next, rfl, runs, bound, finished, changed⟩⟩
  · rw [dropped]
    exact ⟨tasks, filed, .refl rfl⟩
  · rw [changed]
    rw [filed.get] at there
    refine ⟨_, amend_filed (beside.filed filed) there fields, .one rfl ?_⟩
    rw [there]
    exact .amend rfl rfl current amends
  · rw [changed]
    rw [filed.get] at there
    refine ⟨_, amend_filed ((finishConfig_beside finished).filed filed) there _, .one rfl ?_⟩
    rw [there]
    exact .succeed rfl rfl current runs bound (by simp)

def Known (task : Value) : Prop := active task ∨ ∃ state ∈ endStates, stateOf task = some state

theorem stateOf_foldl {task : Value} (takes : task.Extends) {rest : List (String × Value)} (state : String)
    (apart : ∀ entry ∈ rest, entry.1 ≠ "state") :
    stateOf ((("state", .string state) :: rest).foldl (fun task entry => task.set entry.1 entry.2) task) = some state := by
  rw [foldl_cons, stateOf, field_foldl (extends_set takes ..) apart, field_set takes, if_pos rfl]
  rfl

theorem Amends.state {task : Value} {owner round : UInt64} {fields : List (String × Value)}
    (amends : Amends task owner round fields) :
    stateOf (fields.foldl (fun task entry => task.set entry.1 entry.2) task) ∈
      [some "running", some "failed", some "cancelled"] := by
  have takes := extends_of_active amends.active
  cases amends with
  | start =>
    rw [stateOf_foldl takes _ (by simp)]
    simp
  | progress runs =>
    rw [stateOf, field_foldl takes (by simp)]
    simp [show (task.field "state").asString = some "running" from running_iff.mp runs]
  | finish _ _ ends apart =>
    rw [stateOf_foldl takes]
    · rcases ends with rfl | rfl <;> simp
    · intro entry member same
      exact apart entry member (by simp [same])

namespace Turn

variable {key : String} {old : Option Value} {task after : Value}

theorem ended (turn : Turn index c effect key (some task) (some after)) (fresh : key ≠ decimal index)
    (ended : active task = false) : stateOf after = stateOf task := by
  cases turn with
  | same => rfl
  | cancel =>
    rw [stateOf_cancelTask, if_neg]
    intro queued
    rw [active_iff.mpr (.inl queued)] at ended
    cases ended
  | file here => exact absurd here fresh
  | amend _ _ _ amends =>
    rw [amends.active] at ended
    cases ended
  | succeed _ _ _ runs =>
    rw [active_of_running runs] at ended
    cases ended

theorem known (turn : Turn index c effect key old (some after)) (before : ∀ task, old = some task → Known task) :
    Known after := by
  cases turn with
  | same => exact before after rfl
  | @cancel task =>
    have state := stateOf_cancelTask task
    rcases before task rfl with working | ⟨text, ended, there⟩
    · rcases active_iff.mp working with queued | runs
      · rw [if_pos queued] at state
        exact .inr ⟨"cancelled", by decide, state⟩
      · rw [runs] at state
        exact .inl (active_iff.mpr (.inr state))
    · have over' := not_active_of_ended ended there
      rw [if_neg, there] at state
      · exact .inr ⟨text, ended, state⟩
      · intro queued
        rw [active_iff.mpr (.inl queued)] at over'
        cases over'
  | file _ queued => exact .inl (active_iff.mpr (.inl queued))
  | amend _ _ _ amends =>
    have state := amends.state
    simp only [mem_cons, not_mem_nil, or_false] at state
    rcases state with runs | failed | cancelled
    · exact .inl (active_iff.mpr (.inr runs))
    · exact .inr ⟨"failed", by decide, failed⟩
    · exact .inr ⟨"cancelled", by decide, cancelled⟩
  | succeed _ _ _ runs _ apart =>
    exact .inr ⟨"success", by decide, stateOf_foldl (extends_of_active (active_of_running runs)) _ apart⟩

theorem determinate (turn : Turn index c effect key (some task) (some after)) (state : stateOf after = some "indeterminate") :
    stateOf task = some "indeterminate" := by
  cases turn with
  | same => exact state
  | cancel =>
    rw [stateOf_cancelTask] at state
    split at state
    · simp at state
    · exact state
  | file _ queued =>
    rw [queued] at state
    simp at state
  | amend _ _ _ amends =>
    have other := amends.state
    rw [state] at other
    simp at other
  | succeed _ _ _ runs _ apart =>
    rw [stateOf_foldl (extends_of_active (active_of_running runs)) _ apart] at state
    simp at state

theorem running (turn : Turn index c effect key old (some after)) (runs : Management.running after) :
    (∃ task, old = some task ∧ Management.running task ∧ after.field "round" = task.field "round") ∨
      ∃ id e phase result, effect.1 = .managementReport id e.round phase result ∧ key = decimal id ∧
        c.executor = some e ∧ (after.field "round").isNumber e.round := by
  rw [running_iff] at runs
  cases turn with
  | same => exact .inl ⟨after, rfl, running_iff.mpr runs, rfl⟩
  | @cancel task =>
    rw [stateOf_cancelTask] at runs
    split at runs
    · simp at runs
    · exact .inl ⟨task, rfl, running_iff.mpr runs, round_cancelTask task⟩
  | file _ queued =>
    rw [queued] at runs
    simp at runs
  | @amend id phase result task e fields called here current amends =>
    have takes := extends_of_active amends.active
    cases amends with
    | start =>
      refine .inr ⟨id, e, phase, result, called, here, current, ?_⟩
      rw [foldl_cons, foldl_cons, field_foldl (extends_set (extends_set takes ..) ..) (by simp),
        field_set (extends_set takes ..), if_pos rfl]
      exact decide_eq_true rfl
    | progress before => exact .inl ⟨task, rfl, before, field_foldl takes (by simp)⟩
    | finish _ _ ends apart =>
      rw [stateOf_foldl takes] at runs
      · rcases ends with rfl | rfl <;> simp at runs
      · intro entry member same
        exact apart entry member (by simp [same])
  | succeed _ _ _ before _ apart =>
    rw [stateOf_foldl (extends_of_active (active_of_running before)) _ apart] at runs
    simp at runs

end Turn

end Management

open Management

theorem Effect.turns {index : UInt64} {c : ControlState} {effect : Command × Applied} {after : Records}
    (has : Effect index c effect after) {tasks : SortedMap String Value} (filed : Filed c.management tasks) :
    ∃ tasks', Filed after.management tasks' ∧ Turns index c effect tasks tasks' := by
  have kept := has.kept
  cases has with
  | same idle => exact ⟨tasks, filed, .refl (Applied.calm_of_idle idle)⟩
  | relieve _ ends => exact interrupt_turns filed ends
  | manage r => exact apply_turns filed index r
  | report id round phase result => exact report_turns filed id round phase result
  | observe barcode observation =>
    obtain ⟨m, beside, only⟩ := observeTape_only c barcode observation index
    rw [only]
    rcases beside with beside | beside
    · exact ⟨tasks, beside.filed filed, .refl rfl⟩
    · exact ⟨tasks, beside.filed (begun_filed filed), .refl rfl⟩
  | unassign barcode =>
    rcases c.tapeUnassign_cases barcode with ⟨_, same⟩ | ⟨_, _, beside, _, _, unassigned⟩
    · rw [same]
      exact ⟨tasks, filed, .refl rfl⟩
    · rw [unassigned]
      exact ⟨tasks, beside.filed filed, .refl rfl⟩
  | state barcode state =>
    obtain ⟨m, _, beside, only⟩ := c.setTapeState_frame index barcode state
    rw [only]
    exact ⟨tasks, beside.filed filed, .refl rfl⟩
  | reclaimed barcode volumeUuid =>
    obtain ⟨m, _, _, beside, only, _, calm⟩ := c.tapeReclaimed_frame index barcode volumeUuid
    rw [only]
    exact ⟨tasks, beside.filed filed, .refl calm⟩
  | commit barcode volumeUuid generation files bytesUsed bytesWritten =>
    obtain ⟨m, _, beside, only, _, calm⟩ :=
      c.tapeCommitted_frame index barcode volumeUuid generation files bytesUsed bytesWritten
    rw [only]
    exact ⟨tasks, beside.filed filed, .refl calm⟩
  | quiesce | resume | freeze | acquire | release | create | assign | reclaim =>
    refine ⟨tasks, ?_, .refl (kept.calm rfl)⟩
    rw [kept.management rfl]
    exact filed

theorem Effect.changes {index : UInt64} {c : ControlState} {effect : Command × Applied} {after : Records}
    (has : Effect index c effect after) (ends : effect.2.endsRound) : effect.1.changesExecutor := by
  by_contra spares
  exact absurd ends (Bool.eq_false_iff.mp (has.kept.calm (Bool.eq_false_iff.mpr spares)))

theorem Core.Shift.goes_on {index : UInt64} {core after : Core} {cmd : Command} {outcome : Applied}
    (shift : Shift index core cmd after outcome) (calm : (unwrap cmd outcome).2.endsRound = false)
    {e : Executor} (current : core.executor = some e) :
    ∃ e', after.executor = some e' ∧ e'.node = e.node ∧ e'.round = e.round := by
  induction shift with
  | same | ready | activity => exact ⟨e, current, rfl, rfl⟩
  | @start core cmd node term inst =>
    have ends : (unwrap cmd (.newExecutor { node, term, round := index, fenced := false })).2.endsRound = true := by
      cases cmd <;> rfl
    rw [ends] at calm
    cases calm
  | fence here =>
    rw [here] at current
    cases current
    exact ⟨_, rfl, rfl, rfl⟩
  | gone => cases calm
  | report _ _ _ _ _ _ ih => exact ih calm current

namespace ControlState

theorem apply_ends {c : ControlState} {index : UInt64} {cmd : Command}
    (ends : (unwrap cmd (c.apply index cmd).2).2.endsRound) {e : Executor}
    (current : (c.apply index cmd).1.executor = some e) : e.round = index := by
  obtain ⟨sequence, effect⟩ := c.apply_effect index cmd
  have changes := effect.changes ends
  induction cmd generalizing c sequence with
  | executorReport node inst round number command ih =>
    simp only [apply, guarded] at ends current
    split at ends
    · cases ends
    rename_i free
    rw [if_neg free] at current
    split at ends
    · cases ends
    rename_i thawed
    rw [if_neg thawed] at current
    split at ends
    · rename_i accepted
      rw [if_pos accepted] at current
      cases kind : command.activity? with
      | some reported =>
        cases command with
        | deviceActivity =>
          cases kind
          cases ends
        | _ => cases kind
      | none =>
        rw [kind] at ends current
        obtain ⟨sequence', effect'⟩ :=
          ({ c.advanced index with executorReportSequence := number } : ControlState).apply_effect index command
        exact ih ends current sequence' effect' (effect'.changes ends)
    · cases ends
  | takeover node term =>
    simp only [apply, guarded] at ends current
    split at ends
    · cases ends
    rename_i free
    rw [if_neg free] at current
    cases current
    rfl
  | assignExecutor node inst term expectedRound group =>
    simp only [apply, guarded] at ends current
    split at ends
    · cases ends
    rename_i free
    rw [if_neg free] at current
    rcases assign_cases index node inst term expectedRound group (Bool.eq_false_iff.mpr free) with same | ⟨core, _⟩
    · rw [same] at ends
      cases ends
    have now := congrArg Core.executor core
    have there : some e = _ := current.symm.trans now
    cases there
    rfl
  | rebalanceExecutor node inst term expectedRound expectedInstance idleSequence group =>
    simp only [apply, guarded] at ends current
    split at ends
    · cases ends
    rename_i free
    rw [if_neg free] at current
    rcases rebalance_cases index node inst term expectedRound expectedInstance idleSequence group
      (Bool.eq_false_iff.mpr free) with same | ⟨_, core, _⟩
    · rw [same] at ends
      cases ends
    have now := congrArg Core.executor core
    have there : some e = _ := current.symm.trans now
    cases there
    rfl
  | abandoned node round reason =>
    simp only [apply, guarded] at ends current
    split at ends
    · cases ends
    rename_i free
    rw [if_neg free] at current
    unfold abandon at ends current
    split at ends
    · rename_i here
      rw [if_pos here] at current
      cases current
    · cases ends
  | _ => cases changes

def task (c : ControlState) (key : String) : Option Value := (c.management.field "tasks").get key

end ControlState

theorem replay_tidy (log : List Entry) : Tidy (replay log) := by
  induction log using reverseRecOn with
  | nil => exact Tidy.start
  | append_singleton log entry ih =>
    obtain ⟨tasks, filed, _⟩ := ih.tasks
    rw [replay_append]
    exact ih.reform (apply_reform filed entry.1 entry.2)

theorem pools_and_tapes_agree (log : List Entry) :
    (∀ uuid other row row', (replay log).pools.get uuid = some row → (replay log).pools.get other = some row' →
      row.name = row'.name → uuid = other) ∧
    ∀ barcode uuid, (replay log).tapes.get barcode = some uuid → ∃ pool, (replay log).pools.get uuid = some pool :=
  ⟨(replay_tidy log).names, (replay_tidy log).pooled⟩

theorem replay_turns (log : List Entry) (entry : Entry) :
    ((unwrap entry.2 (outcome log entry)).2.endsRound ∧
      ∀ key, (replay (log ++ [entry])).task key = ((replay log).task key).map interruptTask) ∨
    ((unwrap entry.2 (outcome log entry)).2.endsRound = false ∧ ∀ key,
      Turn entry.1 (replay log) (unwrap entry.2 (outcome log entry)) key ((replay log).task key)
        ((replay (log ++ [entry])).task key)) := by
  obtain ⟨sequence, effect⟩ := replay_effect log entry
  obtain ⟨tasks, filed, _⟩ := (replay_tidy log).tasks
  obtain ⟨after, filedAfter, turns⟩ := effect.turns filed
  have now : ∀ key, (replay (log ++ [entry])).task key = after.get key := filedAfter.get
  have before : ∀ key, (replay log).task key = tasks.get key := filed.get
  simp only [now, before]
  rcases turns with ends | ⟨calm, turns⟩
  · exact .inl ends
  refine .inr ⟨calm, fun key => ?_⟩
  have turn := turns key
  generalize unwrap entry.2 (outcome log entry) = unwrapped at turn
  generalize tasks.get key = old at turn
  generalize after.get key = new at turn
  cases turn with
  | same => exact .same
  | cancel => exact .cancel
  | clear ended => exact .clear ended
  | file here queued => exact .file here queued
  | amend called here current amends => exact .amend called here current amends
  | succeed called here current runs bound apart => exact .succeed called here current runs bound apart

/-- What holds of the tasks behind every log. -/
structure TasksKnown (log : List Entry) : Prop where
  known : ∀ key task, (replay log).task key = some task → Known task
  keys : ∀ key task, (replay log).task key = some task → ∃ index, index ≤ lastIndex 0 log ∧ key = Text.decimal index
  bound : ∀ key task, (replay log).task key = some task → running task →
    ∃ e, (replay log).executor = some e ∧ (task.field "round").isNumber e.round

theorem replay_goes_on {log : List Entry} {entry : Entry}
    (calm : (unwrap entry.2 (outcome log entry)).2.endsRound = false) {e : Executor}
    (current : (replay log).executor = some e) :
    ∃ e', (replay (log ++ [entry])).executor = some e' ∧ e'.node = e.node ∧ e'.round = e.round :=
  (replay_shift log entry).goes_on calm current

theorem tasksKnown {log : List Entry} (ascending : Ascending 0 log) : TasksKnown log := by
  induction log using reverseRecOn with
  | nil => exact ⟨nofun, nofun, nofun⟩
  | append_singleton log entry ih =>
    obtain ⟨before, later, _⟩ := ascending_append.mp ascending
    obtain ⟨known, keys, bound⟩ := ih before
    have grown : lastIndex 0 (log ++ [entry]) = entry.1 := lastIndex_append ..
    rcases replay_turns log entry with ⟨ends, interrupted⟩ | ⟨calm, turns⟩
    · refine ⟨?_, ?_, ?_⟩
      · intro key after there
        rw [interrupted] at there
        obtain ⟨task, old, rfl⟩ := Option.map_eq_some_iff.mp there
        have state := stateOf_interruptTask task
        split at state
        · exact .inr ⟨"indeterminate", by decide, state⟩
        · rcases known key task old with working | ⟨text, ended, same⟩
          · exact .inl (active_iff.mpr (state ▸ active_iff.mp working))
          · exact .inr ⟨text, ended, state.trans same⟩
      · intro key after there
        rw [interrupted] at there
        obtain ⟨task, old, rfl⟩ := Option.map_eq_some_iff.mp there
        obtain ⟨index, early, named⟩ := keys key task old
        exact ⟨index, grown ▸ UInt64.le_trans early (UInt64.le_of_lt later), named⟩
      · intro key after there runs
        rw [interrupted] at there
        obtain ⟨task, old, rfl⟩ := Option.map_eq_some_iff.mp there
        rw [running_iff, stateOf_interruptTask] at runs
        split at runs
        · simp at runs
        · rename_i still
          exact absurd (running_iff.mpr runs) still
    · refine ⟨?_, ?_, ?_⟩
      · intro key after there
        have turn := turns key
        rw [there] at turn
        exact turn.known (known key)
      · intro key after there
        have turn := turns key
        rw [there] at turn
        generalize old : (replay log).task key = prior at turn
        have kept : ∀ task, prior = some task → ∃ index, index ≤ lastIndex 0 (log ++ [entry]) ∧ key = decimal index := by
          rintro task rfl
          obtain ⟨index, early, named⟩ := keys key task old
          exact ⟨index, grown ▸ UInt64.le_trans early (UInt64.le_of_lt later), named⟩
        cases turn with
        | same => exact kept after rfl
        | cancel | amend | succeed => exact kept _ rfl
        | file here => exact ⟨entry.1, grown ▸ UInt64.le_refl _, here⟩
      · intro key after there runs
        have turn := turns key
        rw [there] at turn
        rcases turn.running runs with ⟨task, old, before, round⟩ | ⟨id, e, phase, result, _, _, current, started⟩
        · obtain ⟨e, current, owned⟩ := bound key task old before
          obtain ⟨e', now, _, same⟩ := replay_goes_on calm current
          exact ⟨e', now, by rw [round, same]; exact owned⟩
        · obtain ⟨e', now, _, same⟩ := replay_goes_on calm current
          exact ⟨e', now, by rw [same]; exact started⟩

theorem Management.poolDelete_idle {c next : ControlState} {target : String} {answer : Value}
    (deleted : poolDelete c target = .ok (next, answer)) : activeTasks c.management = false := by
  unfold poolDelete at deleted
  split at deleted
  · cases deleted
  split at deleted
  · cases deleted
  split at deleted
  · cases deleted
  · rename_i idle
    exact Bool.eq_false_iff.mpr idle

theorem Effect.estate {index : UInt64} {c : ControlState} {effect : Command × Applied} {after : Records}
    (has : Effect index c effect after) (working : activeTasks c.management) :
    (after.pools = c.pools ∧ after.tapes = c.tapes) ∨ ∃ id round result task,
      effect.1 = .managementReport id round "success" result ∧ c.task (decimal id) = some task ∧ running task := by
  have kept := has.kept
  cases has with
  | same => exact .inl ⟨rfl, rfl⟩
  | relieve =>
    obtain ⟨m, only⟩ := interrupt_only c
    rw [only]
    exact .inl ⟨rfl, rfl⟩
  | report id round phase result =>
    unfold managementReport
    rcases report_cases c id round phase result with
      dropped | ⟨e, task, _, _, _, there, ⟨m, _, _, _, changed⟩ | ⟨next, rfl, runs, _, _, _⟩⟩
    · rw [dropped]
      exact .inl ⟨rfl, rfl⟩
    · rw [changed]
      exact .inl ⟨rfl, rfl⟩
    · exact .inr ⟨id, round, result, task, rfl, there, runs⟩
  | manage r =>
    rcases apply_cases c index r with ⟨_, refused⟩ | ⟨next, answer, ran, granted⟩
    · rw [refused]
      exact .inl ⟨rfl, rfl⟩
    rw [granted]
    rcases applyInner_ok ran with ⟨_, _, deleted⟩ | ⟨_, m, _, rfl⟩
    · have idle := poolDelete_idle deleted
      have begun' : begun c.management = c.management := by
        unfold begun
        split
        · rename_i null
          cases shape : c.management with
          | null =>
            rw [shape] at working
            cases working
          | _ =>
            rw [shape] at null
            cases null
        · rfl
      dsimp only at idle
      rw [begun', working] at idle
      cases idle
    · exact .inl ⟨rfl, rfl⟩
  | create uuid name fileLimit =>
    rw [poolCreate, if_pos working]
    exact .inl ⟨rfl, rfl⟩
  | assign barcode pool =>
    rw [tapeAssign, if_pos working]
    exact .inl ⟨rfl, rfl⟩
  | unassign barcode =>
    rw [tapeUnassign, if_pos working]
    exact .inl ⟨rfl, rfl⟩
  | quiesce | resume | freeze | acquire | release | observe | state | reclaim | reclaimed | commit => exact .inl (kept.pools rfl)

theorem ControlState.apply_managementReport {c : ControlState} {index id round : UInt64} {cmd : Command} {phase : String}
    {result : Value} (called : (unwrap cmd (c.apply index cmd).2).1 = .managementReport id round phase result) :
    ∃ sequence, (c.apply index cmd).1 = c.found index sequence ∨
      (c.apply index cmd).1 = ((c.found index sequence).managementReport id round phase result).1 := by
  rcases c.apply_unwrap index cmd with direct | ⟨node, inst, owned, sequence, command, rfl, _, _, inner⟩
  · rw [called] at direct
    subst direct
    refine ⟨c.executorReportSequence, ?_⟩
    simp only [apply, guarded]
    split
    · exact .inl rfl
    · exact .inr rfl
  · rw [called] at inner
    subst inner
    simp only [apply, guarded]
    split
    · exact ⟨c.executorReportSequence, .inl rfl⟩
    split
    · exact ⟨c.executorReportSequence, .inl rfl⟩
    split
    · refine ⟨sequence, ?_⟩
      dsimp only [Command.activity?]
      split
      · exact .inl rfl
      · exact .inr rfl
    · exact ⟨c.executorReportSequence, .inl rfl⟩

theorem ControlState.managementReport_dropped {c : ControlState} {id round : UInt64} (phase : String) (result : Value)
    (stale : (∀ e, c.executor = some e → e.round ≠ round) ∨ ∃ task, c.task (decimal id) = some task ∧
      (active task = false ∨ running task ∧ (task.field "round").isNumber round = false)) :
    (c.managementReport id round phase result).1 = c := by
  unfold managementReport
  rcases report_cases c id round phase result with
    dropped | ⟨e, task, current, ofRound, _, there, change⟩
  · rw [dropped]
    rfl
  · have live : active task ∧ (running task → (task.field "round").isNumber round) := by
      rcases change with ⟨_, _, _, amends, _⟩ | ⟨_, _, runs, bound, _⟩
      · refine ⟨amends.active, fun runs => ?_⟩
        cases amends with
        | start queued =>
          have both : stateOf task = some "queued" := of_decide_eq_true queued
          rw [running_iff, both] at runs
          simp at runs
        | progress _ bound | finish _ bound => exact bound
      · exact ⟨active_of_running runs, fun _ => bound⟩
    rcases stale with other | ⟨found, here, ended | ⟨runs, apart⟩⟩
    · exact absurd ofRound (other e current)
    · have same : some task = some found := there.symm.trans here
      cases same
      rw [live.1] at ended
      cases ended
    · have same : some task = some found := there.symm.trans here
      cases same
      rw [live.2 runs] at apart
      cases apart

/-- The life of management tasks along a log. -/
structure TaskLife (log : List Entry) : Prop where
  /-- At any time, at most one task is queued or running. -/
  single : ∀ seen rest, log = seen ++ rest → ∀ key other task task', (replay seen).task key = some task →
    (replay seen).task other = some task' → active task → active task' → key = other
  known : ∀ seen rest, log = seen ++ rest → ∀ key task, (replay seen).task key = some task → Known task
  /-- A task that has ended keeps its state, as long as the history of tasks is not cleared. -/
  ended : ∀ seen more rest, log = seen ++ more ++ rest → ∀ key task task', (replay seen).task key = some task →
    ∀ state ∈ endStates, stateOf task = some state → (replay (seen ++ more)).task key = some task' →
      stateOf task' = some state
  /-- A running task belongs to the round of the executor, which has started it. -/
  bound : ∀ seen rest, log = seen ++ rest → ∀ key task, (replay seen).task key = some task → running task →
    ∃ e, (replay seen).executor = some e ∧ (task.field "round").isNumber e.round
  started : ∀ seen entry rest, log = seen ++ entry :: rest → ∀ key task',
    (replay (seen ++ [entry])).task key = some task' → running task' →
    (∃ task, (replay seen).task key = some task ∧ running task ∧ task'.field "round" = task.field "round") ∨
    ∃ id e phase result, (Directory.unwrap entry.2 (outcome seen entry)).1 = .managementReport id e.round phase result ∧
      key = Text.decimal id ∧ (replay seen).executor = some e ∧ (task'.field "round").isNumber e.round
  /-- A task becomes indeterminate exactly when it is running and its round ends. -/
  indeterminate : ∀ seen entry rest, log = seen ++ entry :: rest → ∀ key task, (replay seen).task key = some task →
    stateOf task ≠ some "indeterminate" →
    ((∃ task', (replay (seen ++ [entry])).task key = some task' ∧ stateOf task' = some "indeterminate") ↔
      running task ∧ ∃ e, (replay seen).executor = some e ∧ (task.field "round").isNumber e.round ∧
        (replay (seen ++ [entry])).runs e.node e.round = false)
  /-- A report of another round, or on a task that has ended, changes nothing but the counters of the log. -/
  dropped : ∀ seen entry rest, log = seen ++ entry :: rest → ∀ id round phase result,
    (Directory.unwrap entry.2 (outcome seen entry)).1 = .managementReport id round phase result →
    ((∀ e, (replay seen).executor = some e → e.round ≠ round) ∨ ∃ task, (replay seen).task (Text.decimal id) = some task ∧
      (active task = false ∨ running task ∧ (task.field "round").isNumber round = false)) →
    ∃ sequence, replay (seen ++ [entry]) = (replay seen).found entry.1 sequence
  /-- With a task under way, pools and tapes change by its own success alone. -/
  owned : ∀ seen entry rest, log = seen ++ entry :: rest → ∀ key task, (replay seen).task key = some task → active task →
    (replay (seen ++ [entry])).pools ≠ (replay seen).pools ∨ (replay (seen ++ [entry])).tapes ≠ (replay seen).tapes →
    ∃ id round result, (Directory.unwrap entry.2 (outcome seen entry)).1 = .managementReport id round "success" result ∧
      key = Text.decimal id

theorem task_single (log : List Entry) {key other : String} {task task' : Value} (there : (replay log).task key = some task)
    (there' : (replay log).task other = some task') (working : active task) (working' : active task') : key = other := by
  obtain ⟨tasks, filed, single, _⟩ := (replay_tidy log).tasks
  have got : tasks.get key = some task := (filed.get key).symm.trans there
  have got' : tasks.get other = some task' := (filed.get other).symm.trans there'
  exact single key other _ _ ⟨task, got, working, rfl⟩ ⟨task', got', working', rfl⟩

theorem task_ended {log : List Entry} {more : List Entry} (ascending : Ascending 0 (log ++ more)) {key state : String}
    {task : Value} (there : (replay log).task key = some task) (ended : state ∈ endStates)
    (held : stateOf task = some state) :
    ∀ task', (replay (log ++ more)).task key = some task' → stateOf task' = some state := by
  obtain ⟨old, early, named⟩ := (tasksKnown (ascending_append.mp ascending).1).keys key task there
  induction more using reverseRecOn with
  | nil =>
    intro task' there'
    rw [append_nil, there] at there'
    cases there'
    exact held
  | append_singleton more entry ih =>
    intro task' there'
    rw [← append_assoc] at ascending there'
    obtain ⟨before, later, _⟩ := ascending_append.mp ascending
    have passed : old ≤ lastIndex 0 (log ++ more) := by
      rw [lastIndex_append]
      exact UInt64.le_trans early (lastIndex_le (ascending_append.mp before).2)
    have fresh : key ≠ decimal entry.1 := by
      rw [named]
      intro same
      have parsed := congrArg parseU64 same
      rw [parseU64_decimal, parseU64_decimal] at parsed
      cases parsed
      exact absurd later (UInt64.not_lt.mpr passed)
    rcases replay_turns (log ++ more) entry with ⟨_, interrupted⟩ | ⟨_, turns⟩
    · rw [interrupted] at there'
      obtain ⟨prior, found, rfl⟩ := Option.map_eq_some_iff.mp there'
      have state' := ih before prior found
      rw [stateOf_interruptTask, if_neg]
      · exact state'
      · intro runs
        have idle := not_active_of_ended ended state'
        rw [active_of_running runs] at idle
        cases idle
    · have turn := turns key
      rw [there'] at turn
      cases found : (replay (log ++ more)).task key with
      | none =>
        rw [found] at turn
        cases turn with
        | file here => exact absurd here fresh
      | some prior =>
        rw [found] at turn
        have state' := ih before prior found
        rw [turn.ended fresh (not_active_of_ended ended state')]
        exact state'

theorem task_indeterminate {log : List Entry} {entry : Entry} (ascending : Ascending 0 (log ++ [entry])) {key : String}
    {task : Value} (there : (replay log).task key = some task) (other : stateOf task ≠ some "indeterminate") :
    (∃ task', (replay (log ++ [entry])).task key = some task' ∧ stateOf task' = some "indeterminate") ↔
      running task ∧ ∃ e, (replay log).executor = some e ∧ (task.field "round").isNumber e.round ∧
        (replay (log ++ [entry])).runs e.node e.round = false := by
  obtain ⟨before, later, _⟩ := ascending_append.mp ascending
  rcases replay_turns log entry with ⟨ends, interrupted⟩ | ⟨calm, turns⟩
  · rw [interrupted, there]
    constructor
    · rintro ⟨task', changed, state⟩
      cases changed
      rw [stateOf_interruptTask] at state
      split at state
      · rename_i runs
        obtain ⟨e, current, owned⟩ := (tasksKnown before).bound key task there runs
        refine ⟨runs, e, current, owned, ?_⟩
        -- The new round, if there is one, is named by the index of this entry.
        rw [← Bool.not_eq_true, runs_iff]
        rintro ⟨now, here, _, same⟩
        rw [replay_append] at here
        have new : now.round = entry.1 := apply_ends ends here
        have old : e.round ≤ lastIndex 0 log :=
          Core.Runs.le_lastIndex before (⟨rfl, e, current, rfl, rfl⟩ : (replay log).core.Runs e.node _ e.round)
        rw [← same, new] at old
        exact absurd later (UInt64.not_lt.mpr old)
      · exact absurd state other
    · rintro ⟨runs, _⟩
      exact ⟨_, rfl, by rw [stateOf_interruptTask, if_pos runs]⟩
  · have turn := turns key
    rw [there] at turn
    constructor
    · rintro ⟨task', changed, state⟩
      rw [changed] at turn
      exact absurd (turn.determinate state) other
    · rintro ⟨_, e, current, _, gone⟩
      obtain ⟨e', now, node, round⟩ := replay_goes_on calm current
      rw [← Bool.not_eq_true] at gone
      exact absurd (runs_iff.mpr ⟨e', now, node, round⟩) gone

theorem task_life_cycle {log : List Entry} (ascending : Ascending 0 log) : TaskLife log := by
  have step : ∀ seen entry rest, log = seen ++ entry :: rest → Ascending 0 (seen ++ [entry]) := by
    rintro seen entry rest rfl
    rw [append_cons] at ascending
    exact (ascending_append.mp ascending).1
  refine ⟨?_, ?_, ?_, ?_, ?_, ?_, ?_, ?_⟩
  · intro seen rest _ key other task task' there there' working working'
    exact task_single seen there there' working working'
  · rintro seen rest rfl
    exact (tasksKnown (ascending_append.mp ascending).1).known
  · rintro seen more rest rfl key task task' there state ended held
    exact task_ended (ascending_append.mp ascending).1 there ended held task'
  · rintro seen rest rfl
    exact (tasksKnown (ascending_append.mp ascending).1).bound
  · intro seen entry rest _ key task' there runs
    rcases replay_turns seen entry with ⟨_, interrupted⟩ | ⟨_, turns⟩
    · rw [interrupted] at there
      obtain ⟨task, _, rfl⟩ := Option.map_eq_some_iff.mp there
      rw [running_iff, stateOf_interruptTask] at runs
      split at runs
      · simp at runs
      · rename_i still
        exact absurd (running_iff.mpr runs) still
    · have turn := turns key
      rw [there] at turn
      exact turn.running runs
  · intro seen entry rest same key task there other
    exact task_indeterminate (step seen entry rest same) there other
  · intro seen entry rest _ id round phase result called stale
    have applied : replay (seen ++ [entry]) = ((replay seen).apply entry.1 entry.2).1 := replay_append ..
    obtain ⟨sequence, refused | ran⟩ := apply_managementReport called
    · exact ⟨sequence, applied.trans refused⟩
    · exact ⟨sequence, (applied.trans ran).trans
        (managementReport_dropped (c := (replay seen).found entry.1 sequence) phase result stale)⟩
  · intro seen entry rest _ key task there working changed
    obtain ⟨sequence, effect⟩ := replay_effect seen entry
    obtain ⟨tasks, filed, _⟩ := (replay_tidy seen).tasks
    have live : Live tasks key (task.field "request") := ⟨task, (filed.get key).symm.trans there, working, rfl⟩
    rcases effect.estate (filed.activeTasks_of_live live) with ⟨pools, tapes⟩ | ⟨id, round, result, task', called, there', runs⟩
    · rcases changed with changed | changed
      · exact absurd pools changed
      · exact absurd tapes changed
    · exact ⟨id, round, result, called, task_single seen there there' working (active_of_running runs)⟩

def interruptedTask : List Entry :=
  [(1, .candidate 1 1 1 "lib" 1 true), (2, .assignExecutor 1 1 1 none "lib"),
   (3, .executorReport 1 1 2 1 (.fenced 1 2)), (4, .executorReport 1 1 2 2 (.executorReady 1 2)),
   (5, .poolCreate "u1" "a" 10),
   (6, .manage (.ofFields [("resource", .string "pools"), ("action", .string "set"), ("target", .string "a"),
     ("params", .ofFields [("attribute", .string "poolname"), ("value", .string "b")])])),
   (7, .executorReport 1 1 2 3 (.managementReport 6 2 "running" .null)), (8, .takeover 2 2)]

theorem task_life_cycle_interrupted : ((replay interruptedTask).task "6").bind stateOf = some "indeterminate" ∧
    TaskLife interruptedTask :=
  ⟨by decide +kernel, task_life_cycle (by decide)⟩

end TapeRs.Daemon
