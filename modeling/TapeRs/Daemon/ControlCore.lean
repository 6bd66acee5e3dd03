import TapeRs.Error
import TapeRs.Daemon.Control

namespace TapeRs.Daemon

open Json Management Result
open Option

/-- The part of the control state that says who may work on the devices. -/
structure Core where
  executor : Option Executor := none
  executorInstance : UInt64 := 0
  executorReportSequence : UInt64 := 0
  executorReady : Bool := false
  deviceActivity : Option DeviceActivityState := none
deriving DecidableEq, Repr

def ControlState.core (c : ControlState) : Core :=
  { executor := c.executor
    executorInstance := c.executorInstance
    executorReportSequence := c.executorReportSequence
    executorReady := c.executorReady
    deviceActivity := c.deviceActivity }

namespace Management

variable {c next : ControlState} {answer r p task : Value} {target : String}

/-- Management data that have been written to, though not at the tasks. -/
inductive Beside (m : Value) : Value → Prop
  | refl : Beside m m
  | set {other : Value} {key : String} (so : Beside m other) (apart : key ≠ "tasks") (value : Value) :
      Beside m (other.set key value)

theorem poolAttribute_ok {uuid key value : String} (changed : poolAttribute c uuid key value = .ok next) :
    (key = "poolname" ∧ (c.pools.entries.any fun entry => entry.1 ≠ uuid && entry.2.name = value) = false ∧
      next = updatePool c uuid fun pool => { pool with name := value }) ∨
    (key = "file_limit" ∧ ∃ limit, limit ≤ maxSigned ∧
      next = updatePool c uuid fun pool => { pool with fileLimit := limit }) ∨
    (key ≠ "poolname" ∧ key ≠ "file_limit" ∧ next = c) := by
  unfold poolAttribute at changed
  split at changed
  · left
    cases valid : name value with
    | error reason => simp [valid, Bind.bind, Except.bind] at changed
    | ok _ =>
      simp only [valid, Bind.bind, Except.bind] at changed
      split at changed
      · cases changed
      · rename_i free
        cases changed
        exact ⟨rfl, by simpa using free, rfl⟩
  · right; left
    split at changed
    · rename_i limit parsed
      cases changed
      obtain ⟨_, small⟩ := filter_eq_some_iff.mp parsed
      simp only [Bool.and_eq_true, decide_eq_true_eq] at small
      exact ⟨rfl, limit, small.2, rfl⟩
    · cases changed
  -- The other attributes are checked, and kept in the management data only.
  iterate 5
    · right; right
      split at changed <;> cases changed
      exact ⟨by decide, by decide, rfl⟩
  · cases changed

theorem poolSet_ok (changed : poolSet c target p = .ok (next, answer)) : ∃ uuid key value mid,
      c.resolvePool target = some uuid ∧ text p "attribute" = .ok key ∧ text p "value" = .ok value ∧
      poolAttribute c uuid key value = .ok mid ∧
      next = { mid with management := mid.management.setPath ["pools", uuid, key] (.string value) } := by
  unfold poolSet at changed
  split at changed
  · cases changed
  rename_i uuid found
  obtain ⟨key, keyed, changed⟩ := bind_ok.mp changed
  obtain ⟨value, valued, changed⟩ := bind_ok.mp changed
  obtain ⟨mid, set, changed⟩ := bind_ok.mp changed
  cases changed
  exact ⟨uuid, key, value, mid, found, keyed, valued, set, rfl⟩

theorem poolSet_frame (changed : poolSet c target p = .ok (next, answer)) : ∃ m pools, next = { c with management := m, pools } := by
  obtain ⟨_, _, _, mid, _, _, _, set, rfl⟩ := poolSet_ok changed
  have updated : ∀ uuid f, ∃ pools, updatePool c uuid f = { c with pools } := by
    intro uuid f
    unfold updatePool
    split
    · exact ⟨_, rfl⟩
    · exact ⟨c.pools, rfl⟩
  rcases poolAttribute_ok set with ⟨_, _, rfl⟩ | ⟨_, _, _, rfl⟩ | ⟨_, _, rfl⟩
  · obtain ⟨pools, only⟩ := updated _ _
    rw [only]
    exact ⟨_, pools, rfl⟩
  · obtain ⟨pools, only⟩ := updated _ _
    rw [only]
    exact ⟨_, pools, rfl⟩
  · exact ⟨_, _, rfl⟩

theorem enqueue_ok {index : UInt64} {resource action : String}
    (filed : enqueue c index resource action target r p = .ok (next, answer)) :
    activeTasks c.management = false ∧ validateJob c resource action target p = .ok () ∧
      ∃ task, task.field "request" = r ∧ task.field "state" = .string "queued" ∧
        next = { c with management := c.management.setPath ["tasks", Text.decimal index] task } := by
  unfold enqueue at filed
  obtain ⟨_, valid, filed⟩ := bind_ok.mp filed
  split at filed
  · cases filed
  split at filed
  · cases filed
  split at filed
  · cases filed
  split at filed
  · cases filed
  rename_i quiet
  split at filed
  · cases filed
  cases filed
  refine ⟨by simpa using quiet, valid, _, ?_, ?_, rfl⟩
  · rw [Value.field, Value.get_ofFields]
    simp [Assoc.find_cons]
  · rw [Value.field, Value.get_ofFields]
    simp [Assoc.find_cons]

/-- What a granted request can do to the tasks. -/
inductive Handles (c : ControlState) (index : UInt64) (r : Value) : Value → Prop
  | cancel {target : String} {task : Value} (there : (c.management.field "tasks").get target = some task) :
      Handles c index r (c.management.setPath ["tasks", target] (cancelTask task))
  | clear : Handles c index r (c.management.set "tasks" ((c.management.field "tasks").retain active))
  | file {task : Value} (idle : activeTasks c.management = false)
      (valid : validateJob c (requestText r "resource") (requestText r "action") (requestText r "target")
        (r.field "params") = .ok ())
      (asks : task.field "request" = r) (queued : task.field "state" = .string "queued") :
      Handles c index r (c.management.setPath ["tasks", Text.decimal index] task)

theorem applyInner_ok {index : UInt64} (granted : applyInner c index r = .ok (next, answer)) :
    (requestText r "resource" = "pools" ∧ requestText r "action" = "delete" ∧
      poolDelete c (requestText r "target") = .ok (next, answer)) ∨
    (¬(requestText r "resource" = "pools" ∧ requestText r "action" = "delete") ∧
      ∃ m, Handles c index r m ∧ next = { c with management := m }) := by
  have named : ∀ {key value : String}, text r key = .ok value → requestText r key = value := by
    intro key value found
    unfold text at found
    split at found
    · rename_i s there
      split at found
      · cases found
        obtain ⟨v, got, string⟩ := bind_eq_some_iff.mp there
        simp [requestText, Value.field, got, string]
      · cases found
    · cases found
  unfold applyInner at granted
  obtain ⟨resource, resourceAt, granted⟩ := bind_ok.mp granted
  obtain ⟨action, actionAt, granted⟩ := bind_ok.mp granted
  rw [named resourceAt, named actionAt]
  split at granted
  · cases granted
  rename_i target targetAt
  have targeted : requestText r "target" = target := by simp [requestText, targetAt]
  have filed : enqueue c index resource action target r (r.field "params") = .ok (next, answer) →
      ∃ m, Handles c index r m ∧ next = { c with management := m } := by
    intro filed
    obtain ⟨idle, valid, task, asks, queued, rfl⟩ := enqueue_ok filed
    rw [← named resourceAt, ← named actionAt, ← targeted] at valid
    exact ⟨_, .file idle valid asks queued, rfl⟩
  rw [targeted]
  split at granted
  · cases granted
  dsimp only at granted
  split at granted
  · cases granted
  split at granted
  · rename_i which
    simp only [Prod.mk.injEq] at which
    exact .inl ⟨which.1, which.2, granted⟩
  rename_i other
  refine .inr ⟨by simpa using other, ?_⟩
  split at granted
  · split at granted
    · cases granted
    · rename_i task there
      cases granted
      exact ⟨_, .cancel there, rfl⟩
  · split at granted
    · split at granted
      · cases granted
      · cases granted
        exact ⟨_, .clear, rfl⟩
    · split at granted
      · obtain ⟨_, _, granted⟩ := bind_ok.mp granted
        exact filed granted
      · exact filed granted

theorem poolDelete_ok (deleted : poolDelete c target = .ok (next, answer)) : ∃ uuid m,
      c.resolvePool target = some uuid ∧ (c.tapes.entries.any fun entry => entry.2 = uuid) = false ∧
      Beside c.management m ∧
      next = { c with pools := c.pools.erase uuid, management := m } ∧
      answer = .ofFields [("uuid", .string uuid), ("deleted", .bool true)] := by
  unfold poolDelete at deleted
  split at deleted
  · cases deleted
  rename_i uuid found
  split at deleted
  · cases deleted
  rename_i unused
  split at deleted
  · cases deleted
  · cases deleted
    exact ⟨uuid, _, found, Bool.eq_false_iff.mpr unused, Beside.refl.set (by decide) _, rfl, rfl⟩

def begun (m : Value) : Value := if m.isNull then empty else m

section Edits

variable (c : ControlState)

theorem apply_cases (index : UInt64) (r : Value) :
    (∃ reason, apply c index r = (c, .error reason)) ∨ ∃ next answer,
      applyInner { c with management := begun c.management } index r = .ok (next, answer) ∧
      apply c index r =
        ({ next with management := next.management.set "revision" (.number index) }, .ok (.json answer)) := by
  unfold apply
  dsimp only
  generalize started : (if c.management.isNull = true then { c with management := empty } else c) = start
  cases ran : applyInner start index r with
  | error reason => exact .inl ⟨reason, rfl⟩
  | ok result =>
    obtain ⟨next, answer⟩ := result
    dsimp only
    split
    · exact .inl ⟨_, rfl⟩
    have same : { c with management := begun c.management } = start := by
      rw [← started, begun]
      split <;> rfl
    exact .inr ⟨next, answer, same ▸ ran, rfl⟩

theorem apply_frame (index : UInt64) (r : Value) :
    ∃ m pools, (apply c index r).1 = { c with management := m, pools } := by
  rcases apply_cases c index r with ⟨_, refused⟩ | ⟨next, answer, ran, granted⟩
  · exact ⟨c.management, c.pools, by rw [refused]⟩
  rw [granted]
  rcases applyInner_ok ran with ⟨_, _, deleted⟩ | ⟨_, _, _, rfl⟩
  · obtain ⟨_, _, _, _, _, rfl, _⟩ := poolDelete_ok deleted
    exact ⟨_, _, rfl⟩
  · exact ⟨_, _, rfl⟩

theorem updateRecord_only (barcode : String) (index : UInt64) (f : Value → Option Value) :
    ∃ m, Beside c.management m ∧ updateRecord c barcode index f = { c with management := m } := by
  unfold updateRecord
  split
  · exact ⟨c.management, .refl, rfl⟩
  · split
    · exact ⟨c.management, .refl, rfl⟩
    · exact ⟨_, (Beside.refl.set (by decide) _).set (by decide) _, rfl⟩

theorem invalidateCapacity_only (barcode reason : String) (index : UInt64) :
    ∃ m, Beside c.management m ∧ invalidateCapacity c barcode reason index = { c with management := m } :=
  updateRecord_only ..

theorem invalidateOtherVolume_only (barcode uuid : String) (index : UInt64) :
    ∃ m, Beside c.management m ∧ invalidateOtherVolume c barcode uuid index = { c with management := m } :=
  updateRecord_only ..

theorem observeTape_only (barcode : String) (observation : Value) (index : UInt64) :
    ∃ m, (Beside c.management m ∨ Beside (begun c.management) m) ∧
      observeTape c barcode observation index = { c with management := m } := by
  unfold observeTape
  split
  · exact ⟨c.management, .inl .refl, rfl⟩
  split
  · obtain ⟨m, beside, only⟩ := invalidateCapacity_only c barcode
      (((observation.field "reason").asString).getD "介质身份失效") index
    exact ⟨m, .inl beside, only⟩
  split
  · exact ⟨c.management, .inl .refl, rfl⟩
  split
  · exact ⟨c.management, .inl .refl, rfl⟩
  dsimp only
  rw [begun]
  generalize (if c.management.isNull = true then empty else c.management) = m
  have recorded := fun record => (Beside.refl : Beside m m).set (show "tapes" ≠ "tasks" by decide) record
  split
  · split
    · exact ⟨_, .inr ((recorded _).set (by decide) _), rfl⟩
    · exact ⟨_, .inr ((recorded _).set (by decide) _), rfl⟩
  · exact ⟨_, .inr ((recorded _).set (by decide) _), rfl⟩

theorem interrupt_only : ∃ m, interrupt c = { c with management := m } := by
  unfold interrupt
  split
  · exact ⟨c.management, rfl⟩
  · split
    · exact ⟨_, rfl⟩
    · exact ⟨c.management, rfl⟩

theorem recordResult_only (resource target : String) (result : Value) :
    ∃ m, Beside c.management m ∧ recordResult c resource target result = { c with management := m } := by
  have placed : ∀ m, Beside c.management m → Beside c.management
      (if resource = "tapes" ∧ (result.get "home_address").isSome then
        m.setPath ["tapes", target, "home_address"] (result.field "home_address") else m) := by
    intro m beside
    split
    · exact beside.set (by decide) _
    · exact beside
  refine ⟨_, placed _ ?_, rfl⟩
  split
  · exact Beside.refl.set (by decide) _
  · exact .refl

end Edits

theorem finishConfig_ok {result : Value} (finished : finishConfig c r result = .ok next) :
    (∃ m answer, Beside c.management m ∧ requestText r "resource" = "pools" ∧ requestText r "action" = "set" ∧
      poolSet { c with management := m } (requestText r "target") (r.field "params") = .ok (next, answer)) ∨
    (∃ m, Beside c.management m ∧ requestText r "resource" = "tapes" ∧ requestText r "action" = "assign" ∧
      next = finishAssign { c with management := m } (requestText r "target") (r.field "params") result) ∨
    (∃ m, Beside c.management m ∧ requestText r "resource" = "tapes" ∧ requestText r "action" = "unassign" ∧
      next = finishUnassign { c with management := m } (requestText r "target")) ∨
    ((requestText r "resource", requestText r "action") ∉
        [("pools", "set"), ("tapes", "assign"), ("tapes", "unassign")] ∧
      ∃ m, Beside c.management m ∧ next = { c with management := m }) := by
  unfold finishConfig at finished
  dsimp only at finished
  obtain ⟨m, beside, recorded⟩ := recordResult_only c (requestText r "resource") (requestText r "target") result
  rw [recorded] at finished
  split at finished
  · rename_i which
    simp only [Prod.mk.injEq] at which
    obtain ⟨⟨changed, answer⟩, set, finished⟩ := bind_ok.mp finished
    cases finished
    exact .inl ⟨m, answer, beside, which.1, which.2, set⟩
  · rename_i notSet
    split at finished
    · rename_i which
      simp only [Prod.mk.injEq] at which
      cases finished
      exact .inr (.inl ⟨m, beside, which.1, which.2, rfl⟩)
    · rename_i notAssign
      split at finished
      · rename_i which
        simp only [Prod.mk.injEq] at which
        cases finished
        exact .inr (.inr (.inl ⟨m, beside, which.1, which.2, rfl⟩))
      · rename_i notUnassign
        refine .inr (.inr (.inr ⟨by simp [notSet, notAssign, notUnassign], ?_⟩))
        split at finished
        · cases finished
          exact ⟨_, beside.set (by decide) _, rfl⟩
        split at finished
        · split at finished
          · cases finished
            exact ⟨_, beside.set (by decide) _, rfl⟩
          · cases finished
            exact ⟨_, beside.set (by decide) _, rfl⟩
          · cases finished
            exact ⟨_, beside.set (by decide) _, rfl⟩
          · cases finished
        · cases finished
          exact ⟨_, beside, rfl⟩

theorem finishConfig_frame {result : Value} (finished : finishConfig c r result = .ok next) :
    ∃ m pools tapes, next = { c with management := m, pools, tapes } ∨
      (requestText r "resource" = "tapes" ∧ requestText r "action" = "unassign" ∧ next = { c with
        management := m
        tapes := c.tapes.erase (requestText r "target")
        tapeSummary := c.tapeSummary.erase (requestText r "target")
        tapeState := c.tapeState.erase (requestText r "target") }) := by
  rcases finishConfig_ok finished with
    ⟨_, _, _, _, _, set⟩ | ⟨m, _, _, _, rfl⟩ | ⟨m, _, resource, action, rfl⟩ | ⟨_, m, _, rfl⟩
  · obtain ⟨m, pools, rfl⟩ := poolSet_frame set
    exact ⟨m, pools, c.tapes, .inl rfl⟩
  · unfold finishAssign
    dsimp only
    split
    · exact ⟨_, _, _, .inl rfl⟩
    · exact ⟨_, _, _, .inl rfl⟩
  · exact ⟨_, c.pools, c.tapes, .inr ⟨resource, action, rfl⟩⟩
  · exact ⟨m, c.pools, c.tapes, .inl rfl⟩

def succeed (c : ControlState) (key : String) (result : Value) : ControlState :=
  amend c key [("state", .string "success"), ("progress", .number 100), ("finished_index", .number c.appliedIndex),
    ("result", result)]

/-- What a report of a round can set in a task, other than that it has been carried out. -/
inductive Amends (task : Value) (owner round : UInt64) : List (String × Value) → Prop
  | start (queued : (task.field "state").isText "queued") :
      Amends task owner round [("state", .string "running"), ("round", .number round), ("owner", .number owner)]
  | progress (runs : running task) (bound : (task.field "round").isNumber round) (progress : UInt64) :
      Amends task owner round [("progress", .number progress)]
  | finish {phase : String} {rest : List (String × Value)} (runs : running task)
      (bound : (task.field "round").isNumber round) (ends : phase = "failed" ∨ phase = "cancelled")
      (apart : ∀ entry ∈ rest, entry.1 ∉ ["state", "round", "request"]) :
      Amends task owner round (("state", .string phase) :: rest)

theorem active_of_running (runs : running task) : active task := Bool.or_eq_true_iff.mpr (.inr runs)

theorem Amends.active {owner round : UInt64} {fields : List (String × Value)} (amends : Amends task owner round fields) :
    active task := by
  cases amends with
  | start queued => exact Bool.or_eq_true_iff.mpr (.inl queued)
  | progress runs | finish runs => exact active_of_running runs

theorem Amends.request {owner round : UInt64} {fields : List (String × Value)} (amends : Amends task owner round fields) :
    ∀ entry ∈ fields, entry.1 ≠ "request" := by
  cases amends with
  | start | progress => simp
  | finish _ _ _ apart =>
    intro entry member
    rcases List.mem_cons.mp member with rfl | inRest
    · exact fun same => absurd same (show "state" ≠ "request" by decide)
    · intro same
      exact apart entry inRest (by simp [same])

/-- A report is dropped; or it changes a task that has not ended; or it ends one and carries its configuration change
    into the state. -/
theorem report_cases (c : ControlState) (id round : UInt64) (phase : String) (result : Value) :
    report c id round phase result = (c, false) ∨
    ∃ e task, c.executor = some e ∧ e.round = round ∧ e.fenced ∧
      (c.management.field "tasks").get (Text.decimal id) = some task ∧
      ((∃ m fields, Beside c.management m ∧ Amends task e.node round fields ∧
        report c id round phase result = (amend { c with management := m } (Text.decimal id) fields, false)) ∨
      ∃ next, phase = "success" ∧ running task ∧ (task.field "round").isNumber round ∧
        finishConfig c (task.field "request") result = .ok next ∧
        report c id round phase result = (succeed next (Text.decimal id) result, true)) := by
  unfold report
  split
  · exact .inl rfl
  rename_i e owns
  obtain ⟨current, owns⟩ := filter_eq_some_iff.mp owns
  simp only [Bool.and_eq_true, decide_eq_true_eq] at owns
  dsimp only
  split
  · exact .inl rfl
  rename_i task found
  split
  · rename_i queued
    exact .inr ⟨e, task, current, owns.1, owns.2, found, .inl ⟨c.management, _, .refl, .start queued.2, rfl⟩⟩
  split
  · rename_i runs
    split
    · exact .inr ⟨e, task, current, owns.1, owns.2, found,
        .inl ⟨c.management, _, .refl, .progress runs.2.1 runs.2.2 _, rfl⟩⟩
    · exact .inl rfl
  · split
    · exact .inl rfl
    rename_i live
    simp only [not_or, Bool.not_eq_true', Bool.not_eq_false, not_not] at live
    obtain ⟨runs, bound, ends⟩ := live
    split
    · rename_i success
      subst success
      split
      · obtain ⟨m, beside, recorded⟩ := recordResult_only c (requestText (task.field "request") "resource")
          (requestText (task.field "request") "target") result
        rw [recorded]
        exact .inr ⟨e, task, current, owns.1, owns.2, found,
          .inl ⟨m, _, beside, .finish runs bound (.inl rfl) (by simp), rfl⟩⟩
      · rename_i next finished
        exact .inr ⟨e, task, current, owns.1, owns.2, found, .inr ⟨next, rfl, runs, bound, finished, rfl⟩⟩
    · rename_i failed
      have over' : phase = "failed" ∨ phase = "cancelled" := by simpa [failed] using ends
      exact .inr ⟨e, task, current, owns.1, owns.2, found,
        .inl ⟨c.management, _, .refl, .finish runs bound over' (by simp), rfl⟩⟩

end Management

namespace Applied

def Plain : Applied → Prop
  | newExecutor _ | reported _ => False
  | _ => True

def endsRound : Applied → Bool
  | newExecutor _ | executorGone .. => true
  | _ => false

end Applied

namespace Core

/-- What applying a command at a log index can do to the executor and its reports. -/
inductive Shift (index : UInt64) : Core → Command → Core → Applied → Prop
  | same {core : Core} {cmd : Command} {outcome : Applied} (plain : outcome.Plain) : Shift index core cmd core outcome
  | start {core : Core} {cmd : Command} (node term inst : UInt64)
      (idle : ∀ target inst' term' round expected sequence group,
        cmd = .rebalanceExecutor target inst' term' round expected sequence group →
        core.executorReady ∧ core.executorInstance = expected ∧
          ∃ e a, core.executor = some e ∧ e.fenced ∧ e.round = round ∧ core.deviceActivity = some a ∧ a.busy = false ∧
            a.round = round ∧ a.inst = expected ∧ a.sequence = sequence ∧ a.node = e.node) :
      Shift index core cmd
        { executor := some { node, term, round := index, fenced := false }, executorInstance := inst }
        (.newExecutor { node, term, round := index, fenced := false })
  | fence {core : Core} {e : Executor} (current : core.executor = some e) :
      Shift index core (.fenced e.node e.round) { core with executor := some { e with fenced := true } }
        (.fenceConfirmed { e with fenced := true })
  | ready {core : Core} {e : Executor} (current : core.executor = some e) (fenced : e.fenced) :
      Shift index core (.executorReady e.node e.round) { core with executorReady := true } .nothing
  | gone {core : Core} {e : Executor} {reason : String} (current : core.executor = some e) :
      Shift index core (.abandoned e.node e.round reason)
        { core with executor := none, executorReady := false, deviceActivity := none } (.executorGone e.node e.round)
  | activity {core : Core} {e : Executor} {inst sequence number : UInt64} {busy : Bool}
      (current : core.executor = some e) (fenced : e.fenced) (ready : core.executorReady)
      (owned : core.executorInstance = inst) (next : Word.succ? core.executorReportSequence = some sequence)
      (follows : (match core.deviceActivity with
        | none => some 1
        | some a => Word.succ? a.sequence) = some number) :
      Shift index core (.executorReport e.node inst e.round sequence (.deviceActivity number busy))
        { core with
          executorReportSequence := sequence
          deviceActivity := some { node := e.node, inst, round := e.round, sequence := number, busy } }
        (.reported .nothing)
  | report {core after : Core} {e : Executor} {inst sequence : UInt64} {command : Command} {outcome : Applied}
      (current : core.executor = some e) (owned : core.executorInstance = inst)
      (next : Word.succ? core.executorReportSequence = some sequence) (other : command.activity? = none)
      (plain : outcome.Plain)
      (inner : Shift index { core with executorReportSequence := sequence } command after outcome) :
      Shift index core (.executorReport e.node inst e.round sequence command) after (.reported outcome)

end Core

namespace ControlState

variable {c : ControlState} {round node : UInt64}

theorem runs_iff : c.runs node round ↔ ∃ e, c.executor = some e ∧ e.node = node ∧ e.round = round := by
  unfold runs
  cases c.executor <;> simp

def ledger (c : ControlState) : UInt64 × SortedMap Nat Candidate := (c.appliedIndex, c.candidates)

/-- Nothing happens to the executor, its reports and the candidates. -/
structure Steady (c : ControlState) (run : ControlState × Applied) : Prop where
  core : run.1.core = c.core
  ledger : run.1.ledger = c.ledger
  plain : run.2.Plain
  calm : run.2.endsRound = false

theorem Steady.shift {index : UInt64} {before : Core} {cmd : Command} {run : ControlState × Applied} (steady : c.Steady run)
    (here : c.core = before) : Core.Shift index before cmd run.1.core run.2 := by
  rw [steady.core, here]
  exact .same steady.plain

theorem Steady.of_only {run : ControlState × Applied} {after : ControlState} (only : run.1 = after)
    (core : after.core = c.core) (ledger : after.ledger = c.ledger) (plain : run.2.Plain)
    (calm : run.2.endsRound = false) : c.Steady run := by
  subst only
  exact ⟨core, ledger, plain, calm⟩

theorem Steady.refl {outcome : Applied} (plain : outcome.Plain) (calm : outcome.endsRound = false) :
    c.Steady (c, outcome) := ⟨rfl, rfl, plain, calm⟩

def Refused (c : ControlState) (result : ControlState × Except String Reply) : Prop :=
  ∃ reason, result = (c, .error reason)

section Commands

variable (c)

theorem quiesceCatalog_steady (index : UInt64) : c.Steady (c.quiesceCatalog index) := by
  unfold quiesceCatalog
  split <;> exact ⟨rfl, rfl, trivial, rfl⟩

theorem resumeCatalog_steady (quiesceIndex : UInt64) : c.Steady (c.resumeCatalog quiesceIndex) := by
  unfold resumeCatalog
  split <;> exact ⟨rfl, rfl, trivial, rfl⟩

theorem freezeCatalog_steady (index quiesceIndex : UInt64) : c.Steady (c.freezeCatalog index quiesceIndex) := by
  unfold freezeCatalog
  split
  · exact .refl trivial rfl
  · split
    · exact .refl trivial rfl
    · split <;> exact ⟨rfl, rfl, trivial, rfl⟩

theorem managementReport_frame (id round : UInt64) (phase : String) (result : Value) :
    ∃ m pools tapes, (c.managementReport id round phase result).1 = { c with management := m, pools, tapes } ∨
      ∃ task r, (c.management.field "tasks").get (Text.decimal id) = some task ∧ task.field "request" = r ∧
        requestText r "resource" = "tapes" ∧ requestText r "action" = "unassign" ∧
        (c.managementReport id round phase result).1 = { c with
          management := m
          tapes := c.tapes.erase (requestText r "target")
          tapeSummary := c.tapeSummary.erase (requestText r "target")
          tapeState := c.tapeState.erase (requestText r "target") } := by
  have whole : (c.managementReport id round phase result).1 = (report c id round phase result).1 := by
    unfold managementReport
    dsimp only
    split <;> rfl
  rw [whole]
  rcases report_cases c id round phase result with
    dropped | ⟨_, task, _, _, _, there, ⟨m, _, _, _, changed⟩ | ⟨next, _, _, _, finished, changed⟩⟩
  · rw [dropped]
    exact ⟨c.management, c.pools, c.tapes, .inl rfl⟩
  · rw [changed]
    exact ⟨_, c.pools, c.tapes, .inl rfl⟩
  · rw [changed]
    obtain ⟨m, pools, tapes, rfl | ⟨resource, action, rfl⟩⟩ := finishConfig_frame finished
    · exact ⟨_, pools, tapes, .inl rfl⟩
    · exact ⟨_, c.pools, c.tapes, .inr ⟨task, _, there, rfl, resource, action, rfl⟩⟩

theorem managementReport_steady (task round : UInt64) (phase : String) (result : Value) :
    c.Steady (c.managementReport task round phase result) := by
  have outcome : (c.managementReport task round phase result).2.Plain ∧
      (c.managementReport task round phase result).2.endsRound = false := by
    unfold managementReport
    dsimp only
    split <;> exact ⟨trivial, rfl⟩
  obtain ⟨m, pools, tapes, only | ⟨_, _, _, _, _, _, only⟩⟩ := c.managementReport_frame task round phase result
  · exact .of_only only rfl rfl outcome.1 outcome.2
  · exact .of_only only rfl rfl outcome.1 outcome.2

theorem setTapeState_frame (index : UInt64) (barcode state : String) :
    ∃ m states, Management.Beside c.management m ∧
      c.setTapeState index barcode state = { c with management := m, tapeState := states } := by
  unfold setTapeState
  split
  · exact ⟨c.management, c.tapeState, .refl, rfl⟩
  dsimp only
  split
  · split
    · obtain ⟨m, beside, only⟩ := invalidateCapacity_only c barcode "磁带即将重新格式化" index
      rw [only]
      exact ⟨m, _, beside, rfl⟩
    · exact ⟨c.management, _, .refl, rfl⟩
  · exact ⟨c.management, c.tapeState, .refl, rfl⟩

theorem tapeReclaimed_frame (index : UInt64) (barcode volumeUuid : String) :
    ∃ m summary states, Management.Beside c.management m ∧ (c.tapeReclaimed index barcode volumeUuid).1 =
      { c with management := m, tapeSummary := summary, tapeState := states } ∧
      (c.tapeReclaimed index barcode volumeUuid).2.Plain ∧
      (c.tapeReclaimed index barcode volumeUuid).2.endsRound = false := by
  unfold tapeReclaimed
  split
  · obtain ⟨m, beside, only⟩ := invalidateOtherVolume_only c barcode volumeUuid index
    rw [only]
    exact ⟨m, _, _, beside, rfl, trivial, rfl⟩
  · exact ⟨c.management, c.tapeSummary, c.tapeState, .refl, rfl, trivial, rfl⟩

theorem tapeCommitted_frame (index : UInt64) (barcode volumeUuid : String)
    (generation files bytesUsed bytesWritten : UInt64) :
    ∃ m summary, Management.Beside c.management m ∧
      (c.tapeCommitted index barcode volumeUuid generation files bytesUsed bytesWritten).1 =
        { c with management := m, tapeSummary := summary } ∧
      (c.tapeCommitted index barcode volumeUuid generation files bytesUsed bytesWritten).2.Plain ∧
      (c.tapeCommitted index barcode volumeUuid generation files bytesUsed bytesWritten).2.endsRound = false := by
  unfold tapeCommitted
  dsimp only
  split
  · split
    · obtain ⟨m, beside, only⟩ := invalidateOtherVolume_only c barcode volumeUuid index
      rw [only]
      exact ⟨m, _, beside, rfl, trivial, rfl⟩
    · exact ⟨c.management, _, .refl, rfl, trivial, rfl⟩
  · exact ⟨c.management, c.tapeSummary, .refl, rfl, trivial, rfl⟩

theorem poolCreate_cases (uuid name : String) (fileLimit : UInt64) :
    c.Refused (c.poolCreate uuid name fileLimit) ∨
    (c.pools.contains uuid = false ∧ (c.pools.entries.any fun entry => entry.2.name = name) = false ∧
      c.poolCreate uuid name fileLimit = ({ c with pools := c.pools.insert uuid { name, fileLimit } }, .ok (.text uuid))) := by
  unfold poolCreate
  split
  · exact .inl ⟨_, rfl⟩
  split
  · exact .inl ⟨_, rfl⟩
  split
  · exact .inl ⟨_, rfl⟩
  rename_i fresh
  split
  · exact .inl ⟨_, rfl⟩
  rename_i unnamed
  split
  · exact .inl ⟨_, rfl⟩
  · exact .inr ⟨Bool.eq_false_iff.mpr fresh, Bool.eq_false_iff.mpr unnamed, rfl⟩

theorem tapeAssign_cases (barcode pool : String) :
    c.Refused (c.tapeAssign barcode pool) ∨ ∃ uuid reply, activeTasks c.management = false ∧
      c.resolvePool pool = some uuid ∧ c.tapes.get barcode = none ∧
      c.tapeAssign barcode pool = ({ c with tapes := c.tapes.insert barcode uuid }, .ok reply) := by
  unfold tapeAssign
  split
  · exact .inl ⟨_, rfl⟩
  rename_i idle
  split
  · exact .inl ⟨_, rfl⟩
  split
  · exact .inl ⟨_, rfl⟩
  rename_i uuid found
  split
  · exact .inl ⟨_, rfl⟩
  rename_i free
  split
  · exact .inl ⟨_, rfl⟩
  · split
    · exact .inl ⟨_, rfl⟩
    · exact .inr ⟨uuid, _, Bool.eq_false_iff.mpr idle, found, free, rfl⟩

theorem tapeUnassign_cases (barcode : String) :
    c.Refused (c.tapeUnassign barcode) ∨ ∃ m reply, Management.Beside c.management m ∧ c.tapes.contains barcode = true ∧
      (∀ s, c.tapeSummary.get barcode = some s → s.files = 0) ∧
      c.tapeUnassign barcode = ({ c with
        management := m
        tapes := c.tapes.erase barcode
        tapeSummary := c.tapeSummary.erase barcode
        tapeState := c.tapeState.erase barcode }, .ok reply) := by
  unfold tapeUnassign
  split
  · exact .inl ⟨_, rfl⟩
  split
  · exact .inl ⟨_, rfl⟩
  rename_i there
  split
  · exact .inl ⟨_, rfl⟩
  rename_i unused
  refine .inr ⟨_, _, ?_, by simpa using there, ?_, rfl⟩
  · split
    · exact (Management.Beside.refl.set (by decide) _).set (by decide) _
    · exact .refl
  · intro s found
    rw [filter_eq_none_iff] at unused
    have none' := unused s found
    simpa using none'

theorem tapeReclaim_cases (barcode : String) :
    c.Refused (c.tapeReclaim barcode) ∨ ∃ reply,
      c.tapeReclaim barcode = ({ c with tapeState := c.tapeState.insert barcode .reclaiming }, .ok reply) := by
  unfold tapeReclaim
  split
  · exact .inl ⟨_, rfl⟩
  split
  · exact .inl ⟨_, rfl⟩
  split
  · exact .inl ⟨_, rfl⟩
  dsimp only
  split
  · exact .inl ⟨_, rfl⟩
  split
  · exact .inl ⟨_, rfl⟩
  · split
    · exact .inl ⟨_, rfl⟩
    · exact .inr ⟨_, rfl⟩

end Commands

theorem guarded_steady {cmd : Command} {run : ControlState × Applied} (steady : c.Steady run) :
    c.Steady (c.guarded cmd run) := by
  unfold guarded
  split
  · exact .refl trivial rfl
  · exact steady

/-- Whether a command is none of those about executors. -/
def sparesExecutor : Command → Bool
  | .executorReport .. | .candidate .. | .executorReady .. | .rebalanceExecutor .. | .assignExecutor .. | .takeover ..
  | .fenced .. | .abandoned .. => false
  | _ => true

theorem apply_steady (c : ControlState) (index : UInt64) {cmd : Command} (spares : sparesExecutor cmd) :
    (c.advanced index).Steady (c.apply index cmd) := by
  cases cmd with
  | catalogQuiesce => exact guarded_steady (quiesceCatalog_steady ..)
  | catalogResume quiesceIndex => exact guarded_steady (resumeCatalog_steady ..)
  | catalogFreeze quiesceIndex => exact guarded_steady (freezeCatalog_steady ..)
  | manage request =>
    obtain ⟨m, pools, only⟩ := apply_frame (c.advanced index) index request
    exact guarded_steady (.of_only only rfl rfl trivial rfl)
  | observeTape barcode observation =>
    obtain ⟨m, _, only⟩ := observeTape_only (c.advanced index) barcode observation index
    exact guarded_steady (.of_only only rfl rfl trivial rfl)
  | managementReport task round phase result => exact guarded_steady (managementReport_steady ..)
  | fileTask | deviceActivity | catalogPart => exact guarded_steady (.refl trivial rfl)
  | vipAcquire address node round expectedToken =>
    refine guarded_steady ?_
    simp only [acquireVip]
    split <;> exact ⟨rfl, rfl, trivial, rfl⟩
  | vipRelease address node round token =>
    refine guarded_steady ?_
    simp only [releaseVip]
    split
    · split <;> exact ⟨rfl, rfl, trivial, rfl⟩
    · exact .refl trivial rfl
  | poolCreate uuid name fileLimit =>
    refine guarded_steady ?_
    rcases (c.advanced index).poolCreate_cases uuid name fileLimit with ⟨_, same⟩ | ⟨_, _, created⟩
    · rw [same]
      exact .refl trivial rfl
    · rw [created]
      exact ⟨rfl, rfl, trivial, rfl⟩
  | tapeAssign barcode pool =>
    refine guarded_steady ?_
    rcases (c.advanced index).tapeAssign_cases barcode pool with ⟨_, same⟩ | ⟨_, _, _, _, _, assigned⟩
    · rw [same]
      exact .refl trivial rfl
    · rw [assigned]
      exact ⟨rfl, rfl, trivial, rfl⟩
  | tapeUnassign barcode =>
    refine guarded_steady ?_
    rcases (c.advanced index).tapeUnassign_cases barcode with ⟨_, same⟩ | ⟨_, _, _, _, _, unassigned⟩
    · rw [same]
      exact .refl trivial rfl
    · rw [unassigned]
      exact ⟨rfl, rfl, trivial, rfl⟩
  | tapeState barcode state =>
    obtain ⟨m, states, _, only⟩ := (c.advanced index).setTapeState_frame index barcode state
    exact guarded_steady (.of_only only rfl rfl trivial rfl)
  | tapeReclaim barcode =>
    refine guarded_steady ?_
    rcases (c.advanced index).tapeReclaim_cases barcode with ⟨_, same⟩ | ⟨_, started⟩
    · rw [same]
      exact .refl trivial rfl
    · rw [started]
      exact ⟨rfl, rfl, trivial, rfl⟩
  | tapeReclaimed barcode volumeUuid =>
    obtain ⟨m, summary, states, _, only, plain, calm⟩ := (c.advanced index).tapeReclaimed_frame index barcode volumeUuid
    exact guarded_steady (.of_only only rfl rfl plain calm)
  | tapeCommitted barcode volumeUuid generation files bytesUsed bytesWritten parts full =>
    obtain ⟨m, summary, _, only, plain, calm⟩ :=
      (c.advanced index).tapeCommitted_frame index barcode volumeUuid generation files bytesUsed bytesWritten
    exact guarded_steady (.of_only only rfl rfl plain calm)
  | _ => cases spares

/-- An assignment leaves the executor alone or starts a new round; a takeover refused by the state of the catalog
    cannot come up, since the assignment itself would have been refused. -/
theorem assign_cases (index node inst term : UInt64) (expectedRound : Option UInt64) (group : String)
    (free : c.rejects (.takeover node term) = false) :
    (c.assign index node inst term expectedRound group = (c, .nothing)) ∨
    ((c.assign index node inst term expectedRound group).1.core =
        { executor := some { node, term, round := index, fenced := false }, executorInstance := inst } ∧
      (c.assign index node inst term expectedRound group).2 =
        .newExecutor { node, term, round := index, fenced := false }) := by
  unfold assign guarded
  split
  · exact .inl rfl
  · rw [free]
    exact .inr ⟨rfl, rfl⟩

theorem rebalance_cases (index node inst term round expected sequence : UInt64) (group : String)
    (free : c.rejects (.takeover node term) = false) :
    (c.rebalance index node inst term round expected sequence group = (c, .nothing)) ∨
    (c.provesIdle round expected sequence ∧
      (c.rebalance index node inst term round expected sequence group).1.core =
        { executor := some { node, term, round := index, fenced := false }, executorInstance := inst } ∧
      (c.rebalance index node inst term round expected sequence group).2 =
        .newExecutor { node, term, round := index, fenced := false }) := by
  unfold rebalance
  split
  · rename_i idle
    have open' : c.rejects (.assignExecutor node inst term (some round) group) = false := free
    unfold guarded
    rw [open']
    rcases assign_cases index node inst term (some round) group free with same | ⟨core, outcome⟩
    · exact .inl same
    · exact .inr ⟨idle, core, outcome⟩
  · exact .inl rfl

theorem provesIdle_iff {expected sequence : UInt64} :
    c.provesIdle round expected sequence ↔ c.executorReady ∧ c.executorInstance = expected ∧
      ∃ e a, c.executor = some e ∧ e.fenced ∧ e.round = round ∧ c.deviceActivity = some a ∧ a.busy = false ∧
        a.round = round ∧ a.inst = expected ∧ a.sequence = sequence ∧ a.node = e.node := by
  unfold provesIdle
  cases c.executor with
  | none => simp
  | some e =>
    cases c.deviceActivity with
    | none => simp
    | some a =>
      simp only [Bool.and_eq_true, decide_eq_true_eq, any_some, some.injEq, Bool.not_eq_true']
      constructor
      · rintro ⟨⟨⟨ready, inst⟩, fenced, round⟩, ⟨⟨⟨busy, ofRound⟩, ofInst⟩, sequence⟩, node⟩
        exact ⟨ready, inst, e, a, rfl, fenced, round, rfl, busy, ofRound, ofInst, sequence, node.symm⟩
      · rintro ⟨ready, inst, _, _, rfl, fenced, round, rfl, busy, ofRound, ofInst, sequence, node⟩
        exact ⟨⟨⟨ready, inst⟩, fenced, round⟩, ⟨⟨⟨busy, ofRound⟩, ofInst⟩, sequence⟩, node.symm⟩

theorem accepts_iff {inst sequence : UInt64} {command : Command} :
    c.accepts node inst round sequence command ↔ ∃ e, c.executor = some e ∧ e.node = node ∧ e.round = round ∧
      c.executorInstance = inst ∧ Word.succ? c.executorReportSequence = some sequence ∧
      (c.candidates.get node.toNat).any (fun candidate => candidate.inst = inst) ∧
      c.admissible e node round command := by
  unfold accepts
  cases c.executor with
  | none => simp
  | some e =>
    by_cases here : e.node = node ∧ e.round = round
    · have filtered : (some e).filter (fun e => decide (e.node = node) && decide (e.round = round)) = some e := by
        simp [Option.filter, here]
      rw [filtered]
      simp [here, and_assoc]
    · have filtered : (some e).filter (fun e => decide (e.node = node) && decide (e.round = round)) = none := by
        simp only [filter_eq_none_iff, some.injEq]
        rintro _ rfl
        simpa using here
      rw [filtered]
      simp only [Bool.false_eq_true, false_iff, not_exists, not_and]
      rintro _ same node round
      cases same
      exact absurd ⟨node, round⟩ here

theorem admissible_plain {e : Executor} {command : Command} (admissible : c.admissible e node round command)
    (index : UInt64) (c' : ControlState) : (c'.apply index command).2.Plain := by
  have rejected : ∀ state : ControlState, ∀ cmd run, Applied.Plain run.2 → (state.guarded cmd run).2.Plain := by
    intro state cmd run plain
    unfold guarded
    split
    · exact trivial
    · exact plain
  cases command with
  | fenced n r =>
    refine rejected _ _ _ ?_
    simp only [confirmFence]
    split
    · split <;> exact trivial
    · exact trivial
  | abandoned n r reason =>
    refine rejected _ _ _ ?_
    simp only [abandon]
    split <;> exact trivial
  | executorReady n r => exact rejected _ _ _ trivial
  | deviceActivity | tapeState | fileTask | managementReport | observeTape | catalogPart | tapeCommitted | tapeReclaimed =>
    exact (c'.apply_steady index rfl).plain
  | _ => cases admissible

theorem confirmFence_shift (c : ControlState) (index node round : UInt64) :
    Core.Shift index c.core (.fenced node round) (c.confirmFence node round).1.core (c.confirmFence node round).2 := by
  unfold confirmFence
  split
  · rename_i e current
    split
    · rename_i here
      obtain ⟨rfl, rfl⟩ := here
      have core : c.core.executor = some e := current
      exact .fence core
    · exact .same trivial
  · exact .same trivial

theorem announceReady_shift (c : ControlState) (index node round : UInt64) :
    Core.Shift index c.core (.executorReady node round) (c.announceReady node round).core .nothing := by
  unfold announceReady
  split
  · rename_i here
    obtain ⟨e, current, here⟩ := (any_eq_true _ _).mp here
    simp only [Bool.and_eq_true, decide_eq_true_eq] at here
    obtain ⟨⟨rfl, rfl⟩, fenced⟩ := here
    have core : c.core.executor = some e := current
    exact .ready core fenced
  · exact .same trivial

theorem abandon_shift (c : ControlState) (index node round : UInt64) (reason : String) :
    Core.Shift index c.core (.abandoned node round reason) (c.abandon node round).1.core (c.abandon node round).2 := by
  unfold abandon
  split
  · rename_i here
    obtain ⟨e, current, rfl, rfl⟩ := runs_iff.mp here
    have shifted : Core.Shift index c.core (.abandoned e.node e.round reason)
        { c.core with executor := none, executorReady := false, deviceActivity := none }
        (.executorGone e.node e.round) := .gone current
    obtain ⟨m, interrupted⟩ := interrupt_only c
    rw [interrupted]
    exact shifted
  · exact .same trivial

theorem guarded_shift {index : UInt64} {core : Core} {cmd : Command} {run : ControlState × Applied}
    (here : c.core = core) (shift : c.rejects cmd = false → Core.Shift index core cmd run.1.core run.2) :
    Core.Shift index core cmd (c.guarded cmd run).1.core (c.guarded cmd run).2 := by
  unfold guarded
  split
  · rw [here]
    exact .same trivial
  · rename_i free
    exact shift (Bool.eq_false_iff.mpr free)

theorem apply_shift (c : ControlState) (index : UInt64) (cmd : Command) :
    Core.Shift index c.core cmd (c.apply index cmd).1.core (c.apply index cmd).2 := by
  induction cmd generalizing c with
  | executorReport node inst round sequence command ih =>
    refine guarded_shift rfl fun _ => ?_
    dsimp only
    split
    · exact .same trivial
    split
    · rename_i accepted
      obtain ⟨e, current, rfl, rfl, owned, next, _, allowed⟩ := accepts_iff.mp accepted
      have core : c.core.executor = some e := current
      cases kind : command.activity? with
      | some reported =>
        obtain ⟨number, busy⟩ := reported
        cases command with
        | deviceActivity number' busy' =>
          cases kind
          simp only [admissible, Bool.and_eq_true, decide_eq_true_eq] at allowed
          exact .activity core allowed.1.1 allowed.1.2 owned next allowed.2
        | _ => cases kind
      | none =>
        exact .report core owned next kind (admissible_plain allowed index _)
          (ih { c.advanced index with executorReportSequence := sequence })
    · exact .same trivial
  | executorReady node round => exact guarded_shift rfl fun _ => announceReady_shift (c.advanced index) ..
  | candidate node inst sequence group drives eligible =>
    refine guarded_shift rfl fun _ => ?_
    have same : ((c.advanced index).recordCandidate node inst sequence group drives eligible).core = c.core := by
      simp only [recordCandidate]
      split <;> rfl
    rw [same]
    exact .same trivial
  | assignExecutor node inst term expectedRound group =>
    refine guarded_shift rfl fun free => ?_
    rcases assign_cases index node inst term expectedRound group free with same | ⟨core, outcome⟩
    · rw [same]
      exact .same trivial
    · rw [core, outcome]
      exact .start node term inst nofun
  | rebalanceExecutor node inst term expectedRound expectedInstance idleSequence group =>
    refine guarded_shift rfl fun free => ?_
    rcases rebalance_cases index node inst term expectedRound expectedInstance idleSequence group free with
      same | ⟨idle, core, outcome⟩
    · rw [same]
      exact .same trivial
    · rw [core, outcome]
      refine .start node term inst ?_
      rintro _ _ _ _ _ _ _ ⟨⟩
      exact provesIdle_iff.mp idle
  | takeover node term => exact guarded_shift rfl fun _ => .start node term 0 nofun
  | fenced node round => exact guarded_shift rfl fun _ => confirmFence_shift (c.advanced index) ..
  | abandoned node round reason => exact guarded_shift rfl fun _ => abandon_shift (c.advanced index) ..
  | _ => exact Steady.shift (c.apply_steady index rfl) rfl

end ControlState
end TapeRs.Daemon
