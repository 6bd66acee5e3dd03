import TapeRs.Daemon.ControlCore

namespace TapeRs

open SortedMap

namespace Json.Value

variable {v : Value}

theorem extends_set (takes : v.Extends) (key : String) (value : Value) : (v.set key value).Extends := by
  rcases takes with rfl | ⟨fields, rfl⟩
  · exact .inr ⟨_, rfl⟩
  · exact .inr ⟨_, rfl⟩

theorem field_set (takes : v.Extends) (key other : String) (value : Value) :
    (v.set key value).field other = if other = key then value else v.field other := by
  rw [field, get_set takes]
  split <;> rfl

theorem extends_of_isText {key text : String} (there : (v.field key).isText text) : v.Extends := by
  cases v with
  | null => exact .inl rfl
  | object fields => exact .inr ⟨fields, rfl⟩
  | _ => cases there

end Json.Value

namespace Daemon.Management

open Json

variable {task : Value} {key : String} {c : ControlState}

/-- The management data and the tasks in them, by their key. -/
structure Filed (m : Value) (tasks : SortedMap String Value) : Prop where
  takes : m.Extends
  tasks : m.field "tasks" = .object tasks.entries ∨ (m.field "tasks" = .null ∧ tasks = .empty)

def Live (tasks : SortedMap String Value) (key : String) (request : Value) : Prop :=
  ∃ task, tasks.get key = some task ∧ active task ∧ task.field "request" = request

def Carries (tasks after : SortedMap String Value) : Prop := ∀ key request, Live after key request → Live tasks key request

theorem Carries.refl (tasks : SortedMap String Value) : Carries tasks tasks := fun _ _ live => live

theorem Carries.trans {first second third : SortedMap String Value} (one : Carries first second) (two : Carries second third) :
    Carries first third :=
  fun key request live => one key request (two key request live)

variable {m : Value} {tasks : SortedMap String Value}

theorem filed_null : Filed .null .empty := ⟨.inl rfl, .inr ⟨rfl, rfl⟩⟩

theorem filed_empty : Filed empty .empty := ⟨.inr ⟨_, rfl⟩, .inl rfl⟩

namespace Filed

variable (filed : Filed m tasks)
include filed

theorem get (key : String) : (m.field "tasks").get key = tasks.get key := by
  rcases filed.tasks with shape | ⟨shape, rfl⟩
  · rw [shape]
    rfl
  · rw [shape]
    rfl

theorem other (apart : key ≠ "tasks") (value : Value) : Filed (m.set key value) tasks := by
  refine ⟨Value.extends_set filed.takes key value, ?_⟩
  rw [Value.field_set filed.takes, if_neg (Ne.symm apart)]
  exact filed.tasks

theorem insert (key : String) (task : Value) : Filed (m.setPath ["tasks", key] task) (tasks.insert key task) := by
  refine ⟨Value.extends_set filed.takes _ _, .inl ?_⟩
  rw [Value.setPath, Value.field_set filed.takes, if_pos rfl]
  rcases filed.tasks with shape | ⟨shape, rfl⟩
  · rw [shape]
    rfl
  · rw [shape]
    rfl

theorem retain (keep : Value → Bool) :
    Filed (m.set "tasks" ((m.field "tasks").retain keep)) (tasks.filter fun _ task => keep task) := by
  refine ⟨Value.extends_set filed.takes _ _, ?_⟩
  rw [Value.field_set filed.takes, if_pos rfl]
  rcases filed.tasks with shape | ⟨shape, rfl⟩
  · rw [shape]
    exact .inl rfl
  · rw [shape]
    exact .inr ⟨rfl, rfl⟩

theorem entries {fields : List (String × Value)} (there : (m.get "tasks").bind Value.asObject = some fields) :
    fields = tasks.entries := by
  obtain ⟨found, got, object⟩ := Option.bind_eq_some_iff.mp there
  have shape := filed.tasks
  rw [Value.field, got, Option.getD_some] at shape
  rcases shape with rfl | ⟨rfl, _⟩
  · exact (Option.some.inj object).symm
  · cases object

theorem map {fields : List (String × Value)} (there : (m.get "tasks").bind Value.asObject = some fields)
    (change : Value → Value) :
    Filed (m.set "tasks" (.object (fields.map fun entry => (entry.1, change entry.2))))
      (tasks.map fun _ task => change task) := by
  refine ⟨Value.extends_set filed.takes _ _, .inl ?_⟩
  rw [Value.field_set filed.takes, if_pos rfl, filed.entries there]
  rfl

theorem activeTasks_of_live {request : Value} (live : Live tasks key request) : activeTasks m := by
  obtain ⟨task, there, working, _⟩ := live
  have member := mem_entries.mpr there
  unfold activeTasks
  rcases filed.tasks with shape | ⟨_, rfl⟩
  · rw [shape]
    exact List.any_eq_true.mpr ⟨_, member, working⟩
  · cases member

end Filed

theorem carries_filter (tasks : SortedMap String Value) (keep : String → Value → Bool) : Carries tasks (tasks.filter keep) := by
  rintro key request ⟨task, there, working, asks⟩
  rw [get_filter] at there
  exact ⟨task, (Option.filter_eq_some_iff.mp there).1, working, asks⟩

theorem carries_map {change : Value → Value}
    (calm : ∀ task, active (change task) → active task ∧ (change task).field "request" = task.field "request") :
    Carries tasks (tasks.map fun _ task => change task) := by
  rintro key request ⟨changed, there, working, rfl⟩
  rw [get_map] at there
  obtain ⟨task, old, rfl⟩ := Option.map_eq_some_iff.mp there
  obtain ⟨before, asks⟩ := calm task working
  exact ⟨task, old, before, asks.symm⟩

theorem carries_insert {changed : Value} (there : tasks.get key = some task)
    (calm : active changed → active task ∧ changed.field "request" = task.field "request") :
    Carries tasks (tasks.insert key changed) := by
  rintro other request ⟨found, here, working, rfl⟩
  rcases get_insert_some here with ⟨rfl, rfl⟩ | ⟨_, old⟩
  · obtain ⟨before, asks⟩ := calm working
    exact ⟨task, there, before, asks.symm⟩
  · exact ⟨found, old, working, rfl⟩

theorem field_foldl (takes : task.Extends) {fields : List (String × Value)} (apart : ∀ entry ∈ fields, entry.1 ≠ key) :
    (fields.foldl (fun task entry => task.set entry.1 entry.2) task).field key = task.field key := by
  induction fields generalizing task with
  | nil => rfl
  | cons entry rest ih =>
    rw [List.foldl_cons, ih (Value.extends_set takes ..) fun other member => apart other (List.mem_cons_of_mem _ member),
      Value.field_set takes, if_neg (Ne.symm (apart entry (List.mem_cons_self ..)))]

theorem extends_of_active (working : active task) : task.Extends := by
  simp only [active, Bool.or_eq_true] at working
  rcases working with queued | running
  · exact Value.extends_of_isText queued
  · exact Value.extends_of_isText running

theorem Beside.filed {other : Value} (beside : Beside m other) (filed : Filed m tasks) : Filed other tasks := by
  induction beside with
  | refl => exact filed
  | set _ apart value ih => exact ih.other apart value

theorem begun_filed (filed : Filed m tasks) : Filed (begun m) tasks := by
  unfold begun
  split
  · rename_i null
    cases m with
    | null =>
      rcases filed.tasks with shape | ⟨_, rfl⟩
      · cases shape
      · exact filed_empty
    | _ => cases null
  · exact filed

theorem cancelTask_calm (task : Value) (working : active (cancelTask task)) :
    active task ∧ (cancelTask task).field "request" = task.field "request" := by
  unfold cancelTask at working ⊢
  dsimp only at working ⊢
  by_cases queued : (task.field "state").isText "queued"
  · have takes := Value.extends_of_isText queued
    refine ⟨by simp [active, queued], ?_⟩
    simp only [if_pos queued]
    split
    · rw [Value.field_set (Value.extends_set takes ..), Value.field_set takes]
      rfl
    · rw [Value.field_set takes]
      rfl
  · simp only [if_neg queued] at working ⊢
    split at working
    · rename_i ends
      rw [if_pos ends]
      have takes : task.Extends := by
        rcases Bool.or_eq_true_iff.mp ends with running | cancelled
        · exact Value.extends_of_isText running
        · exact Value.extends_of_isText cancelled
      have state : (task.set "cancel_requested" (.bool true)).field "state" = task.field "state" := by
        rw [Value.field_set takes]
        rfl
      rw [active, state] at working
      refine ⟨working, ?_⟩
      rw [Value.field_set takes]
      rfl
    · rename_i ends
      rw [if_neg ends]
      exact ⟨working, rfl⟩

theorem interruptTask_calm (task : Value) (working : active (interruptTask task)) :
    active task ∧ (interruptTask task).field "request" = task.field "request" := by
  unfold interruptTask at working ⊢
  split at working
  · rename_i runs
    have takes : task.Extends := Value.extends_of_isText runs
    have state : ((task.set "state" (.string "indeterminate")).set "result"
        (.ofFields [("detail", .string "执行轮次已结束，须核实设备及目的地状态；不会自动重放")])).field "state" =
        .string "indeterminate" := by
      rw [Value.field_set (Value.extends_set takes ..), Value.field_set takes]
      rfl
    rw [active, state] at working
    exact absurd working (by decide)
  · rename_i idle
    rw [if_neg idle]
    exact ⟨working, rfl⟩

def Keeps (m after : Value) : Prop := ∀ tasks, Filed m tasks → ∃ tasks', Filed after tasks' ∧ Carries tasks tasks'

theorem Beside.keeps {other : Value} (beside : Beside m other) : Keeps m other :=
  fun tasks filed => ⟨tasks, beside.filed filed, .refl tasks⟩

theorem Keeps.trans {first second third : Value} (one : Keeps first second) (two : Keeps second third) :
    Keeps first third := by
  intro tasks filed
  obtain ⟨middle, filedMiddle, carries⟩ := one tasks filed
  obtain ⟨last, filedLast, carries'⟩ := two middle filedMiddle
  exact ⟨last, filedLast, carries.trans carries'⟩

theorem begun_keeps (m : Value) : Keeps m (begun m) := fun tasks filed => ⟨tasks, begun_filed filed, .refl tasks⟩

theorem interrupt_keeps (c : ControlState) : Keeps c.management (interrupt c).management := by
  intro tasks filed
  unfold interrupt
  split
  · exact ⟨tasks, filed, .refl tasks⟩
  rename_i fields there
  split
  · exact ⟨_, (filed.map there interruptTask).other (by decide) _, carries_map interruptTask_calm⟩
  · exact ⟨tasks, filed, .refl tasks⟩

theorem Filed.field (filed : Filed m tasks) (there : tasks.get key = some task) :
    (m.field "tasks").field key = task := by
  rw [Value.field, filed.get, there]
  rfl

theorem amend_filed (filed : Filed c.management tasks) (there : tasks.get key = some task)
    (fields : List (String × Value)) :
    Filed (amend c key fields).management
      (tasks.insert key (fields.foldl (fun task entry => task.set entry.1 entry.2) task)) := by
  have found := filed.field there
  have amended := filed.insert key (fields.foldl (fun task entry => task.set entry.1 entry.2) task)
  rw [← found] at amended ⊢
  exact amended.other (by decide) _

theorem amend_keeps {fields : List (String × Value)} (there : (c.management.field "tasks").get key = some task)
    (working : active task) (beside : Beside c.management m) (apart : ∀ entry ∈ fields, entry.1 ≠ "request") :
    Keeps c.management (amend { c with management := m } key fields).management := by
  intro tasks filed
  rw [filed.get] at there
  refine ⟨_, amend_filed (beside.filed filed) there fields, ?_⟩
  exact carries_insert there fun _ => ⟨working, field_foldl (extends_of_active working) apart⟩

def Ends (m after : Value) (key : String) : Prop :=
  ∀ tasks, Filed m tasks → ∃ tasks', Filed after tasks' ∧ Carries tasks tasks' ∧ ∀ request, ¬Live tasks' key request

theorem succeed_filed (result : Value) (filed : Filed c.management tasks) (there : tasks.get key = some task)
    (working : active task) : ∃ changed,
      Filed (succeed c key result).management (tasks.insert key changed) ∧ ¬active changed ∧
        changed.field "request" = task.field "request" := by
  have takes := extends_of_active working
  refine ⟨_, amend_filed filed there _, ?_, field_foldl takes (by simp)⟩
  rw [List.foldl_cons, active, field_foldl (Value.extends_set takes ..) (by simp), Value.field_set takes, if_pos rfl]
  decide

theorem succeed_ends (result : Value) (beside : Beside m c.management) (there : (m.field "tasks").get key = some task)
    (working : active task) : Ends m (succeed c key result).management key := by
  intro tasks filed
  rw [filed.get] at there
  obtain ⟨changed, after, ended, _⟩ := succeed_filed result (beside.filed filed) there working
  refine ⟨_, after, carries_insert there fun lives => absurd lives ended, ?_⟩
  rintro request ⟨found, here, lives, _⟩
  rw [get_insert, if_pos rfl] at here
  cases here
  exact ended lives

theorem succeed_request (result : Value) (beside : Beside m c.management) (filed : Filed m tasks)
    (there : (m.field "tasks").get key = some task) (working : active task) :
    (((succeed c key result).management.field "tasks").field key).field "request" = task.field "request" := by
  rw [filed.get] at there
  obtain ⟨changed, after, _, same⟩ := succeed_filed result (beside.filed filed) there working
  rw [after.field (by rw [get_insert, if_pos rfl]), same]

def Files (c : ControlState) (after : Value) : Prop :=
  ∀ tasks, Filed c.management tasks → ∃ tasks' key r, Filed after tasks' ∧ (∀ other request, ¬Live tasks other request) ∧
    (∀ other request, Live tasks' other request → other = key ∧ request = r) ∧
    (requestText r "resource" = "tapes" → requestText r "action" = "assign" →
      c.tapes.get (requestText r "target") = none)

theorem validateJob_assign {target : String} {p : Value} (valid : validateJob c "tapes" "assign" target p = .ok ()) :
    c.tapes.get target = none := by
  unfold validateJob at valid
  obtain ⟨_, _, valid⟩ := Result.bind_ok.mp valid
  simp only [Prod.mk.injEq] at valid
  by_cases free : c.tapes.contains target
  · simp [free] at valid
  · simpa [contains] using free

theorem Handles.keeps_or_files {index : UInt64} {r after : Value} (handled : Handles c index r after) :
    Keeps c.management after ∨ Files c after := by
  cases handled with
  | cancel there =>
    refine .inl fun tasks filed => ⟨_, filed.insert _ _, ?_⟩
    rw [filed.get] at there
    exact carries_insert there (cancelTask_calm _)
  | clear => exact .inl fun tasks filed => ⟨_, filed.retain active, carries_filter tasks _⟩
  | @file task idle valid asks _ =>
    refine .inr fun tasks filed => ⟨_, Text.decimal index, r, filed.insert _ task, ?_, ?_, ?_⟩
    · intro other request live
      rw [filed.activeTasks_of_live live] at idle
      cases idle
    · rintro other request ⟨found, here, working, rfl⟩
      rcases get_insert_some here with ⟨rfl, rfl⟩ | ⟨_, old⟩
      · exact ⟨rfl, asks⟩
      · rw [filed.activeTasks_of_live ⟨found, old, working, rfl⟩] at idle
        cases idle
    · intro resource action
      rw [resource, action] at valid
      exact validateJob_assign valid

end Daemon.Management

end TapeRs
