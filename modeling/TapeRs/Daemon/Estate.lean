import TapeRs.Daemon.ManagementTasks
import TapeRs.Daemon.Records

namespace TapeRs.Daemon

open Json SortedMap

namespace Management

variable {key : String}

def poolChanges (c : ControlState) (name : String) : Value :=
  match c.resolvePool name with
  | some uuid => .ofFields [("pool_update", .ofFields [("uuid", .string uuid), ("name", .string (c.poolName uuid)),
      ("file_limit", .number (c.poolLimit uuid))])]
  | none => .object []

def tapeChanges (c : ControlState) (target : String) : Value :=
  match c.tapes.get target with
  | some uuid => .ofFields [("assignment", .ofFields [("barcode", .string target), ("pool_uuid", .string uuid)])]
  | none => .object []

theorem requestText_eq {r : Value} {text : String} (there : (r.field key).asString = some text) :
    requestText r key = text := by
  rw [requestText, there]
  rfl

theorem requestText_some {r : Value} {text : String} (named : requestText r key = text) (filled : text ≠ "") :
    (r.field key).asString = some text := by
  unfold requestText at named
  cases there : (r.field key).asString with
  | none =>
    rw [there] at named
    exact absurd named.symm filled
  | some found =>
    rw [there] at named
    exact congrArg some named

theorem text_ok {v : Value} {value : String} (read : text v key = .ok value) : (v.field key).asString = some value := by
  unfold text at read
  split at read
  · rename_i found there
    split at read
    · cases read
      obtain ⟨inner, got, string⟩ := Option.bind_eq_some_iff.mp there
      rw [Value.field, got]
      exact string
    · cases read
  · cases read

section Changes

variable {c : ControlState} {id : UInt64} {r : Value}
  (asks : ((c.management.field "tasks").field (Text.decimal id)).field "request" = r)
include asks

theorem directoryChanges_set (resource : requestText r "resource" = "pools") (action : requestText r "action" = "set") :
    directoryChanges c id = poolChanges c
      (if ((r.field "params").field "attribute").isText "poolname" then
        (((r.field "params").field "value").asString).getD (requestText r "target")
      else requestText r "target") := by
  unfold directoryChanges
  rw [asks]
  dsimp only
  rw [requestText_some resource (by decide), requestText_some action (by decide)]
  rfl

theorem directoryChanges_assign (resource : requestText r "resource" = "tapes")
    (action : requestText r "action" = "assign") :
    directoryChanges c id = tapeChanges c (requestText r "target") := by
  unfold directoryChanges
  rw [asks]
  dsimp only
  rw [requestText_some resource (by decide), requestText_some action (by decide)]
  rfl

theorem directoryChanges_unassign (resource : requestText r "resource" = "tapes")
    (action : requestText r "action" = "unassign") :
    directoryChanges c id = .ofFields [("unassigned", .string (requestText r "target"))] := by
  unfold directoryChanges
  rw [asks]
  dsimp only
  rw [requestText_some resource (by decide), requestText_some action (by decide)]
  rfl

theorem directoryChanges_other (other : (requestText r "resource", requestText r "action") ∉
      [("pools", "set"), ("tapes", "assign"), ("tapes", "unassign")]) :
    directoryChanges c id = .object [] := by
  unfold directoryChanges
  rw [asks]
  dsimp only
  split
  · rename_i resource action
    rw [requestText_eq resource, requestText_eq action] at other
    exact absurd other (by decide)
  · rename_i resource action
    rw [requestText_eq resource, requestText_eq action] at other
    exact absurd other (by decide)
  · rename_i resource action
    rw [requestText_eq resource, requestText_eq action] at other
    exact absurd other (by decide)
  · rfl

end Changes

end Management

open Management

/-- The pools after an attribute of one has been set. -/
structure PoolSet (pools after : SortedMap String Pool) (uuid key value : String) (pool changed : Pool) : Prop where
  there : pools.get uuid = some pool
  get : ∀ other, after.get other = if other = uuid then some changed else pools.get other
  renamed : key = "poolname" → changed = { pool with name := value } ∧
    ∀ other row, pools.get other = some row → row.name = value → other = uuid
  kept : key ≠ "poolname" → changed.name = pool.name
  limited : key = "file_limit" → changed.fileLimit ≤ maxSigned
  unlimited : key ≠ "file_limit" → changed.fileLimit = pool.fileLimit

def Asks (c : ControlState) (id : UInt64) (r : Value) (resource action : String) : Prop :=
  (∃ task, (c.management.field "tasks").get (Text.decimal id) = some task ∧ active task ∧ task.field "request" = r) ∧
    requestText r "resource" = resource ∧ requestText r "action" = action

/-- What applying a command can do to pools, tapes, tasks and the frozen index, against what the directory is told. -/
inductive Reform (index : UInt64) (c after : ControlState) : Command × Applied → Prop
  | quiet {effect : Command × Applied}
      (same : ∀ (d : Directory) plan, d.reorganise plan effect.1 effect.2 = .ok d)
      (thawed : ∀ d : Directory, d.freeze index effect.1 effect.2 = .ok d)
      (frozen : after.catalogFrozenIndex = c.catalogFrozenIndex)
      (pools : after.pools = c.pools) (tapes : after.tapes = c.tapes)
      (tasks : Keeps c.management after.management ∨ Files c after.management) : Reform index c after effect
  | freeze {quiesceIndex place : UInt64}
      (since : c.catalogFrozenIndex = some place ∨ c.catalogFrozenIndex = none ∧ place = index)
      (frozen : after.catalogFrozenIndex = some place) (pools : after.pools = c.pools) (tapes : after.tapes = c.tapes)
      (tasks : after.management = c.management) :
      Reform index c after (.catalogFreeze quiesceIndex, ControlState.reply "frozen_index" (.number place))
  | create {uuid name : String} {fileLimit : UInt64} (fresh : c.pools.get uuid = none)
      (unnamed : ∀ other row, c.pools.get other = some row → row.name ≠ name)
      (frozen : after.catalogFrozenIndex = c.catalogFrozenIndex)
      (pools : after.pools = c.pools.insert uuid { name, fileLimit }) (tapes : after.tapes = c.tapes)
      (tasks : after.management = c.management) :
      Reform index c after (.poolCreate uuid name fileLimit, .admin (.ok (.text uuid)))
  | delete {r : Value} {uuid : String} (resource : requestText r "resource" = "pools")
      (action : requestText r "action" = "delete") (unused : ∀ barcode, c.tapes.get barcode ≠ some uuid)
      (frozen : after.catalogFrozenIndex = c.catalogFrozenIndex) (pools : after.pools = c.pools.erase uuid)
      (tapes : after.tapes = c.tapes) (tasks : Keeps c.management after.management) :
      Reform index c after
        (.manage r, .admin (.ok (.json (.ofFields [("uuid", .string uuid), ("deleted", .bool true)]))))
  | assign {barcode pool uuid : String} {reply : Reply} (idle : activeTasks c.management = false)
      (found : c.resolvePool pool = some uuid) (free : c.tapes.get barcode = none)
      (frozen : after.catalogFrozenIndex = c.catalogFrozenIndex) (pools : after.pools = c.pools)
      (tapes : after.tapes = c.tapes.insert barcode uuid) (tasks : after.management = c.management) :
      Reform index c after (.tapeAssign barcode pool, .admin (.ok reply))
  | unassign {barcode : String} {reply : Reply} (frozen : after.catalogFrozenIndex = c.catalogFrozenIndex)
      (pools : after.pools = c.pools) (tapes : after.tapes = c.tapes.erase barcode)
      (tasks : Beside c.management after.management) :
      Reform index c after (.tapeUnassign barcode, .admin (.ok reply))
  | set {id round : UInt64} {phase : String} {result r : Value} {uuid key value : String} {pool changed : Pool}
      (asks : Asks c id r "pools" "set") (found : c.resolvePool (requestText r "target") = some uuid)
      (keyed : text (r.field "params") "attribute" = .ok key) (valued : text (r.field "params") "value" = .ok value)
      (frozen : after.catalogFrozenIndex = c.catalogFrozenIndex)
      (pools : PoolSet c.pools after.pools uuid key value pool changed) (tapes : after.tapes = c.tapes)
      (tasks : Ends c.management after.management (Text.decimal id)) :
      Reform index c after (.managementReport id round phase result,
        .management (poolChanges after (if key = "poolname" then value else requestText r "target")))
  | enrol {id round : UInt64} {phase : String} {result r : Value} (asks : Asks c id r "tapes" "assign")
      (frozen : after.catalogFrozenIndex = c.catalogFrozenIndex) (pools : after.pools = c.pools)
      (tapes : (∃ uuid, c.pools.contains uuid ∧ after.tapes = c.tapes.insert (requestText r "target") uuid) ∨
        after.tapes = c.tapes)
      (tasks : Ends c.management after.management (Text.decimal id)) :
      Reform index c after
        (.managementReport id round phase result, .management (tapeChanges after (requestText r "target")))
  | release {id round : UInt64} {phase : String} {result r : Value} (asks : Asks c id r "tapes" "unassign")
      (frozen : after.catalogFrozenIndex = c.catalogFrozenIndex) (pools : after.pools = c.pools)
      (tapes : after.tapes = c.tapes.erase (requestText r "target"))
      (tasks : Ends c.management after.management (Text.decimal id)) :
      Reform index c after (.managementReport id round phase result,
        .management (.ofFields [("unassigned", .string (requestText r "target"))]))

namespace ControlState

theorem resolvePool_some {c : ControlState} {name uuid : String} (found : c.resolvePool name = some uuid) :
    ∃ pool, c.pools.get uuid = some pool ∧ (uuid = name ∨ c.pools.get name = none ∧ pool.name = name) := by
  unfold resolvePool at found
  split at found
  · rename_i there
    cases found
    obtain ⟨pool, got⟩ := Option.isSome_iff_exists.mp there
    exact ⟨pool, got, .inl rfl⟩
  · rename_i absent
    obtain ⟨⟨uuid', pool⟩, first, rfl⟩ := Option.map_eq_some_iff.mp found
    have named := List.find?_some first
    exact ⟨pool, mem_entries.mp (List.mem_of_find?_eq_some first),
      .inr ⟨by simpa [contains] using absent, by simpa using named⟩⟩

end ControlState

namespace Management

variable {c : ControlState}

theorem updatePool_there {uuid : String} {pool : Pool} (there : c.pools.get uuid = some pool) (f : Pool → Pool) :
    updatePool c uuid f = { c with pools := c.pools.insert uuid (f pool) } := by
  unfold updatePool
  rw [there]

theorem poolSet_change {next : ControlState} {target : String} {p answer : Value}
    (done : poolSet c target p = .ok (next, answer)) : ∃ uuid key value pool changed,
      c.resolvePool target = some uuid ∧ text p "attribute" = .ok key ∧ text p "value" = .ok value ∧
      PoolSet c.pools next.pools uuid key value pool changed ∧ next.tapes = c.tapes ∧
      next.catalogFrozenIndex = c.catalogFrozenIndex ∧
      Beside c.management next.management := by
  obtain ⟨uuid, key, value, mid, found, keyed, valued, set, rfl⟩ := poolSet_ok done
  obtain ⟨pool, there, _⟩ := c.resolvePool_some found
  rcases poolAttribute_ok set with ⟨rfl, free, rfl⟩ | ⟨rfl, limit, small, rfl⟩ | ⟨unnamed, unlimited, rfl⟩
  · rw [updatePool_there there]
    refine ⟨uuid, _, value, pool, { pool with name := value }, found, keyed, valued, ?_, rfl, rfl,
      Beside.refl.set (by decide) _⟩
    refine ⟨there, fun other => get_insert .., fun _ => ⟨rfl, ?_⟩, fun other => absurd rfl other, nofun,
      fun _ => rfl⟩
    intro other row got same
    have apart := List.any_eq_false.mp free _ (mem_entries.mpr got)
    simpa [same] using apart
  · rw [updatePool_there there]
    refine ⟨uuid, _, value, pool, { pool with fileLimit := limit }, found, keyed, valued, ?_, rfl, rfl,
      Beside.refl.set (by decide) _⟩
    exact ⟨there, fun other => get_insert .., nofun, fun _ => rfl, fun _ => small, fun other => absurd rfl other⟩
  · refine ⟨uuid, key, value, pool, pool, found, keyed, valued, ?_, rfl, rfl, Beside.refl.set (by decide) _⟩
    refine ⟨there, ?_, fun named => absurd named unnamed, fun _ => rfl, fun limit => absurd limit unlimited, fun _ => rfl⟩
    intro other
    split
    · rename_i same
      rw [same]
      exact there
    · rfl

theorem finishConfig_beside {next : ControlState} {r result : Value} (finished : finishConfig c r result = .ok next) :
    Beside c.management next.management := by
  have trans : ∀ {m other last : Value}, Beside m other → Beside other last → Beside m last := by
    intro m other last one two
    induction two with
    | refl => exact one
    | set _ apart value ih => exact ih.set apart value
  rcases finishConfig_ok finished with
    ⟨m, _, beside, _, _, set⟩ | ⟨m, beside, _, _, rfl⟩ | ⟨m, beside, _, _, rfl⟩ | ⟨_, m, beside, rfl⟩
  · obtain ⟨_, _, _, _, _, _, _, _, _, _, _, kept⟩ := poolSet_change set
    exact trans beside kept
  · unfold finishAssign
    dsimp only
    split
    · exact beside.set (by decide) _
    · exact beside.set (by decide) _
  · exact beside.set (by decide) _
  · exact beside

end Management

theorem Reform.congr {c before after later : ControlState} {index : UInt64} {effect : Command × Applied}
    (reform : Reform index before later effect) (first : before.records = c.records) (last : later.records = after.records) :
    Reform index c after effect := by
  cases c
  cases before
  cases after
  cases later
  obtain ⟨-, rfl, rfl, -, rfl, rfl, -⟩ := Records.mk.injEq .. ▸ first
  obtain ⟨-, rfl, rfl, -, rfl, rfl, -⟩ := Records.mk.injEq .. ▸ last
  cases reform with
  | quiet same thawed frozen pools tapes tasks => exact .quiet same thawed frozen pools tapes tasks
  | freeze since frozen pools tapes tasks => exact .freeze since frozen pools tapes tasks
  | create fresh unnamed frozen pools tapes tasks => exact .create fresh unnamed frozen pools tapes tasks
  | delete resource action unused frozen pools tapes tasks => exact .delete resource action unused frozen pools tapes tasks
  | assign idle found free frozen pools tapes tasks => exact .assign idle found free frozen pools tapes tasks
  | unassign frozen pools tapes tasks => exact .unassign frozen pools tapes tasks
  | set asks found keyed valued frozen pools tapes tasks => exact .set asks found keyed valued frozen pools tapes tasks
  | enrol asks frozen pools tapes tasks => exact .enrol asks frozen pools tapes tasks
  | release asks frozen pools tapes tasks => exact .release asks frozen pools tapes tasks

def Applied.mute : Applied → Bool
  | management _ | admin (.ok _) => false
  | _ => true

theorem Applied.mute_of_idle {outcome : Applied} (quiet : outcome.idle ∨ outcome.endsRound) : outcome.mute := by
  cases outcome with
  | management | admin => rcases quiet with idle | ends <;> contradiction
  | _ => rfl

theorem Directory.reorganise_mute (d : Directory) (plan : Plan) (cmd : Command) {outcome : Applied} (mute : outcome.mute) :
    d.reorganise plan cmd outcome = .ok d := by
  cases outcome with
  | management => cases mute
  | admin reply =>
    cases reply with
    | error => cases cmd <;> rfl
    | ok => cases mute
  | _ => cases cmd <;> rfl

theorem Directory.freeze_mute (d : Directory) (index : UInt64) (cmd : Command) {outcome : Applied} (mute : outcome.mute) :
    d.freeze index cmd outcome = .ok d := by
  cases outcome with
  | management => cases mute
  | admin reply =>
    cases reply with
    | error => cases cmd <;> rfl
    | ok => cases mute
  | _ => cases cmd <;> rfl

namespace ControlState

variable {c : ControlState} {index : UInt64} {tasks : SortedMap String Value}

/-- Pools and tapes stay, and no task comes to life. -/
structure Spares (c after : ControlState) : Prop where
  frozen : after.catalogFrozenIndex = c.catalogFrozenIndex
  pools : after.pools = c.pools
  tapes : after.tapes = c.tapes
  tasks : Keeps c.management after.management

theorem spares_refl (c : ControlState) : Spares c c := ⟨rfl, rfl, rfl, Beside.refl.keeps⟩

theorem mute_reform {after : ControlState} {cmd : Command} {outcome : Applied} (mute : outcome.mute)
    (spares : Spares c after) : Reform index c after (cmd, outcome) :=
  .quiet (fun d plan => d.reorganise_mute plan cmd mute) (fun d => d.freeze_mute index cmd mute) spares.frozen spares.pools
    spares.tapes (.inl spares.tasks)

theorem managementReport_reform (filed : Filed c.management tasks) (id round : UInt64) (phase : String) (result : Value) :
    Reform index c (c.managementReport id round phase result).1
      (.managementReport id round phase result, (c.managementReport id round phase result).2) := by
  unfold managementReport
  rcases report_cases c id round phase result with
    dropped | ⟨_, task, _, _, _, there, ⟨m, fields, beside, amends, changed⟩ | ⟨next, _, runs, _, finished, changed⟩⟩
  · rw [dropped]
    exact mute_reform rfl (spares_refl c)
  · rw [changed]
    exact mute_reform rfl ⟨rfl, rfl, rfl, amend_keeps there amends.active beside amends.request⟩
  · have working := active_of_running runs
    rw [changed]
    have beside := finishConfig_beside finished
    have ends := succeed_ends result beside there working
    have request := succeed_request result beside filed there working
    have asks : ∃ filed, (c.management.field "tasks").get (Text.decimal id) = some filed ∧ active filed ∧
        filed.field "request" = task.field "request" := ⟨task, there, working, rfl⟩
    generalize task.field "request" = r at asks finished request
    have pools : (succeed next (Text.decimal id) result).pools = next.pools := rfl
    have tapes : (succeed next (Text.decimal id) result).tapes = next.tapes := rfl
    have frozen : (succeed next (Text.decimal id) result).catalogFrozenIndex = next.catalogFrozenIndex := rfl
    generalize succeed next (Text.decimal id) result = after at ends request pools tapes frozen
    dsimp only
    rw [if_pos rfl]
    rcases finishConfig_ok finished with
      ⟨m, _, _, resource, action, set⟩ | ⟨m, _, resource, action, rfl⟩ | ⟨m, _, resource, action, rfl⟩ | ⟨other, m, _, rfl⟩
    · obtain ⟨uuid, key, value, pool, changed, found, keyed, valued, set, kept, thawed, _⟩ := poolSet_change set
      rw [directoryChanges_set request resource action, Value.isText, text_ok keyed, text_ok valued]
      simp only [Option.some.injEq, decide_eq_true_eq, Option.getD_some]
      exact .set ⟨asks, resource, action⟩ found keyed valued (frozen.trans thawed) (pools ▸ set) (tapes.trans kept) ends
    · rw [directoryChanges_assign request resource action]
      unfold finishAssign at pools tapes frozen
      dsimp only at pools tapes frozen
      split at tapes
      · rename_i uuid found
        rw [found] at pools frozen
        obtain ⟨pool, there, _⟩ := resolvePool_some found
        have known : c.pools.contains uuid := Option.isSome_iff_exists.mpr ⟨pool, there⟩
        exact .enrol ⟨asks, resource, action⟩ frozen pools (.inl ⟨uuid, known, tapes⟩) ends
      · rename_i lost
        rw [lost] at pools frozen
        exact .enrol ⟨asks, resource, action⟩ frozen pools (.inr tapes) ends
    · rw [directoryChanges_unassign request resource action]
      exact .release ⟨asks, resource, action⟩ frozen pools tapes ends
    · rw [directoryChanges_other request other]
      refine .quiet (fun d plan => rfl) (fun d => rfl) frozen pools tapes (.inl ?_)
      intro tasks filed
      obtain ⟨tasks', filed', carries, _⟩ := ends tasks filed
      exact ⟨tasks', filed', carries⟩

theorem manage_reform (c : ControlState) (r : Value) :
    Reform index c (Management.apply c index r).1 (.manage r, .admin (Management.apply c index r).2) := by
  rcases apply_cases c index r with ⟨reason, refused⟩ | ⟨next, answer, ran, granted⟩
  · rw [refused]
    exact mute_reform rfl (spares_refl c)
  rw [granted]
  rcases applyInner_ok ran with ⟨resource, action, deleted⟩ | ⟨other, m, handled, rfl⟩
  · obtain ⟨uuid, m, _, unused, beside, rfl, rfl⟩ := poolDelete_ok deleted
    refine .delete resource action ?_ rfl rfl rfl ((begun_keeps _).trans (beside.set (by decide) _).keeps)
    intro barcode there
    have used := List.any_eq_false.mp unused _ (mem_entries.mpr there)
    simp at used
  · refine .quiet ?_ (fun d => rfl) rfl rfl rfl ?_
    · intro d plan
      have apart : ((r.field "resource").isText "pools" && (r.field "action").isText "delete") = false := by
        rw [Bool.and_eq_false_iff, ← Bool.not_eq_true, ← Bool.not_eq_true, ← not_and_or]
        rintro ⟨resource, action⟩
        exact other ⟨requestText_eq (of_decide_eq_true resource), requestText_eq (of_decide_eq_true action)⟩
      have kept : d.deletePool (.manage r) (.admin (.ok (.json answer))) = .ok d := by
        simp only [Directory.deletePool, apart]
        rfl
      show (Except.ok d >>= fun d => d.deletePool (.manage r) (.admin (.ok (.json answer))) >>= fun d => Except.ok d) = _
      rw [Result.ok_bind, kept, Result.ok_bind]
    · rcases handled.keeps_or_files with keeps | files
      · refine .inl (((begun_keeps c.management).trans keeps).trans ?_)
        exact (Beside.refl.set (by decide) _).keeps
      right
      intro tasks filed
      obtain ⟨tasks', key, request, filed', idle, alone, free⟩ := files tasks (begun_filed filed)
      exact ⟨tasks', key, request, filed'.other (by decide) _, idle, alone, free⟩

theorem interrupt_spares (c : ControlState) : Spares c (interrupt c) := by
  obtain ⟨m, only⟩ := interrupt_only c
  refine ⟨?_, ?_, ?_, interrupt_keeps c⟩
  · rw [only]
  · rw [only]
  · rw [only]

theorem Effect.reform {after : Records} {effect : Command × Applied} (filed : Filed c.management tasks)
    (has : Effect index c effect after) : ∃ next : ControlState, next.records = after ∧ Reform index c next effect := by
  have kept := has.kept
  cases has with
  | same idle => exact ⟨_, rfl, mute_reform (Applied.mute_of_idle (.inl idle)) (spares_refl c)⟩
  | relieve _ ends => exact ⟨_, rfl, mute_reform (Applied.mute_of_idle (.inr ends)) (interrupt_spares c)⟩
  | manage r => exact ⟨_, rfl, manage_reform c r⟩
  | report id round phase result => exact ⟨_, rfl, managementReport_reform filed id round phase result⟩
  | create uuid name fileLimit =>
    refine ⟨_, rfl, ?_⟩
    rcases c.poolCreate_cases uuid name fileLimit with ⟨_, same⟩ | ⟨fresh, unnamed, created⟩
    · rw [same]
      exact mute_reform rfl (spares_refl c)
    rw [created]
    refine .create ?_ ?_ rfl rfl rfl rfl
    · exact Option.isNone_iff_eq_none.mp (Option.not_isSome_iff_eq_none.mp (Bool.eq_false_iff.mp fresh) ▸ rfl)
    · intro other row there named
      have apart := List.any_eq_false.mp unnamed _ (mem_entries.mpr there)
      simp [named] at apart
  | assign barcode pool =>
    refine ⟨_, rfl, ?_⟩
    rcases c.tapeAssign_cases barcode pool with ⟨_, same⟩ | ⟨uuid, reply, idle, found, free, assigned⟩
    · rw [same]
      exact mute_reform rfl (spares_refl c)
    · rw [assigned]
      exact .assign idle found free rfl rfl rfl rfl
  | unassign barcode =>
    refine ⟨_, rfl, ?_⟩
    rcases c.tapeUnassign_cases barcode with ⟨_, same⟩ | ⟨_, _, beside, _, _, unassigned⟩
    · rw [same]
      exact mute_reform rfl (spares_refl c)
    · rw [unassigned]
      exact .unassign rfl rfl rfl beside
  | quiesce =>
    refine ⟨_, rfl, ?_⟩
    unfold quiesceCatalog
    split
    · exact mute_reform rfl (spares_refl c)
    · exact .quiet (fun _ _ => rfl) (fun _ => rfl) rfl rfl rfl (.inl Beside.refl.keeps)
  | resume quiesceIndex =>
    refine ⟨_, rfl, ?_⟩
    unfold resumeCatalog
    split
    · exact mute_reform rfl (spares_refl c)
    · exact .quiet (fun _ _ => rfl) (fun _ => rfl) rfl rfl rfl (.inl Beside.refl.keeps)
  | freeze quiesceIndex =>
    refine ⟨_, rfl, ?_⟩
    unfold freezeCatalog
    split
    · exact mute_reform rfl (spares_refl c)
    split
    · rename_i place frozen
      exact .freeze (.inl frozen) frozen rfl rfl rfl
    rename_i thawed
    split
    · exact mute_reform rfl (spares_refl c)
    · exact .freeze (.inr ⟨thawed, rfl⟩) rfl rfl rfl rfl
  | observe barcode observation =>
    refine ⟨_, rfl, mute_reform rfl ?_⟩
    obtain ⟨m, beside, only⟩ := observeTape_only c barcode observation index
    rw [only]
    rcases beside with beside | beside
    · exact ⟨rfl, rfl, rfl, beside.keeps⟩
    · exact ⟨rfl, rfl, rfl, (begun_keeps _).trans beside.keeps⟩
  | acquire | release =>
    refine ⟨_, rfl, mute_reform rfl ⟨kept.frozen rfl, (kept.pools rfl).1, (kept.pools rfl).2, ?_⟩⟩
    show Keeps c.management (ControlState.records _).management
    rw [kept.management rfl]
    exact Beside.refl.keeps
  | state barcode state =>
    refine ⟨_, rfl, mute_reform rfl ?_⟩
    obtain ⟨m, states, beside, only⟩ := c.setTapeState_frame index barcode state
    rw [only]
    exact ⟨rfl, rfl, rfl, beside.keeps⟩
  | reclaim barcode =>
    refine ⟨_, rfl, ?_⟩
    rcases c.tapeReclaim_cases barcode with ⟨_, same⟩ | ⟨_, started⟩
    · rw [same]
      exact mute_reform rfl (spares_refl c)
    · rw [started]
      exact .quiet (fun _ _ => rfl) (fun _ => rfl) rfl rfl rfl (.inl Beside.refl.keeps)
  | reclaimed barcode volumeUuid =>
    obtain ⟨m, summary, states, beside, only, _⟩ := c.tapeReclaimed_frame index barcode volumeUuid
    have mute : (c.tapeReclaimed index barcode volumeUuid).2.mute := by
      unfold tapeReclaimed
      split <;> rfl
    refine ⟨_, rfl, mute_reform mute ?_⟩
    rw [only]
    exact ⟨rfl, rfl, rfl, beside.keeps⟩
  | commit barcode volumeUuid generation files bytesUsed bytesWritten =>
    obtain ⟨m, summary, beside, only, _⟩ :=
      c.tapeCommitted_frame index barcode volumeUuid generation files bytesUsed bytesWritten
    have mute : (c.tapeCommitted index barcode volumeUuid generation files bytesUsed bytesWritten).2.mute := by
      unfold tapeCommitted
      dsimp only
      split <;> rfl
    refine ⟨_, rfl, mute_reform mute ?_⟩
    rw [only]
    exact ⟨rfl, rfl, rfl, beside.keeps⟩

theorem apply_reform (filed : Filed c.management tasks) (index : UInt64) (cmd : Command) :
    Reform index c (c.apply index cmd).1 (Directory.unwrap cmd (c.apply index cmd).2) := by
  obtain ⟨sequence, has⟩ := c.apply_effect index cmd
  obtain ⟨next, recorded, reform⟩ := Effect.reform (c := c.found index sequence) filed has
  have found : (c.found index sequence).records = c.records := rfl
  exact reform.congr found recorded

end ControlState

end TapeRs.Daemon
