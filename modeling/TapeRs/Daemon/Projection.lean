import Mathlib.Data.List.Sort
import TapeRs.Daemon.Tidy

namespace TapeRs.Daemon

open Json Management SortedMap Directory Value Result
open List hiding asString contains

def Pool.row (pool : Pool) : PoolRow := { name := pool.name, fileLimit := Word.signed pool.fileLimit }

/-- The directory says of pools and tapes what the control state says. -/
structure Projects (c : ControlState) (pools : SortedMap String PoolRow) (tapes : SortedMap String TapeRow) : Prop where
  pools : ∀ uuid, pools.get uuid = (c.pools.get uuid).map Pool.row
  tapes : ∀ barcode, (tapes.get barcode).map TapeRow.poolUuid = c.tapes.get barcode

namespace Projects

variable {c after : ControlState} {pools : SortedMap String PoolRow} {tapes : SortedMap String TapeRow} {barcode : String}

theorem insertTape {uuid : String} (projects : Projects c pools tapes) (same : after.pools = c.pools)
    (assigned : after.tapes = c.tapes.insert barcode uuid) :
    Projects after pools (tapes.insert barcode { poolUuid := uuid }) := by
  refine ⟨same ▸ projects.pools, fun other => ?_⟩
  rw [assigned, get_insert, get_insert]
  split
  · rfl
  · exact projects.tapes other

theorem eraseTape (projects : Projects c pools tapes) (same : after.pools = c.pools)
    (released : after.tapes = c.tapes.erase barcode) : Projects after pools (tapes.erase barcode) := by
  refine ⟨same ▸ projects.pools, fun other => ?_⟩
  rw [released, get_erase, get_erase]
  split
  · rfl
  · exact projects.tapes other

end Projects

namespace ControlState

/-- The name of a pool in a command leads the directory to the pool that the control state means: no pool is named like
    another one's identifier. -/
def namesPools (c : ControlState) : Command → Bool
  | .executorReport _ _ _ _ command => c.namesPools command
  | .tapeAssign _ pool =>
    !c.pools.contains pool || c.pools.entries.all fun entry => entry.2.name ≠ pool || entry.1 = pool
  | .managementReport task _ _ _ =>
    let r := ((c.management.field "tasks").field (Text.decimal task)).field "request"
    let value := requestText (r.field "params") "value"
    requestText r "resource" ≠ "pools" || requestText r "action" ≠ "set" ||
      !((r.field "params").field "attribute").isText "poolname" || !c.pools.contains value ||
        c.resolvePool (requestText r "target") = some value
  | _ => true

/-- What a command puts into the directory is within the range of the database. -/
def inRange (c : ControlState) (index : UInt64) : Command → Bool
  | .executorReport _ _ _ _ command => c.inRange index command
  | .catalogFreeze _ => index ≤ maxSigned
  | .fileTask task round _ _ status generation _ =>
    task ≤ maxSigned && round ≤ maxSigned && generation.all (· ≤ maxSigned) && (TaskStatus.parse status).isSome
  | .managementReport task _ _ _ =>
    let r := ((c.management.field "tasks").field (Text.decimal task)).field "request"
    requestText r "resource" ≠ "pools" || requestText r "action" ≠ "set" ||
      ((r.field "params").field "attribute").isText "file_limit" ||
        (c.resolvePool (requestText r "target")).all fun uuid => c.poolLimit uuid ≤ maxSigned
  | _ => true

end ControlState

theorem Asks.request {c : ControlState} {id : UInt64} {r : Value} {resource action : String}
    (asks : Asks c id r resource action) :
    ((c.management.field "tasks").field (Text.decimal id)).field "request" = r := by
  obtain ⟨⟨task, filed, _, request⟩, _⟩ := asks
  have there : (c.management.field "tasks").field (Text.decimal id) = task := by
    rw [field, filed]
    rfl
  rw [there, request]

namespace Directory

variable {d : Directory} {c after : ControlState} {index : UInt64} {uuid : String}

theorem checked_of (held : ∀ barcode row, d.tapes.get barcode = some row → d.pools.contains row.poolUuid) :
    d.checked = .ok d := by
  unfold checked
  rw [if_pos]
  refine all_eq_true.mpr ?_
  rintro ⟨barcode, row⟩ member
  exact held barcode row (mem_entries.mp member)

theorem checked_projects (tidy : Tidy after) (projects : Projects after d.pools d.tapes) : d.checked = .ok d := by
  refine checked_of ?_
  intro barcode row there
  have assigned : after.tapes.get barcode = some row.poolUuid := by
    rw [← projects.tapes, there]
    rfl
  obtain ⟨pool, known⟩ := tidy.pooled barcode row.poolUuid assigned
  rw [contains, projects.pools, known]
  rfl

theorem findPool_eq (tidy : Tidy c) (projects : Projects c d.pools d.tapes) {pool : String} (plan : Plan)
    (found : c.resolvePool pool = some uuid)
    (clear : !c.pools.contains pool || c.pools.entries.all fun entry => entry.2.name ≠ pool || entry.1 = pool) :
    d.findPool plan pool = some uuid := by
  obtain ⟨row, known, way⟩ := c.resolvePool_some found
  have only : ∀ entry ∈ d.pools.entries.filter (fun entry => entry.1 = pool || entry.2.name = pool), entry.1 = uuid := by
    rintro ⟨other, otherRow⟩ member
    obtain ⟨member, hit⟩ := mem_filter.mp member
    have there := projects.pools other
    rw [mem_entries.mp member] at there
    obtain ⟨otherPool, got, rfl⟩ := Option.map_eq_some_iff.mp there.symm
    simp only [Bool.or_eq_true, decide_eq_true_eq] at hit
    rcases way with rfl | ⟨absent, named⟩
    · rcases hit with same | named
      · exact same
      · simp only [contains, known, Option.isSome_some, Bool.not_true, Bool.false_or, all_eq_true] at clear
        have unambiguous := clear _ (mem_entries.mpr got)
        simpa [show otherPool.name = uuid from named] using unambiguous
    · rcases hit with rfl | named'
      · rw [absent] at got
        cases got
      · exact tidy.names _ _ _ _ got known (Eq.trans named' named.symm)
  have present : (uuid, row.row) ∈ d.pools.entries.filter (fun entry => entry.1 = pool || entry.2.name = pool) := by
    refine mem_filter.mpr ⟨mem_entries.mpr ?_, ?_⟩
    · rw [projects.pools, known]
      rfl
    · rcases way with rfl | ⟨_, named⟩
      · simp
      · simp [Pool.row, named]
  unfold findPool
  have perm := plan.pools_perm (d.pools.entries.filter fun entry => entry.1 = pool || entry.2.name = pool)
  cases shape : plan.pools (d.pools.entries.filter fun entry => entry.1 = pool || entry.2.name = pool) with
  | nil =>
    rw [shape] at perm
    rw [perm.nil_eq.symm] at present
    cases present
  | cons first rest =>
    rw [shape] at perm
    have same := only first (perm.mem_iff.mp (mem_cons_self ..))
    simp [same]

def poolUpdate (uuid name : String) (limit : UInt64) : Value :=
  .ofFields [("uuid", .string uuid), ("name", .string name), ("file_limit", .number limit)]

theorem poolUpdate_fields (uuid name : String) (limit : UInt64) : (poolUpdate uuid name limit).field "uuid" = .string uuid ∧
    (poolUpdate uuid name limit).field "name" = .string name ∧
    (poolUpdate uuid name limit).field "file_limit" = .number limit := by
  simp [poolUpdate, field, get_ofFields, Assoc.find_cons]

theorem updatePool_projects (tidy : Tidy after) (projects : Projects c d.pools d.tapes) {key value : String}
    {pool changed : Pool} (set : PoolSet c.pools after.pools uuid key value pool changed)
    (small : changed.fileLimit ≤ maxSigned) :
    d.updatePool (poolUpdate uuid changed.name changed.fileLimit) =
      .ok { d with pools := d.pools.insert uuid changed.row } := by
  obtain ⟨identified, named, limit⟩ := poolUpdate_fields uuid changed.name changed.fileLimit
  have known : d.pools.contains uuid := by
    rw [contains, projects.pools, set.there]
    rfl
  have free : (d.pools.entries.any fun entry => entry.1 ≠ uuid && entry.2.name = changed.name) = false := by
    refine any_eq_false.mpr ?_
    rintro ⟨other, row⟩ member
    have there := projects.pools other
    rw [mem_entries.mp member] at there
    obtain ⟨otherPool, got, rfl⟩ := Option.map_eq_some_iff.mp there.symm
    simp only [Bool.and_eq_true, decide_eq_true_eq, not_and]
    intro apart same
    have kept : after.pools.get other = some otherPool := by rw [set.get, if_neg apart, got]
    have new : after.pools.get uuid = some changed := by rw [set.get, if_pos rfl]
    exact apart (tidy.names _ _ _ _ kept new same)
  unfold updatePool
  rw [limit, named, identified]
  have bounded : (asNumber (.number changed.fileLimit)).filter (fun limit => maxSigned < limit) = none := by
    simp [asNumber, Option.filter, UInt64.not_lt.mpr small]
  rw [bounded]
  have there : (asString (.string uuid)).filter d.pools.contains = some uuid := by
    simp [asString, Option.filter, known]
  rw [there]
  simp only [asString, asNumber]
  rw [if_neg (by simpa using free)]
  rfl

theorem reorganise_report (d : Directory) (plan : Plan) (id round : UInt64) (phase : String) (result changes : Value) :
    d.reorganise plan (.managementReport id round phase result) (.management changes) =
      d.carryOut (.management changes) := by
  unfold reorganise
  cases d.carryOut (.management changes) <;> rfl

theorem carryOut_update (d : Directory) (p : Value) :
    d.carryOut (.management (.ofFields [("pool_update", p)])) = d.updatePool p := by
  simp only [carryOut, get_single, String.reduceEq, reduceIte, Option.bind_none]
  cases d.updatePool p <;> rfl

theorem carryOut_assignment (d : Directory) (a : Value) :
    d.carryOut (.management (.ofFields [("assignment", a)])) = d.insertTape a := by
  simp only [carryOut, get_single, String.reduceEq, reduceIte, Option.bind_none, ok_bind]
  cases d.insertTape a <;> rfl

theorem carryOut_unassigned (d : Directory) (barcode : String) :
    d.carryOut (.management (.ofFields [("unassigned", .string barcode)])) = .ok (d.removeTape barcode) := by
  simp only [carryOut, get_single, String.reduceEq, reduceIte, ok_bind]
  rfl

theorem updatePool_oversized (d : Directory) {name : String} {limit : UInt64} (large : maxSigned < limit) :
    ∃ error, d.updatePool (poolUpdate uuid name limit) = .error error := by
  obtain ⟨_, _, found⟩ := poolUpdate_fields uuid name limit
  have beyond : (asNumber (.number limit)).filter (fun limit => maxSigned < limit) = some limit := by
    simp [asNumber, Option.filter, large]
  unfold updatePool
  rw [found, beyond]
  exact ⟨_, rfl⟩

theorem reorganise_projects {effect : Command × Applied} (tidy : Tidy c) (projects : Projects c d.pools d.tapes)
    (reform : Reform index c after effect) (clear : c.namesPools effect.1) (plan : Plan) :
    (∃ pools tapes, d.reorganise plan effect.1 effect.2 = .ok { d with pools, tapes } ∧ Projects after pools tapes) ∨
      (c.inRange index effect.1 = false ∧ ∃ error, d.reorganise plan effect.1 effect.2 = .error error) := by
  have tidyAfter := tidy.reform reform
  cases reform with
  | quiet same _ _ pools tapes _ =>
    exact .inl ⟨d.pools, d.tapes, same d plan, pools ▸ projects.pools, tapes ▸ projects.tapes⟩
  | freeze _ _ pools tapes _ => exact .inl ⟨d.pools, d.tapes, rfl, pools ▸ projects.pools, tapes ▸ projects.tapes⟩
  | @create uuid name fileLimit fresh unnamed _ pools tapes _ =>
    have rows : Projects after ((d.pools.filter fun _ row => row.name ≠ name).insert uuid
        { name, fileLimit := Word.signed fileLimit }) d.tapes := by
      refine ⟨?_, tapes ▸ projects.tapes⟩
      intro other
      rw [pools, get_insert, get_insert]
      split
      · rfl
      rw [get_filter, projects.pools]
      cases got : c.pools.get other with
      | none => rfl
      | some pool => simp [Option.filter, Pool.row, unnamed other pool got]
    exact .inl ⟨_, _, checked_projects (d := { d with pools := _ }) tidyAfter rows, rows⟩
  | @delete r uuid resource action unused _ pools tapes _ =>
    have rows : Projects after (d.pools.erase uuid) d.tapes := by
      refine ⟨?_, tapes ▸ projects.tapes⟩
      intro other
      rw [pools, get_erase, get_erase, projects.pools]
      split <;> rfl
    refine .inl ⟨_, _, ?_, rows⟩
    have done : d.deletePool (.manage r) (.admin (.ok (.json (.ofFields [("uuid", .string uuid), ("deleted", .bool true)])))) =
        .ok { d with pools := d.pools.erase uuid } := by
      have which : ((r.field "resource").isText "pools" && (r.field "action").isText "delete") = true := by
        simp [isText, requestText_some resource, requestText_some action]
      have answer : ((ofFields [("uuid", .string uuid), ("deleted", .bool true)]).field "uuid").asString = some uuid := by
        simp [field, get_ofFields, Assoc.find_cons, asString]
      simp only [deletePool, which, if_true, answer]
      exact checked_projects (d := { d with pools := _ }) tidyAfter rows
    show (Except.ok d >>= fun d => d.deletePool (.manage r) _ >>= fun d => Except.ok d) = _
    rw [ok_bind, done, ok_bind]
  | @assign barcode pool uuid reply idle found free _ pools tapes _ =>
    have rows := projects.insertTape pools tapes
    refine .inl ⟨_, _, ?_, rows⟩
    show d.assignTape plan barcode pool = _
    rw [assignTape, findPool_eq tidy projects plan found clear]
    exact checked_projects (d := { d with tapes := _ }) tidyAfter rows
  | @unassign barcode reply _ pools tapes _ =>
    exact .inl ⟨d.pools, d.tapes.erase barcode, rfl, projects.eraseTape pools tapes⟩
  | @set id round phase result r uuid key value pool changed asks found keyed valued _ pools tapes _ =>
    have asked := asks.request
    obtain ⟨_, resource, action⟩ := asks
    have poolname : ((r.field "params").field "attribute").isText "poolname" = decide (key = "poolname") := by
      simp [isText, text_ok keyed]
    simp only [ControlState.namesPools, asked, resource, action, found, poolname, requestText_eq (text_ok valued)] at clear
    simp only [ne_eq, not_true_eq_false, decide_false, Bool.false_or, Bool.or_eq_true, Bool.not_eq_true',
      decide_eq_true_eq, decide_eq_false_iff_not, Option.some.injEq] at clear
    have new : after.pools.get uuid = some changed := by rw [pools.get, if_pos rfl]
    have absent : ∀ {name}, c.pools.get name = none → after.pools.get name = none := by
      intro name none'
      rw [pools.get, if_neg]
      · exact none'
      · rintro rfl
        rw [pools.there] at none'
        cases none'
    have resolved : after.resolvePool (if key = "poolname" then value else requestText r "target") = some uuid := by
      refine tidyAfter.resolvePool_eq new ?_
      by_cases named : key = "poolname"
      · rw [if_pos named]
        rcases clear with (other | unknown) | same
        · exact absurd named other
        · refine .inr ⟨absent (by simpa [contains] using unknown), ?_⟩
          rw [(pools.renamed named).1]
        · exact .inl same
      · rw [if_neg named, pools.kept named]
        obtain ⟨row, known, way⟩ := c.resolvePool_some found
        rw [pools.there] at known
        cases known
        rcases way with same | ⟨none', same⟩
        · exact .inl same
        · exact .inr ⟨absent none', same⟩
    have told : poolChanges after (if key = "poolname" then value else requestText r "target") =
        .ofFields [("pool_update", poolUpdate uuid changed.name changed.fileLimit)] := by
      unfold poolChanges
      rw [resolved]
      simp [ControlState.poolName, ControlState.poolLimit, new, poolUpdate]
    rw [reorganise_report, told, carryOut_update]
    by_cases small : changed.fileLimit ≤ maxSigned
    · refine .inl ⟨d.pools.insert uuid changed.row, d.tapes, updatePool_projects tidyAfter projects pools small, ?_, ?_⟩
      · intro other
        rw [pools.get, get_insert, projects.pools]
        split <;> rfl
      · exact tapes ▸ projects.tapes
    · refine .inr ⟨?_, updatePool_oversized d (UInt64.not_le.mp small)⟩
      have other : key ≠ "file_limit" := fun limit => small (pools.limited limit)
      have attribute' : ((r.field "params").field "attribute").isText "file_limit" = false := by
        simp [isText, text_ok keyed, other]
      rw [pools.unlimited other] at small
      simp [ControlState.inRange, asked, resource, action, found, attribute', ControlState.poolLimit, pools.there, small]
  | @enrol id round phase result r asks _ pools tapes _ =>
    have free := tidy.free asks
    have unheld : d.tapes.contains (requestText r "target") = false := by
      have none' := projects.tapes (requestText r "target")
      rw [free, Option.map_eq_none_iff] at none'
      rw [contains, none']
      rfl
    rcases tapes with ⟨uuid, _, tapes⟩ | tapes
    · have rows := projects.insertTape pools tapes
      have told : tapeChanges after (requestText r "target") = .ofFields [("assignment",
          .ofFields [("barcode", .string (requestText r "target")), ("pool_uuid", .string uuid)])] := by
        unfold tapeChanges
        rw [tapes, get_insert, if_pos rfl]
      refine .inl ⟨_, _, ?_, rows⟩
      rw [reorganise_report, told, carryOut_assignment]
      have barcode : ((ofFields [("barcode", .string (requestText r "target")),
          ("pool_uuid", .string uuid)]).field "barcode").asString = some (requestText r "target") := by
        simp [field, get_ofFields, Assoc.find_cons, asString]
      have pool : ((ofFields [("barcode", .string (requestText r "target")),
          ("pool_uuid", .string uuid)]).field "pool_uuid").asString = some uuid := by
        simp [field, get_ofFields, Assoc.find_cons, asString]
      rw [insertTape, barcode, pool]
      simp only [unheld]
      exact checked_projects (d := { d with tapes := _ }) tidyAfter rows
    · have told : tapeChanges after (requestText r "target") = .object [] := by
        unfold tapeChanges
        rw [tapes, free]
      refine .inl ⟨d.pools, d.tapes, ?_, pools ▸ projects.pools, tapes ▸ projects.tapes⟩
      rw [told]
      rfl
  | @release id round phase result r asks _ pools tapes _ =>
    refine .inl ⟨d.pools, d.tapes.erase (requestText r "target"), ?_, projects.eraseTape pools tapes⟩
    rw [reorganise_report, carryOut_unassigned]
    rfl

/-- The mark of a frozen catalog is that of the control state. -/
structure Frozen (c : ControlState) (place : Option Int) (applied : UInt64) : Prop where
  same : place = c.catalogFrozenIndex.map Word.signed
  bounds : ∀ index, c.catalogFrozenIndex = some index → 0 < index ∧ index ≤ maxSigned ∧ index ≤ applied

theorem Frozen.later {place : Option Int} {applied : UInt64} (frozen : Frozen c place applied) (later : applied < index)
    (same : after.catalogFrozenIndex = c.catalogFrozenIndex) : Frozen after place index := by
  constructor
  · rw [same]
    exact frozen.same
  · rw [same]
    intro since there
    obtain ⟨positive, small, old⟩ := frozen.bounds since there
    exact ⟨positive, small, UInt64.le_trans old (UInt64.le_of_lt later)⟩

theorem freeze_projects {effect : Command × Applied} (frozen : Frozen c d.frozenIndex d.applied)
    (later : d.applied < index) (reform : Reform index c after effect) (fits : c.inRange index effect.1) :
    ∃ place, d.freeze index effect.1 effect.2 = .ok { d with frozenIndex := place } ∧ Frozen after place index := by
  cases reform with
  | quiet _ thawed same _ _ _ => exact ⟨d.frozenIndex, thawed d, frozen.later later same⟩
  | create _ _ same _ _ _ => exact ⟨d.frozenIndex, rfl, frozen.later later same⟩
  | delete _ _ _ same _ _ _ | assign _ _ _ same _ _ _ => exact ⟨d.frozenIndex, rfl, frozen.later later same⟩
  | unassign same _ _ _ => exact ⟨d.frozenIndex, rfl, frozen.later later same⟩
  | set _ _ _ _ same _ _ _ => exact ⟨d.frozenIndex, rfl, frozen.later later same⟩
  | enrol _ same _ _ _ | release _ same _ _ _ => exact ⟨d.frozenIndex, rfl, frozen.later later same⟩
  | @freeze quiesceIndex place since marked _ _ _ =>
    have answer : ((ofFields [("frozen_index", .number place)]).field "frozen_index").asNumber = some place := by
      simp [field, get_ofFields, Assoc.find_cons, asNumber]
    simp only [ControlState.reply, freeze, answer]
    rcases since with old | ⟨none', rfl⟩
    · obtain ⟨positive, small, early⟩ := frozen.bounds place old
      have before : place < index := UInt64.lt_of_le_of_lt early later
      have valid : (some place).filter (fun frozen => 0 < frozen && frozen ≤ index && frozen ≤ maxSigned) = some place := by
        simp [Option.filter, positive, small, UInt64.le_of_lt before]
      have held : d.frozenIndex = some (Word.signed place) := by rw [frozen.same, old, Option.map_some]
      rw [valid]
      simp only [if_neg (UInt64.ne_of_lt before), held, if_true]
      refine ⟨some (Word.signed place), by rw [← held], ?_⟩
      have same := frozen.later later (marked.trans old.symm)
      rw [held] at same
      exact same
    · have small : place ≤ maxSigned := by simpa [ControlState.inRange] using fits
      have positive : 0 < place := UInt64.lt_of_le_of_lt UInt64.zero_le later
      have valid : (some place).filter (fun frozen => 0 < frozen && frozen ≤ place && frozen ≤ maxSigned) = some place := by
        simp [Option.filter, positive, small]
      have empty : d.frozenIndex = none := by rw [frozen.same, none', Option.map_none]
      rw [valid]
      simp only [if_true, empty, Option.none_or]
      refine ⟨some (Word.signed place), rfl, ?_, ?_⟩
      · rw [marked, Option.map_some]
      · rw [marked]
        rintro _ ⟨⟩
        exact ⟨positive, small, UInt64.le_refl _⟩

theorem record_fits {cmd : Command} (tasks : TaskTable) (fits : c.inRange index cmd) :
    ∃ after, tasks.record cmd = .ok after := by
  unfold TaskTable.record
  split
  · rename_i task round pool path status generation reason
    simp only [ControlState.inRange, Bool.and_eq_true, decide_eq_true_eq] at fits
    obtain ⟨⟨⟨task, round⟩, generations⟩, known⟩ := fits
    rw [if_neg]
    · obtain ⟨parsed, read⟩ := Option.isSome_iff_exists.mp known
      rw [read]
      cases parsed <;> exact ⟨_, rfl⟩
    · rw [not_or, not_or, UInt64.not_lt, UInt64.not_lt]
      refine ⟨task, round, ?_⟩
      cases generation with
      | none => simp
      | some g => simpa using generations
  · exact ⟨tasks, rfl⟩

theorem catalog_projects (plan : Plan) (cmd : Command) (outcome : Applied) (projects : Projects c d.pools d.tapes) :
    Projects c (d.catalog plan cmd outcome).pools (d.catalog plan cmd outcome).tapes ∧
      (d.catalog plan cmd outcome).frozenIndex = d.frozenIndex := by
  have mapped : ∀ change : String → TapeRow → TapeRow, (∀ key row, (change key row).poolUuid = row.poolUuid) →
      Projects c d.pools (d.tapes.map change) := by
    intro change kept
    refine ⟨projects.pools, ?_⟩
    intro barcode
    rw [get_map, Option.map_map, ← projects.tapes]
    exact congrArg (fun f => (d.tapes.get barcode).map f) (funext fun row => kept barcode row)
  unfold catalog
  split
  · exact ⟨projects, rfl⟩
  · unfold commitTape
    dsimp only
    split
    · refine ⟨?_, rfl⟩
      dsimp only
      apply mapped
      intro key row
      split <;> rfl
    · exact ⟨projects, rfl⟩
  · refine ⟨?_, rfl⟩
    dsimp only [reclaimTape]
    apply mapped
    intro key row
    split <;> rfl
  · exact ⟨projects, rfl⟩

theorem applyDirect_stages (plan : Plan) (cmd : Command) {outcome : Applied} (later : d.applied < index)
    (accepted : outcome ≠ .catalogRejected) : d.applyDirect plan index cmd outcome =
      (d.freeze index cmd outcome >>= fun d => (d.fileTasks.changeOwner index cmd outcome).record cmd >>= fun fileTasks =>
        { d with fileTasks }.reorganise plan cmd outcome >>= fun d =>
          .ok { d.catalog plan cmd outcome with applied := index }) := by
  unfold applyDirect
  rw [if_neg (UInt64.not_le.mpr later)]
  split
  · exact absurd rfl accepted
  · simp only [reorganise, bind_assoc]

end Directory

/-- The directory of a node is in step with its control state. -/
structure Node.InStep (n : Node) : Prop where
  tidy : Tidy n.ctl
  rows : Projects n.ctl n.directory.pools n.directory.tapes

namespace Node

variable {plan : UInt64 → Plan} {n : Node} {entry : Entry}

theorem InStep.reform (inStep : n.InStep) (entry : Entry) :
    Reform entry.1 n.ctl (n.ctl.apply entry.1 entry.2).1
      (unwrap entry.2 (n.ctl.apply entry.1 entry.2).2) := by
  obtain ⟨tasks, filed, _⟩ := inStep.tidy.tasks
  exact ControlState.apply_reform filed entry.1 entry.2

theorem InStep.step {next : Node} (inStep : n.InStep) (later : n.directory.applied < entry.1) (clear : n.ctl.namesPools entry.2)
    (done : n.apply plan entry = .ok next) : next.InStep := by
  have reform := inStep.reform entry
  have clear := unwrap_holds (fun _ _ _ _ _ => rfl) entry.2 (n.ctl.apply entry.1 entry.2).2 clear
  obtain ⟨ctl, written⟩ := apply_ok done
  rw [← ctl] at reform
  rw [apply_unwrap] at written
  generalize unwrap entry.2 _ = effect at reform clear written
  refine ⟨inStep.tidy.reform reform, ?_⟩
  rcases applyDirect_ok later written with ⟨rejected, same⟩ | ⟨place, fileTasks, last, _, _, reorganised, same⟩
  · rcases reorganise_projects inStep.tidy inStep.rows reform clear (plan entry.1) with
      ⟨pools, tapes, kept, rows⟩ | ⟨_, error, stopped⟩
    · rw [rejected, reorganise_mute _ _ _ rfl] at kept
      have unchanged := Except.ok.inj kept
      rw [show pools = n.directory.pools by rw [unchanged], show tapes = n.directory.tapes by rw [unchanged]] at rows
      rw [same]
      exact rows
    · rw [rejected, reorganise_mute _ _ _ rfl] at stopped
      cases stopped
  · rcases reorganise_projects (d := { n.directory with frozenIndex := place, fileTasks }) inStep.tidy inStep.rows
      reform clear (plan entry.1) with ⟨pools, tapes, moved, rows⟩ | ⟨_, error, stopped⟩
    · rw [moved] at reorganised
      cases reorganised
      rw [same]
      exact (catalog_projects (d := { n.directory with frozenIndex := place, fileTasks, pools, tapes }) _ _ _ rows).1
    · rw [stopped] at reorganised
      cases reorganised

theorem InStep.takes (inStep : n.InStep)
    (frozen : Directory.Frozen n.ctl n.directory.frozenIndex n.directory.applied) (later : n.directory.applied < entry.1)
    (clear : n.ctl.namesPools entry.2) (fits : n.ctl.inRange entry.1 entry.2) :
    ∃ next, n.apply plan entry = .ok next ∧
      Directory.Frozen next.ctl next.directory.frozenIndex next.directory.applied := by
  have reform := inStep.reform entry
  have clear := unwrap_holds (fun _ _ _ _ _ => rfl) entry.2 (n.ctl.apply entry.1 entry.2).2 clear
  have fits := unwrap_holds (fun _ _ _ _ _ => rfl) entry.2 (n.ctl.apply entry.1 entry.2).2 fits
  generalize ran : n.ctl.apply entry.1 entry.2 = result at reform fits clear
  obtain ⟨ctl, outcome⟩ := result
  dsimp only at reform fits clear
  suffices ∃ d, n.directory.apply (plan entry.1) entry.1 entry.2 outcome = .ok d ∧
      Directory.Frozen ctl d.frozenIndex d.applied by
    obtain ⟨d, written, frozen⟩ := this
    refine ⟨{ ctl, directory := d }, ?_, frozen⟩
    simp only [apply, ran, written]
    rfl
  rw [apply_unwrap]
  generalize unwrap entry.2 outcome = effect at reform fits clear
  obtain ⟨place, marked, frozen⟩ := freeze_projects frozen later reform fits
  by_cases rejected : effect.2 = .catalogRejected
  · rw [rejected, freeze_mute _ _ _ rfl] at marked
    refine ⟨{ n.directory with applied := entry.1 }, ?_, ?_⟩
    · unfold applyDirect
      rw [if_neg (UInt64.not_le.mpr later), rejected]
    · have same := Except.ok.inj marked
      rw [show place = n.directory.frozenIndex by rw [same]] at frozen
      exact frozen
  · obtain ⟨fileTasks, recorded⟩ :=
      record_fits (n.directory.fileTasks.changeOwner entry.1 effect.1 effect.2) fits
    rcases reorganise_projects (d := { n.directory with frozenIndex := place, fileTasks }) inStep.tidy inStep.rows
      reform clear (plan entry.1) with ⟨pools, tapes, moved, rows⟩ | ⟨beyond, _⟩
    · rw [applyDirect_stages _ _ later rejected, marked, ok_bind]
      dsimp only
      rw [recorded, ok_bind, moved, ok_bind]
      refine ⟨_, rfl, ?_⟩
      dsimp only
      rw [(catalog_projects (d := { n.directory with frozenIndex := place, fileTasks, pools, tapes }) _ _ _ rows).2]
      exact frozen
    · rw [fits] at beyond
      cases beyond

end Node

def Meets (condition : ControlState → Entry → Bool) : ControlState → List Entry → Bool
  | _, [] => true
  | c, entry :: rest => condition c entry && Meets condition (c.apply entry.1 entry.2).1 rest

theorem meets_append {condition : ControlState → Entry → Bool} (c : ControlState) (log more : List Entry) :
    Meets condition c (log ++ more) = (Meets condition c log &&
      Meets condition (log.foldl (fun c entry => (c.apply entry.1 entry.2).1) c) more) := by
  induction log generalizing c with
  | nil => simp [Meets]
  | cons entry rest ih => simp [Meets, ih, Bool.and_assoc]

theorem Projects.matchesControl {c : ControlState} {d : Directory} (projects : Projects c d.pools d.tapes) :
    d.matchesControl c = true := by
  have keys : d.pools.entries.map Prod.fst = c.pools.entries.map Prod.fst := by
    refine d.pools.sorted.eq_of_mem_iff c.pools.sorted ?_
    intro uuid
    simp only [mem_map, Prod.exists, exists_and_right, exists_eq_right, mem_entries, projects.pools,
      Option.map_eq_some_iff]
    constructor
    · rintro ⟨_, pool, there, _⟩
      exact ⟨pool, there⟩
    · rintro ⟨pool, there⟩
      exact ⟨_, pool, there, rfl⟩
  have tapes : ∀ uuid, (c.tapes.entries.filter fun entry => entry.2 = uuid).map Prod.fst =
      (d.tapes.entries.filter fun entry => entry.2.poolUuid = uuid).map Prod.fst := by
    intro uuid
    refine (c.tapes.sorted.sublist (filter_sublist.map _)).eq_of_mem_iff
      (d.tapes.sorted.sublist (filter_sublist.map _)) ?_
    intro barcode
    simp only [mem_map, mem_filter, Prod.exists, decide_eq_true_eq, exists_and_right, exists_eq_right,
      mem_entries, ← projects.tapes, Option.map_eq_some_iff]
  unfold Directory.matchesControl
  rw [Bool.and_eq_true]
  constructor
  · have lengths := congrArg length keys
    simpa using lengths
  · refine all_eq_true.mpr ?_
    rintro ⟨uuid, row⟩ member
    have there := projects.pools uuid
    rw [mem_entries.mp member] at there
    obtain ⟨pool, got, rfl⟩ := Option.map_eq_some_iff.mp there.symm
    simp [got, Pool.row, Word.unsigned_signed, tapes uuid]

namespace Node

variable {plan : UInt64 → Plan}

theorem replay_inStep {log : List Entry} {n : Node} (ascending : Ascending 0 log)
    (clear : Meets (fun c entry => c.namesPools entry.2) {} log) (ran : replay plan log = .ok n) : n.InStep := by
  induction log using reverseRecOn generalizing n with
  | nil =>
    cases ran
    exact ⟨Tidy.start, fun _ => rfl, fun _ => rfl⟩
  | append_singleton log entry ih =>
    obtain ⟨before, later, _⟩ := ascending_append.mp ascending
    rw [meets_append, Bool.and_eq_true] at clear
    rw [replay_snoc] at ran
    obtain ⟨prior, ranBefore, done⟩ := bind_ok.mp ran
    obtain ⟨ctl, applied⟩ := replay_ok before ranBefore
    have entryClear : prior.ctl.namesPools entry.2 := by
      rw [ctl]
      simpa [Meets, Daemon.replay] using clear.2
    exact (ih before clear.1 ranBefore).step (applied ▸ later) entryClear done

theorem replay_takes {log : List Entry} (ascending : Ascending 0 log)
    (clear : Meets (fun c entry => c.namesPools entry.2) {} log)
    (fits : Meets (fun c entry => c.inRange entry.1 entry.2) {} log) :
    ∃ n, replay plan log = .ok n ∧ Directory.Frozen n.ctl n.directory.frozenIndex n.directory.applied := by
  induction log using reverseRecOn with
  | nil => exact ⟨{}, rfl, rfl, nofun⟩
  | append_singleton log entry ih =>
    obtain ⟨before, later, _⟩ := ascending_append.mp ascending
    rw [meets_append, Bool.and_eq_true] at clear fits
    obtain ⟨n, ran, frozen⟩ := ih before clear.1 fits.1
    obtain ⟨ctl, applied⟩ := replay_ok before ran
    have entryClear : n.ctl.namesPools entry.2 := by
      rw [ctl]
      simpa [Meets, Daemon.replay] using clear.2
    have entryFits : n.ctl.inRange entry.1 entry.2 := by
      rw [ctl]
      simpa [Meets, Daemon.replay] using fits.2
    obtain ⟨next, done, frozen⟩ :=
      (replay_inStep before clear.1 ran).takes frozen (applied ▸ later) entryClear entryFits
    refine ⟨next, ?_, frozen⟩
    rw [replay_snoc, ran, ok_bind, done]

/-- As long as names are clear and numbers within the range of the database, each entry of a log goes into the directory,
    and the directory holds the pools and tapes of the control state. -/
theorem directory_matches_control {log : List Entry} (ascending : Ascending 0 log)
    (clear : Meets (fun c entry => c.namesPools entry.2) {} log)
    (fits : Meets (fun c entry => c.inRange entry.1 entry.2) {} log) :
    ∀ seen rest, log = seen ++ rest →
      ∃ n, replay plan seen = .ok n ∧ n.ctl = Daemon.replay seen ∧ n.directory.matchesControl n.ctl = true := by
  rintro seen rest rfl
  have before := (ascending_append.mp ascending).1
  rw [meets_append, Bool.and_eq_true] at clear fits
  obtain ⟨n, ran, _⟩ := replay_takes before clear.1 fits.1
  exact ⟨n, ran, (replay_ok before ran).1, (replay_inStep before clear.1 ran).rows.matchesControl⟩

/-- Node 1 owns the devices in round 2; a pool is created and then renamed by a task. -/
def renamesPool (fileLimit : UInt64) : List Entry :=
  [(1, .candidate 1 1 1 "lib" 1 true), (2, .assignExecutor 1 1 1 none "lib"),
   (3, .executorReport 1 1 2 1 (.fenced 1 2)), (4, .executorReport 1 1 2 2 (.executorReady 1 2)),
   (5, .poolCreate "u1" "a" fileLimit), (6, .tapeAssign "T1" "a"),
   (7, .manage (.ofFields [("resource", .string "pools"), ("action", .string "set"), ("target", .string "a"),
     ("params", .ofFields [("attribute", .string "poolname"), ("value", .string "b")])])),
   (8, .executorReport 1 1 2 3 (.managementReport 7 2 "running" .null))]

def reportsRenamed : Entry := (9, .executorReport 1 1 2 4 (.managementReport 7 2 "success" .null))

theorem directory_matches_control_renamed : ∃ n, replay (fun _ => .inOrder) (renamesPool 10 ++ [reportsRenamed]) = .ok n ∧
    n.ctl = Daemon.replay (renamesPool 10 ++ [reportsRenamed]) ∧ n.directory.matchesControl n.ctl = true := by
  have clear : Meets (fun c entry => c.namesPools entry.2) {} (renamesPool 10 ++ [reportsRenamed]) := by decide +kernel
  have fits : Meets (fun c entry => c.inRange entry.1 entry.2) {} (renamesPool 10 ++ [reportsRenamed]) := by decide +kernel
  exact directory_matches_control (by decide) clear fits _ [] (append_nil _).symm

/-- A limit that the control state takes and the database does not: the directory fails at the report of the task. -/
theorem oversized_limit_stops_directory : ∃ n error, replay (fun _ => .inOrder) (renamesPool 0x8000000000000000) = .ok n ∧
    n.directory.matchesControl n.ctl = true ∧
    outcome (renamesPool 0x8000000000000000) reportsRenamed = .reported (.management (.ofFields [("pool_update",
      .ofFields [("uuid", .string "u1"), ("name", .string "b"), ("file_limit", .number 0x8000000000000000)])])) ∧
    n.apply (fun _ => .inOrder) reportsRenamed = .error error := by
  have runs : passes (replay (fun _ => .inOrder) (renamesPool 0x8000000000000000)) (fun n =>
      n.directory.matchesControl n.ctl &&
        !passes (n.apply (fun _ => .inOrder) reportsRenamed) fun _ => true) := by decide +kernel
  obtain ⟨n, ran, test⟩ := passes_iff.mp runs
  simp only [Bool.and_eq_true, Bool.not_eq_true'] at test
  cases last : n.apply (fun _ => .inOrder) reportsRenamed with
  | ok next =>
    rw [last] at test
    cases test.2
  | error error => exact ⟨n, error, ran, test.1, rfl, last⟩

end Node

end TapeRs.Daemon
