import TapeRs.Daemon.Estate
import TapeRs.Daemon.Snapshot

namespace TapeRs.Daemon

open Json Value
open Option
open List hiding asString

namespace Management

def parts : List String := ["pools", "tapes", "drives", "tasks"]

def groupKeys : List String := ["nodegroup", "nodegroup_name"]

def RowFits (part key : String) (row : Value) : Prop :=
  if part = "tasks" then validTask key row = true
  else row.asObject.isSome ∧ (part ≠ "tapes" → ∀ group ∈ groupKeys, row.get group = none)

theorem parts_apart : ∀ part ∈ parts, part ∉ ["nodegroups", "nodes"] := by decide

/-- What every change keeps of the management data. -/
structure Shaped (m : Value) : Prop where
  takes : m.Extends
  gone : ∀ key ∈ ["nodegroups", "nodes"], m.get key = none
  rows : ∀ part ∈ parts, Value.Rows (RowFits part) (m.field part)

theorem takes_of_isObject {row : Value} (object : row.asObject.isSome) : row.Extends := by
  cases row with
  | object fields => exact .inr ⟨fields, rfl⟩
  | _ => cases object

theorem isObject_set {row : Value} (takes : row.Extends) (key : String) (value : Value) :
    (row.set key value).asObject.isSome := by
  rcases takes with rfl | ⟨fields, rfl⟩
  · rfl
  · rfl

theorem rowFits_set {part key : String} {row : Value} (plain : part ≠ "tasks") (fits : row = .null ∨ RowFits part key row)
    {name : String} (value : Value) (apart : name ∉ groupKeys) : RowFits part key (row.set name value) := by
  unfold RowFits at fits ⊢
  rw [if_neg plain] at fits ⊢
  have takes : row.Extends := by
    rcases fits with null | fits
    · exact .inl null
    · exact takes_of_isObject fits.1
  refine ⟨isObject_set takes name value, fun other group member => ?_⟩
  have differs : group ≠ name := fun same => apart (same ▸ member)
  rw [get_set takes, if_neg differs]
  rcases fits with rfl | fits
  · rfl
  · exact fits.2 other group member

theorem shaped_empty : Shaped empty where
  takes := .inr ⟨_, rfl⟩
  gone := by
    intro key member
    rw [empty, get_ofFields]
    rcases mem_pair.mp member with rfl | rfl <;> simp [Assoc.find_cons]
  rows := by
    intro part member
    rw [empty, field, get_ofFields]
    simp only [parts, mem_cons, not_mem_nil, or_false] at member
    rcases member with rfl | rfl | rfl | rfl <;> simpa [Assoc.find_cons] using Value.Rows.nil

theorem shaped_begun {m : Value} (shaped : m = .null ∨ Shaped m) : Shaped (begun m) := by
  rcases shaped with rfl | shaped
  · exact shaped_empty
  unfold begun
  split
  · exact shaped_empty
  · exact shaped

namespace Shaped

variable {m : Value} (shaped : Shaped m)
include shaped

theorem set {key : String} {value : Value} (apart : key ∉ ["nodegroups", "nodes"])
    (fits : key ∈ parts → Value.Rows (RowFits key) value) : Shaped (m.set key value) where
  takes := extends_set shaped.takes key value
  gone := by
    intro group member
    have other : group ≠ key := fun same => apart (same ▸ member)
    rw [get_set shaped.takes, if_neg other]
    exact shaped.gone group member
  rows := by
    intro part member
    rw [field_set shaped.takes]
    split
    · rename_i same
      subst same
      exact fits member
    · exact shaped.rows part member

theorem revise (index : UInt64) : Shaped (m.set "revision" (.number index)) :=
  shaped.set (by decide) fun part => absurd part (by decide)

theorem setInventory (observation : Value) : Shaped (m.set "inventory" observation) :=
  shaped.set (by decide) fun part => absurd part (by decide)

theorem setRow {part key : String} {row : Value} (member : part ∈ parts) (fits : RowFits part key row) :
    Shaped (m.setPath [part, key] row) :=
  shaped.set (parts_apart part member) fun _ => (shaped.rows part member).set fits

theorem setField {part key name : String} {value : Value} (member : part ∈ ["pools", "tapes", "drives"])
    (apart : name ∉ groupKeys) : Shaped (m.setPath [part, key, name] value) := by
  obtain ⟨known, plain⟩ := (by decide : ∀ part ∈ ["pools", "tapes", "drives"], part ∈ parts ∧ part ≠ "tasks") part member
  refine shaped.set (parts_apart part known) fun _ => (shaped.rows part known).setPath ?_ ?_
  · exact rowFits_set plain (.inl rfl) value apart
  · exact fun row fits => rowFits_set plain (.inr fits) value apart

theorem removeRow {part : String} (member : part ∈ parts) (key : String) :
    Shaped (m.set part ((m.field part).remove key)) :=
  shaped.set (parts_apart part member) fun _ => (shaped.rows part member).remove key

end Shaped

def Orderly (m : Value) : Prop := m = .null ∨ Shaped m

variable {c next : ControlState}

theorem isObject_foldl {α : Type} {keys : List α} {change : Value → α → Value} {row : Value}
    (sets : ∀ row key, row.asObject.isSome → (change row key).asObject.isSome) (object : row.asObject.isSome) :
    (keys.foldl change row).asObject.isSome := by
  induction keys generalizing row with
  | nil => exact object
  | cons key rest ih => exact ih (sets row key object)

theorem isObject_invalidate {row : Value} (object : row.asObject.isSome) (key refreshKey reason : String) :
    ((row.set key .null).set refreshKey (invalidated reason)).asObject.isSome :=
  isObject_set (extends_set (takes_of_isObject object) ..) ..

theorem tapeFits_of_isObject {barcode : String} {row : Value} (object : row.asObject.isSome) : RowFits "tapes" barcode row := by
  rw [RowFits, if_neg (by decide)]
  exact ⟨object, fun other => absurd rfl other⟩

theorem isObject_of_tapeFits {barcode : String} {row : Value} (fits : RowFits "tapes" barcode row) : row.asObject.isSome := by
  rw [RowFits, if_neg (by decide)] at fits
  exact fits.1

theorem observePartition_isObject (c : ControlState) (observation : Value) (uuid key refreshKey errorKey : String)
    {record : Value} (object : record.asObject.isSome) :
    (observePartition c observation uuid key refreshKey errorKey record).asObject.isSome := by
  unfold observePartition
  dsimp only
  have begun : (if ((record.field key).field "volume_uuid").asString.any (fun old => old ≠ uuid) then
      (record.set key .null).set refreshKey (invalidated "卷身份已变化") else record).asObject.isSome := by
    split
    · exact isObject_invalidate object ..
    · exact object
  generalize (if ((record.field key).field "volume_uuid").asString.any (fun old => old ≠ uuid) then
      (record.set key .null).set refreshKey (invalidated "卷身份已变化") else record) = record at begun ⊢
  split
  · exact begun
  refine isObject_set ?_ ..
  split
  · exact extends_set (takes_of_isObject begun) ..
  · exact takes_of_isObject begun

def FieldFits (name : String) (value : Value) : Prop :=
  name ∉ ["id", "state", "cancel_requested", "request"] ∨ (name = "state" ∧ ∃ state ∈ taskStates, value = .string state) ∨
    (name = "cancel_requested" ∧ ∃ b, value = .bool b)

theorem takes_of_validTask {key : String} {task : Value} (valid : validTask key task) : task.Extends := by
  simp only [validTask, Bool.and_eq_true] at valid
  obtain ⟨state, _, there⟩ := any_eq_true.mp valid.1.1.1.2
  exact extends_of_isText there

theorem validTask_set {key name : String} {task value : Value} (valid : validTask key task) (fits : FieldFits name value) :
    validTask key (task.set name value) := by
  have takes := takes_of_validTask valid
  simp only [validTask, Bool.and_eq_true, field_set takes] at valid ⊢
  obtain ⟨⟨⟨⟨id, state⟩, cancel⟩, params⟩, request⟩ := valid
  rcases fits with apart | ⟨rfl, new, known, rfl⟩ | ⟨rfl, b, rfl⟩
  · simp only [mem_cons, not_mem_nil, or_false, not_or] at apart
    simp only [Ne.symm apart.1, Ne.symm apart.2.1, Ne.symm apart.2.2.1, Ne.symm apart.2.2.2, if_false]
    exact ⟨⟨⟨⟨id, state⟩, cancel⟩, params⟩, request⟩
  · refine ⟨⟨⟨⟨id, ?_⟩, cancel⟩, params⟩, request⟩
    exact any_eq_true.mpr ⟨new, known, by simp [isText, asString]⟩
  · exact ⟨⟨⟨⟨id, state⟩, rfl⟩, params⟩, request⟩

theorem validTask_foldl {key : String} {fields : List (String × Value)} {task : Value} (valid : validTask key task)
    (fits : ∀ entry ∈ fields, FieldFits entry.1 entry.2) :
    validTask key (fields.foldl (fun task entry => task.set entry.1 entry.2) task) := by
  induction fields generalizing task with
  | nil => exact valid
  | cons entry rest ih =>
    exact ih (validTask_set valid (fits entry mem_cons_self)) fun other member => fits other (mem_cons_of_mem _ member)

theorem fits_state {state : String} (known : state ∈ taskStates) : FieldFits "state" (.string state) :=
  .inr (.inl ⟨rfl, state, known, rfl⟩)

theorem fits_other {name : String} {value : Value} (apart : name ∉ ["id", "state", "cancel_requested", "request"]) :
    FieldFits name value := .inl apart

theorem cancelTask_valid {key : String} {task : Value} (valid : validTask key task) : validTask key (cancelTask task) := by
  have stopped : validTask key
      (if (task.field "state").isText "queued" then task.set "state" (.string "cancelled") else task) := by
    split
    · exact validTask_set valid (fits_state (by decide))
    · exact valid
  unfold cancelTask
  generalize (if (task.field "state").isText "queued" then task.set "state" (.string "cancelled") else task) = task at stopped ⊢
  dsimp only
  split
  · exact validTask_set stopped (.inr (.inr ⟨rfl, true, rfl⟩))
  · exact stopped

theorem interruptTask_valid {key : String} {task : Value} (valid : validTask key task) : validTask key (interruptTask task) := by
  unfold interruptTask
  split
  · exact validTask_set (validTask_set valid (fits_state (by decide))) (fits_other (by decide))
  · exact valid

section Edits

variable (orderly : Orderly c.management)
include orderly

theorem updateRecord_orderly (barcode : String) (index : UInt64) {f : Value → Option Value}
    (keeps : ∀ row changed, f row = some changed → row.asObject.isSome → changed.asObject.isSome) :
    Orderly (updateRecord c barcode index f).management := by
  unfold updateRecord
  split
  · exact orderly
  rename_i record there
  split
  · exact orderly
  rename_i changed made
  rcases orderly with null | shaped
  · rw [null] at there
    cases there
  obtain ⟨tapes, has, found⟩ := bind_eq_some_iff.mp there
  have rows := shaped.rows "tapes" (by decide)
  rw [field, has, getD_some] at rows
  have object := isObject_of_tapeFits (rows.get found)
  exact .inr ((shaped.setRow (by decide) (tapeFits_of_isObject (keeps record changed made object))).revise index)

theorem invalidateCapacity_orderly (barcode reason : String) (index : UInt64) :
    Orderly (invalidateCapacity c barcode reason index).management := by
  refine updateRecord_orderly orderly barcode index fun row changed made object => ?_
  cases made
  exact isObject_foldl (fun row keys object => isObject_invalidate object ..) object

theorem invalidateOtherVolume_orderly (barcode uuid : String) (index : UInt64) :
    Orderly (invalidateOtherVolume c barcode uuid index).management := by
  refine updateRecord_orderly orderly barcode index fun row changed made object => ?_
  dsimp only at made
  split at made
  · cases made
  · cases made
    exact isObject_foldl (fun row keys object => isObject_invalidate object ..) object

theorem observeTape_orderly (barcode : String) (observation : Value) (index : UInt64) :
    Orderly (observeTape c barcode observation index).management := by
  unfold observeTape
  split
  · exact orderly
  split
  · exact invalidateCapacity_orderly orderly ..
  split
  · exact orderly
  split
  · exact orderly
  rename_i uuid _ _
  have shaped : Shaped (if c.management.isNull then empty else c.management) := shaped_begun orderly
  generalize (if c.management.isNull then empty else c.management) = m at shaped ⊢
  dsimp only
  have known : ∀ record, (m.field "tapes").get barcode = some record → record.asObject.isSome :=
    fun record there => isObject_of_tapeFits ((shaped.rows "tapes" (by decide)).get there)
  generalize (m.field "tapes").get barcode = previous at known ⊢
  have object : (previous.getD (.object [])).asObject.isSome := by
    cases previous with
    | none => rfl
    | some record => exact known record rfl
  have recorded := shaped.setRow (by decide) (@tapeFits_of_isObject barcode _
    (observePartition_isObject c observation uuid "index_capacity" "index_capacity_refresh" "index_error"
      (observePartition_isObject c observation uuid "capacity" "capacity_refresh" "error" object)))
  split
  · split
    · exact .inr (recorded.setRow (by decide) (tapeFits_of_isObject (known _ rfl)))
    · exact .inr (recorded.removeRow (by decide) barcode)
  · exact .inr (recorded.revise index)

theorem interrupt_orderly : Orderly (interrupt c).management := by
  unfold interrupt
  split
  · exact orderly
  rename_i tasks there
  split
  · rcases orderly with null | shaped
    · rw [null] at there
      cases there
    obtain ⟨found, has, object⟩ := bind_eq_some_iff.mp there
    obtain ⟨entries, same, valid⟩ := shaped.rows "tasks" (by decide)
    rw [field, has, getD_some] at same
    subst same
    cases object
    refine .inr ((shaped.set (by decide) fun _ => ⟨_, rfl, fun entry member => ?_⟩).revise _)
    obtain ⟨old, oldMember, rfl⟩ := mem_map.mp member
    exact interruptTask_valid (valid old oldMember)
  · exact orderly

end Edits

theorem amend_shaped (shaped : Shaped c.management) {key : String} {task : Value}
    (there : (c.management.field "tasks").get key = some task) {fields : List (String × Value)}
    (fits : ∀ entry ∈ fields, FieldFits entry.1 entry.2) : Shaped (amend c key fields).management := by
  have valid : validTask key task := (shaped.rows "tasks" (by decide)).get there
  have here : (c.management.field "tasks").field key = task := by rw [field, there, getD_some]
  unfold amend
  dsimp only
  rw [here]
  have changed : RowFits "tasks" key (fields.foldl (fun task entry => task.set entry.1 entry.2) task) :=
    validTask_foldl valid fits
  exact (shaped.setRow (by decide) changed).revise _

theorem recordResult_shaped (shaped : Shaped c.management) (resource target : String) (result : Value) :
    Shaped (recordResult c resource target result).management := by
  unfold recordResult
  dsimp only
  have placed : ∀ m, Shaped m → Shaped (if resource = "tapes" ∧ (result.get "home_address").isSome then
      m.setPath ["tapes", target, "home_address"] (result.field "home_address") else m) := by
    intro m shaped
    split
    · exact shaped.setField (by decide) (by decide)
    · exact shaped
  refine placed _ ?_
  split
  · exact shaped.setInventory _
  · exact shaped

theorem poolAttribute_known {uuid key value : String} (changed : poolAttribute c uuid key value = .ok next) :
    key ∉ groupKeys := by
  intro member
  rcases mem_pair.mp member with rfl | rfl
  · cases changed
  · cases changed

theorem poolAttribute_management {uuid key value : String} (changed : poolAttribute c uuid key value = .ok next) :
    next.management = c.management := by
  have updated : ∀ f, (updatePool c uuid f).management = c.management := by
    intro f
    unfold updatePool
    split <;> rfl
  rcases poolAttribute_ok changed with ⟨_, _, rfl⟩ | ⟨_, _, _, rfl⟩ | ⟨_, _, rfl⟩
  · exact updated _
  · exact updated _
  · rfl

theorem poolSet_shaped (shaped : Shaped c.management) {target : String} {p answer : Value}
    (changed : poolSet c target p = .ok (next, answer)) : Shaped next.management := by
  obtain ⟨uuid, key, value, mid, _, _, _, set, rfl⟩ := poolSet_ok changed
  have same := poolAttribute_management set
  show Shaped (mid.management.setPath ["pools", uuid, key] (.string value))
  rw [same]
  exact shaped.setField (by decide) (poolAttribute_known set)

theorem finishConfig_shaped (shaped : Shaped c.management) {r result : Value}
    (finished : finishConfig c r result = .ok next) : Shaped next.management := by
  have noted := recordResult_shaped shaped (requestText r "resource") (requestText r "target") result
  unfold finishConfig at finished
  dsimp only at finished
  generalize recordResult c (requestText r "resource") (requestText r "target") result = c at noted finished
  split at finished
  · obtain ⟨⟨next, answer⟩, changed, returned⟩ := Result.bind_ok.mp finished
    cases returned
    exact poolSet_shaped noted changed
  split at finished
  · cases finished
    unfold finishAssign
    dsimp only
    split
    · exact noted.setField (by decide) (by decide)
    · exact noted.setField (by decide) (by decide)
  · split at finished
    · cases finished
      unfold finishUnassign
      dsimp only
      have rows := (noted.rows "tapes" (by decide)).remove (requestText r "target")
      refine noted.set (by decide) fun _ => ?_
      split
      · exact rows.set (tapeFits_of_isObject rfl)
      · exact rows
    · split at finished
      · split at finished <;>
        · cases finished
          exact noted.setField (by decide) (by simp [groupKeys])
      split at finished
      · split at finished
        · cases finished
          exact noted.setField (by decide) (by decide)
        · cases finished
          exact noted.setField (by decide) (by decide)
        · cases finished
          exact noted.setField (by decide) (by decide)
        · cases finished
      · cases finished
        exact noted

theorem Beside.tasks {m after : Value} (takes : m.Extends) (beside : Beside m after) :
    after.field "tasks" = m.field "tasks" := by
  have kept : after.Extends ∧ after.field "tasks" = m.field "tasks" := by
    induction beside with
    | refl => exact ⟨takes, rfl⟩
    | @set other key _ apart value ih =>
      refine ⟨extends_set ih.1 key value, ?_⟩
      rw [field_set ih.1, if_neg (Ne.symm apart), ih.2]
  exact kept.2

theorem report_orderly (orderly : Orderly c.management) (id round : UInt64) (phase : String) (result : Value) :
    Orderly (report c id round phase result).1.management := by
  unfold report
  split
  · exact orderly
  rename_i e owns
  dsimp only
  split
  · exact orderly
  rename_i task there
  have shaped : Shaped c.management := by
    rcases orderly with null | shaped
    · rw [null] at there
      cases there
    · exact shaped
  split
  · exact .inr (amend_shaped shaped there (by simp [FieldFits, taskStates]))
  split
  · split
    · exact .inr (amend_shaped shaped there (by simp [FieldFits]))
    · exact orderly
  split
  · exact orderly
  rename_i ends
  simp only [not_or, not_not] at ends
  split
  · rename_i success
    split
    · obtain ⟨m, beside, noted⟩ := recordResult_only c (requestText (task.field "request") "resource")
        (requestText (task.field "request") "target") result
      have kept := Beside.tasks shaped.takes beside
      have shapedAfter := recordResult_shaped shaped (requestText (task.field "request") "resource")
        (requestText (task.field "request") "target") result
      rw [noted] at shapedAfter ⊢
      exact .inr (amend_shaped shapedAfter (kept ▸ there) (by simp [FieldFits, taskStates]))
    · rename_i next finished
      have kept := Beside.tasks shaped.takes (finishConfig_beside finished)
      refine .inr (amend_shaped (finishConfig_shaped shaped finished) (kept ▸ there) ?_)
      rw [success]
      simp [FieldFits, taskStates]
  · have known : phase ∈ taskStates :=
      (by decide : ∀ phase ∈ ["success", "failed", "cancelled"], phase ∈ taskStates) phase ends.2.2
    exact .inr (amend_shaped shaped there (by simp [FieldFits, known]))

def RequestFits (r : Value) : Prop :=
  (r.field "params").asObject.isSome ∧ ∀ key ∈ ["resource", "action", "target"], (r.field key).asString.isSome

theorem enqueue_shaped (shaped : Shaped c.management) {index : UInt64} (counted : 0 < index)
    {resource action target : String} {r p answer : Value} (form : RequestFits r)
    (filed : enqueue c index resource action target r p = .ok (next, answer)) : Shaped next.management := by
  unfold enqueue at filed
  obtain ⟨_, _, filed⟩ := Result.bind_ok.mp filed
  split at filed
  · cases filed
  split at filed
  · cases filed
  split at filed
  · cases filed
  split at filed
  · cases filed
  split at filed
  · cases filed
  cases filed
  refine shaped.setRow (by decide) ?_
  show validTask _ _ = true
  obtain ⟨params, strings⟩ := form
  simp only [mem_cons, not_mem_nil, or_false, forall_eq_or_imp, forall_eq] at strings
  have number : (number index).isNumber index := by simp [isNumber, asNumber]
  have queued : (string "queued").isText "queued" := by decide
  have flag : (bool false).asBool.isSome := rfl
  simpa [validTask, field, get_ofFields, Assoc.find_cons, Text.parseU64_decimal, counted, taskStates, number,
    queued, flag] using ⟨params, strings⟩

theorem isString_of_text {r : Value} {key value : String} (found : text r key = .ok value) :
    (r.field key).asString.isSome := by
  unfold text at found
  split at found
  · rename_i there
    obtain ⟨v, got, string⟩ := bind_eq_some_iff.mp there
    rw [field, got, getD_some, string]
    rfl
  · cases found

theorem poolDelete_shaped (shaped : Shaped c.management) {target : String} {answer : Value}
    (deleted : poolDelete c target = .ok (next, answer)) : Shaped next.management := by
  unfold poolDelete at deleted
  split at deleted
  · cases deleted
  split at deleted
  · cases deleted
  split at deleted
  · cases deleted
  · cases deleted
    exact shaped.removeRow (by decide) _

theorem applyInner_shaped (shaped : Shaped c.management) {index : UInt64} (counted : 0 < index) {r answer : Value}
    (granted : applyInner c index r = .ok (next, answer)) : Shaped next.management := by
  unfold applyInner at granted
  obtain ⟨resource, resourceAt, granted⟩ := Result.bind_ok.mp granted
  obtain ⟨action, actionAt, granted⟩ := Result.bind_ok.mp granted
  split at granted
  · cases granted
  rename_i target targetAt
  split at granted
  · cases granted
  dsimp only at granted
  split at granted
  · cases granted
  rename_i params
  have form : RequestFits r := by
    refine ⟨isSome_iff_ne_none.mpr (by simpa using params), ?_⟩
    simp only [mem_cons, not_mem_nil, or_false, forall_eq_or_imp, forall_eq]
    exact ⟨isString_of_text resourceAt, isString_of_text actionAt, by rw [targetAt]; rfl⟩
  split at granted
  · exact poolDelete_shaped shaped granted
  split at granted
  · split at granted
    · cases granted
    rename_i task there
    cases granted
    have valid : validTask target task := (shaped.rows "tasks" (by decide)).get there
    have changed : RowFits "tasks" target (cancelTask task) := cancelTask_valid valid
    exact shaped.setRow (by decide) changed
  · split at granted
    · split at granted
      · cases granted
      · cases granted
        exact shaped.set (by decide) fun part => (shaped.rows "tasks" part).retain active
    · split at granted
      · obtain ⟨_, _, granted⟩ := Result.bind_ok.mp granted
        exact enqueue_shaped shaped counted form granted
      · exact enqueue_shaped shaped counted form granted

theorem apply_orderly (orderly : Orderly c.management) {index : UInt64} (counted : 0 < index) (r : Value) :
    Orderly (apply c index r).1.management := by
  rcases apply_cases c index r with ⟨_, refused⟩ | ⟨next, answer, ran, granted⟩
  · rw [refused]
    exact orderly
  · rw [granted]
    exact .inr ((applyInner_shaped (shaped_begun orderly) counted ran).revise index)

end Management

namespace ControlState

open Management

variable {c : ControlState} (orderly : Orderly c.management)
include orderly

theorem managementReport_orderly (id round : UInt64) (phase : String) (result : Value) :
    Orderly (c.managementReport id round phase result).1.management := by
  have after := report_orderly orderly id round phase result
  unfold managementReport
  dsimp only
  split <;> exact after

theorem tapeUnassign_orderly (barcode : String) : Orderly (c.tapeUnassign barcode).1.management := by
  unfold tapeUnassign
  split
  · exact orderly
  split
  · exact orderly
  split
  · exact orderly
  dsimp only
  split
  · rename_i options there
    rcases orderly with null | shaped
    · rw [null] at there
      cases there
    obtain ⟨tapes, has, object⟩ := bind_eq_some_iff.mp there
    have same : c.management.field "tapes" = .object options := by
      rw [field, has, getD_some]
      cases tapes with
      | object fields => exact congrArg Value.object (some.inj object)
      | _ => cases object
    rw [← same]
    exact .inr ((shaped.removeRow (by decide) barcode).revise _)
  · exact orderly

theorem setTapeState_orderly (index : UInt64) (barcode state : String) :
    Orderly (c.setTapeState index barcode state).management := by
  unfold setTapeState
  split
  · exact orderly
  dsimp only
  split
  · split
    · exact invalidateCapacity_orderly orderly ..
    · exact orderly
  · exact orderly

theorem tapeReclaimed_orderly (index : UInt64) (barcode volumeUuid : String) :
    Orderly (c.tapeReclaimed index barcode volumeUuid).1.management := by
  unfold tapeReclaimed
  split
  · exact invalidateOtherVolume_orderly orderly ..
  · exact orderly

theorem tapeCommitted_orderly (index : UInt64) (barcode volumeUuid : String)
    (generation files bytesUsed bytesWritten : UInt64) :
    Orderly (c.tapeCommitted index barcode volumeUuid generation files bytesUsed bytesWritten).1.management := by
  unfold tapeCommitted
  dsimp only
  split
  · split
    · exact invalidateOtherVolume_orderly orderly ..
    · exact orderly
  · exact orderly

end ControlState

open Management

theorem Effect.orderly {index : UInt64} {c : ControlState} {effect : Command × Applied} {after : Records}
    (has : Effect index c effect after) (counted : 0 < index) (orderly : Orderly c.management) : Orderly after.management := by
  have kept := has.kept
  cases has with
  | same => exact orderly
  | relieve => exact interrupt_orderly orderly
  | manage r => exact apply_orderly orderly counted r
  | observe barcode observation => exact observeTape_orderly orderly barcode observation index
  | report id round phase result => exact c.managementReport_orderly orderly id round phase result
  | unassign barcode => exact c.tapeUnassign_orderly orderly barcode
  | state barcode state => exact c.setTapeState_orderly orderly index barcode state
  | reclaimed barcode volumeUuid => exact c.tapeReclaimed_orderly orderly index barcode volumeUuid
  | commit barcode volumeUuid generation files bytesUsed bytesWritten =>
    exact c.tapeCommitted_orderly orderly index barcode volumeUuid generation files bytesUsed bytesWritten
  | quiesce | resume | freeze | acquire | release | create | assign | reclaim =>
    rw [kept.management rfl]
    exact orderly

end TapeRs.Daemon
