import TapeRs.Daemon.Estate

namespace TapeRs.Daemon

open Json Management SortedMap

/-- At most one task has not ended, and a tape it is to assign is not assigned yet. -/
def Pending (m : Value) (tapes : SortedMap String String) : Prop :=
  ∃ tasks, Filed m tasks ∧
    (∀ key other r request, Live tasks key r → Live tasks other request → key = other) ∧
    ∀ key r, Live tasks key r → requestText r "resource" = "tapes" → requestText r "action" = "assign" →
      tapes.get (requestText r "target") = none

theorem pending_idle {m : Value} {tasks : SortedMap String Value} (filed : Filed m tasks)
    (idle : ∀ key request, ¬Live tasks key request) (tapes : SortedMap String String) : Pending m tapes :=
  ⟨tasks, filed, fun _ _ _ _ live => absurd live (idle _ _), fun _ _ live => absurd live (idle _ _)⟩

/-- What keeps the pools and tapes of a control state together. -/
structure Tidy (c : ControlState) : Prop where
  names : ∀ uuid other row row', c.pools.get uuid = some row → c.pools.get other = some row' → row.name = row'.name →
    uuid = other
  pooled : ∀ barcode uuid, c.tapes.get barcode = some uuid → ∃ pool, c.pools.get uuid = some pool
  tasks : Pending c.management c.tapes

namespace Tidy

variable {c after : ControlState} {index : UInt64} {effect : Command × Applied} {target : String}

theorem start : Tidy {} := by
  refine ⟨nofun, nofun, pending_idle filed_null ?_ _⟩
  rintro _ _ ⟨_, there, _⟩
  cases there

theorem alone (tidy : Tidy c) {id : UInt64} {r : Value} {resource action : String} (asks : Asks c id r resource action)
    {m : Value} (ends : Ends c.management m (Text.decimal id)) (tapes : SortedMap String String) : Pending m tapes := by
  obtain ⟨tasks, filed, single, _⟩ := tidy.tasks
  obtain ⟨⟨task, there, working, request⟩, _, _⟩ := asks
  obtain ⟨after, filedAfter, carries, still⟩ := ends tasks filed
  refine pending_idle filedAfter ?_ tapes
  intro key request' live
  rw [filed.get] at there
  have same := single key _ _ _ (carries key request' live) ⟨task, there, working, request⟩
  rw [same] at live
  exact still request' live

theorem free (tidy : Tidy c) {id : UInt64} {r : Value} (asks : Asks c id r "tapes" "assign") :
    c.tapes.get (requestText r "target") = none := by
  obtain ⟨⟨task, there, working, request⟩, resource, action⟩ := asks
  obtain ⟨tasks, filed, _, pending⟩ := tidy.tasks
  rw [filed.get] at there
  exact pending _ _ ⟨task, there, working, request⟩ resource action

theorem keep (tidy : Tidy c) {m : Value} (keeps : Keeps c.management m) {tapes : SortedMap String String}
    (fewer : ∀ barcode, c.tapes.get barcode = none → tapes.get barcode = none) : Pending m tapes := by
  obtain ⟨tasks, filed, single, pending⟩ := tidy.tasks
  obtain ⟨after, filedAfter, carries⟩ := keeps tasks filed
  refine ⟨after, filedAfter, ?_, ?_⟩
  · intro key other r request live live'
    exact single key other r request (carries _ _ live) (carries _ _ live')
  · intro key r live resource action
    exact fewer _ (pending key r (carries _ _ live) resource action)

theorem erase_fewer {tapes : SortedMap String String} (barcode : String) (free : tapes.get barcode = none) :
    (tapes.erase target).get barcode = none := by
  rw [get_erase]
  split
  · rfl
  · exact free

theorem erase_pooled (tidy : Tidy c) (barcode uuid : String) (there : (c.tapes.erase target).get barcode = some uuid) :
    ∃ pool, c.pools.get uuid = some pool := by
  rw [get_erase] at there
  split at there
  · cases there
  · exact tidy.pooled barcode uuid there

theorem insert_pooled (tidy : Tidy c) {pool : String} {row : Pool} (known : c.pools.get pool = some row) :
    ∀ barcode uuid, (c.tapes.insert target pool).get barcode = some uuid → ∃ pool, c.pools.get uuid = some pool :=
  forall_insert ⟨row, known⟩ tidy.pooled

theorem set_named (tidy : Tidy c) {uuid key value : String} {pool changed : Pool}
    (set : PoolSet c.pools after.pools uuid key value pool changed) {other : String} {row : Pool}
    (there : c.pools.get other = some row) (same : row.name = changed.name) : other = uuid := by
  by_cases named : key = "poolname"
  · obtain ⟨rfl, free⟩ := set.renamed named
    exact free other row there same
  · rw [set.kept named] at same
    exact tidy.names _ _ _ _ there set.there same

theorem reform (tidy : Tidy c) (reform : Reform index c after effect) : Tidy after := by
  cases reform with
  | quiet _ _ _ pools tapes tasks =>
    refine ⟨pools ▸ tidy.names, pools ▸ tapes ▸ tidy.pooled, ?_⟩
    rw [tapes]
    rcases tasks with keeps | files
    · exact tidy.keep keeps fun _ free => free
    obtain ⟨tasks, filed, _⟩ := tidy.tasks
    obtain ⟨after, key, request, filedAfter, _, alone, free⟩ := files tasks filed
    refine ⟨after, filedAfter, ?_, ?_⟩
    · intro key other r request live live'
      rw [(alone _ _ live).1, (alone _ _ live').1]
    · intro key r live
      rw [(alone _ _ live).2]
      exact free
  | freeze _ _ pools tapes tasks => exact ⟨pools ▸ tidy.names, pools ▸ tapes ▸ tidy.pooled, tapes ▸ tasks ▸ tidy.tasks⟩
  | @create uuid name fileLimit fresh unnamed _ pools tapes tasks =>
    refine ⟨?_, ?_, tapes ▸ tasks ▸ tidy.tasks⟩
    · rw [pools]
      intro one other row row' there there' same
      rcases get_insert_some there with ⟨rfl, rfl⟩ | ⟨_, old⟩ <;>
        rcases get_insert_some there' with ⟨rfl, rfl⟩ | ⟨_, old'⟩
      · rfl
      · exact absurd same.symm (unnamed _ _ old')
      · exact absurd same (unnamed _ _ old)
      · exact tidy.names _ _ _ _ old old' same
    · rw [pools, tapes]
      intro barcode pool there
      obtain ⟨row, known⟩ := tidy.pooled barcode pool there
      refine ⟨row, ?_⟩
      rw [get_insert, if_neg]
      · exact known
      · rintro rfl
        rw [fresh] at known
        cases known
  | @delete r uuid _ _ unused _ pools tapes tasks =>
    refine ⟨?_, ?_, tapes ▸ tidy.keep tasks fun _ free => free⟩
    · rw [pools]
      intro one other row row' there there' same
      rw [get_erase] at there there'
      split at there
      · cases there
      · split at there'
        · cases there'
        · exact tidy.names _ _ _ _ there there' same
    · rw [pools, tapes]
      intro barcode pool there
      obtain ⟨row, known⟩ := tidy.pooled barcode pool there
      refine ⟨row, ?_⟩
      rw [get_erase, if_neg]
      · exact known
      · rintro rfl
        exact unused barcode there
  | @assign barcode pool uuid reply idle found free _ pools tapes tasks =>
    obtain ⟨row, known, _⟩ := c.resolvePool_some found
    refine ⟨pools ▸ tidy.names, ?_, ?_⟩
    · rw [pools, tapes]
      exact tidy.insert_pooled known
    · obtain ⟨filedTasks, filed, _⟩ := tidy.tasks
      have none' : ∀ key r, ¬Live filedTasks key r := by
        intro key r live
        rw [filed.activeTasks_of_live live] at idle
        cases idle
      rw [tasks]
      exact pending_idle filed none' _
  | @unassign barcode reply _ pools tapes tasks =>
    refine ⟨pools ▸ tidy.names, ?_, ?_⟩
    · rw [pools, tapes]
      exact tidy.erase_pooled
    · rw [tapes]
      exact tidy.keep tasks.keeps erase_fewer
  | @set id round phase result r uuid key value pool changed asks found keyed valued _ pools tapes tasks =>
    refine ⟨?_, ?_, ?_⟩
    · intro one other row row' there there' same
      rw [pools.get] at there there'
      split at there <;> split at there'
      · rename_i here here'
        rw [here, here']
      · rename_i here apart
        cases there
        rw [tidy.set_named pools there' same.symm] at apart
        exact absurd rfl apart
      · rename_i apart here
        cases there'
        rw [tidy.set_named pools there same] at apart
        exact absurd rfl apart
      · exact tidy.names _ _ _ _ there there' same
    · rw [tapes]
      intro barcode pool there
      obtain ⟨row, known⟩ := tidy.pooled barcode pool there
      rw [pools.get]
      split
      · exact ⟨changed, rfl⟩
      · exact ⟨row, known⟩
    · exact tidy.alone asks tasks _
  | @enrol id round phase result r asks _ pools tapes tasks =>
    refine ⟨pools ▸ tidy.names, ?_, ?_⟩
    · rw [pools]
      rcases tapes with ⟨uuid, known, tapes⟩ | tapes
      · obtain ⟨row, known⟩ := Option.isSome_iff_exists.mp known
        rw [tapes]
        exact tidy.insert_pooled known
      · rw [tapes]
        exact tidy.pooled
    · exact tidy.alone asks tasks _
  | @release id round phase result r asks _ pools tapes tasks =>
    refine ⟨pools ▸ tidy.names, ?_, ?_⟩
    · rw [pools, tapes]
      exact tidy.erase_pooled
    · exact tidy.alone asks tasks _

end Tidy

theorem Tidy.resolvePool_eq {c : ControlState} (tidy : Tidy c) {name uuid : String} {pool : Pool}
    (known : c.pools.get uuid = some pool) (way : uuid = name ∨ c.pools.get name = none ∧ pool.name = name) :
    c.resolvePool name = some uuid := by
  unfold ControlState.resolvePool
  rcases way with rfl | ⟨absent, named⟩
  · rw [if_pos]
    rw [contains, known]
    rfl
  rw [if_neg (by simp [contains, absent])]
  cases first : c.pools.entries.find? fun entry => entry.2.name = name with
  | none =>
    have unnamed := List.find?_eq_none.mp first _ (mem_entries.mpr known)
    simp [named] at unnamed
  | some entry =>
    have there := mem_entries.mp (List.mem_of_find?_eq_some first)
    have hit := List.find?_some first
    simp only [decide_eq_true_eq] at hit
    simp [tidy.names _ _ _ _ there known (hit.trans named.symm)]

end TapeRs.Daemon
