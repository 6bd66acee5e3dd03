import TapeRs.Daemon.Cluster
import TapeRs.Daemon.SnapshotRoundTrip

namespace TapeRs.Daemon

open Json ClusterState SortedMap Value Assoc Management Snapshot Option

namespace Management

variable {m after : Value} {serial key old : String} {replacements : List DriveReplacement}

/-- No policy of the drive is on record, and the inventory does not list it. -/
structure Unknown (m : Value) (serial : String) : Prop where
  policy : policy m serial = none
  listed : listsDrive m serial = false

def busyWith (m : Value) (serial : String) : Bool :=
  ((m.get "tasks").bind Value.asObject).any fun tasks => tasks.any fun entry => worksOn serial entry.2

/-- Nothing is left that the changes of the drives would have to carry over. -/
structure Settled (replacements : List DriveReplacement) (removals : List DriveRemoval) (m : Value) : Prop where
  replaced : ∀ r ∈ replacements, Unknown m r.old
  removed : ∀ r ∈ removals, Unknown m r.serial ∧ busyWith m r.serial = false

instance (m : Value) (serial : String) : Decidable (Unknown m serial) :=
  decidable_of_iff ((policy m serial).isNone ∧ listsDrive m serial = false)
    ⟨fun h => ⟨Option.isNone_iff_eq_none.mp h.1, h.2⟩, fun h => ⟨Option.isNone_iff_eq_none.mpr h.policy, h.listed⟩⟩

instance (replacements : List DriveReplacement) (removals : List DriveRemoval) (m : Value) :
    Decidable (Settled replacements removals m) :=
  decidable_of_iff ((∀ r ∈ replacements, Unknown m r.old) ∧ ∀ r ∈ removals, Unknown m r.serial ∧ busyWith m r.serial = false)
    ⟨fun h => ⟨h.1, h.2⟩, fun h => ⟨h.replaced, h.removed⟩⟩

theorem expireInventory_same (unlisted : listsDrive m serial = false) : expireInventory m serial = m := by
  rw [expireInventory, unlisted, Bool.false_and, if_neg Bool.false_ne_true]

theorem movePolicy_same (none' : policy m old = none) (new : String) : movePolicy m old new = .ok m := by
  unfold movePolicy
  split
  · rfl
  · rename_i drives there
    rw [policy, there, bind_some] at none'
    rw [none']

theorem dropPolicy_same (none' : policy m serial = none) : dropPolicy m serial = m := by
  rw [dropPolicy, none']

theorem stopTasks_same (idle : busyWith m serial = false) : stopTasks m serial = m := by
  unfold stopTasks
  split
  · rfl
  · rename_i tasks there
    rw [busyWith, there, any_some] at idle
    rw [if_neg (by rw [idle]; exact Bool.false_ne_true)]

theorem Settled.migrate {removals : List DriveRemoval} (settled : Settled replacements removals m) :
    migrate replacements removals m = .ok m := by
  have first : replacements.foldlM (fun m r => replaceDrive m r.old r.new) m = .ok m := by
    have unknown := settled.replaced
    clear settled
    induction replacements with
    | nil => rfl
    | cons r rest ih =>
      have here := unknown r List.mem_cons_self
      rw [List.foldlM_cons, replaceDrive, movePolicy_same here.policy]
      show rest.foldlM _ (expireInventory m r.old) = _
      rw [expireInventory_same here.listed]
      exact ih fun other member => unknown other (List.mem_cons_of_mem _ member)
  have second : removals.foldl (fun m r => removeDrive m r.serial) m = m := by
    have unknown := settled.removed
    clear settled first
    induction removals with
    | nil => rfl
    | cons r rest ih =>
      obtain ⟨here, idle⟩ := unknown r List.mem_cons_self
      rw [List.foldl_cons, removeDrive, dropPolicy_same here.policy, expireInventory_same here.listed, stopTasks_same idle]
      exact ih fun other member => unknown other (List.mem_cons_of_mem _ member)
  rw [Management.migrate, first]
  exact congrArg Except.ok second

theorem takes_of_part {fields : List (String × Value)} (there : (m.get key).bind asObject = some fields) :
    m.Extends := by
  cases m with
  | null => exact .inl rfl
  | object fields => exact .inr ⟨fields, rfl⟩
  | _ => cases there

theorem policy_set (takes : m.Extends) (apart : key ≠ "drives") (value : Value) (serial : String) :
    policy (m.set key value) serial = policy m serial := by
  rw [policy, get_set takes, if_neg (Ne.symm apart), policy]

theorem policy_drives (takes : m.Extends) (drives : List (String × Value)) (serial : String) :
    policy (m.set "drives" (.object drives)) serial = find serial drives := by
  rw [policy, get_set takes, if_pos rfl]
  rfl

theorem listsDrive_set (takes : m.Extends) (apart : key ≠ "inventory") (value : Value) (serial : String) :
    listsDrive (m.set key value) serial = listsDrive m serial := by
  rw [listsDrive, field_set takes, if_neg (Ne.symm apart), listsDrive]

theorem busyWith_set (takes : m.Extends) (apart : key ≠ "tasks") (value : Value) (serial : String) :
    busyWith (m.set key value) serial = busyWith m serial := by
  rw [busyWith, get_set takes, if_neg (Ne.symm apart), busyWith]

theorem takes_of_listsDrive (listed : listsDrive m serial) : m.Extends := by
  cases m with
  | null => exact .inl rfl
  | object fields => exact .inr ⟨fields, rfl⟩
  | _ => cases listed

theorem expireInventory_spec (m : Value) (serial : String) :
    (∀ other, policy (expireInventory m serial) other = policy m other) ∧ listsDrive (expireInventory m serial) serial = false ∧
      (∀ other, listsDrive m other = false → listsDrive (expireInventory m serial) other = false) ∧
      ∀ other, busyWith (expireInventory m serial) other = busyWith m other := by
  unfold expireInventory
  split
  · rename_i both
    rw [Bool.and_eq_true] at both
    have takes := takes_of_listsDrive both.1
    have gone : ∀ other, listsDrive (m.set "inventory" .null) other = false := by
      intro other
      rw [listsDrive, field_set takes, if_pos rfl]
      rfl
    exact ⟨policy_set takes (by decide) _, gone serial, fun other _ => gone other, busyWith_set takes (by decide) _⟩
  · rename_i either
    refine ⟨fun _ => rfl, ?_, fun _ unlisted => unlisted, fun _ => rfl⟩
    cases listed : listsDrive m serial with
    | false => rfl
    | true =>
      have takes := takes_of_listsDrive listed
      rcases takes with rfl | ⟨fields, rfl⟩
      · cases listed
      · rw [listed] at either
        exact absurd rfl either

theorem movePolicy_spec {new : String} (apart : new ≠ old) (moved : movePolicy m old new = .ok after) :
    policy after old = none ∧ (∀ other, other ≠ new → policy m other = none → policy after other = none) ∧
      (∀ other, listsDrive after other = listsDrive m other) ∧ ∀ other, busyWith after other = busyWith m other := by
  unfold movePolicy at moved
  split at moved
  · rename_i none'
    cases moved
    exact ⟨by rw [policy, none', bind_none], fun _ _ unknown => unknown, fun _ => rfl, fun _ => rfl⟩
  rename_i drives there
  have takes := takes_of_part there
  split at moved
  · rename_i none'
    cases moved
    exact ⟨by rw [policy, there, bind_some, none'], fun _ _ unknown => unknown, fun _ => rfl, fun _ => rfl⟩
  dsimp only at moved
  split at moved
  · cases moved
    refine ⟨?_, fun other different unknown => ?_, listsDrive_set takes (by decide) _, busyWith_set takes (by decide) _⟩
    · rw [policy_drives takes, find_insert, if_neg (Ne.symm apart), find_erase, if_pos rfl]
    · rw [policy_drives takes, find_insert, if_neg different, find_erase]
      split
      · rfl
      · rwa [policy, there] at unknown
  · cases moved

theorem dropPolicy_spec (m : Value) (serial : String) :
    policy (dropPolicy m serial) serial = none ∧ (∀ other, policy m other = none → policy (dropPolicy m serial) other = none) ∧
      (∀ other, listsDrive (dropPolicy m serial) other = listsDrive m other) ∧
      ∀ other, busyWith (dropPolicy m serial) other = busyWith m other := by
  unfold dropPolicy
  split
  · rename_i row known
    obtain ⟨drives, there, found⟩ := bind_eq_some_iff.mp known
    have takes := takes_of_part there
    have section' : m.field "drives" = .object drives := by
      obtain ⟨v, has, object⟩ := bind_eq_some_iff.mp there
      rw [field, has, getD_some]
      cases v with
      | object fields => exact congrArg Value.object (some.inj object)
      | _ => cases object
    rw [section']
    refine ⟨?_, fun other unknown => ?_, listsDrive_set takes (by decide) _, busyWith_set takes (by decide) _⟩
    · rw [remove, policy_drives takes, find_erase, if_pos rfl]
    · rw [remove, policy_drives takes, find_erase]
      split
      · rfl
      · rwa [policy, there] at unknown
  · rename_i none'
    exact ⟨none', fun _ unknown => unknown, fun _ => rfl, fun _ => rfl⟩

theorem worksOn_stopTask {other : String} {task : Value} (works : worksOn other (stopTask serial task)) :
    worksOn other task ∧ worksOn serial task = false := by
  unfold stopTask at works
  split at works
  · rename_i on
    simp only [worksOn, Bool.and_eq_true] at on works
    have takes := extends_of_active on.2
    have ended : active ((task.set "state" (.string "indeterminate")).set "result"
        (.ofFields [("reason", .string "驱动已从配置移除；任务未继续执行")])) = false := by
      rw [active, field_set (extends_set takes ..), if_neg (by decide), field_set takes, if_pos rfl]
      rfl
    rw [ended] at works
    cases works.2
  · rename_i off
    exact ⟨works, Bool.eq_false_iff.mpr off⟩

theorem stopTasks_spec (m : Value) (serial : String) :
    (∀ other, policy (stopTasks m serial) other = policy m other) ∧
      (∀ other, listsDrive (stopTasks m serial) other = listsDrive m other) ∧ busyWith (stopTasks m serial) serial = false ∧
      ∀ other, busyWith m other = false → busyWith (stopTasks m serial) other = false := by
  unfold stopTasks
  split
  · rename_i none'
    exact ⟨fun _ => rfl, fun _ => rfl, by rw [busyWith, none', any_none], fun _ idle => idle⟩
  rename_i tasks there
  have takes := takes_of_part there
  split
  · have busy : ∀ other, busyWith (m.set "tasks" (.object (tasks.map fun entry => (entry.1, stopTask serial entry.2)))) other =
        tasks.any fun entry => worksOn other (stopTask serial entry.2) := by
      intro other
      rw [busyWith, get_set takes, if_pos rfl, bind_some, asObject, any_some, List.any_map]
      rfl
    refine ⟨policy_set takes (by decide) _, listsDrive_set takes (by decide) _, ?_, fun other idle => ?_⟩
    · rw [busy, List.any_eq_false]
      intro entry _ works
      obtain ⟨on, off⟩ := worksOn_stopTask works
      rw [on] at off
      cases off
    · rw [busyWith, there, any_some, List.any_eq_false] at idle
      rw [busy, List.any_eq_false]
      exact fun entry member works => idle entry member (worksOn_stopTask works).1
  · rename_i none'
    exact ⟨fun _ => rfl, fun _ => rfl, by rw [busyWith, there, any_some]; exact Bool.eq_false_iff.mpr none',
      fun _ idle => idle⟩

theorem replaceDrive_spec {new : String} (apart : new ≠ old) (replaced : replaceDrive m old new = .ok after) :
    Unknown after old ∧ ∀ other, other ≠ new → Unknown m other → Unknown after other := by
  obtain ⟨mid, moved, returned⟩ := Result.bind_ok.mp replaced
  cases returned
  obtain ⟨gone, kept, listed, _⟩ := movePolicy_spec apart moved
  obtain ⟨same, unlisted, still, _⟩ := expireInventory_spec mid old
  refine ⟨⟨(same old).trans gone, unlisted⟩, fun other different unknown => ⟨?_, ?_⟩⟩
  · exact (same other).trans (kept other different unknown.policy)
  · exact still other ((listed other).trans unknown.listed)

theorem removeDrive_spec (m : Value) (serial : String) :
    (Unknown (removeDrive m serial) serial ∧ busyWith (removeDrive m serial) serial = false) ∧
      (∀ other, Unknown m other → Unknown (removeDrive m serial) other) ∧
      ∀ other, busyWith m other = false → busyWith (removeDrive m serial) other = false := by
  obtain ⟨gone, kept, listed, busy⟩ := dropPolicy_spec m serial
  obtain ⟨same, unlisted, still, busy'⟩ := expireInventory_spec (dropPolicy m serial) serial
  obtain ⟨same', listed', stopped, idle⟩ := stopTasks_spec (expireInventory (dropPolicy m serial) serial) serial
  refine ⟨⟨⟨?_, ?_⟩, stopped⟩, fun other unknown => ⟨?_, ?_⟩, fun other free => idle other ?_⟩
  · exact (same' serial).trans ((same serial).trans gone)
  · exact (listed' serial).trans unlisted
  · exact (same' other).trans ((same other).trans (kept other unknown.policy))
  · exact (listed' other).trans (still other ((listed other).trans unknown.listed))
  · exact (busy' other).trans ((busy other).trans free)

/-- No replacement brings back a drive that it or an earlier one has taken out. -/
def Forward (replacements : List DriveReplacement) : Prop :=
  (∀ r ∈ replacements, r.new ≠ r.old) ∧ replacements.Pairwise fun earlier later => later.new ≠ earlier.old

theorem replacements_settle (forward : Forward replacements)
    (done : replacements.foldlM (fun m r => replaceDrive m r.old r.new) m = .ok after) :
    (∀ r ∈ replacements, Unknown after r.old) ∧
      ∀ other, (∀ r ∈ replacements, r.new ≠ other) → Unknown m other → Unknown after other := by
  induction replacements generalizing m with
  | nil =>
    cases done
    exact ⟨nofun, fun _ _ unknown => unknown⟩
  | cons r rest ih =>
    rw [List.foldlM_cons] at done
    obtain ⟨mid, replaced, done⟩ := Result.bind_ok.mp done
    obtain ⟨apart, ordered⟩ := forward
    obtain ⟨later, ordered⟩ := List.pairwise_cons.mp ordered
    obtain ⟨gone, kept⟩ := replaceDrive_spec (apart r List.mem_cons_self) replaced
    obtain ⟨settled, still⟩ := ih ⟨fun r member => apart r (List.mem_cons_of_mem _ member), ordered⟩ done
    refine ⟨fun other member => ?_, fun other free unknown => ?_⟩
    · rcases List.mem_cons.mp member with rfl | member
      · exact still _ later gone
      · exact settled other member
    · exact still other (fun r member => free r (List.mem_cons_of_mem _ member))
        (kept other (Ne.symm (free r List.mem_cons_self)) unknown)

theorem removals_settle (removals : List DriveRemoval) (m : Value) :
    (∀ r ∈ removals, Unknown (removals.foldl (fun m r => removeDrive m r.serial) m) r.serial ∧
      busyWith (removals.foldl (fun m r => removeDrive m r.serial) m) r.serial = false) ∧
    (∀ other, Unknown m other → Unknown (removals.foldl (fun m r => removeDrive m r.serial) m) other) ∧
      ∀ other, busyWith m other = false → busyWith (removals.foldl (fun m r => removeDrive m r.serial) m) other = false := by
  induction removals generalizing m with
  | nil => exact ⟨nofun, fun _ unknown => unknown, fun _ free => free⟩
  | cons r rest ih =>
    obtain ⟨⟨gone, idle⟩, kept, free⟩ := removeDrive_spec m r.serial
    obtain ⟨settled, still, quiet⟩ := ih (removeDrive m r.serial)
    refine ⟨fun other member => ?_, fun other unknown => still other (kept other unknown),
      fun other idle => quiet other (free other idle)⟩
    rcases List.mem_cons.mp member with rfl | member
    · exact ⟨still _ gone, quiet _ idle⟩
    · exact settled other member

theorem migrate_settles {removals : List DriveRemoval} (forward : Forward replacements)
    (done : migrate replacements removals m = .ok after) : Settled replacements removals after := by
  obtain ⟨mid, replaced, returned⟩ := Result.bind_ok.mp done
  cases returned
  obtain ⟨settled, _⟩ := replacements_settle forward replaced
  obtain ⟨removed, kept, _⟩ := removals_settle removals mid
  exact ⟨fun r member => kept r.old (settled r member), removed⟩

def PolicyRows (m : Value) : Prop := ∀ serial row, policy m serial = some row → row.asObject.isSome

theorem movePolicy_ok (rows : PolicyRows m) (old new : String) :
    ∃ after, movePolicy m old new = .ok after ∧ PolicyRows after := by
  unfold movePolicy
  split
  · exact ⟨m, rfl, rows⟩
  rename_i drives there
  have takes := takes_of_part there
  have known : ∀ serial row, find serial drives = some row → row.asObject.isSome := by
    intro serial row found
    exact rows serial row (by rw [policy, there]; exact found)
  split
  · exact ⟨m, rfl, rows⟩
  rename_i previous found
  have isObject : ∀ v : Value, v.asObject.isSome → ∃ fields, v = .object fields := by
    intro v object
    cases v with
    | object fields => exact ⟨fields, rfl⟩
    | _ => cases object
  obtain ⟨fields, rfl⟩ := isObject previous (known old previous found)
  have current : ((find new (erase old drives)).getD (.object [])).asObject.isSome := by
    rw [find_erase]
    split
    · rfl
    · cases there' : find new drives with
      | none => rfl
      | some row => exact known new row there'
  obtain ⟨current, same⟩ := isObject _ current
  dsimp only
  rw [same]
  refine ⟨_, rfl, fun serial row there => ?_⟩
  rw [policy_drives takes, find_insert] at there
  split at there
  · cases there
    rfl
  rw [find_erase] at there
  split at there
  · cases there
  · exact known serial row there

theorem policyRows_of_policy (same : ∀ serial, policy after serial = policy m serial) (rows : PolicyRows m) :
    PolicyRows after := fun serial row there => rows serial row ((same serial).symm.trans there)

theorem migrate_ok (replacements : List DriveReplacement) (removals : List DriveRemoval) (rows : PolicyRows m) :
    ∃ after, migrate replacements removals m = .ok after := by
  have first : ∃ mid, replacements.foldlM (fun m r => replaceDrive m r.old r.new) m = .ok mid := by
    induction replacements generalizing m with
    | nil => exact ⟨m, rfl⟩
    | cons r rest ih =>
      obtain ⟨mid, moved, kept⟩ := movePolicy_ok rows r.old r.new
      obtain ⟨last, done⟩ := ih (policyRows_of_policy (expireInventory_spec mid r.old).1 kept)
      refine ⟨last, ?_⟩
      rw [List.foldlM_cons, replaceDrive, moved]
      exact done
  obtain ⟨mid, done⟩ := first
  exact ⟨_, by rw [migrate, done]; rfl⟩

theorem policyRows_of_orderly (orderly : Orderly m) : PolicyRows m := by
  intro serial row known
  rcases orderly with rfl | shaped
  · cases known
  obtain ⟨drives, there, found⟩ := bind_eq_some_iff.mp known
  obtain ⟨v, has, object⟩ := bind_eq_some_iff.mp there
  have rows := shaped.rows "drives" (by decide)
  rw [field, has, getD_some] at rows
  obtain ⟨entries, rfl, fits⟩ := rows
  cases object
  have fit := fits _ (mem_of_find found)
  rw [RowFits, if_neg (by decide)] at fit
  exact fit.1

end Management

/-- Commands that neither read nor change the management data, nor freeze the catalog. -/
def Command.sparesManagement : Command → Bool
  | .candidate .. | .vipAcquire .. | .vipRelease .. | .executorReady .. | .fenced .. | .deviceActivity .. | .catalogPart ..
  | .fileTask .. | .catalogResume .. => true
  | .executorReport _ _ _ _ command => command.sparesManagement
  | _ => false

namespace ControlState

variable {cmd : Command}

def managing (c : ControlState) (m : Value) : ControlState := { c with management := m }

/-- A run that does not depend on the management data, and does not freeze the catalog. -/
def Parallel (m : Value) (c : ControlState) (run run' : ControlState × Applied) : Prop :=
  run' = (run.1.managing m, run.2) ∧ run.1.catalogFrozenIndex = c.catalogFrozenIndex

theorem Parallel.ite {c one two one' two' : ControlState} {m : Value} {outcome : Applied} {P : Prop} [Decidable P]
    (yes : Parallel m c (one, outcome) (one', outcome)) (no : Parallel m c (two, outcome) (two', outcome)) :
    Parallel m c (if P then one else two, outcome) (if P then one' else two', outcome) := by
  split
  · exact yes
  · exact no

theorem guarded_spares {c : ControlState} {m : Value} {run run' : ControlState × Applied}
    (spares : Parallel m c run run') : Parallel m c (c.guarded cmd run) ((c.managing m).guarded cmd run') := by
  obtain ⟨rfl, thawed⟩ := spares
  have same : (c.managing m).rejects cmd = c.rejects cmd := rfl
  unfold guarded
  rw [same]
  split
  · exact ⟨rfl, rfl⟩
  · exact ⟨rfl, thawed⟩

theorem advanced_spares {c : ControlState} {m : Value} {index : UInt64} {run run' : ControlState × Applied}
    (spares : Parallel m (c.advanced index) run run') :
    Parallel m c ((c.advanced index).guarded cmd run) (((c.managing m).advanced index).guarded cmd run') :=
  guarded_spares spares

theorem apply_spares (c : ControlState) (m : Value) (index : UInt64) (spares : cmd.sparesManagement) :
    Parallel m c (c.apply index cmd) ((c.managing m).apply index cmd) := by
  induction cmd generalizing c with
  | candidate | vipAcquire | executorReady => exact advanced_spares (.ite ⟨rfl, rfl⟩ ⟨rfl, rfl⟩)
  | catalogResume quiesceIndex =>
    refine advanced_spares ?_
    have same : ((c.managing m).advanced index).catalogQuiesceIndex = (c.advanced index).catalogQuiesceIndex := rfl
    simp only [resumeCatalog, same]
    split <;> exact ⟨rfl, rfl⟩
  | vipRelease address node round token =>
    refine advanced_spares ?_
    have same : ((c.managing m).advanced index).vips = (c.advanced index).vips := rfl
    simp only [releaseVip, same]
    split
    · split <;> exact ⟨rfl, rfl⟩
    · exact ⟨rfl, rfl⟩
  | fenced node round =>
    refine advanced_spares ?_
    have same : ((c.managing m).advanced index).executor = (c.advanced index).executor := rfl
    simp only [confirmFence, same]
    split
    · split <;> exact ⟨rfl, rfl⟩
    · exact ⟨rfl, rfl⟩
  | deviceActivity | catalogPart | fileTask => exact advanced_spares ⟨rfl, rfl⟩
  | executorReport node inst round sequence command ih =>
    refine advanced_spares ?_
    have frozen : ((c.managing m).advanced index).catalogFrozenIndex = (c.advanced index).catalogFrozenIndex := rfl
    have accepts : ((c.managing m).advanced index).accepts node inst round sequence command =
        (c.advanced index).accepts node inst round sequence command := rfl
    simp only [frozen, accepts]
    split
    · exact ⟨rfl, rfl⟩
    split
    · split
      · exact ⟨rfl, rfl⟩
      · obtain ⟨same, thawed⟩ := ih { c.advanced index with executorReportSequence := sequence } spares
        exact ⟨congrArg (fun run => (run.1, Applied.reported run.2)) same, thawed⟩
    · exact ⟨rfl, rfl⟩
  | _ => cases spares

end ControlState

namespace ClusterState

variable {s t : ClusterState} {id : String} {c : ControlState} {index : UInt64} {cmd : Command}
  {after : ControlState} {entry : ScopedCommand} {next last : ClusterState} {outcome : Applied}
  {log : List (UInt64 × ScopedCommand)}

def changes (s : ClusterState) : List DriveReplacement × List DriveRemoval := (s.driveReplacements, s.driveRemovals)

def migrated (s : ClusterState) (id : String) (m : Value) : Except String Value :=
  Management.migrate (s.driveReplacements.filter fun r => r.library = id) (s.driveRemovals.filter fun r => r.library = id) m

theorem reconciled_congr (same : t.changes = s.changes) (id : String) (c : ControlState) :
    t.reconciled id c = s.reconciled id c := by
  obtain ⟨replacements, removals⟩ := Prod.mk.inj same
  rw [reconciled, replacements, removals, reconciled]

theorem reconciled_frozen (frozen : c.catalogFrozenIndex.isSome) : s.reconciled id c = .ok c := if_pos frozen

theorem reconciled_thawed (thawed : ¬c.catalogFrozenIndex.isSome) : s.reconciled id c =
    (s.migrated id c.management).map c.managing := by
  rw [reconciled, if_neg thawed, migrated]
  cases migrate _ _ c.management <;> rfl

theorem reconciled_ok (orderly : Orderly c.management) (s : ClusterState) (id : String) : ∃ after, s.reconciled id c = .ok after := by
  by_cases frozen : c.catalogFrozenIndex.isSome
  · exact ⟨c, reconciled_frozen frozen⟩
  · obtain ⟨m, done⟩ := migrate_ok (s.driveReplacements.filter fun r => r.library = id)
      (s.driveRemovals.filter fun r => r.library = id) (policyRows_of_orderly orderly)
    exact ⟨c.managing m, by rw [reconciled_thawed frozen, migrated, done]; rfl⟩

/-- What carrying the changes over comes to: nothing once the catalog is frozen, otherwise a migration of the management data. -/
theorem reconciled_cases (done : s.reconciled id c = .ok after) :
    (c.catalogFrozenIndex.isSome ∧ after = c) ∨ (¬c.catalogFrozenIndex.isSome ∧ ∃ m, after = c.managing m ∧
      s.migrated id c.management = .ok m) := by
  by_cases frozen : c.catalogFrozenIndex.isSome
  · rw [reconciled_frozen frozen] at done
    cases done
    exact .inl ⟨frozen, rfl⟩
  rw [reconciled_thawed frozen] at done
  cases migrated : s.migrated id c.management with
  | error reason =>
    rw [migrated] at done
    cases done
  | ok m =>
    rw [migrated] at done
    cases done
    exact .inr ⟨frozen, m, rfl, rfl⟩

theorem reconciled_vips (done : s.reconciled id c = .ok after) : after.vips = c.vips ∧
    ∀ vips, s.reconciled id { c with vips } = .ok { after with vips } := by
  rcases reconciled_cases done with ⟨frozen, rfl⟩ | ⟨thawed, m, rfl, migrated⟩
  · exact ⟨rfl, fun vips => reconciled_frozen frozen⟩
  refine ⟨rfl, fun vips => ?_⟩
  have same : s.reconciled id { c with vips } = (Except.ok m : Except String Value).map
      (ControlState.managing { c with vips }) := by
    rw [← migrated]
    exact reconciled_thawed thawed
  exact same

/-- The entry finds nothing in the state of its library that the changes of the drives would carry over, or does not look at it. -/
def Calm (s t : ClusterState) (entry : ScopedCommand) : Prop :=
  ∀ c, s.controls.get (entry.library.getD s.defaultLibrary) = some c → c.catalogFrozenIndex.isSome ∨
    Settled (t.driveReplacements.filter fun r => r.library = entry.library.getD s.defaultLibrary)
      (t.driveRemovals.filter fun r => r.library = entry.library.getD s.defaultLibrary) c.management ∨
    entry.command.sparesManagement

instance (s t : ClusterState) (entry : ScopedCommand) : Decidable (Calm s t entry) :=
  inferInstanceAs (Decidable (∀ c ∈ s.controls.get (entry.library.getD s.defaultLibrary), c.catalogFrozenIndex.isSome ∨
    Settled (t.driveReplacements.filter fun r => r.library = entry.library.getD s.defaultLibrary)
      (t.driveRemovals.filter fun r => r.library = entry.library.getD s.defaultLibrary) c.management ∨
    entry.command.sparesManagement))

theorem reconciled_apply (orderly : Orderly (c.apply index cmd).1.management)
    (forward : Forward (t.driveReplacements.filter fun r => r.library = id)) (done : t.reconciled id c = .ok after)
    (calm : c.catalogFrozenIndex.isSome ∨ Settled (t.driveReplacements.filter fun r => r.library = id)
      (t.driveRemovals.filter fun r => r.library = id) c.management ∨ cmd.sparesManagement) :
    (after.apply index cmd).2 = (c.apply index cmd).2 ∧
      ∃ last, t.reconciled id (c.apply index cmd).1 = .ok last ∧ t.reconciled id (after.apply index cmd).1 = .ok last := by
  obtain ⟨last, carried⟩ := reconciled_ok orderly t id
  rcases reconciled_cases done with ⟨frozen, rfl⟩ | ⟨thawed, m, rfl, migrated⟩
  · exact ⟨rfl, last, carried, carried⟩
  rcases calm with frozen | settled | spares
  · exact absurd frozen thawed
  · have same : c.managing m = c := by
      rw [ClusterState.migrated, settled.migrate] at migrated
      cases migrated
      rfl
    rw [same]
    exact ⟨rfl, last, carried, carried⟩
  · obtain ⟨parallel, still⟩ := c.apply_spares m index spares
    obtain ⟨itself, _⟩ := c.apply_spares c.management index spares
    have kept : (c.apply index cmd).1.management = c.management := by
      have eta : c.managing c.management = c := rfl
      rw [eta] at itself
      have first := congrArg (fun run => run.1.management) itself
      exact first
    have thawed' : ¬(c.apply index cmd).1.catalogFrozenIndex.isSome := by rwa [still]
    rw [parallel]
    refine ⟨rfl, (c.apply index cmd).1.managing m, ?_, ?_⟩
    · rw [reconciled_thawed thawed', kept, migrated]
      rfl
    · have again := (migrate_settles forward migrated).migrate
      have thawed'' : ¬((c.apply index cmd).1.managing m).catalogFrozenIndex.isSome := thawed'
      rw [reconciled_thawed thawed'']
      show (migrate _ _ m).map _ = _
      rw [again]
      rfl

theorem reconcile_insert (s : ClusterState) (id : String) (c : ControlState) :
    reconcileDriveReplacements { s with controls := s.controls.insert id c } id =
      (s.reconciled id c).map fun after => { s with controls := s.controls.insert id after } := by
  have twice : ∀ after, (s.controls.insert id c).insert id after = s.controls.insert id after := by
    intro after
    refine ext_get fun other => ?_
    simp only [get_insert]
    split <;> rfl
  have found : ({ s with controls := s.controls.insert id c } : ClusterState).controls.get id = some c := by
    rw [get_insert, if_pos rfl]
  have same : reconciled { s with controls := s.controls.insert id c } id c = s.reconciled id c := rfl
  rw [reconcileDriveReplacements, found]
  dsimp only
  rw [same]
  cases s.reconciled id c with
  | error reason => rfl
  | ok after => exact congrArg (fun controls => Except.ok { s with controls }) (twice after)

theorem applyEntry_ok :
    s.applyEntry index entry = .ok (next, outcome) ↔ ∃ c after, s.controls.get (entry.library.getD s.defaultLibrary) = some c ∧
      s.reconciled (entry.library.getD s.defaultLibrary) (c.apply index entry.command).1 = .ok after ∧
      outcome = (c.apply index entry.command).2 ∧
      next = copyVips { s with controls := s.controls.insert (entry.library.getD s.defaultLibrary) after }
        (entry.library.getD s.defaultLibrary) entry outcome := by
  unfold applyEntry
  dsimp only
  generalize entry.library.getD s.defaultLibrary = scope
  cases there : s.controls.get scope with
  | none => simp
  | some c =>
    dsimp only
    rw [reconcile_insert]
    cases done : s.reconciled scope (c.apply index entry.command).1 with
    | error reason => simp [done, Except.map, Bind.bind, Except.bind]
    | ok after =>
      simp only [Except.map, Bind.bind, Except.bind, Pure.pure, Except.pure, Except.ok.injEq, Prod.mk.injEq, some.injEq]
      constructor
      · rintro ⟨rfl, rfl⟩
        exact ⟨c, after, rfl, done, rfl, rfl⟩
      · rintro ⟨_, after', rfl, done', rfl, rfl⟩
        rw [done] at done'
        cases done'
        exact ⟨rfl, rfl⟩

/-- A state of the cluster under a configuration that records changes, beside the one without them: everything that the changes
    concern has been carried over, in every library. -/
structure Follows (s t : ClusterState) : Prop where
  default : t.defaultLibrary = s.defaultLibrary
  known : ∀ id c, s.controls.get id = some c → ∃ after, t.reconciled id c = .ok after ∧ t.controls.get id = some after
  unknown : ∀ id, s.controls.get id = none → t.controls.get id = none

theorem Follows.unique {t' : ClusterState} (one : Follows s t) (other : Follows s t')
    (changes : t'.changes = t.changes) : t' = t := by
  have controls : t'.controls = t.controls := by
    refine ext_get fun id => ?_
    cases there : s.controls.get id with
    | none => rw [one.unknown id there, other.unknown id there]
    | some c =>
      obtain ⟨after, done, here⟩ := one.known id c there
      obtain ⟨after', done', here'⟩ := other.known id c there
      rw [reconciled_congr changes, done] at done'
      cases done'
      rw [here, here']
  obtain ⟨default, controls', replacements, removals⟩ := t
  obtain ⟨default', controls'', replacements', removals'⟩ := t'
  cases changes
  obtain rfl := controls
  obtain rfl : default' = default := other.default.trans one.default.symm
  rfl

def Tame (s : ClusterState) : Prop := ∀ id c, s.controls.get id = some c → Orderly c.management

theorem Follows.insert (follows : Follows s t) (carried : t.reconciled id c = .ok after) :
    Follows { s with controls := s.controls.insert id c } { t with controls := t.controls.insert id after } := by
  refine ⟨follows.default, fun other row found => ?_, fun other absent => ?_⟩
  · show ∃ last, t.reconciled other row = .ok last ∧ (t.controls.insert id after).get other = some last
    rw [get_insert] at found ⊢
    split at found
    · rename_i same
      cases found
      subst same
      rw [if_pos rfl]
      exact ⟨after, carried, rfl⟩
    · rename_i apart
      rw [if_neg apart]
      exact follows.known other row found
  · show (t.controls.insert id after).get other = none
    rw [get_insert] at absent ⊢
    split at absent
    · cases absent
    · rename_i apart
      rw [if_neg apart]
      exact follows.unknown other absent

theorem Follows.copyVips (follows : Follows s t) (scope : String) (entry : ScopedCommand) (outcome : Applied) :
    Follows (s.copyVips scope entry outcome) (t.copyVips scope entry outcome) := by
  have same : t.copiesVips scope entry outcome = s.copiesVips scope entry outcome := by
    unfold copiesVips
    rw [follows.default]
  unfold ClusterState.copyVips
  rw [same]
  split
  · cases there : s.controls.get scope with
    | none =>
      rw [follows.unknown scope there]
      exact follows
    | some c =>
      obtain ⟨after, done, here⟩ := follows.known scope c there
      cases gatewayAt : s.controls.get gateway with
      | none =>
        rw [here, follows.unknown gateway gatewayAt]
        exact follows
      | some g =>
        obtain ⟨g', doneG, hereG⟩ := follows.known gateway g gatewayAt
        rw [here, hereG]
        dsimp only
        rw [(reconciled_vips done).1]
        exact follows.insert ((reconciled_vips doneG).2 c.vips)
  · exact follows

theorem Tame.copyVips (tame : Tame s) (scope : String) (entry : ScopedCommand) (outcome : Applied) :
    Tame (s.copyVips scope entry outcome) := by
  unfold ClusterState.copyVips
  split
  · split
    · rename_i g _ gatewayAt
      exact forall_insert (tame gateway g gatewayAt) tame
    · exact tame
  · exact tame

theorem copyVips_changes (s : ClusterState) (scope : String) (entry : ScopedCommand) (outcome : Applied) :
    (s.copyVips scope entry outcome).changes = s.changes ∧
      (s.copyVips scope entry outcome).defaultLibrary = s.defaultLibrary := by
  unfold copyVips
  split
  · split <;> exact ⟨rfl, rfl⟩
  · exact ⟨rfl, rfl⟩

theorem reconciled_plain (plain : s.changes = ([], [])) (id : String) (c : ControlState) :
    s.reconciled id c = .ok c := by
  obtain ⟨replacements, removals⟩ := Prod.mk.inj plain
  rw [reconciled, replacements, removals]
  split <;> rfl

theorem applyEntry_changes (done : s.applyEntry index entry = .ok (next, outcome)) :
    next.changes = s.changes := by
  obtain ⟨c, after, _, _, _, rfl⟩ := applyEntry_ok.mp done
  exact (copyVips_changes ..).1

theorem apply_orderly' (orderly : Orderly c.management) (counted : 0 < index) (cmd : Command) :
    Orderly (c.apply index cmd).1.management := by
  obtain ⟨sequence, effect⟩ := c.apply_effect index cmd
  exact effect.orderly counted orderly

theorem Follows.step (follows : Follows s t) (tame : Tame s) (plain : s.changes = ([], []))
    (forward : ∀ id, Forward (t.driveReplacements.filter fun r => r.library = id)) (counted : 0 < index)
    (calm : Calm s t entry) (done : s.applyEntry index entry = .ok (next, outcome)) :
    (Tame next ∧ next.changes = ([], [])) ∧ ∃ next', t.applyEntry index entry = .ok (next', outcome) ∧
      Follows next next' ∧ next'.changes = t.changes := by
  obtain ⟨c, after, there, reconciled, rfl, rfl⟩ := applyEntry_ok.mp done
  rw [reconciled_plain plain] at reconciled
  cases reconciled
  obtain ⟨c', carried, here⟩ := follows.known _ c there
  have orderly := apply_orderly' (tame _ c there) counted entry.command
  obtain ⟨sameOutcome, last, direct, later⟩ := reconciled_apply orderly (forward _) carried (calm c there)
  refine ⟨⟨Tame.copyVips ?_ _ _ _, (applyEntry_changes done).trans plain⟩, ?_⟩
  · exact forall_insert orderly tame
  have scope : entry.library.getD t.defaultLibrary = entry.library.getD s.defaultLibrary := by rw [follows.default]
  refine ⟨_, applyEntry_ok.mpr ⟨c', last, ?_, ?_, sameOutcome.symm, rfl⟩, ?_, ?_⟩
  · rw [scope]
    exact here
  · rw [scope]
    exact later
  · rw [scope]
    exact (follows.insert direct).copyVips _ _ _
  · exact (copyVips_changes ..).1

theorem run_cons {entry : UInt64 × ScopedCommand} {rest : List (UInt64 × ScopedCommand)} :
    s.run (entry :: rest) = .ok last ↔ ∃ next outcome, s.applyEntry entry.1 entry.2 = .ok (next, outcome) ∧ next.run rest = .ok last := by
  rw [run, List.foldlM_cons]
  cases s.applyEntry entry.1 entry.2 with
  | error reason => simp [Except.map, bind, Except.bind]
  | ok pair =>
    obtain ⟨next, outcome⟩ := pair
    constructor
    · exact fun done => ⟨next, outcome, rfl, done⟩
    · rintro ⟨_, _, applied, done⟩
      cases applied
      exact done

theorem Follows.run (follows : Follows s t) (tame : Tame s) (plain : s.changes = ([], []))
    (forward : ∀ id, Forward (t.driveReplacements.filter fun r => r.library = id))
    (counted : ∀ entry ∈ log, 0 < entry.1)
    (calm : ∀ before entry after, log = before ++ entry :: after → ∀ mid, s.run before = .ok mid → Calm mid t entry.2)
    (done : s.run log = .ok last) :
    Tame last ∧ ∃ last', t.run log = .ok last' ∧ Follows last last' ∧ last'.changes = t.changes := by
  induction log generalizing s t with
  | nil =>
    cases done
    exact ⟨tame, t, rfl, follows, rfl⟩
  | cons entry rest ih =>
    obtain ⟨after, outcome, applied, done⟩ := run_cons.mp done
    obtain ⟨⟨tame', plain'⟩, moved, applied', follows', changes⟩ :=
      follows.step tame plain forward (counted entry List.mem_cons_self) (calm [] entry rest rfl s rfl) applied
    obtain ⟨replacements, removals⟩ := Prod.mk.inj changes
    have calm' : ∀ before entry later, rest = before ++ entry :: later → ∀ mid, after.run before = .ok mid →
        Calm mid moved entry.2 := by
      intro before other later split mid ran
      have here := calm (entry :: before) other later (by rw [split]; rfl) mid (run_cons.mpr ⟨after, outcome, applied, ran⟩)
      unfold Calm at here ⊢
      rw [replacements, removals]
      exact here
    obtain ⟨tame'', last', ran, follows'', changes'⟩ := ih follows' tame' plain' (by rwa [replacements])
      (fun other member => counted other (List.mem_cons_of_mem _ member)) calm' done
    exact ⟨tame'', last', run_cons.mpr ⟨moved, outcome, applied', ran⟩, follows'', changes'.trans changes⟩

def commands (log : List (UInt64 × ScopedCommand)) : List Entry := log.map fun entry => (entry.1, entry.2.command)

def Ready (last : UInt64) (s : ClusterState) : Prop :=
  ∀ id c, s.controls.get id = some c → Restorable c ∧ c.appliedIndex ≤ last

theorem Ready.step {last : UInt64} (ready : Ready last s) (plain : s.changes = ([], []))
    (later : last < index) (sized : entry.command.sized)
    (named : entry.library = none → concernsVips entry.command = false)
    (done : s.applyEntry index entry = .ok (next, outcome)) : Ready index next := by
  obtain ⟨c, after, there, reconciled, rfl, rfl⟩ := applyEntry_ok.mp done
  rw [reconciled_plain plain] at reconciled
  cases reconciled
  obtain ⟨restorable, reached⟩ := ready _ c there
  have grown : (c.apply index entry.command).1.appliedIndex = index := by
    rcases c.apply_ledger index entry.command with same | ⟨_, _, _, _, _, _, _, _, _, same⟩
    · exact congrArg Prod.fst same
    · exact congrArg Prod.fst same
  have idle : copiesVips { s with controls := s.controls.insert (entry.library.getD s.defaultLibrary) (c.apply index entry.command).1 }
      (entry.library.getD s.defaultLibrary) entry (c.apply index entry.command).2 = false := by
    cases named' : entry.library with
    | none => simp [copiesVips, named named']
    | some library => simp [copiesVips, named']
  rw [copyVips, idle, if_neg Bool.false_ne_true]
  apply forall_insert
  · exact ⟨restorable.step (UInt64.lt_of_le_of_lt reached later) sized, by rw [grown]; exact UInt64.le_refl _⟩
  · exact fun id row old => ⟨(ready id row old).1, UInt64.le_trans (ready id row old).2 (UInt64.le_of_lt later)⟩

theorem Ready.run {last : UInt64} (ready : Ready last s) (plain : s.changes = ([], []))
    (ascending : Ascending last (commands log)) (sized : ∀ entry ∈ log, entry.2.command.sized)
    (named : ∀ entry ∈ log, entry.2.library = none → concernsVips entry.2.command = false) {after : ClusterState}
    (done : s.run log = .ok after) (found : after.controls.get id = some c) : Restorable c := by
  induction log generalizing s last with
  | nil =>
    cases done
    exact (ready id c found).1
  | cons entry rest ih =>
    obtain ⟨next, outcome, applied, done⟩ := run_cons.mp done
    have first := ready.step plain ascending.1 (sized entry List.mem_cons_self) (named entry List.mem_cons_self) applied
    refine ih first ?_ ascending.2 (fun other member => sized other (List.mem_cons_of_mem _ member))
      (fun other member => named other (List.mem_cons_of_mem _ member)) done
    exact (applyEntry_changes applied).trans plain

variable {Bytes : Type} (wire : Wire Bytes)

def Storable (s : ClusterState) : Prop := ∀ id c, s.controls.get id = some c → validSnapshot c.management

theorem restoreRows_ok {rows : List (String × ControlState)} (nodup : (rows.map Prod.fst).Nodup) {source : UInt64}
    (reads : ∀ row ∈ rows, decode wire (encode wire ⟨row.2, source, index⟩) = some ⟨row.2, source, index⟩)
    (orderly : ∀ row ∈ rows, Orderly row.2.management) (t : ClusterState) :
    ∃ last, restoreRows wire t (rows.map fun row => (row.1, controlRow wire source index row.2)) = .ok last ∧
      (last.defaultLibrary = t.defaultLibrary ∧ last.changes = t.changes) ∧
      (∀ row ∈ rows, ∃ after, t.reconciled row.1 row.2 = .ok after ∧ last.controls.get row.1 = some after) ∧
      ∀ id, id ∉ rows.map Prod.fst → last.controls.get id = t.controls.get id := by
  induction rows generalizing t with
  | nil => exact ⟨t, rfl, ⟨rfl, rfl⟩, nofun, fun _ _ => rfl⟩
  | cons row rest ih =>
    obtain ⟨id, c⟩ := row
    obtain ⟨fresh, nodup⟩ := List.nodup_cons.mp nodup
    have read : decode wire (wire.print (controlRow wire source index c)) = some ⟨c, source, index⟩ :=
      reads (id, c) List.mem_cons_self
    obtain ⟨after, carried⟩ := reconciled_ok (orderly (id, c) List.mem_cons_self) t id
    obtain ⟨last, restored, same, rows, others⟩ := ih nodup (fun row member => reads row (List.mem_cons_of_mem _ member))
      (fun row member => orderly row (List.mem_cons_of_mem _ member)) { t with controls := t.controls.insert id after }
    refine ⟨last, ?_, same, fun row member => ?_, fun other absent => ?_⟩
    · rw [List.map_cons, restoreRows, read]
      dsimp only
      rw [reconcile_insert, carried]
      exact restored
    · rcases List.mem_cons.mp member with rfl | member
      · refine ⟨after, carried, ?_⟩
        rw [others id fresh]
        show (t.controls.insert id after).get id = some after
        rw [get_insert, if_pos rfl]
      · exact rows row member
    · rw [List.map_cons, List.mem_cons, not_or] at absent
      rw [others other absent.2]
      show (t.controls.insert id after).get other = _
      rw [get_insert, if_neg absent.1]

theorem copyVips_keys (s : ClusterState) (scope : String) (entry : ScopedCommand) (outcome : Applied) (id : String) :
    ((s.copyVips scope entry outcome).controls.get id).isSome = (s.controls.get id).isSome := by
  unfold copyVips
  split
  · split
    · rename_i g _ gatewayAt
      rw [get_insert]
      split
      · rename_i same
        rw [same, gatewayAt]
        rfl
      · rfl
    · rfl
  · rfl

theorem run_keys (done : s.run log = .ok last) (id : String) :
    (last.controls.get id).isSome = (s.controls.get id).isSome ∧ last.defaultLibrary = s.defaultLibrary := by
  induction log generalizing s with
  | nil =>
    cases done
    exact ⟨rfl, rfl⟩
  | cons entry rest ih =>
    obtain ⟨after, outcome, applied, done⟩ := run_cons.mp done
    obtain ⟨c, reconciled, there, _, _, rfl⟩ := applyEntry_ok.mp applied
    obtain ⟨keys, default⟩ := ih done
    rw [keys, default, copyVips_keys, (copyVips_changes _ _ _ _).2]
    refine ⟨?_, rfl⟩
    show ((s.controls.insert _ reconciled).get id).isSome = _
    rw [get_insert]
    split
    · rename_i same
      rw [same, there]
      rfl
    · rfl

theorem restore_snapshot {config : LibrariesConfig} (default : s.defaultLibrary = config.defaultLibrary)
    (keys : ∀ id, (s.controls.get id).isSome = ((new config).controls.get id).isSome)
    (restorable : ∀ id c, s.controls.get id = some c → Restorable c) (storable : Storable s) (source index : UInt64) :
    ∃ t, restore wire config (s.snapshot wire source index) = .ok (t, source, index) ∧ Follows s t ∧
      t.changes = (new config).changes := by
  have reads : ∀ row ∈ s.controls.entries,
      decode wire (encode wire ⟨row.2, source, index⟩) = some ⟨row.2, source, index⟩ := by
    intro row member
    have there := mem_entries.mp member
    rw [(restorable row.1 row.2 there).decode, if_pos (storable row.1 row.2 there)]
  obtain ⟨t, restored, ⟨default', changes⟩, rows, others⟩ := restoreRows_ok wire s.controls.keys_nodup reads
    (fun row member => (restorable row.1 row.2 (mem_entries.mp member)).management) (new config)
  refine ⟨t, ?_, ⟨default'.trans default.symm, fun id c found => ?_, fun id absent => ?_⟩, changes⟩
  · have names : (s.controls.entries.map fun entry => (entry.1, controlRow wire source index entry.2)).map Prod.fst =
        s.controls.entries.map Prod.fst := by rw [List.map_map]; rfl
    have complete : lacksOnlyAdded config index ((new config).controls.entries.map Prod.fst)
        ((s.controls.entries.map fun entry => (entry.1, controlRow wire source index entry.2)).map Prod.fst) := by
      have present : ∀ id, id ∈ (new config).controls.entries.map Prod.fst ↔
          id ∈ s.controls.entries.map Prod.fst := by
        intro id
        rw [mem_keys, mem_keys, keys]
      rw [names, lacksOnlyAdded, Bool.and_eq_true, List.all_eq_true, List.all_eq_true]
      refine ⟨fun id member => decide_eq_true ((present id).mpr member), fun id member => ?_⟩
      rw [decide_eq_true ((present id).mp member), Bool.true_or]
    simp [-List.map_map, restore, snapshot, wire.parse_print, field, get_ofFields, find_cons, isNumber, isText,
      asNumber, asString, asObject, default, complete, restored, bind, Except.bind, pure, Except.pure]
  · obtain ⟨after, carried, here⟩ := rows (id, c) (mem_entries.mpr found)
    exact ⟨after, (reconciled_congr changes id c).trans carried, here⟩
  · have missing : id ∉ s.controls.entries.map Prod.fst := by
      rw [mem_keys, absent]
      exact Bool.false_ne_true
    have none' := keys id
    rw [absent] at none'
    rw [others id missing]
    exact isSome_eq_false_iff.mp none'.symm |> isNone_iff_eq_none.mp

theorem new_controls {config : LibrariesConfig} (found : (new config).controls.get id = some c) :
    c = {} := by
  have grows : ∀ (ids : List String) (controls : SortedMap String ControlState),
      (∀ id c, controls.get id = some c → c = {}) →
        ∀ id c, (ids.foldl (fun controls id => controls.insert id {}) controls).get id = some c → c = {} := by
    intro ids
    induction ids with
    | nil => exact fun controls known => known
    | cons next rest ih =>
      exact fun controls known => ih (controls.insert next {}) (forall_insert rfl known)
  exact grows (config.libraries ++ [gateway]) .empty nofun id c found

theorem follows_new {old new : LibrariesConfig}
    (changed : new = { old with driveReplacements := new.driveReplacements, driveRemovals := new.driveRemovals }) :
    Follows (ClusterState.new old) (ClusterState.new new) := by
  have same : (ClusterState.new new).controls = (ClusterState.new old).controls := by rw [changed]; rfl
  refine ⟨by rw [changed]; rfl, fun id c found => ⟨c, ?_, same ▸ found⟩, fun id absent => same ▸ absent⟩
  obtain rfl := new_controls found
  have settled : Settled (new.driveReplacements.filter fun r => r.library = id) (new.driveRemovals.filter fun r => r.library = id)
      .null := ⟨fun _ _ => ⟨rfl, rfl⟩, fun _ _ => ⟨⟨rfl, rfl⟩, rfl⟩⟩
  have thawed : ¬({} : ControlState).catalogFrozenIndex.isSome := Bool.false_ne_true
  exact (reconciled_thawed thawed).trans (congrArg (Except.map ({} : ControlState).managing) settled.migrate)

end ClusterState

open ClusterState Management in
/-- A node that is restarted after drives were changed, from a snapshot taken before, reaches the state of one that applies the
    whole log with the changes on record. -/
theorem replicas_converge {Bytes : Type} (wire : Wire Bytes) {old new : LibrariesConfig}
    (changed : new = { old with driveReplacements := new.driveReplacements, driveRemovals := new.driveRemovals })
    (first : old.driveReplacements = [] ∧ old.driveRemovals = [])
    (forward : ∀ id, Forward (new.driveReplacements.filter fun r => r.library = id)) {log : List (UInt64 × ScopedCommand)}
    (ascending : Ascending 0 (commands log)) (sized : ∀ entry ∈ log, entry.2.command.sized) {n : Nat}
    (calm : ∀ k < n, ∀ entry ∈ log[k]?, ∀ s, (ClusterState.new old).run (log.take k) = .ok s →
      Calm s (ClusterState.new new) entry.2)
    {i : Nat} (early : i ≤ n) (named : ∀ entry ∈ log.take i, entry.2.library = none → concernsVips entry.2.command = false)
    {s : ClusterState} (taken : (ClusterState.new old).run (log.take i) = .ok s) (storable : Storable s) (source index : UInt64) :
    ∃ t, restore wire new (s.snapshot wire source index) = .ok (t, source, index) ∧
      t.run (log.drop i) = (ClusterState.new new).run log := by
  have rising : Ascending 0 (commands (log.take i)) := by
    rw [commands, ← List.take_append_drop i log, List.map_append] at ascending
    exact (ascending_append.mp ascending).1
  have counted : ∀ entry ∈ log.take i, 0 < entry.1 := by
    intro entry member
    exact rising.behind (List.mem_map.mpr ⟨entry, member, rfl⟩)
  have calm' : ∀ before entry after, log.take i = before ++ entry :: after → ∀ mid, (ClusterState.new old).run before = .ok mid →
      Calm mid (ClusterState.new new) entry.2 := by
    intro before entry after split mid done
    have whole : log = before ++ entry :: (after ++ log.drop i) := by
      conv_lhs => rw [← List.take_append_drop i log, split, List.append_assoc, List.cons_append]
    have short : before.length < i := by
      have length := congrArg List.length split
      rw [List.length_take, List.length_append, List.length_cons] at length
      omega
    refine calm before.length (Nat.lt_of_lt_of_le short early) entry ?_ mid ?_
    · rw [whole]
      simp
    · rw [whole, List.take_left]
      exact done
  have start : Ready 0 (ClusterState.new old) := by
    intro id c found
    rw [new_controls found]
    exact ⟨.start, UInt64.le_refl _⟩
  have restorable : ∀ id c, s.controls.get id = some c → Restorable c := fun id c found =>
    start.run (Prod.ext first.1 first.2) rising (fun entry member => sized entry (List.mem_of_mem_take member)) named taken found
  have plain : (ClusterState.new old).changes = ([], []) := Prod.ext first.1 first.2
  obtain ⟨_, t', ran, follows, changes⟩ := (follows_new changed).run
    (fun id c found => (start id c found).1.management) plain forward counted calm' taken
  have default : s.defaultLibrary = new.defaultLibrary := by
    rw [(run_keys taken "").2, changed]
    rfl
  have keys : ∀ id, (s.controls.get id).isSome = ((ClusterState.new new).controls.get id).isSome := by
    intro id
    rw [(run_keys taken id).1, changed]
    rfl
  obtain ⟨t, restored, follows', changes'⟩ := restore_snapshot wire default keys restorable storable source index
  obtain rfl := follows.unique follows' (changes'.trans changes.symm)
  refine ⟨t, restored, ?_⟩
  conv_rhs => rw [← List.take_append_drop i log, ClusterState.run, List.foldlM_append]
  rw [ClusterState.run] at ran
  rw [ran]
  rfl

def replacedDrive : LibrariesConfig :=
  { defaultLibrary := "L1", libraries := ["L1"], driveReplacements := [⟨"L1", "da", "db"⟩] }

def beforeReplacement : LibrariesConfig := { defaultLibrary := "L1", libraries := ["L1"] }

def disabledDrive : List (UInt64 × ScopedCommand) :=
  [(1, .candidate 1 1 1 "g" 1 true), (2, .assignExecutor 1 1 1 none "g"), (3, .fenced 1 2), (4, .executorReady 1 2),
    (5, .manage (.ofFields [("resource", .string "libraries"), ("action", .string "rescan"), ("target", .string ""),
      ("params", .object [])])),
    (6, .managementReport 5 2 "running" .null),
    (7, .managementReport 5 2 "success" (.ofFields [("inventory", .ofFields
      [("owner", .number 1), ("round", .number 2), ("drives", .array [.ofFields [("serial", .string "da")]])])])),
    (8, .manage (.ofFields [("resource", .string "drives"), ("action", .string "down"), ("target", .string "da"),
      ("params", .object [])])),
    (9, .managementReport 8 2 "running" .null), (10, .managementReport 8 2 "success" .null)].map
    fun entry => (entry.1, ⟨some "L1", entry.2⟩)

open ClusterState Management in
theorem replicas_converge_scanned : ∃ s t, (ClusterState.new beforeReplacement).run (disabledDrive.take 7) = .ok s ∧
    restore valueWire replacedDrive (s.snapshot valueWire 1 7) = .ok (t, 1, 7) ∧
    t.run (disabledDrive.drop 7) = (ClusterState.new replacedDrive).run disabledDrive := by
  have ran : ((new beforeReplacement).run (disabledDrive.take 7)).toOption.any fun s =>
      s.controls.entries.all fun row => validSnapshot row.2.management := by decide +kernel
  have checked : ∀ k < 7, (disabledDrive[k]?).all fun entry =>
      ((new beforeReplacement).run (disabledDrive.take k)).toOption.all fun s =>
        decide (Calm s (new replacedDrive) entry.2) := by decide +kernel
  have forward : ∀ id, Forward (replacedDrive.driveReplacements.filter fun r => r.library = id) := by
    intro id
    by_cases library : "L1" = id
    · simp [replacedDrive, library, Forward]
    · simp [replacedDrive, library, Forward]
  cases taken : (new beforeReplacement).run (disabledDrive.take 7) with
  | error reason =>
    rw [taken] at ran
    cases ran
  | ok s =>
    rw [taken] at ran
    have storable : Storable s := fun id c found =>
      List.all_eq_true.mp ran (id, c) (mem_entries.mpr found)
    have calm : ∀ k < 7, ∀ entry ∈ disabledDrive[k]?, ∀ s,
        (new beforeReplacement).run (disabledDrive.take k) = .ok s →
          Calm s (new replacedDrive) entry.2 := by
      intro k short entry there s done
      have here := checked k short
      rw [mem_def.mp there, done] at here
      exact of_decide_eq_true here
    obtain ⟨t, restored, converged⟩ := replicas_converge valueWire rfl ⟨rfl, rfl⟩ forward (by decide)
      (by simp [disabledDrive, Command.sized]) calm (Nat.le_refl 7) (by simp [disabledDrive]) taken storable 1 7
    exact ⟨s, t, rfl, restored, converged⟩

/-- A node that restores the snapshot behind the whole log keeps the new drive disabled, as the old one was; one that applies the
    log again refuses the request, since by then the inventory that lists the old drive is gone. -/
theorem disabled_drive_diverges : ∃ s restored replayed, (ClusterState.new beforeReplacement).run disabledDrive = .ok s ∧
    ClusterState.restore valueWire replacedDrive (s.snapshot valueWire 1 10) = .ok (restored, 1, 10) ∧
    (ClusterState.new replacedDrive).run disabledDrive = .ok replayed ∧ restored ≠ replayed := by
  have different : ((new beforeReplacement).run disabledDrive).toOption.any fun s =>
      (restore valueWire replacedDrive (s.snapshot valueWire 1 10)).toOption.any fun restored =>
        ((new replacedDrive).run disabledDrive).toOption.any fun replayed => restored.2 = (1, 10) &&
          (restored.1.controls.get "L1").any (fun c => (policy c.management "db").isSome) &&
            !(replayed.controls.get "L1").any (fun c => (policy c.management "db").isSome) := by decide +kernel
  cases before : (new beforeReplacement).run disabledDrive with
  | error reason =>
    rw [before] at different
    cases different
  | ok s =>
    rw [before] at different
    cases restore : restore valueWire replacedDrive (s.snapshot valueWire 1 10) with
    | error reason =>
      simp [Except.toOption, restore] at different
    | ok restored =>
      cases replay : (new replacedDrive).run disabledDrive with
      | error reason =>
        simp [Except.toOption, restore, replay] at different
      | ok replayed =>
        simp only [Except.toOption, restore, replay, any_some, Bool.and_eq_true, decide_eq_true_eq, Bool.not_eq_true'] at different
        obtain ⟨⟨indexes, here⟩, gone⟩ := different
        obtain ⟨state, rest⟩ := restored
        cases indexes
        refine ⟨s, state, replayed, rfl, restore, rfl, fun same => ?_⟩
        rw [← same, here] at gone
        cases gone

end TapeRs.Daemon
