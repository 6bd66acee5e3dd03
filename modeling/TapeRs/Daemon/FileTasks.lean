import TapeRs.Daemon.DirectoryStages

namespace TapeRs.Daemon

open Result SortedMap Directory

namespace TaskTable

def Rounds (tasks : TaskTable) : Prop := ∀ key row, tasks.get key = some row → 0 ≤ row.round

def Leaves (tasks : TaskTable) (index : UInt64) : Prop :=
  ∃ key row, tasks.get key = some row ∧ row.round < index.toNat ∧ row.status = .staged

variable {tasks after : TaskTable}

theorem get_doubt (tasks : TaskTable) (index : UInt64) (key : String ×ₗ Int) :
    (tasks.doubt index).get key = (tasks.get key).map fun row =>
      if row.status = .staged ∧ row.round < Word.signed index then
        { row with status := .indeterminate, reason := "设备 owner 已变更；请查询文件路径确认提交结果" }
      else row :=
  get_map ..

theorem record_cases {cmd : Command} (recorded : tasks.record cmd = .ok after) :
    after = tasks ∨ (∃ key row, tasks.get key = none ∧ 0 ≤ row.round ∧ after = tasks.insert key row) ∨
      ∃ change : String ×ₗ Int → TaskRow → TaskRow, after = tasks.map change ∧
        ∀ key row, (change key row).round = row.round ∧ (row.status ≠ .staged → change key row = row) := by
  unfold record at recorded
  split at recorded
  · rename_i task round pool path status generation reason
    split at recorded
    · cases recorded
    rename_i bounds
    simp only [not_or, UInt64.not_lt] at bounds
    split at recorded
    · cases recorded
      unfold stage
      split
      · exact .inl rfl
      rename_i free
      have fits : Word.Fits round := by
        have small := UInt64.le_iff_toNat_le.mp bounds.2.1
        have most : Management.maxSigned.toNat = 2 ^ 63 - 1 := rfl
        unfold Word.Fits
        omega
      refine .inr (.inl ⟨_, _, ?_, ?_, rfl⟩)
      · simpa [contains] using free
      · rw [Word.signed_of_fits fits]
        exact Int.natCast_nonneg _
    · cases recorded
      refine .inr (.inr ⟨_, rfl, ?_⟩)
      intro key row
      constructor
      · split <;> rfl
      · intro ended
        rw [if_neg]
        exact fun staged => ended staged.2.2.2
    · cases recorded
  · cases recorded
    exact .inl rfl

theorem changeOwner_cases (tasks : TaskTable) (index : UInt64) (cmd : Command) (outcome : Applied) :
    tasks.changeOwner index cmd outcome = tasks ∨ tasks.changeOwner index cmd outcome = tasks.doubt index := by
  unfold changeOwner
  split
  · exact .inr rfl
  · exact .inr rfl
  · exact .inl rfl

/-- Tasks that have ended stay as they are, and rounds stay numbers of rounds. -/
structure Advances (tasks after : TaskTable) : Prop where
  rounds : tasks.Rounds → after.Rounds
  ended : ∀ key row, tasks.get key = some row → row.status ≠ .staged → after.get key = some row

theorem Advances.refl (tasks : TaskTable) : tasks.Advances tasks := ⟨id, fun _ _ there _ => there⟩

theorem Advances.trans {first second third : TaskTable} (one : first.Advances second) (two : second.Advances third) :
    first.Advances third :=
  ⟨fun rounds => two.rounds (one.rounds rounds),
    fun key row there ended => two.ended key row (one.ended key row there ended) ended⟩

theorem advances_map {change : String ×ₗ Int → TaskRow → TaskRow}
    (keeps : ∀ key row, (change key row).round = row.round ∧ (row.status ≠ .staged → change key row = row)) :
    tasks.Advances (tasks.map change) := by
  constructor
  · intro rounds key row there
    rw [get_map] at there
    obtain ⟨old, found, rfl⟩ := Option.map_eq_some_iff.mp there
    rw [(keeps key old).1]
    exact rounds key old found
  · intro key row there ended
    rw [get_map, there, Option.map_some, (keeps key row).2 ended]

theorem advances_doubt (tasks : TaskTable) (index : UInt64) : tasks.Advances (tasks.doubt index) := by
  refine advances_map ?_
  intro key row
  constructor
  · split <;> rfl
  · intro ended
    rw [if_neg]
    exact fun staged => ended staged.1

theorem advances_record {cmd : Command} (recorded : tasks.record cmd = .ok after) : tasks.Advances after := by
  rcases record_cases recorded with rfl | ⟨key, row, free, valid, rfl⟩ | ⟨change, rfl, keeps⟩
  · exact .refl _
  · constructor
    · exact forall_insert valid
    · intro other found there _
      rw [get_insert, if_neg]
      · exact there
      · rintro rfl
        rw [free] at there
        cases there
  · exact advances_map keeps

theorem advances_changeOwner (tasks : TaskTable) (index : UInt64) (cmd : Command) (outcome : Applied) :
    tasks.Advances (tasks.changeOwner index cmd outcome) := by
  rcases changeOwner_cases tasks index cmd outcome with same | doubted
  · rw [same]
    exact .refl tasks
  · rw [doubted]
    exact advances_doubt tasks index

theorem doubt_leaves {index : UInt64} (fits : Word.Fits index) : ¬(tasks.doubt index).Leaves index := by
  rintro ⟨key, row, there, early, staged⟩
  rw [get_doubt] at there
  obtain ⟨old, _, rfl⟩ := Option.map_eq_some_iff.mp there
  split at early
  · rename_i doubted
    rw [if_pos doubted] at staged
    cases staged
  · rename_i kept
    rw [if_neg kept] at staged
    rw [Word.signed_of_fits fits] at kept
    exact kept ⟨staged, early⟩

theorem doubt_same {index : UInt64} (rounds : tasks.Rounds) (large : ¬Word.Fits index) (key : String ×ₗ Int) :
    (tasks.doubt index).get key = tasks.get key := by
  rw [get_doubt]
  cases found : tasks.get key with
  | none => rfl
  | some row =>
    have round := rounds key row found
    have bound := index.toNat_lt
    have early : ¬row.round < Word.signed index := by
      unfold Word.Fits at large
      unfold Word.signed
      rw [if_neg large]
      omega
    rw [Option.map_some, if_neg (fun doubted => early doubted.2)]

end TaskTable

namespace ControlState

theorem newExecutor_command {c : ControlState} {index : UInt64} {cmd : Command} {e : Executor}
    (started : (c.apply index cmd).2 = .newExecutor e) :
    (∃ node term, cmd = .takeover node term) ∨
      (∃ node inst term expected group, cmd = .assignExecutor node inst term expected group) ∨
      ∃ node inst term round expected idle group, cmd = .rebalanceExecutor node inst term round expected idle group := by
  have kept : ∀ {run : ControlState × Applied}, ((c.advanced index).guarded cmd run).2 = .newExecutor e →
      run.2 = .newExecutor e := by
    intro run started
    unfold guarded at started
    split at started
    · cases started
    · exact started
  have moves : ¬sparesExecutor cmd := by
    intro spares
    have plain := (c.apply_steady index spares).plain
    rw [started] at plain
    exact plain
  cases cmd with
  | takeover => exact .inl ⟨_, _, rfl⟩
  | assignExecutor => exact .inr (.inl ⟨_, _, _, _, _, rfl⟩)
  | rebalanceExecutor => exact .inr (.inr ⟨_, _, _, _, _, _, _, rfl⟩)
  | fenced =>
    have run := kept started
    simp only [confirmFence] at run
    split at run
    · split at run <;> cases run
    · cases run
  | abandoned =>
    have run := kept started
    simp only [abandon] at run
    split at run <;> cases run
  | executorReport =>
    have run := kept started
    dsimp only at run
    split at run
    · cases run
    · split at run
      · split at run <;> cases run
      · cases run
  | executorReady | candidate => cases kept started
  | _ => exact absurd rfl moves

end ControlState

namespace Node

variable {plan : UInt64 → Plan} {log : List Entry} {n next : Node} {entry : Entry}

theorem apply_advances (fresh : n.directory.applied < entry.1) (done : n.apply plan entry = .ok next) :
    n.directory.fileTasks.Advances next.directory.fileTasks := by
  obtain ⟨_, written⟩ := apply_ok done
  rw [apply_unwrap] at written
  rcases applyDirect_fileTasks fresh written with ⟨_, same⟩ | recorded
  · rw [same]
    exact .refl _
  · exact (TaskTable.advances_changeOwner ..).trans (TaskTable.advances_record recorded)

theorem replay_advances {more : List Entry} {later : Node} (ascending : Ascending 0 (log ++ more))
    (ran : replay plan log = .ok n) (ranOn : replay plan (log ++ more) = .ok later) :
    n.directory.fileTasks.Advances later.directory.fileTasks := by
  induction more using List.reverseRecOn generalizing later with
  | nil =>
    rw [List.append_nil, ran] at ranOn
    cases ranOn
    exact .refl _
  | append_singleton more entry ih =>
    rw [← List.append_assoc] at ascending ranOn
    rw [replay_snoc] at ranOn
    obtain ⟨before, last, _⟩ := ascending_append.mp ascending
    obtain ⟨prior, ranBefore, done⟩ := bind_ok.mp ranOn
    have applied := (replay_ok before ranBefore).2
    exact (ih before ranBefore).trans (apply_advances (applied ▸ last) done)

theorem replay_rounds (ascending : Ascending 0 log) (ran : replay plan log = .ok n) : n.directory.fileTasks.Rounds := by
  have start : (replay plan [] : Result Node) = .ok {} := rfl
  have whole : replay plan ([] ++ log) = .ok n := ran
  have sorted : Ascending 0 ([] ++ log) := ascending
  exact (replay_advances sorted start whole).rounds nofun

def stagesTask : List Entry :=
  [(1, .candidate 1 1 1 "lib" 1 true), (2, .candidate 2 2 1 "lib" 1 true), (3, .assignExecutor 1 1 1 none "lib"),
   (4, .executorReport 1 1 3 1 (.fenced 1 3)), (5, .executorReport 1 1 3 2 (.executorReady 1 3)),
   (6, .executorReport 1 1 3 3 (.fileTask 9 3 "pool" "/a" "staged" none "")),
   (7, .executorReport 1 1 3 4 (.deviceActivity 1 false))]

def stagedTask : TaskRow := { round := 3, path := "/a", status := .staged, generation := none, reason := "" }

theorem leaves_stagedTask {tasks : TaskTable} (there : tasks.get (toLex ("pool", 9)) = some stagedTask) : tasks.Leaves 8 :=
  ⟨_, _, there, by decide, rfl⟩

end Node

end TapeRs.Daemon
