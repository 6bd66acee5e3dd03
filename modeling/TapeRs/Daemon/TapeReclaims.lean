import TapeRs.Daemon.Records

namespace TapeRs.Daemon

open Management ControlState Directory

variable {barcode : String} {log : List Entry}

theorem TapeStatus.text_of_parse {text : String} {status : TapeStatus} (parsed : parse text = some status) :
    status.text = text := by
  have found := List.find?_some parsed
  simpa using found

/-- The command takes the tape out of its pool: directly, or as the end of a task. -/
def Leaves (c : ControlState) (barcode : String) (cmd : Command) : Prop :=
  cmd = .tapeUnassign barcode ∨ ∃ id round phase result task, cmd = .managementReport id round phase result ∧
    (c.management.field "tasks").get (Text.decimal id) = some task ∧
    requestText (task.field "request") "resource" = "tapes" ∧ requestText (task.field "request") "action" = "unassign" ∧
    requestText (task.field "request") "target" = barcode

/-- What a command can do to the state and the summary of a tape. -/
inductive TapeStep (c : ControlState) (barcode : String) (after : Records) : Command × Applied → Prop
  | same {effect : Command × Applied} (other : ∀ volumeUuid, effect ≠ (.tapeReclaimed barcode volumeUuid, .reclaimed))
      (state : after.tapeState.get barcode = c.tapeState.get barcode)
      (summary : after.tapeSummary.get barcode = c.tapeSummary.get barcode) : TapeStep c barcode after effect
  | leave {effect : Command × Applied} (leaves : Leaves c barcode effect.1) (tapes : after.tapes.get barcode = none)
      (state : after.tapeState.get barcode = none) (summary : after.tapeSummary.get barcode = none) :
      TapeStep c barcode after effect
  | report {text : String} {status : TapeStatus} (parsed : TapeStatus.parse text = some status)
      (allowed : status = .reformatting → c.tapeState.get barcode = some .reclaiming)
      (state : after.tapeState.get barcode = some status)
      (summary : after.tapeSummary.get barcode = c.tapeSummary.get barcode) :
      TapeStep c barcode after (.tapeState barcode text, .nothing)
  | start {reply : Reply} (state : after.tapeState.get barcode = some .reclaiming)
      (summary : after.tapeSummary.get barcode = c.tapeSummary.get barcode) :
      TapeStep c barcode after (.tapeReclaim barcode, .admin (.ok reply))
  | reclaimed {volumeUuid : String} (reclaims : (c.tapeState.get barcode).any (·.inReclaim))
      (state : after.tapeState.get barcode = some .appendable)
      (summary : after.tapeSummary.get barcode =
        some { volumeUuid, generation := 1, files := 0, bytesUsed := 0, bytesWritten := 0 }) :
      TapeStep c barcode after (.tapeReclaimed barcode volumeUuid, .reclaimed)
  | commit {volumeUuid : String} {generation files bytesUsed bytesWritten : UInt64} {parts : UInt32} {full : Bool}
      (newer : ∀ s, c.tapeSummary.get barcode = some s → s.generation ≤ generation)
      (state : after.tapeState.get barcode = c.tapeState.get barcode)
      (summary : after.tapeSummary.get barcode = some { volumeUuid, generation, files, bytesUsed, bytesWritten }) :
      TapeStep c barcode after
        (.tapeCommitted barcode volumeUuid generation files bytesUsed bytesWritten parts full, .catalogCommitted)

namespace ControlState

variable (c : ControlState) (index : UInt64) (barcode : String)

theorem setTapeState_step (target text : String) :
    TapeStep c barcode (c.setTapeState index target text).records (.tapeState target text, .nothing) := by
  unfold setTapeState
  split
  · exact .same nofun rfl rfl
  rename_i status parsed
  split
  · rename_i allowed
    obtain ⟨m, only⟩ : ∃ m, (if status = .reformatting then
        invalidateCapacity c target "磁带即将重新格式化" index else c) = { c with management := m } := by
      split
      · obtain ⟨m, _, only⟩ := invalidateCapacity_only c target "磁带即将重新格式化" index
        exact ⟨m, only⟩
      · exact ⟨c.management, rfl⟩
    dsimp only
    rw [only]
    by_cases here : barcode = target
    · subst here
      exact .report parsed allowed.2 (by simp [records]) rfl
    · exact .same nofun (by simp [records, here]) rfl
  · exact .same nofun rfl rfl

theorem tapeReclaimed_step (target volumeUuid : String) :
    TapeStep c barcode (c.tapeReclaimed index target volumeUuid).1.records
      (.tapeReclaimed target volumeUuid, (c.tapeReclaimed index target volumeUuid).2) := by
  unfold tapeReclaimed
  split
  · rename_i reclaims
    obtain ⟨m, _, only⟩ := invalidateOtherVolume_only c target volumeUuid index
    dsimp only
    rw [only]
    by_cases here : barcode = target
    · subst here
      exact .reclaimed reclaims (by simp [records]) (by simp [records])
    refine .same ?_ (by simp [records, here]) (by simp [records, here])
    intro _ same
    injection same with same
    injection same with same
    exact here same.symm
  · exact .same nofun rfl rfl

theorem tapeCommitted_step (target volumeUuid : String) (generation files bytesUsed bytesWritten : UInt64) (parts : UInt32)
    (full : Bool) :
    TapeStep c barcode (c.tapeCommitted index target volumeUuid generation files bytesUsed bytesWritten).1.records
      (.tapeCommitted target volumeUuid generation files bytesUsed bytesWritten parts full,
        (c.tapeCommitted index target volumeUuid generation files bytesUsed bytesWritten).2) := by
  unfold tapeCommitted
  dsimp only
  split
  · rename_i accepted
    obtain ⟨m, only⟩ : ∃ m, (if (c.tapeSummary.get target).any (fun s => s.volumeUuid ≠ volumeUuid) then
        invalidateOtherVolume c target volumeUuid index else c) = { c with management := m } := by
      split
      · obtain ⟨m, _, only⟩ := invalidateOtherVolume_only c target volumeUuid index
        exact ⟨m, only⟩
      · exact ⟨c.management, rfl⟩
    rw [only]
    by_cases here : barcode = target
    · subst here
      refine .commit ?_ rfl (by simp [records])
      intro s there
      have newer := (Bool.and_eq_true_iff.mp accepted).2
      rw [there] at newer
      exact of_decide_eq_true newer
    · exact .same nofun rfl (by simp [records, here])
  · exact .same nofun rfl rfl

theorem managementReport_step (id round : UInt64) (phase : String) (result : Json.Value) :
    TapeStep c barcode (c.managementReport id round phase result).1.records
      (.managementReport id round phase result, (c.managementReport id round phase result).2) := by
  obtain ⟨m, pools, tapes, only | ⟨task, _, there, rfl, resource, action, only⟩⟩ :=
    c.managementReport_frame id round phase result
  · rw [only]
    exact .same nofun rfl rfl
  · rw [only]
    by_cases here : barcode = requestText (task.field "request") "target"
    · exact .leave (.inr ⟨id, round, phase, result, task, rfl, there, resource, action, here.symm⟩) (by simp [records, here])
        (by simp [records, here]) (by simp [records, here])
    · exact .same nofun (by simp [records, here]) (by simp [records, here])

end ControlState

theorem Effect.tape {index : UInt64} {c : ControlState} {effect : Command × Applied} {after : Records}
    (has : Effect index c effect after) (barcode : String) : TapeStep c barcode after effect := by
  have kept := has.kept
  cases has with
  | same idle =>
    refine .same ?_ rfl rfl
    rintro _ ⟨⟩
    cases idle
  | relieve _ ends =>
    obtain ⟨m, only⟩ := interrupt_only c
    rw [only]
    refine .same ?_ rfl rfl
    rintro _ ⟨⟩
    cases ends
  | state target text => exact c.setTapeState_step index barcode target text
  | reclaimed target volumeUuid => exact c.tapeReclaimed_step index barcode target volumeUuid
  | commit target volumeUuid generation files bytesUsed bytesWritten parts full =>
    exact c.tapeCommitted_step index barcode target volumeUuid generation files bytesUsed bytesWritten parts full
  | report id round phase result => exact c.managementReport_step barcode id round phase result
  | unassign target =>
    rcases c.tapeUnassign_cases target with ⟨_, same⟩ | ⟨_, _, _, _, _, unassigned⟩
    · rw [same]
      exact .same nofun rfl rfl
    rw [unassigned]
    by_cases here : barcode = target
    · subst here
      exact .leave (.inl rfl) (by simp [records]) (by simp [records])
        (by simp [records])
    · exact .same nofun (by simp [records, here]) (by simp [records, here])
  | reclaim target =>
    rcases c.tapeReclaim_cases target with ⟨_, same⟩ | ⟨_, started⟩
    · rw [same]
      exact .same nofun rfl rfl
    rw [started]
    by_cases here : barcode = target
    · subst here
      exact .start (by simp [records]) rfl
    · exact .same nofun (by simp [records, here]) rfl
  | quiesce | resume | freeze | acquire | release | manage | observe | create | assign =>
    obtain ⟨states, summary⟩ := kept.tapes rfl
    exact .same nofun (by rw [states]) (by rw [summary])

/-- The command starts a reclaim of the tape, or reports that one is under way. -/
def Command.startsReclaim (barcode : String) : Command → Bool
  | .tapeReclaim target => target = barcode
  | .tapeState target text => target = barcode && text = "reclaiming"
  | .executorReport _ _ _ _ command => command.startsReclaim barcode
  | _ => false

theorem TapeStep.inReclaim {c : ControlState} {after : Records} {effect : Command × Applied}
    (step : TapeStep c barcode after effect) (reclaims : (after.tapeState.get barcode).any (·.inReclaim)) :
    (c.tapeState.get barcode).any (·.inReclaim) ∨ effect.1.startsReclaim barcode := by
  cases step with
  | same _ state _ | commit _ state _ => exact .inl (state ▸ reclaims)
  | leave _ _ state _ =>
    rw [state] at reclaims
    cases reclaims
  | @report text status parsed allowed state _ =>
    rw [state] at reclaims
    simp only [Option.any_some, TapeStatus.inReclaim, Bool.or_eq_true, decide_eq_true_eq] at reclaims
    rcases reclaims with rfl | rfl
    · right
      rw [← TapeStatus.text_of_parse parsed]
      simp [Command.startsReclaim, TapeStatus.text]
    · rw [allowed rfl]
      exact .inl rfl
  | start => exact .inr (by simp [Command.startsReclaim])
  | reclaimed _ state _ =>
    rw [state] at reclaims
    cases reclaims

def Reclaims (log : List Entry) (entry : Entry) (barcode volumeUuid : String) : Prop :=
  Directory.unwrap entry.2 (outcome log entry) = (.tapeReclaimed barcode volumeUuid, .reclaimed)

theorem replay_tape (log : List Entry) (entry : Entry) (barcode : String) :
    TapeStep (replay log) barcode (replay (log ++ [entry])).records (unwrap entry.2 (outcome log entry)) := by
  obtain ⟨sequence, effect⟩ := replay_effect log entry
  have step := effect.tape barcode
  generalize unwrap entry.2 (outcome log entry) = unwrapped at step
  cases step with
  | same other state summary => exact .same other state summary
  | leave leaves tapes state summary => exact .leave leaves tapes state summary
  | report parsed allowed state summary => exact .report parsed allowed state summary
  | start state summary => exact .start state summary
  | reclaimed reclaims state summary => exact .reclaimed reclaims state summary
  | commit newer state summary => exact .commit newer state summary

theorem Reclaims.before {entry : Entry} {volumeUuid : String} (reclaims : Reclaims log entry barcode volumeUuid) :
    ((replay log).tapeState.get barcode).any (·.inReclaim) := by
  have step := replay_tape log entry barcode
  rw [reclaims] at step
  cases step with
  | same other => exact absurd rfl (other _)
  | leave leaves =>
    rcases leaves with same | ⟨_, _, _, _, _, same, _⟩
    · cases same
    · cases same
  | reclaimed reclaims => exact reclaims

theorem Reclaims.after {entry : Entry} {volumeUuid : String} (reclaims : Reclaims log entry barcode volumeUuid) :
    (replay (log ++ [entry])).tapeState.get barcode = some .appendable := by
  have step := replay_tape log entry barcode
  rw [reclaims] at step
  cases step with
  | same other => exact absurd rfl (other _)
  | leave leaves =>
    rcases leaves with same | ⟨_, _, _, _, _, same, _⟩
    · cases same
    · cases same
  | reclaimed _ state => exact state

theorem settled_kept {more : List Entry} (settled : ((replay log).tapeState.get barcode).any (·.inReclaim) = false)
    (quiet : ∀ entry ∈ more, entry.2.startsReclaim barcode = false) :
    ((replay (log ++ more)).tapeState.get barcode).any (·.inReclaim) = false := by
  induction more using List.reverseRecOn with
  | nil => simpa using settled
  | append_singleton more entry ih =>
    have before := ih fun earlier member => quiet earlier (List.mem_append_left _ member)
    have last := quiet entry (List.mem_append_right _ (List.mem_singleton_self _))
    have inner : !(unwrap entry.2 (outcome (log ++ more) entry)).1.startsReclaim barcode :=
      @Directory.unwrap_holds (fun cmd => !cmd.startsReclaim barcode) (fun _ _ _ _ _ => rfl) _ _ (by simp [last])
    rw [← List.append_assoc, ← Bool.not_eq_true]
    intro reclaims
    rcases (replay_tape (log ++ more) entry barcode).inReclaim reclaims with held | starts
    · rw [before] at held
      cases held
    · rw [starts] at inner
      cases inner

/-- Generations and reclaims of a tape along every log; a late duplicate does nothing as long as no new reclaim of the
    tape has begun. -/
theorem reclaim_discipline (barcode : String) :
    (∀ log entry s, (replay log).tapeSummary.get barcode = some s →
      (∃ s', (replay (log ++ [entry])).tapeSummary.get barcode = some s' ∧ s.generation ≤ s'.generation) ∨
      (∃ volumeUuid, Reclaims log entry barcode volumeUuid) ∨
      (Leaves (replay log) barcode (Directory.unwrap entry.2 (outcome log entry)).1 ∧
        (replay (log ++ [entry])).tapes.get barcode = none)) ∧
    (∀ log entry volumeUuid, (Directory.unwrap entry.2 (outcome log entry)).1 = .tapeReclaimed barcode volumeUuid →
      (Reclaims log entry barcode volumeUuid ∧ ((replay log).tapeState.get barcode = some .reclaiming ∨
        (replay log).tapeState.get barcode = some .reformatting)) ∨
      (replay (log ++ [entry])).records = (replay log).records) ∧
    (∀ log entry, (replay (log ++ [entry])).tapeState.get barcode = some .reformatting →
      (replay log).tapeState.get barcode = some .reclaiming ∨ (replay log).tapeState.get barcode = some .reformatting) ∧
    ∀ before first between late volumeUuid, Reclaims before first barcode volumeUuid →
      (∀ entry ∈ between, entry.2.startsReclaim barcode = false) →
      ¬Reclaims (before ++ first :: between) late barcode volumeUuid := by
  refine ⟨?_, ?_, ?_, ?_⟩
  · intro log entry s there
    have step := replay_tape log entry barcode
    generalize unwrapped : unwrap entry.2 (outcome log entry) = effect at step
    cases step with
    | same _ _ summary => exact .inl ⟨s, summary.trans there, UInt64.le_refl _⟩
    | leave leaves tapes => exact .inr (.inr ⟨leaves, tapes⟩)
    | report _ _ _ summary => exact .inl ⟨s, summary.trans there, UInt64.le_refl _⟩
    | start _ summary => exact .inl ⟨s, summary.trans there, UInt64.le_refl _⟩
    | reclaimed => exact .inr (.inl ⟨_, unwrapped⟩)
    | commit newer _ summary => exact .inl ⟨_, summary, newer s there⟩
  · intro log entry volumeUuid asks
    obtain ⟨sequence, effect⟩ := replay_effect log entry
    unfold Reclaims
    generalize unwrap entry.2 (outcome log entry) = took at effect asks ⊢
    generalize (replay (log ++ [entry])).records = after at effect ⊢
    cases effect with
    | reclaimed target uuid =>
      cases asks
      unfold tapeReclaimed
      split
      · rename_i reclaims
        have there : ((replay log).tapeState.get barcode).any (·.inReclaim) := reclaims
        cases status : (replay log).tapeState.get barcode with
        | none =>
          rw [status] at there
          cases there
        | some status' =>
          rw [status] at there
          simp only [Option.any_some, TapeStatus.inReclaim, Bool.or_eq_true, decide_eq_true_eq] at there
          exact .inl ⟨rfl, by simpa using there⟩
      · exact .inr rfl
    | same => exact .inr rfl
    | relieve changes =>
      cases asks
      cases changes
    | quiesce | resume | freeze | acquire | release | manage | observe | report | create | assign | unassign | state
    | reclaim | commit => cases asks
  · intro log entry reformats
    have step := replay_tape log entry barcode
    generalize unwrap entry.2 (outcome log entry) = effect at step
    change (replay (log ++ [entry])).records.tapeState.get barcode = some .reformatting at reformats
    cases step with
    | same _ state | commit _ state => exact .inr (state.symm.trans reformats)
    | leave _ _ state =>
      rw [state] at reformats
      cases reformats
    | report _ allowed state =>
      rw [state] at reformats
      cases reformats
      exact .inl (allowed rfl)
    | start state =>
      rw [state] at reformats
      cases reformats
    | reclaimed _ state =>
      rw [state] at reformats
      cases reformats
  · intro before first between late volumeUuid reclaims quiet again
    have settled : ((replay (before ++ [first])).tapeState.get barcode).any (·.inReclaim) = false := by
      rw [reclaims.after]
      rfl
    have still := settled_kept settled quiet
    rw [List.append_assoc, List.singleton_append, Bool.eq_false_iff] at still
    exact still again.before

/-- Tape "A" is reclaimed by the owner of round 2, written to, and on its way into another reclaim. -/
def rewritten : List Entry :=
  [(1, .candidate 1 1 1 "lib" 1 true), (2, .assignExecutor 1 1 1 none "lib"),
   (3, .executorReport 1 1 2 1 (.fenced 1 2)), (4, .poolCreate "u1" "p" 10), (5, .tapeAssign "A" "p"),
   (6, .tapeAssign "B" "p"), (7, .tapeReclaim "A")]

def reclaimReported : Entry := (8, .executorReport 1 1 2 2 (.tapeReclaimed "A" "V"))

theorem reclaim_discipline_reported : Reclaims rewritten reclaimReported "A" "V" ∧
    ¬Reclaims (rewritten ++ reclaimReported :: [(9, .executorReport 1 1 2 3 (.tapeCommitted "A" "V" 2 1 10 10 1 false))])
      (10, .executorReport 1 1 2 4 (.tapeReclaimed "A" "V")) "A" "V" := by
  have first : Reclaims rewritten reclaimReported "A" "V" := rfl
  obtain ⟨_, _, _, late⟩ := reclaim_discipline "A"
  refine ⟨first, late _ _ _ _ _ first ?_⟩
  intro entry member
  rw [List.mem_singleton.mp member]
  rfl

/-- The report of the first reclaim, come once more during the second, empties the summary of the tape. -/
theorem late_reclaimed_empties_tape :
    Reclaims rewritten reclaimReported "A" "V" ∧
    (replay (rewritten ++ reclaimReported ::
        [(9, .executorReport 1 1 2 3 (.tapeCommitted "A" "V" 2 1 10 10 1 false)), (10, .tapeReclaim "A")])).tapeSummary.get "A" =
      some { volumeUuid := "V", generation := 2, files := 1, bytesUsed := 10, bytesWritten := 10 } ∧
    Reclaims (rewritten ++ reclaimReported ::
        [(9, .executorReport 1 1 2 3 (.tapeCommitted "A" "V" 2 1 10 10 1 false)), (10, .tapeReclaim "A")])
      (11, .executorReport 1 1 2 4 (.tapeReclaimed "A" "V")) "A" "V" :=
  ⟨rfl, by decide +kernel, rfl⟩

end TapeRs.Daemon
