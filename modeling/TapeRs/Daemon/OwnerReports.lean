import TapeRs.Daemon.OwnerSafety

namespace TapeRs.Daemon

open ControlState Ownership List

namespace Core

variable {index : UInt64} {core after : Core} {cmd : Command} {outcome : Applied}

theorem Shift.sequence_of_plain (shift : Shift index core cmd after outcome) (plain : outcome.Plain) :
    after.executorReportSequence = core.executorReportSequence := by
  cases shift with
  | same | fence | ready | gone => rfl
  | start | activity | report => exact False.elim plain

theorem Shift.stays_ready (shift : Shift index core cmd after outcome) {node inst round : UInt64}
    (ready : core.executorReady) (runs : after.Runs node inst round) : after.executorReady ∨ round = index := by
  induction shift with
  | same | fence | activity => exact .inl ready
  | start =>
    obtain ⟨_, e, now, _, ofRound⟩ := runs
    cases now
    exact .inr ofRound.symm
  | ready => exact .inl rfl
  | gone =>
    obtain ⟨_, _, now, _⟩ := runs
    cases now
  | report _ _ _ _ _ _ ih => exact ih ready runs

theorem Runs.stays_ready {log more : List Entry} {node inst round : UInt64} (ascending : Ascending 0 (log ++ more))
    (begun : (replay log).core.Runs node inst round) (ready : (replay log).core.executorReady)
    (runs : (replay (log ++ more)).core.Runs node inst round) : (replay (log ++ more)).core.executorReady := by
  induction more using reverseRecOn with
  | nil => simpa using ready
  | append_singleton more entry ih =>
    rw [← append_assoc] at ascending runs ⊢
    obtain ⟨before, later, _⟩ := ascending_append.mp ascending
    have old : round ≤ lastIndex 0 (log ++ more) := by
      rw [lastIndex_append]
      exact UInt64.le_trans (begun.le_lastIndex (ascending_append.mp before).1) (lastIndex_le (ascending_append.mp before).2)
    rcases (replay_shift (log ++ more) entry).runs_back runs with held | ⟨begins, _⟩
    · rcases (replay_shift (log ++ more) entry).stays_ready (ih before held) runs with still | begins
      · exact still
      · exact absurd (begins ▸ old) (UInt64.not_le.mpr later)
    · exact absurd (begins ▸ old) (UInt64.not_le.mpr later)

end Core

theorem Command.admissible_of_ofOwner {c : ControlState} {e : Executor} {id round : UInt64} {command : Command}
    (own : command.ofOwner id round) (fenced : e.fenced) : c.admissible e id round command := by
  cases command with
  | fenced | abandoned => exact own
  | executorReady => simpa [admissible, fenced, ofOwner] using own
  | tapeState | fileTask | managementReport | observeTape | catalogPart | tapeCommitted | tapeReclaimed => exact fenced
  | _ => cases own

namespace ControlState

theorem apply_report {c : ControlState} {node inst round number : UInt64} {command : Command} (index : UInt64)
    (accepted : c.accepts node inst round number command) :
    if c.catalogFrozenIndex.isSome && !command.ownerLifecycle then
      c.apply index (.executorReport node inst round number command) = (c.advanced index, .catalogRejected)
    else (c.apply index (.executorReport node inst round number command)).1.executorReportSequence = number := by
  have free : (c.advanced index).rejects (.executorReport node inst round number command) = false := by
    simp [rejects, Command.survivesFreeze, Command.haltedByQuiesce]
  have accepted' : (c.advanced index).accepts node inst round number command := accepted
  obtain ⟨_, _, _, _, _, _, _, admissible⟩ := accepts_iff.mp accepted
  simp only [apply, guarded, free, Bool.false_eq_true, if_false, if_pos accepted']
  split
  · rename_i frozen
    exact if_pos frozen
  rename_i thawed
  have thawed' : ¬((c.advanced index).catalogFrozenIndex.isSome && !command.ownerLifecycle) = true := thawed
  rw [if_neg thawed']
  split
  · rfl
  · have shift := apply_shift { c.advanced index with executorReportSequence := number } index command
    exact shift.sequence_of_plain (admissible_plain admissible index _)

end ControlState

namespace Queue

variable {q : Queue}

theorem Sound.next_queued (sound : q.Sound) {round number : UInt64} {command : Command}
    (known : .executorReport q.id q.inst round number command ∈ q.reports ++ q.sent)
    (next : number.toNat = (q.taken round).length + 1) :
    (q.issuedIn round)[(q.taken round).length]? = some command := by
  rcases mem_append.mp known with queued | sent
  · have sent := sound.send (.inl queued)
    exact sent.next_issued (mem_append_right _ (mem_singleton_self _)) next
  · exact sound.next_issued sent next

end Queue

namespace Owner

variable {o : Owner}

theorem Tracked.next_activity (tracked : o.Tracked) {round sequence : UInt64} {busy : Bool}
    (runs : (replay o.queue.log).core.Runs o.queue.id o.queue.inst round)
    (next : (o.queue.issuedIn round)[(o.queue.taken round).length]? = some (.deviceActivity sequence busy)) :
    (replay o.queue.log).core.executorReady ∧
      (match (replay o.queue.log).core.deviceActivity with
        | none => some 1
        | some a => Word.succ? a.sequence) = some sequence := by
  have sound := tracked.sound
  obtain ⟨rest, split⟩ := sound.accepted round
  have shape : o.queue.issuedIn round =
      (o.queue.taken round).map Prod.snd ++ .deviceActivity sequence busy :: rest.tail := by
    rw [← split, getElem?_append_right (by simp)] at next
    rw [← split]
    cases rest with
    | nil => simp at next
    | cons head tail =>
      simp only [length_map, Nat.sub_self, getElem?_cons_zero, Option.some.injEq] at next
      rw [next]
      rfl
  have reports : activities ((o.queue.taken round).map Prod.snd) ++ [(sequence, busy)] <+: o.flow round := by
    refine List.IsPrefix.trans ?_ (prefix_append (activities (o.queue.issuedIn round)) _)
    rw [shape, activities_append]
    exact (prefix_append_right_inj _).mpr (prefix_append [(sequence, busy)] (activities rest.tail))
  obtain ⟨count, small, whole⟩ := tracked.flow_prefix reports
  obtain ⟨before, rfl⟩ : ∃ before, count = before + 1 := by
    refine Nat.exists_eq_add_one_of_ne_zero ?_
    rintro rfl
    simp [alternation] at whole
  rw [alternation_succ] at whole
  obtain ⟨earlier, last⟩ := append_inj' whole rfl
  have number : sequence = UInt64.ofNat (before + 1) := by
    simp only [cons.injEq, Prod.mk.injEq, and_true] at last
    exact last.1
  constructor
  · have some : o.flow round ≠ [] := by
      intro none
      rw [none, prefix_nil] at reports
      simp at reports
    obtain ⟨⟨seen, short, begun, ready⟩, _⟩ := tracked.flows.started round some
    have log : o.queue.log = o.queue.log.take seen ++ o.queue.log.drop seen := (take_append_drop ..).symm
    have ascending := sound.ascending
    rw [log] at ascending runs ⊢
    exact begun.stays_ready ascending ready runs
  · have activity := (tally o.queue.id o.queue.inst round sound.ascending).activity runs
    have known : activities ((accepted o.queue.id o.queue.inst round o.queue.log).map Prod.snd) = alternation before :=
      earlier
    rw [known] at activity
    unfold Core.reported at activity
    cases before with
    | zero =>
      rw [Option.map_eq_none_iff.mp activity]
      exact congrArg some number.symm
    | succ before =>
      rw [alternation_succ, getLast?_concat] at activity
      obtain ⟨a, recorded, same⟩ := Option.map_eq_some_iff.mp activity
      rw [recorded]
      simp only [Prod.mk.injEq] at same
      have size : UInt64.size = 2 ^ 64 := rfl
      refine Word.succ?_eq_some.mpr ?_
      rw [number, same.1, UInt64.toNat_ofNat', UInt64.toNat_ofNat', Nat.mod_eq_of_lt (by omega), Nat.mod_eq_of_lt (by omega)]

end Owner

namespace Ownership

/-- The next report of a fenced executor is counted, unless the catalog is frozen and the report concerns the catalog. -/
theorem next_report_counted {s : Ownership} (reached : s.Reached) {round number : UInt64} {command : Command}
    (queued : .executorReport s.coordinator.id s.coordinator.inst round number command ∈
      s.coordinator.reports ++ s.coordinator.sent)
    {e : Executor} (current : (replay s.log).executor = some e) (fenced : e.fenced) (ofNode : e.node = s.coordinator.id)
    (ofRound : e.round = round) (owned : (replay s.log).executorInstance = s.coordinator.inst)
    (candidate : ((replay s.log).candidates.get s.coordinator.id.toNat).any fun c => c.inst = s.coordinator.inst)
    (next : Word.succ? (replay s.log).executorReportSequence = some number) (index : UInt64) :
    if (replay s.log).catalogFrozenIndex.isSome && !command.ownerLifecycle then
      (replay s.log).apply index (.executorReport s.coordinator.id s.coordinator.inst round number command) =
        ((replay s.log).advanced index, .catalogRejected)
    else
      ((replay s.log).apply index (.executorReport s.coordinator.id s.coordinator.inst round number
        command)).1.executorReportSequence = number := by
  have tracked := reached.guarded.tracked
  have runs : (replay s.log).core.Runs s.coordinator.id s.coordinator.inst round := ⟨owned, e, current, ofNode, ofRound⟩
  have count : (replay s.log).executorReportSequence.toNat = (s.owner.queue.taken round).length :=
    (tally _ _ round reached.ascending).count runs
  have issued := tracked.sound.next_queued queued ((Word.succ?_eq_some.mp next).trans (congrArg (· + 1) count))
  refine apply_report index (accepts_iff.mpr
    ⟨e, current, ofNode, ofRound, owned, next, candidate, ?_⟩)
  cases kind : command.activity? with
  | none =>
    exact Command.admissible_of_ofOwner (tracked.issued round command (mem_of_getElem? issued) kind) fenced
  | some report =>
    cases command <;> cases kind
    obtain ⟨ready, follows⟩ := tracked.next_activity runs issued
    have ready' : (replay s.log).executorReady = true := ready
    have follows' : (match (replay s.log).deviceActivity with
        | none => some 1
        | some a => Word.succ? a.sequence) = some _ := follows
    simp only [admissible, fenced, ready', Bool.and_self, Bool.true_and, decide_eq_true_eq]
    exact follows'

theorem next_report_counted_ready :
    ((replay (ranThrough (takesOver ++ [.event (.serving 3), .wait 25000000, .tick 1 true])).log).apply 5
      (.executorReport 1 1 3 2 (.executorReady 1 3))).1.executorReportSequence = 2 := by
  have reached : (ranThrough (takesOver ++ [.event (.serving 3), .wait 25000000, .tick 1 true])).Reached :=
    ranThrough_reached (by decide +kernel)
  exact next_report_counted reached (.head _) rfl rfl rfl rfl rfl rfl rfl 5

/-- The catalog is frozen before the instance gets round 4, in which a tape changes its state and the instance fails. -/
def failsFrozen : List Action :=
  [.propose 1 .catalogQuiesce, .propose 2 (.catalogFreeze 1), .propose 3 (.candidate 1 1 1 "lib" 1 true),
   .propose 4 (.assignExecutor 1 1 1 none "lib"), .learn 4, .tick 1 true, .confirm 1 4 true [(1, 4)],
   .event (.fenced 4), .wait 25000000, .tick 1 true, .deliver 5 0, .learn 1, .observe true,
   .event (.tapeState 4 "A00001L8" "full"), .wait 25000000, .tick 1 true, .event (.lost 4 "lost")]

/-- In a frozen catalog the report of the tape stays at the head of the queue, and the one that gives up the round
    behind it. -/
theorem tape_report_stuck_when_frozen : ∃ s : Ownership, s.Reached ∧
    s.coordinator.reports = [.executorReport 1 1 4 2 (.tapeState "A00001L8" "full")] ∧
    s.coordinator.pending = [.command (.abandoned 1 4 "lost")] ∧
    (replay s.log).executor = some { node := 1, term := 1, round := 4, fenced := true } ∧
    (replay s.log).executorInstance = 1 ∧
    ((replay s.log).candidates.get 1).any (fun c => c.inst = 1) ∧ (replay s.log).executorReportSequence = 1 ∧
    ∀ index, ((replay s.log).apply index (.executorReport 1 1 4 2 (.tapeState "A00001L8" "full"))).1 =
      (replay s.log).advanced index :=
  ⟨ranThrough failsFrozen, ranThrough_reached (by decide +kernel), rfl, rfl, rfl, rfl, rfl, rfl, fun _ => rfl⟩

end Ownership

/-- Reports are taken exactly once and in order, by the executor of the round alone, in rounds that go up, and they are
    those that the instance has made in this order. -/
theorem reports_taken_once_in_order (node inst round : UInt64) {log : List Entry} (ascending : Ascending 0 log)
    {s : Ownership} (reached : s.Reached) :
    (accepted node inst round log).map (·.1.toNat) = List.range' 1 (accepted node inst round log).length ∧
    (∀ before entry rest, log = before ++ entry :: rest →
      acceptedReport node inst round (entry, outcome before entry) ≠ none → (replay before).core.Runs node inst round) ∧
    (∀ before rest, log = before ++ rest → ¬(replay before).core.Runs node inst round → ∀ index number command,
      ((replay before).apply index (.executorReport node inst round number command)).1 = (replay before).advanced index) ∧
    ((outcomes log).filterMap startedRound).Pairwise (· < ·) ∧
    (accepted s.coordinator.id s.coordinator.inst round s.log).map Prod.snd <+:
      (s.coordinator.issued.filter fun report => report.1 = round).map Prod.snd := by
  refine ⟨(tally node inst round ascending).numbers, ?_, ?_, (startedRounds_increase ascending).1, ?_⟩
  · intro before entry rest _ taken
    obtain ⟨⟨_, _⟩, taking⟩ := Option.ne_none_iff_exists'.mp taken
    exact ((replay_shift before entry).accepted taking).2.1
  · intro before rest _ superseded index number command
    exact apply_superseded index number command superseded
  · exact reached.guarded.tracked.sound.accepted round

theorem reports_taken_once_in_order_round3 :
    (accepted 1 1 3 (Ownership.ranThrough Ownership.worksInRound3).log).map (·.1.toNat) = [1, 2, 3, 4] ∧
      (accepted 1 1 3 (Ownership.ranThrough Ownership.worksInRound3).log).map Prod.snd <+:
        ((Ownership.ranThrough Ownership.worksInRound3).coordinator.issued.filter fun report => report.1 = 3).map
          Prod.snd := by
  have reached : (ranThrough worksInRound3).Reached := ranThrough_reached (by decide +kernel)
  obtain ⟨numbers, _, _, _, taken⟩ := reports_taken_once_in_order 1 1 3 reached.ascending reached
  have count : (accepted 1 1 3 (ranThrough worksInRound3).log).length = 4 := by decide +kernel
  rw [count] at numbers
  exact ⟨numbers, taken⟩

end TapeRs.Daemon
