import TapeRs.Daemon.ControlCore

namespace TapeRs.Daemon

open List

abbrev Entry := UInt64 × Command

def Ascending : UInt64 → List Entry → Prop
  | _, [] => True
  | last, entry :: rest => last < entry.1 ∧ Ascending entry.1 rest

instance decidableAscending (last : UInt64) (log : List Entry) : Decidable (Ascending last log) :=
  match log with
  | [] => .isTrue trivial
  | entry :: rest =>
    have : Decidable (Ascending entry.1 rest) := decidableAscending entry.1 rest
    inferInstanceAs (Decidable (_ ∧ _))

def lastIndex : UInt64 → List Entry → UInt64
  | last, [] => last
  | _, entry :: rest => lastIndex entry.1 rest

theorem lastIndex_append (last : UInt64) (log more : List Entry) :
    lastIndex last (log ++ more) = lastIndex (lastIndex last log) more := by
  induction log generalizing last with
  | nil => rfl
  | cons entry rest ih => exact ih entry.1

theorem ascending_append {last : UInt64} {log more : List Entry} :
    Ascending last (log ++ more) ↔ Ascending last log ∧ Ascending (lastIndex last log) more := by
  induction log generalizing last with
  | nil => simp [Ascending, lastIndex]
  | cons entry rest ih => simp [Ascending, lastIndex, ih, and_assoc]

theorem lastIndex_le {last : UInt64} {log : List Entry} (ascending : Ascending last log) : last ≤ lastIndex last log := by
  induction log generalizing last with
  | nil => exact UInt64.le_refl _
  | cons entry rest ih => exact UInt64.le_trans (UInt64.le_of_lt ascending.1) (ih ascending.2)

theorem Ascending.behind {last : UInt64} {log : List Entry} (ascending : Ascending last log) {entry : Entry} (member : entry ∈ log) :
    last < entry.1 := by
  induction log generalizing last with
  | nil => cases member
  | cons first rest ih =>
    rcases mem_cons.mp member with rfl | member
    · exact ascending.1
    · exact UInt64.lt_trans ascending.1 (ih ascending.2 member)

def replay (log : List Entry) : ControlState :=
  log.foldl (fun c entry => (c.apply entry.1 entry.2).1) {}

def outcome (log : List Entry) (entry : Entry) : Applied := ((replay log).apply entry.1 entry.2).2

def outcomesFrom (before : List Entry) : List Entry → List (Entry × Applied)
  | [] => []
  | entry :: rest => (entry, outcome before entry) :: outcomesFrom (before ++ [entry]) rest

def outcomes (log : List Entry) : List (Entry × Applied) := outcomesFrom [] log

/-- The number and the command of a report that was accepted from an instance of a node in a round. -/
def acceptedReport (node inst round : UInt64) : Entry × Applied → Option (UInt64 × Command)
  | ((_, .executorReport node' inst' round' sequence command), .reported _) =>
    if node' = node ∧ inst' = inst ∧ round' = round then some (sequence, command) else none
  | _ => none

theorem acceptedReport_some {node inst round sequence : UInt64} {command : Command} {entry : Entry} {result : Applied}
    (taken : acceptedReport node inst round (entry, result) = some (sequence, command)) :
    entry.2 = .executorReport node inst round sequence command ∧ ∃ inner, result = .reported inner := by
  unfold acceptedReport at taken
  split at taken
  · rename_i same
    cases same
    simp only [Option.ite_none_right_eq_some, Option.some.injEq, Prod.mk.injEq] at taken
    obtain ⟨⟨rfl, rfl, rfl⟩, rfl, rfl⟩ := taken
    exact ⟨rfl, _, rfl⟩
  · cases taken

/-- The reports accepted from an instance of a node in a round, in log order. -/
def accepted (node inst round : UInt64) (log : List Entry) : List (UInt64 × Command) :=
  (outcomes log).filterMap (acceptedReport node inst round)

def startedRound : Entry × Applied → Option UInt64
  | (_, .newExecutor e) => some e.round
  | _ => none

theorem newExecutor_of_started {entry : Entry} {result : Applied} (started : (startedRound (entry, result)).isSome) :
    ∃ e, result = .newExecutor e := by
  cases result with
  | newExecutor e => exact ⟨e, rfl⟩
  | _ => cases started

def activities (commands : List Command) : List (UInt64 × Bool) := commands.filterMap Command.activity?

@[simp] theorem replay_append (log more : List Entry) :
    replay (log ++ more) = more.foldl (fun c entry => (c.apply entry.1 entry.2).1) (replay log) :=
  foldl_append

theorem outcomesFrom_append (before log : List Entry) (entry : Entry) :
    outcomesFrom before (log ++ [entry]) = outcomesFrom before log ++ [(entry, outcome (before ++ log) entry)] := by
  induction log generalizing before with
  | nil => simp [outcomesFrom]
  | cons first rest ih => simp [outcomesFrom, ih]

theorem outcomes_snoc (log : List Entry) (entry : Entry) :
    outcomes (log ++ [entry]) = outcomes log ++ [(entry, outcome log entry)] :=
  outcomesFrom_append [] log entry

theorem accepted_snoc (node inst round : UInt64) (log : List Entry) (entry : Entry) :
    accepted node inst round (log ++ [entry]) =
      accepted node inst round log ++ (acceptedReport node inst round (entry, outcome log entry)).toList := by
  rw [accepted, outcomes_snoc, filterMap_append]
  cases taken : acceptedReport node inst round (entry, outcome log entry) <;> simp [accepted, taken]

theorem accepted_grows (node inst round : UInt64) (log more : List Entry) :
    accepted node inst round log <+: accepted node inst round (log ++ more) := by
  induction more using reverseRecOn with
  | nil => simp
  | append_singleton more entry ih =>
    rw [← append_assoc, accepted_snoc]
    exact ih.trans (prefix_append ..)

namespace Core

def Runs (core : Core) (node inst round : UInt64) : Prop :=
  core.executorInstance = inst ∧ ∃ e, core.executor = some e ∧ e.node = node ∧ e.round = round

theorem Runs.same {core : Core} {node inst round node' inst' round' : UInt64} (runs : core.Runs node inst round)
    (runs' : core.Runs node' inst' round') : node = node' ∧ inst = inst' ∧ round = round' := by
  obtain ⟨owned, e, current, ofNode, ofRound⟩ := runs
  obtain ⟨owned', e', current', ofNode', ofRound'⟩ := runs'
  rw [current] at current'
  cases current'
  exact ⟨ofNode.symm.trans ofNode', owned.symm.trans owned', ofRound.symm.trans ofRound'⟩

variable {index node inst round sequence : UInt64} {core after : Core} {cmd command : Command} {outcome : Applied}
  (shift : Shift index core cmd after outcome)
include shift

theorem Shift.runs_back (runs : after.Runs node inst round) :
    core.Runs node inst round ∨
      (round = index ∧ after.executorReportSequence = 0 ∧ after.deviceActivity = none ∧ after.executorReady = false) := by
  induction shift with
  | same | ready | activity => exact .inl runs
  | start _ _ _ _ =>
    obtain ⟨_, e, current, _, ofRound⟩ := runs
    cases current
    exact .inr ⟨ofRound.symm, rfl, rfl, rfl⟩
  | fence current =>
    obtain ⟨owned, e, now, ofNode, ofRound⟩ := runs
    cases now
    exact .inl ⟨owned, _, current, ofNode, ofRound⟩
  | gone current =>
    obtain ⟨_, _, now, _⟩ := runs
    cases now
  | report _ _ _ _ _ _ ih => exact ih runs

theorem Shift.accepted (taken : acceptedReport node inst round ((index, cmd), outcome) = some (sequence, command)) :
    cmd = .executorReport node inst round sequence command ∧ core.Runs node inst round ∧
      sequence.toNat = core.executorReportSequence.toNat + 1 := by
  obtain ⟨rfl, inner, rfl⟩ := acceptedReport_some taken
  cases shift with
  | activity current _ _ owned next _ => exact ⟨rfl, ⟨owned, _, current, rfl, rfl⟩, Word.succ?_eq_some.mp next⟩
  | report current owned next _ _ _ => exact ⟨rfl, ⟨owned, _, current, rfl, rfl⟩, Word.succ?_eq_some.mp next⟩
  | same plain => exact False.elim plain

def reported (core : Core) : Option (UInt64 × Bool) := core.deviceActivity.map fun a => (a.sequence, a.busy)

/-- A new round has nothing reported. -/
structure Fresh (core : Core) : Prop where
  sequence : core.executorReportSequence = 0
  activity : core.deviceActivity = none
  ready : core.executorReady = false

theorem Shift.plain (plain : outcome.Plain) (runs : after.Runs node inst round) :
    after.executorReportSequence = core.executorReportSequence ∧ after.reported = core.reported := by
  cases shift with
  | same | fence | ready => exact ⟨rfl, rfl⟩
  | gone =>
    obtain ⟨_, _, now, _⟩ := runs
    cases now
  | start | activity | report => exact False.elim plain

theorem Shift.kept (runs : after.Runs node inst round) (other : acceptedReport node inst round ((index, cmd), outcome) = none) :
    (core.Runs node inst round ∧ after.executorReportSequence = core.executorReportSequence ∧
      after.reported = core.reported) ∨ (round = index ∧ after.Fresh) := by
  rcases shift.runs_back runs with before | ⟨begins, sequence, activity, ready⟩
  · by_cases plain : outcome.Plain
    · exact .inl ⟨before, shift.plain plain runs⟩
    cases shift with
    | start node term inst _ =>
      obtain ⟨_, e, now, _, ofRound⟩ := runs
      cases now
      exact .inr ⟨ofRound.symm, rfl, rfl, rfl⟩
    | activity current _ _ owned _ _ =>
      obtain ⟨rfl, rfl, rfl⟩ := before.same ⟨owned, _, current, rfl, rfl⟩
      simp [acceptedReport] at other
    | report current owned _ _ _ _ =>
      obtain ⟨rfl, rfl, rfl⟩ := before.same ⟨owned, _, current, rfl, rfl⟩
      simp [acceptedReport] at other
    | same quiet => exact absurd quiet plain
    | fence | ready | gone => exact absurd trivial plain
  · exact .inr ⟨begins, sequence, activity, ready⟩

theorem Shift.counted (runs : after.Runs node inst round)
    (taken : acceptedReport node inst round ((index, cmd), outcome) = some (sequence, command)) :
    after.executorReportSequence = sequence ∧ after.reported = command.activity?.or core.reported := by
  obtain ⟨rfl, inner, rfl⟩ := acceptedReport_some taken
  cases shift with
  | activity => exact ⟨rfl, rfl⟩
  | report current owned next other plain inner =>
    obtain ⟨counted, reported⟩ := inner.plain plain runs
    rw [other]
    exact ⟨counted, reported⟩
  | same plain => exact False.elim plain

def Attributed (core : Core) : Prop := ∀ a, core.deviceActivity = some a → core.Runs a.node a.inst a.round

theorem Shift.attributed (attributed : core.Attributed) :
    after.Attributed := by
  induction shift with
  | same | ready => exact attributed
  | start | gone => exact nofun
  | fence current =>
    intro a recorded
    obtain ⟨owned, e, there, ofNode, ofRound⟩ := attributed a recorded
    rw [current] at there
    cases there
    exact ⟨owned, _, rfl, ofNode, ofRound⟩
  | activity current _ _ owned _ _ =>
    rintro a ⟨⟩
    exact ⟨owned, _, current, rfl, rfl⟩
  | report _ _ _ _ _ _ ih => exact ih attributed

end Core

variable {node inst round : UInt64} {log : List Entry}

theorem replay_shift (log : List Entry) (entry : Entry) :
    Core.Shift entry.1 (replay log).core entry.2 (replay (log ++ [entry])).core (outcome log entry) := by
  rw [replay_append]
  exact (replay log).apply_shift entry.1 entry.2

theorem replay_attributed (log : List Entry) : (replay log).core.Attributed := by
  induction log using reverseRecOn with
  | nil => exact nofun
  | append_singleton log entry ih => exact (replay_shift log entry).attributed ih

theorem Core.Runs.le_lastIndex (ascending : Ascending 0 log) (runs : (replay log).core.Runs node inst round) :
    round ≤ lastIndex 0 log := by
  induction log using reverseRecOn with
  | nil =>
    obtain ⟨_, _, none, _⟩ := runs
    cases none
  | append_singleton log entry ih =>
    obtain ⟨before, later, _⟩ := ascending_append.mp ascending
    rw [lastIndex_append]
    rcases (replay_shift log entry).runs_back runs with held | ⟨rfl, _⟩
    · exact UInt64.le_trans (ih before held) (UInt64.le_of_lt later)
    · exact UInt64.le_refl _

theorem Core.Runs.earlier {more : List Entry} (ascending : Ascending 0 (log ++ more))
    (runs : (replay (log ++ more)).core.Runs node inst round) (old : round ≤ lastIndex 0 log) :
    (replay log).core.Runs node inst round := by
  induction more using reverseRecOn with
  | nil => simpa using runs
  | append_singleton more entry ih =>
    rw [← append_assoc] at ascending runs
    obtain ⟨before, later, _⟩ := ascending_append.mp ascending
    rcases (replay_shift (log ++ more) entry).runs_back runs with held | ⟨rfl, _⟩
    · exact ih before held
    have grown : lastIndex 0 log ≤ lastIndex 0 (log ++ more) := by
      rw [lastIndex_append]
      exact lastIndex_le (ascending_append.mp before).2
    have fresh : lastIndex 0 (log ++ more) < entry.1 := later
    exact absurd (UInt64.le_trans old grown) (UInt64.not_le.mpr fresh)

theorem ControlState.apply_superseded {c : ControlState} (index : UInt64) {node inst round : UInt64} (number : UInt64)
    (command : Command) (superseded : ¬c.core.Runs node inst round) :
    (c.apply index (.executorReport node inst round number command)).1 = c.advanced index := by
  have refused : ¬(c.advanced index).accepts node inst round number command := by
    intro accepted
    obtain ⟨e, current, ofNode, ofRound, owned, _⟩ := ControlState.accepts_iff.mp accepted
    exact superseded ⟨owned, e, current, ofNode, ofRound⟩
  simp only [ControlState.apply, ControlState.guarded, if_neg refused]
  split
  · rfl
  · split <;> rfl

theorem Core.Shift.startedRound {index : UInt64} {core after : Core} {cmd : Command} {result : Applied}
    (shift : Shift index core cmd after result) {round : UInt64}
    (starts : Daemon.startedRound ((index, cmd), result) = some round) : round = index := by
  cases shift with
  | start => exact (Option.some.inj starts).symm
  | same plain => cases result <;> first | exact False.elim plain | cases starts
  | fence | ready | gone | activity | report => cases starts

theorem startedRounds_increase {log : List Entry} (ascending : Ascending 0 log) :
    ((outcomes log).filterMap startedRound).Pairwise (· < ·) ∧
      ∀ round ∈ (outcomes log).filterMap startedRound, round ≤ lastIndex 0 log := by
  induction log using reverseRecOn with
  | nil => exact ⟨List.Pairwise.nil, nofun⟩
  | append_singleton log entry ih =>
    obtain ⟨before, later, _⟩ := ascending_append.mp ascending
    obtain ⟨sorted, bounded⟩ := ih before
    have grown : lastIndex 0 (log ++ [entry]) = entry.1 := lastIndex_append ..
    rw [outcomes_snoc, filterMap_append, grown]
    constructor
    · refine pairwise_append.mpr ⟨sorted, ?_, ?_⟩
      · cases starts : startedRound (entry, outcome log entry) <;> simp [starts]
      · intro old member new started
        obtain ⟨_, here, starts⟩ := mem_filterMap.mp started
        rw [mem_singleton.mp here] at starts
        rw [(replay_shift log entry).startedRound starts]
        exact UInt64.lt_of_le_of_lt (bounded old member) later
    · intro round member
      rcases mem_append.mp member with old | new
      · exact UInt64.le_of_lt (UInt64.lt_of_le_of_lt (bounded round old) later)
      obtain ⟨_, here, starts⟩ := mem_filterMap.mp new
      rw [mem_singleton.mp here] at starts
      rw [(replay_shift log entry).startedRound starts]
      exact UInt64.le_refl _

/-- The reports accepted from an instance in a round, against the count and the device state kept of them. -/
structure Tally (node inst round : UInt64) (log : List Entry) : Prop where
  numbers : (accepted node inst round log).map (·.1.toNat) = List.range' 1 (accepted node inst round log).length
  started : accepted node inst round log ≠ [] → round ≤ lastIndex 0 log
  count : (replay log).core.Runs node inst round →
    (replay log).core.executorReportSequence.toNat = (accepted node inst round log).length
  activity : (replay log).core.Runs node inst round →
    (replay log).core.reported = (activities ((accepted node inst round log).map Prod.snd)).getLast?

theorem tally (node inst round : UInt64) {log : List Entry} (ascending : Ascending 0 log) : Tally node inst round log := by
  induction log using reverseRecOn with
  | nil =>
    refine ⟨rfl, nofun, fun runs => ?_, fun runs => ?_⟩ <;>
    · obtain ⟨_, _, none, _⟩ := runs
      cases none
  | append_singleton log entry ih =>
    obtain ⟨before, later, _⟩ := ascending_append.mp ascending
    have old := ih before
    have shift := replay_shift log entry
    have grown : lastIndex 0 log ≤ lastIndex 0 (log ++ [entry]) := by
      rw [lastIndex_append]
      exact UInt64.le_of_lt later
    cases taken : acceptedReport node inst round (entry, outcome log entry) with
    | none =>
      have same : accepted node inst round (log ++ [entry]) = accepted node inst round log := by
        simp [accepted_snoc, taken]
      have nothing : round = entry.1 → accepted node inst round log = [] := by
        intro begins
        by_contra some
        exact absurd (begins ▸ old.started some) (UInt64.not_le.mpr later)
      refine ⟨same ▸ old.numbers, fun some => UInt64.le_trans (old.started (same ▸ some)) grown, ?_, ?_⟩
      · intro runs
        rcases shift.kept runs taken with ⟨held, count, _⟩ | ⟨begins, fresh⟩
        · rw [count, same]
          exact old.count held
        · rw [fresh.sequence, same, nothing begins]
          rfl
      · intro runs
        rcases shift.kept runs taken with ⟨held, _, reported⟩ | ⟨begins, fresh⟩
        · rw [reported, same]
          exact old.activity held
        · rw [Core.reported, fresh.activity, same, nothing begins]
          rfl
    | some taking =>
      obtain ⟨sequence, command⟩ := taking
      obtain ⟨_, held, next⟩ := shift.accepted taken
      have count := old.count held
      have more : accepted node inst round (log ++ [entry]) = accepted node inst round log ++ [(sequence, command)] := by
        simp [accepted_snoc, taken]
      refine ⟨?_, fun _ => UInt64.le_trans (held.le_lastIndex before) grown, fun runs => ?_, fun runs => ?_⟩
      · rw [more, map_append, old.numbers, length_append, range'_append_1.symm]
        simp [next, count, Nat.add_comm]
      · rw [(shift.counted runs taken).1, next, count, more]
        simp
      · rw [(shift.counted runs taken).2, old.activity held, more, map_append, activities, activities,
          filterMap_append, getLast?_append]
        cases kind : command.activity? <;> simp [kind]

/-- Replicas agree on the owner of a round; device work on record is the owner's. -/
theorem round_has_one_owner {more : List Entry} (ascending : Ascending 0 (log ++ more)) {node' inst' : UInt64}
    (runs : (replay log).core.Runs node inst round) (runs' : (replay (log ++ more)).core.Runs node' inst' round) :
    (node = node' ∧ inst = inst') ∧
      ∀ a, (replay (log ++ more)).core.deviceActivity = some a → a.node = node ∧ a.inst = inst ∧ a.round = round := by
  obtain ⟨rfl, rfl, _⟩ := runs.same (runs'.earlier ascending (runs.le_lastIndex (ascending_append.mp ascending).1))
  exact ⟨⟨rfl, rfl⟩, fun a recorded => (replay_attributed _ a recorded).same runs'⟩

theorem round_has_one_owner_fenced : (replay [(1, .takeover 1 1)]).core.Runs 1 0 1 ∧
    ∀ a, (replay [(1, .takeover 1 1), (2, .fenced 1 1)]).core.deviceActivity = some a →
      a.node = 1 ∧ a.inst = 0 ∧ a.round = 1 := by
  have runs : (replay [(1, .takeover 1 1)]).core.Runs 1 0 1 := ⟨rfl, _, rfl, rfl, rfl⟩
  exact ⟨runs, (round_has_one_owner (by decide) runs ⟨rfl, _, rfl, rfl, rfl⟩).2⟩

end TapeRs.Daemon
