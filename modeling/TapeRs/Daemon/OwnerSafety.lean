import TapeRs.Daemon.DeviceGuards

namespace TapeRs.Daemon

open List

variable {inst round : UInt64}

theorem Core.Runs.at_earlier {log : List Entry} (ascending : Ascending 0 log) {count more : Nat} (grows : count ≤ more)
    {node : UInt64} (runs : (replay (log.take more)).core.Runs node inst round)
    (old : round ≤ lastIndex 0 (log.take count)) : (replay (log.take count)).core.Runs node inst round := by
  have longer := ascending_take ascending more
  rw [take_grows grows] at longer runs
  exact runs.earlier longer old

theorem mem_log_of_accepted {node number : UInt64} {command : Command} {log : List Entry}
    (taken : (number, command) ∈ accepted node inst round log) :
    ∃ index, (index, .executorReport node inst round number command) ∈ log := by
  induction log using reverseRecOn with
  | nil => cases taken
  | append_singleton log entry ih =>
    rw [accepted_snoc] at taken
    rcases mem_append.mp taken with old | new
    · obtain ⟨index, there⟩ := ih old
      exact ⟨index, mem_append_left _ there⟩
    · obtain ⟨reported, _⟩ := acceptedReport_some (Option.mem_toList.mp new)
      exact ⟨entry.1, mem_append_right _ (by simp [← reported])⟩

variable {before rest : List Entry} {index target term expected idle : UInt64} {group : String} {e : Executor}

theorem Core.Shift.rebalanced {core after : Core}
    (shift : Shift index core (.rebalanceExecutor target inst term round expected idle group) after (.newExecutor e)) :
    after.executor = some e ∧ e.round = index ∧ ∃ node, core.Runs node expected round ∧
      core.reported = some (idle, false) := by
  cases shift with
  | same plain => exact False.elim plain
  | start node term' inst' proof =>
    obtain ⟨_, owned, e', a, current, _, ofRound, active, idle', _, _, sequence, _⟩ := proof _ _ _ _ _ _ _ rfl
    refine ⟨rfl, rfl, e'.node, ⟨owned, e', current, rfl, ofRound⟩, ?_⟩
    simp [Core.reported, active, idle', sequence]

namespace Queue

variable {q : Queue}

/-- A healthy move from a round that the instance has run, here or at an earlier point of the log: it comes later in the
    log than the instance saw itself, and the device was reported idle. -/
theorem Sound.rebalance (sound : q.Sound) {seen : Nat} (short : seen ≤ q.seen)
    (ran : (replay (q.log.take seen)).core.Runs q.id q.inst round) (split : q.log = before ++ rest)
    (next : rest = [] ∨ ∃ tail, rest = (index, .rebalanceExecutor target inst term round expected idle group) :: tail)
    (moved : outcome before (index, .rebalanceExecutor target inst term round expected idle group) = .newExecutor e) :
    seen ≤ before.length ∧ (replay before).core.Runs q.id q.inst round ∧
      (replay before).core.reported = some (idle, false) := by
  have shift := replay_shift before (index, .rebalanceExecutor target inst term round expected idle group)
  rw [moved] at shift
  obtain ⟨current, starts, node, runs, reported⟩ := shift.rebalanced
  have here : before = q.log.take before.length := by simp [split]
  have old : round ≤ lastIndex 0 (q.log.take seen) := ran.le_lastIndex (ascending_take sound.ascending seen)
  have late : seen ≤ before.length := by
    by_contra early
    have grows : before.length + 1 ≤ seen := Nat.not_le.mp early
    rcases next with none | ⟨tail, more⟩
    · have whole : before.length = q.log.length := by simp [split, none]
      have bound := sound.seen
      omega
    have after : q.log.take (before.length + 1) =
        before ++ [(index, .rebalanceExecutor target inst term round expected idle group)] := by
      rw [split, more, take_length_add_append]
      rfl
    have ascending := ascending_take sound.ascending (before.length + 1)
    rw [after] at ascending
    have later : lastIndex 0 before < index := (ascending_append.mp ascending).2.1
    have begun : round ≤ lastIndex 0 before := runs.le_lastIndex (ascending_append.mp ascending).1
    have known : round ≤ lastIndex 0 (q.log.take (before.length + 1)) := by
      rw [after, lastIndex_append]
      exact UInt64.le_of_lt (UInt64.lt_of_le_of_lt begun later)
    have again := ran.at_earlier sound.ascending grows known
    rw [after] at again
    obtain ⟨_, e', there, _, ofRound⟩ := again
    rw [current] at there
    cases there
    rw [starts] at ofRound
    exact absurd ofRound (UInt64.ne_of_lt (UInt64.lt_of_le_of_lt begun later)).symm
  rw [here] at runs
  obtain ⟨rfl, rfl, _⟩ := (runs.at_earlier sound.ascending late old).same ran
  rw [← here] at runs
  exact ⟨late, runs, reported⟩

end Queue

namespace Owner

variable {o : Owner}

theorem Guarded.no_rebalance (guarded : o.Guarded) {g : Guard} (member : g ∈ o.guards) (tracks : g.tracked)
    (held : g.held) (opened : g.round ∉ o.closings) (split : o.queue.log = before ++ rest)
    (next : rest = [] ∨ ∃ tail, rest = (index, .rebalanceExecutor target inst term g.round expected idle group) :: tail) :
    outcome before (index, .rebalanceExecutor target inst term g.round expected idle group) ≠ .newExecutor e := by
  intro moved
  obtain ⟨seen, short, recorded⟩ := guarded.held g member tracks held
  have sound := guarded.tracked.sound
  have ran := replay_attributed (o.queue.log.take seen) _ recorded
  obtain ⟨late, runs, reported⟩ := sound.rebalance short ran split next moved
  obtain ⟨real, whose⟩ := guarded.rounds g member tracks
  have current := whose.resolve_right opened
  have flows := guarded.tracked.flows.current (current ▸ real) (current ▸ opened)
  rw [← current, ← guarded.wanted (current ▸ opened) g member tracks current] at flows
  -- The busy claim is the last report that there is, so the log cannot hold an idle one behind it.
  have here : before = o.queue.log.take before.length := by simp [split]
  have ascending := ascending_take sound.ascending
  have claimed := (tally o.queue.id o.queue.inst g.round (ascending seen)).activity ran
  have idling := (tally o.queue.id o.queue.inst g.round (here ▸ ascending before.length)).activity runs
  have grown : (accepted o.queue.id o.queue.inst g.round (o.queue.log.take seen)).map Prod.snd <+:
      (accepted o.queue.id o.queue.inst g.round before).map Prod.snd := by
    rw [here, take_grows late]
    exact (accepted_grows ..).map _
  have whole : (accepted o.queue.id o.queue.inst g.round before).map Prod.snd <+: o.queue.issuedIn g.round := by
    have taken := sound.accepted g.round
    rw [Queue.taken, split] at taken
    exact ((accepted_grows ..).map _).trans taken
  have all : activities (o.queue.issuedIn g.round) <+: alternation g.wanted.toNat := flows ▸ prefix_append ..
  rw [Core.reported, recorded] at claimed
  have same := alternation_complete (activities_grow grown) ((activities_grow whole).trans all) claimed.symm
  rw [← same, ← claimed, reported] at idling
  cases idling

end Owner

def Command.idleRound? (id inst : UInt64) : Command → Option UInt64
  | executorReport node reporter round _ (.deviceActivity _ false) =>
    if node = id ∧ reporter = inst then some round else none
  | _ => none

theorem Command.reporter?_of_idle {id : UInt64} {cmd : Command} (idle : cmd.idleRound? id inst = some round) :
    ∃ number sequence, cmd = .executorReport id inst round number (.deviceActivity sequence false) := by
  unfold idleRound? at idle
  split at idle
  · simp only [Option.ite_none_right_eq_some, Option.some.injEq] at idle
    obtain ⟨⟨rfl, rfl⟩, rfl⟩ := idle
    exact ⟨_, _, rfl⟩
  · cases idle

namespace Owner

variable {o after : Owner}

def Spares (o : Owner) (entry : Entry) : Prop :=
  ∀ round, entry.2.idleRound? o.queue.id o.queue.inst = some round → ∀ g ∈ o.guards, g.tracked = false → g.round ≠ round

/-- The rounds with recovery going on are the instance's own, and have not reported idle devices. -/
structure Recovering (o : Owner) : Prop where
  guarded : o.Guarded
  ran : ∀ g ∈ o.guards, g.tracked = false → o.queue.Ran g.round
  spared : ∀ g ∈ o.guards, g.tracked = false →
    ∀ entry ∈ o.queue.log, entry.2.idleRound? o.queue.id o.queue.inst ≠ some g.round

theorem Tracked.reached_of_idle (tracked : o.Tracked) {entry : Entry} (logged : entry ∈ o.queue.log)
    (idle : entry.2.idleRound? o.queue.id o.queue.inst = some round) : o.permission.Reached round 2 := by
  obtain ⟨number, sequence, shape⟩ := Command.reporter?_of_idle idle
  have known := tracked.sound.logged entry logged (by rw [shape]; rfl)
  obtain ⟨_, place, _, same, there⟩ := tracked.sound.sent _ known (by rw [shape]; rfl)
  rw [shape] at same
  cases same
  have reported : (sequence, false) ∈ o.flow round :=
    mem_append_left _ (mem_filterMap.mpr ⟨_, mem_of_getElem? there, rfl⟩)
  exact (tracked.flows.started round (ne_nil_of_mem reported)).2

namespace Recovering

theorem recover (recovering : o.Recovering) (permitted : o.permission.allows o.now round .execution) :
    { o with guards := o.guards ++ [Guard.untracked round] }.Recovering := by
  obtain ⟨grant, granted, ofRound, live, phase, _⟩ := Permission.allows_iff.mp permitted
  have tracked := recovering.guarded.tracked
  have current := (tracked.live grant granted live).1
  refine ⟨recovering.guarded.untracked round, ?_, ?_⟩
  · intro g member recovers
    rcases mem_append.mp member with old | new
    · exact recovering.ran g old recovers
    · rw [mem_singleton.mp new]
      exact tracked.ran round (ofRound ▸ current)
  · intro g member recovers entry logged
    rcases mem_append.mp member with old | new
    · exact recovering.spared g old recovers entry logged
    rw [mem_singleton.mp new]
    intro idle
    obtain ⟨grant', granted', later | ⟨_, serving⟩⟩ := tracked.reached_of_idle logged idle
    · rw [granted] at granted'
      cases granted'
      exact absurd ofRound.symm (UInt64.ne_of_lt later)
    · rw [granted] at granted'
      cases granted'
      rw [phase] at serving
      exact absurd serving (by decide)

theorem move (recovering : o.Recovering) (move : Move Spares o after) : after.Recovering := by
  have guarded := recovering.guarded.move move
  cases move with
  | commit entry later origin meets =>
    refine ⟨guarded, ?_, ?_⟩
    · intro g member recovers
      exact Queue.Saw.commit recovering.guarded.tracked.sound (recovering.ran g member recovers) entry
    · intro g member recovers other logged
      rcases mem_append.mp logged with old | new
      · exact recovering.spared g member recovers other old
      · rw [mem_singleton.mp new]
        exact fun idle => meets g.round idle g member recovers rfl
  | learn count grows known =>
    refine ⟨guarded, ?_, recovering.spared⟩
    intro g member recovers
    exact Queue.Saw.learn (recovering.ran g member recovers) grows
  | recover round permitted => exact recovering.recover permitted
  | untracked round off => exact absurd (off.symm.trans recovering.guarded.tracked.enabled) nofun
  | claim round wanted deadline activity permitted entered =>
    have old : ∀ g ∈ o.guards ++ [Guard.waiting round wanted deadline], g.tracked = false → g ∈ o.guards := by
      intro g member recovers
      rcases mem_append.mp member with old | new
      · exact old
      · rw [mem_singleton.mp new] at recovers
        cases recovers
    exact ⟨guarded, fun g member recovers => recovering.ran g (old g member recovers) recovers,
      fun g member recovers => recovering.spared g (old g member recovers) recovers⟩
  | hold place g there confirmed =>
    have old : ∀ h ∈ o.guards.set place { g with held := true }, ∃ h' ∈ o.guards, h'.tracked = h.tracked ∧
        h'.round = h.round := by
      intro h member
      rcases mem_or_eq_of_mem_set member with old | rfl
      · exact ⟨h, old, rfl, rfl⟩
      · exact ⟨g, mem_of_getElem? there, rfl, rfl⟩
    refine ⟨guarded, ?_, ?_⟩
    · intro h member recovers
      obtain ⟨h', held, tracks, ofRound⟩ := old h member
      have ran := recovering.ran h' held (tracks.trans recovers)
      rw [ofRound] at ran
      exact ran
    · intro h member recovers entry logged
      obtain ⟨h', held, tracks, ofRound⟩ := old h member
      rw [← ofRound]
      exact recovering.spared h' held (tracks.trans recovers) entry logged
  | drop place g there =>
    refine ⟨guarded, ?_, ?_⟩
    · intro h member recovers
      have ran := recovering.ran h (mem_of_mem_eraseIdx member) recovers
      split
      · exact ran
      · exact ran
    · intro h member recovers
      have spared := recovering.spared h (mem_of_mem_eraseIdx member) recovers
      split
      · exact spared
      · exact spared
  | wait | adopt | close | push | drain | prepare | send | settle | acknowledge | ask | renew =>
    exact ⟨guarded, recovering.ran, recovering.spared⟩

theorem moves (recovering : o.Recovering) (moves : Moves Spares o after) : after.Recovering := by
  induction moves with
  | refl => exact recovering
  | tail _ taken ih => exact ih.move taken

theorem no_rebalance (recovering : o.Recovering) {g : Guard} (member : g ∈ o.guards) (recovers : g.tracked = false)
    (split : o.queue.log = before ++ rest)
    (next : rest = [] ∨ ∃ tail, rest = (index, .rebalanceExecutor target inst term g.round expected idle group) :: tail) :
    outcome before (index, .rebalanceExecutor target inst term g.round expected idle group) ≠ .newExecutor e := by
  intro moved
  obtain ⟨seen, short, ran⟩ := recovering.ran g member recovers
  have sound := recovering.guarded.tracked.sound
  obtain ⟨_, runs, reported⟩ := sound.rebalance short ran split next moved
  have ascending : Ascending 0 before := by
    have whole := sound.ascending
    rw [split] at whole
    exact (ascending_append.mp whole).1
  have last := (tally o.queue.id o.queue.inst g.round ascending).activity runs
  rw [reported] at last
  obtain ⟨command, taken, kind⟩ := mem_filterMap.mp (mem_of_getLast? last.symm)
  obtain ⟨⟨number, _⟩, accepted, rfl⟩ := mem_map.mp taken
  obtain ⟨place, logged⟩ := mem_log_of_accepted accepted
  refine recovering.spared g member recovers _ (split ▸ mem_append_left _ logged) ?_
  dsimp only at kind
  rename_i command
  cases command <;> cases kind
  simp [Command.idleRound?]

end Recovering

end Owner

namespace Ownership

def HandsOver (s : Ownership) (round : UInt64) : Prop :=
  ∃ index target inst term expected idle group before rest e, s.log = before ++ rest ∧
    (rest = [] ∨ ∃ tail, rest = (index, .rebalanceExecutor target inst term round expected idle group) :: tail) ∧
    outcome before (index, .rebalanceExecutor target inst term round expected idle group) = .newExecutor e

/-- A step that does not report the devices of a round idle while recovery goes on in it. -/
def SparesRecovery (s : Ownership) (action : Action) : Prop :=
  ∀ entry ∈ s.committed action, ∀ round ∈ entry.2.idleRound? s.coordinator.id s.coordinator.inst,
    ∀ g ∈ s.guards, g.tracked = false → g.round ≠ round

instance (s : Ownership) (action : Action) : Decidable (s.SparesRecovery action) :=
  have (entry : Entry) : Decidable (∀ round ∈ entry.2.idleRound? s.coordinator.id s.coordinator.inst,
      ∀ g ∈ s.guards, g.tracked = false → g.round ≠ round) :=
    decidable_of_iff ((entry.2.idleRound? s.coordinator.id s.coordinator.inst).all fun round =>
      s.guards.all fun g => g.tracked || g.round != round) (by
        cases entry.2.idleRound? s.coordinator.id s.coordinator.inst with
        | none => simp
        | some round => simp [or_iff_not_imp_left])
  inferInstanceAs (Decidable (∀ entry ∈ s.committed action, _))

def freshInstance : Ownership :=
  { now := 0
    coordinator :=
      { id := 1, inst := 1, group := "lib", validity := 100000000, cooldown := 0, cooldownUntil := 0
        permission := { activity := { enabled := true, node := 1, inst := 1 } }, startedAt := 0, nextCheck := 0
        nextReport := 0 } }

def ranThrough (actions : List Action) : Ownership := actions.foldl step freshInstance

theorem ranThrough_reached {condition : Ownership → Action → Prop} {actions : List Action}
    (follows : Run.Follows step (fun s action => s.Permits action ∧ condition s action) freshInstance actions) :
    (ranThrough actions).ReachedUnder condition :=
  ⟨freshInstance, ⟨1, 1, "lib", 100000000, 0, 0, _, rfl, rfl⟩, follows.reaches⟩

/-- The instance gets round 3, fences the others off and goes on to recovery. -/
def takesOver : List Action :=
  [.propose 1 (.candidate 1 1 1 "lib" 1 true), .propose 2 (.candidate 2 2 1 "lib" 1 true),
   .propose 3 (.assignExecutor 1 1 1 none "lib"), .learn 3, .tick 1 true, .confirm 1 3 true [(1, 3)],
   .event (.fenced 3), .wait 25000000, .tick 1 true, .deliver 4 0, .learn 1, .observe true,
   .wait 25000000, .tick 1 true, .confirm 1 4 true [(3, 4)]]

def goesReady : List Action :=
  [.wait 25000000, .tick 1 true, .deliver 5 1, .learn 1, .observe true, .wait 25000000, .tick 1 true,
   .confirm 1 5 true [(5, 5)], .wait 25000000, .tick 1 true, .deliver 6 2, .learn 1, .observe true]

def worksInRound3 : List Action :=
  takesOver ++ .event (.serving 3) :: goesReady ++
    [.begin 3, .wait 25000000, .tick 1 true, .deliver 7 3, .learn 1, .observe true, .poll 0]

theorem no_rebalance_during_device_work {s : Ownership} (reached : s.Reached) {g : Guard} (member : g ∈ s.guards)
    (tracks : g.tracked) (held : g.held) (opened : g.round ∉ s.coordinator.closings) : ¬s.HandsOver g.round := by
  rintro ⟨index, target, inst, term, expected, idle, group, before, rest, e, split, next, moved⟩
  exact reached.guarded.no_rebalance member tracks held opened split next moved

theorem no_rebalance_during_device_work_round3 :
    (∃ g ∈ (ranThrough worksInRound3).guards, g.tracked ∧ g.held ∧ g.round = 3) ∧
      ¬(ranThrough worksInRound3).HandsOver 3 := by
  have reached : (ranThrough worksInRound3).Reached := ranThrough_reached (by decide +kernel)
  have opened : 3 ∉ (ranThrough worksInRound3).coordinator.closings := by decide +kernel
  have work : ∃ g ∈ (ranThrough worksInRound3).guards, g.tracked ∧ g.held ∧ g.round = 3 := by decide +kernel
  refine ⟨work, ?_⟩
  obtain ⟨g, member, tracks, held, ofRound⟩ := work
  have safe := no_rebalance_during_device_work reached member tracks held
  rw [ofRound] at safe
  exact safe opened

/-- Device reports are taken as idle and busy in turn, once the round was ready. -/
theorem device_reports_alternate {s : Ownership} (reached : s.Reached) (round : UInt64) : ∃ count,
    activities ((s.owner.queue.taken round).map Prod.snd) = alternation count ∧ (count ≠ 0 → s.owner.queue.Served round) := by
  have tracked := reached.guarded.tracked
  have start : activities ((s.owner.queue.taken round).map Prod.snd) <+: s.owner.flow round :=
    ((tracked.sound.accepted round).filterMap _).trans (prefix_append ..)
  obtain ⟨_, _, flow⟩ := tracked.flows.alternate round
  obtain ⟨_, taken⟩ := alternation_prefix (flow ▸ start)
  refine ⟨_, taken, fun some => (tracked.flows.started round fun none => ?_).1⟩
  exact some (congrArg length (prefix_nil.mp (none ▸ start)))

theorem device_reports_alternate_round3 : ∃ count,
    activities (((ranThrough worksInRound3).owner.queue.taken 3).map Prod.snd) = alternation count :=
  (device_reports_alternate (ranThrough_reached (by decide +kernel)) 3).imp fun _ taken => taken.1

/-- A held guard is on record as busy, and the registry counts the guards of its round. -/
theorem held_guard_recorded {s : Ownership} (reached : s.Reached) {g : Guard} (member : g ∈ s.guards) (tracks : g.tracked)
    (opened : g.round ∉ s.coordinator.closings) :
    Owner.holding s.guards g.round = s.coordinator.permission.activity.depth.toNat ∧
    (g.held → s.owner.queue.Recorded ⟨s.coordinator.id, s.coordinator.inst, g.round, g.wanted, true⟩) := by
  have guarded := reached.guarded
  obtain ⟨real, current⟩ := guarded.rounds g member tracks
  have same := current.resolve_right opened
  exact ⟨same ▸ guarded.counted (same ▸ real) (same ▸ opened), guarded.held g member tracks⟩

theorem held_guard_recorded_round3 : Owner.holding (ranThrough worksInRound3).guards 3 = 1 :=
  (held_guard_recorded (s := ranThrough worksInRound3) (g := ⟨3, true, 2, 200000000, true⟩)
    (ranThrough_reached (by decide +kernel)) (by decide +kernel) rfl (by decide +kernel)).1

theorem ReachedUnder.recovering {s : Ownership} (reached : s.ReachedUnder SparesRecovery) : s.owner.Recovering := by
  obtain ⟨first, starts, run⟩ := reached
  refine run.invariant (P := fun s => s.owner.Recovering) ?_ ?_
  · intro s action recovering permitted
    have moves : Owner.Moves Owner.Spares s.owner (s.step action).owner := by
      refine s.step_moves recovering.guarded.tracked.sound.seen permitted.1 ?_
      intro entry commits round idle
      exact permitted.2 entry commits round idle
    exact recovering.moves moves
  · have none : first.guards = [] := by
      obtain ⟨_, _, _, _, _, _, _, _, rfl⟩ := starts
      rfl
    have empty : ∀ g, g ∉ first.owner.guards := by
      intro g member
      rw [show first.owner.guards = [] from none] at member
      cases member
    exact ⟨start_guarded starts, fun g member => absurd member (empty g), fun g member => absurd member (empty g)⟩

theorem no_rebalance_during_spared_recovery {s : Ownership} (reached : s.ReachedUnder SparesRecovery) {g : Guard}
    (member : g ∈ s.guards) (recovers : g.tracked = false) : ¬s.HandsOver g.round := by
  rintro ⟨index, target, inst, term, expected, idle, group, before, rest, e, split, next, moved⟩
  exact reached.recovering.no_rebalance member recovers split next moved

theorem no_rebalance_during_spared_recovery_round3 :
    .untracked 3 ∈ (ranThrough (takesOver ++ [.begin 3])).guards ∧ ¬(ranThrough (takesOver ++ [.begin 3])).HandsOver 3 := by
  have reached : (ranThrough (takesOver ++ [.begin 3])).ReachedUnder SparesRecovery :=
    ranThrough_reached (by decide +kernel)
  have member : .untracked 3 ∈ (ranThrough (takesOver ++ [.begin 3])).guards := by decide +kernel
  exact ⟨member, no_rebalance_during_spared_recovery reached member rfl⟩

/-- A read that comes between the end of recovery and the first serving permission is not tracked, and the round goes
    on to be reported idle while it has the devices. -/
theorem rebalance_during_early_read : ∃ s : Ownership, s.Reached ∧ .untracked 3 ∈ s.guards ∧ s.HandsOver 3 := by
  have moved : (startedRound ((7, .rebalanceExecutor 2 2 1 3 1 1 "lib"),
      outcome (ranThrough (takesOver ++ .event (.serving 3) :: .begin 3 :: goesReady)).log
        (7, .rebalanceExecutor 2 2 1 3 1 1 "lib"))).isSome := by decide +kernel
  obtain ⟨e, result⟩ := newExecutor_of_started moved
  exact ⟨ranThrough (takesOver ++ .event (.serving 3) :: .begin 3 :: goesReady), ranThrough_reached (by decide +kernel),
    by decide +kernel, 7, 2, 2, 1, 1, 1, "lib", _, [], e, (append_nil _).symm, .inl rfl, result⟩

end Ownership

end TapeRs.Daemon
