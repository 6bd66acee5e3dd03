import TapeRs.Daemon.Ownership

namespace TapeRs.Daemon

open Coordinator

/-- The commands that an owner reports in a round, apart from the state of its devices. -/
def Command.ofOwner (id round : UInt64) : Command → Bool
  | fenced n r | abandoned n r _ | executorReady n r => n = id && r = round
  | tapeState .. | fileTask .. | managementReport .. | observeTape .. | catalogPart .. | tapeCommitted ..
  | tapeReclaimed .. => true
  | _ => false

theorem Command.activity?_ofOwner {id round : UInt64} {c : Command} (own : c.ofOwner id round) : c.activity? = none := by
  cases c <;> first | rfl | cases own

/-- What the safety of the devices depends on. -/
structure Owner where
  queue : Queue
  now : Nat
  permission : Permission
  pending : List PendingReport
  check : Option Check
  closings : List UInt64
  guards : List Guard

namespace Owner

def setActivity (o : Owner) (activity : ActivityRegistry) : Owner :=
  { o with permission := { o.permission with activity } }

def waiting (o : Owner) : List Command := o.pending.filterMap PendingReport.command?

def drained (o : Owner) (round : UInt64) : Owner :=
  { o.setActivity { o.permission.activity with pending := [] } with
    pending := o.pending ++ (o.permission.activity.pending.filter (·.round = round)).map fun update =>
      .command (.deviceActivity update.sequence update.busy) }

/-- Everything a step can do to the owner. -/
inductive Move (allowed : Owner → Entry → Prop) (o : Owner) : Owner → Prop
  | commit (entry : Entry) (later : lastIndex 0 o.queue.log < entry.1)
      (origin : entry.2.reporter? = some (o.queue.id, o.queue.inst) → entry.2 ∈ o.queue.sent) (meets : allowed o entry) :
      Move allowed o { o with queue := o.queue.commit entry }
  | learn (count : Nat) (grows : o.queue.seen ≤ count) (known : count ≤ o.queue.log.length) :
      Move allowed o { o with queue := o.queue.learn count }
  | wait (time : Nat) : Move allowed o { o with now := o.now + time }
  | adopt (own : Option UInt64) (owns : ∀ round, own = some round ↔ o.queue.Runs round) (changed : own ≠ o.queue.round)
      (closed : ∀ round, o.queue.round = some round → round ∈ o.closings) :
      Move allowed o { o with queue := o.queue.adopt own, pending := [], check := none }
  | close (round : UInt64) (current : o.queue.round = some round) :
      Move allowed o { o with permission := o.permission.close o.now round, closings := o.closings ++ [round] }
  | push (round : UInt64) (item : PendingReport) (current : o.queue.round = some round)
      (fits : ∀ c, item.command? = some c → c.ofOwner o.queue.id round) :
      Move allowed o { o with pending := o.pending ++ [item] }
  | drain (round : UInt64) (current : o.queue.round = some round) : Move allowed o (o.drained round)
  | prepare (round : UInt64) (command : Command) (rest : List PendingReport) (current : o.queue.round = some round)
      (empty : o.queue.reports = []) (runs : o.queue.Runs round)
      (taken : o.pending = .command command :: rest ∨ ∃ catalog tail, o.pending = .catalog catalog :: tail ∧
        command.ofOwner o.queue.id round ∧ rest.filterMap PendingReport.command? = tail.filterMap PendingReport.command?) :
      Move allowed o { o with queue := o.queue.prepare round command, pending := rest }
  | send (cmd : Command) (origin : cmd ∈ o.queue.reports ∨ cmd.reporter? ≠ some (o.queue.id, o.queue.inst)) :
      Move allowed o { o with queue := o.queue.send cmd }
  | settle : Move allowed o { o with queue := o.queue.settle }
  | acknowledge : Move allowed o (o.setActivity (o.permission.activity.observe (replay o.queue.past).deviceActivity))
  | ask (check : Check) (current : o.queue.round = some check.round) : Move allowed o { o with check := some check }
  | renew (check : Check) (asked : o.check = some check) (phase : check.phase = (replay o.queue.past).phase)
      (runs : o.queue.Runs check.round) :
      Move allowed o { o with
        permission := (o.permission.renew o.now check.round check.phase check.deadline).1, check := none }
  | recover (round : UInt64) (permitted : o.permission.allows o.now round .execution) :
      Move allowed o { o with guards := o.guards ++ [.untracked round] }
  | untracked (round : UInt64) (off : o.permission.activity.enabled = false) :
      Move allowed o { o with guards := o.guards ++ [.untracked round] }
  | claim (round wanted : UInt64) (deadline : Nat) (activity : ActivityRegistry)
      (permitted : o.permission.allows o.now round .serving)
      (entered : o.permission.activity.enter round = (activity, .waiting wanted)) :
      Move allowed o { o.setActivity activity with
        guards := o.guards ++ [.waiting round wanted deadline] }
  | hold (place : Nat) (g : Guard) (there : o.guards[place]? = some g)
      (confirmed : o.permission.activity.confirmed g.round g.wanted) :
      Move allowed o { o with guards := o.guards.set place { g with held := true } }
  | drop (place : Nat) (g : Guard) (there : o.guards[place]? = some g) :
      Move allowed o { if g.tracked then o.setActivity (o.permission.activity.release g.round) else o with
        guards := o.guards.eraseIdx place }

abbrev Moves (allowed : Owner → Entry → Prop) : Owner → Owner → Prop := Relation.ReflTransGen (Move allowed)

end Owner

namespace ActivityRegistry

theorem enter_lost {r activity : ActivityRegistry} {round : UInt64} (lost : r.enter round = (activity, .lost)) :
    activity = r := by
  unfold enter at lost
  split at lost
  · cases lost
  split at lost
  · cases lost
    rfl
  split at lost
  · cases lost
    rfl
  rename_i claimed taken
  split at lost
  · rename_i full
    cases lost
    unfold ActivityRegistry.claimed at taken
    split at taken
    · rename_i first
      obtain ⟨sequence, _, rfl⟩ := Option.map_eq_some_iff.mp taken
      rw [first] at full
      cases full
    · cases taken
      rfl
  · cases lost

theorem enter_untracked {r activity : ActivityRegistry} {round : UInt64} (free : r.enter round = (activity, .untracked)) :
    r.enabled = false := by
  unfold enter at free
  split at free
  · rename_i off
    simpa using off
  split at free
  · cases free
  · split at free
    · cases free
    · split at free <;> cases free

end ActivityRegistry

def Coordinator.queued (c : Coordinator) (items : List PendingReport) : Coordinator :=
  { c with pending := c.pending ++ items }

/-- The same instance in the same round. -/
structure Coordinator.Keeps (c after : Coordinator) : Prop where
  round : after.round = c.round
  id : after.id = c.id
  inst : after.inst = c.inst

theorem Coordinator.Keeps.refl (c : Coordinator) : c.Keeps c := ⟨rfl, rfl, rfl⟩

theorem Coordinator.Keeps.trans {a b c : Coordinator} (first : a.Keeps b) (second : b.Keeps c) : a.Keeps c :=
  ⟨second.round.trans first.round, second.id.trans first.id, second.inst.trans first.inst⟩

namespace Ownership

def ownerWith (s : Ownership) (c : Coordinator) : Owner :=
  { queue :=
      { id := c.id, inst := c.inst, log := s.log, seen := s.seen, round := c.round, reportSequence := c.reportSequence
        reports := c.reports, sent := c.sent, issued := c.issued }
    now := s.now
    permission := c.permission
    pending := c.pending
    check := c.check
    closings := c.closings
    guards := s.guards }

def owner (s : Ownership) : Owner := s.ownerWith s.coordinator

variable {allowed : Owner → Entry → Prop} (s : Ownership) {c : Coordinator} {round : UInt64}

theorem own_iff {ctl : ControlState} : c.own ctl = some round ↔ ctl.core.Runs c.id c.inst round := by
  unfold own Core.Runs ControlState.core
  cases ctl.executor with
  | none => simp
  | some e =>
    simp only [Option.map_eq_some_iff, Option.filter_eq_some_iff, Option.some.injEq, Bool.and_eq_true, decide_eq_true_eq]
    constructor
    · rintro ⟨_, ⟨rfl, ofNode, owned⟩, ofRound⟩
      exact ⟨owned, e, rfl, ofNode, ofRound⟩
    · rintro ⟨owned, _, rfl, ofNode, ofRound⟩
      exact ⟨e, ⟨rfl, ofNode, owned⟩, ofRound⟩

theorem report_moves {command : Command} (fits : command.ofOwner c.id round) :
    Owner.Moves allowed (s.ownerWith c) (s.ownerWith (c.report round command)) := by
  unfold report
  split
  · exact .refl
  rename_i current
  refine .single (.push round (.command command) (not_not.mp current) ?_)
  rintro _ ⟨⟩
  exact fits

theorem lose_moves (reason : String) :
    Owner.Moves allowed (s.ownerWith c) (s.ownerWith (c.lose s.now round reason)) := by
  unfold lose
  split
  · rename_i current
    have fits : (Command.abandoned c.id round reason).ofOwner c.id round := by simp [Command.ofOwner]
    exact .head (.close round current)
      (s.report_moves (c := { c.closeRound s.now round with cooldownUntil := s.now + c.cooldown, up := 0 }) fits)
  · exact .refl

/-- The owner gives up its round when its devices or its network are not complete. -/
def disqualified (c : Coordinator) (eligible : Bool) : Coordinator :=
  match c.round with
  | some round => if !eligible && c.scope.isSome then c.lose s.now round "本库完整设备组或入口网络资格已失效" else c
  | none => c

theorem capable_moves (drives : Nat) (eligible : Bool) :
    Owner.Moves allowed (s.ownerWith c) (s.ownerWith (c.capable s.now drives eligible)) := by
  have lost : ∀ c : Coordinator, Owner.Moves allowed (s.ownerWith c) (s.ownerWith (s.disqualified c eligible)) := by
    intro c
    unfold disqualified
    split
    · split
      · exact s.lose_moves _
      · exact .refl
    · exact .refl
  exact (lost { c with up := if eligible then min (c.up + 1) 255 else 0 }).tail (.send _ (.inr nofun))

theorem event_moves {event : ExecEvent} (genuine : event.genuine) :
    Owner.Moves allowed (s.ownerWith c) (s.ownerWith (c.event s.now s.ctl event)) := by
  cases event with
  | management round command =>
    refine s.report_moves ?_
    cases command <;> first | rfl | cases genuine
  | fileTask | tapeState | reclaimAbandoned | reclaimed => exact s.report_moves rfl
  | capability drives eligible => exact s.capable_moves drives eligible
  | fenced | serving => exact s.report_moves (by simp [Command.ofOwner])
  | committed round barcode volumeUuid generation filesTotal bytesUsed bytesWritten files full =>
    simp only [event]
    split
    · exact s.report_moves rfl
    split
    · rename_i current
      exact .single (.push round (.catalog _) current nofun)
    · exact .refl
  | fenceFailed round reason | lost round reason => exact s.lose_moves reason

theorem observe_moves (directoryIdle : Bool) :
    Owner.Moves allowed (s.ownerWith c) (s.ownerWith (c.observe s.now s.ctl directoryIdle)) := by
  unfold observe
  refine .head .acknowledge ?_
  dsimp only
  split
  · exact .single .settle
  · exact .refl

theorem adopt_moves (changed : c.own s.ctl ≠ c.round) :
    Owner.Moves allowed (s.ownerWith c) (s.ownerWith (c.adopt s.now (c.own s.ctl))) := by
  have turn : ∀ c' : Coordinator, c'.own s.ctl ≠ c'.round → (∀ round, c'.round = some round → round ∈ c'.closings) →
      Owner.Move allowed (s.ownerWith c') (s.ownerWith
        { c' with
          round := c'.own s.ctl, startedAt := s.now, started := false, recovering := false, reportSequence := 0
          nextReport := s.now, reports := [], pending := [], check := none, nextCheck := s.now }) := by
    intro c' other closed
    exact .adopt _ (fun round => own_iff) other closed
  unfold adopt
  cases current : c.round with
  | none =>
    refine .single (turn c changed ?_)
    rw [current]
    exact nofun
  | some round =>
    refine .head (.close round current) (.single ?_)
    refine turn { c.closeRound s.now round with requests := c.requests ++ [.stop (some round) "设备 owner 已变更"] } changed ?_
    intro other same
    have equal : round = other := Option.some.inj (current.symm.trans same)
    simp [closeRound, equal]

theorem drain_eq (current : c.round = some round) (updates : List ActivityUpdate) :
    updates.foldl (fun c update =>
      if update.round = round then c.report round (.deviceActivity update.sequence update.busy) else c) c =
      c.queued ((updates.filter (·.round = round)).map fun update =>
        .command (.deviceActivity update.sequence update.busy)) := by
  induction updates generalizing c with
  | nil => simp [queued]
  | cons update rest ih =>
    rw [List.foldl_cons]
    by_cases here : update.round = round
    · have pushed : c.report round (.deviceActivity update.sequence update.busy) =
          c.queued [.command (.deviceActivity update.sequence update.busy)] := by
        simp [report, queued, current]
      have still : (c.queued [.command (.deviceActivity update.sequence update.busy)]).round = some round := current
      rw [if_pos here, pushed, ih still]
      simp [queued, here]
    · have skipped := ih current
      rw [if_neg here, skipped]
      simp [here]

theorem drain_queued (c : Coordinator) (current : c.round = some round) :
    c.drain round = queued
      { c with permission := { c.permission with activity := { c.permission.activity with pending := [] } } }
      ((c.permission.activity.pending.filter (·.round = round)).map fun update =>
        .command (.deviceActivity update.sequence update.busy)) :=
  drain_eq (c := { c with permission := { c.permission with activity := { c.permission.activity with pending := [] } } })
    current c.permission.activity.pending

theorem drain_moves (current : c.round = some round) :
    Owner.Moves allowed (s.ownerWith c) (s.ownerWith (c.drain round)) := by
  rw [drain_queued c current]
  exact .single (.drain round current)

theorem expire_moves (directoryReady : Bool) (round : UInt64) :
    Owner.Moves allowed (s.ownerWith c) (s.ownerWith (c.expire s.now directoryReady round)) := by
  unfold expire
  split
  · exact s.lose_moves _
  · exact .refl

theorem ask_moves (term : UInt64) (directoryReady : Bool) (current : c.round = some round) :
    Owner.Moves allowed (s.ownerWith c) (s.ownerWith (c.ask s.now term s.ctl directoryReady round)) := by
  unfold ask
  split
  · exact .single (.ask _ current)
  · exact .refl

theorem start_same : s.ownerWith (c.start s.now round) = s.ownerWith c := by
  unfold start
  split <;> rfl

theorem recover_same : s.ownerWith (c.recover s.now s.ctl round) = s.ownerWith c := by
  unfold recover
  split <;> rfl

theorem prepareReport_moves (runs : ∀ round, c.round = some round → s.ctl.core.Runs c.id c.inst round) :
    Owner.Moves allowed (s.ownerWith c) (s.ownerWith c.prepareReport) := by
  unfold prepareReport
  split
  · rename_i round command rest empty current front
    exact .single (.prepare round command rest current empty (runs round current) (.inl front))
  · rename_i round catalog rest empty current front
    split
    · rename_i next command made
      refine .single (.prepare round command _ current empty (runs round current) (.inr ⟨catalog, rest, front, ?_, ?_⟩))
      · unfold CatalogReport.nextCommand at made
        split at made
        · cases made
          rfl
        split at made
        · cases made
          rfl
        · cases made
      · split
        · rfl
        · rfl
    · exact .refl
  · exact .refl

theorem prepareReport_head {cmd : Command} (there : cmd ∈ c.reports.head?.toList) : cmd ∈ c.reports := by
  cases reports : c.reports with
  | nil => simp [reports] at there
  | cons head tail =>
    simp only [reports, List.head?_cons, Option.toList_some, List.mem_singleton] at there
    simp [there]

theorem send_moves (runs : ∀ round, c.round = some round → s.ctl.core.Runs c.id c.inst round) :
    Owner.Moves allowed (s.ownerWith c) (s.ownerWith (c.send s.now)) := by
  unfold send
  split
  · refine (s.prepareReport_moves runs).trans ?_
    generalize c.prepareReport = c
    dsimp only
    cases front : c.reports.head? with
    | none =>
      simp only [Option.toList_none, List.append_nil]
      exact .refl
    | some cmd => exact .single (.send cmd (.inl (prepareReport_head (by simp [front]))))
  · exact .refl

theorem lose_keeps (c : Coordinator) (now : Nat) (round : UInt64) (reason : String) : c.Keeps (c.lose now round reason) := by
  unfold lose
  split
  · unfold report
    split <;> exact ⟨rfl, rfl, rfl⟩
  · exact .refl c

theorem drain_keeps (current : c.round = some round) : c.Keeps (c.drain round) := by
  rw [drain_queued c current]
  exact ⟨rfl, rfl, rfl⟩

theorem expire_keeps (now : Nat) (directoryReady : Bool) (round : UInt64) :
    c.Keeps (c.expire now directoryReady round) := by
  unfold expire
  split
  · have kept := lose_keeps c now round "目录未就绪或多数派执行许可已失效"
    exact ⟨kept.round, kept.id, kept.inst⟩
  · exact .refl c

theorem ask_keeps (now : Nat) (term : UInt64) (ctl : ControlState) (directoryReady : Bool) (round : UInt64) :
    c.Keeps (c.ask now term ctl directoryReady round) := by
  unfold ask
  split
  · exact ⟨rfl, rfl, rfl⟩
  · exact .refl c

theorem start_keeps (now : Nat) (round : UInt64) : c.Keeps (c.start now round) := by
  unfold start
  split
  · exact ⟨rfl, rfl, rfl⟩
  · exact .refl c

theorem recover_keeps (now : Nat) (ctl : ControlState) (round : UInt64) : c.Keeps (c.recover now ctl round) := by
  unfold recover
  split
  · exact ⟨rfl, rfl, rfl⟩
  · exact .refl c

theorem turn_moves (term : UInt64) (directoryReady : Bool) (current : c.round = some round)
    (runs : s.ctl.core.Runs c.id c.inst round) :
    Owner.Moves allowed (s.ownerWith c) (s.ownerWith
      ((((((c.drain round).expire s.now directoryReady round).ask s.now term s.ctl directoryReady round).start s.now
        round).recover s.now s.ctl round).send s.now)) := by
  have drained := drain_keeps current
  refine (s.drain_moves current).trans ?_
  generalize c.drain round = c₁ at drained ⊢
  have expired := drained.trans (expire_keeps s.now directoryReady round)
  refine (s.expire_moves directoryReady round).trans ?_
  generalize c₁.expire s.now directoryReady round = c₂ at expired ⊢
  have asked := expired.trans (ask_keeps s.now term s.ctl directoryReady round)
  refine (s.ask_moves term directoryReady (expired.round.trans current)).trans ?_
  generalize c₂.ask s.now term s.ctl directoryReady round = c₃ at asked ⊢
  have recovered := (asked.trans (start_keeps s.now round)).trans (recover_keeps s.now s.ctl round)
  rw [← s.start_same, ← s.recover_same]
  refine s.send_moves ?_
  intro other there
  rw [recovered.round, current] at there
  cases there
  rw [recovered.id, recovered.inst]
  exact runs

theorem tick_moves (term : UInt64) (directoryReady : Bool) :
    Owner.Moves allowed (s.ownerWith c) (s.ownerWith (c.tick s.now term s.ctl directoryReady)) := by
  unfold tick
  by_cases same : c.own s.ctl = c.round
  · rw [if_pos same]
    dsimp only
    split
    · exact .refl
    · rename_i round current
      exact s.turn_moves term directoryReady current (own_iff.mp (same.trans current))
  · rw [if_neg same]
    refine (s.adopt_moves same).trans ?_
    have identity : ∀ own, (c.adopt s.now own).id = c.id ∧ (c.adopt s.now own).inst = c.inst := by
      intro own
      unfold adopt
      cases c.round <;> exact ⟨rfl, rfl⟩
    have adopted : ∀ own, (c.adopt s.now own).round = own := by
      intro own
      unfold adopt
      cases c.round <;> rfl
    have owns : (c.adopt s.now (c.own s.ctl)).own s.ctl = (c.adopt s.now (c.own s.ctl)).round := by
      rw [adopted, own, (identity _).1, (identity _).2]
      rfl
    dsimp only
    split
    · exact .refl
    · rename_i round current
      exact s.turn_moves term directoryReady current (own_iff.mp (owns.trans current))

theorem confirm_moves (term applied : UInt64) (directoryReady : Bool) (reads : List (UInt64 × UInt64)) :
    Owner.Moves allowed (s.ownerWith c) (s.ownerWith (c.confirm s.now term s.ctl applied directoryReady reads)) := by
  unfold confirm
  split
  · exact .refl
  rename_i check asked
  split
  · rename_i granted
    simp only [Bool.and_eq_true, decide_eq_true_eq] at granted
    obtain ⟨⟨⟨⟨_, phase⟩, owned⟩, current⟩, _⟩ := granted
    obtain ⟨e, there, here⟩ := (Option.any_eq_true _ _).mp current
    simp only [Bool.and_eq_true, decide_eq_true_eq] at here
    exact .single (.renew check asked phase ⟨owned, e, there, here.1, here.2⟩)
  · exact .refl

theorem begin_moves (round : UInt64) : Owner.Moves allowed s.owner (s.begin round).owner := by
  unfold begin
  split
  · rename_i permitted
    exact .single (.recover round permitted)
  split
  · exact .refl
  rename_i deadline valid
  split
  · rename_i entered
    exact .single (.untracked round (ActivityRegistry.enter_untracked entered))
  · rename_i activity wanted entered
    refine .single (.claim round wanted deadline activity ?_ entered)
    have known : s.coordinator.permission.deadline s.now round .serving = some deadline := valid
    show (s.coordinator.permission.deadline s.now round .serving).isSome = true
    rw [known]
    rfl
  · rename_i activity entered
    rw [ActivityRegistry.enter_lost entered]
    exact .refl

theorem drop_move {place : Nat} {g : Guard} (there : s.guards[place]? = some g) :
    Owner.Move allowed s.owner (s.drop place g).owner := by
  have dropped : Owner.Move allowed s.owner _ := .drop place g there
  unfold drop
  cases tracked : g.tracked with
  | true =>
    simp only [tracked, if_true] at dropped ⊢
    exact dropped
  | false =>
    simp only [tracked, Bool.false_eq_true, if_false] at dropped ⊢
    exact dropped

theorem poll_moves (place : Nat) : Owner.Moves allowed s.owner (s.poll place).owner := by
  unfold poll
  split
  · rename_i g there
    split
    · exact .refl
    split
    · exact .single (s.drop_move there)
    split
    · rename_i confirmed
      exact .single (.hold place g there confirmed)
    · exact .refl
  · exact .refl

theorem finish_moves (place : Nat) : Owner.Moves allowed s.owner (s.finish place).owner := by
  unfold finish
  split
  · rename_i g there
    split
    · exact .single (s.drop_move there)
    · exact .refl
  · exact .refl

def committed (s : Ownership) : Action → Option Entry
  | .propose index cmd => some (index, cmd)
  | .deliver index place => (s.coordinator.sent[place]?).map fun cmd => (index, cmd)
  | _ => none

theorem step_moves {action : Action} (seen : s.seen ≤ s.log.length) (permitted : s.Permits action)
    (meets : ∀ entry, s.committed action = some entry → allowed s.owner entry) :
    Owner.Moves allowed s.owner (s.step action).owner := by
  cases action with
  | propose index cmd =>
    exact .single (.commit (index, cmd) permitted.1 (fun mine => absurd mine permitted.2) (meets _ rfl))
  | deliver index place =>
    simp only [step]
    cases known : s.coordinator.sent[place]? with
    | none => exact .refl
    | some cmd =>
      refine .single (.commit (index, cmd) permitted (fun _ => List.mem_of_getElem? known) (meets _ ?_))
      simp [committed, known]
  | learn count =>
    exact .single (.learn _ (Nat.le_min.mpr ⟨Nat.le_add_right .., seen⟩) (Nat.min_le_right ..))
  | wait time => exact .single (.wait time)
  | setCatalogReady ready => exact .refl
  | tick term directoryReady => exact s.tick_moves term directoryReady
  | event event => exact s.event_moves permitted
  | observe directoryIdle => exact s.observe_moves directoryIdle
  | confirm term applied directoryReady reads => exact s.confirm_moves term applied directoryReady reads
  | begin round => exact s.begin_moves round
  | poll place => exact s.poll_moves place
  | finish place => exact s.finish_moves place

end Ownership

end TapeRs.Daemon
