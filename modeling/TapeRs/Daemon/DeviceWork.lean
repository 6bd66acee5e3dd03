import TapeRs.Daemon.OwnerMoves

namespace TapeRs.Daemon

open PendingReport Word List

/-- The reports of a round's device work: idle, busy, idle and so on, numbered from one. -/
def alternation (count : Nat) : List (UInt64 × Bool) :=
  (List.range' 1 count).map fun number => (UInt64.ofNat number, decide (number % 2 = 0))

@[simp] theorem length_alternation (count : Nat) : (alternation count).length = count := by simp [alternation]

theorem alternation_succ (count : Nat) :
    alternation (count + 1) = alternation count ++ [(UInt64.ofNat (count + 1), decide ((count + 1) % 2 = 0))] := by
  simp [alternation, range'_concat, Nat.add_comm]

theorem alternation_prefix {reports : List (UInt64 × Bool)} {count : Nat} (start : reports <+: alternation count) :
    reports.length ≤ count ∧ reports = alternation reports.length := by
  have short : reports.length ≤ count := by simpa using start.length_le
  refine ⟨short, ?_⟩
  have split : alternation count = alternation reports.length ++
      (range' (1 + reports.length) (count - reports.length)).map fun number =>
        (UInt64.ofNat number, decide (number % 2 = 0)) := by
    rw [alternation, alternation, ← map_append, range'_append_1, Nat.add_sub_cancel' short]
  have taken := prefix_iff_eq_take.mp start
  rw [split, take_left' (length_alternation _)] at taken
  exact taken

theorem alternation_complete {first second : List (UInt64 × Bool)} {number : UInt64} {busy : Bool}
    (grown : first <+: second) (whole : second <+: alternation number.toNat) (last : first.getLast? = some (number, busy)) :
    first = second := by
  obtain ⟨short, same⟩ := alternation_prefix (grown.trans whole)
  have long : number.toNat ≤ first.length := by
    cases size : first.length with
    | zero =>
      rw [length_eq_zero_iff.mp size] at last
      cases last
    | succ count =>
      rw [size] at same short
      rw [same, alternation_succ, getLast?_concat, Option.some.injEq, Prod.mk.injEq] at last
      have bound := number.toNat_lt
      rw [← last.1, UInt64.toNat_ofNat', Nat.mod_eq_of_lt (by omega)]
  refine grown.eq_of_length_le ?_
  have bound := whole.length_le
  rw [length_alternation] at bound
  omega

theorem activities_grow {first second : List Command} (grown : first <+: second) : activities first <+: activities second :=
  grown.filterMap _

theorem activities_append (first second : List Command) :
    activities (first ++ second) = activities first ++ activities second :=
  filterMap_append

namespace ActivityRegistry

theorem close_eq (r : ActivityRegistry) (round : UInt64) :
    r.close round = { r with
      closed := r.closed || r.round = round
      pending := if r.round = round then [] else r.pending } := by
  unfold close
  by_cases here : r.round = round
  · simp [here]
  · simp [here]

theorem enter_waiting {r activity : ActivityRegistry} {round wanted : UInt64}
    (entered : r.enter round = (activity, .waiting wanted)) :
    r.closed = false ∧ r.round = round ∧ ∃ depth, succ? r.depth = some depth ∧
      ((r.depth = 0 ∧ succ? r.sequence = some wanted ∧
          activity = { r with sequence := wanted, depth, pending := r.pending ++ [{ round, sequence := wanted, busy := true }] }) ∨
        (r.depth ≠ 0 ∧ wanted = r.sequence ∧ activity = { r with depth })) := by
  unfold enter at entered
  split at entered
  · cases entered
  split at entered
  · cases entered
  rename_i here
  simp only [not_or, Bool.not_eq_true, ne_eq, not_not] at here
  refine ⟨here.1, here.2, ?_⟩
  split at entered
  · cases entered
  rename_i claimed taken
  split at entered
  · cases entered
  rename_i depth deeper
  cases entered
  unfold ActivityRegistry.claimed at taken
  split at taken
  · rename_i first
    obtain ⟨sequence, next, rfl⟩ := Option.map_eq_some_iff.mp taken
    exact ⟨depth, deeper, .inl ⟨first, next, rfl⟩⟩
  · rename_i nested
    cases taken
    exact ⟨depth, deeper, .inr ⟨nested, rfl, rfl⟩⟩

theorem observe_eq (r : ActivityRegistry) (proof : Option DeviceActivityState) :
    ∃ acknowledged, r.observe proof = { r with acknowledged } ∧
      ∀ p, acknowledged = some p → r.acknowledged = some p ∨
        (proof = some p ∧ p.node = r.node ∧ p.inst = r.inst ∧ p.round = r.round) := by
  unfold observe
  split
  · rename_i p concerned
    obtain ⟨there, concerns⟩ := Option.filter_eq_some_iff.mp concerned
    simp only [ActivityRegistry.concerns, Bool.and_eq_true, decide_eq_true_eq] at concerns
    obtain ⟨⟨⟨⟨⟨_, ofNode⟩, ofInst⟩, ofRound⟩, _⟩, _⟩ := concerns
    split
    · refine ⟨some p, rfl, ?_⟩
      rintro _ ⟨⟩
      exact .inr ⟨there, ofNode, ofInst, ofRound⟩
    · exact ⟨r.acknowledged, rfl, fun p old => .inl old⟩
  · exact ⟨r.acknowledged, rfl, fun p old => .inl old⟩

theorem release_cases (r : ActivityRegistry) (round : UInt64) :
    (r.release round = r ∧ (r.closed = true ∨ r.round ≠ round ∨ r.depth = 0)) ∨
    (r.closed = false ∧ r.round = round ∧
      ((r.depth = 1 ∧ ∃ sequence, succ? r.sequence = some sequence ∧ r.release round =
          { r with depth := 0, sequence, pending := r.pending ++ [{ round, sequence, busy := false }] }) ∨
        (r.depth = 1 ∧ succ? r.sequence = none) ∨
        (r.depth ≠ 0 ∧ r.depth ≠ 1 ∧ r.release round = { r with depth := r.depth - 1 }))) := by
  unfold release
  split
  · rename_i idle
    exact .inl ⟨rfl, idle⟩
  rename_i working
  simp only [not_or, Bool.not_eq_true, ne_eq, not_not] at working
  refine .inr ⟨working.1, working.2.1, ?_⟩
  split
  · rename_i last
    split
    · rename_i sequence next
      exact .inl ⟨last, sequence, next, rfl⟩
    · rename_i full
      exact .inr (.inl ⟨last, full⟩)
  · rename_i nested
    exact .inr (.inr ⟨working.2.2, nested, rfl⟩)

end ActivityRegistry

theorem Permission.close_activity (p : Permission) (now : Nat) (round : UInt64) : (p.close now round).activity =
    { p.activity with
      closed := p.activity.closed || p.activity.round = round
      pending := if p.activity.round = round then [] else p.activity.pending } :=
  p.activity.close_eq round

namespace Queue

def Saw (q : Queue) (property : Core → Prop) : Prop :=
  ∃ count ≤ q.seen, property (replay (q.log.take count)).core

def Ran (q : Queue) (round : UInt64) : Prop := q.Saw fun core => core.Runs q.id q.inst round

def Served (q : Queue) (round : UInt64) : Prop :=
  q.Saw fun core => core.Runs q.id q.inst round ∧ core.executorReady

def Recorded (q : Queue) (a : DeviceActivityState) : Prop := q.Saw fun core => core.deviceActivity = some a

variable {q : Queue} {property : Core → Prop}

theorem Saw.commit (sound : q.Sound) (saw : q.Saw property) (entry : Entry) : (q.commit entry).Saw property := by
  obtain ⟨count, short, holds⟩ := saw
  have same : (q.commit entry).log.take count = q.log.take count :=
    take_append_of_le_length (short.trans sound.seen)
  exact ⟨count, short, same ▸ holds⟩

theorem Saw.learn {count : Nat} (saw : q.Saw property) (grows : q.seen ≤ count) : (q.learn count).Saw property := by
  obtain ⟨place, short, holds⟩ := saw
  exact ⟨place, short.trans grows, holds⟩

end Queue

namespace Owner

/-- The device reports of a round, from the first prepared to the last still in the registry. -/
def flow (o : Owner) (round : UInt64) : List (UInt64 × Bool) :=
  activities (o.queue.issuedIn round) ++
    if o.queue.round = some round then
      activities o.waiting ++
        if o.permission.activity.round = round then
          o.permission.activity.pending.map fun update => (update.sequence, update.busy)
        else []
    else []

/-- What the device reports of the rounds are like. -/
structure Flows (q : Queue) (p : Permission) (closings : List UInt64) (flow : UInt64 → List (UInt64 × Bool)) : Prop where
  alternate : ∀ round, ∃ count < UInt64.size, flow round = alternation count
  current : p.activity.round ≠ 0 → p.activity.round ∉ closings →
    flow p.activity.round = alternation p.activity.sequence.toNat
  unserved : ∀ round, q.round = some round → p.activity.round ≠ round → flow round = []
  started : ∀ round, flow round ≠ [] → q.Served round ∧ p.Reached round 2

/-- The registry, the permission and the queue agree on the rounds and on the device work in them. -/
structure Tracked (o : Owner) : Prop where
  sound : o.queue.Sound
  enabled : o.permission.activity.enabled = true
  node : o.permission.activity.node = o.queue.id
  inst : o.permission.activity.inst = o.queue.inst
  ran : ∀ round, o.queue.round = some round → o.queue.Ran round
  asked : ∀ check, o.check = some check → o.queue.round = some check.round
  live : ∀ g, o.permission.state = some g → g.closed = false → o.queue.round = some g.round ∧ g.round ≠ 0
  shutting : ∀ round ∈ o.closings, o.permission.Shut round
  gone : ∀ round ∈ o.closings, o.queue.round = some round ∨ o.queue.Left round
  served : o.permission.activity.round ≠ 0 →
    o.queue.round = some o.permission.activity.round ∨ o.permission.activity.round ∈ o.closings
  shut : o.permission.activity.closed = true ↔ o.permission.activity.round ∈ o.closings
  updates : ∀ update ∈ o.permission.activity.pending, update.round = o.permission.activity.round
  quiet : o.permission.activity.round = 0 → o.permission.activity.pending = []
  flows : Flows o.queue o.permission o.closings o.flow
  parity : o.permission.activity.round ≠ 0 → o.permission.activity.round ∉ o.closings →
    (o.permission.activity.depth = 0 ↔ o.permission.activity.sequence.toNat % 2 = 1)
  serving : o.permission.activity.round ≠ 0 →
    o.queue.Served o.permission.activity.round ∧ o.permission.Reached o.permission.activity.round 2
  issued : ∀ round, ∀ cmd ∈ o.queue.issuedIn round, cmd.activity? = none → cmd.ofOwner o.queue.id round
  waiting : ∀ round, o.queue.round = some round → ∀ cmd ∈ o.waiting, cmd.activity? = none →
    cmd.ofOwner o.queue.id round

namespace Tracked

variable {o : Owner} {round : UInt64} (tracked : o.Tracked)
include tracked

theorem commit {entry : Entry} (later : lastIndex 0 o.queue.log < entry.1)
    (origin : entry.2.reporter? = some (o.queue.id, o.queue.inst) → entry.2 ∈ o.queue.sent) :
    { o with queue := o.queue.commit entry }.Tracked := by
  have past := tracked.sound.past_commit entry
  refine { tracked with
    sound := tracked.sound.commit later origin, ran := ?_, gone := ?_, flows := { tracked.flows with started := ?_ }
    serving := ?_ }
  · intro round current
    exact Queue.Saw.commit tracked.sound (tracked.ran round current) entry
  · intro round closed
    rcases tracked.gone round closed with current | left
    · exact .inl current
    refine .inr ?_
    unfold Queue.Left Queue.Runs at left ⊢
    rw [past]
    exact left
  · intro round some
    obtain ⟨served, reached⟩ := tracked.flows.started round some
    exact ⟨Queue.Saw.commit tracked.sound served entry, reached⟩
  · intro real
    obtain ⟨served, reached⟩ := tracked.serving real
    exact ⟨Queue.Saw.commit tracked.sound served entry, reached⟩

theorem learn {count : Nat} (grows : o.queue.seen ≤ count) (known : count ≤ o.queue.log.length) :
    { o with queue := o.queue.learn count }.Tracked := by
  refine { tracked with
    sound := tracked.sound.learn grows known, ran := ?_, gone := ?_, flows := { tracked.flows with started := ?_ }
    serving := ?_ }
  · intro round current
    exact Queue.Saw.learn (tracked.ran round current) grows
  · intro round closed
    rcases tracked.gone round closed with current | left
    · exact .inl current
    · exact .inr (tracked.sound.left_learn grows left)
  · intro round some
    obtain ⟨served, reached⟩ := tracked.flows.started round some
    exact ⟨Queue.Saw.learn served grows, reached⟩
  · intro real
    obtain ⟨served, reached⟩ := tracked.serving real
    exact ⟨Queue.Saw.learn served grows, reached⟩

theorem wait (time : Nat) : { o with now := o.now + time }.Tracked := { tracked with }

theorem send {cmd : Command}
    (origin : cmd ∈ o.queue.reports ∨ cmd.reporter? ≠ some (o.queue.id, o.queue.inst)) :
    { o with queue := o.queue.send cmd }.Tracked :=
  { tracked with sound := tracked.sound.send origin, flows := { tracked.flows with } }

theorem settle : { o with queue := o.queue.settle }.Tracked :=
  { tracked with sound := tracked.sound.settle, flows := { tracked.flows with } }

theorem ask {check : Check} (current : o.queue.round = some check.round) :
    { o with check := some check }.Tracked := by
  refine { tracked with asked := ?_ }
  rintro _ ⟨⟩
  exact current

theorem flow_prefix {reports : List (UInt64 × Bool)} (start : reports <+: o.flow round) :
    ∃ count < UInt64.size, reports = alternation count := by
  obtain ⟨count, small, flows⟩ := tracked.flows.alternate round
  rw [flows] at start
  obtain ⟨short, same⟩ := alternation_prefix start
  exact ⟨reports.length, by omega, same⟩

theorem adopt {own : Option UInt64} (owns : ∀ round, own = some round ↔ o.queue.Runs round)
    (changed : own ≠ o.queue.round) (closed : ∀ round, o.queue.round = some round → round ∈ o.closings) :
    { o with queue := o.queue.adopt own, pending := [], check := none }.Tracked := by
  have left : ∀ round, round ∈ o.closings → o.queue.Left round := by
    intro round ended
    rcases tracked.gone round ended with current | left
    · exact tracked.sound.left_of_adopt owns changed current
    · exact left
  have ended : o.permission.activity.round ≠ 0 → o.permission.activity.round ∈ o.closings := by
    intro real
    rcases tracked.served real with current | ended
    · exact closed _ current
    · exact ended
  have fresh : ∀ round, own = some round → o.queue.issuedIn round = [] := by
    intro round mine
    by_contra some
    rcases tracked.sound.left round some with current | left
    · exact changed (mine.trans current.symm)
    · exact left.2 ((owns round).mp mine)
  have start : ∀ round, Owner.flow { o with queue := o.queue.adopt own, pending := [], check := none } round =
      activities (o.queue.issuedIn round) := by
    intro round
    have nothing : own = some round → o.permission.activity.round = round → o.permission.activity.pending = [] := by
      intro mine same
      by_cases real : o.permission.activity.round = 0
      · exact tracked.quiet real
      · exact absurd ((owns round).mp mine) (same ▸ (left _ (ended real)).2)
    unfold Owner.flow
    show activities (o.queue.issuedIn round) ++ (if own = some round then _ else _) = _
    split
    · rename_i mine
      split
      · rename_i same
        simp [Owner.waiting, nothing mine same, activities]
      · simp [Owner.waiting, activities]
    · simp
  have before : ∀ round, activities (o.queue.issuedIn round) <+: o.flow round := fun round => prefix_append ..
  refine { tracked with
    sound := tracked.sound.adopt owns changed, ran := ?_, asked := fun _ none' => (by cases none'), live := ?_, gone := ?_, served := ?_
    flows := ⟨?_, ?_, ?_, ?_⟩, waiting := fun _ _ _ member => (by cases member) }
  · intro round mine
    exact ⟨o.queue.seen, Nat.le_refl _, (owns round).mp mine⟩
  · intro g held opened
    have current := (tracked.live g held opened).1
    obtain ⟨g', held', later | ⟨_, shut⟩⟩ := tracked.shutting g.round (closed _ current)
    · rw [held] at held'
      cases held'
      exact absurd later (UInt64.lt_irrefl _)
    · rw [held] at held'
      cases held'
      rw [opened] at shut
      cases shut
  · intro round ended
    exact .inr (left round ended)
  · intro real
    exact .inr (ended real)
  · intro round
    rw [start]
    exact tracked.flow_prefix (before round)
  · intro real free
    exact absurd (ended real) free
  · intro round mine _
    rw [start, fresh round mine]
    rfl
  · intro round some
    rw [start] at some
    refine tracked.flows.started round ?_
    intro none
    exact some (prefix_nil.mp (none ▸ before round))

theorem close (current : o.queue.round = some round) :
    { o with permission := o.permission.close o.now round, closings := o.closings ++ [round] }.Tracked := by
  have kept := o.permission.close_activity o.now round
  have shut : ∀ other, o.permission.Shut other → (o.permission.close o.now round).Shut other :=
    fun other shut => shut.close round
  have reached : ∀ other rank, o.permission.Reached other rank → (o.permission.close o.now round).Reached other rank :=
    fun other rank reached => reached.close round
  have closes : (o.permission.close o.now round).Shut round := Permission.shut_of_close (UInt64.le_refl _)
  have opens : ∀ g, (o.permission.close o.now round).state = some g → g.closed = false →
      ∃ g', o.permission.state = some g' ∧ g'.closed = false ∧ g'.round = g.round := by
    intro g held live
    rcases o.permission.close_state o.now round with ⟨_, closed⟩ | ⟨g', held', _, closed⟩
    · rw [closed] at held
      cases held
      cases live
    · rw [closed] at held
      cases held
      simp only [Bool.or_eq_false_iff] at live
      exact ⟨g', held', live.1, rfl⟩
  generalize o.permission.close o.now round = p at kept shut reached closes opens ⊢
  have before : ∀ other, flow { o with permission := p, closings := o.closings ++ [round] } other <+: o.flow other := by
    intro other
    unfold flow
    refine (prefix_append_right_inj _).mpr ?_
    dsimp only
    rw [kept]
    split
    · refine (prefix_append_right_inj _).mpr ?_
      dsimp only
      split
      · split
        · exact nil_prefix
        · exact prefix_refl _
      · exact prefix_refl _
    · exact prefix_refl _
  have same : o.permission.activity.round ≠ round →
      flow { o with permission := p, closings := o.closings ++ [round] } = o.flow := by
    intro other
    funext place
    unfold flow
    dsimp only
    rw [kept, if_neg other]
    rfl
  have free : p.activity.round ∉ o.closings ++ [round] →
      o.permission.activity.round ∉ o.closings ∧ o.permission.activity.round ≠ round := by
    rw [kept]
    simp
  have activityRound : p.activity.round = o.permission.activity.round := by rw [kept]
  refine
    { sound := tracked.sound
      enabled := ?_
      node := ?_
      inst := ?_
      ran := tracked.ran
      asked := tracked.asked
      live := ?_
      shutting := ?_
      gone := ?_
      served := ?_
      shut := ?_
      updates := ?_
      quiet := ?_
      flows := ⟨?_, ?_, ?_, ?_⟩
      parity := ?_
      serving := ?_
      issued := tracked.issued
      waiting := tracked.waiting }
  · rw [kept]
    exact tracked.enabled
  · rw [kept]
    exact tracked.node
  · rw [kept]
    exact tracked.inst
  · intro g held opened
    obtain ⟨g', held', live, same⟩ := opens g held opened
    rw [← same]
    exact tracked.live g' held' live
  · intro other ended
    rcases mem_append.mp ended with old | new
    · exact shut other (tracked.shutting other old)
    · rw [mem_singleton.mp new]
      exact closes
  · intro other ended
    rcases mem_append.mp ended with old | new
    · exact tracked.gone other old
    · rw [mem_singleton.mp new]
      exact .inl current
  · dsimp only
    rw [activityRound]
    intro real
    exact (tracked.served real).imp id (mem_append_left _)
  · dsimp only
    rw [kept]
    simp [tracked.shut]
  · dsimp only
    rw [kept]
    intro update member
    dsimp only at member
    split at member
    · cases member
    · exact tracked.updates update member
  · dsimp only
    rw [kept]
    intro none
    dsimp only
    split
    · rfl
    · exact tracked.quiet none
  · intro other
    exact tracked.flow_prefix (before other)
  · intro real opened
    obtain ⟨old, distinct⟩ := free opened
    rw [same distinct, kept]
    exact tracked.flows.current (activityRound ▸ real) old
  · intro other mine distinct
    exact prefix_nil.mp ((tracked.flows.unserved other mine (activityRound ▸ distinct)) ▸ before other)
  · intro other some
    have filled : o.flow other ≠ [] := fun none => some (prefix_nil.mp (none ▸ before other))
    obtain ⟨served, rank⟩ := tracked.flows.started other filled
    exact ⟨served, reached other 2 rank⟩
  · intro real opened
    rw [kept]
    exact tracked.parity (activityRound ▸ real) (free opened).1
  · intro real
    rw [activityRound] at real ⊢
    obtain ⟨served, rank⟩ := tracked.serving real
    exact ⟨served, reached _ 2 rank⟩

theorem push {item : PendingReport} (current : o.queue.round = some round)
    (fits : ∀ c, item.command? = some c → c.ofOwner o.queue.id round) :
    { o with pending := o.pending ++ [item] }.Tracked := by
  have wider : Owner.waiting { o with pending := o.pending ++ [item] } = o.waiting ++ item.command?.toList := by
    unfold Owner.waiting
    rw [filterMap_append]
    cases kind : item.command? <;> simp [kind]
  have plain : activities item.command?.toList = [] := by
    cases kind : item.command? with
    | none => rfl
    | some c => simp [activities, Command.activity?_ofOwner (fits c kind)]
  have same : flow { o with pending := o.pending ++ [item] } = o.flow := by
    funext other
    unfold flow
    rw [wider, activities_append, plain, append_nil]
  refine { tracked with flows := ?_, waiting := ?_ }
  · rw [same]
    exact tracked.flows
  · intro other mine cmd member quiet
    rw [wider] at member
    rcases mem_append.mp member with old | new
    · exact tracked.waiting other mine cmd old quiet
    · have same : round = other := Option.some.inj (current.symm.trans mine)
      exact same ▸ fits cmd (Option.mem_toList.mp new)

theorem drain (current : o.queue.round = some round) : (o.drained round).Tracked := by
  have news : o.permission.activity.pending.filter (·.round = round) =
      if o.permission.activity.round = round then o.permission.activity.pending else [] := by
    split
    · rename_i here
      refine filter_eq_self.mpr ?_
      intro update member
      simp [tracked.updates update member, here]
    · rename_i elsewhere
      refine filter_eq_nil_iff.mpr ?_
      intro update member
      simp [tracked.updates update member, elsewhere]
  have wider : (o.drained round).waiting = o.waiting ++
      (o.permission.activity.pending.filter (·.round = round)).map fun update =>
        Command.deviceActivity update.sequence update.busy := by
    unfold Owner.waiting Owner.drained
    rw [filterMap_append, filterMap_map]
    simp [command?, Function.comp_def]
  have told : ∀ updates : List ActivityUpdate,
      activities (updates.map fun update => Command.deviceActivity update.sequence update.busy) =
        updates.map fun update => (update.sequence, update.busy) := by
    intro updates
    rw [activities, filterMap_map]
    simp [Command.activity?, Function.comp_def]
  have same : (o.drained round).flow = o.flow := by
    funext other
    unfold flow
    rw [wider, news, activities_append, told]
    by_cases mine : o.queue.round = some other
    · have here : round = other := Option.some.inj (current.symm.trans mine)
      subst here
      by_cases served : o.permission.activity.round = round
      · simp [drained, setActivity, mine, served]
      · simp [drained, setActivity, mine, served]
    · simp [drained, setActivity, mine]
  refine { tracked with updates := fun _ member => (by cases member), quiet := fun _ => rfl, flows := ?_, waiting := ?_ }
  · rw [same]
    exact { tracked.flows with }
  · intro other mine cmd member quiet
    rw [wider] at member
    rcases mem_append.mp member with old | new
    · exact tracked.waiting other mine cmd old quiet
    · obtain ⟨update, _, rfl⟩ := mem_map.mp new
      cases quiet

theorem prepare {command : Command} {rest : List PendingReport}
    (current : o.queue.round = some round) (empty : o.queue.reports = []) (runs : o.queue.Runs round)
    (taken : o.pending = .command command :: rest ∨ ∃ catalog tail, o.pending = .catalog catalog :: tail ∧
      command.ofOwner o.queue.id round ∧ rest.filterMap command? = tail.filterMap command?)
    :
    { o with queue := o.queue.prepare round command, pending := rest }.Tracked := by
  have issued := fun other => o.queue.issuedIn_prepare round other command
  have queued : activities [command] ++ activities (rest.filterMap command?) = activities o.waiting := by
    unfold Owner.waiting
    rcases taken with front | ⟨catalog, tail, front, fits, same⟩
    · rw [front, ← activities_append]
      simp [command?]
    have skipped : (PendingReport.catalog catalog :: tail).filterMap PendingReport.command? =
        tail.filterMap command? := rfl
    rw [front, skipped, same]
    simp [activities, Command.activity?_ofOwner fits]
  have same : Owner.flow { o with queue := o.queue.prepare round command, pending := rest } = o.flow := by
    funext other
    unfold Owner.flow
    dsimp only
    rw [issued]
    by_cases here : round = other
    · subst here
      have mine : (o.queue.prepare round command).round = some round := current
      rw [if_pos rfl, if_pos mine, if_pos current, ← queued, activities_append]
      simp [Owner.waiting]
    · have foreign : ¬o.queue.round = some other := fun mine => here (Option.some.inj (current.symm.trans mine))
      have foreign' : ¬(o.queue.prepare round command).round = some other := foreign
      rw [if_neg here, if_neg foreign, if_neg foreign']
      simp only [append_nil]
  have plain : command.activity? = none → command.ofOwner o.queue.id round := by
    intro quiet
    rcases taken with front | ⟨_, _, _, fits, _⟩
    · refine tracked.waiting round current command ?_ quiet
      simp [Owner.waiting, front, command?]
    · exact fits
  have fewer : ∀ cmd ∈ rest.filterMap command?, cmd ∈ o.waiting := by
    intro cmd member
    unfold Owner.waiting
    rcases taken with front | ⟨catalog, tail, front, _, same⟩
    · rw [front]
      simp only [filterMap_cons, command?]
      exact mem_cons_of_mem _ member
    · rw [front]
      rw [same] at member
      exact member
  refine { tracked with
    sound := tracked.sound.prepare command current empty runs, flows := ?_, issued := ?_, waiting := ?_ }
  · rw [same]
    exact { tracked.flows with }
  · intro other cmd member quiet
    dsimp only at member
    rw [issued] at member
    rcases mem_append.mp member with old | new
    · exact tracked.issued other cmd old quiet
    split at new
    · rename_i here
      rw [mem_singleton.mp new] at quiet ⊢
      exact here ▸ plain quiet
    · cases new
  · intro other mine cmd member quiet
    exact tracked.waiting other mine cmd (fewer cmd member) quiet

theorem acknowledge (proof : Option DeviceActivityState) :
    (o.setActivity (o.permission.activity.observe proof)).Tracked := by
  obtain ⟨acknowledged, observed, _⟩ := o.permission.activity.observe_eq proof
  rw [observed]
  exact { tracked with flows := { tracked.flows with } }

theorem open_round (opened : o.permission.activity.closed = false)
    (real : o.permission.activity.round ≠ 0) :
    o.permission.activity.round ∉ o.closings ∧ o.queue.round = some o.permission.activity.round := by
  have free : o.permission.activity.round ∉ o.closings := by
    intro ended
    rw [tracked.shut.mpr ended] at opened
    cases opened
  exact ⟨free, (tracked.served real).resolve_right free⟩

theorem extend {sequence depth : UInt64} {busy : Bool}
    (opened : o.permission.activity.closed = false) (real : o.permission.activity.round ≠ 0)
    (next : sequence.toNat = o.permission.activity.sequence.toNat + 1) (kind : busy = decide (sequence.toNat % 2 = 0))
    (parity : depth = 0 ↔ sequence.toNat % 2 = 1) :
    (o.setActivity { o.permission.activity with
      sequence, depth
      pending := o.permission.activity.pending ++ [{ round := o.permission.activity.round, sequence, busy }] }).Tracked := by
  obtain ⟨free, mine⟩ := tracked.open_round opened real
  have last : alternation sequence.toNat = alternation o.permission.activity.sequence.toNat ++ [(sequence, busy)] := by
    rw [next, alternation_succ, ← next, UInt64.ofNat_toNat, kind]
  have here : Owner.flow (o.setActivity { o.permission.activity with
      sequence, depth
      pending := o.permission.activity.pending ++ [{ round := o.permission.activity.round, sequence, busy }] })
      o.permission.activity.round = alternation sequence.toNat := by
    rw [last, ← tracked.flows.current real free]
    simp [Owner.flow, Owner.setActivity, Owner.waiting, mine]
  have elsewhere : ∀ other, other ≠ o.permission.activity.round → Owner.flow (o.setActivity { o.permission.activity with
      sequence, depth
      pending := o.permission.activity.pending ++ [{ round := o.permission.activity.round, sequence, busy }] }) other =
      o.flow other := by
    intro other distinct
    have foreign : ¬o.permission.activity.round = other := fun same => distinct same.symm
    simp [Owner.flow, Owner.setActivity, Owner.waiting, foreign]
  refine { tracked with
    updates := ?_, quiet := fun none => absurd none real, flows := ⟨?_, ?_, ?_, ?_⟩, parity := fun _ _ => parity }
  · intro update member
    rcases mem_append.mp member with old | new
    · exact tracked.updates update old
    · rw [mem_singleton.mp new]
      rfl
  · intro other
    by_cases same : other = o.permission.activity.round
    · exact ⟨sequence.toNat, sequence.toNat_lt, same ▸ here⟩
    · rw [elsewhere other same]
      exact tracked.flows.alternate other
  · intro _ _
    exact here
  · intro other current distinct
    have foreign : other ≠ o.permission.activity.round := fun same => distinct same.symm
    rw [elsewhere other foreign]
    exact tracked.flows.unserved other current distinct
  · intro other some
    by_cases same : other = o.permission.activity.round
    · exact same ▸ tracked.serving real
    · rw [elsewhere other same] at some
      exact tracked.flows.started other some

theorem deepen {depth : UInt64} (busy : o.permission.activity.depth ≠ 0) (still : depth ≠ 0) :
    (o.setActivity { o.permission.activity with depth }).Tracked := by
  refine { tracked with flows := { tracked.flows with }, parity := ?_ }
  intro real free
  have even := tracked.parity real free
  exact ⟨fun zero => absurd zero still, fun odd => absurd (even.mpr odd) busy⟩

theorem claim {wanted : UInt64} {activity : ActivityRegistry}
    (permitted : o.permission.allows o.now round .serving)
    (entered : o.permission.activity.enter round = (activity, .waiting wanted)) : (o.setActivity activity).Tracked := by
  obtain ⟨opened, rfl, depth, deeper, first | nested⟩ := ActivityRegistry.enter_waiting entered
  all_goals
    obtain ⟨g, held, same, live, _⟩ := Permission.allows_iff.mp permitted
    have real : o.permission.activity.round ≠ 0 := same ▸ (tracked.live g held live).2
    have grown := succ?_eq_some.mp deeper
  · obtain ⟨idle, next, rfl⟩ := first
    have free := (tracked.open_round opened real).1
    have odd := (tracked.parity real free).mp idle
    have counted := succ?_eq_some.mp next
    refine tracked.extend opened real counted (decide_eq_true (by omega)).symm ⟨?_, by omega⟩
    intro zero
    rw [zero] at grown
    cases grown
  · obtain ⟨busy, rfl, rfl⟩ := nested
    refine tracked.deepen busy ?_
    intro zero
    rw [zero] at grown
    cases grown

theorem room (opened : o.permission.activity.closed = false)
    (real : o.permission.activity.round ≠ 0) (busy : o.permission.activity.depth ≠ 0) :
    o.permission.activity.sequence.toNat % 2 = 0 ∧ succ? o.permission.activity.sequence ≠ none := by
  have parity := tracked.parity real (tracked.open_round opened real).1
  have even : o.permission.activity.sequence.toNat % 2 = 0 := by
    by_contra odd
    exact busy (parity.mpr (by omega))
  refine ⟨even, ?_⟩
  intro full
  have top : ¬o.permission.activity.sequence.toNat + 1 < UInt64.size := by
    intro room
    simp [succ?, room] at full
  have bound := o.permission.activity.sequence.toNat_lt
  have size : UInt64.size = 2 ^ 64 := rfl
  omega

theorem release (real : round ≠ 0) :
    (o.setActivity (o.permission.activity.release round)).Tracked := by
  rcases o.permission.activity.release_cases round with ⟨same, _⟩ | ⟨opened, rfl, cases⟩
  · rw [same]
    exact tracked
  rcases cases with ⟨last, sequence, next, released⟩ | ⟨last, full⟩ | ⟨busy, nested, released⟩
  · have even := (tracked.room opened real (last ▸ by decide)).1
    have counted := succ?_eq_some.mp next
    rw [released]
    exact tracked.extend opened real counted (decide_eq_false (by omega)).symm ⟨fun _ => by omega, fun _ => rfl⟩
  · exact absurd full (tracked.room opened real (last ▸ by decide)).2
  · rw [released]
    refine tracked.deepen busy ?_
    intro zero
    apply nested
    have back : o.permission.activity.depth = o.permission.activity.depth - 1 + 1 := by simp
    rw [back, zero]
    rfl

theorem grant {g : Grant} (mine : o.queue.round = some g.round) (real : g.round ≠ 0)
    (shut : ∀ round, o.permission.Shut round → { o.permission with state := some g }.Shut round)
    (reached : ∀ round, o.permission.Reached round 2 → { o.permission with state := some g }.Reached round 2) :
    { o with permission := { o.permission with state := some g }, check := none }.Tracked := by
  refine { tracked with
    asked := nofun, live := ?_, shutting := ?_, flows := { tracked.flows with started := ?_ }, serving := ?_ }
  · rintro _ ⟨⟩ _
    exact ⟨mine, real⟩
  · intro round ended
    exact shut round (tracked.shutting round ended)
  · intro round some
    obtain ⟨served, rank⟩ := tracked.flows.started round some
    exact ⟨served, reached round rank⟩
  · intro serving
    obtain ⟨served, rank⟩ := tracked.serving serving
    exact ⟨served, reached _ rank⟩

theorem serve (mine : o.queue.round = some round) (real : round ≠ 0) (free : round ∉ o.closings)
    (ready : o.queue.Served round ∧ o.permission.Reached round 2) :
    (o.setActivity (o.permission.activity.serving round)).Tracked := by
  unfold ActivityRegistry.serving
  split
  · exact tracked
  rename_i other
  simp only [tracked.enabled, Bool.not_true, Bool.false_eq_true, false_or] at other
  have nothing := tracked.flows.unserved round mine other
  have here : Owner.flow (o.setActivity
      { o.permission.activity with
        round, sequence := 1, depth := 0, closed := false, acknowledged := none
        pending := [{ round, sequence := 1, busy := false }] }) round = alternation 1 := by
    simp only [Owner.flow, if_pos mine, if_neg other, append_nil, append_eq_nil_iff] at nothing
    have quiet : activities (o.pending.filterMap command?) = [] := nothing.2
    simp [Owner.flow, Owner.setActivity, Owner.waiting, mine, nothing.1, quiet, alternation]
  have elsewhere : ∀ place, place ≠ round → Owner.flow (o.setActivity
      { o.permission.activity with
        round, sequence := 1, depth := 0, closed := false, acknowledged := none
        pending := [{ round, sequence := 1, busy := false }] }) place = o.flow place := by
    intro place distinct
    have foreign : ¬o.queue.round = some place := fun same => distinct (Option.some.inj (same.symm.trans mine))
    simp [Owner.flow, Owner.setActivity, foreign]
  refine { tracked with
    served := fun _ => .inl mine, shut := ?_, updates := ?_, quiet := fun none => absurd none real
    flows := ⟨?_, fun _ _ => here, ?_, ?_⟩, parity := fun _ _ => ⟨fun _ => rfl, fun _ => rfl⟩, serving := fun _ => ready }
  · exact ⟨nofun, fun ended => absurd ended free⟩
  · intro update member
    rw [mem_singleton.mp member]
    rfl
  · intro place
    by_cases same : place = round
    · exact ⟨1, by decide, same ▸ here⟩
    · rw [elsewhere place same]
      exact tracked.flows.alternate place
  · intro place current distinct
    exact absurd (Option.some.inj (mine.symm.trans current)) distinct
  · intro place some
    by_cases same : place = round
    · exact same ▸ ready
    · rw [elsewhere place same] at some
      exact tracked.flows.started place some

theorem renew_cases {check : Check} (asked : o.check = some check)
    (phase : check.phase = (replay o.queue.past).phase) (runs : o.queue.Runs check.round) :
    (o.permission.renew o.now check.round check.phase check.deadline).1 = o.permission ∨
    ∃ g, { o with permission := { o.permission with state := some g }, check := none }.Tracked ∧
      ((o.permission.renew o.now check.round check.phase check.deadline).1 = { o.permission with state := some g } ∨
        ((o.permission.renew o.now check.round check.phase check.deadline).1 =
            { state := some g, activity := o.permission.activity.serving check.round } ∧
          o.queue.round = some check.round ∧ check.round ≠ 0 ∧ check.round ∉ o.closings ∧
          o.queue.Served check.round ∧ { o.permission with state := some g }.Reached check.round 2)) := by
  have mine := tracked.asked check asked
  have shut : ∀ round, o.permission.Shut round →
      (o.permission.renew o.now check.round check.phase check.deadline).1.Shut round :=
    fun round shut => shut.renew check.round check.phase check.deadline
  have reached : ∀ round, o.permission.Reached round 2 →
      (o.permission.renew o.now check.round check.phase check.deadline).1.Reached round 2 :=
    fun round reached => reached.renew check.round check.phase check.deadline
  rcases o.permission.renew_cases o.now check.round check.phase check.deadline with
    ⟨same, _⟩ | ⟨real, _, open', granted⟩
  · exact .inl same
  · rw [granted] at shut reached ⊢
    refine .inr ⟨⟨check.round, check.phase, check.deadline, false⟩, tracked.grant mine real shut reached, ?_⟩
    by_cases serving : check.phase = .serving
    · refine .inr ⟨by simp [serving], mine, real, ?_, ⟨o.queue.seen, Nat.le_refl _, runs, ?_⟩, ⟨_, rfl, .inr ⟨rfl, ?_⟩⟩⟩
      · intro ended
        obtain ⟨g, held, past⟩ := tracked.shutting check.round ended
        obtain ⟨behind, live⟩ := Permission.le_of_not_refuses (open' g held)
        rcases past with later | ⟨same, closed⟩
        · exact absurd later (UInt64.not_lt.mpr behind)
        · rw [(live same).1] at closed
          cases closed
      · rw [serving] at phase
        unfold ControlState.phase at phase
        split at phase
        · rename_i ready
          exact ready
        · split at phase <;> cases phase
      · rw [serving]
        exact Nat.le_refl 2
    · exact .inl (by simp [serving])

end Tracked

end Owner

end TapeRs.Daemon
