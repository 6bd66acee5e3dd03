import TapeRs.Daemon.DeviceWork

namespace TapeRs.Daemon

open List

namespace Owner

def holding (guards : List Guard) (round : UInt64) : Nat := guards.countP fun g => g.tracked && g.round = round

/-- The guards agree with the registry, and a held one with the log. -/
structure Guarded (o : Owner) : Prop where
  tracked : o.Tracked
  rounds : ∀ g ∈ o.guards, g.tracked → g.round ≠ 0 ∧ (g.round = o.permission.activity.round ∨ g.round ∈ o.closings)
  counted : o.permission.activity.round ≠ 0 → o.permission.activity.round ∉ o.closings →
    holding o.guards o.permission.activity.round = o.permission.activity.depth.toNat
  wanted : o.permission.activity.round ∉ o.closings → ∀ g ∈ o.guards, g.tracked → g.round = o.permission.activity.round →
    g.wanted = o.permission.activity.sequence
  acknowledged : ∀ p, o.permission.activity.acknowledged = some p → p.node = o.queue.id ∧ p.inst = o.queue.inst ∧
    o.queue.Recorded p
  held : ∀ g ∈ o.guards, g.tracked → g.held → o.queue.Recorded
    { node := o.queue.id, inst := o.queue.inst, round := g.round, sequence := g.wanted, busy := true }

namespace Guarded

variable {o : Owner} {round : UInt64}

theorem holding_append (guards : List Guard) (g : Guard) (round : UInt64) :
    holding (guards ++ [g]) round = holding guards round + if g.tracked && g.round = round then 1 else 0 := by
  simp [holding, countP_append, countP_singleton]

variable (guarded : o.Guarded)
include guarded

theorem commit {entry : Entry} (later : lastIndex 0 o.queue.log < entry.1)
    (origin : entry.2.reporter? = some (o.queue.id, o.queue.inst) → entry.2 ∈ o.queue.sent) :
    { o with queue := o.queue.commit entry }.Guarded := by
  refine { guarded with tracked := guarded.tracked.commit later origin, acknowledged := ?_, held := ?_ }
  · intro p there
    obtain ⟨node, inst, recorded⟩ := guarded.acknowledged p there
    exact ⟨node, inst, Queue.Saw.commit guarded.tracked.sound recorded entry⟩
  · intro g member tracks held
    exact Queue.Saw.commit guarded.tracked.sound (guarded.held g member tracks held) entry

theorem learn {count : Nat} (grows : o.queue.seen ≤ count) (known : count ≤ o.queue.log.length) :
    { o with queue := o.queue.learn count }.Guarded := by
  refine { guarded with tracked := guarded.tracked.learn grows known, acknowledged := ?_, held := ?_ }
  · intro p there
    obtain ⟨node, inst, recorded⟩ := guarded.acknowledged p there
    exact ⟨node, inst, Queue.Saw.learn recorded grows⟩
  · intro g member tracks held
    exact Queue.Saw.learn (guarded.held g member tracks held) grows

theorem close (current : o.queue.round = some round) :
    { o with permission := o.permission.close o.now round, closings := o.closings ++ [round] }.Guarded := by
  have tracked := guarded.tracked.close current
  have kept := o.permission.close_activity o.now round
  generalize o.permission.close o.now round = p at tracked kept ⊢
  have open' : o.permission.activity.round ∉ o.closings ++ [round] → o.permission.activity.round ∉ o.closings :=
    fun free old => free (mem_append_left _ old)
  refine ⟨tracked, ?_, ?_, ?_, ?_, guarded.held⟩
  · rw [kept]
    intro g member tracks
    obtain ⟨real, known⟩ := guarded.rounds g member tracks
    exact ⟨real, known.imp id (mem_append_left _)⟩
  · rw [kept]
    exact fun real free => guarded.counted real (open' free)
  · rw [kept]
    exact fun free => guarded.wanted (open' free)
  · rw [kept]
    exact guarded.acknowledged

theorem acknowledge : (o.setActivity (o.permission.activity.observe (replay o.queue.past).deviceActivity)).Guarded := by
  have tracked := guarded.tracked.acknowledge (replay o.queue.past).deviceActivity
  obtain ⟨acknowledged, observed, source⟩ := o.permission.activity.observe_eq (replay o.queue.past).deviceActivity
  rw [observed] at tracked ⊢
  refine { guarded with tracked, acknowledged := ?_ }
  intro p there
  rcases source p there with old | ⟨seen, node, inst, _⟩
  · exact guarded.acknowledged p old
  · exact ⟨node.trans guarded.tracked.node, inst.trans guarded.tracked.inst, o.queue.seen, Nat.le_refl _, seen⟩

theorem untracked (round : UInt64) : { o with guards := o.guards ++ [Guard.untracked round] }.Guarded := by
  have member : ∀ g ∈ o.guards ++ [Guard.untracked round], g.tracked → g ∈ o.guards := by
    intro g member tracks
    rcases mem_append.mp member with old | new
    · exact old
    · rw [mem_singleton.mp new] at tracks
      cases tracks
  refine ⟨{ guarded.tracked with flows := { guarded.tracked.flows with } }, ?_, ?_, ?_, guarded.acknowledged, ?_⟩
  · intro g there tracks
    exact guarded.rounds g (member g there tracks) tracks
  · intro real free
    rw [holding_append]
    exact guarded.counted real free
  · intro free g there tracks
    exact guarded.wanted free g (member g there tracks) tracks
  · intro g there tracks
    exact guarded.held g (member g there tracks) tracks

theorem serve (mine : o.queue.round = some round) (real : round ≠ 0) (free : round ∉ o.closings)
    (ready : o.queue.Served round ∧ o.permission.Reached round 2) :
    (o.setActivity (o.permission.activity.serving round)).Guarded := by
  have tracked := guarded.tracked.serve mine real free ready
  unfold ActivityRegistry.serving at tracked ⊢
  split
  · exact guarded
  rename_i other
  rw [if_neg other] at tracked
  simp only [guarded.tracked.enabled, Bool.not_true, Bool.false_eq_true, false_or] at other
  have gone : ∀ g ∈ o.guards, g.tracked → g.round ∈ o.closings := by
    intro g member tracks
    obtain ⟨real, here | ended⟩ := guarded.rounds g member tracks
    · rcases guarded.tracked.served (here ▸ real) with current | ended
      · exact absurd (Option.some.inj (current.symm.trans mine)) other
      · exact here ▸ ended
    · exact ended
  have none : ∀ g ∈ o.guards, g.tracked → g.round ≠ round := by
    intro g member tracks same
    exact free (same ▸ gone g member tracks)
  refine ⟨tracked, ?_, ?_, ?_, nofun, guarded.held⟩
  · intro g member tracks
    exact ⟨(guarded.rounds g member tracks).1, .inr (gone g member tracks)⟩
  · intro _ _
    refine countP_eq_zero.mpr ?_
    intro g member counted
    simp only [Bool.and_eq_true, decide_eq_true_eq] at counted
    exact none g member counted.1 counted.2
  · intro _ g member tracks same
    exact absurd same (none g member tracks)

theorem renew {check : Check} (asked : o.check = some check) (phase : check.phase = (replay o.queue.past).phase)
    (runs : o.queue.Runs check.round) :
    { o with
      permission := (o.permission.renew o.now check.round check.phase check.deadline).1
      check := none }.Guarded := by
  rcases guarded.tracked.renew_cases asked phase runs with same | ⟨g, granted, same | ⟨same, mine, real, free, ready⟩⟩
  · rw [same]
    exact { guarded with tracked := { guarded.tracked with asked := nofun } }
  · rw [same]
    exact { guarded with tracked := granted }
  · have after : Guarded { o with permission := { o.permission with state := some g }, check := none } :=
      { guarded with tracked := granted }
    rw [same]
    exact after.serve mine real free ready

theorem claim {wanted : UInt64} {activity : ActivityRegistry} (deadline : Nat)
    (permitted : o.permission.allows o.now round .serving)
    (entered : o.permission.activity.enter round = (activity, .waiting wanted)) :
    { o.setActivity activity with
      guards := o.guards ++ [Guard.waiting round wanted deadline] }.Guarded := by
  have tracked := guarded.tracked.claim permitted entered
  obtain ⟨g, granted, same, live, _⟩ := Permission.allows_iff.mp permitted
  have real : round ≠ 0 := same ▸ (guarded.tracked.live g granted live).2
  obtain ⟨opened, rfl, depth, deeper, cases⟩ := ActivityRegistry.enter_waiting entered
  have free := (guarded.tracked.open_round opened real).1
  have grown := Word.succ?_eq_some.mp deeper
  have counted := guarded.counted real free
  -- Either nobody held a guard, or the new call joins the claim that stands.
  have shape : activity.round = o.permission.activity.round ∧ activity.depth = depth ∧ activity.sequence = wanted ∧
      activity.acknowledged = o.permission.activity.acknowledged ∧
      ∀ g ∈ o.guards, g.tracked → g.round = o.permission.activity.round → g.wanted = wanted := by
    rcases cases with ⟨idle, _, rfl⟩ | ⟨_, rfl, rfl⟩
    · refine ⟨rfl, rfl, rfl, rfl, ?_⟩
      intro g member tracks here
      rw [idle] at counted
      exact absurd (by simp [tracks, here]) (countP_eq_zero.mp counted g member)
    · exact ⟨rfl, rfl, rfl, rfl, guarded.wanted free⟩
  obtain ⟨sameRound, sameDepth, sameSequence, sameProof, shared⟩ := shape
  refine ⟨{ tracked with flows := { tracked.flows with } }, ?_, ?_, ?_, ?_, ?_⟩
  · intro g member tracks
    show g.round ≠ 0 ∧ (g.round = activity.round ∨ g.round ∈ o.closings)
    rw [sameRound]
    rcases mem_append.mp member with old | new
    · exact guarded.rounds g old tracks
    · rw [mem_singleton.mp new]
      exact ⟨real, .inl rfl⟩
  · intro _ _
    show holding (o.guards ++ [Guard.waiting o.permission.activity.round wanted deadline]) activity.round =
      activity.depth.toNat
    rw [holding_append, sameRound, sameDepth, grown, counted]
    simp [Guard.waiting]
  · intro _ g member tracks here
    show g.wanted = activity.sequence
    have here' : g.round = activity.round := here
    rw [sameSequence]
    rcases mem_append.mp member with old | new
    · exact shared g old tracks (here'.trans sameRound)
    · rw [mem_singleton.mp new]
      rfl
  · intro p there
    have before : activity.acknowledged = some p := there
    rw [sameProof] at before
    exact guarded.acknowledged p before
  · intro g member tracks held
    rcases mem_append.mp member with old | new
    · exact guarded.held g old tracks held
    · rw [mem_singleton.mp new] at held
      cases held

theorem hold {place : Nat} {g : Guard} (there : o.guards[place]? = some g)
    (confirmed : o.permission.activity.confirmed g.round g.wanted) :
    { o with guards := o.guards.set place { g with held := true } }.Guarded := by
  obtain ⟨inside, here⟩ := List.getElem?_eq_some_iff.mp there
  have known : g ∈ o.guards := mem_of_getElem? there
  -- Every guard of the new list is an old one, up to being held.
  have member : ∀ g' ∈ o.guards.set place { g with held := true }, ∃ old ∈ o.guards,
      old.tracked = g'.tracked ∧ old.round = g'.round ∧ old.wanted = g'.wanted := by
    intro g' member
    rcases mem_or_eq_of_mem_set member with old | rfl
    · exact ⟨g', old, rfl, rfl, rfl⟩
    · exact ⟨g, known, rfl, rfl, rfl⟩
  refine ⟨{ guarded.tracked with flows := { guarded.tracked.flows with } }, ?_, ?_, ?_, guarded.acknowledged, ?_⟩
  · intro g' there tracks
    obtain ⟨old, known, sameTracked, sameRound, _⟩ := member g' there
    rw [← sameRound]
    exact guarded.rounds old known (sameTracked.trans tracks)
  · intro real free
    rw [← guarded.counted real free]
    unfold holding
    rw [countP_set inside, here]
    dsimp only
    by_cases counts : (g.tracked && decide (g.round = o.permission.activity.round)) = true
    · have positive : 0 < o.guards.countP fun g => g.tracked && decide (g.round = o.permission.activity.round) :=
        countP_pos_iff.mpr ⟨g, known, counts⟩
      rw [if_pos counts]
      omega
    · rw [if_neg counts]
      rfl
  · intro free g' there tracks sameRound'
    obtain ⟨old, known, sameTracked, sameRound, sameWanted⟩ := member g' there
    rw [← sameWanted]
    exact guarded.wanted free old known (sameTracked.trans tracks) (sameRound.trans sameRound')
  · intro g' there tracks held
    rcases mem_or_eq_of_mem_set there with old | rfl
    · exact guarded.held g' old tracks held
    obtain ⟨p, proof, matches'⟩ := (Option.any_eq_true _ _).mp confirmed
    simp only [Bool.and_eq_true, decide_eq_true_eq] at matches'
    obtain ⟨node, inst, recorded⟩ := guarded.acknowledged p proof
    obtain ⟨⟨ofRound, ofSequence⟩, busy⟩ := matches'
    rw [← ofRound, ← ofSequence, ← node, ← inst, ← busy]
    exact recorded

theorem drop {place : Nat} {g : Guard} (there : o.guards[place]? = some g) :
    { if g.tracked then o.setActivity (o.permission.activity.release g.round) else o with
      guards := o.guards.eraseIdx place }.Guarded := by
  obtain ⟨inside, here⟩ := List.getElem?_eq_some_iff.mp there
  have known : g ∈ o.guards := mem_of_getElem? there
  have member : ∀ g' ∈ o.guards.eraseIdx place, g' ∈ o.guards := fun g' => mem_of_mem_eraseIdx
  have count : ∀ round, holding o.guards round = holding (o.guards.eraseIdx place) round +
      if g.tracked && decide (g.round = round) then 1 else 0 := by
    intro round
    unfold holding
    rw [← (getElem_cons_eraseIdx_perm inside).countP_eq, countP_cons, here]
  cases tracks : g.tracked with
  | false =>
    simp only [Bool.false_eq_true, if_false]
    refine ⟨{ guarded.tracked with flows := { guarded.tracked.flows with } }, ?_, ?_, ?_, guarded.acknowledged, ?_⟩
    · exact fun g' there => guarded.rounds g' (member g' there)
    · intro real free
      have before := guarded.counted real free
      rw [count, tracks] at before
      exact before
    · exact fun free g' there => guarded.wanted free g' (member g' there)
    · exact fun g' there => guarded.held g' (member g' there)
  | true =>
    obtain ⟨real, whose⟩ := guarded.rounds g known tracks
    have tracked := guarded.tracked.release real
    simp only [if_true]
    rcases o.permission.activity.release_cases g.round with ⟨same, idle⟩ | ⟨opened, ofRound, cases⟩
    · -- The registry has moved on, and does not count this guard any more.
      rw [same]
      refine ⟨{ guarded.tracked with flows := { guarded.tracked.flows with } }, ?_, ?_, ?_, guarded.acknowledged, ?_⟩
      · exact fun g' there => guarded.rounds g' (member g' there)
      · intro serving free
        have before := guarded.counted serving free
        have other : ¬g.round = o.permission.activity.round := by
          intro here
          rcases idle with closed | elsewhere | none
          · exact free (guarded.tracked.shut.mp closed)
          · exact elsewhere here.symm
          · rw [count, none, tracks, here] at before
            simp at before
        rw [count, tracks, decide_eq_false other] at before
        exact before
      · exact fun free g' there => guarded.wanted free g' (member g' there)
      · exact fun g' there => guarded.held g' (member g' there)
    · rw [← ofRound] at real tracked cases ⊢
      have free := (guarded.tracked.open_round opened real).1
      have before := guarded.counted real free
      rw [count, tracks, ofRound] at before
      simp only [decide_true, Bool.and_self, if_true] at before
      have shape : (o.permission.activity.release o.permission.activity.round).round = o.permission.activity.round ∧
          (o.permission.activity.release o.permission.activity.round).acknowledged = o.permission.activity.acknowledged ∧
          holding (o.guards.eraseIdx place) o.permission.activity.round =
            (o.permission.activity.release o.permission.activity.round).depth.toNat ∧
          ∀ g' ∈ o.guards.eraseIdx place, g'.tracked → g'.round = o.permission.activity.round →
            g'.wanted = (o.permission.activity.release o.permission.activity.round).sequence := by
        rcases cases with ⟨last, sequence, _, released⟩ | ⟨last, full⟩ | ⟨busy, nested, released⟩
        · rw [last] at before
          have none : holding (o.guards.eraseIdx place) o.permission.activity.round = 0 := by
            rw [ofRound]
            simpa using before
          rw [released]
          refine ⟨rfl, rfl, none, ?_⟩
          intro g' there tracks here
          exact absurd (by simp [tracks, here]) (countP_eq_zero.mp none g' there)
        · exact absurd full (guarded.tracked.room opened real (last ▸ by decide)).2
        · rw [released]
          refine ⟨rfl, rfl, ?_, fun g' there => guarded.wanted free g' (member g' there)⟩
          have one : (1 : UInt64) ≤ o.permission.activity.depth := by
            rw [UInt64.le_iff_toNat_le]
            show 1 ≤ o.permission.activity.depth.toNat
            omega
          show _ = (o.permission.activity.depth - 1).toNat
          rw [UInt64.toNat_sub_of_le _ _ one, ofRound]
          show _ = o.permission.activity.depth.toNat - 1
          omega
      obtain ⟨sameRound, sameProof, sameCount, sameWanted⟩ := shape
      refine ⟨{ tracked with flows := { tracked.flows with } }, ?_, ?_, ?_, ?_, ?_⟩
      · intro g' there tracks
        show g'.round ≠ 0 ∧ (g'.round = (o.permission.activity.release o.permission.activity.round).round ∨ _)
        rw [sameRound]
        exact guarded.rounds g' (member g' there) tracks
      · intro _ _
        show holding (o.guards.eraseIdx place) (o.permission.activity.release o.permission.activity.round).round = _
        rw [sameRound]
        exact sameCount
      · intro _ g' there tracks here
        have here' : g'.round = (o.permission.activity.release o.permission.activity.round).round := here
        exact sameWanted g' there tracks (here'.trans sameRound)
      · intro p proof
        have proof' : (o.permission.activity.release o.permission.activity.round).acknowledged = some p := proof
        rw [sameProof] at proof'
        exact guarded.acknowledged p proof'
      · exact fun g' there => guarded.held g' (member g' there)

theorem move {allowed : Owner → Entry → Prop} {after : Owner} (move : Move allowed o after) : after.Guarded := by
  cases move with
  | commit entry later origin _ => exact guarded.commit later origin
  | learn count grows known => exact guarded.learn grows known
  | wait time => exact { guarded with tracked := guarded.tracked.wait time }
  | adopt own owns changed closed => exact { guarded with tracked := guarded.tracked.adopt owns changed closed }
  | close round current => exact guarded.close current
  | push round item current fits => exact { guarded with tracked := guarded.tracked.push current fits }
  | drain round current => exact { guarded with tracked := guarded.tracked.drain current }
  | prepare round command rest current empty runs taken =>
    exact { guarded with tracked := guarded.tracked.prepare current empty runs taken }
  | send cmd origin => exact { guarded with tracked := guarded.tracked.send origin }
  | settle => exact { guarded with tracked := guarded.tracked.settle }
  | acknowledge => exact guarded.acknowledge
  | ask check current => exact { guarded with tracked := guarded.tracked.ask current }
  | renew check asked phase runs => exact guarded.renew asked phase runs
  | recover round _ | untracked round _ => exact guarded.untracked round
  | claim round wanted deadline activity permitted entered => exact guarded.claim deadline permitted entered
  | hold place g there confirmed => exact guarded.hold there confirmed
  | drop place g there => exact guarded.drop there

theorem moves {allowed : Owner → Entry → Prop} {after : Owner} (moves : Moves allowed o after) : after.Guarded := by
  induction moves with
  | refl => exact guarded
  | tail _ taken ih => exact ih.move taken

end Guarded

end Owner

namespace Ownership

variable {s : Ownership}

theorem start_guarded (starts : s.Starts) : s.owner.Guarded := by
  obtain ⟨id, inst, group, validity, cooldown, now, c, made, rfl⟩ := starts
  unfold Coordinator.new at made
  split at made
  · cases made
  obtain ⟨activity, enabled, built⟩ := Option.map_eq_some_iff.mp made
  cases built
  unfold ActivityRegistry.enable at enabled
  split at enabled
  · cases enabled
    have sound : (owner { now, coordinator := { id, inst, group, validity, cooldown, cooldownUntil := now, permission := { activity := { enabled := true, node := id, inst } }, startedAt := now, nextCheck := now, nextReport := now } }).queue.Sound :=
      ⟨trivial, Nat.le_refl _, nofun, fun _ some => absurd rfl some, nofun, .inl rfl, nofun, nofun, fun _ => nil_prefix, fun _ => .inl (Nat.zero_le _), nofun⟩
    refine ⟨⟨sound, rfl, rfl, rfl, nofun, nofun, nofun, nofun, nofun, fun real => absurd rfl real, ⟨nofun, nofun⟩, nofun, fun _ => rfl, ⟨?_, fun real => absurd rfl real, nofun, ?_⟩, fun real => absurd rfl real, fun real => absurd rfl real, nofun, nofun⟩, nofun, fun real => absurd rfl real, nofun, nofun, nofun⟩
    · exact fun round => ⟨0, by decide, rfl⟩
    · exact fun round some => absurd rfl some
  · cases enabled

theorem ReachedUnder.guarded {condition : Ownership → Action → Prop} (reached : s.ReachedUnder condition) :
    s.owner.Guarded := by
  obtain ⟨first, starts, run⟩ := reached
  refine run.invariant (P := fun s => s.owner.Guarded) ?_ (start_guarded starts)
  intro s action guarded permitted
  have moves : Owner.Moves (fun _ _ => True) s.owner (s.step action).owner :=
    s.step_moves guarded.tracked.sound.seen permitted.1 fun _ _ => trivial
  exact guarded.moves moves

theorem ReachedUnder.ascending {condition : Ownership → Action → Prop} (reached : s.ReachedUnder condition) :
    Ascending 0 s.log :=
  reached.guarded.tracked.sound.ascending

end Ownership

end TapeRs.Daemon
