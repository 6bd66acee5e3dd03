import TapeRs.Core.Reservations

namespace TapeRs.Core

open DirNode VolumeRoot

namespace Inner

variable {g : Inner}

theorem notifyLocked_ids (batch : FrozenBatch) :
    (g.notifyLocked batch).2.waiters.map (·.id) = g.waiters.map (·.id) := by
  show (g.waiters.map _).map _ = _
  rw [List.map_map]
  apply List.map_congr_left
  intro w _
  show (if answers batch w then { w with notified := true } else w).id = w.id
  split <;> rfl

theorem run_waiters (g : Inner) (call : Call) :
    ((call.run g).waiters.map (·.id) = g.waiters.map (·.id) ∧ (call.run g).nextWaiter = g.nextWaiter) ∨
      ((call.run g).waiters.map (·.id) = g.waiters.map (·.id) ++ [g.nextWaiter] ∧
        (call.run g).nextWaiter = g.nextWaiter + 1) := by
  cases call with
  | waitFor path lenRequired =>
    refine .inr ⟨?_, rfl⟩
    show (g.waiters ++ [_]).map _ = _
    rw [List.map_append]
    rfl
  | publish batch evidence directories =>
    refine .inl ?_
    have ids := notifyLocked_ids (g := g) batch
    unfold Call.run publishNamespace
    dsimp only
    split_ifs
    · exact ⟨rfl, rfl⟩
    · exact ⟨rfl, rfl⟩
    · exact ⟨ids, rfl⟩
    · exact ⟨ids, rfl⟩
    · exact ⟨ids, rfl⟩
  | openSession | calibrate | poison | failNextPublish | reclaim => exact .inl ⟨rfl, rfl⟩
  | renew | cancel | stageReference | complete | freeze | tick | admitWrite | admitRemoval | ingest =>
    refine .inl ?_
    simp only [Call.run, renew, cancel, stageReference, complete, freeze, tick, admitWrite, admitRemoval, admitEntry, ingest]
    repeat' split
    all_goals exact ⟨rfl, rfl⟩

theorem publishNamespace_notified {after : Inner} {batch : FrozenBatch} {evidence : S4Evidence}
    {directories : List Path} {outcome : PublishOutcome}
    (done : g.publishNamespace batch evidence directories = (.ok outcome, after)) :
    outcome.notified = (g.waiters.filter (answers batch)).map (·.id) := by
  unfold publishNamespace notifyLocked at done
  dsimp only at done
  split_ifs at done
  · cases done
  · cases done
  · obtain rfl := Except.ok.inj (Prod.mk.inj done).1
    rfl
  · cases done
  · obtain rfl := Except.ok.inj (Prod.mk.inj done).1
    rfl

end Inner

namespace World

variable {w : World}

/-- Each waiter has a number of its own. -/
structure Numbered (w : World) : Prop where
  distinct : (w.state.waiters.map (·.id)).Nodup
  below : ∀ id ∈ w.state.waiters.map (·.id), id < w.state.nextWaiter

theorem Numbered.step (numbered : w.Numbered) (call : Call) : (w.step call).Numbered := by
  rcases Inner.run_waiters w.state call with ⟨ids, next⟩ | ⟨ids, next⟩
  · constructor
    · show ((call.run w.state).waiters.map (·.id)).Nodup
      rw [ids]
      exact numbered.distinct
    · show ∀ id ∈ (call.run w.state).waiters.map (·.id), id < (call.run w.state).nextWaiter
      rw [ids, next]
      exact numbered.below
  · constructor
    · show ((call.run w.state).waiters.map (·.id)).Nodup
      rw [ids]
      refine List.nodup_append.mpr ⟨numbered.distinct, List.nodup_singleton _, ?_⟩
      intro id member other single same
      have low := numbered.below id member
      rw [same, List.mem_singleton.mp single] at low
      exact Nat.lt_irrefl _ low
    · show ∀ id ∈ (call.run w.state).waiters.map (·.id), id < (call.run w.state).nextWaiter
      rw [ids, next]
      intro id member
      rcases List.mem_append.mp member with old | single
      · exact Nat.lt_succ_of_lt (numbered.below id old)
      · rw [List.mem_singleton.mp single]
        exact Nat.lt_succ_self _

/-- A publication answers waiters from the batch in the commit slot, and at paths that this batch covers as files with no
    other covered path at, above or below them. -/
def AnswersFromSlot (w : World) : Call → Prop
  | .publish batch _ directories =>
    ∀ waiter ∈ w.state.waiters, waiter.notified = false → waiter.lenRequired ≠ 0 →
      (batch.cover.get waiter.path).isSome = true →
        w.state.current.commitSlot = some batch ∧ waiter.path ∉ directories ∧ Text.components waiter.path ≠ [] ∧
          ∀ entry ∈ batch.cover.entries, entry.1 ≠ waiter.path → Text.components entry.1 ≠ [] →
            Apart (Text.components entry.1) (Text.components waiter.path)
  | _ => True

instance (w : World) (call : Call) : Decidable (w.AnswersFromSlot call) :=
  match call with
  | .publish batch _ directories =>
    inferInstanceAs (Decidable (∀ waiter ∈ w.state.waiters, waiter.notified = false → waiter.lenRequired ≠ 0 →
      (batch.cover.get waiter.path).isSome = true →
        w.state.current.commitSlot = some batch ∧ waiter.path ∉ directories ∧ Text.components waiter.path ≠ [] ∧
          ∀ entry ∈ batch.cover.entries, entry.1 ≠ waiter.path → Text.components entry.1 ≠ [] →
            Apart (Text.components entry.1) (Text.components waiter.path)))
  | .openSession .. | .renew .. | .tick .. | .cancel .. | .admitWrite .. | .admitRemoval .. | .ingest ..
  | .stageReference .. | .complete .. | .waitFor .. | .calibrate .. | .freeze .. | .poison | .failNextPublish
  | .reclaim .. => .isTrue trivial

/-- In every run, a waiter that a publication answers from the commit slot finds the bytes it waits for in the view. -/
theorem notified_committed (reached : w.Reached AnswersFromSlot) {batch : FrozenBatch} {evidence : S4Evidence}
    {directories : List Path} (meets : w.AnswersFromSlot (.publish batch evidence directories))
    {outcome : PublishOutcome} {after : Inner}
    (done : w.state.publishNamespace batch evidence directories = (.ok outcome, after)) {waiter : Waiter}
    (waits : waiter ∈ w.state.waiters) (notified : waiter.id ∈ outcome.notified) (asks : waiter.lenRequired ≠ 0) :
    ∃ file, after.current.committed.get waiter.path = some file ∧ waiter.lenRequired ≤ file.len := by
  obtain ⟨filed, backed, numbered⟩ := reached.invariant (P := fun w => w.Backed ∧ w.Numbered)
    (fun instanceId committed generation baselineFree writable =>
      ⟨backed_new instanceId committed generation baselineFree writable, by simp [new, Inner.new],
        by simp [new, Inner.new]⟩)
    (fun _ call filed holds _ _ => ⟨holds.1.step filed call, holds.2.step call⟩)
  -- the numbers are distinct, so the waiter itself was answered
  rw [Inner.publishNamespace_notified done, List.mem_map] at notified
  obtain ⟨other, answered, sameId⟩ := notified
  obtain ⟨among, answers⟩ := List.mem_filter.mp answered
  obtain rfl := List.inj_on_of_nodup_map numbered.distinct among waits sameId
  simp only [Inner.answers, Bool.and_eq_true, Bool.not_eq_true', Option.any_eq_true, decide_eq_true_eq] at answers
  obtain ⟨untold, c, covered, enough⟩ := answers
  obtain ⟨slot, file, proper, alone⟩ := meets other waits untold asks (by rw [covered]; rfl)
  obtain ⟨current, -, -⟩ := Inner.publishNamespace_slot slot done
  have shown : Shows directories (batch.cover.entries.foldl (coverView directories) w.state.current.committed)
      other.path c :=
    coverViews_shows batch.cover.keys_nodup (SortedMap.mem_entries.mpr covered) proper alone _
  rw [← published_committed w.state.current batch evidence.generation, ← current, Shows, if_neg file] at shown
  cases removal : c.removal with
  | true =>
    -- a removal covers no bytes, so it answers nobody who waits for some
    have empty := backed.slot batch slot other.path c covered removal
    rw [empty] at enough
    exact absurd (UInt64.le_zero_iff.mp enough) asks
  | false =>
    rw [removal] at shown
    exact ⟨_, shown.1, enough⟩

def waitedCalls : List Call :=
  [.openSession 1 100, .waitFor "/a" 4, .admitWrite 1 "/a" 4 0, .ingest "/a" 4, .complete "/a", .freeze []]

def waitedBatch : FrozenBatch :=
  { batchId := 1, instanceId := 1, baseEpoch := 5, generation := 1, sessions := [1]
    cover := SortedMap.empty.insert "/a" { version := 1, len := 4, complete := true, removal := false } }

theorem notified_committed_waited : ∃ file,
    ((waitedCalls.foldl step (new 1 {} 0 10 true)).state.publishNamespace waitedBatch ⟨1, 1⟩ []).2.current.committed.get
        "/a" = some file ∧ 4 ≤ file.len := by
  have run : Run.Reaches step (fun w call => w.Permits call ∧ w.AnswersFromSlot call) (new 1 {} 0 10 true)
      (waitedCalls.foldl step (new 1 {} 0 10 true)) :=
    Run.Follows.reaches (by decide)
  have done : (waitedCalls.foldl step (new 1 {} 0 10 true)).state.publishNamespace waitedBatch ⟨1, 1⟩ [] =
      (.ok { epoch := 7, generation := 1, notified := [1], duplicate := false },
        ((waitedCalls.foldl step (new 1 {} 0 10 true)).state.publishNamespace waitedBatch ⟨1, 1⟩ []).2) :=
    Prod.ext rfl rfl
  have waits : ({ id := 1, path := "/a", lenRequired := 4, notified := false } : Waiter) ∈
      (waitedCalls.foldl step (new 1 {} 0 10 true)).state.waiters := by decide
  exact notified_committed ⟨1, {}, 0, 10, true, run⟩ (by decide) done waits (by decide) (by decide)

def replayedCalls : List Call :=
  [.openSession 1 100, .admitWrite 1 "/a" 4 0, .ingest "/a" 4, .complete "/a", .freeze [],
    .publish waitedBatch ⟨1, 1⟩ [], .admitRemoval 1 "/a" 1, .complete "/a", .freeze [],
    .publish
      { batchId := 2, instanceId := 1, baseEpoch := 9, generation := 2, sessions := [1]
        cover := SortedMap.empty.insert "/a" { version := 2, len := 0, complete := true, removal := true } }
      ⟨2, 2⟩ [],
    .waitFor "/a" 4]

/-- A second publication of the first batch tells the waiter that its bytes are committed. -/
theorem notified_committed_replayed : Run.Follows step Permits (new 1 {} 0 10 true)
      (replayedCalls ++ [.publish waitedBatch ⟨1, 1⟩ []]) ∧
    (replayedCalls.foldl step (new 1 {} 0 10 true)).state.waiters =
      [{ id := 1, path := "/a", lenRequired := 4, notified := false }] ∧
    ((replayedCalls.foldl step (new 1 {} 0 10 true)).state.publishNamespace waitedBatch ⟨1, 1⟩ []).1 =
      .ok { epoch := 11, generation := 2, notified := [1], duplicate := true } ∧
    ((replayedCalls.foldl step (new 1 {} 0 10 true)).state.publishNamespace waitedBatch ⟨1, 1⟩ []).2.current.committed.get
      "/a" = none := by
  refine ⟨by decide, by decide, rfl, by decide⟩

end World

end TapeRs.Core
