import TapeRs.Core.VolumeRun

namespace TapeRs.Core

namespace World

variable {w : World} {call : Call}

/-- A publication of the frozen batch brings evidence for the generation that was frozen, and there is a next generation
    to freeze. -/
def MatchesGeneration (w : World) : Call → Prop
  | .publish batch evidence _ =>
    ∀ slot ∈ w.state.current.commitSlot, slot.batchId = batch.batchId → evidence.generation = slot.generation
  | .freeze _ => w.state.current.generation.toNat + 1 < UInt64.size
  | _ => True

instance (w : World) (call : Call) : Decidable (w.MatchesGeneration call) := by
  unfold MatchesGeneration
  split <;> infer_instance

def Guarded (w : World) : Prop :=
  w.state.current.capability.trusted = false → w.state.current.capability.writable = false

theorem capability_step (filed : w.Filed) (call : Call) :
    (w.step call).state.current.capability = w.state.current.capability ∨
      ((w.step call).state.current.capability.trusted = false ∧
        (w.step call).state.current.capability.writable = false) := by
  show (call.run w.state).current.capability = _ ∨
    ((call.run w.state).current.capability.trusted = false ∧ (call.run w.state).current.capability.writable = false)
  cases Moved.run w.state call with
  | quiet current =>
    rw [current]
    exact .inl rfl
  | poisoned current =>
    rw [current]
    rcases filed.ready with built | installed
    · rw [built]
      exact .inr ⟨rfl, rfl⟩
    · rw [installed]
      exact .inl rfl
  | installed root change current =>
    rw [current]
    exact .inl change.capability

theorem Guarded.step (filed : w.Filed) (guarded : w.Guarded) (call : Call) : (w.step call).Guarded := by
  rcases capability_step filed call with same | ⟨_, unwritable⟩
  · unfold Guarded
    rw [same]
    exact guarded
  · exact fun _ => unwritable

theorem untrusted_lasts {condition : World → Call → Prop} {later : World} (filed : w.Filed) (guarded : w.Guarded)
    (run : Run.Reaches step condition w later) (untrusted : w.state.current.capability.trusted = false) :
    later.state.current.capability.trusted = false ∧ later.state.current.capability.writable = false := by
  have kept : later.Filed ∧ later.Guarded ∧ later.state.current.capability.trusted = false := by
    refine run.invariant (P := fun w => w.Filed ∧ w.Guarded ∧ w.state.current.capability.trusted = false) ?_
      ⟨filed, guarded, untrusted⟩
    rintro state call ⟨filed, guarded, untrusted⟩ _
    refine ⟨filed.step call, guarded.step filed call, ?_⟩
    rcases capability_step filed call with same | ⟨distrusted, _⟩
    · rw [same]
      exact untrusted
    · exact distrusted
  exact ⟨kept.2.2, kept.2.1 kept.2.2⟩

def SlotAhead (w : World) : Prop :=
  ∀ slot ∈ w.state.current.commitSlot, w.state.current.generation ≤ slot.generation

theorem change_generation {root : VolumeRoot} (ahead : w.SlotAhead) (meets : w.MatchesGeneration call)
    (change : Change w.state call root) :
    w.state.current.generation ≤ root.generation ∧ ∀ slot ∈ root.commitSlot, root.generation ≤ slot.generation := by
  cases change with
  | ended =>
    have same := VolumeRoot.sameHead_foldl VolumeRoot.sameHead_endSession (w.state.ending call) w.state.current.next
    rw [same.generation, same.commitSlot]
    exact ⟨UInt64.le_refl _, ahead⟩
  | frozen snapshotOpen =>
    refine ⟨UInt64.le_refl _, ?_⟩
    intro slot placed
    obtain rfl := Option.some.inj placed
    apply UInt64.le_iff_toNat_le.mpr
    have room : w.state.current.generation.toNat + 1 < UInt64.size := meets
    show _ ≤ (w.state.current.generation + 1).toNat
    rw [UInt64.toNat_add, show (1 : UInt64).toNat = 1 from rfl, Nat.mod_eq_of_lt room]
    exact Nat.le_succ _
  | published batch evidence directories slot evidenced instanced found same =>
    refine ⟨?_, fun _ placed => nomatch placed⟩
    show w.state.current.generation ≤ evidence.generation
    rw [meets slot found same]
    exact ahead slot found
  | _ => exact ⟨UInt64.le_refl _, ahead⟩

theorem generation_step (filed : w.Filed) (ahead : w.SlotAhead) (meets : w.MatchesGeneration call) :
    w.state.current.generation ≤ (w.step call).state.current.generation ∧ (w.step call).SlotAhead := by
  refine filed.current_step (P := fun root => w.state.current.generation ≤ root.generation ∧
    ∀ slot ∈ root.commitSlot, root.generation ≤ slot.generation) call ?_ ?_
  · exact fun _ _ => ⟨UInt64.le_refl _, ahead⟩
  · exact fun root => change_generation ahead meets

theorem installed_epoch (filed : w.Filed) (call : Call)
    (installs : (call.run w.state).retired.length = w.state.retired.length + 1) :
    w.state.current.epoch < (call.run w.state).current.epoch ∨
      w.state.current = w.state.poison ∧ (call.run w.state).current = w.state.current := by
  cases Moved.run w.state call with
  | quiet _ _ retired => omega
  | poisoned current =>
    rw [current]
    rcases filed.ready with built | installed
    · rw [built]
      exact .inl (Nat.lt_succ_self _)
    · exact .inr ⟨installed.symm, installed⟩
  | installed root change current =>
    rw [current, change.epoch]
    exact .inl (Nat.lt_succ_self _)

theorem publish_root (g : Inner) (batch : FrozenBatch) (evidence : S4Evidence) (directories : List Path) :
    ((∃ outcome, (g.publishNamespace batch evidence directories).1 = .ok outcome ∧ outcome.duplicate = true) ∨
      (g.publishNamespace batch evidence directories).1 = .error (.evidenceMismatch batch.batchId evidence.batchId) ∨
      (g.publishNamespace batch evidence directories).1 =
        .error (.staleInstance batch.instanceId g.current.instanceId) →
        (g.publishNamespace batch evidence directories).2.current = g.current ∧
          (g.publishNamespace batch evidence directories).2.retired = g.retired) ∧
    ∀ outcome, (g.publishNamespace batch evidence directories).1 = .ok outcome → outcome.duplicate = false →
      ∃ slot, g.current.commitSlot = some slot ∧ slot.batchId = batch.batchId ∧
        (g.publishNamespace batch evidence directories).2.current.generation = evidence.generation := by
  unfold Inner.publishNamespace Inner.notifyLocked
  dsimp only
  split_ifs with mismatch stale duplicate failing
  · simp
  · simp
  · refine ⟨fun _ => ⟨rfl, rfl⟩, ?_⟩
    intro outcome done fresh
    obtain rfl := Except.ok.inj done
    cases fresh
  · simp
  · constructor
    · rintro (⟨outcome, done, repeated⟩ | refused | refused)
      · obtain rfl := Except.ok.inj done
        cases repeated
      · cases refused
      · cases refused
    · intro outcome done fresh
      obtain ⟨slot, found, same⟩ := Option.map_eq_some_iff.mp (not_not.mp duplicate)
      exact ⟨slot, found, same, rfl⟩

def generationCalls : List Call :=
  [.openSession 1 100, .admitWrite 1 "/a" 4 0, .complete "/a", .freeze []]

def generationBatch : FrozenBatch :=
  { batchId := 1, instanceId := 1, baseEpoch := 4, generation := 6, sessions := [1]
    cover := SortedMap.empty.insert "/a" { version := 1, len := 0, complete := true, removal := false } }

end World

end TapeRs.Core
