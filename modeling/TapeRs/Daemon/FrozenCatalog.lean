import TapeRs.Daemon.Records

namespace TapeRs.Daemon

open Management ControlState

/-- What must not change any more once the catalog is frozen. -/
structure Records.SameCatalog (before after : Records) : Prop where
  pools : after.pools = before.pools
  tapes : after.tapes = before.tapes
  tapeState : after.tapeState = before.tapeState
  tapeSummary : after.tapeSummary = before.tapeSummary
  management : after.management = before.management
  frozen : after.catalogFrozenIndex = before.catalogFrozenIndex

theorem Records.SameCatalog.refl (records : Records) : records.SameCatalog records := ⟨rfl, rfl, rfl, rfl, rfl, rfl⟩

theorem Records.SameCatalog.trans {first second third : Records} (one : first.SameCatalog second)
    (two : second.SameCatalog third) : first.SameCatalog third :=
  ⟨two.pools.trans one.pools, two.tapes.trans one.tapes, two.tapeState.trans one.tapeState,
    two.tapeSummary.trans one.tapeSummary, two.management.trans one.management, two.frozen.trans one.frozen⟩

namespace ControlState

variable {c : ControlState}

theorem interrupt_idle (idle : activeTasks c.management = false) : interrupt c = c := by
  unfold interrupt
  split
  · rfl
  rename_i tasks there
  rw [if_neg]
  intro some
  obtain ⟨entry, member, running⟩ := List.any_eq_true.mp some
  obtain ⟨v, got, object⟩ := Option.bind_eq_some_iff.mp there
  have active' : activeTasks c.management := by
    unfold activeTasks
    rw [Json.Value.field, got, Option.getD_some, object]
    refine List.any_eq_true.mpr ⟨entry, member, ?_⟩
    rw [active]
    exact Bool.or_eq_true_iff.mpr (.inr running)
  rw [idle] at active'
  cases active'

theorem apply_frozen {place : UInt64} (frozen : c.catalogFrozenIndex = some place)
    (idle : activeTasks c.management = false) (index : UInt64) (cmd : Command) :
    c.records.SameCatalog (c.apply index cmd).1.records := by
  obtain ⟨sequence, effect⟩ := c.apply_effect index cmd
  have still : (c.found index sequence).catalogFrozenIndex = some place := frozen
  have quiet : interrupt (c.found index sequence) = c.found index sequence := interrupt_idle idle
  show (c.found index sequence).records.SameCatalog (c.apply index cmd).1.records
  generalize c.found index sequence = found at effect still quiet
  generalize (c.apply index cmd).1.records = after at effect
  generalize Directory.unwrap cmd (c.apply index cmd).2 = unwrapped at effect
  cases effect with
  | same => exact .refl _
  | relieve =>
    rw [quiet]
    exact .refl _
  | freeze quiesceIndex =>
    unfold freezeCatalog
    rw [still]
    split
    · exact .refl _
    · exact .refl _
  | release address node round token =>
    unfold releaseVip
    split
    · split
      · exact ⟨rfl, rfl, rfl, rfl, rfl, rfl⟩
      · exact .refl _
    · exact .refl _
  | quiesce thawed | resume _ thawed | acquire _ _ _ _ thawed | manage _ thawed | observe _ _ thawed
  | report _ _ _ _ thawed | create _ _ _ thawed | assign _ _ thawed | unassign _ thawed | state _ _ thawed
  | reclaim _ thawed | reclaimed _ _ thawed | commit _ _ _ _ _ _ _ _ thawed =>
    rw [still] at thawed
    cases thawed

theorem apply_freezes {index : UInt64} {cmd : Command} (thawed : c.catalogFrozenIndex = none)
    (frozen : (c.apply index cmd).1.catalogFrozenIndex ≠ none) :
    (c.executor = none ∧ activeTasks c.management = false ∧ c.reclaims = false) ∧
      (c.apply index cmd).1.catalogFrozenIndex = some index ∧ (c.apply index cmd).1.management = c.management := by
  obtain ⟨sequence, effect⟩ := c.apply_effect index cmd
  have open' : (c.found index sequence).catalogFrozenIndex = none := thawed
  change (c.apply index cmd).1.records.catalogFrozenIndex ≠ none at frozen
  show ((c.found index sequence).executor = none ∧ activeTasks (c.found index sequence).management = false ∧
    (c.found index sequence).reclaims = false) ∧ (c.apply index cmd).1.records.catalogFrozenIndex = some index ∧
    (c.apply index cmd).1.records.management = (c.found index sequence).management
  generalize c.found index sequence = found at effect open' ⊢
  generalize (c.apply index cmd).1.records = after at effect frozen ⊢
  generalize Directory.unwrap cmd (c.apply index cmd).2 = unwrapped at effect
  by_cases still : unwrapped.1.freezes = false
  · rw [effect.kept.frozen still] at frozen
    exact absurd open' frozen
  cases effect with
  | freeze quiesceIndex =>
    unfold freezeCatalog at frozen ⊢
    rw [open'] at frozen ⊢
    dsimp only at frozen ⊢
    split at frozen
    · exact absurd open' frozen
    rename_i round
    rw [if_neg round]
    split at frozen
    · exact absurd open' frozen
    rename_i settled
    rw [if_neg settled]
    simp only [Bool.or_eq_true, not_or, Bool.not_eq_true, Option.isSome_eq_false_iff, Option.isNone_iff_eq_none] at settled
    exact ⟨⟨settled.1.1, settled.1.2, settled.2⟩, rfl, rfl⟩
  | same => exact absurd open' frozen
  | relieve =>
    obtain ⟨m, only⟩ := interrupt_only found
    rw [only] at frozen
    exact absurd open' frozen
  | quiesce | resume | acquire | release | manage | observe | report | create | assign | unassign | state | reclaim
  | reclaimed | commit => exact absurd rfl still

end ControlState

theorem replay_frozen_idle {log : List Entry} {place : UInt64} (frozen : (replay log).catalogFrozenIndex = some place) :
    activeTasks (replay log).management = false := by
  induction log using List.reverseRecOn generalizing place with
  | nil => cases frozen
  | append_singleton log entry ih =>
    rw [replay_append] at frozen ⊢
    change ((replay log).apply entry.1 entry.2).1.catalogFrozenIndex = some place at frozen
    show activeTasks ((replay log).apply entry.1 entry.2).1.management = false
    cases before : (replay log).catalogFrozenIndex with
    | none =>
      have froze : ((replay log).apply entry.1 entry.2).1.catalogFrozenIndex ≠ none := by simp [frozen]
      obtain ⟨⟨_, idle, _⟩, _, same⟩ := apply_freezes before froze
      rw [same]
      exact idle
    | some earlier =>
      have same := apply_frozen before (ih before) entry.1 entry.2
      have kept : ((replay log).apply entry.1 entry.2).1.management = (replay log).management := same.management
      rw [kept]
      exact ih before

/-- A frozen catalog never changes, and what freezes it finds everything at rest. -/
theorem frozen_catalog_never_changes (log : List Entry) (entry : Entry)
    (freezes : (replay log).catalogFrozenIndex = none ∧ (replay (log ++ [entry])).catalogFrozenIndex ≠ none) :
    ((replay log).executor = none ∧ activeTasks (replay log).management = false ∧ (replay log).reclaims = false) ∧
    ∀ more, (replay (log ++ [entry])).records.SameCatalog (replay (log ++ [entry] ++ more)).records := by
  have applied : replay (log ++ [entry]) = ((replay log).apply entry.1 entry.2).1 := replay_append ..
  have froze := freezes.2
  rw [applied] at froze
  obtain ⟨rest, place, _⟩ := apply_freezes freezes.1 froze
  refine ⟨rest, fun more => ?_⟩
  have start : (replay (log ++ [entry])).catalogFrozenIndex = some entry.1 := by rw [applied, place]
  induction more using List.reverseRecOn with
  | nil =>
    rw [List.append_nil]
    exact .refl _
  | append_singleton more next ih =>
    have frozen : (replay (log ++ [entry] ++ more)).catalogFrozenIndex = some entry.1 := ih.frozen.trans start
    have step := apply_frozen frozen (replay_frozen_idle frozen) next.1 next.2
    rw [← List.append_assoc, replay_append (log ++ [entry] ++ more)]
    exact ih.trans step

def drained : List Entry := [(1, .takeover 1 1), (2, .catalogQuiesce), (3, .abandoned 1 1 "")]

theorem frozen_catalog_never_changes_drained :
    ((replay drained).executor = none ∧ activeTasks (replay drained).management = false ∧
      (replay drained).reclaims = false) ∧
    ∀ more, (replay (drained ++ [(4, .catalogFreeze 2)])).records.SameCatalog
      (replay (drained ++ [(4, .catalogFreeze 2)] ++ more)).records :=
  frozen_catalog_never_changes _ _ ⟨by decide, by decide⟩

end TapeRs.Daemon
