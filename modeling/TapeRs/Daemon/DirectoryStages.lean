import TapeRs.Daemon.Directory

namespace TapeRs.Daemon

open Result

namespace Directory

variable {d after : Directory} {plan : Plan} {index : UInt64} {cmd : Command} {outcome : Applied}

def unwrap : Command → Applied → Command × Applied
  | .executorReport _ _ _ _ command, .reported inner => unwrap command inner
  | cmd, outcome => (cmd, outcome)

theorem apply_unwrap (d : Directory) (plan : Plan) (index : UInt64) (cmd : Command) (outcome : Applied) :
    d.apply plan index cmd outcome = d.applyDirect plan index (unwrap cmd outcome).1 (unwrap cmd outcome).2 := by
  fun_induction unwrap cmd outcome with
  | case1 _ _ _ _ command inner ih => rw [apply, ih]
  | case2 cmd outcome other => rw [apply]; exact other

theorem unwrap_holds {holds : Command → Bool}
    (inner : ∀ node inst round sequence command, holds (.executorReport node inst round sequence command) = holds command)
    (cmd : Command) (outcome : Applied) (held : holds cmd) : holds (unwrap cmd outcome).1 := by
  fun_induction unwrap cmd outcome with
  | case1 _ _ _ _ command outcome ih =>
    rw [inner] at held
    exact ih held
  | case2 cmd outcome other => exact held

theorem freeze_ok (frozen : d.freeze index cmd outcome = .ok after) :
    ∃ place, after = { d with frozenIndex := place } := by
  unfold freeze at frozen
  split at frozen
  · split at frozen
    · cases frozen
    dsimp only at frozen
    split at frozen
    · split at frozen
      · cases frozen
        exact ⟨_, rfl⟩
      · cases frozen
    · split at frozen
      · cases frozen
        exact ⟨_, rfl⟩
      · cases frozen
  · cases frozen
  · cases frozen
    exact ⟨d.frozenIndex, rfl⟩

theorem checked_ok (done : d.checked = .ok after) : after = d := by
  unfold checked at done
  split at done
  · exact (Except.ok.inj done).symm
  · cases done

theorem updatePool_ok {p : Json.Value} (done : d.updatePool p = .ok after) : ∃ pools, after = { d with pools } := by
  unfold updatePool at done
  split at done
  · cases done
  split at done
  · cases done
    exact ⟨d.pools, rfl⟩
  split at done
  · cases done
  · cases done
  split at done
  · cases done
  · cases done
    exact ⟨_, rfl⟩

theorem insertTape_ok {a : Json.Value} (done : d.insertTape a = .ok after) : ∃ tapes, after = { d with tapes } := by
  unfold insertTape at done
  split at done
  · split at done
    · cases done
    · exact ⟨_, checked_ok done⟩
  · cases done

theorem carryOut_ok (done : d.carryOut outcome = .ok after) : ∃ pools tapes, after = { d with pools, tapes } := by
  unfold carryOut at done
  split at done
  · rename_i result
    obtain ⟨first, updated, done⟩ := bind_ok.mp done
    obtain ⟨second, inserted, done⟩ := bind_ok.mp done
    have one : ∃ pools, first = { d with pools } := by
      split at updated
      · exact updatePool_ok updated
      · cases updated
        exact ⟨d.pools, rfl⟩
    have two : ∃ tapes, second = { first with tapes } := by
      split at inserted
      · exact insertTape_ok inserted
      · cases inserted
        exact ⟨first.tapes, rfl⟩
    obtain ⟨pools, rfl⟩ := one
    obtain ⟨tapes, rfl⟩ := two
    split at done
    · cases done
      exact ⟨pools, _, rfl⟩
    · cases done
      exact ⟨pools, tapes, rfl⟩
  · cases done
    exact ⟨d.pools, d.tapes, rfl⟩

theorem deletePool_ok (done : d.deletePool cmd outcome = .ok after) : ∃ pools, after = { d with pools } := by
  unfold deletePool at done
  split at done
  · split at done
    · split at done
      · exact ⟨_, checked_ok done⟩
      · cases done
        exact ⟨d.pools, rfl⟩
    · cases done
      exact ⟨d.pools, rfl⟩
  · cases done
  · cases done
    exact ⟨d.pools, rfl⟩

theorem administer_ok (done : d.administer plan cmd outcome = .ok after) :
    ∃ pools tapes, after = { d with pools, tapes } := by
  unfold administer at done
  split at done
  · exact ⟨_, d.tapes, checked_ok done⟩
  · unfold assignTape at done
    split at done
    · cases done
    · exact ⟨d.pools, _, checked_ok done⟩
  · cases done
    exact ⟨d.pools, _, rfl⟩
  · cases done
    exact ⟨d.pools, d.tapes, rfl⟩

def reorganise (d : Directory) (plan : Plan) (cmd : Command) (outcome : Applied) : Result Directory := do
  let d ← d.carryOut outcome
  let d ← d.deletePool cmd outcome
  d.administer plan cmd outcome

theorem applyDirect_ok (fresh : d.applied < index) (done : d.applyDirect plan index cmd outcome = .ok after) :
    (outcome = .catalogRejected ∧ after = { d with applied := index }) ∨
      ∃ frozenIndex fileTasks next, outcome ≠ .catalogRejected ∧
        (d.fileTasks.changeOwner index cmd outcome).record cmd = .ok fileTasks ∧
        { d with frozenIndex, fileTasks }.reorganise plan cmd outcome = .ok next ∧
        after = { next.catalog plan cmd outcome with applied := index } := by
  unfold applyDirect at done
  rw [if_neg (UInt64.not_le.mpr fresh)] at done
  split at done
  · cases done
    exact .inl ⟨rfl, rfl⟩
  rename_i accepted
  obtain ⟨first, frozen, done⟩ := bind_ok.mp done
  obtain ⟨place, rfl⟩ := freeze_ok frozen
  obtain ⟨tasks, recorded, done⟩ := bind_ok.mp done
  obtain ⟨second, carried, done⟩ := bind_ok.mp done
  obtain ⟨third, deleted, done⟩ := bind_ok.mp done
  obtain ⟨last, administered, done⟩ := bind_ok.mp done
  cases done
  refine .inr ⟨place, tasks, last, accepted, recorded, ?_, rfl⟩
  rw [reorganise, carried, ok_bind, deleted, ok_bind, administered]

theorem reorganise_ok (done : d.reorganise plan cmd outcome = .ok after) : ∃ pools tapes, after = { d with pools, tapes } := by
  obtain ⟨first, carried, done⟩ := bind_ok.mp done
  obtain ⟨second, deleted, done⟩ := bind_ok.mp done
  obtain ⟨pools, tapes, rfl⟩ := carryOut_ok carried
  obtain ⟨pools', rfl⟩ := deletePool_ok deleted
  obtain ⟨pools'', tapes'', rfl⟩ := administer_ok done
  exact ⟨pools'', tapes'', rfl⟩

@[simp] theorem catalog_fileTasks (d : Directory) (plan : Plan) (cmd : Command) (outcome : Applied) :
    (d.catalog plan cmd outcome).fileTasks = d.fileTasks := by
  unfold catalog
  split
  · rfl
  · unfold commitTape
    dsimp only
    split <;> rfl
  · rfl
  · rfl

theorem applyDirect_fileTasks (fresh : d.applied < index) (done : d.applyDirect plan index cmd outcome = .ok after) :
    (outcome = .catalogRejected ∧ after.fileTasks = d.fileTasks) ∨
      (d.fileTasks.changeOwner index cmd outcome).record cmd = .ok after.fileTasks := by
  rcases applyDirect_ok fresh done with ⟨rejected, rfl⟩ | ⟨place, tasks, next, _, recorded, reorganised, rfl⟩
  · exact .inl ⟨rejected, rfl⟩
  · obtain ⟨pools, tapes, rfl⟩ := reorganise_ok reorganised
    simp only [catalog_fileTasks]
    exact .inr recorded

theorem applyDirect_applied (fresh : d.applied < index) (done : d.applyDirect plan index cmd outcome = .ok after) :
    after.applied = index := by
  rcases applyDirect_ok fresh done with ⟨_, rfl⟩ | ⟨_, _, _, _, _, _, rfl⟩
  · rfl
  · rfl

theorem applyDirect_catalog (fresh : d.applied < index) (done : d.applyDirect plan index cmd outcome = .ok after) :
    (outcome = .catalogRejected ∧ after.files = d.files ∧ after.staging = d.staging) ∨
      (outcome ≠ .catalogRejected ∧ after.files = (d.catalog plan cmd outcome).files ∧
        after.staging = (d.catalog plan cmd outcome).staging) := by
  rcases applyDirect_ok fresh done with ⟨rejected, rfl⟩ | ⟨place, tasks, next, accepted, _, reorganised, rfl⟩
  · exact .inl ⟨rejected, rfl, rfl⟩
  refine .inr ⟨accepted, ?_⟩
  obtain ⟨pools, tapes, rfl⟩ := reorganise_ok reorganised
  unfold catalog
  split
  · exact ⟨rfl, rfl⟩
  · cases reorganised
    unfold commitTape
    dsimp only
    split
    · rename_i whole
      rw [if_pos (show d.complete _ _ _ = true from whole)]
      exact ⟨rfl, rfl⟩
    · rename_i lacking
      rw [if_neg (show ¬d.complete _ _ _ = true from lacking)]
      exact ⟨rfl, rfl⟩
  · exact ⟨rfl, rfl⟩
  · exact ⟨rfl, rfl⟩

end Directory

namespace Node

variable {plan : UInt64 → Plan} {log : List Entry} {n next : Node} {entry : Entry}

theorem replay_snoc (plan : UInt64 → Plan) (log : List Entry) (entry : Entry) :
    replay plan (log ++ [entry]) = (replay plan log >>= fun n => n.apply plan entry) := by
  simp [replay]

theorem apply_ok (done : n.apply plan entry = .ok next) :
    next.ctl = (n.ctl.apply entry.1 entry.2).1 ∧
      n.directory.apply (plan entry.1) entry.1 entry.2 (n.ctl.apply entry.1 entry.2).2 = .ok next.directory := by
  obtain ⟨directory, applied, made⟩ := bind_ok.mp done
  cases made
  exact ⟨rfl, applied⟩

theorem replay_ok (ascending : Ascending 0 log) (ran : replay plan log = .ok n) :
    n.ctl = Daemon.replay log ∧ n.directory.applied = lastIndex 0 log := by
  induction log using List.reverseRecOn generalizing n with
  | nil =>
    cases ran
    exact ⟨rfl, rfl⟩
  | append_singleton log entry ih =>
    obtain ⟨before, later, _⟩ := ascending_append.mp ascending
    rw [replay_snoc] at ran
    obtain ⟨prior, ranBefore, done⟩ := bind_ok.mp ran
    obtain ⟨ctl, applied⟩ := ih before ranBefore
    obtain ⟨stepped, written⟩ := apply_ok done
    constructor
    · rw [stepped, ctl, replay_append]
      rfl
    · rw [Directory.apply_unwrap] at written
      rw [lastIndex_append]
      exact Directory.applyDirect_applied (applied ▸ later) written

end Node

end TapeRs.Daemon
