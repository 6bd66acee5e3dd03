import TapeRs.Error
import TapeRs.Data.Run
import TapeRs.Daemon.Activity

namespace TapeRs.Daemon

inductive Phase where
  | fencing
  | execution
  | serving
deriving DecidableEq, Repr

def Phase.rank : Phase → Nat
  | fencing => 0
  | execution => 1
  | serving => 2

/-- Times are readings of the monotonic clock. -/
structure Grant where
  round : UInt64
  phase : Phase
  deadline : Nat
  closed : Bool
deriving DecidableEq, Repr

namespace Grant

def refuses (old : Grant) (now : Nat) (round : UInt64) (phase : Phase) : Bool :=
  round < old.round || (round = old.round && (old.closed || old.deadline ≤ now || phase.rank < old.phase.rank))

def covers (old : Grant) (round : UInt64) (phase : Phase) (deadline : Nat) : Bool :=
  round = old.round && deadline ≤ old.deadline && phase = old.phase

end Grant

structure Permission where
  state : Option Grant := none
  activity : ActivityRegistry := {}
deriving DecidableEq, Repr

namespace Permission

def renew (p : Permission) (now : Nat) (round : UInt64) (phase : Phase) (deadline : Nat) : Permission × Bool :=
  if round = 0 ∨ deadline ≤ now then (p, false)
  else if p.state.any (·.refuses now round phase) then (p, false)
  else if p.state.any (·.covers round phase deadline) then (p, true)
  else
    ({ state := some { round, phase, deadline, closed := false }
       activity := if phase = .serving then p.activity.serving round else p.activity }, true)

def deadline (p : Permission) (now : Nat) (round : UInt64) (phase : Phase) : Option Nat :=
  (p.state.filter fun g => g.round = round && !g.closed && g.phase = phase && now < g.deadline).map (·.deadline)

def allows (p : Permission) (now : Nat) (round : UInt64) (phase : Phase) : Bool := (p.deadline now round phase).isSome

def close (p : Permission) (now : Nat) (round : UInt64) : Permission :=
  { state :=
      if p.state.all fun g => g.round < round then some { round, phase := .fencing, deadline := now, closed := true }
      else p.state.map fun g => if g.round = round then { g with closed := true } else g
    activity := p.activity.close round }

theorem allows_iff {p : Permission} {now : Nat} {round : UInt64} {phase : Phase} :
    p.allows now round phase ↔
      ∃ g, p.state = some g ∧ g.round = round ∧ g.closed = false ∧ g.phase = phase ∧ now < g.deadline := by
  unfold allows deadline
  cases p.state with
  | none => simp
  | some g => simp [Option.filter, and_assoc]

theorem renew_cases (p : Permission) (now : Nat) (round : UInt64) (phase : Phase) (deadline : Nat) :
    (p.renew now round phase deadline).1 = p ∧ ((p.renew now round phase deadline).2 = false ∨
        ∃ g, p.state = some g ∧ g.round = round) ∨
      round ≠ 0 ∧ now < deadline ∧ (∀ g, p.state = some g → g.refuses now round phase = false) ∧
        p.renew now round phase deadline =
          ({ state := some { round, phase, deadline, closed := false }
             activity := if phase = .serving then p.activity.serving round else p.activity }, true) := by
  unfold renew
  split
  · exact .inl ⟨rfl, .inl rfl⟩
  rename_i real
  split
  · exact .inl ⟨rfl, .inl rfl⟩
  rename_i free
  split
  · rename_i covered
    obtain ⟨g, held, covers⟩ := (Option.any_eq_true _ _).mp covered
    simp only [Grant.covers, Bool.and_eq_true, decide_eq_true_eq] at covers
    exact .inl ⟨rfl, .inr ⟨g, held, covers.1.1.symm⟩⟩
  · simp only [not_or, Nat.not_le] at real
    refine .inr ⟨real.1, real.2, ?_, rfl⟩
    intro g held
    simpa [held] using free

def Past (p : Permission) (point : Grant → Prop) (round : UInt64) : Prop :=
  ∃ g, p.state = some g ∧ (round < g.round ∨ (round = g.round ∧ point g))

def Over (p : Permission) (now : Nat) (round : UInt64) : Prop := p.Past (fun g => g.closed = true ∨ g.deadline ≤ now) round

def Shut (p : Permission) (round : UInt64) : Prop := p.Past (fun g => g.closed = true) round

def Reached (p : Permission) (round : UInt64) (rank : Nat) : Prop := p.Past (fun g => rank ≤ g.phase.rank) round

variable {p : Permission} {now : Nat} {round : UInt64} {point : Grant → Prop}

theorem le_of_not_refuses {g : Grant} {next : UInt64} {phase : Phase} (free : g.refuses now next phase = false) :
    g.round ≤ next ∧ (next = g.round → g.closed = false ∧ now < g.deadline ∧ g.phase.rank ≤ phase.rank) := by
  simp only [Grant.refuses, Bool.or_eq_false_iff, decide_eq_false_iff_not, UInt64.not_lt, Bool.and_eq_false_iff] at free
  refine ⟨free.1, ?_⟩
  intro same
  rcases free.2 with other | ⟨⟨live, valid⟩, forward⟩
  · exact absurd same other
  · exact ⟨live, Nat.not_le.mp valid, Nat.not_lt.mp forward⟩

theorem Past.renew (past : p.Past point round) (next : UInt64) (phase : Phase) (deadline : Nat)
    (keeps : ∀ g, point g → g.closed = false → now < g.deadline → g.phase.rank ≤ phase.rank →
      point { round := g.round, phase, deadline, closed := false }) :
    (p.renew now next phase deadline).1.Past point round := by
  rcases p.renew_cases now next phase deadline with ⟨same, _⟩ | ⟨_, _, free, granted⟩
  · rw [same]
    exact past
  obtain ⟨g, held, reached⟩ := past
  obtain ⟨behind, live⟩ := le_of_not_refuses (free g held)
  rw [granted]
  refine ⟨_, rfl, ?_⟩
  rcases reached with later | ⟨rfl, there⟩
  · exact .inl (UInt64.lt_of_lt_of_le later behind)
  by_cases again : g.round = next
  · obtain ⟨opened, valid, forward⟩ := live again.symm
    exact .inr ⟨again, again ▸ keeps g there opened valid forward⟩
  · exact .inl (UInt64.lt_of_le_of_ne behind again)

theorem close_state (p : Permission) (now : Nat) (closing : UInt64) :
    (∀ g, p.state = some g → g.round < closing) ∧
        (p.close now closing).state = some { round := closing, phase := .fencing, deadline := now, closed := true } ∨
      ∃ g, p.state = some g ∧ closing ≤ g.round ∧
        (p.close now closing).state = some { g with closed := g.closed || g.round = closing } := by
  unfold close
  cases held : p.state with
  | none => exact .inl ⟨nofun, rfl⟩
  | some g =>
    by_cases behind : g.round < closing
    · refine .inl ⟨?_, by simp [behind]⟩
      rintro _ ⟨⟩
      exact behind
    · refine .inr ⟨g, rfl, UInt64.not_lt.mp behind, ?_⟩
      by_cases same : g.round = closing
      · simp [same]
      · simp [behind, same]

theorem Past.close (past : p.Past point round) (closing : UInt64)
    (keeps : ∀ g closed, point g → (g.closed = true → closed = true) → point { g with closed }) :
    (p.close now closing).Past point round := by
  obtain ⟨g, held, reached⟩ := past
  rcases p.close_state now closing with ⟨behind, closed⟩ | ⟨g', held', _, closed⟩
  · refine ⟨_, closed, .inl ?_⟩
    rcases reached with later | ⟨rfl, _⟩
    · exact UInt64.lt_trans later (behind g held)
    · exact behind g held
  · rw [held] at held'
    cases held'
    refine ⟨_, closed, ?_⟩
    rcases reached with later | ⟨same, there⟩
    · exact .inl later
    · exact .inr ⟨same, keeps g _ there (by simp +contextual)⟩

theorem Over.renew (ended : p.Over now round) (next : UInt64) (phase : Phase) (deadline : Nat) :
    (p.renew now next phase deadline).1.Over now round := by
  refine Past.renew ended next phase deadline ?_
  intro g ended opened valid _
  rcases ended with closed | expired
  · rw [opened] at closed
    cases closed
  · exact absurd valid (Nat.not_lt.mpr expired)

theorem Over.close (ended : p.Over now round) (closing : UInt64) : (p.close now closing).Over now round := by
  refine Past.close ended closing ?_
  intro g closed ended still
  exact ended.imp still id

theorem Over.later (ended : p.Over now round) {after : Nat} (passed : now ≤ after) : p.Over after round := by
  obtain ⟨g, held, reached⟩ := ended
  exact ⟨g, held, reached.imp id fun ⟨same, ended⟩ => ⟨same, ended.imp id fun expired => expired.trans passed⟩⟩

theorem Over.forbids (ended : p.Over now round) (phase : Phase) : p.allows now round phase = false := by
  obtain ⟨g, held, past⟩ := ended
  rw [Bool.eq_false_iff]
  intro allowed
  obtain ⟨g', held', same, live, _, valid⟩ := allows_iff.mp allowed
  rw [held] at held'
  cases held'
  rcases past with later | ⟨_, closed | expired⟩
  · exact absurd same (UInt64.ne_of_lt later).symm
  · rw [live] at closed
    cases closed
  · exact absurd valid (Nat.not_lt.mpr expired)

theorem over_of_renew {next : UInt64} {phase : Phase} {deadline : Nat} (earlier : round < next)
    (granted : (p.renew now next phase deadline).2 = true) : (p.renew now next phase deadline).1.Over now round := by
  rcases p.renew_cases now next phase deadline with ⟨same, refused | ⟨g, held, rfl⟩⟩ | ⟨_, _, _, done⟩
  · rw [refused] at granted
    cases granted
  · rw [same]
    exact ⟨g, held, .inl earlier⟩
  · rw [done]
    exact ⟨_, rfl, .inl earlier⟩

theorem Shut.renew (shut : p.Shut round) (next : UInt64) (phase : Phase) (deadline : Nat) :
    (p.renew now next phase deadline).1.Shut round := by
  refine Past.renew shut next phase deadline ?_
  intro g closed opened
  rw [opened] at closed
  cases closed

theorem Shut.close (shut : p.Shut round) (closing : UInt64) : (p.close now closing).Shut round :=
  Past.close shut closing fun _ _ closed still => still closed

theorem Shut.over (shut : p.Shut round) (now : Nat) : p.Over now round := by
  obtain ⟨g, held, reached⟩ := shut
  exact ⟨g, held, reached.imp id fun ⟨same, closed⟩ => ⟨same, .inl closed⟩⟩

theorem shut_of_close {closing : UInt64} (reached : round ≤ closing) : (p.close now closing).Shut round := by
  rcases p.close_state now closing with ⟨_, closed⟩ | ⟨g, _, ahead, closed⟩
  · refine ⟨_, closed, ?_⟩
    by_cases same : round = closing
    · exact .inr ⟨same, rfl⟩
    · exact .inl (UInt64.lt_of_le_of_ne reached same)
  · refine ⟨_, closed, ?_⟩
    by_cases same : round = g.round
    · have equal : g.round = closing := UInt64.le_antisymm (same ▸ reached) ahead
      exact .inr ⟨same, by simp [equal]⟩
    · exact .inl (UInt64.lt_of_le_of_ne (UInt64.le_trans reached ahead) same)

theorem Reached.renew {rank : Nat} (reached : p.Reached round rank) (next : UInt64) (phase : Phase) (deadline : Nat) :
    (p.renew now next phase deadline).1.Reached round rank :=
  Past.renew reached next phase deadline fun _ there _ _ forward => there.trans forward

theorem Reached.close {rank : Nat} (reached : p.Reached round rank) (closing : UInt64) :
    (p.close now closing).Reached round rank :=
  Past.close reached closing fun _ _ there _ => there

end Permission

end TapeRs.Daemon
