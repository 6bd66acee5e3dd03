import TapeRs.Daemon.RaftStore
import TapeRs.Data.Consecutive
import TapeRs.Data.Run

namespace TapeRs.Daemon.Store

def Entry.number (e : Entry) : Nat := e.index.toNat

/-- What a store keeps: the snapshot, the log after it and the hard state. -/
structure Durable where
  snapshot : Option Snapshot
  log : List Entry
  hard : HardState
deriving DecidableEq, Repr

namespace Durable

def boundary (d : Durable) : UInt64 := d.snapshot.elim 0 fun snap => snap.metadata.index

def tail (d : Durable) : Nat := d.boundary.toNat + d.log.length

def rebase (d : Durable) : Option Snapshot → Durable
  | some snap => { d with snapshot := some snap, log := [] }
  | none => d

def append (d : Durable) : List Entry → Durable
  | [] => d
  | first :: rest => { d with log := d.log.filter (fun e => e.number < first.number) ++ first :: rest }

def compact (d : Durable) (snap : Snapshot) : Durable :=
  if snap.metadata.index ≤ d.boundary then d
  else { d with snapshot := some snap, log := d.log.filter fun e => snap.metadata.index.toNat < e.number }

theorem compact_above {d : Durable} {snap : Snapshot} (above : d.boundary < snap.metadata.index) : d.compact snap =
    { d with snapshot := some snap, log := d.log.filter fun e => snap.metadata.index.toNat < e.number } :=
  if_neg (UInt64.not_le.mpr above)

def persist (d : Durable) (snapshot : Option Snapshot) (entries : List Entry) (hardstate : Option HardState) : Durable :=
  let snapshot := snapshot.filter fun snap => !snap.isEmpty
  let hard := hardstate.getD (snapshot.elim d.hard fun snap => d.hard.raise snap.metadata)
  { (d.rebase snapshot).append entries with hard }

def after (d : Durable) : Call → Durable
  | .persistReady snapshot entries hardstate => d.persist snapshot entries hardstate
  | .append entries => d.persist none entries none
  | .setHardstate hs => d.persist none [] (some hs)
  | .setCommit commit => d.persist none [] (some { d.hard with commit })
  | .installSnapshot snap => d.persist (some snap) [] none
  | .compactTo snap => d.compact snap

/-- What never gets lost: terms, commits and votes, and entries that are committed, unless a snapshot covers them. -/
structure Keeps (d later : Durable) : Prop where
  term : d.hard.term ≤ later.hard.term
  commit : d.hard.commit ≤ later.hard.commit
  vote : later.hard.term = d.hard.term → d.hard.vote ≠ 0 → later.hard.vote = d.hard.vote
  boundary : d.boundary ≤ later.boundary
  entries : ∀ e ∈ d.log, e.index ≤ d.hard.commit → e ∈ later.log ∨ e.index ≤ later.boundary

theorem Keeps.refl (d : Durable) : Keeps d d :=
  ⟨UInt64.le_refl _, UInt64.le_refl _, fun _ _ => rfl, UInt64.le_refl _, fun _ member _ => .inl member⟩

theorem Keeps.trans {d next last : Durable} (first : Keeps d next) (second : Keeps next last) : Keeps d last where
  term := UInt64.le_trans first.term second.term
  commit := UInt64.le_trans first.commit second.commit
  vote := by
    intro same voted
    have equal : next.hard.term = d.hard.term :=
      UInt64.le_antisymm (same ▸ second.term) first.term
    have vote := first.vote equal voted
    rw [second.vote (same.trans equal.symm) (vote ▸ voted), vote]
  boundary := UInt64.le_trans first.boundary second.boundary
  entries := by
    intro e member committed
    rcases first.entries e member committed with kept | covered
    · exact second.entries e kept (UInt64.le_trans committed first.commit)
    · exact .inr (UInt64.le_trans covered second.boundary)

/-- The log follows its snapshot without a gap, and its indexes fit into the columns of the tables. -/
structure Whole (members : List UInt64) (d : Durable) : Prop where
  consecutive : Consecutive Entry.number d.boundary.toNat d.log
  fits : ∀ e ∈ d.log, Word.Fits e.index
  members : ∀ snap, d.snapshot = some snap →
    fixedVoters snap.metadata.confState = .ok members ∧ 0 < snap.metadata.index.toNat

structure Valid (members : List UInt64) (d : Durable) : Prop extends Whole members d where
  covered : d.boundary ≤ d.hard.commit
  within : d.hard.commit.toNat ≤ d.tail

def Newer (members : List UInt64) (d : Durable) (snapshot : Option Snapshot) : Prop :=
  ∀ snap, snapshot = some snap → d.boundary < snap.metadata.index ∧ d.hard.commit ≤ snap.metadata.index ∧
    fixedVoters snap.metadata.confState = .ok members

def Continues (d : Durable) (entries : List Entry) : Prop :=
  ∀ first rest, entries = first :: rest → d.boundary < first.index ∧ first.number ≤ d.tail + 1 ∧
    Consecutive Entry.number (first.number - 1) entries ∧ ∀ e ∈ entries, Word.Fits e.index

end Durable

open Durable

section Shape

variable {members : List UInt64} {d : Durable}

theorem boundary_rebase (snapshot : Option Snapshot) :
    (d.rebase snapshot).boundary = snapshot.elim d.boundary fun snap => snap.metadata.index := by
  cases snapshot <;> rfl

theorem boundary_append (entries : List Entry) : (d.append entries).boundary = d.boundary := by
  cases entries <;> rfl

theorem Durable.Whole.rebase (whole : Whole members d) {snapshot : Option Snapshot} (newer : Newer members d snapshot) :
    Whole members (d.rebase snapshot) := by
  cases snapshot with
  | none => exact whole
  | some snap =>
    obtain ⟨above, _, fixed⟩ := newer snap rfl
    refine ⟨trivial, nofun, ?_⟩
    rintro _ ⟨⟩
    rw [UInt64.lt_iff_toNat_lt] at above
    exact ⟨fixed, by omega⟩

theorem tail_append (whole : Whole members d) {first : Entry} {rest : List Entry}
    (continues : d.Continues (first :: rest)) : (d.append (first :: rest)).tail = first.number + rest.length := by
  obtain ⟨above, gapless, _, _⟩ := continues first rest rfl
  rw [UInt64.lt_iff_toNat_lt] at above
  change d.boundary.toNat + (d.log.filter _ ++ first :: rest).length = _
  rw [whole.consecutive.filter_lt, List.length_append, List.length_take, List.length_cons]
  unfold tail at gapless
  unfold Entry.number at gapless ⊢
  omega

theorem Durable.Whole.append (whole : Whole members d) {entries : List Entry} (continues : d.Continues entries) :
    Whole members (d.append entries) := by
  cases entries with
  | nil => exact whole
  | cons first rest =>
    obtain ⟨above, gapless, consecutive, fits⟩ := continues first rest rfl
    rw [UInt64.lt_iff_toNat_lt] at above
    refine ⟨?_, ?_, whole.members⟩
    · change Consecutive Entry.number d.boundary.toNat (d.log.filter _ ++ first :: rest)
      rw [whole.consecutive.filter_lt, Consecutive.append_iff]
      refine ⟨whole.consecutive.take _, ?_⟩
      have length : d.boundary.toNat + (d.log.take (first.number - 1 - d.boundary.toNat)).length = first.number - 1 := by
        rw [List.length_take]
        unfold tail at gapless
        unfold Entry.number at gapless ⊢
        omega
      rw [length]
      exact consecutive
    · intro e member
      rcases List.mem_append.mp member with old | new
      · exact whole.fits e (List.mem_of_mem_filter old)
      · exact fits e new

theorem Durable.Whole.lt_of_log (whole : Whole members d) {e : Entry} (member : e ∈ d.log) : d.tail < 2 ^ 63 := by
  have nonempty : d.log ≠ [] := List.ne_nil_of_mem member
  obtain ⟨last, found⟩ := List.getLast?_isSome.mpr nonempty |> Option.isSome_iff_exists.mp
  have number := whole.consecutive.number_getLast found
  have fits := whole.fits last (List.mem_of_getLast? found)
  unfold Word.Fits at fits
  unfold tail
  unfold Entry.number at number
  omega

end Shape

end TapeRs.Daemon.Store
