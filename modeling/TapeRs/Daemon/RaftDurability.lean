import TapeRs.Daemon.StoreImages

namespace TapeRs.Daemon.Store

open Durable Node RaftStore Entry
open List hiding isEmpty_iff tail

variable {β : Type} {pb : Protobuf β} {voters members : List UInt64} {d : Durable} {t : Tables β} {s : RaftStore}

def HardState.initial : HardState := ⟨0, 0, 0⟩

def Durable.blank : Durable := ⟨none, [], .initial⟩

/-- The tables hold this state, under these members. -/
structure Stored (pb : Protobuf β) (members : List UInt64) (t : Tables β) (d : Durable) : Prop extends Filed pb t d where
  hardstate : t.hardstate = some (pb.hardState.write d.hard) ∨
    t.hardstate = none ∧ d.hard = .initial ∧ d.snapshot = none
  membership : t.membership = some (pb.confState.write (.of members))

/-- The process works on this state. -/
structure Running (members : List UInt64) (s : RaftStore) (d : Durable) : Prop where
  voters : s.voters = members
  latest : s.latest = d.snapshot
  index : s.snapshotIndex = d.boundary
  hard : s.mem.hardState = d.hard
  mirrors : Mirrors s.mem d

def RaftStore.view (s : RaftStore) : Durable where
  snapshot := s.latest
  log := s.mem.entries.filter fun e => s.snapshotIndex.toNat < e.number
  hard := s.mem.hardState

theorem Running.view (running : Running members s d) : s.view = d := by
  unfold RaftStore.view
  rw [running.latest, running.index, running.mirrors.log, running.hard]

theorem fixedVoters_of {conf : ConfState} (fixed : fixedVoters conf = .ok members) :
    fixedVoters (.of members) = .ok members := by
  unfold fixedVoters at fixed
  dsimp only at fixed
  split at fixed
  · cases fixed
  rename_i fine
  cases fixed
  unfold fixedVoters ConfState.of
  rw [List.Pairwise.insertionSort_eq (pairwise_insertionSort _ _)]
  simp only [Bool.not_eq_true, Bool.or_eq_false_iff] at fine
  rw [if_neg]
  simp [fine.1.1.1.1.1.1, fine.1.1.1.1.1.2, fine.1.1.1.1.2]

section Opening

theorem mapM_ok {ε α γ : Type} (write : α → γ) {parse : γ → Except ε α} (round : ∀ x, parse (write x) = .ok x) (xs : List α) :
    (xs.map write).mapM parse = .ok xs := by
  induction xs with
  | nil => rfl
  | cons x rest ih =>
    rw [map_cons, mapM_cons, round, ih]
    rfl

theorem openEntries_ok (filed : Filed pb t d) (whole : Whole members d) :
    openEntries pb t d.boundary = .ok d.log := by
  obtain ⟨old, same, covered⟩ := filed.entries
  have selected : (t.entries.filter fun index _ => Word.signed d.boundary < index).entries = d.log.map (row pb) := by
    change t.entries.entries.filter _ = _
    rw [same, filter_append, filter_eq_nil_iff.mpr, nil_append, filter_eq_self.mpr]
    · intro r member
      obtain ⟨e, inside, rfl⟩ := mem_map.mp member
      have above := whole.consecutive.number_lt inside
      have low := signed_le d.boundary
      rw [row, Word.signed_of_fits (whole.fits e inside), decide_eq_true_eq]
      unfold number at above
      omega
    · intro r member
      have under := covered r member
      rw [decide_eq_true_eq]
      omega
  unfold openEntries
  rw [selected, map_map]
  refine mapM_ok (Prod.snd ∘ row pb) ?_ d.log
  intro e
  simp only [Function.comp, row, pb.entry.parse_write]

theorem toNat_last {base : UInt64} {entries : List Entry} (run : Consecutive number base.toNat entries) :
    (entries.getLast?.elim base index).toNat = base.toNat + entries.length := by
  cases found : entries.getLast? with
  | none =>
    rw [getLast?_eq_none_iff.mp found]
    rfl
  | some e => exact run.number_getLast found

theorem openHardstate_ok (stored : Stored pb members t d) (valid : Valid members d) (mem : MemStorage) {last : UInt64}
    (ends : last.toNat = d.tail) (initial : d.snapshot = none → mem.hardState = .initial) :
    openHardstate pb t mem d.boundary last = .ok { mem with hardState := d.hard } := by
  unfold openHardstate
  rcases stored.hardstate with written | ⟨absent, blank, none'⟩
  · rw [written]
    dsimp only
    rw [pb.hardState.parse_write]
    dsimp only
    have low : ¬d.hard.commit < d.boundary := UInt64.not_lt.mpr valid.covered
    have high : ¬last < d.hard.commit := by
      rw [UInt64.lt_iff_toNat_lt, ends]
      exact Nat.not_lt.mpr valid.within
    rw [if_neg (by simp [low, high])]
  · rw [absent, blank, ← initial none']

theorem blank_valid : Valid members .blank := ⟨⟨trivial, nofun, nofun⟩, UInt64.le_refl _, Nat.le_refl _⟩

theorem load_ok (stored : Stored pb members t d) (valid : Valid members d) :
    ∃ s, load pb t d.snapshot members = .ok s ∧ Running members s d := by
  have blank : Mirrors (.newWithConfState (.of members)) .blank :=
    ⟨rfl, ⟨0, Nat.le_refl _, Nat.le_refl _, trivial⟩, fun _ => rfl⟩
  have newer : Newer members .blank d.snapshot := by
    intro snap found
    obtain ⟨fixed, above⟩ := valid.members snap found
    exact ⟨UInt64.lt_iff_toNat_lt.mpr above, UInt64.le_iff_toNat_le.mpr (Nat.zero_le _), fixed⟩
  -- The log goes on from the snapshot, which comes first.
  have rebased : (Durable.blank.rebase d.snapshot).boundary = d.boundary := boundary_rebase d.snapshot
  have continues : (Durable.blank.rebase d.snapshot).Continues d.log := by
    intro first rest same
    have run := valid.consecutive
    rw [same] at run
    have next : first.number = d.boundary.toNat + 1 := run.1
    rw [tail, rebased]
    refine ⟨?_, by omega, ?_, valid.fits⟩
    · rw [UInt64.lt_iff_toNat_lt]
      exact Nat.lt_of_lt_of_eq (Nat.lt_succ_self _) next.symm
    · rw [next, same]
      exact run
  obtain ⟨first, applied, initial, mirrors⟩ := blank.rebase newer
  have empty : Whole members (Durable.blank.rebase d.snapshot) := Whole.rebase blank_valid.toWhole newer
  obtain ⟨mem, appended, kept, whole⟩ := mirrors.append empty continues
  have log : ((Durable.blank.rebase d.snapshot).append d.log).log = d.log := by
    cases d.log with
    | nil | cons => cases d.snapshot <;> rfl
  have reached := (boundary_append (d := Durable.blank.rebase d.snapshot) d.log).trans rebased
  have hard := openHardstate_ok stored valid mem (toNat_last valid.consecutive) fun none' => by
    rw [kept, initial none']
    rfl
  refine ⟨
    { mem := { mem with hardState := d.hard }
      latest := d.snapshot
      voters := members
      snapshotIndex := d.boundary
      loaded := d.snapshot
      sinceEntries := d.log.length
      sinceBytes := (d.log.map fun entry => entry.data.length).sum }, ?_, rfl, rfl, rfl, rfl, ?_, ?_, ?_⟩
  · have entries := openEntries_ok stored.toFiled valid.toWhole
    unfold Durable.boundary at entries hard
    unfold load
    rw [applied]
    simp only [orMemory, Except.mapError, bind, Except.bind]
    rw [entries]
    dsimp only
    rw [appended]
    dsimp only
    rw [hard]
    rfl
  · have same := whole.log
    rw [reached, log] at same
    exact same
  · rw [← reached]
    exact whole.base
  · rw [← reached]
    exact whole.empty

theorem openInitial_ok (stored : Stored pb members t d) (fixed : fixedVoters (.of members) = .ok members) :
    openInitial pb t = .ok (some members) := by
  unfold openInitial
  rw [stored.membership]
  dsimp only
  rw [pb.confState.parse_write]
  dsimp only
  rw [fixed]
  rfl

theorem openSnapshot_ok (stored : Stored pb members t d) : openSnapshot pb t = .ok d.snapshot := by
  unfold openSnapshot
  rw [stored.snapshot]
  cases d.snapshot with
  | none => rfl
  | some snap =>
    dsimp only [Option.map_some]
    rw [pb.snapshot.parse_write]

theorem openStore_ok (fixed : fixedVoters (.of voters) = .ok members) (stored : Stored pb members t d)
    (valid : Valid members d) :
    ∃ s, openStore pb t voters = (t, .ok s) ∧ Running members s d := by
  obtain ⟨s, loaded, running⟩ := load_ok stored valid
  refine ⟨s, ?_, running⟩
  have agreed : openVoters pb t d.snapshot (some members) members = .ok (t, members) := by
    unfold openVoters
    cases found : d.snapshot with
    | none => rfl
    | some snap =>
      dsimp only
      rw [(valid.members snap found).1]
      simp [bind, Except.bind]
  unfold openStore
  rw [fixed, openSnapshot_ok stored, openInitial_ok stored (fixedVoters_of fixed)]
  simp only [bind, Except.bind]
  rw [agreed]
  simp only [ne_eq, not_true_eq_false, if_false]
  rw [loaded]

theorem openStore_empty (pb : Protobuf β) (fixed : fixedVoters (.of voters) = .ok members) :
    ∃ s t, openStore pb .empty voters = (t, .ok s) ∧ Stored pb members t .blank ∧ Running members s .blank := by
  have stored : Stored pb members { Tables.empty with membership := some (pb.confState.write (.of members)) } .blank :=
    ⟨⟨rfl, [], rfl, nofun⟩, .inr ⟨rfl, rfl, rfl⟩, rfl⟩
  obtain ⟨s, loaded, running⟩ := load_ok stored blank_valid
  refine ⟨s, _, ?_, stored, running⟩
  unfold openStore
  rw [fixed]
  simp only [openSnapshot, openInitial, openVoters, Tables.empty, bind, Except.bind]
  simp only [Tables.empty] at loaded
  simp [SortedMap.empty] at loaded ⊢
  exact loaded

end Opening

section Checks

variable {snapshot : Option Snapshot} {entries : List Entry}

/-- What the checks of a ready make sure of. -/
structure Ready (members : List UInt64) (d : Durable) (snapshot : Option Snapshot) (entries : List Entry) (hs : HardState) :
    Prop where
  newer : Newer members d snapshot
  continues : (d.rebase snapshot).Continues entries
  uncommitted : ∀ first rest, entries = first :: rest → d.hard.commit < first.index
  term : d.hard.term ≤ hs.term
  commit : d.hard.commit ≤ hs.commit
  covered : (d.rebase snapshot).boundary ≤ hs.commit
  within : hs.commit.toNat ≤ ((d.rebase snapshot).append entries).tail
  vote : hs.term = d.hard.term → d.hard.vote ≠ 0 → hs.vote = d.hard.vote

theorem consecutive_of_zip {first : Entry} {rest : List Entry}
    (linked : ((first :: rest).zip rest).any (fun pair => Word.succ? pair.1.index ≠ some pair.2.index) = false) :
    Consecutive number first.number rest := by
  induction rest generalizing first with
  | nil => trivial
  | cons next rest ih =>
    rw [zip_cons_cons, any_cons, Bool.or_eq_false_iff, decide_eq_false_iff_not, ne_eq, not_not] at linked
    have here : next.number = first.number + 1 := Word.succ?_eq_some.mp linked.1
    refine ⟨here, ?_⟩
    rw [← here]
    exact ih linked.2

theorem le_of_saturatingSucc {n m : UInt64} (reached : m ≤ saturatingSucc n) : m.toNat ≤ n.toNat + 1 := by
  unfold saturatingSucc at reached
  rw [UInt64.le_iff_toNat_le] at reached
  cases next : Word.succ? n with
  | none =>
    rw [next] at reached
    exact Nat.le_succ_of_le reached
  | some after =>
    rw [next] at reached
    rw [← Word.succ?_eq_some.mp next]
    exact reached

section Passed

variable (running : Running members s d)
include running

theorem checkSnapshot_ok (passed : s.checkSnapshot snapshot = .ok ()) : Newer members d snapshot := by
  rintro snap rfl
  simp only [checkSnapshot] at passed
  split at passed
  · cases passed
  rename_i fine
  cases fixed : fixedVoters snap.metadata.confState with
  | error e =>
    rw [fixed] at passed
    cases passed
  | ok found =>
    rw [fixed] at passed
    simp only [bind, Except.bind] at passed
    split at passed
    · cases passed
    rename_i same
    simp only [Bool.or_eq_true, decide_eq_true_eq, not_or, UInt64.not_le, UInt64.not_lt, running.index,
      running.hard] at fine
    exact ⟨fine.1, fine.2, congrArg Except.ok ((not_not.mp same).trans running.voters)⟩

theorem toNat_before (snapshot : Option Snapshot) : (s.before snapshot).toNat = (d.rebase snapshot).tail := by
  cases snapshot with
  | none => exact running.mirrors.lastIndex
  | some snap => rfl

theorem boundary_eq (snapshot : Option Snapshot) : s.boundary snapshot = (d.rebase snapshot).boundary := by
  cases snapshot with
  | none => exact running.index
  | some snap => rfl

theorem checkEntries_ok (passed : s.checkEntries snapshot entries = .ok ()) :
    (d.rebase snapshot).Continues entries ∧ ∀ first rest, entries = first :: rest → d.hard.commit < first.index := by
  have both : ∀ first rest, entries = first :: rest → ((d.rebase snapshot).boundary < first.index ∧
      first.number ≤ (d.rebase snapshot).tail + 1 ∧ Consecutive number (first.number - 1) entries ∧
      ∀ e ∈ entries, Word.Fits e.index) ∧ d.hard.commit < first.index := by
    rintro first rest rfl
    simp only [checkEntries] at passed
    split at passed
    · cases passed
    rename_i fine
    simp only [Bool.or_eq_true, not_or, decide_eq_true_eq, UInt64.not_le, UInt64.not_lt, Bool.not_eq_true,
      running.hard] at fine
    obtain ⟨⟨⟨⟨above, uncommitted⟩, reached⟩, linked⟩, small⟩ := fine
    rw [boundary_eq running] at above
    have gapless := le_of_saturatingSucc reached
    rw [toNat_before running] at gapless
    have positive : first.number = first.number - 1 + 1 := by
      rw [UInt64.lt_iff_toNat_lt] at above
      unfold number
      omega
    refine ⟨⟨above, gapless, ⟨positive, ?_⟩, ?_⟩, uncommitted⟩
    · rw [← positive]
      exact consecutive_of_zip linked
    · intro e member
      have bound := any_eq_false.mp small e member
      rw [decide_eq_true_eq, UInt64.not_lt, UInt64.le_iff_toNat_le] at bound
      exact Nat.lt_of_le_of_lt bound (by decide)
  exact ⟨fun first rest same => (both first rest same).1, fun first rest same => (both first rest same).2⟩

theorem toNat_tail (valid : Valid members d) (newer : Newer members d snapshot)
    (continues : (d.rebase snapshot).Continues entries) :
    (entries.getLast?.elim (s.before snapshot) index).toNat = ((d.rebase snapshot).append entries).tail := by
  cases entries with
  | nil => exact toNat_before running snapshot
  | cons first rest =>
    obtain ⟨above, _, consecutive, _⟩ := continues first rest rfl
    obtain ⟨last, found⟩ := Option.isSome_iff_exists.mp (getLast?_isSome.mpr (cons_ne_nil first rest))
    rw [tail_append (valid.toWhole.rebase newer) continues, found]
    have number := consecutive.number_getLast found
    rw [length_cons] at number
    rw [UInt64.lt_iff_toNat_lt] at above
    change last.number = _
    unfold Entry.number at number ⊢
    omega

theorem check_ready (valid : Valid members d) {hardstate : Option HardState}
    (passed : s.check snapshot entries hardstate = .ok ()) :
    Ready members d snapshot entries (s.nextHardstate snapshot hardstate) := by
  unfold check at passed
  cases first : s.checkSnapshot snapshot with
  | error e =>
    rw [first] at passed
    cases passed
  | ok =>
    cases second : s.checkEntries snapshot entries with
    | error e =>
      rw [first, second] at passed
      cases passed
    | ok =>
      rw [first, second] at passed
      have newer := checkSnapshot_ok running first
      obtain ⟨continues, uncommitted⟩ := checkEntries_ok running second
      have ends := toNat_tail running valid newer continues
      simp only [bind, Except.bind, checkHardstate] at passed
      split at passed
      · cases passed
      rename_i fine
      simp only [Bool.or_eq_true, not_or, decide_eq_true_eq, UInt64.not_lt, running.hard, boundary_eq running,
        Bool.and_eq_true, ne_eq, not_and, not_not] at fine
      obtain ⟨⟨⟨⟨term, commit⟩, covered⟩, last⟩, vote⟩ := fine
      rw [UInt64.le_iff_toNat_le, ends] at last
      exact ⟨newer, continues, uncommitted, term, commit, covered, last, fun same voted => vote ⟨same, voted⟩⟩

end Passed

theorem Ready.valid {hs : HardState} (ready : Ready members d snapshot entries hs) (whole : Whole members d) :
    Valid members { (d.rebase snapshot).append entries with hard := hs } := by
  have next := (whole.rebase ready.newer).append ready.continues
  refine ⟨⟨next.consecutive, next.fits, next.members⟩, ?_, ready.within⟩
  change ((d.rebase snapshot).append entries).boundary ≤ hs.commit
  rw [boundary_append]
  exact ready.covered

theorem Ready.keeps {hs : HardState} (ready : Ready members d snapshot entries hs) :
    Keeps d { (d.rebase snapshot).append entries with hard := hs } := by
  have boundary : ({ (d.rebase snapshot).append entries with hard := hs } : Durable).boundary =
      (d.rebase snapshot).boundary := boundary_append entries
  refine ⟨ready.term, ready.commit, ready.vote, ?_, ?_⟩
  · rw [boundary]
    cases snapshot with
    | none => exact UInt64.le_refl _
    | some snap => exact UInt64.le_of_lt (ready.newer snap rfl).1
  · intro e member committed
    rw [boundary]
    cases snapshot with
    | some snap => exact .inr (UInt64.le_trans committed (ready.newer snap rfl).2.1)
    | none =>
      left
      cases entries with
      | nil => exact member
      | cons first rest =>
        have less := UInt64.lt_of_le_of_lt committed (ready.uncommitted first rest rfl)
        exact mem_append_left _ (mem_filter.mpr ⟨member, decide_eq_true (UInt64.lt_iff_toNat_lt.mp less)⟩)

end Checks

section Calls

theorem nextHardstate_eq (running : Running members s d) (snapshot : Option Snapshot) (hardstate : Option HardState) :
    s.nextHardstate snapshot hardstate = hardstate.getD (snapshot.elim d.hard fun snap => d.hard.raise snap.metadata) := by
  cases hardstate with
  | some hs => cases snapshot <;> rfl
  | none =>
    cases snapshot with
    | none => exact running.hard
    | some snap =>
      rw [nextHardstate, running.hard]
      rfl

theorem Stored.persist (stored : Stored pb members t d) (running : Running members s d) (whole : Whole members d)
    {snapshot : Option Snapshot} {entries : List Entry} {hardstate : Option HardState}
    (ready : Ready members d snapshot entries (s.nextHardstate snapshot hardstate)) :
    ∃ next, t.runAll (snapshotStatements pb snapshot ++ entryStatements pb entries ++
        hardstateStatements pb (hardstate.isSome || snapshot.isSome) (s.nextHardstate snapshot hardstate)) =
        some next ∧
      Stored pb members next
        { (d.rebase snapshot).append entries with hard := s.nextHardstate snapshot hardstate } := by
  obtain ⟨rows, rebased, filed⟩ := stored.toFiled.rebase snapshot
  obtain ⟨rows', appended, filed'⟩ := filed.append (whole.rebase ready.newer) ready.continues
  rw [runAll_append, runAll_append, rebased, Option.bind_some, appended, Option.bind_some]
  cases write : hardstate.isSome || snapshot.isSome with
  | true => exact ⟨_, rfl, ⟨filed'.snapshot, filed'.entries⟩, .inl rfl, stored.membership⟩
  | false =>
    obtain ⟨rfl, rfl⟩ : hardstate = none ∧ snapshot = none := by
      simpa [Option.isSome_eq_false_iff, Option.isNone_iff_eq_none] using write
    refine ⟨_, rfl, ⟨filed'.snapshot, filed'.entries⟩, ?_, stored.membership⟩
    have same : (d.append entries).snapshot = d.snapshot := by cases entries <;> rfl
    change t.hardstate = some (pb.hardState.write s.mem.hardState) ∨
      t.hardstate = none ∧ s.mem.hardState = .initial ∧ (d.append entries).snapshot = none
    rw [running.hard, same]
    exact stored.hardstate

theorem Running.persist (running : Running members s d) (whole : Whole members d) {snapshot : Option Snapshot}
    {entries : List Entry} {hardstate : Option HardState}
    (ready : Ready members d snapshot entries (s.nextHardstate snapshot hardstate)) :
    ∃ next, s.remember snapshot entries (hardstate.isSome || snapshot.isSome) (s.nextHardstate snapshot hardstate) =
        .ok next ∧
      Running members next { (d.rebase snapshot).append entries with hard := s.nextHardstate snapshot hardstate } := by
  obtain ⟨mem, applied, initial, mirrors⟩ := running.mirrors.rebase ready.newer
  obtain ⟨mem', appended, kept, mirrors'⟩ := mirrors.append (whole.rebase ready.newer) ready.continues
  have hard : (if hardstate.isSome || snapshot.isSome then { mem' with hardState := s.nextHardstate snapshot hardstate }
      else mem').hardState = s.nextHardstate snapshot hardstate := by
    split
    · rfl
    rename_i write
    obtain ⟨rfl, rfl⟩ : hardstate = none ∧ snapshot = none := by
      simpa [Option.isSome_eq_false_iff, Option.isNone_iff_eq_none] using write
    exact kept.trans (initial rfl)
  have snapshots : ((d.rebase snapshot).append entries).snapshot = (d.rebase snapshot).snapshot := by cases entries <;> rfl
  unfold remember
  rw [applied]
  simp only [bind, Except.bind]
  rw [appended]
  refine ⟨_, rfl, ?_⟩
  have boundary : ({ (d.rebase snapshot).append entries with hard := s.nextHardstate snapshot hardstate } : Durable).boundary =
      (d.rebase snapshot).boundary := boundary_append entries
  cases snapshot with
  | none =>
    refine ⟨running.voters, running.latest.trans snapshots.symm, running.index.trans boundary.symm, hard, ?_⟩
    dsimp only
    split <;> exact ⟨mirrors'.log, mirrors'.base, mirrors'.empty⟩
  | some snap =>
    refine ⟨running.voters, snapshots.symm, boundary.symm, hard, ?_⟩
    dsimp only [finishSnapshot]
    split <;> exact ⟨mirrors'.log, mirrors'.base, mirrors'.empty⟩

/-- How a call may end: with the next state, with the old one after an error, or with one of them when it is cut off. -/
def Settles (pb : Protobuf β) (members : List UInt64) (d next : Durable) : Tables β × Outcome → Prop
  | (t, .returned (.ok ()) s) => Stored pb members t next ∧ Running members s next ∧ Valid members next ∧ Keeps d next
  | (t, .returned (.error _) s) => Stored pb members t d ∧ Running members s d
  | (t, .stopped) => Stored pb members t d ∨ Stored pb members t next ∧ Valid members next ∧ Keeps d next

def Built (members : List UInt64) (d : Durable) (snap : Snapshot) : Prop :=
  fixedVoters snap.metadata.confState = .ok members ∧ snap.metadata.index ≤ d.hard.commit

theorem compact_valid (valid : Valid members d) {snap : Snapshot} (built : Built members d snap)
    (above : d.boundary < snap.metadata.index) : Valid members (d.compact snap) ∧ Keeps d (d.compact snap) := by
  have compacted := compact_above above
  have reached := Nat.le_trans (UInt64.le_iff_toNat_le.mp built.2) valid.within
  have lower := UInt64.lt_iff_toNat_lt.mp above
  have room : snap.metadata.index.toNat - d.boundary.toNat ≤ d.log.length := by
    unfold tail at reached
    omega
  have run := valid.consecutive.drop room
  rw [← valid.consecutive.filter_gt] at run
  have start : d.boundary.toNat + (snap.metadata.index.toNat - d.boundary.toNat) = snap.metadata.index.toNat := by omega
  rw [start] at run
  rw [compacted]
  refine ⟨⟨⟨run, ?_, ?_⟩, built.2, ?_⟩, ?_⟩
  · intro e member
    exact valid.fits e (mem_of_mem_filter member)
  · rintro _ ⟨⟩
    exact ⟨built.1, by omega⟩
  · change d.hard.commit.toNat ≤ snap.metadata.index.toNat + (d.log.filter _).length
    rw [valid.consecutive.filter_gt, length_drop]
    have within := valid.within
    unfold tail at within
    omega
  · refine ⟨UInt64.le_refl _, UInt64.le_refl _, fun _ _ => rfl, UInt64.le_of_lt above, ?_⟩
    intro e member _
    by_cases later : snap.metadata.index.toNat < e.number
    · exact .inl (mem_filter.mpr ⟨member, decide_eq_true later⟩)
    · exact .inr (UInt64.le_iff_toNat_le.mpr (Nat.not_lt.mp later))

variable (stored : Stored pb members t d) (running : Running members s d)
include stored running

theorem settle_settles {next : Durable} (valid : Valid members next) (keeps : Keeps d next) {work : List (Statement β)}
    {memory : Except MemError RaftStore} (ran : ∃ t', t.runAll work = some t' ∧ Stored pb members t' next)
    (remembered : ∃ s', memory = .ok s' ∧ Running members s' next) (fate : Fate) :
    Settles pb members d next (settle t s work memory fate) := by
  obtain ⟨t', ran, filed⟩ := ran
  obtain ⟨s', rfl, working⟩ := remembered
  cases fate with
  | runs =>
    simp only [settle, ran]
    exact ⟨filed, working, valid, keeps⟩
  | fails step =>
    simp only [settle, ran]
    split
    · exact ⟨stored, running⟩
    · exact ⟨filed, working, valid, keeps⟩
  | stops step =>
    simp only [settle, ran]
    split
    · exact .inl stored
    · exact .inr ⟨filed, valid, keeps⟩

theorem answer_error (e : StoreError) (next : Durable) (fate : Fate) :
    Settles pb members d next (answer t s (.error e) fate) := by
  cases fate with
  | runs | fails => exact ⟨stored, running⟩
  | stops => exact .inl stored

variable (valid : Valid members d)
include valid

theorem answer_ok (fate : Fate) : Settles pb members d d (answer t s (.ok ()) fate) := by
  cases fate with
  | runs | fails => exact ⟨stored, running, valid, .refl d⟩
  | stops => exact .inl stored

theorem persistReady_settles (snapshot : Option Snapshot) (entries : List Entry) (hardstate : Option HardState)
    (fate : Fate) :
    Settles pb members d (d.persist snapshot entries hardstate)
      (s.persistReady pb t snapshot entries hardstate fate) := by
  unfold persistReady Durable.persist
  dsimp only
  generalize (snapshot.filter fun snap => !snap.isEmpty) = snapshot
  split
  · rename_i nothing
    simp only [Bool.and_eq_true, Option.isNone_iff_eq_none, List.isEmpty_iff] at nothing
    obtain ⟨⟨rfl, rfl⟩, rfl⟩ := nothing
    exact answer_ok stored running valid fate
  · split
    · rename_i e _
      exact answer_error stored running e _ fate
    rename_i passed
    have ready := check_ready running valid passed
    rw [← nextHardstate_eq running]
    exact settle_settles stored running (ready.valid valid.toWhole) ready.keeps
      (stored.persist running valid.toWhole ready) (running.persist valid.toWhole ready) fate

theorem compactTo_settles {snap : Snapshot} (built : Built members d snap) (fate : Fate) :
    Settles pb members d (d.compact snap) (s.compactTo pb t snap fate) := by
  unfold compactTo
  dsimp only
  rw [running.index]
  split
  · rename_i old
    rw [Durable.compact, if_pos old]
    exact answer_ok stored running valid fate
  rename_i new
  have above := UInt64.not_le.mp new
  have reached := Nat.le_trans (UInt64.le_iff_toNat_le.mp built.2) valid.within
  obtain ⟨next, keeps⟩ := compact_valid valid built above
  obtain ⟨rows, ran, filed⟩ := stored.toFiled.compact valid.toWhole above reached
  obtain ⟨mem, compacted, kept, mirrors⟩ := running.mirrors.compact valid.toWhole above reached
  have same : d.compact snap =
      { d with snapshot := some snap, log := d.log.filter fun e => snap.metadata.index.toNat < e.number } := if_neg new
  -- A snapshot covers something committed, so that the hard state has been written before.
  have written : t.hardstate = some (pb.hardState.write d.hard) := by
    rcases stored.hardstate with written | ⟨_, blank, _⟩
    · exact written
    have low := UInt64.le_iff_toNat_le.mp built.2
    rw [blank] at low
    rw [UInt64.lt_iff_toNat_lt] at above
    exact absurd (Nat.lt_of_lt_of_le above low) (Nat.not_lt_zero _)
  rw [compacted]
  refine settle_settles stored running next keeps ⟨_, ran, filed, ?_, stored.membership⟩ ⟨_, rfl, ?_⟩ fate
  · rw [same]
    exact .inl written
  · rw [same] at mirrors ⊢
    exact ⟨running.voters, rfl, rfl, kept.trans running.hard, mirrors⟩

theorem call_settles {call : Call} (built : ∀ snap, call = .compactTo snap → Built members d snap) (fate : Fate) :
    Settles pb members d (d.after call) (s.call pb t call fate) := by
  cases call with
  | persistReady | append | setHardstate | installSnapshot => exact persistReady_settles stored running valid ..
  | setCommit commit =>
    have settled := persistReady_settles stored running valid none [] (some { s.mem.hardState with commit }) fate
    rw [running.hard] at settled
    simp only [call, running.hard]
    exact settled
  | compactTo snap => exact compactTo_settles stored running valid (built snap rfl) fate

end Calls

section Runs

variable {n : Node β}

/-- Snapshots are compacted to only if they are of the members, and not above the commit that is persisted. -/
def Node.built (voters : List UInt64) (n : Node β) : Event → Prop
  | .call (.compactTo snap) _ => ∀ s ∈ n.store, fixedVoters snap.metadata.confState = fixedVoters (.of voters) ∧
      snap.metadata.index ≤ s.mem.hardState.commit
  | _ => True

instance Node.decidableBuilt (voters : List UInt64) (n : Node β) (event : Event) : Decidable (n.built voters event) :=
  match event with
  | .call (.compactTo _) _ => inferInstanceAs (Decidable (∀ s ∈ n.store, _ ∧ _))
  | .call (.persistReady ..) _ | .call (.append _) _ | .call (.setHardstate _) _ | .call (.setCommit _) _
  | .call (.installSnapshot _) _ | .start _ | .stop => .isTrue trivial

def reopened (pb : Protobuf β) (voters : List UInt64) (t : Tables β) : Except StoreError Durable :=
  (RaftStore.openStore pb t voters).2.map RaftStore.view

/-- A node keeps this state: in its tables and, while it runs, in memory. -/
structure Node.Holds (pb : Protobuf β) (members : List UInt64) (n : Node β) (d : Durable) : Prop where
  valid : Valid members d
  tables : n.tables = .empty ∧ n.store = none ∧ d = .blank ∨ Stored pb members n.tables d
  store : ∀ s ∈ n.store, Running members s d

abbrev Node.Reaches (pb : Protobuf β) (voters : List UInt64) : Node β → Node β → Prop :=
  Run.Reaches (Node.step pb voters) (Node.built voters)

def Shows (pb : Protobuf β) (voters : List UInt64) (d next : Durable) : Tables β × Outcome → Prop
  | (t, .returned (.ok ()) s) => reopened pb voters t = .ok next ∧ s.view = next
  | (t, .returned (.error _) s) => reopened pb voters t = .ok d ∧ s.view = d
  | (t, .stopped) => reopened pb voters t = .ok d ∨ reopened pb voters t = .ok next

theorem Node.Holds.stopped (holds : n.Holds pb members d) : (⟨n.tables, none⟩ : Node β).Holds pb members d := by
  refine ⟨holds.valid, ?_, nofun⟩
  rcases holds.tables with ⟨empty, _, blank⟩ | stored
  · exact .inl ⟨empty, rfl, blank⟩
  · exact .inr stored

theorem Node.fresh_holds : (fresh : Node β).Holds pb members .blank :=
  ⟨blank_valid, .inl ⟨rfl, rfl, rfl⟩, nofun⟩

section Voters

variable (fixed : fixedVoters (.of voters) = .ok members)
include fixed

theorem Stored.reopened (stored : Stored pb members t d) (valid : Valid members d) : reopened pb voters t = .ok d := by
  obtain ⟨s, opened, running⟩ := openStore_ok fixed stored valid
  rw [Store.reopened, opened]
  exact congrArg Except.ok running.view

theorem Node.Holds.reopened (holds : n.Holds pb members d) : reopened pb voters n.tables = .ok d := by
  rcases holds.tables with ⟨empty, _, rfl⟩ | stored
  · obtain ⟨s, t, opened, _, running⟩ := openStore_empty pb fixed
    rw [empty, Store.reopened, opened]
    exact congrArg Except.ok running.view
  · exact stored.reopened fixed holds.valid

theorem Node.Holds.start (holds : n.Holds pb members d) (fate : Fate) :
    (n.start pb voters fate).Holds pb members d := by
  obtain ⟨s, t, opened, stored, running⟩ : ∃ s t, openStore pb n.tables voters = (t, .ok s) ∧
      Stored pb members t d ∧ Running members s d := by
    rcases holds.tables with ⟨empty, _, rfl⟩ | stored
    · rw [empty]
      exact openStore_empty pb fixed
    · obtain ⟨s, opened, running⟩ := openStore_ok fixed stored holds.valid
      exact ⟨s, _, opened, stored, running⟩
  have still : (n.tables = .empty ∧ (none : Option RaftStore) = none ∧ d = .blank) ∨ Stored pb members n.tables d := by
    rcases holds.tables with ⟨empty, _, blank⟩ | stored
    · exact .inl ⟨empty, rfl, blank⟩
    · exact .inr stored
  unfold Node.start
  rw [opened]
  cases fate with
  | runs =>
    refine ⟨holds.valid, .inr stored, ?_⟩
    rintro _ ⟨⟩
    exact running
  | fails step | stops step =>
    refine ⟨holds.valid, ?_, nofun⟩
    dsimp only
    split
    · exact still
    · exact .inr stored

theorem Node.Holds.settles (holds : n.Holds pb members d) (there : n.store = some s) {call : Call} {fate : Fate}
    (built : n.built voters (.call call fate)) :
    Settles pb members d (d.after call) (s.call pb n.tables call fate) := by
  have running := holds.store s there
  rcases holds.tables with ⟨_, absent, _⟩ | stored
  · rw [there] at absent
    cases absent
  refine call_settles stored running holds.valid ?_ fate
  rintro snap rfl
  obtain ⟨conf, low⟩ := built s there
  rw [running.hard] at low
  exact ⟨conf.trans fixed, low⟩

theorem Node.Holds.step (holds : n.Holds pb members d) {event : Event} (built : n.built voters event) :
    ∃ next, (n.step pb voters event).Holds pb members next ∧ Keeps d next := by
  cases event with
  | stop =>
    refine ⟨d, ?_, .refl d⟩
    cases n.store <;> exact holds.stopped
  | start fate =>
    refine ⟨d, ?_, .refl d⟩
    cases there : n.store with
    | none =>
      simp only [Node.step, there]
      exact holds.start fixed fate
    | some s =>
      simp only [Node.step, there]
      exact holds
  | call call fate =>
    cases there : n.store with
    | none =>
      simp only [Node.step, there]
      exact ⟨d, holds, .refl d⟩
    | some s =>
      have settled := holds.settles fixed there built
      simp only [Node.step, there]
      generalize s.call pb n.tables call fate = ended at settled
      match ended with
      | (t, .returned (.ok ()) s) =>
        obtain ⟨stored, running, valid, keeps⟩ := settled
        refine ⟨_, ⟨valid, .inr stored, ?_⟩, keeps⟩
        rintro _ ⟨⟩
        exact running
      | (t, .returned (.error _) s) =>
        refine ⟨d, ⟨holds.valid, .inr settled.1, ?_⟩, .refl d⟩
        rintro _ ⟨⟩
        exact settled.2
      | (t, .stopped) =>
        rcases settled with stored | ⟨stored, valid, keeps⟩
        · exact ⟨d, ⟨holds.valid, .inr stored, nofun⟩, .refl d⟩
        · exact ⟨_, ⟨valid, .inr stored, nofun⟩, keeps⟩

theorem Node.Holds.run {later : Node β} (holds : n.Holds pb members d) (run : Node.Reaches pb voters n later) :
    ∃ next, later.Holds pb members next ∧ Keeps d next := by
  refine run.invariant (P := fun later => ∃ next, later.Holds pb members next ∧ Keeps d next) ?_ ⟨d, holds, .refl d⟩
  rintro middle event ⟨next, holds, keeps⟩ built
  obtain ⟨last, holds, further⟩ := holds.step fixed built
  exact ⟨last, holds, keeps.trans further⟩

theorem Settles.shows (valid : Valid members d) {next : Durable} {ended : Tables β × Outcome}
    (settled : Settles pb members d next ended) : Shows pb voters d next ended := by
  match ended with
  | (t, .returned (.ok ()) s) => exact ⟨settled.1.reopened fixed settled.2.2.1, settled.2.1.view⟩
  | (t, .returned (.error _) s) => exact ⟨settled.1.reopened fixed valid, settled.2.view⟩
  | (t, .stopped) =>
    rcases settled with stored | ⟨stored, next, _⟩
    · exact .inl (stored.reopened fixed valid)
    · exact .inr (stored.reopened fixed next)

end Voters

/-- Whatever happens to the node, opening its tables succeeds and gives the state of the last call that returned, or of
    the one that was cut off; nothing committed is ever lost. -/
theorem raft_state_durable (pb : Protobuf β) (voters members : List UInt64) (fixed : fixedVoters (.of voters) = .ok members)
    (n : Node β) (run : Node.Reaches pb voters .fresh n) :
    ∃ d, reopened pb voters n.tables = .ok d ∧ (∀ s, n.store = some s → s.view = d) ∧
      Consecutive Entry.number d.boundary.toNat d.log ∧
      (∀ s call fate, n.store = some s → n.built voters (.call call fate) →
        Shows pb voters d (d.after call) (s.call pb n.tables call fate)) ∧
      (∀ s index data snap, n.store = some s → s.buildSnapshot index data = some snap →
        index ≤ s.mem.hardState.commit → ∀ later fate, Node.Reaches pb voters n later →
          later.built voters (.call (.compactTo snap) fate)) ∧
      ∀ later, Node.Reaches pb voters n later → ∃ next, reopened pb voters later.tables = .ok next ∧ Keeps d next := by
  have start : (fresh : Node β).Holds pb members .blank := fresh_holds
  obtain ⟨d, holds, _⟩ := start.run fixed run
  refine ⟨d, holds.reopened fixed, fun s there => (holds.store s there).view, holds.valid.consecutive, ?_, ?_, ?_⟩
  · intro s call fate there built
    exact (holds.settles fixed there built).shows fixed holds.valid
  · intro s index data snap there built low later fate run s' there'
    obtain ⟨next, holds', keeps⟩ := holds.run fixed run
    obtain ⟨term, _, rfl⟩ := Option.map_eq_some_iff.mp built
    have running := holds.store s there
    rw [running.hard] at low
    rw [(holds'.store s' there').hard]
    dsimp only
    rw [running.voters, fixed]
    exact ⟨fixedVoters_of fixed, UInt64.le_trans low keeps.commit⟩
  · intro later run
    obtain ⟨next, holds', keeps⟩ := holds.run fixed run
    exact ⟨next, holds'.reopened fixed, keeps⟩

/-- Messages as they are. -/
inductive Blob where
  | entry (message : Entry)
  | hardState (message : HardState)
  | snapshot (message : Snapshot)
  | confState (message : ConfState)

def Protobuf.plain : Protobuf Blob where
  entry := ⟨.entry, fun | .entry message => some message | _ => none, fun _ => rfl⟩
  hardState := ⟨.hardState, fun | .hardState message => some message | _ => none, fun _ => rfl⟩
  snapshot := ⟨.snapshot, fun | .snapshot message => some message | _ => none, fun _ => rfl⟩
  confState := ⟨.confState, fun | .confState message => some message | _ => none, fun _ => rfl⟩

def numbered (index : UInt64) : Entry := ⟨.normal, 1, index, [], [], false⟩

/-- Three entries, two of them committed; the process stops after the commit of a compaction, and the next one runs into
    an error and is stopped. -/
def compacted : List Event :=
  [.start .runs, .call (.append [numbered 1, numbered 2, numbered 3]) .runs, .call (.setHardstate ⟨1, 2, 2⟩) .runs,
    .call (.compactTo ⟨[], .of [1, 2, 3], 2, 1⟩) (.stops 3), .start .runs, .call (.append [numbered 4]) (.fails 1), .stop]

theorem raft_state_durable_compacted :
    reopened .plain [3, 1, 2] (compacted.foldl (Node.step .plain [3, 1, 2]) .fresh).tables =
        .ok ⟨some ⟨[], .of [1, 2, 3], 2, 1⟩, [numbered 3], ⟨1, 2, 2⟩⟩ ∧
      Consecutive Entry.number 2 [numbered 3] := by
  have run : Run.Follows (step .plain [3, 1, 2]) (built [3, 1, 2]) .fresh compacted := by decide +kernel
  have shown : reopened .plain [3, 1, 2] (compacted.foldl (step .plain [3, 1, 2]) .fresh).tables =
      .ok ⟨some ⟨[], .of [1, 2, 3], 2, 1⟩, [numbered 3], ⟨1, 2, 2⟩⟩ := by decide +kernel
  obtain ⟨d, opened, _, consecutive, _⟩ :=
    raft_state_durable Protobuf.plain [3, 1, 2] [1, 2, 3] (by decide +kernel) _ run.reaches
  rw [shown] at opened
  cases opened
  exact ⟨shown, consecutive⟩

end Runs

end TapeRs.Daemon.Store
