import TapeRs.Daemon.ManagementShape

namespace TapeRs.Daemon

open Json Value ControlState
open List hiding asString

variable {Bytes : Type}

namespace Snapshot

section Tables

variable {κ α : Type} [LinearOrder κ]

theorem fileRows_entries (once : Bool) {read : Value → Option (κ × α)} {write : κ × α → Value} {m : SortedMap κ α}
    {rest : List (κ × α)} (back : ∀ entry ∈ rest, read (write entry) = some entry)
    (sorted : ((m.entries ++ rest).map Prod.fst).Pairwise (· < ·)) :
    fileRows once read m (rest.map write) = some ⟨m.entries ++ rest, sorted⟩ := by
  induction rest generalizing m with
  | nil =>
    rw [map_nil, fileRows]
    congr 1
    exact SortedMap.ext (append_nil _).symm
  | cons entry rest ih =>
    have last : ∀ old ∈ m.entries, old.1 < entry.1 := by
      intro old member
      rw [map_append, map_cons] at sorted
      exact (pairwise_append.mp sorted).2.2 old.1 (mem_map_of_mem member) entry.1 mem_cons_self
    have inserted := SortedMap.entries_insert_of_lt last entry.2
    rw [map_cons, fileRows, back entry mem_cons_self]
    dsimp only
    rw [SortedMap.contains_of_lt last, Bool.and_false, if_neg Bool.false_ne_true]
    have sorted' : (((m.insert entry.1 entry.2).entries ++ rest).map Prod.fst).Pairwise (· < ·) := by
      rw [inserted, append_assoc]
      exact sorted
    rw [ih (fun other member => back other (mem_cons_of_mem _ member)) sorted']
    congr 1
    refine SortedMap.ext ?_
    show (m.insert entry.1 entry.2).entries ++ rest = m.entries ++ entry :: rest
    rw [inserted, append_assoc]
    rfl

theorem readTable_table (once : Bool) {read : Value → Option (κ × α)} {write : κ → α → Value} {m : SortedMap κ α}
    (back : ∀ entry ∈ m.entries, read (write entry.1 entry.2) = some entry) :
    readTable once read (table write m) = some m :=
  fileRows_entries once back (m := .empty) m.sorted

end Tables

theorem readIndex_optional (index : Option UInt64) : readIndex (some (optional .number index)) = some index := by
  cases index <;> rfl

theorem readActivity_row (activity : Option DeviceActivityState) :
    readActivity (optional activityRow activity) = some activity := by
  cases activity with
  | none => rfl
  | some a =>
    have fields : ∃ fields, (activityRow a).asObject = some fields ∧ fields.length = 5 :=
      ⟨_, rfl, length_ofFields (by simp)⟩
    obtain ⟨fields, object, five⟩ := fields
    have read : ∀ v : Value, v.asObject = some fields → readActivity v = (do
        let node ← (v.get "node").bind asNumber
        let inst ← (v.get "instance").bind asNumber
        let round ← (v.get "round").bind asNumber
        let sequence ← (v.get "sequence").bind asNumber
        let busy ← (v.get "busy").bind asBool
        return some { node, inst, round, sequence, busy }) := by
      intro v shape
      cases v with
      | object => simp [readActivity, shape, five]
      | _ => cases shape
    rw [optional, read _ object]
    simp [activityRow, get_ofFields, Assoc.find_cons, asNumber, asBool]

theorem readExecutor_row (executor : Option Executor) : readExecutor (some (optional executorRow executor)) = some executor := by
  cases executor <;> rfl

theorem readPool_row (entry : String × Pool) : readPool (poolRow entry.1 entry.2) = some entry := rfl

theorem readTape_row (entry : String × String) : readTape (tapeRow entry.1 entry.2) = some entry := rfl

theorem readSummary_row (entry : String × TapeSummary) : readSummary (summaryRow entry.1 entry.2) = some entry := rfl

theorem readState_row (entry : String × TapeStatus) : readState (stateRow entry.1 entry.2) = some entry := by
  obtain ⟨barcode, status⟩ := entry
  cases status <;> rfl

theorem readHistory_rows (history : List (UInt64 × UInt64)) :
    history.mapM (readHistory ∘ historyRow) = some history := by
  induction history with
  | nil => rfl
  | cons entry rest ih =>
    rw [mapM_cons, ih]
    rfl

/-- What the record of an address has to satisfy. -/
structure VipFits (applied : UInt64) (address : Nat) (record : VipRecord) : Prop where
  address : address < 2 ^ 32
  used : record.token ≠ 0
  reached : record.token ≤ applied
  owner : ∀ owner, record.holder = some owner → owner.node ≠ 0 ∧ owner.round ≠ 0 ∧ owner.round ≤ record.token

structure CandidateFits (node : Nat) (candidate : Candidate) : Prop where
  node : node < 2 ^ 64 ∧ node ≠ 0
  inst : candidate.inst ≠ 0
  drives : candidate.drives < 2 ^ 64

theorem readCandidate_row {entry : Nat × Candidate} (fits : CandidateFits entry.1 entry.2) :
    readCandidate (candidateRow entry.1 entry.2) = some entry := by
  obtain ⟨node, candidate⟩ := entry
  show some ((UInt64.ofNat node).toNat, { candidate with drives := (UInt64.ofNat candidate.drives).toNat }) = _
  rw [UInt64.toNat_ofNat_of_lt' fits.node.1, UInt64.toNat_ofNat_of_lt' fits.drives]

theorem readVip_row (wire : Wire Bytes) {applied : UInt64} {entry : Nat × VipRecord}
    (fits : VipFits applied entry.1 entry.2) : readVip wire applied (vipRow wire entry.1 entry.2) = some entry := by
  obtain ⟨address, token, holder⟩ := entry
  have reached : ¬(token = 0 ∨ applied < token) := by
    rintro (unused | late)
    · exact fits.used unused
    · exact absurd late (UInt64.not_lt.mpr fits.reached)
  have owner : readHolder token (optional holderRow holder) = some holder := by
    cases holder with
    | none => rfl
    | some owner =>
      obtain ⟨node, round, early⟩ := fits.owner owner rfl
      have fine : ¬(owner.node = 0 ∨ owner.round = 0 ∨ token < owner.round) := by
        rintro (none' | none' | late)
        · exact node none'
        · exact round none'
        · exact absurd late (UInt64.not_lt.mpr early)
      show (if owner.node = 0 ∨ owner.round = 0 ∨ token < owner.round then none else some (some owner)) = _
      rw [if_neg fine]
  have address' : (UInt32.ofNat address).toNat = address := UInt32.toNat_ofNat_of_lt' fits.address
  simp [readVip, vipRow, string, number, item, asArray, asString, asNumber, wire.read_show, reached, owner,
    address']

variable {Bytes : Type} (wire : Wire Bytes)

theorem readControl_fields {s : SnapshotContent}
    (vips : ∀ entry ∈ s.control.vips.entries, VipFits s.control.appliedIndex entry.1 entry.2)
    (candidates : ∀ entry ∈ s.control.candidates.entries, CandidateFits entry.1 entry.2) :
    readControl wire (.ofFields (fields wire s)) = some s.control := by
  have vipsBack := readTable_table true (fun entry member => readVip_row wire (vips entry member))
  have candidatesBack := readTable_table false (fun entry member => readCandidate_row (candidates entry member))
  unfold readControl
  simp [field, get_ofFields, fields, Assoc.find_cons, asNumber, asBool, asArray, readActivity_row,
    readIndex_optional, readExecutor_row, readLater, vipsBack, candidatesBack, readHistory_rows,
    readTable_table false (fun entry _ => readPool_row entry), readTable_table false (fun entry _ => readTape_row entry),
    readTable_table false (fun entry _ => readState_row entry), readTable_table false (fun entry _ => readSummary_row entry)]

theorem decode_encode {s : SnapshotContent}
    (vips : ∀ entry ∈ s.control.vips.entries, VipFits s.control.appliedIndex entry.1 entry.2)
    (candidates : ∀ entry ∈ s.control.candidates.entries, CandidateFits entry.1 entry.2)
    (catalog : catalogFits s.control.appliedIndex s.control.catalogQuiesceIndex s.control.catalogFrozenIndex)
    (activity : activityFits s.control) :
    decode wire (encode wire s) = if Management.validSnapshot s.control.management then some s else none := by
  have source : ((ofFields (fields wire s)).get "source").bind asNumber = some s.source := by
    simp [get_ofFields, fields, Assoc.find_cons, asNumber]
  have directory : ((ofFields (fields wire s)).get "directory_index").bind asNumber = some s.directoryIndex := by
    simp [get_ofFields, fields, Assoc.find_cons, asNumber]
  simp only [decode, encode, wire.parse_print, Option.bind_eq_bind, Option.bind_some, readControl_fields wire vips candidates, catalog,
    activity, Bool.not_true, Bool.false_or, source, directory]
  cases Management.validSnapshot s.control.management <;> rfl

end Snapshot

namespace Core

variable {index : UInt64} {core after : Core} {cmd : Command} {outcome : Applied}

def Backed (core : Core) : Prop := ∀ a, core.deviceActivity = some a → a.sequence ≠ 0 ∧ core.executorReady ∧
  core.executorInstance = a.inst ∧ ∃ e, core.executor = some e ∧ e.fenced ∧ e.node = a.node ∧ e.round = a.round

theorem Shift.backed (shift : Shift index core cmd after outcome) (backed : core.Backed) : after.Backed := by
  induction shift with
  | same => exact backed
  | start | gone => exact nofun
  | fence current =>
    intro a recorded
    obtain ⟨counted, ready, owned, e, there, fenced, ofNode, ofRound⟩ := backed a recorded
    rw [current] at there
    cases there
    exact ⟨counted, ready, owned, _, rfl, rfl, ofNode, ofRound⟩
  | ready =>
    intro a recorded
    obtain ⟨counted, _, rest⟩ := backed a recorded
    exact ⟨counted, rfl, rest⟩
  | @activity core e inst sequence number busy current fenced ready owned _ follows =>
    rintro a ⟨⟩
    refine ⟨?_, ready, owned, e, current, fenced, rfl, rfl⟩
    rintro rfl
    split at follows
    · cases follows
    · have next := Word.succ?_eq_some.mp follows
      simp at next
  | report _ _ _ _ _ _ ih => exact ih backed

theorem Shift.activity_from (shift : Shift index core cmd after outcome) {a : DeviceActivityState}
    (recorded : after.deviceActivity = some a) : core.deviceActivity = some a ∨
      (∃ sequence, cmd = .executorReport a.node a.inst a.round sequence (.deviceActivity a.sequence a.busy)) ∧
        outcome = .reported .nothing := by
  induction shift with
  | same | fence | ready => exact .inl recorded
  | start | gone => cases recorded
  | activity =>
    cases recorded
    exact .inr ⟨⟨_, rfl⟩, rfl⟩
  | report _ _ _ _ plain _ ih =>
    rcases ih recorded with kept | ⟨_, rfl⟩
    · exact .inl kept
    · exact False.elim plain

theorem Shift.round_from (shift : Shift index core cmd after outcome) {e : Executor} (current : after.executor = some e) :
    e.round = index ∨ ∃ old, core.executor = some old ∧ old.round = e.round := by
  induction shift with
  | same | ready | activity => exact .inr ⟨e, current, rfl⟩
  | start =>
    cases current
    exact .inl rfl
  | fence there =>
    cases current
    exact .inr ⟨_, there, rfl⟩
  | gone => cases current
  | report _ _ _ _ _ _ ih => exact ih current

end Core

namespace ControlState

theorem guarded_ledger {c : ControlState} {cmd : Command} {run : ControlState × Applied} (same : run.1.ledger = c.ledger) :
    (c.guarded cmd run).1.ledger = c.ledger := by
  unfold guarded
  split
  · rfl
  · exact same

theorem interrupt_ledger (c : ControlState) : (Management.interrupt c).ledger = c.ledger := by
  obtain ⟨m, only⟩ := Management.interrupt_only c
  rw [only]
  rfl

theorem takeOver_ledger (c : ControlState) (index node term : UInt64) : (c.takeOver index node term).1.ledger = c.ledger :=
  c.interrupt_ledger

theorem assign_ledger (c : ControlState) (index node inst term : UInt64) (expectedRound : Option UInt64) (group : String) :
    (c.assign index node inst term expectedRound group).1.ledger = c.ledger := by
  unfold assign
  split
  · rfl
  · exact guarded_ledger (c.takeOver_ledger index node term)

theorem apply_ledger (c : ControlState) (index : UInt64) (cmd : Command) : (c.apply index cmd).1.ledger = (index, c.candidates) ∨
    ∃ node inst sequence group drives eligible, cmd = .candidate node inst sequence group drives eligible ∧ node ≠ 0 ∧ inst ≠ 0 ∧
      (c.apply index cmd).1.ledger = (index, c.candidates.insert node.toNat
        { inst, sequence, group, drives, eligible := eligible && 0 < drives }) := by
  induction cmd generalizing c with
  | candidate node inst sequence group drives eligible =>
    simp only [apply, guarded, recordCandidate]
    split
    · exact .inl rfl
    split
    · exact .inl rfl
    · rename_i known
      simp only [not_or] at known
      exact .inr ⟨node, inst, sequence, group, drives, eligible, rfl, known.1, known.2.1, rfl⟩
  | executorReport node inst round sequence command ih =>
    simp only [apply, guarded]
    split
    · exact .inl rfl
    split
    · exact .inl rfl
    split
    · rename_i accepted
      split
      · exact .inl rfl
      rcases ih { c.advanced index with executorReportSequence := sequence } with same | ⟨_, _, _, _, _, _, rfl, _⟩
      · exact .inl same
      · obtain ⟨_, _, _, _, _, _, _, allowed⟩ := accepts_iff.mp accepted
        cases allowed
    · exact .inl rfl
  | executorReady node round =>
    refine .inl (guarded_ledger ?_)
    simp only [announceReady]
    split <;> rfl
  | rebalanceExecutor node inst term expectedRound expectedInstance idleSequence group =>
    refine .inl (guarded_ledger ?_)
    simp only [rebalance]
    split
    · exact guarded_ledger (assign_ledger ..)
    · rfl
  | assignExecutor node inst term expectedRound group => exact .inl (guarded_ledger (assign_ledger ..))
  | takeover node term => exact .inl (guarded_ledger (takeOver_ledger ..))
  | fenced node round =>
    refine .inl (guarded_ledger ?_)
    simp only [confirmFence]
    split
    · split <;> rfl
    · rfl
  | abandoned node round reason =>
    refine .inl (guarded_ledger ?_)
    simp only [abandon]
    split
    · exact (c.advanced index).interrupt_ledger
    · rfl
  | _ => exact .inl (Steady.ledger (c := c.advanced index) (c.apply_steady index rfl))

theorem apply_reporter {c : ControlState} {index node inst round sequence : UInt64} {command : Command} {inner : Applied}
    (taken : (c.apply index (.executorReport node inst round sequence command)).2 = .reported inner) :
    ∃ candidate, c.candidates.get node.toNat = some candidate ∧ candidate.inst = inst := by
  simp only [apply, guarded] at taken
  split at taken
  · cases taken
  split at taken
  · cases taken
  split at taken
  · rename_i accepted
    obtain ⟨_, _, _, _, _, _, known, _⟩ := accepts_iff.mp accepted
    cases there : c.candidates.get node.toNat with
    | none =>
      have none' : (c.advanced index).candidates.get node.toNat = none := there
      rw [none'] at known
      cases known
    | some candidate =>
      have some' : (c.advanced index).candidates.get node.toNat = some candidate := there
      rw [some'] at known
      exact ⟨candidate, rfl, by simpa using known⟩
  · cases taken

end ControlState

open Snapshot Management

/-- What holds of every state behind a log, as far as snapshots are concerned. -/
structure Restorable (c : ControlState) : Prop where
  quiesced : ∀ q, c.catalogQuiesceIndex = some q → q ≠ 0 ∧ q ≤ c.appliedIndex
  frozen : ∀ f, c.catalogFrozenIndex = some f → f ≠ 0 ∧ f ≤ c.appliedIndex ∧ ∃ q, c.catalogQuiesceIndex = some q ∧ q ≤ f
  vips : ∀ address record, c.vips.get address = some record → VipFits c.appliedIndex address record
  candidates : ∀ node candidate, c.candidates.get node = some candidate → CandidateFits node candidate
  executor : ∀ e, c.executor = some e → e.round ≠ 0 ∧ e.round ≤ c.appliedIndex
  backed : c.core.Backed
  reporter : ∀ a, c.deviceActivity = some a → a.node ≠ 0 ∧ a.inst ≠ 0
  management : Orderly c.management

theorem Snapshot.VipFits.later {applied later : UInt64} {address : Nat} {record : VipRecord} (fits : VipFits applied address record)
    (grows : applied ≤ later) : VipFits later address record :=
  { fits with reached := UInt64.le_trans fits.reached grows }

def Command.sized : Command → Bool
  | .candidate _ _ _ _ drives _ => drives < 2 ^ 64
  | _ => true

namespace Restorable

variable {c : ControlState} {index : UInt64}

theorem start : Restorable {} := ⟨nofun, nofun, nofun, nofun, nofun, nofun, nofun, .inl rfl⟩

theorem catalogFits (restorable : Restorable c) :
    Snapshot.catalogFits c.appliedIndex c.catalogQuiesceIndex c.catalogFrozenIndex := by
  simp only [Snapshot.catalogFits, Bool.and_eq_true, Option.all_eq_true, Option.any_eq_true, decide_eq_true_eq]
  refine ⟨restorable.quiesced, fun f there => ?_⟩
  obtain ⟨counted, reached, quiesced⟩ := restorable.frozen f there
  exact ⟨⟨counted, reached⟩, quiesced⟩

theorem activityFits (restorable : Restorable c) : Snapshot.activityFits c := by
  simp only [Snapshot.activityFits, Option.all_eq_true, Bool.and_eq_true, Option.any_eq_true, decide_eq_true_eq]
  intro a recorded
  obtain ⟨node, inst⟩ := restorable.reporter a recorded
  obtain ⟨sequence, ready, owned, e, current, fenced, ofNode, ofRound⟩ := restorable.backed a recorded
  have round : a.round ≠ 0 := ofRound ▸ (restorable.executor e current).1
  exact ⟨⟨⟨⟨⟨⟨node, inst⟩, round⟩, sequence⟩, owned⟩, ready⟩, e, current, ⟨fenced, ofNode⟩, ofRound⟩

theorem catalog_step (restorable : Restorable c) (later : c.appliedIndex < index) {change : Command × Applied}
    {after : Records} (has : c.Has index change after) :
    (∀ q, after.catalogQuiesceIndex = some q → q ≠ 0 ∧ q ≤ index) ∧
      ∀ f, after.catalogFrozenIndex = some f → f ≠ 0 ∧ f ≤ index ∧ ∃ q, after.catalogQuiesceIndex = some q ∧ q ≤ f := by
  obtain ⟨sequence, effect⟩ := has
  have kept : (∀ q, c.catalogQuiesceIndex = some q → q ≠ 0 ∧ q ≤ index) ∧
      ∀ f, c.catalogFrozenIndex = some f → f ≠ 0 ∧ f ≤ index ∧ ∃ q, c.catalogQuiesceIndex = some q ∧ q ≤ f := by
    refine ⟨fun q there => ?_, fun f there => ?_⟩
    · obtain ⟨counted, reached⟩ := restorable.quiesced q there
      exact ⟨counted, UInt64.le_trans reached (UInt64.le_of_lt later)⟩
    · obtain ⟨counted, reached, quiesced⟩ := restorable.frozen f there
      exact ⟨counted, UInt64.le_trans reached (UInt64.le_of_lt later), quiesced⟩
  have counted : index ≠ 0 := fun zero => absurd later (zero ▸ UInt64.not_lt.mpr (UInt64.le_iff_toNat_le.mpr (Nat.zero_le _)))
  have same := effect.kept
  cases effect with
  | quiesce thawed =>
    unfold quiesceCatalog
    split
    · exact kept
    refine ⟨fun q there => ?_, fun f there => ?_⟩
    · cases before : c.catalogQuiesceIndex with
      | none =>
        have same : (c.found index sequence).catalogQuiesceIndex = none := before
        cases there
        rw [same]
        exact ⟨counted, UInt64.le_refl _⟩
      | some old =>
        have same : (c.found index sequence).catalogQuiesceIndex = some old := before
        cases there
        rw [same]
        exact kept.1 old before
    · cases (thawed.symm.trans there)
  | resume quiesceIndex thawed =>
    unfold resumeCatalog
    split
    · exact kept
    · exact ⟨nofun, fun f there => nomatch thawed.symm.trans there⟩
  | freeze quiesceIndex =>
    unfold freezeCatalog
    split
    · exact kept
    rename_i quiesced
    simp only [not_or, not_not] at quiesced
    split
    · exact kept
    split
    · exact kept
    · refine ⟨kept.1, fun f there => ?_⟩
      cases there
      exact ⟨counted, UInt64.le_refl _, quiesceIndex, quiesced.2, (kept.1 quiesceIndex quiesced.2).2⟩
  | same => exact kept
  | relieve =>
    obtain ⟨m, only⟩ := interrupt_only (c.found index sequence)
    rw [only]
    exact kept
  | acquire | release | manage | observe | report | create | assign | unassign | state | reclaim | reclaimed | commit =>
    rw [same.quiesced rfl, same.frozen rfl]
    exact kept

theorem vips_step (restorable : Restorable c) (later : c.appliedIndex < index) {change : Command × Applied}
    {after : Records} (has : c.Has index change after) {address : Nat} {record : VipRecord}
    (there : after.vips.get address = some record) : VipFits index address record := by
  obtain ⟨sequence, effect⟩ := has
  have kept : ∀ record, c.vips.get address = some record → VipFits index address record :=
    fun record old => (restorable.vips address record old).later (UInt64.le_of_lt later)
  have counted : index ≠ 0 := fun zero => absurd later (zero ▸ UInt64.not_lt.mpr (UInt64.le_iff_toNat_le.mpr (Nat.zero_le _)))
  by_cases still : change.1.movesVips = false
  · rw [effect.kept.vips still] at there
    exact kept record there
  cases effect with
  | acquire claimed node round token =>
    simp only [acquireVip] at there
    split at there
    · rename_i granted
      obtain ⟨_, _, _, node0, runs⟩ := granted
      rcases SortedMap.get_insert_some there with ⟨rfl, rfl⟩ | ⟨_, old⟩
      · refine ⟨UInt32.toNat_lt claimed, counted, UInt64.le_refl _, ?_⟩
        rintro owner ⟨⟩
        obtain ⟨e, current, _, rfl⟩ := runs_iff.mp runs
        obtain ⟨nonzero, reached⟩ := restorable.executor e current
        exact ⟨node0, nonzero, UInt64.le_trans reached (UInt64.le_of_lt later)⟩
      · exact kept record old
    · exact kept record there
  | release freed node round token =>
    unfold releaseVip at there
    split at there
    · rename_i held known
      split at there
      · rcases SortedMap.get_insert_some there with ⟨rfl, rfl⟩ | ⟨_, old⟩
        · exact { kept held known with owner := fun _ none' => by cases none' }
        · exact kept record old
      · exact kept record there
    · exact kept record there
  | same => exact kept record there
  | relieve =>
    obtain ⟨m, only⟩ := interrupt_only (c.found index sequence)
    rw [only] at there
    exact kept record there
  | quiesce | resume | freeze | manage | observe | report | create | assign | unassign | state | reclaim | reclaimed
  | commit => exact absurd rfl still

theorem step (restorable : Restorable c) (later : c.appliedIndex < index) {cmd : Command} (sized : cmd.sized) :
    Restorable (c.apply index cmd).1 := by
  have effect := c.apply_effect index cmd
  have shift := c.apply_shift index cmd
  have grown : (c.apply index cmd).1.appliedIndex = index := by
    rcases c.apply_ledger index cmd with same | ⟨_, _, _, _, _, _, _, _, _, same⟩
    · exact congrArg Prod.fst same
    · exact congrArg Prod.fst same
  have counted : 0 < index := UInt64.lt_of_le_of_lt (UInt64.le_iff_toNat_le.mpr (Nat.zero_le _)) later
  have candidates : ∀ node candidate, (c.apply index cmd).1.candidates.get node = some candidate → CandidateFits node candidate := by
    intro node candidate there
    rcases c.apply_ledger index cmd with same | ⟨node', inst, sequence, group, drives, eligible, rfl, node0, inst0, same⟩
    · rw [show (c.apply index cmd).1.candidates = c.candidates from congrArg Prod.snd same] at there
      exact restorable.candidates node candidate there
    rw [show (c.apply index _).1.candidates = _ from congrArg Prod.snd same] at there
    rcases SortedMap.get_insert_some there with ⟨rfl, rfl⟩ | ⟨_, old⟩
    · exact ⟨⟨UInt64.toNat_lt node', fun zero => node0 (UInt64.toNat_inj.mp zero)⟩, inst0, by simpa [Command.sized] using sized⟩
    · exact restorable.candidates node candidate old
  obtain ⟨quiesced, frozen⟩ := restorable.catalog_step later effect
  exact {
    quiesced := fun q there => grown.symm ▸ quiesced q there
    frozen := fun f there => grown.symm ▸ frozen f there
    vips := fun address record there => grown.symm ▸ restorable.vips_step later effect there
    candidates
    executor := by
      intro e current
      rw [grown]
      rcases shift.round_from current with rfl | ⟨old, before, same⟩
      · exact ⟨fun zero => absurd counted (by rw [zero]; decide), UInt64.le_refl _⟩
      · obtain ⟨nonzero, reached⟩ := restorable.executor old before
        exact same ▸ ⟨nonzero, UInt64.le_trans reached (UInt64.le_of_lt later)⟩
    backed := shift.backed restorable.backed
    reporter := by
      intro a recorded
      rcases shift.activity_from recorded with kept | ⟨⟨sequence, rfl⟩, taken⟩
      · exact restorable.reporter a kept
      · obtain ⟨candidate, there, same⟩ := apply_reporter taken
        have fits := restorable.candidates _ _ there
        refine ⟨fun zero => fits.node.2 (by rw [zero]; rfl), same ▸ fits.inst⟩
    management := by
      obtain ⟨sequence, effect⟩ := effect
      exact effect.orderly counted restorable.management }

end Restorable

theorem replay_appliedIndex (log : List Entry) : (replay log).appliedIndex = lastIndex 0 log := by
  induction log using reverseRecOn with
  | nil => rfl
  | append_singleton log entry ih =>
    rw [replay_append, lastIndex_append]
    rcases (replay log).apply_ledger entry.1 entry.2 with same | ⟨_, _, _, _, _, _, _, _, _, same⟩
    · exact congrArg Prod.fst same
    · exact congrArg Prod.fst same

theorem replay_restorable {log : List Entry} (ascending : Ascending 0 log) (sized : ∀ entry ∈ log, entry.2.sized) :
    Restorable (replay log) := by
  induction log using reverseRecOn with
  | nil => exact .start
  | append_singleton log entry ih =>
    obtain ⟨before, later, _⟩ := ascending_append.mp ascending
    rw [replay_append]
    refine (ih before fun old member => sized old (mem_append_left _ member)).step ?_ (sized entry (by simp))
    rw [replay_appliedIndex]
    exact later

theorem validSnapshot_iff {m : Value} (orderly : Orderly m) : validSnapshot m ↔
    m.size ≤ maxState ∧ ((m.field "inventory").isNull ∨ (m.field "inventory").asObject.isSome) := by
  rcases orderly with rfl | shaped
  · exact ⟨fun _ => ⟨by decide, .inl rfl⟩, fun _ => rfl⟩
  have row : ∀ part ∈ parts, ∀ entry ∈ rows m part, RowFits part entry.1 entry.2 := by
    intro part member entry there
    obtain ⟨entries, same, fits⟩ := shaped.rows part member
    rw [rows, same] at there
    exact fits entry there
  have object : ∀ part ∈ parts, (m.field part).asObject.isSome := by
    intro part member
    obtain ⟨entries, same, _⟩ := shaped.rows part member
    rw [same]
    rfl
  have nonnull : m.isNull = false := by
    cases m with
    | null => cases object "pools" (by decide)
    | _ => rfl
  have sections : ["pools", "tapes", "drives", "tasks"].all (fun key => (m.field key).asObject.isSome) :=
    all_eq_true.mpr object
  have groups : (m.get "nodegroups").isNone := by
    rw [shaped.gone "nodegroups" (by decide)]
    rfl
  have nodes : (m.get "nodes").isNone := by
    rw [shaped.gone "nodes" (by decide)]
    rfl
  have plain : ∀ part ∈ ["pools", "tapes", "drives"], ∀ entry ∈ rows m part, entry.2.asObject.isSome ∧
      (part ≠ "tapes" → ∀ group ∈ groupKeys, entry.2.get group = none) := by
    intro part member entry there
    obtain ⟨known, apart⟩ := (by decide : ∀ part ∈ ["pools", "tapes", "drives"], part ∈ parts ∧ part ≠ "tasks") part member
    have fits := row part known entry there
    rw [RowFits, if_neg apart] at fits
    exact fits
  have groupless : ["pools", "drives"].all (fun key => (rows m key).all fun row =>
      (row.2.get "nodegroup").isNone && (row.2.get "nodegroup_name").isNone) := by
    refine all_eq_true.mpr fun part member => all_eq_true.mpr fun entry there => ?_
    obtain ⟨known, apart⟩ := (by decide : ∀ part ∈ ["pools", "drives"], part ∈ ["pools", "tapes", "drives"] ∧ part ≠ "tapes")
      part member
    have groupless := (plain part known entry there).2 apart
    rw [groupless "nodegroup" (by decide), groupless "nodegroup_name" (by decide)]
    rfl
  have records : ["pools", "tapes", "drives"].all (fun key => (rows m key).all fun row => row.2.asObject.isSome) :=
    all_eq_true.mpr fun part member => all_eq_true.mpr fun entry there => (plain part member entry there).1
  have tasks : (rows m "tasks").all fun row => validTask row.1 row.2 :=
    all_eq_true.mpr fun entry there => row "tasks" (by decide) entry there
  simp only [validSnapshot, nonnull, sections, groups, nodes, groupless, records, tasks, Bool.false_or, Bool.and_true,
    Bool.and_eq_true, Bool.or_eq_true, decide_eq_true_eq]

theorem Restorable.decode (wire : Wire Bytes) {c : ControlState} (restorable : Restorable c)
    (source directoryIndex : UInt64) : Snapshot.decode wire (encode wire ⟨c, source, directoryIndex⟩) =
      if validSnapshot c.management then some ⟨c, source, directoryIndex⟩ else none :=
  decode_encode wire (fun _ member => restorable.vips _ _ (SortedMap.mem_entries.mp member))
    (fun _ member => restorable.candidates _ _ (SortedMap.mem_entries.mp member)) restorable.catalogFits restorable.activityFits

theorem decode_replay (wire : Wire Bytes) {log : List Entry} (ascending : Ascending 0 log)
    (sized : ∀ entry ∈ log, entry.2.sized) (source directoryIndex : UInt64) :
    decode wire (encode wire ⟨replay log, source, directoryIndex⟩) =
      if validSnapshot (replay log).management then some ⟨replay log, source, directoryIndex⟩ else none :=
  (replay_restorable ascending sized).decode wire source directoryIndex

/-- A snapshot of a state that a log leads to reads back to that state, exactly when its management data is not too long and the
    inventory in it is an object, if there is one. -/
theorem snapshot_round_trip {Bytes : Type} (wire : Wire Bytes) {log : List Entry} (ascending : Ascending 0 log)
    (sized : ∀ entry ∈ log, entry.2.sized) (source directoryIndex : UInt64) :
    decode wire (encode wire ⟨replay log, source, directoryIndex⟩) = some ⟨replay log, source, directoryIndex⟩ ↔
      (replay log).management.size ≤ maxState ∧
        (((replay log).management.field "inventory").isNull ∨ ((replay log).management.field "inventory").asObject.isSome) := by
  rw [decode_replay wire ascending sized, ← validSnapshot_iff (replay_restorable ascending sized).management]
  simp

def valueWire : Wire Value where
  print v := v
  parse := some
  parse_print _ := rfl
  showAddress address := Text.decimal address.toUInt64
  readAddress text := (Text.parseU64 text).map (·.toUInt32)
  read_show address := by
    rw [Text.parseU64_decimal, Option.map_some, UInt32.toUInt32_toUInt64]

def scannedLibrary : List Entry :=
  [(1, .candidate 1 1 1 "g" 1 true), (2, .assignExecutor 1 1 1 none "g"), (3, .fenced 1 2), (4, .executorReady 1 2),
    (5, .vipAcquire 7 1 2 0), (6, .manage (.ofFields [("resource", .string "libraries"), ("action", .string "rescan"),
      ("target", .string ""), ("params", .object [])])),
    (7, .managementReport 6 2 "running" .null),
    (8, .managementReport 6 2 "success" (.ofFields [("inventory", .ofFields [("drives", .array [])])]))]

theorem snapshot_round_trip_scanned : Ascending 0 scannedLibrary ∧ (∀ entry ∈ scannedLibrary, entry.2.sized) ∧
    decode valueWire (encode valueWire ⟨replay scannedLibrary, 1, 8⟩) = some ⟨replay scannedLibrary, 1, 8⟩ := by
  have ascending : Ascending 0 scannedLibrary := by decide
  have sized : ∀ entry ∈ scannedLibrary, entry.2.sized := by simp [scannedLibrary, Command.sized]
  have restored := snapshot_round_trip valueWire ascending sized 1 8
  exact ⟨ascending, sized, restored.mpr (by decide +kernel)⟩

def barcodeOf (length : Nat) : String := String.ofList (List.replicate length 'T')

theorem barcodeOf_quoted (length : Nat) : quotedSize (barcodeOf length) = length + 2 := by
  have one : escapedSize 'T' = 1 := by decide
  rw [quotedSize, barcodeOf, String.toList_ofList, map_replicate, one, sum_replicate_nat, mul_one, add_comm]

theorem barcodeOf_size (length : Nat) : (barcodeOf length).utf8ByteSize = length := by
  induction length with
  | zero => rfl
  | succ n ih =>
    have longer : barcodeOf (n + 1) = String.singleton 'T' ++ barcodeOf n := by
      simp [barcodeOf, replicate_succ]
    rw [longer, String.utf8ByteSize_append, ih, add_comm]
    rfl

def bareObservation : Value := .ofFields [("volume_uuid", .string "v"), ("generation", .number 1), ("observed_at", .string "t")]

def observedTape (barcode : String) : List Entry :=
  [(1, .poolCreate "u" "p" 1), (2, .tapeAssign barcode "p"),
    (3, .observeTape barcode bareObservation)]

def withTape (barcode : String) : ControlState :=
  { appliedIndex := 2, pools := SortedMap.empty.insert "u" { name := "p", fileLimit := 1 },
    tapes := SortedMap.empty.insert barcode "u" }

theorem observedTape_assigned {barcode : String} (long : 8 < barcode.utf8ByteSize) :
    replay ((observedTape barcode).take 2) = withTape barcode := by
  have data : requireDataTape .null barcode = .ok () := by
    have eight : barcode.utf8ByteSize ≠ 8 := by omega
    have six : barcode.utf8ByteSize ≠ 6 := by omega
    have untyped : cleaningSource .null barcode = cleaningCartridge none barcode := rfl
    simp [requireDataTape, untyped, cleaningCartridge, eight, six]
  have named : barcode ≠ "" := by
    rintro rfl
    simp at long
  have free : checkMedia "none" barcode = .ok () := if_pos (.inl rfl)
  have created : (({} : ControlState).apply 1 (.poolCreate "u" "p" 1)).1 =
      { appliedIndex := 1, pools := SortedMap.empty.insert "u" { name := "p", fileLimit := 1 } } := rfl
  have pooled : ({ appliedIndex := 2, pools := SortedMap.empty.insert "u" { name := "p", fileLimit := 1 } } : ControlState).resolvePool "p" = some "u" := by
    decide +kernel
  have idle : activeTasks .null = false := rfl
  have unheld : (SortedMap.empty : SortedMap String String).get barcode = none := rfl
  show ((({} : ControlState).apply 1 (.poolCreate "u" "p" 1)).1.apply 2 (.tapeAssign barcode "p")).1 = _
  rw [created]
  unfold ControlState.apply ControlState.tapeAssign
  simp [guarded, rejects, advanced, pooled, named, data, free, mediaRestriction, idle, unheld,
    asString, Command.haltedByQuiesce, withTape]

theorem observedTape_size (barcode : String) :
    (empty.setPath ["tapes", barcode] (.object [])).size = quotedSize barcode + 66 ∧
      ((empty.setPath ["tapes", barcode] (.object [])).set "revision" (.number 3)).size = quotedSize barcode + 79 := by
  have one : empty.setPath ["tapes", barcode] (.object []) = .object [("drives", .object []), ("inventory", .null),
      ("pools", .object []), ("tapes", .object [(barcode, .object [])]), ("tasks", .object [])] := rfl
  have two : (empty.setPath ["tapes", barcode] (.object [])).set "revision" (.number 3) = .object [("drives", .object []),
      ("inventory", .null), ("pools", .object []), ("revision", .number 3), ("tapes", .object [(barcode, .object [])]),
      ("tasks", .object [])] := rfl
  have quoted : quotedSize "drives" = 8 ∧ quotedSize "inventory" = 11 ∧ quotedSize "pools" = 7 ∧
      quotedSize "revision" = 10 ∧ quotedSize "tapes" = 7 ∧ quotedSize "tasks" = 7 := by
    decide +kernel
  have digit : (Text.decimal 3).utf8ByteSize = 1 := by decide +kernel
  obtain ⟨drives, inventory, pools, revision, tapes, tasks⟩ := quoted
  refine ⟨?_, ?_⟩
  · rw [one]
    simp only [size, fieldsSize, length_cons, length_nil, drives, inventory, pools, tapes, tasks]
    omega
  · rw [two]
    simp only [size, fieldsSize, length_cons, length_nil, drives, inventory, pools, revision, tapes, tasks, digit]
    omega

theorem observedTape_management {barcode : String} (long : 8 < barcode.utf8ByteSize)
    (fits : Value.quotedSize barcode + 66 ≤ maxState) : (replay (observedTape barcode)).management =
      (empty.setPath ["tapes", barcode] (.object [])).set "revision" (.number 3) := by
  have last : observedTape barcode = (observedTape barcode).take 2 ++ [(3, .observeTape barcode bareObservation)] := rfl
  rw [last, replay_append, observedTape_assigned long]
  have held : (withTape barcode).tapes.contains barcode := by simp [withTape, SortedMap.contains]
  have short : ¬8192 < bareObservation.size := by decide +kernel
  have plain : (bareObservation.field "invalidate").isTrue = false := by decide +kernel
  have uuid : (bareObservation.field "volume_uuid").asString.filter (fun s => s ≠ "" && s.utf8ByteSize ≤ 128) = some "v" := by
    decide +kernel
  have dated : ¬((bareObservation.field "generation").asNumber.all (fun g => g = 0) ∨
      (bareObservation.field "observed_at").asString.all (fun s => s = "" || 64 < s.utf8ByteSize)) := by
    decide +kernel
  have fresh : (empty.field "tapes").get barcode = none := by
    rw [empty, Value.field, Value.get_ofFields]
    simp [Assoc.find_cons, Value.get, Value.asObject]
  have unmeasured : ∀ c key refreshKey errorKey, bareObservation.get key = none →
      observePartition c bareObservation "v" key refreshKey errorKey (.object []) = .object [] := by
    intro c key refreshKey errorKey absent
    unfold observePartition
    have empty' : (Value.object []).field key = .null := rfl
    simp [absent, empty', Value.asString]
  have capacity : bareObservation.get "capacity" = none := by decide +kernel
  have indexCapacity : bareObservation.get "index_capacity" = none := by decide +kernel
  have room : ¬maxState < (empty.setPath ["tapes", barcode] (.object [])).size := by
    rw [(observedTape_size barcode).1]
    omega
  have observed : ∀ c : ControlState, c.tapes.contains barcode → c.management = .null →
      (observeTape c barcode bareObservation 3).management =
        (empty.setPath ["tapes", barcode] (.object [])).set "revision" (.number 3) := by
    intro c held null
    unfold observeTape
    rw [if_neg (by simp [held, short]), if_neg (by simp [plain])]
    simp only [uuid]
    rw [if_neg dated]
    simp [null, Value.isNull, fresh, unmeasured _ _ _ _ capacity, unmeasured _ _ _ _ indexCapacity, room]
  exact observed _ held rfl

theorem observedTape_ascending (barcode : String) : Ascending 0 (observedTape barcode) :=
  ⟨(by decide : (0 : UInt64) < 1), (by decide : (1 : UInt64) < 2), (by decide : (2 : UInt64) < 3), trivial⟩

theorem observedTape_sized (barcode : String) : ∀ entry ∈ observedTape barcode, entry.2.sized := by
  simp [observedTape, Command.sized]

theorem observedTape_tooLong {length : Nat} (long : 8 < length) (fits : length + 68 ≤ maxState)
    (full : maxState < length + 81) (wire : Wire Bytes) (source directoryIndex : UInt64) :
    decode wire (encode wire ⟨replay (observedTape (barcodeOf length)), source, directoryIndex⟩) = none := by
  have orderly := (replay_restorable (observedTape_ascending (barcodeOf length)) (observedTape_sized _)).management
  have size : (replay (observedTape (barcodeOf length))).management.size = length + 81 := by
    rw [observedTape_management (by rwa [barcodeOf_size]) (by rw [barcodeOf_quoted]; omega), (observedTape_size _).2,
      barcodeOf_quoted]
  rw [decode_replay wire (observedTape_ascending _) (observedTape_sized _), if_neg]
  intro valid
  have short := ((validSnapshot_iff orderly).mp valid).1
  omega

theorem observed_tape_not_restored : ∃ log : List Entry, Ascending 0 log ∧ (∀ entry ∈ log, entry.2.sized) ∧
    ∀ {Bytes : Type} (wire : Wire Bytes), decode wire (encode wire ⟨replay log, 1, 3⟩) = none :=
  ⟨observedTape (barcodeOf 2097084), observedTape_ascending _, observedTape_sized _,
    fun wire => observedTape_tooLong (by decide) (by decide) (by decide) wire 1 3⟩

end TapeRs.Daemon
