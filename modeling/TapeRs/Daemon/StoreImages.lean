import TapeRs.Daemon.DurableLog

namespace TapeRs.Daemon.Store

open Durable Word Entry
open List hiding tail

variable {β : Type} {pb : Protobuf β} {members : List UInt64} {d : Durable} {t : Tables β} {mem : MemStorage}

section Disk

def row (pb : Protobuf β) (e : Entry) : Int × β := (Word.signed e.index, pb.entry.write e)

/-- The tables hold this snapshot and this log; rows that the snapshot covers may be left. -/
structure Filed (pb : Protobuf β) (t : Tables β) (d : Durable) : Prop where
  snapshot : t.snapshot = d.snapshot.map pb.snapshot.write
  entries : ∃ old, t.entries.entries = old ++ d.log.map (row pb) ∧ ∀ r ∈ old, r.1 ≤ Word.signed d.boundary

theorem signed_le (n : UInt64) : signed n ≤ n.toNat := by
  unfold signed
  split <;> omega

theorem runAll_append (t : Tables β) (first second : List (Statement β)) :
    t.runAll (first ++ second) = (t.runAll first).bind fun t => t.runAll second := by
  induction first generalizing t with
  | nil => rfl
  | cons statement rest ih =>
    rw [cons_append, Tables.runAll, Tables.runAll, Option.bind_assoc]
    congr 1
    funext next
    exact ih next

variable (pb) in
theorem runAll_insert (t : Tables β) {base : Nat} {entries : List Entry} (run : Consecutive number base entries)
    (fits : ∀ e ∈ entries, Word.Fits e.index) (below : ∀ r ∈ t.entries.entries, r.1 ≤ base) :
    ∃ rows : SortedMap Int β, rows.entries = t.entries.entries ++ entries.map (row pb) ∧
      t.runAll (entries.map fun e => .insertEntry (signed e.index) (pb.entry.write e)) =
        some { t with entries := rows } := by
  induction entries generalizing t base with
  | nil => exact ⟨t.entries, (append_nil _).symm, rfl⟩
  | cons e rest ih =>
    have here : signed e.index = (base + 1 : Nat) := by
      rw [signed_of_fits (fits e mem_cons_self), ← run.1]
      rfl
    have last : ∀ r ∈ t.entries.entries, r.1 < signed e.index := by
      intro r member
      have old := below r member
      omega
    have absent : t.entries.contains (signed e.index) = false := SortedMap.contains_of_lt last
    have added := SortedMap.entries_insert_of_lt last (pb.entry.write e)
    obtain ⟨rows, same, ran⟩ := ih { t with entries := t.entries.insert (signed e.index) (pb.entry.write e) } run.2
      (fun other member => fits other (mem_cons_of_mem _ member)) (by
        intro r member
        dsimp only at member
        rw [added] at member
        rcases mem_append.mp member with old | new
        · have before := below r old
          omega
        · rw [mem_singleton.mp new]
          exact Int.le_of_eq here)
    refine ⟨rows, ?_, ?_⟩
    · rw [same, added, append_assoc]
      rfl
    · rw [map_cons, Tables.runAll, Tables.run, absent]
      exact ran

theorem Filed.rebase (filed : Filed pb t d) (snapshot : Option Snapshot) :
    ∃ rows : SortedMap Int β, t.runAll (RaftStore.snapshotStatements pb snapshot) =
        some { t with entries := rows, snapshot := (d.rebase snapshot).snapshot.map pb.snapshot.write } ∧
      Filed pb { t with entries := rows, snapshot := (d.rebase snapshot).snapshot.map pb.snapshot.write }
        (d.rebase snapshot) := by
  cases snapshot with
  | none =>
    refine ⟨t.entries, ?_, rfl, filed.entries⟩
    rw [Durable.rebase, ← filed.snapshot]
    rfl
  | some snap => exact ⟨.empty, rfl, rfl, [], rfl, nofun⟩

theorem Filed.append (filed : Filed pb t d) (whole : Whole members d) {entries : List Entry}
    (continues : d.Continues entries) :
    ∃ rows : SortedMap Int β, t.runAll (RaftStore.entryStatements pb entries) = some { t with entries := rows } ∧
      Filed pb { t with entries := rows } (d.append entries) := by
  cases entries with
  | nil => exact ⟨t.entries, rfl, filed.snapshot, filed.entries⟩
  | cons first rest =>
    obtain ⟨above, gapless, consecutive, fits⟩ := continues first rest rfl
    obtain ⟨old, same, covered⟩ := filed.entries
    rw [UInt64.lt_iff_toNat_lt] at above
    have here : signed first.index = first.number := signed_of_fits (fits first mem_cons_self)
    have low : ∀ r ∈ old, r.1 ≤ (first.number - 1 : Nat) := by
      intro r member
      have under := covered r member
      have signed := signed_le d.boundary
      unfold number
      omega
    have kept : (t.entries.filter fun other _ => other < signed first.index).entries =
        old ++ (d.log.filter fun e => e.number < first.number).map (row pb) := by
      change t.entries.entries.filter _ = _
      rw [same, filter_append, filter_eq_self.mpr, filter_map]
      · congr 2
        apply filter_congr
        intro e member
        rw [Function.comp, row, signed_of_fits (whole.fits e member), here, decide_eq_decide]
        exact Int.ofNat_lt
      · intro r member
        have under := low r member
        rw [here, decide_eq_true_eq]
        unfold number at under ⊢
        omega
    obtain ⟨rows, all, ran⟩ := runAll_insert pb
      { t with entries := t.entries.filter fun other _ => other < signed first.index } consecutive fits (by
        intro r member
        dsimp only at member
        rw [kept] at member
        rcases mem_append.mp member with before | logged
        · exact low r before
        obtain ⟨e, inside, rfl⟩ := mem_map.mp logged
        obtain ⟨inside, less⟩ := mem_filter.mp inside
        rw [row, signed_of_fits (whole.fits e inside)]
        have number := of_decide_eq_true less
        unfold Entry.number at number ⊢
        omega)
    refine ⟨rows, ran, filed.snapshot, old, ?_, covered⟩
    dsimp only at all ⊢
    rw [all, kept, append_assoc, ← map_append]
    rfl

theorem Filed.compact (filed : Filed pb t d) (whole : Whole members d) {snap : Snapshot}
    (above : d.boundary < snap.metadata.index) (reached : snap.metadata.index.toNat ≤ d.tail) :
    ∃ rows : SortedMap Int β,
      t.runAll [.deleteBefore (signed snap.metadata.index), .putSnapshot (pb.snapshot.write snap)] =
        some { t with entries := rows, snapshot := some (pb.snapshot.write snap) } ∧
      Filed pb { t with entries := rows, snapshot := some (pb.snapshot.write snap) } (d.compact snap) := by
  obtain ⟨old, same, covered⟩ := filed.entries
  have compacted := compact_above above
  rw [UInt64.lt_iff_toNat_lt] at above
  have nonempty : ∃ e, e ∈ d.log := by
    apply exists_mem_of_length_pos
    unfold tail at reached
    omega
  obtain ⟨e, inside⟩ := nonempty
  have here : signed snap.metadata.index = snap.metadata.index.toNat :=
    signed_of_fits (Nat.lt_of_le_of_lt reached (whole.lt_of_log inside))
  refine ⟨_, rfl, ?_⟩
  rw [compacted]
  refine ⟨rfl, ((d.log.drop (snap.metadata.index.toNat - 1 - d.boundary.toNat)).take 1).map (row pb), ?_, ?_⟩
  · change t.entries.entries.filter _ = _
    dsimp only
    rw [same, filter_append, filter_eq_nil_iff.mpr, nil_append, ← map_append, filter_map,
      whole.consecutive.filter_gt]
    · congr 1
      have step : snap.metadata.index.toNat - d.boundary.toNat = (snap.metadata.index.toNat - 1 - d.boundary.toNat) + 1 := by
        omega
      rw [step, ← drop_drop, take_append_drop, ← whole.consecutive.filter_gt]
      apply filter_congr
      intro e member
      rw [Function.comp, row, signed_of_fits (whole.fits e member), here, decide_eq_decide]
      unfold number
      omega
    · intro r member
      have under := covered r member
      have signed := signed_le d.boundary
      rw [here, decide_eq_true_eq]
      omega
  · intro r member
    obtain ⟨e, inside, rfl⟩ := mem_map.mp member
    have room : snap.metadata.index.toNat - 1 - d.boundary.toNat ≤ d.log.length := by
      unfold tail at reached
      omega
    have number := ((whole.consecutive.drop room).take 1).number_le inside
    have few : ((d.log.drop (snap.metadata.index.toNat - 1 - d.boundary.toNat)).take 1).length ≤ 1 := by
      rw [length_take]
      omega
    have member := mem_of_mem_drop (mem_of_mem_take inside)
    change signed e.index ≤ signed snap.metadata.index
    rw [here, signed_of_fits (whole.fits e member)]
    unfold Entry.number at number
    omega

end Disk

section Memory

/-- The cache holds this log; entries that the snapshot covers may be left. -/
structure Mirrors (mem : MemStorage) (d : Durable) : Prop where
  log : mem.entries.filter (fun e => d.boundary.toNat < e.number) = d.log
  base : ∃ base, base ≤ d.boundary.toNat ∧ d.boundary.toNat ≤ base + mem.entries.length ∧
    Consecutive Entry.number base mem.entries
  empty : mem.entries = [] → mem.snapshotMetadata.index = d.boundary

theorem toNat_succ {n bound : UInt64} (below : n.toNat < bound.toNat) : (n + 1).toNat = n.toNat + 1 := by
  have size := bound.toNat_lt
  rw [UInt64.toNat_add]
  exact Nat.mod_eq_of_lt (by simp; omega)

variable (mirrors : Mirrors mem d)
include mirrors

theorem Mirrors.firstIndex {base : Nat} {bound : UInt64} (low : base ≤ d.boundary.toNat)
    (high : d.boundary.toNat ≤ base + mem.entries.length) (run : Consecutive number base mem.entries)
    (room : d.boundary < bound) : mem.firstIndex.toNat = base + 1 := by
  unfold MemStorage.firstIndex
  have empty := mirrors.empty
  generalize mem.entries = entries at empty high run
  cases entries with
  | nil =>
    rw [UInt64.lt_iff_toNat_lt, ← empty rfl] at room
    rw [length_nil] at high
    have same := congrArg UInt64.toNat (empty rfl)
    change (mem.snapshotMetadata.index + 1).toNat = base + 1
    rw [toNat_succ room]
    omega
  | cons e rest => exact run.1

theorem Mirrors.length {base : Nat} (low : base ≤ d.boundary.toNat)
    (high : d.boundary.toNat ≤ base + mem.entries.length) (run : Consecutive number base mem.entries) :
    base + mem.entries.length = d.tail := by
  unfold tail
  rw [← mirrors.log, run.filter_gt, length_drop]
  omega

theorem Mirrors.lastIndex : mem.lastIndex.toNat = d.tail := by
  obtain ⟨base, low, high, run⟩ := mirrors.base
  rw [← mirrors.length low high run]
  unfold MemStorage.lastIndex
  cases found : mem.entries.getLast? with
  | some e => exact run.number_getLast found
  | none =>
    have empty := getLast?_eq_none_iff.mp found
    have same := congrArg UInt64.toNat (mirrors.empty empty)
    rw [empty, length_nil] at high ⊢
    dsimp only
    omega

theorem Mirrors.rebase {snapshot : Option Snapshot} (newer : Newer members d snapshot) :
    ∃ next, mem.applyAny snapshot = .ok next ∧ (snapshot = none → next.hardState = mem.hardState) ∧
      Mirrors next (d.rebase snapshot) := by
  cases snapshot with
  | none => exact ⟨mem, rfl, fun _ => rfl, mirrors⟩
  | some snap =>
    obtain ⟨base, low, high, run⟩ := mirrors.base
    have above := (newer snap rfl).1
    have first := mirrors.firstIndex low high run above
    rw [UInt64.lt_iff_toNat_lt] at above
    have current : ¬snap.metadata.index < mem.firstIndex := by
      rw [UInt64.lt_iff_toNat_lt]
      omega
    exact ⟨_, if_neg current, nofun, rfl, ⟨snap.metadata.index.toNat, Nat.le_refl _, Nat.le_refl _, trivial⟩, fun _ => rfl⟩

theorem Mirrors.append (whole : Whole members d) {entries : List Entry} (continues : d.Continues entries) :
    ∃ next, mem.append entries = .ok next ∧ next.hardState = mem.hardState ∧ Mirrors next (d.append entries) := by
  cases entries with
  | nil => exact ⟨mem, rfl, rfl, mirrors⟩
  | cons start rest =>
    obtain ⟨above, gapless, consecutive, fits⟩ := continues start rest rfl
    obtain ⟨base, low, high, run⟩ := mirrors.base
    have first := mirrors.firstIndex low high run above
    have length := mirrors.length low high run
    have last := mirrors.lastIndex
    have small : start.index.toNat < 2 ^ 63 := fits start mem_cons_self
    rw [UInt64.lt_iff_toNat_lt] at above
    have reach : start.index.toNat ≤ d.tail + 1 := gapless
    have bounded : mem.lastIndex.toNat < 2 ^ 63 := by
      rw [last]
      cases log : d.log with
      | nil =>
        unfold tail
        rw [log, length_nil]
        omega
      | cons e rest => exact whole.lt_of_log (e := e) (log ▸ mem_cons_self)
    have succ : (mem.lastIndex + 1).toNat = mem.lastIndex.toNat + 1 := by
      rw [UInt64.toNat_add]
      exact Nat.mod_eq_of_lt (by simp; omega)
    have inside : ¬start.index < mem.firstIndex := by
      rw [UInt64.lt_iff_toNat_lt]
      omega
    have joined : ¬mem.lastIndex + 1 < start.index := by
      rw [UInt64.lt_iff_toNat_lt, succ]
      omega
    have count : (start.index - mem.firstIndex).toNat = start.number - 1 - base := by
      rw [UInt64.toNat_sub_of_le _ _ (UInt64.not_lt.mp inside), first]
      unfold number
      omega
    refine ⟨{ mem with entries := mem.entries.filter (fun e => e.number < start.number) ++ start :: rest }, ?_, rfl,
      ?_, ?_, fun empty => absurd empty (by simp)⟩
    · rw [MemStorage.append, if_neg inside, if_neg joined, count, run.filter_lt]
    · change (mem.entries.filter _ ++ start :: rest).filter _ = d.log.filter _ ++ start :: rest
      rw [filter_append, ← mirrors.log, filter_filter, filter_filter]
      congr 1
      · apply filter_congr
        intro e _
        exact Bool.and_comm ..
      · apply filter_eq_self.mpr
        intro e member
        have number := consecutive.number_lt member
        rw [boundary_append, decide_eq_true_eq]
        unfold Entry.number at number ⊢
        omega
    · rw [boundary_append]
      refine ⟨base, low, ?_, ?_⟩
      · dsimp only
        rw [run.filter_lt, length_append, length_take, length_cons]
        unfold number
        omega
      · dsimp only
        rw [run.filter_lt, Consecutive.append_iff]
        refine ⟨run.take _, ?_⟩
        have reached : base + (mem.entries.take (start.number - 1 - base)).length = start.number - 1 := by
          rw [length_take]
          unfold number
          omega
        rw [reached]
        exact consecutive

theorem Mirrors.compact (whole : Whole members d) {snap : Snapshot} (above : d.boundary < snap.metadata.index)
    (reached : snap.metadata.index.toNat ≤ d.tail) :
    ∃ next, mem.compact snap.metadata.index = .ok next ∧ next.hardState = mem.hardState ∧ Mirrors next (d.compact snap) := by
  obtain ⟨base, low, high, run⟩ := mirrors.base
  have first := mirrors.firstIndex low high run above
  have length := mirrors.length low high run
  have last := mirrors.lastIndex
  have compacted := compact_above above
  rw [UInt64.lt_iff_toNat_lt] at above
  have count : snap.metadata.index.toNat - 1 - base ≤ mem.entries.length := by omega
  -- Both branches of the cache leave the entries from the index of the snapshot on.
  have ran : mem.compact snap.metadata.index =
      .ok { mem with entries := mem.entries.drop (snap.metadata.index.toNat - 1 - base) } := by
    unfold MemStorage.compact
    split
    · rename_i early
      rw [UInt64.le_iff_toNat_le, first] at early
      have none' : snap.metadata.index.toNat - 1 - base = 0 := by omega
      rw [none', drop_zero]
    · rename_i later
      have after : mem.firstIndex ≤ snap.metadata.index := by
        rw [UInt64.not_le, UInt64.lt_iff_toNat_lt] at later
        rw [UInt64.le_iff_toNat_le]
        omega
      have joined : ¬mem.lastIndex + 1 < snap.metadata.index := by
        obtain ⟨e, inside⟩ : ∃ e, e ∈ d.log := by
          apply exists_mem_of_length_pos
          unfold tail at reached
          omega
        have bounded := whole.lt_of_log inside
        rw [UInt64.lt_iff_toNat_lt, UInt64.toNat_add, Nat.mod_eq_of_lt (by simp; omega)]
        simp
        omega
      rw [if_neg joined, UInt64.toNat_sub_of_le _ _ after, first]
      congr 3
      omega
  refine ⟨_, ran, rfl, ?_⟩
  rw [compacted]
  refine ⟨?_, ⟨snap.metadata.index.toNat - 1, Nat.sub_le _ _, ?_, ?_⟩, ?_⟩
  · change (mem.entries.drop _).filter (fun e => snap.metadata.index.toNat < e.number) =
      d.log.filter fun e => snap.metadata.index.toNat < e.number
    rw [← run.filter_gt, ← mirrors.log, filter_filter, filter_filter]
    apply filter_congr
    intro e _
    rw [Bool.eq_iff_iff]
    simp only [Bool.and_eq_true, decide_eq_true_eq]
    omega
  · change snap.metadata.index.toNat ≤ _
    rw [length_drop]
    omega
  · have moved := run.drop count
    have same : base + (snap.metadata.index.toNat - 1 - base) = snap.metadata.index.toNat - 1 := by omega
    rw [same] at moved
    exact moved
  · intro empty
    have none' := congrArg List.length empty
    rw [length_drop, length_nil] at none'
    omega

end Memory

end TapeRs.Daemon.Store
