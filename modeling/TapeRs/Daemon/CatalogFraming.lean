import TapeRs.Daemon.Coordinator

namespace TapeRs.Daemon.CatalogReport

open List

/-- The parts so far are `out` and `last`, and `last` has the size `size`. -/
def splitInto (out : List (List FileRec)) (last : List FileRec) (size : Nat) : List FileRec → List (List FileRec)
  | [] => out ++ [last]
  | file :: rest =>
    if catalogPartBytes < size + cost file ∧ !last.isEmpty then splitInto (out ++ [last]) [file] (cost file) rest
    else splitInto out (last ++ [file]) (size + cost file) rest

def splitCatalog (files : List FileRec) : List (List FileRec) := splitInto [] [] 0 files

/-- The parts of a report; unlike the splitter, it has none for no records. -/
def parts (files : List FileRec) : List (List FileRec) := if files.isEmpty then [] else splitCatalog files

theorem splitInto_out (out : List (List FileRec)) (last : List FileRec) (size : Nat) (files : List FileRec) :
    splitInto out last size files = out ++ splitInto [] last size files := by
  induction files generalizing out last size with
  | nil => rfl
  | cons file rest ih =>
    unfold splitInto
    split
    · rw [ih, ih ([] ++ [last]), nil_append, append_assoc]
    · exact ih ..

theorem splitInto_eq (last : List FileRec) (size : Nat) (files : List FileRec) : splitInto [] last size files =
    (last ++ (takePart size (!last.isEmpty) files).1) :: parts (takePart size (!last.isEmpty) files).2 := by
  induction files generalizing last size with
  | nil => simp [splitInto, takePart, parts]
  | cons file rest ih =>
    unfold splitInto takePart
    split
    · rw [splitInto_out, parts, splitCatalog, splitInto]
      simp
    · have filled : (!(last ++ [file]).isEmpty) = true := by simp
      rw [ih, filled, append_assoc]
      rfl

theorem parts_eq {files : List FileRec} (some : files ≠ []) :
    parts files = (takePart 0 false files).1 :: parts (takePart 0 false files).2 := by
  rw [parts, if_neg (by simpa using some)]
  exact splitInto_eq [] 0 files

theorem takePart_append (size : Nat) (some : Bool) (files : List FileRec) :
    (takePart size some files).1 ++ (takePart size some files).2 = files := by
  induction files generalizing size some with
  | nil => rfl
  | cons file rest ih =>
    unfold takePart
    split
    · rfl
    · exact congrArg (file :: ·) (ih ..)

theorem takePart_fits (size : Nat) (files : List FileRec) : (takePart size true files).1 = [] ∨
    size + ((takePart size true files).1.map cost).sum ≤ catalogPartBytes := by
  induction files generalizing size with
  | nil => exact .inl rfl
  | cons file rest ih =>
    unfold takePart
    split
    · exact .inl rfl
    rename_i room
    rw [and_iff_left rfl, Nat.not_lt] at room
    right
    rcases ih (size + cost file) with none' | fits
    · simpa [none'] using room
    · rwa [map_cons, sum_cons, ← Nat.add_assoc]

theorem takePart_first (file : FileRec) (rest : List FileRec) : takePart 0 false (file :: rest) =
    (file :: (takePart (cost file) true rest).1, (takePart (cost file) true rest).2) := by
  simp [takePart]

theorem parts_spec (files : List FileRec) : (parts files).flatten = files ∧
    ∀ part ∈ parts files, part ≠ [] ∧ (part.length = 1 ∨ (part.map cost).sum ≤ catalogPartBytes) := by
  induction length : files.length using Nat.strongRecOn generalizing files with
  | ind n ih =>
    cases files with
    | nil => simp [parts]
    | cons file rest =>
      have whole := takePart_append (cost file) true rest
      have shorter := congrArg List.length whole
      rw [length_append] at shorter
      rw [length_cons] at length
      obtain ⟨flat, each⟩ := ih _ (by omega) (takePart (cost file) true rest).2 rfl
      rw [parts_eq (by simp), takePart_first]
      refine ⟨?_, forall_mem_cons.mpr ⟨⟨by simp, ?_⟩, each⟩⟩
      · rw [flatten_cons, flat, cons_append, whole]
      · rcases takePart_fits (cost file) rest with none' | fits
        · exact .inl (by simp [none'])
        · exact .inr (by simpa using fits)

/-- All commands of a report; there are none when the process stops. -/
def drain : Nat → CatalogReport → Option (List Command)
  | 0, _ => none
  | fuel + 1, r =>
    match r.nextCommand with
    | none => none
    | some (next, command) => if next.finished then some [command] else (drain fuel next).map (command :: ·)

theorem nextCommand_cons {r : CatalogReport} {file : FileRec} {rest : List FileRec} (files : r.files = file :: rest) :
    r.nextCommand = if r.part.toNat + 1 < UInt32.size then
      some ({ r with files := (takePart (cost file) true rest).2, part := r.part + 1 },
        .catalogPart r.barcode r.generation r.part (file :: (takePart (cost file) true rest).1)) else none := by
  unfold nextCommand
  rw [files, takePart_first]

theorem drain_eq {r : CatalogReport} (unfinished : r.finished = false) {fuel : Nat} (enough : r.files.length < fuel) :
    drain fuel r = if r.part.toNat + (parts r.files).length < UInt32.size then
      some ((parts r.files).mapIdx (fun i => .catalogPart r.barcode r.generation (.ofNat (r.part.toNat + i))) ++
        [.tapeCommitted r.barcode r.volumeUuid r.generation r.filesTotal r.bytesUsed r.bytesWritten
          (.ofNat (r.part.toNat + (parts r.files).length)) r.full])
    else none := by
  induction fuel generalizing r with
  | zero => cases enough
  | succ fuel ih =>
    rw [drain]
    cases files : r.files with
    | nil => simp [nextCommand, files, takePart, parts, r.part.toNat_lt]
    | cons file rest =>
      have whole := congrArg length (takePart_append (cost file) true rest)
      rw [length_append] at whole
      rw [files, length_cons] at enough
      rw [nextCommand_cons files, parts_eq (by simp), takePart_first, mapIdx_cons, length_cons]
      by_cases room : r.part.toNat + 1 < UInt32.size
      · have next : (r.part + 1).toNat = r.part.toNat + 1 := by
          rw [UInt32.toNat_add]
          exact Nat.mod_eq_of_lt room
        have later := ih (r := { r with files := (takePart (cost file) true rest).2, part := r.part + 1 }) unfinished
          (by dsimp only; omega)
        dsimp only at later
        rw [next, Nat.add_assoc, Nat.add_comm 1] at later
        rw [if_pos room]
        dsimp only
        rw [if_neg (by simp [unfinished]), later]
        split
        · simp [Nat.add_assoc, Nat.add_comm 1]
        · rfl
      · rw [if_neg room, if_neg (by omega)]

/-- Every record is in the parts of a report, in order, and they are the parts of the splitter; the last command counts
    them. The process stops when there are more parts than numbers. -/
theorem catalog_report_frames (report : CatalogReport) : ∃ parts : List (List FileRec),
    parts.flatten = report.files ∧
    (∀ part ∈ parts, part ≠ [] ∧ (part.length = 1 ∨ (part.map cost).sum ≤ catalogPartBytes)) ∧
    (report.files ≠ [] → parts = splitCatalog report.files) ∧
    ∀ extra, drain (report.files.length + 1 + extra) { report with part := 0, finished := false } =
      if parts.length < UInt32.size then
        some (parts.mapIdx (fun i => .catalogPart report.barcode report.generation (.ofNat i)) ++
          [.tapeCommitted report.barcode report.volumeUuid report.generation report.filesTotal report.bytesUsed
            report.bytesWritten (.ofNat parts.length) report.full])
      else none := by
  obtain ⟨flat, each⟩ := parts_spec report.files
  refine ⟨parts report.files, flat, each, fun some => if_neg (by simpa using some), fun extra => ?_⟩
  rw [drain_eq rfl (by dsimp only; omega)]
  simp

def padded (length : Nat) : FileRec where
  path := ""
  length := 0
  sha256 := ""
  version := (0, 0)
  deleted := false
  metadata := .array (List.replicate length .null)

theorem lt_cost_padded (length : Nat) : length < cost (padded length) := by
  have size : Json.Value.itemsSize (replicate length .null) = 4 * length := by
    induction length with
    | zero => rfl
    | succ n ih =>
      rw [replicate_succ, Json.Value.itemsSize, ih, Json.Value.size]
      omega
  rw [cost, padded, Json.Value.size, size]
  omega

section Oversized

variable {file : FileRec} (large : catalogPartBytes < cost file)
include large

theorem parts_oversized (count : Nat) : parts (replicate count file) = replicate count [file] := by
  have alone : ∀ count, takePart (cost file) true (replicate count file) = ([], replicate count file) := by
    intro count
    cases count with
    | zero => rfl
    | succ count => exact if_pos ⟨Nat.lt_add_right _ large, rfl⟩
  induction count with
  | zero => rfl
  | succ count ih => rw [replicate_succ, parts_eq (by simp), takePart_first, alone, ih, replicate_succ]

theorem drain_oversized {r : CatalogReport} (unfinished : r.finished = false) {count : Nat}
    (files : r.files = replicate count file) (many : UInt32.size ≤ count) (extra : Nat) :
    drain (r.files.length + 1 + extra) r = none := by
  rw [drain_eq unfinished (by omega), files, parts_oversized large, length_replicate, if_neg (by omega)]

end Oversized

def overfull : CatalogReport where
  barcode := "TAPE01"
  volumeUuid := "v"
  generation := 1
  filesTotal := 1
  bytesUsed := 1
  bytesWritten := 1
  full := false
  files := List.replicate UInt32.size (padded catalogPartBytes)

theorem catalog_parts_run_out :
    ¬ ∃ extra commands, drain (overfull.files.length + 1 + extra) overfull = some commands := by
  rintro ⟨extra, commands, drained⟩
  rw [drain_oversized (lt_cost_padded catalogPartBytes) rfl rfl (Nat.le_refl UInt32.size)] at drained
  cases drained

end TapeRs.Daemon.CatalogReport
