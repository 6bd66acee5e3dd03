import TapeRs.Daemon.Projection

namespace TapeRs.Daemon

open Management SortedMap Directory Result

/-- Each live row of `files` is on a tape that belongs to the pool of the row. -/
def Housed (tapes : SortedMap String String) (files : FileTable) : Prop :=
  ∀ pool path row, files.get (toLex (pool, path)) = some row → row.deleted = false → tapes.get row.barcode = some pool

namespace Directory

variable {row : FileRow}

def liveOn (d : Directory) (barcode : String) : Bool :=
  d.files.entries.any fun entry => entry.2.barcode = barcode && !entry.2.deleted

variable {d : Directory}

theorem ne_of_not_liveOn {barcode : String} (bare : d.liveOn barcode = false) {key : String ×ₗ String}
    (there : d.files.get key = some row) (live : row.deleted = false) : row.barcode ≠ barcode := by
  intro same
  have dead := List.any_eq_false.mp bare _ (mem_entries.mpr there)
  simp [same, live] at dead

theorem merging_housed {plan : Plan} {barcode : String} {generation : UInt64} {full : Bool} {pool path : String}
    (filed : (toLex (pool, path), row) ∈ (d.merging plan barcode generation full).entries) :
    row.barcode = barcode ∧ (d.tapes.get barcode).map TapeRow.poolUuid = some pool := by
  unfold merging at filed
  dsimp only at filed
  split at filed
  · cases filed
  rename_i tape there
  obtain ⟨staged, member, same⟩ := List.mem_map.mp filed
  have chosen := (List.mem_filter.mp ((plan.staged_perm _).mem_iff.mp member)).1
  have ours := (List.mem_filter.mp chosen).2
  simp only [Bool.and_eq_true, decide_eq_true_eq] at ours
  simp only [Prod.mk.injEq, toLex_inj] at same
  obtain ⟨⟨rfl, _⟩, rfl⟩ := same
  exact ⟨ours.1, by rw [there, Option.map_some]⟩

theorem catalog_source {plan : Plan} {cmd : Command} {outcome : Applied} {pool path : String}
    (there : (d.catalog plan cmd outcome).files.get (toLex (pool, path)) = some row) :
    d.files.get (toLex (pool, path)) = some row ∨
      (outcome = .catalogCommitted ∧ (d.tapes.get row.barcode).map TapeRow.poolUuid = some pool) := by
  unfold catalog at there
  split at there
  · exact .inl there
  · unfold commitTape at there
    dsimp only at there
    split at there
    · rcases upsertAll_source there with filed | kept
      · obtain ⟨rfl, housed⟩ := merging_housed filed
        exact .inr ⟨rfl, housed⟩
      · rw [get_recede] at kept
        exact .inl (Option.filter_eq_some_iff.mp kept).1
    · exact .inl there
  · simp only [reclaimTape, get_filter] at there
    exact .inl (Option.filter_eq_some_iff.mp there).1
  · exact .inl there

end Directory

theorem Reform.tapes_of_committed {c after : ControlState} {index : UInt64} {effect : Command × Applied}
    (reform : Reform index c after effect) (committed : effect.2 = .catalogCommitted) : after.tapes = c.tapes := by
  cases reform with
  | quiet _ _ _ _ tapes _ => exact tapes
  | _ => cases committed

namespace Node

/-- A command that takes a tape out of its pool finds no live row on the tape. -/
def sparesFiles (n : Node) : Command → Bool
  | .executorReport _ _ _ _ command => n.sparesFiles command
  | .tapeUnassign barcode => !n.directory.liveOn barcode
  | .managementReport task _ _ _ =>
    let r := ((n.ctl.management.field "tasks").field (Text.decimal task)).field "request"
    requestText r "resource" ≠ "tapes" || requestText r "action" ≠ "unassign" ||
      !n.directory.liveOn (requestText r "target")
  | _ => true

def Meets (plan : UInt64 → Plan) (condition : Node → Entry → Bool) : Node → List Entry → Bool
  | _, [] => true
  | n, entry :: rest =>
    condition n entry &&
      match n.apply plan entry with
      | .ok next => Meets plan condition next rest
      | .error _ => true

variable {plan : UInt64 → Plan} {n next : Node} {entry : Entry}

theorem meets_snoc {condition : Node → Entry → Bool} {start : Node} {log : List Entry}
    (ran : log.foldlM (apply plan) start = .ok n) :
    Meets plan condition start (log ++ [entry]) = (Meets plan condition start log && condition n entry) := by
  induction log generalizing start with
  | nil =>
    cases ran
    simp only [List.nil_append, Meets]
    split <;> simp
  | cons first rest ih =>
    obtain ⟨after, done, ran⟩ := bind_ok.mp ran
    simp only [List.cons_append, Meets, done, ih ran, Bool.and_assoc]

theorem housed_kept (tidy : Tidy n.ctl) {after : ControlState} {index : UInt64} {effect : Command × Applied}
    (reform : Reform index n.ctl after effect) (spares : n.sparesFiles effect.1) {key : String ×ₗ String} {row : FileRow}
    (there : n.directory.files.get key = some row) (live : row.deleted = false) {pool : String}
    (housed : n.ctl.tapes.get row.barcode = some pool) : after.tapes.get row.barcode = some pool := by
  have inserted : ∀ {barcode uuid : String}, n.ctl.tapes.get barcode = none →
      (n.ctl.tapes.insert barcode uuid).get row.barcode = some pool := by
    intro barcode uuid free
    rw [get_insert, if_neg]
    · exact housed
    · rintro same
      rw [same, free] at housed
      cases housed
  have erased : ∀ {barcode : String}, n.directory.liveOn barcode = false →
      (n.ctl.tapes.erase barcode).get row.barcode = some pool := by
    intro barcode bare
    rw [get_erase, if_neg (ne_of_not_liveOn bare there live)]
    exact housed
  cases reform with
  | quiet _ _ _ _ tapes _ | create _ _ _ _ tapes _ => rw [tapes, housed]
  | freeze _ _ _ tapes _ => rw [tapes, housed]
  | delete _ _ _ _ _ tapes _ => rw [tapes, housed]
  | set _ _ _ _ _ _ tapes _ => rw [tapes, housed]
  | assign _ _ free _ _ tapes _ =>
    rw [tapes]
    exact inserted free
  | unassign _ _ tapes _ =>
    rw [tapes]
    exact erased (by simpa [sparesFiles] using spares)
  | enrol asks _ _ tapes _ =>
    rcases tapes with ⟨_, _, tapes⟩ | tapes
    · rw [tapes]
      exact inserted (tidy.free asks)
    · rw [tapes, housed]
  | release asks _ _ tapes _ =>
    rw [tapes]
    apply erased
    have request := asks.request
    obtain ⟨_, resource, action⟩ := asks
    simpa [sparesFiles, request, resource, action] using spares

theorem housed_step (inStep : n.InStep) (housed : Housed n.ctl.tapes n.directory.files)
    (later : n.directory.applied < entry.1) (spares : n.sparesFiles entry.2) (done : n.apply plan entry = .ok next) :
    Housed next.ctl.tapes next.directory.files := by
  have reform := inStep.reform entry
  have spares := unwrap_holds (fun _ _ _ _ _ => rfl) entry.2 (n.ctl.apply entry.1 entry.2).2 spares
  obtain ⟨ctl, written⟩ := apply_ok done
  rw [← ctl] at reform
  rw [apply_unwrap] at written
  generalize unwrap entry.2 _ = effect at reform spares written
  intro pool path row there live
  have kept : n.directory.files.get (toLex (pool, path)) = some row → next.ctl.tapes.get row.barcode = some pool :=
    fun old => housed_kept inStep.tidy reform spares old live (housed pool path row old live)
  rcases applyDirect_catalog later written with ⟨_, files, _⟩ | ⟨_, files, _⟩
  · rw [files] at there
    exact kept there
  rw [files] at there
  rcases catalog_source there with old | ⟨committed, assigned⟩
  · exact kept old
  · rw [reform.tapes_of_committed committed, ← inStep.rows.tapes]
    exact assigned

/-- As long as names are clear, and no tape leaves its pool while live rows are on it, every live row of `files` is on a
    tape that the control state assigns to the pool of the row. -/
theorem live_files_housed {log : List Entry} (ascending : Ascending 0 log)
    (clear : Daemon.Meets (fun c entry => c.namesPools entry.2) {} log)
    (spares : Meets plan (fun n entry => n.sparesFiles entry.2) {} log) (ran : replay plan log = .ok n) :
    Housed (Daemon.replay log).tapes n.directory.files := by
  induction log using List.reverseRecOn generalizing n with
  | nil =>
    cases ran
    rintro _ _ _ ⟨⟩
  | append_singleton log entry ih =>
    obtain ⟨before, later, _⟩ := ascending_append.mp ascending
    have whole := (replay_ok ascending ran).1
    rw [replay_snoc] at ran
    obtain ⟨prior, ranBefore, done⟩ := bind_ok.mp ran
    obtain ⟨ctl, applied⟩ := replay_ok before ranBefore
    rw [meets_append, Bool.and_eq_true] at clear
    rw [meets_snoc ranBefore, Bool.and_eq_true] at spares
    have housed := ih before clear.1 spares.1 ranBefore
    rw [← ctl] at housed
    rw [← whole]
    exact housed_step (replay_inStep before clear.1 ranBefore) housed (applied ▸ later) spares.2 done

def reportsFile : List Entry :=
  [(1, .candidate 1 1 1 "lib" 1 true), (2, .assignExecutor 1 1 1 none "lib"),
   (3, .executorReport 1 1 2 1 (.fenced 1 2)), (4, .executorReport 1 1 2 2 (.executorReady 1 2)),
   (5, .poolCreate "u1" "a" 10), (6, .tapeAssign "T1" "a"),
   (7, .executorReport 1 1 2 3 (.catalogPart "T1" 1 0
     [{ path := "/f", length := 5, sha256 := "", version := (1, 1), deleted := false, metadata := .null }])),
   (8, .executorReport 1 1 2 4 (.tapeCommitted "T1" "v1" 1 1 5 5 1 false))]

def unassignsTape : List Entry :=
  [(9, .manage (.ofFields [("resource", .string "tapes"), ("action", .string "unassign"), ("target", .string "T1"),
     ("params", .object [])])),
   (10, .executorReport 1 1 2 5 (.managementReport 9 2 "running" .null)),
   (11, .executorReport 1 1 2 6 (.managementReport 9 2 "success" .null))]

/-- There is a live row, in the pool of its tape. -/
theorem live_files_housed_reported : ∃ n row, replay (fun _ => .inOrder) reportsFile = .ok n ∧
    n.directory.files.get (toLex ("u1", "/f")) = some row ∧ row.deleted = false ∧
    Housed (Daemon.replay reportsFile).tapes n.directory.files := by
  have runs : passes (replay (fun _ => .inOrder) reportsFile) (fun n =>
      (n.directory.files.get (toLex ("u1", "/f"))).any fun row => !row.deleted) := by decide +kernel
  obtain ⟨n, ran, test⟩ := passes_iff.mp runs
  obtain ⟨row, there, live⟩ := (Option.any_eq_true _ _).mp test
  have clear : Daemon.Meets (fun c entry => c.namesPools entry.2) {} reportsFile := by decide +kernel
  have spares : Meets (fun _ => .inOrder) (fun n entry => n.sparesFiles entry.2) {} reportsFile := by decide +kernel
  exact ⟨n, row, ran, there, by simpa using live, live_files_housed (by decide) clear spares ran⟩

/-- The task takes the tape out of its pool and leaves the live row behind. -/
theorem unassign_leaves_live_file : ∃ n row, replay (fun _ => .inOrder) (reportsFile ++ unassignsTape) = .ok n ∧
    n.directory.files.get (toLex ("u1", "/f")) = some row ∧ row.deleted = false ∧
    n.ctl.tapes.get row.barcode = none := by
  have runs : passes (replay (fun _ => .inOrder) (reportsFile ++ unassignsTape)) (fun n =>
      (n.directory.files.get (toLex ("u1", "/f"))).any fun row =>
        !row.deleted && !n.ctl.tapes.contains row.barcode) := by decide +kernel
  obtain ⟨n, ran, test⟩ := passes_iff.mp runs
  obtain ⟨row, there, left⟩ := (Option.any_eq_true _ _).mp test
  simp only [Bool.and_eq_true, Bool.not_eq_true', contains, Option.isSome_eq_false_iff,
    Option.isNone_iff_eq_none] at left
  exact ⟨n, row, ran, there, left.1, left.2⟩

end Node

end TapeRs.Daemon
