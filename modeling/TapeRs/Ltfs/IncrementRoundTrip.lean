import TapeRs.Ltfs.FullRoundTrip

open TapeRs.Keyed

namespace TapeRs.Ltfs

open List

namespace Incremental

open DirectoryNode IndexParser

section Kept

variable {old : DirectoryNode}

/-- A file that replaces one of its name and identifier keeps or sets the flag of an open one. -/
def keepsOpen (old : DirectoryNode) (file : FileNode) : Bool :=
  match old.fileAt file.name with
  | some prior =>
    prior.nodeMeta.fileUid ≠ file.nodeMeta.fileUid || prior.openForWrite.isNone || file.openForWrite.isSome
  | none => true

mutual
def openKept (new old : DirectoryNode) : Bool :=
  match new with
  | ⟨_, _, _, files, subdirs, _⟩ => files.all (keepsOpen old) && openKeptIn subdirs old

def openKeptIn : List DirectoryNode → DirectoryNode → Bool
  | [], _ => true
  | dir :: rest, old =>
    (match priorOf old dir with
      | some prior => openKept dir prior
      | none => true) && openKeptIn rest old
end

theorem openKeptIn_eq (dirs : List DirectoryNode) (old : DirectoryNode) :
    openKeptIn dirs old = true ↔ ∀ dir ∈ dirs, ∀ prior, priorOf old dir = some prior → openKept dir prior = true := by
  induction dirs with
  | nil => simp [openKeptIn]
  | cons dir rest ih =>
    rw [openKeptIn, Bool.and_eq_true, ih, forall_mem_cons]
    cases priorOf old dir <;> simp

theorem openKept_eq (new old : DirectoryNode) :
    openKept new old = true ↔ (∀ file ∈ new.files, keepsOpen old file = true) ∧
      ∀ dir ∈ new.subdirs, ∀ prior, priorOf old dir = some prior → openKept dir prior = true := by
  cases new
  rw [openKept, Bool.and_eq_true, all_eq_true, openKeptIn_eq]

theorem carryFile_eq_self {file : FileNode} : carryFile old file = file ↔ keepsOpen old file = true := by
  unfold carryFile keepsOpen
  cases old.fileAt file.name with
  | none => simp
  | some prior =>
    by_cases uid : prior.nodeMeta.fileUid = file.nodeMeta.fileUid
    · simp only [uid, ne_eq, not_true_eq_false, decide_false, Bool.false_or]
      cases file
      rename_i flag _ _ _ _ _ _
      cases prior.openForWrite <;> cases flag <;> simp
    · simp [uid]

theorem carry_of_kept {new : DirectoryNode} (kept : openKept new old = true) : carry new old = new := by
  induction new using inductionOn generalizing old with
  | node new ih =>
    obtain ⟨fileKept, dirKept⟩ := (openKept_eq new old).mp kept
    have files : new.files.map (carryFile old) = new.files := by
      conv => rhs; rw [← map_id new.files]
      exact map_congr_left fun file member => carryFile_eq_self.mpr (fileKept file member)
    have dirs : new.subdirs.map (carryDir old) = new.subdirs := by
      conv => rhs; rw [← map_id new.subdirs]
      apply map_congr_left
      intro dir member
      unfold carryDir
      cases found : priorOf old dir with
      | none => rfl
      | some prior => exact ih dir member (dirKept dir member prior found)
    rw [carry_eq, files, dirs]
    cases new
    rfl

theorem kept_of_same {new merged : DirectoryNode} (unique : new.UniqueNames) (same : Same new merged)
    (carried : Same (carry new old) merged) : openKept new old = true := by
  induction new using inductionOn generalizing old merged with
  | node new ih =>
    have distinct := carry_distinct old unique.here
    apply (openKept_eq new old).mpr
    constructor
    · intro file member
      have found : new.fileAt file.name = some file := (lookup_eq_some unique.here.files).mpr ⟨member, rfl⟩
      have agree := (same.fileAt unique.here file.name).trans (carried.fileAt distinct file.name).symm
      rw [carry_fileAt, found, Option.map_some, Option.some.injEq] at agree
      exact carryFile_eq_self.mp agree.symm
    · intro dir member prior found
      have here : new.dirAt dir.name = some dir := (lookup_eq_some unique.here.subdirs).mpr ⟨member, rfl⟩
      have kept := same.dirAt unique.here dir.name
      have replayed := carried.dirAt distinct dir.name
      rw [here] at kept
      rw [carry_dirAt, here, Option.map_some, carryDir, found] at replayed
      cases mergedDir : merged.dirAt dir.name with
      | none =>
        rw [mergedDir] at kept
        cases kept
      | some child =>
        rw [mergedDir] at kept replayed
        cases kept with
        | some dirSame =>
          cases replayed with
          | some carriedSame => exact ih dir member (unique.below member) dirSame carriedSame

theorem carry_uids (new old : DirectoryNode) : (carry new old).uids = new.uids := by
  induction new using inductionOn generalizing old with
  | node new ih =>
    have files : (new.files.map (carryFile old)).map (fun file => file.nodeMeta.fileUid) =
        new.files.map (fun file => file.nodeMeta.fileUid) := by
      simp [(carryFile_header old _).2]
    have dirs : (new.subdirs.map (carryDir old)).flatMap uids = new.subdirs.flatMap uids := by
      rw [flatMap_map]
      apply flatMap_congr
      intro dir member
      unfold carryDir
      cases priorOf old dir with
      | none => rfl
      | some prior => exact ih dir member prior
    rw [uids_eq, uids_eq, carry_eq]
    simp only [files, dirs]

end Kept

section Fits

mutual
def changesFit (depth : Nat) (new old : DirectoryNode) : Bool :=
  match new with
  | ⟨_, _, nodeMeta, files, subdirs, xattrs⟩ =>
    decide (depth + 1 < nestingLimit) &&
      (decide (nodeMeta = old.nodeMeta ∧ xattrs = old.xattrs) || xattrs.isEmpty || decide (depth + 3 < nestingLimit)) &&
      files.all (fun file => decide (old.fileAt file.name = some file) || decide (FileFits (depth + 2) file)) &&
      ((names old).all (fun name => decide (name ∈ files.map (·.name) ++ subdirs.map (·.name))) ||
        decide (depth + 3 < nestingLimit)) &&
      changesFitIn (depth + 2) subdirs old

def changesFitIn (depth : Nat) : List DirectoryNode → DirectoryNode → Bool
  | [], _ => true
  | dir :: rest, old =>
    (match priorOf old dir with
      | some prior => decide (prior = dir) || changesFit depth dir prior
      | none => dirFits depth dir) && changesFitIn depth rest old
end

def entryFits (depth : Nat) (old dir : DirectoryNode) : Prop :=
  ∀ entry, diffDir old dir = some entry → dirFits depth entry = true

theorem changesFitIn_eq (depth : Nat) (old : DirectoryNode) {dirs : List DirectoryNode}
    (each : ∀ dir ∈ dirs, ∀ prior, priorOf old dir = some prior →
      (changesFit depth dir prior = true ↔ dirFits depth (difference dir prior) = true)) :
    changesFitIn depth dirs old = true ↔ ∀ dir ∈ dirs, entryFits depth old dir := by
  induction dirs with
  | nil => simp [changesFitIn]
  | cons dir rest ih =>
    have later := ih fun other member => each other (mem_cons_of_mem _ member)
    have head := each dir (by simp)
    rw [changesFitIn, Bool.and_eq_true, later, forall_mem_cons, entryFits, diffDir]
    cases found : priorOf old dir with
    | none => simp
    | some prior =>
      by_cases same : prior = dir
      · simp [same]
      · simp [same, head prior found]

theorem fileDeletion_fits (depth : Nat) (name : String) : FileFits depth (fileDeletion name) ↔ depth + 1 < nestingLimit := by
  simp [FileFits, fileDeletion]

theorem dirDeletion_fits (depth : Nat) (name : String) :
    dirFits depth (dirDeletion name) = true ↔ depth + 1 < nestingLimit := by
  rw [dirFits_eq]
  simp [dirDeletion]

theorem changesFit_eq (depth : Nat) (new old : DirectoryNode) :
    changesFit depth new old = true ↔ depth + 1 < nestingLimit ∧
      (¬ (new.nodeMeta = old.nodeMeta ∧ new.xattrs = old.xattrs) → new.xattrs ≠ [] → depth + 3 < nestingLimit) ∧
      (∀ file ∈ new.files, old.fileAt file.name ≠ some file → FileFits (depth + 2) file) ∧
      (∀ name ∈ names old, name ∉ names new → depth + 3 < nestingLimit) ∧
      changesFitIn (depth + 2) new.subdirs old = true := by
  cases new with
  | mk deltaFields name nodeMeta files subdirs xattrs =>
    rw [changesFit]
    simp only [Bool.and_eq_true, Bool.or_eq_true, decide_eq_true_eq, List.all_eq_true, List.isEmpty_iff, and_assoc, names]
    have fits : ∀ file : FileNode, (old.fileAt file.name = some file ∨ FileFits (depth + 2) file) ↔
        (old.fileAt file.name ≠ some file → FileFits (depth + 2) file) := fun _ => or_iff_not_imp_left
    have header : (((nodeMeta = old.nodeMeta ∧ xattrs = old.xattrs) ∨ xattrs = []) ∨ depth + 3 < nestingLimit) ↔
        (¬ (nodeMeta = old.nodeMeta ∧ xattrs = old.xattrs) → xattrs ≠ [] → depth + 3 < nestingLimit) := by tauto
    have removals : ∀ before kept : List String, ((∀ name ∈ before, name ∈ kept) ∨ depth + 3 < nestingLimit) ↔
        ∀ name ∈ before, name ∉ kept → depth + 3 < nestingLimit := by
      intro before kept
      by_cases room : depth + 3 < nestingLimit <;> simp [room]
    rw [header, removals]
    simp only [fits]

theorem changesFit_difference {new old : DirectoryNode} (newUnique : new.UniqueNames) (oldUnique : old.UniqueNames)
    (depth : Nat) : changesFit depth new old = true ↔ dirFits depth (difference new old) = true := by
  induction new using inductionOn generalizing old depth with
  | node new ih =>
    obtain ⟨-, -, xattrs, fields⟩ := difference_header new old
    have collects : ∀ name, collected (·.name) name old.files = old.fileAt name := fun name =>
      collected_eq_lookup name oldUnique.here.files
    have below : ∀ dir ∈ new.subdirs, ∀ prior, priorOf old dir = some prior →
        (changesFit (depth + 2) dir prior = true ↔ dirFits (depth + 2) (difference dir prior) = true) := by
      intro dir member prior found
      have priorMember := (lookup_member (priorOf_some.mp found).1).1
      exact ih dir member (newUnique.below member) (oldUnique.below priorMember) (depth + 2)
    have header : (difference new old).deltaFields = none ↔
        ¬ (new.nodeMeta = old.nodeMeta ∧ new.xattrs = old.xattrs) := by
      rw [fields]
      split <;> simp_all [Fields.navigation]
    have files : (∀ file ∈ (difference new old).files, FileFits (depth + 2) file) ↔
        (∀ file ∈ new.files, old.fileAt file.name ≠ some file → FileFits (depth + 2) file) ∧
          ∀ file ∈ old.files, file.name ∉ names new → depth + 3 < nestingLimit := by
      rw [difference_files, forall_mem_append]
      simp only [forall_mem_map, mem_filter, decide_eq_true_eq, collects, and_imp]
      have deletion : ∀ file : FileNode, FileFits (depth + 2) (deletedFile file) ↔ depth + 3 < nestingLimit :=
        fun file => fileDeletion_fits (depth + 2) file.name
      simp only [deletion]
    have dirs : (∀ child ∈ (difference new old).subdirs, dirFits (depth + 2) child = true) ↔
        (∀ dir ∈ new.subdirs, entryFits (depth + 2) old dir) ∧
          ∀ dir ∈ old.subdirs, dir.name ∉ names new → depth + 3 < nestingLimit := by
      rw [difference_subdirs, forall_mem_append]
      have deletion : ∀ dir : DirectoryNode, dirFits (depth + 2) (deletedDir dir) = true ↔ depth + 3 < nestingLimit :=
        fun dir => dirDeletion_fits (depth + 2) dir.name
      simp only [forall_mem_map, mem_filter, decide_eq_true_eq, and_imp, deletion,
        mem_differences oldUnique.here, forall_exists_index]
      constructor
      · rintro ⟨entries, gone⟩
        exact ⟨fun dir member entry found => entries entry dir member found, gone⟩
      · rintro ⟨entries, gone⟩
        exact ⟨fun entry dir member found => entries dir member entry found, gone⟩
    have removals : (∀ name ∈ names old, name ∉ names new → depth + 3 < nestingLimit) ↔
        (∀ file ∈ old.files, file.name ∉ names new → depth + 3 < nestingLimit) ∧
          ∀ dir ∈ old.subdirs, dir.name ∉ names new → depth + 3 < nestingLimit := by
      conv => lhs; rw [names]
      rw [forall_mem_append, forall_mem_map, forall_mem_map]
    rw [changesFit_eq, dirFits_eq, header, xattrs, files, dirs, changesFitIn_eq (depth + 2) old below, removals]
    constructor
    · rintro ⟨room, attributed, changed, ⟨goneFiles, goneDirs⟩, entries⟩
      exact ⟨room, attributed, ⟨changed, goneFiles⟩, entries, goneDirs⟩
    · rintro ⟨room, attributed, ⟨changed, goneFiles⟩, entries, goneDirs⟩
      exact ⟨room, attributed, changed, ⟨goneFiles, goneDirs⟩, entries⟩

end Fits

end Incremental

namespace LtfsIndex

open DirectoryNode Incremental IndexParser IndexWriter

variable {crates : Crates}

theorem validateIncremental_ok (index : LtfsIndex) (incremental : index.incremental = true) :
    index.validateIncremental = .ok () ↔ index.version = "2.5.0" ∧ index.generation ≠ 0 ∧
      index.previousLocation.isSome = true ∧
      (∀ place ∈ [index.previousLocation, index.previousIncrementalLocation].reduceOption,
        place.partition = index.selfLocation.partition ∧ place.startBlock < index.selfLocation.startBlock) ∧
      index.unknownElements = [] ∧ validateDir index.root true = .ok () := by
  unfold validateIncremental
  rw [incremental]
  simp only [Bool.not_true, Bool.false_eq_true, if_false]
  split
  · rename_i refused
    simp only [Bool.or_eq_true, decide_eq_true_eq, Option.isNone_iff_eq_none] at refused
    constructor
    · simp
    · rintro ⟨version, generation, previous, -⟩
      rcases refused with (other | zero) | missing
      · exact absurd version other
      · exact absurd zero generation
      · simp [missing] at previous
  · rename_i accepted
    simp only [Bool.or_eq_true, decide_eq_true_eq, not_or, not_not, Option.isNone_iff_eq_none] at accepted
    obtain ⟨⟨version, generation⟩, previous⟩ := accepted
    have somewhere : index.previousLocation.isSome = true := Option.isSome_iff_ne_none.mpr previous
    simp only [version, generation, somewhere, ne_eq, not_false_eq_true, true_and]
    split
    · rename_i misplaced
      simp only [any_eq_true, Bool.or_eq_true, decide_eq_true_eq] at misplaced
      obtain ⟨place, member, wrong⟩ := misplaced
      constructor
      · simp
      · rintro ⟨places, -⟩
        rcases wrong with other | late
        · exact absurd (places place member).1 other
        · exact absurd (places place member).2 (UInt64.not_lt.mpr late)
    · rename_i placed
      simp only [any_eq_true, Bool.or_eq_true, decide_eq_true_eq, not_exists, not_and, not_or, not_not,
        UInt64.not_le] at placed
      split
      · rename_i unknown
        simp only [Bool.not_eq_true', isEmpty_eq_false_iff] at unknown
        simp [unknown]
      · rename_i known
        simp only [Bool.not_eq_true', isEmpty_eq_false_iff, ne_eq, not_not] at known
        simp only [known, true_and]
        exact ⟨fun valid => ⟨placed, valid⟩, fun both => both.2⟩

theorem escape_version : Xml.escape "2.5.0" = "2.5.0" := by decide

theorem validateIncremental_stored {index : LtfsIndex} (incremental : index.incremental = true)
    (entries : TreeEntry true index.root) (valid : index.validateIncremental = .ok ()) :
    (storedIndex index).validateIncremental = .ok () := by
  obtain ⟨version, generation, previous, places, -, tree⟩ := (validateIncremental_ok index incremental).mp valid
  have kind : (storedIndex index).incremental = true := incremental
  apply (validateIncremental_ok _ kind).mpr
  have storedVersion : (storedIndex index).version = "2.5.0" := by
    simp only [storedIndex, version, escape_version]
    rfl
  have root : (storedIndex index).root = storedDir true index.root := by rw [storedIndex, incremental]
  rw [root, validateDir_stored entries]
  exact ⟨storedVersion, generation, previous, places, rfl, tree⟩

/-- What two views need for the increment between them to bring the newer tree back from its document. -/
structure Reproducible (base new : LtfsIndex) : Prop where
  rootUid : new.root.nodeMeta.fileUid = base.root.nodeMeta.fileUid
  monotone : base.highestFileUid ≤ new.highestFileUid
  lettered : new.selfLocation.partition.isAlpha = true
  nested : changesFit 1 new.root base.root = true
  kept : openKept new.root base.root = true

instance (base new : LtfsIndex) : Decidable (Reproducible base new) :=
  decidable_of_iff
    (new.root.nodeMeta.fileUid = base.root.nodeMeta.fileUid ∧ base.highestFileUid ≤ new.highestFileUid ∧
      new.selfLocation.partition.isAlpha = true ∧ changesFit 1 new.root base.root = true ∧
      openKept new.root base.root = true)
    ⟨fun ⟨rootUid, monotone, lettered, nested, kept⟩ => ⟨rootUid, monotone, lettered, nested, kept⟩,
      fun ⟨rootUid, monotone, lettered, nested, kept⟩ => ⟨rootUid, monotone, lettered, nested, kept⟩⟩

variable {base new delta : LtfsIndex}

theorem incrementalDelta_entries (baseView : base.FullView) (newView : new.FullView) (trimmed : Trimmed new.root) :
    TreeEntry true (new.incrementalDelta base).root :=
  treeEntry_difference newView.full newView.links trimmed baseView.names

theorem parse_increment (rereads : crates.Rereads (document crates (new.incrementalDelta base)))
    (uuid : crates.UuidText) (baseView : base.FullView) (newView : new.FullView) (trimmed : Trimmed new.root)
    (valid : (new.incrementalDelta base).validateIncremental = .ok ()) (parsed : LtfsIndex) :
    LtfsIndex.parse crates (crates.xmlWrite (document crates (new.incrementalDelta base))) = .ok parsed ↔
      new.selfLocation.partition.isAlpha = true ∧ changesFit 1 new.root base.root = true ∧
        storedIndex (new.incrementalDelta base) = parsed := by
  have entries := incrementalDelta_entries baseView newView trimmed
  obtain ⟨-, -, previous, places, -, -⟩ := (validateIncremental_ok (new.incrementalDelta base) rfl).mp valid
  have lettered : (∀ item ∈ headerItems crates (new.incrementalDelta base), item.Lettered) ↔
      new.selfLocation.partition.isAlpha = true := by
    rw [headerItems_lettered]
    constructor
    · exact And.left
    · intro letter
      refine ⟨letter, fun place member => ?_⟩
      rw [(places place member).1]
      exact letter
  have stored := validateIncremental_stored rfl entries valid
  have nested : dirFits 1 (new.incrementalDelta base).root = true ↔ changesFit 1 new.root base.root = true :=
    (changesFit_difference newView.names baseView.names 1).symm
  rw [parse_document rereads uuid entries, lettered, nested]
  simp only [previous, stored, implies_true, true_and]

theorem rootUid_of_titled {titled : DirectoryNode}
    (titles : mergeDirectoryMetadata (removeDeleted base.root (storedDir true (difference new.root base.root)))
      (storedDir true (difference new.root base.root)) true = .ok titled) :
    new.root.nodeMeta.fileUid = base.root.nodeMeta.fileUid := by
  have header := removeDeleted_header base.root (storedDir true (difference new.root base.root))
  obtain ⟨-, described, -, -⟩ := dirElements_has
  rcases Form.stored.difference_header new.root base.root with ⟨-, unchanged, -⟩ | ⟨fields, nodeMeta, -⟩
  · rw [unchanged]
  dsimp only [Form.stored] at fields nodeMeta
  rw [mergeDirectoryMetadata, fields, described "fileuid" (by decide), header.nodeMeta, nodeMeta] at titles
  by_contra differs
  rw [if_pos (by simp [Ne.symm differs])] at titles
  cases titles

theorem applyIncremental_accepted {applied : LtfsIndex} (recorded : new.highestFileUid ≠ 0)
    (accepted : base.applyIncremental (storedIndex (new.incrementalDelta base)) = .ok applied) :
    new.root.nodeMeta.fileUid = base.root.nodeMeta.fileUid ∧ base.highestFileUid ≤ new.highestFileUid := by
  unfold applyIncremental at accepted
  simp only [Result.bind_ok] at accepted
  obtain ⟨-, -, accepted⟩ := accepted
  split at accepted
  · simp [throw, throwThe, MonadExceptOf.throw] at accepted
  rename_i matched
  simp only [Bool.or_eq_true, decide_eq_true_eq, Bool.and_eq_true, not_or, not_and, UInt64.not_lt] at matched
  obtain ⟨-, highest⟩ := matched
  refine ⟨?_, (highest recorded).2⟩
  split at accepted
  · simp [throw, throwThe, MonadExceptOf.throw] at accepted
  · simp only [Result.bind_ok, mergeDir_eq] at accepted
    obtain ⟨merged, ⟨titled, titles, -⟩, -⟩ := accepted
    exact rootUid_of_titled titles

theorem applyIncremental_stored (baseView : base.FullView) (newView : new.FullView) (trimmed : Trimmed new.root)
    (recorded : new.incrementalSince base = .ok delta) (rootUid : new.root.nodeMeta.fileUid = base.root.nodeMeta.fileUid)
    (monotone : base.highestFileUid ≤ new.highestFileUid) :
    ∃ root, Same (carry new.root base.root) root ∧
      base.applyIncremental (storedIndex delta) = .ok (base.replayed (storedIndex delta) root) := by
  obtain ⟨volume, generation, rfl, valid⟩ := incrementalSince_ok.mp recorded
  have stored := validateIncremental_stored rfl (incrementalDelta_entries baseView newView trimmed) valid
  have replays : Replays (storedDir true (difference new.root base.root)) base.root (carry new.root base.root) true :=
    Form.stored.difference_replays newView.full newView.names baseView.names newView.links rootUid nofun
  have uids := carry_uids new.root base.root
  exact applyIncremental_replays stored rfl volume generation (fun _ => ⟨baseView.recorded, monotone⟩) rfl rfl
    replays (.refl _) (uids ▸ newView.validUids) (uids ▸ newView.distinct)

/-- Through its document an increment brings back the newer tree exactly for reproducible views. -/
theorem parse_applyIncremental {xml : List UInt8} (rereads : crates.Rereads (document crates delta))
    (uuid : crates.UuidText) (baseView : base.FullView) (newView : new.FullView) (trimmed : Trimmed new.root)
    (recorded : new.incrementalSince base = .ok delta) (written : delta.toXml crates = .ok xml) :
    (∃ parsed applied, LtfsIndex.parse crates xml = .ok parsed ∧ base.applyIncremental parsed = .ok applied ∧
      Same new.root applied.root) ↔ Reproducible base new := by
  obtain ⟨volume, generation, rfl, valid⟩ := incrementalSince_ok.mp recorded
  obtain rfl : crates.xmlWrite (document crates (new.incrementalDelta base)) = xml := by
    simpa [toXml, incrementalDelta] using written
  have parses := parse_increment rereads uuid baseView newView trimmed valid
  have replay := applyIncremental_stored baseView newView trimmed recorded
  constructor
  · rintro ⟨parsed, applied, parsedOk, appliedOk, same⟩
    obtain ⟨lettered, nested, rfl⟩ := (parses parsed).mp parsedOk
    obtain ⟨rootUid, monotone⟩ := applyIncremental_accepted newView.recorded appliedOk
    obtain ⟨root, carried, ran⟩ := replay rootUid monotone
    rw [ran, Except.ok.injEq] at appliedOk
    subst appliedOk
    exact ⟨rootUid, monotone, lettered, nested, kept_of_same newView.names same carried⟩
  · intro reproducible
    obtain ⟨root, carried, ran⟩ := replay reproducible.rootUid reproducible.monotone
    rw [carry_of_kept reproducible.kept] at carried
    exact ⟨_, _, (parses _).mpr ⟨reproducible.lettered, reproducible.nested, rfl⟩, ran, carried⟩

def openBase : LtfsIndex :=
  { version := ltfsVersion, creator := "", volumeUuid := 7, generation := 1, updateTime := "", highestFileUid := 2
    selfLocation := { partition := 'b', startBlock := 5 }
    root := { nodeMeta := { fileUid := 1 }
              files := [{ name := "a", nodeMeta := { fileUid := 2 }, openForWrite := some true }] } }

def closedNew : LtfsIndex :=
  { openBase with
    generation := 2
    selfLocation := { partition := 'b', startBlock := 20 }
    root := { nodeMeta := { fileUid := 1 }, files := [{ name := "a", nodeMeta := { fileUid := 2 } }] } }

/-- The document has no element for a flag that was taken away, so the replay keeps it. -/
theorem parse_applyIncremental_open : openBase.FullView ∧ closedNew.FullView ∧ Trimmed closedNew.root ∧
    ∃ delta xml parsed applied, closedNew.incrementalSince openBase = .ok delta ∧
      delta.toXml Crates.reference = .ok xml ∧ LtfsIndex.parse Crates.reference xml = .ok parsed ∧
      openBase.applyIncremental parsed = .ok applied ∧ ¬ Same closedNew.root applied.root := by
  have baseView : openBase.FullView := by decide
  have newView : closedNew.FullView := by decide
  have trimmed : Trimmed closedNew.root := by decide
  have valid : (closedNew.incrementalDelta openBase).validateIncremental = .ok () := by decide
  have parses := parse_increment (Crates.reference_faithful.rereads _) Crates.reference_faithful.uuid baseView newView
    trimmed valid (storedIndex (closedNew.incrementalDelta openBase))
  have recorded : closedNew.incrementalSince openBase = .ok (closedNew.incrementalDelta openBase) := rfl
  obtain ⟨root, carried, applied⟩ := applyIncremental_stored baseView newView trimmed recorded rfl (by decide)
  refine ⟨baseView, newView, trimmed, _, _, _, _, recorded, rfl, parses.mpr ⟨by decide, by decide, rfl⟩, applied, ?_⟩
  intro same
  exact absurd (kept_of_same newView.names same carried) (by decide)

theorem parse_applyIncremental_swap :
    ∃ parsed applied, LtfsIndex.parse Crates.reference
        (Crates.reference.xmlWrite (document Crates.reference (swapNew.incrementalDelta swapBase))) = .ok parsed ∧
      swapBase.applyIncremental parsed = .ok applied ∧ Same swapNew.root applied.root :=
  (parse_applyIncremental (Crates.reference_faithful.rereads _) Crates.reference_faithful.uuid (by decide) (by decide)
    (by decide) rfl rfl).mpr (by decide)

end LtfsIndex

end TapeRs.Ltfs
