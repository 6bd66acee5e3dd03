import Mathlib.Data.List.ReduceOption
import TapeRs.Ltfs.IndexRoundTrip
import TapeRs.Ltfs.Reference
import TapeRs.Ltfs.StoredReplay

namespace TapeRs.Ltfs

open DirectoryNode Incremental IndexParser IndexWriter

namespace IndexParser

theorem storedEntry_complete {file : FileNode} (complete : file.deltaFields = none) :
    storedEntry false file = file := by
  cases file
  simp only at complete
  subst complete
  rfl

theorem storedDir_whole {dir : DirectoryNode} (full : dir.Full) : storedDir false dir = dir := by
  induction dir using inductionOn with
  | node dir ih =>
    have files : dir.files.map (storedEntry false) = dir.files := by
      conv => rhs; rw [← List.map_id dir.files]
      apply List.map_congr_left
      intro file member
      exact storedEntry_complete (full.here.2 file member)
    have subdirs : dir.subdirs.map (storedDir false) = dir.subdirs := by
      conv => rhs; rw [← List.map_id dir.subdirs]
      apply List.map_congr_left
      intro child member
      exact ih child member (full.below member)
    have complete := full.here.1
    rw [storedDir_full complete, files, subdirs, recorded, if_neg (by simp), ← complete]
    cases dir
    rfl

end IndexParser

namespace LtfsIndex

variable {crates : Crates}

theorem headerItems_lettered (crates : Crates) (index : LtfsIndex) :
    (∀ item ∈ headerItems crates index, item.Lettered) ↔ index.selfLocation.partition.isAlpha = true ∧
      ∀ place ∈ [index.previousLocation, index.previousIncrementalLocation].reduceOption,
        place.partition.isAlpha = true := by
  have policy : ∀ item ∈ (if index.incremental then [] else
      [HeaderItem.text "allowpolicyupdate" (boolText index.allowPolicyUpdate)]), item.Lettered := by
    split <;> simp [HeaderItem.Lettered]
  have places : ∀ place, place ∈ [index.previousLocation, index.previousIncrementalLocation].reduceOption ↔
      place ∈ index.previousLocation.toList ∨ place ∈ index.previousIncrementalLocation.toList := by
    intro place
    cases index.previousLocation <;> cases index.previousIncrementalLocation <;> simp
  unfold headerItems
  simp only [List.forall_mem_append, List.forall_mem_cons, List.forall_mem_map, HeaderItem.Lettered, List.not_mem_nil,
    false_imp_iff, implies_true, true_and, and_true, places, or_imp, forall_and, and_assoc]
  exact and_congr_right fun _ => and_congr_right fun _ => and_iff_left policy


/-- A full index that a document can carry: complete nodes, letter partitions, trimmed header strings and times,
    symlinks without extents, and no deeper than the reader goes. -/
structure Carried (index : LtfsIndex) : Prop where
  complete : index.incremental = false ∧ index.materialized = false
  known : index.unknownElements = []
  full : index.root.Full
  links : index.root.LinksBare
  times : Trimmed index.root
  header : Text.Trimmed index.creator ∧ Text.Trimmed index.updateTime ∧
    ∀ state ∈ index.volumeLockState, Text.Trimmed state
  letters : index.selfLocation.partition.isAlpha = true ∧
    ∀ place ∈ [index.previousLocation, index.previousIncrementalLocation].reduceOption,
      place.partition.isAlpha = true
  fits : dirFits 1 index.root = true

theorem storedVersion_eq (version : String) :
    (if (Xml.escape version).isEmpty then ltfsVersion else Xml.escape version) = version ↔
      version ≠ "" ∧ Xml.escape version = version := by
  by_cases empty : version = ""
  · subst empty
    decide
  have written : (Xml.escape version).isEmpty = false := by
    rw [Bool.eq_false_iff]
    intro blank
    apply empty
    apply Xml.escape_eq_nil
    rw [String.isEmpty_iff.mp blank]
    rfl
  simp [written, empty]

theorem storedIndex_eq {index : LtfsIndex} (carried : index.Carried) :
    storedIndex index = index ↔ index.version ≠ "" ∧ Xml.escape index.version = index.version := by
  obtain ⟨creator, updateTime, lockState⟩ := carried.header
  have lock : index.volumeLockState.map Text.trim = index.volumeLockState := by
    cases found : index.volumeLockState with
    | none => rfl
    | some state => rw [Option.map_some, lockState state found]
  have same : storedIndex index = { index with
      version := if (Xml.escape index.version).isEmpty then ltfsVersion else Xml.escape index.version } := by
    unfold storedIndex
    rw [lock, creator, updateTime, carried.complete.1, carried.complete.2, carried.known, storedDir_whole carried.full]
    rfl
  rw [same, ← storedVersion_eq index.version]
  constructor
  · intro equal
    exact congrArg LtfsIndex.version equal
  · intro equal
    rw [equal]

/-- A full index comes back from its document unless its version is empty or had to be escaped: the reader takes an
    empty version for a missing one, and does not undo the escaping of the attribute. -/
theorem parse_toXml {index : LtfsIndex} (rereads : crates.Rereads (document crates index)) (uuid : crates.UuidText)
    (carried : index.Carried) :
    (∃ xml, index.toXml crates = .ok xml ∧ LtfsIndex.parse crates xml = .ok index) ↔
      index.version ≠ "" ∧ ∀ c ∈ index.version.toList, c ∉ ['<', '>', '&', '\'', '"'] := by
  have complete := carried.complete.1
  have entries : TreeEntry index.incremental index.root :=
    treeEntry_full carried.full carried.links carried.times index.incremental
  have written : index.toXml crates = .ok (crates.xmlWrite (document crates index)) := by
    rw [toXml, if_neg (by simp [complete])]
  have valid : (storedIndex index).validateIncremental = .ok () := by
    unfold validateIncremental
    rw [if_pos (by simp [storedIndex, complete])]
  have letters := (headerItems_lettered crates index).mpr carried.letters
  have parses : LtfsIndex.parse crates (crates.xmlWrite (document crates index)) = .ok index ↔ _ :=
    parse_document rereads uuid entries
  rw [storedIndex_eq carried, Xml.escape_eq_self] at parses
  rw [written]
  constructor
  · rintro ⟨xml, same, parsed⟩
    obtain rfl := Except.ok.inj same
    exact (parses.mp parsed).2.2.2.2
  · intro version
    exact ⟨_, rfl, parses.mpr ⟨letters, carried.fits, by simp [complete], valid, version⟩⟩

/-- Names with spaces, a percent sign and a control character, and a symlink. -/
def spacedIndex : LtfsIndex :=
  { version := ltfsVersion, creator := "tape-rs", volumeUuid := 7, generation := 1, updateTime := "2026-01-01T00:00:00Z"
    highestFileUid := 4, selfLocation := { partition := 'b', startBlock := 5 }, comment := some " kept "
    root :=
      { nodeMeta := { fileUid := 1 }
        files := [{ name := " 50%\x01 ", nodeMeta := { fileUid := 2 }, symlink := some "../\x7f " }]
        subdirs := [{ name := "d", nodeMeta := { fileUid := 3 }, xattrs := [⟨"a&b", " v ", false⟩]
                      files := [{ name := "<x>", nodeMeta := { fileUid := 4 }, length := 3
                                  extents := [⟨'b', 9, 0, 3, 0⟩] }] }] } }

theorem spacedIndex_carried : spacedIndex.Carried :=
  ⟨by decide, by decide, by decide, by decide, by decide, by decide, by decide, by decide⟩

theorem parse_toXml_spaced : ∃ xml, spacedIndex.toXml Crates.reference = .ok xml ∧
    LtfsIndex.parse Crates.reference xml = .ok spacedIndex :=
  (parse_toXml (Crates.reference_faithful.rereads _) Crates.reference_faithful.uuid spacedIndex_carried).mpr
    ⟨by decide, Xml.escape_eq_self.mp (by decide)⟩

def escapedIndex : LtfsIndex := { spacedIndex with version := "2.4.0&x" }

theorem parse_toXml_escaped : escapedIndex.Carried ∧ ∃ xml, escapedIndex.toXml Crates.reference = .ok xml ∧
    LtfsIndex.parse Crates.reference xml = .ok { escapedIndex with version := "2.4.0&amp;x" } := by
  have carried : escapedIndex.Carried :=
    ⟨by decide, by decide, by decide, by decide, by decide, by decide, by decide, by decide⟩
  have entries : TreeEntry escapedIndex.incremental escapedIndex.root :=
    treeEntry_full carried.full carried.links carried.times _
  have letters := (headerItems_lettered Crates.reference escapedIndex).mpr carried.letters
  have stored : storedIndex escapedIndex = { escapedIndex with version := "2.4.0&amp;x" } := by decide
  exact ⟨carried, _, rfl, (parse_document (Crates.reference_faithful.rereads _) Crates.reference_faithful.uuid
    entries).mpr ⟨letters, carried.fits, by decide, by decide, stored⟩⟩

end LtfsIndex

end TapeRs.Ltfs
