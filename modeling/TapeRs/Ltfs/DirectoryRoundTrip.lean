import TapeRs.Ltfs.FileRoundTrip
import TapeRs.Ltfs.Tree

namespace TapeRs.Ltfs.IndexParser

open Xml IndexWriter Fields

def inDir (p : IndexParser) (dir : DirectoryNode) : IndexParser :=
  { p with dirStack := dir :: p.dirStack, path := "directory" :: p.path }

def dirElements : Finset String := insert "contents" (insert "extendedattributes" dirNames)

def dirDeletion (name : String) : DirectoryNode := { name, deltaFields := Fields.deletion }

mutual
def storedDir (incremental : Bool) (dir : DirectoryNode) : DirectoryNode :=
  match dir with
  | ⟨deltaFields, name, nodeMeta, files, subdirs, xattrs⟩ =>
    { deltaFields := if deltaFields.isSome then deltaFields else recorded incremental dirElements
      name
      nodeMeta := if deltaFields.isSome then {} else nodeMeta
      files := files.map (storedEntry incremental)
      subdirs := storedDirs incremental subdirs
      xattrs := if deltaFields.isSome then [] else xattrs }

def storedDirs (incremental : Bool) : List DirectoryNode → List DirectoryNode
  | [] => []
  | dir :: rest => storedDir incremental dir :: storedDirs incremental rest
end

theorem storedDirs_eq (incremental : Bool) (dirs : List DirectoryNode) :
    storedDirs incremental dirs = dirs.map (storedDir incremental) := by
  induction dirs with
  | nil => rw [storedDirs]; rfl
  | cons dir rest ih => rw [storedDirs, ih, List.map_cons]

mutual
/-- Nesting and partition texts that let a directory be read back at a depth. -/
def dirFits (depth : Nat) (dir : DirectoryNode) : Bool :=
  match dir with
  | ⟨deltaFields, _, _, files, subdirs, xattrs⟩ =>
    decide (depth + 1 < nestingLimit) && (deltaFields.isSome || xattrs.isEmpty || decide (depth + 3 < nestingLimit)) &&
      files.all (fun file => decide (FileFits (depth + 2) file)) && dirsFit (depth + 2) subdirs

def dirsFit (depth : Nat) : List DirectoryNode → Bool
  | [] => true
  | dir :: rest => dirFits depth dir && dirsFit depth rest
end

theorem dirsFit_eq (depth : Nat) (dirs : List DirectoryNode) :
    dirsFit depth dirs = true ↔ ∀ dir ∈ dirs, dirFits depth dir = true := by
  induction dirs with
  | nil => simp [dirsFit]
  | cons dir rest ih => rw [dirsFit, Bool.and_eq_true, ih, List.forall_mem_cons]

theorem dirFits_eq (depth : Nat) (dir : DirectoryNode) :
    dirFits depth dir = true ↔ depth + 1 < nestingLimit ∧
      (dir.deltaFields = none → dir.xattrs ≠ [] → depth + 3 < nestingLimit) ∧
      (∀ file ∈ dir.files, FileFits (depth + 2) file) ∧ ∀ child ∈ dir.subdirs, dirFits (depth + 2) child = true := by
  cases dir with
  | mk deltaFields name nodeMeta files subdirs xattrs =>
    rw [dirFits]
    simp only [Bool.and_eq_true, Bool.or_eq_true, decide_eq_true_eq, List.all_eq_true, dirsFit_eq, and_assoc]
    have attributes : ((deltaFields.isSome = true ∨ xattrs.isEmpty = true) ∨ depth + 3 < nestingLimit) ↔
        (deltaFields = none → xattrs ≠ [] → depth + 3 < nestingLimit) := by
      cases deltaFields <;> cases xattrs <;> simp
    rw [attributes]

/-- What a document may hold as an entry for a directory, apart from its children: a complete directory, or in an
    increment one that only leads to its children, or a removal. -/
def DirEntry (incremental : Bool) (dir : DirectoryNode) : Prop :=
  ((dir.deltaFields = none ∧ TrimmedTimes dir.nodeMeta) ∨ (incremental = true ∧ dir.deltaFields = Fields.navigation) ∨
    (incremental = true ∧ dir = dirDeletion dir.name)) ∧ ∀ file ∈ dir.files, FileEntry incremental file

def TreeEntry (incremental : Bool) (root : DirectoryNode) : Prop :=
  ∀ dir ∈ root.directories, DirEntry incremental dir

theorem treeEntry_iff {incremental : Bool} {root : DirectoryNode} :
    TreeEntry incremental root ↔ DirEntry incremental root ∧ ∀ child ∈ root.subdirs, TreeEntry incremental child :=
  DirectoryNode.forall_directories

section Contexts

variable {crates : Crates} {p : IndexParser}

theorem Settled.inDir (settled : p.Settled) (dir : DirectoryNode) : (p.inDir dir).Settled :=
  ⟨⟨settled.tree, settled.text, settled.encoded⟩, settled.noExtent, settled.noXattr, settled.noFile⟩

theorem endElement_inDir (p : IndexParser) (dir : DirectoryNode) {tag : String} (field : tag ∉ structuralTags)
    (text : String) :
    endElement crates (p.inDir dir) tag "directory" text = p.inDir <$> dirStep p.header.incremental dir (tag, text) :=
  endElement_dir field text rfl

theorem reads_dirLeaves (crates : Crates) (settled : p.Settled) {dir after : DirectoryNode}
    {leaves : List (String × String)} (some : leaves ≠ []) (fields : ∀ leaf ∈ leaves, leaf.1 ∈ fieldTags)
    (folded : leaves.foldlM (dirStep p.header.incremental) dir = .ok after) :
    Reads crates (p.inDir dir) (writeLeaves leaves) (p.path.length + 1 < nestingLimit) (p.inDir after) :=
  reads_folded crates p.inDir (dirStep p.header.incremental) some fields
    (fun part _ text field => endElement_inDir p part field text) folded (settled.inDir dir).toReady

theorem dirStep_container {tag : String} (container : tag = "extendedattributes" ∨ tag = "contents")
    (incremental : Bool) (dir : DirectoryNode) {names : Finset String}
    (fields : dir.deltaFields = recorded incremental names) (fresh : tag ∉ names) (text : String) :
    dirStep incremental dir (tag, text) = .ok { dir with deltaFields := recorded incremental (insert tag names) } := by
  have fine : Fine tag (Text.trim text) := by
    rcases container with rfl | rfl <;> exact fine_text (by decide) _
  unfold dirStep
  rw [fields, fieldStep_recorded fine incremental fresh, Result.ok_bind]
  rcases container with rfl | rfl <;> rfl

theorem reads_dirXattrs (settled : p.Settled) (dir : DirectoryNode) {names : Finset String}
    (fields : dir.deltaFields = recorded p.header.incremental names) (fresh : "extendedattributes" ∉ names)
    (bare : dir.xattrs = []) (fits : p.path.length + 1 < nestingLimit) (xattrs : List Xattr) :
    Reads crates (p.inDir dir) (writeNodeXattrs xattrs none p.header.incremental)
      (xattrs ≠ [] → p.path.length + 3 < nestingLimit) (p.inDir { dir with
        xattrs, deltaFields := recorded p.header.incremental (insert "extendedattributes" names) }) := by
  have attributed : Attributed crates p.header.incremental (fun xattrs => p.inDir { dir with xattrs })
      (fun xattrs => p.inDir { dir with
        xattrs, deltaFields := recorded p.header.incremental (insert "extendedattributes" names) })
      "directory" p.path := by
    constructor
    · exact fun _ => (settled.inDir _).toReady
    · exact fun _ => rfl
    · intro xattrs xattr
      simp only [closeXattr, inDir, settled.noXattr, settled.noFile]
    · intro xattrs text
      rw [endElement_inDir p _ (by decide),
        dirStep_container (.inl rfl) p.header.incremental { dir with xattrs } fields fresh text]
      rfl
    · intro full
      simp only [full, fields, recorded, Bool.false_eq_true, if_false]
  have start : p.inDir dir = p.inDir { dir with xattrs := [] } := by
    cases dir
    rw [← bare]
  rw [start]
  exact reads_nodeXattrs attributed xattrs fits

end Contexts

section Children

variable {crates : Crates} {p q : IndexParser}

/-- The element of a directory is read back wherever it stands, given what its closing tag does there. -/
def ReadsBack (crates : Crates) (incremental : Bool) (dir : DirectoryNode) : Prop :=
  ∀ (p q : IndexParser) (done : DirectoryNode → IndexParser) (parent : String) (width : Nat) (rest : List Event),
    p.Settled → p.header.incremental = incremental → p.path.headD "" = parent →
    (∀ d text, endElement crates { p with dirStack := d :: p.dirStack } "directory" parent text = .ok (done d)) →
    (p.feed crates width (writeDirectory dir incremental ++ rest) = .ok q ↔
      dirFits p.path.length dir = true ∧ (done (storedDir incremental dir)).feed crates width rest = .ok q)

theorem endElement_closeDir {dir : DirectoryNode} {outer : List DirectoryNode} (tree : p.stream.streaming = false)
    (stack : p.dirStack = dir :: outer) (child : DirectoryNode) (text : String) :
    endElement crates { p with dirStack := child :: p.dirStack } "directory" "contents" text =
      .ok (p.withDir { dir with subdirs := dir.subdirs ++ [child] }) := by
  refine (endElement_structural (by decide) (checkElement_plain (by decide) (by decide) _)).trans ?_
  simp [closeDirectory, attachDirectory, stack, tree, withDir, locationTags]

theorem writeDirectories_eq (dirs : List DirectoryNode) (incremental : Bool) :
    writeDirectories dirs incremental = dirs.flatMap (writeDirectory · incremental) := by
  induction dirs with
  | nil => rw [writeDirectories]; rfl
  | cons dir rest ih => rw [writeDirectories, ih, List.flatMap_cons]

theorem reads_dirs {dirs : List DirectoryNode}
    (readsBack : ∀ child ∈ dirs, ReadsBack crates p.header.incremental child) {dir : DirectoryNode}
    {outer : List DirectoryNode} (settled : p.Settled) (inside : p.path.headD "" = "contents")
    (stack : p.dirStack = dir :: outer) (noDirs : dir.subdirs = []) :
    Reads crates p (writeDirectories dirs p.header.incremental) (∀ child ∈ dirs, dirFits p.path.length child = true)
      (p.withDir { dir with subdirs := dirs.map (storedDir p.header.incremental) }) := by
  let owner : List DirectoryNode → IndexParser := fun dirs =>
    p.withDir { dir with subdirs := dirs.map (storedDir p.header.incremental) }
  have start : owner [] = p := by
    cases dir
    simp only [owner, List.map_nil, withDir]
    rw [← noDirs, stack, List.tail_cons, ← stack]
  have each : ∀ before child after, dirs = before ++ child :: after → Reads crates (owner before)
      (writeDirectory child p.header.incremental) (dirFits p.path.length child = true) (owner (before ++ [child])) := by
    intro before child after split width rest q
    have settledHere : (owner before).Settled :=
      ⟨⟨settled.tree, settled.text, settled.encoded⟩, settled.noExtent, settled.noXattr, settled.noFile⟩
    have read := readsBack child (by simp [split]) (owner before) q (fun child => (owner before).withDir { dir with
      subdirs := before.map (storedDir p.header.incremental) ++ [child] }) "contents" width rest settledHere rfl inside
      (endElement_closeDir (p := owner before) settled.tree rfl)
    have grown : owner (before ++ [child]) = (owner before).withDir { dir with
        subdirs := before.map (storedDir p.header.incremental) ++ [storedDir p.header.incremental child] } := by
      simp [owner, withDir]
    rw [grown]
    exact read
  have read := Reads.each owner each
  rw [start, ← writeDirectories_eq] at read
  exact read

def contentsElement (dir : DirectoryNode) (incremental : Bool) : List Event :=
  .start "contents" [] :: ((dir.files.flatMap (writeFile · incremental) ++ writeDirectories dir.subdirs incremental) ++
    [.close "contents"])

theorem reads_contents (source : DirectoryNode)
    (readsBack : ∀ child ∈ source.subdirs, ReadsBack crates p.header.incremental child) (dir : DirectoryNode)
    {names : Finset String} (settled : p.Settled)
    (fields : dir.deltaFields = recorded p.header.incremental names) (fresh : "contents" ∉ names) (noFiles : dir.files = [])
    (noDirs : dir.subdirs = []) (fileEntries : ∀ file ∈ source.files, FileEntry p.header.incremental file)
    (fits : p.path.length + 1 < nestingLimit) :
    Reads crates (p.inDir dir) (contentsElement source p.header.incremental)
      ((∀ file ∈ source.files, FileFits (p.path.length + 2) file) ∧
        ∀ child ∈ source.subdirs, dirFits (p.path.length + 2) child = true)
      (p.inDir { dir with
        files := source.files.map (storedEntry p.header.incremental)
        subdirs := source.subdirs.map (storedDir p.header.incremental)
        deltaFields := recorded p.header.incremental (insert "contents" names) }) := by
  let opened : DirectoryNode → IndexParser := fun dir =>
    { p with dirStack := dir :: p.dirStack, path := "contents" :: "directory" :: p.path }
  have settledOpened : ∀ dir, (opened dir).Settled := fun _ =>
    ⟨⟨settled.tree, settled.text, settled.encoded⟩, settled.noExtent, settled.noXattr, settled.noFile⟩
  let filed : DirectoryNode := { dir with files := source.files.map (storedEntry p.header.incremental) }
  let placed : DirectoryNode := { filed with subdirs := source.subdirs.map (storedDir p.header.incremental) }
  have fileStage := reads_files crates (settledOpened dir) rfl rfl noFiles fileEntries
  have dirStage := reads_dirs (p := opened filed) readsBack (settledOpened filed) rfl rfl noDirs
  exact .element (s := p.inDir placed) (settled.inDir dir).toReady (by simp [Allowed, knownElements])
    (startElement_plain (show "contents" ∈ plainTags by decide) []) (fileStage.append fun _ => dirStage) (fun _ => fits)
    (settled.inDir placed).toReady rfl fun text => (endElement_inDir p _ (by decide) text).trans (congrArg _
      (dirStep_container (.inr rfl) p.header.incremental placed fields fresh text))

end Children

section Trees

variable {crates : Crates} {p q : IndexParser} {dir : DirectoryNode} {incremental : Bool}

theorem startElement_directory (settled : p.Settled) :
    p.startElement "directory" [] =
      .ok { p with dirStack := { deltaFields := recorded p.header.incremental ∅ } :: p.dirStack } := by
  simp only [startElement, String.reduceEq, decide_false, Bool.or_self, Bool.false_eq_true, if_false, if_true,
    startDirectory, settled.tree, Bool.false_and]
  rfl

theorem writeDirectory_full (full : dir.deltaFields = none) (incremental : Bool) :
    writeDirectory dir incremental = .start "directory" [] :: ((writeLeaves (dirLeaves dir) ++
      (writeNodeXattrs dir.xattrs none incremental ++ contentsElement dir incremental)) ++ [.close "directory"]) := by
  cases dir with
  | mk deltaFields name nodeMeta files subdirs xattrs =>
    simp only at full
    subst full
    have head : writeLeaves (dirLeaves ⟨none, name, nodeMeta, files, subdirs, xattrs⟩) =
        writeText "name" name ++ writeLeaves (metaLeaves nodeMeta) := by
      simp [writeLeaves, dirLeaves]
    rw [writeDirectory, head]
    simp [deleted, writeMeta_full, contentsElement]

theorem writeDirectory_navigation (navigation : dir.deltaFields = navigation) (incremental : Bool) :
    writeDirectory dir incremental = .start "directory" [] ::
      ((writeLeaves [("name", dir.name)] ++ contentsElement dir incremental) ++ [.close "directory"]) := by
  cases dir with
  | mk deltaFields name nodeMeta files subdirs xattrs =>
    simp only at navigation
    subst navigation
    rw [writeDirectory]
    simp [deleted, navigation, writeMeta, writeNodeXattrs, has, contentsElement, writeLeaves]

theorem storedDir_full (full : dir.deltaFields = none) (incremental : Bool) :
    storedDir incremental dir =
      { dir with
        deltaFields := recorded incremental dirElements, files := dir.files.map (storedEntry incremental)
        subdirs := dir.subdirs.map (storedDir incremental) } := by
  cases dir with
  | mk deltaFields name nodeMeta files subdirs xattrs =>
    simp only at full
    subst full
    rw [storedDir, storedDirs_eq]
    rfl

theorem storedDir_navigation (navigation : dir.deltaFields = navigation) (incremental : Bool) :
    storedDir incremental dir =
      { deltaFields := Fields.navigation, name := dir.name, files := dir.files.map (storedEntry incremental)
        subdirs := dir.subdirs.map (storedDir incremental) } := by
  cases dir with
  | mk deltaFields name nodeMeta files subdirs xattrs =>
    simp only at navigation
    subst navigation
    rw [storedDir, storedDirs_eq]
    rfl

theorem storedDir_deletion (name : String) (incremental : Bool) :
    storedDir incremental (dirDeletion name) = dirDeletion name := by
  rw [dirDeletion, storedDir, storedDirs]
  rfl

theorem dirStep_name (incremental : Bool) (name : String) :
    [("name", name)].foldlM (dirStep incremental) { deltaFields := recorded incremental ∅ } =
      .ok { deltaFields := recorded incremental (insert "name" ∅), name } := by
  rw [List.foldlM_cons, dirStep, fieldStep_recorded (fine_text (by decide) _) incremental (Finset.notMem_empty "name")]
  rfl

theorem dirStep_deleted (name : String) :
    dirStep true { deltaFields := recorded true (insert "name" ∅), name } ("deleted", "") = .ok (dirDeletion name) := by
  have fine : Fine "deleted" (Text.trim "") := by simp [Fine, numericTags]; decide
  have names : (insert "deleted" (insert "name" ∅) : Finset String) = {"name", "deleted"} := by decide
  unfold dirStep
  rw [fieldStep_recorded fine true (by decide), Result.ok_bind, names]
  rfl

theorem reads_directory {stored : DirectoryNode} {events : List Event}
    (written : writeDirectory dir incremental = .start "directory" [] :: (events ++ [.close "directory"]))
    (body : ∀ p : IndexParser, p.Settled → p.header.incremental = incremental →
      Reads crates (p.inDir { deltaFields := recorded incremental ∅ }) events (dirFits p.path.length dir = true)
        (p.inDir stored)) (same : storedDir incremental dir = stored) : ReadsBack crates incremental dir := by
  intro p q done parent width rest settled kind inside ended
  have started : p.startElement "directory" [] =
      .ok { p with dirStack := { deltaFields := recorded incremental ∅ } :: p.dirStack } := by
    rw [← kind]
    exact startElement_directory settled
  have read := Reads.element (s := { p with dirStack := stored :: p.dirStack }) settled.toReady
    (by simp [Allowed, knownElements]) started (body p settled kind)
    (fun fits => Nat.lt_of_succ_lt ((dirFits_eq _ _).mp fits).1) ⟨settled.tree, settled.text, settled.encoded⟩ inside
    (ended stored)
  rw [written, same]
  exact read width rest q

theorem readsBack_full (readsBack : ∀ child ∈ dir.subdirs, ReadsBack crates incremental child)
    (full : dir.deltaFields = none) (trimmed : TrimmedTimes dir.nodeMeta)
    (fileEntries : ∀ file ∈ dir.files, FileEntry incremental file) : ReadsBack crates incremental dir := by
  refine reads_directory (writeDirectory_full full incremental) ?_ (storedDir_full full incremental)
  intro p settled kind
  subst kind
  have fields : ∀ leaf ∈ dirLeaves dir, leaf.1 ∈ fieldTags := by simp [dirLeaves, metaLeaves, fieldTags]
  have head := reads_dirLeaves crates settled (by simp [dirLeaves]) fields (dir_steps p.header.incremental trimmed)
  have body := head.append fun fits =>
    (reads_dirXattrs settled _ rfl (show "extendedattributes" ∉ dirNames by decide) rfl fits dir.xattrs).append fun _ =>
      reads_contents dir readsBack _ settled rfl (show "contents" ∉ insert "extendedattributes" dirNames by decide) rfl
        rfl fileEntries fits
  exact body.congr (by rw [dirFits_eq, full]; simp only [forall_const])

theorem readsBack_navigation (readsBack : ∀ child ∈ dir.subdirs, ReadsBack crates true child)
    (navigation : dir.deltaFields = navigation) (fileEntries : ∀ file ∈ dir.files, FileEntry true file) :
    ReadsBack crates true dir := by
  refine reads_directory (writeDirectory_navigation navigation true) ?_ (storedDir_navigation navigation true)
  intro p settled kind
  rw [← kind] at readsBack fileEntries
  have head := reads_dirLeaves crates settled (by simp) (by simp [fieldTags])
    (dirStep_name p.header.incremental dir.name)
  have body := head.append fun fits =>
    reads_contents dir readsBack _ settled rfl (show "contents" ∉ insert "name" ∅ by decide) rfl rfl fileEntries fits
  have names : recorded true (insert "contents" (insert "name" ∅)) = Fields.navigation := by decide
  rw [kind, names] at body
  exact body.congr (by rw [dirFits_eq, navigation]; simp [Fields.navigation])

theorem readsBack_deletion (name : String) : ReadsBack crates true (dirDeletion name) := by
  have written : writeDirectory (dirDeletion name) true = .start "directory" [] ::
      ((writeLeaves [("name", name)] ++ [.empty "deleted" []]) ++ [.close "directory"]) := by
    rw [dirDeletion, writeDirectory]
    simp [deletion, deleted, writeLeaves]
  refine reads_directory written ?_ (storedDir_deletion name true)
  intro p settled kind
  have head := reads_dirLeaves crates settled (by simp) (by simp [fieldTags]) (dirStep_name p.header.incremental name)
  rw [kind] at head
  have emptied : endElement crates (p.inDir { deltaFields := recorded true (insert "name" ∅), name }) "deleted"
      "directory" "" = .ok (p.inDir (dirDeletion name)) := by
    rw [endElement_inDir p _ (by decide), kind, dirStep_deleted]
    rfl
  have removed : Reads crates (p.inDir _) [.empty "deleted" []] _ (p.inDir (dirDeletion name)) :=
    reads_bare crates (settled.inDir _).toReady rfl (by decide) ⟨by decide, fun _ => kind, by simp⟩ emptied
  exact (head.append fun _ => removed).congr (by rw [dirFits_eq]; simp [dirDeletion, inDir])

theorem readsBack (crates : Crates) (entries : TreeEntry incremental dir) : ReadsBack crates incremental dir := by
  induction dir using DirectoryNode.inductionOn with
  | node dir ih =>
    obtain ⟨⟨kind, fileEntries⟩, dirEntries⟩ := treeEntry_iff.mp entries
    have children : ∀ child ∈ dir.subdirs, ReadsBack crates incremental child :=
      fun child member => ih child member (dirEntries child member)
    rcases kind with ⟨full, trimmed⟩ | ⟨rfl, navigation⟩ | ⟨rfl, removed⟩
    · exact readsBack_full children full trimmed fileEntries
    · exact readsBack_navigation children navigation fileEntries
    · rw [removed]
      exact readsBack_deletion dir.name

end Trees

end TapeRs.Ltfs.IndexParser
