import TapeRs.Ltfs.IndexParser

namespace TapeRs.Ltfs.IndexParser

open Xml Result

variable {p q : IndexParser} {name parent trimmed text : String} {crates : Crates}

theorem whenStreaming_tree (tree : p.stream.streaming = false) (charge : MetadataBudget → Result MetadataBudget) :
    p.whenStreaming charge = .ok p := by
  simp [whenStreaming, tree]

def Alike (p q : IndexParser) : Prop :=
  q.stream = p.stream ∧ q.text = p.text

theorem noteUnknown_alike (ran : p.noteUnknown name = .ok q) : Alike p q := by
  unfold noteUnknown at ran
  split at ran
  · split at ran <;> cases ran
    exact ⟨rfl, rfl⟩
  · cases ran
    exact ⟨rfl, rfl⟩

theorem markEncoded_alike (p : IndexParser) (name : String) (attributes : Attributes) :
    Alike p (p.markEncoded name attributes) := by
  unfold markEncoded
  split <;> exact ⟨rfl, rfl⟩

theorem startElement_alike {attributes : Attributes} (ran : p.startElement name attributes = .ok q) : Alike p q := by
  unfold startElement at ran
  split at ran
  · unfold startRoot at ran
    repeat' split at ran
    all_goals cases ran
    exact ⟨rfl, rfl⟩
  · split at ran
    · unfold startDirectory at ran
      split at ran <;> cases ran
      exact ⟨rfl, rfl⟩
    · repeat' split at ran
      all_goals cases ran; exact ⟨rfl, rfl⟩

def frame (p : IndexParser) : StreamState × List String × String × Finset Nat × Bool :=
  (p.stream, p.path, p.text, p.percentEncoded, p.header.incremental)

def parts (p : IndexParser) : List String × Nat × List DirectoryNode :=
  (p.unknownElements, p.fileStack.length, p.dirStack)

theorem noteField_frame (noted : p.noteField name parent = some q) : q.frame = p.frame := by
  unfold noteField at noted
  repeat' split at noted
  all_goals first
    | cases noted; rfl
    | obtain ⟨fields, -, same⟩ := Option.map_eq_some_iff.mp noted
      rw [← same]
      rfl

theorem checkElement_frame (ran : p.checkElement name parent trimmed = .ok q) : q.frame = p.frame := by
  unfold checkElement at ran
  split at ran
  · unfold endIncremental at ran
    obtain ⟨headed, header, ran⟩ := bind_ok.mp ran
    have first : headed.frame = p.frame := by
      unfold noteHeader at header
      repeat' split at header
      all_goals cases header <;> rfl
    split at ran
    · cases ran
    split at ran
    · cases ran
    split at ran
    · cases ran
    cases noted : headed.noteField name parent with
    | none => rw [noted] at ran; cases ran
    | some after =>
      rw [noted] at ran
      dsimp only at ran
      split at ran <;> cases ran
      exact (noteField_frame noted).trans first
  · cases ran
    rfl

theorem endLocationField_keeps (ran : p.endLocationField name parent trimmed = .ok q) :
    q.frame = p.frame ∧ q.parts = p.parts := by
  unfold endLocationField at ran
  repeat' split at ran
  all_goals first
    | cases ran; exact ⟨rfl, rfl⟩
    | obtain ⟨_, -, ran⟩ := bind_ok.mp ran
      cases ran; exact ⟨rfl, rfl⟩

theorem endExtentField_keeps (ran : p.endExtentField name parent trimmed = .ok q) :
    q.frame = p.frame ∧ q.parts = p.parts := by
  unfold endExtentField at ran
  repeat' split at ran
  all_goals first
    | cases ran; exact ⟨rfl, rfl⟩
    | obtain ⟨_, -, ran⟩ := bind_ok.mp ran
      cases ran; exact ⟨rfl, rfl⟩

theorem endFileField_keeps (ran : p.endFileField name parent text trimmed = .ok q) :
    q.frame = p.frame ∧ q.parts = p.parts := by
  unfold endFileField at ran
  split at ran
  · cases ran
    exact ⟨rfl, rfl⟩
  rename_i stack
  split at ran
  · cases ran
    exact ⟨rfl, rfl⟩
  · obtain ⟨_, -, ran⟩ := bind_ok.mp ran
    cases ran
    exact ⟨rfl, by simp [parts, stack]⟩

theorem endDirectoryField_frame (ran : p.endDirectoryField name parent text trimmed = .ok q) : q.frame = p.frame := by
  unfold endDirectoryField at ran
  repeat' split at ran
  all_goals first
    | cases ran; rfl
    | obtain ⟨_, -, ran⟩ := bind_ok.mp ran
      cases ran; rfl

theorem setHeaderField_incremental {h k : HeaderState} (ran : setHeaderField crates h name text trimmed = .ok k) :
    k.incremental = h.incremental := by
  unfold setHeaderField at ran
  repeat' split at ran
  all_goals first
    | cases ran; rfl
    | obtain ⟨_, -, ran⟩ := bind_ok.mp ran
      cases ran; rfl

theorem endHeaderField_keeps (ran : endHeaderField crates p name parent text trimmed = .ok q) :
    q.frame = p.frame ∧ q.parts = p.parts := by
  unfold endHeaderField at ran
  split at ran
  · cases ran
    exact ⟨rfl, rfl⟩
  obtain ⟨header, set, ran⟩ := bind_ok.mp ran
  cases ran
  rw [frame, setHeaderField_incremental set]
  exact ⟨rfl, rfl⟩

theorem closeLocation_keeps (p : IndexParser) : p.closeLocation.frame = p.frame ∧ p.closeLocation.parts = p.parts := by
  unfold closeLocation
  repeat' split
  all_goals exact ⟨rfl, rfl⟩

theorem closeExtent_keeps (p : IndexParser) : p.closeExtent.frame = p.frame ∧ p.closeExtent.parts = p.parts := by
  unfold closeExtent
  split
  · rename_i stack
    exact ⟨rfl, by simp [parts, stack]⟩
  · exact ⟨rfl, rfl⟩

theorem closeXattr_frame (p : IndexParser) : p.closeXattr.frame = p.frame := by
  unfold closeXattr
  split <;> rfl

def valueTags : List String :=
  ["partition", "startblock", "byteoffset", "bytecount", "fileoffset", "key", "value", "name", "length", "symlink",
    "openforwrite", "readonly", "creationtime", "changetime", "modifytime", "accesstime", "backuptime", "fileuid",
    "creator", "comment", "volumeuuid", "generationnumber", "updatetime", "allowpolicyupdate", "highestfileuid",
    "volumelockstate"]

section Structural

variable (structural : name ∉ valueTags)
include structural

theorem applyMeta_structural (nodeMeta : NodeMeta) (trimmed : String) :
    applyMeta nodeMeta name trimmed = .ok nodeMeta := by
  simp only [valueTags, List.mem_cons, not_or] at structural
  simp [applyMeta, structural]

theorem endLocationField_structural (trimmed : String) :
    p.endLocationField name parent trimmed = .ok p := by
  simp only [valueTags, List.mem_cons, not_or] at structural
  unfold endLocationField
  cases p.curLocation <;> simp [structural]

theorem endExtentField_structural (trimmed : String) :
    p.endExtentField name parent trimmed = .ok p := by
  simp only [valueTags, List.mem_cons, not_or] at structural
  unfold endExtentField
  cases p.curExtent <;> simp [structural]

theorem endXattrField_structural (text : String) : p.endXattrField name text = p := by
  simp only [valueTags, List.mem_cons, not_or] at structural
  simp [endXattrField, structural]

theorem endFileField_structural (text trimmed : String) :
    p.endFileField name parent text trimmed = .ok p := by
  have same := applyMeta_structural structural
  simp only [valueTags, List.mem_cons, not_or] at structural
  obtain ⟨_, _, _, _, _, _, _, fileStack, _, _, _, _⟩ := p
  cases fileStack <;> simp [endFileField, setFileField, structural, same]

theorem endDirectoryField_structural (text trimmed : String) :
    p.endDirectoryField name parent text trimmed = .ok p := by
  have same := applyMeta_structural structural
  simp only [valueTags, List.mem_cons, not_or] at structural
  obtain ⟨_, _, _, _, _, _, dirStack, _, _, _, _, _⟩ := p
  cases dirStack with
  | nil => rfl
  | cons dir outer =>
    cases dir
    simp [endDirectoryField, setDirectoryField, structural, same]

theorem endHeaderField_structural (text trimmed : String) :
    endHeaderField crates p name parent text trimmed = .ok p := by
  simp only [valueTags, List.mem_cons, not_or] at structural
  simp [endHeaderField, setHeaderField, structural]

/-- The end of an element without a text of its own. -/
theorem endElement_structural
    (checked : p.checkElement name parent (Text.trim text) = .ok q) :
    endElement crates p name parent text =
      if name ∈ locationTags then .ok q.closeLocation
      else if name = "extent" then .ok q.closeExtent
      else if parent = "xattr" then .ok q
      else if name = "xattr" then .ok q.closeXattr
      else if name = "file" then q.closeFile
      else if name = "directory" then .ok q.closeDirectory
      else .ok q := by
  unfold endElement
  simp only [checked, endLocationField_structural structural, endExtentField_structural structural,
    endXattrField_structural structural, endFileField_structural structural, endDirectoryField_structural structural,
    endHeaderField_structural structural, ok_bind]

end Structural

def runEvents (crates : Crates) (p : IndexParser) (events : List Event) : Result IndexParser :=
  events.foldlM (fun p event => p.handle crates event 0) p

theorem runEvents_cons (crates : Crates) (p : IndexParser) (event : Event) (rest : List Event) :
    p.runEvents crates (event :: rest) = (p.handle crates event 0 >>= fun q => q.runEvents crates rest) := rfl

section Tree

variable (tree : p.stream.streaming = false)
include tree

theorem onStart_alike {attributes : Attributes} {size : Nat}
    (ran : p.onStart name attributes size = .ok q) : Alike { p with text := "" } q := by
  unfold onStart at ran
  rw [whenStreaming_tree tree] at ran
  obtain ⟨charged, same, ran⟩ := bind_ok.mp ran
  cases same
  split at ran
  · cases ran
  obtain ⟨noted, unknown, ran⟩ := bind_ok.mp ran
  have marked := markEncoded_alike { p with text := "" } name attributes
  have known := noteUnknown_alike unknown
  split at ran
  · cases ran
  split at ran
  · cases ran
  obtain ⟨started, element, ran⟩ := bind_ok.mp ran
  cases ran
  have began := startElement_alike element
  exact ⟨began.1.trans (known.1.trans marked.1), began.2.trans (known.2.trans marked.2)⟩

theorem closeFile_frame (ran : p.closeFile = .ok q) : q.frame = p.frame := by
  unfold closeFile at ran
  simp only [tree, Bool.false_eq_true, if_false] at ran
  split at ran <;> cases ran <;> rfl

theorem closeDirectory_frame : p.closeDirectory.frame = p.frame := by
  unfold closeDirectory
  simp only [tree, Bool.false_eq_true, if_false]
  split
  · rfl
  · unfold attachDirectory
    split <;> rfl

theorem endElement_frame (ran : endElement crates p name parent text = .ok q) :
    q.frame = p.frame := by
  unfold endElement at ran
  obtain ⟨checked, check, ran⟩ := bind_ok.mp ran
  obtain ⟨located, location, ran⟩ := bind_ok.mp ran
  have second := (endLocationField_keeps location).1.trans (checkElement_frame check)
  split at ran
  · cases ran
    exact (closeLocation_keeps _).1.trans second
  obtain ⟨extended, extent, ran⟩ := bind_ok.mp ran
  have third := (endExtentField_keeps extent).1.trans second
  split at ran
  · cases ran
    exact (closeExtent_keeps _).1.trans third
  split at ran
  · cases ran
    exact third
  split at ran
  · cases ran
    exact (closeXattr_frame _).trans third
  obtain ⟨filed, file, ran⟩ := bind_ok.mp ran
  obtain ⟨placed, dir, ran⟩ := bind_ok.mp ran
  obtain ⟨headed, header, ran⟩ := bind_ok.mp ran
  have last : headed.frame = p.frame :=
    (endHeaderField_keeps header).1.trans
      ((endDirectoryField_frame dir).trans ((endFileField_keeps file).1.trans third))
  have stream : headed.stream = p.stream := congrArg Prod.fst last
  have stillTree : headed.stream.streaming = false := stream ▸ tree
  split at ran
  · exact (closeFile_frame stillTree ran).trans last
  · split at ran <;> cases ran
    · exact (closeDirectory_frame stillTree).trans last
    · exact last

theorem onEnd_stream (ran : p.onEnd crates = .ok q) : q.stream = p.stream := by
  unfold onEnd at ran
  dsimp only at ran
  rw [whenStreaming_tree tree] at ran
  obtain ⟨charged, same, ran⟩ := bind_ok.mp ran
  cases same
  obtain ⟨text, -, ran⟩ := bind_ok.mp ran
  have after := endElement_frame ?_ ran
  · exact congrArg Prod.fst after
  · exact tree

theorem onText_tree (text : String) :
    p.onText text = .ok { p with text := p.text ++ text } := by
  unfold onText
  rw [whenStreaming_tree tree]
  rfl

theorem handle_stream {event : Event} {size : Nat}
    (ran : p.handle crates event size = .ok q) : q.stream = p.stream := by
  unfold handle at ran
  cases event with
  | start tag attributes => exact (onStart_alike tree ran).1
  | empty tag attributes =>
    obtain ⟨started, start, ran⟩ := bind_ok.mp ran
    have first : started.stream = p.stream := (onStart_alike tree start).1
    exact (onEnd_stream (first ▸ tree) ran).trans first
  | close tag =>
    simp only [whenStreaming_tree tree] at ran
    exact onEnd_stream tree ran
  | text content | cdata content =>
    simp only [whenStreaming_tree tree, ignoresLayoutText, tree, Bool.false_and, Bool.false_eq_true, if_false] at ran
    rw [bind_ok] at ran
    obtain ⟨_, same, ran⟩ := ran
    cases same
    rw [onText_tree tree] at ran
    cases ran
    rfl
  | misc content =>
    cases ran
    rfl

theorem handle_size (event : Event) (size : Nat) :
    p.handle crates event size = p.handle crates event 0 := by
  have start : ∀ tag attributes, p.onStart tag attributes size = p.onStart tag attributes 0 := by
    intro tag attributes
    unfold onStart
    rw [whenStreaming_tree tree, whenStreaming_tree tree]
  cases event <;> simp only [handle, start, whenStreaming_tree tree]

end Tree

theorem scan_tree (crates : Crates) (tree : p.stream.streaming = false) (idle : p.stream.pendingEntry = none)
    (seen : List String) (events : List ReadEvent) :
    ScanMode.tree.scan crates p seen events =
      (fun q => (q, [])) <$> p.runEvents crates (events.map (·.event)) := by
  induction events generalizing p seen with
  | nil => rfl
  | cons read rest ih =>
    have discovered : ScanMode.tree.discover p read.event = p := by
      unfold ScanMode.discover
      split <;> rfl
    rw [ScanMode.scan, List.map_cons, runEvents_cons, discovered, handle_size tree]
    simp only [ScanMode.tree, Bool.false_and, Bool.false_eq_true, if_false]
    cases ran : p.handle crates read.event 0 with
    | error error => rfl
    | ok q =>
      have stream := handle_stream tree ran
      have still : q.stream.pendingEntry = none := stream ▸ idle
      simp only [Bind.bind, Except.bind, still]
      exact ih (stream ▸ tree) still seen

end TapeRs.Ltfs.IndexParser
