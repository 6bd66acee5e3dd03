import TapeRs.Ltfs.Entries
import TapeRs.Ltfs.ParserFrame

namespace TapeRs.Ltfs

open Xml Result DirectoryNode

namespace MetadataBudget

def Bounded (charge : MetadataBudget → Result MetadataBudget) : Prop :=
  ∀ budget error, charge budget = .error error → error = Limits.exceeded

theorem charge_bounded (bytes : Nat) : Bounded (·.charge bytes) := by
  intro budget error failed
  dsimp only at failed
  unfold charge at failed
  repeat' split at failed
  all_goals cases failed
  all_goals rfl

theorem start_bounded (node : Bool) (bytes : Nat) : Bounded (·.start node bytes) := by
  intro budget error failed
  exact charge_bounded _ _ _ failed

theorem endNode_bounded (node : Prop) [Decidable node] :
    Bounded fun budget => if node then budget.endNode else .ok budget := by
  intro budget error failed
  dsimp only at failed
  unfold endNode at failed
  repeat' split at failed
  all_goals cases failed
  all_goals rfl

theorem text_bounded (existing added : Nat) :
    Bounded fun budget => budget.text existing added >>= fun _ => .ok budget := by
  intro budget error failed
  dsimp only at failed
  unfold text at failed
  split at failed <;> cases failed
  rfl

end MetadataBudget

def stackNames (stack : List DirectoryNode) : List String :=
  (stack.reverse.drop 1).map (·.name)

theorem stackNames_cons (dir parent : DirectoryNode) (outer : List DirectoryNode) :
    stackNames (dir :: parent :: outer) = stackNames (parent :: outer) ++ [dir.name] := by
  unfold stackNames
  rw [List.reverse_cons, List.drop_append_of_le_length (by simp), List.map_append]
  rfl

theorem entryPath_eq (p : IndexParser) (name : String) : p.entryPath name = nodePath (stackNames p.dirStack) name := by
  have step : (fun (path : String) (dir : DirectoryNode) => (if path.isEmpty then path else path ++ "/") ++ dir.name) =
      fun path dir => joinPath path dir.name := by
    funext path dir
    unfold joinPath
    split
    · rename_i empty
      rw [String.isEmpty_iff.mp empty, String.empty_append]
    · rfl
  have last : ∀ path : String, (if path.isEmpty then path else path ++ "/") ++ name = joinPath path name :=
    fun path => congrFun (congrFun step path) { name }
  unfold IndexParser.entryPath nodePath stackNames
  rw [List.foldl_map, step]
  simp only [last]

theorem stackNames_bare (stack : List DirectoryNode) : stackNames (stack.map (·.bare)) = stackNames stack := by
  unfold stackNames
  rw [← List.map_reverse, ← List.map_drop, List.map_map]
  rfl

namespace IndexParser

variable {name : String}

/-- The state of a streaming scan where the reading as a tree is at `p`: open directories hold nothing. -/
def streamed (p : IndexParser) (stream : StreamState) (text : String) : IndexParser :=
  { p with stream, text, dirStack := p.dirStack.map (·.bare) }

variable {crates : Crates} {p q : IndexParser} {stream : StreamState} {text : String}

theorem whenStreaming_streamed (p : IndexParser) (text : String) (streaming : stream.streaming = true)
    {charge : MetadataBudget → Result MetadataBudget} (bounded : MetadataBudget.Bounded charge) : (p.streamed stream text).whenStreaming charge = .error Limits.exceeded ∨
      ∃ resources, (p.streamed stream text).whenStreaming charge = .ok (p.streamed { stream with resources } text) := by
  have unfolded : (p.streamed stream text).whenStreaming charge =
      (charge stream.resources >>= fun resources => .ok (p.streamed { stream with resources } text)) :=
    if_pos streaming
  rw [unfolded]
  cases charged : charge stream.resources with
  | error error => exact .inl (congrArg _ (bounded _ error charged))
  | ok later => exact .inr ⟨later, rfl⟩

theorem markEncoded_streamed (name : String) (attributes : Attributes) :
    (p.streamed stream text).markEncoded name attributes = (p.markEncoded name attributes).streamed stream text := by
  unfold markEncoded
  split <;> rfl

theorem endLocationField_streamed (name parent trimmed : String) : (p.streamed stream text).endLocationField name parent
    trimmed = (·.streamed stream text) <$> p.endLocationField name parent trimmed := by
  obtain ⟨_, _, _, _, _, _, _, _, _, curLocation, _, _⟩ := p
  unfold endLocationField streamed
  cases curLocation with
  | none => rfl
  | some location =>
    dsimp only
    split
    · rfl
    split
    · cases parseIndexPartition trimmed <;> rfl
    · split
      · cases parseIndexU64 name trimmed <;> rfl
      · rfl

theorem endExtentField_streamed (name parent trimmed : String) : (p.streamed stream text).endExtentField name parent
    trimmed = (·.streamed stream text) <$> p.endExtentField name parent trimmed := by
  obtain ⟨_, _, _, _, _, _, _, _, curExtent, _, _, _⟩ := p
  unfold endExtentField streamed
  cases curExtent with
  | none => rfl
  | some extent =>
    dsimp only
    split
    · rfl
    split
    · cases parseIndexPartition trimmed <;> rfl
    repeat' split
    all_goals first
      | rfl
      | cases parseIndexU64 name trimmed <;> rfl

theorem endFileField_streamed (name parent text' trimmed : String) : (p.streamed stream text).endFileField name parent
    text' trimmed = (·.streamed stream text) <$> p.endFileField name parent text' trimmed := by
  obtain ⟨_, _, _, _, _, _, _, fileStack, _, _, _, _⟩ := p
  unfold endFileField streamed
  cases fileStack with
  | nil => rfl
  | cons file rest =>
    dsimp only
    split
    · rfl
    · cases setFileField file name text' trimmed <;> rfl

theorem setDirectoryField_bare (dir : DirectoryNode) (name text trimmed : String) :
    setDirectoryField dir.bare name text trimmed = bare <$> setDirectoryField dir name text trimmed := by
  unfold setDirectoryField
  split
  · rfl
  · show (applyMeta dir.nodeMeta name trimmed >>= _) = _
    cases applyMeta dir.nodeMeta name trimmed <;> rfl

theorem endDirectoryField_streamed (name parent text' trimmed : String) :
    (p.streamed stream text).endDirectoryField name parent text' trimmed =
      (·.streamed stream text) <$> p.endDirectoryField name parent text' trimmed := by
  obtain ⟨_, _, _, _, _, _, dirStack, _, _, _, _, _⟩ := p
  unfold endDirectoryField streamed
  cases dirStack with
  | nil => rfl
  | cons dir outer =>
    show (if parent ≠ "directory" then _ else setDirectoryField dir.bare name text' trimmed >>= _) =
      _ <$> (if parent ≠ "directory" then _ else _)
    split
    · rfl
    · rw [setDirectoryField_bare]
      cases setDirectoryField dir name text' trimmed <;> rfl

theorem endHeaderField_streamed (name parent text' trimmed : String) :
    endHeaderField crates (p.streamed stream text) name parent text' trimmed =
      (·.streamed stream text) <$> endHeaderField crates p name parent text' trimmed := by
  unfold endHeaderField
  split
  · rfl
  · show (setHeaderField crates p.header name text' trimmed >>= _) = _
    cases setHeaderField crates p.header name text' trimmed <;> rfl

theorem closeLocation_streamed :
    (p.streamed stream text).closeLocation = p.closeLocation.streamed stream text := by
  obtain ⟨_, _, _, _, _, _, _, _, _, curLocation, curLocationTag, _⟩ := p
  unfold closeLocation streamed
  cases curLocation <;> cases curLocationTag
  · rfl
  · rfl
  · rfl
  · dsimp only
    repeat' split
    all_goals rfl

theorem closeExtent_streamed : (p.streamed stream text).closeExtent = p.closeExtent.streamed stream text := by
  obtain ⟨_, _, _, _, _, _, _, fileStack, curExtent, _, _, _⟩ := p
  unfold closeExtent streamed
  cases curExtent <;> cases fileStack <;> rfl

theorem closeXattr_streamed : (p.streamed stream text).closeXattr = p.closeXattr.streamed stream text := by
  obtain ⟨_, _, _, _, _, _, dirStack, fileStack, _, _, _, curXattr⟩ := p
  unfold closeXattr streamed
  cases curXattr <;> cases fileStack <;> cases dirStack <;> rfl

theorem checkElement_full {parent trimmed : String} (full : p.header.incremental = false) :
    p.checkElement name parent trimmed = .ok p := by
  unfold checkElement
  rw [full]
  rfl

theorem endElement_streamed {parent text' : String} (full : p.header.incremental = false) (noFile : name ≠ "file")
    (noDirectory : name ≠ "directory") : endElement crates (p.streamed stream text) name parent text' =
      (·.streamed stream text) <$> endElement crates p name parent text' := by
  unfold endElement
  rw [checkElement_full full, checkElement_full (p := p.streamed stream text) full]
  simp only [ok_bind, if_neg noFile, if_neg noDirectory, bind_return]
  rw [endLocationField_streamed]
  cases p.endLocationField name parent (Text.trim text') with
  | error error => rfl
  | ok located =>
    show (if name ∈ locationTags then _ else _) = _ <$> (if name ∈ locationTags then _ else _)
    split
    · rw [closeLocation_streamed]
      rfl
    rw [endExtentField_streamed]
    cases located.endExtentField name parent (Text.trim text') with
    | error error => rfl
    | ok extended =>
      show (if name = "extent" then _ else _) = _ <$> (if name = "extent" then _ else _)
      split
      · rw [closeExtent_streamed]
        rfl
      split
      · rfl
      split
      · rw [closeXattr_streamed]
        rfl
      rw [endFileField_streamed]
      cases extended.endFileField name parent text' (Text.trim text') with
      | error error => rfl
      | ok filed =>
        show (endDirectoryField (filed.streamed stream text) _ _ _ _ >>= _) = _ <$> (filed.endDirectoryField _ _ _ _ >>= _)
        rw [endDirectoryField_streamed]
        cases filed.endDirectoryField name parent text' (Text.trim text') with
        | error error => rfl
        | ok placed => exact endHeaderField_streamed name parent text' (Text.trim text')

theorem endElement_node (full : p.header.incremental = false) (outside : parent ≠ "xattr") (text : String) :
    endElement crates p "file" parent text = p.closeFile ∧
      endElement crates p "directory" parent text = .ok p.closeDirectory := by
  rw [endElement_structural (by decide) (checkElement_full full), endElement_structural (by decide) (checkElement_full full)]
  simp [outside, locationTags]

theorem container_structural (container : name ∈ containerTags) : name ∉ valueTags := by
  have apart : ∀ tag ∈ containerTags, tag ∉ valueTags := by decide
  exact apart name container

section Parts

variable {name parent text' trimmed : String}

/-- What the end of an element that is no node does to the open directories. -/
inductive Retouched (name parent : String) (p : IndexParser) : List DirectoryNode → Prop
  | same : Retouched name parent p p.dirStack
  | tagged {dir : DirectoryNode} {outer : List DirectoryNode} (xattrs : List Xattr) (top : p.dirStack = dir :: outer)
      (ended : name = "xattr") (noFile : p.fileStack.length = 0) : Retouched name parent p ({ dir with xattrs } :: outer)
  | field {dir : DirectoryNode} {outer : List DirectoryNode} (after : DirectoryNode) (top : p.dirStack = dir :: outer)
      (inside : parent = "directory") (files : after.files = dir.files) (subdirs : after.subdirs = dir.subdirs)
      (named : name ≠ "name" → after.name = dir.name) : Retouched name parent p (after :: outer)

/-- The end of an element that is no node: unknown elements and the number of open files stay. -/
def Retouches (name parent : String) (p q : IndexParser) : Prop :=
  q.unknownElements = p.unknownElements ∧ q.fileStack.length = p.fileStack.length ∧ Retouched name parent p q.dirStack

theorem retouches_of_parts (same : q.parts = p.parts) : Retouches name parent p q := by
  obtain ⟨unknown, rest⟩ := Prod.mk.inj same
  obtain ⟨files, dirs⟩ := Prod.mk.inj rest
  exact ⟨unknown, files, dirs ▸ .same⟩

theorem Retouches.of_parts {r : IndexParser} (first : r.parts = p.parts) (later : Retouches name parent r q) :
    Retouches name parent p q := by
  obtain ⟨unknown, rest⟩ := Prod.mk.inj first
  obtain ⟨files, dirs⟩ := Prod.mk.inj rest
  obtain ⟨unknown', files', dirs'⟩ := later
  refine ⟨unknown'.trans unknown, files'.trans files, ?_⟩
  generalize q.dirStack = stack at dirs' ⊢
  cases dirs' with
  | same => exact dirs ▸ .same
  | tagged xattrs top ended noFile => exact .tagged xattrs (dirs ▸ top) ended (files ▸ noFile)
  | field after top inside files subdirs named => exact .field after (dirs ▸ top) inside files subdirs named

theorem closeXattr_retouches : Retouches "xattr" parent p p.closeXattr := by
  obtain ⟨_, _, _, _, _, _, dirStack, fileStack, _, _, _, curXattr⟩ := p
  cases curXattr with
  | none => exact ⟨rfl, rfl, .same⟩
  | some x =>
    cases fileStack with
    | cons file rest => exact ⟨rfl, rfl, .same⟩
    | nil =>
      cases dirStack with
      | nil => exact ⟨rfl, rfl, .same⟩
      | cons dir outer => exact ⟨rfl, rfl, .tagged (dir.xattrs ++ [x]) rfl rfl rfl⟩

theorem endDirectoryField_retouches (ran : p.endDirectoryField name parent text' trimmed = .ok q) :
    Retouches name parent p q := by
  unfold endDirectoryField at ran
  cases stack : p.dirStack with
  | nil =>
    rw [stack] at ran
    cases ran
    exact ⟨rfl, rfl, .same⟩
  | cons dir outer =>
    rw [stack] at ran
    dsimp only at ran
    split at ran
    · cases ran
      exact ⟨rfl, rfl, .same⟩
    rename_i inside
    obtain ⟨after, set, ran⟩ := bind_ok.mp ran
    cases ran
    refine ⟨rfl, rfl, ?_⟩
    unfold setDirectoryField at set
    split at set
    · cases set
      exact .field _ stack (not_not.mp inside) rfl rfl fun other => absurd ‹name = "name"› other
    · obtain ⟨_, -, set⟩ := bind_ok.mp set
      cases set
      exact .field _ stack (not_not.mp inside) rfl rfl fun _ => rfl

theorem Retouches.and_parts {r : IndexParser} (first : Retouches name parent p r) (later : q.parts = r.parts) :
    Retouches name parent p q := by
  obtain ⟨unknown, rest⟩ := Prod.mk.inj later
  obtain ⟨files, dirs⟩ := Prod.mk.inj rest
  exact ⟨unknown.trans first.1, files.trans first.2.1, dirs ▸ first.2.2⟩

theorem endElement_retouches (full : p.header.incremental = false) (noFile : name ≠ "file")
    (noDirectory : name ≠ "directory") (ran : endElement crates p name parent text' = .ok q) :
    Retouches name parent p q := by
  unfold endElement at ran
  rw [checkElement_full full] at ran
  simp only [ok_bind, if_neg noFile, if_neg noDirectory, bind_return] at ran
  obtain ⟨located, location, ran⟩ := bind_ok.mp ran
  have first := (endLocationField_keeps location).2
  split at ran
  · cases ran
    exact retouches_of_parts ((closeLocation_keeps _).2.trans first)
  obtain ⟨extended, extent, ran⟩ := bind_ok.mp ran
  have second := (endExtentField_keeps extent).2.trans first
  split at ran
  · cases ran
    exact retouches_of_parts ((closeExtent_keeps _).2.trans second)
  split at ran
  · cases ran
    exact retouches_of_parts second
  split at ran
  · rename_i ended
    cases ran
    subst ended
    exact closeXattr_retouches.of_parts second
  · obtain ⟨filed, file, ran⟩ := bind_ok.mp ran
    obtain ⟨placed, dir, ran⟩ := bind_ok.mp ran
    have third := (endFileField_keeps file).2.trans second
    exact ((endDirectoryField_retouches dir).of_parts third).and_parts (endHeaderField_keeps ran).2

end Parts

section Nodes

variable {file : FileNode} {files : List FileNode} {dir parent : DirectoryNode} {outer : List DirectoryNode}

theorem closeFile_tree (tree : p.stream.streaming = false) (top : p.fileStack = file :: files)
    (inside : p.dirStack = dir :: outer) : p.closeFile =
      .ok { p with fileStack := files, dirStack := { dir with files := dir.files ++ [file] } :: outer } := by
  unfold closeFile
  rw [top, inside]
  exact if_neg (by simp [tree])

theorem closeFile_streamed (streaming : stream.streaming = true) (top : p.fileStack = file :: files)
    (inside : p.dirStack = dir :: outer) : (p.streamed stream text).closeFile =
      .ok (streamed { p with fileStack := files, dirStack := { dir with files := dir.files ++ [file] } :: outer }
        { stream with pendingEntry := some (.file (nodePath (stackNames (dir :: outer)) file.name) file) } text) := by
  have path : (p.streamed stream text).entryPath file.name = nodePath (stackNames (dir :: outer)) file.name := by
    rw [entryPath_eq, ← inside]
    exact congrArg (nodePath · file.name) (stackNames_bare p.dirStack)
  have dirs' : (p.streamed stream text).dirStack = dir.bare :: outer.map (·.bare) :=
    congrArg (List.map bare) inside
  unfold closeFile
  rw [show (p.streamed stream text).fileStack = _ from top, dirs']
  dsimp only
  rw [if_pos (by exact streaming), path]
  rfl

theorem closeDirectory_tree (tree : p.stream.streaming = false) (top : p.dirStack = dir :: parent :: outer) :
    p.closeDirectory = { p with dirStack := { parent with subdirs := parent.subdirs ++ [dir] } :: outer } := by
  unfold closeDirectory
  rw [top]
  dsimp only
  rw [if_neg (by simp [tree])]
  rfl

theorem closeDirectory_streamed (streaming : stream.streaming = true) (top : p.dirStack = dir :: parent :: outer) :
    (p.streamed stream text).closeDirectory =
      streamed { p with dirStack := { parent with subdirs := parent.subdirs ++ [dir] } :: outer }
        { stream with pendingEntry := some (.directory (nodePath (stackNames (parent :: outer)) dir.name) dir.bare) } text := by
  have path : entryPath { p.streamed stream text with dirStack := (parent :: outer).map (·.bare) } dir.bare.name =
      nodePath (stackNames (parent :: outer)) dir.name := by
    rw [entryPath_eq]
    exact congrArg (nodePath · dir.name) (stackNames_bare (parent :: outer))
  have dirs' : (p.streamed stream text).dirStack = dir.bare :: (parent :: outer).map (·.bare) :=
    congrArg (List.map bare) top
  unfold closeDirectory
  rw [dirs']
  dsimp only
  rw [if_pos (by exact streaming), ← path]
  rfl

theorem closeDirectory_streamed_root (streaming : stream.streaming = true) (top : p.dirStack = [dir]) :
    (p.streamed stream text).closeDirectory =
      p.streamed { stream with rootSeen := true, pendingEntry := some dir.rootEntry } text := by
  have dirs' : (p.streamed stream text).dirStack = [dir.bare] := congrArg (List.map bare) top
  unfold closeDirectory
  rw [dirs']
  dsimp only
  rw [if_pos (by exact streaming)]
  rfl

theorem closeDirectory_root (tree : p.stream.streaming = false) (top : p.dirStack = [dir]) : p.closeDirectory = p := by
  unfold closeDirectory
  rw [top]
  dsimp only
  rw [if_neg (by simp [tree])]
  rfl

end Nodes

section Started

variable {tag : String} {attributes : Attributes}

/-- What an opening tag does to the open nodes. -/
structure Starts (tag : String) (p q : IndexParser) : Prop where
  path : q.path = p.path
  encoded : q.percentEncoded = p.percentEncoded
  unknown : q.unknownElements = p.unknownElements
  files : q.fileStack.length = p.fileStack.length + if tag = "file" then 1 else 0
  dirs : q.dirStack = if tag = "directory" then { deltaFields := p.emptyFields } :: p.dirStack else p.dirStack
  full : tag ≠ "ltfsincrementalindex" → p.header.incremental = false → q.header.incremental = false

theorem startElement_starts (ran : p.startElement tag attributes = .ok q) : Starts tag p q := by
  unfold startElement at ran
  split at ran
  · rename_i root
    have named : tag = "ltfsindex" ∨ tag = "ltfsincrementalindex" := by simpa using root
    have noFile : tag ≠ "file" := by rcases named with rfl | rfl <;> decide
    have noDirectory : tag ≠ "directory" := by rcases named with rfl | rfl <;> decide
    unfold startRoot at ran
    repeat' split at ran
    all_goals cases ran
    exact ⟨rfl, rfl, rfl, by simp [noFile], by simp [noDirectory], fun other _ => by simp [other]⟩
  · split at ran
    · rename_i directory
      unfold startDirectory at ran
      split at ran <;> cases ran
      exact ⟨rfl, rfl, rfl, by simp [directory], by simp [directory], fun _ full => full⟩
    · rename_i noDirectory
      split at ran
      · rename_i file
        cases ran
        exact ⟨rfl, rfl, rfl, by simp [file], by simp [noDirectory], fun _ full => full⟩
      · rename_i noFile
        repeat' split at ran
        all_goals cases ran
        all_goals exact ⟨rfl, rfl, rfl, by simp [noFile], by simp [noDirectory], fun _ full => full⟩

theorem startElement_streamed (tree : p.stream.streaming = false) (mode : stream.incrementalStream = some false)
    (plain : tag ≠ "ltfsincrementalindex") (unseen : tag = "directory" → stream.rootSeen = false) :
    (p.streamed stream text).startElement tag attributes =
      (·.streamed stream text) <$> p.startElement tag attributes := by
  unfold startElement
  split
  · simp [startRoot, streamed, tree, mode, plain]
  split
  · rename_i directory
    have allowed : (p.streamed stream text).startDirectory =
        .ok (streamed { p with dirStack := { deltaFields := p.emptyFields } :: p.dirStack } stream text) := by
      unfold startDirectory
      rw [if_neg]
      · rfl
      · simp [streamed, unseen directory]
    rw [allowed]
    simp [startDirectory, tree]
  · repeat' split
    all_goals rfl

end Started

end IndexParser

end TapeRs.Ltfs
