import TapeRs.Data.Run
import TapeRs.Ltfs.IndexParser
import TapeRs.Ltfs.Tree

namespace TapeRs.Ltfs

open Xml

/-- The path of a node from the names of the directories that hold it; the root directory has none. -/
def nodePath (dirs : List String) (name : String) : String :=
  let path := dirs.foldl joinPath ""
  if name.isEmpty then path else joinPath path name

namespace IndexEntry

def content : IndexEntry → FileNode ⊕ DirectoryNode
  | .file _ node => .inl node
  | .directory _ node => .inr node

end IndexEntry

namespace DirectoryNode

def bare (dir : DirectoryNode) : DirectoryNode :=
  { dir with files := [], subdirs := [] }

def Childless (dir : DirectoryNode) : Prop := dir.files = [] ∧ dir.subdirs = []

mutual
/-- An entry for every node below a directory, `dirs` being the names on the way to the directory. -/
def entriesBelow (dirs : List String) : DirectoryNode → List IndexEntry
  | ⟨_, _, _, files, subdirs, _⟩ =>
    files.map (fun file => .file (nodePath dirs file.name) file) ++ entriesOf dirs subdirs

def entriesOf (dirs : List String) : List DirectoryNode → List IndexEntry
  | [] => []
  | dir :: rest =>
    .directory (nodePath dirs dir.name) dir.bare :: (entriesBelow (dirs ++ [dir.name]) dir ++ entriesOf dirs rest)
end

def entries (dirs : List String) (dir : DirectoryNode) : List IndexEntry :=
  .directory (nodePath dirs dir.name) dir.bare :: dir.entriesBelow (dirs ++ [dir.name])

theorem entriesOf_eq (dirs : List String) (subdirs : List DirectoryNode) :
    entriesOf dirs subdirs = subdirs.flatMap (entries dirs) := by
  induction subdirs with
  | nil => rfl
  | cons dir rest ih => rw [entriesOf, ih, List.flatMap_cons, entries, List.cons_append]

theorem entriesBelow_eq (dirs : List String) (dir : DirectoryNode) : dir.entriesBelow dirs =
    dir.files.map (fun file => .file (nodePath dirs file.name) file) ++ dir.subdirs.flatMap (entries dirs) := by
  cases dir
  rw [entriesBelow, entriesOf_eq]

def rootEntry (dir : DirectoryNode) : IndexEntry := .directory "" { dir.bare with name := "" }

end DirectoryNode

def LtfsIndex.entries (index : LtfsIndex) : List IndexEntry :=
  index.root.rootEntry :: index.root.entriesBelow []

/-- Where an element begins or ends. -/
inductive Mark where
  | opens (tag : String)
  | closes
deriving DecidableEq, Repr

def Mark.Known : Mark → Prop
  | .opens tag => tag ∈ knownElements
  | .closes => True

instance : DecidablePred Mark.Known
  | .opens tag => inferInstanceAs (Decidable (tag ∈ knownElements))
  | .closes => inferInstanceAs (Decidable True)

def eventMarks : Event → List Mark
  | .start tag _ => [.opens tag]
  | .empty tag _ => [.opens tag, .closes]
  | .close _ => [.closes]
  | .text _ | .cdata _ | .misc _ => []

def marks (events : List ReadEvent) : List Mark :=
  events.flatMap fun read => eventMarks read.event

/-- The element structure of a document up to some mark. -/
structure Outline where
  /-- The open elements, the innermost first. -/
  path : List String := []
  /-- Whether a node of it has ended, for every open directory, the innermost first. The root directory stays. -/
  filled : List Bool := []
  /-- The root directory has ended. -/
  ended : Bool := false
deriving DecidableEq, Repr

namespace Outline

def step (outline : Outline) : Mark → Outline
  | .opens tag =>
    { outline with
      path := tag :: outline.path
      filled := if tag = "directory" then false :: outline.filled else outline.filled }
  | .closes =>
    if outline.path.head? = some "file" then
      { outline with path := outline.path.tail, filled := outline.filled.modifyHead fun _ => true }
    else if outline.path.head? = some "directory" then
      match outline.filled with
      | _ :: _ :: outer => { outline with path := outline.path.tail, filled := true :: outer }
      | _ => { outline with path := outline.path.tail, ended := true }
    else { outline with path := outline.path.tail }

def SingleRoot (outline : Outline) : Mark → Prop
  | .opens tag => tag = "directory" → outline.ended = false
  | .closes => True

/-- No element of an increment; no node directly in an attribute, and no file before the root directory. -/
def Placed (outline : Outline) : Mark → Prop
  | .opens tag =>
    tag ≠ "ltfsincrementalindex" ∧ (tag = "file" ∨ tag = "directory" → outline.path.head? ≠ some "xattr")
  | .closes => outline.path.head? = some "file" → outline.filled ≠ []

def Attributed (outline : Outline) : Mark → Prop
  | .opens _ => True
  | .closes => outline.path.head? = some "xattr" → outline.ended = true → "file" ∈ outline.path

def NamedFirst (outline : Outline) : Mark → Prop
  | .opens _ => True
  | .closes =>
    outline.path.head? = some "name" → outline.path.tail.head? = some "directory" →
      outline.filled.head? = some true → outline.filled.length = 1

instance (outline : Outline) : DecidablePred outline.SingleRoot
  | .opens _ => inferInstanceAs (Decidable (_ → _))
  | .closes => inferInstanceAs (Decidable True)

instance (outline : Outline) : DecidablePred outline.Placed
  | .opens _ => inferInstanceAs (Decidable (_ ∧ (_ → _)))
  | .closes => inferInstanceAs (Decidable (_ → _))

instance (outline : Outline) : DecidablePred outline.Attributed
  | .opens _ => inferInstanceAs (Decidable True)
  | .closes => inferInstanceAs (Decidable (_ → _ → _))

instance (outline : Outline) : DecidablePred outline.NamedFirst
  | .opens _ => inferInstanceAs (Decidable True)
  | .closes => inferInstanceAs (Decidable (_ → _ → _ → _))

end Outline

end TapeRs.Ltfs
