import Mathlib.Data.Finset.Basic
import Mathlib.Data.Finset.Card

namespace TapeRs.Ltfs

/-- The element names an incremental object carried; `none` is a complete object. -/
abbrev Fields := Option (Finset String)

structure Extent where
  partition : Char
  startBlock : UInt64
  byteOffset : UInt64
  byteCount : UInt64
  fileOffset : UInt64
deriving DecidableEq, Repr

structure NodeMeta where
  readonly : Bool := false
  creationTime : String := ""
  changeTime : String := ""
  modifyTime : String := ""
  accessTime : String := ""
  backupTime : String := ""
  fileUid : UInt64 := 0
deriving DecidableEq, Repr

structure Xattr where
  key : String
  value : String
  base64 : Bool
deriving DecidableEq, Repr

structure FileNode where
  deltaFields : Fields := none
  openForWrite : Option Bool := none
  name : String := ""
  length : UInt64 := 0
  nodeMeta : NodeMeta := {}
  extents : List Extent := []
  xattrs : List Xattr := []
  symlink : Option String := none
deriving DecidableEq

structure DirectoryNode where
  deltaFields : Fields := none
  name : String := ""
  nodeMeta : NodeMeta := {}
  files : List FileNode := []
  subdirs : List DirectoryNode := []
  xattrs : List Xattr := []

namespace DirectoryNode

theorem inductionOn {motive : DirectoryNode → Prop} (d : DirectoryNode)
    (node : ∀ d : DirectoryNode, (∀ child ∈ d.subdirs, motive child) → motive d) : motive d :=
  match d with
  | ⟨deltaFields, name, nodeMeta, files, subdirs, xattrs⟩ =>
    node ⟨deltaFields, name, nodeMeta, files, subdirs, xattrs⟩ (onList subdirs)
where
  onList : ∀ l : List DirectoryNode, ∀ child ∈ l, motive child
    | [], _, member => nomatch member
    | head :: tail, child, member => by
      rcases List.mem_cons.mp member with same | member
      · exact same ▸ inductionOn head node
      · exact onList tail child member

mutual
def decEq : (a b : DirectoryNode) → Decidable (a = b)
  | ⟨fields, name, nodeMeta, files, subdirs, xattrs⟩, ⟨fields', name', nodeMeta', files', subdirs', xattrs'⟩ =>
    match decEqList subdirs subdirs' with
    | isTrue children =>
      decidable_of_iff
        (fields = fields' ∧ name = name' ∧ nodeMeta = nodeMeta' ∧ files = files' ∧ xattrs = xattrs')
        (by simp [children])
    | isFalse children => isFalse (by simp [children])

def decEqList : (a b : List DirectoryNode) → Decidable (a = b)
  | [], [] => isTrue rfl
  | [], _ :: _ => isFalse (by simp)
  | _ :: _, [] => isFalse (by simp)
  | x :: xs, y :: ys =>
    match decEq x y, decEqList xs ys with
    | isTrue head, isTrue tail => isTrue (by rw [head, tail])
    | isFalse head, _ => isFalse (by simp [head])
    | _, isFalse tail => isFalse (by simp [tail])
end

instance : DecidableEq DirectoryNode := decEq

end DirectoryNode

end TapeRs.Ltfs
