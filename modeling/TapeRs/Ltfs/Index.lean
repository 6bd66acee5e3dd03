import TapeRs.Error
import TapeRs.Ltfs.Node

namespace TapeRs.Ltfs

abbrev Uuid := BitVec 128

structure IndexLocation where
  partition : Char
  startBlock : UInt64
deriving DecidableEq, Repr

structure LtfsIndex where
  incremental : Bool := false
  materialized : Bool := false
  previousIncrementalLocation : Option IndexLocation := none
  comment : Option String := none
  version : String
  creator : String
  volumeUuid : Uuid
  generation : UInt64
  updateTime : String
  selfLocation : IndexLocation
  previousLocation : Option IndexLocation := none
  allowPolicyUpdate : Bool := true
  highestFileUid : UInt64
  volumeLockState : Option String := none
  unknownElements : List String := []
  root : DirectoryNode
deriving DecidableEq

def ltfsVersion : String := "2.4.0"

namespace LtfsIndex

def cloneWithRoot (index : LtfsIndex) (root : DirectoryNode) : LtfsIndex :=
  { index with root }

def empty (volumeUuid : Uuid) (creator : String) (dataPartition : Char) (now : String) : LtfsIndex :=
  { version := ltfsVersion
    creator
    volumeUuid
    generation := 1
    updateTime := now
    selfLocation := { partition := dataPartition, startBlock := 0 }
    highestFileUid := 1
    root :=
      { nodeMeta :=
          { creationTime := now, changeTime := now, modifyTime := now, accessTime := now, backupTime := now
            fileUid := 1 } } }

end LtfsIndex

def joinPath (path name : String) : String :=
  if path.isEmpty then name else path ++ "/" ++ name

mutual
def walkDir (dir : DirectoryNode) (path : String) : List (String × FileNode) :=
  match dir with
  | ⟨_, _, _, files, subdirs, _⟩ =>
    files.map (fun file => (joinPath path file.name, file)) ++ walkDirs subdirs path

def walkDirs : List DirectoryNode → String → List (String × FileNode)
  | [], _ => []
  | sub :: rest, path => walkDir sub (joinPath path sub.name) ++ walkDirs rest path
end

def LtfsIndex.walkFiles (index : LtfsIndex) : List (String × FileNode) :=
  walkDir index.root ""

end TapeRs.Ltfs
