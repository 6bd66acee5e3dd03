import TapeRs.Data.Text
import TapeRs.Ltfs.Index

namespace TapeRs.Ltfs

/-- The fields of the volume label that mounting, recovery and writing use. -/
structure Label where
  volumeUuid : Uuid
  indexPartition : Char
  dataPartition : Char
  blocksize : UInt32
deriving DecidableEq

/-- What lies between the last index of a partition and the end of data. -/
inductive TailKind where
  | complete
  | emptyData
  | unindexedData
  | truncatedIndex
  | fakeIndex
  | unknown
deriving DecidableEq, Repr

namespace TailKind

def allowsAppend : TailKind → Bool
  | complete | emptyData => true
  | _ => false

def debug : TailKind → String
  | complete => "Complete"
  | emptyData => "EmptyData"
  | unindexedData => "UnindexedData"
  | truncatedIndex => "TruncatedIndex"
  | fakeIndex => "FakeIndex"
  | unknown => "Unknown"

end TailKind

/-- An index that was read back and checked; `endBlock` is its closing filemark. -/
structure IndexCandidate where
  startBlock : UInt64
  endBlock : UInt64
  constructSha256 : List UInt8
  index : LtfsIndex
deriving DecidableEq

structure PartitionScan where
  eod : UInt64
  lastIndex : Option IndexCandidate
  tail : TailKind
  budgetExhausted : Bool
deriving DecidableEq

structure RecoveryReport where
  dp : PartitionScan
  ip : PartitionScan
  chainOk : Bool
  incrementalDepth : UInt32
  appendOk : Bool
deriving DecidableEq

namespace RecoveryReport

/-- The index partition has the newer index and points back at the last one of the data partition. -/
def ipAhead (report : RecoveryReport) : Bool :=
  match report.dp.lastIndex, report.ip.lastIndex with
  | some d, some i =>
    d.index.generation < i.index.generation &&
      if d.index.incremental then
        i.index.previousIncrementalLocation = some d.index.selfLocation &&
          i.index.previousLocation = d.index.previousLocation
      else i.index.previousLocation = some d.index.selfLocation
  | _, _ => false

def view (report : RecoveryReport) : Option IndexCandidate :=
  if report.ipAhead then report.ip.lastIndex else report.dp.lastIndex.or report.ip.lastIndex

def restrictedReason (report : RecoveryReport) : Option String :=
  if report.dp.lastIndex.isNone && report.dp.budgetExhausted then some "DP 搜索预算耗尽，未能证明 IP 视图为最新"
  else if report.view.isNone then
    some (if report.dp.budgetExhausted || report.ip.budgetExhausted then "搜索预算耗尽，未找到有效索引"
      else "两个分区都没有有效索引")
  else if !report.chainOk then some "DP 回指链核验失败"
  else
    match report.dp.lastIndex, report.ip.lastIndex with
    | some d, some i =>
      if d.index.generation < i.index.generation && !report.ipAhead then
        some ("IP 索引代数 " ++ Text.decimal i.index.generation ++ " 高于 DP 代数 " ++ Text.decimal d.index.generation ++
          "，且 IP 回指针不指向 DP 末索引，两分区冲突")
      else none
    | _, _ => none

end RecoveryReport

end TapeRs.Ltfs
