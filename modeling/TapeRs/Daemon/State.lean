import TapeRs.Data.Json
import TapeRs.Data.Word

namespace TapeRs.Daemon

open Json

/-- One record of the file catalog. -/
structure FileRec where
  path : String
  length : UInt64
  sha256 : String
  version : UInt64 × UInt64
  deleted : Bool
  metadata : Value

inductive Command where
  | catalogQuiesce
  | catalogResume (quiesceIndex : UInt64)
  | catalogFreeze (quiesceIndex : UInt64)
  | manage (request : Value)
  | observeTape (barcode : String) (observation : Value)
  | managementReport (task round : UInt64) (phase : String) (result : Value)
  | fileTask (task round : UInt64) (pool path status : String) (generation : Option UInt64) (reason : String)
  | vipAcquire (address : UInt32) (node round expectedToken : UInt64)
  | vipRelease (address : UInt32) (node round token : UInt64)
  | executorReport (node inst round sequence : UInt64) (command : Command)
  | executorReady (node round : UInt64)
  | candidate (node inst sequence : UInt64) (group : String) (drives : Nat) (eligible : Bool)
  | assignExecutor (node inst term : UInt64) (expectedRound : Option UInt64) (group : String)
  | rebalanceExecutor (node inst term expectedRound expectedInstance idleSequence : UInt64) (group : String)
  | deviceActivity (sequence : UInt64) (busy : Bool)
  | takeover (node term : UInt64)
  | fenced (node round : UInt64)
  | abandoned (node round : UInt64) (reason : String)
  | poolCreate (uuid name : String) (fileLimit : UInt64)
  | tapeAssign (barcode pool : String)
  | tapeUnassign (barcode : String)
  | tapeState (barcode state : String)
  | tapeReclaim (barcode : String)
  | tapeReclaimed (barcode volumeUuid : String)
  | catalogPart (barcode : String) (generation : UInt64) (part : UInt32) (files : List FileRec)
  | tapeCommitted (barcode volumeUuid : String) (generation files bytesUsed bytesWritten : UInt64) (parts : UInt32)
      (full : Bool)

structure Executor where
  node : UInt64
  term : UInt64
  /-- The log index of the entry that made this node the executor. -/
  round : UInt64
  fenced : Bool
deriving DecidableEq, Repr

structure VipOwner where
  node : UInt64
  round : UInt64
deriving DecidableEq, Repr

/-- The token stays behind a release, so that a late request cannot take the address back. -/
structure VipRecord where
  token : UInt64 := 0
  holder : Option VipOwner := none
deriving DecidableEq, Repr

structure DeviceActivityState where
  node : UInt64
  inst : UInt64
  round : UInt64
  sequence : UInt64
  busy : Bool
deriving DecidableEq, Repr

structure Candidate where
  inst : UInt64
  sequence : UInt64
  group : String
  drives : Nat
  eligible : Bool
deriving DecidableEq, Repr

structure Pool where
  name : String
  fileLimit : UInt64
deriving DecidableEq, Repr

structure TapeSummary where
  volumeUuid : String
  generation : UInt64
  files : UInt64
  bytesUsed : UInt64
  bytesWritten : UInt64
deriving DecidableEq, Repr

inductive TapeStatus where
  | appendable
  | dataFull
  | full
  | labelMismatch
  | check
  | reclaiming
  | reformatting
deriving DecidableEq, Repr

namespace TapeStatus

def text : TapeStatus → String
  | appendable => "appendable"
  | dataFull => "data_full"
  | full => "full"
  | labelMismatch => "label_mismatch"
  | check => "check"
  | reclaiming => "reclaiming"
  | reformatting => "reformatting"

def all : List TapeStatus := [appendable, dataFull, full, labelMismatch, check, reclaiming, reformatting]

def parse (text : String) : Option TapeStatus := all.find? fun status => status.text = text

def inReclaim (status : TapeStatus) : Bool := status = reclaiming || status = reformatting

end TapeStatus

/-- The text of a reply; a JSON reply is the compact text of its value. -/
inductive Reply where
  | text (message : String)
  | json (value : Value)

/-- What applying a command comes to. -/
inductive Applied where
  | catalogRejected
  | reported (inner : Applied)
  | management (changes : Value)
  | newExecutor (executor : Executor)
  | fenceConfirmed (executor : Executor)
  | fenceSuperseded (node round : UInt64)
  | executorGone (node round : UInt64)
  | catalogCommitted
  | reclaimed
  | admin (reply : Except String Reply)
  | nothing

def historyKept : Nat := 64

/-- The replicated control state. Maps over numbers are keyed by their value. -/
structure ControlState where
  catalogQuiesceIndex : Option UInt64 := none
  catalogFrozenIndex : Option UInt64 := none
  management : Value := .null
  vips : SortedMap Nat VipRecord := .empty
  executor : Option Executor := none
  executorInstance : UInt64 := 0
  executorReportSequence : UInt64 := 0
  executorReady : Bool := false
  deviceActivity : Option DeviceActivityState := none
  candidates : SortedMap Nat Candidate := .empty
  appliedIndex : UInt64 := 0
  history : List (UInt64 × UInt64) := []
  pools : SortedMap String Pool := .empty
  tapes : SortedMap String String := .empty
  tapeState : SortedMap String TapeStatus := .empty
  tapeSummary : SortedMap String TapeSummary := .empty

namespace ControlState

def resolvePool (c : ControlState) (pool : String) : Option String :=
  if c.pools.contains pool then some pool
  else (c.pools.entries.find? fun entry => entry.2.name = pool).map Prod.fst

def poolName (c : ControlState) (uuid : String) : String := ((c.pools.get uuid).map (·.name)).getD ""

def poolLimit (c : ControlState) (uuid : String) : UInt64 := ((c.pools.get uuid).map (·.fileLimit)).getD 0

def tapeStatus (c : ControlState) (barcode : String) : TapeStatus := (c.tapeState.get barcode).getD .appendable

def reclaims (c : ControlState) : Bool := c.tapeState.entries.any fun entry => entry.2.inReclaim

end ControlState

end TapeRs.Daemon
