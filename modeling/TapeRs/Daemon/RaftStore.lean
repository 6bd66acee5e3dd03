import Mathlib.Data.List.Sort
import TapeRs.Data.SortedMap
import TapeRs.Data.Word

namespace TapeRs.Daemon.Store

inductive EntryType where
  | normal
  | confChange
  | confChangeV2
deriving DecidableEq, Repr

structure Entry where
  entryType : EntryType
  term : UInt64
  index : UInt64
  data : List UInt8
  context : List UInt8
  syncLog : Bool
deriving DecidableEq, Repr

structure HardState where
  term : UInt64
  vote : UInt64
  commit : UInt64
deriving DecidableEq, Repr

structure ConfState where
  voters : List UInt64
  learners : List UInt64
  votersOutgoing : List UInt64
  learnersNext : List UInt64
  autoLeave : Bool
deriving DecidableEq, Repr

def ConfState.of (voters : List UInt64) : ConfState := ⟨voters, [], [], [], false⟩

structure SnapshotMetadata where
  confState : ConfState
  index : UInt64
  term : UInt64
deriving DecidableEq, Repr

structure Snapshot where
  data : List UInt8
  metadata : SnapshotMetadata
deriving DecidableEq, Repr

def Snapshot.isEmpty (s : Snapshot) : Bool := s.metadata.index = 0

def HardState.raise (hs : HardState) (snap : SnapshotMetadata) : HardState :=
  if hs.term < snap.term then { term := snap.term, vote := 0, commit := snap.index }
  else { hs with commit := snap.index }

/-- The log cache of the Raft library, as its documentation describes it. -/
structure MemStorage where
  hardState : HardState
  confState : ConfState
  entries : List Entry
  snapshotMetadata : SnapshotMetadata
deriving DecidableEq, Repr

/-- The two ways in which the cache refuses a call: an error, or a panic. -/
inductive MemError where
  | snapshotOutOfDate
  | panicked
deriving DecidableEq, Repr

namespace MemStorage

def newWithConfState (conf : ConfState) : MemStorage where
  hardState := ⟨0, 0, 0⟩
  confState := conf
  entries := []
  snapshotMetadata := ⟨.of [], 0, 0⟩

def firstIndex (m : MemStorage) : UInt64 :=
  match m.entries.head? with
  | some entry => entry.index
  | none => m.snapshotMetadata.index + 1

def lastIndex (m : MemStorage) : UInt64 :=
  match m.entries.getLast? with
  | some entry => entry.index
  | none => m.snapshotMetadata.index

def term (m : MemStorage) (index : UInt64) : Option UInt64 :=
  if index = m.snapshotMetadata.index then some m.snapshotMetadata.term
  else if index < m.firstIndex then none
  else (m.entries[(index - m.firstIndex).toNat]?).map Entry.term

def applySnapshot (m : MemStorage) (snap : Snapshot) : Except MemError MemStorage :=
  if snap.metadata.index < m.firstIndex then .error .snapshotOutOfDate
  else .ok
    { hardState := { m.hardState with
        term := max m.hardState.term snap.metadata.term
        commit := snap.metadata.index }
      confState := snap.metadata.confState
      entries := []
      snapshotMetadata := snap.metadata }

def applyAny (m : MemStorage) : Option Snapshot → Except MemError MemStorage
  | some snap => m.applySnapshot snap
  | none => .ok m

def compact (m : MemStorage) (index : UInt64) : Except MemError MemStorage :=
  if index ≤ m.firstIndex then .ok m
  else if m.lastIndex + 1 < index then .error .panicked
  else .ok { m with entries := m.entries.drop (index - m.firstIndex).toNat }

def append (m : MemStorage) (entries : List Entry) : Except MemError MemStorage :=
  match entries with
  | [] => .ok m
  | first :: _ =>
    if first.index < m.firstIndex then .error .panicked
    else if m.lastIndex + 1 < first.index then .error .panicked
    else .ok { m with entries := m.entries.take (first.index - m.firstIndex).toNat ++ entries }

end MemStorage

/-- A message type and its wire format. -/
structure Codec (β α : Type) where
  write : α → β
  parse : β → Option α
  parse_write : ∀ message, parse (write message) = some message

structure Protobuf (β : Type) where
  entry : Codec β Entry
  hardState : Codec β HardState
  snapshot : Codec β Snapshot
  confState : Codec β ConfState

/-- The tables of the control store. -/
structure Tables (β : Type) where
  hardstate : Option β
  entries : SortedMap Int β
  snapshot : Option β
  membership : Option β

def Tables.empty {β : Type} : Tables β := ⟨none, .empty, none, none⟩

inductive Statement (β : Type) where
  | deleteEntries
  | deleteFrom (index : Int)
  | deleteBefore (index : Int)
  | insertEntry (index : Int) (data : β)
  | putSnapshot (data : β)
  | putHardstate (data : β)

def Tables.run {β : Type} (t : Tables β) : Statement β → Option (Tables β)
  | .deleteEntries => some { t with entries := .empty }
  | .deleteFrom index => some { t with entries := t.entries.filter fun other _ => other < index }
  | .deleteBefore index => some { t with entries := t.entries.filter fun other _ => index ≤ other }
  | .insertEntry index data =>
    if t.entries.contains index then none else some { t with entries := t.entries.insert index data }
  | .putSnapshot data => some { t with snapshot := some data }
  | .putHardstate data => some { t with hardstate := some data }

def Tables.runAll {β : Type} (t : Tables β) : List (Statement β) → Option (Tables β)
  | [] => some t
  | statement :: rest => (t.run statement).bind fun t => t.runAll rest

inductive StoreError where
  | database
  | protobuf
  | memory (error : MemError)
  | ltfs (text : String)
deriving DecidableEq, Repr

def fixedVoters (conf : ConfState) : Except StoreError (List UInt64) :=
  let members := conf.voters.insertionSort (· ≤ ·)
  if members.isEmpty || members.head? = some 0 || (members.zip members.tail).any (fun ids => ids.1 = ids.2) ||
      !conf.votersOutgoing.isEmpty || !conf.learners.isEmpty || !conf.learnersNext.isEmpty || conf.autoLeave then
    .error (.ltfs "当前控制存储仅支持非空、唯一的固定投票成员")
  else .ok members

/-- The store of a running process; its tables are on disk. -/
structure RaftStore where
  mem : MemStorage
  /-- The snapshot that is handed to nodes left behind. -/
  latest : Option Snapshot
  voters : List UInt64
  snapshotIndex : UInt64
  loaded : Option Snapshot
  sinceEntries : Nat
  sinceBytes : Nat
deriving DecidableEq, Repr

/-- The fate of a call: all goes well, a database step fails, or the process stops before a step. The steps are the
    statements and the commit; a process that stops later has made the transaction durable. -/
inductive Fate where
  | runs
  | fails (step : Nat)
  | stops (step : Nat)
deriving DecidableEq, Repr

inductive Outcome where
  | returned (result : Except StoreError Unit) (store : RaftStore)
  | stopped

namespace RaftStore

variable {β : Type} (pb : Protobuf β)

def openSnapshot (t : Tables β) : Except StoreError (Option Snapshot) :=
  match t.snapshot with
  | none => .ok none
  | some bytes =>
    match pb.snapshot.parse bytes with
    | some snap => .ok (some snap)
    | none => .error (.ltfs "控制存储里的快照损坏")

def openInitial (t : Tables β) : Except StoreError (Option (List UInt64)) :=
  match t.membership with
  | none => .ok none
  | some bytes =>
    match pb.confState.parse bytes with
    | some conf => (fixedVoters conf).map some
    | none => .error .protobuf

def openVoters (t : Tables β) (snapshot : Option Snapshot) (initial : Option (List UInt64)) (expected : List UInt64) :
    Except StoreError (Tables β × List UInt64) :=
  match snapshot with
  | some snap => do
    let members ← fixedVoters snap.metadata.confState
    if initial.any (· ≠ members) then .error (.ltfs "快照与初始持久成员不一致") else .ok (t, members)
  | none =>
    match initial with
    | some initial => .ok (t, initial)
    | none =>
      if t.hardstate.isSome || !t.entries.entries.isEmpty then
        .error (.ltfs "非空控制存储缺少初始成员或快照证据，拒绝猜测成员")
      else .ok ({ t with membership := some (pb.confState.write (.of expected)) }, expected)

def openEntries (t : Tables β) (snapshotIndex : UInt64) : Except StoreError (List Entry) :=
  ((t.entries.filter fun index _ => Word.signed snapshotIndex < index).entries.map Prod.snd).mapM fun bytes =>
    match pb.entry.parse bytes with
    | some entry => .ok entry
    | none => .error (.ltfs "控制存储里的日志条目损坏")

def openHardstate (t : Tables β) (mem : MemStorage) (snapshotIndex last : UInt64) : Except StoreError MemStorage :=
  match t.hardstate with
  | none => .ok mem
  | some bytes =>
    match pb.hardState.parse bytes with
    | none => .error (.ltfs "控制存储里的 HardState 损坏")
    | some hs =>
      if hs.commit < snapshotIndex || last < hs.commit then .error (.ltfs "持久 HardState 提交位置超出日志/快照边界")
      else .ok { mem with hardState := hs }

def orMemory {α : Type} (result : Except MemError α) : Except StoreError α := result.mapError .memory

def load (t : Tables β) (snapshot : Option Snapshot) (voters : List UInt64) : Except StoreError RaftStore := do
  let mem ← orMemory ((MemStorage.newWithConfState (.of voters)).applyAny snapshot)
  let snapshotIndex := snapshot.elim 0 fun snap => snap.metadata.index
  let entries ← openEntries pb t snapshotIndex
  let mem ← orMemory (mem.append entries)
  let last := entries.getLast?.elim snapshotIndex Entry.index
  let mem ← openHardstate pb t mem snapshotIndex last
  .ok
    { mem, latest := snapshot, voters, snapshotIndex, loaded := snapshot
      sinceEntries := entries.length
      sinceBytes := (entries.map fun entry => entry.data.length).sum }

def openStore (t : Tables β) (voters : List UInt64) : Tables β × Except StoreError RaftStore :=
  let found := do
    let expected ← fixedVoters (.of voters)
    let snapshot ← openSnapshot pb t
    let initial ← openInitial pb t
    let (t, members) ← openVoters pb t snapshot initial expected
    .ok (t, members, snapshot, expected)
  match found with
  | .error e => (t, .error e)
  | .ok (t, members, snapshot, expected) =>
    if members ≠ expected then (t, .error (.ltfs "启动成员与持久成员不一致；不支持通过 CLI 重配成员"))
    else (t, load pb t snapshot members)

def checkSnapshot (s : RaftStore) : Option Snapshot → Except StoreError Unit
  | none => .ok ()
  | some snap =>
    let boundary := snap.metadata.index
    if boundary ≤ s.snapshotIndex || boundary < s.mem.hardState.commit then .error (.ltfs "快照边界或持久成员无效")
    else do
      let members ← fixedVoters snap.metadata.confState
      if members ≠ s.voters then .error (.ltfs "快照边界或持久成员无效") else .ok ()

def boundary (s : RaftStore) (snapshot : Option Snapshot) : UInt64 :=
  snapshot.elim s.snapshotIndex fun snap => snap.metadata.index

def before (s : RaftStore) (snapshot : Option Snapshot) : UInt64 :=
  snapshot.elim s.mem.lastIndex fun snap => snap.metadata.index

def saturatingSucc (n : UInt64) : UInt64 := (Word.succ? n).getD n

def checkEntries (s : RaftStore) (snapshot : Option Snapshot) : List Entry → Except StoreError Unit
  | [] => .ok ()
  | first :: rest =>
    let entries := first :: rest
    if first.index ≤ s.boundary snapshot || first.index ≤ s.mem.hardState.commit ||
        saturatingSucc (s.before snapshot) < first.index ||
        (entries.zip rest).any (fun pair => Word.succ? pair.1.index ≠ some pair.2.index) ||
        entries.any (fun entry => 0x7FFFFFFFFFFFFFFF < entry.index) then
      .error (.ltfs "日志不连续或试图覆写已提交/快照历史")
    else .ok ()

def nextHardstate (s : RaftStore) (snapshot : Option Snapshot) (hardstate : Option HardState) : HardState :=
  match hardstate, snapshot with
  | some hs, _ => hs
  | none, some snap => s.mem.hardState.raise snap.metadata
  | none, none => s.mem.hardState

def checkHardstate (s : RaftStore) (snapshot : Option Snapshot) (entries : List Entry) (hs : HardState) :
    Except StoreError Unit :=
  let previous := s.mem.hardState
  let last := entries.getLast?.elim (s.before snapshot) Entry.index
  if hs.term < previous.term || hs.commit < previous.commit || hs.commit < s.boundary snapshot || last < hs.commit ||
      (hs.term = previous.term && previous.vote ≠ 0 && hs.vote ≠ previous.vote) then
    .error (.ltfs "HardState 任期、投票或提交位置无效")
  else .ok ()

def check (s : RaftStore) (snapshot : Option Snapshot) (entries : List Entry) (hardstate : Option HardState) :
    Except StoreError Unit := do
  s.checkSnapshot snapshot
  s.checkEntries snapshot entries
  s.checkHardstate snapshot entries (s.nextHardstate snapshot hardstate)

def snapshotStatements : Option Snapshot → List (Statement β)
  | none => []
  | some snap => [.deleteEntries, .putSnapshot (pb.snapshot.write snap)]

def entryStatements : List Entry → List (Statement β)
  | [] => []
  | first :: rest => .deleteFrom (Word.signed first.index) ::
      (first :: rest).map fun entry => .insertEntry (Word.signed entry.index) (pb.entry.write entry)

def hardstateStatements (write : Bool) (hs : HardState) : List (Statement β) :=
  if write then [.putHardstate (pb.hardState.write hs)] else []

def finishSnapshot (s : RaftStore) (snap : Snapshot) : RaftStore :=
  { s with
    snapshotIndex := snap.metadata.index
    sinceEntries := 0
    sinceBytes := 0
    latest := some snap }

def remember (s : RaftStore) (snapshot : Option Snapshot) (entries : List Entry) (write : Bool) (hs : HardState) :
    Except MemError RaftStore := do
  let mem ← s.mem.applyAny snapshot
  let mem ← mem.append entries
  let mem := if write then { mem with hardState := hs } else mem
  let s := { s with mem }
  let s := match snapshot with
    | some snap => s.finishSnapshot snap
    | none => s
  .ok { s with
    sinceEntries := s.sinceEntries + entries.length
    sinceBytes := s.sinceBytes + (entries.map fun entry => entry.data.length).sum }

def settle (t : Tables β) (s : RaftStore) (work : List (Statement β)) (memory : Except MemError RaftStore) (fate : Fate) :
    Tables β × Outcome :=
  let whole : Tables β × Outcome :=
    match t.runAll work with
    | none => (t, .returned (.error .database) s)
    | some t =>
      match memory with
      | .ok s => (t, .returned (.ok ()) s)
      | .error .snapshotOutOfDate => (t, .returned (.error (.memory .snapshotOutOfDate)) s)
      | .error .panicked => (t, .stopped)
  match fate with
  | .runs => whole
  | .fails step => if step ≤ work.length then (t, .returned (.error .database) s) else whole
  | .stops step => if step ≤ work.length then (t, .stopped) else ((t.runAll work).getD t, .stopped)

def answer (t : Tables β) (s : RaftStore) (result : Except StoreError Unit) : Fate → Tables β × Outcome
  | .stops _ => (t, .stopped)
  | _ => (t, .returned result s)

def persistReady (t : Tables β) (s : RaftStore) (snapshot : Option Snapshot) (entries : List Entry)
    (hardstate : Option HardState) (fate : Fate) : Tables β × Outcome :=
  let snapshot := snapshot.filter fun snap => !snap.isEmpty
  if snapshot.isNone && entries.isEmpty && hardstate.isNone then answer t s (.ok ()) fate
  else
    match s.check snapshot entries hardstate with
    | .error e => answer t s (.error e) fate
    | .ok () =>
      let hs := s.nextHardstate snapshot hardstate
      let write := hardstate.isSome || snapshot.isSome
      settle t s (snapshotStatements pb snapshot ++ entryStatements pb entries ++ hardstateStatements pb write hs)
        (s.remember snapshot entries write hs) fate

def buildSnapshot (s : RaftStore) (index : UInt64) (data : List UInt8) : Option Snapshot :=
  (s.mem.term index).map fun term => ⟨data, ⟨.of s.voters, index, term⟩⟩

def compactTo (t : Tables β) (s : RaftStore) (snap : Snapshot) (fate : Fate) : Tables β × Outcome :=
  let index := snap.metadata.index
  if index ≤ s.snapshotIndex then answer t s (.ok ()) fate
  else
    settle t s [.deleteBefore (Word.signed index), .putSnapshot (pb.snapshot.write snap)]
      ((s.mem.compact index).map fun mem => finishSnapshot { s with mem } snap) fate

end RaftStore

inductive Call where
  | persistReady (snapshot : Option Snapshot) (entries : List Entry) (hardstate : Option HardState)
  | append (entries : List Entry)
  | setHardstate (hs : HardState)
  | setCommit (commit : UInt64)
  | installSnapshot (snap : Snapshot)
  | compactTo (snap : Snapshot)

def RaftStore.call {β : Type} (pb : Protobuf β) (t : Tables β) (s : RaftStore) (call : Call) (fate : Fate) :
    Tables β × Outcome :=
  match call with
  | .persistReady snapshot entries hardstate => s.persistReady pb t snapshot entries hardstate fate
  | .append entries => s.persistReady pb t none entries none fate
  | .setHardstate hs => s.persistReady pb t none [] (some hs) fate
  | .setCommit commit => s.persistReady pb t none [] (some { s.mem.hardState with commit }) fate
  | .installSnapshot snap => s.persistReady pb t (some snap) [] none fate
  | .compactTo snap => s.compactTo pb t snap fate

/-- A node: its tables, and the store of its process while it runs. -/
structure Node (β : Type) where
  tables : Tables β
  store : Option RaftStore

inductive Event where
  | call (call : Call) (fate : Fate)
  | start (fate : Fate)
  | stop

namespace Node

variable {β : Type} (pb : Protobuf β) (voters : List UInt64)

def fresh : Node β := ⟨.empty, none⟩

/-- The process opens the store; it may fail, or stop, before or after it has written the initial members. -/
def start (n : Node β) (fate : Fate) : Node β :=
  let (tables, opened) := RaftStore.openStore pb n.tables voters
  match fate with
  | .runs => ⟨tables, opened.toOption⟩
  | .fails step | .stops step => ⟨if step = 0 then n.tables else tables, none⟩

def step (n : Node β) (event : Event) : Node β :=
  match event, n.store with
  | .call call fate, some s =>
    match s.call pb n.tables call fate with
    | (tables, .returned _ s) => ⟨tables, some s⟩
    | (tables, .stopped) => ⟨tables, none⟩
  | .start fate, none => n.start pb voters fate
  | .stop, _ => ⟨n.tables, none⟩
  | _, _ => n

end Node

end TapeRs.Daemon.Store
