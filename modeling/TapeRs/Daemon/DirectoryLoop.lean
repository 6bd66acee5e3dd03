import TapeRs.Daemon.DirectoryStages
import TapeRs.Data.Run

namespace TapeRs.Daemon

def upTo (log : List Entry) (index : UInt64) : List Entry := log.filter fun entry => entry.1 ≤ index

def between (log : List Entry) (first last : UInt64) : List Entry :=
  log.filter fun entry => first < entry.1 && entry.1 ≤ last

/-- A snapshot of the control state; the directory comes in a file of its own. -/
structure ControlSnapshot where
  index : UInt64
  control : ControlState
  source : UInt64
  /-- How far the directory of the source had come. -/
  directoryIndex : UInt64

/-- The part of the node loop that keeps the directory. -/
structure Loop where
  id : UInt64 := 1
  ctl : ControlState := {}
  applied : UInt64 := 0
  directory : Directory := {}
  /-- The node and the index that a directory is awaited from. -/
  directoryPending : Option (UInt64 × UInt64) := none
  snapshotCtl : Option (UInt64 × ControlState) := none
  /-- What the fetch that runs was asked for. -/
  fetchRunning : Option (UInt64 × UInt64) := none
  snapshotIndex : UInt64 := 0
  /-- The first entry that the Raft store still has. -/
  firstIndex : UInt64 := 1

namespace Directory

/-- Takes the place of the local directory; it is at least as far as was reported. -/
def install (file : Directory) (atLeast : UInt64) : Directory :=
  if file.applied < atLeast then { file with applied := atLeast } else file

end Directory

/-- What happens in the loop. A directory that has come in may fail to install; an empty one is opened then. -/
inductive LoopEvent where
  | commit (index : UInt64) (command : Option Command)
  | snapshot (snap : ControlSnapshot)
  | fetch
  | fetched (result : Option (UInt64 × Directory)) (installed : Bool)
  | compact

namespace Loop

variable (plan : UInt64 → Plan) (log : List Entry)

/-- Replays entries from a shadow of the control state, up to the first one that fails. -/
def replayEntries : ControlState → Directory → List Entry → Directory
  | _, d, [] => d
  | shadow, d, (index, cmd) :: rest =>
    match d.apply (plan index) index cmd (shadow.apply index cmd).2 with
    | .ok d => replayEntries (shadow.apply index cmd).1 d rest
    | .error _ => d

/-- Brings a directory from a snapshot up to what has been applied, with the entries that the store has. -/
def replayInto (l : Loop) (start : UInt64) (base : ControlState) (d : Directory) : Directory :=
  if l.applied ≤ start then d
  else if start + 1 < l.firstIndex then d
  else replayEntries plan base d (between log start l.applied)

def onCommit (l : Loop) (index : UInt64) : Option Command → Result Loop
  | none => .ok { l with applied := max l.applied index }
  | some cmd => do
    let directory ← if l.directoryPending.isNone then
        l.directory.apply (plan index) index cmd (l.ctl.apply index cmd).2
      else .ok l.directory
    .ok { l with ctl := (l.ctl.apply index cmd).1, directory, applied := max l.applied index }

def onSnapshot (l : Loop) (snap : ControlSnapshot) : Loop :=
  let l := { l with
    ctl := snap.control
    applied := snap.index
    snapshotIndex := snap.index
    firstIndex := snap.index + 1 }
  if 0 < snap.directoryIndex then
    { l with
      directoryPending := some (snap.source, snap.directoryIndex)
      snapshotCtl := some (snap.index, snap.control) }
  else l

def onFetched (l : Loop) (result : Option (UInt64 × Directory)) (installed : Bool) : Loop :=
  let l := { l with fetchRunning := none }
  match result with
  | none => l
  | some (index, file) =>
    if installed then
      let d := file.install index
      let directory :=
        match l.snapshotCtl with
        | some (start, base) => l.replayInto plan log start base d
        | none => d
      { l with directory, directoryPending := none, snapshotCtl := none }
    else { l with directory := {} }

/-- The snapshot that a node takes, which never covers more than its directory does. -/
def takeSnapshot (l : Loop) : Option ControlSnapshot :=
  let index := min l.applied l.directory.applied
  if index ≤ l.snapshotIndex then none
  else some { index, control := l.ctl, source := l.id, directoryIndex := l.directory.applied }

def onCompact (l : Loop) : Loop :=
  if l.snapshotIndex < l.applied && l.directoryPending.isNone then
    match l.takeSnapshot with
    | some snap => { l with snapshotIndex := snap.index, firstIndex := max l.firstIndex snap.index }
    | none => l
  else l

/-- One event of the loop; `none` stands for a loop that has ended with an error. -/
def step : Option Loop → LoopEvent → Option Loop
  | none, _ => none
  | some l, .commit index command => (l.onCommit plan index command).toOption
  | some l, .snapshot snap => some (l.onSnapshot snap)
  | some l, .fetch =>
    match l.directoryPending, l.fetchRunning with
    | some wanted, none => some { l with fetchRunning := some wanted }
    | _, _ => some l
  | some l, .fetched result installed => some (l.onFetched plan log result installed)
  | some l, .compact => some l.onCompact

def Exact (d : Directory) (index : UInt64) : Prop :=
  ∃ n, Node.replay plan (upTo log index) = .ok n ∧ n.directory = d

/-- What the rest of the system does: entries come in the order of the log, snapshots show the control state at their
    index and are not ahead of their directory, and a directory that comes in is exact, is reported as it is, and has come
    as far as was wanted. -/
def Fits (wanted : Loop → Option (UInt64 × UInt64)) : Option Loop → LoopEvent → Prop
  | some l, .commit index command =>
    l.applied < index ∧ between log l.applied index = command.toList.map fun cmd => (index, cmd)
  | some l, .snapshot snap =>
    l.applied < snap.index ∧ snap.control = replay (upTo log snap.index) ∧ snap.index ≤ snap.directoryIndex
  | some l, .fetched result _ =>
    l.fetchRunning.isSome ∧ ∀ index file, result = some (index, file) → Exact plan log file index ∧ file.applied = index ∧
      ∀ source want, wanted l = some (source, want) → want ≤ index
  | _, _ => True

/-- The loop begins with a directory that is not behind. -/
structure Starts (l : Loop) : Prop where
  control : l.ctl = replay (upTo log l.applied)
  exact' : Exact plan log l.directory (max l.applied l.directory.applied)
  idle : l.directoryPending = none
  quiet : l.fetchRunning = none

end Loop

end TapeRs.Daemon
