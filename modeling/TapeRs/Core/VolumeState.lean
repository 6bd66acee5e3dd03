import TapeRs.Core.DirNode
import TapeRs.Data.Run

namespace TapeRs.Core

inductive PendingState where
  | inProgress
  | ready
deriving DecidableEq, Repr

structure PendingEntry where
  session : SessionId
  version : Nat
  state : PendingState
  stagedLen : UInt64
  committedPrefix : UInt64
  earliestRegistered : Nat
  reservation : ReservationId
  removal : Bool
deriving DecidableEq, Repr

inductive SessionState where
  | active
  /-- Ended while a batch in flight still refers to it. -/
  | closing
  | expired
deriving DecidableEq, Repr

structure Session where
  deadline : Nat
  state : SessionState
  refs : Nat
  renewedAtEpoch : Nat
deriving DecidableEq, Repr

structure CoverEntry where
  version : Nat
  len : UInt64
  complete : Bool
  removal : Bool
deriving DecidableEq, Repr

structure FrozenBatch where
  batchId : BatchId
  instanceId : InstanceId
  baseEpoch : Nat
  generation : UInt64
  cover : SortedMap Path CoverEntry
  sessions : List SessionId
deriving DecidableEq

structure Capability where
  trusted : Bool
  readable : Bool
  writable : Bool
  reason : Option String
deriving DecidableEq, Repr

structure VolumeRoot where
  epoch : Nat
  instanceId : InstanceId
  committed : DirNode
  generation : UInt64
  pending : SortedMap Path PendingEntry
  ledger : Ledger
  sessions : SortedMap SessionId Session
  commitSlot : Option FrozenBatch
  capability : Capability

structure Waiter where
  id : Nat
  path : Path
  lenRequired : UInt64
  notified : Bool
deriving DecidableEq, Repr

inductive StateError where
  | notWritable (reason : String)
  | insufficientCapacity (requested available : UInt64)
  | sessionInvalid (session : SessionId)
  | pathBusy (path : Path)
  | noSuchPending (path : Path)
  | commitSlotOccupied (batch : BatchId)
  | staleInstance (batch current : InstanceId)
  | evidenceMismatch (expected got : BatchId)
  | publishFailed (notified : List Nat)
deriving DecidableEq, Repr

structure PublishOutcome where
  epoch : Nat
  generation : UInt64
  notified : List Nat
  duplicate : Bool
deriving DecidableEq, Repr

/-- What the caller shows to have put on tape. -/
structure S4Evidence where
  batchId : BatchId
  generation : UInt64
deriving DecidableEq, Repr

namespace VolumeRoot

def next (root : VolumeRoot) : VolumeRoot :=
  { root with epoch := root.epoch + 1 }

def buildPoison (root : VolumeRoot) : VolumeRoot :=
  { root.next with
    capability :=
      { trusted := false, readable := false, writable := false, reason := some "发布失败，视图不可信，需重建" } }

/-- Closes a session; entries that are in progress with nothing committed end with it, and its reservations are
    released unless a batch in flight refers to the session. -/
def endSession (root : VolumeRoot) (id : SessionId) : VolumeRoot :=
  match root.sessions.get id with
  | none => root
  | some s =>
    { root with
      sessions := root.sessions.insert id { s with state := if s.refs = 0 then .expired else .closing }
      pending := root.pending.filter (fun _ e =>
        !(e.session = id && e.state = .inProgress && e.committedPrefix = 0))
      ledger := if s.refs = 0 then root.ledger.releaseSession id else root.ledger }

def due (root : VolumeRoot) (now observedEpoch : Nat) : List SessionId :=
  (root.sessions.entries.filter (fun entry =>
    !(entry.2.state ≠ .active || entry.2.renewedAtEpoch > observedEpoch || now < entry.2.deadline))).map Prod.fst

def coverView (directories : List Path) (committed : DirNode) (entry : Path × CoverEntry) : DirNode :=
  match splitPath entry.1 with
  | none => committed
  | some (dirs, name) =>
    if entry.1 ∈ directories then committed.withDirectory (dirs ++ [name]) entry.2.removal
    else
      committed.withFile dirs name
        (if entry.2.removal then none
        else some { version := entry.2.version, len := entry.2.len, partially := !entry.2.complete })

/-- Publishes one covered path. A path without components is skipped altogether. -/
def coverPath (directories : List Path) (root : VolumeRoot) (entry : Path × CoverEntry) : VolumeRoot :=
  match splitPath entry.1 with
  | none => root
  | some _ =>
    let covered : VolumeRoot := { root with committed := coverView directories root.committed entry }
    match root.pending.get entry.1 with
    | none => covered
    | some e =>
      if e.version = entry.2.version then
        if entry.2.complete && e.stagedLen = entry.2.len then
          { covered with pending := root.pending.erase entry.1, ledger := root.ledger.release e.reservation }
        else { covered with pending := root.pending.insert entry.1 { e with committedPrefix := entry.2.len } }
      else covered

def dropRef (root : VolumeRoot) (id : SessionId) : VolumeRoot :=
  match root.sessions.get id with
  | none => root
  | some s =>
    if s.state = .closing && s.refs - 1 = 0 then
      { root with
        sessions := root.sessions.insert id { s with refs := s.refs - 1, state := .expired }
        ledger := root.ledger.releaseSession id }
    else { root with sessions := root.sessions.insert id { s with refs := s.refs - 1 } }

def published (root : VolumeRoot) (batch : FrozenBatch) (generation : UInt64) (directories : List Path) : VolumeRoot :=
  { batch.sessions.foldl dropRef (batch.cover.entries.foldl (coverPath directories) root.next) with
    generation, commitSlot := none }

/-- What a batch takes of a pending entry: all of a ready one, what was received so far of a chosen open one. -/
def coverEntry (snapshotOpen : List Path) (path : Path) (e : PendingEntry) : Option CoverEntry :=
  if !(e.state = .ready || path ∈ snapshotOpen) then none
  else if e.stagedLen ≤ e.committedPrefix && e.state ≠ .ready then none
  else some { version := e.version, len := e.stagedLen, complete := e.state = .ready, removal := e.removal }

def batchSessions (root : VolumeRoot) (snapshotOpen : List Path) : List SessionId :=
  root.pending.entries.foldl (fun ids entry =>
    if (coverEntry snapshotOpen entry.1 entry.2).isSome && entry.2.session ∉ ids then ids ++ [entry.2.session]
    else ids) []

def batch (root : VolumeRoot) (batchId : BatchId) (snapshotOpen : List Path) : FrozenBatch :=
  { batchId
    instanceId := root.instanceId
    baseEpoch := root.epoch
    generation := root.generation + 1
    cover := root.pending.collect (coverEntry snapshotOpen)
    sessions := root.batchSessions snapshotOpen }

/-- The root with a batch in its commit slot and a reference to each session of the batch. -/
def frozen (root : VolumeRoot) (batch : FrozenBatch) : VolumeRoot :=
  { root.next with
    sessions := root.sessions.map (fun id s => if id ∈ batch.sessions then { s with refs := s.refs + 1 } else s)
    commitSlot := some batch }

end VolumeRoot

/-- The state that the calls of a volume go through one at a time. -/
structure Inner where
  current : VolumeRoot
  poison : VolumeRoot
  retired : List VolumeRoot := []
  waiters : List Waiter := []
  nextBatch : BatchId := 1
  nextVersion : Nat := 1
  nextReservation : ReservationId := 1
  nextWaiter : Nat := 1
  failNextPublish : Bool := false

namespace Inner

def new (instanceId : InstanceId) (committed : DirNode) (generation baselineFree : UInt64) (writable : Bool) : Inner :=
  let root : VolumeRoot :=
    { epoch := 1
      instanceId
      committed
      generation
      pending := .empty
      ledger := { baselineFree, calibrationEpoch := 1, consumedSinceCut := 0, reservations := .empty }
      sessions := .empty
      commitSlot := none
      capability := { trusted := true, readable := true, writable, reason := none } }
  { current := root, poison := root.buildPoison }

/-- Replaces the root; the old one is retired and the next poison root is made ready. -/
def swap (g : Inner) (root : VolumeRoot) : Inner :=
  { g with current := root, retired := g.retired ++ [g.current], poison := root.buildPoison }

def poisonLocked (g : Inner) : Inner :=
  { g with current := g.poison, retired := g.retired ++ [g.current] }

def reclaim (g : Inner) (readers : Nat → Bool) : Inner :=
  { g with retired := (g.retired.zipIdx.filter (fun entry => readers entry.2)).map Prod.fst }

def openSession (g : Inner) (session : SessionId) (deadline : Nat) : Nat × Inner :=
  let root := g.current.next
  let opened : Session := { deadline, state := .active, refs := 0, renewedAtEpoch := root.epoch }
  (root.epoch, g.swap { root with sessions := root.sessions.insert session opened })

def renew (g : Inner) (session : SessionId) (newDeadline : Nat) : Except StateError Nat × Inner :=
  let root := g.current.next
  match root.sessions.get session with
  | none => (.error (.sessionInvalid session), g)
  | some s =>
    if s.state ≠ .active then (.error (.sessionInvalid session), g)
    else
      let renewed : Session := { s with deadline := max s.deadline newDeadline, renewedAtEpoch := root.epoch }
      (.ok root.epoch, g.swap { root with sessions := root.sessions.insert session renewed })

def tick (g : Inner) (now observedEpoch : Nat) : List SessionId × Inner :=
  let root := g.current.next
  let changed := root.due now observedEpoch
  if changed.isEmpty then (changed, g) else (changed, g.swap (changed.foldl VolumeRoot.endSession root))

def cancel (g : Inner) (session : SessionId) : Except StateError Nat × Inner :=
  let root := g.current.next
  match root.sessions.get session with
  | none => (.error (.sessionInvalid session), g)
  | some s => (.ok root.epoch, g.swap (if s.state = .active then root.endSession session else root))

def admitEntry (g : Inner) (session : SessionId) (path : Path) (reserve : UInt64) (now : Nat) (removal : Bool) :
    Except StateError ReservationId × Inner :=
  let root := g.current
  if !root.capability.writable then (.error (.notWritable (root.capability.reason.getD "")), g)
  else if (root.sessions.get session).map (·.state) ≠ some .active then (.error (.sessionInvalid session), g)
  else if root.pending.contains path then (.error (.pathBusy path), g)
  else if root.ledger.available < reserve then (.error (.insufficientCapacity reserve root.ledger.available), g)
  else
    let rid := g.nextReservation
    let entry : PendingEntry :=
      { session, version := g.nextVersion, state := .inProgress, stagedLen := 0, committedPrefix := 0
        earliestRegistered := now, reservation := rid, removal }
    let admitted : VolumeRoot :=
      { root.next with
        ledger := root.ledger.reserve rid { session, path, reserved := reserve, consumed := 0, released := false }
        pending := root.pending.insert path entry }
    (.ok rid, { g.swap admitted with nextReservation := g.nextReservation + 1, nextVersion := g.nextVersion + 1 })

def admitWrite (g : Inner) (session : SessionId) (path : Path) (reserve : UInt64) (now : Nat) :
    Except StateError ReservationId × Inner :=
  g.admitEntry session path reserve now false

def admitRemoval (g : Inner) (session : SessionId) (path : Path) (now : Nat) : Except StateError ReservationId × Inner :=
  g.admitEntry session path 0 now true

/-- Receives bytes; `none` is the panic on a reservation that does not exist. -/
def ingest (g : Inner) (path : Path) (bytes : UInt64) : Option (Except StateError Nat × Inner) :=
  let root := g.current
  match root.pending.get path with
  | none => some (.error (.noSuchPending path), g)
  | some e =>
    if e.state ≠ .inProgress then some (.error (.pathBusy path), g)
    else if (root.sessions.get e.session).map (·.state) ≠ some .active then
      some (.error (.sessionInvalid e.session), g)
    else
      match root.ledger.reservations.get e.reservation with
      | none => none
      | some r =>
        if r.unconsumed < bytes then some (.error (.insufficientCapacity bytes r.unconsumed), g)
        else
          let ingested : VolumeRoot :=
            { root.next with
              ledger := root.ledger.consume e.reservation r bytes
              pending := root.pending.insert path { e with stagedLen := e.stagedLen + bytes } }
          some (.ok ingested.epoch, g.swap ingested)

def stageReference (g : Inner) (path : Path) (len : UInt64) : Except StateError Unit × Inner :=
  let root := g.current.next
  match root.pending.get path with
  | none => (.error (.noSuchPending path), g)
  | some e =>
    if e.state ≠ .inProgress || e.removal then (.error (.pathBusy path), g)
    else (.ok (), g.swap { root with pending := root.pending.insert path { e with stagedLen := len } })

def complete (g : Inner) (path : Path) : Except StateError Nat × Inner :=
  let root := g.current.next
  match root.pending.get path with
  | none => (.error (.noSuchPending path), g)
  | some e => (.ok root.epoch, g.swap { root with pending := root.pending.insert path { e with state := .ready } })

def waitFor (g : Inner) (path : Path) (lenRequired : UInt64) : Nat × Inner :=
  (g.nextWaiter,
    { g with
      nextWaiter := g.nextWaiter + 1
      waiters := g.waiters ++ [{ id := g.nextWaiter, path, lenRequired, notified := false }] })

def calibrate (g : Inner) (deviceFree : UInt64) : Nat × Inner :=
  let root := g.current.next
  (root.epoch, g.swap { root with ledger := root.ledger.calibrate deviceFree root.epoch })

def freeze (g : Inner) (snapshotOpen : List Path) : Except StateError FrozenBatch × Inner :=
  let root := g.current
  match root.commitSlot with
  | some slot => (.error (.commitSlotOccupied slot.batchId), g)
  | none =>
    if !root.capability.writable then (.error (.notWritable (root.capability.reason.getD "")), g)
    else
      let batch := root.batch g.nextBatch snapshotOpen
      (.ok batch, { g.swap (root.frozen batch) with nextBatch := g.nextBatch + 1 })

def answers (batch : FrozenBatch) (w : Waiter) : Bool :=
  !w.notified && (batch.cover.get w.path).any (fun c => w.lenRequired ≤ c.len)

def notifyLocked (g : Inner) (batch : FrozenBatch) : List Nat × Inner :=
  ((g.waiters.filter (answers batch)).map (·.id),
    { g with waiters := g.waiters.map (fun w => if answers batch w then { w with notified := true } else w) })

def publishNamespace (g : Inner) (batch : FrozenBatch) (evidence : S4Evidence) (directories : List Path) :
    Except StateError PublishOutcome × Inner :=
  if evidence.batchId ≠ batch.batchId then (.error (.evidenceMismatch batch.batchId evidence.batchId), g)
  else
    let root := g.current
    if root.instanceId ≠ batch.instanceId then (.error (.staleInstance batch.instanceId root.instanceId), g)
    else
      let (notified, g) := g.notifyLocked batch
      if root.commitSlot.map (·.batchId) ≠ some batch.batchId then
        (.ok { epoch := root.epoch, generation := root.generation, notified, duplicate := true }, g)
      else if g.failNextPublish then
        (.error (.publishFailed notified), { g.poisonLocked with failNextPublish := false })
      else
        let new := root.published batch evidence.generation directories
        (.ok { epoch := new.epoch, generation := new.generation, notified, duplicate := false }, g.swap new)

def publish (g : Inner) (batch : FrozenBatch) (evidence : S4Evidence) : Except StateError PublishOutcome × Inner :=
  g.publishNamespace batch evidence []

def renotify (g : Inner) (batch : FrozenBatch) : List Nat :=
  (g.waiters.filter (fun w => w.notified && batch.cover.contains w.path)).map (·.id)

end Inner

end TapeRs.Core
