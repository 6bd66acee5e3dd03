import TapeRs.Data.Op
import TapeRs.Data.Run
import TapeRs.Daemon.Vips

namespace TapeRs.Daemon

-- Instants and durations are counted in nanoseconds.
def second : Nat := 1000000000

/-- The longest time the kernel is asked to keep the address without another refresh, in seconds. -/
def vipLifetime : Nat := 2

inductive NetCall where
  | refresh
  | remove
  | announce
deriving DecidableEq, Repr

/-- How a call to the network interface ends; one that fails may have done its work all the same. -/
structure NetAnswer where
  ok : Bool
  done : Bool := true
deriving DecidableEq, Repr

/-- What a node has done about the address. -/
inductive VipEvent where
  | refreshed (token : Option UInt64)
  | removed
  | released (token : UInt64)
deriving DecidableEq, Repr

structure Lease where
  held : Bool := false
  announced : Option Nat := none
deriving DecidableEq, Repr

structure VipSession where
  lease : Lease := {}
  releasedToken : UInt64 := 0
  token : Option UInt64 := none
deriving DecidableEq, Repr

/-- The thread that looks after the address on one node, and the interface it works on. -/
structure VipWorker where
  session : VipSession := {}
  present : Bool := false
  /-- How the next calls to the interface will end. -/
  answers : List NetAnswer := []
  events : List VipEvent := []
deriving DecidableEq, Repr

/-- The part of the node's status that the thread reads. -/
structure NodeStatus where
  id : UInt64
  vips : SortedMap Nat VipRecord
  executor : Option Executor
  shuttingDown : Bool

abbrev NetOp := Op VipWorker NetCall

namespace VipWorker

def answer (w : VipWorker) : NetAnswer := w.answers.headD { ok := true }

def addAddress (w : VipWorker) : VipWorker :=
  { w with
    present := w.present || w.answer.ok || w.answer.done
    answers := w.answers.tail
    events := w.events ++ [.refreshed w.session.token] }

def dropAddress (w : VipWorker) : VipWorker :=
  { w with
    present := w.present && !(w.answer.ok || w.answer.done)
    answers := w.answers.tail
    events := if w.answer.ok then w.events ++ [.removed] else w.events }

def setLease (w : VipWorker) (lease : Lease) : VipWorker := { w with session := { w.session with lease } }

def setToken (w : VipWorker) (token : Option UInt64) : VipWorker := { w with session := { w.session with token } }

def sealToken (w : VipWorker) (token : UInt64) : VipWorker :=
  { w with session := { w.session with releasedToken := max w.session.releasedToken token } }

end VipWorker

namespace AddressManager

def refresh (_lifetime : Nat) : NetOp Unit := fun w =>
  (if w.answer.ok then .ok () else .error .refresh, w.addAddress)

def remove : NetOp Unit := fun w =>
  (if w.answer.ok then .ok () else .error .remove, w.dropAddress)

def announce : NetOp Unit := fun w =>
  (if w.answer.ok then .ok () else .error .announce, { w with answers := w.answers.tail })

end AddressManager

namespace Lease

def withdraw : NetOp Unit := do
  AddressManager.remove
  Op.modify fun w => w.setLease {}

/-- `clock` and `later` are the times read before the address is refreshed and behind it. -/
def step (now : Nat) (owner : Option (UInt64 × Nat)) (clock later : Nat) : NetOp Unit :=
  match owner.filter fun o => 2 * second ≤ o.2 - now with
  | none => withdraw
  | some (_, deadline) =>
    let lifetime := min ((deadline - clock) / second - 1) vipLifetime
    if lifetime = 0 then withdraw
    else do
      AddressManager.refresh lifetime
      if deadline ≤ later then withdraw
      else do
        Op.modify fun w => w.setLease
          { held := true, announced := if w.session.lease.held then w.session.lease.announced else none }
        let w ← Op.get
        if w.session.lease.announced.all fun last => 2 * second ≤ now - last then do
          AddressManager.announce
          Op.modify fun w => w.setLease { w.session.lease with announced := some now }

end Lease

namespace NodeStatus

def record (status : NodeStatus) (address : UInt32) : VipRecord := (status.vips.get address.toNat).getD {}

def assigned (status : NodeStatus) : Option UInt64 :=
  (status.executor.filter fun e => e.node = status.id && !status.shuttingDown).map (·.round)

/-- The status grants the address to this node, under a token that it has not given up. -/
def grants (status : NodeStatus) (address : UInt32) (released : UInt64) : Option VipOwner :=
  (status.record address).holder.filter fun holder =>
    holder.node = status.id && some holder.round = status.assigned && released < (status.record address).token

end NodeStatus

namespace VipSession

def adopt (token : UInt64) : NetOp Unit := do
  let w ← Op.get
  if w.session.token = some token then return ()
  else do
    Lease.withdraw
    Op.modify fun w => w.setToken (some token)

def keep (status : NodeStatus) (address : UInt32) (holder : VipOwner) (now : Nat) (owner : Option (UInt64 × Nat))
    (clock later : Nat) : NetOp (Option Command) := do
  adopt (status.record address).token
  (Lease.step now (owner.filter fun o => o.1 = holder.round) clock later).onError id
    fun _ w => w.sealToken (status.record address).token
  return none

def propose (status : NodeStatus) (address : UInt32) : NetOp (Option Command) :=
  match (status.record address).holder, status.assigned with
  | some holder, _ =>
    if holder.node = status.id then do
      Op.modify fun w => w.sealToken (status.record address).token
      return some (.vipRelease address holder.node holder.round (status.record address).token)
    else return none
  | none, some round => return some (.vipAcquire address status.id round (status.record address).token)
  | none, none => return none

/-- An address that is taken down has been read back as gone; a failure to do so must not be followed by a release. -/
def yield (status : NodeStatus) (address : UInt32) : NetOp (Option Command) := do
  Lease.withdraw
  Op.modify fun w => w.setToken none
  propose status address

def step (status : NodeStatus) (address : UInt32) (now : Nat) (owner : Option (UInt64 × Nat)) (clock later : Nat) :
    NetOp (Option Command) := do
  let w ← Op.get
  match status.grants address w.session.releasedToken with
  | some holder => keep status address holder now owner clock later
  | none => yield status address

end VipSession

namespace VipWorker

def note (w : VipWorker) : Option Command → VipWorker
  | some (.vipRelease _ _ _ token) => { w with events := w.events ++ [.released token] }
  | _ => w

/-- One turn of the thread: a step of the session and, if that fails, another attempt to take the address down. -/
def poll (w : VipWorker) (status : NodeStatus) (address : UInt32) (now : Nat) (owner : Option (UInt64 × Nat))
    (clock later : Nat) : VipWorker × Option Command :=
  match VipSession.step status address now owner clock later w with
  | (.ok command, after) => (after.note command, command)
  | (.error _, after) => (after.dropAddress.setLease {}, none)

end VipWorker

/-- The nodes that look after one address, and the log they all apply. -/
structure VipCluster where
  address : UInt32
  log : List Entry := []
  workers : UInt64 → VipWorker := fun _ => {}
  /-- How much of the log each node has applied. -/
  seen : UInt64 → Nat := fun _ => 0
  /-- Every command that a node has ever proposed. -/
  sent : List Command := []

namespace VipCluster

inductive Action where
  | commit (index : UInt64) (cmd : Command)
  | learn (node : UInt64) (length : Nat)
  | poll (node : UInt64) (shuttingDown : Bool) (now : Nat) (owner : Option (UInt64 × Nat)) (clock later : Nat)
    (answers : List NetAnswer)
  /-- The kernel lets the address go when its time is up. -/
  | lapse (node : UInt64)

def status (s : VipCluster) (node : UInt64) (shuttingDown : Bool) : NodeStatus :=
  let c := replay (s.log.take (s.seen node))
  { id := node, vips := c.vips, executor := c.executor, shuttingDown }

def setWorker (s : VipCluster) (node : UInt64) (w : VipWorker) : VipCluster :=
  { s with workers := Function.update s.workers node w }

def step (s : VipCluster) : Action → VipCluster
  | .commit index cmd => { s with log := s.log ++ [(index, cmd)] }
  | .learn node length => { s with seen := Function.update s.seen node length }
  | .poll node shuttingDown now owner clock later answers =>
    let turn := VipWorker.poll { s.workers node with answers } (s.status node shuttingDown) s.address now owner clock later
    { s.setWorker node turn.1 with sent := s.sent ++ turn.2.toList }
  | .lapse node => s.setWorker node { s.workers node with present := false }

def Concerns (s : VipCluster) : Command → Prop
  | .vipAcquire address _ _ _ | .vipRelease address _ _ _ => address = s.address
  | _ => False

/-- A command about the address is in the log because a node has proposed it, and nodes do not go back in the log. -/
def Permits (s : VipCluster) : Action → Prop
  | .commit index cmd => lastIndex 0 s.log < index ∧ (s.Concerns cmd → cmd ∈ s.sent)
  | .learn node length => s.seen node ≤ length ∧ length ≤ s.log.length
  | .poll .. | .lapse _ => True

def Reached (s : VipCluster) : Prop := Run.Reaches step Permits { address := s.address } s

end VipCluster

end TapeRs.Daemon
