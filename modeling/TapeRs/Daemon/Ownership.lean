import TapeRs.Daemon.ReportQueue

namespace TapeRs.Daemon

/-- A call for device work: waiting for its claim to be in the log, or holding its guard. -/
structure Guard where
  round : UInt64
  tracked : Bool
  wanted : UInt64 := 0
  deadline : Nat := 0
  held : Bool
deriving DecidableEq, Repr

namespace Guard

def untracked (round : UInt64) : Guard := { round, tracked := false, held := true }

def waiting (round wanted : UInt64) (deadline : Nat) : Guard := { round, tracked := true, wanted, deadline, held := false }

end Guard

/-- One owner instance against the replicated log. -/
structure Ownership where
  log : List Entry := []
  /-- How much of the log has been applied here. -/
  seen : Nat := 0
  now : Nat
  coordinator : Coordinator
  guards : List Guard := []

namespace Ownership

inductive Action where
  /-- Another node, or this one as a leader, gets a command into the log. -/
  | propose (index : UInt64) (cmd : Command)
  /-- Something this instance has sent gets into the log, perhaps again. -/
  | deliver (index : UInt64) (place : Nat)
  | learn (count : Nat)
  | wait (time : Nat)
  | setCatalogReady (ready : Bool)
  | tick (term : UInt64) (directoryReady : Bool)
  | event (event : ExecEvent)
  | observe (directoryIdle : Bool)
  | confirm (term applied : UInt64) (directoryReady : Bool) (reads : List (UInt64 × UInt64))
  | begin (round : UInt64)
  | poll (place : Nat)
  | finish (place : Nat)

def ctl (s : Ownership) : ControlState := replay (s.log.take s.seen)

def setActivity (s : Ownership) (activity : ActivityRegistry) : Ownership :=
  { s with coordinator := { s.coordinator with permission := { s.coordinator.permission with activity } } }

def begin (s : Ownership) (round : UInt64) : Ownership :=
  if s.coordinator.permission.allows s.now round .execution then
    { s with guards := s.guards ++ [.untracked round] }
  else
    match s.coordinator.permission.deadline s.now round .serving with
    | none => s
    | some deadline =>
      match s.coordinator.permission.activity.enter round with
      | (_, .untracked) => { s with guards := s.guards ++ [.untracked round] }
      | (activity, .waiting wanted) =>
        { s.setActivity activity with guards := s.guards ++ [.waiting round wanted deadline] }
      | (activity, .lost) => s.setActivity activity

def drop (s : Ownership) (place : Nat) (g : Guard) : Ownership :=
  { if g.tracked then s.setActivity (s.coordinator.permission.activity.release g.round) else s with
    guards := s.guards.eraseIdx place }

def poll (s : Ownership) (place : Nat) : Ownership :=
  match s.guards[place]? with
  | some g =>
    if g.held then s
    else if s.coordinator.permission.activity.void g.round || !s.coordinator.permission.allows s.now g.round .serving ||
        g.deadline ≤ s.now then s.drop place g
    else if s.coordinator.permission.activity.confirmed g.round g.wanted then
      { s with guards := s.guards.set place { g with held := true } }
    else s
  | none => s

def finish (s : Ownership) (place : Nat) : Ownership :=
  match s.guards[place]? with
  | some g => if g.held then s.drop place g else s
  | none => s

def step (s : Ownership) : Action → Ownership
  | .propose index cmd => { s with log := s.log ++ [(index, cmd)] }
  | .deliver index place =>
    match s.coordinator.sent[place]? with
    | some cmd => { s with log := s.log ++ [(index, cmd)] }
    | none => s
  | .learn count => { s with seen := min (s.seen + count) s.log.length }
  | .wait time => { s with now := s.now + time }
  | .setCatalogReady ready => { s with coordinator := { s.coordinator with catalogReady := ready } }
  | .tick term directoryReady => { s with coordinator := s.coordinator.tick s.now term s.ctl directoryReady }
  | .event event => { s with coordinator := s.coordinator.event s.now s.ctl event }
  | .observe directoryIdle => { s with coordinator := s.coordinator.observe s.now s.ctl directoryIdle }
  | .confirm term applied directoryReady reads =>
    { s with coordinator := s.coordinator.confirm s.now term s.ctl applied directoryReady reads }
  | .begin round => s.begin round
  | .poll place => s.poll place
  | .finish place => s.finish place

/-- The log is in order, nobody else reports for the instance, and the device thread sends what it does send. -/
def Permits (s : Ownership) : Action → Prop
  | .propose index cmd => lastIndex 0 s.log < index ∧ cmd.reporter? ≠ some (s.coordinator.id, s.coordinator.inst)
  | .deliver index _ => lastIndex 0 s.log < index
  | .event event => event.genuine
  | _ => True

instance (s : Ownership) (action : Action) : Decidable (s.Permits action) :=
  match action with
  | .propose .. => inferInstanceAs (Decidable (_ ∧ _))
  | .deliver .. => inferInstanceAs (Decidable (_ < _))
  | .event _ => inferInstanceAs (Decidable (_ = true))
  | .learn _ | .wait _ | .setCatalogReady _ | .tick .. | .observe _ | .confirm .. | .begin _ | .poll _ | .finish _ =>
    .isTrue trivial

def Starts (s : Ownership) : Prop :=
  ∃ id inst group validity cooldown now coordinator,
    Coordinator.new id inst group validity cooldown now = some (.ok coordinator) ∧ s = { now, coordinator }

/-- The states that runs of a new instance come to, when each step meets a further condition. -/
def ReachedUnder (condition : Ownership → Action → Prop) (s : Ownership) : Prop :=
  ∃ first, first.Starts ∧ Run.Reaches step (fun s action => s.Permits action ∧ condition s action) first s

def Reached (s : Ownership) : Prop := s.ReachedUnder fun _ _ => True

end Ownership

end TapeRs.Daemon
