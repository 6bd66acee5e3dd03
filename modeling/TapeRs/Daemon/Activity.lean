import TapeRs.Daemon.State

namespace TapeRs.Daemon

structure ActivityUpdate where
  round : UInt64
  sequence : UInt64
  busy : Bool
deriving DecidableEq, Repr

/-- The device work of the owner, and what of it the replicated log is known to hold. -/
structure ActivityRegistry where
  enabled : Bool := false
  node : UInt64 := 0
  inst : UInt64 := 0
  round : UInt64 := 0
  sequence : UInt64 := 0
  depth : UInt64 := 0
  closed : Bool := false
  acknowledged : Option DeviceActivityState := none
  pending : List ActivityUpdate := []
deriving DecidableEq, Repr

/-- How a call for device work goes on after its first look at the registry. -/
inductive Entered where
  | untracked
  | waiting (wanted : UInt64)
  | lost
deriving DecidableEq, Repr

namespace ActivityRegistry

def enable (r : ActivityRegistry) (node inst : UInt64) : Option ActivityRegistry :=
  if 0 < node ∧ 0 < inst ∧ !r.enabled then some { r with enabled := true, node, inst } else none

def serving (r : ActivityRegistry) (round : UInt64) : ActivityRegistry :=
  if !r.enabled ∨ r.round = round then r
  else
    { r with
      round
      sequence := 1
      depth := 0
      closed := false
      acknowledged := none
      pending := [{ round, sequence := 1, busy := false }] }

def close (r : ActivityRegistry) (round : UInt64) : ActivityRegistry :=
  if r.round = round then { r with closed := true, pending := [] } else r

/-- A state of the replicated log that speaks for this instance in its current round. -/
def concerns (r : ActivityRegistry) (p : DeviceActivityState) : Bool :=
  r.enabled && !r.closed && p.node = r.node && p.inst = r.inst && p.round = r.round && 0 < p.sequence &&
    p.sequence ≤ r.sequence

def observe (r : ActivityRegistry) (proof : Option DeviceActivityState) : ActivityRegistry :=
  match proof.filter r.concerns with
  | some p => if r.acknowledged.all (fun old => old.sequence ≤ p.sequence) then { r with acknowledged := some p } else r
  | none => r

/-- The first call makes the device busy; the calls inside it share its claim. -/
def claimed (r : ActivityRegistry) (round : UInt64) : Option ActivityRegistry :=
  if r.depth = 0 then
    (Word.succ? r.sequence).map fun sequence =>
      { r with sequence, pending := r.pending ++ [{ round, sequence, busy := true }] }
  else some r

def enter (r : ActivityRegistry) (round : UInt64) : ActivityRegistry × Entered :=
  if !r.enabled then (r, .untracked)
  else if r.closed ∨ r.round ≠ round then (r, .lost)
  else
    match r.claimed round with
    | none => (r, .lost)
    | some r =>
      match Word.succ? r.depth with
      | none => (r, .lost)
      | some depth => ({ r with depth }, .waiting r.sequence)

def void (r : ActivityRegistry) (round : UInt64) : Bool := r.closed || r.round ≠ round

def confirmed (r : ActivityRegistry) (round wanted : UInt64) : Bool :=
  r.acknowledged.any fun p => p.round = round && p.sequence = wanted && p.busy

def release (r : ActivityRegistry) (round : UInt64) : ActivityRegistry :=
  if r.closed ∨ r.round ≠ round ∨ r.depth = 0 then r
  else if r.depth = 1 then
    match Word.succ? r.sequence with
    | some sequence =>
      { r with depth := 0, sequence, pending := r.pending ++ [{ round, sequence, busy := false }] }
    | none => { r with depth := 0, closed := true }
  else { r with depth := r.depth - 1 }

end ActivityRegistry

end TapeRs.Daemon
