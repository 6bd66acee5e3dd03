import TapeRs.Core.Reservations

namespace TapeRs.Core

open Ledger

namespace Ledger

/-- What one step may do to the accounts; only a calibration moves the baseline or forgets what was consumed. -/
structure Moves (calibrating : Prop) (before after : Ledger) : Prop where
  sound : after.Sound
  keeps : before.Keeps after
  bounded : ¬ calibrating → after.held ≤ max before.held before.baselineFree.toNat
  baseline : ¬ calibrating → after.baselineFree = before.baselineFree
  consumed : ¬ calibrating → before.consumedSinceCut ≤ after.consumedSinceCut

variable {ledger : Ledger} {calibrating : Prop}

theorem Moves.stay (sound : ledger.Sound) : ledger.Moves calibrating ledger where
  sound := sound
  keeps := .refl ledger
  bounded := fun _ => Nat.le_max_left _ _
  baseline := fun _ => rfl
  consumed := fun _ => UInt64.le_refl _

theorem Moves.released {after : Ledger} (sound : ledger.Sound) (released : Released ledger after) :
    ledger.Moves calibrating after := by
  induction released with
  | none => exact .stay sound
  | more chosen _ ih =>
    exact
      { sound := ih.sound.releaseWhere chosen
        keeps := ih.keeps.trans (keeps_releaseWhere chosen)
        bounded := fun usual => (held_releaseWhere chosen).trans (ih.bounded usual)
        baseline := ih.baseline
        consumed := ih.consumed }

theorem Moves.reserve (sound : ledger.Sound) {rid : ReservationId} {r : Reservation}
    (fresh : ledger.reservations.get rid = none) (unreleased : r.released = false) (unused : r.consumed = 0)
    (enough : r.reserved ≤ ledger.available) : ledger.Moves calibrating (ledger.reserve rid r) := by
  have grown := held_reserve fresh unreleased unused
  have room := UInt64.le_iff_toNat_le.mp enough
  rw [available_toNat sound] at room
  have below : (ledger.reserve rid r).held ≤ max ledger.held ledger.baselineFree.toNat := by
    rw [grown]
    omega
  refine ⟨⟨?_, ?_⟩, keeps_reserve r fresh, fun _ => below, fun _ => rfl, fun _ => UInt64.le_refl _⟩
  · intro other prior found
    have there : (if other = rid then some r else ledger.reservations.get other) = some prior :=
      (SortedMap.get_insert _ rid other r).symm.trans found
    split at there
    · obtain rfl := Option.some.inj there
      rw [unused]
      exact UInt64.zero_le
    · exact sound.within other prior there
  · have word := ledger.baselineFree.toNat_lt
    have fits := sound.fits
    simp only [UInt64.size] at fits ⊢
    omega

theorem Moves.consume (sound : ledger.Sound) {rid : ReservationId} {r : Reservation} {bytes : UInt64}
    (found : ledger.reservations.get rid = some r) (unreleased : r.released = false) (enough : bytes ≤ r.unconsumed) :
    ledger.Moves calibrating (ledger.consume rid r bytes) := by
  obtain ⟨drawn, word, same⟩ := held_consume sound found unreleased enough
  have reserved := r.reserved.toNat_lt
  refine ⟨⟨?_, by rw [same]; exact sound.fits⟩, keeps_consume sound found enough,
    fun _ => by rw [same]; exact Nat.le_max_left _ _, fun _ => rfl, fun _ => ?_⟩
  · refine SortedMap.forall_insert (UInt64.le_iff_toNat_le.mpr ?_) sound.within
    show (r.consumed + bytes).toNat ≤ r.reserved.toNat
    rw [UInt64.toNat_add]
    omega
  · apply UInt64.le_iff_toNat_le.mpr
    show _ ≤ (ledger.consumedSinceCut + bytes).toNat
    simp only [UInt64.size] at word
    rw [UInt64.toNat_add]
    omega

theorem Moves.calibrate (sound : ledger.Sound) (calibrated : calibrating) (deviceFree : UInt64) (epoch : Nat) :
    ledger.Moves calibrating (ledger.calibrate deviceFree epoch) where
  sound := ⟨sound.within, Nat.lt_of_le_of_lt (held_calibrate deviceFree epoch) sound.fits⟩
  keeps := Keeps.refl ledger
  bounded := fun usual => absurd calibrated usual
  baseline := fun usual => absurd calibrated usual
  consumed := fun usual => absurd calibrated usual

end Ledger

def Call.Calibrates : Call → Prop
  | calibrate _ => True
  | _ => False

instance (call : Call) : Decidable call.Calibrates := by
  unfold Call.Calibrates
  split <;> infer_instance

namespace World

def DrawsUnreleased (w : World) : Call → Prop
  | .ingest path _ => ∀ e ∈ w.state.current.pending.get path,
      ∀ r ∈ w.state.current.ledger.reservations.get e.reservation, r.released = false
  | _ => True

instance (w : World) (call : Call) : Decidable (w.DrawsUnreleased call) := by
  unfold DrawsUnreleased
  split <;> infer_instance

/-- The accounts are sound and the next reservation is new to them. -/
structure Balanced (w : World) : Prop where
  sound : w.state.current.ledger.Sound
  fresh : w.Fresh

variable {w : World} {call : Call}

theorem Balanced.change {root : VolumeRoot} (balanced : w.Balanced) (unreleased : w.DrawsUnreleased call)
    (change : Change w.state call root) : w.state.current.ledger.Moves call.Calibrates root.ledger := by
  have sound := balanced.sound
  cases change with
  | ended => exact .released sound (.foldl VolumeRoot.released_endSession _ w.state.current.next)
  | admitted _ asked asks active free enough => exact .reserve sound balanced.fresh.unused rfl rfl enough
  | ingested path bytes e r found opened active reserved enough =>
    exact .consume sound reserved (unreleased e found r reserved) enough
  | calibrated deviceFree => exact .calibrate sound trivial deviceFree _
  | published batch evidence directories =>
    exact .released sound (w.state.current.released_published batch _ directories)
  | _ => exact .stay sound

theorem Balanced.moves (filed : w.Filed) (balanced : w.Balanced) (unreleased : w.DrawsUnreleased call) :
    w.state.current.ledger.Moves call.Calibrates (w.step call).state.current.ledger :=
  filed.current_step (P := fun root => w.state.current.ledger.Moves call.Calibrates root.ledger) call
    (fun _ _ => .stay balanced.sound) fun _ => balanced.change unreleased

theorem Balanced.step (filed : w.Filed) (balanced : w.Balanced) (unreleased : w.DrawsUnreleased call) :
    (w.step call).Balanced :=
  ⟨(balanced.moves filed unreleased).sound, balanced.fresh.step filed call⟩

theorem balanced_new (instanceId : InstanceId) (committed : DirNode) (generation baselineFree : UInt64)
    (writable : Bool) : (new instanceId committed generation baselineFree writable).Balanced where
  sound := ⟨by simp [new, Inner.new], by simp [new, Inner.new, held, SortedMap.total, SortedMap.empty, UInt64.size]⟩
  fresh := fresh_new instanceId committed generation baselineFree writable

theorem admitEntry_ok {g after : Inner} {session : SessionId} {path : Path} {reserve : UInt64} {now : Nat}
    {removal : Bool} {rid : ReservationId} (done : g.admitEntry session path reserve now removal = (.ok rid, after)) :
    reserve ≤ g.current.ledger.available ∧
      after.current.ledger = g.current.ledger.reserve g.nextReservation
        { session, path, reserved := reserve, consumed := 0, released := false } := by
  unfold Inner.admitEntry at done
  dsimp only at done
  split_ifs at done with locked inactive busy short
  · cases done
  · cases done
  · cases done
  · cases done
  · obtain ⟨-, rfl⟩ := Prod.mk.inj done
    exact ⟨UInt64.not_lt.mp short, rfl⟩

theorem ingest_ok {g after : Inner} {path : Path} {bytes : UInt64} {epoch : Nat}
    (done : g.ingest path bytes = some (.ok epoch, after)) :
    ∃ e r, g.current.pending.get path = some e ∧ g.current.ledger.reservations.get e.reservation = some r ∧
      bytes ≤ r.unconsumed := by
  unfold Inner.ingest at done
  dsimp only at done
  split at done
  · cases done
  rename_i e found
  split_ifs at done with closed inactive
  · cases done
  · cases done
  · split at done
    · cases done
    rename_i r reserved
    split_ifs at done with short
    · cases done
    · exact ⟨e, r, found, reserved, UInt64.not_lt.mp short⟩

/-- What holds of the accounts from one state to a later one without a calibration between them. -/
structure Within (before after : World) : Prop where
  bounded : after.state.current.ledger.held ≤
    max before.state.current.ledger.held before.state.current.ledger.baselineFree.toNat
  baseline : after.state.current.ledger.baselineFree = before.state.current.ledger.baselineFree
  consumed : before.state.current.ledger.consumedSinceCut ≤ after.state.current.ledger.consumedSinceCut

theorem Within.trans {a b c : World} (first : a.Within b) (second : b.Within c) : a.Within c := by
  refine ⟨?_, second.baseline.trans first.baseline, UInt64.le_trans first.consumed second.consumed⟩
  have later := second.bounded
  have earlier := first.bounded
  rw [first.baseline] at later
  omega

/-- Two files share a baseline, and the first draws on its reservation after a calibration. -/
def sharedCalls : List Call :=
  [.openSession 1 100, .admitWrite 1 "/a" 6 0, .ingest "/a" 4, .openSession 2 100, .admitWrite 2 "/b" 4 0, .calibrate 6,
    .ingest "/a" 2]

/-- A snapshot of an open file is published, its session is cancelled and opened again, another file takes the room
    that was freed, and then the first file goes on drawing on its released reservation. -/
def reopenCalls : List Call :=
  [.openSession 1 100, .admitWrite 1 "/a" 10 0, .ingest "/a" 4, .freeze ["/a"],
    .publish
      { batchId := 1, instanceId := 1, baseEpoch := 4, generation := 1, sessions := [1]
        cover := SortedMap.empty.insert "/a" { version := 1, len := 4, complete := false, removal := false } }
      { batchId := 1, generation := 1 } [],
    .cancel 1, .openSession 1 100, .openSession 2 100, .admitWrite 2 "/b" 6 0, .ingest "/a" 6]

def reopened : World := reopenCalls.foldl step (new 1 {} 0 10 true)

end World

end TapeRs.Core
