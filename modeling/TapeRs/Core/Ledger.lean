import TapeRs.Data.SortedMap

namespace TapeRs.Core

open SortedMap

abbrev Path := String
abbrev SessionId := Nat
abbrev ReservationId := Nat
abbrev BatchId := Nat
abbrev InstanceId := Nat

def saturatingSub (a b : UInt64) : UInt64 :=
  if b ≤ a then a - b else 0

structure Reservation where
  session : SessionId
  path : Path
  reserved : UInt64
  consumed : UInt64
  released : Bool
deriving DecidableEq, Repr

def Reservation.unconsumed (r : Reservation) : UInt64 :=
  saturatingSub r.reserved r.consumed

/-- Capacity accounts of a volume. -/
structure Ledger where
  baselineFree : UInt64
  calibrationEpoch : Nat
  consumedSinceCut : UInt64
  reservations : SortedMap ReservationId Reservation

namespace Ledger

def reservedUnconsumed (ledger : Ledger) : UInt64 :=
  (ledger.reservations.entries.filter (fun entry => !entry.2.released)).foldr (fun entry sum => entry.2.unconsumed + sum) 0

def available (ledger : Ledger) : UInt64 :=
  saturatingSub (saturatingSub ledger.baselineFree ledger.reservedUnconsumed) ledger.consumedSinceCut

def reserve (ledger : Ledger) (rid : ReservationId) (r : Reservation) : Ledger :=
  { ledger with reservations := ledger.reservations.insert rid r }

/-- Marks the chosen reservations released; what they consumed stays consumed. -/
def releaseWhere (ledger : Ledger) (chosen : ReservationId → Reservation → Bool) : Ledger :=
  { ledger with
    reservations := ledger.reservations.map (fun rid r => if chosen rid r then { r with released := true } else r) }

def release (ledger : Ledger) (rid : ReservationId) : Ledger :=
  ledger.releaseWhere (fun other _ => other = rid)

def releaseSession (ledger : Ledger) (session : SessionId) : Ledger :=
  ledger.releaseWhere (fun _ r => r.session = session)

def consume (ledger : Ledger) (rid : ReservationId) (r : Reservation) (bytes : UInt64) : Ledger :=
  { ledger with
    reservations := ledger.reservations.insert rid { r with consumed := r.consumed + bytes }
    consumedSinceCut := ledger.consumedSinceCut + bytes }

def calibrate (ledger : Ledger) (deviceFree : UInt64) (epoch : Nat) : Ledger :=
  { ledger with baselineFree := deviceFree, calibrationEpoch := epoch, consumedSinceCut := 0 }

section Accounts

def outstanding (r : Reservation) : Nat :=
  if r.released then 0 else r.unconsumed.toNat

def held (ledger : Ledger) : Nat :=
  ledger.reservations.total outstanding + ledger.consumedSinceCut.toNat

/-- No reservation is overdrawn and the accounts together fit a machine word. -/
structure Sound (ledger : Ledger) : Prop where
  within : ∀ rid r, ledger.reservations.get rid = some r → r.consumed ≤ r.reserved
  fits : ledger.held < UInt64.size

/-- What later accounts keep of earlier ones: a reservation stays, with what it consumed, and stays released. -/
def Keeps (before after : Ledger) : Prop :=
  ∀ rid r, before.reservations.get rid = some r → ∃ later, after.reservations.get rid = some later ∧
    later.reserved = r.reserved ∧ later.session = r.session ∧ r.consumed ≤ later.consumed ∧
    (r.released = true → later.released = true)

theorem saturatingSub_toNat (a b : UInt64) : (saturatingSub a b).toNat = a.toNat - b.toNat := by
  unfold saturatingSub
  split
  · rename_i le
    exact UInt64.toNat_sub_of_le _ _ le
  rename_i gt
  have less := UInt64.lt_iff_toNat_lt.mp (UInt64.not_le.mp gt)
  show 0 = _
  omega

theorem Keeps.refl (ledger : Ledger) : ledger.Keeps ledger :=
  fun _ r found => ⟨r, found, rfl, rfl, UInt64.le_refl _, id⟩

theorem Keeps.trans {a b c : Ledger} (first : a.Keeps b) (second : b.Keeps c) : a.Keeps c := by
  intro rid r found
  obtain ⟨middle, foundMiddle, reserved, session, consumed, released⟩ := first rid r found
  obtain ⟨last, foundLast, reservedLast, sessionLast, consumedLast, releasedLast⟩ := second rid middle foundMiddle
  exact ⟨last, foundLast, reservedLast.trans reserved, sessionLast.trans session, UInt64.le_trans consumed consumedLast,
    fun was => releasedLast (released was)⟩

theorem reservedUnconsumed_toNat {ledger : Ledger} (fits : ledger.reservations.total outstanding < UInt64.size) :
    ledger.reservedUnconsumed.toNat = ledger.reservations.total outstanding := by
  unfold reservedUnconsumed total at *
  generalize ledger.reservations.entries = entries at *
  induction entries with
  | nil => rfl
  | cons entry rest ih =>
    simp only [List.map_cons, List.sum_cons] at fits
    have tail := ih (by omega)
    by_cases released : entry.2.released = true
    · simp [released, outstanding, tail]
    simp only [Bool.not_eq_true] at released
    simp only [released, Bool.not_false, List.filter_cons_of_pos, List.foldr_cons, List.map_cons, List.sum_cons,
      UInt64.toNat_add, tail]
    simp only [outstanding, released, Bool.false_eq_true, if_false] at fits ⊢
    exact Nat.mod_eq_of_lt fits

theorem available_toNat {ledger : Ledger} (sound : ledger.Sound) :
    ledger.available.toNat = ledger.baselineFree.toNat - ledger.held := by
  have fits := sound.fits
  unfold held at fits
  unfold available held
  rw [saturatingSub_toNat, saturatingSub_toNat, reservedUnconsumed_toNat (by omega)]
  omega

end Accounts

section Entries

variable {ledger : Ledger} {rid : ReservationId} {r : Reservation}

section Releases

variable (chosen : ReservationId → Reservation → Bool)

theorem releaseWhere_get (rid : ReservationId) :
    (ledger.releaseWhere chosen).reservations.get rid =
      (ledger.reservations.get rid).map (fun r => if chosen rid r then { r with released := true } else r) :=
  get_map ..

theorem held_releaseWhere : (ledger.releaseWhere chosen).held ≤ ledger.held := by
  have less := ledger.reservations.total_map_le outstanding
    (fun rid r => if chosen rid r then { r with released := true } else r) (by
      intro rid r
      split
      · simp [outstanding]
      · exact Nat.le_refl _)
  unfold held releaseWhere
  dsimp only
  omega

theorem keeps_releaseWhere : ledger.Keeps (ledger.releaseWhere chosen) := by
  intro rid r found
  rw [releaseWhere_get, found]
  refine ⟨_, rfl, ?_⟩
  dsimp only
  split <;> simp

end Releases

theorem Sound.releaseWhere (sound : ledger.Sound) (chosen : ReservationId → Reservation → Bool) :
    (ledger.releaseWhere chosen).Sound := by
  constructor
  · intro rid r found
    rw [releaseWhere_get, Option.map_eq_some_iff] at found
    obtain ⟨prior, there, rfl⟩ := found
    have within := sound.within rid prior there
    split <;> exact within
  · exact Nat.lt_of_le_of_lt (held_releaseWhere chosen) sound.fits

theorem held_reserve (fresh : ledger.reservations.get rid = none) (unreleased : r.released = false)
    (unused : r.consumed = 0) : (ledger.reserve rid r).held = ledger.held + r.reserved.toNat := by
  have moved := ledger.reservations.total_insert outstanding rid r
  have whole : outstanding r = r.reserved.toNat := by
    simp [outstanding, unreleased, Reservation.unconsumed, saturatingSub_toNat, unused]
  rw [fresh, whole] at moved
  unfold held reserve
  simp only [Option.map_none, Option.getD_none] at moved ⊢
  omega

theorem keeps_reserve (r : Reservation) (fresh : ledger.reservations.get rid = none) :
    ledger.Keeps (ledger.reserve rid r) := by
  intro other prior found
  have apart : other ≠ rid := by
    rintro rfl
    rw [fresh] at found
    cases found
  refine ⟨prior, ?_, rfl, rfl, UInt64.le_refl _, id⟩
  show (ledger.reservations.insert rid r).get other = some prior
  rw [get_insert, if_neg apart, found]

theorem held_consume (sound : ledger.Sound) {bytes : UInt64} (found : ledger.reservations.get rid = some r)
    (unreleased : r.released = false) (enough : bytes ≤ r.unconsumed) :
    r.consumed.toNat + bytes.toNat ≤ r.reserved.toNat ∧
      ledger.consumedSinceCut.toNat + bytes.toNat < UInt64.size ∧
      (ledger.consume rid r bytes).held = ledger.held := by
  have within := UInt64.le_iff_toNat_le.mp (sound.within rid r found)
  have left := UInt64.le_iff_toNat_le.mp enough
  rw [Reservation.unconsumed, saturatingSub_toNat] at left
  have part := le_total outstanding found
  have worth : outstanding r = r.reserved.toNat - r.consumed.toNat := by
    simp [outstanding, unreleased, Reservation.unconsumed, saturatingSub_toNat]
  have fits := sound.fits
  have bound := r.reserved.toNat_lt
  simp only [held, UInt64.size] at fits
  have grown : (r.consumed + bytes).toNat = r.consumed.toNat + bytes.toNat := by
    rw [UInt64.toNat_add]
    omega
  have cut : (ledger.consumedSinceCut + bytes).toNat = ledger.consumedSinceCut.toNat + bytes.toNat := by
    rw [UInt64.toNat_add]
    omega
  have moved := ledger.reservations.total_insert outstanding rid { r with consumed := r.consumed + bytes }
  have rest : outstanding { r with consumed := r.consumed + bytes } =
      r.reserved.toNat - (r.consumed.toNat + bytes.toNat) := by
    simp [outstanding, unreleased, Reservation.unconsumed, saturatingSub_toNat, grown]
  rw [found, rest, Option.map_some, Option.getD_some, worth] at moved
  refine ⟨by omega, by simp only [UInt64.size]; omega, ?_⟩
  unfold held consume
  dsimp only
  rw [cut]
  omega

theorem keeps_consume (sound : ledger.Sound) {bytes : UInt64} (found : ledger.reservations.get rid = some r)
    (enough : bytes ≤ r.unconsumed) : ledger.Keeps (ledger.consume rid r bytes) := by
  refine exists_insert (fun _ => ⟨rfl, rfl, UInt64.le_refl _, id⟩) found ⟨rfl, rfl, ?_, id⟩
  have within := UInt64.le_iff_toNat_le.mp (sound.within _ r found)
  have left := UInt64.le_iff_toNat_le.mp enough
  rw [Reservation.unconsumed, saturatingSub_toNat] at left
  have bound := r.reserved.toNat_lt
  apply UInt64.le_iff_toNat_le.mpr
  show _ ≤ (r.consumed + bytes).toNat
  rw [UInt64.toNat_add]
  omega

theorem held_calibrate (deviceFree : UInt64) (epoch : Nat) : (ledger.calibrate deviceFree epoch).held ≤ ledger.held := by
  unfold held calibrate
  simp

end Entries

end Ledger

end TapeRs.Core
