import TapeRs.Core.Publication

namespace TapeRs.Core

open SortedMap VolumeRoot

namespace Ledger

/-- Accounts after any number of releases. -/
inductive Released (before : Ledger) : Ledger → Prop
  | none : Released before before
  | more {after : Ledger} (chosen : ReservationId → Reservation → Bool) (released : Released before after) :
      Released before (after.releaseWhere chosen)

theorem Released.trans {a b c : Ledger} (first : Released a b) (second : Released b c) : Released a c := by
  induction second with
  | none => exact first
  | more chosen _ ih => exact .more chosen ih

theorem Released.foldl {α : Type} {f : VolumeRoot → α → VolumeRoot}
    (each : ∀ root x, Released root.ledger (f root x).ledger) (list : List α) (root : VolumeRoot) :
    Released root.ledger (list.foldl f root).ledger := by
  induction list generalizing root with
  | nil => exact .none
  | cons x rest ih => exact (each root x).trans (ih (f root x))

theorem Released.listed {before after : Ledger} (released : Released before after) (rid : ReservationId) :
    (after.reservations.get rid).isSome = (before.reservations.get rid).isSome := by
  induction released with
  | none => rfl
  | more chosen _ ih => rw [releaseWhere_get, Option.isSome_map, ih]

theorem Released.kept {before after : Ledger} (released : Released before after) {rid : ReservationId} {r : Reservation}
    (found : before.reservations.get rid = some r) : ∃ later, after.reservations.get rid = some later ∧
      later.session = r.session ∧ later.reserved = r.reserved := by
  induction released with
  | none => exact ⟨r, found, rfl, rfl⟩
  | more chosen _ ih =>
    obtain ⟨middle, there, session, reserved⟩ := ih
    rw [releaseWhere_get, there, Option.map_some]
    refine ⟨_, rfl, ?_⟩
    split <;> exact ⟨session, reserved⟩

end Ledger

namespace VolumeRoot

open Ledger

theorem released_endSession (root : VolumeRoot) (id : SessionId) : Released root.ledger (root.endSession id).ledger := by
  unfold endSession
  split
  · exact .none
  dsimp only
  split
  · exact .more _ .none
  · exact .none

theorem released_coverPath (directories : List Path) (root : VolumeRoot) (entry : Path × CoverEntry) :
    Released root.ledger (root.coverPath directories entry).ledger := by
  unfold coverPath
  dsimp only
  split
  · exact .none
  split
  · exact .none
  split_ifs
  · exact .more _ .none
  · exact .none
  · exact .none

theorem released_dropRef (root : VolumeRoot) (id : SessionId) : Released root.ledger (root.dropRef id).ledger := by
  unfold dropRef
  split
  · exact .none
  · split
    · exact .more _ .none
    · exact .none

theorem released_published (root : VolumeRoot) (batch : FrozenBatch) (generation : UInt64) (directories : List Path) :
    Released root.ledger (root.published batch generation directories).ledger :=
  (Released.foldl (released_coverPath directories) batch.cover.entries root.next).trans
    (.foldl released_dropRef batch.sessions _)

end VolumeRoot

namespace World

variable {w : World} {call : Call} {root : VolumeRoot} {path : Path}

def Fresh (w : World) : Prop :=
  ∀ rid, (w.state.current.ledger.reservations.get rid).isSome → rid < w.state.nextReservation

theorem Fresh.unused (fresh : w.Fresh) :
    w.state.current.ledger.reservations.get w.state.nextReservation = none := by
  cases found : w.state.current.ledger.reservations.get w.state.nextReservation with
  | none => rfl
  | some r => exact absurd (fresh _ (by rw [found]; rfl)) (Nat.lt_irrefl _)

theorem fresh_new (instanceId : InstanceId) (committed : DirNode) (generation baselineFree : UInt64) (writable : Bool) :
    (new instanceId committed generation baselineFree writable).Fresh := by
  simp [Fresh, new, Inner.new]

theorem change_listed (change : Change w.state call root) {rid : ReservationId}
    (listed : (root.ledger.reservations.get rid).isSome) :
    (w.state.current.ledger.reservations.get rid).isSome ∨ rid = w.state.nextReservation ∧ call.admissions = 1 := by
  cases change with
  | ended =>
    rw [(Ledger.Released.foldl released_endSession _ w.state.current.next).listed] at listed
    exact .inl listed
  | admitted _ asked asks =>
    have found : ((w.state.current.ledger.reservations.insert w.state.nextReservation _).get rid).isSome := listed
    rw [get_insert] at found
    split at found
    · rename_i same
      exact .inr ⟨same, by simp [Call.admissions, asks]⟩
    · exact .inl found
  | ingested path bytes e r found opened active reserved =>
    have filed : ((w.state.current.ledger.reservations.insert e.reservation _).get rid).isSome := listed
    rw [get_insert] at filed
    split at filed
    · rename_i same
      rw [same, reserved]
      exact .inl rfl
    · exact .inl filed
  | published batch evidence directories =>
    exact .inl (((w.state.current.released_published batch _ directories).listed rid).symm.trans listed)
  | _ => exact .inl listed

theorem Fresh.step (filed : w.Filed) (fresh : w.Fresh) (call : Call) : (w.step call).Fresh := by
  intro rid listed
  show rid < (call.run w.state).nextReservation
  have there : ((call.run w.state).current.ledger.reservations.get rid).isSome := listed
  cases Moved.run w.state call with
  | quiet current _ _ reservations =>
    rw [current] at there
    rw [reservations]
    exact fresh rid there
  | poisoned current _ _ reservations =>
    obtain ⟨epoch, capability, same⟩ := filed.ready.poison
    rw [current, same] at there
    rw [reservations]
    exact fresh rid there
  | installed root change current _ _ reservations =>
    rw [current] at there
    rw [reservations]
    rcases change_listed change there with old | ⟨rfl, one⟩
    · exact Nat.lt_of_lt_of_le (fresh rid old) (Nat.le_add_right _ _)
    · rw [one]
      exact Nat.lt_succ_self _

theorem Fresh.kept (fresh : w.Fresh) (change : Change w.state call root) {rid : ReservationId} {r : Reservation}
    (found : w.state.current.ledger.reservations.get rid = some r) :
    ∃ later, root.ledger.reservations.get rid = some later ∧ later.session = r.session ∧ later.reserved = r.reserved := by
  cases change with
  | ended => exact (Ledger.Released.foldl released_endSession _ w.state.current.next).kept found
  | admitted =>
    refine ⟨r, ?_, rfl, rfl⟩
    show (w.state.current.ledger.reservations.insert _ _).get rid = some r
    have known : rid ≠ w.state.nextReservation := by
      rintro rfl
      rw [fresh.unused] at found
      cases found
    rw [get_insert, if_neg known, found]
  | ingested path bytes e prior pending opened active reserved =>
    refine exists_insert (R := fun r later => later.session = r.session ∧ later.reserved = r.reserved)
      (fun _ => ⟨rfl, rfl⟩) reserved ?_ rid r found
    exact ⟨rfl, rfl⟩
  | published batch evidence directories =>
    exact (w.state.current.released_published batch _ directories).kept found
  | _ => exact ⟨r, found, rfl, rfl⟩

/-- What one call may do to a pending entry it keeps. -/
structure Continues (g : Inner) (e later : PendingEntry) : Prop where
  session : later.session = e.session
  reservation : later.reservation = e.reservation
  removal : later.removal = e.removal
  state : later.state = e.state ∨ later.state = .ready
  staged : later.stagedLen = e.stagedLen ∨ e.removal = false ∨
    ∃ r bytes, g.current.ledger.reservations.get e.reservation = some r ∧ bytes ≤ r.unconsumed ∧
      later.stagedLen = e.stagedLen + bytes

theorem Continues.refl (g : Inner) (e : PendingEntry) : Continues g e e :=
  ⟨rfl, rfl, rfl, .inl rfl, .inl rfl⟩

theorem endSession_pending {id : SessionId} {e : PendingEntry} (found : (root.endSession id).pending.get path = some e) :
    root.pending.get path = some e := by
  unfold endSession at found
  split at found
  · exact found
  · rw [get_filter] at found
    exact (Option.filter_eq_some_iff.mp found).1

theorem endSessions_pending {ids : List SessionId} {e : PendingEntry}
    (found : (ids.foldl endSession root).pending.get path = some e) : root.pending.get path = some e := by
  induction ids generalizing root with
  | nil => exact found
  | cons id rest ih => exact endSession_pending (ih found)

theorem change_pending (change : Change w.state call root) {later : PendingEntry}
    (found : root.pending.get path = some later) :
    (∃ asked, call.admission = some asked ∧ path = asked.path ∧ later.session = asked.session ∧
      later.state = .inProgress ∧ later.stagedLen = 0 ∧ later.removal = asked.removal ∧
      later.reservation = w.state.nextReservation ∧
      (w.state.current.sessions.get asked.session).map (·.state) = some .active ∧
      root.sessions = w.state.current.sessions ∧
      root.ledger = w.state.current.ledger.reserve w.state.nextReservation
        { session := asked.session, path := asked.path, reserved := asked.reserve, consumed := 0, released := false }) ∨
    ∃ e, w.state.current.pending.get path = some e ∧ Continues w.state e later := by
  cases change with
  | ended => exact .inr ⟨later, (endSessions_pending found : w.state.current.next.pending.get path = _), .refl w.state later⟩
  | admitted _ asked asks active =>
    rcases get_insert_some found with ⟨rfl, rfl⟩ | ⟨_, kept⟩
    · exact .inl ⟨asked, asks, rfl, rfl, rfl, rfl, rfl, rfl, active, rfl, rfl⟩
    · exact .inr ⟨later, kept, .refl w.state later⟩
  | ingested other bytes e r there opened active reserved enough =>
    rcases get_insert_some found with ⟨rfl, rfl⟩ | ⟨_, kept⟩
    · exact .inr ⟨e, there, rfl, rfl, rfl, .inl rfl, .inr (.inr ⟨r, bytes, reserved, enough, rfl⟩)⟩
    · exact .inr ⟨later, kept, .refl w.state later⟩
  | staged other len e there opened plain =>
    rcases get_insert_some found with ⟨rfl, rfl⟩ | ⟨_, kept⟩
    · exact .inr ⟨e, there, rfl, rfl, rfl, .inl rfl, .inr (.inl plain)⟩
    · exact .inr ⟨later, kept, .refl w.state later⟩
  | completed other e there =>
    rcases get_insert_some found with ⟨rfl, rfl⟩ | ⟨_, kept⟩
    · exact .inr ⟨e, there, rfl, rfl, rfl, .inr rfl, .inl rfl⟩
    · exact .inr ⟨later, kept, .refl w.state later⟩
  | published batch evidence directories =>
    rw [published_pending] at found
    split at found
    · exact .inr ⟨later, found, .refl w.state later⟩
    rename_i c covered
    obtain ⟨e, there, left⟩ := Option.bind_eq_some_iff.mp found
    refine .inr ⟨e, there, ?_⟩
    unfold remaining at left
    split_ifs at left
    · obtain rfl := Option.some.inj left
      exact .refl w.state e
    · obtain rfl := Option.some.inj left
      exact ⟨rfl, rfl, rfl, .inl rfl, .inl rfl⟩
  | _ => exact .inr ⟨later, found, .refl w.state later⟩

theorem admission_removal {asked : Admission} (asks : call.admission = some asked) (removal : asked.removal = true) :
    asked.reserve = 0 := by
  cases call with
  | admitWrite session path reserve now =>
    obtain rfl := Option.some.inj asks
    cases removal
  | admitRemoval session path now =>
    obtain rfl := Option.some.inj asks
    rfl
  | _ => cases asks

/-- Every pending entry has a reservation of its own, made for its session; a removal has none of its bytes. -/
structure Backed (w : World) : Prop where
  fresh : w.Fresh
  backed : ∀ path e, w.state.current.pending.get path = some e →
    ∃ r, w.state.current.ledger.reservations.get e.reservation = some r ∧ r.session = e.session ∧
      (e.removal = true → r.reserved = 0 ∧ e.stagedLen = 0)
  distinct : ∀ left right e f, w.state.current.pending.get left = some e → w.state.current.pending.get right = some f →
    e.reservation = f.reservation → left = right
  slot : ∀ slot, w.state.current.commitSlot = some slot → ∀ path c, slot.cover.get path = some c →
    c.removal = true → c.len = 0

theorem backed_new (instanceId : InstanceId) (committed : DirNode) (generation baselineFree : UInt64) (writable : Bool) :
    (new instanceId committed generation baselineFree writable).Backed where
  fresh := fresh_new instanceId committed generation baselineFree writable
  backed := by simp [new, Inner.new]
  distinct := by simp [new, Inner.new]
  slot := by simp [new, Inner.new]

theorem Backed.change (backed : w.Backed) (change : Change w.state call root) {later : PendingEntry}
    (found : root.pending.get path = some later) :
    ∃ r, root.ledger.reservations.get later.reservation = some r ∧ r.session = later.session ∧
      (later.removal = true → r.reserved = 0 ∧ later.stagedLen = 0) := by
  rcases change_pending change found with
    ⟨asked, asks, -, session, -, staged, removal, reservation, -, -, ledger⟩ | ⟨e, there, continues⟩
  · rw [ledger, reservation, session]
    refine ⟨_, (get_insert _ _ _ _).trans (if_pos rfl), rfl, ?_⟩
    · intro removed
      exact ⟨admission_removal asks (removal.symm.trans removed), staged⟩
  · obtain ⟨r, reserved, session, empty⟩ := backed.backed path e there
    obtain ⟨after, kept, sameSession, sameReserved⟩ := backed.fresh.kept change reserved
    rw [continues.reservation, continues.session, continues.removal]
    refine ⟨after, kept, sameSession.trans session, ?_⟩
    intro removed
    obtain ⟨nothing, unstaged⟩ := empty removed
    refine ⟨sameReserved.trans nothing, ?_⟩
    rcases continues.staged with same | plain | ⟨found, bytes, filed, enough, same⟩
    · exact same.trans unstaged
    · rw [removed] at plain
      cases plain
    rw [reserved] at filed
    obtain rfl := Option.some.inj filed
    have none : bytes.toNat ≤ 0 := by
      have left := UInt64.le_iff_toNat_le.mp enough
      rw [Reservation.unconsumed, Ledger.saturatingSub_toNat, nothing] at left
      simpa using left
    have zero : bytes = 0 := UInt64.toNat_inj.mp (by simpa using none)
    rw [same, unstaged, zero]
    rfl

theorem Backed.step (filed : w.Filed) (backed : w.Backed) (call : Call) : (w.step call).Backed := by
  have fresh := backed.fresh.step filed call
  let P : VolumeRoot → Prop := fun root => (∀ path e, root.pending.get path = some e →
      ∃ r, root.ledger.reservations.get e.reservation = some r ∧ r.session = e.session ∧
        (e.removal = true → r.reserved = 0 ∧ e.stagedLen = 0)) ∧
    (∀ left right e f, root.pending.get left = some e → root.pending.get right = some f →
      e.reservation = f.reservation → left = right) ∧
    ∀ slot, root.commitSlot = some slot → ∀ path c, slot.cover.get path = some c → c.removal = true → c.len = 0
  suffices rest : P (w.step call).state.current from ⟨fresh, rest.1, rest.2.1, rest.2.2⟩
  refine filed.current_step call (fun _ _ => ⟨backed.backed, backed.distinct, backed.slot⟩) fun root change => ?_
  refine ⟨fun path later found => backed.change change found, ?_, ?_⟩
  · intro left right e f leftFound rightFound same
    have unused := backed.fresh.unused
    rcases change_pending change leftFound with
        ⟨asked, asks, rfl, -, -, -, -, leftNew, -, -, -⟩ | ⟨oldLeft, leftThere, leftContinues⟩ <;>
      rcases change_pending change rightFound with
        ⟨other, otherAsks, rfl, -, -, -, -, rightNew, -, -, -⟩ | ⟨oldRight, rightThere, rightContinues⟩
    · rw [asks] at otherAsks
      rw [Option.some.inj otherAsks]
    · obtain ⟨r, reserved, -, -⟩ := backed.backed right oldRight rightThere
      rw [← rightContinues.reservation, ← same, leftNew, unused] at reserved
      cases reserved
    · obtain ⟨r, reserved, -, -⟩ := backed.backed left oldLeft leftThere
      rw [← leftContinues.reservation, same, rightNew, unused] at reserved
      cases reserved
    · apply backed.distinct left right oldLeft oldRight leftThere rightThere
      rw [← leftContinues.reservation, ← rightContinues.reservation, same]
  · intro slot placed path c covered removal
    rcases change.commitSlot placed with kept | ⟨snapshotOpen, rfl, rfl⟩
    · exact backed.slot slot kept path c covered removal
    obtain ⟨e, pending, taken⟩ := Option.bind_eq_some_iff.mp ((get_collect _ _ path).symm.trans covered)
    unfold coverEntry at taken
    split_ifs at taken
    obtain rfl := Option.some.inj taken
    obtain ⟨r, -, -, empty⟩ := backed.backed path e pending
    exact (empty removal).2

end World

end TapeRs.Core
