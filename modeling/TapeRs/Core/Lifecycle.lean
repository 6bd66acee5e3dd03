import TapeRs.Core.Reservations

namespace TapeRs.Core

open SortedMap VolumeRoot List

/-- The life of sessions and of what belongs to them, with the sessions that a batch in flight refers to. -/
structure Lives (root : VolumeRoot) (holding : List SessionId) : Prop where
  backed : ∀ path e, root.pending.get path = some e →
    ∃ r, root.ledger.reservations.get e.reservation = some r ∧ r.session = e.session
  distinct : ∀ left right e f, root.pending.get left = some e → root.pending.get right = some f →
    e.reservation = f.reservation → left = right
  live : ∀ path e r s, root.pending.get path = some e → root.ledger.reservations.get e.reservation = some r →
    root.sessions.get e.session = some s → s.state = .active → r.released = false
  known : ∀ path e, root.pending.get path = some e → (root.sessions.get e.session).isSome
  nodup : holding.Nodup
  held : ∀ id ∈ holding, (root.sessions.get id).isSome
  refs : ∀ id s, root.sessions.get id = some s → s.refs = if id ∈ holding then 1 else 0
  closing : ∀ id s, root.sessions.get id = some s → s.state = .closing → id ∈ holding
  expired : ∀ id s, root.sessions.get id = some s → s.state = .expired →
    ∀ rid r, root.ledger.reservations.get rid = some r → r.session = id → r.released = true
  finished : ∀ id s, root.sessions.get id = some s → s.state ≠ .active →
    ∀ path e, root.pending.get path = some e → e.session = id → e.state = .ready

namespace Lives

variable {root : VolumeRoot} {holding : List SessionId}
  {next : VolumeRoot} {rid : ReservationId} {id : SessionId} {s : Session}

theorem releaseWhere_some {ledger : Ledger} {chosen : ReservationId → Reservation → Bool} {later : Reservation}
    (found : (ledger.releaseWhere chosen).reservations.get rid = some later) :
    ∃ r, ledger.reservations.get rid = some r ∧ later.session = r.session ∧
      later.released = (r.released || chosen rid r) := by
  rw [Ledger.releaseWhere_get, Option.map_eq_some_iff] at found
  obtain ⟨r, there, rfl⟩ := found
  refine ⟨r, there, ?_⟩
  split
  · rename_i picked
    simp [picked]
  · rename_i passed
    simp [passed]

theorem releaseWhere_kept {ledger : Ledger} (chosen : ReservationId → Reservation → Bool) {r : Reservation}
    (found : ledger.reservations.get rid = some r) :
    ∃ later, (ledger.releaseWhere chosen).reservations.get rid = some later ∧ later.session = r.session := by
  rw [Ledger.releaseWhere_get, found]
  refine ⟨_, rfl, ?_⟩
  dsimp only
  split <;> rfl

theorem settle {referred : List SessionId} {after : Session} (release : Bool) (lives : Lives root holding)
    (found : root.sessions.get id = some s) (sessions : next.sessions = root.sessions.insert id after)
    (pending : ∀ path e, next.pending.get path = some e → root.pending.get path = some e)
    (ledger : next.ledger = if release then root.ledger.releaseSession id else root.ledger)
    (releases : release = true → after.state ≠ .active) (state : after.state = .active → s.state = .active)
    (expires : after.state = .expired → s.state = .expired ∨ release = true)
    (finished : after.state ≠ .active → ∀ path e, next.pending.get path = some e → e.session = id → e.state = .ready)
    (nodup : referred.Nodup) (subset : ∀ other ∈ referred, other ∈ holding)
    (refs : after.refs = if id ∈ referred then 1 else 0) (closing : after.state = .closing → id ∈ referred)
    (others : ∀ other, other ≠ id → other ∈ holding → other ∈ referred) : Lives next referred := by
  have record : ∀ other later, next.sessions.get other = some later →
      other = id ∧ later = after ∨ other ≠ id ∧ root.sessions.get other = some later := by
    intro other later there
    rw [sessions] at there
    exact get_insert_some there
  have present : ∀ other, (root.sessions.get other).isSome → (next.sessions.get other).isSome := by
    rw [sessions]
    exact fun other => isSome_insert
  have kept : ∀ rid r, root.ledger.reservations.get rid = some r →
      ∃ later, next.ledger.reservations.get rid = some later ∧ later.session = r.session := by
    intro rid r there
    rw [ledger]
    cases release with
    | true => exact releaseWhere_kept _ there
    | false => exact ⟨r, there, rfl⟩
  have earlier : ∀ rid later, next.ledger.reservations.get rid = some later →
      ∃ r, root.ledger.reservations.get rid = some r ∧ later.session = r.session ∧
        later.released = (r.released || release && decide (r.session = id)) := by
    intro rid later there
    rw [ledger] at there
    cases release with
    | true => exact releaseWhere_some there
    | false => exact ⟨later, there, rfl, by simp⟩
  constructor
  · intro path e there
    obtain ⟨r, reserved, owner⟩ := lives.backed path e (pending path e there)
    obtain ⟨later, filed, session⟩ := kept _ r reserved
    exact ⟨later, filed, session.trans owner⟩
  · intro left right e f leftFound rightFound
    exact lives.distinct left right e f (pending left e leftFound) (pending right f rightFound)
  · intro path e later t there reserved session active
    obtain ⟨r, filed, sameSession, released⟩ := earlier _ later reserved
    obtain ⟨prior, backed, owner⟩ := lives.backed path e (pending path e there)
    rw [filed] at backed
    obtain rfl := Option.some.inj backed
    rcases record _ t session with ⟨mine, rfl⟩ | ⟨other, same⟩
    · have unreleased := lives.live path e r s (pending path e there) filed (mine ▸ found) (state active)
      have quiet : release = false := Bool.eq_false_iff.mpr fun now => releases now active
      simp [released, unreleased, quiet]
    · have unreleased := lives.live path e r t (pending path e there) filed same active
      simp [released, unreleased, owner, other]
  · intro path e there
    exact present _ (lives.known path e (pending path e there))
  · exact nodup
  · intro other member
    exact present other (lives.held other (subset other member))
  · intro other later there
    rcases record other later there with ⟨rfl, rfl⟩ | ⟨apart, same⟩
    · exact refs
    · rw [lives.refs other later same]
      have iff : other ∈ holding ↔ other ∈ referred := ⟨others other apart, subset other⟩
      simp only [iff]
  · intro other later there closed
    rcases record other later there with ⟨rfl, rfl⟩ | ⟨apart, same⟩
    · exact closing closed
    · exact others other apart (lives.closing other later same closed)
  · intro other later there gone rid r reserved owner
    obtain ⟨prior, filed, session, released⟩ := earlier rid r reserved
    rcases record other later there with ⟨rfl, rfl⟩ | ⟨_, same⟩
    · rcases expires gone with was | now
      · have already := lives.expired other s found was rid prior filed (session.symm.trans owner)
        simp [released, already]
      · simp [released, now, session.symm.trans owner]
    · have already := lives.expired other later same gone rid prior filed (session.symm.trans owner)
      simp [released, already]
  · intro other later there inactive path e entry owner
    rcases record other later there with ⟨rfl, rfl⟩ | ⟨_, same⟩
    · exact finished inactive path e entry owner
    · exact lives.finished other later same inactive path e (pending path e entry) owner

theorem dropRef {rest : List SessionId} (lives : Lives root (id :: rest)) : Lives (root.dropRef id) rest := by
  obtain ⟨s, found⟩ := Option.isSome_iff_exists.mp (lives.held id mem_cons_self)
  have refs : s.refs = 1 := by
    rw [lives.refs id s found, if_pos mem_cons_self]
  obtain ⟨absent, nodup⟩ := nodup_cons.mp lives.nodup
  have others : ∀ other, other ≠ id → other ∈ id :: rest → other ∈ rest := by
    intro other apart member
    exact (mem_cons.mp member).resolve_left apart
  unfold VolumeRoot.dropRef
  rw [found]
  dsimp only
  by_cases closing : s.state = .closing
  · rw [if_pos (by simp [closing, refs])]
    refine settle true lives found rfl (fun _ _ there => there) rfl (fun _ => by simp) (fun active => by cases active)
      (fun _ => .inr rfl) ?_ nodup (fun _ => mem_cons_of_mem _) (by simp [refs, absent]) (fun closed => by cases closed)
      others
    intro _ path e there owner
    exact lives.finished id s found (by rw [closing]; decide) path e there owner
  · rw [if_neg (by simp [closing])]
    refine settle false lives found rfl (fun _ _ there => there) rfl (fun release => by cases release) (fun active => active)
      (fun expired => .inl expired) ?_ nodup (fun _ => mem_cons_of_mem _) (by simp [refs, absent])
      (fun closed => absurd closed closing) others
    intro inactive path e there owner
    exact lives.finished id s found inactive path e there owner

theorem dropRefs {ids : List SessionId} (lives : Lives root ids) : Lives (ids.foldl VolumeRoot.dropRef root) [] := by
  induction ids generalizing root with
  | nil => exact lives
  | cons id rest ih => exact ih lives.dropRef

variable (lives : Lives root holding)
include lives

theorem carry (sessions : next.sessions = root.sessions)
    (entries : ∀ path later, next.pending.get path = some later → ∃ e, root.pending.get path = some e ∧ later.session = e.session ∧ later.reservation = e.reservation ∧ (later.state = e.state ∨ later.state = .ready))
    (kept : ∀ rid r, root.ledger.reservations.get rid = some r → ∃ later, next.ledger.reservations.get rid = some later ∧ later.session = r.session)
    (earlier : ∀ rid later, next.ledger.reservations.get rid = some later → ∃ r, root.ledger.reservations.get rid = some r ∧ later.session = r.session ∧ (r.released = true → later.released = true) ∧ (later.released = true → r.released = true ∨ ∀ path e, next.pending.get path = some e → e.reservation ≠ rid))
    : Lives next holding := by
  constructor
  · intro path later found
    obtain ⟨e, there, session, reservation, -⟩ := entries path later found
    obtain ⟨r, reserved, same⟩ := lives.backed path e there
    obtain ⟨after, filed, sameSession⟩ := kept _ r reserved
    rw [reservation, session]
    exact ⟨after, filed, sameSession.trans same⟩
  · intro left right e f leftFound rightFound same
    obtain ⟨oldLeft, leftThere, -, leftReservation, -⟩ := entries left e leftFound
    obtain ⟨oldRight, rightThere, -, rightReservation, -⟩ := entries right f rightFound
    exact lives.distinct left right oldLeft oldRight leftThere rightThere
      (leftReservation.symm.trans (same.trans rightReservation))
  · intro path later r s found reserved session active
    obtain ⟨e, there, sameSession, sameReservation, -⟩ := entries path later found
    obtain ⟨prior, filed, -, -, cause⟩ := earlier _ r reserved
    rw [sessions, sameSession] at session
    rw [sameReservation] at filed
    have unreleased := lives.live path e prior s there filed session active
    cases released : r.released with
    | false => rfl
    | true =>
      rcases cause released with already | unused
      · rw [unreleased] at already
        cases already
      · exact absurd rfl (unused path later found)
  · intro path later found
    obtain ⟨e, there, session, -, -⟩ := entries path later found
    rw [sessions, session]
    exact lives.known path e there
  · exact lives.nodup
  · rw [sessions]
    exact lives.held
  · rw [sessions]
    exact lives.refs
  · rw [sessions]
    exact lives.closing
  · intro id s session state rid later reserved owner
    rw [sessions] at session
    obtain ⟨r, filed, sameSession, released, -⟩ := earlier rid later reserved
    exact released (lives.expired id s session state rid r filed (sameSession.symm.trans owner))
  · intro id s session state path later found owner
    rw [sessions] at session
    obtain ⟨e, there, sameSession, -, stays | ready⟩ := entries path later found
    · rw [stays]
      exact lives.finished id s session state path e there (sameSession.symm.trans owner)
    · exact ready

theorem reopen {referred : List SessionId} (pending : next.pending = root.pending) (ledger : next.ledger = root.ledger)
    (kept : ∀ id, (root.sessions.get id).isSome → (next.sessions.get id).isSome)
    (earlier : ∀ id later, next.sessions.get id = some later → (∃ s, root.sessions.get id = some s ∧ later.state = s.state) ∨ root.sessions.get id = none ∧ later.state = .active)
    (nodup : referred.Nodup) (held : ∀ id ∈ referred, (next.sessions.get id).isSome)
    (refs : ∀ id s, next.sessions.get id = some s → s.refs = if id ∈ referred then 1 else 0)
    (subset : ∀ id ∈ holding, id ∈ referred) : Lives next referred := by
  have ended : ∀ id later, next.sessions.get id = some later → later.state ≠ .active →
      ∃ s, root.sessions.get id = some s ∧ later.state = s.state := by
    intro id later found inactive
    rcases earlier id later found with old | ⟨_, active⟩
    · exact old
    · exact absurd active inactive
  constructor
  · rw [pending, ledger]
    exact lives.backed
  · rw [pending]
    exact lives.distinct
  · intro path e r later found reserved session active
    rw [pending] at found
    rw [ledger] at reserved
    rcases earlier _ later session with ⟨s, there, state⟩ | ⟨absent, _⟩
    · exact lives.live path e r s found reserved there (state.symm.trans active)
    · have known := lives.known path e found
      rw [absent] at known
      cases known
  · intro path e found
    rw [pending] at found
    exact kept _ (lives.known path e found)
  · exact nodup
  · exact held
  · exact refs
  · intro id later found state
    obtain ⟨s, there, same⟩ := ended id later found (by rw [state]; decide)
    exact subset id (lives.closing id s there (same.symm.trans state))
  · intro id later found state
    rw [ledger]
    obtain ⟨s, there, same⟩ := ended id later found (by rw [state]; decide)
    exact lives.expired id s there (same.symm.trans state)
  · intro id later found state
    rw [pending]
    obtain ⟨s, there, same⟩ := ended id later found state
    exact lives.finished id s there (same ▸ state)

theorem endSession (found : root.sessions.get id = some s)
    (uncommitted : ∀ path e, root.pending.get path = some e → e.session = id → e.state = .inProgress → e.committedPrefix = 0)
    : Lives (root.endSession id) holding := by
  have refs := lives.refs id s found
  have shape : root.endSession id =
      { root with
        sessions := root.sessions.insert id { s with state := if s.refs = 0 then .expired else .closing }
        pending := root.pending.filter (fun _ e =>
          !(e.session = id && e.state = .inProgress && e.committedPrefix = 0))
        ledger := if s.refs = 0 then root.ledger.releaseSession id else root.ledger } := by
    unfold VolumeRoot.endSession
    rw [found]
  rw [shape]
  refine settle (decide (s.refs = 0)) lives found rfl ?_ (by simp) ?_ ?_ ?_ ?_ lives.nodup (fun _ member => member) refs ?_
    (fun _ _ member => member)
  · intro path e there
    rw [get_filter] at there
    exact (Option.filter_eq_some_iff.mp there).1
  · intro _
    dsimp only
    split <;> decide
  · intro still
    dsimp only at still
    split at still <;> cases still
  · intro expired
    dsimp only at expired
    split at expired
    · rename_i unreferred
      exact .inr (decide_eq_true unreferred)
    · cases expired
  · intro _ path e there owner
    rw [get_filter] at there
    obtain ⟨kept, passed⟩ := Option.filter_eq_some_iff.mp there
    cases state : e.state with
    | ready => rfl
    | inProgress => simp [owner, state, uncommitted path e kept owner state] at passed
  · intro closed
    dsimp only at closed
    split at closed
    · cases closed
    rename_i referred
    rw [refs] at referred
    by_contra absent
    exact referred (if_neg absent)

theorem endSessions {ids : List SessionId} (found : ∀ id ∈ ids, (root.sessions.get id).isSome)
    (uncommitted : ∀ id ∈ ids, ∀ path e, root.pending.get path = some e → e.session = id → e.state = .inProgress → e.committedPrefix = 0)
    : Lives (ids.foldl VolumeRoot.endSession root) holding := by
  induction ids generalizing root with
  | nil => exact lives
  | cons id rest ih =>
    obtain ⟨s, there⟩ := Option.isSome_iff_exists.mp (found id mem_cons_self)
    refine ih (lives.endSession there (uncommitted id mem_cons_self)) ?_ ?_
    · intro other member
      have present := found other (mem_cons_of_mem _ member)
      unfold VolumeRoot.endSession
      rw [there]
      exact isSome_insert present
    · intro other member path e kept
      exact uncommitted other (mem_cons_of_mem _ member) path e (World.endSession_pending kept)

theorem coverPath (directories : List Path) (entry : Path × CoverEntry) :
    Lives (root.coverPath directories entry) holding := by
  have entries : ∀ path later, (root.coverPath directories entry).pending.get path = some later →
      ∃ e, root.pending.get path = some e ∧ later.session = e.session ∧ later.reservation = e.reservation ∧
        (later.state = e.state ∨ later.state = .ready) := by
    intro path later found
    rw [coverPath_pending] at found
    split at found
    · obtain ⟨e, there, left⟩ := Option.bind_eq_some_iff.mp found
      refine ⟨e, there, ?_⟩
      unfold remaining at left
      split_ifs at left
      · obtain rfl := Option.some.inj left
        exact ⟨rfl, rfl, .inl rfl⟩
      · obtain rfl := Option.some.inj left
        exact ⟨rfl, rfl, .inl rfl⟩
    · exact ⟨later, found, rfl, rfl, .inl rfl⟩
  have parts : (root.coverPath directories entry).sessions = root.sessions ∧
      ((root.coverPath directories entry).ledger = root.ledger ∨
        ∃ e, root.pending.get entry.1 = some e ∧ (root.coverPath directories entry).pending.get entry.1 = none ∧
          (root.coverPath directories entry).ledger = root.ledger.release e.reservation) := by
    unfold VolumeRoot.coverPath
    dsimp only
    split
    · exact ⟨rfl, .inl rfl⟩
    split
    · exact ⟨rfl, .inl rfl⟩
    rename_i e found
    split_ifs
    · exact ⟨rfl, .inr ⟨e, found, by simp, rfl⟩⟩
    · exact ⟨rfl, .inl rfl⟩
    · exact ⟨rfl, .inl rfl⟩
  obtain ⟨sessions, same | ⟨e, found, ended, released⟩⟩ := parts
  · refine lives.carry sessions entries ?_ ?_
    · intro rid r there
      rw [same]
      exact ⟨r, there, rfl⟩
    · intro rid later there
      rw [same] at there
      exact ⟨later, there, rfl, id, .inl⟩
  · refine lives.carry sessions entries ?_ ?_
    · intro rid r there
      rw [released]
      exact releaseWhere_kept _ there
    · intro rid later there
      rw [released] at there
      obtain ⟨r, filed, session, now⟩ := releaseWhere_some there
      refine ⟨r, filed, session, fun was => by simp [now, was], ?_⟩
      intro done
      rw [now, Bool.or_eq_true, decide_eq_true_eq] at done
      rcases done with was | mine
      · exact .inl was
      right
      -- another entry with this reservation would be the ended one
      intro path f entryFound uses
      obtain ⟨old, there, -, reservation, -⟩ := entries path f entryFound
      have here := lives.distinct path entry.1 old e there found (reservation.symm.trans (uses.trans mine))
      rw [here, ended] at entryFound
      cases entryFound

theorem coverPaths (directories : List Path) (entries : List (Path × CoverEntry)) :
    Lives (entries.foldl (VolumeRoot.coverPath directories) root) holding := by
  induction entries generalizing root with
  | nil => exact lives
  | cons entry rest ih => exact ih (lives.coverPath directories entry)

theorem congr (pending : next.pending = root.pending) (ledger : next.ledger = root.ledger)
    (sessions : next.sessions = root.sessions) : Lives next holding :=
  lives.carry sessions
    (fun _ later found => ⟨later, pending ▸ found, rfl, rfl, .inl rfl⟩)
    (fun _ r found => ⟨r, ledger ▸ found, rfl⟩)
    (fun _ later found => ⟨later, ledger ▸ found, rfl, id, .inl⟩)

theorem admission {path : Path} {entry : PendingEntry} {r : Reservation}
    (unused : root.ledger.reservations.get rid = none) (free : root.pending.get path = none)
    (found : root.sessions.get entry.session = some s) (active : s.state = .active)
    (sessions : next.sessions = root.sessions) (pending : next.pending = root.pending.insert path entry)
    (ledger : next.ledger = root.ledger.reserve rid r) (reservation : entry.reservation = rid)
    (owner : r.session = entry.session) (unreleased : r.released = false) : Lives next holding := by
  have reservations : ∀ other, next.ledger.reservations.get other =
      if other = rid then some r else root.ledger.reservations.get other := by
    intro other
    rw [ledger]
    exact get_insert _ rid other r
  have entries : ∀ other e, next.pending.get other = some e →
      other = path ∧ e = entry ∨ other ≠ path ∧ root.pending.get other = some e := by
    intro other e there
    rw [pending] at there
    exact get_insert_some there
  have older : ∀ other e, root.pending.get other = some e → e.reservation ≠ rid := by
    intro other e there same
    obtain ⟨prior, filed, -⟩ := lives.backed other e there
    rw [same, unused] at filed
    cases filed
  constructor
  · intro other e there
    rw [reservations]
    rcases entries other e there with ⟨-, rfl⟩ | ⟨-, old⟩
    · rw [if_pos reservation]
      exact ⟨r, rfl, owner⟩
    · rw [if_neg (older other e old)]
      exact lives.backed other e old
  · intro left right e f leftFound rightFound same
    rcases entries left e leftFound with ⟨rfl, rfl⟩ | ⟨-, oldLeft⟩ <;>
      rcases entries right f rightFound with ⟨rfl, rfl⟩ | ⟨-, oldRight⟩
    · rfl
    · exact absurd (same.symm.trans reservation) (older right f oldRight)
    · exact absurd (same.trans reservation) (older left e oldLeft)
    · exact lives.distinct left right e f oldLeft oldRight same
  · intro other e prior t there filed session live
    rw [reservations] at filed
    rw [sessions] at session
    rcases entries other e there with ⟨-, rfl⟩ | ⟨-, old⟩
    · rw [if_pos reservation] at filed
      obtain rfl := Option.some.inj filed
      exact unreleased
    · rw [if_neg (older other e old)] at filed
      exact lives.live other e prior t old filed session live
  · intro other e there
    rw [sessions]
    rcases entries other e there with ⟨-, rfl⟩ | ⟨-, old⟩
    · rw [found]
      rfl
    · exact lives.known other e old
  · exact lives.nodup
  · rw [sessions]
    exact lives.held
  · rw [sessions]
    exact lives.refs
  · rw [sessions]
    exact lives.closing
  · intro id t session gone other prior filed mine
    rw [sessions] at session
    rw [reservations] at filed
    split at filed
    · obtain rfl := Option.some.inj filed
      rw [← mine, owner, found] at session
      obtain rfl := Option.some.inj session
      rw [active] at gone
      cases gone
    · exact lives.expired id t session gone other prior filed mine
  · intro id t session inactive other e there mine
    rw [sessions] at session
    rcases entries other e there with ⟨-, rfl⟩ | ⟨-, old⟩
    · rw [← mine, found] at session
      obtain rfl := Option.some.inj session
      exact absurd active inactive
    · exact lives.finished id t session inactive other e old mine

theorem advance {path : Path} {e later : PendingEntry} (found : root.pending.get path = some e)
    (pending : next.pending = root.pending.insert path later) (sessions : next.sessions = root.sessions)
    (session : later.session = e.session) (reservation : later.reservation = e.reservation)
    (state : later.state = e.state ∨ later.state = .ready)
    (kept : ∀ rid r, root.ledger.reservations.get rid = some r → ∃ later, next.ledger.reservations.get rid = some later ∧ later.session = r.session)
    (earlier : ∀ rid later, next.ledger.reservations.get rid = some later → ∃ r, root.ledger.reservations.get rid = some r ∧ later.session = r.session ∧ later.released = r.released)
    : Lives next holding := by
  refine lives.carry sessions ?_ kept ?_
  · rw [pending]
    exact forall_insert ⟨e, found, session, reservation, state⟩ fun _ after old => ⟨after, old, rfl, rfl, .inl rfl⟩
  · intro rid after there
    obtain ⟨r, filed, same, released⟩ := earlier rid after there
    exact ⟨r, filed, same, fun was => released.trans was, fun now => .inl (released.symm.trans now)⟩

end Lives

namespace VolumeRoot

theorem batchSessions_spec (root : VolumeRoot) (snapshotOpen : List Path) :
    (root.batchSessions snapshotOpen).Nodup ∧
      ∀ id ∈ root.batchSessions snapshotOpen, ∃ path e, root.pending.get path = some e ∧ e.session = id := by
  unfold batchSessions
  have collect : ∀ (entries : List (Path × PendingEntry)) (ids : List SessionId), ids.Nodup →
      (∀ id ∈ ids, ∃ path e, root.pending.get path = some e ∧ e.session = id) →
      (∀ entry ∈ entries, entry ∈ root.pending.entries) →
      (entries.foldl (fun ids entry =>
        if (coverEntry snapshotOpen entry.1 entry.2).isSome && entry.2.session ∉ ids then ids ++ [entry.2.session]
        else ids) ids).Nodup ∧
      ∀ id ∈ entries.foldl (fun ids entry =>
        if (coverEntry snapshotOpen entry.1 entry.2).isSome && entry.2.session ∉ ids then ids ++ [entry.2.session]
        else ids) ids, ∃ path e, root.pending.get path = some e ∧ e.session = id := by
    intro entries
    induction entries with
    | nil =>
      intro ids nodup owned _
      exact ⟨nodup, owned⟩
    | cons entry rest ih =>
      intro ids nodup owned listed
      rw [foldl_cons]
      have later := fun other member => listed other (mem_cons_of_mem _ member)
      split
      · rename_i added
        simp only [Bool.and_eq_true, decide_eq_true_eq] at added
        refine ih _ ?_ ?_ later
        · refine nodup_append.mpr ⟨nodup, nodup_singleton _, ?_⟩
          intro id member other single same
          rw [same, mem_singleton.mp single] at member
          exact added.2 member
        · intro id member
          rcases mem_append.mp member with old | single
          · exact owned id old
          · rw [mem_singleton.mp single]
            exact ⟨entry.1, entry.2, mem_entries.mp (listed entry mem_cons_self), rfl⟩
      · exact ih ids nodup owned later
  exact collect root.pending.entries [] nodup_nil (by simp) (fun _ member => member)

def referred (root : VolumeRoot) : List SessionId :=
  (root.commitSlot.map (·.sessions)).getD []

end VolumeRoot

namespace World

variable {w : World} {call : Call} {root : VolumeRoot}

def FreshIds (w : World) : Call → Prop
  | .openSession session _ => w.state.current.sessions.get session = none
  | _ => True

instance (w : World) (call : Call) : Decidable (w.FreshIds call) := by
  unfold FreshIds
  split <;> infer_instance

def EndsUncommitted (w : World) (call : Call) : Prop :=
  ∀ id ∈ w.state.ending call, ∀ entry ∈ w.state.current.pending.entries,
    entry.2.session = id → entry.2.state = .inProgress → entry.2.committedPrefix = 0

instance (w : World) (call : Call) : Decidable (w.EndsUncommitted call) :=
  inferInstanceAs (Decidable (∀ id ∈ w.state.ending call, ∀ entry ∈ w.state.current.pending.entries, _))

theorem ending_known {id : SessionId} (member : id ∈ w.state.ending call) :
    (w.state.current.sessions.get id).isSome := by
  unfold Inner.ending at member
  split at member
  · obtain ⟨entry, listed, rfl⟩ := mem_map.mp member
    have there : w.state.current.sessions.get entry.1 = some entry.2 :=
      mem_entries.mp (mem_filter.mp listed).1
    rw [there]
    rfl
  · split at member
    · rename_i active
      rw [mem_singleton.mp member]
      obtain ⟨s, there, -⟩ := Option.map_eq_some_iff.mp active
      rw [there]
      rfl
    · cases member
  · cases member

theorem change_lives (filed : w.Filed) (fresh : w.Fresh) (lives : Lives w.state.current w.state.current.referred)
    (permitted : w.Permits call) (newIds : w.FreshIds call) (uncommitted : w.EndsUncommitted call)
    (change : Change w.state call root) : Lives root root.referred := by
  cases change with
  | opened session deadline =>
    have absent : session ∉ w.state.current.referred := by
      intro member
      have known := lives.held session member
      rw [show w.state.current.sessions.get session = none from newIds] at known
      cases known
    refine lives.reopen rfl rfl (fun _ => isSome_insert) ?_ lives.nodup ?_ ?_ (fun _ member => member)
    · exact forall_insert (.inr ⟨newIds, rfl⟩) fun _ later old => .inl ⟨later, old, rfl⟩
    · exact fun id member => isSome_insert (lives.held id member)
    · exact forall_insert (if_neg absent).symm lives.refs
  | renewed session newDeadline s there active =>
    refine lives.reopen rfl rfl (fun _ => isSome_insert) ?_ lives.nodup ?_ ?_ (fun _ member => member)
    · exact forall_insert (.inl ⟨s, there, rfl⟩) fun _ later old => .inl ⟨later, old, rfl⟩
    · exact fun id member => isSome_insert (lives.held id member)
    · exact forall_insert (lives.refs session s there) lives.refs
  | ended =>
    have start : Lives w.state.current.next w.state.current.referred := lives.congr rfl rfl rfl
    have slot := (sameHead_foldl sameHead_endSession (w.state.ending call)
      w.state.current.next).commitSlot
    unfold referred
    rw [slot]
    apply start.endSessions (fun id member => ending_known member)
    intro id member path e found
    exact uncommitted id member (path, e) (mem_entries.mpr found)
  | admitted _ asked asks active free =>
    obtain ⟨s, there, state⟩ := Option.map_eq_some_iff.mp active
    exact lives.admission fresh.unused free there state rfl rfl rfl rfl rfl rfl
  | ingested path bytes e r found unfinished active reserved =>
    refine lives.advance found rfl rfl rfl rfl (.inl rfl) ?_ ?_
    · exact exists_insert (fun _ => rfl) reserved rfl
    · exact forall_insert ⟨r, reserved, rfl, rfl⟩ fun _ later old => ⟨later, old, rfl, rfl⟩
  | staged path len e found =>
    exact lives.advance found rfl rfl rfl rfl (.inl rfl) (fun _ r filed => ⟨r, filed, rfl⟩)
      (fun _ later filed => ⟨later, filed, rfl, rfl⟩)
  | completed path e found =>
    exact lives.advance found rfl rfl rfl rfl (.inr rfl) (fun _ r filed => ⟨r, filed, rfl⟩)
      (fun _ later filed => ⟨later, filed, rfl, rfl⟩)
  | calibrated deviceFree =>
    exact lives.carry rfl (fun _ e found => ⟨e, found, rfl, rfl, .inl rfl⟩) (fun _ r filed => ⟨r, filed, rfl⟩)
      (fun _ later filed => ⟨later, filed, rfl, id, .inl⟩)
  | frozen snapshotOpen vacant =>
    obtain ⟨nodup, owned⟩ := w.state.current.batchSessions_spec snapshotOpen
    have none : w.state.current.referred = [] := by
      unfold referred
      rw [vacant]
      rfl
    have records : ∀ id, (w.state.current.frozen (w.state.current.batch w.state.nextBatch snapshotOpen)).sessions.get id =
        (w.state.current.sessions.get id).map (fun s =>
          if id ∈ w.state.current.batchSessions snapshotOpen then { s with refs := s.refs + 1 } else s) :=
      fun id => get_map _ _ id
    refine lives.reopen rfl rfl ?_ ?_ nodup ?_ ?_ ?_
    · intro id known
      rw [records, Option.isSome_map]
      exact known
    · intro id later found
      rw [records] at found
      obtain ⟨s, there, rfl⟩ := Option.map_eq_some_iff.mp found
      refine .inl ⟨s, there, ?_⟩
      split <;> rfl
    · intro id member
      obtain ⟨path, e, pending, rfl⟩ := owned id member
      rw [records, Option.isSome_map]
      exact lives.known path e pending
    · intro id later found
      rw [records] at found
      obtain ⟨s, there, rfl⟩ := Option.map_eq_some_iff.mp found
      have unreferred : s.refs = 0 := by
        rw [lives.refs id s there, none, if_neg not_mem_nil]
      show _ = if id ∈ w.state.current.batchSessions snapshotOpen then 1 else 0
      split <;> simp [unreferred]
    · rw [none]
      simp
  | published batch evidence directories slot evidenced instanced found same =>
    obtain rfl := filed.slot_eq permitted instanced found same
    have start : Lives w.state.current.next slot.sessions := by
      have sessions : w.state.current.referred = slot.sessions := by
        unfold referred
        rw [found]
        rfl
      exact sessions ▸ lives.congr rfl rfl rfl
    exact ((start.coverPaths directories slot.cover.entries).dropRefs).congr rfl rfl rfl

/-- The invariant of a run that opens sessions under new identifiers and ends none with an open committed prefix. -/
structure Orderly (w : World) : Prop where
  fresh : w.Fresh
  lives : Lives w.state.current w.state.current.referred

theorem orderly_new (instanceId : InstanceId) (committed : DirNode) (generation baselineFree : UInt64)
    (writable : Bool) : (new instanceId committed generation baselineFree writable).Orderly where
  fresh := fresh_new instanceId committed generation baselineFree writable
  lives := by constructor <;> simp [new, Inner.new, referred]

theorem Orderly.step (filed : w.Filed) (orderly : w.Orderly) (permitted : w.Permits call) (newIds : w.FreshIds call)
    (uncommitted : w.EndsUncommitted call) : (w.step call).Orderly := by
  refine ⟨orderly.fresh.step filed call, ?_⟩
  refine filed.current_step (P := fun root => Lives root root.referred) call ?_ ?_
  · exact fun epoch capability => orderly.lives.congr rfl rfl rfl
  · exact fun root => change_lives filed orderly.fresh orderly.lives permitted newIds uncommitted

end World

namespace VolumeRoot

def StayEnded (before after : VolumeRoot) : Prop :=
  ∀ id s, before.sessions.get id = some s → s.state ≠ .active →
    ∃ later, after.sessions.get id = some later ∧ later.state ≠ .active

theorem StayEnded.refl (root : VolumeRoot) : root.StayEnded root :=
  fun _ s found ended => ⟨s, found, ended⟩

theorem StayEnded.trans {a b c : VolumeRoot} (first : a.StayEnded b) (second : b.StayEnded c) : a.StayEnded c := by
  intro id s found ended
  obtain ⟨middle, there, finished⟩ := first id s found ended
  exact second id middle there finished

theorem StayEnded.foldl {α : Type} {f : VolumeRoot → α → VolumeRoot} (each : ∀ root x, StayEnded root (f root x))
    (list : List α) (root : VolumeRoot) : root.StayEnded (list.foldl f root) := by
  induction list generalizing root with
  | nil => exact .refl root
  | cons x rest ih => exact (each root x).trans (ih (f root x))

theorem stayEnded_insert {root next : VolumeRoot} {id : SessionId} {after : Session}
    (sessions : next.sessions = root.sessions.insert id after)
    (kept : ∀ s, root.sessions.get id = some s → s.state ≠ .active → after.state ≠ .active) : root.StayEnded next := by
  intro other s found ended
  rw [sessions, get_insert]
  split
  · rename_i same
    exact ⟨after, rfl, kept s (same ▸ found) ended⟩
  · exact ⟨s, found, ended⟩

theorem stayEnded_endSession (root : VolumeRoot) (id : SessionId) : root.StayEnded (root.endSession id) := by
  unfold endSession
  split
  · exact .refl root
  refine stayEnded_insert rfl ?_
  intro _ _ _
  dsimp only
  split <;> decide

theorem stayEnded_coverPath (directories : List Path) (root : VolumeRoot) (entry : Path × CoverEntry) :
    root.StayEnded (root.coverPath directories entry) := by
  have sessions : (root.coverPath directories entry).sessions = root.sessions := by
    unfold coverPath
    dsimp only
    split
    · rfl
    · split
      · rfl
      · split_ifs <;> rfl
  intro id s found ended
  rw [sessions]
  exact ⟨s, found, ended⟩

theorem stayEnded_dropRef (root : VolumeRoot) (id : SessionId) : root.StayEnded (root.dropRef id) := by
  unfold dropRef
  split
  · exact .refl root
  rename_i s found
  split
  · exact stayEnded_insert rfl (fun _ _ _ => by simp)
  refine stayEnded_insert rfl ?_
  intro other there ended
  rw [found] at there
  obtain rfl := Option.some.inj there
  exact ended

end VolumeRoot

namespace World

variable {w : World} {call : Call} {root : VolumeRoot}

theorem change_stayEnded (newIds : w.FreshIds call) (change : Change w.state call root) :
    w.state.current.StayEnded root := by
  cases change with
  | opened session deadline =>
    refine stayEnded_insert rfl ?_
    intro s found
    rw [show w.state.current.sessions.get session = none from newIds] at found
    cases found
  | renewed session newDeadline s there active =>
    refine stayEnded_insert rfl ?_
    intro other found ended
    rw [there] at found
    obtain rfl := Option.some.inj found
    exact absurd active ended
  | ended => exact VolumeRoot.StayEnded.foldl stayEnded_endSession _ w.state.current.next
  | frozen snapshotOpen =>
    intro id s found ended
    refine ⟨_, (get_map _ _ id).trans (by rw [found]; rfl), ?_⟩
    split <;> exact ended
  | published batch evidence directories =>
    have covered := VolumeRoot.StayEnded.foldl (stayEnded_coverPath directories) batch.cover.entries
      w.state.current.next
    exact covered.trans (VolumeRoot.StayEnded.foldl stayEnded_dropRef batch.sessions _)
  | _ => exact .refl _

theorem stayEnded_step (filed : w.Filed) (newIds : w.FreshIds call) :
    w.state.current.StayEnded (w.step call).state.current :=
  filed.current_step call (fun _ _ => .refl _) fun _ => change_stayEnded newIds

theorem ingest_answers {g : Inner} {holding : List SessionId} (lives : Lives g.current holding) (path : Path)
    (bytes : UInt64) : (g.ingest path bytes).isSome := by
  unfold Inner.ingest
  dsimp only
  split
  · rfl
  rename_i e found
  split_ifs
  · rfl
  · rfl
  · obtain ⟨r, reserved, -⟩ := lives.backed path e found
    rw [reserved]
    dsimp only
    split <;> rfl

/-- A session is cancelled while its entry is frozen, and the batch is published then. -/
def cancelledCalls : List Call :=
  [.openSession 1 100, .admitWrite 1 "/a" 10 0, .ingest "/a" 4, .complete "/a", .freeze [], .cancel 1,
    .publish
      { batchId := 1, instanceId := 1, baseEpoch := 5, generation := 1, sessions := [1]
        cover := SortedMap.empty.insert "/a" { version := 1, len := 4, complete := true, removal := false } }
      ⟨1, 1⟩ []]

/-- A snapshot of an open file is published and its session is cancelled afterwards. -/
def abandonedCalls : List Call :=
  [.openSession 1 100, .admitWrite 1 "/a" 10 0, .ingest "/a" 4, .freeze ["/a"],
    .publish
      { batchId := 1, instanceId := 1, baseEpoch := 4, generation := 1, sessions := [1]
        cover := SortedMap.empty.insert "/a" { version := 1, len := 4, complete := false, removal := false } }
      ⟨1, 1⟩ [],
    .cancel 1, .openSession 2 100]

end World

end TapeRs.Core
