import TapeRs.Core.VolumeState

namespace TapeRs.Core

open VolumeRoot Inner

/-- The calls that change the state of a volume. -/
inductive Call where
  | openSession (session : SessionId) (deadline : Nat)
  | renew (session : SessionId) (newDeadline : Nat)
  | tick (now observedEpoch : Nat)
  | cancel (session : SessionId)
  | admitWrite (session : SessionId) (path : Path) (reserve : UInt64) (now : Nat)
  | admitRemoval (session : SessionId) (path : Path) (now : Nat)
  | ingest (path : Path) (bytes : UInt64)
  | stageReference (path : Path) (len : UInt64)
  | complete (path : Path)
  | waitFor (path : Path) (lenRequired : UInt64)
  | calibrate (deviceFree : UInt64)
  | freeze (snapshotOpen : List Path)
  | publish (batch : FrozenBatch) (evidence : S4Evidence) (directories : List Path)
  | poison
  | failNextPublish
  | reclaim (readers : Nat → Bool)

namespace Call

def run (g : Inner) : Call → Inner
  | openSession session deadline => (g.openSession session deadline).2
  | renew session newDeadline => (g.renew session newDeadline).2
  | tick now observedEpoch => (g.tick now observedEpoch).2
  | cancel session => (g.cancel session).2
  | admitWrite session path reserve now => (g.admitWrite session path reserve now).2
  | admitRemoval session path now => (g.admitRemoval session path now).2
  | ingest path bytes => ((g.ingest path bytes).map (·.2)).getD g
  | stageReference path len => (g.stageReference path len).2
  | complete path => (g.complete path).2
  | waitFor path lenRequired => (g.waitFor path lenRequired).2
  | calibrate deviceFree => (g.calibrate deviceFree).2
  | freeze snapshotOpen => (g.freeze snapshotOpen).2
  | publish batch evidence directories => (g.publishNamespace batch evidence directories).2
  | poison => g.poisonLocked
  | failNextPublish => { g with failNextPublish := true }
  | reclaim readers => g.reclaim readers

end Call

/-- What an admission asks for. -/
structure Admission where
  session : SessionId
  path : Path
  reserve : UInt64
  now : Nat
  removal : Bool

def Call.admission : Call → Option Admission
  | admitWrite session path reserve now => some { session, path, reserve, now, removal := false }
  | admitRemoval session path now => some { session, path, reserve := 0, now, removal := true }
  | _ => none

def Call.admissions (call : Call) : Nat := if call.admission.isSome then 1 else 0

def Call.freezes : Call → Nat
  | freeze _ => 1
  | _ => 0

def Inner.ending (g : Inner) : Call → List SessionId
  | .tick now observedEpoch => g.current.next.due now observedEpoch
  | .cancel session => if (g.current.sessions.get session).map (·.state) = some .active then [session] else []
  | _ => []

def Inner.Ready (g : Inner) : Prop :=
  g.poison = g.current.buildPoison ∨ g.poison = g.current

theorem Inner.Ready.poison {g : Inner} (ready : g.Ready) :
    ∃ epoch capability, g.poison = { g.current with epoch, capability } := by
  rcases ready with built | installed
  · exact ⟨_, _, built⟩
  · exact ⟨_, _, installed⟩

/-- The roots that calls install. -/
inductive Change (g : Inner) : Call → VolumeRoot → Prop
  | opened (session : SessionId) (deadline : Nat) :
      Change g (.openSession session deadline)
        { g.current.next with
          sessions := g.current.sessions.insert session
            { deadline, state := .active, refs := 0, renewedAtEpoch := g.current.epoch + 1 } }
  | renewed (session : SessionId) (newDeadline : Nat) (s : Session) (found : g.current.sessions.get session = some s)
      (active : s.state = .active) :
      Change g (.renew session newDeadline)
        { g.current.next with
          sessions := g.current.sessions.insert session
            { s with deadline := max s.deadline newDeadline, renewedAtEpoch := g.current.epoch + 1 } }
  | ended (call : Call) : Change g call ((g.ending call).foldl VolumeRoot.endSession g.current.next)
  | admitted (call : Call) (asked : Admission) (asks : call.admission = some asked)
      (active : (g.current.sessions.get asked.session).map (·.state) = some .active)
      (free : g.current.pending.get asked.path = none) (enough : asked.reserve ≤ g.current.ledger.available) :
      Change g call
        { g.current.next with
          ledger := g.current.ledger.reserve g.nextReservation
            { session := asked.session, path := asked.path, reserved := asked.reserve, consumed := 0, released := false }
          pending := g.current.pending.insert asked.path
            { session := asked.session, version := g.nextVersion, state := .inProgress, stagedLen := 0
              committedPrefix := 0, earliestRegistered := asked.now, reservation := g.nextReservation
              removal := asked.removal } }
  | ingested (path : Path) (bytes : UInt64) (e : PendingEntry) (r : Reservation)
      (found : g.current.pending.get path = some e) (unfinished : e.state = .inProgress)
      (active : (g.current.sessions.get e.session).map (·.state) = some .active)
      (reserved : g.current.ledger.reservations.get e.reservation = some r) (enough : bytes ≤ r.unconsumed) :
      Change g (.ingest path bytes)
        { g.current.next with
          ledger := g.current.ledger.consume e.reservation r bytes
          pending := g.current.pending.insert path { e with stagedLen := e.stagedLen + bytes } }
  | staged (path : Path) (len : UInt64) (e : PendingEntry) (found : g.current.pending.get path = some e)
      (unfinished : e.state = .inProgress) (kept : e.removal = false) :
      Change g (.stageReference path len)
        { g.current.next with pending := g.current.pending.insert path { e with stagedLen := len } }
  | completed (path : Path) (e : PendingEntry) (found : g.current.pending.get path = some e) :
      Change g (.complete path)
        { g.current.next with pending := g.current.pending.insert path { e with state := .ready } }
  | calibrated (deviceFree : UInt64) :
      Change g (.calibrate deviceFree)
        { g.current.next with ledger := g.current.ledger.calibrate deviceFree (g.current.epoch + 1) }
  | frozen (snapshotOpen : List Path) (vacant : g.current.commitSlot = none)
      (writable : g.current.capability.writable = true) :
      Change g (.freeze snapshotOpen) (g.current.frozen (g.current.batch g.nextBatch snapshotOpen))
  | published (batch : FrozenBatch) (evidence : S4Evidence) (directories : List Path) (slot : FrozenBatch)
      (evidenced : evidence.batchId = batch.batchId) (instanced : g.current.instanceId = batch.instanceId)
      (found : g.current.commitSlot = some slot) (same : slot.batchId = batch.batchId) :
      Change g (.publish batch evidence directories) (g.current.published batch evidence.generation directories)

/-- What one call does: it leaves the root, installs the poison root, or installs a new root. -/
inductive Moved (g : Inner) (call : Call) (after : Inner) : Prop
  | quiet (current : after.current = g.current) (poison : after.poison = g.poison)
      (retired : after.retired.length ≤ g.retired.length) (reservations : after.nextReservation = g.nextReservation)
      (batches : after.nextBatch = g.nextBatch)
  | poisoned (current : after.current = g.poison) (poison : after.poison = g.poison)
      (retired : after.retired = g.retired ++ [g.current]) (reservations : after.nextReservation = g.nextReservation)
      (batches : after.nextBatch = g.nextBatch)
  | installed (root : VolumeRoot) (change : Change g call root) (current : after.current = root)
      (poison : after.poison = root.buildPoison) (retired : after.retired = g.retired ++ [g.current])
      (reservations : after.nextReservation = g.nextReservation + call.admissions)
      (batches : after.nextBatch = g.nextBatch + call.freezes)

namespace Moved

variable {g : Inner}

theorem self (call : Call) : Moved g call g :=
  .quiet rfl rfl (Nat.le_refl _) rfl rfl

theorem swap {call : Call} {root : VolumeRoot} (change : Change g call root) (admits : call.admissions = 0)
    (freezes : call.freezes = 0) : Moved g call (g.swap root) :=
  .installed root change rfl rfl rfl (by rw [admits]; rfl) (by rw [freezes]; rfl)

theorem admitEntry (call : Call) (asked : Admission) (asks : call.admission = some asked) (freezes : call.freezes = 0) :
    Moved g call (g.admitEntry asked.session asked.path asked.reserve asked.now asked.removal).2 := by
  unfold Inner.admitEntry
  dsimp only
  split_ifs with locked inactive busy short
  · exact self call
  · exact self call
  · exact self call
  · exact self call
  · simp only [ne_eq, not_not] at inactive
    have free : g.current.pending.get asked.path = none := by simpa [SortedMap.contains] using busy
    have change := Change.admitted (g := g) call asked asks inactive free (UInt64.not_lt.mp short)
    exact .installed _ change rfl rfl rfl (by simp [Call.admissions, asks]) (by rw [freezes]; rfl)

theorem ingest (path : Path) (bytes : UInt64) : Moved g (.ingest path bytes) (Call.run g (.ingest path bytes)) := by
  unfold Call.run Inner.ingest
  dsimp only
  split
  · exact self _
  rename_i e found
  split_ifs with closed inactive
  · exact self _
  · exact self _
  · simp only [ne_eq, not_not] at closed inactive
    split
    · exact self _
    rename_i r reserved
    split_ifs with short
    · exact self _
    · exact swap (.ingested path bytes e r found closed inactive reserved (UInt64.not_lt.mp short)) rfl rfl

theorem publish (batch : FrozenBatch) (evidence : S4Evidence) (directories : List Path) :
    Moved g (.publish batch evidence directories) (Call.run g (.publish batch evidence directories)) := by
  unfold Call.run publishNamespace notifyLocked
  dsimp only
  split_ifs with mismatch stale duplicate failing
  · exact self _
  · exact self _
  · exact .quiet rfl rfl (Nat.le_refl _) rfl rfl
  · exact .poisoned rfl rfl rfl rfl rfl
  · simp only [ne_eq, not_not] at mismatch stale duplicate
    obtain ⟨slot, found, same⟩ := Option.map_eq_some_iff.mp duplicate
    exact .installed _ (.published batch evidence directories slot mismatch stale found same) rfl rfl rfl rfl rfl

theorem run (g : Inner) (call : Call) : Moved g call (call.run g) := by
  cases call with
  | openSession session deadline => exact swap (.opened session deadline) rfl rfl
  | renew session newDeadline =>
    unfold Call.run renew
    dsimp only
    split
    · exact self _
    rename_i s found
    split_ifs with inactive
    · exact self _
    · exact swap (.renewed session newDeadline s found (not_not.mp inactive)) rfl rfl
  | tick now observedEpoch =>
    unfold Call.run tick
    dsimp only
    split_ifs with none
    · exact self _
    · exact swap (.ended (.tick now observedEpoch)) rfl rfl
  | cancel session =>
    unfold Call.run cancel
    dsimp only
    split
    · exact self _
    rename_i s found
    have change := Change.ended (g := g) (.cancel session)
    have there : g.current.sessions.get session = some s := found
    simp only [ending, there, Option.map_some, Option.some.injEq] at change
    split_ifs with active
    · rw [if_pos active] at change
      exact swap change rfl rfl
    · rw [if_neg active] at change
      exact swap change rfl rfl
  | admitWrite session path reserve now =>
    exact admitEntry (.admitWrite session path reserve now) _ rfl rfl
  | admitRemoval session path now =>
    exact admitEntry (.admitRemoval session path now) _ rfl rfl
  | ingest path bytes => exact ingest path bytes
  | stageReference path len =>
    unfold Call.run stageReference
    dsimp only
    split
    · exact self _
    rename_i e found
    split_ifs with refused
    · exact self _
    · simp only [ne_eq, Bool.or_eq_true, decide_eq_true_eq, not_or, not_not, Bool.not_eq_true] at refused
      exact swap (.staged path len e found refused.1 refused.2) rfl rfl
  | complete path =>
    unfold Call.run complete
    dsimp only
    split
    · exact self _
    · rename_i e found
      exact swap (.completed path e found) rfl rfl
  | waitFor | failNextPublish => exact .quiet rfl rfl (Nat.le_refl _) rfl rfl
  | calibrate deviceFree => exact swap (.calibrated deviceFree) rfl rfl
  | freeze snapshotOpen =>
    unfold Call.run freeze
    dsimp only
    split
    · exact self _
    rename_i vacant
    split_ifs with locked
    · exact self _
    · simp only [Bool.not_eq_true', Bool.not_eq_false] at locked
      exact .installed _ (.frozen snapshotOpen vacant locked) rfl rfl rfl rfl rfl
  | publish batch evidence directories => exact publish batch evidence directories
  | poison => exact .poisoned rfl rfl rfl rfl rfl
  | reclaim readers =>
    refine .quiet rfl rfl ?_ rfl rfl
    show ((g.retired.zipIdx.filter _).map Prod.fst).length ≤ _
    rw [List.length_map]
    exact (List.length_filter_le _ _).trans (by rw [List.length_zipIdx])

end Moved

namespace VolumeRoot

/-- Two roots that differ in their accounts, entries, sessions and view only. -/
structure SameHead (left right : VolumeRoot) : Prop where
  epoch : left.epoch = right.epoch
  instanceId : left.instanceId = right.instanceId
  generation : left.generation = right.generation
  commitSlot : left.commitSlot = right.commitSlot
  capability : left.capability = right.capability

theorem SameHead.refl (root : VolumeRoot) : root.SameHead root :=
  ⟨rfl, rfl, rfl, rfl, rfl⟩

theorem SameHead.trans {a b c : VolumeRoot} (first : a.SameHead b) (second : b.SameHead c) : a.SameHead c :=
  ⟨first.epoch.trans second.epoch, first.instanceId.trans second.instanceId, first.generation.trans second.generation,
    first.commitSlot.trans second.commitSlot, first.capability.trans second.capability⟩

theorem sameHead_foldl {α : Type} {f : VolumeRoot → α → VolumeRoot} (each : ∀ root x, (f root x).SameHead root)
    (list : List α) (root : VolumeRoot) : (list.foldl f root).SameHead root := by
  induction list generalizing root with
  | nil => exact .refl root
  | cons x rest ih => exact (ih (f root x)).trans (each root x)

theorem sameHead_endSession (root : VolumeRoot) (id : SessionId) : (root.endSession id).SameHead root := by
  unfold endSession
  split <;> exact ⟨rfl, rfl, rfl, rfl, rfl⟩

theorem sameHead_coverPath (directories : List Path) (root : VolumeRoot) (entry : Path × CoverEntry) :
    (root.coverPath directories entry).SameHead root := by
  unfold coverPath
  dsimp only
  split
  · exact .refl root
  · split
    · exact ⟨rfl, rfl, rfl, rfl, rfl⟩
    · split_ifs <;> exact ⟨rfl, rfl, rfl, rfl, rfl⟩

theorem sameHead_dropRef (root : VolumeRoot) (id : SessionId) : (root.dropRef id).SameHead root := by
  unfold dropRef
  split
  · exact .refl root
  · split <;> exact ⟨rfl, rfl, rfl, rfl, rfl⟩

theorem sameHead_published (root : VolumeRoot) (batch : FrozenBatch) (directories : List Path) :
    (batch.sessions.foldl dropRef (batch.cover.entries.foldl (coverPath directories) root.next)).SameHead root.next :=
  (sameHead_foldl sameHead_dropRef _ _).trans (sameHead_foldl (sameHead_coverPath directories) _ _)

end VolumeRoot

namespace Change

variable {g : Inner} {call : Call} {root : VolumeRoot}

theorem epoch (change : Change g call root) : root.epoch = g.current.epoch + 1 := by
  cases change with
  | ended => exact (sameHead_foldl sameHead_endSession _ _).epoch
  | published batch evidence directories => exact (sameHead_published _ batch directories).epoch
  | _ => rfl

theorem instanceId (change : Change g call root) : root.instanceId = g.current.instanceId := by
  cases change with
  | ended => exact (sameHead_foldl sameHead_endSession _ _).instanceId
  | published batch evidence directories => exact (sameHead_published _ batch directories).instanceId
  | _ => rfl

theorem capability (change : Change g call root) : root.capability = g.current.capability := by
  cases change with
  | ended => exact (sameHead_foldl sameHead_endSession _ _).capability
  | published batch evidence directories => exact (sameHead_published _ batch directories).capability
  | _ => rfl

theorem commitSlot (change : Change g call root) {slot : FrozenBatch} (found : root.commitSlot = some slot) :
    g.current.commitSlot = some slot ∨
      ∃ snapshotOpen, call = .freeze snapshotOpen ∧ slot = g.current.batch g.nextBatch snapshotOpen := by
  cases change with
  | ended =>
    rw [(sameHead_foldl sameHead_endSession _ _).commitSlot] at found
    exact .inl found
  | published => cases found
  | frozen snapshotOpen => exact .inr ⟨snapshotOpen, rfl, (Option.some.inj found).symm⟩
  | _ => exact .inl found

end Change

/-- A volume together with the batches its freezes have handed out: each one passed through the commit slot. -/
structure World where
  state : Inner
  issued : List FrozenBatch

namespace World

def new (instanceId : InstanceId) (committed : DirNode) (generation baselineFree : UInt64) (writable : Bool) : World :=
  { state := .new instanceId committed generation baselineFree writable, issued := [] }

def step (w : World) (call : Call) : World :=
  { state := call.run w.state, issued := (call.run w.state).current.commitSlot.toList ++ w.issued }

/-- A batch is published by who froze it, or on another instance of the volume. -/
def Permits (w : World) : Call → Prop
  | .publish batch _ _ => batch ∈ w.issued ∨ batch.instanceId ≠ w.state.current.instanceId
  | _ => True

instance (w : World) (call : Call) : Decidable (w.Permits call) :=
  match call with
  | .publish batch _ _ => inferInstanceAs (Decidable (batch ∈ w.issued ∨ batch.instanceId ≠ w.state.current.instanceId))
  | .openSession .. | .renew .. | .tick .. | .cancel .. | .admitWrite .. | .admitRemoval .. | .ingest .. | .stageReference ..
  | .complete .. | .waitFor .. | .calibrate .. | .freeze .. | .poison | .failNextPublish | .reclaim .. => .isTrue trivial

/-- The worlds that runs of permitted calls reach from a new volume when each call meets the condition. -/
def Reached (condition : World → Call → Prop) (w : World) : Prop :=
  ∃ instanceId committed generation baselineFree writable,
    Run.Reaches step (fun w call => w.Permits call ∧ condition w call)
      (new instanceId committed generation baselineFree writable) w

/-- The books a run keeps on batches, and the poison root it keeps ready. -/
structure Filed (w : World) : Prop where
  ready : w.state.Ready
  below : ∀ batch ∈ w.issued, batch.batchId < w.state.nextBatch
  distinct : ∀ left ∈ w.issued, ∀ right ∈ w.issued, left.batchId = right.batchId → left = right
  home : ∀ batch ∈ w.issued, batch.instanceId = w.state.current.instanceId
  slot : ∀ slot, w.state.current.commitSlot = some slot → slot ∈ w.issued

variable {w : World} {call : Call}

theorem filed_new (instanceId : InstanceId) (committed : DirNode) (generation baselineFree : UInt64) (writable : Bool) :
    (new instanceId committed generation baselineFree writable).Filed where
  ready := .inl rfl
  below := by simp [new]
  distinct := by simp [new]
  home := by simp [new]
  slot := by simp [new, Inner.new]

/-- A call leaves the root as it is apart from its epoch and capability, or installs one of the changed roots. -/
theorem Filed.current_step {P : VolumeRoot → Prop} (filed : w.Filed) (call : Call)
    (stays : ∀ epoch capability, P { w.state.current with epoch, capability })
    (changes : ∀ root, Change w.state call root → P root) : P (w.step call).state.current := by
  show P (call.run w.state).current
  cases Moved.run w.state call with
  | quiet current =>
    rw [current]
    exact stays _ _
  | poisoned current =>
    obtain ⟨epoch, capability, same⟩ := filed.ready.poison
    rw [current, same]
    exact stays epoch capability
  | installed root change current =>
    rw [current]
    exact changes root change

theorem Filed.step (filed : w.Filed) (call : Call) : (w.step call).Filed := by
  have moved := Moved.run w.state call
  have slots : ∀ batch ∈ (w.step call).issued, batch ∈ w.issued ∨
      ∃ snapshotOpen, call = .freeze snapshotOpen ∧
        batch = w.state.current.batch w.state.nextBatch snapshotOpen ∧
        (w.step call).state.nextBatch = w.state.nextBatch + 1 := by
    intro batch member
    simp only [World.step, List.mem_append, Option.mem_toList] at member
    rcases member with placed | listed
    · cases moved with
      | quiet current =>
        rw [current] at placed
        exact .inl (filed.slot batch placed)
      | poisoned current =>
        obtain ⟨epoch, capability, same⟩ := filed.ready.poison
        rw [current, same] at placed
        exact .inl (filed.slot batch placed)
      | installed root change current _ _ _ batches =>
        rw [current] at placed
        rcases change.commitSlot placed with kept | ⟨snapshotOpen, rfl, rfl⟩
        · exact .inl (filed.slot batch kept)
        · exact .inr ⟨snapshotOpen, rfl, rfl, batches⟩
    · exact .inl listed
  have later : w.state.nextBatch ≤ (w.step call).state.nextBatch := by
    show w.state.nextBatch ≤ (call.run w.state).nextBatch
    cases moved with
    | quiet _ _ _ _ batches | poisoned _ _ _ _ batches => exact Nat.le_of_eq batches.symm
    | installed _ _ _ _ _ _ batches =>
      rw [batches]
      exact Nat.le_add_right _ _
  have here : (w.step call).state.current.instanceId = w.state.current.instanceId := by
    show (call.run w.state).current.instanceId = _
    cases moved with
    | quiet current => rw [current]
    | poisoned current =>
      obtain ⟨epoch, capability, same⟩ := filed.ready.poison
      rw [current, same]
    | installed root change current =>
      rw [current]
      exact change.instanceId
  constructor
  · show (call.run w.state).Ready
    cases moved with
    | quiet current poison =>
      unfold Inner.Ready
      rw [current, poison]
      exact filed.ready
    | poisoned current poison => exact .inr (poison.trans current.symm)
    | installed root _ current poison => exact .inl (by rw [poison, current])
  · intro batch member
    rcases slots batch member with old | ⟨snapshotOpen, -, rfl, batches⟩
    · exact Nat.lt_of_lt_of_le (filed.below batch old) later
    · rw [batches]
      exact Nat.lt_succ_self _
  · intro left leftMember right rightMember same
    rcases slots left leftMember with oldLeft | ⟨leftOpen, leftCall, newLeft, _⟩ <;>
      rcases slots right rightMember with oldRight | ⟨rightOpen, rightCall, newRight, _⟩
    · exact filed.distinct left oldLeft right oldRight same
    · have low := filed.below left oldLeft
      rw [same, newRight] at low
      exact absurd low (Nat.lt_irrefl _)
    · have low := filed.below right oldRight
      rw [← same, newLeft] at low
      exact absurd low (Nat.lt_irrefl _)
    · obtain rfl := Call.freeze.inj (leftCall.symm.trans rightCall)
      exact newLeft.trans newRight.symm
  · intro batch member
    rw [here]
    rcases slots batch member with old | ⟨snapshotOpen, -, rfl, _⟩
    · exact filed.home batch old
    · rfl
  · intro slot placed
    simp only [World.step, List.mem_append, Option.mem_toList]
    exact .inl placed

theorem Filed.slot_eq (filed : w.Filed) {batch slot : FrozenBatch} {evidence : S4Evidence} {directories : List Path}
    (permitted : w.Permits (.publish batch evidence directories)) (home : w.state.current.instanceId = batch.instanceId)
    (found : w.state.current.commitSlot = some slot) (same : slot.batchId = batch.batchId) : slot = batch := by
  rcases permitted with issued | elsewhere
  · exact filed.distinct slot (filed.slot slot found) batch issued same
  · exact absurd home.symm elsewhere

theorem Reached.invariant {condition : World → Call → Prop} {P : World → Prop} (reached : Reached condition w)
    (start : ∀ instanceId committed generation baselineFree writable,
      P (new instanceId committed generation baselineFree writable))
    (keeps : ∀ w call, w.Filed → P w → w.Permits call → condition w call → P (w.step call)) : w.Filed ∧ P w := by
  obtain ⟨instanceId, committed, generation, baselineFree, writable, run⟩ := reached
  refine Run.Reaches.invariant (P := fun w => w.Filed ∧ P w) run ?_
    ⟨filed_new instanceId committed generation baselineFree writable,
      start instanceId committed generation baselineFree writable⟩
  rintro state call ⟨filed, holds⟩ ⟨permitted, meets⟩
  exact ⟨filed.step call, keeps state call filed holds permitted meets⟩

end World

end TapeRs.Core
