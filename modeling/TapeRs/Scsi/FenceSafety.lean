import TapeRs.Data.Run
import TapeRs.Scsi.Reservation

namespace TapeRs.Scsi

open Device ReservationKey Phase SortedMap Function Option

namespace Device

variable {d after : Device} {nexus : Nat} {key named : UInt64} {kind : UInt8}

theorem readReservation_some {k : UInt64} (read : d.readReservation = some (k, kind)) :
    ∃ n, d.holder = some (n, kind) ∧ d.registered.get n = some k ∧ d.holderKey = some k := by
  obtain ⟨⟨n, kind'⟩, held, got⟩ := bind_eq_some_iff.mp read
  obtain ⟨found, registered, same⟩ := map_eq_some_iff.mp got
  cases same
  exact ⟨n, held, registered, by rw [holderKey, held]; exact registered⟩

theorem holderKey_some {k : UInt64} (holds : d.holderKey = some k) :
    ∃ n kind, d.holder = some (n, kind) ∧ d.registered.get n = some k := by
  obtain ⟨⟨n, kind'⟩, held, registered⟩ := bind_eq_some_iff.mp holds
  exact ⟨n, kind', held, registered⟩

theorem get_register (filled : key ≠ 0) (n : Nat) :
    (d.registerIgnore nexus key).registered.get n = if n = nexus then some key else d.registered.get n := by
  rw [registerIgnore, if_neg filled]
  exact get_insert ..

theorem holder_register (filled : key ≠ 0) : (d.registerIgnore nexus key).holder = d.holder := by
  rw [registerIgnore, if_neg filled]

theorem get_unregister (n : Nat) :
    (d.registerIgnore nexus 0).registered.get n = if n = nexus then none else d.registered.get n := by
  rw [registerIgnore, if_pos rfl]
  exact get_erase ..

theorem holder_unregister : (d.registerIgnore nexus 0).holder = d.holder.filter fun owner => owner.1 ≠ nexus := by
  rw [registerIgnore, if_pos rfl]

theorem preempt_some (took : d.preempt nexus key kind named = some after) :
    d.registered.get nexus = some key ∧ (∃ n, d.registered.get n = some named) ∧
    (∀ n, after.registered.get n = (d.registered.get n).filter fun k => k ≠ named || n = nexus) ∧
    ((d.holderKey = some named ∧ after.holder = some (nexus, kind)) ∨
      (d.holderKey ≠ some named ∧ after.holder = d.holder)) := by
  unfold preempt at took
  split at took
  · rename_i registered
    obtain ⟨own, some'⟩ := registered
    obtain ⟨⟨n, k⟩, member, same⟩ := List.any_eq_true.mp some'
    have there : d.registered.get n = some named := by
      rw [← of_decide_eq_true same]
      exact mem_entries.mp member
    dsimp only at took
    split at took
    · rename_i holds
      cases took
      exact ⟨own, ⟨n, there⟩, fun n => get_filter .., .inl ⟨holds, rfl⟩⟩
    · rename_i other
      cases took
      exact ⟨own, ⟨n, there⟩, fun n => get_filter .., .inr ⟨other, rfl⟩⟩
  · cases took

theorem reserve_some (took : d.reserve nexus key kind = some after) :
    d.registered.get nexus = some key ∧ after.registered = d.registered ∧ after.holder = some (nexus, kind) ∧
      (d.holder = none ∨ d.holder = some (nexus, kind)) := by
  unfold reserve at took
  split at took
  · rename_i registered
    split at took
    · rename_i free
      cases took
      exact ⟨registered, rfl, rfl, .inl free⟩
    rename_i owner held
    split at took
    · rename_i same
      cases took
      exact ⟨registered, rfl, same ▸ held, .inr (same ▸ held)⟩
    · cases took
  · cases took

theorem release_some (took : d.release nexus key kind = some after) :
    d.registered.get nexus = some key ∧ after.registered = d.registered ∧
      (after.holder = d.holder ∨ d.holder = some (nexus, kind)) := by
  unfold release at took
  split at took
  · rename_i registered
    split at took
    · cases took
      exact ⟨registered, rfl, .inl rfl⟩
    rename_i owner held
    split at took
    · cases took
      exact ⟨registered, rfl, .inl rfl⟩
    rename_i own
    split at took
    · rename_i same
      cases took
      refine ⟨registered, rfl, .inr ?_⟩
      rw [held, ← same, ← not_not.mp own]
    · cases took
  · cases took

def HeldBy (d : Device) (P : UInt64 → Prop) : Prop :=
  ∃ k : ReservationKey, d.holderKey = some k.value ∧ k.isOurs ∧ P k.round

end Device

theorem newerRoundHolder_some {status : PrStatus} {key newer : ReservationKey}
    (found : newerRoundHolder status key = some newer) :
    (∃ kind, status.holder = some (newer.value, kind)) ∧ newer.isOurs ∧ key.round < newer.round := by
  obtain ⟨mapped, newest⟩ := filter_eq_some_iff.mp found
  obtain ⟨⟨k, kind⟩, held, rfl⟩ := map_eq_some_iff.mp mapped
  simp only [Bool.and_eq_true, decide_eq_true_eq] at newest
  exact ⟨⟨kind, held⟩, newest⟩

theorem newerRoundHolder_none {status : PrStatus} {key : ReservationKey} (none' : newerRoundHolder status key = none)
    {k : UInt64} {kind : UInt8} (held : status.holder = some (k, kind)) :
    ¬((mk k).isOurs ∧ key.round < (mk k).round) := by
  unfold newerRoundHolder at none'
  rw [held, map_some, filter_eq_none_iff] at none'
  have old := none' _ rfl
  simpa using old

namespace Phase

def free : Phase → Bool
  | withdraw _ | preempt .. | release .. | clean .. => false
  | _ => true

end Phase

namespace Fleet

variable {ι : Type} {f : Fleet ι}
  {call : ι} {d after : Device} {s : Scene ι} {phase next : Phase} {k : UInt64} {before : PrStatus}
  {outcome : Option FenceOutcome}

theorem key_round (f : Fleet ι) (call : ι) : (f.key call).round = f.round call :=
  round_new _ (f.small call)

theorem key_ours (f : Fleet ι) (call : ι) : (f.key call).isOurs := isOurs_new ..

theorem key_inj {other : ι} (same : (f.key call).value = (f.key other).value) : call = other := by
  apply f.distinct
  rw [← key_round, ← key_round, ReservationKey.round, ReservationKey.round, same]

theorem key_filled (f : Fleet ι) (call : ι) : (f.key call).value ≠ 0 := by
  intro zero
  have ours := f.key_ours call
  rw [isOurs, zero] at ours
  cases ours

/-- A registration, or its withdrawal, does not touch the key of a newer round. -/
def inOrder (f : Fleet ι) (s : Scene ι) : Event ι → Bool
  | .command call => !(s.phase call).registers || (s.device.registered.get (f.nexus call)).all fun k =>
      !((ReservationKey.mk k).isOurs && f.round call < (ReservationKey.mk k).round)
  | _ => true

/-- What a command that keeps the order can do. -/
inductive Does (f : Fleet ι) (d : Device) (call : ι) : Phase → Phase → Device → Prop
  | look {phase next : Phase} (free : next.free) (kept : phase.hasRegistered → next.hasRegistered) :
      Does f d call phase next d
  | register {before : PrStatus} (turn : ∀ k, d.registered.get (f.nexus call) = some k →
        ¬((ReservationKey.mk k).isOurs ∧ f.round call < (ReservationKey.mk k).round)) :
      Does f d call (.register before) (.midKeys before) (d.registerIgnore (f.nexus call) (f.key call).value)
  | give {before : PrStatus} {generation : UInt32} {keys : List UInt64} {newer : ReservationKey}
      (held : d.HeldBy fun round => f.round call < round) :
      Does f d call (.midHolder before generation keys) (.withdraw newer) d
  | take {before mid : PrStatus} {generation : UInt32} {keys : List UInt64} (read : mid.holder = d.readReservation)
      (latest : newerRoundHolder mid (f.key call) = none) :
      Does f d call (.midHolder before generation keys) (.acquiring (f.key call) before mid) d
  | withdraw {newer : ReservationKey} {outcome : Option FenceOutcome}
      (turn : ∀ k, d.registered.get (f.nexus call) = some k →
        ¬((ReservationKey.mk k).isOurs ∧ f.round call < (ReservationKey.mk k).round)) :
      Does f d call (.withdraw newer) (.done outcome) (d.registerIgnore (f.nexus call) 0)
  | preempt {before mid : PrStatus} {holder : UInt64} {after : Device}
      (took : d.preempt (f.nexus call) (f.key call).value exclusiveAccess holder = some after) :
      Does f d call (.preempt before mid holder) (.cleaning before (Phase.staleKeys (f.key call) mid)) after
  | release {before mid : PrStatus} {kind : UInt8} {after : Device} :
      Does f d call (.release before mid kind) (.reserve before mid) after
  | reserve {before mid : PrStatus} {after : Device}
      (took : d.reserve (f.nexus call) (f.key call).value exclusiveAccess = some after) :
      Does f d call (.reserve before mid) (.cleaning before (Phase.staleKeys (f.key call) mid)) after
  | clean {before : PrStatus} {stale : UInt64} {rest : List UInt64} {after : Device}
      (took : d.preempt (f.nexus call) (f.key call).value exclusiveAccess stale = some after) :
      Does f d call (.clean before (stale :: rest)) (.cleaning before rest) after

theorem fenceStep_does (f : Fleet ι) (s : Scene ι) (call : ι) (allowed : f.inOrder s (.command call)) :
    Does f s.device call (s.phase call) (fenceStep f.listed (f.nexus call) (f.key call) (s.phase call) s.device).1
      (fenceStep f.listed (f.nexus call) (f.key call) (s.phase call) s.device).2 := by
  have turn : (s.phase call).registers → ∀ k, s.device.registered.get (f.nexus call) = some k →
      ¬((ReservationKey.mk k).isOurs ∧ f.round call < (ReservationKey.mk k).round) := by
    intro registers k there
    rintro ⟨ours, later⟩
    rw [inOrder, registers, there] at allowed
    simp [ours, later] at allowed
  generalize s.phase call = phase at turn
  cases phase with
  | readKeys => exact .look rfl nofun
  | readHolder generation keys =>
    simp only [fenceStep]
    split
    · exact .look rfl nofun
    · exact .look rfl nofun
  | register before => exact .register (turn rfl)
  | midKeys | afterKeys | afterHolder | done => exact .look rfl fun _ => rfl
  | midHolder before generation keys =>
    simp only [fenceStep]
    split
    · rename_i newer found
      obtain ⟨⟨kind, held⟩, ours, later⟩ := newerRoundHolder_some found
      obtain ⟨_, _, _, holds⟩ := readReservation_some held
      exact .give ⟨newer, holds, ours, by rw [← f.key_round]; exact later⟩
    · rename_i latest
      exact .take rfl latest
  | withdraw newer => exact .withdraw (turn rfl)
  | preempt before mid holder =>
    simp only [fenceStep]
    split
    · rename_i took
      exact .preempt took
    · exact .look rfl fun _ => rfl
  | release before mid kind =>
    simp only [fenceStep]
    split
    · exact .release
    · exact .look rfl fun _ => rfl
  | reserve before mid =>
    simp only [fenceStep]
    split
    · rename_i took
      exact .reserve took
    · exact .look rfl fun _ => rfl
  | clean before stale =>
    cases stale with
    | nil => exact .look rfl fun _ => rfl
    | cons stale rest =>
      simp only [fenceStep]
      split
      · rename_i took
        exact .clean took
      · exact .look rfl fun _ => rfl

/-- What holds of calls that keep the order: keys are registered once, every reservation is exclusive, and a call that is
    about to change registrations knows the holder. -/
structure Ordered (f : Fleet ι) (s : Scene ι) : Prop where
  single : ∀ n m k, s.device.registered.get n = some k → s.device.registered.get m = some k → n = m
  sent : ∀ n call, s.device.registered.get n = some (f.key call).value → (s.phase call).hasRegistered
  exclusive : ∀ n kind, s.device.holder = some (n, kind) → kind = exclusiveAccess
  release : ∀ call before mid kind, s.phase call ≠ .release before mid kind
  withdraw : ∀ call newer, s.phase call = .withdraw newer → s.device.HeldBy fun round => f.round call < round
  preempt : ∀ call before mid holder, s.phase call = .preempt before mid holder →
    holder ≠ (f.key call).value ∧
    ¬((ReservationKey.mk holder).isOurs ∧ f.round call < (ReservationKey.mk holder).round) ∧
    (∀ other, holder = (f.key other).value → (s.phase other).hasRegistered) ∧
    ∀ n, s.device.registered.get n = some holder → s.device.holderKey = some holder
  clean : ∀ call before stale, s.phase call = .clean before stale →
    (f.key call).value ∉ stale ∧
    (s.device.registered.get (f.nexus call) = some (f.key call).value → s.device.holderKey = some (f.key call).value)

/-- Before the calls begin, no two initiators share a key, no key of the calls is in use, and a reservation is exclusive. -/
structure Fresh (f : Fleet ι) (d : Device) : Prop where
  single : ∀ n m k, d.registered.get n = some k → d.registered.get m = some k → n = m
  unused : ∀ n call, d.registered.get n ≠ some (f.key call).value
  exclusive : ∀ n kind, d.holder = some (n, kind) → kind = exclusiveAccess

theorem Fresh.ordered (fresh : f.Fresh d) : f.Ordered (start d) :=
  ⟨fresh.single, fun n call there => absurd there (fresh.unused n call), fresh.exclusive, nofun, nofun, nofun, nofun⟩

theorem Does.registered (does : Does f d call phase next after)
    (calm : ∀ before mid kind, phase ≠ .release before mid kind) {n : Nat} (there : after.registered.get n = some k) :
    d.registered.get n = some k ∨ n = f.nexus call ∧ k = (f.key call).value ∧ phase.hasRegistered = false ∧
      next.hasRegistered := by
  cases does with
  | look | give | take => exact .inl there
  | register =>
    rw [get_register (f.key_filled call)] at there
    split at there
    · rename_i same
      exact .inr ⟨same, (some.inj there).symm, rfl, rfl⟩
    · exact .inl there
  | withdraw =>
    rw [get_unregister] at there
    split at there
    · cases there
    · exact .inl there
  | preempt took | clean took =>
    obtain ⟨_, _, kept, _⟩ := preempt_some took
    rw [kept] at there
    exact .inl (filter_eq_some_iff.mp there).1
  | release => exact absurd rfl (calm _ _ _)
  | reserve took =>
    obtain ⟨_, same, _, _⟩ := reserve_some took
    rw [same] at there
    exact .inl there

theorem Does.holderKey (does : Does f d call phase next after)
    (calm : ∀ before mid kind, phase ≠ .release before mid kind) (holds : after.holderKey = some k) :
    d.holderKey = some k ∨ k = (f.key call).value := by
  obtain ⟨owner, kind, holder, there⟩ := holderKey_some holds
  have old : d.holder = some (owner, kind) → d.holderKey = some k ∨ k = (f.key call).value := by
    intro before
    rcases does.registered calm there with registered | ⟨_, same, _⟩
    · rw [Device.holderKey, before]
      exact .inl registered
    · exact .inr same
  have own : (owner, kind) = (f.nexus call, exclusiveAccess) → d.registered.get (f.nexus call) = some (f.key call).value →
      k = (f.key call).value := by
    rintro ⟨⟩ registered
    rcases does.registered calm there with before | ⟨_, same, _⟩
    · rw [registered] at before
      exact (some.inj before).symm
    · exact same
  cases does with
  | look | give | take => exact .inl holds
  | register =>
    rw [holder_register (f.key_filled call)] at holder
    exact old holder
  | withdraw =>
    rw [holder_unregister] at holder
    exact old (filter_eq_some_iff.mp holder).1
  | preempt took | clean took =>
    obtain ⟨registered, _, _, ⟨_, now⟩ | ⟨_, same⟩⟩ := preempt_some took
    · exact .inr (own (some.inj (holder.symm.trans now)) registered)
    · exact old (same ▸ holder)
  | release => exact absurd rfl (calm _ _ _)
  | reserve took =>
    obtain ⟨registered, _, now, _⟩ := reserve_some took
    exact .inr (own (some.inj (holder.symm.trans now)) registered)

theorem hasRegistered_cleaning (before : PrStatus) (stale : List UInt64) : (cleaning before stale).hasRegistered := by
  unfold cleaning
  split <;> rfl

theorem hasRegistered_acquiring (key : ReservationKey) (before mid : PrStatus) :
    (acquiring key before mid).hasRegistered := by
  unfold acquiring
  split
  · split
    · rfl
    · split
      · rfl
      · exact hasRegistered_cleaning ..
  · rfl

theorem Does.hasRegistered (does : Does f d call phase next after) (sent : phase.hasRegistered) :
    next.hasRegistered := by
  cases does with
  | look _ kept => exact kept sent
  | register | give | withdraw | release => rfl
  | take => exact hasRegistered_acquiring ..
  | preempt | reserve | clean => exact hasRegistered_cleaning ..

namespace Ordered

variable {s : Scene ι} {call : ι} {next : Phase} {device : Device}

theorem keeps (ordered : f.Ordered s) (does : Does f s.device call (s.phase call) next device) {P : UInt64 → Prop}
    (upward : ∀ round later, P round → round ≤ later → P later) (held : s.device.HeldBy P) : device.HeldBy P := by
  obtain ⟨k, holds, ours, good⟩ := held
  obtain ⟨owner, kind, holder, registered⟩ := holderKey_some holds
  have raised : ¬(k.isOurs ∧ f.round call < k.round) → P (f.key call).round := by
    intro old
    refine upward _ _ good ?_
    rw [key_round]
    exact UInt64.not_lt.mp fun later => old ⟨ours, later⟩
  have preempted : ∀ {named : UInt64} {after : Device},
      s.device.preempt (f.nexus call) (f.key call).value exclusiveAccess named = some after →
      (named = k.value → ¬(k.isOurs ∧ f.round call < k.round)) → after.HeldBy P := by
    intro named after took old
    obtain ⟨own, _, kept, passes | ⟨other, same⟩⟩ := preempt_some took
    · have named' : named = k.value := some.inj (passes.1.symm.trans holds)
      refine ⟨f.key call, ?_, f.key_ours call, raised (old named')⟩
      rw [holderKey, passes.2, bind_some, kept, own]
      simp [filter]
    · refine ⟨k, ?_, ours, good⟩
      have apart : k.value ≠ named := fun same => other (same ▸ holds)
      rw [holderKey, same, holder, bind_some, kept, registered]
      simp [filter, apart]
  generalize at' : s.phase call = phase at does
  cases does with
  | look | give | take => exact ⟨k, holds, ours, good⟩
  | register turn =>
    by_cases here : owner = f.nexus call
    · refine ⟨f.key call, ?_, f.key_ours call, raised (turn _ (here ▸ registered))⟩
      rw [holderKey, holder_register (f.key_filled call), holder, bind_some,
        get_register (f.key_filled call), if_pos here]
    · refine ⟨k, ?_, ours, good⟩
      rw [holderKey, holder_register (f.key_filled call), holder, bind_some,
        get_register (f.key_filled call), if_neg here, registered]
  | withdraw turn =>
    -- The holder is of a newer round than the call, so it is not the initiator of the call.
    obtain ⟨newer, holds', ours', later⟩ := ordered.withdraw call _ at'
    have here : owner ≠ f.nexus call := by
      rintro rfl
      rw [holds'] at holds
      rw [← some.inj holds] at registered
      exact turn _ registered ⟨ours', later⟩
    refine ⟨k, ?_, ours, good⟩
    rw [holderKey, holder_unregister, holder, filter_some, if_pos (decide_eq_true here),
      bind_some, get_unregister, if_neg here, registered]
  | preempt took =>
    obtain ⟨_, old, _⟩ := ordered.preempt call _ _ _ at'
    refine preempted took ?_
    rintro rfl
    exact old
  | release => exact absurd at' (ordered.release call _ _ _)
  | reserve took =>
    obtain ⟨_, same, now, free | own⟩ := reserve_some took
    · rw [free] at holder
      cases holder
    · refine ⟨k, ?_, ours, good⟩
      rw [holderKey, now, ← own, same]
      exact holds
  | clean took =>
    obtain ⟨apart, mine⟩ := ordered.clean call _ _ at'
    obtain ⟨own, _⟩ := preempt_some took
    refine preempted took ?_
    rintro rfl
    have self : k.value = (f.key call).value := some.inj (holds.symm.trans (mine own))
    exact absurd (self ▸ List.mem_cons_self ..) apart

theorem follows (ordered : f.Ordered s) (does : Does f s.device call (s.phase call) next device) {n : Nat}
    (holds : s.device.holderKey = some k) (there : device.registered.get n = some k)
    (known : k = (f.key call).value → (s.phase call).hasRegistered) : device.holderKey = some k := by
  obtain ⟨owner, kind, holder, registered⟩ := holderKey_some holds
  have preempted : ∀ {named : UInt64} {after : Device},
      s.device.preempt (f.nexus call) (f.key call).value exclusiveAccess named = some after →
      after.registered.get n = some k → after.holderKey = some k := by
    intro named after took there
    obtain ⟨own, _, kept, passes | ⟨other, same⟩⟩ := preempt_some took
    · have named' : named = k := some.inj (passes.1.symm.trans holds)
      rw [kept] at there
      obtain ⟨old, still⟩ := filter_eq_some_iff.mp there
      simp only [named', ne_eq, not_true_eq_false, decide_false, Bool.false_or, decide_eq_true_eq] at still
      rw [still] at old
      rw [holderKey, passes.2, bind_some, kept, old]
      simp [filter]
    · have apart : k ≠ named := fun same => other (same ▸ holds)
      rw [holderKey, same, holder, bind_some, kept, registered]
      simp [filter, apart]
  generalize at' : s.phase call = phase at does known
  cases does with
  | look | give | take => exact holds
  | register =>
    have here : owner ≠ f.nexus call := by
      rintro rfl
      rw [get_register (f.key_filled call)] at there
      split at there
      · cases known (some.inj there).symm
      · rename_i apart
        exact apart (ordered.single _ _ _ there registered)
    rw [holderKey, holder_register (f.key_filled call), holder, bind_some,
      get_register (f.key_filled call), if_neg here, registered]
  | withdraw =>
    have here : owner ≠ f.nexus call := by
      rintro rfl
      rw [get_unregister] at there
      split at there
      · cases there
      · rename_i apart
        exact apart (ordered.single _ _ _ there registered)
    rw [holderKey, holder_unregister, holder, filter_some, if_pos (decide_eq_true here),
      bind_some, get_unregister, if_neg here, registered]
  | preempt took | clean took => exact preempted took there
  | release => exact absurd at' (ordered.release call _ _ _)
  | reserve took =>
    obtain ⟨_, same, now, free | own⟩ := reserve_some took
    · rw [free] at holder
      cases holder
    · rw [holderKey, now, ← own, same]
      exact holds

theorem held (ordered : f.Ordered s) (does : Does f s.device call (s.phase call) next device) {n : Nat} {kind : UInt8}
    (holder : device.holder = some (n, kind)) : kind = exclusiveAccess := by
  generalize at' : s.phase call = phase at does
  cases does with
  | look | give | take => exact ordered.exclusive n kind holder
  | register =>
    rw [holder_register (f.key_filled call)] at holder
    exact ordered.exclusive n kind holder
  | withdraw =>
    rw [holder_unregister] at holder
    exact ordered.exclusive n kind (filter_eq_some_iff.mp holder).1
  | preempt took | clean took =>
    obtain ⟨_, _, _, ⟨_, now⟩ | ⟨_, same⟩⟩ := preempt_some took
    · rw [now] at holder
      cases holder
      rfl
    · exact ordered.exclusive n kind (same ▸ holder)
  | release => exact absurd at' (ordered.release call _ _ _)
  | reserve took =>
    obtain ⟨_, _, now, _⟩ := reserve_some took
    rw [now] at holder
    cases holder
    rfl

theorem cleaning_clean {before' : PrStatus} {stale stale' : List UInt64}
    (same : cleaning before stale = .clean before' stale') : stale' = stale := by
  unfold cleaning at same
  split at same
  · cases same
  · cases same
    rfl

theorem key_not_stale (key : ReservationKey) (mid : PrStatus) : key.value ∉ staleKeys key mid := by
  intro member
  have kept := (List.destutter_sublist _ _).subset member
  simp at kept

theorem acquiring_cases (key : ReservationKey) (before : PrStatus) {mid : PrStatus}
    (exclusive : ∀ holder kind, mid.holder = some (holder, kind) → kind = exclusiveAccess) :
    (∃ holder, (∃ kind, mid.holder = some (holder, kind)) ∧ holder ≠ key.value ∧
      acquiring key before mid = .preempt before mid holder) ∨
    (∃ kind, mid.holder = some (key.value, kind)) ∧
      acquiring key before mid = .cleaning before (staleKeys key mid) ∨
    acquiring key before mid = .reserve before mid := by
  unfold acquiring
  split
  · rename_i holder kind held
    split
    · rename_i other
      exact .inl ⟨holder, ⟨kind, held⟩, other, rfl⟩
    · rename_i own
      rw [if_neg (not_not.mpr (exclusive _ _ held))]
      exact .inr (.inl ⟨⟨kind, not_not.mp own ▸ held⟩, rfl⟩)
  · exact .inr (.inr rfl)

theorem cleaning_free (before : PrStatus) (stale : List UInt64) :
    (∀ newer, cleaning before stale ≠ .withdraw newer) ∧
    (∀ b m h, cleaning before stale ≠ .preempt b m h) ∧
    ∀ b m k, cleaning before stale ≠ .release b m k := by
  unfold cleaning
  split
  · exact ⟨nofun, nofun, nofun⟩
  · exact ⟨nofun, nofun, nofun⟩

/-- What the next phase of a call has to know of the device. -/
structure Next (f : Fleet ι) (s : Scene ι) (call : ι) (next : Phase) (device : Device) : Prop where
  release : ∀ before mid kind, next ≠ .release before mid kind
  withdraw : ∀ newer, next = .withdraw newer → device.HeldBy fun round => f.round call < round
  preempt : ∀ before mid holder, next = .preempt before mid holder → holder ≠ (f.key call).value ∧
    ¬((ReservationKey.mk holder).isOurs ∧ f.round call < (ReservationKey.mk holder).round) ∧
    (∀ other, holder = (f.key other).value → (s.phase other).hasRegistered) ∧ device.holderKey = some holder
  clean : ∀ before stale, next = .clean before stale → (f.key call).value ∉ stale ∧
    (device.registered.get (f.nexus call) = some (f.key call).value → device.holderKey = some (f.key call).value)

theorem Next.of_free (free : phase.free) (device : Device) : Next f s call phase device := by
  refine ⟨?_, ?_, ?_, ?_⟩
  · rintro _ _ _ rfl
    cases free
  · rintro _ rfl
    cases free
  · rintro _ _ _ rfl
    cases free
  · rintro _ _ rfl
    cases free

theorem Next.of_cleaning {stale : List UInt64} (apart : (f.key call).value ∉ stale)
    (mine : device.registered.get (f.nexus call) = some (f.key call).value →
      device.holderKey = some (f.key call).value) : Next f s call (.cleaning before stale) device := by
  obtain ⟨withdraw, preempt, release⟩ := cleaning_free before stale
  refine ⟨release, fun newer same => absurd same (withdraw newer), fun b m h same => absurd same (preempt b m h), ?_⟩
  intro b stale' same
  rw [cleaning_clean same]
  exact ⟨apart, mine⟩

theorem goes_on (ordered : f.Ordered s) (does : Does f s.device call (s.phase call) next device) :
    Next f s call next device := by
  have whole := does
  generalize at' : s.phase call = phase at does
  cases does with
  | look free => exact .of_free free _
  | register | withdraw => exact .of_free rfl _
  | give held =>
    refine ⟨nofun, fun _ _ => held, nofun, nofun⟩
  | @take before mid generation keys read latest =>
    have exclusive : ∀ holder kind, mid.holder = some (holder, kind) → kind = exclusiveAccess := by
      intro holder kind held
      rw [read] at held
      obtain ⟨n, there, _, _⟩ := readReservation_some held
      exact ordered.exclusive n kind there
    rcases acquiring_cases (f.key call) before exclusive with
      ⟨holder, ⟨kind, held⟩, other, same⟩ | ⟨⟨kind, held⟩, same⟩ | same
    · have old := newerRoundHolder_none latest held
      rw [read] at held
      obtain ⟨n, _, registered, holds⟩ := readReservation_some held
      rw [same]
      refine ⟨nofun, nofun, ?_, nofun⟩
      rintro _ _ _ ⟨⟩
      refine ⟨other, by rw [← f.key_round]; exact old, ?_, holds⟩
      rintro another rfl
      exact ordered.sent n another registered
    · rw [read] at held
      obtain ⟨_, _, _, holds⟩ := readReservation_some held
      rw [same]
      exact .of_cleaning (key_not_stale _ _) fun _ => holds
    · rw [same]
      exact .of_free rfl _
  | preempt took =>
    obtain ⟨_, _, _, holds⟩ := ordered.preempt call _ _ _ at'
    obtain ⟨own, ⟨n, there⟩, kept, passes | ⟨other, _⟩⟩ := preempt_some took
    · refine .of_cleaning (key_not_stale _ _) fun now => ?_
      rw [holderKey, passes.2]
      exact now
    · exact absurd (holds n there) other
  | release => exact absurd at' (ordered.release call _ _ _)
  | reserve took =>
    obtain ⟨_, _, now, _⟩ := reserve_some took
    refine .of_cleaning (key_not_stale _ _) fun registered => ?_
    rw [holderKey, now]
    exact registered
  | clean took =>
    obtain ⟨apart, mine⟩ := ordered.clean call _ _ at'
    obtain ⟨own, _⟩ := preempt_some took
    refine .of_cleaning (fun member => apart (List.mem_cons_of_mem _ member)) fun there => ?_
    exact ordered.follows whole (mine own) there fun _ => by rw [at']; rfl

end Ordered

variable [DecidableEq ι]

theorem step_does (f : Fleet ι) (s : Scene ι) (event : Event ι) (allowed : f.inOrder s event) :
    f.step s event = s ∨ ∃ call next device, Does f s.device call (s.phase call) next device ∧
      f.step s event = { device, phase := update s.phase call next } := by
  cases event with
  | command call => exact .inr ⟨call, _, _, f.fenceStep_does s call allowed, rfl⟩
  | fail call =>
    simp only [step]
    split
    · exact .inl rfl
    · exact .inr ⟨call, _, _, .look rfl fun _ => rfl, rfl⟩
  | unsupported call =>
    simp only [step]
    split
    · exact .inr ⟨call, _, _, .look rfl fun _ => rfl, rfl⟩
    · exact .inr ⟨call, _, _, .look rfl fun _ => rfl, rfl⟩
    · exact .inl rfl

theorem Ordered.step {device : Device} (ordered : f.Ordered s) (does : Does f s.device call (s.phase call) next device)
    :
    f.Ordered { device, phase := update s.phase call next } := by
  have news := ordered.goes_on does
  have registered := fun {n k} => does.registered (f := f) (n := n) (k := k) (ordered.release call)
  have sent : ∀ other, (s.phase other).hasRegistered → (update s.phase call next other).hasRegistered := by
    intro other before
    by_cases here : other = call
    · subst here
      rw [update_self]
      exact does.hasRegistered before
    · rw [update_of_ne here]
      exact before
  refine ⟨?_, ?_, fun n kind => ordered.held does, ?_, ?_, ?_, ?_⟩
  · intro n m k there there'
    rcases registered there with old | ⟨rfl, rfl, new, _⟩ <;> rcases registered there' with old' | ⟨rfl, same, new', _⟩
    · exact ordered.single n m k old old'
    · rw [same] at old
      rw [ordered.sent n call old] at new'
      cases new'
    · rw [ordered.sent m call old'] at new
      cases new
    · rfl
  · intro n other there
    rcases registered there with old | ⟨_, same, _, now⟩
    · exact sent other (ordered.sent n other old)
    rw [key_inj same]
    dsimp only
    rw [update_self]
    exact now
  · intro other before mid kind
    by_cases here : other = call
    · subst here
      dsimp only
      rw [update_self]
      exact news.release before mid kind
    · dsimp only
      rw [update_of_ne here]
      exact ordered.release other before mid kind
  · intro other newer at'
    by_cases here : other = call
    · subst here
      dsimp only at at'
      rw [update_self] at at'
      exact news.withdraw newer at'
    · dsimp only at at'
      rw [update_of_ne here] at at'
      refine ordered.keeps does ?_ (ordered.withdraw other newer at')
      intro round later below above
      exact UInt64.lt_of_lt_of_le below above
  · intro other before mid holder at'
    by_cases here : other = call
    · subst here
      dsimp only at at'
      rw [update_self] at at'
      obtain ⟨apart, old, known, holds⟩ := news.preempt before mid holder at'
      exact ⟨apart, old, fun another same => sent another (known another same), fun _ _ => holds⟩
    · dsimp only at at'
      rw [update_of_ne here] at at'
      obtain ⟨apart, old, known, holds⟩ := ordered.preempt other before mid holder at'
      refine ⟨apart, old, fun another same => sent another (known another same), fun n there => ?_⟩
      rcases registered there with before | ⟨_, same, new, _⟩
      · exact ordered.follows does (holds n before) there (known call)
      · rw [known call same] at new
        cases new
  · intro other before stale at'
    by_cases here : other = call
    · subst here
      dsimp only at at'
      rw [update_self] at at'
      exact news.clean before stale at'
    · dsimp only at at'
      rw [update_of_ne here] at at'
      obtain ⟨apart, mine⟩ := ordered.clean other before stale at'
      refine ⟨apart, fun there => ?_⟩
      rcases registered there with before | ⟨_, same, _, _⟩
      · exact ordered.follows does (mine before) there fun same => absurd (key_inj same) here
      · exact absurd (key_inj same) here

abbrev Reaches (f : Fleet ι) : Scene ι → Scene ι → Prop := Run.Reaches f.step fun s event => f.inOrder s event

theorem Ordered.run {t : Scene ι} (ordered : f.Ordered s) (run : f.Reaches s t) : f.Ordered t := by
  refine run.invariant ?_ ordered
  intro s event ordered allowed
  rcases f.step_does s event allowed with same | ⟨call, next, device, does, stepped⟩
  · rw [same]
    exact ordered
  · rw [stepped]
    exact ordered.step does

theorem Ordered.heldBy {t : Scene ι} (ordered : f.Ordered s) (run : f.Reaches s t) {P : UInt64 → Prop}
    (upward : ∀ round later, P round → round ≤ later → P later) (held : s.device.HeldBy P) : t.device.HeldBy P := by
  have both : f.Ordered t ∧ t.device.HeldBy P := by
    refine run.invariant (P := fun s => f.Ordered s ∧ s.device.HeldBy P) ?_ ⟨ordered, held⟩
    rintro s event ⟨ordered, held⟩ allowed
    rcases f.step_does s event allowed with same | ⟨call, next, device, does, stepped⟩
    · rw [same]
      exact ⟨ordered, held⟩
    · rw [stepped]
      exact ⟨ordered.step does, ordered.keeps does upward held⟩
  exact both.2

theorem cleaning_ne_done {stale : List UInt64} : cleaning before stale ≠ .done outcome := by
  unfold cleaning
  split
  · nofun
  · nofun

theorem acquiring_ne_done {key : ReservationKey} {mid : PrStatus} : acquiring key before mid ≠ .done outcome := by
  unfold acquiring
  split
  · split
    · nofun
    · split
      · nofun
      · exact cleaning_ne_done
  · nofun

def quiet (call : ι) (s : Scene ι) : Event ι → Bool
  | .command other => other = call || !(s.phase other).rewrites
  | _ => true

theorem fenceStep_reservation (calm : phase.rewrites = false) (listed : List UInt64 → List UInt64) (nexus : Nat)
    {key : ReservationKey} {kind : UInt8} (other : k ≠ key.value) (read : d.readReservation = some (k, kind)) :
    (fenceStep listed nexus key phase d).2.readReservation = some (k, kind) := by
  obtain ⟨owner, holder, registered, _⟩ := readReservation_some read
  have apart : d.registered.get nexus = some key.value → ∀ kind', d.holder ≠ some (nexus, kind') := by
    intro own kind' held
    rw [holder] at held
    cases held
    rw [registered] at own
    exact other (some.inj own)
  cases phase with
  | register | withdraw | preempt | clean => cases calm
  | release before mid released =>
    simp only [fenceStep]
    split
    · rename_i took
      obtain ⟨own, same, held | mine⟩ := release_some took
      · rw [readReservation, held, same]
        exact read
      · exact absurd mine (apart own _)
    · exact read
  | reserve before mid =>
    simp only [fenceStep]
    split
    · rename_i took
      obtain ⟨own, _, _, free | mine⟩ := reserve_some took
      · rw [free] at holder
        cases holder
      · exact absurd mine (apart own _)
    · exact read
  | readHolder | midHolder =>
    simp only [fenceStep]
    split <;> exact read
  | readKeys | midKeys | afterKeys | afterHolder | done => exact read

theorem quiet_reservation {kind : UInt8} (ended : s.phase call = .done outcome)
    (read : s.device.readReservation = some ((f.key call).value, kind)) {event : Event ι} (allowed : quiet call s event)
    :
    (f.step s event).phase call = .done outcome ∧
      (f.step s event).device.readReservation = some ((f.key call).value, kind) := by
  cases event with
  | command other =>
    by_cases here : other = call
    · subst here
      simp only [step, ended, fenceStep, update_self]
      exact ⟨trivial, read⟩
    · simp only [quiet, here, decide_false, Bool.false_or, Bool.not_eq_true'] at allowed
      refine ⟨(update_of_ne (Ne.symm here) ..).trans ended, ?_⟩
      exact fenceStep_reservation allowed f.listed _ (fun same => here (key_inj same).symm) read
  | fail other =>
    simp only [step]
    split
    · exact ⟨ended, read⟩
    rename_i running
    refine ⟨(update_of_ne ?_ ..).trans ended, read⟩
    rintro rfl
    exact running _ ended
  | unsupported other =>
    simp only [step]
    split
    · rename_i running
      refine ⟨(update_of_ne ?_ ..).trans ended, read⟩
      rintro rfl
      rw [ended] at running
      cases running
    · rename_i running
      refine ⟨(update_of_ne ?_ ..).trans ended, read⟩
      rintro rfl
      rw [ended] at running
      cases running
    · exact ⟨ended, read⟩

theorem fenced_reads {after : PrStatus} (running : ∀ outcome, s.phase call ≠ .done outcome)
    (fenced : (f.step s (.command call)).phase call = .done (some (.fenced before after))) :
    s.device.readReservation = some ((f.key call).value, exclusiveAccess) ∧
      (f.step s (.command call)).device = s.device := by
  simp only [step, update_self] at fenced ⊢
  generalize s.phase call = phase at fenced running ⊢
  cases phase with
  | done outcome => exact absurd rfl (running outcome)
  | afterHolder before' generation keys =>
    refine ⟨?_, rfl⟩
    simp only [fenceStep, conclusion] at fenced
    split at fenced
    · cases fenced
    split at fenced
    · cases fenced
    · rename_i holds
      exact not_not.mp holds
  | readKeys | register | midKeys | withdraw | afterKeys => cases fenced
  | readHolder | release =>
    simp only [fenceStep] at fenced
    split at fenced <;> cases fenced
  | midHolder =>
    simp only [fenceStep] at fenced
    split at fenced
    · cases fenced
    · exact absurd fenced acquiring_ne_done
  | preempt | reserve =>
    simp only [fenceStep] at fenced
    split at fenced
    · exact absurd fenced cleaning_ne_done
    · cases fenced
  | clean before' stale =>
    cases stale with
    | nil => cases fenced
    | cons stale rest =>
      simp only [fenceStep] at fenced
      split at fenced
      · exact absurd fenced cleaning_ne_done
      · cases fenced

/-- Once a round holds the device, no call of an older round makes another key the holder; and a call that returns `Fenced`
    shuts everybody else out, until another call changes registrations. -/
theorem fence_safe (f : Fleet ι) :
    (∀ d, f.Fresh d → ∀ s t, f.Reaches (start d) s → f.Reaches s t → ∀ k : ReservationKey,
      s.device.holderKey = some k.value → k.isOurs → ∀ call, f.round call < k.round → f.inOrder t (.command call) →
      ∀ other, (f.step t (.command call)).device.holderKey = some other → t.device.holderKey = some other) ∧
    ∀ s call before after, (∀ outcome, s.phase call ≠ .done outcome) →
      (f.step s (.command call)).phase call = .done (some (.fenced before after)) →
      s.device.readReservation = some ((f.key call).value, exclusiveAccess) ∧
      ∀ t, Run.Reaches f.step (fun s event => quiet call s event) (f.step s (.command call)) t →
        ∀ nexus, t.device.registered.get nexus ≠ some (f.key call).value → t.device.refuses nexus := by
  constructor
  · intro d fresh s t first second k holds ours call older allowed other taken
    have ordered := fresh.ordered.run (first.trans second)
    have held : s.device.HeldBy fun round => k.round ≤ round := ⟨k, holds, ours, UInt64.le_refl _⟩
    have upward : ∀ round later, k.round ≤ round → round ≤ later → k.round ≤ later :=
      fun _ _ below above => UInt64.le_trans below above
    have does := f.fenceStep_does t call allowed
    obtain ⟨k', holds', _, above⟩ := ordered.keeps does upward ((fresh.ordered.run first).heldBy second upward held)
    rcases does.holderKey (ordered.release call) taken with same | own
    · exact same
    have key : k' = f.key call := by
      cases k'
      exact congrArg ReservationKey.mk (some.inj (holds'.symm.trans (taken.trans (congrArg some own))))
    rw [key, f.key_round] at above
    exact absurd older (UInt64.not_lt.mpr above)
  · intro s call before after running fenced
    obtain ⟨read, same⟩ := fenced_reads running fenced
    refine ⟨read, fun t run nexus apart => ?_⟩
    have still := run.invariant
      (P := fun s => s.phase call = .done (some (.fenced before after)) ∧
        s.device.readReservation = some ((f.key call).value, exclusiveAccess))
      (fun s event holds allowed => quiet_reservation holds.1 holds.2 allowed) ⟨fenced, by rw [same]; exact read⟩
    obtain ⟨owner, holder, registered, _⟩ := readReservation_some still.2
    have other : owner ≠ nexus := by
      rintro rfl
      exact apart registered
    rw [refuses, holder]
    simp [other]

def play (f : Fleet ι) (d : Device) (events : List (Event ι)) : Scene ι := events.foldl f.step (start d)

def lineup (nexus : Fin 3 → Nat) : Fleet (Fin 3) where
  node _ := 1
  round call := UInt64.ofNat (3 + 2 * call.val)
  nexus := nexus
  listed := id
  distinct := by
    unfold Function.Injective
    decide
  small := by decide
  permuted _ := List.Perm.refl _

def sends (call : ι) (count : Nat) : List (Event ι) := List.replicate count (.command call)

/-- A device on which initiators 0 and 9 may be registered with somebody else's key, and 0 may hold it. -/
def used (shared : Bool) (kind : UInt8) : Device where
  generation := 0
  registered := if shared then (SortedMap.empty.insert 0 0x33).insert 9 0x33 else SortedMap.empty.insert 0 0x33
  holder := some (0, kind)
  held := by
    rintro _ _ ⟨⟩
    cases shared <;> rfl

def blank : Device := ⟨0, .empty, none, nofun⟩

theorem fence_safe_taken :
    ((lineup Fin.val).play blank (sends 0 3 ++ sends 2 6 ++ sends 0 1)).device.holderKey =
        some ((lineup Fin.val).key 2).value ∧
      ((lineup Fin.val).play blank (sends 2 7)).device.readReservation =
        some (((lineup Fin.val).key 2).value, exclusiveAccess) := by
  have first : Run.Follows (lineup Fin.val).step (fun s event => (lineup Fin.val).inOrder s event) (start blank)
      (sends 0 3 ++ sends 2 6) := by decide +kernel
  have second : Run.Follows (lineup Fin.val).step (fun s event => (lineup Fin.val).inOrder s event)
      ((lineup Fin.val).play blank (sends 0 3 ++ sends 2 6)) (sends 0 1) := by decide +kernel
  have older : (lineup Fin.val).round 0 < ((lineup Fin.val).key 2).round := by decide +kernel
  constructor
  · exact (fence_safe (lineup Fin.val)).1 blank ⟨nofun, nofun, nofun⟩ _ _ first.reaches second.reaches
      ((lineup Fin.val).key 2) (by decide +kernel) (by decide +kernel) 0 older (by decide +kernel) _ (by decide +kernel)
  · have running : ∀ outcome, ((lineup Fin.val).play blank (sends 2 7)).phase 2 ≠ .done outcome := by
      intro outcome
      nofun
    exact ((fence_safe (lineup Fin.val)).2 _ 2 { generation := 0, keys := [], holder := none }
      { generation := 1
        keys := [((lineup Fin.val).key 2).value]
        holder := some (((lineup Fin.val).key 2).value, exclusiveAccess) }
      running (by decide +kernel)).1

/-- A round has the device until a newer one does, and nobody shares it. -/
theorem device_never_set_free {d : Device} (fresh : f.Fresh d) {t : Scene ι} (first : f.Reaches (start d) s)
    (second : f.Reaches s t) {round : UInt64} (held : s.device.HeldBy (round ≤ ·)) :
    t.device.HeldBy (round ≤ ·) ∧ ∃ owner, ∀ nexus, nexus ≠ owner → t.device.refuses nexus := by
  obtain ⟨key, holds, newer⟩ := (fresh.ordered.run first).heldBy second (fun _ _ => UInt64.le_trans) held
  obtain ⟨owner, kind, holder, _⟩ := holderKey_some holds
  refine ⟨⟨key, holds, newer⟩, owner, fun nexus other => ?_⟩
  rw [refuses, holder, (fresh.ordered.run (first.trans second)).exclusive owner kind holder]
  simp [Ne.symm other]

theorem device_never_set_free_round3 :
    ((sends 1 8).foldl (lineup Fin.val).step ((lineup Fin.val).play blank (sends 0 6))).device.HeldBy (3 ≤ ·) :=
  (device_never_set_free (d := blank) ⟨nofun, nofun, nofun⟩ (Run.Follows.reaches (by decide +kernel))
    (Run.Follows.reaches (by decide +kernel)) ⟨(lineup Fin.val).key 0, by decide +kernel⟩).1

/-- A call of round 5 that has read the device too early takes it from round 7: when both come from one initiator, when
    round 3 gives up a reservation of another type in between, and when two initiators share a key. -/
theorem late_fence_takes_device :
    (((lineup fun _ => 0).play blank (sends 1 2 ++ sends 2 6)).device.holderKey =
        some ((lineup fun _ => 0).key 2).value ∧
      ((lineup fun _ => 0).play blank (sends 1 2 ++ sends 2 6 ++ sends 1 1)).device.holderKey =
        some ((lineup fun _ => 0).key 1).value) ∧
    (((lineup Fin.val).play (used false 1)
        (sends 0 5 ++ sends 1 3 ++ sends 2 3 ++ sends 1 2 ++ sends 0 1 ++ sends 2 3)).device.holderKey =
        some ((lineup Fin.val).key 2).value ∧
      ((lineup Fin.val).play (used false 1)
        (sends 0 5 ++ sends 1 3 ++ sends 2 3 ++ sends 1 2 ++ sends 0 1 ++ sends 2 3 ++ sends 1 2)).device.holderKey =
        some ((lineup Fin.val).key 1).value) ∧
    ((lineup Fin.val).play (used true exclusiveAccess)
        (sends 2 3 ++ sends 1 5 ++ sends 0 3 ++ sends 2 3)).device.holderKey = some ((lineup Fin.val).key 2).value ∧
      ((lineup Fin.val).play (used true exclusiveAccess)
        (sends 2 3 ++ sends 1 5 ++ sends 0 3 ++ sends 2 3 ++ sends 1 2)).device.holderKey =
        some ((lineup Fin.val).key 1).value := by
  decide +kernel

end Fleet

end TapeRs.Scsi
