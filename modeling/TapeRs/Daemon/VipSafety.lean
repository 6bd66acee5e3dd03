import TapeRs.Daemon.VipSession

namespace TapeRs.Daemon

open VipSession Op Function AddressManager List

namespace VipWorker

/-- The address is looked after under the token the session has, and no token is sealed. -/
structure Tends (w after : VipWorker) : Prop where
  token : after.session.token = w.session.token
  released : after.session.releasedToken = w.session.releasedToken
  events : ∃ more, after.events = w.events ++ more ∧ ∀ event ∈ more, event = .removed ∨ event = .refreshed w.session.token

theorem Tends.refl (w : VipWorker) : Tends w w :=
  ⟨rfl, rfl, [], (append_nil _).symm, fun _ member => by cases member⟩

theorem Tends.trans (a b c : VipWorker) (first : Tends a b) (second : Tends b c) : Tends a c := by
  obtain ⟨more, grown, kinds⟩ := first.events
  obtain ⟨more', grown', kinds'⟩ := second.events
  refine ⟨second.token.trans first.token, second.released.trans first.released, more ++ more', ?_, ?_⟩
  · rw [grown', grown, append_assoc]
  · intro event member
    rcases mem_append.mp member with old | new
    · exact kinds event old
    · rw [← first.token]
      exact kinds' event new

theorem tends_setLease (w : VipWorker) (lease : Lease) : Tends w (w.setLease lease) :=
  ⟨rfl, rfl, [], (append_nil _).symm, fun _ member => by cases member⟩

theorem tends_dropAddress (w : VipWorker) : Tends w w.dropAddress := by
  refine ⟨rfl, rfl, ?_⟩
  unfold dropAddress
  dsimp only
  split
  · exact ⟨[.removed], rfl, fun event member => .inl (mem_singleton.mp member)⟩
  · exact ⟨[], (append_nil _).symm, fun _ member => by cases member⟩

theorem tends_addAddress (w : VipWorker) : Tends w w.addAddress :=
  ⟨rfl, rfl, [.refreshed w.session.token], rfl, fun _ member => .inr (mem_singleton.mp member)⟩

end VipWorker

open VipWorker

theorem tends_modify {f : VipWorker → VipWorker} (tends : ∀ w, Tends w (f w)) : Op.Keeps Tends (modify f : NetOp Unit) :=
  tends

theorem tends_withdraw : Op.Keeps Tends Lease.withdraw :=
  Op.Keeps.bind Tends.trans tends_dropAddress fun _ => tends_modify fun w => w.tends_setLease _

theorem tends_step (now : Nat) (owner : Option (UInt64 × Nat)) (clock later : Nat) :
    Op.Keeps Tends (Lease.step now owner clock later) := by
  have announces : Op.Keeps Tends announce :=
    fun w => ⟨rfl, rfl, [], (append_nil _).symm, fun _ member => by cases member⟩
  have refreshes : ∀ lifetime, Op.Keeps Tends (refresh lifetime) := fun _ => tends_addAddress
  unfold Lease.step
  split
  · exact tends_withdraw
  dsimp only
  split
  · exact tends_withdraw
  apply Op.Keeps.bind Tends.trans (refreshes _)
  intro _
  split
  · exact tends_withdraw
  apply Op.Keeps.bind Tends.trans (tends_modify fun w => w.tends_setLease _)
  intro _
  apply Op.Keeps.bind Tends.trans (Op.Keeps.get Tends.refl)
  intro w
  split
  · exact Op.Keeps.bind Tends.trans announces fun _ => tends_modify fun w => w.tends_setLease _
  · exact Op.Keeps.pure Tends.refl _

theorem withdraw_run (w : VipWorker) :
    (w.answer.ok ∧ Lease.withdraw w = (.ok (), w.dropAddress.setLease {})) ∨
    (w.answer.ok = false ∧ Lease.withdraw w = (.error .remove, w.dropAddress)) := by
  cases ends : w.answer.ok with
  | true =>
    have run : remove w = (.ok (), w.dropAddress) := by rw [remove, ends, if_pos rfl]
    exact .inl ⟨rfl, bind_run_ok run⟩
  | false =>
    have run : remove w = (.error .remove, w.dropAddress) := by
      rw [remove, ends, if_neg Bool.false_ne_true]
    exact .inr ⟨rfl, bind_run_error run⟩

namespace VipWorker

variable {w after : VipWorker}

/-- The address is looked after under a token that is granted. -/
structure Holds (token : UInt64) (w after : VipWorker) : Prop where
  released : w.session.releasedToken ≤ after.session.releasedToken
  events : ∃ more, after.events = w.events ++ more ∧ ∀ event ∈ more, event = .removed ∨ event = .refreshed (some token)

/-- The address is taken down, or the attempt fails. -/
structure Yields (w after : VipWorker) : Prop where
  present : after.present → w.present
  released : after.session.releasedToken = w.session.releasedToken
  events : ∃ more, after.events = w.events ++ more ∧ ∀ event ∈ more, event = .removed

theorem Holds.of_tends {token : UInt64} {middle : VipWorker} (first : Holds token w middle)
    (named : middle.session.token = some token) (second : Tends middle after) : Holds token w after := by
  obtain ⟨more, grown, kinds⟩ := first.events
  obtain ⟨more', grown', kinds'⟩ := second.events
  refine ⟨by rw [second.released]; exact first.released, more ++ more', by rw [grown', grown, append_assoc], ?_⟩
  intro event member
  rcases mem_append.mp member with old | new
  · exact kinds event old
  · rw [← named]
    exact kinds' event new

theorem yields_dropAddress (w : VipWorker) : Yields w w.dropAddress := by
  refine ⟨?_, rfl, ?_⟩
  · intro there
    exact (Bool.and_eq_true_iff.mp there).1
  · unfold dropAddress
    dsimp only
    split
    · exact ⟨[.removed], rfl, fun event member => mem_singleton.mp member⟩
    · exact ⟨[], (append_nil _).symm, fun _ member => by cases member⟩

theorem Yields.refl (w : VipWorker) : Yields w w :=
  ⟨id, rfl, [], (append_nil _).symm, fun _ member => by cases member⟩

theorem Yields.holds (yields : Yields w after) (token : UInt64) : Holds token w after := by
  obtain ⟨more, grown, kinds⟩ := yields.events
  exact ⟨by rw [yields.released]; exact UInt64.le_refl _, more, grown, fun event member => .inl (kinds event member)⟩

theorem Yields.trans {a b c : VipWorker} (first : Yields a b) (second : Yields b c) : Yields a c := by
  obtain ⟨more, grown, kinds⟩ := first.events
  obtain ⟨more', grown', kinds'⟩ := second.events
  refine ⟨fun there => first.present (second.present there), second.released.trans first.released, more ++ more',
    by rw [grown', grown, append_assoc], ?_⟩
  intro event member
  rcases mem_append.mp member with old | new
  · exact kinds event old
  · exact kinds' event new

theorem Holds.cleanup {token : UInt64} (holds : Holds token w after) :
    Holds token w (after.dropAddress.setLease {}) := by
  obtain ⟨more, grown, kinds⟩ := holds.events
  obtain ⟨more', grown', kinds'⟩ := after.yields_dropAddress.events
  refine ⟨holds.released, more ++ more', ?_, ?_⟩
  · show after.dropAddress.events = _
    rw [grown', grown, append_assoc]
  · intro event member
    rcases mem_append.mp member with old | new
    · exact kinds event old
    · exact .inl (kinds' event new)

end VipWorker

section Turns

variable {status : NodeStatus} {address : UInt32}

theorem adopt_run (token : UInt64) (w : VipWorker) :
    (∃ call after, adopt token w = (.error call, after) ∧ Yields w after) ∨
    ∃ after, adopt token w = (.ok (), after) ∧ after.session.token = some token ∧ Yields w after := by
  by_cases same : w.session.token = some token
  · exact .inr ⟨w, by rw [adopt, bind_run_ok get_run, if_pos same]; rfl, same, .refl w⟩
  have run : adopt token w =
      (Lease.withdraw >>= fun _ => modify fun w => w.setToken (some token)) w := by
    rw [adopt, bind_run_ok get_run, if_neg same]
  rcases withdraw_run w with ⟨_, done⟩ | ⟨_, failed⟩
  · have down := w.yields_dropAddress
    exact .inr ⟨_, run.trans (bind_run_ok done), rfl, down.present, down.released, down.events⟩
  · exact .inl ⟨_, _, run.trans (bind_run_error failed), w.yields_dropAddress⟩

theorem keep_run (status : NodeStatus) (address : UInt32) (holder : VipOwner) (now : Nat) (owner : Option (UInt64 × Nat)) (clock later : Nat) (w : VipWorker) :
    Holds (status.record address).token w (keep status address holder now owner clock later w).2 ∧
      ∀ command, (keep status address holder now owner clock later w).1 = .ok command → command = none := by
  have adopted := adopt_run (status.record address).token w
  unfold keep
  generalize (status.record address).token = token at adopted ⊢
  rcases adopted with ⟨call, middle, failed, yields⟩ | ⟨middle, done, named, yields⟩
  · rw [bind_run_error failed]
    exact ⟨yields.holds token, fun command same => by cases same⟩
  rw [bind_run_ok done]
  have tends := tends_step now (owner.filter fun o => o.1 = holder.round) clock later middle
  cases stepped : Lease.step now (owner.filter fun o => o.1 = holder.round) clock later middle with
  | mk outcome after =>
    rw [stepped] at tends
    have held := (yields.holds token).of_tends named tends
    cases outcome with
    | ok value =>
      rw [bind_run_ok (onError_ok stepped)]
      exact ⟨held, fun command same => by cases same; rfl⟩
    | error call =>
      rw [bind_run_error (onError_error stepped)]
      exact ⟨⟨UInt64.le_trans held.released (Word.le_max_left _ _), held.events⟩, fun command same => by cases same⟩

theorem propose_run (w : VipWorker) :
    (∃ holder, (status.record address).holder = some holder ∧ holder.node = status.id ∧
      propose status address w = (.ok (some (.vipRelease address status.id holder.round (status.record address).token)),
        w.sealToken (status.record address).token)) ∨
    ∃ command, propose status address w = (.ok command, w) ∧
      (command = none ∨ ∃ round, command = some (.vipAcquire address status.id round (status.record address).token)) := by
  cases held : (status.record address).holder with
  | some holder =>
    by_cases mine : holder.node = status.id
    · left
      refine ⟨holder, rfl, mine, ?_⟩
      rw [propose, held]
      dsimp only
      rw [if_pos mine, mine]
      rfl
    · right
      refine ⟨none, ?_, .inl rfl⟩
      rw [propose, held]
      dsimp only
      rw [if_neg mine]
      rfl
  | none =>
    right
    cases turn : status.assigned with
    | some round => exact ⟨_, by rw [propose, held, turn]; rfl, .inr ⟨round, rfl⟩⟩
    | none => exact ⟨none, by rw [propose, held, turn]; rfl, .inl rfl⟩

theorem yield_run (status : NodeStatus) (address : UInt32) (w : VipWorker) :
    (∃ call, (yield status address w).1 = .error call ∧ Yields w (yield status address w).2) ∨
    ∃ command, (yield status address w).1 = .ok command ∧ (yield status address w).2.present = false ∧
      (yield status address w).2.events = w.events ++ [.removed] ∧
      ((∃ holder, (status.record address).holder = some holder ∧ holder.node = status.id ∧
          command = some (.vipRelease address status.id holder.round (status.record address).token) ∧
          (yield status address w).2.session.releasedToken =
            max w.session.releasedToken (status.record address).token) ∨
        ((yield status address w).2.session.releasedToken = w.session.releasedToken ∧
          (command = none ∨ ∃ round, command = some (.vipAcquire address status.id round (status.record address).token)))) := by
  rcases withdraw_run w with ⟨ok, done⟩ | ⟨_, failed⟩
  · right
    have gone : w.dropAddress.present = false := by
      unfold dropAddress
      dsimp only
      rw [ok, Bool.true_or, Bool.not_true, Bool.and_false]
    have events : w.dropAddress.events = w.events ++ [.removed] := if_pos ok
    have run : yield status address w =
        propose status address ((w.dropAddress.setLease {}).setToken none) := bind_run_ok done
    rcases propose_run ((w.dropAddress.setLease {}).setToken none) with ⟨holder, held, mine, proposed⟩ | ⟨command, proposed, kind⟩
    · rw [run, proposed]
      exact ⟨_, rfl, gone, events, .inl ⟨holder, held, mine, rfl, rfl⟩⟩
    · rw [run, proposed]
      exact ⟨command, rfl, gone, events, .inr ⟨rfl, kind⟩⟩
  · have run : yield status address w = (.error .remove, w.dropAddress) := bind_run_error failed
    rw [run]
    exact .inl ⟨_, rfl, w.yields_dropAddress⟩

theorem poll_run (now : Nat) (owner : Option (UInt64 × Nat)) (clock later : Nat) (w : VipWorker) {after : VipWorker}
    {command : Option Command} (turn : w.poll status address now owner clock later = (after, command)) :
    (∃ holder, status.grants address w.session.releasedToken = some holder ∧ command = none ∧
      Holds (status.record address).token w after) ∨
    (command = none ∨ (∃ round, command = some (.vipAcquire address status.id round (status.record address).token))) ∧
      Yields w after ∨
    ∃ holder, (status.record address).holder = some holder ∧ holder.node = status.id ∧
      command = some (.vipRelease address status.id holder.round (status.record address).token) ∧ after.present = false ∧
      after.events = w.events ++ [.removed, .released (status.record address).token] ∧
      after.session.releasedToken = max w.session.releasedToken (status.record address).token := by
  unfold VipWorker.poll at turn
  cases granted : status.grants address w.session.releasedToken with
  | some holder =>
    have run : step status address now owner clock later w =
        keep status address holder now owner clock later w := by
      rw [step, bind_run_ok get_run, granted]
    obtain ⟨holds, quiet⟩ := keep_run status address holder now owner clock later w
    cases result : keep status address holder now owner clock later w with
    | mk outcome middle =>
      rw [result] at holds quiet
      rw [run, result] at turn
      left
      cases outcome with
      | ok proposed =>
        obtain rfl := quiet proposed rfl
        cases turn
        exact ⟨holder, rfl, rfl, holds⟩
      | error call =>
        cases turn
        exact ⟨holder, rfl, rfl, holds.cleanup⟩
  | none =>
    have run : step status address now owner clock later w = yield status address w := by
      rw [step, bind_run_ok get_run, granted]
    right
    have yields := yield_run status address w
    cases result : yield status address w with
    | mk outcome middle =>
      rw [result] at yields
      rw [run, result] at turn
      rcases yields with ⟨call, failed, yields⟩ | ⟨proposed, done, gone, events, kind⟩
      · cases failed
        cases turn
        have cleaned := yields.trans middle.yields_dropAddress
        exact .inl ⟨.inl rfl, cleaned.present, cleaned.released, cleaned.events⟩
      · cases done
        rcases kind with ⟨holder, held, mine, rfl, released⟩ | ⟨released, kind⟩
        · cases turn
          refine .inr ⟨holder, held, mine, rfl, gone, ?_, released⟩
          show middle.events ++ _ = _
          rw [show middle.events = _ from events, append_assoc]
          rfl
        · have same : after = middle ∧ command = proposed := by
            rcases kind with rfl | ⟨round, rfl⟩
            · cases turn
              exact ⟨rfl, rfl⟩
            · cases turn
              exact ⟨rfl, rfl⟩
          obtain ⟨rfl, rfl⟩ := same
          refine .inl ⟨kind, ?_, released, [.removed], events, fun event member => mem_singleton.mp member⟩
          intro there
          rw [show after.present = false from gone] at there
          cases there

end Turns

namespace VipWorker

/-- A release comes right behind a removal, and the address is not configured under its token again. -/
structure Traced (w : VipWorker) : Prop where
  removed : ∀ before token later, w.events = before ++ .released token :: later →
    (∃ earlier, before = earlier ++ [.removed]) ∧ .refreshed (some token) ∉ later
  sealed' : ∀ token, .released token ∈ w.events → token ≤ w.session.releasedToken

theorem Traced.grow {w after : VipWorker} (traced : Traced w) {more : List VipEvent} (grown : after.events = w.events ++ more)
    (released : w.session.releasedToken ≤ after.session.releasedToken)
    (kinds : ∀ event ∈ more, event = .removed ∨ ∃ token, event = .refreshed (some token) ∧ w.session.releasedToken < token) :
    Traced after := by
  have none : ∀ token, .released token ∉ more := by
    intro token member
    rcases kinds _ member with other | ⟨_, other, _⟩
    · cases other
    · cases other
  constructor
  · intro before token later split
    rw [grown] at split
    rcases append_eq_append_iff.mp split with ⟨middle, _, tail⟩ | ⟨middle, head, tail⟩
    · exact absurd (by rw [tail]; simp) (none token)
    cases middle with
    | nil => exact absurd (by rw [← show _ = more from tail]; simp) (none token)
    | cons event rest =>
      obtain ⟨rfl, rfl⟩ := cons.inj tail
      obtain ⟨behind, clear⟩ := traced.removed before token rest head
      refine ⟨behind, fun member => ?_⟩
      rcases mem_append.mp member with old | new
      · exact clear old
      rcases kinds _ new with other | ⟨_, same, later⟩
      · cases other
      · cases same
        have early := traced.sealed' token (by rw [head]; simp)
        exact absurd later (UInt64.not_lt.mpr early)
  · intro token member
    rw [grown] at member
    rcases mem_append.mp member with old | new
    · exact UInt64.le_trans (traced.sealed' token old) released
    · exact absurd new (none token)

theorem Traced.release {w after : VipWorker} (traced : Traced w) {token : UInt64}
    (grown : after.events = w.events ++ [.removed, .released token])
    (released : after.session.releasedToken = max w.session.releasedToken token) : Traced after := by
  have first : Traced { w with events := w.events ++ [.removed] } :=
    traced.grow rfl (UInt64.le_refl _) fun event member => .inl (mem_singleton.mp member)
  have grown' : after.events = (w.events ++ [.removed]) ++ [.released token] := by rw [grown, append_assoc]; rfl
  constructor
  · intro before other later split
    rw [grown'] at split
    rcases eq_nil_or_concat later with rfl | ⟨shorter, last, rfl⟩
    · exact ⟨⟨w.events, (append_inj' split rfl).1.symm⟩, not_mem_nil⟩
    rw [concat_eq_append, ← cons_append, ← append_assoc] at split
    obtain ⟨head, tail⟩ := append_inj' split rfl
    obtain ⟨behind, clear⟩ := first.removed before other shorter head
    refine ⟨behind, fun member => ?_⟩
    rw [concat_eq_append, ← tail] at member
    rcases mem_append.mp member with old | new
    · exact clear old
    · cases mem_singleton.mp new
  · intro other member
    rw [grown] at member
    rw [released]
    rcases mem_append.mp member with old | new
    · exact UInt64.le_trans (traced.sealed' other old) (Word.le_max_left _ _)
    · obtain rfl : other = token := by simpa using new
      exact Word.le_max_right _ _

end VipWorker

namespace VipCluster

variable {s : VipCluster}

/-- Where the address is configured, the log says so, and a node that has proposed to release a token has sealed it. -/
structure Safe (s : VipCluster) : Prop where
  seen : ∀ node, s.seen node ≤ s.log.length
  logged : ∀ entry ∈ s.log, ∀ node round token, entry.2 = .vipRelease s.address node round token → entry.2 ∈ s.sent
  noted : ∀ node round token, .vipRelease s.address node round token ∈ s.sent → .released token ∈ (s.workers node).events
  holds : ∀ node, (s.workers node).present → ∃ token round,
    (replay s.log).vip s.address = { token, holder := some { node, round } } ∧
      .vipRelease s.address node round token ∉ s.sent
  traced : ∀ node, (s.workers node).Traced

theorem safe_start (address : UInt32) : Safe { address } where
  seen _ := Nat.le_refl 0
  logged _ member := by cases member
  noted _ _ _ member := by cases member
  holds _ there := by cases there
  traced _ := ⟨fun before _ _ split => (by cases before <;> cases split), fun _ member => (by cases member)⟩

theorem Safe.granted (safe : Safe s) {node : UInt64} {shuttingDown : Bool} {holder : VipOwner}
    (granted : (s.status node shuttingDown).grants s.address (s.workers node).session.releasedToken = some holder) :
    (s.workers node).session.releasedToken < ((s.status node shuttingDown).record s.address).token ∧ ∃ token round,
      (replay s.log).vip s.address = { token, holder := some { node, round } } ∧
        .vipRelease s.address node round token ∉ s.sent := by
  obtain ⟨held, mine⟩ := Option.filter_eq_some_iff.mp granted
  simp only [Bool.and_eq_true, decide_eq_true_eq] at mine
  obtain ⟨⟨mine, _⟩, fresh⟩ := mine
  have unsent : ∀ round, .vipRelease s.address node round ((s.status node shuttingDown).record s.address).token ∉ s.sent := by
    intro round sent
    have early := (safe.traced node).sealed' _ (safe.noted node round _ sent)
    exact absurd fresh (UInt64.not_lt.mpr early)
  have before : (replay (s.log.take (s.seen node))).vip s.address =
      { token := ((s.status node shuttingDown).record s.address).token, holder := some holder } := by
    rw [← held]
    rfl
  have now : (replay (s.log.take (s.seen node) ++ s.log.drop (s.seen node))).vip s.address =
      { token := ((s.status node shuttingDown).record s.address).token, holder := some holder } := by
    apply vip_held before
    intro entry member released
    have sent := safe.logged entry (mem_of_mem_drop member) _ _ _ released
    rw [released, mine] at sent
    exact unsent _ sent
  rw [take_append_drop] at now
  refine ⟨fresh, _, holder.round, now.trans ?_, unsent holder.round⟩
  obtain ⟨_, round⟩ := holder
  cases mine
  rfl

theorem Safe.setWorker (safe : Safe s) (node : UInt64) {w : VipWorker} (traced : w.Traced)
    (events : ∀ event ∈ (s.workers node).events, event ∈ w.events)
    (holds : w.present → ∃ token round, (replay s.log).vip s.address = { token, holder := some { node, round } } ∧
      .vipRelease s.address node round token ∉ s.sent) : Safe (s.setWorker node w) where
  seen := safe.seen
  logged := safe.logged
  noted other round token member := by
    show _ ∈ (update s.workers node w other).events
    by_cases same : other = node
    · subst same
      rw [update_self]
      exact events _ (safe.noted other round token member)
    · rw [update_of_ne same]
      exact safe.noted other round token member
  holds other there := by
    change (update s.workers node w other).present at there
    by_cases same : other = node
    · subst same
      rw [update_self] at there
      exact holds there
    · rw [update_of_ne same] at there
      exact safe.holds other there
  traced other := by
    show (update s.workers node w other).Traced
    by_cases same : other = node
    · subst same
      rwa [update_self]
    · rw [update_of_ne same]
      exact safe.traced other

theorem Safe.propose (safe : Safe s) {cmds : List Command}
    (other : ∀ cmd ∈ cmds, ∀ node round token, cmd ≠ .vipRelease s.address node round token) :
    Safe { s with sent := s.sent ++ cmds } := by
  have kept : ∀ node round token, .vipRelease s.address node round token ∈ s.sent ++ cmds →
      .vipRelease s.address node round token ∈ s.sent := by
    intro node round token member
    rcases mem_append.mp member with old | new
    · exact old
    · exact absurd rfl (other _ new node round token)
  exact {
    seen := safe.seen
    logged := fun entry member node round token same => mem_append_left _ (safe.logged entry member node round token same)
    noted := fun node round token member => safe.noted node round token (kept node round token member)
    holds := by
      intro node there
      obtain ⟨token, round, held, unsent⟩ := safe.holds node there
      exact ⟨token, round, held, fun member => unsent (kept _ _ _ member)⟩
    traced := safe.traced }

theorem Safe.poll (safe : Safe s) (node : UInt64) (shuttingDown : Bool) (now : Nat) (owner : Option (UInt64 × Nat))
    (clock later : Nat) (answers : List NetAnswer) :
    Safe (s.step (.poll node shuttingDown now owner clock later answers)) := by
  rw [VipCluster.step]
  cases turn : VipWorker.poll { s.workers node with answers } (s.status node shuttingDown) s.address now owner clock later with
  | mk w command =>
    have before : VipWorker.Traced { s.workers node with answers } :=
      ⟨(safe.traced node).removed, (safe.traced node).sealed'⟩
    rcases poll_run now owner clock later { s.workers node with answers } turn with
      ⟨holder, granted, rfl, holds⟩ | ⟨kind, yields⟩ | ⟨holder, held, mine, rfl, gone, events, released⟩
    · -- The address is kept up under the token that is granted.
      obtain ⟨fresh, held⟩ := safe.granted granted
      obtain ⟨more, grown, kinds⟩ := holds.events
      refine (safe.setWorker node (before.grow grown holds.released ?_) ?_ fun _ => held).propose fun _ member => by cases member
      · intro event member
        rcases kinds event member with removed | refreshed
        · exact .inl removed
        · exact .inr ⟨_, refreshed, fresh⟩
      · intro event member
        rw [grown]
        exact mem_append_left _ member
    · obtain ⟨more, grown, kinds⟩ := yields.events
      refine (safe.setWorker node (before.grow grown ?_ fun event member => .inl (kinds event member)) ?_ ?_).propose ?_
      · rw [yields.released]
        exact UInt64.le_refl _
      · intro event member
        rw [grown]
        exact mem_append_left _ member
      · intro there
        exact safe.holds node (yields.present there)
      · intro cmd member other round token same
        rcases kind with rfl | ⟨_, rfl⟩
        · cases member
        · cases mem_singleton.mp member
          cases same
    · -- The token is sealed, and the address is gone.
      have down := safe.setWorker node (before.release events released)
        (fun event member => by rw [events]; exact mem_append_left _ member) (fun there => by rw [gone] at there; cases there)
      have recorded : VipEvent.released ((s.status node shuttingDown).record s.address).token ∈
          ((s.setWorker node w).workers node).events := by
        show _ ∈ (update s.workers node w node).events
        rw [update_self, events]
        simp
      constructor
      · exact down.seen
      · intro entry member other round token same
        exact mem_append_left _ (down.logged entry member other round token same)
      · intro other round token member
        rcases mem_append.mp member with old | new
        · exact down.noted other round token old
        · cases mem_singleton.mp new
          exact recorded
      · intro other there
        obtain ⟨token, round, record, unsent⟩ := down.holds other there
        refine ⟨token, round, record, fun member => ?_⟩
        rcases mem_append.mp member with old | new
        · exact unsent old
        cases mem_singleton.mp new
        have absent : ((s.setWorker node w).workers node).present = false := by
          show (update s.workers node w node).present = false
          rw [update_self, gone]
        rw [show ((s.setWorker node w).workers node).present = true from there] at absent
        cases absent
      · exact down.traced

theorem Safe.step (safe : Safe s) {action : Action} (permitted : s.Permits action) : Safe (s.step action) := by
  cases action with
  | commit index cmd =>
    obtain ⟨_, proposed⟩ := permitted
    refine ⟨fun node => ?_, ?_, safe.noted, fun node there => ?_, safe.traced⟩
    · show s.seen node ≤ (s.log ++ [(index, cmd)]).length
      rw [length_append]
      exact Nat.le_add_right_of_le (safe.seen node)
    · intro entry member node round token same
      rcases mem_append.mp member with old | new
      · exact safe.logged entry old node round token same
      cases mem_singleton.mp new
      apply proposed
      rw [show cmd = _ from same]
      exact rfl
    · obtain ⟨token, round, held, unsent⟩ := safe.holds node there
      refine ⟨token, round, vip_held held ?_, unsent⟩
      intro entry member released
      cases mem_singleton.mp member
      cases released
      exact unsent (proposed rfl)
  | learn node length =>
    refine ⟨fun other => ?_, safe.logged, safe.noted, safe.holds, safe.traced⟩
    show update s.seen node length other ≤ s.log.length
    by_cases same : other = node
    · subst same
      rw [update_self]
      exact permitted.2
    · rw [update_of_ne same]
      exact safe.seen other
  | poll node shuttingDown now owner clock later answers =>
    exact safe.poll node shuttingDown now owner clock later answers
  | lapse node =>
    refine safe.setWorker node ⟨(safe.traced node).removed, (safe.traced node).sealed'⟩ (fun _ member => member) ?_
    intro there
    cases there

theorem Reached.safe (reached : s.Reached) : Safe s :=
  reached.invariant (P := Safe) (fun _ _ safe permitted => safe.step permitted) (safe_start s.address)

/-- The address is configured on one node at most, and given back only when it is gone, for good. -/
theorem vip_on_one_node (reached : s.Reached) :
    (∀ node other, (s.workers node).present → (s.workers other).present → node = other) ∧
    (∀ node round token, .vipRelease s.address node round token ∈ s.sent → .released token ∈ (s.workers node).events) ∧
    ∀ node before token later, (s.workers node).events = before ++ .released token :: later →
      (∃ earlier, before = earlier ++ [.removed]) ∧ .refreshed (some token) ∉ later := by
  refine ⟨fun node other here there => ?_, reached.safe.noted, fun node => (reached.safe.traced node).removed⟩
  obtain ⟨_, _, held, _⟩ := reached.safe.holds node here
  obtain ⟨_, _, held', _⟩ := reached.safe.holds other there
  rw [held] at held'
  injection held' with _ owner
  injection owner with owner
  injection owner

/-- Node 1 has the devices and configures the address; node 2 takes the devices over, and node 1 gives the address back. -/
def handedOver : List Action :=
  [.commit 1 (.takeover 1 1), .learn 1 1, .poll 1 false 0 none 0 0 [], .commit 2 (.vipAcquire 7 1 1 0), .learn 1 2,
   .poll 1 false 0 (some (1, 4 * second)) 0 0 [], .commit 3 (.takeover 2 2), .learn 1 3, .poll 1 false 0 none 0 0 []]

theorem vip_on_one_node_handed_over :
    ((handedOver.foldl step { address := 7 }).workers 1).events =
      [.removed, .removed, .refreshed (some 2), .removed] ++ .released 2 :: [] ∧
    .refreshed (some 2) ∉ ([] : List VipEvent) := by
  have reached : (handedOver.foldl step { address := 7 }).Reached := by
    apply Run.Follows.reaches
    have plain : ∀ (s : VipCluster) (index node term : UInt64), lastIndex 0 s.log < index →
        s.Permits (.commit index (.takeover node term)) := fun _ _ _ _ later => ⟨later, fun concerns => concerns.elim⟩
    have proposed : ∀ (s : VipCluster), lastIndex 0 s.log < 2 → s.sent = [.vipAcquire 7 1 1 0] →
        s.Permits (.commit 2 (.vipAcquire 7 1 1 0)) := fun _ later sent => ⟨later, fun _ => sent ▸ mem_singleton_self _⟩
    exact ⟨plain _ 1 1 1 (by decide), ⟨by decide, by decide⟩, trivial, proposed _ (by decide) rfl, ⟨by decide, by decide⟩, trivial,
      plain _ 3 2 2 (by decide), ⟨by decide, by decide⟩, trivial, trivial⟩
  have events : ((handedOver.foldl step { address := 7 }).workers 1).events =
      [.removed, .removed, .refreshed (some 2), .removed] ++ .released 2 :: [] := by decide +kernel
  obtain ⟨_, _, traced⟩ := vip_on_one_node reached
  exact ⟨events, (traced 1 _ 2 _ events).2⟩

end VipCluster

end TapeRs.Daemon
