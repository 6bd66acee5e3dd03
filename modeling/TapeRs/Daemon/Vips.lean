import TapeRs.Daemon.Records

namespace TapeRs.Daemon

/-- The record of an address; one that nobody has acquired yet has token 0 and no holder. -/
def ControlState.vip (c : ControlState) (address : UInt32) : VipRecord := (c.vips.get address.toNat).getD {}

/-- What a command can do to the record of an address. -/
inductive VipStep (index : UInt64) (c : ControlState) (address : UInt32) : Command → VipRecord → Prop
  | same {cmd : Command} : VipStep index c address cmd (c.vip address)
  | acquire {node round : UInt64} (later : (c.vip address).token < index) (free : (c.vip address).holder = none)
      (runs : c.runs node round) :
      VipStep index c address (.vipAcquire address node round (c.vip address).token)
        { token := index, holder := some { node, round } }
  | release {node round : UInt64} (held : (c.vip address).holder = some { node, round }) :
      VipStep index c address (.vipRelease address node round (c.vip address).token) { c.vip address with holder := none }

theorem VipStep.of_found {index sequence : UInt64} {c : ControlState} {cmd : Command} {record : VipRecord}
    (step : VipStep index (c.found index sequence) address cmd record) : VipStep index c address cmd record := by
  cases step with
  | same => exact .same
  | acquire later free runs => exact .acquire later free runs
  | release held => exact .release held

namespace ControlState

theorem acquireVip_step (c : ControlState) (index : UInt64) (address claimed : UInt32) (node round token : UInt64) :
    VipStep index c address (.vipAcquire claimed node round token)
      ((c.acquireVip index claimed node round token).vip address) := by
  unfold acquireVip
  dsimp only
  split
  · rename_i granted
    obtain ⟨later, same, free, _, runs⟩ := granted
    by_cases here : address = claimed
    · subst here
      rw [← same]
      have recorded : ({ c with vips := c.vips.insert address.toNat { token := index, holder := some { node, round } } } :
          ControlState).vip address = { token := index, holder := some { node, round } } := by
        rw [vip, SortedMap.get_insert, if_pos rfl]
        rfl
      rw [recorded]
      exact .acquire later (Option.isNone_iff_eq_none.mp free) runs
    · have apart : address.toNat ≠ claimed.toNat := fun same => here (UInt32.toNat_inj.mp same)
      rw [vip, SortedMap.get_insert, if_neg apart]
      exact .same
  · exact .same

theorem releaseVip_step (c : ControlState) (index : UInt64) (address freed : UInt32) (node round token : UInt64) :
    VipStep index c address (.vipRelease freed node round token) ((c.releaseVip freed node round token).vip address) := by
  unfold releaseVip
  split
  · rename_i record there
    split
    · rename_i granted
      obtain ⟨rfl, held⟩ := granted
      by_cases here : address = freed
      · subst here
        have known : c.vip address = record := by rw [vip, there]; rfl
        rw [vip, SortedMap.get_insert, if_pos rfl, ← known]
        exact .release (known ▸ held)
      · have apart : address.toNat ≠ freed.toNat := fun same => here (UInt32.toNat_inj.mp same)
        rw [vip, SortedMap.get_insert, if_neg apart]
        exact .same
    · exact .same
  · exact .same

theorem apply_vip (c : ControlState) (index : UInt64) (cmd : Command) (address : UInt32) :
    VipStep index c address cmd ((c.apply index cmd).1.vip address) := by
  obtain ⟨sequence, effect⟩ := c.apply_effect index cmd
  have named := c.apply_unwrap index cmd
  show VipStep index c address cmd (((c.apply index cmd).1.records.vips.get address.toNat).getD {})
  generalize (c.apply index cmd).1.records = after at effect
  generalize Directory.unwrap cmd (c.apply index cmd).2 = unwrapped at effect named
  by_cases still : unwrapped.1.movesVips = false
  · rw [effect.kept.vips still]
    exact .same
  have direct : unwrapped.1 = cmd := by
    rcases named with direct | ⟨_, _, _, _, command, _, _, reported, inner⟩
    · exact direct
    · rw [inner] at still
      cases command <;> first | exact absurd rfl still | cases reported
  subst direct
  cases effect with
  | acquire claimed node round token =>
    exact ((c.found index sequence).acquireVip_step index address claimed node round token).of_found
  | release freed node round token =>
    exact ((c.found index sequence).releaseVip_step index address freed node round token).of_found
  | same => exact .same
  | relieve =>
    obtain ⟨m, only⟩ := Management.interrupt_only (c.found index sequence)
    rw [only]
    exact .same
  | quiesce | resume | freeze | manage | observe | report | create | assign | unassign | state | reclaim | reclaimed
  | commit => exact absurd rfl still

end ControlState

variable {address : UInt32}

theorem replay_vip (log : List Entry) (entry : Entry) (address : UInt32) :
    VipStep entry.1 (replay log) address entry.2 ((replay (log ++ [entry])).vip address) := by
  rw [replay_append]
  exact (replay log).apply_vip entry.1 entry.2 address

def TakesVip (log : List Entry) (entry : Entry) (address : UInt32) (owner : VipOwner) : Prop :=
  (∃ token, entry.2 = .vipAcquire address owner.node owner.round token) ∧
    (replay (log ++ [entry])).vip address ≠ (replay log).vip address

theorem TakesVip.record {log : List Entry} {entry : Entry} {owner : VipOwner} (takes : TakesVip log entry address owner) :
    (replay (log ++ [entry])).vip address = { token := entry.1, holder := some owner } ∧
      ((replay log).vip address).holder = none ∧ ((replay log).vip address).token < entry.1 ∧
      entry.2 = .vipAcquire address owner.node owner.round ((replay log).vip address).token := by
  obtain ⟨⟨token, asks⟩, changed⟩ := takes
  have step := replay_vip log entry address
  rw [asks] at step ⊢
  generalize (replay (log ++ [entry])).vip address = record at step changed
  cases step with
  | same => exact absurd rfl changed
  | acquire later free _ => exact ⟨rfl, free, later, rfl⟩

theorem VipStep.token_le {index : UInt64} {c : ControlState} {cmd : Command} {record : VipRecord}
    (step : VipStep index c address cmd record) : (c.vip address).token ≤ record.token := by
  cases step with
  | same | release => exact UInt64.le_refl _
  | acquire later => exact UInt64.le_of_lt later

theorem vip_token_le (address : UInt32) (log more : List Entry) :
    ((replay log).vip address).token ≤ ((replay (log ++ more)).vip address).token := by
  induction more using List.reverseRecOn with
  | nil => simp
  | append_singleton more entry ih =>
    rw [← List.append_assoc]
    exact UInt64.le_trans ih (replay_vip (log ++ more) entry address).token_le

theorem vip_held {log : List Entry} {token : UInt64} {owner : VipOwner}
    (held : (replay log).vip address = { token, holder := some owner }) {more : List Entry}
    (kept : ∀ entry ∈ more, entry.2 ≠ .vipRelease address owner.node owner.round token) :
    (replay (log ++ more)).vip address = { token, holder := some owner } := by
  induction more using List.reverseRecOn with
  | nil => simpa using held
  | append_singleton more entry ih =>
    have before := ih fun earlier member => kept earlier (List.mem_append_left _ member)
    have last := kept entry (List.mem_append_right _ (List.mem_singleton_self _))
    have step := replay_vip (log ++ more) entry address
    rw [← List.append_assoc]
    generalize (replay (log ++ more ++ [entry])).vip address = record at step
    generalize entry.2 = cmd at step last
    cases step with
    | same => exact before
    | acquire _ free =>
      rw [before] at free
      cases free
    | release owned =>
      rw [before] at owned last
      cases owned
      exact absurd rfl last

/-- Addresses are exclusive along every log. -/
theorem vip_exclusive (address : UInt32) :
    (∀ log entry,
      (((replay (log ++ [entry])).vip address).token ≠ ((replay log).vip address).token →
        ((replay log).vip address).token < ((replay (log ++ [entry])).vip address).token) ∧
      (((replay (log ++ [entry])).vip address).holder ≠ ((replay log).vip address).holder →
        (∃ node round, entry.2 = .vipAcquire address node round ((replay log).vip address).token ∧
          ((replay log).vip address).holder = none ∧ (replay log).runs node round ∧
          ((replay (log ++ [entry])).vip address).holder = some { node, round }) ∨
        ∃ node round, entry.2 = .vipRelease address node round ((replay log).vip address).token ∧
          ((replay log).vip address).holder = some { node, round } ∧
          ((replay (log ++ [entry])).vip address).holder = none)) ∧
    (∀ before acquire during later owner other, TakesVip before acquire address owner →
      (∀ entry ∈ during, entry.2 ≠ .vipRelease address owner.node owner.round acquire.1) →
      ¬TakesVip (before ++ acquire :: during) later address other) ∧
    ∀ seen between acquire behind late owner other, TakesVip (seen ++ between) acquire address owner →
      late.2 = .vipAcquire address other.node other.round ((replay seen).vip address).token →
      ¬TakesVip (seen ++ between ++ acquire :: behind) late address other := by
  refine ⟨fun log entry => ?_, ?_, ?_⟩
  · have step := replay_vip log entry address
    generalize (replay (log ++ [entry])).vip address = record at step
    generalize entry.2 = cmd at step
    cases step with
    | same => exact ⟨fun changed => absurd rfl changed, fun changed => absurd rfl changed⟩
    | acquire later free runs => exact ⟨fun _ => later, fun _ => .inl ⟨_, _, rfl, free, runs, rfl⟩⟩
    | release held => exact ⟨fun changed => absurd rfl changed, fun _ => .inr ⟨_, _, rfl, held, rfl⟩⟩
  · intro before acquire during later owner other takes kept again
    have held := vip_held takes.record.1 kept
    rw [List.append_assoc, List.singleton_append] at held
    have free := again.record.2.1
    rw [held] at free
    cases free
  · intro seen between acquire behind late owner other takes asks again
    have named := again.record.2.2.2
    rw [asks] at named
    have token : ((replay seen).vip address).token =
        ((replay (seen ++ between ++ acquire :: behind)).vip address).token := by
      injection named
    have old := vip_token_le address seen between
    have fresh := takes.record.2.2.1
    have grown := vip_token_le address (seen ++ between ++ [acquire]) behind
    rw [takes.record.1, List.append_assoc _ [acquire], List.singleton_append, ← token] at grown
    exact absurd (UInt64.lt_of_le_of_lt old fresh) (UInt64.not_lt.mpr grown)

theorem vip_exclusive_taken_over :
    TakesVip [(1, .takeover 1 1)] (2, .vipAcquire 7 1 1 0) 7 ⟨1, 1⟩ ∧
    ¬TakesVip ([(1, .takeover 1 1)] ++ (2, .vipAcquire 7 1 1 0) :: [(3, .takeover 2 2)]) (4, .vipAcquire 7 2 3 2) 7 ⟨2, 3⟩ ∧
    ¬TakesVip ([] ++ [(1, .takeover 1 1)] ++ (2, .vipAcquire 7 1 1 0) :: [(3, .vipRelease 7 1 1 2)])
      (4, .vipAcquire 7 1 1 0) 7 ⟨1, 1⟩ := by
  have takes : TakesVip [(1, .takeover 1 1)] (2, .vipAcquire 7 1 1 0) 7 ⟨1, 1⟩ := ⟨⟨0, rfl⟩, by decide⟩
  obtain ⟨_, exclusive, delayed⟩ := vip_exclusive 7
  refine ⟨takes, exclusive _ _ _ _ _ _ takes ?_, delayed _ _ _ _ _ _ _ takes rfl⟩
  intro entry member
  rw [List.mem_singleton.mp member]
  exact nofun

end TapeRs.Daemon
