import TapeRs.Daemon.Permission

namespace TapeRs.Daemon

open Permission Permission.Over

/-- The permission of a node and the time its clock shows. -/
structure Clocked where
  now : Nat
  permission : Permission := {}
deriving DecidableEq, Repr

namespace Clocked

variable {w after : Clocked} {round : UInt64}

/-- What moves the permission: time, a confirmation by the majority, the end of a round. -/
inductive Action where
  | wait (time : Nat)
  | renew (round : UInt64) (phase : Phase) (deadline : Nat)
  | close (round : UInt64)

def step (w : Clocked) : Action → Clocked
  | .wait time => { w with now := w.now + time }
  | .renew round phase deadline => { w with permission := (w.permission.renew w.now round phase deadline).1 }
  | .close round => { w with permission := w.permission.close w.now round }

def allows (w : Clocked) (round : UInt64) (phase : Phase) : Bool := w.permission.allows w.now round phase

abbrev Later : Clocked → Clocked → Prop := Run.Reaches step fun _ _ => True

def Over (w : Clocked) (round : UInt64) : Prop := w.permission.Over w.now round

theorem Over.later (ended : w.Over round) (run : w.Later after) : after.Over round := by
  refine run.invariant (P := fun w => w.Over round) ?_ ended
  intro w action ended _
  cases action with
  | wait time => exact Permission.Over.later ended (Nat.le_add_right ..)
  | renew next phase deadline => exact renew ended next phase deadline
  | close closing => exact close ended closing

theorem reached_later {rank : Nat} (reached : w.permission.Reached round rank) (run : w.Later after) :
    after.permission.Reached round rank := by
  refine run.invariant (P := fun w => w.permission.Reached round rank) ?_ reached
  intro w action reached _
  cases action with
  | wait => exact reached
  | renew next phase deadline => exact reached.renew next phase deadline
  | close closing => exact reached.close closing

theorem phase_forward {phase next : Phase} (run : w.Later after) (before : w.allows round phase)
    (now : after.allows round next) : phase.rank ≤ next.rank := by
  obtain ⟨g, held, rfl, _, rfl, _⟩ := allows_iff.mp before
  obtain ⟨g', held', same, _, rfl, _⟩ := allows_iff.mp now
  obtain ⟨g'', held'', past⟩ := reached_later ⟨g, held, .inr ⟨rfl, Nat.le_refl _⟩⟩ run
  rw [held'] at held''
  cases held''
  rcases past with later | ⟨_, forward⟩
  · exact absurd same (UInt64.ne_of_lt later).symm
  · exact forward

end Clocked

inductive Transfer where
  | noData
  | read (length : Nat)
  | write (buffer : List UInt8)
deriving DecidableEq, Repr

/-- A command given to the transport of a round. -/
structure Call where
  device : String
  round : UInt64
  cdb : List UInt8
  transfer : Transfer
deriving DecidableEq, Repr

/-- The moments of a call: what the permission is at each of its readings, and when the device gets the command. -/
structure Passage where
  fencing : Clocked
  execution : Clocked
  serving : Clocked
  register : Clocked
  submit : Clocked
  fencingAfter : Clocked
  executionAfter : Clocked
  servingAfter : Clocked

/-- The moments follow each other. -/
structure Passage.Ordered (moments : Passage) : Prop where
  execution : moments.fencing.Later moments.execution
  serving : moments.execution.Later moments.serving
  register : moments.serving.Later moments.register
  submit : moments.register.Later moments.submit
  fencingAfter : moments.submit.Later moments.fencingAfter
  executionAfter : moments.fencingAfter.Later moments.executionAfter
  servingAfter : moments.executionAfter.Later moments.servingAfter

namespace Call

variable {call : Call}

def action (call : Call) : Option UInt8 := call.cdb[1]?.map (· &&& 0x1f)

def pr (call : Call) : Bool := call.cdb.head? = some 0x5e || call.cdb.head? = some 0x5f || call.cdb.head? = some 0x12

def changesPr (call : Call) : Bool :=
  call.cdb.head? = some 0x5f && !(call.action = some 0x00 || call.action = some 0x02 || call.action = some 0x06)

def check (call : Call) (fencing execution serving : Clocked) : Result Unit :=
  if (call.pr && fencing.allows call.round .fencing) ||
      (!call.changesPr && (execution.allows call.round .execution || serving.allows call.round .serving)) then .ok ()
  else .error (.ownershipLost call.device ("轮次 " ++ Text.decimal call.round ++ " 的多数派执行许可已失效或阶段不符"))

def registers (call : Call) : Bool :=
  match call.transfer with
  | .write buffer => call.cdb.head? = some 0x5f && (call.action = some 0x00 || call.action = some 0x06) &&
      (buffer.drop 8).take 8 ≠ List.replicate 8 0
  | _ => false

def cleared (call : Call) (moments : Passage) : Result Unit := do
  call.check moments.fencing moments.execution moments.serving
  if call.registers && !moments.register.allows call.round .fencing then
    .error (.ownershipLost call.device "持有期间禁止重新注册 PR")
  else .ok ()

def execute {α : Type} (call : Call) (moments : Passage) (inner : Result α) : Result α := do
  call.cleared moments
  let result ← inner
  call.check moments.fencingAfter moments.executionAfter moments.servingAfter
  .ok result

def claims (call : Call) : Bool :=
  call.registers || (call.cdb.head? = some 0x5f &&
    (call.action = some 0x01 || call.action = some 0x04 || call.action = some 0x05 || call.action = some 0x07))

theorem check_ok {fencing execution serving : Clocked} (passed : call.check fencing execution serving = .ok ()) :
    (call.pr ∧ fencing.allows call.round .fencing) ∨
      (call.changesPr = false ∧ (execution.allows call.round .execution ∨ serving.allows call.round .serving)) := by
  unfold check at passed
  split at passed
  · rename_i allowed
    simpa using allowed
  · cases passed

theorem cleared_ok {moments : Passage} (passed : call.cleared moments = .ok ()) :
    call.check moments.fencing moments.execution moments.serving = .ok () ∧
      (call.registers → moments.register.allows call.round .fencing) := by
  obtain ⟨_, checked, passed⟩ := Result.bind_ok.mp passed
  refine ⟨checked, ?_⟩
  split at passed
  · cases passed
  · rename_i free
    intro registering
    simpa [registering] using free

theorem check_over {fencing execution serving : Clocked} (first : fencing.Later execution)
    (second : execution.Later serving) (ended : fencing.Over call.round) :
    call.check fencing execution serving ≠ .ok () := by
  intro passed
  have atExecution := ended.later first
  have atServing := atExecution.later second
  rcases check_ok passed with ⟨_, allowed⟩ | ⟨_, allowed | allowed⟩
  · rw [Clocked.allows, forbids ended] at allowed
    cases allowed
  · rw [Clocked.allows, forbids atExecution] at allowed
    cases allowed
  · rw [Clocked.allows, forbids atServing] at allowed
    cases allowed

theorem changesPr_of_claims (claims : call.claims) (plain : call.registers = false) : call.changesPr := by
  simp only [Call.claims, plain, Bool.false_or, Bool.and_eq_true, decide_eq_true_eq, Bool.or_eq_true] at claims
  obtain ⟨out, ((reserve | preempt) | abort) | move⟩ := claims
  · simp [changesPr, out, reserve]
  · simp [changesPr, out, preempt]
  · simp [changesPr, out, abort]
  · simp [changesPr, out, move]

theorem claims_cleared {moments : Passage} (ordered : moments.Ordered) (claims : call.claims)
    (passed : call.cleared moments = .ok ()) : moments.fencing.allows call.round .fencing := by
  obtain ⟨checked, registering⟩ := cleared_ok passed
  rcases check_ok checked with ⟨_, allowed⟩ | ⟨harmless, allowed⟩
  · exact allowed
  cases plain : call.registers with
  | false =>
    rw [changesPr_of_claims claims plain] at harmless
    cases harmless
  | true =>
    -- The round has left the fencing phase, so the second look cannot find it there.
    have fencing := registering plain
    rcases allowed with executing | serving
    · have back := Clocked.phase_forward (ordered.serving.trans ordered.register) executing fencing
      cases back
    · have back := Clocked.phase_forward ordered.register serving fencing
      cases back

end Call

open Clocked in
/-- A round that is closed, expired or overtaken stays so; a live round only moves forward; and the transport passes on
    no command that it looks at from then on, and no claim on the device that it looks at outside the fencing phase. -/
theorem ended_rounds_stay_ended :
    (∀ (w : Clocked) (closing round : UInt64), round ≤ closing → (w.step (.close closing)).Over round) ∧
    (∀ (w : Clocked) (next round : UInt64) (phase : Phase) (deadline : Nat), round < next →
      (w.permission.renew w.now next phase deadline).2 = true → (w.step (.renew next phase deadline)).Over round) ∧
    (∀ (w : Clocked) (g : Grant), w.permission.state = some g → g.deadline ≤ w.now → w.Over g.round) ∧
    (∀ (w after : Clocked) (round : UInt64), w.Over round → w.Later after →
      ∀ phase, after.allows round phase = false) ∧
    (∀ (w after : Clocked) (round : UInt64) (phase next : Phase), w.Later after → w.allows round phase →
      after.allows round next → phase.rank ≤ next.rank) ∧
    (∀ (call : Call) (moments : Passage), moments.Ordered → moments.fencing.Over call.round → call.cleared moments ≠ .ok ()) ∧
    (∀ (α : Type) (call : Call) (moments : Passage) (inner : Result α) (result : α), moments.Ordered →
      moments.fencingAfter.Over call.round → call.execute moments inner ≠ .ok result) ∧
    (∀ (call : Call) (moments : Passage), moments.Ordered → call.claims → moments.fencing.allows call.round .fencing = false →
      call.cleared moments ≠ .ok ()) := by
  refine ⟨?_, ?_, ?_, ?_, ?_, ?_, ?_, ?_⟩
  · intro w closing round reached
    exact Permission.Shut.over (shut_of_close reached) _
  · intro w next round phase deadline earlier granted
    exact over_of_renew earlier granted
  · intro w g held expired
    exact ⟨g, held, .inr ⟨rfl, .inr expired⟩⟩
  · intro w after round ended run phase
    exact forbids (ended.later run) phase
  · intro w after round phase next run before now
    exact phase_forward run before now
  · intro call moments ordered ended passed
    exact Call.check_over ordered.execution ordered.serving ended (Call.cleared_ok passed).1
  · intro α call moments inner result ordered ended passed
    obtain ⟨_, _, passed⟩ := Result.bind_ok.mp passed
    obtain ⟨_, _, passed⟩ := Result.bind_ok.mp passed
    obtain ⟨_, checked, _⟩ := Result.bind_ok.mp passed
    exact Call.check_over ordered.executionAfter ordered.servingAfter ended checked
  · intro call moments ordered claims outside passed
    rw [Call.claims_cleared ordered claims passed] at outside
    cases outside

/-- A WRITE that has been looked at reaches the device although its round has been closed meanwhile. -/
theorem write_reaches_device_after_close :
    ∃ (call : Call) (moments : Passage), moments.Ordered ∧ moments.submit.Over call.round ∧ call.cleared moments = .ok () := by
  let granted : Clocked := Clocked.step { now := 0 } (.renew 1 .serving 10)
  let closed : Clocked := granted.step (.close 1)
  have closing : granted.Later closed := .single ⟨.close 1, trivial, rfl⟩
  refine ⟨{ device := "sg0", round := 1, cdb := [0x0a], transfer := .write [0] },
    { fencing := granted, execution := granted, serving := granted, register := granted, submit := closed,
      fencingAfter := closed, executionAfter := closed, servingAfter := closed },
    ⟨.refl, .refl, .refl, closing, .refl, .refl, .refl⟩, ?_, by decide⟩
  exact Permission.Shut.over (shut_of_close (UInt64.le_refl _)) _

end TapeRs.Daemon
