import TapeRs.Daemon.Coordinator

namespace TapeRs.Daemon

open Coordinator List UInt64

variable {log : List Entry}

def Command.reporter? : Command → Option (UInt64 × UInt64)
  | executorReport node inst .. => some (node, inst)
  | _ => none

theorem ascending_take (ascending : Ascending 0 log) (count : Nat) : Ascending 0 (log.take count) := by
  rw [← take_append_drop count log] at ascending
  exact (ascending_append.mp ascending).1

theorem take_grows {count more : Nat} (grows : count ≤ more) :
    log.take more = log.take count ++ (log.drop count).take (more - count) := by
  rw [← take_add, Nat.add_sub_cancel' grows]

theorem accepted_lt (node inst round : UInt64) (ascending : Ascending 0 log) :
    (accepted node inst round log).length < size := by
  have numbers := (tally node inst round ascending).numbers
  cases shape : (accepted node inst round log).reverse with
  | nil =>
    rw [reverse_eq_nil_iff.mp shape]
    decide
  | cons last rest =>
    have ends : accepted node inst round log = rest.reverse ++ [last] := by
      rw [← reverse_reverse (accepted node inst round log), shape, reverse_cons]
    have top := congrArg getLast? numbers
    rw [ends] at top ⊢
    rw [length_append, length_singleton, range'_concat] at top
    simp only [map_append, map_cons, map_nil, getLast?_append, getLast?_singleton,
      Option.some_or, Option.some.injEq] at top
    have bound := last.1.toNat_lt
    have size : size = 2 ^ 64 := rfl
    simp only [length_append, length_singleton, length_reverse] at top ⊢
    omega

/-- The reports of one instance: the log, how much of it the instance has seen, and its queue. -/
structure Queue where
  id : UInt64
  inst : UInt64
  log : List Entry
  seen : Nat
  round : Option UInt64
  reportSequence : UInt64
  reports : List Command
  sent : List Command
  issued : List (UInt64 × Command)

namespace Queue

variable {round : UInt64} {count : Nat}

def past (q : Queue) : List Entry := q.log.take q.seen

def issuedIn (q : Queue) (round : UInt64) : List Command :=
  (q.issued.filter fun report => report.1 = round).map Prod.snd

def taken (q : Queue) (round : UInt64) : List (UInt64 × Command) := accepted q.id q.inst round q.log

def Runs (q : Queue) (round : UInt64) : Prop := (replay q.past).core.Runs q.id q.inst round

def Left (q : Queue) (round : UInt64) : Prop := round ≤ lastIndex 0 q.past ∧ ¬q.Runs round

def Full (q : Queue) (round : UInt64) : Prop := (q.taken round).length + 1 = UInt64.size

def commit (q : Queue) (entry : Entry) : Queue := { q with log := q.log ++ [entry] }

def learn (q : Queue) (count : Nat) : Queue := { q with seen := count }

def adopt (q : Queue) (own : Option UInt64) : Queue := { q with round := own, reportSequence := 0, reports := [] }

def prepare (q : Queue) (round : UInt64) (command : Command) : Queue :=
  { q with
    reportSequence := q.reportSequence + 1
    reports := [.executorReport q.id q.inst round (q.reportSequence + 1) command]
    issued := q.issued ++ [(round, command)] }

def send (q : Queue) (cmd : Command) : Queue := { q with sent := q.sent ++ [cmd] }

def settle (q : Queue) : Queue :=
  { q with reports := q.reports.dropWhile (Coordinator.settled (replay q.past)) }

structure Sound (q : Queue) : Prop where
  ascending : Ascending 0 q.log
  seen : q.seen ≤ q.log.length
  begun : ∀ round, q.round = some round → round ≤ lastIndex 0 q.past
  left : ∀ round, q.issuedIn round ≠ [] → q.round = some round ∨ q.Left round
  sequence : ∀ round, q.round = some round → q.reportSequence = UInt64.ofNat (q.issuedIn round).length
  reports : q.reports = [] ∨ ∃ round command, q.round = some round ∧
    q.reports = [.executorReport q.id q.inst round q.reportSequence command] ∧
    (q.issuedIn round).getLast? = some command
  sent : ∀ cmd ∈ q.sent, cmd.reporter? = some (q.id, q.inst) → ∃ round place command,
    cmd = .executorReport q.id q.inst round (UInt64.ofNat (place + 1)) command ∧
    (q.issuedIn round)[place]? = some command
  logged : ∀ entry ∈ q.log, entry.2.reporter? = some (q.id, q.inst) → entry.2 ∈ q.sent
  accepted : ∀ round, (q.taken round).map Prod.snd <+: q.issuedIn round
  window : ∀ round, (q.issuedIn round).length ≤ (q.taken round).length + 1 ∨ q.Full round
  free : ∀ round, q.round = some round → q.reports = [] → q.Runs round →
    (q.issuedIn round).length ≤ (q.taken round).length ∨ q.Full round

variable {q : Queue}

theorem taken_commit (q : Queue) (entry : Entry) (round : UInt64) :
    (q.commit entry).taken round =
      q.taken round ++ (acceptedReport q.id q.inst round (entry, outcome q.log entry)).toList :=
  accepted_snoc ..

theorem issuedIn_prepare (q : Queue) (round other : UInt64) (command : Command) :
    (q.prepare round command).issuedIn other = q.issuedIn other ++ if round = other then [command] else [] := by
  by_cases same : round = other
  · simp [issuedIn, prepare, same]
  · simp [issuedIn, prepare, same]

@[simp] theorem taken_prepare (q : Queue) (round other : UInt64) (command : Command) :
    (q.prepare round command).taken other = q.taken other := rfl

variable (sound : q.Sound)
include sound

theorem Sound.past_ascending : Ascending 0 q.past := ascending_take sound.ascending _

theorem Sound.past_commit (entry : Entry) : (q.commit entry).past = q.past :=
  take_append_of_le_length sound.seen

theorem Sound.next_issued {number : UInt64} {command : Command}
    (known : .executorReport q.id q.inst round number command ∈ q.sent)
    (next : number.toNat = (q.taken round).length + 1) :
    (q.issuedIn round)[(q.taken round).length]? = some command := by
  obtain ⟨_, place, _, shape, there⟩ := sound.sent _ known rfl
  cases shape
  obtain ⟨inside, _⟩ := List.getElem?_eq_some_iff.mp there
  have room := (ofNat (place + 1)).toNat_lt
  have size : size = 2 ^ 64 := rfl
  have short : (q.issuedIn round).length ≤ (q.taken round).length + 1 := by
    rcases sound.window round with short | full
    · exact short
    · unfold Full at full
      omega
  have here : place = (q.taken round).length := by
    rw [toNat_ofNat', Nat.mod_eq_of_lt (by omega)] at next
    omega
  rw [← here]
  exact there

theorem Sound.taken_next {entry : Entry} {number : UInt64} {command : Command}
    (origin : entry.2.reporter? = some (q.id, q.inst) → entry.2 ∈ q.sent)
    (taking : acceptedReport q.id q.inst round (entry, outcome q.log entry) = some (number, command)) :
    (q.issuedIn round)[(q.taken round).length]? = some command := by
  obtain ⟨reported, held, next⟩ := (replay_shift q.log entry).accepted taking
  have count := (tally q.id q.inst round sound.ascending).count held
  have known : entry.2 ∈ q.sent := origin (by rw [reported]; rfl)
  rw [reported] at known
  exact sound.next_issued known (next.trans (congrArg (· + 1) count))

theorem Sound.commit {entry : Entry} (later : lastIndex 0 q.log < entry.1)
    (origin : entry.2.reporter? = some (q.id, q.inst) → entry.2 ∈ q.sent) : (q.commit entry).Sound := by
  have past := sound.past_commit entry
  have grown : ∀ round, q.taken round <+: (q.commit entry).taken round :=
    fun round => accepted_grows ..
  have ascending : Ascending 0 (q.log ++ [entry]) := ascending_append.mpr ⟨sound.ascending, later, trivial⟩
  have full : ∀ round, q.Full round → (q.commit entry).Full round := by
    intro round full
    have more := (grown round).length_le
    have bound := accepted_lt q.id q.inst round ascending
    have within : ((q.commit entry).taken round).length < size := bound
    unfold Full at full ⊢
    omega
  refine { sound with
    ascending, seen := ?_, begun := ?_, left := ?_, logged := ?_, accepted := ?_, window := ?_, free := ?_ }
  · have longer : q.seen ≤ (q.log ++ [entry]).length := by simpa using Nat.le_succ_of_le sound.seen
    exact longer
  · rw [past]
    exact sound.begun
  · unfold Left Runs
    rw [past]
    exact sound.left
  · intro other member
    rcases mem_append.mp member with old | new
    · exact sound.logged other old
    · rw [mem_singleton.mp new]
      exact origin
  · intro round
    cases taking : acceptedReport q.id q.inst round (entry, outcome q.log entry) with
    | none =>
      rw [q.taken_commit, taking, Option.toList_none, append_nil]
      exact sound.accepted round
    | some report =>
      have next := sound.taken_next origin taking
      obtain ⟨rest, split⟩ := sound.accepted round
      rw [← split, getElem?_append_right (by simp)] at next
      simp only [length_map, Nat.sub_self] at next
      cases rest with
      | nil => cases next
      | cons head tail =>
        simp only [getElem?_cons_zero, Option.some.injEq] at next
        refine ⟨tail, ?_⟩
        rw [q.taken_commit, taking, Option.toList_some, map_append, append_assoc, map_singleton, ← next]
        exact split
  · intro round
    rcases sound.window round with short | used
    · exact .inl (short.trans (Nat.succ_le_succ (grown round).length_le))
    · exact .inr (full round used)
  · intro round current empty runs
    unfold Runs at runs
    rw [past] at runs
    rcases sound.free round current empty runs with short | used
    · exact .inl (short.trans (grown round).length_le)
    · exact .inr (full round used)

theorem Sound.runs_before (grows : q.seen ≤ count) (runs : (q.learn count).Runs round)
    (old : round ≤ lastIndex 0 q.past) : q.Runs round := by
  have more : (q.learn count).past = q.past ++ (q.log.drop q.seen).take (count - q.seen) := take_grows grows
  have ascending := ascending_take sound.ascending count
  unfold Runs at runs
  rw [more] at runs
  rw [take_grows grows] at ascending
  exact runs.earlier ascending old

theorem Sound.past_grows (grows : q.seen ≤ count) : lastIndex 0 q.past ≤ lastIndex 0 (q.learn count).past := by
  have ascending := ascending_take sound.ascending count
  have more : (q.learn count).past = q.past ++ (q.log.drop q.seen).take (count - q.seen) := take_grows grows
  rw [take_grows grows] at ascending
  rw [more, lastIndex_append]
  exact lastIndex_le (ascending_append.mp ascending).2

theorem Sound.left_learn (grows : q.seen ≤ count) (left : q.Left round) : (q.learn count).Left round :=
  ⟨UInt64.le_trans left.1 (sound.past_grows grows), fun runs => left.2 (sound.runs_before grows runs left.1)⟩

theorem Sound.learn (grows : q.seen ≤ count) (known : count ≤ q.log.length) : (q.learn count).Sound := by
  refine { sound with seen := known, begun := ?_, left := ?_, free := ?_ }
  · intro round current
    exact UInt64.le_trans (sound.begun round current) (sound.past_grows grows)
  · intro round some
    rcases sound.left round some with current | left
    · exact .inl current
    · exact .inr (sound.left_learn grows left)
  · intro round current empty runs
    exact sound.free round current empty (sound.runs_before grows runs (sound.begun round current))

theorem Sound.left_of_adopt {own : Option UInt64} (owns : ∀ round, own = some round ↔ q.Runs round)
    (changed : own ≠ q.round) (current : q.round = some round) : q.Left round := by
  refine ⟨sound.begun round current, ?_⟩
  intro runs
  exact changed (((owns round).mpr runs).trans current.symm)

theorem Sound.adopt {own : Option UInt64} (owns : ∀ round, own = some round ↔ q.Runs round) (changed : own ≠ q.round) :
    (q.adopt own).Sound := by
  have left : ∀ round, q.issuedIn round ≠ [] → q.Left round := by
    intro round some
    rcases sound.left round some with current | left
    · exact sound.left_of_adopt owns changed current
    · exact left
  have fresh : ∀ round, own = some round → q.issuedIn round = [] := by
    intro round mine
    by_contra some
    exact (left round some).2 ((owns round).mp mine)
  refine { sound with
    begun := ?_, left := fun round some => .inr (left round some), sequence := ?_, reports := .inl rfl, free := ?_ }
  · intro round mine
    have runs := (owns round).mp mine
    exact runs.le_lastIndex sound.past_ascending
  · intro round mine
    have none : (q.adopt own).issuedIn round = [] := fresh round mine
    rw [none]
    rfl
  · intro round mine _ _
    have none : (q.adopt own).issuedIn round = [] := fresh round mine
    rw [none]
    exact .inl (Nat.zero_le _)

theorem Sound.prepare (command : Command) (current : q.round = some round) (empty : q.reports = [])
    (runs : q.Runs round) : (q.prepare round command).Sound := by
  have grown := fun other => q.issuedIn_prepare round other command
  refine { sound with
    left := ?_, sequence := ?_, reports := ?_, sent := ?_, accepted := ?_, window := ?_, free := nofun }
  · intro other some
    by_cases same : round = other
    · exact .inl (same ▸ current)
    · rw [grown, if_neg same, append_nil] at some
      exact sound.left other some
  · intro other mine
    have same : round = other := Option.some.inj (current.symm.trans mine)
    have count : q.reportSequence = ofNat (q.issuedIn other).length := sound.sequence other mine
    rw [grown, if_pos same, length_append, ofNat_add, ← count]
    rfl
  · refine .inr ⟨round, command, current, rfl, ?_⟩
    rw [grown, if_pos rfl]
    simp
  · intro cmd member mine
    obtain ⟨other, place, inner, shape, there⟩ := sound.sent cmd member mine
    refine ⟨other, place, inner, shape, ?_⟩
    rw [grown]
    obtain ⟨inside, _⟩ := List.getElem?_eq_some_iff.mp there
    rw [getElem?_append_left inside]
    exact there
  · intro other
    rw [grown]
    exact (sound.accepted other).trans (prefix_append ..)
  · intro other
    rw [grown, length_append]
    by_cases same : round = other
    · subst same
      rcases sound.free round current empty runs with short | full
      · exact .inl (by simpa using short)
      · exact .inr full
    · rw [if_neg same]
      exact sound.window other

theorem Sound.send {cmd : Command} (origin : cmd ∈ q.reports ∨ cmd.reporter? ≠ some (q.id, q.inst)) :
    (q.send cmd).Sound := by
  refine { sound with sent := ?_, logged := ?_ }
  · intro other member mine
    rcases mem_append.mp member with old | new
    · exact sound.sent other old mine
    rw [mem_singleton.mp new] at mine ⊢
    rcases origin with queued | foreign
    · rcases sound.reports with none | ⟨round, command, current, shape, last⟩
      · rw [none] at queued
        cases queued
      rw [shape, mem_singleton] at queued
      rw [getLast?_eq_getElem?] at last
      obtain ⟨inside, _⟩ := List.getElem?_eq_some_iff.mp last
      refine ⟨round, (q.issuedIn round).length - 1, command, ?_, last⟩
      have whole : (q.issuedIn round).length - 1 + 1 = (q.issuedIn round).length := by omega
      rw [whole, ← sound.sequence round current]
      exact queued
    · exact absurd mine foreign
  · intro entry member mine
    exact mem_append_left _ (sound.logged entry member mine)

theorem Sound.settle : q.settle.Sound := by
  unfold Queue.settle
  rcases sound.reports with none | ⟨round, command, current, shape, last⟩
  · have same : q.reports.dropWhile (settled (replay q.past)) = q.reports := by rw [none]; rfl
    rw [same]
    exact sound
  by_cases done : q.reportSequence ≤ (replay q.past).executorReportSequence
  · have gone : q.reports.dropWhile (settled (replay q.past)) = [] := by
      rw [shape]
      simp [settled, done]
    rw [gone]
    refine { sound with reports := .inl rfl, free := ?_ }
    intro other mine _ runs
    have count := (tally q.id q.inst other sound.past_ascending).count runs
    have seen : (TapeRs.Daemon.accepted q.id q.inst other q.past).length ≤ (q.taken other).length := by
      have grows := accepted_grows q.id q.inst other q.past (q.log.drop q.seen)
      unfold past at grows
      rw [take_append_drop] at grows
      exact grows.length_le
    rw [sound.sequence other mine, le_iff_toNat_le, toNat_ofNat'] at done
    have counted : (replay q.past).executorReportSequence.toNat = (TapeRs.Daemon.accepted q.id q.inst other q.past).length := count
    rcases sound.window other with short | full
    · have bound := accepted_lt q.id q.inst other sound.ascending
      by_cases small : (q.issuedIn other).length < 2 ^ 64
      · rw [Nat.mod_eq_of_lt small] at done
        exact .inl (by show (q.issuedIn other).length ≤ (q.taken other).length; omega)
      refine .inr ?_
      show (q.taken other).length + 1 = size
      unfold taken at short ⊢
      have size : size = 2 ^ 64 := rfl
      omega
    · exact .inr full
  · have same : q.reports.dropWhile (settled (replay q.past)) = q.reports := by
      rw [shape]
      simp [settled, done]
    rw [same]
    exact sound

end Queue

end TapeRs.Daemon
