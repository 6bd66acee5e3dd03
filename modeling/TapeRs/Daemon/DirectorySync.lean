import TapeRs.Daemon.DirectoryLoop

namespace TapeRs.Daemon

open Word Node Result List

section Log

variable {log : List Entry} {last index : UInt64} {entry : Entry}

theorem Ascending.mem_lt (ascending : Ascending last log) (member : entry ∈ log) : last < entry.1 := by
  induction log generalizing last with
  | nil => cases member
  | cons first rest ih =>
    rcases mem_cons.mp member with rfl | later
    · exact ascending.1
    · exact UInt64.lt_trans ascending.1 (ih ascending.2 later)

theorem Ascending.filter (ascending : Ascending last log) (p : Entry → Bool) : Ascending last (log.filter p) := by
  induction log generalizing last with
  | nil => exact trivial
  | cons first rest ih =>
    rw [filter_cons]
    split
    · exact ⟨ascending.1, ih ascending.2⟩
    have later := ih ascending.2
    cases kept : rest.filter p with
    | nil => trivial
    | cons next more =>
      rw [kept] at later
      exact ⟨UInt64.lt_trans ascending.1 later.1, later.2⟩

theorem Ascending.upTo (ascending : Ascending last log) (index : UInt64) : Ascending last (upTo log index) :=
  ascending.filter _

theorem mem_upTo : entry ∈ upTo log index ↔ entry ∈ log ∧ entry.1 ≤ index := by
  simp [upTo]

theorem mem_between {first : UInt64} :
    entry ∈ between log first last ↔ entry ∈ log ∧ first < entry.1 ∧ entry.1 ≤ last := by
  simp [between]

theorem upTo_append {first : UInt64} (ascending : Ascending last log) (le : first ≤ index) :
    upTo log index = upTo log first ++ between log first index := by
  induction log generalizing last with
  | nil => rfl
  | cons entry rest ih =>
    have rest' := ih ascending.2
    unfold upTo between at rest' ⊢
    by_cases low : entry.1 ≤ first
    · have inside : entry.1 ≤ index := UInt64.le_trans low le
      have below : ¬first < entry.1 := UInt64.not_lt.mpr low
      simp [low, inside, below, rest']
    have above := UInt64.not_le.mp low
    have none' : rest.filter (fun entry => decide (entry.1 ≤ first)) = [] := by
      rw [filter_eq_nil_iff]
      intro later member
      have beyond := UInt64.lt_trans above (ascending.2.mem_lt member)
      simpa using beyond
    rw [none'] at rest'
    by_cases inside : entry.1 ≤ index
    · simpa [low, above, inside, none'] using rest'
    · simpa [low, inside, none'] using rest'

theorem between_append {a b c : UInt64} (ascending : Ascending last log) (ab : a ≤ b) (bc : b ≤ c) :
    between log a c = between log a b ++ between log b c := by
  have whole := upTo_append ascending (UInt64.le_trans ab bc)
  rw [upTo_append ascending bc, upTo_append ascending ab, append_assoc] at whole
  exact (append_cancel_left whole).symm

theorem lastIndex_upTo_le (log : List Entry) (low : last ≤ index) : lastIndex last (upTo log index) ≤ index := by
  have inside : ∀ (entries : List Entry) (start : UInt64), start ≤ index → (∀ e ∈ entries, e.1 ≤ index) →
      lastIndex start entries ≤ index := by
    intro entries
    induction entries with
    | nil => exact fun _ low _ => low
    | cons entry rest ih =>
      intro start _ all
      exact ih entry.1 (all entry mem_cons_self) fun e member => all e (mem_cons_of_mem _ member)
  exact inside _ last low fun e member => (mem_upTo.mp member).2

theorem Ascending.le_lastIndex (ascending : Ascending last log) (member : entry ∈ log) :
    entry.1 ≤ lastIndex last log := by
  induction log generalizing last with
  | nil => cases member
  | cons first rest ih =>
    rcases mem_cons.mp member with rfl | later
    · exact lastIndex_le ascending.2
    · exact ih ascending.2 later

end Log

namespace Directory

theorem apply_skip {d : Directory} {index : UInt64} (known : index ≤ d.applied) (plan : Plan) (cmd : Command)
    (outcome : Applied) : d.apply plan index cmd outcome = .ok d := by
  rw [apply_unwrap]
  unfold applyDirect
  rw [if_pos known]

end Directory

namespace Node

variable {plan : UInt64 → Plan}

theorem replay_append (before more : List Entry) :
    replay plan (before ++ more) = (replay plan before >>= fun n => more.foldlM (apply plan) n) := by
  simp [replay]

theorem replay_part {before more : List Entry} (whole : ∃ n, replay plan (before ++ more) = .ok n) :
    ∃ n, replay plan before = .ok n := by
  obtain ⟨n, ran⟩ := whole
  rw [replay_append] at ran
  obtain ⟨prior, first, _⟩ := bind_ok.mp ran
  exact ⟨prior, first⟩

end Node

namespace Loop

variable {plan : UInt64 → Plan} {log : List Entry} {l : Loop} {d : Directory} {index last : UInt64}

abbrev Projected (plan : UInt64 → Plan) (log : List Entry) : Prop := ∃ n, Node.replay plan log = .ok n

theorem Projected.upTo (projected : Projected plan log) (ascending : Ascending 0 log) (index : UInt64) :
    ∃ n, Node.replay plan (upTo log index) = .ok n ∧ n.ctl = replay (Daemon.upTo log index) ∧
      n.directory.applied = lastIndex 0 (Daemon.upTo log index) := by
  have top : Daemon.upTo log 0xFFFFFFFFFFFFFFFF = log := by
    rw [Daemon.upTo, filter_eq_self]
    intro entry _
    rw [decide_eq_true_eq, UInt64.le_iff_toNat_le]
    exact Nat.le_of_lt_succ entry.1.toNat_lt
  have all : index ≤ 0xFFFFFFFFFFFFFFFF := by
    rw [UInt64.le_iff_toNat_le]
    exact Nat.le_of_lt_succ index.toNat_lt
  have split := upTo_append ascending all
  rw [top] at split
  rw [split] at projected
  obtain ⟨n, ran⟩ := Node.replay_part projected
  obtain ⟨ctl, applied⟩ := Node.replay_ok (ascending.upTo _) ran
  exact ⟨n, ran, ctl, applied⟩

theorem Exact.same {first : UInt64} (exact' : Exact plan log d first)
    (same : Daemon.upTo log index = Daemon.upTo log first) : Exact plan log d index := by
  unfold Exact
  rw [same]
  exact exact'

theorem replayEntries_skip {known rest : List Entry} (old : ∀ entry ∈ known, entry.1 ≤ d.applied)
    (shadow : ControlState) : replayEntries plan shadow d (known ++ rest) =
      replayEntries plan (known.foldl (fun c entry => (c.apply entry.1 entry.2).1) shadow) d rest := by
  induction known generalizing shadow with
  | nil => rfl
  | cons entry more ih =>
    rw [cons_append, replayEntries, Directory.apply_skip (old entry mem_cons_self)]
    exact ih (fun other member => old other (mem_cons_of_mem _ member)) _

theorem replayEntries_ok {entries : List Entry} {n last : Node} (ran : entries.foldlM (apply plan) n = .ok last) :
    replayEntries plan n.ctl n.directory entries = last.directory := by
  induction entries generalizing n with
  | nil =>
    cases ran
    rfl
  | cons entry rest ih =>
    rw [foldlM_cons] at ran
    obtain ⟨next, done, further⟩ := bind_ok.mp ran
    obtain ⟨ctl, written⟩ := apply_ok done
    rw [replayEntries, written, ← ih further, ctl]

section Exact

variable (ascending : Ascending 0 log)
include ascending

theorem Exact.applied_le (exact' : Exact plan log d index) : d.applied ≤ index := by
  obtain ⟨n, ran, rfl⟩ := exact'
  rw [(replay_ok (ascending.upTo _) ran).2]
  exact lastIndex_upTo_le log (UInt64.le_iff_toNat_le.mpr (Nat.zero_le _))

theorem Exact.upTo_eq (exact' : Exact plan log d last) (reached : d.applied ≤ index) (low : index ≤ last) :
    Daemon.upTo log index = Daemon.upTo log last := by
  obtain ⟨n, ran, rfl⟩ := exact'
  have applied := (replay_ok (ascending.upTo _) ran).2
  have none' : between log index last = [] := by
    rw [eq_nil_iff_forall_not_mem]
    intro entry member
    obtain ⟨inside, after, before⟩ := mem_between.mp member
    have bound := (ascending.upTo last).le_lastIndex (mem_upTo.mpr ⟨inside, before⟩)
    rw [← applied] at bound
    exact absurd after (UInt64.not_lt.mpr (UInt64.le_trans bound reached))
  rw [upTo_append ascending low, none', append_nil]

theorem Exact.lower (exact' : Exact plan log d last) (reached : d.applied ≤ index) (low : index ≤ last) :
    Exact plan log d index :=
  exact'.same (exact'.upTo_eq ascending reached low)

theorem Exact.settle {applied : UInt64} (exact' : Exact plan log d last) (low : applied ≤ last) :
    Exact plan log d (max applied d.applied) := by
  rcases UInt64.le_total applied d.applied with below | above
  · rw [max_eq_right below]
    exact exact'.lower ascending (UInt64.le_refl _) (exact'.applied_le ascending)
  · rw [max_eq_left above]
    exact exact'.lower ascending above low

theorem replayInto_exact (projected : Projected plan log) {file : Directory} {start : UInt64}
    (exact' : Exact plan log file index) (reported : file.applied = index) (reached : start ≤ index)
    (kept : l.firstIndex.toNat ≤ start.toNat + 1) :
    Exact plan log (l.replayInto plan log start (replay (Daemon.upTo log start)) file) (max l.applied index) := by
  have available : ¬(l.applied ≤ start) → ¬start + 1 < l.firstIndex := by
    intro behind
    have bound := l.applied.toNat_lt
    rw [UInt64.not_le, UInt64.lt_iff_toNat_lt] at behind
    rw [UInt64.lt_iff_toNat_lt, UInt64.toNat_add, Nat.mod_eq_of_lt (by simp; omega)]
    simp
    omega
  unfold replayInto
  by_cases behind : l.applied ≤ start
  · rw [if_pos behind, max_eq_right (UInt64.le_trans behind reached)]
    exact exact'
  rw [if_neg behind, if_neg (available behind)]
  rcases UInt64.le_total l.applied index with ahead | short
  · -- The directory has everything already.
    have known : ∀ entry ∈ between log start l.applied, entry.1 ≤ file.applied := by
      intro entry member
      rw [reported]
      exact UInt64.le_trans (mem_between.mp member).2.2 ahead
    have skipped : replayEntries plan (replay (Daemon.upTo log start)) file (between log start l.applied ++ []) = _ :=
      replayEntries_skip known _
    rw [append_nil] at skipped
    rw [skipped, max_eq_right ahead]
    exact exact'
  · have known : ∀ entry ∈ between log start index, entry.1 ≤ file.applied := by
      intro entry member
      rw [reported]
      exact (mem_between.mp member).2.2
    obtain ⟨n, ran, same⟩ := exact'
    obtain ⟨last, whole, _, _⟩ := projected.upTo ascending l.applied
    have ctl := (replay_ok (ascending.upTo _) ran).1
    rw [upTo_append ascending short, Node.replay_append, ran] at whole
    rw [max_eq_left short, between_append ascending reached short, replayEntries_skip known, ← replay_append,
      ← upTo_append ascending reached, ← ctl, ← same, replayEntries_ok whole]
    refine ⟨last, ?_, rfl⟩
    rw [upTo_append ascending short, Node.replay_append, ran]
    exact whole

end Exact

/-- What holds of the loop at any time. -/
structure Sound (plan : UInt64 → Plan) (log : List Entry) (l : Loop) : Prop where
  control : l.ctl = replay (Daemon.upTo log l.applied)
  idle : l.directoryPending = none → Exact plan log l.directory (max l.applied l.directory.applied)
  waiting : ∀ source want, l.directoryPending = some (source, want) → ∃ start,
    l.snapshotCtl = some (start, replay (Daemon.upTo log start)) ∧ start ≤ want ∧
      l.firstIndex.toNat ≤ start.toNat + 1
  fetching : l.fetchRunning.isSome → l.directoryPending.isSome

theorem Starts.sound (starts : Starts plan log l) : Sound plan log l := by
  refine ⟨starts.control, fun _ => starts.exact', ?_, ?_⟩
  · intro source want pending
    rw [starts.idle] at pending
    cases pending
  · intro running
    rw [starts.quiet] at running
    cases running

theorem onSnapshot_sound {snap : ControlSnapshot} (later : l.applied < snap.index)
    (control : snap.control = replay (Daemon.upTo log snap.index)) (covered : snap.index ≤ snap.directoryIndex) :
    Sound plan log (l.onSnapshot snap) := by
  have filled : 0 < snap.directoryIndex := by
    rw [UInt64.lt_iff_toNat_lt] at later ⊢
    rw [UInt64.le_iff_toNat_le] at covered
    exact Nat.lt_of_le_of_lt (Nat.zero_le _) (Nat.lt_of_lt_of_le later covered)
  unfold onSnapshot
  rw [if_pos filled]
  refine ⟨control, nofun, ?_, fun _ => rfl⟩
  rintro _ _ ⟨⟩
  refine ⟨snap.index, by rw [← control], covered, ?_⟩
  dsimp only
  rw [UInt64.toNat_add]
  exact Nat.mod_le _ _

theorem onCompact_sound (sound : Sound plan log l) : Sound plan log l.onCompact := by
  unfold onCompact
  split
  · rename_i idle
    split
    · refine ⟨sound.control, sound.idle, ?_, sound.fetching⟩
      intro source want pending
      rw [Bool.and_eq_true] at idle
      rw [pending] at idle
      cases idle.2
    · exact sound
  · exact sound

section Commit

variable {index : UInt64} {command : Option Command}

variable (ascending : Ascending 0 log)
include ascending

theorem upTo_commit (later : l.applied < index)
    (next : between log l.applied index = command.toList.map fun cmd => (index, cmd)) :
    Daemon.upTo log index = Daemon.upTo log l.applied ++ command.toList.map fun cmd => (index, cmd) := by
  rw [upTo_append ascending (UInt64.le_of_lt later), next]

theorem upTo_ahead (next : between log l.applied index = command.toList.map fun cmd => (index, cmd))
    (behind : l.directory.applied < index) :
    Daemon.upTo log (max l.applied l.directory.applied) = Daemon.upTo log l.applied := by
  rcases UInt64.le_total l.directory.applied l.applied with low | high
  · rw [max_eq_left low]
  rw [max_eq_right high, upTo_append ascending high]
  have none' : between log l.applied l.directory.applied = [] := by
    rw [eq_nil_iff_forall_not_mem]
    intro entry member
    obtain ⟨inside, after, before⟩ := mem_between.mp member
    have found : entry ∈ between log l.applied index :=
      mem_between.mpr ⟨inside, after, UInt64.le_trans before (UInt64.le_of_lt behind)⟩
    rw [next] at found
    obtain ⟨cmd, _, rfl⟩ := mem_map.mp found
    exact absurd behind (UInt64.not_lt.mpr before)
  rw [none', append_nil]

variable (projected : Projected plan log) (sound : Sound plan log l)
include projected sound

theorem onCommit_sound (later : l.applied < index)
    (next : between log l.applied index = command.toList.map fun cmd => (index, cmd)) :
    ∃ after, l.onCommit plan index command = .ok after ∧ Sound plan log after := by
  have grown := upTo_commit ascending later next
  have top : max l.applied index = index := max_eq_right (UInt64.le_of_lt later)
  -- An entry that the directory has already changes nothing there.
  have known : index ≤ l.directory.applied → max index l.directory.applied = max l.applied l.directory.applied := by
    intro old
    rw [max_eq_right old, max_eq_right (UInt64.le_trans (UInt64.le_of_lt later) old)]
  cases command with
  | none =>
    refine ⟨_, rfl, ?_, ?_, sound.waiting, sound.fetching⟩
    · dsimp only
      rw [top, grown]
      simpa using sound.control
    · intro idle
      dsimp only
      rw [top]
      by_cases old : index ≤ l.directory.applied
      · rw [known old]
        exact sound.idle idle
      have behind := UInt64.not_le.mp old
      refine (sound.idle idle).same ?_
      rw [max_eq_left (UInt64.le_of_lt behind), upTo_ahead ascending next behind, grown]
      simp
  | some cmd =>
    have control : (l.ctl.apply index cmd).1 = replay (Daemon.upTo log (max l.applied index)) := by
      rw [top, grown, replay_append, sound.control]
      rfl
    cases pending : l.directoryPending with
    | some wanted =>
      refine ⟨{ l with ctl := (l.ctl.apply index cmd).1, applied := max l.applied index }, ?_, control, ?_, sound.waiting,
        sound.fetching⟩
      · simp [onCommit, pending, bind, Except.bind]
      · intro idle
        rw [pending] at idle
        cases idle
    | none =>
      have exact' := sound.idle pending
      by_cases old : index ≤ l.directory.applied
      · refine ⟨{ l with ctl := (l.ctl.apply index cmd).1, applied := max l.applied index }, ?_, control, ?_, sound.waiting,
          sound.fetching⟩
        · simp [onCommit, pending, Directory.apply_skip old, bind, Except.bind]
        · intro _
          dsimp only
          rw [top, known old]
          exact exact'
      · have behind := UInt64.not_le.mp old
        obtain ⟨n, ran, same⟩ := exact'
        obtain ⟨after, whole, _, _⟩ := projected.upTo ascending index
        have part := upTo_ahead ascending next behind
        have ctl := (replay_ok (ascending.upTo _) ran).1
        rw [part] at ran ctl
        have whole' := whole
        rw [grown] at whole'
        change Node.replay plan (Daemon.upTo log l.applied ++ [(index, cmd)]) = _ at whole'
        rw [replay_snoc, ran] at whole'
        obtain ⟨_, written⟩ := apply_ok whole'
        rw [same, ctl, ← sound.control] at written
        dsimp only at written
        have reached : after.directory.applied ≤ index := Exact.applied_le ascending ⟨after, whole, rfl⟩
        refine ⟨{ l with ctl := (l.ctl.apply index cmd).1, directory := after.directory, applied := max l.applied index },
          ?_, control, ?_, sound.waiting, sound.fetching⟩
        · simp [onCommit, pending, written, bind, Except.bind]
        · intro _
          dsimp only
          rw [top, max_eq_left reached]
          exact ⟨after, whole, rfl⟩

theorem onFetched_sound {result : Option (UInt64 × Directory)} (running : l.fetchRunning.isSome)
    (fits : ∀ index file, result = some (index, file) → Exact plan log file index ∧ file.applied = index ∧ ∀ source want, l.directoryPending = some (source, want) → want ≤ index)
    (installed : Bool) : Sound plan log (l.onFetched plan log result installed) := by
  obtain ⟨⟨source, want⟩, pending⟩ := Option.isSome_iff_exists.mp (sound.fetching running)
  obtain ⟨start, base, wanted, kept⟩ := sound.waiting source want pending
  have waits : ∀ d : Directory, Sound plan log { l with fetchRunning := none, directory := d } := by
    intro d
    refine ⟨sound.control, ?_, sound.waiting, nofun⟩
    intro idle
    rw [pending] at idle
    cases idle
  cases result with
  | none => exact waits l.directory
  | some result =>
    obtain ⟨index, file⟩ := result
    obtain ⟨exact', reported, asked⟩ := fits index file rfl
    cases installed with
    | false => exact waits {}
    | true =>
      have same : file.install index = file := by
        rw [Directory.install, if_neg]
        rw [reported]
        exact UInt64.lt_irrefl _
      have reached := UInt64.le_trans wanted (asked source want pending)
      have brought := replayInto_exact (l := { l with fetchRunning := none }) ascending projected exact' reported reached kept
      have low : l.applied ≤ max l.applied index := by
        rcases UInt64.le_total l.applied index with ahead | behind
        · rw [max_eq_right ahead]
          exact ahead
        · rw [max_eq_left behind]
          exact UInt64.le_refl _
      simp only [onFetched, base, same, if_true]
      exact ⟨sound.control, fun _ => brought.settle ascending low, nofun, nofun⟩

theorem step_sound {event : LoopEvent} (fits : Fits plan log directoryPending (some l) event) :
    ∃ after, step plan log (some l) event = some after ∧ Sound plan log after := by
  cases event with
  | commit index command =>
    obtain ⟨after, done, next⟩ := onCommit_sound ascending projected sound fits.1 fits.2
    exact ⟨after, by rw [step, done]; rfl, next⟩
  | snapshot snap => exact ⟨_, rfl, onSnapshot_sound fits.1 fits.2.1 fits.2.2⟩
  | fetch =>
    cases pending : l.directoryPending with
    | none => exact ⟨l, by simp [step, pending], sound⟩
    | some wanted =>
      cases running : l.fetchRunning with
      | none =>
        refine ⟨{ l with fetchRunning := some wanted }, by simp [step, pending, running], sound.control, sound.idle,
          sound.waiting, fun _ => ?_⟩
        dsimp only
        rw [pending]
        rfl
      | some other => exact ⟨l, by simp [step, pending, running], sound⟩
  | fetched result installed => exact ⟨_, rfl, onFetched_sound ascending projected sound fits.1 fits.2 installed⟩
  | compact => exact ⟨_, rfl, onCompact_sound sound⟩

end Commit

theorem takeSnapshot_fits (ascending : Ascending 0 log) (sound : Sound plan log l) (idle : l.directoryPending = none)
    {snap : ControlSnapshot} (taken : l.takeSnapshot = some snap) :
    snap.control = replay (Daemon.upTo log snap.index) ∧ snap.index ≤ snap.directoryIndex ∧
      Exact plan log l.directory snap.directoryIndex := by
  have exact' := sound.idle idle
  have short := exact'.applied_le ascending
  unfold takeSnapshot at taken
  dsimp only at taken
  split at taken
  · cases taken
  cases taken
  refine ⟨?_, ?_, exact'.lower ascending (UInt64.le_refl _) short⟩
  · dsimp only
    rcases UInt64.le_total l.applied l.directory.applied with low | high
    · rw [min_eq_left low]
      exact sound.control
    · rw [max_eq_left high] at exact'
      rw [min_eq_right high, exact'.upTo_eq ascending (UInt64.le_refl _) high]
      exact sound.control
  · dsimp only
    rcases UInt64.le_total l.applied l.directory.applied with low | high
    · rw [min_eq_left low]
      exact low
    · rw [min_eq_right high]
      exact UInt64.le_refl _

def threePools : List Entry := [(1, .poolCreate "u1" "a" 10), (2, .poolCreate "u2" "b" 10), (3, .poolCreate "u3" "c" 10)]

def served (index : UInt64) : Directory :=
  ((Node.replay (fun _ => .inOrder) (Daemon.upTo threePools index)).toOption.map Node.directory).getD {}

def snapshotAt (index : UInt64) : ControlSnapshot :=
  { index, control := replay (Daemon.upTo threePools index), source := 2, directoryIndex := index }

theorem served_exact
    (ran : passes (Node.replay (fun _ => .inOrder) (Daemon.upTo threePools index)) fun _ => true) :
    Exact (fun _ => .inOrder) threePools (served index) index := by
  obtain ⟨n, ran, _⟩ := passes_iff.mp ran
  exact ⟨n, ran, by rw [served, ran]; rfl⟩

def fetchesInTime : List LoopEvent :=
  [.snapshot (snapshotAt 1), .fetch, .commit 2 (some (.poolCreate "u2" "b" 10)), .fetched (some (1, served 1)) true]

/-- A second snapshot comes in while the directory of the first one is fetched. -/
def fetchesTooLate : List LoopEvent :=
  [.snapshot (snapshotAt 1), .fetch, .snapshot (snapshotAt 3), .fetched (some (1, served 1)) true]

def fetchesAhead : List LoopEvent := [.snapshot (snapshotAt 1), .fetch, .fetched (some (3, served 3)) true]

/-- The loop does not wait, and its directory has the second pool or has it not, unlike the entries applied. -/
def differs (has : Bool) (state : Option Loop) : Bool :=
  state.any fun l => l.directoryPending.isNone && l.directory.pools.contains "u2" == has &&
    Result.passes (Node.replay (fun _ => .inOrder) (Daemon.upTo threePools l.applied)) fun n =>
      n.directory.pools.contains "u2" != has

end Loop

end TapeRs.Daemon
