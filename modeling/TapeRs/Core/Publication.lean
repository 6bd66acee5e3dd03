import TapeRs.Core.VolumeRun

namespace TapeRs.Core

open Text List

namespace VolumeRoot

open DirNode

section View

variable {directories : List Path} {entry : Path × CoverEntry}

theorem coverView_skipped {committed : DirNode} (rootless : components entry.1 = []) :
    coverView directories committed entry = committed := by
  rw [coverView, splitPath_eq_none.mpr rootless]

theorem coverView_apart (committed : DirNode) {other : List String}
    (apart : components entry.1 ≠ [] → Apart (components entry.1) other) :
    (coverView directories committed entry).SameAt committed other := by
  unfold coverView
  cases parts : splitPath entry.1 with
  | none => exact ⟨rfl, rfl⟩
  | some pair =>
    obtain ⟨dirs, name⟩ := pair
    rw [splitPath_eq_some.mp parts] at apart
    have apart := apart (by simp)
    dsimp only
    split
    · exact withDirectory_apart committed _ _ apart
    · exact withFile_apart committed dirs name _ apart

def Shows (directories : List Path) (committed : DirNode) (path : Path) (c : CoverEntry) : Prop :=
  if path ∈ directories then
    committed.get path = none ∧ (committed.dirAt (Text.components path)).isSome = !c.removal
  else if c.removal then committed.get path = none
  else
    committed.get path = some { version := c.version, len := c.len, partially := !c.complete } ∧
      committed.dirAt (Text.components path) = none

theorem coverView_shows (committed : DirNode) (proper : components entry.1 ≠ []) :
    Shows directories (coverView directories committed entry) entry.1 entry.2 := by
  unfold Shows coverView
  rw [get_eq_fileAt]
  cases parts : splitPath entry.1 with
  | none => exact absurd (splitPath_eq_none.mp parts) proper
  | some pair =>
    obtain ⟨dirs, name⟩ := pair
    rw [splitPath_eq_some.mp parts]
    dsimp only
    by_cases directory : entry.1 ∈ directories
    · rw [if_pos directory, if_pos directory]
      exact withDirectory_at committed _ (by simp)
    rw [if_neg directory, if_neg directory]
    cases removal : entry.2.removal with
    | true => exact withFile_fileAt committed dirs name none
    | false => exact ⟨withFile_fileAt committed dirs name _, withFile_no_dirAt committed dirs name _⟩

theorem shows_of_sameAt {left right : DirNode} {path : Path} {c : CoverEntry}
    (same : left.SameAt right (components path)) (shown : Shows directories right path c) :
    Shows directories left path c := by
  unfold Shows at *
  rw [get_eq_fileAt, same.1, same.2, ← get_eq_fileAt]
  exact shown

theorem coverPath_committed (root : VolumeRoot) (entry : Path × CoverEntry) :
    (root.coverPath directories entry).committed = coverView directories root.committed entry := by
  unfold coverPath
  dsimp only
  cases parts : splitPath entry.1 with
  | none => rw [coverView_skipped (splitPath_eq_none.mp parts)]
  | some pair =>
    dsimp only
    split
    · rfl
    · split
      · split <;> rfl
      · rfl

theorem covered_committed (entries : List (Path × CoverEntry)) (root : VolumeRoot) :
    (entries.foldl (coverPath directories) root).committed =
      entries.foldl (coverView directories) root.committed := by
  induction entries generalizing root with
  | nil => rfl
  | cons entry rest ih => rw [foldl_cons, foldl_cons, ih, coverPath_committed]

theorem coverViews_apart {entries : List (Path × CoverEntry)} {other : List String}
    (apart : ∀ entry ∈ entries, components entry.1 ≠ [] → Apart (components entry.1) other)
    (committed : DirNode) : (entries.foldl (coverView directories) committed).SameAt committed other := by
  induction entries generalizing committed with
  | nil => exact ⟨rfl, rfl⟩
  | cons entry rest ih =>
    rw [foldl_cons]
    have later := ih (fun e member => apart e (mem_cons_of_mem _ member)) (coverView directories committed entry)
    have now : (coverView directories committed entry).SameAt committed other :=
      coverView_apart committed (apart entry mem_cons_self)
    exact ⟨later.1.trans now.1, later.2.trans now.2⟩

theorem coverViews_shows {entries : List (Path × CoverEntry)} (distinct : (entries.map Prod.fst).Nodup)
    {path : Path} {c : CoverEntry} (member : (path, c) ∈ entries) (proper : components path ≠ [])
    (alone : ∀ entry ∈ entries, entry.1 ≠ path → components entry.1 ≠ [] →
      Apart (components entry.1) (components path))
    (committed : DirNode) : Shows directories (entries.foldl (coverView directories) committed) path c := by
  induction entries generalizing committed with
  | nil => cases member
  | cons entry rest ih =>
    rw [map_cons, nodup_cons] at distinct
    rw [foldl_cons]
    rcases mem_cons.mp member with rfl | later
    · have others : ∀ entry ∈ rest, components entry.1 ≠ [] →
          Apart (components entry.1) (components path) := by
        intro entry among
        apply alone entry (mem_cons_of_mem _ among)
        intro same
        exact distinct.1 (mem_map.mpr ⟨entry, among, same⟩)
      have shown : Shows directories (coverView directories committed (path, c)) path c := coverView_shows committed proper
      exact shows_of_sameAt (coverViews_apart others _) shown
    · exact ih distinct.2 later (fun e among => alone e (mem_cons_of_mem _ among)) _

end View

section Pending

variable {directories : List Path}

def remaining (path : Path) (c : CoverEntry) (e : PendingEntry) : Option PendingEntry :=
  if Text.components path = [] || e.version ≠ c.version then some e
  else if c.complete && e.stagedLen = c.len then none
  else some { e with committedPrefix := c.len }

theorem coverPath_pending (root : VolumeRoot) (entry : Path × CoverEntry) (path : Path) :
    (root.coverPath directories entry).pending.get path =
      if path = entry.1 then (root.pending.get path).bind (remaining entry.1 entry.2) else root.pending.get path := by
  unfold coverPath remaining
  dsimp only
  cases parts : splitPath entry.1 with
  | none =>
    rw [splitPath_eq_none.mp parts]
    cases root.pending.get path <;> simp
  | some pair =>
    have proper : components entry.1 ≠ [] := by
      rw [splitPath_eq_some.mp parts]
      simp
    cases found : root.pending.get entry.1 with
    | none =>
      dsimp only
      by_cases here : path = entry.1
      · rw [if_pos here, here, found]
        rfl
      · rw [if_neg here]
    | some e =>
      simp only [proper, decide_false, Bool.false_or]
      by_cases version : e.version = entry.2.version
      · by_cases whole : (entry.2.complete && decide (e.stagedLen = entry.2.len)) = true
        · rw [if_pos version, if_pos whole, SortedMap.get_erase]
          by_cases here : path = entry.1
          · rw [if_pos here, if_pos here, here, found, Option.bind_some]
            simp [version, whole]
          · rw [if_neg here, if_neg here]
        · rw [if_pos version, if_neg whole, SortedMap.get_insert]
          by_cases here : path = entry.1
          · rw [if_pos here, if_pos here, here, found, Option.bind_some]
            simp [version, whole]
          · rw [if_neg here, if_neg here]
      · rw [if_neg version]
        by_cases here : path = entry.1
        · rw [if_pos here, here, found, Option.bind_some]
          simp [version]
        · rw [if_neg here]

theorem covered_pending {entries : List (Path × CoverEntry)} (distinct : (entries.map Prod.fst).Nodup)
    (root : VolumeRoot) (path : Path) :
    (entries.foldl (coverPath directories) root).pending.get path =
      match Assoc.find path entries with
      | none => root.pending.get path
      | some c => (root.pending.get path).bind (remaining path c) := by
  induction entries generalizing root with
  | nil => rfl
  | cons entry rest ih =>
    obtain ⟨key, c⟩ := entry
    rw [map_cons, nodup_cons] at distinct
    rw [foldl_cons, ih distinct.2, Assoc.find_cons, coverPath_pending]
    by_cases here : key = path
    · subst here
      have absent : Assoc.find key rest = none := by
        unfold Assoc.find
        rw [Option.map_eq_none_iff, Keyed.lookup_eq_none]
        exact distinct.1
      simp [absent]
    · simp [here, Ne.symm here]

theorem dropRef_view (root : VolumeRoot) (id : SessionId) :
    (root.dropRef id).committed = root.committed ∧ (root.dropRef id).pending = root.pending := by
  unfold dropRef
  split
  · exact ⟨rfl, rfl⟩
  · split <;> exact ⟨rfl, rfl⟩

theorem dropRefs_view (ids : List SessionId) (root : VolumeRoot) :
    (ids.foldl dropRef root).committed = root.committed ∧ (ids.foldl dropRef root).pending = root.pending := by
  induction ids generalizing root with
  | nil => exact ⟨rfl, rfl⟩
  | cons id rest ih =>
    rw [foldl_cons, (ih _).1, (ih _).2]
    exact dropRef_view root id

theorem published_committed (root : VolumeRoot) (batch : FrozenBatch) (generation : UInt64) :
    (root.published batch generation directories).committed =
      batch.cover.entries.foldl (coverView directories) root.committed := by
  show (batch.sessions.foldl dropRef _).committed = _
  rw [(dropRefs_view _ _).1, covered_committed]
  rfl

theorem published_pending (root : VolumeRoot) (batch : FrozenBatch) (generation : UInt64) (path : Path) :
    (root.published batch generation directories).pending.get path =
      match batch.cover.get path with
      | none => root.pending.get path
      | some c => (root.pending.get path).bind (remaining path c) := by
  show (batch.sessions.foldl dropRef _).pending.get path = _
  rw [(dropRefs_view _ _).2, covered_pending batch.cover.keys_nodup]
  rfl

end Pending

end VolumeRoot

namespace Inner

open DirNode VolumeRoot

variable {g after : Inner} {batch : FrozenBatch} {evidence : S4Evidence} {directories : List Path}
  {outcome : PublishOutcome}

theorem publishNamespace_slot (slot : g.current.commitSlot = some batch)
    (done : g.publishNamespace batch evidence directories = (.ok outcome, after)) :
    after.current = g.current.published batch evidence.generation directories ∧ outcome.duplicate = false ∧
      outcome.notified = (g.waiters.filter (answers batch)).map (·.id) := by
  unfold publishNamespace notifyLocked at done
  dsimp only at done
  split_ifs at done with mismatch stale duplicate failing
  · cases done
  · cases done
  · rw [slot] at duplicate
    exact absurd rfl duplicate
  · cases done
  · obtain ⟨answer, rfl⟩ := Prod.mk.inj done
    obtain rfl := Except.ok.inj answer
    exact ⟨rfl, rfl, rfl⟩

def snapshotState : Inner :=
  [Call.openSession 1 100, .admitWrite 1 "/d/a" 10 0, .ingest "/d/a" 4, .freeze ["/d/a"], .ingest "/d/a" 3].foldl Call.run
    (.new 1 {} 0 10 true)

def snapshotBatch : FrozenBatch :=
  { batchId := 1, instanceId := 1, baseEpoch := 4, generation := 1, sessions := [1]
    cover := SortedMap.empty.insert "/d/a" { version := 1, len := 4, complete := false, removal := false } }

def rootlessState : Inner :=
  [Call.openSession 1 100, .admitWrite 1 "/" 10 0, .ingest "/" 4, .complete "/", .freeze []].foldl Call.run (.new 1 {} 0 10 true)

def rootlessBatch : FrozenBatch :=
  { batchId := 1, instanceId := 1, baseEpoch := 5, generation := 1, sessions := [1]
    cover := SortedMap.empty.insert "/" { version := 1, len := 4, complete := true, removal := false } }

end Inner

end TapeRs.Core
