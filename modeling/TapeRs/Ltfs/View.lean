import TapeRs.Ltfs.Difference

namespace TapeRs.Ltfs

open DirectoryNode Incremental

/-- An identifier the replay accepts under the recorded maximum; a maximum of zero means unrecorded. -/
def ValidUid (highest uid : UInt64) : Prop :=
  uid ≠ 0 ∧ (highest ≠ 0 → uid ≤ highest)

namespace Incremental

theorem validateUidList_append (highest : UInt64) (left right seen : List UInt64) :
    validateUidList highest (left ++ right) seen =
      (validateUidList highest left seen >>= validateUidList highest right) := by
  induction left generalizing seen with
  | nil => rfl
  | cons uid rest ih =>
    rw [List.cons_append, validateUidList, validateUidList]
    split
    · rfl
    · exact ih _

theorem validateUids_eq (dir : DirectoryNode) (highest : UInt64) (seen : List UInt64) :
    validateUids dir highest seen = validateUidList highest dir.uids seen := by
  induction dir using inductionOn generalizing seen with
  | node dir ih =>
    have below : ∀ dirs : List DirectoryNode, (∀ child ∈ dirs, child ∈ dir.subdirs) → ∀ seen,
        validateUidsOf dirs highest seen = validateUidList highest (dirs.flatMap uids) seen := by
      intro dirs
      induction dirs with
      | nil => intro _ seen; rw [validateUidsOf]; rfl
      | cons child rest tail =>
        intro members seen
        rw [validateUidsOf, List.flatMap_cons, validateUidList_append, ih child (members child (by simp))]
        exact congrArg (Bind.bind _) (funext fun seen =>
          tail (fun other member => members other (List.mem_cons_of_mem _ member)) seen)
    rw [uids_eq, validateUidList_append, ← funext (below dir.subdirs fun _ member => member)]
    cases dir
    rw [validateUids]

theorem validateUidList_ok (highest : UInt64) (uids seen after : List UInt64) :
    validateUidList highest uids seen = .ok after ↔
      (∀ uid ∈ uids, ValidUid highest uid) ∧ uids.Nodup ∧ uids.Disjoint seen ∧ after = uids.reverse ++ seen := by
  induction uids generalizing seen with
  | nil => simp [validateUidList, eq_comm]
  | cons uid rest ih =>
    rw [validateUidList]
    split
    · rename_i refused
      simp only [Bool.or_eq_true, Bool.and_eq_true, decide_eq_true_eq] at refused
      refine ⟨nofun, ?_⟩
      rintro ⟨valid, -, disjoint, -⟩
      obtain ⟨nonzero, bounded⟩ := valid uid (by simp)
      rcases refused with (zero | ⟨recorded, above⟩) | taken
      · exact absurd zero nonzero
      · exact absurd (bounded recorded) (UInt64.not_le.mpr above)
      · exact absurd taken (List.disjoint_cons_left.mp disjoint).1
    · rename_i accepted
      simp only [Bool.or_eq_true, Bool.and_eq_true, decide_eq_true_eq, not_or, not_and, UInt64.not_lt] at accepted
      have valid : ValidUid highest uid := ⟨accepted.1.1, accepted.1.2⟩
      rw [ih, List.forall_mem_cons, List.nodup_cons, List.disjoint_cons_left, List.disjoint_cons_right,
        List.reverse_cons, List.append_assoc, List.singleton_append]
      have fresh := accepted.2
      tauto

theorem validateUids_ok {dir : DirectoryNode} {highest : UInt64} :
    (∃ after, validateUids dir highest [] = .ok after) ↔
      (∀ uid ∈ dir.uids, ValidUid highest uid) ∧ dir.uids.Nodup := by
  simp only [validateUids_eq, validateUidList_ok, List.disjoint_nil_right, true_and, exists_and_left, exists_eq, and_true]

end Incremental

namespace LtfsIndex

/-- A complete view as a mounted volume holds it. -/
structure FullView (index : LtfsIndex) : Prop where
  full : index.root.Full
  names : index.root.UniqueNames
  links : index.root.LinksBare
  distinct : index.root.uids.Nodup
  nonzero : ∀ uid ∈ index.root.uids, uid ≠ 0
  bounded : ∀ uid ∈ index.root.uids, uid ≤ index.highestFileUid
  recorded : index.highestFileUid ≠ 0

instance (index : LtfsIndex) : Decidable index.FullView :=
  decidable_of_iff
    (index.root.Full ∧ index.root.UniqueNames ∧ index.root.LinksBare ∧ index.root.uids.Nodup ∧
      index.root.uids.all (fun uid => uid ≠ 0 && uid ≤ index.highestFileUid) ∧ index.highestFileUid ≠ 0)
    (by
      simp only [List.all_eq_true, Bool.and_eq_true, decide_eq_true_eq]
      constructor
      · rintro ⟨full, names, links, distinct, uids, recorded⟩
        exact ⟨full, names, links, distinct, fun uid member => (uids uid member).1,
          fun uid member => (uids uid member).2, recorded⟩
      · intro view
        exact ⟨view.full, view.names, view.links, view.distinct,
          fun uid member => ⟨view.nonzero uid member, view.bounded uid member⟩, view.recorded⟩)

def replayed (base delta : LtfsIndex) (root : DirectoryNode) : LtfsIndex :=
  { delta.cloneWithRoot root with
    materialized := true
    allowPolicyUpdate := base.allowPolicyUpdate
    unknownElements :=
      base.unknownElements.foldl (fun out name => if name ∈ out then out else out ++ [name]) delta.unknownElements }

theorem applyIncremental_replays {base delta : LtfsIndex} {old new : DirectoryNode}
    (valid : delta.validateIncremental = .ok ()) (incremental : delta.incremental = true)
    (uuid : delta.volumeUuid = base.volumeUuid) (generation : base.generation < delta.generation)
    (highest : delta.highestFileUid ≠ 0 → base.highestFileUid ≠ 0 ∧ base.highestFileUid ≤ delta.highestFileUid)
    (fullBase : delta.previousLocation = base.fullBase)
    (incrementalBase : delta.previousIncrementalLocation = base.incrementalBase)
    (replays : Replays delta.root old new true) (same : Same old base.root)
    (uids : ∀ uid ∈ new.uids, ValidUid delta.highestFileUid uid) (distinct : new.uids.Nodup) :
    ∃ root, Same new root ∧ base.applyIncremental delta = .ok (base.replayed delta root) := by
  obtain ⟨root, merged, sameRoot⟩ := replays base.root same
  have perm := sameRoot.uids_perm
  obtain ⟨seen, checked⟩ := validateUids_ok.mpr
    ⟨fun uid member => uids uid (perm.mem_iff.mpr member), perm.nodup_iff.mp distinct⟩
  have accepted : ¬ (!delta.incremental || delta.volumeUuid ≠ base.volumeUuid || delta.generation ≤ base.generation ||
      (delta.highestFileUid ≠ 0 && (base.highestFileUid = 0 || delta.highestFileUid < base.highestFileUid))) := by
    simp only [incremental, uuid, Bool.not_true, ne_eq, not_true_eq_false, decide_false, Bool.false_or,
      Bool.or_eq_true, decide_eq_true_eq, Bool.and_eq_true, not_or, not_and, UInt64.not_le, UInt64.not_lt]
    exact ⟨generation, highest⟩
  refine ⟨root, sameRoot, ?_⟩
  unfold applyIncremental
  rw [if_neg accepted, if_neg (by simp [fullBase, incrementalBase])]
  simp only [valid, merged, checked, Bind.bind, Except.bind, Pure.pure, Except.pure]
  rfl

theorem incrementalSince_ok {index base delta : LtfsIndex} :
    index.incrementalSince base = .ok delta ↔
      index.volumeUuid = base.volumeUuid ∧ base.generation < index.generation ∧
        delta = index.incrementalDelta base ∧ delta.validateIncremental = .ok () := by
  unfold incrementalSince
  split
  · rename_i refused
    simp only [Bool.or_eq_true, decide_eq_true_eq] at refused
    refine ⟨nofun, ?_⟩
    rintro ⟨uuid, generation, -⟩
    rcases refused with other | stale
    · exact absurd uuid other
    · exact absurd generation (UInt64.not_lt.mpr stale)
  · rename_i accepted
    simp only [Bool.or_eq_true, decide_eq_true_eq, not_or, not_not, UInt64.not_le] at accepted
    simp only [Result.bind_ok, Pure.pure, Except.pure, Except.ok.injEq]
    constructor
    · rintro ⟨_, valid, rfl⟩
      exact ⟨accepted.1, accepted.2, rfl, valid⟩
    · rintro ⟨-, -, rfl, valid⟩
      exact ⟨(), valid, rfl⟩

theorem FullView.validUids {index : LtfsIndex} (view : index.FullView) :
    ∀ uid ∈ index.root.uids, ValidUid index.highestFileUid uid :=
  fun uid member => ⟨view.nonzero uid member, fun _ => view.bounded uid member⟩

/-- Replaying the difference of two complete views on the older one gives the newer tree. -/
theorem applyIncremental_incrementalSince {base new delta : LtfsIndex} (baseView : base.FullView)
    (newView : new.FullView) (rootUid : new.root.nodeMeta.fileUid = base.root.nodeMeta.fileUid)
    (monotone : base.highestFileUid ≤ new.highestFileUid) (recorded : new.incrementalSince base = .ok delta) :
    ∃ applied, base.applyIncremental delta = .ok applied ∧ Same new.root applied.root := by
  obtain ⟨uuid, generation, rfl, valid⟩ := incrementalSince_ok.mp recorded
  have replays : Replays (difference new.root base.root) base.root new.root true :=
    Form.plain.difference_replays newView.full newView.names baseView.names newView.links rootUid nofun
  obtain ⟨root, same, applied⟩ := applyIncremental_replays valid rfl uuid generation
    (fun _ => ⟨baseView.recorded, monotone⟩) rfl rfl replays (.refl _) newView.validUids newView.distinct
  exact ⟨_, applied, same⟩

def swapBase : LtfsIndex :=
  { version := ltfsVersion, creator := "", volumeUuid := 7, generation := 1, updateTime := "", highestFileUid := 4
    selfLocation := { partition := 'b', startBlock := 5 }
    root :=
      { nodeMeta := { fileUid := 1 }
        files := [{ name := "a", nodeMeta := { fileUid := 2 } }]
        subdirs := [{ name := "d", nodeMeta := { fileUid := 3 }
                      files := [{ name := "x", nodeMeta := { fileUid := 4 } }] }] } }

/-- The two names swap kinds: the file moves, a new directory takes its name and the second file. -/
def swapNew : LtfsIndex :=
  { swapBase with
    generation := 2, highestFileUid := 5
    selfLocation := { partition := 'b', startBlock := 20 }
    root :=
      { nodeMeta := { fileUid := 1 }
        files := [{ name := "d", nodeMeta := { fileUid := 2 } }]
        subdirs := [{ name := "a", nodeMeta := { fileUid := 5 }
                      files := [{ name := "x", nodeMeta := { fileUid := 4 } }] }] } }

theorem applyIncremental_swap :
    ∃ applied, swapBase.applyIncremental (swapNew.incrementalDelta swapBase) = .ok applied ∧
      Same swapNew.root applied.root :=
  applyIncremental_incrementalSince (by decide) (by decide) rfl (by decide) rfl

end LtfsIndex

end TapeRs.Ltfs
