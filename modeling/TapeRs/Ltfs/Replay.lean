import TapeRs.Ltfs.Incremental
import TapeRs.Ltfs.Tree

open TapeRs.Keyed

namespace TapeRs.Ltfs.Incremental

open DirectoryNode

/-- Two directories that agree on everything but their children. -/
structure SameHeader (a b : DirectoryNode) : Prop where
  name : a.name = b.name
  nodeMeta : a.nodeMeta = b.nodeMeta
  xattrs : a.xattrs = b.xattrs
  deltaFields : a.deltaFields = b.deltaFields

theorem SameHeader.refl (a : DirectoryNode) : SameHeader a a := ⟨rfl, rfl, rfl, rfl⟩

theorem SameHeader.trans {a b c : DirectoryNode} (left : SameHeader a b) (right : SameHeader b c) : SameHeader a c :=
  ⟨left.name.trans right.name, left.nodeMeta.trans right.nodeMeta, left.xattrs.trans right.xattrs,
    left.deltaFields.trans right.deltaFields⟩

def liveFile (patch : List FileNode) (name : String) : Option FileNode :=
  (lookup (·.name) name patch).filter (fun file => !file.deltaFields.deleted)

def liveDir (patch : List DirectoryNode) (name : String) : Option DirectoryNode :=
  (lookup (·.name) name patch).filter (fun dir => !dir.deltaFields.deleted)

section Removal

theorem removeDeleted_header (dst delta : DirectoryNode) :
    SameHeader (removeDeleted dst delta) dst := by
  cases delta
  exact ⟨rfl, rfl, rfl, rfl⟩

theorem removeFiles_cons (files : List FileNode) (delta : FileNode) (rest : List FileNode) :
    removeFiles files (delta :: rest) =
      removeFiles (if delta.deltaFields.deleted then discard (·.name) delta.name files else files) rest := rfl

theorem removeFiles_names (files deltas : List FileNode) :
    ((removeFiles files deltas).map (·.name)).Sublist (files.map (·.name)) := by
  induction deltas generalizing files with
  | nil => exact .refl _
  | cons delta rest ih =>
    rw [removeFiles_cons]
    split
    · exact (ih _).trans (map_discard_sublist _ _)
    · exact ih _

theorem removeFiles_lookup {deltas : List FileNode} (nodup : (deltas.map (·.name)).Nodup) (files : List FileNode)
    (name : String) :
    lookup (·.name) name (removeFiles files deltas) =
      match lookup (·.name) name deltas with
      | some delta => if delta.deltaFields.deleted then none else lookup (·.name) name files
      | none => lookup (·.name) name files := by
  induction deltas generalizing files with
  | nil => rfl
  | cons delta rest ih =>
    rw [List.map_cons, List.nodup_cons] at nodup
    rw [removeFiles_cons, ih nodup.2, lookup_cons]
    by_cases here : delta.name = name
    · have absent : lookup (·.name) name rest = none := lookup_eq_none.mpr (here ▸ nodup.1)
      rw [absent, if_pos here]
      by_cases gone : delta.deltaFields.deleted = true
      · simp only [gone, if_true, lookup_discard, here]
      · simp only [gone, Bool.false_eq_true, if_false]
    · rw [if_neg here]
      have elsewhere : ¬ name = delta.name := fun h => here h.symm
      by_cases gone : delta.deltaFields.deleted = true
      · simp only [gone, if_true, lookup_discard, elsewhere, if_false]
      · simp only [gone, Bool.false_eq_true, if_false]

theorem updateDir_names (name : String) {f : DirectoryNode → DirectoryNode}
    (keeps : ∀ dir, (f dir).name = dir.name) (dirs : List DirectoryNode) :
    (updateDir name f dirs).map (·.name) = dirs.map (·.name) := by
  induction dirs with
  | nil => rfl
  | cons dir rest ih =>
    unfold updateDir
    split
    · simp [keeps]
    · simp [ih]

theorem updateDir_lookup {name : String} {f : DirectoryNode → DirectoryNode} {dirs : List DirectoryNode}
    (keeps : ∀ dir, lookup (·.name) name dirs = some dir → (f dir).name = dir.name) (other : String) :
    lookup (·.name) other (updateDir name f dirs) =
      if other = name then (lookup (·.name) other dirs).map f else lookup (·.name) other dirs := by
  induction dirs with
  | nil => simp [updateDir]
  | cons dir rest ih =>
    unfold updateDir
    split
    · rename_i here
      have kept := keeps dir (by rw [lookup_cons, if_pos here])
      rw [lookup_cons, kept, lookup_cons, here]
      by_cases same : other = name
      · simp [same]
      · have apart : ¬ name = other := fun h => same h.symm
        simp [same, apart]
    · rename_i elsewhere
      have later := ih fun child found => keeps child (by rw [lookup_cons, if_neg elsewhere, found])
      rw [lookup_cons, later, lookup_cons]
      by_cases same : other = name
      · subst same
        simp [elsewhere]
      · simp [same]

theorem removeDirs_names (deltas dirs : List DirectoryNode) :
    ((removeDirs dirs deltas).map (·.name)).Sublist (dirs.map (·.name)) := by
  induction deltas generalizing dirs with
  | nil => rw [removeDirs]
  | cons delta rest ih =>
    rw [removeDirs]
    split
    · exact (ih _).trans (map_discard_sublist _ _)
    · have kept := updateDir_names delta.name (f := fun child => removeDeleted child delta)
        (fun child => (removeDeleted_header child delta).name) dirs
      exact kept ▸ ih _

theorem removeDirs_lookup {deltas : List DirectoryNode} (nodup : (deltas.map (·.name)).Nodup)
    (dirs : List DirectoryNode) (name : String) :
    lookup (·.name) name (removeDirs dirs deltas) =
      match lookup (·.name) name deltas with
      | some delta =>
        if delta.deltaFields.deleted then none
        else (lookup (·.name) name dirs).map (fun child => removeDeleted child delta)
      | none => lookup (·.name) name dirs := by
  induction deltas generalizing dirs with
  | nil => rw [removeDirs]; rfl
  | cons delta rest ih =>
    rw [List.map_cons, List.nodup_cons] at nodup
    have keeps : ∀ child, (removeDeleted child delta).name = child.name :=
      fun child => (removeDeleted_header child delta).name
    rw [removeDirs, lookup_cons]
    by_cases here : delta.name = name
    · have absent : lookup (·.name) name rest = none := lookup_eq_none.mpr (here ▸ nodup.1)
      rw [if_pos here]
      split
      · rename_i gone
        simp only [ih nodup.2, absent, lookup_discard, here, gone, if_true]
      · rename_i kept
        simp only [ih nodup.2, absent, updateDir_lookup (fun dir _ => keeps dir), here, kept, if_true, if_false,
          Bool.false_eq_true]
    · have elsewhere : ¬ name = delta.name := fun h => here h.symm
      rw [if_neg here]
      split
      · simp only [ih nodup.2, lookup_discard, elsewhere, if_false]
      · simp only [ih nodup.2, updateDir_lookup (fun dir _ => keeps dir), elsewhere, if_false]

theorem removeDeleted_fileAt {delta : DirectoryNode} (distinct : delta.Distinct) (dst : DirectoryNode)
    (name : String) :
    (removeDeleted dst delta).fileAt name =
      match delta.fileAt name with
      | some file => if file.deltaFields.deleted then none else dst.fileAt name
      | none => dst.fileAt name := by
  cases delta
  exact removeFiles_lookup distinct.files dst.files name

theorem removeDeleted_dirAt {delta : DirectoryNode} (distinct : delta.Distinct) (dst : DirectoryNode)
    (name : String) :
    (removeDeleted dst delta).dirAt name =
      match delta.dirAt name with
      | some dir =>
        if dir.deltaFields.deleted then none else (dst.dirAt name).map (fun child => removeDeleted child dir)
      | none => dst.dirAt name := by
  cases delta
  exact removeDirs_lookup distinct.subdirs dst.subdirs name

theorem removeDeleted_distinct {dst : DirectoryNode} (distinct : dst.Distinct) (delta : DirectoryNode) :
    (removeDeleted dst delta).Distinct := by
  cases delta
  exact List.Nodup.sublist ((removeFiles_names _ _).append (removeDirs_names _ _)) distinct

theorem removeDeleted_empty (name : String) (delta : DirectoryNode) :
    removeDeleted { name := name } delta = { name := name } := by
  have noFiles : ∀ deltas, removeFiles [] deltas = [] := fun deltas =>
    List.map_eq_nil_iff.mp (List.sublist_nil.mp (removeFiles_names [] deltas))
  have noDirs : ∀ deltas, removeDirs [] deltas = [] := fun deltas =>
    List.map_eq_nil_iff.mp (List.sublist_nil.mp (removeDirs_names deltas []))
  cases delta
  simp [removeDeleted, noFiles, noDirs]

end Removal

section Merging

variable {dst : DirectoryNode}

/-- What replaying a live file entry leaves under its name, given what was there. -/
def patchedFile (file : FileNode) : Option FileNode → FileNode
  | some prior =>
    if prior.nodeMeta.fileUid = file.nodeMeta.fileUid then mergeFileMetadata prior file
    else { file with deltaFields := none }
  | none => { file with deltaFields := none }

/-- Whether a directory entry of a patch refers to the existing directory `prior`. -/
def refersTo (dir prior : DirectoryNode) : Bool :=
  !dir.deltaFields.has "fileuid" || prior.nodeMeta.fileUid = dir.nodeMeta.fileUid

theorem discardName_fileAt (dst : DirectoryNode) (name other : String) :
    (discardName dst name).fileAt other = if other = name then none else dst.fileAt other :=
  lookup_discard other name dst.files

theorem discardName_dirAt (dst : DirectoryNode) (name other : String) :
    (discardName dst name).dirAt other = if other = name then none else dst.dirAt other :=
  lookup_discard other name dst.subdirs

/-- `after` is `dst` with `file` under its name in place of whatever was there. -/
structure PlacesFile (dst : DirectoryNode) (file : FileNode) (after : DirectoryNode) : Prop where
  distinct : after.Distinct
  header : SameHeader after dst
  fileAt : ∀ other, after.fileAt other = if other = file.name then some file else dst.fileAt other
  dirAt : ∀ other, after.dirAt other = if other = file.name then none else dst.dirAt other

/-- `after` is `dst` with `child` under its name in place of whatever was there. -/
structure PlacesDir (dst child after : DirectoryNode) : Prop where
  distinct : after.Distinct
  header : SameHeader after dst
  fileAt : ∀ other, after.fileAt other = if other = child.name then none else dst.fileAt other
  dirAt : ∀ other, after.dirAt other = if other = child.name then some child else dst.dirAt other

section Placing

variable (distinct : dst.Distinct)
include distinct

theorem discardName_distinct (name : String) : (discardName dst name).Distinct :=
  List.Nodup.sublist ((map_discard_sublist _ _).append (map_discard_sublist _ _)) distinct

theorem addFile_places (file : FileNode) : let cleared := discardName dst file.name
    PlacesFile dst file { cleared with files := cleared.files ++ [file] } := by
  intro cleared
  have fileAt := lookup_replaced (fun file : FileNode => file.name) file dst.files
  have dirAt := discardName_dirAt dst file.name
  refine ⟨.of_lookups (nodup_replaced distinct.files file) (discardName_distinct distinct file.name).subdirs ?_,
    ⟨rfl, rfl, rfl, rfl⟩, fileAt, dirAt⟩
  intro other
  by_cases here : other = file.name
  · exact .inr ((dirAt other).trans (if_pos here))
  · rcases distinct.apart other with absent | absent
    · exact .inl ((fileAt other).trans ((if_neg here).trans absent))
    · exact .inr ((dirAt other).trans ((if_neg here).trans absent))

theorem addDir_places (child : DirectoryNode) : let cleared := discardName dst child.name
    PlacesDir dst child { cleared with subdirs := cleared.subdirs ++ [child] } := by
  intro cleared
  have dirAt := lookup_replaced (fun dir : DirectoryNode => dir.name) child dst.subdirs
  have fileAt := discardName_fileAt dst child.name
  refine ⟨.of_lookups (discardName_distinct distinct child.name).files (nodup_replaced distinct.subdirs child) ?_,
    ⟨rfl, rfl, rfl, rfl⟩, fileAt, dirAt⟩
  intro other
  by_cases here : other = child.name
  · exact .inl ((fileAt other).trans (if_pos here))
  · rcases distinct.apart other with absent | absent
    · exact .inl ((fileAt other).trans ((if_neg here).trans absent))
    · exact .inr ((dirAt other).trans ((if_neg here).trans absent))

theorem replaceFile_places {prior file : FileNode} {files : List FileNode} (found : dst.fileAt file.name = some prior)
    (names : files.map (·.name) = dst.files.map (·.name))
    (lookups : ∀ other, lookup (·.name) other files = if other = file.name then some file else lookup (·.name) other dst.files)
    : PlacesFile dst file { dst with files } := by
  refine ⟨by simpa only [Distinct, names] using distinct, ⟨rfl, rfl, rfl, rfl⟩, lookups, ?_⟩
  intro other
  by_cases here : other = file.name
  · rw [if_pos here, here]
    exact distinct.dirAt_of_fileAt found
  · rw [if_neg here]
    rfl

theorem replaceDir_places {prior child : DirectoryNode} {subdirs : List DirectoryNode}
    (found : dst.dirAt child.name = some prior) (names : subdirs.map (·.name) = dst.subdirs.map (·.name))
    (lookups : ∀ other, lookup (·.name) other subdirs = if other = child.name then some child else lookup (·.name) other dst.subdirs)
    : PlacesDir dst child { dst with subdirs } := by
  refine ⟨by simpa only [Distinct, names] using distinct, ⟨rfl, rfl, rfl, rfl⟩, ?_, lookups⟩
  intro other
  by_cases here : other = child.name
  · rw [if_pos here, here]
    exact distinct.fileAt_of_dirAt found
  · rw [if_neg here]
    rfl

theorem mergeFile_places {file : FileNode} (live : file.deltaFields.deleted = false)
    (whole : complete file.deltaFields false = .ok ()) :
    ∃ after, mergeFile dst file = .ok after ∧ PlacesFile dst (patchedFile file (dst.fileAt file.name)) after := by
  have ne_of_uid : ∀ prior, dst.fileAt file.name = prior → patchedFile file prior = { file with deltaFields := none } →
      (∀ v, prior = some v → v.nodeMeta.fileUid ≠ file.nodeMeta.fileUid) →
      ∃ after, mergeFile dst file = .ok after ∧ PlacesFile dst (patchedFile file prior) after := by
    intro prior found patched differs
    have absent : rewriteFirst (ε := TapeError)
        (fun v : FileNode => v.name = file.name && v.nodeMeta.fileUid = file.nodeMeta.fileUid)
        (fun v => .ok (mergeFileMetadata v file)) dst.files = none := by
      refine rewriteFirst_eq_none.mpr fun v member => ?_
      by_contra hit
      simp only [Bool.and_eq_true, decide_eq_true_eq, Bool.not_eq_false] at hit
      exact differs v (found.symm.trans ((lookup_eq_some distinct.files).mpr ⟨member, hit.1⟩)) hit.2
    refine ⟨_, ?_, patched ▸ addFile_places distinct { file with deltaFields := none }⟩
    simp only [mergeFile, live, absent, whole, patched, Bind.bind, Except.bind, Pure.pure, Except.pure,
      Bool.false_eq_true, if_false]
  cases found : dst.fileAt file.name with
  | none => exact ne_of_uid none found rfl (fun _ impossible => nomatch impossible)
  | some prior =>
    by_cases uid : prior.nodeMeta.fileUid = file.nodeMeta.fileUid
    · have named := (lookup_member found).2
      obtain ⟨files, rewritten, names, lookups⟩ := rewriteFirst_lookup (ε := TapeError) (fun v : FileNode => v.name)
        (p := fun v => v.name = file.name && v.nodeMeta.fileUid = file.nodeMeta.fileUid)
        (f := fun v => .ok (mergeFileMetadata v file)) distinct.files found (by simp [named, uid])
        (fun _ _ hit => by simp only [Bool.and_eq_true, decide_eq_true_eq] at hit; exact hit.1) rfl named
      have patched : patchedFile file (some prior) = mergeFileMetadata prior file := by
        simp only [patchedFile, uid, if_true]
      have sameName : (mergeFileMetadata prior file).name = file.name := named
      refine ⟨{ dst with files }, ?_, patched ▸ replaceFile_places distinct (sameName ▸ found) names
        (sameName ▸ lookups)⟩
      simp only [mergeFile, live, rewritten, Bind.bind, Except.bind, Pure.pure, Except.pure,
        Bool.false_eq_true, if_false]
    · refine ne_of_uid (some prior) found (by simp only [patchedFile, uid, if_false]) ?_
      rintro _ ⟨⟩
      exact uid

end Placing

theorem patchedFile_name (dst : DirectoryNode) (file : FileNode) :
    (patchedFile file (dst.fileAt file.name)).name = file.name := by
  cases found : dst.fileAt file.name with
  | none => rfl
  | some prior =>
    unfold patchedFile
    dsimp only
    split
    · exact (lookup_member found).2
    · rfl

theorem mergeFiles_spec {files : List FileNode} (nodup : (files.map (·.name)).Nodup)
    (whole : ∀ file ∈ files, file.deltaFields.deleted = false → complete file.deltaFields false = .ok ())
    (distinct : dst.Distinct) :
    ∃ after, mergeFiles dst files = .ok after ∧ after.Distinct ∧ SameHeader after dst ∧
      ∀ name, match liveFile files name with
        | some file => after.fileAt name = some (patchedFile file (dst.fileAt name)) ∧ after.dirAt name = none
        | none => after.fileAt name = dst.fileAt name ∧ after.dirAt name = dst.dirAt name := by
  induction files generalizing dst with
  | nil => exact ⟨dst, rfl, distinct, .refl dst, fun _ => ⟨rfl, rfl⟩⟩
  | cons file rest ih =>
    rw [List.map_cons, List.nodup_cons] at nodup
    have later := fun other member => whole other (List.mem_cons_of_mem _ member)
    cases gone : file.deltaFields.deleted with
    | true =>
      obtain ⟨after, ran, afterDistinct, header, entries⟩ := ih nodup.2 later distinct
      have skipped : ∀ name, liveFile (file :: rest) name = liveFile rest name :=
        filter_lookup_skip (by rw [gone]; rfl) nodup.1
      refine ⟨after, ?_, afterDistinct, header, fun name => ?_⟩
      · simp only [mergeFiles, mergeFile, gone, if_true, Bind.bind, Except.bind, ran]
      · rw [skipped]
        exact entries name
    | false =>
      obtain ⟨mid, ranHead, placed⟩ := mergeFile_places distinct gone (whole file (by simp) gone)
      obtain ⟨after, ran, afterDistinct, header, entries⟩ := ih nodup.2 later placed.distinct
      have kept : ∀ name, liveFile (file :: rest) name = if file.name = name then some file else liveFile rest name :=
        filter_lookup_keep (by rw [gone]; rfl) rest
      refine ⟨after, ?_, afterDistinct, header.trans placed.header, fun name => ?_⟩
      · simp only [mergeFiles, ranHead, Bind.bind, Except.bind, ran]
      · have entry := entries name
        rw [placed.fileAt, placed.dirAt, patchedFile_name] at entry
        rw [kept]
        by_cases here : file.name = name
        · subst here
          rw [show liveFile rest file.name = none from filter_lookup_absent nodup.1] at entry
          simpa only [if_true] using entry
        · have apart : ¬ name = file.name := fun h => here h.symm
          simpa only [here, apart, if_false] using entry

/-- The two ways a live directory entry of a patch produces the directory of its name. -/
inductive Grafts (dir : DirectoryNode) (prior : Option DirectoryNode) (child : DirectoryNode) : Prop
  | existing (v : DirectoryNode) (found : prior = some v) (refers : refersTo dir v = true)
      (ran : mergeDir v dir false = .ok child)
  | fresh (unmatched : ∀ v, prior = some v → refersTo dir v = false)
      (whole : complete dir.deltaFields true = .ok ())
      (ran : mergeDir { name := dir.name } dir false = .ok child)

theorem mergeSubdirs_cons {dir child : DirectoryNode} (rest : List DirectoryNode) (distinct : dst.Distinct)
    (live : dir.deltaFields.deleted = false) (grafts : Grafts dir (dst.dirAt dir.name) child)
    (named : child.name = dir.name) :
    ∃ after, mergeSubdirs dst (dir :: rest) = mergeSubdirs after rest ∧ PlacesDir dst child after := by
  cases grafts with
  | existing v found refers ran =>
    have hit : (v.name = dir.name && (!dir.deltaFields.has "fileuid" || v.nodeMeta.fileUid = dir.nodeMeta.fileUid)) =
        true := by
      rw [(lookup_member found).2]
      simpa [refersTo] using refers
    obtain ⟨subdirs, rewritten, names, lookups⟩ := rewriteFirst_lookup (fun v : DirectoryNode => v.name)
      (p := fun v => v.name = dir.name &&
        (!dir.deltaFields.has "fileuid" || v.nodeMeta.fileUid = dir.nodeMeta.fileUid))
      (f := fun v => mergeDir v dir false) distinct.subdirs found hit
      (fun _ _ hit => by simp only [Bool.and_eq_true, decide_eq_true_eq] at hit; exact hit.1) ran named
    refine ⟨{ dst with subdirs }, ?_, replaceDir_places distinct (named ▸ found) names (named ▸ lookups)⟩
    rw [mergeSubdirs]
    simp only [live, rewritten, Bind.bind, Except.bind, Bool.false_eq_true, if_false]
  | fresh unmatched whole ran =>
    have absent : rewriteFirst (fun v : DirectoryNode => v.name = dir.name &&
        (!dir.deltaFields.has "fileuid" || v.nodeMeta.fileUid = dir.nodeMeta.fileUid))
        (fun v => mergeDir v dir false) dst.subdirs = none := by
      refine rewriteFirst_eq_none.mpr fun v member => ?_
      by_contra hit
      simp only [Bool.and_eq_true, decide_eq_true_eq, Bool.not_eq_false] at hit
      have refers := unmatched v ((lookup_eq_some distinct.subdirs).mpr ⟨member, hit.1⟩)
      simp only [refersTo, hit.2, Bool.true_eq_false] at refers
    refine ⟨_, ?_, named ▸ addDir_places distinct child⟩
    rw [mergeSubdirs]
    simp only [live, absent, whole, ran, Bind.bind, Except.bind, Bool.false_eq_true, if_false]

theorem mergeSubdirs_spec (Grafted : String → DirectoryNode → Prop) {dirs : List DirectoryNode}
    (nodup : (dirs.map (·.name)).Nodup) (distinct : dst.Distinct)
    (grafts : ∀ dir ∈ dirs, dir.deltaFields.deleted = false →
      ∃ child, Grafts dir (dst.dirAt dir.name) child ∧ child.name = dir.name ∧ Grafted dir.name child) :
    ∃ after, mergeSubdirs dst dirs = .ok after ∧ after.Distinct ∧ SameHeader after dst ∧
      ∀ name, match liveDir dirs name with
        | some _ => after.fileAt name = none ∧ ∃ child, after.dirAt name = some child ∧ Grafted name child
        | none => after.fileAt name = dst.fileAt name ∧ after.dirAt name = dst.dirAt name := by
  induction dirs generalizing dst with
  | nil => exact ⟨dst, by rw [mergeSubdirs], distinct, .refl dst, fun _ => ⟨rfl, rfl⟩⟩
  | cons dir rest ih =>
    rw [List.map_cons, List.nodup_cons] at nodup
    cases gone : dir.deltaFields.deleted with
    | true =>
      obtain ⟨after, ran, afterDistinct, header, entries⟩ :=
        ih nodup.2 distinct fun other member => grafts other (List.mem_cons_of_mem _ member)
      refine ⟨after, ?_, afterDistinct, header, fun name => ?_⟩
      · rw [mergeSubdirs, gone, if_pos rfl, ran]
      · have skipped : liveDir (dir :: rest) name = liveDir rest name :=
          filter_lookup_skip (by rw [gone]; rfl) nodup.1 name
        rw [skipped]
        exact entries name
    | false =>
      obtain ⟨child, graft, named, grafted⟩ := grafts dir (by simp) gone
      obtain ⟨mid, ranHead, placed⟩ := mergeSubdirs_cons rest distinct gone graft named
      have elsewhere : ∀ other ∈ rest, mid.dirAt other.name = dst.dirAt other.name := by
        intro other member
        rw [placed.dirAt, named, if_neg]
        rintro same
        exact nodup.1 (same ▸ List.mem_map_of_mem member)
      obtain ⟨after, ran, afterDistinct, header, entries⟩ := ih nodup.2 placed.distinct fun other member live => by
        rw [elsewhere other member]
        exact grafts other (List.mem_cons_of_mem _ member) live
      refine ⟨after, by rw [ranHead, ran], afterDistinct, header.trans placed.header, fun name => ?_⟩
      have entry := entries name
      have kept : liveDir (dir :: rest) name = if dir.name = name then some dir else liveDir rest name :=
        filter_lookup_keep (by rw [gone]; rfl) rest name
      rw [kept]
      rw [placed.fileAt, placed.dirAt, named] at entry
      by_cases here : dir.name = name
      · subst here
        rw [show liveDir rest dir.name = none from filter_lookup_absent nodup.1] at entry
        simp only [if_true] at entry
        simpa only [if_true] using ⟨entry.1, child, entry.2, grafted⟩
      · have apart : ¬ name = dir.name := fun h => here h.symm
        simpa only [here, apart, if_false] using entry

end Merging

section Replays

/-- Replaying `patch` on any reordering of `old` gives `new` up to sibling order. -/
def Replays (patch old new : DirectoryNode) (root : Bool) : Prop :=
  ∀ dst, Same old dst → ∃ after, mergeDir (removeDeleted dst patch) patch root = .ok after ∧ Same new after

/-- How a patch accounts for what `new` has under `name`, given what `old` has there. -/
inductive EntryReplays (patch old new : DirectoryNode) (name : String) : Prop
  | untouched (noFile : patch.fileAt name = none) (noDir : patch.dirAt name = none)
      (fileKept : new.fileAt name = old.fileAt name) (dirKept : Option.Rel Same (new.dirAt name) (old.dirAt name))
  | fileDeleted (file : FileNode) (entry : patch.fileAt name = some file) (gone : file.deltaFields.deleted = true)
      (noFile : new.fileAt name = none) (dirKept : Option.Rel Same (new.dirAt name) (old.dirAt name))
  | filePatched (file : FileNode) (entry : patch.fileAt name = some file) (live : file.deltaFields.deleted = false)
      (whole : complete file.deltaFields false = .ok ())
      (result : new.fileAt name = some (patchedFile file (old.fileAt name)))
  | dirDeleted (dir : DirectoryNode) (entry : patch.dirAt name = some dir) (gone : dir.deltaFields.deleted = true)
      (noDir : new.dirAt name = none) (fileKept : new.fileAt name = old.fileAt name)
  | dirPatched (dir prior child : DirectoryNode) (entry : patch.dirAt name = some dir)
      (live : dir.deltaFields.deleted = false) (found : old.dirAt name = some prior)
      (refers : refersTo dir prior = true) (replays : Replays dir prior child false)
      (result : new.dirAt name = some child)
  | dirCreated (dir child : DirectoryNode) (entry : patch.dirAt name = some dir)
      (live : dir.deltaFields.deleted = false) (unmatched : ∀ prior, old.dirAt name = some prior → refersTo dir prior = false)
      (whole : complete dir.deltaFields true = .ok ()) (replays : Replays dir { name := name } child false)
      (result : new.dirAt name = some child)

theorem mergeDir_eq (dst patch : DirectoryNode) (root : Bool) :
    mergeDir dst patch root = (do
      let dst ← mergeDirectoryMetadata dst patch root
      let dst ← mergeFiles dst patch.files
      mergeSubdirs dst patch.subdirs) := by
  cases patch
  rw [mergeDir]

variable {patch old new : DirectoryNode} {root : Bool}

theorem EntryReplays.grafts {name : String} {dst dir : DirectoryNode} (distinct : patch.Distinct)
    (oldDistinct : old.Distinct) (same : Same old dst) (entry : EntryReplays patch old new name)
    (found : patch.dirAt name = some dir) (live : dir.deltaFields.deleted = false) :
    ∃ child, Grafts dir ((removeDeleted dst patch).dirAt name) child ∧ child.name = name ∧
      Option.Rel Same (new.dirAt name) (some child) := by
  have remaining : (removeDeleted dst patch).dirAt name = (dst.dirAt name).map (fun child => removeDeleted child dir) := by
    rw [removeDeleted_dirAt distinct, found]
    simp only [live, Bool.false_eq_true, if_false]
  have related := same.dirAt oldDistinct name
  have noFile := distinct.fileAt_of_dirAt found
  have refersTo_removed : ∀ v, refersTo dir (removeDeleted v dir) = refersTo dir v := fun v => by
    rw [refersTo, (removeDeleted_header v dir).nodeMeta, refersTo]
  have refersTo_same : ∀ u v : DirectoryNode, Same u v → refersTo dir u = refersTo dir v := fun u v related => by
    rw [refersTo, related.nodeMeta, refersTo]
  rw [remaining]
  cases entry with
  | untouched _ noDir => rw [found] at noDir; cases noDir
  | fileDeleted _ entry | filePatched _ entry => rw [noFile] at entry; cases entry
  | dirDeleted _ entry gone =>
    rw [found] at entry
    cases entry
    rw [live] at gone
    cases gone
  | dirPatched _ prior target entry _ priorFound refers replays result =>
    rw [found] at entry
    cases entry
    rw [priorFound] at related
    generalize dst.dirAt name = current at related
    cases related with
    | @some _ v sameChild =>
      obtain ⟨child, ran, matched⟩ := replays v sameChild
      refine ⟨child, .existing _ rfl ?_ ran, ?_, result ▸ .some matched⟩
      · rw [refersTo_removed, ← refersTo_same _ _ sameChild, refers]
      · rw [← matched.name, (lookup_member result).2]
  | dirCreated _ target entry _ unmatched whole replays result =>
    rw [found] at entry
    cases entry
    have named : dir.name = name := (lookup_member found).2
    obtain ⟨child, ran, matched⟩ := replays _ (.refl _)
    rw [removeDeleted_empty] at ran
    refine ⟨child, .fresh ?_ whole (named.symm ▸ ran), ?_, result ▸ .some matched⟩
    · intro v current
      obtain ⟨u, uFound, rfl⟩ := Option.map_eq_some_iff.mp current
      rw [uFound] at related
      generalize priorFound : old.dirAt name = prior at related
      cases related with
      | some sameChild => rw [refersTo_removed, ← refersTo_same _ _ sameChild, unmatched _ priorFound]
    · rw [← matched.name, (lookup_member result).2]

theorem liveFile_eq (patch : DirectoryNode) (name : String) :
    liveFile patch.files name = (patch.fileAt name).filter (fun file => !file.deltaFields.deleted) := rfl

theorem liveDir_eq (patch : DirectoryNode) (name : String) :
    liveDir patch.subdirs name = (patch.dirAt name).filter (fun dir => !dir.deltaFields.deleted) := rfl

theorem sameDir_trans {a b c : Option DirectoryNode} (left : Option.Rel Same a b) (right : Option.Rel Same b c) :
    Option.Rel Same a c := by
  cases left with
  | none => exact right
  | some same =>
    cases right with
    | some same' => exact .some (same.trans same')

theorem EntryReplays.settled {name : String} {dst : DirectoryNode} (distinct : patch.Distinct)
    (oldDistinct : old.Distinct) (newDistinct : new.Distinct) (same : Same old dst)
    (entry : EntryReplays patch old new name) (noDir : liveDir patch.subdirs name = none) :
    (new.fileAt name = match liveFile patch.files name with
      | some file => some (patchedFile file ((removeDeleted dst patch).fileAt name))
      | none => (removeDeleted dst patch).fileAt name) ∧
    Option.Rel Same (new.dirAt name) (match liveFile patch.files name with
      | some _ => none
      | none => (removeDeleted dst patch).dirAt name) := by
  have fileSame := same.fileAt oldDistinct name
  have dirSame := same.dirAt oldDistinct name
  rw [liveDir_eq] at noDir
  rw [liveFile_eq, removeDeleted_fileAt distinct, removeDeleted_dirAt distinct]
  cases entry with
  | untouched noFile noEntry fileKept dirKept =>
    simp only [noFile, noEntry, Option.filter_none]
    exact ⟨fileKept.trans fileSame, sameDir_trans dirKept dirSame⟩
  | fileDeleted file entry gone noFile dirKept =>
    simp only [entry, distinct.dirAt_of_fileAt entry, gone, Option.filter_some, Bool.not_true, Bool.false_eq_true,
      if_false, if_true]
    exact ⟨noFile, sameDir_trans dirKept dirSame⟩
  | filePatched file entry live whole result =>
    simp only [entry, live, Option.filter_some, Bool.not_false, Bool.false_eq_true, if_false, if_true]
    rw [← fileSame, newDistinct.dirAt_of_fileAt result]
    exact ⟨result, .none⟩
  | dirDeleted dir entry gone noDir fileKept =>
    simp only [entry, distinct.fileAt_of_dirAt entry, gone, Option.filter_none, if_true]
    rw [noDir]
    exact ⟨fileKept.trans fileSame, .none⟩
  | dirPatched dir _ _ entry live => simp [entry, live] at noDir
  | dirCreated dir _ entry live => simp [entry, live] at noDir

theorem EntryReplays.whole {file : FileNode} (distinct : patch.Distinct) (member : file ∈ patch.files)
    (entry : EntryReplays patch old new file.name) (live : file.deltaFields.deleted = false) :
    complete file.deltaFields false = .ok () := by
  have found : patch.fileAt file.name = some file := (lookup_eq_some distinct.files).mpr ⟨member, rfl⟩
  cases entry with
  | untouched noFile => rw [found] at noFile; cases noFile
  | fileDeleted _ entry gone =>
    rw [found] at entry
    cases entry
    rw [live] at gone
    cases gone
  | filePatched _ entry _ whole =>
    rw [found] at entry
    cases entry
    exact whole
  | dirDeleted _ entry => rw [distinct.dirAt_of_fileAt found] at entry; cases entry
  | dirPatched _ _ _ entry => rw [distinct.dirAt_of_fileAt found] at entry; cases entry
  | dirCreated _ _ entry => rw [distinct.dirAt_of_fileAt found] at entry; cases entry

theorem replays_node (distinct : patch.Distinct) (oldDistinct : old.Distinct) (newDistinct : new.Distinct)
    (rootUid : root = true → patch.deltaFields.has "fileuid" = true → patch.nodeMeta.fileUid = old.nodeMeta.fileUid)
    (name : new.name = if root then patch.name else old.name) (full : new.deltaFields = none)
    (nodeMeta : new.nodeMeta = mergeMeta old.nodeMeta patch.nodeMeta patch.deltaFields)
    (xattrs : new.xattrs = if patch.deltaFields.has "extendedattributes" then patch.xattrs else old.xattrs)
    (entries : ∀ name, EntryReplays patch old new name) : Replays patch old new root := by
  intro dst same
  have header := removeDeleted_header dst patch
  have cleaned := removeDeleted_distinct (same.distinct.mp oldDistinct) patch
  obtain ⟨titled, ranMeta, sameFiles, sameDirs, titledName, titledMeta, titledXattrs, titledFields⟩ :
      ∃ titled, mergeDirectoryMetadata (removeDeleted dst patch) patch root = .ok titled ∧
        titled.files = (removeDeleted dst patch).files ∧ titled.subdirs = (removeDeleted dst patch).subdirs ∧
        titled.name = new.name ∧ titled.nodeMeta = new.nodeMeta ∧ titled.xattrs = new.xattrs ∧
        titled.deltaFields = none := by
    refine ⟨_, if_neg ?_, rfl, rfl, ?_, ?_, ?_, rfl⟩
    · simp only [Bool.and_eq_true, decide_eq_true_eq, not_and, not_not, and_imp]
      intro isRoot explicit
      rw [header.nodeMeta, ← same.nodeMeta, rootUid isRoot explicit]
    · rw [name, header.name, same.name]
    · rw [nodeMeta, header.nodeMeta, same.nodeMeta]
    · rw [xattrs, header.xattrs, same.xattrs]
  have titledFile : ∀ name, titled.fileAt name = (removeDeleted dst patch).fileAt name := fun name => by
    rw [DirectoryNode.fileAt, sameFiles, DirectoryNode.fileAt]
  have titledDir : ∀ name, titled.dirAt name = (removeDeleted dst patch).dirAt name := fun name => by
    rw [DirectoryNode.dirAt, sameDirs, DirectoryNode.dirAt]
  obtain ⟨filed, ranFiles, filedDistinct, filedHeader, filedEntries⟩ :=
    mergeFiles_spec distinct.files (fun file member => (entries file.name).whole distinct member)
      (show titled.Distinct by rw [Distinct, sameFiles, sameDirs]; exact cleaned)
  obtain ⟨after, ranDirs, afterDistinct, afterHeader, afterEntries⟩ :=
    mergeSubdirs_spec (fun name child => Option.Rel Same (new.dirAt name) (some child)) distinct.subdirs
      filedDistinct fun dir member live => by
        have found : patch.dirAt dir.name = some dir := (lookup_eq_some distinct.subdirs).mpr ⟨member, rfl⟩
        have noFile : liveFile patch.files dir.name = none := by
          rw [liveFile_eq, distinct.fileAt_of_dirAt found]
          rfl
        have filedEntry := filedEntries dir.name
        rw [noFile] at filedEntry
        rw [filedEntry.2, titledDir]
        exact (entries dir.name).grafts distinct oldDistinct same found live
  have lookups : ∀ name, new.fileAt name = after.fileAt name ∧ Option.Rel Same (new.dirAt name) (after.dirAt name) := by
    intro name
    have entry := afterEntries name
    cases live : liveDir patch.subdirs name with
    | some dir =>
      rw [live] at entry
      obtain ⟨noFile, child, found, related⟩ := entry
      rw [noFile, found]
      refine ⟨?_, related⟩
      generalize newFound : new.dirAt name = target at related
      cases related
      exact newDistinct.fileAt_of_dirAt newFound
    | none =>
      rw [live] at entry
      have filedEntry := filedEntries name
      have settled := (entries name).settled distinct oldDistinct newDistinct same live
      rw [entry.1, entry.2]
      split at filedEntry
      all_goals
        rename_i patched
        rw [patched] at settled
        rw [filedEntry.1, filedEntry.2, titledFile]
      · exact settled
      · rw [titledDir]
        exact settled
  refine ⟨after, ?_, .of_lookups newDistinct afterDistinct ?_ ?_ ?_ ?_ (fun n => (lookups n).1) fun n => (lookups n).2⟩
  · rw [mergeDir_eq]
    simp only [ranMeta, ranFiles, ranDirs, Bind.bind, Except.bind]
  · rw [afterHeader.deltaFields, filedHeader.deltaFields, titledFields, full]
  · rw [afterHeader.name, filedHeader.name, titledName]
  · rw [afterHeader.nodeMeta, filedHeader.nodeMeta, titledMeta]
  · rw [afterHeader.xattrs, filedHeader.xattrs, titledXattrs]

end Replays

end TapeRs.Ltfs.Incremental
