import TapeRs.Ltfs.Commit

open TapeRs.Keyed

namespace TapeRs.Ltfs

open DirectoryNode Volume LtfsIndex

namespace Volume

/-- The indexes and the recovery report are untouched. -/
structure Steady (a b : Volume) : Prop where
  working : b.working = a.working
  index : b.index = a.index
  recovery : b.recovery = a.recovery

theorem Steady.refl (a : Volume) : Steady a a := ⟨rfl, rfl, rfl⟩

theorem Steady.trans {a b c : Volume} (first : Steady a b) (second : Steady b c) : Steady a c :=
  ⟨second.working.trans first.working, second.index.trans first.index, second.recovery.trans first.recovery⟩

/-- Tame edits of the working index, some of them published. -/
structure Quiet (a b : Volume) : Prop where
  working : LtfsIndex.Tame a.working b.working
  unique : a.index.root.UniqueNames → a.working.root.UniqueNames → b.index.root.UniqueNames
  orderly : a.index.root.Throughout Orderly → a.working.root.Throughout Orderly → b.index.root.Throughout Orderly

namespace Quiet

variable {a b c : Volume}

theorem trans (first : Quiet a b) (second : Quiet b c) : Quiet a c where
  working := first.working.trans second.working
  unique := fun index working => second.unique (first.unique index working) (first.working.unique working)
  orderly := fun index working => second.orderly (first.orderly index working) (first.working.orderly working)

theorem of_working (working : LtfsIndex.Tame a.working b.working) (index : b.index = a.index) : Quiet a b :=
  ⟨working, fun unique _ => index ▸ unique, fun orderly _ => index ▸ orderly⟩

theorem of_steady (steady : Steady a b) : Quiet a b :=
  of_working (steady.working ▸ .refl _) steady.index

theorem refl (a : Volume) : Quiet a a := of_steady (.refl a)

theorem of_published (working : LtfsIndex.Tame a.working b.working) (index : b.index.root = b.working.root) :
    Quiet a b :=
  ⟨working, fun _ unique => index ▸ working.unique unique, fun _ orderly => index ▸ working.orderly orderly⟩

end Quiet

end Volume

namespace Mounted

variable {δ ε α β : Type}

def Steady (a b : Mounted δ) : Prop := a.volume.Steady b.volume

def Quiet (a b : Mounted δ) : Prop := a.volume.Quiet b.volume

theorem Steady.refl (a : Mounted δ) : Steady a a := Volume.Steady.refl _

theorem Steady.trans (a b c : Mounted δ) (first : Steady a b) (second : Steady b c) : Steady a c :=
  Volume.Steady.trans first second

theorem Quiet.refl (a : Mounted δ) : Quiet a a := Volume.Quiet.refl _

theorem Quiet.trans (a b c : Mounted δ) (first : Quiet a b) (second : Quiet b c) : Quiet a c :=
  Volume.Quiet.trans first second

theorem Steady.quiet {a b : Mounted δ} (steady : Steady a b) : Quiet a b := Volume.Quiet.of_steady steady

section Rules

variable {first : Op (Mounted δ) ε α} {next : α → Op (Mounted δ) ε β}

theorem steady_quiet (steady : first.Keeps Steady) : first.Keeps Quiet := fun state => (steady state).quiet

theorem steady_bind (head : first.Keeps Steady) (tail : ∀ value, (next value).Keeps Steady) :
    (first >>= next).Keeps Steady :=
  head.bind Steady.trans tail

theorem quiet_bind (head : first.Keeps Quiet) (tail : ∀ value, (next value).Keeps Quiet) :
    (first >>= next).Keeps Quiet :=
  head.bind Quiet.trans tail

theorem quiet_after (head : first.Keeps Steady) (tail : ∀ value, (next value).Keeps Quiet) :
    (first >>= next).Keeps Quiet :=
  quiet_bind (steady_quiet head) tail

theorem steady_pure (value : α) : (pure value : Op (Mounted δ) ε α).Keeps Steady := .pure Steady.refl value

theorem steady_throw (error : ε) : (Op.throw error : Op (Mounted δ) ε α).Keeps Steady := .throw Steady.refl error

theorem steady_get : (Op.get : Op (Mounted δ) ε (Mounted δ)).Keeps Steady := .get Steady.refl

theorem steady_lift (result : Except ε α) : (Op.lift result : Op (Mounted δ) ε α).Keeps Steady :=
  .lift Steady.refl result

theorem steady_send (command : Op δ ε α) : (send command).Keeps Steady := fun _ => ⟨rfl, rfl, rfl⟩

theorem steady_modify {f : Volume → Volume} (steady : ∀ volume : Volume, volume.Steady (f volume)) :
    (Op.modify (onVolume f) : Op (Mounted δ) ε Unit).Keeps Steady :=
  fun state => steady state.volume

theorem quiet_modify {f : Volume → Volume} (quiet : ∀ volume : Volume, volume.Quiet (f volume)) :
    (Op.modify (onVolume f) : Op (Mounted δ) ε Unit).Keeps Quiet :=
  fun state => quiet state.volume

end Rules

variable (drive : Drive δ) (host : Host) (clock : Clock)

theorem ensureWritable_steady : (ensureWritable : VolumeOp δ Unit).Keeps Steady := by
  refine steady_bind steady_get fun state => ?_
  split
  · exact steady_pure _
  · exact steady_throw _

theorem guarded_steady {command : Op δ TapeError α} {adjust : TapeError → Volume → Volume}
    (steady : ∀ error volume, Volume.Steady volume (adjust error volume)) :
    ((send command).onError id fun error => onVolume (adjust error)).Keeps Steady :=
  (steady_send command).onError Steady.trans fun error state => steady error state.volume

theorem checkReservationGuard_steady : (checkReservationGuard drive).Keeps Steady := by
  refine steady_bind steady_get fun state => ?_
  cases state.volume.reservationGuard with
  | none => exact steady_pure _
  | some key => exact guarded_steady fun error volume => ⟨rfl, rfl, rfl⟩

theorem writeRecords_steady (blocks : List (List UInt8)) (failure : Option TapeError) :
    (writeRecords drive blocks failure).Keeps Steady := by
  have frozen : ∀ error (state : Mounted δ), Steady state (onVolume (.freeze "data_records" error) state) :=
    fun _ _ => ⟨rfl, rfl, rfl⟩
  induction blocks with
  | nil =>
    cases failure with
    | none => exact steady_pure _
    | some error => exact (steady_throw error).onError Steady.trans fun _ _ => ⟨rfl, rfl, rfl⟩
  | cons block rest ih =>
    refine steady_bind ((steady_send _).onError Steady.trans frozen) fun written => ?_
    split
    · exact ih
    · exact (steady_throw _).onError Steady.trans frozen

theorem rewrite_quiet {f : LtfsIndex → Result LtfsIndex}
    (tame : ∀ before after, f before = .ok after → LtfsIndex.Tame before after) :
    (rewrite f : VolumeOp δ Unit).Keeps Quiet := by
  refine quiet_after ensureWritable_steady fun _ => Op.Keeps.get_bind fun state => ?_
  cases done : f state.volume.working with
  | error error => exact Quiet.refl state
  | ok after => exact Volume.Quiet.of_working (tame _ _ done) rfl

theorem createDirectory_quiet (path : String) : (createDirectory clock path : VolumeOp δ Unit).Keeps Quiet :=
  rewrite_quiet fun _ _ done => createDirectory_tame done

theorem removeDirectory_quiet (path : String) : (removeDirectory clock path : VolumeOp δ Unit).Keeps Quiet :=
  rewrite_quiet fun _ _ done => removeDirectory_tame done

theorem renamePath_quiet (source target : String) : (renamePath clock source target : VolumeOp δ Unit).Keeps Quiet :=
  rewrite_quiet fun _ _ done => renamePath_tame done

theorem setCatalogVersion_quiet (path version : String) :
    (setCatalogVersion path version : VolumeOp δ Unit).Keeps Quiet :=
  rewrite_quiet fun _ _ done => setCatalogVersion_tame done

theorem setNodeXattr_quiet (path : String) (attr : Xattr) (createOnly replaceOnly : Bool) :
    (setNodeXattr clock path attr createOnly replaceOnly : VolumeOp δ Unit).Keeps Quiet :=
  rewrite_quiet fun _ _ done => setNodeXattr_tame done

theorem removeNodeXattr_quiet (path key : String) : (removeNodeXattr clock path key : VolumeOp δ Unit).Keeps Quiet :=
  rewrite_quiet fun _ _ done => removeNodeXattr_tame done

theorem setNodeReadonly_quiet (path : String) (readonly : Bool) :
    (setNodeReadonly clock path readonly : VolumeOp δ Unit).Keeps Quiet :=
  rewrite_quiet fun _ _ done => setNodeReadonly_tame done

theorem discarded_trims (name : String) (dir : DirectoryNode) :
    Trims { dir with files := discard (·.name) name dir.files, subdirs := discard (·.name) name dir.subdirs } dir :=
  ⟨rfl, rfl, rfl, List.filter_sublist.map _, List.filter_sublist⟩

theorem removeFile_quiet (path : String) : (removeFile path : VolumeOp δ Bool).Keeps Quiet := by
  refine quiet_after ensureWritable_steady fun _ => quiet_after (steady_lift _) ?_
  rintro ⟨dirs, name⟩
  refine Op.Keeps.get_bind fun state => ?_
  cases led : state.volume.working.root.descend dirs with
  | none => exact Quiet.refl state
  | some dir =>
    dsimp only
    split
    · exact Volume.Quiet.of_working (.of_trims led rfl rfl ⟨rfl, rfl, rfl, List.filter_sublist.map _, .refl _⟩) rfl
    · exact Quiet.refl state

theorem discardCatalogPath_quiet (path : String) : (discardCatalogPath path : VolumeOp δ Unit).Keeps Quiet := by
  refine quiet_after ensureWritable_steady fun _ => quiet_after (steady_lift _) ?_
  rintro ⟨dirs, name⟩
  refine Op.Keeps.get_bind fun state => ?_
  cases led : state.volume.working.root.descend dirs with
  | none => exact Quiet.refl state
  | some dir => exact Volume.Quiet.of_working (.of_trims led rfl rfl (discarded_trims name dir)) rfl

theorem provideDirectory_quiet (path : String) : (provideDirectory clock path : VolumeOp δ Unit).Keeps Quiet := by
  refine quiet_after steady_get fun state => ?_
  split
  · exact steady_quiet (steady_pure _)
  refine quiet_bind (removeFile_quiet path) fun _ => Op.Keeps.get_bind fun state => ?_
  cases done : state.volume.working.createDirectory clock path with
  | error error => exact Quiet.refl state
  | ok after => exact Volume.Quiet.of_working (createDirectory_tame done) rfl

theorem putCatalogDirectory_quiet (path version : String) (metadata : FileMetadata) :
    (putCatalogDirectory clock path version metadata : VolumeOp δ Unit).Keeps Quiet := by
  refine quiet_after ensureWritable_steady fun _ =>
    quiet_bind (provideDirectory_quiet clock path) fun _ => quiet_after (steady_lift _) ?_
  rintro ⟨dirs, name⟩
  refine quiet_modify fun volume => .of_working ?_ rfl
  cases led : volume.working.root.descend (dirs ++ [name]) with
  | none => exact .of_root (edit_absent led) rfl
  | some dir => exact .of_trims led rfl rfl ⟨rfl, rfl, rfl, .refl _, .refl _⟩

theorem changeNodeMetadata_quiet (path : String) (change : MetadataChange) :
    (changeNodeMetadata host clock path change : VolumeOp δ Unit).Keeps Quiet := by
  refine quiet_after ensureWritable_steady fun _ => Op.Keeps.get_bind fun state => ?_
  cases done : state.volume.working.changeNodeMetadata host.nanos clock path change with
  | error error => exact Quiet.refl state
  | ok after => exact Volume.Quiet.of_working (changeNodeMetadata_tame done) rfl

theorem setRootXattr_quiet (key value : String) : (setRootXattr key value : VolumeOp δ Unit).Keeps Quiet := by
  refine rewrite_quiet fun before after done => ?_
  obtain rfl := Except.ok.inj done
  have own : before.root.descend [] = some before.root := rfl
  exact .of_trims (f := fun root => { root with xattrs := setXattr key value root.xattrs }) own rfl rfl
    ⟨rfl, rfl, rfl, .refl _, .refl _⟩

section Commits

theorem stage_steady {op : VolumeOp δ α} (stage : String) (steady : op.Keeps Steady) :
    (atStage stage op).Keeps Steady :=
  steady.onError Steady.trans fun _ state => Steady.refl state

theorem verifyGuard_steady (stage : String) : (verifyGuard drive stage).Keeps Steady := by
  refine steady_bind steady_get fun state => ?_
  cases state.volume.reservationGuard with
  | none => exact steady_pure _
  | some key => exact stage_steady _ (steady_send _)

theorem writeBlocks_steady (blocks : List (List UInt8)) : (writeBlocks drive blocks).Keeps Steady := by
  induction blocks with
  | nil => exact steady_pure _
  | cons block rest ih => exact steady_bind (steady_send _) fun _ => ih

theorem writeVciAll_steady (block : UInt64) (checkpoint : Bool) : (writeVciAll drive block checkpoint).Keeps Steady := by
  refine steady_bind (steady_send _) fun vcr => ?_
  cases vcr with
  | none => exact steady_pure _
  | some vcr =>
    dsimp only
    split
    · refine steady_bind steady_get fun state => ?_
      split
      · exact steady_send _
      · exact steady_bind (steady_send _) fun _ => steady_send _
    · exact steady_pure _

theorem allowOverwrite_steady : (allowOverwrite drive).Keeps Steady := by
  refine steady_bind (stage_steady _ (steady_send _)) fun appendOnly => ?_
  split
  · refine steady_bind steady_get fun state => ?_
    cases state.volume.reservationGuard with
    | none => exact steady_throw _
    | some key => exact steady_bind (stage_steady _ (steady_send _)) fun _ => stage_steady _ (steady_send _)
  · exact steady_pure _

theorem writeIpIndex_steady (block : UInt64) : (writeIpIndex drive host block).Keeps Steady := by
  refine steady_bind steady_get fun state => steady_bind (stage_steady _ (steady_lift _)) fun xml => ?_
  refine steady_bind (stage_steady _ (steady_send _)) fun _ => steady_bind (allowOverwrite_steady drive) fun _ => ?_
  refine steady_bind (stage_steady _ (steady_send _)) fun _ => ?_
  exact steady_bind (stage_steady _ (writeBlocks_steady drive _)) fun _ => stage_steady _ (steady_send _)

theorem writeCheckpoint_steady (checkpoint : Bool) (block : UInt64) :
    (writeCheckpoint drive host checkpoint block).Keeps Steady := by
  unfold writeCheckpoint
  split
  · exact writeIpIndex_steady drive host block
  · exact steady_pure _

theorem commitInner_quiet (incremental checkpoint adaptive : Bool) :
    (commitInner drive host clock incremental checkpoint adaptive).Keeps Quiet := by
  have header : ∀ (a b : Volume), b.working.root = a.working.root → b.working.highestFileUid = a.working.highestFileUid →
      b.index = a.index → a.Quiet b := fun a b root highest index => .of_working (.of_root root highest) index
  refine quiet_after (verifyGuard_steady drive _) fun _ => ?_
  refine quiet_bind (quiet_modify fun volume => header _ _ rfl rfl rfl) fun _ => ?_
  refine quiet_after steady_get fun state => ?_
  refine quiet_after (stage_steady _ (steady_send _)) fun _ => ?_
  refine quiet_after (stage_steady _ (steady_send _)) fun _ => ?_
  refine quiet_bind (quiet_modify fun volume => header _ _ rfl rfl rfl) fun _ => ?_
  refine quiet_after steady_get fun state => ?_
  refine quiet_after (stage_steady _ (steady_lift _)) ?_
  rintro ⟨xml, incremental⟩
  refine quiet_bind (quiet_modify fun volume => header _ _ rfl rfl rfl) fun _ => ?_
  refine quiet_after (stage_steady _ (writeBlocks_steady drive _)) fun _ => ?_
  refine quiet_after (stage_steady _ (steady_send _)) fun _ => ?_
  refine quiet_bind (quiet_modify fun volume => header _ _ rfl rfl rfl) fun _ => ?_
  refine quiet_after (writeCheckpoint_steady drive host _ _) fun _ => ?_
  refine quiet_after (verifyGuard_steady drive _) fun _ => ?_
  refine quiet_after (stage_steady _ (steady_send _)) fun _ => ?_
  refine quiet_after (stage_steady _ (writeVciAll_steady drive _ _)) fun _ => ?_
  exact quiet_modify fun volume => .of_published (.of_root rfl rfl) rfl

theorem checkpointExisting_steady : (checkpointExisting drive host).Keeps Steady := by
  refine steady_bind (verifyGuard_steady drive _) fun _ => steady_bind steady_get fun state => ?_
  refine steady_bind (writeIpIndex_steady drive host _) fun _ => steady_bind (verifyGuard_steady drive _) fun _ => ?_
  refine steady_bind (stage_steady _ (steady_send _)) fun _ => ?_
  exact steady_bind (stage_steady _ (writeVciAll_steady drive _ _)) fun _ => steady_modify fun _ => ⟨rfl, rfl, rfl⟩

theorem finishCommit_quiet {result : StageOp δ Unit} (quiet : result.Keeps Quiet) : (finishCommit result).Keeps Quiet :=
  quiet.onError Quiet.trans fun _ _ => Volume.Quiet.of_steady ⟨rfl, rfl, rfl⟩

theorem commitMode_quiet (incremental checkpoint : Bool) :
    (commitMode drive host clock incremental checkpoint).Keeps Quiet := by
  refine quiet_after steady_get fun state => ?_
  split
  · exact quiet_after ensureWritable_steady fun _ =>
      finishCommit_quiet (commitInner_quiet drive host clock _ _ _)
  · exact steady_quiet (steady_pure _)

theorem commit_quiet : (commit drive host clock).Keeps Quiet := by
  refine quiet_after steady_get fun state => ?_
  split
  · exact quiet_after ensureWritable_steady fun _ =>
      finishCommit_quiet (steady_quiet (checkpointExisting_steady drive host))
  · exact quiet_after (steady_modify fun _ => ⟨rfl, rfl, rfl⟩) fun _ => commitMode_quiet drive host clock _ _

theorem commitIncremental_quiet : (commitIncremental drive host clock).Keeps Quiet := by
  refine quiet_after steady_get fun state => ?_
  split
  · exact steady_quiet (steady_pure _)
  split
  · exact commit_quiet drive host clock
  · split
    · exact commitMode_quiet drive host clock _ _
    · exact commitMode_quiet drive host clock _ _

theorem syncBatch_quiet : (syncBatch drive host clock).Keeps Quiet := by
  refine quiet_after steady_get fun state => ?_
  split
  · exact commitIncremental_quiet drive host clock
  · exact quiet_after ensureWritable_steady fun _ =>
      finishCommit_quiet (commitInner_quiet drive host clock _ _ _)

end Commits

end Mounted

/-- The calls that may change a mounted volume. -/
inductive Call where
  | append (path : String) (source : BlockSource) (xattrs : List (String × String)) (preserved : Option FileMetadata)
  | addSymlink (path target : String) (preserved : Option FileMetadata)
  | removeFile (path : String)
  | createDirectory (path : String)
  | removeDirectory (path : String)
  | renamePath (source target : String)
  | discardCatalogPath (path : String)
  | putCatalogDirectory (path version : String) (metadata : FileMetadata)
  | setCatalogVersion (path version : String)
  | setNodeXattr (path : String) (attr : Xattr) (createOnly replaceOnly : Bool)
  | removeNodeXattr (path key : String)
  | changeNodeMetadata (path : String) (change : MetadataChange)
  | setNodeReadonly (path : String) (readonly : Bool)
  | setRootXattr (key value : String)
  | setReservationGuard (key : Option ReservationKey)
  | setHashPolicy (policy : HashPolicy)
  | closeTail (policy : TailPolicy)
  | commit
  | sync
  | commitIncremental
  | syncBatch

namespace Call

variable {δ : Type} (drive : Drive δ) (host : Host) (clock : Clock)

def run : Call → VolumeOp δ Unit
  | append path source xattrs preserved => do
    let _ ← Mounted.appendBlocks drive host clock path source xattrs preserved
    pure ()
  | addSymlink path target preserved => Mounted.addSymlinkWithMetadata clock path target preserved
  | removeFile path => do
    let _ ← Mounted.removeFile path
    pure ()
  | createDirectory path => Mounted.createDirectory clock path
  | removeDirectory path => Mounted.removeDirectory clock path
  | renamePath source target => Mounted.renamePath clock source target
  | discardCatalogPath path => Mounted.discardCatalogPath path
  | putCatalogDirectory path version metadata => Mounted.putCatalogDirectory clock path version metadata
  | setCatalogVersion path version => Mounted.setCatalogVersion path version
  | setNodeXattr path attr createOnly replaceOnly => Mounted.setNodeXattr clock path attr createOnly replaceOnly
  | removeNodeXattr path key => Mounted.removeNodeXattr clock path key
  | changeNodeMetadata path change => Mounted.changeNodeMetadata host clock path change
  | setNodeReadonly path readonly => Mounted.setNodeReadonly clock path readonly
  | setRootXattr key value => Mounted.setRootXattr key value
  | setReservationGuard key => Op.modify (Mounted.onVolume ({ · with reservationGuard := key }))
  | setHashPolicy policy => Op.modify (Mounted.onVolume ({ · with hashPolicy := policy }))
  | closeTail policy => do
    let _ ← Mounted.closeTail drive host clock policy
    pure ()
  | commit => Mounted.commit drive host clock
  | sync => Mounted.sync drive host clock
  | commitIncremental => Mounted.commitIncremental drive host clock
  | syncBatch => Mounted.syncBatch drive host clock

def target (volume : Volume) : Call → Option (List String × String)
  | append path _ _ _ => (splitPath path).toOption
  | addSymlink path _ _ => (splitPath path).toOption
  | closeTail .salvage => some ([lostAndFound], volume.tailName volume.tailStart)
  | _ => none

/-- How many identifiers a call may draw without looking whether there are any left. -/
def draws (call : Call) (volume : Volume) : Nat :=
  match call with
  | append .. | addSymlink .. | closeTail .salvage =>
    match call.target volume with
    | some (dirs, _) => volume.working.demand dirs
    | none => 1
  | _ => 0

/-- The working index right behind the entry a call makes. -/
inductive Entry (call : Call) (volume : Volume) : LtfsIndex → Prop
  | idle : Entry call volume volume.working
  | spent (untargeted : call.target volume = none) (drawn : call.draws volume = 1) :
      Entry call volume volume.spent.working
  | filed (dirs : List String) (name : String) (clock : Clock) (node : FileNode)
      (targeted : call.target volume = some (dirs, name)) (drawn : call.draws volume = volume.working.demand dirs)
      (named : node.name = name) (whole : node.deltaFields = none)
      (given : node.nodeMeta.fileUid = volume.working.highestFileUid + 1) :
      Entry call volume (volume.working.register clock dirs node)

def Enters (call : Call) (a b : Volume) : Prop :=
  ∃ middle, call.Entry a middle ∧ Volume.Quiet { a with working := middle } b

section Enters

variable {call : Call} {a b c : Volume}

theorem Enters.of_quiet (quiet : a.Quiet b) : call.Enters a b := ⟨a.working, .idle, quiet⟩

theorem Enters.then_quiet (enters : call.Enters a b) (quiet : b.Quiet c) : call.Enters a c := by
  obtain ⟨middle, entry, first⟩ := enters
  exact ⟨middle, entry, first.trans quiet⟩

theorem target_steady (steady : a.Steady b) : call.target b = call.target a := by
  have start : b.tailStart = a.tailStart := by rw [tailStart, tailStart, steady.recovery]
  have name : ∀ first, b.tailName first = a.tailName first := by
    intro first
    rw [tailName, tailName, steady.index]
  cases call with
  | closeTail policy =>
    cases policy with
    | discard => rfl
    | salvage => rw [target, target, start, name]
  | _ => rfl

theorem draws_steady (steady : a.Steady b) : call.draws b = call.draws a := by
  unfold draws
  rw [target_steady steady, steady.working]

theorem Entry.of_steady (steady : a.Steady b) {middle : LtfsIndex} (entry : call.Entry b middle) :
    call.Entry a middle := by
  cases entry with
  | idle => exact steady.working ▸ .idle
  | spent untargeted drawn =>
    rw [target_steady steady] at untargeted
    rw [draws_steady steady] at drawn
    have same : b.spent.working = a.spent.working := by rw [Volume.spent, Volume.spent, steady.working]
    exact same ▸ .spent untargeted drawn
  | filed dirs name clock node targeted drawn named whole given =>
    rw [target_steady steady] at targeted
    rw [draws_steady steady, steady.working] at drawn
    rw [steady.working] at given ⊢
    exact .filed dirs name clock node targeted drawn named whole given

theorem Enters.after_steady (steady : a.Steady b) (enters : call.Enters b c) : call.Enters a c := by
  obtain ⟨middle, entry, quiet⟩ := enters
  refine ⟨middle, entry.of_steady steady, Volume.Quiet.trans ?_ quiet⟩
  exact .of_working (.refl _) steady.index

end Enters

end Call

namespace Mounted

variable {δ ε α β : Type} {call : Call}

def Enters (call : Call) (a b : Mounted δ) : Prop := call.Enters a.volume b.volume

section Rules

variable {first : Op (Mounted δ) ε α} {next : α → Op (Mounted δ) ε β}

theorem enters_after (head : first.Keeps Steady) (tail : ∀ value, (next value).Keeps (Enters call)) :
    (first >>= next).Keeps (Enters call) :=
  head.seq (fun _ _ steady => .of_quiet (.of_steady steady)) (fun _ _ _ steady enters => enters.after_steady steady) tail

theorem enters_then (head : first.Keeps (Enters call)) (tail : ∀ value, (next value).Keeps Quiet) :
    (first >>= next).Keeps (Enters call) :=
  head.seq (fun _ _ enters => enters) (fun _ _ _ enters quiet => enters.then_quiet quiet) tail

theorem enters_quiet (quiet : first.Keeps Quiet) : first.Keeps (Enters call) := fun state => .of_quiet (quiet state)

end Rules

variable (drive : Drive δ) (host : Host) (clock : Clock)

theorem newMeta_fileUid (preserved : Option FileMetadata) (now : String) (uid : UInt64) :
    (newMeta preserved now uid).fileUid = uid := by
  cases preserved <;> rfl

theorem appendBlocks_enters (path : String) (source : BlockSource) (xattrs : List (String × String))
    (preserved : Option FileMetadata) :
    (appendBlocks drive host clock path source xattrs preserved).Keeps
      (Enters (.append path source xattrs preserved)) := by
  refine enters_after ensureWritable_steady fun _ => ?_
  split
  · exact enters_quiet (steady_quiet (steady_throw _))
  refine enters_after (checkReservationGuard_steady drive) fun _ => enters_after steady_get fun state => ?_
  refine enters_after (steady_send _) fun _ => enters_after (writeRecords_steady drive _ _) fun _ => ?_
  have targeted : ∀ volume, (Call.append path source xattrs preserved).target volume = (splitPath path).toOption :=
    fun _ => rfl
  cases parsed : splitPath path with
  | ok found =>
    obtain ⟨dirs, name⟩ := found
    rw [parsed] at targeted
    intro state
    refine ⟨_, .filed dirs name (fun reading => clock (reading + 1))
      (state.volume.appendedNode host (clock 0) source xattrs preserved name) (targeted _) ?_ rfl rfl
      (newMeta_fileUid _ _ _), .of_working (.refl _) rfl⟩
    simp only [Call.draws, targeted, Except.toOption]
  | error error =>
    rw [parsed] at targeted
    intro state
    refine ⟨_, .spent (targeted _) ?_, .of_working (.refl _) rfl⟩
    simp only [Call.draws, targeted, Except.toOption]

theorem addSymlink_enters (path target : String) (preserved : Option FileMetadata) :
    (addSymlinkWithMetadata clock path target preserved : VolumeOp δ Unit).Keeps
      (Enters (.addSymlink path target preserved)) := by
  refine enters_after ensureWritable_steady fun _ => ?_
  split
  · exact enters_quiet (steady_quiet (steady_throw _))
  have targeted : ∀ volume, (Call.addSymlink path target preserved).target volume = (splitPath path).toOption :=
    fun _ => rfl
  cases parsed : splitPath path with
  | ok found =>
    obtain ⟨dirs, name⟩ := found
    rw [parsed] at targeted
    intro state
    refine ⟨_, .filed dirs name (fun reading => clock (reading + 1))
      (state.volume.linkNode (clock 0) target preserved name) (targeted _) ?_ rfl rfl (newMeta_fileUid _ _ _),
      .of_working (.refl _) rfl⟩
    simp only [Call.draws, targeted, Except.toOption]
  | error error =>
    rw [parsed] at targeted
    intro state
    refine ⟨_, .spent (targeted _) ?_, .of_working (.refl _) rfl⟩
    simp only [Call.draws, targeted, Except.toOption]

section CloseTail

theorem salvageBlocks_steady (count : Nat) (block : UInt64) (salvage : Salvage) :
    (salvageBlocks drive count block salvage).Keeps Steady := by
  induction count generalizing block salvage with
  | zero => exact steady_pure _
  | succ count ih =>
    intro state
    have here := steady_send (drive.readBlock state.volume.blockSize) state
    unfold salvageBlocks
    split <;> rename_i answer <;> rw [answer] at here
    · exact here
    · exact Steady.trans _ _ _ here (ih _ _ _)
    · split <;> exact here
    · exact here

theorem admitCloseTail_steady : (admitCloseTail drive).Keeps Steady := by
  refine steady_bind steady_get fun state => ?_
  cases state.volume.reservationGuard with
  | none => exact steady_throw _
  | some key =>
    refine steady_bind (steady_send _) fun _ => ?_
    cases state.volume.closeTailRefusal with
    | none => exact steady_pure _
    | some why => exact steady_throw _

/-- The entry is made where the call says, if the tail starts at the block that was read before. -/
def EntersFrom (first : UInt64) (call : Call) (a b : Mounted δ) : Prop :=
  a.volume.tailStart = first → Enters call a b

section FromRules

variable {first : UInt64} {head : VolumeOp δ α} {next : α → VolumeOp δ β}

theorem entersFrom_after (steady : head.Keeps Steady) (tail : ∀ value, (next value).Keeps (EntersFrom first call)) :
    (head >>= next).Keeps (EntersFrom first call) := by
  refine steady.seq (fun _ _ steady _ => .of_quiet (.of_steady steady)) ?_ tail
  intro a b c steady enters here
  have start : b.volume.tailStart = a.volume.tailStart := by rw [tailStart, tailStart, steady.recovery]
  exact (enters (start.trans here)).after_steady steady

theorem entersFrom_then (enters : head.Keeps (EntersFrom first call)) (tail : ∀ value, (next value).Keeps Quiet) :
    (head >>= next).Keeps (EntersFrom first call) :=
  enters.seq (fun _ _ enters => enters) (fun _ _ _ enters quiet here => (enters here).then_quiet quiet) tail

theorem entersFrom_steady (steady : head.Keeps Steady) : head.Keeps (EntersFrom first call) :=
  fun state _ => .of_quiet (.of_steady (steady state))

end FromRules

theorem salvageTail_enters (first eod : UInt64) :
    (salvageTail drive clock first eod).Keeps (EntersFrom first (.closeTail .salvage)) := by
  refine entersFrom_after (steady_send _) fun _ => entersFrom_after (salvageBlocks_steady drive _ _ _) fun read => ?_
  dsimp only
  split
  · exact entersFrom_steady (steady_pure _)
  refine entersFrom_after steady_get fun _ state here => ?_
  have targeted : (Call.closeTail .salvage).target state.volume = some ([lostAndFound], state.volume.tailName first) := by
    rw [Call.target, here]
  refine ⟨_, .filed [lostAndFound] _ (fun reading => clock (reading + 1))
    (state.volume.salvagedNode (clock 0) first read.close) targeted ?_ rfl rfl rfl, .of_working (.refl _) rfl⟩
  simp only [Call.draws, targeted]

theorem salvageUnder_enters (policy : TailPolicy) (first eod : UInt64) :
    (salvageUnder drive clock policy first eod).Keeps (EntersFrom first (.closeTail policy)) := by
  cases policy with
  | discard => exact entersFrom_steady (steady_pure _)
  | salvage => exact salvageTail_enters drive clock first eod

theorem tailNoted_quiet (policy : TailPolicy) (first eod : UInt64) (volume : Volume) :
    volume.Quiet (.tailNoted policy first eod volume) := by
  refine .of_working ?_ rfl
  have own : volume.working.root.descend [] = some volume.working.root := rfl
  exact .of_trims (f := fun root => { root with xattrs := (tailNoted policy first eod volume).working.root.xattrs })
    own rfl rfl ⟨rfl, rfl, rfl, .refl _, .refl _⟩

theorem closeTail_enters (policy : TailPolicy) :
    (closeTail drive host clock policy).Keeps (Enters (.closeTail policy)) := by
  refine enters_after (admitCloseTail_steady drive) fun _ => Op.Keeps.get_bind fun state => ?_
  -- The start of the tail is read here; the device commands below leave the recovery report alone.
  refine (?_ : Op.Keeps (EntersFrom state.volume.tailStart (.closeTail policy)) _) state rfl
  refine entersFrom_after (steady_send _) fun _ => entersFrom_after (steady_send _) fun position => ?_
  split
  · exact entersFrom_steady (steady_throw _)
  refine entersFrom_then (salvageUnder_enters drive clock policy _ _) fun salvaged => ?_
  refine quiet_bind (quiet_modify (tailNoted_quiet policy _ _)) fun _ => ?_
  refine quiet_bind (commit_quiet drive host _) fun _ => ?_
  refine quiet_bind (quiet_modify fun volume => .of_working (.refl _) rfl) fun _ => ?_
  exact steady_quiet (steady_bind steady_get fun _ => steady_pure _)

end CloseTail

end Mounted

namespace Call

variable {δ : Type} (drive : Drive δ) (host : Host) (clock : Clock)

open Mounted in
theorem run_enters (call : Call) : (call.run drive host clock).Keeps (Mounted.Enters call) := by
  cases call with
  | append path source xattrs preserved =>
    exact enters_then (appendBlocks_enters drive host clock path source xattrs preserved) fun _ =>
      steady_quiet (steady_pure _)
  | addSymlink path target preserved => exact addSymlink_enters clock path target preserved
  | closeTail policy =>
    exact enters_then (closeTail_enters drive host clock policy) fun _ =>
      steady_quiet (steady_pure _)
  | removeFile path =>
    exact enters_quiet (quiet_bind (removeFile_quiet path) fun _ =>
      steady_quiet (steady_pure _))
  | createDirectory path => exact enters_quiet (createDirectory_quiet clock path)
  | removeDirectory path => exact enters_quiet (removeDirectory_quiet clock path)
  | renamePath source target => exact enters_quiet (renamePath_quiet clock source target)
  | discardCatalogPath path => exact enters_quiet (discardCatalogPath_quiet path)
  | putCatalogDirectory path version metadata =>
    exact enters_quiet (putCatalogDirectory_quiet clock path version metadata)
  | setCatalogVersion path version =>
    exact enters_quiet (setCatalogVersion_quiet path version)
  | setNodeXattr path attr createOnly replaceOnly =>
    exact enters_quiet (setNodeXattr_quiet clock path attr createOnly replaceOnly)
  | removeNodeXattr path key =>
    exact enters_quiet (removeNodeXattr_quiet clock path key)
  | changeNodeMetadata path change =>
    exact enters_quiet (changeNodeMetadata_quiet host clock path change)
  | setNodeReadonly path readonly =>
    exact enters_quiet (setNodeReadonly_quiet clock path readonly)
  | setRootXattr key value => exact enters_quiet (setRootXattr_quiet key value)
  | setReservationGuard | setHashPolicy =>
    exact enters_quiet (steady_quiet (steady_modify fun _ => ⟨rfl, rfl, rfl⟩))
  | commit => exact enters_quiet (commit_quiet drive host clock)
  | sync => exact enters_quiet (commitMode_quiet drive host clock _ _)
  | commitIncremental => exact enters_quiet (commitIncremental_quiet drive host clock)
  | syncBatch => exact enters_quiet (syncBatch_quiet drive host clock)

end Call

/-- One call with the clock readings it takes; a failed call leaves what it has done. -/
def Mounted.step {δ : Type} (drive : Drive δ) (host : Host) (state : Mounted δ) (call : Call × Clock) : Mounted δ :=
  (call.1.run drive host call.2 state).2

end TapeRs.Ltfs
