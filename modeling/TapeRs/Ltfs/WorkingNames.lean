import TapeRs.Data.Run
import TapeRs.Ltfs.Reference
import TapeRs.Ltfs.Validation
import TapeRs.Ltfs.VolumeCalls

namespace TapeRs.Ltfs

open DirectoryNode Namespace Incremental

namespace Call

variable {call : Call} {a b : Volume}

/-- An entered file meets no directory of its name, and no file where a directory is needed. -/
def Clear (call : Call) (volume : Volume) : Prop :=
  match call.target volume with
  | some (dirs, name) => volume.working.root.Clear dirs name
  | none => True

instance (call : Call) (volume : Volume) : Decidable (call.Clear volume) :=
  show Decidable (match call.target volume with
    | some (dirs, name) => volume.working.root.Clear dirs name
    | none => True) from
  match call.target volume with
  | some (dirs, name) => inferInstanceAs (Decidable (volume.working.root.Clear dirs name))
  | none => .isTrue trivial

/-- No part of the path of an entered file is a dot, two dots or has a null character. -/
def Legal (call : Call) (volume : Volume) : Prop :=
  match call.target volume with
  | some (dirs, name) => ∀ part ∈ dirs ++ [name], illegalPart part = false
  | none => True

instance (call : Call) (volume : Volume) : Decidable (call.Legal volume) :=
  show Decidable (match call.target volume with
    | some (dirs, name) => ∀ part ∈ dirs ++ [name], illegalPart part = false
    | none => True) from
  match call.target volume with
  | some (dirs, name) => inferInstanceAs (Decidable (∀ part ∈ dirs ++ [name], illegalPart part = false))
  | none => .isTrue trivial

theorem splitPath_solid {path name : String} {dirs : List String} (parsed : splitPath path = .ok (dirs, name)) :
    ∀ part ∈ dirs ++ [name], part.isEmpty = false ∧ '/' ∉ part.toList := by
  unfold splitPath at parsed
  split at parsed
  · rename_i found last
    obtain rfl := Except.ok.inj parsed
    intro part member
    rw [← splitLast_eq_some.mp last] at member
    exact Text.components_solid member
  · cases parsed

theorem tailName_solid (volume : Volume) (first : UInt64) :
    (volume.tailName first).isEmpty = false ∧ '/' ∉ (volume.tailName first).toList := by
  have digits : ∀ value : UInt64, '/' ∉ (Text.decimal value).toList := by
    intro value member
    exact absurd (Text.decimal_digits value '/' member) (by decide)
  constructor
  · simp [Volume.tailName, ← String.toList_eq_nil_iff]
  · simp [Volume.tailName, digits]

theorem target_solid {dirs : List String} {name : String} (targeted : call.target a = some (dirs, name)) :
    ∀ part ∈ dirs ++ [name], part.isEmpty = false ∧ '/' ∉ part.toList := by
  have parsed : ∀ path, (splitPath path).toOption = some (dirs, name) → splitPath path = .ok (dirs, name) := by
    intro path found
    cases answer : splitPath path with
    | error error =>
      rw [answer] at found
      cases found
    | ok pair =>
      rw [answer] at found
      rw [Option.some.inj found]
  cases call with
  | append path source xattrs preserved => exact splitPath_solid (parsed path targeted)
  | addSymlink path target preserved => exact splitPath_solid (parsed path targeted)
  | closeTail policy =>
    cases policy with
    | discard => cases targeted
    | salvage =>
      cases targeted
      intro part member
      rcases List.mem_cons.mp member with rfl | last
      · exact ⟨by decide, by decide⟩
      · obtain rfl := List.mem_singleton.mp last
        exact tailName_solid a a.tailStart
  | _ => cases targeted

theorem enters_unique (enters : call.Enters a b) (clear : call.Clear a) (working : a.working.root.UniqueNames)
    (index : a.index.root.UniqueNames) : b.working.root.UniqueNames ∧ b.index.root.UniqueNames := by
  obtain ⟨middle, entry, quiet⟩ := enters
  have entered : middle.root.UniqueNames := by
    cases entry with
    | idle | spent => exact working
    | filed dirs name clock node targeted drawn named =>
      unfold Clear at clear
      rw [targeted] at clear
      exact (LtfsIndex.register_unique working).mpr (named ▸ clear)
  exact ⟨quiet.working.unique entered, quiet.unique index entered⟩

theorem enters_orderly (enters : call.Enters a b) (legal : call.Legal a) (working : a.working.root.Throughout Orderly)
    (index : a.index.root.Throughout Orderly) :
    b.working.root.Throughout Orderly ∧ b.index.root.Throughout Orderly := by
  obtain ⟨middle, entry, quiet⟩ := enters
  have entered : middle.root.Throughout Orderly := by
    cases entry with
    | idle | spent => exact working
    | filed dirs name clock node targeted drawn named whole =>
      unfold Legal at legal
      rw [targeted] at legal
      have fine : ∀ part ∈ dirs ++ [name], LegalName part := fun part member =>
        ⟨(target_solid targeted part member).1, (target_solid targeted part member).2, legal part member⟩
      refine ensureDir_orderly clock _ working whole (named ▸ fine name (by simp)) fun part member => ?_
      exact fine part (List.mem_append_left _ member)
  exact ⟨quiet.working.orderly entered, quiet.orderly index entered⟩

theorem enters_rootName (enters : call.Enters a b) : b.working.root.name = a.working.root.name := by
  obtain ⟨middle, entry, quiet⟩ := enters
  refine quiet.working.name.trans ?_
  cases entry with
  | idle | spent => rfl
  | filed => exact LtfsIndex.register_name

end Call

namespace Volume

theorem mount_working {label : Label} {report : RecoveryReport} {maxChainLen : UInt32} {volume : Volume}
    (mounted : mount label report maxChainLen = .ok volume) : volume.working = volume.index := by
  unfold mount at mounted
  split at mounted
  · exact Except.ok.inj mounted ▸ rfl
  · cases mounted
  · cases mounted

end Volume

namespace Mounted

variable {δ : Type} (drive : Drive δ) (host : Host)

def Unique (state : Mounted δ) : Prop :=
  state.volume.working.root.UniqueNames ∧ state.volume.index.root.UniqueNames

def Regular (state : Mounted δ) : Prop :=
  state.volume.working.root.Throughout Orderly ∧ state.volume.index.root.Throughout Orderly ∧
    RootName state.volume.working.root.name

/-- From a mount with unique names, calls whose entries meet nothing of their name keep names unique; where the names are
    also legal, the check of an incremental commit passes. -/
theorem unique_names {label : Label} {report : RecoveryReport} {maxChainLen : UInt32} {volume : Volume} {device : δ}
    {state : Mounted δ} (mounted : Volume.mount label report maxChainLen = .ok volume)
    (unique : volume.index.root.UniqueNames)
    (run : Run.Reaches (step drive host) (fun state call => call.1.Clear state.volume) ⟨volume, device⟩ state) :
    state.volume.working.root.UniqueNames ∧
      (volume.index.root.Throughout Orderly → RootName volume.index.root.name →
        Run.Reaches (step drive host) (fun state call => call.1.Clear state.volume ∧ call.1.Legal state.volume)
          ⟨volume, device⟩ state →
        validateDir (state.volume.working.incrementalDelta state.volume.index).root true = .ok ()) := by
  have working := Volume.mount_working mounted
  have apart : state.Unique := by
    refine run.invariant ?_ ⟨working ▸ unique, unique⟩
    rintro state ⟨call, clock⟩ ⟨inWorking, inIndex⟩ clear
    exact Call.enters_unique (Call.run_enters drive host clock call state) clear inWorking inIndex
  refine ⟨apart.1, fun orderly named legalRun => ?_⟩
  have regular : state.Regular := by
    refine legalRun.invariant ?_ ⟨working ▸ orderly, orderly, working ▸ named⟩
    rintro state ⟨call, clock⟩ ⟨inWorking, inIndex, rootName⟩ ⟨_, legal⟩
    have enters := Call.run_enters drive host clock call state
    obtain ⟨workingAfter, indexAfter⟩ := Call.enters_orderly enters legal inWorking inIndex
    refine ⟨workingAfter, indexAfter, ?_⟩
    have same := Call.enters_rootName enters
    show RootName (step drive host state (call, clock)).volume.working.root.name
    exact same ▸ rootName
  exact validateDir_difference apart.1 apart.2 regular.1 regular.2.1 ⟨regular.2.2, nofun⟩

end Mounted

/-- A drive that carries out every command and has nothing on its tape to read. -/
def Drive.willing : Drive Unit where
  verifyHolder _ := pure ()
  locate _ _ := pure ()
  locateIfNeeded _ _ := pure ()
  readPosition := pure (1, 0)
  readBlock _ := pure []
  writeBlock block := pure block.length
  writeFilemark _ := pure ()
  writeFilemarkImmediate _ := pure ()
  appendOnlyMode := pure false
  allowOverwriteCurrent _ _ := pure ()
  readVcr := pure none
  writeVci _ _ := pure ()

def Host.sample : Host where
  crates := Crates.reference
  md5 _ := [0xd4, 0x1d, 0x8c, 0xd9, 0x8f, 0x00, 0xb2, 0x04, 0xe9, 0x80, 0x09, 0x98, 0xec, 0xf8, 0x42, 0x7e]
  sha256 _ := [0xe3, 0xb0, 0xc4, 0x42, 0x98, 0xfc, 0x1c, 0x14, 0x9a, 0xfb, 0xf4, 0xc8, 0x99, 0x6f, 0xb9, 0x24, 0x27, 0xae,
    0x41, 0xe4, 0x64, 0x9b, 0x93, 0x4c, 0xa4, 0x95, 0x99, 0x1b, 0x78, 0x52, 0xb8, 0x55]
  nanos _ := none

def sampleClock : Clock := fun _ => "2024-01-01T00:00:00.000000000Z"

def sampleLabel : Label := { volumeUuid := 1, indexPartition := 'a', dataPartition := 'b', blocksize := 524288 }

def sampleReport (index : LtfsIndex) : RecoveryReport where
  dp := { eod := 7, lastIndex := some { startBlock := 5, endBlock := 6, constructSha256 := [], index }, tail := .complete
          budgetExhausted := false }
  ip := { eod := 7, lastIndex := some { startBlock := 5, endBlock := 6, constructSha256 := [], index }, tail := .complete
          budgetExhausted := false }
  chainOk := true
  incrementalDepth := 0
  appendOk := true

def sampleVolume (index : LtfsIndex) : Volume where
  label := sampleLabel
  working := index
  index
  committedConstruct :=
    { volumeUuid := index.volumeUuid, generation := index.generation, location := index.selfLocation, sha256 := []
      incremental := index.incremental }
  p1WriteHead := 7
  dirty := false
  lastDpIndex := some index.selfLocation
  lastDpIncremental := none
  lastIp := some (index.generation, 5)
  incrementalDepth := 0
  incrementalLimit := 5
  recovery := sampleReport index
  writable := true
  restrictedReason := none
  hashPolicy := {}
  reservationGuard := none

def sampleIndex : LtfsIndex :=
  let index := LtfsIndex.empty 1 "tape-rs" 'b' (sampleClock 0)
  { index with
    selfLocation := { partition := 'b', startBlock := 5 }
    highestFileUid := 2
    root := index.root.withDir { name := "x", nodeMeta := .now (sampleClock 0) 2 false } }

namespace Mounted

theorem unique_names_appended :
    let state := step Drive.willing Host.sample ⟨sampleVolume sampleIndex, ()⟩
      (.append "x/file" ⟨[], none⟩ [] none, sampleClock)
    state.volume.working.root.UniqueNames ∧
      validateDir (state.volume.working.incrementalDelta state.volume.index).root true = .ok () := by
  have mounted : Volume.mount sampleLabel (sampleReport sampleIndex) 64 = .ok (sampleVolume sampleIndex) := rfl
  have legal : Run.Follows (step Drive.willing Host.sample)
      (fun state call => call.1.Clear state.volume ∧ call.1.Legal state.volume)
      ⟨sampleVolume sampleIndex, ()⟩ [(.append "x/file" ⟨[], none⟩ [] none, sampleClock)] := by decide
  obtain ⟨unique, passes⟩ := unique_names Drive.willing Host.sample mounted (by decide)
    (legal.reaches.weaken fun _ _ both => both.1)
  exact ⟨unique, passes (by decide) (by decide) legal.reaches⟩

/-- A directory is made and a file appended under its name: both stand side by side, and the incremental commit fails
    when its opening filemark is on the tape. -/
theorem unique_names_shadowed :
    Volume.mount sampleLabel (sampleReport sampleIndex) 64 = .ok (sampleVolume sampleIndex) ∧
    sampleIndex.root.UniqueNames ∧
    let made := (Call.createDirectory "y").run Drive.willing Host.sample sampleClock ⟨sampleVolume sampleIndex, ()⟩
    let answer := (Call.append "y" ⟨[], none⟩ [] none).run Drive.willing Host.sample sampleClock made.2
    let committed := Call.commitIncremental.run Drive.willing Host.sample sampleClock answer.2
    made.1 = .ok () ∧ answer.1 = .ok () ∧ ¬ answer.2.volume.working.root.UniqueNames ∧
      committed.1 = .error (.commitFailed "encode" (bad "同一路径出现多次")) :=
  ⟨rfl, by decide, rfl, rfl, by decide, by decide⟩

end Mounted

end TapeRs.Ltfs
