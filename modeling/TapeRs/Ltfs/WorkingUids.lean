import TapeRs.Ltfs.WorkingNames

namespace TapeRs.Ltfs

namespace LtfsIndex

/-- Every node has an identifier of its own, none is zero and none above the highest one. -/
structure Numbered (index : LtfsIndex) : Prop where
  distinct : index.root.uids.Nodup
  nonzero : ∀ uid ∈ index.root.uids, uid ≠ 0
  bounded : ∀ uid ∈ index.root.uids, uid ≤ index.highestFileUid

instance (index : LtfsIndex) : Decidable index.Numbered :=
  decidable_of_iff (index.root.uids.Nodup ∧ index.root.uids.all fun uid => uid ≠ 0 && uid ≤ index.highestFileUid)
    (by
      simp only [List.all_eq_true, Bool.and_eq_true, decide_eq_true_eq]
      constructor
      · rintro ⟨distinct, uids⟩
        exact ⟨distinct, fun uid member => (uids uid member).1, fun uid member => (uids uid member).2⟩
      · intro numbered
        exact ⟨numbered.distinct, fun uid member => ⟨numbered.nonzero uid member, numbered.bounded uid member⟩⟩)

namespace Grows

variable {a b : LtfsIndex}

theorem refl (a : LtfsIndex) : Grows a a := .of_subperm rfl (.refl _)

theorem mem_uids (grows : Grows a b) {uid : UInt64} (member : uid ∈ b.root.uids) :
    uid ∈ a.root.uids ∨ a.highestFileUid < uid ∧ uid ≤ b.highestFileUid := by
  obtain ⟨fresh, _, range, within⟩ := grows.uids
  rcases List.mem_append.mp (within.subset member) with drawn | kept
  · exact .inr (range uid drawn)
  · exact .inl kept

theorem numbered (grows : Grows a b) (numbered : a.Numbered) : b.Numbered where
  distinct := by
    obtain ⟨fresh, nodup, range, within⟩ := grows.uids
    obtain ⟨list, perm, sublist⟩ := within
    refine perm.nodup_iff.mp (List.Nodup.sublist sublist ?_)
    refine List.nodup_append.mpr ⟨nodup, numbered.distinct, ?_⟩
    rintro uid drawn _ kept rfl
    exact UInt64.lt_irrefl _ (UInt64.lt_of_lt_of_le (range uid drawn).1 (numbered.bounded uid kept))
  nonzero := by
    intro uid member
    rcases grows.mem_uids member with kept | drawn
    · exact numbered.nonzero uid kept
    · rintro rfl
      exact absurd drawn.1 (UInt64.not_lt_zero)
  bounded := by
    intro uid member
    rcases grows.mem_uids member with kept | drawn
    · exact UInt64.le_trans (numbered.bounded uid kept) grows.highest
    · exact drawn.2

end Grows

end LtfsIndex

namespace Call

variable {call : Call} {a b : Volume}

def Room (call : Call) (volume : Volume) : Prop :=
  volume.working.highestFileUid.toNat + call.draws volume < UInt64.size

instance (call : Call) (volume : Volume) : Decidable (call.Room volume) :=
  inferInstanceAs (Decidable (_ < _))

theorem enters_grows (enters : call.Enters a b) (room : call.Room a) : LtfsIndex.Grows a.working b.working := by
  obtain ⟨middle, entry, quiet⟩ := enters
  refine LtfsIndex.Grows.trans ?_ quiet.working.grows
  unfold Room at room
  cases entry with
  | idle => exact .refl _
  | spent untargeted drawn =>
    rw [drawn] at room
    refine ⟨?_, [], List.nodup_nil, by simp, List.Subperm.refl _⟩
    have size : UInt64.size = 18446744073709551616 := rfl
    show a.working.highestFileUid ≤ a.working.highestFileUid + 1
    rw [UInt64.le_iff_toNat_le, UInt64.toNat_add, UInt64.toNat_one]
    omega
  | filed dirs name clock node targeted drawn named whole given =>
    rw [drawn] at room
    exact LtfsIndex.register_grows given room

end Call

namespace Mounted

variable {δ : Type} (drive : Drive δ) (host : Host)

theorem reaches_grows {first last : Mounted δ}
    (run : Run.Reaches (step drive host) (fun state call => call.1.Room state.volume) first last) :
    LtfsIndex.Grows first.volume.working last.volume.working := by
  refine run.related (P := fun _ => True) (R := fun a b => LtfsIndex.Grows a.volume.working b.volume.working)
    (fun _ _ _ _ => trivial) ?_ (fun state => .refl _) ?_ trivial
  · rintro state ⟨call, clock⟩ _ room
    exact Call.enters_grows (Call.run_enters drive host clock call state) room
  · intro a b c first second
    exact first.trans second

/-- From a mounted index with sound identifiers, calls that find the identifiers they draw keep them sound, and an
    identifier that is gone does not come back. -/
theorem uid_discipline {label : Label} {report : RecoveryReport} {maxChainLen : UInt32} {volume : Volume} {device : δ}
    {earlier middle last : Mounted δ} (mounted : Volume.mount label report maxChainLen = .ok volume)
    (numbered : volume.index.Numbered)
    (start : Run.Reaches (step drive host) (fun state call => call.1.Room state.volume) ⟨volume, device⟩ earlier)
    (between : Run.Reaches (step drive host) (fun state call => call.1.Room state.volume) earlier middle)
    (rest : Run.Reaches (step drive host) (fun state call => call.1.Room state.volume) middle last) :
    last.volume.working.Numbered ∧
      ∀ uid ∈ earlier.volume.working.root.uids, uid ∉ middle.volume.working.root.uids →
        uid ∉ last.volume.working.root.uids := by
  have initial : volume.working.Numbered := Volume.mount_working mounted ▸ numbered
  have early := (reaches_grows drive host start).numbered initial
  have rise := reaches_grows drive host between
  have late := reaches_grows drive host rest
  refine ⟨late.numbered (rise.numbered early), fun uid used gone back => ?_⟩
  rcases late.mem_uids back with kept | drawn
  · exact gone kept
  · have below := UInt64.le_trans (early.bounded uid used) rise.highest
    exact UInt64.lt_irrefl _ (UInt64.lt_of_lt_of_le drawn.1 below)

/-- A file replaced under its name: its identifier is gone for good. -/
theorem uid_discipline_replaced :
    let start : Mounted Unit := ⟨sampleVolume sampleIndex, ()⟩
    let earlier := step Drive.willing Host.sample start (.append "x/file" ⟨[], none⟩ [] none, sampleClock)
    let middle := step Drive.willing Host.sample earlier (.append "x/file" ⟨[], none⟩ [] none, sampleClock)
    let last := step Drive.willing Host.sample middle (.addSymlink "x/deep/link" "../file" none, sampleClock)
    last.volume.working.Numbered ∧ 3 ∈ earlier.volume.working.root.uids ∧ 3 ∉ last.volume.working.root.uids := by
  intro start earlier middle last
  have mounted : Volume.mount sampleLabel (sampleReport sampleIndex) 64 = .ok (sampleVolume sampleIndex) := rfl
  have first : Run.Follows (step Drive.willing Host.sample) (fun state call => call.1.Room state.volume) start
      [(.append "x/file" ⟨[], none⟩ [] none, sampleClock)] := by decide
  have second : Run.Follows (step Drive.willing Host.sample) (fun state call => call.1.Room state.volume) earlier
      [(.append "x/file" ⟨[], none⟩ [] none, sampleClock)] := by decide
  have third : Run.Follows (step Drive.willing Host.sample) (fun state call => call.1.Room state.volume) middle
      [(.addSymlink "x/deep/link" "../file" none, sampleClock)] := by decide
  obtain ⟨numbered, gone⟩ := uid_discipline Drive.willing Host.sample mounted (by decide) first.reaches second.reaches
    third.reaches
  exact ⟨numbered, by decide, gone 3 (by decide) (by decide)⟩

/-- A mounted index that has used the largest identifier: the next file gets zero. One that does not record the highest
    identifier: the next file gets the one of the root. -/
theorem uid_discipline_wrapped :
    let full : LtfsIndex := { sampleIndex with highestFileUid := 18446744073709551615 }
    let unknown : LtfsIndex := { sampleIndex with highestFileUid := 0 }
    let call : Call := .append "file" ⟨[], none⟩ [] none
    let wrapped := call.run Drive.willing Host.sample sampleClock ⟨sampleVolume full, ()⟩
    let shared := call.run Drive.willing Host.sample sampleClock ⟨sampleVolume unknown, ()⟩
    Volume.mount sampleLabel (sampleReport full) 64 = .ok (sampleVolume full) ∧ full.Numbered ∧ wrapped.1 = .ok () ∧
      0 ∈ wrapped.2.volume.working.root.uids ∧
    Volume.mount sampleLabel (sampleReport unknown) 64 = .ok (sampleVolume unknown) ∧ shared.1 = .ok () ∧
      ¬ shared.2.volume.working.root.uids.Nodup :=
  ⟨rfl, by decide, rfl, by decide, rfl, rfl, by decide⟩

end Mounted

end TapeRs.Ltfs
