import Mathlib.Data.List.Infix
import TapeRs.Core.DirNode

namespace TapeRs.Core.DirNode

open Assoc

/-- A file put at or taken from a path, or a directory made or removed there. -/
inductive Update where
  | file (dirs : List String) (name : String) (file : Option FileVersion)
  | directory (parts : List String) (remove : Bool)

namespace Update

def path : Update → List String
  | .file dirs name _ => dirs ++ [name]
  | .directory parts _ => parts

def written : Update → Option FileVersion
  | .file _ _ version => version
  | .directory .. => none

/-- Whether a directory is left at the path; taking a file away says nothing about it. -/
def directory? : Update → Option Bool
  | .file _ _ version => version.map fun _ => false
  | .directory parts remove => some (parts.isEmpty || !remove)

end Update

def update (node : DirNode) : Update → DirNode
  | .file dirs name file => node.withFile dirs name file
  | .directory parts remove => node.withDirectory parts remove

def built (updates : List Update) : DirNode := updates.foldl update {}

/-- The root after each of the updates, the empty tree first; all of them are kept as snapshots. -/
def roots (updates : List Update) : List DirNode := updates.inits.map built

/-- No directory holds a file and a subdirectory of one name. -/
def Sound (node : DirNode) : Prop :=
  ∀ parts dir, node.dirAt parts = some dir → ∀ name, Assoc.find name dir.files = none ∨ Assoc.find name dir.subdirs = none

variable {node : DirNode}

theorem sound_empty : Sound {} := by
  intro parts dir found
  cases parts with
  | nil => exact Option.some.inj found ▸ fun _ => .inl rfl
  | cons name rest => cases found

theorem Sound.inside (sound : Sound node) {name : String} {child : DirNode}
    (found : find name node.subdirs = some child) : Sound child := by
  intro parts dir below
  refine sound (name :: parts) dir ?_
  rw [dirAt_cons, found, Option.bind_some, below]

theorem Sound.child (sound : Sound node) (name : String) : Sound ((find name node.subdirs).getD {}) := by
  cases found : find name node.subdirs with
  | none => exact sound_empty
  | some child => exact sound.inside found

theorem Sound.change {edited : DirNode} (sound : Sound node) (name : String)
    (here : find name edited.files = none ∨ find name edited.subdirs = none)
    (inner : ∀ child, find name edited.subdirs = some child → Sound child)
    (others : ∀ other, other ≠ name → find other edited.files = find other node.files ∧
      find other edited.subdirs = find other node.subdirs) : Sound edited := by
  intro parts dir found
  cases parts with
  | nil =>
    obtain rfl := Option.some.inj found
    intro other
    by_cases same : other = name
    · exact same ▸ here
    · rw [(others other same).1, (others other same).2]
      exact sound [] node rfl other
  | cons first rest =>
    rw [dirAt_cons] at found
    obtain ⟨child, held, found⟩ := Option.bind_eq_some_iff.mp found
    by_cases same : first = name
    · exact inner child (same ▸ held) rest dir found
    · exact sound.inside ((others first same).2 ▸ held) rest dir found

theorem Sound.place {child : DirNode} (sound : Sound node) (placed : Sound child) (name : String) :
    Sound { files := erase name node.files, subdirs := insert name child node.subdirs } := by
  refine sound.change name ?_ ?_ ?_
  · simp [find_erase]
  · simpa [find_insert] using placed
  · intro other different
    simp [find_erase, find_insert, different]

theorem Sound.withFile (sound : Sound node) (dirs : List String) (name : String) (file : Option FileVersion) :
    Sound (node.withFile dirs name file) := by
  induction dirs generalizing node with
  | nil =>
    cases file with
    | some file =>
      refine sound.change name (.inr ?_) ?_ fun other different => ?_ <;>
        simp_all [DirNode.withFile, find_insert, find_erase]
    | none =>
      refine sound.change name (.inl ?_) (fun _ => sound.inside) fun other different => ?_ <;>
        simp_all [DirNode.withFile, find_erase]
  | cons dir rest ih =>
    rw [DirNode.withFile]
    split
    · exact sound
    · exact sound.place (ih (sound.child dir)) dir

theorem Sound.withDirectory (sound : Sound node) (parts : List String) (remove : Bool) :
    Sound (node.withDirectory parts remove) := by
  induction parts generalizing node with
  | nil => exact sound
  | cons name rest ih =>
    rw [DirNode.withDirectory]
    split
    · exact sound
    split
    · cases remove with
      | true => refine sound.change name (.inl ?_) ?_ fun other different => ?_ <;> simp_all [find_erase]
      | false => exact sound.place (sound.child name) name
    · exact sound.place (ih (sound.child name)) name

theorem sound_built (updates : List Update) : Sound (built updates) := by
  induction updates using List.reverseRecOn with
  | nil => exact sound_empty
  | append_singleton updates last ih =>
    rw [built, List.foldl_append]
    cases last with
    | file dirs name file => exact ih.withFile dirs name file
    | directory parts remove => exact ih.withDirectory parts remove

/-- Over any sequence of updates: no directory holds a file and a directory of one name, an update leaves what it wrote at
    its path and changes no path apart from it, and the earlier roots stay what they were. -/
theorem directory_tree_laws (updates : List Update) (u : Update) :
    Sound (built updates) ∧
    (∀ path, Text.components path = u.path → ((built updates).update u).get path = u.written) ∧
    (∀ there, u.directory? = some there → (((built updates).update u).dirAt u.path).isSome = there) ∧
    (∀ path, DirNode.Apart u.path (Text.components path) →
      ((built updates).update u).get path = (built updates).get path ∧
      ((built updates).update u).dirAt (Text.components path) = (built updates).dirAt (Text.components path)) ∧
    ∀ (i : Nat) (root : DirNode), (roots updates)[i]? = some root → (roots (updates ++ [u]))[i]? = some root := by
  refine ⟨sound_built updates, ?_, ?_, ?_, ?_⟩
  · intro path here
    rw [get_eq_fileAt, here]
    cases u with
    | file dirs name file => exact withFile_fileAt ..
    | directory parts remove =>
      cases parts with
      | nil => rfl
      | cons name rest => exact (withDirectory_at _ remove (by simp)).1
  · intro there left
    cases u with
    | file dirs name file =>
      cases file with
      | none => cases left
      | some file =>
        cases left
        rw [Option.isSome_eq_false_iff, Option.isNone_iff_eq_none]
        exact withFile_no_dirAt ..
    | directory parts remove =>
      cases left
      cases parts with
      | nil => rfl
      | cons name rest => exact (withDirectory_at _ remove (by simp)).2
  · intro path apart
    rw [get_eq_fileAt, get_eq_fileAt]
    cases u with
    | file dirs name file => exact withFile_apart _ dirs name file apart
    | directory parts remove => exact withDirectory_apart _ parts remove apart
  · intro i root found
    rw [roots, List.inits_append, List.map_append, ← roots]
    exact List.getElem?_append_left (List.getElem?_eq_some_iff.mp found).1 ▸ found

end TapeRs.Core.DirNode
