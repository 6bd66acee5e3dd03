import TapeRs.Core.Ledger
import TapeRs.Data.Text

namespace TapeRs.Core

open Assoc

structure FileVersion where
  version : Nat
  len : UInt64
  /-- Only a prefix is committed. -/
  partially : Bool
deriving DecidableEq, Repr

structure DirNode where
  files : List (String × FileVersion) := []
  subdirs : List (String × DirNode) := []

def splitPath (path : Path) : Option (List String × String) :=
  match (Text.components path).getLast? with
  | none => none
  | some name => some ((Text.components path).dropLast, name)

namespace DirNode

def getIn (node : DirNode) (dirs : List String) (name : String) : Option FileVersion :=
  match dirs with
  | [] => Assoc.find name node.files
  | dir :: rest =>
    match Assoc.find dir node.subdirs with
    | none => none
    | some child => child.getIn rest name

def get (node : DirNode) (path : Path) : Option FileVersion :=
  match splitPath path with
  | none => none
  | some (dirs, name) => node.getIn dirs name

def withDirectory (node : DirNode) (parts : List String) (remove : Bool) : DirNode :=
  match parts with
  | [] => node
  | name :: rest =>
    if remove && !rest.isEmpty && (Assoc.find name node.subdirs).isNone then node
    else if rest.isEmpty then
      { files := Assoc.erase name node.files
        subdirs :=
          if remove then Assoc.erase name node.subdirs
          else Assoc.insert name ((Assoc.find name node.subdirs).getD {}) node.subdirs }
    else
      { files := Assoc.erase name node.files
        subdirs :=
          Assoc.insert name (((Assoc.find name node.subdirs).getD {}).withDirectory rest remove) node.subdirs }

/-- A copy of the tree with a file put at a path, or taken away when there is none to put. -/
def withFile (node : DirNode) (dirs : List String) (name : String) (file : Option FileVersion) : DirNode :=
  match dirs with
  | [] =>
    match file with
    | some file =>
      { files := Assoc.insert name file node.files, subdirs := Assoc.erase name node.subdirs }
    | none => { files := Assoc.erase name node.files, subdirs := node.subdirs }
  | dir :: rest =>
    if file.isNone && (Assoc.find dir node.subdirs).isNone then node
    else
      { files := Assoc.erase dir node.files
        subdirs :=
          Assoc.insert dir (((Assoc.find dir node.subdirs).getD {}).withFile rest name file) node.subdirs }

section View

def fileAt (node : DirNode) : List String → Option FileVersion
  | [] => none
  | [name] => Assoc.find name node.files
  | dir :: next :: rest =>
    match Assoc.find dir node.subdirs with
    | none => none
    | some child => child.fileAt (next :: rest)

def dirAt (node : DirNode) : List String → Option DirNode
  | [] => some node
  | dir :: rest =>
    match Assoc.find dir node.subdirs with
    | none => none
    | some child => child.dirAt rest

def Apart (left right : List String) : Prop :=
  ¬ left <+: right ∧ ¬ right <+: left

instance (left right : List String) : Decidable (Apart left right) :=
  inferInstanceAs (Decidable (_ ∧ _))

theorem fileAt_getIn (node : DirNode) (dirs : List String) (name : String) :
    node.fileAt (dirs ++ [name]) = node.getIn dirs name := by
  induction dirs generalizing node with
  | nil => rfl
  | cons dir rest ih =>
    rw [getIn]
    cases rest with
    | nil =>
      show (match find dir node.subdirs with
        | none => none
        | some child => child.fileAt [name]) = _
      rfl
    | cons next later =>
      show (match find dir node.subdirs with
        | none => none
        | some child => child.fileAt (next :: later ++ [name])) = _
      cases find dir node.subdirs with
      | none => rfl
      | some child => exact ih child

theorem splitPath_eq_some {path : Path} {dirs : List String} {name : String} :
    splitPath path = some (dirs, name) ↔ Text.components path = dirs ++ [name] := by
  unfold splitPath
  cases last : (Text.components path).getLast? with
  | none =>
    rw [List.getLast?_eq_none_iff] at last
    simp [last]
  | some final =>
    obtain ⟨front, parts⟩ := List.getLast?_eq_some_iff.mp last
    rw [parts, List.dropLast_concat]
    constructor
    · intro same
      cases same
      rfl
    · intro same
      obtain ⟨rfl, single⟩ := List.append_inj' same rfl
      cases single
      rfl

theorem splitPath_eq_none {path : Path} : splitPath path = none ↔ Text.components path = [] := by
  unfold splitPath
  cases last : (Text.components path).getLast? with
  | none => simpa using last
  | some final =>
    simp only [reduceCtorEq, false_iff]
    intro empty
    rw [empty] at last
    cases last

theorem get_eq_fileAt (node : DirNode) (path : Path) : node.get path = node.fileAt (Text.components path) := by
  unfold get
  cases parts : splitPath path with
  | none => rw [splitPath_eq_none.mp parts, fileAt]
  | some pair =>
    obtain ⟨dirs, name⟩ := pair
    rw [splitPath_eq_some.mp parts, fileAt_getIn]

theorem fileAt_cons (node : DirNode) (dir : String) {rest : List String} (deeper : rest ≠ []) :
    node.fileAt (dir :: rest) = (find dir node.subdirs).bind (·.fileAt rest) := by
  cases rest with
  | nil => exact absurd rfl deeper
  | cons next later =>
    rw [fileAt]
    cases find dir node.subdirs <;> rfl

theorem dirAt_cons (node : DirNode) (dir : String) (rest : List String) :
    node.dirAt (dir :: rest) = (find dir node.subdirs).bind (·.dirAt rest) := by
  rw [dirAt]
  cases find dir node.subdirs <;> rfl

theorem empty_fileAt (parts : List String) : ({} : DirNode).fileAt parts = none := by
  cases parts with
  | nil => rfl
  | cons dir rest => cases rest <;> rfl

end View

section Edits

variable {dir : String} {other : List String}

def SameAt (left right : DirNode) (parts : List String) : Prop :=
  left.fileAt parts = right.fileAt parts ∧ left.dirAt parts = right.dirAt parts

theorem Apart.cons {left right : List String} (apart : Apart (dir :: left) (dir :: right)) : Apart left right := by
  simpa [Apart, List.cons_prefix_cons] using apart

theorem Apart.ne_nil {left right : List String} (apart : Apart left right) : right ≠ [] := by
  rintro rfl
  exact apart.2 List.nil_prefix

theorem sameAt_other {node edited : DirNode} (files : find dir edited.files = find dir node.files)
    (subdirs : find dir edited.subdirs = find dir node.subdirs) (rest : List String) :
    edited.SameAt node (dir :: rest) := by
  constructor
  · cases rest with
    | nil => exact files
    | cons next later => rw [fileAt_cons _ _ (by simp), fileAt_cons _ _ (by simp), subdirs]
  · rw [dirAt_cons, dirAt_cons, subdirs]

theorem sameAt_child {node : DirNode} {child : DirNode} {parts : List String}
    (inside : ∀ other, Apart parts other → child.SameAt ((find dir node.subdirs).getD {}) other)
    (apart : Apart (dir :: parts) other) :
    SameAt { files := erase dir node.files, subdirs := insert dir child node.subdirs } node other := by
  cases other with
  | nil => exact absurd rfl apart.ne_nil
  | cons first rest =>
    by_cases same : first = dir
    · subst same
      have deeper := apart.cons.ne_nil
      obtain ⟨files, dirs⟩ := inside rest apart.cons
      constructor
      · rw [fileAt_cons _ _ deeper, fileAt_cons _ _ deeper, find_insert, if_pos rfl, Option.bind_some, files]
        cases find first node.subdirs with
        | none => exact empty_fileAt rest
        | some prior => rfl
      · rw [dirAt_cons, dirAt_cons, find_insert, if_pos rfl, Option.bind_some, dirs]
        cases find first node.subdirs with
        | none =>
          obtain ⟨next, later, rfl⟩ := List.exists_cons_of_ne_nil deeper
          rfl
        | some prior => rfl
    · exact sameAt_other (by simp [find_erase, same]) (by simp [find_insert, same]) rest

theorem withFile_apart (node : DirNode) (dirs : List String) (name : String) (file : Option FileVersion)
    (apart : Apart (dirs ++ [name]) other) : (node.withFile dirs name file).SameAt node other := by
  induction dirs generalizing node other with
  | nil =>
    cases other with
    | nil => exact absurd rfl apart.ne_nil
    | cons first rest =>
      have different : first ≠ name := by
        rintro rfl
        exact apart.1 ⟨rest, rfl⟩
      cases file with
      | none =>
        have files : find first (node.withFile [] name none).files = find first node.files := by
          simp [withFile, find_erase, different]
        exact sameAt_other files rfl rest
      | some file =>
        exact sameAt_other (by simp [withFile, find_insert, different])
          (by simp [withFile, find_erase, different]) rest
  | cons dir later ih =>
    rw [withFile]
    split
    · exact ⟨rfl, rfl⟩
    · exact sameAt_child (fun _ inner => ih _ inner) apart

theorem withFile_fileAt (node : DirNode) (dirs : List String) (name : String) (file : Option FileVersion) :
    (node.withFile dirs name file).fileAt (dirs ++ [name]) = file := by
  induction dirs generalizing node with
  | nil =>
    cases file with
    | none => simp [withFile, fileAt, find_erase]
    | some file => simp [withFile, fileAt, find_insert]
  | cons dir later ih =>
    rw [List.cons_append, fileAt_cons _ _ (by simp), withFile]
    split
    · rename_i absent
      simp only [Bool.and_eq_true, Option.isNone_iff_eq_none] at absent
      rw [absent.1, absent.2]
      rfl
    · rw [find_insert, if_pos rfl, Option.bind_some, ih]

theorem withFile_no_dirAt (node : DirNode) (dirs : List String) (name : String) (file : FileVersion) :
    (node.withFile dirs name (some file)).dirAt (dirs ++ [name]) = none := by
  induction dirs generalizing node with
  | nil => simp [withFile, dirAt, find_erase]
  | cons dir later ih =>
    rw [List.cons_append, dirAt_cons, withFile, if_neg (by simp), find_insert, if_pos rfl, Option.bind_some, ih]

theorem withDirectory_apart (node : DirNode) (parts : List String) (remove : Bool) (apart : Apart parts other) :
    (node.withDirectory parts remove).SameAt node other := by
  induction parts generalizing node other with
  | nil => exact ⟨rfl, rfl⟩
  | cons name rest ih =>
    rw [withDirectory]
    by_cases skipped : (remove && !rest.isEmpty && (find name node.subdirs).isNone) = true
    · rw [if_pos skipped]
      exact ⟨rfl, rfl⟩
    rw [if_neg skipped]
    by_cases leaf : rest.isEmpty = true
    · rw [if_pos leaf]
      cases other with
      | nil => exact absurd rfl apart.ne_nil
      | cons first later =>
        have different : first ≠ name := by
          rintro rfl
          rw [List.isEmpty_iff.mp leaf] at apart
          exact apart.1 ⟨later, rfl⟩
        refine sameAt_other (by simp [find_erase, different]) ?_ later
        cases remove with
        | true => simp [find_erase, different]
        | false => simp [find_insert, different]
    · rw [if_neg leaf]
      exact sameAt_child (fun _ inner => ih _ inner) apart

theorem withDirectory_at (node : DirNode) {parts : List String} (remove : Bool) (proper : parts ≠ []) :
    (node.withDirectory parts remove).fileAt parts = none ∧
      ((node.withDirectory parts remove).dirAt parts).isSome = !remove := by
  induction parts generalizing node with
  | nil => exact absurd rfl proper
  | cons name rest ih =>
    rw [withDirectory]
    by_cases skipped : (remove && !rest.isEmpty && (find name node.subdirs).isNone) = true
    · rw [if_pos skipped]
      simp only [Bool.and_eq_true, Bool.not_eq_true', List.isEmpty_eq_false_iff, Option.isNone_iff_eq_none] at skipped
      rw [fileAt_cons _ _ skipped.1.2, dirAt_cons, skipped.2, skipped.1.1]
      exact ⟨rfl, rfl⟩
    · rw [if_neg skipped]
      by_cases leaf : rest.isEmpty = true
      · rw [if_pos leaf, List.isEmpty_iff.mp leaf]
        constructor
        · simp [fileAt, find_erase]
        · cases remove with
          | true => simp [dirAt, find_erase]
          | false => simp [dirAt, find_insert]
      · have deeper : rest ≠ [] := by simpa using leaf
        rw [if_neg leaf, fileAt_cons _ _ deeper, dirAt_cons, find_insert, if_pos rfl, Option.bind_some,
          Option.bind_some]
        exact ih _ deeper

end Edits

end DirNode

end TapeRs.Core
